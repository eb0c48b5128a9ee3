import Xul.Text.Base64Encoding

/-!
# Lines of base64

With a line delimiter set, `do_encode` copies it behind 72 characters and counts it, but does not
move its place to write on.  The delimiter stays only behind the last line, and only if there are
no more characters.  54 bytes are encoded as one line; of more bytes the first line is too long
(`wraps_iff`).
-/

set_option autoImplicit false

namespace Xul

open Foundation

namespace Base64Encoding

/-- The lines of a text between its CRLF pairs. -/
def linesOf : Bytes → List Bytes
  | [] => [[]]
  | 13 :: 10 :: text => [] :: linesOf text
  | ch :: text => (ch :: (linesOf text).headD []) :: (linesOf text).tail

/-- With CRLF as the delimiter, the lines of what is encoded make up the unwrapped characters, they
are of 72 characters at most, and they are decoded as what they encode. -/
def Wraps (s : Bytes) : Prop :=
  ∃ text plain, encode crlf s = some text ∧ encode [] s = some plain ∧
    (linesOf text).flatten = plain ∧ (∀ line ∈ linesOf text, line.length ≤ maxLineLength) ∧
    decode text = some s

/-! ## Lines -/

theorem linesOf_ne_nil (text : Bytes) : linesOf text ≠ [] := by
  fun_cases linesOf text <;> exact List.cons_ne_nil _ _

theorem linesOf_append {text : Bytes} (clean : ∀ ch ∈ text, ch ≠ 13) (rest : Bytes) :
    linesOf (text ++ rest) = (text ++ (linesOf rest).headD []) :: (linesOf rest).tail := by
  induction text with
  | nil =>
      obtain ⟨line, lines, same⟩ := List.exists_cons_of_ne_nil (linesOf_ne_nil rest)
      rw [List.nil_append, same]
      rfl
  | cons ch text ih =>
      rw [List.forall_mem_cons] at clean
      rw [List.cons_append, linesOf, ih clean.2]
      · rfl
      · intro _ isReturn
        exact absurd isReturn clean.1

/-- Nothing but letters and padding is encoded. -/
theorem mem_encoded {src : Bytes} {ch : UInt8} (member : ch ∈ encoded src) :
    ch = 61 ∨ ∃ value < 64, ch = letter value := by
  have letters : ∀ c1 c2 c3 : UInt8, ∀ ch ∈ group c1 c2 c3, ∃ value < 64, ch = letter value := by
    intro c1 c2 c3 ch member
    have first := c1.toNat_lt
    have second := c2.toNat_lt
    have third := c3.toNat_lt
    simp only [group, List.mem_cons, List.not_mem_nil, or_false] at member
    rcases member with rfl | rfl | rfl | rfl
    · exact ⟨_, by omega, rfl⟩
    · exact ⟨_, by omega, rfl⟩
    · exact ⟨_, by omega, rfl⟩
    · exact ⟨_, by omega, rfl⟩
  induction src using encoded.induct with
  | case1 c1 c2 c3 src ih =>
      rw [encoded, List.mem_append] at member
      exact member.elim (fun here => .inr (letters c1 c2 c3 ch here)) ih
  | case2 c1 =>
      rw [encoded, List.mem_append] at member
      rcases member with here | padding
      · exact .inr (letters c1 0 0 ch (List.mem_of_mem_take here))
      · exact .inl (by simpa using padding)
  | case3 c1 c2 =>
      rw [encoded, List.mem_append] at member
      rcases member with here | padding
      · exact .inr (letters c1 c2 0 ch (List.mem_of_mem_take here))
      · exact .inl (by simpa using padding)
  | case4 =>
      rw [encoded] at member
      exact absurd member List.not_mem_nil

theorem ne_return_of_mem_encoded {src : Bytes} {ch : UInt8} (member : ch ∈ encoded src) :
    ch ≠ 13 := by
  rcases mem_encoded member with rfl | ⟨value, small, rfl⟩
  · decide
  · exact (letter_spec small).2.2.1

/-! ## One line -/

/-- The delimiter stays at the end of a line when nothing is written behind it. -/
theorem endLine_of_full {encoder : Encoder} {text : Bytes} (wrote : encoder.Wrote text 0)
    (full : maxLineLength - 4 < encoder.nLineLen) (room : text.length + 2 ≤ encoder.dst.length) :
    ∃ after, encoder.endLine crlf = some after ∧
      resize after.dst after.nDstLen = text ++ crlf := by
  obtain ⟨tail, start⟩ := wrote.start
  have fits : crlf.length ≤ tail.length := by
    rw [← start, List.length_append] at room
    show 2 ≤ tail.length
    omega
  have assigned := assignAll_append crlf text tail
  rw [if_pos fits, start] at assigned
  have some : 0 < crlf.length := Nat.succ_pos 1
  refine ⟨⟨text ++ crlf ++ tail.drop crlf.length, text.length, encoder.nDstLen + crlf.length, 0⟩,
    ?_, ?_⟩
  · rw [Encoder.endLine, if_pos full, if_pos some, wrote.place, assigned]
    rfl
  · rw [wrote.counted, Nat.add_zero, ← List.length_append]
    exact resize_append _ _

/-- Characters that do not exceed a line: at its end, the delimiter stays behind them. -/
theorem doEncode_line (src : Bytes) {encoder : Encoder} {text : Bytes}
    (wrote : encoder.Wrote text 0)
    (line : encoder.nLineLen + 4 * ((src.length + 2) / 3) ≤ maxLineLength)
    (room : text.length + (encoded src).length + 2 ≤ encoder.dst.length) :
    ∃ after rest, doEncode crlf src encoder = some after ∧
      resize after.dst after.nDstLen = text ++ encoded src ++ rest ∧
      (rest = [] ∨ rest = crlf ∧ src.length % 3 = 0) := by
  -- No line is ended behind padding.
  have padded : ∀ {encoder : Encoder} {text : Bytes} (src : Bytes), encoder.Wrote text 0 →
      doEncode crlf src encoder = doEncode [] src encoder →
      text.length + (encoded src).length + 2 ≤ encoder.dst.length →
      ∃ after rest, doEncode crlf src encoder = some after ∧
        resize after.dst after.nDstLen = text ++ encoded src ++ rest ∧
        (rest = [] ∨ rest = crlf ∧ src.length % 3 = 0) := by
    intro encoder text src wrote same room
    obtain ⟨after, more, done, wroteAll, -, plain⟩ := wrote.doEncode [] src
      (Nat.le_of_add_right_le room)
    refine ⟨after, [], same.trans done, ?_, .inl rfl⟩
    rw [wroteAll.counted, plain rfl, Nat.add_zero, List.append_nil]
    exact resize_of_isPrefix wroteAll.start
  induction src using encoded.induct generalizing encoder text with
  | case1 c1 c2 c3 src ih =>
      have size : (encoded (c1 :: c2 :: c3 :: src)).length = 4 + (encoded src).length :=
        List.length_append
      have three : (c1 :: c2 :: c3 :: src).length = src.length + 3 := rfl
      have four : (group c1 c2 c3).length = 4 := rfl
      obtain ⟨dst, put, counted, length⟩ := @Encoder.Wrote.put _ _ _ wrote (group c1 c2 c3) rfl
        (by omega)
      have roomNext : (text ++ group c1 c2 c3).length + (encoded src).length + 2 ≤ dst.length := by
        rw [List.length_append, four, length]
        omega
      rw [three] at line
      rw [doEncode_full, put, Option.bind_some, encoded, ← List.append_assoc]
      by_cases full : maxLineLength - 4 < encoder.nLineLen + 4
      · have last : src = [] := by
          apply List.eq_nil_of_length_eq_zero
          simp only [maxLineLength] at full line
          omega
        obtain ⟨after, ended, kept⟩ := endLine_of_full (counted _) full
          (Nat.le_trans (by omega) roomNext)
        refine ⟨after, crlf, by rw [ended, last]; rfl, ?_, .inr ⟨rfl, by rw [three, last]; rfl⟩⟩
        rw [kept, last, encoded, List.append_nil]
      · obtain ⟨after, rest, done, kept, which⟩ := ih (counted (encoder.nLineLen + 4))
          (show encoder.nLineLen + 4 + _ ≤ _ by omega) roomNext
        refine ⟨after, rest, ?_, kept, ?_⟩
        · rw [Encoder.endLine, if_neg full, Option.bind_some]
          exact done
        · rwa [three, Nat.add_mod_right]
  | case2 c1 => exact padded [c1] wrote (by rw [doEncode_one, doEncode_one]) room
  | case3 c1 c2 => exact padded [c1, c2] wrote (by rw [doEncode_two, doEncode_two]) room
  | case4 =>
      refine ⟨encoder, [], by rw [doEncode], ?_, .inl rfl⟩
      rw [encoded, List.append_nil, List.append_nil, wrote.counted]
      exact resize_of_isPrefix wrote.start

/-! ## Wrapping -/

theorem room_of_crlf (s : Bytes) (nonempty : s ≠ []) :
    ([] : Bytes).length + (encoded s).length + crlf.length ≤
      (resize [] (calcEnoughEncodedLength s.length)).length := by
  have room := length_encoded_le s nonempty
  rw [length_resize, List.length_nil]
  show 0 + (encoded s).length + 2 ≤ _
  omega

theorem wraps_of_short {s : Bytes} (short : s.length ≤ 54) : Wraps s := by
  by_cases empty : s = []
  · rw [empty]
    refine ⟨[], [], rfl, rfl, rfl, ?_, rfl⟩
    intro line member
    rw [List.mem_singleton.mp member]
    exact Nat.zero_le _
  · have size : (encoded s).length ≤ maxLineLength := by
      rw [length_encoded, maxLineLength]
      omega
    obtain ⟨after, rest, done, kept, which⟩ := doEncode_line s (wrote_start _)
      (by rw [Nat.zero_add, maxLineLength]; omega) (room_of_crlf s empty)
    rw [List.nil_append] at kept
    have clean : ∀ ch ∈ encoded s, ch ≠ 13 := fun ch => ne_return_of_mem_encoded
    have positive := Nat.lt_of_lt_of_le (Nat.lt_add_left _ Nat.two_pos) (length_encoded_le s empty)
    have encodes : encode crlf s = some (encoded s ++ rest) := by
      rw [encode, if_pos positive, done, Option.map_some, kept]
    have breaks : ∀ ch ∈ rest, ch = 13 ∨ ch = 10 := by
      rcases which with rfl | ⟨rfl, -⟩
      · exact fun ch member => absurd member List.not_mem_nil
      · decide
    have whole : s.length % 3 = 0 ∨ rest = [] := which.symm.imp_left And.right
    have lines : linesOf (encoded s ++ rest) = [encoded s] ∨
        linesOf (encoded s ++ rest) = [encoded s, []] := by
      rw [linesOf_append clean]
      rcases which with rfl | ⟨rfl, -⟩
      · exact .inl (by rw [linesOf, List.headD_cons, List.append_nil]; rfl)
      · exact .inr (by rw [crlf, linesOf, linesOf, List.headD_cons, List.append_nil]; rfl)
    refine ⟨encoded s ++ rest, encoded s, encodes, encode_nil s, ?_, ?_,
      decode_encoded s breaks whole⟩
    · rcases lines with one | two
      · rw [one, List.flatten_singleton]
      · rw [two, List.flatten_cons, List.flatten_singleton, List.append_nil]
    · intro line member
      rcases lines with one | two
      · rw [one, List.mem_singleton] at member
        rwa [member]
      · rw [two, List.mem_cons, List.mem_singleton] at member
        rcases member with rfl | rfl
        · exact size
        · exact Nat.zero_le _

/-- What is counted behind a text are bytes that are left of the buffer. -/
theorem resize_append_add (text tail : Bytes) (more : Nat) :
    resize (text ++ tail) (text.length + more) = text ++ resize tail more := by
  have missing : text.length + more - (text ++ tail).length = more - tail.length := by
    rw [List.length_append]
    omega
  rw [resize, resize, List.take_length_add_append, missing, List.append_assoc]

/-- The characters of more than 54 bytes begin with a line that is too long. -/
theorem not_wraps_of_long {s : Bytes} (long : 54 < s.length) : ¬ Wraps s := by
  rintro ⟨text, plain, encodes, -, -, short, -⟩
  have nonempty : s ≠ [] := List.ne_nil_of_length_pos (by omega)
  obtain ⟨after, more, done, wrote, -, -⟩ := (wrote_start _).doEncode crlf s
    (room_of_crlf s nonempty)
  obtain ⟨tail, start⟩ := wrote.start
  rw [List.nil_append] at start wrote
  have positive :=
    Nat.lt_of_lt_of_le (Nat.lt_add_left _ Nat.two_pos) (length_encoded_le s nonempty)
  rw [encode, if_pos positive, done, Option.map_some, wrote.counted, ← start,
    resize_append_add] at encodes
  have first := short (encoded s ++ (linesOf (resize tail more)).headD []) (by
    rw [← Option.some.inj encodes, linesOf_append fun ch => ne_return_of_mem_encoded]
    exact List.mem_cons_self)
  rw [List.length_append, length_encoded, maxLineLength] at first
  omega

/-- **Lines are wrapped for 54 bytes at most.** -/
theorem wraps_iff (s : Bytes) : Wraps s ↔ s.length ≤ 54 := by
  constructor
  · intro wraps
    by_contra long
    exact not_wraps_of_long (not_le.mp long) wraps
  · exact wraps_of_short

/-- 55 bytes. -/
theorem not_wraps_fiftyFive : ¬ Wraps (List.replicate 55 65) :=
  not_wraps_of_long (by rw [List.length_replicate]; decide)

end Base64Encoding

end Xul
