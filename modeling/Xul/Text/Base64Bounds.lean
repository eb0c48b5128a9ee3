import Xul.Text.Base64Encoding

/-!
# What decoding base64 reads

`do_decode` counts four characters for every group, and takes two, three or four of them from where
it stands; a padding character stays where it is.  It does not look at how many characters are left
before it takes them, nor whether they are inside its table.  What it reads is inside the input and
the table exactly if the input is made up of whole groups and line breaks, in its own way of
counting (`inBounds_iff`).  What it writes then fits into the buffer.
-/

set_option autoImplicit false

namespace Xul

open Foundation

namespace Base64Encoding

/-- Everything that is read of the input or of the table and written to the buffer is inside. -/
def InBounds (str : Bytes) : Prop := decode str ≠ none

/-- The characters of a group are inside the table; a group of two or three is followed by padding,
which is left. -/
inductive Group : Bytes → Bytes → Prop
  | two {a b : UInt8} {src : Bytes} : a < 128 → b < 128 → Group (a :: b :: 61 :: src) (61 :: src)
  | three {a b c : UInt8} {src : Bytes} : a < 128 → b < 128 → c < 128 → c ≠ 61 →
      Group (a :: b :: c :: 61 :: src) (61 :: src)
  | four {a b c e : UInt8} {src : Bytes} : a < 128 → b < 128 → c < 128 → e < 128 → c ≠ 61 →
      e ≠ 61 → Group (a :: b :: c :: e :: src) src

/-- Groups and line breaks, until as many characters are counted. -/
inductive Grouped : Nat → Bytes → Prop
  | done {src : Bytes} : Grouped 0 src
  | lineBreak {left : Nat} {ch : UInt8} {src : Bytes} : ch = 13 ∨ ch = 10 → Grouped left src →
      Grouped (left + 1) (ch :: src)
  | group {left : Nat} {ch : UInt8} {src rest : Bytes} : ch ≠ 13 → ch ≠ 10 →
      Group (ch :: src) rest → Grouped (left - 3) rest → Grouped (left + 1) (ch :: src)

/-! ## One group -/

theorem readSix_eq_some {src rest : Bytes} {value : Nat} (read : readSix src = some (value, rest)) :
    ∃ ch, src = ch :: rest ∧ ch < 128 := by
  cases src with
  | nil => cases read
  | cons ch src =>
      rw [readSix, Option.ite_none_right_eq_some] at read
      obtain ⟨inside, same⟩ := read
      obtain ⟨-, rfl⟩ := Prod.mk.inj (Option.some.inj same)
      exact ⟨ch, rfl, inside⟩

/-- What is decoded is a group, -/
theorem group_of_decodeGroup {src rest : Bytes} {decoder after : Decoder}
    (decoded : decodeGroup src decoder = some (rest, after)) : Group src rest := by
  simp only [decodeGroup, Option.bind_eq_bind, Option.bind_eq_some_iff] at decoded
  obtain ⟨⟨first, src1⟩, read1, ⟨second, src2⟩, read2, one, put1, ch, head, decoded⟩ := decoded
  obtain ⟨a, rfl, inside1⟩ := readSix_eq_some read1
  obtain ⟨b, rfl, inside2⟩ := readSix_eq_some read2
  obtain ⟨src, rfl⟩ := List.head?_eq_some_iff.mp head
  by_cases padding : ch = 61
  · rw [if_pos padding] at decoded
    obtain ⟨rfl, -⟩ := Prod.mk.inj (Option.some.inj decoded)
    rw [padding]
    exact .two inside1 inside2
  · simp only [if_neg padding, Option.bind_eq_some_iff] at decoded
    obtain ⟨⟨third, src3⟩, read3, two, put2, next, head, decoded⟩ := decoded
    obtain ⟨c, same, inside3⟩ := readSix_eq_some read3
    obtain ⟨rfl, rfl⟩ := List.cons.inj same
    obtain ⟨src, rfl⟩ := List.head?_eq_some_iff.mp head
    by_cases last : next = 61
    · rw [if_pos last] at decoded
      obtain ⟨rfl, -⟩ := Prod.mk.inj (Option.some.inj decoded)
      rw [last]
      exact .three inside1 inside2 inside3 padding
    · simp only [if_neg last, Option.bind_eq_some_iff] at decoded
      obtain ⟨⟨fourth, src4⟩, read4, three, put3, decoded⟩ := decoded
      obtain ⟨e, same, inside4⟩ := readSix_eq_some read4
      obtain ⟨rfl, rfl⟩ := List.cons.inj same
      obtain ⟨rfl, -⟩ := Prod.mk.inj (Option.some.inj decoded)
      exact .four inside1 inside2 inside3 inside4 padding last

/-- There is room for as many bytes as there are characters left. -/
structure Room (decoder : Decoder) (bytes src : Bytes) : Prop extends decoder.Wrote bytes where
  room : bytes.length + src.length ≤ decoder.dst.length

variable {decoder : Decoder} {bytes : Bytes}

/-- and a group is decoded, into fewer bytes than it has characters. -/
theorem Room.decodeGroup {src rest : Bytes} (room : Room decoder bytes src)
    (group : Group src rest) :
    ∃ after written, Base64Encoding.decodeGroup src decoder = some (rest, after) ∧
      Room after written rest := by
  have length := room.room
  cases group with
  | @two a b src inside1 inside2 =>
      simp only [List.length_cons] at length
      obtain ⟨one, put1, wrote1, same1⟩ := room.put (by omega) (firstValue a b)
      refine ⟨one, _, ?_, wrote1, ?_⟩
      · rw [decodeGroup_two inside1 inside2, put1, Option.map_some]
      · simp only [List.length_append, List.length_cons, List.length_nil, same1]
        omega
  | @three a b c src inside1 inside2 inside3 noPadding =>
      simp only [List.length_cons] at length
      obtain ⟨one, put1, wrote1, same1⟩ := room.put (by omega) (firstValue a b)
      obtain ⟨two, put2, wrote2, same2⟩ := wrote1.put
        (by rw [List.length_append, List.length_singleton]; omega) (secondValue a b c)
      refine ⟨two, _, ?_, wrote2, ?_⟩
      · rw [decodeGroup_three inside1 inside2 inside3 noPadding, put1, Option.bind_some, put2,
          Option.map_some]
      · simp only [List.length_append, List.length_cons, List.length_nil, same2, same1]
        omega
  | @four a b c e src inside1 inside2 inside3 inside4 noPadding none =>
      simp only [List.length_cons] at length
      obtain ⟨one, put1, wrote1, same1⟩ := room.put (by omega) (firstValue a b)
      obtain ⟨two, put2, wrote2, same2⟩ := wrote1.put
        (by rw [List.length_append, List.length_singleton]; omega) (secondValue a b c)
      obtain ⟨three, put3, wrote3, same3⟩ := wrote2.put
        (by simp only [List.length_append, List.length_singleton]; omega) (thirdValue a b c e)
      refine ⟨three, _, ?_, wrote3, ?_⟩
      · rw [decodeGroup_four inside1 inside2 inside3 inside4 noPadding none, put1, Option.bind_some,
          put2, Option.bind_some, put3, Option.map_some]
      · simp only [List.length_append, List.length_cons, List.length_nil, same3, same2, same1]
        omega

/-! ## The loop -/

/-- **The loop stays inside exactly if there are groups and line breaks until it ends.** -/
theorem Room.decodeLoop_iff {fuel left : Nat} {src : Bytes} (room : Room decoder bytes src)
    (enough : left ≤ fuel) :
    decodeLoop fuel left src decoder ≠ none ↔ Grouped left src := by
  induction fuel generalizing left src decoder bytes with
  | zero =>
      obtain rfl := Nat.le_zero.mp enough
      exact iff_of_true (Option.some_ne_none _) .done
  | succ fuel ih =>
      cases left with
      | zero =>
          rw [decodeLoop_zero]
          exact iff_of_true (Option.some_ne_none _) .done
      | succ left =>
          cases src with
          | nil =>
              refine iff_of_false (not_not.mpr ?_) nofun
              rw [decodeLoop, if_neg (Nat.succ_ne_zero left)]
              rfl
          | cons ch src =>
              by_cases noBreak : ch ≠ 13 ∧ ch ≠ 10
              · constructor
                · intro inside
                  cases decoded : Base64Encoding.decodeGroup (ch :: src) decoder with
                  | none =>
                      rw [decodeLoop, if_neg (Nat.succ_ne_zero left)] at inside
                      simp [noBreak, decoded] at inside
                  | some outcome =>
                      obtain ⟨rest, after⟩ := outcome
                      have group := group_of_decodeGroup decoded
                      obtain ⟨next, written, same, roomNext⟩ := room.decodeGroup group
                      obtain ⟨-, rfl⟩ := Prod.mk.inj (Option.some.inj (same.symm.trans decoded))
                      rw [decodeLoop_group noBreak decoded, ih roomNext (by omega)] at inside
                      exact .group noBreak.1 noBreak.2 group inside
                · intro grouped
                  cases grouped with
                  | lineBreak isBreak => exact absurd noBreak fun other => isBreak.elim other.1 other.2
                  | group _ _ group grouped =>
                      obtain ⟨next, written, decoded, roomNext⟩ := room.decodeGroup group
                      rw [decodeLoop_group noBreak decoded, ih roomNext (by omega)]
                      exact grouped
              · have isBreak : ch = 13 ∨ ch = 10 := by
                  rwa [not_and_or, not_not, not_not] at noBreak
                have less : Room decoder bytes src :=
                  ⟨room.toWrote, Nat.le_trans (Nat.le_succ _) room.room⟩
                rw [decodeLoop_break isBreak, ih less (Nat.le_of_succ_le_succ enough)]
                constructor
                · exact .lineBreak isBreak
                · intro grouped
                  cases grouped with
                  | lineBreak _ grouped => exact grouped
                  | group noReturn noFeed => exact absurd ⟨noReturn, noFeed⟩ noBreak

/-- **Decoding stays inside for groups and line breaks.** -/
theorem inBounds_iff (str : Bytes) : InBounds str ↔ Grouped str.length str := by
  rw [InBounds, decode]
  by_cases some : 0 < calcEnoughDecodedLength str.length
  · have room : Room ⟨resize [] str.length, 0⟩ [] str :=
      ⟨⟨List.nil_prefix, rfl⟩, by rw [length_resize, List.length_nil, Nat.zero_add]⟩
    rw [if_pos some, ne_eq, Option.map_eq_none_iff]
    exact room.decodeLoop_iff le_rfl
  · rw [if_neg some, List.eq_nil_of_length_eq_zero (Nat.eq_zero_of_not_pos some)]
    exact iff_of_true (Option.some_ne_none []) .done

/-- A character that stands alone. -/
theorem not_inBounds_letter : ¬ InBounds (ascii "A") := by
  intro inside
  exact inside (by decide +kernel)

end Base64Encoding

end Xul
