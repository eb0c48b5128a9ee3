import Xul.Std.Strings

/-!
# The range of a response

`http_content_range` is the value of a `Content-Range` header: the first byte, the last byte
and the total size.  The format that `str` hands to `vsnprintf` begins with a percent sign,
`"%bytes %lld-%lld/%lld"`, and what a C library makes of `%b` depends on its age and maker
(`ConversionB`).  `parse` looks for the bytes in the total size and not in front of it, and
takes the first one for the last one as well: what it finds is the total size again, or
nothing where that has a minus sign.  So a range comes back from its text only where the
percent sign is dropped and both bytes are the total size.
-/

set_option autoImplicit false

namespace Xul

/-- What a C library makes of the conversion `%b`. -/
inductive ConversionB where
  /-- A conversion that is not known is written as it stands. -/
  | kept
  /-- The percent sign of a conversion that is not known is skipped. -/
  | dropped
  /-- `vsnprintf` fails. -/
  | refused
  /-- An unsigned number is written in binary; the last conversion finds no argument and
  writes a number that is `missing`. -/
  | binary (missing : Int)
deriving DecidableEq

/-- `http_content_range`; the source calls the last byte `end`. -/
structure HttpContentRange where
  start : Int
  stop : Int
  totalSize : Int
deriving DecidableEq

namespace HttpContentRange

def reset : HttpContentRange := ⟨-1, -1, -1⟩

def getLength (range : HttpContentRange) : Int :=
  if range.start < 0 ∨ range.stop < 0 then -1 else toInt64 (range.stop - range.start + 1)

/-- The numbers of the format. -/
def bounds (first last total : Int) : Bytes :=
  ascii "ytes " ++ printInt first ++ ascii "-" ++ printInt last ++ ascii "/" ++ printInt total

/-- The text that is meant. -/
def bytesText (first last total : Int) : Bytes := ascii "b" ++ bounds first last total

/-- `str`; `format` gives an empty string when `vsnprintf` fails. -/
def str (conversion : ConversionB) (range : HttpContentRange) : Bytes :=
  match conversion with
  | .kept => ascii "%b" ++ bounds range.start range.stop range.totalSize
  | .dropped => bytesText range.start range.stop range.totalSize
  | .refused => []
  | .binary missing =>
      printNat 2 (range.start % 2 ^ 32).toNat ++ bounds range.stop range.totalSize missing

/-- `parse`: whether the text is accepted, and the range, which stays as it is if not. -/
def parse (range : HttpContentRange) (s : Bytes) : Bool × HttpContentRange :=
  let parts := splitPair s 32
  if parts.1 = [] ∨ parts.2 = [] then (false, range)
  else if parts.1 ≠ ascii "bytes" then (false, range)
  else
    let parts2 := splitPair parts.2 47
    let totalSize := parseInt64 parts2.2 (-1)
    if parts2.1 = ascii "*" then (true, ⟨-1, -1, totalSize⟩)
    else
      -- the part behind the slash is split once more, not the one in front of it
      let parts3 := splitPair parts2.2 45
      (true, ⟨parseInt64 parts3.1 (-1), parseInt64 parts3.1 (-1), totalSize⟩)

/-- The bounds are those of some bytes, and of the type `int64_t`. -/
structure Proper (range : HttpContentRange) : Prop where
  start : 0 ≤ range.start
  ordered : range.start ≤ range.stop
  stop : range.stop < 2 ^ 63
  totalSize : -2 ^ 63 ≤ range.totalSize ∧ range.totalSize < 2 ^ 63

/-- The text of the range is accepted and gives the range back. -/
def RoundTrips (conversion : ConversionB) (range : HttpContentRange) : Prop :=
  ∀ into : HttpContentRange, into.parse (range.str conversion) = (true, range)

/-- A unit other than `bytes` is refused. -/
theorem parse_of_other_unit (into : HttpContentRange) {unit : Bytes} (plain : 32 ∉ unit)
    (other : unit ≠ ascii "bytes") (rest : Bytes) :
    into.parse (unit ++ 32 :: rest) = (false, into) := by
  rw [parse]
  simp only [splitPair_append_cons plain]
  split
  · rfl
  · rfl

/-! ## The text that is meant -/

theorem bytesText_eq (first last total : Int) :
    bytesText first last total =
      ascii "bytes" ++ 32 :: ((printInt first ++ 45 :: printInt last) ++ 47 :: printInt total) := by
  simp only [bytesText, bounds, List.append_assoc]
  rfl

theorem not_mem_bytes (first last : Int) : 47 ∉ printInt first ++ 45 :: printInt last := by
  intro member
  have digits : ∀ value : Int, 47 ∉ printInt value := not_mem_printInt (by decide) (by decide)
  rcases List.mem_append.mp member with before | behind
  · exact digits first before
  · rcases List.mem_cons.mp behind with minus | after
    · exact absurd minus (by decide)
    · exact digits last after

theorem not_mem_bytesText (first last total : Int) : 0 ∉ bytesText first last total := by
  have clean : ∀ value : Int, 0 ∉ printInt value := not_mem_printInt (by decide) (by decide)
  have unit : 0 ∉ ascii "bytes" := by decide +kernel
  rw [bytesText_eq]
  simp [clean, unit]

theorem head_bytesText (first last total : Int) :
    (bytesText first last total).head? = some 98 := rfl

/-- The text says which bytes are meant. -/
theorem bytesText_inj {first last total first' last' total' : Int} (low : 0 ≤ first)
    (low' : 0 ≤ first') (same : bytesText first last total = bytesText first' last' total') :
    first = first' ∧ last = last' ∧ total = total' := by
  have noMinus : ∀ value : Int, 0 ≤ value → 45 ∉ printInt value := fun value positive member =>
    absurd (isDigit_of_mem_printInt positive member) (by decide)
  rw [bytesText_eq, bytesText_eq] at same
  have behind := (List.cons.inj (List.append_cancel_left same)).2
  have slash := congrArg (splitPair · 47) behind
  simp only [splitPair_append_cons (not_mem_bytes _ _)] at slash
  obtain ⟨bytes, totals⟩ := Prod.mk.inj slash
  have minus := congrArg (splitPair · 45) bytes
  simp only [splitPair_append_cons (noMinus _ low), splitPair_append_cons (noMinus _ low')] at minus
  obtain ⟨starts, stops⟩ := Prod.mk.inj minus
  exact ⟨printInt_injective starts, printInt_injective stops, printInt_injective totals⟩

/-- What stands in front of the first minus sign of a total size. -/
theorem parseInt64_splitPair {total : Int} (low : -2 ^ 63 ≤ total) (high : total < 2 ^ 63) :
    parseInt64 (splitPair (printInt total) 45).1 (-1) = if 0 ≤ total then total else -1 := by
  by_cases positive : 0 ≤ total
  · have noMinus : 45 ∉ printInt total := fun member =>
      absurd (isDigit_of_mem_printInt positive member) (by decide)
    rw [splitPair_of_absent noMinus, parseInt64_printInt low high, if_pos positive]
  · have signed : printInt total = [] ++ 45 :: printNat 10 total.natAbs := if_pos (by omega)
    have nothing : parseInt64 [] (-1) = -1 := by decide +kernel
    rw [signed, splitPair_append_cons List.not_mem_nil, if_neg positive, nothing]

/-- **Of the text that is meant, the total size is taken for both bytes.** -/
theorem parse_bytes (into : HttpContentRange) {total : Int} (low : -2 ^ 63 ≤ total)
    (high : total < 2 ^ 63) (first last : Int) :
    into.parse (bytesText first last total) =
      (true, ⟨if 0 ≤ total then total else -1, if 0 ≤ total then total else -1, total⟩) := by
  have unit : (32 : UInt8) ∉ ascii "bytes" := by decide +kernel
  have named : ascii "bytes" ≠ [] := by decide +kernel
  have noSlash := not_mem_bytes first last
  have noStar : printInt first ++ 45 :: printInt last ≠ ascii "*" := by
    intro same
    have member : (45 : UInt8) ∈ ascii "*" := same ▸ by simp
    exact absurd member (by decide +kernel)
  rw [bytesText_eq, parse]
  simp only [splitPair_append_cons unit]
  rw [if_neg (by simp [named]), if_neg (not_not.mpr rfl)]
  simp only [splitPair_append_cons noSlash, if_neg noStar, parseInt64_printInt low high,
    parseInt64_splitPair low high]

theorem binary_of_mem_printNat {value : Nat} {c : UInt8} (member : c ∈ printNat 2 value) :
    c = 48 ∨ c = 49 := by
  rw [printNat_eq_map] at member
  obtain ⟨digit, present, rfl⟩ := List.mem_map.mp member
  have small : digit < 2 := digitsOf_lt (by decide) present
  interval_cases digit
  · exact .inl rfl
  · exact .inr rfl

/-- The text begins with the unit only where the percent sign is dropped. -/
theorem dropped_of_head {conversion : ConversionB} {range : HttpContentRange}
    (letter : (cStr (range.str conversion)).head? = some 98) : conversion = .dropped := by
  cases conversion with
  | dropped => rfl
  | kept =>
      have percent : (cStr (range.str .kept)).head? = some 37 := rfl
      exact absurd (percent.symm.trans letter) (by decide)
  | refused =>
      have nothing : (cStr (range.str .refused)).head? = none := rfl
      exact absurd (nothing.symm.trans letter) (by decide)
  | binary missing =>
      cases written : printNat 2 (range.start % 2 ^ 32).toNat with
      | nil => exact absurd written (printNat_ne_nil _ _)
      | cons c rest =>
          have text : range.str (.binary missing) =
              c :: (rest ++ bounds range.stop range.totalSize missing) := by
            rw [str, written]
            rfl
          rw [text] at letter
          rcases binary_of_mem_printNat (written ▸ List.mem_cons_self) with rfl | rfl
          · exact absurd (Option.some.inj letter) (by decide)
          · exact absurd (Option.some.inj letter) (by decide)

/-- **The text that is meant is written only where the percent sign is dropped.** -/
theorem cStr_str_eq_iff {conversion : ConversionB} {range : HttpContentRange}
    (begins : 0 ≤ range.start) {first last total : Int} (low : 0 ≤ first) :
    cStr (range.str conversion) = bytesText first last total ↔
      conversion = .dropped ∧ range = ⟨first, last, total⟩ := by
  have whole : cStr (range.str .dropped) = bytesText range.start range.stop range.totalSize :=
    cStr_of_no_zero (not_mem_bytesText _ _ _)
  constructor
  · intro same
    have dropped : conversion = .dropped :=
      dropped_of_head ((congrArg List.head? same).trans (head_bytesText first last total))
    subst dropped
    obtain ⟨rfl, rfl, rfl⟩ := bytesText_inj begins low (whole.symm.trans same)
    exact ⟨rfl, rfl⟩
  · rintro ⟨rfl, rfl⟩
    exact whole

/-- With other letters than `b` in front, what is written is no unit. -/
theorem parse_of_other_letter (into : HttpContentRange) {letters : Bytes} (plain : 32 ∉ letters)
    (other : letters ≠ ascii "b") (first last total : Int) :
    into.parse (letters ++ bounds first last total) = (false, into) := by
  have text : letters ++ bounds first last total = (letters ++ ascii "ytes") ++
      32 :: (printInt first ++ ascii "-" ++ printInt last ++ ascii "/" ++ printInt total) := by
    simp only [bounds, List.append_assoc]
    rfl
  have unit : 32 ∉ letters ++ ascii "ytes" := by
    intro member
    rcases List.mem_append.mp member with before | behind
    · exact plain before
    · exact absurd behind (by decide +kernel)
  have named : letters ++ ascii "ytes" ≠ ascii "bytes" := by
    intro same
    have split : ascii "bytes" = ascii "b" ++ ascii "ytes" := by decide +kernel
    exact other (List.append_cancel_right (same.trans split))
  rw [text]
  exact parse_of_other_unit into unit named _

/-- **A range comes back from its text exactly where the C library drops the percent sign and
both bytes are the total size.** -/
theorem roundTrips_iff (conversion : ConversionB) (range : HttpContentRange)
    (proper : range.Proper) :
    RoundTrips conversion range ↔
      conversion = .dropped ∧ range.start = range.totalSize ∧ range.stop = range.totalSize := by
  cases conversion with
  | dropped =>
      have parsed := fun into => parse_bytes into proper.totalSize.1 proper.totalSize.2
        range.start range.stop
      have begins := proper.start
      constructor
      · intro trips
        have same := (parsed reset).symm.trans (trips reset)
        have starts : (if 0 ≤ range.totalSize then range.totalSize else -1) = range.start :=
          congrArg (fun result => result.2.start) same
        have stops : (if 0 ≤ range.totalSize then range.totalSize else -1) = range.stop :=
          congrArg (fun result => result.2.stop) same
        refine ⟨rfl, ?_⟩
        split at starts
        · next known => exact ⟨starts.symm, stops.symm.trans (if_pos known)⟩
        · omega
      · rintro ⟨-, starts, stops⟩ into
        refine (parsed into).trans ?_
        have known : 0 ≤ range.totalSize := starts ▸ begins
        rw [if_pos known]
        cases range
        cases starts
        cases stops
        rfl
  | kept =>
      refine iff_of_false ?_ (fun holds => by cases holds.1)
      intro trips
      have refused := @parse_of_other_letter reset (ascii "%b") (by decide +kernel)
        (by decide +kernel) range.start range.stop range.totalSize
      exact Bool.noConfusion (congrArg Prod.fst (refused.symm.trans (trips reset)))
  | refused =>
      refine iff_of_false ?_ (fun holds => by cases holds.1)
      intro trips
      exact Bool.noConfusion (congrArg Prod.fst (trips reset))
  | binary missing =>
      refine iff_of_false ?_ (fun holds => by cases holds.1)
      intro trips
      have letter : (98 : UInt8) ∈ ascii "b" := by decide +kernel
      have refused := @parse_of_other_letter reset (printNat 2 (range.start % 2 ^ 32).toNat)
        (fun member => absurd (binary_of_mem_printNat member) (by decide))
        (fun same => absurd (binary_of_mem_printNat (same ▸ letter)) (by decide))
        range.stop range.totalSize missing
      exact Bool.noConfusion (congrArg Prod.fst (refused.symm.trans (trips reset)))

/-- A range that begins and ends behind the last byte comes back where the percent sign is
dropped. -/
theorem roundTrips_behind_ten : RoundTrips .dropped ⟨10, 10, 10⟩ :=
  (roundTrips_iff .dropped ⟨10, 10, 10⟩ ⟨by decide, by decide, by decide, by decide⟩).mpr
    ⟨rfl, rfl, rfl⟩

/-- The first six bytes of ten are refused, or both bounds are lost. -/
theorem six_of_ten_lost :
    (reset.parse (str .kept ⟨0, 5, 10⟩)).1 = false ∧
      reset.parse (str .dropped ⟨0, 5, 10⟩) = (true, ⟨10, 10, 10⟩) ∧
      ¬ RoundTrips .kept ⟨0, 5, 10⟩ ∧ ¬ RoundTrips .dropped ⟨0, 5, 10⟩ :=
  ⟨by decide +kernel, by decide +kernel, fun trips => absurd (trips reset) (by decide +kernel),
    fun trips => absurd (trips reset) (by decide +kernel)⟩

end HttpContentRange

end Xul
