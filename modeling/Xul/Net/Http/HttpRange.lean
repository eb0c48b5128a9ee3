import Xul.Std.Strings

/-!
# The range of a request

`http_range` is the value of a `Range` header: the first byte that is asked for and the last,
or the number of the last bytes where there is no first one.  A bound that is absent is -1.
What is printed of a range is parsed as the same range.
-/

set_option autoImplicit false

namespace Xul

/-- `http_range`; the source calls the last byte `end`. -/
structure HttpRange where
  start : Int
  stop : Int
deriving DecidableEq

namespace HttpRange

def clear : HttpRange := ⟨-1, -1⟩

def isValid (range : HttpRange) : Bool := 0 ≤ range.start || 0 ≤ range.stop

def getLength (range : HttpRange) : Int :=
  if range.start < 0 ∨ range.stop < 0 then -1 else toInt64 (range.stop - range.start + 1)

def getRealStart (range : HttpRange) : Int := if 0 ≤ range.start then range.start else 0

def str (range : HttpRange) : Bytes :=
  if range.start < 0 then
    if range.stop < 0 then ascii "bytes=-" else ascii "bytes=-" ++ printInt range.stop
  else if range.stop < 0 then ascii "bytes=" ++ printInt range.start ++ ascii "-"
  else ascii "bytes=" ++ printInt range.start ++ ascii "-" ++ printInt range.stop

/-- `parse`: whether the text is accepted, and the range, which stays as it is if not. -/
def parse (range : HttpRange) (s : Bytes) : Bool × HttpRange :=
  let parts := splitPair s 61
  if parts.1 = [] ∨ parts.2 = [] then (false, range)
  else if parts.1 ≠ ascii "bytes" then (false, range)
  else
    let parts2 := splitPair parts.2 45
    (true, ⟨parseInt64 parts2.1 (-1), parseInt64 parts2.2 (-1)⟩)

/-! ## What is printed is parsed -/

/-- What the constructor asserts of its arguments. -/
structure Constructed (range : HttpRange) : Prop where
  start : range.start = -1 ∨ 0 ≤ range.start
  stop : range.stop = -1 ∨ 0 ≤ range.stop ∧ 0 ≤ range.start ∧ range.start ≤ range.stop

/-- The last bytes, as many as `stop` says. -/
structure Suffix (range : HttpRange) : Prop where
  start : range.start = -1
  stop : 0 ≤ range.stop

/-- The bounds are of the type `int64_t`. -/
structure Fits (range : HttpRange) : Prop where
  start : -2 ^ 63 ≤ range.start ∧ range.start < 2 ^ 63
  stop : -2 ^ 63 ≤ range.stop ∧ range.stop < 2 ^ 63

/-- The text of a bound. -/
def boundText (bound : Int) : Bytes := if bound < 0 then [] else printInt bound

theorem str_eq (range : HttpRange) :
    range.str = ascii "bytes" ++ 61 :: (boundText range.start ++ 45 :: boundText range.stop) := by
  rw [str, boundText, boundText]
  split
  · split
    · rfl
    · rfl
  · split
    · simp only [List.append_assoc]
      rfl
    · simp only [List.append_assoc]
      rfl

/-- A bound that is absent or a number is read back from its text. -/
theorem parseInt64_boundText {bound : Int} (written : bound = -1 ∨ 0 ≤ bound)
    (high : bound < 2 ^ 63) : parseInt64 (boundText bound) (-1) = bound := by
  rw [boundText]
  rcases written with rfl | low
  · rw [if_pos (by decide)]
    rfl
  · rw [if_neg (not_lt.mpr low)]
    exact parseInt64_printInt (by omega) high (-1)

theorem minus_not_mem_boundText (bound : Int) : 45 ∉ boundText bound := by
  rw [boundText]
  split
  · exact List.not_mem_nil
  · next low =>
      intro member
      exact absurd (isDigit_of_mem_printInt (not_lt.mp low) member) (by decide)

/-- What is parsed of two bounds behind the unit. -/
theorem parse_bounds (into : HttpRange) {first : Bytes} (plain : 45 ∉ first) (second : Bytes) :
    into.parse (ascii "bytes" ++ 61 :: (first ++ 45 :: second)) =
      (true, ⟨parseInt64 first (-1), parseInt64 second (-1)⟩) := by
  have unit : (61 : UInt8) ∉ ascii "bytes" := by decide +kernel
  have named : ascii "bytes" ≠ [] := by decide +kernel
  rw [parse]
  simp only [splitPair_append_cons unit, splitPair_append_cons plain]
  rw [if_neg (by simp [named]), if_neg (not_not.mpr rfl)]

/-- **A range that the constructor accepts, or a suffix range, is parsed back from its
text.** -/
theorem parse_str (range into : HttpRange) (fits : range.Fits)
    (proper : range.Constructed ∨ range.Suffix) : into.parse range.str = (true, range) := by
  have written : (range.start = -1 ∨ 0 ≤ range.start) ∧ (range.stop = -1 ∨ 0 ≤ range.stop) := by
    rcases proper with constructed | suffix
    · exact ⟨constructed.start, constructed.stop.imp_right And.left⟩
    · exact ⟨.inl suffix.start, .inr suffix.stop⟩
  rw [str_eq, parse_bounds into (minus_not_mem_boundText _),
    parseInt64_boundText written.1 fits.start.2, parseInt64_boundText written.2 fits.stop.2]

/-- The last five bytes. -/
theorem parse_str_suffix : clear.parse (str ⟨-1, 5⟩) = (true, ⟨-1, 5⟩) :=
  parse_str ⟨-1, 5⟩ clear ⟨by decide, by decide⟩ (.inr ⟨rfl, by decide⟩)

end HttpRange

end Xul
