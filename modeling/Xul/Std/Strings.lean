import Xul.Std.Bytes
import Xul.Foundation.Occurrence
import Mathlib.Data.List.DropRight

/-!
# String utilities

The functions of `strings`, with the names of the source, and the two `boost`
algorithms the parsers use: `trim` removes white space at both ends, and a
compressing `split` takes a run of delimiters as one.
-/

set_option autoImplicit false

namespace Xul

open Foundation

/-- `std::search`: the offset of the first occurrence, if there is one. -/
abbrev search (text pattern : Bytes) : Option Nat := firstOccurrence pattern text

def toLowerCopy (s : Bytes) : Bytes := s.map tolower

/-- The string without leading and trailing characters of a set. -/
def trimWhere (drop : UInt8 → Bool) (s : Bytes) : Bytes := (s.dropWhile drop).rdropWhile drop

/-- `boost::algorithm::trim_copy` in the classic locale. -/
def trimCopy (s : Bytes) : Bytes := trimWhere isSpace s

/-- `strings::trim` removes blanks, tabs and line ends. -/
def trimSpaces (s : Bytes) : Bytes := trimWhere (· ∈ ascii " \t\r\n") s

/-- The text before the first delimiter and the text after it. -/
def splitPair (src : Bytes) (delimiter : UInt8) : Bytes × Bytes :=
  (src.takeWhile (· ≠ delimiter), (src.dropWhile (· ≠ delimiter)).drop 1)

/-- The loop of `split_of`.  `splitedPartCount` parts have been begun, the last of
which has `part` so far; a positive `maxSplit` bounds the parts. -/
def splitOfLoop (delimiter : Bytes) (maxSplit splitedPartCount : Nat) (part : Bytes) :
    Bytes → List Bytes
  | [] => [part]
  | c :: rest =>
      if 0 < maxSplit ∧ maxSplit ≤ splitedPartCount then [part ++ c :: rest]
      else if c ∈ delimiter then
        part :: splitOfLoop delimiter maxSplit (splitedPartCount + 1) [] rest
      else splitOfLoop delimiter maxSplit splitedPartCount (part ++ [c]) rest

def splitOf (src delimiter : Bytes) (maxSplit : Nat) : List Bytes :=
  splitOfLoop delimiter maxSplit 1 [] src

/-- `strings::split` by one character: an empty string has no parts. -/
def split (src : Bytes) (delimiter : UInt8) : List Bytes :=
  if src = [] then [] else splitOfLoop [delimiter] 0 1 [] src

/-- `boost::algorithm::split` with `token_compress_on`: `skipping` is set inside a
run of delimiters. -/
def splitCompressLoop (delimiter : UInt8) (skipping : Bool) (part : Bytes) : Bytes → List Bytes
  | [] => [part]
  | c :: rest =>
      if c = delimiter then
        if skipping then splitCompressLoop delimiter true part rest
        else part :: splitCompressLoop delimiter true [] rest
      else splitCompressLoop delimiter false (part ++ [c]) rest

def splitCompress (src : Bytes) (delimiter : UInt8) : List Bytes :=
  splitCompressLoop delimiter false [] src

example : splitOf (ascii "HTTP/1.1 404 Not Found") (ascii " \t") 3 =
    [ascii "HTTP/1.1", ascii "404", ascii "Not Found"] := by decide +kernel

/-- `string_iequal_to`: strings are compared in lower case. -/
def iequalTo (x y : Bytes) : Bool := toLowerCopy x == toLowerCopy y

/-! ## Numbers -/

/-- `numerics::parse<int64_t>`. -/
def parseInt64 (s : Bytes) (defaultVal : Int) : Int := (scanInt64 (cStr s)).getD defaultVal

/-- `numerics::parse<int>`. -/
def parseInt (s : Bytes) (defaultVal : Int) : Int := (scanInt (cStr s)).getD defaultVal

/-- **A number that is printed is parsed as itself.** -/
theorem parseInt64_printInt {value : Int} (low : -2 ^ 63 ≤ value) (high : value < 2 ^ 63)
    (defaultVal : Int) : parseInt64 (printInt value) defaultVal = value := by
  have clean : 0 ∉ printInt value := not_mem_printInt (by decide) (by decide) value
  rw [parseInt64, cStr_of_no_zero clean, scanInt64_printInt low high]
  rfl

/-! ## Text without a delimiter -/

/-- A delimiter that stands behind a text without it splits the text off. -/
theorem splitPair_append_cons {first : Bytes} {delimiter : UInt8} (plain : delimiter ∉ first)
    (second : Bytes) : splitPair (first ++ delimiter :: second) delimiter = (first, second) := by
  have all : ∀ c ∈ first, decide (c ≠ delimiter) = true := by
    intro c member
    exact decide_eq_true fun same => plain (same ▸ member)
  rw [splitPair, List.takeWhile_append_of_pos all, List.dropWhile_append_of_pos all,
    List.takeWhile_cons_of_neg (by simp), List.dropWhile_cons_of_neg (by simp), List.append_nil]
  rfl

/-- A text without the delimiter is not split. -/
theorem splitPair_of_absent {src : Bytes} {delimiter : UInt8} (absent : delimiter ∉ src) :
    splitPair src delimiter = (src, []) := by
  have all : ∀ c ∈ src, decide (c ≠ delimiter) = true := by
    intro c member
    exact decide_eq_true fun same => absent (same ▸ member)
  rw [splitPair, List.takeWhile_eq_self_iff.mpr all, List.dropWhile_eq_nil_iff.mpr all]
  rfl

theorem splitOfLoop_append {delimiter word : Bytes} {maxSplit splitedPartCount : Nat}
    (plain : ∀ c ∈ word, c ∉ delimiter) (more : ¬ (0 < maxSplit ∧ maxSplit ≤ splitedPartCount))
    (part rest : Bytes) :
    splitOfLoop delimiter maxSplit splitedPartCount part (word ++ rest) =
      splitOfLoop delimiter maxSplit splitedPartCount (part ++ word) rest := by
  induction word generalizing part with
  | nil => rw [List.nil_append, List.append_nil]
  | cons c word ih =>
      rw [List.forall_mem_cons] at plain
      rw [List.cons_append, splitOfLoop, if_neg more, if_neg plain.1, ih plain.2,
        List.append_assoc]
      rfl

/-- A word and a delimiter are one part. -/
theorem splitOfLoop_word {delimiter word : Bytes} {maxSplit splitedPartCount : Nat}
    (plain : ∀ c ∈ word, c ∉ delimiter) (more : ¬ (0 < maxSplit ∧ maxSplit ≤ splitedPartCount))
    {c : UInt8} (ends : c ∈ delimiter) (rest : Bytes) :
    splitOfLoop delimiter maxSplit splitedPartCount [] (word ++ c :: rest) =
      word :: splitOfLoop delimiter maxSplit (splitedPartCount + 1) [] rest := by
  rw [splitOfLoop_append plain more, splitOfLoop, if_neg more, if_pos ends]
  rfl

/-- The last part is what is left. -/
theorem splitOfLoop_last {delimiter : Bytes} {maxSplit splitedPartCount : Nat}
    (last : 0 < maxSplit ∧ maxSplit ≤ splitedPartCount) (rest : Bytes) :
    splitOfLoop delimiter maxSplit splitedPartCount [] rest = [rest] := by
  cases rest with
  | nil => rfl
  | cons c rest => rw [splitOfLoop, if_pos last]; rfl

theorem splitCompressLoop_append {delimiter : UInt8} {word : Bytes} (plain : delimiter ∉ word)
    (part rest : Bytes) :
    splitCompressLoop delimiter false part (word ++ rest) =
      splitCompressLoop delimiter false (part ++ word) rest := by
  induction word generalizing part with
  | nil => rw [List.nil_append, List.append_nil]
  | cons c word ih =>
      rw [List.mem_cons, not_or] at plain
      rw [List.cons_append, splitCompressLoop, if_neg (Ne.symm plain.1), ih plain.2,
        List.append_assoc]
      rfl

/-- Two words that are not empty are parted by one delimiter. -/
theorem splitCompress_append_cons {delimiter : UInt8} {first second : Bytes}
    (firstPlain : delimiter ∉ first) (secondPlain : delimiter ∉ second)
    (nonempty : second ≠ []) :
    splitCompress (first ++ delimiter :: second) delimiter = [first, second] := by
  obtain ⟨c, rest, rfl⟩ := List.exists_cons_of_ne_nil nonempty
  rw [List.mem_cons, not_or] at secondPlain
  have whole := splitCompressLoop_append secondPlain.2 [c] []
  rw [List.append_nil] at whole
  rw [splitCompress, splitCompressLoop_append firstPlain, splitCompressLoop, if_pos rfl,
    if_neg (by simp), splitCompressLoop, if_neg (Ne.symm secondPlain.1), List.nil_append,
    List.nil_append, whole]
  rfl

/-- A blank in front is trimmed away. -/
theorem trimCopy_blank (s : Bytes) : trimCopy (32 :: s) = trimCopy s := by
  rw [trimCopy, trimCopy, trimWhere, trimWhere, List.dropWhile_cons_of_pos (by decide)]

/-! ## Lower case keeps no distinction of case -/

@[simp] theorem iequalTo_self (x : Bytes) : iequalTo x x = true := by
  simp [iequalTo]

/-- Two texts compare equal when they have the same lower case. -/
theorem iequalTo_iff (x y : Bytes) :
    iequalTo x y = true ↔ toLowerCopy x = toLowerCopy y := beq_iff_eq

end Xul
