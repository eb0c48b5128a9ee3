import Xul.Data.BigNumberDivision
import Xul.Text.HexEncoding

/-!
# Text of big numbers

A number is formatted from its last byte to its first, and parsed into its bytes in place, which
are reversed at the end.  A number of some bytes is formatted as its hexadecimal numeral and
parsed from it, and nothing but digits is parsed (`format_numeral`).

What fails leaves its traces: a division by zero clears the number (`divisionKeeps_iff`), and
digits in front of a character that is none have been written into it (`parsingKeeps_iff`).
-/

set_option autoImplicit false

namespace Xul

open Foundation

namespace BigNumber

variable {byteCount : Nat}

def format (useUppercase : Bool) (n : BigNumber byteCount) : Bytes :=
  HexEncoding.encode useUppercase n.bytes.reverse

def reverseBytes (n : BigNumber byteCount) : BigNumber byteCount :=
  ⟨n.bytes.reverse, (List.length_reverse ..).trans n.length_bytes⟩

/-- `try_parse`: what it returns, and the number then. -/
def tryParse (n : BigNumber byteCount) (s : Bytes) : Bool × BigNumber byteCount :=
  if s.length ≠ byteCount * 2 then (false, n)
  else
    let decoded : BigNumber byteCount := ⟨(HexEncoding.decode n.bytes byteCount s).2,
      (HexEncoding.length_decode ..).trans n.length_bytes⟩
    if (HexEncoding.decode n.bytes byteCount s).1 then (true, decoded.reverseBytes)
    else (false, decoded)

/-! ## Parsing -/

/-- What parsing a text of the right length does to the bytes. -/
theorem tryParse_of_length (positive : 0 < byteCount) (n : BigNumber byteCount) {s : Bytes}
    (size : s.length = 2 * byteCount) :
    (n.tryParse s).1 = (HexEncoding.overwrite n.bytes s).1 ∧
      (n.tryParse s).2.bytes =
        if (HexEncoding.overwrite n.bytes s).1 then (HexEncoding.overwrite n.bytes s).2.reverse
        else (HexEncoding.overwrite n.bytes s).2 := by
  have decoded : HexEncoding.decode n.bytes byteCount s = HexEncoding.overwrite n.bytes s := by
    have full := @HexEncoding.decode_of_full n.bytes s (by rwa [n.length_bytes])
      (by rwa [n.length_bytes])
    rwa [n.length_bytes] at full
  rw [tryParse, if_neg (by omega)]
  simp only [decoded]
  split
  · next valid => exact ⟨valid.symm, rfl⟩
  · next invalid => exact ⟨(eq_false_of_ne_true invalid).symm, rfl⟩

theorem tryParse_fst_iff (positive : 0 < byteCount) (n : BigNumber byteCount) (s : Bytes) :
    (n.tryParse s).1 = true ↔ s.length = 2 * byteCount ∧ ∀ ch ∈ s, isxdigit ch = true := by
  by_cases size : s.length = 2 * byteCount
  · rw [(tryParse_of_length positive n size).1,
      HexEncoding.overwrite_fst_iff (by rwa [n.length_bytes])]
    exact (and_iff_right size).symm
  · rw [tryParse, if_pos (by omega)]
    exact iff_of_false Bool.false_ne_true fun all => size all.1

/-- **A number is formatted as its numeral, with two digits for each byte, and parsed from it; and
what is parsed are as many digits.** -/
theorem format_numeral (positive : 0 < byteCount) (x : BigNumber byteCount) (useUppercase : Bool) :
    (∀ y : BigNumber byteCount, y.tryParse (x.format useUppercase) = (true, x)) ∧
      x.format useUppercase =
        numeral (HexEncoding.letter useUppercase) 16 (2 * byteCount) x.value ∧
      ∀ (y : BigNumber byteCount) (s : Bytes), (y.tryParse s).1 = true ↔
        s.length = 2 * byteCount ∧ ∀ ch ∈ s, isxdigit ch = true := by
  have text : x.format useUppercase =
      numeral (HexEncoding.letter useUppercase) 16 (2 * byteCount) x.value := by
    rw [format, HexEncoding.encode_reverse, x.length_bytes]
    rfl
  refine ⟨?_, text, fun y s => tryParse_fst_iff positive y s⟩
  intro y
  have size : (x.format useUppercase).length = 2 * byteCount := by rw [text, length_numeral]
  have written : HexEncoding.overwrite y.bytes (x.format useUppercase) =
      (true, x.bytes.reverse) :=
    HexEncoding.overwrite_encode useUppercase
      (by rw [List.length_reverse, x.length_bytes, y.length_bytes])
  obtain ⟨valid, bytes⟩ := tryParse_of_length positive y size
  rw [written] at valid bytes
  exact Prod.ext valid (eq_of_bytes (bytes.trans (List.reverse_reverse _)))

/-- A number of two bytes. -/
theorem format_numeral_word :
    (∀ y : BigNumber 2, y.tryParse (format true ⟨[0xEF, 0xBE], rfl⟩) = (true, ⟨[0xEF, 0xBE], rfl⟩)) ∧
      format true (⟨[0xEF, 0xBE], rfl⟩ : BigNumber 2) =
        numeral (HexEncoding.letter true) 16 (2 * 2) (value (⟨[0xEF, 0xBE], rfl⟩ : BigNumber 2)) ∧
      ∀ (y : BigNumber 2) (s : Bytes), (y.tryParse s).1 = true ↔
        s.length = 2 * 2 ∧ ∀ ch ∈ s, isxdigit ch = true :=
  format_numeral (by decide) ⟨[0xEF, 0xBE], rfl⟩ true

/-! ## What failures leave -/

/-- A division that throws leaves the number as it is. -/
def DivisionKeeps (memory : Nat → BigNumber byteCount) (this b : Nat) : Prop :=
  (divideAssign memory this b).1 = .error .divisionByZero →
    (divideAssign memory this b).2 this = memory this

/-- Parsing a text that is refused leaves the number as it is. -/
def ParsingKeeps (n : BigNumber byteCount) (s : Bytes) : Prop :=
  (n.tryParse s).1 = false → (n.tryParse s).2 = n

theorem value_eq_zero_iff (n : BigNumber byteCount) : n.value = 0 ↔ n = clear byteCount := by
  constructor
  · intro zero
    exact eq_of_value (zero.trans value_clear.symm)
  · intro same
    rw [same, value_clear]

theorem bitsLoop_eq_zero_iff (bytes : Bytes) (count : Nat) :
    bitsLoop bytes count = some 0 ↔ ∀ k < count, bytes.getD k 0 = 0 := by
  induction count with
  | zero => exact iff_of_true rfl nofun
  | succ count ih =>
      rw [bitsLoop, Nat.forall_lt_succ_right]
      by_cases zero : bytes.getD count 0 = 0
      · rw [if_neg (not_not.mpr zero), ih]
        exact (and_iff_left zero).symm
      · rw [if_pos zero]
        refine iff_of_false ?_ fun all => zero all.2
        simp only
        split
        · exact fun none => Nat.succ_ne_zero _ (Option.some.inj none)
        · exact (Option.some_ne_none 0).symm

theorem bits_eq_zero_iff (n : BigNumber byteCount) : n.bits = some 0 ↔ n.value = 0 := by
  rw [bits, bitsLoop_eq_zero_iff, value_eq_zero_iff]
  constructor
  · intro zero
    apply eq_of_bytes
    apply ext_getD (n.length_bytes.trans (clear byteCount).length_bytes.symm)
    intro k inside
    rw [zero k (n.length_bytes ▸ inside), getD_clear]
  · rintro rfl k -
    exact getD_clear byteCount k

/-- A division by zero clears the number and throws, unless an `int` overflows before. -/
theorem divideAssign_of_zero {memory : Nat → BigNumber byteCount} {this b numBits : Nat}
    (counted : (memory this).bits = some numBits) (zero : (memory b).value = 0) :
    divideAssign memory this b =
      (.error .divisionByZero, Function.update memory this (clear byteCount)) := by
  rw [divideAssign]
  simp only [counted, (bits_eq_zero_iff (memory b)).mpr zero, if_true]

/-- Nothing else throws. -/
theorem value_eq_zero_of_throws {memory : Nat → BigNumber byteCount} {this b : Nat}
    (throws : (divideAssign memory this b).1 = .error .divisionByZero) :
    (memory b).value = 0 ∧ (memory this).bits ≠ none := by
  rw [← bits_eq_zero_iff]
  rw [divideAssign] at throws
  cases numBits : (memory this).bits with
  | none =>
      simp only [numBits] at throws
      cases throws
  | some num =>
      cases divBits : (memory b).bits with
      | none =>
          simp only [numBits, divBits] at throws
          cases throws
      | some div =>
          simp only [numBits, divBits] at throws
          by_cases zero : div = 0
          · exact ⟨congrArg some zero, Option.some_ne_none num⟩
          · rw [if_neg zero] at throws
            split at throws
            · cases throws
            · split at throws <;> cases throws

/-- **A division that throws keeps a number only if the number is zero.** -/
theorem divisionKeeps_iff (memory : Nat → BigNumber byteCount) (this b : Nat) :
    DivisionKeeps memory this b ↔
      ((memory b).value = 0 → (memory this).value = 0 ∨ (memory this).bits = none) := by
  rw [DivisionKeeps]
  constructor
  · intro keeps zero
    cases counted : (memory this).bits with
    | none => exact .inr rfl
    | some numBits =>
        have divided := divideAssign_of_zero counted zero
        have same := keeps (congrArg Prod.fst divided)
        rw [divided] at same
        have cleared : clear byteCount = memory this := (Function.update_self this _ _).symm.trans same
        exact .inl ((value_eq_zero_iff _).mpr cleared.symm)
  · intro harmless throws
    obtain ⟨zero, counted⟩ := value_eq_zero_of_throws throws
    obtain ⟨numBits, some⟩ := Option.ne_none_iff_exists'.mp counted
    have isZero := (harmless zero).resolve_right counted
    rw [divideAssign_of_zero some zero, (value_eq_zero_iff _).mp isZero]
    exact Function.update_self ..

/-- **Parsing that fails keeps a number if the digits in front of the break spell bytes that are
there already.** -/
theorem parsingKeeps_iff (n : BigNumber byteCount) (s : Bytes) :
    ParsingKeeps n s ↔ (s.length = 2 * byteCount →
      ∀ spelled, HexEncoding.BreaksOff s spelled → spelled <+: n.bytes) := by
  by_cases size : s.length = 2 * byteCount
  · rw [ParsingKeeps]
    rcases Nat.eq_zero_or_pos byteCount with zero | positive
    · subst zero
      obtain rfl := List.eq_nil_of_length_eq_zero size
      refine iff_of_true ?_ ?_
      · intro _
        apply eq_of_bytes
        rw [List.eq_nil_of_length_eq_zero n.length_bytes]
        exact List.eq_nil_of_length_eq_zero (n.tryParse []).2.length_bytes
      · rintro - spelled ⟨text, ch1, ch2, rest, split, -⟩
        exact absurd split.symm (List.append_ne_nil_of_right_ne_nil _ (List.cons_ne_nil _ _))
    · have fills : s.length = 2 * n.bytes.length := by rwa [n.length_bytes]
      obtain ⟨valid, bytes⟩ := tryParse_of_length positive n size
      rw [valid]
      constructor
      · intro keeps _ spelled breaks
        have written := HexEncoding.overwrite_of_breaksOff breaks fills
        rw [written] at bytes keeps
        have same := (congrArg BigNumber.bytes (keeps rfl)).symm.trans bytes
        exact ⟨n.bytes.drop spelled.length, same.symm⟩
      · intro prefixed fails
        obtain ⟨spelled, breaks⟩ := HexEncoding.exists_breaksOff fills fails
        obtain ⟨rest, same⟩ := prefixed size spelled breaks
        rw [HexEncoding.overwrite_of_breaksOff breaks fills] at bytes
        apply eq_of_bytes
        rw [bytes, if_neg Bool.false_ne_true, ← same, List.drop_left]
  · refine iff_of_true ?_ fun other => absurd other size
    intro _
    rw [tryParse, if_pos (by omega)]

/-- **A failure has no effect if the number is divided that is zero itself, and if what is parsed
in front of the break is there already.** -/
theorem failures_keep_iff (memory : Nat → BigNumber byteCount) (this b : Nat)
    (n : BigNumber byteCount) (s : Bytes) :
    (DivisionKeeps memory this b ↔
      ((memory b).value = 0 → (memory this).value = 0 ∨ (memory this).bits = none)) ∧
    (ParsingKeeps n s ↔ (s.length = 2 * byteCount →
      ∀ spelled, HexEncoding.BreaksOff s spelled → spelled <+: n.bytes)) :=
  ⟨divisionKeeps_iff memory this b, parsingKeeps_iff n s⟩

/-- Five divided by zero, and a text whose last character is no digit. -/
theorem failures_of_byte :
    ¬ (DivisionKeeps (fun address => if address = 0 then (⟨[5], rfl⟩ : BigNumber 1)
        else clear 1) 0 1) ∧
      ¬ ParsingKeeps (⟨[5, 6], rfl⟩ : BigNumber 2) (ascii "12zz") := by
  constructor
  · intro keeps
    have counted : (⟨[5], rfl⟩ : BigNumber 1).bits = some 3 := by decide +kernel
    have divided := @divideAssign_of_zero 1
      (fun address => if address = 0 then ⟨[5], rfl⟩ else clear 1) 0 1 3 counted value_clear
    have bytes := congrArg BigNumber.bytes (keeps (congrArg Prod.fst divided))
    exact absurd bytes (by decide +kernel)
  · intro keeps
    have bytes := congrArg BigNumber.bytes (keeps (by decide +kernel))
    exact absurd bytes (by decide +kernel)

end BigNumber

end Xul
