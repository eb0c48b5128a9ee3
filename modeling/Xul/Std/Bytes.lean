import Mathlib.Data.Int.Basic
import Mathlib.Data.List.TakeWhile
import Mathlib.Data.Nat.Digits.Lemmas

/-!
# Bytes, C strings and numbers in text

The program handles buffers and strings of bytes.  A string that passes through
a `const char*` is cut at its first zero byte (`cStr`), and a size that passes
through an `int` keeps its low 32 bits (`toInt`).  Numbers are read with `sscanf`
and written with `sprintf`; `scanNumber` follows the C library: white space, a
sign, in base 16 an optional `0x`, then the longest run of digits.
-/

set_option autoImplicit false

namespace Xul

abbrev Bytes := List UInt8

/-- `std::string` compares bytes as unsigned characters. -/
instance linearOrderUInt8 : LinearOrder UInt8 where
  le_refl := UInt8.le_refl
  le_trans _ _ _ := UInt8.le_trans
  le_antisymm _ _ := UInt8.le_antisymm
  le_total := UInt8.le_total
  lt_iff_le_not_ge _ _ := by
    simp only [UInt8.lt_iff_toNat_lt, UInt8.le_iff_toNat_le]
    omega
  toDecidableLE := inferInstance
  toDecidableEq := inferInstance
  toDecidableLT := inferInstance

/-- Whether a byte is in a text is decided without a proof inside the definition that asks. -/
instance lawfulBEqUInt8 : LawfulBEq UInt8 := inferInstance

/-- What holds of the bytes of a text is decided along the text, and not for each of the 256
bytes. -/
instance decidableForallMem (p : UInt8 → Prop) [DecidablePred p] (s : Bytes) :
    Decidable (∀ c ∈ s, p c) := List.decidableBAll p s

instance decidableForallMemOption (p : UInt8 → Prop) [DecidablePred p] (s : Option UInt8) :
    Decidable (∀ c ∈ s, p c) := Option.decidableForallMem s

/-- The bytes of a literal. -/
def ascii (literal : String) : Bytes := literal.toList.map fun c => c.toNat.toUInt8

def crlf : Bytes := [13, 10]

/-- What a `const char*` shows of a string. -/
def cStr (s : Bytes) : Bytes := s.takeWhile (· ≠ 0)

@[simp] theorem cStr_nil : cStr [] = [] := rfl

/-- What holds of every code holds of every byte. -/
theorem forall_byte {p : UInt8 → Prop} (all : ∀ code : Fin 256, p (UInt8.ofFin code))
    (c : UInt8) : p c := by
  have same : UInt8.ofFin c.toFin = c := rfl
  exact same ▸ all c.toFin

theorem zero_not_mem_cStr (s : Bytes) : 0 ∉ cStr s := by
  intro member
  have kept := List.mem_takeWhile_imp member
  exact absurd rfl (of_decide_eq_true kept)

theorem cStr_of_no_zero {s : Bytes} (clean : (0 : UInt8) ∉ s) : cStr s = s := by
  refine List.takeWhile_eq_self_iff.mpr ?_
  intro c member
  exact decide_eq_true fun zero => clean (zero ▸ member)

/-! ## Integer conversions -/

/-- A wider integer converted to `int`: the low 32 bits, read with a sign. -/
def toInt (value : Int) : Int := value.bmod (2 ^ 32)

/-- An integer converted to `int64_t`. -/
def toInt64 (value : Int) : Int := value.bmod (2 ^ 64)

/-- An integer converted to `size_t`. -/
def toSizeT (value : Int) : Int := value % 2 ^ 64

theorem toInt_of_small {value : Int} (low : -2 ^ 31 ≤ value) (high : value < 2 ^ 31) :
    toInt value = value := by
  exact Int.bmod_eq_of_le (by omega) (by omega)

theorem toInt_natCast {size : Nat} (small : size < 2 ^ 31) : toInt size = size :=
  toInt_of_small (by omega) (by omega)

theorem toInt_neg_of_large {size : Nat} (low : 2 ^ 31 ≤ size) (high : size < 2 ^ 32) :
    toInt size < 0 := by
  have wrapped : toInt size = size - 2 ^ 32 := by
    rw [toInt, Int.bmod_def]
    omega
  omega

theorem toInt64_of_small {value : Int} (low : -2 ^ 63 ≤ value) (high : value < 2 ^ 63) :
    toInt64 value = value := by
  exact Int.bmod_eq_of_le (by omega) (by omega)

theorem toSizeT_of_nonneg {value : Int} (low : 0 ≤ value) (high : value < 2 ^ 64) :
    toSizeT value = value := Int.emod_eq_of_lt low high

theorem toInt_lt (value : Int) : toInt value < 2 ^ 31 := by
  have : value.bmod (2 ^ 32) < ((2 ^ 32 : Nat) + 1) / 2 := Int.bmod_lt (by decide)
  simp only [toInt]
  omega

/-- A conversion to `int` takes a multiple of 2^32 away. -/
theorem exists_toInt_eq (value : Int) : ∃ turns : Int, toInt value = value - 2 ^ 32 * turns := by
  refine ⟨(value - toInt value) / 2 ^ 32, ?_⟩
  rw [toInt, Int.bmod_def]
  omega

theorem toInt_le_self {value : Int} (low : 0 ≤ value) : toInt value ≤ value := by
  rw [toInt, Int.bmod_def]
  omega

/-! ## Characters -/

def isSpace (c : UInt8) : Bool := c == 32 || (9 ≤ c && c ≤ 13)

def isDigit (c : UInt8) : Bool := 48 ≤ c && c ≤ 57

def isAlpha (c : UInt8) : Bool := (65 ≤ c && c ≤ 90) || (97 ≤ c && c ≤ 122)

def tolower (c : UInt8) : UInt8 := if 65 ≤ c && c ≤ 90 then c + 32 else c

/-- The value of a character as a digit, if it is a digit in this base. -/
def digitValue (base : Nat) (c : UInt8) : Option Nat :=
  let value :=
    if isDigit c then c.toNat - 48
    else if isAlpha c then (tolower c).toNat - 97 + 10
    else base
  if value < base then some value else none

/-- The character that stands for a digit. -/
def digitChar (digit : Nat) : UInt8 :=
  if digit < 10 then (48 + digit).toUInt8 else (87 + digit).toUInt8

theorem digitValue_digitChar {digit : Nat} (small : digit < 16) :
    digitValue 16 (digitChar digit) = some digit := by
  interval_cases digit <;> decide

/-- A digit stands for the same value in every base that has it. -/
theorem digitValue_digitChar_of_lt {base digit : Nat} (small : digit < base) (le : base ≤ 16) :
    digitValue base (digitChar digit) = some digit := by
  have wide : digitValue 16 (digitChar digit) = some digit := digitValue_digitChar (by omega)
  simp only [digitValue, Option.ite_none_right_eq_some, Option.some.injEq] at wide ⊢
  by_cases number : isDigit (digitChar digit) = true
  · simp only [number, if_true] at wide ⊢
    exact ⟨by omega, wide.2⟩
  · by_cases letter : isAlpha (digitChar digit) = true
    · simp only [number, letter, if_true, if_false, Bool.false_eq_true] at wide ⊢
      exact ⟨by omega, wide.2⟩
    · simp only [number, letter, if_false, Bool.false_eq_true] at wide
      exact absurd wide.1 (lt_irrefl _)

/-! ## Reading numbers -/

/-- The longest run of digits in front of a string. -/
def scanDigits (base : Nat) : Bytes → List Nat
  | [] => []
  | c :: rest =>
      match digitValue base c with
      | some digit => digit :: scanDigits base rest
      | none => []

def scanSign : Bytes → Bool × Bytes
  | 43 :: rest => (false, rest)
  | 45 :: rest => (true, rest)
  | s => (false, s)

/-- In base 16 the letter of a leading `0x` is skipped and its zero kept. -/
def skipHexPrefix : Bytes → Bytes
  | 48 :: 120 :: rest => 48 :: rest
  | 48 :: 88 :: rest => 48 :: rest
  | s => s

/-- The sign and the magnitude that `sscanf` reads, if there is a digit. -/
def scanNumber (base : Nat) (s : Bytes) : Option (Bool × Nat) :=
  let signed := scanSign (s.dropWhile isSpace)
  match scanDigits base (if base = 16 then skipHexPrefix signed.2 else signed.2) with
  | [] => none
  | digit :: digits => some (signed.1, Nat.ofDigits base (digit :: digits).reverse)

/-- `sscanf` with `%lld`: the value saturates. -/
def scanInt64 (s : Bytes) : Option Int :=
  (scanNumber 10 s).map fun number =>
    if number.1 then max (-(number.2 : Int)) (-2 ^ 63) else min (number.2 : Int) (2 ^ 63 - 1)

/-- `sscanf` with `%d`: a `long` is read and stored in an `int`. -/
def scanInt (s : Bytes) : Option Int := (scanInt64 s).map toInt

theorem scanInt_lt {s : Bytes} {value : Int} (scanned : scanInt s = some value) :
    value < 2 ^ 31 := by
  obtain ⟨wide, -, rfl⟩ := Option.map_eq_some_iff.mp scanned
  exact toInt_lt wide

/-- `sscanf` with `%llx` into an `int64_t`. -/
def scanHexInt64 (s : Bytes) : Option Int :=
  (scanNumber 16 s).map fun number =>
    toInt64 (if 2 ^ 64 ≤ number.2 then 2 ^ 64 - 1
      else if number.1 then -(number.2 : Int) else (number.2 : Int))

/-! ## Writing numbers -/

/-- The digits of a number, most significant first. -/
def printNat (base value : Nat) : Bytes :=
  if value = 0 then [48] else (Nat.digits base value).reverse.map digitChar

/-- `sprintf` with `%x`: the bits of the value as an unsigned number. -/
def printHex (value : Int) : Bytes := printNat 16 (value % 2 ^ 32).toNat

/-- `snprintf` with `%d` or `%lld`. -/
def printInt (value : Int) : Bytes :=
  if value < 0 then 45 :: printNat 10 value.natAbs else printNat 10 value.natAbs

/-! ## A number that is written can be read back -/

/-- What a run of digit characters in front of a non-digit is read as. -/
theorem scanDigits_map_append {base : Nat} {write : Nat → UInt8} {digits : List Nat}
    (reads : ∀ digit ∈ digits, digitValue base (write digit) = some digit) {rest : Bytes}
    (stops : scanDigits base rest = []) :
    scanDigits base (digits.map write ++ rest) = digits := by
  induction digits with
  | nil => simpa using stops
  | cons digit digits ih =>
      have here := reads digit (List.mem_cons_self ..)
      simp only [List.map_cons, List.cons_append, scanDigits, here]
      rw [ih fun later member => reads later (List.mem_cons_of_mem _ member)]

/-- Digits are letters or decimal digits. -/
theorem isDigit_or_isAlpha_of_digitValue {base digit : Nat} {c : UInt8}
    (reads : digitValue base c = some digit) : isDigit c ∨ isAlpha c := by
  by_contra neither
  rw [not_or, Bool.not_eq_true, Bool.not_eq_true] at neither
  simp [digitValue, neither.1, neither.2] at reads

/-- A digit is neither white space nor a sign. -/
theorem not_blank_of_digitValue {base digit : Nat} {c : UInt8}
    (reads : digitValue base c = some digit) : isSpace c = false ∧ c ≠ 43 ∧ c ≠ 45 := by
  have letter := isDigit_or_isAlpha_of_digitValue reads
  simp only [isDigit, isAlpha, isSpace, Bool.and_eq_true, Bool.or_eq_true, Bool.or_eq_false_iff,
    Bool.and_eq_false_iff, decide_eq_true_eq, decide_eq_false_iff_not, beq_eq_false_iff_ne, ne_eq,
    UInt8.le_iff_toNat_le, ← UInt8.toNat_inj, UInt8.reduceToNat] at letter ⊢
  omega

theorem isSpace_of_isDigit {c : UInt8} (digit : isDigit c) : isSpace c = false := by
  simp only [isDigit, isSpace, Bool.and_eq_true, Bool.or_eq_false_iff, Bool.and_eq_false_iff,
    decide_eq_true_eq, decide_eq_false_iff_not, beq_eq_false_iff_ne, ne_eq,
    UInt8.le_iff_toNat_le, ← UInt8.toNat_inj, UInt8.reduceToNat] at digit ⊢
  omega

/-- A number that begins with a digit has no white space and no sign to skip. -/
theorem scanSign_dropWhile_of_digit {base digit : Nat} {c : UInt8} {rest : Bytes}
    (reads : digitValue base c = some digit) :
    scanSign ((c :: rest).dropWhile isSpace) = (false, c :: rest) := by
  obtain ⟨notSpace, notPlus, notMinus⟩ := not_blank_of_digitValue reads
  rw [List.dropWhile_cons_of_neg (by simp [notSpace])]
  unfold scanSign
  split
  · next same => exact absurd (List.cons.inj same).1 notPlus
  · next same => exact absurd (List.cons.inj same).1 notMinus
  · rfl

/-- The digits of a number, most significant first, and never none. -/
def digitsOf (base value : Nat) : List Nat :=
  if value = 0 then [0] else (Nat.digits base value).reverse

theorem printNat_eq_map (base value : Nat) :
    printNat base value = (digitsOf base value).map digitChar := by
  rw [printNat, digitsOf]
  split
  · rfl
  · rfl

theorem digitsOf_lt {base value digit : Nat} (large : 1 < base)
    (member : digit ∈ digitsOf base value) : digit < base := by
  rw [digitsOf] at member
  split at member
  · rw [List.mem_singleton.mp member]
    omega
  · exact Nat.digits_lt_base large (List.mem_reverse.mp member)

theorem ofDigits_digitsOf (base value : Nat) :
    Nat.ofDigits base (digitsOf base value).reverse = value := by
  rw [digitsOf]
  split
  · next zero =>
      rw [zero]
      rfl
  · rw [List.reverse_reverse]
    exact Nat.ofDigits_digits base value

theorem digitsOf_ne_nil (base value : Nat) : digitsOf base value ≠ [] := by
  rw [digitsOf]
  split
  · exact List.cons_ne_nil _ _
  · next positive =>
      rw [ne_eq, List.reverse_eq_nil_iff, Nat.digits_eq_nil_iff_eq_zero]
      exact positive

theorem printNat_ne_nil (base value : Nat) : printNat base value ≠ [] := by
  rw [printNat_eq_map, ne_eq, List.map_eq_nil_iff]
  exact digitsOf_ne_nil base value

/-- What is printed is a digit. -/
theorem digitValue_of_mem_printNat {base value : Nat} {c : UInt8} (large : 1 < base)
    (le : base ≤ 16) (member : c ∈ printNat base value) :
    ∃ digit, digitValue base c = some digit := by
  rw [printNat_eq_map] at member
  obtain ⟨digit, present, rfl⟩ := List.mem_map.mp member
  exact ⟨digit, digitValue_digitChar_of_lt (digitsOf_lt large present) le⟩

/-- The digits behind a sign, or behind none, are read as the number they were printed of. -/
theorem scanNumber_of_scanSign {s : Bytes} {negative : Bool} {value : Nat}
    (signed : scanSign (s.dropWhile isSpace) = (negative, printNat 10 value)) :
    scanNumber 10 s = some (negative, value) := by
  have reads : ∀ digit ∈ digitsOf 10 value, digitValue 10 (digitChar digit) = some digit :=
    fun digit member =>
      digitValue_digitChar_of_lt (digitsOf_lt (by decide) member) (by decide)
  have scanned : scanDigits 10 (printNat 10 value) = digitsOf 10 value := by
    have all := scanDigits_map_append reads (show scanDigits 10 [] = [] from rfl)
    rwa [List.append_nil, ← printNat_eq_map] at all
  have back := ofDigits_digitsOf 10 value
  rw [scanNumber, signed]
  simp only [scanned, show ¬ (10 : Nat) = 16 by decide, if_false]
  cases digits : digitsOf 10 value with
  | nil => exact absurd digits (digitsOf_ne_nil 10 value)
  | cons digit digits => rw [← back, digits]

theorem scanNumber_printNat (value : Nat) :
    scanNumber 10 (printNat 10 value) = some (false, value) := by
  refine scanNumber_of_scanSign ?_
  cases same : printNat 10 value with
  | nil => exact absurd same (printNat_ne_nil 10 value)
  | cons c rest =>
      have first : c ∈ printNat 10 value := same ▸ List.mem_cons_self
      obtain ⟨digit, reads⟩ := digitValue_of_mem_printNat (by decide) (by decide) first
      exact scanSign_dropWhile_of_digit reads

theorem scanNumber_neg_printNat (value : Nat) :
    scanNumber 10 (45 :: printNat 10 value) = some (true, value) := by
  refine scanNumber_of_scanSign ?_
  rw [List.dropWhile_cons_of_neg (by decide)]
  rfl

/-- **A number that is printed is scanned as itself.** -/
theorem scanInt64_printInt {value : Int} (low : -2 ^ 63 ≤ value) (high : value < 2 ^ 63) :
    scanInt64 (printInt value) = some value := by
  rw [printInt, scanInt64]
  split
  · next negative =>
      have magnitude : (value.natAbs : Int) = -value := Int.ofNat_natAbs_of_nonpos negative.le
      rw [scanNumber_neg_printNat]
      simp only [Option.map_some, if_true, magnitude, neg_neg]
      rw [max_eq_left low]
  · next positive =>
      have magnitude : (value.natAbs : Int) = value := Int.natAbs_of_nonneg (not_lt.mp positive)
      rw [scanNumber_printNat]
      simp only [Option.map_some, Bool.false_eq_true, if_false, magnitude]
      rw [min_eq_left (by omega)]

/-- What is printed of a number is scanned as its sign and its magnitude. -/
theorem scanNumber_printInt (value : Int) :
    scanNumber 10 (printInt value) = some (decide (value < 0), value.natAbs) := by
  rw [printInt]
  split
  · next negative => rw [scanNumber_neg_printNat, decide_eq_true negative]
  · next positive => rw [scanNumber_printNat, decide_eq_false positive]

/-- Different numbers are printed differently. -/
theorem printInt_injective : Function.Injective printInt := by
  intro first second same
  have scanned := congrArg (scanNumber 10) same
  rw [scanNumber_printInt, scanNumber_printInt] at scanned
  obtain ⟨signs, magnitudes⟩ := Prod.mk.inj (Option.some.inj scanned)
  have signed : first < 0 ↔ second < 0 := decide_eq_decide.mp signs
  omega

theorem scanInt_printInt {value : Int} (low : 0 ≤ value) (high : value < 2 ^ 31) :
    scanInt (printInt value) = some value := by
  rw [scanInt, scanInt64_printInt (by omega) (by omega), Option.map_some,
    toInt_of_small (by omega) high]

theorem isDigit_of_mem_printNat {value : Nat} {c : UInt8} (member : c ∈ printNat 10 value) :
    isDigit c := by
  rw [printNat_eq_map] at member
  obtain ⟨digit, present, rfl⟩ := List.mem_map.mp member
  have small : digit < 10 := digitsOf_lt (by decide) present
  interval_cases digit <;> decide

/-- What is printed of a number are digits, and a sign. -/
theorem mem_printInt {value : Int} {c : UInt8} (member : c ∈ printInt value) :
    isDigit c ∨ c = 45 := by
  rw [printInt] at member
  split at member
  · exact (List.mem_cons.mp member).symm.imp_left isDigit_of_mem_printNat
  · exact .inl (isDigit_of_mem_printNat member)

/-- A character that is no digit and no sign is not printed of a number. -/
theorem not_mem_printInt {c : UInt8} (noDigit : isDigit c = false) (noSign : c ≠ 45)
    (value : Int) : c ∉ printInt value := by
  intro member
  rcases mem_printInt member with digit | sign
  · exact Bool.false_ne_true (noDigit.symm.trans digit)
  · exact noSign sign

/-- What is printed of a number that is not negative are digits. -/
theorem isDigit_of_mem_printInt {value : Int} (low : 0 ≤ value) {c : UInt8}
    (member : c ∈ printInt value) : isDigit c := by
  rw [printInt, if_neg (by omega)] at member
  exact isDigit_of_mem_printNat member

end Xul
