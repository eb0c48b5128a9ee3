import Xul.Util.DataParser
import Mathlib.Data.Int.ModEq

/-!
# Counts of bytes

An option of a count of bytes is a number with a unit, such as `64K`.  The units are powers of
1024 or 1000, which are multiplied up in the type of the option, and so is the number with its
unit.

The same parser over integers without bounds says what a text means (`countOf`).  The type of the
option gives that count if it holds the number, the unit and their product, and some other count
if it does not: nothing is looked at (`exactCount_iff`).  The larger units are no `int`s
(`unwrapped_iff`).
-/

set_option autoImplicit false

namespace Xul

variable {V : Type}

/-! ## Number types -/

/-- `sscanf` with `%lu`: the value saturates, and a sign negates it. -/
def scanSizeT (s : Bytes) : Option Int :=
  (scanNumber 10 s).map fun number =>
    if 2 ^ 64 ≤ number.2 then 2 ^ 64 - 1
    else toSizeT (if number.1 then -(number.2 : Int) else (number.2 : Int))

/-- The types that the options of counts have. -/
inductive CountType
  | int
  | sizeT
  | int64
deriving DecidableEq

namespace CountType

def least : CountType → Int
  | int => -2 ^ 31
  | sizeT => 0
  | int64 => -2 ^ 63

def greatest : CountType → Int
  | int => 2 ^ 31 - 1
  | sizeT => 2 ^ 64 - 1
  | int64 => 2 ^ 63 - 1

/-- The type has the value. -/
def Holds (type : CountType) (value : Int) : Prop := type.least ≤ value ∧ value ≤ type.greatest

/-- An integer converted to the type. -/
def wrap : CountType → Int → Int
  | int => toInt
  | sizeT => toSizeT
  | int64 => toInt64

def traits (type : CountType) : NumericTraits Int where
  tryParse s :=
    match type with
    | int => scanInt (cStr s)
    | sizeT => scanSizeT (cStr s)
    | int64 => scanInt64 (cStr s)
  mul x y := type.wrap (x * y)
  one := 1

end CountType

/-- The traits of integers without bounds. -/
def integerTraits : NumericTraits Int where
  tryParse s := (scanNumber 10 (cStr s)).map fun number =>
    if number.1 then -(number.2 : Int) else (number.2 : Int)
  mul x y := x * y
  one := 1

/-! ## Units -/

/-- `calc_level_unit`, by as many turns of its loop as there are levels. -/
def calcLevelUnit (traits : NumericTraits V) (magnitude : V) : Nat → V
  | 0 => traits.one
  | level + 1 => traits.mul (calcLevelUnit traits magnitude level) magnitude

def addLevelUnit (traits : NumericTraits V) (name : Bytes) (magnitude : V) (level : Nat)
    (units : List (Bytes × V)) : List (Bytes × V) :=
  (name, calcLevelUnit traits magnitude level) :: units

/-- `binary_byte_count_units` and `decimal_byte_count_units`. -/
inductive ByteCountUnits
  | binary
  | decimal
deriving DecidableEq

namespace ByteCountUnits

def doAddLevel (traits : NumericTraits Int) (name : Bytes) (level : Nat) :
    ByteCountUnits → List (Bytes × Int) → List (Bytes × Int)
  | binary, units =>
      let units := addLevelUnit traits name 1024 level units
      let units := addLevelUnit traits (toLowerCopy name) 1024 level units
      let units := addLevelUnit traits (name ++ ascii "B") 1024 level units
      addLevelUnit traits (toLowerCopy name ++ ascii "B") 1024 level units
  | decimal, units =>
      let units := addLevelUnit traits name 1000 level units
      let units := addLevelUnit traits (toLowerCopy name) 1000 level units
      let units := addLevelUnit traits (name ++ ascii "B") 1000 level units
      let units := addLevelUnit traits (toLowerCopy name ++ ascii "B") 1000 level units
      let units := addLevelUnit traits (name ++ ascii "iB") 1024 level units
      addLevelUnit traits (toLowerCopy name ++ ascii "iB") 1024 level units

/-- The units under their names, in a number type. -/
def units (kind : ByteCountUnits) (traits : NumericTraits Int) : List (Bytes × Int) :=
  kind.doAddLevel traits (ascii "P") 5 <| kind.doAddLevel traits (ascii "T") 4 <|
    kind.doAddLevel traits (ascii "G") 3 <| kind.doAddLevel traits (ascii "M") 2 <|
      kind.doAddLevel traits (ascii "K") 1 []

end ByteCountUnits

/-- The number and the unit that a text begins with and ends with. -/
def countOf (kind : ByteCountUnits) (s : Bytes) : Option (Int × Int) :=
  (integerTraits.tryParse (s.takeWhile isNumberChar)).bind fun number =>
    if s.dropWhile isNumberChar = [] then some (number, 1)
    else ((kind.units integerTraits).lookup (s.dropWhile isNumberChar)).map fun unit =>
      (number, unit)

/-- `do_parse` of an option of a count. -/
def doParseCount (type : CountType) (kind : ByteCountUnits) (s : Bytes) (value : OptionValue Int) :
    Bool × OptionValue Int :=
  doParseUnits type.traits (kind.units type.traits) s value

/-- What is accepted is given as it is, what the type does not hold is not accepted, and the unit
is what it is called. -/
structure ExactCount (type : CountType) (kind : ByteCountUnits) (s : Bytes)
    (value : OptionValue Int) : Prop where
  accepted : (doParseCount type kind s value).1 = true → ∃ number unit,
    countOf kind s = some (number, unit) ∧
      (doParseCount type kind s value).2 = .number (number * unit)
  rejected : ∀ number unit, countOf kind s = some (number, unit) →
    ¬ (type.Holds number ∧ type.Holds (number * unit)) → (doParseCount type kind s value).1 = false
  unwrapped : ∀ number unit, countOf kind s = some (number, unit) →
    s.dropWhile isNumberChar = [] ∨
      (kind.units type.traits).lookup (s.dropWhile isNumberChar) = some unit

/-- The type holds the number, the unit and the count of a text. -/
def FitsCount (type : CountType) (kind : ByteCountUnits) (s : Bytes) : Prop :=
  ∀ number unit, countOf kind s = some (number, unit) →
    type.Holds number ∧ type.Holds unit ∧ type.Holds (number * unit)

/-- Every unit is what it is called. -/
def Unwrapped (type : CountType) (kind : ByteCountUnits) : Prop :=
  kind.units type.traits = kind.units integerTraits

/-! ## What the types hold -/

namespace CountType

variable {type : CountType} {x : Int}

theorem wrap_eq_of_holds (holds : type.Holds x) : type.wrap x = x := by
  obtain ⟨low, high⟩ := holds
  cases type with
  | int => exact toInt_of_small low (Int.lt_of_le_sub_one high)
  | sizeT => exact toSizeT_of_nonneg low (Int.lt_of_le_sub_one high)
  | int64 => exact toInt64_of_small low (Int.lt_of_le_sub_one high)

theorem holds_wrap (type : CountType) (x : Int) : type.Holds (type.wrap x) := by
  cases type with
  | int =>
      have low : -(((2 ^ 32 : Nat) : Int) / 2) ≤ x.bmod (2 ^ 32) := Int.le_bmod (by decide)
      exact ⟨low, Int.le_sub_one_of_lt (toInt_lt x)⟩
  | sizeT =>
      exact ⟨Int.emod_nonneg x (by decide), Int.le_sub_one_of_lt (Int.emod_lt_of_pos x (by decide))⟩
  | int64 =>
      have low : -(((2 ^ 64 : Nat) : Int) / 2) ≤ x.bmod (2 ^ 64) := Int.le_bmod (by decide)
      have high : x.bmod (2 ^ 64) < (((2 ^ 64 : Nat) : Int) + 1) / 2 := Int.bmod_lt (by decide)
      exact ⟨low, Int.le_sub_one_of_lt high⟩

theorem wrap_mul_wrap (type : CountType) (x y : Int) :
    type.wrap (type.wrap x * y) = type.wrap (x * y) := by
  cases type with
  | int => exact Int.bmod_mul_bmod
  | sizeT => exact Int.ModEq.mul_right y (Int.mod_modEq x (2 ^ 64))
  | int64 => exact Int.bmod_mul_bmod

theorem holds_one (type : CountType) : type.Holds 1 := by
  cases type <;> exact ⟨by decide, by decide⟩

/-- What `sscanf` stores for a number that it reads. -/
def store : CountType → Int → Int
  | int, x => toInt (max (min x (2 ^ 63 - 1)) (-2 ^ 63))
  | sizeT, x => if 2 ^ 64 ≤ x.natAbs then 2 ^ 64 - 1 else toSizeT x
  | int64, x => max (min x (2 ^ 63 - 1)) (-2 ^ 63)

theorem store_eq_of_holds (holds : type.Holds x) : type.store x = x := by
  have wrapped := wrap_eq_of_holds holds
  obtain ⟨low, high⟩ := holds
  cases type with
  | int =>
      simp only [least, greatest] at low high
      rw [store, min_eq_left (by omega), max_eq_left (by omega)]
      exact wrapped
  | sizeT =>
      simp only [least, greatest] at low high
      rw [store, if_neg (by omega)]
      exact wrapped
  | int64 =>
      simp only [least, greatest] at low high
      rw [store, min_eq_left (by omega), max_eq_left (by omega)]

end CountType

/-- Either a number is read in every type, or in none. -/
theorem tryParse_traits (type : CountType) (s : Bytes) :
    type.traits.tryParse s = (integerTraits.tryParse s).map type.store := by
  have saturates : ∀ number : Bool × Nat,
      (if number.1 then max (-(number.2 : Int)) (-2 ^ 63) else min (number.2 : Int) (2 ^ 63 - 1)) =
        max (min (if number.1 then -(number.2 : Int) else number.2) (2 ^ 63 - 1)) (-2 ^ 63) := by
    rintro ⟨negative, magnitude⟩
    cases negative with
    | true =>
        simp only [if_true]
        omega
    | false =>
        simp only [Bool.false_eq_true, if_false]
        omega
  simp only [CountType.traits, integerTraits, Option.map_map]
  cases type with
  | int =>
      simp only [scanInt, scanInt64, Option.map_map]
      exact congrArg (Option.map · _) (funext fun number => congrArg toInt (saturates number))
  | sizeT =>
      refine congrArg (Option.map · _) (funext fun number => ?_)
      have size : (if number.1 then -(number.2 : Int) else number.2).natAbs = number.2 := by
        split <;> omega
      rw [Function.comp_apply, CountType.store, size]
  | int64 => exact congrArg (Option.map · _) (funext saturates)

/-! ## What the units are -/

theorem calcLevelUnit_traits (type : CountType) (magnitude : Int) (level : Nat) :
    calcLevelUnit type.traits magnitude level =
      type.wrap (calcLevelUnit integerTraits magnitude level) := by
  induction level with
  | zero => exact (CountType.wrap_eq_of_holds type.holds_one).symm
  | succ level ih =>
      rw [calcLevelUnit, ih]
      exact type.wrap_mul_wrap _ magnitude

theorem units_traits (type : CountType) (kind : ByteCountUnits) :
    kind.units type.traits =
      (kind.units integerTraits).map fun unit => (unit.1, type.wrap unit.2) := by
  cases kind with
  | binary =>
      simp only [ByteCountUnits.units, ByteCountUnits.doAddLevel, addLevelUnit,
        calcLevelUnit_traits, List.map_cons, List.map_nil]
  | decimal =>
      simp only [ByteCountUnits.units, ByteCountUnits.doAddLevel, addLevelUnit,
        calcLevelUnit_traits, List.map_cons, List.map_nil]

theorem lookup_map_snd {α β : Type} (f : α → β) (name : Bytes) (entries : List (Bytes × α)) :
    (entries.map fun entry => (entry.1, f entry.2)).lookup name = (entries.lookup name).map f := by
  induction entries with
  | nil => rfl
  | cons entry entries ih =>
      rw [List.map_cons, List.lookup_cons, List.lookup_cons, ih]
      split <;> rfl

theorem lookup_units (type : CountType) (kind : ByteCountUnits) (name : Bytes) :
    (kind.units type.traits).lookup name =
      ((kind.units integerTraits).lookup name).map type.wrap := by
  rw [units_traits, lookup_map_snd]

/-! ## What is parsed -/

variable {type : CountType} {kind : ByteCountUnits} {s : Bytes} {number unit : Int}

/-- A number with no unit, or with one that there is. -/
theorem countOf_eq_some (count : countOf kind s = some (number, unit)) :
    integerTraits.tryParse (s.takeWhile isNumberChar) = some number ∧
      (s.dropWhile isNumberChar = [] ∧ unit = 1 ∨ s.dropWhile isNumberChar ≠ [] ∧
        (kind.units integerTraits).lookup (s.dropWhile isNumberChar) = some unit) := by
  obtain ⟨parsed, isNumber, named⟩ := Option.bind_eq_some_iff.mp count
  by_cases nameless : s.dropWhile isNumberChar = []
  · rw [if_pos nameless] at named
    obtain ⟨rfl, rfl⟩ := Prod.mk.inj (Option.some.inj named)
    exact ⟨isNumber, .inl ⟨nameless, rfl⟩⟩
  · rw [if_neg nameless] at named
    obtain ⟨found, isUnit, same⟩ := Option.map_eq_some_iff.mp named
    obtain ⟨rfl, rfl⟩ := Prod.mk.inj same
    exact ⟨isNumber, .inr ⟨nameless, isUnit⟩⟩

/-- **Whatever has a number and a unit is accepted.** -/
theorem doParseCount_of_countOf (type : CountType) (count : countOf kind s = some (number, unit))
    (value : OptionValue Int) :
    doParseCount type kind s value =
      (true, .number (type.wrap (type.store number * type.wrap unit))) := by
  obtain ⟨isNumber, named⟩ := countOf_eq_some count
  have nonempty : s ≠ [] := by
    rintro rfl
    cases isNumber
  have read : type.traits.tryParse (s.takeWhile isNumberChar) = some (type.store number) := by
    rw [tryParse_traits, isNumber, Option.map_some]
  simp only [doParseCount, doParseUnits, if_neg nonempty, read]
  rcases named with ⟨nameless, rfl⟩ | ⟨name, isUnit⟩
  · rw [if_pos nameless, CountType.wrap_eq_of_holds type.holds_one]
    rfl
  · have found : (kind.units type.traits).lookup (s.dropWhile isNumberChar) =
        some (type.wrap unit) := by
      rw [lookup_units, isUnit, Option.map_some]
    simp only [if_neg name, found]
    rfl

theorem doParseCount_of_none (type : CountType) (none : countOf kind s = none)
    (value : OptionValue Int) : (doParseCount type kind s value).1 = false := by
  rw [countOf] at none
  rw [doParseCount, doParseUnits, tryParse_traits]
  split
  · rfl
  · cases isNumber : integerTraits.tryParse (s.takeWhile isNumberChar) with
    | none => rfl
    | some number =>
        rw [isNumber, Option.bind_some] at none
        by_cases nameless : s.dropWhile isNumberChar = []
        · rw [if_pos nameless] at none
          cases none
        · rw [if_neg nameless, Option.map_eq_none_iff] at none
          simp only [Option.map_some, if_neg nameless, lookup_units, none, Option.map_none]

/-- **A count is exact when its type holds it, with its number and its unit.** -/
theorem exactCount_iff_fits (type : CountType) (kind : ByteCountUnits) (s : Bytes)
    (value : OptionValue Int) : ExactCount type kind s value ↔ FitsCount type kind s := by
  constructor
  · intro counts number unit count
    have accepts := doParseCount_of_countOf type count value
    have holds : type.Holds number ∧ type.Holds (number * unit) := by
      by_contra outside
      have rejects := counts.rejected number unit count outside
      rw [accepts] at rejects
      cases rejects
    refine ⟨holds.1, ?_, holds.2⟩
    obtain ⟨-, ⟨nameless, rfl⟩ | ⟨named, isUnit⟩⟩ := countOf_eq_some count
    · exact type.holds_one
    · have kept := (counts.unwrapped number unit count).resolve_left named
      rw [lookup_units, isUnit, Option.map_some] at kept
      rw [← Option.some.inj kept]
      exact type.holds_wrap unit
  · intro fits
    refine ⟨?_, ?_, ?_⟩
    · intro accepted
      cases count : countOf kind s with
      | none =>
          rw [doParseCount_of_none type count] at accepted
          cases accepted
      | some parts =>
          obtain ⟨number, unit⟩ := parts
          obtain ⟨holdsNumber, holdsUnit, holdsCount⟩ := fits number unit count
          refine ⟨number, unit, rfl, ?_⟩
          rw [doParseCount_of_countOf type count, CountType.store_eq_of_holds holdsNumber,
            CountType.wrap_eq_of_holds holdsUnit, CountType.wrap_eq_of_holds holdsCount]
    · intro number unit count outside
      obtain ⟨holdsNumber, -, holdsCount⟩ := fits number unit count
      exact absurd ⟨holdsNumber, holdsCount⟩ outside
    · intro number unit count
      obtain ⟨-, holdsUnit, -⟩ := fits number unit count
      obtain ⟨-, ⟨nameless, -⟩ | ⟨-, isUnit⟩⟩ := countOf_eq_some count
      · exact .inl nameless
      · refine .inr ?_
        rw [lookup_units, isUnit, Option.map_some, CountType.wrap_eq_of_holds holdsUnit]

/-- The units of teras and petas are no `int`s. -/
theorem unwrapped_iff_ne_int (type : CountType) (kind : ByteCountUnits) :
    Unwrapped type kind ↔ type ≠ .int := by
  rw [Unwrapped]
  cases type with
  | int => cases kind <;> exact iff_of_false (by decide +kernel) (not_not.mpr rfl)
  | sizeT => cases kind <;> exact iff_of_true (by decide +kernel) (by decide)
  | int64 => cases kind <;> exact iff_of_true (by decide +kernel) (by decide)

/-- **Counts are exact when their type holds them**, and all units are when they are no `int`s. -/
theorem exactCount_iff (type : CountType) (kind : ByteCountUnits) (s : Bytes)
    (value : OptionValue Int) :
    (ExactCount type kind s value ↔ FitsCount type kind s) ∧
      (Unwrapped type kind ↔ type ≠ .int) :=
  ⟨exactCount_iff_fits type kind s value, unwrapped_iff_ne_int type kind⟩

/-- Three gigabytes, which are no `int`. -/
theorem not_exactCount_int :
    ¬ ExactCount .int .binary (ascii "3G") (.number 0) ∧ ¬ Unwrapped .int .binary := by
  constructor
  · intro counts
    have outside : ¬ (CountType.int.Holds 3 ∧ CountType.int.Holds (3 * 1024 ^ 3)) := by
      rintro ⟨-, -, high⟩
      exact absurd high (by decide)
    have rejects := counts.rejected 3 (1024 ^ 3) (by decide +kernel) outside
    exact absurd rejects (by decide +kernel)
  · exact fun unwrapped => (unwrapped_iff_ne_int .int .binary).mp unwrapped rfl

end Xul
