import Xul.Foundation.SortedEntries
import Xul.Std.Strings

/-!
# Data parsers

A `data_parser` sets variables of a program by the names of its options.  An option that
rejects a value leaves its variable alone, with one exception: the parser of a number with a
unit has written the number when it finds that the unit is unknown
(`parse_keeps_configuration_iff`).

The types of numbers are parameters: what `numerics::try_parse<T>` reads, and the product of
two values.
-/

set_option autoImplicit false

namespace Xul

open Foundation

/-- What the parsers use of a number type `T`. -/
structure NumericTraits (V : Type) where
  tryParse : Bytes → Option V
  mul : V → V → V
  one : V

/-- The traits of `int64_t`. -/
def int64Traits : NumericTraits Int where
  tryParse s := scanInt64 (cStr s)
  mul x y := toInt64 (x * y)
  one := 1

/-- The units of `millisecond_time_span_units`. -/
def millisecondTimeSpanUnits : List (Bytes × Int) :=
  [(ascii "ms", 1), (ascii "s", 1000), (ascii "m", 60 * 1000), (ascii "h", 60 * 60 * 1000)]

/-- The value of a variable that an option is bound to. -/
inductive OptionValue (V : Type)
  | text (value : Bytes)
  | flag (value : Bool)
  | number (value : V)
  | enum (value : Int)
deriving DecidableEq

variable {V : Type}

/-! ## The parsers of the items -/

/-- The classes of item parsers, with what their constructors are given. -/
inductive ItemKind (V : Type)
  | string
  | number (traits : NumericTraits V)
  | numericUnits (traits : NumericTraits V) (units : List (Bytes × V))
  | switch
  | bool
  | enum (values : List (Bytes × Int))

/-- The characters of a number in `numeric_units_item_parser`. -/
def isNumberChar (c : UInt8) : Bool := c ∈ ascii "-0123456789"

/-- `numeric_units_item_parser::do_parse`.  The number is in the variable when the unit is
looked up. -/
def doParseUnits (traits : NumericTraits V) (units : List (Bytes × V)) (s : Bytes)
    (value : OptionValue V) : Bool × OptionValue V :=
  if s = [] then
    (false, value)
  else
    match traits.tryParse (s.takeWhile isNumberChar) with
    | none => (false, value)
    | some val =>
        let unitName := s.dropWhile isNumberChar
        if unitName = [] then
          (true, .number (traits.mul val traits.one))
        else
          match units.lookup unitName with
          | none => (false, .number val)
          | some unitValue => (true, .number (traits.mul val unitValue))

/-- `do_parse` of the item parsers, which may write their variable. -/
def ItemKind.doParse (s : Bytes) (value : OptionValue V) : ItemKind V → Bool × OptionValue V
  | string => (true, .text (trimSpaces s))
  | number traits =>
      match traits.tryParse s with
      | none => (false, value)
      | some val => (true, .number val)
  | numericUnits traits units => doParseUnits traits units s value
  | switch =>
      let val := toLowerCopy (trimSpaces s)
      if val = ascii "on" ∨ val = ascii "true" ∨ val = ascii "yes" ∨ val = ascii "1" then
        (true, .flag true)
      else if val = ascii "off" ∨ val = ascii "false" ∨ val = ascii "no" ∨ val = ascii "0" then
        (true, .flag false)
      else
        (false, value)
  | bool =>
      let val := toLowerCopy (trimSpaces s)
      if val = ascii "true" ∨ val = ascii "yes" then
        (true, .flag true)
      else if val = ascii "false" ∨ val = ascii "no" then
        (true, .flag false)
      else
        (false, value)
  | enum values =>
      match values.lookup s with
      | none => (false, value)
      | some val => (true, .enum val)

/-- An option, which is bound to the variable at an address. -/
structure DataItemParser (V : Type) where
  kind : ItemKind V
  address : Nat
  defaultValue : OptionValue V
  freezed : Bool
  modified : Bool

/-- The options under their names, and the variables of the program. -/
structure DataParser (V : Type) where
  itemParsers : List (Bytes × DataItemParser V)
  ordered : Ordered itemParsers
  memory : Nat → OptionValue V

namespace DataParser

def create (memory : Nat → OptionValue V) : DataParser V := ⟨[], List.Pairwise.nil, memory⟩

/-- `do_add` resets the option that it adds. -/
def doAdd (parser : DataParser V) (name : Bytes) (item : DataItemParser V) : DataParser V where
  itemParsers := insertEntry (fun _ new => new) name { item with modified := false }
    parser.itemParsers
  ordered := ordered_insertEntry parser.ordered
  memory := Function.update parser.memory item.address item.defaultValue

/-- `maps::get(m_item_parsers, name)`. -/
def find (parser : DataParser V) (name : Bytes) : Option (DataItemParser V) :=
  parser.itemParsers.lookup name

/-- `set_dirty` of the option under a name. -/
def setDirty (parser : DataParser V) (name : Bytes) : DataParser V where
  itemParsers := parser.itemParsers.map fun item =>
    (item.1, if item.1 = name then { item.2 with modified := true } else item.2)
  ordered := by
    rw [Ordered, List.pairwise_map]
    exact parser.ordered
  memory := parser.memory

/-- `data_item_parser::parse` of the option under a name. -/
def parseItem (parser : DataParser V) (name : Bytes) (item : DataItemParser V) (s : Bytes) :
    Bool × DataParser V :=
  if item.freezed then
    (false, parser)
  else
    let parsed := item.kind.doParse s (parser.memory item.address)
    let written := { parser with memory := Function.update parser.memory item.address parsed.2 }
    if parsed.1 then (true, written.setDirty name) else (false, written)

/-- The option parses the value as a C string. -/
def parse (parser : DataParser V) (name val : Bytes) : Bool × DataParser V :=
  let realname := trimSpaces name
  let realval := trimSpaces val
  match parser.find realname with
  | none => (false, parser)
  | some item => parser.parseItem realname item (cStr realval)

/-- The modified flags of the options. -/
def flags (parser : DataParser V) : List (Bytes × Bool) :=
  parser.itemParsers.map fun item => (item.1, item.2.modified)

/-- What a parse does to the configuration: nothing if it fails; and otherwise it sets the flag
of the option, and changes no other variable than that of the option. -/
structure KeepsConfiguration (before : DataParser V) (name : Bytes)
    (result : Bool × DataParser V) : Prop where
  rejected : result.1 = false → result.2.memory = before.memory ∧ result.2.flags = before.flags
  accepted : result.1 = true → ∃ item, before.find (trimSpaces name) = some item ∧
    (∀ address, address ≠ item.address → result.2.memory address = before.memory address) ∧
    result.2.flags = before.flags.map fun flag =>
      (flag.1, if flag.1 = trimSpaces name then true else flag.2)

/-- The value has a number and a unit that the option does not know. -/
structure UnknownUnit (traits : NumericTraits V) (units : List (Bytes × V)) (s : Bytes) (val : V) :
    Prop where
  number : traits.tryParse (s.takeWhile isNumberChar) = some val
  named : s.dropWhile isNumberChar ≠ []
  unknown : units.lookup (s.dropWhile isNumberChar) = none

/-- An option that is not frozen is given a number, other than that of its variable, with a
unit that it does not know. -/
def WritesNumber (parser : DataParser V) (name val : Bytes) : Prop :=
  ∃ item traits units number, parser.find (trimSpaces name) = some item ∧ item.freezed = false ∧
    item.kind = .numericUnits traits units ∧
    UnknownUnit traits units (cStr (trimSpaces val)) number ∧
    parser.memory item.address ≠ .number number

variable {parser : DataParser V}

/-- A number with a unit is written before the unit is found to be unknown. -/
theorem doParseUnits_failed {traits : NumericTraits V} {units : List (Bytes × V)} {s : Bytes}
    {value : OptionValue V} (failed : (doParseUnits traits units s value).1 = false) :
    (doParseUnits traits units s value).2 = value ∨
      ∃ number, UnknownUnit traits units s number ∧
        (doParseUnits traits units s value).2 = .number number := by
  rw [doParseUnits] at failed ⊢
  by_cases empty : s = []
  · exact .inl (by rw [if_pos empty])
  · rw [if_neg empty] at failed ⊢
    cases number : traits.tryParse (s.takeWhile isNumberChar) with
    | none => exact .inl rfl
    | some val =>
        simp only [number] at failed ⊢
        by_cases nameless : s.dropWhile isNumberChar = []
        · rw [if_pos nameless] at failed
          cases failed
        · rw [if_neg nameless] at failed ⊢
          cases unknown : units.lookup (s.dropWhile isNumberChar) with
          | none => exact .inr ⟨val, ⟨number, nameless, unknown⟩, rfl⟩
          | some unitValue =>
              rw [unknown] at failed
              cases failed

theorem UnknownUnit.doParseUnits {traits : NumericTraits V} {units : List (Bytes × V)} {s : Bytes}
    {number : V} (unknown : UnknownUnit traits units s number) (value : OptionValue V) :
    doParseUnits traits units s value = (false, .number number) := by
  have nonempty : s ≠ [] := by
    rintro rfl
    exact unknown.named rfl
  simp only [Xul.doParseUnits, if_neg nonempty, unknown.number, if_neg unknown.named,
    unknown.unknown]

/-- A value that is neither of the two that are known writes nothing. -/
theorem kept_of_neither {first second : Prop} [Decidable first] [Decidable second]
    {yes no value : OptionValue V}
    (failed : (if first then (true, yes) else if second then (true, no) else (false, value)).1 =
      false) :
    (if first then (true, yes) else if second then (true, no) else (false, value)).2 = value := by
  by_cases isFirst : first
  · rw [if_pos isFirst] at failed
    cases failed
  · rw [if_neg isFirst] at failed ⊢
    by_cases isSecond : second
    · rw [if_pos isSecond] at failed
      cases failed
    · rw [if_neg isSecond]

/-- **A `do_parse` that fails has written nothing, or a number before an unknown unit.** -/
theorem doParse_failed {kind : ItemKind V} {s : Bytes} {value : OptionValue V}
    (failed : (kind.doParse s value).1 = false) :
    (kind.doParse s value).2 = value ∨
      ∃ traits units number, kind = .numericUnits traits units ∧
        UnknownUnit traits units s number ∧ (kind.doParse s value).2 = .number number := by
  cases kind with
  | string => cases failed
  | number traits =>
      refine .inl ?_
      rw [ItemKind.doParse] at failed ⊢
      cases number : traits.tryParse s with
      | none => rfl
      | some val =>
          rw [number] at failed
          cases failed
  | numericUnits traits units =>
      obtain kept | ⟨number, unknown, written⟩ := doParseUnits_failed failed
      · exact .inl kept
      · exact .inr ⟨traits, units, number, rfl, unknown, written⟩
  | switch => exact .inl (kept_of_neither failed)
  | bool => exact .inl (kept_of_neither failed)
  | enum values =>
      refine .inl ?_
      rw [ItemKind.doParse] at failed ⊢
      cases named : values.lookup s with
      | none => rfl
      | some val =>
          rw [named] at failed
          cases failed

theorem flags_setDirty (parser : DataParser V) (name : Bytes) :
    (parser.setDirty name).flags =
      parser.flags.map fun flag => (flag.1, if flag.1 = name then true else flag.2) := by
  rw [flags, flags, setDirty, List.map_map, List.map_map]
  refine List.map_congr_left ?_
  intro item _
  by_cases here : item.1 = name
  · simp [here]
  · simp [here]

/-- **When a rejected value leaves the configuration alone**: unless it is a number with an
unknown unit for an option that is not frozen, and another number than that of its variable. -/
theorem parse_keeps_configuration_iff (parser : DataParser V) (name val : Bytes) :
    parser.KeepsConfiguration name (parser.parse name val) ↔ ¬ parser.WritesNumber name val := by
  cases found : parser.find (trimSpaces name) with
  | none =>
      have result : parser.parse name val = (false, parser) := by simp only [parse, found]
      rw [result]
      refine iff_of_true ⟨fun _ => ⟨rfl, rfl⟩, nofun⟩ ?_
      rintro ⟨_, _, _, _, there, -⟩
      cases found.symm.trans there
  | some item =>
      have result : parser.parse name val =
          parser.parseItem (trimSpaces name) item (cStr (trimSpaces val)) := by
        simp only [parse, found]
      rw [result, parseItem]
      by_cases freezed : item.freezed = true
      · rw [if_pos freezed]
        refine iff_of_true ⟨fun _ => ⟨rfl, rfl⟩, nofun⟩ ?_
        rintro ⟨_, _, _, _, there, thawed, -⟩
        cases found.symm.trans there
        exact Bool.false_ne_true (thawed.symm.trans freezed)
      · rw [if_neg freezed]
        dsimp only
        cases outcome :
            (item.kind.doParse (cStr (trimSpaces val)) (parser.memory item.address)).1 with
        | true =>
            rw [if_pos rfl]
            refine iff_of_true ⟨nofun, fun _ => ⟨item, found, ?_, ?_⟩⟩ ?_
            · intro address other
              exact Function.update_of_ne other _ _
            · exact flags_setDirty _ _
            · rintro ⟨_, traits, units, number, there, -, kind, unknown, -⟩
              cases found.symm.trans there
              rw [kind, ItemKind.doParse, unknown.doParseUnits] at outcome
              cases outcome
        | false =>
            rw [if_neg Bool.false_ne_true]
            constructor
            · rintro ⟨rejected, -⟩ ⟨_, traits, units, number, there, -, kind, unknown, other⟩
              cases found.symm.trans there
              have kept := congrFun (rejected rfl).1 item.address
              rw [kind, ItemKind.doParse, unknown.doParseUnits] at kept
              exact other (kept.symm.trans (Function.update_self ..))
            · intro quiet
              refine ⟨fun _ => ⟨?_, rfl⟩, nofun⟩
              refine Function.update_eq_self_iff.mpr ?_
              obtain kept | ⟨traits, units, number, kind, unknown, written⟩ :=
                doParse_failed outcome
              · exact kept
              · by_contra other
                rw [written] at other
                exact quiet ⟨item, traits, units, number, found, Bool.eq_false_iff.mpr freezed,
                  kind, unknown, fun same => other same.symm⟩

/-- A time span of five units that there are not. -/
theorem unknown_unit_is_written :
    ¬ ∀ (parser : DataParser Int) (name val : Bytes),
      parser.KeepsConfiguration name (parser.parse name val) := by
  intro keeps
  have rejected := (keeps ((create fun _ => .number 0).doAdd (ascii "timeout")
    ⟨.numericUnits int64Traits millisecondTimeSpanUnits, 0, .number 30, false, false⟩)
    (ascii "timeout") (ascii "5x")).rejected (by decide +kernel)
  exact absurd (congrFun rejected.1 0) (by decide +kernel)

end DataParser

end Xul
