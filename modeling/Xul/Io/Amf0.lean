import Xul.Data.Variant
import Xul.Io.DataInputStream

/-!
# The action message format

`amf0_writer` writes a marker in front of each value and three bytes behind the entries of
an object; an array has neither a length nor an end.  `amf0_reader` reads arrays and objects
as long as there is input: it does not recognise the end of an object, and passes over it as
over an entry without a value.
-/

set_option autoImplicit false

namespace Xul

open Foundation

namespace Amf0

/-! ## `amf0_types` -/

def amf0Number : UInt8 := 0x00

def amf0Boolean : UInt8 := 0x01

def amf0String : UInt8 := 0x02

def amf0Object : UInt8 := 0x03

def amf0Null : UInt8 := 0x05

def amf0Undefined : UInt8 := 0x06

def amf0EndOfObject : UInt8 := 0x09

def amf0Array : UInt8 := 0x0a

variable (order : BitConverter)

/-! ## `amf0_writer` -/

def writeNull : Bytes := [amf0Null]

def writeBool (val : Bool) : Bytes := [amf0Boolean, if val then 1 else 0]

def writeNumber (val : UInt64) : Bytes := amf0Number :: order.fromQword val.toNat

/-- `write_uint16` keeps the low two bytes of a size. -/
def startBytes (size : Nat) : Bytes := amf0String :: order.fromWord size

def writeString (val : Bytes) : Bytes := startBytes order val.length ++ val

def writeKey (val : Bytes) : Bytes := order.fromWord val.length ++ val

def startList : Bytes := [amf0Array]

def endList : Bytes := []

def startDict : Bytes := [amf0Object]

def endDict : Bytes := [0, 0, amf0EndOfObject]

mutual
/-- The calls that write a value. -/
def writeValue : Variant → Bytes
  | .null => writeNull
  | .bool val => writeBool val
  | .float val => writeNumber order val
  | .string val => writeString order val
  | .list items => startList ++ writeItems items ++ endList
  | .dict items => startDict ++ writeEntries items ++ endDict

def writeItems : List Variant → Bytes
  | [] => []
  | item :: items => writeValue item ++ writeItems items

def writeEntries : List (Bytes × Variant) → Bytes
  | [] => []
  | (key, val) :: items => writeKey order key ++ writeValue val ++ writeEntries items
end

/-! ## `amf0_reader` -/

/-- `read_bool` keeps whether there was a byte, not the byte. -/
def readBool (s : DataInputStream) : Option Variant × DataInputStream :=
  (some (.bool s.readByte.1.isSome), s.readByte.2)

def readNumber (s : DataInputStream) : Option Variant × DataInputStream :=
  match s.readDouble order with
  | (none, s) => (none, s)
  | (some val, s) => (some (.float val), s)

def tryReadString (s : DataInputStream) : Option Bytes × DataInputStream :=
  match s.readUint16 order with
  | (none, s) => (none, s)
  | (some len, s) => s.readN len

def readString (s : DataInputStream) : Option Variant × DataInputStream :=
  match tryReadString order s with
  | (none, s) => (none, s)
  | (some val, s) => (some (.string val), s)

/-- `read`, with what reads an item behind its marker; -1 is the byte 255. -/
def readWith (readItem : UInt8 → DataInputStream → Option Variant × DataInputStream)
    (s : DataInputStream) : Option Variant × DataInputStream :=
  if s.isAvailable 1 then readItem (s.readByte.1.getD 255) s.readByte.2 else (none, s)

/-- The loop of `read_list`, which ends with the input and then fails. -/
def readListLoop (readItem : UInt8 → DataInputStream → Option Variant × DataInputStream) :
    Nat → List Variant → DataInputStream → Option Variant × DataInputStream
  | 0, _, s => (none, s)
  | turns + 1, items, s =>
      if s.isAvailable 1 then
        match readItem (s.readByte.1.getD 255) s.readByte.2 with
        | (none, s) => readListLoop readItem turns items s
        | (some item, s) => readListLoop readItem turns (items ++ [item]) s
      else (none, s)

/-- The loop of `read_dict`, which ends with the input. -/
def readDictLoop (readItem : UInt8 → DataInputStream → Option Variant × DataInputStream) :
    Nat → List (Bytes × Variant) → DataInputStream → Option Variant × DataInputStream
  | 0, items, s => (some (.dict items), s)
  | turns + 1, items, s =>
      if s.isAvailable 1 then
        match tryReadString order s with
        | (none, s) => (some (.dict items), s)
        | (some key, s) =>
            match readWith readItem s with
            | (none, s) => readDictLoop readItem turns items s
            | (some item, s) => readDictLoop readItem turns (Variant.set key item items) s
      else (some (.dict items), s)

/-- `read_item`.  An array or object takes a level of the depth, and a turn of its loop a byte. -/
def readItem : Nat → UInt8 → DataInputStream → Option Variant × DataInputStream
  | 0, _, s => (none, s)
  | depth + 1, tag, s =>
      if tag = amf0Null ∨ tag = amf0Undefined then (some .null, s)
      else if tag = amf0Boolean then readBool s
      else if tag = amf0Number then readNumber order s
      else if tag = amf0String then readString order s
      else if tag = amf0Array then readListLoop (readItem depth) (s.rest.length + 1) [] s
      else if tag = amf0Object then readDictLoop order (readItem depth) (s.rest.length + 1) [] s
      else (none, s)

/-- `read`: there are no more levels than bytes. -/
def read (s : DataInputStream) : Option Variant × DataInputStream :=
  readWith (readItem order s.rest.length) s

/-- The loop of `read_many`. -/
def readManyLoop : Nat → List Variant → DataInputStream → List Variant × DataInputStream
  | 0, vars, s => (vars, s)
  | turns + 1, vars, s =>
      match read order s with
      | (none, s) => (vars, s)
      | (some var, s) => readManyLoop turns (vars ++ [var]) s

def readMany (s : DataInputStream) : List Variant × DataInputStream :=
  readManyLoop order (s.rest.length + 1) [] s

variable {order : BitConverter}
  {readOne readOther : UInt8 → DataInputStream → Option Variant × DataInputStream}
  {s : DataInputStream}

/-! ## What is left of the input -/

/-- An item leaves no more than there was. -/
def Shrinks (readOne : UInt8 → DataInputStream → Option Variant × DataInputStream) : Prop :=
  ∀ tag s, (readOne tag s).2.rest.length ≤ s.rest.length

theorem tryReadString_left (order : BitConverter) (s : DataInputStream) :
    (tryReadString order s).2.rest.length ≤ s.rest.length ∧
      ((tryReadString order s).1 ≠ none →
        (tryReadString order s).2.rest.length + 2 ≤ s.rest.length) ∧
      ((tryReadString order s).1 = none → (tryReadString order s).2.Spent) := by
  obtain ⟨shorter, fewer, spent⟩ := DataInputStream.length_readUint16 order s
  rw [tryReadString]
  split
  · next left read =>
      rw [read] at shorter spent
      exact ⟨shorter, fun isNone => absurd rfl isNone, fun _ => spent rfl⟩
  · next len left read =>
      rw [read] at fewer
      obtain ⟨less, -, none⟩ := left.length_readN len
      have two : left.rest.length + 2 ≤ s.rest.length := fewer nofun
      exact ⟨by omega, fun _ => by omega, none⟩

theorem length_readWith_le (shrinks : Shrinks readOne) (s : DataInputStream) :
    (readWith readOne s).2.rest.length ≤ s.rest.length := by
  rw [readWith]
  split
  · exact (shrinks _ _).trans (DataInputStream.length_readByte_le s)
  · exact le_rfl

/-- **The loop of a list comes to the end of the input**, and fails. -/
theorem readListLoop_spent (shrinks : Shrinks readOne) {turns : Nat} {items : List Variant}
    (enough : s.rest.length < turns) :
    (readListLoop readOne turns items s).1 = none ∧
      (readListLoop readOne turns items s).2.Spent := by
  induction turns generalizing items s with
  | zero => exact absurd enough (Nat.not_lt_zero _)
  | succ turns ih =>
      rw [readListLoop]
      split
      · next available =>
          have less := DataInputStream.length_readByte_lt available
          have shorter := shrinks (s.readByte.1.getD 255) s.readByte.2
          split <;> next read =>
            rw [read] at shorter
            exact ih (Nat.lt_of_le_of_lt shorter (Nat.lt_of_lt_of_le less (Nat.le_of_lt_succ enough)))
      · next unavailable => exact ⟨rfl, eq_false_of_ne_true unavailable⟩

/-- **The loop of an object comes to the end of the input.** -/
theorem readDictLoop_spent (shrinks : Shrinks readOne) {turns : Nat}
    {items : List (Bytes × Variant)} (enough : s.rest.length < turns) :
    (∃ all, (readDictLoop order readOne turns items s).1 = some (.dict all)) ∧
      (readDictLoop order readOne turns items s).2.Spent := by
  induction turns generalizing items s with
  | zero => exact absurd enough (Nat.not_lt_zero _)
  | succ turns ih =>
      obtain ⟨-, fewer, spent⟩ := tryReadString_left order s
      rw [readDictLoop]
      split
      · split
        · next left read =>
            rw [read] at spent
            exact ⟨⟨items, rfl⟩, spent rfl⟩
        · next key left read =>
            rw [read] at fewer
            have two : left.rest.length + 2 ≤ s.rest.length := fewer nofun
            have shorter := length_readWith_le shrinks left
            split <;> next item =>
              rw [item] at shorter
              exact ih (by dsimp only at shorter; omega)
      · next unavailable => exact ⟨⟨items, rfl⟩, eq_false_of_ne_true unavailable⟩

theorem length_readListLoop_le (shrinks : Shrinks readOne) (turns : Nat) (items : List Variant)
    (s : DataInputStream) :
    (readListLoop readOne turns items s).2.rest.length ≤ s.rest.length := by
  induction turns generalizing items s with
  | zero => exact le_rfl
  | succ turns ih =>
      rw [readListLoop]
      split
      · have first := DataInputStream.length_readByte_le s
        have shorter := shrinks (s.readByte.1.getD 255) s.readByte.2
        split <;> next read =>
          rw [read] at shorter
          exact (ih _ _).trans (shorter.trans first)
      · exact le_rfl

theorem length_readDictLoop_le (shrinks : Shrinks readOne) (turns : Nat)
    (items : List (Bytes × Variant)) (s : DataInputStream) :
    (readDictLoop order readOne turns items s).2.rest.length ≤ s.rest.length := by
  induction turns generalizing items s with
  | zero => exact le_rfl
  | succ turns ih =>
      obtain ⟨less, -, -⟩ := tryReadString_left order s
      rw [readDictLoop]
      split
      · split
        · next left read => rwa [read] at less
        · next key left read =>
            rw [read] at less
            have shorter := length_readWith_le shrinks left
            split <;> next item =>
              rw [item] at shorter
              exact (ih _ _).trans (shorter.trans less)
      · exact le_rfl

theorem shrinks_readItem (order : BitConverter) (depth : Nat) : Shrinks (readItem order depth) := by
  induction depth with
  | zero => exact fun _ _ => le_rfl
  | succ depth ih =>
      intro tag s
      rw [readItem]
      split
      · exact le_rfl
      · split
        · exact DataInputStream.length_readByte_le s
        · split
          · have less := s.length_readDouble_le order
            rw [readNumber]
            split <;> next read => rwa [read] at less
          · split
            · obtain ⟨less, -, -⟩ := tryReadString_left order s
              rw [readString]
              split <;> next read => rwa [read] at less
            · split
              · exact length_readListLoop_le ih _ _ s
              · split
                · exact length_readDictLoop_le ih _ _ s
                · exact le_rfl

/-! ## The depth and the turns do not matter -/

/-- Items are read in the same way where little input is left. -/
def Agree (bound : Nat)
    (readOne readOther : UInt8 → DataInputStream → Option Variant × DataInputStream) : Prop :=
  ∀ tag s, s.rest.length < bound → readOne tag s = readOther tag s

variable {bound turns others : Nat}

theorem readWith_congr (agree : Agree bound readOne readOther) (le : s.rest.length ≤ bound) :
    readWith readOne s = readWith readOther s := by
  rw [readWith, readWith]
  split
  · next available =>
      exact agree _ _ (Nat.lt_of_lt_of_le (DataInputStream.length_readByte_lt available) le)
  · rfl

theorem readListLoop_congr (shrinks : Shrinks readOne) (agree : Agree bound readOne readOther)
    {items : List Variant} (le : s.rest.length ≤ bound) (enough : s.rest.length < turns)
    (enoughToo : s.rest.length < others) :
    readListLoop readOne turns items s = readListLoop readOther others items s := by
  induction turns generalizing others items s with
  | zero => exact absurd enough (Nat.not_lt_zero _)
  | succ turns ih =>
      cases others with
      | zero => exact absurd enoughToo (Nat.not_lt_zero _)
      | succ others =>
          rw [readListLoop, readListLoop]
          split
          · next available =>
              have less := DataInputStream.length_readByte_lt available
              have shorter := shrinks (s.readByte.1.getD 255) s.readByte.2
              rw [← agree _ _ (Nat.lt_of_lt_of_le less le)]
              split <;> next left read =>
                rw [read] at shorter
                have fewer : left.rest.length < s.rest.length := Nat.lt_of_le_of_lt shorter less
                exact ih (by omega) (by omega) (by omega)
          · rfl

theorem readDictLoop_congr (shrinks : Shrinks readOne) (agree : Agree bound readOne readOther)
    {items : List (Bytes × Variant)} (le : s.rest.length ≤ bound) (enough : s.rest.length < turns)
    (enoughToo : s.rest.length < others) :
    readDictLoop order readOne turns items s = readDictLoop order readOther others items s := by
  induction turns generalizing others items s with
  | zero => exact absurd enough (Nat.not_lt_zero _)
  | succ turns ih =>
      cases others with
      | zero => exact absurd enoughToo (Nat.not_lt_zero _)
      | succ others =>
          obtain ⟨-, fewer, -⟩ := tryReadString_left order s
          rw [readDictLoop, readDictLoop]
          split
          · split
            · rfl
            · next key left read =>
                rw [read] at fewer
                have two : left.rest.length + 2 ≤ s.rest.length := fewer nofun
                have shorter := length_readWith_le shrinks left
                rw [← readWith_congr agree (by omega)]
                split <;> next after item =>
                  rw [item] at shorter
                  have last : after.rest.length ≤ left.rest.length := shorter
                  exact ih (by omega) (by omega) (by omega)
          · rfl

theorem agree_readItem (order : BitConverter) {depth deeper : Nat} (le : depth ≤ deeper) :
    Agree depth (readItem order depth) (readItem order deeper) := by
  induction depth generalizing deeper with
  | zero => exact fun _ _ none => absurd none (Nat.not_lt_zero _)
  | succ depth ih =>
      cases deeper with
      | zero => exact absurd le (Nat.not_succ_le_zero _)
      | succ deeper =>
          intro tag s less
          have agree := ih (Nat.le_of_succ_le_succ le)
          have shrinks := shrinks_readItem order depth
          have inside := Nat.le_of_lt_succ less
          rw [readItem, readItem, readListLoop_congr shrinks agree inside (Nat.lt_succ_self _)
            (Nat.lt_succ_self _), readDictLoop_congr shrinks agree inside (Nat.lt_succ_self _)
            (Nat.lt_succ_self _)]

/-- Reading goes no deeper than there is input. -/
theorem readWith_readItem {depth : Nat} (le : s.rest.length ≤ depth) :
    readWith (readItem order depth) s = read order s :=
  (readWith_congr (agree_readItem order le) le_rfl).symm

/-! ## The loop of an object -/

/-- `read_dict` from a turn of its loop on. -/
def readDict (order : BitConverter) (items : List (Bytes × Variant)) (s : DataInputStream) :
    Option Variant × DataInputStream :=
  readDictLoop order (readItem order s.rest.length) (s.rest.length + 1) items s

theorem readDict_eq (items : List (Bytes × Variant)) (s : DataInputStream) :
    readDict order items s =
      if s.isAvailable 1 then
        match tryReadString order s with
        | (none, s) => (some (.dict items), s)
        | (some key, s) =>
            match read order s with
            | (none, s) => readDict order items s
            | (some item, s) => readDict order (Variant.set key item items) s
      else (some (.dict items), s) := by
  obtain ⟨-, fewer, -⟩ := tryReadString_left order s
  have shrinks := shrinks_readItem order s.rest.length
  rw [readDict, readDictLoop]
  split
  · split
    · rfl
    · next key left read =>
        rw [read] at fewer
        have two : left.rest.length + 2 ≤ s.rest.length := fewer nofun
        have shorter := length_readWith_le shrinks left
        rw [← @readWith_readItem order left s.rest.length (by omega)]
        split <;> next after item =>
          rw [item] at shorter
          have last : after.rest.length ≤ left.rest.length := shorter
          have agree : Agree after.rest.length (readItem order s.rest.length)
              (readItem order after.rest.length) := fun tag t less =>
            ((agree_readItem order (by omega : after.rest.length ≤ s.rest.length)) tag t less).symm
          exact readDictLoop_congr shrinks agree le_rfl (by omega) (Nat.lt_succ_self _)
  · rfl

theorem readDict_spent (items : List (Bytes × Variant)) (s : DataInputStream) :
    (∃ all, (readDict order items s).1 = some (.dict all)) ∧ (readDict order items s).2.Spent :=
  readDictLoop_spent (shrinks_readItem order _) (Nat.lt_succ_self _)

theorem read_object (order : BitConverter) (body : Bytes) :
    read order ⟨true, amf0Object :: body⟩ = readDict order [] ⟨true, body⟩ := by
  rw [read, readWith, if_pos (DataInputStream.isAvailable_one_cons ..)]
  rfl

theorem read_array (order : BitConverter) (body : Bytes) :
    (read order ⟨true, amf0Array :: body⟩).1 = none := by
  rw [read, readWith, if_pos (DataInputStream.isAvailable_one_cons ..)]
  exact (readListLoop_spent (shrinks_readItem order _) (Nat.lt_succ_self _)).1

theorem read_spent (spent : s.Spent) : read order s = (none, s) := by
  rw [read, readWith, if_neg (by rw [spent]; exact Bool.false_ne_true)]

end Amf0

end Xul
