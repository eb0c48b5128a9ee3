import Xul.Foundation.SortedEntries
import Xul.Io.BmfIntegerEncoding

/-!
# The binary message format

Values are integers, byte strings, lists and dictionaries.  `bmf_writer` writes a tag in
front of each and an end tag behind the elements of a list or dictionary; `bmf_reader` reads
one value from the head of an input.  What it cannot read is an empty `boost::any`, and a
string whose length is negative makes `std::string::resize` throw.
-/

set_option autoImplicit false

namespace Xul

open Foundation

/-- The values in a `boost::any`; a dictionary has its entries in the order of the keys. -/
inductive Any
  | empty
  | integer (val : Int64)
  | string (s : Bytes)
  | list (items : List Any)
  | dict (items : List (Bytes × Any))

namespace Bmf

/-! ## `bmf_format` -/

def integerTag : UInt8 := 1

def stringTag : UInt8 := 7

def listTag : UInt8 := 10

def dictTag : UInt8 := 13

def endTag : UInt8 := 17

/-- The length of the longest string that is read. -/
def maxString : Nat := 128 * 1024

/-! ## `bmf_writer` -/

def writeInteger (val : Int64) : Bytes := integerTag :: BmfIntegerEncoding.encode val

def startBytes (size : Nat) : Bytes :=
  stringTag :: BmfIntegerEncoding.encode (Int64.ofNat size)

def writeString (val : Bytes) : Bytes := startBytes val.length ++ val

def writeKey (val : Bytes) : Bytes := writeString val

def startList : Bytes := [listTag]

def endList : Bytes := [endTag]

def startDict : Bytes := [dictTag]

def endDict : Bytes := [endTag]

mutual
/-- The calls that write a value. -/
def writeValue : Any → Bytes
  | .empty => []
  | .integer val => writeInteger val
  | .string s => writeString s
  | .list items => startList ++ writeItems items ++ endList
  | .dict items => startDict ++ writeEntries items ++ endDict

def writeItems : List Any → Bytes
  | [] => []
  | item :: items => writeValue item ++ writeItems items

def writeEntries : List (Bytes × Any) → Bytes
  | [] => []
  | (key, value) :: items => writeKey key ++ writeValue value ++ writeEntries items
end

/-! ## `bmf_reader` -/

/-- How a call of the reader ends: it returns a value and leaves the rest of the input, or it
throws.  The loops and the recursion run for a count of steps, and may not be done. -/
inductive Outcome (α : Type)
  | returned (value : α) (rest : Bytes)
  | thrown
  | unfinished

namespace Outcome

variable {α β : Type}

/-- Go on with what was returned. -/
def bind (outcome : Outcome α) (next : α → Bytes → Outcome β) : Outcome β :=
  match outcome with
  | .returned value rest => next value rest
  | .thrown => .thrown
  | .unfinished => .unfinished

@[simp] theorem bind_returned (value : α) (rest : Bytes) (next : α → Bytes → Outcome β) :
    (returned value rest).bind next = next value rest := rfl

@[simp] theorem bind_thrown (next : α → Bytes → Outcome β) :
    (thrown : Outcome α).bind next = .thrown := rfl

theorem of_bind_eq_returned {outcome : Outcome α} {next : α → Bytes → Outcome β} {value : β}
    {rest : Bytes} (ends : outcome.bind next = .returned value rest) :
    ∃ first left, outcome = .returned first left ∧ next first left = .returned value rest := by
  cases outcome with
  | returned first left => exact ⟨first, left, rfl, ends⟩
  | thrown => exact absurd ends nofun
  | unfinished => exact absurd ends nofun

/-- The call ends, and leaves no more than a bound. -/
def Finishes (outcome : Outcome α) (bound : Nat) : Prop :=
  match outcome with
  | .returned _ rest => rest.length ≤ bound
  | .thrown => True
  | .unfinished => False

theorem Finishes.mono {outcome : Outcome α} {bound larger : Nat} (finishes : outcome.Finishes bound)
    (le : bound ≤ larger) : outcome.Finishes larger := by
  cases outcome with
  | returned value rest => exact Nat.le_trans finishes le
  | thrown => trivial
  | unfinished => exact finishes

theorem Finishes.bind {outcome : Outcome α} {next : α → Bytes → Outcome β} {bound : Nat}
    (finishes : outcome.Finishes bound)
    (goesOn : ∀ value rest, rest.length ≤ bound → (next value rest).Finishes bound) :
    (outcome.bind next).Finishes bound := by
  cases outcome with
  | returned value rest => exact goesOn value rest finishes
  | thrown => trivial
  | unfinished => exact finishes

end Outcome

def readInteger (s : Bytes) : Outcome Any :=
  match BmfIntegerEncoding.decode s with
  | (none, rest) => .returned .empty rest
  | (some val, rest) => .returned (.integer val) rest

/-- `resize` takes a negative length for one beyond `max_size`. -/
def tryReadString (s : Bytes) : Outcome (Option Bytes) :=
  match BmfIntegerEncoding.decode s with
  | (none, rest) => .returned none rest
  | (some val, rest) =>
      if Int64.ofNat maxString < val then .returned none rest
      else if val < 0 then .thrown
      else if rest.length < val.toNatClampNeg then .returned none rest
      else .returned (some (rest.take val.toNatClampNeg)) (rest.drop val.toNatClampNeg)

def readString (s : Bytes) : Outcome Any :=
  (tryReadString s).bind fun s rest => .returned (s.elim .empty .string) rest

/-- `read`, with what reads an item behind its tag. -/
def readWith (readItem : UInt8 → Bytes → Outcome Any) : Bytes → Outcome Any
  | [] => .returned .empty []
  | tag :: s => readItem tag s

/-- The loop of `read_list`. -/
def readListLoop (readItem : UInt8 → Bytes → Outcome Any) :
    Nat → List Any → Bytes → Outcome Any
  | 0, _, _ => .unfinished
  | _ + 1, _, [] => .returned .empty []
  | turns + 1, items, tag :: s =>
      if tag = endTag then .returned (.list items) s
      else (readItem tag s).bind fun item s => readListLoop readItem turns (items ++ [item]) s

/-- `std::map::insert`, which keeps the value of a key that is there. -/
def insert (key : Bytes) (value : Any) (items : List (Bytes × Any)) : List (Bytes × Any) :=
  insertEntry (fun old _ => old) key value items

/-- The loop of `read_dict`. -/
def readDictLoop (readItem : UInt8 → Bytes → Outcome Any) :
    Nat → List (Bytes × Any) → Bytes → Outcome Any
  | 0, _, _ => .unfinished
  | _ + 1, _, [] => .returned .empty []
  | turns + 1, items, tag :: s =>
      if tag = endTag then .returned (.dict items) s
      else if tag ≠ stringTag then .returned .empty s
      else (tryReadString s).bind fun key s =>
        match key with
        | none => .returned .empty s
        | some key => (readWith readItem s).bind fun value s =>
            readDictLoop readItem turns (insert key value items) s

/-- A list or dictionary takes a level of the depth, and a turn of its loop a byte. -/
def readItem : Nat → UInt8 → Bytes → Outcome Any
  | 0, _, _ => .unfinished
  | depth + 1, tag, s =>
      if tag = integerTag then readInteger s
      else if tag = stringTag then readString s
      else if tag = listTag then readListLoop (readItem depth) (s.length + 1) [] s
      else if tag = dictTag then readDictLoop (readItem depth) (s.length + 1) [] s
      else .returned .empty s

/-- `read`: there are no more levels than bytes. -/
def read (s : Bytes) : Outcome Any := readWith (readItem s.length) s

/-! ## The reader comes to an end -/

theorem readInteger_finishes (s : Bytes) : (readInteger s).Finishes s.length := by
  have shorter := BmfIntegerEncoding.length_decode_le s
  rw [readInteger]
  split <;> next read =>
    rw [read] at shorter
    exact Nat.le_trans shorter (Nat.sub_le ..)

theorem tryReadString_finishes (s : Bytes) : (tryReadString s).Finishes s.length := by
  have shorter := BmfIntegerEncoding.length_decode_le s
  rw [tryReadString]
  split
  · next read =>
      rw [read] at shorter
      exact Nat.le_trans shorter (Nat.sub_le ..)
  · next read =>
      rw [read] at shorter
      have le := Nat.le_trans shorter (Nat.sub_le ..)
      split
      · exact le
      · split
        · trivial
        · split
          · exact le
          · apply Nat.le_trans _ le
            rw [List.length_drop]
            exact Nat.sub_le ..

section

variable {readItem : UInt8 → Bytes → Outcome Any} {bound : Nat}
  (finishes : ∀ tag s, s.length < bound → (readItem tag s).Finishes s.length)
include finishes

theorem readWith_finishes {s : Bytes} (le : s.length ≤ bound) :
    (readWith readItem s).Finishes s.length := by
  cases s with
  | nil => exact le_rfl
  | cons tag s => exact (finishes tag s le).mono (Nat.le_succ _)

theorem readListLoop_finishes {turns : Nat} {items : List Any} {s : Bytes} (le : s.length ≤ bound)
    (enough : s.length < turns) : (readListLoop readItem turns items s).Finishes s.length := by
  induction turns generalizing items s with
  | zero => exact absurd enough (Nat.not_lt_zero _)
  | succ turns ih =>
      cases s with
      | nil => exact le_rfl
      | cons tag s =>
          rw [readListLoop]
          split
          · exact Nat.le_succ _
          · apply Outcome.Finishes.mono _ (Nat.le_succ _)
            apply (finishes tag s le).bind
            intro item rest shorter
            apply (ih _ _).mono shorter
            · exact Nat.le_trans shorter (Nat.le_of_succ_le le)
            · exact Nat.lt_of_le_of_lt shorter (Nat.lt_of_succ_lt_succ enough)

theorem readDictLoop_finishes {turns : Nat} {items : List (Bytes × Any)} {s : Bytes}
    (le : s.length ≤ bound) (enough : s.length < turns) :
    (readDictLoop readItem turns items s).Finishes s.length := by
  induction turns generalizing items s with
  | zero => exact absurd enough (Nat.not_lt_zero _)
  | succ turns ih =>
      cases s with
      | nil => exact le_rfl
      | cons tag s =>
          apply Outcome.Finishes.mono _ (Nat.le_succ s.length)
          rw [readDictLoop]
          split
          · exact le_rfl
          · split
            · exact le_rfl
            · apply (tryReadString_finishes s).bind
              intro key rest shorter
              cases key with
              | none => exact shorter
              | some key =>
                  have inside : rest.length ≤ bound :=
                    Nat.le_trans shorter (Nat.le_of_succ_le le)
                  apply ((readWith_finishes finishes inside).mono shorter).bind
                  intro value after fewer
                  apply (ih _ _).mono fewer
                  · exact Nat.le_trans fewer (Nat.le_of_succ_le le)
                  · exact Nat.lt_of_le_of_lt fewer (Nat.lt_of_succ_lt_succ enough)

end

/-- **An item is read in as many levels as there are bytes.** -/
theorem readItem_finishes {depth : Nat} {tag : UInt8} {s : Bytes} (enough : s.length < depth) :
    (readItem depth tag s).Finishes s.length := by
  induction depth generalizing tag s with
  | zero => exact absurd enough (Nat.not_lt_zero _)
  | succ depth ih =>
      have finishes : ∀ tag s, s.length < depth → (readItem depth tag s).Finishes s.length :=
        fun _ _ => ih
      have le : s.length ≤ depth := Nat.le_of_lt_succ enough
      rw [readItem]
      split
      · exact readInteger_finishes s
      · split
        · rw [readString]
          exact (tryReadString_finishes s).bind fun _ _ shorter => shorter
        · split
          · exact readListLoop_finishes finishes le (Nat.lt_succ_self _)
          · split
            · exact readDictLoop_finishes finishes le (Nat.lt_succ_self _)
            · exact le_rfl

theorem read_finishes (s : Bytes) : (read s).Finishes s.length :=
  readWith_finishes (fun _ _ => readItem_finishes) le_rfl

end Bmf

end Xul
