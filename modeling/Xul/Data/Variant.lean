import Xul.Foundation.SortedEntries
import Xul.Std.Bytes

/-!
# Variants

A `variant` holds one value of several types, and lists and dictionaries of variants.  A
dictionary is a `tree_map`, with its entries in the order of their keys.
-/

set_option autoImplicit false

namespace Xul

open Foundation

/-- The values of a `variant` that are read and written; a floating point number is the
pattern of its 64 bits. -/
inductive Variant
  | null
  | bool (val : Bool)
  | float (val : UInt64)
  | string (val : Bytes)
  | list (items : List Variant)
  | dict (items : List (Bytes × Variant))

namespace Variant

def isList : Variant → Bool
  | .list _ => true
  | _ => false

def isDict : Variant → Bool
  | .dict _ => true
  | _ => false

/-- `tree_map::set`: the key is cut at its first zero byte, and its value replaced. -/
def set (key : Bytes) (val : Variant) (items : List (Bytes × Variant)) : List (Bytes × Variant) :=
  insertEntry (fun _ new => new) (cStr key) val items

mutual
/-- The same value with the entries of every dictionary in the order of their keys. -/
def sorted : Variant → Variant
  | .null => .null
  | .bool val => .bool val
  | .float val => .float val
  | .string val => .string val
  | .list items => .list (sortedItems items)
  | .dict items => .dict (sortEntries (sortedEntries items))

def sortedItems : List Variant → List Variant
  | [] => []
  | item :: items => sorted item :: sortedItems items

def sortedEntries : List (Bytes × Variant) → List (Bytes × Variant)
  | [] => []
  | (key, val) :: items => (key, sorted val) :: sortedEntries items
end

theorem sortedEntries_eq_map (items : List (Bytes × Variant)) :
    sortedEntries items = items.map fun item => (item.1, sorted item.2) := by
  induction items with
  | nil => rfl
  | cons item items ih => rw [sortedEntries, ih, List.map_cons]

theorem keys_sortedEntries (items : List (Bytes × Variant)) :
    (sortedEntries items).map Prod.fst = items.map Prod.fst := by
  rw [sortedEntries_eq_map, List.map_map]
  rfl

theorem mem_sortedEntries {item : Bytes × Variant} {items : List (Bytes × Variant)}
    (member : item ∈ items) : (item.1, sorted item.2) ∈ sortedEntries items := by
  rw [sortedEntries_eq_map]
  exact List.mem_map.mpr ⟨item, member, rfl⟩

end Variant

end Xul
