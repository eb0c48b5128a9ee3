import Xul.Std.Strings

/-!
# Associative string arrays

The table behind message headers and uri parameters is a vector of pairs that is
searched from the front.  Setting a key replaces the value of its first pair and
appends a pair only when there is none, so no two pairs of a table have keys that
compare equal; the invariant is a field of the structure, and with it removing a
key removes everything that compares equal to it (`get_remove`).
-/

set_option autoImplicit false

namespace Xul

structure StringPairEntry where
  key : Bytes
  value : Bytes
deriving DecidableEq, Repr

/-- A table whose keys are told apart by `compare`. -/
structure AssociativeStringArray (compare : Bytes → Bytes → Bool) where
  items : List StringPairEntry
  distinct : items.Pairwise fun earlier later => compare earlier.key later.key = false
deriving DecidableEq

namespace AssociativeStringArray

variable {compare : Bytes → Bytes → Bool}

/-- Replace the value of the first pair whose key compares equal, or append. -/
def setItems (compare : Bytes → Bytes → Bool) (key value : Bytes) :
    List StringPairEntry → List StringPairEntry
  | [] => [⟨key, value⟩]
  | entry :: rest =>
      if compare entry.key key then { entry with value } :: rest
      else entry :: setItems compare key value rest

/-- Erase the first pair whose key compares equal. -/
def removeItems (compare : Bytes → Bytes → Bool) (key : Bytes) :
    List StringPairEntry → List StringPairEntry
  | [] => []
  | entry :: rest =>
      if compare entry.key key then rest else entry :: removeItems compare key rest

/-- Setting a key adds no key but that one. -/
theorem mem_setItems {key value : Bytes} {entry : StringPairEntry} :
    ∀ {items : List StringPairEntry}, entry ∈ setItems compare key value items →
      entry.key ∈ items.map StringPairEntry.key ∨
        entry.key = key ∧ ∀ other ∈ items, compare other.key key = false
  | [], member => by
      simp only [setItems, List.mem_singleton] at member
      exact Or.inr ⟨by rw [member], fun _ nothing => absurd nothing List.not_mem_nil⟩
  | first :: rest, member => by
      simp only [setItems] at member
      split at member
      · rcases List.mem_cons.mp member with rfl | later
        · exact Or.inl (List.mem_cons_self ..)
        · exact Or.inl (List.mem_cons_of_mem _ (List.mem_map_of_mem later))
      · next differs =>
          rcases List.mem_cons.mp member with rfl | later
          · exact Or.inl (List.mem_cons_self ..)
          · rcases mem_setItems later with old | ⟨new, absent⟩
            · exact Or.inl (List.mem_cons_of_mem _ old)
            · refine Or.inr ⟨new, ?_⟩
              intro other present
              rcases List.mem_cons.mp present with rfl | inside
              · exact Bool.eq_false_iff.mpr differs
              · exact absent other inside

theorem pairwise_setItems {key value : Bytes} {items : List StringPairEntry}
    (distinct : items.Pairwise fun earlier later => compare earlier.key later.key = false) :
    (setItems compare key value items).Pairwise
      fun earlier later => compare earlier.key later.key = false := by
  induction distinct with
  | nil => exact List.pairwise_singleton _ _
  | @cons entry rest apart others ih =>
      simp only [setItems]
      split
      · exact List.pairwise_cons.mpr ⟨apart, others⟩
      · next differs =>
          refine List.pairwise_cons.mpr ⟨?_, ih⟩
          intro later member
          rcases mem_setItems member with old | ⟨new, -⟩
          · obtain ⟨same, present, equal⟩ := List.mem_map.mp old
            exact equal ▸ apart same present
          · exact new ▸ Bool.eq_false_iff.mpr differs

theorem removeItems_sublist (key : Bytes) :
    ∀ items : List StringPairEntry, (removeItems compare key items).Sublist items
  | [] => List.Sublist.refl _
  | entry :: rest => by
      simp only [removeItems]
      split
      · exact List.sublist_cons_self _ _
      · exact (removeItems_sublist key rest).cons_cons _

/-! ## The operations -/

def empty (compare : Bytes → Bytes → Bool) : AssociativeStringArray compare :=
  ⟨[], List.Pairwise.nil⟩

def contains (table : AssociativeStringArray compare) (key : Bytes) : Bool :=
  table.items.any fun entry => compare entry.key key

def get (table : AssociativeStringArray compare) (key defaultValue : Bytes) : Bytes :=
  ((table.items.find? fun entry => compare entry.key key).map StringPairEntry.value).getD
    defaultValue

def set (table : AssociativeStringArray compare) (key value : Bytes) :
    AssociativeStringArray compare :=
  ⟨setItems compare key value table.items, pairwise_setItems table.distinct⟩

def remove (table : AssociativeStringArray compare) (key : Bytes) :
    AssociativeStringArray compare :=
  ⟨removeItems compare key table.items, table.distinct.sublist (removeItems_sublist key _)⟩

/-- Apply a function to every value, as iterating over a table by reference does. -/
def mapValues (table : AssociativeStringArray compare) (f : Bytes → Bytes) :
    AssociativeStringArray compare :=
  ⟨table.items.map fun entry => { entry with value := f entry.value }, by
    rw [List.pairwise_map]
    exact table.distinct⟩

/-- A table is its pairs. -/
theorem items_injective {table other : AssociativeStringArray compare}
    (same : table.items = other.items) : table = other := by
  cases table
  cases other
  cases same
  rfl

/-- Values that two functions take back and forth stay as they are. -/
theorem mapValues_mapValues_of_inverse {table : AssociativeStringArray compare}
    {f g : Bytes → Bytes} (inverse : ∀ entry ∈ table.items, g (f entry.value) = entry.value) :
    (table.mapValues f).mapValues g = table := by
  apply items_injective
  simp only [mapValues, List.map_map]
  conv_rhs => rw [← List.map_id table.items]
  apply List.map_congr_left
  intro entry present
  simp only [Function.comp_apply, inverse entry present]
  rfl

/-! ## Setting new keys -/

theorem setItems_of_absent {key value : Bytes} {items : List StringPairEntry}
    (absent : ∀ entry ∈ items, compare entry.key key = false) :
    setItems compare key value items = items ++ [⟨key, value⟩] := by
  induction items with
  | nil => rfl
  | cons entry items ih =>
      rw [List.forall_mem_cons] at absent
      rw [setItems, if_neg (Bool.eq_false_iff.mp absent.1), ih absent.2]
      rfl

/-- **Setting pairs whose keys are told apart appends them in their order.** -/
theorem items_foldl_set {entries : List StringPairEntry}
    {table : AssociativeStringArray compare}
    (distinct : (table.items ++ entries).Pairwise
      fun earlier later => compare earlier.key later.key = false) :
    (entries.foldl (fun table entry => table.set entry.key entry.value) table).items =
      table.items ++ entries := by
  induction entries generalizing table with
  | nil => exact (List.append_nil table.items).symm
  | cons entry entries ih =>
      have absent : ∀ old ∈ table.items, compare old.key entry.key = false := by
        intro old member
        exact (List.pairwise_append.mp distinct).2.2 old member entry List.mem_cons_self
      have set : (table.set entry.key entry.value).items = table.items ++ [entry] :=
        setItems_of_absent absent
      rw [List.append_cons] at distinct
      rw [List.foldl_cons, ih (by rw [set]; exact distinct), set, List.append_assoc]
      rfl

/-! ## What the operations read back -/

section

variable {ν : Type} [DecidableEq ν] {norm : Bytes → ν}
  (tells : ∀ x y, compare x y = true ↔ norm x = norm y)
include tells

/-- An entry with another key stays in front of what is changed. -/
theorem find?_cons_of_apart {key other : Bytes} {entry : StringPairEntry}
    {changed items : List StringPairEntry} {result : Option Bytes}
    (here : norm entry.key ≠ norm key)
    (behind : (changed.find? fun entry => compare entry.key other).map StringPairEntry.value =
      if norm other = norm key then result
      else (items.find? fun entry => compare entry.key other).map StringPairEntry.value) :
    ((entry :: changed).find? fun entry => compare entry.key other).map StringPairEntry.value =
      if norm other = norm key then result
      else ((entry :: items).find? fun entry => compare entry.key other).map
        StringPairEntry.value := by
  by_cases found : norm entry.key = norm other
  · have apart : norm other ≠ norm key := fun equal => here (found.trans equal)
    simp [tells, found, apart]
  · rw [List.find?_cons_of_neg (by simpa [tells] using found), behind,
      List.find?_cons_of_neg (by simpa [tells] using found)]

theorem find?_setItems_of_norm (key value other : Bytes) (items : List StringPairEntry) :
    ((setItems compare key value items).find? fun entry => compare entry.key other).map
        StringPairEntry.value =
      if norm other = norm key then some value
      else (items.find? fun entry => compare entry.key other).map StringPairEntry.value := by
  induction items with
  | nil =>
      by_cases same : norm other = norm key
      · simp [setItems, tells, same]
      · simp [setItems, tells, same, Ne.symm same]
  | cons entry items ih =>
      rw [setItems]
      by_cases here : norm entry.key = norm key
      · rw [if_pos ((tells _ _).mpr here)]
        by_cases same : norm other = norm key
        · simp [tells, here, same]
        · have apart : norm entry.key ≠ norm other := fun equal => same (equal.symm.trans here)
          simp [tells, apart, same]
      · rw [if_neg (by simpa [tells] using here)]
        exact find?_cons_of_apart tells here ih

/-- Keys that are told apart have one entry under a name, which is the one that is removed. -/
theorem find?_removeItems (key other : Bytes) {items : List StringPairEntry}
    (distinct : items.Pairwise fun earlier later => compare earlier.key later.key = false) :
    ((removeItems compare key items).find? fun entry => compare entry.key other).map
        StringPairEntry.value =
      if norm other = norm key then none
      else (items.find? fun entry => compare entry.key other).map StringPairEntry.value := by
  induction distinct with
  | nil => simp [removeItems]
  | @cons entry items apart others ih =>
      rw [removeItems]
      by_cases here : norm entry.key = norm key
      · rw [if_pos ((tells _ _).mpr here)]
        by_cases same : norm other = norm key
        · have gone : ∀ later ∈ items, ¬ compare later.key other = true := by
            intro later member
            rw [tells, same, ← here]
            intro equal
            exact Bool.false_ne_true ((apart later member).symm.trans ((tells _ _).mpr equal.symm))
          rw [if_pos same, List.find?_eq_none.mpr gone, Option.map_none]
        · rw [if_neg same, List.find?_cons_of_neg]
          rw [tells, here]
          exact Ne.symm same
      · rw [if_neg (by simpa [tells] using here)]
        exact find?_cons_of_apart tells here ih

/-- **What has been set is read back**, and nothing else is changed. -/
theorem get_set (table : AssociativeStringArray compare)
    (key value other defaultValue : Bytes) :
    (table.set key value).get other defaultValue =
      if norm other = norm key then value else table.get other defaultValue := by
  rw [get, get, set, find?_setItems_of_norm tells]
  split
  · rfl
  · rfl

/-- **What has been removed is gone.** -/
theorem get_remove (table : AssociativeStringArray compare) (key other defaultValue : Bytes) :
    (table.remove key).get other defaultValue =
      if norm other = norm key then defaultValue else table.get other defaultValue := by
  rw [get, get, remove, find?_removeItems tells key other table.distinct]
  split
  · rfl
  · rfl

end

end AssociativeStringArray

end Xul
