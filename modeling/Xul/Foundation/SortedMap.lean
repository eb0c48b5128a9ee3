import Xul.Foundation.SortedEntries

/-!
# Maps in the order of their keys

A map is the sequence of its entries, in the order of their keys.  What is found in it determines it
(`ext_of_find`), so that maps are compared key by key.
-/

set_option autoImplicit false

namespace Foundation

/-- The entries of a map, one for each of its keys. -/
structure SortedMap (κ α : Type*) [LinearOrder κ] where
  entries : List (κ × α)
  ordered : Ordered entries

namespace SortedMap

variable {κ α : Type*} [LinearOrder κ]

def empty : SortedMap κ α := ⟨[], List.Pairwise.nil⟩

def find (map : SortedMap κ α) (key : κ) : Option α :=
  (map.entries.find? fun entry => entry.1 = key).map Prod.snd

/-- Put a value under a key, in the place of one that is there. -/
def set (map : SortedMap κ α) (key : κ) (value : α) : SortedMap κ α :=
  ⟨insertEntry (fun _ new => new) key value map.entries, ordered_insertEntry map.ordered⟩

def erase (map : SortedMap κ α) (key : κ) : SortedMap κ α :=
  ⟨map.entries.filter fun entry => entry.1 ≠ key, map.ordered.filter _⟩

/-- The entry with the greatest key. -/
def last (map : SortedMap κ α) : Option (κ × α) := map.entries.getLast?

variable {map other : SortedMap κ α} {key : κ} {value : α}

theorem nodup_keys (map : SortedMap κ α) : (map.entries.map Prod.fst).Nodup :=
  (List.pairwise_map.mpr map.ordered).imp fun less => less.ne

theorem find_eq_some_iff : map.find key = some value ↔ (key, value) ∈ map.entries := by
  rw [find, Option.map_eq_some_iff]
  constructor
  · rintro ⟨⟨sought, found⟩, isFound, rfl⟩
    have isKey := List.find?_some isFound
    rw [decide_eq_true_eq] at isKey
    exact isKey ▸ List.mem_of_find?_eq_some isFound
  · intro member
    cases isFound : map.entries.find? fun entry => entry.1 = key with
    | none =>
        have missed := List.find?_eq_none.mp isFound _ member
        exact absurd (decide_eq_true rfl) missed
    | some entry =>
        have isKey := List.find?_some isFound
        rw [decide_eq_true_eq] at isKey
        have inside := List.mem_of_find?_eq_some isFound
        obtain ⟨sought, found⟩ := entry
        obtain rfl := isKey
        exact ⟨(sought, found), rfl, value_unique map.nodup_keys inside member⟩

theorem find_eq_none_iff : map.find key = none ↔ ∀ value, (key, value) ∉ map.entries := by
  rw [Option.eq_none_iff_forall_not_mem]
  exact forall_congr' fun value => not_congr find_eq_some_iff

@[simp]
theorem find_empty (key : κ) : (empty : SortedMap κ α).find key = none := rfl

/-- **What is found in a map** determines it. -/
theorem ext_of_find (same : ∀ key, map.find key = other.find key) : map = other := by
  have members : ∀ entry, entry ∈ map.entries ↔ entry ∈ other.entries := by
    rintro ⟨key, value⟩
    rw [← find_eq_some_iff, ← find_eq_some_iff, same]
  have perm : map.entries.Perm other.entries :=
    (List.perm_ext_iff_of_nodup map.nodup_keys.of_map other.nodup_keys.of_map).mpr members
  have entries : map.entries = other.entries := by
    refine List.Perm.eq_of_pairwise ?_ map.ordered other.ordered perm
    exact fun first second _ _ less greater => absurd (less.trans greater) (lt_irrefl _)
  obtain ⟨_, _⟩ := map
  obtain ⟨_, _⟩ := other
  cases entries
  rfl

theorem mem_set {entry : κ × α} :
    entry ∈ (map.set key value).entries ↔
      entry = (key, value) ∨ entry.1 ≠ key ∧ entry ∈ map.entries := by
  have kept : ∀ items : List (κ × α), Ordered items →
      (entry ∈ insertEntry (fun _ new => new) key value items ↔
        entry = (key, value) ∨ entry.1 ≠ key ∧ entry ∈ items) := by
    intro items ordered
    induction items with
    | nil => simp [insertEntry]
    | cons head items ih =>
        obtain ⟨first, rest⟩ := List.pairwise_cons.mp ordered
        rw [insertEntry_cons]
        split
        · next before =>
          have apart : entry ∈ head :: items → entry.1 ≠ key := by
            intro member
            obtain rfl | later := List.mem_cons.mp member
            · exact before.ne'
            · exact (before.trans (first entry later)).ne'
          rw [List.mem_cons, and_iff_right_of_imp apart]
        · next notBefore =>
          split
          · next behind =>
            rw [List.mem_cons, List.mem_cons, ih rest]
            constructor
            · rintro (rfl | rfl | ⟨apart, later⟩)
              · exact .inr ⟨behind.ne, .inl rfl⟩
              · exact .inl rfl
              · exact .inr ⟨apart, .inr later⟩
            · rintro (rfl | ⟨apart, rfl | later⟩)
              · exact .inr (.inl rfl)
              · exact .inl rfl
              · exact .inr (.inr ⟨apart, later⟩)
          · next notBehind =>
            have same : key = head.1 := le_antisymm (not_lt.mp notBehind) (not_lt.mp notBefore)
            subst same
            rw [List.mem_cons, List.mem_cons]
            constructor
            · rintro (rfl | later)
              · exact .inl rfl
              · exact .inr ⟨(first entry later).ne', .inr later⟩
            · rintro (rfl | ⟨apart, rfl | later⟩)
              · exact .inl rfl
              · exact absurd rfl apart
              · exact .inr later
  exact kept map.entries map.ordered

theorem find_set (map : SortedMap κ α) (key sought : κ) (value : α) :
    (map.set key value).find sought = if sought = key then some value else map.find sought := by
  ext found
  rw [find_eq_some_iff, mem_set]
  split
  · next same => simp [same, eq_comm]
  · next apart => simp [apart, find_eq_some_iff]

theorem find_erase (map : SortedMap κ α) (key sought : κ) :
    (map.erase key).find sought = if sought = key then none else map.find sought := by
  ext found
  rw [find_eq_some_iff, erase, List.mem_filter,
    decide_eq_true_eq]
  split
  · next same => simp [same]
  · next apart => simp [apart, find_eq_some_iff]

/-- No key is greater than that of the last entry. -/
theorem le_of_last {greatest entry : κ × α} (isLast : map.last = some greatest)
    (member : entry ∈ map.entries) : entry.1 ≤ greatest.1 := by
  have split := List.dropLast_append_getLast? greatest isLast
  rw [← split, List.mem_append, List.mem_singleton] at member
  obtain before | rfl := member
  · have ordered := map.ordered
    rw [← split] at ordered
    exact ((List.pairwise_append.mp ordered).2.2 entry before greatest
      (List.mem_singleton_self _)).le
  · exact le_refl _

theorem exists_last (found : map.find key = some value) : ∃ greatest, map.last = some greatest := by
  have member := find_eq_some_iff.mp found
  exact ⟨map.entries.getLast (List.ne_nil_of_mem member), List.getLast?_eq_some_getLast _⟩

end SortedMap

end Foundation
