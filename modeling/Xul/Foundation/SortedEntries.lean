import Mathlib.Data.List.Lex
import Mathlib.Data.List.Nodup
import Mathlib.Data.List.Sort

/-!
# Entries sorted by their keys

A map kept as the sequence of its entries in the order of their keys.  An entry whose key
is there already is merged with the one that has it.  Entries with distinct keys that are
put in one after the other are those entries, sorted (`insertAll_eq_sortEntries`).
-/

set_option autoImplicit false

namespace Foundation

variable {κ α : Type*} [LinearOrder κ]

/-- Put a value under a key; `merge` chooses between the value that is there and the new one. -/
def insertEntry (merge : α → α → α) (key : κ) (value : α) : List (κ × α) → List (κ × α)
  | [] => [(key, value)]
  | entry :: entries =>
      if key < entry.1 then (key, value) :: entry :: entries
      else if entry.1 < key then entry :: insertEntry merge key value entries
      else (entry.1, merge entry.2 value) :: entries

def insertAll (merge : α → α → α) (entries : List (κ × α)) (items : List (κ × α)) :
    List (κ × α) :=
  entries.foldl (fun items entry => insertEntry merge entry.1 entry.2 items) items

/-- The entries in the order of their keys. -/
def sortEntries (entries : List (κ × α)) : List (κ × α) :=
  entries.insertionSort fun earlier later => earlier.1 ≤ later.1

/-- The keys of a map, in its order. -/
def Ordered (entries : List (κ × α)) : Prop :=
  entries.Pairwise fun earlier later => earlier.1 < later.1

variable {merge : α → α → α} {key : κ} {value : α} {entries items : List (κ × α)}

theorem insertEntry_cons (entry : κ × α) :
    insertEntry merge key value (entry :: items) =
      if key < entry.1 then (key, value) :: entry :: items
      else if entry.1 < key then entry :: insertEntry merge key value items
      else (entry.1, merge entry.2 value) :: items := rfl

theorem insertEntry_perm (new : key ∉ items.map Prod.fst) :
    (insertEntry merge key value items).Perm ((key, value) :: items) := by
  induction items with
  | nil => exact List.Perm.refl _
  | cons entry items ih =>
      rw [List.map_cons, List.mem_cons, not_or] at new
      rw [insertEntry_cons]
      split
      · exact List.Perm.refl _
      · next notBefore =>
          have after : entry.1 < key := lt_of_le_of_ne (not_lt.mp notBefore) (Ne.symm new.1)
          rw [if_pos after]
          exact ((ih new.2).cons entry).trans (List.Perm.swap ..)

theorem lookup_cons_of_ne {κ : Type*} [BEq κ] [LawfulBEq κ] {key other : κ}
    (apart : other ≠ key) (value : α) (items : List (κ × α)) :
    ((key, value) :: items).lookup other = items.lookup other := by
  rw [List.lookup_cons, beq_false_of_ne apart]

/-- What is found under a key after an entry has replaced the one with its key. -/
theorem lookup_insertEntry [BEq κ] [LawfulBEq κ] (key other : κ) [Decidable (other = key)]
    (value : α) (items : List (κ × α)) :
    (insertEntry (fun _ new => new) key value items).lookup other =
      if other = key then some value else items.lookup other := by
  induction items with
  | nil =>
      rw [insertEntry]
      split
      · next same =>
        rw [same, List.lookup_cons_self]
      · next apart =>
        rw [lookup_cons_of_ne apart]
  | cons entry items ih =>
      obtain ⟨first, old⟩ := entry
      rw [insertEntry_cons]
      by_cases same : other = key
      · rw [if_pos same] at ih ⊢
        split
        · rw [same, List.lookup_cons_self]
        · split
          · next after =>
            have apart : other ≠ first := fun equal => after.ne (equal.symm.trans same)
            rw [lookup_cons_of_ne apart, ih]
          · next notBefore notAfter =>
            have equal : other = first :=
              same.trans (le_antisymm (not_lt.mp notAfter) (not_lt.mp notBefore))
            rw [equal, List.lookup_cons_self]
      · rw [if_neg same] at ih ⊢
        split
        · rw [lookup_cons_of_ne same]
        · split
          · rw [List.lookup_cons, List.lookup_cons, ih]
          · next notBefore notAfter =>
            have equal : first = key := le_antisymm (not_lt.mp notBefore) (not_lt.mp notAfter)
            have apart : other ≠ first := fun here => same (here.trans equal)
            rw [lookup_cons_of_ne apart, lookup_cons_of_ne apart]

theorem mem_keys_insertEntry {other : κ} :
    other ∈ (insertEntry merge key value items).map Prod.fst ↔
      other = key ∨ other ∈ items.map Prod.fst := by
  induction items with
  | nil => simp [insertEntry]
  | cons entry items ih =>
      rw [insertEntry_cons]
      split
      · simp
      · next notBefore =>
          split
          · simp only [List.map_cons, List.mem_cons, ih]
            tauto
          · next notAfter =>
              have same : key = entry.1 := le_antisymm (not_lt.mp notAfter) (not_lt.mp notBefore)
              simp [same]

theorem mem_insertEntry {item : κ × α} (member : item ∈ insertEntry merge key value items) :
    item ∈ items ∨ item.1 = key ∧ (item.2 = value ∨ ∃ old, item.2 = merge old value) := by
  induction items with
  | nil =>
      obtain rfl := List.mem_singleton.mp member
      exact Or.inr ⟨rfl, Or.inl rfl⟩
  | cons entry items ih =>
      rw [insertEntry_cons] at member
      split at member
      · obtain rfl | member := List.mem_cons.mp member
        · exact Or.inr ⟨rfl, Or.inl rfl⟩
        · exact Or.inl member
      · next notBefore =>
          split at member
          · obtain rfl | member := List.mem_cons.mp member
            · exact Or.inl (List.mem_cons_self ..)
            · exact (ih member).imp_left (List.mem_cons_of_mem _)
          · next notAfter =>
              obtain rfl | member := List.mem_cons.mp member
              · exact Or.inr ⟨le_antisymm (not_lt.mp notBefore) (not_lt.mp notAfter),
                  Or.inr ⟨entry.2, rfl⟩⟩
              · exact Or.inl (List.mem_cons_of_mem _ member)

theorem ordered_insertEntry (ordered : Ordered items) :
    Ordered (insertEntry merge key value items) := by
  induction items with
  | nil => exact List.pairwise_singleton _ _
  | cons entry items ih =>
      obtain ⟨first, rest⟩ := List.pairwise_cons.mp ordered
      rw [insertEntry_cons]
      split
      · next before =>
          apply List.pairwise_cons.mpr ⟨?_, ordered⟩
          intro later member
          obtain rfl | member := List.mem_cons.mp member
          · exact before
          · exact before.trans (first later member)
      · split
        · next after =>
            apply List.pairwise_cons.mpr ⟨?_, ih rest⟩
            intro later member
            obtain same | old := mem_keys_insertEntry.mp (List.mem_map.mpr ⟨later, member, rfl⟩)
            · exact same ▸ after
            · obtain ⟨other, inside, equal⟩ := List.mem_map.mp old
              exact equal ▸ first other inside
        · exact List.pairwise_cons.mpr ⟨first, rest⟩

theorem nodup_of_ordered (ordered : Ordered entries) : (entries.map Prod.fst).Nodup :=
  List.pairwise_map.mpr (ordered.imp fun less => less.ne)

theorem ordered_insertAll (ordered : Ordered items) : Ordered (insertAll merge entries items) := by
  induction entries generalizing items with
  | nil => exact ordered
  | cons entry entries ih => exact ih (ordered_insertEntry ordered)

/-- Entries with new and distinct keys are all there afterwards. -/
theorem insertAll_perm (distinct : (entries.map Prod.fst).Nodup)
    (new : ∀ key ∈ entries.map Prod.fst, key ∉ items.map Prod.fst) :
    (insertAll merge entries items).Perm (entries ++ items) := by
  induction entries generalizing items with
  | nil => exact List.Perm.refl _
  | cons entry entries ih =>
      rw [List.map_cons, List.nodup_cons] at distinct
      have first := @insertEntry_perm κ α _ merge entry.1 entry.2 items
        (new entry.1 (List.mem_cons_self ..))
      have rest : ∀ key ∈ entries.map Prod.fst,
          key ∉ (insertEntry merge entry.1 entry.2 items).map Prod.fst := by
        intro key member old
        obtain rfl | old := mem_keys_insertEntry.mp old
        · exact distinct.1 member
        · exact new key (List.mem_cons_of_mem _ member) old
      exact (ih distinct.2 rest).trans ((first.append_left entries).trans List.perm_middle)

theorem sortEntries_perm (entries : List (κ × α)) : (sortEntries entries).Perm entries :=
  List.perm_insertionSort _ entries

theorem pairwise_sortEntries (entries : List (κ × α)) :
    (sortEntries entries).Pairwise fun earlier later => earlier.1 ≤ later.1 := by
  have total : Std.Total fun earlier later : κ × α => earlier.1 ≤ later.1 :=
    ⟨fun earlier later => le_total earlier.1 later.1⟩
  have trans : IsTrans (κ × α) fun earlier later => earlier.1 ≤ later.1 :=
    ⟨fun _ _ _ => le_trans⟩
  exact List.pairwise_insertionSort _ entries

/-- **Entries with distinct keys are put in their order.** -/
theorem insertAll_eq_sortEntries (distinct : (entries.map Prod.fst).Nodup) :
    insertAll merge entries [] = sortEntries entries := by
  have all : (insertAll merge entries []).Perm entries := by
    have perm := @insertAll_perm κ α _ merge entries [] distinct fun _ _ => List.not_mem_nil
    rwa [List.append_nil] at perm
  have sorted : (insertAll merge entries []).Pairwise fun earlier later => earlier.1 ≤ later.1 :=
    (@ordered_insertAll κ α _ merge entries [] List.Pairwise.nil).imp fun less => less.le
  apply List.Perm.eq_of_pairwise _ sorted (pairwise_sortEntries entries)
    (all.trans (sortEntries_perm entries).symm)
  intro earlier later member inside le ge
  exact List.inj_on_of_nodup_map distinct (all.subset member)
    ((sortEntries_perm entries).subset inside) (le_antisymm le ge)

/-- Entries that make one map are the same entries. -/
theorem perm_of_insertAll_eq {others : List (κ × α)} (distinct : (entries.map Prod.fst).Nodup)
    (distinctToo : (others.map Prod.fst).Nodup)
    (same : insertAll merge entries [] = insertAll merge others []) : entries.Perm others := by
  rw [insertAll_eq_sortEntries distinct, insertAll_eq_sortEntries distinctToo] at same
  exact (sortEntries_perm entries).symm.trans (same ▸ sortEntries_perm others)

omit [LinearOrder κ] in
/-- Under one of distinct keys there is one value. -/
theorem value_unique (distinct : (entries.map Prod.fst).Nodup) {other : α}
    (member : (key, value) ∈ entries) (another : (key, other) ∈ entries) : value = other :=
  (Prod.mk.inj (List.inj_on_of_nodup_map distinct member another rfl)).2

end Foundation
