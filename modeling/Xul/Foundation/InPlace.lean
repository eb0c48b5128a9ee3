import Mathlib.Data.List.GetD

/-!
# Loops that assign in place

A loop that runs over a sequence and assigns what it reads from the same sequence.  When it
runs down, assigns ahead of what it still has to read, or runs up and reads ahead of what
it has assigned, it reads what was there before (`getD_assignDown`, `getD_assignUp`).  Values that
are assigned one behind another take the place of what was there (`assignAll_append`).
-/

set_option autoImplicit false

namespace Foundation

variable {α : Type*} {fallback : α}

/-- `for (i = count - 1; i >= 0; --i) a[i + offset] = read(a, i)` -/
def assignDown (read : List α → Nat → α) (offset : Nat) : Nat → List α → List α
  | 0, entries => entries
  | i + 1, entries => assignDown read offset i (entries.set (i + offset) (read entries i))

/-- `for (; count > 0; ++i, --count) a[i] = read(a, i)` -/
def assignUp (read : List α → Nat → α) : Nat → Nat → List α → List α
  | 0, _, entries => entries
  | count + 1, i, entries => assignUp read count (i + 1) (entries.set i (read entries i))

/-- `for (value : values) a[i++] = value`; there is no answer where an index is outside. -/
def assignAll : List α → Nat → List α → Option (List α)
  | [], _, entries => some entries
  | value :: values, i, entries =>
      if i < entries.length then assignAll values (i + 1) (entries.set i value) else none

/-- What is read at an index depends only on the entries up to the next one. -/
def ReadsUpTo (fallback : α) (read : List α → Nat → α) : Prop :=
  ∀ {entries other : List α} {i : Nat},
    (∀ k ≤ i + 1, entries.getD k fallback = other.getD k fallback) → read entries i = read other i

/-- What is read at an index depends only on the entries from there on. -/
def ReadsFrom (fallback : α) (read : List α → Nat → α) : Prop :=
  ∀ {entries other : List α} {i : Nat},
    (∀ k, i ≤ k → entries.getD k fallback = other.getD k fallback) → read entries i = read other i

@[simp] theorem length_assignDown (read : List α → Nat → α) (offset count : Nat)
    (entries : List α) : (assignDown read offset count entries).length = entries.length := by
  induction count generalizing entries with
  | zero => rfl
  | succ i ih => rw [assignDown, ih, List.length_set]

@[simp] theorem length_assignUp (read : List α → Nat → α) (count i : Nat) (entries : List α) :
    (assignUp read count i entries).length = entries.length := by
  induction count generalizing i entries with
  | zero => rfl
  | succ count ih => rw [assignUp, ih, List.length_set]

theorem getD_set_self {entries : List α} {i : Nat} (inside : i < entries.length) (value : α) :
    (entries.set i value).getD i fallback = value := by
  simp [List.getD, inside]

theorem getD_set_of_ne {entries : List α} {i k : Nat} (apart : i ≠ k) (value : α) :
    (entries.set i value).getD k fallback = entries.getD k fallback := by
  simp [List.getD, apart]

/-- Sequences of one length with the same entries are equal. -/
theorem ext_getD {entries other : List α} (length : entries.length = other.length)
    (same : ∀ k < entries.length, entries.getD k fallback = other.getD k fallback) :
    entries = other := by
  apply List.ext_getElem length
  intro k inside inOther
  have here := same k inside
  rwa [List.getD_eq_getElem _ _ inside, List.getD_eq_getElem _ _ inOther] at here

/-- **A loop that runs down and assigns ahead reads what was there before.** -/
theorem getD_assignDown {read : List α → Nat → α} (reads : ReadsUpTo fallback read)
    {offset : Nat} (ahead : 0 < offset) {count : Nat} {entries : List α}
    (fits : count + offset ≤ entries.length) (k : Nat) :
    (assignDown read offset count entries).getD k fallback =
      if offset ≤ k ∧ k < count + offset then read entries (k - offset)
      else entries.getD k fallback := by
  induction count generalizing entries with
  | zero =>
      rw [assignDown, if_neg (by omega)]
  | succ i ih =>
      have before : ∀ earlier < i, read (entries.set (i + offset) (read entries i)) earlier =
          read entries earlier := by
        intro earlier smaller
        apply reads
        intro index le
        exact getD_set_of_ne (by omega) _
      rw [assignDown, ih (by rw [List.length_set]; omega)]
      by_cases inner : offset ≤ k ∧ k < i + offset
      · rw [if_pos inner, if_pos (by omega), before (k - offset) (by omega)]
      · rw [if_neg inner]
        by_cases here : k = i + offset
        · subst here
          rw [getD_set_self (by omega), if_pos (by omega), Nat.add_sub_cancel]
        · rw [getD_set_of_ne (by omega), if_neg (by omega)]

/-- **A loop that runs up and reads ahead reads what was there before.** -/
theorem getD_assignUp {read : List α → Nat → α} (reads : ReadsFrom fallback read)
    {count i : Nat} {entries : List α} (fits : i + count ≤ entries.length) (k : Nat) :
    (assignUp read count i entries).getD k fallback =
      if i ≤ k ∧ k < i + count then read entries k else entries.getD k fallback := by
  induction count generalizing i entries with
  | zero =>
      rw [assignUp, if_neg (by omega)]
  | succ count ih =>
      have later : ∀ index, i < index → read (entries.set i (read entries i)) index =
          read entries index := by
        intro index larger
        apply reads
        intro other le
        exact getD_set_of_ne (by omega) _
      rw [assignUp, ih (by rw [List.length_set]; omega)]
      by_cases inner : i + 1 ≤ k ∧ k < i + 1 + count
      · rw [if_pos inner, if_pos (by omega), later k (by omega)]
      · rw [if_neg inner]
        by_cases here : k = i
        · subst here
          rw [getD_set_self (by omega), if_pos (by omega)]
        · rw [getD_set_of_ne (Ne.symm here), if_neg (by omega)]

/-- **Values are assigned behind a beginning if there is room for them.** -/
theorem assignAll_append (values done rest : List α) :
    assignAll values done.length (done ++ rest) =
      if values.length ≤ rest.length then some (done ++ values ++ rest.drop values.length)
      else none := by
  induction values generalizing done rest with
  | nil =>
      have fits : ([] : List α).length ≤ rest.length := Nat.zero_le _
      rw [assignAll, if_pos fits, List.append_nil]
      rfl
  | cons value values ih =>
      cases rest with
      | nil =>
          rw [assignAll, if_neg (by rw [List.append_nil]; exact Nat.lt_irrefl _), if_neg (by simp)]
      | cons old rest =>
          have next := ih (done ++ [value]) rest
          rw [List.length_append, List.length_singleton, List.append_assoc] at next
          have inside : done.length < (done ++ old :: rest).length := by
            rw [List.length_append, List.length_cons]
            omega
          rw [assignAll, if_pos inside, List.set_append_right _ _ (Nat.le_refl _), Nat.sub_self,
            List.set_cons_zero]
          refine next.trans ?_
          simp only [List.length_cons, Nat.add_le_add_iff_right, List.append_assoc,
            List.cons_append, List.nil_append, List.drop_succ_cons]

end Foundation
