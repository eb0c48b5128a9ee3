import Mathlib.Tactic.Basic
import Mathlib.Data.List.Basic

/-!
# The parts of a sequence between its separators

Every separator ends a part.  No part is empty just if an element that is no separator stands in
front of and behind each of them.
-/

set_option autoImplicit false

namespace Foundation

universe u

variable {α : Type u} {p q : α → Bool}

/-- The sequence begins, and with no separator. -/
def BeginsPlain (p : α → Bool) (s : List α) : Prop := ∃ c rest, s = c :: rest ∧ p c = false

/-- What is behind a separator begins with none. -/
def Followed (p : α → Bool) (s : List α) : Prop :=
  ∀ front c back, s = front ++ c :: back → p c = true → BeginsPlain p back

theorem not_beginsPlain_nil : ¬ BeginsPlain p [] := by
  rintro ⟨c, rest, empty, -⟩
  cases empty

theorem beginsPlain_cons_iff {c : α} {rest : List α} :
    BeginsPlain p (c :: rest) ↔ p c = false := by
  constructor
  · rintro ⟨_, _, same, plain⟩
    rwa [(List.cons.inj same).1]
  · exact fun plain => ⟨c, rest, rfl, plain⟩

theorem followed_cons_iff {c : α} {rest : List α} :
    Followed p (c :: rest) ↔ (p c = true → BeginsPlain p rest) ∧ Followed p rest := by
  constructor
  · intro followed
    refine ⟨followed [] c rest rfl, ?_⟩
    rintro front d back rfl
    exact followed (c :: front) d back rfl
  · rintro ⟨first, others⟩ front d back whole separates
    cases front with
    | nil =>
        obtain ⟨rfl, rfl⟩ := List.cons.inj whole
        exact first separates
    | cons a front =>
        obtain ⟨-, rfl⟩ := List.cons.inj whole
        exact others front d back rfl separates

/-- The parts behind the first, and all parts. -/
theorem nil_not_mem_parts_iff (s : List α) :
    ([] ∉ (s.splitOnP p).tail ↔ Followed p s) ∧
      ([] ∉ s.splitOnP p ↔ BeginsPlain p s ∧ Followed p s) := by
  induction s with
  | nil =>
      have followed : Followed p ([] : List α) := fun front c back whole =>
        absurd whole.symm (List.append_ne_nil_of_right_ne_nil _ (List.cons_ne_nil _ _))
      rw [List.splitOnP_nil]
      exact ⟨iff_of_true List.not_mem_nil followed,
        iff_of_false (fun absent => absent (List.mem_singleton_self _))
          fun both => not_beginsPlain_nil both.1⟩
  | cons c rest ih =>
      rw [List.splitOnP_cons_eq_if_modifyHead, followed_cons_iff, beginsPlain_cons_iff]
      by_cases separates : p c = true
      · rw [if_pos separates, List.tail_cons, ih.2]
        simp [separates]
      · obtain ⟨part, parts, isParts⟩ := List.exists_cons_of_ne_nil (List.splitOnP_ne_nil p rest)
        rw [if_neg separates, ← ih.1, isParts]
        simp [separates]

/-- **No part is empty** just if every separator stands between two other elements. -/
theorem forall_parts_ne_nil_iff (s : List α) :
    (∀ part ∈ s.splitOnP p, part ≠ []) ↔ BeginsPlain p s ∧ Followed p s := by
  rw [← (nil_not_mem_parts_iff s).2]
  exact ⟨fun all member => all [] member rfl, fun absent part member empty =>
    absent (empty ▸ member)⟩

/-- Two notions of a separator that agree on a sequence part it in the same way. -/
theorem splitOnP_congr {s : List α} (same : ∀ c ∈ s, p c = q c) : s.splitOnP p = s.splitOnP q := by
  induction s with
  | nil => rfl
  | cons c rest ih =>
      obtain ⟨first, others⟩ := List.forall_mem_cons.mp same
      rw [List.splitOnP_cons_eq_if_modifyHead, List.splitOnP_cons_eq_if_modifyHead, first,
        ih others]

end Foundation
