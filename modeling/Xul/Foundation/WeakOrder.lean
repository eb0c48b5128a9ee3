import Mathlib.Tactic.Basic
import Mathlib.Data.List.Basic

/-!
# Sequences sorted by a strict weak order

A comparator tells which of two keys is less; keys of which neither is less are equivalent, and need
not be equal.  In a sequence that is sorted by it, what is not less than a key is behind what is
less, and what is greater is behind what is not, so that either bound of the key cuts the sequence
(`exists_lowerBound`, `exists_upperBound`).
-/

set_option autoImplicit false

namespace Foundation

variable {α β : Type*}

/-- A strict weak order. -/
structure Comparator (α : Type*) where
  less : α → α → Bool
  irrefl : ∀ a, less a a = false
  trans : ∀ {a b c}, less a b = true → less b c = true → less a c = true
  equivalence : ∀ {a b c}, less a b = false → less b a = false → less b c = false →
    less c b = false → less a c = false ∧ less c a = false

namespace Comparator

variable {order : Comparator α} {a b c : α}

theorem asymm (less : order.less a b = true) : order.less b a = false := by
  by_contra greater
  rw [Bool.not_eq_false] at greater
  have turn := order.trans less greater
  rw [order.irrefl] at turn
  cases turn

/-- What is not less than the one and not less than the other is not less than that. -/
theorem not_less_trans (first : order.less a b = false) (second : order.less b c = false) :
    order.less a c = false := by
  by_contra less
  rw [Bool.not_eq_false] at less
  have upper : order.less b a = false := by
    by_contra greater
    rw [Bool.not_eq_false] at greater
    rw [order.trans greater less] at second
    cases second
  have lower : order.less c b = false := by
    by_contra greater
    rw [Bool.not_eq_false] at greater
    rw [order.trans less greater] at first
    cases first
  rw [(order.equivalence first upper second lower).1] at less
  cases less

theorem less_of_less_of_not_less (less : order.less a b = true) (behind : order.less c b = false) :
    order.less a c = true := by
  by_contra notLess
  rw [Bool.not_eq_true] at notLess
  rw [not_less_trans notLess behind] at less
  cases less

end Comparator

/-- What a predicate holds of is behind the rest, if it holds of everything behind what it holds
of. -/
theorem exists_findIdx_split {p : β → Bool} {l : List β}
    (upward : l.Pairwise fun earlier later => p earlier = true → p later = true) :
    ∃ below rest, l = below ++ rest ∧ l.findIdx p = below.length ∧
      (∀ entry ∈ below, p entry = false) ∧ ∀ entry ∈ rest, p entry = true := by
  induction l with
  | nil => exact ⟨[], [], rfl, rfl, List.forall_mem_nil _, List.forall_mem_nil _⟩
  | cons head l ih =>
      obtain ⟨first, others⟩ := List.pairwise_cons.mp upward
      by_cases holds : p head = true
      · refine ⟨[], head :: l, rfl, ?_, List.forall_mem_nil _, ?_⟩
        · rw [List.findIdx_cons, holds]
          rfl
        · exact List.forall_mem_cons.mpr ⟨holds, fun entry later => first entry later holds⟩
      · rw [Bool.not_eq_true] at holds
        obtain ⟨below, rest, rfl, index, before, behind⟩ := ih others
        refine ⟨head :: below, rest, rfl, ?_, List.forall_mem_cons.mpr ⟨holds, before⟩, behind⟩
        rw [List.findIdx_cons, holds, index]
        rfl

section

variable (order : Comparator α) (entries : List (α × β)) (key : α)

/-- No entry is less than one in front of it. -/
def Sorted : Prop := entries.Pairwise fun earlier later => order.less later.1 earlier.1 = false

/-- The position of the first entry that is not less than the key. -/
def lowerBound : Nat := entries.findIdx fun entry => !order.less entry.1 key

/-- The position of the first entry that is greater than the key. -/
def upperBound : Nat := entries.findIdx fun entry => order.less key entry.1

end

variable {order : Comparator α} {entries : List (α × β)}

theorem exists_lowerBound (sorted : Sorted order entries) (key : α) :
    ∃ below rest, entries = below ++ rest ∧ lowerBound order entries key = below.length ∧
      (∀ entry ∈ below, order.less entry.1 key = true) ∧
      ∀ entry ∈ rest, order.less entry.1 key = false := by
  have upward : entries.Pairwise fun earlier later =>
      (!order.less earlier.1 key) = true → (!order.less later.1 key) = true := by
    refine sorted.imp fun {earlier later} behind notLess => ?_
    rw [Bool.not_eq_true'] at notLess ⊢
    exact order.not_less_trans behind notLess
  obtain ⟨below, rest, whole, index, before, behind⟩ := exists_findIdx_split upward
  exact ⟨below, rest, whole, index, fun entry member => by simpa using before entry member,
    fun entry member => by simpa using behind entry member⟩

theorem exists_upperBound (sorted : Sorted order entries) (key : α) :
    ∃ below rest, entries = below ++ rest ∧ upperBound order entries key = below.length ∧
      (∀ entry ∈ below, order.less key entry.1 = false) ∧
      ∀ entry ∈ rest, order.less key entry.1 = true := by
  refine exists_findIdx_split (sorted.imp fun {earlier later} behind greater => ?_)
  exact order.less_of_less_of_not_less greater behind

/-- Nothing in front of the last of some entries is greater. -/
theorem not_less_of_getLast? {last entry : α × β} (sorted : Sorted order entries)
    (isLast : entries.getLast? = some last) (member : entry ∈ entries) :
    order.less last.1 entry.1 = false := by
  have split := List.dropLast_append_getLast? last isLast
  rw [← split, List.mem_append, List.mem_singleton] at member
  obtain before | rfl := member
  · rw [← split] at sorted
    exact (List.pairwise_append.mp sorted).2.2 entry before last (List.mem_singleton_self _)
  · exact order.irrefl _

end Foundation
