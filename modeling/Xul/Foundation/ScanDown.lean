import Mathlib.Data.List.DropRight
import Mathlib.Tactic.Common

/-!
# Scanning a list from its end

`scanDown` looks for the last element that stops it, from a position down.  What it finds is where
`rdropWhile` would cut what lies up to that position (`scanDown_eq`), so that a scan which begins
behind every such element finds the last of the whole list (`rdropWhile_take_of_seen`).
-/

set_option autoImplicit false

namespace Foundation

variable {α : Type*}

/-! ## Dropping from the end -/

section

variable {p : α → Bool} {front back : List α} {a : α}

theorem rdropWhile_append_of_forall (front : List α) (all : ∀ x ∈ back, p x) :
    (front ++ back).rdropWhile p = front.rdropWhile p := by
  have reversed : ∀ x ∈ back.reverse, p x := fun x member => all x (List.mem_reverse.mp member)
  rw [List.rdropWhile, List.reverse_append, List.dropWhile_append_of_pos reversed]
  rfl

/-- What ends a list behind its last stop. -/
theorem rdropWhile_append_cons (front : List α) (stop : ¬ p a) (all : ∀ x ∈ back, p x) :
    (front ++ a :: back).rdropWhile p = front ++ [a] := by
  rw [← List.singleton_append, ← List.append_assoc, rdropWhile_append_of_forall _ all,
    List.rdropWhile_concat_neg p front a stop]

theorem rtakeWhile_eq_drop (l : List α) :
    l.rtakeWhile p = l.drop (l.rdropWhile p).length := by
  have whole : l.rdropWhile p ++ l.rtakeWhile p = l := List.rdropWhile_append_rtakeWhile
  have cut := congrArg (List.drop (l.rdropWhile p).length) whole
  rwa [List.drop_left] at cut

theorem rtakeWhile_append_cons (front : List α) (stop : ¬ p a) (all : ∀ x ∈ back, p x) :
    (front ++ a :: back).rtakeWhile p = back := by
  have whole : front ++ a :: back = (front ++ [a]) ++ back := by
    rw [List.append_assoc, List.singleton_append]
  rw [rtakeWhile_eq_drop, rdropWhile_append_cons front stop all, whole, List.drop_left]

/-- What is kept ends with a stop. -/
theorem rdropWhile_eq_nil_or_concat (p : α → Bool) (l : List α) :
    l.rdropWhile p = [] ∨ ∃ front a, l.rdropWhile p = front ++ [a] ∧ ¬ p a := by
  by_cases empty : l.rdropWhile p = []
  · exact .inl empty
  · refine .inr ⟨(l.rdropWhile p).dropLast, (l.rdropWhile p).getLast empty, ?_, ?_⟩
    · exact (List.dropLast_append_getLast empty).symm
    · exact List.rdropWhile_last_not p l empty

/-- A stop is kept, with everything in front of it. -/
theorem length_lt_rdropWhile (front back : List α) (stop : ¬ p a) :
    front.length < ((front ++ a :: back).rdropWhile p).length := by
  induction back using List.reverseRecOn with
  | nil =>
      rw [List.rdropWhile_concat_neg p front a stop, List.length_append]
      exact Nat.lt_succ_self _
  | append_singleton back b ih =>
      rw [← List.cons_append, ← List.append_assoc]
      by_cases drops : p b = true
      · rwa [List.rdropWhile_concat_pos p _ b drops]
      · rw [List.rdropWhile_concat_neg p _ b drops]
        simp only [List.length_append, List.length_cons]
        omega

end

/-! ## A scan -/

variable (stops : α → Bool)

/-- The last position, from `pos` down, of an element that stops the scan. -/
def scanDown (l : List α) : Nat → Option Nat
  | 0 => if (l[0]?).any stops then some 0 else none
  | pos + 1 => if (l[pos + 1]?).any stops then some (pos + 1) else scanDown l pos

/-- **A scan finds the end of what `rdropWhile` keeps.** -/
theorem scanDown_eq {l : List α} {pos : Nat} (inside : pos < l.length) :
    scanDown stops l pos =
      if (l.take (pos + 1)).rdropWhile (fun x => !stops x) = [] then none
      else some (((l.take (pos + 1)).rdropWhile fun x => !stops x).length - 1) := by
  induction pos with
  | zero =>
      rw [scanDown, List.getElem?_eq_getElem inside, List.take_add_one,
        List.getElem?_eq_getElem inside]
      by_cases stop : stops l[0] = true
      · simp [stop, List.rdropWhile_singleton]
      · simp [stop, List.rdropWhile_singleton]
  | succ pos ih =>
      rw [scanDown, List.getElem?_eq_getElem inside, List.take_add_one,
        List.getElem?_eq_getElem inside]
      by_cases stop : stops l[pos + 1] = true
      · have length : (l.take (pos + 1)).length = pos + 1 := by
          rw [List.length_take]
          omega
        rw [Option.toList_some, List.rdropWhile_concat_neg _ _ _ (by simp [stop])]
        simp only [Option.any_some, stop, if_true, List.append_eq_nil_iff, List.cons_ne_nil,
          and_false, if_false, List.length_append, length, List.length_singleton,
          Nat.add_sub_cancel]
      · rw [Option.toList_some, List.rdropWhile_concat_pos _ _ _ (by simp [stop]),
          ← ih (by omega)]
        simp only [Option.any_some, stop, Bool.false_eq_true, if_false]

/-- A scan that begins behind every stop finds the last one of the whole list. -/
theorem rdropWhile_take_of_seen {l : List α} {count : Nat}
    (seen : ∀ front a back, l = front ++ a :: back → stops a → front.length < count) :
    (l.take count).rdropWhile (fun x => !stops x) = l.rdropWhile fun x => !stops x := by
  have behind : ∀ a ∈ l.drop count, (!stops a) = true := by
    intro a member
    by_contra stop
    rw [Bool.not_eq_true', Bool.not_eq_false] at stop
    obtain ⟨front, back, split⟩ := List.append_of_mem member
    have whole : l = (l.take count ++ front) ++ a :: back := by
      rw [List.append_assoc, ← split, List.take_append_drop]
    have early := seen _ a back whole stop
    have nonempty : 0 < (l.drop count).length := List.length_pos_of_mem member
    rw [List.length_drop] at nonempty
    rw [List.length_append, List.length_take] at early
    omega
  conv_rhs => rw [← List.take_append_drop count l]
  exact (rdropWhile_append_of_forall _ behind).symm

end Foundation
