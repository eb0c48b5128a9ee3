import Mathlib.Data.List.Basic

/-!
# Exchanges with an environment

A program that sends something and is answered leaves a list of exchanges.  What it sends
may depend on the answers.  Two programs cannot be told apart by what they send when they
send the same as long as they have been answered the same (`Indistinguishable`).
-/

set_option autoImplicit false

namespace Foundation

variable {Sent Answer : Type}

/-- The same is sent as long as the answers have been the same. -/
def Indistinguishable : List (Sent × Answer) → List (Sent × Answer) → Prop
  | [], [] => True
  | one :: ones, other :: others =>
      one.1 = other.1 ∧ (one.2 = other.2 → Indistinguishable ones others)
  | [], _ :: _ => False
  | _ :: _, [] => False

/-- **With the same answers the same is sent.** -/
theorem Indistinguishable.same_sent {ones others : List (Sent × Answer)}
    (indistinguishable : Indistinguishable ones others)
    (answers : ones.map Prod.snd = others.map Prod.snd) :
    ones.map Prod.fst = others.map Prod.fst := by
  induction ones generalizing others with
  | nil =>
      cases others with
      | nil => rfl
      | cons other others => exact indistinguishable.elim
  | cons one ones ih =>
      cases others with
      | nil => exact indistinguishable.elim
      | cons other others =>
          obtain ⟨sent, later⟩ := indistinguishable
          obtain ⟨answer, rest⟩ := List.cons.inj answers
          rw [List.map_cons, List.map_cons, sent, ih (later answer) rest]

/-- One exchange at the beginning: the same is sent, and where the answers are the same, so
are the answers that follow. -/
theorem Indistinguishable.append {first other ones others : List (Sent × Answer)}
    (short : first.length ≤ 1) (sent : first.map Prod.fst = other.map Prod.fst)
    (later : first.map Prod.snd = other.map Prod.snd → Indistinguishable ones others) :
    Indistinguishable (first ++ ones) (other ++ others) := by
  cases first with
  | nil =>
      rw [List.map_nil, eq_comm, List.map_eq_nil_iff] at sent
      subst sent
      exact later rfl
  | cons exchange rest =>
      obtain rfl : rest = [] := by
        rw [List.length_cons] at short
        exact List.length_eq_zero_iff.mp (by omega)
      obtain ⟨answered, rfl, same⟩ := List.map_eq_singleton_iff.mp sent.symm
      exact ⟨same.symm, fun answer => later (by rw [List.map_singleton, List.map_singleton, answer])⟩

end Foundation
