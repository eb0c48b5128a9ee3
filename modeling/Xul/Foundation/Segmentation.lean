import Mathlib.Tactic.Basic

/-!
# Segments of a marked sequence

A sequence that arrives in segments has one mark for each of its elements: whether a
segment may begin with it.
-/

set_option autoImplicit false

namespace Foundation

/-- No segment of these sizes begins with an element that is marked with `false`. -/
def Aligned : List Bool → List Nat → Prop
  | _, [] => True
  | marks, size :: sizes => marks.head? ≠ some false ∧ Aligned (marks.drop size) sizes

/-- A sequence may come in one segment when it may begin at all. -/
theorem aligned_singleton {marks : List Bool} (allowed : marks.head? ≠ some false) (size : Nat) :
    Aligned marks [size] :=
  ⟨allowed, trivial⟩

end Foundation
