import Mathlib.Data.Nat.Basic

/-!
# Streams that are worked through by blocks

A state takes in the blocks of a sequence, all of one size, one after the other.  What is left is
shorter than a block and waits for more.  So a sequence may come in pieces: its blocks are those of
the whole, wherever it was cut (`foldBlocks_append`).
-/

set_option autoImplicit false

namespace Foundation

variable {α σ : Type*} {size : Nat} {step : σ → List α → σ}

def foldBlocksLoop (size : Nat) (step : σ → List α → σ) : Nat → σ → List α → σ × List α
  | 0, state, items => (state, items)
  | turns + 1, state, items =>
      if size ≤ items.length then
        foldBlocksLoop size step turns (step state (items.take size)) (items.drop size)
      else (state, items)

/-- What the blocks of a sequence make of a state, and what is left of the sequence. -/
def foldBlocks (size : Nat) (step : σ → List α → σ) (state : σ) (items : List α) : σ × List α :=
  foldBlocksLoop size step items.length state items

theorem foldBlocksLoop_of_le (positive : 0 < size) {turns : Nat} {state : σ} {items : List α}
    (enough : items.length ≤ turns) :
    foldBlocksLoop size step turns state items = foldBlocks size step state items := by
  induction turns using Nat.strong_induction_on generalizing state items with
  | _ turns ih =>
    rw [foldBlocks]
    cases turns with
    | zero => rw [Nat.le_zero.mp enough]
    | succ turns =>
        cases length : items.length with
        | zero =>
            have short : ¬ size ≤ items.length := by omega
            rw [foldBlocksLoop, foldBlocksLoop, if_neg short]
        | succ rest =>
            rw [foldBlocksLoop, foldBlocksLoop]
            split
            · have shorter : (items.drop size).length ≤ rest := by
                rw [List.length_drop]
                omega
              rw [ih turns (Nat.lt_succ_self _) (by omega), ih rest (by omega) shorter]
            · rfl

theorem foldBlocks_of_lt {items : List α} (short : items.length < size) (state : σ) :
    foldBlocks size step state items = (state, items) := by
  rw [foldBlocks]
  cases items.length with
  | zero => rfl
  | succ turns => rw [foldBlocksLoop, if_neg (not_le.mpr short)]

theorem foldBlocks_of_le (positive : 0 < size) {items : List α} (enough : size ≤ items.length)
    (state : σ) :
    foldBlocks size step state items =
      foldBlocks size step (step state (items.take size)) (items.drop size) := by
  obtain ⟨turns, length⟩ : ∃ turns, items.length = turns + 1 := ⟨items.length - 1, by omega⟩
  have shorter : (items.drop size).length ≤ turns := by
    rw [List.length_drop]
    omega
  rw [foldBlocks, length, foldBlocksLoop, if_pos enough, foldBlocksLoop_of_le positive shorter]

/-- **A sequence in two pieces**: the second one begins with what is left of the first. -/
theorem foldBlocks_append (positive : 0 < size) (state : σ) (items more : List α) :
    foldBlocks size step state (items ++ more) =
      foldBlocks size step (foldBlocks size step state items).1
        ((foldBlocks size step state items).2 ++ more) := by
  induction length : items.length using Nat.strong_induction_on generalizing state items with
  | _ count ih =>
    subst length
    by_cases enough : size ≤ items.length
    · have whole : size ≤ (items ++ more).length := by
        rw [List.length_append]
        omega
      have shorter : (items.drop size).length < items.length := by
        rw [List.length_drop]
        omega
      rw [foldBlocks_of_le positive whole, foldBlocks_of_le positive enough,
        List.take_append_of_le_length enough, List.drop_append_of_le_length enough,
        ih _ shorter _ _ rfl]
    · rw [foldBlocks_of_lt (not_le.mp enough)]

theorem length_snd_foldBlocks (positive : 0 < size) (state : σ) (items : List α) :
    (foldBlocks size step state items).2.length = items.length % size := by
  induction length : items.length using Nat.strong_induction_on generalizing state items with
  | _ count ih =>
    subst length
    by_cases enough : size ≤ items.length
    · have shorter : (items.drop size).length < items.length := by
        rw [List.length_drop]
        omega
      rw [foldBlocks_of_le positive enough, ih _ shorter _ _ rfl, List.length_drop,
        ← Nat.mod_eq_sub_mod enough]
    · rw [foldBlocks_of_lt (not_le.mp enough), Nat.mod_eq_of_lt (not_le.mp enough)]

end Foundation
