import Mathlib.Algebra.BigOperators.Group.List.Basic
import Mathlib.Algebra.Order.BigOperators.Group.List
import Mathlib.Data.Int.ModEq
import Mathlib.Algebra.Order.Group.Unbundled.Int

/-!
# Sliding windows

A log has its entries in numbered steps.  A ring of slots holds one value for each of the
last steps, every step at the position that is its number modulo the length of the ring
(`Ring`): when a step begins, its slot is the one of the step that leaves the window
(`Ring.leaving`), and setting it moves the ring on (`Ring.advance`).
-/

set_option autoImplicit false

namespace Foundation

/-! ## Logs -/

section

variable {α : Type*}

/-- The entries of a log, each with its step. -/
abbrev StepLog (α : Type*) := List (ℤ × α)

namespace StepLog

def values (log : StepLog α) : List α := log.map Prod.snd

/-- What was logged in one step. -/
def inStep (step : ℤ) (log : StepLog α) : List α := values (log.filter fun entry => entry.1 = step)

/-- What was logged from a step on. -/
def since (first : ℤ) (log : StepLog α) : List α :=
  values (log.filter fun entry => first ≤ entry.1)

theorem inStep_snoc (step last : ℤ) (log : StepLog α) (value : α) :
    inStep step (log ++ [(last, value)]) =
      inStep step log ++ if step = last then [value] else [] := by
  by_cases same : step = last
  · simp [inStep, values, same]
  · simp [inStep, values, same, Ne.symm same]

theorem since_snoc (first last : ℤ) (log : StepLog α) (value : α) :
    since first (log ++ [(last, value)]) =
      since first log ++ if first ≤ last then [value] else [] := by
  by_cases within : first ≤ last
  · simp [since, values, within]
  · simp [since, values, within]

theorem since_sublist (first : ℤ) (log : StepLog α) : (since first log).Sublist log.values :=
  List.filter_sublist.map Prod.snd

theorem since_sublist_since {first later : ℤ} (after : first ≤ later) (log : StepLog α) :
    (since later log).Sublist (since first log) := by
  refine (List.monotone_filter_right log ?_).map Prod.snd
  intro entry within
  simp only [decide_eq_true_eq] at within ⊢
  omega

theorem inStep_sublist_since {first step : ℤ} (after : first ≤ step) (log : StepLog α) :
    (inStep step log).Sublist (since first log) := by
  refine (List.monotone_filter_right log ?_).map Prod.snd
  intro entry within
  simp only [decide_eq_true_eq] at within ⊢
  omega

theorem inStep_sublist (step : ℤ) (log : StepLog α) : (inStep step log).Sublist log.values :=
  List.filter_sublist.map Prod.snd

/-- The first step of a window, and the rest of it. -/
theorem since_perm (first : ℤ) (log : StepLog α) :
    (since first log).Perm (inStep first log ++ since (first + 1) log) := by
  have split := List.filter_append_perm (fun entry : ℤ × α => decide (entry.1 = first))
    (log.filter fun entry => first ≤ entry.1)
  rw [List.filter_filter, List.filter_filter] at split
  have here : (log.filter fun entry => decide (entry.1 = first) && decide (first ≤ entry.1)) =
      log.filter fun entry => entry.1 = first := by
    refine List.filter_congr ?_
    intro entry _
    rw [← Bool.decide_and, decide_eq_decide]
    omega
  have later : (log.filter fun entry => (!decide (entry.1 = first)) && decide (first ≤ entry.1)) =
      log.filter fun entry => first + 1 ≤ entry.1 := by
    refine List.filter_congr ?_
    intro entry _
    rw [← decide_not, ← Bool.decide_and, decide_eq_decide]
    omega
  rw [here, later] at split
  have mapped := split.symm.map Prod.snd
  rwa [List.map_append] at mapped

/-- What asks for later steps finds nothing. -/
theorem filter_past_eq_nil {last : ℤ} {log : StepLog α} (past : ∀ entry ∈ log, entry.1 ≤ last)
    {asks : ℤ → Bool} (later : ∀ step ≤ last, asks step = false) :
    (log.filter fun entry => asks entry.1).map Prod.snd = [] := by
  refine List.map_eq_nil_iff.mpr (List.filter_eq_nil_iff.mpr ?_)
  intro entry member
  rw [later entry.1 (past entry member)]
  exact Bool.false_ne_true

/-- Nothing is logged in a step that has not begun. -/
theorem inStep_eq_nil {last step : ℤ} {log : StepLog α} (past : ∀ entry ∈ log, entry.1 ≤ last)
    (ahead : last < step) : inStep step log = [] := by
  refine @filter_past_eq_nil _ last log past (fun before => decide (before = step)) ?_
  intro before le
  exact decide_eq_false (ne_of_lt (lt_of_le_of_lt le ahead))

theorem since_eq_nil {last first : ℤ} {log : StepLog α} (past : ∀ entry ∈ log, entry.1 ≤ last)
    (ahead : last < first) : since first log = [] := by
  refine @filter_past_eq_nil _ last log past (fun before => decide (first ≤ before)) ?_
  intro before le
  exact decide_eq_false (not_le.mpr (lt_of_le_of_lt le ahead))

end StepLog

end

/-! ## Rings -/

section

variable {β : Type*}

/-- The position of a step in a ring. -/
def ringPosition (size : Nat) (step : ℤ) : Nat := (step % size).toNat

theorem ringPosition_lt {size : Nat} (positive : 0 < size) (step : ℤ) :
    ringPosition size step < size := by
  have below := Int.emod_lt_of_pos step (Int.natCast_pos.mpr positive)
  have least := Int.emod_nonneg step (Int.natCast_pos.mpr positive).ne'
  rw [ringPosition]
  omega

theorem ringPosition_sub (size : Nat) (step : ℤ) :
    ringPosition size (step - size) = ringPosition size step := by
  rw [ringPosition, Int.sub_emod_right, ringPosition]

/-- Different steps of a window have different positions. -/
theorem ringPosition_inj {size : Nat} {last step other : ℤ} (positive : 0 < size)
    (after : last - size < step) (upTo : step ≤ last) (after' : last - size < other)
    (upTo' : other ≤ last) (same : ringPosition size step = ringPosition size other) :
    step = other := by
  have least := Int.emod_nonneg step (Int.natCast_pos.mpr positive).ne'
  have least' := Int.emod_nonneg other (Int.natCast_pos.mpr positive).ne'
  have congruent : step ≡ other [ZMOD size] := by
    rw [ringPosition, ringPosition] at same
    rw [Int.ModEq]
    omega
  have apart : other - step = 0 := Int.eq_zero_of_abs_lt_dvd congruent.dvd (abs_lt.mpr (by omega))
  omega

/-- The slots hold the values of the last steps. -/
def Ring (slots : List β) (values : ℤ → β) (last : ℤ) : Prop :=
  ∀ step, last - slots.length < step → step ≤ last →
    slots[ringPosition slots.length step]? = some (values step)

variable {slots : List β} {values values' : ℤ → β} {last : ℤ}

theorem ring_replicate {size : Nat} (positive : 0 < size) (value : β) (last : ℤ) :
    Ring (List.replicate size value) (fun _ => value) last := by
  intro step _ _
  rw [List.length_replicate, List.getElem?_replicate_of_lt (ringPosition_lt positive step)]

/-- The slot of the step that begins is that of the step that leaves the window. -/
theorem Ring.leaving (ring : Ring slots values last) (positive : 0 < slots.length) :
    slots[ringPosition slots.length (last + 1)]? = some (values (last + 1 - slots.length)) := by
  rw [← ringPosition_sub]
  exact ring _ (by omega) (by omega)

/-- Setting the slot of a step of the window changes its value. -/
theorem Ring.set (ring : Ring slots values last) {step : ℤ} (after : last - slots.length < step)
    (upTo : step ≤ last)
    (others : ∀ other, last - slots.length < other → other ≤ last → other ≠ step →
      values' other = values other) :
    Ring (slots.set (ringPosition slots.length step) (values' step)) values' last := by
  intro other after' upTo'
  rw [List.length_set] at *
  have positive : 0 < slots.length := by omega
  by_cases same : other = step
  · rw [same, List.getElem?_set_self (ringPosition_lt positive step)]
  · have apart : ringPosition slots.length step ≠ ringPosition slots.length other := fun equal =>
      same (ringPosition_inj positive after upTo after' upTo' equal).symm
    rw [List.getElem?_set_ne apart, ring other after' upTo', others other after' upTo' same]

/-- **Setting the slot of the next step moves the ring on.** -/
theorem Ring.advance (ring : Ring slots values last) (positive : 0 < slots.length)
    (others : ∀ other, last - slots.length < other → other ≤ last →
      values' other = values other) :
    Ring (slots.set (ringPosition slots.length (last + 1)) (values' (last + 1))) values'
      (last + 1) := by
  intro other after' upTo'
  rw [List.length_set] at *
  by_cases same : other = last + 1
  · rw [same, List.getElem?_set_self (ringPosition_lt positive _)]
  · have apart : ringPosition slots.length (last + 1) ≠ ringPosition slots.length other :=
      fun equal => same (ringPosition_inj positive (by omega) le_rfl after' upTo' equal).symm
    rw [List.getElem?_set_ne apart, ring other (by omega) (by omega),
      others other (by omega) (by omega)]

/-- A ring of one value holds it in every slot. -/
theorem Ring.eq_replicate (ring : Ring slots values last) {value : β}
    (all : ∀ step, last - slots.length < step → step ≤ last → values step = value) :
    slots = List.replicate slots.length value := by
  refine List.eq_replicate_iff.mpr ⟨rfl, ?_⟩
  intro slot member
  obtain ⟨index, inside, rfl⟩ := List.mem_iff_getElem.mp member
  have positive : (0 : ℤ) < slots.length := by omega
  have least := Int.emod_nonneg (last - index) positive.ne'
  have below := Int.emod_lt_of_pos (last - index) positive
  -- the step of the window at the index
  have position : ringPosition slots.length (last - (last - index) % slots.length) = index := by
    rw [ringPosition, Int.sub_emod, Int.emod_emod, ← Int.sub_emod, sub_sub_cancel,
      Int.emod_eq_of_lt (by omega) (by omega), Int.toNat_natCast]
  have found := ring (last - (last - index) % slots.length) (by omega) (by omega)
  rw [position, List.getElem?_eq_getElem inside, all _ (by omega) (by omega)] at found
  exact Option.some.inj found

end

end Foundation
