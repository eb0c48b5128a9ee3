import Mathlib.Data.List.Basic
import Mathlib.Data.List.Forall2

/-!
# Allocations

An allocation is a list of cells, and a cell has no value before something is stored in it.
Storing and loading fail where they would leave the allocation.

A list in which some values are left open is shown by cells that have the other values
(`Shows`).
-/

set_option autoImplicit false

namespace Foundation

variable {α : Type*}

/-- The cells of an allocation.  A cell that nothing was stored in has no value. -/
abbrev Cells (α : Type*) := List (Option α)

namespace Cells

/-- A new allocation. -/
def fresh (size : Nat) : Cells α := List.replicate size none

/-- Stores some cells from an offset on. -/
def store (cells : Cells α) (offset : Nat) (stored : Cells α) : Option (Cells α) :=
  if offset + stored.length ≤ cells.length then
    some (cells.take offset ++ stored ++ cells.drop (offset + stored.length))
  else
    none

/-- Loads the first cells. -/
def load (cells : Cells α) (size : Nat) : Option (Cells α) :=
  if size ≤ cells.length then some (cells.take size) else none

@[simp] theorem length_fresh (size : Nat) : (fresh size : Cells α).length = size :=
  List.length_replicate

theorem store_eq_some {cells stored : Cells α} {offset : Nat}
    (inside : offset + stored.length ≤ cells.length) :
    cells.store offset stored =
      some (cells.take offset ++ stored ++ cells.drop (offset + stored.length)) := if_pos inside

theorem exists_store {cells stored : Cells α} {offset : Nat}
    (inside : offset + stored.length ≤ cells.length) :
    ∃ after, cells.store offset stored = some after := ⟨_, store_eq_some inside⟩

theorem inside_of_store {cells stored after : Cells α} {offset : Nat}
    (happens : cells.store offset stored = some after) :
    offset + stored.length ≤ cells.length := by
  by_contra outside
  rw [store, if_neg outside] at happens
  cases happens

theorem load_eq_some {cells : Cells α} {size : Nat} (inside : size ≤ cells.length) :
    cells.load size = some (cells.take size) := if_pos inside

section

variable {cells stored after : Cells α} {offset : Nat}

theorem length_of_store (happens : cells.store offset stored = some after) :
    after.length = cells.length := by
  have inside := inside_of_store happens
  rw [store_eq_some inside] at happens
  cases happens
  simp only [List.length_append, List.length_take, List.length_drop]
  omega

/-- What is before the stored cells stays, and they follow it. -/
theorem take_of_store (happens : cells.store offset stored = some after) :
    after.take (offset + stored.length) = cells.take offset ++ stored := by
  have inside := inside_of_store happens
  rw [store_eq_some inside] at happens
  cases happens
  refine List.take_left' ?_
  rw [List.length_append, List.length_take]
  omega

theorem take_offset_of_store (happens : cells.store offset stored = some after) :
    after.take offset = cells.take offset := by
  have inside := inside_of_store happens
  rw [store_eq_some inside] at happens
  cases happens
  rw [List.append_assoc]
  refine List.take_left' ?_
  rw [List.length_take]
  omega

/-- A stored cell is found where it was stored. -/
theorem getElem?_offset_of_store (happens : cells.store offset stored = some after)
    {index : Nat} (within : index < stored.length) :
    after[offset + index]? = stored[index]? := by
  have inside := inside_of_store happens
  have len : (cells.take offset).length = offset := by
    rw [List.length_take]
    omega
  calc after[offset + index]?
      = (after.take (offset + stored.length))[offset + index]? :=
          (List.getElem?_take_of_lt (by omega)).symm
    _ = (cells.take offset ++ stored)[offset + index]? := by rw [take_of_store happens]
    _ = stored[index]? := by
          rw [List.getElem?_append_right (by omega), len, Nat.add_sub_cancel_left]

/-- What is after the stored cells stays. -/
theorem getElem?_of_store (happens : cells.store offset stored = some after) {index : Nat}
    (behind : offset + stored.length ≤ index) : after[index]? = cells[index]? := by
  have inside := inside_of_store happens
  rw [store_eq_some inside] at happens
  cases happens
  have len : (cells.take offset ++ stored).length = offset + stored.length := by
    rw [List.length_append, List.length_take]
    omega
  rw [List.getElem?_append_right (len ▸ behind), len, List.getElem?_drop]
  exact congrArg (cells[·]?) (by omega)

end

/-! ## Open values -/

/-- The cells have the values of the list, except where it leaves them open. -/
def Shows (cells values : Cells α) : Prop :=
  List.Forall₂ (fun cell value => value = none ∨ cell = value) cells values

namespace Shows

variable {cells values : Cells α}

protected theorem refl (cells : Cells α) : cells.Shows cells :=
  List.forall₂_same.mpr fun _ _ => .inr rfl

theorem length_eq (shown : cells.Shows values) : cells.length = values.length :=
  List.Forall₂.length_eq shown

theorem append {more others : Cells α} (first : cells.Shows values)
    (second : more.Shows others) : (cells ++ more).Shows (values ++ others) :=
  List.rel_append first second

theorem take (shown : cells.Shows values) (size : Nat) :
    Shows (cells.take size) (values.take size) :=
  List.forall₂_take size shown

/-- Any cells show as many open values. -/
theorem fresh {size : Nat} (long : cells.length = size) : cells.Shows (fresh size) := by
  subst long
  induction cells with
  | nil => exact .nil
  | cons cell cells ih => exact .cons (.inl rfl) ih

/-- Cells that show a value that is not open have it. -/
theorem getElem? (shown : cells.Shows values) {index : Nat} {value : α}
    (here : values[index]? = some (some value)) : cells[index]? = some (some value) := by
  induction shown generalizing index with
  | nil => cases here
  | cons first _ ih =>
      cases index with
      | zero =>
          cases Option.some.inj here
          rcases first with undefined | same
          · cases undefined
          · exact congrArg some same
      | succ index => exact ih here

end Shows

/-- A list of another length, of which new values are open. -/
def resize (size : Nat) (values : Cells α) : Cells α :=
  values.take size ++ fresh (size - values.length)

theorem length_resize (size : Nat) (values : Cells α) : (resize size values).length = size := by
  rw [resize, List.length_append, List.length_take, length_fresh]
  omega

/-- A longer list begins with the old one. -/
theorem take_resize {size : Nat} {values : Cells α} (long : values.length ≤ size) :
    (resize size values).take values.length = values := by
  rw [resize, List.take_of_length_le long]
  exact List.take_left

/-- Cells that begin with what shows a list show the list at their own length. -/
theorem Shows.resize {cells values : Cells α} {size : Nat}
    (shown : Shows (cells.take values.length) values) (long : size ≤ cells.length) :
    Shows (cells.take size) (Cells.resize size values) := by
  have split : cells.take size =
      (cells.take values.length).take size ++ (cells.take size).drop values.length := by
    rw [List.take_take, Nat.min_comm, ← List.take_take, List.take_append_drop]
  rw [split, Cells.resize]
  refine (shown.take size).append (Shows.fresh ?_)
  rw [List.length_drop, List.length_take]
  omega

end Cells

end Foundation
