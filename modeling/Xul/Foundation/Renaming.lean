import Mathlib.Logic.Function.Basic
import Mathlib.Tactic.Common

/-!
# Renaming files

A directory maps names to what is there.  Renaming a file that is not there changes nothing, and
otherwise replaces the target.

Where the target is free, renaming moves what the source has, be it nothing (`rename_of_free`).
Along a chain of names whose end is free, from its end to its beginning, every name then gets what
the one in front of it had, and the first becomes free (`shift_succ`, `shift_zero`).
-/

set_option autoImplicit false

namespace Foundation

variable {α β : Type*} [DecidableEq α]

def remove (files : α → Option β) (name : α) : α → Option β := Function.update files name none

def rename (files : α → Option β) (source target : α) : α → Option β :=
  if files source = none then files
  else Function.update (Function.update files source none) target (files source)

/-- The files at a chain of names, each renamed to the next name, the last of them first. -/
def shift (name : Nat → α) : Nat → (α → Option β) → α → Option β
  | 0, files => files
  | count + 1, files => shift name count (rename files (name count) (name (count + 1)))

section

variable {files : α → Option β} {source target : α}

/-- **Renaming to a free name** moves what the source has. -/
theorem rename_of_free (source : α) (free : files target = none) :
    rename files source target =
      Function.update (Function.update files source none) target (files source) := by
  by_cases missing : files source = none
  · rw [rename, if_pos missing, missing]
    have same : Function.update files source none = files := by
      rw [← missing, Function.update_eq_self]
    rw [same, ← free, Function.update_eq_self]
  · rw [rename, if_neg missing]

theorem rename_of_ne {name : α} (notSource : name ≠ source) (notTarget : name ≠ target) :
    rename files source target name = files name := by
  rw [rename]
  split
  · rfl
  · rw [Function.update_of_ne notTarget, Function.update_of_ne notSource]

theorem rename_source_of_free (free : files target = none) (apart : source ≠ target) :
    rename files source target source = none := by
  rw [rename_of_free source free, Function.update_of_ne apart, Function.update_self]

theorem rename_target_of_free (source : α) (free : files target = none) :
    rename files source target target = files source := by
  rw [rename_of_free source free, Function.update_self]

theorem remove_self (files : α → Option β) (name : α) : remove files name name = none :=
  Function.update_self ..

theorem remove_of_ne {name other : α} (apart : other ≠ name) :
    remove files name other = files other := Function.update_of_ne apart ..

end

/-! ## A chain of names -/

section

variable {name : Nat → α} {count : Nat} {files : α → Option β}

/-- Other files are left as they are. -/
theorem shift_of_ne {other : α} (apart : ∀ k ≤ count, other ≠ name k) :
    shift name count files other = files other := by
  induction count generalizing files with
  | zero => rfl
  | succ count ih =>
      rw [shift, ih fun k inside => apart k (Nat.le_succ_of_le inside)]
      exact rename_of_ne (apart count (Nat.le_succ count)) (apart (count + 1) (Nat.le_refl _))

/-- **The first name becomes free.** -/
theorem shift_zero (distinct : ∀ j ≤ count, ∀ k ≤ count, name j = name k → j = k)
    (free : files (name count) = none) : shift name count files (name 0) = none := by
  induction count generalizing files with
  | zero => exact free
  | succ count ih =>
      have apart : name count ≠ name (count + 1) := fun same =>
        absurd (distinct count (Nat.le_succ _) (count + 1) (Nat.le_refl _) same) (by omega)
      exact ih (fun j insideJ k insideK => distinct j (by omega) k (by omega))
        (rename_source_of_free free apart)

/-- **Every name gets what the one in front of it had.** -/
theorem shift_succ (distinct : ∀ j ≤ count, ∀ k ≤ count, name j = name k → j = k)
    (free : files (name count) = none) {k : Nat} (inside : k < count) :
    shift name count files (name (k + 1)) = files (name k) := by
  induction count generalizing files with
  | zero => exact absurd inside (Nat.not_lt_zero k)
  | succ count ih =>
      have apart : ∀ j < count + 1, name j ≠ name (count + 1) := fun j early same =>
        absurd (distinct j (by omega) (count + 1) (Nat.le_refl _) same) (by omega)
      rw [shift]
      by_cases last : k = count
      · -- The renamings that follow are among the names in front of this one.
        subst last
        rw [shift_of_ne fun j early => (apart j (by omega)).symm]
        exact rename_target_of_free (name k) free
      · have further := @ih (rename files (name count) (name (count + 1)))
          (fun j insideJ k insideK => distinct j (by omega) k (by omega))
          (rename_source_of_free free (apart count (Nat.lt_succ_self _))) (by omega)
        rw [further]
        refine rename_of_ne ?_ (apart k inside)
        exact fun same => last (distinct k (by omega) count (by omega) same)

end

end Foundation
