import Mathlib.Data.List.Nodup
import Mathlib.Logic.Function.Basic

/-!
# Dictionaries

What a sequence of changes leaves in a dictionary whose names are told apart by what
`norm` makes of them: a value for every normal form (`valuesAfter`), and the spellings of
the names in the order in which they came in (`spellingsAfter`).  Both are computed one
change after another.
-/

set_option autoImplicit false

namespace Foundation

variable {κ ν α : Type*} [DecidableEq ν] (norm : κ → ν)

inductive Change (κ α : Type*) where
  | set (name : κ) (value : α)
  | remove (name : κ)
  | clear

/-- The values after a change. -/
def Change.values : Change κ α → (ν → Option α) → ν → Option α
  | set name value, values => Function.update values (norm name) (some value)
  | remove name, values => Function.update values (norm name) none
  | clear, _ => fun _ => none

/-- A name that is there keeps its place and its spelling. -/
def Change.spellings : Change κ α → List κ → List κ
  | set name _, spellings =>
      if norm name ∈ spellings.map norm then spellings else spellings ++ [name]
  | remove name, spellings => spellings.filter fun spelling => norm spelling ≠ norm name
  | clear, _ => []

def valuesAfter (changes : List (Change κ α)) : ν → Option α :=
  changes.foldl (fun values change => change.values norm values) fun _ => none

def spellingsAfter (changes : List (Change κ α)) : List κ :=
  changes.foldl (fun spellings change => change.spellings norm spellings) []

variable {norm}

theorem valuesAfter_snoc (changes : List (Change κ α)) (change : Change κ α) :
    valuesAfter norm (changes ++ [change]) = change.values norm (valuesAfter norm changes) := by
  rw [valuesAfter, List.foldl_append]
  rfl

theorem spellingsAfter_snoc (changes : List (Change κ α)) (change : Change κ α) :
    spellingsAfter norm (changes ++ [change]) =
      change.spellings norm (spellingsAfter norm changes) := by
  rw [spellingsAfter, List.foldl_append]
  rfl

end Foundation
