import Mathlib.Data.List.Infix

/-!
# Logs

A log is kept by appending entries.  A property that says of each entry that it was
allowed by the entries before it is checked entry by entry (`eachAllowed_snoc_iff`),
and once an entry was not allowed no later entry mends it (`EachAllowed.of_isPrefix`).
-/

set_option autoImplicit false

namespace Foundation

variable {Entry : Type*} {allowed : List Entry → Entry → Prop}

/-- Every entry of the log was allowed by the entries before it. -/
def EachAllowed (allowed : List Entry → Entry → Prop) (log : List Entry) : Prop :=
  ∀ before entry after, log = before ++ entry :: after → allowed before entry

theorem eachAllowed_nil : EachAllowed allowed [] := by
  intro before entry after split
  exact absurd split.symm (by simp)

/-- What a log satisfies, its beginning does. -/
theorem EachAllowed.of_isPrefix {log later : List Entry} (each : EachAllowed allowed later)
    (before : log <+: later) : EachAllowed allowed log := by
  obtain ⟨more, rfl⟩ := before
  intro first entry after split
  refine each first entry (after ++ more) ?_
  rw [split, List.append_assoc, List.cons_append]

/-- **An entry is added to a log.** -/
theorem eachAllowed_snoc_iff {log : List Entry} {entry : Entry} :
    EachAllowed allowed (log ++ [entry]) ↔ EachAllowed allowed log ∧ allowed log entry := by
  constructor
  · intro each
    exact ⟨each.of_isPrefix (List.prefix_append _ _), each log entry [] rfl⟩
  · rintro ⟨each, last⟩ before other after split
    rcases List.eq_nil_or_concat after with rfl | ⟨others, final, rfl⟩
    · obtain ⟨rfl, same⟩ := List.append_inj' split rfl
      rwa [← (List.cons.inj same).1]
    · rw [List.concat_eq_append, ← List.cons_append, ← List.append_assoc] at split
      exact each before other others (List.append_inj' split rfl).1

/-- Entries that are always allowed are added to a log. -/
theorem EachAllowed.append {log more : List Entry} (each : EachAllowed allowed log)
    (always : ∀ entry ∈ more, ∀ before, allowed before entry) :
    EachAllowed allowed (log ++ more) := by
  induction more generalizing log with
  | nil => rwa [List.append_nil]
  | cons entry more ih =>
      rw [List.append_cons]
      refine ih (eachAllowed_snoc_iff.mpr ⟨each, always entry (List.mem_cons_self ..) log⟩) ?_
      exact fun other member => always other (List.mem_cons_of_mem _ member)

end Foundation
