import Mathlib.Data.List.Basic
import Mathlib.Data.List.Infix
import Mathlib.Data.Nat.Find

/-!
# The first occurrence of a pattern

A search returns the offset of the first occurrence of a pattern in a text, or
nothing.  The offset is determined by the text it was found in, and a longer
text with the same beginning has the same first occurrence: a search that has
succeeded does not depend on what comes later (`firstOccurrence_append`), and a
search of a prefix fails exactly when the prefix ends before the occurrence does
(`firstOccurrence_of_append`, `firstOccurrence_eq_none_of_append`).  These three
facts are what makes a search over a buffer that grows piece by piece
independent of the pieces.
-/

set_option autoImplicit false

namespace Foundation

variable {α : Type*}

/-! ## Where a pattern stands -/

/-- A prefix of a suffix of a text stands there in every longer text. -/
theorem isPrefix_drop_append {pattern text : List α} {offset : Nat}
    (standing : pattern <+: text.drop offset) (nonempty : pattern ≠ []) (more : List α) :
    pattern <+: (text ++ more).drop offset := by
  have bounded : offset ≤ text.length := by
    by_contra beyond
    rw [List.drop_eq_nil_of_le (by omega)] at standing
    exact nonempty (List.prefix_nil.mp standing)
  rw [List.drop_append_of_le_length bounded]
  exact standing.trans (List.prefix_append _ _)

/-- An occurrence that ends inside a text does not need what follows the text. -/
theorem isPrefix_drop_of_append {pattern text more : List α} {offset : Nat}
    (standing : pattern <+: (text ++ more).drop offset)
    (inside : offset + pattern.length ≤ text.length) : pattern <+: text.drop offset := by
  rw [List.drop_append_of_le_length (by omega)] at standing
  exact List.prefix_of_prefix_length_le standing (List.prefix_append _ _)
    (by rw [List.length_drop]; omega)

variable [BEq α]

/-- The offset of the first occurrence of `pattern` in `text`. -/
def firstOccurrence (pattern text : List α) : Option Nat :=
  (text.dropInfix? pattern).map fun parts => parts.1.length

variable [LawfulBEq α]

/-! ## What a search finds -/

/-- **A search finds the least offset at which the pattern stands.** -/
theorem firstOccurrence_eq_some_iff {pattern text : List α} {offset : Nat} :
    firstOccurrence pattern text = some offset ↔
      pattern <+: text.drop offset ∧ ∀ earlier < offset, ¬ pattern <+: text.drop earlier := by
  simp only [firstOccurrence, Option.map_eq_some_iff, Prod.exists, List.dropInfix?_eq_some_iff,
    beq_iff_eq, ge_iff_le]
  constructor
  · rintro ⟨before, after, ⟨⟨found, split, rfl⟩, least⟩, rfl⟩
    refine ⟨⟨after, by simp [split]⟩, ?_⟩
    rintro earlier smaller ⟨rest, at_earlier⟩
    have bounded : earlier ≤ text.length := by
      have := congrArg List.length split
      simp only [List.length_append] at this
      omega
    have := least (text.take earlier) found rest
      (by rw [List.append_assoc, at_earlier, List.take_append_drop]) rfl
    rw [List.length_take] at this
    omega
  · rintro ⟨⟨after, at_offset⟩, least⟩
    have bounded : offset ≤ text.length := by
      by_contra beyond
      have empty : text.drop offset = [] := List.drop_eq_nil_of_le (by omega)
      rw [empty, List.append_eq_nil_iff] at at_offset
      exact least text.length (by omega) (by simp [at_offset.1])
    refine ⟨text.take offset, after, ⟨⟨pattern, ?_, rfl⟩, ?_⟩, ?_⟩
    · rw [List.append_assoc, at_offset, List.take_append_drop]
    · intro before found rest split same
      subst same
      by_contra shorter
      rw [List.length_take] at shorter
      exact least before.length (by omega) ⟨rest, by simp [split]⟩
    · simp [bounded]

/-- A search fails exactly when the pattern stands at no offset. -/
theorem firstOccurrence_eq_none_iff {pattern text : List α} :
    firstOccurrence pattern text = none ↔ ∀ offset, ¬ pattern <+: text.drop offset := by
  constructor
  · intro absent offset standing
    classical
    have somewhere : ∃ position, pattern <+: text.drop position := ⟨offset, standing⟩
    have found := firstOccurrence_eq_some_iff.2
      ⟨Nat.find_spec somewhere, fun earlier smaller => Nat.find_min somewhere smaller⟩
    rw [found] at absent
    cases absent
  · intro nowhere
    cases found : firstOccurrence pattern text with
    | none => rfl
    | some offset => exact absurd (firstOccurrence_eq_some_iff.1 found).1 (nowhere offset)

/-- The pattern lies inside the text. -/
theorem firstOccurrence_add_length_le {pattern text : List α} {offset : Nat}
    (found : firstOccurrence pattern text = some offset) :
    offset + pattern.length ≤ text.length ∨ pattern = [] := by
  obtain ⟨after, at_offset⟩ := (firstOccurrence_eq_some_iff.1 found).1
  have lengths := congrArg List.length at_offset
  rw [List.length_append, List.length_drop] at lengths
  rcases pattern with _ | ⟨head, tail⟩
  · exact Or.inr rfl
  · left
    simp only [List.length_cons] at lengths ⊢
    omega

/-- What is found parts the text. -/
theorem append_of_firstOccurrence {pattern text : List α} {offset : Nat}
    (found : firstOccurrence pattern text = some offset) :
    text.take offset ++ (pattern ++ text.drop (offset + pattern.length)) = text := by
  obtain ⟨after, standing⟩ := (firstOccurrence_eq_some_iff.1 found).1
  have rest : text.drop (offset + pattern.length) = after := by
    rw [← List.drop_drop, ← standing, List.drop_left]
  rw [rest, standing, List.take_append_drop]

/-- An element is found where it is first. -/
theorem firstOccurrence_singleton {element : α} {first : List α} (plain : element ∉ first)
    (second : List α) :
    firstOccurrence [element] (first ++ element :: second) = some first.length := by
  refine firstOccurrence_eq_some_iff.2 ⟨?_, ?_⟩
  · rw [List.drop_left]
    exact ⟨second, rfl⟩
  · intro earlier smaller stands
    rw [List.drop_append_of_le_length smaller.le, List.drop_eq_getElem_cons smaller,
      List.cons_append, List.cons_prefix_cons] at stands
    exact plain (stands.1 ▸ List.getElem_mem smaller)

theorem firstOccurrence_singleton_eq_none {element : α} {text : List α} (absent : element ∉ text) :
    firstOccurrence [element] text = none := by
  refine firstOccurrence_eq_none_iff.2 ?_
  rintro offset ⟨rest, standing⟩
  have member : element ∈ text.drop offset := by
    rw [← standing]
    exact List.mem_cons_self
  exact absent (List.mem_of_mem_drop member)

/-! ## Searching a growing text -/

/-- **A search that has succeeded does not depend on what comes later.** -/
theorem firstOccurrence_append {pattern text : List α} {offset : Nat}
    (nonempty : pattern ≠ []) (found : firstOccurrence pattern text = some offset)
    (more : List α) : firstOccurrence pattern (text ++ more) = some offset := by
  have inside := (firstOccurrence_add_length_le found).resolve_right nonempty
  obtain ⟨standing, least⟩ := firstOccurrence_eq_some_iff.1 found
  refine firstOccurrence_eq_some_iff.2 ⟨isPrefix_drop_append standing nonempty more, ?_⟩
  intro earlier smaller stands
  exact least earlier smaller (isPrefix_drop_of_append stands (by omega))

/-- A prefix that contains the whole occurrence has it at the same offset. -/
theorem firstOccurrence_of_append {pattern text more : List α} {offset : Nat}
    (found : firstOccurrence pattern (text ++ more) = some offset)
    (inside : offset + pattern.length ≤ text.length) :
    firstOccurrence pattern text = some offset := by
  obtain ⟨standing, least⟩ := firstOccurrence_eq_some_iff.1 found
  refine firstOccurrence_eq_some_iff.2 ⟨isPrefix_drop_of_append standing inside, ?_⟩
  intro earlier smaller stands
  refine least earlier smaller ?_
  rw [List.drop_append_of_le_length (by omega)]
  exact stands.trans (List.prefix_append _ _)

/-- A prefix that ends before the occurrence does has no occurrence. -/
theorem firstOccurrence_eq_none_of_append {pattern text more : List α} {offset : Nat}
    (found : firstOccurrence pattern (text ++ more) = some offset)
    (short : text.length < offset + pattern.length) : firstOccurrence pattern text = none := by
  cases earlier : firstOccurrence pattern text with
  | none => rfl
  | some position =>
      exfalso
      by_cases empty : pattern = []
      · subst empty
        have least := (firstOccurrence_eq_some_iff.1 found).2
        by_cases zero : offset = 0
        · simp [zero] at short
        · exact least 0 (by omega) (List.nil_prefix)
      · have same := firstOccurrence_append empty earlier more
        rw [found, Option.some.injEq] at same
        have inside := (firstOccurrence_add_length_le earlier).resolve_right empty
        omega

/-- A search skips a beginning in which the pattern cannot stand. -/
theorem firstOccurrence_append_left {pattern skipped text : List α} {offset : Nat}
    (found : firstOccurrence pattern text = some offset)
    (absent : ∀ earlier < skipped.length, ¬ pattern <+: (skipped ++ text).drop earlier) :
    firstOccurrence pattern (skipped ++ text) = some (skipped.length + offset) := by
  obtain ⟨standing, least⟩ := firstOccurrence_eq_some_iff.1 found
  refine firstOccurrence_eq_some_iff.2 ⟨?_, ?_⟩
  · rwa [List.drop_length_add_append]
  · intro earlier smaller stands
    by_cases inside : earlier < skipped.length
    · exact absent earlier inside stands
    · obtain ⟨gap, rfl⟩ : ∃ gap, earlier = skipped.length + gap :=
        ⟨earlier - skipped.length, by omega⟩
      rw [List.drop_length_add_append] at stands
      exact least gap (by omega) stands

end Foundation
