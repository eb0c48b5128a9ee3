import Xul.Std.Strings

/-!
# Splitting strings

`strings::split` splits by a character or by a string, and `split_pair_of` splits off what stands
in front of one of several characters.

Joining the parts gives the string back, as long as the loop ends: an empty delimiter is found
where the search begins, and again behind it.  The two loops yield the same parts by a single
character, but for an empty string (`splitsBack_iff`).  What `split_pair_of` skips has the length
of its set of characters, which loses characters unless there is one in the set
(`splitsPairOf_iff`).
-/

set_option autoImplicit false

namespace Xul

open Foundation

/-- `strings::split` by one character, in parts of which there may be a number at most. -/
def splitChar (src : Bytes) (delimiter : UInt8) (maxSplit : Nat) : List Bytes :=
  if src = [] then [] else splitOfLoop [delimiter] maxSplit 1 [] src

theorem split_eq_splitChar (src : Bytes) (delimiter : UInt8) :
    split src delimiter = splitChar src delimiter 0 := rfl

/-- The loop of `split` by a string.  What is left of the string begins at `startPos`; there is no
answer while the loop has not ended. -/
def splitLoop (delimiter : Bytes) (maxSplit : Nat) : Nat → Nat → Bytes → Option (List Bytes)
  | 0, _, _ => none
  | turns + 1, splitedPartCount, src =>
      let splitedPartCount := splitedPartCount + 1
      if 0 < maxSplit ∧ maxSplit ≤ splitedPartCount then some [src]
      else
        match search src delimiter with
        | none => some [src]
        | some pos =>
            (splitLoop delimiter maxSplit turns splitedPartCount
              (src.drop (pos + delimiter.length))).map fun parts => src.take pos :: parts

/-- `strings::split` by a string ends with these parts. -/
def SplitsInto (src delimiter : Bytes) (maxSplit : Nat) (parts : List Bytes) : Prop :=
  ∃ turns, splitLoop delimiter maxSplit turns 0 src = some parts

/-- `strings::split_pair_of`.  There is no answer where its assertion fails, and `substr` throws. -/
def splitPairOf (src delimiter : Bytes) : Option (Bytes × Bytes) :=
  match src.findIdx? (· ∈ delimiter) with
  | none => some (src, [])
  | some pos =>
      if pos + delimiter.length ≤ src.length then
        some (src.take pos, src.drop (pos + delimiter.length))
      else none

/-! ## By a string -/

/-- The loop ends with parts of the string, not more of them than there may be. -/
structure SplitsBack (src delimiter : Bytes) (maxSplit : Nat) (parts : List Bytes) : Prop where
  returns : SplitsInto src delimiter maxSplit parts
  bounded : 0 < maxSplit → parts.length ≤ maxSplit
  joins : delimiter.intercalate parts = src
  agrees : ∀ c, delimiter = [c] → splitChar src c maxSplit = parts

section

variable {delimiter src : Bytes} {maxSplit turns splitedPartCount : Nat} {parts : List Bytes}

/-- A turn that ends splits nothing off, or what stands before the next delimiter. -/
theorem splitLoop_cases
    (done : splitLoop delimiter maxSplit (turns + 1) splitedPartCount src = some parts) :
    parts = [src] ∨
      ∃ pos rest, ¬ (0 < maxSplit ∧ maxSplit ≤ splitedPartCount + 1) ∧
        search src delimiter = some pos ∧
        splitLoop delimiter maxSplit turns (splitedPartCount + 1)
          (src.drop (pos + delimiter.length)) = some rest ∧
        parts = src.take pos :: rest := by
  rw [splitLoop] at done
  split at done
  · exact .inl (Option.some.inj done).symm
  · next goesOn =>
      split at done
      · exact .inl (Option.some.inj done).symm
      · next pos found =>
          obtain ⟨rest, isRest, rfl⟩ := Option.map_eq_some_iff.mp done
          exact .inr ⟨pos, rest, goesOn, found, isRest, rfl⟩

/-- The loop ends when it does behind a delimiter. -/
theorem exists_splitLoop_succ
    (behind : ∀ pos, ¬ (0 < maxSplit ∧ maxSplit ≤ splitedPartCount + 1) →
      search src delimiter = some pos →
      ∃ rest, splitLoop delimiter maxSplit turns (splitedPartCount + 1)
        (src.drop (pos + delimiter.length)) = some rest) :
    ∃ parts, splitLoop delimiter maxSplit (turns + 1) splitedPartCount src = some parts := by
  rw [splitLoop]
  split
  · exact ⟨_, rfl⟩
  · next goesOn =>
      split
      · exact ⟨_, rfl⟩
      · next pos found =>
          obtain ⟨rest, isRest⟩ := behind pos goesOn found
          exact ⟨_, by rw [isRest]; rfl⟩

/-- **The parts make up the string.** -/
theorem intercalate_of_splitLoop
    (done : splitLoop delimiter maxSplit turns splitedPartCount src = some parts) :
    parts ≠ [] ∧ delimiter.intercalate parts = src := by
  induction turns generalizing splitedPartCount src parts with
  | zero => cases done
  | succ turns ih =>
      obtain rfl | ⟨pos, rest, -, found, isRest, rfl⟩ := splitLoop_cases done
      · exact ⟨List.cons_ne_nil _ _, List.intercalate_singleton⟩
      · obtain ⟨nonempty, whole⟩ := ih isRest
        refine ⟨List.cons_ne_nil _ _, ?_⟩
        rw [List.intercalate_cons_of_ne_nil nonempty, whole, List.append_assoc]
        exact append_of_firstOccurrence found

theorem length_of_splitLoop
    (done : splitLoop delimiter maxSplit turns splitedPartCount src = some parts)
    (more : splitedPartCount < maxSplit) : splitedPartCount + parts.length ≤ maxSplit := by
  induction turns generalizing splitedPartCount src parts with
  | zero => cases done
  | succ turns ih =>
      obtain rfl | ⟨pos, rest, goesOn, -, isRest, rfl⟩ := splitLoop_cases done
      · exact more
      · have fewer := ih isRest (by omega)
        rw [List.length_cons]
        omega

/-- A delimiter that is not empty shortens the string in every turn. -/
theorem exists_splitLoop_of_nonempty (nonempty : delimiter ≠ []) (maxSplit splitedPartCount : Nat)
    (src : Bytes) :
    ∃ parts, splitLoop delimiter maxSplit (src.length + 1) splitedPartCount src = some parts := by
  have enough : ∀ turns splitedPartCount (src : Bytes), src.length < turns →
      ∃ parts, splitLoop delimiter maxSplit turns splitedPartCount src = some parts := by
    intro turns
    induction turns with
    | zero => exact fun _ _ none => absurd none (Nat.not_lt_zero _)
    | succ turns ih =>
        intro splitedPartCount src long
        apply exists_splitLoop_succ
        intro pos _ found
        have inside := (firstOccurrence_add_length_le found).resolve_right nonempty
        have positive := List.length_pos_of_ne_nil nonempty
        exact ih (splitedPartCount + 1) (src.drop (pos + delimiter.length))
          (by rw [List.length_drop]; omega)
  exact enough _ splitedPartCount src (Nat.lt_succ_self _)

/-- The number of parts ends the loop as well. -/
theorem exists_splitLoop_of_bound (delimiter src : Bytes)
    (enough : maxSplit ≤ splitedPartCount + turns) (positive : 0 < maxSplit)
    (begins : 0 < turns) :
    ∃ parts, splitLoop delimiter maxSplit turns splitedPartCount src = some parts := by
  induction turns generalizing splitedPartCount src with
  | zero => exact absurd begins (lt_irrefl 0)
  | succ turns ih =>
      apply exists_splitLoop_succ
      intro pos goesOn _
      exact @ih (splitedPartCount + 1) (src.drop (pos + delimiter.length)) (by omega) (by omega)

/-- An empty delimiter is found again and again. -/
theorem splitLoop_of_empty (turns splitedPartCount : Nat) (src : Bytes) :
    splitLoop [] 0 turns splitedPartCount src = none := by
  induction turns generalizing splitedPartCount src with
  | zero => rfl
  | succ turns ih =>
      have found : search src [] = some 0 :=
        firstOccurrence_eq_some_iff.mpr ⟨List.nil_prefix, nofun⟩
      rw [splitLoop, if_neg (fun bounded => absurd bounded.1 (lt_irrefl 0))]
      simp only [found, ih, Option.map_none]

/-- **By a single character, the loops yield the same parts.** -/
theorem splitLoop_singleton {c : UInt8}
    (done : splitLoop [c] maxSplit turns splitedPartCount src = some parts) :
    splitOfLoop [c] maxSplit (splitedPartCount + 1) [] src = parts := by
  induction turns generalizing splitedPartCount src parts with
  | zero => cases done
  | succ turns ih =>
      rw [splitLoop] at done
      split at done
      · next last =>
          obtain rfl := Option.some.inj done
          exact splitOfLoop_last last src
      · next more =>
          by_cases member : c ∈ src
          · obtain ⟨first, second, rfl, plain⟩ := List.eq_append_cons_of_mem member
            have word : ∀ x ∈ first, x ∉ [c] := fun x here isC =>
              plain (List.mem_singleton.mp isC ▸ here)
            have found : search (first ++ c :: second) [c] = some first.length :=
              firstOccurrence_singleton plain second
            simp only [found] at done
            obtain ⟨rest, isRest, rfl⟩ := Option.map_eq_some_iff.mp done
            have behind : (first ++ c :: second).drop (first.length + [c].length) = second := by
              rw [← List.drop_drop, List.drop_left]
              rfl
            rw [behind] at isRest
            rw [splitOfLoop_word word more (List.mem_singleton_self c), ih isRest, List.take_left]
          · have word : ∀ x ∈ src, x ∉ [c] := fun x here isC =>
              member (List.mem_singleton.mp isC ▸ here)
            have absent : search src [c] = none := firstOccurrence_singleton_eq_none member
            simp only [absent] at done
            obtain rfl := Option.some.inj done
            have whole := splitOfLoop_append word more [] []
            rw [List.append_nil] at whole
            exact whole

end

/-- **Splitting by a string** ends and gives the string back, unless the delimiter is empty and
there may be any number of parts.  By one character it does what splitting by the character does,
unless the string is empty. -/
theorem splitsBack_iff (src delimiter : Bytes) (maxSplit : Nat) :
    (∃ parts, SplitsBack src delimiter maxSplit parts) ↔
      (delimiter = [] → 0 < maxSplit) ∧ (src = [] → delimiter.length ≠ 1) := by
  constructor
  · rintro ⟨parts, back⟩
    obtain ⟨turns, done⟩ := back.returns
    constructor
    · rintro rfl
      by_contra unbounded
      obtain rfl := Nat.eq_zero_of_not_pos unbounded
      rw [splitLoop_of_empty] at done
      cases done
    · rintro rfl single
      obtain ⟨c, rfl⟩ := List.length_eq_one_iff.mp single
      exact (intercalate_of_splitLoop done).1 (back.agrees c rfl).symm
  · rintro ⟨ends, apart⟩
    have returns : ∃ turns parts, splitLoop delimiter maxSplit turns 0 src = some parts := by
      by_cases empty : delimiter = []
      · exact ⟨maxSplit, exists_splitLoop_of_bound delimiter src (Nat.le_add_left _ _) (ends empty)
          (ends empty)⟩
      · exact ⟨_, exists_splitLoop_of_nonempty empty maxSplit 0 src⟩
    obtain ⟨turns, parts, done⟩ := returns
    refine ⟨parts, ⟨turns, done⟩, ?_, (intercalate_of_splitLoop done).2, ?_⟩
    · intro positive
      have fewer := length_of_splitLoop done positive
      rwa [Nat.zero_add] at fewer
    · rintro c rfl
      rw [splitChar, if_neg fun empty => apart empty rfl]
      exact splitLoop_singleton done

/-- An empty delimiter without a bound, and an empty string that is split by a comma. -/
theorem not_splitsBack_empty :
    (¬ ∃ parts, SplitsBack (ascii "ab") [] 0 parts) ∧
      ¬ ∃ parts, SplitsBack [] (ascii ",") 0 parts := by
  constructor
  · rintro ⟨parts, back⟩
    obtain ⟨turns, done⟩ := back.returns
    rw [splitLoop_of_empty] at done
    cases done
  · rintro ⟨parts, back⟩
    obtain ⟨turns, done⟩ := back.returns
    exact (intercalate_of_splitLoop done).1 (back.agrees 44 rfl).symm

/-! ## By one of several characters -/

/-- What stands in front of the first delimiter is split off, with that delimiter only, as
`split_of` does with two parts. -/
structure SplitsPairOf (src delimiter : Bytes) : Prop where
  found : ∀ first c second, src = first ++ c :: second → c ∈ delimiter →
    (∀ x ∈ first, x ∉ delimiter) → splitPairOf src delimiter = some (first, second)
  absent : (∀ c ∈ src, c ∉ delimiter) → splitPairOf src delimiter = some (src, [])
  agrees : ∃ first second, splitPairOf src delimiter = some (first, second) ∧
    (splitOf src delimiter 2 = [first, second] ∨
      splitOf src delimiter 2 = [first] ∧ second = [])

section

variable {src delimiter : Bytes}

theorem splitPairOf_of_absent (absent : ∀ c ∈ src, c ∉ delimiter) :
    splitPairOf src delimiter = some (src, []) := by
  have nowhere : src.findIdx? (· ∈ delimiter) = none := by
    rw [List.findIdx?_eq_none_iff]
    exact fun c member => decide_eq_false (absent c member)
  rw [splitPairOf, nowhere]

/-- As much is skipped as the set has characters. -/
theorem splitPairOf_append_cons {first : Bytes} (plain : ∀ x ∈ first, x ∉ delimiter) {c : UInt8}
    (hit : c ∈ delimiter) (second : Bytes) :
    splitPairOf (first ++ c :: second) delimiter =
      if delimiter.length ≤ second.length + 1 then
        some (first, second.drop (delimiter.length - 1))
      else none := by
  have position : (first ++ c :: second).findIdx? (· ∈ delimiter) = some first.length := by
    rw [List.findIdx?_append, List.findIdx?_eq_none_iff.mpr fun x member =>
      decide_eq_false (plain x member), List.findIdx?_cons, if_pos (decide_eq_true hit)]
    simp
  have positive := List.length_pos_of_mem hit
  obtain ⟨width, size⟩ : ∃ width, delimiter.length = width + 1 :=
    ⟨delimiter.length - 1, by omega⟩
  have behind : (first ++ c :: second).drop (first.length + (width + 1)) = second.drop width := by
    rw [← List.drop_drop, List.drop_left, List.drop_succ_cons]
  rw [splitPairOf, position]
  simp only [size, List.length_append, List.length_cons, Nat.add_le_add_iff_left, List.take_left,
    behind, Nat.add_sub_cancel]

theorem splitOf_two {first : Bytes} (plain : ∀ x ∈ first, x ∉ delimiter) {c : UInt8}
    (hit : c ∈ delimiter) (second : Bytes) :
    splitOf (first ++ c :: second) delimiter 2 = [first, second] := by
  rw [splitOf, splitOfLoop_word plain (by decide) hit,
    splitOfLoop_last ⟨Nat.succ_pos 1, le_rfl⟩]

/-- The first of the delimiters in a string. -/
theorem exists_first_delimiter (some : ¬ ∀ c ∈ src, c ∉ delimiter) :
    ∃ first c second, src = first ++ c :: second ∧ c ∈ delimiter ∧ ∀ x ∈ first, x ∉ delimiter := by
  induction src with
  | nil => exact absurd (List.forall_mem_nil _) some
  | cons c src ih =>
      by_cases hit : c ∈ delimiter
      · exact ⟨[], c, src, rfl, hit, List.forall_mem_nil _⟩
      · rw [List.forall_mem_cons, not_and] at some
        obtain ⟨first, next, second, rfl, isHit, plain⟩ := ih (some hit)
        exact ⟨c :: first, next, second, rfl, isHit, List.forall_mem_cons.mpr ⟨hit, plain⟩⟩

/-- **Splitting a pair off** loses nothing if there is one character in the set, or none of them in
the string. -/
theorem splitsPairOf_iff (src delimiter : Bytes) :
    SplitsPairOf src delimiter ↔ delimiter.length = 1 ∨ ∀ c ∈ src, c ∉ delimiter := by
  by_cases absent : ∀ c ∈ src, c ∉ delimiter
  · refine iff_of_true ⟨?_, fun _ => splitPairOf_of_absent absent, ?_⟩ (.inr absent)
    · rintro first c second rfl hit -
      exact absurd hit (absent c (List.mem_append_right _ List.mem_cons_self))
    · have whole := @splitOfLoop_append delimiter src 2 1 absent (by decide) [] []
      rw [List.append_nil] at whole
      exact ⟨src, [], splitPairOf_of_absent absent, .inr ⟨whole, rfl⟩⟩
  · rw [or_iff_left absent]
    constructor
    · intro pairs
      obtain ⟨first, c, second, rfl, hit, plain⟩ := exists_first_delimiter absent
      have result := pairs.found first c second rfl hit plain
      have positive := List.length_pos_of_mem hit
      rw [splitPairOf_append_cons plain hit, Option.ite_none_right_eq_some] at result
      have kept := congrArg List.length (Prod.mk.inj (Option.some.inj result.2)).2
      rw [List.length_drop] at kept
      omega
    · intro single
      have splits : ∀ first c second, src = first ++ c :: second → c ∈ delimiter →
          (∀ x ∈ first, x ∉ delimiter) → splitPairOf src delimiter = some (first, second) := by
        rintro first c second rfl hit plain
        rw [splitPairOf_append_cons plain hit, single, if_pos (Nat.le_add_left 1 _)]
        rfl
      refine ⟨splits, fun none => absurd none absent, ?_⟩
      obtain ⟨first, c, second, parted, hit, plain⟩ := exists_first_delimiter absent
      refine ⟨first, second, splits first c second parted hit plain, .inl ?_⟩
      rw [parted]
      exact splitOf_two plain hit second

/-- A set of two characters, which skips the value behind the first of them. -/
theorem not_splitsPairOf_two : ¬ SplitsPairOf (ascii "a=b") (ascii "=:") := by
  intro pairs
  have result := pairs.found (ascii "a") 61 (ascii "b") (by decide) (by decide)
    (by decide)
  exact absurd result (by decide)

end

end Xul
