import Xul.Std.Bytes
import Mathlib.Data.List.Infix

/-!
# POSIX paths

`paths::split` and `paths::join` take a path apart at its separators and put it together again.
The first part keeps its separator, so that an absolute path stays one; the others are without
theirs, and the joiner writes a separator in front of a part unless the last one ends with it.

The position behind a separator is kept in an `int`.  Behind 2 GiB it is not the position any more,
and the path does not come back (`splitsAtSeparators_iff`).
-/

set_option autoImplicit false

namespace Xul

namespace Paths

def separator : UInt8 := 47

/-! ## Separators at the end -/

def hasTrailingSeparator (path : Bytes) : Bool := path.getLast? == some separator

def addTrailingSeparator (path : Bytes) : Bytes :=
  if hasTrailingSeparator path then path else path ++ [separator]

/-- `remove_trailing_separator`, which has no result where its assertion fails. -/
def removeTrailingSeparator (path : Bytes) : Option Bytes :=
  if hasTrailingSeparator path = false then some path
  else if path.length = 1 then some path
  else
    let res := path.take (path.length - 1)
    if hasTrailingSeparator res then none else some res

/-! ## Joining -/

def join (dir filename : Bytes) : Bytes :=
  if dir = [] then filename else addTrailingSeparator dir ++ filename

def joinLoop : Bool → List Bytes → Bytes
  | _, [] => []
  | lastPartHasTrailingSep, part :: parts =>
      (if lastPartHasTrailingSep then [] else [separator]) ++ part ++
        joinLoop (hasTrailingSeparator part) parts

/-- `join` of any number of parts. -/
def joinParts (parts : List Bytes) : Bytes := joinLoop true parts

/-! ## Splitting -/

/-- `substr` from a position held in an `int`.  A negative one is converted to a size beyond every
string, and `substr` throws. -/
def substr (s : Bytes) (position : Int) (count : Nat) : Option Bytes :=
  if 0 ≤ position ∧ position ≤ s.length then some ((s.drop position.toNat).take count) else none

/-- The part that ends at the separator at `pos`.  The first one keeps it. -/
def partBefore (path : Bytes) (startPos : Int) (pos : Nat) : Option Bytes :=
  if startPos = 0 then substr path startPos (pos + 1 - startPos).toNat
  else substr path startPos (pos - startPos).toNat

/-- The loop of `split`, with what is left of the path from `pos` on. -/
def splitLoop (path : Bytes) (ignoreEmpty : Bool) : Bytes → Nat → Int → Option (List Bytes)
  | [], _, startPos => (substr path startPos path.length).map fun part => [part]
  | c :: rest, pos, startPos =>
      if c = separator then do
        let part ← partBefore path startPos pos
        let parts ← splitLoop path ignoreEmpty rest (pos + 1) (toInt (pos + 1))
        if ignoreEmpty = false ∨ part ≠ [] then some (part :: parts) else some parts
      else splitLoop path ignoreEmpty rest (pos + 1) startPos

def split (path : Bytes) (ignoreEmpty : Bool) : Option (List Bytes) :=
  splitLoop path ignoreEmpty path 0 0

/-- The parts of a path make it up, and the separators stand between them or end the first. -/
def SplitsAtSeparators (path : Bytes) : Prop :=
  ∃ parts, split path false = some parts ∧ joinParts parts = path ∧
    ∀ part ∈ parts.tail, separator ∉ part

section

variable {path : Bytes}

theorem hasTrailingSeparator_concat (front : Bytes) :
    hasTrailingSeparator (front ++ [separator]) = true := by
  rw [hasTrailingSeparator, List.getLast?_concat, beq_self_eq_true]

theorem hasTrailingSeparator_of_plain (plain : separator ∉ path) :
    hasTrailingSeparator path = false := by
  refine beq_eq_false_iff_ne.mpr fun last => plain ?_
  exact List.mem_of_getLast? last

/-- Parts without separators are joined by one between two of them. -/
theorem joinParts_of_plain {parts : List Bytes} (plain : ∀ part ∈ parts, separator ∉ part) :
    joinParts parts = [separator].intercalate parts := by
  have behind : ∀ (parts : List Bytes), parts ≠ [] → (∀ part ∈ parts, separator ∉ part) →
      joinLoop false parts = separator :: [separator].intercalate parts := by
    intro parts
    induction parts with
    | nil => exact fun nonempty => absurd rfl nonempty
    | cons part rest ih =>
        intro _ plain
        obtain ⟨first, others⟩ := List.forall_mem_cons.mp plain
        rw [joinLoop, hasTrailingSeparator_of_plain first]
        by_cases last : rest = []
        · subst last
          simp [joinLoop]
        · rw [ih last others, List.intercalate_cons_of_ne_nil last]
          simp
  cases parts with
  | nil => rfl
  | cons part rest =>
      obtain ⟨first, others⟩ := List.forall_mem_cons.mp plain
      rw [joinParts, joinLoop, hasTrailingSeparator_of_plain first]
      by_cases last : rest = []
      · subst last
        simp [joinLoop]
      · rw [behind rest last others, List.intercalate_cons_of_ne_nil last]
        simp

/-! ### What is between two positions -/

theorem substr_append (before piece rest : Bytes) :
    substr (before ++ (piece ++ rest)) before.length piece.length = some piece := by
  have inside : (0 : Int) ≤ before.length ∧
      (before.length : Int) ≤ (before ++ (piece ++ rest)).length := by
    rw [List.length_append]
    omega
  rw [substr, if_pos inside, Int.toNat_natCast, List.drop_left, List.take_left]

theorem substr_rest (before piece : Bytes) :
    substr (before ++ piece) before.length (before ++ piece).length = some piece := by
  have inside : (0 : Int) ≤ before.length ∧ (before.length : Int) ≤ (before ++ piece).length := by
    rw [List.length_append]
    omega
  rw [substr, if_pos inside, Int.toNat_natCast, List.drop_left, List.take_of_length_le]
  rw [List.length_append]
  exact Nat.le_add_left _ _

/-- A part that begins in front of a separator and ends behind it contains it. -/
theorem separator_mem_of_substr {front back part : Bytes} {startPos : Int} {count : Nat}
    (before : startPos ≤ front.length) (behind : front.length < startPos + count)
    (result : substr (front ++ separator :: back) startPos count = some part) :
    separator ∈ part := by
  rw [substr, Option.ite_none_right_eq_some] at result
  obtain ⟨⟨low, -⟩, isPart⟩ := result
  obtain ⟨start, rfl⟩ := Int.eq_ofNat_of_zero_le low
  obtain rfl := Option.some.inj isPart
  rw [Int.toNat_natCast, List.drop_append_of_le_length (by omega)]
  obtain ⟨more, size⟩ : ∃ more, count = (front.drop start).length + (more + 1) :=
    ⟨count - (front.drop start).length - 1, by rw [List.length_drop]; omega⟩
  rw [size, List.take_length_add_append, List.take_succ_cons]
  exact List.mem_append_right _ List.mem_cons_self

/-! ### While the positions are kept -/

/-- Every separator stands where the position behind it is an `int`. -/
def Early (path : Bytes) : Prop :=
  ∀ front back, path = front ++ separator :: back → front.length + 1 < 2 ^ 31

/-- Behind the first separator, the parts are those between the separators. -/
theorem exists_splitLoop_of_early (early : Early path) {before piece rest : Bytes}
    (whole : path = before ++ (piece ++ rest)) (started : before ≠ [])
    (plain : separator ∉ piece) :
    ∃ parts, splitLoop path false rest (before.length + piece.length) before.length = some parts ∧
      parts ≠ [] ∧ (∀ part ∈ parts, separator ∉ part) ∧
      [separator].intercalate parts = piece ++ rest := by
  induction rest generalizing before piece with
  | nil =>
      rw [List.append_nil] at whole
      subst whole
      rw [splitLoop, substr_rest]
      exact ⟨[piece], rfl, List.cons_ne_nil _ _, List.forall_mem_singleton.mpr plain, by simp⟩
  | cons c rest ih =>
      rw [splitLoop]
      by_cases isSeparator : c = separator
      · subst isSeparator
        have small := early (before ++ piece) rest (by rw [whole, List.append_assoc])
        rw [List.length_append] at small
        have behind : (before ++ piece ++ [separator]).length =
            before.length + piece.length + 1 := by
          rw [List.length_append, List.length_append, List.length_singleton]
        have kept : toInt ((before.length + piece.length : Nat) + 1) =
            (before ++ piece ++ [separator]).length := by
          rw [behind, ← toInt_natCast small]
          rfl
        obtain ⟨parts, split, nonempty, others, joined⟩ :=
          @ih (before ++ piece ++ [separator]) [] (by simp [whole])
            (List.append_ne_nil_of_right_ne_nil _ (List.cons_ne_nil _ _)) List.not_mem_nil
        rw [List.length_nil, Nat.add_zero] at split
        have notFirst : (before.length : Int) ≠ 0 := by
          have := List.length_pos_of_ne_nil started
          omega
        have part : partBefore path before.length (before.length + piece.length) = some piece := by
          have count : ((before.length + piece.length : Nat) - (before.length : Int)).toNat =
              piece.length := by omega
          rw [partBefore, if_neg notFirst, count, whole]
          exact substr_append before piece _
        rw [if_pos rfl, part, kept, ← behind, split]
        refine ⟨piece :: parts, by simp, List.cons_ne_nil _ _, ?_, ?_⟩
        · exact List.forall_mem_cons.mpr ⟨plain, others⟩
        · rw [List.intercalate_cons_of_ne_nil nonempty, joined]
          simp
      · rw [if_neg isSeparator]
        have further := @ih before (piece ++ [c]) (by simp [whole]) started
          (by simp [plain, Ne.symm isSeparator])
        simpa [Nat.add_assoc] using further

/-- The first part, up to and with its separator. -/
theorem splitsAtSeparators_of_early (early : Early path) : SplitsAtSeparators path := by
  have enough : ∀ piece rest, path = piece ++ rest → separator ∉ piece →
      ∃ parts, splitLoop path false rest piece.length 0 = some parts ∧ joinParts parts = path ∧
        ∀ part ∈ parts.tail, separator ∉ part := by
    intro piece rest
    induction rest generalizing piece with
    | nil =>
        intro whole plain
        rw [List.append_nil] at whole
        subst whole
        have part := substr_rest [] path
        rw [List.nil_append, List.length_nil] at part
        rw [splitLoop, show (0 : Int) = (0 : Nat) from rfl, part]
        exact ⟨[path], rfl, by simp [joinParts, joinLoop], List.forall_mem_nil _⟩
    | cons c rest ih =>
        intro whole plain
        rw [splitLoop]
        by_cases isSeparator : c = separator
        · subst isSeparator
          have small := early piece rest whole
          have behind : (piece ++ [separator]).length = piece.length + 1 := by simp
          have kept : toInt ((piece.length : Nat) + 1) = (piece ++ [separator]).length := by
            rw [behind, ← toInt_natCast small]
            rfl
          obtain ⟨parts, split, nonempty, others, joined⟩ :=
            @exists_splitLoop_of_early path early (piece ++ [separator]) [] rest
              (by simp [whole])
              (List.append_ne_nil_of_right_ne_nil _ (List.cons_ne_nil _ _)) List.not_mem_nil
          rw [List.length_nil, Nat.add_zero] at split
          have part : partBefore path 0 piece.length = some (piece ++ [separator]) := by
            have count : ((piece.length : Int) + 1 - 0).toNat = (piece ++ [separator]).length := by
              omega
            have first := substr_append [] (piece ++ [separator]) rest
            rw [List.nil_append, List.append_assoc, List.singleton_append, ← whole] at first
            rw [partBefore, if_pos rfl, count]
            exact first
          rw [if_pos rfl, part, kept, ← behind, split]
          refine ⟨(piece ++ [separator]) :: parts, by simp, ?_, others⟩
          rw [joinParts, joinLoop, hasTrailingSeparator_concat]
          change _ ++ joinParts parts = path
          rw [joinParts_of_plain others, joined]
          simp [whole]
        · rw [if_neg isSeparator]
          have further := ih (piece ++ [c]) (by simp [whole])
            (by simp [plain, Ne.symm isSeparator])
          rwa [List.length_append] at further
  exact enough [] path rfl List.not_mem_nil

/-! ### Behind a position that is not kept -/

/-- A part that begins too early contains the separator that it should begin behind. -/
theorem separator_mem_head_of_splitLoop {front back rest : Bytes} {parts : List Bytes}
    {startPos : Int} {pos : Nat} (early : startPos ≤ front.length) (passed : front.length < pos)
    (result : splitLoop (front ++ separator :: back) false rest pos startPos = some parts) :
    ∃ part others, parts = part :: others ∧ separator ∈ part := by
  induction rest generalizing pos parts with
  | nil =>
      rw [splitLoop] at result
      obtain ⟨part, isPart, rfl⟩ := Option.map_eq_some_iff.mp result
      refine ⟨part, [], rfl, separator_mem_of_substr early ?_ isPart⟩
      have low : 0 ≤ startPos := by
        by_contra negative
        rw [substr, if_neg fun inside => negative inside.1] at isPart
        cases isPart
      rw [List.length_append, List.length_cons]
      omega
  | cons c rest ih =>
      rw [splitLoop] at result
      split at result
      · obtain ⟨part, isPart, result⟩ := Option.bind_eq_some_iff.mp result
        obtain ⟨others, -, result⟩ := Option.bind_eq_some_iff.mp result
        rw [if_pos (.inl rfl)] at result
        refine ⟨part, others, (Option.some.inj result).symm, ?_⟩
        rw [partBefore] at isPart
        split at isPart
        · exact separator_mem_of_substr early (by omega) isPart
        · exact separator_mem_of_substr early (by omega) isPart
      · exact ih (by omega) result

/-- **A separator at a position that is not kept ends up in a later part.** -/
theorem separator_mem_tail_of_splitLoop {front back rest : Bytes} {parts : List Bytes}
    {startPos : Int} {pos : Nat} (late : 2 ^ 31 ≤ front.length + 1)
    (left : rest = front.drop pos ++ separator :: back) (inside : pos ≤ front.length)
    (result : splitLoop (front ++ separator :: back) false rest pos startPos = some parts) :
    ∃ part ∈ parts.tail, separator ∈ part := by
  induction rest generalizing pos startPos parts with
  | nil => exact absurd left.symm (List.append_ne_nil_of_right_ne_nil _ (List.cons_ne_nil _ _))
  | cons c rest ih =>
      rw [splitLoop] at result
      by_cases last : pos = front.length
      · subst last
        rw [List.drop_length, List.nil_append, List.cons.injEq] at left
        rw [if_pos left.1] at result
        obtain ⟨part, -, result⟩ := Option.bind_eq_some_iff.mp result
        obtain ⟨others, isOthers, result⟩ := Option.bind_eq_some_iff.mp result
        rw [if_pos (.inl rfl)] at result
        obtain rfl := Option.some.inj result
        have wrapped := toInt_lt (front.length + 1)
        obtain ⟨next, more, rfl, member⟩ :=
          separator_mem_head_of_splitLoop (by omega) (Nat.lt_succ_self _) isOthers
        exact ⟨next, List.mem_cons_self, member⟩
      · have further : rest = front.drop (pos + 1) ++ separator :: back := by
          rw [List.drop_eq_getElem_cons (by omega), List.cons_append, List.cons.injEq] at left
          exact left.2
        split at result
        · obtain ⟨part, -, result⟩ := Option.bind_eq_some_iff.mp result
          obtain ⟨others, isOthers, result⟩ := Option.bind_eq_some_iff.mp result
          rw [if_pos (.inl rfl)] at result
          obtain rfl := Option.some.inj result
          obtain ⟨next, member, isIn⟩ := ih further (by omega) isOthers
          exact ⟨next, List.mem_of_mem_tail member, isIn⟩
        · exact ih further (by omega) result

theorem not_splitsAtSeparators_of_late {front : Bytes} (late : 2 ^ 31 ≤ front.length + 1)
    (back : Bytes) : ¬ SplitsAtSeparators (front ++ separator :: back) := by
  rintro ⟨parts, result, -, plain⟩
  obtain ⟨part, member, isIn⟩ := separator_mem_tail_of_splitLoop late rfl (Nat.zero_le _) result
  exact plain part member isIn

end

/-- **Splitting a path** and joining the parts gives it back as long as the position behind every
separator is an `int`. -/
theorem splitsAtSeparators_iff (path : Bytes) :
    SplitsAtSeparators path ↔
      ∀ front back, path = front ++ separator :: back → front.length + 1 < 2 ^ 31 := by
  constructor
  · rintro splits front back rfl
    by_contra late
    exact not_splitsAtSeparators_of_late (not_lt.mp late) back splits
  · exact splitsAtSeparators_of_early

/-- A separator behind one character less than 2 GiB. -/
theorem not_splitsAtSeparators_large :
    ¬ SplitsAtSeparators (List.replicate (2 ^ 31 - 1) 97 ++ [separator]) :=
  not_splitsAtSeparators_of_late (by rw [List.length_replicate]; decide) []

end Paths

end Xul
