import Xul.Os.PathParts
import Xul.Os.RemoveAll

/-!
# Creating a directory with its ancestors

`file_system::create_directories` calls itself for the directory of a path, as `get_directory` has
it, and makes the path then.  The splitter keeps its position in an `int`.  In a path of more than
2 GiB it may begin in front of the path, which is read outside its bounds then; where it begins
inside, it may miss the last separators and give an ancestor further up, and what is missing below
that is not made.  In either case nothing but ancestors of the path is made, and what is returned
says whether the path is a directory (`createsDirectories_iff`).
-/

set_option autoImplicit false

namespace Xul

namespace FileSystem

/-! ## The code, with its assertions off -/

namespace Release

def removeTrailingSeparator (path : Bytes) : Bytes :=
  if Paths.hasTrailingSeparator path = false then path
  else if path.length = 1 then path
  else path.take (path.length - 1)

def getDirectory (path : Bytes) : Option Bytes :=
  (Paths.splitFilename path).map fun res => removeTrailingSeparator res.1

section

variable (env : Environment)

def directoryExists (tree : FileTree) (path : Bytes) : Bool :=
  if Paths.hasTrailingSeparator path then
    let newPath := removeTrailingSeparator path
    newPath = [] ∨ status env tree newPath = some .directory
  else status env tree path = some .directory

/-- `do_create_directories`.  There is no answer while it has not returned, and where the splitter
reads outside the path. -/
def doCreateDirectories : Nat → Bytes → FileTree → Option (Bool × FileTree)
  | 0, _, _ => none
  | turns + 1, dir, tree =>
      if directoryExists env tree (cStr dir) then some (true, tree)
      else
        (getDirectory dir).bind fun parentdir =>
          if parentdir = [] then some (makeDirectory env tree (cStr dir))
          else
            (doCreateDirectories turns parentdir tree).map fun made =>
              if made.1 = false then (false, made.2) else makeDirectory env made.2 (cStr dir)

/-- `create_directories`, of a path that is not null. -/
def createDirectories (turns : Nat) (path : Bytes) (tree : FileTree) : Option (Bool × FileTree) :=
  doCreateDirectories env turns (cStr path) tree

end

end Release

/-! ## The paths of names -/

/-- The path of some names, from the root or from the current directory. -/
def pathOf (absolute : Bool) (names : List Bytes) : Bytes :=
  (if absolute then [Paths.separator] else []) ++ [Paths.separator].intercalate names

/-- Where a path begins. -/
def startOf (env : Environment) (absolute : Bool) : Location := if absolute then [] else env.cwd

/-- The one tree has directories that the other has not, at the end of the names or on the way
there, and is as the other elsewhere. -/
def MakesOnly (start : Location) (names : List Bytes) (tree after : FileTree) : Prop :=
  ∀ loc, after.kind loc ≠ tree.kind loc → tree.kind loc = none ∧
    after.kind loc = some .directory ∧ ∃ ancestor, ancestor <+: names ∧ loc = start ++ ancestor

/-- The call returns, and what it returns says whether the path is a directory now; nothing but the
path and its ancestors is made. -/
def CreatesDirectories (env : Environment) (tree : FileTree) (absolute : Bool)
    (names : List Bytes) : Prop :=
  ∃ turns success after,
    Release.createDirectories env turns (pathOf absolute names) tree = some (success, after) ∧
    (success = true ↔ status env after (pathOf absolute names) = some .directory) ∧
    MakesOnly (startOf env absolute) names tree after

section

variable {absolute : Bool} {names : List Bytes}

/-- There is something to the path. -/
def Named (absolute : Bool) (names : List Bytes) : Prop := absolute = true ∨ names ≠ []

theorem pathOf_ne_nil (proper : ∀ name ∈ names, ProperName name) (named : Named absolute names) :
    pathOf absolute names ≠ [] := by
  cases absolute with
  | true => exact List.cons_ne_nil _ _
  | false =>
      cases names with
      | nil => exact absurd rfl (named.resolve_left Bool.false_ne_true)
      | cons name rest =>
          have first := (proper name List.mem_cons_self).nonempty
          cases rest with
          | nil => simpa [pathOf] using first
          | cons => simp [pathOf, first]

theorem zero_not_mem_pathOf (proper : ∀ name ∈ names, ProperName name) :
    0 ∉ pathOf absolute names := by
  have apart : (0 : UInt8) ≠ Paths.separator := by decide
  have inside : 0 ∉ [Paths.separator].intercalate names := by
    induction names with
    | nil => exact List.not_mem_nil
    | cons name rest ih =>
        obtain ⟨first, others⟩ := List.forall_mem_cons.mp proper
        by_cases last : rest = []
        · subst last
          simpa using first.noZero
        · rw [List.intercalate_cons_of_ne_nil last]
          simp [first.noZero, ih others, apart]
  cases absolute with
  | true => simpa [pathOf, apart] using inside
  | false => exact inside

theorem splitOn_pathOf (proper : ∀ name ∈ names, ProperName name) (nonempty : names ≠ []) :
    (pathOf absolute names).splitOn Paths.separator =
      (if absolute then [[]] else []) ++ names := by
  have plain : ∀ name ∈ names, Paths.separator ∉ name := fun name member =>
    (proper name member).noSeparator
  cases absolute with
  | true =>
      have cut := @List.splitOn_append_cons_self _ _ _ Paths.separator []
        ([Paths.separator].intercalate names)
      rw [List.splitOn_intercalate _ plain nonempty] at cut
      exact cut
  | false => exact List.splitOn_intercalate _ plain nonempty

theorem head?_pathOf (proper : ∀ name ∈ names, ProperName name) :
    (pathOf absolute names).head? = some Paths.separator ↔ absolute = true := by
  cases absolute with
  | true => exact iff_of_true rfl rfl
  | false =>
      refine iff_of_false ?_ Bool.false_ne_true
      intro first
      cases names with
      | nil => cases first
      | cons name rest =>
          obtain ⟨isName, -⟩ := List.forall_mem_cons.mp proper
          have head : (pathOf false (name :: rest)).head? = name.head? := by
            by_cases last : rest = []
            · subst last
              simp [pathOf]
            · simp [pathOf, List.intercalate_cons_of_ne_nil last,
                List.head?_append_of_ne_nil _ isName.nonempty]
          rw [head] at first
          exact isName.noSeparator (List.mem_of_head? first)

/-- What is in front of the last name of a path. -/
def frontPart (absolute : Bool) (names : List Bytes) : Bytes :=
  if names = [] then if absolute then [Paths.separator] else []
  else pathOf absolute names ++ [Paths.separator]

theorem pathOf_concat (absolute : Bool) (names : List Bytes) (last : Bytes) :
    pathOf absolute (names ++ [last]) = frontPart absolute names ++ last := by
  have joined : names ≠ [] → [Paths.separator].intercalate (names ++ [last]) =
      [Paths.separator].intercalate names ++ [Paths.separator] ++ last := by
    induction names with
    | nil => exact fun nonempty => absurd rfl nonempty
    | cons name rest ih =>
        intro _
        rw [List.cons_append, List.intercalate_cons_of_ne_nil (by simp)]
        by_cases single : rest = []
        · subst single
          simp
        · rw [ih single, List.intercalate_cons_of_ne_nil single]
          simp
  rw [frontPart]
  split
  · next empty =>
    subst empty
    simp [pathOf]
  · next nonempty => simp [pathOf, joined nonempty]

theorem length_pathOf_le (absolute : Bool) (names : List Bytes) (last : Bytes) :
    (pathOf absolute names).length ≤ (pathOf absolute (names ++ [last])).length := by
  rw [pathOf_concat, frontPart]
  split
  · next empty =>
    subst empty
    simp [pathOf]
  · rw [List.append_assoc, List.length_append]
    exact Nat.le_add_right _ _

theorem hasTrailingSeparator_pathOf {last : Bytes}
    (proper : ∀ name ∈ names ++ [last], ProperName name) :
    Paths.hasTrailingSeparator (pathOf absolute (names ++ [last])) = false := by
  have isName := proper last (List.mem_append_right _ (List.mem_singleton_self _))
  have plain := Paths.hasTrailingSeparator_of_plain isName.noSeparator
  rwa [pathOf_concat, Paths.hasTrailingSeparator, List.getLast?_append_of_ne_nil _ isName.nonempty]

end

/-! ## Where they lead -/

section

variable {env : Environment} {tree after : FileTree} {absolute : Bool} {names : List Bytes}

theorem makesOnly_refl {start : Location} : MakesOnly start names tree tree := fun _ changed =>
  absurd rfl changed

/-- What is made on the way to an ancestor is made on the way to the path. -/
theorem MakesOnly.trans {start : Location} {ancestor : List Bytes} {last : FileTree}
    (first : MakesOnly start ancestor tree after) (inside : ancestor <+: names)
    (second : MakesOnly start names after last) : MakesOnly start names tree last := by
  intro loc changed
  by_cases same : after.kind loc = tree.kind loc
  · rw [← same] at changed ⊢
    exact second loc changed
  · obtain ⟨free, made, above, leads, rfl⟩ := first loc same
    have kept : last.kind (start ++ above) = after.kind (start ++ above) := by
      by_contra again
      rw [(second _ again).1] at made
      cases made
    exact ⟨free, by rw [kept, made], above, leads.trans inside, rfl⟩

theorem walk_lead :
    tree.walk (startOf env absolute) ((if absolute then [[]] else []) ++ names) =
      tree.walk (startOf env absolute) names := by
  cases absolute with
  | true =>
      rw [startOf, if_pos rfl, if_pos rfl, List.singleton_append, FileTree.walk,
        if_pos tree.root]
      rfl
  | false => rfl

theorem walk_pathOf (proper : ∀ name ∈ names, ProperName name) (named : Named absolute names) :
    tree.walk (startOf env absolute) ((pathOf absolute names).splitOn Paths.separator) =
      tree.walk (startOf env absolute) names := by
  by_cases empty : names = []
  · subst empty
    obtain rfl := named.resolve_right fun nonempty => nonempty rfl
    have cut : (pathOf true []).splitOn Paths.separator = [[], []] := by decide
    simp [cut, startOf, FileTree.walk, FileTree.step, tree.root]
  · rw [splitOn_pathOf proper empty, walk_lead]

theorem start_pathOf (proper : ∀ name ∈ names, ProperName name) :
    (if (pathOf absolute names).head? = some Paths.separator then [] else env.cwd) =
      startOf env absolute := by
  simp only [head?_pathOf proper, startOf]

theorem status_pathOf_eq_directory_iff (proper : ∀ name ∈ names, ProperName name)
    (named : Named absolute names) :
    status env tree (pathOf absolute names) = some .directory ↔
      tree.kind (startOf env absolute ++ names) = some .directory := by
  rw [status, locate, if_neg (pathOf_ne_nil proper named), start_pathOf proper,
    walk_pathOf proper named, FileTree.bind_walk_eq_directory_iff proper]

theorem removeTrailingSeparator_pathOf (proper : ∀ name ∈ names, ProperName name)
    (named : Named absolute names) :
    Release.removeTrailingSeparator (pathOf absolute names) = pathOf absolute names := by
  rcases List.eq_nil_or_concat names with rfl | ⟨init, last, rfl⟩
  · obtain rfl := named.resolve_right fun nonempty => nonempty rfl
    decide
  · rw [List.concat_eq_append] at proper ⊢
    rw [Release.removeTrailingSeparator, if_pos (hasTrailingSeparator_pathOf proper)]

theorem directoryExists_pathOf (proper : ∀ name ∈ names, ProperName name)
    (named : Named absolute names) :
    Release.directoryExists env tree (pathOf absolute names) = true ↔
      tree.kind (startOf env absolute ++ names) = some .directory := by
  rw [← status_pathOf_eq_directory_iff proper named]
  rw [Release.directoryExists, removeTrailingSeparator_pathOf proper named]
  simp [pathOf_ne_nil proper named]

theorem locateParent_pathOf {last : Bytes}
    (proper : ∀ name ∈ names ++ [last], ProperName name) :
    locateParent env tree (pathOf absolute (names ++ [last])) =
      (tree.walk (startOf env absolute) names).map fun loc => (loc, last) := by
  have nonempty : names ++ [last] ≠ [] :=
    List.append_ne_nil_of_right_ne_nil _ (List.cons_ne_nil _ _)
  rw [locateParent, if_neg (pathOf_ne_nil proper (.inr nonempty)), start_pathOf proper,
    splitOn_pathOf proper nonempty, ← List.append_assoc]
  dsimp only
  rw [List.dropLast_concat, walk_lead, List.getLastD_concat]

/-- What `mkdir` makes of the path of some names. -/
theorem makeDirectory_pathOf {last : Bytes} {success : Bool}
    (proper : ∀ name ∈ names ++ [last], ProperName name)
    (made : makeDirectory env tree (pathOf absolute (names ++ [last])) = (success, after))
    (missing : tree.kind (startOf env absolute ++ (names ++ [last])) ≠ some .directory) :
    (success = true ↔ after.kind (startOf env absolute ++ (names ++ [last])) = some .directory) ∧
      MakesOnly (startOf env absolute) (names ++ [last]) tree after := by
  rw [makeDirectory, locateParent_pathOf proper] at made
  cases leads : tree.walk (startOf env absolute) names with
  | none =>
      rw [leads] at made
      obtain ⟨rfl, rfl⟩ := Prod.mk.inj made
      exact ⟨iff_of_false Bool.false_ne_true missing, makesOnly_refl⟩
  | some loc =>
      rw [leads] at made
      obtain rfl := FileTree.eq_append_of_walk
        (fun name member => proper name (List.mem_append_left _ member)) leads
      rw [← List.append_assoc] at missing ⊢
      dsimp only [Option.map_some] at made
      split at made
      · next free =>
        obtain ⟨rfl, rfl⟩ := Prod.mk.inj made
        refine ⟨iff_of_true rfl (Function.update_self ..), ?_⟩
        intro other changed
        have same : other = startOf env absolute ++ names ++ [last] := by
          by_contra apart
          exact changed (Function.update_of_ne apart ..)
        subst same
        exact ⟨free.2.1, Function.update_self .., names ++ [last], List.prefix_rfl,
          List.append_assoc _ _ _⟩
      · obtain ⟨rfl, rfl⟩ := Prod.mk.inj made
        exact ⟨iff_of_false Bool.false_ne_true missing, makesOnly_refl⟩

/-! ## The directory of a path -/

/-- What is in front of a separator between names is the path of the names in front of it. -/
theorem exists_of_intercalate {front more : Bytes} (proper : ∀ name ∈ names, ProperName name)
    (nonempty : names ≠ [])
    (whole : front ++ Paths.separator :: more = [Paths.separator].intercalate names) :
    ∃ ancestor rest, rest ≠ [] ∧ ancestor ≠ [] ∧ names = ancestor ++ rest ∧
      front = [Paths.separator].intercalate ancestor := by
  have plain : ∀ name ∈ names, Paths.separator ∉ name := fun name member =>
    (proper name member).noSeparator
  have cut := congrArg (List.splitOn Paths.separator) whole
  rw [List.splitOn_append_cons_self, List.splitOn_intercalate _ plain nonempty] at cut
  exact ⟨_, _, List.splitOn_ne_nil _ more, List.splitOn_ne_nil _ front, cut.symm,
    (List.intercalate_splitOn _).symm⟩

theorem exists_ancestor {front : Bytes} (proper : ∀ name ∈ names, ProperName name)
    (nonempty : names ≠ []) (seen : front ++ [Paths.separator] <+: pathOf absolute names) :
    ∃ ancestor rest, rest ≠ [] ∧ names = ancestor ++ rest ∧ Named absolute ancestor ∧
      Paths.dirPart (front ++ [Paths.separator]) = pathOf absolute ancestor := by
  obtain ⟨more, whole⟩ := seen
  rw [List.append_assoc, List.singleton_append] at whole
  cases absolute with
  | false =>
      obtain ⟨ancestor, rest, left, above, rfl, rfl⟩ := exists_of_intercalate proper nonempty whole
      have isPath : pathOf false ancestor ≠ [] :=
        pathOf_ne_nil (fun name member => proper name (List.mem_append_left _ member)) (.inr above)
      exact ⟨ancestor, rest, left, rfl, .inr above, Paths.dirPart_concat isPath⟩
  | true =>
      cases front with
      | nil => exact ⟨[], names, nonempty, rfl, .inl rfl, rfl⟩
      | cons c front =>
          obtain ⟨rfl, inside⟩ := List.cons.inj whole
          obtain ⟨ancestor, rest, left, -, isNames, rfl⟩ :=
            exists_of_intercalate proper nonempty inside
          exact ⟨ancestor, rest, left, isNames, .inl rfl,
            Paths.dirPart_concat (List.cons_ne_nil _ _)⟩

/-- **The splitter gives no directory, or that of an ancestor**, which is short enough to be split
again. -/
theorem getDirectory_pathOf (proper : ∀ name ∈ names, ProperName name) (nonempty : names ≠ [])
    (begins : 0 ≤ Paths.lastPosition (pathOf absolute names)) :
    Release.getDirectory (pathOf absolute names) = some [] ∨
      ∃ ancestor rest, rest ≠ [] ∧ names = ancestor ++ rest ∧ Named absolute ancestor ∧
        Release.getDirectory (pathOf absolute names) = some (pathOf absolute ancestor) ∧
        0 ≤ Paths.lastPosition (pathOf absolute ancestor) := by
  rw [Release.getDirectory, Paths.splitFilename_eq fun _ => begins, Option.map_some]
  have short := Paths.length_seenFront_le Paths.isSeparator (fun _ => begins)
  have inside := Paths.isPrefix_seenFront Paths.isSeparator (pathOf absolute names)
  obtain none | ⟨dir, isFront⟩ := Paths.rdropWhile_eq_nil_or_concat_separator
    ((pathOf absolute names).take (Paths.lastPosition (pathOf absolute names) + 1).toNat)
  · change Paths.seenFront Paths.isSeparator (pathOf absolute names) = [] at none
    exact .inl (by rw [none]; rfl)
  · change Paths.seenFront Paths.isSeparator (pathOf absolute names) = dir ++ [_] at isFront
    rw [isFront] at short inside ⊢
    obtain ⟨ancestor, rest, left, rfl, above, isPath⟩ := exists_ancestor proper nonempty inside
    have isProper : ∀ name ∈ ancestor, ProperName name := fun name member =>
      proper name (List.mem_append_left _ member)
    refine .inr ⟨ancestor, rest, left, rfl, above, ?_, ?_⟩
    · rw [isPath, removeTrailingSeparator_pathOf isProper above]
    · have small : (pathOf absolute ancestor).length ≤ 2 ^ 31 := by
        have position := Paths.lastPosition_lt_int (pathOf absolute (ancestor ++ rest))
        have cut : (Paths.dirPart (dir ++ [Paths.separator])).length ≤
            (dir ++ [Paths.separator]).length := by
          rw [Paths.dirPart]
          split
          · exact Nat.le_refl _
          · rw [List.dropLast_concat, List.length_append]
            exact Nat.le_add_right _ _
        rw [isPath] at cut
        omega
      exact (Paths.scanned_of_small Paths.isSeparator small).begins (pathOf_ne_nil isProper above)

/-- Up to 2 GiB it is that of the path without its last name. -/
theorem getDirectory_concat {last : Bytes} (proper : ∀ name ∈ names ++ [last], ProperName name)
    (small : (pathOf absolute (names ++ [last])).length ≤ 2 ^ 31) :
    Release.getDirectory (pathOf absolute (names ++ [last])) = some (pathOf absolute names) := by
  have plain := (proper last (List.mem_append_right _ (List.mem_singleton_self _))).noSeparator
  have ends : ∀ dir, Paths.frontOf (dir ++ [Paths.separator]) = dir ++ [Paths.separator] :=
    fun dir => List.rdropWhile_concat_neg _ dir Paths.separator (by decide)
  have cut : Paths.directoryOf (pathOf absolute (names ++ [last])) = pathOf absolute names := by
    rw [Paths.directoryOf, pathOf_concat, Paths.frontOf_append_of_plain _ plain, frontPart]
    by_cases empty : names = []
    · subst empty
      cases absolute <;> rfl
    · have above : pathOf absolute names ≠ [] :=
        pathOf_ne_nil (fun name member => proper name (List.mem_append_left _ member)) (.inr empty)
      rw [if_neg empty, ends, Paths.dirPart_concat above]
  rw [Release.getDirectory, Paths.splitFilename_of_scanned (Paths.scanned_of_small _ small), cut,
    Option.map_some]
  by_cases named : Named absolute names
  · rw [removeTrailingSeparator_pathOf
      (fun name member => proper name (List.mem_append_left _ member)) named]
  · obtain ⟨relative, none⟩ := not_or.mp named
    obtain rfl := not_ne_iff.mp none
    obtain rfl := Bool.eq_false_of_not_eq_true relative
    rfl

/-! ## The calls -/

theorem cStr_pathOf (proper : ∀ name ∈ names, ProperName name) :
    cStr (pathOf absolute names) = pathOf absolute names :=
  cStr_of_no_zero (zero_not_mem_pathOf proper)

/-- Nothing is made that the way to an ancestor does not lead to. -/
theorem MakesOnly.kind_eq {start : Location} {ancestor rest : List Bytes}
    (made : MakesOnly start ancestor tree after) (left : rest ≠ []) :
    after.kind (start ++ (ancestor ++ rest)) = tree.kind (start ++ (ancestor ++ rest)) := by
  by_contra changed
  obtain ⟨-, -, above, leads, same⟩ := made _ changed
  have short := leads.length_le
  rw [← List.append_cancel_left same, List.length_append] at short
  have positive := List.length_pos_of_ne_nil left
  omega

/-- The call for a path that is not a directory. -/
theorem doCreateDirectories_succ {turns : Nat} (proper : ∀ name ∈ names, ProperName name)
    (named : Named absolute names)
    (missing : tree.kind (startOf env absolute ++ names) ≠ some .directory) :
    Release.doCreateDirectories env (turns + 1) (pathOf absolute names) tree =
      (Release.getDirectory (pathOf absolute names)).bind fun parentdir =>
        if parentdir = [] then some (makeDirectory env tree (pathOf absolute names))
        else
          (Release.doCreateDirectories env turns parentdir tree).map fun made =>
            if made.1 = false then (false, made.2)
            else makeDirectory env made.2 (pathOf absolute names) := by
  have absent : ¬ Release.directoryExists env tree (pathOf absolute names) = true := by
    rwa [directoryExists_pathOf proper named]
  rw [Release.doCreateDirectories, cStr_pathOf proper, if_neg absent]

theorem doCreateDirectories_of_directory {turns : Nat} (proper : ∀ name ∈ names, ProperName name)
    (named : Named absolute names)
    (here : tree.kind (startOf env absolute ++ names) = some .directory)
    (enough : names.length < turns) :
    Release.doCreateDirectories env turns (pathOf absolute names) tree = some (true, tree) := by
  cases turns with
  | zero => exact absurd enough (Nat.not_lt_zero _)
  | succ turns =>
      rw [Release.doCreateDirectories, cStr_pathOf proper,
        if_pos ((directoryExists_pathOf proper named).mpr here)]

/-- **The calls**, by induction on the names.  The call for an ancestor makes nothing below it, so
that the path is still missing when it returns. -/
theorem exists_doCreateDirectories (proper : ∀ name ∈ names, ProperName name)
    (named : Named absolute names)
    (begins : tree.kind (startOf env absolute ++ names) = some .directory ∨
      0 ≤ Paths.lastPosition (pathOf absolute names)) :
    ∃ success after, (∀ turns, names.length < turns →
        Release.doCreateDirectories env turns (pathOf absolute names) tree =
          some (success, after)) ∧
      (success = true ↔ after.kind (startOf env absolute ++ names) = some .directory) ∧
      MakesOnly (startOf env absolute) names tree after := by
  induction size : names.length using Nat.strong_induction_on generalizing names with
  | h count ih =>
  subst size
  by_cases here : tree.kind (startOf env absolute ++ names) = some .directory
  · exact ⟨true, tree, fun _ enough => doCreateDirectories_of_directory proper named here enough,
      iff_of_true rfl here, makesOnly_refl⟩
  · have begins := begins.resolve_left here
    have nonempty : names ≠ [] := by
      rintro rfl
      obtain rfl := named.resolve_right fun nonempty => nonempty rfl
      exact here tree.root
    obtain ⟨init, last, isNames⟩ : ∃ init last, names = init ++ [last] :=
      ⟨names.dropLast, names.getLast nonempty, (List.dropLast_append_getLast nonempty).symm⟩
    obtain none | ⟨ancestor, rest, left, whole, above, parent, again⟩ :=
      getDirectory_pathOf proper nonempty begins
    · refine ⟨(makeDirectory env tree (pathOf absolute names)).1,
        (makeDirectory env tree (pathOf absolute names)).2, ?_, ?_⟩
      · rintro (_ | turns) enough
        · exact absurd enough (Nat.not_lt_zero _)
        · rw [doCreateDirectories_succ proper named here, none, Option.bind_some, if_pos rfl]
      · subst isNames
        exact makeDirectory_pathOf proper rfl here
    · have isProper : ∀ name ∈ ancestor, ProperName name := fun name member =>
        proper name (whole ▸ List.mem_append_left _ member)
      have shorter : ancestor.length < names.length := by
        have positive := List.length_pos_of_ne_nil left
        rw [whole, List.length_append]
        omega
      have inside : ancestor <+: names := whole ▸ List.prefix_append _ _
      obtain ⟨success, between, returns, reports, made⟩ :=
        ih ancestor.length shorter isProper above (.inr again) rfl
      have unfolds : ∀ turns, names.length < turns →
          Release.doCreateDirectories env turns (pathOf absolute names) tree =
            some (if success = false then (false, between)
              else makeDirectory env between (pathOf absolute names)) := by
        rintro (_ | turns) enough
        · exact absurd enough (Nat.not_lt_zero _)
        · rw [doCreateDirectories_succ proper named here, parent, Option.bind_some,
            if_neg (pathOf_ne_nil isProper above), returns turns (by omega), Option.map_some]
      cases success with
      | false =>
          refine ⟨false, between, unfolds, iff_of_false Bool.false_ne_true ?_,
            made.trans inside makesOnly_refl⟩
          intro isDirectory
          refine Bool.false_ne_true (reports.mpr (FileTree.kind_of_isPrefix isDirectory ?_))
          exact (List.prefix_append_right_inj _).mpr inside
      | true =>
          have still : between.kind (startOf env absolute ++ names) ≠ some .directory := by
            rw [whole] at here ⊢
            rwa [made.kind_eq left]
          subst isNames
          obtain ⟨told, onlyLast⟩ := makeDirectory_pathOf proper rfl still
          exact ⟨_, _, unfolds, told, made.trans inside onlyLast⟩

theorem makeDirectory_of_free {last : Bytes} (proper : ∀ name ∈ names ++ [last], ProperName name)
    (inside : tree.kind (startOf env absolute ++ names) = some .directory)
    (free : tree.kind (startOf env absolute ++ (names ++ [last])) = none) :
    (makeDirectory env tree (pathOf absolute (names ++ [last]))).1 = true := by
  have leads := FileTree.walk_of_directory
    (fun name member => proper name (List.mem_append_left _ member)) inside
  have isName := proper last (List.mem_append_right _ (List.mem_singleton_self _))
  rw [← List.append_assoc] at free
  rw [makeDirectory, locateParent_pathOf proper, leads]
  dsimp only [Option.map_some]
  rw [dif_pos ⟨inside, free, isName⟩]

theorem kind_eq_none {loc : Location} (noFile : tree.kind loc ≠ some .file)
    (noDirectory : tree.kind loc ≠ some .directory) : tree.kind loc = none := by
  cases isKind : tree.kind loc with
  | none => rfl
  | some kind =>
      cases kind with
      | file => exact absurd isKind noFile
      | directory => exact absurd isKind noDirectory

/-- What the call for the names in front of the last one leaves, if there is such a call: the
directory in which the path is still free. -/
theorem exists_between {last : Bytes} (proper : ∀ name ∈ names, ProperName name)
    (small : (pathOf absolute names).length ≤ 2 ^ 31)
    (begun : tree.kind (startOf env absolute) = some .directory)
    (free : tree.kind (startOf env absolute ++ (names ++ [last])) = none)
    (made : Named absolute names → ∃ after, (∀ turns, names.length < turns →
        Release.doCreateDirectories env turns (pathOf absolute names) tree = some (true, after)) ∧
      after.kind (startOf env absolute ++ names) = some .directory) :
    ∃ between, (∀ turns, names.length < turns →
        (if pathOf absolute names = [] then some (true, tree)
          else Release.doCreateDirectories env turns (pathOf absolute names) tree) =
            some (true, between)) ∧
      between.kind (startOf env absolute ++ names) = some .directory ∧
      between.kind (startOf env absolute ++ (names ++ [last])) = none := by
  by_cases above : Named absolute names
  · obtain ⟨between, returns, inside⟩ := made above
    obtain ⟨success, same, again, -, onlyAbove⟩ := exists_doCreateDirectories proper above
      (.inr ((Paths.scanned_of_small Paths.isSeparator small).begins
        (pathOf_ne_nil proper above)))
    have once := (returns _ (Nat.lt_succ_self _)).symm.trans (again _ (Nat.lt_succ_self _))
    obtain ⟨-, rfl⟩ := Prod.mk.inj (Option.some.inj once)
    refine ⟨between, fun turns enough => ?_, inside, ?_⟩
    · rw [if_neg (pathOf_ne_nil proper above), returns turns enough]
    · rw [onlyAbove.kind_eq (List.cons_ne_nil _ _), free]
  · obtain ⟨relative, none⟩ := not_or.mp above
    obtain rfl := not_ne_iff.mp none
    obtain rfl := Bool.eq_false_of_not_eq_true relative
    exact ⟨tree, fun _ _ => if_pos rfl, by rwa [List.append_nil], free⟩

/-- **Everything that is missing is made** where no file is in the way, for a path of up to
2 GiB. -/
theorem exists_of_unobstructed (proper : ∀ name ∈ names, ProperName name)
    (named : Named absolute names) (small : (pathOf absolute names).length ≤ 2 ^ 31)
    (begun : tree.kind (startOf env absolute) = some .directory)
    (unobstructed : ∀ ancestor, ancestor <+: names →
      tree.kind (startOf env absolute ++ ancestor) ≠ some .file) :
    ∃ after, (∀ turns, names.length < turns →
        Release.doCreateDirectories env turns (pathOf absolute names) tree = some (true, after)) ∧
      after.kind (startOf env absolute ++ names) = some .directory := by
  induction names using List.reverseRecOn with
  | nil =>
      obtain rfl := named.resolve_right fun nonempty => nonempty rfl
      exact ⟨tree, fun _ enough => doCreateDirectories_of_directory proper named tree.root enough,
        tree.root⟩
  | append_singleton init last ih =>
      by_cases here : tree.kind (startOf env absolute ++ (init ++ [last])) = some .directory
      · exact ⟨tree,
          fun _ enough => doCreateDirectories_of_directory proper named here enough, here⟩
      · have free : tree.kind (startOf env absolute ++ (init ++ [last])) = none :=
          kind_eq_none (unobstructed _ List.prefix_rfl) here
        have isProper : ∀ name ∈ init, ProperName name := fun name member =>
          proper name (List.mem_append_left _ member)
        have shorter := (length_pathOf_le absolute init last).trans small
        obtain ⟨between, parent, inside, still⟩ :=
          exists_between isProper shorter begun free fun above =>
            ih isProper above shorter fun ancestor leads =>
              unobstructed ancestor (leads.trans (List.prefix_append _ _))
        have missing : between.kind (startOf env absolute ++ (init ++ [last])) ≠
            some .directory := by
          rw [still]
          exact (Option.some_ne_none _).symm
        have makes := makeDirectory_of_free proper inside still
        refine ⟨_, ?_, (makeDirectory_pathOf proper rfl missing).1.mp makes⟩
        rintro (_ | turns) enough
        · exact absurd enough (Nat.not_lt_zero _)
        · have returned := parent turns (by simpa using enough)
          rw [doCreateDirectories_succ proper named here, getDirectory_concat proper small,
            Option.bind_some]
          split
          · next top =>
            rw [if_pos top] at returned
            obtain ⟨-, rfl⟩ := Prod.mk.inj (Option.some.inj returned)
            exact congrArg some (Prod.ext makes rfl)
          · next above =>
            rw [if_neg above] at returned
            rw [returned, Option.map_some, if_neg Bool.false_ne_true.symm]
            exact congrArg some (Prod.ext makes rfl)

theorem not_returns (proper : ∀ name ∈ names, ProperName name) (named : Named absolute names)
    (missing : tree.kind (startOf env absolute ++ names) ≠ some .directory)
    (outside : Paths.lastPosition (pathOf absolute names) < 0) (turns : Nat) :
    Release.doCreateDirectories env turns (pathOf absolute names) tree = none := by
  cases turns with
  | zero => rfl
  | succ turns =>
      rw [doCreateDirectories_succ proper named missing, Release.getDirectory, Paths.splitFilename,
        if_neg (pathOf_ne_nil proper named), if_pos outside]
      rfl

end

/-- **Directories are created** as long as the path is there already or the splitter begins inside
it. -/
theorem createsDirectories_iff (env : Environment) (tree : FileTree) (absolute : Bool)
    (names : List Bytes) (proper : ∀ name ∈ names, ProperName name)
    (nonempty : pathOf absolute names ≠ []) :
    CreatesDirectories env tree absolute names ↔
      status env tree (pathOf absolute names) = some .directory ∨
        0 ≤ Paths.lastPosition (pathOf absolute names) := by
  have named : Named absolute names := by
    by_contra unnamed
    obtain ⟨relative, none⟩ := not_or.mp unnamed
    obtain rfl := not_ne_iff.mp none
    obtain rfl := Bool.eq_false_of_not_eq_true relative
    exact nonempty rfl
  rw [CreatesDirectories, status_pathOf_eq_directory_iff proper named]
  simp only [Release.createDirectories, cStr_pathOf proper,
    status_pathOf_eq_directory_iff proper named]
  constructor
  · rintro ⟨turns, success, after, result, -⟩
    by_contra neither
    obtain ⟨missing, outside⟩ := not_or.mp neither
    rw [not_returns proper named missing (not_le.mp outside)] at result
    cases result
  · intro begins
    obtain ⟨success, after, returns, reports, made⟩ :=
      exists_doCreateDirectories proper named begins
    exact ⟨names.length + 1, success, after, returns _ (Nat.lt_succ_self _), reports, made⟩

theorem properName_b : ProperName (ascii "b") := by decide +kernel

/-- Two missing directories below the root. -/
theorem createsDirectories_two :
    CreatesDirectories fromRoot (single (ascii "a") .file properName_a) true
      [ascii "b", ascii "b"] :=
  (createsDirectories_iff fromRoot (single (ascii "a") .file properName_a) true
    [ascii "b", ascii "b"] (by simp [properName_b]) (by decide +kernel)).mpr
    (.inr (by decide +kernel))

theorem properName_large : ProperName (List.replicate (2 ^ 31 + 1) 97) := by
  constructor
  · rw [← List.length_pos_iff, List.length_replicate]
    decide
  · exact fun member => absurd (List.eq_of_mem_replicate member) (by decide)
  · exact fun member => absurd (List.eq_of_mem_replicate member) (by decide)
  · exact fun same => absurd (congrArg List.length same) (by rw [List.length_replicate]; decide)
  · exact fun same => absurd (congrArg List.length same) (by rw [List.length_replicate]; decide)

/-- A name of one character more than 2 GiB. -/
theorem not_createsDirectories_large :
    ¬ CreatesDirectories fromRoot (single (ascii "a") .file properName_a) false
      [List.replicate (2 ^ 31 + 1) 97] := by
  rintro ⟨turns, success, after, result, -⟩
  have proper : ∀ name ∈ [List.replicate (2 ^ 31 + 1) 97], ProperName name :=
    List.forall_mem_singleton.mpr properName_large
  have named : Named false [List.replicate (2 ^ 31 + 1) 97] := .inr (List.cons_ne_nil _ _)
  have missing : (single (ascii "a") .file properName_a).kind
      (startOf fromRoot false ++ [List.replicate (2 ^ 31 + 1) 97]) ≠ some .directory := by
    have apart : List.replicate (2 ^ 31 + 1) 97 ≠ ascii "a" := by
      intro same
      have lengths := congrArg List.length same
      rw [List.length_replicate] at lengths
      exact absurd lengths (by decide)
    have start : startOf fromRoot false = [] := rfl
    rw [start, List.nil_append, kind_single_of_ne _ apart]
    exact (Option.some_ne_none _).symm
  have outside : Paths.lastPosition (pathOf false [List.replicate (2 ^ 31 + 1) 97]) < 0 := by
    have whole : ∀ name, pathOf false [name] = name := fun name => by simp [pathOf]
    rw [whole, Paths.lastPosition, List.length_replicate]
    decide
  rw [Release.createDirectories, cStr_pathOf proper,
    not_returns proper named missing outside] at result
  cases result

end FileSystem

end Xul
