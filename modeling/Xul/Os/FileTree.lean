import Xul.Os.Paths
import Mathlib.Data.List.Perm.Basic
import Mathlib.Logic.Function.Basic

/-!
# A tree of files

A POSIX file system without links, with what `stat`, `readdir` and `remove` make of it.  An entry is
located by the names that lead to it from the root.  A path leads from the root or from the current
directory through directories only, and may stay in one (`.`) or go back (`..`).

Removing a file takes no directory away, so that a path to a directory still leads there
(`walk_of_keepsDirectories`).
-/

set_option autoImplicit false

namespace Xul

/-- The names that lead to an entry from the root. -/
abbrev Location := List Bytes

inductive Kind
  | file
  | directory
  deriving DecidableEq

def dot : Bytes := [46]

def dotDot : Bytes := [46, 46]

/-- What an entry may be named. -/
structure ProperName (name : Bytes) : Prop where
  nonempty : name ≠ []
  noSeparator : Paths.separator ∉ name
  noZero : 0 ∉ name
  notDot : name ≠ dot
  notDotDot : name ≠ dotDot

instance decidableProperName (name : Bytes) : Decidable (ProperName name) :=
  decidable_of_iff
    (name ≠ [] ∧ Paths.separator ∉ name ∧ 0 ∉ name ∧ name ≠ dot ∧ name ≠ dotDot)
    ⟨fun ⟨nonempty, noSeparator, noZero, notDot, notDotDot⟩ =>
      ⟨nonempty, noSeparator, noZero, notDot, notDotDot⟩,
      fun proper => ⟨proper.nonempty, proper.noSeparator, proper.noZero, proper.notDot,
        proper.notDotDot⟩⟩

/-- What is at each location, of which there are finitely many in use.  Every entry but the root is
in a directory. -/
structure FileTree where
  kind : Location → Option Kind
  locations : List Location
  nodup : locations.Nodup
  listed : ∀ loc, loc ∈ locations ↔ kind loc ≠ none
  root : kind [] = some .directory
  closed : ∀ loc name, kind (loc ++ [name]) ≠ none → kind loc = some .directory
  proper : ∀ loc name, kind (loc ++ [name]) ≠ none → ProperName name

namespace FileTree

variable {tree after : FileTree} {loc : Location}

/-- The names of the entries of a directory. -/
def children (tree : FileTree) (loc : Location) : List Bytes :=
  tree.locations.filterMap fun other =>
    if other ≠ [] ∧ other.dropLast = loc then other.getLast? else none

theorem mem_children {name : Bytes} :
    name ∈ tree.children loc ↔ tree.kind (loc ++ [name]) ≠ none := by
  rw [← tree.listed, children, List.mem_filterMap]
  constructor
  · rintro ⟨other, member, named⟩
    obtain ⟨⟨-, rfl⟩, last⟩ := Option.ite_none_right_eq_some.mp named
    rwa [List.dropLast_append_getLast? name last]
  · intro member
    refine ⟨loc ++ [name], member, ?_⟩
    rw [if_pos ⟨List.append_ne_nil_of_right_ne_nil _ (List.cons_ne_nil _ _), List.dropLast_concat⟩,
      List.getLast?_concat]

theorem present_of_update {other : Location}
    (present : Function.update tree.kind loc none other ≠ none) :
    other ≠ loc ∧ tree.kind other ≠ none := by
  have apart : other ≠ loc := by
    rintro rfl
    exact present (Function.update_self ..)
  rw [Function.update_of_ne apart] at present
  exact ⟨apart, present⟩

/-- The tree without an entry that nothing is in. -/
def erase (tree : FileTree) (loc : Location) (nonroot : loc ≠ []) (bare : tree.children loc = []) :
    FileTree where
  kind := Function.update tree.kind loc none
  locations := tree.locations.filter (· ≠ loc)
  nodup := tree.nodup.filter _
  listed := by
    intro other
    rw [List.mem_filter, tree.listed, decide_eq_true_iff]
    by_cases same : other = loc
    · simp [same]
    · simp [same]
  root := by rw [Function.update_of_ne nonroot.symm, tree.root]
  closed := by
    intro other name present
    have inTree := (present_of_update present).2
    have apart : other ≠ loc := by
      rintro rfl
      exact List.not_mem_nil (bare ▸ mem_children.mpr inTree)
    rw [Function.update_of_ne apart, tree.closed other name inTree]
  proper := fun other name present => tree.proper other name (present_of_update present).2

/-- Nothing is in a file. -/
theorem children_of_file (isFile : tree.kind loc = some .file) : tree.children loc = [] := by
  refine List.eq_nil_iff_forall_not_mem.mpr fun name member => ?_
  have isDirectory := tree.closed loc name (mem_children.mp member)
  rw [isFile] at isDirectory
  cases isDirectory

/-- The tree with a new directory. -/
def addDirectory (tree : FileTree) (loc : Location) (name : Bytes)
    (inside : tree.kind loc = some .directory) (free : tree.kind (loc ++ [name]) = none)
    (isProper : ProperName name) : FileTree where
  kind := Function.update tree.kind (loc ++ [name]) (some .directory)
  locations := (loc ++ [name]) :: tree.locations
  nodup := List.nodup_cons.mpr ⟨fun member => (tree.listed _).mp member free, tree.nodup⟩
  listed := by
    intro other
    rw [List.mem_cons, tree.listed]
    by_cases same : other = loc ++ [name]
    · simp [same]
    · simp [same]
  root := by
    rw [Function.update_of_ne (List.append_ne_nil_of_right_ne_nil _ (List.cons_ne_nil _ _)).symm,
      tree.root]
  closed := by
    intro other last present
    by_cases same : other ++ [last] = loc ++ [name]
    · have parent : other ≠ loc ++ [name] := by
        rw [(List.append_inj' same rfl).1]
        simp
      rw [Function.update_of_ne parent, (List.append_inj' same rfl).1, inside]
    · rw [Function.update_of_ne same] at present
      have isDirectory := tree.closed other last present
      have apart : other ≠ loc ++ [name] := by
        rintro rfl
        rw [free] at isDirectory
        cases isDirectory
      rw [Function.update_of_ne apart, isDirectory]
  proper := by
    intro other last present
    by_cases same : other ++ [last] = loc ++ [name]
    · rw [List.singleton_inj.mp (List.append_inj' same rfl).2]
      exact isProper
    · rw [Function.update_of_ne same] at present
      exact tree.proper other last present

/-- What leads to a directory are directories. -/
theorem kind_of_isPrefix {there : Location} (isDirectory : tree.kind there = some .directory)
    (leads : loc <+: there) : tree.kind loc = some .directory := by
  obtain ⟨names, rfl⟩ := leads
  induction names using List.reverseRecOn with
  | nil => rwa [List.append_nil] at isDirectory
  | append_singleton names name ih =>
      rw [← List.append_assoc] at isDirectory
      refine ih (tree.closed _ name ?_)
      rw [isDirectory]
      exact Option.some_ne_none _

/-! ## Paths -/

/-- Where a name leads to in a directory. -/
def step (loc : Location) (name : Bytes) : Location :=
  if name = [] ∨ name = dot then loc else if name = dotDot then loc.dropLast else loc ++ [name]

/-- Where the names of a path lead to, through directories. -/
def walk (tree : FileTree) : Location → List Bytes → Option Location
  | loc, [] => some loc
  | loc, name :: names =>
      if tree.kind loc = some .directory then walk tree (step loc name) names else none

theorem walk_append (loc : Location) (first second : List Bytes) :
    walk tree loc (first ++ second) =
      (walk tree loc first).bind fun there => walk tree there second := by
  induction first generalizing loc with
  | nil => rfl
  | cons name first ih =>
      rw [List.cons_append, walk, walk]
      split
      · exact ih (step loc name)
      · rfl

theorem step_of_proper {name : Bytes} (proper : ProperName name) :
    step loc name = loc ++ [name] := by
  rw [step, if_neg (not_or_intro proper.nonempty proper.notDot), if_neg proper.notDotDot]

/-- Proper names lead down. -/
theorem eq_append_of_walk {names : List Bytes} {there : Location}
    (proper : ∀ name ∈ names, ProperName name) (leads : walk tree loc names = some there) :
    there = loc ++ names := by
  induction names generalizing loc with
  | nil => simpa using (Option.some.inj leads).symm
  | cons name names ih =>
      obtain ⟨first, others⟩ := List.forall_mem_cons.mp proper
      rw [walk, Option.ite_none_right_eq_some, step_of_proper first] at leads
      rw [ih others leads.2, List.append_assoc]
      rfl

/-- Nothing is in the way to a directory. -/
theorem walk_of_directory {names : List Bytes} (proper : ∀ name ∈ names, ProperName name)
    (isDirectory : tree.kind (loc ++ names) = some .directory) :
    walk tree loc names = some (loc ++ names) := by
  induction names generalizing loc with
  | nil => rw [walk, List.append_nil]
  | cons name names ih =>
      obtain ⟨first, others⟩ := List.forall_mem_cons.mp proper
      rw [walk, if_pos (kind_of_isPrefix isDirectory (List.prefix_append _ _)),
        step_of_proper first]
      rw [List.append_cons loc name names] at isDirectory ⊢
      exact ih others isDirectory

theorem bind_walk_eq_directory_iff {names : List Bytes}
    (proper : ∀ name ∈ names, ProperName name) :
    (walk tree loc names).bind tree.kind = some .directory ↔
      tree.kind (loc ++ names) = some .directory := by
  constructor
  · intro isDirectory
    obtain ⟨there, leads, here⟩ := Option.bind_eq_some_iff.mp isDirectory
    rwa [← eq_append_of_walk proper leads]
  · intro isDirectory
    rw [walk_of_directory proper isDirectory, Option.bind_some, isDirectory]

/-- Every directory of the one tree is one of the other. -/
def KeepsDirectories (tree after : FileTree) : Prop :=
  ∀ loc, tree.kind loc = some .directory → after.kind loc = some .directory

theorem KeepsDirectories.refl (tree : FileTree) : KeepsDirectories tree tree := fun _ here => here

theorem KeepsDirectories.trans {last : FileTree} (first : KeepsDirectories tree after)
    (second : KeepsDirectories after last) : KeepsDirectories tree last := fun loc here =>
  second loc (first loc here)

/-- Paths lead on as before while no directory is taken away. -/
theorem walk_of_keepsDirectories (keeps : KeepsDirectories tree after) {names : List Bytes}
    {there : Location} (leads : walk tree loc names = some there) :
    walk after loc names = some there := by
  induction names generalizing loc with
  | nil => exact leads
  | cons name names ih =>
      rw [walk] at leads ⊢
      split at leads
      · next isDirectory =>
        rw [if_pos (keeps loc isDirectory)]
        exact ih leads
      · cases leads

/-- A path that ends with a dot leads to a directory. -/
theorem kind_of_walk_dot {names : List Bytes} {there : Location}
    (leads : walk tree loc names = some there) (last : names.getLast? = some dot) :
    tree.kind there = some .directory := by
  rw [← List.dropLast_append_getLast? dot last, walk_append] at leads
  obtain ⟨before, -, stays⟩ := Option.bind_eq_some_iff.mp leads
  rw [walk, Option.ite_none_right_eq_some] at stays
  obtain ⟨isDirectory, isThere⟩ := stays
  obtain rfl := Option.some.inj isThere
  exact isDirectory

/-- To remove a file takes no directory away. -/
theorem keepsDirectories_erase (isFile : tree.kind loc = some .file) (nonroot : loc ≠ []) :
    KeepsDirectories tree (tree.erase loc nonroot (children_of_file isFile)) := by
  intro other isDirectory
  have apart : other ≠ loc := by
    rintro rfl
    rw [isFile] at isDirectory
    cases isDirectory
  exact (Function.update_of_ne apart ..).trans isDirectory

end FileTree

/-! ## The system -/

/-- What a process finds: its current directory, the order in which `readdir` yields the names of a
directory, and what follows a name in the record that it is read from. -/
structure Environment where
  cwd : Location
  readdir : FileTree → Location → List Bytes
  trailer : Bytes → Bytes
  enumerates : ∀ tree loc, (readdir tree loc).Perm (dot :: dotDot :: tree.children loc)

/-- The files, and the locations that were to be removed. -/
structure FileSystemState where
  tree : FileTree
  attempts : List Location

section

variable (env : Environment)

/-- Where a C string leads to, whether or not there is something at its end. -/
def locate (tree : FileTree) (path : Bytes) : Option Location :=
  if path = [] then none
  else
    tree.walk (if path.head? = some Paths.separator then [] else env.cwd)
      (path.splitOn Paths.separator)

/-- `stat` -/
def status (tree : FileTree) (path : Bytes) : Option Kind := (locate env tree path).bind tree.kind

/-- Where the directory is that the last name of a C string is in, and that name. -/
def locateParent (tree : FileTree) (path : Bytes) : Option (Location × Bytes) :=
  if path = [] then none
  else
    let names := path.splitOn Paths.separator
    (tree.walk (if path.head? = some Paths.separator then [] else env.cwd) names.dropLast).map
      fun loc => (loc, names.getLastD [])

/-- `mkdir`, which succeeds where the parent is a directory and the name is free. -/
def makeDirectory (tree : FileTree) (path : Bytes) : Bool × FileTree :=
  match locateParent env tree path with
  | none => (false, tree)
  | some (loc, name) =>
      if free : tree.kind loc = some .directory ∧ tree.kind (loc ++ [name]) = none ∧
          ProperName name then
        (true, tree.addDirectory loc name free.1 free.2.1 free.2.2)
      else (false, tree)

/-- `remove`, which succeeds for a file and for a directory that nothing is in, unless that is the
root or named by a dot. -/
def removeEntry (state : FileSystemState) (path : Bytes) : Bool × FileSystemState :=
  match locate env state.tree path with
  | none => (false, state)
  | some loc =>
      if removable : loc ≠ [] ∧ state.tree.children loc = [] ∧ state.tree.kind loc ≠ none ∧
          (path.splitOn Paths.separator).getLast? ≠ some dot then
        (true, ⟨state.tree.erase loc removable.1 removable.2.1, state.attempts ++ [loc]⟩)
      else (false, ⟨state.tree, state.attempts ++ [loc]⟩)

end

section

variable {env : Environment} {tree after : FileTree} {path : Bytes} {loc : Location}

theorem locate_of_keepsDirectories (keeps : tree.KeepsDirectories after)
    (leads : locate env tree path = some loc) : locate env after path = some loc := by
  rw [locate] at leads ⊢
  split at leads
  · cases leads
  · next nonempty =>
    rw [if_neg nonempty]
    exact FileTree.walk_of_keepsDirectories keeps leads

theorem status_of_keepsDirectories (keeps : tree.KeepsDirectories after)
    (isDirectory : status env tree path = some .directory) :
    status env after path = some .directory := by
  obtain ⟨loc, leads, here⟩ := Option.bind_eq_some_iff.mp isDirectory
  exact Option.bind_eq_some_iff.mpr ⟨loc, locate_of_keepsDirectories keeps leads, keeps loc here⟩

/-- A dot behind a directory leads to it. -/
theorem status_dot (isDirectory : status env tree path = some .directory) :
    status env tree (path ++ Paths.separator :: dot) = some .directory := by
  obtain ⟨loc, leads, here⟩ := Option.bind_eq_some_iff.mp isDirectory
  refine Option.bind_eq_some_iff.mpr ⟨loc, ?_, here⟩
  rw [locate] at leads ⊢
  split at leads
  · cases leads
  · next nonempty =>
    have long : path ++ Paths.separator :: dot ≠ [] := List.append_ne_nil_of_left_ne_nil nonempty _
    have single : dot.splitOn Paths.separator = [dot] := by decide +kernel
    rw [if_neg long, List.head?_append_of_ne_nil _ nonempty, List.splitOn_append_cons_self, single,
      FileTree.walk_append, leads, Option.bind_some, FileTree.walk, if_pos here]
    rfl

/-- **A file is removed**, and no directory. -/
theorem removeEntry_of_file {state : FileSystemState}
    (isFile : status env state.tree path = some .file) :
    (removeEntry env state path).1 = true ∧
      state.tree.KeepsDirectories (removeEntry env state path).2.tree := by
  obtain ⟨loc, leads, here⟩ := Option.bind_eq_some_iff.mp isFile
  have nonroot : loc ≠ [] := by
    rintro rfl
    rw [state.tree.root] at here
    cases here
  have notDot : (path.splitOn Paths.separator).getLast? ≠ some dot := by
    intro last
    rw [locate] at leads
    split at leads
    · cases leads
    · rw [FileTree.kind_of_walk_dot leads last] at here
      cases here
  have removable : loc ≠ [] ∧ state.tree.children loc = [] ∧ state.tree.kind loc ≠ none ∧
      (path.splitOn Paths.separator).getLast? ≠ some dot :=
    ⟨nonroot, FileTree.children_of_file here, by rw [here]; exact Option.some_ne_none _, notDot⟩
  simp only [removeEntry, leads, dif_pos removable, true_and]
  exact FileTree.keepsDirectories_erase here nonroot

end

end Xul
