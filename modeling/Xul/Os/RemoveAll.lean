import Xul.Os.FileTree
import Mathlib.Data.List.Infix

/-!
# Removing a directory with everything in it

`file_system::remove_all` removes a file, or calls itself for everything that a `file_enumerator`
yields of a directory and removes that then.  The enumerator yields the names `.` and `..` too, and
the first leads to the directory itself: no call for a directory returns
(`isFile_of_doRemoveAll`).  What it returns for a file is whether `remove` has failed, so that there
is no entry of a tree that it removes and reports as removed (`not_removesAll`).
-/

set_option autoImplicit false

namespace Xul

namespace FileSystem

section

variable (env : Environment)

/-- `file_exists`.  There is no answer where its assertion fails. -/
def fileExists (tree : FileTree) (path : Bytes) : Option Bool :=
  if Paths.hasTrailingSeparator path then none else some (status env tree path = some .file)

def directoryExists (tree : FileTree) (path : Bytes) : Option Bool :=
  if Paths.hasTrailingSeparator path then
    (Paths.removeTrailingSeparator path).map fun newPath =>
      newPath = [] ∨ status env tree newPath = some .directory
  else some (status env tree path = some .directory)

/-- The paths that a `file_enumerator` yields of a directory.  Each is a name with the rest of its
record, behind the path of the directory. -/
def enumerate (tree : FileTree) (path : Bytes) : List Bytes :=
  match locate env tree path with
  | none => []
  | some loc =>
      (env.readdir tree loc).map fun name => Paths.join path (name ++ 0 :: env.trailer name)

/-- `do_remove_all`.  There is no answer while it has not returned, and where an assertion fails. -/
def doRemoveAll : Nat → Bytes → FileSystemState → Option (Bool × FileSystemState)
  | 0, _, _ => none
  | turns + 1, path, state => do
      let isFile ← fileExists env state.tree (cStr path)
      if isFile then
        let removed := removeEntry env state (cStr path)
        some (!removed.1, removed.2)
      else
        let isDirectory ← directoryExists env state.tree (cStr path)
        if isDirectory then
          let state ← (enumerate env state.tree (cStr path)).foldlM
            (fun state item => (doRemoveAll turns item state).map Prod.snd) state
          let removed := removeEntry env state (cStr path)
          some (!removed.1, removed.2)
        else none

/-- `remove_all`, of a path that is not null. -/
def removeAll (turns : Nat) (path : Bytes) (state : FileSystemState) :
    Option (Bool × FileSystemState) := doRemoveAll env turns (cStr path) state

/-- The call returns, the tree is as before but for what is at the location and below, nothing else
was to be removed, and true is returned if nothing is left of that. -/
def RemovesAll (tree : FileTree) (path : Bytes) (loc : Location) : Prop :=
  ∃ turns success after, removeAll env turns path ⟨tree, []⟩ = some (success, after) ∧
    (∀ other, loc <+: other → after.tree.kind other = none) ∧
    (∀ other, ¬ loc <+: other → after.tree.kind other = tree.kind other) ∧
    (∀ attempt ∈ after.attempts, loc <+: attempt) ∧
    (success = true ↔ ∀ other, loc <+: other → after.tree.kind other = none)

end

section

variable {env : Environment} {turns : Nat} {path : Bytes} {state after : FileSystemState}
  {success : Bool}

theorem cStr_append_zero {s : Bytes} (clean : 0 ∉ s) (rest : Bytes) :
    cStr (s ++ 0 :: rest) = s := by
  have kept : ∀ c ∈ s, decide (c ≠ 0) = true := fun c member =>
    decide_eq_true fun zero => clean (zero ▸ member)
  rw [cStr, List.takeWhile_append_of_pos kept]
  simp

/-- Among what is enumerated is the directory itself. -/
theorem exists_enumerate_dot (clean : 0 ∉ path)
    (noTrailing : Paths.hasTrailingSeparator path = false) (tree : FileTree)
    (isDirectory : status env tree path = some .directory) :
    ∃ item ∈ enumerate env tree path, cStr item = path ++ Paths.separator :: dot := by
  obtain ⟨loc, leads, -⟩ := Option.bind_eq_some_iff.mp isDirectory
  have nonempty : path ≠ [] := by
    rintro rfl
    cases leads
  refine ⟨Paths.join path (dot ++ 0 :: env.trailer dot), ?_, ?_⟩
  · rw [enumerate, leads]
    exact List.mem_map_of_mem ((env.enumerates tree loc).mem_iff.mpr List.mem_cons_self)
  · have whole : Paths.join path (dot ++ 0 :: env.trailer dot) =
        (path ++ Paths.separator :: dot) ++ 0 :: env.trailer dot := by
      rw [Paths.join, if_neg nonempty, Paths.addTrailingSeparator, noTrailing]
      simp
    have dotClean : 0 ∉ path ++ Paths.separator :: dot := by
      rw [List.mem_append, not_or]
      exact ⟨clean, by decide⟩
    rw [whole, cStr_append_zero dotClean]

/-- A loop over items of which one is a directory does not end, if no call for a directory does. -/
theorem foldlM_eq_none
    (returns : ∀ {path : Bytes} {state after : FileSystemState} {success : Bool},
      doRemoveAll env turns path state = some (success, after) →
        status env state.tree (cStr path) = some .file ∧ state.tree.KeepsDirectories after.tree ∧
          success = false)
    {items : List Bytes} {item : Bytes} (member : item ∈ items)
    (isDirectory : status env state.tree (cStr item) = some .directory) :
    items.foldlM (fun state item => (doRemoveAll env turns item state).map Prod.snd) state =
      none := by
  induction items generalizing state with
  | nil => exact absurd member List.not_mem_nil
  | cons next items ih =>
      rw [List.foldlM_cons]
      cases result : doRemoveAll env turns next state with
      | none => rfl
      | some answer =>
          obtain ⟨isFile, keeps, -⟩ := returns result
          obtain rfl | later := List.mem_cons.mp member
          · rw [isFile] at isDirectory
            cases isDirectory
          · exact ih later (status_of_keepsDirectories keeps isDirectory)

/-- **A call that returns was made for a file.**  It takes no directory away and returns false. -/
theorem isFile_of_doRemoveAll (result : doRemoveAll env turns path state = some (success, after)) :
    status env state.tree (cStr path) = some .file ∧ state.tree.KeepsDirectories after.tree ∧
      success = false := by
  induction turns generalizing path state success after with
  | zero => cases result
  | succ turns ih =>
      rw [doRemoveAll] at result
      obtain ⟨isFile, asked, result⟩ := Option.bind_eq_some_iff.mp result
      rw [fileExists, Option.ite_none_left_eq_some] at asked
      obtain ⟨noTrailing, isFileEq⟩ := asked
      rw [Bool.not_eq_true] at noTrailing
      split at result
      · next here =>
        rw [← Option.some.inj isFileEq, decide_eq_true_eq] at here
        obtain ⟨removed, keeps⟩ := removeEntry_of_file here
        obtain ⟨rfl, rfl⟩ := Prod.mk.inj (Option.some.inj result)
        rw [removed]
        exact ⟨here, keeps, rfl⟩
      · obtain ⟨isDirectory, asked, result⟩ := Option.bind_eq_some_iff.mp result
        rw [directoryExists, noTrailing, if_neg Bool.false_ne_true] at asked
        split at result
        · next here =>
          rw [← Option.some.inj asked, decide_eq_true_eq] at here
          obtain ⟨item, member, isItem⟩ :=
            exists_enumerate_dot (zero_not_mem_cStr path) noTrailing state.tree here
          have again : status env state.tree (cStr item) = some .directory := by
            rw [isItem]
            exact status_dot here
          obtain ⟨rest, ended, -⟩ := Option.bind_eq_some_iff.mp result
          rw [foldlM_eq_none ih member again] at ended
          cases ended
        · cases result

end

/-- **Nothing is removed and reported as removed**: a call for a directory does not return, and for
a file false is returned when it is gone. -/
theorem not_removesAll (env : Environment) (tree : FileTree) (path : Bytes) (loc : Location) :
    ¬ RemovesAll env tree path loc := by
  rintro ⟨turns, success, after, result, gone, -, -, reported⟩
  obtain ⟨-, -, rfl⟩ := isFile_of_doRemoveAll result
  exact Bool.false_ne_true (reported.mpr gone)

/-- Directories as they are, from the root. -/
def fromRoot : Environment where
  cwd := []
  readdir := fun tree loc => dot :: dotDot :: tree.children loc
  trailer := fun _ => []
  enumerates := fun _ _ => .refl _

/-- What is at the locations of a root with one entry. -/
def singleKind (name : Bytes) (kind : Kind) (loc : Location) : Option Kind :=
  if loc = [] then some .directory else if loc = [name] then some kind else none

theorem eq_of_singleKind {name other : Bytes} {kind : Kind} {loc : Location}
    (present : singleKind name kind (loc ++ [other]) ≠ none) : loc = [] ∧ other = name := by
  have nonroot : loc ++ [other] ≠ [] :=
    List.append_ne_nil_of_right_ne_nil _ (List.cons_ne_nil _ _)
  rw [singleKind, if_neg nonroot] at present
  by_cases same : loc ++ [other] = [name]
  · obtain ⟨empty, isName⟩ := List.append_inj' (same.trans (List.nil_append [name]).symm) rfl
    exact ⟨empty, List.singleton_inj.mp isName⟩
  · exact absurd (if_neg same) present

/-- A root with one entry. -/
def single (name : Bytes) (kind : Kind) (proper : ProperName name) : FileTree where
  kind := singleKind name kind
  locations := [[], [name]]
  nodup := by simp
  listed := by
    intro loc
    by_cases root : loc = []
    · simp [singleKind, root]
    · by_cases entry : loc = [name]
      · simp [singleKind, entry]
      · simp [singleKind, root, entry]
  root := rfl
  closed := by
    intro loc other present
    rw [(eq_of_singleKind present).1]
    rfl
  proper := by
    intro loc other present
    rw [(eq_of_singleKind present).2]
    exact proper

theorem kind_single_of_ne {name other : Bytes} {kind : Kind} (proper : ProperName name)
    (apart : other ≠ name) : (single name kind proper).kind [other] = none := by
  change singleKind name kind [other] = none
  rw [singleKind, if_neg (List.cons_ne_nil _ _),
    if_neg fun same => apart (List.singleton_inj.mp same)]

theorem properName_a : ProperName (ascii "a") :=
  ⟨by decide +kernel, by decide +kernel, by decide +kernel, by decide +kernel, by decide +kernel⟩

/-- The call for an empty directory does not return. -/
theorem not_removesAll_directory :
    ¬ RemovesAll fromRoot (single (ascii "a") .directory properName_a) (ascii "a")
      [ascii "a"] := by
  rintro ⟨turns, success, after, result, -⟩
  have isDirectory : status fromRoot (single (ascii "a") .directory properName_a)
      (cStr (cStr (ascii "a"))) = some .directory := by decide +kernel
  have isFile := (isFile_of_doRemoveAll result).1
  rw [isDirectory] at isFile
  cases isFile

end FileSystem

end Xul
