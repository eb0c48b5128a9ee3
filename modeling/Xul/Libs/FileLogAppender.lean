import Xul.Foundation.Renaming
import Xul.Os.Paths

/-!
# Rolling a log over

When its log has grown, a `file_log_appender` that keeps several of them removes the oldest, renames
every other to the number of the next older, and the current log to number zero
(`rollsOver`).
-/

set_option autoImplicit false

namespace Xul

/-- What is at a path of the file system: a file with its content, or nothing. -/
abbrev Files := Bytes → Option Bytes

/-- An appender as `set_parameter` leaves it, which takes C strings and an `int`. -/
structure FileLogAppender where
  isOpen : Bool
  dir : Bytes
  name : Bytes
  rollCount : Int
  dir_clean : 0 ∉ dir
  name_clean : 0 ∉ name
  rollCount_int : rollCount < 2 ^ 31

namespace FileLogAppender

/-- The log that is written to. -/
def filePath (appender : FileLogAppender) : Bytes :=
  Paths.join appender.dir (appender.name ++ ascii ".log")

/-- A log that was rolled over, by its number. -/
def rolledPath (appender : FileLogAppender) (index : Int) : Bytes :=
  Paths.join appender.dir (appender.name ++ (ascii "." ++ printInt index ++ ascii ".log"))

/-- `file_system::remove_file` and `rename` take C strings. -/
def removeFile (files : Files) (path : Bytes) : Files := Foundation.remove files (cStr path)

def renameFile (files : Files) (source target : Bytes) : Files :=
  Foundation.rename files (cStr source) (cStr target)

/-- The loop of `roll_over`, from `index - 1` down.  It ends with a path that is free. -/
def rollLoop (appender : FileLogAppender) : Nat → Bytes → Files → Bytes × Files
  | 0, filepath, files => (filepath, files)
  | index + 1, filepath, files =>
      let youngFilepath := appender.rolledPath index
      rollLoop appender index youngFilepath (renameFile files youngFilepath filepath)

/-- `roll_over`, behind a flush: to close the log writes nothing. -/
def rollOver (appender : FileLogAppender) (files : Files) : FileLogAppender × Files :=
  let appender := { appender with isOpen := false }
  if appender.rollCount ≤ 0 then (appender, files)
  else
    let filepath := appender.rolledPath (appender.rollCount - 1)
    let files := removeFile files filepath
    let (filepath, files) := rollLoop appender (appender.rollCount - 1).toNat filepath files
    (appender, renameFile files appender.filePath filepath)

/-- Every log has become the next older one. -/
structure RollsOver (appender : FileLogAppender) (before after : Files) : Prop where
  youngest : after (appender.rolledPath 0) = before appender.filePath
  older : ∀ index, 1 ≤ index → index < appender.rollCount →
    after (appender.rolledPath index) = before (appender.rolledPath (index - 1))
  free : after appender.filePath = none
  others : ∀ path, path ≠ appender.filePath →
    (∀ index, 0 ≤ index → index < appender.rollCount → path ≠ appender.rolledPath index) →
    after path = before path

/-- The logs, from the current one to the oldest. -/
def chain (appender : FileLogAppender) : Nat → Bytes
  | 0 => appender.filePath
  | index + 1 => appender.rolledPath index

section

variable {appender : FileLogAppender}

/-! ## The names of the logs -/

theorem join_clean {dir filename : Bytes} (dirClean : 0 ∉ dir) (filenameClean : 0 ∉ filename) :
    0 ∉ Paths.join dir filename := by
  rw [Paths.join]
  split
  · exact filenameClean
  · rw [List.mem_append, not_or, Paths.addTrailingSeparator]
    refine ⟨?_, filenameClean⟩
    split
    · exact dirClean
    · rw [List.mem_append, not_or]
      exact ⟨dirClean, by decide⟩

theorem join_injective {dir first second : Bytes}
    (same : Paths.join dir first = Paths.join dir second) : first = second := by
  rw [Paths.join, Paths.join] at same
  split at same
  · exact same
  · exact List.append_cancel_left same

theorem cStr_filePath (appender : FileLogAppender) :
    cStr appender.filePath = appender.filePath := by
  refine cStr_of_no_zero (join_clean appender.dir_clean ?_)
  rw [List.mem_append, not_or]
  exact ⟨appender.name_clean, by decide +kernel⟩

theorem cStr_rolledPath (appender : FileLogAppender) (index : Int) :
    cStr (appender.rolledPath index) = appender.rolledPath index := by
  refine cStr_of_no_zero (join_clean appender.dir_clean ?_)
  simp only [List.mem_append, not_or]
  exact ⟨appender.name_clean, ⟨by decide +kernel, not_mem_printInt (by decide) (by decide) index⟩,
    by decide +kernel⟩

theorem printInt_ne_nil (value : Int) : printInt value ≠ [] := by
  rw [printInt]
  split
  · exact List.cons_ne_nil _ _
  · exact printNat_ne_nil 10 _

theorem filePath_ne_rolledPath (appender : FileLogAppender) (index : Int) :
    appender.filePath ≠ appender.rolledPath index := by
  intro same
  have suffixes := List.append_cancel_left (join_injective same)
  have lengths := congrArg List.length suffixes
  have positive := List.length_pos_of_ne_nil (printInt_ne_nil index)
  simp only [List.length_append] at lengths
  have width : (ascii ".").length = 1 := by decide +kernel
  omega

theorem rolledPath_injective {first second : Int} (low : -2 ^ 63 ≤ first) (high : first < 2 ^ 63)
    (otherLow : -2 ^ 63 ≤ second) (otherHigh : second < 2 ^ 63)
    (same : appender.rolledPath first = appender.rolledPath second) : first = second := by
  have suffixes := List.append_cancel_left (join_injective same)
  have digits := List.append_cancel_left (List.append_cancel_right suffixes)
  have scanned := scanInt64_printInt low high
  rw [digits, scanInt64_printInt otherLow otherHigh] at scanned
  exact (Option.some.inj scanned).symm

theorem chain_distinct {count : Nat} (small : (count : Int) < 2 ^ 31) :
    ∀ j ≤ count, ∀ k ≤ count, appender.chain j = appender.chain k → j = k := by
  intro j insideJ k insideK same
  cases j with
  | zero =>
      cases k with
      | zero => rfl
      | succ k => exact absurd same (filePath_ne_rolledPath appender k)
  | succ j =>
      cases k with
      | zero => exact absurd same.symm (filePath_ne_rolledPath appender j)
      | succ k =>
          have indices : (j : Int) = k :=
            rolledPath_injective (by omega) (by omega) (by omega) (by omega) same
          omega

/-! ## The renamings -/

/-- **The loop and the renaming behind it shift the chain.** -/
theorem rename_rollLoop (appender : FileLogAppender) (count : Nat) (files : Files) :
    renameFile (rollLoop appender count (appender.rolledPath count) files).2 appender.filePath
        (rollLoop appender count (appender.rolledPath count) files).1 =
      Foundation.shift appender.chain (count + 1) files := by
  induction count generalizing files with
  | zero =>
      rw [rollLoop, renameFile, cStr_filePath, cStr_rolledPath]
      rfl
  | succ count ih =>
      rw [rollLoop, ih, Foundation.shift, renameFile, cStr_rolledPath, cStr_rolledPath]
      rfl

theorem rollOver_eq {count : Nat} (size : appender.rollCount = count + 1) (files : Files) :
    (rollOver appender files).2 =
      Foundation.shift appender.chain (count + 1)
        (Foundation.remove files (appender.chain (count + 1))) := by
  have keeps : ¬ appender.rollCount ≤ 0 := by omega
  have oldest : appender.rollCount - 1 = count := by omega
  have rolled := rename_rollLoop { appender with isOpen := false } count
    (removeFile files (appender.rolledPath count))
  rw [rollOver]
  simp only [keeps, if_false, oldest, Int.toNat_natCast]
  refine Eq.trans rolled ?_
  rw [removeFile, cStr_rolledPath]
  rfl

end

/-- **Rolling over** moves every log to the next number and forgets the oldest, whichever of them
there are. -/
theorem rollsOver (appender : FileLogAppender) (files : Files) (keeps : 1 ≤ appender.rollCount) :
    RollsOver appender files (rollOver appender files).2 := by
  obtain ⟨count, size⟩ : ∃ count : Nat, appender.rollCount = count + 1 :=
    ⟨(appender.rollCount - 1).toNat, by omega⟩
  have int := appender.rollCount_int
  have distinct := @chain_distinct appender (count + 1) (by omega)
  have free : Foundation.remove files (appender.chain (count + 1)) (appender.chain (count + 1)) =
      none := Foundation.remove_self files _
  -- The end of the chain is removed, and no other name of it is.
  have kept : ∀ k < count + 1, Foundation.remove files (appender.chain (count + 1))
      (appender.chain k) = files (appender.chain k) := by
    intro k early
    refine Foundation.remove_of_ne fun same => ?_
    exact absurd (distinct k (by omega) (count + 1) le_rfl same) (by omega)
  have moved : ∀ k < count + 1, (rollOver appender files).2 (appender.chain (k + 1)) =
      files (appender.chain k) := by
    intro k early
    rw [rollOver_eq size, Foundation.shift_succ distinct free early, kept k early]
  constructor
  · exact moved 0 (Nat.succ_pos count)
  · intro index positive small
    obtain ⟨k, rfl⟩ : ∃ k : Nat, index = k + 1 := ⟨(index - 1).toNat, by omega⟩
    rw [Int.add_sub_cancel]
    exact moved (k + 1) (by omega)
  · rw [rollOver_eq size]
    exact Foundation.shift_zero distinct free
  · intro path notCurrent notRolled
    have apart : ∀ k ≤ count + 1, path ≠ appender.chain k := by
      intro k inside
      cases k with
      | zero => exact notCurrent
      | succ index => exact notRolled index (by omega) (by omega)
    rw [rollOver_eq size, Foundation.shift_of_ne apart]
    exact Foundation.remove_of_ne (apart (count + 1) le_rfl)

/-- A current log, and one that was rolled over. -/
def twoLogs (path : Bytes) : Option Bytes :=
  if path = ascii "logs/app.log" then some (ascii "new")
  else if path = ascii "logs/app.0.log" then some (ascii "old")
  else none

theorem rollsOver_twoLogs :
    RollsOver ⟨true, ascii "logs", ascii "app", 2, by decide +kernel, by decide +kernel, by decide⟩
      twoLogs
      (rollOver ⟨true, ascii "logs", ascii "app", 2, by decide +kernel, by decide +kernel,
        by decide⟩ twoLogs).2 :=
  rollsOver _ _ (by decide)

end FileLogAppender

end Xul
