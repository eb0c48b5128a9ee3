import Xul.Foundation.OpenFile
import Xul.Std.Bytes

/-!
# Copying a file

`api_copy_file` reads the source in buffers and writes each of them to the destination, which it
has opened without truncating it.  However the system calls split what is read and written, a copy
that succeeds has written the source over the beginning of the destination, so that the end of a
longer one stays behind the copy (`copiesFile_iff`).
-/

set_option autoImplicit false

namespace Xul

namespace FileSystem

open Foundation

/-- How the system calls of a copy end.  The n-th call of `read` or `write` fails, or transfers up
to so many bytes. -/
structure CopyRun where
  opensSource : Bool
  statsSource : Bool
  opensDest : Bool
  read : Nat → Option Nat
  write : Nat → Option Nat
  closesSource : Bool
  closesDest : Bool

/-- `read` yields a byte at least, unless the end of the file has been reached. -/
def posixRead (outcome : Option Nat) (file : OpenFile UInt8) (count : Nat) :
    Option (Bytes × OpenFile UInt8) :=
  outcome.map fun amount => file.read (max 1 (min amount count))

def posixWrite (outcome : Option Nat) (file : OpenFile UInt8) (data : Bytes) :
    Option (Nat × OpenFile UInt8) :=
  outcome.map fun amount => (min amount data.length, file.write (data.take amount))

def bufferSize : Nat := 32768

/-- The inner loop, behind `writes` calls of `write`: whether the buffer was written, how many
calls there were, and the destination. -/
def writeLoop (run : CopyRun) (buf : Bytes) :
    Nat → Nat → Nat → OpenFile UInt8 → Option (Bool × Nat × OpenFile UInt8)
  | 0, _, _, _ => none
  | turns + 1, writes, szWrite, outfile =>
      match posixWrite (run.write writes) outfile (buf.drop szWrite) with
      | none => some (false, writes + 1, outfile)
      | some (sz, outfile) =>
          let szWrite := szWrite + sz
          if szWrite < buf.length then writeLoop run buf turns (writes + 1) szWrite outfile
          else some (true, writes + 1, outfile)

/-- The outer loop: whether `sz_read` ends at zero, and the destination. -/
def readLoop (run : CopyRun) :
    Nat → Nat → Nat → OpenFile UInt8 → OpenFile UInt8 → Option (Bool × OpenFile UInt8)
  | 0, _, _, _, _ => none
  | turns + 1, reads, writes, infile, outfile =>
      match posixRead (run.read reads) infile bufferSize with
      | none => some (false, outfile)
      | some (buf, infile) =>
          if buf = [] then some (true, outfile)
          else
            match writeLoop run buf turns writes 0 outfile with
            | none => none
            | some (false, _, outfile) => some (false, outfile)
            | some (true, writes, outfile) =>
                readLoop run turns (reads + 1) writes infile outfile

/-- `api_copy_file`: what it returns, and what it leaves at the destination.  There is no answer
while its loops have not ended. -/
def apiCopyFile (run : CopyRun) (turns : Nat) (src : Bytes) (dest : Option Bytes)
    (overwrite : Bool) : Option (Bool × Option Bytes) :=
  if run.opensSource = false then some (false, dest)
  else if run.statsSource = false then some (false, dest)
  -- `O_EXCL` refuses a file that exists, and `O_CREAT` makes an empty one.
  else if (overwrite = false ∧ dest.isSome) ∨ run.opensDest = false then some (false, dest)
  else
    (readLoop run turns 0 0 (.start src) (.start (dest.getD []))).map fun (success, outfile) =>
      (success && run.closesSource && run.closesDest, some outfile.content)

/-- A copy that succeeds is the source, and an existing file is not overwritten unless it should
be. -/
structure CopiesFile (src : Bytes) (dest : Option Bytes) (overwrite : Bool) : Prop where
  copies : ∀ run turns after, apiCopyFile run turns src dest overwrite = some (true, after) →
    after = some src
  keeps : overwrite = false → dest.isSome →
    ∀ run turns, apiCopyFile run turns src dest overwrite = some (false, dest)

section

variable {run : CopyRun} {turns reads writes : Nat} {infile outfile after : OpenFile UInt8}

/-! ## What a run that succeeds has written -/

/-- **A buffer is written whole**, in however many pieces. -/
theorem eq_write_of_writeLoop {buf : Bytes} {szWrite calls : Nat}
    (result : writeLoop run buf turns writes szWrite outfile = some (true, calls, after)) :
    after = outfile.write (buf.drop szWrite) := by
  induction turns generalizing writes szWrite outfile with
  | zero => cases result
  | succ turns ih =>
      rw [writeLoop] at result
      cases outcome : run.write writes with
      | none =>
          rw [outcome] at result
          cases result
      | some amount =>
          rw [outcome, posixWrite, Option.map_some] at result
          dsimp only at result
          split at result
          · have cut : (buf.drop szWrite).take amount ++
                buf.drop (szWrite + min amount (buf.drop szWrite).length) = buf.drop szWrite := by
              rw [← List.drop_drop, List.take_eq_take_min, List.take_append_drop]
            rw [ih result, OpenFile.write_append, cut]
          · next ended =>
            obtain rfl := (Prod.mk.inj (Prod.mk.inj (Option.some.inj result)).2).2
            rw [List.length_drop] at ended
            rw [List.take_of_length_le (by rw [List.length_drop]; omega)]

/-- **The rest of the source is written**, in however many buffers. -/
theorem eq_write_of_readLoop
    (result : readLoop run turns reads writes infile outfile = some (true, after)) :
    after = outfile.write infile.rest := by
  induction turns generalizing reads writes infile outfile with
  | zero => cases result
  | succ turns ih =>
      rw [readLoop] at result
      cases outcome : run.read reads with
      | none =>
          rw [outcome] at result
          cases result
      | some amount =>
          rw [outcome, posixRead, Option.map_some, OpenFile.read] at result
          dsimp only at result
          split at result
          · next ended =>
            obtain rfl := (Prod.mk.inj (Option.some.inj result)).2
            have empty : infile.rest = [] := (List.take_eq_nil_iff.mp ended).resolve_left (by omega)
            rw [empty, OpenFile.write_nil]
          · split at result
            · cases result
            · cases result
            · next written =>
              rw [ih result, eq_write_of_writeLoop written, List.drop_zero, OpenFile.write_append,
                List.take_append_drop]

/-! ## A run without failures -/

/-- The run in which every call does all that it is asked for. -/
def fullRun : CopyRun where
  opensSource := true
  statsSource := true
  opensDest := true
  read := fun _ => some bufferSize
  write := fun _ => some bufferSize
  closesSource := true
  closesDest := true

theorem writeLoop_fullRun {buf : Bytes} (small : buf.length ≤ bufferSize) (turns writes : Nat)
    (outfile : OpenFile UInt8) :
    writeLoop fullRun buf (turns + 1) writes 0 outfile =
      some (true, writes + 1, outfile.write buf) := by
  have whole : ¬ 0 + min bufferSize buf.length < buf.length := by omega
  rw [writeLoop, show fullRun.write writes = some bufferSize from rfl, posixWrite, List.drop_zero,
    Option.map_some, List.take_of_length_le small]
  exact if_neg whole

theorem readLoop_fullRun (enough : infile.rest.length < turns) (reads writes : Nat)
    (outfile : OpenFile UInt8) :
    readLoop fullRun turns reads writes infile outfile =
      some (true, outfile.write infile.rest) := by
  induction turns generalizing reads writes infile outfile with
  | zero => exact absurd enough (Nat.not_lt_zero _)
  | succ turns ih =>
      have read : posixRead (fullRun.read reads) infile bufferSize =
          some (infile.read bufferSize) := rfl
      rw [readLoop, read]
      dsimp only [OpenFile.read]
      by_cases empty : infile.rest = []
      · rw [empty, List.take_nil, if_pos rfl, OpenFile.write_nil]
      · have positive := List.length_pos_of_ne_nil empty
        have nonempty : infile.rest.take bufferSize ≠ [] := fun none =>
          empty ((List.take_eq_nil_iff.mp none).resolve_left (by decide))
        have small : (infile.rest.take bufferSize).length ≤ bufferSize := List.length_take_le _ _
        have width : 0 < bufferSize := by decide
        obtain ⟨fewer, rfl⟩ : ∃ fewer, turns = fewer + 1 := ⟨turns - 1, by omega⟩
        rw [if_neg nonempty, writeLoop_fullRun small]
        dsimp only
        rw [ih (by rw [List.length_drop]; omega), OpenFile.write_append, List.take_append_drop]

end

/-! ## What is left at the destination -/

/-- What a copy that returns true leaves, and that it might refuse to overwrite. -/
theorem eq_append_of_apiCopyFile {run : CopyRun} {turns : Nat} {src : Bytes}
    {dest after : Option Bytes} {overwrite : Bool}
    (result : apiCopyFile run turns src dest overwrite = some (true, after)) :
    ¬ (overwrite = false ∧ dest.isSome) ∧
      after = some (src ++ (dest.getD []).drop src.length) := by
  rw [apiCopyFile] at result
  split at result
  · cases result
  · split at result
    · cases result
    · split at result
      · cases result
      · next opened =>
        obtain ⟨⟨success, outfile⟩, copied, ended⟩ := Option.map_eq_some_iff.mp result
        obtain ⟨closed, rfl⟩ := Prod.mk.inj ended
        obtain ⟨⟨rfl, -⟩, -⟩ : (success = true ∧ _) ∧ _ := by simpa using closed
        refine ⟨fun refused => opened (.inl refused), ?_⟩
        rw [eq_write_of_readLoop copied]
        exact congrArg some (OpenFile.content_write_start _ _)

theorem apiCopyFile_fullRun (src : Bytes) (old : Bytes) :
    apiCopyFile fullRun (src.length + 1) src (some old) true =
      some (true, some (src ++ old.drop src.length)) := by
  have enough : (OpenFile.start src).rest.length < src.length + 1 := Nat.lt_succ_self _
  have copied := readLoop_fullRun enough 0 0 (.start old)
  exact congrArg (Option.map fun (success, outfile) =>
    (success && fullRun.closesSource && fullRun.closesDest, some outfile.content)) copied

theorem apiCopyFile_of_exists {dest : Option Bytes} (present : dest.isSome) (run : CopyRun)
    (turns : Nat) (src : Bytes) : apiCopyFile run turns src dest false = some (false, dest) := by
  have refused : (false = false ∧ dest.isSome) ∨ run.opensDest = false := .inl ⟨rfl, present⟩
  rw [apiCopyFile, if_pos refused, ite_self, ite_self]

/-- **Copying a file** works unless a longer one is overwritten. -/
theorem copiesFile_iff (src : Bytes) (dest : Option Bytes) (overwrite : Bool) :
    CopiesFile src dest overwrite ↔
      ¬ (overwrite = true ∧ ∃ old, dest = some old ∧ src.length < old.length) := by
  constructor
  · rintro copies ⟨rfl, old, rfl, longer⟩
    have kept := copies.copies fullRun _ _ (apiCopyFile_fullRun src old)
    have behind := List.append_right_eq_self.mp (Option.some.inj kept)
    exact absurd (List.drop_eq_nil_iff.mp behind) (not_le.mpr longer)
  · intro fits
    constructor
    · intro run turns after result
      obtain ⟨opened, rfl⟩ := eq_append_of_apiCopyFile result
      have short : (dest.getD []).length ≤ src.length := by
        cases dest with
        | none => exact Nat.zero_le _
        | some old =>
            by_contra longer
            refine fits ⟨?_, old, rfl, not_le.mp longer⟩
            by_contra keeps
            exact opened ⟨Bool.eq_false_of_not_eq_true keeps, rfl⟩
      rw [List.drop_eq_nil_of_le short, List.append_nil]
    · rintro rfl present run turns
      exact apiCopyFile_of_exists present run turns src

/-- One byte is copied over two. -/
theorem not_copiesFile_shorter : ¬ CopiesFile (ascii "a") (some (ascii "bc")) true := by
  intro copies
  have result : apiCopyFile fullRun 3 (ascii "a") (some (ascii "bc")) true =
      some (true, some (ascii "ac")) := by decide +kernel
  exact absurd (copies.copies fullRun 3 _ result) (by decide +kernel)

end FileSystem

end Xul
