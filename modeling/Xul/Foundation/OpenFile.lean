import Mathlib.Data.List.Basic
import Mathlib.Tactic.Common

/-!
# Open files

A file that is open has a position, in front of which it was read or written.  Writes overwrite what
stands behind the position and make the file longer where that ends.  Pieces that are written one
behind another are written as one (`write_append`), and what is written to a file from its beginning
leaves what is behind that (`content_write_start`).
-/

set_option autoImplicit false

namespace Foundation

/-- An open file, cut at its position. -/
structure OpenFile (α : Type*) where
  front : List α
  rest : List α

namespace OpenFile

variable {α : Type*}

/-- A file that has just been opened. -/
def start (content : List α) : OpenFile α := ⟨[], content⟩

def content (file : OpenFile α) : List α := file.front ++ file.rest

/-- Reads up to so much. -/
def read (file : OpenFile α) (count : Nat) : List α × OpenFile α :=
  (file.rest.take count, ⟨file.front ++ file.rest.take count, file.rest.drop count⟩)

def write (file : OpenFile α) (data : List α) : OpenFile α :=
  ⟨file.front ++ data, file.rest.drop data.length⟩

@[simp] theorem write_nil (file : OpenFile α) : file.write [] = file := by
  rw [write, List.append_nil]
  rfl

/-- **Two pieces are written as one.** -/
theorem write_append (file : OpenFile α) (first second : List α) :
    (file.write first).write second = file.write (first ++ second) := by
  simp only [write, List.append_assoc, List.drop_drop, List.length_append]

/-- What is written stays in front of the end of what was there. -/
theorem content_write_start (old data : List α) :
    ((start old).write data).content = data ++ old.drop data.length := rfl

end OpenFile

end Foundation
