import Xul.Foundation.Occurrence

/-!
# The chunked coding, byte by byte

A chunked body is a sequence of chunks, each a size line, as many bytes of payload as
the line says, and a line end; a line of size zero and an empty line close it.  How a
size line is read is a parameter: `size` gives the size, or nothing for a line that is
not one.

`run` reads a body byte by byte and keeps in its phase all it needs of the bytes it
has read, so that it can be stopped and resumed anywhere (`run_append`).  It is the
reference for decoders that read larger pieces.  The payload of a body that is put
together from chunks is read back (`run_encode`).
-/

set_option autoImplicit false

namespace Foundation

namespace Chunked

/-- Where a reader stands in a chunked body. -/
inductive Phase where
  /-- In a size line, of which `text` has been read. -/
  | line (text : List UInt8)
  /-- In a payload of which `left` bytes are to come. -/
  | data (left : Nat)
  /-- Before the line end of a chunk, or between its two bytes. -/
  | dataEnd
  | dataEndCr
  /-- Before the empty line that closes the body, or between its two bytes. -/
  | trailer
  | trailerCr
  | terminated
  | malformed
deriving DecidableEq

def lineEnd : List UInt8 := [13, 10]

variable (size : List UInt8 → Option Nat)

/-- The phase after a size line. -/
def afterLine (text : List UInt8) : Phase :=
  match size text with
  | none => .malformed
  | some 0 => .trailer
  | some (more + 1) => .data (more + 1)

/-- One byte: the next phase, and the byte itself when it is payload. -/
def next : Phase → UInt8 → Phase × List UInt8
  | .line text, byte =>
      if byte = 10 ∧ text.getLast? = some 13 then (afterLine size text.dropLast, [])
      else (.line (text ++ [byte]), [])
  | .data left, byte => (if left ≤ 1 then .dataEnd else .data (left - 1), [byte])
  | .dataEnd, byte => (if byte = 13 then .dataEndCr else .malformed, [])
  | .dataEndCr, byte => (if byte = 10 then .line [] else .malformed, [])
  | .trailer, byte => (if byte = 13 then .trailerCr else .malformed, [])
  | .trailerCr, byte => (if byte = 10 then .terminated else .malformed, [])
  | .terminated, _ => (.terminated, [])
  | .malformed, _ => (.malformed, [])

/-- The phase after some bytes, and the payload among them. -/
def run : Phase → List UInt8 → Phase × List UInt8
  | phase, [] => (phase, [])
  | phase, byte :: rest =>
      let one := next size phase byte
      let later := run one.1 rest
      (later.1, one.2 ++ later.2)

variable {size}

/-! ## Reading on -/

@[simp] theorem run_nil (phase : Phase) : run size phase [] = (phase, []) := rfl

/-- **Reading can be stopped and resumed anywhere.** -/
theorem run_append (phase : Phase) (bytes more : List UInt8) :
    run size phase (bytes ++ more) =
      ((run size (run size phase bytes).1 more).1,
        (run size phase bytes).2 ++ (run size (run size phase bytes).1 more).2) := by
  induction bytes generalizing phase with
  | nil => rfl
  | cons byte bytes ih => simp only [List.cons_append, run, ih, List.append_assoc]

theorem run_malformed (bytes : List UInt8) : run size .malformed bytes = (.malformed, []) := by
  induction bytes with
  | nil => rfl
  | cons byte bytes ih => simp only [run, next, ih, List.nil_append]

/-! ## Size lines -/

/-- Without a line end the text of a line only grows. -/
theorem run_line_of_absent {text bytes : List UInt8}
    (absent : ∀ offset, ¬ lineEnd <+: (text ++ bytes).drop offset) :
    run size (.line text) bytes = (.line (text ++ bytes), []) := by
  induction bytes generalizing text with
  | nil => simp
  | cons byte bytes ih =>
      have grows : ¬ (byte = 10 ∧ text.getLast? = some 13) := by
        rintro ⟨rfl, last⟩
        obtain ⟨before, rfl⟩ := List.getLast?_eq_some_iff.mp last
        exact absent before.length ⟨bytes, by simp [lineEnd]⟩
      have later : run size (.line (text ++ [byte])) bytes =
          (.line (text ++ [byte] ++ bytes), []) := ih (by simpa using absent)
      simp only [run, next, if_neg grows, later, List.nil_append, List.append_assoc,
        List.singleton_append]

/-- A line is read up to its first line end. -/
theorem run_line_of_found {bytes : List UInt8} {lineLen : Nat}
    (found : firstOccurrence lineEnd bytes = some lineLen) :
    run size (.line []) bytes =
      run size (afterLine size (bytes.take lineLen)) (bytes.drop (lineLen + 2)) := by
  obtain ⟨⟨rest, stands⟩, -⟩ := firstOccurrence_eq_some_iff.mp found
  have split : bytes = (bytes.take lineLen ++ [13]) ++ 10 :: bytes.drop (lineLen + 2) := by
    have after : bytes.drop (lineLen + 2) = rest := by
      rw [← List.drop_drop, ← stands]
      rfl
    rw [after, List.append_assoc]
    conv_lhs => rw [← List.take_append_drop lineLen bytes, ← stands]
    rfl
  have inside := (firstOccurrence_add_length_le found).resolve_right (by simp [lineEnd])
  simp only [lineEnd, List.length_cons, List.length_nil] at inside
  have absent := firstOccurrence_eq_none_of_append
    (show firstOccurrence lineEnd ((bytes.take lineLen ++ [13]) ++
      10 :: bytes.drop (lineLen + 2)) = some lineLen by rw [← split, found])
    (by simp only [lineEnd, List.length_append, List.length_take, List.length_cons,
          List.length_nil]; omega)
  have before : run size (.line []) (bytes.take lineLen ++ [13]) =
      (.line ([] ++ (bytes.take lineLen ++ [13])), []) :=
    run_line_of_absent (by simpa using firstOccurrence_eq_none_iff.mp absent)
  conv_lhs => rw [split, run_append, before]
  simp [run, next]

/-! ## Payload -/

/-- Part of a payload. -/
theorem run_data_of_lt {left : Nat} {bytes : List UInt8} (part : bytes.length < left) :
    run size (.data left) bytes = (.data (left - bytes.length), bytes) := by
  induction bytes generalizing left with
  | nil => rfl
  | cons byte bytes ih =>
      rw [List.length_cons] at part
      have more : ¬ left ≤ 1 := by omega
      simp only [run, next, if_neg more, ih (show bytes.length < left - 1 by omega),
        List.length_cons, List.singleton_append]
      rw [Nat.sub_sub, Nat.add_comm 1]

/-- A whole payload. -/
theorem run_data_of_eq {byte : UInt8} {rest : List UInt8} :
    run size (.data (rest.length + 1)) (byte :: rest) = (.dataEnd, byte :: rest) := by
  induction rest generalizing byte with
  | nil => rfl
  | cons second rest ih =>
      have more : ¬ rest.length + 1 + 1 ≤ 1 := by omega
      rw [List.length_cons, run]
      simp only [next, if_neg more, Nat.add_sub_cancel, ih, List.singleton_append]

/-- A whole payload, the line end after it, and what follows. -/
theorem run_data_append {payload : List UInt8} (nonempty : payload ≠ []) (more : List UInt8) :
    run size (.data payload.length) (payload ++ lineEnd ++ more) =
      ((run size (.line []) more).1, payload ++ (run size (.line []) more).2) := by
  obtain ⟨byte, rest, rfl⟩ := List.exists_cons_of_ne_nil nonempty
  rw [List.append_assoc, run_append, List.length_cons, run_data_of_eq]
  simp [run, next, lineEnd]

/-! ## Bodies -/

/-- A chunk: a size line and the payload it announces. -/
structure Chunk (size : List UInt8 → Option Nat) where
  line : List UInt8
  payload : List UInt8
  oneLine : (13 : UInt8) ∉ line
  sized : size line = some payload.length
  nonempty : payload ≠ []

/-- The line that closes the chunks of a body. -/
structure LastLine (size : List UInt8 → Option Nat) where
  line : List UInt8
  oneLine : (13 : UInt8) ∉ line
  sized : size line = some 0

structure Body (size : List UInt8 → Option Nat) where
  chunks : List (Chunk size)
  last : LastLine size

def Chunk.encode (chunk : Chunk size) : List UInt8 :=
  chunk.line ++ lineEnd ++ chunk.payload ++ lineEnd

def Body.payload (body : Body size) : List UInt8 := body.chunks.flatMap Chunk.payload

def Body.encode (body : Body size) : List UInt8 :=
  body.chunks.flatMap Chunk.encode ++ body.last.line ++ lineEnd ++ lineEnd

/-- A text without a carriage return ends at the line end that follows it. -/
theorem firstOccurrence_lineEnd {line : List UInt8} (oneLine : (13 : UInt8) ∉ line)
    (more : List UInt8) : firstOccurrence lineEnd (line ++ lineEnd ++ more) = some line.length := by
  rw [List.append_assoc]
  have here : firstOccurrence lineEnd (lineEnd ++ more) = some 0 :=
    firstOccurrence_eq_some_iff.mpr ⟨List.prefix_append _ _, fun _ smaller => by omega⟩
  refine firstOccurrence_append_left here ?_
  · rintro earlier smaller ⟨rest, stands⟩
    rw [List.drop_append_of_le_length smaller.le] at stands
    obtain ⟨first, others, cut⟩ := List.exists_cons_of_ne_nil
      (List.ne_nil_of_length_pos (by rw [List.length_drop]; omega : 0 < (line.drop earlier).length))
    rw [cut] at stands
    obtain rfl : (13 : UInt8) = first := (List.cons.inj stands).1
    exact oneLine (List.mem_of_mem_drop (cut ▸ List.mem_cons_self ..))

/-- A size line and what follows it. -/
theorem run_line_append {line : List UInt8} (oneLine : (13 : UInt8) ∉ line)
    (more : List UInt8) :
    run size (.line []) (line ++ lineEnd ++ more) = run size (afterLine size line) more := by
  rw [run_line_of_found (firstOccurrence_lineEnd oneLine more)]
  congr 2
  · rw [List.append_assoc, List.take_left]
  · rw [← List.drop_drop, List.append_assoc, List.drop_left]
    rfl

theorem afterLine_of_payload {line payload : List UInt8}
    (sized : size line = some payload.length) (nonempty : payload ≠ []) :
    afterLine size line = .data payload.length := by
  obtain ⟨byte, rest, rfl⟩ := List.exists_cons_of_ne_nil nonempty
  simp [afterLine, sized]

theorem run_chunk (chunk : Chunk size) (more : List UInt8) :
    run size (.line []) (chunk.encode ++ more) =
      ((run size (.line []) more).1, chunk.payload ++ (run size (.line []) more).2) := by
  have shape : chunk.encode ++ more =
      chunk.line ++ lineEnd ++ (chunk.payload ++ lineEnd ++ more) := by
    simp [Chunk.encode]
  rw [shape, run_line_append chunk.oneLine, afterLine_of_payload chunk.sized chunk.nonempty,
    run_data_append chunk.nonempty]

theorem run_last (last : LastLine size) :
    run size (.line []) (last.line ++ lineEnd ++ lineEnd) = (.terminated, []) := by
  rw [run_line_append last.oneLine]
  simp [afterLine, last.sized, run, next, lineEnd]

/-- **Reading a body gives back its payload**, and ends exactly where the body does. -/
theorem run_encode (body : Body size) :
    run size (.line []) body.encode = (.terminated, body.payload) := by
  obtain ⟨chunks, last⟩ := body
  induction chunks with
  | nil => simpa [Body.encode, Body.payload] using run_last last
  | cons chunk chunks ih =>
      have shape : (Body.mk (chunk :: chunks) last).encode =
          chunk.encode ++ (Body.mk chunks last).encode := by
        simp [Body.encode]
      rw [shape, run_chunk, ih]
      rfl

end Chunked

end Foundation
