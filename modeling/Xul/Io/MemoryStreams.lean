import Mathlib.Data.UInt
import Xul.Foundation.Runs
import Xul.Std.Bytes

/-!
# Streams over memory

`memory_input_stream` reads from a buffer and `memory_output_stream` writes into one.  Both
keep the position as an `int64_t` and check each operation against the length of the
buffer, where the arguments are a `size_t`, an `int64_t` or an `int`.

An operation succeeds, or fails (it returns false, -1 or 0 bytes, or throws), or is
undefined, when the sum it checks overflows.  A run records what every operation did.
-/

set_option autoImplicit false

namespace Xul

/-- A sum of type `int64_t`, which must not overflow. -/
def addInt64 (a b : Int) : Option Int :=
  if -2 ^ 63 ≤ a + b ∧ a + b < 2 ^ 63 then some (a + b) else none

inductive Result
  | succeeded
  | failed
  | undefined
deriving DecidableEq

/-- The bytes of the buffer that one `memcpy` or one access touches. -/
structure Block where
  start : Int
  count : Nat
deriving DecidableEq

/-- Every byte of the block lies in a buffer of this size. -/
def Block.Inside (size : Nat) (block : Block) : Prop :=
  0 ≤ block.start ∧ block.start + block.count ≤ size

instance (size : Nat) (block : Block) : Decidable (block.Inside size) :=
  inferInstanceAs (Decidable (_ ∧ _))

/-- What an operation leaves, and what it did. -/
structure Outcome (Stream : Type) where
  stream : Stream
  result : Result
  copied : List Block := []
  /-- What the caller gets to see of the buffer. -/
  bytes : Bytes := []

/-! ## The input stream -/

/-- `memory_input_stream`.  No object in memory is longer than `int64_t` counts. -/
structure MemoryInputStream where
  buffer : Bytes
  position : Int
  fits : buffer.length < 2 ^ 63

namespace MemoryInputStream

/-- `attach_buffer` -/
def attachBuffer (buffer : Bytes) (fits : buffer.length < 2 ^ 63) : MemoryInputStream :=
  { buffer, position := 0, fits }

/-- `is_available`: the sum is compared with `m_size` as a `size_t`. -/
def isAvailable (s : MemoryInputStream) (size : Int) : Option Bool :=
  (addInt64 s.position size).map fun sum => decide (toSizeT sum ≤ s.buffer.length)

/-- The bytes of a block, as far as they belong to the buffer. -/
def bytesAt (s : MemoryInputStream) (block : Block) : Bytes :=
  if block.start < 0 then [] else (s.buffer.drop block.start.toNat).take block.count

/-- An access to the buffer after which the stream is at `position`. -/
def access (s : MemoryInputStream) (block : Block) (position : Int) :
    Outcome MemoryInputStream :=
  { stream := { s with position }, result := .succeeded, copied := [block],
    bytes := s.bytesAt block }

def read (s : MemoryInputStream) (size : UInt64) : Outcome MemoryInputStream :=
  -- the size is a `size_t`, and `is_available` takes an `int64_t`
  match s.isAvailable (toInt64 size.toNat) with
  | none => { stream := s, result := .undefined }
  | some false => { stream := s, result := .failed }
  | some true =>
      if 0 < size.toNat then s.access ⟨s.position, size.toNat⟩ (toInt64 (s.position + size.toNat))
      else { stream := s, result := .succeeded }

def peekByte (s : MemoryInputStream) : Outcome MemoryInputStream :=
  if s.buffer.length ≤ toSizeT s.position then { stream := s, result := .failed }
  else s.access ⟨s.position, 1⟩ s.position

def readByte (s : MemoryInputStream) : Outcome MemoryInputStream :=
  match s.isAvailable 1 with
  | none => { stream := s, result := .undefined }
  | some false => { stream := s, result := .failed }
  | some true => s.access ⟨s.position, 1⟩ (s.position + 1)

def skip (s : MemoryInputStream) (size : Int64) : Outcome MemoryInputStream :=
  match s.isAvailable size.toInt with
  | none => { stream := s, result := .undefined }
  | some false => { stream := s, result := .failed }
  | some true => { stream := { s with position := s.position + size.toInt }, result := .succeeded }

def seek (s : MemoryInputStream) (pos : Int64) : Outcome MemoryInputStream :=
  if s.buffer.length < toSizeT pos.toInt then { stream := s, result := .failed }
  else { stream := { s with position := pos.toInt }, result := .succeeded }

inductive Operation
  | read (size : UInt64)
  | readByte
  | peekByte
  | skip (size : Int64)
  | seek (pos : Int64)

def perform (s : MemoryInputStream) : Operation → Outcome MemoryInputStream
  | .read size => s.read size
  | .readByte => s.readByte
  | .peekByte => s.peekByte
  | .skip size => s.skip size
  | .seek pos => s.seek pos

end MemoryInputStream

/-! ## The output stream -/

/-- `memory_output_stream`, whose capacity is an `int`. -/
structure MemoryOutputStream where
  buffer : Bytes
  position : Int
  fits : buffer.length < 2 ^ 31

namespace MemoryOutputStream

/-- The stream that the constructor makes. -/
def create (buffer : Bytes) (fits : buffer.length < 2 ^ 31) : MemoryOutputStream :=
  { buffer, position := 0, fits }

/-- `is_available` -/
def isAvailable (s : MemoryOutputStream) (size : Int) : Option Bool :=
  (addInt64 s.position size).map fun sum : Int => decide (sum ≤ s.buffer.length)

/-- The buffer after data is copied to a place, as far as the place belongs to it. -/
def place (buffer : Bytes) (start : Int) (data : Bytes) : Bytes :=
  buffer.mapIdx fun i old =>
    if (i : Int) < start then old else (data[(i - start).toNat]?).getD old

@[simp] theorem length_place (buffer : Bytes) (start : Int) (data : Bytes) :
    (place buffer start data).length = buffer.length := List.length_mapIdx

/-- Data is copied to the position, and the position moves behind it. -/
def put (s : MemoryOutputStream) (data : Bytes) : Outcome MemoryOutputStream :=
  { stream :=
      { buffer := place s.buffer s.position data
        position := s.position + data.length
        fits := by rw [length_place]; exact s.fits }
    result := .succeeded
    copied := [⟨s.position, data.length⟩] }

/-- `write_bytes`, where there are `size` bytes at `data`. -/
def writeBytes (s : MemoryOutputStream) (data : Bytes) (size : Int32) :
    Outcome MemoryOutputStream :=
  match s.isAvailable size.toInt with
  | none => { stream := s, result := .undefined }
  | some false => { stream := s, result := .failed }
  | some true =>
      if 0 < size.toInt then s.put (data.take size.toInt.toNat)
      else { stream := s, result := .succeeded }

/-- `write_byte` -/
def writeByte (s : MemoryOutputStream) (val : UInt8) : Outcome MemoryOutputStream :=
  match s.isAvailable 1 with
  | none => { stream := s, result := .undefined }
  | some false => { stream := s, result := .failed }
  | some true => s.put [val]

def seek (s : MemoryOutputStream) (pos : Int64) : Outcome MemoryOutputStream :=
  if s.buffer.length ≤ pos.toInt then { stream := s, result := .failed }
  else { stream := { s with position := pos.toInt }, result := .succeeded }

inductive Operation
  | writeBytes (data : Bytes) (size : Int32) (enough : size.toInt ≤ data.length)
  | writeByte (val : UInt8)
  | seek (pos : Int64)

def perform (s : MemoryOutputStream) : Operation → Outcome MemoryOutputStream
  | .writeBytes data size _ => s.writeBytes data size
  | .writeByte val => s.writeByte val
  | .seek pos => s.seek pos

end MemoryOutputStream

/-! ## Runs -/

/-- What a run keeps of an operation. -/
structure StreamEntry where
  before : Int
  after : Int
  result : Result
  copied : List Block
deriving DecidableEq

/-- The operation is defined, touches only the buffer, and fails without moving. -/
def StreamEntry.Sound (size : Nat) (entry : StreamEntry) : Prop :=
  entry.result ≠ .undefined ∧ (∀ block ∈ entry.copied, block.Inside size) ∧
    (entry.result = .failed → entry.after = entry.before)

/-- A class of streams over memory: its streams, its operations and what they do. -/
structure MemoryStream (Stream Operation : Type) where
  size : Stream → Nat
  position : Stream → Int
  perform : Stream → Operation → Outcome Stream
  size_perform : ∀ s operation, size (perform s operation).stream = size s

structure StreamRun (Stream : Type) where
  stream : Stream
  log : List StreamEntry := []

namespace MemoryStream

variable {Stream Operation : Type} (streams : MemoryStream Stream Operation)

def entry (s : Stream) (operation : Operation) : StreamEntry :=
  let outcome := streams.perform s operation
  { before := streams.position s, after := streams.position outcome.stream,
    result := outcome.result, copied := outcome.copied }

/-- An operation is performed and recorded. -/
def step (run : StreamRun Stream) (operation : Operation) : Option (StreamRun Stream) :=
  some { stream := (streams.perform run.stream operation).stream,
         log := run.log ++ [streams.entry run.stream operation] }

/-- The position is between 0 and the length of the buffer. -/
def InRange (s : Stream) : Prop :=
  0 ≤ streams.position s ∧ streams.position s ≤ streams.size s

/-- The position is in range, and every operation so far was sound. -/
def InBounds (run : StreamRun Stream) : Prop :=
  streams.InRange run.stream ∧ ∀ entry ∈ run.log, entry.Sound (streams.size run.stream)

/-- The operation is sound and leaves the position in range. -/
def Keeps (s : Stream) (operation : Operation) : Prop :=
  streams.InRange (streams.perform s operation).stream ∧
    (streams.entry s operation).Sound (streams.size s)

variable {streams}

/-- **One operation.** -/
theorem inBounds_step_iff {run next : StreamRun Stream} {operation : Operation}
    (before : streams.InBounds run) (happens : streams.step run operation = some next) :
    streams.InBounds next ↔ streams.Keeps run.stream operation := by
  cases happens
  have sameSize := streams.size_perform run.stream operation
  refine and_congr_right ?_
  intro _
  rw [sameSize]
  constructor
  · intro sound
    exact sound _ (List.mem_append_right _ (List.mem_singleton_self _))
  · intro last entry member
    rcases List.mem_append.mp member with earlier | new
    · exact before.2 entry earlier
    · rwa [List.mem_singleton.mp new]

/-- **A run stays in bounds exactly when its guards hold**, for guards that single out the
operations which keep the bounds. -/
theorem throughout_inBounds_iff {guard : Stream → Operation → Prop}
    (exactly : ∀ s operation, streams.InRange s → (streams.Keeps s operation ↔ guard s operation))
    {s : Stream} (start : streams.InRange s) (operations : List Operation) :
    Foundation.Throughout streams.step streams.InBounds { stream := s } operations ↔
      Foundation.Guarded streams.step (fun run => guard run.stream) { stream := s } operations := by
  have initially : streams.InBounds { stream := s } := ⟨start, nofun⟩
  refine Foundation.throughout_iff_guarded (fun _ => id) ?_ ?_ initially
  · intro run operation next before allowed happens
    exact (inBounds_step_iff before happens).mpr ((exactly _ _ before.1).mpr allowed)
  · intro run operation next before refused happens after
    exact refused ((exactly _ _ before.1).mp ((inBounds_step_iff before happens).mp after))

/-! An operation that fails, that is undefined, and that succeeds. -/

theorem keeps_of_failed {s : Stream} {operation : Operation} (range : streams.InRange s)
    (performed : streams.perform s operation = { stream := s, result := .failed }) :
    streams.Keeps s operation := by
  rw [Keeps, entry, performed]
  exact ⟨range, nofun, nofun, fun _ => rfl⟩

theorem not_keeps_of_undefined {s : Stream} {operation : Operation}
    (performed : streams.perform s operation = { stream := s, result := .undefined }) :
    ¬ streams.Keeps s operation := by
  rw [Keeps, entry, performed]
  rintro ⟨-, defined, -⟩
  exact defined rfl

theorem keeps_iff_of_succeeded {s next : Stream} {operation : Operation} {copied : List Block}
    {bytes : Bytes} (performed : streams.perform s operation =
      { stream := next, result := .succeeded, copied, bytes }) :
    streams.Keeps s operation ↔
      streams.InRange next ∧ ∀ block ∈ copied, block.Inside (streams.size s) := by
  rw [Keeps, entry, performed]
  exact and_congr_right fun _ => ⟨fun sound => sound.2.1, fun inside => ⟨nofun, inside, nofun⟩⟩

end MemoryStream

/-! ## The input stream stays in bounds -/

theorem addInt64_of_fits {a b : Int} (low : -2 ^ 63 ≤ a + b) (high : a + b < 2 ^ 63) :
    addInt64 a b = some (a + b) := if_pos ⟨low, high⟩

theorem addInt64_of_overflow {a b : Int} (high : 2 ^ 63 ≤ a + b) : addInt64 a b = none :=
  if_neg fun fits => absurd fits.2 (not_lt.mpr high)

theorem toSizeT_of_neg {value : Int} (low : -2 ^ 63 ≤ value) (negative : value < 0) :
    2 ^ 63 ≤ toSizeT value := by
  rw [toSizeT]
  omega

theorem toInt64_of_large {value : Int} (low : 2 ^ 63 ≤ value) (high : value < 2 ^ 64) :
    toInt64 value = value - 2 ^ 64 := by
  rw [toInt64, Int.bmod_def]
  omega

namespace MemoryInputStream

variable {s : MemoryInputStream}

/-- `memory_input_stream` with its operations. -/
def streams : MemoryStream MemoryInputStream Operation where
  size s := s.buffer.length
  position := MemoryInputStream.position
  perform := perform
  size_perform s operation := by
    cases operation with
    | read size => rw [perform, read]; split <;> [rfl; rfl; (split <;> rfl)]
    | readByte => rw [perform, readByte]; split <;> rfl
    | peekByte => rw [perform, peekByte]; split <;> rfl
    | skip size => rw [perform, skip]; split <;> rfl
    | seek pos => rw [perform, seek]; split <;> rfl

/-- The sums that the operation checks do not overflow, and a size from 2^63 on, which
`is_available` takes for a negative number, leads before the beginning of the buffer. -/
def Allowed (s : MemoryInputStream) : Operation → Prop
  | .read size =>
      s.position + size.toNat < 2 ^ 63 ∨
        2 ^ 63 ≤ size.toNat ∧ s.position + size.toNat < 2 ^ 64
  | .readByte => s.position + 1 < 2 ^ 63
  | .peekByte => True
  | .skip size => s.position + size.toInt < 2 ^ 63
  | .seek _ => True

/-- What `is_available` answers when the sum fits. -/
theorem isAvailable_of_fits {size : Int} (low : -2 ^ 63 ≤ s.position + size)
    (high : s.position + size < 2 ^ 63) :
    s.isAvailable size = some (decide (0 ≤ s.position + size ∧
      s.position + size ≤ s.buffer.length)) := by
  have fits := s.fits
  rw [isAvailable, addInt64_of_fits low high, Option.map_some]
  congr 2
  rcases Int.lt_or_le (s.position + size) 0 with negative | nonneg
  · have far := toSizeT_of_neg low negative
    exact propext ⟨fun _ => by omega, fun _ => by omega⟩
  · rw [toSizeT_of_nonneg nonneg (by omega)]
    exact propext ⟨fun enough => ⟨nonneg, enough⟩, And.right⟩

theorem isAvailable_of_overflow {size : Int} (high : 2 ^ 63 ≤ s.position + size) :
    s.isAvailable size = none := by
  rw [isAvailable, addInt64_of_overflow high, Option.map_none]

/-! What `read` does with the answer of `is_available`. -/

theorem read_of_undefined {size : UInt64} (sum : s.isAvailable (toInt64 size.toNat) = none) :
    s.read size = { stream := s, result := .undefined } := by
  rw [read, sum]

theorem read_of_unavailable {size : UInt64}
    (refused : s.isAvailable (toInt64 size.toNat) = some false) :
    s.read size = { stream := s, result := .failed } := by
  rw [read, refused]

theorem read_of_available {size : UInt64} (some_bytes : 0 < size.toNat)
    (available : s.isAvailable (toInt64 size.toNat) = some true) :
    s.read size = s.access ⟨s.position, size.toNat⟩ (toInt64 (s.position + size.toNat)) := by
  rw [read, available]
  exact if_pos some_bytes

theorem read_zero {size : UInt64} (none : size.toNat = 0)
    (available : s.isAvailable (toInt64 size.toNat) = some true) :
    s.read size = { stream := s, result := .succeeded } := by
  rw [read, available]
  exact if_neg (by omega)

/-- A size below 2^63 is measured as it is. -/
theorem keeps_read_of_small {size : UInt64} (range : streams.InRange s)
    (small : size.toNat < 2 ^ 63) :
    streams.Keeps s (.read size) ↔ s.position + size.toNat < 2 ^ 63 := by
  have fits := s.fits
  have nonneg : 0 ≤ s.position := range.1
  have upto : s.position ≤ s.buffer.length := range.2
  have same : toInt64 size.toNat = size.toNat := toInt64_of_small (by omega) (by omega)
  rcases Int.lt_or_le (s.position + size.toNat) (2 ^ 63) with sum | overflow
  · refine iff_of_true ?_ sum
    have answer := @isAvailable_of_fits s size.toNat (by omega) sum
    rw [← same] at answer
    by_cases enough : s.position + size.toNat ≤ s.buffer.length
    · rw [same, decide_eq_true ⟨by omega, enough⟩, ← same] at answer
      rcases Nat.eq_zero_or_pos size.toNat with zero | positive
      · exact (MemoryStream.keeps_iff_of_succeeded (read_zero zero answer)).mpr ⟨range, nofun⟩
      · refine (MemoryStream.keeps_iff_of_succeeded (read_of_available positive answer)).mpr ?_
        rw [toInt64_of_small (by omega) sum]
        refine ⟨⟨?_, enough⟩, ?_⟩
        · exact Int.add_nonneg nonneg (Int.natCast_nonneg _)
        · intro block member
          rw [List.mem_singleton.mp member]
          exact ⟨nonneg, enough⟩
    · rw [same, decide_eq_false (fun both => enough both.2), ← same] at answer
      exact MemoryStream.keeps_of_failed range (read_of_unavailable answer)
  · refine iff_of_false ?_ (not_lt.mpr overflow)
    refine MemoryStream.not_keeps_of_undefined (read_of_undefined ?_)
    rw [same]
    exact isAvailable_of_overflow overflow

/-- A size from 2^63 on is measured as a negative number. -/
theorem keeps_read_of_large {size : UInt64} (range : streams.InRange s)
    (large : 2 ^ 63 ≤ size.toNat) :
    streams.Keeps s (.read size) ↔ s.position + size.toNat < 2 ^ 64 := by
  have fits := s.fits
  have nonneg : 0 ≤ s.position := range.1
  have upto : s.position ≤ s.buffer.length := range.2
  have word := size.toNat_lt
  have measured : toInt64 size.toNat = size.toNat - 2 ^ 64 :=
    toInt64_of_large (by omega) (by omega)
  have answer := @isAvailable_of_fits s (toInt64 size.toNat) (by omega) (by omega)
  rcases Int.lt_or_le (s.position + size.toNat) (2 ^ 64) with before | inside
  · refine iff_of_true ?_ before
    rw [decide_eq_false (by omega)] at answer
    exact MemoryStream.keeps_of_failed range (read_of_unavailable answer)
  · refine iff_of_false ?_ (not_lt.mpr inside)
    intro keeps
    rw [decide_eq_true (by omega)] at answer
    have succeeded := read_of_available (by omega) answer
    have blocks := ((MemoryStream.keeps_iff_of_succeeded succeeded).mp keeps).2
    have whole : s.position + size.toNat ≤ s.buffer.length :=
      (blocks _ (List.mem_singleton_self _)).2
    omega

theorem keeps_readByte_iff (range : streams.InRange s) :
    streams.Keeps s .readByte ↔ s.position + 1 < 2 ^ 63 := by
  have nonneg : 0 ≤ s.position := range.1
  rcases Int.lt_or_le (s.position + 1) (2 ^ 63) with sum | overflow
  · refine iff_of_true ?_ sum
    have answer := @isAvailable_of_fits s 1 (by omega) sum
    by_cases enough : s.position + 1 ≤ s.buffer.length
    · rw [decide_eq_true ⟨by omega, enough⟩] at answer
      have read : streams.perform s .readByte = s.access ⟨s.position, 1⟩ (s.position + 1) := by
        change s.readByte = _
        rw [readByte, answer]
      refine (MemoryStream.keeps_iff_of_succeeded read).mpr ⟨⟨?_, enough⟩, ?_⟩
      · exact Int.add_nonneg nonneg one_pos.le
      · intro block member
        rw [List.mem_singleton.mp member]
        exact ⟨nonneg, enough⟩
    · rw [decide_eq_false (fun both => enough both.2)] at answer
      refine MemoryStream.keeps_of_failed range ?_
      change s.readByte = _
      rw [readByte, answer]
  · refine iff_of_false ?_ (not_lt.mpr overflow)
    refine MemoryStream.not_keeps_of_undefined ?_
    change s.readByte = _
    rw [readByte, isAvailable_of_overflow overflow]

theorem keeps_peekByte (range : streams.InRange s) : streams.Keeps s .peekByte := by
  have nonneg : 0 ≤ s.position := range.1
  have upto : s.position ≤ s.buffer.length := range.2
  have fits := s.fits
  have peeked : s.peekByte = if s.buffer.length ≤ s.position then
      { stream := s, result := .failed } else s.access ⟨s.position, 1⟩ s.position := by
    rw [peekByte, toSizeT_of_nonneg nonneg (by omega)]
  by_cases spent : (s.buffer.length : Int) ≤ s.position
  · rw [if_pos spent] at peeked
    exact MemoryStream.keeps_of_failed range peeked
  · rw [if_neg spent] at peeked
    refine (MemoryStream.keeps_iff_of_succeeded peeked).mpr ⟨range, ?_⟩
    intro block member
    rw [List.mem_singleton.mp member]
    exact ⟨nonneg, by change s.position + 1 ≤ s.buffer.length; omega⟩

theorem keeps_skip_iff (size : Int64) (range : streams.InRange s) :
    streams.Keeps s (.skip size) ↔ s.position + size.toInt < 2 ^ 63 := by
  have nonneg : 0 ≤ s.position := range.1
  have word := size.le_toInt
  rcases Int.lt_or_le (s.position + size.toInt) (2 ^ 63) with sum | overflow
  · refine iff_of_true ?_ sum
    have answer := @isAvailable_of_fits s size.toInt (by omega) sum
    by_cases enough : 0 ≤ s.position + size.toInt ∧ s.position + size.toInt ≤ s.buffer.length
    · rw [decide_eq_true enough] at answer
      have skipped : streams.perform s (.skip size) =
          { stream := { s with position := s.position + size.toInt }, result := .succeeded } := by
        change s.skip size = _
        rw [skip, answer]
      exact (MemoryStream.keeps_iff_of_succeeded skipped).mpr ⟨enough, nofun⟩
    · rw [decide_eq_false enough] at answer
      refine MemoryStream.keeps_of_failed range ?_
      change s.skip size = _
      rw [skip, answer]
  · refine iff_of_false ?_ (not_lt.mpr overflow)
    refine MemoryStream.not_keeps_of_undefined ?_
    change s.skip size = _
    rw [skip, isAvailable_of_overflow overflow]

theorem keeps_seek (pos : Int64) (range : streams.InRange s) : streams.Keeps s (.seek pos) := by
  have fits := s.fits
  have low := pos.le_toInt
  have high := pos.toInt_lt
  by_cases behind : (s.buffer.length : Int) < toSizeT pos.toInt
  · refine MemoryStream.keeps_of_failed range ?_
    change s.seek pos = _
    rw [seek, if_pos behind]
  · have nonneg : 0 ≤ pos.toInt := by
      by_contra negative
      have far := toSizeT_of_neg low (not_le.mp negative)
      omega
    rw [toSizeT_of_nonneg nonneg (by omega)] at behind
    have sought : streams.perform s (.seek pos) =
        { stream := { s with position := pos.toInt }, result := .succeeded } := by
      change s.seek pos = _
      rw [seek, toSizeT_of_nonneg nonneg (by omega), if_neg behind]
    exact (MemoryStream.keeps_iff_of_succeeded sought).mpr ⟨⟨nonneg, not_lt.mp behind⟩, nofun⟩

theorem keeps_iff_allowed (s : MemoryInputStream) (operation : Operation)
    (range : streams.InRange s) : streams.Keeps s operation ↔ s.Allowed operation := by
  cases operation with
  | read size =>
      have nonneg : 0 ≤ s.position := range.1
      rcases Nat.lt_or_ge size.toNat (2 ^ 63) with small | large
      · rw [keeps_read_of_small range small, Allowed]
        omega
      · rw [keeps_read_of_large range large, Allowed]
        omega
  | readByte => exact keeps_readByte_iff range
  | peekByte => exact iff_of_true (keeps_peekByte range) trivial
  | skip size => exact keeps_skip_iff size range
  | seek pos => exact iff_of_true (keeps_seek pos range) trivial

/-- What is left to be read. -/
def rest (s : MemoryInputStream) : Bytes := s.buffer.drop s.position.toNat

/-- **What a read delivers** is the beginning of what is left, and the remainder is left. -/
theorem read_of_le_rest {size : UInt64} (range : streams.InRange s)
    (enough : size.toNat ≤ s.rest.length) :
    (s.read size).result = .succeeded ∧ (s.read size).bytes = s.rest.take size.toNat ∧
      (s.read size).stream.rest = s.rest.drop size.toNat := by
  have fits := s.fits
  have nonneg : 0 ≤ s.position := range.1
  have upto : s.position ≤ s.buffer.length := range.2
  rw [rest, List.length_drop] at enough
  have same : toInt64 size.toNat = size.toNat := toInt64_of_small (by omega) (by omega)
  have answer := @isAvailable_of_fits s (toInt64 size.toNat) (by omega) (by omega)
  rw [decide_eq_true (by omega)] at answer
  rcases Nat.eq_zero_or_pos size.toNat with zero | positive
  · rw [read_zero zero answer, zero]
    exact ⟨rfl, rfl, rfl⟩
  · rw [read_of_available positive answer]
    refine ⟨rfl, if_neg (not_lt.mpr nonneg), ?_⟩
    change s.buffer.drop (toInt64 (s.position + size.toNat)).toNat = _
    have moved : (s.position + size.toNat).toNat = s.position.toNat + size.toNat := by omega
    rw [toInt64_of_small (by omega) (by omega), rest, List.drop_drop, moved]

end MemoryInputStream

/-! ## The output stream stays in bounds -/

namespace MemoryOutputStream

variable {s : MemoryOutputStream}

/-- `memory_output_stream` with its operations. -/
def streams : MemoryStream MemoryOutputStream Operation where
  size s := s.buffer.length
  position := MemoryOutputStream.position
  perform := perform
  size_perform s operation := by
    cases operation with
    | writeBytes data size _ =>
        rw [perform, writeBytes]
        split <;> [rfl; rfl; (split <;> [exact length_place ..; rfl])]
    | writeByte val => rw [perform, writeByte]; split <;> [rfl; rfl; exact length_place ..]
    | seek pos => rw [perform, seek]; split <;> rfl

/-- **What is copied inside the buffer** takes the place of as many bytes. -/
theorem place_inside (before old after data : Bytes) (same : old.length = data.length) :
    place (before ++ old ++ after) before.length data = before ++ data ++ after := by
  refine List.ext_getElem? ?_
  intro i
  rw [place, List.getElem?_mapIdx]
  rcases Nat.lt_or_ge i before.length with early | late
  · rw [List.append_assoc, List.append_assoc, List.getElem?_append_left early,
      List.getElem?_append_left early, List.getElem?_eq_getElem early, Option.map_some,
      if_pos (by omega)]
  · obtain ⟨j, rfl⟩ := Nat.exists_eq_add_of_le late
    have offset : ((before.length + j : Nat) - (before.length : Int)).toNat = j := by omega
    rw [List.append_assoc, List.append_assoc, List.getElem?_append_right late,
      List.getElem?_append_right late, Nat.add_sub_cancel_left]
    simp only [if_neg (show ¬ ((before.length + j : Nat) : Int) < before.length by omega), offset]
    rcases Nat.lt_or_ge j data.length with inside | behind
    · rw [List.getElem?_append_left inside, List.getElem?_append_left (same ▸ inside),
        List.getElem?_eq_getElem inside, List.getElem?_eq_getElem (same ▸ inside)]
      rfl
    · rw [List.getElem?_append_right behind, List.getElem?_append_right (same ▸ behind), same,
        List.getElem?_eq_none behind]
      exact Option.map_id'

/-- The target of a `seek` is not before the beginning of the buffer. -/
def Allowed : Operation → Prop
  | .writeBytes _ _ _ => True
  | .writeByte _ => True
  | .seek pos => 0 ≤ pos.toInt

theorem isAvailable_of_inRange (range : streams.InRange s) {size : Int} (low : -2 ^ 31 ≤ size)
    (high : size < 2 ^ 31) :
    s.isAvailable size = some (decide (s.position + size ≤ s.buffer.length)) := by
  have fits := s.fits
  have nonneg : 0 ≤ s.position := range.1
  have upto : s.position ≤ s.buffer.length := range.2
  rw [isAvailable, addInt64_of_fits (by omega) (by omega), Option.map_some]

/-- What is available can be copied. -/
theorem keeps_of_put {operation : Operation} {data : Bytes} (range : streams.InRange s)
    (enough : s.position + data.length ≤ s.buffer.length)
    (copied : streams.perform s operation = s.put data) : streams.Keeps s operation := by
  have nonneg : 0 ≤ s.position := range.1
  refine (MemoryStream.keeps_iff_of_succeeded copied).mpr ⟨⟨?_, ?_⟩, ?_⟩
  · exact Int.add_nonneg nonneg (Int.natCast_nonneg _)
  · change s.position + data.length ≤ (place s.buffer s.position data).length
    rwa [length_place]
  · intro block member
    rw [List.mem_singleton.mp member]
    exact ⟨nonneg, enough⟩

theorem keeps_writeBytes {data : Bytes} {size : Int32} (enough : size.toInt ≤ data.length)
    (range : streams.InRange s) : streams.Keeps s (.writeBytes data size enough) := by
  have answer := isAvailable_of_inRange range size.le_toInt size.toInt_lt
  by_cases room : s.position + size.toInt ≤ s.buffer.length
  · rw [decide_eq_true room] at answer
    by_cases positive : 0 < size.toInt
    · have length : ((data.take size.toInt.toNat).length : Int) = size.toInt := by
        rw [List.length_take_of_le (by omega)]
        omega
      have available : s.position + (data.take size.toInt.toNat).length ≤ s.buffer.length := by
        rwa [length]
      refine keeps_of_put range available ?_
      change s.writeBytes data size = _
      rw [writeBytes, answer]
      exact if_pos positive
    · have nothing : streams.perform s (.writeBytes data size enough) =
          { stream := s, result := .succeeded } := by
        change s.writeBytes data size = _
        rw [writeBytes, answer]
        exact if_neg positive
      exact (MemoryStream.keeps_iff_of_succeeded nothing).mpr ⟨range, nofun⟩
  · rw [decide_eq_false room] at answer
    refine MemoryStream.keeps_of_failed range ?_
    change s.writeBytes data size = _
    rw [writeBytes, answer]

theorem keeps_writeByte (val : UInt8) (range : streams.InRange s) :
    streams.Keeps s (.writeByte val) := by
  have answer := @isAvailable_of_inRange s range 1 (by decide) (by decide)
  by_cases room : s.position + 1 ≤ s.buffer.length
  · rw [decide_eq_true room] at answer
    refine @keeps_of_put s _ [val] range room ?_
    change s.writeByte val = _
    rw [writeByte, answer]
  · rw [decide_eq_false room] at answer
    refine MemoryStream.keeps_of_failed range ?_
    change s.writeByte val = _
    rw [writeByte, answer]

theorem keeps_seek_iff (pos : Int64) (range : streams.InRange s) :
    streams.Keeps s (.seek pos) ↔ 0 ≤ pos.toInt := by
  by_cases behind : (s.buffer.length : Int) ≤ pos.toInt
  · refine iff_of_true (MemoryStream.keeps_of_failed range ?_) (by omega)
    change s.seek pos = _
    rw [seek, if_pos behind]
  · have sought : streams.perform s (.seek pos) =
        { stream := { s with position := pos.toInt }, result := .succeeded } := by
      change s.seek pos = _
      rw [seek, if_neg behind]
    rw [MemoryStream.keeps_iff_of_succeeded sought]
    constructor
    · intro kept
      exact kept.1.1
    · intro nonneg
      exact ⟨⟨nonneg, (not_le.mp behind).le⟩, nofun⟩

theorem keeps_iff_allowed (s : MemoryOutputStream) (operation : Operation)
    (range : streams.InRange s) : streams.Keeps s operation ↔ Allowed operation := by
  cases operation with
  | writeBytes data size enough => exact iff_of_true (keeps_writeBytes enough range) trivial
  | writeByte val => exact iff_of_true (keeps_writeByte val range) trivial
  | seek pos => exact keeps_seek_iff pos range

end MemoryOutputStream

/-! ## Both streams -/

/-- **A run over memory stays in bounds exactly when all its operations are allowed.** -/
theorem memoryStreams_inBounds_iff (input output : Bytes) (inputFits : input.length < 2 ^ 63)
    (outputFits : output.length < 2 ^ 31) (reads : List MemoryInputStream.Operation)
    (writes : List MemoryOutputStream.Operation) :
    (Foundation.Throughout MemoryInputStream.streams.step MemoryInputStream.streams.InBounds
        { stream := .attachBuffer input inputFits } reads ↔
      Foundation.Guarded MemoryInputStream.streams.step (fun run => run.stream.Allowed)
        { stream := .attachBuffer input inputFits } reads) ∧
    (Foundation.Throughout MemoryOutputStream.streams.step MemoryOutputStream.streams.InBounds
        { stream := .create output outputFits } writes ↔
      ∀ operation ∈ writes, MemoryOutputStream.Allowed operation) := by
  constructor
  · have start : MemoryInputStream.streams.InRange (.attachBuffer input inputFits) :=
      ⟨le_rfl, Int.natCast_nonneg _⟩
    exact MemoryStream.throughout_inBounds_iff MemoryInputStream.keeps_iff_allowed start reads
  · have start : MemoryOutputStream.streams.InRange (.create output outputFits) :=
      ⟨le_rfl, Int.natCast_nonneg _⟩
    refine (MemoryStream.throughout_inBounds_iff MemoryOutputStream.keeps_iff_allowed start
      writes).trans ?_
    exact Foundation.guarded_iff_forall fun run operation => ⟨_, rfl⟩

/-- A run that reads, skips back and seeks, and one that writes until nothing fits. -/
theorem memoryStreams_inBounds_iff_example :
    Foundation.Throughout MemoryInputStream.streams.step MemoryInputStream.streams.InBounds
        { stream := .attachBuffer [1, 2, 3] (by decide) } [.read 2, .skip (-1), .seek (-5)] ∧
      Foundation.Throughout MemoryOutputStream.streams.step MemoryOutputStream.streams.InBounds
        { stream := .create [0, 0] (by decide) }
        [.writeBytes [7, 8] 2 (by decide), .writeByte 9, .seek 1] := by
  obtain ⟨reading, writing⟩ := memoryStreams_inBounds_iff [1, 2, 3] [0, 0] (by decide) (by decide)
    [.read 2, .skip (-1), .seek (-5)] [.writeBytes [7, 8] 2 (by decide), .writeByte 9, .seek 1]
  refine ⟨reading.mpr ?_, writing.mpr ?_⟩
  · rintro first ⟨⟩
    refine ⟨.inl (by decide), ?_⟩
    rintro second ⟨⟩
    refine ⟨by change _ < _; decide, ?_⟩
    rintro third ⟨⟩
    exact ⟨trivial, trivial⟩
  · rw [List.forall_mem_cons, List.forall_mem_cons, List.forall_mem_singleton]
    exact ⟨trivial, trivial, by change _ ≤ _; decide⟩

/-- The output stream accepts a target before the beginning of its buffer, and after the
first byte the input stream copies 2^64 - 1 bytes when it is asked for them. -/
theorem seek_before_beginning_and_read_past_end :
    ¬ Foundation.Throughout MemoryOutputStream.streams.step MemoryOutputStream.streams.InBounds
        { stream := .create [0, 0] (by decide) } [.seek (-1)] ∧
      ¬ Foundation.Throughout MemoryInputStream.streams.step MemoryInputStream.streams.InBounds
        { stream := .attachBuffer [1, 2, 3] (by decide) } [.readByte, .read (2 ^ 64 - 1)] := by
  constructor
  · intro throughout
    have sought := (throughout.2 _ rfl).head
    exact absurd sought.1.1 (by decide)
  · intro throughout
    have later := ((throughout.2 _ rfl).2 _ rfl).head
    have sound := later.2 ⟨1, 0, .succeeded, [⟨1, 2 ^ 64 - 1⟩]⟩ (by decide +kernel)
    exact absurd (sound.2.1 ⟨1, 2 ^ 64 - 1⟩ (by decide +kernel)) (by decide +kernel)

end Xul
