import Xul.Data.ByteOrder
import Xul.Io.DataInputStream

/-!
# Variables on data streams

`data_input_stream` reads integers into variables, and `data_output_stream` writes them.  An
integer of more bytes is read into a local variable first, so that its destination stays as it
is when bytes are missing; a single byte is assigned before it is looked at whether there was
one (`Field.extract_of_missing`).
-/

set_option autoImplicit false

namespace Xul

open Foundation

/-- What an extraction returns, and leaves in its destination and of the stream. -/
structure Extracted (α : Type) where
  ret : Bool
  val : α
  stream : DataInputStream
deriving DecidableEq

/-- A destination that is seen as another type. -/
def Extracted.map {α β : Type} (f : α → β) (extracted : Extracted α) : Extracted β :=
  ⟨extracted.ret, f extracted.val, extracted.stream⟩

namespace DataInputStream

/-- `read_byte` of a variable: where there is no byte it is assigned -1. -/
def readByteInto (val : UInt8) (s : DataInputStream) : Extracted UInt8 :=
  if s.good then
    match s.readByte with
    | (some ch, s) => ⟨true, ch, s⟩
    | (none, s) => ⟨false, 0xFF, s⟩
  else ⟨false, val, s⟩

/-- `read_memory` of a local integer, which is converted and assigned. -/
def readMemoryInto {α : Type} (size : Nat) (convert : Nat → α) (val : α) (s : DataInputStream) :
    Extracted α :=
  match s.readN size with
  | (none, s) => ⟨false, val, s⟩
  | (some x, s) => ⟨true, convert (littleEndian x), s⟩

def readUint8Into : UInt8 → DataInputStream → Extracted UInt8 := readByteInto

def readUint16Into (order : ByteOrder) : UInt16 → DataInputStream → Extracted UInt16 :=
  readMemoryInto 2 fun x => order.convertWord (UInt16.ofNat x)

def readUint32Into (order : ByteOrder) : UInt32 → DataInputStream → Extracted UInt32 :=
  readMemoryInto 4 fun x => order.convertDword (UInt32.ofNat x)

def readUint64Into (order : ByteOrder) : UInt64 → DataInputStream → Extracted UInt64 :=
  readMemoryInto 8 fun x => order.convertQword (UInt64.ofNat x)

def readInt8Into (val : Int8) (s : DataInputStream) : Extracted Int8 :=
  (readUint8Into val.toUInt8 s).map UInt8.toInt8

def readInt16Into (order : ByteOrder) (val : Int16) (s : DataInputStream) : Extracted Int16 :=
  (readUint16Into order val.toUInt16 s).map UInt16.toInt16

def readInt32Into (order : ByteOrder) (val : Int32) (s : DataInputStream) : Extracted Int32 :=
  (readUint32Into order val.toUInt32 s).map UInt32.toInt32

def readInt64Into (order : ByteOrder) (val : Int64) (s : DataInputStream) : Extracted Int64 :=
  (readUint64Into order val.toUInt64 s).map UInt64.toInt64

/-- `read_bool`: the byte is read into a local variable, which has no value before. -/
def readBoolInto (val : Bool) (s : DataInputStream) : Extracted Bool :=
  let read := readByteInto 0 s
  if read.ret then ⟨true, read.val ≠ 0, read.stream⟩ else ⟨false, val, read.stream⟩

end DataInputStream

/-! ## The output -/

namespace DataOutputStream

/-- `write_bytes`, through the `int` that an output stream takes as a size. -/
def writeBytes (buf : Bytes) : Bytes :=
  let size := toInt buf.length
  if 0 < size then buf.take size.toNat else []

def writeByte (val : UInt8) : Bytes := [val]

def writeUint8 : UInt8 → Bytes := writeByte

def writeUint16 (order : ByteOrder) (val : UInt16) : Bytes :=
  writeBytes (bytesOf 2 (order.convertWord val).toNat)

def writeUint32 (order : ByteOrder) (val : UInt32) : Bytes :=
  writeBytes (bytesOf 4 (order.convertDword val).toNat)

def writeUint64 (order : ByteOrder) (val : UInt64) : Bytes :=
  writeBytes (bytesOf 8 (order.convertQword val).toNat)

def writeInt8 (val : Int8) : Bytes := writeUint8 val.toUInt8

def writeInt16 (order : ByteOrder) (val : Int16) : Bytes := writeUint16 order val.toUInt16

def writeInt32 (order : ByteOrder) (val : Int32) : Bytes := writeUint32 order val.toUInt32

def writeInt64 (order : ByteOrder) (val : Int64) : Bytes := writeUint64 order val.toUInt64

def writeBool (val : Bool) : Bytes := writeByte (if val then 1 else 0)

theorem writeBytes_of_small {buf : Bytes} (small : buf.length < 2 ^ 31) : writeBytes buf = buf := by
  rw [writeBytes]
  simp only [toInt_natCast small]
  split
  · rw [Int.toNat_natCast, List.take_length]
  · exact (List.eq_nil_of_length_eq_zero (by omega)).symm

theorem writeBytes_bytesOf {size : Nat} (small : size < 2 ^ 31) (value : Nat) :
    writeBytes (bytesOf size value) = bytesOf size value :=
  writeBytes_of_small (by rwa [length_bytesOf])

/-- What is written of a block that is too long for an `int` is not all of it. -/
theorem length_writeBytes_lt {buf : Bytes} (large : 2 ^ 31 ≤ buf.length) :
    (writeBytes buf).length < buf.length := by
  have small := toInt_lt buf.length
  rw [writeBytes]
  split
  · rw [List.length_take]
    omega
  · rw [List.length_nil]
    omega

end DataOutputStream

/-! ## Variables -/

/-- A variable of one of the types that the streams have operators for, with its value. -/
inductive Field
  | int8 (val : Int8)
  | uint8 (val : UInt8)
  | int16 (val : Int16)
  | uint16 (val : UInt16)
  | int32 (val : Int32)
  | uint32 (val : UInt32)
  | int64 (val : Int64)
  | uint64 (val : UInt64)
  | bool (val : Bool)
deriving DecidableEq

namespace Field

open DataInputStream DataOutputStream

/-- `operator>>` -/
def extract (order : ByteOrder) : Field → DataInputStream → Extracted Field
  | .int8 val, s => (readInt8Into val s).map .int8
  | .uint8 val, s => (readUint8Into val s).map .uint8
  | .int16 val, s => (readInt16Into order val s).map .int16
  | .uint16 val, s => (readUint16Into order val s).map .uint16
  | .int32 val, s => (readInt32Into order val s).map .int32
  | .uint32 val, s => (readUint32Into order val s).map .uint32
  | .int64 val, s => (readInt64Into order val s).map .int64
  | .uint64 val, s => (readUint64Into order val s).map .uint64
  | .bool val, s => (readBoolInto val s).map .bool

/-- `operator<<` -/
def insert (order : ByteOrder) : Field → Bytes
  | .int8 val => writeInt8 val
  | .uint8 val => writeUint8 val
  | .int16 val => writeInt16 order val
  | .uint16 val => writeUint16 order val
  | .int32 val => writeInt32 order val
  | .uint32 val => writeUint32 order val
  | .int64 val => writeInt64 order val
  | .uint64 val => writeUint64 order val
  | .bool val => writeBool val

/-- The number of bytes of a variable in a stream. -/
def size : Field → Nat
  | .int8 _ | .uint8 _ | .bool _ => 1
  | .int16 _ | .uint16 _ => 2
  | .int32 _ | .uint32 _ => 4
  | .int64 _ | .uint64 _ => 8

/-- What an extraction leaves in a variable when there is no byte for it. -/
def lost : Field → Field
  | .int8 _ => .int8 (-1)
  | .uint8 _ => .uint8 0xFF
  | field => field

/-- Two variables are of the same type. -/
def SameType : Field → Field → Prop
  | .int8 _, .int8 _ | .uint8 _, .uint8 _ | .int16 _, .int16 _ | .uint16 _, .uint16 _
  | .int32 _, .int32 _ | .uint32 _, .uint32 _ | .int64 _, .int64 _ | .uint64 _, .uint64 _
  | .bool _, .bool _ => True
  | _, _ => False

/-- What the bytes of a variable are read as. -/
def ofBytes (order : ByteOrder) (block : Bytes) : Field → Field
  | .int8 _ => .int8 (UInt8.ofNat (littleEndian block)).toInt8
  | .uint8 _ => .uint8 (UInt8.ofNat (littleEndian block))
  | .int16 _ => .int16 (order.convertWord (UInt16.ofNat (littleEndian block))).toInt16
  | .uint16 _ => .uint16 (order.convertWord (UInt16.ofNat (littleEndian block)))
  | .int32 _ => .int32 (order.convertDword (UInt32.ofNat (littleEndian block))).toInt32
  | .uint32 _ => .uint32 (order.convertDword (UInt32.ofNat (littleEndian block)))
  | .int64 _ => .int64 (order.convertQword (UInt64.ofNat (littleEndian block))).toInt64
  | .uint64 _ => .uint64 (order.convertQword (UInt64.ofNat (littleEndian block)))
  | .bool _ => .bool (UInt8.ofNat (littleEndian block) ≠ 0)

theorem size_pos (field : Field) : 0 < field.size := by
  cases field <;> exact Nat.succ_pos _

end Field

/-! ## What an extraction does -/

namespace DataInputStream

variable {α β : Type}

/-- What reading does that takes `size` bytes: it assigns what they are when they are all there,
leaves the stream bad when they are not, and does nothing with a bad stream. -/
structure Reads (read : α → DataInputStream → Extracted α) (size : Nat) (lost : α → α)
    (value : Bytes → α) : Prop where
  of_fits : ∀ {s : DataInputStream} (val : α), s.good = true → size ≤ s.rest.length →
    read val s = ⟨true, value (s.rest.take size), { s with rest := s.rest.drop size }⟩
  of_missing : ∀ {s : DataInputStream} (val : α), s.good = true → s.rest.length < size →
    read val s = ⟨false, lost val, s.setBad⟩
  of_bad : ∀ {s : DataInputStream} (val : α), s.good = false → read val s = ⟨false, val, s⟩

/-- A destination that is seen as another type is read and lost as that type. -/
theorem Reads.reinterpret {read : α → DataInputStream → Extracted α} {size : Nat} {lost : α → α}
    {value : Bytes → α} (reads : Reads read size lost value) {seen : α → β} {raw : β → α}
    (back : ∀ val, seen (raw val) = val) :
    Reads (fun val s => (read (raw val) s).map seen) size (fun val => seen (lost (raw val)))
      (fun block => seen (value block)) where
  of_fits val good fits := by rw [reads.of_fits (raw val) good fits]; rfl
  of_missing val good missing := by rw [reads.of_missing (raw val) good missing]; rfl
  of_bad val bad := by rw [reads.of_bad (raw val) bad, Extracted.map, back]

theorem reads_byte :
    Reads readByteInto 1 (fun _ => 0xFF) (fun block => UInt8.ofNat (littleEndian block)) where
  of_fits {s} val good fits := by
    obtain ⟨flag, rest⟩ := s
    obtain rfl : flag = true := good
    cases rest with
    | nil => exact absurd fits (Nat.not_succ_le_zero 0)
    | cons byte rest =>
        simp only [List.take_succ_cons, List.take_zero, ofNat_littleEndian_singleton]
        rfl
  of_missing {s} val good missing := by
    obtain ⟨flag, rest⟩ := s
    obtain rfl : flag = true := good
    obtain rfl : rest = [] := List.eq_nil_of_length_eq_zero (Nat.lt_one_iff.mp missing)
    rfl
  of_bad {s} val bad := by
    rw [readByteInto, bad]
    rfl

theorem reads_memory {size : Nat} (positive : 0 < size) (convert : Nat → α) :
    Reads (readMemoryInto size convert) size (fun val => val)
      (fun block => convert (littleEndian block)) where
  of_fits val good fits := by
    rw [readMemoryInto, readN, if_pos good, if_neg positive.ne', if_pos fits]
  of_missing val good missing := by
    rw [readMemoryInto, readN, if_pos good, if_neg positive.ne', if_neg (not_le.mpr missing)]
  of_bad val bad := by
    rw [readMemoryInto, readN, bad, if_neg Bool.false_ne_true]

theorem reads_bool :
    Reads readBoolInto 1 (fun val => val)
      (fun block => UInt8.ofNat (littleEndian block) ≠ 0) where
  of_fits val good fits := by rw [readBoolInto, reads_byte.of_fits 0 good fits]; rfl
  of_missing val good missing := by rw [readBoolInto, reads_byte.of_missing 0 good missing]; rfl
  of_bad val bad := by rw [readBoolInto, reads_byte.of_bad 0 bad]; rfl

end DataInputStream

namespace Field

open DataInputStream DataOutputStream

variable {order : ByteOrder}

/-- Extractions into the variables of a type are all of one kind. -/
theorem reads_extract (field : Field) :
    ∃ (α : Type) (val : α) (name : α → Field) (read : α → DataInputStream → Extracted α)
      (lost : α → α) (value : Bytes → α), Reads read field.size lost value ∧
      field = name val ∧ (∀ s, field.extract order s = (read val s).map name) ∧
      name (lost val) = field.lost ∧ ∀ block, name (value block) = field.ofBytes order block := by
  cases field with
  | int8 val =>
      exact ⟨_, val, _, _, _, _, reads_byte.reinterpret fun val => val.toInt8_toUInt8, rfl,
        fun s => rfl, rfl, fun block => rfl⟩
  | uint8 val =>
      exact ⟨_, val, _, _, _, _, reads_byte, rfl, fun s => rfl, rfl, fun block => rfl⟩
  | int16 val =>
      exact ⟨_, val, _, _, _, _, (reads_memory (Nat.succ_pos 1) _).reinterpret fun val =>
        val.toInt16_toUInt16, rfl, fun s => rfl, congrArg _ val.toInt16_toUInt16, fun block => rfl⟩
  | uint16 val =>
      exact ⟨_, val, _, _, _, _, reads_memory (Nat.succ_pos 1) _, rfl, fun s => rfl, rfl,
        fun block => rfl⟩
  | int32 val =>
      exact ⟨_, val, _, _, _, _, (reads_memory (Nat.succ_pos 3) _).reinterpret fun val =>
        val.toInt32_toUInt32, rfl, fun s => rfl, congrArg _ val.toInt32_toUInt32, fun block => rfl⟩
  | uint32 val =>
      exact ⟨_, val, _, _, _, _, reads_memory (Nat.succ_pos 3) _, rfl, fun s => rfl, rfl,
        fun block => rfl⟩
  | int64 val =>
      exact ⟨_, val, _, _, _, _, (reads_memory (Nat.succ_pos 7) _).reinterpret fun val =>
        val.toInt64_toUInt64, rfl, fun s => rfl, congrArg _ val.toInt64_toUInt64, fun block => rfl⟩
  | uint64 val =>
      exact ⟨_, val, _, _, _, _, reads_memory (Nat.succ_pos 7) _, rfl, fun s => rfl, rfl,
        fun block => rfl⟩
  | bool val =>
      exact ⟨_, val, _, _, _, _, reads_bool, rfl, fun s => rfl, rfl, fun block => rfl⟩

theorem extract_of_fits {s : DataInputStream} (field : Field) (good : s.good = true)
    (fits : field.size ≤ s.rest.length) :
    field.extract order s = ⟨true, field.ofBytes order (s.rest.take field.size),
      { s with rest := s.rest.drop field.size }⟩ := by
  obtain ⟨_, val, name, read, _, _, reads, -, same, -, value⟩ := @reads_extract order field
  rw [same, reads.of_fits val good fits, Extracted.map, value]

theorem extract_of_missing {s : DataInputStream} (field : Field) (good : s.good = true)
    (missing : s.rest.length < field.size) :
    field.extract order s = ⟨false, field.lost, s.setBad⟩ := by
  obtain ⟨_, val, name, read, _, _, reads, -, same, lost, -⟩ := @reads_extract order field
  rw [same, reads.of_missing val good missing, Extracted.map, lost]

theorem extract_of_bad {s : DataInputStream} (field : Field) (bad : s.good = false) :
    field.extract order s = ⟨false, field, s⟩ := by
  obtain ⟨_, val, name, read, _, _, reads, isField, same, -, -⟩ :=
    @reads_extract order field
  rw [same, reads.of_bad val bad, Extracted.map, ← isField]

/-! ## What was written -/

theorem SameType.size_eq {field other : Field} (same : field.SameType other) :
    field.size = other.size := by
  cases field <;> cases other <;> first | rfl | exact same.elim

@[simp] theorem length_insert (order : ByteOrder) (field : Field) :
    (field.insert order).length = field.size := by
  have memory : ∀ size < 2 ^ 31, ∀ value, (writeBytes (bytesOf size value)).length = size := by
    intro size small value
    rw [writeBytes_bytesOf small, length_bytesOf]
  cases field with
  | int8 | uint8 | bool => rfl
  | int16 => rw [insert, writeInt16, writeUint16, memory 2 (by omega), size]
  | uint16 => rw [insert, writeUint16, memory 2 (by omega), size]
  | int32 => rw [insert, writeInt32, writeUint32, memory 4 (by omega), size]
  | uint32 => rw [insert, writeUint32, memory 4 (by omega), size]
  | int64 => rw [insert, writeInt64, writeUint64, memory 8 (by omega), size]
  | uint64 => rw [insert, writeUint64, memory 8 (by omega), size]

theorem convertWord_writeUint16 (val : UInt16) :
    order.convertWord (UInt16.ofNat (littleEndian (writeUint16 order val))) = val := by
  rw [writeUint16, writeBytes_bytesOf (by omega), @littleEndian_bytesOf_of_lt 2 _
    (UInt16.toNat_lt _), UInt16.ofNat_toNat, ByteOrder.convertWord_convertWord]

theorem convertDword_writeUint32 (val : UInt32) :
    order.convertDword (UInt32.ofNat (littleEndian (writeUint32 order val))) = val := by
  rw [writeUint32, writeBytes_bytesOf (by omega), @littleEndian_bytesOf_of_lt 4 _
    (UInt32.toNat_lt _), UInt32.ofNat_toNat, ByteOrder.convertDword_convertDword]

theorem convertQword_writeUint64 (val : UInt64) :
    order.convertQword (UInt64.ofNat (littleEndian (writeUint64 order val))) = val := by
  rw [writeUint64, writeBytes_bytesOf (by omega), @littleEndian_bytesOf_of_lt 8 _
    (UInt64.toNat_lt _), UInt64.ofNat_toNat, ByteOrder.convertQword_convertQword]

/-- What an operator writes is read as what it was. -/
theorem ofBytes_insert {field other : Field} (same : field.SameType other) :
    field.ofBytes order (other.insert order) = other := by
  cases field with
  | int8 val =>
      cases other with
      | int8 other =>
          show Field.int8 (UInt8.ofNat (littleEndian [other.toUInt8])).toInt8 = _
          rw [ofNat_littleEndian_singleton, other.toInt8_toUInt8]
      | _ => exact same.elim
  | uint8 val =>
      cases other with
      | uint8 other => exact congrArg _ (ofNat_littleEndian_singleton other)
      | _ => exact same.elim
  | int16 val =>
      cases other with
      | int16 other =>
          exact congrArg _ ((congrArg _ (convertWord_writeUint16 other.toUInt16)).trans other.toInt16_toUInt16)
      | _ => exact same.elim
  | uint16 val =>
      cases other with
      | uint16 other => exact congrArg _ (convertWord_writeUint16 other)
      | _ => exact same.elim
  | int32 val =>
      cases other with
      | int32 other =>
          exact congrArg _ ((congrArg _ (convertDword_writeUint32 other.toUInt32)).trans other.toInt32_toUInt32)
      | _ => exact same.elim
  | uint32 val =>
      cases other with
      | uint32 other => exact congrArg _ (convertDword_writeUint32 other)
      | _ => exact same.elim
  | int64 val =>
      cases other with
      | int64 other =>
          exact congrArg _ ((congrArg _ (convertQword_writeUint64 other.toUInt64)).trans other.toInt64_toUInt64)
      | _ => exact same.elim
  | uint64 val =>
      cases other with
      | uint64 other => exact congrArg _ (convertQword_writeUint64 other)
      | _ => exact same.elim
  | bool val =>
      cases other with
      | bool other => cases other <;> rfl
      | _ => exact same.elim

end Field

end Xul
