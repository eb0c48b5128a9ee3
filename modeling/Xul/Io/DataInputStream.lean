import Xul.Data.BitConverter

/-!
# Reading data from a stream

`data_input_stream` reads numbers and blocks from an input.  When something is missing the
stream is bad from then on, and nothing more is read from it.
-/

set_option autoImplicit false

namespace Xul

/-- `data_input_stream`, over a `memory_input_stream`: what is left of the input. -/
structure DataInputStream where
  good : Bool
  rest : Bytes
deriving DecidableEq

namespace DataInputStream

variable {s : DataInputStream}

def isAvailable (s : DataInputStream) (size : Nat) : Bool :=
  s.good && decide (size ≤ s.rest.length)

def setBad (s : DataInputStream) : DataInputStream := { s with good := false }

/-- `read_byte`, which is -1 where there is no byte. -/
def readByte (s : DataInputStream) : Option UInt8 × DataInputStream :=
  if s.good then
    match s.rest with
    | [] => (none, s.setBad)
    | byte :: rest => (some byte, { s with rest })
  else (none, s)

def readN (size : Nat) (s : DataInputStream) : Option Bytes × DataInputStream :=
  if s.good then
    if size = 0 then (some [], s)
    else if size ≤ s.rest.length then (some (s.rest.take size), { s with rest := s.rest.drop size })
    else (none, s.setBad)
  else (none, s)

/-- `read_uint16`: `byte_order` reverses the bytes of a number as `bit_converter` does. -/
def readUint16 (order : BitConverter) (s : DataInputStream) : Option Nat × DataInputStream :=
  match s.readN 2 with
  | (none, s) => (none, s)
  | (some x, s) => (some (order.toWord x), s)

/-- `read_double`, as a pattern of bits. -/
def readDouble (order : BitConverter) (s : DataInputStream) : Option UInt64 × DataInputStream :=
  match s.readN 8 with
  | (none, s) => (none, s)
  | (some x, s) => (some (UInt64.ofNat (order.toQword x)), s)

/-- Nothing more is read from the stream. -/
def Spent (s : DataInputStream) : Prop := s.isAvailable 1 = false

theorem spent_of_bad (bad : s.good = false) : s.Spent := by
  rw [Spent, isAvailable, bad, Bool.false_and]

theorem spent_nil (good : Bool) : Spent ⟨good, []⟩ := by
  cases good with
  | false => rfl
  | true => rfl

theorem isAvailable_one_cons (byte : UInt8) (rest : Bytes) :
    isAvailable ⟨true, byte :: rest⟩ 1 = true := by
  simp [isAvailable]

/-! ## What was written -/

theorem readN_append (block rest : Bytes) :
    readN block.length ⟨true, block ++ rest⟩ = (some block, ⟨true, rest⟩) := by
  rw [readN, if_pos rfl]
  split
  · next none =>
      rw [List.eq_nil_of_length_eq_zero none]
      rfl
  · rw [if_pos (by rw [List.length_append]; exact Nat.le_add_right ..), List.take_left,
      List.drop_left]

theorem readUint16_append {order : BitConverter} {val : Nat} (fits : val < 65536) (rest : Bytes) :
    readUint16 order ⟨true, order.fromWord val ++ rest⟩ = (some val, ⟨true, rest⟩) := by
  have block := readN_append (order.fromWord val) rest
  have length : (order.fromWord val).length = 2 := BitConverter.length_fromInteger 2 order val
  have word := @BitConverter.toInteger_fromInteger_append 2 val order fits []
  rw [List.append_nil] at word
  rw [length] at block
  rw [readUint16, block]
  exact congrArg (fun val => (some val, (⟨true, rest⟩ : DataInputStream))) word

theorem readDouble_append {order : BitConverter} (val : UInt64) (rest : Bytes) :
    readDouble order ⟨true, order.fromQword val.toNat ++ rest⟩ = (some val, ⟨true, rest⟩) := by
  have block := readN_append (order.fromQword val.toNat) rest
  have length : (order.fromQword val.toNat).length = 8 :=
    BitConverter.length_fromInteger 8 order val.toNat
  have qword := @BitConverter.toInteger_fromInteger_append 8 val.toNat order val.toNat_lt []
  rw [List.append_nil] at qword
  have back : UInt64.ofNat (order.toQword (order.fromQword val.toNat)) = val := by
    rw [BitConverter.toQword, BitConverter.fromQword, qword, UInt64.ofNat_toNat]
  rw [length] at block
  rw [readDouble, block]
  exact congrArg (fun val => (some val, (⟨true, rest⟩ : DataInputStream))) back

/-! ## What is read -/

theorem length_of_readN {size : Nat} {s left : DataInputStream} {block : Bytes}
    (read : s.readN size = (some block, left)) : block.length = size := by
  rw [readN] at read
  split at read
  · split at read
    · next none =>
        obtain ⟨same, -⟩ := Prod.mk.inj read
        rw [← Option.some.inj same, none, List.length_nil]
    · split at read
      · next enough =>
          obtain ⟨same, -⟩ := Prod.mk.inj read
          rw [← Option.some.inj same, List.length_take_of_le enough]
      · exact absurd read nofun
  · exact absurd read nofun

theorem lt_of_readUint16 {order : BitConverter} {s left : DataInputStream} {val : Nat}
    (read : readUint16 order s = (some val, left)) : val < 65536 := by
  rw [readUint16] at read
  split at read
  · exact absurd read nofun
  · next x left two =>
      obtain ⟨same, -⟩ := Prod.mk.inj read
      have bound := Foundation.littleEndian_lt (order.order (x.take 2))
      rw [BitConverter.length_order, List.length_take, length_of_readN two] at bound
      exact Option.some.inj same ▸ bound

/-! ## What is left -/

theorem length_readByte_le (s : DataInputStream) : s.readByte.2.rest.length ≤ s.rest.length := by
  rw [readByte]
  split
  · split
    · exact le_rfl
    · next isCons => rw [isCons]; exact Nat.le_succ _
  · exact le_rfl

theorem length_readByte_lt (available : s.isAvailable 1 = true) :
    s.readByte.2.rest.length < s.rest.length := by
  obtain ⟨good, rest⟩ := s
  obtain ⟨rfl, enough⟩ := Bool.and_eq_true_iff.mp available
  cases rest with
  | nil => exact absurd enough (by decide)
  | cons byte rest => exact Nat.lt_succ_self _

theorem length_readN (size : Nat) (s : DataInputStream) :
    (s.readN size).2.rest.length ≤ s.rest.length ∧
      ((s.readN size).1 ≠ none → (s.readN size).2.rest.length + size ≤ s.rest.length) ∧
      ((s.readN size).1 = none → (s.readN size).2.Spent) := by
  rw [readN]
  split
  · split
    · next empty => exact ⟨le_rfl, fun _ => by rw [empty]; exact le_rfl, nofun⟩
    · split
      · next enough =>
          refine ⟨?_, ?_, nofun⟩
          · rw [List.length_drop]
            exact Nat.sub_le ..
          · intro _
            rw [List.length_drop, Nat.sub_add_cancel enough]
      · exact ⟨le_rfl, fun isNone => absurd rfl isNone, fun _ => rfl⟩
  · next bad =>
      exact ⟨le_rfl, fun isNone => absurd rfl isNone, fun _ => spent_of_bad (eq_false_of_ne_true bad)⟩

theorem length_readUint16 (order : BitConverter) (s : DataInputStream) :
    (readUint16 order s).2.rest.length ≤ s.rest.length ∧
      ((readUint16 order s).1 ≠ none → (readUint16 order s).2.rest.length + 2 ≤ s.rest.length) ∧
      ((readUint16 order s).1 = none → (readUint16 order s).2.Spent) := by
  obtain ⟨shorter, fewer, spent⟩ := length_readN 2 s
  rw [readUint16]
  split
  · next read =>
      rw [read] at shorter spent
      exact ⟨shorter, fun isNone => absurd rfl isNone, fun _ => spent rfl⟩
  · next read =>
      rw [read] at shorter fewer
      exact ⟨shorter, fun _ => fewer nofun, nofun⟩

theorem length_readDouble_le (order : BitConverter) (s : DataInputStream) :
    (readDouble order s).2.rest.length ≤ s.rest.length := by
  obtain ⟨shorter, -, -⟩ := length_readN 8 s
  rw [readDouble]
  split <;> next read => rwa [read] at shorter

end DataInputStream

end Xul
