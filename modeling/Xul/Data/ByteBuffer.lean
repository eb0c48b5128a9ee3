import Xul.Foundation.Allocation
import Xul.Foundation.Runs
import Xul.Std.Bytes

/-!
# Byte buffers

A `byte_buffer` keeps its bytes at the front of an allocation.  A call on it has no result
where an assertion fails or an access leaves an allocation.

Several buffers are compared with plain lists of bytes, of which a growing `resize` leaves
the new bytes open.  They agree through every call but `append(size, elem)`, which hands the
count and the value to `std::fill_n` in each other's place (`byte_buffers_refine_iff`).
-/

set_option autoImplicit false

namespace Xul

open Foundation

/-- `m_data` is an allocation of `m_capacity` bytes, or a null pointer. -/
structure ByteBuffer where
  data : Cells UInt8
  capacity : Nat
  size : Nat

namespace ByteBuffer

def maxBufferSize : Nat := 32 * 1024 * 1024 + 1

/-! ## Constructors -/

def create : ByteBuffer := ⟨[], 0, 0⟩

def createSized (size : Nat) : ByteBuffer := ⟨Cells.fresh size, size, size⟩

def createCopy (data : Bytes) : ByteBuffer := ⟨data.map some, data.length, data.length⟩

def createFilled (size : Nat) (initialVal : UInt8) : ByteBuffer :=
  ⟨List.replicate size (some initialVal), size, size⟩

/-! ## Methods -/

/-- The `resize` of the new buffer finds the capacity that it needs
(`resize_of_le_capacity`). -/
def reserve (buffer : ByteBuffer) (size : Nat) : Option ByteBuffer := do
  guard (size < maxBufferSize)
  guard (buffer.size ≤ buffer.capacity)
  if buffer.capacity ≥ size then
    return buffer
  let newBuffer := { createSized size with size := buffer.size }
  if buffer.size > 0 then
    let kept ← buffer.data.load buffer.size
    let data ← newBuffer.data.store 0 kept
    return { newBuffer with data }
  return newBuffer

def resize (buffer : ByteBuffer) (size : Nat) : Option ByteBuffer := do
  let reserved ← buffer.reserve size
  guard (reserved.capacity ≥ size)
  return { reserved with size }

/-- `assign( const element_type& elem )`. -/
def assignElem (buffer : ByteBuffer) (elem : UInt8) : Option ByteBuffer := do
  if buffer.size > 0 then
    let data ← buffer.data.store 0 (List.replicate buffer.size (some elem))
    return { buffer with data }
  return buffer

def assign (buffer : ByteBuffer) (src : Cells UInt8) : Option ByteBuffer := do
  if src.length = 0 then
    buffer.resize 0
  else
    let resized ← buffer.resize src.length
    let data ← resized.data.store 0 src
    return { resized with data }

/-- `assign( const buffer& src )`. -/
def assignBuffer (buffer src : ByteBuffer) : Option ByteBuffer := do
  buffer.assign (← src.data.load src.size)

def append (buffer : ByteBuffer) (src : Cells UInt8) : Option ByteBuffer := do
  let oldSize := buffer.size
  let resized ← buffer.resize (toSizeT (oldSize + src.length)).toNat
  let data ← resized.data.store oldSize src
  return { resized with data }

/-- `append(size_t size, const element_type& elem)`, which fills with the size, `elem`
times. -/
def appendElem (buffer : ByteBuffer) (size : Nat) (elem : UInt8) : Option ByteBuffer := do
  let oldSize := buffer.size
  let resized ← buffer.resize (toSizeT (oldSize + size)).toNat
  let data ← resized.data.store oldSize (List.replicate elem.toNat (some (UInt8.ofNat size)))
  return { resized with data }

/-- `append(const buffer& src)`. -/
def appendBuffer (buffer src : ByteBuffer) : Option ByteBuffer := do
  buffer.append (← src.data.load src.size)

def clear (_ : ByteBuffer) : ByteBuffer := create

/-! ## Buffers and lists -/

/-- The buffer keeps what the list says, inside its allocation. -/
structure Refines (buffer : ByteBuffer) (contents : Cells UInt8) : Prop where
  allocated : buffer.data.length = buffer.capacity
  size_le : buffer.size ≤ buffer.capacity
  shown : Cells.Shows (buffer.data.take buffer.size) contents

/-- `fill_n` with its arguments the wrong way round leaves the elements that were asked for:
it stays inside the allocation, what it writes is the element, and so is what it does not
reach. -/
structure FillFits (buffer : ByteBuffer) (size : Nat) (elem : UInt8) : Prop where
  inside : buffer.size + elem.toNat ≤ max buffer.capacity (buffer.size + size)
  written : 0 < size → 0 < elem.toNat → UInt8.ofNat size = elem
  beyond : ∀ offset, elem.toNat ≤ offset → offset < size →
    buffer.data[buffer.size + offset]? = some (some elem)

variable {buffer : ByteBuffer} {contents : Cells UInt8}

theorem refines_create : create.Refines [] := ⟨rfl, le_refl 0, .refl _⟩

theorem refines_createSized (size : Nat) : (createSized size).Refines (Cells.fresh size) where
  allocated := Cells.length_fresh size
  size_le := le_refl size
  shown := Cells.Shows.fresh (by simp [createSized])

theorem refines_createCopy (data : Bytes) : (createCopy data).Refines (data.map some) where
  allocated := List.length_map some
  size_le := le_refl data.length
  shown := by
    have whole : (data.map some).take data.length = data.map some :=
      List.take_of_length_le (List.length_map some).le
    show Cells.Shows ((data.map some).take data.length) _
    rw [whole]
    exact .refl _

theorem refines_createFilled (size : Nat) (initialVal : UInt8) :
    (createFilled size initialVal).Refines (List.replicate size (some initialVal)) where
  allocated := List.length_replicate
  size_le := le_refl size
  shown := by
    rw [createFilled, List.take_replicate, Nat.min_self]
    exact .refl _

theorem Refines.length_take (refines : buffer.Refines contents) :
    (buffer.data.take buffer.size).length = buffer.size := by
  rw [List.length_take, refines.allocated]
  exact min_eq_left refines.size_le

theorem Refines.length_eq (refines : buffer.Refines contents) : contents.length = buffer.size := by
  rw [← refines.shown.length_eq, refines.length_take]

/-- A buffer with enough capacity stays where it is. -/
theorem reserve_of_le_capacity {size : Nat} (below : size < maxBufferSize)
    (fits : buffer.size ≤ buffer.capacity) (enough : size ≤ buffer.capacity) :
    buffer.reserve size = some buffer := by
  rw [reserve, guard, if_pos below, guard, if_pos fits, if_pos enough]
  rfl

theorem resize_of_le_capacity {size : Nat} (below : size < maxBufferSize)
    (fits : buffer.size ≤ buffer.capacity) (enough : size ≤ buffer.capacity) :
    buffer.resize size = some { buffer with size } := by
  rw [resize, reserve_of_le_capacity below fits enough]
  simp [guard, enough]

/-- A buffer without it moves its bytes to a new allocation. -/
theorem Refines.reserve_of_lt (refines : buffer.Refines contents) {size : Nat}
    (below : size < maxBufferSize) (less : buffer.capacity < size) :
    buffer.reserve size = some ⟨buffer.data.take buffer.size ++ Cells.fresh (size - buffer.size),
      size, buffer.size⟩ := by
  have len := refines.length_take
  have small : buffer.size ≤ size := refines.size_le.trans less.le
  rw [reserve, guard, if_pos below, guard, if_pos refines.size_le, if_neg (by omega)]
  by_cases empty : buffer.size = 0
  · simp [createSized, empty]
  · have loaded := @Cells.load_eq_some _ buffer.data _ (refines.allocated ▸ refines.size_le)
    have stored : (Cells.fresh size).store 0 (buffer.data.take buffer.size) =
        some (buffer.data.take buffer.size ++ Cells.fresh (size - buffer.size)) := by
      rw [Cells.store_eq_some (by rw [len, Cells.length_fresh]; omega), len]
      simp [Cells.fresh]
    simp [loaded, createSized, Nat.pos_of_ne_zero empty, stored]

theorem Refines.reserve (refines : buffer.Refines contents) {size : Nat}
    (below : size < maxBufferSize) :
    ∃ reserved, buffer.reserve size = some reserved ∧ reserved.Refines contents := by
  by_cases enough : size ≤ buffer.capacity
  · exact ⟨buffer, reserve_of_le_capacity below refines.size_le enough, refines⟩
  · have less : buffer.capacity < size := not_le.mp enough
    have kept := refines.length_take
    have small : buffer.size ≤ size := refines.size_le.trans less.le
    refine ⟨_, refines.reserve_of_lt below less, ?_, small, ?_⟩
    · show (_ ++ _ : List _).length = size
      rw [List.length_append, kept, Cells.length_fresh]
      omega
    · show Cells.Shows ((_ ++ _ : List _).take buffer.size) contents
      rw [List.take_left' kept]
      exact refines.shown

/-- What `resize` leaves: the contents with new bytes that are open, and the bytes behind
the contents if they did not move. -/
theorem Refines.resize (refines : buffer.Refines contents) {size : Nat}
    (below : size < maxBufferSize) :
    ∃ resized, buffer.resize size = some resized ∧
      resized.Refines (Cells.resize size contents) ∧
      resized.size = size ∧ resized.capacity = max buffer.capacity size ∧
      (size ≤ buffer.capacity → resized.data = buffer.data) ∧
      (buffer.capacity < size → resized.data =
        buffer.data.take buffer.size ++ Cells.fresh (size - buffer.size)) := by
  have len := refines.length_eq
  by_cases enough : size ≤ buffer.capacity
  · refine ⟨_, resize_of_le_capacity below refines.size_le enough,
      ⟨refines.allocated, enough, ?_⟩, rfl, (max_eq_left enough).symm, fun _ => rfl,
      fun less => absurd enough (not_le.mpr less)⟩
    exact Cells.Shows.resize (len ▸ refines.shown) (refines.allocated ▸ enough)
  · have less : buffer.capacity < size := not_le.mp enough
    have kept := refines.length_take
    have small : buffer.size ≤ size := refines.size_le.trans less.le
    refine ⟨⟨buffer.data.take buffer.size ++ Cells.fresh (size - buffer.size), size, size⟩, ?_,
      ⟨?_, le_refl size, ?_⟩, rfl, (max_eq_right less.le).symm, fun le => absurd le enough,
      fun _ => rfl⟩
    · rw [ByteBuffer.resize, refines.reserve_of_lt below less]
      simp [guard]
    · simp only [List.length_append, kept, Cells.length_fresh]
      omega
    · refine Cells.Shows.resize ?_ ?_
      · rw [len, List.take_left' kept]
        exact refines.shown
      · show size ≤ (_ ++ _ : List _).length
        rw [List.length_append, kept, Cells.length_fresh]
        omega

/-- A larger buffer begins with the contents. -/
theorem Refines.take_data {resized : ByteBuffer} {size : Nat}
    (refines : resized.Refines (Cells.resize size contents)) (larger : contents.length ≤ size) :
    Cells.Shows (resized.data.take contents.length) contents := by
  have long : resized.size = size := by rw [← refines.length_eq, Cells.length_resize]
  have front := refines.shown.take contents.length
  rwa [Cells.take_resize larger, List.take_take, long, Nat.min_eq_left larger] at front

/-- Two sizes whose sum is below the maximum are added without wrapping. -/
theorem toSizeT_add {size more : Nat} (below : size + more < maxBufferSize) :
    (toSizeT (size + more)).toNat = size + more := by
  rw [maxBufferSize] at below
  rw [toSizeT_of_nonneg (by omega) (by omega)]
  omega

theorem Refines.assignElem (refines : buffer.Refines contents) (elem : UInt8) :
    ∃ after, buffer.assignElem elem = some after ∧
      after.Refines (List.replicate contents.length (some elem)) := by
  rw [refines.length_eq]
  by_cases empty : buffer.size = 0
  · refine ⟨buffer, by simp [ByteBuffer.assignElem, empty], refines.allocated, refines.size_le, ?_⟩
    rw [empty]
    exact .refl _
  · have inside : 0 + (List.replicate buffer.size (some elem)).length ≤ buffer.data.length := by
      rw [List.length_replicate, refines.allocated]
      exact (Nat.zero_add buffer.size).symm ▸ refines.size_le
    obtain ⟨data, stored⟩ := Cells.exists_store inside
    refine ⟨{ buffer with data }, ?_, (Cells.length_of_store stored).trans refines.allocated,
      refines.size_le, ?_⟩
    · simp [ByteBuffer.assignElem, Nat.pos_of_ne_zero empty, stored]
    · have front := Cells.take_of_store stored
      rw [List.length_replicate, Nat.zero_add, List.take_zero, List.nil_append] at front
      show Cells.Shows (data.take buffer.size) _
      rw [front]
      exact .refl _

theorem Refines.append (refines : buffer.Refines contents) {src values : Cells UInt8}
    (shown : src.Shows values) (below : contents.length + values.length < maxBufferSize) :
    ∃ after, buffer.append src = some after ∧ after.Refines (contents ++ values) := by
  have old := refines.length_eq
  rw [old, ← shown.length_eq] at below
  obtain ⟨resized, happens, larger, size, capacity, -⟩ := refines.resize below
  have inside : buffer.size + src.length ≤ resized.data.length := by
    rw [larger.allocated, capacity]
    exact le_max_right ..
  obtain ⟨data, stored⟩ := Cells.exists_store inside
  have front := larger.take_data (by omega)
  refine ⟨{ resized with data }, ?_, (Cells.length_of_store stored).trans larger.allocated,
    larger.size_le, ?_⟩
  · simp [ByteBuffer.append, toSizeT_add below, happens, stored]
  · show Cells.Shows (data.take resized.size) _
    rw [size, Cells.take_of_store stored]
    exact (old ▸ front).append shown

theorem Refines.assign (refines : buffer.Refines contents) {src values : Cells UInt8}
    (shown : src.Shows values) (below : values.length < maxBufferSize) :
    ∃ after, buffer.assign src = some after ∧ after.Refines values := by
  rw [← shown.length_eq] at below
  by_cases empty : src.length = 0
  · obtain ⟨resized, happens, larger, -⟩ := refines.resize (show 0 < maxBufferSize by decide)
    have nothing : values = [] := List.eq_nil_of_length_eq_zero (shown.length_eq ▸ empty)
    refine ⟨resized, by rw [ByteBuffer.assign, if_pos empty, happens], ?_⟩
    subst nothing
    simpa [Cells.resize, Cells.fresh] using larger
  · obtain ⟨resized, happens, larger, size, capacity, -⟩ := refines.resize below
    have inside : 0 + src.length ≤ resized.data.length := by
      rw [larger.allocated, capacity, Nat.zero_add]
      exact le_max_right ..
    obtain ⟨data, stored⟩ := Cells.exists_store inside
    refine ⟨{ resized with data }, ?_, (Cells.length_of_store stored).trans larger.allocated,
      larger.size_le, ?_⟩
    · rw [ByteBuffer.assign, if_neg empty, happens]
      simp [stored]
    · have front := Cells.take_of_store stored
      rw [Nat.zero_add, List.take_zero, List.nil_append] at front
      show Cells.Shows (data.take resized.size) _
      rw [size, front]
      exact shown

/-- What a buffer hands to another one. -/
theorem Refines.load (refines : buffer.Refines contents) :
    buffer.data.load buffer.size = some (buffer.data.take buffer.size) :=
  Cells.load_eq_some (refines.allocated ▸ refines.size_le)

/-- What `resize` leaves behind the old contents is what was there before, unless it moved
them. -/
theorem Refines.getElem?_resize (refines : buffer.Refines contents) {resized : ByteBuffer}
    {size index : Nat} (below : size < maxBufferSize) (happens : buffer.resize size = some resized)
    (behind : buffer.size ≤ index) (inside : index < size) :
    resized.data[index]? =
      if size ≤ buffer.capacity then buffer.data[index]? else some none := by
  obtain ⟨_, same, -, -, -, stays, moves⟩ := refines.resize below
  cases happens.symm.trans same
  split
  · next enough => rw [stays enough]
  · next less =>
      have kept := refines.length_take
      rw [moves (not_le.mp less), List.getElem?_append_right (kept.symm ▸ behind), kept,
        Cells.fresh, List.getElem?_replicate_of_lt (by omega)]

/-- The elements that were asked for are there exactly when the fill fits. -/
theorem Refines.filled_iff (refines : buffer.Refines contents) {resized : ByteBuffer}
    {data : Cells UInt8} {size : Nat} {elem : UInt8} (below : buffer.size + size < maxBufferSize)
    (happens : buffer.resize (buffer.size + size) = some resized)
    (stored : resized.data.store buffer.size
      (List.replicate elem.toNat (some (UInt8.ofNat size))) = some data) :
    (∀ offset, offset < size → data[buffer.size + offset]? = some (some elem)) ↔
      (0 < size → 0 < elem.toNat → UInt8.ofNat size = elem) ∧
      ∀ offset, elem.toNat ≤ offset → offset < size →
        buffer.data[buffer.size + offset]? = some (some elem) := by
  have reached : ∀ offset, offset < elem.toNat →
      data[buffer.size + offset]? = some (some (UInt8.ofNat size)) := by
    intro offset within
    rw [Cells.getElem?_offset_of_store stored (by rwa [List.length_replicate]),
      List.getElem?_replicate_of_lt within]
  have missed : ∀ offset, elem.toNat ≤ offset → offset < size →
      data[buffer.size + offset]? = if buffer.size + size ≤ buffer.capacity then
        buffer.data[buffer.size + offset]? else some none := by
    intro offset behind within
    rw [Cells.getElem?_of_store stored (by rw [List.length_replicate]; omega)]
    exact refines.getElem?_resize below happens (by omega) (by omega)
  constructor
  · intro filled
    constructor
    · intro some_ writes
      exact Option.some.inj (Option.some.inj ((reached 0 writes).symm.trans (filled 0 some_)))
    · intro offset behind within
      have here := (missed offset behind within).symm.trans (filled offset within)
      split at here
      · exact here
      · cases here
  · rintro ⟨written, beyond⟩ offset within
    by_cases reach : offset < elem.toNat
    · rw [reached offset reach, written (by omega) (by omega)]
    · rw [missed offset (not_lt.mp reach) within, if_pos, beyond offset (not_lt.mp reach) within]
      -- the last cell that has to be there already is inside the old allocation
      have last := beyond (size - 1) (by omega) (by omega)
      obtain ⟨there, -⟩ := List.getElem?_eq_some_iff.mp last
      rw [refines.allocated] at there
      omega

/-- **The fill appends the elements exactly when it fits.** -/
theorem Refines.appendElem_iff (refines : buffer.Refines contents) {size : Nat} {elem : UInt8}
    (below : contents.length + size < maxBufferSize) :
    (∃ after, buffer.appendElem size elem = some after ∧
        after.Refines (contents ++ List.replicate size (some elem))) ↔
      buffer.FillFits size elem := by
  have old := refines.length_eq
  rw [old] at below
  obtain ⟨resized, happens, larger, long, capacity, -⟩ := refines.resize below
  have front := larger.take_data (by omega)
  have total : ∀ data, (resized.data.store buffer.size
      (List.replicate elem.toNat (some (UInt8.ofNat size)))) = some data →
      buffer.appendElem size elem = some { resized with data } := by
    intro data stored
    simp [ByteBuffer.appendElem, toSizeT_add below, happens, stored]
  constructor
  · rintro ⟨after, fills, refined⟩
    cases stored : resized.data.store buffer.size
        (List.replicate elem.toNat (some (UInt8.ofNat size))) with
    | none => simp [ByteBuffer.appendElem, toSizeT_add below, happens, stored] at fills
    | some data =>
        cases fills.symm.trans (total data stored)
        have filled : ∀ offset, offset < size →
            data[buffer.size + offset]? = some (some elem) := by
          intro offset within
          have here : (contents ++ List.replicate size (some elem))[buffer.size + offset]? =
              some (some elem) := by
            rw [List.getElem?_append_right (by omega), old, Nat.add_sub_cancel_left,
              List.getElem?_replicate_of_lt within]
          have seen := refined.shown.getElem? here
          rwa [List.getElem?_take_of_lt (by show _ < resized.size; omega)] at seen
        obtain ⟨written, beyond⟩ := (refines.filled_iff below happens stored).mp filled
        have inside := Cells.inside_of_store stored
        rw [List.length_replicate, larger.allocated, capacity] at inside
        exact ⟨inside, written, beyond⟩
  · rintro ⟨inside, written, beyond⟩
    obtain ⟨data, stored⟩ : ∃ data, resized.data.store buffer.size
        (List.replicate elem.toNat (some (UInt8.ofNat size))) = some data := by
      refine Cells.exists_store ?_
      rw [List.length_replicate, larger.allocated, capacity]
      exact inside
    have filled := (refines.filled_iff below happens stored).mpr ⟨written, beyond⟩
    refine ⟨_, total data stored, (Cells.length_of_store stored).trans larger.allocated,
      larger.size_le, ?_⟩
    have added : (data.drop buffer.size).take size = List.replicate size (some elem) := by
      refine List.ext_getElem? ?_
      intro offset
      by_cases within : offset < size
      · rw [List.getElem?_take_of_lt within, List.getElem?_drop, filled offset within,
          List.getElem?_replicate_of_lt within]
      · rw [List.getElem?_take_eq_none (not_lt.mp within),
          List.getElem?_eq_none (by rw [List.length_replicate]; exact not_lt.mp within)]
    show Cells.Shows (data.take resized.size) _
    rw [long, List.take_add, Cells.take_offset_of_store stored, added]
    exact (old ▸ front).append (.refl _)

end ByteBuffer

/-! ## Programs with several buffers -/

/-- How a buffer is made. -/
inductive NewBuffer
  | empty
  | sized (size : Nat)
  | copy (data : Bytes)
  | filled (size : Nat) (initialVal : UInt8)

inductive BufferCall
  | reserve (size : Nat)
  | resize (size : Nat)
  | assignElem (elem : UInt8)
  | assign (src : Bytes)
  | append (src : Bytes)
  | appendElem (size : Nat) (elem : UInt8)
  | clear

/-- What a program does with its buffers, each of which has the number of buffers made
before it. -/
inductive BufferOp
  | create (made : NewBuffer)
  | call (index : Nat) (call : BufferCall)
  | assignBuffer (index source : Nat)
  | appendBuffer (index source : Nat)
  | swap (index other : Nat)

def NewBuffer.make : NewBuffer → ByteBuffer
  | empty => ByteBuffer.create
  | sized size => ByteBuffer.createSized size
  | copy data => ByteBuffer.createCopy data
  | filled size initialVal => ByteBuffer.createFilled size initialVal

def BufferCall.apply (buffer : ByteBuffer) : BufferCall → Option ByteBuffer
  | reserve size => buffer.reserve size
  | resize size => buffer.resize size
  | assignElem elem => buffer.assignElem elem
  | assign src => buffer.assign (src.map some)
  | append src => buffer.append (src.map some)
  | appendElem size elem => buffer.appendElem size elem
  | clear => some buffer.clear

def BufferOp.apply (buffers : List ByteBuffer) : BufferOp → Option (List ByteBuffer)
  | create made => some (buffers ++ [made.make])
  | .call index made => do
      let after ← made.apply (← buffers[index]?)
      return buffers.set index after
  | assignBuffer index source => do
      let after ← (← buffers[index]?).assignBuffer (← buffers[source]?)
      return buffers.set index after
  | appendBuffer index source => do
      let after ← (← buffers[index]?).appendBuffer (← buffers[source]?)
      return buffers.set index after
  | swap index other => do
      let first ← buffers[index]?
      let second ← buffers[other]?
      return (buffers.set index second).set other first

/-! ### The lists of bytes -/

def NewBuffer.contents : NewBuffer → Cells UInt8
  | empty => []
  | sized size => Cells.fresh size
  | copy data => data.map some
  | filled size initialVal => List.replicate size (some initialVal)

/-- What a call makes of a list of bytes.  It asks for a size below the maximum. -/
def BufferCall.contents (contents : Cells UInt8) : BufferCall → Option (Cells UInt8)
  | reserve size => if size < ByteBuffer.maxBufferSize then some contents else none
  | resize size =>
      if size < ByteBuffer.maxBufferSize then some (contents.resize size) else none
  | assignElem elem => some (List.replicate contents.length (some elem))
  | assign src => if src.length < ByteBuffer.maxBufferSize then some (src.map some) else none
  | append src =>
      if contents.length + src.length < ByteBuffer.maxBufferSize then
        some (contents ++ src.map some)
      else
        none
  | appendElem size elem =>
      if contents.length + size < ByteBuffer.maxBufferSize then
        some (contents ++ List.replicate size (some elem))
      else
        none
  | clear => some []

/-- What a program makes of its lists.  It names lists that there are, and hands a list to
another one. -/
def BufferOp.contents (lists : List (Cells UInt8)) : BufferOp → Option (List (Cells UInt8))
  | create made => some (lists ++ [made.contents])
  | .call index made => do
      let after ← made.contents (← lists[index]?)
      return lists.set index after
  | assignBuffer index source => do
      guard (index ≠ source)
      let src ← lists[source]?
      guard (index < lists.length ∧ src.length < ByteBuffer.maxBufferSize)
      return lists.set index src
  | appendBuffer index source => do
      guard (index ≠ source)
      let contents ← lists[index]?
      let src ← lists[source]?
      guard (contents.length + src.length < ByteBuffer.maxBufferSize)
      return lists.set index (contents ++ src)
  | swap index other => do
      let first ← lists[index]?
      let second ← lists[other]?
      return (lists.set index second).set other first

/-- The buffers of a program, unless a call had no result, and its lists. -/
structure BufferSession where
  buffers : Option (List ByteBuffer)
  lists : List (Cells UInt8)

namespace BufferSession

def start : BufferSession := ⟨some [], []⟩

/-- The program goes on as long as its lists do. -/
def step (session : BufferSession) (op : BufferOp) : Option BufferSession :=
  (op.contents session.lists).map fun lists => ⟨session.buffers.bind op.apply, lists⟩

/-- No call had no result, and every buffer keeps what its list says. -/
def Refines (session : BufferSession) : Prop :=
  ∃ buffers, session.buffers = some buffers ∧
    List.Forall₂ ByteBuffer.Refines buffers session.lists

/-- Where the operation fills a buffer, the fill fits. -/
def FillsFit (session : BufferSession) : BufferOp → Prop
  | .call index (.appendElem size elem) =>
      ∀ buffers buffer, session.buffers = some buffers → buffers[index]? = some buffer →
        buffer.FillFits size elem
  | _ => True

end BufferSession

section

variable {buffer : ByteBuffer} {contents after : Cells UInt8}

/-- A call that is not a fill refines what it makes of the list; a fill does when it fits. -/
theorem BufferCall.refines_iff (refines : buffer.Refines contents) {call : BufferCall}
    (happens : call.contents contents = some after) :
    (∃ result, call.apply buffer = some result ∧ result.Refines after) ↔
      ∀ size elem, call = .appendElem size elem → buffer.FillFits size elem := by
  cases call with
  | appendElem size elem =>
      obtain ⟨below, ⟨⟩⟩ := Option.ite_none_right_eq_some.mp happens
      rw [BufferCall.apply, refines.appendElem_iff below]
      constructor
      · rintro fits _ _ ⟨rfl, rfl⟩
        exact fits
      · exact fun fits => fits size elem rfl
  | reserve size =>
      obtain ⟨below, ⟨⟩⟩ := Option.ite_none_right_eq_some.mp happens
      exact iff_of_true (refines.reserve below) nofun
  | resize size =>
      obtain ⟨below, ⟨⟩⟩ := Option.ite_none_right_eq_some.mp happens
      obtain ⟨resized, resizes, refined, -⟩ := refines.resize below
      exact iff_of_true ⟨resized, resizes, refined⟩ nofun
  | assignElem elem =>
      cases happens
      exact iff_of_true (refines.assignElem elem) nofun
  | assign src =>
      obtain ⟨below, ⟨⟩⟩ := Option.ite_none_right_eq_some.mp happens
      exact iff_of_true (refines.assign (.refl _) (by rwa [List.length_map])) nofun
  | append src =>
      obtain ⟨below, ⟨⟩⟩ := Option.ite_none_right_eq_some.mp happens
      exact iff_of_true (refines.append (.refl _) (by rwa [List.length_map])) nofun
  | clear =>
      cases happens
      exact iff_of_true ⟨_, rfl, ByteBuffer.refines_create⟩ nofun

end

/-! ### Related lists -/

section

variable {α β : Type} {related : α → β → Prop} {values : List α} {others : List β} {index : Nat}

theorem exists_of_related (all : List.Forall₂ related values others) {other : β}
    (there : others[index]? = some other) :
    ∃ value, values[index]? = some value ∧ related value other := by
  obtain ⟨inside, rfl⟩ := List.getElem?_eq_some_iff.mp there
  have within : index < values.length := all.length_eq ▸ inside
  exact ⟨values[index], List.getElem?_eq_getElem within, all.get within inside⟩

theorem related_set (all : List.Forall₂ related values others) {value : α} {other : β}
    (new : related value other) :
    List.Forall₂ related (values.set index value) (others.set index other) := by
  induction all generalizing index with
  | nil => exact .nil
  | cons first rest ih =>
      cases index with
      | zero => exact .cons new rest
      | succ index => exact .cons first ih

/-- Setting related values under one index relates them, and nothing else does. -/
theorem related_set_iff (all : List.Forall₂ related values others)
    (inside : index < others.length) {value : α} {other : β} :
    List.Forall₂ related (values.set index value) (others.set index other) ↔
      related value other := by
  refine ⟨?_, related_set all⟩
  intro set
  obtain ⟨found, there, here⟩ := exists_of_related set (List.getElem?_set_self inside)
  rw [List.getElem?_set_self (all.length_eq ▸ inside)] at there
  cases there
  exact here

end

namespace BufferSession

variable {session next : BufferSession} {op : BufferOp}

theorem refines_start : start.Refines := ⟨[], rfl, .nil⟩

/-- **One operation keeps the buffers and the lists together exactly when its fill fits.** -/
theorem Refines.step_iff (refines : session.Refines) (happens : session.step op = some next) :
    next.Refines ↔ session.FillsFit op := by
  obtain ⟨some_, lists⟩ := session
  obtain ⟨buffers, rfl, all⟩ := refines
  obtain ⟨after, made, rfl⟩ := Option.map_eq_some_iff.mp happens
  rw [BufferSession.Refines]
  simp only at all made ⊢
  cases op with
  | create new =>
      cases made
      refine iff_of_true ⟨_, rfl, List.rel_append all (.cons ?_ .nil)⟩ trivial
      cases new with
      | empty => exact ByteBuffer.refines_create
      | sized size => exact ByteBuffer.refines_createSized size
      | copy data => exact ByteBuffer.refines_createCopy data
      | filled size initialVal => exact ByteBuffer.refines_createFilled size initialVal
  | call index call =>
      simp only [BufferOp.contents, Option.bind_eq_bind, Option.bind_eq_some_iff] at made
      obtain ⟨contents, there, result, changed, same⟩ := made
      cases same
      obtain ⟨buffer, here, refined⟩ := exists_of_related all there
      have inside := (List.getElem?_eq_some_iff.mp there).1
      have fits := BufferCall.refines_iff refined changed
      have guarded : FillsFit ⟨some buffers, lists⟩ (.call index call) ↔
          ∀ size elem, call = .appendElem size elem → buffer.FillFits size elem := by
        cases call with
        | appendElem size elem =>
            constructor
            · rintro fits _ _ ⟨rfl, rfl⟩
              exact fits buffers buffer rfl here
            · intro fits _ _ same found
              cases same
              cases here.symm.trans found
              exact fits size elem rfl
        | _ => exact iff_of_true trivial nofun
      rw [guarded, ← fits]
      constructor
      · rintro ⟨changed, happens, all'⟩
        simp only [Option.bind_some, BufferOp.apply, here, Option.bind_eq_bind,
          Option.bind_eq_some_iff] at happens
        obtain ⟨after, happens, same⟩ := happens
        cases same
        exact ⟨after, happens, (related_set_iff all inside).mp all'⟩
      · rintro ⟨after, happens, refined'⟩
        refine ⟨buffers.set index after, ?_, related_set all refined'⟩
        simp [BufferOp.apply, here, happens]
  | assignBuffer index source =>
      simp only [BufferOp.contents, Option.bind_eq_bind, Option.bind_eq_some_iff,
        Option.guard_eq_some', exists_const] at made
      obtain ⟨-, contents, there, ⟨inside, below⟩, same⟩ := made
      cases same
      obtain ⟨src, here, refined⟩ := exists_of_related all there
      obtain ⟨buffer, found, old⟩ := exists_of_related all (List.getElem?_eq_getElem inside)
      obtain ⟨after, happens, refined'⟩ := old.assign refined.shown below
      refine iff_of_true ⟨buffers.set index after, ?_, related_set all refined'⟩ trivial
      simp [BufferOp.apply, ByteBuffer.assignBuffer, here, found, refined.load, happens]
  | appendBuffer index source =>
      simp only [BufferOp.contents, Option.bind_eq_bind, Option.bind_eq_some_iff,
        Option.guard_eq_some', exists_const] at made
      obtain ⟨-, contents, there, values, there', below, same⟩ := made
      cases same
      obtain ⟨buffer, found, old⟩ := exists_of_related all there
      obtain ⟨src, here, refined⟩ := exists_of_related all there'
      obtain ⟨after, happens, refined'⟩ := old.append refined.shown below
      refine iff_of_true ⟨buffers.set index after, ?_, related_set all refined'⟩ trivial
      simp [BufferOp.apply, ByteBuffer.appendBuffer, here, found, refined.load, happens]
  | swap index other =>
      simp only [BufferOp.contents, Option.bind_eq_bind, Option.bind_eq_some_iff] at made
      obtain ⟨first, there, second, there', same⟩ := made
      cases same
      obtain ⟨buffer, here, refined⟩ := exists_of_related all there
      obtain ⟨buffer', here', refined'⟩ := exists_of_related all there'
      refine iff_of_true ⟨(buffers.set index buffer').set other buffer, ?_,
        related_set (related_set all refined') refined⟩ trivial
      simp [BufferOp.apply, here, here']

end BufferSession

/-- **Buffers are lists of bytes.**  A program keeps its buffers inside their allocations,
with the contents that its lists have, exactly when every `append(size, elem)` finds that it
fits. -/
theorem byte_buffers_refine_iff (ops : List BufferOp) :
    Throughout BufferSession.step BufferSession.Refines .start ops ↔
      Guarded BufferSession.step BufferSession.FillsFit .start ops :=
  throughout_iff_guarded (fun _ refines => refines)
    (fun _ _ _ refines fits happens => (refines.step_iff happens).mpr fits)
    (fun _ _ _ refines misfit happens after => misfit ((refines.step_iff happens).mp after))
    BufferSession.refines_start

/-- Three bytes of the value 65 are asked for, and 65 bytes of the value 3 written. -/
theorem fill_leaves_the_allocation :
    ¬ ∀ ops, Throughout BufferSession.step BufferSession.Refines .start ops := by
  intro throughout
  have all := throughout [.create .empty, .call 0 (.appendElem 3 65)]
  obtain ⟨buffers, happened, -⟩ := Throughout.head ((all.2 _ rfl).2 _ rfl)
  have result : Option.isSome _ = true := congrArg Option.isSome happened
  exact absurd result (by decide +kernel)

end Xul
