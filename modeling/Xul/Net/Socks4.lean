import Xul.Io.DataEncoding

/-!
# SOCKS4 messages

A request ends with a user id, up to a zero byte, behind fields of fixed widths.  What is written
of a response is read back, and nothing less (`roundTrips_response`).  So it is with a request
whose user id contains no zero byte and is not too long for the `int` that an output stream takes
as a size; of a longer one not all is written (`roundTrips_socks4`).
-/

set_option autoImplicit false

namespace Xul

open DataInputStream DataOutputStream

variable {order : ByteOrder}

/-- What is written of an object takes its size, is read back in front of anything, and no strict
prefix of it is read. -/
structure RoundTrips {α : Type} (read : α → DataInputStream → Extracted α) (size : Nat)
    (written : Bytes) (object : α) : Prop where
  length_eq : written.length = size
  restores : ∀ (target : α) (rest : Bytes),
    read target ⟨true, written ++ rest⟩ = ⟨true, object, ⟨true, rest⟩⟩
  strict_fails : ∀ (target : α) (s : Bytes), s <+: written → s ≠ written →
    (read target ⟨true, s⟩).ret = false

/-! ## Responses -/

structure Socks4Response where
  statusCode : UInt8
  destinationPort : UInt16
  destinationIp : UInt32
deriving DecidableEq

namespace Socks4Response

def getObjectSize : Nat := 8

/-- `read_object`: what it does not read stays as it was. -/
def readObject (order : ByteOrder) (response : Socks4Response) (is : DataInputStream) :
    Extracted Socks4Response :=
  let nullByte := readUint8Into 0 is
  let statusCode := readUint8Into response.statusCode nullByte.stream
  let destinationPort := readUint16Into order response.destinationPort statusCode.stream
  let destinationIp := readUint32Into order response.destinationIp destinationPort.stream
  let is := if nullByte.val ≠ 0 then destinationIp.stream.setBad else destinationIp.stream
  ⟨is.good, ⟨statusCode.val, destinationPort.val, destinationIp.val⟩, is⟩

def writeObject (order : ByteOrder) (response : Socks4Response) : Bytes :=
  writeByte 0 ++ writeUint8 response.statusCode ++ writeUint16 order response.destinationPort ++
    writeUint32 order response.destinationIp

/-- The fields, as variables on a stream. -/
def fields (nullByte : UInt8) (response : Socks4Response) : List Field :=
  [.uint8 nullByte, .uint8 response.statusCode, .uint16 response.destinationPort,
    .uint32 response.destinationIp]

theorem writeObject_eq (response : Socks4Response) :
    response.writeObject order = DataEncoding.doEncode order (response.fields 0) := by
  simp only [writeObject, fields, DataEncoding.doEncode, Field.insert, writeUint8, List.append_nil,
    List.append_assoc]

theorem sameType_fields (nullByte other : UInt8) (response target : Socks4Response) :
    List.Forall₂ Field.SameType (target.fields other) (response.fields nullByte) :=
  .cons trivial (.cons trivial (.cons trivial (.cons trivial .nil)))

/-- What the operators read of a response. -/
theorem exists_readObject (target : Socks4Response) (is : DataInputStream) :
    ∃ (nullByte : UInt8) (response : Socks4Response) (left : DataInputStream),
      DataEncoding.doDecode order is (target.fields 0) = (response.fields nullByte, left) ∧
      target.readObject order is =
        let is := if nullByte ≠ 0 then left.setBad else left
        ⟨is.good, response, is⟩ :=
  ⟨_, ⟨_, _, _⟩, _, rfl, rfl⟩

theorem roundTrips_response (response : Socks4Response) :
    RoundTrips (readObject order) getObjectSize (response.writeObject order) response where
  length_eq := by
    rw [writeObject_eq, DataEncoding.length_doEncode]
    rfl
  restores target rest := by
    obtain ⟨nullByte, read, left, decoded, same⟩ :=
      @exists_readObject order target ⟨true, response.writeObject order ++ rest⟩
    rw [writeObject_eq, DataEncoding.doDecode_doEncode (sameType_fields ..)] at decoded
    obtain ⟨fields, rfl⟩ := Prod.mk.inj decoded
    obtain ⟨statusCode, destinationPort, destinationIp⟩ := response
    obtain ⟨readStatusCode, readDestinationPort, readDestinationIp⟩ := read
    simp only [Socks4Response.fields, List.cons.injEq, Field.uint8.injEq, Field.uint16.injEq,
      Field.uint32.injEq, and_true] at fields
    obtain ⟨rfl, rfl, rfl, rfl⟩ := fields
    exact same
  strict_fails target s prefixed strict := by
    obtain ⟨nullByte, read, left, decoded, same⟩ :=
      @exists_readObject order target ⟨true, s⟩
    rw [writeObject_eq] at prefixed strict
    have bad := DataEncoding.not_good_of_strict (sameType_fields 0 0 response target) prefixed strict
    rw [decoded] at bad
    rw [same]
    show (if nullByte ≠ 0 then left.setBad else left).good = false
    split
    · rfl
    · exact bad

end Socks4Response

/-! ## Requests -/

structure Socks4Request where
  versionNumber : UInt8
  commandCode : UInt8
  destinationPort : UInt16
  destinationIp : UInt32
  userId : Bytes
deriving DecidableEq

namespace Socks4Request

def reset : Socks4Request := ⟨0, 0, 0, 0, []⟩

/-- The loop of `read_object`.  Every turn but the last takes a byte. -/
def readUserId : Nat → Bytes → DataInputStream → Bytes × DataInputStream
  | 0, userId, is => (userId, is)
  | fuel + 1, userId, is =>
      let ch := readByteInto 0 is
      if ch.ret ∧ 0 < ch.val then readUserId fuel (userId ++ [ch.val]) ch.stream
      else (userId, ch.stream)

def readObject (order : ByteOrder) (_ : Socks4Request) (is : DataInputStream) :
    Extracted Socks4Request :=
  let request := reset
  if is.isAvailable 9 then
    let versionNumber := readUint8Into request.versionNumber is
    let commandCode := readUint8Into request.commandCode versionNumber.stream
    let destinationPort := readUint16Into order request.destinationPort commandCode.stream
    let destinationIp := readUint32Into order request.destinationIp destinationPort.stream
    let is := destinationIp.stream
    let request := ⟨versionNumber.val, commandCode.val, destinationPort.val, destinationIp.val,
      request.userId⟩
    if is.good then
      let read := readUserId (is.rest.length + 1) request.userId is
      ⟨read.2.good, { request with userId := read.1 }, read.2⟩
    else ⟨false, request, is⟩
  else ⟨false, request, is.setBad⟩

def getObjectSize (request : Socks4Request) : Nat := 9 + request.userId.length

def writeObject (order : ByteOrder) (request : Socks4Request) : Bytes :=
  writeUint8 request.versionNumber ++ writeUint8 request.commandCode ++
    writeUint16 order request.destinationPort ++ writeUint32 order request.destinationIp ++
    writeBytes request.userId ++ writeByte 0

/-- The fields of fixed widths, as variables on a stream. -/
def fields (request : Socks4Request) : List Field :=
  [.uint8 request.versionNumber, .uint8 request.commandCode, .uint16 request.destinationPort,
    .uint32 request.destinationIp]

theorem writeObject_eq (request : Socks4Request) :
    request.writeObject order =
      DataEncoding.doEncode order request.fields ++ (writeBytes request.userId ++ [0]) := by
  simp only [writeObject, fields, DataEncoding.doEncode, Field.insert, writeUint8, List.append_nil,
    List.append_assoc, writeByte]

theorem length_header (request : Socks4Request) :
    (DataEncoding.doEncode order request.fields).length = 8 :=
  DataEncoding.length_doEncode request.fields

/-- The loop takes what is not zero. -/
theorem readUserId_append {text : Bytes} (clean : 0 ∉ text) (fuel : Nat) (userId rest : Bytes) :
    readUserId (text.length + fuel) userId ⟨true, text ++ rest⟩ =
      readUserId fuel (userId ++ text) ⟨true, rest⟩ := by
  induction text generalizing userId with
  | nil => rw [List.append_nil, List.length_nil, Nat.zero_add]; rfl
  | cons ch text ih =>
      obtain ⟨nonzero, clean⟩ := List.ne_and_not_mem_of_not_mem_cons clean
      have read : readByteInto 0 ⟨true, ch :: text ++ rest⟩ = ⟨true, ch, ⟨true, text ++ rest⟩⟩ := rfl
      have positive : 0 < ch := UInt8.pos_iff_ne_zero.mpr nonzero.symm
      rw [List.length_cons, Nat.succ_add, readUserId, read, if_pos ⟨rfl, positive⟩, ih clean,
        List.append_assoc]
      rfl

/-- A zero byte ends the loop, -/
theorem readUserId_zero (fuel : Nat) (userId rest : Bytes) :
    readUserId (fuel + 1) userId ⟨true, 0 :: rest⟩ = (userId, ⟨true, rest⟩) := rfl

/-- and so does the end of the input, which is an error. -/
theorem readUserId_nil (fuel : Nat) (userId : Bytes) :
    readUserId (fuel + 1) userId ⟨true, []⟩ = (userId, ⟨false, []⟩) := rfl

/-- What the operators read of a request. -/
theorem exists_readObject (target : Socks4Request) {is : DataInputStream}
    (available : is.isAvailable 9 = true) :
    ∃ (request : Socks4Request) (left : DataInputStream),
      DataEncoding.doDecode order is reset.fields = (request.fields, left) ∧
      target.readObject order is =
        if left.good then
          let read := readUserId (left.rest.length + 1) [] left
          ⟨read.2.good, { request with userId := read.1 }, read.2⟩
        else ⟨false, request, left⟩ :=
  ⟨⟨_, _, _, _, []⟩, _, rfl, by rw [readObject, if_pos available]; rfl⟩

/-- Behind the fields of fixed widths, the user id is read. -/
theorem readObject_header (target request : Socks4Request) {tail : Bytes} (more : tail ≠ []) :
    target.readObject order ⟨true, DataEncoding.doEncode order request.fields ++ tail⟩ =
      let read := readUserId (tail.length + 1) [] ⟨true, tail⟩
      ⟨read.2.good, { request with userId := read.1 }, read.2⟩ := by
  have available :
      isAvailable ⟨true, DataEncoding.doEncode order request.fields ++ tail⟩ 9 = true := by
    have positive := List.length_pos_iff.mpr more
    rw [isAvailable, List.length_append, length_header]
    exact decide_eq_true (by omega)
  obtain ⟨read, left, decoded, same⟩ := @exists_readObject order target _ available
  have types : List.Forall₂ Field.SameType reset.fields request.fields :=
    .cons trivial (.cons trivial (.cons trivial (.cons trivial .nil)))
  rw [DataEncoding.doDecode_doEncode types] at decoded
  obtain ⟨fields, rfl⟩ := Prod.mk.inj decoded
  obtain ⟨versionNumber, commandCode, destinationPort, destinationIp, userId⟩ := request
  obtain ⟨readVersionNumber, readCommandCode, readDestinationPort, readDestinationIp, readUserId⟩ :=
    read
  simp only [Socks4Request.fields, List.cons.injEq, Field.uint8.injEq, Field.uint16.injEq,
    Field.uint32.injEq, and_true] at fields
  obtain ⟨rfl, rfl, rfl, rfl⟩ := fields
  exact same

theorem readObject_of_short (target : Socks4Request) {s : Bytes} (short : s.length < 9) :
    (target.readObject order ⟨true, s⟩).ret = false := by
  have unavailable : isAvailable ⟨true, s⟩ 9 = false := decide_eq_false (not_le.mpr short)
  rw [readObject, unavailable]
  rfl

/-- Bytes that end before a zero byte are not read. -/
theorem readObject_of_clean (target request : Socks4Request) {tail : Bytes} (clean : 0 ∉ tail) :
    (target.readObject order ⟨true, DataEncoding.doEncode order request.fields ++ tail⟩).ret =
      false := by
  by_cases more : tail = []
  · apply readObject_of_short
    rw [List.length_append, length_header, more]
    exact Nat.lt_succ_self 8
  · have taken := readUserId_append clean 1 [] []
    rw [List.append_nil, readUserId_nil] at taken
    rw [readObject_header target request more]
    exact congrArg (fun read => read.2.good) taken

theorem roundTrips_request {request : Socks4Request} (clean : 0 ∉ request.userId)
    (small : request.userId.length < 2 ^ 31) :
    RoundTrips (readObject order) request.getObjectSize (request.writeObject order) request where
  length_eq := by
    rw [writeObject_eq, writeBytes_of_small small, List.length_append, length_header,
      List.length_append, getObjectSize, List.length_singleton]
    omega
  restores target rest := by
    have bound : (request.userId ++ 0 :: rest).length + 1 =
        request.userId.length + (rest.length + 2) := by
      rw [List.length_append, List.length_cons]
      omega
    have taken : readUserId ((request.userId ++ 0 :: rest).length + 1) []
        ⟨true, request.userId ++ 0 :: rest⟩ = (request.userId, ⟨true, rest⟩) := by
      rw [bound, readUserId_append clean, readUserId_zero, List.nil_append]
    have more : request.userId ++ 0 :: rest ≠ [] :=
      List.append_ne_nil_of_right_ne_nil _ (List.cons_ne_nil 0 rest)
    have read := @readObject_header order target request _ more
    rw [taken] at read
    rw [writeObject_eq, writeBytes_of_small small, List.append_assoc, List.append_assoc]
    exact read
  strict_fails target s prefixed strict := by
    rw [writeObject_eq, writeBytes_of_small small, ← List.append_assoc] at prefixed strict
    -- Without the zero byte at the end, the user id is cut off, or not reached.
    have cut : s <+: DataEncoding.doEncode order request.fields ++ request.userId := by
      rcases List.prefix_concat_iff.mp prefixed with whole | cut
      · exact absurd whole strict
      · exact cut
    rcases List.prefix_or_prefix_of_prefix cut (List.prefix_append _ _) with short | ⟨tail, rfl⟩
    · have fewer := short.length_le
      rw [length_header] at fewer
      exact readObject_of_short target (Nat.lt_succ_of_le fewer)
    · have part := (List.prefix_append_right_inj _).mp cut
      exact readObject_of_clean target request fun zero => clean (part.subset zero)

/-- Of a user id that is too long for an `int` not all is written. -/
theorem length_writeObject_lt {request : Socks4Request} (large : 2 ^ 31 ≤ request.userId.length) :
    (request.writeObject order).length < request.getObjectSize := by
  have fewer := length_writeBytes_lt large
  rw [writeObject_eq, List.length_append, length_header, List.length_append, getObjectSize,
    List.length_singleton]
  omega

/-- A user id that is longer than a stream writes. -/
theorem not_roundTrips_request :
    0 ∉ List.replicate (2 ^ 31) (97 : UInt8) ∧
      ¬ RoundTrips (readObject ⟨true⟩)
        (getObjectSize ⟨4, 1, 80, 0x7F000001, List.replicate (2 ^ 31) 97⟩)
        (writeObject ⟨true⟩ ⟨4, 1, 80, 0x7F000001, List.replicate (2 ^ 31) 97⟩)
        ⟨4, 1, 80, 0x7F000001, List.replicate (2 ^ 31) 97⟩ := by
  constructor
  · intro zero
    exact absurd (List.eq_of_mem_replicate zero) (by decide)
  · intro roundTrips
    have shorter := @length_writeObject_lt ⟨true⟩
      ⟨4, 1, 80, 0x7F000001, List.replicate (2 ^ 31) 97⟩ List.length_replicate.ge
    exact shorter.ne roundTrips.length_eq

end Socks4Request

/-- **The messages of SOCKS4 are read back, unless a user id is too long for an `int`.** -/
theorem roundTrips_socks4 (order : ByteOrder) {request : Socks4Request}
    (clean : 0 ∉ request.userId) (response : Socks4Response) :
    RoundTrips (Socks4Request.readObject order) request.getObjectSize
        (request.writeObject order) request ∧
      RoundTrips (Socks4Response.readObject order) Socks4Response.getObjectSize
        (response.writeObject order) response ↔
    request.userId.length < 2 ^ 31 := by
  constructor
  · rintro ⟨roundTrips, -⟩
    by_contra large
    exact (Socks4Request.length_writeObject_lt (not_lt.mp large)).ne roundTrips.length_eq
  · intro small
    exact ⟨Socks4Request.roundTrips_request clean small, response.roundTrips_response⟩

theorem roundTrips_socks4_local :
    RoundTrips (Socks4Request.readObject ⟨true⟩)
        (Socks4Request.getObjectSize ⟨4, 1, 80, 0x7F000001, ascii "xul"⟩)
        (Socks4Request.writeObject ⟨true⟩ ⟨4, 1, 80, 0x7F000001, ascii "xul"⟩)
        ⟨4, 1, 80, 0x7F000001, ascii "xul"⟩ ∧
      RoundTrips (Socks4Response.readObject ⟨true⟩) Socks4Response.getObjectSize
        (Socks4Response.writeObject ⟨true⟩ ⟨90, 80, 0x7F000001⟩) ⟨90, 80, 0x7F000001⟩ ↔
    (ascii "xul").length < 2 ^ 31 :=
  @roundTrips_socks4 ⟨true⟩ ⟨4, 1, 80, 0x7F000001, ascii "xul"⟩ (by decide +kernel)
    ⟨90, 80, 0x7F000001⟩

end Xul
