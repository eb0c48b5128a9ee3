import Xul.Data.BitConverter
import Xul.Foundation.Framing

/-!
# Message packets

`message_packet_pipe` is fed bytes and asked for packets: a length of four bytes in either
byte order, and as many bytes.  What is read is removed from its buffer at the next feed.

A packet without bytes is never taken out of the pipe.  Any other packets are read as they
were framed, however they are fed and read, as long as the position in the buffer is an
`int` (`reads_packets_iff`).
-/

set_option autoImplicit false

namespace Xul

open Foundation

/-- `message_packet_pipe`. -/
structure MessagePacketPipe where
  buffer : Bytes
  position : Int
  maxMessageLength : Int
  packetLengthConverter : BitConverter
deriving DecidableEq

/-- What `read` returns: nothing, nothing with a size of zero, or a packet with its size. -/
inductive PacketRead where
  | null
  | empty
  | packet (data : Bytes)
deriving DecidableEq

namespace MessagePacketPipe

def create (isBigEndian : Bool) (maxMsgSize : Int) : MessagePacketPipe :=
  ⟨[], 0, maxMsgSize, ⟨isBigEndian⟩⟩

def checkBuffer (pipe : MessagePacketPipe) : MessagePacketPipe :=
  if 0 < pipe.position then
    { pipe with
      buffer := if pipe.position ≤ pipe.buffer.length then
          pipe.buffer.drop pipe.position.toNat
        else pipe.buffer
      position := 0 }
  else pipe

def feed (pipe : MessagePacketPipe) (data : Bytes) : MessagePacketPipe :=
  { pipe.checkBuffer with buffer := pipe.checkBuffer.buffer ++ data }

/-- `read`; there is no answer when the position overflows or the length would be read
before the buffer. -/
def read (pipe : MessagePacketPipe) : Option (PacketRead × MessagePacketPipe) :=
  if 2 ^ 31 ≤ pipe.position + 4 then none
  else if pipe.buffer.length < toSizeT (pipe.position + 4) then some (.null, pipe)
  else if pipe.position < 0 then none
  else
    let msgLen := pipe.packetLengthConverter.toDword (pipe.buffer.drop pipe.position.toNat)
    if pipe.maxMessageLength % 2 ^ 32 < msgLen then some (.null, pipe)
    else
      let dataPos := pipe.position + 4
      if msgLen = 0 then some (.empty, pipe)
      else if pipe.buffer.length < (dataPos + msgLen) % 2 ^ 32 then some (.null, pipe)
      else
        some (.packet ((pipe.buffer.drop dataPos.toNat).take msgLen),
          { pipe with position := toInt (pipe.position + (4 + msgLen)) })

/-- What a pipe answers that is fed and read. -/
def run : MessagePacketPipe → List (Pull UInt8) → Option (List PacketRead × MessagePacketPipe)
  | pipe, [] => some ([], pipe)
  | pipe, .feed data :: events => run (pipe.feed data) events
  | pipe, .read :: events =>
      match pipe.read with
      | none => none
      | some (answer, next) =>
          (run next events).map fun later => (answer :: later.1, later.2)

/-- The packets among the answers. -/
def packets (answers : List PacketRead) : List Bytes :=
  answers.filterMap fun answer =>
    match answer with
    | .packet data => some data
    | _ => none

/-- Packets with their lengths in front. -/
def frames (converter : BitConverter) (payloads : List Bytes) : Bytes :=
  (payloads.map fun payload => converter.fromDword payload.length ++ payload).flatten

/-! ## Packets as a framing -/

/-- The packets that a pipe takes: not the empty ones. -/
def packetFraming (converter : BitConverter) (maxMsgSize : Nat) : Framing UInt8 Bytes where
  decode data :=
    if data.length < 4 ∨ maxMsgSize < converter.toDword data ∨ converter.toDword data = 0 ∨
        data.length < 4 + converter.toDword data then none
    else some (4 + converter.toDword data, (data.drop 4).take (converter.toDword data))
  inside := by
    intro data size message found
    split at found
    · exact absurd found (by simp)
    · next whole =>
        cases found
        omega
  stable := by
    intro data found decoded more
    split at decoded
    · exact absurd decoded (by simp)
    · next whole =>
        cases decoded
        have same : converter.toDword (data ++ more) = converter.toDword data :=
          BitConverter.toInteger_append converter (by omega) more
        rw [same, List.length_append, if_neg (by omega), List.drop_append_of_le_length (by omega),
          List.take_append_of_le_length (by rw [List.length_drop]; omega)]

variable {converter : BitConverter} {maxMsgSize : Nat}

theorem packetFraming_decode_frame {payload : Bytes} (nonempty : payload ≠ [])
    (fits : payload.length ≤ maxMsgSize) (int : maxMsgSize < 2 ^ 31) (rest : Bytes) :
    (packetFraming converter maxMsgSize).decode
        (converter.fromDword payload.length ++ payload ++ rest) =
      some (4 + payload.length, payload) := by
  have positive := List.length_pos_of_ne_nil nonempty
  have header : (converter.fromDword payload.length).length = 4 :=
    BitConverter.length_fromInteger ..
  have msgLen : converter.toDword (converter.fromDword payload.length ++ (payload ++ rest)) =
      payload.length := by
    apply BitConverter.toInteger_fromInteger_append
    omega
  have body : (converter.fromDword payload.length ++ (payload ++ rest)).drop 4 =
      payload ++ rest := List.drop_left' header
  simp only [packetFraming, List.append_assoc, msgLen, body, List.length_append, header]
  rw [if_neg (by omega), List.take_left]

theorem packetFraming_decode_empty (rest : Bytes) :
    (packetFraming converter maxMsgSize).decode (converter.fromDword 0 ++ rest) = none := by
  have msgLen : converter.toDword (converter.fromDword 0 ++ rest) = 0 := by
    apply BitConverter.toInteger_fromInteger_append
    decide
  simp [packetFraming, msgLen]

/-- **Packets are drained as they were framed exactly when none is empty.** -/
theorem drain_frames_iff (int : maxMsgSize < 2 ^ 31) {payloads : List Bytes}
    (fit : ∀ payload ∈ payloads, payload.length ≤ maxMsgSize) :
    (packetFraming converter maxMsgSize).drain (frames converter payloads) = (payloads, []) ↔
      ∀ payload ∈ payloads, payload ≠ [] := by
  induction payloads with
  | nil =>
      rw [frames, List.map_nil, List.flatten_nil, Framing.drain_of_none Framing.decode_nil]
      simp
  | cons payload payloads ih =>
      have unfold : frames converter (payload :: payloads) =
          converter.fromDword payload.length ++ payload ++ frames converter payloads := rfl
      rw [List.forall_mem_cons] at fit ⊢
      rw [← ih fit.2, unfold]
      by_cases empty : payload = []
      · subst empty
        rw [List.append_nil, List.length_nil,
          Framing.drain_of_none (packetFraming_decode_empty _)]
        simp
      · have header : (converter.fromDword payload.length).length = 4 :=
          BitConverter.length_fromInteger ..
        have whole : (converter.fromDword payload.length ++ payload).length =
            4 + payload.length := by rw [List.length_append, header]
        rw [Framing.drain_of_some (packetFraming_decode_frame empty fit.1 int _),
          List.drop_left' whole]
        simp [empty, Prod.ext_iff]

/-! ## The pipe pulls packets -/

/-- The positions in the buffer stay within an `int`: `position` bytes are read, and
`left` is what is not read. -/
def PositionsFit (converter : BitConverter) (maxMsgSize : Nat) :
    Nat → Bytes → List (Pull UInt8) → Prop
  | _, _, [] => True
  | _, left, .feed data :: events => PositionsFit converter maxMsgSize 0 (left ++ data) events
  | position, left, .read :: events =>
      position + 4 < 2 ^ 31 ∧
        match (packetFraming converter maxMsgSize).decode left with
        | none => PositionsFit converter maxMsgSize position left events
        | some (size, _) =>
            position + size < 2 ^ 31 ∧
              PositionsFit converter maxMsgSize (position + size) (left.drop size) events

/-- A pipe that is fed less than 2 GB has positions that fit. -/
theorem positionsFit_of_length {position : Nat} {left : Bytes} {events : List (Pull UInt8)}
    (short : position + left.length + (fed events).length + 4 < 2 ^ 31) :
    PositionsFit converter maxMsgSize position left events := by
  induction events generalizing position left with
  | nil => trivial
  | cons event events ih =>
      cases event with
      | feed data =>
          apply ih
          rw [fed, List.length_append] at short
          rw [List.length_append]
          omega
      | read =>
          rw [fed] at short
          refine ⟨by omega, ?_⟩
          cases found : (packetFraming converter maxMsgSize).decode left with
          | none => exact ih short
          | some pair =>
              have inside := (@Framing.inside _ _ _ left pair.1 pair.2 found).2
              refine ⟨by omega, ih ?_⟩
              rw [List.length_drop]
              omega

/-- A pipe that has read the front of its buffer. -/
def holding (converter : BitConverter) (maxMsgSize : Nat) (front left : Bytes) :
    MessagePacketPipe :=
  ⟨front ++ left, front.length, maxMsgSize, converter⟩

theorem feed_holding (front left data : Bytes) :
    (holding converter maxMsgSize front left).feed data =
      holding converter maxMsgSize [] (left ++ data) := by
  cases front with
  | nil => rfl
  | cons byte front =>
      have positive : (0 : Int) < (byte :: front).length := by simp
      have inside : ((byte :: front).length : Int) ≤ ((byte :: front) ++ left).length := by
        simp
      simp only [feed, checkBuffer, holding, if_pos positive, if_pos inside, Int.toNat_natCast,
        List.drop_left]
      rfl

variable {front left : Bytes}

theorem read_of_overflow (overflow : 2 ^ 31 ≤ front.length + 4) :
    (holding converter maxMsgSize front left).read = none := by
  rw [read, if_pos (by simp only [holding]; omega)]

/-- What a read does on the way to the length. -/
theorem toDword_holding (front left : Bytes) :
    (holding converter maxMsgSize front left).packetLengthConverter.toDword
        ((holding converter maxMsgSize front left).buffer.drop
          (holding converter maxMsgSize front left).position.toNat) =
      converter.toDword left := by
  simp only [holding, Int.toNat_natCast, List.drop_left]

/-- Nothing is read from a beginning that is no packet. -/
theorem read_of_decode_none (int : maxMsgSize < 2 ^ 31) (fits : front.length + 4 < 2 ^ 31)
    (none : (packetFraming converter maxMsgSize).decode left = none) :
    ∃ answer, (holding converter maxMsgSize front left).read =
        some (answer, holding converter maxMsgSize front left) ∧ packets [answer] = [] := by
  have limit : (maxMsgSize : Int) % 2 ^ 32 = maxMsgSize := by omega
  have inRange : toSizeT ((front.length : Int) + 4) = front.length + 4 :=
    toSizeT_of_nonneg (by omega) (by omega)
  simp only [packetFraming, ite_eq_left_iff, reduceCtorEq, imp_false, not_not] at none
  rw [read, toDword_holding]
  simp only [holding, inRange, limit, List.length_append]
  rw [if_neg (by omega)]
  by_cases short : left.length < 4
  · rw [if_pos (by omega)]
    exact ⟨.null, rfl, rfl⟩
  rw [if_neg (by omega), if_neg (by omega)]
  by_cases large : maxMsgSize < converter.toDword left
  · rw [if_pos (by omega)]
    exact ⟨.null, rfl, rfl⟩
  rw [if_neg (by omega)]
  by_cases zero : converter.toDword left = 0
  · rw [if_pos zero]
    exact ⟨.empty, rfl, rfl⟩
  rw [if_neg zero, if_pos (by omega)]
  exact ⟨.null, rfl, rfl⟩

/-- A packet that begins what is left is read. -/
theorem read_of_decode_some (int : maxMsgSize < 2 ^ 31) (fits : front.length + 4 < 2 ^ 31)
    {size : Nat} {message : Bytes}
    (found : (packetFraming converter maxMsgSize).decode left = some (size, message)) :
    size < 2 ^ 31 + 4 ∧
      (holding converter maxMsgSize front left).read =
        some (.packet message, { holding converter maxMsgSize front left with
          position := toInt (front.length + size : Nat) }) := by
  have limit : (maxMsgSize : Int) % 2 ^ 32 = maxMsgSize := by omega
  have inRange : toSizeT ((front.length : Int) + 4) = front.length + 4 :=
    toSizeT_of_nonneg (by omega) (by omega)
  simp only [packetFraming] at found
  split at found
  · exact absurd found (by simp)
  next whole =>
  cases found
  have dataPos : ((front.length : Int) + 4).toNat = front.length + 4 := by omega
  have body : (front ++ left).drop (front.length + 4) = left.drop 4 := List.drop_length_add_append 4
  refine ⟨by omega, ?_⟩
  rw [read, toDword_holding]
  simp only [holding, inRange, limit, dataPos, body, List.length_append]
  rw [if_neg (by omega), if_neg (by omega), if_neg (by omega), if_neg (by omega),
    if_neg (by omega), if_neg (by omega)]
  simp

theorem length_front_append {size : Nat} {message : Bytes}
    (found : (packetFraming converter maxMsgSize).decode left = some (size, message))
    (front : Bytes) : (front ++ left.take size).length = front.length + size := by
  rw [List.length_append, List.length_take_of_le ((packetFraming _ _).inside found).2]

/-- The pipe has read the packet while its position is an `int`. -/
theorem read_packet (int : maxMsgSize < 2 ^ 31) (fits : front.length + 4 < 2 ^ 31) {size : Nat}
    {message : Bytes}
    (found : (packetFraming converter maxMsgSize).decode left = some (size, message))
    (more : front.length + size < 2 ^ 31) :
    (holding converter maxMsgSize front left).read = some (.packet message,
      holding converter maxMsgSize (front ++ left.take size) (left.drop size)) := by
  rw [(read_of_decode_some int fits found).2, toInt_natCast more]
  simp only [holding, length_front_append found, List.append_assoc, List.take_append_drop]

/-- A position that is no `int` any more is negative. -/
theorem read_packet_overflow (int : maxMsgSize < 2 ^ 31) (fits : front.length + 4 < 2 ^ 31)
    {size : Nat} {message : Bytes}
    (found : (packetFraming converter maxMsgSize).decode left = some (size, message))
    (overflow : 2 ^ 31 ≤ front.length + size) :
    ∃ next, (holding converter maxMsgSize front left).read = some (.packet message, next) ∧
      next.position < 0 := by
  obtain ⟨bound, taken⟩ := read_of_decode_some int fits found
  refine ⟨_, taken, ?_⟩
  have negative : toInt (front.length + size : Nat) < 0 :=
    toInt_neg_of_large overflow (by omega)
  simpa only using negative

theorem packets_cons (answer : PacketRead) (answers : List PacketRead) :
    packets (answer :: answers) = packets [answer] ++ packets answers :=
  List.filterMap_append (l := [answer])

/-- **A pipe whose positions fit pulls packets.** -/
theorem run_of_positionsFit (int : maxMsgSize < 2 ^ 31) (events : List (Pull UInt8)) :
    ∀ (front left : Bytes), PositionsFit converter maxMsgSize front.length left events →
      ∃ answers read, (holding converter maxMsgSize front left).run events = some (answers,
          holding converter maxMsgSize read
            ((packetFraming converter maxMsgSize).pull left events).2) ∧
        packets answers = ((packetFraming converter maxMsgSize).pull left events).1 := by
  induction events with
  | nil =>
      intro front left _
      exact ⟨[], front, rfl, rfl⟩
  | cons event events ih =>
      intro front left fit
      cases event with
      | feed data =>
          rw [run, feed_holding]
          exact ih [] (left ++ data) fit
      | read =>
          obtain ⟨fits, later⟩ := fit
          cases found : (packetFraming converter maxMsgSize).decode left with
          | none =>
              rw [found] at later
              obtain ⟨answer, same, nothing⟩ := read_of_decode_none int fits found
              obtain ⟨answers, read, ran, pulled⟩ := ih front left later
              refine ⟨answer :: answers, read, ?_, ?_⟩
              · simp only [run, same, ran, Framing.pull, found]
                rfl
              · simp only [Framing.pull, found]
                rw [packets_cons, nothing, pulled, List.nil_append]
          | some pair =>
              obtain ⟨size, message⟩ := pair
              rw [found] at later
              have length := length_front_append found front
              obtain ⟨answers, read, ran, pulled⟩ :=
                ih (front ++ left.take size) (left.drop size) (by rw [length]; exact later.2)
              refine ⟨.packet message :: answers, read, ?_, ?_⟩
              · simp only [run, read_packet int fits found later.1, ran, Framing.pull, found]
                rfl
              · simp only [Framing.pull, found]
                rw [packets_cons, pulled]
                rfl

/-- A position that has become negative stays as it is. -/
theorem run_of_negative (events : List (Pull UInt8)) :
    ∀ {pipe : MessagePacketPipe}, pipe.position < 0 → ∀ {answers last},
      pipe.run events = some (answers, last) → last.position < 0 := by
  induction events with
  | nil =>
      intro pipe negative answers last ran
      cases ran
      exact negative
  | cons event events ih =>
      intro pipe negative answers last ran
      cases event with
      | feed data =>
          refine ih ?_ ran
          rw [feed, checkBuffer, if_neg (by omega)]
          exact negative
      | read =>
          rw [run, read, if_neg (by omega)] at ran
          by_cases outside : pipe.buffer.length < toSizeT (pipe.position + 4)
          · rw [if_pos outside] at ran
            obtain ⟨later, rest, same⟩ := Option.map_eq_some_iff.mp ran
            cases same
            exact ih negative rest
          · rw [if_neg outside, if_pos negative] at ran
            cases ran

/-- When a position does not fit there is no answer, or the position ends negative. -/
theorem run_of_not_positionsFit (int : maxMsgSize < 2 ^ 31) (events : List (Pull UInt8)) :
    ∀ {front left : Bytes}, ¬ PositionsFit converter maxMsgSize front.length left events →
      ∀ {answers last}, (holding converter maxMsgSize front left).run events =
        some (answers, last) → last.position < 0 := by
  induction events with
  | nil =>
      intro front left overflow
      exact absurd trivial overflow
  | cons event events ih =>
      intro front left overflow answers last ran
      cases event with
      | feed data =>
          rw [run, feed_holding] at ran
          exact ih overflow ran
      | read =>
          by_cases fits : front.length + 4 < 2 ^ 31
          · simp only [PositionsFit, fits, true_and] at overflow
            cases found : (packetFraming converter maxMsgSize).decode left with
            | none =>
                rw [found] at overflow
                obtain ⟨answer, same, -⟩ := read_of_decode_none int fits found
                simp only [run, same] at ran
                obtain ⟨later, rest, pair⟩ := Option.map_eq_some_iff.mp ran
                cases pair
                exact ih overflow rest
            | some pair =>
                obtain ⟨size, message⟩ := pair
                simp only [found] at overflow
                by_cases more : front.length + size < 2 ^ 31
                · simp only [run, read_packet int fits found more] at ran
                  obtain ⟨later, rest, pair⟩ := Option.map_eq_some_iff.mp ran
                  cases pair
                  refine ih ?_ rest
                  rw [length_front_append found]
                  exact fun fit => overflow ⟨more, fit⟩
                · obtain ⟨next, taken, negative⟩ :=
                    read_packet_overflow int fits found (Nat.le_of_not_lt more)
                  simp only [run, taken] at ran
                  obtain ⟨later, rest, pair⟩ := Option.map_eq_some_iff.mp ran
                  cases pair
                  exact run_of_negative events negative rest
          · rw [run, read_of_overflow (by omega)] at ran
            cases ran

/-- **The packets come out as they were framed exactly when none is empty and the positions
in the buffer fit.**  The pipe is fed and read in any order, and in the end once more than
there are packets. -/
theorem reads_packets_iff (isBigEndian : Bool) {maxMsgSize : Nat} (int : maxMsgSize < 2 ^ 31)
    {payloads : List Bytes} (allowed : ∀ payload ∈ payloads, payload.length ≤ maxMsgSize)
    {events : List (Pull UInt8)} (framed : fed events = frames ⟨isBigEndian⟩ payloads) :
    let reads := events ++ List.replicate (payloads.length + 1) .read
    (∃ answers last, (create isBigEndian maxMsgSize).run reads = some (answers, last) ∧
        packets answers = payloads ∧ last.position = last.buffer.length) ↔
      (∀ payload ∈ payloads, payload ≠ []) ∧
        PositionsFit ⟨isBigEndian⟩ maxMsgSize 0 [] reads := by
  intro reads
  have start : create isBigEndian maxMsgSize = holding ⟨isBigEndian⟩ maxMsgSize [] [] := rfl
  have all : fed reads = frames ⟨isBigEndian⟩ payloads := by
    rw [fed_append, fed_replicate_read, List.append_nil, framed]
  rw [start, ← drain_frames_iff int allowed]
  constructor
  · rintro ⟨answers, last, ran, answered, consumed⟩
    by_cases fit : PositionsFit ⟨isBigEndian⟩ maxMsgSize 0 [] reads
    · obtain ⟨answers', read, ran', pulled⟩ := run_of_positionsFit int reads [] [] fit
      rw [ran] at ran'
      cases ran'
      have nothing : ((packetFraming ⟨isBigEndian⟩ maxMsgSize).pull [] reads).2 = [] := by
        simp only [holding, List.length_append] at consumed
        exact List.eq_nil_of_length_eq_zero (by omega)
      have whole := @Framing.drain_pull _ _ (packetFraming ⟨isBigEndian⟩ maxMsgSize) [] reads
      rw [List.nil_append, all, nothing, Framing.drain_of_none Framing.decode_nil, ← pulled,
        answered, List.append_nil] at whole
      exact ⟨whole, fit⟩
    · have negative := run_of_not_positionsFit int reads fit ran
      omega
  · rintro ⟨drained, fit⟩
    obtain ⟨answers, read, ran, pulled⟩ := run_of_positionsFit int reads [] [] fit
    have enough : ((packetFraming ⟨isBigEndian⟩ maxMsgSize).drain (fed events)).1.length ≤
        payloads.length + 1 := by
      rw [framed, drained]
      exact Nat.le_succ _
    rw [Framing.pull_reads enough, framed, drained] at ran pulled
    refine ⟨answers, _, ran, pulled, ?_⟩
    simp [holding]

/-- Three packets in four feeds, read between the feeds. -/
theorem reads_packets_iff_abc : ∃ answers last, (create true 8).run
    ([.feed [0, 0], .read, .feed [0, 1, 97, 0, 0, 0, 2, 98], .read, .read, .feed [98],
      .feed [0, 0, 0, 1, 99]] ++ List.replicate 4 .read) = some (answers, last) ∧
      packets answers = [ascii "a", ascii "bb", ascii "c"] ∧
      last.position = last.buffer.length :=
  (@reads_packets_iff true 8 (by decide) [ascii "a", ascii "bb", ascii "c"] (by decide)
    [.feed [0, 0], .read, .feed [0, 1, 97, 0, 0, 0, 2, 98], .read, .read, .feed [98],
      .feed [0, 0, 0, 1, 99]] (by decide)).mpr ⟨by decide, positionsFit_of_length (by decide)⟩

/-- An empty packet is never taken out of the pipe. -/
theorem empty_packet_stays : fed [.feed [0, 0, 0, 0]] = frames ⟨true⟩ [[]] ∧
    ¬ ∃ answers last, (create true 8).run
        ([.feed [0, 0, 0, 0]] ++ List.replicate 2 .read) = some (answers, last) ∧
      packets answers = [[]] ∧ last.position = last.buffer.length := by
  refine ⟨by decide, ?_⟩
  rintro ⟨answers, last, ran, answered, consumed⟩
  have stays : (create true 8).run ([.feed [0, 0, 0, 0]] ++ List.replicate 2 .read) =
      some ([.empty, .empty], ⟨[0, 0, 0, 0], 0, 8, ⟨true⟩⟩) := by decide
  rw [stays] at ran
  cases ran
  exact absurd consumed (by decide)

end MessagePacketPipe

end Xul
