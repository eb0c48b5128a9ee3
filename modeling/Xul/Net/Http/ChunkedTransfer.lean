import Xul.Net.Http.ChunkedSegmentation
import Xul.Net.UrlSession

/-!
# Chunked sender and receiver

A session in chunked mode writes each payload as a chunk and closes the body with a
chunk of size zero; `chunked_http_filter` reads what it wrote.  The two agree on every
payload but the empty one, whose chunk is the one that closes a body: the receiver
stops there, and payloads after it are lost.

What a session has written is followed through the socket (`Streaming`), and what the
receiver makes of it through the simulation of `ChunkedSegmentation`; the two meet at
the list of payloads that the sending queue had room for.
-/

set_option autoImplicit false

namespace Xul

open Foundation

/-! ## A size as the sender prints it -/

theorem printHex_natCast {size : Nat} (small : size < 2 ^ 32) :
    printHex size = printNat 16 size := by
  rw [printHex, Int.emod_eq_of_lt (by omega) (by omega), Int.toNat_natCast]

/-- **The receiver reads the size that the sender prints.** -/
theorem hexSize_printHex {size : Nat} (small : size < 2 ^ 31) :
    ChunkedHttpFilter.hexSize (printHex size) = some size := by
  rw [printHex_natCast (by omega), printNat_eq_map]
  have reads : ∀ digit ∈ digitsOf 16 size, digitValue 16 (digitChar digit) = some digit :=
    fun digit member => digitValue_digitChar (digitsOf_lt (by decide) member)
  refine ChunkedHttpFilter.hexSize_eq_some_iff.mpr ⟨?_, ?_, ?_, small⟩
  · rw [ne_eq, List.map_eq_nil_iff]
    exact digitsOf_ne_nil 16 size
  · intro c member
    obtain ⟨digit, present, rfl⟩ := List.mem_map.mp member
    rw [reads digit present]
    rfl
  · have scanned := scanDigits_map_append reads (show scanDigits 16 [] = [] from rfl)
    rw [List.append_nil] at scanned
    rw [scanned, ofDigits_digitsOf 16]

namespace UrlSession

/-! ## The sender -/

theorem chunk_nil : chunk [] = chunkedEndTag := by decide

/-- A payload is shorter than its chunk by a line end and more. -/
theorem length_add_two_lt_of_chunk {payload : Bytes} (small : (chunk payload).length < 2 ^ 31) :
    payload.length + 2 < 2 ^ 31 := by
  simp only [chunk, crlf, List.length_append, List.length_cons, List.length_nil] at small
  omega

/-- The chunk of a payload, when the size of the chunk fits an `int`. -/
def payloadChunk (payload : Bytes) (nonempty : payload ≠ [])
    (small : (chunk payload).length < 2 ^ 31) : Chunked.Chunk ChunkedHttpFilter.hexSize where
  line := printHex payload.length
  payload := payload
  oneLine :=
    ChunkedHttpFilter.not_mem_of_hexSize
      (hexSize_printHex (Nat.lt_of_add_right_lt (length_add_two_lt_of_chunk small))) (by decide)
  sized := hexSize_printHex (Nat.lt_of_add_right_lt (length_add_two_lt_of_chunk small))
  nonempty := nonempty

/-- What happens to a session between its header and its end: body data is sent, and
the write in flight completes. -/
inductive TransferEvent where
  | sendData (payload : Bytes)
  | written

def transferStep (session : UrlSession) : TransferEvent → UrlSession
  | .sendData payload => (session.sendData payload).2
  | .written =>
      match session.connection.socket.native.writes with
      | [] => session
      | buf :: _ => { session with connection := session.connection.advance (.writeCompleted buf 0) }

def transfer (session : UrlSession) (events : List TransferEvent) : UrlSession :=
  events.foldl transferStep session

/-- The payloads for which `send_data` returned true. -/
def taken (session : UrlSession) : List TransferEvent → List Bytes
  | [] => []
  | .sendData payload :: events =>
      (if (session.sendData payload).1 then [payload] else []) ++
        taken (session.sendData payload).2 events
  | .written :: events => taken (session.transferStep .written) events

/-- The payloads that are sent while the sending queue has room. -/
def offered (session : UrlSession) : List TransferEvent → List Bytes
  | [] => []
  | .sendData payload :: events =>
      (if session.connection.socket.HasRoom then [payload] else []) ++
        offered (session.sendData payload).2 events
  | .written :: events => offered (session.transferStep .written) events

/-- A session in the middle of a chunked body, on an open connection. -/
structure Streaming (session : UrlSession) : Prop where
  chunked : session.chunkedMode = true
  isOpen : session.connection.socket.native.isOpen = true
  inFlight : session.connection.socket.FrontInFlight
  bounded : (session.connection.socket.sendingQueue.length : Int) ≤
    session.connection.socket.maxSendingQueueSize
  range : session.connection.socket.maxSendingQueueSize < 2 ^ 31
  sound : session.fault = false

end UrlSession

/-! ## What reaches the wire -/

/-- What stays the same of a socket that is only written to. -/
structure SocketRun.SendsOn (before after : SocketRun) (sent : Bytes) : Prop where
  wire : after.wire = before.wire ++ sent
  isOpen : after.socket.native.isOpen = true
  inFlight : after.socket.FrontInFlight
  capacity : after.socket.maxSendingQueueSize = before.socket.maxSendingQueueSize

theorem AsioTcpSocket.processSendingQueue_of_open {socket : AsioTcpSocket}
    (isOpen : socket.native.isOpen = true) :
    socket.processSendingQueue.sendingQueue = socket.sendingQueue ∧
      socket.processSendingQueue.native.isOpen = true ∧
      socket.processSendingQueue.maxSendingQueueSize = socket.maxSendingQueueSize := by
  cases queue : socket.sendingQueue with
  | nil => simp [processSendingQueue, queue, isOpen]
  | cons buf rest => simp [processSendingQueue, queue, isOpen, doSendN]

/-- **A buffer that the queue has room for goes to the end of the wire.** -/
theorem SocketRun.advance_sendN {run : SocketRun} {data : Bytes}
    (isOpen : run.socket.native.isOpen = true) (inFlight : run.socket.FrontInFlight)
    (room : run.socket.HasRoom) :
    SendsOn run (run.advance (.sendN data)) data ∧
      (run.advance (.sendN data)).socket.sendingQueue.length =
        run.socket.sendingQueue.length + 1 := by
  have accepted := AsioTcpSocket.sendN_of_room room ⟨run.allocated, data⟩
  have front := (AsioTcpSocket.sendN_spec inFlight ⟨run.allocated, data⟩).1
  have same : (run.socket.sendN ⟨run.allocated, data⟩).2.sendingQueue =
      run.socket.sendingQueue ++ [⟨run.allocated, data⟩] ∧
      (run.socket.sendN ⟨run.allocated, data⟩).2.native.isOpen = true ∧
      (run.socket.sendN ⟨run.allocated, data⟩).2.maxSendingQueueSize =
        run.socket.maxSendingQueueSize := by
    simp only [AsioTcpSocket.sendN, if_neg (show ¬ _ from room)]
    split
    · exact AsioTcpSocket.processSendingQueue_of_open isOpen
    · exact ⟨rfl, isOpen, rfl⟩
  simp only [advance, step, accepted, if_true, Option.getD_some]
  refine ⟨⟨?_, same.2.1, front, same.2.2⟩, ?_⟩
  · simp [SocketRun.wire, same.1]
  · rw [same.1, List.length_append]
    rfl

/-- A write that completes leaves the wire as it is. -/
theorem SocketRun.advance_written {run : SocketRun} {buf : SendBuffer} {others : List SendBuffer}
    (isOpen : run.socket.native.isOpen = true) (inFlight : run.socket.FrontInFlight)
    (writes : run.socket.native.writes = buf :: others) :
    SendsOn run (run.advance (.writeCompleted buf 0)) [] ∧
      (run.advance (.writeCompleted buf 0)).socket.sendingQueue.length ≤
        run.socket.sendingQueue.length := by
  obtain ⟨rest, queue⟩ : ∃ rest, run.socket.sendingQueue = buf :: rest := by
    have front := inFlight
    rw [AsioTcpSocket.FrontInFlight, writes] at front
    cases queue : run.socket.sendingQueue with
    | nil => simp [queue] at front
    | cons first rest =>
        rw [queue] at front
        exact ⟨rest, by rw [(List.cons.inj front).1]⟩
  have single : others = [] := by
    have front := inFlight
    rw [AsioTcpSocket.FrontInFlight, writes, queue] at front
    exact (List.cons.inj front).2
  have idle : (retire run.socket buf).native.writes = [] := by
    simp [retire, writes, single]
  have front := (AsioTcpSocket.onSend_spec idle).1
  have same := AsioTcpSocket.processSendingQueue_of_open
    (show { retire run.socket buf with sendingQueue := rest }.native.isOpen = true from isOpen)
  have after : (retire run.socket buf).onSend 0 =
      { retire run.socket buf with sendingQueue := rest }.processSendingQueue := by
    simp [AsioTcpSocket.onSend, retire, queue]
  rw [after] at front
  have member : buf ∈ run.socket.native.writes := by
    rw [writes]
    exact List.mem_cons_self ..
  simp only [advance, step, if_pos member, ne_eq, not_true_eq_false, if_false, Option.getD_some,
    after]
  refine ⟨⟨?_, same.2.1, front, same.2.2⟩, ?_⟩
  · simp [SocketRun.wire, same.1, queue]
  · rw [same.1, queue]
    simp

namespace UrlSession

/-- A session goes on streaming over a connection that was only written to. -/
theorem Streaming.sends {session : UrlSession} (streaming : Streaming session)
    {connection : SocketRun} {data : Bytes}
    (sends : session.connection.SendsOn connection data)
    (bounded : (connection.socket.sendingQueue.length : Int) ≤
      session.connection.socket.maxSendingQueueSize) (chunkedBuffer : Bytes) :
    Streaming { session with connection, chunkedBuffer } where
  chunked := streaming.chunked
  isOpen := sends.isOpen
  inFlight := sends.inFlight
  bounded := by
    simp only [sends.capacity]
    exact bounded
  range := by
    simp only [sends.capacity]
    exact streaming.range
  sound := streaming.sound

/-- A session goes on streaming after a payload that was refused. -/
theorem Streaming.refuses {session : UrlSession} (streaming : Streaming session)
    (chunkedBuffer : Bytes) : Streaming { session with chunkedBuffer } where
  chunked := streaming.chunked
  isOpen := streaming.isOpen
  inFlight := streaming.inFlight
  bounded := streaming.bounded
  range := streaming.range
  sound := streaming.sound

/-- The queue of a streaming session has room exactly when it is not at its limit. -/
theorem Streaming.hasRoom_iff {session : UrlSession} (streaming : Streaming session) :
    session.connection.socket.HasRoom ↔
      (session.connection.socket.sendingQueue.length : Int) <
        session.connection.socket.maxSendingQueueSize := by
  have bounded := streaming.bounded
  have range := streaming.range
  rw [AsioTcpSocket.HasRoom, toSizeT_of_nonneg (by omega) (by omega), not_le]

/-- **A payload for which there is room is written as its chunk.** -/
theorem Streaming.sendData_of_room {session : UrlSession} (streaming : Streaming session)
    {payload : Bytes} (room : session.connection.socket.HasRoom)
    (small : (chunk payload).length < 2 ^ 31) :
    (session.sendData payload).1 = true ∧ Streaming (session.sendData payload).2 ∧
      (session.sendData payload).2.connection.wire =
        session.connection.wire ++ chunk payload := by
  obtain ⟨sends, grows⟩ :=
    @SocketRun.advance_sendN _ (chunk payload) streaming.isOpen streaming.inFlight room
  have below := streaming.hasRoom_iff.mp room
  have sent : session.sendData payload = (true, { session with
      connection := session.connection.advance (.sendN (chunk payload))
      chunkedBuffer := chunk payload }) := by
    rw [sendData, if_pos streaming.chunked]
    exact doSendData_of_room room small
  rw [sent]
  refine ⟨rfl, streaming.sends sends ?_ _, sends.wire⟩
  rw [grows]
  omega

theorem Streaming.sendData_of_full {session : UrlSession} (streaming : Streaming session)
    {payload : Bytes} (full : ¬ session.connection.socket.HasRoom) :
    session.sendData payload = (false, { session with chunkedBuffer := chunk payload }) := by
  rw [sendData, if_pos streaming.chunked]
  exact doSendData_of_full full

theorem Streaming.written {session : UrlSession} (streaming : Streaming session) :
    Streaming (session.transferStep .written) ∧
      (session.transferStep .written).connection.wire = session.connection.wire := by
  rw [transferStep]
  cases writes : session.connection.socket.native.writes with
  | nil => exact ⟨streaming, rfl⟩
  | cons buf others =>
      obtain ⟨sends, shrinks⟩ :=
        SocketRun.advance_written streaming.isOpen streaming.inFlight writes
      have bounded := streaming.bounded
      exact ⟨streaming.sends sends (by omega) session.chunkedBuffer,
        sends.wire.trans (List.append_nil _)⟩

/-! ### Sizes that do not fit -/

theorem doSendData_fault {session : UrlSession} (fault : session.fault = true) (data : Bytes) :
    (session.doSendData data).2.fault = true := by
  rw [doSendData]
  split
  · split
    · rfl
    · exact fault
  · exact fault

theorem sendData_fault {session : UrlSession} (fault : session.fault = true) (data : Bytes) :
    (session.sendData data).2.fault = true := by
  rw [sendData]
  split
  · exact doSendData_fault (show { session with chunkedBuffer := chunk data }.fault = true from fault)
      (chunk data)
  · exact doSendData_fault fault data

theorem finish_fault {session : UrlSession} (fault : session.fault = true) :
    session.finish.fault = true := by
  have ended : session.sendEndTag.fault = true := by
    rw [sendEndTag]
    split
    · exact doSendData_fault (show { session with connection := _ }.fault = true from fault) _
    · exact fault
  rw [finish]
  split
  · exact ended
  · exact ended

/-- A fault stays. -/
theorem transfer_fault {events : List TransferEvent} :
    ∀ {session : UrlSession}, session.fault = true → (session.transfer events).fault = true := by
  induction events with
  | nil =>
      intro session fault
      exact fault
  | cons event events ih =>
      intro session fault
      refine ih ?_
      cases event with
      | sendData payload => exact sendData_fault fault payload
      | written =>
          rw [transferStep]
          split
          · exact fault
          · exact fault

/-! ### The whole body -/

/-- **What a session has written when every chunk fits.**  The induction is on the
events; between them the session is streaming. -/
theorem transfer_of_small {events : List TransferEvent} :
    ∀ {session : UrlSession}, Streaming session →
      (∀ payload ∈ offered session events, (chunk payload).length < 2 ^ 31) →
      Streaming (session.transfer events) ∧ taken session events = offered session events ∧
        (session.transfer events).connection.wire =
          session.connection.wire ++ (offered session events).flatMap chunk := by
  induction events with
  | nil =>
      intro session streaming _
      exact ⟨streaming, rfl, (List.append_nil _).symm⟩
  | cons event events ih =>
      intro session streaming small
      cases event with
      | sendData payload =>
          rw [offered] at small ⊢
          rw [taken]
          by_cases room : session.connection.socket.HasRoom
          · rw [if_pos room] at small ⊢
            obtain ⟨accepted, next, wire⟩ :=
              streaming.sendData_of_room room (small payload (by simp))
            obtain ⟨last, same, later⟩ := ih next fun other member =>
              small other (List.mem_append_right _ member)
            refine ⟨last, by rw [accepted, if_pos rfl, same], ?_⟩
            rw [transfer, List.foldl_cons, transferStep, ← transfer, later, wire]
            simp
          · have refused := @Streaming.sendData_of_full _ streaming payload room
            rw [if_neg room] at small ⊢
            rw [refused] at small ⊢
            have next := streaming.refuses (chunk payload)
            obtain ⟨last, same, later⟩ := ih next small
            refine ⟨?_, by simpa using same, ?_⟩
            · rw [transfer, List.foldl_cons, transferStep, refused]
              exact last
            · rw [transfer, List.foldl_cons, transferStep, refused, List.nil_append]
              exact later
      | written =>
          obtain ⟨next, wire⟩ := streaming.written
          rw [offered] at small ⊢
          rw [taken]
          obtain ⟨last, same, later⟩ := ih next small
          refine ⟨last, same, ?_⟩
          rw [← wire]
          exact later

/-- A chunk that does not fit leaves a fault. -/
theorem transfer_of_large {events : List TransferEvent} :
    ∀ {session : UrlSession}, Streaming session →
      (∃ payload ∈ offered session events, 2 ^ 31 ≤ (chunk payload).length) →
      (session.transfer events).fault = true := by
  induction events with
  | nil =>
      rintro session - ⟨payload, member, -⟩
      cases member
  | cons event events ih =>
      rintro session streaming ⟨large, member, size⟩
      cases event with
      | sendData payload =>
          rw [offered] at member
          by_cases room : session.connection.socket.HasRoom
          · by_cases small : (chunk payload).length < 2 ^ 31
            · rw [if_pos room] at member
              rcases List.mem_append.mp member with here | later
              · rw [List.mem_singleton.mp here] at size
                exact absurd small (not_lt_of_ge size)
              · exact ih (streaming.sendData_of_room room small).2.1 ⟨large, later, size⟩
            · have fault : (session.sendData payload).2.fault = true := by
                rw [sendData, if_pos streaming.chunked]
                exact congrArg (fun sent => sent.2.fault)
                  (doSendData_of_large (show { session with
                    chunkedBuffer := chunk payload }.connection.socket.HasRoom from room)
                    (not_lt.mp small))
              rw [transfer, List.foldl_cons, transferStep]
              exact transfer_fault fault
          · rw [if_neg room, List.nil_append] at member
            have refused := @Streaming.sendData_of_full _ streaming payload room
            rw [refused] at member
            have next := streaming.refuses (chunk payload)
            rw [transfer, List.foldl_cons, transferStep, refused]
            exact ih next ⟨large, member, size⟩
      | written =>
          rw [offered] at member
          exact ih streaming.written.1 ⟨large, member, size⟩

/-- **The end of the body always finds room.** -/
theorem Streaming.finish {session : UrlSession} (streaming : Streaming session) :
    session.finish.fault = false ∧
      session.finish.connection.wire = session.connection.wire ++ chunkedEndTag := by
  have bounded := streaming.bounded
  have range := streaming.range
  obtain ⟨raised, size, queue, native, capacity, wire⟩ : ∃ raised,
      session.connection.advance
        (.setMaxSendingQueueSize ((session.getSendingQueueSize + 3 : Nat) : Int)) = raised ∧
      raised.socket.sendingQueue = session.connection.socket.sendingQueue ∧
      raised.socket.native = session.connection.socket.native ∧
      raised.socket.maxSendingQueueSize = ((session.getSendingQueueSize + 3 : Nat) : Int) ∧
      raised.wire = session.connection.wire := by
    refine ⟨_, rfl, ?_⟩
    rw [SocketRun.advance, SocketRun.step, AsioTcpSocket.setMaxSendingQueueSize,
      if_neg (by omega)]
    exact ⟨rfl, rfl, rfl, rfl⟩
  have room : raised.socket.HasRoom := by
    rw [AsioTcpSocket.HasRoom, capacity, queue, getSendingQueueSize,
      toSizeT_of_nonneg (by omega) (by omega)]
    omega
  have inFlight : raised.socket.FrontInFlight := by
    rw [AsioTcpSocket.FrontInFlight, native, queue]
    exact streaming.inFlight
  obtain ⟨sends, grows⟩ := @SocketRun.advance_sendN raised chunkedEndTag
    (by rw [native]; exact streaming.isOpen) inFlight room
  have ended : session.sendEndTag =
      { session with connection := raised.advance (.sendN chunkedEndTag) } := by
    rw [sendEndTag, if_pos streaming.chunked]
    simp only [size]
    rw [doSendData_of_room room (by decide)]
  have busy : ¬ ({ session.sendEndTag with finished := true }.getSendingQueueSize = 0 ∧
      { session.sendEndTag with finished := true }.keepAlive = false) := by
    rintro ⟨empty, -⟩
    simp only [getSendingQueueSize, ended, grows] at empty
    cases empty
  simp only [UrlSession.finish, if_neg busy]
  rw [ended, ← wire]
  exact ⟨streaming.sound, sends.wire⟩

end UrlSession

/-! ## The receiver -/

namespace ChunkedHttpFilter

/-- A turn of the trailer delivers nothing and leaves the filter as it is. -/
theorem decodeChunkTrailer_spec (filter : ChunkedHttpFilter) (data : Bytes) :
    (filter.decodeChunkTrailer data).filter = filter ∧
      delivered (filter.decodeChunkTrailer data).calls = [] ∧
      (filter.decodeChunkTrailer data).ret ≤ data.length := by
  rw [decodeChunkTrailer]
  split
  · exact ⟨rfl, rfl, Int.natCast_nonneg _⟩
  · next long =>
      split
      · refine ⟨rfl, rfl, ?_⟩
        simp only
        omega
      · exact ⟨rfl, rfl, Int.sub_le_self _ (Int.natCast_nonneg _)⟩

/-- **After the end of a body nothing more is delivered.**  The induction is on the
bytes; every turn is a turn of the trailer. -/
theorem process_of_zero {filter : ChunkedHttpFilter} {data : Bytes}
    (zero : filter.currentChunkSize = 0) :
    (filter.process data).1.fault = filter.fault ∧ delivered (filter.process data).2 = [] := by
  induction size : data.length using Nat.strong_induction_on generalizing filter data with
  | _ size ih =>
    subst size
    by_cases empty : data = []
    · subst empty
      exact ⟨rfl, rfl⟩
    obtain ⟨same, none, inside⟩ := decodeChunkTrailer_spec filter data
    rw [← decodeOnce_zero zero] at same none inside
    cases turn : filter.decodeOnce data with
    | mk ret after calls =>
        rw [turn] at same none inside
        subst same
        by_cases stops : ret ≤ 0
        · rw [process_of_stop empty (by rw [turn]; exact stops), turn]
          exact ⟨rfl, none⟩
        · have shorter : (data.drop ret.toNat).length < data.length := by
            have := List.length_pos_of_ne_nil empty
            rw [List.length_drop]
            omega
          obtain ⟨fault, later⟩ :=
            @ih _ shorter { after with receivedSize := after.receivedSize + ret } _ zero rfl
          rw [process_of_turn turn (not_le.mp stops) inside]
          exact ⟨fault, by rw [delivered_append, none, later]; rfl⟩

/-- A closing chunk after the end of a body is skipped with all but the last byte of
what follows it, so it does not report another end. -/
theorem finishes_of_closing {filter : ChunkedHttpFilter} (zero : filter.currentChunkSize = 0)
    (more : Bytes) : finishes (filter.process (UrlSession.chunkedEndTag ++ more)).2 = 0 := by
  have found : search (UrlSession.chunkedEndTag ++ more) [13, 10, 13, 10] = some 1 :=
    firstOccurrence_append (by decide) (by decide) more
  have turn : filter.decodeOnce (UrlSession.chunkedEndTag ++ more) =
      ⟨((UrlSession.chunkedEndTag ++ more).length : Int) - 1, filter, [.process []]⟩ := by
    rw [decodeOnce_zero zero, decodeChunkTrailer, if_neg (by simp [UrlSession.chunkedEndTag, ascii]),
      if_neg (by simp [UrlSession.chunkedEndTag, ascii]), found]
    rfl
  have long : 5 ≤ (UrlSession.chunkedEndTag ++ more).length := by
    simp [UrlSession.chunkedEndTag, ascii]
  rw [process_of_turn turn (by omega) (by omega), finishes_append, finishes_process]
  have short : ((UrlSession.chunkedEndTag ++ more).drop
      (((UrlSession.chunkedEndTag ++ more).length : Int) - 1).toNat).length < 2 := by
    rw [List.length_drop]
    omega
  have nothing : ∀ later : ChunkedHttpFilter, later.currentChunkSize = 0 →
      finishes (later.process ((UrlSession.chunkedEndTag ++ more).drop
        (((UrlSession.chunkedEndTag ++ more).length : Int) - 1).toNat)).2 = 0 := by
    intro later zero
    rw [process_of_short zero short]
    rfl
  rw [Nat.zero_add]
  exact nothing _ zero

end ChunkedHttpFilter

namespace UrlSession

/-! ## Agreement -/

/-- The chunks of nonempty payloads and the closing chunk are a chunked body. -/
theorem exists_body {payloads : List Bytes} (nonempty : ∀ payload ∈ payloads, payload ≠ [])
    (small : ∀ payload ∈ payloads, (chunk payload).length < 2 ^ 31) :
    ∃ body : Chunked.Body ChunkedHttpFilter.hexSize,
      body.encode = payloads.flatMap chunk ++ chunkedEndTag ∧ body.payload = payloads.flatten ∧
        ChunkedHttpFilter.SizesInRange body := by
  induction payloads with
  | nil => exact ⟨⟨[], ⟨ascii "0", by decide, by decide +kernel⟩⟩, by decide, rfl, by simp [ChunkedHttpFilter.SizesInRange]⟩
  | cons payload payloads ih =>
      obtain ⟨⟨chunks, last⟩, encodes, carries, inRange⟩ :=
        ih (fun other member => nonempty other (List.mem_cons_of_mem _ member))
          fun other member => small other (List.mem_cons_of_mem _ member)
      have smallHere := small payload (List.mem_cons_self ..)
      refine ⟨⟨payloadChunk payload (nonempty payload (List.mem_cons_self ..)) smallHere :: chunks,
        last⟩, ?_, ?_, ?_⟩
      · have shape : (payloadChunk payload (nonempty payload (List.mem_cons_self ..))
            smallHere).encode = chunk payload := rfl
        simp only [Chunked.Body.encode, List.flatMap_cons, shape, List.append_assoc] at encodes ⊢
        rw [encodes]
      · simp only [Chunked.Body.payload, List.flatMap_cons, List.flatten_cons] at carries ⊢
        rw [carries]
        rfl
      · intro other member
        rcases List.mem_cons.mp member with rfl | later
        · exact length_add_two_lt_of_chunk smallHere
        · exact inRange other later

/-- The bytes that a session puts on the wire from some state on to its end. -/
def transferred (session : UrlSession) (events : List TransferEvent) : Bytes :=
  (session.transfer events).finish.connection.wire.drop session.connection.wire.length

/-- A new filter that is fed in one call what the session has put on the wire delivers
the payloads that the session has taken, reports the end of the body once, and delivers
nothing after it. -/
structure Agrees (session : UrlSession) (events : List TransferEvent) : Prop where
  sound : (session.transfer events).finish.fault = false
  decoded : (ChunkedHttpFilter.create.process (transferred session events)).1.fault = false
  delivers : ∃ before after,
    (ChunkedHttpFilter.create.process (transferred session events)).2 =
      before ++ .finish [] :: after ∧
    ChunkedHttpFilter.delivered before = (taken session events).flatten ∧
    ChunkedHttpFilter.finishes before = 0 ∧
    ChunkedHttpFilter.delivered after = [] ∧ ChunkedHttpFilter.finishes after = 0

/-- Every chunk fits an `int`, and no payload follows an empty one. -/
structure ClosesLast (session : UrlSession) (events : List TransferEvent) : Prop where
  small : ∀ payload ∈ offered session events, (chunk payload).length < 2 ^ 31
  inOrder : (offered session events).Pairwise fun earlier later => earlier = [] → later = []

/-- Payloads up to the first empty one, and the rest. -/
theorem exists_split (payloads : List Bytes) :
    ∃ full rest, payloads = full ++ rest ∧ (∀ payload ∈ full, payload ≠ []) ∧
      (rest = [] ∨ ∃ others, rest = [] :: others) := by
  induction payloads with
  | nil => exact ⟨[], [], rfl, by simp, Or.inl rfl⟩
  | cons payload payloads ih =>
      by_cases empty : payload = []
      · exact ⟨[], payload :: payloads, rfl, by simp, Or.inr ⟨payloads, by rw [empty]⟩⟩
      · obtain ⟨full, rest, rfl, nonempty, shape⟩ := ih
        refine ⟨payload :: full, rest, rfl, ?_, shape⟩
        intro other member
        rcases List.mem_cons.mp member with rfl | later
        · exact empty
        · exact nonempty other later

/-- Nothing but empty payloads follows the first empty one exactly when no payload
follows an empty one. -/
theorem pairwise_split_iff {full others : List Bytes} (nonempty : ∀ payload ∈ full, payload ≠ []) :
    (full ++ [] :: others).Pairwise (fun earlier later : Bytes => earlier = [] → later = []) ↔
      others.flatten = [] := by
  rw [List.flatten_eq_nil_iff]
  constructor
  · intro inOrder payload member
    exact List.rel_of_pairwise_cons (List.pairwise_append.mp inOrder).2.1 member rfl
  · intro empty
    refine List.pairwise_append.mpr ⟨?_, ?_, ?_⟩
    · exact List.pairwise_of_forall_mem_list fun earlier member _ _ none =>
        absurd none (nonempty earlier member)
    · refine List.pairwise_cons.mpr ⟨fun later member _ => empty later member, ?_⟩
      exact List.pairwise_of_forall_mem_list fun _ _ later member _ => empty later member
    · exact fun earlier member _ _ none => absurd none (nonempty earlier member)

/-- What a new filter makes of the chunks of nonempty payloads, the chunk that closes
them, and more. -/
theorem process_chunks {full : List Bytes} (nonempty : ∀ payload ∈ full, payload ≠ [])
    (small : ∀ payload ∈ full, (chunk payload).length < 2 ^ 31) (more : Bytes) :
    ∃ (after : ChunkedHttpFilter) (calls : List NextCall),
      ChunkedHttpFilter.create.process (full.flatMap chunk ++ chunkedEndTag ++ more) =
        ((after.process more).1, calls ++ .finish [] :: (after.process more).2) ∧
      after.Tracks .terminated ∧ ChunkedHttpFilter.delivered calls = full.flatten ∧
      ChunkedHttpFilter.finishes calls = 0 := by
  obtain ⟨body, encodes, carries, inRange⟩ := exists_body nonempty small
  rw [← encodes, ← carries]
  exact ChunkedHttpFilter.process_encode inRange more

/-- What a session puts on the wire when every chunk fits. -/
theorem transferred_of_small {session : UrlSession} {events : List TransferEvent}
    (streaming : Streaming session)
    (small : ∀ payload ∈ offered session events, (chunk payload).length < 2 ^ 31) :
    (session.transfer events).finish.fault = false ∧
      taken session events = offered session events ∧
      transferred session events = (offered session events).flatMap chunk ++ chunkedEndTag := by
  obtain ⟨last, same, wire⟩ := transfer_of_small streaming small
  obtain ⟨sound, ended⟩ := last.finish
  refine ⟨sound, same, ?_⟩
  rw [transferred, ended, wire, List.append_assoc, List.drop_left]

theorem closesLast_of_agrees {session : UrlSession} {events : List TransferEvent}
    (streaming : Streaming session) (agrees : Agrees session events) :
    ClosesLast session events := by
  have small : ∀ payload ∈ offered session events, (chunk payload).length < 2 ^ 31 := by
    by_contra exceeds
    simp only [not_forall, not_lt] at exceeds
    obtain ⟨large, member, size⟩ := exceeds
    have fault := finish_fault (transfer_of_large streaming ⟨large, member, size⟩)
    rw [agrees.sound] at fault
    cases fault
  obtain ⟨-, same, wire⟩ := transferred_of_small streaming small
  refine ⟨small, ?_⟩
  obtain ⟨before, after, calls, delivers, -, nothing, -⟩ := agrees.delivers
  obtain ⟨full, rest, shape, nonempty, split⟩ := exists_split (offered session events)
  rw [shape] at small wire ⊢
  rw [same, shape] at delivers
  rcases split with rfl | ⟨others, rfl⟩
  · rw [List.append_nil]
    exact List.pairwise_of_forall_mem_list fun earlier member _ _ none =>
      absurd none (nonempty earlier member)
  · obtain ⟨filter, first, process, terminated, carries, -⟩ := process_chunks nonempty
      (fun payload member => small payload (List.mem_append_left _ member))
      (others.flatMap chunk ++ chunkedEndTag)
    have wire' : transferred session events =
        full.flatMap chunk ++ chunkedEndTag ++ (others.flatMap chunk ++ chunkedEndTag) := by
      rw [wire, List.flatMap_append, List.flatMap_cons, chunk_nil]
      simp only [List.append_assoc]
    rw [wire', process] at calls
    have total := congrArg ChunkedHttpFilter.delivered calls
    have ignored := (@ChunkedHttpFilter.process_of_zero filter
      (others.flatMap chunk ++ chunkedEndTag) terminated.1).2
    simp only [ChunkedHttpFilter.delivered_append, ChunkedHttpFilter.delivered_finish_cons, carries,
      ignored, delivers, nothing, List.flatten_append, List.flatten_cons, List.nil_append] at total
    rw [List.append_nil, List.append_nil] at total
    exact (pairwise_split_iff nonempty).mpr (List.self_eq_append_right.mp total)

theorem agrees_of_closesLast {session : UrlSession} {events : List TransferEvent}
    (streaming : Streaming session) (closesLast : ClosesLast session events) :
    Agrees session events := by
  obtain ⟨sound, same, wire⟩ := transferred_of_small streaming closesLast.small
  have small := closesLast.small
  have inOrder := closesLast.inOrder
  obtain ⟨full, rest, shape, nonempty, split⟩ := exists_split (offered session events)
  rw [shape] at small inOrder wire
  have smallFull : ∀ payload ∈ full, (chunk payload).length < 2 ^ 31 :=
    fun payload member => small payload (List.mem_append_left _ member)
  rcases split with rfl | ⟨others, rfl⟩
  · obtain ⟨filter, calls, process, terminated, carries, quiet⟩ :=
      process_chunks nonempty smallFull []
    have wire' : transferred session events = full.flatMap chunk ++ chunkedEndTag ++ [] := by
      rw [wire, List.append_nil, List.append_nil]
    rw [← wire', ChunkedHttpFilter.process_nil] at process
    refine ⟨sound, by rw [process]; exact terminated.2, calls, [], by rw [process], ?_, quiet,
      rfl, rfl⟩
    rw [carries, same, shape, List.append_nil]
  · have empty := (pairwise_split_iff nonempty).mp inOrder
    obtain ⟨filter, calls, process, terminated, carries, quiet⟩ :=
      process_chunks nonempty smallFull (others.flatMap chunk ++ chunkedEndTag)
    have wire' : transferred session events =
        full.flatMap chunk ++ chunkedEndTag ++ (others.flatMap chunk ++ chunkedEndTag) := by
      rw [wire, List.flatMap_append, List.flatMap_cons, chunk_nil]
      simp only [List.append_assoc]
    rw [← wire'] at process
    obtain ⟨faultless, ignored⟩ := @ChunkedHttpFilter.process_of_zero filter
      (others.flatMap chunk ++ chunkedEndTag) terminated.1
    obtain ⟨more, closing⟩ : ∃ more, others.flatMap chunk ++ chunkedEndTag = chunkedEndTag ++ more := by
      cases others with
      | nil => exact ⟨[], (List.append_nil _).symm⟩
      | cons payload others =>
          obtain rfl : payload = [] := (List.append_eq_nil_iff.mp empty).1
          exact ⟨_, by rw [List.flatMap_cons, chunk_nil, List.append_assoc]⟩
    refine ⟨sound, by rw [process]; exact faultless.trans terminated.2, calls, _,
      by rw [process], ?_, quiet, ignored, ?_⟩
    · rw [carries, same, shape, List.flatten_append, List.flatten_cons, empty]
      simp
    · rw [closing]
      exact ChunkedHttpFilter.finishes_of_closing terminated.1 more

/-- **Sender and receiver agree exactly when no payload follows an empty one**, as long
as every chunk fits an `int`.  Only calls for which the sending queue has room count;
the others return false and send nothing. -/
theorem agrees_iff_closesLast {session : UrlSession} (streaming : Streaming session)
    (events : List TransferEvent) : Agrees session events ↔ ClosesLast session events :=
  ⟨closesLast_of_agrees streaming, agrees_of_closesLast streaming⟩

/-- A session on a new connection, set to chunked mode, with its header sent. -/
def newTransfer : UrlSession :=
  (((create (SocketRun.start .accepted)).setChunked true).sendHeader).2

theorem streaming_newTransfer : Streaming newTransfer :=
  ⟨by decide, by decide, rfl, by decide, by decide, by decide⟩

theorem agrees_iff_closesLast_words :
    Agrees newTransfer [.sendData (ascii "hello"), .written, .sendData (ascii " world"),
      .sendData []] := by
  refine (agrees_iff_closesLast streaming_newTransfer _).mpr ⟨?_, ?_⟩
  · decide
  · decide

/-- An empty payload closes the body: the payload after it is not delivered, and the end
is reported twice. -/
theorem emptyPayload_not_agrees :
    ¬ ∀ (session : UrlSession) (events : List TransferEvent), Streaming session →
      Agrees session events := by
  intro agree
  obtain ⟨before, after, calls, -, quiet, -, none⟩ :=
    (agree newTransfer [.sendData [], .sendData (ascii "a")] streaming_newTransfer).delivers
  have ends := congrArg ChunkedHttpFilter.finishes calls
  rw [ChunkedHttpFilter.finishes_append, ChunkedHttpFilter.finishes_finish_cons, quiet, none] at ends
  exact absurd ends (by decide)

end UrlSession

end Xul
