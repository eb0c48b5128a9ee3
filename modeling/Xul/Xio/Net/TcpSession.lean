import Xul.Io.Codec.BufferedMessageDecoder
import Xul.Libs.AsioTcpSocket

/-!
# TCP sessions

A session reads from its socket, and has its decoder make messages of what it reads.  It has at most
one receive outstanding: it starts the next one when the decoder is done, unless it is paused or
aborted.  What it does to the socket's sending queue changes nothing of that.
-/

set_option autoImplicit false

namespace Xul

/-- `tcp_session`, with whether its listener is that of the program, and whether the program refers
to it. -/
structure TcpSession (Message : Type) where
  socket : AsioTcpSocket
  decoder : BufferedMessageDecoder Message
  listening : Bool
  aborted : Bool
  pauseReceive : Bool
  held : Bool

variable {Message : Type}

namespace TcpSession

/-- The constructor, for an accepted socket and the decoder that the program gives the session. -/
def create (decoder : BufferedMessageDecoder Message) (held : Bool) : TcpSession Message :=
  ⟨AsioTcpSocket.accepted, decoder, true, false, false, held⟩

def read (session : TcpSession Message) : TcpSession Message :=
  if session.socket.receiving then session
  else { session with socket := session.socket.receive }

def isOpen (session : TcpSession Message) : Bool :=
  session.socket.native.isOpen && session.socket.connected

def pause (session : TcpSession Message) : TcpSession Message :=
  { session with pauseReceive := true }

def resume (session : TcpSession Message) : TcpSession Message :=
  if session.pauseReceive then
    let resumed := { session with pauseReceive := false }
    if resumed.isOpen then resumed.read else resumed
  else session

def abort (session : TcpSession Message) : TcpSession Message :=
  { session with aborted := true, decoder := session.decoder.doAbort }

/-- `close`, without what it tells the listener. -/
def close (session : TcpSession Message) : TcpSession Message :=
  { session.abort with socket := session.socket.close }

def destroy (session : TcpSession Message) : TcpSession Message :=
  { session with listening := false }.close

/-- `open_session`, without what it tells the listener before it reads. -/
def openSession (session : TcpSession Message) : TcpSession Message :=
  { session with aborted := false, pauseReceive := false, decoder := session.decoder.reset }.read

end TcpSession

/-! ## What a feed adds to the log of a decoder -/

namespace BufferedMessageDecoder

/-- Messages were emitted, none of them by a decoder that was aborted already, and then the decoder
may have failed. -/
structure Fed (before after : BufferedMessageDecoder Message) (messages : List Message)
    (failed : Bool) : Prop where
  log : after.log = before.log ++
    (messages.map DecoderEntry.message ++ if failed then [.aborted, .failed 1] else [])
  abort : after.abort = (before.abort || failed)
  quiet : before.abort = true → messages = []

variable {doDecode : DoDecode Message} {decoder next last : BufferedMessageDecoder Message}
  {messages more : List Message} {failed : Bool}

theorem fed_refl (decoder : BufferedMessageDecoder Message) : Fed decoder decoder [] false :=
  ⟨by simp, by simp, fun _ => rfl⟩

theorem fed_fail (decoder : BufferedMessageDecoder Message) : Fed decoder decoder.fail [] true :=
  ⟨by simp [fail, doAbort, clear], by simp [fail, doAbort, clear], fun _ => rfl⟩

theorem Fed.trans (first : Fed decoder next messages false) (second : Fed next last more failed) :
    Fed decoder last (messages ++ more) failed := by
  refine ⟨?_, ?_, ?_⟩
  · rw [second.log, first.log]
    simp
  · rw [second.abort, first.abort, Bool.or_false]
  · intro aborted
    rw [first.quiet aborted, second.quiet (by rw [first.abort, aborted, Bool.true_or]),
      List.append_nil]

/-- The log and the flag of a decoder are all that counts. -/
theorem Fed.congr (fed : Fed decoder next messages failed) (log : last.log = next.log)
    (abort : last.abort = next.abort) : Fed decoder last messages failed :=
  ⟨log.trans fed.log, abort.trans fed.abort, fed.quiet⟩

/-- The listener of a session does not abort it from inside a message. -/
theorem fed_emit (alive : decoder.abort = false) (message : Option Message) :
    Fed decoder (decoder.emit keepsOn message) message.toList false := by
  cases message with
  | none => exact fed_refl decoder
  | some message =>
      refine ⟨by simp [emit, keepsOn], by simp [emit, keepsOn], ?_⟩
      intro aborted
      rw [alive] at aborted
      cases aborted

theorem fed_decodeLoop {fuel processedSize : Nat} {data : Bytes} :
    ∃ messages, Fed decoder (decodeLoop doDecode keepsOn fuel processedSize decoder data).2 messages
      (decodeLoop doDecode keepsOn fuel processedSize decoder data).1.isNone := by
  induction fuel generalizing processedSize decoder data with
  | zero => exact ⟨[], fed_refl decoder⟩
  | succ fuel ih =>
      simp only [decodeLoop]
      split
      · exact ⟨[], fed_refl decoder⟩
      · next continues =>
          have alive : decoder.abort = false := by
            simpa using fun aborted => continues (Or.inr aborted)
          have told := fed_emit alive (doDecode data).message
          split
          · exact ⟨_, told.trans (fed_fail _)⟩
          · split
            · exact ⟨_, told⟩
            · obtain ⟨more, later⟩ := @ih (decoder.emit keepsOn (doDecode data).message)
                (processedSize + (doDecode data).ret.toNat) (data.drop (doDecode data).ret.toNat)
              exact ⟨_, told.trans later⟩

theorem fed_checkBuffer (decoder : BufferedMessageDecoder Message) :
    Fed decoder decoder.checkBuffer [] false := by
  rw [checkBuffer]
  split
  · exact (fed_refl decoder).congr rfl rfl
  · exact fed_refl decoder

theorem fed_feedBuffered :
    ∃ messages failed, Fed decoder (decoder.feedBuffered doDecode keepsOn).2 messages failed := by
  rw [feedBuffered]
  split
  · exact ⟨[], false, fed_refl decoder⟩
  · obtain ⟨messages, fed⟩ := @fed_decodeLoop _ doDecode decoder decoder.buffer.length 0
      decoder.buffer
    rw [← decodeBuffer] at fed
    split
    · next failed outcome =>
        rw [outcome] at fed
        exact ⟨messages, true, fed⟩
    · next processedSize after outcome =>
        rw [outcome] at fed
        have moved : Fed after { after with position := after.position + processedSize } [] false :=
          (fed_refl after).congr rfl rfl
        exact ⟨_, false, Fed.trans fed (moved.trans (fed_checkBuffer _))⟩

/-- **A feed emits messages, and may fail after them.** -/
theorem fed_feed (data : Bytes) :
    ∃ messages failed, Fed decoder (decoder.feed doDecode keepsOn data).2 messages failed := by
  have checked := fed_checkBuffer decoder
  rw [feed]
  split
  · obtain ⟨messages, fed⟩ := @fed_decodeLoop _ doDecode decoder.checkBuffer data.length 0 data
    rw [← decodeBuffer] at fed
    split
    · next failed outcome =>
        rw [outcome] at fed
        exact ⟨_, true, checked.trans fed⟩
    · next processedSize after outcome =>
        rw [outcome] at fed
        obtain ⟨more, failed, later⟩ := @fed_feedBuffered _ doDecode
          { after with buffer := if processedSize < data.length then
              after.buffer ++ data.drop processedSize else after.buffer }
        exact ⟨_, failed, checked.trans (Fed.trans fed ⟨later.log, later.abort, later.quiet⟩)⟩
  · split
    · exact ⟨_, true, checked.trans (fed_fail _)⟩
    · obtain ⟨more, failed, later⟩ := @fed_feedBuffered _ doDecode
        { decoder.checkBuffer with buffer := decoder.checkBuffer.buffer ++ data }
      exact ⟨_, failed, checked.trans ⟨later.log, later.abort, later.quiet⟩⟩

theorem Fed.messages_eq (fed : Fed decoder next messages failed) :
    next.messages = decoder.messages ++ messages := by
  rw [BufferedMessageDecoder.messages, fed.log, List.filterMap_append, List.filterMap_append,
    List.filterMap_map, BufferedMessageDecoder.messages]
  congr 1
  cases failed with
  | false => simp
  | true => simp

/-- Aborting keeps the messages. -/
theorem messages_doAbort (decoder : BufferedMessageDecoder Message) :
    decoder.doAbort.messages = decoder.messages := by
  simp [doAbort, clear, messages]

/-- What the listener hears of a feed. -/
theorem Fed.drop_log (fed : Fed decoder next messages failed) :
    next.log.drop decoder.log.length =
      messages.map DecoderEntry.message ++ if failed then [.aborted, .failed 1] else [] := by
  rw [fed.log, List.drop_left]

end BufferedMessageDecoder

namespace AsioTcpSocket

/-- Two sockets are the same to one who reads. -/
structure SameReading (socket other : AsioTcpSocket) : Prop where
  receives : socket.native.receives = other.native.receives
  receiving : socket.receiving = other.receiving
  isOpen : socket.native.isOpen = other.native.isOpen
  connected : socket.connected = other.connected

theorem sameReading_processSendingQueue (socket : AsioTcpSocket) :
    SameReading socket.processSendingQueue socket := by
  rw [processSendingQueue]
  split
  · exact ⟨rfl, rfl, rfl, rfl⟩
  · split
    · exact ⟨rfl, rfl, rfl, rfl⟩
    · exact ⟨rfl, rfl, rfl, rfl⟩

theorem sameReading_sendN (socket : AsioTcpSocket) (buf : SendBuffer) :
    SameReading (socket.sendN buf).2 socket := by
  simp only [sendN]
  split
  · exact ⟨rfl, rfl, rfl, rfl⟩
  · split
    · have same := sameReading_processSendingQueue
        { socket with sendingQueue := socket.sendingQueue ++ [buf] }
      exact ⟨same.receives, same.receiving, same.isOpen, same.connected⟩
    · exact ⟨rfl, rfl, rfl, rfl⟩

theorem sameReading_onSend (socket : AsioTcpSocket) : SameReading (socket.onSend 0) socket := by
  rw [onSend, if_neg (not_not_intro rfl)]
  split
  · exact ⟨rfl, rfl, rfl, rfl⟩
  · next first rest _ =>
      have same := sameReading_processSendingQueue { socket with sendingQueue := rest }
      exact ⟨same.receives, same.receiving, same.isOpen, same.connected⟩

end AsioTcpSocket

namespace TcpSession

theorem receiving_read (session : TcpSession Message) :
    session.read.socket.receiving = true := by
  rw [read]
  split
  · assumption
  · rfl

theorem isOpen_read (session : TcpSession Message) :
    session.read.isOpen = session.isOpen := by
  rw [read]
  split
  · rfl
  · rfl

theorem decoder_read (session : TcpSession Message) :
    session.read.decoder = session.decoder := by
  rw [read]
  split
  · rfl
  · rfl

end TcpSession

end Xul
