import Xul.Libs.AsioTcpSocket
import Xul.Net.Http.HttpMessage

/-!
# Server sessions

`url_session_impl` is what a handler holds of a client: it prints the response, wraps
body data in chunks when the session is chunked, and hands the bytes to the socket.
The socket is the one of `AsioTcpSocket` with its records, so that what a session has
put on the wire can be read off it.
-/

set_option autoImplicit false

namespace Xul

/-! ## The connection of a session -/

namespace AsioTcpSocket

/-- The sending queue takes another buffer. -/
def HasRoom (socket : AsioTcpSocket) : Prop :=
  ¬ toSizeT socket.maxSendingQueueSize ≤ socket.sendingQueue.length

instance (socket : AsioTcpSocket) : Decidable socket.HasRoom := by
  unfold HasRoom
  infer_instance

theorem sendN_of_room {socket : AsioTcpSocket} (room : socket.HasRoom) (buf : SendBuffer) :
    (socket.sendN buf).1 = true := by
  simp only [sendN, if_neg (show ¬ _ from room)]

end AsioTcpSocket

namespace SocketRun

/-- The state after an event, if it can happen. -/
def advance (run : SocketRun) (event : SocketEvent) : SocketRun := (step run event).getD run

/-- What the peer has received of a connection, or will receive: the buffers that were
transmitted and those that are queued. -/
def wire (run : SocketRun) : Bytes :=
  (run.transmitted ++ run.socket.sendingQueue).flatMap SendBuffer.bytes

theorem Orderly.advance {run : SocketRun} (orderly : Orderly run) {event : SocketEvent}
    (idle : ClearsIdle run event) : Orderly (run.advance event) := by
  rw [SocketRun.advance]
  cases happens : step run event with
  | none => exact orderly
  | some next => exact orderly_step orderly idle happens

end SocketRun

/-! ## The session -/

/-- `url_session_impl`.  `fault` records that a size that does not fit an `int` was
passed to the socket. -/
structure UrlSession where
  connection : SocketRun
  response : HttpResponse
  finished : Bool
  headerFinished : Bool
  chunkedMode : Bool
  keepAlive : Bool
  chunkedBuffer : Bytes
  fault : Bool

/-- A call that a handler makes on its session or on the response of the session. -/
inductive SessionCall where
  | close
  | finish
  | reset
  | sendHeader
  | sendData (data : Bytes)
  | setChunked (enabled : Bool)
  | setKeepAlive (keepAlive : Bool)
  | setStatusCode (statusCode : Int)
  | setStatusDescription (val : Bytes)
  | setHeader (name value : Bytes)
deriving DecidableEq

namespace UrlSession

def reset (session : UrlSession) : UrlSession :=
  { session with
    finished := false
    chunkedMode := false
    headerFinished := false
    chunkedBuffer := []
    response := session.response.clear }

def create (connection : SocketRun) : UrlSession :=
  reset ⟨connection, HttpResponse.create, false, false, false, false, [], false⟩

def isFinished (session : UrlSession) : Bool := session.finished

def isKeepAlive (session : UrlSession) : Bool := session.keepAlive

def setKeepAlive (session : UrlSession) (keepAlive : Bool) : UrlSession :=
  { session with keepAlive }

def isChunked (session : UrlSession) : Bool := session.chunkedMode

/-- The mode of a session is fixed once its header is sent. -/
def setChunked (session : UrlSession) (enabled : Bool) : UrlSession :=
  if session.headerFinished then session else { session with chunkedMode := enabled }

def getSendingQueueSize (session : UrlSession) : Nat :=
  session.connection.socket.sendingQueue.length

/-- `do_send_data` takes the size of the data as an `int`; a size outside its range is
only looked at when the queue has room. -/
def doSendData (session : UrlSession) (data : Bytes) : Bool × UrlSession :=
  if session.connection.socket.HasRoom then
    if 2 ^ 31 ≤ data.length then (false, { session with fault := true })
    else (true, { session with connection := session.connection.advance (.sendN data) })
  else (false, session)

/-- `url_messages::set_chunked`. -/
def chunkedResponse (response : HttpResponse) : HttpResponse :=
  let versioned := { response.message with protocolVersion := ascii "1.1" }
  { response with message := versioned.setHeader (ascii "Transfer-Encoding") (ascii "chunked") }

def sendHeader (session : UrlSession) : Bool × UrlSession :=
  let prepared :=
    if session.chunkedMode then { session with response := chunkedResponse session.response }
    else session
  let sent := prepared.doSendData prepared.response.print
  if sent.1 then (true, { sent.2 with headerFinished := true }) else (false, sent.2)

/-- A chunk as `send_data` writes it. -/
def chunk (data : Bytes) : Bytes := printHex data.length ++ crlf ++ data ++ crlf

def sendData (session : UrlSession) (data : Bytes) : Bool × UrlSession :=
  if session.chunkedMode then { session with chunkedBuffer := chunk data }.doSendData (chunk data)
  else session.doSendData data

def close (session : UrlSession) : UrlSession :=
  { session with connection := session.connection.advance .close }

def chunkedEndTag : Bytes := ascii "0\r\n\r\n"

/-- The chunk that closes a body; `finish` makes room for it in the queue. -/
def sendEndTag (session : UrlSession) : UrlSession :=
  if session.chunkedMode then
    let size := session.getSendingQueueSize + 3
    let raised := session.connection.advance (.setMaxSendingQueueSize size)
    ({ session with connection := raised }.doSendData chunkedEndTag).2
  else session

def finish (session : UrlSession) : UrlSession :=
  let ended := { session.sendEndTag with finished := true }
  if ended.getSendingQueueSize = 0 ∧ ended.keepAlive = false then ended.close else ended

/-! ## What a handler calls -/

def perform (session : UrlSession) : SessionCall → UrlSession
  | .close => session.close
  | .finish => session.finish
  | .reset => session.reset
  | .sendHeader => session.sendHeader.2
  | .sendData data => (session.sendData data).2
  | .setChunked enabled => session.setChunked enabled
  | .setKeepAlive keepAlive => session.setKeepAlive keepAlive
  | .setStatusCode statusCode =>
      { session with response := session.response.setStatusCode statusCode }
  | .setStatusDescription val =>
      { session with response := session.response.setStatusDescription val }
  | .setHeader name value => { session with response := session.response.setHeader name value }

def performAll (session : UrlSession) (calls : List SessionCall) : UrlSession :=
  calls.foldl perform session

/-- The calls of `url_sessions::send_empty_response`. -/
def sendEmptyResponse (session : UrlSession) (statusCode : Int) : List SessionCall :=
  let prepared : List SessionCall :=
    [.setChunked false, .setStatusCode statusCode,
      .setHeader (ascii "Content-Length") (ascii "0")]
  if (session.performAll prepared).sendHeader.1 then prepared ++ [.sendHeader, .finish]
  else prepared ++ [.sendHeader]

/-! ## What sending does to the connection -/

theorem doSendData_of_room {session : UrlSession} {data : Bytes}
    (room : session.connection.socket.HasRoom) (small : data.length < 2 ^ 31) :
    session.doSendData data =
      (true, { session with connection := session.connection.advance (.sendN data) }) := by
  rw [doSendData, if_pos room, if_neg (not_le_of_gt small)]

theorem doSendData_of_large {session : UrlSession} {data : Bytes}
    (room : session.connection.socket.HasRoom) (large : 2 ^ 31 ≤ data.length) :
    session.doSendData data = (false, { session with fault := true }) := by
  rw [doSendData, if_pos room, if_pos large]

theorem doSendData_of_full {session : UrlSession} {data : Bytes}
    (full : ¬ session.connection.socket.HasRoom) : session.doSendData data = (false, session) :=
  if_neg full

end UrlSession

/-! ## A connection that is closed stays closed -/

theorem AsioTcpSocket.processSendingQueue_isOpen (socket : AsioTcpSocket) :
    socket.processSendingQueue.native.isOpen = socket.native.isOpen := by
  rw [processSendingQueue]
  split
  · rfl
  · split <;> rfl

theorem AsioTcpSocket.sendN_isOpen (socket : AsioTcpSocket) (buf : SendBuffer) :
    (socket.sendN buf).2.native.isOpen = socket.native.isOpen := by
  rw [sendN]
  split
  · rfl
  · simp only
    split
    · exact processSendingQueue_isOpen _
    · rfl

theorem AsioTcpSocket.onSend_isOpen (socket : AsioTcpSocket) (errcode : Int) :
    (socket.onSend errcode).native.isOpen = socket.native.isOpen := by
  rw [onSend]
  split
  · rfl
  · split
    · rfl
    · exact processSendingQueue_isOpen _

/-- Only `connect` opens a socket. -/
theorem SocketRun.isOpen_of_step {run next : SocketRun} {event : SocketEvent}
    (happens : step run event = some next) (noConnect : event ≠ .connect)
    (isOpen : next.socket.native.isOpen = true) : run.socket.native.isOpen = true := by
  cases event with
  | sendN data =>
      cases happens
      split at isOpen
      · rwa [AsioTcpSocket.sendN_isOpen] at isOpen
      · exact isOpen
  | receive =>
      cases happens
      exact isOpen
  | receiveCompleted errcode =>
      simp only [step] at happens
      split at happens
      · cases happens
      · cases happens
        simp only [AsioTcpSocket.onReceive] at isOpen
        split at isOpen <;> exact isOpen
  | writeCompleted buf errcode =>
      simp only [step] at happens
      split at happens
      · cases happens
        split at isOpen <;> rwa [AsioTcpSocket.onSend_isOpen] at isOpen
      · cases happens
  | close =>
      cases happens
      cases isOpen
  | connect => exact absurd rfl noConnect
  | connectCompleted errcode =>
      simp only [step] at happens
      split at happens
      · cases happens
      · cases happens
        exact isOpen
  | setMaxSendingQueueSize size =>
      cases happens
      simp only [AsioTcpSocket.setMaxSendingQueueSize] at isOpen
      split at isOpen <;> exact isOpen

theorem SocketRun.isOpen_of_advance {run : SocketRun} {event : SocketEvent}
    (noConnect : event ≠ .connect) (isOpen : (run.advance event).socket.native.isOpen = true) :
    run.socket.native.isOpen = true := by
  rw [advance] at isOpen
  cases happens : step run event with
  | none => simpa [happens] using isOpen
  | some next =>
      rw [happens] at isOpen
      exact isOpen_of_step happens noConnect isOpen

namespace UrlSession

/-- What a call of its handler leaves of a session: it opens no connection, and only
`finish` finishes. -/
structure Leaves (before after : UrlSession) (finishes : Prop) : Prop where
  isOpen : after.connection.socket.native.isOpen = true →
    before.connection.socket.native.isOpen = true
  finished : after.finished = true → before.finished = true ∨ finishes

theorem Leaves.refl (session : UrlSession) : Leaves session session False :=
  ⟨id, Or.inl⟩

theorem Leaves.trans {first second third : UrlSession} {finishes : Prop}
    (earlier : Leaves first second False) (later : Leaves second third finishes) :
    Leaves first third finishes where
  isOpen isOpen := earlier.isOpen (later.isOpen isOpen)
  finished finished := by
    rcases later.finished finished with before | now
    · exact Or.inl ((earlier.finished before).resolve_right id)
    · exact Or.inr now

theorem Leaves.imp {before after : UrlSession} {finishes weaker : Prop}
    (leaves : Leaves before after finishes) (implies : finishes → weaker) :
    Leaves before after weaker :=
  ⟨leaves.isOpen, fun finished => (leaves.finished finished).imp_right implies⟩

theorem leaves_advance (session : UrlSession) {event : SocketEvent} (noConnect : event ≠ .connect) :
    Leaves session { session with connection := session.connection.advance event } False :=
  ⟨SocketRun.isOpen_of_advance noConnect, Or.inl⟩

theorem leaves_doSendData (session : UrlSession) (data : Bytes) :
    Leaves session (session.doSendData data).2 False := by
  rw [doSendData]
  split
  · split
    · exact ⟨id, Or.inl⟩
    · exact leaves_advance session (by simp)
  · exact Leaves.refl session

theorem leaves_sendEndTag (session : UrlSession) : Leaves session session.sendEndTag False := by
  rw [sendEndTag]
  split
  · exact (leaves_advance session (by simp)).trans (leaves_doSendData _ _)
  · exact Leaves.refl session

theorem leaves_sendHeader (session : UrlSession) : Leaves session session.sendHeader.2 False := by
  have raised (prepared : UrlSession) (data : Bytes) :
      Leaves prepared (if (prepared.doSendData data).1
        then (true, { (prepared.doSendData data).2 with headerFinished := true })
        else (false, (prepared.doSendData data).2)).2 False := by
    have sent := leaves_doSendData prepared data
    split <;> exact ⟨sent.isOpen, sent.finished⟩
  rw [sendHeader]
  by_cases chunked : session.chunkedMode
  · rw [if_pos chunked]
    have sent := raised { session with response := chunkedResponse session.response }
      (chunkedResponse session.response).print
    exact ⟨sent.isOpen, sent.finished⟩
  · rw [if_neg chunked]
    exact raised session _

theorem leaves_sendData (session : UrlSession) (data : Bytes) :
    Leaves session (session.sendData data).2 False := by
  rw [sendData]
  split
  · have sent := leaves_doSendData { session with chunkedBuffer := chunk data } (chunk data)
    exact ⟨sent.isOpen, sent.finished⟩
  · exact leaves_doSendData session data

theorem leaves_perform (session : UrlSession) (call : SessionCall) :
    Leaves session (session.perform call) (call = .finish) := by
  cases call with
  | close => exact ⟨(leaves_advance session (by simp)).isOpen, Or.inl⟩
  | finish =>
      refine ⟨?_, fun _ => Or.inr rfl⟩
      intro isOpen
      have ended := leaves_sendEndTag session
      simp only [perform, finish] at isOpen
      split at isOpen
      · exact ended.isOpen (SocketRun.isOpen_of_advance (by simp) isOpen)
      · exact ended.isOpen isOpen
  | reset => exact ⟨id, fun finished => absurd finished (by simp [perform, reset])⟩
  | sendHeader => exact (leaves_sendHeader session).imp False.elim
  | sendData data => exact (leaves_sendData session data).imp False.elim
  | setChunked enabled =>
      simp only [perform, setChunked]
      split <;> exact ⟨id, Or.inl⟩
  | setKeepAlive keepAlive => exact ⟨id, Or.inl⟩
  | setStatusCode statusCode => exact ⟨id, Or.inl⟩
  | setStatusDescription val => exact ⟨id, Or.inl⟩
  | setHeader name value => exact ⟨id, Or.inl⟩

theorem leaves_performAll (session : UrlSession) (calls : List SessionCall) :
    Leaves session (session.performAll calls) (SessionCall.finish ∈ calls) := by
  induction calls generalizing session with
  | nil => exact ⟨id, Or.inl⟩
  | cons call calls ih =>
      have first := leaves_perform session call
      have later := ih (session.perform call)
      refine ⟨fun isOpen => first.isOpen (later.isOpen isOpen), ?_⟩
      intro finished
      rcases later.finished finished with before | now
      · rcases first.finished before with already | this
        · exact Or.inl already
        · exact Or.inr (List.mem_cons.mpr (Or.inl this.symm))
      · exact Or.inr (List.mem_cons_of_mem call now)

end UrlSession

end Xul
