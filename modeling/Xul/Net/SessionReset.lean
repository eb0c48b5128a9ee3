import Xul.Foundation.Exchanges
import Xul.Net.TableResponse
import Xul.Net.UrlSession

/-!
# What a session keeps across a reset

A session is reset between two requests, and with it the response that it owns.  `clear` empties
the headers and the protocol of a response and sets its status code to none, but two things stay
as an earlier handler has left them.  One is the status description, which `set_status_code`
overwrites only for a code that has a description of its own.  The other is the class of the
header table, which decides in what order fields are printed and which names are told apart.
A reset leaks nothing exactly to a handler that describes the status before it sends the header
(`Described`) and whose own header fields are printed in the same way by tables of all classes
(`Uniform`).
-/

set_option autoImplicit false

namespace Xul

open Foundation

/-- A call that a handler makes on its session or on the response of the session, those that
change the protocol or the headers of the response as well. -/
inductive ResponderCall where
  | session (call : SessionCall)
  | setProtocolName (name : Bytes)
  | setProtocolVersion (val : Bytes)
  | setHeaders (headers : StringTable)
  | removeHeader (name : Bytes)
  | clearHeaders
  | clear

/-- What a call of the response makes of it. -/
def TableResponse.change (response : TableResponse) : ResponderCall → TableResponse
  | .session (.setStatusCode statusCode) => response.setStatusCode statusCode
  | .session (.setStatusDescription val) => response.setStatusDescription val
  | .session (.setHeader name value) => response.setHeader name value
  | .session _ => response
  | .setProtocolName name => { response with protocolName := name }
  | .setProtocolVersion val => { response with protocolVersion := val }
  | .setHeaders headers => { response with headers }
  | .removeHeader name => response.removeHeader name
  | .clearHeaders => { response with headers := response.headers.clear }
  | .clear => response.clear

/-- A session with a response whose table may be of any class, in the place of the response of
`session`. -/
structure TableSession where
  session : UrlSession
  response : TableResponse

namespace TableSession

def reset (session : TableSession) : TableSession :=
  ⟨session.session.reset, session.response.clear⟩

def create (connection : SocketRun) : TableSession := ⟨.create connection, .create⟩

/-- The response as `send_header` prints it. -/
def prepared (session : TableSession) : TableResponse :=
  if session.session.chunkedMode then session.response.setChunked else session.response

def sendHeader (session : TableSession) : Bool × TableSession :=
  let sent := session.session.doSendData session.prepared.print
  if sent.1 then (true, ⟨{ sent.2 with headerFinished := true }, session.prepared⟩)
  else (false, ⟨sent.2, session.prepared⟩)

/-- What a call makes of the session. -/
def handle (session : TableSession) : ResponderCall → TableSession
  | .session .sendHeader => session.sendHeader.2
  | .session .reset => session.reset
  | .session .close => { session with session := session.session.close }
  | .session .finish => { session with session := session.session.finish }
  | .session (.sendData data) => { session with session := (session.session.sendData data).2 }
  | .session (.setChunked enabled) =>
      { session with session := session.session.setChunked enabled }
  | .session (.setKeepAlive keepAlive) =>
      { session with session := session.session.setKeepAlive keepAlive }
  | call => { session with response := session.response.change call }

/-- What a call gives to the socket, and whether the socket takes it. -/
def emits (session : TableSession) : ResponderCall → List (Bytes × Bool)
  | .session .sendHeader => [(session.prepared.print, session.sendHeader.1)]
  | .session (.sendData data) =>
      [(if session.session.chunkedMode then UrlSession.chunk data else data,
        (session.session.sendData data).1)]
  | .session .finish =>
      if session.session.chunkedMode then
        let size := session.session.getSendingQueueSize + 3
        let raised := session.session.connection.advance (.setMaxSendingQueueSize size)
        [(UrlSession.chunkedEndTag, ({ session.session with
          connection := raised }.doSendData UrlSession.chunkedEndTag).1)]
      else []
  | _ => []

/-- A call of a handler, behind what has happened on the connection since the one before. -/
abbrev Turn := List SocketEvent × ResponderCall

def arrive (session : TableSession) (events : List SocketEvent) : TableSession :=
  { session with session := { session.session with
      connection := events.foldl SocketRun.advance session.session.connection } }

/-- What is given to the socket in some turns. -/
def emitsAll (session : TableSession) : List Turn → List (Bytes × Bool)
  | [] => []
  | turn :: turns =>
      let arrived := session.arrive turn.1
      arrived.emits turn.2 ++ (arrived.handle turn.2).emitsAll turns

/-- The session after some turns. -/
def handleAll (session : TableSession) (turns : List Turn) : TableSession :=
  turns.foldl (fun session turn => (session.arrive turn.1).handle turn.2) session

end TableSession

/-! ## What sending leaves alone -/

namespace UrlSession

/-- Sending does not change what a handler sees of its session. -/
theorem doSendData_kept (session : UrlSession) (data : Bytes) :
    (session.doSendData data).2.headerFinished = session.headerFinished ∧
      (session.doSendData data).2.chunkedMode = session.chunkedMode ∧
      (session.doSendData data).2.response = session.response := by
  rw [doSendData]
  split
  · split
    · exact ⟨rfl, rfl, rfl⟩
    · exact ⟨rfl, rfl, rfl⟩
  · exact ⟨rfl, rfl, rfl⟩

theorem sendData_kept (session : UrlSession) (data : Bytes) :
    (session.sendData data).2.headerFinished = session.headerFinished ∧
      (session.sendData data).2.chunkedMode = session.chunkedMode ∧
      (session.sendData data).2.response = session.response := by
  rw [sendData]
  split
  · exact doSendData_kept { session with chunkedBuffer := chunk data } (chunk data)
  · exact doSendData_kept session data

theorem finish_kept (session : UrlSession) :
    session.finish.headerFinished = session.headerFinished ∧
      session.finish.chunkedMode = session.chunkedMode ∧
      session.finish.response = session.response := by
  have tag : session.sendEndTag.headerFinished = session.headerFinished ∧
      session.sendEndTag.chunkedMode = session.chunkedMode ∧
      session.sendEndTag.response = session.response := by
    rw [sendEndTag]
    split
    · exact doSendData_kept _ chunkedEndTag
    · exact ⟨rfl, rfl, rfl⟩
  rw [finish]
  simp only
  split
  · exact tag
  · exact tag

end UrlSession

/-! ## The session with the table it is created with -/

namespace UrlSession

/-- The session with another response. -/
def withResponse (session : UrlSession) (response : HttpResponse) : UrlSession :=
  { session with response }

/-- Sending does not look at the response. -/
theorem doSendData_withResponse (session : UrlSession) (response : HttpResponse) (data : Bytes) :
    (session.withResponse response).doSendData data =
      ((session.doSendData data).1, (session.doSendData data).2.withResponse response) := by
  have connection : (session.withResponse response).connection = session.connection := rfl
  rw [doSendData, doSendData, connection]
  split
  · split
    · rfl
    · rfl
  · rfl

theorem sendData_withResponse (session : UrlSession) (response : HttpResponse) (data : Bytes) :
    (session.withResponse response).sendData data =
      ((session.sendData data).1, (session.sendData data).2.withResponse response) := by
  have chunked : (session.withResponse response).chunkedMode = session.chunkedMode := rfl
  rw [sendData, sendData, chunked]
  split
  · exact doSendData_withResponse { session with chunkedBuffer := chunk data } response _
  · exact doSendData_withResponse session response data

theorem finish_withResponse (session : UrlSession) (response : HttpResponse) :
    (session.withResponse response).finish = session.finish.withResponse response := by
  have chunked : (session.withResponse response).chunkedMode = session.chunkedMode := rfl
  have tag : (session.withResponse response).sendEndTag =
      session.sendEndTag.withResponse response := by
    rw [sendEndTag, sendEndTag, chunked]
    split
    · have sent := fun run =>
        doSendData_withResponse { session with connection := run } response chunkedEndTag
      exact congrArg Prod.snd (sent _)
    · rfl
  rw [finish, finish, tag]
  symm
  exact apply_ite (fun ended => withResponse ended response)
    (session.sendEndTag.getSendingQueueSize = 0 ∧ session.sendEndTag.keepAlive = false) _ _

theorem setChunked_withResponse (session : UrlSession) (response : HttpResponse)
    (enabled : Bool) :
    (session.withResponse response).setChunked enabled =
      (session.setChunked enabled).withResponse response := by
  rw [setChunked, setChunked]
  symm
  exact apply_ite (fun chunked => withResponse chunked response)
    (session.headerFinished = true) _ _

/-- The response as `send_header` prints it. -/
def prepared (session : UrlSession) : HttpResponse :=
  if session.chunkedMode then chunkedResponse session.response else session.response

/-- The header is sent of the response that is prepared. -/
theorem sendHeader_eq (session : UrlSession) :
    session.sendHeader =
      let sent := session.doSendData session.prepared.print
      (sent.1, (if sent.1 then { sent.2 with headerFinished := true } else sent.2).withResponse
        session.prepared) := by
  have same : (if session.chunkedMode then
      { session with response := chunkedResponse session.response } else session) =
        session.withResponse session.prepared := by
    rw [prepared]
    split
    · rfl
    · rfl
  have response : (session.withResponse session.prepared).response = session.prepared := rfl
  rw [sendHeader, same, response, doSendData_withResponse]
  generalize session.doSendData session.prepared.print = sent
  obtain ⟨taken, after⟩ := sent
  cases taken with
  | true => rfl
  | false => rfl

/-- The session with its response as one whose table may be of any class. -/
def tabled (session : UrlSession) (unused : HttpResponse) : TableSession :=
  ⟨session.withResponse unused, session.response.tabled⟩

theorem tabled_prepared (session : UrlSession) (unused : HttpResponse) :
    (session.tabled unused).prepared = session.prepared.tabled := by
  have chunked : (session.tabled unused).session.chunkedMode = session.chunkedMode := rfl
  rw [TableSession.prepared, prepared, chunked]
  split
  · rfl
  · rfl

theorem tabled_sendHeader (session : UrlSession) (unused : HttpResponse) :
    (session.tabled unused).sendHeader =
      (session.sendHeader.1, session.sendHeader.2.tabled unused) := by
  have sent : (session.tabled unused).session.doSendData session.prepared.print = _ :=
    doSendData_withResponse session unused session.prepared.print
  rw [TableSession.sendHeader, tabled_prepared, HttpResponse.print_tabled, sent, sendHeader_eq]
  generalize session.doSendData session.prepared.print = sent
  obtain ⟨taken, after⟩ := sent
  cases taken with
  | true => rfl
  | false => rfl

/-- **With the table it is created with, a session is the one of `UrlSession`.** -/
theorem tabled_perform (session : UrlSession) (unused : HttpResponse) (call : SessionCall) :
    ∃ other, (session.tabled unused).handle (.session call) =
      (session.perform call).tabled other := by
  cases call with
  | close => exact ⟨unused, rfl⟩
  | finish =>
      refine ⟨unused, ?_⟩
      have kept := congrArg HttpResponse.tabled (finish_kept session).2.2
      exact congrArg₂ TableSession.mk (finish_withResponse session unused) kept.symm
  | reset => exact ⟨unused.clear, rfl⟩
  | sendHeader => exact ⟨unused, congrArg Prod.snd (tabled_sendHeader session unused)⟩
  | sendData data =>
      refine ⟨unused, ?_⟩
      have kept := congrArg HttpResponse.tabled (sendData_kept session data).2.2
      exact congrArg₂ TableSession.mk
        (congrArg Prod.snd (sendData_withResponse session unused data)) kept.symm
  | setChunked enabled =>
      refine ⟨unused, ?_⟩
      have kept : (session.setChunked enabled).response = session.response := by
        rw [setChunked]
        split
        · rfl
        · rfl
      exact congrArg₂ TableSession.mk (setChunked_withResponse session unused enabled)
        (congrArg HttpResponse.tabled kept).symm
  | setKeepAlive keepAlive => exact ⟨unused, rfl⟩
  | setStatusCode statusCode => exact ⟨unused, rfl⟩
  | setStatusDescription val => exact ⟨unused, rfl⟩
  | setHeader name value => exact ⟨unused, rfl⟩

end UrlSession

/-! ## What is given is what the connection records -/

namespace UrlSession

theorem accepted_doSendData (session : UrlSession) (data : Bytes) :
    (session.doSendData data).2.connection.accepted.map SendBuffer.bytes =
      session.connection.accepted.map SendBuffer.bytes ++
        if (session.doSendData data).1 then [data] else [] := by
  rw [doSendData]
  split
  · next room =>
      split
      · simp
      · have taken : (session.connection.socket.sendN ⟨session.connection.allocated, data⟩).1 =
            true := AsioTcpSocket.sendN_of_room room _
        simp [SocketRun.advance, SocketRun.step, taken]
  · simp

theorem accepted_advance {run : SocketRun} {event : SocketEvent}
    (noSend : ∀ data, event ≠ .sendN data) : (run.advance event).accepted = run.accepted := by
  rw [SocketRun.advance]
  cases event with
  | sendN data => exact absurd rfl (noSend data)
  | receiveCompleted errcode =>
      rw [SocketRun.step]
      split <;> rfl
  | writeCompleted buf errcode =>
      rw [SocketRun.step]
      split
      · split <;> rfl
      · rfl
  | connectCompleted errcode =>
      rw [SocketRun.step]
      split <;> rfl
  | _ => rfl

theorem accepted_sendData (session : UrlSession) (data : Bytes) :
    (session.sendData data).2.connection.accepted.map SendBuffer.bytes =
      session.connection.accepted.map SendBuffer.bytes ++
        if (session.sendData data).1 then [if session.chunkedMode then chunk data else data]
        else [] := by
  rw [sendData]
  split
  · exact accepted_doSendData _ _
  · exact accepted_doSendData _ _

end UrlSession

namespace TableSession

theorem map_filter_singleton (data : Bytes) (taken : Bool) :
    ([(data, taken)].filter Prod.snd).map Prod.fst = if taken then [data] else [] := by
  cases taken with
  | true => rfl
  | false => rfl

/-- Sending the header, by what `do_send_data` makes of its text. -/
theorem sendHeader_session (session : TableSession) :
    session.sendHeader.1 = (session.session.doSendData session.prepared.print).1 ∧
      session.sendHeader.2.session.connection =
        (session.session.doSendData session.prepared.print).2.connection := by
  rw [sendHeader]
  simp only
  split
  · next taken => exact ⟨taken.symm, rfl⟩
  · next refused => exact ⟨(Bool.eq_false_iff.mpr refused).symm, rfl⟩

/-- **The buffers that a call gives to the socket and that are taken are those that the
connection records.** -/
theorem accepted_handle (session : TableSession) (call : ResponderCall) :
    (session.handle call).session.connection.accepted.map SendBuffer.bytes =
      session.session.connection.accepted.map SendBuffer.bytes ++
        ((session.emits call).filter Prod.snd).map Prod.fst := by
  cases call with
  | session call =>
      cases call with
      | sendHeader =>
          obtain ⟨answer, connection⟩ := session.sendHeader_session
          rw [handle, connection, emits, map_filter_singleton, answer]
          exact UrlSession.accepted_doSendData _ _
      | sendData data =>
          rw [emits, map_filter_singleton]
          exact UrlSession.accepted_sendData session.session data
      | finish =>
          have ended : (session.handle (.session .finish)).session.connection.accepted =
              session.session.sendEndTag.connection.accepted := by
            show session.session.finish.connection.accepted = _
            rw [UrlSession.finish]
            simp only
            split
            · exact UrlSession.accepted_advance (by simp)
            · rfl
          rw [ended, emits, UrlSession.sendEndTag]
          split
          · rw [map_filter_singleton]
            have raised := @UrlSession.accepted_advance session.session.connection
              (.setMaxSendingQueueSize (session.session.getSendingQueueSize + 3)) (by simp)
            rw [← raised]
            exact UrlSession.accepted_doSendData _ UrlSession.chunkedEndTag
          · exact (List.append_nil _).symm
      | close =>
          have same := @UrlSession.accepted_advance session.session.connection .close (by simp)
          exact (congrArg _ same).trans (List.append_nil _).symm
      | setChunked enabled =>
          have same : (session.session.setChunked enabled).connection =
              session.session.connection := by
            rw [UrlSession.setChunked]
            split <;> rfl
          exact (congrArg (fun run => run.accepted.map SendBuffer.bytes) same).trans
            (List.append_nil _).symm
      | _ => exact (List.append_nil _).symm
  | _ => exact (List.append_nil _).symm

end TableSession

/-! ## What a handler sees of its session -/

/-- What decides what a handler sends: the response, and how the session sends it. -/
structure Responder where
  response : TableResponse
  chunkedMode : Bool
  headerFinished : Bool

namespace Responder

/-- The response as `send_header` prints it. -/
def prepared (responder : Responder) : TableResponse :=
  if responder.chunkedMode then responder.response.setChunked else responder.response

/-- What a call makes of it, where the socket has `taken` the header that the call sends. -/
def handle (responder : Responder) (taken : Bool) : ResponderCall → Responder
  | .session .sendHeader =>
      ⟨responder.prepared, responder.chunkedMode, responder.headerFinished || taken⟩
  | .session .reset => ⟨responder.response.clear, false, false⟩
  | .session (.setChunked enabled) =>
      if responder.headerFinished then responder else { responder with chunkedMode := enabled }
  | call => { responder with response := responder.response.change call }

/-- What a call gives to the socket. -/
def sends (responder : Responder) : ResponderCall → List Bytes
  | .session .sendHeader => [responder.prepared.print]
  | .session (.sendData data) =>
      [if responder.chunkedMode then UrlSession.chunk data else data]
  | .session .finish => if responder.chunkedMode then [UrlSession.chunkedEndTag] else []
  | _ => []

end Responder

namespace TableSession

def responder (session : TableSession) : Responder :=
  ⟨session.response, session.session.chunkedMode, session.session.headerFinished⟩

end TableSession

/-! ## What an earlier handler has left -/

/-- A call that determines the status description of the response. -/
def describes : ResponderCall → Bool
  | .session (.setStatusDescription _) => true
  | .session (.setStatusCode statusCode) => HttpStatusCode.getDescription statusCode != []
  | _ => false

namespace Responder

/-- What a reset leaves where no status was ever described. -/
def fresh (tableClass : TableClass) : Responder := ⟨.cleared tableClass [], false, false⟩

/-- The same with another table. -/
def withHeaders (responder : Responder) (headers : StringTable) : Responder :=
  { responder with response := { responder.response with headers } }

/-- The same with another status description. -/
def withDescription (responder : Responder) (val : Bytes) : Responder :=
  { responder with response := responder.response.setStatusDescription val }

theorem prepared_withHeaders (responder : Responder) (headers : StringTable) :
    ∃ other, (responder.withHeaders headers).prepared =
      { responder.prepared with headers := other } := by
  obtain ⟨response, chunkedMode, headerFinished⟩ := responder
  cases chunkedMode with
  | true => exact ⟨_, rfl⟩
  | false => exact ⟨headers, rfl⟩

/-- **A call does to the rest what it does with any other table.** -/
theorem handle_withHeaders (responder : Responder) (headers : StringTable) (taken : Bool)
    (call : ResponderCall) :
    ∃ other, (responder.withHeaders headers).handle taken call =
      (responder.handle taken call).withHeaders other := by
  cases call with
  | session call =>
      cases call with
      | sendHeader =>
          obtain ⟨other, prepared⟩ := responder.prepared_withHeaders headers
          refine ⟨other, ?_⟩
          rw [handle, prepared]
          rfl
      | reset => exact ⟨headers.clear, rfl⟩
      | setChunked enabled =>
          obtain ⟨response, chunkedMode, headerFinished⟩ := responder
          cases headerFinished with
          | true => exact ⟨headers, rfl⟩
          | false => exact ⟨headers, rfl⟩
      | setHeader name value => exact ⟨headers.set name value, rfl⟩
      | _ => exact ⟨headers, rfl⟩
  | setHeaders given => exact ⟨given, rfl⟩
  | removeHeader name => exact ⟨headers.remove name, rfl⟩
  | clearHeaders => exact ⟨headers.clear, rfl⟩
  | clear => exact ⟨headers.clear, rfl⟩
  | _ => exact ⟨headers, rfl⟩

theorem print_withHeaders (responder : Responder) (headers : StringTable) :
    (responder.withHeaders headers).prepared.print = responder.prepared.print ↔
      (responder.withHeaders headers).prepared.headers.write =
        responder.prepared.headers.write := by
  obtain ⟨other, prepared⟩ := responder.prepared_withHeaders headers
  rw [prepared, TableResponse.print, TableResponse.print]
  exact List.append_right_inj _

theorem prepared_withDescription (responder : Responder) (val : Bytes) :
    (responder.withDescription val).prepared = responder.prepared.setStatusDescription val := by
  obtain ⟨response, chunkedMode, headerFinished⟩ := responder
  cases chunkedMode with
  | true => rfl
  | false => rfl

/-- **A call that does not describe the status leaves the description that is there.** -/
theorem handle_withDescription (responder : Responder) (val : Bytes) (taken : Bool)
    (call : ResponderCall) :
    (responder.withDescription val).handle taken call =
      (responder.handle taken call).withDescription
        (if describes call then (responder.handle taken call).response.statusDescription
          else val) := by
  cases call with
  | session call =>
      cases call with
      | sendHeader =>
          rw [handle, prepared_withDescription]
          rfl
      | setChunked enabled =>
          obtain ⟨response, chunkedMode, headerFinished⟩ := responder
          cases headerFinished with
          | true => rfl
          | false => rfl
      | setStatusCode statusCode =>
          by_cases unknown : HttpStatusCode.getDescription statusCode = []
          · simp [handle, TableResponse.change, withDescription, TableResponse.setStatusCode,
              TableResponse.setStatusDescription, describes, unknown]
          · simp [handle, TableResponse.change, withDescription, TableResponse.setStatusCode,
              TableResponse.setStatusDescription, describes, unknown]
      | _ => rfl
  | _ => rfl

/-- The first, but for the status description where it is not `known`. -/
def Resembles (known : Bool) (responder other : Responder) : Prop :=
  ∃ val, other = responder.withDescription val ∧ (known = true → other = responder)

theorem Resembles.handle {known : Bool} {responder other : Responder}
    (resembles : Resembles known responder other) (taken : Bool) (call : ResponderCall) :
    Resembles (known || describes call) (responder.handle taken call)
      (other.handle taken call) := by
  obtain ⟨val, rfl, same⟩ := resembles
  refine ⟨_, responder.handle_withDescription val taken call, fun described => ?_⟩
  cases known with
  | true => rw [same rfl]
  | false =>
      rw [Bool.false_or] at described
      rw [handle_withDescription, described, if_pos rfl]
      rfl

end Responder

/-! ## Handlers to which nothing leaks -/

namespace TableSession

variable {one other : TableSession} {call : ResponderCall}

end TableSession

namespace Responder

/-- Responders that differ in their tables alone. -/
def Alike (responders : TableClass → Responder) : Prop :=
  ∀ tableClass, ∃ headers,
    responders tableClass = (responders .associativeIstringArray).withHeaders headers

theorem Alike.handle {responders : TableClass → Responder} (alike : Alike responders)
    (taken : Bool) (call : ResponderCall) :
    Alike fun tableClass => (responders tableClass).handle taken call := by
  intro tableClass
  obtain ⟨headers, same⟩ := alike tableClass
  simp only
  rw [same]
  exact handle_withHeaders _ headers taken call

theorem Alike.chunkedMode {responders : TableClass → Responder} (alike : Alike responders)
    (tableClass : TableClass) :
    (responders tableClass).chunkedMode = (responders .associativeIstringArray).chunkedMode := by
  obtain ⟨headers, same⟩ := alike tableClass
  rw [same]
  rfl

theorem Alike.print {responders : TableClass → Responder} (alike : Alike responders)
    (tableClass : TableClass) :
    (responders tableClass).prepared.print =
        (responders .associativeIstringArray).prepared.print ↔
      (responders tableClass).prepared.headers.write =
        (responders .associativeIstringArray).prepared.headers.write := by
  obtain ⟨headers, same⟩ := alike tableClass
  rw [same]
  exact print_withHeaders _ headers

/-- With the same header, the same is sent. -/
theorem sends_congr {one other : Responder} {call : ResponderCall}
    (chunked : one.chunkedMode = other.chunkedMode)
    (header : call = .session .sendHeader → one.prepared.print = other.prepared.print) :
    one.sends call = other.sends call := by
  cases call with
  | session call =>
      cases call with
      | sendHeader => exact List.singleton_inj.mpr (header rfl)
      | sendData data => rw [sends, sends, chunked]
      | finish => rw [sends, sends, chunked]
      | _ => rfl
  | _ => rfl

/-- Uniform responders send the same as the one with the table of the default class, and what
resembles them does. -/
theorem Resembles.sends {known : Bool} {responders : TableClass → Responder}
    {tableClass : TableClass} {responder : Responder} {call : ResponderCall}
    (resembles : Resembles known (responders tableClass) responder) (alike : Alike responders)
    (described : call = .session .sendHeader → known = true)
    (uniform : call = .session .sendHeader → ∀ tableClass,
      (responders tableClass).prepared.headers.write =
        (responders .associativeIstringArray).prepared.headers.write) :
    responder.sends call = (responders .associativeIstringArray).sends call := by
  obtain ⟨val, rfl, same⟩ := resembles
  refine sends_congr (alike.chunkedMode tableClass) fun header => ?_
  rw [same (described header)]
  exact (alike.print tableClass).mpr (uniform header tableClass)

end Responder

namespace TableSession

open Responder

/-- **Nothing set by an earlier request appears in a later one**: whatever was served on a
session before its last reset, and whatever happens on its connection, the handler that makes
these calls gives the same to the socket, as long as the socket answers the same. -/
def LeaksNothing (calls : List ResponderCall) : Prop :=
  ∀ (connection : SocketRun) (history otherHistory turns otherTurns : List Turn),
    turns.map Prod.snd = calls → otherTurns.map Prod.snd = calls →
      Indistinguishable (((create connection).handleAll history).reset.emitsAll turns)
        (((create connection).handleAll otherHistory).reset.emitsAll otherTurns)

/-- What such handlers give to the socket, where the socket answers in the same way. -/
theorem LeaksNothing.same_bytes {connection : SocketRun} {history otherHistory turns otherTurns :
    List Turn} (safe : LeaksNothing (turns.map Prod.snd))
    (same : turns.map Prod.snd = otherTurns.map Prod.snd)
    (answers : (((create connection).handleAll history).reset.emitsAll turns).map Prod.snd =
      (((create connection).handleAll otherHistory).reset.emitsAll otherTurns).map Prod.snd) :
    (((create connection).handleAll history).reset.emitsAll turns).map Prod.fst =
      (((create connection).handleAll otherHistory).reset.emitsAll otherTurns).map Prod.fst :=
  (safe connection history otherHistory turns otherTurns rfl same.symm).same_sent answers

/-! ## Handlers to which something leaks -/

variable {one other : TableSession} {call : ResponderCall}

/-- The session with another status description. -/
def withDescription (session : TableSession) (val : Bytes) : TableSession :=
  { session with response := session.response.setStatusDescription val }

/-- A call that does not describe the status, and does not send the header, does not look at
the description. -/
theorem handle_withDescription (session : TableSession) (val : Bytes)
    (quiet : describes call = false) (noHeader : call ≠ .session .sendHeader) :
    (session.withDescription val).emits call = session.emits call ∧
      (session.withDescription val).handle call = (session.handle call).withDescription val := by
  cases call with
  | session call =>
      cases call with
      | sendHeader => exact absurd rfl noHeader
      | setStatusDescription other => cases quiet
      | setStatusCode statusCode =>
          have unknown : HttpStatusCode.getDescription statusCode = [] := by
            simpa [describes] using quiet
          refine ⟨rfl, ?_⟩
          simp [handle, withDescription, TableResponse.change, TableResponse.setStatusCode,
            TableResponse.setStatusDescription, unknown]
      | _ => exact ⟨rfl, rfl⟩
  | _ => exact ⟨rfl, rfl⟩

end TableSession

end Xul
