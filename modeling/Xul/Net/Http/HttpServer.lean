import Xul.Net.Http.HttpRequest
import Xul.Net.UrlSession

/-!
# A client of the server

`http_server_client` reads requests from one connection, creates a handler for each and
hands it the body.  Header and body share a buffer and are told apart by a flag; what is
left of a read goes to the next header or body.  Each of the functions that do this ends
in a call of one of the others, so that a read is a loop of turns (`serve`).  A read that is
appended to the buffer is parsed where it lies in it, and what is left of it is still there
when the buffer is emptied and filled again.

The router and the handlers are code outside: a router is asked for each request, and
what a handler calls on the session may depend on everything the handlers of the
connection were told and have called before (`log`).
-/

set_option autoImplicit false

namespace Xul

/-- `http_server_options_impl`, as far as a client reads it; none of it can be set.  A
header that is not complete and one more read fit an `int`. -/
structure HttpServerOptions where
  maxKeepAliveRequests : Int
  receiveBufferSize : Nat
  maxHeaderSize : Nat
  keepsAlive : 1 ≤ maxKeepAliveRequests
  small : maxHeaderSize + receiveBufferSize < 2 ^ 31

def HttpServerOptions.release : HttpServerOptions :=
  ⟨100, 16 * 1024, 16 * 1024, by decide, by decide⟩

def HttpServerOptions.debug : HttpServerOptions :=
  ⟨100, 4 * 1024, 16 * 1024, by decide, by decide⟩

/-- What a handler is told. -/
inductive HandlerCall where
  | handleRequest (request : HttpRequest)
  /-- The bytes of the buffer that the size covers, and the size itself. -/
  | handleBodyData (data : Bytes) (size : Int)
  | handleError (errcode : Int)
  | handleDataSent (bytes : Nat)
  | handleRequestFinished
deriving DecidableEq

/-- What the handlers of a connection were told and what they called on its session;
handlers are numbered in the order of their creation. -/
inductive LogEntry where
  | told (handler : Nat) (call : HandlerCall)
  | called (handler : Nat) (call : SessionCall)
deriving DecidableEq

/-- The code outside: whether the router has a handler for a request, and what the
handlers call on the session after the last entry of the log. -/
structure HttpServerRouter where
  createUrlHandler : UrlSession → List LogEntry → HttpRequest → Bool
  reaction : UrlSession → List LogEntry → List SessionCall

/-- A router with a handler for every request; the handlers only listen. -/
def silentRouter : HttpServerRouter := ⟨fun _ _ _ => true, fun _ _ => []⟩

/-- A handler; requests without one are answered by `not_found_handler`. -/
structure UrlHandler where
  index : Nat
  notFound : Bool

/-- `http_server_client`.  `erased` is set when the server has dropped the client.

The last three are not members of it: where in the header buffer the rest of a read lies, when
it does not lie in the buffer of the socket; whether a part of the header buffer was copied over
itself by `memcpy`, which is not defined; and whether bytes were discarded that were kept of a
header. -/
structure HttpServerClient where
  options : HttpServerOptions
  session : UrlSession
  headerBuffer : Bytes
  receivingHeader : Bool
  currentRequest : Option HttpRequest
  handledRequests : Nat
  handler : Option UrlHandler
  contentLength : Int
  receivedBodySize : Int
  erased : Bool
  log : List LogEntry
  restAt : Option Nat
  undefinedCopy : Bool
  discarded : Bool

namespace HttpServerClient

/-- What is left to do with a read. -/
inductive Turn where
  | stop
  | headerData (data : Bytes)
  | bodyData (data : Bytes)

def create (options : HttpServerOptions) (connection : SocketRun) : HttpServerClient :=
  ⟨options, UrlSession.create connection, [], true, none, 0, none, 0, 0, false, [], none, false,
    false⟩

def isOpen (client : HttpServerClient) : Bool := client.session.connection.socket.native.isOpen

def closeSocket (client : HttpServerClient) : HttpServerClient :=
  { client with session :=
    { client.session with connection := client.session.connection.advance .close } }

def receive (client : HttpServerClient) : HttpServerClient :=
  { client with session :=
    { client.session with connection := client.session.connection.advance .receive } }

def start (client : HttpServerClient) : HttpServerClient :=
  { client with receivingHeader := true }.receive

def resetState (client : HttpServerClient) : HttpServerClient :=
  { client with
    headerBuffer := []
    receivingHeader := true
    contentLength := 0
    receivedBodySize := 0
    discarded := client.discarded || client.receivingHeader && !client.headerBuffer.isEmpty }

/-- `on_client_error`: the server closes the client and drops it. -/
def onClientError (client : HttpServerClient) : HttpServerClient :=
  { client.closeSocket with erased := true }

def handleError (client : HttpServerClient) : HttpServerClient := client.resetState.onClientError

/-- What `not_found_handler` calls. -/
def notFoundReaction (session : UrlSession) : HandlerCall → List SessionCall
  | .handleRequest _ => session.sendEmptyResponse 404
  | .handleBodyData _ _ => [.close]
  | .handleError _ => [.close]
  | .handleDataSent _ => []
  | .handleRequestFinished => []

/-- A handler calls its session. -/
def act (client : HttpServerClient) (handler : UrlHandler) (calls : List SessionCall) :
    HttpServerClient :=
  { client with
    session := client.session.performAll calls
    log := client.log ++ calls.map fun call => LogEntry.called handler.index call }

/-- A handler is told something, and calls its session in turn. -/
def tell (router : HttpServerRouter) (client : HttpServerClient) (handler : UrlHandler)
    (call : HandlerCall) : HttpServerClient :=
  let told := { client with log := client.log ++ [LogEntry.told handler.index call] }
  told.act handler
    (if handler.notFound then notFoundReaction told.session call
     else router.reaction told.session told.log)

/-- `handle_request` counts the request, resets the session and replaces the handler. -/
def handleRequest (router : HttpServerRouter) (client : HttpServerClient)
    (request : HttpRequest) : HttpServerClient :=
  let session := client.session.reset
  let handler : UrlHandler :=
    ⟨client.handledRequests, !router.createUrlHandler session client.log request⟩
  { client with
    handledRequests := client.handledRequests + 1
    session
    handler := some handler }.tell router handler (.handleRequest request)

/-- The next read is asked for as long as the socket is open. -/
def receiveNext (client : HttpServerClient) : HttpServerClient :=
  if client.isOpen then client.receive else client

/-- A copy of so many bytes to the beginning of the buffer that they lie in overlaps them. -/
def overlaps (client : HttpServerClient) (size : Nat) : Bool := client.restAt.any (· < size)

/-- `m_header_buffer.assign`. -/
def assignHeader (client : HttpServerClient) (data : Bytes) : HttpServerClient :=
  { client with
    headerBuffer := data
    undefinedCopy := client.undefinedCopy || client.overlaps data.length }

/-- What is left of a read begins so many bytes further on. -/
def skip (client : HttpServerClient) (size : Nat) : HttpServerClient :=
  { client with restAt := client.restAt.map (· + size) }

/-- `parse_header_data`.  What follows a header goes to its body, or to the next header
when the header declares an empty body. -/
def parseHeaderData (router : HttpServerRouter) (client : HttpServerClient) (data : Bytes) :
    HttpServerClient × Turn :=
  match HttpMessage.findHeaderEnd data with
  | none =>
      if client.options.maxHeaderSize < data.length then (client.handleError, .stop)
      else if client.headerBuffer = [] then ((client.assignHeader data).receive, .stop)
      else (client.receive, .stop)
  | some pos =>
      let headerSize := pos + 4
      match parseRequest data headerSize with
      | none => (client.handleError, .stop)
      | some request =>
          let handled : HttpServerClient := { client with
            receivingHeader := false
            contentLength := getContentLength request.message.headers
            currentRequest := some request }.handleRequest router request
          if headerSize < data.length then
            if handled.contentLength = 0 then
              (handled.resetState.skip headerSize, .headerData (data.drop headerSize))
            else (handled.skip headerSize, .bodyData (data.drop headerSize))
          else (handled.receiveNext, .stop)

def handleHeaderData (router : HttpServerRouter) (client : HttpServerClient) (data : Bytes) :
    HttpServerClient × Turn :=
  if client.headerBuffer = [] then client.parseHeaderData router data
  else
    let buffered := client.headerBuffer ++ data
    { client with headerBuffer := buffered, restAt := some 0 }.parseHeaderData router buffered

/-- `handle_body_data`.  The size of the data is unsigned where it is compared with the
size that was read, so a negative size that was read counts as large. -/
def handleBodyData (router : HttpServerRouter) (client : HttpServerClient) (data : Bytes) :
    HttpServerClient × Turn :=
  match client.currentRequest, client.handler with
  | some _, some handler =>
      let remainingSize := client.contentLength - client.receivedBodySize
      let readSize := toInt (min remainingSize data.length)
      let told := { client with receivedBodySize := client.receivedBodySize + readSize }.tell
        router handler (.handleBodyData (data.take readSize.toNat) readSize)
      if toSizeT readSize < data.length then
        (told.resetState.skip readSize.toNat, .headerData (data.drop readSize.toNat))
      else if readSize = remainingSize then (told.resetState.receiveNext, .stop)
      else (told.receiveNext, .stop)
  | _, _ => (client.closeSocket.handleError, .stop)

/-- One turn of a read. -/
def turn (router : HttpServerRouter) (client : HttpServerClient) :
    Turn → HttpServerClient × Turn
  | .stop => (client, .stop)
  | .headerData data => client.handleHeaderData router data
  | .bodyData data => client.handleBodyData router data

/-- How many turns there can be: a header is at least four bytes long, and after a body
that takes nothing a header is read. -/
def turns (client : HttpServerClient) : Turn → Nat
  | .stop => 0
  | .headerData data => 2 * (client.headerBuffer.length + data.length) + 1
  | .bodyData data => 2 * data.length + 2

def serveLoop (router : HttpServerRouter) : Nat → HttpServerClient → Turn → HttpServerClient
  | 0, client, _ => client
  | fuel + 1, client, left =>
      serveLoop router fuel (client.turn router left).1 (client.turn router left).2

/-- All turns of a read. -/
def serve (router : HttpServerRouter) (client : HttpServerClient) (left : Turn) :
    HttpServerClient :=
  serveLoop router (client.turns left) client left

/-- The read that is served is new. -/
def fresh (client : HttpServerClient) : HttpServerClient := { client with restAt := none }

def onSocketReceive (router : HttpServerRouter) (client : HttpServerClient) (data : Bytes) :
    HttpServerClient :=
  if client.receivingHeader then client.fresh.serve router (.headerData data)
  else client.fresh.serve router (.bodyData data)

def onSocketReceiveFailed (router : HttpServerRouter) (client : HttpServerClient)
    (errcode : Int) : HttpServerClient :=
  let reset := client.resetState
  match reset.handler with
  | some handler =>
      let told := reset.tell router handler (.handleError errcode)
      { told with session := told.session.close }.onClientError
  | none => reset.onClientError

/-- `on_socket_send`: the request of a handler is over when its session is finished and
everything is sent. -/
def onSocketSend (router : HttpServerRouter) (client : HttpServerClient) (bytes : Nat) :
    HttpServerClient :=
  match client.handler with
  | none => client
  | some handler =>
      let told := client.tell router handler (.handleDataSent bytes)
      if told.session.isFinished ∧ told.session.getSendingQueueSize = 0 then
        let ended :=
          if told.session.isKeepAlive = false ∨
              told.options.maxKeepAliveRequests ≤ told.handledRequests then told.closeSocket
          else told.resetState
        { ended.tell router handler .handleRequestFinished with handler := none }
      else told

/-- `on_socket_send_failed` does what `on_socket_receive_failed` does. -/
def onSocketSendFailed (router : HttpServerRouter) (client : HttpServerClient)
    (errcode : Int) : HttpServerClient :=
  client.onSocketReceiveFailed router errcode

/-! ## The loop of a read -/

theorem parseHeaderData_turns (router : HttpServerRouter) (client : HttpServerClient)
    (data : Bytes) :
    turns (client.parseHeaderData router data).1 (client.parseHeaderData router data).2 <
      2 * data.length + 1 := by
  rw [parseHeaderData]
  cases found : HttpMessage.findHeaderEnd data with
  | none =>
      simp only
      split
      · exact Nat.succ_pos _
      · split <;> exact Nat.succ_pos _
  | some pos =>
      have inside := (Foundation.firstOccurrence_add_length_le found).resolve_right (by decide)
      simp only [HttpMessage.headerEndTag, List.length_cons, List.length_nil] at inside
      cases parsed : parseRequest data (pos + 4) with
      | none =>
          simp only [parsed]
          exact Nat.succ_pos _
      | some request =>
          simp only [parsed]
          split
          · split
            · simp only [turns, skip, resetState, List.length_nil, List.length_drop]
              omega
            · simp only [turns, List.length_drop]
              omega
          · exact Nat.succ_pos _

/-- Every turn leaves fewer turns. -/
theorem turn_turns (router : HttpServerRouter) (client : HttpServerClient) {left : Turn}
    (more : left ≠ .stop) :
    turns (client.turn router left).1 (client.turn router left).2 < turns client left := by
  cases left with
  | stop => exact absurd rfl more
  | headerData data =>
      simp only [turn, handleHeaderData]
      split
      · next empty =>
          simpa [turns, empty] using parseHeaderData_turns router client data
      · simpa [turns] using parseHeaderData_turns router
          { client with headerBuffer := client.headerBuffer ++ data, restAt := some 0 }
          (client.headerBuffer ++ data)
  | bodyData data =>
      simp only [turn, handleBodyData]
      split
      · split
        · simp only [turns, skip, resetState, List.length_nil, List.length_drop]
          omega
        · split <;> exact Nat.succ_pos _
      · exact Nat.succ_pos _

theorem serveLoop_stop (router : HttpServerRouter) (fuel : Nat) (client : HttpServerClient) :
    serveLoop router fuel client .stop = client := by
  induction fuel with
  | zero => rfl
  | succ fuel ih => exact ih

theorem serveLoop_of_le (router : HttpServerRouter) {fuel : Nat} :
    ∀ {client : HttpServerClient} {left : Turn}, turns client left ≤ fuel →
      serveLoop router fuel client left = serve router client left := by
  induction fuel using Nat.strong_induction_on with
  | _ fuel ih =>
    intro client left enough
    by_cases stops : left = .stop
    · subst stops
      rw [serve, serveLoop_stop, serveLoop_stop]
    · have fewer := turn_turns router client stops
      obtain ⟨fuel, rfl⟩ : ∃ previous, fuel = previous + 1 := ⟨fuel - 1, by omega⟩
      obtain ⟨some, shape⟩ : ∃ previous, turns client left = previous + 1 :=
        ⟨turns client left - 1, by omega⟩
      rw [serve, shape, serveLoop, serveLoop, ih fuel (by omega) (by omega),
        ih some (by omega) (by omega)]

/-- **A read is served turn by turn.** -/
theorem serve_eq_turn (router : HttpServerRouter) (client : HttpServerClient) (left : Turn) :
    client.serve router left =
      (client.turn router left).1.serve router (client.turn router left).2 := by
  by_cases stops : left = .stop
  · subst stops
    rfl
  · have fewer := turn_turns router client stops
    obtain ⟨some, shape⟩ : ∃ previous, turns client left = previous + 1 :=
      ⟨turns client left - 1, by omega⟩
    rw [serve, shape, serveLoop, serveLoop_of_le router (by omega)]

@[simp] theorem serve_stop (router : HttpServerRouter) (client : HttpServerClient) :
    client.serve router .stop = client := rfl

/-- The client as it parses new data, which is appended to what is buffered. -/
def buffered (client : HttpServerClient) (data : Bytes) : HttpServerClient :=
  { client with
    headerBuffer := if client.headerBuffer = [] then [] else client.headerBuffer ++ data
    restAt := if client.headerBuffer = [] then client.restAt else some 0 }

/-- New data is parsed together with what is buffered. -/
theorem turn_headerData (router : HttpServerRouter) (client : HttpServerClient) (data : Bytes) :
    client.turn router (.headerData data) =
      (client.buffered data).parseHeaderData router (client.headerBuffer ++ data) := by
  by_cases empty : client.headerBuffer = []
  · obtain ⟨options, session, buffer⟩ := client
    subst empty
    rfl
  · simp only [turn, handleHeaderData, buffered, if_neg empty]

@[simp] theorem receiveNext_log (client : HttpServerClient) :
    client.receiveNext.log = client.log := by
  rw [receiveNext]
  split <;> rfl

end HttpServerClient

end Xul
