import Xul.Net.Http.HttpConnectionRequestInfo

/-!
# A client's connection

`http_connection_impl` serves one request at a time.  It connects to the request's
host, writes the request and hands what it receives to it; the listener is told of the
response, of the body and of the end.

The listener is code outside.  It decides by its answers whether a response goes on,
which may depend on all it was told; it does not call the connection from inside a
notification.
-/

set_option autoImplicit false

namespace Xul

/-- What a listener is told. -/
inductive ListenerCall where
  | httpResponse (resp : HttpResponse) (realUrl : Bytes)
  | httpData (data : Bytes)
  | httpPutContent
  | httpComplete (size : Int)
  | httpError (errcode : Int)
deriving DecidableEq

/-- The code outside: what the listener returns to the last of the calls it got, and
whether `inet_addr` reads a host as an address. -/
structure HttpConnectionEnvironment where
  answer : List ListenerCall → Bool
  isAddress : Bytes → Bool

/-- `tcp_socket`, as far as a connection sees it: what was started on it and has not
completed, and what it was given to send. -/
structure ClientSocket where
  connecting : Bool
  connected : Bool
  receiving : Bool
  sent : List Bytes
deriving DecidableEq

def ClientSocket.create : ClientSocket := ⟨false, false, false, []⟩

/-- `http_connection_impl`.  `resolving` is the name that is being looked up, `posted`
are the errors that wait to be reported. -/
structure HttpConnection (zlib : Zlib) where
  options : HttpConnectionOptions
  host : Bytes
  port : Int
  socket : ClientSocket
  resolving : Option Bytes
  pauseReceive : Bool
  request : Option (HttpConnectionRequestInfo zlib)
  created : Nat
  posted : List Int
  log : List ListenerCall

namespace HttpConnection

variable {zlib : Zlib}

def create (options : HttpConnectionOptions) : HttpConnection zlib :=
  ⟨options, [], 0, ClientSocket.create, none, false, none, 0, [], []⟩

/-- `close` forgets the request, and makes a new socket. -/
def close (conn : HttpConnection zlib) : HttpConnection zlib :=
  { conn with
    request := none
    pauseReceive := false
    resolving := none
    host := []
    port := 0
    socket := ClientSocket.create }

/-- The listener is told something. -/
def tell (call : ListenerCall) (conn : HttpConnection zlib) : HttpConnection zlib :=
  { conn with log := conn.log ++ [call] }

def receive (conn : HttpConnection zlib) : HttpConnection zlib :=
  { conn with socket := { conn.socket with receiving := true } }

def checkReceive (conn : HttpConnection zlib) : HttpConnection zlib :=
  if ¬ conn.pauseReceive ∧ conn.socket.connected ∧ ¬ conn.socket.receiving then conn.receive
  else conn

/-- `write_request`, of the request that is pending. -/
def writeRequest (info : HttpConnectionRequestInfo zlib) (conn : HttpConnection zlib) :
    HttpConnection zlib :=
  { conn with
    request := some { info with headerSend := true }
    socket := { conn.socket with sent := conn.socket.sent ++ [info.request.print] } }.tell
      .httpPutContent

def connectoHostAddress (conn : HttpConnection zlib) : HttpConnection zlib :=
  { conn with socket := { conn.socket with connecting := true } }

variable (env : HttpConnectionEnvironment)

/-- A host that is not an address is looked up first. -/
def connectHost (info : HttpConnectionRequestInfo zlib) (conn : HttpConnection zlib) :
    HttpConnection zlib :=
  let conn := { conn.close with request := some info, host := info.url.host, port := info.url.port }
  if env.isAddress conn.host then conn.connectoHostAddress
  else { conn with resolving := some conn.host }

def isSameHost (info : HttpConnectionRequestInfo zlib) (conn : HttpConnection zlib) : Bool :=
  info.url.host == conn.host && info.url.port == conn.port

def needReconnect (info : HttpConnectionRequestInfo zlib) (conn : HttpConnection zlib) : Bool :=
  !conn.options.keepAlive || !conn.socket.connected || !conn.isSameHost info ||
    conn.request.isSome

def doRequest (info : HttpConnectionRequestInfo zlib) (conn : HttpConnection zlib) :
    HttpConnection zlib :=
  if conn.needReconnect info then conn.connectHost env info
  else (conn.writeRequest info).checkReceive

/-! ## What a request calls of the connection -/

def abortHandling (conn : HttpConnection zlib) : HttpConnection zlib := conn.close

def onError (errcode : Int) (conn : HttpConnection zlib) : HttpConnection zlib :=
  conn.abortHandling.tell (.httpError errcode)

def onHeader (resp : HttpResponse) (conn : HttpConnection zlib) : Bool × HttpConnection zlib :=
  match conn.request with
  | none => (false, conn.abortHandling)
  | some info =>
      let told := conn.tell (.httpResponse resp info.url.originalString)
      (env.answer told.log, told)

def onContent (data : Bytes) (conn : HttpConnection zlib) : Bool × HttpConnection zlib :=
  match conn.request with
  | none => (false, conn.abortHandling)
  | some _ =>
      let told := conn.tell (.httpData data)
      (env.answer told.log, told)

/-- `on_complete` asserts that nothing comes after the response, and drops it. -/
def onComplete (totalSize : Int) (conn : HttpConnection zlib) : Bool × HttpConnection zlib :=
  match conn.request with
  | none => (false, conn.abortHandling)
  | some _ => (true, { conn with request := none }.tell (.httpComplete totalSize))

/-- The state of the pending request is kept. -/
def store (info : HttpConnectionRequestInfo zlib) (conn : HttpConnection zlib) :
    HttpConnection zlib :=
  { conn with request := conn.request.map fun _ => info }

def redirect (info : HttpConnectionRequestInfo zlib) (conn : HttpConnection zlib) :
    HttpConnection zlib :=
  conn.close.doRequest env info

/-- What the filters call, when they are finished from inside an error: no filter
reports an error of a read, or redirects. -/
def innerOfFilters : InnerHttpConnection (HttpConnectionRequestInfo zlib) (HttpConnection zlib)
    where
  getMaxRedirects conn := conn.options.maxRedirects
  isStarted conn := conn.request.isSome
  redirect := redirect env
  handleError := onError
  abortHandling := abortHandling
  onError := onError
  onHeader := onHeader env
  onContent := onContent env
  onComplete totalSize _ := onComplete totalSize

/-- `handle_error`: the end of the stream ends a response whose header has arrived. -/
def handleError (errcode : Int) (conn : HttpConnection zlib) : HttpConnection zlib :=
  match conn.request with
  | none => conn.close
  | some info =>
      if info.responseHeaderReceived ∧ errcode = HttpErrorCodes.eof then
        let finished := info.filters.finish (innerOfFilters env) [] conn
        finished.connection.store { info with filters := finished.filter }
      else conn.onError errcode

def inner : InnerHttpConnection (HttpConnectionRequestInfo zlib) (HttpConnection zlib) :=
  { innerOfFilters env with handleError := handleError env }

/-! ## Notifications of the socket and the resolver -/

def onSocketConnect (conn : HttpConnection zlib) : HttpConnection zlib :=
  let conn := conn.receive
  match conn.request with
  | none => conn.close
  | some info => conn.writeRequest info

/-- A socket that was replaced in between is not connected. -/
def onSocketReceive (data : Bytes) (conn : HttpConnection zlib) : HttpConnection zlib :=
  match conn.request with
  | none => conn.close
  | some info =>
      let processed := info.process (inner env) data conn
      let conn := processed.connection.store processed.info
      if processed.ret then conn.checkReceive else conn

def onResolverAddress (errcode : Int) (found : Bool) (conn : HttpConnection zlib) :
    HttpConnection zlib :=
  if errcode ≠ 0 ∨ found = false then conn.handleError env errcode else conn.connectoHostAddress

/-! ## Runs -/

/-- What happens to a connection.  The resolver finds addresses or none. -/
inductive Event where
  | request (method urlstr : Bytes) (headers : List (Bytes × Bytes))
  | resolverAddress (errcode : Int) (found : Bool)
  | socketConnect
  | socketConnectFailed (errcode : Int)
  | socketReceive (data : Bytes)
  | socketReceiveFailed (errcode : Int)
  | socketSendFailed (errcode : Int)
  | postedError
  | pause
  | resume
  | close

def prepareRequest (method urlstr : Bytes) (headers : List (Bytes × Bytes))
    (conn : HttpConnection zlib) : Option (HttpConnectionRequestInfo zlib) :=
  let url := SimpleUri.parse urlstr
  if url.1 = false ∨ method = [] then none
  else
    let info :=
      (HttpConnectionRequestInfo.create conn.created url.2).prepareRequest conn.options headers
    some { info with request := info.request.setMethod method }

/-- A request that cannot be made is reported later. -/
def doPrepared (prepared : Option (HttpConnectionRequestInfo zlib)) (conn : HttpConnection zlib) :
    HttpConnection zlib :=
  match prepared with
  | none => { conn with posted := conn.posted ++ [HttpErrorCodes.invalidUrl] }
  | some info => { conn with created := conn.created + 1 }.doRequest env info

/-- A socket that has failed to connect or to receive. -/
def failSocket (conn : HttpConnection zlib) : HttpConnection zlib :=
  { conn with socket :=
    { conn.socket with connecting := false, connected := false, receiving := false } }

/-- A socket that has failed to send; a receive that was started goes on. -/
def disconnectSocket (conn : HttpConnection zlib) : HttpConnection zlib :=
  { conn with socket := { conn.socket with connected := false } }

/-- An event can happen when what it completes was started; a read brings at least one
byte and at most as many as were asked for. -/
def step (conn : HttpConnection zlib) : Event → Option (HttpConnection zlib)
  | .request method urlstr headers =>
      some (conn.doPrepared env (conn.prepareRequest method urlstr headers))
  | .resolverAddress errcode found =>
      if conn.resolving = none then none
      else some ({ conn with resolving := none }.onResolverAddress env errcode found)
  | .socketConnect =>
      if ¬ conn.socket.connecting then none
      else
        let socket := { conn.socket with connecting := false, connected := true }
        some { conn with socket }.onSocketConnect
  | .socketConnectFailed errcode =>
      if ¬ conn.socket.connecting then none
      else some (conn.failSocket.handleError env errcode)
  | .socketReceive data =>
      if conn.socket.receiving ∧ data ≠ [] ∧ data.length ≤ conn.options.receiveBufferSize then
        let socket := { conn.socket with receiving := false }
        some ({ conn with socket }.onSocketReceive env data)
      else none
  | .socketReceiveFailed errcode =>
      if conn.socket.receiving then some (conn.failSocket.handleError env errcode) else none
  | .socketSendFailed errcode =>
      if conn.socket.sent = [] then none else some (conn.disconnectSocket.handleError env errcode)
  | .postedError =>
      match conn.posted with
      | [] => none
      | errcode :: posted => some ({ conn with posted }.onError errcode)
  | .pause => some { conn with pauseReceive := true }
  | .resume => some { conn with pauseReceive := false }.checkReceive
  | .close => some conn.close

/-- A request that is prepared goes to an address that is accepted, and is new but for its
message. -/
theorem of_prepareRequest {conn : HttpConnection zlib} {method urlstr : Bytes}
    {headers : List (Bytes × Bytes)} {info : HttpConnectionRequestInfo zlib}
    (prepared : conn.prepareRequest method urlstr headers = some info) :
    (SimpleUri.parse urlstr).1 = true ∧
      ∀ {α : Type} {f : HttpConnectionRequestInfo zlib → α},
        (∀ info request, f { info with request := request } = f info) →
          f info =
            f (HttpConnectionRequestInfo.create conn.created (SimpleUri.parse urlstr).2) := by
  simp only [prepareRequest] at prepared
  split at prepared
  · cases prepared
  · next valid =>
      obtain ⟨accepted, -⟩ := not_or.mp valid
      cases prepared
      refine ⟨eq_true_of_ne_false accepted, fun ignores => ?_⟩
      exact (ignores _ _).trans (HttpConnectionRequestInfo.apply_prepareRequest ignores ..)

end HttpConnection

end Xul
