import Xul.Net.Http.HttpConnection

/-!
# A connection with a queue of requests

`concurrent_http_connection_impl` writes its requests one after another on one connection, and
takes what it receives for the responses in the order of the requests.  What is left of a read when
a response is complete goes to the next request, from inside the notification of the first.

While a read is handled nothing is written, and unless the connection is given up it only loses
requests from the front of its queue (`process_within`).

What a listener answers depends on all that it was told.  Calls of the connection from inside a
notification of the listener are not modelled: there each call comes after a notification has
returned.
-/

set_option autoImplicit false

namespace Xul

open Foundation

/-- What `write_request` asserts: where the connection leads, where the request goes, and whether it
was sent. -/
structure WrittenRequest where
  host : Bytes
  port : Int
  url : Bytes × Int
  headerSend : Bool
deriving DecidableEq

/-- `concurrent_http_connection_impl`.  It is `broken` after it has used the front of its queue when
the queue was empty. -/
structure ConcurrentHttpConnection (zlib : Zlib) where
  options : HttpConnectionOptions
  host : Bytes
  port : Int
  socket : ClientSocket
  resolving : Option Bytes
  pauseReceive : Bool
  requests : List (HttpConnectionRequestInfo zlib)
  created : Nat
  posted : List Int
  broken : Bool
  written : List WrittenRequest
  log : List ListenerCall

/-- The host and the port of a request. -/
def HttpConnectionRequestInfo.address {zlib : Zlib} (info : HttpConnectionRequestInfo zlib) :
    Bytes × Int :=
  (info.url.host, info.url.port)

namespace ConcurrentHttpConnection

variable {zlib : Zlib}

def create (options : HttpConnectionOptions) : ConcurrentHttpConnection zlib :=
  ⟨options, [], 0, ClientSocket.create, none, false, [], 0, [], false, [], []⟩

/-- `do_close` makes a new socket, and leaves the queue alone. -/
def doClose (conn : ConcurrentHttpConnection zlib) : ConcurrentHttpConnection zlib :=
  { conn with
    pauseReceive := false
    resolving := none
    host := []
    port := 0
    socket := ClientSocket.create }

def close (conn : ConcurrentHttpConnection zlib) : ConcurrentHttpConnection zlib :=
  { conn with requests := [] }.doClose

/-- The listener is told something. -/
def tell (call : ListenerCall) (conn : ConcurrentHttpConnection zlib) :
    ConcurrentHttpConnection zlib :=
  { conn with log := conn.log ++ [call] }

def receive (conn : ConcurrentHttpConnection zlib) : ConcurrentHttpConnection zlib :=
  { conn with socket := { conn.socket with receiving := true } }

def checkReceive (conn : ConcurrentHttpConnection zlib) : ConcurrentHttpConnection zlib :=
  if ¬ conn.pauseReceive ∧ conn.socket.connected ∧ ¬ conn.socket.receiving then conn.receive
  else conn

/-- The queue holds the request itself, so that it sees what is done to it. -/
def store (info : HttpConnectionRequestInfo zlib) (conn : ConcurrentHttpConnection zlib) :
    ConcurrentHttpConnection zlib :=
  { conn with
    requests := conn.requests.map fun other => if other.id = info.id then info else other }

def push (info : HttpConnectionRequestInfo zlib) (conn : ConcurrentHttpConnection zlib) :
    ConcurrentHttpConnection zlib :=
  { conn with requests := conn.requests ++ [info] }

def writeRequest (info : HttpConnectionRequestInfo zlib) (conn : ConcurrentHttpConnection zlib) :
    ConcurrentHttpConnection zlib :=
  let entry : WrittenRequest := ⟨conn.host, conn.port, info.address, info.headerSend⟩
  { conn.store { info with headerSend := true } with
    socket := { conn.socket with sent := conn.socket.sent ++ [info.request.print] }
    written := conn.written ++ [entry] }.tell .httpPutContent

def connectoHostAddress (conn : ConcurrentHttpConnection zlib) : ConcurrentHttpConnection zlib :=
  { conn with socket := { conn.socket with connecting := true } }

/-- One of the two is enough. -/
def isSameHost (info : HttpConnectionRequestInfo zlib) (conn : ConcurrentHttpConnection zlib) :
    Bool :=
  info.url.host == conn.host || info.url.port == conn.port

/-- The loop of `on_socket_connect`: the requests are written until one goes elsewhere. -/
def writeSameHost : Nat → Nat → ConcurrentHttpConnection zlib → ConcurrentHttpConnection zlib
  | 0, _, conn => conn
  | left + 1, index, conn =>
      match conn.requests[index]? with
      | none => conn
      | some info =>
          if conn.isSameHost info then writeSameHost left (index + 1) (conn.writeRequest info)
          else conn

variable (env : HttpConnectionEnvironment)

/-- A host that is not an address is looked up first. -/
def connectHost (info : HttpConnectionRequestInfo zlib) (conn : ConcurrentHttpConnection zlib) :
    ConcurrentHttpConnection zlib :=
  let conn := { conn.doClose with host := info.url.host, port := info.url.port }
  if env.isAddress conn.host then conn.connectoHostAddress
  else { conn with resolving := some conn.host }

/-- The last request of the queue waits to be written. -/
def backUnsent (conn : ConcurrentHttpConnection zlib) : Bool :=
  conn.requests.getLast?.any fun last => !last.headerSend

def doRequest (info : HttpConnectionRequestInfo zlib) (conn : ConcurrentHttpConnection zlib) :
    ConcurrentHttpConnection zlib :=
  if conn.backUnsent then conn.push info
  else if conn.socket.connected ∧ conn.isSameHost info then (conn.push info).writeRequest info
  else if conn.requests = [] then (conn.push info).connectHost env info
  else conn.push info

/-! ## What a request calls of the connection -/

def abortHandling (conn : ConcurrentHttpConnection zlib) : ConcurrentHttpConnection zlib :=
  conn.doClose

def onError (errcode : Int) (conn : ConcurrentHttpConnection zlib) :
    ConcurrentHttpConnection zlib :=
  conn.abortHandling.tell (.httpError errcode)

def onHeader (resp : HttpResponse) (conn : ConcurrentHttpConnection zlib) :
    Bool × ConcurrentHttpConnection zlib :=
  match conn.requests with
  | [] => (false, conn.abortHandling)
  | info :: _ =>
      let told := conn.tell (.httpResponse resp info.url.originalString)
      (env.answer told.log, told)

def onContent (data : Bytes) (conn : ConcurrentHttpConnection zlib) :
    Bool × ConcurrentHttpConnection zlib :=
  match conn.requests with
  | [] => (false, conn.abortHandling)
  | _ :: _ =>
      let told := conn.tell (.httpData data)
      (env.answer told.log, told)

/-- The queue sees a redirected request as it is now; it is still at the front. -/
def redirect (info : HttpConnectionRequestInfo zlib) (conn : ConcurrentHttpConnection zlib) :
    ConcurrentHttpConnection zlib :=
  (conn.doClose.store info).doRequest env info

/-- `on_complete` drops the front; what is left of the read is handled by the next one. -/
def onComplete
    (process : Bytes → HttpConnectionRequestInfo zlib → ConcurrentHttpConnection zlib →
      HttpConnectionRequestInfo.Processed zlib (ConcurrentHttpConnection zlib))
    (totalSize : Int) (data : Bytes) (conn : ConcurrentHttpConnection zlib) :
    Bool × ConcurrentHttpConnection zlib :=
  match conn.requests with
  | [] => (false, conn.abortHandling)
  | _ :: rest =>
      let told := { conn with requests := rest }.tell (.httpComplete totalSize)
      if data = [] then (true, told)
      else
        match rest with
        | [] => (false, { told with broken := true })
        | next :: _ =>
            let processed := process data next told
            (processed.ret, processed.connection.store processed.info)

/-- `handle_error` drops the front, and connects for the next one before it reports the error.  The
end of the stream ends a response whose header has arrived. -/
def handleError
    (finish : HttpConnectionRequestInfo zlib → ConcurrentHttpConnection zlib →
      ConcurrentHttpConnection zlib)
    (errcode : Int) (conn : ConcurrentHttpConnection zlib) : ConcurrentHttpConnection zlib :=
  match conn.requests with
  | [] => conn.doClose
  | info :: rest =>
      let popped := { conn with requests := rest.map HttpConnectionRequestInfo.resetHandlingState }
      let connected :=
        match popped.requests with
        | [] => popped
        | next :: _ => popped.connectHost env next
      if info.responseHeaderReceived ∧ errcode = HttpErrorCodes.eof then finish info connected
      else connected.onError errcode

/-- The calls of a request with none behind it in the queue. -/
def lastInner : InnerHttpConnection (HttpConnectionRequestInfo zlib) (ConcurrentHttpConnection zlib)
    where
  getMaxRedirects conn := conn.options.maxRedirects
  isStarted conn := !conn.requests.isEmpty
  redirect := redirect env
  handleError := handleError env fun _ conn => conn
  abortHandling := abortHandling
  onError := onError
  onHeader := onHeader env
  onContent := onContent env
  onComplete := onComplete fun _ info conn => ⟨false, info, conn⟩

/-- The calls of a request with at most `depth` behind it. -/
def inner : Nat →
    InnerHttpConnection (HttpConnectionRequestInfo zlib) (ConcurrentHttpConnection zlib)
  | 0 => lastInner env
  | depth + 1 =>
      { lastInner env with
        handleError := handleError env fun info conn =>
          (info.filters.finish (inner depth) [] conn).connection
        onComplete := onComplete fun data info conn => info.process (inner depth) data conn }

/-- As many as there are. -/
def innerOf (conn : ConcurrentHttpConnection zlib) :
    InnerHttpConnection (HttpConnectionRequestInfo zlib) (ConcurrentHttpConnection zlib) :=
  inner env conn.requests.length

/-- `handle_error`, for the socket and the resolver. -/
def fail (errcode : Int) (conn : ConcurrentHttpConnection zlib) : ConcurrentHttpConnection zlib :=
  (conn.innerOf env).handleError errcode conn

/-! ## Notifications of the socket and the resolver -/

def onSocketConnect (conn : ConcurrentHttpConnection zlib) : ConcurrentHttpConnection zlib :=
  let conn := conn.receive
  if conn.requests = [] then conn.close else writeSameHost conn.requests.length 0 conn

def onSocketReceive (data : Bytes) (conn : ConcurrentHttpConnection zlib) :
    ConcurrentHttpConnection zlib :=
  match conn.requests with
  | [] => conn.close
  | info :: _ =>
      let processed := info.process (conn.innerOf env) data conn
      let conn := processed.connection.store processed.info
      if processed.ret then conn.checkReceive else conn

def onResolverAddress (errcode : Int) (found : Bool) (conn : ConcurrentHttpConnection zlib) :
    ConcurrentHttpConnection zlib :=
  if errcode ≠ 0 ∨ found = false then conn.fail env errcode else conn.connectoHostAddress

/-! ## Runs -/

/-- What happens to a connection.  `downloadNothing` is a download of length 0. -/
inductive Event where
  | request (method urlstr : Bytes) (headers : List (Bytes × Bytes))
  | downloadNothing
  | resolverAddress (errcode : Int) (found : Bool)
  | socketConnect
  | socketConnectFailed (errcode : Int)
  | socketReceive (data : Bytes)
  | socketReceiveFailed (errcode : Int)
  | socketSendFailed (errcode : Int)
  | postedError
  | pause
  | resume
  | close

/-- A request to an address that cannot be read is a null pointer. -/
def prepareRequest (method urlstr : Bytes) (headers : List (Bytes × Bytes))
    (conn : ConcurrentHttpConnection zlib) : Option (HttpConnectionRequestInfo zlib) :=
  let url := SimpleUri.parse urlstr
  if url.1 = false ∨ method = [] then none
  else
    let info :=
      (HttpConnectionRequestInfo.create conn.created url.2).prepareRequest conn.options headers
    some { info with request := info.request.setMethod method }

/-- A socket that has failed to connect or to receive. -/
def failSocket (conn : ConcurrentHttpConnection zlib) : ConcurrentHttpConnection zlib :=
  { conn with socket :=
    { conn.socket with connecting := false, connected := false, receiving := false } }

/-- A socket that has failed to send; a receive that was started goes on. -/
def disconnectSocket (conn : ConcurrentHttpConnection zlib) : ConcurrentHttpConnection zlib :=
  { conn with socket := { conn.socket with connected := false } }

/-- An event can happen when what it completes was started; a read brings at least one byte and at
most as many as were asked for. -/
def happen (conn : ConcurrentHttpConnection zlib) : Event → Option (ConcurrentHttpConnection zlib)
  | .request method urlstr headers =>
      (conn.prepareRequest method urlstr headers).map fun info =>
        { conn with created := conn.created + 1 }.doRequest env info
  | .downloadNothing =>
      some { conn with posted := conn.posted ++ [HttpErrorCodes.invalidRangeSize] }
  | .resolverAddress errcode found =>
      if conn.resolving = none then none
      else some ({ conn with resolving := none }.onResolverAddress env errcode found)
  | .socketConnect =>
      if ¬ conn.socket.connecting then none
      else
        let socket := { conn.socket with connecting := false, connected := true }
        some { conn with socket }.onSocketConnect
  | .socketConnectFailed errcode =>
      if ¬ conn.socket.connecting then none else some (conn.failSocket.fail env errcode)
  | .socketReceive data =>
      if conn.socket.receiving ∧ data ≠ [] ∧ data.length ≤ conn.options.receiveBufferSize then
        let socket := { conn.socket with receiving := false }
        some ({ conn with socket }.onSocketReceive env data)
      else none
  | .socketReceiveFailed errcode =>
      if conn.socket.receiving then some (conn.failSocket.fail env errcode) else none
  | .socketSendFailed errcode =>
      if conn.socket.sent = [] then none else some (conn.disconnectSocket.fail env errcode)
  | .postedError =>
      match conn.posted with
      | [] => none
      | errcode :: posted => some ({ conn with posted }.onError errcode)
  | .pause => some { conn with pauseReceive := true }
  | .resume => some { conn with pauseReceive := false }.checkReceive
  | .close => some conn.close

/-- One step, undefined if it breaks the connection. -/
def step (conn : ConcurrentHttpConnection zlib) (event : Event) :
    Option (ConcurrentHttpConnection zlib) :=
  (conn.happen env event).bind fun next => if next.broken then none else some next

/-! ## What handling a read leaves alone -/

/-- What is known of a request in the queue without looking at its response. -/
def key (info : HttpConnectionRequestInfo zlib) : Nat × (Bytes × Int) × Bool :=
  (info.id, info.address, info.headerSend)

/-- Nothing is under way on the socket or with the resolver. -/
def Idle (conn : ConcurrentHttpConnection zlib) : Prop :=
  conn.socket = ClientSocket.create ∧ conn.resolving = none

/-- What a connection becomes by callbacks of the requests: nothing is written, and unless the
connection is idle it only loses requests from the front. -/
structure Within (base conn : ConcurrentHttpConnection zlib) : Prop where
  written : conn.written = base.written
  created : conn.created = base.created
  requests : ¬ conn.Idle → conn.requests.map key <:+ base.requests.map key
  socket : ¬ conn.Idle → conn.socket = base.socket
  resolving : ¬ conn.Idle → conn.resolving = base.resolving
  host : ¬ conn.Idle → conn.host = base.host
  port : ¬ conn.Idle → conn.port = base.port

variable {env} {base conn next : ConcurrentHttpConnection zlib}

namespace Within

theorem refl (conn : ConcurrentHttpConnection zlib) : Within conn conn :=
  ⟨rfl, rfl, fun _ => List.suffix_rfl, fun _ => rfl, fun _ => rfl, fun _ => rfl, fun _ => rfl⟩

/-- A connection that is not idle was not idle before. -/
theorem busy (within : Within base conn) (busy : ¬ conn.Idle) : ¬ base.Idle := by
  rintro ⟨socket, resolving⟩
  exact busy ⟨(within.socket busy).trans socket, (within.resolving busy).trans resolving⟩

theorem trans (first : Within base conn) (second : Within conn next) : Within base next := by
  refine ⟨second.written.trans first.written, second.created.trans first.created, ?_, ?_, ?_, ?_,
    ?_⟩
  · exact fun busy => (second.requests busy).trans (first.requests (second.busy busy))
  · exact fun busy => (second.socket busy).trans (first.socket (second.busy busy))
  · exact fun busy => (second.resolving busy).trans (first.resolving (second.busy busy))
  · exact fun busy => (second.host busy).trans (first.host (second.busy busy))
  · exact fun busy => (second.port busy).trans (first.port (second.busy busy))

theorem of_idle (written : conn.written = base.written) (created : conn.created = base.created)
    (idle : conn.Idle) : Within base conn :=
  ⟨written, created, fun busy => absurd idle busy, fun busy => absurd idle busy,
    fun busy => absurd idle busy, fun busy => absurd idle busy, fun busy => absurd idle busy⟩

theorem tell (within : Within base conn) (call : ListenerCall) : Within base (conn.tell call) :=
  ⟨within.written, within.created, within.requests, within.socket, within.resolving, within.host,
    within.port⟩

theorem doClose (within : Within base conn) : Within base conn.doClose :=
  of_idle within.written within.created ⟨rfl, rfl⟩

end Within

/-- A connection that is opened for a request. -/
structure Opened (info : HttpConnectionRequestInfo zlib)
    (base conn : ConcurrentHttpConnection zlib) : Prop where
  written : conn.written = base.written
  created : conn.created = base.created
  options : conn.options = base.options
  log : conn.log = base.log
  requests : conn.requests = base.requests
  host : conn.host = info.url.host
  port : conn.port = info.url.port
  connected : conn.socket.connected = false
  one : conn.socket.connecting = true → conn.resolving = none

theorem opened_connectHost (info : HttpConnectionRequestInfo zlib)
    (conn : ConcurrentHttpConnection zlib) : Opened info conn (conn.connectHost env info) := by
  simp only [connectHost]
  split
  · exact ⟨rfl, rfl, rfl, rfl, rfl, rfl, rfl, rfl, fun _ => rfl⟩
  · exact ⟨rfl, rfl, rfl, rfl, rfl, rfl, rfl, rfl, fun connecting => Bool.noConfusion connecting⟩

/-- The connection as `handle_error` has it before it looks at the error. -/
def popped (rest : List (HttpConnectionRequestInfo zlib)) (conn : ConcurrentHttpConnection zlib) :
    ConcurrentHttpConnection zlib :=
  { conn with requests := rest.map HttpConnectionRequestInfo.resetHandlingState }

/-- An error other than the end of the stream closes the connection it has just opened. -/
theorem handleError_within
    (finish : HttpConnectionRequestInfo zlib → ConcurrentHttpConnection zlib →
      ConcurrentHttpConnection zlib)
    {errcode : Int} (notEof : errcode ≠ HttpErrorCodes.eof) (within : Within base conn) :
    Within base (conn.handleError env finish errcode) := by
  rw [handleError]
  split
  · exact within.doClose
  · next info rest _ =>
      simp only
      rw [if_neg (fun both => notEof both.2)]
      cases rest with
      | nil => exact .of_idle within.written within.created ⟨rfl, rfl⟩
      | cons other rest =>
          have opened := @opened_connectHost _ env other.resetHandlingState
            (conn.popped (other :: rest))
          exact .of_idle (opened.written.trans within.written)
            (opened.created.trans within.created) ⟨rfl, rfl⟩

/-- A request waits when there are others and no connection. -/
theorem doRequest_waits (queued : conn.requests ≠ []) (closed : conn.socket.connected = false)
    (info : HttpConnectionRequestInfo zlib) : conn.doRequest env info = conn.push info := by
  rw [doRequest]
  split
  · rfl
  · split
    · next here => exact absurd (closed.symm.trans here.1) (by decide)
    · rfl

/-- A request that is redirected waits at the end of the queue of an idle connection. -/
theorem redirect_eq (pending : conn.requests ≠ []) (info : HttpConnectionRequestInfo zlib) :
    conn.redirect env info = (conn.doClose.store info).push info := by
  refine doRequest_waits ?_ rfl info
  simpa [store, ConcurrentHttpConnection.doClose] using pending

/-! ## Handling a read -/

theorem idle_of_onError (errcode : Int) (conn : ConcurrentHttpConnection zlib) :
    (conn.onError errcode).Idle := ⟨rfl, rfl⟩

theorem idle_handleError
    (finish : HttpConnectionRequestInfo zlib → ConcurrentHttpConnection zlib →
      ConcurrentHttpConnection zlib)
    {errcode : Int} (notEof : errcode ≠ HttpErrorCodes.eof)
    (conn : ConcurrentHttpConnection zlib) : (conn.handleError env finish errcode).Idle := by
  rw [handleError]
  split
  · exact ⟨rfl, rfl⟩
  · simp only
    rw [if_neg (fun both => notEof both.2)]
    exact idle_of_onError ..

theorem idle_redirect (pending : conn.requests ≠ []) (info : HttpConnectionRequestInfo zlib) :
    (conn.redirect env info).Idle := by
  rw [redirect_eq pending]
  exact ⟨rfl, rfl⟩

theorem inner_redirect (depth : Nat) : (inner env depth).redirect = @redirect zlib env := by
  cases depth with
  | zero => rfl
  | succ depth => rfl

theorem idle_inner_handleError {errcode : Int} (notEof : errcode ≠ HttpErrorCodes.eof)
    (depth : Nat) (conn : ConcurrentHttpConnection zlib) :
    ((inner env depth).handleError errcode conn).Idle := by
  cases depth with
  | zero => exact idle_handleError _ notEof conn
  | succ depth => exact idle_handleError _ notEof conn

theorem inner_handleError_within {errcode : Int} (notEof : errcode ≠ HttpErrorCodes.eof)
    (depth : Nat) (within : Within base conn) :
    Within base ((inner env depth).handleError errcode conn) := by
  cases depth with
  | zero =>
      change Within base (conn.handleError env (fun _ conn => conn) errcode)
      exact handleError_within _ notEof within
  | succ depth =>
      change Within base (conn.handleError env (fun info conn =>
        (info.filters.finish (inner env depth) [] conn).connection) errcode)
      exact handleError_within _ notEof within

/-- A request that has handled a read is the one it was, unless it was redirected; then the
connection is idle. -/
theorem process_key (depth : Nat) (pending : conn.requests ≠ []) (data : Bytes)
    (info : HttpConnectionRequestInfo zlib) :
    (info.process (inner env depth) data conn).info.id = info.id ∧
      (key (info.process (inner env depth) data conn).info = key info ∨
        (info.process (inner env depth) data conn).connection.Idle) := by
  have raw (info : HttpConnectionRequestInfo zlib) :
      (info.processRawResponse (inner env depth) conn).info.id = info.id ∧
        (key (info.processRawResponse (inner env depth) conn).info = key info ∨
          (info.processRawResponse (inner env depth) conn).ret = false ∧
            (info.processRawResponse (inner env depth) conn).connection.Idle) := by
    simp only [HttpConnectionRequestInfo.processRawResponse]
    split
    · refine ⟨?_, Or.inr ⟨HttpConnectionRequestInfo.redirect_ret .., ?_⟩⟩
      · simp only [HttpConnectionRequestInfo.redirect]
        split
        · rfl
        · split
          · rfl
          · rfl
      · simp only [HttpConnectionRequestInfo.redirect]
        split
        · exact idle_inner_handleError (by decide) depth conn
        · split
          · exact idle_inner_handleError (by decide) depth conn
          · rw [inner_redirect]
            exact idle_redirect pending _
    · exact ⟨rfl, Or.inl rfl⟩
  rw [HttpConnectionRequestInfo.process]
  split
  · exact ⟨rfl, Or.inl rfl⟩
  · simp only [HttpConnectionRequestInfo.processHeaderData]
    split
    · exact ⟨rfl, Or.inl rfl⟩
    · split
      · obtain ⟨same, kept⟩ := raw { info with
          responseExtractor := (info.responseExtractor.feed data).2 }
        split
        · exact ⟨same, kept.imp_right And.right⟩
        · next goes =>
            have kept := kept.resolve_right fun gone => goes (by rw [gone.1]; decide)
            split
            · split
              · exact ⟨same, Or.inl kept⟩
              · exact ⟨same, Or.inl kept⟩
            · exact ⟨same, Or.inl kept⟩
      · exact ⟨rfl, Or.inl rfl⟩

/-- The requests of a connection that is not idle are told apart by their numbers. -/
def Distinct (conn : ConcurrentHttpConnection zlib) : Prop :=
  ¬ conn.Idle → ((conn.requests.map key).map Prod.fst).Nodup

theorem Within.distinct (within : Within base conn) (distinct : Distinct base) : Distinct conn :=
  fun busy => ((within.requests busy).map Prod.fst).sublist.nodup (distinct (within.busy busy))

/-- Storing a request changes no key. -/
theorem Within.store (within : Within base conn) (distinct : Distinct base)
    {info stored : HttpConnectionRequestInfo zlib} (member : info ∈ base.requests)
    (same : stored.id = info.id) (kept : key stored = key info ∨ conn.Idle) :
    Within base (conn.store stored) := by
  refine ⟨within.written, within.created, ?_, within.socket, within.resolving, within.host,
    within.port⟩
  intro busy
  have kept := kept.resolve_right busy
  have keys : (conn.store stored).requests.map key = conn.requests.map key := by
    rw [ConcurrentHttpConnection.store, List.map_map]
    refine List.map_congr_left ?_
    intro other here
    simp only [Function.comp_apply]
    split
    · next sameId =>
        have isBase := (within.requests busy).subset (List.mem_map_of_mem here)
        refine (List.inj_on_of_nodup_map (distinct (within.busy busy)) isBase
          (List.mem_map_of_mem member) ?_ ▸ kept)
        exact sameId.trans same
    · rfl
  rw [keys]
  exact within.requests busy

theorem onHeader_within (within : Within base conn) (resp : HttpResponse) :
    Within base (conn.onHeader env resp).2 := by
  rw [onHeader]
  split
  · exact within.doClose
  · exact within.tell _

theorem onContent_within (within : Within base conn) (data : Bytes) :
    Within base (conn.onContent env data).2 := by
  rw [onContent]
  split
  · exact within.doClose
  · exact within.tell _

/-- `process` is what keeps the next request's reads within the connection. -/
theorem onComplete_within
    {process : Bytes → HttpConnectionRequestInfo zlib → ConcurrentHttpConnection zlib →
      HttpConnectionRequestInfo.Processed zlib (ConcurrentHttpConnection zlib)}
    (handles : ∀ data info (conn : ConcurrentHttpConnection zlib), Distinct conn →
      info ∈ conn.requests →
      Within conn ((process data info conn).connection.store (process data info conn).info))
    (distinct : Distinct base) (within : Within base conn) (totalSize : Int) (data : Bytes) :
    Within base (conn.onComplete process totalSize data).2 := by
  rw [onComplete]
  split
  · exact within.doClose
  · next info rest queue =>
      have popped : Within base
          ({ conn with requests := rest }.tell (.httpComplete totalSize)) := by
        refine ⟨within.written, within.created, ?_, within.socket, within.resolving, within.host,
          within.port⟩
        intro busy
        refine List.IsSuffix.trans ?_ (within.requests busy)
        rw [queue, List.map_cons]
        exact List.suffix_cons _ _
      simp only
      split
      · exact popped
      · split
        · exact ⟨popped.written, popped.created, popped.requests, popped.socket, popped.resolving,
            popped.host, popped.port⟩
        · exact popped.trans (handles _ _ _ (popped.distinct distinct) (List.mem_cons_self ..))

theorem inner_onHeader (depth : Nat) :
    (inner env depth).onHeader = @onHeader zlib env := by
  cases depth with
  | zero => rfl
  | succ depth => rfl

/-- **Handling a read stays within the connection**, if its callbacks do. -/
theorem process_within {depth : Nat}
    (keeps : ∀ base : ConcurrentHttpConnection zlib, Distinct base →
      (inner env depth).Keeps (Within base))
    (data : Bytes) {info : HttpConnectionRequestInfo zlib} (distinct : Distinct conn)
    (member : info ∈ conn.requests) :
    Within conn ((info.process (inner env depth) data conn).connection.store
      (info.process (inner env depth) data conn).info) := by
  have pending : conn.requests ≠ [] := List.ne_nil_of_mem member
  obtain ⟨same, kept⟩ := @process_key _ env conn depth pending data info
  refine Within.store ?_ distinct member same kept
  have redirects (info : HttpConnectionRequestInfo zlib) :
      Within conn ((inner env depth).redirect info conn) := by
    rw [inner_redirect, redirect_eq pending]
    exact .of_idle rfl rfl ⟨rfl, rfl⟩
  refine (HttpConnectionRequestInfo.process_keeps (keeps conn distinct) ?_ ?_ ?_ ?_
    (fun _ within => within) (Within.refl conn) (fun _ => (rfl : conn = conn))).1
  · rintro resp _ rfl
    rw [inner_onHeader]
    exact onHeader_within (Within.refl _) resp
  · rintro errcode _ notEof rfl
    exact inner_handleError_within notEof depth (Within.refl _)
  · rintro info _ rfl
    exact redirects info
  · rintro _ rfl
    exact Within.refl _

/-- **The callbacks stay within the connection.**  The induction is on how many requests can be
behind the one that is handled. -/
theorem inner_keeps (depth : Nat) : ∀ base : ConcurrentHttpConnection zlib, Distinct base →
    (inner env depth).Keeps (Within base) := by
  induction depth with
  | zero =>
      intro base distinct
      refine ⟨fun _ within => within.doClose, fun _ _ within => within.doClose.tell _,
        fun data _ within => onContent_within within data, ?_⟩
      intro totalSize data conn within
      refine onComplete_within ?_ distinct within totalSize data
      intro data info conn distinct member
      exact (Within.refl conn).store distinct member rfl (Or.inl rfl)
  | succ depth ih =>
      intro base distinct
      refine ⟨fun _ within => within.doClose, fun _ _ within => within.doClose.tell _,
        fun data _ within => onContent_within within data, ?_⟩
      intro totalSize data conn within
      refine onComplete_within ?_ distinct within totalSize data
      intro data info conn distinct member
      exact process_within ih data distinct member

end ConcurrentHttpConnection

end Xul
