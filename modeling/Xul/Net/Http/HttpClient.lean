import Xul.Net.Http.HttpConnection

/-!
# The client

`http_client` makes one query after another over one connection.  A query has a handler,
which listens to the connection and ends the query with the caller's callback; most of
its ways to end close the connection, and stop listening, from inside a notification.  So
the functions of the connection that notify its listener are given again here, over a
connection and the handler that listens to it.

The callbacks are code outside, which does not call the client from inside a callback.
-/

set_option autoImplicit false

namespace Xul

/-- `send_data`, of a request whose header was sent. -/
def HttpConnection.sendData {zlib : Zlib} (data : Bytes) (conn : HttpConnection zlib) :
    HttpConnection zlib :=
  match conn.request with
  | none => conn
  | some info =>
      if info.headerSend then
        { conn with socket := { conn.socket with sent := conn.socket.sent ++ [data] } }
      else conn

/-- What a query asks for. -/
inductive HttpQuery where
  | downloadData (maxSize : Nat)
  | queryHead
  | postData (maxSize : Nat) (bodyData : Bytes)
deriving DecidableEq

namespace HttpQuery

def method : HttpQuery → Bytes
  | downloadData _ => ascii "GET"
  | queryHead => ascii "HEAD"
  | postData _ _ => ascii "POST"

/-- The size that the data of a query may have; a head query has no data. -/
def maxSize : HttpQuery → Option Nat
  | downloadData maxSize => some maxSize
  | queryHead => none
  | postData maxSize _ => some maxSize

end HttpQuery

/-- `http_download_data_handler`, its variant for posts and `http_query_head_handler`;
`id` tells them apart. -/
structure HttpHandler where
  id : Nat
  query : HttpQuery
  url : SimpleUri
  response : Option HttpResponse
  contentLength : Int
  data : Bytes
deriving DecidableEq

/-- A call of a query's callback. -/
inductive HttpCallback where
  | downloadData (id : Nat) (url : SimpleUri) (errcode : Int) (response : Option HttpResponse)
      (data : Bytes)
  | queryHead (id : Nat) (url : SimpleUri) (errcode : Int) (response : Option HttpResponse)
      (contentLength : Int)
deriving DecidableEq

def HttpCallback.id : HttpCallback → Nat
  | downloadData id _ _ _ _ => id
  | queryHead id _ _ _ _ => id

/-- `http_client`.  `posted` are the callbacks of queries whose address could not be
parsed, which are called later.  The last three record the queries that were made, the
callbacks that were called and what the handlers were notified of. -/
structure HttpClient (zlib : Zlib) where
  connection : HttpConnection zlib
  listener : Option HttpHandler
  keepalive : Bool
  posted : List HttpCallback
  queries : List HttpQuery
  callbacks : List HttpCallback
  notified : List (Nat × ListenerCall)

namespace HttpClient

variable {zlib : Zlib}

def create (http11 gzipEnabled : Bool) : HttpClient zlib :=
  { connection := HttpConnection.create
      { HttpConnectionOptions.create with
        keepAlive := false
        gzipEnabled
        protocolVersion := if http11 then ascii "1.1" else ascii "1.0"
        receiveBufferSize := 32 * 1024
        small := by decide }
    listener := none
    keepalive := false
    posted := []
    queries := []
    callbacks := []
    notified := [] }

/-! ## The handlers -/

def closeConnection (client : HttpClient zlib) : HttpClient zlib :=
  { client with listener := none, connection := client.connection.close }

def handleComplete (client : HttpClient zlib) : HttpClient zlib :=
  if client.keepalive then client else client.closeConnection

def call (callback : HttpCallback) (client : HttpClient zlib) : HttpClient zlib :=
  { client with callbacks := client.callbacks ++ [callback] }

/-- The handler, as it is now, goes on listening. -/
def listen (handler : HttpHandler) (client : HttpClient zlib) : HttpClient zlib :=
  { client with listener := some handler }

/-- `invoke_callback` of a download. -/
def invokeCallback (errcode : Int) (handler : HttpHandler) (client : HttpClient zlib) :
    HttpClient zlib :=
  client.handleComplete.call
    (.downloadData handler.id handler.url errcode handler.response handler.data)

def invokeHeadCallback (errcode contentLength : Int) (handler : HttpHandler)
    (client : HttpClient zlib) : HttpClient zlib :=
  client.handleComplete.call
    (.queryHead handler.id handler.url errcode handler.response contentLength)

/-- `handle_error`: for a download without a length the end of the stream is no error. -/
def handlerError (errcode : Int) (handler : HttpHandler) (client : HttpClient zlib) :
    HttpClient zlib :=
  match handler.query with
  | .queryHead => client.invokeHeadCallback errcode 0 handler
  | .downloadData _ | .postData _ _ =>
      client.closeConnection.invokeCallback
        (if errcode = HttpErrorCodes.eof ∧ handler.contentLength < 0 then 0 else errcode) handler

/-- `do_handle_response`. -/
def doHandleResponse (handler : HttpHandler) (client : HttpClient zlib) : HttpClient zlib :=
  match handler.query with
  | .queryHead => client.invokeHeadCallback 0 handler.contentLength handler
  | .downloadData maxSize | .postData maxSize _ =>
      let handler := { handler with data := [] }
      let client := client.listen handler
      if toInt maxSize < handler.contentLength then client.handlerError (-1) handler else client

def onHttpResponse (resp : HttpResponse) (handler : HttpHandler) (client : HttpClient zlib) :
    Bool × HttpClient zlib :=
  let handler := { handler with
    response := some resp
    contentLength := getContentLength resp.message.headers }
  (true, (client.listen handler).doHandleResponse handler)

/-- The sizes are compared as `size_t`. -/
def onHttpData (data : Bytes) (handler : HttpHandler) (client : HttpClient zlib) :
    Bool × HttpClient zlib :=
  match handler.query with
  | .queryHead => (false, client)
  | .downloadData maxSize | .postData maxSize _ =>
      let handler := { handler with data := handler.data ++ data }
      let client := client.listen handler
      if toSizeT (toInt maxSize) < handler.data.length then
        (false, client.handlerError (-1) handler)
      else (true, client)

def onHttpComplete (handler : HttpHandler) (client : HttpClient zlib) : HttpClient zlib :=
  match handler.query with
  | .queryHead => client
  | .downloadData _ | .postData _ _ => client.invokeCallback 0 handler

/-- A post sends its data behind the header of the request. -/
def onHttpPutContent (handler : HttpHandler) (client : HttpClient zlib) : HttpClient zlib :=
  match handler.query with
  | .postData _ bodyData => { client with connection := client.connection.sendData bodyData }
  | .downloadData _ | .queryHead => client

/-! ## What the connection notifies its listener of -/

/-- The listener is notified; a listener that stands in for none hears nothing. -/
def notify (notification : ListenerCall) (client : HttpClient zlib) : HttpClient zlib :=
  match client.listener with
  | none => client
  | some handler =>
      { client with notified := client.notified ++ [(handler.id, notification)] }

def abortHandling (client : HttpClient zlib) : HttpClient zlib :=
  { client with connection := client.connection.close }

def onError (errcode : Int) (client : HttpClient zlib) : HttpClient zlib :=
  let client := client.abortHandling
  match client.listener with
  | none => client
  | some handler => (client.notify (.httpError errcode)).handlerError errcode handler

def onHeader (resp : HttpResponse) (client : HttpClient zlib) : Bool × HttpClient zlib :=
  match client.connection.request, client.listener with
  | none, _ => (false, client.abortHandling)
  | some _, none => (false, client)
  | some info, some handler =>
      (client.notify (.httpResponse resp info.url.originalString)).onHttpResponse resp handler

def onContent (data : Bytes) (client : HttpClient zlib) : Bool × HttpClient zlib :=
  match client.connection.request, client.listener with
  | none, _ => (false, client.abortHandling)
  | some _, none => (false, client)
  | some _, some handler => (client.notify (.httpData data)).onHttpData data handler

def onComplete (totalSize : Int) (client : HttpClient zlib) : Bool × HttpClient zlib :=
  match client.connection.request, client.listener with
  | none, _ => (false, client.abortHandling)
  | some _, none =>
      (true, { client with connection := { client.connection with request := none } })
  | some _, some handler =>
      let client := { client with connection := { client.connection with request := none } }
      (true, (client.notify (.httpComplete totalSize)).onHttpComplete handler)

def writeRequest (info : HttpConnectionRequestInfo zlib) (client : HttpClient zlib) :
    HttpClient zlib :=
  let conn := client.connection
  let client := { client with connection := { conn with
    request := some { info with headerSend := true }
    socket := { conn.socket with sent := conn.socket.sent ++ [info.request.print] } } }
  match client.listener with
  | none => client
  | some handler => (client.notify .httpPutContent).onHttpPutContent handler

variable (env : HttpConnectionEnvironment)

def doRequest (info : HttpConnectionRequestInfo zlib) (client : HttpClient zlib) :
    HttpClient zlib :=
  if client.connection.needReconnect info then
    { client with connection := client.connection.connectHost env info }
  else
    let written := client.writeRequest info
    { written with connection := written.connection.checkReceive }

def redirect (info : HttpConnectionRequestInfo zlib) (client : HttpClient zlib) :
    HttpClient zlib :=
  { client with connection := client.connection.close }.doRequest env info

/-- What the filters call. -/
def innerOfFilters : InnerHttpConnection (HttpConnectionRequestInfo zlib) (HttpClient zlib) where
  getMaxRedirects client := client.connection.options.maxRedirects
  isStarted client := client.connection.request.isSome
  redirect := redirect env
  handleError := onError
  abortHandling := abortHandling
  onError := onError
  onHeader := onHeader
  onContent := onContent
  onComplete totalSize _ := onComplete totalSize

/-- The state of the pending request is kept. -/
def store (info : HttpConnectionRequestInfo zlib) (client : HttpClient zlib) : HttpClient zlib :=
  { client with connection := client.connection.store info }

/-- `handle_error` of the connection. -/
def handleError (errcode : Int) (client : HttpClient zlib) : HttpClient zlib :=
  match client.connection.request with
  | none => client.abortHandling
  | some info =>
      if info.responseHeaderReceived ∧ errcode = HttpErrorCodes.eof then
        let finished := info.filters.finish (innerOfFilters env) [] client
        finished.connection.store { info with filters := finished.filter }
      else client.onError errcode

def inner : InnerHttpConnection (HttpConnectionRequestInfo zlib) (HttpClient zlib) :=
  { innerOfFilters env with handleError := handleError env }

def onSocketConnect (client : HttpClient zlib) : HttpClient zlib :=
  let client := { client with connection := client.connection.receive }
  match client.connection.request with
  | none => client.abortHandling
  | some info => client.writeRequest info

def onSocketReceive (data : Bytes) (client : HttpClient zlib) : HttpClient zlib :=
  match client.connection.request with
  | none => client.abortHandling
  | some info =>
      let processed := info.process (inner env) data client
      let client := processed.connection.store processed.info
      if processed.ret then { client with connection := client.connection.checkReceive }
      else client

def onResolverAddress (errcode : Int) (found : Bool) (client : HttpClient zlib) :
    HttpClient zlib :=
  if errcode ≠ 0 ∨ found = false then client.handleError env errcode
  else { client with connection := client.connection.connectoHostAddress }

/-! ## Queries -/

/-- The handler of the next query. -/
def newHandler (query : HttpQuery) (url : SimpleUri) (client : HttpClient zlib) : HttpHandler :=
  ⟨client.queries.length, query, url, none, 0, []⟩

def record (query : HttpQuery) (client : HttpClient zlib) : HttpClient zlib :=
  { client with queries := client.queries ++ [query] }

/-- `async_download` of a new handler: a request that cannot be made is reported
later. -/
def asyncDownload (query : HttpQuery) (url : SimpleUri) (headers : Headers)
    (client : HttpClient zlib) : HttpClient zlib :=
  let client := (client.listen (client.newHandler query url)).record query
  let conn := client.connection
  match conn.prepareRequest query.method (cStr url.originalString)
      (headers.items.map fun entry => (entry.key, entry.value)) with
  | none =>
      { client with connection :=
        { conn with posted := conn.posted ++ [HttpErrorCodes.invalidUrl] } }
  | some info =>
      { client with connection := { conn with created := conn.created + 1 } }.doRequest env info

/-- `download_data`; nothing is requested from an address that cannot be parsed. -/
def downloadData (urlstr : Bytes) (maxSize : Nat) (extraHeader : Headers)
    (client : HttpClient zlib) : HttpClient zlib :=
  let url := SimpleUri.parse (cStr urlstr)
  if url.1 then client.asyncDownload env (.downloadData maxSize) url.2 extraHeader
  else
    let callback := .downloadData client.queries.length url.2 (-1) none []
    { client with posted := client.posted ++ [callback] }.record (.downloadData maxSize)

def downloadUriData (url : SimpleUri) (maxSize : Nat) (extraHeader : Headers)
    (client : HttpClient zlib) : HttpClient zlib :=
  client.asyncDownload env (.downloadData maxSize) url extraHeader

def queryHead (url : SimpleUri) (client : HttpClient zlib) : HttpClient zlib :=
  client.asyncDownload env .queryHead url (.empty iequalTo)

/-- `post_data` does not look at what parsing the address returns. -/
def postData (urlstr : Bytes) (maxSize : Nat) (body : Bytes) (extraHeader : Headers)
    (client : HttpClient zlib) : HttpClient zlib :=
  let headers := extraHeader.set (ascii "Content-Length") (printInt (toInt body.length))
  client.asyncDownload env (.postData maxSize body) (SimpleUri.parse (cStr urlstr)).2 headers

def setKeepAlive (keepalive : Bool) (client : HttpClient zlib) : HttpClient zlib :=
  let conn := client.connection
  { client with
    keepalive
    connection := { conn with options := { conn.options with keepAlive := keepalive } } }

/-! ## Runs -/

/-- What happens to a client. -/
inductive Event where
  | downloadData (urlstr : Bytes) (maxSize : Nat) (extraHeader : Headers)
  | downloadUriData (url : SimpleUri) (maxSize : Nat) (extraHeader : Headers)
  | queryHead (url : SimpleUri)
  | postData (urlstr : Bytes) (maxSize : Nat) (body : Bytes) (extraHeader : Headers)
  | setKeepAlive (keepalive : Bool)
  | close
  | postedCallback
  | resolverAddress (errcode : Int) (found : Bool)
  | socketConnect
  | socketConnectFailed (errcode : Int)
  | socketReceive (data : Bytes)
  | socketReceiveFailed (errcode : Int)
  | socketSendFailed (errcode : Int)
  | postedError

/-- An event of the connection, on the connection it leaves. -/
def withConnection (conn : HttpConnection zlib) (client : HttpClient zlib) : HttpClient zlib :=
  { client with connection := conn }

/-- The events of the connection happen as `HttpConnection.step` has them. -/
def step (client : HttpClient zlib) : Event → Option (HttpClient zlib)
  | .downloadData urlstr maxSize extraHeader =>
      some (client.downloadData env urlstr maxSize extraHeader)
  | .downloadUriData url maxSize extraHeader =>
      some (client.downloadUriData env url maxSize extraHeader)
  | .queryHead url => some (client.queryHead env url)
  | .postData urlstr maxSize body extraHeader =>
      some (client.postData env urlstr maxSize body extraHeader)
  | .setKeepAlive keepalive => some (client.setKeepAlive keepalive)
  | .close => some client.closeConnection
  | .postedCallback =>
      match client.posted with
      | [] => none
      | callback :: posted => some ({ client with posted }.call callback)
  | .resolverAddress errcode found =>
      if client.connection.resolving = none then none
      else
        let client := client.withConnection { client.connection with resolving := none }
        some (client.onResolverAddress env errcode found)
  | .socketConnect =>
      let conn := client.connection
      if ¬ conn.socket.connecting then none
      else
        let socket := { conn.socket with connecting := false, connected := true }
        some (client.withConnection { conn with socket }).onSocketConnect
  | .socketConnectFailed errcode =>
      if ¬ client.connection.socket.connecting then none
      else some ((client.withConnection client.connection.failSocket).handleError env errcode)
  | .socketReceive data =>
      let conn := client.connection
      if conn.socket.receiving ∧ data ≠ [] ∧ data.length ≤ conn.options.receiveBufferSize then
        let socket := { conn.socket with receiving := false }
        some ((client.withConnection { conn with socket }).onSocketReceive env data)
      else none
  | .socketReceiveFailed errcode =>
      if client.connection.socket.receiving then
        some ((client.withConnection client.connection.failSocket).handleError env errcode)
      else none
  | .socketSendFailed errcode =>
      if client.connection.socket.sent = [] then none
      else
        some ((client.withConnection client.connection.disconnectSocket).handleError env errcode)
  | .postedError =>
      match client.connection.posted with
      | [] => none
      | errcode :: posted =>
          some ((client.withConnection { client.connection with posted }).onError errcode)

end HttpClient

end Xul
