import Xul.Net.Http.HttpFilters
import Xul.Net.Http.HttpRequest
import Xul.Net.Http.HttpResponseExtractor

/-!
# A request of a connection

`http_connection_request_info` is a request with the response that arrives for it: the
bytes of a read go to the extractor until the header is complete, and to the filters
behind it.  A redirection starts the request again at another address.

What a request calls of its connection is a parameter, so that both kinds of connection
use the same requests.
-/

set_option autoImplicit false

namespace Xul

/-- `http_connection_options_impl`, as far as a connection reads it; a read fits an
`int`. -/
structure HttpConnectionOptions where
  keepAlive : Bool
  maxRedirects : Int
  protocolName : Bytes
  protocolVersion : Bytes
  gzipEnabled : Bool
  receiveBufferSize : Nat
  small : receiveBufferSize < 2 ^ 31

/-- The defaults. -/
def HttpConnectionOptions.create : HttpConnectionOptions :=
  ⟨true, 10, ascii "HTTP", ascii "1.0", false, 60 * 1024, by decide⟩

namespace HttpErrorCodes

def invalidUrl : Int := -1

def invalidRangeSize : Int := -2

def invalidRedirectUrl : Int := -3

def redirectTooManyTimes : Int := -4

def invalidResponseHeader : Int := -101

/-- `boost::asio::error::eof`. -/
def eof : Int := 2

end HttpErrorCodes

/-- `http_connection_request_info`; `id` tells the objects apart. -/
structure HttpConnectionRequestInfo (zlib : Zlib) where
  id : Nat
  url : SimpleUri
  request : HttpRequest
  responseExtractor : HttpResponseExtractor
  filters : HttpFilters zlib
  responseHeaderReceived : Bool
  headerSend : Bool
  redirectTimes : Int

namespace HttpConnectionRequestInfo

variable {zlib : Zlib}

def create (id : Nat) (url : SimpleUri) : HttpConnectionRequestInfo zlib :=
  { id
    url
    request := HttpRequest.create
    responseExtractor := HttpResponseExtractor.create HttpResponseExtractor.defaultMaxBufferSize
    filters := .identity EndFilter.create
    responseHeaderReceived := false
    headerSend := false
    redirectTimes := 0 }

def setHeader (info : HttpConnectionRequestInfo zlib) (name value : Bytes) :
    HttpConnectionRequestInfo zlib :=
  { info with request := info.request.setHeader name value }

/-- `init_request_host`: the port is written unless it is 80. -/
def initRequestHost (info : HttpConnectionRequestInfo zlib) : HttpConnectionRequestInfo zlib :=
  let host :=
    if info.url.port ≠ 80 ∧ info.url.port ≠ 0 then
      info.url.host ++ ascii ":" ++ printInt info.url.port
    else info.url.host
  info.setHeader (ascii "Host") (cStr host)

/-- `prepare_request`: the caller's headers, and the connection's own. -/
def prepareRequest (options : HttpConnectionOptions) (headers : List (Bytes × Bytes))
    (info : HttpConnectionRequestInfo zlib) : HttpConnectionRequestInfo zlib :=
  let message := { info.request.message with
    protocolName := options.protocolName
    protocolVersion := options.protocolVersion }
  let info := { info with request := { info.request with message } }
  let info := headers.foldl (fun info entry => info.setHeader entry.1 entry.2) info
  let info :=
    if info.request.message.headers.contains (ascii "Host") then info else info.initRequestHost
  let info :=
    if info.request.message.headers.contains (ascii "User-Agent") then info
    else info.setHeader (ascii "User-Agent") (ascii "Mozilla/5.0")
  let info := info.setHeader (ascii "Connection")
    (if options.keepAlive then ascii "keep-alive" else ascii "close")
  let info := { info with request := info.request.setUrl info.url.fullPath }
  if options.gzipEnabled then info.setHeader (ascii "Accept-Encoding") (ascii "gzip") else info

def resetHandlingState (info : HttpConnectionRequestInfo zlib) : HttpConnectionRequestInfo zlib :=
  { info with
    responseHeaderReceived := false
    responseExtractor := info.responseExtractor.reset
    filters := .identity EndFilter.create
    headerSend := false }

/-! ## Handling a read -/

/-- What handling a read returns and leaves behind. -/
structure Processed (zlib : Zlib) (Connection : Type) where
  ret : Bool
  info : HttpConnectionRequestInfo zlib
  connection : Connection

variable {Connection : Type}
  (inner : InnerHttpConnection (HttpConnectionRequestInfo zlib) Connection)

def processBodyData (data : Bytes) (info : HttpConnectionRequestInfo zlib)
    (connection : Connection) : Processed zlib Connection :=
  let handled := info.filters.process inner data connection
  ⟨handled.ret, { info with filters := handled.filter }, handled.connection⟩

/-- `redirect`; its caller gives up on the read whatever it returns. -/
def redirect (location : Bytes) (info : HttpConnectionRequestInfo zlib)
    (connection : Connection) : Processed zlib Connection :=
  if inner.getMaxRedirects connection < info.redirectTimes then
    ⟨false, info, inner.handleError HttpErrorCodes.redirectTooManyTimes connection⟩
  else
    let info := { info with redirectTimes := info.redirectTimes + 1 }
    let locationUri := SimpleUri.parse location
    if location = [] ∨ locationUri.1 = false then
      ⟨false, info, inner.handleError HttpErrorCodes.invalidRedirectUrl connection⟩
    else
      let info := info.resetHandlingState
      let info := { info with
        url := locationUri.2
        request := info.request.setUrl locationUri.2.fullPath }
      let info := info.initRequestHost
      ⟨false, info, inner.redirect info connection⟩

def handleResponseHeader (info : HttpConnectionRequestInfo zlib) (connection : Connection) :
    Processed zlib Connection :=
  let resp := info.responseExtractor.response
  let handled := (HttpFilters.ofResponse resp).init inner resp connection
  ⟨handled.ret, { info with responseHeaderReceived := true, filters := handled.filter },
    handled.connection⟩

/-- The status codes of a redirection. -/
def isRedirect (statusCode : Int) : Bool :=
  (300 ≤ statusCode && statusCode ≤ 303) || statusCode == 307

def processRawResponse (info : HttpConnectionRequestInfo zlib) (connection : Connection) :
    Processed zlib Connection :=
  let resp := info.responseExtractor.response
  if isRedirect resp.statusCode then
    redirect inner (resp.getHeader (ascii "Location") []) info connection
  else handleResponseHeader inner info connection

def processHeaderData (data : Bytes) (info : HttpConnectionRequestInfo zlib)
    (connection : Connection) : Processed zlib Connection :=
  let fed := info.responseExtractor.feed data
  let info := { info with responseExtractor := fed.2 }
  if fed.1 < 0 then
    ⟨false, info, inner.handleError HttpErrorCodes.invalidResponseHeader connection⟩
  else if fed.2.headerFinished then
    let started := processRawResponse inner info connection
    if ¬ started.ret then started
    else if fed.1 < data.length then
      if inner.isStarted started.connection then
        processBodyData inner (data.drop fed.1.toNat) started.info started.connection
      else ⟨false, started.info, inner.abortHandling started.connection⟩
    else started
  else ⟨true, info, connection⟩

def process (data : Bytes) (info : HttpConnectionRequestInfo zlib) (connection : Connection) :
    Processed zlib Connection :=
  if info.responseExtractor.headerFinished then processBodyData inner data info connection
  else processHeaderData inner data info connection

/-! ## What handling a read keeps -/

variable {inner} {before fresh property : Connection → Prop}

theorem processBodyData_keeps (keeps : inner.Keeps property) (data : Bytes)
    (info : HttpConnectionRequestInfo zlib) {connection : Connection}
    (holds : property connection) :
    property (info.processBodyData inner data connection).connection :=
  HttpFilters.process_keeps keeps data info.filters holds

theorem redirect_ret (location : Bytes) (info : HttpConnectionRequestInfo zlib)
    (connection : Connection) : (info.redirect inner location connection).ret = false := by
  simp only [redirect]
  split
  · rfl
  · split <;> rfl

/-- A redirection announces nothing. -/
theorem redirect_keeps
    (fails : ∀ errcode connection, errcode ≠ HttpErrorCodes.eof → before connection →
      fresh (inner.handleError errcode connection))
    (redirects : ∀ info connection, before connection → fresh (inner.redirect info connection))
    (location : Bytes) (info : HttpConnectionRequestInfo zlib) {connection : Connection}
    (holds : before connection) :
    fresh (info.redirect inner location connection).connection := by
  simp only [redirect]
  split
  · exact fails _ connection (by decide) holds
  · split
    · exact fails _ connection (by decide) holds
    · exact redirects _ connection holds

/-- A header that is complete is announced, or redirects. -/
theorem processRawResponse_keeps (keeps : inner.Keeps property)
    (announces : ∀ resp connection, before connection →
      property (inner.onHeader resp connection).2)
    (fails : ∀ errcode connection, errcode ≠ HttpErrorCodes.eof → before connection →
      fresh (inner.handleError errcode connection))
    (redirects : ∀ info connection, before connection → fresh (inner.redirect info connection))
    {info : HttpConnectionRequestInfo zlib} {connection : Connection}
    (finished : info.responseExtractor.headerFinished = true) (start : before connection) :
    (info.processRawResponse inner connection).ret = false ∧
        fresh (info.processRawResponse inner connection).connection ∨
      property (info.processRawResponse inner connection).connection ∧
        (info.processRawResponse inner connection).info.responseExtractor.headerFinished =
          true := by
  simp only [processRawResponse]
  split
  · exact Or.inl ⟨redirect_ret _ info connection, redirect_keeps fails redirects _ info start⟩
  · exact Or.inr ⟨HttpFilters.init_keeps keeps announces _ _ start, finished⟩

/-- What is left of the read that completes the header is handled as a piece of the
body. -/
theorem processHeaderData_keeps (keeps : inner.Keeps property)
    (announces : ∀ resp connection, before connection →
      property (inner.onHeader resp connection).2)
    (fails : ∀ errcode connection, errcode ≠ HttpErrorCodes.eof → before connection →
      fresh (inner.handleError errcode connection))
    (redirects : ∀ info connection, before connection → fresh (inner.redirect info connection))
    (waits : ∀ connection, before connection → fresh connection) {data : Bytes}
    {info : HttpConnectionRequestInfo zlib} {connection : Connection}
    (start : before connection) :
    fresh (info.processHeaderData inner data connection).connection ∨
      property (info.processHeaderData inner data connection).connection ∧
        (info.processHeaderData inner data connection).info.responseExtractor.headerFinished =
          true := by
  simp only [processHeaderData]
  split
  · exact Or.inl (fails HttpErrorCodes.invalidResponseHeader connection (by decide) start)
  · split
    · next finished =>
        have started := @processRawResponse_keeps _ _ _ _ _ _ keeps announces fails redirects
          { info with responseExtractor := (info.responseExtractor.feed data).2 } connection
          finished start
        generalize processRawResponse inner
          { info with responseExtractor := (info.responseExtractor.feed data).2 } connection =
            response at started ⊢
        rcases started with ⟨declined, kept⟩ | ⟨kept, complete⟩
        · rw [if_pos (by rw [declined]; decide)]
          exact Or.inl kept
        · right
          split
          · exact ⟨kept, complete⟩
          · split
            · split
              · exact ⟨processBodyData_keeps keeps _ _ kept, complete⟩
              · exact ⟨keeps.abortHandling _ kept, complete⟩
            · exact ⟨kept, complete⟩
    · exact Or.inl (waits connection start)

/-- **What the callbacks keep, handling a read keeps**, and while the header is not
complete nothing is announced. -/
theorem process_keeps (keeps : inner.Keeps property)
    (announces : ∀ resp connection, before connection →
      property (inner.onHeader resp connection).2)
    (fails : ∀ errcode connection, errcode ≠ HttpErrorCodes.eof → before connection →
      fresh (inner.handleError errcode connection))
    (redirects : ∀ info connection, before connection → fresh (inner.redirect info connection))
    (waits : ∀ connection, before connection → fresh connection)
    (weaker : ∀ connection, fresh connection → property connection) {data : Bytes}
    {info : HttpConnectionRequestInfo zlib} {connection : Connection}
    (holds : property connection)
    (unannounced : info.responseExtractor.headerFinished = false → before connection) :
    property (info.process inner data connection).connection ∧
      ((info.process inner data connection).info.responseExtractor.headerFinished = false →
        fresh (info.process inner data connection).connection) := by
  rw [process]
  split
  · next finished =>
      refine ⟨processBodyData_keeps keeps data info holds, ?_⟩
      intro unfinished
      exact absurd (finished.symm.trans unfinished) (by decide)
  · next unfinished =>
      rcases @processHeaderData_keeps _ _ _ _ _ _ keeps announces fails redirects waits data info _
        (unannounced (Bool.eq_false_iff.mpr unfinished)) with kept | ⟨kept, finished⟩
      · exact ⟨weaker _ kept, fun _ => kept⟩
      · exact ⟨kept, fun unfinished => absurd (finished.symm.trans unfinished) (by decide)⟩

/-- A header that was handled is complete. -/
def Consistent (info : HttpConnectionRequestInfo zlib) : Prop :=
  info.responseHeaderReceived = true → info.responseExtractor.headerFinished = true

/-- What does not look at the request is the same behind the caller's headers. -/
theorem apply_setHeaders {α : Type} {f : HttpConnectionRequestInfo zlib → α}
    (ignores : ∀ info request, f { info with request := request } = f info)
    (headers : List (Bytes × Bytes)) (info : HttpConnectionRequestInfo zlib) :
    f (headers.foldl (fun info entry => info.setHeader entry.1 entry.2) info) = f info := by
  induction headers generalizing info with
  | nil => rfl
  | cons entry headers ih => exact (ih _).trans (ignores info _)

/-- Preparing a request changes nothing else. -/
theorem apply_prepareRequest {α : Type} {f : HttpConnectionRequestInfo zlib → α}
    (ignores : ∀ info request, f { info with request := request } = f info)
    (options : HttpConnectionOptions) (headers : List (Bytes × Bytes))
    (info : HttpConnectionRequestInfo zlib) :
    f (info.prepareRequest options headers) = f info := by
  have setHeader : ∀ (info : HttpConnectionRequestInfo zlib) name value,
      f (info.setHeader name value) = f info := fun info name value => ignores info _
  have initRequestHost : ∀ info : HttpConnectionRequestInfo zlib,
      f info.initRequestHost = f info := fun info => setHeader info _ _
  simp only [prepareRequest, apply_ite f, setHeader, initRequestHost, ignores,
    apply_setHeaders ignores, ite_self]

theorem redirect_consistent {info : HttpConnectionRequestInfo zlib}
    (unhandled : info.responseHeaderReceived = false) (location : Bytes)
    (connection : Connection) : (info.redirect inner location connection).info.Consistent := by
  intro handled
  exfalso
  simp only [redirect] at handled
  split at handled
  · exact absurd (unhandled.symm.trans handled) (by decide)
  · split at handled
    · exact absurd (unhandled.symm.trans handled) (by decide)
    · exact absurd (show false = true from handled) (by decide)

theorem processRawResponse_consistent {info : HttpConnectionRequestInfo zlib}
    (unhandled : info.responseHeaderReceived = false)
    (finished : info.responseExtractor.headerFinished = true) (connection : Connection) :
    (info.processRawResponse inner connection).info.Consistent := by
  simp only [processRawResponse]
  split
  · exact redirect_consistent unhandled _ connection
  · exact fun _ => finished

theorem process_consistent {info : HttpConnectionRequestInfo zlib} (consistent : info.Consistent)
    (data : Bytes) (connection : Connection) :
    (info.process inner data connection).info.Consistent := by
  rw [process]
  split
  · exact consistent
  · next unfinished =>
      have unhandled : info.responseHeaderReceived = false :=
        Bool.eq_false_iff.mpr fun handled => unfinished (consistent handled)
      have never : ∀ {goal : Prop}, info.responseHeaderReceived = true → goal :=
        fun handled => absurd (unhandled.symm.trans handled) (by decide)
      simp only [processHeaderData]
      split
      · exact never
      · split
        · next finished =>
            have response := @processRawResponse_consistent _ _ inner
              { info with responseExtractor := (info.responseExtractor.feed data).2 } unhandled
              finished connection
            generalize processRawResponse inner
              { info with responseExtractor := (info.responseExtractor.feed data).2 } connection =
                started at response ⊢
            split
            · exact response
            · split
              · split
                · exact response
                · exact response
              · exact response
        · exact never

end HttpConnectionRequestInfo

end Xul
