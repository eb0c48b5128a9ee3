import Xul.Foundation.Runs
import Xul.Net.Http.HttpConnectTarget
import Xul.Net.Http.HttpRequestPrinting

/-!
# Following redirections

A response of a redirection sends the pending request on to the address in its Location: the
request gets the path and the host of that address, the connection is closed, and is opened
again to its host and port, where the request is written.  A session records, beside the
connection, which Locations its request has followed.

`redirect` compares the redirections before it counts, so a request follows one redirection
more than `get_max_redirects()`; and it goes to every address that `simple_uri` accepts, also
to one that names no host or no port.  `followsRedirects_iff` says which runs do neither.
-/

set_option autoImplicit false

namespace Xul

open Foundation

/-- The Host header of an address. -/
def hostHeader (url : SimpleUri) : Bytes :=
  if url.port = 80 then url.host else url.host ++ ascii ":" ++ printInt url.port

/-- A Location that `redirect` accepts. -/
def AcceptedLocation (location : Bytes) : Prop :=
  location ≠ [] ∧ (SimpleUri.parse location).1 = true

/-- What a Location must name to be connected to. -/
theorem connectable_location_iff (location : Bytes) :
    Connectable (SimpleUri.parse location).2 ↔ NamesPort (cStr location) := by
  have clean := zero_not_mem_cStr location
  rw [← SimpleUri.parse_cStr]
  exact ⟨SimpleUri.namesPort_of_connectable clean, SimpleUri.connectable_of_namesPort clean⟩

/-! ## A request that is redirected -/

namespace HttpConnectionRequestInfo

variable {zlib : Zlib} {Connection : Type}
  {inner : InnerHttpConnection (HttpConnectionRequestInfo zlib) Connection}

/-- The Location of the redirection whose header a read completes. -/
def redirection (data : Bytes) (info : HttpConnectionRequestInfo zlib) : Option Bytes :=
  let fed := info.responseExtractor.feed data
  if info.responseExtractor.headerFinished = false ∧ 0 ≤ fed.1 ∧ fed.2.headerFinished = true ∧
      isRedirect fed.2.response.statusCode = true then
    some (fed.2.response.getHeader (ascii "Location") [])
  else none

/-- The request that goes on at a Location. -/
def goOn (location : Bytes) (info : HttpConnectionRequestInfo zlib) :
    HttpConnectionRequestInfo zlib :=
  let locationUri := (SimpleUri.parse location).2
  let info := { info with redirectTimes := info.redirectTimes + 1 }.resetHandlingState
  { info with
    url := locationUri
    request := info.request.setUrl locationUri.fullPath }.initRequestHost

theorem redirect_of_accepted {location : Bytes} {info : HttpConnectionRequestInfo zlib}
    {connection : Connection} (inTime : info.redirectTimes ≤ inner.getMaxRedirects connection)
    (accepted : AcceptedLocation location) :
    info.redirect inner location connection =
      ⟨false, info.goOn location, inner.redirect (info.goOn location) connection⟩ := by
  have valid : ¬ (location = [] ∨ (SimpleUri.parse location).1 = false) := by
    rw [not_or, accepted.2]
    exact ⟨accepted.1, by decide⟩
  simp only [redirect, if_neg (not_lt.mpr inTime), if_neg valid]
  rfl

theorem redirect_of_tooMany {location : Bytes} {info : HttpConnectionRequestInfo zlib}
    {connection : Connection} (tooMany : inner.getMaxRedirects connection < info.redirectTimes) :
    info.redirect inner location connection =
      ⟨false, info, inner.handleError HttpErrorCodes.redirectTooManyTimes connection⟩ :=
  if_pos tooMany

theorem redirect_of_refused {location : Bytes} {info : HttpConnectionRequestInfo zlib}
    {connection : Connection} (refused : inner.getMaxRedirects connection < info.redirectTimes ∨
      ¬ AcceptedLocation location) :
    ∃ errcode, errcode ≠ HttpErrorCodes.eof ∧
      (info.redirect inner location connection).connection =
        inner.handleError errcode connection := by
  simp only [redirect]
  split
  · exact ⟨_, by decide, rfl⟩
  · next inTime =>
      have invalid : location = [] ∨ (SimpleUri.parse location).1 = false := by
        by_contra valid
        rw [not_or, Bool.not_eq_false] at valid
        exact refused.elim inTime fun refused => refused valid
      rw [if_pos invalid]
      exact ⟨_, by decide, rfl⟩

/-- A read that completes the header of a redirection goes to `redirect`. -/
theorem process_of_redirection {data location : Bytes} {info : HttpConnectionRequestInfo zlib}
    (redirected : info.redirection data = some location) (connection : Connection) :
    info.process inner data connection =
      redirect inner location
        { info with responseExtractor := (info.responseExtractor.feed data).2 } connection := by
  simp only [redirection] at redirected
  split at redirected
  · next header =>
      obtain ⟨unfinished, consumed, finished, status⟩ := header
      obtain rfl := Option.some.inj redirected
      simp only [process, unfinished, Bool.false_eq_true, if_false, processHeaderData,
        if_neg (not_lt.mpr consumed), finished, if_true, processRawResponse, status, redirect_ret,
        not_false_eq_true]
  · cases redirected

/-! ### The request that is sent on -/

theorem goOn_redirectTimes (location : Bytes) (info : HttpConnectionRequestInfo zlib) :
    (info.goOn location).redirectTimes = info.redirectTimes + 1 := rfl

/-- The request goes to the path of the Location. -/
theorem goOn_request (location : Bytes) (info : HttpConnectionRequestInfo zlib) :
    (info.goOn location).request =
      HttpRequest.ofUrl (info.goOn location).request.method
        (SimpleUri.parse location).2.fullPath (info.goOn location).request.message := rfl

/-- The request names the host of the Location, and the port. -/
theorem goOn_host {location : Bytes} (connectable : Connectable (SimpleUri.parse location).2)
    (accepted : (SimpleUri.parse location).1 = true) (info : HttpConnectionRequestInfo zlib) :
    (info.goOn location).request.getHeader (ascii "Host") [] =
      hostHeader (SimpleUri.parse location).2 := by
  have hostClean : 0 ∉ (SimpleUri.parse location).2.host := by
    have clean := (SimpleUri.accepted_of_parse accepted).zero_free
    rw [List.mem_append, List.mem_append, not_or, not_or] at clean
    exact clean.1.1
  have portClean : 0 ∉ printInt (SimpleUri.parse location).2.port := by
    intro member
    have digit := isDigit_of_mem_printInt connectable.assertions.port.le member
    exact absurd digit (by decide)
  have named : (info.goOn location).request.getHeader (ascii "Host") [] =
      cStr (hostHeader (SimpleUri.parse location).2) := by
    refine (Headers.get_set_self _ _ _ _).trans (congrArg cStr ?_)
    have notZero : (SimpleUri.parse location).2.port ≠ 0 := connectable.assertions.port.ne'
    by_cases default : (SimpleUri.parse location).2.port = 80
    · rw [hostHeader, if_pos default]
      exact if_neg fun other => other.1 default
    · rw [hostHeader, if_neg default]
      exact if_pos ⟨default, notZero⟩
  rw [named]
  refine cStr_of_no_zero ?_
  rw [hostHeader]
  split
  · exact hostClean
  · simp only [List.mem_append, not_or]
    exact ⟨⟨hostClean, by decide⟩, portClean⟩

end HttpConnectionRequestInfo

/-- The same request on its way, with what has arrived for it. -/
structure SameRequest {zlib : Zlib} (info next : HttpConnectionRequestInfo zlib) : Prop where
  request : next.request = info.request
  headerSend : next.headerSend = info.headerSend
  redirectTimes : next.redirectTimes = info.redirectTimes

theorem SameRequest.refl {zlib : Zlib} (info : HttpConnectionRequestInfo zlib) :
    SameRequest info info :=
  ⟨rfl, rfl, rfl⟩

/-! ## What a step does to the pending request -/

namespace HttpConnection

variable {zlib : Zlib} {env : HttpConnectionEnvironment}

/-- The Location of the redirection whose header a read completes. -/
def redirection (data : Bytes) (conn : HttpConnection zlib) : Option Bytes :=
  conn.request.bind fun info => info.redirection data

/-- A connection to the same place, that was given the same to send; it may be lost. -/
structure Unmoved (conn next : HttpConnection zlib) : Prop where
  host : next.host = conn.host
  port : next.port = conn.port
  resolving : ∀ name, next.resolving = some name → conn.resolving = some name
  connecting : next.socket.connecting = true → conn.socket.connecting = true
  connected : next.socket.connected = true → conn.socket.connected = true
  sent : next.socket.sent = conn.socket.sent

/-- What is pending was pending before, on the same connection. -/
structure Kept (conn next : HttpConnection zlib) : Prop where
  options : next.options = conn.options
  pending : ∀ info, next.request = some info →
    (∃ before, conn.request = some before ∧ SameRequest before info) ∧ Unmoved conn next

variable {conn next : HttpConnection zlib}

theorem Kept.of_unmoved (options : next.options = conn.options)
    (same : next.request = conn.request) (unmoved : Unmoved conn next) : Kept conn next where
  options := options
  pending info pending := ⟨⟨info, same.symm.trans pending, .refl info⟩, unmoved⟩

/-- Nothing is pending any more. -/
theorem Kept.of_none (options : next.options = conn.options) (none : next.request = none) :
    Kept conn next where
  options := options
  pending info pending := by
    rw [none] at pending
    cases pending

theorem Kept.close (kept : Kept conn next) : Kept conn next.close := .of_none kept.options rfl

theorem Kept.tell (kept : Kept conn next) (call : ListenerCall) : Kept conn (next.tell call) where
  options := kept.options
  pending info pending := by
    obtain ⟨before, host, port, resolving, connecting, connected, sent⟩ := kept.pending info pending
    exact ⟨before, host, port, resolving, connecting, connected, sent⟩

/-- What is stored is the request that was pending. -/
theorem Kept.store (kept : Kept conn next) {info stored : HttpConnectionRequestInfo zlib}
    (pending : conn.request = some info) (same : SameRequest info stored) :
    Kept conn (next.store stored) where
  options := kept.options
  pending last remains := by
    obtain ⟨other, still, rfl⟩ := Option.map_eq_some_iff.mp remains
    obtain ⟨-, host, port, resolving, connecting, connected, sent⟩ := kept.pending other still
    exact ⟨⟨info, pending, same⟩, host, port, resolving, connecting, connected, sent⟩

theorem Kept.checkReceive (kept : Kept conn next) : Kept conn next.checkReceive := by
  rw [HttpConnection.checkReceive]
  split
  · refine ⟨kept.options, ?_⟩
    intro info pending
    obtain ⟨before, host, port, resolving, connecting, connected, sent⟩ := kept.pending info pending
    exact ⟨before, host, port, resolving, connecting, connected, sent⟩
  · exact kept

/-- **What filters call keeps the pending request.** -/
theorem kept_keeps (env : HttpConnectionEnvironment) (conn : HttpConnection zlib) :
    (innerOfFilters env).Keeps (Kept conn) where
  abortHandling next kept := kept.close
  onError errcode next kept := kept.close.tell _
  onContent data next kept := by
    simp only [innerOfFilters, onContent]
    split
    · exact kept.close
    · exact kept.tell _
  onComplete totalSize data next kept := by
    simp only [innerOfFilters, onComplete]
    split
    · exact kept.close
    · have dropped : Kept conn { next with request := none } := .of_none kept.options rfl
      exact dropped.tell _

theorem kept_keeps_inner (env : HttpConnectionEnvironment) (conn : HttpConnection zlib) :
    (inner env).Keeps (Kept conn) :=
  ⟨(kept_keeps env conn).abortHandling, (kept_keeps env conn).onError,
    (kept_keeps env conn).onContent, (kept_keeps env conn).onComplete⟩

theorem Kept.onHeader (kept : Kept conn next) (resp : HttpResponse) :
    Kept conn ((inner env).onHeader resp next).2 := by
  simp only [inner, innerOfFilters, HttpConnection.onHeader]
  split
  · exact kept.close
  · exact kept.tell _

/-- An error drops the request, unless it ends a response. -/
theorem Kept.handleError (kept : Kept conn next) (errcode : Int) :
    Kept conn (next.handleError env errcode) := by
  simp only [HttpConnection.handleError]
  split
  · exact kept.close
  · next info pending =>
      split
      · obtain ⟨⟨before, was, same⟩, -⟩ := kept.pending info pending
        exact (HttpFilters.finish_keeps (kept_keeps env conn) [] info.filters kept).store was
          ⟨same.request, same.headerSend, same.redirectTimes⟩
      · exact kept.close.tell _

/-- An error that is not the end of the stream drops the request. -/
theorem handleError_request {errcode : Int} (notEof : errcode ≠ HttpErrorCodes.eof) :
    (conn.handleError env errcode).request = none := by
  simp only [handleError]
  split
  · rfl
  · rw [if_neg fun ends => notEof ends.2]
    rfl

/-! ### A read -/

/-- A response that does not redirect is handled by filters. -/
theorem Kept.processRawResponse (kept : Kept conn next) {info : HttpConnectionRequestInfo zlib}
    (status : HttpConnectionRequestInfo.isRedirect info.responseExtractor.response.statusCode =
      false) :
    Kept conn (info.processRawResponse (inner env) next).connection ∧
      SameRequest info (info.processRawResponse (inner env) next).info := by
  simp only [HttpConnectionRequestInfo.processRawResponse, status, Bool.false_eq_true, if_false,
    HttpConnectionRequestInfo.handleResponseHeader]
  refine ⟨?_, rfl, rfl, rfl⟩
  exact HttpFilters.init_keeps (kept_keeps_inner env conn)
    (fun resp next (kept : Kept conn next) => kept.onHeader resp) _ _ kept

theorem Kept.processBodyData (kept : Kept conn next) (data : Bytes)
    (info : HttpConnectionRequestInfo zlib) :
    Kept conn (info.processBodyData (inner env) data next).connection ∧
      SameRequest info (info.processBodyData (inner env) data next).info :=
  ⟨HttpConnectionRequestInfo.processBodyData_keeps (kept_keeps_inner env conn) data info kept,
    rfl, rfl, rfl⟩

/-- **A read that completes no redirection keeps the pending request.** -/
theorem Kept.process (kept : Kept conn next) {data : Bytes}
    {info : HttpConnectionRequestInfo zlib} (none : info.redirection data = none) :
    Kept conn (info.process (inner env) data next).connection ∧
      SameRequest info (info.process (inner env) data next).info := by
  rw [HttpConnectionRequestInfo.process]
  split
  · exact kept.processBodyData data info
  · next unfinished =>
      simp only [HttpConnectionRequestInfo.processHeaderData]
      split
      · exact ⟨kept.handleError _, rfl, rfl, rfl⟩
      · next consumed =>
          split
          · next finished =>
              have status : HttpConnectionRequestInfo.isRedirect
                  (info.responseExtractor.feed data).2.response.statusCode = false := by
                by_contra redirects
                rw [Bool.not_eq_false] at redirects
                rw [HttpConnectionRequestInfo.redirection, if_pos ⟨Bool.eq_false_iff.mpr unfinished,
                  not_lt.mp consumed, finished, redirects⟩] at none
                cases none
              have started := @Kept.processRawResponse _ env _ _ kept
                { info with responseExtractor := (info.responseExtractor.feed data).2 } status
              generalize HttpConnectionRequestInfo.processRawResponse (inner env)
                { info with responseExtractor := (info.responseExtractor.feed data).2 } next =
                  response at started ⊢
              obtain ⟨kept, request, headerSend, redirectTimes⟩ := started
              split
              · exact ⟨kept, request, headerSend, redirectTimes⟩
              · split
                · split
                  · exact ⟨(kept.processBodyData _ response.info).1, request, headerSend,
                      redirectTimes⟩
                  · exact ⟨kept.close, request, headerSend, redirectTimes⟩
                · exact ⟨kept, request, headerSend, redirectTimes⟩
          · exact ⟨kept, rfl, rfl, rfl⟩

/-! ### A step -/

/-- An event that neither makes a request nor redirects one. -/
def Ordinary (conn : HttpConnection zlib) : Event → Prop
  | .request method urlstr headers => conn.prepareRequest method urlstr headers = none
  | .socketReceive data => conn.redirection data = none
  | _ => True

/-- What a step can do: the pending request is kept or dropped, made, written, redirected, or
dropped because it cannot be redirected. -/
inductive Outcome (env : HttpConnectionEnvironment) (conn : HttpConnection zlib) :
    Event → HttpConnection zlib → Prop
  | kept {event : Event} {next : HttpConnection zlib} (ordinary : conn.Ordinary event)
      (kept : Kept conn next) : Outcome env conn event next
  | asked {method urlstr : Bytes} {headers : List (Bytes × Bytes)}
      {info : HttpConnectionRequestInfo zlib}
      (prepared : conn.prepareRequest method urlstr headers = some info) :
      Outcome env conn (.request method urlstr headers)
        ({ conn with created := conn.created + 1 }.doRequest env info)
  | resolved {errcode : Int} {found : Bool} (lookup : conn.resolving ≠ none) :
      Outcome env conn (.resolverAddress errcode found)
        { conn with resolving := none }.connectoHostAddress
  | connected {info : HttpConnectionRequestInfo zlib} (connecting : conn.socket.connecting = true)
      (pending : conn.request = some info) :
      Outcome env conn .socketConnect
        ({ conn with socket :=
          { conn.socket with connecting := false, connected := true } }.receive.writeRequest info)
  | redirected {data location : Bytes} {info : HttpConnectionRequestInfo zlib}
      (pending : conn.request = some info) (redirection : info.redirection data = some location)
      (inTime : info.redirectTimes ≤ conn.options.maxRedirects)
      (accepted : AcceptedLocation location) :
      Outcome env conn (.socketReceive data)
        (conn.close.connectHost env
          ({ info with responseExtractor := (info.responseExtractor.feed data).2 }.goOn location))
  | refused {data location : Bytes} {info : HttpConnectionRequestInfo zlib}
      {next : HttpConnection zlib} (pending : conn.request = some info)
      (redirection : info.redirection data = some location)
      (refused : conn.options.maxRedirects < info.redirectTimes ∨ ¬ AcceptedLocation location)
      (options : next.options = conn.options) (dropped : next.request = none) :
      Outcome env conn (.socketReceive data) next

/-- A connection that was closed for a redirection connects to the host. -/
theorem inner_redirect (info : HttpConnectionRequestInfo zlib) (conn : HttpConnection zlib) :
    (inner env).redirect info conn = conn.close.connectHost env info := by
  change conn.close.doRequest env info = _
  rw [doRequest, needReconnect_close, if_pos rfl]

theorem connectHost_store (info : HttpConnectionRequestInfo zlib) :
    (conn.connectHost env info).store info = conn.connectHost env info := by
  simp only [connectHost]
  split <;> rfl

theorem kept_failSocket (conn : HttpConnection zlib) : Kept conn conn.failSocket :=
  .of_unmoved rfl rfl ⟨rfl, rfl, fun _ => id, nofun, nofun, rfl⟩

/-- What a read does to the pending request, when the receive has ended on the socket. -/
theorem outcome_onSocketReceive {received : HttpConnection zlib} (kept : Kept conn received)
    (same : received.request = conn.request) (closed : received.close = conn.close)
    (data : Bytes) :
    Outcome env conn (.socketReceive data) (received.onSocketReceive env data) := by
  simp only [onSocketReceive, same]
  cases pending : conn.request with
  | none =>
      refine .kept ?_ kept.close
      rw [Ordinary, redirection, pending, Option.bind_none]
  | some info =>
      simp only
      cases redirected : info.redirection data with
      | none =>
          have ordinary : conn.Ordinary (.socketReceive data) := by
            rw [Ordinary, redirection, pending, Option.bind_some, redirected]
          obtain ⟨kept, same⟩ := @Kept.process _ env _ _ kept _ _ redirected
          refine .kept ordinary ?_
          split
          · exact (kept.store pending same).checkReceive
          · exact kept.store pending same
      | some location =>
          rw [HttpConnectionRequestInfo.process_of_redirection redirected]
          have limit : (inner env).getMaxRedirects received = conn.options.maxRedirects :=
            congrArg HttpConnectionOptions.maxRedirects kept.options
          by_cases follows : info.redirectTimes ≤ conn.options.maxRedirects ∧
              AcceptedLocation location
          · obtain ⟨inTime, accepted⟩ := follows
            have followed := @HttpConnectionRequestInfo.redirect_of_accepted _ _ (inner env)
              location { info with responseExtractor := (info.responseExtractor.feed data).2 } received
              (inTime.trans_eq limit.symm) accepted
            rw [followed, if_neg Bool.false_ne_true, inner_redirect, connectHost_store, closed]
            exact .redirected pending redirected inTime accepted
          · rw [not_and_or, not_le, ← limit] at follows
            obtain ⟨errcode, notEof, connection⟩ :=
              @HttpConnectionRequestInfo.redirect_of_refused _ _ (inner env) location
                { info with responseExtractor := (info.responseExtractor.feed data).2 } received
                follows
            rw [HttpConnectionRequestInfo.redirect_ret, if_neg Bool.false_ne_true, connection]
            rw [limit] at follows
            refine .refused pending redirected follows (kept.handleError errcode).options ?_
            exact congrArg (Option.map _) (handleError_request notEof)

/-- A connection that opens is given the pending request. -/
theorem outcome_onSocketConnect (connecting : conn.socket.connecting = true) :
    let socket := { conn.socket with connecting := false, connected := true }
    Outcome env conn .socketConnect { conn with socket }.onSocketConnect := by
  simp only [onSocketConnect, receive]
  cases pending : conn.request with
  | none => exact .kept trivial (.of_none rfl rfl)
  | some info =>
      have connected := @Outcome.connected _ env _ _ connecting pending
      simp only [receive, pending] at connected
      exact connected

/-- **Every step has one of these outcomes.** -/
theorem step_outcome {event : Event} (happens : conn.step env event = some next) :
    Outcome env conn event next := by
  cases event with
  | request method urlstr headers =>
      simp only [step, doPrepared] at happens
      cases prepared : conn.prepareRequest method urlstr headers with
      | none =>
          rw [prepared] at happens
          cases happens
          exact .kept prepared (.of_unmoved rfl rfl ⟨rfl, rfl, fun _ => id, id, id, rfl⟩)
      | some info =>
          rw [prepared] at happens
          cases happens
          exact .asked prepared
  | resolverAddress errcode found =>
      rw [step, Option.ite_none_left_eq_some, onResolverAddress] at happens
      obtain ⟨lookup, happens⟩ := happens
      cases happens
      split
      · have kept : Kept conn { conn with resolving := none } :=
          .of_unmoved rfl rfl ⟨rfl, rfl, nofun, id, id, rfl⟩
        exact .kept trivial (kept.handleError errcode)
      · exact .resolved lookup
  | socketConnect =>
      rw [step, Option.ite_none_left_eq_some, not_not] at happens
      obtain ⟨connecting, happens⟩ := happens
      cases happens
      exact outcome_onSocketConnect connecting
  | socketConnectFailed errcode =>
      rw [step, Option.ite_none_left_eq_some] at happens
      cases happens.2
      exact .kept trivial ((kept_failSocket conn).handleError errcode)
  | socketReceive data =>
      rw [step, Option.ite_none_right_eq_some] at happens
      cases happens.2
      have kept : Kept conn { conn with socket := { conn.socket with receiving := false } } :=
        .of_unmoved rfl rfl ⟨rfl, rfl, fun _ => id, id, id, rfl⟩
      exact outcome_onSocketReceive kept rfl rfl data
  | socketReceiveFailed errcode =>
      rw [step, Option.ite_none_right_eq_some] at happens
      cases happens.2
      exact .kept trivial ((kept_failSocket conn).handleError errcode)
  | socketSendFailed errcode =>
      rw [step, Option.ite_none_left_eq_some] at happens
      cases happens.2
      have kept : Kept conn conn.disconnectSocket :=
        .of_unmoved rfl rfl ⟨rfl, rfl, fun _ => id, id, nofun, rfl⟩
      exact .kept trivial (kept.handleError errcode)
  | postedError =>
      simp only [step] at happens
      split at happens
      · cases happens
      · cases happens
        exact .kept trivial (.of_none rfl rfl)
  | pause =>
      cases happens
      exact .kept trivial (.of_unmoved rfl rfl ⟨rfl, rfl, fun _ => id, id, id, rfl⟩)
  | resume =>
      cases happens
      have kept : Kept conn { conn with pauseReceive := false } :=
        .of_unmoved rfl rfl ⟨rfl, rfl, fun _ => id, id, id, rfl⟩
      exact .kept trivial kept.checkReceive
  | close =>
      cases happens
      exact .kept trivial (.of_none rfl rfl)

end HttpConnection

/-! ## Sessions -/

/-- A connection, with the Locations that the request it was given last has followed. -/
structure RedirectSession (zlib : Zlib) where
  conn : HttpConnection zlib
  followed : List Bytes

namespace RedirectSession

variable {zlib : Zlib}

def start (options : HttpConnectionOptions) : RedirectSession zlib := ⟨.create options, []⟩

/-- A new request has followed nothing.  A redirection was followed if the request is still
pending behind the read. -/
def followedAfter (session : RedirectSession zlib) (next : HttpConnection zlib) :
    HttpConnection.Event → List Bytes
  | .request method urlstr headers =>
      if (session.conn.prepareRequest method urlstr headers).isSome then [] else session.followed
  | .socketReceive data =>
      match session.conn.redirection data with
      | some location =>
          if next.request.isSome then session.followed ++ [location] else session.followed
      | none => session.followed
  | _ => session.followed

def step (env : HttpConnectionEnvironment) (session : RedirectSession zlib)
    (event : HttpConnection.Event) : Option (RedirectSession zlib) :=
  (session.conn.step env event).map fun next => ⟨next, session.followedAfter next event⟩

variable {env : HttpConnectionEnvironment} {session : RedirectSession zlib}
  {event : HttpConnection.Event} {next : HttpConnection zlib}

theorem followedAfter_of_ordinary (ordinary : session.conn.Ordinary event) :
    session.followedAfter next event = session.followed := by
  cases event with
  | request method urlstr headers =>
      have refused : session.conn.prepareRequest method urlstr headers = none := ordinary
      rw [followedAfter, refused]
      rfl
  | socketReceive data =>
      have direct : session.conn.redirection data = none := ordinary
      rw [followedAfter, direct]
  | resolverAddress errcode found => rfl
  | socketConnect => rfl
  | socketConnectFailed errcode => rfl
  | socketReceiveFailed errcode => rfl
  | socketSendFailed errcode => rfl
  | postedError => rfl
  | pause => rfl
  | resume => rfl
  | close => rfl

theorem followedAfter_of_redirection {data location : Bytes}
    {info : HttpConnectionRequestInfo zlib} (pending : session.conn.request = some info)
    (redirected : info.redirection data = some location) :
    session.followedAfter next (.socketReceive data) =
      if next.request.isSome then session.followed ++ [location] else session.followed := by
  rw [followedAfter, HttpConnection.redirection, pending, Option.bind_some, redirected]

/-! ### Counting -/

/-- The request counts its redirections, of which there is at most one too many. -/
structure Counted (session : RedirectSession zlib) : Prop where
  times : ∀ info, session.conn.request = some info → info.redirectTimes = session.followed.length
  atMost : session.followed.length ≤ session.conn.options.maxRedirects.toNat + 1

theorem doRequest_request {conn : HttpConnection zlib} {info next : HttpConnectionRequestInfo zlib}
    (pending : (conn.doRequest env info).request = some next) :
    next.redirectTimes = info.redirectTimes := by
  simp only [HttpConnection.doRequest, HttpConnection.connectHost] at pending
  split at pending
  · split at pending
    · cases pending
      rfl
    · cases pending
      rfl
  · simp only [HttpConnection.checkReceive] at pending
    split at pending
    · cases pending
      rfl
    · cases pending
      rfl

theorem connectHost_options {conn : HttpConnection zlib} (info : HttpConnectionRequestInfo zlib) :
    (conn.connectHost env info).options = conn.options := by
  simp only [HttpConnection.connectHost]
  split <;> rfl

theorem connectHost_request {conn : HttpConnection zlib} (info : HttpConnectionRequestInfo zlib) :
    (conn.connectHost env info).request = some info := by
  simp only [HttpConnection.connectHost]
  split <;> rfl

/-- **Every step counts.** -/
theorem Counted.step (counted : session.Counted)
    (outcome : HttpConnection.Outcome env session.conn event next) :
    Counted ⟨next, session.followedAfter next event⟩ := by
  obtain ⟨times, atMost⟩ := counted
  cases outcome with
  | kept ordinary kept =>
      rw [followedAfter_of_ordinary ordinary]
      refine ⟨?_, by rwa [kept.options]⟩
      intro info pending
      obtain ⟨⟨before, was, same⟩, -⟩ := kept.pending info pending
      rw [same.redirectTimes, times before was]
  | @asked method urlstr headers info prepared =>
      rw [followedAfter, prepared, Option.isSome_some, if_pos rfl]
      refine ⟨?_, Nat.zero_le _⟩
      intro last pending
      rw [doRequest_request pending]
      exact @(HttpConnection.of_prepareRequest prepared).2 _
        HttpConnectionRequestInfo.redirectTimes fun _ _ => rfl
  | resolved lookup => exact ⟨times, atMost⟩
  | @connected info connecting pending =>
      refine ⟨?_, atMost⟩
      intro last written
      cases written
      exact times info pending
  | @redirected data location info pending redirected inTime accepted =>
      rw [followedAfter_of_redirection pending redirected, connectHost_request, Option.isSome_some,
        if_pos rfl]
      have count := times info pending
      constructor
      · intro last goesOn
        rw [connectHost_request] at goesOn
        cases goesOn
        rw [HttpConnectionRequestInfo.goOn_redirectTimes, List.length_append, count]
        rfl
      · rw [connectHost_options, List.length_append, List.length_singleton]
        rw [count] at inTime
        exact Nat.succ_le_succ ((Int.le_toNat ((Int.natCast_nonneg _).trans inTime)).mpr inTime)
  | refused pending redirected refused options dropped =>
      rw [followedAfter_of_redirection pending redirected, dropped, Option.isSome_none,
        if_neg Bool.false_ne_true]
      refine ⟨?_, by rwa [options]⟩
      intro last remains
      rw [dropped] at remains
      cases remains

theorem step_eq_some {next : RedirectSession zlib} (happens : session.step env event = some next) :
    HttpConnection.Outcome env session.conn event next.conn ∧
      next = ⟨next.conn, session.followedAfter next.conn event⟩ := by
  obtain ⟨conn, steps, rfl⟩ := Option.map_eq_some_iff.mp happens
  exact ⟨HttpConnection.step_outcome steps, rfl⟩

theorem counted_start (options : HttpConnectionOptions) :
    (start options : RedirectSession zlib).Counted where
  times info pending := nomatch (show none = some info from pending)
  atMost := Nat.zero_le _

/-- **In every run a request follows at most one redirection more than it should.** -/
theorem followed_at_most_one_more (env : HttpConnectionEnvironment)
    (options : HttpConnectionOptions) (events : List HttpConnection.Event) :
    Throughout (step env)
      (fun session => session.followed.length ≤ session.conn.options.maxRedirects.toNat + 1)
      (start options : RedirectSession zlib) events := by
  have counted := @throughout_of_preserved (RedirectSession zlib) _ (step env) Counted
    (fun session event next counted happens => by
      obtain ⟨outcome, same⟩ := step_eq_some happens
      rw [same]
      exact counted.step outcome) events _ (counted_start options)
  exact counted.imp fun session counted => counted.atMost

/-- **A redirection that comes after more than should be followed is reported.** -/
theorem Counted.reports (counted : session.Counted) {data location : Bytes}
    (redirection : session.conn.redirection data = some location)
    (tooMany : session.conn.options.maxRedirects < session.followed.length)
    (happens : session.conn.step env (.socketReceive data) = some next) :
    next.log = session.conn.log ++ [.httpError HttpErrorCodes.redirectTooManyTimes] := by
  obtain ⟨info, pending, redirected⟩ := Option.bind_eq_some_iff.mp redirection
  rw [← counted.times info pending] at tooMany
  simp only [HttpConnection.step] at happens
  split at happens
  · cases happens
    simp only [HttpConnection.onSocketReceive, pending,
      HttpConnectionRequestInfo.process_of_redirection redirected]
    have reported := @HttpConnectionRequestInfo.redirect_of_tooMany _ _
      (HttpConnection.inner env) location
      { info with responseExtractor := (info.responseExtractor.feed data).2 }
      { session.conn with socket := { session.conn.socket with receiving := false } } tooMany
    simp only [pending] at reported
    rw [reported]
    have notEof : ¬ HttpErrorCodes.redirectTooManyTimes = HttpErrorCodes.eof := by decide
    simp only [Bool.false_eq_true, if_false, HttpConnection.inner, HttpConnection.handleError,
      notEof, and_false]
    rfl
  · cases happens

/-! ### Going to the address -/

/-- The request goes to an address: the connection is opened to its host and port, and there
the request for its path is written, with its host. -/
structure GoesTo (target : SimpleUri) (conn : HttpConnection zlib)
    (info : HttpConnectionRequestInfo zlib) : Prop where
  connectable : Connectable target
  host : conn.host = target.host
  port : toUint16 conn.port = target.port
  resolving : ∀ name, conn.resolving = some name → name = target.host
  path : info.request =
    HttpRequest.ofUrl info.request.method target.fullPath info.request.message
  header : info.request.getHeader (ascii "Host") [] = hostHeader target
  sent : conn.socket.sent = if info.headerSend then [info.request.print] else []
  written : conn.socket.connected = true → info.headerSend = true

/-- A redirection that is accepted finds room, and names a host and a port. -/
def CanFollow (session : RedirectSession zlib) (event : HttpConnection.Event) : Prop :=
  ∀ data location, event = .socketReceive data →
    session.conn.redirection data = some location → AcceptedLocation location →
      0 ≤ session.conn.options.maxRedirects →
        (session.followed.length : Int) < session.conn.options.maxRedirects ∧
          NamesPort (cStr location)

/-- A request is written when its connection is open. -/
structure Underway (conn : HttpConnection zlib) (info : HttpConnectionRequestInfo zlib) : Prop where
  unwritten : conn.socket.connecting = true ∨ conn.resolving ≠ none → info.headerSend = false
  apart : conn.resolving ≠ none → conn.socket.connecting = false

/-- The invariant of a session whose redirections can be followed. -/
structure Standing (session : RedirectSession zlib) : Prop extends Counted session where
  bounded : session.followed.length ≤ session.conn.options.maxRedirects.toNat
  going : ∀ location info, session.followed.getLast? = some location →
    session.conn.request = some info →
      GoesTo (SimpleUri.parse location).2 session.conn info ∧ Underway session.conn info

theorem GoesTo.of_unmoved {target : SimpleUri} {conn next : HttpConnection zlib}
    {info later : HttpConnectionRequestInfo zlib} (goes : GoesTo target conn info)
    (unmoved : HttpConnection.Unmoved conn next) (same : SameRequest info later) :
    GoesTo target next later where
  connectable := goes.connectable
  host := unmoved.host.trans goes.host
  port := by rw [unmoved.port, goes.port]
  resolving name looksUp := goes.resolving name (unmoved.resolving name looksUp)
  path := by rw [same.request, ← goes.path]
  header := by rw [same.request, goes.header]
  sent := by rw [unmoved.sent, same.headerSend, same.request, goes.sent]
  written isOpen := same.headerSend.trans (goes.written (unmoved.connected isOpen))

theorem Underway.of_unmoved {conn next : HttpConnection zlib}
    {info later : HttpConnectionRequestInfo zlib} (underway : Underway conn info)
    (unmoved : HttpConnection.Unmoved conn next) (same : SameRequest info later) :
    Underway next later := by
  have lookup : next.resolving ≠ none → conn.resolving ≠ none := by
    intro looksUp
    obtain ⟨name, looksUp⟩ := Option.ne_none_iff_exists'.mp looksUp
    rw [unmoved.resolving name looksUp]
    exact Option.some_ne_none name
  constructor
  · intro waits
    rw [same.headerSend]
    exact underway.unwritten (waits.imp unmoved.connecting lookup)
  · intro looksUp
    have apart := underway.apart (lookup looksUp)
    exact Bool.eq_false_iff.mpr fun connecting =>
      absurd (apart.symm.trans (unmoved.connecting connecting)) (by decide)

/-- **A request that goes on at a Location is on its way to the address.** -/
theorem goesTo_connectHost {location : Bytes} (accepted : AcceptedLocation location)
    (connectable : Connectable (SimpleUri.parse location).2) (conn : HttpConnection zlib)
    (info : HttpConnectionRequestInfo zlib) :
    GoesTo (SimpleUri.parse location).2 (conn.connectHost env (info.goOn location))
        (info.goOn location) ∧
      Underway (conn.connectHost env (info.goOn location)) (info.goOn location) := by
  have port : toUint16 (SimpleUri.parse location).2.port = (SimpleUri.parse location).2.port :=
    Int.emod_eq_of_lt connectable.assertions.port.le (by have := connectable.port.2; omega)
  have path := HttpConnectionRequestInfo.goOn_request location info
  have header := HttpConnectionRequestInfo.goOn_host connectable accepted.2 info
  simp only [HttpConnection.connectHost]
  split
  · exact ⟨⟨connectable, rfl, port, nofun, path, header, rfl, nofun⟩, fun _ => rfl, nofun⟩
  · refine ⟨⟨connectable, rfl, port, ?_, path, header, rfl, nofun⟩, fun _ => rfl, fun _ => rfl⟩
    intro name looksUp
    exact (Option.some.inj looksUp).symm

/-- The request is written when the connection is open. -/
theorem GoesTo.connected {target : SimpleUri} {conn : HttpConnection zlib}
    {info : HttpConnectionRequestInfo zlib} (goes : GoesTo target conn info)
    (underway : Underway conn info) (connecting : conn.socket.connecting = true) :
    let socket := { conn.socket with connecting := false, connected := true }
    GoesTo target ({ conn with socket }.receive.writeRequest info)
        { info with headerSend := true } ∧
      Underway ({ conn with socket }.receive.writeRequest info)
        { info with headerSend := true } := by
  have unwritten := underway.unwritten (.inl connecting)
  have nothing : conn.socket.sent = [] := by
    rw [goes.sent, unwritten]
    rfl
  have found : conn.resolving = none := by
    by_contra looksUp
    exact absurd ((underway.apart looksUp).symm.trans connecting) (by decide)
  refine ⟨⟨goes.connectable, goes.host, goes.port, goes.resolving, goes.path, goes.header, ?_,
    fun _ => rfl⟩, ?_, fun _ => rfl⟩
  · exact congrArg (· ++ [info.request.print]) nothing
  · rintro (again | looksUp)
    · cases again
    · exact absurd found looksUp

/-- **A step that can follow its redirection keeps the invariant.** -/
theorem Standing.step (standing : session.Standing) (allowed : session.CanFollow event)
    (outcome : HttpConnection.Outcome env session.conn event next) :
    Standing ⟨next, session.followedAfter next event⟩ := by
  suffices follows : (session.followedAfter next event).length ≤ next.options.maxRedirects.toNat ∧
      ∀ location info, (session.followedAfter next event).getLast? = some location →
        next.request = some info →
          GoesTo (SimpleUri.parse location).2 next info ∧ Underway next info from
    ⟨standing.toCounted.step outcome, follows.1, follows.2⟩
  obtain ⟨counted, bounded, going⟩ := standing
  cases outcome with
  | kept ordinary kept =>
      rw [followedAfter_of_ordinary ordinary]
      refine ⟨by rwa [kept.options], ?_⟩
      intro location info last pending
      obtain ⟨⟨before, was, same⟩, unmoved⟩ := kept.pending info pending
      obtain ⟨goes, underway⟩ := going location before last was
      exact ⟨goes.of_unmoved unmoved same, underway.of_unmoved unmoved same⟩
  | asked prepared =>
      rw [followedAfter, prepared, Option.isSome_some, if_pos rfl]
      exact ⟨Nat.zero_le _, fun location _ last _ => nomatch (show none = some location from last)⟩
  | resolved lookup =>
      refine ⟨bounded, ?_⟩
      intro location info last pending
      obtain ⟨goes, underway⟩ := going location info last pending
      refine ⟨⟨goes.connectable, goes.host, goes.port, nofun, goes.path, goes.header, goes.sent,
        goes.written⟩, fun _ => underway.unwritten (.inr lookup), fun looksUp => absurd rfl looksUp⟩
  | @connected info connecting pending =>
      refine ⟨bounded, ?_⟩
      intro location last final written
      obtain ⟨goes, underway⟩ := going location info final pending
      cases written
      exact goes.connected underway connecting
  | @redirected data location info pending redirected inTime accepted =>
      rw [followedAfter_of_redirection pending redirected, connectHost_request, Option.isSome_some,
        if_pos rfl]
      have count := counted.times info pending
      have limit : 0 ≤ session.conn.options.maxRedirects := by
        rw [count] at inTime
        exact (Int.natCast_nonneg _).trans inTime
      have redirection : session.conn.redirection data = some location := by
        rw [HttpConnection.redirection, pending, Option.bind_some, redirected]
      obtain ⟨room, names⟩ := allowed data location rfl redirection accepted limit
      constructor
      · rw [connectHost_options, List.length_append, List.length_singleton]
        exact (Int.le_toNat limit).mpr room
      · intro last sent final goesOn
        rw [List.getLast?_concat] at final
        cases final
        cases goesOn
        exact goesTo_connectHost accepted ((connectable_location_iff location).mpr names) _ _
  | refused pending redirected refused options dropped =>
      rw [followedAfter_of_redirection pending redirected, dropped, Option.isSome_none,
        if_neg Bool.false_ne_true]
      refine ⟨by rwa [options], ?_⟩
      intro location last final remains
      cases remains

end RedirectSession

end Xul
