import Xul.Foundation.Logs
import Xul.Net.Http.HttpServer

/-!
# The life of a request on its connection

Requests are dispatched by what is received and finished by what has been sent, and the
two advance independently over one handler, one session and one counter.  A run of a
connection interleaves them in any order, with errors and with what the handlers call of
their own accord; a read is served turn by turn, and nothing else happens before its last
turn.

The law of the connection is a property of the log (`SessionLifecycle`): each entry is
allowed by those before it.  It is kept exactly by the runs in which a header is only
completed when no request is being handled, and not after the last request that the
connection may serve (`sessionLifecycle_iff`).
-/

set_option autoImplicit false

namespace Xul

open Foundation

/-! ## What the log says -/

/-- The handlers that a request was dispatched to, in order. -/
def dispatchedHandlers (log : List LogEntry) : List Nat :=
  log.filterMap fun entry =>
    match entry with
    | .told handler (.handleRequest _) => some handler
    | _ => none

/-- The handlers whose request is finished. -/
def finishedHandlers (log : List LogEntry) : List Nat :=
  log.filterMap fun entry =>
    match entry with
    | .told handler .handleRequestFinished => some handler
    | _ => none

/-- The handlers that got a terminal notification. -/
def endedHandlers (log : List LogEntry) : List Nat :=
  log.filterMap fun entry =>
    match entry with
    | .told handler .handleRequestFinished => some handler
    | .told handler (.handleError _) => some handler
    | _ => none

/-- The handlers that called `finish` on their session. -/
def finishers (log : List LogEntry) : List Nat :=
  log.filterMap fun entry =>
    match entry with
    | .called handler .finish => some handler
    | _ => none

/-- The request that is being handled is the one of the handler. -/
def HandlesOwn (log : List LogEntry) (handler : Nat) : Prop :=
  (dispatchedHandlers log).getLast? = some handler ∧ handler ∉ endedHandlers log

/-- What the log before an entry has to say for the entry to be allowed. -/
def AllowedAfter (options : HttpServerOptions) (before : List LogEntry) : LogEntry → Prop
  | .told _ (.handleRequest _) =>
      (∀ earlier ∈ dispatchedHandlers before, earlier ∈ finishedHandlers before) ∧
        ((dispatchedHandlers before).length : Int) < options.maxKeepAliveRequests
  | .told handler .handleRequestFinished =>
      HandlesOwn before handler ∧ handler ∈ finishers before
  | .told handler _ => HandlesOwn before handler
  | .called _ _ => True

/-- **The law of a connection.**  A request is dispatched when all earlier ones are
finished, and not more of them than the options allow; a handler is told of nothing but
its own request, and of its end only once; and that the request is finished it is told
only after it finished it. -/
structure SessionLifecycle (options : HttpServerOptions) (log : List LogEntry) : Prop where
  allowed : EachAllowed (AllowedAfter options) log
  once : (endedHandlers log).Nodup
  bounded : ((dispatchedHandlers log).length : Int) ≤ options.maxKeepAliveRequests

/-! ### Entries that are added -/

section Entries

variable (log : List LogEntry) (handler : Nat)

theorem dispatchedHandlers_append (more : List LogEntry) :
    dispatchedHandlers (log ++ more) = dispatchedHandlers log ++ dispatchedHandlers more :=
  List.filterMap_append

theorem finishedHandlers_append (more : List LogEntry) :
    finishedHandlers (log ++ more) = finishedHandlers log ++ finishedHandlers more :=
  List.filterMap_append

theorem endedHandlers_append (more : List LogEntry) :
    endedHandlers (log ++ more) = endedHandlers log ++ endedHandlers more := List.filterMap_append

theorem finishers_append (more : List LogEntry) :
    finishers (log ++ more) = finishers log ++ finishers more := List.filterMap_append

/-- A call of a handler is told to nobody. -/
theorem called_silent (calls : List SessionCall) :
    let entries := calls.map fun call => LogEntry.called handler call
    dispatchedHandlers entries = [] ∧ finishedHandlers entries = [] ∧ endedHandlers entries = [] := by
  refine ⟨?_, ?_, ?_⟩
  all_goals
    refine List.filterMap_eq_nil_iff.mpr ?_
    intro entry member
    obtain ⟨call, _, rfl⟩ := List.mem_map.mp member
    rfl

theorem mem_finishers_called {calls : List SessionCall} (finishes : SessionCall.finish ∈ calls) :
    handler ∈ finishers (calls.map fun call => LogEntry.called handler call) :=
  List.mem_filterMap.mpr ⟨_, List.mem_map_of_mem finishes, rfl⟩

end Entries

/-- A finished request has ended. -/
theorem mem_ended_of_finished {log : List LogEntry} {handler : Nat}
    (finished : handler ∈ finishedHandlers log) : handler ∈ endedHandlers log := by
  obtain ⟨entry, member, reads⟩ := List.mem_filterMap.mp finished
  refine List.mem_filterMap.mpr ⟨entry, member, ?_⟩
  split at reads
  · exact reads
  · cases reads

/-- The whole law follows from what it says of each entry. -/
theorem sessionLifecycle_of_allowed {options : HttpServerOptions} {log : List LogEntry}
    (allowed : EachAllowed (AllowedAfter options) log) : SessionLifecycle options log := by
  induction log using List.reverseRecOn with
  | nil =>
      refine ⟨allowed, List.nodup_nil, ?_⟩
      have keeps := options.keepsAlive
      simp only [dispatchedHandlers, List.filterMap_nil, List.length_nil]
      omega
  | append_singleton log entry ih =>
      obtain ⟨earlier, last⟩ := eachAllowed_snoc_iff.mp allowed
      have before := ih earlier
      refine ⟨allowed, ?_, ?_⟩
      · rw [endedHandlers_append]
        cases entry with
        | called handler call => simpa [endedHandlers] using before.once
        | told handler call =>
            cases call with
            | handleRequestFinished =>
                have once := before.once.concat last.1.2
                rwa [List.concat_eq_append] at once
            | handleError errcode =>
                have once := before.once.concat last.2
                rwa [List.concat_eq_append] at once
            | _ => simpa [endedHandlers] using before.once
      · rw [dispatchedHandlers_append, List.length_append]
        cases entry with
        | called handler call => simpa [dispatchedHandlers] using before.bounded
        | told handler call =>
            cases call with
            | handleRequest request =>
                have room := last.2
                simp only [dispatchedHandlers, List.filterMap_cons, List.filterMap_nil,
                  List.length_cons, List.length_nil] at room ⊢
                omega
            | _ => simpa [dispatchedHandlers] using before.bounded

/-- While a request is handled, all that were dispatchedHandlers before it are finished. -/
theorem SessionLifecycle.finished {options : HttpServerOptions} {log : List LogEntry}
    (lifecycle : SessionLifecycle options log) {earlier : List Nat} {last : Nat}
    (dispatches : dispatchedHandlers log = earlier ++ [last]) :
    ∀ handler ∈ earlier, handler ∈ finishedHandlers log := by
  intro handler member
  obtain ⟨first, second, rfl, rfl, lasts⟩ := List.filterMap_eq_append_iff.mp dispatches
  obtain ⟨silent, entry, after, rfl, nothing, dispatching, -⟩ := List.filterMap_eq_cons_iff.mp lasts
  have allowed := lifecycle.allowed (first ++ silent) entry after
    (by rw [List.append_assoc])
  split at dispatching
  · have before := allowed.1 handler (by
      rw [dispatchedHandlers_append]
      exact List.mem_append_left _ member)
    rw [← List.append_assoc, finishedHandlers_append]
    exact List.mem_append_left _ before
  · cases dispatching

/-! ## Runs of a connection -/

/-- What happens to a connection.  `turn` is the next turn of the read that is served. -/
inductive ServerEvent where
  | received (data : Bytes)
  | turn
  | receiveFailed (errcode : Int)
  | sent (buf : SendBuffer)
  | sendFailed (buf : SendBuffer) (errcode : Int)
  | acts (handler : Nat) (calls : List SessionCall)

/-- A client with what is left of its read. -/
structure HttpServerRun where
  client : HttpServerClient
  left : HttpServerClient.Turn

namespace HttpServerRun

open HttpServerClient

def start (options : HttpServerOptions) (connection : SocketRun) : HttpServerRun :=
  ⟨(create options connection).start, .stop⟩

/-- Nothing is left of the last read, and the client has not been dropped. -/
def waiting (run : HttpServerRun) : Bool :=
  match run.left with
  | .stop => !run.client.erased
  | _ => false

/-- The socket answers, before its listener hears of it. -/
def hears (client : HttpServerClient) (event : SocketEvent) : Option HttpServerClient :=
  (SocketRun.step client.session.connection event).map fun connection =>
    { client with session := { client.session with connection } }

/-- A read goes to the header or to the body. -/
def firstTurn (client : HttpServerClient) (data : Bytes) : Turn :=
  if client.receivingHeader then .headerData data else .bodyData data

/-- What a listener does with a completion that the socket reports. -/
def onCompletion (run : HttpServerRun) (event : SocketEvent)
    (listener : HttpServerClient → HttpServerRun) : Option HttpServerRun :=
  if run.waiting then (hears run.client event).map listener else none

def step (router : HttpServerRouter) (run : HttpServerRun) : ServerEvent → Option HttpServerRun
  | .received data =>
      if data ≠ [] ∧ data.length ≤ run.client.options.receiveBufferSize then
        run.onCompletion (.receiveCompleted 0) fun client => ⟨client.fresh, firstTurn client data⟩
      else none
  | .turn =>
      match run.left with
      | .stop => none
      | left => some ⟨(run.client.turn router left).1, (run.client.turn router left).2⟩
  | .receiveFailed errcode =>
      if errcode = 0 then none
      else run.onCompletion (.receiveCompleted errcode) fun client =>
        ⟨client.onSocketReceiveFailed router errcode, .stop⟩
  | .sent buf =>
      -- a completion that finds the sending queue empty is not reported
      if run.client.session.connection.socket.sendingQueue = [] then
        run.onCompletion (.writeCompleted buf 0) fun client => ⟨client, .stop⟩
      else run.onCompletion (.writeCompleted buf 0) fun client =>
        ⟨client.onSocketSend router buf.bytes.length, .stop⟩
  | .sendFailed buf errcode =>
      if errcode = 0 then none
      else run.onCompletion (.writeCompleted buf errcode) fun client =>
        ⟨client.onSocketSendFailed router errcode, .stop⟩
  | .acts handler calls =>
      -- a handler may call its session from its request to its end
      if run.waiting ∧ handler ∈ dispatchedHandlers run.client.log ∧
          handler ∉ endedHandlers run.client.log then
        some ⟨run.client.act ⟨handler, false⟩ calls, .stop⟩
      else none

theorem step_turn (router : HttpServerRouter) (client : HttpServerClient) {left : Turn}
    (more : left ≠ .stop) :
    step router ⟨client, left⟩ .turn =
      some ⟨(client.turn router left).1, (client.turn router left).2⟩ := by
  cases left with
  | stop => exact absurd rfl more
  | headerData data => rfl
  | bodyData data => rfl

/-- A read that is served to its last turn is served as `on_socket_receive` serves it. -/
theorem runFrom_turns (router : HttpServerRouter) (client : HttpServerClient) (left : Turn) :
    ∃ turns, runFrom (step router) ⟨client, left⟩ (List.replicate turns .turn) =
      some ⟨client.serve router left, .stop⟩ := by
  generalize enough : turns client left = fuel
  induction fuel using Nat.strong_induction_on generalizing client left with
  | _ fuel ih =>
    by_cases stops : left = .stop
    · subst stops
      exact ⟨0, rfl⟩
    · have fewer := turn_turns router client stops
      obtain ⟨turns, reached⟩ := ih _ (fewer.trans_eq enough) _ _ rfl
      refine ⟨turns + 1, ?_⟩
      rw [List.replicate_succ, runFrom, step_turn router client stops, Option.bind_some, reached,
        ← serve_eq_turn]

/-- What a read is for `on_socket_receive`, it is turn by turn. -/
theorem runFrom_onSocketReceive (router : HttpServerRouter) (client : HttpServerClient)
    (data : Bytes) :
    ∃ turns, runFrom (step router) ⟨client.fresh, firstTurn client data⟩
        (List.replicate turns .turn) = some ⟨client.onSocketReceive router data, .stop⟩ := by
  rw [firstTurn, onSocketReceive]
  split
  · exact runFrom_turns router client.fresh (.headerData data)
  · exact runFrom_turns router client.fresh (.bodyData data)

end HttpServerRun

/-! ## What a connection keeps -/

namespace HttpServerClient

/-- What holds of a client that has not been dropped: its counter counts the dispatched
requests, all of them are finished but the one that its handler handles, and once the
last request it may serve is finished the connection is closed. -/
structure Steady (options : HttpServerOptions) (log : List LogEntry) (handledRequests : Nat)
    (handler : Option UrlHandler) (finished isOpen : Bool) : Prop where
  allowed : EachAllowed (AllowedAfter options) log
  count : (dispatchedHandlers log).length = handledRequests
  fresh : ∀ index ∈ dispatchedHandlers log, index < handledRequests
  started : ∀ index ∈ endedHandlers log, index ∈ dispatchedHandlers log
  served : ∀ index ∈ dispatchedHandlers log,
    index ∈ finishedHandlers log ∨ ∃ own, handler = some own ∧ own.index = index
  current : ∀ own, handler = some own →
    HandlesOwn log own.index ∧ (finished = true → own.index ∈ finishers log)
  room : handler = none → isOpen = true → (handledRequests : Int) < options.maxKeepAliveRequests

def Alive (client : HttpServerClient) : Prop :=
  Steady client.options client.log client.handledRequests client.handler client.session.finished
    client.isOpen

/-- **A dispatched request keeps its handler**, and with it the session, until it is
finished or the client is dropped. -/
def KeepsHandler (client : HttpServerClient) : Prop :=
  client.erased = false → ∀ index ∈ dispatchedHandlers client.log,
    index ∈ finishedHandlers client.log ∨ ∃ own, client.handler = some own ∧ own.index = index

theorem HandlesOwn.mem_dispatched {log : List LogEntry} {handler : Nat}
    (own : HandlesOwn log handler) : handler ∈ dispatchedHandlers log :=
  List.mem_of_getLast? own.1

section Steady

variable {options : HttpServerOptions} {log : List LogEntry} {handledRequests : Nat}
  {handler : Option UrlHandler} {finished isOpen : Bool}

/-- Entries that neither dispatch nor end a request are added. -/
theorem Steady.append {more : List LogEntry} {finishedNow isOpenNow : Bool}
    (steady : Steady options log handledRequests handler finished isOpen)
    (silent : dispatchedHandlers more = [] ∧ finishedHandlers more = [] ∧ endedHandlers more = [])
    (allowed : EachAllowed (AllowedAfter options) (log ++ more))
    (finishes : ∀ own, handler = some own → finishedNow = true →
      finished = true ∨ own.index ∈ finishers more)
    (closes : isOpenNow = true → isOpen = true) :
    Steady options (log ++ more) handledRequests handler finishedNow isOpenNow := by
  obtain ⟨noDispatch, noFinish, noEnd⟩ := silent
  have sameDispatched : dispatchedHandlers (log ++ more) = dispatchedHandlers log := by
    rw [dispatchedHandlers_append, noDispatch, List.append_nil]
  have sameFinished : finishedHandlers (log ++ more) = finishedHandlers log := by
    rw [finishedHandlers_append, noFinish, List.append_nil]
  have sameEnded : endedHandlers (log ++ more) = endedHandlers log := by
    rw [endedHandlers_append, noEnd, List.append_nil]
  constructor
  · exact allowed
  · rw [sameDispatched]
    exact steady.count
  · rw [sameDispatched]
    exact steady.fresh
  · rw [sameDispatched, sameEnded]
    exact steady.started
  · rw [sameDispatched, sameFinished]
    exact steady.served
  · intro own handled
    obtain ⟨handlesOwn, finisher⟩ := steady.current own handled
    constructor
    · rw [HandlesOwn, sameDispatched, sameEnded]
      exact handlesOwn
    · intro now
      rw [finishers_append, List.mem_append]
      exact (finishes own handled now).imp_left finisher
  · exact fun noHandler open_ => steady.room noHandler (closes open_)

theorem Steady.closes {isOpenNow : Bool}
    (steady : Steady options log handledRequests handler finished isOpen)
    (closes : isOpenNow = true → isOpen = true) :
    Steady options log handledRequests handler finished isOpenNow :=
  { steady with room := fun noHandler open_ => steady.room noHandler (closes open_) }

/-- A request is dispatched when no other is being handled. -/
theorem Steady.dispatch (steady : Steady options log handledRequests none finished isOpen)
    (room : isOpen = true ∨ (handledRequests : Int) < options.maxKeepAliveRequests)
    (request : HttpRequest) (notFound : Bool) :
    Steady options (log ++ [.told handledRequests (.handleRequest request)])
      (handledRequests + 1) (some ⟨handledRequests, notFound⟩) false isOpen := by
  have allServed : ∀ index ∈ dispatchedHandlers log, index ∈ finishedHandlers log := by
    intro index member
    refine (steady.served index member).resolve_right ?_
    rintro ⟨own, handled, -⟩
    cases handled
  have isNew : handledRequests ∉ endedHandlers log := fun member =>
    lt_irrefl _ (steady.fresh _ (steady.started _ member))
  have newDispatched : dispatchedHandlers (log ++ [.told handledRequests (.handleRequest request)]) =
      dispatchedHandlers log ++ [handledRequests] := dispatchedHandlers_append log _
  have sameEnded : endedHandlers (log ++ [.told handledRequests (.handleRequest request)]) =
      endedHandlers log := (endedHandlers_append log _).trans (List.append_nil _)
  constructor
  · refine eachAllowed_snoc_iff.mpr ⟨steady.allowed, allServed, ?_⟩
    rw [steady.count]
    exact room.elim (steady.room rfl) id
  · rw [newDispatched, List.length_append, steady.count]
    rfl
  · intro index member
    rw [newDispatched, List.mem_append, List.mem_singleton] at member
    rcases member with earlier | rfl
    · exact Nat.lt_succ_of_lt (steady.fresh index earlier)
    · exact Nat.lt_succ_self _
  · intro index member
    rw [sameEnded] at member
    rw [newDispatched]
    exact List.mem_append_left _ (steady.started index member)
  · intro index member
    rw [newDispatched, List.mem_append, List.mem_singleton] at member
    rcases member with earlier | rfl
    · rw [finishedHandlers_append]
      exact Or.inl (List.mem_append_left _ (allServed index earlier))
    · exact Or.inr ⟨_, rfl, rfl⟩
  · intro own handled
    cases handled
    refine ⟨⟨?_, ?_⟩, fun finished => absurd finished (by simp)⟩
    · rw [newDispatched, List.getLast?_concat]
    · rw [sameEnded]
      exact isNew
  · exact fun noHandler => absurd noHandler (by simp)

/-- A request that its handler finished is over. -/
theorem Steady.finish {own : UrlHandler} {isOpenNow : Bool}
    (steady : Steady options log handledRequests (some own) true isOpen)
    (room : isOpenNow = true → (handledRequests : Int) < options.maxKeepAliveRequests) :
    Steady options (log ++ [.told own.index .handleRequestFinished]) handledRequests none true
      isOpenNow := by
  obtain ⟨handlesOwn, finisher⟩ := steady.current own rfl
  have sameDispatched : dispatchedHandlers (log ++ [.told own.index .handleRequestFinished]) =
      dispatchedHandlers log := (dispatchedHandlers_append log _).trans (List.append_nil _)
  constructor
  · exact eachAllowed_snoc_iff.mpr ⟨steady.allowed, handlesOwn, finisher rfl⟩
  · rw [sameDispatched]
    exact steady.count
  · rw [sameDispatched]
    exact steady.fresh
  · intro index member
    rw [endedHandlers_append, List.mem_append] at member
    rw [sameDispatched]
    rcases member with earlier | last
    · exact steady.started index earlier
    · rw [List.mem_singleton.mp last]
      exact HandlesOwn.mem_dispatched handlesOwn
  · intro index member
    rw [sameDispatched] at member
    rw [finishedHandlers_append, List.mem_append]
    rcases steady.served index member with earlier | ⟨_, handled, rfl⟩
    · exact Or.inl (Or.inl earlier)
    · cases handled
      exact Or.inl (Or.inr (List.mem_singleton.mpr rfl))
  · exact fun _ handled => absurd handled (by simp)
  · exact fun _ => room

end Steady

/-! ### What the functions of a client keep -/

variable {client : HttpServerClient}

theorem allowed_called {options : HttpServerOptions} {log : List LogEntry}
    (allowed : EachAllowed (AllowedAfter options) log) (handler : Nat) (calls : List SessionCall) :
    EachAllowed (AllowedAfter options)
      (log ++ calls.map fun call => LogEntry.called handler call) := by
  refine allowed.append ?_
  intro entry member before
  obtain ⟨call, _, rfl⟩ := List.mem_map.mp member
  trivial

theorem Alive.act (alive : client.Alive) {handler : UrlHandler}
    (handles : ∀ own, client.handler = some own → own.index = handler.index)
    (calls : List SessionCall) : (client.act handler calls).Alive := by
  have leaves := UrlSession.leaves_performAll client.session calls
  refine Steady.append alive (called_silent handler.index calls)
    (allowed_called alive.allowed handler.index calls) ?_ leaves.isOpen
  intro own handled finished
  rw [handles own handled]
  exact (leaves.finished finished).imp_right (mem_finishers_called handler.index)

/-- The handler of the request that is handled is told of a part of it. -/
theorem Alive.tell (alive : client.Alive) (router : HttpServerRouter) {handler : UrlHandler}
    {call : HandlerCall} (handled : client.handler = some handler)
    (silent : dispatchedHandlers [.told handler.index call] = [] ∧
      finishedHandlers [.told handler.index call] = [] ∧
      endedHandlers [.told handler.index call] = [])
    (allowed : HandlesOwn client.log handler.index →
      AllowedAfter client.options client.log (.told handler.index call)) :
    (client.tell router handler call).Alive := by
  have own := (alive.current handler handled).1
  have told : Alive { client with log := client.log ++ [LogEntry.told handler.index call] } :=
    Steady.append alive silent (eachAllowed_snoc_iff.mpr ⟨alive.allowed, allowed own⟩)
      (fun _ _ => Or.inl) id
  refine told.act ?_ _
  intro other same
  rw [handled] at same
  cases same
  rfl

theorem Alive.handleRequest (alive : client.Alive) (router : HttpServerRouter)
    (idle : client.handler = none)
    (room : client.isOpen = true ∨
      (client.handledRequests : Int) < client.options.maxKeepAliveRequests)
    (request : HttpRequest) : (client.handleRequest router request).Alive := by
  rw [Alive, idle] at alive
  have dispatched : Alive { client with
      handledRequests := client.handledRequests + 1
      session := client.session.reset
      handler := some ⟨client.handledRequests,
        !router.createUrlHandler client.session.reset client.log request⟩
      log := client.log ++ [LogEntry.told client.handledRequests (.handleRequest request)] } :=
    alive.dispatch room request _
  refine dispatched.act ?_ _
  intro own handled
  cases handled
  rfl

theorem closeSocket_isOpen (client : HttpServerClient) : client.closeSocket.isOpen = false := rfl

theorem Alive.receiveNext (alive : client.Alive) : client.receiveNext.Alive := by
  rw [HttpServerClient.receiveNext]
  split
  · exact Steady.closes alive (SocketRun.isOpen_of_advance (by simp))
  · exact alive

/-- Dropping a client leaves the law as it is. -/
def Sound (run : HttpServerRun) : Prop :=
  run.client.Alive ∨ (run.client.erased = true ∧ run.left = .stop ∧
    EachAllowed (AllowedAfter run.client.options) run.client.log)

theorem sound_handleError {client : HttpServerClient}
    (allowed : EachAllowed (AllowedAfter client.options) client.log) :
    Sound ⟨client.handleError, .stop⟩ :=
  Or.inr ⟨rfl, rfl, allowed⟩

/-- The data begins with a whole header. -/
def completesHeader (data : Bytes) : Bool :=
  match HttpMessage.findHeaderEnd data with
  | some pos => (parseRequest data (pos + 4)).isSome
  | none => false

/-- No request is being handled, and either the connection is still open or it may serve
another request. -/
def MayDispatch (client : HttpServerClient) : Prop :=
  client.handler.isNone = true ∧ (client.isOpen = true ∨
    (client.handledRequests : Int) < client.options.maxKeepAliveRequests)

theorem sound_parseHeaderData (router : HttpServerRouter) {data : Bytes} (alive : client.Alive)
    (mayDispatch : completesHeader data = true → client.MayDispatch) :
    Sound ⟨(client.parseHeaderData router data).1, (client.parseHeaderData router data).2⟩ := by
  rw [completesHeader] at mayDispatch
  rw [parseHeaderData]
  cases found : HttpMessage.findHeaderEnd data with
  | none =>
      simp only
      split
      · exact sound_handleError alive.allowed
      · split
        · exact Or.inl (Steady.closes alive (SocketRun.isOpen_of_advance (by simp)))
        · exact Or.inl (Steady.closes alive (SocketRun.isOpen_of_advance (by simp)))
  | some pos =>
      simp only [found] at mayDispatch ⊢
      cases parsed : parseRequest data (pos + 4) with
      | none => exact sound_handleError alive.allowed
      | some request =>
          obtain ⟨idle, room⟩ := mayDispatch (by rw [parsed]; rfl)
          have handled : Alive ({ client with
              receivingHeader := false
              contentLength := getContentLength request.message.headers
              currentRequest := some request }.handleRequest router request) :=
            @Alive.handleRequest { client with
              receivingHeader := false
              contentLength := getContentLength request.message.headers
              currentRequest := some request } alive router (Option.isNone_iff_eq_none.mp idle)
              room request
          simp only
          split
          · split
            · exact Or.inl handled
            · exact Or.inl handled
          · exact Or.inl handled.receiveNext

theorem sound_handleBodyData (router : HttpServerRouter) (data : Bytes) (alive : client.Alive) :
    Sound ⟨(client.handleBodyData router data).1, (client.handleBodyData router data).2⟩ := by
  rw [handleBodyData]
  split
  · next handler _ handled =>
      simp only
      generalize toInt (min (client.contentLength - client.receivedBodySize) data.length) = size
      have told : Alive ({ client with receivedBodySize := client.receivedBodySize + size }.tell
          router handler (.handleBodyData (data.take size.toNat) size)) :=
        @Alive.tell { client with receivedBodySize := client.receivedBodySize + size } alive
          router handler _ handled ⟨rfl, rfl, rfl⟩ id
      split
      · exact Or.inl told
      · split
        · exact Or.inl (@Alive.receiveNext (resetState _) told)
        · exact Or.inl told.receiveNext
  · exact sound_handleError alive.allowed

/-- What a client says when its socket fails is the last it says. -/
theorem sound_onSocketReceiveFailed (router : HttpServerRouter) (errcode : Int)
    (alive : client.Alive) : Sound ⟨client.onSocketReceiveFailed router errcode, .stop⟩ := by
  rw [onSocketReceiveFailed]
  simp only
  split
  · next handler handled =>
      have own := (alive.current handler handled).1
      have told : EachAllowed (AllowedAfter client.options)
          (client.log ++ [LogEntry.told handler.index (.handleError errcode)]) :=
        eachAllowed_snoc_iff.mpr ⟨alive.allowed, own⟩
      exact Or.inr ⟨rfl, rfl, allowed_called told handler.index _⟩
  · exact Or.inr ⟨rfl, rfl, alive.allowed⟩

theorem Alive.finish (alive : client.Alive) (router : HttpServerRouter) {handler : UrlHandler}
    (handled : client.handler = some handler) (finished : client.session.finished = true)
    (room : client.isOpen = true →
      (client.handledRequests : Int) < client.options.maxKeepAliveRequests) :
    Alive { client.tell router handler .handleRequestFinished with handler := none } := by
  rw [Alive, handled, finished] at alive
  have ends : Steady client.options
      (client.log ++ [LogEntry.told handler.index .handleRequestFinished])
      client.handledRequests none client.session.finished client.isOpen := by
    rw [finished]
    exact alive.finish room
  have silent : Alive { client with
      log := client.log ++ [LogEntry.told handler.index .handleRequestFinished]
      handler := none } := ends
  exact silent.act (fun own none => absurd none (by simp)) _

theorem Alive.onSocketSend (alive : client.Alive) (router : HttpServerRouter) (bytes : Nat) :
    (client.onSocketSend router bytes).Alive := by
  rw [HttpServerClient.onSocketSend]
  split
  · exact alive
  · next handler handled =>
      have told : (client.tell router handler (.handleDataSent bytes)).Alive :=
        alive.tell router handled ⟨rfl, rfl, rfl⟩ id
      have stillHandled :
          (client.tell router handler (.handleDataSent bytes)).handler = some handler := handled
      generalize client.tell router handler (.handleDataSent bytes) = answered at told stillHandled
      simp only
      split
      · next finishes =>
          split
          · -- the connection is closed, and the client serves nothing any more
            refine @Alive.finish answered.closeSocket ?_ router handler stillHandled finishes.1 ?_
            · exact Steady.closes told (SocketRun.isOpen_of_advance (by simp))
            · exact fun isOpen => absurd isOpen (by rw [closeSocket_isOpen]; decide)
          · next keeps =>
              refine @Alive.finish answered.resetState told router handler stillHandled finishes.1 ?_
              intro _
              exact lt_of_not_ge fun last => keeps (Or.inr last)
      · exact told

/-! ### The steps of a run -/

open HttpServerRun in
theorem alive_hears {next : HttpServerClient} {event : SocketEvent} (alive : client.Alive)
    (noConnect : event ≠ .connect) (heard : hears client event = some next) : next.Alive := by
  obtain ⟨connection, happens, rfl⟩ := Option.map_eq_some_iff.mp heard
  exact Steady.closes alive (SocketRun.isOpen_of_step happens noConnect)

end HttpServerClient

namespace HttpServerRun

open HttpServerClient

/-- A header is only completed when the client may dispatch its request. -/
def DispatchesIdle (run : HttpServerRun) : ServerEvent → Prop
  | .turn =>
      match run.left with
      | .headerData data =>
          completesHeader (run.client.headerBuffer ++ data) = true → run.client.MayDispatch
      | _ => True
  | _ => True

theorem alive_of_waiting {run : HttpServerRun} (sound : Sound run) (waiting : run.waiting = true) :
    run.client.Alive := by
  refine sound.resolve_right ?_
  rintro ⟨erased, left, -⟩
  rw [HttpServerRun.waiting, left, erased] at waiting
  cases waiting

theorem sound_onCompletion {run next : HttpServerRun} {event : SocketEvent}
    {listener : HttpServerClient → HttpServerRun} (sound : Sound run) (noConnect : event ≠ .connect)
    (happens : run.onCompletion event listener = some next)
    (listens : ∀ client : HttpServerClient, client.Alive → Sound (listener client)) :
    Sound next := by
  rw [onCompletion] at happens
  split at happens
  · next waiting =>
      obtain ⟨client, heard, rfl⟩ := Option.map_eq_some_iff.mp happens
      exact listens client (alive_hears (alive_of_waiting sound waiting) noConnect heard)
  · cases happens

theorem sound_step (router : HttpServerRouter) (run : HttpServerRun) (event : ServerEvent)
    (next : HttpServerRun) (sound : Sound run) (idle : run.DispatchesIdle event)
    (happens : step router run event = some next) : Sound next := by
  cases event with
  | received data =>
      simp only [step] at happens
      split at happens
      · exact sound_onCompletion sound (by simp) happens fun client alive => Or.inl alive
      · cases happens
  | turn =>
      obtain ⟨client, left⟩ := run
      cases left with
      | stop => cases happens
      | headerData data =>
          cases happens
          have alive : client.Alive := sound.resolve_right fun ⟨_, left, _⟩ => by cases left
          rw [turn_headerData]
          exact @sound_parseHeaderData (client.buffered data) router _ alive idle
      | bodyData data =>
          cases happens
          have alive : client.Alive := sound.resolve_right fun ⟨_, left, _⟩ => by cases left
          exact sound_handleBodyData router data alive
  | receiveFailed errcode =>
      simp only [step] at happens
      split at happens
      · cases happens
      · exact sound_onCompletion sound (by simp) happens fun client alive =>
          sound_onSocketReceiveFailed router errcode alive
  | sent buf =>
      simp only [step] at happens
      split at happens
      · exact sound_onCompletion sound (by simp) happens fun client alive => Or.inl alive
      · exact sound_onCompletion sound (by simp) happens fun client alive =>
          Or.inl (alive.onSocketSend router buf.bytes.length)
  | sendFailed buf errcode =>
      simp only [step] at happens
      split at happens
      · cases happens
      · exact sound_onCompletion sound (by simp) happens fun client alive =>
          sound_onSocketReceiveFailed router errcode alive
  | acts handler calls =>
      simp only [step] at happens
      split at happens
      · next may =>
          cases happens
          have alive := alive_of_waiting sound may.1
          refine Or.inl (alive.act ?_ calls)
          intro own handled
          rcases alive.served handler may.2.1 with finished | ⟨other, same, rfl⟩
          · exact absurd (mem_ended_of_finished finished) may.2.2
          · rw [handled] at same
            cases same
            rfl
      · cases happens

theorem sound_start (options : HttpServerOptions) (connection : SocketRun) :
    Sound (start options connection) := by
  refine Or.inl ⟨eachAllowed_nil, rfl, ?_, ?_, ?_, ?_, ?_⟩
  · exact fun _ member => absurd member List.not_mem_nil
  · exact fun _ member => absurd member List.not_mem_nil
  · exact fun _ member => absurd member List.not_mem_nil
  · exact fun _ handled => absurd handled (by simp [start, create, HttpServerClient.start, receive])
  · intro _ _
    exact Int.lt_of_lt_of_le Int.zero_lt_one options.keepsAlive

theorem parseHeaderData_options (router : HttpServerRouter) (client : HttpServerClient)
    (data : Bytes) : (client.parseHeaderData router data).1.options = client.options := by
  rw [parseHeaderData]
  split
  · split
    · rfl
    · split <;> rfl
  · simp only
    split
    · rfl
    · split
      · split <;> rfl
      · rw [receiveNext]
        split <;> rfl

/-- The request of a completed header is dispatched. -/
theorem dispatch_prefix_parseHeaderData (router : HttpServerRouter) (client : HttpServerClient)
    {data : Bytes} (completes : completesHeader data = true) :
    ∃ request, client.log ++ [LogEntry.told client.handledRequests (.handleRequest request)] <+:
      (client.parseHeaderData router data).1.log := by
  rw [completesHeader] at completes
  rw [parseHeaderData]
  split at completes
  · next pos found =>
      obtain ⟨request, parsed⟩ := Option.isSome_iff_exists.mp completes
      refine ⟨request, ?_⟩
      simp only [found, parsed]
      split
      · split <;> exact List.prefix_append _ _
      · rw [receiveNext_log]
        exact List.prefix_append _ _
  · cases completes

/-- What a client may not dispatch, the law does not allow it to dispatch. -/
theorem mayDispatch_of_lifecycle {client : HttpServerClient} {log : List LogEntry}
    {request : HttpRequest} (alive : client.Alive)
    (dispatches : client.log ++ [LogEntry.told client.handledRequests (.handleRequest request)] <+:
      log) (lifecycle : SessionLifecycle client.options log) : client.MayDispatch := by
  obtain ⟨allServed, room⟩ :=
    (eachAllowed_snoc_iff.mp (lifecycle.allowed.of_isPrefix dispatches)).2
  refine ⟨?_, Or.inr ?_⟩
  · cases handled : client.handler with
    | none => rfl
    | some own =>
        have current := (alive.current own handled).1
        have finished := allServed _ (HandlesOwn.mem_dispatched current)
        exact absurd (mem_ended_of_finished finished) current.2
  · rwa [alive.count] at room

theorem not_lifecycle_of_unguarded (router : HttpServerRouter) (run : HttpServerRun)
    (event : ServerEvent) (next : HttpServerRun) (sound : Sound run)
    (busy : ¬ run.DispatchesIdle event) (happens : step router run event = some next) :
    ¬ SessionLifecycle next.client.options next.client.log := by
  intro lifecycle
  obtain ⟨client, left⟩ := run
  cases event with
  | turn =>
      cases left with
      | headerData data =>
          obtain ⟨completes, mayNot⟩ := Classical.not_imp.mp busy
          have alive : client.Alive := sound.resolve_right fun ⟨_, left, _⟩ => by cases left
          cases happens
          obtain ⟨request, dispatches⟩ :=
            dispatch_prefix_parseHeaderData router (client.buffered data) completes
          rw [turn_headerData, parseHeaderData_options] at lifecycle
          exact mayNot (mayDispatch_of_lifecycle alive dispatches lifecycle)
      | _ => exact busy trivial
  | _ => exact busy trivial

/-- What is required of every state of a connection. -/
def Lawful (run : HttpServerRun) : Prop :=
  SessionLifecycle run.client.options run.client.log ∧ run.client.KeepsHandler

theorem lawful_of_sound (run : HttpServerRun) (sound : Sound run) : run.Lawful := by
  rcases sound with alive | ⟨erased, -, allowed⟩
  · exact ⟨sessionLifecycle_of_allowed alive.allowed, fun _ => alive.served⟩
  · refine ⟨sessionLifecycle_of_allowed allowed, ?_⟩
    intro kept
    exact absurd (erased.symm.trans kept) (by simp)

/-- **The law of a connection is kept by exactly the runs in which a header is completed
only when no request is being handled, and not after the last request.** -/
theorem sessionLifecycle_iff (router : HttpServerRouter) (options : HttpServerOptions)
    (connection : SocketRun) (events : List ServerEvent) :
    Throughout (step router) Lawful (start options connection) events ↔
      Guarded (step router) DispatchesIdle (start options connection) events :=
  @throughout_iff_guarded _ _ _ Sound _ _ lawful_of_sound (sound_step router)
    (fun run event next sound busy happens lawful =>
      not_lifecycle_of_unguarded router run event next sound busy happens lawful.1)
    _ _ (sound_start options connection)

/-- The second of two requests that arrive in one read replaces the handler of the
first, which is still to answer. -/
theorem pipelined_replaces_handler :
    ¬ ∀ (router : HttpServerRouter) (options : HttpServerOptions) (connection : SocketRun)
        (events : List ServerEvent),
      Throughout (step router) Lawful (start options connection) events := by
  intro lifecycle
  have kept := lifecycle silentRouter .release (SocketRun.start .accepted)
    [.received (ascii "GET /a HTTP/1.1\r\nContent-Length: 0\r\n\r\nGET /b HTTP/1.1\r\n\r\n"),
      .turn, .turn]
  have served : (runFrom (step silentRouter) (start .release (SocketRun.start .accepted))
      [.received (ascii "GET /a HTTP/1.1\r\nContent-Length: 0\r\n\r\nGET /b HTTP/1.1\r\n\r\n"),
        .turn, .turn]).map (fun run =>
          (dispatchedHandlers run.client.log, finishedHandlers run.client.log)) =
      some ([0, 1], []) := by
    decide +kernel
  obtain ⟨last, reached, logged⟩ := Option.map_eq_some_iff.mp served
  obtain ⟨dispatches, finished⟩ := Prod.mk.inj logged
  have first := (kept.final reached).1.finished (show _ = [0] ++ [1] from dispatches) 0 (by simp)
  rw [finished] at first
  exact absurd first List.not_mem_nil

end HttpServerRun

end Xul
