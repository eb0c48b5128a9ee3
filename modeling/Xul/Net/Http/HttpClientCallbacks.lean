import Xul.Foundation.Logs
import Xul.Foundation.Runs
import Xul.Net.Http.HttpClient

/-!
# The callbacks of a client's queries

The callback of a query is called when the query ends: with the end of the response, with
an error, or with data that is too large; of a head query, with the response.  Unless the
connection is kept alive the handler stops listening then.  A handler that goes on
listening is called again by an error, and by nothing else: the end of a response is
notified once, and so is its header (`Sound.react`).

So a query is called back once exactly when no error reaches its handler after its end
(`disciplined_iff`).
-/

set_option autoImplicit false

namespace Xul

open Foundation

namespace ListenerCall

def isError : ListenerCall → Bool
  | httpError _ => true
  | httpResponse _ _ | httpData _ | httpPutContent | httpComplete _ => false

/-- The piece of a body that a notification brings. -/
def content : ListenerCall → Bytes
  | httpData data => data
  | httpResponse _ _ | httpPutContent | httpComplete _ | httpError _ => []

end ListenerCall

namespace HttpQuery

/-- The notifications that end a query: the response ends a head query, and the end of
the response a query of its data. -/
def endsWith (query : HttpQuery) : ListenerCall → Bool
  | .httpResponse _ _ => query.maxSize.isNone
  | .httpComplete _ => query.maxSize.isSome
  | .httpError _ => true
  | .httpData _ | .httpPutContent => false

/-- No error is notified after the end of the query. -/
def Timely (query : HttpQuery) (heard : List ListenerCall) : Prop :=
  EachAllowed (fun before call => call.isError = true →
    ∀ earlier ∈ before, query.endsWith earlier = false) heard

end HttpQuery

/-- A callback that reports success hands over all that was received, which is no larger
than was asked for. -/
def HttpCallback.Delivers (queries : List HttpQuery) (received : Bytes) : HttpCallback → Prop
  | downloadData id _ errcode _ data =>
      errcode = 0 → ∃ maxSize, queries[id]?.bind HttpQuery.maxSize = some maxSize ∧
        data = received ∧ (maxSize < 2 ^ 31 → data.length ≤ maxSize)
  | queryHead _ _ _ _ _ => True

theorem HttpCallback.Delivers.append {queries : List HttpQuery} {received : Bytes}
    {callback : HttpCallback} (delivers : callback.Delivers queries received)
    (query : HttpQuery) : callback.Delivers (queries ++ [query]) received := by
  cases callback with
  | queryHead id url errcode response contentLength => trivial
  | downloadData id url errcode response data =>
      intro success
      obtain ⟨maxSize, asked, rest⟩ := delivers success
      refine ⟨maxSize, ?_, rest⟩
      obtain ⟨found, at_id, size⟩ := Option.bind_eq_some_iff.mp asked
      have inside := (List.getElem?_eq_some_iff.mp at_id).1
      rw [List.getElem?_append_left inside, asked]

namespace HttpClient

variable {zlib : Zlib}

/-- What the handler of a query was notified of. -/
def heard (client : HttpClient zlib) (id : Nat) : List ListenerCall :=
  (client.notified.filter fun entry => entry.1 = id).map Prod.snd

/-- The pieces of the body that the handler of a query was given. -/
def received (client : HttpClient zlib) (id : Nat) : Bytes :=
  (client.heard id).flatMap ListenerCall.content

/-- How often the callback of a query was called. -/
def calledBack (client : HttpClient zlib) (id : Nat) : Nat :=
  client.callbacks.countP fun callback => callback.id = id

/-- The callback of every query is called at most once, and hands over what was
received. -/
structure Disciplined (client : HttpClient zlib) : Prop where
  once : ∀ id, client.calledBack id ≤ 1
  delivered : ∀ callback ∈ client.callbacks,
    callback.Delivers client.queries (client.received callback.id)

/-! ## The invariant -/

/-- The handler that listens: it was called back only if it has heard of its end, and
then nothing is pending, or it waits for the rest of the answer to a head query. -/
structure Listening (client : HttpClient zlib) (handler : HttpHandler) : Prop where
  asked : client.queries[handler.id]? = some handler.query
  apart : ∀ callback ∈ client.posted, callback.id ≠ handler.id
  ended : client.calledBack handler.id ≠ 0 →
    ∃ call ∈ client.heard handler.id, handler.query.endsWith call = true
  idle : client.calledBack handler.id ≠ 0 →
    client.connection.request = none ∨ handler.query.maxSize = none ∧ handler.response ≠ none
  collected : ∀ maxSize, handler.query.maxSize = some maxSize →
    handler.data = client.received handler.id ∧
      handler.data.length ≤ toSizeT (toInt maxSize)

/-- A callback that waits to be called reports a failure, and is the only one of its
query. -/
structure Waiting (client : HttpClient zlib) (callback : HttpCallback) : Prop where
  asked : callback.id < client.queries.length
  uncalled : client.calledBack callback.id = 0
  unheard : client.heard callback.id = []
  failed : ∃ url, callback = .downloadData callback.id url (-1) none []

structure Sound (client : HttpClient zlib) : Prop where
  heardOf : ∀ entry ∈ client.notified, entry.1 < client.queries.length
  calledOf : ∀ callback ∈ client.callbacks, callback.id < client.queries.length
  timely : ∀ id query, client.queries[id]? = some query →
    (client.calledBack id ≤ 1 ↔ query.Timely (client.heard id))
  called : ∀ id query, client.queries[id]? = some query →
    (∃ call ∈ client.heard id, query.endsWith call = true) → client.calledBack id ≠ 0
  delivered : ∀ callback ∈ client.callbacks,
    callback.Delivers client.queries (client.received callback.id)
  waiting : ∀ callback ∈ client.posted, client.Waiting callback
  distinct : (client.posted.map HttpCallback.id).Nodup
  listening : ∀ handler, client.listener = some handler → client.Listening handler

/-- The handler that listens has heard of no response. -/
def Fresh (client : HttpClient zlib) : Prop :=
  ∀ handler, client.listener = some handler →
    handler.response = none ∧ client.received handler.id = []

/-- The client between two events: a request whose header is not complete is not
announced. -/
structure Settled (client : HttpClient zlib) : Prop extends Sound client where
  consistent : ∀ info, client.connection.request = some info → info.Consistent
  unannounced : ∀ info, client.connection.request = some info →
    info.responseExtractor.headerFinished = false → client.Fresh

/-! ## A notification -/

/-- The client when the handler `handler` has heard of `notification`: the connection and
the listener it leaves, and the callback it makes, if any. -/
def reacted (client : HttpClient zlib) (id : Nat) (notification : ListenerCall)
    (conn : HttpConnection zlib) (listener : Option HttpHandler) (made : Option HttpCallback) :
    HttpClient zlib :=
  { client with
    connection := conn
    listener
    callbacks := client.callbacks ++ made.toList
    notified := client.notified ++ [(id, notification)] }

section Reacted

variable {client : HttpClient zlib} {notification : ListenerCall} {conn : HttpConnection zlib}
  {listener : Option HttpHandler} {made : Option HttpCallback}

theorem heard_reacted_self (id : Nat) :
    (client.reacted id notification conn listener made).heard id =
      client.heard id ++ [notification] := by
  simp [heard, reacted]

theorem heard_reacted_of_ne {id other : Nat} (differs : id ≠ other) :
    (client.reacted id notification conn listener made).heard other = client.heard other := by
  simp [heard, reacted, differs]

theorem received_reacted_self (id : Nat) :
    (client.reacted id notification conn listener made).received id =
      client.received id ++ notification.content := by
  simp [received, heard_reacted_self]

theorem received_reacted_of_ne {id other : Nat} (differs : id ≠ other) :
    (client.reacted id notification conn listener made).received other =
      client.received other := by
  rw [received, heard_reacted_of_ne differs, received]

theorem calledBack_reacted_self {id : Nat} (own : ∀ callback ∈ made, callback.id = id) :
    (client.reacted id notification conn listener made).calledBack id =
      client.calledBack id + made.toList.length := by
  cases made with
  | none => simp [calledBack, reacted]
  | some callback => simp [calledBack, reacted, own callback rfl]

theorem calledBack_reacted_of_ne {id other : Nat} (own : ∀ callback ∈ made, callback.id = id)
    (differs : id ≠ other) :
    (client.reacted id notification conn listener made).calledBack other =
      client.calledBack other := by
  cases made with
  | none => simp [calledBack, reacted]
  | some callback => simp [calledBack, reacted, own callback rfl, differs]

end Reacted

/-- How a handler that listens reacts to a notification: it makes a callback when the
notification ends the query; a callback is the query's first unless it reports an error;
and a piece of the body reaches no query that was called back. -/
structure Reaction (client : HttpClient zlib) (handler : HttpHandler)
    (notification : ListenerCall) (conn : HttpConnection zlib) (listener : Option HttpHandler)
    (made : Option HttpCallback) : Prop where
  own : ∀ callback ∈ made, callback.id = handler.id
  ends : handler.query.endsWith notification = true → made ≠ none
  first : made ≠ none → notification.isError = true ∨ client.calledBack handler.id = 0
  pieces : notification.content = [] ∨ client.calledBack handler.id = 0 ∨
    handler.query.maxSize = none
  delivers : ∀ callback ∈ made,
    callback.Delivers client.queries (client.received handler.id ++ notification.content)
  same : ∀ next, listener = some next → next.id = handler.id ∧ next.query = handler.query
  ended : ∀ next, listener = some next → made ≠ none →
    handler.query.endsWith notification = true
  idle : ∀ next, listener = some next → made ≠ none ∨ client.calledBack handler.id ≠ 0 →
    conn.request = none ∨ handler.query.maxSize = none ∧ next.response ≠ none
  collected : ∀ next, listener = some next → ∀ maxSize, handler.query.maxSize = some maxSize →
    next.data = client.received handler.id ++ notification.content ∧
      next.data.length ≤ toSizeT (toInt maxSize)

theorem calledBack_eq_zero {client : HttpClient zlib} {id : Nat}
    (none : client.calledBack id = 0) {callback : HttpCallback}
    (member : callback ∈ client.callbacks) : callback.id ≠ id := by
  intro same
  refine List.countP_eq_zero.mp none callback member ?_
  simpa using same

/-- A query that was called back at most once hears a notification in time when it is no
error, or the first. -/
theorem Reaction.timely {client : HttpClient zlib} (sound : client.Sound) {handler : HttpHandler}
    {notification : ListenerCall} {conn : HttpConnection zlib} {listener : Option HttpHandler}
    {made : Option HttpCallback} (listening : client.Listening handler)
    (reaction : Reaction client handler notification conn listener made) :
    client.calledBack handler.id + made.toList.length ≤ 1 ↔
      handler.query.Timely (client.heard handler.id ++ [notification]) := by
  have before := sound.timely handler.id handler.query listening.asked
  have called := sound.called handler.id handler.query listening.asked
  rw [HttpQuery.Timely, eachAllowed_snoc_iff]
  change _ ↔ handler.query.Timely (client.heard handler.id) ∧ _
  rw [← before]
  cases isError : notification.isError with
  | true =>
      have some : made ≠ none := reaction.ends (by cases notification <;> first | rfl | cases isError)
      obtain ⟨callback, rfl⟩ := Option.ne_none_iff_exists'.mp some
      simp only [Option.toList_some, List.length_singleton, true_implies]
      constructor
      · intro once
        have zero : client.calledBack handler.id = 0 := by omega
        refine ⟨by omega, ?_⟩
        intro earlier member
        by_contra ends
        exact called ⟨earlier, member, by simpa using ends⟩ zero
      · rintro ⟨-, first⟩
        by_contra twice
        obtain ⟨earlier, member, ends⟩ := listening.ended (by omega)
        exact absurd (ends.symm.trans (first earlier member)) (by decide)
  | false =>
      simp only [Bool.false_eq_true, false_implies, and_true]
      cases made with
      | none => simp
      | some callback =>
          have zero := (reaction.first (by simp)).resolve_left (by rw [isError]; decide)
          simp [zero]

/-- **A reaction keeps the invariant.** -/
theorem Sound.react {client : HttpClient zlib} (sound : client.Sound) {handler : HttpHandler}
    (listens : client.listener = some handler) {notification : ListenerCall}
    {conn : HttpConnection zlib} {listener : Option HttpHandler} {made : Option HttpCallback}
    (reaction : Reaction client handler notification conn listener made) :
    (client.reacted handler.id notification conn listener made).Sound := by
  have listening := sound.listening handler listens
  have known : handler.id < client.queries.length :=
    (List.getElem?_eq_some_iff.mp listening.asked).1
  have own := reaction.own
  constructor
  · intro entry member
    rcases List.mem_append.mp member with old | new
    · exact sound.heardOf entry old
    · rw [List.mem_singleton.mp new]
      exact known
  · intro callback member
    rcases List.mem_append.mp member with old | new
    · exact sound.calledOf callback old
    · rw [own callback (by simpa using new)]
      exact known
  · intro id query asked
    by_cases same : handler.id = id
    · subst same
      obtain rfl : handler.query = query := Option.some.inj (listening.asked.symm.trans asked)
      rw [calledBack_reacted_self own, heard_reacted_self]
      exact reaction.timely sound listening
    · rw [calledBack_reacted_of_ne own same, heard_reacted_of_ne same]
      exact sound.timely id query asked
  · rintro id query asked ⟨call, member, ends⟩
    by_cases same : handler.id = id
    · subst same
      obtain rfl : handler.query = query := Option.some.inj (listening.asked.symm.trans asked)
      rw [calledBack_reacted_self own]
      rw [heard_reacted_self] at member
      rcases List.mem_append.mp member with old | new
      · have := sound.called handler.id handler.query asked ⟨call, old, ends⟩
        omega
      · rw [List.mem_singleton.mp new] at ends
        obtain ⟨callback, rfl⟩ := Option.ne_none_iff_exists'.mp (reaction.ends ends)
        simp
    · rw [calledBack_reacted_of_ne own same]
      rw [heard_reacted_of_ne same] at member
      exact sound.called id query asked ⟨call, member, ends⟩
  · intro callback member
    rcases List.mem_append.mp member with old | new
    · have delivered := sound.delivered callback old
      by_cases same : handler.id = callback.id
      · rw [← same, received_reacted_self]
        rw [← same] at delivered
        rcases reaction.pieces with nothing | uncalled | noData
        · rwa [nothing, List.append_nil]
        · exact absurd same.symm (calledBack_eq_zero uncalled old)
        · cases callback with
          | downloadData id url errcode response data =>
              intro success
              obtain ⟨maxSize, asked, -⟩ := delivered success
              rw [← show handler.id = id from same, listening.asked, Option.bind_some, noData] at asked
              cases asked
          | queryHead id url errcode response contentLength => trivial
      · rw [received_reacted_of_ne same]
        exact delivered
    · have made := reaction.delivers callback (by simpa using new)
      rw [own callback (by simpa using new), received_reacted_self]
      exact made
  · intro callback member
    have waiting := sound.waiting callback member
    have apart : handler.id ≠ callback.id := (listening.apart callback member).symm
    exact ⟨waiting.asked, by rw [calledBack_reacted_of_ne own apart]; exact waiting.uncalled,
      by rw [heard_reacted_of_ne apart]; exact waiting.unheard, waiting.failed⟩
  · exact sound.distinct
  · intro next listens
    obtain ⟨sameId, sameQuery⟩ := reaction.same next listens
    constructor
    · rw [sameId, sameQuery]
      exact listening.asked
    · rw [sameId]
      exact listening.apart
    · rw [sameId, sameQuery, calledBack_reacted_self own, heard_reacted_self]
      intro called
      by_cases made : made = none
      · subst made
        obtain ⟨call, member, ends⟩ := listening.ended (by simpa using called)
        exact ⟨call, List.mem_append_left _ member, ends⟩
      · exact ⟨notification, by simp, reaction.ended next listens made⟩
    · rw [sameId, sameQuery, calledBack_reacted_self own]
      intro called
      refine reaction.idle next listens ?_
      by_cases made : made = none
      · subst made
        exact Or.inr (by simpa using called)
      · exact Or.inl made
    · rw [sameId, sameQuery, received_reacted_self]
      exact reaction.collected next listens

/-- The invariant depends on the connection only when the handler that listens was called
back: no request becomes pending then. -/
theorem Sound.replace {client : HttpClient zlib} (sound : client.Sound) {keepalive : Bool}
    {conn : HttpConnection zlib}
    (pending : ∀ handler, client.listener = some handler → client.calledBack handler.id ≠ 0 →
      client.connection.request = none → conn.request = none) :
    Sound { client with keepalive, connection := conn } where
  heardOf := sound.heardOf
  calledOf := sound.calledOf
  timely := sound.timely
  called := sound.called
  delivered := sound.delivered
  waiting callback member := by
    have waiting := sound.waiting callback member
    exact ⟨waiting.asked, waiting.uncalled, waiting.unheard, waiting.failed⟩
  distinct := sound.distinct
  listening handler listens := by
    have listening := sound.listening handler listens
    exact ⟨listening.asked, listening.apart, listening.ended,
      fun called => (listening.idle called).imp_left (pending handler listens called),
      listening.collected⟩

theorem Sound.withConnection {client : HttpClient zlib} (sound : client.Sound)
    {conn : HttpConnection zlib}
    (pending : client.connection.request = none → conn.request = none) :
    (client.withConnection conn).Sound :=
  sound.replace fun _ _ _ => pending

theorem Sound.abortHandling {client : HttpClient zlib} (sound : client.Sound) :
    client.abortHandling.Sound :=
  sound.withConnection fun _ => rfl

/-! ## What each notification does -/

theorem handlerError_of_data {client : HttpClient zlib} {handler : HttpHandler} {maxSize : Nat}
    (data : handler.query.maxSize = some maxSize) (errcode : Int) :
    client.handlerError errcode handler = client.closeConnection.invokeCallback
      (if errcode = HttpErrorCodes.eof ∧ handler.contentLength < 0 then 0 else errcode) handler := by
  cases query : handler.query with
  | queryHead => rw [query] at data; cases data
  | downloadData size | postData size body => simp only [handlerError, query]

theorem query_of_head {handler : HttpHandler} (head : handler.query.maxSize = none) :
    handler.query = .queryHead := by
  cases query : handler.query with
  | queryHead => rfl
  | downloadData size | postData size body => rw [query] at head; cases head

/-- What a query of data is handed is what it received. -/
theorem Listening.delivers {client : HttpClient zlib} {handler : HttpHandler}
    (listening : client.Listening handler) {maxSize : Nat}
    (data : handler.query.maxSize = some maxSize) (errcode : Int)
    (response : Option HttpResponse) :
    (HttpCallback.downloadData handler.id handler.url errcode response handler.data).Delivers
      client.queries (client.received handler.id ++ []) := by
  intro _
  obtain ⟨all, small⟩ := listening.collected maxSize data
  refine ⟨maxSize, by rw [listening.asked, Option.bind_some, data], by rw [all, List.append_nil],
    ?_⟩
  intro fits
  rw [toInt_natCast fits, toSizeT_of_nonneg (by omega) (by omega)] at small
  exact_mod_cast small

/-- A query of data is not called back while its request is pending. -/
theorem Listening.uncalled {client : HttpClient zlib} {handler : HttpHandler}
    (listening : client.Listening handler) (pending : client.connection.request ≠ none)
    (unanswered : handler.query.maxSize ≠ none ∨ handler.response = none) :
    client.calledBack handler.id = 0 := by
  by_contra called
  rcases listening.idle called with nothing | ⟨head, answered⟩
  · exact pending nothing
  · exact unanswered.elim (fun data => data head) answered

theorem onError_of_none {client : HttpClient zlib} (listens : client.listener = none)
    (errcode : Int) : client.onError errcode = client.abortHandling := by
  obtain ⟨connection, listener, keepalive, posted, queries, callbacks, notified⟩ := client
  obtain rfl : listener = none := listens
  rfl

/-- An error ends a query of data for good. -/
theorem onError_of_data {client : HttpClient zlib} {handler : HttpHandler} {maxSize : Nat}
    (listens : client.listener = some handler) (data : handler.query.maxSize = some maxSize)
    (errcode : Int) :
    client.onError errcode = client.reacted handler.id (.httpError errcode)
      client.connection.close none
      (some (.downloadData handler.id handler.url
        (if errcode = HttpErrorCodes.eof ∧ handler.contentLength < 0 then 0 else errcode)
        handler.response handler.data)) := by
  obtain ⟨connection, listener, keepalive, posted, queries, callbacks, notified⟩ := client
  obtain rfl : listener = some handler := listens
  simp only [onError, abortHandling, notify, handlerError_of_data data]
  cases keepalive <;> rfl

/-- The handler of a head query that is kept alive goes on listening. -/
theorem onError_of_head {client : HttpClient zlib} {handler : HttpHandler}
    (listens : client.listener = some handler) (head : handler.query.maxSize = none)
    (errcode : Int) :
    client.onError errcode = client.reacted handler.id (.httpError errcode)
      client.connection.close (if client.keepalive then some handler else none)
      (some (.queryHead handler.id handler.url errcode handler.response 0)) := by
  obtain ⟨connection, listener, keepalive, posted, queries, callbacks, notified⟩ := client
  obtain rfl : listener = some handler := listens
  simp only [onError, abortHandling, notify, handlerError, query_of_head head]
  cases keepalive <;> rfl

/-- A handler of which nothing is heard any more. -/
theorem Reaction.ofDone {client : HttpClient zlib} {handler : HttpHandler}
    {notification : ListenerCall} {conn : HttpConnection zlib} {callback : HttpCallback}
    (own : callback.id = handler.id)
    (first : notification.isError = true ∨ client.calledBack handler.id = 0)
    (pieces : notification.content = [] ∨ client.calledBack handler.id = 0)
    (delivers : callback.Delivers client.queries
      (client.received handler.id ++ notification.content)) :
    Reaction client handler notification conn none (some callback) where
  own other member := by rw [← Option.some.inj member]; exact own
  ends _ := by simp
  first _ := first
  pieces := pieces.imp_right Or.inl
  delivers other member := by rw [← Option.some.inj member]; exact delivers
  same := nofun
  ended := nofun
  idle := nofun
  collected := nofun

/-- A handler that goes on listening, and makes no callback. -/
theorem Reaction.ofSilent {client : HttpClient zlib} {handler next : HttpHandler}
    {notification : ListenerCall} {conn : HttpConnection zlib}
    (continues : handler.query.endsWith notification = false)
    (pieces : notification.content = [] ∨ client.calledBack handler.id = 0 ∨
      handler.query.maxSize = none)
    (same : next.id = handler.id ∧ next.query = handler.query)
    (idle : client.calledBack handler.id ≠ 0 →
      conn.request = none ∨ handler.query.maxSize = none ∧ next.response ≠ none)
    (collected : ∀ maxSize, handler.query.maxSize = some maxSize →
      next.data = client.received handler.id ++ notification.content ∧
        next.data.length ≤ toSizeT (toInt maxSize)) :
    Reaction client handler notification conn (some next) none where
  own := nofun
  ends ends := absurd (ends.symm.trans continues) (by decide)
  first made := absurd rfl made
  pieces := pieces
  delivers := nofun
  same other kept := by rw [← Option.some.inj kept]; exact same
  ended _ _ made := absurd rfl made
  idle other kept called := by
    rw [← Option.some.inj kept]
    exact idle (called.resolve_left fun made => made rfl)
  collected other kept := by rw [← Option.some.inj kept]; exact collected

/-- The listener that a kept connection keeps. -/
theorem eq_of_kept {keepalive : Bool} {handler next : HttpHandler}
    (kept : (if keepalive then some handler else none) = some next) : handler = next := by
  cases keepalive with
  | true => exact Option.some.inj kept
  | false => cases kept

/-- A handler that is called back at the end of its query, and goes on listening when the
connection is kept alive. -/
theorem Reaction.ofEnd {client : HttpClient zlib} {handler next : HttpHandler}
    {notification : ListenerCall} {conn : HttpConnection zlib} {keepalive : Bool}
    {callback : HttpCallback} (own : callback.id = handler.id)
    (ends : handler.query.endsWith notification = true)
    (first : notification.isError = true ∨ client.calledBack handler.id = 0)
    (delivers : callback.Delivers client.queries
      (client.received handler.id ++ notification.content))
    (noPiece : notification.content = [])
    (same : next.id = handler.id ∧ next.query = handler.query)
    (idle : conn.request = none ∨ handler.query.maxSize = none ∧ next.response ≠ none)
    (collected : ∀ maxSize, handler.query.maxSize = some maxSize →
      next.data = client.received handler.id ∧ next.data.length ≤ toSizeT (toInt maxSize)) :
    Reaction client handler notification conn (if keepalive then some next else none)
      (some callback) where
  own other member := by rw [← Option.some.inj member]; exact own
  ends _ := by simp
  first _ := first
  pieces := Or.inl noPiece
  delivers other member := by rw [← Option.some.inj member]; exact delivers
  same other kept := by rw [← eq_of_kept kept]; exact same
  ended _ _ _ := ends
  idle other kept _ := by rw [← eq_of_kept kept]; exact idle
  collected other kept maxSize asked := by
    rw [← eq_of_kept kept, noPiece, List.append_nil]
    exact collected maxSize asked

theorem Sound.onError {client : HttpClient zlib} (sound : client.Sound) (errcode : Int) :
    (client.onError errcode).Sound := by
  cases listens : client.listener with
  | none =>
      rw [onError_of_none listens]
      exact sound.abortHandling
  | some handler =>
      have listening := sound.listening handler listens
      cases data : handler.query.maxSize with
      | some maxSize =>
          rw [onError_of_data listens data]
          exact sound.react listens
            (.ofDone rfl (Or.inl rfl) (Or.inl rfl) (listening.delivers data _ _))
      | none =>
          rw [onError_of_head listens data]
          exact sound.react listens (.ofEnd rfl rfl (Or.inl rfl) trivial rfl ⟨rfl, rfl⟩
            (Or.inl rfl) fun maxSize asked => by rw [data] at asked; cases asked)

/-- An error brings no piece of a body. -/
theorem Fresh.onError {client : HttpClient zlib} (fresh : client.Fresh) (errcode : Int) :
    (client.onError errcode).Fresh := by
  cases listens : client.listener with
  | none =>
      rw [onError_of_none listens]
      exact fresh
  | some handler =>
      obtain ⟨unanswered, nothing⟩ := fresh handler listens
      cases data : handler.query.maxSize with
      | some maxSize =>
          rw [onError_of_data listens data]
          exact nofun
      | none =>
          rw [onError_of_head listens data]
          intro next kept
          obtain rfl := eq_of_kept kept
          rw [received_reacted_self, nothing]
          exact ⟨unanswered, rfl⟩

/-- The notifications of a pending request go to the handler that listens. -/
theorem onComplete_of_pending {client : HttpClient zlib} {info : HttpConnectionRequestInfo zlib}
    (pending : client.connection.request = some info) {handler : HttpHandler}
    (listens : client.listener = some handler) (totalSize : Int) :
    (client.onComplete totalSize).2 =
      ((client.withConnection { client.connection with request := none }).notify
        (.httpComplete totalSize)).onHttpComplete handler := by
  simp only [onComplete, pending, listens, withConnection]

theorem onContent_of_pending {client : HttpClient zlib} {info : HttpConnectionRequestInfo zlib}
    (pending : client.connection.request = some info) {handler : HttpHandler}
    (listens : client.listener = some handler) (data : Bytes) :
    client.onContent data = (client.notify (.httpData data)).onHttpData data handler := by
  simp only [onContent, pending, listens]

theorem onHeader_of_pending {client : HttpClient zlib} {info : HttpConnectionRequestInfo zlib}
    (pending : client.connection.request = some info) {handler : HttpHandler}
    (listens : client.listener = some handler) (resp : HttpResponse) :
    client.onHeader resp =
      (client.notify (.httpResponse resp info.url.originalString)).onHttpResponse resp handler := by
  simp only [onHeader, pending, listens]

/-- The end of a response ends a query of data. -/
theorem onComplete_of_data {client : HttpClient zlib} {info : HttpConnectionRequestInfo zlib}
    (pending : client.connection.request = some info) {handler : HttpHandler} {maxSize : Nat}
    (listens : client.listener = some handler) (data : handler.query.maxSize = some maxSize)
    (totalSize : Int) :
    (client.onComplete totalSize).2 = client.reacted handler.id (.httpComplete totalSize)
      (if client.keepalive then { client.connection with request := none }
        else client.connection.close)
      (if client.keepalive then some handler else none)
      (some (.downloadData handler.id handler.url 0 handler.response handler.data)) := by
  rw [onComplete_of_pending pending listens]
  obtain ⟨connection, listener, keepalive, posted, queries, callbacks, notified⟩ := client
  obtain rfl : listener = some handler := listens
  simp only [withConnection, notify, onHttpComplete]
  cases query : handler.query with
  | queryHead => rw [query] at data; cases data
  | downloadData size | postData size body => cases keepalive <;> rfl

theorem onComplete_of_head {client : HttpClient zlib} {info : HttpConnectionRequestInfo zlib}
    (pending : client.connection.request = some info) {handler : HttpHandler}
    (listens : client.listener = some handler) (head : handler.query.maxSize = none)
    (totalSize : Int) :
    (client.onComplete totalSize).2 = client.reacted handler.id (.httpComplete totalSize)
      { client.connection with request := none } (some handler) none := by
  rw [onComplete_of_pending pending listens]
  obtain ⟨connection, listener, keepalive, posted, queries, callbacks, notified⟩ := client
  obtain rfl : listener = some handler := listens
  simp only [withConnection, notify, onHttpComplete, query_of_head head, reacted,
    Option.toList_none, List.append_nil]

theorem Sound.onComplete {client : HttpClient zlib} (sound : client.Sound) (totalSize : Int) :
    (client.onComplete totalSize).2.Sound := by
  cases pending : client.connection.request with
  | none =>
      simp only [HttpClient.onComplete, pending]
      exact sound.abortHandling
  | some info =>
      have unfinished : client.connection.request ≠ none := by rw [pending]; simp
      cases listens : client.listener with
      | none =>
          simp only [HttpClient.onComplete, pending, listens]
          have kept := @Sound.withConnection _ _ sound
            { client.connection with request := none } fun _ => rfl
          simp only [HttpClient.withConnection, listens] at kept
          exact kept
      | some handler =>
          have listening := sound.listening handler listens
          cases data : handler.query.maxSize with
          | some maxSize =>
              rw [onComplete_of_data pending listens data]
              have uncalled := listening.uncalled unfinished (Or.inl (by rw [data]; simp))
              exact sound.react listens (.ofEnd rfl (by simp [HttpQuery.endsWith, data])
                (Or.inr uncalled) (listening.delivers data _ _) rfl ⟨rfl, rfl⟩
                (Or.inl (by split <;> rfl)) listening.collected)
          | none =>
              rw [onComplete_of_head pending listens data]
              exact sound.react listens (.ofSilent (by simp [HttpQuery.endsWith, data])
                (Or.inl rfl) ⟨rfl, rfl⟩ (fun _ => Or.inl rfl)
                fun size asked => by rw [data] at asked; cases asked)

/-- A handler that goes on listening is all that a notification has changed. -/
theorem listen_reacted {client : HttpClient zlib} {handler : HttpHandler}
    (listens : client.listener = some handler) (changed : HttpHandler)
    (same : changed.id = handler.id) (notification : ListenerCall) :
    (client.notify notification).listen changed =
      client.reacted changed.id notification client.connection (some changed) none := by
  simp only [notify, listens, listen, reacted, same, Option.toList_none, List.append_nil]

/-- A handler of a query of data that refuses what it is handed. -/
theorem handlerError_reacted {client : HttpClient zlib} {handler : HttpHandler}
    (listens : client.listener = some handler) (changed : HttpHandler)
    (same : changed.id = handler.id) {maxSize : Nat}
    (data : changed.query.maxSize = some maxSize) (notification : ListenerCall) :
    ((client.notify notification).listen changed).handlerError (-1) changed =
      client.reacted changed.id notification client.connection.close none
        (some (.downloadData changed.id changed.url (-1) changed.response changed.data)) := by
  have notEof : ¬ ((-1 : Int) = HttpErrorCodes.eof ∧ changed.contentLength < 0) := by
    rintro ⟨isEof, -⟩
    exact absurd isEof (by decide)
  rw [handlerError_of_data data, if_neg notEof]
  obtain ⟨connection, listener, keepalive, posted, queries, callbacks, notified⟩ := client
  obtain rfl : listener = some handler := listens
  simp only [notify, listen, ← same]
  cases keepalive <;> rfl

theorem onHttpData_of_data {client : HttpClient zlib} {handler : HttpHandler} {maxSize : Nat}
    (data : handler.query.maxSize = some maxSize) (piece : Bytes) :
    (client.onHttpData piece handler).2 =
      if toSizeT (toInt maxSize) < (handler.data ++ piece).length then
        (client.listen { handler with data := handler.data ++ piece }).handlerError (-1)
          { handler with data := handler.data ++ piece }
      else client.listen { handler with data := handler.data ++ piece } := by
  rw [onHttpData]
  cases query : handler.query with
  | queryHead => rw [query] at data; cases data
  | downloadData size | postData size body =>
      rw [query] at data
      obtain rfl := Option.some.inj data
      exact apply_ite Prod.snd _ _ _

/-- A piece of the body is appended to the data, unless there is too much of it. -/
theorem onContent_of_data {client : HttpClient zlib} {info : HttpConnectionRequestInfo zlib}
    (pending : client.connection.request = some info) {handler : HttpHandler} {maxSize : Nat}
    (listens : client.listener = some handler) (data : handler.query.maxSize = some maxSize)
    (piece : Bytes) :
    (client.onContent piece).2 =
      if toSizeT (toInt maxSize) < (handler.data ++ piece).length then
        client.reacted handler.id (.httpData piece) client.connection.close none
          (some (.downloadData handler.id handler.url (-1) handler.response
            (handler.data ++ piece)))
      else
        client.reacted handler.id (.httpData piece) client.connection
          (some { handler with data := handler.data ++ piece }) none := by
  rw [onContent_of_pending pending listens, onHttpData_of_data data]
  split
  · exact handlerError_reacted listens { handler with data := handler.data ++ piece } rfl data _
  · exact listen_reacted listens { handler with data := handler.data ++ piece } rfl _

theorem onContent_of_head {client : HttpClient zlib} {info : HttpConnectionRequestInfo zlib}
    (pending : client.connection.request = some info) {handler : HttpHandler}
    (listens : client.listener = some handler) (head : handler.query.maxSize = none)
    (piece : Bytes) :
    (client.onContent piece).2 = client.reacted handler.id (.httpData piece) client.connection
      (some handler) none := by
  rw [onContent_of_pending pending listens]
  obtain ⟨connection, listener, keepalive, posted, queries, callbacks, notified⟩ := client
  obtain rfl : listener = some handler := listens
  simp only [notify, onHttpData, query_of_head head, reacted, Option.toList_none,
    List.append_nil]

theorem Sound.onContent {client : HttpClient zlib} (sound : client.Sound) (piece : Bytes) :
    (client.onContent piece).2.Sound := by
  cases pending : client.connection.request with
  | none =>
      simp only [HttpClient.onContent, pending]
      exact sound.abortHandling
  | some info =>
      have unfinished : client.connection.request ≠ none := by rw [pending]; simp
      cases listens : client.listener with
      | none =>
          simp only [HttpClient.onContent, pending, listens]
          exact sound
      | some handler =>
          have listening := sound.listening handler listens
          cases data : handler.query.maxSize with
          | some maxSize =>
              have uncalled := listening.uncalled unfinished (Or.inl (by rw [data]; simp))
              rw [onContent_of_data pending listens data]
              split
              · exact sound.react listens (.ofDone rfl (Or.inr uncalled) (Or.inr uncalled)
                  fun success => absurd success (by decide))
              · next small =>
                  refine sound.react listens (.ofSilent rfl (Or.inr (Or.inl uncalled)) ⟨rfl, rfl⟩
                    (fun called => absurd uncalled called) ?_)
                  intro size asked
                  obtain rfl := Option.some.inj (data.symm.trans asked)
                  exact ⟨congrArg (· ++ piece) (listening.collected maxSize asked).1,
                    not_lt.mp small⟩
          | none =>
              rw [onContent_of_head pending listens data]
              exact sound.react listens (.ofSilent rfl (Or.inr (Or.inr data)) ⟨rfl, rfl⟩
                listening.idle fun size asked => by rw [data] at asked; cases asked)

/-- The filters keep the invariant. -/
theorem sound_keeps (env : HttpConnectionEnvironment) :
    (innerOfFilters env : InnerHttpConnection _ (HttpClient zlib)).Keeps Sound where
  abortHandling _ sound := sound.abortHandling
  onError errcode _ sound := sound.onError errcode
  onContent data _ sound := sound.onContent data
  onComplete totalSize _ _ sound := sound.onComplete totalSize

theorem sound_keeps_inner (env : HttpConnectionEnvironment) :
    (inner env : InnerHttpConnection _ (HttpClient zlib)).Keeps Sound :=
  ⟨fun _ => Sound.abortHandling, fun errcode _ sound => sound.onError errcode,
    (sound_keeps env).onContent, (sound_keeps env).onComplete⟩

/-! ## The response -/

/-- The handler when the response is announced. -/
def answered (resp : HttpResponse) (handler : HttpHandler) : HttpHandler :=
  { handler with
    response := some resp
    contentLength := getContentLength resp.message.headers }

theorem onHttpResponse_of_data {client : HttpClient zlib} {handler : HttpHandler} {maxSize : Nat}
    (data : handler.query.maxSize = some maxSize) (resp : HttpResponse) :
    (client.onHttpResponse resp handler).2 =
      if toInt maxSize < getContentLength resp.message.headers then
        (client.listen { answered resp handler with data := [] }).handlerError (-1)
          { answered resp handler with data := [] }
      else client.listen { answered resp handler with data := [] } := by
  rw [onHttpResponse, doHandleResponse]
  cases query : handler.query with
  | queryHead => rw [query] at data; cases data
  | downloadData size | postData size body =>
      rw [query] at data
      obtain rfl := Option.some.inj data
      simp only [answered, query]
      rfl

/-- A response that declares too much ends a query of data. -/
theorem onHeader_of_data {client : HttpClient zlib} {info : HttpConnectionRequestInfo zlib}
    (pending : client.connection.request = some info) {handler : HttpHandler} {maxSize : Nat}
    (listens : client.listener = some handler) (data : handler.query.maxSize = some maxSize)
    (resp : HttpResponse) :
    (client.onHeader resp).2 =
      if toInt maxSize < getContentLength resp.message.headers then
        client.reacted handler.id (.httpResponse resp info.url.originalString)
          client.connection.close none
          (some (.downloadData handler.id handler.url (-1) (some resp) []))
      else
        client.reacted handler.id (.httpResponse resp info.url.originalString) client.connection
          (some { answered resp handler with data := [] }) none := by
  rw [onHeader_of_pending pending listens, onHttpResponse_of_data data]
  split
  · exact handlerError_reacted listens { answered resp handler with data := [] } rfl data _
  · exact listen_reacted listens { answered resp handler with data := [] } rfl _

/-- The response ends a head query, whose handler goes on listening when the connection
is kept alive. -/
theorem onHeader_of_head {client : HttpClient zlib} {info : HttpConnectionRequestInfo zlib}
    (pending : client.connection.request = some info) {handler : HttpHandler}
    (listens : client.listener = some handler) (head : handler.query.maxSize = none)
    (resp : HttpResponse) :
    (client.onHeader resp).2 =
      client.reacted handler.id (.httpResponse resp info.url.originalString)
        (if client.keepalive then client.connection else client.connection.close)
        (if client.keepalive then some (answered resp handler) else none)
        (some (.queryHead handler.id handler.url 0 (some resp)
          (getContentLength resp.message.headers))) := by
  rw [onHeader_of_pending pending listens]
  obtain ⟨connection, listener, keepalive, posted, queries, callbacks, notified⟩ := client
  obtain rfl : listener = some handler := listens
  simp only [notify, onHttpResponse, doHandleResponse, query_of_head head]
  cases keepalive with
  | true => simp only [answered, query_of_head head]; rfl
  | false => rfl

/-- **A response is announced to a handler that has heard of none.** -/
theorem Sound.onHeader {client : HttpClient zlib} (sound : client.Sound) (fresh : client.Fresh)
    (resp : HttpResponse) : (client.onHeader resp).2.Sound := by
  cases pending : client.connection.request with
  | none =>
      simp only [HttpClient.onHeader, pending]
      exact sound.abortHandling
  | some info =>
      have unfinished : client.connection.request ≠ none := by rw [pending]; simp
      cases listens : client.listener with
      | none =>
          simp only [HttpClient.onHeader, pending, listens]
          exact sound
      | some handler =>
          have listening := sound.listening handler listens
          obtain ⟨unanswered, nothing⟩ := fresh handler listens
          have uncalled := listening.uncalled unfinished (Or.inr unanswered)
          cases data : handler.query.maxSize with
          | some maxSize =>
              rw [onHeader_of_data pending listens data]
              split
              · exact sound.react listens (.ofDone rfl (Or.inr uncalled) (Or.inl rfl)
                  fun success => absurd success (by decide))
              · refine sound.react listens (.ofSilent (by simp [HttpQuery.endsWith, data])
                  (Or.inl rfl) ⟨rfl, rfl⟩ (fun called => absurd uncalled called)
                  fun size asked => ⟨by rw [nothing]; rfl, ?_⟩)
                exact Int.emod_nonneg _ (by decide)
          | none =>
              rw [onHeader_of_head pending listens data]
              exact sound.react listens (.ofEnd rfl (by simp [HttpQuery.endsWith, data])
                (Or.inr uncalled) trivial rfl ⟨rfl, rfl⟩ (Or.inr ⟨data, by simp [answered]⟩)
                fun size asked => by rw [data] at asked; cases asked)

/-! ## Requests -/

/-- Writing a request notifies the listener, and a post sends its data from inside the
notification. -/
theorem writeRequest_of_listens {client : HttpClient zlib} {handler : HttpHandler}
    (listens : client.listener = some handler) (info : HttpConnectionRequestInfo zlib) :
    ∃ conn : HttpConnection zlib,
      conn.request = some { info with headerSend := true } ∧
        client.writeRequest info =
          client.reacted handler.id .httpPutContent conn (some handler) none := by
  obtain ⟨connection, listener, keepalive, posted, queries, callbacks, notified⟩ := client
  obtain rfl : listener = some handler := listens
  simp only [writeRequest, notify, onHttpPutContent, reacted, Option.toList_none, List.append_nil]
  cases handler.query with
  | postData size body => exact ⟨_, rfl, rfl⟩
  | downloadData size => exact ⟨_, rfl, rfl⟩
  | queryHead => exact ⟨_, rfl, rfl⟩

theorem writeRequest_of_none {client : HttpClient zlib} (listens : client.listener = none)
    (info : HttpConnectionRequestInfo zlib) :
    ∃ conn : HttpConnection zlib,
      conn.request = some { info with headerSend := true } ∧
        client.writeRequest info = client.withConnection conn := by
  obtain ⟨connection, listener, keepalive, posted, queries, callbacks, notified⟩ := client
  obtain rfl : listener = none := listens
  exact ⟨_, rfl, rfl⟩

theorem request_writeRequest (client : HttpClient zlib) (info : HttpConnectionRequestInfo zlib) :
    (client.writeRequest info).connection.request = some { info with headerSend := true } := by
  cases listens : client.listener with
  | none =>
      obtain ⟨conn, pending, written⟩ := writeRequest_of_none listens info
      rw [written]
      exact pending
  | some handler =>
      obtain ⟨conn, pending, written⟩ := writeRequest_of_listens listens info
      rw [written]
      exact pending

/-- Nobody who listens was called back at the end of its query. -/
def Uncalled (client : HttpClient zlib) : Prop :=
  ∀ handler, client.listener = some handler → client.calledBack handler.id ≠ 0 →
    client.connection.request ≠ none

theorem Sound.writeRequest {client : HttpClient zlib} (sound : client.Sound)
    (uncalled : client.Uncalled) (info : HttpConnectionRequestInfo zlib) :
    (client.writeRequest info).Sound := by
  cases listens : client.listener with
  | none =>
      obtain ⟨conn, -, written⟩ := writeRequest_of_none listens info
      rw [written]
      exact sound.replace fun handler present => by rw [listens] at present; cases present
  | some handler =>
      have listening := sound.listening handler listens
      obtain ⟨conn, -, written⟩ := writeRequest_of_listens listens info
      rw [written]
      refine sound.react listens (.ofSilent rfl (Or.inl rfl) ⟨rfl, rfl⟩ ?_ ?_)
      · intro called
        exact Or.inr ((listening.idle called).resolve_left (uncalled handler listens called))
      · intro maxSize asked
        rw [ListenerCall.content, List.append_nil]
        exact listening.collected maxSize asked

theorem Fresh.writeRequest {client : HttpClient zlib} (fresh : client.Fresh)
    (info : HttpConnectionRequestInfo zlib) : (client.writeRequest info).Fresh := by
  cases listens : client.listener with
  | none =>
      obtain ⟨conn, -, written⟩ := writeRequest_of_none listens info
      rw [written]
      exact fresh
  | some handler =>
      obtain ⟨unanswered, nothing⟩ := fresh handler listens
      obtain ⟨conn, -, written⟩ := writeRequest_of_listens listens info
      rw [written]
      intro next kept
      obtain rfl := Option.some.inj kept
      rw [received_reacted_self, nothing]
      exact ⟨unanswered, rfl⟩

variable {env : HttpConnectionEnvironment}

/-- A closed connection connects again for a redirection. -/
theorem redirect_eq (info : HttpConnectionRequestInfo zlib) (client : HttpClient zlib) :
    client.redirect env info =
      client.withConnection (client.connection.close.connectHost env info) := by
  have reconnects : client.connection.close.needReconnect info = true := by
    simp [HttpConnection.needReconnect, HttpConnection.close, ClientSocket.create]
  rw [redirect, doRequest, if_pos reconnects]
  rfl

theorem request_connectHost (conn : HttpConnection zlib) (info : HttpConnectionRequestInfo zlib) :
    (conn.connectHost env info).request = some info := by
  simp only [HttpConnection.connectHost]
  split <;> rfl

theorem request_checkReceive (conn : HttpConnection zlib) :
    conn.checkReceive.request = conn.request := by
  rw [HttpConnection.checkReceive]
  split <;> rfl

/-! ## The events of the connection -/

theorem Settled.ofNone {client : HttpClient zlib} (sound : client.Sound)
    (nothing : client.connection.request = none) : client.Settled where
  toSound := sound
  consistent info pending := by rw [nothing] at pending; cases pending
  unannounced info pending := by rw [nothing] at pending; cases pending

theorem Settled.withConnection {client : HttpClient zlib} (settled : client.Settled)
    {conn : HttpConnection zlib} (same : conn.request = client.connection.request) :
    (client.withConnection conn).Settled where
  toSound := settled.toSound.withConnection fun nothing => same.trans nothing
  consistent info pending := settled.consistent info (same.symm.trans pending)
  unannounced info pending := settled.unannounced info (same.symm.trans pending)

theorem request_onError (client : HttpClient zlib) (errcode : Int) :
    (client.onError errcode).connection.request = none := by
  cases listens : client.listener with
  | none => rw [onError_of_none listens]; rfl
  | some handler =>
      cases data : handler.query.maxSize with
      | some maxSize => rw [onError_of_data listens data]; rfl
      | none => rw [onError_of_head listens data]; rfl

theorem Settled.abortHandling {client : HttpClient zlib} (settled : client.Settled) :
    client.abortHandling.Settled :=
  .ofNone settled.toSound.abortHandling rfl

theorem Settled.onError {client : HttpClient zlib} (settled : client.Settled) (errcode : Int) :
    (client.onError errcode).Settled :=
  .ofNone (settled.toSound.onError errcode) (request_onError client errcode)

/-- What is stored in a pending request. -/
theorem Settled.ofStored {client : HttpClient zlib} (sound : client.Sound)
    {info : HttpConnectionRequestInfo zlib} (consistent : info.Consistent)
    (fresh : info.responseExtractor.headerFinished = false → client.Fresh) :
    (client.store info).Settled where
  toSound := sound.withConnection fun nothing => by
    rw [HttpConnection.store, nothing, Option.map_none]
  consistent other stored := by
    obtain ⟨_, _, rfl⟩ := Option.map_eq_some_iff.mp stored
    exact consistent
  unannounced other stored unfinished := by
    obtain ⟨_, _, rfl⟩ := Option.map_eq_some_iff.mp stored
    exact fresh unfinished

/-- The end of the stream finishes the filters of a response that was announced. -/
theorem Settled.handleError {client : HttpClient zlib} (settled : client.Settled)
    (errcode : Int) : (client.handleError env errcode).Settled := by
  rw [HttpClient.handleError]
  split
  · exact settled.abortHandling
  · next info pending =>
      split
      · next ended =>
          have consistent := settled.consistent info pending
          refine .ofStored ?_ consistent ?_
          · exact HttpFilters.finish_keeps (sound_keeps env) [] info.filters settled.toSound
          · intro unfinished
            exact absurd ((consistent ended.1).symm.trans unfinished) (by decide)
      · exact settled.onError errcode

/-- **A read keeps the invariant.** -/
theorem Settled.onSocketReceive {client : HttpClient zlib} (settled : client.Settled)
    (data : Bytes) : (client.onSocketReceive env data).Settled := by
  rw [HttpClient.onSocketReceive]
  split
  · exact settled.abortHandling
  · next info pending =>
      have kept := @HttpConnectionRequestInfo.process_keeps _ _ (inner env)
        (fun client => client.Sound ∧ client.Fresh ∧ client.connection.request ≠ none)
        (fun client => client.Sound ∧ client.Fresh) Sound (sound_keeps_inner env)
        (fun resp _ start => start.1.onHeader start.2.1 resp) ?fails ?redirects
        (fun _ start => ⟨start.1, start.2.1⟩) (fun _ fresh => fresh.1) data info client
        settled.toSound (fun unfinished => ⟨settled.toSound,
          settled.unannounced info pending unfinished, by rw [pending]; simp⟩)
      case fails =>
        rintro errcode client notEof ⟨sound, fresh, -⟩
        change (client.handleError env errcode).Sound ∧ (client.handleError env errcode).Fresh
        rw [HttpClient.handleError]
        split
        · exact ⟨sound.abortHandling, fresh⟩
        · rw [if_neg (by rintro ⟨-, isEof⟩; exact notEof isEof)]
          exact ⟨sound.onError errcode, fresh.onError errcode⟩
      case redirects =>
        rintro info client ⟨sound, fresh, unfinished⟩
        change (client.redirect env info).Sound ∧ (client.redirect env info).Fresh
        rw [redirect_eq]
        exact ⟨sound.replace fun _ _ _ nothing => absurd nothing unfinished, fresh⟩
      have consistent := @HttpConnectionRequestInfo.process_consistent _ _ (inner env) info
        (settled.consistent info pending) data client
      generalize info.process (inner env) data client = processed at kept consistent ⊢
      have stored : (processed.connection.store processed.info).Settled :=
        .ofStored kept.1 consistent fun unfinished => (kept.2 unfinished).2
      dsimp only
      split
      · exact stored.withConnection (request_checkReceive _)
      · exact stored

theorem Settled.onSocketConnect {client : HttpClient zlib} (settled : client.Settled) :
    client.onSocketConnect.Settled := by
  have receiving : (client.withConnection client.connection.receive).Settled :=
    settled.withConnection rfl
  rw [HttpClient.onSocketConnect]
  simp only [HttpConnection.receive]
  split
  · exact receiving.abortHandling
  · next info pending =>
      have unfinished : (client.withConnection client.connection.receive).connection.request ≠
          none := by
        change client.connection.request ≠ none
        rw [pending]
        simp
      refine ⟨receiving.toSound.writeRequest (fun _ _ _ => unfinished) info, ?_, ?_⟩
      · intro other written
        rw [request_writeRequest] at written
        rw [← Option.some.inj written]
        exact settled.consistent info pending
      · intro other written waits
        rw [request_writeRequest] at written
        rw [← Option.some.inj written] at waits
        exact (receiving.unannounced info pending waits).writeRequest info

theorem Settled.onResolverAddress {client : HttpClient zlib} (settled : client.Settled)
    (errcode : Int) (found : Bool) : (client.onResolverAddress env errcode found).Settled := by
  rw [HttpClient.onResolverAddress]
  split
  · exact settled.handleError errcode
  · exact settled.withConnection rfl

/-! ## Queries -/

/-- A query that is about to be made has heard of nothing. -/
theorem Sound.heard_next {client : HttpClient zlib} (sound : client.Sound) :
    client.heard client.queries.length = [] := by
  rw [heard, List.map_eq_nil_iff, List.filter_eq_nil_iff]
  intro entry member
  have := sound.heardOf entry member
  simp only [decide_eq_true_eq]
  omega

theorem Sound.calledBack_next {client : HttpClient zlib} (sound : client.Sound) :
    client.calledBack client.queries.length = 0 := by
  rw [calledBack, List.countP_eq_zero]
  intro callback member
  have := sound.calledOf callback member
  simp only [decide_eq_true_eq]
  omega

/-- The queries before a new one keep their numbers. -/
theorem getElem?_record {queries : List HttpQuery} {query found : HttpQuery} {id : Nat}
    (asked : (queries ++ [query])[id]? = some found) :
    queries[id]? = some found ∨ id = queries.length ∧ query = found := by
  rw [List.getElem?_append] at asked
  split at asked
  · exact Or.inl asked
  · next outside =>
      obtain ⟨inside, same⟩ := List.getElem?_eq_some_iff.mp asked
      rw [List.length_singleton] at inside
      have zero : id - queries.length = 0 := by omega
      simp only [zero, List.getElem_singleton] at same
      exact Or.inr ⟨by omega, same⟩

/-- **A query is made.** -/
theorem Sound.record {client : HttpClient zlib} (sound : client.Sound) (query : HttpQuery) :
    (client.record query).Sound where
  heardOf entry member := by
    have := sound.heardOf entry member
    rw [HttpClient.record, List.length_append]
    omega
  calledOf callback member := by
    have := sound.calledOf callback member
    rw [HttpClient.record, List.length_append]
    omega
  timely id found asked := by
    rcases getElem?_record asked with before | ⟨rfl, rfl⟩
    · exact sound.timely id found before
    · change client.calledBack _ ≤ 1 ↔ HttpQuery.Timely query (client.heard _)
      rw [sound.heard_next, sound.calledBack_next]
      exact iff_of_true (by decide) eachAllowed_nil
  called id found asked heard := by
    rcases getElem?_record asked with before | ⟨rfl, rfl⟩
    · exact sound.called id found before heard
    · obtain ⟨call, member, -⟩ := heard
      change call ∈ client.heard _ at member
      rw [sound.heard_next] at member
      cases member
  delivered callback member := (sound.delivered callback member).append query
  waiting callback member := by
    have waiting := sound.waiting callback member
    refine ⟨?_, waiting.uncalled, waiting.unheard, waiting.failed⟩
    have := waiting.asked
    rw [HttpClient.record, List.length_append]
    omega
  distinct := sound.distinct
  listening handler listens := by
    have listening := sound.listening handler listens
    refine ⟨?_, listening.apart, listening.ended, listening.idle, listening.collected⟩
    have inside := (List.getElem?_eq_some_iff.mp listening.asked).1
    rw [HttpClient.record, List.getElem?_append_left inside]
    exact listening.asked

/-- The handler of a new query listens. -/
theorem Sound.listen {client : HttpClient zlib} (sound : client.Sound) (query : HttpQuery)
    (url : SimpleUri) :
    ((client.listen (client.newHandler query url)).record query).Sound := by
  have recorded := sound.record query
  refine ⟨recorded.heardOf, recorded.calledOf, recorded.timely, recorded.called,
    recorded.delivered, ?_, recorded.distinct, ?_⟩
  · intro callback member
    have waiting := recorded.waiting callback member
    exact ⟨waiting.asked, waiting.uncalled, waiting.unheard, waiting.failed⟩
  · intro handler listens
    obtain rfl := Option.some.inj listens
    have uncalled : client.calledBack client.queries.length = 0 := sound.calledBack_next
    have unheard : client.heard client.queries.length = [] := sound.heard_next
    refine ⟨List.getElem?_concat_length, fun callback member => ?_,
      fun called => absurd uncalled called, fun called => absurd uncalled called,
      fun maxSize _ => ⟨?_, Int.emod_nonneg _ (by decide)⟩⟩
    · exact ne_of_lt (sound.waiting callback member).asked
    · change [] = (client.heard client.queries.length).flatMap ListenerCall.content
      rw [unheard]
      rfl

theorem Sound.fresh_listen {client : HttpClient zlib} (sound : client.Sound) (query : HttpQuery)
    (url : SimpleUri) : ((client.listen (client.newHandler query url)).record query).Fresh := by
  intro handler listens
  obtain rfl := Option.some.inj listens
  refine ⟨rfl, ?_⟩
  change (client.heard client.queries.length).flatMap ListenerCall.content = []
  rw [sound.heard_next]
  rfl

theorem Sound.uncalled_listen {client : HttpClient zlib} (sound : client.Sound)
    (query : HttpQuery) (url : SimpleUri) (handler : HttpHandler)
    (listens : ((client.listen (client.newHandler query url)).record query).listener =
      some handler) :
    ((client.listen (client.newHandler query url)).record query).calledBack handler.id = 0 := by
  obtain rfl := Option.some.inj listens
  exact sound.calledBack_next

theorem prepareRequest_consistent {conn : HttpConnection zlib} {method urlstr : Bytes}
    {headers : List (Bytes × Bytes)} {info : HttpConnectionRequestInfo zlib}
    (prepared : conn.prepareRequest method urlstr headers = some info) : info.Consistent := by
  intro handled
  have new : info.responseHeaderReceived = false :=
    @(HttpConnection.of_prepareRequest prepared).2 _
      HttpConnectionRequestInfo.responseHeaderReceived fun _ _ => rfl
  exact absurd (new.symm.trans handled) (by decide)

/-- A request of a query that was not called back. -/
theorem Settled.ofRequest {client : HttpClient zlib} (sound : client.Sound)
    (fresh : client.Fresh)
    (uncalled : ∀ handler, client.listener = some handler → client.calledBack handler.id = 0)
    {info : HttpConnectionRequestInfo zlib} (consistent : info.Consistent) :
    (client.doRequest env info).Settled := by
  rw [doRequest]
  split
  · refine ⟨sound.replace fun handler listens called =>
      absurd (uncalled handler listens) called, ?_, fun _ _ _ => fresh⟩
    intro other pending
    rw [← Option.some.inj ((request_connectHost _ info).symm.trans pending)]
    exact consistent
  · have written := sound.writeRequest (fun handler listens called =>
      absurd (uncalled handler listens) called) info
    have requested := request_writeRequest client info
    have unannounced := fresh.writeRequest info
    generalize client.writeRequest info = writing at written requested unannounced ⊢
    have same := request_checkReceive writing.connection
    refine ⟨written.withConnection same.trans, ?_, fun _ _ _ => unannounced⟩
    intro other pending
    rw [← Option.some.inj (requested.symm.trans (same.symm.trans pending))]
    exact consistent

/-- **A query keeps the invariant.** -/
theorem Settled.asyncDownload {client : HttpClient zlib} (settled : client.Settled)
    (query : HttpQuery) (url : SimpleUri) (headers : Headers) :
    (client.asyncDownload env query url headers).Settled := by
  have consistent := settled.consistent
  have sound := settled.toSound.listen query url
  have fresh := settled.toSound.fresh_listen query url
  have uncalled := settled.toSound.uncalled_listen query url
  simp only [HttpClient.asyncDownload]
  split
  · exact ⟨sound.withConnection id, consistent, fun _ _ _ => fresh⟩
  · next info prepared =>
      refine Settled.ofRequest ?_ ?_ ?_ (prepareRequest_consistent prepared)
      · exact sound.withConnection id
      · exact fresh
      · exact uncalled

/-- A query whose address cannot be parsed is called back later. -/
theorem Settled.post {client : HttpClient zlib} (settled : client.Settled) (query : HttpQuery)
    (url : SimpleUri) :
    ({ client with posted :=
      client.posted ++ [HttpCallback.downloadData client.queries.length url (-1) none []] }.record
        query).Settled := by
  have sound := settled.toSound.record query
  have known : ∀ callback ∈ client.posted, callback.id < client.queries.length :=
    fun callback member => (settled.toSound.waiting callback member).asked
  refine ⟨⟨sound.heardOf, sound.calledOf, sound.timely, sound.called, sound.delivered,
    fun callback member => ?_, ?_, fun handler listens => ?_⟩, settled.consistent,
    settled.unannounced⟩
  · rcases List.mem_append.mp member with old | new
    · have waiting := sound.waiting callback old
      exact ⟨waiting.asked, waiting.uncalled, waiting.unheard, waiting.failed⟩
    · obtain rfl := List.mem_singleton.mp new
      refine ⟨?_, settled.toSound.calledBack_next, settled.toSound.heard_next, url, rfl⟩
      rw [record, List.length_append]
      exact Nat.lt_succ_self _
  · change ((client.posted ++ [_]).map HttpCallback.id).Nodup
    rw [List.map_append, List.nodup_append]
    refine ⟨settled.toSound.distinct, List.nodup_singleton _, ?_⟩
    intro old member new last same
    obtain ⟨callback, present, rfl⟩ := List.mem_map.mp member
    obtain rfl := List.mem_singleton.mp last
    have := known callback present
    rw [same] at this
    exact lt_irrefl _ this
  · have listening := sound.listening handler listens
    refine ⟨listening.asked, ?_, listening.ended, listening.idle, listening.collected⟩
    intro callback member
    rcases List.mem_append.mp member with old | new
    · exact listening.apart callback old
    · obtain rfl := List.mem_singleton.mp new
      have inside := (List.getElem?_eq_some_iff.mp
        (settled.toSound.listening handler listens).asked).1
      exact (ne_of_lt inside).symm

/-- The callback that waited longest is called. -/
theorem Settled.callPosted {client : HttpClient zlib} (settled : client.Settled)
    {callback : HttpCallback} {posted : List HttpCallback}
    (first : client.posted = callback :: posted) :
    ({ client with posted }.call callback).Settled := by
  have sound := settled.toSound
  have distinct := sound.distinct
  rw [first, List.map_cons, List.nodup_cons] at distinct
  have waiting := sound.waiting callback (by rw [first]; exact List.mem_cons_self ..)
  have calledSelf : ({ client with posted }.call callback).calledBack callback.id = 1 := by
    have uncalled := waiting.uncalled
    rw [calledBack] at uncalled
    simp [calledBack, call, uncalled]
  have calledOther : ∀ id, id ≠ callback.id →
      ({ client with posted }.call callback).calledBack id = client.calledBack id := by
    intro id differs
    simp [calledBack, call, differs.symm]
  refine ⟨⟨sound.heardOf, ?_, ?_, ?_, ?_, ?_, distinct.2,
    ?_⟩, settled.consistent, settled.unannounced⟩
  · intro other member
    rcases List.mem_append.mp member with old | new
    · exact sound.calledOf other old
    · rw [List.mem_singleton.mp new]
      exact waiting.asked
  · intro id query asked
    by_cases same : id = callback.id
    · subst same
      rw [calledSelf]
      change 1 ≤ 1 ↔ query.Timely (client.heard _)
      rw [waiting.unheard]
      exact iff_of_true (by decide) eachAllowed_nil
    · rw [calledOther id same]
      exact sound.timely id query asked
  · intro id query asked heard
    by_cases same : id = callback.id
    · subst same
      rw [calledSelf]
      decide
    · rw [calledOther id same]
      exact sound.called id query asked heard
  · intro other member
    rcases List.mem_append.mp member with old | new
    · exact sound.delivered other old
    · rw [List.mem_singleton.mp new]
      obtain ⟨url, failed⟩ := waiting.failed
      rw [failed]
      exact fun success => absurd success (by decide)
  · intro other member
    have later := sound.waiting other (by rw [first]; exact List.mem_cons_of_mem _ member)
    have differs : other.id ≠ callback.id := fun same =>
      distinct.1 (same ▸ List.mem_map_of_mem member)
    exact ⟨later.asked, by rw [calledOther _ differs]; exact later.uncalled, later.unheard,
      later.failed⟩
  · intro handler listens
    have listening := sound.listening handler listens
    have differs : handler.id ≠ callback.id :=
      (listening.apart callback (by rw [first]; exact List.mem_cons_self ..)).symm
    refine ⟨listening.asked, ?_, ?_, ?_, listening.collected⟩
    · intro other member
      exact listening.apart other (by rw [first]; exact List.mem_cons_of_mem _ member)
    · rw [calledOther _ differs]
      exact listening.ended
    · rw [calledOther _ differs]
      exact listening.idle

theorem Settled.closeConnection {client : HttpClient zlib} (settled : client.Settled) :
    client.closeConnection.Settled := by
  have sound := settled.toSound
  refine .ofNone ⟨sound.heardOf, sound.calledOf, sound.timely, sound.called, sound.delivered,
    ?_, sound.distinct, nofun⟩ rfl
  intro callback member
  have waiting := sound.waiting callback member
  exact ⟨waiting.asked, waiting.uncalled, waiting.unheard, waiting.failed⟩

/-! ## Runs -/

theorem settled_create (http11 gzipEnabled : Bool) :
    (create http11 gzipEnabled : HttpClient zlib).Settled :=
  .ofNone
    { heardOf := fun _ member => nomatch member
      calledOf := fun _ member => nomatch member
      timely := fun _ _ asked => nomatch asked
      called := fun _ _ asked => nomatch asked
      delivered := fun _ member => nomatch member
      waiting := fun _ member => nomatch member
      distinct := List.nodup_nil
      listening := fun _ listens => nomatch listens } rfl

/-- **An event keeps the invariant.** -/
theorem settled_step {client next : HttpClient zlib} {event : Event} (settled : client.Settled)
    (happens : step env client event = some next) : next.Settled := by
  cases event with
  | downloadData urlstr maxSize extraHeader =>
      cases happens
      simp only [downloadData]
      split
      · exact settled.asyncDownload _ _ _
      · exact settled.post _ _
  | downloadUriData url maxSize extraHeader =>
      cases happens
      exact settled.asyncDownload _ _ _
  | queryHead url =>
      cases happens
      exact settled.asyncDownload _ _ _
  | postData urlstr maxSize body extraHeader =>
      cases happens
      exact settled.asyncDownload _ _ _
  | setKeepAlive keepalive =>
      cases happens
      exact ⟨settled.toSound.replace fun _ _ _ nothing => nothing, settled.consistent,
        settled.unannounced⟩
  | close =>
      cases happens
      exact settled.closeConnection
  | postedCallback =>
      simp only [step] at happens
      split at happens
      · cases happens
      · next callback posted first =>
          cases happens
          exact settled.callPosted first
  | resolverAddress errcode found =>
      rw [step, Option.ite_none_left_eq_some] at happens
      cases happens.2
      exact Settled.onResolverAddress (settled.withConnection (by rfl)) errcode found
  | socketConnect =>
      rw [step, Option.ite_none_left_eq_some] at happens
      cases happens.2
      exact Settled.onSocketConnect (settled.withConnection (by rfl))
  | socketConnectFailed errcode =>
      rw [step, Option.ite_none_left_eq_some] at happens
      cases happens.2
      exact Settled.handleError (settled.withConnection (by rfl)) errcode
  | socketReceive data =>
      rw [step, Option.ite_none_right_eq_some] at happens
      cases happens.2
      exact Settled.onSocketReceive (settled.withConnection (by rfl)) data
  | socketReceiveFailed errcode =>
      rw [step, Option.ite_none_right_eq_some] at happens
      cases happens.2
      exact Settled.handleError (settled.withConnection (by rfl)) errcode
  | socketSendFailed errcode =>
      rw [step, Option.ite_none_left_eq_some] at happens
      cases happens.2
      exact Settled.handleError (settled.withConnection (by rfl)) errcode
  | postedError =>
      simp only [step] at happens
      split at happens
      · cases happens
      · cases happens
        exact Settled.onError (settled.withConnection (by rfl)) _

/-- **The callback of every query is called at most once exactly when no query hears of an
error after its end**; what a callback that reports success hands over is always what was
received. -/
theorem disciplined_iff {http11 gzipEnabled : Bool} {events : List Event}
    {client : HttpClient zlib}
    (reached : runFrom (step env) (create http11 gzipEnabled) events = some client) :
    client.Disciplined ↔
      ∀ (id : Nat) (query : HttpQuery), client.queries[id]? = some query →
        query.Timely (client.heard id) := by
  have sound := (holds_of_run (fun _ _ _ => settled_step) (settled_create http11 gzipEnabled)
    reached).toSound
  constructor
  · intro disciplined id query asked
    exact (sound.timely id query asked).mp (disciplined.once id)
  · intro timely
    refine ⟨?_, sound.delivered⟩
    intro id
    cases asked : client.queries[id]? with
    | some query => exact (sound.timely id query asked).mpr (timely id query asked)
    | none =>
        have outside := List.getElem?_eq_none_iff.mp asked
        have never : client.calledBack id = 0 := by
          rw [calledBack, List.countP_eq_zero]
          intro callback member
          have := sound.calledOf callback member
          simp only [decide_eq_true_eq]
          omega
        rw [never]
        exact Nat.zero_le 1

/-- Queries that hear of no error. -/
theorem timely_of_errorless {client : HttpClient zlib}
    (errorless : ∀ entry ∈ client.notified, entry.2.isError = false) (id : Nat)
    (query : HttpQuery) : query.Timely (client.heard id) := by
  intro before call after split isError
  have member : call ∈ client.heard id := by
    rw [split]
    simp
  obtain ⟨entry, present, rfl⟩ := List.mem_map.mp member
  have := errorless entry (List.mem_of_mem_filter present)
  exact absurd (this.symm.trans isError) (by decide)

/-- Hosts are addresses. -/
def addressing : HttpConnectionEnvironment := ⟨fun _ => true, fun _ => true⟩

/-- A download of two bytes, of at most ten. -/
theorem disciplined_iff_download :
    ∃ client : HttpClient Zlib.refusing,
      runFrom (step addressing) (create false false)
        [.downloadData (ascii "http://10.0.0.1/") 10 (.empty iequalTo), .socketConnect,
          .socketReceive (ascii "HTTP/1.1 200 OK\r\nContent-Length: 2\r\n\r\nhi")] =
        some client ∧ client.calledBack 0 = 1 ∧ client.Disciplined := by
  generalize run : runFrom (step addressing) (create false false : HttpClient Zlib.refusing)
    [.downloadData (ascii "http://10.0.0.1/") 10 (.empty iequalTo), .socketConnect,
      .socketReceive (ascii "HTTP/1.1 200 OK\r\nContent-Length: 2\r\n\r\nhi")] = reached
  have outcome : reached.map (fun client => (client.calledBack 0,
      client.notified.all fun entry => !entry.2.isError)) = some (1, true) := by
    rw [← run]
    decide +kernel
  obtain ⟨client, rfl, same⟩ := Option.map_eq_some_iff.mp outcome
  obtain ⟨once, errorless⟩ := Prod.mk.inj same
  refine ⟨client, rfl, once, (disciplined_iff run).mpr ?_⟩
  intro id query _
  refine timely_of_errorless ?_ id query
  intro entry member
  simpa using List.all_eq_true.mp errorless entry member

/-- The callback of a head query that is kept alive is called with the response, and
again when the connection fails before the rest of the answer, which never comes. -/
theorem head_called_back_twice :
    ∃ client : HttpClient Zlib.refusing,
      runFrom (step addressing) (create false false)
        [.setKeepAlive true, .queryHead (SimpleUri.parse (ascii "http://10.0.0.1/")).2,
          .socketConnect,
          .socketReceive (ascii "HTTP/1.1 200 OK\r\nContent-Length: 5\r\n\r\n"),
          .socketReceiveFailed 104] = some client ∧
        ¬ client.Disciplined := by
  generalize run : runFrom (step addressing) (create false false : HttpClient Zlib.refusing)
    [.setKeepAlive true, .queryHead (SimpleUri.parse (ascii "http://10.0.0.1/")).2,
      .socketConnect,
      .socketReceive (ascii "HTTP/1.1 200 OK\r\nContent-Length: 5\r\n\r\n"),
      .socketReceiveFailed 104] = reached
  have outcome : reached.map (fun client => client.calledBack 0) = some 2 := by
    rw [← run]
    decide +kernel
  obtain ⟨client, rfl, twice⟩ := Option.map_eq_some_iff.mp outcome
  refine ⟨client, rfl, ?_⟩
  intro disciplined
  have once := disciplined.once 0
  rw [twice] at once
  exact absurd once (by decide)

end HttpClient

end Xul
