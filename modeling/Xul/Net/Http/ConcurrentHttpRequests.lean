import Xul.Foundation.Runs
import Xul.Net.Http.ConcurrentHttpConnection

/-!
# Where a queue of requests goes

A request may be written on a connection when its host or its port is that of the connection.  So
every request is written to its own server, whatever happens, exactly if no two addresses that are
asked for share only one of the two (`wellWritten_iff_twinFree`).

When the request at the front fails, the connection for the next one is opened and closed again at
once.  The requests behind it stay in the queue, and nothing but `close` lets the connection go on
(`stalled_of_run`).
-/

set_option autoImplicit false

namespace Xul

open Foundation

namespace ConcurrentHttpConnection

variable {zlib : Zlib} {env : HttpConnectionEnvironment}
  {base conn next : ConcurrentHttpConnection zlib}

/-! ## What is written goes where it should -/

variable {asked : List (Bytes × Int)} {created : Nat}

/-- A queue of requests to addresses that were asked for, told apart by their numbers; those that
are sent are in front. -/
structure CleanQueue (asked : List (Bytes × Int)) (created : Nat)
    (keys : List (Nat × (Bytes × Int) × Bool)) : Prop where
  asked : ∀ key ∈ keys, key.2.1 ∈ asked
  distinct : (keys.map Prod.fst).Nodup
  numbered : ∀ key ∈ keys, key.1 < created
  order : keys.Pairwise fun first second => second.2.2 = true → first.2.2 = true

theorem CleanQueue.suffix {keys more : List (Nat × (Bytes × Int) × Bool)}
    (clean : CleanQueue asked created keys) (suffix : more <:+ keys) :
    CleanQueue asked created more :=
  ⟨fun key member => clean.asked key (suffix.subset member),
    (suffix.map Prod.fst).sublist.nodup clean.distinct,
    fun key member => clean.numbered key (suffix.subset member),
    clean.order.sublist suffix.sublist⟩

/-- A request more, which may be sent if all others are. -/
theorem CleanQueue.snoc {keys : List (Nat × (Bytes × Int) × Bool)} {address : Bytes × Int}
    {headerSend : Bool} (clean : CleanQueue asked created keys) (member : address ∈ asked)
    (order : headerSend = true → ∀ key ∈ keys, key.2.2 = true) :
    CleanQueue asked (created + 1) (keys ++ [(created, address, headerSend)]) := by
  refine ⟨?_, ?_, ?_, ?_⟩
  · intro key here
    rcases List.mem_append.mp here with before | last
    · exact clean.asked key before
    · rwa [List.mem_singleton.mp last]
  · rw [List.map_append, List.nodup_append]
    refine ⟨clean.distinct, List.nodup_singleton _, ?_⟩
    rintro id before _ last rfl
    obtain ⟨key, here, rfl⟩ := List.mem_map.mp before
    have same : key.1 = created := List.mem_singleton.mp last
    exact absurd (clean.numbered key here) (same ▸ lt_irrefl _)
  · intro key here
    rcases List.mem_append.mp here with before | last
    · exact Nat.lt_succ_of_lt (clean.numbered key before)
    · rw [List.mem_singleton.mp last]
      exact Nat.lt_succ_self _
  · rw [List.pairwise_append]
    refine ⟨clean.order, List.pairwise_singleton _ _, ?_⟩
    intro first before second last sent
    rw [List.mem_singleton.mp last] at sent
    exact order sent first before

/-- A connection that may be under way. -/
structure Clean (asked : List (Bytes × Int)) (conn : ConcurrentHttpConnection zlib) : Prop where
  queue : CleanQueue asked conn.created (conn.requests.map key)
  here : (conn.host, conn.port) ∈ asked
  fresh : conn.socket.connecting = true ∨ conn.resolving ≠ none →
    ∀ info ∈ conn.requests, info.headerSend = false
  one : conn.socket.connecting = true → conn.resolving = none
  settled : conn.socket.connected = true →
    conn.socket.connecting = false ∧ conn.resolving = none

/-- What `write_request` asserts held whenever it was called. -/
def WellWritten (conn : ConcurrentHttpConnection zlib) : Prop :=
  ∀ entry ∈ conn.written, (entry.host, entry.port) = entry.url ∧ entry.headerSend = false

/-- What holds of a connection: it is idle, or clean. -/
structure Sound (asked : List (Bytes × Int)) (conn : ConcurrentHttpConnection zlib) : Prop where
  written : WellWritten conn
  clean : ¬ conn.Idle → Clean asked conn

theorem Sound.of_idle (written : WellWritten conn) (idle : conn.Idle) : Sound asked conn :=
  ⟨written, fun busy => absurd idle busy⟩

theorem Sound.distinct (sound : Sound asked conn) : Distinct conn :=
  fun busy => (sound.clean busy).queue.distinct

/-- What the callbacks leave is as sound as it was. -/
theorem Sound.of_within (sound : Sound asked base) (within : Within base conn) :
    Sound asked conn := by
  refine ⟨?_, ?_⟩
  · rw [WellWritten, within.written]
    exact sound.written
  · intro busy
    have clean := sound.clean (within.busy busy)
    have suffix := within.requests busy
    refine ⟨?_, ?_, ?_, ?_, ?_⟩
    · rw [within.created]
      exact clean.queue.suffix suffix
    · rw [within.host busy, within.port busy]
      exact clean.here
    · rw [within.socket busy, within.resolving busy]
      intro opening info member
      obtain ⟨other, here, same⟩ := List.mem_map.mp
        (suffix.subset (List.mem_map_of_mem (f := key) member))
      rw [← clean.fresh opening other here]
      exact (congrArg (fun key => key.2.2) same).symm
    · rw [within.socket busy, within.resolving busy]
      exact clean.one
    · rw [within.socket busy, within.resolving busy]
      exact clean.settled

/-- The requests that stay behind an error are as new. -/
theorem cleanQueue_reset {requests : List (HttpConnectionRequestInfo zlib)}
    (clean : CleanQueue asked created (requests.map key)) :
    CleanQueue asked created
      ((requests.map HttpConnectionRequestInfo.resetHandlingState).map key) := by
  have keys : (requests.map HttpConnectionRequestInfo.resetHandlingState).map key =
      (requests.map key).map fun key => (key.1, key.2.1, false) := by
    rw [List.map_map, List.map_map]
    rfl
  rw [keys]
  refine ⟨?_, ?_, ?_, ?_⟩
  · intro key member
    obtain ⟨other, here, rfl⟩ := List.mem_map.mp member
    exact clean.asked other here
  · rw [List.map_map]
    exact clean.distinct
  · intro key member
    obtain ⟨other, here, rfl⟩ := List.mem_map.mp member
    exact clean.numbered other here
  · rw [List.pairwise_map]
    exact clean.order.imp fun _ sent => Bool.noConfusion sent

/-- A connection that is opened for the front of its queue. -/
theorem Opened.sound {info : HttpConnectionRequestInfo zlib} (opened : Opened info base conn)
    (written : WellWritten base) (queue : CleanQueue asked base.created (base.requests.map key))
    (member : info ∈ base.requests) (fresh : ∀ info ∈ base.requests, info.headerSend = false) :
    Sound asked conn := by
  refine ⟨?_, fun _ => ⟨?_, ?_, ?_, opened.one, ?_⟩⟩
  · rw [WellWritten, opened.written]
    exact written
  · rw [opened.created, opened.requests]
    exact queue
  · rw [opened.host, opened.port]
    exact queue.asked _ (List.mem_map_of_mem (f := key) member)
  · rw [opened.requests]
    exact fun _ => fresh
  · rw [opened.connected]
    exact fun connected => Bool.noConfusion connected

/-- The connection when `handle_error` looks at the error: it is opened for the next request. -/
def reconnected (env : HttpConnectionEnvironment) (rest : List (HttpConnectionRequestInfo zlib))
    (conn : ConcurrentHttpConnection zlib) : ConcurrentHttpConnection zlib :=
  match (conn.popped rest).requests with
  | [] => conn.popped rest
  | next :: _ => (conn.popped rest).connectHost env next

theorem sound_reconnected {rest : List (HttpConnectionRequestInfo zlib)}
    (written : WellWritten conn) (clean : Clean asked conn)
    (rests : CleanQueue asked conn.created (rest.map key)) :
    Sound asked (conn.reconnected env rest) := by
  cases rest with
  | nil =>
      refine ⟨written, fun _ => ⟨rests, clean.here, fun _ _ none => ?_, clean.one,
        clean.settled⟩⟩
      exact absurd none List.not_mem_nil
  | cons next rest =>
      refine (opened_connectHost next.resetHandlingState _).sound written
        (cleanQueue_reset rests) (List.mem_cons_self ..) ?_
      intro info member
      obtain ⟨other, _, rfl⟩ := List.mem_map.mp member
      rfl

/-- **An error** leaves a connection sound. -/
theorem sound_fail (written : WellWritten conn) (clean : Clean asked conn) (errcode : Int) :
    Sound asked (conn.fail env errcode) := by
  cases queue : conn.requests with
  | nil =>
      have closed : conn.fail env errcode = conn.doClose := by
        simp only [fail, innerOf, queue, List.length_nil, inner, lastInner, handleError]
      rw [closed]
      exact .of_idle written ⟨rfl, rfl⟩
  | cons info rest =>
      have rests : CleanQueue asked conn.created (rest.map key) := by
        refine clean.queue.suffix ?_
        rw [queue, List.map_cons]
        exact List.suffix_cons _ _
      have opened := @sound_reconnected _ env _ _ _ written clean rests
      have ends : conn.fail env errcode =
          if info.responseHeaderReceived ∧ errcode = HttpErrorCodes.eof then
            (info.filters.finish (inner env rest.length) [] (conn.reconnected env rest)).connection
          else (conn.reconnected env rest).onError errcode := by
        simp only [fail, innerOf, queue, List.length_cons, inner, handleError]
        rfl
      rw [ends]
      split
      · exact opened.of_within (HttpFilters.finish_keeps (inner_keeps rest.length _
          opened.distinct) [] info.filters (Within.refl _))
      · exact .of_idle opened.written ⟨rfl, rfl⟩

/-! ## Writing -/

/-- No two addresses share only their host or only their port. -/
def TwinFree (asked : List (Bytes × Int)) : Prop :=
  ∀ first ∈ asked, ∀ second ∈ asked, first.1 = second.1 ∨ first.2 = second.2 → first = second

theorem CleanQueue.send {sent unsent : List (Nat × (Bytes × Int) × Bool)} {id : Nat}
    {address : Bytes × Int} {headerSend : Bool}
    (clean : CleanQueue asked created (sent ++ (id, address, headerSend) :: unsent))
    (before : ∀ key ∈ sent, key.2.2 = true) :
    CleanQueue asked created (sent ++ (id, address, true) :: unsent) := by
  have here : (id, address, headerSend) ∈ sent ++ (id, address, headerSend) :: unsent :=
    List.mem_append_right _ (List.mem_cons_self ..)
  have other {key : Nat × (Bytes × Int) × Bool}
      (member : key ∈ sent ++ (id, address, true) :: unsent) :
      key = (id, address, true) ∨ key ∈ sent ++ (id, address, headerSend) :: unsent := by
    rcases List.mem_append.mp member with first | last
    · exact Or.inr (List.mem_append_left _ first)
    · rcases List.mem_cons.mp last with same | last
      · exact Or.inl same
      · exact Or.inr (List.mem_append_right _ (List.mem_cons_of_mem _ last))
  refine ⟨?_, ?_, ?_, ?_⟩
  · intro key member
    rcases other member with rfl | member
    · exact clean.asked (id, address, headerSend) here
    · exact clean.asked key member
  · have distinct := clean.distinct
    rw [List.map_append, List.map_cons] at distinct ⊢
    exact distinct
  · intro key member
    rcases other member with rfl | member
    · exact clean.numbered (id, address, headerSend) here
    · exact clean.numbered key member
  · rw [List.pairwise_append, List.pairwise_cons]
    refine ⟨(List.pairwise_append.mp clean.order).1, ⟨fun _ _ _ => rfl, ?_⟩, ?_⟩
    · exact (List.pairwise_cons.mp (List.pairwise_append.mp clean.order).2.1).2
    · exact fun first member _ _ _ => before first member

/-- Storing a request replaces it in its place. -/
theorem requests_store {done rest : List (HttpConnectionRequestInfo zlib)}
    {info stored : HttpConnectionRequestInfo zlib} (queue : conn.requests = done ++ info :: rest)
    (distinct : ((conn.requests.map key).map Prod.fst).Nodup) (same : stored.id = info.id) :
    (conn.store stored).requests = done ++ stored :: rest := by
  rw [queue, List.map_map, List.map_append, List.map_cons, List.nodup_append,
    List.nodup_cons] at distinct
  obtain ⟨-, ⟨later, -⟩, earlier⟩ := distinct
  have kept {others : List (HttpConnectionRequestInfo zlib)}
      (differ : ∀ other ∈ others, other.id ≠ stored.id) :
      (others.map fun other => if other.id = stored.id then stored else other) = others := by
    conv_rhs => rw [← List.map_id others]
    exact List.map_congr_left fun other member => if_neg (differ other member)
  rw [store, queue, List.map_append, List.map_cons, if_pos same.symm, kept, kept]
  · rintro other member sameId
    exact later (List.mem_map.mpr ⟨other, member, sameId.trans same⟩)
  · rintro other member sameId
    exact earlier _ (List.mem_map_of_mem member) _ (List.mem_cons_self ..) (sameId.trans same)

/-- **A request is written to its own address**, and was not sent before. -/
theorem WellWritten.writeRequest {info : HttpConnectionRequestInfo zlib} (twinFree : TwinFree asked)
    (written : WellWritten conn) (here : (conn.host, conn.port) ∈ asked)
    (address : info.address ∈ asked) (sameHost : conn.isSameHost info = true)
    (unsent : info.headerSend = false) : WellWritten (conn.writeRequest info) := by
  intro entry member
  rcases List.mem_append.mp member with before | last
  · exact written entry before
  · rw [List.mem_singleton.mp last]
    refine ⟨?_, unsent⟩
    rw [isSameHost, Bool.or_eq_true, beq_iff_eq, beq_iff_eq] at sameHost
    exact twinFree _ here _ address (sameHost.imp Eq.symm Eq.symm)

/-- The loop of `on_socket_connect`.  The induction is on the requests that are not looked at
yet. -/
theorem sound_writeSameHost (twinFree : TwinFree asked) :
    ∀ (todo done : List (HttpConnectionRequestInfo zlib)) (conn : ConcurrentHttpConnection zlib),
      conn.requests = done ++ todo → WellWritten conn →
      CleanQueue asked conn.created (conn.requests.map key) → (conn.host, conn.port) ∈ asked →
      (∀ info ∈ done, info.headerSend = true) → (∀ info ∈ todo, info.headerSend = false) →
      conn.socket.connecting = false → conn.resolving = none →
      Sound asked (conn.writeSameHost todo.length done.length) := by
  intro todo
  induction todo with
  | nil =>
      intro done conn queue written clean here sent unsent connecting resolving
      refine ⟨written, fun _ => ⟨clean, here, ?_, fun _ => resolving,
        fun _ => ⟨connecting, resolving⟩⟩⟩
      rintro (opening | opening)
      · exact absurd (connecting.symm.trans opening) (by decide)
      · exact absurd resolving opening
  | cons info todo ih =>
      intro done conn queue written clean here sent unsent connecting resolving
      have found : conn.requests[done.length]? = some info := by
        rw [queue]
        simp
      rw [List.length_cons, writeSameHost, found]
      simp only
      split
      · next sameHost =>
          have stored := requests_store queue clean.distinct
            (rfl : ({ info with headerSend := true } : HttpConnectionRequestInfo zlib).id = info.id)
          have kept := clean
          rw [queue, List.map_append, List.map_cons] at kept
          have queued : ((conn.writeRequest info).requests) =
              (done ++ [{ info with headerSend := true }]) ++ todo := by
            rw [List.append_assoc]
            exact stored
          have later := ih (done ++ [{ info with headerSend := true }]) (conn.writeRequest info)
            queued
            (written.writeRequest twinFree here (kept.asked _ (List.mem_append_right _
              (List.mem_cons_self ..))) sameHost (unsent info (List.mem_cons_self ..)))
            ?_ here ?_ (fun other member => unsent other (List.mem_cons_of_mem _ member))
            connecting resolving
          · rwa [List.length_append] at later
          · rw [queued, List.append_assoc, List.map_append, List.singleton_append, List.map_cons]
            refine CleanQueue.send kept ?_
            intro key member
            obtain ⟨other, isDone, rfl⟩ := List.mem_map.mp member
            exact sent other isDone
          · intro other member
            rcases List.mem_append.mp member with before | last
            · exact sent other before
            · rw [List.mem_singleton.mp last]
      · refine ⟨written, fun _ => ⟨clean, here, ?_, fun _ => resolving,
          fun _ => ⟨connecting, resolving⟩⟩⟩
        rintro (opening | opening)
        · exact absurd (connecting.symm.trans opening) (by decide)
        · exact absurd resolving opening

/-! ## One step -/

theorem backUnsent_iff {requests : List (HttpConnectionRequestInfo zlib)}
    {last : HttpConnectionRequestInfo zlib} (queue : conn.requests = requests ++ [last]) :
    conn.backUnsent = !last.headerSend := by
  rw [backUnsent, queue, List.getLast?_concat]
  rfl

/-- If the last one is sent, all are. -/
theorem CleanQueue.all_sent (clean : CleanQueue asked created (conn.requests.map key))
    (sent : conn.backUnsent = false) : ∀ info ∈ conn.requests, info.headerSend = true := by
  rcases List.eq_nil_or_concat conn.requests with none | ⟨front, last, queue⟩
  · rw [none]
    exact fun info member => absurd member List.not_mem_nil
  · rw [List.concat_eq_append] at queue
    rw [backUnsent_iff queue, Bool.not_eq_false'] at sent
    have order := clean.order
    rw [queue, List.map_append, List.map_singleton, List.pairwise_append] at order
    intro info member
    rw [queue] at member
    rcases List.mem_append.mp member with before | isLast
    · exact order.2.2 _ (List.mem_map_of_mem before) _ (List.mem_singleton_self _) sent
    · rwa [List.mem_singleton.mp isLast]

/-- A request waits in the queue. -/
theorem Sound.push {info : HttpConnectionRequestInfo zlib} (sound : Sound asked conn)
    (id : info.id = conn.created) (address : info.address ∈ asked)
    (unsent : info.headerSend = false) :
    Sound asked ({ conn with created := conn.created + 1 }.push info) := by
  refine ⟨sound.written, fun busy => ?_⟩
  have clean := sound.clean busy
  have isKey : key info = (conn.created, info.address, false) := by rw [key, id, unsent]
  refine ⟨?_, clean.here, ?_, clean.one, clean.settled⟩
  · rw [ConcurrentHttpConnection.push, List.map_append, List.map_singleton, isKey]
    exact clean.queue.snoc address fun sent => Bool.noConfusion sent
  · intro opening other member
    rcases List.mem_append.mp member with before | last
    · exact clean.fresh opening other before
    · rwa [List.mem_singleton.mp last]

/-- **A new request** is written, waits, or opens the connection. -/
theorem Sound.doRequest {info : HttpConnectionRequestInfo zlib} (twinFree : TwinFree asked)
    (sound : Sound asked conn) (id : info.id = conn.created) (address : info.address ∈ asked)
    (unsent : info.headerSend = false) :
    Sound asked ({ conn with created := conn.created + 1 }.doRequest env info) := by
  have pushed := sound.push id address unsent
  rw [ConcurrentHttpConnection.doRequest]
  split
  · exact pushed
  · next behind =>
      split
      · next here =>
          have busy : ¬ conn.Idle := by
            rintro ⟨socket, -⟩
            have connected := here.1
            rw [show ({ conn with created := conn.created + 1 } :
              ConcurrentHttpConnection zlib).socket = conn.socket from rfl, socket] at connected
            exact Bool.noConfusion connected
          have clean := sound.clean busy
          have later := pushed.clean busy
          have allSent := clean.queue.all_sent (Bool.eq_false_iff.mpr behind)
          have stored := @requests_store _ ({ conn with created := conn.created + 1 }.push info)
            conn.requests [] info { info with headerSend := true } rfl later.queue.distinct rfl
          obtain ⟨connecting, resolving⟩ := clean.settled here.1
          refine ⟨pushed.written.writeRequest twinFree clean.here address here.2 unsent,
            fun _ => ⟨?_, clean.here, ?_, fun _ => resolving, fun _ => ⟨connecting, resolving⟩⟩⟩
          · change CleanQueue asked (conn.created + 1) (List.map key (ConcurrentHttpConnection.store
              { info with headerSend := true }
              ({ conn with created := conn.created + 1 }.push info)).requests)
            rw [stored, List.map_append, List.map_singleton, key, id]
            refine clean.queue.snoc address fun _ key member => ?_
            obtain ⟨other, here, rfl⟩ := List.mem_map.mp member
            exact allSent other here
          · rintro (opening | opening)
            · exact absurd (connecting.symm.trans opening) (by decide)
            · exact absurd resolving opening
      · split
        · next empty =>
            have queue :
                ({ conn with created := conn.created + 1 }.push info).requests = [info] := by
              change conn.requests ++ [info] = [info]
              rw [show conn.requests = [] from empty, List.nil_append]
            refine (opened_connectHost info _).sound pushed.written ?_ ?_ ?_
            · rw [queue, List.map_singleton, key, id, unsent]
              exact (⟨fun _ none => absurd none List.not_mem_nil, List.nodup_nil,
                fun _ none => absurd none List.not_mem_nil, List.Pairwise.nil⟩ :
                CleanQueue asked conn.created []).snoc address fun sent => Bool.noConfusion sent
            · rw [queue]
              exact List.mem_singleton_self _
            · rw [queue]
              intro other member
              rwa [List.mem_singleton.mp member]
        · exact pushed

theorem Sound.checkReceive (sound : Sound asked conn) : Sound asked conn.checkReceive := by
  rw [ConcurrentHttpConnection.checkReceive]
  split
  · next ready =>
      have busy : ¬ conn.Idle := by
        rintro ⟨socket, -⟩
        rw [socket] at ready
        exact Bool.noConfusion ready.2.1
      have clean := sound.clean busy
      exact ⟨sound.written, fun _ => ⟨clean.queue, clean.here, clean.fresh, clean.one,
        clean.settled⟩⟩
  · exact sound

/-- The host and the port of an address that can be read. -/
def addressOf (urlstr : Bytes) : Option (Bytes × Int) :=
  let url := SimpleUri.parse urlstr
  if url.1 then some (url.2.host, url.2.port) else none

def Event.urlstr : Event → Option Bytes
  | .request _ urlstr _ => some urlstr
  | _ => none

/-- A request that is prepared is new. -/
theorem key_of_prepareRequest {method urlstr : Bytes} {headers : List (Bytes × Bytes)}
    {info : HttpConnectionRequestInfo zlib}
    (prepared : conn.prepareRequest method urlstr headers = some info) :
    info.id = conn.created ∧ addressOf urlstr = some info.address ∧ info.headerSend = false := by
  simp only [prepareRequest] at prepared
  split at prepared
  · cases prepared
  · next readable =>
      cases prepared
      have same := HttpConnectionRequestInfo.apply_prepareRequest (f := @key zlib)
        (fun _ _ => rfl) conn.options headers
        (HttpConnectionRequestInfo.create conn.created (SimpleUri.parse urlstr).2)
      simp only [key, Prod.mk.injEq] at same
      obtain ⟨id, address, unsent⟩ := same
      refine ⟨id, ?_, unsent⟩
      simp only [not_or, Bool.not_eq_false] at readable
      simp only [addressOf, if_pos readable.1]
      exact congrArg some address.symm

theorem busy_of_socket (differs : conn.socket ≠ ClientSocket.create) : ¬ conn.Idle :=
  fun idle => differs idle.1

/-- A connection that differs from a sound one in its flags only. -/
theorem Sound.fail {shut : ConcurrentHttpConnection zlib} (sound : Sound asked conn)
    (busy : ¬ conn.Idle) (same : shut.written = conn.written ∧ shut.created = conn.created ∧
      shut.requests = conn.requests ∧ shut.host = conn.host ∧ shut.port = conn.port)
    (opening : shut.socket.connecting = true ∨ shut.resolving ≠ none →
      conn.socket.connecting = true ∨ conn.resolving ≠ none)
    (one : shut.socket.connecting = true → shut.resolving = none)
    (settled : shut.socket.connected = true →
      shut.socket.connecting = false ∧ shut.resolving = none)
    (errcode : Int) : Sound asked (shut.fail env errcode) := by
  obtain ⟨written, created, requests, host, port⟩ := same
  have clean := sound.clean busy
  refine sound_fail ?_ ⟨?_, ?_, ?_, one, settled⟩ errcode
  · rw [WellWritten, written]
    exact sound.written
  · rw [created, requests]
    exact clean.queue
  · rw [host, port]
    exact clean.here
  · rw [requests]
    exact fun shutOpening => clean.fresh (opening shutOpening)

/-- **A connection is made.** -/
theorem Sound.onSocketConnect (twinFree : TwinFree asked) (sound : Sound asked conn)
    (connecting : conn.socket.connecting = true) :
    Sound asked { conn with
      socket := { conn.socket with connecting := false, connected := true } }.onSocketConnect := by
  have clean := sound.clean (busy_of_socket fun same => by
    rw [same] at connecting
    exact Bool.noConfusion connecting)
  rw [ConcurrentHttpConnection.onSocketConnect]
  split
  · exact .of_idle sound.written ⟨rfl, rfl⟩
  · exact sound_writeSameHost twinFree conn.requests [] _ rfl sound.written clean.queue clean.here
      (fun _ none => absurd none List.not_mem_nil) (clean.fresh (Or.inl connecting)) rfl
      (clean.one connecting)

/-- **A read.** -/
theorem Sound.onSocketReceive (sound : Sound asked conn)
    (receiving : conn.socket.receiving = true) (data : Bytes) :
    Sound asked ({ conn with
      socket := { conn.socket with receiving := false } }.onSocketReceive env data) := by
  have clean := sound.clean (busy_of_socket fun same => by
    rw [same] at receiving
    exact Bool.noConfusion receiving)
  have base : Sound asked { conn with socket := { conn.socket with receiving := false } } :=
    ⟨sound.written, fun _ => ⟨clean.queue, clean.here, clean.fresh, clean.one, clean.settled⟩⟩
  rw [ConcurrentHttpConnection.onSocketReceive]
  split
  · exact .of_idle sound.written ⟨rfl, rfl⟩
  · next info rest queue =>
      have member : info ∈ conn.requests := by
        rw [show conn.requests = info :: rest from queue]
        exact List.mem_cons_self ..
      have handled := base.of_within
        (process_within (@inner_keeps _ env conn.requests.length) data base.distinct member)
      simp only
      split
      · exact handled.checkReceive
      · exact handled

/-- **An address is found, or not.** -/
theorem Sound.onResolverAddress (sound : Sound asked conn) (resolving : conn.resolving ≠ none)
    (errcode : Int) (found : Bool) :
    Sound asked ({ conn with resolving := none }.onResolverAddress env errcode found) := by
  have busy : ¬ conn.Idle := fun idle => resolving idle.2
  have clean := sound.clean busy
  have unconnected : conn.socket.connected ≠ true :=
    fun connected => resolving (clean.settled connected).2
  rw [ConcurrentHttpConnection.onResolverAddress]
  split
  · refine sound.fail busy ?_ ?_ ?_ ?_ errcode
    · exact ⟨rfl, rfl, rfl, rfl, rfl⟩
    · exact fun _ => Or.inr resolving
    · exact fun _ => rfl
    · exact fun connected => absurd connected unconnected
  · refine ⟨sound.written, fun _ => ⟨clean.queue, clean.here, fun _ => ?_, fun _ => rfl, ?_⟩⟩
    · exact clean.fresh (Or.inr resolving)
    · exact fun connected => absurd connected unconnected

/-- **One step.** -/
theorem Sound.happen {event : Event} (twinFree : TwinFree asked) (sound : Sound asked conn)
    (asks : ∀ urlstr address, event.urlstr = some urlstr → addressOf urlstr = some address →
      address ∈ asked)
    (happens : conn.happen env event = some next) : Sound asked next := by
  have shut {socket : ClientSocket} (connecting : socket.connecting = false)
      (connected : socket.connected = false) (busy : conn.socket ≠ ClientSocket.create)
      (errcode : Int) : Sound asked ({ conn with socket }.fail env errcode) := by
    refine sound.fail (busy_of_socket busy) ?_ ?_ ?_ ?_ errcode
    · exact ⟨rfl, rfl, rfl, rfl, rfl⟩
    · rintro (opening | opening)
      · exact absurd (connecting.symm.trans opening) (by decide)
      · exact Or.inr opening
    · exact fun opening => absurd (connecting.symm.trans opening) (by decide)
    · exact fun opening => absurd (connected.symm.trans opening) (by decide)
  cases event with
  | request method urlstr headers =>
      obtain ⟨info, prepared, rfl⟩ := Option.map_eq_some_iff.mp happens
      obtain ⟨id, address, unsent⟩ := key_of_prepareRequest prepared
      exact sound.doRequest twinFree id (asks urlstr _ rfl address) unsent
  | downloadNothing =>
      cases happens
      exact ⟨sound.written, fun busy => ⟨(sound.clean busy).queue, (sound.clean busy).here,
        (sound.clean busy).fresh, (sound.clean busy).one, (sound.clean busy).settled⟩⟩
  | resolverAddress errcode found =>
      rw [ConcurrentHttpConnection.happen] at happens
      split at happens
      · cases happens
      · next resolving =>
          cases happens
          exact sound.onResolverAddress resolving errcode found
  | socketConnect =>
      rw [ConcurrentHttpConnection.happen] at happens
      split at happens
      · cases happens
      · next connecting =>
          cases happens
          exact sound.onSocketConnect twinFree (Decidable.not_not.mp connecting)
  | socketConnectFailed errcode =>
      rw [ConcurrentHttpConnection.happen] at happens
      split at happens
      · cases happens
      · next connecting =>
          cases happens
          refine shut rfl rfl ?_ errcode
          rintro same
          rw [same] at connecting
          exact connecting (by decide)
  | socketReceive data =>
      rw [ConcurrentHttpConnection.happen] at happens
      split at happens
      · next receiving =>
          cases happens
          exact sound.onSocketReceive receiving.1 data
      · cases happens
  | socketReceiveFailed errcode =>
      rw [ConcurrentHttpConnection.happen] at happens
      split at happens
      · next receiving =>
          cases happens
          refine shut rfl rfl ?_ errcode
          rintro same
          rw [same] at receiving
          exact Bool.noConfusion receiving
      · cases happens
  | socketSendFailed errcode =>
      rw [ConcurrentHttpConnection.happen] at happens
      split at happens
      · cases happens
      · next sent =>
          cases happens
          have busy : ¬ conn.Idle := busy_of_socket fun same => by
            rw [same] at sent
            exact sent rfl
          refine sound.fail busy ?_ ?_ ?_ ?_ errcode
          · exact ⟨rfl, rfl, rfl, rfl, rfl⟩
          · exact id
          · exact (sound.clean busy).one
          · exact fun connected => Bool.noConfusion connected
  | postedError =>
      rw [ConcurrentHttpConnection.happen] at happens
      split at happens
      · cases happens
      · cases happens
        exact .of_idle sound.written ⟨rfl, rfl⟩
  | pause =>
      cases happens
      exact ⟨sound.written, fun busy => ⟨(sound.clean busy).queue, (sound.clean busy).here,
        (sound.clean busy).fresh, (sound.clean busy).one, (sound.clean busy).settled⟩⟩
  | resume =>
      cases happens
      refine Sound.checkReceive ⟨sound.written, fun busy => ?_⟩
      exact ⟨(sound.clean busy).queue, (sound.clean busy).here, (sound.clean busy).fresh,
        (sound.clean busy).one, (sound.clean busy).settled⟩
  | close =>
      cases happens
      exact .of_idle sound.written ⟨rfl, rfl⟩

theorem happen_of_step {event : Event} (steps : conn.step env event = some next) :
    conn.happen env event = some next := by
  obtain ⟨result, happens, whole⟩ := Option.bind_eq_some_iff.mp steps
  split at whole
  · cases whole
  · exact happens.trans whole

/-- **Every run** whose addresses have no twins is sound. -/
theorem sound_of_runFrom (twinFree : TwinFree asked) {events : List Event}
    (asks : ∀ event ∈ events, ∀ urlstr address, event.urlstr = some urlstr →
      addressOf urlstr = some address → address ∈ asked) :
    ∀ {conn last : ConcurrentHttpConnection zlib}, Sound asked conn →
      runFrom (step env) conn events = some last → Sound asked last := by
  induction events with
  | nil =>
      intro conn last sound reached
      cases reached
      exact sound
  | cons event events ih =>
      intro conn last sound reached
      rw [List.forall_mem_cons] at asks
      obtain ⟨next, steps, later⟩ := Option.bind_eq_some_iff.mp reached
      exact ih asks.2 (sound.happen twinFree asks.1 (happen_of_step steps)) later

/-! ## Two addresses that are half the same -/

/-- What has to happen until a connection is made. -/
def opening (env : HttpConnectionEnvironment) (host : Bytes) : List Event :=
  if env.isAddress host then [.socketConnect] else [.resolverAddress 0 true, .socketConnect]

theorem prepareRequest_of_addressOf {urlstr : Bytes} {address : Bytes × Int}
    (readable : addressOf urlstr = some address) (conn : ConcurrentHttpConnection zlib) :
    ∃ info, conn.prepareRequest (ascii "GET") urlstr [] = some info ∧ info.address = address ∧
      info.headerSend = false := by
  obtain ⟨info, prepared⟩ : ∃ info, conn.prepareRequest (ascii "GET") urlstr [] = some info := by
    simp only [addressOf] at readable
    split at readable
    · next parsed =>
        refine ⟨_, if_neg ?_⟩
        rintro (unreadable | empty)
        · exact absurd (unreadable.symm.trans parsed) (by decide)
        · exact absurd empty (by decide)
    · cases readable
  obtain ⟨-, address, unsent⟩ := key_of_prepareRequest prepared
  exact ⟨info, prepared, Option.some.inj (address.symm.trans readable), unsent⟩

theorem step_of_happen {event : Event} (happens : conn.happen env event = some next)
    (working : next.broken = false) : conn.step env event = some next := by
  rw [step, happens, Option.bind_some, working]
  rfl

/-- A request opens a connection that has none. -/
theorem doRequest_first (empty : conn.requests = []) (closed : conn.socket.connected = false)
    (info : HttpConnectionRequestInfo zlib) :
    conn.doRequest env info = (conn.push info).connectHost env info := by
  rw [doRequest, backUnsent, empty, closed]
  rfl

/-- A connection that is made for one request. -/
theorem onSocketConnect_one {info : HttpConnectionRequestInfo zlib} (queue : conn.requests = [info])
    (sameHost : conn.isSameHost info = true) :
    conn.onSocketConnect = conn.receive.writeRequest info := by
  have writes : conn.receive.writeSameHost 1 0 = conn.receive.writeRequest info := by
    rw [writeSameHost, show conn.receive.requests[0]? = some info by rw [receive, queue]; rfl]
    simp only [writeSameHost]
    exact if_pos sameHost
  rw [onSocketConnect, ← writes]
  simp only [receive, queue]
  exact if_neg (List.cons_ne_nil _ _)

/-- A connection that is made for one request, with what comes of it. -/
theorem run_connect {info : HttpConnectionRequestInfo zlib} (queue : conn.requests = [info])
    (here : (conn.host, conn.port) = info.address) (working : conn.broken = false) :
    ∃ last, runFrom (step env) conn.connectoHostAddress [.socketConnect] = some last ∧
      (last.host, last.port) = info.address ∧ last.socket.connected = true ∧
      last.backUnsent = false ∧ last.broken = false := by
  obtain ⟨made, isMade⟩ : ∃ made : ConcurrentHttpConnection zlib, made = { conn with
      socket := { conn.socket with connecting := false, connected := true } } := ⟨_, rfl⟩
  have connects : made.onSocketConnect = made.receive.writeRequest info := by
    refine onSocketConnect_one (by rw [isMade]; exact queue) ?_
    have sameHost : info.url.host = conn.host := (congrArg Prod.fst here).symm
    rw [isSameHost, sameHost, isMade, beq_self_eq_true, Bool.true_or]
  have happens : conn.connectoHostAddress.happen env .socketConnect =
      some (made.receive.writeRequest info) := by
    rw [← connects, isMade]
    rfl
  have written : (made.receive.writeRequest info).broken = false := by
    rw [isMade]
    exact working
  refine ⟨_, Option.bind_eq_some_iff.mpr ⟨_, step_of_happen happens written, rfl⟩, ?_, ?_, ?_,
    written⟩
  · rw [isMade]
    exact here
  · rw [isMade]
    rfl
  · refine @backUnsent_iff _ _ [] { info with headerSend := true } ?_
    have kept : (made.receive.writeRequest info).requests =
        conn.requests.map fun other => if other.id = info.id then { info with headerSend := true }
          else other := by
      rw [isMade]
      rfl
    rw [kept, queue, List.map_singleton, if_pos rfl]
    rfl

/-- The first request of a connection is written as soon as the connection is made. -/
theorem run_opening {urlstr : Bytes} {address : Bytes × Int}
    (readable : addressOf urlstr = some address) (options : HttpConnectionOptions) :
    ∃ conn : ConcurrentHttpConnection zlib,
      runFrom (step env) (create options)
        (.request (ascii "GET") urlstr [] :: opening env address.1) = some conn ∧
      (conn.host, conn.port) = address ∧ conn.socket.connected = true ∧
      conn.backUnsent = false ∧ conn.broken = false := by
  obtain ⟨info, prepared, rfl, unsent⟩ := prepareRequest_of_addressOf readable
    (create options : ConcurrentHttpConnection zlib)
  have first : (create options).step env (.request (ascii "GET") urlstr []) =
      some (({ create options with created := 1 }.push info).connectHost env info) := by
    refine step_of_happen ?_ ?_
    · rw [ConcurrentHttpConnection.happen, prepared]
      exact congrArg some (doRequest_first rfl rfl info)
    · rw [connectHost]
      split
      · rfl
      · rfl
  have made := @run_connect zlib env { (create options : ConcurrentHttpConnection zlib) with
    created := 1, requests := [info], host := info.url.host, port := info.url.port }
    info rfl rfl rfl
  rw [runFrom, first, Option.bind_some, opening, connectHost]
  by_cases named : env.isAddress info.url.host = true
  · rw [if_pos (show env.isAddress info.address.1 = true from named)]
    simp only
    rw [if_pos (by exact named)]
    exact made
  · rw [if_neg (show ¬ env.isAddress info.address.1 = true from named)]
    simp only
    rw [if_neg (by exact named)]
    obtain ⟨last, reached, rest⟩ := made
    exact ⟨last, Option.bind_eq_some_iff.mpr ⟨_, step_of_happen rfl rfl, reached⟩, rest⟩

/-- **A request whose address is half the connection's** is written to the wrong server. -/
theorem misdirected {first second : Bytes} {here there : Bytes × Int}
    (firstRead : addressOf first = some here) (secondRead : addressOf second = some there)
    (twins : here.1 = there.1 ∨ here.2 = there.2) (differ : here ≠ there)
    (options : HttpConnectionOptions) :
    ∃ last : ConcurrentHttpConnection zlib,
      runFrom (step env) (create options)
        ((.request (ascii "GET") first [] :: opening env here.1) ++
          [.request (ascii "GET") second []]) = some last ∧ ¬ WellWritten last := by
  obtain ⟨conn, reached, rfl, connected, behind, working⟩ :=
    @run_opening zlib env _ _ firstRead options
  obtain ⟨info, prepared, rfl, -⟩ := prepareRequest_of_addressOf secondRead conn
  obtain ⟨grown, isGrown⟩ : ∃ grown : ConcurrentHttpConnection zlib, grown =
    { conn with created := conn.created + 1 } := ⟨_, rfl⟩
  have sameHost : grown.isSameHost info = true := by
    rw [isSameHost, Bool.or_eq_true, beq_iff_eq, beq_iff_eq, isGrown]
    exact twins.imp Eq.symm Eq.symm
  have writes : grown.doRequest env info = (grown.push info).writeRequest info := by
    have grownBehind : ¬ grown.backUnsent = true := by
      rw [isGrown]
      exact Bool.eq_false_iff.mp behind
    have grownConnected : grown.socket.connected = true := by
      rw [isGrown]
      exact connected
    rw [doRequest, if_neg grownBehind, if_pos ⟨grownConnected, sameHost⟩]
  have happens : conn.happen env (.request (ascii "GET") second []) =
      some ((grown.push info).writeRequest info) := by
    rw [← writes, ConcurrentHttpConnection.happen, prepared, isGrown]
    rfl
  refine ⟨(grown.push info).writeRequest info, ?_, fun well => ?_⟩
  · rw [runFrom_append, reached, Option.bind_some]
    refine Option.bind_eq_some_iff.mpr ⟨_, step_of_happen happens ?_, rfl⟩
    rw [isGrown]
    exact working
  · refine differ ?_
    have entry := well ⟨conn.host, conn.port, info.address, info.headerSend⟩ ?_
    · exact entry.1
    · rw [isGrown]
      exact List.mem_append_right _ (List.mem_singleton_self _)

/-- **Every request is written to its own server**, whatever happens, exactly if no two addresses
share only their host or only their port. -/
theorem wellWritten_iff_twinFree (env : HttpConnectionEnvironment) (options : HttpConnectionOptions)
    (urls : List Bytes) :
    (∀ (events : List Event) (last : ConcurrentHttpConnection zlib),
      (∀ event ∈ events, ∀ urlstr, event.urlstr = some urlstr → urlstr ∈ urls) →
      runFrom (step env) (create options) events = some last → WellWritten last) ↔
    TwinFree (urls.filterMap addressOf) := by
  constructor
  · intro always here isHere there isThere twins
    by_contra differ
    obtain ⟨first, firstIn, firstRead⟩ := List.mem_filterMap.mp isHere
    obtain ⟨second, secondIn, secondRead⟩ := List.mem_filterMap.mp isThere
    obtain ⟨last, reached, ill⟩ :=
      @misdirected zlib env _ _ _ _ firstRead secondRead twins differ options
    refine ill (always _ last ?_ reached)
    intro event member urlstr asks
    rcases List.mem_append.mp member with isFirst | isSecond
    · rcases List.mem_cons.mp isFirst with rfl | connects
      · cases asks
        exact firstIn
      · rw [opening] at connects
        split at connects
        · rw [List.mem_singleton.mp connects] at asks
          cases asks
        · rcases List.mem_pair.mp connects with rfl | rfl
          · cases asks
          · cases asks
    · rw [List.mem_singleton.mp isSecond] at asks
      cases asks
      exact secondIn
  · intro twinFree events last asks reached
    refine (sound_of_runFrom twinFree ?_ (.of_idle (fun _ none => absurd none List.not_mem_nil)
      ⟨rfl, rfl⟩) reached).written
    intro event member urlstr address isUrl readable
    exact List.mem_filterMap.mpr ⟨urlstr, asks event member urlstr isUrl, readable⟩

/-! ## A queue that nobody serves -/

/-- The requests that are made on a connection, in the order of the events. -/
def requestsOf (conn : ConcurrentHttpConnection zlib) :
    List Event → List (HttpConnectionRequestInfo zlib)
  | [] => []
  | .request method urlstr headers :: events =>
      (conn.prepareRequest method urlstr headers).toList ++
        requestsOf { conn with created := conn.created + 1 } events
  | _ :: events => requestsOf conn events

/-- What is made of a request depends on the options and its number only. -/
theorem requestsOf_congr {events : List Event} {other : ConcurrentHttpConnection zlib}
    (created : conn.created = other.created) (options : conn.options = other.options) :
    conn.requestsOf events = other.requestsOf events := by
  induction events generalizing conn other with
  | nil => rfl
  | cons event events ih =>
      cases event with
      | request method urlstr headers =>
          have prepared : conn.prepareRequest method urlstr headers =
              other.prepareRequest method urlstr headers := by
            rw [prepareRequest, prepareRequest, created, options]
          rw [requestsOf, requestsOf, prepared]
          exact congrArg (_ ++ ·) (ih (congrArg (· + 1) created) options)
      | _ => exact ih created options

/-- What a connection can become while it is idle and its queue is not empty: `made` are the
requests that have come since. -/
structure Stalled (base conn : ConcurrentHttpConnection zlib)
    (made : List (HttpConnectionRequestInfo zlib)) : Prop where
  idle : conn.Idle
  written : conn.written = base.written
  requests : conn.requests = base.requests ++ made
  log : ∃ errors : List Int, conn.log = base.log ++ errors.map .httpError

/-- No event but a `close` makes an idle connection serve its queue: a new request waits for those
before it. -/
theorem Stalled.step {event : Event} {made : List (HttpConnectionRequestInfo zlib)}
    (stalled : Stalled base conn made) (pending : base.requests ≠ []) (notClose : event ≠ .close)
    (steps : conn.step env event = some next) :
    ∃ new, Stalled base next (made ++ new) ∧
      ∀ events, conn.requestsOf (event :: events) = new ++ next.requestsOf events := by
  obtain ⟨⟨socket, resolving⟩, written, requests, errors, log⟩ := stalled
  have queued : conn.requests ≠ [] := fun none =>
    pending (List.append_eq_nil_iff.mp (requests ▸ none)).1
  have unchanged : conn.requests = base.requests ++ (made ++ []) := by
    rw [List.append_nil, requests]
  have happens := happen_of_step steps
  cases event with
  | request method urlstr headers =>
      obtain ⟨info, prepared, rfl⟩ := Option.map_eq_some_iff.mp happens
      have closed : conn.socket.connected = false := by
        rw [socket]
        rfl
      have waits : { conn with created := conn.created + 1 }.doRequest env info =
          { conn with created := conn.created + 1 }.push info :=
        @doRequest_waits _ env { conn with created := conn.created + 1 } queued closed info
      rw [waits]
      refine ⟨[info], ⟨⟨socket, resolving⟩, written, ?_, errors, log⟩, fun events => ?_⟩
      · rw [push, ← List.append_assoc, ← requests]
      · rw [requestsOf, prepared]
        exact congrArg ([info] ++ ·) (requestsOf_congr rfl rfl)
  | downloadNothing =>
      cases happens
      exact ⟨[], ⟨⟨socket, resolving⟩, written, unchanged, errors, log⟩,
        fun _ => requestsOf_congr rfl rfl⟩
  | resolverAddress errcode found =>
      rw [ConcurrentHttpConnection.happen, if_pos resolving] at happens
      cases happens
  | socketConnect =>
      rw [ConcurrentHttpConnection.happen, socket] at happens
      cases happens
  | socketConnectFailed errcode =>
      rw [ConcurrentHttpConnection.happen, socket] at happens
      cases happens
  | socketReceive data =>
      rw [ConcurrentHttpConnection.happen, socket] at happens
      rw [if_neg (fun all => Bool.noConfusion all.1)] at happens
      cases happens
  | socketReceiveFailed errcode =>
      rw [ConcurrentHttpConnection.happen, socket] at happens
      cases happens
  | socketSendFailed errcode =>
      rw [ConcurrentHttpConnection.happen, socket] at happens
      cases happens
  | postedError =>
      rw [ConcurrentHttpConnection.happen] at happens
      split at happens
      · cases happens
      · next errcode posted _ =>
          cases happens
          refine ⟨[], ⟨⟨rfl, rfl⟩, written, unchanged, errors ++ [errcode], ?_⟩,
            fun _ => requestsOf_congr rfl rfl⟩
          rw [List.map_append, ← List.append_assoc, ← log]
          rfl
  | pause =>
      cases happens
      exact ⟨[], ⟨⟨socket, resolving⟩, written, unchanged, errors, log⟩,
        fun _ => requestsOf_congr rfl rfl⟩
  | resume =>
      cases happens
      have still : { conn with pauseReceive := false }.checkReceive =
          { conn with pauseReceive := false } := by
        rw [checkReceive, if_neg]
        rintro ⟨-, connected, -⟩
        have connected : conn.socket.connected = true := connected
        rw [socket] at connected
        exact Bool.noConfusion connected
      rw [still]
      exact ⟨[], ⟨⟨socket, resolving⟩, written, unchanged, errors, log⟩,
        fun _ => requestsOf_congr rfl rfl⟩
  | close => exact absurd rfl notClose

/-- In a run without a `close` all requests that are made wait, in their order. -/
theorem stalled_runFrom {events : List Event} {made : List (HttpConnectionRequestInfo zlib)}
    (stalled : Stalled base conn made) (pending : base.requests ≠ [])
    (notClosed : ∀ event ∈ events, event ≠ .close) {last : ConcurrentHttpConnection zlib}
    (reached : runFrom (step env) conn events = some last) :
    Stalled base last (made ++ conn.requestsOf events) := by
  induction events generalizing conn made with
  | nil =>
      cases reached
      rw [requestsOf, List.append_nil]
      exact stalled
  | cons event events ih =>
      obtain ⟨after, steps, later⟩ := Option.bind_eq_some_iff.mp reached
      rw [List.forall_mem_cons] at notClosed
      obtain ⟨new, waits, requests⟩ := stalled.step pending notClosed.1 steps
      rw [requests, ← List.append_assoc]
      exact ih waits notClosed.2 later

/-- The error that an event brings. -/
def Event.failure : Event → Option Int
  | .resolverAddress errcode found => if errcode ≠ 0 ∨ found = false then some errcode else none
  | .socketConnectFailed errcode => some errcode
  | .socketReceiveFailed errcode => some errcode
  | .socketSendFailed errcode => some errcode
  | _ => none

theorem handleError_of_error {errcode : Int} {info : HttpConnectionRequestInfo zlib}
    {behind : List (HttpConnectionRequestInfo zlib)} (queue : conn.requests = info :: behind)
    (notEnd : ¬ (info.responseHeaderReceived = true ∧ errcode = HttpErrorCodes.eof))
    (finish : HttpConnectionRequestInfo zlib → ConcurrentHttpConnection zlib →
      ConcurrentHttpConnection zlib) :
    (conn.handleError env finish errcode).Idle ∧
      (conn.handleError env finish errcode).written = conn.written ∧
      (conn.handleError env finish errcode).requests =
        behind.map HttpConnectionRequestInfo.resetHandlingState ∧
      (conn.handleError env finish errcode).log = conn.log ++ [.httpError errcode] ∧
      (conn.handleError env finish errcode).created = conn.created ∧
      (conn.handleError env finish errcode).options = conn.options := by
  rw [handleError, queue]
  simp only
  rw [if_neg notEnd]
  refine ⟨idle_of_onError .., ?_⟩
  cases behind with
  | nil => exact ⟨rfl, rfl, rfl, rfl, rfl⟩
  | cons other behind =>
      have opened := @opened_connectHost _ env other.resetHandlingState
        (conn.popped (other :: behind))
      exact ⟨opened.written, opened.requests, congrArg (· ++ _) opened.log, opened.created,
        opened.options⟩

/-- A failure that does not end a response leaves the requests behind the first in the queue of an
idle connection. -/
theorem stalled_of_failure {event : Event} {errcode : Int}
    {info : HttpConnectionRequestInfo zlib} {behind : List (HttpConnectionRequestInfo zlib)}
    (queue : conn.requests = info :: behind) (fails : event.failure = some errcode)
    (notEnd : ¬ (info.responseHeaderReceived = true ∧ errcode = HttpErrorCodes.eof))
    (steps : conn.step env event = some next) :
    next.Idle ∧ next.written = conn.written ∧
      next.requests = behind.map HttpConnectionRequestInfo.resetHandlingState ∧
      next.log = conn.log ++ [.httpError errcode] ∧ next.created = conn.created ∧
      next.options = conn.options := by
  have happens := happen_of_step steps
  have ends {shut : ConcurrentHttpConnection zlib} (requests : shut.requests = conn.requests)
      (written : shut.written = conn.written) (log : shut.log = conn.log)
      (created : shut.created = conn.created) (options : shut.options = conn.options) :
      (shut.fail env errcode).Idle ∧ (shut.fail env errcode).written = conn.written ∧
        (shut.fail env errcode).requests =
          behind.map HttpConnectionRequestInfo.resetHandlingState ∧
        (shut.fail env errcode).log = conn.log ++ [.httpError errcode] ∧
        (shut.fail env errcode).created = conn.created ∧
        (shut.fail env errcode).options = conn.options := by
    have fails := @handleError_of_error _ env shut _ _ _ (requests.trans queue) notEnd
    rw [fail, innerOf, ← written, ← log, ← created, ← options]
    cases shut.requests.length with
    | zero => exact fails _
    | succ depth => exact fails _
  cases event with
  | request method urlstr headers => cases fails
  | downloadNothing => cases fails
  | resolverAddress reported found =>
      rw [ConcurrentHttpConnection.happen] at happens
      split at happens
      · cases happens
      · rw [Event.failure] at fails
        split at fails
        · next failed =>
            cases fails
            cases happens
            rw [onResolverAddress, if_pos failed]
            exact ends rfl rfl rfl rfl rfl
        · cases fails
  | socketConnect => cases fails
  | socketConnectFailed reported =>
      cases fails
      rw [ConcurrentHttpConnection.happen] at happens
      split at happens
      · cases happens
      · cases happens
        exact ends rfl rfl rfl rfl rfl
  | socketReceive data => cases fails
  | socketReceiveFailed reported =>
      cases fails
      rw [ConcurrentHttpConnection.happen] at happens
      split at happens
      · cases happens
        exact ends rfl rfl rfl rfl rfl
      · cases happens
  | socketSendFailed reported =>
      cases fails
      rw [ConcurrentHttpConnection.happen] at happens
      split at happens
      · cases happens
      · cases happens
        exact ends rfl rfl rfl rfl rfl
  | postedError => cases fails
  | pause => cases fails
  | resume => cases fails
  | close => cases fails

/-- **The requests behind one that fails are never written**: after a failure that does not end a
response they stay in the queue until the connection is closed, whatever else happens, and those
that come later wait behind them. -/
theorem stalled_of_run {event : Event} {errcode : Int} {info : HttpConnectionRequestInfo zlib}
    {behind : List (HttpConnectionRequestInfo zlib)} (queue : conn.requests = info :: behind)
    (pending : behind ≠ []) (fails : event.failure = some errcode)
    (notEnd : ¬ (info.responseHeaderReceived = true ∧ errcode = HttpErrorCodes.eof))
    {events : List Event}
    (notClosed : ∀ event ∈ events, event ≠ .close) {last : ConcurrentHttpConnection zlib}
    (reached : runFrom (step env) conn (event :: events) = some last) :
    last.Idle ∧ last.written = conn.written ∧
      last.requests = behind.map HttpConnectionRequestInfo.resetHandlingState ++
        conn.requestsOf events ∧
      ∃ errors : List Int, last.log = conn.log ++ errors.map .httpError := by
  obtain ⟨next, steps, later⟩ := Option.bind_eq_some_iff.mp reached
  obtain ⟨idle, written, requests, log, created, options⟩ :=
    stalled_of_failure queue fails notEnd steps
  have waits : next.requests ≠ [] := by
    rw [requests]
    exact fun none => pending (List.map_eq_nil_iff.mp none)
  have stalled : Stalled next next [] :=
    ⟨idle, rfl, (List.append_nil _).symm, [], (List.append_nil _).symm⟩
  obtain ⟨idle, kept, queued, errors, told⟩ := stalled_runFrom stalled waits notClosed later
  refine ⟨idle, kept.trans written, ?_, errcode :: errors, ?_⟩
  · rw [queued, requests, List.nil_append, requestsOf_congr created options]
  · rw [told, log, List.append_assoc]
    rfl

/-- A connection on which two requests are made and written. -/
def asking : List Event :=
  [.request (ascii "GET") (ascii "http://10.0.0.1/") [],
    .request (ascii "GET") (ascii "http://10.0.0.1/") [], .socketConnect]

/-- The server closes the connection before it has answered the first of two requests. -/
theorem stalled_of_run_answering :
    ∃ conn last : ConcurrentHttpConnection Zlib.refusing,
      runFrom (step ⟨fun _ => true, fun _ => true⟩) (create .create) asking = some conn ∧
      runFrom (step ⟨fun _ => true, fun _ => true⟩) conn
        [.socketReceiveFailed HttpErrorCodes.eof, .resume,
          .request (ascii "GET") (ascii "http://10.0.0.1/") []] = some last ∧
      conn.written.length = 2 ∧ last.Idle ∧ last.written = conn.written ∧
      last.requests.length = 2 := by
  obtain ⟨conn, opened, ⟨first, second, queue, unanswered⟩, both, last, reached, three⟩ :
      ∃ conn : ConcurrentHttpConnection Zlib.refusing,
        runFrom (step ⟨fun _ => true, fun _ => true⟩) (create .create) asking = some conn ∧
        (∃ first second, conn.requests = [first, second] ∧
          first.responseHeaderReceived = false) ∧ conn.written.length = 2 ∧
        ∃ last, runFrom (step ⟨fun _ => true, fun _ => true⟩) conn
          [.socketReceiveFailed HttpErrorCodes.eof, .resume,
            .request (ascii "GET") (ascii "http://10.0.0.1/") []] = some last ∧
          (conn.requestsOf [.resume,
            .request (ascii "GET") (ascii "http://10.0.0.1/") []]).length = 1 := by
    exact ⟨_, rfl, ⟨_, _, rfl, rfl⟩, rfl, _, rfl, rfl⟩
  obtain ⟨idle, written, requests, -⟩ := @stalled_of_run _ ⟨fun _ => true, fun _ => true⟩ conn
    (.socketReceiveFailed HttpErrorCodes.eof) _ _ _ queue (List.cons_ne_nil _ _) rfl
    (fun ended => Bool.false_ne_true (unanswered.symm.trans ended.1))
    [.resume, .request (ascii "GET") (ascii "http://10.0.0.1/") []] (by simp) last reached
  refine ⟨conn, last, opened, reached, both, idle, written, ?_⟩
  rw [requests, List.length_append, three]
  rfl

end ConcurrentHttpConnection

end Xul
