import Xul.Foundation.Runs
import Xul.Std.Bytes

/-!
# The sending queue of a TCP socket

`asio_tcp_socket` keeps accepted buffers in a queue and has the front of the queue
written; that the queue is not empty is its only sign that a write is in flight.
The model joins the socket's own code with the part of the library under it that
the code relies on: every started write completes once, every started receive and
connect completes once, and the socket hears of them in any order.

The callbacks to the listener are the last thing each handler does, so what a
listener calls from inside one is a later event of the run.  What the code asserts of its
callers is left to them: data that are not empty, and a socket that is connected and not
receiving when it is asked to receive.
-/

set_option autoImplicit false

namespace Xul

open Foundation

/-- A buffer with its own address: two buffers may have the same bytes. -/
structure SendBuffer where
  allocation : Nat
  bytes : Bytes
deriving DecidableEq

/-- The native socket: what was started on it and has not completed. -/
structure NativeSocket where
  isOpen : Bool
  writes : List SendBuffer
  receives : Nat
  connects : Nat

/-- `asio_tcp_socket`. -/
structure AsioTcpSocket where
  sendingQueue : List SendBuffer
  maxSendingQueueSize : Int
  connected : Bool
  receiving : Bool
  native : NativeSocket

namespace AsioTcpSocket

/-- The constructor for an accepted connection. -/
def accepted : AsioTcpSocket := ⟨[], 16, true, false, ⟨true, [], 0, 0⟩⟩

/-- The constructor for a socket that is not connected yet. -/
def create : AsioTcpSocket := ⟨[], 16, false, false, ⟨false, [], 0, 0⟩⟩

def setMaxSendingQueueSize (socket : AsioTcpSocket) (maxSendingQueueSize : Int) :
    AsioTcpSocket :=
  if maxSendingQueueSize = 0 then socket else { socket with maxSendingQueueSize }

/-- `do_send_n` starts an `async_write`. -/
def doSendN (socket : AsioTcpSocket) (buf : SendBuffer) : AsioTcpSocket :=
  { socket with native := { socket.native with writes := socket.native.writes ++ [buf] } }

/-- `process_sending_queue` writes the front, or gives up when the socket is closed. -/
def processSendingQueue (socket : AsioTcpSocket) : AsioTcpSocket :=
  match socket.sendingQueue with
  | [] => socket
  | buf :: _ => if socket.native.isOpen then socket.doSendN buf else { socket with sendingQueue := [] }

/-- `send_n`; `buf` is the copy of the data that it allocates. -/
def sendN (socket : AsioTcpSocket) (buf : SendBuffer) : Bool × AsioTcpSocket :=
  if toSizeT socket.maxSendingQueueSize ≤ socket.sendingQueue.length then (false, socket)
  else
    let pushed := { socket with sendingQueue := socket.sendingQueue ++ [buf] }
    (true, if pushed.sendingQueue.length = 1 then pushed.processSendingQueue else pushed)

/-- `receive` and `receive_n`. -/
def receive (socket : AsioTcpSocket) : AsioTcpSocket :=
  { socket with
    receiving := true
    native := { socket.native with receives := socket.native.receives + 1 } }

def onReceive (socket : AsioTcpSocket) (errcode : Int) : AsioTcpSocket :=
  let socket := { socket with receiving := false }
  if errcode ≠ 0 then { socket with connected := false, sendingQueue := [] } else socket

def onSend (socket : AsioTcpSocket) (errcode : Int) : AsioTcpSocket :=
  if errcode ≠ 0 then { socket with connected := false, sendingQueue := [] }
  else
    match socket.sendingQueue with
    | [] => socket
    | _ :: rest => { socket with sendingQueue := rest }.processSendingQueue

/-- `close` leaves the sending queue alone. -/
def close (socket : AsioTcpSocket) : AsioTcpSocket :=
  { socket with connected := false, native := { socket.native with isOpen := false } }

/-- `connect` closes the native socket and opens it again. -/
def connect (socket : AsioTcpSocket) : AsioTcpSocket :=
  let closed := socket.close
  { closed with
    native := { closed.native with isOpen := true, connects := closed.native.connects + 1 } }

def onConnect (socket : AsioTcpSocket) (errcode : Int) : AsioTcpSocket :=
  { socket with sendingQueue := [], connected := errcode = 0, receiving := false }

end AsioTcpSocket

/-! ## What the handlers do to the queue

Each handler keeps the front of the queue in flight, and leaves the queue as its
caller sees it or clears it. -/

namespace AsioTcpSocket

/-- The write in flight is the one of the front of the queue. -/
def FrontInFlight (socket : AsioTcpSocket) : Prop :=
  socket.native.writes = socket.sendingQueue.take 1

theorem processSendingQueue_spec {socket : AsioTcpSocket} (idle : socket.native.writes = []) :
    socket.processSendingQueue.FrontInFlight ∧
      (socket.processSendingQueue.sendingQueue = socket.sendingQueue ∨
        socket.processSendingQueue.sendingQueue = [] ∧ socket.native.isOpen = false) := by
  cases queue : socket.sendingQueue with
  | nil => simp [processSendingQueue, FrontInFlight, queue, idle]
  | cons buf rest =>
      cases isOpen : socket.native.isOpen with
      | true => simp [processSendingQueue, FrontInFlight, doSendN, queue, isOpen, idle]
      | false => simp [processSendingQueue, FrontInFlight, queue, isOpen, idle]

theorem sendN_spec {socket : AsioTcpSocket} (inFlight : socket.FrontInFlight)
    (buf : SendBuffer) :
    (socket.sendN buf).2.FrontInFlight ∧
      ((socket.sendN buf).1 = true →
        (socket.sendN buf).2.sendingQueue = socket.sendingQueue ++ [buf] ∨
          (socket.sendN buf).2.sendingQueue = [] ∧ socket.native.isOpen = false) ∧
      ((socket.sendN buf).1 = false → (socket.sendN buf).2 = socket) := by
  simp only [sendN]
  split
  · exact ⟨inFlight, fun accepted => absurd accepted (by simp), fun _ => rfl⟩
  · split
    · next single =>
        have empty : socket.sendingQueue = [] := by
          simpa using single
        have spec := processSendingQueue_spec
          (show { socket with sendingQueue := socket.sendingQueue ++ [buf] }.native.writes = [] by
            simpa [FrontInFlight, empty] using inFlight)
        exact ⟨spec.1, fun _ => spec.2, fun refused => absurd refused (by simp)⟩
    · next several =>
        refine ⟨?_, fun _ => Or.inl rfl, fun refused => absurd refused (by simp)⟩
        have nonempty : socket.sendingQueue ≠ [] := by
          intro empty
          simp [empty] at several
        simpa [FrontInFlight, List.take_append_of_le_length
          (Nat.succ_le_of_lt (List.length_pos_of_ne_nil nonempty))] using inFlight

/-- After its own write has completed, a handler pops the front and writes the next. -/
theorem onSend_spec {socket : AsioTcpSocket} (idle : socket.native.writes = []) :
    (socket.onSend 0).FrontInFlight ∧
      ((socket.onSend 0).sendingQueue = socket.sendingQueue.tail ∨
        (socket.onSend 0).sendingQueue = [] ∧ socket.native.isOpen = false) := by
  cases queue : socket.sendingQueue with
  | nil => simp [onSend, FrontInFlight, queue, idle]
  | cons buf rest =>
      have spec := processSendingQueue_spec
        (show { socket with sendingQueue := rest }.native.writes = [] from idle)
      simpa [onSend, queue] using spec

end AsioTcpSocket

/-! ## Runs -/

/-- What happens to a socket.  A completion with the code 0 is a success. -/
inductive SocketEvent where
  | sendN (data : Bytes)
  | receive
  | receiveCompleted (errcode : Int)
  | writeCompleted (buf : SendBuffer) (errcode : Int)
  | close
  | connect
  | connectCompleted (errcode : Int)
  | setMaxSendingQueueSize (size : Int)
deriving DecidableEq

/-- A buffer that left the queue without being transmitted.  It is excused if its queue could
not be sent any more: a write had failed, or the socket was closed. -/
structure DroppedBuffer where
  buffer : SendBuffer
  excused : Bool

/-- A socket with the record of what it accepted, what was transmitted, which buffer
each successful completion removed, and what was dropped from the queue. -/
structure SocketRun where
  socket : AsioTcpSocket
  allocated : Nat
  accepted : List SendBuffer
  transmitted : List SendBuffer
  removals : List (SendBuffer × Option SendBuffer)
  dropped : List DroppedBuffer

namespace SocketRun

def start (socket : AsioTcpSocket) : SocketRun := ⟨socket, 0, [], [], [], []⟩

/-- What a queue loses when it is cleared. -/
def cleared (before : List SendBuffer) (socket : AsioTcpSocket) (excused : Bool) :
    List DroppedBuffer :=
  if socket.sendingQueue = [] then before.map (⟨·, excused⟩) else []

/-- The buffer of a completed write is no longer in flight. -/
def retire (socket : AsioTcpSocket) (buf : SendBuffer) : AsioTcpSocket :=
  { socket with native := { socket.native with writes := socket.native.writes.erase buf } }

def step (run : SocketRun) : SocketEvent → Option SocketRun
  | .sendN data =>
      let buf : SendBuffer := ⟨run.allocated, data⟩
      let sent := run.socket.sendN buf
      some <|
        if sent.1 then
          { run with
            socket := sent.2
            allocated := run.allocated + 1
            accepted := run.accepted ++ [buf]
            dropped := run.dropped ++
              cleared (run.socket.sendingQueue ++ [buf]) sent.2 (!run.socket.native.isOpen) }
        else run
  | .receive => some { run with socket := run.socket.receive }
  | .receiveCompleted errcode =>
      if run.socket.native.receives = 0 then none
      else
        let socket := { run.socket with native :=
          { run.socket.native with receives := run.socket.native.receives - 1 } }
        let after := socket.onReceive errcode
        some { run with
          socket := after
          dropped := run.dropped ++
            (if errcode ≠ 0 then cleared run.socket.sendingQueue after false else []) }
  | .writeCompleted buf errcode =>
      if buf ∈ run.socket.native.writes then
        let after := (retire run.socket buf).onSend errcode
        some <|
          if errcode ≠ 0 then
            { run with
              socket := after
              dropped := run.dropped ++ cleared run.socket.sendingQueue after true }
          else
            { run with
              socket := after
              transmitted := run.transmitted ++ [buf]
              removals := run.removals ++ [(buf, run.socket.sendingQueue.head?)]
              dropped := run.dropped ++
                cleared run.socket.sendingQueue.tail after (!run.socket.native.isOpen) }
      else none
  | .close => some { run with socket := run.socket.close }
  | .connect => some { run with socket := run.socket.connect }
  | .connectCompleted errcode =>
      if run.socket.native.connects = 0 then none
      else
        let socket := { run.socket with native :=
          { run.socket.native with connects := run.socket.native.connects - 1 } }
        let after := socket.onConnect errcode
        some { run with
          socket := after
          dropped := run.dropped ++ cleared run.socket.sendingQueue after false }
  | .setMaxSendingQueueSize size =>
      some { run with socket := run.socket.setMaxSendingQueueSize size }

/-! ## The discipline -/

/-- **The discipline of the sending queue.**  At most one write is in flight, it is the
write of the front of the queue, and the front of a queue that is not empty is being written.
Every successful completion has removed the buffer it transmitted.  What was transmitted and
what is queued are accepted buffers, each once and in the order of acceptance; the other
accepted buffers were dropped, which is excused, and there are none as long as nothing was
dropped. -/
structure Discipline (run : SocketRun) : Prop where
  oneWrite : run.socket.native.writes.length ≤ 1
  front : ∀ buf ∈ run.socket.native.writes, run.socket.sendingQueue.head? = some buf
  flowing : run.socket.sendingQueue ≠ [] → run.socket.native.writes ≠ []
  removes : ∀ removal ∈ run.removals, removal.2 = some removal.1
  inOrder : (run.transmitted ++ run.socket.sendingQueue).Sublist run.accepted
  once : (run.transmitted ++ run.socket.sendingQueue).Nodup
  accounted : run.accepted.Perm (run.transmitted ++ run.socket.sendingQueue ++
    run.dropped.map DroppedBuffer.buffer)
  excused : ∀ drop ∈ run.dropped, drop.excused = true
  whole : run.dropped = [] → run.transmitted ++ run.socket.sendingQueue = run.accepted

/-- A handler that clears the queue is only called when the queue is empty: a receive
that fails, and a connect that completes. -/
def ClearsIdle (run : SocketRun) : SocketEvent → Prop
  | .receiveCompleted errcode => errcode ≠ 0 → run.socket.sendingQueue = []
  | .connectCompleted _ => run.socket.sendingQueue = []
  | _ => True

/-- The accepted buffers are those transmitted, those queued and those dropped with an
excuse. -/
structure Ledger (accepted transmitted queue : List SendBuffer) (dropped : List DroppedBuffer) :
    Prop where
  inOrder : (transmitted ++ queue).Sublist accepted
  accounted : accepted.Perm (transmitted ++ queue ++ dropped.map DroppedBuffer.buffer)
  excused : ∀ drop ∈ dropped, drop.excused = true

/-- Nothing is missing as long as nothing was dropped. -/
theorem Ledger.whole {accepted transmitted queue : List SendBuffer} {dropped : List DroppedBuffer}
    (ledger : Ledger accepted transmitted queue dropped) (nothing : dropped = []) :
    transmitted ++ queue = accepted := by
  have length := ledger.accounted.length_eq
  rw [nothing, List.map_nil, List.append_nil] at length
  exact ledger.inOrder.eq_of_length length.symm

/-- Clearing a queue with an excuse keeps the ledger: what is lost is recorded as dropped. -/
theorem Ledger.cleared {accepted transmitted before : List SendBuffer}
    {dropped : List DroppedBuffer} {socket : AsioTcpSocket} {excused : Bool}
    (ledger : Ledger accepted transmitted before dropped)
    (kept : socket.sendingQueue = before ∨
      socket.sendingQueue = [] ∧ (excused = true ∨ before = [])) :
    Ledger accepted transmitted socket.sendingQueue
      (dropped ++ cleared before socket excused) := by
  by_cases empty : socket.sendingQueue = []
  · have lost : (SocketRun.cleared before socket excused).map DroppedBuffer.buffer = before := by
      rw [SocketRun.cleared, if_pos empty, List.map_map]
      exact List.map_id before
    refine ⟨?_, ?_, ?_⟩
    · rw [empty]
      exact ((List.nil_sublist before).append_left transmitted).trans ledger.inOrder
    · refine ledger.accounted.trans ?_
      rw [empty, List.append_nil, List.map_append, lost, List.append_assoc]
      exact List.perm_append_comm.append_left transmitted
    · intro drop member
      rcases List.mem_append.mp member with old | new
      · exact ledger.excused drop old
      · rw [SocketRun.cleared, if_pos empty] at new
        obtain ⟨buf, present, rfl⟩ := List.mem_map.mp new
        have some : before ≠ [] := List.ne_nil_of_mem present
        rcases kept with same | ⟨-, excuse | none⟩
        · exact absurd (same.symm.trans empty) some
        · exact excuse
        · exact absurd none some
  · have same := kept.resolve_right fun nothing => empty nothing.1
    rw [SocketRun.cleared, if_neg empty, List.append_nil, same]
    exact ledger

/-- An accepted buffer goes to the end of the queue. -/
theorem Ledger.accept {accepted transmitted queue : List SendBuffer}
    {dropped : List DroppedBuffer} (ledger : Ledger accepted transmitted queue dropped)
    (buf : SendBuffer) :
    Ledger (accepted ++ [buf]) transmitted (queue ++ [buf]) dropped where
  inOrder := by
    rw [← List.append_assoc]
    exact ledger.inOrder.append_right [buf]
  accounted := by
    refine (ledger.accounted.append_right [buf]).trans ?_
    rw [← List.append_assoc transmitted, List.append_assoc, List.append_assoc _ [buf]]
    exact List.perm_append_comm.append_left (transmitted ++ queue)
  excused := ledger.excused

/-- The front of the queue has been transmitted. -/
theorem Ledger.transmit {accepted transmitted rest : List SendBuffer} {buf : SendBuffer}
    {dropped : List DroppedBuffer}
    (ledger : Ledger accepted transmitted (buf :: rest) dropped) :
    Ledger accepted (transmitted ++ [buf]) rest dropped := by
  have same : transmitted ++ [buf] ++ rest = transmitted ++ buf :: rest :=
    List.append_assoc transmitted [buf] rest
  exact ⟨same ▸ ledger.inOrder, same ▸ ledger.accounted, ledger.excused⟩

/-- What holds in every state that a run with idle clears reaches. -/
structure Orderly (run : SocketRun) : Prop where
  inFlight : run.socket.FrontInFlight
  removes : ∀ removal ∈ run.removals, removal.2 = some removal.1
  ledger : Ledger run.accepted run.transmitted run.socket.sendingQueue run.dropped
  fresh : ∀ buf ∈ run.accepted, buf.allocation < run.allocated
  distinct : run.accepted.Nodup

theorem Orderly.discipline {run : SocketRun} (orderly : Orderly run) : Discipline run where
  oneWrite := by
    rw [orderly.inFlight, List.length_take]
    exact Nat.min_le_left _ _
  front := by
    intro buf member
    rw [orderly.inFlight] at member
    cases queue : run.socket.sendingQueue with
    | nil => simp [queue] at member
    | cons first rest =>
        rw [queue] at member
        rw [List.mem_singleton.mp member]
        rfl
  flowing := by
    intro nonempty nothing
    rw [orderly.inFlight, List.take_eq_nil_iff] at nothing
    exact nonempty (nothing.resolve_left Nat.one_ne_zero)
  removes := orderly.removes
  inOrder := orderly.ledger.inOrder
  once := orderly.distinct.sublist orderly.ledger.inOrder
  accounted := orderly.ledger.accounted
  excused := orderly.ledger.excused
  whole := orderly.ledger.whole

theorem orderly_start {socket : AsioTcpSocket} (empty : socket.sendingQueue = [])
    (idle : socket.native.writes = []) : Orderly (start socket) where
  inFlight := by simp [start, AsioTcpSocket.FrontInFlight, empty, idle]
  removes := by simp [start]
  ledger := ⟨by simp [start, empty], by simp [start, empty], by simp [start]⟩
  fresh := by simp [start]
  distinct := List.nodup_nil

/-- A step that moves neither the queue nor the writes. -/
theorem Orderly.of_same {run : SocketRun} (orderly : Orderly run) {socket : AsioTcpSocket}
    (queue : socket.sendingQueue = run.socket.sendingQueue)
    (writes : socket.native.writes = run.socket.native.writes) :
    Orderly { run with socket } where
  inFlight := by
    have := orderly.inFlight
    simp only [AsioTcpSocket.FrontInFlight] at this ⊢
    rw [queue, writes, this]
  removes := orderly.removes
  ledger := by
    have := orderly.ledger
    simp only [queue]
    exact this
  fresh := orderly.fresh
  distinct := orderly.distinct

/-- In an orderly state the write in flight is the front's, and nothing else is in
flight once it has completed. -/
theorem Orderly.retire {run : SocketRun} (orderly : Orderly run) {buf : SendBuffer}
    (member : buf ∈ run.socket.native.writes) :
    run.socket.sendingQueue.head? = some buf ∧
      (SocketRun.retire run.socket buf).native.writes = [] := by
  have front := orderly.discipline.front buf member
  refine ⟨front, ?_⟩
  obtain ⟨rest, queue⟩ := List.head?_eq_some_iff.mp front
  have writes : run.socket.native.writes = [buf] := by
    have := orderly.inFlight
    rw [AsioTcpSocket.FrontInFlight, queue] at this
    simpa using this
  simp [SocketRun.retire, writes]

/-- A buffer that is accepted has an allocation of its own, and goes to the end of the
queue, or the queue is cleared. -/
theorem Orderly.sendN {run next : SocketRun} (orderly : Orderly run) {data : Bytes}
    (happens : step run (.sendN data) = some next) : Orderly next := by
  obtain ⟨inFlight, taken, refused⟩ :=
    AsioTcpSocket.sendN_spec orderly.inFlight ⟨run.allocated, data⟩
  simp only [step, Option.some.injEq] at happens
  subst happens
  split
  · next accepted =>
      have buffered : Ledger (run.accepted ++ [⟨run.allocated, data⟩]) run.transmitted
          (run.socket.sendingQueue ++ [⟨run.allocated, data⟩]) run.dropped :=
        orderly.ledger.accept _
      exact {
        inFlight
        removes := orderly.removes
        ledger := buffered.cleared ((taken accepted).imp_right fun lost =>
          ⟨lost.1, .inl (congrArg not lost.2)⟩)
        fresh := by
          intro buf member
          rcases List.mem_append.mp member with old | new
          · exact Nat.lt_succ_of_lt (orderly.fresh buf old)
          · rw [List.mem_singleton.mp new]
            exact Nat.lt_succ_self _
        distinct := by
          refine List.nodup_append.mpr ⟨orderly.distinct, List.nodup_singleton _, ?_⟩
          intro old member new single equal
          have earlier := orderly.fresh old member
          rw [equal, List.mem_singleton.mp single] at earlier
          exact Nat.lt_irrefl _ earlier }
  · exact orderly

/-- With an empty queue nothing is in flight. -/
theorem Orderly.writes_of_empty {run : SocketRun} (orderly : Orderly run)
    (empty : run.socket.sendingQueue = []) : run.socket.native.writes = [] := by
  have inFlight := orderly.inFlight
  rwa [AsioTcpSocket.FrontInFlight, empty] at inFlight

theorem Orderly.receiveCompleted {run next : SocketRun} (orderly : Orderly run) {errcode : Int}
    (idle : ClearsIdle run (.receiveCompleted errcode))
    (happens : step run (.receiveCompleted errcode) = some next) : Orderly next := by
  simp only [step] at happens
  split at happens
  · cases happens
  · cases happens
    by_cases failed : errcode ≠ 0
    · have empty := idle failed
      have writes := orderly.writes_of_empty empty
      have ledger := orderly.ledger
      rw [empty] at ledger
      exact {
        inFlight := by
          simpa [AsioTcpSocket.FrontInFlight, AsioTcpSocket.onReceive, failed] using writes
        removes := orderly.removes
        ledger := by simpa [AsioTcpSocket.onReceive, failed, empty, cleared] using ledger
        fresh := orderly.fresh
        distinct := orderly.distinct }
    · obtain rfl : errcode = 0 := not_not.mp failed
      simp only [ne_eq, not_true_eq_false, if_false, List.append_nil]
      exact orderly.of_same rfl rfl

/-- The write that completes is the front's: the front is removed, or, on an error,
everything with it. -/
theorem Orderly.writeCompleted {run next : SocketRun} (orderly : Orderly run) {buf : SendBuffer}
    {errcode : Int} (happens : step run (.writeCompleted buf errcode) = some next) :
    Orderly next := by
  simp only [step] at happens
  split at happens
  · next member =>
      obtain ⟨front, nothing⟩ := orderly.retire member
      obtain ⟨rest, queue⟩ := List.head?_eq_some_iff.mp front
      cases happens
      by_cases failed : errcode ≠ 0
      · simp only [failed, ne_eq, not_false_eq_true, if_true]
        exact {
          inFlight := by
            simpa [AsioTcpSocket.FrontInFlight, AsioTcpSocket.onSend, failed] using nothing
          removes := orderly.removes
          ledger := orderly.ledger.cleared
            (Or.inr ⟨by simp [AsioTcpSocket.onSend, failed], .inl rfl⟩)
          fresh := orderly.fresh
          distinct := orderly.distinct }
      · obtain rfl : errcode = 0 := not_not.mp failed
        obtain ⟨inFlight, kept⟩ := AsioTcpSocket.onSend_spec nothing
        have sent : Ledger run.accepted (run.transmitted ++ [buf])
            run.socket.sendingQueue.tail run.dropped := by
          have ledger := orderly.ledger
          rw [queue] at ledger ⊢
          exact ledger.transmit
        exact {
          inFlight
          removes := by
            intro removal present
            rcases List.mem_append.mp present with old | new
            · exact orderly.removes removal old
            · rw [List.mem_singleton.mp new]
              exact front
          ledger := sent.cleared (kept.imp_right fun lost =>
            ⟨lost.1, .inl (congrArg not lost.2)⟩)
          fresh := orderly.fresh
          distinct := orderly.distinct }
  · cases happens

theorem Orderly.connectCompleted {run next : SocketRun} (orderly : Orderly run) {errcode : Int}
    (idle : ClearsIdle run (.connectCompleted errcode))
    (happens : step run (.connectCompleted errcode) = some next) : Orderly next := by
  simp only [step] at happens
  split at happens
  · cases happens
  · cases happens
    have writes := orderly.writes_of_empty idle
    exact {
      inFlight := by simpa [AsioTcpSocket.FrontInFlight, AsioTcpSocket.onConnect] using writes
      removes := orderly.removes
      ledger := orderly.ledger.cleared (Or.inr ⟨rfl, .inr idle⟩)
      fresh := orderly.fresh
      distinct := orderly.distinct }

/-- **A step whose clears are idle keeps the state orderly.** -/
theorem orderly_step {run next : SocketRun} {event : SocketEvent} (orderly : Orderly run)
    (idle : ClearsIdle run event) (happens : step run event = some next) : Orderly next := by
  cases event with
  | sendN data => exact orderly.sendN happens
  | receiveCompleted errcode => exact orderly.receiveCompleted idle happens
  | writeCompleted buf errcode => exact orderly.writeCompleted happens
  | connectCompleted errcode => exact orderly.connectCompleted idle happens
  | receive =>
      cases happens
      exact orderly.of_same rfl rfl
  | close =>
      cases happens
      exact orderly.of_same rfl rfl
  | connect =>
      cases happens
      exact orderly.of_same rfl rfl
  | setMaxSendingQueueSize size =>
      cases happens
      refine orderly.of_same ?_ ?_ <;>
        (simp only [AsioTcpSocket.setMaxSendingQueueSize]; split <;> rfl)

/-- A clear with a write in flight leaves a write in flight that is not the front's. -/
theorem not_discipline_of_clear {run next : SocketRun} {event : SocketEvent}
    (orderly : Orderly run) (busy : ¬ ClearsIdle run event)
    (happens : step run event = some next) : ¬ Discipline next := by
  intro discipline
  have stranded : run.socket.sendingQueue ≠ [] → next.socket.sendingQueue = [] →
      next.socket.native.writes = run.socket.native.writes → False := by
    intro nonempty empty writes
    obtain ⟨buf, rest, queue⟩ := List.exists_cons_of_ne_nil nonempty
    have member : buf ∈ next.socket.native.writes := by
      rw [writes, orderly.inFlight, queue]
      exact List.mem_cons_self ..
    have front := discipline.front buf member
    rw [empty] at front
    cases front
  cases event with
  | receiveCompleted errcode =>
      simp only [ClearsIdle, Classical.not_imp] at busy
      simp only [step] at happens
      split at happens
      · cases happens
      · cases happens
        exact stranded busy.2 (by simp [AsioTcpSocket.onReceive, busy.1])
          (by simp [AsioTcpSocket.onReceive, busy.1])
  | connectCompleted errcode =>
      simp only [step] at happens
      split at happens
      · cases happens
      · cases happens
        exact stranded busy rfl rfl
  | _ => exact busy trivial

/-- **The queue is disciplined in every state of a run exactly when no failed receive and
no completed connect of the run meets a queue that is not empty.** -/
theorem throughout_discipline_iff {socket : AsioTcpSocket}
    (constructed : socket = .accepted ∨ socket = .create) (events : List SocketEvent) :
    Throughout step Discipline (start socket) events ↔
      Guarded step ClearsIdle (start socket) events := by
  have orderly : Orderly (start socket) := by
    cases constructed with
    | inl equal => exact equal ▸ orderly_start rfl rfl
    | inr equal => exact equal ▸ orderly_start rfl rfl
  exact throughout_iff_guarded (fun _ => Orderly.discipline)
    (fun _ _ _ => orderly_step) (fun _ _ _ => not_discipline_of_clear) orderly

/-- A connection on which data is being sent when the peer closes its side. -/
def halfClosed : List SocketEvent :=
  [.receive, .sendN (ascii "a"), .receiveCompleted 2, .sendN (ascii "b")]

/-- **Two writes in flight.**  The end of the stream clears the queue under the write of
the first buffer, so the second buffer is written at once. -/
theorem halfClosed_not_disciplined :
    ¬ Throughout step Discipline (start .accepted) halfClosed := by
  intro throughout
  obtain ⟨last, reached, two⟩ : ∃ last, runFrom step (start .accepted) halfClosed = some last ∧
      last.socket.native.writes = [⟨0, ascii "a"⟩, ⟨1, ascii "b"⟩] := by
    exact ⟨_, rfl, rfl⟩
  have one := (throughout.final reached).oneWrite
  rw [two] at one
  exact absurd one (by decide)

/-- A run without such a clear: two buffers are sent one after the other. -/
theorem throughout_discipline_iff_sent :
    Throughout step Discipline (start .accepted)
      [.sendN (ascii "a"), .sendN (ascii "b"), .writeCompleted ⟨0, ascii "a"⟩ 0] := by
  refine (throughout_discipline_iff (Or.inl rfl) _).mpr ?_
  simp only [Guarded, ClearsIdle, and_true, implies_true]

end SocketRun

end Xul
