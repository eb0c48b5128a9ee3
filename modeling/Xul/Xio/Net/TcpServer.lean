import Xul.Foundation.Logs
import Xul.Foundation.Runs
import Xul.Xio.Net.TcpSession

/-!
# The sessions of a TCP server

`tcp_server_impl` makes a session for each client that is accepted, keeps the sessions its listener
wants, and drops a session with its first error.  A session reads from its socket, has its decoder
make messages of what it reads, and tells its listener of them.  The events of all sockets come in
any order, between calls of the program.

The server refers to the sessions it keeps, and the program may refer to sessions as well; a session
to which nobody refers is deleted, and its socket has no listener any more.  What a listener is told
is the last thing that is done, but for a session that reads: it looks at itself again after its
decoder, and an error of the decoder may have deleted it.  Calls of the program from inside a
notification are not modelled: each comes after the notification has returned.
-/

set_option autoImplicit false

namespace Xul

open Foundation

/-- What the listeners of the server and of its sessions are told, and the calls of `stop`. -/
inductive ServerEntry (Message : Type) where
  | created (id : Nat) (answer : Bool)
  | opened (id : Nat)
  | received (id : Nat) (message : Message)
  | sent (id : Nat) (bytes : Nat)
  | closed (id : Nat)
  | failed (id : Nat) (errcode : Int)
  | destroyed (id : Nat) (errcode : Int)
  | stopped

/-- `tcp_server_impl`, and all sessions it ever made; a session is known by its number.  The buffers
that are allocated for writes are numbered too. -/
structure TcpServer (Message : Type) where
  objects : List (TcpSession Message)
  sessions : List Nat
  allocated : Nat
  log : List (ServerEntry Message)

variable {Message : Type}

namespace TcpServer

def create : TcpServer Message := ⟨[], [], 0, []⟩

def setSession (server : TcpServer Message) (id : Nat) (session : TcpSession Message) :
    TcpServer Message :=
  { server with objects := server.objects.set id session }

def record (server : TcpServer Message) (entry : ServerEntry Message) : TcpServer Message :=
  { server with log := server.log ++ [entry] }

/-- The listener of a session is told, if it is that of the program. -/
def tell (server : TcpServer Message) (session : TcpSession Message)
    (entry : ServerEntry Message) : TcpServer Message :=
  if session.listening then server.record entry else server

/-- Somebody refers to the session. -/
def Alive (server : TcpServer Message) (id : Nat) (session : TcpSession Message) : Prop :=
  id ∈ server.sessions ∨ session.held = true

instance instDecidableAlive (server : TcpServer Message) (id : Nat)
    (session : TcpSession Message) : Decidable (server.Alive id session) :=
  inferInstanceAs (Decidable (_ ∨ _))

/-- `on_session_error` of a session, and of its server. -/
def onSessionError (server : TcpServer Message) (id : Nat) (session : TcpSession Message)
    (errcode : Int) : TcpServer Message :=
  let told := server.tell session (.failed id errcode)
  if id ∈ told.sessions then
    { told.setSession id session.destroy with
      sessions := told.sessions.filter (· ≠ id)
      log := told.log ++ [.destroyed id errcode] }
  else told.setSession id session

/-- What a decoder tells its listener, the session. -/
def hear (id : Nat) (server : TcpServer Message) (entry : DecoderEntry Message) :
    TcpServer Message :=
  match server.objects[id]? with
  | none => server
  | some session =>
      match entry with
      | .message message => server.tell session (.received id message)
      | .failed errcode => server.onSessionError id session errcode
      | .aborted | .reset => server

/-- The end of `on_socket_receive`, which looks at the session again: undefined if the session is
deleted. -/
def readOn (server : TcpServer Message) (id : Nat) : Option (TcpServer Message) :=
  match server.objects[id]? with
  | none => none
  | some session =>
      if ¬ server.Alive id session then none
      else if session.aborted ∨ session.decoder.abort then some server
      else if session.pauseReceive then some server
      else some (server.setSession id session.read)

def onSocketReceive (doDecode : DoDecode Message) (server : TcpServer Message) (id : Nat)
    (session : TcpSession Message) (data : Bytes) : Option (TcpServer Message) :=
  let fed := (session.decoder.feed doDecode BufferedMessageDecoder.keepsOn data).2
  ((fed.log.drop session.decoder.log.length).foldl (hear id)
    (server.setSession id { session with decoder := fed })).readOn id

/-- `on_acceptor_client`; `answer` is the listener's answer to `on_session_create`. -/
def onAcceptorClient (server : TcpServer Message) (decoder : BufferedMessageDecoder Message)
    (answer held : Bool) : TcpServer Message :=
  let id := server.objects.length
  let session := TcpSession.create decoder held
  let made := server.record (.created id answer)
  if answer then
    { made.record (.opened id) with
      objects := server.objects ++ [session.openSession]
      sessions := server.sessions ++ [id] }
  else { made with objects := server.objects ++ [session] }

def stop (server : TcpServer Message) : TcpServer Message :=
  { server with sessions := [] }.record .stopped

/-- What happens: clients come, sockets complete what was started on them, and the program calls the
server and its sessions.  A completion with an error has a code other than 0. -/
inductive Event where
  | client (answer held : Bool)
  | received (id : Nat) (data : Bytes)
  | receiveFailed (id : Nat) (errcode : Int)
  | written (id : Nat) (buf : SendBuffer)
  | writeFailed (id : Nat) (buf : SendBuffer) (errcode : Int)
  | write (id : Nat) (data : Bytes)
  | pause (id : Nat)
  | resume (id : Nat)
  | close (id : Nat)
  | release (id : Nat)
  | stop

/-- A receive has completed. -/
def completed (session : TcpSession Message) (errcode : Int) : TcpSession Message :=
  let native := { session.socket.native with receives := session.socket.native.receives - 1 }
  { session with socket := { session.socket with native := native }.onReceive errcode }

/-- A write has completed. -/
def wrote (session : TcpSession Message) (buf : SendBuffer) (errcode : Int) :
    TcpSession Message :=
  { session with socket := (SocketRun.retire session.socket buf).onSend errcode }

/-- What happens to a session. -/
def sessionStep (doDecode : DoDecode Message) (server : TcpServer Message) (id : Nat)
    (session : TcpSession Message) : Event → Option (TcpServer Message)
  | .received _ data =>
      if session.socket.native.receives = 0 then none
      else if server.Alive id session then
        server.onSocketReceive doDecode id (completed session 0) data
      else some (server.setSession id (completed session 0))
  | .receiveFailed _ errcode =>
      if session.socket.native.receives = 0 ∨ errcode = 0 then none
      else if server.Alive id session then
        some (server.onSessionError id (completed session errcode) errcode)
      else some (server.setSession id (completed session errcode))
  | .written _ buf =>
      if buf ∉ session.socket.native.writes then none
      else
        let after := server.setSession id (wrote session buf 0)
        -- the callback is not reached when the queue was cleared
        if server.Alive id session ∧ session.socket.sendingQueue ≠ [] then
          some (after.tell session (.sent id buf.bytes.length))
        else some after
  | .writeFailed _ buf errcode =>
      if buf ∉ session.socket.native.writes ∨ errcode = 0 then none
      else if server.Alive id session then
        some (server.onSessionError id (wrote session buf errcode) errcode)
      else some (server.setSession id (wrote session buf errcode))
  | .write _ data =>
      if ¬ server.Alive id session then none
      else
        some { server.setSession id { session with
            socket := (session.socket.sendN ⟨server.allocated, data⟩).2 } with
          allocated := server.allocated + 1 }
  | .pause _ =>
      if ¬ server.Alive id session then none else some (server.setSession id session.pause)
  | .resume _ =>
      if ¬ server.Alive id session then none else some (server.setSession id session.resume)
  | .close _ =>
      if ¬ server.Alive id session then none
      else some ((server.setSession id session.close).tell session (.closed id))
  | .release _ =>
      if session.held then some (server.setSession id { session with held := false }) else none
  | .client _ _ | .stop => none

def Event.session : Event → Option Nat
  | .received id _ | .receiveFailed id _ | .written id _ | .writeFailed id _ _ | .write id _
  | .pause id | .resume id | .close id | .release id => some id
  | .client _ _ | .stop => none

/-- One step; the program gives the session with a number its decoder. -/
def step (doDecode : Nat → DoDecode Message) (maxBufferSize : Nat → Int)
    (server : TcpServer Message) (event : Event) : Option (TcpServer Message) :=
  match event with
  | .client answer held =>
      some (server.onAcceptorClient
        (BufferedMessageDecoder.create (maxBufferSize server.objects.length)) answer held)
  | .stop => some server.stop
  | event =>
      event.session.bind fun id =>
        (server.objects[id]?).bind fun session => server.sessionStep (doDecode id) id session event

end TcpServer

/-! ## What the listeners may be told -/

namespace ServerEntry

def session : ServerEntry Message → Option Nat
  | .created id _ | .opened id | .received id _ | .sent id _ | .closed id | .failed id _
  | .destroyed id _ => some id
  | .stopped => none

/-- The sessions that are kept, by what the listeners were told. -/
def keep (kept : List Nat) : ServerEntry Message → List Nat
  | .created id true => kept ++ [id]
  | .destroyed id _ => kept.filter (· ≠ id)
  | .stopped => []
  | _ => kept

end ServerEntry

namespace TcpServer

def keptBy (log : List (ServerEntry Message)) : List Nat := log.foldl ServerEntry.keep []

/-- The messages of one session. -/
def toldOf (id : Nat) (log : List (ServerEntry Message)) : List Message :=
  log.filterMap fun entry =>
    match entry with
    | .received other message => if other = id then some message else none
    | _ => none

def Known (log : List (ServerEntry Message)) (id : Nat) : Prop :=
  ∃ answer, .created id answer ∈ log

def Destroyed (log : List (ServerEntry Message)) (id : Nat) : Prop :=
  ∃ errcode, .destroyed id errcode ∈ log

/-- **What may come after a log.**  A session is created once, and opened right after its creation
was welcome; there are no messages after it was closed or destroyed, and nothing at all after it was
destroyed.  Only a kept session is destroyed, once, right after it failed with the same error. -/
def Allowed (before : List (ServerEntry Message)) : ServerEntry Message → Prop
  | .created id _ => ∀ entry ∈ before, entry.session ≠ some id
  | .opened id => before.getLast? = some (.created id true)
  | .received id _ => Known before id ∧ ¬ Destroyed before id ∧ .closed id ∉ before
  | .sent id _ | .closed id | .failed id _ => Known before id ∧ ¬ Destroyed before id
  | .destroyed id errcode =>
      id ∈ keptBy before ∧ ¬ Destroyed before id ∧ before.getLast? = some (.failed id errcode)
  | .stopped => True

/-- The parts of its stream that came for a session. -/
def partsOf (id : Nat) (past : List Event) : List Bytes :=
  past.filterMap fun event =>
    match event with
    | .received other data => if other = id then some data else none
    | _ => none

/-- The decoder of a session after its creation. -/
def given (maxBufferSize : Int) (answer : Bool) : BufferedMessageDecoder Message :=
  if answer then (BufferedMessageDecoder.create maxBufferSize).reset
  else BufferedMessageDecoder.create maxBufferSize

/-- The decoder of a session, if it works alone. -/
def decodes (doDecode : DoDecode Message) (maxBufferSize : Int) (answer : Bool)
    (parts : List Bytes) : BufferedMessageDecoder Message :=
  (given maxBufferSize answer).feedAll doDecode BufferedMessageDecoder.keepsOn parts

/-- What holds of a session even while it fails, given what was logged, whether the server keeps the
session, and which parts came for it. -/
structure SessionCore (doDecode : DoDecode Message) (maxBufferSize : Int) (id : Nat)
    (log : List (ServerEntry Message)) (kept : Prop) (parts : List Bytes)
    (session : TcpSession Message) : Prop where
  /-- The listener was told what the decoder alone makes of a beginning of the stream ... -/
  delivered : ∃ answer taken, .created id answer ∈ log ∧ taken <+: parts ∧
    toldOf id log = (decodes doDecode maxBufferSize answer taken).messages
  /-- ... and of all of it, as long as the session is there and not aborted. -/
  follows : session.aborted = false → kept ∨ session.held = true →
    ∃ answer, .created id answer ∈ log ∧
      session.decoder = decodes doDecode maxBufferSize answer parts
  current : toldOf id log = session.decoder.messages
  unaborted : session.aborted = false → session.listening = true ∧ .closed id ∉ log
  listening : session.listening = true → ¬ Destroyed log id
  aborts : session.aborted = true → session.decoder.abort = true
  /-- At most one receive is outstanding, and the socket knows of it. -/
  receives : session.socket.native.receives = if session.socket.receiving then 1 else 0
  kept_listening : kept → session.listening = true

/-- What holds of a session. -/
structure SessionSound (doDecode : DoDecode Message) (maxBufferSize : Int) (id : Nat)
    (log : List (ServerEntry Message)) (kept : Prop) (parts : List Bytes)
    (session : TcpSession Message) : Prop
    extends SessionCore doDecode maxBufferSize id log kept parts session where
  /-- A session that the server keeps reads on, unless it is closed or paused. -/
  reads : kept → session.aborted = false → session.isOpen = true ∧
    session.decoder.abort = false ∧ (session.pauseReceive = false → session.socket.receiving = true)

/-- What holds of the server and its log after a sequence of events. -/
structure Accounted (past : List Event) (server : TcpServer Message) : Prop where
  kept : server.sessions = keptBy server.log
  allowed : EachAllowed Allowed server.log
  numbered : ∀ entry ∈ server.log, ∀ id, entry.session = some id → id < server.objects.length
  events : ∀ event ∈ past, ∀ id, event.session = some id → id < server.objects.length

/-- What holds after a sequence of events. -/
structure Sound (doDecode : Nat → DoDecode Message) (maxBufferSize : Nat → Int)
    (past : List Event) (server : TcpServer Message) : Prop extends Accounted past server where
  sessions : ∀ (id : Nat) (session : TcpSession Message), server.objects[id]? = some session →
    SessionSound (doDecode id) (maxBufferSize id) id server.log (id ∈ server.sessions)
      (partsOf id past) session

/-- The decoder tells of an error when it is fed the data. -/
def DecoderFails (doDecode : DoDecode Message) (session : TcpSession Message) (data : Bytes) :
    Prop :=
  .failed 1 ∈ ((session.decoder.feed doDecode BufferedMessageDecoder.keepsOn data).2.log.drop
    session.decoder.log.length)

/-- The event can happen, the program uses sessions that are there, and a decoder fails only in a
session that the program refers to, if its server keeps it. -/
def Permitted (doDecode : Nat → DoDecode Message) (server : TcpServer Message) : Event → Prop
  | .client _ _ | .stop => True
  | .received id data => ∃ session, server.objects[id]? = some session ∧
      session.socket.native.receives ≠ 0 ∧
      (id ∈ server.sessions → DecoderFails (doDecode id) session data → session.held = true)
  | .receiveFailed id errcode => ∃ session, server.objects[id]? = some session ∧
      session.socket.native.receives ≠ 0 ∧ errcode ≠ 0
  | .written id buf => ∃ session, server.objects[id]? = some session ∧
      buf ∈ session.socket.native.writes
  | .writeFailed id buf errcode => ∃ session, server.objects[id]? = some session ∧
      buf ∈ session.socket.native.writes ∧ errcode ≠ 0
  | .write id _ | .pause id | .resume id | .close id => ∃ session,
      server.objects[id]? = some session ∧ server.Alive id session
  | .release id => ∃ session, server.objects[id]? = some session ∧ session.held = true

/-! ## Logs that grow -/

variable {log more : List (ServerEntry Message)} {id other : Nat}

theorem keptBy_snoc (entry : ServerEntry Message) :
    keptBy (log ++ [entry]) = entry.keep (keptBy log) := by
  rw [keptBy, List.foldl_append]
  rfl

theorem Known.append (known : Known log id) : Known (log ++ more) id := by
  obtain ⟨answer, created⟩ := known
  exact ⟨answer, List.mem_append_left _ created⟩

/-- What is kept was created. -/
theorem known_of_mem_keptBy : ∀ {log : List (ServerEntry Message)},
    id ∈ keptBy log → Known log id := by
  intro log
  induction log using List.reverseRecOn with
  | nil => exact fun member => absurd member List.not_mem_nil
  | append_singleton log entry ih =>
      intro member
      rw [keptBy_snoc] at member
      cases entry with
      | created other answer =>
          cases answer with
          | false => exact (ih member).append
          | true =>
              rcases List.mem_append.mp member with before | now
              · exact (ih before).append
              · obtain rfl := List.mem_singleton.mp now
                exact ⟨true, List.mem_append_right _ (List.mem_singleton_self _)⟩
      | destroyed other errcode => exact (ih (List.mem_filter.mp member).1).append
      | stopped => exact absurd member List.not_mem_nil
      | opened | received | sent | closed | failed => exact (ih member).append

theorem toldOf_append : toldOf id (log ++ more) = toldOf id log ++ toldOf id more :=
  List.filterMap_append

theorem toldOf_received (messages : List Message) :
    toldOf id (messages.map (.received id)) = messages := by
  rw [toldOf, List.filterMap_map]
  simp

/-- Entries of other sessions tell nothing of a session. -/
theorem toldOf_eq_nil (others : ∀ entry ∈ more, entry.session ≠ some id) :
    toldOf id more = [] := by
  rw [toldOf, List.filterMap_eq_nil_iff]
  intro entry member
  cases entry with
  | received other message => exact if_neg fun same => others _ member (congrArg some same)
  | _ => rfl

theorem not_destroyed_append_iff :
    ¬ Destroyed (log ++ more) id ↔ ¬ Destroyed log id ∧ ¬ Destroyed more id := by
  simp only [Destroyed, List.mem_append, exists_or, not_or]

/-! ## One session -/

section Session

variable {doDecode : DoDecode Message} {maxBufferSize : Int} {kept fewer : Prop}
  {parts : List Bytes} {session : TcpSession Message}

/-- Entries that leave a session what it is. -/
def Harmless (id : Nat) : ServerEntry Message → Prop
  | .created other _ | .received other _ | .closed other | .destroyed other _ => other ≠ id
  | .opened _ | .sent _ _ | .failed _ _ | .stopped => True

theorem harmless_of_session_ne {entry : ServerEntry Message} (about : entry.session ≠ some id) :
    Harmless id entry := by
  cases entry with
  | created | received | closed | destroyed => exact fun same => about (congrArg some same)
  | opened | sent | failed | stopped => exact trivial

theorem SessionCore.append
    (core : SessionCore doDecode maxBufferSize id log kept parts session)
    (harmless : ∀ entry ∈ more, Harmless id entry) (imp : fewer → kept) :
    SessionCore doDecode maxBufferSize id (log ++ more) fewer parts session := by
  have quiet : toldOf id more = [] := by
    rw [toldOf, List.filterMap_eq_nil_iff]
    intro entry member
    cases entry with
    | received other message => exact if_neg (harmless _ member)
    | _ => rfl
  have told : toldOf id (log ++ more) = toldOf id log := by
    rw [toldOf_append, quiet, List.append_nil]
  obtain ⟨answer, taken, created, beginning, same⟩ := core.delivered
  refine ⟨⟨answer, taken, List.mem_append_left _ created, beginning, told.trans same⟩, ?_,
    told.trans core.current, ?_, ?_, core.aborts, core.receives,
    fun still => core.kept_listening (imp still)⟩
  · intro unaborted alive
    obtain ⟨answer, created, same⟩ := core.follows unaborted (alive.imp_left imp)
    exact ⟨answer, List.mem_append_left _ created, same⟩
  · intro unaborted
    refine ⟨(core.unaborted unaborted).1, ?_⟩
    intro closed
    rcases List.mem_append.mp closed with before | after
    · exact (core.unaborted unaborted).2 before
    · exact harmless _ after rfl
  · intro listens
    refine not_destroyed_append_iff.mpr ⟨core.listening listens, ?_⟩
    rintro ⟨errcode, after⟩
    exact harmless _ after rfl

theorem SessionSound.append
    (sound : SessionSound doDecode maxBufferSize id log kept parts session)
    (harmless : ∀ entry ∈ more, Harmless id entry) (imp : fewer → kept) :
    SessionSound doDecode maxBufferSize id (log ++ more) fewer parts session :=
  ⟨sound.toSessionCore.append harmless imp, fun still => sound.reads (imp still)⟩

/-- Only the receives of a socket count. -/
theorem SessionCore.setSocket
    (core : SessionCore doDecode maxBufferSize id log kept parts session) {socket : AsioTcpSocket}
    (receives : socket.native.receives = if socket.receiving then 1 else 0) :
    SessionCore doDecode maxBufferSize id log kept parts { session with socket } :=
  ⟨core.delivered, core.follows, core.current, core.unaborted, core.listening, core.aborts,
    receives, core.kept_listening⟩

theorem SessionCore.pause
    (core : SessionCore doDecode maxBufferSize id log kept parts session) (paused : Bool) :
    SessionCore doDecode maxBufferSize id log kept parts { session with pauseReceive := paused } :=
  ⟨core.delivered, core.follows, core.current, core.unaborted, core.listening, core.aborts,
    core.receives, core.kept_listening⟩

theorem SessionCore.read
    (core : SessionCore doDecode maxBufferSize id log kept parts session) :
    SessionCore doDecode maxBufferSize id log kept parts session.read := by
  rw [TcpSession.read]
  split
  · exact core
  · next idle =>
      refine core.setSocket ?_
      have none := core.receives
      rw [if_neg idle] at none
      simp [AsioTcpSocket.receive, none]

theorem SessionCore.release
    (core : SessionCore doDecode maxBufferSize id log kept parts session) :
    SessionCore doDecode maxBufferSize id log kept parts { session with held := false } := by
  refine ⟨core.delivered, ?_, core.current, core.unaborted, core.listening, core.aborts,
    core.receives, core.kept_listening⟩
  intro unaborted alive
  exact core.follows unaborted (Or.inl (alive.resolve_right (by simp)))

/-- A session that is aborted hears nothing of what comes. -/
theorem SessionCore.grow {data : Bytes}
    (core : SessionCore doDecode maxBufferSize id log kept parts session)
    (deaf : session.aborted = false → ¬ (kept ∨ session.held = true)) :
    SessionCore doDecode maxBufferSize id log kept (parts ++ [data]) session := by
  obtain ⟨answer, taken, created, beginning, same⟩ := core.delivered
  exact ⟨⟨answer, taken, created, beginning.trans (List.prefix_append _ _), same⟩,
    fun unaborted alive => absurd alive (deaf unaborted), core.current, core.unaborted,
    core.listening, core.aborts, core.receives, core.kept_listening⟩

/-- A session is closed, and what is logged tells of it, if it still listens. -/
theorem SessionCore.close
    (core : SessionCore doDecode maxBufferSize id log kept parts session)
    (harmless : ∀ entry ∈ more, entry = .closed id) :
    SessionCore doDecode maxBufferSize id (log ++ more) kept parts session.close := by
  have quiet : toldOf id more = [] := by
    rw [toldOf, List.filterMap_eq_nil_iff]
    intro entry member
    rw [harmless entry member]
  have told : toldOf id (log ++ more) = toldOf id log := by
    rw [toldOf_append, quiet, List.append_nil]
  obtain ⟨answer, taken, created, beginning, same⟩ := core.delivered
  refine ⟨⟨answer, taken, List.mem_append_left _ created, beginning, told.trans same⟩, ?_,
    (told.trans core.current).trans (BufferedMessageDecoder.messages_doAbort _).symm, ?_, ?_,
    fun _ => rfl, core.receives, core.kept_listening⟩
  · intro unaborted
    cases unaborted
  · intro unaborted
    cases unaborted
  · intro listens
    refine not_destroyed_append_iff.mpr ⟨core.listening listens, ?_⟩
    rintro ⟨errcode, after⟩
    cases harmless _ after

/-- A session is destroyed by its server. -/
theorem SessionCore.destroy {errcode : Int}
    (core : SessionCore doDecode maxBufferSize id log kept parts session) (gone : ¬ fewer) :
    SessionCore doDecode maxBufferSize id (log ++ [.destroyed id errcode]) fewer parts
      session.destroy := by
  have told : toldOf id (log ++ [.destroyed id errcode]) = toldOf id log := by
    rw [toldOf_append]
    exact List.append_nil _
  obtain ⟨answer, taken, created, beginning, same⟩ := core.delivered
  refine ⟨⟨answer, taken, List.mem_append_left _ created, beginning, told.trans same⟩, ?_,
    (told.trans core.current).trans (BufferedMessageDecoder.messages_doAbort _).symm, ?_, ?_,
    fun _ => rfl, core.receives, fun still => absurd still gone⟩
  · intro unaborted
    cases unaborted
  · intro unaborted
    cases unaborted
  · intro listens
    cases listens

/-- **A session is fed.** -/
theorem SessionCore.feed {data : Bytes} {next : BufferedMessageDecoder Message}
    {messages : List Message} {failed : Bool}
    (core : SessionCore doDecode maxBufferSize id log kept parts session)
    (alive : kept ∨ session.held = true)
    (feed : (session.decoder.feed doDecode BufferedMessageDecoder.keepsOn data).2 = next)
    (fed : session.decoder.Fed next messages failed) :
    SessionCore doDecode maxBufferSize id (log ++ messages.map (.received id)) kept
      (parts ++ [data]) { session with decoder := next } := by
  have told : toldOf id (log ++ messages.map (.received id)) = next.messages := by
    rw [toldOf_append, toldOf_received, core.current, fed.messages_eq]
  have unclosed : .closed id ∉ messages.map (ServerEntry.received id) := by simp
  have undestroyed : ¬ Destroyed (messages.map (ServerEntry.received id)) id := by
    simp [Destroyed]
  have more (answer : Bool) : session.decoder = decodes doDecode maxBufferSize answer parts →
      next = decodes doDecode maxBufferSize answer (parts ++ [data]) := by
    intro same
    rw [decodes, BufferedMessageDecoder.feedAll, List.foldl_append]
    change next = ((decodes doDecode maxBufferSize answer parts).feed doDecode
      BufferedMessageDecoder.keepsOn data).2
    rw [← same, feed]
  refine ⟨?_, ?_, told, ?_, ?_, ?_, core.receives, core.kept_listening⟩
  · cases aborted : session.aborted with
    | false =>
        obtain ⟨answer, created, same⟩ := core.follows aborted alive
        refine ⟨answer, parts ++ [data], List.mem_append_left _ created, List.prefix_rfl, ?_⟩
        rw [told, more answer same]
    | true =>
        obtain ⟨answer, taken, created, beginning, same⟩ := core.delivered
        refine ⟨answer, taken, List.mem_append_left _ created,
          beginning.trans (List.prefix_append _ _), ?_⟩
        rw [fed.quiet (core.aborts aborted), List.map_nil, List.append_nil, same]
  · intro unaborted alive
    obtain ⟨answer, created, same⟩ := core.follows unaborted alive
    exact ⟨answer, List.mem_append_left _ created, more answer same⟩
  · intro unaborted
    refine ⟨(core.unaborted unaborted).1, ?_⟩
    rw [List.mem_append, not_or]
    exact ⟨(core.unaborted unaborted).2, unclosed⟩
  · intro listens
    exact not_destroyed_append_iff.mpr ⟨core.listening listens, undestroyed⟩
  · intro aborted
    rw [fed.abort, core.aborts aborted, Bool.true_or]

end Session

/-! ## One step -/

section Step

variable {doDecode : Nat → DoDecode Message} {maxBufferSize : Nat → Int} {past : List Event}
  {server : TcpServer Message} {session before : TcpSession Message}

/-- What holds while something happens to a session: nothing is said of that session itself. -/
structure SoundBut (doDecode : Nat → DoDecode Message) (maxBufferSize : Nat → Int) (id : Nat)
    (past : List Event) (server : TcpServer Message) : Prop extends Accounted past server where
  sessions : ∀ other ≠ id, ∀ session, server.objects[other]? = some session →
    SessionSound (doDecode other) (maxBufferSize other) other server.log
      (other ∈ server.sessions) (partsOf other past) session

theorem partsOf_append (past : List Event) (event : Event) :
    partsOf id (past ++ [event]) = partsOf id past ++ partsOf id [event] :=
  List.filterMap_append

theorem partsOf_of_ne {event : Event} (about : event.session ≠ some id) :
    partsOf id [event] = [] := by
  rw [partsOf, List.filterMap_eq_nil_iff]
  intro found member
  obtain rfl := List.mem_singleton.mp member
  cases found with
  | received other data => exact if_neg fun same => about (congrArg some same)
  | _ => rfl

/-- Something is about to happen to a session. -/
theorem Sound.but {event : Event} (sound : Sound doDecode maxBufferSize past server)
    (about : event.session = some id) (inside : id < server.objects.length) :
    SoundBut doDecode maxBufferSize id (past ++ [event]) server := by
  refine ⟨⟨sound.kept, sound.allowed, sound.numbered, ?_⟩, ?_⟩
  · intro happened member other known
    rcases List.mem_append.mp member with earlier | now
    · exact sound.events happened earlier other known
    · obtain rfl := List.mem_singleton.mp now
      obtain rfl := Option.some.inj (about.symm.trans known)
      exact inside
  · intro other different session found
    rw [partsOf_append, partsOf_of_ne (fun same => different
      (Option.some.inj (same.symm.trans about))), List.append_nil]
    exact sound.sessions other session found

/-- The session is seen to. -/
theorem SoundBut.finish (but : SoundBut doDecode maxBufferSize id past server)
    (found : server.objects[id]? = some session)
    (own : SessionSound (doDecode id) (maxBufferSize id) id server.log (id ∈ server.sessions)
      (partsOf id past) session) : Sound doDecode maxBufferSize past server := by
  refine ⟨but.toAccounted, ?_⟩
  intro other seen here
  by_cases same : other = id
  · subst same
    obtain rfl := Option.some.inj (found.symm.trans here)
    exact own
  · exact but.sessions other same seen here

theorem SoundBut.setSession (but : SoundBut doDecode maxBufferSize id past server)
    (session : TcpSession Message) (allocated : Nat) :
    SoundBut doDecode maxBufferSize id past
      { server.setSession id session with allocated := allocated } := by
  have same : (server.objects.set id session).length = server.objects.length := List.length_set
  refine ⟨⟨but.kept, but.allowed, ?_, ?_⟩, ?_⟩
  · intro entry member other about
    exact (but.numbered entry member other about).trans_eq same.symm
  · intro event member other about
    exact (but.events event member other about).trans_eq same.symm
  · intro other different seen found
    refine but.sessions other different seen ?_
    rwa [TcpServer.setSession, List.getElem?_set_ne (Ne.symm different)] at found

/-- An entry about the session is logged. -/
theorem SoundBut.record {entry : ServerEntry Message} {sessions : List Nat}
    (but : SoundBut doDecode maxBufferSize id past server) (inside : id < server.objects.length)
    (about : entry.session = some id) (allowed : Allowed server.log entry)
    (keep : entry.keep server.sessions = sessions)
    (fewer : ∀ other ≠ id, other ∈ sessions → other ∈ server.sessions) :
    SoundBut doDecode maxBufferSize id past
      { server with sessions, log := server.log ++ [entry] } := by
  refine ⟨⟨?_, eachAllowed_snoc_iff.mpr ⟨but.allowed, allowed⟩, ?_, but.events⟩, ?_⟩
  · rw [keptBy_snoc, ← but.kept, keep]
  · intro other member number known
    rcases List.mem_append.mp member with earlier | now
    · exact but.numbered other earlier number known
    · obtain rfl := List.mem_singleton.mp now
      obtain rfl := Option.some.inj (about.symm.trans known)
      exact inside
  · intro other different seen found
    refine (but.sessions other different seen found).append ?_ (fewer other different)
    intro more member
    obtain rfl := List.mem_singleton.mp member
    exact harmless_of_session_ne fun same => different (Option.some.inj (same.symm.trans about))

/-- An entry about the session that does not end its being kept is logged. -/
theorem SoundBut.note (but : SoundBut doDecode maxBufferSize id past server)
    (entry : ServerEntry Message) (inside : id < server.objects.length)
    (about : entry.session = some id) (allowed : Allowed server.log entry)
    (keep : entry.keep server.sessions = server.sessions) :
    SoundBut doDecode maxBufferSize id past { server with log := server.log ++ [entry] } :=
  but.record inside about allowed keep fun _ _ member => member

theorem SoundBut.record_received (but : SoundBut doDecode maxBufferSize id past server)
    (inside : id < server.objects.length) (messages : List Message)
    (known : Known server.log id) (present : ¬ Destroyed server.log id)
    (unclosed : .closed id ∉ server.log) :
    SoundBut doDecode maxBufferSize id past
      { server with log := server.log ++ messages.map (.received id) } := by
  induction messages generalizing server with
  | nil =>
      rw [List.map_nil, List.append_nil]
      exact but
  | cons message messages ih =>
      rw [List.map_cons, List.append_cons]
      have told := but.note (.received id message) inside rfl ⟨known, present, unclosed⟩ rfl
      exact ih told inside known.append
        (not_destroyed_append_iff.mpr ⟨present, by simp [Destroyed]⟩) (by simp [unclosed])

theorem SessionCore.known {decode : DoDecode Message} {size : Int} {kept : Prop}
    {parts : List Bytes} (core : SessionCore decode size id log kept parts session) :
    Known log id := by
  obtain ⟨answer, taken, created, _⟩ := core.delivered
  exact ⟨answer, created⟩

/-- A kept session fails, and is destroyed. -/
theorem onSessionError_of_mem {errcode : Int} (member : id ∈ server.sessions)
    (listens : session.listening = true) :
    server.onSessionError id session errcode =
      { objects := server.objects.set id session.destroy
        sessions := server.sessions.filter (· ≠ id)
        allocated := server.allocated
        log := server.log ++ [.failed id errcode] ++ [.destroyed id errcode] } := by
  rw [onSessionError, tell, if_pos listens]
  exact if_pos member

theorem onSessionError_of_notMem {errcode : Int} (absent : id ∉ server.sessions) :
    server.onSessionError id session errcode =
      (server.tell session (.failed id errcode)).setSession id session := by
  have same : (server.tell session (.failed id errcode)).sessions = server.sessions := by
    rw [tell]
    split
    · rfl
    · rfl
  exact if_neg (same ▸ absent)

/-- **A session fails.** -/
theorem SoundBut.onSessionError {errcode : Int}
    (but : SoundBut doDecode maxBufferSize id past server) (inside : id < server.objects.length)
    (core : SessionCore (doDecode id) (maxBufferSize id) id server.log (id ∈ server.sessions)
      (partsOf id past) session) :
    Sound doDecode maxBufferSize past (server.onSessionError id session errcode) := by
  have harmless : ∀ entry ∈ [ServerEntry.failed id errcode], Harmless id
      (entry : ServerEntry Message) := by
    intro entry member
    obtain rfl := List.mem_singleton.mp member
    exact trivial
  by_cases kept : id ∈ server.sessions
  · have listens := core.kept_listening kept
    have failed := but.note (.failed id errcode) inside rfl
      ⟨core.known, core.listening listens⟩ rfl
    have last : (server.log ++ [ServerEntry.failed id errcode]).getLast? =
        some (.failed id errcode) := List.getLast?_concat ..
    have gone : id ∉ server.sessions.filter (· ≠ id) := by simp
    have destroyed : SoundBut doDecode maxBufferSize id past
        { server with
          sessions := server.sessions.filter (· ≠ id)
          log := server.log ++ [.failed id errcode] ++ [.destroyed id errcode] } :=
      failed.record inside rfl ⟨by rw [keptBy_snoc, ← but.kept]; exact kept,
        not_destroyed_append_iff.mpr ⟨core.listening listens, by simp [Destroyed]⟩, last⟩ rfl
        fun _ _ member => (List.mem_filter.mp member).1
    rw [onSessionError_of_mem kept listens]
    exact (destroyed.setSession session.destroy server.allocated).finish
      (List.getElem?_set_self inside)
      ⟨(core.append harmless fun still => still).destroy gone, fun still => absurd still gone⟩
  · rw [onSessionError_of_notMem kept, TcpServer.tell]
    split
    · next listens =>
        have failed := but.note (.failed id errcode) inside rfl
          ⟨core.known, core.listening listens⟩ rfl
        exact (failed.setSession session server.allocated).finish (List.getElem?_set_self inside)
          ⟨core.append harmless fun still => still, fun still => absurd still kept⟩
    · exact (but.setSession session server.allocated).finish (List.getElem?_set_self inside)
        ⟨core, fun still => absurd still kept⟩

/-- After an error only the program may still refer to the session. -/
theorem onSessionError_after {errcode : Int} (inside : id < server.objects.length)
    (listens : id ∈ server.sessions → session.listening = true) (held : session.held = true) :
    ∃ after, (server.onSessionError id session errcode).objects[id]? = some after ∧
      (server.onSessionError id session errcode).Alive id after ∧
      (after = session ∨ after = session.destroy) := by
  by_cases kept : id ∈ server.sessions
  · rw [onSessionError_of_mem kept (listens kept)]
    exact ⟨session.destroy, List.getElem?_set_self inside, Or.inr held, Or.inr rfl⟩
  · rw [onSessionError_of_notMem kept, TcpServer.tell]
    split
    · exact ⟨session, List.getElem?_set_self inside, Or.inr held, Or.inl rfl⟩
    · exact ⟨session, List.getElem?_set_self inside, Or.inr held, Or.inl rfl⟩

/-- A session hears messages, which it passes on. -/
theorem foldl_hear_messages (messages : List Message)
    (found : server.objects[id]? = some session)
    (listens : messages ≠ [] → session.listening = true) :
    (messages.map DecoderEntry.message).foldl (hear id) server =
      { server with log := server.log ++ messages.map (.received id) } := by
  induction messages generalizing server with
  | nil => rw [List.map_nil, List.map_nil, List.append_nil]; rfl
  | cons message messages ih =>
      have passed : hear id server (.message message) =
          { server with log := server.log ++ [.received id message] } := by
        simp only [hear, found, tell, record]
        exact if_pos (listens (List.cons_ne_nil _ _))
      have later := @ih { server with log := server.log ++ [.received id message] } found
        fun _ => listens (List.cons_ne_nil _ _)
      rw [List.map_cons, List.foldl_cons, passed, later, List.map_cons]
      simp only [List.append_assoc, List.singleton_append]

/-- The feed that fails is told. -/
theorem decoderFails_of_fed {decode : DoDecode Message} {data : Bytes} {messages : List Message}
    (fed : session.decoder.Fed
      (session.decoder.feed decode BufferedMessageDecoder.keepsOn data).2 messages true) :
    DecoderFails decode session data := by
  rw [DecoderFails, fed.drop_log]
  simp

theorem readOn_of_abort (found : server.objects[id]? = some session)
    (alive : server.Alive id session) (ends : session.aborted ∨ session.decoder.abort) :
    server.readOn id = some server := by
  simp only [readOn, found]
  rw [if_neg (not_not_intro alive), if_pos ends]

/-- A session that is still there reads on. -/
theorem SoundBut.readOn (but : SoundBut doDecode maxBufferSize id past server)
    (found : server.objects[id]? = some session) (alive : server.Alive id session)
    (core : SessionCore (doDecode id) (maxBufferSize id) id server.log (id ∈ server.sessions)
      (partsOf id past) session)
    (reads : id ∈ server.sessions → session.aborted = false →
      session.isOpen = true ∧ session.decoder.abort = false) :
    ∃ next, server.readOn id = some next ∧ Sound doDecode maxBufferSize past next := by
  by_cases ends : session.aborted = true ∨ session.decoder.abort = true
  · refine ⟨server, readOn_of_abort found alive ends, but.finish found ⟨core, ?_⟩⟩
    intro kept unaborted
    rcases ends with aborted | aborted
    · exact absurd (aborted.symm.trans unaborted) (by simp)
    · exact absurd (aborted.symm.trans (reads kept unaborted).2) (by simp)
  · simp only [TcpServer.readOn, found]
    rw [if_neg (not_not_intro alive), if_neg ends]
    split
    · next paused =>
        refine ⟨server, rfl, but.finish found ⟨core, ?_⟩⟩
        intro kept unaborted
        refine ⟨(reads kept unaborted).1, (reads kept unaborted).2, ?_⟩
        intro resumed
        exact absurd (paused.symm.trans resumed) (by simp)
    · have inside : id < server.objects.length := (List.getElem?_eq_some_iff.mp found).1
      refine ⟨_, rfl, (but.setSession session.read server.allocated).finish
        (List.getElem?_set_self inside) ⟨core.read, ?_⟩⟩
      intro kept _
      have unaborted : session.aborted = false := by
        simpa using fun aborted => ends (Or.inl aborted)
      refine ⟨session.isOpen_read.trans (reads kept unaborted).1, ?_, ?_⟩
      · rw [session.decoder_read]
        exact (reads kept unaborted).2
      · exact fun _ => session.receiving_read

/-- A session whose decoder has failed does not read on. -/
theorem SoundBut.readOn_of_failed (but : SoundBut doDecode maxBufferSize id past server)
    (found : server.objects[id]? = some session)
    (core : SessionCore (doDecode id) (maxBufferSize id) id server.log (id ∈ server.sessions)
      (partsOf id past) session)
    (held : session.held = true) (failed : session.decoder.abort = true) :
    ∃ next, ([.aborted, .failed 1].foldl (hear id) server).readOn id = some next ∧
      Sound doDecode maxBufferSize past next := by
  have inside : id < server.objects.length := (List.getElem?_eq_some_iff.mp found).1
  have heard : [DecoderEntry.aborted, .failed 1].foldl (hear id) server =
      server.onSessionError id session 1 := by
    simp only [List.foldl_cons, List.foldl_nil, hear, found]
  rw [heard]
  obtain ⟨after, there, alive, rfl | rfl⟩ :=
    @onSessionError_after _ id server session 1 inside core.kept_listening held
  · exact ⟨_, readOn_of_abort there alive (Or.inr failed), but.onSessionError inside core⟩
  · exact ⟨_, readOn_of_abort there alive (Or.inl rfl), but.onSessionError inside core⟩

/-- **A session reads**, and is still there afterwards. -/
theorem SoundBut.onSocketReceive {data : Bytes} {parts : List Bytes}
    (but : SoundBut doDecode maxBufferSize id past server) (inside : id < server.objects.length)
    (came : partsOf id past = parts ++ [data])
    (core : SessionCore (doDecode id) (maxBufferSize id) id server.log (id ∈ server.sessions)
      parts session)
    (reads : id ∈ server.sessions → session.aborted = false →
      session.isOpen = true ∧ session.decoder.abort = false)
    (alive : server.Alive id session)
    (safe : id ∈ server.sessions → DecoderFails (doDecode id) session data → session.held = true) :
    ∃ next, server.onSocketReceive (doDecode id) id session data = some next ∧
      Sound doDecode maxBufferSize past next := by
  obtain ⟨messages, failed, fed⟩ :=
    @BufferedMessageDecoder.fed_feed _ (doDecode id) session.decoder data
  obtain ⟨decoder, feed⟩ : ∃ decoder,
      (session.decoder.feed (doDecode id) BufferedMessageDecoder.keepsOn data).2 = decoder :=
    ⟨_, rfl⟩
  have fails : failed = true → DecoderFails (doDecode id) session data := by
    rintro rfl
    exact decoderFails_of_fed fed
  rw [feed] at fed
  have fedCore := core.feed alive feed fed
  rw [← came] at fedCore
  have listens : messages ≠ [] → session.aborted = false := by
    intro some
    by_contra aborted
    exact some (fed.quiet (core.aborts (by simpa using aborted)))
  have told : SoundBut doDecode maxBufferSize id past
      { server with log := server.log ++ messages.map (.received id) } := by
    by_cases none : messages = []
    · rw [none, List.map_nil, List.append_nil]
      exact but
    · have unaborted := core.unaborted (listens none)
      exact but.record_received inside messages core.known (core.listening unaborted.1) unaborted.2
  have fedBut := told.setSession { session with decoder } server.allocated
  have here : (server.objects.set id { session with decoder })[id]? =
      some { session with decoder } := List.getElem?_set_self inside
  have heard := @foldl_hear_messages _ id (server.setSession id { session with decoder })
    { session with decoder } messages here fun some => (core.unaborted (listens some)).1
  rw [TcpServer.onSocketReceive]
  simp only [feed]
  rw [fed.drop_log, List.foldl_append, heard]
  cases failed with
  | false =>
      refine fedBut.readOn here alive fedCore ?_
      intro kept unaborted
      have flag : decoder.abort = session.decoder.abort := fed.abort.trans (Bool.or_false _)
      exact ⟨(reads kept unaborted).1, flag.trans (reads kept unaborted).2⟩
  | true =>
      have held : session.held = true := by
        by_cases kept : id ∈ server.sessions
        · exact safe kept (fails rfl)
        · exact alive.resolve_left kept
      have flag : decoder.abort = true := fed.abort.trans (Bool.or_true _)
      exact fedBut.readOn_of_failed here fedCore held flag

theorem SessionCore.no_receives {decode : DoDecode Message} {size : Int} {kept : Prop}
    {parts : List Bytes} (core : SessionCore decode size id log kept parts session)
    (pending : session.socket.native.receives ≠ 0) :
    session.socket.native.receives - 1 = 0 := by
  have one := core.receives
  split at one
  · omega
  · exact absurd one pending

/-- A receive has completed. -/
theorem SessionCore.completed {decode : DoDecode Message} {size : Int} {kept : Prop}
    {parts : List Bytes} (core : SessionCore decode size id log kept parts session)
    (pending : session.socket.native.receives ≠ 0) (errcode : Int) :
    SessionCore decode size id log kept parts (completed session errcode) := by
  refine core.setSocket ?_
  rw [AsioTcpSocket.onReceive]
  split
  · exact core.no_receives pending
  · exact core.no_receives pending

/-- A write has completed. -/
theorem SessionCore.wrote {decode : DoDecode Message} {size : Int} {kept : Prop}
    {parts : List Bytes} (core : SessionCore decode size id log kept parts session)
    (buf : SendBuffer) (errcode : Int) :
    SessionCore decode size id log kept parts (wrote session buf errcode) := by
  refine core.setSocket ?_
  by_cases success : errcode = 0
  · subst success
    have same := (SocketRun.retire session.socket buf).sameReading_onSend
    rw [same.receives, same.receiving]
    exact core.receives
  · rw [AsioTcpSocket.onSend, if_pos success]
    exact core.receives

/-- A socket that is the same to one who reads. -/
theorem SessionSound.setSocket {decode : DoDecode Message} {size : Int} {kept : Prop}
    {parts : List Bytes} (sound : SessionSound decode size id log kept parts session)
    {socket : AsioTcpSocket} (same : socket.SameReading session.socket) :
    SessionSound decode size id log kept parts { session with socket } := by
  refine ⟨sound.toSessionCore.setSocket ?_, ?_⟩
  · rw [same.receives, same.receiving]
    exact sound.receives
  · intro still unaborted
    obtain ⟨isOpen, decoding, reading⟩ := sound.reads still unaborted
    refine ⟨?_, decoding, fun resumed => same.receiving.trans (reading resumed)⟩
    rw [TcpSession.isOpen, same.isOpen, same.connected]
    exact isOpen

theorem SessionSound.pause {decode : DoDecode Message} {size : Int} {kept : Prop}
    {parts : List Bytes} (sound : SessionSound decode size id log kept parts session) :
    SessionSound decode size id log kept parts session.pause := by
  refine ⟨sound.toSessionCore.pause true, ?_⟩
  intro still unaborted
  obtain ⟨isOpen, decoding, _⟩ := sound.reads still unaborted
  exact ⟨isOpen, decoding, fun resumed => absurd resumed (by simp [TcpSession.pause])⟩

theorem SessionSound.resume {decode : DoDecode Message} {size : Int} {kept : Prop}
    {parts : List Bytes} (sound : SessionSound decode size id log kept parts session) :
    SessionSound decode size id log kept parts session.resume := by
  rw [TcpSession.resume]
  split
  · simp only
    split
    · refine ⟨(sound.toSessionCore.pause false).read, ?_⟩
      intro still unaborted
      have reads := sound.reads still (by
        rw [TcpSession.read] at unaborted
        split at unaborted
        · exact unaborted
        · exact unaborted)
      refine ⟨?_, ?_, fun _ => TcpSession.receiving_read _⟩
      · rw [TcpSession.isOpen_read]
        exact reads.1
      · rw [TcpSession.decoder_read]
        exact reads.2.1
    · next shut =>
        refine ⟨sound.toSessionCore.pause false, ?_⟩
        intro still unaborted
        exact absurd (sound.reads still unaborted).1 shut
  · exact sound

theorem SessionSound.release {decode : DoDecode Message} {size : Int} {kept : Prop}
    {parts : List Bytes} (sound : SessionSound decode size id log kept parts session) :
    SessionSound decode size id log kept parts { session with held := false } :=
  ⟨sound.toSessionCore.release, sound.reads⟩

theorem Sound.inside (_ : Sound doDecode maxBufferSize past server)
    (found : server.objects[id]? = some session) : id < server.objects.length :=
  (List.getElem?_eq_some_iff.mp found).1

/-- Something that only a session notices. -/
theorem Sound.quiet {event : Event} {after : TcpSession Message}
    (sound : Sound doDecode maxBufferSize past server)
    (found : server.objects[id]? = some session) (about : event.session = some id)
    (own : SessionSound (doDecode id) (maxBufferSize id) id server.log (id ∈ server.sessions)
      (partsOf id (past ++ [event])) after) (allocated : Nat) :
    Sound doDecode maxBufferSize (past ++ [event])
      { server.setSession id after with allocated := allocated } :=
  ((sound.but about (sound.inside found)).setSession after allocated).finish
    (List.getElem?_set_self (sound.inside found)) own

/-- Nothing came for the session. -/
theorem Sound.own {event : Event} (sound : Sound doDecode maxBufferSize past server)
    (found : server.objects[id]? = some session) (quiet : partsOf id [event] = []) :
    SessionSound (doDecode id) (maxBufferSize id) id server.log (id ∈ server.sessions)
      (partsOf id (past ++ [event])) session := by
  rw [partsOf_append, quiet, List.append_nil]
  exact sound.sessions id session found

theorem Sound.received {data : Bytes} (sound : Sound doDecode maxBufferSize past server)
    (found : server.objects[id]? = some session) (pending : session.socket.native.receives ≠ 0)
    (safe : id ∈ server.sessions → DecoderFails (doDecode id) session data → session.held = true) :
    ∃ next, server.sessionStep (doDecode id) id session (.received id data) = some next ∧
      Sound doDecode maxBufferSize (past ++ [.received id data]) next := by
  have own := sound.sessions id session found
  have came : partsOf id (past ++ [.received id data]) = partsOf id past ++ [data] := by
    rw [partsOf_append, partsOf, partsOf]
    simp
  rw [sessionStep, if_neg pending]
  split
  · next alive =>
      refine (sound.but rfl (sound.inside found)).onSocketReceive (sound.inside found) came
        (own.completed pending 0) ?_ alive safe
      intro kept unaborted
      exact ⟨(own.reads kept unaborted).1, (own.reads kept unaborted).2.1⟩
  · next dead =>
      refine ⟨_, rfl, sound.quiet found rfl ?_ server.allocated⟩
      rw [came]
      refine ⟨(own.completed pending 0).grow fun _ => dead, ?_⟩
      intro kept
      exact absurd (Or.inl kept) dead

theorem Sound.receiveFailed {errcode : Int} (sound : Sound doDecode maxBufferSize past server)
    (found : server.objects[id]? = some session) (pending : session.socket.native.receives ≠ 0)
    (error : errcode ≠ 0) :
    ∃ next, server.sessionStep (doDecode id) id session (.receiveFailed id errcode) = some next ∧
      Sound doDecode maxBufferSize (past ++ [.receiveFailed id errcode]) next := by
  have own := @Sound.own _ _ _ _ _ _ _ (.receiveFailed id errcode) sound found rfl
  rw [sessionStep, if_neg (not_or.mpr ⟨pending, error⟩)]
  split
  · exact ⟨_, rfl, (sound.but rfl (sound.inside found)).onSessionError (sound.inside found)
      (own.completed pending errcode)⟩
  · next dead =>
      refine ⟨_, rfl, sound.quiet found rfl ⟨own.completed pending errcode, ?_⟩ server.allocated⟩
      intro kept
      exact absurd (Or.inl kept) dead

theorem Sound.written {buf : SendBuffer} (sound : Sound doDecode maxBufferSize past server)
    (found : server.objects[id]? = some session) (flying : buf ∈ session.socket.native.writes) :
    ∃ next, server.sessionStep (doDecode id) id session (.written id buf) = some next ∧
      Sound doDecode maxBufferSize (past ++ [.written id buf]) next := by
  have own := @Sound.own _ _ _ _ _ _ _ (.written id buf) sound found rfl
  have same := (SocketRun.retire session.socket buf).sameReading_onSend
  have after : SessionSound (doDecode id) (maxBufferSize id) id server.log
      (id ∈ server.sessions) (partsOf id (past ++ [.written id buf])) (wrote session buf 0) :=
    own.setSocket ⟨same.receives, same.receiving, same.isOpen, same.connected⟩
  have inside := sound.inside found
  have but := (@Sound.but _ _ _ _ _ _ (.written id buf) sound rfl inside).setSession
    (wrote session buf 0) server.allocated
  have here : (server.objects.set id (wrote session buf 0))[id]? = some (wrote session buf 0) :=
    List.getElem?_set_self inside
  rw [sessionStep, if_neg (not_not_intro flying)]
  simp only
  split
  · refine ⟨_, rfl, ?_⟩
    rw [tell]
    split
    · next listens =>
        refine (but.note (.sent id buf.bytes.length) ?_ rfl ⟨own.known, own.listening listens⟩
          rfl).finish here (after.append ?_ fun still => still)
        · exact inside.trans_eq List.length_set.symm
        · intro entry member
          obtain rfl := List.mem_singleton.mp member
          exact trivial
    · exact but.finish here after
  · exact ⟨_, rfl, but.finish here after⟩

theorem Sound.writeFailed {buf : SendBuffer} {errcode : Int}
    (sound : Sound doDecode maxBufferSize past server) (found : server.objects[id]? = some session)
    (flying : buf ∈ session.socket.native.writes) (error : errcode ≠ 0) :
    ∃ next, server.sessionStep (doDecode id) id session (.writeFailed id buf errcode) = some next ∧
      Sound doDecode maxBufferSize (past ++ [.writeFailed id buf errcode]) next := by
  have own := @Sound.own _ _ _ _ _ _ _ (.writeFailed id buf errcode) sound found rfl
  rw [sessionStep, if_neg (not_or.mpr ⟨not_not_intro flying, error⟩)]
  split
  · exact ⟨_, rfl, (sound.but rfl (sound.inside found)).onSessionError (sound.inside found)
      (own.wrote buf errcode)⟩
  · next dead =>
      refine ⟨_, rfl, sound.quiet found rfl ⟨own.wrote buf errcode, ?_⟩ server.allocated⟩
      intro kept
      exact absurd (Or.inl kept) dead

theorem Sound.close (sound : Sound doDecode maxBufferSize past server)
    (found : server.objects[id]? = some session) (alive : server.Alive id session) :
    ∃ next, server.sessionStep (doDecode id) id session (.close id) = some next ∧
      Sound doDecode maxBufferSize (past ++ [.close id]) next := by
  have own := @Sound.own _ _ _ _ _ _ _ (.close id) sound found rfl
  have inside := sound.inside found
  have but := (@Sound.but _ _ _ _ _ _ (.close id) sound rfl inside).setSession session.close
    server.allocated
  have here : (server.objects.set id session.close)[id]? = some session.close :=
    List.getElem?_set_self inside
  rw [sessionStep, if_neg (not_not_intro alive)]
  refine ⟨_, rfl, ?_⟩
  rw [tell]
  split
  · next listens =>
      refine (but.note (.closed id) ?_ rfl ⟨own.known, own.listening listens⟩ rfl).finish here
        ⟨own.close ?_, ?_⟩
      · exact inside.trans_eq List.length_set.symm
      · exact fun entry => List.mem_singleton.mp
      · intro _ unaborted
        cases unaborted
  · have closed := @SessionCore.close _ _ [] _ _ _ _ _ _ own.toSessionCore
      fun entry member => absurd member List.not_mem_nil
    rw [List.append_nil] at closed
    refine but.finish here ⟨closed, ?_⟩
    intro _ unaborted
    cases unaborted

theorem Sound.fresh (sound : Sound doDecode maxBufferSize past server) :
    ∀ entry ∈ server.log, entry.session ≠ some server.objects.length := by
  intro entry member about
  exact absurd (sound.numbered entry member _ about) (lt_irrefl _)

theorem Sound.not_mem_length (sound : Sound doDecode maxBufferSize past server) :
    server.objects.length ∉ server.sessions := by
  rw [sound.kept]
  intro member
  obtain ⟨answer, created⟩ := known_of_mem_keptBy member
  exact sound.fresh _ created rfl

theorem Sound.partsOf_length (sound : Sound doDecode maxBufferSize past server)
    (answer held : Bool) :
    partsOf server.objects.length (past ++ [.client answer held]) = [] := by
  rw [partsOf_append]
  refine List.append_eq_nil_iff.mpr ⟨?_, rfl⟩
  rw [partsOf, List.filterMap_eq_nil_iff]
  intro event member
  cases event with
  | received id data =>
      refine if_neg ?_
      rintro rfl
      exact absurd (sound.events _ member _ rfl) (lt_irrefl _)
  | _ => rfl

/-- A session is new. -/
theorem SessionCore.new {decode : DoDecode Message} {size : Int} {kept : Prop} {answer : Bool}
    (fresh : ∀ entry ∈ log, entry.session ≠ some id)
    (about : ∀ entry ∈ more, entry = .created id answer ∨ entry = .opened id)
    (created : .created id answer ∈ more) (listening : session.listening = true)
    (decoder : session.decoder = given size answer) (unaborted : session.aborted = false)
    (receives : session.socket.native.receives = if session.socket.receiving then 1 else 0) :
    SessionCore decode size id (log ++ more) kept [] session := by
  have known := List.mem_append_right log created
  have told : toldOf id (log ++ more) = [] := by
    rw [toldOf_append]
    refine List.append_eq_nil_iff.mpr ⟨toldOf_eq_nil fresh, ?_⟩
    rw [toldOf, List.filterMap_eq_nil_iff]
    intro entry member
    rcases about entry member with rfl | rfl
    · rfl
    · rfl
  have silent : (given size answer : BufferedMessageDecoder Message).messages = [] := by
    cases answer with
    | false => rfl
    | true => rfl
  refine ⟨⟨answer, [], known, List.prefix_rfl, told.trans silent.symm⟩,
    fun _ _ => ⟨answer, known, decoder⟩, ?_, fun _ => ⟨listening, ?_⟩, fun _ => ?_, ?_, receives,
    fun _ => listening⟩
  · rw [told, decoder, silent]
  · intro closed
    rcases List.mem_append.mp closed with earlier | now
    · exact fresh _ earlier rfl
    · rcases about _ now with same | same
      · cases same
      · cases same
  · rintro ⟨errcode, destroyed⟩
    rcases List.mem_append.mp destroyed with earlier | now
    · exact fresh _ earlier rfl
    · rcases about _ now with same | same
      · cases same
      · cases same
  · intro aborted
    exact absurd (aborted.symm.trans unaborted) (by simp)

/-- A session more. -/
theorem Sound.add {answer held : Bool} {sessions : List Nat}
    (sound : Sound doDecode maxBufferSize past server)
    (kept : sessions = keptBy (server.log ++ more))
    (allowed : EachAllowed Allowed (server.log ++ more))
    (about : ∀ entry ∈ more, entry.session = some server.objects.length)
    (fewer : ∀ other ≠ server.objects.length, other ∈ sessions → other ∈ server.sessions)
    (own : SessionSound (doDecode server.objects.length) (maxBufferSize server.objects.length)
      server.objects.length (server.log ++ more) (server.objects.length ∈ sessions) [] session) :
    Sound doDecode maxBufferSize (past ++ [.client answer held])
      { server with
        objects := server.objects ++ [session]
        sessions
        log := server.log ++ more } := by
  have longer : (server.objects ++ [session]).length = server.objects.length + 1 := by simp
  refine ⟨⟨kept, allowed, ?_, ?_⟩, ?_⟩
  · intro entry member id known
    simp only [longer]
    rcases List.mem_append.mp member with earlier | now
    · exact Nat.lt_succ_of_lt (sound.numbered entry earlier id known)
    · obtain rfl := Option.some.inj ((about entry now).symm.trans known)
      exact Nat.lt_succ_self _
  · intro event member id known
    simp only [longer]
    rcases List.mem_append.mp member with earlier | now
    · exact Nat.lt_succ_of_lt (sound.events event earlier id known)
    · obtain rfl := List.mem_singleton.mp now
      cases known
  · intro id seen found
    by_cases new : id = server.objects.length
    · subst new
      rw [sound.partsOf_length]
      obtain rfl : session = seen := by simpa using found
      exact own
    · have old : server.objects[id]? = some seen := by
        rw [List.getElem?_append] at found
        split at found
        · exact found
        · exact absurd (List.getElem?_eq_some_iff.mp found).1 (by simp; omega)
      refine (@Sound.own _ _ _ _ _ _ _ (.client answer held) sound old rfl).append ?_ (fewer id new)
      intro entry member
      refine harmless_of_session_ne fun same => new ?_
      exact Option.some.inj (same.symm.trans (about entry member))

/-- A session is made for a client. -/
theorem Sound.client (sound : Sound doDecode maxBufferSize past server) (answer held : Bool) :
    Sound doDecode maxBufferSize (past ++ [.client answer held])
      (server.onAcceptorClient (BufferedMessageDecoder.create
        (maxBufferSize server.objects.length)) answer held) := by
  have created : EachAllowed Allowed
      (server.log ++ [.created server.objects.length answer]) :=
    eachAllowed_snoc_iff.mpr ⟨sound.allowed, sound.fresh⟩
  cases answer with
  | false =>
      refine @Sound.add _ [.created server.objects.length false] _ _ _ _ _ false held
        server.sessions sound ?_ created ?_ (fun _ _ member => member)
        ⟨SessionCore.new sound.fresh ?_ (List.mem_singleton_self _) rfl rfl rfl rfl, ?_⟩
      · rw [keptBy_snoc, ← sound.kept]
        rfl
      · intro entry member
        rw [List.mem_singleton.mp member]
        rfl
      · exact fun entry member => Or.inl (List.mem_singleton.mp member)
      · exact fun kept => absurd kept sound.not_mem_length
  | true =>
      have logs : server.log ++ [.created server.objects.length true,
          .opened server.objects.length] = server.log ++ [.created server.objects.length true] ++
            [.opened server.objects.length] := List.append_cons ..
      have opened : EachAllowed Allowed (server.log ++ [.created server.objects.length true,
          .opened server.objects.length]) := by
        rw [logs]
        exact eachAllowed_snoc_iff.mpr ⟨created, List.getLast?_concat ..⟩
      have added := @Sound.add _
        [.created server.objects.length true, .opened server.objects.length] _ _ _ _
        (TcpSession.create (BufferedMessageDecoder.create
          (maxBufferSize server.objects.length)) held).openSession true held
        (server.sessions ++ [server.objects.length]) sound ?_ opened ?_ ?_
        ⟨SessionCore.new sound.fresh ?_ (List.mem_cons_self ..) rfl rfl rfl rfl,
          fun _ _ => ⟨rfl, rfl, fun _ => rfl⟩⟩
      · rw [logs] at added
        exact added
      · rw [logs, keptBy_snoc, keptBy_snoc, ← sound.kept]
        rfl
      · intro entry member
        rcases List.mem_pair.mp member with rfl | rfl
        · rfl
        · rfl
      · intro other different member
        refine (List.mem_append.mp member).resolve_right ?_
        exact fun last => different (List.mem_singleton.mp last)
      · exact fun entry => List.mem_pair.mp

theorem Sound.stop (sound : Sound doDecode maxBufferSize past server) :
    Sound doDecode maxBufferSize (past ++ [.stop]) server.stop := by
  have harmless (id : Nat) : ∀ entry ∈ [(ServerEntry.stopped : ServerEntry Message)],
      Harmless id entry := by
    intro entry member
    obtain rfl := List.mem_singleton.mp member
    exact trivial
  refine ⟨⟨?_, eachAllowed_snoc_iff.mpr ⟨sound.allowed, trivial⟩, ?_, ?_⟩, ?_⟩
  · rw [TcpServer.stop, record, keptBy_snoc]
    rfl
  · intro entry member id about
    rcases List.mem_append.mp member with earlier | now
    · exact sound.numbered entry earlier id about
    · obtain rfl := List.mem_singleton.mp now
      cases about
  · intro event member id about
    rcases List.mem_append.mp member with earlier | now
    · exact sound.events event earlier id about
    · obtain rfl := List.mem_singleton.mp now
      cases about
  · intro id session found
    refine (@Sound.own _ _ _ _ _ _ _ .stop sound found rfl).append (harmless id) ?_
    exact fun kept => absurd kept List.not_mem_nil

/-- **One step.** -/
theorem Sound.step {event : Event} (sound : Sound doDecode maxBufferSize past server)
    (permitted : Permitted doDecode server event) :
    ∃ next, server.step doDecode maxBufferSize event = some next ∧
      Sound doDecode maxBufferSize (past ++ [event]) next := by
  cases event with
  | client answer held => exact ⟨_, rfl, sound.client answer held⟩
  | stop => exact ⟨_, rfl, sound.stop⟩
  | received id data =>
      obtain ⟨session, found, pending, safe⟩ := permitted
      simp only [TcpServer.step, Event.session, Option.bind_some, found]
      exact sound.received found pending safe
  | receiveFailed id errcode =>
      obtain ⟨session, found, pending, error⟩ := permitted
      simp only [TcpServer.step, Event.session, Option.bind_some, found]
      exact sound.receiveFailed found pending error
  | written id buf =>
      obtain ⟨session, found, flying⟩ := permitted
      simp only [TcpServer.step, Event.session, Option.bind_some, found]
      exact sound.written found flying
  | writeFailed id buf errcode =>
      obtain ⟨session, found, flying, error⟩ := permitted
      simp only [TcpServer.step, Event.session, Option.bind_some, found]
      exact sound.writeFailed found flying error
  | write id data =>
      obtain ⟨session, found, alive⟩ := permitted
      simp only [TcpServer.step, Event.session, Option.bind_some, found, sessionStep]
      rw [if_neg (not_not_intro alive)]
      have own := @Sound.own _ _ _ _ _ _ _ (.write id data) sound found rfl
      exact ⟨_, rfl, sound.quiet found rfl (own.setSocket (session.socket.sameReading_sendN _))
        (server.allocated + 1)⟩
  | pause id =>
      obtain ⟨session, found, alive⟩ := permitted
      simp only [TcpServer.step, Event.session, Option.bind_some, found, sessionStep]
      rw [if_neg (not_not_intro alive)]
      have own := @Sound.own _ _ _ _ _ _ _ (.pause id) sound found rfl
      exact ⟨_, rfl, sound.quiet found rfl own.pause server.allocated⟩
  | resume id =>
      obtain ⟨session, found, alive⟩ := permitted
      simp only [TcpServer.step, Event.session, Option.bind_some, found, sessionStep]
      rw [if_neg (not_not_intro alive)]
      have own := @Sound.own _ _ _ _ _ _ _ (.resume id) sound found rfl
      exact ⟨_, rfl, sound.quiet found rfl own.resume server.allocated⟩
  | close id =>
      obtain ⟨session, found, alive⟩ := permitted
      simp only [TcpServer.step, Event.session, Option.bind_some, found]
      exact sound.close found alive
  | release id =>
      obtain ⟨session, found, held⟩ := permitted
      simp only [TcpServer.step, Event.session, Option.bind_some, found, sessionStep]
      rw [if_pos held]
      have own := @Sound.own _ _ _ _ _ _ _ (.release id) sound found rfl
      exact ⟨_, rfl, sound.quiet found rfl own.release server.allocated⟩

end Step

/-! ## Runs -/

theorem sound_create (doDecode : Nat → DoDecode Message) (maxBufferSize : Nat → Int) :
    Sound doDecode maxBufferSize [] (create : TcpServer Message) := by
  refine ⟨⟨rfl, eachAllowed_nil, ?_, ?_⟩, ?_⟩
  · exact fun entry member => absurd member List.not_mem_nil
  · exact fun event member => absurd member List.not_mem_nil
  · intro id session found
    cases found

end TcpServer

end Xul
