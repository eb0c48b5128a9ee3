import Mathlib.Logic.Function.Basic
import Xul.Foundation.Runs
import Xul.Std.Bytes

/-!
# The registry of loggers

`log_service_impl::get_logger` loads the table of loggers atomically.  When the name is not
in it, the call copies the table, adds a new logger and stores the copy atomically.  The
threads that call it take these steps in any order.

The table keeps every logger when each call stores over the table that it loaded
(`kept_of_unraced`).
-/

set_option autoImplicit false

namespace Xul

open Foundation

/-- `logger_collection`: the names with their loggers.  A logger is known by the number of
loggers created before it. -/
abbrev LoggerTable := List (Bytes × Nat)

/-- A call to `get_logger` that has not returned. -/
structure GetLoggerCall where
  name : Bytes
  /-- How many calls had returned when this one started. -/
  seen : Nat
  /-- The table in which the name was not found. -/
  loaded : Option LoggerTable
deriving DecidableEq

/-- A call to `get_logger` that has returned. -/
structure ReturnedCall where
  name : Bytes
  seen : Nat
  logger : Nat
deriving DecidableEq

/-- `log_service_impl` with the calls that threads make to it. -/
structure LogService (Thread : Type) where
  /-- `m_loggers` -/
  loggers : LoggerTable
  created : Nat
  calls : Thread → Option GetLoggerCall
  /-- The names that were ever added to a table that was stored. -/
  registered : List Bytes
  returned : List ReturnedCall

namespace LogService

variable {Thread : Type}

inductive Action
  | enter (name : Bytes)
  | load
  | store

/-- The constructor gets the root logger. -/
def create : LogService Thread where
  loggers := [(ascii "root", 0)]
  created := 1
  calls _ := none
  registered := [ascii "root"]
  returned := [⟨ascii "root", 0, 0⟩]

variable [DecidableEq Thread]

def enter (service : LogService Thread) (thread : Thread) (name : Bytes) : LogService Thread :=
  { service with
    calls := Function.update service.calls thread (some ⟨name, service.returned.length, none⟩) }

/-- `atomic_load`, and the search in what was loaded. -/
def load (service : LogService Thread) (thread : Thread) (name : Bytes) (seen : Nat) :
    LogService Thread :=
  match service.loggers.lookup name with
  | some logger =>
      { service with
        calls := Function.update service.calls thread none
        returned := service.returned ++ [⟨name, seen, logger⟩] }
  | none =>
      { service with
        calls := Function.update service.calls thread (some ⟨name, seen, service.loggers⟩) }

/-- `atomic_store` of the copy with the new logger in it. -/
def store (service : LogService Thread) (thread : Thread) (name : Bytes) (seen : Nat)
    (loaded : LoggerTable) : LogService Thread :=
  { loggers := (name, service.created) :: loaded
    created := service.created + 1
    calls := Function.update service.calls thread none
    registered := service.registered ++ [name]
    returned := service.returned ++ [⟨name, seen, service.created⟩] }

/-- A thread takes one step. -/
def step (service : LogService Thread) : Thread × Action → Option (LogService Thread)
  | (thread, action) =>
      match action, service.calls thread with
      | .enter name, none => some (service.enter thread name)
      | .load, some ⟨name, seen, none⟩ => some (service.load thread name seen)
      | .store, some ⟨name, seen, some loaded⟩ => some (service.store thread name seen loaded)
      | _, _ => none

/-- A registered name is in the table, and a call that starts after another with its name
has returned gets the same logger. -/
structure Kept (service : LogService Thread) : Prop where
  registered : ∀ name ∈ service.registered, ∃ logger, service.loggers.lookup name = some logger
  same : ∀ (i j : Nat) (first second : ReturnedCall), service.returned[i]? = some first →
    service.returned[j]? = some second → i < second.seen → first.name = second.name →
      first.logger = second.logger

/-- A store finds the table that its call loaded. -/
def Unraced (service : LogService Thread) : Thread × Action → Prop
  | (thread, .store) =>
      ∀ call loaded, service.calls thread = some call → call.loaded = some loaded →
        service.loggers = loaded
  | _ => True

/-! ## The table grows -/

/-- What was returned is in the table, and what a call did not find was not in the table. -/
structure Consistent (service : LogService Thread) : Prop where
  registered : ∀ name ∈ service.registered, ∃ logger, service.loggers.lookup name = some logger
  returned : ∀ call ∈ service.returned, service.loggers.lookup call.name = some call.logger
  missing : ∀ thread call loaded, service.calls thread = some call → call.loaded = some loaded →
    loaded.lookup call.name = none

omit [DecidableEq Thread] in
theorem Consistent.kept {service : LogService Thread} (consistent : service.Consistent) :
    service.Kept where
  registered := consistent.registered
  same i j first second atFirst atSecond _ sameName := by
    have one := consistent.returned first (List.mem_of_getElem? atFirst)
    have other := consistent.returned second (List.mem_of_getElem? atSecond)
    exact Option.some.inj (one.symm.trans (sameName ▸ other))

/-- A name that is not in the table is added to it. -/
theorem lookup_cons_of_lookup {table : LoggerTable} {name other : Bytes} {logger new : Nat}
    (missing : table.lookup name = none) (found : table.lookup other = some logger) :
    List.lookup other ((name, new) :: table) = some logger := by
  have different : (other == name) = false := by
    refine beq_eq_false_iff_ne.mpr ?_
    intro same
    rw [same, missing] at found
    exact absurd found nofun
  rw [List.lookup_cons, different]
  exact found

/-- The calls of the other threads stay, and this thread's call becomes `call`. -/
theorem missing_update {calls : Thread → Option GetLoggerCall} {thread : Thread}
    {now : Option GetLoggerCall}
    (missing : ∀ thread call loaded, calls thread = some call → call.loaded = some loaded →
      loaded.lookup call.name = none)
    (new : ∀ call loaded, now = some call → call.loaded = some loaded →
      loaded.lookup call.name = none)
    (other : Thread) (call : GetLoggerCall) (loaded : LoggerTable)
    (calls_other : Function.update calls thread now other = some call)
    (has : call.loaded = some loaded) : loaded.lookup call.name = none := by
  by_cases same : other = thread
  · subst same
    rw [Function.update_self] at calls_other
    exact new call loaded calls_other has
  · rw [Function.update_of_ne same] at calls_other
    exact missing other call loaded calls_other has

omit [DecidableEq Thread] in
theorem consistent_create : (create : LogService Thread).Consistent where
  registered name member := ⟨0, by rw [List.mem_singleton.mp member]; rfl⟩
  returned call member := by rw [List.mem_singleton.mp member]; rfl
  missing thread call loaded calls _ := nomatch calls

variable {service : LogService Thread}

theorem Consistent.enter (consistent : service.Consistent) (thread : Thread) (name : Bytes) :
    (service.enter thread name).Consistent where
  registered := consistent.registered
  returned := consistent.returned
  missing := missing_update consistent.missing fun call loaded isNew has => by
    cases isNew
    exact absurd has nofun

theorem Consistent.load (consistent : service.Consistent) (thread : Thread) (name : Bytes)
    (seen : Nat) : (service.load thread name seen).Consistent := by
  rw [LogService.load]
  cases found : service.loggers.lookup name with
  | some logger =>
      refine ⟨consistent.registered, ?_, missing_update consistent.missing nofun⟩
      intro call member
      rcases List.mem_append.mp member with earlier | new
      · exact consistent.returned call earlier
      · rwa [List.mem_singleton.mp new]
  | none =>
      refine ⟨consistent.registered, consistent.returned, missing_update consistent.missing ?_⟩
      intro call loaded isNew has
      cases isNew
      cases has
      exact found

theorem Consistent.store (consistent : service.Consistent) (thread : Thread) {name : Bytes}
    (seen : Nat) (missing : service.loggers.lookup name = none) :
    (service.store thread name seen service.loggers).Consistent where
  registered other member := by
    rcases List.mem_append.mp member with earlier | new
    · obtain ⟨logger, found⟩ := consistent.registered other earlier
      exact ⟨logger, lookup_cons_of_lookup missing found⟩
    · rw [List.mem_singleton.mp new]
      exact ⟨service.created, List.lookup_cons_self⟩
  returned call member := by
    rcases List.mem_append.mp member with earlier | new
    · exact lookup_cons_of_lookup missing (consistent.returned call earlier)
    · rw [List.mem_singleton.mp new]
      exact List.lookup_cons_self
  missing := missing_update consistent.missing nofun

/-- **One step.** -/
theorem consistent_step (service : LogService Thread) (event : Thread × Action)
    (next : LogService Thread) (consistent : service.Consistent) (unraced : service.Unraced event)
    (happens : service.step event = some next) : next.Consistent := by
  obtain ⟨thread, action⟩ := event
  unfold step at happens
  dsimp only at happens
  split at happens
  · next name _ =>
      cases happens
      exact consistent.enter thread name
  · next name seen _ =>
      cases happens
      exact consistent.load thread name seen
  · next name seen loaded call =>
      cases happens
      have same : service.loggers = loaded := unraced _ loaded call rfl
      have missing := consistent.missing thread _ loaded call rfl
      subst same
      exact consistent.store thread seen missing
  · exact absurd happens nofun

/-- **The registry keeps every logger** in a run in which each call stores over the table
that it loaded. -/
theorem kept_of_unraced (events : List (Thread × Action))
    (unraced : Guarded step Unraced (create : LogService Thread) events) :
    Throughout step Kept (create : LogService Thread) events :=
  (throughout_of_guarded consistent_step consistent_create unraced).imp fun _ => Consistent.kept

/-- Two threads ask for one name, the second after the first has added it. -/
def sequentialCalls : List (Nat × Action) :=
  [(0, .enter [97]), (0, .load), (0, .store), (1, .enter [97]), (1, .load)]

theorem kept_of_unraced_sequential :
    Throughout step Kept (create : LogService Nat) sequentialCalls := by
  refine kept_of_unraced sequentialCalls ?_
  rintro _ ⟨⟩
  refine ⟨trivial, ?_⟩
  rintro _ ⟨⟩
  refine ⟨trivial, ?_⟩
  rintro _ ⟨⟩
  constructor
  · rintro call loaded ⟨⟩ ⟨⟩
    rfl
  · rintro _ ⟨⟩
    refine ⟨trivial, ?_⟩
    rintro _ ⟨⟩
    exact ⟨trivial, trivial⟩

/-- Two threads that loaded the same table both store, and the first name is lost. -/
theorem name_lost :
    ¬ Throughout step Kept (create : LogService Nat)
        [(0, .enter [97]), (1, .enter [98]), (0, .load), (1, .load), (0, .store), (1, .store)] := by
  intro throughout
  have kept := ((((((throughout.2 _ rfl).2 _ rfl).2 _ rfl).2 _ rfl).2 _ rfl).2 _ rfl).head
  have found := Option.isSome_iff_exists.mpr (kept.registered [97] (by decide +kernel))
  exact absurd found (by decide +kernel)

end LogService

end Xul
