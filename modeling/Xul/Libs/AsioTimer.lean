import Mathlib.Data.List.Count
import Mathlib.Data.List.Perm.Basic
import Mathlib.Tactic.Ring
import Xul.Foundation.Logs
import Xul.Foundation.Runs

/-!
# Timers

`asio_once_timer` waits once for each `start`; `asio_periodic_timer` starts the next wait,
one interval after the last one was due, whenever a wait has ended.  The native timer under
them ends every wait once: with success when the time has come, or with an error when it was
cancelled before.  The ends wait in the queue of the io service, from which `cancel` does not
take them back.

A wait is told apart from those of other calls by the number of calls to `start` and `stop`
before it.  The timers keep their contract when no end of an earlier call's wait is handled
(`punctual_of_fresh`).

The notification is the last thing the handler does, so what the listener calls from inside
one is a later event of the run.
-/

set_option autoImplicit false

namespace Xul

open Foundation

/-- `basic_deadline_timer` and the queue of the io service. -/
structure DeadlineTimer where
  expiry : Int
  /-- The waits that have not ended, by the calls before them. -/
  waits : List Nat
  /-- The waits that have ended, with success or cancelled. -/
  queued : List (Nat × Bool)

namespace DeadlineTimer

def cancel (waiter : DeadlineTimer) : DeadlineTimer :=
  { waiter with waits := [], queued := waiter.queued ++ waiter.waits.map fun wait => (wait, false) }

def expiresAt (waiter : DeadlineTimer) (expiry : Int) : DeadlineTimer :=
  { waiter.cancel with expiry }

def asyncWait (waiter : DeadlineTimer) (wait : Nat) : DeadlineTimer :=
  { waiter with waits := waiter.waits ++ [wait] }

/-- The time has come. -/
def expire (waiter : DeadlineTimer) : DeadlineTimer :=
  { waiter with waits := [], queued := waiter.queued ++ waiter.waits.map fun wait => (wait, true) }

end DeadlineTimer

inductive TimerKind
  | once
  | periodic
deriving DecidableEq

/-- `asio_timer`, and the `m_firetime` of `asio_periodic_timer`. -/
structure AsioTimer where
  native : DeadlineTimer
  started : Bool
  interval : Int
  times : Nat
  firetime : Int

namespace AsioTimer

def create : AsioTimer := ⟨⟨0, [], []⟩, false, 0, 0, 0⟩

/-- `start_from_now` -/
def startFromNow (timer : AsioTimer) (now interval : Int) (wait : Nat) : AsioTimer :=
  { timer with native := (timer.native.expiresAt (now + interval)).asyncWait wait }

/-- `start_at` -/
def startAt (timer : AsioTimer) (expireTime : Int) (wait : Nat) : AsioTimer :=
  { timer with native := (timer.native.expiresAt expireTime).asyncWait wait }

/-- `do_start_once` -/
def doStartOnce (timer : AsioTimer) (wait : Nat) : AsioTimer :=
  let firetime := timer.firetime + timer.interval
  ({ timer with firetime }).startAt firetime wait

/-- `do_start`.  The periodic one raises a negative interval to 0 in its own parameter,
which is not read after that. -/
def doStart (kind : TimerKind) (timer : AsioTimer) (now interval : Int) (wait : Nat) : AsioTimer :=
  match kind with
  | .once => timer.startFromNow now interval wait
  | .periodic => ({ timer with firetime := now, times := 0 }).doStartOnce wait

def stop (timer : AsioTimer) : AsioTimer :=
  { timer with started := false, native := timer.native.cancel }

def start (kind : TimerKind) (timer : AsioTimer) (now interval : Int) (wait : Nat) : AsioTimer :=
  { doStart kind { timer.stop with interval } now interval wait with started := true }

/-- `on_timer`, and whether the listener is notified. -/
def onTimer (kind : TimerKind) (timer : AsioTimer) (wait : Nat) : AsioTimer × Bool :=
  match kind with
  | .once => (timer, true)
  | .periodic =>
      if timer.started = false then (timer, false)
      else (({ timer with times := timer.times + 1 }).doStartOnce wait, true)

end AsioTimer

/-! ## Runs -/

/-- What is seen of a timer. -/
inductive TimerEntry
  | started (time interval : Int)
  | stopped
  | notified (time : Int)
deriving DecidableEq

structure TimerRun where
  kind : TimerKind
  timer : AsioTimer
  now : Int
  /-- How many calls to `start` and `stop` were made. -/
  calls : Nat
  log : List TimerEntry

namespace TimerRun

inductive Event
  | start (interval : Int)
  | stop
  | pass (time : Nat)
  | expire
  | complete (index : Nat)

def create (kind : TimerKind) : TimerRun := ⟨kind, .create, 0, 0, []⟩

/-- `on_timer_impl_callback` for a wait that has left the queue. -/
def completed (run : TimerRun) (success : Bool) : TimerRun :=
  if success then
    let (timer, notified) := run.timer.onTimer run.kind run.calls
    { run with timer, log := run.log ++ if notified then [.notified run.now] else [] }
  else run

def step (run : TimerRun) : Event → Option TimerRun
  | .start interval =>
      some { run with
        timer := run.timer.start run.kind run.now interval (run.calls + 1)
        calls := run.calls + 1
        log := run.log ++ [.started run.now interval] }
  | .stop =>
      some { run with
        timer := run.timer.stop
        calls := run.calls + 1
        log := run.log ++ [.stopped] }
  | .pass time => some { run with now := run.now + time }
  | .expire =>
      if run.timer.native.expiry ≤ run.now then
        some { run with timer := { run.timer with native := run.timer.native.expire } }
      else none
  | .complete index =>
      match run.timer.native.queued[index]? with
      | none => none
      | some (_, success) =>
          let queued := run.timer.native.queued.eraseIdx index
          some ({ run with
            timer := { run.timer with native := { run.timer.native with queued } } }.completed
              success)

/-! ## The contract -/

/-- A start that was not stopped: its time, its interval and the notifications since. -/
structure TimerSession where
  time : Int
  interval : Int
  notified : Nat

/-- The session after an entry. -/
def sessionAfter (session : Option TimerSession) : TimerEntry → Option TimerSession
  | .started time interval => some ⟨time, interval, 0⟩
  | .stopped => none
  | .notified _ => session.map fun session => { session with notified := session.notified + 1 }

/-- The session at the end of a log. -/
def session (log : List TimerEntry) : Option TimerSession := log.foldl sessionAfter none

/-- The next notification of a session is allowed at this time. -/
def OnTime (time : Int) (session : TimerSession) : TimerKind → Prop
  | .once => session.notified = 0
  | .periodic => session.time + (session.notified + 1) * session.interval ≤ time

/-- A notification belongs to a start that was not stopped, and is on time. -/
def Allowed (kind : TimerKind) (before : List TimerEntry) : TimerEntry → Prop
  | .notified time => ∃ now, session before = some now ∧ OnTime time now kind
  | _ => True

/-- Every notification so far was allowed. -/
def Punctual (run : TimerRun) : Prop := EachAllowed (Allowed run.kind) run.log

/-- A wait whose end is handled was started by the last call, or the timer is a periodic one
that is stopped. -/
def Fresh (run : TimerRun) : Event → Prop
  | .complete index =>
      ∀ wait, run.timer.native.queued[index]? = some (wait, true) →
        wait = run.calls ∨ (run.kind = .periodic ∧ run.timer.started = false)
  | _ => True

end TimerRun

/-! ## The waits of one call -/

namespace DeadlineTimer

variable {waiter : DeadlineTimer} {calls : Nat}

/-- How many waits of a call have not ended or have a successful end in the queue. -/
def live (waiter : DeadlineTimer) (calls : Nat) : Nat :=
  waiter.waits.count calls + waiter.queued.count (calls, true)

/-- No wait belongs to a later call. -/
structure Known (waiter : DeadlineTimer) (calls : Nat) : Prop where
  waits : ∀ wait ∈ waiter.waits, wait ≤ calls
  queued : ∀ ended ∈ waiter.queued, ended.1 ≤ calls

theorem Known.of_le {later : Nat} (known : waiter.Known calls) (le : calls ≤ later) :
    waiter.Known later :=
  ⟨fun wait member => (known.waits wait member).trans le,
    fun ended member => (known.queued ended member).trans le⟩

theorem Known.live_succ (known : waiter.Known calls) : waiter.live (calls + 1) = 0 := by
  have noWait : calls + 1 ∉ waiter.waits := fun member =>
    absurd (known.waits _ member) (Nat.not_succ_le_self _)
  have noEnd : (calls + 1, true) ∉ waiter.queued := fun member =>
    absurd (known.queued _ member) (Nat.not_succ_le_self _)
  rw [live, List.count_eq_zero_of_not_mem noWait, List.count_eq_zero_of_not_mem noEnd]

/-- The queue has no end of a wait of the next call. -/
theorem Known.count_queued_succ (known : waiter.Known calls) :
    waiter.queued.count (calls + 1, true) = 0 :=
  Nat.le_zero.mp (known.live_succ ▸ Nat.le_add_left ..)

theorem queued_ended {success : Bool} (known : waiter.Known calls) :
    ∀ ended ∈ waiter.queued ++ waiter.waits.map fun wait => (wait, success), ended.1 ≤ calls := by
  intro ended member
  rcases List.mem_append.mp member with earlier | new
  · exact known.queued ended earlier
  · obtain ⟨wait, isWait, rfl⟩ := List.mem_map.mp new
    exact known.waits wait isWait

theorem Known.cancel (known : waiter.Known calls) : waiter.cancel.Known calls :=
  ⟨nofun, queued_ended known⟩

theorem Known.expire (known : waiter.Known calls) : waiter.expire.Known calls :=
  ⟨nofun, queued_ended known⟩

theorem Known.asyncWait (known : waiter.Known calls) : (waiter.asyncWait calls).Known calls := by
  refine ⟨?_, known.queued⟩
  intro wait member
  rcases List.mem_append.mp member with earlier | new
  · exact known.waits wait earlier
  · exact (List.mem_singleton.mp new).le

theorem Known.expiresAt {expiry : Int} (known : waiter.Known calls) :
    (waiter.expiresAt expiry).Known calls := ⟨nofun, known.cancel.queued⟩

/-- A cancelled wait does not end with success. -/
theorem count_queued_cancel :
    waiter.cancel.queued.count (calls, true) = waiter.queued.count (calls, true) := by
  have none : (calls, true) ∉ waiter.waits.map fun wait => (wait, false) := by
    intro member
    obtain ⟨wait, -, same⟩ := List.mem_map.mp member
    exact absurd same (by simp)
  rw [cancel, List.count_append, List.count_eq_zero_of_not_mem none, Nat.add_zero]

/-- A wait that has expired is still a live wait of its call. -/
theorem live_expire : waiter.expire.live calls = waiter.live calls := by
  have same : (waiter.waits.map fun wait => (wait, true)).count (calls, true) =
      waiter.waits.count calls :=
    List.count_map_of_injective _ _ (fun _ _ same => (Prod.mk.inj same).1) _
  rw [live, live, expire, List.count_append, same, List.count_nil, Nat.zero_add, Nat.add_comm]

/-- The timer is set to a new time and waits for it. -/
theorem live_restart {expiry : Int} :
    ((waiter.expiresAt expiry).asyncWait calls).live calls =
      waiter.queued.count (calls, true) + 1 := by
  change [calls].count calls + waiter.cancel.queued.count (calls, true) = _
  rw [count_queued_cancel, List.count_singleton_self, Nat.add_comm]

/-- An end is taken from the queue. -/
theorem live_eraseIdx {index : Nat} {ended : Nat × Bool}
    (found : waiter.queued[index]? = some ended) :
    waiter.live calls = ({ waiter with queued := waiter.queued.eraseIdx index }).live calls +
      if ended = (calls, true) then 1 else 0 := by
  obtain ⟨inside, is⟩ := List.getElem?_eq_some_iff.mp found
  have taken : (ended :: waiter.queued.eraseIdx index).Perm waiter.queued :=
    is ▸ List.getElem_cons_eraseIdx_perm inside
  rw [live, live, ← taken.count_eq, List.count_cons]
  simp only [beq_iff_eq]
  omega

end DeadlineTimer

/-! ## The timers keep the contract -/

namespace TimerRun

variable {run next : TimerRun}

/-- A once timer has notified or has one live wait. -/
def DueOnce (run : TimerRun) (now : TimerSession) : Prop :=
  now.notified + run.timer.native.live run.calls ≤ 1

/-- A periodic timer has one live wait, which ends when the next notification is due. -/
structure DuePeriodic (run : TimerRun) (now : TimerSession) : Prop where
  live : run.timer.native.live run.calls ≤ 1
  interval : run.timer.interval = now.interval
  firetime : run.timer.firetime = now.time + (now.notified + 1) * now.interval
  waits : run.calls ∈ run.timer.native.waits → run.timer.native.expiry = run.timer.firetime
  queued : (run.calls, true) ∈ run.timer.native.queued → run.timer.firetime ≤ run.now

def Due (run : TimerRun) (now : TimerSession) : Prop :=
  match run.kind with
  | .once => run.DueOnce now
  | .periodic => run.DuePeriodic now

/-- The invariant of a run without stale ends. -/
structure Scheduled (run : TimerRun) : Prop where
  punctual : run.Punctual
  known : run.timer.native.Known run.calls
  idle : session run.log = none →
    run.timer.started = false ∧ run.timer.native.live run.calls = 0
  busy : ∀ now, session run.log = some now → run.timer.started = true ∧ run.Due now

theorem session_snoc (log : List TimerEntry) (entry : TimerEntry) :
    session (log ++ [entry]) = sessionAfter (session log) entry := by
  rw [session, List.foldl_append]
  rfl

theorem scheduled_create (kind : TimerKind) : (create kind).Scheduled where
  punctual := eachAllowed_nil
  known := ⟨nofun, nofun⟩
  idle _ := ⟨rfl, rfl⟩
  busy := nofun

theorem Scheduled.start (scheduled : run.Scheduled) (interval : Int)
    (happens : run.step (.start interval) = some next) : next.Scheduled := by
  cases happens
  obtain ⟨kind, timer, now, calls, log⟩ := run
  have known : timer.native.cancel.Known calls := scheduled.known.cancel
  have later : timer.native.cancel.Known (calls + 1) := known.of_le (Nat.le_succ _)
  have none : timer.native.cancel.queued.count (calls + 1, true) = 0 := known.count_queued_succ
  refine ⟨eachAllowed_snoc_iff.mpr ⟨scheduled.punctual, trivial⟩, ?_, ?_, ?_⟩
  · cases kind with
    | once => exact later.expiresAt.asyncWait
    | periodic => exact later.expiresAt.asyncWait
  · intro ended
    rw [session_snoc] at ended
    exact absurd ended nofun
  · intro started isSession
    rw [session_snoc] at isSession
    cases isSession
    refine ⟨rfl, ?_⟩
    cases kind with
    | once =>
        change 0 + ((timer.native.cancel.expiresAt _).asyncWait (calls + 1)).live (calls + 1) ≤ 1
        rw [DeadlineTimer.live_restart, none]
    | periodic =>
        refine ⟨?_, rfl, ?_, fun _ => rfl, ?_⟩
        · change ((timer.native.cancel.expiresAt _).asyncWait (calls + 1)).live (calls + 1) ≤ 1
          rw [DeadlineTimer.live_restart, none]
        · change now + interval = now + ((0 : Nat) + 1) * interval
          rw [Nat.cast_zero, zero_add, one_mul]
        · intro member
          change (calls + 1, true) ∈ timer.native.cancel.cancel.queued at member
          have some := List.count_pos_iff.mpr member
          rw [DeadlineTimer.count_queued_cancel, none] at some
          exact absurd some (lt_irrefl 0)

theorem Scheduled.stop (scheduled : run.Scheduled) (happens : run.step .stop = some next) :
    next.Scheduled := by
  cases happens
  refine ⟨eachAllowed_snoc_iff.mpr ⟨scheduled.punctual, trivial⟩,
    scheduled.known.cancel.of_le (Nat.le_succ _), fun _ => ⟨rfl, ?_⟩, ?_⟩
  · exact scheduled.known.cancel.live_succ
  · intro now isSession
    rw [session_snoc] at isSession
    exact absurd isSession nofun

theorem Scheduled.pass (scheduled : run.Scheduled) (time : Nat)
    (happens : run.step (.pass time) = some next) : next.Scheduled := by
  cases happens
  obtain ⟨kind, timer, now, calls, log⟩ := run
  refine ⟨scheduled.punctual, scheduled.known, scheduled.idle, ?_⟩
  intro started isSession
  obtain ⟨isStarted, due⟩ := scheduled.busy started isSession
  refine ⟨isStarted, ?_⟩
  cases kind with
  | once => exact due
  | periodic =>
      refine { due with queued := fun member => (due.queued member).trans ?_ }
      exact Int.le_add_of_nonneg_right (Int.natCast_nonneg _)

theorem Scheduled.expire (scheduled : run.Scheduled) (happens : run.step .expire = some next) :
    next.Scheduled := by
  rw [step] at happens
  obtain ⟨come, ⟨⟩⟩ := Option.ite_none_right_eq_some.mp happens
  obtain ⟨kind, timer, now, calls, log⟩ := run
  refine ⟨scheduled.punctual, scheduled.known.expire, ?_, ?_⟩
  · intro ended
    obtain ⟨stopped, none⟩ := scheduled.idle ended
    exact ⟨stopped, DeadlineTimer.live_expire.trans none⟩
  · intro started isSession
    obtain ⟨isStarted, due⟩ := scheduled.busy started isSession
    refine ⟨isStarted, ?_⟩
    cases kind with
    | once =>
        change started.notified + timer.native.expire.live calls ≤ 1
        rw [DeadlineTimer.live_expire]
        exact due
    | periodic =>
        refine ⟨?_, due.interval, due.firetime, nofun, ?_⟩
        · change timer.native.expire.live calls ≤ 1
          rw [DeadlineTimer.live_expire]
          exact due.live
        · intro member
          rcases List.mem_append.mp member with earlier | new
          · exact due.queued earlier
          · obtain ⟨wait, isWait, same⟩ := List.mem_map.mp new
            cases same
            exact (due.waits isWait) ▸ come

/-- An end that does not reach the listener leaves the queue. -/
theorem Scheduled.dequeue (scheduled : run.Scheduled) {index : Nat} {ended : Nat × Bool}
    (found : run.timer.native.queued[index]? = some ended) :
    Scheduled { run with timer := { run.timer with native :=
      { run.timer.native with queued := run.timer.native.queued.eraseIdx index } } } := by
  obtain ⟨kind, timer, now, calls, log⟩ := run
  have fewer := @DeadlineTimer.live_eraseIdx timer.native calls index ended found
  have kept : ∀ ended ∈ timer.native.queued.eraseIdx index, ended ∈ timer.native.queued :=
    fun _ => List.mem_of_mem_eraseIdx
  refine ⟨scheduled.punctual, ⟨scheduled.known.waits, ?_⟩, ?_, ?_⟩
  · exact fun ended member => scheduled.known.queued ended (kept ended member)
  · intro idle
    obtain ⟨stopped, none⟩ := scheduled.idle idle
    exact ⟨stopped, Nat.le_zero.mp (none ▸ Nat.le.intro fewer.symm)⟩
  · intro started isSession
    obtain ⟨isStarted, due⟩ := scheduled.busy started isSession
    refine ⟨isStarted, ?_⟩
    cases kind with
    | once => exact (Nat.add_le_add_left (Nat.le.intro fewer.symm) _).trans due
    | periodic =>
        exact ⟨(Nat.le.intro fewer.symm).trans due.live, due.interval, due.firetime, due.waits,
          fun member => due.queued (kept _ member)⟩

/-- The listener is notified in time, and no other wait of the session is live. -/
theorem Scheduled.notify (scheduled : run.Scheduled) {now : TimerSession}
    (isSession : session run.log = some now) (onTime : OnTime run.now now run.kind)
    (spent : run.timer.native.live run.calls = 0) : (run.completed true).Scheduled := by
  obtain ⟨kind, timer, time, calls, log⟩ := run
  obtain ⟨isStarted, due⟩ := scheduled.busy now isSession
  change timer.started = true at isStarted
  change timer.native.live calls = 0 at spent
  have punctual : EachAllowed (Allowed kind) (log ++ [.notified time]) :=
    eachAllowed_snoc_iff.mpr ⟨scheduled.punctual, now, isSession, onTime⟩
  have session' : session (log ++ [.notified time]) =
      some { now with notified := now.notified + 1 } := by
    rw [session_snoc]
    change (session log).map _ = _
    rw [show session log = some now from isSession, Option.map_some]
  cases kind with
  | once =>
      refine ⟨punctual, scheduled.known, ?_, fun later isLater => ⟨isStarted, ?_⟩⟩
      · intro ended
        exact absurd (session'.symm.trans ended) nofun
      · cases session'.symm.trans isLater
        change now.notified + 1 + timer.native.live calls ≤ 1
        rw [spent, show now.notified = 0 from onTime]
  | periodic =>
      have again : completed ⟨.periodic, timer, time, calls, log⟩ true =
          ⟨.periodic, ({ timer with times := timer.times + 1 } : AsioTimer).doStartOnce calls, time,
            calls, log ++ [.notified time]⟩ := by
        simp only [completed, AsioTimer.onTimer, isStarted, if_true]
        rfl
      have none : timer.native.queued.count (calls, true) = 0 :=
        Nat.le_zero.mp (spent ▸ Nat.le_add_left ..)
      rw [again]
      refine ⟨punctual, scheduled.known.expiresAt.asyncWait, ?_,
        fun later isLater => ⟨isStarted, ?_⟩⟩
      · intro ended
        exact absurd (session'.symm.trans ended) nofun
      · cases session'.symm.trans isLater
        refine ⟨?_, due.interval, ?_, fun _ => rfl, ?_⟩
        · change ((timer.native.expiresAt _).asyncWait calls).live calls ≤ 1
          rw [DeadlineTimer.live_restart, none]
        · change timer.firetime + timer.interval =
            now.time + ((now.notified + 1 : Nat) + 1) * now.interval
          rw [due.interval, due.firetime]
          push_cast
          ring
        · intro member
          change (calls, true) ∈ timer.native.cancel.queued at member
          have some := List.count_pos_iff.mpr member
          rw [DeadlineTimer.count_queued_cancel, none] at some
          exact absurd some (lt_irrefl 0)

/-- The one live wait of a session has ended with success: the notification is in time. -/
theorem Scheduled.onTime (scheduled : run.Scheduled)
    (ended : (run.calls, true) ∈ run.timer.native.queued) :
    ∃ now, session run.log = some now ∧ OnTime run.now now run.kind ∧
      run.timer.native.live run.calls = 1 := by
  have positive : 0 < run.timer.native.live run.calls :=
    (List.count_pos_iff.mpr ended).trans_le (Nat.le_add_left ..)
  obtain ⟨kind, timer, time, calls, log⟩ := run
  cases isSession : session log with
  | none => exact absurd (scheduled.idle isSession).2 (Nat.ne_of_gt positive)
  | some now =>
      obtain ⟨-, due⟩ := scheduled.busy now isSession
      refine ⟨now, rfl, ?_⟩
      cases kind with
      | once =>
          change now.notified + timer.native.live calls ≤ 1 at due
          change 0 < timer.native.live calls at positive
          exact ⟨by change now.notified = 0; omega, by change timer.native.live calls = 1; omega⟩
      | periodic =>
          have early : timer.firetime ≤ time := due.queued ended
          rw [show timer.firetime = _ from due.firetime] at early
          exact ⟨early, le_antisymm due.live positive⟩

theorem Scheduled.complete (scheduled : run.Scheduled) (index : Nat)
    (fresh : run.Fresh (.complete index)) (happens : run.step (.complete index) = some next) :
    next.Scheduled := by
  rw [step] at happens
  split at happens
  · exact absurd happens nofun
  · next wait success found =>
      cases happens
      have dequeued := scheduled.dequeue found
      cases success with
      | false => exact dequeued
      | true =>
          rcases fresh wait found with rfl | ⟨periodic, stopped⟩
          · obtain ⟨now, isSession, onTime, one⟩ := scheduled.onTime (List.mem_of_getElem? found)
            refine dequeued.notify isSession onTime ?_
            have fewer := @DeadlineTimer.live_eraseIdx run.timer.native run.calls index _ found
            rw [one, if_pos rfl] at fewer
            exact (Nat.succ.inj fewer).symm
          · obtain ⟨kind, ⟨native, started, interval, times, firetime⟩, time, calls, log⟩ := run
            cases periodic
            cases stopped
            simpa only [completed, AsioTimer.onTimer, if_true, Bool.false_eq_true, if_false,
              List.append_nil] using dequeued

/-- **One event.** -/
theorem scheduled_step (run : TimerRun) (event : Event) (next : TimerRun)
    (scheduled : run.Scheduled) (fresh : run.Fresh event)
    (happens : run.step event = some next) : next.Scheduled := by
  cases event with
  | start interval => exact scheduled.start interval happens
  | stop => exact scheduled.stop happens
  | pass time => exact scheduled.pass time happens
  | expire => exact scheduled.expire happens
  | complete index => exact scheduled.complete index fresh happens

/-- **A timer keeps its contract** in a run in which no end of an earlier call's wait is
handled while it is started, or, for a once timer, at all. -/
theorem punctual_of_fresh (kind : TimerKind) (events : List Event)
    (fresh : Guarded step Fresh (create kind) events) :
    Throughout step Punctual (create kind) events :=
  (throughout_of_guarded scheduled_step (scheduled_create kind) fresh).imp
    fun _ => Scheduled.punctual

/-- A start whose wait expires, and a stop while nothing is in the queue. -/
def undisturbedEvents : List Event := [.start 5, .pass 5, .expire, .complete 0, .stop]

theorem punctual_of_fresh_undisturbed :
    Throughout step Punctual (create .once) undisturbedEvents ∧
      Throughout step Punctual (create .periodic) undisturbedEvents := by
  constructor
  · refine punctual_of_fresh .once _ ?_
    iterate 3
      rintro _ ⟨⟩
      refine ⟨trivial, ?_⟩
    rintro _ ⟨⟩
    constructor
    · rintro _ ⟨⟩
      exact .inl rfl
    · rintro _ ⟨⟩
      exact ⟨trivial, trivial⟩
  · refine punctual_of_fresh .periodic _ ?_
    iterate 3
      rintro _ ⟨⟩
      refine ⟨trivial, ?_⟩
    rintro _ ⟨⟩
    constructor
    · rintro _ ⟨⟩
      exact .inl rfl
    · rintro _ ⟨⟩
      exact ⟨trivial, trivial⟩

/-- The end of a wait is in the queue when a once timer is stopped, and when a periodic
timer is started again. -/
theorem stale_end_notifies :
    ¬ Throughout step Punctual (create .once)
        [.start 1, .pass 1, .expire, .stop, .complete 0] ∧
      ¬ Throughout step Punctual (create .periodic)
        [.start 10, .pass 10, .expire, .start 10, .complete 0] := by
  constructor
  · intro throughout
    have punctual := (((((throughout.2 _ rfl).2 _ rfl).2 _ rfl).2 _ rfl).2 _ rfl).head
    obtain ⟨now, isSession, -⟩ := punctual [.started 0 1, .stopped] (.notified 1) [] rfl
    exact absurd isSession nofun
  · intro throughout
    have punctual := (((((throughout.2 _ rfl).2 _ rfl).2 _ rfl).2 _ rfl).2 _ rfl).head
    obtain ⟨now, isSession, onTime⟩ :=
      punctual [.started 0 10, .started 10 10] (.notified 10) [] rfl
    cases isSession
    exact absurd onTime (by change ¬ _ ≤ _; decide)

end TimerRun

end Xul
