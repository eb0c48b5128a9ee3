import Mathlib.Data.List.TakeWhile
import Xul.Foundation.Runs

/-!
# A thread that runs tasks

`thread_task_service` has a queue of tasks under a mutex.  `post` adds a task and then
notifies the condition; the worker takes a task from the front, or waits while there is
none.  A null task tells the worker to stop.

What happens under the mutex is one step.  A post is two, the push and the notification,
and other threads may act between them.  The worker's `run` leaves the loop after it has
run one task, so a sequence of posts is served in every interleaving exactly when at most
one task is due (`serves_iff`).
-/

set_option autoImplicit false

namespace Xul

open Foundation

/-- Where the worker is in `run`. -/
inductive TaskWorker (Task : Type)
  /-- About to lock the mutex and look at the queue. -/
  | looking
  /-- Blocked in `m_condition.wait`. -/
  | waiting
  /-- `pop_or_wait` has returned. -/
  | popped (task : Option Task)
  /-- In `task->run()`. -/
  | running
  | left
deriving DecidableEq

/-- `thread_task_service` with its worker and the threads that post to it. -/
structure ThreadTaskService (Task : Type) where
  tasks : List (Option Task)
  worker : TaskWorker Task
  /-- How many threads have pushed a task and not yet notified. -/
  notifying : Nat
  /-- What was pushed, and what was run. -/
  posted : List (Option Task)
  ran : List Task

namespace ThreadTaskService

variable {Task : Type}

inductive Event (Task : Type)
  | post (task : Option Task)
  | notify
  | look
  | wakeSpuriously
  | act
  | finish

def start : ThreadTaskService Task := ⟨[], .looking, 0, [], []⟩

def post (service : ThreadTaskService Task) (task : Option Task) : ThreadTaskService Task :=
  { service with
    tasks := service.tasks ++ [task]
    notifying := service.notifying + 1
    posted := service.posted ++ [task] }

/-- `notify_one` wakes the worker if it waits. -/
def notifyOne (service : ThreadTaskService Task) : ThreadTaskService Task :=
  { service with
    worker := match service.worker with
      | .waiting => .looking
      | worker => worker
    notifying := service.notifying - 1 }

/-- `pop_or_wait`, from one look at the queue to the next. -/
def popOrWait (service : ThreadTaskService Task) : ThreadTaskService Task :=
  match service.tasks with
  | [] => { service with worker := .waiting }
  | task :: tasks => { service with worker := .popped task, tasks }

/-- `run` with the task that was popped. -/
def runTask (service : ThreadTaskService Task) : Option Task → ThreadTaskService Task
  | none => { service with worker := .left }
  | some task => { service with worker := .running, ran := service.ran ++ [task] }

def step (service : ThreadTaskService Task) : Event Task → Option (ThreadTaskService Task)
  | .post task => some (service.post task)
  | .notify => if 0 < service.notifying then some service.notifyOne else none
  | .look =>
      match service.worker with
      | .looking => some service.popOrWait
      | _ => none
  | .wakeSpuriously =>
      match service.worker with
      | .waiting => some { service with worker := .looking }
      | _ => none
  | .act =>
      match service.worker with
      | .popped task => some (service.runTask task)
      | _ => none
  | .finish =>
      match service.worker with
      -- the `break` behind `task->run()`
      | .running => some { service with worker := .left }
      | _ => none

/-! ## What the service is for -/

/-- The tasks that were posted before the first null task. -/
def due : List (Option Task) → List Task
  | some task :: posted => task :: due posted
  | _ => []

/-- No thread is inside `post`, and the worker does not go on by itself. -/
def Settled (service : ThreadTaskService Task) : Prop :=
  service.notifying = 0 ∧ (service.worker = .waiting ∨ service.worker = .left)

/-- The due tasks are run once each and in the order of the posts, the worker leaves when
none is left, and nothing settles before. -/
structure Serves (service : ThreadTaskService Task) : Prop where
  inOrder : service.ran <+: due service.posted
  leaves : service.worker = .left → service.ran = due service.posted
  settles : service.Settled → service.ran = due service.posted

/-- The tasks that the events of a run post. -/
def posts : List (Event Task) → List (Option Task)
  | [] => []
  | .post task :: events => task :: posts events
  | _ :: events => posts events

/-! ## What an event does -/

/-- The events that can happen in a state, and what they do. -/
inductive Moves (service : ThreadTaskService Task) : Event Task → ThreadTaskService Task → Prop
  | post (task : Option Task) : Moves service (.post task) (service.post task)
  | notify : Moves service .notify service.notifyOne
  | look (looking : service.worker = .looking) : Moves service .look service.popOrWait
  | wake (waiting : service.worker = .waiting) :
      Moves service .wakeSpuriously { service with worker := .looking }
  | act {task : Option Task} (popped : service.worker = .popped task) :
      Moves service .act (service.runTask task)
  | finish (running : service.worker = .running) :
      Moves service .finish { service with worker := .left }

theorem step_moves {service next : ThreadTaskService Task} {event : Event Task}
    (happens : service.step event = some next) : service.Moves event next := by
  cases event with
  | post task =>
      cases happens
      exact .post task
  | notify =>
      rw [step, Option.ite_none_right_eq_some] at happens
      cases happens.2
      exact .notify
  | look =>
      rw [step] at happens
      split at happens
      · next looking =>
          cases happens
          exact .look looking
      · cases happens
  | wakeSpuriously =>
      rw [step] at happens
      split at happens
      · next waiting =>
          cases happens
          exact .wake waiting
      · cases happens
  | act =>
      rw [step] at happens
      split at happens
      · next popped =>
          cases happens
          exact .act popped
      · cases happens
  | finish =>
      rw [step] at happens
      split at happens
      · next running =>
          cases happens
          exact .finish running
      · cases happens

/-! ## Where the posted tasks are -/

/-- The worker takes at most one task from the queue, and it waits only while the queue is
empty or a notification is on its way. -/
def Located : ThreadTaskService Task → Prop
  | ⟨tasks, .looking, _, posted, ran⟩ => posted = tasks ∧ ran = []
  | ⟨tasks, .waiting, notifying, posted, ran⟩ =>
      posted = tasks ∧ ran = [] ∧ (tasks = [] ∨ 0 < notifying)
  | ⟨tasks, .popped task, _, posted, ran⟩ => posted = task :: tasks ∧ ran = []
  | ⟨tasks, .running, _, posted, ran⟩ =>
      ∃ task, posted = some task :: tasks ∧ ran = [task]
  | ⟨tasks, .left, _, posted, ran⟩ =>
      posted = none :: tasks ∧ ran = [] ∨ ∃ task, posted = some task :: tasks ∧ ran = [task]

variable {service next : ThreadTaskService Task}

theorem Located.post (located : service.Located) (task : Option Task) :
    (service.post task).Located := by
  obtain ⟨tasks, worker, notifying, posted, ran⟩ := service
  cases worker with
  | looking =>
      obtain ⟨rfl, none⟩ := located
      exact ⟨rfl, none⟩
  | waiting =>
      obtain ⟨rfl, none, -⟩ := located
      exact ⟨rfl, none, .inr (Nat.succ_pos _)⟩
  | popped first =>
      obtain ⟨rfl, none⟩ := located
      exact ⟨rfl, none⟩
  | running =>
      obtain ⟨first, rfl, one⟩ := located
      exact ⟨first, rfl, one⟩
  | left =>
      rcases located with ⟨rfl, none⟩ | ⟨first, rfl, one⟩
      · exact .inl ⟨rfl, none⟩
      · exact .inr ⟨first, rfl, one⟩

theorem Located.notifyOne (located : service.Located) : service.notifyOne.Located := by
  obtain ⟨tasks, worker, notifying, posted, ran⟩ := service
  cases worker with
  | looking => exact located
  | waiting => exact ⟨located.1, located.2.1⟩
  | popped task => exact located
  | running => exact located
  | left => exact located

theorem Located.popOrWait (located : service.Located) (looking : service.worker = .looking) :
    service.popOrWait.Located := by
  obtain ⟨tasks, worker, notifying, posted, ran⟩ := service
  cases looking
  obtain ⟨same, none⟩ := located
  cases tasks with
  | nil => exact ⟨same, none, .inl rfl⟩
  | cons task tasks => exact ⟨same, none⟩

theorem Located.runTask {task : Option Task} (located : service.Located)
    (popped : service.worker = .popped task) : (service.runTask task).Located := by
  obtain ⟨tasks, worker, notifying, posted, ran⟩ := service
  cases popped
  obtain ⟨rfl, rfl⟩ := located
  cases task with
  | none => exact .inl ⟨rfl, rfl⟩
  | some task => exact ⟨task, rfl, rfl⟩

/-- **One event.** -/
theorem located_step (service : ThreadTaskService Task) (event : Event Task)
    (next : ThreadTaskService Task) (located : service.Located)
    (happens : service.step event = some next) : next.Located := by
  cases step_moves happens with
  | post task => exact located.post task
  | notify => exact located.notifyOne
  | look looking => exact located.popOrWait looking
  | wake waiting =>
      obtain ⟨tasks, worker, notifying, posted, ran⟩ := service
      cases waiting
      exact ⟨located.1, located.2.1⟩
  | act popped => exact located.runTask popped
  | finish running =>
      obtain ⟨tasks, worker, notifying, posted, ran⟩ := service
      cases running
      exact .inr located

/-! ## When the due tasks are served -/

theorem due_prefix_of_prefix {posted later : List (Option Task)} (before : posted <+: later) :
    due posted <+: due later := by
  obtain ⟨more, rfl⟩ := before
  induction posted with
  | nil => exact List.nil_prefix
  | cons task posted ih =>
      cases task with
      | none => exact List.nil_prefix
      | some task => exact List.prefix_cons_inj task |>.mpr ih

/-- Where at most one task is due, the worker that leaves after one task has done it. -/
theorem Located.serves (located : service.Located) (few : (due service.posted).length ≤ 1) :
    service.Serves := by
  obtain ⟨tasks, worker, notifying, posted, ran⟩ := service
  have one : ∀ task, posted = some task :: tasks → ran = [task] → ran = due posted := by
    rintro task rfl rfl
    have rest : (due tasks).length = 0 := Nat.le_zero.mp (Nat.le_of_succ_le_succ few)
    rw [due, List.eq_nil_of_length_eq_zero rest]
  cases worker with
  | looking =>
      obtain ⟨-, rfl⟩ := located
      exact ⟨List.nil_prefix, nofun, fun settled => nomatch settled.2⟩
  | waiting =>
      obtain ⟨rfl, rfl, empty⟩ := located
      refine ⟨List.nil_prefix, nofun, ?_⟩
      intro settled
      rcases empty with rfl | notified
      · rfl
      · exact absurd settled.1 (Nat.ne_of_gt notified)
  | popped task =>
      obtain ⟨-, rfl⟩ := located
      exact ⟨List.nil_prefix, nofun, fun settled => nomatch settled.2⟩
  | running =>
      obtain ⟨task, isPosted, ran⟩ := located
      have all := one task isPosted ran
      exact ⟨all ▸ List.prefix_rfl, nofun, fun settled => nomatch settled.2⟩
  | left =>
      have all : ran = due posted := by
        rcases located with ⟨rfl, rfl⟩ | ⟨task, isPosted, ran⟩
        · rfl
        · exact one task isPosted ran
      exact ⟨all ▸ List.prefix_rfl, fun _ => all, fun _ => all⟩

theorem posted_step (service : ThreadTaskService Task) (event : Event Task)
    (next : ThreadTaskService Task) (happens : service.step event = some next) :
    next.posted = service.posted ++ posts [event] := by
  cases step_moves happens with
  | post task => rfl
  | notify => exact (List.append_nil _).symm
  | look looking =>
      rw [popOrWait, posts, posts, List.append_nil]
      · split <;> rfl
      · nofun
  | wake waiting => exact (List.append_nil _).symm
  | @act task popped => cases task <;> exact (List.append_nil _).symm
  | finish running => exact (List.append_nil _).symm

theorem posts_cons (event : Event Task) (events : List (Event Task)) :
    posts (event :: events) = posts [event] ++ posts events := by
  cases event <;> rfl

/-- A run in which at most one task is due serves it. -/
theorem throughout_serves {events : List (Event Task)} :
    ∀ {service : ThreadTaskService Task}, service.Located →
      (due (service.posted ++ posts events)).length ≤ 1 →
        Throughout step Serves service events := by
  induction events with
  | nil =>
      intro service located few
      rw [posts, List.append_nil] at few
      exact located.serves few
  | cons event events ih =>
      intro service located few
      have sooner : due service.posted <+: due (service.posted ++ posts (event :: events)) :=
        due_prefix_of_prefix (List.prefix_append ..)
      refine ⟨located.serves (sooner.length_le.trans few), ?_⟩
      intro next happens
      refine ih (located_step service event next located happens) ?_
      rwa [posted_step service event next happens, List.append_assoc, ← posts_cons]

theorem runFrom_posts (tasks : List (Option Task)) (events : List (Event Task)) :
    ∀ service : ThreadTaskService Task,
      runFrom step service (tasks.map .post ++ events) =
        runFrom step { service with
          tasks := service.tasks ++ tasks
          notifying := service.notifying + tasks.length
          posted := service.posted ++ tasks } events := by
  induction tasks with
  | nil =>
      intro service
      simp only [List.map_nil, List.nil_append, List.append_nil, List.length_nil, Nat.add_zero]
  | cons task tasks ih =>
      intro service
      rw [List.map_cons, List.cons_append, runFrom, step, Option.bind_some, ih, post]
      simp only [List.append_assoc, List.singleton_append, List.length_cons, Nat.add_assoc,
        Nat.add_comm 1]

theorem posts_map_post (tasks : List (Option Task)) (events : List (Event Task)) :
    posts (tasks.map .post ++ events) = tasks ++ posts events := by
  induction tasks with
  | nil => rfl
  | cons task tasks ih => rw [List.map_cons, List.cons_append, posts, ih, List.cons_append]

/-- The worker finds all tasks in the queue, runs the first one and leaves. -/
def hastyRun (tasks : List (Option Task)) : List (Event Task) :=
  tasks.map .post ++ [.look, .act, .finish]

theorem runFrom_hastyRun (task : Task) (tasks : List (Option Task)) :
    runFrom step start (hastyRun (some task :: tasks)) =
      some ⟨tasks, .left, tasks.length + 1, some task :: tasks, [task]⟩ := by
  rw [hastyRun, runFrom_posts]
  simp only [start, List.nil_append, Nat.zero_add]
  rfl

/-- **A sequence of posts is served in every interleaving with the worker exactly when at
most one task is due.** -/
theorem serves_iff (tasks : List (Option Task)) :
    (∀ events : List (Event Task), posts events = tasks → Throughout step Serves start events) ↔
      (due tasks).length ≤ 1 := by
  constructor
  · intro serves
    by_contra many
    rcases tasks with _ | ⟨_ | task, tasks⟩
    · exact many (Nat.zero_le 1)
    · exact many (Nat.zero_le 1)
    · have throughout := serves (hastyRun (some task :: tasks)) <| by
        rw [hastyRun, posts_map_post, posts, posts, posts, posts, List.append_nil] <;> nofun
      have served := (throughout.final (runFrom_hastyRun task tasks)).leaves rfl
      have one : (due (some task :: tasks)).length = 1 := by
        rw [← served]
        rfl
      exact many one.le
  · rintro few events rfl
    exact throughout_serves ⟨rfl, rfl⟩ few

/-- Two tasks are posted, and the worker leaves after the first. -/
theorem second_task_not_run :
    ¬ ∀ events : List (Event Nat), posts events = [some 1, some 2] →
        Throughout step Serves start events := by
  intro serves
  have served := (serves (hastyRun [some 1, some 2]) rfl).final (runFrom_hastyRun 1 [some 2])
  exact absurd (served.leaves rfl) (by decide)

/-! ## Every run settles -/

/-- What is left to be done: notifications, and the worker's way to the end of `run`. -/
def remaining (service : ThreadTaskService Task) : Nat :=
  4 * service.notifying +
    match service.worker with
    | .looking => 3
    | .popped _ => 2
    | .running => 1
    | .waiting => 0
    | .left => 0

/-- The worker and the threads inside `post` go on. -/
inductive Event.Own : Event Task → Prop
  | notify : Own .notify
  | look : Own .look
  | act : Own .act
  | finish : Own .finish

/-- Without a further post or a spurious wakeup, a run ends. -/
theorem remaining_lt {event : Event Task} (own : event.Own)
    (happens : service.step event = some next) : next.remaining < service.remaining := by
  obtain ⟨tasks, worker, notifying, posted, ran⟩ := service
  cases own with
  | notify =>
      obtain ⟨positive, ⟨⟩⟩ := Option.ite_none_right_eq_some.mp happens
      change 0 < notifying at positive
      cases worker <;> simp only [remaining, notifyOne] <;> omega
  | look =>
      cases worker <;> cases happens
      cases tasks <;> simp only [remaining, popOrWait] <;> omega
  | act =>
      cases worker <;> cases happens
      next task => cases task <;> simp only [remaining, runTask] <;> omega
  | finish =>
      cases worker <;> cases happens
      simp only [remaining]
      omega

/-- **What is not settled goes on.** -/
theorem goes_on_of_not_settled (unsettled : ¬ service.Settled) :
    ∃ event : Event Task, event.Own ∧ ∃ next, service.step event = some next := by
  obtain ⟨tasks, worker, notifying, posted, ran⟩ := service
  rcases Nat.eq_zero_or_pos notifying with rfl | positive
  · cases worker with
    | looking => exact ⟨.look, .look, _, rfl⟩
    | waiting => exact absurd ⟨rfl, .inl rfl⟩ unsettled
    | popped task => exact ⟨.act, .act, _, rfl⟩
    | running => exact ⟨.finish, .finish, _, rfl⟩
    | left => exact absurd ⟨rfl, .inr rfl⟩ unsettled
  · exact ⟨.notify, .notify, _, if_pos positive⟩

end ThreadTaskService

end Xul
