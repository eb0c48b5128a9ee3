import Mathlib.Data.List.Perm.Basic
import Xul.Foundation.Runs
import Xul.Std.Bytes

/-!
# Resolving names

`asio_name_resolver` starts a resolve for each name it is asked for and keeps only the name
that it was asked for last.  When a resolve completes it reports to its listener under that
name, with the addresses of the answer or with those of the backup table.

The resolver under it completes every started resolve once, in any order, and one that was
cancelled with an error.  The report is the last thing the handler does, so what the
listener calls from inside one is a later event of the run.
-/

set_option autoImplicit false

namespace Xul

open Foundation

/-- `dns_backup_impl`, the global table of addresses. -/
structure DnsBackup where
  entries : List (Bytes × List UInt32)

namespace DnsBackup

/-- `lookup`, which finds nothing under the empty name. -/
def lookup (backup : DnsBackup) (hostname : Bytes) : Option (List UInt32) :=
  if hostname = [] then none else backup.entries.lookup hostname

end DnsBackup

/-- How the underlying resolver completes a resolve. -/
inductive ResolveAnswer
  | failed (err : Int) (isError : err ≠ 0)
  | resolved (endpoints : List UInt32)

/-- The call to `on_resolver_address`. -/
structure ResolverReport where
  name : Bytes
  errcode : Int
  addresses : List UInt32
deriving DecidableEq

/-- `asio_name_resolver`: `m_query` and `m_addresses`. -/
structure AsioNameResolver where
  query : Bytes
  addresses : List UInt32

namespace AsioNameResolver

def create : AsioNameResolver := ⟨[], []⟩

def asyncResolve (_ : AsioNameResolver) (name : Bytes) : AsioNameResolver := ⟨name, []⟩

def close (resolver : AsioNameResolver) : AsioNameResolver := { resolver with addresses := [] }

/-- `add_backup_addresses`, to an empty list of addresses. -/
def addBackupAddresses (backup : DnsBackup) (name : Bytes) : List UInt32 :=
  (backup.lookup (cStr name)).getD []

def handleResolve (backup : DnsBackup) (resolver : AsioNameResolver) :
    ResolveAnswer → AsioNameResolver × ResolverReport
  | .failed err _ =>
      let addresses := addBackupAddresses backup resolver.query
      ({ resolver with addresses },
        if addresses = [] then ⟨resolver.query, err, addresses⟩
        else ⟨resolver.query, 0, addresses⟩)
  | .resolved endpoints =>
      let addresses :=
        if endpoints = [] then addBackupAddresses backup resolver.query else endpoints
      ({ resolver with addresses },
        if addresses = [] then ⟨resolver.query, -1, addresses⟩
        else ⟨resolver.query, 0, addresses⟩)

end AsioNameResolver

/-! ## Runs -/

/-- A resolve that was started and has not completed. -/
structure StartedResolve where
  name : Bytes
  cancelled : Bool
deriving DecidableEq

/-- A resolve that completed, and what the listener was told. -/
structure CompletedResolve where
  started : StartedResolve
  answer : ResolveAnswer
  /-- The backup table at that time. -/
  backup : DnsBackup
  report : ResolverReport

namespace CompletedResolve

/-- The addresses that the underlying resolver found. -/
def found (completed : CompletedResolve) : List UInt32 :=
  match completed.answer with
  | .failed _ _ => []
  | .resolved endpoints => endpoints

/-- The report is about the name that was resolved, with addresses found for it or kept for
it, and is no success when the resolve was cancelled. -/
structure Matches (completed : CompletedResolve) : Prop where
  name : completed.report.name = completed.started.name
  addresses : completed.report.addresses = completed.found ∨
    completed.report.addresses =
      AsioNameResolver.addBackupAddresses completed.backup completed.started.name
  cancelled : completed.started.cancelled = true → completed.report.errcode ≠ 0

end CompletedResolve

/-- The resolver with the library under it, the backup table and what was reported. -/
structure ResolverRun where
  resolver : AsioNameResolver
  backup : DnsBackup
  pending : List StartedResolve
  log : List CompletedResolve

namespace ResolverRun

inductive Event
  | asyncResolve (name : Bytes)
  | close
  | complete (index : Nat) (answer : ResolveAnswer)
  /-- Someone changes the global table. -/
  | changeBackup (backup : DnsBackup)

/-- The run at the start. -/
def start (backup : DnsBackup) : ResolverRun := ⟨.create, backup, [], []⟩

/-- A cancelled resolve completes with an error. -/
def Admits (started : StartedResolve) : ResolveAnswer → Prop
  | .failed _ _ => True
  | .resolved _ => started.cancelled = false

instance (started : StartedResolve) (answer : ResolveAnswer) :
    Decidable (Admits started answer) := by
  cases answer with
  | failed err isError => exact isTrue trivial
  | resolved endpoints => exact inferInstanceAs (Decidable (_ = false))

/-- A started resolve completes. -/
def completed (run : ResolverRun) (started : StartedResolve) (answer : ResolveAnswer) :
    CompletedResolve :=
  ⟨started, answer, run.backup, (run.resolver.handleResolve run.backup answer).2⟩

def step (run : ResolverRun) : Event → Option ResolverRun
  | .asyncResolve name =>
      some { run with
        resolver := run.resolver.asyncResolve name
        pending := run.pending ++ [⟨name, false⟩] }
  | .close =>
      some { run with
        resolver := run.resolver.close
        pending := run.pending.map fun started => { started with cancelled := true } }
  | .complete index answer =>
      match run.pending[index]? with
      | none => none
      | some started =>
          if Admits started answer then
            some { run with
              resolver := (run.resolver.handleResolve run.backup answer).1
              pending := run.pending.eraseIdx index
              log := run.log ++ [run.completed started answer] }
          else none
  | .changeBackup backup => some { run with backup }

/-- Every report so far matches its question. -/
def Answered (run : ResolverRun) : Prop := ∀ completed ∈ run.log, completed.Matches

/-- What completes is what was asked for last, and if it was cancelled the backup table has
no address for it. -/
def Current (run : ResolverRun) : Event → Prop
  | .complete index _ =>
      ∀ started, run.pending[index]? = some started →
        run.resolver.query = started.name ∧
          (started.cancelled = true →
            AsioNameResolver.addBackupAddresses run.backup started.name = [])
  | _ => True

/-! ## What a completion reports -/

variable {run next : ResolverRun} {started : StartedResolve} {answer : ResolveAnswer}

theorem name_report : (run.completed started answer).report.name = run.resolver.query := by
  rw [completed]
  cases answer with
  | failed err isError => rw [AsioNameResolver.handleResolve]; split <;> rfl
  | resolved endpoints =>
      simp only [AsioNameResolver.handleResolve]
      generalize (if endpoints = [] then _ else endpoints) = addresses
      split <;> rfl

theorem addresses_report :
    (run.completed started answer).report.addresses = (run.completed started answer).found ∨
      (run.completed started answer).report.addresses =
        AsioNameResolver.addBackupAddresses run.backup run.resolver.query := by
  rw [completed]
  cases answer with
  | failed err isError =>
      right
      rw [AsioNameResolver.handleResolve]
      split <;> rfl
  | resolved endpoints =>
      by_cases none : endpoints = []
      · right
        simp only [AsioNameResolver.handleResolve, if_pos none]
        split <;> rfl
      · left
        simp only [AsioNameResolver.handleResolve, if_neg none]
        rfl

/-- An error is reported as a success exactly when there are backup addresses. -/
theorem errcode_report_of_failed {err : Int} {isError : err ≠ 0} :
    (run.completed started (.failed err isError)).report.errcode ≠ 0 ↔
      AsioNameResolver.addBackupAddresses run.backup run.resolver.query = [] := by
  rw [completed, AsioNameResolver.handleResolve]
  by_cases none : AsioNameResolver.addBackupAddresses run.backup run.resolver.query = []
  · rw [if_pos none]
    exact iff_of_true isError none
  · rw [if_neg none]
    exact iff_of_false (fun fails => fails rfl) none

/-- **When a report matches its question.** -/
theorem matches_completed_iff (admits : Admits started answer) :
    (run.completed started answer).Matches ↔
      run.resolver.query = started.name ∧
        (started.cancelled = true →
          AsioNameResolver.addBackupAddresses run.backup started.name = []) := by
  constructor
  · intro matched
    have asked : run.resolver.query = started.name := name_report.symm.trans matched.name
    refine ⟨asked, ?_⟩
    intro isCancelled
    cases answer with
    | failed err isError =>
        exact asked ▸ errcode_report_of_failed.mp (matched.cancelled isCancelled)
    | resolved endpoints => exact absurd (admits.symm.trans isCancelled) nofun
  · rintro ⟨asked, noBackup⟩
    refine ⟨name_report.trans asked, asked ▸ addresses_report, ?_⟩
    intro isCancelled
    cases answer with
    | failed err isError => exact errcode_report_of_failed.mpr (asked ▸ noBackup isCancelled)
    | resolved endpoints => exact absurd (admits.symm.trans isCancelled) nofun

/-! ## What an event does -/

/-- An event reports nothing, or completes one resolve and reports it. -/
theorem step_cases {event : Event} (happens : run.step event = some next) :
    next.log = run.log ∧ (∀ index answer, event ≠ .complete index answer) ∨
      ∃ index answer started, event = .complete index answer ∧
        run.pending[index]? = some started ∧ Admits started answer ∧
        next.pending = run.pending.eraseIdx index ∧
        next.log = run.log ++ [run.completed started answer] := by
  cases event with
  | asyncResolve name =>
      cases happens
      exact .inl ⟨rfl, nofun⟩
  | close =>
      cases happens
      exact .inl ⟨rfl, nofun⟩
  | changeBackup backup =>
      cases happens
      exact .inl ⟨rfl, nofun⟩
  | complete index answer =>
      rw [step] at happens
      split at happens
      · exact absurd happens nofun
      · next started found =>
          split at happens
          · next admits =>
              cases happens
              exact .inr ⟨index, answer, started, rfl, found, admits, rfl, rfl⟩
          · exact absurd happens nofun

/-- **One event.** -/
theorem answered_step_iff {event : Event} (before : run.Answered)
    (happens : run.step event = some next) : next.Answered ↔ run.Current event := by
  rcases step_cases happens with ⟨sameLog, other⟩ | ⟨index, answer, started, rfl, found, admits,
    -, log⟩
  · rw [Answered, sameLog]
    refine iff_of_true before ?_
    cases event with
    | complete index answer => exact absurd rfl (other index answer)
    | asyncResolve name => exact trivial
    | close => exact trivial
    | changeBackup backup => exact trivial
  · rw [Answered, log, Current]
    constructor
    · intro matched other found'
      cases found.symm.trans found'
      exact (matches_completed_iff admits).mp
        (matched _ (List.mem_append_right _ (List.mem_singleton_self _)))
    · intro current completed member
      rcases List.mem_append.mp member with earlier | new
      · exact before completed earlier
      · rw [List.mem_singleton.mp new]
        exact (matches_completed_iff admits).mpr (current started found)

/-- **The answers of a run match their questions exactly when every resolve completes while
its name is the last one asked for, and when a cancelled one finds no backup addresses.** -/
theorem answered_iff_current (backup : DnsBackup) (events : List Event) :
    Throughout step Answered (start backup) events ↔
      Guarded step Current (start backup) events := by
  have initially : (start backup).Answered := nofun
  refine throughout_iff_guarded (fun _ => id) ?_ ?_ initially
  · intro run event next before current happens
    exact (answered_step_iff before happens).mpr current
  · intro run event next before stale happens after
    exact stale ((answered_step_iff before happens).mp after)

/-- The first of two resolves in flight is reported under the name of the second. -/
theorem answer_under_wrong_name :
    ¬ Throughout step Answered (start ⟨[]⟩)
        [.asyncResolve [97], .asyncResolve [98], .complete 0 (.resolved [1])] ∧
      ¬ Throughout step Answered (start ⟨[([97], [2])]⟩)
        [.asyncResolve [97], .close, .complete 0 (.failed 995 (by decide))] := by
  constructor
  · intro throughout
    have answered := (((throughout.2 _ rfl).2 _ rfl).2 _ rfl).head
    exact absurd (answered _ (List.mem_singleton_self _)).name (by decide)
  · intro throughout
    have answered := (((throughout.2 _ rfl).2 _ rfl).2 _ rfl).head
    exact absurd rfl ((answered _ (List.mem_singleton_self _)).cancelled rfl)

/-! ## Every question is answered once -/

/-- The names that a run asked for. -/
def names : List Event → List Bytes
  | [] => []
  | .asyncResolve name :: events => name :: names events
  | _ :: events => names events

/-- The names that were answered or wait for an answer. -/
def asked (run : ResolverRun) : List Bytes :=
  run.log.map (fun completed => completed.started.name) ++
    run.pending.map StartedResolve.name

theorem asked_step {event : Event} (happens : run.step event = some next) :
    next.asked.Perm (run.asked ++ names [event]) := by
  cases event with
  | asyncResolve name =>
      cases happens
      simp [asked, names]
  | close =>
      cases happens
      simp [asked, names, Function.comp_def]
  | changeBackup backup =>
      cases happens
      simp [asked, names]
  | complete index answer =>
      rcases step_cases happens with ⟨-, other⟩ | ⟨_, _, started, same, found, -, pending, log⟩
      · exact absurd rfl (other index answer)
      · cases same
        obtain ⟨inside, is⟩ := List.getElem?_eq_some_iff.mp found
        have taken : (started :: run.pending.eraseIdx index).Perm run.pending :=
          is ▸ List.getElem_cons_eraseIdx_perm inside
        change List.Perm _ (run.asked ++ [])
        rw [asked, pending, log, List.map_append, List.append_assoc, List.append_nil]
        exact .append_left _ (taken.map StartedResolve.name)

theorem names_cons (event : Event) (events : List Event) :
    names (event :: events) = names [event] ++ names events := by
  cases event <;> rfl

/-- **Every name that a run asked for was answered or waits for its answer, once.** -/
theorem asked_run {events : List Event} {last : ResolverRun} :
    ∀ {run : ResolverRun}, runFrom step run events = some last →
      last.asked.Perm (run.asked ++ names events) := by
  induction events with
  | nil =>
      intro run runs
      cases runs
      exact .of_eq (List.append_nil _).symm
  | cons event events ih =>
      intro run runs
      obtain ⟨next, happens, later⟩ := Option.bind_eq_some_iff.mp runs
      rw [names_cons, ← List.append_assoc]
      exact (ih later).trans ((asked_step happens).append_right _)

end ResolverRun

end Xul
