import Mathlib.Tactic.Basic

/-!
# Runs of an event system

A system answers an event with its next state, or not at all when the event cannot
happen in the state it is in.  A run is a sequence of events.  A property holds
throughout a run when it holds in every state the run reaches, and a run is guarded
when each of its steps is taken in a state in which the step's guard holds.

An invariant that guarded steps preserve holds throughout every guarded run
(`throughout_of_guarded`).  When moreover an unguarded step always ends outside the
property, a run keeps the property exactly when it is guarded
(`throughout_iff_guarded`).
-/

set_option autoImplicit false

namespace Foundation

variable {State Event : Type*} (step : State → Event → Option State)

/-- The state after a run, when every event of the run can happen. -/
def runFrom : State → List Event → Option State
  | state, [] => some state
  | state, event :: events => (step state event).bind fun next => runFrom next events

/-- The property holds in every state that the run reaches. -/
def Throughout (property : State → Prop) : State → List Event → Prop
  | state, [] => property state
  | state, event :: events =>
      property state ∧ ∀ next, step state event = some next → Throughout property next events

/-- Every step of the run is taken in a state where its guard holds. -/
def Guarded (guard : State → Event → Prop) : State → List Event → Prop
  | _, [] => True
  | state, event :: events =>
      ∀ next, step state event = some next → guard state event ∧ Guarded guard next events

/-- Every event of the run comes in a state where its guard holds. -/
def Obeyed (guard : State → Event → Prop) : State → List Event → Prop
  | _, [] => True
  | state, event :: events =>
      guard state event ∧ ∀ next, step state event = some next → Obeyed guard next events

variable {step}

theorem Throughout.head {property : State → Prop} {state : State} {events : List Event}
    (throughout : Throughout step property state events) : property state := by
  cases events with
  | nil => exact throughout
  | cons event events => exact throughout.1

/-- The state at the end of a run is one of the states the run reaches. -/
theorem Throughout.final {property : State → Prop} {events : List Event} :
    ∀ {state last : State}, Throughout step property state events →
      runFrom step state events = some last → property last := by
  induction events with
  | nil =>
      intro state last throughout reached
      cases reached
      exact throughout
  | cons event events ih =>
      intro state last throughout reached
      obtain ⟨next, happens, later⟩ := Option.bind_eq_some_iff.mp reached
      exact ih (throughout.2 next happens) later

theorem runFrom_append (first later : List Event) :
    ∀ state : State, runFrom step state (first ++ later) =
      (runFrom step state first).bind fun next => runFrom step next later := by
  induction first with
  | nil => exact fun _ => rfl
  | cons event first ih =>
      intro state
      rw [List.cons_append, runFrom, runFrom, Option.bind_assoc]
      exact congrArg _ (funext fun next => ih next)

/-- What every step preserves holds at the end of a run. -/
theorem holds_of_run {invariant : State → Prop}
    (preserved : ∀ state event next, invariant state → step state event = some next →
      invariant next) {events : List Event} :
    ∀ {state last : State}, invariant state → runFrom step state events = some last →
      invariant last := by
  induction events with
  | nil =>
      intro state last holds reached
      cases reached
      exact holds
  | cons event events ih =>
      intro state last holds reached
      obtain ⟨next, happens, later⟩ := Option.bind_eq_some_iff.mp reached
      exact ih (preserved state event next holds happens) later

/-- A property that implies another carries it through a run. -/
theorem Throughout.imp {property weaker : State → Prop} (implies : ∀ state, property state →
    weaker state) {events : List Event} :
    ∀ {state : State}, Throughout step property state events →
      Throughout step weaker state events := by
  induction events with
  | nil =>
      intro state throughout
      exact implies state throughout
  | cons event events ih =>
      intro state throughout
      exact ⟨implies state throughout.1, fun next happens => ih (throughout.2 next happens)⟩

/-- **An invariant that guarded steps preserve holds throughout guarded runs.** -/
theorem throughout_of_guarded {invariant : State → Prop} {guard : State → Event → Prop}
    (preserved : ∀ state event next, invariant state → guard state event →
      step state event = some next → invariant next) {events : List Event} :
    ∀ {state : State}, invariant state → Guarded step guard state events →
      Throughout step invariant state events := by
  induction events with
  | nil =>
      intro state holds _
      exact holds
  | cons event events ih =>
      intro state holds guarded
      refine ⟨holds, ?_⟩
      intro next happens
      obtain ⟨allowed, later⟩ := guarded next happens
      exact ih (preserved state event next holds allowed happens) later

/-- **A run whose guards are obeyed reaches its end**, when a guarded step always can happen.  The
invariant may speak of the events that have been. -/
theorem exists_run_of_obeyed {invariant : List Event → State → Prop}
    {guard : State → Event → Prop}
    (advances : ∀ past state event, invariant past state → guard state event →
      ∃ next, step state event = some next ∧ invariant (past ++ [event]) next)
    {events : List Event} :
    ∀ {past : List Event} {state : State}, invariant past state →
      Obeyed step guard state events →
      ∃ last, runFrom step state events = some last ∧ invariant (past ++ events) last := by
  induction events with
  | nil =>
      intro past state holds _
      rw [List.append_nil]
      exact ⟨state, rfl, holds⟩
  | cons event events ih =>
      intro past state holds obeyed
      obtain ⟨next, happens, after⟩ := advances past state event holds obeyed.1
      obtain ⟨last, reached, ends⟩ := ih after (obeyed.2 next happens)
      rw [List.append_assoc] at ends
      rw [runFrom, happens, Option.bind_some]
      exact ⟨last, reached, ends⟩

/-- An invariant that every step preserves holds throughout every run. -/
theorem throughout_of_preserved {invariant : State → Prop}
    (preserved : ∀ state event next, invariant state → step state event = some next →
      invariant next) {events : List Event} :
    ∀ {state : State}, invariant state → Throughout step invariant state events := by
  induction events with
  | nil =>
      intro state holds
      exact holds
  | cons event events ih =>
      intro state holds
      exact ⟨holds, fun next happens => ih (preserved state event next holds happens)⟩

/-- A guard that the invariant gives is met wherever a run is guarded. -/
theorem Guarded.imp_of_invariant {invariant : State → Prop} {guard weaker : State → Event → Prop}
    {events : List Event} {state : State} (guarded : Guarded step guard state events)
    (preserved : ∀ state event next, invariant state → guard state event →
      step state event = some next → invariant next)
    (implies : ∀ state event, invariant state → guard state event → weaker state event)
    (holds : invariant state) : Guarded step weaker state events := by
  induction events generalizing state with
  | nil => exact trivial
  | cons event events ih =>
      intro next happens
      obtain ⟨allowed, later⟩ := guarded next happens
      exact ⟨implies state event holds allowed,
        ih later (preserved state event next holds allowed happens)⟩

theorem Guarded.cons {guard : State → Event → Prop} {state next : State} {event : Event}
    {events : List Event} (happens : step state event = some next) (allowed : guard state event)
    (later : Guarded step guard next events) : Guarded step guard state (event :: events) := by
  intro other otherwise
  cases happens.symm.trans otherwise
  exact ⟨allowed, later⟩

theorem guarded_cons_iff {guard : State → Event → Prop} {state next : State} {event : Event}
    {events : List Event} (happens : step state event = some next) :
    Guarded step guard state (event :: events) ↔
      guard state event ∧ Guarded step guard next events :=
  ⟨fun guarded => guarded next happens, fun both => .cons happens both.1 both.2⟩

/-- Whether a run is guarded is found out by running it. -/
def Guarded.decide {guard : State → Event → Prop}
    (decideGuard : ∀ state event, Decidable (guard state event)) :
    ∀ (state : State) (events : List Event), Decidable (Guarded step guard state events)
  | _, [] => isTrue trivial
  | state, event :: events =>
      match happens : step state event with
      | none => isTrue fun _ other => nomatch happens.symm.trans other
      | some next =>
          have := Guarded.decide decideGuard next events
          have := decideGuard state event
          decidable_of_iff _ (guarded_cons_iff happens).symm

theorem Obeyed.cons {guard : State → Event → Prop} {state next : State} {event : Event}
    {events : List Event} (happens : step state event = some next) (allowed : guard state event)
    (later : Obeyed step guard next events) : Obeyed step guard state (event :: events) := by
  refine ⟨allowed, ?_⟩
  intro other otherwise
  cases happens.symm.trans otherwise
  exact later

/-- A run that keeps the property is guarded, if from a state of the invariant an unguarded
step always ends outside the property. -/
theorem guarded_of_throughout {invariant property : State → Prop} {allowed : Event → Prop}
    {guard : State → Event → Prop}
    (preserved : ∀ state event next, invariant state → guard state event →
      step state event = some next → invariant next)
    (exact_guard : ∀ state event next, invariant state → allowed event → ¬ guard state event →
      step state event = some next → ¬ property next) {events : List Event} {state : State}
    (holds : invariant state) (all : ∀ event ∈ events, allowed event)
    (throughout : Throughout step property state events) : Guarded step guard state events := by
  induction events generalizing state with
  | nil => exact trivial
  | cons event events ih =>
      intro next happens
      rw [List.forall_mem_cons] at all
      have later := throughout.2 next happens
      by_cases guarded : guard state event
      · exact ⟨guarded, ih (preserved state event next holds guarded happens) all.2 later⟩
      · exact absurd later.head (exact_guard state event next holds all.1 guarded happens)

/-- **A run keeps the property exactly when it is guarded.** -/
theorem throughout_iff_guarded {invariant property : State → Prop}
    {guard : State → Event → Prop} (implies : ∀ state, invariant state → property state)
    (preserved : ∀ state event next, invariant state → guard state event →
      step state event = some next → invariant next)
    (exact_guard : ∀ state event next, invariant state → ¬ guard state event →
      step state event = some next → ¬ property next) {events : List Event} :
    ∀ {state : State}, invariant state →
      (Throughout step property state events ↔ Guarded step guard state events) := by
  intro state holds
  constructor
  · refine guarded_of_throughout preserved ?_ holds fun event _ => (trivial : (fun _ => True) event)
    exact fun state event next holds _ => exact_guard state event next holds
  · intro guarded
    exact (throughout_of_guarded preserved holds guarded).imp implies

/-- Guards that an invariant makes equivalent are met by the same runs. -/
theorem guarded_congr {invariant : State → Prop} {guard other : State → Event → Prop}
    (preserved : ∀ state event next, invariant state → step state event = some next →
      invariant next)
    (same : ∀ state event, invariant state → (guard state event ↔ other state event))
    {events : List Event} {state : State} (holds : invariant state) :
    Guarded step guard state events ↔ Guarded step other state events := by
  constructor
  · intro guarded
    refine guarded.imp_of_invariant ?_
      (fun state event holds => (same state event holds).mp) holds
    intro state event next holds _
    exact preserved state event next holds
  · intro guarded
    refine guarded.imp_of_invariant ?_
      (fun state event holds => (same state event holds).mpr) holds
    intro state event next holds _
    exact preserved state event next holds

/-- Guards that do not look at the state are checked event by event, where every event can
happen. -/
theorem guarded_iff_forall {allowed : Event → Prop}
    (happens : ∀ state event, ∃ next, step state event = some next) {events : List Event} :
    ∀ {state : State}, Guarded step (fun _ => allowed) state events ↔
      ∀ event ∈ events, allowed event := by
  induction events with
  | nil =>
      intro state
      exact iff_of_true trivial nofun
  | cons event events ih =>
      intro state
      obtain ⟨next, can⟩ := happens state event
      rw [List.forall_mem_cons]
      constructor
      · intro guarded
        obtain ⟨first, later⟩ := guarded next can
        exact ⟨first, ih.mp later⟩
      · rintro ⟨first, later⟩ other _
        exact ⟨first, ih.mpr later⟩

end Foundation
