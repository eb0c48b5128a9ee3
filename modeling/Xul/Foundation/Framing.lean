import Mathlib.Data.List.TakeWhile
import Xul.Foundation.Occurrence

/-!
# Framed streams

A framing says of a sequence whether a whole message begins it, and how long that
message is.  Once a message is there it stays, whatever follows.  `drain` takes messages
from the front of a stream as long as there is one, and can be stopped and resumed
anywhere (`drain_append`): a decoder that keeps what `drain` leaves over emits the same
messages however the stream is cut.  So does a reader that is asked for one message at a
time, once it is asked often enough (`pull_reads`).
-/

set_option autoImplicit false

namespace Foundation

variable {Symbol Message : Type*}

/-- How messages are told apart in a stream. -/
structure Framing (Symbol Message : Type*) where
  decode : List Symbol → Option (Nat × Message)
  inside : ∀ {symbols size message}, decode symbols = some (size, message) →
    0 < size ∧ size ≤ symbols.length
  stable : ∀ {symbols found}, decode symbols = some found →
    ∀ more, decode (symbols ++ more) = some found

namespace Framing

variable (framing : Framing Symbol Message)

def drainLoop : Nat → List Symbol → List Message × List Symbol
  | 0, symbols => ([], symbols)
  | fuel + 1, symbols =>
      match framing.decode symbols with
      | none => ([], symbols)
      | some (size, message) =>
          let later := drainLoop fuel (symbols.drop size)
          (message :: later.1, later.2)

/-- The messages in front of a stream, and what is left of it: a message takes a symbol
at least. -/
def drain (symbols : List Symbol) : List Message × List Symbol :=
  framing.drainLoop symbols.length symbols

variable {framing}

theorem decode_nil : framing.decode [] = none := by
  cases found : framing.decode [] with
  | none => rfl
  | some pair =>
      have inside := @framing.inside _ pair.1 pair.2 found
      exact absurd inside.2 (not_le_of_gt inside.1)

theorem drain_of_none {symbols : List Symbol} (none : framing.decode symbols = none) :
    framing.drain symbols = ([], symbols) := by
  rw [drain]
  cases symbols.length with
  | zero => rfl
  | succ fuel => simp only [drainLoop, none]

theorem drainLoop_of_le {fuel : Nat} {symbols : List Symbol} (enough : symbols.length ≤ fuel) :
    framing.drainLoop fuel symbols = framing.drain symbols := by
  induction fuel using Nat.strong_induction_on generalizing symbols with
  | _ fuel ih =>
    cases found : framing.decode symbols with
    | none =>
        rw [drain_of_none found]
        cases fuel with
        | zero => rfl
        | succ fuel => simp only [drainLoop, found]
    | some pair =>
        obtain ⟨size, message⟩ := pair
        obtain ⟨positive, inside⟩ := framing.inside found
        have shorter : (symbols.drop size).length < symbols.length := by
          rw [List.length_drop]
          omega
        obtain ⟨previous, length⟩ : ∃ previous, symbols.length = previous + 1 :=
          ⟨symbols.length - 1, by omega⟩
        obtain ⟨fuel, rfl⟩ : ∃ previous, fuel = previous + 1 := ⟨fuel - 1, by omega⟩
        rw [drain, length, drainLoop, drainLoop, found]
        simp only
        rw [ih fuel (Nat.lt_succ_self _) (by omega), ih previous (by omega) (by omega)]

theorem drain_of_some {symbols : List Symbol} {size : Nat} {message : Message}
    (found : framing.decode symbols = some (size, message)) :
    framing.drain symbols = (message :: (framing.drain (symbols.drop size)).1,
      (framing.drain (symbols.drop size)).2) := by
  obtain ⟨positive, inside⟩ := framing.inside found
  obtain ⟨previous, length⟩ : ∃ previous, symbols.length = previous + 1 :=
    ⟨symbols.length - 1, by omega⟩
  have enough : (symbols.drop size).length ≤ previous := by
    rw [List.length_drop]
    omega
  rw [drain, length, drainLoop, found]
  simp only [drainLoop_of_le enough]

/-- The induction along a stream: a message after another, up to what is left over. -/
theorem drain_induction {motive : List Symbol → Prop}
    (left : ∀ symbols, framing.decode symbols = none → motive symbols)
    (message : ∀ symbols size message, framing.decode symbols = some (size, message) →
      motive (symbols.drop size) → motive symbols) (symbols : List Symbol) : motive symbols := by
  induction length : symbols.length using Nat.strong_induction_on generalizing symbols with
  | _ length ih =>
    subst length
    cases found : framing.decode symbols with
    | none => exact left symbols found
    | some pair =>
        obtain ⟨positive, inside⟩ := @framing.inside _ pair.1 pair.2 found
        refine message symbols pair.1 pair.2 found (ih _ ?_ _ rfl)
        rw [List.length_drop]
        omega

/-- Nothing that is left over begins with a message. -/
theorem decode_drain (symbols : List Symbol) :
    framing.decode (framing.drain symbols).2 = none := by
  induction symbols using @drain_induction _ _ framing with
  | left symbols none => rwa [drain_of_none none]
  | message symbols size message found later => rwa [drain_of_some found]

/-- Where there is no message everything is left over. -/
theorem drain_snd_of_nil {symbols : List Symbol} (nothing : (framing.drain symbols).1 = []) :
    (framing.drain symbols).2 = symbols := by
  cases found : framing.decode symbols with
  | none => rw [drain_of_none found]
  | some pair =>
      rw [@drain_of_some _ _ _ _ pair.1 pair.2 found] at nothing
      exact absurd nothing (List.cons_ne_nil _ _)

/-- **A stream can be drained in parts.** -/
theorem drain_append (symbols more : List Symbol) :
    framing.drain (symbols ++ more) =
      ((framing.drain symbols).1 ++ (framing.drain ((framing.drain symbols).2 ++ more)).1,
        (framing.drain ((framing.drain symbols).2 ++ more)).2) := by
  induction symbols using @drain_induction _ _ framing with
  | left symbols none => simp only [drain_of_none none, List.nil_append]
  | message symbols size message found later =>
      have inside := (framing.inside found).2
      rw [drain_of_some (framing.stable found more), drain_of_some found,
        List.drop_append_of_le_length inside, later]
      simp only [List.cons_append]

/-! ## Delimiters -/

/-- The framing of pieces that a delimiter ends: a piece is what stands before the first
delimiter. -/
def delimited {Symbol : Type*} [BEq Symbol] [LawfulBEq Symbol] (delimiter : List Symbol)
    (nonempty : delimiter ≠ []) : Framing Symbol (List Symbol) where
  decode symbols := (firstOccurrence delimiter symbols).map fun offset =>
    (offset + delimiter.length, symbols.take offset)
  inside {symbols size message} found := by
    obtain ⟨offset, first, same⟩ := Option.map_eq_some_iff.mp found
    cases same
    have inside := (firstOccurrence_add_length_le first).resolve_right nonempty
    exact ⟨Nat.add_pos_right _ (List.length_pos_iff.mpr nonempty), inside⟩
  stable {symbols piece} found more := by
    obtain ⟨offset, first, rfl⟩ := Option.map_eq_some_iff.mp found
    have inside := (firstOccurrence_add_length_le first).resolve_right nonempty
    rw [firstOccurrence_append nonempty first more, Option.map_some,
      List.take_append_of_le_length ((Nat.le_add_right ..).trans inside)]

end Framing

/-! ## Readers that are asked -/

/-- A reader is fed, or asked for a message. -/
inductive Pull (Symbol : Type*) where
  | feed (symbols : List Symbol)
  | read

/-- What a reader is fed. -/
def fed : List (Pull Symbol) → List Symbol
  | [] => []
  | .feed symbols :: events => symbols ++ fed events
  | .read :: events => fed events

@[simp] theorem fed_append (events later : List (Pull Symbol)) :
    fed (events ++ later) = fed events ++ fed later := by
  induction events with
  | nil => rfl
  | cons event events ih =>
      cases event with
      | feed symbols => rw [List.cons_append, fed, fed, ih, List.append_assoc]
      | read => exact ih

@[simp] theorem fed_replicate_read (count : Nat) :
    fed (List.replicate count (.read : Pull Symbol)) = [] := by
  induction count with
  | zero => rfl
  | succ count ih => exact ih

namespace Framing

variable (framing : Framing Symbol Message)

/-- What a reader answers that takes a message whenever it is asked and there is one, and
what it has left. -/
def pull : List Symbol → List (Pull Symbol) → List Message × List Symbol
  | left, [] => ([], left)
  | left, .feed symbols :: events => pull (left ++ symbols) events
  | left, .read :: events =>
      match framing.decode left with
      | none => pull left events
      | some (size, message) =>
          let later := pull (left.drop size) events
          (message :: later.1, later.2)

variable {framing}

/-- Draining what a reader has left completes what it has answered. -/
theorem drain_pull (left : List Symbol) (events : List (Pull Symbol)) :
    framing.drain (left ++ fed events) =
      ((framing.pull left events).1 ++ (framing.drain (framing.pull left events).2).1,
        (framing.drain (framing.pull left events).2).2) := by
  induction events generalizing left with
  | nil => rw [fed, List.append_nil, pull, List.nil_append]
  | cons event events ih =>
      cases event with
      | feed symbols => rw [fed, pull, ← List.append_assoc, ih]
      | read =>
          cases found : framing.decode left with
          | none => simp only [fed, pull, found, ih]
          | some pair =>
              obtain ⟨size, message⟩ := pair
              have inside := (framing.inside found).2
              simp only [fed, pull, found]
              rw [drain_of_some (framing.stable found _), List.drop_append_of_le_length inside, ih]
              rfl

theorem pull_append (left : List Symbol) (events later : List (Pull Symbol)) :
    framing.pull left (events ++ later) =
      ((framing.pull left events).1 ++ (framing.pull (framing.pull left events).2 later).1,
        (framing.pull (framing.pull left events).2 later).2) := by
  induction events generalizing left with
  | nil => rfl
  | cons event events ih =>
      cases event with
      | feed symbols => exact ih (left ++ symbols)
      | read =>
          rw [List.cons_append]
          cases found : framing.decode left with
          | none => simp only [pull, found, ih]
          | some pair => simp only [pull, found, ih, List.cons_append]

/-- A reader that is asked once for each message, and perhaps more often, has drained what
it had. -/
theorem pull_replicate_read {left : List Symbol} {count : Nat}
    (enough : (framing.drain left).1.length ≤ count) :
    framing.pull left (List.replicate count .read) = framing.drain left := by
  induction count generalizing left with
  | zero =>
      have none : framing.decode left = none := by
        cases found : framing.decode left with
        | none => rfl
        | some pair =>
            rw [@drain_of_some _ _ _ _ pair.1 pair.2 found] at enough
            exact absurd enough (Nat.not_succ_le_zero _)
      rw [drain_of_none none]
      rfl
  | succ count ih =>
      rw [List.replicate_succ, pull]
      cases found : framing.decode left with
      | none =>
          rw [drain_of_none found] at enough ⊢
          simp only
          rw [ih (by rw [drain_of_none found]; exact Nat.zero_le _), drain_of_none found]
      | some pair =>
          obtain ⟨size, message⟩ := pair
          rw [drain_of_some found] at enough ⊢
          simp only
          rw [ih (Nat.le_of_succ_le_succ enough)]

/-- **A reader that is asked often enough in the end has drained what it was fed**,
however it was fed and asked before. -/
theorem pull_reads {events : List (Pull Symbol)} {count : Nat}
    (enough : (framing.drain (fed events)).1.length ≤ count) :
    framing.pull [] (events ++ List.replicate count .read) = framing.drain (fed events) := by
  have whole := @drain_pull _ _ framing [] events
  rw [List.nil_append] at whole
  have fewer : (framing.drain (framing.pull [] events).2).1.length ≤ count := by
    refine le_trans ?_ enough
    rw [whole, List.length_append]
    exact Nat.le_add_left _ _
  rw [pull_append, pull_replicate_read fewer, whole]

end Framing

end Foundation
