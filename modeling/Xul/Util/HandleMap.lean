import Xul.Foundation.Dictionary
import Xul.Foundation.SortedMap

/-!
# Handles of objects

`handle_map` gives an object the smallest free handle below a hundred, and when there is none the
one behind the greatest that is in use.  What a handle stands for is what the calls so far have left
of it (`held`), whatever they were (`answers_of_run`).
-/

set_option autoImplicit false

namespace Xul

open Foundation

/-- `std::map<int, T>` -/
abbrev HandleMap (T : Type*) := SortedMap Int T

namespace HandleMap

variable {T : Type*}

def handleLimit : Int := 1000000

/-- The first of the handles `1` to `99` that is not in use. -/
def firstFree (handles : HandleMap T) : Option Int :=
  ((List.range' 1 99).map Int.ofNat).find? fun i => (handles.find i).isNone

/-- `add`, which has no result where an assertion fails. -/
def add (handles : HandleMap T) (obj : T) : Option (Int × HandleMap T) :=
  match firstFree handles with
  | some i => some (i, handles.set i obj)
  | none =>
      match handles.last with
      | none => none
      | some greatest =>
          let handle := greatest.1 + 1
          if (handles.find handle).isSome then none
          else if handle > handleLimit then some (-1, handles)
          else some (handle, handles.set handle obj)

/-- `find`, where `null` is `T()`. -/
def lookUp (null : T) (handles : HandleMap T) (handle : Int) : T :=
  match handles.find handle with
  | none => null
  | some obj => obj

def remove (null : T) (handles : HandleMap T) (handle : Int) : T × HandleMap T :=
  match handles.find handle with
  | none => (null, handles)
  | some obj => (obj, handles.erase handle)

/-! ## Calls -/

inductive Call (T : Type*)
  | add (obj : T)
  | find (handle : Int)
  | remove (handle : Int)

inductive Result (T : Type*)
  | handle (handle : Int)
  | object (obj : T)

abbrev History (T : Type*) := List (Call T × Result T)

def step (null : T) (handles : HandleMap T) : Call T → Option (Result T × HandleMap T)
  | .add obj => (add handles obj).map fun added => (.handle added.1, added.2)
  | .find handle => some (.object (lookUp null handles handle), handles)
  | .remove handle =>
      let removed := remove null handles handle
      some (.object removed.1, removed.2)

def runFrom (null : T) : List (Call T) → History T → HandleMap T → Option (History T × HandleMap T)
  | [], history, handles => some (history, handles)
  | call :: calls, history, handles =>
      (step null handles call).bind fun answer =>
        runFrom null calls (history ++ [(call, answer.1)]) answer.2

/-- The calls on a new map. -/
def run (null : T) (calls : List (Call T)) : Option (History T × HandleMap T) :=
  runFrom null calls [] SortedMap.empty

/-! ## What the handles stand for -/

/-- What a call and its result say of the handles.  The result `-1` is no handle. -/
def changeOf : Call T × Result T → Option (Change Int T)
  | (.add obj, .handle handle) => if handle = -1 then none else some (.set handle obj)
  | (.remove handle, _) => some (.remove handle)
  | _ => none

/-- The object of the latest call of `add` that returned a handle, unless it was removed since. -/
def held (history : History T) : Int → Option T := valuesAfter id (history.filterMap changeOf)

/-- What a call may do after others. -/
def Answers (null : T) (history : History T) (handles : HandleMap T) (call : Call T)
    (result : Result T) (after : HandleMap T) : Prop :=
  match call with
  | .add _ =>
      result = .handle (-1) ∧ after = handles ∨
        ∃ handle, result = .handle handle ∧ 0 < handle ∧ held history handle = none
  | .find handle => result = .object ((held history handle).getD null) ∧ after = handles
  | .remove handle =>
      result = .object ((held history handle).getD null) ∧
        ∀ other, other ≠ handle → after.find other = handles.find other

variable {null : T} {handles after : HandleMap T} {obj : T} {handle : Int} {history : History T}

theorem lookUp_eq (null : T) (handles : HandleMap T) (handle : Int) :
    lookUp null handles handle = (handles.find handle).getD null := by
  rw [lookUp]
  cases handles.find handle with
  | none => rfl
  | some obj => rfl

theorem remove_eq (null : T) (handles : HandleMap T) (handle : Int) :
    remove null handles handle =
      ((handles.find handle).getD null, handles.erase handle) := by
  rw [remove]
  cases found : handles.find handle with
  | none =>
      have same : handles.erase handle = handles := by
        refine SortedMap.ext_of_find fun other => ?_
        rw [SortedMap.find_erase]
        split
        · next here => rw [here, found]
        · rfl
      rw [same]
      rfl
  | some obj => rfl

theorem firstFree_spec (isFirst : firstFree handles = some handle) :
    0 < handle ∧ handle < 100 ∧ handles.find handle = none := by
  have free := List.find?_some isFirst
  obtain ⟨i, inside, rfl⟩ := List.mem_map.mp (List.mem_of_find?_eq_some isFirst)
  rw [List.mem_range'_1] at inside
  exact ⟨by simp; omega, by simp; omega, Option.isNone_iff_eq_none.mp free⟩

/-- When no handle below a hundred is free, there is one in use that is not less. -/
theorem exists_last_of_full (full : firstFree handles = none) :
    ∃ greatest, handles.last = some greatest ∧ 99 ≤ greatest.1 := by
  have member : (99 : Int) ∈ (List.range' 1 99).map Int.ofNat :=
    List.mem_map.mpr ⟨99, List.mem_range'_1.mpr (by omega), rfl⟩
  have used := List.find?_eq_none.mp full 99 member
  rw [Option.isNone_iff_eq_none] at used
  obtain ⟨value, found⟩ := Option.ne_none_iff_exists'.mp used
  obtain ⟨greatest, isLast⟩ := SortedMap.exists_last found
  exact ⟨greatest, isLast, SortedMap.le_of_last isLast (SortedMap.find_eq_some_iff.mp found)⟩

/-- **What `add` does**: no assertion fails, and the map is full or the handle is free. -/
theorem add_cases (handles : HandleMap T) (obj : T) :
    add handles obj = some (-1, handles) ∨
      ∃ handle, add handles obj = some (handle, handles.set handle obj) ∧ 0 < handle ∧
        handle ≤ handleLimit ∧ handles.find handle = none := by
  rw [add]
  cases isFirst : firstFree handles with
  | some i =>
      obtain ⟨positive, small, free⟩ := firstFree_spec isFirst
      exact .inr ⟨i, rfl, positive, by rw [handleLimit]; omega, free⟩
  | none =>
      obtain ⟨greatest, isLast, large⟩ := exists_last_of_full isFirst
      have free : handles.find (greatest.1 + 1) = none := by
        refine SortedMap.find_eq_none_iff.mpr fun value member => ?_
        have le := SortedMap.le_of_last isLast member
        simp only at le
        omega
      simp only [isLast, free]
      by_cases beyond : greatest.1 + 1 > handleLimit
      · simp [beyond]
      · refine .inr ⟨greatest.1 + 1, ?_, ?_, ?_, free⟩
        · simp [beyond]
        · omega
        · omega

/-! ## Runs -/

/-- The map holds what the calls have left, under handles that an `int` counts. -/
structure Agrees (history : History T) (handles : HandleMap T) : Prop where
  finds : ∀ handle, handles.find handle = held history handle
  limited : ∀ handle, handles.find handle ≠ none → 0 < handle ∧ handle ≤ handleLimit

theorem agrees_empty : Agrees ([] : History T) SortedMap.empty :=
  ⟨fun _ => rfl, fun _ present => absurd rfl present⟩

theorem held_snoc (history : History T) (event : Call T × Result T) :
    held (history ++ [event]) =
      match changeOf event with
      | none => held history
      | some change => change.values id (held history) := by
  rw [held, List.filterMap_append]
  cases isChange : changeOf event with
  | none => simp [isChange, held]
  | some change => simp [isChange, held, valuesAfter_snoc]

/-- **One call** is answered, and the map still holds what the calls have left. -/
theorem exists_step (agrees : Agrees history handles) (null : T) (call : Call T) :
    ∃ result after, step null handles call = some (result, after) ∧
      Answers null history handles call result after ∧
      Agrees (history ++ [(call, result)]) after := by
  cases call with
  | add obj =>
      obtain full | ⟨handle, added, positive, small, free⟩ := add_cases handles obj
      · refine ⟨.handle (-1), handles, by rw [step, full]; rfl, .inl ⟨rfl, rfl⟩, ?_,
          agrees.limited⟩
        rw [held_snoc]
        exact agrees.finds
      · refine ⟨.handle handle, handles.set handle obj, by rw [step, added]; rfl,
          .inr ⟨handle, rfl, positive, agrees.finds handle ▸ free⟩, ?_, ?_⟩
        · have isChange : changeOf (.add obj, .handle handle) = some (.set handle obj) :=
            if_neg (by omega)
          intro other
          rw [held_snoc, isChange, SortedMap.find_set, agrees.finds]
          simp [Change.values, Function.update_apply]
        · intro other present
          rw [SortedMap.find_set] at present
          split at present
          · next same => exact same ▸ ⟨positive, small⟩
          · exact agrees.limited other present
  | find handle =>
      refine ⟨_, handles, rfl, ⟨by rw [lookUp_eq, agrees.finds], rfl⟩, ?_, agrees.limited⟩
      rw [held_snoc]
      exact agrees.finds
  | remove handle =>
      refine ⟨_, _, rfl, ⟨by rw [remove_eq, agrees.finds], ?_⟩, ?_, ?_⟩
      · intro other apart
        rw [remove_eq, SortedMap.find_erase, if_neg apart]
      · intro other
        rw [held_snoc, remove_eq, SortedMap.find_erase, agrees.finds]
        simp [changeOf, Change.values, Function.update_apply]
      · intro other present
        rw [remove_eq, SortedMap.find_erase] at present
        split at present
        · exact absurd rfl present
        · exact agrees.limited other present

theorem exists_runFrom (null : T) (calls : List (Call T)) (agrees : Agrees history handles) :
    ∃ later after, runFrom null calls history handles = some (later, after) ∧
      Agrees later after := by
  induction calls generalizing history handles with
  | nil => exact ⟨history, handles, rfl, agrees⟩
  | cons call calls ih =>
      obtain ⟨result, next, stepped, -, still⟩ := exists_step agrees null call
      obtain ⟨later, after, ran, agreesAfter⟩ := ih still
      exact ⟨later, after, by rw [runFrom, stepped, Option.bind_some, ran], agreesAfter⟩

/-- **After any calls** no assertion has failed, and any other call is answered as what they have
left asks for. -/
theorem answers_of_run (null : T) (calls : List (Call T)) :
    ∃ history handles, run null calls = some (history, handles) ∧
      ∀ call, ∃ result after, step null handles call = some (result, after) ∧
        Answers null history handles call result after := by
  obtain ⟨history, handles, ran, agrees⟩ :=
    @exists_runFrom T SortedMap.empty [] null calls agrees_empty
  refine ⟨history, handles, ran, fun call => ?_⟩
  obtain ⟨result, after, stepped, answers, -⟩ := exists_step agrees null call
  exact ⟨result, after, stepped, answers⟩

/-- No handle in use is too large for another one behind it. -/
theorem limited_of_run {calls : List (Call T)} (ran : run null calls = some (history, handles)) :
    ∀ handle, handles.find handle ≠ none → 0 < handle ∧ handle ≤ handleLimit := by
  obtain ⟨later, last, again, agrees⟩ :=
    @exists_runFrom T SortedMap.empty [] null calls agrees_empty
  obtain ⟨-, rfl⟩ := Prod.mk.inj (Option.some.inj (ran.symm.trans again))
  exact agrees.limited

end HandleMap

end Xul
