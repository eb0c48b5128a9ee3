import Xul.Net.Http.HttpFilters

/-!
# Filters that keep a record

What a filter does is seen by the filter behind it, in the calls that are made of it.
`HttpFilter.recorded` is any filter with a record of these calls beside its state; it
answers as the filter does.
-/

set_option autoImplicit false

namespace Xul

/-- A call of a filter. -/
inductive FilterCall where
  | init (resp : HttpResponse)
  | process (data : Bytes)
  | finish (data : Bytes)
  | handleError (errcode : Int)
deriving DecidableEq

namespace FilterCall

/-- The bytes that a filter is given in its calls of `process`. -/
def processed (calls : List FilterCall) : Bytes :=
  calls.flatMap fun call =>
    match call with
    | .process data => data
    | .init _ | .finish _ | .handleError _ => []

/-- How often a filter is finished. -/
def finishes (calls : List FilterCall) : Nat :=
  calls.countP fun call =>
    match call with
    | .finish _ => true
    | .init _ | .process _ | .handleError _ => false

/-- A filter is told of an error. -/
def Failed (calls : List FilterCall) : Prop := ∃ errcode, handleError errcode ∈ calls

@[simp] theorem processed_nil : processed [] = [] := rfl

@[simp] theorem processed_init (resp : HttpResponse) : processed [.init resp] = [] := rfl

@[simp] theorem finishes_nil : finishes [] = 0 := rfl

@[simp] theorem finishes_append (calls more : List FilterCall) :
    finishes (calls ++ more) = finishes calls + finishes more := List.countP_append

@[simp] theorem finishes_process (data : Bytes) : finishes [.process data] = 0 := rfl

@[simp] theorem finishes_finish (data : Bytes) : finishes [.finish data] = 1 := rfl

@[simp] theorem finishes_init (resp : HttpResponse) : finishes [.init resp] = 0 := rfl

end FilterCall

/-- A filter that accepts every call. -/
def HttpFilter.accepting : HttpFilter Unit Unit where
  init _ _ _ := ⟨true, (), ()⟩
  process _ _ _ := ⟨true, (), ()⟩
  finish _ _ _ := ⟨true, (), ()⟩
  handleError _ _ _ := ((), ())

/-- A filter with a record of its calls. -/
def HttpFilter.recorded {Filter Connection : Type} (filter : HttpFilter Filter Connection) :
    HttpFilter (Filter × List FilterCall) Connection where
  init resp state connection :=
    (filter.init resp state.1 connection).map fun after => (after, state.2 ++ [.init resp])
  process data state connection :=
    (filter.process data state.1 connection).map fun after => (after, state.2 ++ [.process data])
  finish data state connection :=
    (filter.finish data state.1 connection).map fun after => (after, state.2 ++ [.finish data])
  handleError errcode state connection :=
    let failed := filter.handleError errcode state.1 connection
    ((failed.1, state.2 ++ [.handleError errcode]), failed.2)

end Xul
