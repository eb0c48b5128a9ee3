import Mathlib.Data.List.Count
import Xul.Foundation.Runs
import Xul.Std.Bytes

/-!
# Counted objects and their pointers

An object counts the references to it in an `int` and is deleted with the last one: `object_impl`
counts for `intrusive_ptr` and asserts that its count is not negative, and the functions of a
`cobject` count for `cobject_ptr` without an assertion (`Counting`).  The pointers count themselves:
an object has as many references as pointers point to it.  Pointers are local ones, or members of
objects; the members of an object are destroyed with it, which may delete other objects.  As long as
the program uses pointers that are there, and bare pointers only to objects that are there, and has
fewer than 2^31 pointers to one object, nothing deleted is ever used again, and an object is deleted
exactly with its last pointer (`counts_of_run`).
-/

set_option autoImplicit false

namespace Foundation

variable {α β : Type*}

/-- Replacing one list of many changes how often a value occurs in all of them by what it does to
the one. -/
theorem count_flatMap_set [BEq β] {f : α → List β} {items : List α} {index : Nat} {old : α}
    (inside : items[index]? = some old) (new : α) (value : β) :
    ((items.set index new).flatMap f).count value + (f old).count value =
      (items.flatMap f).count value + (f new).count value := by
  induction items generalizing index with
  | nil => cases inside
  | cons first items ih =>
      cases index with
      | zero =>
          obtain rfl := Option.some.inj inside
          simp only [List.set_cons_zero, List.flatMap_cons, List.count_append]
          omega
      | succ index =>
          have rest := ih inside
          simp only [List.set_cons_succ, List.flatMap_cons, List.count_append]
          omega

end Foundation

namespace Xul

open Foundation

/-- A pointer, null or with the address of an object. -/
abbrev Px := Option Nat

/-- What counts the references to an object. -/
inductive Counting where
  /-- `add_reference` and `release_reference` of `object_impl`. -/
  | object
  /-- `cobject_add_ref` and `cobject_release_ref`. -/
  | cobject
deriving DecidableEq

/-- An object with this count after a release is deleted. -/
def Counting.deletes : Counting → Int → Prop
  | .object, count => count = 0
  | .cobject, count => count ≤ 0

instance (counting : Counting) (count : Int) : Decidable (counting.deletes count) := by
  cases counting with
  | object => exact inferInstanceAs (Decidable (count = 0))
  | cobject => exact inferInstanceAs (Decidable (count ≤ 0))

/-- Of a count that is not negative only the last reference deletes. -/
theorem Counting.deletes_iff (counting : Counting) {count : Int} (positive : 0 ≤ count) :
    counting.deletes count ↔ count = 0 := by
  cases counting with
  | object => exact Iff.rfl
  | cobject => exact ⟨fun few => le_antisymm few positive, fun none => none.le⟩

/-- The reference count of an object, an `int`, and the pointers among its members. -/
structure CountedObject where
  refCount : Int
  members : List Px
deriving DecidableEq

/-- The objects by their addresses, and the local pointers.  What is destroyed has left its place,
which is not used a second time. -/
structure ObjectHeap where
  objects : List (Option CountedObject)
  locals : List (Option Px)
deriving DecidableEq

/-- Where a pointer is. -/
inductive Place where
  | local (index : Nat)
  | member (address index : Nat)
deriving DecidableEq

namespace ObjectHeap

def empty : ObjectHeap := ⟨[], []⟩

def object (heap : ObjectHeap) (address : Nat) : Option CountedObject :=
  (heap.objects[address]?).join

def setObject (heap : ObjectHeap) (address : Nat) (object : Option CountedObject) : ObjectHeap :=
  { heap with objects := heap.objects.set address object }

/-- The pointer at a place, if there is one. -/
def get (heap : ObjectHeap) : Place → Option Px
  | .local index => (heap.locals[index]?).join
  | .member address index => (heap.object address).bind fun object => object.members[index]?

def put (heap : ObjectHeap) (place : Place) (px : Px) : ObjectHeap :=
  match place with
  | .local index => { heap with locals := heap.locals.set index (some px) }
  | .member address index =>
      heap.setObject address ((heap.object address).map fun object =>
        { object with members := object.members.set index px })

/-- A new local pointer. -/
def push (heap : ObjectHeap) (px : Px) : ObjectHeap :=
  { heap with locals := heap.locals ++ [some px] }

/-- The end of a local pointer. -/
def drop (heap : ObjectHeap) (index : Nat) : ObjectHeap :=
  { heap with locals := heap.locals.set index none }

/-- `add_reference` or `cobject_add_ref`, for a pointer that is not null. -/
def addReference (counting : Counting) (heap : ObjectHeap) : Px → Option ObjectHeap
  | none => some heap
  | some address =>
      (heap.object address).bind fun object =>
        if counting = .object ∧ object.refCount < 0 then none
        else
          some (heap.setObject address
            (some { object with refCount := toInt (object.refCount + 1) }))

/-- `release_reference` or `cobject_release_ref`, for a pointer that is not null; the first asserts
that there is a reference.  The destructor of an object destroys the members, the last one first. -/
def releaseReference (counting : Counting) : Nat → ObjectHeap → Px → Option ObjectHeap
  | _, heap, none => some heap
  | 0, _, some _ => none
  | depth + 1, heap, some address =>
      match heap.object address with
      | none => none
      | some object =>
          let count := toInt (object.refCount - 1)
          if counting = .object ∧ object.refCount ≤ 0 then none
          else if counting.deletes count then
            object.members.reverse.foldlM (releaseReference counting depth)
              (heap.setObject address none)
          else some (heap.setObject address (some { object with refCount := count }))

/-- The destructor of a pointer that has left its place. -/
def release (counting : Counting) (heap : ObjectHeap) (px : Px) : Option ObjectHeap :=
  releaseReference counting heap.objects.length heap px

/-- `swap` of a temporary pointer with one that is assigned to, and the end of the temporary. -/
def exchange (counting : Counting) (heap : ObjectHeap) (this : Place) (px : Px) :
    Option ObjectHeap :=
  (heap.get this).bind fun old => (heap.put this px).release counting old

end ObjectHeap

/-- What a program does with objects and pointers. -/
inductive PointerCall where
  | create (members : Nat)
  | construct (px : Px)
  | copy (rhs : Place)
  | move (rhs : Place)
  | assign (this rhs : Place)
  | assignMoved (this rhs : Place)
  | reset (this : Place) (rhs : Px)
  | swap (this rhs : Place)
  | destroy (index : Nat)
deriving DecidableEq

/-- The object that a call makes a pointer to from a bare one. -/
def PointerCall.taken : PointerCall → List Nat
  | .construct px => px.toList
  | .reset _ rhs => rhs.toList
  | _ => []

namespace ObjectHeap

/-- A call; there is none on what is not there. -/
def step (counting : Counting) (heap : ObjectHeap) : PointerCall → Option ObjectHeap
  | .create members =>
      some { heap with objects := heap.objects ++ [some ⟨0, List.replicate members none⟩] }
  | .construct px => (heap.addReference counting px).map fun next => next.push px
  | .copy rhs =>
      (heap.get rhs).bind fun px => (heap.addReference counting px).map fun next => next.push px
  | .move rhs => (heap.get rhs).map fun px => (heap.put rhs none).push px
  | .assign this rhs =>
      (heap.get rhs).bind fun px =>
        (heap.addReference counting px).bind fun next => next.exchange counting this px
  | .assignMoved this rhs =>
      (heap.get rhs).bind fun px => (heap.put rhs none).exchange counting this px
  | .reset this rhs =>
      (heap.addReference counting rhs).bind fun next => next.exchange counting this rhs
  | .swap this rhs =>
      (heap.get this).bind fun px =>
        (heap.get rhs).map fun other => (heap.put this other).put rhs px
  | .destroy index =>
      (heap.get (.local index)).bind fun px => (heap.drop index).release counting px

/-- All pointers there are. -/
def pointers (heap : ObjectHeap) : List Px :=
  heap.locals.flatMap Option.toList ++ heap.objects.flatMap fun object =>
    object.elim [] CountedObject.members

def refCount (heap : ObjectHeap) (address : Nat) : Int :=
  (heap.object address).elim 0 CountedObject.refCount

/-- The counts are those of the pointers, with some that are in no place just now, and have not
wrapped around. -/
structure Counted (heap : ObjectHeap) (owed : List Px) : Prop where
  counts : ∀ address, heap.refCount address = (heap.pointers ++ owed).count (some address)
  small : ∀ address, heap.refCount address < 2 ^ 31

variable {counting : Counting} {heap next : ObjectHeap} {address : Nat} {object : CountedObject}
  {px old : Px} {owed : List Px} {place : Place}

/-! ## One object -/

theorem getElem?_of_object (isObject : heap.object address = some object) :
    heap.objects[address]? = some (some object) :=
  Option.join_eq_some_iff.mp isObject

theorem lt_of_object (isObject : heap.object address = some object) :
    address < heap.objects.length :=
  (List.getElem?_eq_some_iff.mp (getElem?_of_object isObject)).1

theorem object_setObject (inside : address < heap.objects.length)
    (new : Option CountedObject) (other : Nat) :
    (heap.setObject address new).object other =
      if other = address then new else heap.object other := by
  by_cases same : other = address
  · subst same
    rw [if_pos rfl, ObjectHeap.object, setObject, List.getElem?_set_self inside]
    rfl
  · rw [if_neg same, ObjectHeap.object, setObject, List.getElem?_set_ne (Ne.symm same)]
    rfl

theorem refCount_setObject (inside : address < heap.objects.length)
    (new : Option CountedObject) (other : Nat) :
    (heap.setObject address new).refCount other =
      if other = address then new.elim 0 CountedObject.refCount else heap.refCount other := by
  rw [refCount, object_setObject inside]
  split
  · rfl
  · rfl

/-- Replacing an object replaces its pointers. -/
theorem count_pointers_setObject (isObject : heap.object address = some object)
    (new : Option CountedObject) (value : Px) :
    (heap.setObject address new).pointers.count value + object.members.count value =
      heap.pointers.count value + (new.elim [] CountedObject.members).count value := by
  have changed := count_flatMap_set (f := fun object => object.elim [] CountedObject.members)
    (getElem?_of_object isObject) new value
  have same : ((some object).elim [] CountedObject.members) = object.members := rfl
  simp only [pointers, setObject, List.count_append, same] at changed ⊢
  omega

theorem refCount_eq (isObject : heap.object address = some object) :
    heap.refCount address = object.refCount := by
  rw [refCount, isObject]
  rfl

theorem count_cons_some (value : Px) (other : Nat) (owed : List Px) :
    (value :: owed).count (some other) =
      owed.count (some other) + if value = some other then 1 else 0 := by
  rw [List.count_cons]
  simp only [beq_iff_eq]

/-- A pointer with a count leads to an object. -/
theorem Counted.exists_object (counted : heap.Counted owed)
    (points : some address ∈ heap.pointers ++ owed) :
    ∃ object, heap.object address = some object ∧ 0 < object.refCount := by
  have positive := List.count_pos_iff.mpr points
  have counts := counted.counts address
  rw [refCount] at counts
  cases isObject : heap.object address with
  | none =>
      rw [isObject, Option.elim_none] at counts
      omega
  | some object =>
      rw [isObject, Option.elim_some] at counts
      exact ⟨object, rfl, by omega⟩

/-- An object may be replaced when what its count gains is owed. -/
theorem Counted.setObject (counted : heap.Counted owed)
    (isObject : heap.object address = some object) {new : Option CountedObject} {others : List Px}
    (small : new.elim 0 CountedObject.refCount < 2 ^ 31)
    (here : new.elim 0 CountedObject.refCount + owed.count (some address) +
        object.members.count (some address) =
      object.refCount + others.count (some address) +
        (new.elim [] CountedObject.members).count (some address))
    (elsewhere : ∀ other, other ≠ address →
      owed.count (some other) + object.members.count (some other) =
        others.count (some other) + (new.elim [] CountedObject.members).count (some other)) :
    (heap.setObject address new).Counted others := by
  refine ⟨fun other => ?_, fun other => ?_⟩
  · have pointers := count_pointers_setObject isObject new (some other)
    have before := counted.counts other
    rw [List.count_append] at before ⊢
    rw [refCount_setObject (lt_of_object isObject)]
    by_cases same : other = address
    · subst same
      rw [refCount_eq isObject] at before
      rw [if_pos rfl]
      omega
    · have balance := elsewhere other same
      rw [if_neg same]
      omega
  · rw [refCount_setObject (lt_of_object isObject)]
    split
    · exact small
    · exact counted.small other

theorem count_cons_self (owed : List Px) :
    (some address :: owed).count (some address) = owed.count (some address) + 1 := by
  rw [count_cons_some, if_pos rfl]

theorem count_cons_other {other : Nat} (different : other ≠ address) (owed : List Px) :
    (some address :: owed).count (some other) = owed.count (some other) := by
  rw [count_cons_some, if_neg fun equal => different (Option.some.inj equal).symm, Nat.add_zero]

theorem Counted.raised (counted : heap.Counted owed)
    (isObject : heap.object address = some object) (room : object.refCount + 1 < 2 ^ 31) :
    (heap.setObject address (some { object with refCount := object.refCount + 1 })).Counted
      (some address :: owed) := by
  refine counted.setObject isObject room ?_ ?_
  · simp only [count_cons_self, Option.elim_some]
    omega
  · intro other different
    rw [count_cons_other different, Option.elim_some]

theorem Counted.lowered (counted : heap.Counted (some address :: owed))
    (isObject : heap.object address = some object) :
    (heap.setObject address (some { object with refCount := object.refCount - 1 })).Counted
      owed := by
  have small := counted.small address
  rw [refCount_eq isObject] at small
  refine counted.setObject isObject (by simp only [Option.elim_some]; omega) ?_ ?_
  · simp only [count_cons_self, Option.elim_some]
    omega
  · intro other different
    rw [count_cons_other different, Option.elim_some]

/-- With its last reference an object goes, and its members become pointers in no place. -/
theorem Counted.deleted (counted : heap.Counted (some address :: owed))
    (isObject : heap.object address = some object) (last : object.refCount = 1) :
    (heap.setObject address none).Counted (object.members.reverse ++ owed) := by
  refine counted.setObject isObject (by decide) ?_ ?_
  · rw [count_cons_self, List.count_append, List.count_reverse, last, Option.elim_none,
      Option.elim_none, List.count_nil]
    omega
  · intro other different
    rw [count_cons_other different, List.count_append, List.count_reverse, Option.elim_none,
      List.count_nil]
    omega

/-! ## Pointers in their places -/

/-- What is written to a place is there, and nothing else changes. -/
theorem get_put (isThere : heap.get place = some old) (px : Px) (other : Place) :
    (heap.put place px).get other = if other = place then some px else heap.get other := by
  cases place with
  | «local» index =>
      have found : heap.locals[index]? = some (some old) := Option.join_eq_some_iff.mp isThere
      obtain ⟨inside, -⟩ := List.getElem?_eq_some_iff.mp found
      cases other with
      | «local» place =>
          by_cases same : place = index
          · subst same
            rw [if_pos rfl]
            simp only [get, put, List.getElem?_set_self inside, Option.join_some]
          · rw [if_neg fun equal => same (Place.local.inj equal)]
            simp only [get, put, List.getElem?_set_ne (Ne.symm same)]
      | member address index => rfl
  | member address index =>
      obtain ⟨object, isObject, found⟩ := Option.bind_eq_some_iff.mp isThere
      obtain ⟨inside, -⟩ := List.getElem?_eq_some_iff.mp found
      cases other with
      | «local» place => rfl
      | member holder place =>
          simp only [get, put, isObject, object_setObject (lt_of_object isObject), Option.map_some]
          by_cases same : holder = address
          · subst same
            rw [if_pos rfl, Option.bind_some]
            by_cases equal : place = index
            · subst equal
              rw [List.getElem?_set_self inside, if_pos rfl]
            · have different : Place.member holder place ≠ Place.member holder index :=
                fun together => equal (Place.member.inj together).2
              rw [List.getElem?_set_ne (Ne.symm equal), if_neg different, isObject,
                Option.bind_some]
          · have different : Place.member holder place ≠ Place.member address index :=
              fun together => same (Place.member.inj together).1
            rw [if_neg same, if_neg different]

theorem count_pointers_put (isThere : heap.get place = some old) (px value : Px) :
    (heap.put place px).pointers.count value + [old].count value =
      heap.pointers.count value + [px].count value := by
  cases place with
  | «local» index =>
      have found : heap.locals[index]? = some (some old) := Option.join_eq_some_iff.mp isThere
      have changed := count_flatMap_set (f := Option.toList) found (some px) value
      simp only [Option.toList_some] at changed
      simp only [pointers, put, List.count_append]
      omega
  | member address index =>
      obtain ⟨object, isObject, found⟩ := Option.bind_eq_some_iff.mp isThere
      have set := count_flatMap_set (f := fun value : Px => [value]) found px value
      rw [List.flatMap_singleton', List.flatMap_singleton'] at set
      have changed := count_pointers_setObject isObject
        (some { object with members := object.members.set index px }) value
      simp only [Option.elim_some] at changed
      rw [put, isObject, Option.map_some]
      omega

theorem refCount_put (isThere : heap.get place = some old) (px : Px) (other : Nat) :
    (heap.put place px).refCount other = heap.refCount other := by
  cases place with
  | «local» index => rfl
  | member address index =>
      obtain ⟨object, isObject, -⟩ := Option.bind_eq_some_iff.mp isThere
      rw [put, isObject, Option.map_some, refCount_setObject (lt_of_object isObject)]
      split
      · next same =>
        rw [same, refCount_eq isObject, Option.elim_some]
      · rfl

/-- A pointer that is in no place takes the place of another, which then is in none. -/
theorem Counted.put (counted : heap.Counted (px :: owed)) (isThere : heap.get place = some old) :
    (heap.put place px).Counted (old :: owed) := by
  refine ⟨fun other => ?_, fun other => refCount_put isThere px other ▸ counted.small other⟩
  have changed := count_pointers_put isThere px (some other)
  have before := counted.counts other
  rw [List.count_append, count_cons_some] at before
  rw [List.count_singleton, List.count_singleton] at changed
  simp only [beq_iff_eq] at changed
  rw [refCount_put isThere, List.count_append, count_cons_some]
  omega

theorem Counted.swapped {this rhs : Place} {other : Px} (counted : heap.Counted owed)
    (isThis : heap.get this = some px) (isOther : heap.get rhs = some other) :
    ((heap.put this other).put rhs px).Counted owed := by
  have isThere : (heap.put this other).get rhs = some other := by
    rw [get_put isThis]
    split
    · rfl
    · exact isOther
  refine ⟨fun address => ?_, fun address => ?_⟩
  · have first := count_pointers_put isThis other (some address)
    have second := count_pointers_put isThere px (some address)
    have before := counted.counts address
    rw [List.count_append] at before ⊢
    rw [refCount_put isThere, refCount_put isThis]
    omega
  · rw [refCount_put isThere, refCount_put isThis]
    exact counted.small address

theorem mem_pointers_of_get (isThere : heap.get place = some px) : px ∈ heap.pointers := by
  cases place with
  | «local» index =>
      have found : heap.locals[index]? = some (some px) := Option.join_eq_some_iff.mp isThere
      exact List.mem_append_left _
        (List.mem_flatMap.mpr ⟨some px, List.mem_of_getElem? found, List.mem_singleton_self px⟩)
  | member address index =>
      obtain ⟨object, isObject, found⟩ := Option.bind_eq_some_iff.mp isThere
      exact List.mem_append_right _ (List.mem_flatMap.mpr
        ⟨some object, List.mem_of_getElem? (getElem?_of_object isObject),
          List.mem_of_getElem? found⟩)

theorem Counted.push (counted : heap.Counted (px :: owed)) : (heap.push px).Counted owed := by
  refine ⟨fun other => ?_, counted.small⟩
  have before := counted.counts other
  simp only [pointers, List.count_append, count_cons_some] at before
  simp only [pointers, ObjectHeap.push, List.count_append, List.flatMap_append,
    List.flatMap_cons, List.flatMap_nil, Option.toList_some, List.append_nil, count_cons_some,
    List.count_nil]
  show heap.refCount other = _
  omega

theorem Counted.drop {index : Nat} (counted : heap.Counted owed)
    (isThere : heap.get (.local index) = some px) : (heap.drop index).Counted (px :: owed) := by
  refine ⟨fun other => ?_, counted.small⟩
  have found : heap.locals[index]? = some (some px) := Option.join_eq_some_iff.mp isThere
  have changed := count_flatMap_set (f := Option.toList) found none (some other)
  have before := counted.counts other
  simp only [Option.toList_some, Option.toList_none, count_cons_some, List.count_nil] at changed
  simp only [pointers, List.count_append] at before
  simp only [pointers, ObjectHeap.drop, List.count_append, count_cons_some]
  show heap.refCount other = _
  omega

/-! ## Releasing -/

/-- How many objects there are. -/
def live (heap : ObjectHeap) : Nat := heap.objects.countP Option.isSome

/-- None of the objects has just lost its last reference. -/
structure Remains (heap next : ObjectHeap) : Prop where
  length : next.objects.length = heap.objects.length
  objects : ∀ address object, next.object address = some object → object.refCount = 0 →
    ∃ before, heap.object address = some before ∧ before.refCount = 0

theorem Remains.refl (heap : ObjectHeap) : Remains heap heap where
  length := rfl
  objects _ object isObject zero := ⟨object, isObject, zero⟩

theorem Remains.trans {last : ObjectHeap} (first : Remains heap next) (second : Remains next last) :
    Remains heap last where
  length := second.length.trans first.length
  objects address object isObject zero := by
    obtain ⟨before, isBefore, noReference⟩ := second.objects address object isObject zero
    exact first.objects address before isBefore noReference

theorem remains_setObject (isObject : heap.object address = some object)
    {new : Option CountedObject}
    (zero : ∀ other, new = some other → other.refCount = 0 → object.refCount = 0) :
    Remains heap (heap.setObject address new) := by
  refine ⟨List.length_set, ?_⟩
  intro other found isFound noReference
  rw [object_setObject (lt_of_object isObject)] at isFound
  split at isFound
  · next same =>
    subst same
    exact ⟨object, isObject, zero found isFound noReference⟩
  · exact ⟨found, isFound, noReference⟩

theorem remains_put (isThere : heap.get place = some old) (px : Px) :
    Remains heap (heap.put place px) := by
  cases place with
  | «local» index => exact ⟨rfl, fun _ object isObject zero => ⟨object, isObject, zero⟩⟩
  | member address index =>
      obtain ⟨object, isObject, -⟩ := Option.bind_eq_some_iff.mp isThere
      rw [put, isObject]
      refine remains_setObject isObject ?_
      rintro _ ⟨⟩ zero
      exact zero

theorem live_setObject (isObject : heap.object address = some object)
    (new : Option CountedObject) : 0 < heap.live ∧
      (heap.setObject address new).live = heap.live - 1 + if new.isSome then 1 else 0 := by
  have found := getElem?_of_object isObject
  obtain ⟨inside, same⟩ := List.getElem?_eq_some_iff.mp found
  refine ⟨List.countP_pos_iff.mpr ⟨some object, List.mem_of_getElem? found, rfl⟩, ?_⟩
  rw [live, setObject, List.countP_set inside, same]
  simp only [Option.isSome_some, if_true]
  rfl

theorem live_setObject_none (isObject : heap.object address = some object) :
    (heap.setObject address none).live < heap.live := by
  obtain ⟨positive, count⟩ := live_setObject isObject none
  rw [count, Option.isSome_none, if_neg Bool.false_ne_true]
  omega

theorem live_setObject_some (isObject : heap.object address = some object)
    (new : CountedObject) : (heap.setObject address (some new)).live = heap.live := by
  obtain ⟨positive, count⟩ := live_setObject isObject (some new)
  rw [count, Option.isSome_some, if_pos rfl]
  omega

/-- The members of a deleted object are released one after the other, if one can be. -/
theorem exists_foldlM_release {depth : Nat}
    (one : ∀ {heap : ObjectHeap} {px : Px} {owed : List Px}, heap.Counted (px :: owed) →
      heap.live ≤ depth → ∃ next, releaseReference counting depth heap px = some next ∧
        next.Counted owed ∧ Remains heap next ∧ next.live ≤ heap.live) (members : List Px) :
    ∀ {heap : ObjectHeap}, heap.Counted (members ++ owed) → heap.live ≤ depth →
      ∃ next, members.foldlM (releaseReference counting depth) heap = some next ∧
        next.Counted owed ∧ Remains heap next ∧ next.live ≤ heap.live := by
  induction members with
  | nil =>
      intro heap counted _
      exact ⟨heap, rfl, counted, Remains.refl heap, Nat.le_refl _⟩
  | cons px members ih =>
      intro heap counted enough
      obtain ⟨next, released, after, remains, fewer⟩ := one counted enough
      obtain ⟨last, others, ends, rest, fewest⟩ := ih after (Nat.le_trans fewer enough)
      rw [List.foldlM_cons, released]
      exact ⟨last, others, ends, remains.trans rest, Nat.le_trans fewest fewer⟩

/-- A null pointer counts for nothing. -/
theorem counted_none_iff : heap.Counted (none :: owed) ↔ heap.Counted owed := by
  have same (other : Nat) : (none :: owed).count (some other) = owed.count (some other) := by
    rw [count_cons_some, if_neg (Option.some_ne_none other).symm, Nat.add_zero]
  constructor
  · intro counted
    refine ⟨fun other => ?_, counted.small⟩
    rw [counted.counts other, List.count_append, List.count_append, same]
  · intro counted
    refine ⟨fun other => ?_, counted.small⟩
    rw [counted.counts other, List.count_append, List.count_append, same]

/-- **A release finds its object**, and lets go of what only it held. -/
theorem exists_releaseReference (counting : Counting) (depth : Nat) :
    ∀ {heap : ObjectHeap} {px : Px} {owed : List Px}, heap.Counted (px :: owed) →
      heap.live ≤ depth → ∃ next, releaseReference counting depth heap px = some next ∧
        next.Counted owed ∧ Remains heap next ∧ next.live ≤ heap.live := by
  induction depth with
  | zero =>
      intro heap px owed counted enough
      cases px with
      | none => exact ⟨heap, rfl, counted_none_iff.mp counted, Remains.refl heap, Nat.le_refl _⟩
      | some address =>
          obtain ⟨object, isObject, _⟩ :=
            counted.exists_object (List.mem_append_right _ List.mem_cons_self)
          have fewer := live_setObject_none isObject
          omega
  | succ depth ih =>
      intro heap px owed counted enough
      cases px with
      | none => exact ⟨heap, rfl, counted_none_iff.mp counted, Remains.refl heap, Nat.le_refl _⟩
      | some address =>
          obtain ⟨object, isObject, positive⟩ :=
            counted.exists_object (List.mem_append_right _ List.mem_cons_self)
          have small := counted.small address
          rw [refCount_eq isObject] at small
          have fits : toInt (object.refCount - 1) = object.refCount - 1 :=
            toInt_of_small (by omega) (by omega)
          rw [releaseReference, isObject]
          simp only [fits]
          rw [if_neg fun fails => absurd positive (not_lt.mpr fails.2)]
          by_cases last : object.refCount = 1
          · have fewer := live_setObject_none isObject
            obtain ⟨next, released, after, remains, fewest⟩ :=
              exists_foldlM_release ih _ (counted.deleted isObject last) (by omega)
            have gone : Remains heap (heap.setObject address none) :=
              remains_setObject isObject fun _ isNone => absurd isNone (Option.some_ne_none _).symm
            rw [if_pos (counting.deletes_iff (by omega) |>.mpr (by omega))]
            exact ⟨next, released, after, gone.trans remains, by omega⟩
          · rw [if_neg fun deletes => last (by
              have none := (counting.deletes_iff (by omega)).mp deletes
              omega)]
            refine ⟨_, rfl, counted.lowered isObject, remains_setObject isObject ?_,
              Nat.le_of_eq (live_setObject_some isObject _)⟩
            rintro _ ⟨⟩ zero
            have zero : object.refCount - 1 = 0 := zero
            omega

theorem Counted.release (counting : Counting) (counted : heap.Counted (px :: owed)) :
    ∃ next, heap.release counting px = some next ∧ next.Counted owed ∧ Remains heap next := by
  obtain ⟨next, released, after, remains, -⟩ :=
    exists_releaseReference counting _ counted List.countP_le_length
  exact ⟨next, released, after, remains⟩

/-! ## Runs -/

/-- A bare pointer is null, or to an object that is there. -/
def Bare (heap : ObjectHeap) (px : Px) : Prop := ∀ address, px = some address →
  heap.object address ≠ none

/-- The count of the object can be raised: fewer than 2^31 - 1 pointers lead to it. -/
def Room (heap : ObjectHeap) (px : Px) : Prop := ∀ address, px = some address →
  heap.pointers.count (some address) < 2 ^ 31 - 1

/-- What a call uses is there, and what it counts can be counted. -/
def Valid (heap : ObjectHeap) : PointerCall → Prop
  | .create _ => True
  | .construct px => heap.Bare px ∧ heap.Room px
  | .copy rhs => ∃ px, heap.get rhs = some px ∧ heap.Room px
  | .move rhs => heap.get rhs ≠ none
  | .assign this rhs => heap.get this ≠ none ∧ ∃ px, heap.get rhs = some px ∧ heap.Room px
  | .assignMoved this rhs => heap.get this ≠ none ∧ heap.get rhs ≠ none
  | .reset this rhs => heap.get this ≠ none ∧ heap.Bare rhs ∧ heap.Room rhs
  | .swap this rhs => heap.get this ≠ none ∧ heap.get rhs ≠ none
  | .destroy index => heap.get (.local index) ≠ none

/-- The counts are right, and of the objects that pointers were made for none is without. -/
structure Sound (past : List PointerCall) (heap : ObjectHeap) : Prop where
  counted : heap.Counted []
  held : ∀ address object, heap.object address = some object → object.refCount = 0 →
    address ∉ past.flatMap PointerCall.taken
  known : ∀ address ∈ past.flatMap PointerCall.taken, address < heap.objects.length

/-- A counted pointer may be used as a bare one. -/
theorem Counted.bare (counted : heap.Counted owed) (isThere : heap.get place = some px) :
    heap.Bare px := by
  rintro address rfl isNone
  obtain ⟨object, isObject, -⟩ :=
    counted.exists_object (List.mem_append_left _ (mem_pointers_of_get isThere))
  rw [isNone] at isObject
  cases isObject

theorem get_setObject_raised (isObject : heap.object address = some object) (other : Place) :
    (heap.setObject address (some { object with refCount := object.refCount + 1 })).get other =
      heap.get other := by
  cases other with
  | «local» index => rfl
  | member holder index =>
      simp only [get, object_setObject (lt_of_object isObject)]
      split
      · next same =>
        rw [same, isObject]
        rfl
      · rfl

/-- A new reference is to an object that has one from then on. -/
theorem Counted.exists_addReference (counting : Counting) (counted : heap.Counted [])
    (bare : heap.Bare px) (room : heap.Room px) :
    ∃ next, heap.addReference counting px = some next ∧ next.Counted [px] ∧ Remains heap next ∧
      (∀ place, next.get place = heap.get place) ∧
      ∀ address, px = some address → next.refCount address ≠ 0 := by
  cases px with
  | none =>
      refine ⟨heap, rfl, counted_none_iff.mpr counted, Remains.refl heap, fun _ => rfl, ?_⟩
      rintro address ⟨⟩
  | some address =>
      obtain ⟨object, isObject⟩ := Option.ne_none_iff_exists'.mp (bare address rfl)
      have counts := counted.counts address
      rw [List.append_nil, refCount_eq isObject] at counts
      have few := room address rfl
      have fits : toInt (object.refCount + 1) = object.refCount + 1 :=
        toInt_of_small (by omega) (by omega)
      refine ⟨_, ?_, counted.raised isObject (by omega), remains_setObject isObject ?_,
        get_setObject_raised isObject, ?_⟩
      · have asserted : ¬ (counting = .object ∧ object.refCount < 0) := fun fails => by
          have negative := fails.2
          omega
        rw [addReference, isObject, Option.bind_some, if_neg asserted, fits]
      · rintro _ ⟨⟩ zero
        have zero : object.refCount + 1 = 0 := zero
        omega
      · rintro _ ⟨⟩
        rw [refCount_setObject (lt_of_object isObject), if_pos rfl, Option.elim_some]
        show object.refCount + 1 ≠ 0
        omega

theorem Counted.exists_exchange (counting : Counting) {this : Place}
    (counted : heap.Counted (px :: owed)) (isThere : heap.get this = some old) :
    ∃ next, heap.exchange counting this px = some next ∧ next.Counted owed ∧
      Remains heap next := by
  obtain ⟨next, released, after, remains⟩ := (counted.put isThere).release counting
  refine ⟨next, ?_, after, (remains_put isThere px).trans remains⟩
  rw [exchange, isThere, Option.bind_some, released]

theorem remains_locals (locals : List (Option Px)) :
    Remains heap { heap with locals := locals } :=
  ⟨rfl, fun _ object isObject zero => ⟨object, isObject, zero⟩⟩

theorem object_created (new : CountedObject) (other : Nat) :
    ObjectHeap.object { heap with objects := heap.objects ++ [some new] } other =
      if other < heap.objects.length then heap.object other
      else if other = heap.objects.length then some new else none := by
  rw [ObjectHeap.object]
  rcases Nat.lt_trichotomy other heap.objects.length with before | same | behind
  · rw [if_pos before, List.getElem?_append_left before]
    rfl
  · rw [if_neg (by omega), if_pos same, same, List.getElem?_concat_length]
    rfl
  · rw [if_neg (by omega), if_neg (by omega), List.getElem?_eq_none]
    · rfl
    · rw [List.length_append, List.length_singleton]
      omega

theorem Counted.created (counted : heap.Counted owed) (members : Nat) :
    Counted { heap with objects := heap.objects ++ [some ⟨0, List.replicate members none⟩] }
      owed := by
  have same (other : Nat) : ObjectHeap.refCount { heap with objects :=
      heap.objects ++ [some ⟨0, List.replicate members none⟩] } other = heap.refCount other := by
    rw [refCount, object_created]
    split
    · rfl
    · next outside =>
      have absent : heap.object other = none := by
        rw [object, List.getElem?_eq_none (Nat.le_of_not_lt outside)]
        rfl
      rw [refCount, absent]
      split
      · rfl
      · rfl
  refine ⟨fun other => ?_, fun other => same other ▸ counted.small other⟩
  have nothing : (List.replicate members (none : Px)).count (some other) = 0 := by
    rw [List.count_eq_zero]
    intro member
    exact absurd (List.eq_of_mem_replicate member) (Option.some_ne_none other)
  have before := counted.counts other
  simp only [pointers, List.flatMap_append, List.flatMap_cons, List.flatMap_nil, List.append_nil,
    Option.elim_some, List.count_append, nothing] at before ⊢
  rw [Nat.add_zero, ← before, same]

/-- What a call other than `create` does: the objects a pointer is made to have references, and
nothing that has none is new. -/
theorem Sound.advance {past : List PointerCall} {call : PointerCall} (sound : Sound past heap)
    (counted : next.Counted []) (remains : Remains heap next)
    (taken : ∀ address ∈ call.taken, address < heap.objects.length ∧
      ∀ object, next.object address = some object → object.refCount ≠ 0) :
    Sound (past ++ [call]) next := by
  refine ⟨counted, ?_, ?_⟩
  · intro address object isObject zero member
    rw [List.flatMap_append, List.flatMap_cons, List.flatMap_nil, List.append_nil] at member
    rcases List.mem_append.mp member with earlier | now
    · obtain ⟨before, isBefore, noReference⟩ := remains.objects address object isObject zero
      exact sound.held address before isBefore noReference earlier
    · exact (taken address now).2 object isObject zero
  · intro address member
    rw [List.flatMap_append, List.flatMap_cons, List.flatMap_nil, List.append_nil] at member
    rw [remains.length]
    rcases List.mem_append.mp member with earlier | now
    · exact sound.known address earlier
    · exact (taken address now).1

/-- The object of a bare pointer is held once it is counted, whatever is released afterwards. -/
theorem held_of_remains {last : ObjectHeap} (bare : heap.Bare px)
    (raised : ∀ address, px = some address → next.refCount address ≠ 0)
    (second : Remains next last) :
    ∀ address ∈ px.toList, address < heap.objects.length ∧
      ∀ object, last.object address = some object → object.refCount ≠ 0 := by
  intro address member
  obtain rfl := Option.mem_toList.mp member
  obtain ⟨object, isObject⟩ := Option.ne_none_iff_exists'.mp (bare address rfl)
  refine ⟨lt_of_object isObject, ?_⟩
  intro found isFound zero
  obtain ⟨before, isBefore, noReference⟩ := second.objects address found isFound zero
  exact raised address rfl ((refCount_eq isBefore).trans noReference)

/-- **A valid call happens**, and leaves the heap sound. -/
theorem Sound.step {past : List PointerCall} {call : PointerCall} (sound : Sound past heap)
    (valid : heap.Valid call) :
    ∃ next, heap.step counting call = some next ∧ Sound (past ++ [call]) next := by
  have none_taken {next : ObjectHeap} : ∀ address ∈ ([] : List Nat),
      address < heap.objects.length ∧
        ∀ object, next.object address = some object → object.refCount ≠ 0 :=
    fun address member => absurd member List.not_mem_nil
  cases call with
  | create members =>
      refine ⟨_, rfl, sound.counted.created members, ?_, ?_⟩
      · intro address object isObject zero member
        rw [List.flatMap_append, List.flatMap_cons, List.flatMap_nil, List.append_nil] at member
        rcases List.mem_append.mp member with earlier | now
        · rw [object_created, if_pos (sound.known address earlier)] at isObject
          exact sound.held address object isObject zero earlier
        · cases now
      · intro address member
        rw [List.flatMap_append, List.flatMap_cons, List.flatMap_nil, List.append_nil] at member
        rcases List.mem_append.mp member with earlier | now
        · have inside := sound.known address earlier
          rw [List.length_append]
          omega
        · cases now
  | construct px =>
      obtain ⟨next, added, counted, remains, -, raised⟩ :=
        sound.counted.exists_addReference counting valid.1 valid.2
      refine ⟨next.push px, by rw [ObjectHeap.step, added]; rfl, sound.advance counted.push
        (remains.trans (remains_locals _)) ?_⟩
      exact held_of_remains valid.1 raised (remains_locals _)
  | copy rhs =>
      obtain ⟨px, isThere, room⟩ := valid
      obtain ⟨next, added, counted, remains, -, -⟩ :=
        sound.counted.exists_addReference counting (sound.counted.bare isThere) room
      refine ⟨next.push px, ?_, sound.advance counted.push (remains.trans (remains_locals _))
        none_taken⟩
      rw [ObjectHeap.step, isThere, Option.bind_some, added, Option.map_some]
  | move rhs =>
      obtain ⟨px, isThere⟩ := Option.ne_none_iff_exists'.mp valid
      have moved := (counted_none_iff.mpr sound.counted).put isThere
      refine ⟨(heap.put rhs none).push px, ?_, sound.advance moved.push
        ((remains_put isThere none).trans (remains_locals _)) none_taken⟩
      rw [ObjectHeap.step, isThere, Option.map_some]
  | assign this rhs =>
      obtain ⟨old, isThis⟩ := Option.ne_none_iff_exists'.mp valid.1
      obtain ⟨px, isThere, room⟩ := valid.2
      obtain ⟨next, added, counted, remains, same, -⟩ :=
        sound.counted.exists_addReference counting (sound.counted.bare isThere) room
      obtain ⟨last, exchanged, ends, rest⟩ :=
        counted.exists_exchange counting ((same this).trans isThis)
      refine ⟨last, ?_, sound.advance ends (remains.trans rest) none_taken⟩
      rw [ObjectHeap.step, isThere, Option.bind_some, added, Option.bind_some, exchanged]
  | assignMoved this rhs =>
      obtain ⟨old, isThis⟩ := Option.ne_none_iff_exists'.mp valid.1
      obtain ⟨px, isThere⟩ := Option.ne_none_iff_exists'.mp valid.2
      have moved := (counted_none_iff.mpr sound.counted).put isThere
      obtain ⟨now, isNow⟩ : ∃ now, (heap.put rhs none).get this = some now := by
        rw [get_put isThere]
        split
        · exact ⟨none, rfl⟩
        · exact ⟨old, isThis⟩
      obtain ⟨last, exchanged, ends, rest⟩ := moved.exists_exchange counting isNow
      refine ⟨last, ?_, sound.advance ends ((remains_put isThere none).trans rest) none_taken⟩
      rw [ObjectHeap.step, isThere, Option.bind_some, exchanged]
  | reset this rhs =>
      obtain ⟨old, isThis⟩ := Option.ne_none_iff_exists'.mp valid.1
      obtain ⟨next, added, counted, remains, same, raised⟩ :=
        sound.counted.exists_addReference counting valid.2.1 valid.2.2
      obtain ⟨last, exchanged, ends, rest⟩ :=
        counted.exists_exchange counting ((same this).trans isThis)
      refine ⟨last, ?_, sound.advance ends (remains.trans rest)
        (held_of_remains valid.2.1 raised rest)⟩
      rw [ObjectHeap.step, added, Option.bind_some, exchanged]
  | swap this rhs =>
      obtain ⟨px, isThis⟩ := Option.ne_none_iff_exists'.mp valid.1
      obtain ⟨other, isOther⟩ := Option.ne_none_iff_exists'.mp valid.2
      have isThere : ∃ now, (heap.put this other).get rhs = some now := by
        rw [get_put isThis]
        split
        · exact ⟨other, rfl⟩
        · exact ⟨other, isOther⟩
      obtain ⟨now, isNow⟩ := isThere
      refine ⟨(heap.put this other).put rhs px, ?_, sound.advance
        (sound.counted.swapped isThis isOther)
        ((remains_put isThis other).trans (remains_put isNow px)) none_taken⟩
      rw [ObjectHeap.step, isThis, Option.bind_some, isOther, Option.map_some]
  | destroy index =>
      obtain ⟨px, isThere⟩ := Option.ne_none_iff_exists'.mp valid
      obtain ⟨last, released, ends, rest⟩ := (sound.counted.drop isThere).release counting
      refine ⟨last, ?_, sound.advance ends ((remains_locals _).trans rest) none_taken⟩
      rw [ObjectHeap.step, isThere, Option.bind_some, released]

theorem sound_empty : Sound [] empty where
  counted := ⟨fun _ => rfl, fun _ => show (0 : Int) < 2 ^ 31 by decide⟩
  held _ _ _ _ member := absurd member List.not_mem_nil
  known _ member := absurd member List.not_mem_nil

/-- **The counts of a run.**  When every call uses what is there, all of them happen.  Then no
pointer leads to a deleted object; the count of an object is that of the pointers to it; and an
object that a pointer was made to is there just as long as one points to it. -/
theorem counts_of_run (counting : Counting) {calls : List PointerCall}
    (valid : Obeyed (step counting) Valid empty calls) :
    ∃ last, runFrom (step counting) empty calls = some last ∧ ∀ address,
      (last.object address = none → some address ∉ last.pointers) ∧
      (∀ object, last.object address = some object →
        object.refCount = last.pointers.count (some address)) ∧
      (address ∈ calls.flatMap PointerCall.taken →
        (last.object address ≠ none ↔ some address ∈ last.pointers)) := by
  obtain ⟨last, reached, sound⟩ := exists_run_of_obeyed
    (fun past heap call sound valid => Sound.step sound valid) sound_empty valid
  rw [List.nil_append] at sound
  refine ⟨last, reached, fun address => ?_⟩
  have counted := sound.counted.counts address
  rw [List.append_nil] at counted
  have points : last.object address = none → some address ∉ last.pointers := by
    intro isNone
    rw [refCount, isNone, Option.elim_none] at counted
    exact List.count_eq_zero.mp (by omega)
  refine ⟨points, ?_, ?_⟩
  · intro object isObject
    rw [← counted, refCount_eq isObject]
  · intro taken
    constructor
    · intro isThere
      obtain ⟨object, isObject⟩ := Option.ne_none_iff_exists'.mp isThere
      rw [refCount_eq isObject] at counted
      have some : object.refCount ≠ 0 := fun zero =>
        sound.held address object isObject zero taken
      exact List.count_pos_iff.mp (by omega)
    · intro member isNone
      exact points isNone member

/-- An object with a member, which leads to a second one; the first goes with its local pointer, and
the second stays with another. -/
theorem counts_of_run_two :
    ∃ last, runFrom (step .object) empty [.create 1, .construct (some 0), .create 0,
        .reset (.member 0 0) (some 1), .copy (.member 0 0), .destroy 0] = some last ∧
      ∀ address,
        (last.object address = none → some address ∉ last.pointers) ∧
        (∀ object, last.object address = some object →
          object.refCount = last.pointers.count (some address)) ∧
        (address ∈ [0, 1] → (last.object address ≠ none ↔ some address ∈ last.pointers)) := by
  have bare (heap : ObjectHeap) (address : Nat) (isThere : heap.object address ≠ none) :
      heap.Bare (some address) := by
    rintro other ⟨⟩
    exact isThere
  have room (heap : ObjectHeap) (address : Nat)
      (few : heap.pointers.count (some address) < 2 ^ 31 - 1) : heap.Room (some address) := by
    rintro other ⟨⟩
    exact few
  refine counts_of_run .object ?_
  refine .cons rfl trivial ?_
  refine .cons rfl ⟨bare _ 0 (by decide), room _ 0 (by decide)⟩ ?_
  refine .cons rfl trivial ?_
  refine .cons rfl ⟨by decide, bare _ 1 (by decide), room _ 1 (by decide)⟩ ?_
  refine .cons rfl ⟨_, rfl, room _ 1 (by decide)⟩ ?_
  exact .cons rfl (by decide : get _ _ ≠ none) trivial

end ObjectHeap

end Xul
