import Xul.Data.AssociativeStringArray
import Xul.Foundation.Dictionary
import Xul.Foundation.SortedEntries

/-!
# String tables

The two implementations of `string_table`: the associative array, and the tree map, whose
entries are in the order of their keys.

A table whose names are told apart by their normal forms holds what its changes leave in a
dictionary (`Holds.change`).  The tables differ in what `get` returns for a key that is
absent.
-/

set_option autoImplicit false

namespace Xul

open Foundation

namespace AssociativeStringArray

variable {compare : Bytes → Bytes → Bool}

def clear (_ : AssociativeStringArray compare) : AssociativeStringArray compare := empty compare

/-- The number of entries as an `int`. -/
def size (table : AssociativeStringArray compare) : Int := toInt table.items.length

/-- The value of the first pair whose key compares equal. -/
def find (table : AssociativeStringArray compare) (key : Bytes) : Option Bytes :=
  (table.items.find? fun entry => compare entry.key key).map StringPairEntry.value

def keys (table : AssociativeStringArray compare) : List Bytes :=
  table.items.map StringPairEntry.key

def change (table : AssociativeStringArray compare) :
    Change Bytes Bytes → AssociativeStringArray compare
  | .set key value => table.set key value
  | .remove key => table.remove key
  | .clear => table.clear

theorem get_eq_find (table : AssociativeStringArray compare) (key defaultValue : Bytes) :
    table.get key defaultValue = (table.find key).getD defaultValue := rfl

theorem contains_eq_find (table : AssociativeStringArray compare) (key : Bytes) :
    table.contains key = (table.find key).isSome := by
  rw [contains, find, Option.isSome_map, List.isSome_find?]

section

variable {ν : Type} [DecidableEq ν] {norm : Bytes → ν}

/-- The table holds what the changes leave in a dictionary. -/
structure Holds (norm : Bytes → ν) (changes : List (Change Bytes Bytes))
    (table : AssociativeStringArray compare) : Prop where
  keys : table.keys = spellingsAfter norm changes
  find : ∀ key, table.find key = valuesAfter norm changes (norm key)

theorem holds_empty : Holds norm [] (empty compare) := ⟨rfl, fun _ => rfl⟩

variable (tells : ∀ x y, compare x y = true ↔ norm x = norm y)

include tells

theorem keys_setItems (key value : Bytes) (items : List StringPairEntry) :
    (setItems compare key value items).map StringPairEntry.key =
      if norm key ∈ (items.map StringPairEntry.key).map norm then items.map StringPairEntry.key
      else items.map StringPairEntry.key ++ [key] := by
  induction items with
  | nil => rfl
  | cons entry items ih =>
      rw [setItems]
      by_cases here : norm entry.key = norm key
      · rw [if_pos ((tells _ _).mpr here), if_pos (by simp [here])]
        rfl
      · have apart : norm key ≠ norm entry.key := fun equal => here equal.symm
        rw [if_neg (by simpa [tells] using here), List.map_cons, ih]
        simp only [List.map_cons, List.mem_cons, apart, false_or]
        split
        · rfl
        · rfl

theorem keys_removeItems (key : Bytes) {items : List StringPairEntry}
    (distinct : items.Pairwise fun earlier later => compare earlier.key later.key = false) :
    (removeItems compare key items).map StringPairEntry.key =
      (items.map StringPairEntry.key).filter fun spelling => norm spelling ≠ norm key := by
  induction distinct with
  | nil => rfl
  | @cons entry items apart others ih =>
      rw [removeItems]
      by_cases here : norm entry.key = norm key
      · have stay : ∀ spelling ∈ items.map StringPairEntry.key,
            decide (norm spelling ≠ norm key) = true := by
          intro spelling member
          obtain ⟨later, inside, rfl⟩ := List.mem_map.mp member
          refine decide_eq_true ?_
          intro equal
          exact Bool.false_ne_true ((apart later inside).symm.trans
            ((tells _ _).mpr (here.trans equal.symm)))
        rw [if_pos ((tells _ _).mpr here), List.map_cons,
          List.filter_cons_of_neg (by simp [here]), List.filter_eq_self.mpr stay]
      · rw [if_neg (by simpa [tells] using here), List.map_cons, List.map_cons, ih,
          List.filter_cons_of_pos (by simp [here])]

/-- **A change of the table is a change of the dictionary.** -/
theorem Holds.change {changes : List (Change Bytes Bytes)}
    {table : AssociativeStringArray compare} (holds : table.Holds norm changes)
    (change : Change Bytes Bytes) :
    (table.change change).Holds norm (changes ++ [change]) := by
  cases change with
  | set key value =>
      constructor
      · rw [spellingsAfter_snoc, ← holds.keys]
        exact keys_setItems tells key value table.items
      · intro other
        rw [valuesAfter_snoc, Change.values, Function.update_apply, ← holds.find]
        exact find?_setItems_of_norm tells key value other table.items
  | remove key =>
      constructor
      · rw [spellingsAfter_snoc, ← holds.keys]
        exact keys_removeItems tells key table.distinct
      · intro other
        rw [valuesAfter_snoc, Change.values, Function.update_apply, ← holds.find]
        exact find?_removeItems tells key other table.distinct
  | clear =>
      constructor
      · rw [spellingsAfter_snoc]
        rfl
      · intro other
        rw [valuesAfter_snoc]
        rfl

end

/-! ## Tables and their clones -/

/-- The tables of a program, each under the number of tables made before it. -/
abbrev Tables (compare : Bytes → Bytes → Bool) := List (AssociativeStringArray compare)

inductive TableOp
  | create
  | change (index : Nat) (change : Change Bytes Bytes)
  | clone (index : Nat)

/-- One operation on values that are kept under an index, where a clone is another value. -/
def TableOp.apply {α : Type} (fresh : α) (make : α → Change Bytes Bytes → α) :
    TableOp → List α → List α
  | .create, values => values ++ [fresh]
  | .change index made, values => values.modify index (make · made)
  | .clone index, values => values ++ values[index]?.toList

/-- The tables that a sequence of operations leaves. -/
def tablesAfter (compare : Bytes → Bytes → Bool) (ops : List TableOp) : Tables compare :=
  ops.foldl (fun tables op => op.apply (empty compare) AssociativeStringArray.change tables) []

/-- The changes of every table; a clone has those of its original. -/
def changesAfter (ops : List TableOp) : List (List (Change Bytes Bytes)) :=
  ops.foldl (fun logs op => op.apply [] (fun changes change => changes ++ [change]) logs) []

/-- Values under an index are related if they are under no index but that. -/
theorem TableOp.apply_related {α β : Type} {related : α → β → Prop} {freshA : α} {freshB : β}
    {makeA : α → Change Bytes Bytes → α} {makeB : β → Change Bytes Bytes → β}
    (fresh : related freshA freshB)
    (make : ∀ a b made, related a b → related (makeA a made) (makeB b made)) (op : TableOp)
    {values : List α} {others : List β} (all : List.Forall₂ related values others) :
    List.Forall₂ related (op.apply freshA makeA values) (op.apply freshB makeB others) := by
  cases op with
  | create => exact List.rel_append all (.cons fresh .nil)
  | change index made =>
      simp only [TableOp.apply]
      induction all generalizing index with
      | nil => simp
      | cons first rest ih =>
          cases index with
          | zero => exact .cons (make _ _ made first) rest
          | succ index => exact .cons first (ih index)
  | clone index =>
      refine List.rel_append all ?_
      induction all generalizing index with
      | nil => exact .nil
      | cons first rest ih =>
          cases index with
          | zero => exact .cons first .nil
          | succ index => exact ih index

/-- An operation leaves the values that it does not name. -/
theorem TableOp.apply_getElem? {α : Type} {fresh : α} {make : α → Change Bytes Bytes → α}
    {op : TableOp} {values : List α} {index : Nat} {value : α}
    (kept : values[index]? = some value) (other : ∀ made, op ≠ .change index made) :
    (op.apply fresh make values)[index]? = some value := by
  have inside : index < values.length := (List.getElem?_eq_some_iff.mp kept).1
  cases op with
  | create => rw [TableOp.apply, List.getElem?_append_left inside, kept]
  | change changed made =>
      have apart : changed ≠ index := fun same => other made (by rw [same])
      rw [TableOp.apply, List.getElem?_modify, kept]
      exact congrArg some (if_neg apart)
  | clone cloned => rw [TableOp.apply, List.getElem?_append_left inside, kept]

/-- **Every table holds what its changes leave.** -/
theorem holds_tablesAfter {ν : Type} [DecidableEq ν] {norm : Bytes → ν}
    (tells : ∀ x y, compare x y = true ↔ norm x = norm y) (ops : List TableOp) :
    List.Forall₂ (fun changes table => Holds norm changes table) (changesAfter ops)
      (tablesAfter compare ops) := by
  induction ops using List.reverseRecOn with
  | nil => exact .nil
  | append_singleton ops op ih =>
      rw [changesAfter, tablesAfter, List.foldl_append, List.foldl_append]
      exact op.apply_related holds_empty (fun _ _ made holds => holds.change tells made) ih

/-- Operations that do not name a table leave it. -/
theorem tablesAfter_append {ops later : List TableOp} {index : Nat}
    {table : AssociativeStringArray compare} (kept : (tablesAfter compare ops)[index]? = some table)
    (others : ∀ op ∈ later, ∀ made, op ≠ .change index made) :
    (tablesAfter compare (ops ++ later))[index]? = some table := by
  rw [tablesAfter, List.foldl_append, ← tablesAfter]
  generalize tablesAfter compare ops = tables at kept
  induction later generalizing tables with
  | nil => exact kept
  | cons op later ih =>
      rw [List.forall_mem_cons] at others
      exact ih others.2 _ (TableOp.apply_getElem? kept others.1)

/-- **The case-insensitive table.**  Its names are told apart by their lower case, it holds
the values and the spellings that its changes leave, and what is done to other tables, its
original and its clones among them, does not change it. -/
theorem istring_array_holds {ops : List TableOp} {index : Nat}
    {table : AssociativeStringArray iequalTo}
    (kept : (tablesAfter iequalTo ops)[index]? = some table) :
    ∃ changes, (changesAfter ops)[index]? = some changes ∧
      (table.items.Pairwise fun earlier later =>
        toLowerCopy earlier.key ≠ toLowerCopy later.key) ∧
      table.keys = spellingsAfter toLowerCopy changes ∧
      (∀ key defaultValue, table.get key defaultValue =
        (valuesAfter toLowerCopy changes (toLowerCopy key)).getD defaultValue) ∧
      (∀ key, table.contains key =
        (valuesAfter toLowerCopy changes (toLowerCopy key)).isSome) ∧
      ∀ later : List TableOp, (∀ op ∈ later, ∀ made, op ≠ .change index made) →
        (tablesAfter iequalTo (ops ++ later))[index]? = some table := by
  have tells := iequalTo_iff
  have all := holds_tablesAfter tells ops
  obtain ⟨inside, found⟩ := List.getElem?_eq_some_iff.mp kept
  have logged : index < (changesAfter ops).length := all.length_eq ▸ inside
  have holds : Holds toLowerCopy (changesAfter ops)[index] table := by
    have here := all.get logged inside
    simpa [found] using here
  refine ⟨(changesAfter ops)[index], List.getElem?_eq_getElem logged, ?_, holds.keys,
    fun key defaultValue => ?_, fun key => ?_, fun later others => tablesAfter_append kept others⟩
  · refine table.distinct.imp fun {earlier later} apart same => ?_
    exact Bool.false_ne_true (apart.symm.trans ((tells _ _).mpr same))
  · rw [get_eq_find, holds.find]
  · rw [contains_eq_find, holds.find]

/-- A clone, after another value was set under the name in its original. -/
theorem istring_array_holds_clone :
    ∃ changes, (changesAfter [.create, .change 0 (.set (ascii "Host") (ascii "a")), .clone 0,
        .change 0 (.set (ascii "HOST") (ascii "b"))])[1]? = some changes ∧
      ((empty iequalTo).set (ascii "Host") (ascii "a")).keys =
        spellingsAfter toLowerCopy changes := by
  obtain ⟨changes, found, -, keys, -⟩ := @istring_array_holds
    [.create, .change 0 (.set (ascii "Host") (ascii "a")), .clone 0,
      .change 0 (.set (ascii "HOST") (ascii "b"))] 1
    ((empty iequalTo).set (ascii "Host") (ascii "a")) rfl
  exact ⟨changes, found, keys⟩

end AssociativeStringArray

/-! ## The tree map -/

/-- `tree_map<const char*, const char*>`, whose storage is ordered by its keys. -/
structure StringTreeMap where
  items : List (Bytes × Bytes)
  ordered : Ordered items

namespace StringTreeMap

def create : StringTreeMap := ⟨[], List.Pairwise.nil⟩

def size (map : StringTreeMap) : Int := toInt map.items.length

/-- `m_items.find`. -/
def find (map : StringTreeMap) (key : Bytes) : Option Bytes :=
  (map.items.find? fun item => item.1 = key).map Prod.snd

def contains (map : StringTreeMap) (key : Bytes) : Bool := (map.find key).isSome

def set (map : StringTreeMap) (key val : Bytes) : StringTreeMap :=
  ⟨insertEntry (fun _ new => new) key val map.items, ordered_insertEntry map.ordered⟩

/-- `get` returns the value that it finds, or `ValueT()`, a null pointer.  It does not use
the default value. -/
def get (map : StringTreeMap) (key : Bytes) (_ : Option Bytes) : Option Bytes :=
  match map.find key with
  | some value => some value
  | none => none

def remove (map : StringTreeMap) (key : Bytes) : StringTreeMap :=
  ⟨map.items.filter fun item => item.1 ≠ key, map.ordered.sublist List.filter_sublist⟩

/-- What `remove` returns: whether one item was erased. -/
def removes (map : StringTreeMap) (key : Bytes) : Bool :=
  (map.items.filter fun item => item.1 = key).length = 1

end StringTreeMap

/-! ## Two tables, one interface -/

/-- The calls that the two tables are compared by.  A default value may be a null pointer. -/
inductive TableCall
  | set (key value : Bytes)
  | remove (key : Bytes)
  | contains (key : Bytes)
  | get (key : Bytes) (defaultValue : Option Bytes)
  | size

inductive TableResult
  | done
  | flag (value : Bool)
  | text (value : Option Bytes)
  | count (value : Int)
deriving DecidableEq

/-- `associative_string_array<>` compares its keys with `std::equal_to`. -/
abbrev StringArray := AssociativeStringArray fun x y => x == y

namespace TableCall

/-- `remove` returns whether it has erased a pair. -/
def onArray (table : StringArray) : TableCall → TableResult × StringArray
  | set key value => (.done, table.set key value)
  | remove key => (.flag (table.contains key), table.remove key)
  | contains key => (.flag (table.contains key), table)
  | get key defaultValue => (.text ((table.find key).or defaultValue), table)
  | size => (.count table.size, table)

def onMap (map : StringTreeMap) : TableCall → TableResult × StringTreeMap
  | set key value => (.done, map.set key value)
  | remove key => (.flag (map.removes key), map.remove key)
  | contains key => (.flag (map.contains key), map)
  | get key defaultValue => (.text (map.get key defaultValue), map)
  | size => (.count map.size, map)

/-- The results of a sequence of calls. -/
def results {Table : Type} (on : Table → TableCall → TableResult × Table) :
    Table → List TableCall → List TableResult
  | _, [] => []
  | table, call :: calls => (on table call).1 :: results on (on table call).2 calls

/-- What a call changes. -/
def changes : TableCall → List (Change Bytes Bytes)
  | set key value => [.set key value]
  | remove key => [.remove key]
  | contains _ | get _ _ | size => []

/-- Every default value for a key that is absent is a null pointer. -/
def NullDefaults : List (Change Bytes Bytes) → List TableCall → Prop
  | _, [] => True
  | before, call :: calls =>
      (∀ key defaultValue, call = .get key defaultValue → valuesAfter id before key = none →
        defaultValue = none) ∧
      NullDefaults (before ++ call.changes) calls

end TableCall

namespace StringTreeMap

theorem find?_insertEntry (key val other : Bytes) (items : List (Bytes × Bytes)) :
    ((insertEntry (fun _ new => new) key val items).find? fun item => item.1 = other).map
        Prod.snd =
      if other = key then some val else (items.find? fun item => item.1 = other).map Prod.snd := by
  induction items with
  | nil =>
      by_cases same : other = key
      · simp [insertEntry, same]
      · simp [insertEntry, same, Ne.symm same]
  | cons item items ih =>
      rw [insertEntry_cons]
      by_cases same : other = key
      · rw [if_pos same] at ih ⊢
        split
        · simp [same]
        · split
          · next after =>
              have apart : item.1 ≠ other := fun equal => after.ne (equal.trans same)
              rw [List.find?_cons_of_neg (by simpa using apart), ih]
          · next notBefore notAfter =>
              have equal : item.1 = other :=
                (le_antisymm (not_lt.mp notBefore) (not_lt.mp notAfter)).trans same.symm
              simp [equal]
      · rw [if_neg same] at ih ⊢
        split
        · rw [List.find?_cons_of_neg (by simpa using Ne.symm same)]
        · split
          · by_cases here : item.1 = other
            · simp [here]
            · rw [List.find?_cons_of_neg (by simpa using here), ih,
                List.find?_cons_of_neg (by simpa using here)]
          · next notBefore notAfter =>
              have equal : item.1 = key := le_antisymm (not_lt.mp notBefore) (not_lt.mp notAfter)
              have apart : item.1 ≠ other := fun here => same (here.symm.trans equal)
              rw [List.find?_cons_of_neg (by simpa using apart),
                List.find?_cons_of_neg (by simpa using apart)]

theorem find_set (map : StringTreeMap) (key val other : Bytes) :
    (map.set key val).find other = if other = key then some val else map.find other :=
  find?_insertEntry key val other map.items

theorem find_remove (map : StringTreeMap) (key other : Bytes) :
    (map.remove key).find other = if other = key then none else map.find other := by
  rw [find, find, remove, List.find?_filter]
  split
  · next same =>
      rw [List.find?_eq_none.mpr (by simp [same]), Option.map_none]
  · next apart =>
      congr 2
      funext item
      by_cases here : item.1 = other
      · simp [here, apart]
      · simp [here]

theorem nodup_keys (map : StringTreeMap) : (map.items.map Prod.fst).Nodup :=
  List.pairwise_map.mpr (map.ordered.imp fun less => less.ne)

theorem mem_keys_iff (map : StringTreeMap) (key : Bytes) :
    key ∈ map.items.map Prod.fst ↔ (map.find key).isSome := by
  simp [find, List.find?_isSome]

/-- `remove` erases one item if there is one. -/
theorem removes_eq (map : StringTreeMap) (key : Bytes) : map.removes key = map.contains key := by
  have counted : (map.items.filter fun item => item.1 = key).length =
      (map.items.map Prod.fst).count key := by
    rw [List.count, List.countP_map, List.countP_eq_length_filter]
    refine congrArg List.length (List.filter_congr ?_)
    intro item _
    rw [Function.comp_apply, beq_eq_decide]
  have found : map.contains key = true ↔ key ∈ map.items.map Prod.fst :=
    (map.mem_keys_iff key).symm
  rw [Bool.eq_iff_iff, removes, counted, found, decide_eq_true_iff]
  constructor
  · intro one
    exact List.count_pos_iff.mp (by omega)
  · exact List.count_eq_one_of_mem map.nodup_keys

/-- The map holds the values that the changes leave. -/
def Holds (changes : List (Change Bytes Bytes)) (map : StringTreeMap) : Prop :=
  ∀ key, map.find key = valuesAfter id changes key

end StringTreeMap

namespace TableCall

theorem tells_equal (x y : Bytes) : (x == y) = true ↔ id x = id y := beq_iff_eq

/-- Tables that hold the same changes. -/
structure Agree (changes : List (Change Bytes Bytes)) (table : StringArray)
    (map : StringTreeMap) : Prop where
  table : table.Holds id changes
  map : map.Holds changes

variable {changes : List (Change Bytes Bytes)} {table : StringArray} {map : StringTreeMap}

/-- Tables that agree have entries under the same keys. -/
theorem Agree.length (agree : Agree changes table map) :
    table.items.length = map.items.length := by
  have distinct : table.keys.Nodup := by
    refine List.pairwise_map.mpr (table.distinct.imp fun {earlier later} apart same => ?_)
    exact Bool.false_ne_true (apart.symm.trans (beq_iff_eq.mpr same))
  have members : ∀ key, key ∈ table.keys ↔ key ∈ map.items.map Prod.fst := by
    intro key
    have there : key ∈ table.keys ↔ (table.find key).isSome := by
      simp [AssociativeStringArray.keys, AssociativeStringArray.find, List.find?_isSome]
    rw [there, map.mem_keys_iff, agree.table.find, agree.map]
    rfl
  have perm := (List.perm_ext_iff_of_nodup distinct map.nodup_keys).mpr members
  simpa [AssociativeStringArray.keys] using perm.length_eq

/-- A call keeps the tables in agreement. -/
theorem Agree.call (agree : Agree changes table map) (call : TableCall) :
    Agree (changes ++ call.changes) (call.onArray table).2 (call.onMap map).2 := by
  cases call with
  | set key value =>
      refine ⟨agree.table.change tells_equal (.set key value), ?_⟩
      intro other
      rw [TableCall.changes, valuesAfter_snoc, Change.values, Function.update_apply, ← agree.map]
      exact map.find_set key value other
  | remove key =>
      refine ⟨agree.table.change tells_equal (.remove key), ?_⟩
      intro other
      rw [TableCall.changes, valuesAfter_snoc, Change.values, Function.update_apply, ← agree.map]
      exact map.find_remove key other
  | contains key => exact (List.append_nil changes).symm ▸ agree
  | get key defaultValue => exact (List.append_nil changes).symm ▸ agree
  | size => exact (List.append_nil changes).symm ▸ agree

/-- The results of a call differ only where a default value is ignored. -/
theorem Agree.result_iff (agree : Agree changes table map) (call : TableCall) :
    (call.onArray table).1 = (call.onMap map).1 ↔
      ∀ key defaultValue, call = .get key defaultValue → valuesAfter id changes key = none →
        defaultValue = none := by
  have contained : ∀ key, table.contains key = map.contains key := by
    intro key
    rw [AssociativeStringArray.contains_eq_find, StringTreeMap.contains, agree.table.find,
      agree.map]
    rfl
  cases call with
  | set key value => simp [onArray, onMap]
  | remove key => simp [onArray, onMap, map.removes_eq, contained]
  | contains key => simp [onArray, onMap, contained]
  | get key defaultValue =>
      have found : map.get key defaultValue = map.find key := by
        rw [StringTreeMap.get]
        cases map.find key <;> rfl
      have same : table.find key = map.find key := by
        rw [agree.table.find, agree.map]
        rfl
      simp only [onArray, onMap, found, same, TableResult.text.injEq, TableCall.get.injEq]
      rw [agree.map]
      cases held : valuesAfter id changes key with
      | none =>
          rw [Option.none_or]
          constructor
          · rintro absent _ _ ⟨rfl, rfl⟩ -
            exact absent
          · exact fun ignored => ignored key defaultValue ⟨rfl, rfl⟩ held
      | some value =>
          refine iff_of_true Option.some_or ?_
          rintro _ _ ⟨rfl, rfl⟩ absent
          cases held.symm.trans absent
  | size => simp [onArray, onMap, AssociativeStringArray.size, StringTreeMap.size, agree.length]

theorem Agree.results_iff (agree : Agree changes table map) (calls : List TableCall) :
    results (fun table call => call.onArray table) table calls =
        results (fun map call => call.onMap map) map calls ↔
      NullDefaults changes calls := by
  induction calls generalizing changes table map with
  | nil => exact iff_of_true rfl trivial
  | cons call calls ih =>
      rw [results, results, List.cons.injEq, NullDefaults, agree.result_iff call,
        ih (agree.call call)]

end TableCall

/-- **The two tables return the same results** if and only if every default value that is
given for an absent key is a null pointer. -/
theorem string_tables_agree_iff (calls : List TableCall) :
    TableCall.results (fun table call => call.onArray table)
        (AssociativeStringArray.empty fun x y => x == y) calls =
      TableCall.results (fun map call => call.onMap map) StringTreeMap.create calls ↔
      TableCall.NullDefaults [] calls := by
  have agree : TableCall.Agree [] (AssociativeStringArray.empty fun x y => x == y)
      StringTreeMap.create := ⟨AssociativeStringArray.holds_empty, fun _ => rfl⟩
  exact agree.results_iff calls

/-- The tree map ignores the default value. -/
theorem default_is_ignored :
    TableCall.results (fun table call => call.onArray table)
        (AssociativeStringArray.empty fun x y => x == y)
        [.get (ascii "key") (some (ascii "value"))] ≠
      TableCall.results (fun map call => call.onMap map) StringTreeMap.create
        [.get (ascii "key") (some (ascii "value"))] := by
  decide +kernel

end Xul
