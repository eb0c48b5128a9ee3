import Xul.Foundation.WeakOrder
import Xul.Std.Strings
import Mathlib.Data.List.Lex

/-!
# Floors of keys

`maps::find_lower_floor` steps back from the upper bound of a key, to the last entry that is not
greater.  `multimaps::max_less_than_or_equal` looks at the lower bound and compares its key with the
one it looks for by `!=`, where the container compares keys by its order only.  An entry whose key
is equivalent but not equal fails the assertion behind that (`findsFloors_iff`).
-/

set_option autoImplicit false

namespace Xul

open Foundation

/-- `std::multimap`, as the sequence of its entries. -/
structure Multimap (α β : Type*) (order : Comparator α) where
  entries : List (α × β)
  sorted : Sorted order entries

/-- `std::map`, in which every key is less than the next one. -/
structure StdMap (α β : Type*) (order : Comparator α) where
  entries : List (α × β)
  ascending : entries.Pairwise fun earlier later => order.less earlier.1 later.1 = true

variable {α β : Type*} {order : Comparator α}

/-- The position before one, where the assertion holds that its key is less. -/
def stepBack (order : Comparator α) (entries : List (α × β)) (key : α) (pos : Nat) : Option Nat :=
  match entries[pos - 1]? with
  | none => none
  | some entry => if order.less entry.1 key then some (pos - 1) else none

/-- `max_less_than_or_equal`: a position, which is behind the entries for `end`.  There is none
where an assertion fails. -/
def Multimap.maxLessThanOrEqual [DecidableEq α] (coll : Multimap α β order) (key : α) :
    Option Nat :=
  let lowerBound := lowerBound order coll.entries key
  match coll.entries[lowerBound]? with
  | none =>
      if coll.entries ≠ [] then stepBack order coll.entries key lowerBound else some lowerBound
  | some entry =>
      if entry.1 ≠ key then
        if order.less key entry.1 = false then none
        else if lowerBound = 0 then some coll.entries.length
        else stepBack order coll.entries key lowerBound
      else some lowerBound

def StdMap.findLowerFloor (coll : StdMap α β order) (key : α) : Nat :=
  let iter := upperBound order coll.entries key
  if iter = 0 then coll.entries.length else iter - 1

/-- The position is the end if every key is greater, and else that of a key that is not greater,
with none between them. -/
structure IsFloor (order : Comparator α) (entries : List (α × β)) (key : α) (pos : Nat) : Prop where
  atEnd : pos = entries.length ↔ ∀ entry ∈ entries, order.less key entry.1 = true
  atEntry : pos ≠ entries.length → ∃ entry, entries[pos]? = some entry ∧
    order.less key entry.1 = false ∧
    ∀ other ∈ entries, ¬ (order.less entry.1 other.1 = true ∧ order.less other.1 key = true)

/-- Both lookups find the floor of a key. -/
def FindsFloors [DecidableEq α] (coll : Multimap α β order) (map : StdMap α β order) (key : α) :
    Prop :=
  (∃ pos, coll.maxLessThanOrEqual key = some pos ∧ IsFloor order coll.entries key pos) ∧
    IsFloor order map.entries key (map.findLowerFloor key)

section

variable {entries below rest : List (α × β)} {key : α}

theorem StdMap.sorted (map : StdMap α β order) : Sorted order map.entries :=
  map.ascending.imp fun less => order.asymm less

theorem isFloor_end (greater : ∀ entry ∈ entries, order.less key entry.1 = true) :
    IsFloor order entries key entries.length :=
  ⟨iff_of_true rfl greater, fun apart => absurd rfl apart⟩

/-- An entry is the floor if it is not greater, and what is greater than it is greater than the
key. -/
theorem isFloor_of_greatest {pos : Nat} {entry : α × β} (isEntry : entries[pos]? = some entry)
    (notGreater : order.less key entry.1 = false)
    (greatest : ∀ other ∈ entries, order.less entry.1 other.1 = true →
      order.less key other.1 = true) : IsFloor order entries key pos := by
  have inside : pos < entries.length := (List.getElem?_eq_some_iff.mp isEntry).1
  constructor
  · refine iff_of_false (Nat.ne_of_lt inside) ?_
    intro greater
    rw [greater entry (List.mem_of_getElem? isEntry)] at notGreater
    cases notGreater
  · intro _
    refine ⟨entry, isEntry, notGreater, ?_⟩
    rintro other member ⟨greater, less⟩
    have turn := order.asymm less
    rw [greatest other member greater] at turn
    cases turn

/-- The last of the entries that are not greater than a key, in front of some that are. -/
theorem isFloor_last (sorted : Sorted order (below ++ rest)) (nonempty : below ≠ [])
    (notGreater : ∀ entry ∈ below, order.less key entry.1 = false)
    (greater : ∀ entry ∈ rest, order.less key entry.1 = true) :
    ∃ last, (below ++ rest)[below.length - 1]? = some last ∧ last ∈ below ∧
      IsFloor order (below ++ rest) key (below.length - 1) := by
  have positive := List.length_pos_of_ne_nil nonempty
  have isLast := List.getLast?_eq_some_getLast nonempty
  have found : (below ++ rest)[below.length - 1]? = some (below.getLast nonempty) := by
    rw [List.getElem?_append_left (by omega), ← List.getLast?_eq_getElem?, isLast]
  have member := List.getLast_mem nonempty
  refine ⟨_, found, member, isFloor_of_greatest found (notGreater _ member) ?_⟩
  intro other inside more
  obtain before | behind := List.mem_append.mp inside
  · rw [not_less_of_getLast? (List.pairwise_append.mp sorted).1 isLast before] at more
    cases more
  · exact greater other behind

/-- **`find_lower_floor`** finds the floor. -/
theorem isFloor_findLowerFloor (map : StdMap α β order) (key : α) :
    IsFloor order map.entries key (map.findLowerFloor key) := by
  obtain ⟨below, rest, whole, index, notGreater, greater⟩ := exists_upperBound map.sorted key
  have sorted := map.sorted
  rw [StdMap.findLowerFloor, index]
  rw [whole] at sorted ⊢
  by_cases empty : below = []
  · subst empty
    exact isFloor_end greater
  · have positive := List.length_pos_of_ne_nil empty
    obtain ⟨-, -, -, isFloor⟩ := isFloor_last sorted empty notGreater greater
    rw [if_neg (by omega)]
    exact isFloor

theorem stepBack_of_below (nonempty : below ≠ [])
    (less : ∀ entry ∈ below, order.less entry.1 key = true)
    (greater : ∀ entry ∈ rest, order.less key entry.1 = true)
    (sorted : Sorted order (below ++ rest)) :
    stepBack order (below ++ rest) key below.length = some (below.length - 1) ∧
      IsFloor order (below ++ rest) key (below.length - 1) := by
  obtain ⟨last, found, member, isFloor⟩ := isFloor_last sorted nonempty
    (fun entry inside => order.asymm (less entry inside)) greater
  refine ⟨?_, isFloor⟩
  rw [stepBack, found]
  exact if_pos (less last member)

end

/-- The first of the entries that are not less than the key has the key itself, if it is equivalent
to it. -/
def FirstIsEqual (order : Comparator α) (entries : List (α × β)) (key : α) : Prop :=
  ∀ front entry back, entries = front ++ entry :: back →
    (∀ earlier ∈ front, order.less earlier.1 key = true) → order.less entry.1 key = false →
    order.less key entry.1 = false → entry.1 = key

section

variable {below rest : List (α × β)} {entry : α × β} {key : α}

/-- The entries that are less than the key end where one is not. -/
theorem takeWhile_less (less : ∀ earlier ∈ below, order.less earlier.1 key = true)
    (notLess : order.less entry.1 key = false) :
    (below ++ entry :: rest).takeWhile (fun earlier => order.less earlier.1 key) = below := by
  rw [List.takeWhile_append_of_pos less, List.takeWhile_cons, notLess]
  exact List.append_nil below

theorem firstIsEqual_of_below (less : ∀ earlier ∈ below, order.less earlier.1 key = true) :
    FirstIsEqual order below key := by
  rintro front entry back rfl - notLess -
  rw [less entry (List.mem_append_right _ List.mem_cons_self)] at notLess
  cases notLess

theorem firstIsEqual_iff (less : ∀ earlier ∈ below, order.less earlier.1 key = true)
    (notLess : order.less entry.1 key = false) :
    FirstIsEqual order (below ++ entry :: rest) key ↔
      (order.less key entry.1 = false → entry.1 = key) := by
  constructor
  · exact fun isEqual => isEqual below entry rest rfl less notLess
  · intro isEqual front first back whole earlier notEarlier
    have cut := @takeWhile_less α β order front back first key earlier notEarlier
    rw [← whole, takeWhile_less less notLess] at cut
    subst cut
    obtain ⟨rfl, -⟩ := List.cons.inj (List.append_cancel_left whole)
    exact isEqual

end

/-- **The floors are found** as long as the first entry equivalent to the key is equal to it. -/
theorem findsFloors_iff [DecidableEq α] (coll : Multimap α β order) (map : StdMap α β order)
    (key : α) : FindsFloors coll map key ↔ FirstIsEqual order coll.entries key := by
  obtain ⟨below, rest, whole, index, less, notLess⟩ := exists_lowerBound coll.sorted key
  have sorted := coll.sorted
  rw [FindsFloors, and_iff_left (isFloor_findLowerFloor map key), Multimap.maxLessThanOrEqual,
    index]
  rw [whole] at sorted ⊢
  cases rest with
  | nil =>
      have absent : (below ++ [])[below.length]? = none := by simp
      rw [absent, List.append_nil]
      refine iff_of_true ?_ (firstIsEqual_of_below less)
      by_cases empty : below = []
      · subst empty
        exact ⟨0, rfl, isFloor_end (List.forall_mem_nil _)⟩
      · have found := stepBack_of_below empty less (List.forall_mem_nil _) sorted
        rw [List.append_nil] at found
        rw [if_pos empty]
        exact ⟨_, found⟩
  | cons entry rest =>
      obtain ⟨first, -⟩ := List.forall_mem_cons.mp notLess
      have isEntry : (below ++ entry :: rest)[below.length]? = some entry := by simp
      rw [isEntry, firstIsEqual_iff less first]
      dsimp only
      by_cases same : entry.1 = key
      · rw [if_neg (not_not_intro same)]
        refine iff_of_true ⟨_, rfl, isFloor_of_greatest isEntry ?_ ?_⟩ fun _ => same
        · rw [same, order.irrefl]
        · exact fun other _ greater => same ▸ greater
      · rw [if_pos same]
        by_cases greater : order.less key entry.1 = true
        · have behind : ∀ other ∈ entry :: rest, order.less key other.1 = true := by
            have behindEntry := (List.pairwise_append.mp sorted).2.1
            refine List.forall_mem_cons.mpr ⟨greater, fun other later => ?_⟩
            exact order.less_of_less_of_not_less greater
              ((List.pairwise_cons.mp behindEntry).1 other later)
          have differs : ¬ order.less key entry.1 = false := by
            rw [greater]
            exact Bool.false_ne_true.symm
          rw [if_neg differs]
          refine iff_of_true ?_ fun equivalent => absurd equivalent differs
          by_cases empty : below = []
          · subst empty
            exact ⟨_, rfl, isFloor_end behind⟩
          · have positive := List.length_pos_of_ne_nil empty
            rw [if_neg (by omega)]
            exact ⟨_, stepBack_of_below empty less behind sorted⟩
        · rw [Bool.not_eq_true] at greater
          rw [if_pos greater]
          refine iff_of_false ?_ fun isEqual => same (isEqual greater)
          rintro ⟨pos, failed, -⟩
          cases failed

/-- `istring_less` -/
def istringLess : Comparator Bytes where
  less x y := toLowerCopy x < toLowerCopy y
  irrefl x := decide_eq_false (lt_irrefl _)
  trans := by
    intro x y z less more
    rw [decide_eq_true_eq] at less more ⊢
    exact lt_trans less more
  equivalence := by
    intro x y z notLess notGreater less greater
    rw [decide_eq_false_iff_not] at notLess notGreater less greater ⊢
    rw [decide_eq_false_iff_not, le_antisymm (not_lt.mp notGreater) (not_lt.mp notLess)]
    exact ⟨less, greater⟩

/-- A key that differs from one that is there in its case. -/
theorem not_findsFloors_case :
    ¬ FindsFloors (⟨[(ascii "a", ())], List.pairwise_singleton _ _⟩ :
      Multimap Bytes Unit istringLess) ⟨[], List.Pairwise.nil⟩ (ascii "A") := by
  rintro ⟨⟨pos, found, -⟩, -⟩
  have failed : Multimap.maxLessThanOrEqual (⟨[(ascii "a", ())], List.pairwise_singleton _ _⟩ :
      Multimap Bytes Unit istringLess) (ascii "A") = none := by decide +kernel
  rw [failed] at found
  cases found

end Xul
