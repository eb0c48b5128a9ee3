import Mathlib.Data.List.Nodup

/-!
# Entries that are worked through by their keys

Entries with distinct keys change a state one after the other.  A part of the state that only the
entry with one key changes, and that alone decides what becomes of it, does not depend on their
order (`get_foldl_perm`).
-/

set_option autoImplicit false

namespace Foundation

variable {Key Entry State Value : Type*}

theorem key_ne_of_nodup {key : Entry → Key} {entry : Entry} {entries : List Entry}
    (distinct : ((entry :: entries).map key).Nodup) :
    ∀ other ∈ entries, key other ≠ key entry := by
  rw [List.map_cons, List.nodup_cons] at distinct
  intro other member same
  exact distinct.1 (same ▸ List.mem_map_of_mem member)

variable [DecidableEq Key]

/-- Of the entries of a list, only one with the key `own` changes the part that `get` reads. -/
def Owned (key : Entry → Key) (own : Key) (step : State → Entry → State) (get : State → Value)
    (act : Entry → Value → Value) (entries : List Entry) : Prop :=
  ∀ entry ∈ entries, ∀ state,
    get (step state entry) = if key entry = own then act entry (get state) else get state

variable {key : Entry → Key} {own : Key} {step : State → Entry → State} {get : State → Value}
  {act : Entry → Value → Value} {entries other : List Entry}

theorem Owned.of_subset (owned : Owned key own step get act entries) (subset : other ⊆ entries) :
    Owned key own step get act other :=
  fun entry member => owned entry (subset member)

theorem get_foldl_eq (owned : Owned key own step get act entries) (state : State) :
    get (entries.foldl step state) =
      entries.foldl (fun value entry => if key entry = own then act entry value else value)
        (get state) := by
  induction entries generalizing state with
  | nil => rfl
  | cons entry entries ih =>
      obtain ⟨first, rest⟩ := List.forall_mem_cons.mp owned
      rw [List.foldl_cons, List.foldl_cons, ih rest, first]

/-- **The order of the entries** does not matter. -/
theorem get_foldl_perm (owned : Owned key own step get act entries)
    (distinct : (entries.map key).Nodup) (perm : other.Perm entries) (state : State) :
    get (other.foldl step state) = get (entries.foldl step state) := by
  rw [get_foldl_eq owned, get_foldl_eq (owned.of_subset perm.subset)]
  refine (perm.symm.foldl_eq' ?_ _).symm
  intro first inFirst second inSecond value
  by_cases isFirst : key first = own
  · by_cases isSecond : key second = own
    · have same : first = second :=
        List.inj_on_of_nodup_map distinct inFirst inSecond (isFirst.trans isSecond.symm)
      rw [same]
    · simp only [isFirst, isSecond, if_true, if_false]
  · simp only [isFirst, if_false]

theorem get_foldl_of_absent (owned : Owned key own step get act entries)
    (absent : ∀ entry ∈ entries, key entry ≠ own) (state : State) :
    get (entries.foldl step state) = get state := by
  rw [get_foldl_eq owned]
  clear owned
  induction entries with
  | nil => rfl
  | cons entry entries ih =>
      obtain ⟨first, rest⟩ := List.forall_mem_cons.mp absent
      rw [List.foldl_cons, if_neg first, ih rest]

/-! ## What is made of the members -/

section

variable {α β : Type*} {first second : α → Option β} {members : List α} {a : α}

/-- What is made of the members comes in every order, with the members in another. -/
theorem exists_perm_filterMap_eq {made : List β} (perm : made.Perm (members.filterMap first)) :
    ∃ other : List α, other.Perm members ∧ other.filterMap first = made := by
  induction made generalizing members with
  | nil => exact ⟨members, List.Perm.refl _, perm.nil_eq.symm⟩
  | cons b made ih =>
      obtain ⟨a, inside, isMade⟩ := List.mem_filterMap.mp (perm.subset List.mem_cons_self)
      obtain ⟨before, after, rfl⟩ := List.append_of_mem inside
      have moved := perm.trans (List.perm_middle.filterMap first)
      rw [List.filterMap_cons_some isMade] at moved
      obtain ⟨other, isOther, rfl⟩ := ih moved.cons_inv
      refine ⟨a :: other, (isOther.cons a).trans List.perm_middle.symm, ?_⟩
      rw [List.filterMap_cons_some isMade]

theorem length_filterMap_le_of_none (none : first a = none)
    (others : ∀ member ∈ members, member ≠ a → first member = second member) :
    (members.filterMap first).length ≤ (members.filterMap second).length := by
  rw [List.length_filterMap_eq_countP, List.length_filterMap_eq_countP]
  refine List.countP_mono_left ?_
  intro member inside isSome
  have apart : member ≠ a := by
    rintro rfl
    rw [none] at isSome
    cases isSome
  exact others member inside apart ▸ isSome

/-- A list of what is made of each member shows it of every member, if it is known of the others. -/
theorem eq_of_filterMap_eq (inside : a ∈ members)
    (others : ∀ member ∈ members, member ≠ a → first member = second member)
    (same : members.filterMap first = members.filterMap second) : first a = second a := by
  obtain ⟨before, after, rfl, notBefore⟩ := List.eq_append_cons_of_mem inside
  have front : before.filterMap first = before.filterMap second := by
    refine List.filterMap_congr ?_
    intro member isBefore
    exact others member (List.mem_append_left _ isBefore)
      (ne_of_mem_of_not_mem isBefore notBefore)
  have behind : ∀ member ∈ after, member ≠ a → first member = second member :=
    fun member isAfter => others member (by simp [isAfter])
  rw [List.filterMap_append, List.filterMap_append, front, List.append_right_inj,
    List.filterMap_cons, List.filterMap_cons] at same
  cases inFirst : first a with
  | none =>
      cases inSecond : second a with
      | none => rfl
      | some found =>
          have shorter := length_filterMap_le_of_none inFirst behind
          have longer : (after.filterMap first).length = (after.filterMap second).length + 1 := by
            simpa only [inFirst, inSecond, List.length_cons] using congrArg List.length same
          omega
  | some found =>
      cases inSecond : second a with
      | none =>
          have shorter := length_filterMap_le_of_none inSecond
            fun member isAfter apart => (behind member isAfter apart).symm
          have longer : (after.filterMap first).length + 1 = (after.filterMap second).length := by
            simpa only [inFirst, inSecond, List.length_cons] using congrArg List.length same
          omega
      | some other =>
          rw [inFirst, inSecond] at same
          exact congrArg some (List.cons.inj same).1

end

end Foundation
