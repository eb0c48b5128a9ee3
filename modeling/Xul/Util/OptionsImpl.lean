import Xul.Std.Bytes
import Mathlib.Logic.Function.Basic
import Mathlib.Logic.Function.Iterate

/-!
# Trees of options

A node of options has a table of items and one of nodes below it.  `options_impl::set` looks for the
whole name among the items, and where that is none, for what is behind the first dot of the name in
the node that is named in front of it.  A name leads to one option at most (`Addresses.unique`), and
that is the one whose `parse` is called.  `reset` goes through both tables.

Options are told apart by an index, so that one may be registered in several places; what is in one
is of any type, with a `parse` and a `reset` of it.  Names are C strings.
-/

set_option autoImplicit false

namespace Xul

mutual

/-- `options_impl`, with its tables in the order of their keys. -/
inductive OptionsImpl
  | mk (items : List (Bytes × Nat)) (nodes : OptionsNodes)

/-- The table of the nodes below a node. -/
inductive OptionsNodes
  | nil
  | cons (name : Bytes) (node : OptionsImpl) (nodes : OptionsNodes)

end

namespace OptionsNodes

/-- The node is in the table. -/
def Has (child : OptionsImpl) : OptionsNodes → Prop
  | nil => False
  | cons _ node nodes => node = child ∨ Has child nodes

/-- `m_nodes->get_ref` -/
def getRef (name : Bytes) : OptionsNodes → Option OptionsImpl
  | nil => none
  | cons other node nodes => if other = name then some node else getRef name nodes

end OptionsNodes

namespace OptionsImpl

/-- `m_items->get_ref` -/
def getItem (name : Bytes) : OptionsImpl → Option Nat
  | mk items _ => items.lookup name

def getNode (name : Bytes) : OptionsImpl → Option OptionsImpl
  | mk _ nodes => nodes.getRef name

def separator : UInt8 := 46

/-- What is in front of the first dot of a name, and what is behind it. -/
def splitName (namestr : Bytes) : Option (Bytes × Bytes) :=
  let pos := namestr.idxOf separator
  if pos = namestr.length then none else some (namestr.take pos, namestr.drop (pos + 1))

theorem splitName_append {nodename : Bytes} (plain : separator ∉ nodename) (rest : Bytes) :
    splitName (nodename ++ separator :: rest) = some (nodename, rest) := by
  have pos : (nodename ++ separator :: rest).idxOf separator = nodename.length := by
    rw [List.idxOf_append_of_notMem plain, List.idxOf_cons_self, Nat.add_zero]
  have inside : nodename.length ≠ (nodename ++ separator :: rest).length := by
    rw [List.length_append, List.length_cons]
    omega
  rw [splitName, pos, if_neg inside, List.take_left, List.drop_append]
  simp

theorem splitName_eq_some_iff {namestr nodename rest : Bytes} :
    splitName namestr = some (nodename, rest) ↔
      namestr = nodename ++ separator :: rest ∧ separator ∉ nodename := by
  constructor
  · intro isSplit
    have member : separator ∈ namestr := by
      by_contra absent
      rw [splitName, List.idxOf_eq_length_iff.mpr absent] at isSplit
      simp at isSplit
    obtain ⟨before, behind, rfl, plain⟩ := List.eq_append_cons_of_mem member
    rw [splitName_append plain] at isSplit
    obtain ⟨rfl, rfl⟩ := Prod.mk.inj (Option.some.inj isSplit)
    exact ⟨rfl, plain⟩
  · rintro ⟨rfl, plain⟩
    exact splitName_append plain rest

variable {State : Type*}

/-- `set`, of a name that is not null, on what is in the options. -/
def set (parse : State → Option Bytes → Bool × State) (val : Option Bytes) (tree : OptionsImpl)
    (name : Bytes) (heap : Nat → State) : Bool × (Nat → State) :=
  match tree.getItem name with
  | some opt =>
      let parsed := parse (heap opt) val
      (parsed.1, Function.update heap opt parsed.2)
  | none =>
      match _isSplit : splitName name with
      | none => (false, heap)
      | some (nodename, nodeItemName) =>
          match tree.getNode nodename with
          | none => (false, heap)
          | some opts => set parse val opts nodeItemName heap
termination_by name.length
decreasing_by
  rw [(splitName_eq_some_iff.mp _isSplit).1, List.length_append, List.length_cons]
  omega

def resetItems (resetOption : State → State) : List (Bytes × Nat) → (Nat → State) → Nat → State
  | [], heap => heap
  | (_, opt) :: items, heap =>
      resetItems resetOption items (Function.update heap opt (resetOption (heap opt)))

mutual

def reset (resetOption : State → State) : OptionsImpl → (Nat → State) → Nat → State
  | mk items nodes, heap => resetItems resetOption items (resetNodes resetOption nodes heap)

def resetNodes (resetOption : State → State) : OptionsNodes → (Nat → State) → Nat → State
  | .nil, heap => heap
  | .cons _ node nodes, heap => resetNodes resetOption nodes (reset resetOption node heap)

end

/-! ## What a name leads to -/

/-- The option that a name leads to. -/
inductive Addresses : OptionsImpl → Bytes → Nat → Prop
  | item {tree : OptionsImpl} {name : Bytes} {opt : Nat} (isItem : tree.getItem name = some opt) :
      Addresses tree name opt
  | node {tree child : OptionsImpl} {nodename rest : Bytes} {opt : Nat}
      (noItem : tree.getItem (nodename ++ separator :: rest) = none)
      (plain : separator ∉ nodename) (isNode : tree.getNode nodename = some child)
      (leads : Addresses child rest opt) :
      Addresses tree (nodename ++ separator :: rest) opt

variable {tree : OptionsImpl} {name : Bytes} {opt : Nat}

/-- One step along the name. -/
theorem addresses_iff :
    Addresses tree name opt ↔
      tree.getItem name = some opt ∨
        tree.getItem name = none ∧ ∃ nodename rest child, splitName name = some (nodename, rest) ∧
          tree.getNode nodename = some child ∧ Addresses child rest opt := by
  constructor
  · intro leads
    cases leads with
    | item isItem => exact .inl isItem
    | node noItem plain isNode leads =>
        exact .inr ⟨noItem, _, _, _, splitName_append plain _, isNode, leads⟩
  · rintro (isItem | ⟨noItem, nodename, rest, child, isSplit, isNode, leads⟩)
    · exact .item isItem
    · obtain ⟨rfl, plain⟩ := splitName_eq_some_iff.mp isSplit
      exact .node noItem plain isNode leads

theorem Addresses.unique {other : Nat} (leads : Addresses tree name opt)
    (leadsToo : Addresses tree name other) : other = opt := by
  induction leads with
  | item isItem =>
      obtain isOther | ⟨noItem, -⟩ := addresses_iff.mp leadsToo
      · exact Option.some.inj (isOther.symm.trans isItem)
      · rw [isItem] at noItem
        cases noItem
  | node noItem plain isNode leads ih =>
      obtain isOther | ⟨-, nodename, rest, child, isSplit, isChild, further⟩ :=
        addresses_iff.mp leadsToo
      · rw [noItem] at isOther
        cases isOther
      · rw [splitName_append plain] at isSplit
        obtain ⟨rfl, rfl⟩ := Prod.mk.inj (Option.some.inj isSplit)
        obtain rfl := Option.some.inj (isNode.symm.trans isChild)
        exact ih further

/-- The options of a tree. -/
inductive Reachable : OptionsImpl → Nat → Prop
  | item {items : List (Bytes × Nat)} {nodes : OptionsNodes} {name : Bytes} {opt : Nat}
      (isItem : (name, opt) ∈ items) : Reachable (mk items nodes) opt
  | node {items : List (Bytes × Nat)} {nodes : OptionsNodes} {child : OptionsImpl} {opt : Nat}
      (isNode : nodes.Has child) (inside : Reachable child opt) : Reachable (mk items nodes) opt

mutual

/-- The options in the order in which they are reset. -/
def options : OptionsImpl → List Nat
  | mk items nodes => optionsOf nodes ++ items.map Prod.snd

def optionsOf : OptionsNodes → List Nat
  | .nil => []
  | .cons _ node nodes => options node ++ optionsOf nodes

end

mutual

theorem mem_options_iff (opt : Nat) : ∀ tree : OptionsImpl, opt ∈ options tree ↔ Reachable tree opt
  | mk items nodes => by
      rw [options, List.mem_append, mem_optionsOf_iff opt nodes, List.mem_map]
      constructor
      · rintro (⟨child, isNode, inside⟩ | ⟨⟨name, found⟩, isItem, rfl⟩)
        · exact .node isNode inside
        · exact .item isItem
      · intro inside
        cases inside with
        | item isItem => exact .inr ⟨_, isItem, rfl⟩
        | node isNode inside => exact .inl ⟨_, isNode, inside⟩

theorem mem_optionsOf_iff (opt : Nat) : ∀ nodes : OptionsNodes,
    opt ∈ optionsOf nodes ↔ ∃ child, nodes.Has child ∧ Reachable child opt
  | .nil => by simp [optionsOf, OptionsNodes.Has]
  | .cons _ node nodes => by
      rw [optionsOf, List.mem_append, mem_options_iff opt node, mem_optionsOf_iff opt nodes]
      simp [OptionsNodes.Has, or_and_right, exists_or]

end

/-- Options are reset one after the other. -/
def resetAll (resetOption : State → State) (opts : List Nat) (heap : Nat → State) : Nat → State :=
  opts.foldl (fun heap opt => Function.update heap opt (resetOption (heap opt))) heap

theorem resetItems_eq (resetOption : State → State) (items : List (Bytes × Nat))
    (heap : Nat → State) :
    resetItems resetOption items heap = resetAll resetOption (items.map Prod.snd) heap := by
  induction items generalizing heap with
  | nil => rfl
  | cons item items ih =>
      obtain ⟨name, opt⟩ := item
      rw [resetItems, ih]
      rfl

mutual

theorem reset_eq (resetOption : State → State) : ∀ (tree : OptionsImpl) (heap : Nat → State),
    reset resetOption tree heap = resetAll resetOption (options tree) heap
  | mk items nodes, heap => by
      rw [reset, options, resetNodes_eq resetOption nodes heap, resetItems_eq, resetAll, resetAll,
        resetAll, List.foldl_append]

theorem resetNodes_eq (resetOption : State → State) :
    ∀ (nodes : OptionsNodes) (heap : Nat → State),
      resetNodes resetOption nodes heap = resetAll resetOption (optionsOf nodes) heap
  | .nil, _ => rfl
  | .cons _ node nodes, heap => by
      rw [resetNodes, optionsOf, reset_eq resetOption node heap, resetNodes_eq, resetAll, resetAll,
        resetAll, List.foldl_append]

end

end OptionsImpl

end Xul
