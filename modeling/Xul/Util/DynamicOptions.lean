import Xul.Foundation.SortedEntries
import Xul.Libs.PropertiesLogConfigurator
import Xul.Util.OptionsImpl

/-!
# Options that are made when they are set

`dynamic_options_impl::set` makes what a name with dots asks for: a node for what is in front of the
first dot, and an option for a name without one.  So a tree that has grown from nothing is a map from
whole names: every call answers and changes what the map would (`dynamic_options_refine`).  A
configuration file that is read into it leaves every name the value of the last line that sets it
(`parse_conf_last`).
-/

set_option autoImplicit false

namespace Xul

open Foundation OptionsImpl

/-- `string_value_item_parser`. -/
structure StringValueItem where
  name : Bytes
  value : Bytes
  defaultValue : Bytes
  isPublic : Bool
  freezed : Bool
  modified : Bool
deriving DecidableEq

namespace StringValueItem

def create (name defaultVal : Bytes) : StringValueItem :=
  ⟨name, defaultVal, defaultVal, true, false, false⟩

/-- `parse`, of a string that may be null. -/
def parse (item : StringValueItem) (s : Option Bytes) : Bool × StringValueItem :=
  if item.freezed then (false, item)
  else
    match s with
    | none => (false, item)
    | some s => (true, { item with value := trimSpaces s, modified := true })

def reset (item : StringValueItem) : StringValueItem :=
  { item with value := item.defaultValue, modified := false }

def markInitialized (item : StringValueItem) : StringValueItem := { item with modified := false }

def freeze (item : StringValueItem) : StringValueItem := { item with freezed := true }

def setPublic (isPublic : Bool) (item : StringValueItem) : StringValueItem :=
  { item with isPublic := isPublic }

end StringValueItem

/-- `dynamic_options_impl`, with its tables in the order of their keys. -/
inductive DynamicOptions
  | mk (items : List (Bytes × StringValueItem)) (nodes : List (Bytes × DynamicOptions))

namespace DynamicOptions

def create : DynamicOptions := mk [] []

def items : DynamicOptions → List (Bytes × StringValueItem)
  | mk items _ => items

def nodes : DynamicOptions → List (Bytes × DynamicOptions)
  | mk _ nodes => nodes

def getOption (tree : DynamicOptions) (name : Bytes) : Option StringValueItem :=
  tree.items.lookup name

def getOptions (tree : DynamicOptions) (name : Bytes) : Option DynamicOptions :=
  tree.nodes.lookup name

/-- `m_items->set` -/
def setItem (tree : DynamicOptions) (name : Bytes) (opt : StringValueItem) : DynamicOptions :=
  mk (insertEntry (fun _ new => new) name opt tree.items) tree.nodes

/-- `add_options` -/
def setNode (tree : DynamicOptions) (name : Bytes) (opts : DynamicOptions) : DynamicOptions :=
  mk tree.items (insertEntry (fun _ new => new) name opts tree.nodes)

/-- `set`, of a name that is not null. -/
def set (val : Option Bytes) (tree : DynamicOptions) (namestr : Bytes) : Bool × DynamicOptions :=
  match tree.getOption namestr with
  | some opt => ((opt.parse val).1, tree.setItem namestr (opt.parse val).2)
  | none =>
      match _isSplit : splitName namestr with
      | none =>
          let opt := (StringValueItem.create namestr []).reset
          ((opt.parse val).1, tree.setItem namestr (opt.parse val).2)
      | some (nodename, nodeItemName) =>
          let opts := (tree.getOptions nodename).getD create
          let after := set val opts nodeItemName
          (after.1, tree.setNode nodename after.2)
termination_by namestr.length
decreasing_by
  rw [(splitName_eq_some_iff.mp _isSplit).1, List.length_append, List.length_cons]
  omega

mutual

/-- `reset` and `mark_initialized` go through both tables. -/
def forEach (f : StringValueItem → StringValueItem) : DynamicOptions → DynamicOptions
  | mk items nodes => mk (items.map fun item => (item.1, f item.2)) (forEachNode f nodes)

def forEachNode (f : StringValueItem → StringValueItem) :
    List (Bytes × DynamicOptions) → List (Bytes × DynamicOptions)
  | [] => []
  | (name, opts) :: nodes => (name, forEach f opts) :: forEachNode f nodes

end

def reset (tree : DynamicOptions) : DynamicOptions := tree.forEach StringValueItem.reset

def markInitialized (tree : DynamicOptions) : DynamicOptions :=
  tree.forEach StringValueItem.markInitialized

/-- `freeze` and `set_public` change an option of the node itself, if it has one with the name. -/
def changeOption (f : StringValueItem → StringValueItem) (tree : DynamicOptions) (name : Bytes) :
    DynamicOptions :=
  match tree.getOption name with
  | some opt => tree.setItem name (f opt)
  | none => tree

/-! ## Whole names -/

/-- The option that a whole name leads to, by `get_options` for every part but the last. -/
def find (tree : DynamicOptions) (name : Bytes) : Option StringValueItem :=
  match _isSplit : splitName name with
  | none => tree.getOption name
  | some (nodename, rest) =>
      match tree.getOptions nodename with
      | none => none
      | some opts => find opts rest
termination_by name.length
decreasing_by
  rw [(splitName_eq_some_iff.mp _isSplit).1, List.length_append, List.length_cons]
  omega

/-- The name of an option in its node. -/
def lastPart (name : Bytes) : Bytes := name.rtakeWhile (· ≠ separator)

/-- No option has a name with a dot in its node. -/
inductive Plain : DynamicOptions → Prop
  | mk {items : List (Bytes × StringValueItem)} {nodes : List (Bytes × DynamicOptions)}
      (plainItems : ∀ item ∈ items, separator ∉ item.1)
      (plainNodes : ∀ node ∈ nodes, Plain node.2) : Plain (.mk items nodes)

theorem plain_create : Plain create :=
  .mk (fun _ member => absurd member List.not_mem_nil)
    fun _ member => absurd member List.not_mem_nil

variable {tree : DynamicOptions} {name nodename rest : Bytes}

theorem mem_of_lookup {α : Type*} {key : Bytes} {value : α} {entries : List (Bytes × α)}
    (found : entries.lookup key = some value) : (key, value) ∈ entries := by
  obtain ⟨before, behind, rfl, -⟩ := List.lookup_eq_some_iff.mp found
  exact List.mem_append_right _ List.mem_cons_self

theorem Plain.getOption {opt : StringValueItem} (plain : Plain tree)
    (isItem : tree.getOption name = some opt) : separator ∉ name := by
  cases plain with
  | mk plainItems _ => exact plainItems (name, opt) (mem_of_lookup isItem)

theorem Plain.getOptions {opts : DynamicOptions} (plain : Plain tree)
    (isNode : tree.getOptions name = some opts) : Plain opts := by
  cases plain with
  | mk _ plainNodes => exact plainNodes (name, opts) (mem_of_lookup isNode)

theorem Plain.setItem (plain : Plain tree) (noDot : separator ∉ name) (opt : StringValueItem) :
    Plain (tree.setItem name opt) := by
  cases plain with
  | mk plainItems plainNodes =>
      refine .mk ?_ plainNodes
      intro item member
      rcases mem_insertEntry member with earlier | ⟨same, -⟩
      · exact plainItems item earlier
      · rw [same]
        exact noDot

theorem Plain.setNode {opts : DynamicOptions} (plain : Plain tree) (name : Bytes)
    (plainOpts : Plain opts) : Plain (tree.setNode name opts) := by
  cases plain with
  | mk plainItems plainNodes =>
      refine .mk plainItems ?_
      intro node member
      rcases mem_insertEntry member with earlier | ⟨-, same | ⟨_, same⟩⟩
      · exact plainNodes node earlier
      · rw [same]
        exact plainOpts
      · rw [same]
        exact plainOpts

theorem splitName_eq_none_iff : splitName name = none ↔ separator ∉ name := by
  constructor
  · intro noSplit member
    obtain ⟨before, behind, rfl, plain⟩ := List.eq_append_cons_of_mem member
    rw [splitName_append plain] at noSplit
    cases noSplit
  · intro plain
    rw [splitName, List.idxOf_eq_length_iff.mpr plain]
    exact if_pos rfl

/-! ## What a whole name leads to -/

theorem find_of_plain (noDot : separator ∉ name) : tree.find name = tree.getOption name := by
  rw [find]
  split
  · rfl
  · next isSplit =>
    rw [splitName_eq_none_iff.mpr noDot] at isSplit
    cases isSplit

theorem find_append (plain : separator ∉ nodename) :
    tree.find (nodename ++ separator :: rest) =
      (tree.getOptions nodename).bind fun opts => opts.find rest := by
  have isSplit := splitName_append plain rest
  rw [find]
  split
  · next noSplit =>
    rw [noSplit] at isSplit
    cases isSplit
  · next first behind found =>
    rw [found] at isSplit
    obtain ⟨rfl, rfl⟩ := Prod.mk.inj (Option.some.inj isSplit)
    cases tree.getOptions first with
    | none => rfl
    | some opts => rfl

/-- A name is one for the node itself, or begins with the name of a node. -/
theorem plain_or_append (name : Bytes) :
    separator ∉ name ∨ ∃ nodename rest, separator ∉ nodename ∧
      name = nodename ++ separator :: rest := by
  by_cases member : separator ∈ name
  · obtain ⟨nodename, rest, same, plain⟩ := List.eq_append_cons_of_mem member
    exact .inr ⟨nodename, rest, plain, same⟩
  · exact .inl member

/-- What is in front of the first dot, and behind it. -/
theorem append_separator_inj {other behind : Bytes} (plain : separator ∉ nodename)
    (plainToo : separator ∉ other) :
    nodename ++ separator :: rest = other ++ separator :: behind ↔
      nodename = other ∧ rest = behind := by
  constructor
  · intro same
    have split := splitName_append plain rest
    rw [same, splitName_append plainToo behind] at split
    obtain ⟨rfl, rfl⟩ := Prod.mk.inj (Option.some.inj split)
    exact ⟨rfl, rfl⟩
  · rintro ⟨rfl, rfl⟩
    rfl

theorem find_create (name : Bytes) : create.find name = none := by
  rcases plain_or_append name with noDot | ⟨nodename, rest, plain, rfl⟩
  · rw [find_of_plain noDot]
    rfl
  · rw [find_append plain]
    rfl

theorem find_setItem (noDot : separator ∉ name) (opt : StringValueItem) (other : Bytes) :
    (tree.setItem name opt).find other = if other = name then some opt else tree.find other := by
  rcases plain_or_append other with otherPlain | ⟨nodename, rest, plain, rfl⟩
  · rw [find_of_plain otherPlain, find_of_plain otherPlain]
    exact lookup_insertEntry name other opt tree.items
  · have apart : nodename ++ separator :: rest ≠ name := by
      rintro rfl
      exact noDot (List.mem_append_right _ List.mem_cons_self)
    rw [if_neg apart, find_append plain, find_append plain]
    rfl

theorem find_setNode_of_plain {other : Bytes} (otherPlain : separator ∉ other)
    (opts : DynamicOptions) : (tree.setNode nodename opts).find other = tree.find other := by
  rw [find_of_plain otherPlain, find_of_plain otherPlain]
  rfl

theorem find_setNode {first : Bytes} (plain : separator ∉ first) (opts : DynamicOptions) :
    (tree.setNode nodename opts).find (first ++ separator :: rest) =
      if first = nodename then opts.find rest else tree.find (first ++ separator :: rest) := by
  have found : (tree.setNode nodename opts).getOptions first =
      if first = nodename then some opts else tree.getOptions first :=
    lookup_insertEntry nodename first opts tree.nodes
  rw [find_append plain, find_append plain, found]
  split
  · rfl
  · rfl

theorem lastPart_of_plain (noDot : separator ∉ name) : lastPart name = name := by
  rw [lastPart, List.rtakeWhile_eq_self_iff]
  intro c member
  exact decide_eq_true fun same => noDot (same ▸ member)

theorem takeWhile_append_cons {p : UInt8 → Bool} {c : UInt8} (stops : p c = false)
    (front behind : Bytes) : (front ++ c :: behind).takeWhile p = front.takeWhile p := by
  induction front with
  | nil => rw [List.nil_append, List.takeWhile_cons, stops]; rfl
  | cons first front ih => rw [List.cons_append, List.takeWhile_cons, List.takeWhile_cons, ih]

theorem lastPart_append (nodename rest : Bytes) :
    lastPart (nodename ++ separator :: rest) = lastPart rest := by
  have stops : decide (separator ≠ separator) = false := decide_eq_false fun apart => apart rfl
  rw [lastPart, List.rtakeWhile, List.reverse_append, List.reverse_cons, List.append_assoc,
    List.singleton_append, takeWhile_append_cons stops]
  rfl

/-- What an option that is not there is made as. -/
def made (name : Bytes) : StringValueItem := StringValueItem.create (lastPart name) []

theorem set_append {val : Option Bytes}
    (noItem : tree.getOption (nodename ++ separator :: rest) = none)
    (plainName : separator ∉ nodename) :
    set val tree (nodename ++ separator :: rest) =
      ((set val ((tree.getOptions nodename).getD create) rest).1,
        tree.setNode nodename (set val ((tree.getOptions nodename).getD create) rest).2) := by
  have isSplit := splitName_append plainName rest
  rw [set]
  split
  · next opt isItem =>
    rw [noItem] at isItem
    cases isItem
  · split
    · next noSplit =>
      rw [noSplit] at isSplit
      cases isSplit
    · next first behind found =>
      rw [found] at isSplit
      obtain ⟨rfl, rfl⟩ := Prod.mk.inj (Option.some.inj isSplit)
      rfl

/-- **What `set` does**: it parses the value into the option of the whole name, which it makes if
there is none, and leaves all others alone. -/
theorem set_eq (val : Option Bytes) (name : Bytes) : ∀ {tree : DynamicOptions}, Plain tree →
    (set val tree name).1 = (((tree.find name).getD (made name)).parse val).1 ∧
      Plain (set val tree name).2 ∧
      ∀ other, (set val tree name).2.find other =
        if other = name then some (((tree.find name).getD (made name)).parse val).2
        else tree.find other := by
  induction size : name.length using Nat.strong_induction_on generalizing name with
  | h count ih =>
  subst size
  intro tree plain
  rcases plain_or_append name with noDot | ⟨nodename, rest, plainName, rfl⟩
  · have found := @find_of_plain tree _ noDot
    rw [found, set]
    split
    · next opt isItem =>
      rw [isItem]
      exact ⟨rfl, plain.setItem noDot _, find_setItem noDot _⟩
    · next noItem =>
      rw [noItem]
      split
      · have same : (StringValueItem.create name []).reset = made name := by
          rw [made, lastPart_of_plain noDot]
          rfl
        rw [same]
        exact ⟨rfl, plain.setItem noDot _, find_setItem noDot _⟩
      · next isSplit =>
        rw [splitName_eq_none_iff.mpr noDot] at isSplit
        cases isSplit
  · have noItem : tree.getOption (nodename ++ separator :: rest) = none := by
      cases isItem : tree.getOption (nodename ++ separator :: rest) with
      | none => rfl
      | some opt =>
          exact absurd (List.mem_append_right _ List.mem_cons_self) (plain.getOption isItem)
    have shorter : rest.length < (nodename ++ separator :: rest).length := by
      rw [List.length_append, List.length_cons]
      omega
    have sameMade : made (nodename ++ separator :: rest) = made rest := by
      rw [made, made, lastPart_append]
    have plainOpts : Plain ((tree.getOptions nodename).getD create) := by
      cases isNode : tree.getOptions nodename with
      | none => exact plain_create
      | some opts => exact plain.getOptions isNode
    have below (behind : Bytes) : ((tree.getOptions nodename).getD create).find behind =
        tree.find (nodename ++ separator :: behind) := by
      rw [find_append plainName]
      cases tree.getOptions nodename with
      | none => exact find_create behind
      | some opts => rfl
    obtain ⟨answer, plainAfter, finds⟩ := ih rest.length shorter rest rfl plainOpts
    have step := @set_append _ _ _ val noItem plainName
    have first : (tree.find (nodename ++ separator :: rest)) =
      ((tree.getOptions nodename).getD create).find rest := (below rest).symm
    rw [step, sameMade, first]
    refine ⟨answer, plain.setNode nodename plainAfter, ?_⟩
    intro other
    rcases plain_or_append other with otherPlain | ⟨head, behind, plainHead, rfl⟩
    · have apart : other ≠ nodename ++ separator :: rest := by
        rintro rfl
        exact otherPlain (List.mem_append_right _ List.mem_cons_self)
      rw [if_neg apart]
      exact find_setNode_of_plain otherPlain _
    · show (tree.setNode nodename _).find _ = _
      rw [find_setNode plainHead]
      by_cases same : head = nodename
      · subst same
        rw [if_pos rfl, finds behind, below behind]
        by_cases equal : behind = rest
        · rw [if_pos equal, if_pos (by rw [equal])]
        · have apart : head ++ separator :: behind ≠ head ++ separator :: rest :=
            fun together => equal ((append_separator_inj plainHead plainName).mp together).2
          rw [if_neg equal, if_neg apart]
      · have apart : head ++ separator :: behind ≠ nodename ++ separator :: rest :=
          fun together => same ((append_separator_inj plainHead plainName).mp together).1
        rw [if_neg same, if_neg apart]

/-! ## All options of a tree -/

theorem lookup_forEachNode (f : StringValueItem → StringValueItem) (name : Bytes)
    (nodes : List (Bytes × DynamicOptions)) :
    (forEachNode f nodes).lookup name = (nodes.lookup name).map (forEach f) := by
  induction nodes with
  | nil => rw [forEachNode]; rfl
  | cons node nodes ih =>
      obtain ⟨first, opts⟩ := node
      rw [forEachNode]
      by_cases same : name = first
      · rw [same, List.lookup_cons_self, List.lookup_cons_self, Option.map_some]
      · rw [lookup_cons_of_ne same, lookup_cons_of_ne same, ih]

theorem lookup_map_item (f : StringValueItem → StringValueItem) (name : Bytes)
    (items : List (Bytes × StringValueItem)) :
    (items.map fun item => (item.1, f item.2)).lookup name = (items.lookup name).map f := by
  induction items with
  | nil => rfl
  | cons item items ih =>
      obtain ⟨first, opt⟩ := item
      rw [List.map_cons]
      by_cases same : name = first
      · rw [same, List.lookup_cons_self, List.lookup_cons_self, Option.map_some]
      · rw [lookup_cons_of_ne same, lookup_cons_of_ne same, ih]

theorem getOption_forEach (f : StringValueItem → StringValueItem) (tree : DynamicOptions)
    (name : Bytes) : (tree.forEach f).getOption name = (tree.getOption name).map f := by
  obtain ⟨items, nodes⟩ := tree
  rw [forEach]
  exact lookup_map_item f name items

theorem getOptions_forEach (f : StringValueItem → StringValueItem) (tree : DynamicOptions)
    (name : Bytes) : (tree.forEach f).getOptions name = (tree.getOptions name).map (forEach f) := by
  obtain ⟨items, nodes⟩ := tree
  rw [forEach]
  exact lookup_forEachNode f name nodes

theorem find_forEach (f : StringValueItem → StringValueItem) (name : Bytes) :
    ∀ tree : DynamicOptions, (tree.forEach f).find name = (tree.find name).map f := by
  induction size : name.length using Nat.strong_induction_on generalizing name with
  | h count ih =>
  subst size
  intro tree
  rcases plain_or_append name with noDot | ⟨nodename, rest, plain, rfl⟩
  · rw [find_of_plain noDot, find_of_plain noDot, getOption_forEach]
  · have shorter : rest.length < (nodename ++ separator :: rest).length := by
      rw [List.length_append, List.length_cons]
      omega
    rw [find_append plain, find_append plain, getOptions_forEach]
    cases tree.getOptions nodename with
    | none => rfl
    | some opts => exact ih rest.length shorter rest rfl opts

theorem mem_forEachNode {f : StringValueItem → StringValueItem} {node : Bytes × DynamicOptions}
    {nodes : List (Bytes × DynamicOptions)} (member : node ∈ forEachNode f nodes) :
    ∃ other ∈ nodes, node = (other.1, forEach f other.2) := by
  induction nodes with
  | nil => rw [forEachNode] at member; cases member
  | cons first nodes ih =>
      obtain ⟨name, opts⟩ := first
      rw [forEachNode] at member
      rcases List.mem_cons.mp member with same | later
      · exact ⟨(name, opts), List.mem_cons_self, same⟩
      · obtain ⟨other, isNode, same⟩ := ih later
        exact ⟨other, List.mem_cons_of_mem _ isNode, same⟩

theorem Plain.forEach (plain : Plain tree) (f : StringValueItem → StringValueItem) :
    Plain (tree.forEach f) := by
  induction plain with
  | mk plainItems _ ih =>
      rw [DynamicOptions.forEach]
      refine .mk ?_ ?_
      · intro item member
        obtain ⟨other, isItem, rfl⟩ := List.mem_map.mp member
        exact plainItems other isItem
      · intro node member
        obtain ⟨other, isNode, rfl⟩ := mem_forEachNode member
        exact ih other isNode

theorem Plain.changeOption (plain : Plain tree) (f : StringValueItem → StringValueItem)
    (name : Bytes) : Plain (tree.changeOption f name) := by
  rw [DynamicOptions.changeOption]
  split
  · next opt isItem => exact plain.setItem (plain.getOption isItem) _
  · exact plain

/-- Only an option of the node itself is changed. -/
theorem find_changeOption (plain : Plain tree) (f : StringValueItem → StringValueItem)
    (name other : Bytes) :
    (tree.changeOption f name).find other =
      if other = name ∧ separator ∉ name then (tree.find other).map f else tree.find other := by
  rw [changeOption]
  split
  · next opt isItem =>
    have noDot := plain.getOption isItem
    rw [find_setItem noDot]
    by_cases same : other = name
    · rw [if_pos same, if_pos ⟨same, noDot⟩, same, find_of_plain noDot, isItem]
      rfl
    · rw [if_neg same, if_neg fun both => same both.1]
  · next noItem =>
    split
    · next both =>
      rw [both.1, find_of_plain both.2, noItem]
      rfl
    · rfl

end DynamicOptions

/-! ## Runs -/

/-- What a program calls; names and values may be null. -/
inductive OptionsCall where
  | set (name val : Option Bytes)
  | reset
  | markInitialized
  | setPublic (name : Option Bytes) (isPublic : Bool)
  | freeze (name : Option Bytes)
deriving DecidableEq

namespace DynamicOptions

/-- The call on a tree, and what `set` answers. -/
def call (tree : DynamicOptions) : OptionsCall → Option Bool × DynamicOptions
  | .set none _ => (some false, tree)
  | .set (some name) val => (some (tree.set val name).1, (tree.set val name).2)
  | .reset => (none, tree.reset)
  | .markInitialized => (none, tree.markInitialized)
  | .setPublic none _ => (none, tree)
  | .setPublic (some name) isPublic =>
      (none, tree.changeOption (StringValueItem.setPublic isPublic) name)
  | .freeze none => (none, tree)
  | .freeze (some name) => (none, tree.changeOption StringValueItem.freeze name)

def run (tree : DynamicOptions) : List OptionsCall → List (Option Bool) × DynamicOptions
  | [] => ([], tree)
  | first :: calls =>
      let (answer, next) := tree.call first
      let (answers, last) := next.run calls
      (answer :: answers, last)

end DynamicOptions

/-- Options by their whole names. -/
abbrev OptionMap := Bytes → Option StringValueItem

namespace OptionMap

open DynamicOptions

/-- Changes the option with a name that has no dot, if there is one. -/
def change (f : StringValueItem → StringValueItem) (options : OptionMap) (name : Bytes) :
    OptionMap :=
  if separator ∈ name then options else Function.update options name ((options name).map f)

/-- The same call on a map: a name that is new is made, with an empty text as its value. -/
def call (options : OptionMap) : OptionsCall → Option Bool × OptionMap
  | .set none _ => (some false, options)
  | .set (some name) val =>
      let parsed := ((options name).getD (made name)).parse val
      (some parsed.1, Function.update options name (some parsed.2))
  | .reset => (none, fun name => (options name).map StringValueItem.reset)
  | .markInitialized => (none, fun name => (options name).map StringValueItem.markInitialized)
  | .setPublic none _ => (none, options)
  | .setPublic (some name) isPublic =>
      (none, options.change (StringValueItem.setPublic isPublic) name)
  | .freeze none => (none, options)
  | .freeze (some name) => (none, options.change StringValueItem.freeze name)

def run (options : OptionMap) : List OptionsCall → List (Option Bool) × OptionMap
  | [] => ([], options)
  | first :: calls =>
      let (answer, next) := options.call first
      let (answers, last) := next.run calls
      (answer :: answers, last)

end OptionMap

namespace DynamicOptions

theorem find_changeOption_eq_change {tree : DynamicOptions} (plain : Plain tree)
    (f : StringValueItem → StringValueItem) (name : Bytes) :
    (tree.changeOption f name).find = OptionMap.change f tree.find name := by
  funext other
  rw [find_changeOption plain, OptionMap.change]
  by_cases dot : separator ∈ name
  · rw [if_pos dot, if_neg fun both => both.2 dot]
  · rw [if_neg dot, Function.update_apply]
    by_cases same : other = name
    · rw [if_pos ⟨same, dot⟩, if_pos same, same]
    · rw [if_neg fun both => same both.1, if_neg same]

/-- **One call**: the tree answers as the map of its names, and stays one. -/
theorem call_refines {tree : DynamicOptions} (plain : Plain tree) (call : OptionsCall) :
    (tree.call call).1 = (OptionMap.call tree.find call).1 ∧ Plain (tree.call call).2 ∧
      (tree.call call).2.find = (OptionMap.call tree.find call).2 := by
  cases call with
  | set name val =>
      cases name with
      | none => exact ⟨rfl, plain, rfl⟩
      | some name =>
          obtain ⟨answer, plainAfter, finds⟩ := set_eq val name plain
          refine ⟨congrArg some answer, plainAfter, ?_⟩
          funext other
          show (set val tree name).2.find other = Function.update tree.find name _ other
          rw [finds, Function.update_apply]
  | reset =>
      refine ⟨rfl, plain.forEach _, ?_⟩
      funext other
      exact find_forEach _ other tree
  | markInitialized =>
      refine ⟨rfl, plain.forEach _, ?_⟩
      funext other
      exact find_forEach _ other tree
  | setPublic name isPublic =>
      cases name with
      | none => exact ⟨rfl, plain, rfl⟩
      | some name => exact ⟨rfl, plain.changeOption _ _, find_changeOption_eq_change plain _ _⟩
  | freeze name =>
      cases name with
      | none => exact ⟨rfl, plain, rfl⟩
      | some name => exact ⟨rfl, plain.changeOption _ _, find_changeOption_eq_change plain _ _⟩

theorem run_refines (calls : List OptionsCall) : ∀ {tree : DynamicOptions}, Plain tree →
    (tree.run calls).1 = (OptionMap.run tree.find calls).1 ∧ Plain (tree.run calls).2 ∧
      (tree.run calls).2.find = (OptionMap.run tree.find calls).2 := by
  induction calls with
  | nil =>
      intro tree plain
      exact ⟨rfl, plain, rfl⟩
  | cons first calls ih =>
      intro tree plain
      obtain ⟨answer, plainAfter, finds⟩ := call_refines plain first
      obtain ⟨answers, plainLast, last⟩ := ih plainAfter
      rw [finds] at answers last
      refine ⟨?_, plainLast, last⟩
      exact List.cons_eq_cons.mpr ⟨answer, answers⟩

/-- **Every run of calls on options made from nothing** answers what a map from whole names would,
and leads every whole name to what the map has under it. -/
theorem dynamic_options_refine (calls : List OptionsCall) :
    (create.run calls).1 = (OptionMap.run (fun _ => none) calls).1 ∧
      (create.run calls).2.find = (OptionMap.run (fun _ => none) calls).2 := by
  have empty : create.find = fun _ => none := by
    funext name
    exact find_create name
  obtain ⟨answers, -, last⟩ := run_refines calls plain_create
  rw [empty] at answers last
  exact ⟨answers, last⟩

end DynamicOptions

/-! ## Configuration files -/

namespace DynamicOptions

def equalsSign : UInt8 := 61

def numberSign : UInt8 := 35

/-- `options_wrapper::parse`, of a name and a value. -/
def parsePair (tree : DynamicOptions) (name val : Bytes) : DynamicOptions :=
  (tree.set (some (cStr (trimSpaces val))) (cStr (trimSpaces name))).2

/-- `options_wrapper::parse`, of an expression. -/
def parseExpr (tree : DynamicOptions) (expr : Bytes) : DynamicOptions :=
  tree.parsePair (splitPair expr equalsSign).1 (splitPair expr equalsSign).2

def parseLine (tree : DynamicOptions) (line : Bytes) : DynamicOptions :=
  if trimSpaces line = [] then tree
  else if (trimSpaces line).head? = some numberSign then tree
  else tree.parseExpr (trimSpaces line)

/-- `options_utils::parse_conf`, of a file that can be opened. -/
def parseConf (tree : DynamicOptions) (contents : Bytes) : DynamicOptions :=
  (PropertiesLogConfigurator.readLines contents).foldl parseLine tree

/-- What a line sets. -/
def assignment (line : Bytes) : Option (Bytes × Bytes) :=
  if trimSpaces line = [] ∨ (trimSpaces line).head? = some numberSign then none
  else
    let (name, val) := splitPair (trimSpaces line) equalsSign
    some (cStr (trimSpaces name), cStr (trimSpaces val))

def assignments (contents : Bytes) : List (Bytes × Bytes) :=
  (PropertiesLogConfigurator.readLines contents).filterMap assignment

/-- An option that was made for a name and set to a value. -/
def assigned (name val : Bytes) : StringValueItem :=
  { made name with value := trimSpaces val, modified := true }

theorem parseLine_eq (tree : DynamicOptions) (line : Bytes) :
    tree.parseLine line =
      match assignment line with
      | none => tree
      | some entry => (tree.set (some entry.2) entry.1).2 := by
  rw [parseLine, assignment]
  by_cases empty : trimSpaces line = []
  · rw [if_pos empty, if_pos (.inl empty)]
  · by_cases comment : (trimSpaces line).head? = some numberSign
    · rw [if_neg empty, if_pos comment, if_pos (.inr comment)]
    · rw [if_neg empty, if_neg comment, if_neg fun either => either.elim empty comment]
      rfl

theorem parseConf_eq (tree : DynamicOptions) (contents : Bytes) :
    tree.parseConf contents =
      (assignments contents).foldl (fun tree entry => (tree.set (some entry.2) entry.1).2) tree := by
  rw [parseConf, assignments, List.foldl_filterMap]
  congr 1
  funext tree line
  rw [parseLine_eq]
  cases assignment line with
  | none => rfl
  | some entry => rfl

theorem find_foldl_set (entries : List (Bytes × Bytes)) :
    Plain (entries.foldl (fun tree entry => (tree.set (some entry.2) entry.1).2) create) ∧
      ∀ name, (entries.foldl (fun tree entry => (tree.set (some entry.2) entry.1).2) create).find
        name = (entries.reverse.lookup name).map (assigned name) := by
  induction entries using List.reverseRecOn with
  | nil => exact ⟨plain_create, find_create⟩
  | append_singleton entries entry ih =>
      obtain ⟨plain, finds⟩ := ih
      obtain ⟨key, val⟩ := entry
      obtain ⟨-, plainAfter, after⟩ := set_eq (some val) key plain
      rw [List.foldl_append, List.foldl_cons, List.foldl_nil]
      refine ⟨plainAfter, ?_⟩
      intro name
      rw [after, finds, List.reverse_append, List.reverse_singleton, List.singleton_append]
      by_cases same : name = key
      · subst same
        rw [if_pos rfl, List.lookup_cons_self, Option.map_some]
        cases entries.reverse.lookup name with
        | none => rfl
        | some earlier => rfl
      · rw [if_neg same, lookup_cons_of_ne same, finds]

/-- **A configuration file** leaves under every whole name the value of the last of its lines that
sets it, and nothing where no line does. -/
theorem parse_conf_last (contents name : Bytes) :
    (create.parseConf contents).find name =
      ((assignments contents).reverse.lookup name).map (assigned name) := by
  rw [parseConf_eq]
  exact (find_foldl_set (assignments contents)).2 name

/-- A comment, and a value that is set twice. -/
example : (assignments (ascii "a.b = 1\n# a.b=2\n c=x\na.b= 3 \n")).reverse.lookup
    (ascii "a.b") = some (ascii "3") := by decide +kernel

end DynamicOptions

end Xul
