import Xul.Std.Bytes

/-!
# Elements by tag name

`tinyxml_element` wraps a pointer to an element, which leads to the first of its children and to its
next sibling.  `get_elements_by_tag_name` goes through the children, searching each of them, but
from a child it goes on to the next sibling of the element that it was called on.

Of the children only the first is searched then, and the loop does not end if the element that it
was called on has a next sibling and a child (`searchesByTagName_iff`).
-/

set_option autoImplicit false

namespace Xul

/-- A pointer to an element of a document, with what `FirstChildElement` and `NextSiblingElement`
lead to. -/
inductive TiXmlElement
  | null
  | element (address : Nat) (value : Bytes) (firstChild nextSibling : TiXmlElement)

namespace TinyxmlElement

/-- `get_first_child`, of an element that is not null. -/
def getFirstChild : TiXmlElement → TiXmlElement
  | .null => .null
  | .element _ _ firstChild _ => firstChild

def getNextSibling : TiXmlElement → TiXmlElement
  | .null => .null
  | .element _ _ _ nextSibling => nextSibling

def getValue : TiXmlElement → Bytes
  | .null => []
  | .element _ value _ _ => cStr value

/-- The loop of `get_elements_by_tag_name` from `elem` on, called on `self`.  There is no answer
while it has not ended. -/
def searchLoop (name : Bytes) : Nat → TiXmlElement → TiXmlElement → Option (List TiXmlElement)
  | 0, _, _ => none
  | turns + 1, self, elem =>
      match elem with
      | .null => some []
      | .element .. => do
          let found := if getValue elem = cStr name then [elem] else []
          let subElems ← searchLoop name turns elem (getFirstChild elem)
          let others ← searchLoop name turns self (getNextSibling self)
          some (found ++ (subElems ++ others))

def getElementsByTagName (name : Bytes) (turns : Nat) (self : TiXmlElement) :
    Option (List TiXmlElement) := searchLoop name turns self (getFirstChild self)

/-! ## What a search should find -/

/-- An element, its descendants and its later siblings with theirs, in document order. -/
def inOrder : TiXmlElement → List TiXmlElement
  | .null => []
  | .element address value firstChild nextSibling =>
      .element address value firstChild nextSibling :: (inOrder firstChild ++ inOrder nextSibling)

def descendants (self : TiXmlElement) : List TiXmlElement := inOrder (getFirstChild self)

def HasTag (name : Bytes) (elem : TiXmlElement) : Prop := getValue elem = cStr name

instance hasTagDecidable (name : Bytes) : DecidablePred (HasTag name) := fun elem =>
  inferInstanceAs (Decidable (getValue elem = cStr name))

/-- The search ends with the descendants that have the tag. -/
def SearchesByTagName (name : Bytes) (self : TiXmlElement) : Prop :=
  ∃ turns, getElementsByTagName name turns self =
    some ((descendants self).filter fun elem => HasTag name elem)

/-- An element with children has no next sibling, nothing with the tag is among the later of the
children, and so on for the first. -/
def Reached (name : Bytes) : TiXmlElement → Prop
  | .null => True
  | .element _ _ .null _ => True
  | .element _ _ (.element address value firstChild others) nextSibling =>
      nextSibling = .null ∧ Reached name (.element address value firstChild others) ∧
        ∀ elem ∈ inOrder others, ¬ HasTag name elem

section

variable {name : Bytes}

/-! ## Running the loop -/

/-- What a loop that has ended found, beginning at an element. -/
theorem searchLoop_eq_some_iff {turns address : Nat} {value : Bytes}
    {self firstChild nextSibling : TiXmlElement} {elems : List TiXmlElement} :
    searchLoop name (turns + 1) self (.element address value firstChild nextSibling) = some elems ↔
      ∃ subElems others,
        getElementsByTagName name turns (.element address value firstChild nextSibling) =
          some subElems ∧
        searchLoop name turns self (getNextSibling self) = some others ∧
        [TiXmlElement.element address value firstChild nextSibling].filter
          (fun elem => HasTag name elem) ++ (subElems ++ others) = elems := by
  have found : (if getValue (.element address value firstChild nextSibling) = cStr name then
        [TiXmlElement.element address value firstChild nextSibling] else []) =
      [TiXmlElement.element address value firstChild nextSibling].filter
        fun elem => HasTag name elem := by
    simp only [List.filter_cons, List.filter_nil, decide_eq_true_eq]
    rfl
  simp only [searchLoop, getElementsByTagName, found, Option.bind_eq_bind,
    Option.bind_eq_some_iff, Option.some.injEq, exists_and_left]

/-- **A loop that goes on to a next sibling does not end.** -/
theorem searchLoop_of_sibling {self elem : TiXmlElement} (sibling : getNextSibling self ≠ .null)
    (isElement : elem ≠ .null) (turns : Nat) : searchLoop name turns self elem = none := by
  induction turns generalizing elem with
  | zero => rfl
  | succ turns ih =>
      cases elem with
      | null => exact absurd rfl isElement
      | element address value firstChild nextSibling =>
          rw [Option.eq_none_iff_forall_ne_some]
          intro elems result
          obtain ⟨subElems, others, -, again, -⟩ := searchLoop_eq_some_iff.mp result
          rw [ih sibling] at again
          cases again

theorem eq_nil_of_searchLoop_null {turns : Nat} {self : TiXmlElement}
    {elems : List TiXmlElement} (result : searchLoop name turns self .null = some elems) :
    elems = [] := by
  cases turns with
  | zero => cases result
  | succ turns => exact (Option.some.inj result).symm

section

variable {address childAddress : Nat} {value childValue : Bytes}
  {firstChild others nextSibling : TiXmlElement}

/-- A search of an element with children searches the first, and only if no sibling follows. -/
theorem getElementsByTagName_eq_some_iff {elems : List TiXmlElement} :
    (∃ turns, getElementsByTagName name turns
        (.element address value (.element childAddress childValue firstChild others) nextSibling) =
          some elems) ↔
      nextSibling = .null ∧ ∃ turns subElems,
        getElementsByTagName name turns (.element childAddress childValue firstChild others) =
          some subElems ∧
        elems = [TiXmlElement.element childAddress childValue firstChild others].filter
          (fun elem => HasTag name elem) ++ subElems := by
  constructor
  · rintro ⟨turns, result⟩
    cases turns with
    | zero => cases result
    | succ turns =>
        obtain ⟨subElems, rest, sub, again, rfl⟩ := searchLoop_eq_some_iff.mp result
        by_cases last : nextSibling = .null
        · subst last
          refine ⟨rfl, turns, subElems, sub, ?_⟩
          rw [eq_nil_of_searchLoop_null again, List.append_nil]
        · have sibling : getNextSibling (.element address value
              (.element childAddress childValue firstChild others) nextSibling) ≠ .null := last
          rw [searchLoop_of_sibling sibling sibling] at again
          cases again
  · rintro ⟨rfl, turns, subElems, sub, rfl⟩
    refine ⟨turns + 1, searchLoop_eq_some_iff.mpr ⟨subElems, [], sub, ?_, ?_⟩⟩
    · cases turns with
      | zero => cases sub
      | succ turns => rfl
    · rw [List.append_nil]

theorem filter_descendants :
    (descendants (.element address value (.element childAddress childValue firstChild others)
        nextSibling)).filter (fun elem => HasTag name elem) =
      [TiXmlElement.element childAddress childValue firstChild others].filter
          (fun elem => HasTag name elem) ++
        ((descendants (.element childAddress childValue firstChild others)).filter
            (fun elem => HasTag name elem) ++
          (inOrder others).filter fun elem => HasTag name elem) := by
  rw [← List.filter_append, ← List.filter_append]
  rfl

end

/-- What is found is at the beginning of what should be. -/
theorem isPrefix_of_getElementsByTagName {turns : Nat} {self : TiXmlElement}
    {elems : List TiXmlElement} (result : getElementsByTagName name turns self = some elems) :
    elems <+: (descendants self).filter fun elem => HasTag name elem := by
  induction self generalizing turns elems with
  | null =>
      rw [eq_nil_of_searchLoop_null result]
      exact List.nil_prefix
  | element address value child nextSibling ih _ =>
      cases child with
      | null =>
          rw [eq_nil_of_searchLoop_null result]
          exact List.nil_prefix
      | element childAddress childValue firstChild others =>
          obtain ⟨-, turns, subElems, sub, rfl⟩ :=
            getElementsByTagName_eq_some_iff.mp ⟨turns, result⟩
          rw [filter_descendants, List.prefix_append_right_inj]
          exact (ih sub).trans (List.prefix_append _ _)

end

/-- **A search by tag name** ends with the descendants that have the tag if they are first children
all the way down, and no element on the way that has a child has a next sibling. -/
theorem searchesByTagName_iff (name : Bytes) (address : Nat) (value : Bytes)
    (firstChild nextSibling : TiXmlElement) :
    SearchesByTagName name (.element address value firstChild nextSibling) ↔
      Reached name (.element address value firstChild nextSibling) := by
  induction firstChild generalizing address value nextSibling with
  | null => exact iff_of_true ⟨1, rfl⟩ trivial
  | element childAddress childValue firstChild others ih _ =>
      rw [SearchesByTagName, getElementsByTagName_eq_some_iff, filter_descendants, Reached]
      refine and_congr_right fun _ => ?_
      constructor
      · rintro ⟨turns, subElems, sub, whole⟩
        have rest := List.append_cancel_left whole
        have found := isPrefix_of_getElementsByTagName sub
        -- What is found of the child is all of it, and nothing is left for its siblings.
        have none : (inOrder others).filter (fun elem => HasTag name elem) = [] := by
          have shorter := found.length_le
          have lengths := congrArg List.length rest
          rw [List.length_append] at lengths
          exact List.eq_nil_of_length_eq_zero (by omega)
        rw [none, List.append_nil] at rest
        refine ⟨(ih childAddress childValue others).mp ⟨turns, rest ▸ sub⟩, ?_⟩
        intro elem member tagged
        exact List.filter_eq_nil_iff.mp none elem member (decide_eq_true tagged)
      · rintro ⟨reached, untagged⟩
        obtain ⟨turns, sub⟩ := (ih childAddress childValue others).mpr reached
        have none : (inOrder others).filter (fun elem => HasTag name elem) = [] :=
          List.filter_eq_nil_iff.mpr fun elem member tagged =>
            untagged elem member (of_decide_eq_true tagged)
        exact ⟨turns, _, sub, by rw [none, List.append_nil]⟩

/-- A root whose first child has a child and a sibling: the search of that child does not end. -/
theorem not_searchesByTagName_sibling :
    ¬ SearchesByTagName (ascii "c")
      (.element 0 (ascii "root")
        (.element 1 (ascii "a") (.element 2 (ascii "c") .null .null)
          (.element 3 (ascii "b") .null .null)) .null) := by
  rintro ⟨turns, result⟩
  obtain ⟨-, turns, subElems, sub, -⟩ := getElementsByTagName_eq_some_iff.mp ⟨turns, result⟩
  obtain ⟨last, -⟩ := getElementsByTagName_eq_some_iff.mp ⟨turns, sub⟩
  cases last

end TinyxmlElement

end Xul
