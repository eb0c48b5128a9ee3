import Mathlib.Data.List.Basic

/-!
# Markup

Documents of elements, which hold character data and other elements.  Between the tags of
a document stands character data, in which the five markup characters are written as
references.

A document is read in steps: it is cut into tags and character data (`split`), these are
read as tokens, and the tokens are put together with a stack of the elements that are
open (`build`).  What an element prints is read as that element (`read_print`).
-/

set_option autoImplicit false

namespace Foundation.Markup

/-! ## Character data -/

/-- The reference that stands for a markup character. -/
def reference : UInt8 → Option (List UInt8)
  | 60 => some [38, 108, 116, 59]
  | 62 => some [38, 103, 116, 59]
  | 38 => some [38, 97, 109, 112, 59]
  | 39 => some [38, 97, 112, 111, 115, 59]
  | 34 => some [38, 113, 117, 111, 116, 59]
  | _ => none

/-- A text as character data. -/
def escape (text : List UInt8) : List UInt8 :=
  text.flatMap fun byte => (reference byte).getD [byte]

/-- References are resolved; a markup character that begins none is refused. -/
def resolve : List UInt8 → Option (List UInt8)
  | [] => some []
  | 38 :: 108 :: 116 :: 59 :: rest => (resolve rest).map (60 :: ·)
  | 38 :: 103 :: 116 :: 59 :: rest => (resolve rest).map (62 :: ·)
  | 38 :: 97 :: 109 :: 112 :: 59 :: rest => (resolve rest).map (38 :: ·)
  | 38 :: 97 :: 112 :: 111 :: 115 :: 59 :: rest => (resolve rest).map (39 :: ·)
  | 38 :: 113 :: 117 :: 111 :: 116 :: 59 :: rest => (resolve rest).map (34 :: ·)
  | byte :: rest => if reference byte = none then (resolve rest).map (byte :: ·) else none

/-- Character data, in which markup characters stand only in references. -/
inductive CharacterData : List UInt8 → Prop where
  | nil : CharacterData []
  | byte {byte : UInt8} {rest : List UInt8} (plain : reference byte = none)
      (more : CharacterData rest) : CharacterData (byte :: rest)
  | reference {byte : UInt8} {written rest : List UInt8} (named : reference byte = some written)
      (more : CharacterData rest) : CharacterData (written ++ rest)

@[simp] theorem escape_nil : escape [] = [] := rfl

theorem escape_cons (byte : UInt8) (text : List UInt8) :
    escape (byte :: text) = (reference byte).getD [byte] ++ escape text := rfl

theorem reference_eq_some {byte : UInt8} {written : List UInt8}
    (named : reference byte = some written) :
    byte = 60 ∧ written = [38, 108, 116, 59] ∨ byte = 62 ∧ written = [38, 103, 116, 59] ∨
      byte = 38 ∧ written = [38, 97, 109, 112, 59] ∨
      byte = 39 ∧ written = [38, 97, 112, 111, 115, 59] ∨
      byte = 34 ∧ written = [38, 113, 117, 111, 116, 59] := by
  unfold reference at named
  split at named <;> simp_all

theorem resolve_cons {byte : UInt8} (plain : reference byte = none) (rest : List UInt8) :
    resolve (byte :: rest) = (resolve rest).map (byte :: ·) := by
  rw [resolve.eq_def]
  split <;> simp_all [reference]

@[simp] theorem escape_append (text rest : List UInt8) :
    escape (text ++ rest) = escape text ++ escape rest := List.flatMap_append

theorem characterData_escape (text : List UInt8) : CharacterData (escape text) := by
  induction text with
  | nil => exact .nil
  | cons byte text ih =>
      rw [escape_cons]
      cases named : reference byte with
      | none => exact .byte named ih
      | some written => exact .reference named ih

/-- **Resolving undoes escaping.** -/
theorem resolve_escape (text : List UInt8) : resolve (escape text) = some text := by
  induction text with
  | nil => rfl
  | cons byte text ih =>
      rw [escape_cons]
      cases named : reference byte with
      | none =>
          rw [Option.getD_none, List.singleton_append, resolve_cons named, ih, Option.map_some]
      | some written =>
          rcases reference_eq_some named with ⟨rfl, rfl⟩ | ⟨rfl, rfl⟩ | ⟨rfl, rfl⟩ | ⟨rfl, rfl⟩ |
            ⟨rfl, rfl⟩ <;> simp [resolve, ih]

/-- Text without markup characters is character data as it is. -/
theorem escape_of_plain {text : List UInt8} (plain : ∀ byte ∈ text, reference byte = none) :
    escape text = text := by
  induction text with
  | nil => rfl
  | cons byte text ih =>
      rw [List.forall_mem_cons] at plain
      rw [escape_cons, plain.1, ih plain.2]
      rfl

theorem escape_eq_nil {text : List UInt8} (empty : escape text = []) : text = [] := by
  have resolved := resolve_escape text
  rw [empty] at resolved
  exact (Option.some.inj resolved).symm

/-- Character data contains no beginning of a tag. -/
theorem CharacterData.not_mem {raw : List UInt8} (data : CharacterData raw) :
    (60 : UInt8) ∉ raw := by
  induction data with
  | nil => exact List.not_mem_nil
  | byte plain more ih =>
      intro member
      rcases List.mem_cons.mp member with rfl | later
      · cases plain
      · exact ih later
  | reference named more ih =>
      intro member
      rcases List.mem_append.mp member with inside | later
      · rcases reference_eq_some named with ⟨-, rfl⟩ | ⟨-, rfl⟩ | ⟨-, rfl⟩ | ⟨-, rfl⟩ | ⟨-, rfl⟩ <;>
          exact absurd inside (by decide)
      · exact ih later

/-! ## Tags and character data -/

/-- A document is cut at its angle brackets. -/
inductive Piece where
  | tag (inside : List UInt8)
  | chars (raw : List UInt8)
deriving DecidableEq

def Piece.print : Piece → List UInt8
  | tag inside => 60 :: (inside ++ [62])
  | chars raw => raw

def ofChars (raw : List UInt8) : List Piece := if raw = [] then [] else [.chars raw]

/-- The loop of `split`: inside a tag or outside, with what was read there. -/
def splitLoop : Bool → List UInt8 → List UInt8 → Option (List Piece)
  | false, raw, [] => some (ofChars raw)
  | true, _, [] => none
  | false, raw, byte :: rest =>
      if byte = 60 then (splitLoop true [] rest).map (ofChars raw ++ ·)
      else splitLoop false (raw ++ [byte]) rest
  | true, inside, byte :: rest =>
      if byte = 62 then (splitLoop false [] rest).map (.tag inside :: ·)
      else if byte = 60 then none
      else splitLoop true (inside ++ [byte]) rest

def split (text : List UInt8) : Option (List Piece) := splitLoop false [] text

theorem splitLoop_chars {raw : List UInt8} (plain : (60 : UInt8) ∉ raw) :
    ∀ before rest, splitLoop false before (raw ++ rest) = splitLoop false (before ++ raw) rest := by
  induction raw with
  | nil =>
      intro before rest
      rw [List.nil_append, List.append_nil]
  | cons byte raw ih =>
      intro before rest
      rw [List.mem_cons, not_or] at plain
      rw [List.cons_append, splitLoop, if_neg (Ne.symm plain.1), ih plain.2, List.append_assoc,
        List.singleton_append]

theorem splitLoop_tag {inside : List UInt8} (plain : ∀ byte ∈ inside, byte ≠ 60 ∧ byte ≠ 62) :
    ∀ before rest, splitLoop true before (inside ++ 62 :: rest) =
      (splitLoop false [] rest).map (.tag (before ++ inside) :: ·) := by
  induction inside with
  | nil =>
      intro before rest
      rw [List.nil_append, List.append_nil, splitLoop, if_pos rfl]
  | cons byte inside ih =>
      intro before rest
      rw [List.forall_mem_cons] at plain
      rw [List.cons_append, splitLoop, if_neg plain.1.2, if_neg plain.1.1, ih plain.2,
        List.append_assoc, List.singleton_append]

/-- A tag, behind the character data before it. -/
theorem splitLoop_print_tag {raw inside : List UInt8} (data : (60 : UInt8) ∉ raw)
    (plain : ∀ byte ∈ inside, byte ≠ 60 ∧ byte ≠ 62) (rest : List UInt8) :
    splitLoop false [] (raw ++ ((Piece.tag inside).print ++ rest)) =
      (splitLoop false [] rest).map (ofChars raw ++ .tag inside :: ·) := by
  rw [splitLoop_chars data, Piece.print, List.cons_append, List.append_assoc,
    List.singleton_append, splitLoop, if_pos rfl, splitLoop_tag plain, Option.map_map]
  rfl

/-! ## Tokens -/

inductive Token where
  | startTag (name attributes : List UInt8)
  | endTag (name : List UInt8)
  | text (content : List UInt8)
deriving DecidableEq

/-- Letters, digits, four signs, and what is not ASCII. -/
def isNameByte (byte : UInt8) : Bool :=
  (97 ≤ byte && byte ≤ 122) || (65 ≤ byte && byte ≤ 90) || (48 ≤ byte && byte ≤ 57) ||
    byte == 45 || byte == 46 || byte == 95 || byte == 58 || 128 ≤ byte

def IsName (name : List UInt8) : Prop := name ≠ [] ∧ ∀ byte ∈ name, isNameByte byte = true

instance (name : List UInt8) : Decidable (IsName name) := inferInstanceAs (Decidable (_ ∧ _))

/-- What stands behind a name in a tag: nothing, or attributes behind a space. -/
def AreAttributes (attributes : List UInt8) : Prop :=
  (attributes = [] ∨ attributes.head? = some 32) ∧
    ∀ byte ∈ attributes, byte ≠ 60 ∧ byte ≠ 62

instance (attributes : List UInt8) : Decidable (AreAttributes attributes) :=
  inferInstanceAs (Decidable (_ ∧ _))

/-- The token that a tag is. -/
def tagToken : List UInt8 → Option Token
  | 47 :: name => if IsName name then some (.endTag name) else none
  | inside =>
      let name := inside.takeWhile isNameByte
      let attributes := inside.dropWhile isNameByte
      if IsName name ∧ AreAttributes attributes then some (.startTag name attributes) else none

def Piece.token : Piece → Option Token
  | tag inside => tagToken inside
  | chars raw => (resolve raw).map .text

/-- A document as tokens. -/
def tokens (text : List UInt8) : Option (List Token) :=
  (split text).bind fun pieces => pieces.mapM Piece.token

/-- Every end tag matches the last start tag that is open, and none stays open. -/
def Nested : List (List UInt8) → List Token → Prop
  | names, [] => names = []
  | names, .startTag name _ :: rest => Nested (name :: names) rest
  | names, .text _ :: rest => Nested names rest
  | [], .endTag _ :: _ => False
  | name :: names, .endTag other :: rest => other = name ∧ Nested names rest

theorem IsName.not_slash {name : List UInt8} (isName : IsName name) (attributes : List UInt8) :
    ∀ rest, name ++ attributes ≠ 47 :: rest := by
  obtain ⟨nonempty, named⟩ := isName
  obtain ⟨byte, others, rfl⟩ := List.exists_cons_of_ne_nil nonempty
  intro rest same
  rw [List.cons_append, List.cons.injEq] at same
  have := named byte (List.mem_cons_self ..)
  rw [same.1] at this
  exact absurd this (by decide)

theorem IsName.plain {name : List UInt8} (isName : IsName name) :
    ∀ byte ∈ name, byte ≠ 60 ∧ byte ≠ 62 := by
  intro byte member
  have named := isName.2 byte member
  constructor <;>
  · rintro rfl
    exact absurd named (by decide)

theorem tagToken_start {name attributes : List UInt8} (isName : IsName name)
    (areAttributes : AreAttributes attributes) :
    tagToken (name ++ attributes) = some (.startTag name attributes) := by
  have stops : attributes.takeWhile isNameByte = [] ∧
      attributes.dropWhile isNameByte = attributes := by
    rcases areAttributes.1 with rfl | space
    · exact ⟨rfl, rfl⟩
    · obtain ⟨rest, rfl⟩ : ∃ rest, attributes = 32 :: rest := by
        cases attributes with
        | nil => cases space
        | cons byte rest => exact ⟨rest, by rw [Option.some.inj space]⟩
      exact ⟨rfl, rfl⟩
  have taken : (name ++ attributes).takeWhile isNameByte = name := by
    rw [List.takeWhile_append_of_pos isName.2, stops.1, List.append_nil]
  have dropped : (name ++ attributes).dropWhile isNameByte = attributes := by
    rw [List.dropWhile_append_of_pos isName.2, stops.2]
  rw [tagToken.eq_def]
  split
  · next same => exact absurd same (isName.not_slash attributes _)
  · simp only [taken, dropped]
    rw [if_pos ⟨isName, areAttributes⟩]

theorem tagToken_end {name : List UInt8} (isName : IsName name) :
    tagToken (47 :: name) = some (.endTag name) := if_pos isName

/-! ## Elements -/

/-- An element holds character data and, behind it, other elements. -/
inductive Element where
  | node (name attributes text : List UInt8) (children : List Element)

def textTokens (text : List UInt8) : List Token := if text = [] then [] else [.text text]

mutual
def Element.tokens : Element → List Token
  | .node name attributes text children =>
      .startTag name attributes :: (textTokens text ++ (tokensAll children ++ [.endTag name]))

def tokensAll : List Element → List Token
  | [] => []
  | element :: elements => element.tokens ++ tokensAll elements
end

def Token.pieces : Token → List Piece
  | startTag name attributes => [.tag (name ++ attributes)]
  | endTag name => [.tag (47 :: name)]
  | text content => ofChars (escape content)

/-- How an element is written. -/
def Element.print (element : Element) : List UInt8 :=
  (element.tokens.flatMap Token.pieces).flatMap Piece.print

def printAll (elements : List Element) : List UInt8 :=
  ((tokensAll elements).flatMap Token.pieces).flatMap Piece.print

/-- An element that is open, with what has been read of it. -/
structure Frame where
  name : List UInt8
  attributes : List UInt8
  text : List UInt8
  children : List Element

def Frame.close (frame : Frame) : Element :=
  .node frame.name frame.attributes frame.text frame.children

def Frame.add (element : Element) (frame : Frame) : Frame :=
  { frame with children := frame.children ++ [element] }

/-- The element that is open last and those around it, and the tokens that follow. -/
def build : Frame → List Frame → List Token → Option Element
  | _, _, [] => none
  | frame, stack, .startTag name attributes :: rest =>
      build ⟨name, attributes, [], []⟩ (frame :: stack) rest
  | frame, stack, .text content :: rest =>
      build { frame with text := frame.text ++ content } stack rest
  | frame, [], .endTag name :: rest =>
      if name = frame.name ∧ rest = [] then some frame.close else none
  | frame, parent :: stack, .endTag name :: rest =>
      if name = frame.name then build (parent.add frame.close) stack rest else none

/-- A document is one element. -/
def document : List Token → Option Element
  | .startTag name attributes :: rest => build ⟨name, attributes, [], []⟩ [] rest
  | _ => none

def read (text : List UInt8) : Option Element := (tokens text).bind document

/-- An element whose tags can be told from its character data. -/
inductive Element.Proper : Element → Prop where
  | node {name attributes text : List UInt8} {children : List Element} (isName : IsName name)
      (areAttributes : AreAttributes attributes) (proper : ∀ child ∈ children, child.Proper) :
      Element.Proper (.node name attributes text children)

/-! ### Reading what was written -/

mutual
/-- The tokens of an element leave the elements around it open. -/
theorem nested_tokens : ∀ (element : Element) (names : List (List UInt8)) (rest : List Token),
    Nested names (element.tokens ++ rest) ↔ Nested names rest
  | .node name attributes text children, names, rest => by
      have skipped : ∀ more, Nested (name :: names) (textTokens text ++ more) ↔
          Nested (name :: names) more := by
        intro more
        rw [textTokens]
        split
        · exact Iff.rfl
        · simp only [List.cons_append, List.nil_append, Nested]
      simp only [Element.tokens, List.cons_append, List.append_assoc, Nested, skipped,
        nested_tokensAll children, List.nil_append, true_and]

theorem nested_tokensAll : ∀ (elements : List Element) (names : List (List UInt8))
    (rest : List Token), Nested names (tokensAll elements ++ rest) ↔ Nested names rest
  | [], _, _ => by rw [tokensAll, List.nil_append]
  | element :: elements, names, rest => by
      rw [tokensAll, List.append_assoc, nested_tokens element, nested_tokensAll elements]
end

mutual
/-- **The tokens of an element add it to the element that is open.** -/
theorem build_tokens : ∀ (element : Element) (frame : Frame) (stack : List Frame)
    (rest : List Token),
    build frame stack (element.tokens ++ rest) = build (frame.add element) stack rest
  | .node name attributes text children, frame, stack, rest => by
      have read : ∀ more, build ⟨name, attributes, [], []⟩ (frame :: stack)
          (textTokens text ++ more) = build ⟨name, attributes, text, []⟩ (frame :: stack) more := by
        intro more
        rw [textTokens]
        split
        · next empty => rw [empty, List.nil_append]
        · simp only [List.cons_append, List.nil_append, build]
      simp only [Element.tokens, List.cons_append, List.append_assoc, build, read,
        build_tokensAll children, List.nil_append, if_true]
      rfl

theorem build_tokensAll : ∀ (elements : List Element) (frame : Frame) (stack : List Frame)
    (rest : List Token),
    build frame stack (tokensAll elements ++ rest) =
      build { frame with children := frame.children ++ elements } stack rest
  | [], frame, stack, rest => by rw [tokensAll, List.nil_append, List.append_nil]
  | element :: elements, frame, stack, rest => by
      rw [tokensAll, List.append_assoc, build_tokens element, build_tokensAll elements, Frame.add,
        List.append_assoc, List.singleton_append]
end

/-- An element is the document that its tokens are. -/
theorem document_tokens (element : Element) : document element.tokens = some element := by
  obtain ⟨name, attributes, text, children⟩ := element
  have read : ∀ more, build ⟨name, attributes, [], []⟩ [] (textTokens text ++ more) =
      build ⟨name, attributes, text, []⟩ [] more := by
    intro more
    rw [textTokens]
    split
    · next empty => rw [empty, List.nil_append]
    · simp only [List.cons_append, List.nil_append, build]
  simp only [Element.tokens, document, read, build_tokensAll, build, List.nil_append, true_and,
    if_true]
  rfl

/-- A token that is read as itself. -/
def Token.Proper : Token → Prop
  | startTag name attributes => IsName name ∧ AreAttributes attributes
  | endTag name => IsName name
  | text content => content ≠ []

theorem token_pieces {token : Token} (proper : token.Proper) :
    token.pieces.mapM Piece.token = some [token] := by
  cases token with
  | startTag name attributes =>
      simp [Token.pieces, Piece.token, tagToken_start proper.1 proper.2]
  | endTag name => simp [Token.pieces, Piece.token, tagToken_end proper]
  | text content =>
      have nonempty : escape content ≠ [] := fun empty => proper (escape_eq_nil empty)
      simp [Token.pieces, ofChars, nonempty, Piece.token, resolve_escape]

theorem tokens_pieces {tokens : List Token} (proper : ∀ token ∈ tokens, token.Proper) :
    (tokens.flatMap Token.pieces).mapM Piece.token = some tokens := by
  induction tokens with
  | nil => rfl
  | cons token tokens ih =>
      rw [List.forall_mem_cons] at proper
      simp [List.flatMap_cons, List.mapM_append, token_pieces proper.1, ih proper.2]

mutual
theorem proper_tokens : ∀ {element : Element}, element.Proper →
    ∀ token ∈ element.tokens, token.Proper
  | .node name attributes text children, .node isName areAttributes proper => by
      intro token member
      simp only [Element.tokens, List.mem_cons, List.mem_append, textTokens] at member
      rcases member with rfl | inText | inChildren | rfl | nothing
      · exact ⟨isName, areAttributes⟩
      · split at inText
        · cases inText
        · next nonempty =>
            rw [List.mem_singleton.mp inText]
            exact nonempty
      · exact proper_tokensAll proper token inChildren
      · exact isName
      · cases nothing

theorem proper_tokensAll : ∀ {elements : List Element}, (∀ element ∈ elements, element.Proper) →
    ∀ token ∈ tokensAll elements, token.Proper
  | [], _ => by
      intro token member
      cases member
  | element :: elements, proper => by
      intro token member
      rw [List.forall_mem_cons] at proper
      rcases List.mem_append.mp member with first | later
      · exact proper_tokens proper.1 token first
      · exact proper_tokensAll proper.2 token later
end

@[simp] theorem print_ofChars (raw : List UInt8) : (ofChars raw).flatMap Piece.print = raw := by
  rw [ofChars]
  split
  · next empty => rw [empty, List.flatMap_nil]
  · rw [List.flatMap_singleton, Piece.print]

@[simp] theorem pieces_textTokens (text : List UInt8) :
    (textTokens text).flatMap Token.pieces = ofChars (escape text) := by
  rw [textTokens]
  split
  · next empty => rw [empty, List.flatMap_nil, escape_nil, ofChars, if_pos rfl]
  · rw [List.flatMap_singleton, Token.pieces]

/-- The pieces of an element are those of its tags around those of what it holds. -/
theorem pieces_node (name attributes text : List UInt8) (children : List Element) :
    (Element.node name attributes text children).tokens.flatMap Token.pieces =
      .tag (name ++ attributes) :: (ofChars (escape text) ++
        ((tokensAll children).flatMap Token.pieces ++ [.tag (47 :: name)])) := by
  simp only [Element.tokens, List.flatMap_cons, List.flatMap_append, pieces_textTokens,
    List.flatMap_nil, Token.pieces, List.append_nil, List.singleton_append]

theorem print_node (name attributes text : List UInt8) (children : List Element) :
    (Element.node name attributes text children).print =
      60 :: (name ++ attributes ++ [62]) ++ escape text ++ printAll children ++
        60 :: 47 :: (name ++ [62]) := by
  rw [Element.print, pieces_node]
  simp [Piece.print, printAll]

theorem printAll_nil : printAll [] = [] := rfl

theorem printAll_cons (element : Element) (elements : List Element) :
    printAll (element :: elements) = element.print ++ printAll elements := by
  rw [printAll, tokensAll, List.flatMap_append, List.flatMap_append]
  rfl

theorem plain_start {name attributes : List UInt8} (isName : IsName name)
    (areAttributes : AreAttributes attributes) :
    ∀ byte ∈ name ++ attributes, byte ≠ 60 ∧ byte ≠ 62 := by
  intro byte member
  rcases List.mem_append.mp member with inName | inAttributes
  · exact isName.plain byte inName
  · exact areAttributes.2 byte inAttributes

theorem plain_end {name : List UInt8} (isName : IsName name) :
    ∀ byte ∈ 47 :: name, byte ≠ 60 ∧ byte ≠ 62 := by
  rw [List.forall_mem_cons]
  exact ⟨by decide, isName.plain⟩

mutual
/-- An element is cut into its pieces, behind the character data before it. -/
theorem split_element : ∀ (element : Element), element.Proper → ∀ (raw rest : List UInt8),
    (60 : UInt8) ∉ raw →
    splitLoop false []
        (raw ++ ((element.tokens.flatMap Token.pieces).flatMap Piece.print ++ rest)) =
      (splitLoop false [] rest).map
        (ofChars raw ++ element.tokens.flatMap Token.pieces ++ ·)
  | .node name attributes text children, .node isName areAttributes proper, raw, rest => by
      intro data
      rw [pieces_node, List.flatMap_cons, List.flatMap_append, List.flatMap_append, print_ofChars,
        List.flatMap_singleton, List.append_assoc, List.append_assoc, List.append_assoc,
        splitLoop_print_tag data (plain_start isName areAttributes),
        split_elements children proper (escape text) (47 :: name) rest
          (characterData_escape text).not_mem (plain_end isName), Option.map_map]
      congr 1
      funext later
      simp

theorem split_elements : ∀ (elements : List Element), (∀ element ∈ elements, element.Proper) →
    ∀ (raw inside rest : List UInt8), (60 : UInt8) ∉ raw →
    (∀ byte ∈ inside, byte ≠ 60 ∧ byte ≠ 62) →
    splitLoop false [] (raw ++ (((tokensAll elements).flatMap Token.pieces).flatMap Piece.print ++
        ((Piece.tag inside).print ++ rest))) =
      (splitLoop false [] rest).map
        (ofChars raw ++ (tokensAll elements).flatMap Token.pieces ++ .tag inside :: ·)
  | [], _, raw, inside, rest => by
      intro data plain
      rw [tokensAll, List.flatMap_nil, List.flatMap_nil, List.nil_append,
        splitLoop_print_tag data plain, List.append_nil]
  | element :: elements, proper, raw, inside, rest => by
      intro data plain
      rw [List.forall_mem_cons] at proper
      have first := split_element element proper.1 raw
        (((tokensAll elements).flatMap Token.pieces).flatMap Piece.print ++
          ((Piece.tag inside).print ++ rest)) data
      have later := split_elements elements proper.2 [] inside rest List.not_mem_nil plain
      rw [List.nil_append] at later
      rw [tokensAll, List.flatMap_append, List.flatMap_append, List.append_assoc, first, later,
        Option.map_map]
      congr 1
      funext more
      simp [ofChars]
end

/-- **An element is cut into its tags and its character data.** -/
theorem split_print {element : Element} (proper : element.Proper) :
    split element.print = some (element.tokens.flatMap Token.pieces) := by
  have cut := split_element element proper [] [] List.not_mem_nil
  rw [List.nil_append, List.append_nil] at cut
  rw [split, Element.print, cut]
  simp only [splitLoop, Option.map_some, ofChars, if_true, List.nil_append, List.append_nil]

theorem tokens_print {element : Element} (proper : element.Proper) :
    tokens element.print = some element.tokens := by
  rw [tokens, split_print proper, Option.bind_some, tokens_pieces (proper_tokens proper)]

/-- **What an element prints is read as that element.** -/
theorem read_print {element : Element} (proper : element.Proper) :
    read element.print = some element := by
  rw [read, tokens_print proper, Option.bind_some, document_tokens]

/-- The character data of what an element prints. -/
theorem characterData_pieces {tokens : List Token} {raw : List UInt8}
    (member : Piece.chars raw ∈ tokens.flatMap Token.pieces) : CharacterData raw := by
  obtain ⟨token, -, inside⟩ := List.mem_flatMap.mp member
  cases token with
  | startTag name attributes => cases List.mem_singleton.mp inside
  | endTag name => cases List.mem_singleton.mp inside
  | text content =>
      rw [Token.pieces, ofChars] at inside
      split at inside
      · cases inside
      · cases List.mem_singleton.mp inside
        exact characterData_escape content

/-! ## Declarations -/

/-- What stands behind the end of a declaration. -/
def afterDeclaration : List UInt8 → Option (List UInt8)
  | [] => none
  | 63 :: 62 :: rest => some (rest.dropWhile fun byte => byte = 10 ∨ byte = 13 ∨ byte = 32)
  | _ :: rest => afterDeclaration rest

/-- A document without its declaration, if it has one. -/
def stripDeclaration : List UInt8 → Option (List UInt8)
  | 60 :: 63 :: 120 :: 109 :: 108 :: rest => afterDeclaration rest
  | text => some text

theorem afterDeclaration_append {before : List UInt8} (plain : (63 : UInt8) ∉ before)
    (rest : List UInt8) :
    afterDeclaration (before ++ 63 :: 62 :: rest) =
      some (rest.dropWhile fun byte => byte = 10 ∨ byte = 13 ∨ byte = 32) := by
  induction before with
  | nil => rw [List.nil_append, afterDeclaration]
  | cons byte before ih =>
      rw [List.mem_cons, not_or] at plain
      rw [List.cons_append, afterDeclaration, ih plain.2]
      intro more same
      exact absurd same.symm plain.1

end Foundation.Markup
