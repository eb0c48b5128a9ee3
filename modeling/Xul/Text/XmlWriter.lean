import Xul.Foundation.Markup
import Xul.Text.StructuredTextWriter

/-!
# The XML writer

An element of the tree becomes an element of the document, with the tags that its name
makes.  Lists carry attributes, and a value is written as character data, in which
`XmlEscapeSequence.write` puts references for the markup characters.

A reader of the document recovers the names and the values of the tree, with one
exception: a dictionary without items is written like a scalar whose text is empty.
-/

set_option autoImplicit false

namespace Xul

open Foundation

/-! ## Escape sequences -/

namespace XmlEscapeSequence

/-- `escape_table::characters`. -/
def characters : Bytes := ascii "<>&'\""

/-- `escape_table::mapping`. -/
def mapping : List (UInt8 × Bytes) :=
  [(60, ascii "&lt;"), (62, ascii "&gt;"), (38, ascii "&amp;"), (39, ascii "&apos;"),
    (34, ascii "&quot;")]

/-- `escape_table::escape`, which is empty for characters that are not in the table. -/
def escape (ch : UInt8) : Bytes := (mapping.lookup ch).getD []

/-- `find_first_of`. -/
def findFirstOf (s chars : Bytes) (offset : Nat) : Option Nat :=
  ((s.drop offset).findIdx? (· ∈ chars)).map (offset + ·)

/-- The loop of `write`, which takes at most one turn for every character and one more. -/
def writeLoop (val : Bytes) : Nat → Nat → Bytes → Bytes
  | 0, _, os => os
  | turns + 1, offset, os =>
      match findFirstOf val characters offset with
      | none => if offset = 0 then os ++ val else os ++ val.drop offset
      | some pos =>
          writeLoop val turns (pos + 1)
            (os ++ (val.drop offset).take (pos - offset) ++ escape (val.getD pos 0))

def write (os val : Bytes) : Bytes := writeLoop val (val.length + 1) 0 os

theorem mem_characters (c : UInt8) : c ∈ characters ↔ Markup.reference c ≠ none :=
  forall_byte (p := fun c => c ∈ characters ↔ Markup.reference c ≠ none) (by decide +kernel) c

/-- The table writes the references. -/
theorem reference_eq (c : UInt8) : c ∈ characters → Markup.reference c = some (escape c) :=
  forall_byte (p := fun c => c ∈ characters → Markup.reference c = some (escape c))
    (by decide +kernel) c

/-- Nothing behind the offset is a markup character. -/
theorem findFirstOf_eq_none {s : Bytes} {offset : Nat}
    (none : findFirstOf s characters offset = none) :
    ∀ c ∈ s.drop offset, Markup.reference c = Option.none := by
  intro c member
  rw [findFirstOf, Option.map_eq_none_iff, List.findIdx?_eq_none_iff] at none
  have plain := none c member
  by_contra marked
  exact absurd ((mem_characters c).mpr marked) (of_decide_eq_false plain)

/-- The text behind the offset is cut at its first markup character. -/
theorem findFirstOf_eq_some {s : Bytes} {offset pos : Nat}
    (found : findFirstOf s characters offset = some pos) :
    offset ≤ pos ∧ pos < s.length ∧ s.getD pos 0 ∈ characters ∧
      (∀ c ∈ (s.drop offset).take (pos - offset), Markup.reference c = none) ∧
      s.drop offset =
        (s.drop offset).take (pos - offset) ++ s.getD pos 0 :: s.drop (pos + 1) := by
  obtain ⟨index, first, rfl⟩ := Option.map_eq_some_iff.mp found
  obtain ⟨inside, marked, before⟩ := List.findIdx?_eq_some_iff_getElem.mp first
  have bound : offset + index < s.length := by
    rw [List.length_drop] at inside
    omega
  have here : (s.drop offset)[index] = s.getD (offset + index) 0 := by
    rw [List.getElem_drop, List.getD_eq_getElem?_getD, List.getElem?_eq_getElem bound,
      Option.getD_some]
  refine ⟨Nat.le_add_right _ _, bound, here ▸ of_decide_eq_true marked, ?_, ?_⟩
  · intro c member
    rw [Nat.add_sub_cancel_left] at member
    obtain ⟨i, small, rfl⟩ := List.mem_take_iff_getElem.mp member
    have plain := before i (by omega)
    by_contra named
    exact plain (decide_eq_true ((mem_characters _).mpr named))
  · rw [Nat.add_sub_cancel_left, ← here, Nat.add_assoc, ← List.drop_drop,
      ← List.drop_eq_getElem_cons inside, List.take_append_drop]

/-- A turn writes the text up to the next markup character, and its reference. -/
theorem writeLoop_eq (val : Bytes) : ∀ (turns offset : Nat) (os : Bytes),
    val.length < turns + offset →
    writeLoop val turns offset os = os ++ Markup.escape (val.drop offset)
  | 0, offset, os => by
      intro enough
      rw [writeLoop, List.drop_eq_nil_of_le (by omega), Markup.escape_nil, List.append_nil]
  | turns + 1, offset, os => by
      intro enough
      rw [writeLoop]
      cases found : findFirstOf val characters offset with
      | none =>
          rw [Markup.escape_of_plain (findFirstOf_eq_none found)]
          by_cases zero : offset = 0
          · rw [zero, List.drop_zero]
            rfl
          · exact if_neg zero
      | some pos =>
          obtain ⟨later, bound, marked, plain, cut⟩ := findFirstOf_eq_some found
          have rest := writeLoop_eq val turns (pos + 1)
            (os ++ (val.drop offset).take (pos - offset) ++ escape (val.getD pos 0)) (by omega)
          have escaped : Markup.escape (val.drop offset) = (val.drop offset).take (pos - offset) ++
              (escape (val.getD pos 0) ++ Markup.escape (val.drop (pos + 1))) := by
            conv_lhs => rw [cut]
            rw [Markup.escape_append, Markup.escape_of_plain plain, Markup.escape_cons,
              reference_eq _ marked, Option.getD_some]
          rw [escaped]
          simpa only [List.append_assoc] using rest

/-- **The loop writes the text as character data.** -/
theorem write_eq (os val : Bytes) : write os val = os ++ Markup.escape val :=
  writeLoop_eq val (val.length + 1) 0 os (by omega)

end XmlEscapeSequence

/-! ## The writer -/

namespace XmlWriter

def startScalar (name : Bytes) (state : StructuredTextWriter) : StructuredTextWriter :=
  state.writeLinefeed.writeIndentation.put (ascii "<" ++ cStr name ++ ascii ">")

def endScalar (name : Bytes) (state : StructuredTextWriter) : StructuredTextWriter :=
  state.put (ascii "</" ++ cStr name ++ ascii ">")

def writeElementStart (encoding name : Bytes) (elemType : ElementType) (context : WriterContext)
    (state : StructuredTextWriter) : StructuredTextWriter :=
  let opened :=
    if state.contexts.isEmpty then
      state.put (ascii "<?xml version=\"1.0\" encoding=\"" ++ encoding ++
        ascii "\" standalone=\"yes\" ?>" ++ ascii "\n")
    else state.writeLinefeed
  let indented := opened.writeIndentation
  let tagged :=
    if elemType = .arrayElement then
      indented.put (ascii "<" ++ cStr name ++ ascii " type=\"array\" count=\"" ++
        printInt context.arraySize ++ ascii "\">")
    else indented.put (ascii "<" ++ cStr name ++ ascii ">")
  (if elemType ≠ .simpleElement then tagged.increaseIndentation else tagged).push context

def writeElementEnd (name : Bytes) (elemType : ElementType) (state : StructuredTextWriter) :
    StructuredTextWriter :=
  let popped := state.pop
  let closed :=
    if elemType ≠ .simpleElement then popped.decreaseIndentation.writeLinefeed.writeIndentation
    else popped
  closed.put (ascii "</" ++ cStr name ++ ascii ">")

def writeStringValue (val : Bytes) (state : StructuredTextWriter) : StructuredTextWriter :=
  { state with out := XmlEscapeSequence.write state.out (cStr val) }

end XmlWriter

/-- `xml_writer`. -/
def xmlWriter (encoding : Bytes) : StructuredWriter where
  startScalar := XmlWriter.startScalar
  endScalar := XmlWriter.endScalar
  writeElementStart := XmlWriter.writeElementStart encoding
  writeElementEnd := XmlWriter.writeElementEnd
  writeStringValue := XmlWriter.writeStringValue

namespace DataElement

/-- The attributes that a list carries. -/
def listAttributes (count : Int) : Bytes :=
  ascii " type=\"array\" count=\"" ++ printInt count ++ ascii "\""

mutual
/-- The element of the document that an element of the tree becomes. -/
def toElement : DataElement → Markup.Element
  | bool name val => .node (cStr name) [] (if val then ascii "true" else ascii "false") []
  | integer name val => .node (cStr name) [] (printInt val) []
  | string name val => .node (cStr name) [] (cStr val) []
  | dict name items => .node (cStr name) [] [] (toElements items)
  | list name items =>
      .node (cStr name) (listAttributes (toInt items.length)) [] (toElements items)

def toElements : List DataElement → List Markup.Element
  | [] => []
  | item :: items => item.toElement :: toElements items
end

end DataElement

/-! ## What is written -/

/-- The signs and digits of a number are no markup. -/
theorem plain_printInt (value : Int) : ∀ c ∈ printInt value, Markup.reference c = none := by
  intro c member
  have digits : ∀ c, isDigit c → Markup.reference c = none :=
    forall_byte (by decide +kernel)
  rcases mem_printInt member with digit | rfl
  · exact digits c digit
  · rfl

namespace XmlWriter

variable {encoding : Bytes} {state : StructuredTextWriter}

/-- A scalar is an element that holds character data. -/
theorem scalar_eq (compressed : state.compressed = true) (name text : Bytes) :
    (xmlWriter encoding).endScalar name
        (((xmlWriter encoding).startScalar name state).put (Markup.escape text)) =
      state.put (Markup.Element.node (cStr name) [] text []).print := by
  have started : (xmlWriter encoding).startScalar name state =
      state.put (ascii "<" ++ cStr name ++ ascii ">") := by
    change startScalar name state = _
    rw [startScalar, StructuredTextWriter.writeLinefeed_of_compressed compressed,
      StructuredTextWriter.writeIndentation_of_compressed compressed]
  change endScalar name _ = _
  rw [started, endScalar, StructuredTextWriter.put_put, StructuredTextWriter.put_put,
    Markup.print_node, Markup.printAll_nil]
  simp [ascii]

/-- What stands before the root of a document. -/
def declaration (encoding : Bytes) : Bytes :=
  ascii "<?xml version=\"1.0\" encoding=\"" ++ encoding ++
    ascii "\" standalone=\"yes\" ?>\n"

/-- The attributes of a container. -/
def attributes (context : WriterContext) : Bytes :=
  if context.elementType = .arrayElement then DataElement.listAttributes context.arraySize else []

theorem attributes_dict (name : Bytes) (count : Int) :
    attributes ⟨name, true, count, .objectElement⟩ = [] := if_neg (by simp)

theorem attributes_list (name : Bytes) (count : Int) :
    attributes ⟨name, true, count, .arrayElement⟩ = DataElement.listAttributes count := if_pos rfl

def startTag (context : WriterContext) : Bytes :=
  60 :: (cStr context.name ++ attributes context ++ [62])

/-- What stands before an element: the declaration, if no element is open. -/
def prologue (encoding : Bytes) (state : StructuredTextWriter) : Bytes :=
  if state.contexts = [] then declaration encoding else []

/-- A start tag is written, behind the declaration if no element is open. -/
theorem writeElementStart_eq (compressed : state.compressed = true) {context : WriterContext}
    (container : context.elementType ≠ .simpleElement) :
    (xmlWriter encoding).writeElementStart context.name context.elementType context state =
      ((state.put (prologue encoding state ++ startTag context)).increaseIndentation).push
        context := by
  have behind : (if state.contexts.isEmpty then
        state.put (ascii "<?xml version=\"1.0\" encoding=\"" ++ encoding ++
          ascii "\" standalone=\"yes\" ?>" ++ ascii "\n")
      else state.writeLinefeed) = state.put (prologue encoding state) := by
    rw [prologue, StructuredTextWriter.writeLinefeed_of_compressed compressed]
    by_cases first : state.contexts = []
    · rw [first, List.isEmpty_nil, if_pos rfl, if_pos rfl, declaration, List.append_assoc]
      rfl
    · rw [List.isEmpty_eq_false_iff.mpr first, if_neg Bool.false_ne_true, if_neg first,
        StructuredTextWriter.put_nil]
  have still : (state.put (prologue encoding state)).compressed = true := compressed
  simp only [xmlWriter, writeElementStart, behind, if_pos container,
    StructuredTextWriter.writeIndentation_of_compressed still]
  by_cases array : context.elementType = .arrayElement
  · rw [if_pos array, StructuredTextWriter.put_put, startTag, attributes, if_pos array,
      DataElement.listAttributes]
    simp [ascii]
  · rw [if_neg array, StructuredTextWriter.put_put, startTag, attributes, if_neg array]
    simp [ascii]

/-- The element on the top is ended under its name. -/
theorem endElement_eq (compressed : state.compressed = true) {context : WriterContext}
    (container : context.elementType ≠ .simpleElement) (text : Bytes) :
    (xmlWriter encoding).endElement ((state.increaseIndentation.push context).put text) =
      state.put (text ++ 60 :: 47 :: (cStr context.name ++ [62])) := by
  have same : ((state.increaseIndentation.push context).put text).pop.decreaseIndentation =
      state.put text :=
    congrArg (fun indentation => { state.put text with currentIndentation := indentation })
      (Int.add_sub_cancel _ _)
  have top : (xmlWriter encoding).endElement ((state.increaseIndentation.push context).put text) =
      writeElementEnd context.name context.elementType
        ((state.increaseIndentation.push context).put text) := rfl
  have still : (state.put text).compressed = true := compressed
  rw [top, writeElementEnd]
  simp only [if_pos container, same, StructuredTextWriter.writeLinefeed_of_compressed still,
    StructuredTextWriter.writeIndentation_of_compressed still, StructuredTextWriter.put_put]
  simp [ascii]

/-- A container is an element that holds its items. -/
theorem container_eq (compressed : state.compressed = true) (context : WriterContext)
    (container : context.elementType ≠ .simpleElement) {items : List DataElement}
    (written : ∀ state : StructuredTextWriter, state.compressed = true → state.contexts ≠ [] →
      (xmlWriter encoding).writeItems items state =
        state.put (Markup.printAll (DataElement.toElements items))) :
    (xmlWriter encoding).endElement ((xmlWriter encoding).writeItems items
        ((xmlWriter encoding).writeElementStart context.name context.elementType context state)) =
      state.put (prologue encoding state ++ (Markup.Element.node (cStr context.name)
        (attributes context) [] (DataElement.toElements items)).print) := by
  have inItems := written
    ((state.put (prologue encoding state ++ startTag context)).increaseIndentation.push context)
    compressed (List.cons_ne_nil _ _)
  have opened : (state.put (prologue encoding state ++ startTag context)).compressed = true :=
    compressed
  rw [writeElementStart_eq compressed container, inItems, endElement_eq opened container,
    StructuredTextWriter.put_put, Markup.print_node, startTag]
  simp only [Markup.escape_nil, List.append_nil, List.append_assoc, List.cons_append]

mutual
/-- **Inside an element, a tree is written as the element that it becomes.** -/
theorem write_eq : ∀ (element : DataElement) (state : StructuredTextWriter),
    state.compressed = true → state.contexts ≠ [] →
    (xmlWriter encoding).write element state = state.put element.toElement.print
  | .bool name val, state => by
      intro compressed inside
      have plain : (if val then ascii "true" else ascii "false") =
          Markup.escape (if val then ascii "true" else ascii "false") := by
        cases val <;> decide +kernel
      rw [StructuredWriter.write, StructuredWriter.writeBool, StructuredWriter.writeBoolValue,
        plain, scalar_eq compressed, DataElement.toElement]
  | .integer name val, state => by
      intro compressed inside
      rw [StructuredWriter.write, StructuredWriter.writeInteger,
        StructuredWriter.writeIntegerValue, ← Markup.escape_of_plain (plain_printInt val),
        scalar_eq compressed, DataElement.toElement]
  | .string name val, state => by
      intro compressed inside
      have escaped : (xmlWriter encoding).writeStringValue val
          ((xmlWriter encoding).startScalar name state) =
          ((xmlWriter encoding).startScalar name state).put (Markup.escape (cStr val)) :=
        congrArg (fun out => { (xmlWriter encoding).startScalar name state with out })
          (XmlEscapeSequence.write_eq _ _)
      rw [StructuredWriter.write, StructuredWriter.writeString, escaped, scalar_eq compressed,
        DataElement.toElement]
  | .dict name items, state => by
      intro compressed inside
      rw [StructuredWriter.write, DataElement.toElement]
      have written := container_eq compressed ⟨name, true, -1, .objectElement⟩ (by simp)
        (writeItems_eq items)
      rw [prologue, if_neg inside, attributes_dict] at written
      exact written
  | .list name items, state => by
      intro compressed inside
      rw [StructuredWriter.write, DataElement.toElement]
      have written := container_eq compressed
        ⟨name, true, toInt items.length, .arrayElement⟩ (by simp) (writeItems_eq items)
      rw [prologue, if_neg inside, attributes_list] at written
      exact written

theorem writeItems_eq : ∀ (items : List DataElement) (state : StructuredTextWriter),
    state.compressed = true → state.contexts ≠ [] →
    (xmlWriter encoding).writeItems items state =
      state.put (Markup.printAll (DataElement.toElements items))
  | [], state => by
      intro compressed inside
      rw [StructuredWriter.writeItems, DataElement.toElements, Markup.printAll_nil,
        StructuredTextWriter.put_nil]
  | item :: items, state => by
      intro compressed inside
      rw [StructuredWriter.writeItems, write_eq item state compressed inside,
        writeItems_eq items (state.put item.toElement.print) compressed inside,
        StructuredTextWriter.put_put, DataElement.toElements, Markup.printAll_cons]
end

/-- **A document is a declaration and the element that the tree becomes.** -/
theorem compressedOutput_eq {root : DataElement} (container : root.IsContainer) :
    (xmlWriter encoding).compressedOutput root =
      declaration encoding ++ root.toElement.print := by
  have fresh : prologue encoding (StructuredTextWriter.create true) = declaration encoding :=
    if_pos rfl
  have put : ∀ text, ((StructuredTextWriter.create true).put text).out = text := fun text => rfl
  cases root with
  | bool name val => exact container.elim
  | integer name val => exact container.elim
  | string name val => exact container.elim
  | dict name items =>
      have written := @container_eq encoding (StructuredTextWriter.create true) rfl
        ⟨name, true, -1, .objectElement⟩ (by simp) items (writeItems_eq items)
      rw [fresh, attributes_dict] at written
      rw [StructuredWriter.compressedOutput, StructuredWriter.write, StructuredWriter.startDict,
        written, put, DataElement.toElement]
  | list name items =>
      have written := @container_eq encoding (StructuredTextWriter.create true) rfl
        ⟨name, true, toInt items.length, .arrayElement⟩ (by simp) items (writeItems_eq items)
      rw [fresh, attributes_list] at written
      rw [StructuredWriter.compressedOutput, StructuredWriter.write, StructuredWriter.startList,
        written, put, DataElement.toElement]

end XmlWriter

/-! ## What a reader recovers -/

/-- A tree of names, with texts at its leaves. -/
inductive NamedTree where
  | leaf (name text : Bytes)
  | branch (name : Bytes) (items : List NamedTree)

namespace DataElement

mutual
/-- The names and the leaf strings of a tree. -/
def named : DataElement → NamedTree
  | bool name val => .leaf name (if val then ascii "true" else ascii "false")
  | integer name val => .leaf name (printInt val)
  | string name val => .leaf name val
  | dict name items => .branch name (namedItems items)
  | list name items => .branch name (namedItems items)

def namedItems : List DataElement → List NamedTree
  | [] => []
  | item :: items => item.named :: namedItems items
end

mutual
/-- What a reader sees of a tree: a dictionary without items is a leaf. -/
def recovered : DataElement → NamedTree
  | bool name val => .leaf name (if val then ascii "true" else ascii "false")
  | integer name val => .leaf name (printInt val)
  | string name val => .leaf name val
  | dict name items => if items.isEmpty then .leaf name [] else .branch name (recoveredItems items)
  | list name items => .branch name (recoveredItems items)

def recoveredItems : List DataElement → List NamedTree
  | [] => []
  | item :: items => item.recovered :: recoveredItems items
end

/-- An element that is no dictionary without items. -/
def HasItems : DataElement → Prop
  | bool _ _ | integer _ _ | string _ _ | list _ _ => True
  | dict _ items => items ≠ []

/-- A name of letters and digits. -/
def IsAlphanumeric (name : Bytes) : Prop := name ≠ [] ∧ ∀ c ∈ name, isAlpha c ∨ isDigit c

instance (name : Bytes) : Decidable (IsAlphanumeric name) := inferInstanceAs (Decidable (_ ∧ _))

end DataElement

mutual
/-- An element is a leaf if it holds no elements and has no attributes. -/
def namedTree : Markup.Element → NamedTree
  | .node name attributes text children =>
      if attributes.isEmpty && children.isEmpty then .leaf name text
      else .branch name (namedTrees children)

def namedTrees : List Markup.Element → List NamedTree
  | [] => []
  | element :: elements => namedTree element :: namedTrees elements
end

/-- The reader of a document. -/
def readTree (text : Bytes) : Option NamedTree :=
  ((Markup.stripDeclaration text).bind Markup.read).map namedTree

namespace DataElement

/-- A part that can be written: its name can, and its string if it is one. -/
def IsWritable (part : DataElement) : Prop := IsAlphanumeric part.name ∧ part.CleanString

theorem IsAlphanumeric.cStr_eq {name : Bytes} (alphanumeric : IsAlphanumeric name) :
    cStr name = name := by
  refine cStr_of_no_zero ?_
  intro zero
  exact absurd (alphanumeric.2 0 zero) (by decide)

theorem IsAlphanumeric.isName {name : Bytes} (alphanumeric : IsAlphanumeric name) :
    Markup.IsName name := by
  have allowed : ∀ c, isAlpha c ∨ isDigit c → Markup.isNameByte c = true :=
    forall_byte (by decide +kernel)
  exact ⟨alphanumeric.1, fun c member => allowed c (alphanumeric.2 c member)⟩

theorem areAttributes_nil : Markup.AreAttributes [] := by decide +kernel

theorem areAttributes_list (count : Int) : Markup.AreAttributes (listAttributes count) := by
  have digits : ∀ c, isDigit c → c ≠ 60 ∧ c ≠ 62 := forall_byte (by decide +kernel)
  refine ⟨.inr rfl, ?_⟩
  intro c member
  rw [listAttributes, List.mem_append, List.mem_append] at member
  rcases member with (before | number) | behind
  · revert c
    decide +kernel
  · rcases mem_printInt number with digit | rfl
    · exact digits c digit
    · decide
  · revert c
    decide +kernel

mutual
theorem proper_toElement : ∀ element : DataElement,
    (∀ part : DataElement, part.IsPart element → part.IsWritable) → element.toElement.Proper
  | bool name val, writable | integer name val, writable | string name val, writable => by
      have here := (writable _ .self).1
      rw [toElement]
      exact .node (here.cStr_eq.symm ▸ here.isName) areAttributes_nil (by simp)
  | dict name items, writable => by
      rw [forall_isPart_dict] at writable
      have here : IsAlphanumeric name := writable.1.1
      rw [toElement, here.cStr_eq]
      exact .node here.isName areAttributes_nil (proper_toElements items writable.2)
  | list name items, writable => by
      rw [forall_isPart_list] at writable
      have here : IsAlphanumeric name := writable.1.1
      rw [toElement, here.cStr_eq]
      exact .node here.isName (areAttributes_list _) (proper_toElements items writable.2)

theorem proper_toElements : ∀ items : List DataElement,
    (∀ item ∈ items, ∀ part : DataElement, part.IsPart item → part.IsWritable) →
    ∀ element ∈ toElements items, element.Proper
  | [], _ => by
      intro element member
      cases member
  | item :: items, writable => by
      rw [List.forall_mem_cons] at writable
      rw [toElements, List.forall_mem_cons]
      exact ⟨proper_toElement item writable.1, proper_toElements items writable.2⟩
end

theorem isEmpty_toElements (items : List DataElement) :
    (toElements items).isEmpty = items.isEmpty := by
  cases items <;> rfl

mutual
/-- The element that a tree becomes shows its names and its values. -/
theorem namedTree_toElement : ∀ element : DataElement,
    (∀ part : DataElement, part.IsPart element → part.IsWritable) →
    namedTree element.toElement = element.recovered
  | bool name val, writable | integer name val, writable => by
      have here : IsAlphanumeric name := (writable _ .self).1
      rw [toElement, here.cStr_eq, recovered]
      rfl
  | string name val, writable => by
      have here : IsAlphanumeric name := (writable _ .self).1
      have clean : (0 : UInt8) ∉ val := (writable _ .self).2
      rw [toElement, here.cStr_eq, cStr_of_no_zero clean, recovered]
      rfl
  | dict name items, writable => by
      rw [forall_isPart_dict] at writable
      have here : IsAlphanumeric name := writable.1.1
      rw [toElement, here.cStr_eq, namedTree, namedTrees_toElements items writable.2,
        isEmpty_toElements, recovered]
      rfl
  | list name items, writable => by
      rw [forall_isPart_list] at writable
      have here : IsAlphanumeric name := writable.1.1
      rw [toElement, here.cStr_eq, namedTree, namedTrees_toElements items writable.2, recovered]
      rfl

theorem namedTrees_toElements : ∀ items : List DataElement,
    (∀ item ∈ items, ∀ part : DataElement, part.IsPart item → part.IsWritable) →
    namedTrees (toElements items) = recoveredItems items
  | [], _ => rfl
  | item :: items, writable => by
      rw [List.forall_mem_cons] at writable
      rw [toElements, namedTrees, namedTree_toElement item writable.1,
        namedTrees_toElements items writable.2, recoveredItems]
end

mutual
/-- Everything is recovered of a tree in which every dictionary has items. -/
theorem recovered_eq_named : ∀ element : DataElement, element.recovered = element.named ↔
    ∀ part : DataElement, part.IsPart element → part.HasItems
  | bool name val | integer name val | string name val => by
      refine iff_of_true rfl ?_
      rintro part ⟨⟩
      trivial
  | dict name items => by
      rw [forall_isPart_dict, ← recoveredItems_eq_namedItems items, recovered, named]
      cases items with
      | nil => simp [HasItems]
      | cons item items => simp [HasItems]
  | list name items => by
      rw [forall_isPart_list, ← recoveredItems_eq_namedItems items, recovered, named]
      simp [HasItems]

theorem recoveredItems_eq_namedItems : ∀ items : List DataElement,
    recoveredItems items = namedItems items ↔
      ∀ item ∈ items, ∀ part : DataElement, part.IsPart item → part.HasItems
  | [] => by simp [recoveredItems, namedItems]
  | item :: items => by
      rw [recoveredItems, namedItems, List.cons.injEq, recovered_eq_named item,
        recoveredItems_eq_namedItems items, List.forall_mem_cons]
end

end DataElement

/-- The declaration ends where the element begins. -/
theorem stripDeclaration_declaration {encoding : Bytes} (plain : (63 : UInt8) ∉ encoding)
    (name attributes text : Bytes) (children : List Markup.Element) :
    Markup.stripDeclaration (XmlWriter.declaration encoding ++
        (Markup.Element.node name attributes text children).print) =
      some (Markup.Element.node name attributes text children).print := by
  have cut : XmlWriter.declaration encoding = 60 :: 63 :: 120 :: 109 :: 108 ::
      ((ascii " version=\"1.0\" encoding=\"" ++ encoding ++ ascii "\" standalone=\"yes\" ") ++
        63 :: 62 :: [10]) := by
    simp [XmlWriter.declaration, ascii]
  have clean : (63 : UInt8) ∉ ascii " version=\"1.0\" encoding=\"" ++ encoding ++
      ascii "\" standalone=\"yes\" " := by
    rw [List.mem_append, List.mem_append, not_or, not_or]
    exact ⟨⟨by decide +kernel, plain⟩, by decide +kernel⟩
  rw [cut, List.cons_append, List.cons_append, List.cons_append, List.cons_append,
    List.cons_append, Markup.stripDeclaration, List.append_assoc, List.cons_append,
    List.cons_append, Markup.afterDeclaration_append clean, Markup.print_node]
  rfl

/-- **What a reader recovers of a document.**  The tags are nested, the markup characters
stand in references, and a reader recovers the names and the values of the tree, except
that it takes a dictionary without items for a scalar whose text is empty. -/
theorem xml_round_trip {encoding : Bytes} (plain : (63 : UInt8) ∉ encoding) {root : DataElement}
    (container : root.IsContainer)
    (writable : ∀ part : DataElement, part.IsPart root → part.IsWritable) :
    ∃ body pieces tokens,
      (xmlWriter encoding).compressedOutput root = XmlWriter.declaration encoding ++ body ∧
      Markup.split body = some pieces ∧
      (∀ raw, Markup.Piece.chars raw ∈ pieces → Markup.CharacterData raw) ∧
      pieces.mapM Markup.Piece.token = some tokens ∧ Markup.Nested [] tokens ∧
      readTree ((xmlWriter encoding).compressedOutput root) = some root.recovered ∧
      (root.recovered = root.named ↔ ∀ part : DataElement, part.IsPart root → part.HasItems) := by
  have proper := DataElement.proper_toElement root writable
  have nested := (Markup.nested_tokens root.toElement [] []).mpr rfl
  rw [List.append_nil] at nested
  refine ⟨root.toElement.print, root.toElement.tokens.flatMap Markup.Token.pieces,
    root.toElement.tokens, XmlWriter.compressedOutput_eq container, Markup.split_print proper,
    fun raw member => Markup.characterData_pieces member,
    Markup.tokens_pieces (Markup.proper_tokens proper), nested, ?_,
    DataElement.recovered_eq_named root⟩
  have stripped : Markup.stripDeclaration
      (XmlWriter.declaration encoding ++ root.toElement.print) = some root.toElement.print := by
    cases root.toElement with
    | node name attributes text children => exact stripDeclaration_declaration plain ..
  rw [XmlWriter.compressedOutput_eq container, readTree, stripped, Option.bind_some,
    Markup.read_print proper, Option.map_some, DataElement.namedTree_toElement root writable]

/-- A list with a text full of markup. -/
theorem xml_round_trip_markup : ∃ body pieces tokens,
    (xmlWriter (ascii "utf-8")).compressedOutput
        (.dict (ascii "root") [.list (ascii "l") [.string (ascii "s") (ascii "<a>&lt;'\"")],
          .integer (ascii "n") (-5)]) =
      XmlWriter.declaration (ascii "utf-8") ++ body ∧
    Markup.split body = some pieces ∧
    (∀ raw, Markup.Piece.chars raw ∈ pieces → Markup.CharacterData raw) ∧
    pieces.mapM Markup.Piece.token = some tokens ∧ Markup.Nested [] tokens ∧
    readTree ((xmlWriter (ascii "utf-8")).compressedOutput
        (.dict (ascii "root") [.list (ascii "l") [.string (ascii "s") (ascii "<a>&lt;'\"")],
          .integer (ascii "n") (-5)])) =
      some (DataElement.dict (ascii "root") [.list (ascii "l")
        [.string (ascii "s") (ascii "<a>&lt;'\"")], .integer (ascii "n") (-5)]).recovered ∧
    ((DataElement.dict (ascii "root") [.list (ascii "l")
        [.string (ascii "s") (ascii "<a>&lt;'\"")], .integer (ascii "n") (-5)]).recovered =
        (DataElement.dict (ascii "root") [.list (ascii "l")
          [.string (ascii "s") (ascii "<a>&lt;'\"")], .integer (ascii "n") (-5)]).named ↔
      ∀ part : DataElement, part.IsPart (.dict (ascii "root") [.list (ascii "l")
        [.string (ascii "s") (ascii "<a>&lt;'\"")], .integer (ascii "n") (-5)]) →
          part.HasItems) := by
  refine xml_round_trip (by decide +kernel) trivial ?_
  have leaf : ∀ part : DataElement,
      part.IsPart (.string (ascii "s") (ascii "<a>&lt;'\"")) → part.IsWritable := by
    rintro part ⟨⟩
    exact ⟨by decide +kernel, (by decide +kernel : (0 : UInt8) ∉ ascii "<a>&lt;'\"")⟩
  have number : ∀ part : DataElement, part.IsPart (.integer (ascii "n") (-5)) →
      part.IsWritable := by
    rintro part ⟨⟩
    exact ⟨by decide +kernel, trivial⟩
  rw [DataElement.forall_isPart_dict, List.forall_mem_cons, List.forall_mem_singleton,
    DataElement.forall_isPart_list, List.forall_mem_singleton]
  exact ⟨⟨by decide +kernel, trivial⟩, ⟨⟨by decide +kernel, trivial⟩, leaf⟩, number⟩

/-- No reader can tell a dictionary without items from an empty string. -/
theorem empty_dict_is_an_empty_string :
    ¬ ∃ reader : Bytes → Option NamedTree, ∀ root : DataElement, root.IsContainer →
      (∀ part : DataElement, part.IsPart root → part.IsWritable) →
      reader ((xmlWriter (ascii "utf-8")).compressedOutput root) = some root.named := by
  rintro ⟨reader, recovers⟩
  have asDict := recovers (.dict (ascii "root") [.dict (ascii "a") []]) trivial
    (by
      rw [DataElement.forall_isPart_dict, List.forall_mem_singleton,
        DataElement.forall_isPart_dict]
      exact ⟨⟨by decide +kernel, trivial⟩, ⟨by decide +kernel, trivial⟩, by simp⟩)
  have asString := recovers (.dict (ascii "root") [.string (ascii "a") []]) trivial
    (by
      rw [DataElement.forall_isPart_dict, List.forall_mem_singleton]
      refine ⟨⟨by decide +kernel, trivial⟩, ?_⟩
      rintro part ⟨⟩
      exact ⟨by decide +kernel, List.not_mem_nil⟩)
  have same : (xmlWriter (ascii "utf-8")).compressedOutput
      (.dict (ascii "root") [.dict (ascii "a") []]) =
      (xmlWriter (ascii "utf-8")).compressedOutput
        (.dict (ascii "root") [.string (ascii "a") []]) := by
    decide +kernel
  rw [same, asString] at asDict
  simp [DataElement.named, DataElement.namedItems] at asDict

end Xul
