import Xul.Std.Bytes

/-!
# Structured text writers

A structured writer is told of scalars, lists and dictionaries as they begin and end, and
keeps the elements that are open on a stack of contexts.  What it writes at the beginning
and the end of an element is left to the format (`StructuredWriter`).

A tree of values is written by one sequence of calls (`StructuredWriter.write`).
-/

set_option autoImplicit false

namespace Xul

/-- `element_type_enum`. -/
inductive ElementType where
  | simpleElement
  | objectElement
  | arrayElement
deriving DecidableEq

/-- `writer_context`. -/
structure WriterContext where
  name : Bytes
  isFirstItem : Bool
  arraySize : Int
  elementType : ElementType
deriving DecidableEq

/-- `structured_text_writer`, with what it has written to its stream.  The top of the
stack of contexts comes first. -/
structure StructuredTextWriter where
  out : Bytes
  compressed : Bool
  linefeed : Bytes
  indentationUnit : Int
  currentIndentation : Int
  contexts : List WriterContext
deriving DecidableEq

namespace StructuredTextWriter

def setLinefeed (linefeed : Bytes) (writer : StructuredTextWriter) : StructuredTextWriter :=
  { writer with linefeed }

/-- The unit is limited to the range from 0 to 256. -/
def setIndentation (indentation : Int) (writer : StructuredTextWriter) : StructuredTextWriter :=
  { writer with indentationUnit := max 0 (min indentation 256) }

def create (compressed : Bool) : StructuredTextWriter :=
  (setLinefeed (ascii "\n") ⟨[], compressed, [], 0, 0, []⟩).setIndentation 2

def put (text : Bytes) (writer : StructuredTextWriter) : StructuredTextWriter :=
  { writer with out := writer.out ++ text }

def writeLinefeed (writer : StructuredTextWriter) : StructuredTextWriter :=
  if writer.compressed then writer else writer.put writer.linefeed

def writeIndentation (writer : StructuredTextWriter) : StructuredTextWriter :=
  if writer.compressed then writer
  else writer.put (List.replicate writer.currentIndentation.toNat 32)

def increaseIndentation (writer : StructuredTextWriter) : StructuredTextWriter :=
  { writer with currentIndentation := writer.currentIndentation + writer.indentationUnit }

def decreaseIndentation (writer : StructuredTextWriter) : StructuredTextWriter :=
  { writer with currentIndentation := writer.currentIndentation - writer.indentationUnit }

def push (context : WriterContext) (writer : StructuredTextWriter) : StructuredTextWriter :=
  { writer with contexts := context :: writer.contexts }

def pop (writer : StructuredTextWriter) : StructuredTextWriter :=
  { writer with contexts := writer.contexts.tail }

/-- The context on the top is changed in place. -/
def setFirstItem (isFirstItem : Bool) (writer : StructuredTextWriter) : StructuredTextWriter :=
  { writer with contexts :=
    match writer.contexts with
    | [] => []
    | context :: contexts => { context with isFirstItem } :: contexts }

end StructuredTextWriter

/-- The functions that a format overrides. -/
structure StructuredWriter where
  startScalar : Bytes → StructuredTextWriter → StructuredTextWriter
  endScalar : Bytes → StructuredTextWriter → StructuredTextWriter
  writeElementStart : Bytes → ElementType → WriterContext → StructuredTextWriter →
    StructuredTextWriter
  writeElementEnd : Bytes → ElementType → StructuredTextWriter → StructuredTextWriter
  writeStringValue : Bytes → StructuredTextWriter → StructuredTextWriter

/-- A value with the name it is written under: what a caller writes, one call after
another. -/
inductive DataElement where
  | bool (name : Bytes) (val : Bool)
  | integer (name : Bytes) (val : Int)
  | string (name : Bytes) (val : Bytes)
  | dict (name : Bytes) (items : List DataElement)
  | list (name : Bytes) (items : List DataElement)

namespace StructuredWriter

variable (writer : StructuredWriter)

def writeBoolValue (val : Bool) (state : StructuredTextWriter) : StructuredTextWriter :=
  state.put (if val then ascii "true" else ascii "false")

/-- An integer of any of the integer types is printed in decimal. -/
def writeIntegerValue (val : Int) (state : StructuredTextWriter) : StructuredTextWriter :=
  state.put (printInt val)

def startDict (name : Bytes) (state : StructuredTextWriter) : StructuredTextWriter :=
  writer.writeElementStart name .objectElement ⟨name, true, -1, .objectElement⟩ state

def startList (name : Bytes) (count : Int) (state : StructuredTextWriter) :
    StructuredTextWriter :=
  writer.writeElementStart name .arrayElement ⟨name, true, count, .arrayElement⟩ state

/-- `end_dict` and `end_list`, which end the element on the top of the stack. -/
def endElement (state : StructuredTextWriter) : StructuredTextWriter :=
  match state.contexts with
  | [] => state
  | context :: _ => writer.writeElementEnd context.name context.elementType state

def writeBool (name : Bytes) (val : Bool) (state : StructuredTextWriter) :
    StructuredTextWriter :=
  writer.endScalar name (writeBoolValue val (writer.startScalar name state))

def writeInteger (name : Bytes) (val : Int) (state : StructuredTextWriter) :
    StructuredTextWriter :=
  writer.endScalar name (writeIntegerValue val (writer.startScalar name state))

def writeString (name val : Bytes) (state : StructuredTextWriter) : StructuredTextWriter :=
  writer.endScalar name (writer.writeStringValue val (writer.startScalar name state))

/-! ## Writing a tree -/

mutual
/-- The calls that write a tree. -/
def write : DataElement → StructuredTextWriter → StructuredTextWriter
  | .bool name val, state => writer.writeBool name val state
  | .integer name val, state => writer.writeInteger name val state
  | .string name val, state => writer.writeString name val state
  | .dict name items, state => writer.endElement (writeItems items (writer.startDict name state))
  | .list name items, state =>
      writer.endElement (writeItems items (writer.startList name (toInt items.length) state))

def writeItems : List DataElement → StructuredTextWriter → StructuredTextWriter
  | [], state => state
  | item :: items, state => writeItems items (write item state)
end

/-- What a writer that compresses has written of a tree. -/
def compressedOutput (root : DataElement) : Bytes :=
  (writer.write root (StructuredTextWriter.create true)).out

end StructuredWriter

namespace DataElement

/-- Dictionaries and lists can be the root of a tree. -/
def IsContainer : DataElement → Prop
  | bool _ _ | integer _ _ | string _ _ => False
  | dict _ _ | list _ _ => True

def name : DataElement → Bytes
  | bool name _ | integer name _ | string name _ | dict name _ | list name _ => name

/-- A string without a zero byte, which would end it. -/
def CleanString : DataElement → Prop
  | string _ val => 0 ∉ val
  | bool _ _ | integer _ _ | dict _ _ | list _ _ => True

/-- Every part of a tree, which is a part of itself. -/
inductive IsPart (part : DataElement) : DataElement → Prop where
  | self : IsPart part part
  | dict {name : Bytes} {items : List DataElement} {item : DataElement} (member : item ∈ items)
      (inside : IsPart part item) : IsPart part (.dict name items)
  | list {name : Bytes} {items : List DataElement} {item : DataElement} (member : item ∈ items)
      (inside : IsPart part item) : IsPart part (.list name items)

/-- What holds of every part of a dictionary holds of it and of every part of its items. -/
theorem forall_isPart_dict {p : DataElement → Prop} {name : Bytes} {items : List DataElement} :
    (∀ part : DataElement, part.IsPart (dict name items) → p part) ↔
      p (dict name items) ∧
        ∀ item ∈ items, ∀ part : DataElement, part.IsPart item → p part := by
  constructor
  · exact fun all => ⟨all _ .self, fun item member part inside => all part (.dict member inside)⟩
  · rintro ⟨here, below⟩ part (_ | ⟨member, inside⟩)
    · exact here
    · exact below _ member part inside

theorem forall_isPart_list {p : DataElement → Prop} {name : Bytes} {items : List DataElement} :
    (∀ part : DataElement, part.IsPart (list name items) → p part) ↔
      p (list name items) ∧
        ∀ item ∈ items, ∀ part : DataElement, part.IsPart item → p part := by
  constructor
  · exact fun all => ⟨all _ .self, fun item member part inside => all part (.list member inside)⟩
  · rintro ⟨here, below⟩ part (_ | _ | ⟨member, inside⟩)
    · exact here
    · exact below _ member part inside

end DataElement

/-! ## A writer that compresses -/

namespace StructuredTextWriter

variable {writer : StructuredTextWriter}

@[simp] theorem put_out (text : Bytes) : (writer.put text).out = writer.out ++ text := rfl

@[simp] theorem put_compressed (text : Bytes) :
    (writer.put text).compressed = writer.compressed := rfl

@[simp] theorem put_put (text more : Bytes) :
    (writer.put text).put more = writer.put (text ++ more) :=
  congrArg (fun out => { writer with out }) (List.append_assoc ..)

@[simp] theorem put_nil : writer.put [] = writer :=
  congrArg (fun out => { writer with out }) (List.append_nil _)

@[simp] theorem put_contexts (text : Bytes) : (writer.put text).contexts = writer.contexts := rfl

@[simp] theorem setFirstItem_put (first : Bool) (text : Bytes) :
    (writer.setFirstItem first).put text = (writer.put text).setFirstItem first := rfl

@[simp] theorem setFirstItem_setFirstItem (first second : Bool) :
    (writer.setFirstItem first).setFirstItem second = writer.setFirstItem second := by
  cases top : writer.contexts with
  | nil => simp [setFirstItem, top]
  | cons context contexts => simp [setFirstItem, top]

theorem setFirstItem_contexts {context : WriterContext} {contexts : List WriterContext}
    (top : writer.contexts = context :: contexts) (first : Bool) :
    (writer.setFirstItem first).contexts =
      { context with isFirstItem := first } :: contexts := by
  simp [setFirstItem, top]

theorem setFirstItem_self {context : WriterContext} {contexts : List WriterContext}
    (top : writer.contexts = context :: contexts) :
    writer.setFirstItem context.isFirstItem = writer := by
  rw [setFirstItem, top]
  exact congrArg (fun contexts => { writer with contexts }) top.symm

theorem writeLinefeed_of_compressed (compressed : writer.compressed = true) :
    writer.writeLinefeed = writer := if_pos compressed

theorem writeIndentation_of_compressed (compressed : writer.compressed = true) :
    writer.writeIndentation = writer := if_pos compressed

end StructuredTextWriter

end Xul
