import Xul.Foundation.Json
import Xul.Text.StructuredTextWriter

/-!
# The JSON writer

Commas are placed by a flag of the context on the top of the stack, and the items of a
list are written without their names.  Names and strings are written between quotes as
they are.

What is written of a tree denotes the tree if and only if every name and string that is
written is plain: UTF-8, without control characters, quotes and backslashes.
-/

set_option autoImplicit false

namespace Xul

open Foundation

namespace JsonWriter

/-- The comma behind the item before, if there is one. -/
def writeSeparator (state : StructuredTextWriter) : StructuredTextWriter :=
  match state.contexts with
  | [] => state
  | upper :: _ =>
      (if upper.isFirstItem = false then state.put (ascii ",") else state).setFirstItem false

/-- The items of an array have no names. -/
def writeName (name : Bytes) (upper : Option WriterContext) (state : StructuredTextWriter) :
    StructuredTextWriter :=
  if upper.map WriterContext.elementType ≠ some .arrayElement then
    state.put (ascii "\"" ++ cStr name ++ ascii "\" : ")
  else state

def startScalar (name : Bytes) (state : StructuredTextWriter) : StructuredTextWriter :=
  writeName name state.contexts.head? (writeSeparator state).writeLinefeed.writeIndentation

def endScalar (_ : Bytes) (state : StructuredTextWriter) : StructuredTextWriter := state

/-- What is written before the start mark of an element.  The text itself is an object. -/
def writeElementName (name : Bytes) (state : StructuredTextWriter) : StructuredTextWriter :=
  let separated :=
    if state.contexts.isEmpty then (state.put (ascii "\x7b")).increaseIndentation
    else writeSeparator state
  writeName name state.contexts.head? separated.writeLinefeed.writeIndentation

def writeElementStart (name : Bytes) (elemType : ElementType) (context : WriterContext)
    (state : StructuredTextWriter) : StructuredTextWriter :=
  let named := writeElementName name state
  let started :=
    match elemType with
    | .objectElement => (named.put (ascii "\x7b")).increaseIndentation
    | .arrayElement => (named.put (ascii "[ ")).increaseIndentation
    | .simpleElement => named
  started.push context

def writeElementEnd (_ : Bytes) (elemType : ElementType) (state : StructuredTextWriter) :
    StructuredTextWriter :=
  let popped := state.pop
  let closed :=
    match elemType with
    | .objectElement =>
        popped.decreaseIndentation.writeLinefeed.writeIndentation.put (ascii "\x7d")
    | .arrayElement =>
        popped.decreaseIndentation.writeLinefeed.writeIndentation.put (ascii "]")
    | .simpleElement => popped
  if closed.contexts.isEmpty then closed.decreaseIndentation.writeLinefeed.put (ascii "\x7d")
  else closed

def writeStringValue (val : Bytes) (state : StructuredTextWriter) : StructuredTextWriter :=
  state.put (ascii "\"" ++ cStr val ++ ascii "\"")

end JsonWriter

/-- `json_writer`. -/
def jsonWriter : StructuredWriter where
  startScalar := JsonWriter.startScalar
  endScalar := JsonWriter.endScalar
  writeElementStart := JsonWriter.writeElementStart
  writeElementEnd := JsonWriter.writeElementEnd
  writeStringValue := JsonWriter.writeStringValue

/-! ## The text of a tree -/

namespace DataElement

/-- What is written before the value of an item. -/
def lead (elementType : ElementType) (first : Bool) (name : Bytes) : Bytes :=
  (if first then [] else [44]) ++
    if elementType = .arrayElement then [] else 34 :: (cStr name ++ [34, 32, 58, 32])

mutual
def valueText : DataElement → Bytes
  | bool _ val => if val then ascii "true" else ascii "false"
  | integer _ val => printInt val
  | string _ val => 34 :: (cStr val ++ [34])
  | dict _ items => 123 :: (itemsText .objectElement true items ++ [125])
  | list _ items => 91 :: 32 :: (itemsText .arrayElement true items ++ [93])

def itemsText (elementType : ElementType) : Bool → List DataElement → Bytes
  | _, [] => []
  | first, item :: items =>
      lead elementType first item.name ++ (item.valueText ++ itemsText elementType false items)
end

end DataElement

namespace JsonWriter

variable {state : StructuredTextWriter}

/-- What an item begins with depends on the context on the top, which is changed. -/
theorem begin_eq (compressed : state.compressed = true) {context : WriterContext}
    {contexts : List WriterContext} (top : state.contexts = context :: contexts) (name : Bytes) :
    writeName name state.contexts.head? (writeSeparator state).writeLinefeed.writeIndentation =
      (state.put (DataElement.lead context.elementType context.isFirstItem name)).setFirstItem
        false := by
  have separated : writeSeparator state =
      (state.put (if context.isFirstItem then [] else [44])).setFirstItem false := by
    rw [writeSeparator, top]
    cases first : context.isFirstItem with
    | false => simp [first, ascii]
    | true => simp [first]
  have still : (writeSeparator state).compressed = true := by
    rw [separated]
    exact compressed
  rw [StructuredTextWriter.writeLinefeed_of_compressed still,
    StructuredTextWriter.writeIndentation_of_compressed still, separated, writeName, top,
    List.head?_cons, Option.map_some, DataElement.lead]
  by_cases array : context.elementType = .arrayElement
  · simp [array]
  · simp [array, ascii]

/-- The mark that ends a container. -/
def closing (elementType : ElementType) : UInt8 :=
  if elementType = .arrayElement then 93 else 125

/-- The container on the top is ended, and the text too if it was the last one. -/
theorem endElement_eq (compressed : state.compressed = true) {context : WriterContext}
    (container : context.elementType ≠ .simpleElement) (text : Bytes) (first : Bool) :
    jsonWriter.endElement (((state.increaseIndentation.push context).put text).setFirstItem first) =
      if state.contexts.isEmpty then
        (state.put (text ++ [closing context.elementType, 125])).decreaseIndentation
      else state.put (text ++ [closing context.elementType]) := by
  have same : (((state.increaseIndentation.push context).put text).setFirstItem
      first).pop.decreaseIndentation = state.put text :=
    congrArg (fun indentation => { state.put text with currentIndentation := indentation })
      (Int.add_sub_cancel _ _)
  have still : ∀ text, (state.put text).compressed = true := fun text => compressed
  have last : ∀ writer : StructuredTextWriter, writer.compressed = true →
      writer.decreaseIndentation.writeLinefeed.put (ascii "\x7d") =
        (writer.put [125]).decreaseIndentation := by
    intro writer still
    have less : writer.decreaseIndentation.compressed = true := still
    rw [StructuredTextWriter.writeLinefeed_of_compressed less]
    rfl
  change writeElementEnd context.name context.elementType _ = _
  cases type : context.elementType with
  | simpleElement => exact absurd type container
  | objectElement =>
      simp only [writeElementEnd, same, StructuredTextWriter.writeLinefeed_of_compressed (still _),
        StructuredTextWriter.writeIndentation_of_compressed (still _), last _ (still _),
        StructuredTextWriter.put_put, StructuredTextWriter.put_contexts, closing]
      simp [ascii]
  | arrayElement =>
      simp only [writeElementEnd, same, StructuredTextWriter.writeLinefeed_of_compressed (still _),
        StructuredTextWriter.writeIndentation_of_compressed (still _), last _ (still _),
        StructuredTextWriter.put_put, StructuredTextWriter.put_contexts, closing]
      simp [ascii]

def opening (elementType : ElementType) : Bytes :=
  if elementType = .arrayElement then [91, 32] else [123]

/-- A container is started and ended around its items. -/
theorem container_eq (context : WriterContext) (container : context.elementType ≠ .simpleElement)
    (compressed : (writeElementName context.name state).compressed = true)
    {items : List DataElement} {text : Bytes} {first : Bool}
    (written : ∀ (state : StructuredTextWriter) (contexts : List WriterContext),
      state.compressed = true → state.contexts = context :: contexts →
      jsonWriter.writeItems items state = (state.put text).setFirstItem first) :
    jsonWriter.endElement (jsonWriter.writeItems items
        (jsonWriter.writeElementStart context.name context.elementType context state)) =
      if (writeElementName context.name state).contexts.isEmpty then
        ((writeElementName context.name state).put (opening context.elementType ++ text ++
          [closing context.elementType, 125])).decreaseIndentation
      else (writeElementName context.name state).put (opening context.elementType ++ text ++
        [closing context.elementType]) := by
  have started : jsonWriter.writeElementStart context.name context.elementType context state =
      (((writeElementName context.name state).put
        (opening context.elementType)).increaseIndentation).push context := by
    change writeElementStart context.name context.elementType context state = _
    cases type : context.elementType with
    | simpleElement => exact absurd type container
    | objectElement => rfl
    | arrayElement => rfl
  rw [started]
  generalize writeElementName context.name state = named at compressed
  have inItems := written
    (((named.put (opening context.elementType)).increaseIndentation).push context)
    named.contexts compressed rfl
  have still : (named.put (opening context.elementType)).compressed = true := compressed
  rw [inItems, endElement_eq still container]
  simp only [StructuredTextWriter.put_put, StructuredTextWriter.put_contexts, List.append_assoc]

/-- Inside a container, an element begins as an item does. -/
theorem writeElementName_inside (compressed : state.compressed = true) {context : WriterContext}
    {contexts : List WriterContext} (top : state.contexts = context :: contexts) (name : Bytes) :
    writeElementName name state =
      (state.put (DataElement.lead context.elementType context.isFirstItem name)).setFirstItem
        false := by
  rw [← begin_eq compressed top, writeElementName, top]
  rfl

/-- The text begins with a mark of its own and the name of the root. -/
theorem writeElementName_outside (compressed : state.compressed = true)
    (outside : state.contexts = []) (name : Bytes) :
    writeElementName name state =
      (state.put (123 :: DataElement.lead .objectElement true name)).increaseIndentation := by
  have still : (state.put (ascii "\x7b")).increaseIndentation.compressed = true := compressed
  have named : ∀ writer : StructuredTextWriter, writeName name none writer =
      writer.put (DataElement.lead .objectElement true name) := by
    intro writer
    rw [writeName, Option.map_none, if_pos (by simp), DataElement.lead, if_pos rfl,
      if_neg (by simp)]
    simp [ascii]
  rw [writeElementName, outside, List.isEmpty_nil, if_pos rfl, List.head?_nil,
    StructuredTextWriter.writeLinefeed_of_compressed still,
    StructuredTextWriter.writeIndentation_of_compressed still, named]
  exact congrArg StructuredTextWriter.increaseIndentation
    (StructuredTextWriter.put_put (ascii "\x7b") _)

/-- A container inside of another one. -/
theorem container_inside (compressed : state.compressed = true) {context : WriterContext}
    {contexts : List WriterContext} (top : state.contexts = context :: contexts)
    (inner : WriterContext) (container : inner.elementType ≠ .simpleElement)
    {items : List DataElement} {text : Bytes} {first : Bool}
    (written : ∀ (state : StructuredTextWriter) (contexts : List WriterContext),
      state.compressed = true → state.contexts = inner :: contexts →
      jsonWriter.writeItems items state = (state.put text).setFirstItem first) :
    jsonWriter.endElement (jsonWriter.writeItems items
        (jsonWriter.writeElementStart inner.name inner.elementType inner state)) =
      (state.put (DataElement.lead context.elementType context.isFirstItem inner.name ++
        (opening inner.elementType ++ text ++ [closing inner.elementType]))).setFirstItem
          false := by
  have named := writeElementName_inside compressed top inner.name
  have still : (writeElementName inner.name state).compressed = true := by
    rw [named]
    exact compressed
  have begun : (state.put (DataElement.lead context.elementType context.isFirstItem
      inner.name)).contexts = context :: contexts := top
  have nested : (writeElementName inner.name state).contexts.isEmpty = false := by
    rw [named, StructuredTextWriter.setFirstItem_contexts begun]
    rfl
  rw [container_eq inner container still written, nested, named]
  simp only [StructuredTextWriter.setFirstItem_put, StructuredTextWriter.put_put,
    Bool.false_eq_true, if_false]

/-- A container that is the root of a text. -/
theorem container_outside (compressed : state.compressed = true) (outside : state.contexts = [])
    (inner : WriterContext) (container : inner.elementType ≠ .simpleElement)
    {items : List DataElement} {text : Bytes} {first : Bool}
    (written : ∀ (state : StructuredTextWriter) (contexts : List WriterContext),
      state.compressed = true → state.contexts = inner :: contexts →
      jsonWriter.writeItems items state = (state.put text).setFirstItem first) :
    (jsonWriter.endElement (jsonWriter.writeItems items
        (jsonWriter.writeElementStart inner.name inner.elementType inner state))).out =
      state.out ++ 123 :: (DataElement.lead .objectElement true inner.name ++
        (opening inner.elementType ++ text ++ [closing inner.elementType, 125])) := by
  have named := writeElementName_outside compressed outside inner.name
  have still : (writeElementName inner.name state).compressed = true := by
    rw [named]
    exact compressed
  have last : (writeElementName inner.name state).contexts.isEmpty = true := by
    rw [named]
    exact List.isEmpty_iff.mpr outside
  rw [container_eq inner container still written, last, if_pos rfl, named]
  change (state.out ++ 123 :: DataElement.lead .objectElement true inner.name) ++ _ = _
  rw [List.append_assoc, List.cons_append]

/-- A scalar is written behind what it begins with. -/
theorem scalar_eq (compressed : state.compressed = true) {context : WriterContext}
    {contexts : List WriterContext} (top : state.contexts = context :: contexts)
    (name text : Bytes) :
    (jsonWriter.startScalar name state).put text =
      (state.put (DataElement.lead context.elementType context.isFirstItem name ++
        text)).setFirstItem false := by
  change (writeName name state.contexts.head?
    (writeSeparator state).writeLinefeed.writeIndentation).put text = _
  rw [begin_eq compressed top, StructuredTextWriter.setFirstItem_put,
    StructuredTextWriter.put_put]

mutual
/-- **Inside a container, an item is written behind what it begins with.** -/
theorem write_eq : ∀ (element : DataElement) (state : StructuredTextWriter)
    (context : WriterContext) (contexts : List WriterContext), state.compressed = true →
    state.contexts = context :: contexts →
    jsonWriter.write element state =
      (state.put (DataElement.lead context.elementType context.isFirstItem element.name ++
        element.valueText)).setFirstItem false
  | .bool name val, state, context, contexts => by
      intro compressed top
      exact scalar_eq compressed top name _
  | .integer name val, state, context, contexts => by
      intro compressed top
      exact scalar_eq compressed top name _
  | .string name val, state, context, contexts => by
      intro compressed top
      exact scalar_eq compressed top name _
  | .dict name items, state, context, contexts => by
      intro compressed top
      have written := container_inside compressed top ⟨name, true, -1, .objectElement⟩ (by simp)
        (fun state => writeItems_eq items state ⟨name, true, -1, .objectElement⟩)
      rw [StructuredWriter.write, StructuredWriter.startDict, written, DataElement.valueText]
      rfl
  | .list name items, state, context, contexts => by
      intro compressed top
      have written := container_inside compressed top
        ⟨name, true, toInt items.length, .arrayElement⟩ (by simp)
        (fun state => writeItems_eq items state ⟨name, true, toInt items.length, .arrayElement⟩)
      rw [StructuredWriter.write, StructuredWriter.startList, written, DataElement.valueText]
      rfl

theorem writeItems_eq : ∀ (items : List DataElement) (state : StructuredTextWriter)
    (context : WriterContext) (contexts : List WriterContext), state.compressed = true →
    state.contexts = context :: contexts →
    jsonWriter.writeItems items state =
      (state.put (DataElement.itemsText context.elementType context.isFirstItem
        items)).setFirstItem (context.isFirstItem && items.isEmpty)
  | [], state, context, contexts => by
      intro compressed top
      rw [StructuredWriter.writeItems, DataElement.itemsText, StructuredTextWriter.put_nil,
        List.isEmpty_nil, Bool.and_true, StructuredTextWriter.setFirstItem_self top]
  | item :: items, state, context, contexts => by
      intro compressed top
      have later := writeItems_eq items
        ((state.put (DataElement.lead context.elementType context.isFirstItem item.name ++
          item.valueText)).setFirstItem false) { context with isFirstItem := false } contexts
        compressed (StructuredTextWriter.setFirstItem_contexts top false)
      rw [StructuredWriter.writeItems, write_eq item state context contexts compressed top, later,
        DataElement.itemsText]
      simp
end

/-- **A text is an object that holds the root under its name.** -/
theorem compressedOutput_eq {root : DataElement} (container : root.IsContainer) :
    jsonWriter.compressedOutput root =
      123 :: (DataElement.lead .objectElement true root.name ++ (root.valueText ++ [125])) := by
  have fresh : (StructuredTextWriter.create true).compressed = true := rfl
  have outside : (StructuredTextWriter.create true).contexts = [] := rfl
  cases root with
  | bool name val => exact container.elim
  | integer name val => exact container.elim
  | string name val => exact container.elim
  | dict name items =>
      have written := container_outside fresh outside ⟨name, true, -1, .objectElement⟩ (by simp)
        (fun state => writeItems_eq items state ⟨name, true, -1, .objectElement⟩)
      rw [StructuredWriter.compressedOutput, StructuredWriter.write, StructuredWriter.startDict,
        written, DataElement.valueText]
      simp [opening, closing, StructuredTextWriter.create, StructuredTextWriter.setIndentation,
        StructuredTextWriter.setLinefeed, DataElement.name]
  | list name items =>
      have written := container_outside fresh outside
        ⟨name, true, toInt items.length, .arrayElement⟩ (by simp)
        (fun state => writeItems_eq items state ⟨name, true, toInt items.length, .arrayElement⟩)
      rw [StructuredWriter.compressedOutput, StructuredWriter.write, StructuredWriter.startList,
        written, DataElement.valueText]
      simp [opening, closing, StructuredTextWriter.create, StructuredTextWriter.setIndentation,
        StructuredTextWriter.setLinefeed, DataElement.name]

end JsonWriter

/-! ## What a text denotes -/

namespace DataElement

mutual
/-- The value that an element of the tree stands for. -/
def toJson : DataElement → Json.Value
  | bool _ val => .bool val
  | integer _ val => .number val
  | string _ val => .string val
  | dict _ items => .object (members items)
  | list _ items => .array (values items)

def members : List DataElement → List (Bytes × Json.Value)
  | [] => []
  | item :: items => (item.name, item.toJson) :: members items

def values : List DataElement → List Json.Value
  | [] => []
  | item :: items => item.toJson :: values items
end

mutual
/-- The names and strings that are written of a value. -/
def texts : DataElement → List Bytes
  | bool _ _ | integer _ _ => []
  | string _ val => [val]
  | dict _ items => memberTexts items
  | list _ items => valueTexts items

def memberTexts : List DataElement → List Bytes
  | [] => []
  | item :: items => item.name :: (item.texts ++ memberTexts items)

def valueTexts : List DataElement → List Bytes
  | [] => []
  | item :: items => item.texts ++ valueTexts items
end

/-- A part whose name and string have no zero byte. -/
def IsClean (part : DataElement) : Prop := 0 ∉ part.name ∧ part.CleanString

end DataElement

namespace JsonWriter

theorem decimal_printNat (val : Nat) : Json.decimal (printNat 10 val) = val := by
  have digits : (printNat 10 val).map (fun byte => byte.toNat - 48) = digitsOf 10 val := by
    rw [printNat_eq_map, List.map_map]
    have back : ∀ digit ∈ digitsOf 10 val,
        ((fun byte : UInt8 => byte.toNat - 48) ∘ digitChar) digit = id digit := by
      intro digit member
      have small : digit < 10 := digitsOf_lt (by decide) member
      interval_cases digit <;> rfl
    rw [List.map_congr_left back, List.map_id]
  rw [Json.decimal, digits, ofDigits_digitsOf]

/-- A number that is printed begins with a zero only if it is zero. -/
theorem leading_printNat (val : Nat) :
    printNat 10 val = [48] ∨ (printNat 10 val).head? ≠ some 48 := by
  by_cases zero : val = 0
  · exact .inl (if_pos zero)
  · refine .inr ?_
    have nonempty : Nat.digits 10 val ≠ [] := Nat.digits_ne_nil_iff_ne_zero.mpr zero
    have leading := Nat.getLast_digit_ne_zero 10 zero
    have small : (Nat.digits 10 val).getLast nonempty < 10 :=
      Nat.digits_lt_base (by decide) (List.getLast_mem nonempty)
    rw [printNat, if_neg zero, List.head?_map, List.head?_reverse,
      List.getLast?_eq_some_getLast nonempty, Option.map_some, ne_eq, Option.some.injEq]
    generalize (Nat.digits 10 val).getLast nonempty = digit at leading small
    interval_cases digit <;> simp_all [digitChar]

theorem magnitude_printNat (val : Nat) : Json.Magnitude (printNat 10 val) val := by
  have digits := Json.Magnitude.of_digits
    ⟨printNat_ne_nil 10 val, fun byte member => isDigit_of_mem_printNat member⟩
    (leading_printNat val)
  rwa [decimal_printNat] at digits

/-- **What is printed of a number is that number.** -/
theorem number_printInt (val : Int) : Json.Number (printInt val) val := by
  rw [printInt]
  split
  · next negative =>
      have magnitude : val = -(val.natAbs : Int) := by omega
      have same : (val : ℚ) = ((-(val.natAbs : Int) : Int) : ℚ) := congrArg Int.cast magnitude
      rw [same, Int.cast_neg, Int.cast_natCast]
      exact .negative (magnitude_printNat _)
  · next positive =>
      have magnitude : val = (val.natAbs : Int) := by omega
      have same : (val : ℚ) = ((val.natAbs : Int) : ℚ) := congrArg Int.cast magnitude
      rw [same, Int.cast_natCast]
      exact .unsigned (magnitude_printNat _)

/-- What is written behind an item begins with a comma or is what follows the items. -/
theorem itemsText_ends (elementType : ElementType) (items : List DataElement) {rest : Bytes}
    (ends : rest.takeWhile Json.isNumberByte = []) :
    (DataElement.itemsText elementType false items ++ rest).takeWhile Json.isNumberByte = [] := by
  cases items with
  | nil => exact ends
  | cons item items => rfl

/-- The comma before an item is read as its separator. -/
theorem reads_comma_iff (first : Bool) {rest : Bytes} {tokens : List Json.Token} :
    Json.Reads ((if first then [] else [44]) ++ rest) (Json.separator first ++ tokens) ↔
      Json.Reads rest tokens := by
  cases first with
  | false => exact Json.reads_mark_iff .comma
  | true => exact Iff.rfl

/-- A name is read behind the comma before it. -/
theorem reads_member_iff (first : Bool) {name : Bytes} (clean : (0 : UInt8) ∉ name)
    {rest : Bytes} {tokens : List Json.Token} :
    Json.Reads (DataElement.lead .objectElement first name ++ rest)
        (Json.separator first ++ .string name :: .mark .colon :: tokens) ↔
      Json.IsPlain name ∧ Json.Reads rest tokens := by
  have colon : Json.Reads (32 :: 58 :: 32 :: rest) (.mark .colon :: tokens) ↔
      Json.Reads rest tokens :=
    (Json.reads_blank_iff rfl).trans ((Json.reads_mark_iff .colon).trans (Json.reads_blank_iff rfl))
  have shown : DataElement.lead .objectElement first name ++ rest =
      (if first then [] else [44]) ++ 34 :: (name ++ 34 :: 32 :: 58 :: 32 :: rest) := by
    simp [DataElement.lead, cStr_of_no_zero clean]
  rw [shown, reads_comma_iff, Json.reads_string_iff, colon]

theorem reads_item_iff (first : Bool) (name : Bytes) {rest : Bytes} {tokens : List Json.Token} :
    Json.Reads (DataElement.lead .arrayElement first name ++ rest)
        (Json.separator first ++ tokens) ↔ Json.Reads rest tokens := by
  rw [DataElement.lead, if_pos rfl, List.append_nil, reads_comma_iff]

mutual
/-- **A value is read in front of a text if and only if what is written of it is plain.** -/
theorem reads_value_iff : ∀ (element : DataElement),
    (∀ part : DataElement, part.IsPart element → part.IsClean) →
    ∀ (rest : Bytes) (tokens : List Json.Token), rest.takeWhile Json.isNumberByte = [] →
    (Json.Reads (element.valueText ++ rest) (element.toJson.tokens ++ tokens) ↔
      (∀ text ∈ element.texts, Json.IsPlain text) ∧ Json.Reads rest tokens)
  | .bool name val, clean, rest, tokens => by
      intro ends
      have written : (Json.Token.bool val).Writes (DataElement.bool name val).valueText := by
        cases val with
        | false => exact (by decide +kernel : ascii "false" = [102, 97, 108, 115, 101])
        | true => exact (by decide +kernel : ascii "true" = [116, 114, 117, 101])
      have read := @Json.reads_bool_iff rest tokens val _ written
      rw [DataElement.toJson, Json.Value.tokens, List.singleton_append, read]
      simp [DataElement.texts]
  | .integer name val, clean, rest, tokens => by
      intro ends
      have read := @Json.reads_number_iff rest tokens val _ (number_printInt val) ends
      rw [DataElement.toJson, Json.Value.tokens, List.singleton_append, DataElement.valueText, read]
      simp [DataElement.texts]
  | .string name val, clean, rest, tokens => by
      intro ends
      have noZero : (0 : UInt8) ∉ val := (clean _ .self).2
      rw [DataElement.toJson, Json.Value.tokens, DataElement.valueText, cStr_of_no_zero noZero,
        DataElement.texts, List.forall_mem_singleton, ← Json.reads_string_iff]
      simp
  | .dict name items, clean, rest, tokens => by
      intro ends
      rw [DataElement.forall_isPart_dict] at clean
      have close : Json.Reads (125 :: rest) (.mark .rightBrace :: tokens) ↔
          Json.Reads rest tokens := Json.reads_mark_iff .rightBrace
      rw [DataElement.toJson, Json.Value.tokens, DataElement.valueText, DataElement.texts, ← close,
        ← reads_members_iff items clean.2 true (125 :: rest) (.mark .rightBrace :: tokens) rfl]
      rw [List.cons_append, List.cons_append, List.append_assoc, List.append_assoc]
      exact Json.reads_mark_iff .leftBrace
  | .list name items, clean, rest, tokens => by
      intro ends
      rw [DataElement.forall_isPart_list] at clean
      have close : Json.Reads (93 :: rest) (.mark .rightBracket :: tokens) ↔
          Json.Reads rest tokens := Json.reads_mark_iff .rightBracket
      rw [DataElement.toJson, Json.Value.tokens, DataElement.valueText, DataElement.texts, ← close,
        ← reads_values_iff items clean.2 true (93 :: rest) (.mark .rightBracket :: tokens) rfl]
      rw [List.cons_append, List.cons_append, List.cons_append, List.append_assoc,
        List.append_assoc]
      exact (Json.reads_mark_iff .leftBracket).trans (Json.reads_blank_iff rfl)

theorem reads_members_iff : ∀ (items : List DataElement),
    (∀ item ∈ items, ∀ part : DataElement, part.IsPart item → part.IsClean) →
    ∀ (first : Bool) (rest : Bytes) (tokens : List Json.Token),
    rest.takeWhile Json.isNumberByte = [] →
    (Json.Reads (DataElement.itemsText .objectElement first items ++ rest)
        (Json.memberTokens first (DataElement.members items) ++ tokens) ↔
      (∀ text ∈ DataElement.memberTexts items, Json.IsPlain text) ∧ Json.Reads rest tokens)
  | [], _, first, rest, tokens => by
      intro ends
      simp [DataElement.itemsText, DataElement.members, Json.memberTokens, DataElement.memberTexts]
  | item :: items, clean, first, rest, tokens => by
      intro ends
      rw [List.forall_mem_cons] at clean
      have named : (0 : UInt8) ∉ item.name := (clean.1 _ .self).1
      have value := reads_value_iff item clean.1
        (DataElement.itemsText .objectElement false items ++ rest)
        (Json.memberTokens false (DataElement.members items) ++ tokens)
        (itemsText_ends .objectElement items ends)
      have more := reads_members_iff items clean.2 false rest tokens ends
      rw [DataElement.itemsText, DataElement.members, Json.memberTokens, DataElement.memberTexts,
        List.forall_mem_cons, List.forall_mem_append, and_assoc, and_assoc]
      simp only [List.append_assoc, List.cons_append]
      exact (reads_member_iff first named).trans
        (and_congr_right' (value.trans (and_congr_right' more)))

theorem reads_values_iff : ∀ (items : List DataElement),
    (∀ item ∈ items, ∀ part : DataElement, part.IsPart item → part.IsClean) →
    ∀ (first : Bool) (rest : Bytes) (tokens : List Json.Token),
    rest.takeWhile Json.isNumberByte = [] →
    (Json.Reads (DataElement.itemsText .arrayElement first items ++ rest)
        (Json.itemTokens first (DataElement.values items) ++ tokens) ↔
      (∀ text ∈ DataElement.valueTexts items, Json.IsPlain text) ∧ Json.Reads rest tokens)
  | [], _, first, rest, tokens => by
      intro ends
      simp [DataElement.itemsText, DataElement.values, Json.itemTokens, DataElement.valueTexts]
  | item :: items, clean, first, rest, tokens => by
      intro ends
      rw [List.forall_mem_cons] at clean
      have value := reads_value_iff item clean.1
        (DataElement.itemsText .arrayElement false items ++ rest)
        (Json.itemTokens false (DataElement.values items) ++ tokens)
        (itemsText_ends .arrayElement items ends)
      have more := reads_values_iff items clean.2 false rest tokens ends
      rw [DataElement.itemsText, DataElement.values, Json.itemTokens, DataElement.valueTexts,
        List.forall_mem_append, and_assoc]
      simp only [List.append_assoc]
      exact (reads_item_iff first item.name).trans (value.trans (and_congr_right' more))
end

end JsonWriter

/-- **What the text of a tree denotes.**  It is the object that holds the tree under the
name of its root if and only if the root's name, the names in dictionaries and the strings
are plain. -/
theorem json_denotes_iff {root : DataElement} (container : root.IsContainer)
    (clean : ∀ part : DataElement, part.IsPart root → part.IsClean) :
    Json.Denotes (jsonWriter.compressedOutput root) (.object [(root.name, root.toJson)]) ↔
      ∀ text ∈ root.name :: root.texts, Json.IsPlain text := by
  have named : (0 : UInt8) ∉ root.name := (clean root .self).1
  have close : Json.Reads [125] [.mark .rightBrace] := (Json.reads_mark_iff .rightBrace).mpr
    Json.reads_nil
  have value := JsonWriter.reads_value_iff root clean [125] [.mark .rightBrace] rfl
  rw [JsonWriter.compressedOutput_eq container, Json.Denotes, List.forall_mem_cons]
  have tokens : (Json.Value.object [(root.name, root.toJson)]).tokens =
      .mark .leftBrace :: (Json.separator true ++
        .string root.name :: .mark .colon :: (root.toJson.tokens ++ [.mark .rightBrace])) := by
    simp [Json.Value.tokens, Json.memberTokens]
  rw [tokens]
  refine (Json.reads_mark_iff .leftBrace).trans ((JsonWriter.reads_member_iff true named).trans
    (and_congr_right' (value.trans (and_iff_left close))))

/-- A list of strings and a number. -/
theorem json_denotes_list :
    Json.Denotes
        (jsonWriter.compressedOutput (.dict (ascii "root")
          [.list (ascii "l") [.string (ascii "s") (ascii "x")], .integer (ascii "n") (-5)]))
        (.object [(ascii "root", (DataElement.dict (ascii "root") [.list (ascii "l")
          [.string (ascii "s") (ascii "x")], .integer (ascii "n") (-5)]).toJson)]) ↔
      ∀ text ∈ ascii "root" :: (DataElement.dict (ascii "root") [.list (ascii "l")
        [.string (ascii "s") (ascii "x")], .integer (ascii "n") (-5)]).texts,
        Json.IsPlain text := by
  have item : ∀ part : DataElement, part.IsPart (.string (ascii "s") (ascii "x")) →
      part.IsClean := by
    rintro part ⟨⟩
    exact ⟨(by decide +kernel : (0 : UInt8) ∉ ascii "s"),
      (by decide +kernel : (0 : UInt8) ∉ ascii "x")⟩
  have number : ∀ part : DataElement, part.IsPart (.integer (ascii "n") (-5)) →
      part.IsClean := by
    rintro part ⟨⟩
    exact ⟨(by decide +kernel : (0 : UInt8) ∉ ascii "n"), trivial⟩
  refine @json_denotes_iff (.dict (ascii "root") [.list (ascii "l")
    [.string (ascii "s") (ascii "x")], .integer (ascii "n") (-5)]) trivial ?_
  rw [DataElement.forall_isPart_dict, List.forall_mem_cons, List.forall_mem_singleton,
    DataElement.forall_isPart_list, List.forall_mem_singleton]
  exact ⟨⟨(by decide +kernel : (0 : UInt8) ∉ ascii "root"), trivial⟩,
    ⟨⟨(by decide +kernel : (0 : UInt8) ∉ ascii "l"), trivial⟩, item⟩, number⟩

/-- A quote in a string ends the string. -/
theorem quote_is_not_escaped :
    (DataElement.dict (ascii "root") [.string (ascii "a") (ascii "\"")]).IsContainer ∧
    (∀ part : DataElement,
      part.IsPart (.dict (ascii "root") [.string (ascii "a") (ascii "\"")]) → part.IsClean) ∧
    ¬ Json.Denotes
        (jsonWriter.compressedOutput (.dict (ascii "root") [.string (ascii "a") (ascii "\"")]))
        (.object [(ascii "root",
          (DataElement.dict (ascii "root") [.string (ascii "a") (ascii "\"")]).toJson)]) := by
  have clean : ∀ part : DataElement,
      part.IsPart (.dict (ascii "root") [.string (ascii "a") (ascii "\"")]) → part.IsClean := by
    have leaf : ∀ part : DataElement, part.IsPart (.string (ascii "a") (ascii "\"")) →
        part.IsClean := by
      rintro part ⟨⟩
      exact ⟨(by decide +kernel : (0 : UInt8) ∉ ascii "a"),
        (by decide +kernel : (0 : UInt8) ∉ ascii "\"")⟩
    rw [DataElement.forall_isPart_dict, List.forall_mem_singleton]
    exact ⟨⟨(by decide +kernel : (0 : UInt8) ∉ ascii "root"), trivial⟩, leaf⟩
  refine ⟨trivial, clean, ?_⟩
  intro denotes
  rw [@JsonWriter.compressedOutput_eq
    (.dict (ascii "root") [.string (ascii "a") (ascii "\"")]) trivial] at denotes
  have opened := (Json.reads_mark_iff .leftBrace).mp denotes
  have named := (JsonWriter.reads_member_iff true (clean _ .self).1).mp opened
  have plain := ((JsonWriter.reads_value_iff _ clean [125] [.mark .rightBrace] rfl).mp named.2).1
  have quote := plain (ascii "\"") (by decide +kernel)
  exact absurd (quote.2 34 (by decide +kernel)) (by decide)

end Xul
