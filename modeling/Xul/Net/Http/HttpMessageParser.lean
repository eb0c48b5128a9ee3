import Xul.Net.Http.HttpMessage

/-!
# Parsing a header block

The parser reads a header block line by line.  It is handed the start of the
block and its size, but only the start moves as lines are read: the size stays,
so that the window in which the next line end is searched slides over whatever
follows the block.  A block that ends at an empty line does not let the window
matter: the parser stops at the empty line, and every line end it finds before
lies inside the block (`parse_append`).
-/

set_option autoImplicit false

namespace Xul

open Foundation

/-- What `http_message_parser` asks of its subclasses: the first line, and the
message the headers go to. -/
structure HttpMessageParser (M : Type) where
  parseFirstLine : Bytes → M → Int × M
  getMessage : M → HttpMessage
  setMessage : HttpMessage → M → M

namespace HttpMessageParser

variable {M : Type}

def errorInvalidHeaderLine : Int := -1
def errorInvalidProtocolPart : Int := -2
def errorInvalidStatusLine : Int := -3
def errorInvalidStatusCode : Int := -4
def errorInvalidRequestLine : Int := -5

/-- `find_line_end`. -/
def findLineEnd (data : Bytes) : Option Nat := search data crlf

/-- A header line is a name and a value around a colon; an empty line ends the
block. -/
def parseHeader (parser : HttpMessageParser M) (line : Bytes) (message : M) : Int × M :=
  if line = [] then (1, message)
  else
    let keyvals := splitPair line 58
    if keyvals.1 = [] ∨ keyvals.1.length = line.length then (errorInvalidHeaderLine, message)
    else
      (0, parser.setMessage
        ((parser.getMessage message).setHeader (cStr (trimCopy keyvals.1))
          (cStr (trimCopy keyvals.2))) message)

/-- `parse_protocol`, on the message itself. -/
def parseProtocol (s : Bytes) (message : HttpMessage) : Int × HttpMessage :=
  match splitCompress s 47 with
  | [name, version] =>
      (0, { message with protocolName := cStr name, protocolVersion := cStr version })
  | _ => (errorInvalidProtocolPart, message)

def parseLine (parser : HttpMessageParser M) (firstLine : Bool) (line : Bytes) (message : M) :
    Int × M :=
  if firstLine then parser.parseFirstLine line message else parser.parseHeader line message

/-- The loop of `parse`.  `data` is the memory from the current line on, `size` the
size that was passed in, and every turn takes at least a line end from `data`. -/
def parseLoop (parser : HttpMessageParser M) (size : Nat) : Nat → Bool → Bytes → M → Bool × M
  | 0, _, _, message => (false, message)
  | fuel + 1, firstLine, data, message =>
      match findLineEnd (data.take size) with
      | none => (false, message)
      | some lineLen =>
          let parsed := parser.parseLine firstLine (data.take lineLen) message
          if 0 < parsed.1 then (true, parsed.2)
          else if parsed.1 < 0 then (false, parsed.2)
          else parseLoop parser size fuel false (data.drop (lineLen + 2)) parsed.2

def parse (parser : HttpMessageParser M) (data : Bytes) (size : Nat) (message : M) : Bool × M :=
  parser.parseLoop size (data.length + 1) true data message

/-! ## Header blocks that end at an empty line -/

/-- What is left of a header block while it is parsed: its closing line ends, or
the last of them. -/
def EndsBlock (rest : Bytes) : Prop := rest = crlf ∨ HttpMessage.headerEndTag <:+ rest

/-- A rest of a block has a line end in it, at its very start only when it is the
last one or the block has an empty line there. -/
theorem EndsBlock.findLineEnd {rest : Bytes} (ends : EndsBlock rest) :
    ∃ lineLen, findLineEnd rest = some lineLen ∧
      (lineLen = 0 ∨ EndsBlock (rest.drop (lineLen + 2))) := by
  rcases ends with rfl | ⟨before, rfl⟩
  · exact ⟨0, by decide, Or.inl rfl⟩
  · have standing : crlf <+: (before ++ HttpMessage.headerEndTag).drop before.length := by
      rw [List.drop_left]
      exact ⟨crlf, rfl⟩
    cases found : HttpMessageParser.findLineEnd (before ++ HttpMessage.headerEndTag) with
    | none => exact absurd standing (firstOccurrence_eq_none_iff.mp found before.length)
    | some lineLen =>
        refine ⟨lineLen, rfl, Or.inr ?_⟩
        obtain ⟨first, least⟩ := firstOccurrence_eq_some_iff.mp found
        have bounded : lineLen ≤ before.length := by
          by_contra beyond
          exact least before.length (by omega) standing
        by_cases last : lineLen = before.length
        · subst last
          left
          rw [List.drop_length_add_append]
          rfl
        · -- a line end that begins one byte before the closing tag would end in its `\r`
          have apart : lineLen + 2 ≤ before.length := by
            by_contra close
            have next : before.length = lineLen + 1 := by omega
            obtain ⟨tail, split⟩ := first
            have second := congrArg (fun bytes => bytes[1]?) split
            simp only [List.getElem?_drop] at second
            rw [← next, List.getElem?_append_right (le_refl _)] at second
            simp [crlf, HttpMessage.headerEndTag] at second
          right
          rw [List.drop_append_of_le_length apart]
          exact List.suffix_append _ _

/-- The window shows the block's own next line end, whatever follows the block. -/
theorem findLineEnd_take_append {rest after : Bytes} {lineLen size : Nat}
    (found : findLineEnd rest = some lineLen) (covered : rest.length ≤ size) :
    findLineEnd ((rest ++ after).take size) = some lineLen := by
  rw [List.take_append, List.take_of_length_le covered]
  exact firstOccurrence_append (by decide) found _

theorem findLineEnd_add_two_le {data : Bytes} {lineLen : Nat}
    (found : findLineEnd data = some lineLen) : lineLen + 2 ≤ data.length :=
  (firstOccurrence_add_length_le found).resolve_right (by decide)

/-- An empty first line is not accepted. -/
def RejectsEmptyFirstLine (parser : HttpMessageParser M) : Prop :=
  ∀ message, (parser.parseFirstLine [] message).1 < 0

/-- Parsing never goes on after an empty line. -/
theorem parseLine_nil_ne_zero {parser : HttpMessageParser M}
    (rejects : parser.RejectsEmptyFirstLine) (firstLine : Bool) (message : M) :
    (parser.parseLine firstLine [] message).1 ≠ 0 := by
  cases firstLine with
  | true => exact ne_of_lt (rejects message)
  | false => simp [parseLine, parseHeader]

/-- The loop reads the rest of a block in the same way whatever follows the block,
with any fuel that covers the rest. -/
theorem parseLoop_append {parser : HttpMessageParser M} (rejects : parser.RejectsEmptyFirstLine)
    (size : Nat) (after : Bytes) :
    ∀ (fuel enough : Nat) (firstLine : Bool) (rest : Bytes) (message : M), EndsBlock rest →
      rest.length ≤ size → rest.length < fuel → rest.length < enough →
      parser.parseLoop size enough firstLine (rest ++ after) message =
        parser.parseLoop size fuel firstLine rest message := by
  intro fuel
  induction fuel with
  | zero => intro _ _ _ _ _ _ absurdFuel; omega
  | succ fuel ih =>
      intro enough firstLine rest message ends covered inFuel inEnough
      obtain ⟨enough, rfl⟩ : ∃ previous, enough = previous + 1 := ⟨enough - 1, by omega⟩
      obtain ⟨lineLen, found, later⟩ := ends.findLineEnd
      have inside := findLineEnd_add_two_le found
      have window : findLineEnd ((rest ++ after).take size) = some lineLen :=
        findLineEnd_take_append found covered
      have own : findLineEnd (rest.take size) = some lineLen := by
        rw [List.take_of_length_le covered, found]
      have sameLine : (rest ++ after).take lineLen = rest.take lineLen :=
        List.take_append_of_le_length (by omega)
      have sameRest : (rest ++ after).drop (lineLen + 2) = rest.drop (lineLen + 2) ++ after :=
        List.drop_append_of_le_length (by omega)
      simp only [parseLoop, window, own, sameLine, sameRest]
      cases outcome : parser.parseLine firstLine (rest.take lineLen) message with
      | mk ret updated =>
          by_cases stops : ret = 0
          · subst stops
            have continues : EndsBlock (rest.drop (lineLen + 2)) := by
              refine later.resolve_left ?_
              intro empty
              rw [empty, List.take_zero] at outcome
              exact parseLine_nil_ne_zero rejects firstLine message (by rw [outcome])
            have shorter : (rest.drop (lineLen + 2)).length + 2 ≤ rest.length := by
              rw [List.length_drop]; omega
            simpa using ih enough false _ updated continues (by omega) (by omega) (by omega)
          · rcases lt_or_gt_of_ne stops with negative | positive
            · simp [negative, not_lt_of_gt negative]
            · simp [positive]

/-- **A block that ends at an empty line is parsed the same way whatever follows
it in memory.** -/
theorem parse_append {parser : HttpMessageParser M} (rejects : parser.RejectsEmptyFirstLine)
    {block : Bytes} (ends : HttpMessage.headerEndTag <:+ block) (after : Bytes) (message : M) :
    parser.parse (block ++ after) block.length message =
      parser.parse block block.length message := by
  refine parseLoop_append rejects block.length after _ _ true block message (Or.inr ends)
    (le_refl _) (Nat.lt_succ_self _) ?_
  rw [List.length_append]
  omega

/-- The block up to the first empty line ends with it. -/
theorem headerEndTag_isSuffix_take {data : Bytes} {pos : Nat}
    (found : HttpMessage.findHeaderEnd data = some pos) :
    (data.take (pos + 4)).length = pos + 4 ∧ HttpMessage.headerEndTag <:+ data.take (pos + 4) := by
  have inside : pos + 4 ≤ data.length :=
    (firstOccurrence_add_length_le found).resolve_right (by decide)
  obtain ⟨rest, standing⟩ := (firstOccurrence_eq_some_iff.mp found).1
  have split : data.take (pos + 4) = data.take pos ++ HttpMessage.headerEndTag := by
    rw [List.take_add, ← standing]
    rfl
  exact ⟨List.length_take_of_le inside, split ▸ List.suffix_append _ _⟩

/-- **Of a buffer with an empty line the parser reads what goes before it.** -/
theorem parse_eq_parse_take {parser : HttpMessageParser M} (rejects : parser.RejectsEmptyFirstLine)
    {data : Bytes} {pos : Nat} (found : HttpMessage.findHeaderEnd data = some pos) (message : M) :
    parser.parse data (pos + 4) message =
      parser.parse (data.take (pos + 4)) (pos + 4) message := by
  obtain ⟨size, ends⟩ := headerEndTag_isSuffix_take found
  have same := parse_append rejects ends (data.drop (pos + 4)) message
  rwa [List.take_append_drop, size] at same

/-- A buffer that begins with the same block has its first empty line at the same place. -/
theorem findHeaderEnd_of_take_eq {data other : Bytes} {pos : Nat}
    (found : HttpMessage.findHeaderEnd data = some pos)
    (same : other.take (pos + 4) = data.take (pos + 4)) :
    HttpMessage.findHeaderEnd other = some pos := by
  have size := (headerEndTag_isSuffix_take found).1
  have block : HttpMessage.findHeaderEnd (data.take (pos + 4)) = some pos := by
    rw [← List.take_append_drop (pos + 4) data] at found
    exact firstOccurrence_of_append found size.ge
  rw [← List.take_append_drop (pos + 4) other, same]
  exact firstOccurrence_append (by decide) block _

theorem parse_eq_of_take_eq {parser : HttpMessageParser M} (rejects : parser.RejectsEmptyFirstLine)
    {data other : Bytes} {pos : Nat} (found : HttpMessage.findHeaderEnd data = some pos)
    (same : other.take (pos + 4) = data.take (pos + 4)) (message : M) :
    parser.parse other (pos + 4) message = parser.parse data (pos + 4) message := by
  rw [parse_eq_parse_take rejects found, ← same]
  exact parse_eq_parse_take rejects (findHeaderEnd_of_take_eq found same) message

end HttpMessageParser

/-! ## Responses -/

namespace HttpResponseParser

/-- The status line: a protocol, a status code and a description. -/
def parseFirstLine (line : Bytes) (response : HttpResponse) : Int × HttpResponse :=
  match splitOf line (ascii " \t") 3 with
  | [protocol, status, description] =>
      let parsed := HttpMessageParser.parseProtocol protocol response.message
      let response := { response with message := parsed.2 }
      if parsed.1 < 0 then (parsed.1, response)
      else
        let statusCode := parseInt status (-1)
        if statusCode < 0 then (HttpMessageParser.errorInvalidStatusCode, response)
        else (0, (response.setStatusCode statusCode).setStatusDescription (cStr description))
  | _ => (HttpMessageParser.errorInvalidStatusLine, response)

end HttpResponseParser

def httpResponseParser : HttpMessageParser HttpResponse where
  parseFirstLine := HttpResponseParser.parseFirstLine
  getMessage := HttpResponse.message
  setMessage message response := { response with message }

theorem httpResponseParser_rejectsEmptyFirstLine :
    httpResponseParser.RejectsEmptyFirstLine := by
  intro response
  simp [httpResponseParser, HttpResponseParser.parseFirstLine, splitOf, splitOfLoop,
    HttpMessageParser.errorInvalidStatusLine]

end Xul
