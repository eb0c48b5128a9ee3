import Xul.Net.Http.HttpMessageParser

/-!
# Printed messages are parsed back

A header is printed as a name, a colon, a blank and a value.  The parser cuts the line at
the first colon and trims both parts, so a trimmed name without a colon and a trimmed
value come back, in the order in which they were printed (`parse_printed`).  A response
comes back whole (`parse_print`).
-/

set_option autoImplicit false

namespace Xul

open Foundation

/-- A header that is printed on one line and parsed back. -/
structure StringPairEntry.Printable (entry : StringPairEntry) : Prop where
  key_nonempty : entry.key ≠ []
  key_trimmed : trimCopy entry.key = entry.key
  key_plain : ∀ c ∈ entry.key, c ∉ ascii ":\r\n"
  value_trimmed : trimCopy entry.value = entry.value
  value_plain : ∀ c ∈ entry.value, c ∉ crlf
  zero_free : 0 ∉ entry.key ∧ 0 ∉ entry.value

/-- A message whose protocol and headers are printed and parsed back. -/
structure HttpMessage.Printable (message : HttpMessage) : Prop where
  name_nonempty : message.protocolName ≠ []
  name_plain : ∀ c ∈ message.protocolName, c ≠ 0 ∧ c ≠ 47 ∧ isSpace c = false
  version_nonempty : message.protocolVersion ≠ []
  version_plain : ∀ c ∈ message.protocolVersion, c ≠ 0 ∧ c ≠ 47 ∧ isSpace c = false
  headers : ∀ entry ∈ message.headers.items, entry.Printable

namespace HttpMessage

/-- The protocol as it stands in a first line. -/
def protocol (message : HttpMessage) : Bytes :=
  message.protocolName ++ ascii "/" ++ message.protocolVersion

def printEntries (entries : List StringPairEntry) : Bytes :=
  entries.flatMap (fun entry => entry.key ++ ascii ": " ++ entry.value ++ crlf) ++ crlf

theorem writeHeaders_eq (message : HttpMessage) :
    message.writeHeaders = printEntries message.headers.items := rfl

theorem printEntries_cons (entry : StringPairEntry) (entries : List StringPairEntry) :
    printEntries (entry :: entries) =
      entry.key ++ ascii ": " ++ entry.value ++ crlf ++ printEntries entries := by
  rw [printEntries, List.flatMap_cons, List.append_assoc]
  rfl

/-- A line and the headers behind it end with an empty line. -/
theorem headerEndTag_isSuffix (line : Bytes) (entries : List StringPairEntry) :
    headerEndTag <:+ line ++ crlf ++ printEntries entries := by
  induction entries generalizing line with
  | nil => exact ⟨line, List.append_assoc line crlf crlf ▸ rfl⟩
  | cons entry entries ih =>
      rw [printEntries_cons]
      have later := ih (entry.key ++ ascii ": " ++ entry.value)
      exact later.trans (List.suffix_append _ _)

/-- What can be printed stands on one line. -/
theorem Printable.protocol_plain {message : HttpMessage} (printable : message.Printable)
    {c : UInt8} (member : c ∈ message.protocol) : c ≠ 0 ∧ isSpace c = false := by
  rw [protocol, List.mem_append, List.mem_append] at member
  rcases member with (name | slash) | version
  · exact ⟨(printable.name_plain c name).1, (printable.name_plain c name).2.2⟩
  · obtain rfl : c = 47 := List.mem_singleton.mp slash
    decide
  · exact ⟨(printable.version_plain c version).1, (printable.version_plain c version).2.2⟩

/-- What is no white space does not part the words of a line. -/
theorem not_mem_blanks {c : UInt8} (notSpace : isSpace c = false) : c ∉ ascii " \t" := by
  intro member
  have blank : c = 32 ∨ c = 9 := by simpa [ascii] using member
  rcases blank with rfl | rfl
  · exact absurd notSpace (by decide)
  · exact absurd notSpace (by decide)

end HttpMessage

namespace HttpMessageParser

variable {M : Type} {parser : HttpMessageParser M}

/-- The message of what is parsed can be read and replaced. -/
structure Lawful (parser : HttpMessageParser M) : Prop where
  get_set : ∀ message target, parser.getMessage (parser.setMessage message target) = message
  set_set : ∀ message earlier target, parser.setMessage message
    (parser.setMessage earlier target) = parser.setMessage message target
  set_get : ∀ target, parser.setMessage (parser.getMessage target) target = target

theorem findLineEnd_line {line : Bytes} (plain : 13 ∉ line) (rest : Bytes) :
    findLineEnd (line ++ crlf ++ rest) = some line.length := by
  have nowhere : ∀ earlier < line.length,
      ¬ crlf <+: (line ++ (crlf ++ rest)).drop earlier := by
    rintro earlier inside ⟨after, same⟩
    rw [List.drop_append_of_le_length inside.le, List.drop_eq_getElem_cons inside] at same
    have here := (List.cons.inj same).1
    exact plain (here ▸ List.getElem_mem inside)
  have here : search (crlf ++ rest) crlf = some 0 :=
    firstOccurrence_append (by decide) (by decide) rest
  rw [findLineEnd, List.append_assoc]
  exact firstOccurrence_append_left here nowhere

/-- **A printed protocol is parsed back.** -/
theorem parseProtocol_protocol {message : HttpMessage} (printable : message.Printable)
    (target : HttpMessage) :
    parseProtocol message.protocol target =
      (0, { target with
        protocolName := message.protocolName
        protocolVersion := message.protocolVersion }) := by
  have name : 47 ∉ message.protocolName := fun member =>
    (printable.name_plain 47 member).2.1 rfl
  have version : 47 ∉ message.protocolVersion := fun member =>
    (printable.version_plain 47 member).2.1 rfl
  have nameClean : 0 ∉ message.protocolName := fun member =>
    (printable.name_plain 0 member).1 rfl
  have versionClean : 0 ∉ message.protocolVersion := fun member =>
    (printable.version_plain 0 member).1 rfl
  have parts : splitCompress message.protocol 47 =
      [message.protocolName, message.protocolVersion] := by
    rw [HttpMessage.protocol, List.append_assoc]
    exact splitCompress_append_cons name version printable.version_nonempty
  rw [parseProtocol, parts]
  simp only [cStr_of_no_zero nameClean, cStr_of_no_zero versionClean]

/-- **A printed header is parsed back.** -/
theorem parseHeader_entry {entry : StringPairEntry} (printable : entry.Printable) (target : M) :
    parser.parseHeader (entry.key ++ ascii ": " ++ entry.value) target =
      (0, parser.setMessage ((parser.getMessage target).setHeader entry.key entry.value)
        target) := by
  have line : entry.key ++ ascii ": " ++ entry.value = entry.key ++ 58 :: 32 :: entry.value := by
    rw [List.append_assoc]
    rfl
  have colon : 58 ∉ entry.key := fun member => printable.key_plain 58 member (by decide)
  have shorter : ¬ entry.key.length = (entry.key ++ 58 :: 32 :: entry.value).length := by
    rw [List.length_append, List.length_cons]
    omega
  rw [parseHeader, line, if_neg (by simp)]
  simp only [splitPair_append_cons colon, trimCopy_blank, printable.key_trimmed,
    printable.value_trimmed, cStr_of_no_zero printable.zero_free.1,
    cStr_of_no_zero printable.zero_free.2]
  rw [if_neg (not_or.mpr ⟨printable.key_nonempty, shorter⟩)]

/-- The headers that are parsed are set one after the other. -/
def setHeaders (message : HttpMessage) (entries : List StringPairEntry) : HttpMessage :=
  entries.foldl (fun message entry => message.setHeader entry.key entry.value) message

/-- A header line is one turn of the loop. -/
theorem parseLoop_line {size fuel : Nat} {line rest : Bytes} {firstLine : Bool}
    {target next : M} (plain : 13 ∉ line)
    (covered : (line ++ crlf ++ rest).length ≤ size)
    (parsed : parser.parseLine firstLine line target = (0, next)) :
    parser.parseLoop size (fuel + 1) firstLine (line ++ crlf ++ rest) target =
      parser.parseLoop size fuel false rest next := by
  have first : (line ++ crlf ++ rest).take line.length = line := by
    rw [List.append_assoc, List.take_left]
  have second : (line ++ crlf ++ rest).drop (line.length + 2) = rest := by
    apply List.drop_left'
    exact List.length_append
  rw [parseLoop, List.take_of_length_le covered, findLineEnd_line plain]
  simp only [first, second, parsed, lt_irrefl, if_false]

/-- **Printed headers are parsed in their order**, up to the empty line. -/
theorem parseLoop_printEntries (lawful : parser.Lawful) {size : Nat}
    {entries : List StringPairEntry} (printable : ∀ entry ∈ entries, entry.Printable) :
    ∀ {fuel : Nat} (target : M), (HttpMessage.printEntries entries).length ≤ size →
      (HttpMessage.printEntries entries).length < fuel →
      parser.parseLoop size fuel false (HttpMessage.printEntries entries) target =
        (true, parser.setMessage (setHeaders (parser.getMessage target) entries) target) := by
  induction entries with
  | nil =>
      intro fuel target covered enough
      obtain ⟨fuel, rfl⟩ : ∃ previous, fuel = previous + 1 := ⟨fuel - 1, by omega⟩
      have ends : findLineEnd (HttpMessage.printEntries []) = some 0 := by decide
      rw [parseLoop, List.take_of_length_le covered, ends]
      simp [parseLine, parseHeader, setHeaders, lawful.set_get]
  | cons entry entries ih =>
      intro fuel target covered enough
      obtain ⟨fuel, rfl⟩ : ∃ previous, fuel = previous + 1 := ⟨fuel - 1, by omega⟩
      rw [List.forall_mem_cons] at printable
      rw [HttpMessage.printEntries_cons] at covered enough ⊢
      have plain : 13 ∉ entry.key ++ ascii ": " ++ entry.value := by
        simp only [List.mem_append, not_or]
        refine ⟨⟨?_, by decide⟩, ?_⟩
        · intro member
          exact printable.1.key_plain 13 member (by decide)
        · intro member
          exact printable.1.value_plain 13 member (by decide)
      have parsed : parser.parseLine false (entry.key ++ ascii ": " ++ entry.value) target = _ :=
        parseHeader_entry printable.1 target
      rw [parseLoop_line plain covered parsed]
      have lineEnd : crlf.length = 2 := rfl
      simp only [List.length_append, lineEnd] at covered enough
      rw [ih printable.2 _ (by omega) (by omega), lawful.get_set, lawful.set_set]
      rfl

/-- **A printed message is parsed back**, behind a first line that is parsed. -/
theorem parse_printed (lawful : parser.Lawful) {line : Bytes} (plain : 13 ∉ line)
    {target next : M} (parsed : parser.parseFirstLine line target = (0, next))
    {entries : List StringPairEntry} (printable : ∀ entry ∈ entries, entry.Printable) :
    parser.parse (line ++ crlf ++ HttpMessage.printEntries entries)
        (line ++ crlf ++ HttpMessage.printEntries entries).length target =
      (true, parser.setMessage (setHeaders (parser.getMessage next) entries) next) := by
  have turn : parser.parseLine true line target = (0, next) := parsed
  rw [parse, parseLoop_line plain le_rfl turn]
  apply parseLoop_printEntries lawful printable next
  · rw [List.length_append]
    exact Nat.le_add_left _ _
  · rw [List.length_append, List.length_append]
    have : crlf.length = 2 := rfl
    omega

theorem setHeaders_eq (message : HttpMessage) (entries : List StringPairEntry) :
    setHeaders message entries = { message with
      headers := entries.foldl (fun headers entry => headers.set entry.key entry.value)
        message.headers } := by
  induction entries generalizing message with
  | nil => rfl
  | cons entry entries ih => exact ih (message.setHeader entry.key entry.value)

/-- Headers are set as they are in a message without headers. -/
theorem setHeaders_items {message : HttpMessage} (empty : message.headers.items = [])
    (headers : Headers) : setHeaders message headers.items = { message with headers } := by
  have set : headers.items.foldl (fun table entry => table.set entry.key entry.value)
      message.headers = headers := by
    apply AssociativeStringArray.items_injective
    rw [AssociativeStringArray.items_foldl_set (by rw [empty]; exact headers.distinct), empty]
    rfl
  rw [setHeaders_eq, set]

end HttpMessageParser

/-! ## Responses -/

namespace HttpResponse

/-- A response that is printed and parsed back. -/
structure Printable (response : HttpResponse) : Prop where
  message : response.message.Printable
  statusCode_nonneg : 0 ≤ response.statusCode
  statusCode_int : response.statusCode < 2 ^ 31
  statusDescription_plain : ∀ c ∈ response.statusDescription, c ∉ crlf
  statusDescription_zero_free : 0 ∉ response.statusDescription

def statusLine (response : HttpResponse) : Bytes :=
  response.message.protocol ++ ascii " " ++ printInt response.statusCode ++ ascii " " ++
    response.statusDescription

theorem print_eq (response : HttpResponse) :
    response.print = response.statusLine ++ crlf ++
      HttpMessage.printEntries response.message.headers.items := by
  rw [print, HttpMessage.writeHeaders_eq]
  rfl

variable {response : HttpResponse}

theorem Printable.cr_not_mem_statusLine (printable : response.Printable) :
    13 ∉ response.statusLine := by
  simp only [statusLine, List.mem_append, not_or]
  refine ⟨⟨⟨⟨?_, by decide⟩, ?_⟩, by decide⟩, ?_⟩
  · intro member
    exact absurd (printable.message.protocol_plain member).2 (by decide)
  · intro member
    exact absurd (isDigit_of_mem_printInt printable.statusCode_nonneg member) (by decide)
  · intro member
    exact printable.statusDescription_plain 13 member (by decide)

/-- The words of a status line: the description keeps its blanks. -/
theorem Printable.splitOf_statusLine (printable : response.Printable) :
    splitOf response.statusLine (ascii " \t") 3 =
      [response.message.protocol, printInt response.statusCode, response.statusDescription] := by
  have words : response.statusLine = response.message.protocol ++
      32 :: (printInt response.statusCode ++ 32 :: response.statusDescription) := by
    simp only [statusLine, List.append_assoc]
    rfl
  have protocol : ∀ c ∈ response.message.protocol, c ∉ ascii " \t" := fun c member =>
    HttpMessage.not_mem_blanks (printable.message.protocol_plain member).2
  have status : ∀ c ∈ printInt response.statusCode, c ∉ ascii " \t" := fun c member =>
    HttpMessage.not_mem_blanks (isSpace_of_isDigit
      (isDigit_of_mem_printInt printable.statusCode_nonneg member))
  rw [splitOf, words, splitOfLoop_word protocol (by decide) (by decide),
    splitOfLoop_word status (by decide) (by decide), splitOfLoop_last (by decide)]

/-- **A printed status line is parsed back.** -/
theorem Printable.parseFirstLine (printable : response.Printable) (target : HttpResponse) :
    HttpResponseParser.parseFirstLine response.statusLine target =
      (0, { response with
        message := { response.message with headers := target.message.headers } }) := by
  have digits : 0 ∉ printInt response.statusCode := fun member =>
    absurd (isDigit_of_mem_printInt printable.statusCode_nonneg member) (by decide)
  have status : parseInt (printInt response.statusCode) (-1) = response.statusCode := by
    rw [parseInt, cStr_of_no_zero digits,
      scanInt_printInt printable.statusCode_nonneg printable.statusCode_int]
    rfl
  have notNegative : ¬ response.statusCode < 0 := not_lt.mpr printable.statusCode_nonneg
  rw [HttpResponseParser.parseFirstLine, printable.splitOf_statusLine]
  simp only [HttpMessageParser.parseProtocol_protocol printable.message, lt_irrefl, if_false,
    status, notNegative, cStr_of_no_zero printable.statusDescription_zero_free]
  rfl

end HttpResponse

theorem httpResponseParser_lawful : httpResponseParser.Lawful where
  get_set _ _ := rfl
  set_set _ _ _ := rfl
  set_get _ := rfl

/-- **A printed response is parsed back**, whatever follows it in memory. -/
theorem HttpResponse.parse_print {response : HttpResponse} (printable : response.Printable)
    (target : HttpResponse) (after : Bytes) :
    httpResponseParser.parse (response.print ++ after) response.print.length target.clear =
      (true, response) := by
  have line : httpResponseParser.parseFirstLine response.statusLine target.clear = _ :=
    printable.parseFirstLine target.clear
  have headers : HttpMessageParser.setHeaders
      { response.message with headers := target.clear.message.headers }
      response.message.headers.items = response.message :=
    HttpMessageParser.setHeaders_items rfl response.message.headers
  rw [HttpResponse.print_eq, HttpMessageParser.parse_append
    httpResponseParser_rejectsEmptyFirstLine (HttpMessage.headerEndTag_isSuffix _ _)]
  rw [HttpMessageParser.parse_printed httpResponseParser_lawful
    printable.cr_not_mem_statusLine line printable.message.headers]
  exact congrArg (fun message => (true, { response with message })) headers

/-- A response with an empty value and blanks in its description. -/
theorem HttpResponse.parse_print_notFound :
    let response : HttpResponse :=
      ⟨⟨⟨[⟨ascii "Server", []⟩, ⟨ascii "X-Y", ascii "a: b"⟩], by decide⟩, ascii "HTTP",
        ascii "1.1"⟩, 404, ascii " Not Found"⟩
    httpResponseParser.parse (response.print ++ ascii "body") response.print.length
      HttpResponse.create.clear = (true, response) :=
  HttpResponse.parse_print
    ⟨⟨by decide, by decide +kernel, by decide, by decide +kernel, by
      simp only [List.forall_mem_cons, List.not_mem_nil, false_imp_iff, implies_true, and_true]
      exact ⟨⟨by decide, by decide +kernel, by decide +kernel, by decide, by decide +kernel,
          by decide +kernel⟩,
        ⟨by decide, by decide +kernel, by decide +kernel, by decide +kernel, by decide +kernel,
          by decide +kernel⟩⟩⟩,
      by decide, by decide, by decide +kernel, by decide +kernel⟩ HttpResponse.create
        (ascii "body")

end Xul
