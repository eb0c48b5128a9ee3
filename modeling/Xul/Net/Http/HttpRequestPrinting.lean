import Xul.Net.Http.HttpMessagePrinting
import Xul.Net.Http.HttpRequest
import Xul.Net.UriNormalForm

/-!
# Printed requests are parsed back

A request is printed with the normal form of its address.  The parser makes a request of
the printed text that is printed in the same way (`reparsedAs_print`), when the address is
stable and no word of the request line contains white space.
-/

set_option autoImplicit false

namespace Xul

open Foundation

namespace HttpRequest

/-- White space that parts the words of a request line, or ends it. -/
def blanks : Bytes := ascii " \t\r\n"

/-- A request of a method, an address that was set, and a message. -/
def ofUrl (method url : Bytes) (message : HttpMessage) : HttpRequest :=
  { (create.setMethod method).setUrl url with message }

/-- Parsing succeeds with the same method and message, and what is parsed is printed in the
same way. -/
def ReparsedAs (request : HttpRequest) (outcome : Bool × HttpRequest) : Prop :=
  outcome.1 = true ∧ outcome.2.method = request.method ∧
    outcome.2.message = request.message ∧ outcome.2.print = request.print

instance (request : HttpRequest) (outcome : Bool × HttpRequest) :
    Decidable (request.ReparsedAs outcome) :=
  inferInstanceAs (Decidable (_ ∧ _))

/-- A request whose address was accepted, with words that contain no white space. -/
structure Printable (method url : Bytes) (message : HttpMessage) : Prop where
  message : message.Printable
  method_plain : ∀ c ∈ method, c ∉ blanks
  method_zero_free : 0 ∉ method
  accepted : (SimpleUri.parse url).1 = true
  path_plain : ∀ c ∈ (SimpleUri.parse url).2.path, c ∉ blanks
  key_plain : ∀ entry ∈ (SimpleUri.parse url).2.params.items, ∀ c ∈ entry.key, c ∉ blanks
  host_plain : ∀ c ∈ (SimpleUri.parse url).2.host, c ∉ blanks
  fragment_plain : ∀ c ∈ (SimpleUri.parse url).2.fragment, c ∉ blanks
  stable : (SimpleUri.parse url).2.Stable

variable {method url : Bytes} {message : HttpMessage}

/-- The address as it stands in the request line. -/
def printedUrl (url : Bytes) : Bytes := (SimpleUri.parse url).2.encode.originalString

def requestLine (method url : Bytes) (message : HttpMessage) : Bytes :=
  method ++ ascii " " ++ printedUrl url ++ ascii " " ++ message.protocol

theorem print_ofUrl (method url : Bytes) (message : HttpMessage) :
    (ofUrl method url message).print =
      requestLine method url message ++ crlf ++ HttpMessage.printEntries message.headers.items := by
  simp only [print, HttpMessage.writeHeaders_eq, requestLine, HttpMessage.protocol,
    List.append_assoc]
  rfl

/-- The address that is printed contains no white space. -/
theorem Printable.printedUrl_plain (printable : Printable method url message) :
    ∀ c ∈ printedUrl url, c ∉ blanks := by
  have accepted := SimpleUri.accepted_of_parse printable.accepted
  refine accepted.forall_mem_originalString ?_ ?_ (by decide +kernel) printable.host_plain
    printable.path_plain printable.key_plain ?_ printable.fragment_plain
  · exact @forall_byte (fun c => isAlpha c = true → c ∉ blanks) (by decide +kernel)
  · exact @forall_byte (fun c => isDigit c = true → c ∉ blanks) (by decide +kernel)
  · intro entry present c member blank
    have reserved : c ∈ UrlEncoding.reserved := by
      have which : c = 32 ∨ c = 9 ∨ c = 13 ∨ c = 10 := by simpa [blanks, ascii] using blank
      rcases which with rfl | rfl | rfl | rfl
      · decide
      · decide
      · decide
      · decide
    exact UrlEncoding.not_reserved_of_mem_encode member reserved

theorem Printable.printedUrl_zero_free (printable : Printable method url message) :
    0 ∉ printedUrl url := by
  have accepted := SimpleUri.accepted_of_parse printable.accepted
  have clean := accepted.zero_free
  simp only [List.mem_append, not_or] at clean
  have apart : ∀ c ∈ printedUrl url, c ≠ 0 := by
    refine accepted.forall_mem_originalString ?_ ?_ (by decide +kernel)
      (fun c member same => clean.1.1 (same ▸ member))
      (fun c member same => clean.1.2 (same ▸ member)) ?_ ?_
      (fun c member same => clean.2 (same ▸ member))
    · exact fun c letter same => absurd (same ▸ letter) (by decide)
    · exact fun c digit same => absurd (same ▸ digit) (by decide)
    · intro entry present c member same
      exact (accepted.params.key entry present).plain c member (by rw [same]; decide)
    · intro entry present c member same
      exact UrlEncoding.not_reserved_of_mem_encode member (by rw [same]; decide)
  exact fun member => apart 0 member rfl

/-- The words of a request line. -/
theorem Printable.splitOf_requestLine (printable : Printable method url message) :
    splitOf (requestLine method url message) (ascii " \t") 0 =
      [method, printedUrl url, message.protocol] := by
  have blank : ∀ {c : UInt8}, c ∉ blanks → c ∉ ascii " \t" := by
    intro c apart member
    have which : c = 32 ∨ c = 9 := by simpa [ascii] using member
    rcases which with rfl | rfl
    · exact apart (by decide)
    · exact apart (by decide)
  have words : requestLine method url message =
      method ++ 32 :: (printedUrl url ++ 32 :: (message.protocol ++ [])) := by
    simp only [requestLine, List.append_assoc, List.append_nil]
    rfl
  have protocol : ∀ c ∈ message.protocol, c ∉ ascii " \t" := fun c member =>
    HttpMessage.not_mem_blanks (printable.message.protocol_plain member).2
  rw [splitOf, words,
    splitOfLoop_word (fun c member => blank (printable.method_plain c member)) (by decide)
      (by decide),
    splitOfLoop_word (fun c member => blank (printable.printedUrl_plain c member)) (by decide)
      (by decide),
    splitOfLoop_append protocol (by decide)]
  rfl

theorem Printable.cr_not_mem_requestLine (printable : Printable method url message) :
    13 ∉ requestLine method url message := by
  simp only [requestLine, List.mem_append, not_or]
  refine ⟨⟨⟨⟨?_, by decide⟩, ?_⟩, by decide⟩, ?_⟩
  · intro member
    exact printable.method_plain 13 member (by decide)
  · intro member
    exact printable.printedUrl_plain 13 member (by decide)
  · intro member
    exact absurd (printable.message.protocol_plain member).2 (by decide)

/-- **A printed request line is parsed back**, with the address that was printed. -/
theorem Printable.parseFirstLine (printable : Printable method url message)
    (target : HttpRequest) :
    HttpRequestParser.parseFirstLine (requestLine method url message) target =
      (0, ofUrl method (printedUrl url)
        { message with headers := target.message.headers }) := by
  rw [HttpRequestParser.parseFirstLine, printable.splitOf_requestLine]
  simp only [HttpMessageParser.parseProtocol_protocol printable.message, lt_irrefl, if_false,
    cStr_of_no_zero printable.method_zero_free, cStr_of_no_zero printable.printedUrl_zero_free]
  rfl

end HttpRequest

theorem httpRequestParser_lawful : httpRequestParser.Lawful where
  get_set _ _ := rfl
  set_set _ _ _ := rfl
  set_get _ := rfl

namespace HttpRequest

variable {method url : Bytes} {message : HttpMessage}

/-- **A printed request is parsed as one that is printed in the same way**, whatever
follows it in memory. -/
theorem reparsedAs_print (printable : Printable method url message) (after : Bytes) :
    (ofUrl method url message).ReparsedAs
      (httpRequestParser.parse ((ofUrl method url message).print ++ after)
        (ofUrl method url message).print.length create) := by
  have line : httpRequestParser.parseFirstLine (requestLine method url message) create = _ :=
    printable.parseFirstLine create
  have headers : HttpMessageParser.setHeaders { message with headers := create.message.headers }
      message.headers.items = message := HttpMessageParser.setHeaders_items rfl message.headers
  have parsed : httpRequestParser.parse ((ofUrl method url message).print ++ after)
      (ofUrl method url message).print.length create =
      (true, ofUrl method (printedUrl url) message) := by
    rw [print_ofUrl, HttpMessageParser.parse_append httpRequestParser_rejectsEmptyFirstLine
      (HttpMessage.headerEndTag_isSuffix _ _)]
    rw [HttpMessageParser.parse_printed httpRequestParser_lawful
      printable.cr_not_mem_requestLine line printable.message.headers]
    exact congrArg (fun message => (true, ofUrl method (printedUrl url) message)) headers
  have again : printedUrl (printedUrl url) = printedUrl url :=
    ((SimpleUri.accepted_of_parse printable.accepted).encode_parse_encode printable.stable).2
  rw [parsed]
  refine ⟨rfl, rfl, rfl, ?_⟩
  rw [print_ofUrl, print_ofUrl, requestLine, again]
  rfl

/-- A request with a port, parameters that are encoded, and a fragment. -/
theorem reparsedAs_print_search :
    let message : HttpMessage :=
      ⟨⟨[⟨ascii "Host", ascii "h"⟩], by decide⟩, ascii "HTTP", ascii "1.1"⟩
    let request := ofUrl (ascii "GET") (ascii "http://h:81/a?k=v+w&k=2&x#part") message
    request.ReparsedAs
      (httpRequestParser.parse (request.print ++ ascii "body") request.print.length create) :=
  reparsedAs_print
    { message := ⟨by decide, by decide +kernel, by decide, by decide +kernel, by
        simp only [List.forall_mem_cons, List.not_mem_nil, false_imp_iff, implies_true, and_true]
        exact ⟨by decide, by decide +kernel, by decide +kernel, by decide +kernel,
          by decide +kernel, by decide +kernel⟩⟩
      method_plain := by decide +kernel
      method_zero_free := by decide +kernel
      accepted := by decide +kernel
      path_plain := by decide +kernel
      key_plain := by decide +kernel
      host_plain := by decide +kernel
      fragment_plain := by decide +kernel
      stable := ⟨by decide +kernel, by decide +kernel, by decide +kernel⟩ } (ascii "body")

/-- An address that is accepted, without white space in its path and names, and that is
not printed in the same way again. -/
def Unstable (url : Bytes) : Prop :=
  (SimpleUri.parse url).1 = true ∧
    (∀ c ∈ (SimpleUri.parse url).2.path, c ∉ blanks) ∧
    (∀ entry ∈ (SimpleUri.parse url).2.params.items, ∀ c ∈ entry.key, c ∉ blanks) ∧
    ¬ (ofUrl (ascii "GET") url HttpMessage.clear).ReparsedAs
      (httpRequestParser.parse (ofUrl (ascii "GET") url HttpMessage.clear).print
        (ofUrl (ascii "GET") url HttpMessage.clear).print.length create)

instance (url : Bytes) : Decidable (Unstable url) := inferInstanceAs (Decidable (_ ∧ _))

/-- White space in a fragment or a host, a port that is put in, separators without
parameters, and a host without a scheme. -/
theorem unstable_urls : Unstable (ascii "/a#b c") ∧ Unstable (ascii "http://h h/") ∧
    Unstable (ascii "https://h:0/x") ∧ Unstable (ascii "/a?#b?c=d&c=e") ∧
    Unstable (ascii "/a#?") ∧ Unstable (ascii "://h?x/p") := by
  decide +kernel

end HttpRequest

end Xul
