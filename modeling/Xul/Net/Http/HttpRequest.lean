import Xul.Net.Http.HttpMessageParser
import Xul.Net.SimpleUri

/-!
# Requests

A request keeps its address twice, as it was given and with its parameters encoded, and
is printed with the second.  What the parser makes of a request line cannot fail on the
address: `set_url` does not look at what parsing it returns.
-/

set_option autoImplicit false

namespace Xul

structure HttpRequest where
  method : Bytes
  uri : SimpleUri
  encodedUri : SimpleUri
  message : HttpMessage
deriving DecidableEq

namespace HttpRequest

/-- `create_url_request`. -/
def create : HttpRequest := ⟨[], SimpleUri.clear, SimpleUri.clear, HttpMessage.clear⟩

def getUrl (request : HttpRequest) : Bytes := cStr request.uri.originalString

def setMethod (request : HttpRequest) (method : Bytes) : HttpRequest := { request with method }

/-- `set_url` of a string that is not null. -/
def setUrl (request : HttpRequest) (url : Bytes) : HttpRequest :=
  { request with uri := (SimpleUri.parse url).2, encodedUri := (SimpleUri.parse url).2.encode }

def setProtocolVersion (request : HttpRequest) (protocolVersion : Bytes) : HttpRequest :=
  { request with message := { request.message with protocolVersion } }

def getHeader (request : HttpRequest) (name defaultValue : Bytes) : Bytes :=
  request.message.headers.get name defaultValue

def setHeader (request : HttpRequest) (name value : Bytes) : HttpRequest :=
  { request with message := request.message.setHeader name value }

def print (request : HttpRequest) : Bytes :=
  request.method ++ ascii " " ++ request.encodedUri.originalString ++ ascii " " ++
    request.message.protocolName ++ ascii "/" ++ request.message.protocolVersion ++ crlf ++
    request.message.writeHeaders

end HttpRequest

namespace HttpRequestParser

/-- The request line: a method, an address and a protocol. -/
def parseFirstLine (line : Bytes) (request : HttpRequest) : Int × HttpRequest :=
  match splitOf line (ascii " \t") 0 with
  | [method, url, protocol] =>
      let parsed := HttpMessageParser.parseProtocol protocol request.message
      let versioned := { request with message := parsed.2 }
      if parsed.1 < 0 then (parsed.1, versioned)
      else (0, (versioned.setMethod (cStr method)).setUrl (cStr url))
  | _ => (HttpMessageParser.errorInvalidRequestLine, request)

end HttpRequestParser

def httpRequestParser : HttpMessageParser HttpRequest where
  parseFirstLine := HttpRequestParser.parseFirstLine
  getMessage := HttpRequest.message
  setMessage message request := { request with message }

theorem httpRequestParser_rejectsEmptyFirstLine : httpRequestParser.RejectsEmptyFirstLine := by
  intro request
  simp [httpRequestParser, HttpRequestParser.parseFirstLine, splitOf, splitOfLoop,
    HttpMessageParser.errorInvalidRequestLine]

/-- What `http_request_parser` makes of a block of a size that starts at `data`. -/
def parseRequest (data : Bytes) (size : Nat) : Option HttpRequest :=
  let parsed := httpRequestParser.parse data size HttpRequest.create
  if parsed.1 then some parsed.2 else none

/-- **A header block is parsed as the same request whatever follows it in memory.** -/
theorem parseRequest_append {block : Bytes} (ends : HttpMessage.headerEndTag <:+ block)
    (after : Bytes) :
    parseRequest (block ++ after) block.length = parseRequest block block.length := by
  simp only [parseRequest, HttpMessageParser.parse_append httpRequestParser_rejectsEmptyFirstLine
    ends after HttpRequest.create]

/-- **Requests and responses are read from their header alone**: two buffers that are the same
up to the first empty line are parsed in the same way. -/
theorem parse_reads_only_header {data other : Bytes} {pos : Nat}
    (found : HttpMessage.findHeaderEnd data = some pos)
    (same : other.take (pos + 4) = data.take (pos + 4)) :
    (∀ request, httpRequestParser.parse other (pos + 4) request =
        httpRequestParser.parse data (pos + 4) request) ∧
      ∀ response, httpResponseParser.parse other (pos + 4) response =
        httpResponseParser.parse data (pos + 4) response :=
  ⟨HttpMessageParser.parse_eq_of_take_eq httpRequestParser_rejectsEmptyFirstLine found same,
    HttpMessageParser.parse_eq_of_take_eq httpResponseParser_rejectsEmptyFirstLine found same⟩

/-- A request without headers, with another one behind it or with a line end that stands
alone. -/
theorem parse_reads_only_header_of_get :
    httpRequestParser.parse (ascii "GET / HTTP/1.1\r\n\r\n" ++ ascii "GET /more") 18 .create =
        httpRequestParser.parse (ascii "GET / HTTP/1.1\r\n\r\n" ++ crlf) 18 .create ∧
      httpResponseParser.parse (ascii "GET / HTTP/1.1\r\n\r\n" ++ ascii "GET /more") 18 .create =
        httpResponseParser.parse (ascii "GET / HTTP/1.1\r\n\r\n" ++ crlf) 18 .create := by
  have found : HttpMessage.findHeaderEnd (ascii "GET / HTTP/1.1\r\n\r\n" ++ crlf) = some 14 := by
    decide +kernel
  have same : (ascii "GET / HTTP/1.1\r\n\r\n" ++ ascii "GET /more").take (14 + 4) =
      (ascii "GET / HTTP/1.1\r\n\r\n" ++ crlf).take (14 + 4) := by decide +kernel
  exact ⟨(parse_reads_only_header found same).1 .create,
    (parse_reads_only_header found same).2 .create⟩

end Xul
