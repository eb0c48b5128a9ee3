import Xul.Data.AssociativeStringArray

/-!
# HTTP messages

A message is a table of headers, whose names are compared without regard to case,
and a protocol.  A response adds a status.  The end of a header block is the
first empty line, `find_header_end`.
-/

set_option autoImplicit false

namespace Xul

/-- Header names are compared without regard to case. -/
abbrev Headers := AssociativeStringArray iequalTo

theorem Headers.get_set_self (headers : Headers) (name value defaultValue : Bytes) :
    (headers.set name value).get name defaultValue = value := by
  rw [AssociativeStringArray.get_set iequalTo_iff, if_pos rfl]

theorem Headers.get_set_of_ne (headers : Headers) {name other : Bytes} (value defaultValue : Bytes)
    (differ : toLowerCopy other ≠ toLowerCopy name) :
    (headers.set name value).get other defaultValue = headers.get other defaultValue := by
  rw [AssociativeStringArray.get_set iequalTo_iff, if_neg differ]

/-- A header that was removed is absent. -/
theorem Headers.get_remove_self (headers : Headers) (name defaultValue : Bytes) :
    (headers.remove name).get name defaultValue = defaultValue := by
  rw [AssociativeStringArray.get_remove iequalTo_iff, if_pos rfl]

structure HttpMessage where
  headers : Headers
  protocolName : Bytes
  protocolVersion : Bytes
deriving DecidableEq

namespace HttpMessage

/-- The two line ends that close a header block. -/
def headerEndTag : Bytes := [13, 10, 13, 10]

/-- `find_header_end`: the offset of the empty line, if it has arrived. -/
def findHeaderEnd (data : Bytes) : Option Nat := search data headerEndTag

/-- `clear`, which is also how a message begins. -/
def clear : HttpMessage := ⟨.empty iequalTo, ascii "HTTP", ascii "1.0"⟩

def setHeader (message : HttpMessage) (name value : Bytes) : HttpMessage :=
  { message with headers := message.headers.set name value }

def writeHeaders (message : HttpMessage) : Bytes :=
  message.headers.items.flatMap (fun entry => entry.key ++ ascii ": " ++ entry.value ++ crlf)
    ++ crlf

end HttpMessage

/-! ## Status codes -/

namespace HttpStatusCode

def table : List (Int × String) :=
  [(200, "OK"), (201, "Created"), (202, "Accepted"), (204, "No Content"),
   (206, "Partial Content"), (300, "Multiple Choices"), (301, "Moved Permanently"),
   (302, "Found"), (304, "Not Modified"), (307, "Temporary Redirect"), (400, "Bad Request"),
   (401, "Unauthorized"), (403, "Forbidden"), (404, "Not Found"),
   (500, "Internal Server Error"), (501, "Not Implemented"), (502, "Bad Gateway"),
   (503, "Service Unavailable"), (416, "Requested Range Not Satisfiable")]

/-- The description of a status code, empty for a code outside the table. -/
def getDescription (code : Int) : Bytes :=
  ((table.find? fun row => row.1 == code).map fun row => ascii row.2).getD []

end HttpStatusCode

/-! ## Responses -/

structure HttpResponse where
  message : HttpMessage
  statusCode : Int
  statusDescription : Bytes
deriving DecidableEq

namespace HttpResponse

/-- `create_url_response`. -/
def create : HttpResponse := ⟨HttpMessage.clear, 0, []⟩

/-- `clear` leaves the status description as it is. -/
def clear (response : HttpResponse) : HttpResponse :=
  { response with message := HttpMessage.clear, statusCode := 0 }

/-- Setting a known status code also sets its description. -/
def setStatusCode (response : HttpResponse) (statusCode : Int) : HttpResponse :=
  let desc := HttpStatusCode.getDescription statusCode
  { response with
    statusCode
    statusDescription := if desc = [] then response.statusDescription else desc }

def setStatusDescription (response : HttpResponse) (val : Bytes) : HttpResponse :=
  { response with statusDescription := val }

def setHeader (response : HttpResponse) (name value : Bytes) : HttpResponse :=
  { response with message := response.message.setHeader name value }

def getHeader (response : HttpResponse) (name defaultValue : Bytes) : Bytes :=
  response.message.headers.get name defaultValue

def removeHeader (response : HttpResponse) (name : Bytes) : HttpResponse :=
  { response with
    message := { response.message with headers := response.message.headers.remove name } }

def print (response : HttpResponse) : Bytes :=
  response.message.protocolName ++ ascii "/" ++ response.message.protocolVersion ++ ascii " " ++
    printInt response.statusCode ++ ascii " " ++ response.statusDescription ++ crlf ++
    response.message.writeHeaders

end HttpResponse

/-- `url_messages::get_content_length`: -1 when the header is absent or no number. -/
def getContentLength (headers : Headers) : Int :=
  parseInt64 (headers.get (ascii "Content-Length") []) (-1)

end Xul
