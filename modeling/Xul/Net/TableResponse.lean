import Xul.Data.StringTables
import Xul.Net.Http.HttpMessage

/-!
# Responses with a table of any class

A response is created with a table that tells its names apart without regard to case and keeps
them in the order of their first use.  `set_headers` puts a clone of another table in its place,
which may be of any class of `string_table`, and `clear` empties the table that is there.  The
classes print the same fields in different orders, and keep two spellings of a name apart or not.

With the class it is created with, the response is the one of `HttpResponse` (`print_tabled`).
-/

set_option autoImplicit false

namespace Xul

open Foundation

/-- `tree_map` with the keys in the order of their lower case: the key that was stored first
keeps its spelling. -/
structure IstringTreeMap where
  items : List (Bytes × StringPairEntry)
  ordered : Ordered items

namespace IstringTreeMap

def create : IstringTreeMap := ⟨[], List.Pairwise.nil⟩

def set (map : IstringTreeMap) (key val : Bytes) : IstringTreeMap :=
  ⟨insertEntry (fun old new => { old with value := new.value }) (toLowerCopy key) ⟨key, val⟩
    map.items, ordered_insertEntry map.ordered⟩

def remove (map : IstringTreeMap) (key : Bytes) : IstringTreeMap :=
  ⟨map.items.filter fun item => item.1 ≠ toLowerCopy key,
    map.ordered.sublist List.filter_sublist⟩

end IstringTreeMap

/-! ## The classes of `string_table` -/

/-- The classes, under the names of the functions that create them. -/
inductive TableClass where
  | stringMap
  | istringMap
  | associativeStringArray
  | associativeIstringArray
deriving DecidableEq

inductive StringTable where
  | stringMap (map : StringTreeMap)
  | istringMap (map : IstringTreeMap)
  | associativeStringArray (table : StringArray)
  | associativeIstringArray (table : Headers)

namespace StringTable

/-- `create_string_map` and the other three. -/
def create : TableClass → StringTable
  | .stringMap => .stringMap .create
  | .istringMap => .istringMap .create
  | .associativeStringArray => .associativeStringArray (.empty _)
  | .associativeIstringArray => .associativeIstringArray (.empty iequalTo)

def tableClass : StringTable → TableClass
  | .stringMap _ => .stringMap
  | .istringMap _ => .istringMap
  | .associativeStringArray _ => .associativeStringArray
  | .associativeIstringArray _ => .associativeIstringArray

def set (table : StringTable) (key val : Bytes) : StringTable :=
  match table with
  | .stringMap map => .stringMap (map.set key val)
  | .istringMap map => .istringMap (map.set key val)
  | .associativeStringArray table => .associativeStringArray (table.set key val)
  | .associativeIstringArray table => .associativeIstringArray (table.set key val)

def remove (table : StringTable) (key : Bytes) : StringTable :=
  match table with
  | .stringMap map => .stringMap (map.remove key)
  | .istringMap map => .istringMap (map.remove key)
  | .associativeStringArray table => .associativeStringArray (table.remove key)
  | .associativeIstringArray table => .associativeIstringArray (table.remove key)

/-- `clear` empties the table and keeps its class. -/
def clear (table : StringTable) : StringTable := create table.tableClass

/-- What the iterators of a table go through. -/
def entries : StringTable → List StringPairEntry
  | .stringMap map => map.items.map fun item => ⟨item.1, item.2⟩
  | .istringMap map => map.items.map Prod.snd
  | .associativeStringArray table => table.items
  | .associativeIstringArray table => table.items

/-- `write_headers`. -/
def write (table : StringTable) : Bytes :=
  table.entries.flatMap (fun entry => entry.key ++ ascii ": " ++ entry.value ++ crlf) ++ crlf

end StringTable

/-! ## The response -/

/-- `http_response`, with the members of its `http_message`. -/
structure TableResponse where
  headers : StringTable
  protocolName : Bytes
  protocolVersion : Bytes
  statusCode : Int
  statusDescription : Bytes

namespace TableResponse

/-- A response that was cleared and has a status description left. -/
def cleared (tableClass : TableClass) (statusDescription : Bytes) : TableResponse :=
  ⟨.create tableClass, ascii "HTTP", ascii "1.0", 0, statusDescription⟩

/-- `create_url_response`. -/
def create : TableResponse := cleared .associativeIstringArray []

def clear (response : TableResponse) : TableResponse :=
  { response with
    headers := response.headers.clear
    protocolName := ascii "HTTP"
    protocolVersion := ascii "1.0"
    statusCode := 0 }

def setStatusCode (response : TableResponse) (statusCode : Int) : TableResponse :=
  let desc := HttpStatusCode.getDescription statusCode
  { response with
    statusCode
    statusDescription := if desc = [] then response.statusDescription else desc }

def setStatusDescription (response : TableResponse) (val : Bytes) : TableResponse :=
  { response with statusDescription := val }

def setHeader (response : TableResponse) (name val : Bytes) : TableResponse :=
  { response with headers := response.headers.set name val }

/-- `ref_headers()->remove`. -/
def removeHeader (response : TableResponse) (name : Bytes) : TableResponse :=
  { response with headers := response.headers.remove name }

/-- `url_messages::set_chunked`. -/
def setChunked (response : TableResponse) : TableResponse :=
  { response with protocolVersion := ascii "1.1" }.setHeader (ascii "Transfer-Encoding")
    (ascii "chunked")

def print (response : TableResponse) : Bytes :=
  response.protocolName ++ ascii "/" ++ response.protocolVersion ++ ascii " " ++
    printInt response.statusCode ++ ascii " " ++ response.statusDescription ++ crlf ++
    response.headers.write

end TableResponse

/-! ## The class that a response is created with -/

namespace HttpResponse

/-- The same response, with its table as one of the classes. -/
def tabled (response : HttpResponse) : TableResponse :=
  ⟨.associativeIstringArray response.message.headers, response.message.protocolName,
    response.message.protocolVersion, response.statusCode, response.statusDescription⟩

/-- **The response prints the same.** -/
theorem print_tabled (response : HttpResponse) : response.tabled.print = response.print := rfl

end HttpResponse

end Xul
