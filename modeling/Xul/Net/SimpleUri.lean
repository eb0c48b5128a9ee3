import Xul.Data.AssociativeStringArray
import Xul.Std.Strings

/-!
# Uris

`simple_uri` takes an address apart: scheme, host and port when there is a scheme,
then path, query and fragment.  An address whose scheme is not made of letters, or that
has none, is all path.
-/

set_option autoImplicit false

namespace Xul

/-! ## Percent coding -/

namespace UrlEncoding

/-- `from_hex`: a character that is no digit is taken for a letter. -/
def fromHex (ch : UInt8) : UInt8 := if isDigit ch then ch - 48 else tolower ch - 97 + 10

/-- Characters that stand for themselves. -/
def isUnreserved (ch : UInt8) : Bool := isDigit ch || isAlpha ch || ch ∈ ascii "-_.~,;"

/-- The table that the source names upper case has the lower case digits. -/
def upperHex : Bytes := ascii "0123456789abcdef"

def toHex (code : UInt8) : UInt8 := upperHex.getD (code &&& 15).toNat 0

/-- `encode` of the upper case instance. -/
def encode (s : Bytes) : Bytes :=
  (cStr s).flatMap fun ch => if isUnreserved ch then [ch] else [37, toHex (ch >>> 4), toHex (ch &&& 15)]

/-- The loop of `decode`: an escape that is cut short loses its percent sign. -/
def decodeLoop : Bytes → Bytes
  | [] => []
  | 37 :: first :: second :: rest => (fromHex first <<< 4 ||| fromHex second) :: decodeLoop rest
  | 37 :: rest => decodeLoop rest
  | 43 :: rest => 32 :: decodeLoop rest
  | ch :: rest => ch :: decodeLoop rest

def decode (s : Bytes) : Bytes := decodeLoop (cStr s)

end UrlEncoding

namespace WellKnownPorts

def portTable : List (String × Int) :=
  [("ftp", 21), ("ssh", 22), ("telnet", 23), ("smtp", 25), ("dns", 53), ("http", 80),
   ("pop", 110), ("nntp", 119), ("imap", 143), ("snmp", 161), ("https", 443), ("rtsp", 554),
   ("rtmp", 1935), ("rtmfp", 1935)]

def getPort (scheme : Bytes) (defaultPort : Int) : Int :=
  ((portTable.find? fun row => ascii row.1 == scheme).map Prod.snd).getD defaultPort

end WellKnownPorts

/-! ## The parts of a uri -/

/-- Parameter names are compared as they are. -/
abbrev UriParams := AssociativeStringArray fun x y => x == y

/-- `simple_uri`; nothing sets its user name and password. -/
structure SimpleUri where
  originalString : Bytes
  scheme : Bytes
  host : Bytes
  port : Int
  fullPath : Bytes
  path : Bytes
  filename : Bytes
  query : Bytes
  fragment : Bytes
  params : UriParams
deriving DecidableEq

/-- `std::string::find` from an offset on. -/
def findFrom (s : Bytes) (c : UInt8) (offset : Nat) : Option Nat :=
  ((s.drop offset).findIdx? (· == c)).map (· + offset)

/-- `strings::extract_string`. -/
def extractString (s : Bytes) (start : Nat) : Option Nat → Bytes
  | some stop => (s.drop start).take (stop - start)
  | none => s.drop start

/-- `string_dicts::parse`. -/
def parseDict (dict : UriParams) (src : Bytes) (firstKey secondKey : UInt8) : UriParams :=
  (split src firstKey).foldl
    (fun dict part =>
      let keyVal := splitPair part secondKey
      if keyVal.1 = [] then dict else dict.set (cStr keyVal.1) (cStr keyVal.2)) dict

namespace SimpleUri

def clear : SimpleUri := ⟨[], [], [], 0, [], [], [], [], [], .empty _⟩

/-- `paths::get_filename`. -/
def getFilename (path : Bytes) : Bytes := path.rtakeWhile (· ≠ 47)

def assembleFullPath (uri : SimpleUri) : SimpleUri :=
  { uri with fullPath := if uri.query = [] then uri.path else uri.path ++ ascii "?" ++ uri.query }

def assembleQuery (uri : SimpleUri) : SimpleUri :=
  let pairs := uri.params.items.map fun entry => entry.key ++ ascii "=" ++ entry.value
  assembleFullPath { uri with query := (pairs.intersperse (ascii "&")).flatten }

def setParam (uri : SimpleUri) (name val : Bytes) : SimpleUri :=
  assembleQuery { uri with params := uri.params.set name val }

def removeParam (uri : SimpleUri) (name : Bytes) : SimpleUri :=
  assembleQuery { uri with params := uri.params.remove name }

def parseFragment (uri : SimpleUri) (s : Bytes) : Option Nat → SimpleUri
  | some offset => { uri with fragment := s.drop (offset + 1) }
  | none => uri

def parseParams (uri : SimpleUri) (s : Bytes) (offset : Nat) (stop : Option Nat) : SimpleUri :=
  let query := extractString s (offset + 1) stop
  let params := parseDict uri.params query 38 61
  { uri with
    query
    params := params.mapValues fun value => cStr (UrlEncoding.decode value) }

/-- `parse_path` from an offset on; without one the uri has no path. -/
def parsePath (uri : SimpleUri) (s : Bytes) : Option Nat → Bool × SimpleUri
  | none => (true, uri)
  | some offset =>
      let located :=
        match findFrom s 63 offset with
        | some paramsPos =>
            let fragmentPos := findFrom s 35 (paramsPos + 1)
            let parsed := (uri.parseFragment s fragmentPos).parseParams s paramsPos fragmentPos
            { parsed with path := (s.drop offset).take (paramsPos - offset) }
        | none =>
            let fragmentPos := findFrom s 35 offset
            { uri.parseFragment s fragmentPos with path := extractString s offset fragmentPos }
      let assembled := located.assembleFullPath
      (true, { assembled with filename := getFilename assembled.path })

/-- `parse_host_and_port`: a port that is no number fails, and leaves the host set. -/
def parseHostAndPort (uri : SimpleUri) (s : Bytes) (start stop : Nat) : Bool × SimpleUri :=
  match findFrom s 58 start with
  | some pos =>
      if pos < stop then
        let named := { uri with host := (s.drop start).take (pos - start) }
        match scanInt (cStr ((s.drop (pos + 1)).take (stop - (pos + 1)))) with
        | some port => (true, { named with port })
        | none => (false, named)
      else (true, { uri with
        host := (s.drop start).take (stop - start)
        port := if uri.scheme = [] then uri.port else WellKnownPorts.getPort uri.scheme 0 })
  | none => (true, { uri with
      host := (s.drop start).take (stop - start)
      port := if uri.scheme = [] then uri.port else WellKnownPorts.getPort uri.scheme 0 })

/-- An address without a slash after its scheme has neither host nor path. -/
def parseWithScheme (uri : SimpleUri) (s : Bytes) (offset : Nat) : Bool × SimpleUri :=
  match findFrom s 47 offset with
  | none => uri.parsePath s none
  | some pathPos =>
      if offset < pathPos then
        let hosted := uri.parseHostAndPort s offset pathPos
        if hosted.1 then hosted.2.parsePath s (some pathPos) else hosted
      else uri.parsePath s (some pathPos)

def parse (urlstr : Bytes) : Bool × SimpleUri :=
  let s := cStr urlstr
  let uri := { clear with originalString := s }
  match search s (ascii "://") with
  | some schemePos =>
      if (s.take schemePos).all isAlpha then
        { uri with scheme := s.take schemePos }.parseWithScheme s (schemePos + 3)
      else uri.parsePath s (some 0)
  | none => uri.parsePath s (some 0)

def assemble (uri : SimpleUri) : Bytes :=
  (if uri.host = [] then []
   else
    (if uri.scheme = [] then [] else uri.scheme ++ ascii "://") ++ uri.host ++
      (if 0 < uri.port ∧ ¬ (uri.scheme = ascii "http" ∧ uri.port = 80) then
        ascii ":" ++ printInt uri.port
       else [])) ++
    uri.path ++ (if uri.query = [] then [] else ascii "?" ++ uri.query) ++
    (if uri.fragment = [] then [] else ascii "#" ++ uri.fragment)

def encode (uri : SimpleUri) : SimpleUri :=
  let encoded := assembleQuery
    { uri with params := uri.params.mapValues fun value => cStr (UrlEncoding.encode value) }
  { encoded with originalString := encoded.assemble }

/-! ## Addresses with and without a host -/

@[simp] theorem assembleFullPath_host (uri : SimpleUri) : uri.assembleFullPath.host = uri.host :=
  rfl

@[simp] theorem assembleFullPath_port (uri : SimpleUri) : uri.assembleFullPath.port = uri.port :=
  rfl

@[simp] theorem parseFragment_host (uri : SimpleUri) (s : Bytes) (offset : Option Nat) :
    (uri.parseFragment s offset).host = uri.host := by
  cases offset <;> rfl

@[simp] theorem parseFragment_port (uri : SimpleUri) (s : Bytes) (offset : Option Nat) :
    (uri.parseFragment s offset).port = uri.port := by
  cases offset <;> rfl

/-- **The path of an address says nothing of its host and port.** -/
theorem parsePath_host_port (uri : SimpleUri) (s : Bytes) (offset : Option Nat) :
    (uri.parsePath s offset).2.host = uri.host ∧ (uri.parsePath s offset).2.port = uri.port := by
  cases offset with
  | none => exact ⟨rfl, rfl⟩
  | some offset =>
      rw [parsePath]
      cases findFrom s 63 offset with
      | none => simp
      | some paramsPos => simp [parseParams]

/-- **An address without a scheme is all path.** -/
theorem parse_host_of_no_scheme {urlstr : Bytes} (none : search (cStr urlstr) (ascii "://") = .none) :
    (parse urlstr).2.host = [] ∧ (parse urlstr).2.port = 0 := by
  simp only [parse, none]
  exact parsePath_host_port _ _ _

example : (parse (ascii "http://www.host.com:9988/dir/file.ext?key=a+b#part")).2.host =
    ascii "www.host.com" := by decide +kernel

end SimpleUri

end Xul
