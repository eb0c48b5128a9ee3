import Xul.Net.SimpleUri

/-!
# Addresses with all their components

An address is written from its components: a scheme, a host, perhaps a port, a path, and
perhaps a query and a fragment.  Parsing takes it apart again when the path is not empty
and no question mark stands in a fragment without a query before it
(`parse_recovers_iff`).  Without a slash the host is never parsed, and the question mark
is looked for through the fragment.
-/

set_option autoImplicit false

namespace Xul

open Foundation

/-! ## Looking for a separator -/

theorem findFrom_append (front s : Bytes) (c : UInt8) (offset : Nat) :
    findFrom (front ++ s) c (front.length + offset) =
      (findFrom s c offset).map (front.length + ·) := by
  rw [findFrom, findFrom, List.drop_length_add_append, Option.map_map]
  congr 1
  funext found
  exact Nat.add_left_comm found front.length offset

theorem findFrom_length_append (front s : Bytes) (c : UInt8) :
    findFrom (front ++ s) c front.length = (findFrom s c 0).map (front.length + ·) :=
  findFrom_append front s c 0

theorem findFrom_of_not_mem {s : Bytes} {c : UInt8} (absent : c ∉ s) (offset : Nat) :
    findFrom s c offset = none := by
  rw [findFrom, Option.map_eq_none_iff, List.findIdx?_eq_none_iff]
  intro other member
  exact beq_eq_false_iff_ne.mpr fun same => absent (same ▸ List.mem_of_mem_drop member)

/-- A beginning without the separator is skipped. -/
theorem findFrom_skip {before : Bytes} {c : UInt8} (absent : c ∉ before) (rest : Bytes) :
    findFrom (before ++ rest) c 0 = (findFrom rest c 0).map (before.length + ·) := by
  have nowhere : before.findIdx? (· == c) = none := by
    rw [List.findIdx?_eq_none_iff]
    intro other member
    exact beq_eq_false_iff_ne.mpr fun same => absent (same ▸ member)
  rw [findFrom, findFrom, List.drop_zero, List.drop_zero, List.findIdx?_append, nowhere,
    Option.none_or, Option.map_map, Option.map_map]
  congr 1
  funext found
  exact Nat.add_comm found before.length

theorem findFrom_append_cons {before : Bytes} {c : UInt8} (absent : c ∉ before) (rest : Bytes) :
    findFrom (before ++ c :: rest) c 0 = some before.length := by
  have here : findFrom (c :: rest) c 0 = some 0 := by
    rw [findFrom, List.drop_zero, List.findIdx?_cons, beq_self_eq_true]
    rfl
  rw [findFrom_skip absent, here]
  rfl

theorem extractString_append (front s : Bytes) (start : Nat) (stop : Option Nat) :
    extractString (front ++ s) (front.length + start) (stop.map (front.length + ·)) =
      extractString s start stop := by
  cases stop with
  | none => exact List.drop_length_add_append start
  | some stop =>
      simp only [Option.map_some, extractString, List.drop_length_add_append]
      rw [Nat.add_sub_add_left]

namespace SimpleUri

theorem parseFragment_append (uri : SimpleUri) (front s : Bytes) (offset : Option Nat) :
    uri.parseFragment (front ++ s) (offset.map (front.length + ·)) =
      uri.parseFragment s offset := by
  cases offset with
  | none => rfl
  | some offset =>
      simp only [Option.map_some, parseFragment, Nat.add_assoc, List.drop_length_add_append]

theorem parseParams_append (uri : SimpleUri) (front s : Bytes) (offset : Nat)
    (stop : Option Nat) :
    uri.parseParams (front ++ s) (front.length + offset) (stop.map (front.length + ·)) =
      uri.parseParams s offset stop := by
  simp only [parseParams, Nat.add_assoc, extractString_append]

/-- The path is parsed as if nothing stood before it. -/
theorem parsePath_append (uri : SimpleUri) (front s : Bytes) :
    uri.parsePath (front ++ s) (some front.length) = uri.parsePath s (some 0) := by
  simp only [parsePath, findFrom_length_append]
  cases findFrom s 63 0 with
  | none =>
      simp only [Option.map_none, parseFragment_append]
      have path := extractString_append front s 0 (findFrom s 35 0)
      rw [Nat.add_zero] at path
      rw [path]
  | some paramsPos =>
      have later : findFrom (front ++ s) 35 (front.length + paramsPos + 1) =
          (findFrom s 35 (paramsPos + 1)).map (front.length + ·) := by
        rw [Nat.add_assoc]
        exact findFrom_append front s 35 (paramsPos + 1)
      simp only [Option.map_some, later, parseFragment_append, parseParams_append,
        List.drop_left, Nat.add_sub_cancel_left, List.drop_zero, Nat.sub_zero]

/-! ## A path with its query and fragment -/

/-- A separator and what follows it, when there is something. -/
def optional (separator : UInt8) : Option Bytes → Bytes
  | none => []
  | some text => separator :: text

/-- What parsing a path sets: the query with its parameters decoded, and what is made of
path and query. -/
def withPath (uri : SimpleUri) (path : Bytes) (query fragment : Option Bytes) : SimpleUri :=
  let parsed :=
    match query with
    | none => uri
    | some query => { uri with
        query
        params := (parseDict uri.params query 38 61).mapValues fun value =>
          cStr (UrlEncoding.decode value) }
  let located := { parsed with path, fragment := fragment.getD parsed.fragment }
  { located.assembleFullPath with filename := getFilename path }

/-- What precedes a fragment is extracted up to it. -/
theorem extractString_optional {text : Bytes} (plain : 35 ∉ text) (fragment : Option Bytes) :
    extractString (text ++ optional 35 fragment) 0
        (findFrom (text ++ optional 35 fragment) 35 0) = text := by
  cases fragment with
  | none =>
      rw [optional, List.append_nil, findFrom_of_not_mem plain]
      rfl
  | some fragment =>
      rw [optional, findFrom_append_cons plain]
      exact List.take_left

theorem parseFragment_optional (uri : SimpleUri) {text : Bytes} (plain : 35 ∉ text)
    (fragment : Option Bytes) :
    uri.parseFragment (text ++ optional 35 fragment)
        (findFrom (text ++ optional 35 fragment) 35 0) =
      { uri with fragment := fragment.getD uri.fragment } := by
  cases fragment with
  | none =>
      rw [optional, List.append_nil, findFrom_of_not_mem plain]
      rfl
  | some fragment =>
      rw [optional, findFrom_append_cons plain, parseFragment, List.drop_length_add_append]
      rfl

/-- A path without a question mark, followed by a query without a number sign. -/
theorem parsePath_query (uri : SimpleUri) {path query : Bytes} (pathPlain : 63 ∉ path)
    (queryPlain : 35 ∉ query) (fragment : Option Bytes) :
    uri.parsePath (path ++ optional 63 (some query) ++ optional 35 fragment) (some 0) =
      (true, uri.withPath path (some query) fragment) := by
  have length : (path ++ [63]).length = path.length + 1 := by
    rw [List.length_append, List.length_singleton]
  have split : path ++ optional 63 (some query) ++ optional 35 fragment =
      (path ++ [63]) ++ (query ++ optional 35 fragment) := by
    simp [optional]
  have mark : findFrom (path ++ optional 63 (some query) ++ optional 35 fragment) 63 0 =
      some path.length := by
    rw [List.append_assoc]
    exact findFrom_append_cons pathPlain _
  have number : findFrom ((path ++ [63]) ++ (query ++ optional 35 fragment)) 35
      (path.length + 1) =
      (findFrom (query ++ optional 35 fragment) 35 0).map ((path ++ [63]).length + ·) := by
    rw [← length, findFrom_length_append]
  have extracted := extractString_append (path ++ [63]) (query ++ optional 35 fragment) 0
    (findFrom (query ++ optional 35 fragment) 35 0)
  rw [Nat.add_zero, extractString_optional queryPlain, length] at extracted
  have first : (path ++ [63] ++ (query ++ optional 35 fragment)).take path.length = path := by
    rw [List.append_assoc, List.take_left]
  rw [parsePath, mark, split]
  simp only [number, parseFragment_append, parseFragment_optional uri queryPlain, parseParams,
    List.drop_zero, Nat.sub_zero, first]
  rw [length, extracted]
  rfl

/-- A path without a query, and with neither separator in the wrong place. -/
theorem parsePath_no_query (uri : SimpleUri) {path : Bytes} {fragment : Option Bytes}
    (pathPlain : 63 ∉ path) (noNumber : 35 ∉ path) (fragmentPlain : 63 ∉ fragment.getD []) :
    uri.parsePath (path ++ optional 35 fragment) (some 0) =
      (true, uri.withPath path none fragment) := by
  have none : 63 ∉ path ++ optional 35 fragment := by
    cases fragment with
    | none => simpa [optional] using pathPlain
    | some fragment => simpa [optional, pathPlain] using fragmentPlain
  rw [parsePath, findFrom_of_not_mem none]
  simp only [parseFragment_optional uri noNumber, extractString_optional noNumber]
  rfl

/-- A text up to the first separator, and what follows it. -/
theorem exists_optional (separator : UInt8) (s : Bytes) :
    ∃ before after, s = before ++ optional separator after ∧ separator ∉ before := by
  by_cases member : separator ∈ s
  · obtain ⟨before, after, same, plain⟩ := List.eq_append_cons_of_mem member
    exact ⟨before, some after, same, plain⟩
  · exact ⟨s, none, (List.append_nil s).symm, member⟩

/-- **Every text is a path with perhaps a query and a fragment.**  The query is looked for
first. -/
theorem exists_parts (s : Bytes) : ∃ path query fragment,
    s = path ++ optional 63 query ++ optional 35 fragment ∧ 63 ∉ path ∧
      35 ∉ query.getD [] ∧ (query = none → 35 ∉ path ∧ 63 ∉ fragment.getD []) := by
  obtain ⟨path, rest, rfl, pathPlain⟩ := exists_optional 63 s
  cases rest with
  | some rest =>
      obtain ⟨query, fragment, rfl, queryPlain⟩ := exists_optional 35 rest
      exact ⟨path, some query, fragment, by simp [optional], pathPlain, queryPlain, nofun⟩
  | none =>
      obtain ⟨before, fragment, rfl, noNumber⟩ := exists_optional 35 path
      rw [List.mem_append, not_or] at pathPlain
      refine ⟨before, none, fragment, by simp [optional], pathPlain.1, List.not_mem_nil,
        fun _ => ⟨noNumber, fun member => pathPlain.2 ?_⟩⟩
      cases fragment with
      | none => exact absurd member List.not_mem_nil
      | some text => exact List.mem_cons_of_mem 35 member

/-- The parts of a text are what parsing it as a path sets. -/
theorem parsePath_parts (uri : SimpleUri) {path : Bytes} {query fragment : Option Bytes}
    (pathPlain : 63 ∉ path) (queryPlain : 35 ∉ query.getD [])
    (noQuery : query = none → 35 ∉ path ∧ 63 ∉ fragment.getD []) :
    uri.parsePath (path ++ optional 63 query ++ optional 35 fragment) (some 0) =
      (true, uri.withPath path query fragment) := by
  cases query with
  | none =>
      rw [optional, List.append_nil]
      exact parsePath_no_query uri pathPlain (noQuery rfl).1 (noQuery rfl).2
  | some query => exact parsePath_query uri pathPlain queryPlain fragment

@[simp] theorem withPath_scheme (uri : SimpleUri) (path : Bytes) (query fragment : Option Bytes) :
    (uri.withPath path query fragment).scheme = uri.scheme := by
  cases query <;> rfl

@[simp] theorem withPath_host (uri : SimpleUri) (path : Bytes) (query fragment : Option Bytes) :
    (uri.withPath path query fragment).host = uri.host := by
  cases query <;> rfl

@[simp] theorem withPath_port (uri : SimpleUri) (path : Bytes) (query fragment : Option Bytes) :
    (uri.withPath path query fragment).port = uri.port := by
  cases query <;> rfl

@[simp] theorem withPath_path (uri : SimpleUri) (path : Bytes) (query fragment : Option Bytes) :
    (uri.withPath path query fragment).path = path := rfl

@[simp] theorem withPath_query (uri : SimpleUri) (path : Bytes) (query fragment : Option Bytes) :
    (uri.withPath path query fragment).query = query.getD uri.query := by
  cases query <;> rfl

@[simp] theorem withPath_fragment (uri : SimpleUri) (path : Bytes)
    (query fragment : Option Bytes) :
    (uri.withPath path query fragment).fragment = fragment.getD uri.fragment := by
  cases query <;> rfl

/-! ## The scheme and the host -/

theorem isAlpha_colon : isAlpha 58 = false := by decide

/-- An address with a scheme in front. -/
theorem parse_of_scheme {scheme : Bytes} (alpha : ∀ c ∈ scheme, isAlpha c) {rest : Bytes}
    (clean : 0 ∉ scheme ++ ascii "://" ++ rest) :
    parse (scheme ++ ascii "://" ++ rest) =
      ({ clear with originalString := scheme ++ ascii "://" ++ rest, scheme } :
        SimpleUri).parseWithScheme (scheme ++ ascii "://" ++ rest)
          (scheme ++ ascii "://").length := by
  have nowhere : ∀ earlier < scheme.length,
      ¬ ascii "://" <+: (scheme ++ (ascii "://" ++ rest)).drop earlier := by
    rintro earlier inside ⟨after, same⟩
    rw [List.drop_append_of_le_length inside.le, List.drop_eq_getElem_cons inside] at same
    have colon : 58 = scheme[earlier] := (List.cons.inj same).1
    have letter := alpha _ (List.getElem_mem inside)
    rw [← colon, isAlpha_colon] at letter
    exact absurd letter Bool.false_ne_true
  have here : search (ascii "://" ++ rest) (ascii "://") = some 0 :=
    firstOccurrence_append (by decide) (by decide) rest
  have found : search (scheme ++ ascii "://" ++ rest) (ascii "://") = some scheme.length := by
    rw [List.append_assoc]
    exact firstOccurrence_append_left here nowhere
  have first : (scheme ++ ascii "://" ++ rest).take scheme.length = scheme := by
    rw [List.append_assoc, List.take_left]
  have length : (scheme ++ ascii "://").length = scheme.length + 3 := List.length_append
  simp only [parse, cStr_of_no_zero clean, found, first]
  rw [if_pos (List.all_eq_true.mpr alpha), length]

/-- The host without a port, up to a slash. -/
theorem parseHostAndPort_host (uri : SimpleUri) (front : Bytes) {host : Bytes}
    (plain : 58 ∉ host) (rest : Bytes) :
    uri.parseHostAndPort (front ++ (host ++ rest)) front.length (front.length + host.length) =
      (true, { uri with
        host
        port := if uri.scheme = [] then uri.port else WellKnownPorts.getPort uri.scheme 0 }) := by
  have taken : ((front ++ (host ++ rest)).drop front.length).take
      (front.length + host.length - front.length) = host := by
    rw [List.drop_left, Nat.add_sub_cancel_left, List.take_left]
  rw [parseHostAndPort, findFrom_length_append, findFrom_skip plain, taken]
  cases findFrom rest 58 0 with
  | none => rfl
  | some pos =>
      have outside : ¬ front.length + (host.length + pos) < front.length + host.length := by
        omega
      simp only [Option.map_some, if_neg outside]

/-- The host and a port, up to a slash. -/
theorem parseHostAndPort_port (uri : SimpleUri) (front : Bytes) {host : Bytes}
    (plain : 58 ∉ host) (digits rest : Bytes) :
    uri.parseHostAndPort (front ++ (host ++ 58 :: (digits ++ rest))) front.length
        (front.length + (host.length + 1 + digits.length)) =
      match scanInt (cStr digits) with
      | some port => (true, { uri with host, port })
      | none => (false, { uri with host }) := by
  have inside : front.length + host.length <
      front.length + (host.length + 1 + digits.length) := by omega
  have first : ((front ++ (host ++ 58 :: (digits ++ rest))).drop front.length).take
      (front.length + host.length - front.length) = host := by
    rw [List.drop_left, Nat.add_sub_cancel_left, List.take_left]
  have before : front ++ (host ++ 58 :: (digits ++ rest)) =
      front ++ host ++ [58] ++ (digits ++ rest) := by simp
  have length : front.length + host.length + 1 = (front ++ host ++ [58]).length := by
    simp only [List.length_append, List.length_singleton]
  have size : front.length + (host.length + 1 + digits.length) -
      (front.length + host.length + 1) = digits.length := by omega
  have second : ((front ++ (host ++ 58 :: (digits ++ rest))).drop
      (front.length + host.length + 1)).take (front.length + (host.length + 1 + digits.length) -
        (front.length + host.length + 1)) = digits := by
    rw [size, before, length, List.drop_left, List.take_left]
  rw [parseHostAndPort, findFrom_length_append, findFrom_append_cons plain]
  cases scanned : scanInt (cStr digits) with
  | none => simp only [Option.map_some, if_pos inside, first, second, scanned]
  | some port => simp only [Option.map_some, if_pos inside, first, second, scanned]

/-- What is parsed of an address from behind its scheme, up to a slash and from there. -/
theorem parseWithScheme_slash (uri : SimpleUri) (front : Bytes) {authority : Bytes}
    (plain : 47 ∉ authority) (nonempty : authority ≠ []) (rest : Bytes) :
    uri.parseWithScheme (front ++ (authority ++ 47 :: rest)) front.length =
      let hosted := uri.parseHostAndPort (front ++ (authority ++ 47 :: rest)) front.length
        (front.length + authority.length)
      if hosted.1 then hosted.2.parsePath (47 :: rest) (some 0) else hosted := by
  have inside : front.length < front.length + authority.length :=
    Nat.lt_add_of_pos_right (List.length_pos_of_ne_nil nonempty)
  have path := fun hosted : SimpleUri =>
    hosted.parsePath_append (front ++ authority) (47 :: rest)
  rw [List.append_assoc, List.length_append] at path
  simp only [parseWithScheme, findFrom_length_append, findFrom_append_cons plain,
    Option.map_some, if_pos inside, path]

/-- A slash right behind the scheme leaves no host. -/
theorem parseWithScheme_slash_nil (uri : SimpleUri) (front rest : Bytes) :
    uri.parseWithScheme (front ++ 47 :: rest) front.length =
      uri.parsePath (47 :: rest) (some 0) := by
  have here : findFrom (47 :: rest) 47 0 = some 0 := findFrom_append_cons List.not_mem_nil rest
  have path := uri.parsePath_append front (47 :: rest)
  simp only [parseWithScheme, findFrom_length_append, here, Option.map_some, Nat.add_zero,
    lt_irrefl, if_false, path]

/-- Without a slash there is neither host nor path. -/
theorem parseWithScheme_no_slash (uri : SimpleUri) (front : Bytes) {rest : Bytes}
    (plain : 47 ∉ rest) : uri.parseWithScheme (front ++ rest) front.length = (true, uri) := by
  rw [parseWithScheme, findFrom_length_append, findFrom_of_not_mem plain]
  rfl

/-! ## Addresses written from their components -/

/-- The components of an address. -/
structure Components where
  scheme : Bytes
  host : Bytes
  port : Option Nat
  path : Bytes
  query : Option Bytes
  fragment : Option Bytes
  scheme_nonempty : scheme ≠ []
  scheme_alpha : ∀ c ∈ scheme, isAlpha c
  host_nonempty : host ≠ []
  host_plain : ∀ c ∈ host, c ∉ ascii "/:?#"
  port_range : ∀ n ∈ port, 1 ≤ n ∧ n ≤ 65535
  path_rooted : path = [] ∨ path.head? = some 47
  path_plain : 63 ∉ path ∧ 35 ∉ path
  query_plain : 35 ∉ query.getD []
  zero_free : 0 ∉ host ++ path ++ query.getD [] ++ fragment.getD []

namespace Components

variable (components : Components)

def authority : Bytes :=
  components.host ++ optional 58 (components.port.map fun port : Nat => printInt port)

/-- `scheme://host[:port][path][?query][#fragment]` -/
def text : Bytes :=
  components.scheme ++ ascii "://" ++ (components.authority ++
    (components.path ++ optional 63 components.query ++ optional 35 components.fragment))

/-- Parsing succeeds and yields these components. -/
def RecoveredFrom (parsed : Bool × SimpleUri) : Prop :=
  parsed.1 = true ∧ parsed.2.scheme = components.scheme ∧ parsed.2.host = components.host ∧
    parsed.2.port =
      (components.port.map Int.ofNat).getD (WellKnownPorts.getPort components.scheme 0) ∧
    parsed.2.path = components.path ∧ parsed.2.query = components.query.getD [] ∧
    parsed.2.fragment = components.fragment.getD []

variable {components : Components}

theorem host_not_mem {c : UInt8} (separator : c ∈ ascii "/:?#") : c ∉ components.host :=
  fun member => components.host_plain c member separator

theorem authority_ne_nil : components.authority ≠ [] := by
  rw [authority, ne_eq, List.append_eq_nil_iff]
  exact fun both => components.host_nonempty both.1

/-- A character of the port is the colon or a digit. -/
theorem mem_optional_port {c : UInt8}
    (member : c ∈ optional 58 (components.port.map fun port : Nat => printInt port)) :
    c = 58 ∨ isDigit c := by
  cases port : components.port with
  | none => simp [port, optional] at member
  | some number =>
      rw [port, Option.map_some, optional, List.mem_cons] at member
      exact member.imp_right (isDigit_of_mem_printInt (Int.natCast_nonneg number))

theorem slash_not_mem_authority : 47 ∉ components.authority := by
  rw [authority, List.mem_append, not_or]
  refine ⟨host_not_mem (by decide), ?_⟩
  intro member
  exact absurd (mem_optional_port member) (by decide)

theorem zero_not_mem_text : 0 ∉ components.text := by
  have clean := components.zero_free
  simp only [List.mem_append, not_or] at clean
  have letters : 0 ∉ components.scheme := fun member =>
    absurd (components.scheme_alpha 0 member) (by decide)
  have digits : 0 ∉ optional 58 (components.port.map fun port : Nat => printInt port) :=
    fun member => absurd (mem_optional_port member) (by decide)
  have query : 0 ∉ optional 63 components.query := by
    cases query : components.query with
    | none => exact List.not_mem_nil
    | some query' => simpa [query, optional] using clean.1.2
  have fragment : 0 ∉ optional 35 components.fragment := by
    cases fragment : components.fragment with
    | none => exact List.not_mem_nil
    | some fragment' => simpa [fragment, optional] using clean.2
  simp only [text, authority, List.mem_append, not_or]
  exact ⟨⟨letters, by decide⟩, ⟨clean.1.1.1, digits⟩, ⟨clean.1.1.2, query⟩, fragment⟩

/-- The uri whose scheme is parsed. -/
def schemed (components : Components) : SimpleUri :=
  { clear with originalString := components.text, scheme := components.scheme }

theorem parse_text : parse components.text =
    components.schemed.parseWithScheme components.text
      (components.scheme ++ ascii "://").length :=
  parse_of_scheme components.scheme_alpha zero_not_mem_text

/-- The host and the port are parsed up to the first slash. -/
theorem parseHostAndPort_authority (uri : SimpleUri) (schemed : uri.scheme = components.scheme)
    (front rest : Bytes) :
    uri.parseHostAndPort (front ++ (components.authority ++ rest)) front.length
        (front.length + components.authority.length) =
      (true, { uri with
        host := components.host
        port := (components.port.map Int.ofNat).getD
          (WellKnownPorts.getPort components.scheme 0) }) := by
  have colon : 58 ∉ components.host := host_not_mem (by decide)
  cases port : components.port with
  | none =>
      rw [authority, port, Option.map_none, optional, List.append_nil]
      rw [parseHostAndPort_host uri front colon rest, schemed,
        if_neg components.scheme_nonempty]
      rfl
  | some port' =>
      obtain ⟨low, high⟩ := components.port_range port' port
      have clean : 0 ∉ printInt (port' : Int) := fun member =>
        absurd (isDigit_of_mem_printInt (Int.natCast_nonneg port') member) (by decide)
      have reads : scanInt (cStr (printInt port')) = some (port' : Int) := by
        rw [cStr_of_no_zero clean]
        exact scanInt_printInt (by omega) (by omega)
      have found := parseHostAndPort_port uri front colon (printInt port') rest
      rw [reads] at found
      rw [authority, port, Option.map_some, optional, List.append_assoc, List.cons_append,
        List.length_append, List.length_cons, Nat.add_comm (printInt (port' : Int)).length 1,
        ← Nat.add_assoc components.host.length]
      exact found

/-- What is parsed when the path begins with a slash. -/
theorem parse_text_of_path {rest : Bytes} (path : components.path = 47 :: rest) :
    parse components.text = ({ components.schemed with
        host := components.host
        port := (components.port.map Int.ofNat).getD
          (WellKnownPorts.getPort components.scheme 0) } : SimpleUri).parsePath
      (components.path ++ optional 63 components.query ++ optional 35 components.fragment)
      (some 0) := by
  have tail : components.path ++ optional 63 components.query ++ optional 35 components.fragment =
      47 :: (rest ++ optional 63 components.query ++ optional 35 components.fragment) := by
    rw [path]
    rfl
  rw [parse_text, text, tail, parseWithScheme_slash _ _ slash_not_mem_authority authority_ne_nil,
    parseHostAndPort_authority _ rfl]
  rfl

/-- **Components with a path are recovered** when no question mark stands in a fragment
without a query before it. -/
theorem recoveredFrom_of (path : components.path ≠ [])
    (mark : components.query.isSome ∨ 63 ∉ components.fragment.getD []) :
    components.RecoveredFrom (parse components.text) := by
  have rooted : components.path.head? = some 47 := components.path_rooted.resolve_left path
  obtain ⟨rest, begins⟩ := List.head?_eq_some_iff.mp rooted
  have noQuery : components.query = none →
      35 ∉ components.path ∧ 63 ∉ components.fragment.getD [] := by
    intro none
    refine ⟨components.path_plain.2, mark.resolve_left ?_⟩
    rw [none]
    exact Bool.false_ne_true
  rw [parse_text_of_path begins,
    parsePath_parts _ components.path_plain.1 components.query_plain noQuery]
  refine ⟨rfl, withPath_scheme .., withPath_host .., withPath_port .., rfl, ?_, ?_⟩
  · exact withPath_query ..
  · exact withPath_fragment ..

/-- The path that is parsed begins where it is looked for. -/
theorem parsePath_path_ne_nil (uri : SimpleUri) (rest : Bytes) :
    (uri.parsePath (47 :: rest) (some 0)).2.path ≠ [] := by
  obtain ⟨path, query, fragment, split, pathPlain, queryPlain, noQuery⟩ :=
    exists_parts (47 :: rest)
  rw [split, parsePath_parts uri pathPlain queryPlain noQuery, withPath_path]
  rintro rfl
  cases query with
  | none =>
      cases fragment with
      | none => exact absurd split (List.cons_ne_nil _ _)
      | some fragment => exact absurd (List.cons.inj split).1 (by decide)
  | some query => exact absurd (List.cons.inj split).1 (by decide)

/-- Without a path in the address its host is not parsed, or a path is. -/
theorem path_ne_nil_of_recoveredFrom
    (recovered : components.RecoveredFrom (parse components.text)) : components.path ≠ [] := by
  intro empty
  obtain ⟨succeeds, -, host, -, path, -, -⟩ := recovered
  rw [parse_text, text] at succeeds host path
  generalize tail : components.authority ++ (components.path ++ optional 63 components.query ++
    optional 35 components.fragment) = rest at succeeds host path
  by_cases slash : 47 ∈ rest
  · obtain ⟨authority, after, rfl, plain⟩ := List.eq_append_cons_of_mem slash
    have nonempty : authority ≠ [] := by
      rintro rfl
      obtain ⟨first, more, begins⟩ := List.exists_cons_of_ne_nil components.host_nonempty
      rw [Components.authority, begins] at tail
      have same : first = 47 := (List.cons.inj tail).1
      have slashed : 47 ∈ components.host := by
        rw [begins, same]
        exact List.mem_cons_self
      exact host_not_mem (by decide) slashed
    rw [parseWithScheme_slash _ _ plain nonempty] at succeeds path
    simp only at succeeds path
    split at path
    · rw [empty] at path
      exact parsePath_path_ne_nil _ _ path
    · next failed =>
        rw [if_neg failed] at succeeds
        exact failed succeeds
  · rw [parseWithScheme_no_slash _ _ slash] at host
    exact components.host_nonempty host.symm

/-- A question mark in a fragment without a query before it ends the path. -/
theorem mark_of_recoveredFrom (nonempty : components.path ≠ [])
    (recovered : components.RecoveredFrom (parse components.text)) :
    components.query.isSome ∨ 63 ∉ components.fragment.getD [] := by
  have rooted := components.path_rooted.resolve_left nonempty
  obtain ⟨rest, begins⟩ := List.head?_eq_some_iff.mp rooted
  by_contra wrong
  rw [not_or, Bool.not_eq_true, Option.isSome_eq_false_iff, Option.isNone_iff_eq_none,
    not_not] at wrong
  obtain ⟨noQuery, mark⟩ := wrong
  cases fragment : components.fragment with
  | none =>
      rw [fragment] at mark
      exact absurd mark List.not_mem_nil
  | some text =>
      rw [fragment, Option.getD_some] at mark
      obtain ⟨before, after, same, plain⟩ := List.eq_append_cons_of_mem mark
      obtain ⟨query, fragment', rest, queryPlain⟩ := exists_optional 35 after
      have pathPlain : 63 ∉ components.path ++ 35 :: before := by
        rw [List.mem_append, List.mem_cons, not_or, not_or]
        exact ⟨components.path_plain.1, by decide, plain⟩
      have tail : components.path ++ optional 63 components.query ++
          optional 35 components.fragment =
          (components.path ++ 35 :: before) ++ optional 63 (some query) ++
            optional 35 fragment' := by
        rw [noQuery, fragment]
        simp only [same, rest, optional, List.append_nil, List.append_assoc, List.cons_append]
      have path := recovered.2.2.2.2.1
      rw [parse_text_of_path begins, tail, parsePath_query _ pathPlain queryPlain,
        withPath_path] at path
      exact absurd (List.append_right_eq_self.mp path) (List.cons_ne_nil _ _)

/-- **The components of an address are recovered exactly when it has a path, and no
question mark stands in a fragment without a query before it.** -/
theorem parse_recovers_iff (components : Components) :
    components.RecoveredFrom (parse components.text) ↔
      components.path ≠ [] ∧
        (components.query.isSome ∨ 63 ∉ components.fragment.getD []) := by
  constructor
  · intro recovered
    have path := path_ne_nil_of_recoveredFrom recovered
    exact ⟨path, mark_of_recoveredFrom path recovered⟩
  · rintro ⟨path, mark⟩
    exact recoveredFrom_of path mark

/-- An address without a path: its host is not parsed. -/
def hostOnly : Components where
  scheme := ascii "http"
  host := ascii "h"
  port := none
  path := []
  query := none
  fragment := none
  scheme_nonempty := by decide
  scheme_alpha := by decide +kernel
  host_nonempty := by decide
  host_plain := by decide +kernel
  port_range := nofun
  path_rooted := Or.inl rfl
  path_plain := by decide
  query_plain := by decide
  zero_free := by decide

theorem hostOnly_not_recovered : hostOnly.text = ascii "http://h" ∧
    ¬ hostOnly.RecoveredFrom (parse hostOnly.text) := by
  refine ⟨by decide, ?_⟩
  intro recovered
  have host : (parse hostOnly.text).2.host = [] := by decide +kernel
  exact absurd (host.symm.trans recovered.2.2.1) (by decide)

end Components

end SimpleUri

end Xul
