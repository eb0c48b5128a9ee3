import Xul.Net.UriNormalForm

/-!
# Changing the parameters of an address

Parameters are set and removed, and the address is encoded.  Parsing what was encoded gives
the host, the port, the path, the fragment and the parameters back when the scheme is there,
the port is one that is written or the one that is put in, and, where no parameter is left,
no question mark of the fragment is then taken for the beginning of the query
(`roundTrips_iff_recoverable`).
-/

set_option autoImplicit false

namespace Xul

open Foundation

/-- A change of the parameters. -/
inductive ParamCall where
  | setParam (name val : Bytes)
  | removeParam (name : Bytes)

/-- The name is one that can be written, and the value is one that a `const char*` shows. -/
def ParamCall.Plain : ParamCall → Prop
  | .setParam name val => PlainKey name ∧ 0 ∉ val
  | .removeParam name => PlainKey name

/-- A value of a table is one that was there, or the one that is set. -/
theorem AssociativeStringArray.value_of_mem_setItems {compare : Bytes → Bytes → Bool}
    {key value : Bytes} {entry : StringPairEntry} {items : List StringPairEntry}
    (member : entry ∈ setItems compare key value items) :
    entry.value ∈ items.map StringPairEntry.value ∨ entry.value = value := by
  induction items with
  | nil =>
      rw [setItems, List.mem_singleton] at member
      exact .inr (congrArg StringPairEntry.value member)
  | cons first rest ih =>
      rw [setItems] at member
      split at member
      · rcases List.mem_cons.mp member with rfl | later
        · exact .inr rfl
        · exact .inl (List.mem_cons_of_mem _ (List.mem_map_of_mem later))
      · rcases List.mem_cons.mp member with rfl | later
        · exact .inl List.mem_cons_self
        · exact (ih later).imp_left (List.mem_cons_of_mem _)

namespace SimpleUri

/-- What a call makes of the address. -/
def change (uri : SimpleUri) : ParamCall → SimpleUri
  | .setParam name val => uri.setParam name val
  | .removeParam name => uri.removeParam name

def changeAll (uri : SimpleUri) (calls : List ParamCall) : SimpleUri := calls.foldl change uri

/-! ## What changes keep -/

/-- A change of the parameters leaves an address that is accepted. -/
theorem Accepted.change {uri : SimpleUri} (accepted : uri.Accepted) {call : ParamCall}
    (plain : call.Plain) : (uri.change call).Accepted := by
  have params : (uri.change call).PlainParams := by
    cases call with
    | setParam name val =>
        constructor
        · intro entry member
          rcases AssociativeStringArray.mem_setItems member with old | ⟨new, -⟩
          · obtain ⟨same, present, equal⟩ := List.mem_map.mp old
            exact equal ▸ accepted.params.key same present
          · exact new ▸ plain.1
        · intro entry member
          rcases AssociativeStringArray.value_of_mem_setItems member with old | new
          · obtain ⟨same, present, equal⟩ := List.mem_map.mp old
            exact equal ▸ accepted.params.value same present
          · exact new ▸ plain.2
    | removeParam name =>
        have kept : ∀ entry ∈ (uri.removeParam name).params.items, entry ∈ uri.params.items :=
          fun entry member => (AssociativeStringArray.removeItems_sublist name _).mem member
        exact ⟨fun entry member => accepted.params.key entry (kept entry member),
          fun entry member => accepted.params.value entry (kept entry member)⟩
  cases call with
  | setParam name val =>
      exact ⟨params, accepted.path_plain, accepted.zero_free, accepted.no_scheme,
        accepted.host_plain, accepted.scheme_alpha, accepted.rooted, accepted.port_int⟩
  | removeParam name =>
      exact ⟨params, accepted.path_plain, accepted.zero_free, accepted.no_scheme,
        accepted.host_plain, accepted.scheme_alpha, accepted.rooted, accepted.port_int⟩

theorem change_host (uri : SimpleUri) (call : ParamCall) : (uri.change call).host = uri.host := by
  cases call with
  | setParam name val => rfl
  | removeParam name => rfl

/-- **Changes of the parameters leave an address that is accepted, with its host.** -/
theorem Accepted.changeAll {uri : SimpleUri} (accepted : uri.Accepted) {calls : List ParamCall}
    (plain : ∀ call ∈ calls, call.Plain) :
    (uri.changeAll calls).Accepted ∧ (uri.changeAll calls).host = uri.host := by
  induction calls generalizing uri with
  | nil => exact ⟨accepted, rfl⟩
  | cons call calls ih =>
      rw [List.forall_mem_cons] at plain
      obtain ⟨later, host⟩ := ih (accepted.change plain.1) plain.2
      exact ⟨later, host.trans (change_host uri call)⟩

/-! ## Parsing what was encoded -/

/-- What is parsed of the encoded address has the same parts, with the values that were
encoded. -/
structure RoundTrips (uri : SimpleUri) : Prop where
  succeeds : (parse uri.encode.originalString).1 = true
  host : (parse uri.encode.originalString).2.host = uri.host
  port : (parse uri.encode.originalString).2.port = uri.port
  path : (parse uri.encode.originalString).2.path = uri.path
  fragment : (parse uri.encode.originalString).2.fragment = uri.fragment
  params : (parse uri.encode.originalString).2.params = uri.params

/-- The scheme is there, the port is written or put in, and without parameters no separator
stands where it is read for another. -/
structure Recoverable (uri : SimpleUri) : Prop where
  scheme : uri.scheme ≠ []
  port : 0 < uri.port ∨ uri.port = WellKnownPorts.getPort uri.scheme 0
  separators : uri.params.items = [] → 35 ∉ uri.path ∧ 63 ∉ uri.fragment

theorem encode_originalString_eq (uri : SimpleUri) :
    uri.encode.originalString = uri.authorityText ++ uri.pathText := encode_originalString uri

/-- A port is read back that is written, or is the one that is put in. -/
theorem readPort_eq_iff {scheme : Bytes} {port : Int} :
    readPort scheme port = port ↔ 0 < port ∨ port = WellKnownPorts.getPort scheme 0 := by
  rw [readPort]
  split
  · next shown => exact iff_of_true rfl (.inl shown.1)
  · next unwritten =>
      constructor
      · exact fun same => .inr same.symm
      · rintro (positive | same)
        · have elided : scheme = ascii "http" ∧ port = 80 := by
            by_contra differs
            exact unwritten ⟨positive, differs⟩
          rw [elided.1, elided.2]
          decide
        · exact same.symm

/-- Two texts that go on with a colon or a slash are the same where neither has one. -/
theorem eq_of_separator {one other rest more : Bytes} {first second : UInt8}
    (plain : 47 ∉ one ∧ 58 ∉ one) (otherPlain : 47 ∉ other ∧ 58 ∉ other)
    (separates : first = 47 ∨ first = 58) (separatesToo : second = 47 ∨ second = 58)
    (same : one ++ first :: rest = other ++ second :: more) :
    one = other ∧ first :: rest = second :: more := by
  have cut : ∀ {text rest : Bytes} {separator : UInt8}, 47 ∉ text ∧ 58 ∉ text →
      separator = 47 ∨ separator = 58 →
        (text ++ separator :: rest).takeWhile (fun c => c ≠ 47 ∧ c ≠ 58) = text := by
    intro text rest separator plain separates
    have all : ∀ c ∈ text, decide (c ≠ 47 ∧ c ≠ 58) = true := by
      intro c member
      exact decide_eq_true ⟨fun slash => plain.1 (slash ▸ member),
        fun colon => plain.2 (colon ▸ member)⟩
    rw [List.takeWhile_append_of_pos all, List.takeWhile_cons_of_neg, List.append_nil]
    rcases separates with rfl | rfl
    · decide
    · decide
  have texts : one = other := by
    rw [← @cut one rest first plain separates, same, cut otherPlain separatesToo]
  subst texts
  exact ⟨rfl, List.append_cancel_left same⟩

/-- **Without a scheme an address with a host is read as a path.** -/
theorem Accepted.parse_of_no_scheme {uri : SimpleUri} (accepted : uri.Accepted)
    (host : uri.host ≠ []) (scheme : uri.scheme = []) :
    (parse uri.encode.originalString).2.host = [] := by
  have authority : uri.authorityText = uri.host ++ optional 58 (portText [] uri.port) := by
    rw [authorityText, if_neg host, if_pos scheme, scheme, portText]
    split
    · rfl
    · rfl
  obtain ⟨tail, begins⟩ := List.head?_eq_some_iff.mp (accepted.rooted host)
  obtain ⟨more, path⟩ : ∃ more, uri.pathText = 47 :: more := by
    rw [pathText, begins]
    exact ⟨_, rfl⟩
  have noScheme : ¬ HasScheme (uri.authorityText ++ uri.pathText) := by
    rintro ⟨scheme, rest, alpha, same⟩
    have plain : 47 ∉ scheme ∧ 58 ∉ scheme :=
      ⟨fun member => absurd (alpha 47 member) (by decide),
        fun member => absurd (alpha 58 member) (by decide)⟩
    have written : scheme ++ ascii "://" ++ rest = scheme ++ 58 :: (47 :: 47 :: rest) := by
      rw [List.append_assoc]
      rfl
    rw [authority, List.append_assoc, written, path] at same
    cases port : portText [] uri.port with
    | none =>
        rw [port] at same
        have apart := (eq_of_separator accepted.host_plain plain (.inl rfl) (.inr rfl) same).2
        exact absurd (List.cons.inj apart).1 (by decide)
    | some digits =>
        rw [port] at same
        have after := (eq_of_separator accepted.host_plain plain (.inr rfl) (.inr rfl) same).2
        rw [portText] at port
        split at port
        · next shown =>
            cases port
            have digits := (List.cons.inj after).2
            cases printed : printInt uri.port with
            | nil =>
                rw [printInt, if_neg (not_lt.mpr shown.1.le)] at printed
                exact absurd printed (printNat_ne_nil 10 _)
            | cons digit others =>
                have isDigit := isDigit_of_mem_printInt shown.1.le
                  (printed ▸ List.mem_cons_self : digit ∈ printInt uri.port)
                rw [printed] at digits
                rw [(List.cons.inj digits).1] at isDigit
                exact absurd isDigit (by decide)
        · cases port
  have clean : 0 ∉ uri.authorityText ++ uri.pathText := by
    have parts := accepted.zero_free
    simp only [List.mem_append, not_or] at parts
    rw [authority, List.mem_append, List.mem_append, not_or, not_or]
    exact ⟨⟨parts.1.1, fun member => absurd (mem_portText 0 member) (by decide)⟩,
      accepted.zero_not_mem_pathText⟩
  rw [encode_originalString_eq, parse_of_not_hasScheme clean noScheme]
  exact (parsePath_host_port _ _ _).1

theorem optional_injective {separator : UInt8} {text other : Option Bytes}
    (same : optional separator text = optional separator other) : text = other := by
  cases text with
  | none =>
      cases other with
      | none => rfl
      | some other => cases same
  | some text =>
      cases other with
      | none => cases same
      | some other => rw [(List.cons.inj same).2]

/-- A path with the separator of another part in it, or in the fragment, is not read back. -/
theorem path_ne_of_separator (base : SimpleUri) {uri : SimpleUri}
    (none : uri.params.items = []) (separator : 35 ∈ uri.path ∨ 63 ∈ uri.fragment) :
    (base.parsePath uri.pathText (some 0)).2.path ≠ uri.path := by
  have text : uri.pathText = uri.path ++ optional 35 (given uri.fragment) := by
    have pairs : joinPairs uri.encodedParams.items = [] := by
      rw [encodedParams, AssociativeStringArray.mapValues]
      simp only [none, List.map_nil]
      rfl
    rw [pathText, pairs]
    exact congrArg (· ++ _) (List.append_nil uri.path)
  obtain ⟨path, query, fragment, parts, pathPlain, queryPlain, noQuery⟩ := exists_parts uri.pathText
  rw [parts, parsePath_parts base pathPlain queryPlain noQuery, withPath_path]
  rintro rfl
  rw [text, List.append_assoc, List.append_cancel_left_eq] at parts
  cases query with
  | some query =>
      cases written : given uri.fragment with
      | none =>
          rw [written] at parts
          cases parts
      | some text =>
          rw [written] at parts
          exact absurd (List.cons.inj parts).1 (by decide)
  | none =>
      have same : fragment.getD [] = uri.fragment := by
        rw [← optional_injective (parts : optional 35 (given uri.fragment) = optional 35 fragment),
          given_getD]
      obtain ⟨noNumber, noMark⟩ := noQuery rfl
      rw [same] at noMark
      exact separator.elim noNumber noMark

/-- **What is encoded of an address with a host is parsed into the same parts exactly when the
address is recoverable.** -/
theorem Accepted.roundTrips_iff_of_host {uri : SimpleUri} (accepted : uri.Accepted)
    (host : uri.host ≠ []) : uri.RoundTrips ↔ uri.Recoverable := by
  by_cases scheme : uri.scheme = []
  · refine iff_of_false ?_ (fun recoverable => recoverable.scheme scheme)
    intro trips
    exact host (trips.host.symm.trans (accepted.parse_of_no_scheme host scheme))
  · have parsed := accepted.parse_authorityText host scheme
    rw [← encode_originalString_eq] at parsed
    constructor
    · intro trips
      have port := trips.port
      rw [parsed, (parsePath_host_port _ _ _).2] at port
      refine ⟨scheme, readPort_eq_iff.mp port, ?_⟩
      intro none
      by_contra separator
      rw [not_and_or, not_not, not_not] at separator
      have path := trips.path
      rw [parsed] at path
      exact path_ne_of_separator _ none separator path
    · intro recoverable
      obtain ⟨same, outcome, -, named, ported, path, params, fragment⟩ :=
        @Pathless.parsePath_pathText_eq
          { clear with
            originalString := uri.encode.originalString
            scheme := uri.scheme
            host := uri.host
            port := readPort uri.scheme uri.port } uri
          ⟨rfl, rfl, rfl⟩ accepted.path_plain accepted.params recoverable.separators
      have whole := parsed.trans outcome
      have port : same.port = uri.port := ported.trans (readPort_eq_iff.mpr recoverable.port)
      exact ⟨by rw [whole], by rw [whole]; exact named, by rw [whole]; exact port,
        by rw [whole]; exact path, by rw [whole]; exact fragment, by rw [whole]; exact params⟩

/-- **Changing the parameters, encoding and parsing**: of an address with a host the parts
come back exactly when it is recoverable. -/
theorem roundTrips_iff_recoverable {url : Bytes} {calls : List ParamCall}
    (succeeds : (parse url).1 = true) (host : (parse url).2.host ≠ [])
    (plain : ∀ call ∈ calls, call.Plain) :
    ((parse url).2.changeAll calls).RoundTrips ↔ ((parse url).2.changeAll calls).Recoverable := by
  obtain ⟨accepted, same⟩ := (accepted_of_parse succeeds).changeAll plain
  exact accepted.roundTrips_iff_of_host (same ▸ host)

/-- A parameter is set in the place of another, with a value that has a separator. -/
theorem roundTrips_of_two_calls :
    ((parse (ascii "http://h/p?a=1#f?g")).2.changeAll
      [.removeParam (ascii "a"), .setParam (ascii "b") (ascii "x&y")]).RoundTrips := by
  have keys : PlainKey (ascii "a") ∧ PlainKey (ascii "b") := by
    refine ⟨⟨by decide +kernel, ?_⟩, ⟨by decide +kernel, ?_⟩⟩
    · decide +kernel
    · decide +kernel
  have plain : ∀ call ∈ [ParamCall.removeParam (ascii "a"), .setParam (ascii "b") (ascii "x&y")],
      call.Plain := by
    refine List.forall_mem_cons.mpr ⟨keys.1, List.forall_mem_singleton.mpr ⟨keys.2, ?_⟩⟩
    decide +kernel
  exact (roundTrips_iff_recoverable (by decide +kernel) (by decide +kernel) plain).mpr
    ⟨by decide +kernel, by decide +kernel, by decide +kernel⟩

/-- The last parameter is removed in front of a fragment with a question mark, and a port of
zero is left out. -/
theorem last_param_and_port_zero_lost :
    ((parse (ascii "http://h/p?a=1#f?g")).2.host = ascii "h" ∧
        ((parse (ascii "http://h/p?a=1#f?g")).2.changeAll
          [.removeParam (ascii "a")]).encode.originalString = ascii "http://h/p#f?g" ∧
        (parse (ascii "http://h/p#f?g")).2.path = ascii "/p#f" ∧
        ¬ ((parse (ascii "http://h/p?a=1#f?g")).2.changeAll
          [.removeParam (ascii "a")]).RoundTrips) ∧
      ((parse (ascii "http://h:0/p")).2.port = 0 ∧
        ¬ ((parse (ascii "http://h:0/p")).2.changeAll []).RoundTrips) := by
  refine ⟨⟨by decide +kernel, by decide +kernel, by decide +kernel, ?_⟩, ⟨by decide +kernel, ?_⟩⟩
  · intro trips
    exact absurd trips.path (by decide +kernel)
  · intro trips
    exact absurd trips.port (by decide +kernel)

end SimpleUri

end Xul
