import Xul.Net.UriComponents
import Xul.Net.UrlEncoding

/-!
# Addresses in normal form

Encoding an address writes it again from what was parsed: the parameters with their values
percent-encoded, the fragment, and the port unless it is the one that is left out.  Parsing
and encoding what was written changes nothing (`normalize_normalize`), as long as the
scheme is there with the host, the port that is left out is the one that is put in, and no
separator stands where parsing would take it for another.
-/

set_option autoImplicit false

namespace Xul

open Foundation

/-! ## Percent coding -/

namespace UrlEncoding

/-- Characters that have a meaning in an address or a request line. -/
def reserved : Bytes := ascii "&=?#\r\n\t " ++ [0]

theorem not_reserved_of_mem_encode {s : Bytes} {c : UInt8} (member : c ∈ encode s) :
    c ∉ reserved := by
  have apart : ∀ ch, isUnreserved ch = true ∨ ch = 37 ∨ (digitValue 16 ch).isSome = true →
      ch ∉ reserved := @forall_byte (fun ch => isUnreserved ch = true ∨ ch = 37 ∨
        (digitValue 16 ch).isSome = true → ch ∉ reserved) (by decide +kernel)
  rw [← encodeIn_true] at member
  exact apart c ((encodeIn_escaped true s).mem member)

/-- **What is encoded is decoded again.** -/
theorem decode_encode {s : Bytes} (clean : 0 ∉ s) : decode (encode s) = s := by
  rw [← encodeIn_true, decode_encodeIn, cStr_of_no_zero clean]

end UrlEncoding

/-! ## Parameters -/

/-- The parts of a text contain no delimiter, and nothing that is not in the text. -/
theorem mem_splitOfLoop {delimiter : UInt8} {splitedPartCount : Nat} {begun src : Bytes}
    (plain : delimiter ∉ begun) {part : Bytes}
    (member : part ∈ splitOfLoop [delimiter] 0 splitedPartCount begun src) :
    delimiter ∉ part ∧ ∀ c ∈ part, c ∈ begun ∨ c ∈ src := by
  induction src generalizing splitedPartCount begun with
  | nil =>
      obtain rfl : part = begun := List.mem_singleton.mp member
      exact ⟨plain, fun c inside => Or.inl inside⟩
  | cons c src ih =>
      rw [splitOfLoop, if_neg (by simp)] at member
      by_cases ends : c ∈ [delimiter]
      · rw [if_pos ends, List.mem_cons] at member
        rcases member with rfl | later
        · exact ⟨plain, fun c inside => Or.inl inside⟩
        · obtain ⟨clean, inside⟩ := ih List.not_mem_nil later
          refine ⟨clean, fun other present => Or.inr (List.mem_cons_of_mem c ?_)⟩
          exact (inside other present).resolve_left List.not_mem_nil
      · rw [if_neg ends] at member
        have more : delimiter ∉ begun ++ [c] := by
          rw [List.mem_append, not_or]
          exact ⟨plain, fun same => ends (by simpa using (List.mem_singleton.mp same).symm)⟩
        obtain ⟨clean, inside⟩ := ih more member
        refine ⟨clean, ?_⟩
        intro other present
        rcases inside other present with earlier | later
        · rcases List.mem_append.mp earlier with old | new
          · exact Or.inl old
          · exact Or.inr (List.mem_singleton.mp new ▸ List.mem_cons_self)
        · exact Or.inr (List.mem_cons_of_mem c later)

theorem mem_split {delimiter : UInt8} {src part : Bytes} (member : part ∈ split src delimiter) :
    delimiter ∉ part ∧ ∀ c ∈ part, c ∈ src := by
  rw [split] at member
  split at member
  · exact absurd member List.not_mem_nil
  · obtain ⟨clean, inside⟩ := mem_splitOfLoop List.not_mem_nil member
    exact ⟨clean, fun c present => (inside c present).resolve_left List.not_mem_nil⟩

/-- The names of parameters that are parsed and written again. -/
structure PlainKey (key : Bytes) : Prop where
  nonempty : key ≠ []
  plain : ∀ c ∈ key, c ∉ ascii "&=#" ++ [0]

/-- What stands before the equals sign of a part is a plain key. -/
theorem plainKey_of_part {src part : Bytes} (plain : 35 ∉ src) (clean : 0 ∉ src)
    (apart : 38 ∉ part) (inside : ∀ c ∈ part, c ∈ src) (nonempty : (splitPair part 61).1 ≠ []) :
    PlainKey (cStr (splitPair part 61).1) := by
  have within : ∀ c ∈ (splitPair part 61).1, c ∈ part := fun c member =>
    List.takeWhile_subset _ member
  have noZero : 0 ∉ (splitPair part 61).1 := fun member => clean (inside 0 (within 0 member))
  rw [cStr_of_no_zero noZero]
  refine ⟨nonempty, ?_⟩
  intro c member separator
  have which : c = 38 ∨ c = 61 ∨ c = 35 ∨ c = 0 := by simpa [ascii] using separator
  rcases which with rfl | rfl | rfl | rfl
  · exact apart (within _ member)
  · exact absurd (@List.mem_takeWhile_imp _ (fun c => decide (c ≠ 61)) part 61 member)
      (by decide)
  · exact plain (inside _ (within _ member))
  · exact noZero member

/-- A dictionary is parsed into plain keys, from a text without a number sign. -/
theorem plainKey_of_mem_parseDict {src : Bytes} (plain : 35 ∉ src) (clean : 0 ∉ src)
    {dict : UriParams} (plainKeys : ∀ entry ∈ dict.items, PlainKey entry.key) :
    ∀ entry ∈ (parseDict dict src 38 61).items, PlainKey entry.key := by
  have parts : ∀ part ∈ split src 38, 38 ∉ part ∧ ∀ c ∈ part, c ∈ src := fun part member =>
    mem_split member
  rw [parseDict]
  generalize split src 38 = remaining at parts ⊢
  induction remaining generalizing dict with
  | nil => exact plainKeys
  | cons part remaining ih =>
      rw [List.forall_mem_cons] at parts
      rw [List.foldl_cons]
      refine ih ?_ parts.2
      simp only
      split
      · exact plainKeys
      · next nonempty =>
          intro entry member
          rcases AssociativeStringArray.mem_setItems member with old | ⟨new, -⟩
          · obtain ⟨same, present, equal⟩ := List.mem_map.mp old
            exact equal ▸ plainKeys same present
          · rw [new]
            exact plainKey_of_part plain clean parts.1.1 parts.1.2 nonempty

/-- Pairs as they stand in a query. -/
def pairText (entry : StringPairEntry) : Bytes := entry.key ++ ascii "=" ++ entry.value

def joinPairs (entries : List StringPairEntry) : Bytes :=
  ((entries.map pairText).intersperse (ascii "&")).flatten

theorem joinPairs_cons_cons (entry next : StringPairEntry) (entries : List StringPairEntry) :
    joinPairs (entry :: next :: entries) =
      pairText entry ++ 38 :: joinPairs (next :: entries) := by
  rw [joinPairs, List.map_cons, List.map_cons, List.intersperse_cons_cons, List.flatten_cons,
    List.flatten_cons]
  rfl

/-- A pair that is parsed as it is written. -/
structure PlainPair (entry : StringPairEntry) : Prop where
  key : PlainKey entry.key
  value : ∀ c ∈ entry.value, c ∉ ascii "&#" ++ [0]

theorem PlainPair.ampersand_not_mem {entry : StringPairEntry} (plain : PlainPair entry) :
    38 ∉ pairText entry := by
  simp only [pairText, List.mem_append, not_or]
  refine ⟨⟨?_, by decide⟩, ?_⟩
  · intro member
    exact plain.key.plain 38 member (by decide)
  · intro member
    exact plain.value 38 member (by decide)

theorem pairText_ne_nil (entry : StringPairEntry) : pairText entry ≠ [] := by
  simp [pairText, ascii]

theorem joinPairs_ne_nil (entry : StringPairEntry) (entries : List StringPairEntry) :
    joinPairs (entry :: entries) ≠ [] := by
  cases entries with
  | nil =>
      have same : joinPairs [entry] = pairText entry := List.append_nil _
      rw [same]
      exact pairText_ne_nil entry
  | cons next entries => simp [joinPairs_cons_cons]

/-- Pairs without the delimiter are parted where they are joined. -/
theorem splitOfLoop_joinPairs {entries : List StringPairEntry}
    (plain : ∀ entry ∈ entries, PlainPair entry) (nonempty : entries ≠ [])
    (splitedPartCount : Nat) :
    splitOfLoop [38] 0 splitedPartCount [] (joinPairs entries) = entries.map pairText := by
  induction entries generalizing splitedPartCount with
  | nil => exact absurd rfl nonempty
  | cons entry entries ih =>
      rw [List.forall_mem_cons] at plain
      have apart : ∀ c ∈ pairText entry, c ∉ [38] := fun c member same =>
        plain.1.ampersand_not_mem (List.mem_singleton.mp same ▸ member)
      cases entries with
      | nil =>
          have same : joinPairs [entry] = pairText entry ++ [] := rfl
          rw [same, splitOfLoop_append apart (by simp)]
          rfl
      | cons next entries =>
          rw [joinPairs_cons_cons, splitOfLoop_word apart (by simp) (by simp),
            ih plain.2 (List.cons_ne_nil _ _)]
          rfl

/-- A pair is cut at its equals sign. -/
theorem splitPair_pairText {entry : StringPairEntry} (plain : PlainPair entry) :
    splitPair (pairText entry) 61 = (entry.key, entry.value) := by
  have equals : 61 ∉ entry.key := fun member => plain.key.plain 61 member (by decide)
  have text : pairText entry = entry.key ++ 61 :: entry.value := by
    rw [pairText, List.append_assoc]
    rfl
  rw [text, splitPair_append_cons equals]

/-- **Pairs that are joined are parsed as they were**, when their names are distinct. -/
theorem parseDict_joinPairs {table : UriParams}
    (plain : ∀ entry ∈ table.items, PlainPair entry) :
    parseDict (.empty _) (joinPairs table.items) 38 61 = table := by
  have parts : split (joinPairs table.items) 38 = table.items.map pairText := by
    cases items : table.items with
    | nil => rfl
    | cons entry entries =>
        rw [items] at plain
        rw [split, if_neg (joinPairs_ne_nil entry entries),
          splitOfLoop_joinPairs plain (List.cons_ne_nil _ _)]
  have fold : ∀ (entries : List StringPairEntry) (dict : UriParams),
      (∀ entry ∈ entries, PlainPair entry) →
        (entries.map pairText).foldl (fun dict part =>
          let keyVal := splitPair part 61
          if keyVal.1 = [] then dict else dict.set (cStr keyVal.1) (cStr keyVal.2)) dict =
        entries.foldl (fun dict entry => dict.set entry.key entry.value) dict := by
    intro entries
    induction entries with
    | nil => exact fun _ _ => rfl
    | cons entry entries ih =>
        intro dict plain
        rw [List.forall_mem_cons] at plain
        have key : 0 ∉ entry.key := fun member => plain.1.key.plain 0 member (by decide)
        have value : 0 ∉ entry.value := fun member => plain.1.value 0 member (by decide)
        rw [List.map_cons, List.foldl_cons, List.foldl_cons, ih _ plain.2]
        simp only [splitPair_pairText plain.1, if_neg plain.1.key.nonempty, cStr_of_no_zero key,
          cStr_of_no_zero value]
  apply AssociativeStringArray.items_injective
  rw [parseDict, parts, fold _ _ plain]
  exact AssociativeStringArray.items_foldl_set table.distinct

/-! ## The text of an address -/

namespace SimpleUri

/-- A part that is written when it is not empty. -/
def given (text : Bytes) : Option Bytes := if text = [] then none else some text

@[simp] theorem given_getD (text : Bytes) : (given text).getD [] = text := by
  rw [given]
  split
  · next empty => exact empty.symm
  · rfl

theorem given_eq_none_iff {text : Bytes} : given text = none ↔ text = [] := by
  simp [given]

/-- What is written before the path. -/
def authorityText (uri : SimpleUri) : Bytes :=
  if uri.host = [] then []
  else
    (if uri.scheme = [] then [] else uri.scheme ++ ascii "://") ++ uri.host ++
      (if 0 < uri.port ∧ ¬ (uri.scheme = ascii "http" ∧ uri.port = 80) then
        ascii ":" ++ printInt uri.port
       else [])

theorem assemble_eq (uri : SimpleUri) :
    uri.assemble = uri.authorityText ++ (uri.path ++ optional 63 (given uri.query) ++
      optional 35 (given uri.fragment)) := by
  have query : (if uri.query = [] then [] else ascii "?" ++ uri.query) =
      optional 63 (given uri.query) := by
    rw [given]
    split
    · rfl
    · rfl
  have fragment : (if uri.fragment = [] then [] else ascii "#" ++ uri.fragment) =
      optional 35 (given uri.fragment) := by
    rw [given]
    split
    · rfl
    · rfl
  rw [assemble, query, fragment]
  simp only [authorityText, List.append_assoc]

/-- The parameters with their values encoded. -/
def encodedParams (uri : SimpleUri) : UriParams :=
  uri.params.mapValues fun value => cStr (UrlEncoding.encode value)

/-- **The normal form of an address is written from its parts.** -/
theorem encode_originalString (uri : SimpleUri) :
    uri.encode.originalString = uri.authorityText ++ (uri.path ++
      optional 63 (given (joinPairs uri.encodedParams.items)) ++
        optional 35 (given uri.fragment)) := assemble_eq _

/-- A uri as parsing its path leaves it: its keys are plain, and decoded values have no
zero byte. -/
structure PlainParams (uri : SimpleUri) : Prop where
  key : ∀ entry ∈ uri.params.items, PlainKey entry.key
  value : ∀ entry ∈ uri.params.items, 0 ∉ entry.value

theorem plainPair_of_mem_encodedParams {uri : SimpleUri} (plain : uri.PlainParams) :
    ∀ entry ∈ uri.encodedParams.items, PlainPair entry := by
  intro encoded member
  obtain ⟨entry, present, rfl⟩ := List.mem_map.mp member
  refine ⟨plain.key entry present, ?_⟩
  intro c inside separator
  have encodedChar : c ∈ UrlEncoding.encode entry.value := List.takeWhile_subset _ inside
  have reserved : c ∈ UrlEncoding.reserved := by
    have which : c = 38 ∨ c = 35 ∨ c = 0 := by simpa [ascii] using separator
    rcases which with rfl | rfl | rfl
    · decide
    · decide
    · decide
  exact UrlEncoding.not_reserved_of_mem_encode encodedChar reserved

/-- Values that are encoded are decoded again. -/
theorem mapValues_decode_encodedParams {uri : SimpleUri} (plain : uri.PlainParams) :
    (uri.encodedParams.mapValues fun value => cStr (UrlEncoding.decode value)) = uri.params := by
  apply AssociativeStringArray.mapValues_mapValues_of_inverse
  intro entry present
  have clean := plain.value entry present
  have noZero : 0 ∉ UrlEncoding.encode entry.value := fun member =>
    UrlEncoding.not_reserved_of_mem_encode member (by decide)
  rw [cStr_of_no_zero noZero, UrlEncoding.decode_encode clean, cStr_of_no_zero clean]

/-- A uri whose path is not parsed yet. -/
structure Pathless (uri : SimpleUri) : Prop where
  query : uri.query = []
  fragment : uri.fragment = []
  params : uri.params = .empty _

theorem Pathless.plainParams_withPath {uri : SimpleUri} (pathless : uri.Pathless) {path : Bytes}
    {query : Option Bytes} (plain : 35 ∉ query.getD []) (clean : 0 ∉ query.getD [])
    (fragment : Option Bytes) : (uri.withPath path query fragment).PlainParams := by
  cases query with
  | none =>
      have params : (uri.withPath path none fragment).params = .empty _ := pathless.params
      constructor
      · intro entry member
        rw [params] at member
        exact absurd member List.not_mem_nil
      · intro entry member
        rw [params] at member
        exact absurd member List.not_mem_nil
  | some query =>
      have none : ∀ entry ∈ uri.params.items, PlainKey entry.key := by
        intro entry member
        rw [pathless.params] at member
        exact absurd member List.not_mem_nil
      constructor
      · intro entry member
        obtain ⟨parsed, present, rfl⟩ := List.mem_map.mp member
        exact plainKey_of_mem_parseDict plain clean none parsed present
      · intro entry member
        obtain ⟨parsed, present, rfl⟩ := List.mem_map.mp member
        exact zero_not_mem_cStr _

/-- The parts of an address in normal form, without what stands before the path. -/
def pathText (uri : SimpleUri) : Bytes :=
  uri.path ++ optional 63 (given (joinPairs uri.encodedParams.items)) ++
    optional 35 (given uri.fragment)

/-- What holds of the characters of names, values and separators holds of joined pairs. -/
theorem forall_mem_joinPairs {p : UInt8 → Prop} {entries : List StringPairEntry}
    (separators : p 38 ∧ p 61) (key : ∀ entry ∈ entries, ∀ c ∈ entry.key, p c)
    (value : ∀ entry ∈ entries, ∀ c ∈ entry.value, p c) : ∀ c ∈ joinPairs entries, p c := by
  have pair : ∀ {entry : StringPairEntry}, (∀ c ∈ entry.key, p c) →
      (∀ c ∈ entry.value, p c) → ∀ c ∈ pairText entry, p c := by
    intro entry key value c member
    simp only [pairText, List.mem_append] at member
    rcases member with (inKey | equals) | inValue
    · exact key c inKey
    · obtain rfl : c = 61 := List.mem_singleton.mp equals
      exact separators.2
    · exact value c inValue
  induction entries with
  | nil => exact fun c member => absurd member List.not_mem_nil
  | cons entry entries ih =>
      rw [List.forall_mem_cons] at key value
      cases entries with
      | nil =>
          have same : joinPairs [entry] = pairText entry := List.append_nil _
          rw [same]
          exact pair key.1 value.1
      | cons next entries =>
          intro c member
          rw [joinPairs_cons_cons, List.mem_append, List.mem_cons] at member
          rcases member with here | rfl | later
          · exact pair key.1 value.1 c here
          · exact separators.1
          · exact ih key.2 value.2 c later

/-- What is written of plain pairs contains neither a number sign nor a zero byte. -/
theorem plain_joinPairs {entries : List StringPairEntry}
    (plain : ∀ entry ∈ entries, PlainPair entry) :
    ∀ c ∈ joinPairs entries, c ≠ 35 ∧ c ≠ 0 := by
  refine @forall_mem_joinPairs (fun c => c ≠ 35 ∧ c ≠ 0) _ (by decide) ?_ ?_
  · intro entry present c member
    have apart := (plain entry present).key.plain c member
    exact ⟨fun same => apart (by rw [same]; decide), fun same => apart (by rw [same]; decide)⟩
  · intro entry present c member
    have apart := (plain entry present).value c member
    exact ⟨fun same => apart (by rw [same]; decide), fun same => apart (by rw [same]; decide)⟩

theorem pathText_congr {uri other : SimpleUri} (path : uri.path = other.path)
    (params : uri.params = other.params) (fragment : uri.fragment = other.fragment) :
    uri.pathText = other.pathText := by
  rw [pathText, pathText, encodedParams, encodedParams, path, params, fragment]

/-- **The path of a normal form is parsed into its parts**, unless a separator stands where
parsing would take it for another. -/
theorem Pathless.parsePath_pathText_eq {base uri : SimpleUri} (pathless : base.Pathless)
    (pathPlain : 63 ∉ uri.path) (plain : uri.PlainParams)
    (noParams : uri.params.items = [] → 35 ∉ uri.path ∧ 63 ∉ uri.fragment) :
    ∃ parsed, base.parsePath uri.pathText (some 0) = (true, parsed) ∧
      parsed.scheme = base.scheme ∧ parsed.host = base.host ∧ parsed.port = base.port ∧
      parsed.path = uri.path ∧ parsed.params = uri.params ∧ parsed.fragment = uri.fragment := by
  have pairs := plainPair_of_mem_encodedParams plain
  have queryPlain : 35 ∉ joinPairs uri.encodedParams.items := fun member =>
    (plain_joinPairs pairs 35 member).1 rfl
  have empty : given (joinPairs uri.encodedParams.items) = none → uri.params.items = [] := by
    intro none
    cases items : uri.params.items with
    | nil => rfl
    | cons entry entries =>
        rw [given_eq_none_iff, encodedParams, AssociativeStringArray.mapValues] at none
        simp only [items, List.map_cons] at none
        exact absurd none (joinPairs_ne_nil _ _)
  have params : (base.withPath uri.path (given (joinPairs uri.encodedParams.items))
      (given uri.fragment)).params = uri.params := by
    cases query : given (joinPairs uri.encodedParams.items) with
    | none =>
        apply AssociativeStringArray.items_injective
        rw [empty query]
        exact congrArg AssociativeStringArray.items pathless.params
    | some text =>
        have same : text = joinPairs uri.encodedParams.items := by
          have back := given_getD (joinPairs uri.encodedParams.items)
          rw [query] at back
          exact back
        have parsed : parseDict base.params text 38 61 = uri.encodedParams := by
          rw [pathless.params, same]
          exact parseDict_joinPairs pairs
        have set : (base.withPath uri.path (some text) (given uri.fragment)).params =
          (parseDict base.params text 38 61).mapValues fun value =>
            cStr (UrlEncoding.decode value) := rfl
        rw [set, parsed, mapValues_decode_encodedParams plain]
  refine ⟨_, parsePath_parts base pathPlain (by rwa [given_getD]) ?_, withPath_scheme ..,
    withPath_host .., withPath_port .., withPath_path .., params, ?_⟩
  · intro none
    rw [given_getD]
    exact noParams (empty none)
  · rw [withPath_fragment, pathless.fragment, given_getD]

/-! ## Addresses that are accepted -/

/-- An address that begins with a scheme. -/
def HasScheme (s : Bytes) : Prop :=
  ∃ scheme rest, (∀ c ∈ scheme, isAlpha c = true) ∧ s = scheme ++ ascii "://" ++ rest

theorem parse_cStr (url : Bytes) : parse (cStr url) = parse url := by
  rw [parse, parse, cStr_of_no_zero (zero_not_mem_cStr url)]

/-- An address without a scheme is all path. -/
theorem parse_of_not_hasScheme {s : Bytes} (clean : 0 ∉ s) (none : ¬ HasScheme s) :
    parse s = ({ clear with originalString := s } : SimpleUri).parsePath s (some 0) := by
  simp only [parse, cStr_of_no_zero clean]
  cases found : search s (ascii "://") with
  | none => rfl
  | some pos =>
      obtain ⟨rest, stands⟩ := (firstOccurrence_eq_some_iff.mp found).1
      have letters : ¬ (s.take pos).all isAlpha = true := by
        intro alpha
        refine none ⟨s.take pos, rest, List.all_eq_true.mp alpha, ?_⟩
        rw [List.append_assoc, stands, List.take_append_drop]
      exact if_neg letters

/-- A text has a scheme only if the path that begins it has one. -/
theorem HasScheme.of_append {path tail : Bytes} (scheme : HasScheme (path ++ tail))
    (separator : ∀ c ∈ tail.head?, c = 63 ∨ c = 35) : HasScheme path := by
  obtain ⟨scheme, rest, alpha, same⟩ := scheme
  rcases List.append_eq_append_iff.mp same with ⟨more, front, split⟩ | ⟨more, front, -⟩
  · cases more with
    | nil =>
        rw [List.append_nil] at front
        exact ⟨scheme, [], alpha, by rw [List.append_nil, front]⟩
    | cons c more =>
        have inside : c ∈ scheme ++ ascii "://" := by
          rw [front]
          exact List.mem_append_right path List.mem_cons_self
        have which := separator c (by rw [split]; rfl)
        exfalso
        rcases List.mem_append.mp inside with letter | colon
        · have := alpha c letter
          rcases which with rfl | rfl
          · exact absurd this (by decide)
          · exact absurd this (by decide)
        · rcases which with rfl | rfl
          · exact absurd colon (by decide)
          · exact absurd colon (by decide)
  · exact ⟨scheme, more, alpha, front⟩

/-- What parsing leaves of an address that it accepts. -/
structure Accepted (uri : SimpleUri) : Prop where
  params : uri.PlainParams
  path_plain : 63 ∉ uri.path
  zero_free : 0 ∉ uri.host ++ uri.path ++ uri.fragment
  no_scheme : uri.host = [] → ¬ HasScheme uri.path
  host_plain : 47 ∉ uri.host ∧ 58 ∉ uri.host
  scheme_alpha : ∀ c ∈ uri.scheme, isAlpha c = true
  rooted : uri.host ≠ [] → uri.path.head? = some 47
  port_int : uri.port < 2 ^ 31

theorem not_hasScheme_slash (rest : Bytes) : ¬ HasScheme (47 :: rest) := by
  rintro ⟨scheme, after, alpha, same⟩
  cases scheme with
  | nil => exact absurd (List.cons.inj same).1 (by decide)
  | cons c scheme =>
      have letter := alpha c List.mem_cons_self
      rw [← (List.cons.inj same).1] at letter
      exact absurd letter (by decide)

theorem HasScheme.append {s : Bytes} (scheme : HasScheme s) (more : Bytes) :
    HasScheme (s ++ more) := by
  obtain ⟨scheme, rest, alpha, rfl⟩ := scheme
  exact ⟨scheme, rest ++ more, alpha, by rw [List.append_assoc]⟩

/-- Parsing a path keeps what was parsed before, and adds parts that are plain. -/
theorem Pathless.accepted_parsePath {base : SimpleUri} (pathless : base.Pathless) {s : Bytes}
    (clean : 0 ∉ base.host ++ s) (noScheme : base.host = [] → ¬ HasScheme s)
    (hostPlain : 47 ∉ base.host ∧ 58 ∉ base.host)
    (alpha : ∀ c ∈ base.scheme, isAlpha c = true)
    (rooted : base.host ≠ [] → s.head? = some 47) (int : base.port < 2 ^ 31) :
    (base.parsePath s (some 0)).2.Accepted := by
  obtain ⟨path, query, fragment, rfl, pathPlain, queryPlain, noQuery⟩ := exists_parts s
  rw [parsePath_parts base pathPlain queryPlain noQuery]
  simp only [List.mem_append, not_or] at clean
  have queryClean : 0 ∉ query.getD [] := by
    cases query with
    | none => exact List.not_mem_nil
    | some query => exact fun member => clean.2.1.2 (List.mem_cons_of_mem 63 member)
  have fragmentClean : 0 ∉ fragment.getD [] := by
    cases fragment with
    | none => exact List.not_mem_nil
    | some fragment => exact fun member => clean.2.2 (List.mem_cons_of_mem 35 member)
  refine ⟨pathless.plainParams_withPath queryPlain queryClean fragment, pathPlain, ?_, ?_, ?_, ?_,
    ?_, ?_⟩
  · rw [withPath_host, withPath_path, withPath_fragment, pathless.fragment]
    simp only [List.mem_append, not_or]
    exact ⟨⟨clean.1, clean.2.1.1⟩, fragmentClean⟩
  · rw [withPath_host, withPath_path]
    intro empty scheme
    rw [List.append_assoc] at noScheme
    exact noScheme empty (scheme.append _)
  · rw [withPath_host]
    exact hostPlain
  · rw [withPath_scheme]
    exact alpha
  · rw [withPath_host, withPath_path]
    intro host
    have begins := rooted host
    cases path with
    | nil =>
        cases query with
        | none =>
            cases fragment with
            | none => exact begins
            | some fragment => simp [optional] at begins
        | some query => simp [optional] at begins
    | cons c path => exact begins
  · rw [withPath_port]
    exact int

theorem getPort_lt (scheme : Bytes) : WellKnownPorts.getPort scheme 0 < 2 ^ 31 := by
  rw [WellKnownPorts.getPort]
  cases found : WellKnownPorts.portTable.find? fun row => ascii row.1 == scheme with
  | none => decide
  | some row =>
      have all : ∀ row ∈ WellKnownPorts.portTable, row.2 < 2 ^ 31 := by decide
      exact all row (List.mem_of_find?_eq_some found)

/-- What is accepted behind a scheme, when a slash follows. -/
theorem Pathless.accepted_parseWithScheme {base : SimpleUri} (pathless : base.Pathless)
    (alpha : ∀ c ∈ base.scheme, isAlpha c = true) (noHost : base.host = [])
    (port : base.port = 0) (front : Bytes) {authority tail : Bytes} (plain : 47 ∉ authority)
    (clean : 0 ∉ authority ++ 47 :: tail)
    (succeeds : (base.parseWithScheme (front ++ (authority ++ 47 :: tail)) front.length).1 =
      true) :
    (base.parseWithScheme (front ++ (authority ++ 47 :: tail)) front.length).2.Accepted := by
  rw [List.mem_append, not_or] at clean
  by_cases empty : authority = []
  · subst empty
    rw [List.nil_append, parseWithScheme_slash_nil]
    refine pathless.accepted_parsePath ?_ (fun _ => not_hasScheme_slash tail) ?_ alpha
      (fun _ => rfl) (by rw [port]; decide)
    · rw [noHost]
      exact clean.2
    · rw [noHost]
      exact ⟨List.not_mem_nil, List.not_mem_nil⟩
  · obtain ⟨host, digits, rfl, hostPlain⟩ := exists_optional 58 authority
    rw [List.mem_append, not_or] at plain
    simp only [List.mem_append, not_or] at clean
    have accepted : ∀ port : Int, port < 2 ^ 31 →
        (({ base with host, port } : SimpleUri).parsePath (47 :: tail) (some 0)).2.Accepted := by
      intro port int
      refine @Pathless.accepted_parsePath { base with host, port }
        ⟨pathless.query, pathless.fragment, pathless.params⟩ _ ?_
        (fun _ => not_hasScheme_slash tail) ⟨plain.1, hostPlain⟩ alpha (fun _ => rfl) int
      rw [List.mem_append, not_or]
      exact ⟨clean.1.1, clean.2⟩
    rw [parseWithScheme_slash base front (by rw [List.mem_append, not_or]; exact plain) empty]
      at succeeds ⊢
    cases digits with
    | none =>
        simp only [optional, List.append_nil] at succeeds ⊢
        rw [parseHostAndPort_host base front hostPlain]
        apply accepted
        split
        · rw [port]
          decide
        · exact getPort_lt base.scheme
    | some digits =>
        have text : (host ++ optional 58 (some digits)) ++ 47 :: tail =
            host ++ 58 :: (digits ++ 47 :: tail) := by
          simp only [optional, List.append_assoc, List.cons_append]
        have length : (host ++ optional 58 (some digits)).length =
            host.length + 1 + digits.length := by
          simp only [optional, List.length_append, List.length_cons]
          omega
        rw [text, length, parseHostAndPort_port base front hostPlain] at succeeds ⊢
        cases scanned : scanInt (cStr digits) with
        | none =>
            rw [scanned] at succeeds
            exact absurd succeeds Bool.false_ne_true
        | some port => exact accepted port (scanInt_lt scanned)

/-- **What is accepted has these properties.** -/
theorem accepted_of_parse {url : Bytes} (succeeds : (parse url).1 = true) :
    (parse url).2.Accepted := by
  have clean := zero_not_mem_cStr url
  rw [← parse_cStr] at succeeds ⊢
  generalize cStr url = s at clean succeeds ⊢
  by_cases hasScheme : HasScheme s
  · obtain ⟨scheme, rest, alpha, rfl⟩ := hasScheme
    rw [parse_of_scheme alpha clean] at succeeds ⊢
    rw [List.mem_append, not_or] at clean
    by_cases slash : 47 ∈ rest
    · obtain ⟨authority, tail, rfl, plain⟩ := List.eq_append_cons_of_mem slash
      exact Pathless.accepted_parseWithScheme ⟨rfl, rfl, rfl⟩ alpha rfl rfl _ plain clean.2 succeeds
    · rw [parseWithScheme_no_slash _ _ slash]
      refine ⟨⟨nofun, nofun⟩, List.not_mem_nil, List.not_mem_nil, ?_,
        ⟨List.not_mem_nil, List.not_mem_nil⟩, alpha, fun nonempty => absurd rfl nonempty,
        show (0 : Int) < 2 ^ 31 by decide⟩
      intro _
      rintro ⟨scheme, rest, -, same⟩
      have lengths := congrArg List.length same
      simp [clear, ascii] at lengths
  · rw [parse_of_not_hasScheme clean hasScheme]
    exact Pathless.accepted_parsePath ⟨rfl, rfl, rfl⟩ clean (fun _ => hasScheme)
      ⟨List.not_mem_nil, List.not_mem_nil⟩ (fun c member => absurd member List.not_mem_nil)
      (fun nonempty => absurd rfl nonempty) (show (0 : Int) < 2 ^ 31 by decide)

/-! ## The normal form of a normal form -/

/-- The port as it is written. -/
def portText (scheme : Bytes) (port : Int) : Option Bytes :=
  if 0 < port ∧ ¬ (scheme = ascii "http" ∧ port = 80) then some (printInt port) else none

/-- Parsing takes nothing of the normal form for something else: a host has its scheme, a
port that is not written is not put in, and without parameters no separator is left that
would be read before. -/
structure Stable (uri : SimpleUri) : Prop where
  scheme : uri.host ≠ [] → uri.scheme ≠ []
  port : uri.host ≠ [] → 0 < uri.port ∨ portText uri.scheme (WellKnownPorts.getPort uri.scheme 0) = none
  separators : uri.params.items = [] → 35 ∉ uri.path ∧ 63 ∉ uri.fragment

theorem authorityText_of_host {uri : SimpleUri} (host : uri.host ≠ []) (scheme : uri.scheme ≠ []) :
    uri.authorityText = uri.scheme ++ ascii "://" ++
      (uri.host ++ optional 58 (portText uri.scheme uri.port)) := by
  rw [authorityText, if_neg host, if_neg scheme, portText, List.append_assoc]
  split
  · rfl
  · rfl

theorem mem_portText {scheme : Bytes} {port : Int} :
    ∀ c ∈ optional 58 (portText scheme port), c = 58 ∨ isDigit c = true := by
  intro c member
  rw [portText] at member
  split at member
  · next written =>
      exact (List.mem_cons.mp member).imp_right (isDigit_of_mem_printInt written.1.le)
  · exact absurd member List.not_mem_nil

/-- The port that is parsed of what is written of one. -/
def readPort (scheme : Bytes) (port : Int) : Int :=
  if 0 < port ∧ ¬ (scheme = ascii "http" ∧ port = 80) then port
  else WellKnownPorts.getPort scheme 0

theorem Accepted.parseHostAndPort_portText {uri base : SimpleUri} (accepted : uri.Accepted)
    (schemed : uri.scheme ≠ []) (same : base.scheme = uri.scheme) (front rest : Bytes) :
    base.parseHostAndPort
        (front ++ (uri.host ++ optional 58 (portText uri.scheme uri.port) ++ rest)) front.length
        (front.length + (uri.host ++ optional 58 (portText uri.scheme uri.port)).length) =
      (true, { base with host := uri.host, port := readPort uri.scheme uri.port }) := by
  have scheme : base.scheme ≠ [] := same ▸ schemed
  rw [portText, readPort]
  split
  · next shown =>
      have clean : 0 ∉ printInt uri.port := fun member =>
        absurd (isDigit_of_mem_printInt shown.1.le member) (by decide)
      have parsed := parseHostAndPort_port base front accepted.host_plain.2
        (printInt uri.port) rest
      rw [cStr_of_no_zero clean, scanInt_printInt shown.1.le accepted.port_int] at parsed
      have text : uri.host ++ optional 58 (some (printInt uri.port)) ++ rest =
          uri.host ++ 58 :: (printInt uri.port ++ rest) := by
        simp only [optional, List.append_assoc, List.cons_append]
      have length : (uri.host ++ optional 58 (some (printInt uri.port))).length =
          uri.host.length + 1 + (printInt uri.port).length := by
        simp only [optional, List.length_append, List.length_cons]
        omega
      rw [text, length, parsed]
  · have parsed := parseHostAndPort_host base front accepted.host_plain.2 rest
    rw [if_neg scheme] at parsed
    rw [optional, List.append_nil, parsed, same]

/-- The port that is parsed of a normal form is written in the same way. -/
theorem portText_readPort {uri : SimpleUri} (stable : uri.Stable) (host : uri.host ≠ []) :
    portText uri.scheme (readPort uri.scheme uri.port) = portText uri.scheme uri.port := by
  by_cases shown : 0 < uri.port ∧ ¬ (uri.scheme = ascii "http" ∧ uri.port = 80)
  · rw [readPort, if_pos shown]
  · have unwritten : portText uri.scheme uri.port = none := if_neg shown
    rw [readPort, if_neg shown, unwritten]
    rcases stable.port host with positive | none
    · have elided : uri.scheme = ascii "http" ∧ uri.port = 80 := by
        by_contra differs
        exact shown ⟨positive, differs⟩
      rw [elided.1]
      decide
    · exact none

theorem Accepted.zero_not_mem_pathText {uri : SimpleUri} (accepted : uri.Accepted) :
    0 ∉ uri.pathText := by
  have clean := accepted.zero_free
  have pairs := plain_joinPairs (plainPair_of_mem_encodedParams accepted.params)
  simp only [List.mem_append, not_or] at clean
  simp only [pathText, List.mem_append, not_or]
  refine ⟨⟨clean.1.2, ?_⟩, ?_⟩
  · intro member
    rw [given] at member
    split at member
    · exact absurd member List.not_mem_nil
    · rcases List.mem_cons.mp member with mark | inside
      · exact absurd mark (by decide)
      · exact (pairs 0 inside).2 rfl
  · intro member
    rw [given] at member
    split at member
    · exact absurd member List.not_mem_nil
    · rcases List.mem_cons.mp member with number | inside
      · exact absurd number (by decide)
      · exact clean.2 inside

/-- A path without a scheme has none with its query and fragment. -/
theorem not_hasScheme_pathText {uri : SimpleUri} (noScheme : ¬ HasScheme uri.path) :
    ¬ HasScheme uri.pathText := by
  intro scheme
  rw [pathText, List.append_assoc] at scheme
  refine noScheme (scheme.of_append ?_)
  intro c first
  cases query : given (joinPairs uri.encodedParams.items) with
  | some query' =>
      rw [query] at first
      exact Or.inl (Option.some.inj first).symm
  | none =>
      rw [query] at first
      cases fragment : given uri.fragment with
      | some fragment' =>
          rw [fragment] at first
          exact Or.inr (Option.some.inj first).symm
      | none =>
          rw [fragment] at first
          cases first

theorem forall_mem_optional {p : UInt8 → Prop} {separator : UInt8} {text : Option Bytes}
    (separates : p separator) (inside : ∀ c ∈ text.getD [], p c) :
    ∀ c ∈ optional separator text, p c := by
  cases text with
  | none => exact fun c member => absurd member List.not_mem_nil
  | some text => exact List.forall_mem_cons.mpr ⟨separates, inside⟩

/-- What holds of the characters of its parts holds of a normal form. -/
theorem Accepted.forall_mem_originalString {uri : SimpleUri} (accepted : uri.Accepted)
    {p : UInt8 → Prop} (letter : ∀ c, isAlpha c = true → p c)
    (digit : ∀ c, isDigit c = true → p c) (separators : ∀ c ∈ ascii ":/?#&=", p c)
    (host : ∀ c ∈ uri.host, p c) (path : ∀ c ∈ uri.path, p c)
    (key : ∀ entry ∈ uri.params.items, ∀ c ∈ entry.key, p c)
    (value : ∀ entry ∈ uri.params.items, ∀ c ∈ UrlEncoding.encode entry.value, p c)
    (fragment : ∀ c ∈ uri.fragment, p c) : ∀ c ∈ uri.encode.originalString, p c := by
  have scheme : ∀ c ∈ if uri.scheme = [] then [] else uri.scheme ++ ascii "://", p c := by
    split
    · exact fun c member => absurd member List.not_mem_nil
    · refine List.forall_mem_append.mpr ⟨fun c member => letter c (accepted.scheme_alpha c member),
        fun c member => separators c ?_⟩
      have which : c = 58 ∨ c = 47 := by simpa [ascii] using member
      rcases which with rfl | rfl
      · decide
      · decide
  have port : ∀ c ∈ if 0 < uri.port ∧ ¬ (uri.scheme = ascii "http" ∧ uri.port = 80) then
      ascii ":" ++ printInt uri.port else [], p c := by
    split
    · next shown =>
        refine List.forall_mem_append.mpr ⟨fun c member => separators c ?_,
          fun c member => digit c (isDigit_of_mem_printInt shown.1.le member)⟩
        obtain rfl : c = 58 := List.mem_singleton.mp member
        decide
    · exact fun c member => absurd member List.not_mem_nil
  have authority : ∀ c ∈ uri.authorityText, p c := by
    rw [authorityText]
    split
    · exact fun c member => absurd member List.not_mem_nil
    · exact List.forall_mem_append.mpr ⟨List.forall_mem_append.mpr ⟨scheme, host⟩, port⟩
  have query : ∀ c ∈ joinPairs uri.encodedParams.items, p c := by
    apply forall_mem_joinPairs ⟨separators 38 (by decide), separators 61 (by decide)⟩
    · intro encoded member
      obtain ⟨entry, present, rfl⟩ := List.mem_map.mp member
      exact key entry present
    · intro encoded member
      obtain ⟨entry, present, rfl⟩ := List.mem_map.mp member
      exact fun c inside => value entry present c (List.takeWhile_subset _ inside)
  rw [encode_originalString]
  refine List.forall_mem_append.mpr ⟨authority, List.forall_mem_append.mpr
    ⟨List.forall_mem_append.mpr ⟨path, ?_⟩, ?_⟩⟩
  · exact forall_mem_optional (separators 63 (by decide)) (by rwa [given_getD])
  · exact forall_mem_optional (separators 35 (by decide)) (by rwa [given_getD])

/-- A normal form without a host is parsed into what it is written from. -/
theorem Accepted.parse_of_no_host {uri : SimpleUri} (accepted : uri.Accepted)
    (stable : uri.Stable) (noHost : uri.host = []) :
    ∃ parsed, parse (uri.authorityText ++ uri.pathText) = (true, parsed) ∧
      parsed.authorityText = uri.authorityText ∧ parsed.pathText = uri.pathText := by
  have noAuthority : uri.authorityText = [] := by rw [authorityText, if_pos noHost]
  obtain ⟨parsed, outcome, -, host, -, path, params, fragment⟩ := @Pathless.parsePath_pathText_eq
    { clear with originalString := uri.pathText } uri ⟨rfl, rfl, rfl⟩ accepted.path_plain
    accepted.params stable.separators
  have empty : parsed.host = [] := host
  refine ⟨parsed, ?_, ?_, pathText_congr path params fragment⟩
  · rw [noAuthority, List.nil_append, parse_of_not_hasScheme accepted.zero_not_mem_pathText
      (not_hasScheme_pathText (accepted.no_scheme noHost)), outcome]
  · rw [noAuthority, authorityText, if_pos empty]

/-- What is parsed of a normal form with a host, up to its path. -/
theorem Accepted.parse_authorityText {uri : SimpleUri} (accepted : uri.Accepted)
    (host : uri.host ≠ []) (scheme : uri.scheme ≠ []) :
    parse (uri.authorityText ++ uri.pathText) =
      ({ clear with
          originalString := uri.authorityText ++ uri.pathText
          scheme := uri.scheme
          host := uri.host
          port := readPort uri.scheme uri.port } : SimpleUri).parsePath uri.pathText (some 0) := by
  obtain ⟨tail, begins⟩ := List.head?_eq_some_iff.mp (accepted.rooted host)
  obtain ⟨more, path⟩ : ∃ more, uri.pathText = 47 :: more := by
    rw [pathText, begins]
    exact ⟨_, rfl⟩
  have clean := accepted.zero_free
  simp only [List.mem_append, not_or] at clean
  have plain : 47 ∉ uri.host ++ optional 58 (portText uri.scheme uri.port) := by
    rw [List.mem_append, not_or]
    exact ⟨accepted.host_plain.1, fun member => absurd (mem_portText 47 member) (by decide)⟩
  have nonempty : uri.host ++ optional 58 (portText uri.scheme uri.port) ≠ [] := fun empty =>
    host (List.append_eq_nil_iff.mp empty).1
  have cleanText : 0 ∉ uri.scheme ++ ascii "://" ++
      (uri.host ++ optional 58 (portText uri.scheme uri.port) ++ uri.pathText) := by
    simp only [List.mem_append, not_or]
    refine ⟨⟨?_, by decide⟩, ⟨clean.1.1, ?_⟩, accepted.zero_not_mem_pathText⟩
    · intro member
      exact absurd (accepted.scheme_alpha 0 member) (by decide)
    · intro member
      exact absurd (mem_portText 0 member) (by decide)
  rw [authorityText_of_host host scheme, List.append_assoc (uri.scheme ++ ascii "://")]
  generalize text : uri.scheme ++ ascii "://" ++
    (uri.host ++ optional 58 (portText uri.scheme uri.port) ++ uri.pathText) = s at cleanText ⊢
  have hosted := @Accepted.parseHostAndPort_portText uri
    { clear with originalString := s, scheme := uri.scheme } accepted scheme rfl
    (uri.scheme ++ ascii "://") uri.pathText
  have start := parse_of_scheme accepted.scheme_alpha (text ▸ cleanText)
  have turn := parseWithScheme_slash
    { clear with originalString := s, scheme := uri.scheme } (uri.scheme ++ ascii "://")
    plain nonempty more
  rw [← path, hosted, text] at turn
  rw [text] at start
  rw [start, turn]
  rfl

/-- A normal form with a host is parsed into what it is written from. -/
theorem Accepted.parse_of_host {uri : SimpleUri} (accepted : uri.Accepted)
    (stable : uri.Stable) (host : uri.host ≠ []) :
    ∃ parsed, parse (uri.authorityText ++ uri.pathText) = (true, parsed) ∧
      parsed.authorityText = uri.authorityText ∧ parsed.pathText = uri.pathText := by
  have scheme := stable.scheme host
  obtain ⟨parsed, outcome, schemed, named, ported, path, params, fragment⟩ :=
    @Pathless.parsePath_pathText_eq
      { clear with
        originalString := uri.authorityText ++ uri.pathText
        scheme := uri.scheme
        host := uri.host
        port := readPort uri.scheme uri.port } uri
      ⟨rfl, rfl, rfl⟩ accepted.path_plain accepted.params stable.separators
  have schemed' : parsed.scheme = uri.scheme := schemed
  have named' : parsed.host = uri.host := named
  have ported' : parsed.port = readPort uri.scheme uri.port := ported
  refine ⟨parsed, (accepted.parse_authorityText host scheme).trans outcome, ?_,
    pathText_congr path params fragment⟩
  rw [authorityText_of_host (named'.symm ▸ host) (schemed'.symm ▸ scheme), schemed', named',
    ported', portText_readPort stable host, ← authorityText_of_host host scheme]

/-- **Parsing and encoding a normal form changes nothing.** -/
theorem Accepted.encode_parse_encode {uri : SimpleUri} (accepted : uri.Accepted)
    (stable : uri.Stable) :
    (parse uri.encode.originalString).1 = true ∧
      (parse uri.encode.originalString).2.encode.originalString = uri.encode.originalString := by
  have text : ∀ other : SimpleUri, other.encode.originalString =
      other.authorityText ++ other.pathText := fun other => encode_originalString other
  have parses : ∃ parsed, parse (uri.authorityText ++ uri.pathText) = (true, parsed) ∧
      parsed.authorityText = uri.authorityText ∧ parsed.pathText = uri.pathText := by
    by_cases host : uri.host = []
    · exact accepted.parse_of_no_host stable host
    · exact accepted.parse_of_host stable host
  obtain ⟨parsed, outcome, authority, path⟩ := parses
  rw [text uri, outcome]
  refine ⟨rfl, ?_⟩
  rw [text parsed, authority, path]

end SimpleUri

end Xul
