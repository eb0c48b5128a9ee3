import Xul.Foundation.SortedMap
import Xul.Std.Splitting
import Mathlib.Data.List.Lex

/-!
# Configuration files of the log service

`properties_log_configurator::configure` goes through the lines of a file and keeps what they say of
filters, loggers and the service, which is set up from that behind the loop.

Lines are read into a buffer, so that a longer one is read in pieces.  What can be read in one order
can be read in every other (`exists_linesOf`).
-/

set_option autoImplicit false

namespace Xul

open Foundation

namespace PropertiesLogConfigurator

/-! ## Reading -/

/-- The pieces that `fgets` reads into a buffer of 4096 characters, up to and with the ends of
lines, behind what it has read of a line. -/
def readPieces : Bytes → Bytes → List Bytes
  | line, [] => if line = [] then [] else [line]
  | line, c :: rest =>
      if c = 10 ∨ line.length + 1 = 4095 then (line ++ [c]) :: readPieces [] rest
      else readPieces (line ++ [c]) rest

/-- What `read_line` yields, which is a C string. -/
def readLines (contents : Bytes) : List Bytes := (readPieces [] contents).map cStr

/-! ## What the lines say -/

abbrev StringDict := SortedMap Bytes Bytes

/-- The variables of `configure`, and the levels that the service was set to. -/
structure Configuration where
  filtersProps : SortedMap Bytes StringDict
  filtersNames : List Bytes
  loggersLevels : StringDict
  serviceLevels : List Int

namespace Configuration

def empty : Configuration := ⟨SortedMap.empty, [], SortedMap.empty, []⟩

/-- `filters_props[name]` -/
def props (config : Configuration) (name : Bytes) : StringDict :=
  (config.filtersProps.find name).getD SortedMap.empty

def setProps (name : Bytes) (props : StringDict) (config : Configuration) : Configuration :=
  { config with filtersProps := config.filtersProps.set name props }

/-- `filters_props[name][parameter] = value` -/
def setProp (name parameter value : Bytes) (config : Configuration) : Configuration :=
  config.setProps name ((config.props name).set parameter value)

end Configuration

def logLevels : List (Bytes × Int) :=
  [(ascii "FATAL", 50000), (ascii "ERROR", 40000), (ascii "EVENT", 35000), (ascii "WARN", 30000),
    (ascii "INFO", 20000), (ascii "DEBUG", 10000)]

/-- `log_levels::try_parse` -/
def tryParseLevel (s : Bytes) : Option Int := logLevels.lookup s

/-- The names that a line with the key `filters` lists. -/
def listedNames (value : Bytes) : List Bytes := (split value 44).map trimSpaces

def addFilters (value : Bytes) (config : Configuration) : Configuration :=
  let names := config.filtersNames.map trimSpaces ++ listedNames value
  names.foldl (fun config name => config.setProp name [] name) { config with filtersNames := names }

def configureFilter (value : Bytes) (config : Configuration) : List Bytes → Configuration
  | [] => config
  | name :: parameters =>
      if name = [] then config
      else
        match parameters with
        | [] => config.setProp name [] value
        | [parameter] =>
            if parameter ≠ [] then config.setProp name parameter value
            else config.setProps name (config.props name)
        | _ => config.setProps name (config.props name)

def configureLogger (value : Bytes) (config : Configuration) : List Bytes → Configuration
  | [] => config
  | name :: _ =>
      if name = [] then config
      else { config with loggersLevels := config.loggersLevels.set name value }

def configureService (value : Bytes) (config : Configuration) (keys : List Bytes) :
    Configuration :=
  if keys = [ascii "level"] then
    match tryParseLevel value with
    | some level => { config with serviceLevels := config.serviceLevels ++ [level] }
    | none => config
  else config

/-- What a line with these keys does. -/
def configureKeys (config : Configuration) (entry : List Bytes × Bytes) : Configuration :=
  match entry.1 with
  | [] => config
  | first :: keys =>
      if first = ascii "filters" then if keys = [] then addFilters entry.2 config else config
      else if first = ascii "filter" then configureFilter entry.2 config keys
      else if first = ascii "logger" then configureLogger entry.2 config keys
      else if first = ascii "service" then configureService entry.2 config keys
      else config

/-- The keys of a line and its value, unless it has no key. -/
def entryOf (line : Bytes) : Option (List Bytes × Bytes) :=
  let keyValue := splitPair line 61
  if keyValue.1 = [] then none
  else
    let keys := splitChar keyValue.1 46 6
    if keys = [] then none else some (keys.map trimSpaces, keyValue.2)

/-- The body of the loop. -/
def configureLine (config : Configuration) (line : Bytes) : Configuration :=
  match entryOf (trimSpaces line) with
  | none => config
  | some entry => configureKeys config entry

/-! ## Setting the service up -/

inductive FilterType
  | console
  | asio
  | file
  deriving DecidableEq

def filterType (name : Bytes) : Option FilterType :=
  if name = ascii "console" then some .console
  else if name = ascii "asio" then some .asio
  else if name = ascii "file" then some .file
  else none

/-- What the service is told: its levels, the loggers with the levels that they are set to, if any,
and the filters with their parameters. -/
structure Outcome where
  serviceLevels : List Int
  loggers : List (Bytes × Option Int)
  filters : List (FilterType × List (Bytes × Bytes))

/-- The filter that is added for a name. -/
def addedFilter (config : Configuration) (name : Bytes) :
    Option (FilterType × List (Bytes × Bytes)) :=
  (filterType (((config.props name).find []).getD [])).map fun type =>
    (type, (config.props name).entries.filter fun entry => entry.1 ≠ [])

def finish (config : Configuration) : Outcome where
  serviceLevels := config.serviceLevels
  loggers := config.loggersLevels.entries.map fun entry => (entry.1, tryParseLevel entry.2)
  filters := config.filtersNames.filterMap (addedFilter config)

/-- `configure`, of a file that can be opened. -/
def configure (contents : Bytes) : Outcome :=
  finish (((readLines contents).take 2000).foldl configureLine Configuration.empty)

/-! ## Lines that are read -/

/-- The lines of a file, as they are read and trimmed. -/
def linesOf (contents : Bytes) : List Bytes := (readLines contents).map trimSpaces

/-- The keys and values of a file. -/
def entriesOf (contents : Bytes) : List (List Bytes × Bytes) :=
  (linesOf contents).filterMap entryOf

theorem configure_eq {contents : Bytes} (few : (linesOf contents).length ≤ 2000) :
    configure contents = finish ((entriesOf contents).foldl configureKeys Configuration.empty) := by
  rw [linesOf, List.length_map] at few
  rw [configure, List.take_of_length_le few, entriesOf, linesOf, List.foldl_filterMap,
    List.foldl_map]
  congr 1
  refine List.foldl_ext _ _ _ fun config line _ => ?_
  rw [configureLine]
  cases entryOf (trimSpaces line) with
  | none => rfl
  | some entry => rfl

/-- What is read at once: no end of a line is inside, and one is behind it unless the buffer is
full. -/
def IsPiece (piece : Bytes) : Prop :=
  ∃ word c, piece = word ++ [c] ∧ 10 ∉ word ∧ word.length < 4095 ∧
    (c = 10 ∨ word.length + 1 = 4095)

theorem readPieces_append {word line : Bytes} (plain : 10 ∉ word)
    (fits : line.length + word.length < 4095) (rest : Bytes) :
    readPieces line (word ++ rest) = readPieces (line ++ word) rest := by
  induction word generalizing line with
  | nil => rw [List.nil_append, List.append_nil]
  | cons c word ih =>
      obtain ⟨first, others⟩ := not_or.mp (mt List.mem_cons.mpr plain)
      rw [List.length_cons] at fits
      have goesOn : ¬ (c = 10 ∨ line.length + 1 = 4095) := by
        rintro (isEnd | full)
        · exact first isEnd.symm
        · omega
      rw [List.cons_append, readPieces, if_neg goesOn, ih others (by simp; omega),
        List.append_assoc, List.singleton_append]

theorem readPieces_pieces {pieces : List Bytes} (all : ∀ piece ∈ pieces, IsPiece piece) :
    readPieces [] pieces.flatten = pieces := by
  induction pieces with
  | nil => rfl
  | cons piece pieces ih =>
      obtain ⟨⟨word, c, rfl, plain, fits, ends⟩, others⟩ := List.forall_mem_cons.mp all
      rw [List.flatten_cons, List.append_assoc,
        readPieces_append plain (by rw [List.length_nil]; omega), List.nil_append,
        List.singleton_append, readPieces, if_pos ends, ih others]

/-- A line as it is read. -/
structure Readable (line : Bytes) : Prop where
  noZero : 0 ∉ line
  inside : 10 ∉ line.dropLast
  fits : line.length ≤ 4095

theorem readable_of_piece {word : Bytes} {c : UInt8} (plain : 10 ∉ word)
    (fits : word.length < 4095) : Readable (cStr (word ++ [c])) := by
  have front : cStr (word ++ [c]) <+: word ++ [c] := List.takeWhile_prefix _
  refine ⟨zero_not_mem_cStr _, ?_, ?_⟩
  · have before : (cStr (word ++ [c])).dropLast <+: word := by
      obtain whole | shorter := List.prefix_concat_iff.mp front
      · rw [whole, List.dropLast_concat]
      · exact (List.dropLast_prefix _).trans shorter
    exact fun inside => plain (before.subset inside)
  · have short := front.length_le
    rw [List.length_append, List.length_singleton] at short
    omega

theorem readable_of_readPieces {line rest piece : Bytes} (plain : 10 ∉ line)
    (fits : line.length < 4095) (member : piece ∈ readPieces line rest) :
    Readable (cStr piece) := by
  induction rest generalizing line with
  | nil =>
      rw [readPieces] at member
      split at member
      · cases member
      · next nonempty =>
          obtain rfl := List.mem_singleton.mp member
          obtain ⟨word, c, rfl⟩ := (List.eq_nil_or_concat' _).resolve_left nonempty
          rw [List.length_append, List.length_singleton] at fits
          exact readable_of_piece (fun inside => plain (List.mem_append_left _ inside)) (by omega)
  | cons c rest ih =>
      rw [readPieces] at member
      split at member
      · obtain rfl | later := List.mem_cons.mp member
        · exact readable_of_piece plain fits
        · exact ih List.not_mem_nil (by rw [List.length_nil]; omega) later
      · next goesOn =>
          obtain ⟨noEnd, notFull⟩ := not_or.mp goesOn
          refine ih ?_ ?_ member
          · intro inside
            obtain before | isLast := List.mem_append.mp inside
            · exact plain before
            · exact noEnd (List.mem_singleton.mp isLast).symm
          · rw [List.length_append, List.length_singleton]
            omega

theorem readable_of_readLines {contents line : Bytes} (member : line ∈ readLines contents) :
    Readable line := by
  obtain ⟨piece, isPiece, rfl⟩ := List.mem_map.mp member
  exact readable_of_readPieces List.not_mem_nil (by rw [List.length_nil]; omega) isPiece

/-- A line with an end, unless it fills the buffer. -/
def endedLine (line : Bytes) : Bytes :=
  if 10 ∈ line ∨ line.length = 4095 then line else line ++ [10]

theorem isPiece_endedLine {line : Bytes} (readable : Readable line) :
    IsPiece (endedLine line) := by
  have fits := readable.fits
  rw [endedLine]
  split
  · next ended =>
      have nonempty : line ≠ [] := by
        rintro rfl
        rcases ended with inside | full
        · cases inside
        · cases full
      obtain ⟨word, c, rfl⟩ := (List.eq_nil_or_concat' _).resolve_left nonempty
      have plain := readable.inside
      rw [List.dropLast_concat] at plain
      rw [List.length_append, List.length_singleton] at fits ended
      refine ⟨word, c, rfl, plain, by omega, ended.imp_left ?_⟩
      intro inside
      exact (List.mem_singleton.mp ((List.mem_append.mp inside).resolve_left plain)).symm
  · next unended =>
      obtain ⟨plain, short⟩ := not_or.mp unended
      exact ⟨line, 10, rfl, plain, by omega, .inl rfl⟩

theorem cStr_endedLine {line : Bytes} (readable : Readable line) :
    cStr (endedLine line) = endedLine line := by
  refine cStr_of_no_zero ?_
  rw [endedLine]
  split
  · exact readable.noZero
  · simp [readable.noZero]

theorem trimSpaces_endedLine (line : Bytes) : trimSpaces (endedLine line) = trimSpaces line := by
  rw [endedLine]
  split
  · rfl
  · rw [trimSpaces, trimSpaces, trimWhere, trimWhere, List.dropWhile_append]
    split
    · next blank =>
        rw [List.isEmpty_iff.mp blank]
        decide +kernel
    · rw [List.rdropWhile_concat_pos _ _ _ (by decide +kernel)]

/-- Lines that are read can be read in any order. -/
theorem exists_linesOf {lines : List Bytes} (all : ∀ line ∈ lines, Readable line) :
    ∃ contents, linesOf contents = lines.map trimSpaces := by
  refine ⟨(lines.map endedLine).flatten, ?_⟩
  have pieces : ∀ piece ∈ lines.map endedLine, IsPiece piece := by
    rintro _ member
    obtain ⟨line, inside, rfl⟩ := List.mem_map.mp member
    exact isPiece_endedLine (all line inside)
  rw [linesOf, readLines, readPieces_pieces pieces, List.map_map, List.map_map]
  refine List.map_congr_left ?_
  intro line inside
  rw [Function.comp_apply, Function.comp_apply, cStr_endedLine (all line inside),
    trimSpaces_endedLine]

end PropertiesLogConfigurator

end Xul
