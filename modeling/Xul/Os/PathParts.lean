import Xul.Foundation.ScanDown
import Xul.Os.Paths

/-!
# The parts of a POSIX path

`split_filename` and `split_extension` scan a path from its end, with a position in an `int`; the
accessors read the directory, the filename, the basename and the extension off what they find, and
the mutators put one of these parts in another's place.

A scan that begins inside a path of up to 2 GiB, and behind every character that stops it, finds
the parts that a path has (`Scanned`).  The directory is cut off without its separator, and only
one: a path whose filename stands behind two of them is not joined again, and one with three fails
an assertion (`splitsFilename_iff`).  `replace_basename` writes a dot in front of an extension
that has one (`replaces_iff`).
-/

set_option autoImplicit false

namespace Xul

namespace Paths

open Foundation

def extensionSeparator : UInt8 := 46

def isSeparator (c : UInt8) : Bool := c == separator

/-! ## The accessors -/

/-- `path.size() - 1`, where the scans begin. -/
def lastPosition (path : Bytes) : Int := toInt (path.length - 1)

/-- `split_filename`.  A scan from a negative position reads outside the path. -/
def splitFilename (path : Bytes) : Option (Bytes × Bytes) :=
  if path = [] then some ([], [])
  else if lastPosition path < 0 then none
  else
    match scanDown isSeparator path (lastPosition path).toNat with
    | some pos =>
        if pos = 0 then some (path.take (pos + 1), path.drop (pos + 1))
        else some (path.take pos, path.drop (pos + 1))
    | none => some ([], path)

def stopsExtension (c : UInt8) : Bool := c == extensionSeparator || isSeparator c

/-- `split_extension`, by `split_at` where the scan meets a dot. -/
def splitExtension (path : Bytes) : Option (Bytes × Bytes) :=
  if path = [] then some ([], [])
  else if lastPosition path < 0 then none
  else
    match scanDown stopsExtension path (lastPosition path).toNat with
    | some pos =>
        if path[pos]? = some extensionSeparator then some (path.take pos, path.drop pos)
        else some (path, [])
    | none => some (path, [])

def getDirectory (path : Bytes) : Option Bytes :=
  (splitFilename path).bind fun res => removeTrailingSeparator res.1

def getFilename (path : Bytes) : Option Bytes := (splitFilename path).map Prod.snd

def removeExtension (path : Bytes) : Option Bytes := (splitExtension path).map Prod.fst

def getExtension (path : Bytes) : Option Bytes := (splitExtension path).map Prod.snd

def getBasename (path : Bytes) : Option Bytes := (getFilename path).bind removeExtension

/-! ## The mutators -/

def replaceFilename (path newFilename : Bytes) : Option Bytes :=
  (getDirectory path).map fun dir => join dir newFilename

def replaceExtension (path newExt : Bytes) : Option Bytes :=
  (removeExtension path).map fun pathWithoutExt => pathWithoutExt ++ newExt

def replaceBasename (path newBasename : Bytes) : Option Bytes := do
  let dirs ← splitFilename path
  let exts ← splitExtension dirs.2
  some (join dirs.1 (newBasename ++ [extensionSeparator] ++ exts.2))

/-! ## What the scans find -/

/-- A scan of the path begins inside it, and behind every character that stops it. -/
structure Scanned (stops : UInt8 → Bool) (path : Bytes) : Prop where
  begins : path ≠ [] → 0 ≤ lastPosition path
  sees : ∀ front c back, path = front ++ c :: back → stops c → front.length ≤ lastPosition path

/-- What the last stop ends, of as much of a path as the scan sees. -/
def seenFront (stops : UInt8 → Bool) (path : Bytes) : Bytes :=
  (path.take (lastPosition path + 1).toNat).rdropWhile fun c => !stops c

/-- The directory that ends with a separator, without it unless it is the root. -/
def dirPart (front : Bytes) : Bytes := if front.length ≤ 1 then front else front.dropLast

section

variable {stops : UInt8 → Bool} {path : Bytes}

theorem lastPosition_lt (nonempty : path ≠ []) : lastPosition path < path.length := by
  have positive := List.length_pos_of_ne_nil nonempty
  have low : (0 : Int) ≤ path.length - 1 := by omega
  have wrapped := toInt_le_self low
  rw [lastPosition]
  omega

/-- The end of the path, but for the conversion. -/
theorem exists_lastPosition_eq (path : Bytes) :
    ∃ turns : Int, lastPosition path = path.length - 1 - 2 ^ 32 * turns := exists_toInt_eq _

theorem lastPosition_lt_int (path : Bytes) : lastPosition path < 2 ^ 31 := toInt_lt _

/-- Up to 2 GiB, a scan sees the whole path. -/
theorem scanned_of_small (stops : UInt8 → Bool) (small : path.length ≤ 2 ^ 31) :
    Scanned stops path := by
  have kept : lastPosition path = path.length - 1 := toInt_of_small (by omega) (by omega)
  constructor
  · intro nonempty
    have positive := List.length_pos_of_ne_nil nonempty
    omega
  · rintro front c back rfl -
    rw [List.length_append, List.length_cons] at kept
    omega

theorem Scanned.seenFront_eq (scanned : Scanned stops path) :
    seenFront stops path = path.rdropWhile fun c => !stops c := by
  refine rdropWhile_take_of_seen stops ?_
  intro front c back whole stop
  have seen := scanned.sees front c back whole stop
  omega

/-- A scan that begins behind what it finds in the whole path has seen the whole path. -/
theorem scanned_of_length (begins : path ≠ [] → 0 ≤ lastPosition path)
    (behind : (path.rdropWhile fun c => !stops c).length ≤ lastPosition path + 1) :
    Scanned stops path := by
  refine ⟨begins, ?_⟩
  rintro front c back whole stop
  have inside : front.length < (path.rdropWhile fun c => !stops c).length := by
    rw [whole]
    exact length_lt_rdropWhile front back (by simp [stop])
  omega

theorem length_seenFront_le (stops : UInt8 → Bool) (begins : path ≠ [] → 0 ≤ lastPosition path) :
    (seenFront stops path).length ≤ lastPosition path + 1 := by
  have kept := (List.rdropWhile_prefix (fun c => !stops c)
    (path.take (lastPosition path + 1).toNat)).length_le
  rw [List.length_take] at kept
  rw [seenFront]
  by_cases empty : path = []
  · subst empty
    rw [List.length_nil, Nat.min_zero] at kept
    have position : lastPosition [] = -1 := by decide
    omega
  · have low := begins empty
    omega

theorem isPrefix_seenFront (stops : UInt8 → Bool) (path : Bytes) :
    seenFront stops path <+: path :=
  (List.rdropWhile_prefix _ _).trans (List.take_prefix _ _)

theorem seenFront_append_drop (stops : UInt8 → Bool) (path : Bytes) :
    seenFront stops path ++ path.drop (seenFront stops path).length = path :=
  List.prefix_iff_eq_append.mp (isPrefix_seenFront stops path)

theorem take_seenFront (stops : UInt8 → Bool) (path : Bytes) :
    path.take (seenFront stops path).length = seenFront stops path :=
  (List.prefix_iff_eq_take.mp (isPrefix_seenFront stops path)).symm

theorem take_seenFront_sub_one (stops : UInt8 → Bool) (path : Bytes) :
    path.take ((seenFront stops path).length - 1) = (seenFront stops path).dropLast := by
  rw [List.dropLast_eq_take]
  conv_rhs => rw [← take_seenFront stops path]
  rw [List.take_take, Nat.min_eq_left]
  · rw [take_seenFront]
  · rw [take_seenFront]
    exact Nat.sub_le _ _

theorem scanDown_lastPosition (nonempty : path ≠ []) (low : 0 ≤ lastPosition path) :
    scanDown stops path (lastPosition path).toNat =
      if seenFront stops path = [] then none else some ((seenFront stops path).length - 1) := by
  have inside := lastPosition_lt nonempty
  have next : (lastPosition path + 1).toNat = (lastPosition path).toNat + 1 := by omega
  rw [scanDown_eq stops (by omega), seenFront, next]

/-- **`split_filename`** cuts the path behind the last separator that its scan sees. -/
theorem splitFilename_eq (begins : path ≠ [] → 0 ≤ lastPosition path) :
    splitFilename path =
      some (dirPart (seenFront isSeparator path),
        path.drop (seenFront isSeparator path).length) := by
  by_cases empty : path = []
  · subst empty
    rfl
  · rw [splitFilename, if_neg empty, if_neg (not_lt.mpr (begins empty)),
      scanDown_lastPosition empty (begins empty)]
    by_cases none : seenFront isSeparator path = []
    · rw [if_pos none, none]
      rfl
    · have positive := List.length_pos_of_ne_nil none
      have behind : (seenFront isSeparator path).length - 1 + 1 =
          (seenFront isSeparator path).length := Nat.sub_add_cancel positive
      rw [if_neg none]
      dsimp only
      rw [behind, take_seenFront, take_seenFront_sub_one, dirPart]
      by_cases root : (seenFront isSeparator path).length ≤ 1
      · rw [if_pos root, if_pos (by omega)]
      · rw [if_neg root, if_neg (by omega)]

/-- **`split_extension`** cuts the path in front of the last stop that its scan sees, if that is a
dot. -/
theorem splitExtension_eq (begins : path ≠ [] → 0 ≤ lastPosition path) :
    splitExtension path =
      if (seenFront stopsExtension path).getLast? = some extensionSeparator then
        some ((seenFront stopsExtension path).dropLast,
          path.drop ((seenFront stopsExtension path).length - 1))
      else some (path, []) := by
  by_cases empty : path = []
  · subst empty
    rfl
  · rw [splitExtension, if_neg empty, if_neg (not_lt.mpr (begins empty)),
      scanDown_lastPosition empty (begins empty)]
    by_cases none : seenFront stopsExtension path = []
    · rw [if_pos none, none]
      rfl
    · have positive := List.length_pos_of_ne_nil none
      have last : path[(seenFront stopsExtension path).length - 1]? =
          (seenFront stopsExtension path).getLast? := by
        rw [List.getLast?_eq_getElem?]
        conv_rhs => rw [← take_seenFront stopsExtension path]
        rw [List.getElem?_take_of_lt (by rw [take_seenFront]; omega), take_seenFront]
      rw [if_neg none]
      dsimp only
      rw [last, take_seenFront_sub_one]

theorem begins_of_splitFilename {parts : Bytes × Bytes} (result : splitFilename path = some parts) :
    path ≠ [] → 0 ≤ lastPosition path := by
  intro nonempty
  by_contra negative
  rw [splitFilename, if_neg nonempty, if_pos (not_le.mp negative)] at result
  cases result

theorem begins_of_splitExtension {parts : Bytes × Bytes}
    (result : splitExtension path = some parts) : path ≠ [] → 0 ≤ lastPosition path := by
  intro nonempty
  by_contra negative
  rw [splitExtension, if_neg nonempty, if_pos (not_le.mp negative)] at result
  cases result

end

/-! ## The directory and the filename -/

/-- The path up to and with its last separator. -/
def frontOf (path : Bytes) : Bytes := path.rdropWhile fun c => !isSeparator c

def filenameOf (path : Bytes) : Bytes := path.rtakeWhile fun c => !isSeparator c

def directoryOf (path : Bytes) : Bytes := dirPart (frontOf path)

/-- The two parts make up the path, the second is a filename, and `get_directory` has a result. -/
structure SplitsFilename (path : Bytes) : Prop where
  joins : ∃ dir filename, splitFilename path = some (dir, filename) ∧ join dir filename = path ∧
    separator ∉ filename
  directory : getDirectory path ≠ none

section

variable {path : Bytes}

theorem frontOf_append_filenameOf (path : Bytes) : frontOf path ++ filenameOf path = path :=
  List.rdropWhile_append_rtakeWhile

theorem separator_not_mem_filenameOf (path : Bytes) : separator ∉ filenameOf path := by
  intro member
  exact absurd (List.mem_rtakeWhile_imp member) (by decide)

/-- What is kept in front of a filename is nothing or ends with a separator. -/
theorem rdropWhile_eq_nil_or_concat_separator (path : Bytes) :
    (path.rdropWhile fun c => !isSeparator c) = [] ∨
      ∃ dir, (path.rdropWhile fun c => !isSeparator c) = dir ++ [separator] := by
  obtain empty | ⟨dir, c, isFront, stop⟩ :=
    rdropWhile_eq_nil_or_concat (fun c => !isSeparator c) path
  · exact .inl empty
  · refine .inr ⟨dir, ?_⟩
    have isSep : c = separator := by simpa [isSeparator] using stop
    rw [← isSep]
    exact isFront

theorem frontOf_eq_nil_or_concat (path : Bytes) :
    frontOf path = [] ∨ ∃ dir, frontOf path = dir ++ [separator] :=
  rdropWhile_eq_nil_or_concat_separator path

theorem isSeparator_of_plain {back : Bytes} (plain : separator ∉ back) :
    ∀ c ∈ back, (!isSeparator c) = true := by
  intro c member
  have different : c ≠ separator := fun same => plain (same ▸ member)
  simpa [isSeparator] using different

theorem frontOf_append_of_plain (front : Bytes) {back : Bytes} (plain : separator ∉ back) :
    frontOf (front ++ back) = frontOf front :=
  rdropWhile_append_of_forall front (isSeparator_of_plain plain)

theorem frontOf_frontOf_append (path : Bytes) {back : Bytes} (plain : separator ∉ back) :
    frontOf (frontOf path ++ back) = frontOf path := by
  rw [frontOf_append_of_plain _ plain]
  exact List.rdropWhile_idempotent _ _

theorem filenameOf_frontOf_append (path : Bytes) {back : Bytes} (plain : separator ∉ back) :
    filenameOf (frontOf path ++ back) = back := by
  have whole := frontOf_append_filenameOf (frontOf path ++ back)
  rw [frontOf_frontOf_append path plain] at whole
  exact List.append_cancel_left whole

theorem splitFilename_of_scanned (scanned : Scanned isSeparator path) :
    splitFilename path = some (directoryOf path, filenameOf path) := by
  rw [splitFilename_eq scanned.begins, scanned.seenFront_eq, filenameOf, rtakeWhile_eq_drop]
  rfl

/-- Only a scan of the whole path finds a filename. -/
theorem scanned_of_splitFilename {dir filename : Bytes}
    (result : splitFilename path = some (dir, filename)) (plain : separator ∉ filename) :
    Scanned isSeparator path := by
  have begins := begins_of_splitFilename result
  refine scanned_of_length begins ?_
  rw [splitFilename_eq begins] at result
  have behind := (Prod.mk.inj (Option.some.inj result)).2
  have whole := seenFront_append_drop isSeparator path
  rw [behind] at whole
  have cut := frontOf_append_of_plain (seenFront isSeparator path) plain
  rw [whole] at cut
  have kept : frontOf (seenFront isSeparator path) = seenFront isSeparator path :=
    List.rdropWhile_idempotent _ _
  rw [show (path.rdropWhile fun c => !isSeparator c) = frontOf path from rfl, cut, kept]
  exact length_seenFront_le isSeparator begins

/-! ### The separator between them -/

theorem exists_of_hasTrailingSeparator (trailing : hasTrailingSeparator path = true) :
    ∃ front, path = front ++ [separator] := by
  have last : path.getLast? = some separator := eq_of_beq trailing
  exact ⟨path.dropLast, (List.dropLast_append_getLast? separator last).symm⟩

/-- A directory ends with one separator at most. -/
def Once (front : Bytes) : Prop := ∀ dir, front ≠ dir ++ [separator, separator]

theorem dirPart_concat {dir : Bytes} (nonempty : dir ≠ []) :
    dirPart (dir ++ [separator]) = dir := by
  have positive := List.length_pos_of_ne_nil nonempty
  have long : ¬ (dir ++ [separator]).length ≤ 1 := by
    rw [List.length_append, List.length_singleton]
    omega
  rw [dirPart, if_neg long, List.dropLast_concat]

theorem hasTrailingSeparator_of_once {dir : Bytes} (once : Once (dir ++ [separator])) :
    hasTrailingSeparator dir = false := by
  by_contra trailing
  rw [Bool.not_eq_false] at trailing
  obtain ⟨front, rfl⟩ := exists_of_hasTrailingSeparator trailing
  exact once front (List.append_assoc _ _ _)

/-- The separator that was cut off is put back. -/
theorem join_dirPart {front : Bytes} (ends : front = [] ∨ ∃ dir, front = dir ++ [separator])
    (once : Once front) (filename : Bytes) : join (dirPart front) filename = front ++ filename := by
  obtain rfl | ⟨dir, rfl⟩ := ends
  · rfl
  · by_cases root : dir = []
    · subst root
      rfl
    · rw [dirPart_concat root, join, if_neg root, addTrailingSeparator,
        hasTrailingSeparator_of_once once]
      rfl

theorem join_directoryOf (once : Once (frontOf path)) (filename : Bytes) :
    join (directoryOf path) filename = frontOf path ++ filename :=
  join_dirPart (frontOf_eq_nil_or_concat path) once filename

theorem removeTrailingSeparator_dirPart {front : Bytes}
    (ends : front = [] ∨ ∃ dir, front = dir ++ [separator]) (once : Once front) :
    removeTrailingSeparator (dirPart front) = some (dirPart front) := by
  obtain rfl | ⟨dir, rfl⟩ := ends
  · rfl
  · by_cases root : dir = []
    · subst root
      rfl
    · rw [dirPart_concat root, removeTrailingSeparator,
        if_pos (hasTrailingSeparator_of_once once)]

theorem getDirectory_of_scanned (scanned : Scanned isSeparator path)
    (once : Once (frontOf path)) : getDirectory path = some (directoryOf path) := by
  rw [getDirectory, splitFilename_of_scanned scanned, Option.bind_some]
  exact removeTrailingSeparator_dirPart (frontOf_eq_nil_or_concat path) once

/-- Of two separators in front of a filename, one is lost. -/
theorem join_directoryOf_ne {dir : Bytes} (twice : frontOf path = dir ++ [separator, separator])
    (filename : Bytes) : join (directoryOf path) filename ≠ frontOf path ++ filename := by
  have nonempty : dir ++ [separator] ≠ [] :=
    List.append_ne_nil_of_right_ne_nil _ (List.cons_ne_nil _ _)
  have isFront : frontOf path = (dir ++ [separator]) ++ [separator] := by
    rw [twice, List.append_assoc]
    rfl
  intro same
  rw [directoryOf, isFront, dirPart_concat nonempty, join, if_neg nonempty, addTrailingSeparator,
    if_pos (hasTrailingSeparator_concat dir)] at same
  have lengths := congrArg List.length same
  simp only [List.length_append, List.length_singleton] at lengths
  omega

theorem once_frontOf_iff :
    Once (frontOf path) ↔
      ∀ front back, path = front ++ [separator, separator] ++ back → separator ∈ back := by
  constructor
  · rintro once front back whole
    by_contra plain
    refine once front ?_
    rw [whole, frontOf_append_of_plain _ plain]
    have kept := List.rdropWhile_concat_neg (fun c => !isSeparator c) (front ++ [separator])
      separator (by decide)
    rwa [List.append_assoc] at kept
  · rintro apart dir twice
    have whole := frontOf_append_filenameOf path
    rw [twice] at whole
    exact separator_not_mem_filenameOf path (apart dir _ whole.symm)

end

/-- **Splitting off the filename** is undone by joining as long as the scan sees the whole path, and
no separator stands directly in front of the last one. -/
theorem splitsFilename_iff (path : Bytes) :
    SplitsFilename path ↔ Scanned isSeparator path ∧
      ∀ front back, path = front ++ [separator, separator] ++ back → separator ∈ back := by
  rw [← once_frontOf_iff]
  constructor
  · rintro ⟨⟨dir, filename, result, joined, plain⟩, -⟩
    have scanned := scanned_of_splitFilename result plain
    refine ⟨scanned, ?_⟩
    rintro front twice
    rw [splitFilename_of_scanned scanned] at result
    obtain ⟨rfl, rfl⟩ := Prod.mk.inj (Option.some.inj result)
    exact join_directoryOf_ne twice _ (joined.trans (frontOf_append_filenameOf path).symm)
  · rintro ⟨scanned, once⟩
    have result := splitFilename_of_scanned scanned
    refine ⟨⟨directoryOf path, filenameOf path, result, ?_, ?_⟩, ?_⟩
    · rw [join_directoryOf once, frontOf_append_filenameOf]
    · exact separator_not_mem_filenameOf path
    · rw [getDirectory_of_scanned scanned once]
      exact Option.some_ne_none _

/-- Two separators in front of a filename: one of them is lost. -/
theorem not_splitsFilename_twice : ¬ SplitsFilename (ascii "a//b") := by
  rintro ⟨⟨dir, filename, result, joined, -⟩, -⟩
  have split : splitFilename (ascii "a//b") = some (ascii "a/", ascii "b") := by decide +kernel
  rw [split] at result
  obtain ⟨rfl, rfl⟩ := Prod.mk.inj (Option.some.inj result)
  exact absurd joined (by decide +kernel)

end Paths

end Xul
