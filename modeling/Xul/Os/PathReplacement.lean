import Xul.Os.PathParts

/-!
# Replacing a part of a path

Each of the mutators puts the path together from what an accessor finds in it.  The filename goes
behind the directory, and the extension, with its dot, behind what is left in front of it.
`replace_basename` puts a dot between the basename and the extension, although that has one, so
that the result never has the basename (`replaces_iff`).
-/

set_option autoImplicit false

namespace Xul

namespace Paths

open Foundation

/-! ## The extension -/

/-- What follows the last dot of a path, with that dot, unless a separator is behind it. -/
def extensionOf (path : Bytes) : Bytes :=
  if (path.rdropWhile fun c => !stopsExtension c).getLast? = some extensionSeparator then
    extensionSeparator :: path.rtakeWhile fun c => !stopsExtension c
  else []

def stemOf (path : Bytes) : Bytes := path.take (path.length - (extensionOf path).length)

def basenameOf (path : Bytes) : Bytes := stemOf (filenameOf path)

section

variable {path : Bytes}

/-- A path has an extension, or its last stop is a separator. -/
theorem exists_extension (path : Bytes) :
    (∃ stem ext, path = stem ++ extensionSeparator :: ext ∧ (∀ c ∈ ext, !stopsExtension c)) ∨
      ((path.rdropWhile fun c => !stopsExtension c) = [] ∨
        ∃ dir, (path.rdropWhile fun c => !stopsExtension c) = dir ++ [separator]) := by
  have whole : (path.rdropWhile fun c => !stopsExtension c) ++
      (path.rtakeWhile fun c => !stopsExtension c) = path := List.rdropWhile_append_rtakeWhile
  obtain empty | ⟨front, c, isFront, stop⟩ :=
    rdropWhile_eq_nil_or_concat (fun c => !stopsExtension c) path
  · exact .inr (.inl empty)
  · rw [Bool.not_eq_true, Bool.not_eq_false', stopsExtension, Bool.or_eq_true_iff, isSeparator,
      beq_iff_eq, beq_iff_eq] at stop
    have plain : ∀ c ∈ path.rtakeWhile fun c => !stopsExtension c, (!stopsExtension c) = true :=
      fun c member => List.mem_rtakeWhile_imp (p := fun c => !stopsExtension c) member
    rw [isFront, List.append_assoc] at whole
    obtain rfl | rfl := stop
    · exact .inl ⟨front, _, whole.symm, plain⟩
    · exact .inr (.inr ⟨front, isFront⟩)

theorem extensionOf_append_cons (stem : Bytes) {ext : Bytes}
    (plain : ∀ c ∈ ext, !stopsExtension c) :
    extensionOf (stem ++ extensionSeparator :: ext) = extensionSeparator :: ext := by
  rw [extensionOf, rdropWhile_append_cons stem (by decide) plain,
    rtakeWhile_append_cons stem (by decide) plain, if_pos List.getLast?_concat]

theorem extensionOf_eq_nil
    (none : (path.rdropWhile fun c => !stopsExtension c) = [] ∨
      ∃ dir, (path.rdropWhile fun c => !stopsExtension c) = dir ++ [separator]) :
    extensionOf path = [] := by
  refine if_neg ?_
  obtain empty | ⟨dir, ends⟩ := none
  · rw [empty]
    exact nofun
  · rw [ends, List.getLast?_concat]
    decide

theorem stemOf_append_cons (stem : Bytes) {ext : Bytes} (plain : ∀ c ∈ ext, !stopsExtension c) :
    stemOf (stem ++ extensionSeparator :: ext) = stem := by
  rw [stemOf, extensionOf_append_cons stem plain, List.length_append, Nat.add_sub_cancel,
    List.take_left]

theorem stemOf_append_extensionOf (path : Bytes) : stemOf path ++ extensionOf path = path := by
  obtain ⟨stem, ext, rfl, plain⟩ | none := exists_extension path
  · rw [stemOf_append_cons stem plain, extensionOf_append_cons stem plain]
  · rw [stemOf, extensionOf_eq_nil none, List.append_nil, List.length_nil, Nat.sub_zero,
      List.take_length]

theorem splitExtension_of_scanned (scanned : Scanned stopsExtension path) :
    splitExtension path = some (stemOf path, extensionOf path) := by
  rw [splitExtension_eq scanned.begins, scanned.seenFront_eq]
  obtain ⟨stem, ext, rfl, plain⟩ | none := exists_extension path
  · rw [stemOf_append_cons stem plain, extensionOf_append_cons stem plain,
      rdropWhile_append_cons stem (by decide) plain, if_pos List.getLast?_concat,
      List.dropLast_concat, List.length_append, List.length_singleton, Nat.add_sub_cancel,
      List.drop_left]
  · have whole := stemOf_append_extensionOf path
    rw [extensionOf_eq_nil none] at whole ⊢
    rw [List.append_nil] at whole
    rw [whole]
    refine if_neg ?_
    obtain empty | ⟨dir, ends⟩ := none
    · rw [empty]
      exact nofun
    · rw [ends, List.getLast?_concat]
      decide

theorem Scanned.separators (scanned : Scanned stopsExtension path) : Scanned isSeparator path :=
  ⟨scanned.begins, fun front c back whole stop =>
    scanned.sees front c back whole (Bool.or_eq_true_iff.mpr (.inr stop))⟩

/-- Behind the last separator, only a scan of the whole path finds the extension. -/
theorem scanned_of_getExtension (separators : Scanned isSeparator path)
    (result : getExtension path = some (extensionOf path)) : Scanned stopsExtension path := by
  refine scanned_of_length separators.begins ?_
  obtain ⟨stem, ext, rfl, plain⟩ | empty | ⟨dir, ends⟩ := exists_extension path
  · rw [getExtension, splitExtension_eq separators.begins, extensionOf_append_cons stem plain]
      at result
    rw [rdropWhile_append_cons stem (by decide) plain]
    split at result
    · next last =>
      have positive := List.length_pos_of_mem (List.mem_of_getLast? last)
      have behind := congrArg List.length (Option.some.inj result)
      have seen := length_seenFront_le stopsExtension separators.begins
      simp only [List.length_drop, List.length_append, List.length_cons] at behind ⊢
      simp only [List.length_nil]
      omega
    · cases result
  · rw [empty]
    by_cases none : path = []
    · subst none
      decide
    · have low := separators.begins none
      rw [List.length_nil]
      omega
  · have whole : (path.rdropWhile fun c => !stopsExtension c) ++
        (path.rtakeWhile fun c => !stopsExtension c) = path := List.rdropWhile_append_rtakeWhile
    rw [ends, List.append_assoc] at whole
    have seen := separators.sees dir separator _ whole.symm (by decide)
    rw [ends, List.length_append, List.length_singleton]
    omega

/-! ## The directory -/

/-- No separator stands directly behind another. -/
def NoRepeats (path : Bytes) : Prop := ∀ front back, path ≠ front ++ [separator, separator] ++ back

theorem NoRepeats.once (noRepeats : NoRepeats path) {front : Bytes} (isPrefix : front <+: path) :
    Once front := by
  rintro dir rfl
  obtain ⟨back, whole⟩ := isPrefix
  exact noRepeats dir back whole.symm

/-- Only a scan of the whole path finds its directory. -/
theorem scanned_of_getDirectory (noRepeats : NoRepeats path)
    (result : getDirectory path = some (directoryOf path)) : Scanned isSeparator path := by
  obtain ⟨parts, split, removed⟩ := Option.bind_eq_some_iff.mp result
  have begins := begins_of_splitFilename split
  rw [splitFilename_eq begins] at split
  obtain rfl := Option.some.inj split
  have ends := rdropWhile_eq_nil_or_concat_separator (path.take (lastPosition path + 1).toNat)
  have once := noRepeats.once (isPrefix_seenFront isSeparator path)
  have kept : dirPart (seenFront isSeparator path) = directoryOf path := by
    have trimmed := removeTrailingSeparator_dirPart ends once
    exact Option.some.inj (trimmed.symm.trans removed)
  -- Joined to nothing, the two directories are the paths that they were cut off from.
  have same : seenFront isSeparator path = frontOf path := by
    have joined := join_dirPart ends once []
    have whole := join_directoryOf (noRepeats.once (List.rdropWhile_prefix _ _)) []
    rw [List.append_nil] at joined whole
    exact joined.symm.trans ((congrArg (join · []) kept).trans whole)
  refine scanned_of_length begins ?_
  rw [show (path.rdropWhile fun c => !isSeparator c) = frontOf path from rfl, ← same]
  exact length_seenFront_le isSeparator begins

/-! ## All the parts of a path -/

/-- The accessors find these parts. -/
structure HasParts (path dir base ext : Bytes) : Prop where
  directory : getDirectory path = some dir
  basename : getBasename path = some base
  extension : getExtension path = some ext

/-- What is in front of a filename does not matter for its extension. -/
theorem extensionOf_append {front name : Bytes}
    (ends : front = [] ∨ ∃ dir, front = dir ++ [separator]) (plain : separator ∉ name) :
    extensionOf (front ++ name) = extensionOf name := by
  obtain ⟨stem, ext, rfl, behind⟩ | none := exists_extension name
  · rw [← List.append_assoc, extensionOf_append_cons _ behind, extensionOf_append_cons stem behind]
  · rw [extensionOf_eq_nil none]
    have all : ∀ c ∈ name, !stopsExtension c := by
      refine List.rdropWhile_eq_nil_iff.mp (none.resolve_right ?_)
      rintro ⟨dir, isFront⟩
      refine plain ((List.rdropWhile_prefix (fun c => !stopsExtension c) name).mem ?_)
      rw [isFront]
      exact List.mem_append_right _ (List.mem_singleton_self _)
    refine extensionOf_eq_nil ?_
    rw [rdropWhile_append_of_forall front all]
    obtain rfl | ⟨dir, rfl⟩ := ends
    · exact .inl rfl
    · exact .inr ⟨dir, List.rdropWhile_concat_neg (fun c => !stopsExtension c) dir separator
        (by decide)⟩

theorem extensionOf_filenameOf (path : Bytes) :
    extensionOf (filenameOf path) = extensionOf path := by
  conv_rhs => rw [← frontOf_append_filenameOf path]
  exact (extensionOf_append (frontOf_eq_nil_or_concat path)
    (separator_not_mem_filenameOf path)).symm

theorem append_of_splitExtension {stem ext : Bytes}
    (result : splitExtension path = some (stem, ext)) : stem ++ ext = path := by
  rw [splitExtension_eq (begins_of_splitExtension result)] at result
  split at result
  · obtain ⟨rfl, rfl⟩ := Prod.mk.inj (Option.some.inj result)
    rw [← take_seenFront_sub_one, List.take_append_drop]
  · obtain ⟨rfl, rfl⟩ := Prod.mk.inj (Option.some.inj result)
    exact List.append_nil path

/-- The accessors find the parts of a path if their scans begin behind its last separator and dot,
and those of its filename. -/
theorem hasParts_iff (noRepeats : NoRepeats path) :
    HasParts path (directoryOf path) (basenameOf path) (extensionOf path) ↔
      Scanned stopsExtension path ∧ Scanned stopsExtension (filenameOf path) := by
  have once := noRepeats.once (List.rdropWhile_prefix _ path : frontOf path <+: path)
  constructor
  · rintro ⟨directory, basename, extension⟩
    have separators := scanned_of_getDirectory noRepeats directory
    refine ⟨scanned_of_getExtension separators extension, ?_⟩
    rw [getBasename, getFilename, splitFilename_of_scanned separators] at basename
    obtain ⟨⟨stem, ext⟩, split, rfl⟩ := Option.map_eq_some_iff.mp basename
    have plain : Scanned isSeparator (filenameOf path) := by
      refine ⟨begins_of_splitExtension split, ?_⟩
      rintro front c back whole stop
      refine absurd ?_ (separator_not_mem_filenameOf path)
      rw [whole, ← eq_of_beq stop]
      exact List.mem_append_right _ List.mem_cons_self
    have whole := append_of_splitExtension split
    have behind := List.append_cancel_left (whole.trans (stemOf_append_extensionOf _).symm)
    refine scanned_of_getExtension plain ?_
    rw [getExtension, split, ← behind]
    rfl
  · rintro ⟨scanned, filename⟩
    refine ⟨getDirectory_of_scanned scanned.separators once, ?_, ?_⟩
    · rw [getBasename, getFilename, splitFilename_of_scanned scanned.separators]
      simp only [Option.map_some, Option.bind_some, removeExtension,
        splitExtension_of_scanned filename]
      rfl
    · rw [getExtension, splitExtension_of_scanned scanned]
      rfl

end

/-! ## The mutators -/

inductive Replacement
  | basename (newBasename : Bytes)
  | filename (newFilename : Bytes)
  | extension (newExt : Bytes)

/-- What may be put into a path. -/
def Replacement.Allowed (path : Bytes) : Replacement → Prop
  | .basename newBasename => separator ∉ newBasename ∧ extensionSeparator ∉ newBasename
  | .filename newFilename => separator ∉ newFilename
  | .extension newExt =>
      (newExt = [] ∨ ∃ ext, newExt = extensionSeparator :: ext ∧ ∀ c ∈ ext, !stopsExtension c) ∧
        extensionSeparator ∉ basenameOf path

/-- The path gets the new part, and keeps the others. -/
def Replacement.Replaces (path : Bytes) : Replacement → Prop
  | .basename newBasename =>
      HasParts path (directoryOf path) (basenameOf path) (extensionOf path) ∧
        ∃ res, replaceBasename path newBasename = some res ∧
          HasParts res (directoryOf path) newBasename (extensionOf path)
  | .filename newFilename =>
      getDirectory path = some (directoryOf path) ∧
        ∃ res, replaceFilename path newFilename = some res ∧
          getFilename res = some newFilename ∧ getDirectory res = some (directoryOf path)
  | .extension newExt =>
      HasParts path (directoryOf path) (basenameOf path) (extensionOf path) ∧
        ∃ res, replaceExtension path newExt = some res ∧
          HasParts res (directoryOf path) (basenameOf path) newExt

/-- It is not the basename that is replaced, and the scans of both paths begin behind what they
look for. -/
def Replacement.InSight (path : Bytes) : Replacement → Prop
  | .basename _ => False
  | .filename newFilename =>
      Scanned isSeparator path ∧ Scanned isSeparator (frontOf path ++ newFilename)
  | .extension newExt =>
      Scanned stopsExtension path ∧ Scanned stopsExtension (filenameOf path) ∧
        Scanned stopsExtension (frontOf path ++ (basenameOf path ++ newExt)) ∧
        Scanned stopsExtension (basenameOf path ++ newExt)

section

variable {path : Bytes}

theorem NoRepeats.append (noRepeats : NoRepeats path) {name : Bytes} (plain : separator ∉ name) :
    NoRepeats (frontOf path ++ name) := by
  have isPrefix : frontOf path <+: path := List.rdropWhile_prefix _ _
  rintro front back whole
  obtain ⟨within, split, isName⟩ | ⟨rest, split, -⟩ := List.append_eq_append_iff.mp whole
  · obtain rfl | ⟨first, last, rfl⟩ := List.eq_nil_or_concat within
    · rw [List.append_nil] at split
      exact noRepeats.once isPrefix front split.symm
    · have twice : (front ++ [separator]) ++ [separator] = (frontOf path ++ first) ++ [last] := by
        simpa using split
      have isLast := (List.append_inj' twice rfl).2
      refine plain ?_
      rw [isName, ← List.singleton_inj.mp isLast]
      simp
  · obtain ⟨back, whole⟩ := isPrefix
    rw [split, List.append_assoc] at whole
    exact noRepeats front _ whole.symm

theorem replacesFilename_iff (noRepeats : NoRepeats path) {newFilename : Bytes}
    (plain : separator ∉ newFilename) :
    (Replacement.filename newFilename).Replaces path ↔
      (Replacement.filename newFilename).InSight path := by
  have once := noRepeats.once (List.rdropWhile_prefix _ path : frontOf path <+: path)
  have front := frontOf_frontOf_append path plain
  have sameDirectory : directoryOf (frontOf path ++ newFilename) = directoryOf path :=
    congrArg dirPart front
  constructor
  · rintro ⟨directory, res, result, filename, -⟩
    refine ⟨scanned_of_getDirectory noRepeats directory, ?_⟩
    rw [replaceFilename, directory, Option.map_some, join_directoryOf once] at result
    obtain rfl := Option.some.inj result
    obtain ⟨⟨dir, name⟩, split, rfl⟩ := Option.map_eq_some_iff.mp filename
    exact scanned_of_splitFilename split plain
  · rintro ⟨scanned, newScanned⟩
    have directory := getDirectory_of_scanned scanned once
    refine ⟨directory, frontOf path ++ newFilename, ?_, ?_, ?_⟩
    · rw [replaceFilename, directory, Option.map_some, join_directoryOf once]
    · rw [getFilename, splitFilename_of_scanned newScanned, Option.map_some,
        filenameOf_frontOf_append path plain]
    · rw [getDirectory_of_scanned newScanned (by rwa [front]), sameDirectory]

/-! ### The extension -/

theorem frontOf_append_basenameOf (path : Bytes) :
    frontOf path ++ basenameOf path = stemOf path := by
  have whole : frontOf path ++ basenameOf path ++ extensionOf path =
      stemOf path ++ extensionOf path := by
    rw [stemOf_append_extensionOf, List.append_assoc, ← extensionOf_filenameOf, basenameOf,
      stemOf_append_extensionOf, frontOf_append_filenameOf]
  exact List.append_cancel_right whole

theorem separator_not_mem_basenameOf (path : Bytes) : separator ∉ basenameOf path := fun member =>
  separator_not_mem_filenameOf path (List.mem_of_mem_take member)

theorem stopsExtension_of_plain {s : Bytes} (noDot : extensionSeparator ∉ s)
    (noSeparator : separator ∉ s) : ∀ c ∈ s, !stopsExtension c := by
  intro c member
  have notDot : c ≠ extensionSeparator := fun same => noDot (same ▸ member)
  have notSeparator : c ≠ separator := fun same => noSeparator (same ▸ member)
  simp [stopsExtension, isSeparator, notDot, notSeparator]

theorem separator_not_mem_of_extension {ext : Bytes}
    (form : ext = [] ∨ ∃ rest, ext = extensionSeparator :: rest ∧ ∀ c ∈ rest, !stopsExtension c) :
    separator ∉ ext := by
  obtain rfl | ⟨rest, rfl, plain⟩ := form
  · exact List.not_mem_nil
  · rw [List.mem_cons, not_or]
    exact ⟨by decide, fun member => absurd (plain _ member) (by decide)⟩

theorem replacesExtension_iff (noRepeats : NoRepeats path) {newExt : Bytes}
    (allowed : (Replacement.extension newExt).Allowed path) :
    (Replacement.extension newExt).Replaces path ↔
      (Replacement.extension newExt).InSight path := by
  obtain ⟨newForm, noDot⟩ := allowed
  have noSeparator := separator_not_mem_basenameOf path
  have newPlain : separator ∉ basenameOf path ++ newExt := by
    rw [List.mem_append, not_or]
    exact ⟨noSeparator, separator_not_mem_of_extension newForm⟩
  have newExtension : extensionOf (basenameOf path ++ newExt) = newExt := by
    obtain rfl | ⟨ext, rfl, plain⟩ := newForm
    · rw [List.append_nil]
      refine extensionOf_eq_nil (.inl (List.rdropWhile_eq_nil_iff.mpr ?_))
      exact stopsExtension_of_plain noDot noSeparator
    · exact extensionOf_append_cons _ plain
  have newStem : stemOf (basenameOf path ++ newExt) = basenameOf path := by
    have whole := stemOf_append_extensionOf (basenameOf path ++ newExt)
    rw [newExtension] at whole
    exact List.append_cancel_right whole
  have newFilename := filenameOf_frontOf_append path newPlain
  have newDirectory : directoryOf (frontOf path ++ (basenameOf path ++ newExt)) =
      directoryOf path := congrArg dirPart (frontOf_frontOf_append path newPlain)
  have newBasename : basenameOf (frontOf path ++ (basenameOf path ++ newExt)) =
      basenameOf path := (congrArg stemOf newFilename).trans newStem
  have newParts := hasParts_iff (noRepeats.append newPlain)
  rw [newDirectory, newBasename, ← extensionOf_filenameOf, newFilename, newExtension] at newParts
  have replaced : Scanned stopsExtension path →
      replaceExtension path newExt = some (frontOf path ++ (basenameOf path ++ newExt)) := by
    intro scanned
    rw [replaceExtension, removeExtension, splitExtension_of_scanned scanned, Option.map_some,
      Option.map_some, ← frontOf_append_basenameOf, List.append_assoc]
  constructor
  · rintro ⟨parts, res, result, newHas⟩
    obtain ⟨scanned, filename⟩ := (hasParts_iff noRepeats).mp parts
    rw [replaced scanned] at result
    obtain rfl := Option.some.inj result
    exact ⟨scanned, filename, newParts.mp newHas⟩
  · rintro ⟨scanned, filename, newScanned⟩
    exact ⟨(hasParts_iff noRepeats).mpr ⟨scanned, filename⟩, _, replaced scanned,
      newParts.mpr newScanned⟩

/-! ### The basename -/

/-- A stop that the scan sees is kept, with what is in front of it. -/
theorem length_lt_seenFront (stops : UInt8 → Bool) {front back : Bytes} {c : UInt8}
    (stop : stops c) (seen : front.length ≤ lastPosition (front ++ c :: back)) :
    front.length < (seenFront stops (front ++ c :: back)).length := by
  obtain ⟨more, size⟩ : ∃ more, (lastPosition (front ++ c :: back) + 1).toNat =
      front.length + (more + 1) :=
    ⟨(lastPosition (front ++ c :: back)).toNat - front.length, by omega⟩
  rw [seenFront, size, List.take_length_add_append, List.take_succ_cons]
  exact length_lt_rdropWhile front _ (by simp [stop])

/-- An extension is what the scan finds behind the last dot that it sees. -/
theorem splitExtension_cons {stem ext : Bytes}
    (result : splitExtension path = some (stem, extensionSeparator :: ext)) :
    stem.length ≤ lastPosition path ∧ (seenFront stopsExtension path).length = stem.length + 1 := by
  have begins := begins_of_splitExtension result
  rw [splitExtension_eq begins] at result
  split at result
  · next last =>
    have positive := List.length_pos_of_mem (List.mem_of_getLast? last)
    have kept := length_seenFront_le stopsExtension begins
    have size := congrArg List.length (Prod.mk.inj (Option.some.inj result)).1
    rw [List.length_dropLast] at size
    omega
  · cases result

/-- A dot at the end is an extension, unless the scan begins in front of it. -/
theorem lastPosition_lt_of_splitExtension {front stem : Bytes}
    (result : splitExtension (front ++ [extensionSeparator]) = some (stem, [])) :
    lastPosition (front ++ [extensionSeparator]) < front.length := by
  by_contra seen
  have long := length_lt_seenFront stopsExtension (by decide) (not_lt.mp seen)
  have isPrefix := isPrefix_seenFront stopsExtension (front ++ [extensionSeparator])
  have whole := isPrefix.eq_of_length_le (by
    rw [List.length_append, List.length_singleton]
    exact long)
  rw [splitExtension_eq (begins_of_splitExtension result), whole, List.getLast?_concat,
    if_pos rfl] at result
  have behind := congrArg List.length (Prod.mk.inj (Option.some.inj result)).2
  rw [List.length_drop, List.length_append, List.length_singleton, List.length_nil] at behind
  omega

theorem extensionOf_eq_nil_or_cons (path : Bytes) :
    extensionOf path = [] ∨
      ∃ ext, extensionOf path = extensionSeparator :: ext ∧ ∀ c ∈ ext, !stopsExtension c := by
  obtain ⟨stem, ext, rfl, plain⟩ | none := exists_extension path
  · exact .inr ⟨ext, extensionOf_append_cons stem plain, plain⟩
  · exact .inl (extensionOf_eq_nil none)

/-- A scan that finds the first of two dots begins in front of the second. -/
theorem lastPosition_lt_of_twice {base ext rest : Bytes}
    (result : splitExtension (base ++ extensionSeparator :: extensionSeparator :: rest) =
      some (base, extensionSeparator :: ext)) :
    lastPosition (base ++ extensionSeparator :: extensionSeparator :: rest) < base.length + 1 := by
  have kept := (splitExtension_cons result).2
  by_contra seen
  have split : base ++ extensionSeparator :: extensionSeparator :: rest =
      (base ++ [extensionSeparator]) ++ extensionSeparator :: rest := by simp
  rw [split] at kept seen
  have behind : ((base ++ [extensionSeparator]).length : Int) ≤
      lastPosition ((base ++ [extensionSeparator]) ++ extensionSeparator :: rest) := by
    rw [List.length_append]
    exact not_lt.mp seen
  have long := length_lt_seenFront stopsExtension (by decide) behind
  rw [kept, List.length_append, List.length_singleton] at long
  exact absurd long (lt_irrefl _)

theorem length_frontOf_le {name : Bytes} (nonempty : name ≠ [])
    (scanned : Scanned isSeparator (frontOf path ++ name)) :
    (frontOf path).length ≤ lastPosition (frontOf path ++ name) + 1 := by
  obtain empty | ⟨dir, isFront⟩ := frontOf_eq_nil_or_concat path
  · have low := scanned.begins (List.append_ne_nil_of_right_ne_nil _ nonempty)
    rw [empty] at low ⊢
    rw [List.length_nil]
    omega
  · have seen := scanned.sees dir separator name (by rw [isFront, List.append_assoc]; rfl)
      (by decide)
    rw [isFront] at seen ⊢
    rw [List.length_append, List.length_singleton]
    omega

/-- **Two dots are not told apart**: no scan finds the basename in front of the first in the
filename, and the extension behind that dot in the path. -/
theorem not_splitExtension_twice {base ext : Bytes}
    (form : ext = [] ∨ ∃ rest, ext = extensionSeparator :: rest)
    (separators : Scanned isSeparator (frontOf path ++ (base ++ extensionSeparator :: ext)))
    (filename : splitExtension (base ++ extensionSeparator :: ext) =
      some (base, extensionSeparator :: ext))
    (whole : splitExtension (frontOf path ++ (base ++ extensionSeparator :: ext)) =
      some (frontOf path ++ (base ++ [extensionSeparator]), ext)) : False := by
  have nonempty : base ++ extensionSeparator :: ext ≠ [] :=
    List.append_ne_nil_of_right_ne_nil _ (List.cons_ne_nil _ _)
  have low := separators.begins (List.append_ne_nil_of_right_ne_nil _ nonempty)
  have behindFront := length_frontOf_le nonempty separators
  have dotSeen := (splitExtension_cons filename).1
  -- The two scans begin at the ends of the path and of its filename, but for multiples of 2^32.
  obtain ⟨nameTurns, nameWrap⟩ := exists_lastPosition_eq (base ++ extensionSeparator :: ext)
  obtain ⟨pathTurns, pathWrap⟩ :=
    exists_lastPosition_eq (frontOf path ++ (base ++ extensionSeparator :: ext))
  have nameBound := lastPosition_lt_int (base ++ extensionSeparator :: ext)
  have pathBound := lastPosition_lt_int (frontOf path ++ (base ++ extensionSeparator :: ext))
  obtain rfl | ⟨rest, rfl⟩ := form
  · have early : lastPosition (frontOf path ++ (base ++ [extensionSeparator])) <
        (frontOf path ++ base).length := by
      rw [← List.append_assoc] at whole ⊢
      exact lastPosition_lt_of_splitExtension whole
    simp only [List.length_append, List.length_cons, List.length_nil] at *
    omega
  · have dotSeenTwice := (splitExtension_cons whole).1
    have dotMissed := lastPosition_lt_of_twice filename
    simp only [List.length_append, List.length_cons, List.length_nil] at *
    omega

/-- **`replace_basename` never does**: with the dot that it writes there is one too many. -/
theorem never_replacesBasename (noRepeats : NoRepeats path) {newBasename : Bytes}
    (allowed : (Replacement.basename newBasename).Allowed path) :
    ¬ (Replacement.basename newBasename).Replaces path := by
  rintro ⟨parts, res, result, newParts⟩
  obtain ⟨scanned, filename⟩ := (hasParts_iff noRepeats).mp parts
  have once := noRepeats.once (List.rdropWhile_prefix _ path : frontOf path <+: path)
  have form := extensionOf_eq_nil_or_cons path
  have replaced : replaceBasename path newBasename =
      some (frontOf path ++ (newBasename ++ extensionSeparator :: extensionOf path)) := by
    simp only [replaceBasename, splitFilename_of_scanned scanned.separators,
      splitExtension_of_scanned filename, extensionOf_filenameOf, Option.bind_eq_bind,
      Option.bind_some, join_directoryOf once, List.append_assoc, List.singleton_append]
  have newPlain : separator ∉ newBasename ++ extensionSeparator :: extensionOf path := by
    rw [List.mem_append, not_or, List.mem_cons, not_or]
    exact ⟨allowed.1, by decide, separator_not_mem_of_extension form⟩
  rw [replaced] at result
  obtain rfl := Option.some.inj result
  have separators := scanned_of_getDirectory (noRepeats.append newPlain)
    (newParts.directory.trans
      (congrArg (some ∘ dirPart) (frontOf_frontOf_append path newPlain).symm))
  have basename := newParts.basename
  rw [getBasename, getFilename, splitFilename_of_scanned separators, Option.map_some,
    Option.bind_some, filenameOf_frontOf_append path newPlain] at basename
  obtain ⟨⟨base, ext⟩, split, rfl⟩ := Option.map_eq_some_iff.mp basename
  obtain rfl := List.append_cancel_left (append_of_splitExtension split)
  obtain ⟨⟨stem, ext⟩, newSplit, isExt⟩ := Option.map_eq_some_iff.mp newParts.extension
  obtain rfl : ext = extensionOf path := isExt
  have cut : stem ++ extensionOf path =
      (frontOf path ++ (base ++ [extensionSeparator])) ++ extensionOf path := by
    rw [append_of_splitExtension newSplit]
    simp only [List.append_assoc, List.singleton_append]
  rw [List.append_cancel_right cut] at newSplit
  refine not_splitExtension_twice ?_ separators split newSplit
  exact form.imp_right fun ⟨ext, isExt, _⟩ => ⟨ext, isExt⟩

end

/-- **Replacing a part of a path** works for the filename and the extension, as long as the scans
begin behind what they look for, and never for the basename. -/
theorem replaces_iff (path : Bytes) (replacement : Replacement) (noRepeats : NoRepeats path)
    (allowed : replacement.Allowed path) :
    replacement.Replaces path ↔ replacement.InSight path := by
  cases replacement with
  | basename newBasename => exact iff_of_false (never_replacesBasename noRepeats allowed) id
  | filename newFilename => exact replacesFilename_iff noRepeats allowed
  | extension newExt => exact replacesExtension_iff noRepeats allowed

/-- An extension in another's place, of a path with a directory. -/
theorem replaces_extension :
    (Replacement.extension (ascii ".md")).Replaces (ascii "a/b.txt") ↔
      (Replacement.extension (ascii ".md")).InSight (ascii "a/b.txt") := by
  refine replaces_iff _ _ ?_ ⟨.inr ⟨ascii "md", rfl, by decide +kernel⟩, by decide +kernel⟩
  have apart : ¬ [separator, separator] <:+: ascii "a/b.txt" := by decide +kernel
  exact fun front back whole => apart ⟨front, back, whole.symm⟩

/-- A basename in another's place leaves a dot too many. -/
theorem not_replaces_basename :
    NoRepeats (ascii "a.txt") ∧ (Replacement.basename (ascii "b")).Allowed (ascii "a.txt") ∧
      ¬ (Replacement.basename (ascii "b")).Replaces (ascii "a.txt") := by
  refine ⟨?_, ⟨by decide +kernel, by decide +kernel⟩, ?_⟩
  · have apart : ¬ [separator, separator] <:+: ascii "a.txt" := by decide +kernel
    exact fun front back whole => apart ⟨front, back, whole.symm⟩
  · rintro ⟨-, res, result, parts⟩
    have written : replaceBasename (ascii "a.txt") (ascii "b") = some (ascii "b..txt") := by
      decide +kernel
    rw [written] at result
    obtain rfl := Option.some.inj result
    exact absurd parts.basename (by decide +kernel)

end Paths

end Xul
