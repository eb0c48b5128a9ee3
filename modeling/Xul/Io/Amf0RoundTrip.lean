import Xul.Io.Amf0

/-!
# Reading what was written

The reader of an object runs to the end of the input, so an object takes whatever follows
it: the entries behind a nested object are read into that one, and the values behind an
object are lost.  A `false` is read as `true`, an array is not read at all, and a key keeps
the low two bytes of its length.  Where none of this is met a value is read back
(`read_writeValue_iff`), and so is a sequence of values (`readMany_writeItems_iff`).
-/

set_option autoImplicit false

namespace Xul

open Foundation

namespace Amf0

variable {order : BitConverter}

/-- The values that are written: no string is too long, and the keys of an object are distinct
and without zero bytes. -/
inductive Writable : Variant → Prop
  | null : Writable .null
  | bool (val : Bool) : Writable (.bool val)
  | float (val : UInt64) : Writable (.float val)
  | string {val : Bytes} (short : val.length < 65536) : Writable (.string val)
  | list {items : List Variant} (each : ∀ item ∈ items, Writable item) : Writable (.list items)
  | dict {items : List (Bytes × Variant)} (distinct : (items.map Prod.fst).Nodup)
      (clean : ∀ item ∈ items, (0 : UInt8) ∉ item.1) (each : ∀ item ∈ items, Writable item.2) :
      Writable (.dict items)

/-- The values that are read back: there is no array, no `false` and no key of 65536 bytes or
more, and an object inside an object is its last entry. -/
inductive Faithful : Variant → Prop
  | null : Faithful .null
  | true : Faithful (.bool true)
  | float (val : UInt64) : Faithful (.float val)
  | string (val : Bytes) : Faithful (.string val)
  | dict {items : List (Bytes × Variant)} (short : ∀ item ∈ items, item.1.length < 65536)
      (each : ∀ item ∈ items, Faithful item.2)
      (nested : ∀ item ∈ items.dropLast, item.2.isDict = false) : Faithful (.dict items)

/-- What a value that is neither an array nor an object is read as. -/
def echo : Variant → Variant
  | .bool _ => .bool true
  | val => val

def IsScalar (val : Variant) : Prop := val.isList = false ∧ val.isDict = false

/-! ## Scalars and entries -/

theorem tryReadString_written {val : Bytes} (short : val.length < 65536) (rest : Bytes) :
    tryReadString order ⟨true, order.fromWord val.length ++ (val ++ rest)⟩ =
      (some val, ⟨true, rest⟩) := by
  rw [tryReadString, DataInputStream.readUint16_append short]
  exact DataInputStream.readN_append val rest

theorem read_marked (tag : UInt8) (rest : Bytes) :
    read order ⟨true, tag :: rest⟩ = readItem order (rest.length + 1) tag ⟨true, rest⟩ := by
  rw [read, readWith, if_pos (DataInputStream.isAvailable_one_cons ..)]
  rfl

/-- **A scalar is read, and what follows it is left.** -/
theorem read_scalar {val : Variant} (writable : Writable val) (scalar : IsScalar val)
    (rest : Bytes) :
    read order ⟨true, writeValue order val ++ rest⟩ = (some (echo val), ⟨true, rest⟩) := by
  cases writable with
  | null => exact read_marked amf0Null rest
  | bool val =>
      rw [writeValue, writeBool, List.cons_append, read_marked]
      rfl
  | float val =>
      rw [writeValue, writeNumber, List.cons_append, read_marked, readItem, if_neg (by decide),
        if_neg (by decide), if_pos rfl, readNumber, DataInputStream.readDouble_append]
      rfl
  | string short =>
      rw [writeValue, writeString, startBytes, List.cons_append, List.cons_append,
        List.append_assoc, read_marked, readItem, if_neg (by decide), if_neg (by decide),
        if_neg (by decide), if_pos rfl, readString, tryReadString_written short]
      rfl
  | list each => cases scalar.1
  | dict distinct clean each => cases scalar.2

/-- The end of an object is passed over. -/
theorem readDict_endDict (items : List (Bytes × Variant)) (rest : Bytes) :
    readDict order items ⟨true, endDict ++ rest⟩ = readDict order items ⟨true, rest⟩ := by
  have zero : order.fromWord 0 = [0, 0] := by
    obtain ⟨bigEndian⟩ := order
    cases bigEndian with
    | false => rfl
    | true => rfl
  have empty := @tryReadString_written order [] (by decide) (amf0EndOfObject :: rest)
  rw [List.length_nil, zero] at empty
  have unread : read order ⟨true, amf0EndOfObject :: rest⟩ = (none, ⟨true, rest⟩) :=
    read_marked amf0EndOfObject rest
  rw [readDict_eq, endDict, List.cons_append, if_pos (DataInputStream.isAvailable_one_cons ..)]
  simp only [List.cons_append, List.nil_append] at empty ⊢
  rw [empty]
  simp only [unread]

/-- The ends of the objects around an object. -/
def ends (count : Nat) : Bytes := (List.replicate count endDict).flatten

theorem endDict_append_ends (count : Nat) : endDict ++ ends count = ends (count + 1) := by
  rw [ends, ends, List.replicate_succ, List.flatten_cons]

theorem readDict_ends (items : List (Bytes × Variant)) (count : Nat) :
    readDict order items ⟨true, ends count⟩ = (some (.dict items), ⟨true, []⟩) := by
  induction count with
  | zero => rw [readDict_eq]; rfl
  | succ count ih => rw [← endDict_append_ends, readDict_endDict, ih]

theorem available_key (key rest : Bytes) :
    DataInputStream.isAvailable ⟨true, writeKey order key ++ rest⟩ 1 = true := by
  have length : (order.fromWord key.length).length = 2 :=
    BitConverter.length_fromInteger 2 order key.length
  simp only [DataInputStream.isAvailable, Bool.true_and, decide_eq_true_eq, writeKey,
    List.length_append, length]
  omega

/-- An entry whose value is a scalar is put into the object. -/
theorem readDict_entry {key : Bytes} {val : Variant} (short : key.length < 65536)
    (clean : (0 : UInt8) ∉ key) (writable : Writable val) (scalar : IsScalar val)
    (items : List (Bytes × Variant)) (rest : Bytes) :
    readDict order items ⟨true, writeKey order key ++ (writeValue order val ++ rest)⟩ =
      readDict order (insertEntry (fun _ new => new) key (echo val) items) ⟨true, rest⟩ := by
  rw [readDict_eq, if_pos (available_key ..), writeKey, List.append_assoc,
    tryReadString_written short]
  simp only [read_scalar writable scalar, Variant.set, cStr_of_no_zero clean]

/-- **A nested object takes what is left**, and is the last entry. -/
theorem readDict_object {key : Bytes} (short : key.length < 65536) (clean : (0 : UInt8) ∉ key)
    {body : Bytes} {all : List (Bytes × Variant)} {left : DataInputStream}
    (inner : readDict order [] ⟨true, body⟩ = (some (.dict all), left))
    (items : List (Bytes × Variant)) :
    readDict order items ⟨true, writeKey order key ++ amf0Object :: body⟩ =
      (some (.dict (insertEntry (fun _ new => new) key (.dict all) items)), left) := by
  obtain ⟨-, spent⟩ := @readDict_spent order [] ⟨true, body⟩
  rw [inner] at spent
  rw [readDict_eq, if_pos (available_key ..), writeKey, List.append_assoc,
    tryReadString_written short]
  simp only [read_object, inner, Variant.set, cStr_of_no_zero clean]
  rw [readDict_eq, if_neg (by rw [spent]; exact Bool.false_ne_true)]

/-- What can be an entry of an object that is read. -/
structure WritableEntry (item : Bytes × Variant) : Prop where
  short : item.1.length < 65536
  clean : (0 : UInt8) ∉ item.1
  writable : Writable item.2

def echoEntry (item : Bytes × Variant) : Bytes × Variant := (item.1, echo item.2)

/-- The entries with scalars are put in one after the other. -/
theorem readDict_entries {entries : List (Bytes × Variant)}
    (each : ∀ item ∈ entries, WritableEntry item) (scalars : ∀ item ∈ entries, IsScalar item.2)
    (items : List (Bytes × Variant)) (rest : Bytes) :
    readDict order items ⟨true, writeEntries order entries ++ rest⟩ =
      readDict order (insertAll (fun _ new => new) (entries.map echoEntry) items) ⟨true, rest⟩ := by
  induction entries generalizing items with
  | nil => rfl
  | cons item entries ih =>
      obtain ⟨⟨short, clean, writable⟩, later⟩ := List.forall_mem_cons.mp each
      obtain ⟨scalar, otherScalars⟩ := List.forall_mem_cons.mp scalars
      have first := @readDict_entry order _ _ short clean writable scalar items
        (writeEntries order entries ++ rest)
      have behind := ih later otherScalars
        (insertEntry (fun _ new => new) item.1 (echo item.2) items)
      rw [writeEntries, List.append_assoc, List.append_assoc, first, behind]
      rfl

/-- Entries without arrays are scalars up to the first object, if there is one. -/
theorem scalars_or_object {entries : List (Bytes × Variant)}
    (noList : ∀ item ∈ entries, item.2.isList = false) :
    (∀ item ∈ entries, IsScalar item.2) ∨
      ∃ before key inner after, entries = before ++ (key, .dict inner) :: after ∧
        ∀ item ∈ before, IsScalar item.2 := by
  induction entries with
  | nil => exact Or.inl fun _ nothing => absurd nothing List.not_mem_nil
  | cons item entries ih =>
      obtain ⟨key, val⟩ := item
      obtain ⟨notList, later⟩ := List.forall_mem_cons.mp noList
      by_cases scalar : IsScalar val
      · obtain all | ⟨before, other, inner, after, rfl, scalars⟩ := ih later
        · exact Or.inl (List.forall_mem_cons.mpr ⟨scalar, all⟩)
        · exact Or.inr ⟨(key, val) :: before, other, inner, after, rfl,
            List.forall_mem_cons.mpr ⟨scalar, scalars⟩⟩
      · cases val with
        | dict inner => exact Or.inr ⟨[], key, inner, entries, rfl, fun _ nothing =>
            absurd nothing List.not_mem_nil⟩
        | list items => exact absurd notList nofun
        | null => exact absurd ⟨rfl, rfl⟩ scalar
        | bool val => exact absurd ⟨rfl, rfl⟩ scalar
        | float val => exact absurd ⟨rfl, rfl⟩ scalar
        | string val => exact absurd ⟨rfl, rfl⟩ scalar

theorem writeEntries_append (before after : List (Bytes × Variant)) :
    writeEntries order (before ++ after) =
      writeEntries order before ++ writeEntries order after := by
  induction before with
  | nil => rfl
  | cons item before ih =>
      rw [List.cons_append, writeEntries, writeEntries, ih]
      simp only [List.append_assoc]

theorem writeValue_dict (items : List (Bytes × Variant)) (rest : Bytes) :
    writeValue order (.dict items) ++ rest =
      amf0Object :: (writeEntries order items ++ (endDict ++ rest)) := by
  rw [writeValue, startDict, List.append_assoc, List.append_assoc]
  rfl

/-- An object whose entries are scalars, in front of the ends of those around it. -/
theorem read_flat {items : List (Bytes × Variant)} (each : ∀ item ∈ items, WritableEntry item)
    (scalars : ∀ item ∈ items, IsScalar item.2) (count : Nat) :
    read order ⟨true, writeValue order (.dict items) ++ ends count⟩ =
      (some (.dict (insertAll (fun _ new => new) (items.map echoEntry) [])), ⟨true, []⟩) := by
  rw [writeValue_dict, read_object, endDict_append_ends, readDict_entries each scalars,
    readDict_ends]

/-- An object with an object inside: what is read of that one is its last entry. -/
theorem read_nested {before after inner : List (Bytes × Variant)} {key : Bytes}
    (each : ∀ item ∈ before, WritableEntry item) (scalars : ∀ item ∈ before, IsScalar item.2)
    (short : key.length < 65536) (clean : (0 : UInt8) ∉ key) (rest : Bytes) :
    ∃ all left, read order ⟨true, writeValue order (.dict inner) ++
          (writeEntries order after ++ (endDict ++ rest))⟩ = (some (.dict all), left) ∧
      read order ⟨true, writeValue order (.dict (before ++ (key, .dict inner) :: after)) ++ rest⟩ =
        (some (.dict (insertAll (fun _ new => new)
          (before.map echoEntry ++ [(key, .dict all)]) [])), left) := by
  have body := @writeValue_dict order inner (writeEntries order after ++ (endDict ++ rest))
  obtain ⟨⟨all, isDict⟩, -⟩ := @readDict_spent order []
    ⟨true, writeEntries order inner ++
      (endDict ++ (writeEntries order after ++ (endDict ++ rest)))⟩
  refine ⟨all, (readDict order [] ⟨true, writeEntries order inner ++
      (endDict ++ (writeEntries order after ++ (endDict ++ rest)))⟩).2, ?_, ?_⟩
  · rw [body, read_object, ← isDict]
  · have object := @readDict_object order key short clean _ all _
      (Prod.ext isDict rfl) (insertAll (fun _ new => new) (before.map echoEntry) [])
    rw [writeValue_dict, read_object, writeEntries_append, List.append_assoc,
      readDict_entries each scalars, writeEntries, List.append_assoc, List.append_assoc, body,
      object, insertAll, insertAll, List.foldl_append]
    rfl

/-! ## What is read back -/

/-- A scalar is read as it was written exactly if it is no `false`. -/
theorem echo_eq_sorted {val : Variant} (scalar : IsScalar val) :
    echo val = val.sorted ↔ Faithful val := by
  cases val with
  | null => exact ⟨fun _ => .null, fun _ => rfl⟩
  | bool val =>
      cases val with
      | true => exact ⟨fun _ => .true, fun _ => rfl⟩
      | false => exact ⟨nofun, nofun⟩
  | float val => exact ⟨fun _ => .float val, fun _ => rfl⟩
  | string val => exact ⟨fun _ => .string val, fun _ => rfl⟩
  | list items => exact absurd scalar.1 nofun
  | dict items => exact absurd scalar.2 nofun

theorem isList_of_faithful {val : Variant} (faithful : Faithful val) : val.isList = false := by
  cases faithful with
  | null => rfl
  | true => rfl
  | float val => rfl
  | string val => rfl
  | dict short each nested => rfl

theorem keys_echoEntry (items : List (Bytes × Variant)) :
    (items.map echoEntry).map Prod.fst = items.map Prod.fst := by
  rw [List.map_map]
  rfl

/-- Entries with faithful scalars are read as they were written. -/
theorem echoEntries_eq_sortedEntries {items : List (Bytes × Variant)}
    (scalars : ∀ item ∈ items, IsScalar item.2) (each : ∀ item ∈ items, Faithful item.2) :
    items.map echoEntry = Variant.sortedEntries items := by
  rw [Variant.sortedEntries_eq_map]
  apply List.map_congr_left
  intro item member
  rw [echoEntry, (echo_eq_sorted (scalars item member)).mpr (each item member)]

/-- **A faithful value is read back, up to the ends of the objects around it.** -/
theorem read_of_faithful {val : Variant} (faithful : Faithful val) (writable : Writable val)
    (count : Nat) :
    read order ⟨true, writeValue order val ++ ends count⟩ =
      (some val.sorted, ⟨true, if val.isDict then [] else ends count⟩) := by
  induction faithful generalizing count with
  | null => exact read_scalar writable ⟨rfl, rfl⟩ _
  | true => exact read_scalar writable ⟨rfl, rfl⟩ _
  | float val => exact read_scalar writable ⟨rfl, rfl⟩ _
  | string val => exact read_scalar writable ⟨rfl, rfl⟩ _
  | @dict items short each nested ih =>
      cases writable with
      | dict distinct clean writable =>
          have entries : ∀ item ∈ items, WritableEntry item := fun item member =>
            ⟨short item member, clean item member, writable item member⟩
          have noList : ∀ item ∈ items, item.2.isList = false := fun item member =>
            isList_of_faithful (each item member)
          rw [Variant.sorted]
          obtain scalars | ⟨before, key, inner, after, rfl, scalars⟩ := scalars_or_object noList
          · rw [read_flat entries scalars, echoEntries_eq_sortedEntries scalars each,
              insertAll_eq_sortEntries (by rw [Variant.keys_sortedEntries]; exact distinct)]
            rfl
          · have last : after = [] := by
              by_contra more
              have inside : (key, Variant.dict inner) ∈
                  (before ++ (key, Variant.dict inner) :: after).dropLast := by
                rw [List.dropLast_append_of_ne_nil (List.cons_ne_nil _ _),
                  List.dropLast_cons_of_ne_nil more]
                exact List.mem_append_right _ (List.mem_cons_self ..)
              exact absurd (nested _ inside) nofun
            subst last
            have member : (key, Variant.dict inner) ∈ before ++ [(key, Variant.dict inner)] :=
              List.mem_append_right _ (List.mem_cons_self ..)
            obtain ⟨all, left, innerRead, outerRead⟩ :=
              @read_nested order before [] inner key
                (fun item inside => entries item (List.mem_append_left _ inside)) scalars
                (short _ member) (clean _ member) (ends count)
            rw [writeEntries, List.nil_append, endDict_append_ends,
              ih _ member (writable _ member)] at innerRead
            obtain ⟨same, rfl⟩ := Prod.mk.inj innerRead
            have echoes : before.map echoEntry = Variant.sortedEntries before :=
              echoEntries_eq_sortedEntries scalars
                fun item inside => each item (List.mem_append_left _ inside)
            have whole : Variant.sortedEntries (before ++ [(key, Variant.dict inner)]) =
                before.map echoEntry ++ [(key, .dict all)] := by
              rw [echoes, Variant.sortedEntries_eq_map, List.map_append,
                ← Variant.sortedEntries_eq_map, ← Option.some.inj same]
              rfl
            rw [outerRead, whole, insertAll_eq_sortEntries (by
              rw [← whole, Variant.keys_sortedEntries]
              exact distinct)]
            rfl

/-! ## What the reader can return -/

/-- The values that are read from any input: there is no array, strings and keys have less than
65536 bytes, and the keys of an object are distinct and without zero bytes. -/
inductive Readable : Variant → Prop
  | null : Readable .null
  | bool (val : Bool) : Readable (.bool val)
  | float (val : UInt64) : Readable (.float val)
  | string {val : Bytes} (short : val.length < 65536) : Readable (.string val)
  | dict {items : List (Bytes × Variant)} (distinct : (items.map Prod.fst).Nodup)
      (clean : ∀ item ∈ items, (0 : UInt8) ∉ item.1)
      (short : ∀ item ∈ items, item.1.length < 65536)
      (each : ∀ item ∈ items, Readable item.2) : Readable (.dict items)

theorem isList_of_readable {val : Variant} (readable : Readable val) : val.isList = false := by
  cases readable with
  | null => rfl
  | bool val => rfl
  | float val => rfl
  | string short => rfl
  | dict distinct clean short each => rfl

/-- What is read can be written. -/
theorem writable_of_readable {val : Variant} (readable : Readable val) : Writable val := by
  induction readable with
  | null => exact .null
  | bool val => exact .bool val
  | float val => exact .float val
  | string short => exact .string short
  | dict distinct clean short each ih => exact .dict distinct clean ih

theorem length_of_tryReadString {s left : DataInputStream} {val : Bytes}
    (isRead : tryReadString order s = (some val, left)) : val.length < 65536 := by
  rw [tryReadString] at isRead
  split at isRead
  · cases isRead
  · next len behind two =>
      rw [DataInputStream.length_of_readN isRead]
      exact DataInputStream.lt_of_readUint16 two

/-- The entries of an object that is being read are in the order of their keys. -/
structure ReadableEntries (items : List (Bytes × Variant)) : Prop where
  ordered : Ordered items
  clean : ∀ item ∈ items, (0 : UInt8) ∉ item.1
  short : ∀ item ∈ items, item.1.length < 65536
  each : ∀ item ∈ items, Readable item.2

theorem ReadableEntries.nil : ReadableEntries [] :=
  ⟨.nil, fun _ nothing => absurd nothing List.not_mem_nil,
    fun _ nothing => absurd nothing List.not_mem_nil,
    fun _ nothing => absurd nothing List.not_mem_nil⟩

theorem ReadableEntries.dict {items : List (Bytes × Variant)} (entries : ReadableEntries items) :
    Readable (.dict items) :=
  .dict (nodup_of_ordered entries.ordered) entries.clean entries.short entries.each

theorem ReadableEntries.set {items : List (Bytes × Variant)} (entries : ReadableEntries items)
    {key : Bytes} (short : key.length < 65536) {val : Variant} (readable : Readable val) :
    ReadableEntries (Variant.set key val items) := by
  have cut : (cStr key).length < 65536 :=
    Nat.lt_of_le_of_lt (List.takeWhile_sublist _).length_le short
  refine ⟨ordered_insertEntry entries.ordered, ?_, ?_, ?_⟩
  · intro item member
    obtain old | ⟨new, -⟩ := mem_insertEntry member
    · exact entries.clean item old
    · rw [new]
      exact zero_not_mem_cStr key
  · intro item member
    obtain old | ⟨new, -⟩ := mem_insertEntry member
    · exact entries.short item old
    · rw [new]
      exact cut
  · intro item member
    obtain old | ⟨-, new | ⟨-, new⟩⟩ := mem_insertEntry member
    · exact entries.each item old
    · exact new ▸ readable
    · exact new ▸ readable

section

variable {readOne : UInt8 → DataInputStream → Option Variant × DataInputStream}
  (readables : ∀ {tag s val}, (readOne tag s).1 = some val → Readable val)
include readables

theorem readable_of_readWith {s : DataInputStream} {val : Variant}
    (isRead : (readWith readOne s).1 = some val) : Readable val := by
  rw [readWith] at isRead
  split at isRead
  · exact readables isRead
  · cases isRead

theorem readable_of_readDictLoop {turns : Nat} {items : List (Bytes × Variant)}
    (so : ReadableEntries items) {s : DataInputStream} {val : Variant}
    (isRead : (readDictLoop order readOne turns items s).1 = some val) : Readable val := by
  induction turns generalizing items s with
  | zero => exact Option.some.inj isRead ▸ so.dict
  | succ turns ih =>
      rw [readDictLoop] at isRead
      split at isRead
      · split at isRead
        · exact Option.some.inj isRead ▸ so.dict
        · next key left read =>
            split at isRead
            · exact ih so isRead
            · next item after itemRead =>
                have readable : Readable item := by
                  apply readable_of_readWith readables
                  rw [itemRead]
                exact ih (so.set (length_of_tryReadString read) readable) isRead
      · exact Option.some.inj isRead ▸ so.dict

end

theorem readListLoop_none
    (readOne : UInt8 → DataInputStream → Option Variant × DataInputStream) (turns : Nat)
    (items : List Variant) (s : DataInputStream) :
    (readListLoop readOne turns items s).1 = none := by
  induction turns generalizing items s with
  | zero => rfl
  | succ turns ih =>
      rw [readListLoop]
      split
      · split <;> exact ih _ _
      · rfl

theorem readable_of_readItem {depth : Nat} {tag : UInt8} {s : DataInputStream} {val : Variant}
    (isRead : (readItem order depth tag s).1 = some val) : Readable val := by
  induction depth generalizing tag s val with
  | zero => cases isRead
  | succ depth ih =>
      rw [readItem] at isRead
      split at isRead
      · exact Option.some.inj isRead ▸ .null
      · split at isRead
        · exact Option.some.inj isRead ▸ .bool _
        · split at isRead
          · rw [readNumber] at isRead
            split at isRead
            · cases isRead
            · exact Option.some.inj isRead ▸ .float _
          · split at isRead
            · rw [readString] at isRead
              split at isRead
              · cases isRead
              · next read =>
                  exact Option.some.inj isRead ▸ .string (length_of_tryReadString read)
            · split at isRead
              · rw [readListLoop_none] at isRead
                cases isRead
              · split at isRead
                · exact readable_of_readDictLoop ih .nil isRead
                · cases isRead

theorem readable_of_read {s : DataInputStream} {val : Variant}
    (isRead : (read order s).1 = some val) : Readable val := by
  exact readable_of_readWith readable_of_readItem isRead

/-- What is readable in the order of its keys is readable in any order. -/
theorem readable_of_sorted {sorted : Variant} (readable : Readable sorted) {val : Variant}
    (same : val.sorted = sorted) : Readable val := by
  induction readable generalizing val with
  | null =>
      cases val with
      | null => exact .null
      | _ => exact absurd same nofun
  | bool flag =>
      cases val with
      | bool val => exact .bool val
      | _ => exact absurd same nofun
  | float bits =>
      cases val with
      | float val => exact .float val
      | _ => exact absurd same nofun
  | @string text short =>
      cases val with
      | string val => exact Variant.string.inj same ▸ .string short
      | _ => exact absurd same nofun
  | @dict entries distinct clean short each ih =>
      cases val with
      | dict items =>
          rw [Variant.sorted] at same
          have perm : entries.Perm (Variant.sortedEntries items) :=
            Variant.dict.inj same ▸ sortEntries_perm _
          have inside : ∀ item ∈ items, (item.1, item.2.sorted) ∈ entries := fun item member =>
            perm.symm.subset (Variant.mem_sortedEntries member)
          refine .dict ?_ (fun item member => clean (item.1, item.2.sorted) (inside item member))
            (fun item member => short (item.1, item.2.sorted) (inside item member))
            fun item member => ih (item.1, item.2.sorted) (inside item member) rfl
          rw [← Variant.keys_sortedEntries]
          exact (perm.map Prod.fst).nodup_iff.mp distinct
      | _ => exact absurd same nofun

/-! ## What is not read back -/

/-- What is read under a key is what was written under it. -/
theorem eq_sorted_of_perm {items entries : List (Bytes × Variant)}
    (distinct : (items.map Prod.fst).Nodup) (perm : entries.Perm (Variant.sortedEntries items))
    {key : Bytes} {val other : Variant} (written : (key, val) ∈ items)
    (isRead : (key, other) ∈ entries) : other = val.sorted := by
  apply @value_unique Bytes Variant key other (Variant.sortedEntries items)
  · rw [Variant.keys_sortedEntries]
    exact distinct
  · exact perm.subset isRead
  · exact Variant.mem_sortedEntries written

/-- **A value that is read back is faithful**, if it is one that can be read at all. -/
theorem faithful_of_read {val : Variant} (readable : Readable val) (count : Nat)
    (isRead : (read order ⟨true, writeValue order val ++ ends count⟩).1 = some val.sorted) :
    Faithful val := by
  have scalarCase : IsScalar val → Faithful val := by
    intro scalar
    rw [read_scalar (writable_of_readable readable) scalar] at isRead
    exact (echo_eq_sorted scalar).mp (Option.some.inj isRead)
  induction readable generalizing count with
  | null => exact .null
  | bool val => exact scalarCase ⟨rfl, rfl⟩
  | float val => exact .float val
  | @string val short => exact .string val
  | @dict items distinct clean short each ih =>
      have entries : ∀ item ∈ items, WritableEntry item := fun item member =>
        ⟨short item member, clean item member, writable_of_readable (each item member)⟩
      have noList : ∀ item ∈ items, item.2.isList = false := fun item member =>
        isList_of_readable (each item member)
      have keys : ((Variant.sortedEntries items).map Prod.fst).Nodup := by
        rw [Variant.keys_sortedEntries]
        exact distinct
      rw [Variant.sorted, ← @insertAll_eq_sortEntries _ _ _ (fun _ new => new) _ keys] at isRead
      obtain scalars | ⟨before, key, inner, after, rfl, scalars⟩ := scalars_or_object noList
      · rw [read_flat entries scalars] at isRead
        have perm := perm_of_insertAll_eq (by rw [keys_echoEntry]; exact distinct) keys
          (Variant.dict.inj (Option.some.inj isRead))
        refine .dict short ?_ ?_
        · intro item member
          apply (echo_eq_sorted (scalars item member)).mp
          exact eq_sorted_of_perm distinct perm member (List.mem_map.mpr ⟨item, member, rfl⟩)
        · intro item member
          exact (scalars item (List.dropLast_subset _ member)).2
      · have member : (key, Variant.dict inner) ∈ before ++ (key, Variant.dict inner) :: after :=
          List.mem_append_right _ (List.mem_cons_self ..)
        obtain ⟨all, left, innerRead, outerRead⟩ :=
          @read_nested order before after inner key
            (fun item inside => entries item (List.mem_append_left _ inside)) scalars
            (short _ member) (clean _ member) (ends count)
        rw [outerRead] at isRead
        have fewer : ((before.map echoEntry ++ [(key, Variant.dict all)]).map Prod.fst).Nodup := by
          rw [List.map_append] at distinct
          rw [List.map_append, keys_echoEntry]
          exact distinct.sublist (((List.nil_sublist _).cons_cons key).append_left _)
        have perm := perm_of_insertAll_eq fewer keys (Variant.dict.inj (Option.some.inj isRead))
        -- nothing behind the nested object is an entry of this one
        have last : after = [] := by
          have length := perm.length_eq
          rw [Variant.sortedEntries_eq_map] at length
          simp only [List.length_append, List.length_map, List.length_cons,
            List.length_nil] at length
          exact List.eq_nil_of_length_eq_zero (by omega)
        subst last
        have taken : Variant.dict all = (Variant.dict inner).sorted :=
          eq_sorted_of_perm distinct perm member (List.mem_append_right _ (List.mem_cons_self ..))
        rw [writeEntries, List.nil_append, endDict_append_ends, taken] at innerRead
        have innerFaithful : Faithful (.dict inner) :=
          ih _ member (count + 1) (by rw [innerRead])
            fun scalar => absurd scalar.2 nofun
        refine .dict short (List.forall_mem_append.mpr ⟨?_,
          List.forall_mem_singleton.mpr innerFaithful⟩) ?_
        · intro item inside
          apply (echo_eq_sorted (scalars item inside)).mp
          exact eq_sorted_of_perm distinct perm (List.mem_append_left _ inside)
            (List.mem_append_left _ (List.mem_map.mpr ⟨item, inside, rfl⟩))
        · rw [List.dropLast_concat]
          exact fun item inside => (scalars item inside).2

/-- **A value is read back exactly if it is faithful.** -/
theorem read_writeValue_iff (order : BitConverter) {val : Variant} (writable : Writable val) :
    (read order ⟨true, writeValue order val⟩).1 = some val.sorted ↔ Faithful val := by
  have whole : writeValue order val ++ ends 0 = writeValue order val := List.append_nil _
  constructor
  · intro isRead
    have readable := readable_of_sorted (readable_of_read isRead) rfl
    exact faithful_of_read readable 0 (by rw [whole]; exact isRead)
  · intro faithful
    have isRead := @read_of_faithful order val faithful writable 0
    rw [whole] at isRead
    rw [isRead]

theorem read_writeValue_iff_nested :
    (read ⟨true⟩ ⟨true, writeValue ⟨true⟩
        (.dict [(ascii "b", .null), (ascii "a", .dict [(ascii "c", .float 7)])])⟩).1 =
        some (Variant.sorted (.dict [(ascii "b", .null), (ascii "a", .dict [(ascii "c", .float 7)])])) ↔
      Faithful (.dict [(ascii "b", .null), (ascii "a", .dict [(ascii "c", .float 7)])]) := by
  have inner : Writable (.dict [(ascii "c", .float 7)]) := by
    apply Writable.dict (by decide +kernel)
    · exact List.forall_mem_singleton.mpr (by decide +kernel)
    · exact List.forall_mem_singleton.mpr (.float 7)
  apply read_writeValue_iff
  apply Writable.dict (by decide +kernel)
  · exact List.forall_mem_cons.mpr ⟨by decide +kernel,
      List.forall_mem_singleton.mpr (by decide +kernel)⟩
  · exact List.forall_mem_cons.mpr ⟨.null, List.forall_mem_singleton.mpr inner⟩

/-- A `false` is read as `true`, an empty array is not read, and an object behind which there is
another entry takes that entry. -/
theorem false_not_read_back :
    (read ⟨true⟩ ⟨true, writeValue ⟨true⟩ (.bool false)⟩).1 = some (.bool true) ∧
      (read ⟨true⟩ ⟨true, writeValue ⟨true⟩ (.bool false)⟩).1 ≠
        some (Variant.sorted (.bool false)) ∧
      (read ⟨true⟩ ⟨true, writeValue ⟨true⟩ (.list [])⟩).1 = none := by
  have isTrue :
      (read ⟨true⟩ ⟨true, writeValue ⟨true⟩ (.bool false)⟩).1 = some (.bool true) := by rfl
  refine ⟨isTrue, ?_, read_array ⟨true⟩ []⟩
  rw [isTrue]
  exact nofun

/-! ## Sequences of values -/

/-- The sequences that are read back: every value can be written and is read back, and only the
last may be an object. -/
structure Framed (values : List Variant) : Prop where
  writable : ∀ val ∈ values, Writable val
  each : ∀ val ∈ values, Faithful val
  last : ∀ val ∈ values.dropLast, val.isDict = false

theorem readManyLoop_append (turns : Nat) (vars : List Variant) (s : DataInputStream) :
    readManyLoop order turns vars s =
      (vars ++ (readManyLoop order turns [] s).1, (readManyLoop order turns [] s).2) := by
  induction turns generalizing vars s with
  | zero => rw [readManyLoop, readManyLoop, List.append_nil]
  | succ turns ih =>
      rw [readManyLoop, readManyLoop]
      split
      · rw [List.append_nil]
      · next var left read =>
          rw [ih (vars ++ [var]), ih ([] ++ [var]), List.append_assoc, List.nil_append]

theorem writeValue_ne_nil (order : BitConverter) (val : Variant) : writeValue order val ≠ [] := by
  cases val with
  | null => exact List.cons_ne_nil _ _
  | bool val => exact List.cons_ne_nil _ _
  | float val => exact List.cons_ne_nil _ _
  | string val => exact List.cons_ne_nil _ _
  | list items => exact List.cons_ne_nil _ _
  | dict items => exact List.cons_ne_nil _ _

theorem length_le_writeItems (values : List Variant) :
    values.length ≤ (writeItems order values).length := by
  induction values with
  | nil => exact Nat.zero_le _
  | cons val values ih =>
      have some := List.length_pos_iff.mpr (writeValue_ne_nil order val)
      rw [writeItems, List.length_append, List.length_cons]
      omega

theorem framed_cons {val : Variant} {values : List Variant} (notDict : val.isDict = false) :
    Framed (val :: values) ↔ (Writable val ∧ Faithful val) ∧ Framed values := by
  constructor
  · rintro ⟨writable, each, last⟩
    obtain ⟨firstWritable, laterWritable⟩ := List.forall_mem_cons.mp writable
    obtain ⟨first, later⟩ := List.forall_mem_cons.mp each
    refine ⟨⟨firstWritable, first⟩, laterWritable, later, ?_⟩
    intro other member
    cases values with
    | nil => exact absurd member List.not_mem_nil
    | cons next values => exact last other (List.mem_cons_of_mem _ member)
  · rintro ⟨⟨firstWritable, first⟩, laterWritable, later, last⟩
    refine ⟨List.forall_mem_cons.mpr ⟨firstWritable, laterWritable⟩,
      List.forall_mem_cons.mpr ⟨first, later⟩, ?_⟩
    intro other member
    cases values with
    | nil => exact absurd member List.not_mem_nil
    | cons next values =>
        obtain rfl | member := List.mem_cons.mp member
        · exact notDict
        · exact last other member

/-- An object takes what is behind it, so it is the last value that is read. -/
theorem readManyLoop_object {items : List (Bytes × Variant)} (writable : Writable (.dict items))
    (values : List Variant) {turns : Nat} (more : 0 < turns) :
    ((readManyLoop order (turns + 1) [] ⟨true, writeItems order (.dict items :: values)⟩).1 =
        (Variant.dict items :: values).map Variant.sorted → Framed (.dict items :: values)) ∧
      (Framed (.dict items :: values) →
        readManyLoop order (turns + 1) [] ⟨true, writeItems order (.dict items :: values)⟩ =
          ((Variant.dict items :: values).map Variant.sorted, ⟨true, []⟩)) := by
  obtain ⟨⟨all, isDict⟩, spent⟩ := @readDict_spent order []
    ⟨true, writeEntries order items ++ (endDict ++ writeItems order values)⟩
  have ends : ∃ left, readManyLoop order (turns + 1) []
      ⟨true, writeItems order (.dict items :: values)⟩ = ([.dict all], left) ∧
        read order ⟨true, writeItems order (.dict items :: values)⟩ = (some (.dict all), left) := by
    refine ⟨(readDict order [] ⟨true, writeEntries order items ++
      (endDict ++ writeItems order values)⟩).2, ?_⟩
    have first : read order ⟨true, writeItems order (.dict items :: values)⟩ =
        (some (.dict all), (readDict order [] ⟨true, writeEntries order items ++
          (endDict ++ writeItems order values)⟩).2) := by
      rw [writeItems, writeValue_dict, read_object]
      exact Prod.ext isDict rfl
    refine ⟨?_, first⟩
    obtain ⟨turns, rfl⟩ := Nat.exists_eq_succ_of_ne_zero more.ne'
    rw [readManyLoop, first]
    dsimp only
    rw [readManyLoop, read_spent spent]
    rfl
  obtain ⟨left, many, one⟩ := ends
  rw [many]
  constructor
  · intro same
    obtain ⟨isSorted, none⟩ := List.cons.inj same
    obtain rfl := List.map_eq_nil_iff.mp none.symm
    have isRead : (read order ⟨true, writeValue order (.dict items) ++ Amf0.ends 0⟩).1 =
        some (Variant.sorted (.dict items)) := by
      rw [writeItems, writeItems] at one
      rw [← isSorted]
      exact congrArg Prod.fst one
    have readable := readable_of_sorted (readable_of_read isRead) rfl
    exact ⟨List.forall_mem_singleton.mpr writable,
      List.forall_mem_singleton.mpr (faithful_of_read readable 0 isRead),
      fun _ nothing => absurd nothing List.not_mem_nil⟩
  · rintro ⟨-, each, last⟩
    have none : values = [] := by
      by_contra more
      have inside : Variant.dict items ∈ (Variant.dict items :: values).dropLast := by
        rw [List.dropLast_cons_of_ne_nil more]
        exact List.mem_cons_self ..
      exact absurd (last _ inside) nofun
    subst none
    have isRead := @read_of_faithful order _ (each _ (List.mem_cons_self ..)) writable 0
    rw [writeItems, writeItems] at one
    obtain ⟨same, isLeft⟩ := Prod.mk.inj (one.symm.trans isRead)
    rw [isLeft, Option.some.inj same]
    rfl

theorem readManyLoop_writeItems {values : List Variant}
    (writable : ∀ val ∈ values, Writable val) {turns : Nat} (enough : values.length < turns) :
    ((readManyLoop order turns [] ⟨true, writeItems order values⟩).1 =
        values.map Variant.sorted → Framed values) ∧
      (Framed values → readManyLoop order turns [] ⟨true, writeItems order values⟩ =
        (values.map Variant.sorted, ⟨true, []⟩)) := by
  induction values generalizing turns with
  | nil =>
      cases turns with
      | zero => exact absurd enough (Nat.not_lt_zero _)
      | succ turns =>
          rw [readManyLoop, writeItems, read_spent (DataInputStream.spent_nil true)]
          exact ⟨fun _ => ⟨fun _ nothing => absurd nothing List.not_mem_nil,
            fun _ nothing => absurd nothing List.not_mem_nil,
            fun _ nothing => absurd nothing List.not_mem_nil⟩, fun _ => rfl⟩
  | cons val values ih =>
      obtain ⟨first, later⟩ := List.forall_mem_cons.mp writable
      cases turns with
      | zero => exact absurd enough (Nat.not_lt_zero _)
      | succ turns =>
          have fewer : values.length < turns := Nat.lt_of_succ_lt_succ enough
          by_cases scalar : IsScalar val
          · obtain ⟨forth, back⟩ := ih later fewer
            rw [framed_cons scalar.2, ← echo_eq_sorted scalar, readManyLoop, writeItems,
              read_scalar first scalar]
            dsimp only
            rw [readManyLoop_append, List.nil_append, List.map_cons, List.singleton_append]
            constructor
            · intro same
              obtain ⟨isEcho, others⟩ := List.cons.inj same
              exact ⟨⟨first, isEcho⟩, forth others⟩
            · rintro ⟨⟨-, isEcho⟩, framed⟩
              rw [back framed, isEcho]
          · cases val with
            | dict items => exact readManyLoop_object first values (by omega)
            | list items =>
                have array := read_array order
                  (writeItems order items ++ (endList ++ writeItems order values))
                have unread : (read order ⟨true, writeItems order (.list items :: values)⟩).1 =
                    none := by
                  rw [writeItems, writeValue, startList, List.append_assoc, List.append_assoc]
                  exact array
                constructor
                · intro same
                  rw [readManyLoop] at same
                  split at same
                  · exact absurd same nofun
                  · next read =>
                      rw [read] at unread
                      exact absurd unread nofun
                · rintro ⟨-, each, -⟩
                  exact absurd (isList_of_faithful (each _ (List.mem_cons_self ..))) nofun
            | null => exact absurd ⟨rfl, rfl⟩ scalar
            | bool val => exact absurd ⟨rfl, rfl⟩ scalar
            | float val => exact absurd ⟨rfl, rfl⟩ scalar
            | string val => exact absurd ⟨rfl, rfl⟩ scalar

/-- All values that are read are some that can be read. -/
theorem readable_of_readManyLoop {turns : Nat} {s : DataInputStream} {val : Variant}
    (isRead : val ∈ (readManyLoop order turns [] s).1) : Readable val := by
  induction turns generalizing s with
  | zero => exact absurd isRead List.not_mem_nil
  | succ turns ih =>
      rw [readManyLoop] at isRead
      split at isRead
      · exact absurd isRead List.not_mem_nil
      · next var left read =>
          rw [readManyLoop_append, List.nil_append, List.singleton_append] at isRead
          obtain rfl | later := List.mem_cons.mp isRead
          · exact readable_of_read (congrArg Prod.fst read)
          · exact ih later

/-- Values that are read back can be written. -/
theorem writable_of_readMany {values : List Variant} {s : DataInputStream}
    (same : (readMany order s).1 = values.map Variant.sorted) : ∀ val ∈ values, Writable val := by
  intro val member
  have isRead : val.sorted ∈ (readMany order s).1 := same ▸ List.mem_map_of_mem member
  exact writable_of_readable (readable_of_sorted (readable_of_readManyLoop isRead) rfl)

/-- **A sequence of values is read back exactly if it is framed**; then the reader stops behind
the last of them. -/
theorem readMany_writeItems_iff (order : BitConverter) (values : List Variant) :
    ((readMany order ⟨true, writeItems order values⟩).1 = values.map Variant.sorted ↔
        Framed values) ∧
      (Framed values → (readMany order ⟨true, writeItems order values⟩).2 = ⟨true, []⟩) := by
  have enough := Nat.lt_succ_of_le (@length_le_writeItems order values)
  have back : Framed values → readMany order ⟨true, writeItems order values⟩ =
      (values.map Variant.sorted, ⟨true, []⟩) := fun framed =>
    (readManyLoop_writeItems framed.writable enough).2 framed
  refine ⟨⟨?_, fun framed => congrArg Prod.fst (back framed)⟩,
    fun framed => congrArg Prod.snd (back framed)⟩
  intro same
  exact (readManyLoop_writeItems (writable_of_readMany same) enough).1 same

theorem readMany_writeItems_iff_object :
    readMany ⟨true⟩ ⟨true, writeItems ⟨true⟩ [.null, .dict [(ascii "a", .string [7])]]⟩ =
      ([.null, .dict [(ascii "a", .string [7])]].map Variant.sorted, ⟨true, []⟩) := by
  have entry : Writable (.dict [(ascii "a", .string [7])]) ∧
      Faithful (.dict [(ascii "a", .string [7])]) := by
    constructor
    · apply Writable.dict (by decide +kernel)
      · exact List.forall_mem_singleton.mpr (by decide +kernel)
      · exact List.forall_mem_singleton.mpr (.string (by decide))
    · apply Faithful.dict
      · exact List.forall_mem_singleton.mpr (by decide +kernel)
      · exact List.forall_mem_singleton.mpr (.string _)
      · exact fun _ nothing => absurd nothing List.not_mem_nil
  have framed : Framed [.null, .dict [(ascii "a", .string [7])]] :=
    ⟨List.forall_mem_cons.mpr ⟨.null, List.forall_mem_singleton.mpr entry.1⟩,
      List.forall_mem_cons.mpr ⟨.null, List.forall_mem_singleton.mpr entry.2⟩,
      List.forall_mem_singleton.mpr rfl⟩
  have readBack := readMany_writeItems_iff ⟨true⟩ [.null, .dict [(ascii "a", .string [7])]]
  exact Prod.ext (readBack.1.mpr framed) (readBack.2 framed)

/-- A null behind an empty object is lost, and the stream is bad. -/
theorem null_behind_object_lost :
    readMany ⟨true⟩ ⟨true, writeItems ⟨true⟩ [.dict [], .null]⟩ = ([.dict []], ⟨false, [5]⟩) ∧
      (readMany ⟨true⟩ ⟨true, writeItems ⟨true⟩ [.dict [], .null]⟩).1 ≠
        [.dict [], .null].map Variant.sorted := by
  have lost : readMany ⟨true⟩ ⟨true, writeItems ⟨true⟩ [.dict [], .null]⟩ =
      ([.dict []], ⟨false, [5]⟩) := by rfl
  refine ⟨lost, ?_⟩
  rw [lost]
  exact nofun

end Amf0

end Xul
