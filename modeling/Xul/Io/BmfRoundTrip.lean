import Xul.Io.Bmf

/-!
# Reading what was written

A value that can be written is read back as the same value, its dictionaries in the order of
their keys, and the reader stops where the value ends (`read_writeValue`).
-/

set_option autoImplicit false

namespace Xul

open Foundation

namespace Bmf

/-- The values that are written and read: no string is too long, and the keys of a dictionary
are distinct. -/
inductive Writable : Any → Prop
  | integer (val : Int64) : Writable (.integer val)
  | string {s : Bytes} (short : s.length ≤ maxString) : Writable (.string s)
  | list {items : List Any} (each : ∀ item ∈ items, Writable item) : Writable (.list items)
  | dict {items : List (Bytes × Any)} (distinct : (items.map Prod.fst).Nodup)
      (short : ∀ item ∈ items, item.1.length ≤ maxString)
      (each : ∀ item ∈ items, Writable item.2) : Writable (.dict items)

mutual
/-- The same value with the entries of every dictionary in the order of their keys. -/
def sorted : Any → Any
  | .empty => .empty
  | .integer val => .integer val
  | .string s => .string s
  | .list items => .list (sortedItems items)
  | .dict items => .dict (sortEntries (sortedEntries items))

def sortedItems : List Any → List Any
  | [] => []
  | item :: items => sorted item :: sortedItems items

def sortedEntries : List (Bytes × Any) → List (Bytes × Any)
  | [] => []
  | (key, value) :: items => (key, sorted value) :: sortedEntries items
end

theorem keys_sortedEntries (items : List (Bytes × Any)) :
    (sortedEntries items).map Prod.fst = items.map Prod.fst := by
  induction items with
  | nil => rfl
  | cons item items ih => rw [sortedEntries, List.map_cons, ih, List.map_cons]

/-! ## Strings -/

theorem tryReadString_written {s : Bytes} (short : s.length ≤ maxString) (rest : Bytes) :
    tryReadString (BmfIntegerEncoding.encode (Int64.ofNat s.length) ++ s ++ rest) =
      .returned (some s) rest := by
  have fits : s.length < 2 ^ 63 := Nat.lt_of_le_of_lt short (by decide)
  have size : (Int64.ofNat s.length).toInt = s.length := Int64.toInt_ofNat_of_lt fits
  have limit : (Int64.ofNat maxString).toInt = maxString := Int64.toInt_ofNat_of_lt (by decide)
  have notLong : ¬ Int64.ofNat maxString < Int64.ofNat s.length := by
    rw [Int64.lt_iff_toInt_lt, limit, size]
    omega
  have notNegative : ¬ Int64.ofNat s.length < 0 := by
    rw [Int64.lt_iff_toInt_lt, size]
    exact not_lt.mpr (Int.natCast_nonneg _)
  have count : (Int64.ofNat s.length).toNatClampNeg = s.length := by
    rw [Int64.toNatClampNeg, size, Int.toNat_natCast]
  rw [tryReadString, List.append_assoc, BmfIntegerEncoding.decode_encode]
  simp only [if_neg notLong, if_neg notNegative, count]
  rw [if_neg (by rw [List.length_append]; omega), List.take_left, List.drop_left]

/-! ## Values -/

/-- A written value is read behind its tag, and the reader stops where it ends. -/
def ReadBack (value : Any) : Prop :=
  ∃ (tag : UInt8) (s : Bytes), writeValue value = tag :: s ∧ tag ≠ endTag ∧
    ∀ (depth : Nat) (rest : Bytes), (s ++ rest).length < depth →
      readItem depth tag (s ++ rest) = .returned (sorted value) rest

theorem readListLoop_written {items : List Any} (each : ∀ item ∈ items, ReadBack item)
    {depth turns : Nat} {before : List Any} {rest : Bytes}
    (inside : (writeItems items ++ endTag :: rest).length ≤ depth)
    (enough : (writeItems items ++ endTag :: rest).length < turns) :
    readListLoop (readItem depth) turns before (writeItems items ++ endTag :: rest) =
      .returned (.list (before ++ sortedItems items)) rest := by
  induction items generalizing turns before with
  | nil =>
      cases turns with
      | zero => exact absurd enough (Nat.not_lt_zero _)
      | succ turns =>
          rw [writeItems, List.nil_append, readListLoop, if_pos rfl, sortedItems, List.append_nil]
  | cons item items ih =>
      obtain ⟨tag, s, written, notEnd, back⟩ := each item (List.mem_cons_self ..)
      have later : ∀ item ∈ items, ReadBack item :=
        fun item member => each item (List.mem_cons_of_mem _ member)
      rw [writeItems, written, List.cons_append, List.cons_append, List.append_assoc] at inside enough ⊢
      simp only [List.length_cons, List.length_append] at inside enough
      cases turns with
      | zero => exact absurd enough (Nat.not_lt_zero _)
      | succ turns =>
          have read := back depth (writeItems items ++ endTag :: rest) (by
            simp only [List.length_append, List.length_cons]
            omega)
          have rest := @ih later turns (before ++ [sorted item]) (by
            simp only [List.length_append, List.length_cons]
            omega) (by
            simp only [List.length_append, List.length_cons]
            omega)
          rw [readListLoop, if_neg notEnd, read, Outcome.bind_returned, rest, sortedItems,
            List.append_assoc, List.singleton_append]

theorem readDictLoop_written {items : List (Bytes × Any)}
    (short : ∀ item ∈ items, item.1.length ≤ maxString)
    (each : ∀ item ∈ items, ReadBack item.2) {depth turns : Nat} {before : List (Bytes × Any)}
    {rest : Bytes} (inside : (writeEntries items ++ endTag :: rest).length ≤ depth)
    (enough : (writeEntries items ++ endTag :: rest).length < turns) :
    readDictLoop (readItem depth) turns before (writeEntries items ++ endTag :: rest) =
      .returned (.dict (insertAll (fun old _ => old) (sortedEntries items) before)) rest := by
  induction items generalizing turns before with
  | nil =>
      cases turns with
      | zero => exact absurd enough (Nat.not_lt_zero _)
      | succ turns =>
          rw [writeEntries, List.nil_append, readDictLoop, if_pos rfl, sortedEntries]
          rfl
  | cons item items ih =>
      obtain ⟨key, value⟩ := item
      obtain ⟨tag, s, written, notEnd, back⟩ := each (key, value) (List.mem_cons_self ..)
      have shortKey : key.length ≤ maxString := short (key, value) (List.mem_cons_self ..)
      have split : writeEntries ((key, value) :: items) ++ endTag :: rest =
          stringTag :: (BmfIntegerEncoding.encode (Int64.ofNat key.length) ++ key ++
            (tag :: (s ++ (writeEntries items ++ endTag :: rest)))) := by
        simp [writeEntries, writeKey, writeString, startBytes, written]
      rw [split] at inside enough ⊢
      simp only [List.length_cons, List.length_append] at inside enough
      cases turns with
      | zero => exact absurd enough (Nat.not_lt_zero _)
      | succ turns =>
          have read := back depth (writeEntries items ++ endTag :: rest) (by
            simp only [List.length_append, List.length_cons]
            omega)
          have rest := @ih (fun item member => short item (List.mem_cons_of_mem _ member))
            (fun item member => each item (List.mem_cons_of_mem _ member)) turns
            (insert key (sorted value) before) (by
            simp only [List.length_append, List.length_cons]
            omega) (by
            simp only [List.length_append, List.length_cons]
            omega)
          rw [readDictLoop, if_neg (by decide), if_neg (by decide), tryReadString_written shortKey,
            Outcome.bind_returned]
          simp only [readWith, read, Outcome.bind_returned, rest, sortedEntries]
          rfl

/-- **Every value that can be written is read back.** -/
theorem readBack_of_writable {value : Any} (writable : Writable value) : ReadBack value := by
  induction writable with
  | integer val =>
      refine ⟨integerTag, _, rfl, by decide, ?_⟩
      intro depth rest enough
      cases depth with
      | zero => exact absurd enough (Nat.not_lt_zero _)
      | succ depth =>
          rw [readItem, if_pos rfl, readInteger, BmfIntegerEncoding.decode_encode]
          rfl
  | @string s short =>
      refine ⟨stringTag, BmfIntegerEncoding.encode (Int64.ofNat s.length) ++ s, rfl, by decide, ?_⟩
      intro depth rest enough
      cases depth with
      | zero => exact absurd enough (Nat.not_lt_zero _)
      | succ depth =>
          rw [readItem, if_neg (by decide), if_pos rfl, readString, tryReadString_written short]
          rfl
  | @list items each ih =>
      refine ⟨listTag, writeItems items ++ endList, rfl, by decide, ?_⟩
      intro depth rest enough
      cases depth with
      | zero => exact absurd enough (Nat.not_lt_zero _)
      | succ depth =>
          have behind : writeItems items ++ endList ++ rest =
              writeItems items ++ endTag :: rest := by simp [endList]
          rw [behind] at enough ⊢
          rw [readItem, if_neg (by decide), if_neg (by decide), if_pos rfl,
            readListLoop_written ih (Nat.le_of_lt_succ enough) (Nat.lt_succ_self _), sorted,
            List.nil_append]
  | @dict items distinct short each ih =>
      refine ⟨dictTag, writeEntries items ++ endDict, rfl, by decide, ?_⟩
      intro depth rest enough
      cases depth with
      | zero => exact absurd enough (Nat.not_lt_zero _)
      | succ depth =>
          have behind : writeEntries items ++ endDict ++ rest =
              writeEntries items ++ endTag :: rest := by simp [endDict]
          rw [behind] at enough ⊢
          rw [readItem, if_neg (by decide), if_neg (by decide), if_neg (by decide), if_pos rfl,
            readDictLoop_written short ih (Nat.le_of_lt_succ enough) (Nat.lt_succ_self _), sorted,
            insertAll_eq_sortEntries (by rw [keys_sortedEntries]; exact distinct)]

/-- **A value that was written is read back as it was, and what follows it is left.** -/
theorem read_writeValue {value : Any} (writable : Writable value) (rest : Bytes) :
    read (writeValue value ++ rest) = .returned (sorted value) rest := by
  obtain ⟨tag, s, written, -, back⟩ := readBack_of_writable writable
  rw [written, List.cons_append, read, readWith]
  exact back _ rest (by rw [List.length_cons]; exact Nat.lt_succ_self _)

theorem read_writeValue_nested :
    read (writeValue (.dict [(ascii "b", .list [.integer (-5), .dict []]), (ascii "a", .string [0])])
        ++ [17, 7]) =
      .returned (.dict [(ascii "a", .string [0]), (ascii "b", .list [.integer (-5), .dict []])])
        [17, 7] := by
  have list : Writable (.list [.integer (-5), .dict []]) := by
    apply Writable.list
    intro item member
    obtain rfl | rfl : item = .integer (-5) ∨ item = .dict [] := by simpa using member
    · exact .integer _
    · exact .dict List.nodup_nil (fun _ nothing => absurd nothing List.not_mem_nil)
        (fun _ nothing => absurd nothing List.not_mem_nil)
  have writable : Writable
      (.dict [(ascii "b", .list [.integer (-5), .dict []]), (ascii "a", .string [0])]) := by
    apply Writable.dict (by decide +kernel)
    · intro item member
      obtain rfl | rfl := by simpa using member
      · decide +kernel
      · decide +kernel
    · intro item member
      obtain rfl | rfl := by simpa using member
      · exact list
      · exact .string (by decide)
  exact read_writeValue writable [17, 7]

end Bmf

end Xul
