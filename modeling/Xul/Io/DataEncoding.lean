import Xul.Io.DataStreams

/-!
# Encoded arguments

`data_encoding` writes its arguments one behind the other, and reads them into variables of the
same types.  Whether all of them are read depends only on the number of bytes that there are
(`good_doDecode`), and what was encoded is decoded (`decode_encode_of_sameType`).

A sequence of extractions fails cleanly if the first that fails, and every one behind it, leave
its variable as it is.  The streams do so unless the bytes end just in front of an 8-bit integer:
`read_byte` assigns it -1 (`failsCleanly_extractions_iff`).
-/

set_option autoImplicit false

namespace Xul

open DataInputStream

variable {order : ByteOrder}

/-- The number of bytes of some variables in a stream. -/
def Field.sizes (fields : List Field) : Nat := (fields.map Field.size).sum

namespace DataEncoding

def doEncode (order : ByteOrder) : List Field → Bytes
  | [] => []
  | arg :: rest => arg.insert order ++ doEncode order rest

def encode (order : ByteOrder) (args : List Field) : Bytes := doEncode order args

/-- `do_decode`: what is in the arguments then, and the stream. -/
def doDecode (order : ByteOrder) (is : DataInputStream) : List Field → List Field × DataInputStream
  | [] => ([], is)
  | arg :: rest =>
      let extracted := arg.extract order is
      let decoded := doDecode order extracted.stream rest
      (extracted.val :: decoded.1, decoded.2)

/-- `decode`, with what is in the arguments then. -/
def decode (order : ByteOrder) (s : Bytes) (args : List Field) : Bool × List Field :=
  let decoded := doDecode order ⟨true, s⟩ args
  (decoded.2.good, decoded.1)

/-! ## Round trip -/

theorem length_doEncode (args : List Field) :
    (doEncode order args).length = Field.sizes args := by
  induction args with
  | nil => rfl
  | cons arg rest ih =>
      rw [doEncode, List.length_append, Field.length_insert, ih, Field.sizes, Field.sizes,
        List.map_cons, List.sum_cons]

theorem sizes_of_sameType {vars args : List Field} (same : List.Forall₂ Field.SameType vars args) :
    Field.sizes vars = Field.sizes args := by
  induction same with
  | nil => rfl
  | cons head _ ih =>
      rw [Field.sizes, Field.sizes, List.map_cons, List.map_cons, List.sum_cons, List.sum_cons,
        head.size_eq]
      exact congrArg _ ih

/-- **Whether everything is read is a matter of lengths.** -/
theorem good_doDecode (is : DataInputStream) (vars : List Field) :
    (doDecode order is vars).2.good = (is.good && decide (Field.sizes vars ≤ is.rest.length)) := by
  induction vars generalizing is with
  | nil => exact (Bool.and_true is.good).symm
  | cons var rest ih =>
      have sizes : Field.sizes (var :: rest) = var.size + Field.sizes rest := rfl
      rw [doDecode]
      cases good : is.good with
      | false => rw [Field.extract_of_bad var good, ih, good, Bool.false_and, Bool.false_and]
      | true =>
          by_cases fits : var.size ≤ is.rest.length
          · rw [Field.extract_of_fits var good fits, ih, good, List.length_drop, sizes]
            exact congrArg _ (decide_eq_decide.mpr (by omega))
          · rw [Field.extract_of_missing var good (not_le.mp fits), ih, sizes]
            exact (decide_eq_false (by omega)).symm

theorem doDecode_doEncode {vars args : List Field} (same : List.Forall₂ Field.SameType vars args)
    (rest : Bytes) : doDecode order ⟨true, doEncode order args ++ rest⟩ vars = (args, ⟨true, rest⟩) := by
  induction same with
  | nil => rfl
  | @cons var arg vars args head _ ih =>
      have length : (arg.insert order).length = var.size := by
        rw [Field.length_insert, head.size_eq]
      have extracted : var.extract order ⟨true, doEncode order (arg :: args) ++ rest⟩ =
          ⟨true, arg, ⟨true, doEncode order args ++ rest⟩⟩ := by
        rw [doEncode, List.append_assoc, Field.extract_of_fits var rfl
          (by rw [List.length_append, length]; exact Nat.le_add_right ..)]
        simp only [← length, List.take_left, List.drop_left, Field.ofBytes_insert head]
      rw [doDecode, extracted, ih]

theorem not_good_of_strict {vars args : List Field}
    (same : List.Forall₂ Field.SameType vars args) {s : Bytes} (prefixed : s <+: doEncode order args)
    (strict : s ≠ doEncode order args) : (doDecode order ⟨true, s⟩ vars).2.good = false := by
  have shorter : s.length < Field.sizes vars := by
    rw [sizes_of_sameType same, ← @length_doEncode order]
    exact lt_of_le_of_ne prefixed.length_le fun equal => strict (prefixed.eq_of_length equal)
  rw [good_doDecode]
  exact decide_eq_false (not_le.mpr shorter)

/-- **What was encoded is decoded, and no strict prefix of it is.** -/
theorem decode_encode_of_sameType {vars args : List Field}
    (same : List.Forall₂ Field.SameType vars args) :
    decode order (encode order args) vars = (true, args) ∧
      ∀ s, s <+: encode order args → s ≠ encode order args →
        (decode order s vars).1 = false := by
  constructor
  · have decoded := @doDecode_doEncode order _ _ same []
    rw [List.append_nil] at decoded
    rw [decode, encode, decoded]
  · intro s prefixed strict
    exact not_good_of_strict same prefixed strict

theorem decode_encode_of_sameType_three :
    decode ⟨true⟩ (encode ⟨true⟩ [.uint8 1, .int16 (-2), .bool true])
        [.uint8 0, .int16 0, .bool false] = (true, [.uint8 1, .int16 (-2), .bool true]) ∧
      ∀ s, s <+: encode ⟨true⟩ [.uint8 1, .int16 (-2), .bool true] →
        s ≠ encode ⟨true⟩ [.uint8 1, .int16 (-2), .bool true] →
        (decode ⟨true⟩ s [.uint8 0, .int16 0, .bool false]).1 = false :=
  decode_encode_of_sameType (.cons trivial (.cons trivial (.cons trivial .nil)))

end DataEncoding

/-! ## Extractions that fail -/

/-- An extraction into a variable, and what came of it. -/
structure Extraction where
  field : Field
  result : Extracted Field

namespace Extraction

/-- It failed, and left its variable and the stream as they were. -/
def Idle (extraction : Extraction) (is : DataInputStream) : Prop :=
  extraction.result = ⟨false, extraction.field, is⟩

/-- An extraction that fails leaves its variable as it is and the stream bad, and those behind
it fail and change nothing. -/
def FailsCleanly : List Extraction → Prop
  | [] => True
  | extraction :: later =>
      (extraction.result.ret = false →
        extraction.result.val = extraction.field ∧ extraction.result.stream.good = false ∧
          ∀ other ∈ later, other.Idle extraction.result.stream) ∧
      FailsCleanly later

end Extraction

open Extraction

/-- `operator>>` with some variables after another. -/
def extractions (order : ByteOrder) (is : DataInputStream) : List Field → List Extraction
  | [] => []
  | field :: fields =>
      let result := field.extract order is
      ⟨field, result⟩ :: extractions order result.stream fields

/-- An 8-bit integer other than -1. -/
def Field.Spoilable : Field → Prop
  | .int8 val => val ≠ -1
  | .uint8 val => val ≠ 255
  | _ => False

theorem Field.lost_eq_iff (field : Field) : field.lost = field ↔ ¬ field.Spoilable := by
  cases field with
  | int8 val =>
      constructor
      · intro same spoilable
        exact spoilable (Field.int8.inj same).symm
      · intro unspoiled
        exact congrArg Field.int8 (not_not.mp unspoiled).symm
  | uint8 val =>
      constructor
      · intro same spoilable
        exact spoilable (Field.uint8.inj same).symm
      · intro unspoiled
        exact congrArg Field.uint8 (not_not.mp unspoiled).symm
  | _ => exact ⟨fun _ => not_false, fun _ => rfl⟩

theorem Field.size_of_spoilable {field : Field} (spoilable : field.Spoilable) :
    field.size = 1 := by
  cases field with
  | int8 | uint8 => rfl
  | _ => exact spoilable.elim

/-- The bytes end just in front of an 8-bit integer other than -1. -/
def SpoiledAt (available : Nat) (fields : List Field) : Prop :=
  ∃ earlier field later, fields = earlier ++ field :: later ∧ Field.sizes earlier = available ∧
    field.Spoilable

theorem not_spoiledAt_nil (available : Nat) : ¬ SpoiledAt available [] := by
  rintro ⟨earlier, field, later, split, -⟩
  exact absurd split.symm (List.append_ne_nil_of_right_ne_nil _ (List.cons_ne_nil _ _))

theorem spoiledAt_cons {available : Nat} {field : Field} {fields : List Field} :
    SpoiledAt available (field :: fields) ↔
      available = 0 ∧ field.Spoilable ∨
        field.size ≤ available ∧ SpoiledAt (available - field.size) fields := by
  constructor
  · rintro ⟨earlier, spoiled, later, split, sizes, spoilable⟩
    cases earlier with
    | nil =>
        obtain ⟨rfl, -⟩ := List.cons.inj split
        exact .inl ⟨sizes.symm, spoilable⟩
    | cons first earlier =>
        obtain ⟨rfl, rfl⟩ := List.cons.inj split
        have total : field.size + Field.sizes earlier = available := sizes
        exact .inr ⟨by omega, earlier, spoiled, later, rfl, by omega, spoilable⟩
  · rintro (⟨rfl, spoilable⟩ | ⟨fits, earlier, spoiled, later, rfl, sizes, spoilable⟩)
    · exact ⟨[], field, fields, rfl, rfl, spoilable⟩
    · refine ⟨field :: earlier, spoiled, later, rfl, ?_, spoilable⟩
      show field.size + Field.sizes earlier = available
      omega

/-- Nothing is read from a bad stream. -/
theorem idle_of_bad {is : DataInputStream} (bad : is.good = false) (fields : List Field) :
    ∀ extraction ∈ extractions order is fields, extraction.Idle is := by
  induction fields with
  | nil =>
      intro extraction member
      exact absurd member List.not_mem_nil
  | cons field fields ih =>
      have idle : field.extract order is = ⟨false, field, is⟩ := Field.extract_of_bad field bad
      intro extraction member
      rw [extractions, idle] at member
      cases member with
      | head => rfl
      | tail _ later => exact ih extraction later

theorem failsCleanly_of_idle {is : DataInputStream} (bad : is.good = false)
    {trace : List Extraction} (idle : ∀ extraction ∈ trace, extraction.Idle is) :
    FailsCleanly trace := by
  induction trace with
  | nil => trivial
  | cons extraction later ih =>
      have here : extraction.result = ⟨false, extraction.field, is⟩ :=
        idle extraction List.mem_cons_self
      have behind : ∀ other ∈ later, other.Idle is := by
        intro other member
        exact idle other (List.mem_cons_of_mem _ member)
      rw [FailsCleanly, here]
      exact ⟨fun _ => ⟨rfl, bad, behind⟩, ih behind⟩

/-- **Extractions fail cleanly if, and only if, the bytes do not end just in front of an 8-bit
integer other than -1.** -/
theorem failsCleanly_extractions_iff (is : DataInputStream) (fields : List Field) :
    FailsCleanly (extractions order is fields) ↔
      (is.good = true → ¬ SpoiledAt is.rest.length fields) := by
  induction fields generalizing is with
  | nil => exact ⟨fun _ _ => not_spoiledAt_nil _, fun _ => trivial⟩
  | cons field fields ih =>
      cases good : is.good with
      | false =>
          exact ⟨nofun, fun _ => failsCleanly_of_idle good (idle_of_bad good (field :: fields))⟩
      | true =>
          have positive := field.size_pos
          simp only [true_implies, spoiledAt_cons, extractions, FailsCleanly]
          by_cases fits : field.size ≤ is.rest.length
          · have nonempty : is.rest.length ≠ 0 := by omega
            simp only [Field.extract_of_fits field good fits, ih, good, List.length_drop, fits,
              nonempty, Bool.true_eq_false, false_implies, true_and, false_and, false_or,
              true_implies]
          · have behind := @idle_of_bad order is.setBad rfl fields
            simp only [Field.extract_of_missing field good (not_le.mp fits), fits, false_and,
              or_false, true_implies, Field.lost_eq_iff]
            constructor
            · rintro ⟨⟨same, -⟩, -⟩ ⟨-, spoilable⟩
              exact same spoilable
            · intro unspoiled
              have same : ¬ field.Spoilable := by
                intro spoilable
                have one := Field.size_of_spoilable spoilable
                exact unspoiled ⟨by omega, spoilable⟩
              exact ⟨⟨same, rfl, behind⟩, failsCleanly_of_idle rfl behind⟩

/-- Where there is nothing to read, an 8-bit integer is overwritten. -/
theorem not_failsCleanly_extractions :
    ¬ FailsCleanly (extractions ⟨true⟩ ⟨true, []⟩ [.uint8 7]) := by
  rintro ⟨first, -⟩
  obtain ⟨same, -⟩ := first rfl
  exact absurd same (by decide)

end Xul
