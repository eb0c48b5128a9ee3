import Xul.Net.SimpleUri

/-!
# Percent coding in both letter cases

`url_encoding` has two instances, which differ in the digits of their escapes; the table that
the source names upper case has the lower case digits.  The text of both is made of escapes
and of characters that stand for themselves, among them the comma and the semicolon
(`encodeIn_escaped`), and is decoded again as far as no byte is zero: a string is encoded up
to its first zero byte.
-/

set_option autoImplicit false

namespace Xul

namespace UrlEncoding

def lowerHex : Bytes := ascii "0123456789ABCDEF"

/-- `to_hex` of an instance. -/
def toHexIn (isUpperCase : Bool) (code : UInt8) : UInt8 :=
  (if isUpperCase then upperHex else lowerHex).getD (code &&& 15).toNat 0

/-- What an instance writes for a character. -/
def encodeCharIn (isUpperCase : Bool) (ch : UInt8) : Bytes :=
  if isUnreserved ch then [ch]
  else [37, toHexIn isUpperCase (ch >>> 4), toHexIn isUpperCase (ch &&& 15)]

/-- `encode` of an instance. -/
def encodeIn (isUpperCase : Bool) (s : Bytes) : Bytes := (cStr s).flatMap (encodeCharIn isUpperCase)

theorem encodeIn_true : encodeIn true = encode := rfl

/-! ## Escaped text -/

/-- Text of characters that stand for themselves and of escapes with two digits. -/
inductive Escaped (plain : UInt8 → Bool) : Bytes → Prop where
  | nil : Escaped plain []
  | char {ch : UInt8} {rest : Bytes} (stands : plain ch = true) (later : Escaped plain rest) :
      Escaped plain (ch :: rest)
  | escape {first second : UInt8} {rest : Bytes} (high : (digitValue 16 first).isSome)
      (low : (digitValue 16 second).isSome) (later : Escaped plain rest) :
      Escaped plain (37 :: first :: second :: rest)

namespace Escaped

variable {plain : UInt8 → Bool} {text : Bytes}

theorem append {more : Bytes} (escaped : Escaped plain text) (later : Escaped plain more) :
    Escaped plain (text ++ more) := by
  induction escaped with
  | nil => exact later
  | char stands _ ih => exact .char stands ih
  | escape high low _ ih => exact .escape high low ih

/-- A character of escaped text stands for itself, or is a percent sign or a digit. -/
theorem mem {c : UInt8} (escaped : Escaped plain text) (member : c ∈ text) :
    plain c = true ∨ c = 37 ∨ (digitValue 16 c).isSome := by
  induction escaped with
  | nil => exact absurd member List.not_mem_nil
  | char stands _ ih =>
      rcases List.mem_cons.mp member with rfl | later
      · exact .inl stands
      · exact ih later
  | escape high low _ ih =>
      rcases List.mem_cons.mp member with rfl | digits
      · exact .inr (.inl rfl)
      · rcases List.mem_cons.mp digits with rfl | last
        · exact .inr (.inr high)
        · rcases List.mem_cons.mp last with rfl | later
          · exact .inr (.inr low)
          · exact ih later

end Escaped

theorem isSome_digitValue_toHexIn (isUpperCase : Bool) (code : UInt8) :
    (digitValue 16 (toHexIn isUpperCase code)).isSome := by
  revert code
  cases isUpperCase with
  | true => exact forall_byte (by decide +kernel)
  | false => exact forall_byte (by decide +kernel)

theorem encodeCharIn_escaped (isUpperCase : Bool) (ch : UInt8) :
    Escaped isUnreserved (encodeCharIn isUpperCase ch) := by
  rw [encodeCharIn]
  split
  · next stands => exact .char stands .nil
  · exact .escape (isSome_digitValue_toHexIn _ _) (isSome_digitValue_toHexIn _ _) .nil

/-- **What is encoded is escaped text.** -/
theorem encodeIn_escaped (isUpperCase : Bool) (s : Bytes) :
    Escaped isUnreserved (encodeIn isUpperCase s) := by
  rw [encodeIn]
  induction cStr s with
  | nil => exact .nil
  | cons ch rest ih =>
      rw [List.flatMap_cons]
      exact (encodeCharIn_escaped isUpperCase ch).append ih

/-! ## Decoding -/

/-- An unreserved character is not one that decoding changes. -/
theorem isUnreserved_plain : ∀ ch, isUnreserved ch = true → ch ≠ 37 ∧ ch ≠ 43 :=
  @forall_byte (fun ch => isUnreserved ch = true → ch ≠ 37 ∧ ch ≠ 43) (by decide +kernel)

theorem fromHex_toHexIn (isUpperCase : Bool) (ch : UInt8) :
    fromHex (toHexIn isUpperCase (ch >>> 4)) <<< 4 ||| fromHex (toHexIn isUpperCase (ch &&& 15)) =
      ch := by
  revert ch
  cases isUpperCase with
  | true => exact forall_byte (by decide +kernel)
  | false => exact forall_byte (by decide +kernel)

theorem decodeLoop_encodeCharIn (isUpperCase : Bool) (ch : UInt8) (rest : Bytes) :
    decodeLoop (encodeCharIn isUpperCase ch ++ rest) = ch :: decodeLoop rest := by
  rw [encodeCharIn]
  split
  · next unreserved =>
      obtain ⟨notPercent, notPlus⟩ := isUnreserved_plain ch unreserved
      rw [List.singleton_append, decodeLoop]
      · exact fun _ _ _ percent => absurd percent notPercent
      · exact notPercent
      · exact notPlus
  · simp only [List.cons_append, List.nil_append, decodeLoop, fromHex_toHexIn]

theorem zero_not_mem_encodeIn (isUpperCase : Bool) (s : Bytes) : 0 ∉ encodeIn isUpperCase s := by
  intro member
  rcases (encodeIn_escaped isUpperCase s).mem member with stands | percent | digit
  · exact absurd stands (by decide)
  · exact absurd percent (by decide)
  · exact absurd digit (by decide)

/-- **What is encoded is decoded again, up to the first zero byte.** -/
theorem decode_encodeIn (isUpperCase : Bool) (s : Bytes) :
    decode (encodeIn isUpperCase s) = cStr s := by
  rw [decode, cStr_of_no_zero (zero_not_mem_encodeIn isUpperCase s), encodeIn]
  induction cStr s with
  | nil => rfl
  | cons ch rest ih => rw [List.flatMap_cons, decodeLoop_encodeCharIn, ih]

/-! ## Unreserved characters -/

/-- The characters that are not reserved in an address. -/
def unreserved (ch : UInt8) : Bool := isDigit ch || isAlpha ch || ch ∈ ascii "-_.~"

theorem isUnreserved_eq (ch : UInt8) :
    isUnreserved ch = (unreserved ch || decide (ch ∈ ascii ",;")) := by
  revert ch
  exact forall_byte (by decide +kernel)

/-- **Percent coding**: in both letter cases a string is encoded as unreserved characters,
commas, semicolons and escapes, and is decoded again when it has no zero byte. -/
theorem encodeIn_faithful (isUpperCase : Bool) (s : Bytes) :
    Escaped (fun ch => unreserved ch || decide (ch ∈ ascii ",;")) (encodeIn isUpperCase s) ∧
      (0 ∉ s → decode (encodeIn isUpperCase s) = s) := by
  constructor
  · have same : (fun ch => unreserved ch || decide (ch ∈ ascii ",;")) = isUnreserved := by
      funext ch
      exact (isUnreserved_eq ch).symm
    rw [same]
    exact encodeIn_escaped isUpperCase s
  · intro clean
    rw [decode_encodeIn, cStr_of_no_zero clean]

/-- Every byte but zero, in the lower case digits. -/
theorem encodeIn_faithful_of_comma : decode (encodeIn true (ascii "a,b%c")) = ascii "a,b%c" :=
  (encodeIn_faithful true (ascii "a,b%c")).2 (by decide)

/-- A comma stands for itself, and what follows a zero byte is lost. -/
theorem comma_kept_and_zero_lost :
    (encodeIn true (ascii ",") = ascii "," ∧ ¬ Escaped unreserved (encodeIn true (ascii ","))) ∧
      (encodeIn false (ascii ",") = ascii "," ∧ ¬ Escaped unreserved (encodeIn false (ascii ","))) ∧
        (decode (encodeIn true [97, 0, 98]) = [97] ∧
          decode (encodeIn true [97, 0, 98]) ≠ [97, 0, 98]) := by
  have kept : ¬ Escaped unreserved [44] := by
    intro escaped
    cases escaped with
    | char stands _ => exact absurd stands (by decide)
  have comma : ∀ isUpperCase, encodeIn isUpperCase (ascii ",") = [44] := by decide
  have shown : ascii "," = [44] := by decide
  refine ⟨⟨(comma true).trans shown.symm, ?_⟩, ⟨(comma false).trans shown.symm, ?_⟩,
    ⟨by decide, by decide⟩⟩
  · rw [comma]
    exact kept
  · rw [comma]
    exact kept

end UrlEncoding

end Xul
