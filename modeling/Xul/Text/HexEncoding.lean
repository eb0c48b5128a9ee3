import Xul.Foundation.Numerals
import Xul.Std.Bytes

/-!
# Hexadecimal text

`hex_encoding` writes a byte as two digits.  It decodes digits of either case into a buffer, pair
by pair, and stops at the first pair that is not one of digits; what is decoded by then stays in
the buffer (`decodeLoop_eq`).
-/

set_option autoImplicit false

namespace Xul

open Foundation

/-- `isxdigit`, in the C locale. -/
def isxdigit (ch : UInt8) : Bool :=
  isDigit ch || (65 ≤ ch && ch ≤ 70) || (97 ≤ ch && ch ≤ 102)

/-- `isupper`, in the C locale. -/
def isupper (ch : UInt8) : Bool := 65 ≤ ch && ch ≤ 90

namespace HexEncoding

def getLowerHexLetters : Bytes := ascii "0123456789abcdef"

def getUpperHexLetters : Bytes := ascii "0123456789ABCDEF"

/-- The letters of an encoding. -/
def letters (useUpperCase : Bool) : Bytes :=
  if useUpperCase then getUpperHexLetters else getLowerHexLetters

def doEncodeBit (useUpperCase : Bool) (bit : UInt8) : UInt8 :=
  (letters useUpperCase).getD bit.toNat 0

def encode (useUpperCase : Bool) (src : Bytes) : Bytes :=
  src.flatMap fun (ch : UInt8) =>
    [doEncodeBit useUpperCase (ch >>> 4), doEncodeBit useUpperCase (ch &&& 0x0F)]

def decodeHexByte (ch : UInt8) : UInt8 :=
  if isDigit ch then ch - 48
  else if isupper ch then ch - 65 + 10
  else ch - 97 + 10

def doDecodeByte (ch1 ch2 : UInt8) : UInt8 := decodeHexByte ch1 <<< 4 ||| decodeHexByte ch2

/-- The loop of `decode`, which writes from the byte `pos` of the buffer on. -/
def decodeLoop : Nat → Bytes → Bytes → Bool × Bytes
  | pos, buf, ch1 :: ch2 :: str =>
      if isxdigit ch1 ∧ isxdigit ch2 then
        decodeLoop (pos + 1) (buf.set pos (doDecodeByte ch1 ch2)) str
      else (false, buf)
  | _, buf, _ => (true, buf)

/-- `decode` into a buffer of a size, and what is in the buffer then. -/
def decode (buf : Bytes) (size : Nat) (str : Bytes) : Bool × Bytes :=
  if str.length = 0 ∨ str.length % 2 ≠ 0 then (false, buf)
  else if size < str.length / 2 then (false, buf)
  else decodeLoop 0 buf str

@[simp] theorem length_decodeLoop (pos : Nat) (buf str : Bytes) :
    (decodeLoop pos buf str).2.length = buf.length := by
  fun_induction decodeLoop pos buf str with
  | case1 pos buf ch1 ch2 str digits ih => rw [ih, List.length_set]
  | case2 => rfl
  | case3 => rfl

@[simp] theorem length_decode (buf : Bytes) (size : Nat) (str : Bytes) :
    (decode buf size str).2.length = buf.length := by
  rw [decode]
  split
  · rfl
  · split
    · rfl
    · exact length_decodeLoop 0 buf str

/-! ## Digits -/

/-- The letter of a digit. -/
def letter (useUpperCase : Bool) (digit : Nat) : UInt8 := (letters useUpperCase).getD digit 0

theorem encode_byte (useUpperCase : Bool) (ch : UInt8) :
    [doEncodeBit useUpperCase (ch >>> 4), doEncodeBit useUpperCase (ch &&& 0x0F)] =
      [letter useUpperCase (ch.toNat / 16), letter useUpperCase (ch.toNat % 16)] := by
  have high : (ch >>> 4).toNat = ch.toNat / 16 := by
    rw [UInt8.toNat_shiftRight]
    exact Nat.shiftRight_eq_div_pow ..
  have low : (ch &&& 0x0F).toNat = ch.toNat % 16 := by
    rw [UInt8.toNat_and]
    exact Nat.and_two_pow_sub_one_eq_mod _ 4
  rw [doEncodeBit, doEncodeBit, high, low]
  rfl

/-- What a byte is encoded as are digits, which are decoded as the byte. -/
theorem decode_byte (useUpperCase : Bool) (ch : UInt8) :
    isxdigit (doEncodeBit useUpperCase (ch >>> 4)) = true ∧
      isxdigit (doEncodeBit useUpperCase (ch &&& 0x0F)) = true ∧
      doDecodeByte (doEncodeBit useUpperCase (ch >>> 4)) (doEncodeBit useUpperCase (ch &&& 0x0F)) =
        ch := by
  revert ch
  cases useUpperCase <;> exact forall_byte (by decide +kernel)

theorem encode_cons (useUpperCase : Bool) (ch : UInt8) (src : Bytes) :
    encode useUpperCase (ch :: src) = doEncodeBit useUpperCase (ch >>> 4) ::
      doEncodeBit useUpperCase (ch &&& 0x0F) :: encode useUpperCase src := rfl

theorem encode_reverse (useUpperCase : Bool) (bytes : Bytes) :
    encode useUpperCase bytes.reverse =
      numeral (letter useUpperCase) 16 (2 * bytes.length) (littleEndian bytes) := by
  rw [← flatMap_reverse_eq_numeral, encode]
  exact List.flatMap_congr fun ch _ => encode_byte useUpperCase ch

/-! ## Decoding -/

/-- What decoding makes of the bytes that it may write. -/
def overwrite : Bytes → Bytes → Bool × Bytes
  | byte :: bytes, ch1 :: ch2 :: str =>
      if isxdigit ch1 ∧ isxdigit ch2 then
        let rest := overwrite bytes str
        (rest.1, doDecodeByte ch1 ch2 :: rest.2)
      else (false, byte :: bytes)
  | bytes, _ => (true, bytes)

/-- A text of pairs begins with one. -/
theorem exists_pair {str : Bytes} {size : Nat} (pairs : str.length = 2 * (size + 1)) :
    ∃ ch1 ch2 rest, str = ch1 :: ch2 :: rest ∧ rest.length = 2 * size := by
  obtain ⟨ch1, tail, rfl⟩ := List.exists_cons_of_length_pos (by omega : 0 < str.length)
  rw [List.length_cons] at pairs
  obtain ⟨ch2, rest, rfl⟩ := List.exists_cons_of_length_pos (by omega : 0 < tail.length)
  rw [List.length_cons] at pairs
  exact ⟨ch1, ch2, rest, rfl, by omega⟩

theorem decodeLoop_eq (bytes : Bytes) (done str : Bytes) (size : str.length = 2 * bytes.length) :
    decodeLoop done.length (done ++ bytes) str =
      ((overwrite bytes str).1, done ++ (overwrite bytes str).2) := by
  induction bytes generalizing done str with
  | nil =>
      obtain rfl := List.eq_nil_of_length_eq_zero size
      rfl
  | cons byte bytes ih =>
      obtain ⟨ch1, ch2, str, rfl, rest⟩ := exists_pair size
      rw [decodeLoop, overwrite]
      by_cases digits : isxdigit ch1 = true ∧ isxdigit ch2 = true
      · have turn := ih (done ++ [doDecodeByte ch1 ch2]) str rest
        rw [List.length_append, List.length_singleton, List.append_assoc, List.append_assoc] at turn
        rw [if_pos digits, if_pos digits, List.set_append_right _ _ le_rfl, Nat.sub_self]
        exact turn
      · rw [if_neg digits, if_neg digits]

theorem overwrite_encode (useUpperCase : Bool) {bytes src : Bytes}
    (length : bytes.length = src.length) :
    overwrite bytes (encode useUpperCase src) = (true, src) := by
  induction src generalizing bytes with
  | nil =>
      obtain rfl := List.eq_nil_of_length_eq_zero length
      rfl
  | cons ch src ih =>
      cases bytes with
      | nil => exact absurd length.symm (Nat.succ_ne_zero _)
      | cons byte bytes =>
          obtain ⟨high, low, back⟩ := decode_byte useUpperCase ch
          rw [encode_cons, overwrite, if_pos ⟨high, low⟩, ih (Nat.succ.inj length), back]

theorem overwrite_fst_iff {bytes str : Bytes} (size : str.length = 2 * bytes.length) :
    (overwrite bytes str).1 = true ↔ ∀ ch ∈ str, isxdigit ch = true := by
  induction bytes generalizing str with
  | nil =>
      obtain rfl := List.eq_nil_of_length_eq_zero size
      exact iff_of_true rfl nofun
  | cons byte bytes ih =>
      obtain ⟨ch1, ch2, str, rfl, rest⟩ := exists_pair size
      rw [overwrite, List.forall_mem_cons, List.forall_mem_cons]
      by_cases digits : isxdigit ch1 = true ∧ isxdigit ch2 = true
      · rw [if_pos digits, ih rest]
        exact ⟨fun all => ⟨digits.1, digits.2, all⟩, fun all => all.2.2⟩
      · rw [if_neg digits]
        exact iff_of_false Bool.false_ne_true fun all => digits ⟨all.1, all.2.1⟩

/-- A buffer is decoded into that a text just fills. -/
theorem decode_of_full {buf str : Bytes} (positive : 0 < buf.length)
    (size : str.length = 2 * buf.length) :
    decode buf buf.length str = overwrite buf str := by
  have loop := decodeLoop_eq buf [] str size
  rw [decode, if_neg (by omega), if_neg (by omega)]
  exact loop

/-! ## Texts that are cut off -/

/-- Digits in either case, two for every byte. -/
inductive Spells : Bytes → Bytes → Prop
  | nil : Spells [] []
  | pair {high low byte : UInt8} {text bytes : Bytes} :
      digitValue 16 high = some (byte.toNat / 16) → digitValue 16 low = some (byte.toNat % 16) →
      Spells text bytes → Spells (high :: low :: text) (byte :: bytes)

/-- Behind digits that spell some bytes there is a pair that is not one of digits. -/
def BreaksOff (str bytes : Bytes) : Prop :=
  ∃ text ch1 ch2 rest, str = text ++ ch1 :: ch2 :: rest ∧ Spells text bytes ∧
    ¬ (isxdigit ch1 = true ∧ isxdigit ch2 = true)

theorem isxdigit_iff (ch : UInt8) : isxdigit ch = true ↔
    digitValue 16 ch = some (decodeHexByte ch).toNat ∧ (decodeHexByte ch).toNat < 16 := by
  revert ch
  exact forall_byte (by decide +kernel)

theorem isxdigit_of_digitValue {ch : UInt8} {digit : Nat} (value : digitValue 16 ch = some digit) :
    isxdigit ch = true ∧ (decodeHexByte ch).toNat = digit := by
  have all : ∀ ch, digitValue 16 ch = none ∨ isxdigit ch = true := forall_byte (by decide +kernel)
  have digits := (all ch).resolve_left (by rw [value]; exact Option.some_ne_none digit)
  have same := ((isxdigit_iff ch).mp digits).1
  exact ⟨digits, Option.some.inj (same.symm.trans value)⟩

theorem toNat_doDecodeByte {ch1 ch2 : UInt8} (high : (decodeHexByte ch1).toNat < 16)
    (low : (decodeHexByte ch2).toNat < 16) :
    (doDecodeByte ch1 ch2).toNat = 16 * (decodeHexByte ch1).toNat + (decodeHexByte ch2).toNat := by
  have shifted : (decodeHexByte ch1 <<< 4).toNat = 2 ^ 4 * (decodeHexByte ch1).toNat := by
    rw [UInt8.toNat_shiftLeft]
    show (decodeHexByte ch1).toNat <<< 4 % 256 = _
    rw [Nat.shiftLeft_eq]
    omega
  rw [doDecodeByte, UInt8.toNat_or, shifted]
  exact (Nat.two_pow_add_eq_or_of_lt low _).symm

/-- A pair of digits is decoded as the byte that it spells. -/
theorem doDecodeByte_of_digits {high low byte : UInt8}
    (isHigh : digitValue 16 high = some (byte.toNat / 16))
    (isLow : digitValue 16 low = some (byte.toNat % 16)) : doDecodeByte high low = byte := by
  have small := byte.toNat_lt
  have first := (isxdigit_of_digitValue isHigh).2
  have second := (isxdigit_of_digitValue isLow).2
  apply UInt8.toNat.inj
  rw [toNat_doDecodeByte (by omega) (by omega)]
  omega

/-- **What was spelled in front of the break is in the buffer.** -/
theorem overwrite_of_breaksOff {str bytes spelled : Bytes} (breaks : BreaksOff str spelled)
    (size : str.length = 2 * bytes.length) :
    overwrite bytes str = (false, spelled ++ bytes.drop spelled.length) := by
  obtain ⟨text, ch1, ch2, rest, rfl, spells, invalid⟩ := breaks
  induction spells generalizing bytes with
  | nil =>
      cases bytes with
      | nil => exact absurd size (Nat.succ_ne_zero _)
      | cons byte bytes => exact if_neg invalid
  | @pair high low byte text spelled isHigh isLow _ ih =>
      cases bytes with
      | nil => exact absurd size (Nat.succ_ne_zero _)
      | cons old bytes =>
          have digits := And.intro (isxdigit_of_digitValue isHigh).1 (isxdigit_of_digitValue isLow).1
          have turn := @ih bytes (by
            rw [List.cons_append, List.cons_append, List.length_cons, List.length_cons,
              List.length_cons] at size
            omega)
          rw [List.cons_append, List.cons_append, overwrite, if_pos digits, turn,
            doDecodeByte_of_digits isHigh isLow]
          rfl

theorem exists_breaksOff {str bytes : Bytes} (size : str.length = 2 * bytes.length)
    (fails : (overwrite bytes str).1 = false) : ∃ spelled, BreaksOff str spelled := by
  induction bytes generalizing str with
  | nil =>
      obtain rfl := List.eq_nil_of_length_eq_zero size
      exact absurd fails.symm Bool.false_ne_true
  | cons byte bytes ih =>
      obtain ⟨ch1, ch2, str, rfl, rest⟩ := exists_pair size
      by_cases digits : isxdigit ch1 = true ∧ isxdigit ch2 = true
      · rw [overwrite, if_pos digits] at fails
        obtain ⟨spelled, text, other, next, tail, rfl, spells, invalid⟩ := ih rest fails
        obtain ⟨isHigh, high⟩ := (isxdigit_iff ch1).mp digits.1
        obtain ⟨isLow, low⟩ := (isxdigit_iff ch2).mp digits.2
        have value := toNat_doDecodeByte high low
        refine ⟨doDecodeByte ch1 ch2 :: spelled, ch1 :: ch2 :: text, other, next, tail, rfl,
          .pair ?_ ?_ spells, invalid⟩
        · rw [isHigh]
          congr 1
          omega
        · rw [isLow]
          congr 1
          omega
      · exact ⟨[], [], ch1, ch2, str, rfl, .nil, digits⟩

end HexEncoding

end Xul
