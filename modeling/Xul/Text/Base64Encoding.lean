import Xul.Foundation.InPlace
import Xul.Foundation.LittleEndian
import Xul.Std.Bytes

/-!
# Base64

`base64_encoding` encodes three bytes as four characters, which carry six bits each, and decodes
them again.  It writes into buffers of a size that is reckoned before.

What is encoded without a line delimiter is decoded, and neither loop writes outside its buffer
(`decode_encode_str`).
-/

set_option autoImplicit false

namespace Xul

open Foundation

/-- `resize` of a string. -/
def resize (s : Bytes) (size : Nat) : Bytes := s.take size ++ List.replicate (size - s.length) 0

namespace Base64Encoding

def maxLineLength : Nat := 72

def getEncodingTable : Bytes :=
  ascii "ABCDEFGHIJKLMNOPQRSTUVWXYZabcdefghijklmnopqrstuvwxyz0123456789+/"

def getDecodingTable : Bytes :=
  List.replicate 43 0 ++ [62, 0, 62, 0, 63, 52, 53, 54, 55, 56, 57, 58, 59, 60, 61] ++
    List.replicate 7 0 ++
    [0, 1, 2, 3, 4, 5, 6, 7, 8, 9, 10, 11, 12, 13, 14, 15, 16, 17, 18, 19, 20, 21, 22, 23, 24, 25] ++
    [0, 0, 0, 0, 63, 0] ++
    [26, 27, 28, 29, 30, 31, 32, 33, 34, 35, 36, 37, 38, 39, 40, 41, 42, 43, 44, 45, 46, 47, 48, 49,
      50, 51] ++
    List.replicate 133 0

def calcEnoughEncodedLength (length : Nat) : Nat :=
  let groups := if 0 < length % 3 then length / 3 + 1 else length / 3
  let len := groups * 4
  let line := if 0 < len % maxLineLength then len / maxLineLength + 1 else len / maxLineLength
  len + line * 2

def calcEnoughDecodedLength (length : Nat) : Nat := length

/-! ## Encoding -/

/-- The variables of `do_encode`: the buffer, the place in it, and what is counted. -/
structure Encoder where
  dst : Bytes
  pDst : Nat
  nDstLen : Nat
  nLineLen : Nat

/-- The character of six bits. -/
def letter (six : Nat) : UInt8 := getEncodingTable.getD six 0

namespace Encoder

/-- Characters are written at the place, which moves on. -/
def put (chars : Bytes) (encoder : Encoder) : Option Encoder :=
  (assignAll chars encoder.pDst encoder.dst).map fun dst =>
    { encoder with dst, pDst := encoder.pDst + chars.length }

/-- The end of a line: the delimiter is copied to the place, which stays. -/
def endLine (delimiter : Bytes) (encoder : Encoder) : Option Encoder :=
  if maxLineLength - 4 < encoder.nLineLen then
    if 0 < delimiter.length then
      (assignAll delimiter encoder.pDst encoder.dst).map fun dst =>
        { encoder with dst, nDstLen := encoder.nDstLen + delimiter.length, nLineLen := 0 }
    else some { encoder with nLineLen := 0 }
  else some encoder

end Encoder

def doEncode (delimiter : Bytes) : Bytes → Encoder → Option Encoder
  | c1 :: c2 :: c3 :: pSrc, encoder => do
      let encoder ← encoder.put [letter (c1.toNat >>> 2),
        letter ((c1.toNat <<< 4 ||| c2.toNat >>> 4) &&& 0x3f),
        letter ((c2.toNat <<< 2 ||| c3.toNat >>> 6) &&& 0x3f), letter (c3.toNat &&& 0x3f)]
      let encoder ← { encoder with
        nLineLen := encoder.nLineLen + 4, nDstLen := encoder.nDstLen + 4 }.endLine delimiter
      doEncode delimiter pSrc encoder
  | [c1], encoder => do
      let encoder ← encoder.put [letter ((c1.toNat &&& 0xfc) >>> 2),
        letter ((c1.toNat &&& 0x03) <<< 4), 61, 61]
      return { encoder with nLineLen := encoder.nLineLen + 4, nDstLen := encoder.nDstLen + 4 }
  | [c1, c2], encoder => do
      let encoder ← encoder.put [letter ((c1.toNat &&& 0xfc) >>> 2),
        letter ((c1.toNat &&& 0x03) <<< 4 ||| (c2.toNat &&& 0xf0) >>> 4),
        letter ((c2.toNat &&& 0x0f) <<< 2), 61]
      return { encoder with nDstLen := encoder.nDstLen + 4 }
  | [], encoder => some encoder

/-- `encode` with a line delimiter; there is no answer where a write is outside the buffer. -/
def encode (delimiter : Bytes) (str : Bytes) : Option Bytes :=
  let size := calcEnoughEncodedLength str.length
  if 0 < size then
    (doEncode delimiter str ⟨resize [] size, 0, 0, 0⟩).map fun encoder =>
      resize encoder.dst encoder.nDstLen
  else some []

/-! ## Decoding -/

/-- The variables of `do_decode`: the buffer, and the count, which is also the place in it. -/
structure Decoder where
  dst : Bytes
  nDstLen : Nat

def Decoder.put (val : Nat) (decoder : Decoder) : Option Decoder :=
  (assignAll [UInt8.ofNat val] decoder.nDstLen decoder.dst).map fun dst =>
    ⟨dst, decoder.nDstLen + 1⟩

/-- `DeBase64Tab[*pSrc++]`: a character above 127 is a negative index. -/
def readSix : Bytes → Option (Nat × Bytes)
  | [] => none
  | ch :: pSrc =>
      if ch < 128 then some ((getDecodingTable.getD ch.toNat 0).toNat, pSrc) else none

/-- A group of characters, of which the second and the third may be followed by padding; there is
no answer where a read, a write or an index is outside. -/
def decodeGroup (pSrc : Bytes) (decoder : Decoder) : Option (Bytes × Decoder) := do
  let (first, pSrc) ← readSix pSrc
  let (second, pSrc) ← readSix pSrc
  let nValue := first <<< 18 + second <<< 12
  let decoder ← decoder.put ((nValue &&& 0x00ff0000) >>> 16)
  if (← pSrc.head?) = 61 then
    return (pSrc, decoder)
  let (third, pSrc) ← readSix pSrc
  let nValue := nValue + third <<< 6
  let decoder ← decoder.put ((nValue &&& 0x0000ff00) >>> 8)
  if (← pSrc.head?) = 61 then
    return (pSrc, decoder)
  let (fourth, pSrc) ← readSix pSrc
  let nValue := nValue + fourth
  let decoder ← decoder.put (nValue &&& 0x000000ff)
  return (pSrc, decoder)

/-- The loop of `do_decode`, with as many characters left to count. -/
def decodeLoop : Nat → Nat → Bytes → Decoder → Option Decoder
  | 0, _, _, decoder => some decoder
  | fuel + 1, left, pSrc, decoder =>
      if left = 0 then some decoder
      else do
        let ch ← pSrc.head?
        if ch ≠ 13 ∧ ch ≠ 10 then
          let (pSrc, decoder) ← decodeGroup pSrc decoder
          decodeLoop fuel (left - 4) pSrc decoder
        else decodeLoop fuel (left - 1) pSrc.tail decoder

/-- `decode`: every turn of the loop counts a character at least. -/
def decode (str : Bytes) : Option Bytes :=
  let size := calcEnoughDecodedLength str.length
  if 0 < size then
    (decodeLoop str.length str.length str ⟨resize [] size, 0⟩).map fun decoder =>
      resize decoder.dst decoder.nDstLen
  else some []

/-! ## Six bits -/

/-- The characters of three bytes. -/
def group (c1 c2 c3 : UInt8) : Bytes :=
  [letter (c1.toNat / 4), letter (c1.toNat % 4 * 16 + c2.toNat / 16),
    letter (c2.toNat % 16 * 4 + c3.toNat / 64), letter (c3.toNat % 64)]

/-- The characters of some bytes, without line delimiters. -/
def encoded : Bytes → Bytes
  | c1 :: c2 :: c3 :: src => group c1 c2 c3 ++ encoded src
  | [c1] => (group c1 0 0).take 2 ++ [61, 61]
  | [c1, c2] => (group c1 c2 0).take 3 ++ [61]
  | [] => []

theorem length_encoded (src : Bytes) : (encoded src).length = 4 * ((src.length + 2) / 3) := by
  induction src using encoded.induct with
  | case1 c1 c2 c3 src ih =>
      rw [encoded, List.length_append, ih]
      show 4 + 4 * ((src.length + 2) / 3) = 4 * ((src.length + 3 + 2) / 3)
      omega
  | case2 | case3 | case4 => simp [encoded, group]

theorem second_six (c1 c2 : UInt8) :
    (c1.toNat <<< 4 ||| c2.toNat >>> 4) &&& 0x3f = c1.toNat % 4 * 16 + c2.toNat / 16 := by
  have small := c2.toNat_lt
  have low : c2.toNat >>> 4 < 2 ^ 4 := by
    rw [Nat.shiftRight_eq_div_pow]
    omega
  have whole := Nat.two_pow_add_eq_or_of_lt low c1.toNat
  rw [Nat.shiftLeft_eq, Nat.mul_comm, ← whole, Nat.and_two_pow_sub_one_eq_mod _ 6,
    Nat.shiftRight_eq_div_pow]
  omega

theorem third_six (c2 c3 : UInt8) :
    (c2.toNat <<< 2 ||| c3.toNat >>> 6) &&& 0x3f = c2.toNat % 16 * 4 + c3.toNat / 64 := by
  have small := c3.toNat_lt
  have low : c3.toNat >>> 6 < 2 ^ 2 := by
    rw [Nat.shiftRight_eq_div_pow]
    omega
  have whole := Nat.two_pow_add_eq_or_of_lt low c2.toNat
  rw [Nat.shiftLeft_eq, Nat.mul_comm, ← whole, Nat.and_two_pow_sub_one_eq_mod _ 6,
    Nat.shiftRight_eq_div_pow]
  omega

/-- The six bits of a character that is followed by padding. -/
theorem padded_six (c1 c2 : UInt8) :
    (c1.toNat &&& 0xfc) >>> 2 = c1.toNat / 4 ∧ (c1.toNat &&& 0x03) <<< 4 = c1.toNat % 4 * 16 ∧
      (c1.toNat &&& 0x03) <<< 4 ||| (c2.toNat &&& 0xf0) >>> 4 =
        c1.toNat % 4 * 16 + c2.toNat / 16 ∧
      (c2.toNat &&& 0x0f) <<< 2 = c2.toNat % 16 * 4 := by
  have top : (c1.toNat &&& 0xfc) >>> 2 = c1.toNat / 4 :=
    forall_byte (p := fun c => (c.toNat &&& 0xfc) >>> 2 = c.toNat / 4) (by decide +kernel) c1
  have high : (c2.toNat &&& 0xf0) >>> 4 = c2.toNat / 16 :=
    forall_byte (p := fun c => (c.toNat &&& 0xf0) >>> 4 = c.toNat / 16) (by decide +kernel) c2
  have two : (c1.toNat &&& 0x03) <<< 4 = 2 ^ 4 * (c1.toNat % 4) := by
    rw [Nat.and_two_pow_sub_one_eq_mod _ 2, Nat.shiftLeft_eq, Nat.mul_comm]
  have four : (c2.toNat &&& 0x0f) <<< 2 = c2.toNat % 16 * 4 := by
    rw [Nat.and_two_pow_sub_one_eq_mod _ 4, Nat.shiftLeft_eq]
  have small := c2.toNat_lt
  refine ⟨top, by omega, ?_, four⟩
  rw [two, high, ← Nat.two_pow_add_eq_or_of_lt (by omega)]
  omega

/-! ## What is encoded -/

namespace Encoder

/-- A text is written, and somewhat more is counted. -/
structure Wrote (encoder : Encoder) (text : Bytes) (extra : Nat) : Prop where
  start : text <+: encoder.dst
  place : encoder.pDst = text.length
  counted : encoder.nDstLen = text.length + extra

variable {encoder : Encoder} {text : Bytes} {extra : Nat}

/-- Four characters are written, and are to be counted. -/
theorem Wrote.put (wrote : encoder.Wrote text extra) {chars : Bytes} (four : chars.length = 4)
    (room : text.length + 4 ≤ encoder.dst.length) :
    ∃ dst, encoder.put chars = some { encoder with dst, pDst := (text ++ chars).length } ∧
      (∀ nLineLen, Wrote ⟨dst, (text ++ chars).length, encoder.nDstLen + 4, nLineLen⟩
        (text ++ chars) extra) ∧
      dst.length = encoder.dst.length := by
  obtain ⟨tail, start⟩ := wrote.start
  have fits : chars.length ≤ tail.length := by
    rw [← start, List.length_append] at room
    omega
  have assigned := assignAll_append chars text tail
  rw [if_pos fits, start] at assigned
  refine ⟨text ++ chars ++ tail.drop chars.length, ?_, ?_, ?_⟩
  · rw [Encoder.put, wrote.place, assigned, List.length_append]
    rfl
  · intro nLineLen
    refine ⟨List.prefix_append _ _, rfl, ?_⟩
    show encoder.nDstLen + 4 = _
    rw [List.length_append, four, wrote.counted]
    omega
  · rw [← start]
    simp only [List.length_append, List.length_drop]
    omega

/-- The end of a line keeps what is written, whatever is copied behind it. -/
theorem Wrote.endLine (wrote : encoder.Wrote text extra) {delimiter : Bytes}
    (room : text.length + delimiter.length ≤ encoder.dst.length) :
    ∃ after more, encoder.endLine delimiter = some after ∧ after.Wrote text more ∧
      after.dst.length = encoder.dst.length ∧ (delimiter = [] → more = extra) := by
  obtain ⟨tail, start⟩ := wrote.start
  rw [Encoder.endLine]
  by_cases ends : maxLineLength - 4 < encoder.nLineLen
  · by_cases some : 0 < delimiter.length
    · have fits : delimiter.length ≤ tail.length := by
        rw [← start, List.length_append] at room
        omega
      have assigned := assignAll_append delimiter text tail
      rw [if_pos fits, start] at assigned
      rw [if_pos ends, if_pos some, wrote.place, assigned]
      refine ⟨_, extra + delimiter.length, rfl, ⟨?_, rfl, ?_⟩, ?_, ?_⟩
      · rw [List.append_assoc]
        exact List.prefix_append _ _
      · rw [← Nat.add_assoc, ← wrote.counted]
      · rw [← start]
        simp only [List.length_append, List.length_drop]
        omega
      · rintro rfl
        exact absurd some (Nat.lt_irrefl 0)
    · rw [if_pos ends, if_neg some]
      exact ⟨_, extra, rfl, ⟨wrote.start, wrote.place, wrote.counted⟩, rfl, fun _ => rfl⟩
  · rw [if_neg ends]
    exact ⟨encoder, extra, rfl, wrote, rfl, fun _ => rfl⟩

end Encoder

theorem doEncode_full (delimiter : Bytes) (c1 c2 c3 : UInt8) (src : Bytes) (encoder : Encoder) :
    doEncode delimiter (c1 :: c2 :: c3 :: src) encoder =
      (encoder.put (group c1 c2 c3)).bind fun encoder =>
        ({ encoder with nLineLen := encoder.nLineLen + 4,
                        nDstLen := encoder.nDstLen + 4 }.endLine delimiter).bind
          (doEncode delimiter src) := by
  have last : c3.toNat &&& 0x3f = c3.toNat % 64 := Nat.and_two_pow_sub_one_eq_mod _ 6
  rw [doEncode, second_six, third_six, last, Nat.shiftRight_eq_div_pow]
  rfl

theorem doEncode_one (delimiter : Bytes) (c1 : UInt8) (encoder : Encoder) :
    doEncode delimiter [c1] encoder = (encoder.put (encoded [c1])).map fun encoder =>
      { encoder with nLineLen := encoder.nLineLen + 4, nDstLen := encoder.nDstLen + 4 } := by
  obtain ⟨first, second, -⟩ := padded_six c1 0
  rw [doEncode, first, second, Option.map_eq_bind]
  rfl

theorem doEncode_two (delimiter : Bytes) (c1 c2 : UInt8) (encoder : Encoder) :
    doEncode delimiter [c1, c2] encoder = (encoder.put (encoded [c1, c2])).map fun encoder =>
      { encoder with nDstLen := encoder.nDstLen + 4 } := by
  obtain ⟨first, -, second, third⟩ := padded_six c1 c2
  rw [doEncode, first, second, third, Option.map_eq_bind]
  rfl

namespace Encoder

variable {encoder : Encoder} {text : Bytes} {extra : Nat}

/-- **Where there is room, all characters are written, and the delimiters do not stay.** -/
theorem Wrote.doEncode (delimiter : Bytes) (src : Bytes) (wrote : encoder.Wrote text extra)
    (room : text.length + (encoded src).length + delimiter.length ≤ encoder.dst.length) :
    ∃ after more, Base64Encoding.doEncode delimiter src encoder = some after ∧
      after.Wrote (text ++ encoded src) more ∧ after.dst.length = encoder.dst.length ∧
      (delimiter = [] → more = extra) := by
  induction src using encoded.induct generalizing encoder text extra with
  | case1 c1 c2 c3 src ih =>
      have size : (encoded (c1 :: c2 :: c3 :: src)).length = 4 + (encoded src).length :=
        List.length_append
      obtain ⟨dst, put, counted, length⟩ := @Wrote.put _ _ _ wrote (group c1 c2 c3) rfl (by omega)
      obtain ⟨ended, more, line, wroteLine, sameLine, plainLine⟩ := @Wrote.endLine _ _ _
        (counted (encoder.nLineLen + 4)) delimiter
        (by rw [List.length_append, length]; show text.length + 4 + _ ≤ _; omega)
      obtain ⟨after, most, rest, wroteAll, same, plain⟩ := ih wroteLine
        (by rw [sameLine, List.length_append, length]; show text.length + 4 + _ + _ ≤ _; omega)
      refine ⟨after, most, ?_, ?_, same.trans (sameLine.trans length), ?_⟩
      · rw [doEncode_full, put, Option.bind_some, line, Option.bind_some, rest]
      · rw [encoded, ← List.append_assoc]
        exact wroteAll
      · intro none
        rw [plain none, plainLine none]
  | case2 c1 =>
      have four : (encoded [c1]).length = 4 := by
        rw [length_encoded, List.length_singleton]
      obtain ⟨dst, put, counted, length⟩ := wrote.put four (by omega)
      exact ⟨_, extra, by rw [doEncode_one, put]; rfl, counted _, length, fun _ => rfl⟩
  | case3 c1 c2 =>
      have four : (encoded [c1, c2]).length = 4 := by
        rw [length_encoded, List.length_cons, List.length_singleton]
      obtain ⟨dst, put, counted, length⟩ := wrote.put four (by omega)
      exact ⟨_, extra, by rw [doEncode_two, put]; rfl, counted _, length, fun _ => rfl⟩
  | case4 =>
      rw [encoded, List.append_nil]
      exact ⟨encoder, extra, rfl, wrote, rfl, fun _ => rfl⟩

end Encoder

theorem length_encoded_le (src : Bytes) (nonempty : src ≠ []) :
    (encoded src).length + 2 ≤ calcEnoughEncodedLength src.length := by
  have positive := List.length_pos_iff.mpr nonempty
  rw [length_encoded, calcEnoughEncodedLength]
  simp only [maxLineLength]
  split <;> split <;> omega

theorem resize_append (s tail : Bytes) : resize (s ++ tail) s.length = s := by
  have none : s.length - (s ++ tail).length = 0 := by
    rw [List.length_append]
    omega
  rw [resize, List.take_left, none, List.replicate_zero, List.append_nil]

@[simp] theorem length_resize (s : Bytes) (size : Nat) : (resize s size).length = size := by
  rw [resize, List.length_append, List.length_take, List.length_replicate]
  omega

theorem wrote_start (size : Nat) : Encoder.Wrote ⟨resize [] size, 0, 0, 0⟩ [] 0 :=
  ⟨List.nil_prefix, rfl, rfl⟩

/-- What is counted of a buffer that begins with a text is the text. -/
theorem resize_of_isPrefix {text dst : Bytes} (start : text <+: dst) :
    resize dst text.length = text := by
  obtain ⟨tail, rfl⟩ := start
  exact resize_append text tail

/-- **Without a line delimiter the characters are what is encoded.** -/
theorem encode_nil (str : Bytes) : encode [] str = some (encoded str) := by
  rw [encode]
  by_cases empty : str = []
  · rw [empty]
    rfl
  · have room := length_encoded_le str empty
    have fits : ([] : Bytes).length + (encoded str).length + ([] : Bytes).length ≤
        (resize [] (calcEnoughEncodedLength str.length)).length := by
      rw [length_resize, List.length_nil]
      omega
    obtain ⟨after, more, done, wrote, -, plain⟩ := (wrote_start _).doEncode [] str fits
    obtain rfl := plain rfl
    rw [if_pos (by omega), done, Option.map_some, wrote.counted, Nat.add_zero,
      resize_of_isPrefix wrote.start]
    rfl

/-! ## What is decoded -/

theorem letter_spec {six : Nat} (small : six < 64) :
    letter six < 128 ∧ letter six ≠ 61 ∧ letter six ≠ 13 ∧ letter six ≠ 10 ∧
      (getDecodingTable.getD (letter six).toNat 0).toNat = six := by
  have all : ∀ six : Fin 64, letter six < 128 ∧ letter six ≠ 61 ∧ letter six ≠ 13 ∧
      letter six ≠ 10 ∧ (getDecodingTable.getD (letter six).toNat 0).toNat = six := by
    decide +kernel
  exact all ⟨six, small⟩

namespace Decoder

/-- Bytes are written, and counted. -/
structure Wrote (decoder : Decoder) (bytes : Bytes) : Prop where
  start : bytes <+: decoder.dst
  counted : decoder.nDstLen = bytes.length

variable {decoder : Decoder} {bytes : Bytes}

theorem Wrote.put (wrote : decoder.Wrote bytes) (room : bytes.length < decoder.dst.length)
    (val : Nat) : ∃ after, decoder.put val = some after ∧
      after.Wrote (bytes ++ [UInt8.ofNat val]) ∧ after.dst.length = decoder.dst.length := by
  obtain ⟨tail, start⟩ := wrote.start
  have fits : [UInt8.ofNat val].length ≤ tail.length := by
    rw [← start, List.length_append] at room
    rw [List.length_singleton]
    omega
  have assigned := assignAll_append [UInt8.ofNat val] bytes tail
  rw [if_pos fits, start] at assigned
  refine ⟨⟨bytes ++ [UInt8.ofNat val] ++ tail.drop 1, decoder.nDstLen + 1⟩, ?_, ⟨?_, ?_⟩, ?_⟩
  · rw [Decoder.put, wrote.counted, assigned]
    rfl
  · exact List.prefix_append _ _
  · rw [List.length_append, List.length_singleton, ← wrote.counted]
  · rw [← start]
    simp only [List.length_append, List.length_drop, List.length_singleton] at fits ⊢
    omega

end Decoder

/-- The bytes that are put together of six bits each. -/
theorem ofNat_joined (c1 c2 c3 : UInt8) :
    let v1 := c1.toNat / 4
    let v2 := c1.toNat % 4 * 16 + c2.toNat / 16
    let v3 := c2.toNat % 16 * 4 + c3.toNat / 64
    let v4 := c3.toNat % 64
    UInt8.ofNat (((v1 <<< 18 + v2 <<< 12) &&& 0x00ff0000) >>> 16) = c1 ∧
      UInt8.ofNat (((v1 <<< 18 + v2 <<< 12 + v3 <<< 6) &&& 0x0000ff00) >>> 8) = c2 ∧
      UInt8.ofNat ((v1 <<< 18 + v2 <<< 12 + v3 <<< 6 + v4) &&& 0x000000ff) = c3 := by
  intro v1 v2 v3 v4
  have first := c1.toNat_lt
  have second := c2.toNat_lt
  have third := c3.toNat_lt
  have high : ∀ n, (n &&& 0x00ff0000) >>> 16 = n / 2 ^ 16 % 256 := fun n => shiftRight_and_byte n 16
  have middle : ∀ n, (n &&& 0x0000ff00) >>> 8 = n / 2 ^ 8 % 256 := fun n => shiftRight_and_byte n 8
  refine ⟨?_, ?_, ?_⟩
  · apply UInt8.toNat.inj
    rw [UInt8.toNat_ofNat', high]
    simp only [Nat.shiftLeft_eq, v1, v2]
    omega
  · apply UInt8.toNat.inj
    rw [UInt8.toNat_ofNat', middle]
    simp only [Nat.shiftLeft_eq, v1, v2, v3]
    omega
  · apply UInt8.toNat.inj
    rw [UInt8.toNat_ofNat', Nat.and_two_pow_sub_one_eq_mod _ 8]
    simp only [Nat.shiftLeft_eq, v1, v2, v3, v4]
    omega

/-! ## Groups -/

/-- The six bits of a character. -/
def six (ch : UInt8) : Nat := (getDecodingTable.getD ch.toNat 0).toNat

/-- The values that a group of characters is decoded as. -/
def firstValue (a b : UInt8) : Nat := ((six a <<< 18 + six b <<< 12) &&& 0x00ff0000) >>> 16

def secondValue (a b c : UInt8) : Nat :=
  ((six a <<< 18 + six b <<< 12 + six c <<< 6) &&& 0x0000ff00) >>> 8

def thirdValue (a b c e : UInt8) : Nat :=
  (six a <<< 18 + six b <<< 12 + six c <<< 6 + six e) &&& 0x000000ff

theorem readSix_of_lt {ch : UInt8} (inside : ch < 128) (pSrc : Bytes) :
    readSix (ch :: pSrc) = some (six ch, pSrc) :=
  if_pos inside

theorem decodeGroup_two {a b : UInt8} (first : a < 128) (second : b < 128) (src : Bytes)
    (decoder : Decoder) : decodeGroup (a :: b :: 61 :: src) decoder =
      (decoder.put (firstValue a b)).map fun decoder => (61 :: src, decoder) := by
  rw [decodeGroup, readSix_of_lt first, Option.map_eq_bind]
  simp only [Option.bind_eq_bind, Option.bind_some, readSix_of_lt second, List.head?_cons, if_true]
  rfl

theorem decodeGroup_three {a b c : UInt8} (first : a < 128) (second : b < 128) (third : c < 128)
    (noPadding : c ≠ 61) (src : Bytes) (decoder : Decoder) :
    decodeGroup (a :: b :: c :: 61 :: src) decoder =
      (decoder.put (firstValue a b)).bind fun decoder =>
        (decoder.put (secondValue a b c)).map fun decoder => (61 :: src, decoder) := by
  simp only [decodeGroup, readSix_of_lt first, readSix_of_lt second, readSix_of_lt third,
    Option.bind_eq_bind, Option.bind_some, List.head?_cons, if_neg noPadding, if_true,
    Option.map_eq_bind]
  rfl

theorem decodeGroup_four {a b c e : UInt8} (first : a < 128) (second : b < 128) (third : c < 128)
    (fourth : e < 128) (noPadding : c ≠ 61) (none : e ≠ 61) (src : Bytes) (decoder : Decoder) :
    decodeGroup (a :: b :: c :: e :: src) decoder =
      (decoder.put (firstValue a b)).bind fun decoder =>
        (decoder.put (secondValue a b c)).bind fun decoder =>
          (decoder.put (thirdValue a b c e)).map fun decoder => (src, decoder) := by
  simp only [decodeGroup, readSix_of_lt first, readSix_of_lt second, readSix_of_lt third,
    readSix_of_lt fourth, Option.bind_eq_bind, Option.bind_some, List.head?_cons,
    if_neg noPadding, if_neg none, Option.map_eq_bind]
  rfl

theorem six_letter {value : Nat} (small : value < 64) : six (letter value) = value :=
  (letter_spec small).2.2.2.2

/-- The letters of three bytes: they are inside the table, no padding, and decoded as the bytes. -/
structure Letters (c1 c2 c3 x1 x2 x3 x4 : UInt8) : Prop where
  inside : x1 < 128 ∧ x2 < 128 ∧ x3 < 128 ∧ x4 < 128
  noPadding : x3 ≠ 61 ∧ x4 ≠ 61
  noBreak : x1 ≠ 13 ∧ x1 ≠ 10
  first : UInt8.ofNat (firstValue x1 x2) = c1
  second : UInt8.ofNat (secondValue x1 x2 x3) = c2
  third : UInt8.ofNat (thirdValue x1 x2 x3 x4) = c3

theorem exists_letters (c1 c2 c3 : UInt8) :
    ∃ x1 x2 x3 x4, group c1 c2 c3 = [x1, x2, x3, x4] ∧ Letters c1 c2 c3 x1 x2 x3 x4 := by
  have first := c1.toNat_lt
  have second := c2.toNat_lt
  have third := c3.toNat_lt
  have small1 : c1.toNat / 4 < 64 := by omega
  have small2 : c1.toNat % 4 * 16 + c2.toNat / 16 < 64 := by omega
  have small3 : c2.toNat % 16 * 4 + c3.toNat / 64 < 64 := by omega
  have small4 : c3.toNat % 64 < 64 := by omega
  obtain ⟨inside1, -, noReturn, noFeed, six1⟩ := letter_spec small1
  obtain ⟨inside2, -, -, -, six2⟩ := letter_spec small2
  obtain ⟨inside3, noPadding3, -, -, six3⟩ := letter_spec small3
  obtain ⟨inside4, noPadding4, -, -, six4⟩ := letter_spec small4
  obtain ⟨joined1, joined2, joined3⟩ := ofNat_joined c1 c2 c3
  refine ⟨_, _, _, _, rfl, ⟨inside1, inside2, inside3, inside4⟩, ⟨noPadding3, noPadding4⟩,
    ⟨noReturn, noFeed⟩, ?_, ?_, ?_⟩
  · rw [firstValue, six_letter small1, six_letter small2, joined1]
  · rw [secondValue, six_letter small1, six_letter small2, six_letter small3, joined2]
  · rw [thirdValue, six_letter small1, six_letter small2, six_letter small3, six_letter small4,
      joined3]

namespace Decoder

variable {decoder : Decoder} {bytes : Bytes}

/-- The first two bytes of a group. -/
theorem Wrote.pair {c1 c2 c3 x1 x2 x3 x4 : UInt8} (wrote : decoder.Wrote bytes)
    (letters : Letters c1 c2 c3 x1 x2 x3 x4) (room : bytes.length + 2 ≤ decoder.dst.length) :
    ∃ one two, decoder.put (firstValue x1 x2) = some one ∧
      one.put (secondValue x1 x2 x3) = some two ∧ two.Wrote (bytes ++ [c1, c2]) ∧
      two.dst.length = decoder.dst.length := by
  obtain ⟨one, put1, wrote1, same1⟩ := wrote.put (by omega) (firstValue x1 x2)
  rw [letters.first] at wrote1
  obtain ⟨two, put2, wrote2, same2⟩ := wrote1.put
    (by rw [List.length_append, same1, List.length_singleton]; omega) (secondValue x1 x2 x3)
  rw [letters.second, List.append_assoc] at wrote2
  exact ⟨one, two, put1, put2, wrote2, same2.trans same1⟩

theorem Wrote.group (wrote : decoder.Wrote bytes) (c1 c2 c3 : UInt8)
    (room : bytes.length + 3 ≤ decoder.dst.length) (src : Bytes) :
    ∃ after, decodeGroup (group c1 c2 c3 ++ src) decoder = some (src, after) ∧
      after.Wrote (bytes ++ [c1, c2, c3]) ∧ after.dst.length = decoder.dst.length := by
  obtain ⟨x1, x2, x3, x4, isGroup, letters⟩ := exists_letters c1 c2 c3
  obtain ⟨inside1, inside2, inside3, inside4⟩ := letters.inside
  obtain ⟨one, two, put1, put2, wrote2, same2⟩ := wrote.pair letters (by omega)
  obtain ⟨three, put3, wrote3, same3⟩ := wrote2.put
    (by rw [List.length_append, same2]; exact room) (thirdValue x1 x2 x3 x4)
  rw [letters.third, List.append_assoc] at wrote3
  refine ⟨three, ?_, wrote3, same3.trans same2⟩
  rw [isGroup]
  refine (decodeGroup_four inside1 inside2 inside3 inside4 letters.noPadding.1
    letters.noPadding.2 src decoder).trans ?_
  rw [put1, Option.bind_some, put2, Option.bind_some, put3, Option.map_some]

theorem Wrote.one (wrote : decoder.Wrote bytes) (c1 : UInt8)
    (room : bytes.length + 1 ≤ decoder.dst.length) :
    ∃ after, decodeGroup (encoded [c1]) decoder = some ([61, 61], after) ∧
      after.Wrote (bytes ++ [c1]) := by
  obtain ⟨x1, x2, x3, x4, isGroup, letters⟩ := exists_letters c1 0 0
  obtain ⟨one, put1, wrote1, same1⟩ := wrote.put (by omega) (firstValue x1 x2)
  rw [letters.first] at wrote1
  refine ⟨one, ?_, wrote1⟩
  rw [encoded, isGroup]
  refine (decodeGroup_two letters.inside.1 letters.inside.2.1 [61] decoder).trans ?_
  rw [put1, Option.map_some]

theorem Wrote.two (wrote : decoder.Wrote bytes) (c1 c2 : UInt8)
    (room : bytes.length + 2 ≤ decoder.dst.length) :
    ∃ after, decodeGroup (encoded [c1, c2]) decoder = some ([61], after) ∧
      after.Wrote (bytes ++ [c1, c2]) := by
  obtain ⟨x1, x2, x3, x4, isGroup, letters⟩ := exists_letters c1 c2 0
  obtain ⟨inside1, inside2, inside3, inside4⟩ := letters.inside
  obtain ⟨one, two, put1, put2, wrote2, -⟩ := wrote.pair letters room
  refine ⟨two, ?_, wrote2⟩
  rw [encoded, isGroup]
  refine (decodeGroup_three inside1 inside2 inside3 letters.noPadding.1 [] decoder).trans ?_
  rw [put1, Option.bind_some, put2, Option.map_some]

end Decoder

/-- The turn of the loop at a group. -/
theorem decodeLoop_group {fuel left : Nat} {ch : UInt8} {src rest : Bytes}
    {decoder after : Decoder} (noBreak : ch ≠ 13 ∧ ch ≠ 10)
    (group : decodeGroup (ch :: src) decoder = some (rest, after)) :
    decodeLoop (fuel + 1) (left + 1) (ch :: src) decoder = decodeLoop fuel (left - 3) rest after := by
  rw [decodeLoop, if_neg (Nat.succ_ne_zero left)]
  simp only [List.head?_cons, Option.bind_eq_bind, Option.bind_some, if_pos noBreak, group]
  rw [show left + 1 - 4 = left - 3 by omega]

theorem decodeLoop_zero (fuel : Nat) (src : Bytes) (decoder : Decoder) :
    decodeLoop fuel 0 src decoder = some decoder := by
  cases fuel with
  | zero => rfl
  | succ fuel => rw [decodeLoop, if_pos rfl]

/-- The turn of the loop at the last group. -/
theorem decodeLoop_last {fuel : Nat} {ch a b c : UInt8} {rest : Bytes} {decoder after : Decoder}
    (noBreak : ch ≠ 13 ∧ ch ≠ 10)
    (group : decodeGroup [ch, a, b, c] decoder = some (rest, after)) (enough : 4 ≤ fuel) :
    decodeLoop fuel 4 [ch, a, b, c] decoder = some after := by
  obtain ⟨fuel, rfl⟩ : ∃ less, fuel = less + 1 :=
    ⟨fuel - 1, (Nat.sub_add_cancel (Nat.le_trans (Nat.succ_pos 3) enough)).symm⟩
  exact (decodeLoop_group noBreak group).trans (decodeLoop_zero fuel rest after)

/-- A line break is skipped. -/
theorem decodeLoop_break {fuel left : Nat} {ch : UInt8} (isBreak : ch = 13 ∨ ch = 10)
    (src : Bytes) (decoder : Decoder) :
    decodeLoop (fuel + 1) (left + 1) (ch :: src) decoder = decodeLoop fuel left src decoder := by
  have skipped : ¬ (ch ≠ 13 ∧ ch ≠ 10) := fun other => isBreak.elim other.1 other.2
  rw [decodeLoop, if_neg (Nat.succ_ne_zero left)]
  simp only [List.head?_cons, Option.bind_eq_bind, Option.bind_some, if_neg skipped,
    List.tail_cons, Nat.add_sub_cancel]

theorem decodeLoop_breaks {fuel : Nat} {breaks : Bytes}
    (all : ∀ ch ∈ breaks, ch = 13 ∨ ch = 10) (enough : breaks.length ≤ fuel) (decoder : Decoder) :
    decodeLoop fuel breaks.length breaks decoder = some decoder := by
  induction breaks generalizing fuel with
  | nil => exact decodeLoop_zero fuel [] decoder
  | cons ch breaks ih =>
      rw [List.forall_mem_cons] at all
      cases fuel with
      | zero => exact absurd enough (Nat.not_succ_le_zero _)
      | succ fuel =>
          rw [List.length_cons, decodeLoop_break all.1]
          exact ih all.2 (Nat.le_of_succ_le_succ enough)

namespace Decoder

variable {decoder : Decoder} {bytes : Bytes}

/-- **Encoded characters are decoded, and line breaks behind whole groups are skipped.** -/
theorem Wrote.decodeLoop (src : Bytes) {breaks : Bytes} (all : ∀ ch ∈ breaks, ch = 13 ∨ ch = 10)
    (whole : src.length % 3 = 0 ∨ breaks = []) (wrote : decoder.Wrote bytes)
    (room : bytes.length + src.length ≤ decoder.dst.length) {fuel : Nat}
    (enough : (encoded src).length + breaks.length ≤ fuel) :
    ∃ after, Base64Encoding.decodeLoop fuel ((encoded src).length + breaks.length)
      (encoded src ++ breaks) decoder = some after ∧ after.Wrote (bytes ++ src) := by
  induction src using encoded.induct generalizing decoder bytes fuel with
  | case1 c1 c2 c3 src ih =>
      obtain ⟨x1, x2, x3, x4, isGroup, letters⟩ := exists_letters c1 c2 c3
      have size : (encoded (c1 :: c2 :: c3 :: src)).length + breaks.length =
          (encoded src).length + breaks.length + 3 + 1 := by
        rw [encoded, isGroup, List.length_append]
        show 4 + (encoded src).length + breaks.length = _
        omega
      have three : (c1 :: c2 :: c3 :: src).length = src.length + 3 := rfl
      obtain ⟨next, group, wroteGroup, same⟩ := wrote.group c1 c2 c3 (by omega)
        (encoded src ++ breaks)
      obtain ⟨fuel, rfl⟩ : ∃ less, fuel = less + 1 := ⟨fuel - 1, by omega⟩
      have roomNext : (bytes ++ [c1, c2, c3]).length + src.length ≤ next.dst.length := by
        rw [List.length_append, same]
        show bytes.length + 3 + src.length ≤ _
        omega
      have wholeNext : src.length % 3 = 0 ∨ breaks = [] := by
        rw [three, Nat.add_mod_right] at whole
        exact whole
      obtain ⟨after, rest, wroteAll⟩ := @ih next _ wholeNext wroteGroup roomNext fuel (by omega)
      rw [isGroup] at group
      refine ⟨after, ?_, ?_⟩
      · rw [size, encoded, isGroup, List.append_assoc]
        exact (decodeLoop_group letters.noBreak group).trans rest
      · rw [List.append_assoc] at wroteAll
        exact wroteAll
  | case2 c1 =>
      obtain rfl := whole.resolve_left (show ¬ 1 % 3 = 0 by decide)
      obtain ⟨x1, x2, x3, x4, isGroup, letters⟩ := exists_letters c1 0 0
      obtain ⟨after, group, wroteAll⟩ := wrote.one c1 room
      have text : encoded [c1] = [x1, x2, 61, 61] := by
        rw [encoded, isGroup]
        rfl
      rw [text] at group enough
      refine ⟨after, ?_, wroteAll⟩
      rw [text]
      exact decodeLoop_last letters.noBreak group enough
  | case3 c1 c2 =>
      obtain rfl := whole.resolve_left (show ¬ 2 % 3 = 0 by decide)
      obtain ⟨x1, x2, x3, x4, isGroup, letters⟩ := exists_letters c1 c2 0
      obtain ⟨after, group, wroteAll⟩ := wrote.two c1 c2 room
      have text : encoded [c1, c2] = [x1, x2, x3, 61] := by
        rw [encoded, isGroup]
        rfl
      rw [text] at group enough
      refine ⟨after, ?_, wroteAll⟩
      rw [text]
      exact decodeLoop_last letters.noBreak group enough
  | case4 =>
      have none : encoded [] = [] := by rw [encoded]
      rw [none, List.length_nil, Nat.zero_add] at enough ⊢
      rw [List.append_nil]
      exact ⟨decoder, decodeLoop_breaks all enough decoder, wrote⟩

end Decoder

/-- **What is encoded is decoded**, with line breaks behind it where it has no padding. -/
theorem decode_encoded (str : Bytes) {breaks : Bytes} (all : ∀ ch ∈ breaks, ch = 13 ∨ ch = 10)
    (whole : str.length % 3 = 0 ∨ breaks = []) : decode (encoded str ++ breaks) = some str := by
  have longer : str.length ≤ (encoded str ++ breaks).length := by
    rw [List.length_append, length_encoded]
    omega
  rw [decode]
  by_cases some : 0 < calcEnoughDecodedLength (encoded str ++ breaks).length
  · have start : Decoder.Wrote ⟨resize [] (encoded str ++ breaks).length, 0⟩ [] :=
      ⟨List.nil_prefix, rfl⟩
    obtain ⟨after, decoded, wrote⟩ := start.decodeLoop str all whole
      (by rw [length_resize, List.length_nil, Nat.zero_add]; exact longer)
      (Nat.le_of_eq List.length_append.symm)
    rw [← List.length_append] at decoded
    rw [if_pos some, calcEnoughDecodedLength, decoded, Option.map_some, wrote.counted,
      resize_of_isPrefix wrote.start]
    rfl
  · have empty : str.length = 0 := Nat.le_zero.mp (longer.trans (not_lt.mp some))
    rw [if_neg some, List.eq_nil_of_length_eq_zero empty]

/-- **Base64 round trip.**  The characters fit into the buffer, as do the bytes that are decoded. -/
theorem decode_encode_str (str : Bytes) :
    ∃ text, encode [] str = some text ∧ text.length = 4 * ((str.length + 2) / 3) ∧
      text.length ≤ calcEnoughEncodedLength str.length ∧ decode text = some str := by
  refine ⟨encoded str, encode_nil str, length_encoded str, ?_, ?_⟩
  · by_cases empty : str = []
    · rw [empty, encoded]
      exact Nat.zero_le _
    · exact Nat.le_of_add_right_le (length_encoded_le str empty)
  · have decoded := @decode_encoded str [] nofun (.inr rfl)
    rwa [List.append_nil] at decoded

end Base64Encoding

end Xul
