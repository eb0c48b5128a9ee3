import Xul.Std.Bytes

/-!
# Integers of variable length

`bmf_integer_encoding` writes a sign and the magnitude of a 64-bit integer.  The first byte
has the sign, a mark of how many bytes follow, and the highest bits of the magnitude where
the mark leaves room for them; the bytes that follow have the highest first.
-/

set_option autoImplicit false

namespace Xul

namespace BmfIntegerEncoding

/-- `get_flag_bytes` -/
def flagBytes : List UInt8 := [0x0, 0x40, 0x60, 0x70, 0x78, 0x7C, 0x7D, 0x7E, 0x7F]

/-- `get_byte_limits` -/
def byteLimits : List UInt8 := [63, 31, 15, 7, 3, 0, 0, 0, 0]

/-- The loop of `encode`, over the marks and limits that are left: low bytes go to the buffer
until what remains fits beside a mark. -/
def encodeLoop (signFlag : UInt8) : List (UInt8 × UInt8) → UInt64 → Bytes → Bytes
  | [], _, buf => buf
  | (flag, limit) :: forms, remaining, buf =>
      if remaining = 0 ∨ remaining ≤ limit.toUInt64 then
        (signFlag ||| remaining.toUInt8 ||| flag) :: buf
      else encodeLoop signFlag forms (remaining >>> 8) (remaining.toUInt8 :: buf)

/-- The negation of the least integer wraps around to its magnitude. -/
def encode (val : Int64) : Bytes :=
  if 0 ≤ val then encodeLoop 0x80 (flagBytes.zip byteLimits) val.toUInt64 []
  else encodeLoop 0 (flagBytes.zip byteLimits) (-val).toUInt64 []

/-- The first loop of `decode`: how many bytes follow a first byte. -/
def position (flagByte : UInt8) : List UInt8 → Nat
  | [] => 0
  | flag :: flags => if flagByte < flag then 0 else position flagByte flags + 1

/-- The second loop of `decode`. -/
def accumulate (result : UInt64) (buf : Bytes) : UInt64 :=
  buf.foldl (fun result byte => result <<< 8 ||| byte.toUInt64) result

/-- The integer at the head of the input, and what is left.  Where bytes are missing the
first byte is gone and the others are left. -/
def decode : Bytes → Option Int64 × Bytes
  | [] => (none, [])
  | firstByte :: s =>
      let flagByte := firstByte &&& 0x7F
      let pos := position flagByte flagBytes.tail
      if s.length < pos then (none, s)
      else
        let result := accumulate (flagByte &&& byteLimits.getD pos 0).toUInt64 (s.take pos)
        (some (if firstByte &&& 0x80 ≠ 0 then result.toInt64 else -result.toInt64), s.drop pos)

/-- What is left is no more than there was, and less when there was something. -/
theorem length_decode_le (s : Bytes) : (decode s).2.length ≤ s.length - 1 := by
  cases s with
  | nil => exact le_rfl
  | cons firstByte s =>
      rw [decode, List.length_cons, Nat.add_sub_cancel]
      split
      · exact le_rfl
      · rw [List.length_drop]
        exact Nat.sub_le ..

/-- What follows an integer does not matter to it. -/
theorem decode_append {s rest : Bytes} {val : Int64} (decoded : decode s = (some val, rest))
    (more : Bytes) : decode (s ++ more) = (some val, rest ++ more) := by
  cases s with
  | nil => exact absurd decoded nofun
  | cons firstByte s =>
      rw [decode] at decoded
      split at decoded
      · exact absurd decoded nofun
      · next enough =>
          have le := Nat.le_of_not_lt enough
          obtain ⟨result, rfl⟩ := Prod.mk.inj decoded
          rw [List.cons_append, decode, if_neg (by rw [List.length_append]; omega),
            List.take_append_of_le_length le, List.drop_append_of_le_length le, ← result]

/-- An integer is decoded from the bytes in front of what is left. -/
theorem decode_split {s rest : Bytes} {val : Int64} (decoded : decode s = (some val, rest)) :
    ∃ head, s = head ++ rest ∧ decode head = (some val, []) := by
  cases s with
  | nil => exact absurd decoded nofun
  | cons firstByte s =>
      rw [decode] at decoded
      split at decoded
      · exact absurd decoded nofun
      · next enough =>
          obtain ⟨result, rfl⟩ := Prod.mk.inj decoded
          refine ⟨firstByte :: s.take (position (firstByte &&& 0x7F) flagBytes.tail), ?_, ?_⟩
          · rw [List.cons_append, List.take_append_drop]
          · rw [decode, if_neg (by rw [List.length_take]; omega), List.take_take, Nat.min_self,
              List.drop_take_self, ← result]

/-! ## Round trip -/

/-- A first byte is told apart by its sign, its mark and its bits. -/
theorem firstByte_eq (pos : Fin 9) (head : Fin 64)
    (le : UInt8.ofNat head ≤ byteLimits.getD pos 0) (negative : Bool) :
    let signFlag : UInt8 := if negative then 0 else 0x80
    let firstByte := signFlag ||| UInt8.ofNat head ||| flagBytes.getD pos 0
    position (firstByte &&& 0x7F) flagBytes.tail = pos ∧
      firstByte &&& 0x7F &&& byteLimits.getD pos 0 = UInt8.ofNat head ∧
        (firstByte &&& 0x80 ≠ 0 ↔ negative = false) := by
  revert pos head negative
  decide +kernel

/-- The lowest byte is moved behind the others. -/
theorem shiftLeft_shiftRight_or (remaining : UInt64) :
    remaining >>> 8 <<< 8 ||| remaining.toUInt8.toUInt64 = remaining := by
  apply UInt64.toNat.inj
  have bound := remaining.toNat_lt
  have low : remaining.toNat % 256 < 2 ^ 8 := Nat.mod_lt _ (by decide)
  have high : remaining.toNat / 256 * 256 % 2 ^ 64 = 2 ^ 8 * (remaining.toNat / 256) := by omega
  have parts := Nat.two_pow_add_eq_or_of_lt low (remaining.toNat / 256)
  simp only [UInt64.toNat_or, UInt64.toNat_shiftLeft, UInt64.toNat_shiftRight,
    Nat.shiftRight_eq_div_pow, Nat.shiftLeft_eq]
  calc remaining.toNat / 256 * 256 % 2 ^ 64 ||| remaining.toNat % 256
      = 2 ^ 8 * (remaining.toNat / 256) ||| remaining.toNat % 256 := by rw [high]
    _ = 2 ^ 8 * (remaining.toNat / 256) + remaining.toNat % 256 := parts.symm
    _ = remaining.toNat := Nat.div_add_mod ..

@[simp] theorem accumulate_cons (result : UInt64) (byte : UInt8) (buf : Bytes) :
    accumulate result (byte :: buf) = accumulate (result <<< 8 ||| byte.toUInt64) buf := rfl

theorem forms_head (pos : Fin 9) :
    ((flagBytes.zip byteLimits).drop pos).head? =
      some (flagBytes.getD pos 0, byteLimits.getD pos 0) := by
  revert pos
  decide

theorem forms_nil {pos : Nat} (isForms : [] = (flagBytes.zip byteLimits).drop pos) :
    ¬ pos < 9 := by
  have nine : (flagBytes.zip byteLimits).length = 9 := rfl
  rw [not_lt, ← nine]
  exact List.drop_eq_nil_iff.mp isForms.symm

/-- The next form, and those behind it. -/
theorem forms_cons {form : UInt8 × UInt8} {forms : List (UInt8 × UInt8)} {pos : Nat}
    (isForms : form :: forms = (flagBytes.zip byteLimits).drop pos) (inside : pos < 9) :
    form = (flagBytes.getD pos 0, byteLimits.getD pos 0) ∧
      forms = (flagBytes.zip byteLimits).drop (pos + 1) := by
  constructor
  · have first := forms_head ⟨pos, inside⟩
    rw [← isForms] at first
    exact Option.some.inj first
  · rw [← List.tail_drop, ← isForms, List.tail_cons]

/-- **The form that the loop ends with**: the highest bits fit beside the mark, and the bytes
that follow add the others. -/
theorem encodeLoop_eq {signFlag : UInt8} {forms : List (UInt8 × UInt8)} {remaining : UInt64}
    {buf : Bytes} (isForms : forms = (flagBytes.zip byteLimits).drop buf.length)
    (inside : buf.length < 9) (small : remaining.toNat < 256 ^ (8 - buf.length)) :
    ∃ (head : UInt8) (after : Bytes), after.length < 9 ∧
      head ≤ byteLimits.getD after.length 0 ∧
        encodeLoop signFlag forms remaining buf =
          (signFlag ||| head ||| flagBytes.getD after.length 0) :: after ∧
        accumulate head.toUInt64 after = accumulate remaining buf := by
  induction forms generalizing remaining buf with
  | nil =>
      exact absurd inside (forms_nil isForms)
  | cons form forms ih =>
      obtain ⟨here, rest⟩ := forms_cons isForms inside
      rw [here, encodeLoop]
      split
      · next fits =>
          have below : remaining ≤ (byteLimits.getD buf.length 0).toUInt64 := by
            obtain zero | le := fits
            · rw [zero]
              exact UInt64.zero_le
            · exact le
          have byte : remaining.toUInt8.toUInt64 = remaining := by
            apply UInt64.toNat.inj
            have limit := (byteLimits.getD buf.length 0).toNat_lt
            have le := UInt64.le_iff_toNat_le.mp below
            simp only [UInt8.toNat_toUInt64] at le
            simp only [UInt8.toNat_toUInt64, UInt64.toNat_toUInt8]
            omega
          refine ⟨remaining.toUInt8, buf, inside, ?_, rfl, by rw [byte]⟩
          rw [UInt8.le_iff_toNat_le, ← UInt8.toNat_toUInt64, byte, ← UInt8.toNat_toUInt64]
          exact UInt64.le_iff_toNat_le.mp below
      · next wide =>
          have more : buf.length + 1 < 9 := by
            by_contra last
            have eight : 8 - buf.length = 0 := by omega
            rw [eight, pow_zero] at small
            exact wide (Or.inl (UInt64.toNat.inj (Nat.lt_one_iff.mp small)))
          have shifted : (remaining >>> 8).toNat < 256 ^ (8 - (buf.length + 1)) := by
            have power : 256 ^ (8 - buf.length) = 256 * 256 ^ (8 - (buf.length + 1)) := by
              rw [← pow_succ']
              congr 1
              omega
            rw [UInt64.toNat_shiftRight, Nat.shiftRight_eq_div_pow]
            exact Nat.div_lt_of_lt_mul (power ▸ small)
          obtain ⟨head, after, shorter, le, loop, whole⟩ :=
            @ih (remaining >>> 8) (remaining.toUInt8 :: buf) rest more shifted
          exact ⟨head, after, shorter, le, loop, by
            rw [whole, accumulate_cons, shiftLeft_shiftRight_or]⟩

theorem decode_encodeLoop (negative : Bool) (magnitude : UInt64) (rest : Bytes) :
    decode (encodeLoop (if negative then 0 else 0x80) (flagBytes.zip byteLimits) magnitude [] ++
        rest) =
      (some (if negative then -magnitude.toInt64 else magnitude.toInt64), rest) := by
  obtain ⟨head, after, short, le, loop, whole⟩ :=
    @encodeLoop_eq (if negative then 0 else 0x80) (flagBytes.zip byteLimits) magnitude [] rfl
      (by decide) magnitude.toNat_lt
  have narrow : head.toNat < 64 := by
    have limits : ∀ pos : Fin 9, (byteLimits.getD pos 0).toNat < 64 := by decide
    exact (UInt8.le_iff_toNat_le.mp le).trans_lt (limits ⟨after.length, short⟩)
  have self : UInt8.ofNat head.toNat = head := UInt8.ofNat_toNat
  obtain ⟨follow, bits, sign⟩ :=
    firstByte_eq ⟨after.length, short⟩ ⟨head.toNat, narrow⟩ (by rw [self]; exact le) negative
  rw [self] at follow bits sign
  rw [loop, List.cons_append, decode]
  simp only [follow, bits, List.take_left, List.drop_left, whole, sign]
  rw [if_neg (by rw [List.length_append]; omega)]
  cases negative with
  | false => rfl
  | true => rfl

/-- **What is written is read back**, whatever follows it. -/
theorem decode_encode (val : Int64) (rest : Bytes) :
    decode (encode val ++ rest) = (some val, rest) := by
  rw [encode]
  split
  · have positive := decode_encodeLoop false val.toUInt64 rest
    rwa [if_neg Bool.false_ne_true, if_neg Bool.false_ne_true, Int64.toInt64_toUInt64] at positive
  · have negative := decode_encodeLoop true (-val).toUInt64 rest
    rwa [if_pos rfl, if_pos rfl, Int64.toInt64_toUInt64, Int64.neg_neg] at negative

example : decode [0x7C, 0x80, 0, 0, 0, 0, 7] = (some (-549755813888), [7]) := by decide

/-! ## Lengths -/

/-- The `pos` of `encode` behind its loop, over the limits that are left: -1 where no limit
holds what remains, which is asserted not to happen. -/
def encodePos : List UInt8 → Nat → UInt64 → Int
  | [], _, _ => -1
  | limit :: limits, i, remaining =>
      if remaining = 0 ∨ remaining ≤ limit.toUInt64 then 8 - i
      else encodePos limits (i + 1) (remaining >>> 8)

/-- What `encode` writes behind the sign. -/
def magnitude (val : Int64) : UInt64 := if 0 ≤ val then val.toUInt64 else (-val).toUInt64

/-- How many bits of magnitude the documented forms have, from one byte to nine. -/
def capacityBits : List Nat := [6, 13, 20, 27, 34, 40, 48, 56, 64]

theorem limit_capacity (pos : Fin 9) :
    ((byteLimits.getD pos 0).toNat + 1) * 256 ^ (pos : Nat) = 2 ^ capacityBits.getD pos 0 := by
  revert pos
  decide +kernel

/-- What remains fits beside a mark when the form has room for the magnitude. -/
theorem fits_iff {pos magnitude : Nat} {remaining : UInt64} (inside : pos < 9)
    (shifted : remaining.toNat = magnitude / 256 ^ pos) :
    (remaining = 0 ∨ remaining ≤ (byteLimits.getD pos 0).toUInt64) ↔
      magnitude < 2 ^ capacityBits.getD pos 0 := by
  have below : (remaining = 0 ∨ remaining ≤ (byteLimits.getD pos 0).toUInt64) ↔
      remaining ≤ (byteLimits.getD pos 0).toUInt64 := by
    refine or_iff_right_of_imp ?_
    intro zero
    rw [zero]
    exact UInt64.zero_le
  rw [below, UInt64.le_iff_toNat_le, UInt8.toNat_toUInt64, shifted, ← Nat.lt_succ_iff,
    Nat.div_lt_iff_lt_mul (by positivity), ← limit_capacity ⟨pos, inside⟩]

/-- **The loop ends with the first form that has room for the magnitude.** -/
theorem encodeLoop_first {signFlag : UInt8} {forms : List (UInt8 × UInt8)} {remaining : UInt64}
    {buf : Bytes} {magnitude : Nat} (isForms : forms = (flagBytes.zip byteLimits).drop buf.length)
    (inside : buf.length < 9) (shifted : remaining.toNat = magnitude / 256 ^ buf.length)
    (bounded : magnitude < 2 ^ 64) :
    ∃ pos < 9, (encodeLoop signFlag forms remaining buf).length = pos + 1 ∧
      encodePos (forms.map Prod.snd) buf.length remaining = 8 - pos ∧
      magnitude < 2 ^ capacityBits.getD pos 0 ∧
      ∀ earlier, buf.length ≤ earlier → earlier < pos →
        2 ^ capacityBits.getD earlier 0 ≤ magnitude := by
  induction forms generalizing remaining buf with
  | nil =>
      exact absurd inside (forms_nil isForms)
  | cons form forms ih =>
      obtain ⟨here, rest⟩ := forms_cons isForms inside
      rw [here, encodeLoop, List.map_cons, encodePos]
      by_cases fits : magnitude < 2 ^ capacityBits.getD buf.length 0
      · have below := (fits_iff inside shifted).mpr fits
        rw [if_pos below, if_pos below]
        exact ⟨buf.length, inside, rfl, rfl, fits, fun earlier behind before => by omega⟩
      · have wide := mt (fits_iff inside shifted).mp fits
        rw [if_neg wide, if_neg wide]
        have more : buf.length + 1 < 9 := by
          by_contra last
          have eight : buf.length = 8 := by omega
          exact fits (by rw [eight]; exact bounded)
        have next : (remaining >>> 8).toNat = magnitude / 256 ^ (buf.length + 1) := by
          rw [UInt64.toNat_shiftRight, shifted, Nat.shiftRight_eq_div_pow, pow_succ,
            ← Nat.div_div_eq_div_mul]
          rfl
        obtain ⟨pos, small, length, found, enough, first⟩ :=
          @ih (remaining >>> 8) (remaining.toUInt8 :: buf) rest more next
        refine ⟨pos, small, length, found, enough, ?_⟩
        intro earlier behind before
        rcases Nat.eq_or_lt_of_le behind with rfl | later
        · exact not_lt.mp fits
        · exact first earlier later before

/-- The magnitude is the absolute value, also of the least integer. -/
theorem toNat_magnitude (val : Int64) : (magnitude val).toNat = val.toInt.natAbs := by
  have bits : val.toInt = (val.toUInt64.toNat : Int).bmod (2 ^ 64) :=
    BitVec.toInt_eq_toNat_bmod val.toBitVec
  have bound := val.toUInt64.toNat_lt
  have sign : 0 ≤ val ↔ 0 ≤ val.toInt := Int64.le_iff_toInt_le
  rw [Int.bmod_def] at bits
  rw [magnitude]
  split
  · next positive =>
      have := sign.mp positive
      omega
  · next negative =>
      have := mt sign.mpr negative
      rw [Int64.toUInt64_neg, UInt64.toNat_neg]
      show (2 ^ 64 - val.toUInt64.toNat) % 2 ^ 64 = val.toInt.natAbs
      omega

theorem encode_eq (val : Int64) :
    ∃ signFlag, encode val = encodeLoop signFlag (flagBytes.zip byteLimits) (magnitude val) [] := by
  rw [encode, magnitude]
  split
  · exact ⟨0x80, rfl⟩
  · exact ⟨0, rfl⟩

/-- The length of what is written is that of the first form with room for the magnitude. -/
theorem length_encode_isLeast (val : Int64) :
    IsLeast { length | 1 ≤ length ∧ length ≤ 9 ∧
        val.toInt.natAbs < 2 ^ capacityBits.getD (length - 1) 0 } (encode val).length ∧
      0 ≤ encodePos byteLimits 0 (magnitude val) := by
  obtain ⟨signFlag, loop⟩ := encode_eq val
  obtain ⟨pos, small, length, found, fits, first⟩ :=
    @encodeLoop_first signFlag (flagBytes.zip byteLimits) (magnitude val) [] (magnitude val).toNat
      rfl (by decide) (Nat.div_one _).symm (magnitude val).toNat_lt
  rw [toNat_magnitude] at fits first
  refine ⟨⟨?_, ?_⟩, ?_⟩
  · rw [loop, length]
    exact ⟨by omega, by omega, fits⟩
  · rintro shorter ⟨positive, -, enough⟩
    rw [loop, length]
    by_contra less
    exact absurd enough (not_lt.mpr (first (shorter - 1) (Nat.zero_le _) (by omega)))
  · have limits : (flagBytes.zip byteLimits).map Prod.snd = byteLimits := by decide
    rw [limits] at found
    rw [show (0 : Nat) = ([] : Bytes).length from rfl, found]
    omega

/-- **An integer is read back whatever follows it, is written in the shortest form that has
room for its magnitude, and a position is always found.** -/
theorem encode_faithful (val : Int64) (rest : Bytes) :
    decode (encode val ++ rest) = (some val, rest) ∧
      IsLeast { length | 1 ≤ length ∧ length ≤ 9 ∧
        val.toInt.natAbs < 2 ^ capacityBits.getD (length - 1) 0 } (encode val).length ∧
      0 ≤ encodePos byteLimits 0 (magnitude val) :=
  ⟨decode_encode val rest, length_encode_isLeast val⟩

/-! ## No other text is shorter -/

/-- The bytes that follow add no more than their room. -/
theorem accumulate_lt (result : UInt64) (buf : Bytes) :
    (accumulate result buf).toNat < (result.toNat + 1) * 256 ^ buf.length := by
  induction buf generalizing result with
  | nil =>
      show result.toNat < (result.toNat + 1) * 1
      omega
  | cons byte buf ih =>
      have low : byte.toNat < 2 ^ 8 := byte.toNat_lt
      have parts := Nat.two_pow_add_eq_or_of_lt low (result.toNat % 2 ^ 56)
      have shifted : (result <<< 8 ||| byte.toUInt64).toNat =
          2 ^ 8 * (result.toNat % 2 ^ 56) + byte.toNat := by
        have high : result.toNat * 256 % 2 ^ 64 = 2 ^ 8 * (result.toNat % 2 ^ 56) := by omega
        rw [UInt64.toNat_or, UInt64.toNat_shiftLeft, UInt8.toNat_toUInt64, Nat.shiftLeft_eq, parts,
          ← high]
        rfl
      have next : (result <<< 8 ||| byte.toUInt64).toNat + 1 ≤ (result.toNat + 1) * 256 := by
        rw [shifted]
        omega
      calc (accumulate result (byte :: buf)).toNat
          < ((result <<< 8 ||| byte.toUInt64).toNat + 1) * 256 ^ buf.length := ih _
        _ ≤ (result.toNat + 1) * 256 * 256 ^ buf.length := Nat.mul_le_mul_right _ next
        _ = (result.toNat + 1) * 256 ^ (byte :: buf).length := by
            rw [List.length_cons, pow_succ', Nat.mul_assoc]

theorem position_le (flagByte : UInt8) (flags : List UInt8) :
    position flagByte flags ≤ flags.length := by
  induction flags with
  | nil => exact le_rfl
  | cons flag flags ih =>
      rw [position, List.length_cons]
      split
      · exact Nat.zero_le _
      · exact Nat.succ_le_succ ih

theorem natAbs_toInt_lt (val : Int64) : val.toInt.natAbs < 2 ^ 64 :=
  toNat_magnitude val ▸ (magnitude val).toNat_lt

/-- A small result has its magnitude in both signs. -/
theorem natAbs_toInt64 {result : UInt64} (small : result.toNat < 2 ^ 56) :
    result.toInt64.toInt.natAbs = result.toNat ∧ (-result.toInt64).toInt.natAbs = result.toNat := by
  have bits : result.toInt64.toInt = (result.toNat : Int).bmod (2 ^ 64) :=
    BitVec.toInt_eq_toNat_bmod result.toInt64.toBitVec
  rw [Int.bmod_eq_of_le (by omega) (by omega)] at bits
  rw [Int64.toInt_neg, bits, Int.bmod_eq_of_le (by omega) (by omega)]
  omega

/-- What a form is read as has a magnitude that the form has room for. -/
theorem natAbs_lt_capacity {pos : Nat} (inside : pos < 9) {head : UInt64} {buf : Bytes}
    (length : buf.length = pos) (below : head.toNat ≤ (byteLimits.getD pos 0).toNat) :
    (accumulate head buf).toInt64.toInt.natAbs < 2 ^ capacityBits.getD pos 0 ∧
      (-(accumulate head buf).toInt64).toInt.natAbs < 2 ^ capacityBits.getD pos 0 := by
  have bound : (accumulate head buf).toNat < 2 ^ capacityBits.getD pos 0 := by
    calc (accumulate head buf).toNat
        < (head.toNat + 1) * 256 ^ buf.length := accumulate_lt head buf
      _ ≤ ((byteLimits.getD pos 0).toNat + 1) * 256 ^ pos := by
          rw [length]
          exact Nat.mul_le_mul_right _ (Nat.succ_le_succ below)
      _ = 2 ^ capacityBits.getD pos 0 := limit_capacity ⟨pos, inside⟩
  by_cases last : pos = 8
  · subst last
    exact ⟨natAbs_toInt_lt _, natAbs_toInt_lt _⟩
  · have narrow : capacityBits.getD pos 0 ≤ 56 := by
      have all : ∀ pos : Fin 8, capacityBits.getD pos 0 ≤ 56 := by decide
      exact all ⟨pos, by omega⟩
    have small := lt_of_lt_of_le bound (Nat.pow_le_pow_right (by decide) narrow)
    obtain ⟨positive, negative⟩ := natAbs_toInt64 small
    rw [positive, negative]
    exact ⟨bound, bound⟩

/-- **What is written is the shortest text that is read as the integer.** -/
theorem length_encode_le {s : Bytes} {val : Int64} (decoded : decode s = (some val, [])) :
    (encode val).length ≤ s.length := by
  cases s with
  | nil => exact absurd decoded nofun
  | cons firstByte s =>
      rw [decode] at decoded
      split at decoded
      · exact absurd decoded nofun
      · next enough =>
          have inside : position (firstByte &&& 0x7F) flagBytes.tail < 9 :=
            Nat.lt_succ_of_le (position_le _ _)
          generalize position (firstByte &&& 0x7F) flagBytes.tail = pos at decoded enough inside
          obtain ⟨result, left⟩ := Prod.mk.inj decoded
          have length : s.length = pos :=
            le_antisymm (List.drop_eq_nil_iff.mp left) (Nat.le_of_not_lt enough)
          have below : (firstByte &&& 0x7F &&& byteLimits.getD pos 0).toUInt64.toNat ≤
              (byteLimits.getD pos 0).toNat := by
            rw [UInt8.toNat_toUInt64, UInt8.toNat_and]
            exact Nat.and_le_right
          obtain ⟨positive, negative⟩ :=
            natAbs_lt_capacity inside ((List.length_take_of_le length.ge).trans rfl) below
          have room : val.toInt.natAbs < 2 ^ capacityBits.getD pos 0 := by
            rw [← Option.some.inj result]
            split
            · exact positive
            · exact negative
          have shortest := (length_encode_isLeast val).1.2
          exact shortest ⟨by simp, by simp; omega, by simpa [length] using room⟩

end BmfIntegerEncoding

end Xul
