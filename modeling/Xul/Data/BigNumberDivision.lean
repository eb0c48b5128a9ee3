import Xul.Data.BigNumber
import Mathlib.Logic.Function.Basic

/-!
# Division of big numbers

`operator/=` aligns the divisor with the number, and subtracts and shifts it back bit by
bit.  What is left of the number and the bits that are set add up to the number in every turn
(`divideLoop_spec`), so that the loop ends with the quotient and the remainder (`divide`).

The operator copies both numbers before it clears the one that it is assigned to.  Numbers are
therefore read and written through their addresses, of which the two may be the same.
-/

set_option autoImplicit false

namespace Xul

open Foundation

namespace BigNumber

variable {byteCount : Nat}

/-! ## The operator -/

/-- `m_bytes[shift / 8] |= (1 << (shift & 7))`, inside the bytes. -/
def setBit (n : BigNumber byteCount) (shift : Nat) : Option (BigNumber byteCount) :=
  if shift < 8 * byteCount then
    some ⟨n.bytes.set (shift / 8) (n.bytes.getD (shift / 8) 0 ||| 1 <<< UInt8.ofNat (shift % 8)),
      (List.length_set ..).trans n.length_bytes⟩
  else
    none

/-- The loop of `operator/=`, from the shift below `turns` down; it returns what is left of
`num`, and the result. -/
def divideLoop : Nat → BigNumber byteCount → BigNumber byteCount → BigNumber byteCount →
    Option (BigNumber byteCount × BigNumber byteCount)
  | 0, num, _, result => some (num, result)
  | shift + 1, num, div, result =>
      if num.compare div ≥ 0 then
        (result.setBit shift).bind fun result =>
          divideLoop shift (num.sub div) (div.shiftRight 1) result
      else
        divideLoop shift num (div.shiftRight 1) result

/-- How a division ends early: with the exception, or where an `int` overflows or a bit
outside the bytes is set. -/
inductive DivideError
  | divisionByZero
  | undefined
deriving DecidableEq

/-- `operator/=` of the number at an address by the number at an address: what is left of
`num` at the end, and all numbers. -/
def divideAssign (memory : Nat → BigNumber byteCount) (this b : Nat) :
    Except DivideError (BigNumber byteCount) × (Nat → BigNumber byteCount) :=
  let div := memory b
  let num := memory this
  let memory := Function.update memory this (clear byteCount)
  match num.bits, div.bits with
  | some numBits, some divBits =>
      if divBits = 0 then
        (.error .divisionByZero, memory)
      else if divBits > numBits then
        (.ok num, memory)
      else
        let shift := numBits - divBits
        match divideLoop (shift + 1) num (div.shiftLeft (UInt32.ofNat shift)) (memory this) with
        | some (num, result) => (.ok num, Function.update memory this result)
        | none => (.error .undefined, memory)
  | _, _ => (.error .undefined, memory)

/-! ## Setting a bit -/

theorem toNat_or_bit (byte : UInt8) {bit : Nat} (small : bit < 8)
    (clear : 2 ^ (bit + 1) ∣ byte.toNat) :
    (byte ||| 1 <<< UInt8.ofNat bit).toNat = byte.toNat + 2 ^ bit := by
  have all : ∀ code : Fin 256, ∀ bit : Fin 8, 2 ^ (bit.val + 1) ∣ (UInt8.ofFin code).toNat →
      (UInt8.ofFin code ||| 1 <<< UInt8.ofNat bit.val).toNat =
        (UInt8.ofFin code).toNat + 2 ^ bit.val := by
    decide +kernel
  exact all byte.toFin ⟨bit, small⟩ clear

/-- A bit is added to a number that is a multiple of the next power of two. -/
theorem value_setBit {n : BigNumber byteCount} {shift : Nat} (inside : shift < 8 * byteCount)
    (clear : 2 ^ (shift + 1) ∣ n.value) :
    ∃ after, n.setBit shift = some after ∧ after.value = n.value + 2 ^ shift := by
  have index : shift / 8 < n.bytes.length := by
    rw [n.length_bytes]
    omega
  have whole : 8 * (shift / 8) + shift % 8 = shift := Nat.div_add_mod ..
  have power : 2 ^ (shift + 1) = 256 ^ (shift / 8) * 2 ^ (shift % 8 + 1) := by
    rw [pow_256, ← pow_add, ← Nat.add_assoc, whole]
  have byte : 2 ^ (shift % 8 + 1) ∣ (n.bytes.getD (shift / 8) 0).toNat := by
    have divides : 2 ^ (shift % 8 + 1) ∣ 256 := by
      have power := pow_dvd_pow 2 (show shift % 8 + 1 ≤ 8 by omega)
      exact power
    rw [toNat_getD index, Nat.dvd_mod_iff divides]
    exact Nat.dvd_div_of_mul_dvd (power ▸ clear)
  refine ⟨_, if_pos inside, ?_⟩
  have set := littleEndian_set index
    (n.bytes.getD (shift / 8) 0 ||| 1 <<< UInt8.ofNat (shift % 8))
  rw [toNat_or_bit _ (Nat.mod_lt shift (by decide)) byte, Nat.mul_add, pow_256, ← pow_add,
    whole] at set
  show littleEndian (n.bytes.set (shift / 8) _) = littleEndian n.bytes + 2 ^ shift
  omega

/-! ## The loop -/

theorem compare_nonneg_iff (a b : BigNumber byteCount) : a.compare b ≥ 0 ↔ b.value ≤ a.value := by
  rw [compare_eq, ge_iff_le, Int.sign_nonneg_iff]
  omega

theorem value_sub_of_le {a b : BigNumber byteCount} (le : b.value ≤ a.value) :
    (a.sub b).value = a.value - b.value := by
  have small := a.value_lt
  have counts : ((a.sub b).value : Int) ≡ a.value - b.value [ZMOD 256 ^ byteCount] := by
    rw [sub, value_add]
    push_cast
    exact (Int.mod_modEq _ _).trans ((value_negate_modEq b).add_left _)
  have difference := value_eq_emod counts
  have power : ((256 ^ byteCount : Nat) : Int) = 256 ^ byteCount := by push_cast; rfl
  rw [← power, Int.emod_eq_of_lt (by omega) (by omega)] at difference
  omega

/-- **The turns of the loop.**  The divisor stands shifted by as many bits as turns are left,
less one; the bits of the result that are to come are clear; and what is left of the number
and the result add up to the number. -/
theorem divideLoop_spec {d : Nat} {turns : Nat} (inside : turns ≤ 8 * byteCount)
    {num div result : BigNumber byteCount} (aligned : div.value = d * 2 ^ turns / 2)
    (below : num.value < d * 2 ^ turns) (clear : 2 ^ turns ∣ result.value) :
    ∃ remainder quotient, divideLoop turns num div result = some (remainder, quotient) ∧
      remainder.value < d ∧
      remainder.value + quotient.value * d = num.value + result.value * d := by
  induction turns generalizing num div result with
  | zero =>
      rw [pow_zero, Nat.mul_one] at below
      exact ⟨num, result, rfl, below, rfl⟩
  | succ shift ih =>
      have stands : div.value = d * 2 ^ shift := by
        rw [aligned, pow_succ, ← Nat.mul_assoc, Nat.mul_div_cancel _ (by decide)]
      have next : (div.shiftRight 1).value = d * 2 ^ shift / 2 := by
        rw [value_shiftRight, stands]
        rfl
      have double : d * 2 ^ (shift + 1) = d * 2 ^ shift + d * 2 ^ shift := by ring
      rw [divideLoop]
      by_cases fits : num.compare div ≥ 0
      · have le := (compare_nonneg_iff num div).mp fits
        obtain ⟨after, set, value⟩ := value_setBit (by omega) clear
        have rest := value_sub_of_le le
        obtain ⟨remainder, quotient, ends, less, sum⟩ := ih (by omega) next
          (show (num.sub div).value < d * 2 ^ shift by omega)
          (show 2 ^ shift ∣ after.value by
            rw [value]
            exact (Nat.dvd_trans (pow_dvd_pow 2 (Nat.le_succ shift)) clear).add dvd_rfl)
        refine ⟨remainder, quotient, by rw [if_pos fits, set, Option.bind_some, ends], less, ?_⟩
        rw [sum, value, rest, Nat.add_mul, Nat.mul_comm (2 ^ shift) d]
        omega
      · have less := mt (compare_nonneg_iff num div).mpr fits
        obtain ⟨remainder, quotient, ends, small, sum⟩ := ih (by omega) next
          (show num.value < d * 2 ^ shift by omega)
          (Nat.dvd_trans (pow_dvd_pow 2 (Nat.le_succ shift)) clear)
        exact ⟨remainder, quotient, by rw [if_neg fits, ends], small, sum⟩

/-! ## The division -/

/-- The divisor loses no bit when it is aligned with the number. -/
theorem value_aligned {num div : BigNumber byteCount} (fits : 8 * byteCount < 2 ^ 31)
    (le : Nat.size div.value ≤ Nat.size num.value) :
    (div.shiftLeft (UInt32.ofNat (Nat.size num.value - Nat.size div.value))).value =
      div.value * 2 ^ (Nat.size num.value - Nat.size div.value) := by
  have sizeLe : Nat.size num.value ≤ 8 * byteCount := by
    rw [Nat.size_le, ← pow_256]
    exact num.value_lt
  have shift : (UInt32.ofNat (Nat.size num.value - Nat.size div.value)).toNat =
      Nat.size num.value - Nat.size div.value := by
    rw [UInt32.toNat_ofNat']
    omega
  rw [value_shiftLeft, shift]
  apply Nat.mod_eq_of_lt
  calc div.value * 2 ^ (Nat.size num.value - Nat.size div.value)
      < 2 ^ Nat.size div.value * 2 ^ (Nat.size num.value - Nat.size div.value) :=
        Nat.mul_lt_mul_of_pos_right (Nat.lt_size_self div.value) (Nat.two_pow_pos _)
    _ = 2 ^ Nat.size num.value := by rw [← pow_add, Nat.add_sub_cancel' le]
    _ ≤ 256 ^ byteCount := by
        rw [pow_256]
        exact Nat.pow_le_pow_right (by decide) sizeLe

/-- **Division.**  The number at the first address is divided by that at the second, which
may be the same; the remainder is what is left of it at the end. -/
theorem divide (fits : 8 * byteCount < 2 ^ 31) {memory : Nat → BigNumber byteCount} {this b : Nat}
    (nonzero : (memory b).value ≠ 0) :
    ∃ remainder, (divideAssign memory this b).1 = .ok remainder ∧
      ((divideAssign memory this b).2 this).value = (memory this).value / (memory b).value ∧
      remainder.value = (memory this).value % (memory b).value ∧
      ∀ other, other ≠ this → (divideAssign memory this b).2 other = memory other := by
  have numBits := bits_eq (memory this) fits
  have divBits := bits_eq (memory b) fits
  have positive : 0 < Nat.size (memory b).value := Nat.size_pos.mpr (Nat.pos_of_ne_zero nonzero)
  rw [divideAssign]
  simp only [numBits, divBits, if_neg positive.ne']
  by_cases longer : Nat.size (memory b).value > Nat.size (memory this).value
  · have less : (memory this).value < (memory b).value := by
      by_contra ge
      exact absurd (Nat.size_le_size (not_lt.mp ge)) (not_le.mpr longer)
    rw [if_pos longer]
    refine ⟨memory this, rfl, ?_, (Nat.mod_eq_of_lt less).symm, ?_⟩
    · show (Function.update memory this (clear byteCount) this).value = _
      rw [Function.update_self, value_clear, Nat.div_eq_of_lt less]
    · intro other apart
      exact Function.update_of_ne apart _ _
  · rw [if_neg longer]
    have le := not_lt.mp longer
    have aligned := value_aligned fits le
    have sizeLe : Nat.size (memory this).value ≤ 8 * byteCount := by
      rw [Nat.size_le, ← pow_256]
      exact (memory this).value_lt
    generalize shiftBy : Nat.size (memory this).value - Nat.size (memory b).value = shift at *
    have half : (memory b).value * 2 ^ (shift + 1) / 2 = (memory b).value * 2 ^ shift := by
      rw [pow_succ, ← Nat.mul_assoc, Nat.mul_div_cancel _ (by decide)]
    have below : (memory this).value < (memory b).value * 2 ^ (shift + 1) := by
      have top : 2 ^ (Nat.size (memory b).value - 1) ≤ (memory b).value :=
        Nat.lt_size.mp (by omega)
      calc (memory this).value
          < 2 ^ Nat.size (memory this).value := Nat.lt_size_self _
        _ = 2 ^ (Nat.size (memory b).value - 1) * 2 ^ (shift + 1) := by
            rw [← pow_add]
            congr 1
            omega
        _ ≤ (memory b).value * 2 ^ (shift + 1) := Nat.mul_le_mul_right _ top
    obtain ⟨remainder, quotient, ends, less, sum⟩ := divideLoop_spec
      (show shift + 1 ≤ 8 * byteCount by omega) (aligned.trans half.symm) below
      (show 2 ^ (shift + 1) ∣ (clear byteCount).value by rw [value_clear]; exact dvd_zero _)
    rw [value_clear, Nat.zero_mul, Nat.add_zero] at sum
    have unique : (memory this).value / (memory b).value = quotient.value ∧
        (memory this).value % (memory b).value = remainder.value :=
      (Nat.div_mod_unique (Nat.pos_of_ne_zero nonzero)).mpr ⟨by rw [Nat.mul_comm, sum], less⟩
    rw [Function.update_self]
    simp only [ends]
    refine ⟨remainder, rfl, ?_, unique.2.symm, ?_⟩
    · rw [Function.update_self, unique.1]
    · intro other apart
      rw [Function.update_of_ne apart, Function.update_of_ne apart]

/-- 200 divided by 7, and 200 by itself. -/
theorem divide_bytes :
    (∃ remainder, (divideAssign (fun address => if address = 0 then
        (⟨[200], rfl⟩ : BigNumber 1) else ⟨[7], rfl⟩) 0 1).1 = .ok remainder ∧
          remainder.value = 4) ∧
    ∃ remainder, (divideAssign (fun _ => (⟨[200], rfl⟩ : BigNumber 1)) 0 0).1 = .ok remainder ∧
      remainder.value = 0 := by
  obtain ⟨first, ends, -, remainder, -⟩ := @divide 1 (by decide)
    (fun address => if address = 0 then ⟨[200], rfl⟩ else ⟨[7], rfl⟩) 0 1 (by decide)
  obtain ⟨second, ends', -, remainder', -⟩ := @divide 1 (by decide)
    (fun _ => ⟨[200], rfl⟩) 0 0 (by decide)
  exact ⟨⟨first, ends, remainder⟩, second, ends', remainder'⟩

/-- A number whose bits an `int` cannot count, divided by one. -/
theorem divide_topBit {pos : Nat} (large : 2 ^ 31 ≤ 8 * pos + 8) :
    (divideAssign (fun address => if address = 0 then topBit pos
      else (clear (pos + 1)).increment) 0 1).1 = .error .undefined := by
  rw [divideAssign]
  simp only [if_true, bits_topBit_none large]

/-- **A number of 2^28 bytes whose highest bit is set is not divided by one.** -/
theorem divide_quarterGigabyte :
    ¬ ∀ (memory : Nat → BigNumber (2 ^ 28 - 1 + 1)), (memory 1).value ≠ 0 →
      ∃ remainder, (divideAssign memory 0 1).1 = .ok remainder := by
  intro divides
  have large : 2 ^ 31 ≤ 8 * (2 ^ 28 - 1) + 8 := by norm_num
  generalize (2 ^ 28 - 1 : Nat) = pos at divides large
  have one : (clear (pos + 1)).increment.value = 1 := by
    rw [value_increment, value_clear, Nat.zero_add]
    exact Nat.mod_eq_of_lt (Nat.one_lt_pow (by omega) (by decide))
  obtain ⟨remainder, ends⟩ := divides (fun address => if address = 0 then topBit pos
    else (clear (pos + 1)).increment) (by simp [one])
  rw [divide_topBit large] at ends
  cases ends

end BigNumber

end Xul
