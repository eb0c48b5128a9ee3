import Xul.Foundation.LittleEndian

/-!
# Numerals of fixed lengths

A number is written with a fixed number of digits, the most significant first.  The numeral of a
number in a base is put together from those of its parts, and two digits for each byte of a number
are its numeral in base 16 (`flatMap_reverse_eq_numeral`).
-/

set_option autoImplicit false

namespace Foundation

variable {Letter : Type*}

/-- The last digits of a number in a base, the most significant first. -/
def numeral (letter : Nat → Letter) (base : Nat) : Nat → Nat → List Letter
  | 0, _ => []
  | size + 1, value => numeral letter base size (value / base) ++ [letter (value % base)]

@[simp] theorem length_numeral (letter : Nat → Letter) (base size value : Nat) :
    (numeral letter base size value).length = size := by
  induction size generalizing value with
  | zero => rfl
  | succ size ih => rw [numeral, List.length_append, ih, List.length_singleton]

/-- **The bytes of a number, with two digits each, are its numeral.** -/
theorem flatMap_reverse_eq_numeral (letter : Nat → Letter) (bytes : List UInt8) :
    (bytes.reverse.flatMap fun byte => [letter (byte.toNat / 16), letter (byte.toNat % 16)]) =
      numeral letter 16 (2 * bytes.length) (littleEndian bytes) := by
  induction bytes with
  | nil => rfl
  | cons byte bytes ih =>
      have small := byte.toNat_lt
      have double : 2 * (bytes.length + 1) = 2 * bytes.length + 1 + 1 := by ring
      have low : (byte.toNat + 256 * littleEndian bytes) % 16 = byte.toNat % 16 := by omega
      have high : (byte.toNat + 256 * littleEndian bytes) / 16 % 16 = byte.toNat / 16 := by omega
      have rest : (byte.toNat + 256 * littleEndian bytes) / 16 / 16 = littleEndian bytes := by omega
      rw [List.reverse_cons, List.flatMap_append, ih, List.length_cons, littleEndian_cons, double,
        numeral, numeral, low, high, rest, List.append_assoc]
      rfl

end Foundation
