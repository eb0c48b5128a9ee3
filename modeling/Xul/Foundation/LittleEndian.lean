import Mathlib.Data.List.GetD
import Mathlib.Data.Nat.Digits.Lemmas
import Mathlib.Tactic.Ring

/-!
# Little-endian numbers

The value of a sequence of bytes with the least significant byte first, and the bytes of
a number.  On sequences of one length the two are inverse to each other.  A shift by less
than a byte takes bits from the byte before or behind; it multiplies, or divides, by a
power of two (`littleEndian_shiftUp`, `littleEndian_shiftDown`).
-/

set_option autoImplicit false

namespace Foundation

def littleEndian (bytes : List UInt8) : Nat := Nat.ofDigits 256 (bytes.map UInt8.toNat)

/-- The lowest bytes of a number. -/
def bytesOf : Nat → Nat → List UInt8
  | 0, _ => []
  | size + 1, value => UInt8.ofNat value :: bytesOf size (value / 256)

@[simp] theorem littleEndian_nil : littleEndian [] = 0 := rfl

@[simp] theorem littleEndian_cons (byte : UInt8) (bytes : List UInt8) :
    littleEndian (byte :: bytes) = byte.toNat + 256 * littleEndian bytes := by
  simp [littleEndian, Nat.ofDigits_cons]

theorem ofNat_littleEndian_singleton (byte : UInt8) :
    UInt8.ofNat (littleEndian [byte]) = byte := by
  rw [littleEndian_cons, littleEndian_nil, Nat.mul_zero, Nat.add_zero, UInt8.ofNat_toNat]

theorem littleEndian_append (low high : List UInt8) :
    littleEndian (low ++ high) = littleEndian low + 256 ^ low.length * littleEndian high := by
  rw [littleEndian, List.map_append, Nat.ofDigits_append, List.length_map]
  rfl

theorem littleEndian_lt (bytes : List UInt8) : littleEndian bytes < 256 ^ bytes.length := by
  have bounded : ∀ digit ∈ bytes.map UInt8.toNat, digit < 256 := by
    intro digit member
    obtain ⟨byte, _, rfl⟩ := List.mem_map.mp member
    exact byte.toNat_lt
  simpa [littleEndian] using Nat.ofDigits_lt_base_pow_length (by decide : 1 < 256) bounded

@[simp] theorem littleEndian_replicate_zero (size : Nat) :
    littleEndian (List.replicate size 0) = 0 := by
  induction size with
  | zero => rfl
  | succ size ih => rw [List.replicate_succ, littleEndian_cons, ih]; rfl

@[simp] theorem length_bytesOf (size value : Nat) : (bytesOf size value).length = size := by
  induction size generalizing value with
  | zero => rfl
  | succ size ih => rw [bytesOf, List.length_cons, ih]

theorem littleEndian_bytesOf (size value : Nat) :
    littleEndian (bytesOf size value) = value % 256 ^ size := by
  induction size generalizing value with
  | zero => rw [bytesOf, littleEndian_nil, pow_zero, Nat.mod_one]
  | succ size ih =>
      have power : 256 ^ (size + 1) = 256 * 256 ^ size := pow_succ' 256 size
      rw [bytesOf, littleEndian_cons, ih, UInt8.toNat_ofNat', power]
      exact Nat.mod_mul.symm

theorem littleEndian_bytesOf_of_lt {size value : Nat} (fits : value < 256 ^ size) :
    littleEndian (bytesOf size value) = value := by
  rw [littleEndian_bytesOf, Nat.mod_eq_of_lt fits]

/-- The byte of a number that starts at a bit. -/
theorem and_shiftLeft_byte (n shift : Nat) :
    n &&& 255 <<< shift = n / 2 ^ shift % 256 * 2 ^ shift := by
  have moved : n &&& 255 <<< shift = (n >>> shift &&& 255) <<< shift := by
    apply Nat.eq_of_testBit_eq
    intro bit
    simp only [Nat.testBit_and, Nat.testBit_shiftLeft, Nat.testBit_shiftRight]
    by_cases above : shift ≤ bit
    · simp [above]
    · simp [above]
  have low : n >>> shift &&& 255 = n >>> shift % 256 := Nat.and_two_pow_sub_one_eq_mod _ 8
  rw [moved, low, Nat.shiftRight_eq_div_pow, Nat.shiftLeft_eq]

theorem shiftRight_and_byte (n shift : Nat) :
    (n &&& 255 <<< shift) >>> shift = n / 2 ^ shift % 256 := by
  rw [and_shiftLeft_byte, Nat.shiftRight_eq_div_pow]
  exact Nat.mul_div_cancel _ (Nat.two_pow_pos shift)

/-- Numbers that fit are told by their bytes. -/
theorem eq_of_bytesOf {size value other : Nat} (fits : value < 256 ^ size)
    (fitsToo : other < 256 ^ size) (same : bytesOf size value = bytesOf size other) :
    value = other := by
  have back := congrArg littleEndian same
  rwa [littleEndian_bytesOf_of_lt fits, littleEndian_bytesOf_of_lt fitsToo] at back

theorem bytesOf_littleEndian (bytes : List UInt8) :
    bytesOf bytes.length (littleEndian bytes) = bytes := by
  induction bytes with
  | nil => rfl
  | cons byte bytes ih =>
      have small := byte.toNat_lt
      have first : UInt8.ofNat (byte.toNat + 256 * littleEndian bytes) = byte := by
        apply UInt8.toNat.inj
        rw [UInt8.toNat_ofNat']
        omega
      have next : (byte.toNat + 256 * littleEndian bytes) / 256 = littleEndian bytes := by omega
      rw [List.length_cons, littleEndian_cons, bytesOf, first, next, ih]

/-- The bytes show a number up to what they can hold. -/
theorem bytesOf_mod (size value : Nat) :
    bytesOf size (value % 256 ^ size) = bytesOf size value := by
  have back := bytesOf_littleEndian (bytesOf size value)
  rwa [length_bytesOf, littleEndian_bytesOf] at back

/-- The bytes of a number that is put together are those of its parts. -/
theorem bytesOf_add_mul {low size : Nat} (below : low < 256 ^ size) (high : Nat) {more : Nat} :
    bytesOf (size + more) (low + 256 ^ size * high) = bytesOf size low ++ bytesOf more high := by
  induction size generalizing low with
  | zero =>
      obtain rfl := Nat.lt_one_iff.mp below
      rw [pow_zero, Nat.one_mul, Nat.zero_add, Nat.zero_add]
      rfl
  | succ size ih =>
      have power : 256 ^ (size + 1) = 256 * 256 ^ size := pow_succ' 256 size
      have whole : low + 256 ^ (size + 1) * high = low + 256 * (256 ^ size * high) := by
        rw [power, Nat.mul_assoc]
      have next : (low + 256 ^ (size + 1) * high) / 256 = low / 256 + 256 ^ size * high := by
        rw [whole, Nat.add_mul_div_left _ _ (by decide)]
      have first : UInt8.ofNat (low + 256 ^ (size + 1) * high) = UInt8.ofNat low := by
        apply UInt8.toNat.inj
        rw [UInt8.toNat_ofNat', UInt8.toNat_ofNat', whole]
        exact Nat.add_mul_mod_self_left ..
      rw [Nat.add_right_comm, bytesOf, next, first, ih (by omega), bytesOf, List.cons_append]

theorem littleEndian_snoc (bytes : List UInt8) (byte : UInt8) :
    littleEndian (bytes ++ [byte]) = littleEndian bytes + 256 ^ bytes.length * byte.toNat := by
  rw [littleEndian_append, littleEndian_cons, littleEndian_nil, Nat.mul_zero, Nat.add_zero]

/-- Leaving out high bytes is a remainder. -/
theorem littleEndian_take {bytes : List UInt8} {size : Nat} (le : size ≤ bytes.length) :
    littleEndian (bytes.take size) = littleEndian bytes % 256 ^ size := by
  have split := littleEndian_append (bytes.take size) (bytes.drop size)
  have small := littleEndian_lt (bytes.take size)
  rw [List.take_append_drop, List.length_take_of_le le] at split
  rw [List.length_take_of_le le] at small
  rw [split, Nat.add_mul_mod_self_left, Nat.mod_eq_of_lt small]

/-- Leaving out low bytes is a quotient. -/
theorem littleEndian_drop {bytes : List UInt8} {size : Nat} (le : size ≤ bytes.length) :
    littleEndian (bytes.drop size) = littleEndian bytes / 256 ^ size := by
  have split := littleEndian_append (bytes.take size) (bytes.drop size)
  have small := littleEndian_lt (bytes.take size)
  rw [List.take_append_drop, List.length_take_of_le le] at split
  rw [List.length_take_of_le le] at small
  rw [split, Nat.add_mul_div_left _ _ (by positivity), Nat.div_eq_of_lt small, Nat.zero_add]

/-- A byte of a number. -/
theorem toNat_getD {bytes : List UInt8} {index : Nat} (inside : index < bytes.length) :
    (bytes.getD index 0).toNat = littleEndian bytes / 256 ^ index % 256 := by
  rw [← littleEndian_drop inside.le, List.drop_eq_getElem_cons inside, littleEndian_cons,
    List.getD_eq_getElem _ _ inside, Nat.add_mul_mod_self_left,
    Nat.mod_eq_of_lt bytes[index].toNat_lt]

/-- Changing a byte changes the number by what the byte stands for. -/
theorem littleEndian_set {bytes : List UInt8} {index : Nat} (inside : index < bytes.length)
    (byte : UInt8) :
    littleEndian (bytes.set index byte) + 256 ^ index * (bytes.getD index 0).toNat =
      littleEndian bytes + 256 ^ index * byte.toNat := by
  induction bytes generalizing index with
  | nil => exact absurd inside (Nat.not_lt_zero index)
  | cons first bytes ih =>
      cases index with
      | zero =>
          rw [List.set_cons_zero, littleEndian_cons, littleEndian_cons, List.getD_cons_zero]
          omega
      | succ index =>
          have rest := ih (Nat.lt_of_succ_lt_succ inside)
          rw [List.set_cons_succ, littleEndian_cons, littleEndian_cons, List.getD_cons_succ]
          calc first.toNat + 256 * littleEndian (bytes.set index byte) +
                256 ^ (index + 1) * (bytes.getD index 0).toNat
              = first.toNat + 256 * (littleEndian (bytes.set index byte) +
                  256 ^ index * (bytes.getD index 0).toNat) := by ring
            _ = first.toNat + 256 * (littleEndian bytes + 256 ^ index * byte.toNat) := by rw [rest]
            _ = first.toNat + 256 * littleEndian bytes + 256 ^ (index + 1) * byte.toNat := by ring

/-! ## Shifts within bytes -/

/-- The bytes with their bits shifted up, from bits that come in below. -/
def shiftUp (shift : Nat) : UInt8 → List UInt8 → List UInt8
  | _, [] => []
  | low, byte :: bytes =>
      (byte <<< UInt8.ofNat shift ||| low) :: shiftUp shift (byte >>> UInt8.ofNat (8 - shift)) bytes

/-- The bytes with their bits shifted down. -/
def shiftDown (shift : Nat) : List UInt8 → List UInt8
  | [] => []
  | [byte] => [byte >>> UInt8.ofNat shift]
  | byte :: next :: bytes =>
      (byte >>> UInt8.ofNat shift ||| next <<< UInt8.ofNat (8 - shift)) ::
        shiftDown shift (next :: bytes)

variable {shift : Nat}

theorem toNat_shiftRight_ofNat (byte : UInt8) (small : shift < 8) :
    (byte >>> UInt8.ofNat shift).toNat = byte.toNat / 2 ^ shift := by
  rw [UInt8.toNat_shiftRight, UInt8.toNat_ofNat', Nat.mod_eq_of_lt (by omega : shift < 2 ^ 8),
    Nat.mod_eq_of_lt small, Nat.shiftRight_eq_div_pow]

/-- The bits of a byte that stay, and those that leave it. -/
theorem two_pow_mul_two_pow (small : shift < 8) : 2 ^ shift * 2 ^ (8 - shift) = 256 := by
  have whole : shift + (8 - shift) = 8 := by omega
  rw [← pow_add, whole]
  rfl

theorem toNat_shiftLeft_ofNat (byte : UInt8) (small : shift < 8) :
    (byte <<< UInt8.ofNat shift).toNat = 2 ^ shift * (byte.toNat % 2 ^ (8 - shift)) := by
  have power : 2 ^ 8 = 2 ^ shift * 2 ^ (8 - shift) := (two_pow_mul_two_pow small).symm
  rw [UInt8.toNat_shiftLeft, UInt8.toNat_ofNat', Nat.mod_eq_of_lt (by omega : shift < 2 ^ 8),
    Nat.mod_eq_of_lt small, Nat.shiftLeft_eq, Nat.mul_comm, power, Nat.mul_mod_mul_left]

/-- Bits that do not meet are added. -/
theorem toNat_shiftLeft_or (byte : UInt8) {low : UInt8} (small : shift < 8)
    (below : low.toNat < 2 ^ shift) :
    (byte <<< UInt8.ofNat shift ||| low).toNat =
      2 ^ shift * (byte.toNat % 2 ^ (8 - shift)) + low.toNat := by
  rw [UInt8.toNat_or, toNat_shiftLeft_ofNat byte small, Nat.two_pow_add_eq_or_of_lt below]

@[simp] theorem length_shiftUp (shift : Nat) (low : UInt8) (bytes : List UInt8) :
    (shiftUp shift low bytes).length = bytes.length := by
  induction bytes generalizing low with
  | nil => rfl
  | cons byte bytes ih => rw [shiftUp, List.length_cons, ih, List.length_cons]

/-- **Shifting up multiplies.** -/
theorem littleEndian_shiftUp (positive : 0 < shift) (small : shift < 8) {low : UInt8}
    (below : low.toNat < 2 ^ shift) (bytes : List UInt8) :
    littleEndian (shiftUp shift low bytes) =
      (low.toNat + 2 ^ shift * littleEndian bytes) % 256 ^ bytes.length := by
  induction bytes generalizing low with
  | nil => rw [shiftUp, littleEndian_nil, List.length_nil, pow_zero, Nat.mod_one]
  | cons byte bytes ih =>
      have power := two_pow_mul_two_pow small
      have carried : (byte >>> UInt8.ofNat (8 - shift)).toNat = byte.toNat / 2 ^ (8 - shift) :=
        toNat_shiftRight_ofNat byte (by omega)
      have bounded : (byte >>> UInt8.ofNat (8 - shift)).toNat < 2 ^ shift := by
        rw [carried, Nat.div_lt_iff_lt_mul (by positivity), power]
        exact byte.toNat_lt
      have length : 256 ^ (byte :: bytes).length = 256 * 256 ^ bytes.length := by
        rw [List.length_cons, pow_succ']
      have whole : low.toNat + 2 ^ shift * littleEndian (byte :: bytes) =
          (low.toNat + 2 ^ shift * byte.toNat) + 256 * (2 ^ shift * littleEndian bytes) := by
        rw [littleEndian_cons]
        ring
      have first : (low.toNat + 2 ^ shift * byte.toNat) % 256 =
          2 ^ shift * (byte.toNat % 2 ^ (8 - shift)) + low.toNat := by
        rw [← power, Nat.mod_mul, Nat.add_mul_mod_self_left, Nat.mod_eq_of_lt below,
          Nat.add_mul_div_left _ _ (by positivity), Nat.div_eq_of_lt below, Nat.zero_add,
          Nat.add_comm]
      have carry : (low.toNat + 2 ^ shift * byte.toNat) / 256 = byte.toNat / 2 ^ (8 - shift) := by
        rw [← power, ← Nat.div_div_eq_div_mul, Nat.add_mul_div_left _ _ (by positivity),
          Nat.div_eq_of_lt below, Nat.zero_add]
      rw [shiftUp, littleEndian_cons, toNat_shiftLeft_or byte small below, ih bounded, carried,
        whole, length, Nat.mod_mul, Nat.add_mul_mod_self_left, first,
        Nat.add_mul_div_left _ _ (by decide), carry]

@[simp] theorem length_shiftDown (shift : Nat) (bytes : List UInt8) :
    (shiftDown shift bytes).length = bytes.length := by
  induction bytes with
  | nil => rfl
  | cons byte bytes ih =>
      cases bytes with
      | nil => rfl
      | cons next bytes => exact congrArg Nat.succ ih

theorem getD_shiftUp (shift : Nat) (low : UInt8) {bytes : List UInt8} {k : Nat}
    (inside : k < bytes.length) :
    (shiftUp shift low bytes).getD k 0 =
      bytes.getD k 0 <<< UInt8.ofNat shift |||
        (low :: bytes.map fun byte => byte >>> UInt8.ofNat (8 - shift)).getD k 0 := by
  induction bytes generalizing low k with
  | nil => exact absurd inside (Nat.not_lt_zero k)
  | cons byte bytes ih =>
      cases k with
      | zero => rfl
      | succ k => exact ih _ (Nat.lt_of_succ_lt_succ inside)

theorem getD_shiftDown (shift : Nat) (bytes : List UInt8) (k : Nat) :
    (shiftDown shift bytes).getD k 0 =
      bytes.getD k 0 >>> UInt8.ofNat shift |||
        bytes.getD (k + 1) 0 <<< UInt8.ofNat (8 - shift) := by
  induction bytes generalizing k with
  | nil => simp [shiftDown]
  | cons byte bytes ih =>
      cases bytes with
      | nil => cases k <;> simp [shiftDown]
      | cons next bytes =>
          cases k with
          | zero => rfl
          | succ k => exact ih k

/-- **Shifting down divides.** -/
theorem littleEndian_shiftDown (positive : 0 < shift) (small : shift < 8) (bytes : List UInt8) :
    littleEndian (shiftDown shift bytes) = littleEndian bytes / 2 ^ shift := by
  induction bytes with
  | nil => rw [shiftDown, littleEndian_nil, Nat.zero_div]
  | cons byte bytes ih =>
      cases bytes with
      | nil =>
          simp only [shiftDown, littleEndian_cons, littleEndian_nil, Nat.mul_zero, Nat.add_zero]
          exact toNat_shiftRight_ofNat byte small
      | cons next bytes =>
          have power := two_pow_mul_two_pow small
          have kept := toNat_shiftRight_ofNat byte small
          have below : (byte >>> UInt8.ofNat shift).toNat < 2 ^ (8 - shift) := by
            rw [kept, Nat.div_lt_iff_lt_mul (by positivity), Nat.mul_comm, power]
            exact byte.toNat_lt
          have first : (byte >>> UInt8.ofNat shift ||| next <<< UInt8.ofNat (8 - shift)).toNat =
              2 ^ (8 - shift) * (next.toNat % 2 ^ shift) + byte.toNat / 2 ^ shift := by
            have back : 8 - (8 - shift) = shift := by omega
            rw [UInt8.or_comm, toNat_shiftLeft_or next (by omega) below, kept, back]
          have taken : littleEndian (next :: bytes) % 2 ^ shift = next.toNat % 2 ^ shift := by
            rw [littleEndian_cons, ← power, Nat.mul_assoc, Nat.add_mul_mod_self_left]
          have parts := Nat.div_add_mod (littleEndian (next :: bytes)) (2 ^ shift)
          have whole : littleEndian (byte :: next :: bytes) / 2 ^ shift =
              byte.toNat / 2 ^ shift + 2 ^ (8 - shift) * littleEndian (next :: bytes) := by
            rw [littleEndian_cons, ← power, Nat.mul_assoc, Nat.add_mul_div_left _ _ (by positivity)]
          rw [shiftDown, littleEndian_cons, ih, first, whole, ← taken, ← power]
          nth_rewrite 3 [← parts]
          ring

end Foundation
