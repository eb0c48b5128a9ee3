import Xul.Foundation.InPlace
import Xul.Foundation.LittleEndian
import Xul.Std.Bytes
import Mathlib.Data.Nat.Size

/-!
# Big numbers

`big_number` is a number of a fixed count of bytes, the least significant first.  Its
operators are loops over the bytes with carries of 16 bits, and shifts in place.  The loop
counters are `int`, so a number has less than 2^31 bytes; a bit length is counted in an
`int` as well, and overflows it from 2^28 bytes on (`bits_halfGigabyte`).  The operators are
arithmetic modulo a power of two (`arithmetic`).
-/

set_option autoImplicit false

namespace Xul

open Foundation

/-- `big_number` of a count of bytes. -/
structure BigNumber (byteCount : Nat) where
  bytes : Bytes
  length_bytes : bytes.length = byteCount

namespace BigNumber

variable {byteCount : Nat}

/-! ## The loops -/

def incrementLoop : Bytes → Bytes
  | [] => []
  | byte :: bytes => if byte + 1 = 0 then (byte + 1) :: incrementLoop bytes else (byte + 1) :: bytes

def decrementLoop : Bytes → Bytes
  | [] => []
  | byte :: bytes =>
      if byte - 1 = 0xFF then (byte - 1) :: decrementLoop bytes else (byte - 1) :: bytes

/-- The loop of `operator+=`. -/
def addLoop : UInt16 → Bytes → Bytes → Bytes
  | carry, x :: xs, y :: ys =>
      let n := carry + x.toUInt16 + y.toUInt16
      n.toUInt8 :: addLoop (n >>> 8) xs ys
  | _, _, _ => []

/-- The inner loop of `operator*=`: a digit times the other number is added from here on. -/
def mulRow (digit : UInt8) : UInt16 → Bytes → Bytes → Bytes
  | carry, x :: xs, y :: ys =>
      let n := carry + x.toUInt16 + digit.toUInt16 * y.toUInt16
      n.toUInt8 :: mulRow digit (n >>> 8) xs ys
  | _, _, _ => []

/-- The outer loop of `operator*=`, at the digit `j`. -/
def mulLoop (b : Bytes) : Nat → Bytes → Bytes → Bytes
  | _, [], product => product
  | j, digit :: digits, product =>
      mulLoop b (j + 1) digits (product.take j ++ mulRow digit 0 (product.drop j) b)

/-- The loop of `compare`, from the byte before `count` down. -/
def compareLoop (a b : Bytes) : Nat → Int
  | 0 => 0
  | i + 1 =>
      if a.getD i 0 < b.getD i 0 then -1
      else if b.getD i 0 < a.getD i 0 then 1
      else compareLoop a b i

/-- The inner loop of `bits`: the highest bit of a byte above the lowest. -/
def highestBit (byte : UInt8) : Nat → Nat
  | 0 => 0
  | n + 1 => if byte &&& (1 <<< UInt8.ofNat (n + 1)) ≠ 0 then n + 1 else highestBit byte n

/-- The loop of `bits`, from the byte before `count` down; there is no answer when the `int`
overflows. -/
def bitsLoop (bytes : Bytes) : Nat → Option Nat
  | 0 => some 0
  | pos + 1 =>
      if bytes.getD pos 0 ≠ 0 then
        let bits := 8 * pos + highestBit (bytes.getD pos 0) 7 + 1
        if bits < 2 ^ 31 then some bits else none
      else bitsLoop bytes pos

/-! ## The operators -/

def clear (byteCount : Nat) : BigNumber byteCount :=
  ⟨List.replicate byteCount 0, List.length_replicate⟩

theorem length_incrementLoop (bytes : Bytes) : (incrementLoop bytes).length = bytes.length := by
  induction bytes with
  | nil => rfl
  | cons byte bytes ih =>
      rw [incrementLoop]
      split
      · rw [List.length_cons, ih, List.length_cons]
      · rfl

theorem length_decrementLoop (bytes : Bytes) : (decrementLoop bytes).length = bytes.length := by
  induction bytes with
  | nil => rfl
  | cons byte bytes ih =>
      rw [decrementLoop]
      split
      · rw [List.length_cons, ih, List.length_cons]
      · rfl

theorem length_addLoop {xs ys : Bytes} (le : xs.length ≤ ys.length) (carry : UInt16) :
    (addLoop carry xs ys).length = xs.length := by
  induction xs generalizing ys carry with
  | nil => rfl
  | cons x xs ih =>
      cases ys with
      | nil => exact absurd le (Nat.not_succ_le_zero _)
      | cons y ys => rw [addLoop, List.length_cons, ih (Nat.le_of_succ_le_succ le), List.length_cons]

theorem length_mulRow {digit : UInt8} {xs ys : Bytes} (le : xs.length ≤ ys.length)
    (carry : UInt16) : (mulRow digit carry xs ys).length = xs.length := by
  induction xs generalizing ys carry with
  | nil => rfl
  | cons x xs ih =>
      cases ys with
      | nil => exact absurd le (Nat.not_succ_le_zero _)
      | cons y ys => rw [mulRow, List.length_cons, ih (Nat.le_of_succ_le_succ le), List.length_cons]

theorem length_mulLoop {b product : Bytes} (le : product.length ≤ b.length) (j : Nat)
    (digits : Bytes) : (mulLoop b j digits product).length = product.length := by
  induction digits generalizing j product with
  | nil => rfl
  | cons digit digits ih =>
      have row : (mulRow digit 0 (product.drop j) b).length = (product.drop j).length :=
        length_mulRow (by rw [List.length_drop]; omega) 0
      have same : (product.take j ++ mulRow digit 0 (product.drop j) b).length =
          product.length := by
        rw [List.length_append, row, ← List.length_append, List.take_append_drop]
      rw [mulLoop, ih (same ▸ le), same]

def increment (n : BigNumber byteCount) : BigNumber byteCount :=
  ⟨incrementLoop n.bytes, (length_incrementLoop _).trans n.length_bytes⟩

def decrement (n : BigNumber byteCount) : BigNumber byteCount :=
  ⟨decrementLoop n.bytes, (length_decrementLoop _).trans n.length_bytes⟩

def flip (n : BigNumber byteCount) : BigNumber byteCount :=
  ⟨n.bytes.map fun byte => ~~~byte, List.length_map _ |>.trans n.length_bytes⟩

/-- `operator-` of one number, and `negate`. -/
def negate (n : BigNumber byteCount) : BigNumber byteCount := n.flip.increment

/-- `operator+=`. -/
def add (a b : BigNumber byteCount) : BigNumber byteCount :=
  ⟨addLoop 0 a.bytes b.bytes,
    (length_addLoop (by rw [a.length_bytes, b.length_bytes]) 0).trans a.length_bytes⟩

/-- `operator-=`. -/
def sub (a b : BigNumber byteCount) : BigNumber byteCount := a.add b.negate

/-- `operator*=`. -/
def mul (a b : BigNumber byteCount) : BigNumber byteCount :=
  ⟨mulLoop b.bytes 0 a.bytes (clear byteCount).bytes,
    (length_mulLoop (by rw [(clear byteCount).length_bytes, b.length_bytes]) 0 _).trans
      (clear byteCount).length_bytes⟩

def compare (a b : BigNumber byteCount) : Int := compareLoop a.bytes b.bytes byteCount

def bits (n : BigNumber byteCount) : Option Nat := bitsLoop n.bytes byteCount

/-- The bytes that `operator<<=` moves up, in place. -/
def moveUp (byteShift bitShift : Nat) (bytes : Bytes) : Bytes :=
  if bitShift = 0 then
    assignDown (fun bytes i => bytes.getD i 0) byteShift (bytes.length - byteShift) bytes
  else
    let moved := assignDown (fun bytes i =>
      bytes.getD (i + 1) 0 <<< UInt8.ofNat bitShift ||| bytes.getD i 0 >>> UInt8.ofNat (8 - bitShift))
      (byteShift + 1) (bytes.length - byteShift - 1) bytes
    moved.set byteShift (moved.getD 0 0 <<< UInt8.ofNat bitShift)

/-- The bytes that `operator>>=` moves down, in place. -/
def moveDown (byteShift bitShift : Nat) (bytes : Bytes) : Bytes :=
  if bitShift = 0 then
    assignUp (fun bytes i => bytes.getD (i + byteShift) 0) (bytes.length - byteShift) 0 bytes
  else
    let rightMostByte := bytes.length - byteShift - 1
    let moved := assignUp (fun bytes i => bytes.getD (i + byteShift) 0 >>> UInt8.ofNat bitShift |||
      bytes.getD (i + byteShift + 1) 0 <<< UInt8.ofNat (8 - bitShift)) rightMostByte 0 bytes
    moved.set rightMostByte (moved.getD (bytes.length - 1) 0 >>> UInt8.ofNat bitShift)

@[simp] theorem length_moveUp (byteShift bitShift : Nat) (bytes : Bytes) :
    (moveUp byteShift bitShift bytes).length = bytes.length := by
  rw [moveUp]
  split
  · exact length_assignDown ..
  · rw [List.length_set, length_assignDown]

@[simp] theorem length_moveDown (byteShift bitShift : Nat) (bytes : Bytes) :
    (moveDown byteShift bitShift bytes).length = bytes.length := by
  rw [moveDown]
  split
  · exact length_assignUp ..
  · rw [List.length_set, length_assignUp]

/-- `operator<<=`. -/
def shiftLeft (n : BigNumber byteCount) (shift : UInt32) : BigNumber byteCount :=
  if shift = 0 then n
  else if byteCount * 8 ≤ shift.toNat then clear byteCount
  else
    let byteShift := shift.toNat / 8
    ⟨assignUp (fun _ _ => 0) byteShift 0 (moveUp byteShift (shift.toNat % 8) n.bytes), by
      rw [length_assignUp, length_moveUp, n.length_bytes]⟩

/-- `operator>>=`. -/
def shiftRight (n : BigNumber byteCount) (shift : UInt32) : BigNumber byteCount :=
  if shift = 0 then n
  else if byteCount * 8 ≤ shift.toNat then clear byteCount
  else
    let byteShift := shift.toNat / 8
    ⟨assignUp (fun _ _ => 0) byteShift (byteCount - byteShift)
        (moveDown byteShift (shift.toNat % 8) n.bytes), by
      rw [length_assignUp, length_moveDown, n.length_bytes]⟩

/-- The number that the bytes stand for. -/
def value (n : BigNumber byteCount) : Nat := littleEndian n.bytes

theorem value_lt (n : BigNumber byteCount) : n.value < 256 ^ byteCount := by
  have bounded := littleEndian_lt n.bytes
  rwa [n.length_bytes] at bounded

theorem eq_of_bytes {n m : BigNumber byteCount} (same : n.bytes = m.bytes) : n = m := by
  cases n
  cases m
  congr

theorem eq_of_value {n m : BigNumber byteCount} (same : n.value = m.value) : n = m := by
  have first := bytesOf_littleEndian n.bytes
  have second := bytesOf_littleEndian m.bytes
  rw [n.length_bytes] at first
  rw [m.length_bytes] at second
  exact eq_of_bytes (first.symm.trans ((congrArg (bytesOf byteCount) same).trans second))

/-! ## Counting up and down -/

theorem littleEndian_incrementLoop (bytes : Bytes) :
    littleEndian (incrementLoop bytes) = (littleEndian bytes + 1) % 256 ^ bytes.length := by
  induction bytes with
  | nil => rw [incrementLoop, littleEndian_nil, List.length_nil, pow_zero, Nat.mod_one]
  | cons byte bytes ih =>
      have next : (byte + 1).toNat = (byte.toNat + 1) % 256 := UInt8.toNat_add byte 1
      have bounded := littleEndian_lt bytes
      have small := byte.toNat_lt
      rw [incrementLoop, List.length_cons, pow_succ', littleEndian_cons]
      split
      · next zero =>
          rw [zero] at next
          have full : byte.toNat = 255 := by
            have none : (0 : UInt8).toNat = 0 := rfl
            omega
          have whole : 255 + 256 * littleEndian bytes + 1 = 256 * (littleEndian bytes + 1) := by
            ring
          rw [zero, littleEndian_cons, ih, full, whole, Nat.mul_mod_mul_left]
          exact Nat.zero_add _
      · next nonzero =>
          have room : byte.toNat + 1 < 256 := by
            by_contra full
            apply nonzero
            apply UInt8.toNat.inj
            rw [next, show byte.toNat + 1 = 256 by omega]
            rfl
          rw [littleEndian_cons, next, Nat.mod_eq_of_lt room, Nat.mod_eq_of_lt (by omega)]
          omega

/-- Counting down is counting up backwards. -/
theorem incrementLoop_decrementLoop (bytes : Bytes) :
    incrementLoop (decrementLoop bytes) = bytes := by
  induction bytes with
  | nil => rfl
  | cons byte bytes ih =>
      have back : byte - 1 + 1 = byte := UInt8.sub_add_cancel byte 1
      rw [decrementLoop]
      split
      · next full =>
          have zero : byte = 0 := by
            rw [← back, full]
            decide
          rw [incrementLoop, if_pos (by rw [back, zero]), ih, back]
      · next notFull =>
          have nonzero : byte ≠ 0 := by
            rintro rfl
            exact notFull (by decide)
          rw [incrementLoop, if_neg (by rw [back]; exact nonzero), back]

theorem littleEndian_flip (bytes : Bytes) :
    littleEndian (bytes.map fun byte => ~~~byte) + littleEndian bytes + 1 =
      256 ^ bytes.length := by
  induction bytes with
  | nil => rfl
  | cons byte bytes ih =>
      have opposite : (~~~byte).toNat + byte.toNat = 255 := by
        have small := byte.toNat_lt
        have size : UInt8.size = 256 := rfl
        rw [UInt8.toNat_not, size]
        omega
      rw [List.map_cons, littleEndian_cons, littleEndian_cons, List.length_cons, pow_succ', ← ih]
      omega

theorem value_increment (n : BigNumber byteCount) :
    n.increment.value = (n.value + 1) % 256 ^ byteCount := by
  rw [value, increment, littleEndian_incrementLoop, n.length_bytes]
  rfl

theorem increment_decrement (n : BigNumber byteCount) : n.decrement.increment = n := by
  cases n
  simp only [decrement, increment, incrementLoop_decrementLoop]

/-- The negation of a number adds up to nothing with it. -/
theorem value_negate (n : BigNumber byteCount) :
    n.negate.value = (256 ^ byteCount - n.value) % 256 ^ byteCount := by
  have all := littleEndian_flip n.bytes
  rw [n.length_bytes] at all
  have flipped : n.flip.value + n.value + 1 = 256 ^ byteCount := all
  rw [negate, value_increment, ← flipped]
  congr 1
  omega

/-! ## Adding -/

theorem toNat_toUInt8 (n : UInt16) : n.toUInt8.toNat = n.toNat % 256 := UInt16.toNat_toUInt8 n

theorem toNat_shiftRight_eight (n : UInt16) : (n >>> 8).toNat = n.toNat / 256 := by
  rw [UInt16.toNat_shiftRight, Nat.shiftRight_eq_div_pow]
  rfl

/-- **Adding with a carry.** -/
theorem littleEndian_addLoop {xs ys : Bytes} (length : xs.length = ys.length) {carry : UInt16}
    (bit : carry.toNat ≤ 1) :
    littleEndian (addLoop carry xs ys) =
      (carry.toNat + littleEndian xs + littleEndian ys) % 256 ^ xs.length := by
  induction xs generalizing ys carry with
  | nil => rw [addLoop, littleEndian_nil, List.length_nil, pow_zero, Nat.mod_one]; exact nofun
  | cons x xs ih =>
      cases ys with
      | nil => exact absurd length (by simp)
      | cons y ys =>
          have hx := x.toNat_lt
          have hy := y.toNat_lt
          have sum : (carry + x.toUInt16 + y.toUInt16).toNat =
              carry.toNat + x.toNat + y.toNat := by
            rw [UInt16.toNat_add, UInt16.toNat_add, UInt8.toNat_toUInt16, UInt8.toNat_toUInt16]
            omega
          have carried : ((carry + x.toUInt16 + y.toUInt16) >>> 8).toNat =
              (carry.toNat + x.toNat + y.toNat) / 256 := by
            rw [toNat_shiftRight_eight, sum]
          have whole : carry.toNat + littleEndian (x :: xs) + littleEndian (y :: ys) =
              (carry.toNat + x.toNat + y.toNat) +
                256 * (littleEndian xs + littleEndian ys) := by
            rw [littleEndian_cons, littleEndian_cons]
            ring
          rw [addLoop]
          simp only [littleEndian_cons (carry + x.toUInt16 + y.toUInt16).toUInt8]
          rw [ih (Nat.succ.inj length) (by rw [carried]; omega), toNat_toUInt8, sum, carried, whole,
            List.length_cons, pow_succ', Nat.mod_mul, Nat.add_mul_mod_self_left,
            Nat.add_mul_div_left _ _ (by decide), Nat.add_assoc ((_ + _ + _) / 256)]

theorem value_add (a b : BigNumber byteCount) :
    (a.add b).value = (a.value + b.value) % 256 ^ byteCount := by
  have sum := @littleEndian_addLoop a.bytes b.bytes
    (by rw [a.length_bytes, b.length_bytes]) 0 (by decide)
  rw [a.length_bytes] at sum
  rw [value, add, sum]
  simp [value]

/-! ## Multiplying -/

/-- **A row adds a digit times the other number.** -/
theorem littleEndian_mulRow {digit : UInt8} {xs ys : Bytes} (le : xs.length ≤ ys.length)
    {carry : UInt16} (byte : carry.toNat ≤ 255) :
    littleEndian (mulRow digit carry xs ys) =
      (carry.toNat + littleEndian xs + digit.toNat * littleEndian ys) % 256 ^ xs.length := by
  induction xs generalizing ys carry with
  | nil => rw [mulRow, littleEndian_nil, List.length_nil, pow_zero, Nat.mod_one]; exact nofun
  | cons x xs ih =>
      cases ys with
      | nil => exact absurd le (Nat.not_succ_le_zero _)
      | cons y ys =>
          have hx := x.toNat_lt
          have product : digit.toNat * y.toNat ≤ 255 * 255 :=
            Nat.mul_le_mul (Nat.le_of_lt_succ digit.toNat_lt) (Nat.le_of_lt_succ y.toNat_lt)
          have sum : (carry + x.toUInt16 + digit.toUInt16 * y.toUInt16).toNat =
              carry.toNat + x.toNat + digit.toNat * y.toNat := by
            rw [UInt16.toNat_add, UInt16.toNat_add, UInt16.toNat_mul, UInt8.toNat_toUInt16,
              UInt8.toNat_toUInt16, UInt8.toNat_toUInt16]
            omega
          have carried : ((carry + x.toUInt16 + digit.toUInt16 * y.toUInt16) >>> 8).toNat =
              (carry.toNat + x.toNat + digit.toNat * y.toNat) / 256 := by
            rw [toNat_shiftRight_eight, sum]
          have whole : carry.toNat + littleEndian (x :: xs) + digit.toNat * littleEndian (y :: ys) =
              (carry.toNat + x.toNat + digit.toNat * y.toNat) +
                256 * (littleEndian xs + digit.toNat * littleEndian ys) := by
            rw [littleEndian_cons, littleEndian_cons]
            ring
          rw [mulRow]
          simp only [littleEndian_cons (carry + x.toUInt16 + digit.toUInt16 * y.toUInt16).toUInt8]
          rw [ih (Nat.le_of_succ_le_succ le) (by rw [carried]; omega), toNat_toUInt8, sum, carried,
            whole, List.length_cons, pow_succ', Nat.mod_mul, Nat.add_mul_mod_self_left,
            Nat.add_mul_div_left _ _ (by decide), Nat.add_assoc ((_ + _ + _) / 256)]

/-- **The rows add up to the product.**  What is left out of a row is beyond the last byte. -/
theorem littleEndian_mulLoop {b product : Bytes} (le : product.length ≤ b.length) (digits : Bytes)
    {j : Nat} (fits : j + digits.length ≤ product.length) :
    littleEndian (mulLoop b j digits product) =
      (littleEndian product + 256 ^ j * littleEndian digits * littleEndian b) %
        256 ^ product.length := by
  induction digits generalizing j product with
  | nil =>
      rw [mulLoop, littleEndian_nil, Nat.mul_zero, Nat.zero_mul, Nat.add_zero,
        Nat.mod_eq_of_lt (littleEndian_lt product)]
  | cons digit digits ih =>
      rw [List.length_cons] at fits
      have rest : (product.drop j).length ≤ b.length := by rw [List.length_drop]; omega
      have row := @littleEndian_mulRow digit _ _ rest 0 (by decide)
      have length : (product.take j ++ mulRow digit 0 (product.drop j) b).length =
          product.length := by
        rw [List.length_append, length_mulRow rest, ← List.length_append, List.take_append_drop]
      have power : 256 ^ product.length = 256 ^ j * 256 ^ (product.drop j).length := by
        rw [List.length_drop, ← pow_add]
        congr 1
        omega
      have parts := littleEndian_append (product.take j) (product.drop j)
      rw [List.take_append_drop, List.length_take_of_le (by omega)] at parts
      -- one row, at the digit `j`
      have added : littleEndian (product.take j ++ mulRow digit 0 (product.drop j) b) ≡
          littleEndian product + 256 ^ j * (digit.toNat * littleEndian b)
            [MOD 256 ^ product.length] := by
        rw [littleEndian_append, List.length_take_of_le (by omega), row, parts,
          Nat.add_assoc (littleEndian (product.take j)), ← Nat.mul_add, power]
        apply Nat.ModEq.add_left
        apply Nat.ModEq.mul_left'
        rw [UInt16.toNat_zero, Nat.zero_add]
        exact Nat.mod_modEq ..
      rw [mulLoop, ih (by rw [length]; exact le) (by rw [length]; omega), length]
      change _ ≡ _ [MOD _]
      have whole : littleEndian product + 256 ^ j * littleEndian (digit :: digits) * littleEndian b =
          littleEndian product + 256 ^ j * (digit.toNat * littleEndian b) +
            256 ^ (j + 1) * littleEndian digits * littleEndian b := by
        rw [littleEndian_cons]
        ring
      rw [whole]
      exact added.add_right _

theorem value_mul (a b : BigNumber byteCount) :
    (a.mul b).value = a.value * b.value % 256 ^ byteCount := by
  have cleared := (clear byteCount).length_bytes
  have product := @littleEndian_mulLoop b.bytes (clear byteCount).bytes
    (by rw [cleared, b.length_bytes]) a.bytes 0 (by rw [cleared, a.length_bytes, Nat.zero_add])
  rw [cleared] at product
  rw [value, mul, product, clear, littleEndian_replicate_zero, Nat.zero_add, pow_zero, Nat.one_mul]
  rfl

/-! ## Counting modulo the size -/

/-- What a number counts as when it is used to subtract. -/
theorem value_negate_modEq (n : BigNumber byteCount) :
    (n.negate.value : Int) ≡ -n.value [ZMOD 256 ^ byteCount] := by
  have less := value_lt n
  rw [value_negate, Int.natCast_mod, Nat.cast_sub less.le, Nat.cast_pow, Nat.cast_ofNat]
  refine (Int.mod_modEq _ _).trans ?_
  rw [Int.modEq_iff_dvd]
  exact ⟨-1, by ring⟩

theorem value_decrement_modEq (n : BigNumber byteCount) :
    (n.decrement.value : Int) ≡ n.value - 1 [ZMOD 256 ^ byteCount] := by
  have forth := value_increment n.decrement
  rw [increment_decrement] at forth
  have counted : (n.value : Int) ≡ n.decrement.value + 1 [ZMOD 256 ^ byteCount] := by
    rw [forth]
    push_cast
    exact Int.mod_modEq _ _
  have back := (counted.sub_right 1).symm
  rwa [add_sub_cancel_right] at back

/-- A number is the remainder of what it counts as. -/
theorem value_eq_emod {n : BigNumber byteCount} {result : Int}
    (counts : (n.value : Int) ≡ result [ZMOD 256 ^ byteCount]) :
    (n.value : Int) = result % 256 ^ byteCount := by
  rw [← counts]
  symm
  apply Int.emod_eq_of_lt (Int.natCast_nonneg _)
  exact_mod_cast value_lt n

/-! ## Comparing -/

/-- The bytes before the highest decide when those are equal. -/
theorem compareLoop_eq {a b : Bytes} (length : a.length = b.length) {count : Nat}
    (le : count ≤ a.length) :
    compareLoop a b count =
      ((littleEndian (a.take count) : Int) - littleEndian (b.take count)).sign := by
  induction count with
  | zero => rfl
  | succ i ih =>
      have inA : i < a.length := le
      have inB : i < b.length := length ▸ le
      have boundA := littleEndian_lt (a.take i)
      have boundB := littleEndian_lt (b.take i)
      rw [List.length_take_of_le inA.le] at boundA
      rw [List.length_take_of_le inB.le] at boundB
      rw [compareLoop, ih inA.le, List.getD_eq_getElem _ _ inA, List.getD_eq_getElem _ _ inB,
        List.take_succ_eq_append_getElem inA, List.take_succ_eq_append_getElem inB,
        littleEndian_snoc, littleEndian_snoc, List.length_take_of_le inA.le,
        List.length_take_of_le inB.le]
      split
      · next less =>
          have step : 256 ^ i * (a[i].toNat + 1) ≤ 256 ^ i * b[i].toNat :=
            Nat.mul_le_mul_left _ (UInt8.lt_iff_toNat_lt.mp less)
          rw [Nat.mul_succ] at step
          exact (Int.sign_eq_neg_one_of_neg (by omega)).symm
      · split
        · next more =>
            have step : 256 ^ i * (b[i].toNat + 1) ≤ 256 ^ i * a[i].toNat :=
              Nat.mul_le_mul_left _ (UInt8.lt_iff_toNat_lt.mp more)
            rw [Nat.mul_succ] at step
            exact (Int.sign_eq_one_of_pos (by omega)).symm
        · next notLess notMore =>
            have same : a[i] = b[i] := UInt8.le_antisymm (UInt8.not_lt.mp notMore)
              (UInt8.not_lt.mp notLess)
            rw [same]
            congr 1
            push_cast
            ring

theorem compare_eq (a b : BigNumber byteCount) :
    a.compare b = ((a.value : Int) - b.value).sign := by
  have loop := @compareLoop_eq a.bytes b.bytes (a.length_bytes.trans b.length_bytes.symm)
    byteCount a.length_bytes.ge
  rw [List.take_of_length_le a.length_bytes.le, List.take_of_length_le b.length_bytes.le] at loop
  exact loop

/-! ## Shifting -/

/-- What `operator<<=` leaves: the low bytes are zero, and the others shifted. -/
def shiftedUp (byteShift bitShift : Nat) (bytes : Bytes) : Bytes :=
  let kept := bytes.take (bytes.length - byteShift)
  List.replicate byteShift 0 ++ if bitShift = 0 then kept else shiftUp bitShift 0 kept

/-- What `operator>>=` leaves. -/
def shiftedDown (byteShift bitShift : Nat) (bytes : Bytes) : Bytes :=
  let kept := bytes.drop byteShift
  (if bitShift = 0 then kept else shiftDown bitShift kept) ++ List.replicate byteShift 0

variable {byteShift bitShift : Nat} {bytes : Bytes}

theorem getD_take_of_lt {size k : Nat} (lt : k < size) :
    (bytes.take size).getD k 0 = bytes.getD k 0 := by
  simp [List.getD, lt]

theorem getD_drop (size k : Nat) : (bytes.drop size).getD k 0 = bytes.getD (k + size) 0 := by
  simp [List.getD, List.getElem?_drop, Nat.add_comm]

theorem getD_map_shiftRight (shift : UInt8) (k : Nat) :
    (bytes.map fun byte => byte >>> shift).getD k 0 = bytes.getD k 0 >>> shift := by
  have mapped := @List.getD_map _ _ bytes 0 k fun byte => byte >>> shift
  rwa [UInt8.zero_shiftRight] at mapped

theorem getD_moveUp (inside : byteShift < bytes.length) (moves : bitShift = 0 → 0 < byteShift)
    {k : Nat} (above : byteShift ≤ k) (below : k < bytes.length) :
    (moveUp byteShift bitShift bytes).getD k 0 =
      (if bitShift = 0 then bytes.take (bytes.length - byteShift)
        else shiftUp bitShift 0 (bytes.take (bytes.length - byteShift))).getD (k - byteShift) 0 := by
  have there : k - byteShift < bytes.length - byteShift := by omega
  rw [moveUp]
  split
  · next none =>
      have reads : ReadsUpTo (0 : UInt8) fun bytes i => bytes.getD i 0 := by
        intro entries other i same
        exact same i (Nat.le_succ i)
      rw [getD_assignDown reads (moves none) (by omega), if_pos (by omega), getD_take_of_lt there]
  · next some =>
      have reads : ReadsUpTo (0 : UInt8) fun bytes i => bytes.getD (i + 1) 0 <<<
          UInt8.ofNat bitShift ||| bytes.getD i 0 >>> UInt8.ofNat (8 - bitShift) := by
        intro entries other i same
        simp only [same i (Nat.le_succ i), same (i + 1) le_rfl]
      have length : (bytes.take (bytes.length - byteShift)).length = bytes.length - byteShift :=
        List.length_take_of_le (by omega)
      rw [getD_shiftUp _ _ (by rw [length]; exact there), getD_take_of_lt there]
      obtain same | more := Nat.eq_or_lt_of_le above
      · subst same
        rw [getD_set_self (by rw [length_assignDown]; exact inside),
          getD_assignDown reads (by omega) (by omega), if_neg (by omega), Nat.sub_self]
        exact (UInt8.or_zero ..).symm
      · obtain ⟨i, rfl⟩ : ∃ i, k = i + (byteShift + 1) := ⟨k - (byteShift + 1), by omega⟩
        have here : i + (byteShift + 1) - byteShift = i + 1 := by omega
        rw [getD_set_of_ne (by omega), getD_assignDown reads (by omega) (by omega),
          if_pos (by omega), here, List.getD_cons_succ, getD_map_shiftRight,
          getD_take_of_lt (by omega), Nat.add_sub_cancel]

theorem assignUp_moveUp (inside : byteShift < bytes.length)
    (moves : bitShift = 0 → 0 < byteShift) :
    assignUp (fun _ _ => 0) byteShift 0 (moveUp byteShift bitShift bytes) =
      shiftedUp byteShift bitShift bytes := by
  have length : (shiftedUp byteShift bitShift bytes).length = bytes.length := by
    rw [shiftedUp, List.length_append, List.length_replicate]
    split <;> simp only [length_shiftUp, List.length_take] <;> omega
  apply @ext_getD _ 0
  · rw [length_assignUp, length_moveUp, length]
  · intro k below
    rw [length_assignUp, length_moveUp] at below
    have constant : ReadsFrom (0 : UInt8) fun _ _ => 0 := fun _ => rfl
    rw [getD_assignUp constant (by rw [length_moveUp]; omega), shiftedUp]
    by_cases low : k < byteShift
    · rw [if_pos (by omega), List.getD_append _ _ _ _ (by rwa [List.length_replicate]),
        List.getD_replicate _ low]
    · rw [if_neg (by omega),
        List.getD_append_right _ _ _ _ (by rw [List.length_replicate]; omega),
        List.length_replicate]
      exact getD_moveUp inside moves (by omega) below

theorem getD_moveDown (inside : byteShift < bytes.length) {k : Nat}
    (below : k < bytes.length - byteShift) :
    (moveDown byteShift bitShift bytes).getD k 0 =
      (if bitShift = 0 then bytes.drop byteShift
        else shiftDown bitShift (bytes.drop byteShift)).getD k 0 := by
  rw [moveDown]
  split
  · have reads : ReadsFrom (0 : UInt8) fun bytes i => bytes.getD (i + byteShift) 0 := by
      intro entries other i same
      exact same (i + byteShift) (Nat.le_add_right ..)
    rw [getD_assignUp reads (by omega), if_pos (by omega), getD_drop]
  · have reads : ReadsFrom (0 : UInt8) fun bytes i => bytes.getD (i + byteShift) 0 >>>
        UInt8.ofNat bitShift ||| bytes.getD (i + byteShift + 1) 0 <<< UInt8.ofNat (8 - bitShift) := by
      intro entries other i same
      simp only [same (i + byteShift) (by omega), same (i + byteShift + 1) (by omega)]
    rw [getD_shiftDown, getD_drop, getD_drop]
    by_cases last : k = bytes.length - byteShift - 1
    · subst last
      have top : bytes.length - byteShift - 1 + byteShift = bytes.length - 1 := by omega
      have beyond : bytes.getD (bytes.length - byteShift - 1 + 1 + byteShift) 0 = 0 :=
        List.getD_eq_default _ _ (by omega)
      rw [getD_set_self (by rw [length_assignUp]; omega), getD_assignUp reads (by omega),
        if_neg (by omega), top, beyond, UInt8.zero_shiftLeft, UInt8.or_zero]
    · have next : k + 1 + byteShift = k + byteShift + 1 := by omega
      rw [getD_set_of_ne (by omega), getD_assignUp reads (by omega), if_pos (by omega), next]

theorem assignUp_moveDown (inside : byteShift < bytes.length) :
    assignUp (fun _ _ => 0) byteShift (bytes.length - byteShift)
        (moveDown byteShift bitShift bytes) = shiftedDown byteShift bitShift bytes := by
  have kept : (if bitShift = 0 then bytes.drop byteShift
      else shiftDown bitShift (bytes.drop byteShift)).length = bytes.length - byteShift := by
    split <;> simp only [length_shiftDown, List.length_drop]
  have length : (shiftedDown byteShift bitShift bytes).length = bytes.length := by
    rw [shiftedDown, List.length_append, List.length_replicate, kept]
    omega
  apply @ext_getD _ 0
  · rw [length_assignUp, length_moveDown, length]
  · intro k below
    rw [length_assignUp, length_moveDown] at below
    have constant : ReadsFrom (0 : UInt8) fun _ _ => 0 := fun _ => rfl
    rw [getD_assignUp constant (by rw [length_moveDown]; omega), shiftedDown]
    by_cases low : k < bytes.length - byteShift
    · rw [if_neg (by omega), List.getD_append _ _ _ _ (by rw [kept]; exact low),
        getD_moveDown inside low]
    · rw [if_pos (by omega), List.getD_append_right _ _ _ _ (by rw [kept]; omega),
        List.getD_replicate _ (by rw [kept]; omega)]

theorem pow_256 (size : Nat) : 256 ^ size = 2 ^ (8 * size) := by rw [pow_mul]; rfl

theorem littleEndian_shiftedUp (le : byteShift ≤ bytes.length) (small : bitShift < 8) :
    littleEndian (shiftedUp byteShift bitShift bytes) =
      littleEndian bytes * 2 ^ (8 * byteShift + bitShift) % 256 ^ bytes.length := by
  have room : bytes.length - byteShift ≤ bytes.length := Nat.sub_le ..
  have kept := littleEndian_take room
  have power : 256 ^ bytes.length = 256 ^ byteShift * 256 ^ (bytes.length - byteShift) := by
    rw [← pow_add, Nat.add_sub_cancel' le]
  have shifted : littleEndian (if bitShift = 0 then bytes.take (bytes.length - byteShift)
      else shiftUp bitShift 0 (bytes.take (bytes.length - byteShift))) =
        2 ^ bitShift * littleEndian bytes % 256 ^ (bytes.length - byteShift) := by
    split
    · next none => rw [kept, none, pow_zero, Nat.one_mul]
    · next some =>
        have below : (0 : UInt8).toNat < 2 ^ bitShift := Nat.two_pow_pos bitShift
        rw [littleEndian_shiftUp (Nat.pos_of_ne_zero some) small below, kept,
          List.length_take_of_le room, UInt8.toNat_zero, Nat.zero_add, Nat.mul_mod_mod]
  rw [shiftedUp, littleEndian_append, littleEndian_replicate_zero, List.length_replicate, shifted,
    power, ← Nat.mul_mod_mul_left, Nat.zero_add, pow_add, ← pow_256]
  congr 1
  ring

theorem littleEndian_shiftedDown (le : byteShift ≤ bytes.length) (small : bitShift < 8) :
    littleEndian (shiftedDown byteShift bitShift bytes) =
      littleEndian bytes / 2 ^ (8 * byteShift + bitShift) := by
  have kept := littleEndian_drop le
  rw [shiftedDown, littleEndian_append, littleEndian_replicate_zero, Nat.mul_zero, Nat.add_zero,
    pow_add, ← pow_256, ← Nat.div_div_eq_div_mul, ← kept]
  split
  · next none => rw [none, pow_zero, Nat.div_one]
  · next some => exact littleEndian_shiftDown (Nat.pos_of_ne_zero some) small _

theorem getD_clear (byteCount k : Nat) : (clear byteCount).bytes.getD k 0 = 0 := by
  rw [List.getD_eq_getElem?_getD]
  exact List.getElem?_getD_replicate_default_eq ..

theorem value_clear : (clear byteCount).value = 0 := littleEndian_replicate_zero byteCount

theorem value_shiftLeft (n : BigNumber byteCount) (shift : UInt32) :
    (n.shiftLeft shift).value = n.value * 2 ^ shift.toNat % 256 ^ byteCount := by
  rw [shiftLeft]
  split
  · next none => rw [none, UInt32.toNat_zero, pow_zero, Nat.mul_one, Nat.mod_eq_of_lt n.value_lt]
  · next some =>
      have nonzero : shift.toNat ≠ 0 := fun zero => some (UInt32.toNat.inj zero)
      split
      · next beyond =>
          have divides : 256 ^ byteCount ∣ 2 ^ shift.toNat := by
            rw [pow_256]
            exact pow_dvd_pow 2 (by omega)
          rw [value_clear, Nat.mod_eq_zero_of_dvd (Dvd.dvd.mul_left divides _)]
      · have inside : shift.toNat / 8 < n.bytes.length := by rw [n.length_bytes]; omega
        have whole : 8 * (shift.toNat / 8) + shift.toNat % 8 = shift.toNat := Nat.div_add_mod ..
        have up := @assignUp_moveUp _ (shift.toNat % 8) _ inside (by omega)
        have shifted := littleEndian_shiftedUp inside.le (Nat.mod_lt shift.toNat (by decide : 0 < 8))
        rw [← up, whole, n.length_bytes] at shifted
        exact shifted

theorem value_shiftRight (n : BigNumber byteCount) (shift : UInt32) :
    (n.shiftRight shift).value = n.value / 2 ^ shift.toNat := by
  rw [shiftRight]
  split
  · next none => rw [none, UInt32.toNat_zero, pow_zero, Nat.div_one]
  · split
    · next beyond =>
        have below : n.value < 2 ^ shift.toNat := by
          apply n.value_lt.trans_le
          rw [pow_256]
          exact Nat.pow_le_pow_right (by decide) (by omega)
        rw [value_clear, Nat.div_eq_of_lt below]
    · have inside : shift.toNat / 8 < n.bytes.length := by rw [n.length_bytes]; omega
      have whole : 8 * (shift.toNat / 8) + shift.toNat % 8 = shift.toNat := Nat.div_add_mod ..
      have down := @assignUp_moveDown _ (shift.toNat % 8) _ inside
      have shifted := littleEndian_shiftedDown inside.le (Nat.mod_lt shift.toNat (by decide : 0 < 8))
      rw [← down, whole, n.length_bytes] at shifted
      exact shifted

/-! ## The bit length -/

/-- The highest bit of a byte that has one. -/
theorem highestBit_spec (byte : UInt8) (nonzero : byte ≠ 0) :
    2 ^ highestBit byte 7 ≤ byte.toNat ∧ byte.toNat < 2 ^ (highestBit byte 7 + 1) ∧
      highestBit byte 7 ≤ 7 := by
  have all : ∀ code : Fin 256, UInt8.ofFin code ≠ 0 →
      2 ^ highestBit (UInt8.ofFin code) 7 ≤ (UInt8.ofFin code).toNat ∧
        (UInt8.ofFin code).toNat < 2 ^ (highestBit (UInt8.ofFin code) 7 + 1) ∧
          highestBit (UInt8.ofFin code) 7 ≤ 7 := by
    decide +kernel
  exact all byte.toFin nonzero

theorem size_littleEndian_snoc (low : Bytes) {byte : UInt8} (nonzero : byte ≠ 0) :
    Nat.size (littleEndian (low ++ [byte])) = 8 * low.length + highestBit byte 7 + 1 := by
  have below := littleEndian_lt low
  obtain ⟨lower, upper, -⟩ := highestBit_spec byte nonzero
  rw [littleEndian_snoc]
  rw [pow_256] at below ⊢
  apply le_antisymm
  · rw [Nat.size_le, Nat.add_assoc, pow_add]
    calc littleEndian low + 2 ^ (8 * low.length) * byte.toNat
        < 2 ^ (8 * low.length) * (byte.toNat + 1) := by rw [Nat.mul_succ]; omega
      _ ≤ 2 ^ (8 * low.length) * 2 ^ (highestBit byte 7 + 1) := Nat.mul_le_mul_left _ upper
  · rw [Nat.succ_le_iff, Nat.lt_size, pow_add]
    calc 2 ^ (8 * low.length) * 2 ^ highestBit byte 7
        ≤ 2 ^ (8 * low.length) * byte.toNat := Nat.mul_le_mul_left _ lower
      _ ≤ littleEndian low + 2 ^ (8 * low.length) * byte.toNat := Nat.le_add_left ..

theorem bitsLoop_eq {count : Nat} (le : count ≤ bytes.length) (fits : 8 * count < 2 ^ 31) :
    bitsLoop bytes count = some (Nat.size (littleEndian (bytes.take count))) := by
  induction count with
  | zero => rfl
  | succ pos ih =>
      have inside : pos < bytes.length := le
      rw [bitsLoop, List.take_succ_eq_append_getElem inside, List.getD_eq_getElem _ _ inside]
      by_cases zero : bytes[pos] = 0
      · rw [if_neg (not_not.mpr zero), ih inside.le (by omega), zero, littleEndian_snoc,
          UInt8.toNat_zero, Nat.mul_zero, Nat.add_zero]
      · obtain ⟨-, -, top⟩ := highestBit_spec bytes[pos] zero
        simp only [ne_eq, zero, not_false_eq_true, if_true]
        rw [if_pos (by omega), size_littleEndian_snoc _ zero, List.length_take_of_le inside.le]

theorem bits_eq (n : BigNumber byteCount) (fits : 8 * byteCount < 2 ^ 31) :
    n.bits = some (Nat.size n.value) := by
  have loop := bitsLoop_eq n.length_bytes.ge fits
  rwa [List.take_of_length_le n.length_bytes.le] at loop

/-- The number with only its highest bit. -/
def topBit (pos : Nat) : BigNumber (pos + 1) :=
  ⟨List.replicate pos 0 ++ [0x80], by
    rw [List.length_append, List.length_replicate, List.length_singleton]⟩

/-- In a number too long for an `int` to count its bits the answer overflows. -/
theorem bits_topBit_none {pos : Nat} (large : 2 ^ 31 ≤ 8 * pos + 8) : (topBit pos).bits = none := by
  have top : (topBit pos).bytes.getD pos 0 = 0x80 := by
    rw [topBit, List.getD_append_right _ _ _ _ (by rw [List.length_replicate]),
      List.length_replicate, Nat.sub_self]
    rfl
  have seven : highestBit 0x80 7 = 7 := by decide
  rw [bits, bitsLoop, top, seven, if_pos (by decide)]
  exact if_neg (by omega)

/-- **A number of 2^29 bytes whose highest bit is set has a bit length of 2^32**, which is no
`unsigned int`. -/
theorem bits_halfGigabyte :
    (topBit (2 ^ 29 - 1)).bits ≠ some (Nat.size (topBit (2 ^ 29 - 1)).value) := by
  rw [bits_topBit_none (by norm_num)]
  exact nofun

/-! ## The arithmetic -/

/-- What the operators compute, as integers modulo a power of two, and as the order. -/
structure Arithmetic (a b : BigNumber byteCount) (shift : UInt32) : Prop where
  add : ((a.add b).value : Int) = (a.value + b.value) % 2 ^ (8 * byteCount)
  sub : ((a.sub b).value : Int) = (a.value - b.value) % 2 ^ (8 * byteCount)
  mul : ((a.mul b).value : Int) = a.value * b.value % 2 ^ (8 * byteCount)
  negate : (a.negate.value : Int) = -a.value % 2 ^ (8 * byteCount)
  increment : (a.increment.value : Int) = (a.value + 1) % 2 ^ (8 * byteCount)
  decrement : (a.decrement.value : Int) = (a.value - 1) % 2 ^ (8 * byteCount)
  shiftLeft : ((a.shiftLeft shift).value : Int) =
    a.value * 2 ^ shift.toNat % 2 ^ (8 * byteCount)
  shiftRight : ((a.shiftRight shift).value : Int) = a.value / 2 ^ shift.toNat
  compare : a.compare b = ((a.value : Int) - b.value).sign

/-- **The operators are the arithmetic of integers modulo 2^8L, and `compare` is their order;
the bit length is counted as long as it is an `int`.** -/
theorem arithmetic (a b : BigNumber byteCount) (shift : UInt32) :
    Arithmetic a b shift ∧ (8 * byteCount < 2 ^ 31 → a.bits = some (Nat.size a.value)) := by
  have power : (2 : Int) ^ (8 * byteCount) = 256 ^ byteCount := by
    rw [pow_mul]
    rfl
  have negated := value_negate_modEq b
  refine ⟨⟨?_, ?_, ?_, ?_, ?_, ?_, ?_, ?_, compare_eq a b⟩, bits_eq a⟩
  · rw [value_add, power]
    norm_cast
  · rw [power]
    apply value_eq_emod
    rw [sub, value_add]
    push_cast
    exact (Int.mod_modEq _ _).trans (negated.add_left _)
  · rw [value_mul, power]
    norm_cast
  · rw [power]
    exact value_eq_emod (value_negate_modEq a)
  · rw [value_increment, power]
    norm_cast
  · rw [power]
    exact value_eq_emod (value_decrement_modEq a)
  · rw [value_shiftLeft, power]
    norm_cast
  · rw [value_shiftRight]
    norm_cast

theorem arithmetic_words :
    Arithmetic (⟨[0xFF, 0x01], rfl⟩ : BigNumber 2) ⟨[0x02, 0x80], rfl⟩ 9 ∧
      (⟨[0xFF, 0x01], rfl⟩ : BigNumber 2).bits =
        some (Nat.size (⟨[0xFF, 0x01], rfl⟩ : BigNumber 2).value) :=
  ⟨(arithmetic _ _ _).1, (arithmetic _ ⟨[0x02, 0x80], rfl⟩ 9).2 (by decide)⟩

end BigNumber

end Xul
