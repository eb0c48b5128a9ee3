import Xul.Data.BigNumberDivision

/-!
# Big numbers as operands of themselves

The compound operators read their right operand while they write the left one, which may be the
same object.  `operator+=` reads a byte before it writes it, `operator-=` adds a negated copy, and
`operator/=` copies both operands.  `operator*=` copies the left operand and clears it: a number
that is multiplied by itself is multiplied by zero (`mulAssign_itself`), which is its square only
if the square is zero as well (`aliasSafe_iff`).
-/

set_option autoImplicit false

namespace Xul

open Foundation

namespace BigNumber

variable {byteCount : Nat}

/-! ## The operators -/

/-- The numbers at all addresses. -/
abbrev Numbers (byteCount : Nat) := Nat → BigNumber byteCount

/-- `m_bytes[i] = byte`. -/
def setByte (n : BigNumber byteCount) (i : Nat) (byte : UInt8) : BigNumber byteCount :=
  ⟨n.bytes.set i byte, (List.length_set ..).trans n.length_bytes⟩

/-- The loop of `operator+=`, from the byte `i` on.  The right operand is read in every turn. -/
def addAssignLoop (this : Nat) (b : Numbers byteCount → BigNumber byteCount) :
    Nat → Nat → UInt16 → Numbers byteCount → Numbers byteCount
  | 0, _, _, memory => memory
  | turns + 1, i, carry, memory =>
      let n := carry + ((memory this).bytes.getD i 0).toUInt16 +
        ((b memory).bytes.getD i 0).toUInt16
      addAssignLoop this b turns (i + 1) (n >>> 8)
        (Function.update memory this ((memory this).setByte i n.toUInt8))

/-- `operator+=` of an operand that is somewhere in memory, or a temporary object. -/
def addAssign (memory : Numbers byteCount) (this : Nat)
    (b : Numbers byteCount → BigNumber byteCount) : Numbers byteCount :=
  addAssignLoop this b byteCount 0 0 memory

/-- `operator-=` -/
def subAssign (memory : Numbers byteCount) (this b : Nat) : Numbers byteCount :=
  let negated := (memory b).negate
  addAssign memory this fun _ => negated

/-- The inner loop of `operator*=`, from the byte `i` of the right operand on. -/
def mulAssignRow (this b : Nat) (digit : UInt8) (j : Nat) :
    Nat → Nat → UInt16 → Numbers byteCount → Numbers byteCount
  | 0, _, _, memory => memory
  | turns + 1, i, carry, memory =>
      let n := carry + ((memory this).bytes.getD (i + j) 0).toUInt16 +
        digit.toUInt16 * ((memory b).bytes.getD i 0).toUInt16
      mulAssignRow this b digit j turns (i + 1) (n >>> 8)
        (Function.update memory this ((memory this).setByte (i + j) n.toUInt8))

/-- The outer loop of `operator*=`, from the byte `j` of the copied left operand on. -/
def mulAssignLoop (this b : Nat) (a : BigNumber byteCount) :
    Nat → Nat → Numbers byteCount → Numbers byteCount
  | 0, _, memory => memory
  | turns + 1, j, memory =>
      mulAssignLoop this b a turns (j + 1)
        (mulAssignRow this b (a.bytes.getD j 0) j (byteCount - j) 0 0 memory)

def mulAssign (memory : Numbers byteCount) (this b : Nat) : Numbers byteCount :=
  let a := memory this
  mulAssignLoop this b a byteCount 0 (Function.update memory this (clear byteCount))

inductive CompoundOperator
  | addAssign
  | subAssign
  | mulAssign
  | divideAssign
deriving DecidableEq

/-- An operator is applied to the numbers at two addresses: how it ends, and all numbers. -/
def CompoundOperator.assign (memory : Numbers byteCount) (this b : Nat) :
    CompoundOperator → Except DivideError Unit × Numbers byteCount
  | .addAssign => (.ok (), BigNumber.addAssign memory this fun memory => memory b)
  | .subAssign => (.ok (), BigNumber.subAssign memory this b)
  | .mulAssign => (.ok (), BigNumber.mulAssign memory this b)
  | .divideAssign =>
      let divided := BigNumber.divideAssign memory this b
      (divided.1.map fun _ => (), divided.2)

/-- With itself as the right operand, a number is assigned what it is assigned with a copy. -/
def AliasSafe (operator : CompoundOperator) (x : BigNumber byteCount) : Prop :=
  ∀ (memory : Numbers byteCount) (this copy : Nat), copy ≠ this → memory this = x →
    memory copy = x →
    (operator.assign memory this this).1 = (operator.assign memory this copy).1 ∧
      (operator.assign memory this this).2 this = (operator.assign memory this copy).2 this

/-! ## Addition -/

theorem set_append_cons (done rest : Bytes) (old byte : UInt8) :
    (done ++ old :: rest).set done.length byte = done ++ byte :: rest := by
  rw [List.set_append_right _ _ le_rfl, Nat.sub_self]
  rfl

/-- A byte that is written does not matter to what is read behind it. -/
def ReadsBehind (this : Nat) (b : Numbers byteCount → BigNumber byteCount) : Prop :=
  ∀ (memory : Numbers byteCount) (i : Nat) (byte : UInt8),
    (b (Function.update memory this ((memory this).setByte i byte))).bytes.drop (i + 1) =
      (b memory).bytes.drop (i + 1)

theorem readsBehind_address (this address : Nat) :
    ReadsBehind this fun memory : Numbers byteCount => memory address := by
  intro memory i byte
  show (Function.update memory this _ address).bytes.drop (i + 1) = _
  by_cases same : address = this
  · rw [same, Function.update_self, setByte, List.drop_set_of_lt (Nat.lt_succ_self i)]
  · rw [Function.update_of_ne same]

theorem getD_of_drop {bytes rest : Bytes} {k : Nat} {byte : UInt8}
    (behind : bytes.drop k = byte :: rest) : bytes.getD k 0 = byte := by
  rw [← Nat.zero_add k, ← getD_drop, behind]
  rfl

/-- What is written of a number is the byte behind what is done. -/
theorem bytes_update_setByte {memory : Numbers byteCount} {this : Nat} {done rest : Bytes}
    {old : UInt8} (left : (memory this).bytes = done ++ old :: rest) (byte : UInt8) :
    (Function.update memory this ((memory this).setByte done.length byte) this).bytes =
      (done ++ [byte]) ++ rest := by
  rw [Function.update_self]
  show (memory this).bytes.set done.length byte = _
  rw [left, set_append_cons, List.append_assoc]
  rfl

/-- The loop adds the bytes that are left of the operands. -/
theorem addAssignLoop_eq {this : Nat} {b : Numbers byteCount → BigNumber byteCount}
    (behind : ReadsBehind this b) (xs : Bytes) {memory : Numbers byteCount} {done ys : Bytes}
    (carry : UInt16) (left : (memory this).bytes = done ++ xs)
    (right : (b memory).bytes.drop done.length = ys) (length : xs.length = ys.length) :
    (addAssignLoop this b xs.length done.length carry memory this).bytes =
      done ++ addLoop carry xs ys := by
  induction xs generalizing memory done ys carry with
  | nil => rw [List.length_nil, addAssignLoop, left]; rfl
  | cons x xs ih =>
      cases ys with
      | nil => exact absurd length (Nat.succ_ne_zero _)
      | cons y ys =>
          have first : (memory this).bytes.getD done.length 0 = x :=
            getD_of_drop (by rw [left, List.drop_left])
          have second : (b memory).bytes.getD done.length 0 = y := getD_of_drop right
          have next : ∀ byte : UInt8,
              (b (Function.update memory this
                ((memory this).setByte done.length byte))).bytes.drop (done ++ [byte]).length =
                  ys := by
            intro byte
            rw [List.length_append, List.length_singleton, behind, ← List.drop_drop, right]
            rfl
          rw [List.length_cons, addAssignLoop, first, second, addLoop]
          generalize carry + x.toUInt16 + y.toUInt16 = n
          have turn := ih (n >>> 8) (bytes_update_setByte left n.toUInt8) (next n.toUInt8)
            (Nat.succ.inj length)
          rw [List.length_append, List.length_singleton] at turn
          exact turn.trans (List.append_assoc ..)

/-- **The sum is the same wherever the right operand is.** -/
theorem addAssign_eq {this : Nat} {b : Numbers byteCount → BigNumber byteCount}
    (behind : ReadsBehind this b) (memory : Numbers byteCount) :
    addAssign memory this b this = (memory this).add (b memory) := by
  have whole := @addAssignLoop_eq _ this b behind (memory this).bytes memory [] _ 0 rfl rfl
    ((memory this).length_bytes.trans (b memory).length_bytes.symm)
  rw [(memory this).length_bytes] at whole
  exact eq_of_bytes whole

theorem subAssign_eq (memory : Numbers byteCount) (this b : Nat) :
    subAssign memory this b this = (memory this).sub (memory b) :=
  addAssign_eq (fun _ _ _ => rfl) memory

/-! ## Multiplication -/

/-- A row adds the product of a digit and a number that is somewhere else. -/
theorem mulAssignRow_eq {this b : Nat} (apart : b ≠ this) (digit : UInt8) (j : Nat) (xs : Bytes)
    {memory : Numbers byteCount} {done ys : Bytes} {i : Nat} (carry : UInt16)
    (left : (memory this).bytes = done ++ xs) (place : i + j = done.length)
    (right : (memory b).bytes.drop i = ys) (length : xs.length ≤ ys.length) :
    (mulAssignRow this b digit j xs.length i carry memory this).bytes =
        done ++ mulRow digit carry xs ys ∧
      mulAssignRow this b digit j xs.length i carry memory b = memory b := by
  induction xs generalizing memory done ys i carry with
  | nil => rw [List.length_nil, mulAssignRow, left]; exact ⟨rfl, rfl⟩
  | cons x xs ih =>
      cases ys with
      | nil => exact absurd length (Nat.not_succ_le_zero _)
      | cons y ys =>
          have first : (memory this).bytes.getD done.length 0 = x :=
            getD_of_drop (by rw [left, List.drop_left])
          have second : (memory b).bytes.getD i 0 = y := getD_of_drop right
          have next : ∀ byte : UInt8,
              (Function.update memory this ((memory this).setByte done.length byte) b).bytes.drop
                (i + 1) = ys := by
            intro byte
            rw [Function.update_of_ne apart, ← List.drop_drop, right]
            rfl
          rw [List.length_cons, mulAssignRow, place, first, second, mulRow]
          generalize carry + x.toUInt16 + digit.toUInt16 * y.toUInt16 = n
          obtain ⟨product, kept⟩ := ih (n >>> 8) (bytes_update_setByte left n.toUInt8)
            (by rw [List.length_append, List.length_singleton]; omega) (next n.toUInt8)
            (Nat.le_of_succ_le_succ length)
          exact ⟨product.trans (List.append_assoc ..),
            kept.trans (Function.update_of_ne apart _ _)⟩

/-- The rows add up to the product with a number that is somewhere else. -/
theorem mulAssignLoop_eq {this b : Nat} (apart : b ≠ this) (a : BigNumber byteCount)
    (digits : Bytes) {memory : Numbers byteCount} {j : Nat} (left : a.bytes.drop j = digits) :
    (mulAssignLoop this b a digits.length j memory this).bytes =
      mulLoop (memory b).bytes j digits (memory this).bytes := by
  induction digits generalizing memory j with
  | nil => rfl
  | cons digit digits ih =>
      have first : a.bytes.getD j 0 = digit := getD_of_drop left
      have next : a.bytes.drop (j + 1) = digits := by
        rw [← List.drop_drop, left]
        rfl
      have inside : j < byteCount := by
        have size := congrArg List.length left
        rw [List.length_drop, a.length_bytes, List.length_cons] at size
        omega
      have turns : ((memory this).bytes.drop j).length = byteCount - j := by
        rw [List.length_drop, (memory this).length_bytes]
      have place : 0 + j = ((memory this).bytes.take j).length := by
        rw [List.length_take, (memory this).length_bytes]
        omega
      obtain ⟨row, kept⟩ := mulAssignRow_eq apart digit j ((memory this).bytes.drop j) 0
        (List.take_append_drop ..).symm place rfl
        (by rw [turns, List.drop_zero, (memory b).length_bytes]; exact Nat.sub_le ..)
      rw [turns] at row kept
      rw [List.length_cons, mulAssignLoop, first, ih next, row, kept]
      rfl

/-- The product with a number that is somewhere else, as with a copy, -/
theorem mulAssign_eq {this b : Nat} (apart : b ≠ this) (memory : Numbers byteCount) :
    mulAssign memory this b this = (memory this).mul (memory b) := by
  have whole := @mulAssignLoop_eq _ this b apart (memory this) (memory this).bytes
    (Function.update memory this (clear byteCount)) 0 rfl
  rw [(memory this).length_bytes, Function.update_self, Function.update_of_ne apart] at whole
  exact eq_of_bytes whole

theorem setByte_clear (byteCount i : Nat) : (clear byteCount).setByte i 0 = clear byteCount :=
  eq_of_bytes List.set_replicate_self

/-- A row of zeros stays so when it is what is multiplied. -/
theorem mulAssignRow_itself (digit : UInt8) (j turns : Nat) {this i : Nat}
    {memory : Numbers byteCount} (zero : memory this = clear byteCount) :
    mulAssignRow this this digit j turns i 0 memory this = clear byteCount := by
  induction turns generalizing i memory with
  | zero => exact zero
  | succ turns ih =>
      have nothing : (0 : UInt16) + (0 : UInt8).toUInt16 + digit.toUInt16 * (0 : UInt8).toUInt16 =
          0 := by
        simp
      rw [mulAssignRow, zero, getD_clear, getD_clear, nothing]
      apply ih
      rw [Function.update_self]
      exact setByte_clear byteCount (i + j)

theorem mulAssignLoop_itself (a : BigNumber byteCount) (turns : Nat) {this j : Nat}
    {memory : Numbers byteCount} (zero : memory this = clear byteCount) :
    mulAssignLoop this this a turns j memory this = clear byteCount := by
  induction turns generalizing j memory with
  | zero => exact zero
  | succ turns ih => exact ih (mulAssignRow_itself _ j _ zero)

/-- **and with the number itself, which is cleared by then.** -/
theorem mulAssign_itself (memory : Numbers byteCount) (this : Nat) :
    mulAssign memory this this this = clear byteCount :=
  mulAssignLoop_itself _ _ (Function.update_self ..)

/-! ## Aliases -/

/-- The square of a number is zero when the number ends with half of its bits zero. -/
theorem mul_self_eq_clear_iff (x : BigNumber byteCount) :
    x.mul x = clear byteCount ↔ 2 ^ (4 * byteCount) ∣ x.value := by
  have square : x.mul x = clear byteCount ↔ (x.mul x).value = 0 := by
    constructor
    · intro same
      rw [same, value_clear]
    · intro zero
      exact eq_of_value (zero.trans value_clear.symm)
  have power : 256 ^ byteCount = (2 ^ (4 * byteCount)) ^ 2 := by
    rw [← pow_mul, pow_256]
    congr 1
    omega
  rw [square, value_mul, power, ← Nat.dvd_iff_mod_eq_zero, ← pow_two,
    Nat.pow_dvd_pow_iff (by decide)]

/-- **All operators but `*=` give the same with the number itself as with a copy, and `*=` does
when the lower half of the number is zero.** -/
theorem aliasSafe_iff (operator : CompoundOperator) (x : BigNumber byteCount) :
    AliasSafe operator x ↔ (operator = .mulAssign → 2 ^ (4 * byteCount) ∣ x.value) := by
  cases operator with
  | addAssign =>
      refine iff_of_true ?_ nofun
      intro memory this copy _ isX isCopy
      refine ⟨rfl, ?_⟩
      show addAssign memory this _ this = addAssign memory this _ this
      rw [addAssign_eq (readsBehind_address this this), addAssign_eq (readsBehind_address this copy),
        isX, isCopy]
  | subAssign =>
      refine iff_of_true ?_ nofun
      intro memory this copy _ isX isCopy
      refine ⟨rfl, ?_⟩
      show subAssign memory this this this = subAssign memory this copy this
      rw [subAssign_eq, subAssign_eq, isX, isCopy]
  | mulAssign =>
      constructor
      · intro safe _
        have same := (safe (fun _ => x) 0 1 Nat.one_ne_zero rfl rfl).2
        have zero : clear byteCount = x.mul x :=
          (mulAssign_itself (fun _ => x) 0).symm.trans
            (same.trans (mulAssign_eq Nat.one_ne_zero fun _ => x))
        exact (mul_self_eq_clear_iff x).mp zero.symm
      · intro divides memory this copy apart isX isCopy
        refine ⟨rfl, ?_⟩
        show mulAssign memory this this this = mulAssign memory this copy this
        rw [mulAssign_itself, mulAssign_eq apart, isX, isCopy]
        exact ((mul_self_eq_clear_iff x).mpr (divides rfl)).symm
  | divideAssign =>
      refine iff_of_true ?_ nofun
      intro memory this copy _ isX isCopy
      have same : divideAssign memory this this = divideAssign memory this copy := by
        rw [divideAssign, divideAssign, isX, isCopy]
      exact ⟨congrArg (fun divided => divided.1.map fun _ => ()) same,
        congrArg (fun divided => divided.2 this) same⟩

/-- Three times three. -/
theorem three_not_aliasSafe : ¬ AliasSafe .mulAssign (⟨[3], rfl⟩ : BigNumber 1) := by
  intro safe
  have same := (safe (fun _ => ⟨[3], rfl⟩) 0 1 Nat.one_ne_zero rfl rfl).2
  have bytes := congrArg BigNumber.bytes same
  exact absurd bytes (by decide +kernel)

end BigNumber

end Xul
