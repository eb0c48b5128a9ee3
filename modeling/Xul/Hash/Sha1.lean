import Xul.Data.ByteOrder
import Xul.Foundation.Sha1

/-!
# SHA-1, one block

`SHA1Transform` hashes a block of 64 bytes.  It works in the sixteen words of a copy of the block:
the first rounds bring them from the order of the host to that of the standard, the later ones
write each word of the schedule over the one it no longer needs.  The five variables are not moved
from round to round; the calls of the rounds, unrolled, name them in other places.  On a host of
either order that is the compression of the standard (`transform_eq_compress`).
-/

set_option autoImplicit false

namespace Xul

open Foundation Foundation.Sha1

namespace Sha1

/-! ## The macros -/

def rol (value bits : UInt32) : UInt32 := value <<< bits ||| value >>> (32 - bits)

/-- `CHAR64LONG16`: sixteen words. -/
abbrev Block := List UInt32

/-- Each way to read a word of the block answers it and leaves it in the block. -/
abbrev BlkFun := Block → Nat → UInt32 × Block

def littleEndianBlk0 : BlkFun := fun block i =>
  let l := block.getD i 0
  let word := (rol l 24 &&& 0xFF00FF00) ||| (rol l 8 &&& 0x00FF00FF)
  (word, block.set i word)

def bigEndianBlk0 : BlkFun := fun block i => (block.getD i 0, block)

def blk : BlkFun := fun block i =>
  let word := rol (block.getD ((i + 13) % 16) 0 ^^^ block.getD ((i + 8) % 16) 0 ^^^
    block.getD ((i + 2) % 16) 0 ^^^ block.getD (i % 16) 0) 1
  (word, block.set (i % 16) word)

/-- `R0` to `R4` differ in a function and in a constant.  They change `z` and `w`. -/
def r (f : UInt32 → UInt32 → UInt32 → UInt32) (k word v w x y z : UInt32) : UInt32 × UInt32 :=
  (z + (f w x y + word + k + rol v 5), rol w 30)

def r0 := r (fun w x y => (w &&& (x ^^^ y)) ^^^ y) 0x5A827999

def r1 := r (fun w x y => (w &&& (x ^^^ y)) ^^^ y) 0x5A827999

def r2 := r (fun w x y => w ^^^ x ^^^ y) 0x6ED9EBA1

def r3 := r (fun w x y => ((w ||| x) &&& y) ||| (w &&& x)) 0x8F1BBCDC

def r4 := r (fun w x y => w ^^^ x ^^^ y) 0xCA62C1D6

/-! ## The transformation -/

/-- The parts the five variables play in the unrolled calls come back after every fifth. -/
def call (i : Nat) (round : UInt32 → UInt32 → UInt32 → UInt32 → UInt32 → UInt32 × UInt32)
    (v : Chain) : Chain :=
  match i % 5 with
  | 0 => { v with e := (round v.a v.b v.c v.d v.e).1, b := (round v.a v.b v.c v.d v.e).2 }
  | 1 => { v with d := (round v.e v.a v.b v.c v.d).1, a := (round v.e v.a v.b v.c v.d).2 }
  | 2 => { v with c := (round v.d v.e v.a v.b v.c).1, e := (round v.d v.e v.a v.b v.c).2 }
  | 3 => { v with b := (round v.c v.d v.e v.a v.b).1, d := (round v.c v.d v.e v.a v.b).2 }
  | _ => { v with a := (round v.b v.c v.d v.e v.a).1, c := (round v.b v.c v.d v.e v.a).2 }

def turn (blkFun : BlkFun) (block : Block) (v : Chain) (i : Nat) : Block × Chain :=
  if i < 16 then
    let (word, block) := blkFun block i
    (block, call i (r0 word) v)
  else
    let (word, block) := blk block i
    if i < 20 then (block, call i (r1 word) v)
    else if i < 40 then (block, call i (r2 word) v)
    else if i < 60 then (block, call i (r3 word) v)
    else (block, call i (r4 word) v)

/-- The first calls. -/
def turns (blkFun : BlkFun) (block : Block) (v : Chain) : Nat → Block × Chain
  | 0 => (block, v)
  | i + 1 =>
      let (block, v) := turns blkFun block v i
      turn blkFun block v i

/-- What the host reads as a word. -/
def hostWord (host : ByteOrder) (bytes : Bytes) : UInt32 :=
  if host.bigEndian then wordOf bytes else UInt32.ofNat (littleEndian bytes)

/-- The copy of a buffer, as words. -/
def workspace (host : ByteOrder) (buffer : Bytes) : Block :=
  (List.range 16).map fun i => hostWord host ((buffer.drop (4 * i)).take 4)

/-- `SHA1Transform`. -/
def transform (host : ByteOrder) (blkFun : BlkFun) (state : Chain) (buffer : Bytes) : Chain :=
  state.add (turns blkFun (workspace host buffer) state 80).2

/-- The first byte that a host stores of the number one. -/
def isBigEndian (host : ByteOrder) : Bool :=
  (if host.bigEndian then (bytesOf 4 1).reverse else bytesOf 4 1).headD 0 == 0

def blkFunOf (host : ByteOrder) : BlkFun :=
  if isBigEndian host then bigEndianBlk0 else littleEndianBlk0

/-! ## The words of the schedule -/

theorem rol_eq_rotl (value bits : UInt32) : rol value bits = rotl bits value := rfl

/-- The two masks take every byte to its mirrored place. -/
theorem rol_masks_eq_reverseDword (l : UInt32) :
    (rol l 24 &&& 0xFF00FF00) ||| (rol l 8 &&& 0x00FF00FF) = ByteOrder.reverseDword l := by
  apply eq_of_bits
  intro i
  by_cases inside : i < 32
  · interval_cases i <;> simp [rol, ByteOrder.reverseDword]
  · rw [BitVec.getLsbD_of_ge _ _ (not_lt.mp inside), BitVec.getLsbD_of_ge _ _ (not_lt.mp inside)]

theorem blkFunOf_eq (host : ByteOrder) :
    blkFunOf host = if host.bigEndian then bigEndianBlk0 else littleEndianBlk0 := by
  obtain ⟨bigEndian⟩ := host
  cases bigEndian with
  | true => rfl
  | false => rfl

/-- The number of a word with its bytes the other way round. -/
theorem reverseDword_littleEndian {bytes : Bytes} (length : bytes.length = 4) :
    ByteOrder.reverseDword (UInt32.ofNat (littleEndian bytes)) = wordOf bytes := by
  have small := littleEndian_lt bytes
  rw [length] at small
  have number : (UInt32.ofNat (littleEndian bytes)).toNat = littleEndian bytes :=
    UInt32.toNat_ofNat_of_lt' small
  have memory := ByteOrder.bytesOf_reverseDword (UInt32.ofNat (littleEndian bytes))
  have whole := bytesOf_littleEndian bytes
  rw [length] at whole
  rw [number, whole] at memory
  have back := congrArg littleEndian memory
  rw [littleEndian_bytesOf_of_lt (UInt32.toNat_lt _)] at back
  rw [wordOf, ← back, UInt32.ofNat_toNat]

/-- What is in the block before the call with a number: words of the schedule where the calls have
been, and the words of the buffer elsewhere. -/
structure Expanded (host : ByteOrder) (buffer : Bytes) (i : Nat) (block : Block) : Prop where
  length : block.length = 16
  computed : ∀ t, t < i → i ≤ t + 16 → block.getD (t % 16) 0 = schedule buffer t
  unread : ∀ t, i ≤ t → t < 16 → block.getD t 0 = (workspace host buffer).getD t 0

variable {host : ByteOrder} {buffer : Bytes} {block : Block} {i : Nat}

theorem length_workspace : (workspace host buffer).length = 16 := by
  rw [workspace, List.length_map, List.length_range]

theorem workspace_getD {t : Nat} (inside : t < 16) :
    (workspace host buffer).getD t 0 = hostWord host ((buffer.drop (4 * t)).take 4) := by
  have bound : t < (workspace host buffer).length := by rwa [length_workspace]
  rw [List.getD_eq_getElem _ _ bound]
  simp only [workspace, List.getElem_map, List.getElem_range]

theorem expanded_workspace : Expanded host buffer 0 (workspace host buffer) where
  length := length_workspace
  computed t before _ := absurd before (Nat.not_lt_zero t)
  unread _ _ _ := rfl

/-- The word of a call goes where the schedule has just been read for the last time. -/
theorem Expanded.set (expanded : Expanded host buffer i block) :
    Expanded host buffer (i + 1) (block.set (i % 16) (schedule buffer i)) where
  length := by rw [List.length_set, expanded.length]
  computed := by
    intro t before near
    have inside : i % 16 < block.length := by
      rw [expanded.length]
      exact Nat.mod_lt _ (by decide)
    rcases Nat.lt_succ_iff_lt_or_eq.mp before with earlier | rfl
    · have other : i % 16 ≠ t % 16 := by omega
      rw [List.getD_eq_getElem?_getD, List.getElem?_set_ne other, ← List.getD_eq_getElem?_getD]
      exact expanded.computed t earlier (by omega)
    · rw [List.getD_eq_getElem?_getD, List.getElem?_set_self inside, Option.getD_some]
  unread := by
    intro t after inside
    have other : i % 16 ≠ t := by omega
    rw [List.getD_eq_getElem?_getD, List.getElem?_set_ne other, ← List.getD_eq_getElem?_getD]
    exact expanded.unread t (by omega) inside

/-- On either host the first calls answer the words of the block. -/
theorem blkFunOf_apply (expanded : Expanded host buffer i block) (whole : buffer.length = 64)
    (first : i < 16) :
    blkFunOf host block i = (schedule buffer i, block.set (i % 16) (schedule buffer i)) := by
  have inside : i < block.length := by rwa [expanded.length]
  have four : ((buffer.drop (4 * i)).take 4).length = 4 := by
    rw [List.length_take, List.length_drop]
    omega
  have word := expanded.unread i (Nat.le_refl i) first
  rw [workspace_getD first, hostWord] at word
  rw [blkFunOf_eq, schedule_of_lt first, blockWord, Nat.mod_eq_of_lt first]
  cases order : host.bigEndian with
  | true =>
      rw [order, if_pos rfl] at word
      rw [if_pos rfl, bigEndianBlk0, word, ← word, List.getD_eq_getElem _ _ inside,
        List.set_getElem_self]
  | false =>
      rw [order, if_neg Bool.false_ne_true] at word
      rw [if_neg Bool.false_ne_true]
      simp only [littleEndianBlk0]
      rw [rol_masks_eq_reverseDword, word, reverseDword_littleEndian four]

/-- The later calls compute the recurrence of the schedule. -/
theorem blk_apply (expanded : Expanded host buffer i block) (later : 16 ≤ i) :
    blk block i = (schedule buffer i, block.set (i % 16) (schedule buffer i)) := by
  have third : (i + 13) % 16 = (i - 3) % 16 := by omega
  have eighth : (i + 8) % 16 = (i - 8) % 16 := by omega
  have fourteenth : (i + 2) % 16 = (i - 14) % 16 := by omega
  have oldest : i % 16 = (i - 16) % 16 := by omega
  have word : rol (block.getD ((i + 13) % 16) 0 ^^^ block.getD ((i + 8) % 16) 0 ^^^
      block.getD ((i + 2) % 16) 0 ^^^ block.getD (i % 16) 0) 1 = schedule buffer i := by
    rw [schedule_of_le later, rol_eq_rotl, third, eighth, fourteenth, oldest,
      expanded.computed (i - 3) (by omega) (by omega),
      expanded.computed (i - 8) (by omega) (by omega),
      expanded.computed (i - 14) (by omega) (by omega),
      expanded.computed (i - 16) (by omega) (by omega)]
  simp only [blk, word]

/-! ## The rounds -/

/-- The five variables in the places they have for the call with a number. -/
def view (i : Nat) (v : Chain) : Chain :=
  match i % 5 with
  | 0 => v
  | 1 => ⟨v.e, v.a, v.b, v.c, v.d⟩
  | 2 => ⟨v.d, v.e, v.a, v.b, v.c⟩
  | 3 => ⟨v.c, v.d, v.e, v.a, v.b⟩
  | _ => ⟨v.b, v.c, v.d, v.e, v.a⟩

/-- After a call the variables are in their places for the next one. -/
theorem view_call (round : UInt32 → UInt32 → UInt32 → UInt32 → UInt32 → UInt32 × UInt32)
    (v : Chain) :
    view (i + 1) (call i round v) =
      ⟨(round (view i v).a (view i v).b (view i v).c (view i v).d (view i v).e).1, (view i v).a,
        (round (view i v).a (view i v).b (view i v).c (view i v).d (view i v).e).2, (view i v).c,
        (view i v).d⟩ := by
  have cases : i % 5 = 0 ∧ (i + 1) % 5 = 1 ∨ i % 5 = 1 ∧ (i + 1) % 5 = 2 ∨
      i % 5 = 2 ∧ (i + 1) % 5 = 3 ∨ i % 5 = 3 ∧ (i + 1) % 5 = 4 ∨
      i % 5 = 4 ∧ (i + 1) % 5 = 0 := by omega
  rcases cases with ⟨now, next⟩ | ⟨now, next⟩ | ⟨now, next⟩ | ⟨now, next⟩ | ⟨now, next⟩ <;>
    simp only [view, call, now, next]

/-- A call with the function and the constant of its number is a round of the standard. -/
theorem view_call_r (word : UInt32) (v : Chain) :
    view (i + 1) (call i (r (mix i) (constant i) word) v) =
      Foundation.Sha1.round word i (view i v) := by
  have sum (w x z : UInt32) : z + (w + word + constant i + x) = x + w + z + constant i + word := by
    ac_rfl
  rw [view_call, Foundation.Sha1.round, r, sum]
  rfl

theorem r0_eq : r0 = r choose 0x5A827999 := by
  have same : (fun w x y : UInt32 => (w &&& (x ^^^ y)) ^^^ y) = choose := by
    funext w x y
    exact choose_eq w x y
  rw [r0, same]

theorem r3_eq : r3 = r majority 0x8F1BBCDC := by
  have same : (fun w x y : UInt32 => ((w ||| x) &&& y) ||| (w &&& x)) = majority := by
    funext w x y
    exact majority_eq w x y
  rw [r3, same]

theorem turn_eq (expanded : Expanded host buffer i block) (whole : buffer.length = 64)
    (v : Chain) :
    turn (blkFunOf host) block v i =
      (block.set (i % 16) (schedule buffer i),
        call i (r (mix i) (constant i) (schedule buffer i)) v) := by
  rw [turn, mix, constant]
  by_cases first : i < 16
  · have early : i < 20 := by omega
    rw [if_pos first, blkFunOf_apply expanded whole first, if_pos early, if_pos early, r0_eq]
  · rw [if_neg first, blk_apply expanded (not_lt.mp first)]
    by_cases early : i < 20
    · simp only [if_pos early]
      rw [← r0_eq]
      rfl
    · by_cases second : i < 40
      · simp only [if_neg early, if_pos second]
        rfl
      · by_cases third : i < 60
        · simp only [if_neg early, if_neg second, if_pos third]
          rw [r3_eq]
        · simp only [if_neg early, if_neg second, if_neg third]
          rfl

/-- **The first calls make the rounds of the standard**, and the block its schedule. -/
theorem turns_eq (host : ByteOrder) (whole : buffer.length = 64) (state : Chain) (i : Nat) :
    Expanded host buffer i (turns (blkFunOf host) (workspace host buffer) state i).1 ∧
      view i (turns (blkFunOf host) (workspace host buffer) state i).2 = rounds buffer state i := by
  induction i with
  | zero => exact ⟨expanded_workspace, rfl⟩
  | succ i ih =>
      rw [turns]
      generalize turns (blkFunOf host) (workspace host buffer) state i = before at ih ⊢
      obtain ⟨block, v⟩ := before
      obtain ⟨expanded, same⟩ := ih
      refine ⟨?_, ?_⟩
      · show Expanded host buffer (i + 1) (turn (blkFunOf host) block v i).1
        rw [turn_eq expanded whole]
        exact expanded.set
      · show view (i + 1) (turn (blkFunOf host) block v i).2 = _
        rw [turn_eq expanded whole, view_call_r, same, rounds]

/-- **A block on a host of either order**: the transformation is the compression of the standard. -/
theorem transform_eq_compress (host : ByteOrder) (whole : buffer.length = 64) (state : Chain) :
    transform host (blkFunOf host) state buffer = compress state buffer := by
  have last := (turns_eq host whole state 80).2
  rw [compress, ← last]
  rfl

end Sha1

end Xul
