import Xul.Foundation.BlockStream
import Xul.Foundation.LittleEndian

/-!
# The Secure Hash Algorithm with 160 bits

The standard's own description.  A block of 64 bytes is expanded to a schedule of eighty words, and
the rounds mix them into a chain of five words.  A message is padded to whole blocks with one bit,
with zeros and with its length.
-/

set_option autoImplicit false

namespace Foundation.Sha1

def rotl (bits word : UInt32) : UInt32 := word <<< bits ||| word >>> (32 - bits)

/-- The five words that are chained from block to block. -/
structure Chain where
  a : UInt32
  b : UInt32
  c : UInt32
  d : UInt32
  e : UInt32
deriving DecidableEq

/-- A word is read with its most significant byte first. -/
def wordOf (bytes : List UInt8) : UInt32 := UInt32.ofNat (littleEndian bytes.reverse)

def bytesOfWord (word : UInt32) : List UInt8 := (bytesOf 4 word.toNat).reverse

/-- The sixteen words of a block. -/
def blockWord (block : List UInt8) (t : Nat) : UInt32 := wordOf ((block.drop (4 * t)).take 4)

/-- The words of the rounds. -/
def schedule (block : List UInt8) (t : Nat) : UInt32 :=
  if t < 16 then blockWord block t
  else
    rotl 1 (schedule block (t - 3) ^^^ schedule block (t - 8) ^^^ schedule block (t - 14) ^^^
      schedule block (t - 16))
termination_by t

def choose (x y z : UInt32) : UInt32 := (x &&& y) ^^^ (~~~x &&& z)

def parity (x y z : UInt32) : UInt32 := x ^^^ y ^^^ z

def majority (x y z : UInt32) : UInt32 := (x &&& y) ^^^ (x &&& z) ^^^ (y &&& z)

def mix (t : Nat) : UInt32 → UInt32 → UInt32 → UInt32 :=
  if t < 20 then choose else if t < 40 then parity else if t < 60 then majority else parity

def constant (t : Nat) : UInt32 :=
  if t < 20 then 0x5A827999 else if t < 40 then 0x6ED9EBA1 else if t < 60 then 0x8F1BBCDC
  else 0xCA62C1D6

def round (word : UInt32) (t : Nat) (v : Chain) : Chain where
  a := rotl 5 v.a + mix t v.b v.c v.d + v.e + constant t + word
  b := v.a
  c := rotl 30 v.b
  d := v.c
  e := v.d

/-- What the first rounds make of a chain. -/
def rounds (block : List UInt8) (v : Chain) : Nat → Chain
  | 0 => v
  | t + 1 => round (schedule block t) t (rounds block v t)

namespace Chain

def add (v w : Chain) : Chain := ⟨v.a + w.a, v.b + w.b, v.c + w.c, v.d + w.d, v.e + w.e⟩

def words (v : Chain) : List UInt32 := [v.a, v.b, v.c, v.d, v.e]

end Chain

def compress (v : Chain) (block : List UInt8) : Chain := v.add (rounds block v 80)

def initial : Chain := ⟨0x67452301, 0xEFCDAB89, 0x98BADCFE, 0x10325476, 0xC3D2E1F0⟩

/-- What follows a message of a length: the length itself, in bits, ends the last block. -/
def padding (length : Nat) : List UInt8 :=
  0x80 :: (List.replicate ((119 - length % 64) % 64) 0 ++ (bytesOf 8 (8 * length)).reverse)

/-- The digest of a message. -/
def sha1 (message : List UInt8) : List UInt8 :=
  (foldBlocks 64 compress initial (message ++ padding message.length)).1.words.flatMap bytesOfWord

theorem length_padding (length : Nat) :
    (padding length).length = 9 + (119 - length % 64) % 64 := by
  simp only [padding, List.length_cons, List.length_append, List.length_replicate,
    List.length_reverse, length_bytesOf]
  omega

/-- A padded message is made of whole blocks. -/
theorem length_append_padding_mod (message : List UInt8) :
    (message ++ padding message.length).length % 64 = 0 := by
  rw [List.length_append, length_padding]
  omega

theorem schedule_of_lt {block : List UInt8} {t : Nat} (first : t < 16) :
    schedule block t = blockWord block t := by
  rw [schedule, if_pos first]

theorem schedule_of_le {block : List UInt8} {t : Nat} (later : 16 ≤ t) :
    schedule block t =
      rotl 1 (schedule block (t - 3) ^^^ schedule block (t - 8) ^^^ schedule block (t - 14) ^^^
        schedule block (t - 16)) := by
  rw [schedule, if_neg (not_lt.mpr later)]

/-! ## The functions of the rounds in other words -/

/-- A bitwise function is told by what it does to one bit. -/
theorem eq_of_bits {x y : UInt32}
    (bits : ∀ i, x.toBitVec.getLsbD i = y.toBitVec.getLsbD i) : x = y := by
  apply UInt32.eq_of_toBitVec_eq
  exact BitVec.eq_of_getLsbD_eq fun i _ => bits i

/-- `choose` with three operations. -/
theorem choose_eq (x y z : UInt32) : (x &&& (y ^^^ z)) ^^^ z = choose x y z := by
  apply eq_of_bits
  intro i
  by_cases inside : i < 32
  · simp only [choose, UInt32.toBitVec_xor, UInt32.toBitVec_and, UInt32.toBitVec_not,
      BitVec.getLsbD_xor, BitVec.getLsbD_and, BitVec.getLsbD_not, inside, decide_true,
      Bool.true_and]
    cases x.toBitVec.getLsbD i <;> cases y.toBitVec.getLsbD i <;> cases z.toBitVec.getLsbD i <;> rfl
  · rw [BitVec.getLsbD_of_ge _ _ (not_lt.mp inside), BitVec.getLsbD_of_ge _ _ (not_lt.mp inside)]

/-- `majority` with four operations. -/
theorem majority_eq (x y z : UInt32) : ((x ||| y) &&& z) ||| (x &&& y) = majority x y z := by
  apply eq_of_bits
  intro i
  simp only [majority, UInt32.toBitVec_xor, UInt32.toBitVec_and, UInt32.toBitVec_or,
    BitVec.getLsbD_xor, BitVec.getLsbD_and, BitVec.getLsbD_or]
  cases x.toBitVec.getLsbD i <;> cases y.toBitVec.getLsbD i <;> cases z.toBitVec.getLsbD i <;> rfl

end Foundation.Sha1
