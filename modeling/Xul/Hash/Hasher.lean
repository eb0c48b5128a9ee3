import Xul.Hash.Sha1
import Xul.Std.Bytes

/-!
# SHA-1, the context and the hasher

A context takes in data of any length.  It hashes whole blocks, keeps what is left in a buffer of 64
bytes and counts the bits in two words.  `SHA1_Final` pads by updates of its own.  Whatever a hasher
was told in whichever pieces, its digests are those of the standard (`hasher_digests`), and no copy
leaves the buffer or the data.
-/

set_option autoImplicit false

namespace Xul

open Foundation Foundation.Sha1

namespace Sha1

/-- `SHA_CTX`, with the two words of `count`. -/
structure ShaCtx where
  state : Chain
  count0 : Nat
  count1 : Nat
  buffer : Bytes
deriving DecidableEq

/-- `memcpy` into a buffer, from an offset on; there is none past its end. -/
def copyTo (buffer : Bytes) (offset : Nat) (bytes : Bytes) : Option Bytes :=
  if offset + bytes.length ≤ buffer.length then
    some (buffer.take offset ++ bytes ++ buffer.drop (offset + bytes.length))
  else none

/-- The bytes of the data from an index on, if they are there. -/
def readAt (data : Bytes) (i size : Nat) : Option Bytes :=
  if i + size ≤ data.length then some ((data.drop i).take size) else none

/-- The loop over the whole blocks of the data. -/
def blocksLoop (host : ByteOrder) (data : Bytes) : Nat → Chain → Nat → Option (Chain × Nat)
  | 0, _, _ => none
  | turns + 1, state, i =>
      if (i + 63) % 2 ^ 32 < data.length then
        (readAt data i 64).bind fun block =>
          blocksLoop host data turns (transform host (blkFunOf host) state block)
            ((i + 64) % 2 ^ 32)
      else some (state, i)

def internalUpdate (host : ByteOrder) (context : ShaCtx) (data : Bytes) : Option ShaCtx :=
  let len := data.length
  let j := context.count0 / 8 % 64
  let count0 := (context.count0 + len * 8 % 2 ^ 32) % 2 ^ 32
  let carry := if count0 < len * 8 % 2 ^ 32 then 1 else 0
  let count1 := (context.count1 + carry + len / 2 ^ 29) % 2 ^ 32
  if 63 < (j + len) % 2 ^ 32 then
    (readAt data 0 (64 - j)).bind fun first =>
      (copyTo context.buffer j first).bind fun buffer =>
        (blocksLoop host data (len + 1) (transform host (blkFunOf host) context.state buffer)
            (64 - j)).bind fun (state, i) =>
          (readAt data i ((2 ^ 32 + len - i) % 2 ^ 32)).bind fun rest =>
            (copyTo buffer 0 rest).map fun buffer => ⟨state, count0, count1, buffer⟩
  else
    (readAt data 0 len).bind fun rest =>
      (copyTo context.buffer j rest).map fun buffer => ⟨context.state, count0, count1, buffer⟩

/-- `SHA1_Init`.  The buffer stays as it was. -/
def init (context : ShaCtx) : ShaCtx := ⟨initial, 0, 0, context.buffer⟩

/-- `SHA1_Update`. -/
def update (host : ByteOrder) (context : ShaCtx) (data : Bytes) : Option ShaCtx :=
  internalUpdate host context data

def finalcount (context : ShaCtx) : Bytes :=
  (List.range 8).map fun i =>
    UInt8.ofNat ((if 4 ≤ i then context.count0 else context.count1) >>> ((3 - i % 4) * 8))

def digest (state : Chain) : Bytes :=
  (List.range 20).map fun i =>
    UInt8.ofNat ((state.words.getD (i / 4) 0).toNat >>> ((3 - i % 4) * 8))

/-- The zeros up to the length, one by one. -/
def zerosLoop (host : ByteOrder) : Nat → ShaCtx → Option ShaCtx
  | 0, _ => none
  | turns + 1, context =>
      if context.count0 &&& 504 ≠ 448 then (update host context [0]).bind (zerosLoop host turns)
      else some context

/-- `SHA1_Final`. -/
def final (host : ByteOrder) (context : ShaCtx) : Option (Bytes × ShaCtx) :=
  (update host context [0x80]).bind fun marked =>
    (zerosLoop host 64 marked).bind fun filled =>
      (update host filled (finalcount context)).map fun last => (digest last.state, last)

/-! ## What a context stands for -/

/-- The context has taken in a message. -/
structure Represents (context : ShaCtx) (message : Bytes) : Prop where
  state : context.state = (foldBlocks 64 compress initial message).1
  pending : context.buffer.take (message.length % 64) = (foldBlocks 64 compress initial message).2
  size : context.buffer.length = 64
  low : context.count0 < 2 ^ 32
  count : context.count0 + 2 ^ 32 * context.count1 = 8 * message.length % 2 ^ 64

variable {context : ShaCtx} {message data : Bytes}

theorem represents_init (size : context.buffer.length = 64) : Represents (init context) [] where
  state := rfl
  pending := by
    rw [List.length_nil, Nat.zero_mod, List.take_zero]
    rfl
  size := size
  low := Nat.two_pow_pos 32
  count := rfl

theorem Represents.index (represents : Represents context message) :
    context.count0 / 8 % 64 = message.length % 64 := by
  have low := represents.low
  have count := represents.count
  omega

theorem exists_copyTo {buffer bytes : Bytes} {offset : Nat}
    (inside : offset + bytes.length ≤ buffer.length) :
    ∃ copied, copyTo buffer offset bytes = some copied ∧ copied.length = buffer.length ∧
      copied.take (offset + bytes.length) = buffer.take offset ++ bytes := by
  have front : (buffer.take offset ++ bytes).length = offset + bytes.length := by
    rw [List.length_append, List.length_take]
    omega
  refine ⟨_, if_pos inside, ?_, ?_⟩
  · rw [List.length_append, front, List.length_drop]
    omega
  · rw [← front]
    exact List.take_left

theorem readAt_eq {i size : Nat} (inside : i + size ≤ data.length) :
    readAt data i size = some ((data.drop i).take size) :=
  if_pos inside

/-- The loop hashes the blocks of the data, whichever the host. -/
theorem blocksLoop_eq (host : ByteOrder) (int : data.length < 2 ^ 31) {turns i : Nat}
    (enough : data.length - i < turns) (inside : i ≤ data.length) (state : Chain) :
    ∃ next, blocksLoop host data turns state i = some next ∧ next.2 ≤ data.length ∧
      foldBlocks 64 compress state (data.drop i) = (next.1, data.drop next.2) := by
  induction turns generalizing i state with
  | zero => exact absurd enough (Nat.not_lt_zero _)
  | succ turns ih =>
      have noWrap : (i + 63) % 2 ^ 32 = i + 63 := Nat.mod_eq_of_lt (by omega)
      rw [blocksLoop, noWrap]
      by_cases more : i + 63 < data.length
      · have whole : ((data.drop i).take 64).length = 64 := by
          rw [List.length_take, List.length_drop]
          omega
        have long : 64 ≤ (data.drop i).length := by
          rw [List.length_drop]
          omega
        have next : (i + 64) % 2 ^ 32 = i + 64 := Nat.mod_eq_of_lt (by omega)
        rw [if_pos more, readAt_eq (by omega), Option.bind_some,
          transform_eq_compress host whole, next, foldBlocks_of_le (by decide) long,
          List.drop_drop]
        exact ih (by omega) (by omega) _
      · have short : (data.drop i).length < 64 := by
          rw [List.length_drop]
          omega
        rw [if_neg more, foldBlocks_of_lt short]
        exact ⟨(state, i), rfl, inside, rfl⟩

/-- The two counts after some data. -/
theorem count_update {count0 count1 length : Nat} (len : Nat) (low : count0 < 2 ^ 32)
    (count : count0 + 2 ^ 32 * count1 = 8 * length % 2 ^ 64) :
    (count0 + len * 8 % 2 ^ 32) % 2 ^ 32 +
        2 ^ 32 * ((count1 +
          (if (count0 + len * 8 % 2 ^ 32) % 2 ^ 32 < len * 8 % 2 ^ 32 then 1 else 0) +
          len / 2 ^ 29) % 2 ^ 32) =
      8 * (length + len) % 2 ^ 64 := by
  have carry : (if (count0 + len * 8 % 2 ^ 32) % 2 ^ 32 < len * 8 % 2 ^ 32 then 1 else 0) =
      (count0 + len * 8 % 2 ^ 32) / 2 ^ 32 := by
    split <;> omega
  rw [carry]
  omega

/-- The blocks of a longer message begin with what the buffer holds. -/
theorem Represents.foldBlocks_append (represents : Represents context message) (data : Bytes) :
    foldBlocks 64 compress initial (message ++ data) =
      foldBlocks 64 compress context.state
        (context.buffer.take (message.length % 64) ++ data) := by
  rw [represents.state, represents.pending]
  exact Foundation.foldBlocks_append (by decide) initial message data

theorem Represents.length_take (represents : Represents context message) :
    (context.buffer.take (message.length % 64)).length = message.length % 64 := by
  rw [List.length_take, represents.size]
  omega

/-- Data that fits is put behind what the buffer holds. -/
theorem Represents.update_of_le (represents : Represents context message) (host : ByteOrder)
    (fits : message.length % 64 + data.length ≤ 63) :
    ∃ next, update host context data = some next ∧ Represents next (message ++ data) := by
  have size := represents.size
  have kept := represents.length_take
  have total : (message ++ data).length = message.length + data.length := List.length_append
  have count := count_update data.length represents.low represents.count
  have blocks := represents.foldBlocks_append data
  have noWrap : (message.length % 64 + data.length) % 2 ^ 32 = message.length % 64 + data.length :=
    Nat.mod_eq_of_lt (by omega)
  obtain ⟨last, stored, lastSize, held⟩ :=
    exists_copyTo (by omega : message.length % 64 + data.length ≤ context.buffer.length)
  have short : (context.buffer.take (message.length % 64) ++ data).length < 64 := by
    rw [List.length_append, kept]
    omega
  have place : (message ++ data).length % 64 = message.length % 64 + data.length := by
    rw [total]
    omega
  rw [foldBlocks_of_lt short] at blocks
  rw [Sha1.update, internalUpdate]
  simp only [represents.index, noWrap]
  rw [if_neg (not_lt.mpr fits), readAt_eq (by omega), List.drop_zero, List.take_length,
    Option.bind_some, stored, Option.map_some]
  refine ⟨_, rfl, ?_, ?_, lastSize.trans size, Nat.mod_lt _ (Nat.two_pow_pos 32), ?_⟩
  · rw [blocks]
  · rw [blocks, place, held]
  · rw [total]
    exact count

/-- Data that fills the buffer: it completes a block there, further blocks are hashed where they
are, and the buffer gets what is left. -/
theorem Represents.update_of_lt (represents : Represents context message) (host : ByteOrder)
    (int : data.length < 2 ^ 31) (fills : 63 < message.length % 64 + data.length) :
    ∃ next, update host context data = some next ∧ Represents next (message ++ data) := by
  have size := represents.size
  have kept := represents.length_take
  have total : (message ++ data).length = message.length + data.length := List.length_append
  have count := count_update data.length represents.low represents.count
  have blocks := represents.foldBlocks_append data
  have noWrap : (message.length % 64 + data.length) % 2 ^ 32 = message.length % 64 + data.length :=
    Nat.mod_eq_of_lt (by omega)
  have first : (data.take (64 - message.length % 64)).length = 64 - message.length % 64 := by
    rw [List.length_take]
    omega
  obtain ⟨filled, copied, fullSize, full⟩ :=
    @exists_copyTo context.buffer (data.take (64 - message.length % 64)) (message.length % 64)
      (by omega)
  have whole : filled.length = 64 := fullSize.trans size
  rw [first, Nat.add_sub_cancel' (by omega), List.take_of_length_le (by omega)] at full
  have long : 64 ≤ (context.buffer.take (message.length % 64) ++ data).length := by
    rw [List.length_append, kept]
    omega
  have inside : 64 - message.length % 64 ≤ data.length := by omega
  obtain ⟨⟨state, i⟩, looped, bound, hashed⟩ :=
    blocksLoop_eq host int (by omega : data.length - (64 - message.length % 64) < data.length + 1)
      inside (compress context.state filled)
  have left : (2 ^ 32 + data.length - i) % 2 ^ 32 = data.length - i := by
    simp only at bound
    omega
  rw [foldBlocks_of_le (by decide) long, List.take_append, List.drop_append, kept,
    List.take_of_length_le (by omega), List.drop_of_length_le (by omega), List.nil_append,
    ← full, hashed] at blocks
  have short := @length_snd_foldBlocks _ _ _ compress (by decide : 0 < 64) initial
    (message ++ data)
  rw [blocks] at short
  change (data.drop i).length = _ at short
  obtain ⟨last, stored, lastSize, held⟩ :=
    exists_copyTo (by omega : 0 + (data.drop i).length ≤ filled.length)
  rw [Nat.zero_add, short, List.take_zero, List.nil_append] at held
  rw [Sha1.update, internalUpdate]
  simp only [represents.index, noWrap]
  rw [if_pos fills, readAt_eq (by omega), List.drop_zero, Option.bind_some, copied,
    Option.bind_some, transform_eq_compress host whole, looped, Option.bind_some]
  simp only [left]
  rw [readAt_eq (by omega), Option.bind_some, ← List.length_drop, List.take_length, stored,
    Option.map_some]
  refine ⟨_, rfl, ?_, ?_, lastSize.trans whole, Nat.mod_lt _ (Nat.two_pow_pos 32), ?_⟩
  · rw [blocks]
  · rw [blocks, held]
  · rw [total]
    exact count

/-- **An update takes the data in.** -/
theorem Represents.update (represents : Represents context message) (host : ByteOrder)
    (int : data.length < 2 ^ 31) :
    ∃ next, update host context data = some next ∧ Represents next (message ++ data) := by
  by_cases fits : message.length % 64 + data.length ≤ 63
  · exact represents.update_of_le host fits
  · exact represents.update_of_lt host int (not_le.mp fits)

/-! ## The digest -/

/-- The four bytes of a word, the most significant one first. -/
theorem shiftedBytes_eq (value : Nat) :
    [UInt8.ofNat (value >>> 24), UInt8.ofNat (value >>> 16), UInt8.ofNat (value >>> 8),
      UInt8.ofNat (value >>> 0)] = (bytesOf 4 value).reverse := by
  simp only [bytesOf, Nat.shiftRight_eq_div_pow, Nat.div_div_eq_div_mul, List.reverse_cons,
    List.reverse_nil, List.nil_append, List.cons_append, pow_zero, Nat.div_one]

/-- The bits are counted in eight bytes. -/
theorem Represents.finalcount_eq (represents : Represents context message) :
    finalcount context = (bytesOf 8 (8 * message.length)).reverse := by
  have bytes : bytesOf 8 (8 * message.length) =
      bytesOf 4 context.count0 ++ bytesOf 4 context.count1 := by
    rw [← bytesOf_mod 8, ← bytesOf_add_mul represents.low context.count1]
    exact congrArg (bytesOf 8) represents.count.symm
  rw [bytes, List.reverse_append, ← shiftedBytes_eq, ← shiftedBytes_eq]
  rfl

theorem digest_eq (state : Chain) : digest state = state.words.flatMap bytesOfWord := by
  simp only [Chain.words, List.flatMap_cons, List.flatMap_nil, bytesOfWord, ← shiftedBytes_eq]
  rfl

/-- What the loop of `SHA1_Final` looks at: where the message ends in its block. -/
theorem and_504 (count : Nat) : count &&& 504 = 8 * (count / 8 % 64) := by
  have mask : count &&& 504 = (count >>> 3 &&& 63) <<< 3 := by
    apply Nat.eq_of_testBit_eq
    intro bit
    have number : (504 : Nat) = 63 <<< 3 := rfl
    simp only [number, Nat.testBit_and, Nat.testBit_shiftLeft, Nat.testBit_shiftRight]
    by_cases above : 3 ≤ bit
    · simp [above]
    · simp [above]
  have low : count >>> 3 &&& 63 = count >>> 3 % 64 := Nat.and_two_pow_sub_one_eq_mod _ 6
  rw [mask, low, Nat.shiftLeft_eq, Nat.shiftRight_eq_div_pow, Nat.mul_comm]

/-- The zeros end, eight bytes before the end of a block. -/
theorem Represents.zerosLoop (host : ByteOrder) (zeros : Nat) :
    ∀ {turns : Nat} {context : ShaCtx} {message : Bytes}, Represents context message →
      zeros < turns → (message.length + zeros) % 64 = 56 → zeros < 64 →
      ∃ next, zerosLoop host turns context = some next ∧
        Represents next (message ++ List.replicate zeros 0) := by
  induction zeros with
  | zero =>
      intro turns context message represents enough place _
      obtain ⟨turns, rfl⟩ := Nat.exists_eq_succ_of_ne_zero (Nat.ne_of_gt enough)
      have done : ¬ context.count0 &&& 504 ≠ 448 := by
        rw [and_504, represents.index]
        omega
      rw [Sha1.zerosLoop, if_neg done, List.replicate_zero, List.append_nil]
      exact ⟨context, rfl, represents⟩
  | succ zeros ih =>
      intro turns context message represents enough place few
      obtain ⟨turns, rfl⟩ := Nat.exists_eq_succ_of_ne_zero (Nat.ne_of_gt (by omega : 0 < turns))
      have more : context.count0 &&& 504 ≠ 448 := by
        rw [and_504, represents.index]
        omega
      obtain ⟨next, updated, after⟩ := @Represents.update _ _ [0] represents host (by decide)
      have length : (message ++ [0]).length = message.length + 1 := List.length_append
      rw [Sha1.zerosLoop, if_pos more, updated, Option.bind_some, List.replicate_succ]
      obtain ⟨last, looped, ends⟩ := ih after (by omega : zeros < turns) (by omega) (by omega)
      refine ⟨last, looped, ?_⟩
      rwa [List.append_assoc] at ends

/-- **The digest of a context** is that of its message.  What follows comes behind the padding. -/
theorem Represents.final (represents : Represents context message) (host : ByteOrder) :
    ∃ next, final host context = some (sha1 message, next) ∧
      Represents next (message ++ padding message.length) := by
  obtain ⟨marked, first, one⟩ := @Represents.update _ _ [0x80] represents host (by decide)
  have length : (message ++ [0x80]).length = message.length + 1 := List.length_append
  obtain ⟨filled, looped, zeros⟩ := Represents.zerosLoop host ((119 - message.length % 64) % 64)
    one (by omega : _ < 64) (by omega) (by omega)
  have short : (Sha1.finalcount context).length < 2 ^ 31 := by
    rw [represents.finalcount_eq, List.length_reverse, length_bytesOf]
    decide
  obtain ⟨last, stored, all⟩ := zeros.update host short
  have whole : message ++ [0x80] ++ List.replicate ((119 - message.length % 64) % 64) 0 ++
      Sha1.finalcount context = message ++ padding message.length := by
    rw [represents.finalcount_eq, padding]
    simp only [List.append_assoc, List.cons_append, List.nil_append]
  rw [whole] at all
  refine ⟨last, ?_, all⟩
  rw [Sha1.final, first, Option.bind_some, looped, Option.bind_some, stored, Option.map_some,
    digest_eq, all.state, sha1]

end Sha1

/-! ## The hasher -/

open Sha1

/-- What a program does with a `hasher`. -/
inductive HasherCall where
  | update (data : Bytes)
  | final
  | reset
deriving DecidableEq

/-- A call on the context of a hasher, with the digest that it answers, if it does.  No data is
none to `update`, which asserts that there is some. -/
def hasherStep (host : ByteOrder) (context : ShaCtx) : HasherCall → Option (Option Bytes × ShaCtx)
  | .update data =>
      if data = [] then none else (update host context data).map fun next => (none, next)
  | .final => (final host context).map fun (digest, next) => (some digest, next)
  | .reset => some (none, init context)

/-- The digests that the calls answer, one after the other. -/
def hasherRun (host : ByteOrder) : ShaCtx → List HasherCall → Option (List Bytes)
  | _, [] => some []
  | context, call :: calls =>
      (hasherStep host context call).bind fun (answer, next) =>
        (hasherRun host next calls).map fun others => answer.toList ++ others

/-- A hasher is made on memory that holds anything. -/
def hasher (host : ByteOrder) (memory : ShaCtx) (calls : List HasherCall) : Option (List Bytes) :=
  hasherRun host (init memory) calls

/-- `hasher::hash`. -/
def hasherHash (host : ByteOrder) (memory : ShaCtx) (data : Bytes) : Option (List Bytes) :=
  hasher host memory [.update data, .final]

/-- The message of a hasher after a call. -/
def messageAfter (message : Bytes) : HasherCall → Bytes
  | .update data => message ++ data
  | .final => message ++ padding message.length
  | .reset => []

/-- What the calls should answer: the digest of all that came since the last reset.  A digest puts
its padding into the message. -/
def digests : Bytes → List HasherCall → List Bytes
  | _, [] => []
  | message, call :: calls =>
      (if call = .final then [sha1 message] else []) ++ digests (messageAfter message call) calls

/-- The data has a size that is an `int`, and there is some. -/
def HasherCall.Sized : HasherCall → Prop
  | .update data => data ≠ [] ∧ data.length < 2 ^ 31
  | .final => True
  | .reset => True

theorem hasherStep_eq (host : ByteOrder) {context : ShaCtx} {message : Bytes} {call : HasherCall}
    (represents : Represents context message) (sized : call.Sized) :
    ∃ next, hasherStep host context call =
        some (if call = .final then some (sha1 message) else none, next) ∧
      Represents next (messageAfter message call) := by
  cases call with
  | update data =>
      obtain ⟨next, updated, after⟩ := represents.update host sized.2
      rw [hasherStep, if_neg sized.1, updated]
      exact ⟨next, rfl, after⟩
  | final =>
      obtain ⟨next, answered, after⟩ := represents.final host
      rw [hasherStep, answered]
      exact ⟨next, rfl, after⟩
  | reset => exact ⟨init context, rfl, represents_init represents.size⟩

theorem hasherRun_eq (host : ByteOrder) {calls : List HasherCall}
    (sized : ∀ call ∈ calls, call.Sized) :
    ∀ {context : ShaCtx} {message : Bytes}, Represents context message →
      hasherRun host context calls = some (digests message calls) := by
  induction calls with
  | nil =>
      intro context message _
      rfl
  | cons call calls ih =>
      intro context message represents
      obtain ⟨next, answered, after⟩ :=
        hasherStep_eq host represents (sized call List.mem_cons_self)
      have later := ih (fun other member => sized other (List.mem_cons_of_mem call member)) after
      rw [hasherRun, answered, Option.bind_some]
      simp only [later, Option.map_some, digests]
      split
      · rfl
      · rfl

theorem hasherHash_eq (host : ByteOrder) {memory : ShaCtx} (size : memory.buffer.length = 64)
    {data : Bytes} (nonempty : data ≠ []) (int : data.length < 2 ^ 31) :
    hasherHash host memory data = some [sha1 data] := by
  have sized : ∀ call ∈ [HasherCall.update data, .final], call.Sized := by
    intro call member
    rcases List.mem_pair.mp member with rfl | rfl
    · exact ⟨nonempty, int⟩
    · exact trivial
  have told : digests [] [.update data, .final] = [sha1 data] := by
    simp only [digests, messageAfter, reduceCtorEq, if_false, if_true, List.nil_append,
      List.append_nil]
  rw [hasherHash, hasher, hasherRun_eq host sized (represents_init size), told]

/-- **A hasher answers the digests of the standard**, in whichever pieces the data came. -/
theorem hasher_digests (host : ByteOrder) {memory : ShaCtx} (size : memory.buffer.length = 64)
    {calls : List HasherCall} (sized : ∀ call ∈ calls, call.Sized) :
    hasher host memory calls = some (digests [] calls) :=
  hasherRun_eq host sized (represents_init size)

/-- A little-endian host, two updates, and a digest after each. -/
theorem hasher_digests_twice :
    hasher ⟨false⟩ ⟨initial, 0, 0, List.replicate 64 0xcc⟩
        [.update (ascii "a"), .final, .reset, .update (ascii "ab"), .update (ascii "c"), .final] =
      some [sha1 (ascii "a"), sha1 (ascii "abc")] := by
  have sized : ∀ call ∈ [HasherCall.update (ascii "a"), .final, .reset, .update (ascii "ab"),
      .update (ascii "c"), .final], call.Sized := by
    intro call member
    simp only [List.mem_cons, List.not_mem_nil, or_false] at member
    rcases member with rfl | rfl | rfl | rfl | rfl | rfl <;>
      first | exact trivial | exact ⟨by decide, by decide⟩
  have told : digests [] [.update (ascii "a"), .final, .reset, .update (ascii "ab"),
      .update (ascii "c"), .final] = [sha1 (ascii "a"), sha1 (ascii "abc")] := by
    have joined : ascii "ab" ++ ascii "c" = ascii "abc" := by decide
    simp only [digests, messageAfter, reduceCtorEq, if_false, if_true, List.nil_append, joined,
      List.cons_append]
  rw [hasher_digests ⟨false⟩ List.length_replicate sized, told]

end Xul
