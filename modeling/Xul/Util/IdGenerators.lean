import Xul.Foundation.Identifiers
import Xul.Foundation.Runs
import Xul.Std.Bytes

/-!
# Id generators

Neither generator keeps the ids that it has generated.  `random_id_generator` looks for a
draw in a set that stays empty, and does not look at its range; `sequential_id_generator`
counts on from the beginning of its range, past the end of it.
-/

set_option autoImplicit false

namespace Xul

open Foundation

/-! ## Random numbers -/

/-- The types that `random_generator` is specialised for. -/
inductive RandomType
  | uint16
  | uint32
  | uint64

/-- `random::next_word` on a result of `rand`. -/
def nextWord (rand : Nat) : Nat := rand % 2 ^ 16

/-- `next_dword`: the low word is drawn first. -/
def nextDword (rands : Nat → Nat) : Nat := nextWord (rands 1) <<< 16 ||| nextWord (rands 0)

/-- `next_qword`: the low half is drawn first. -/
def nextQword (rands : Nat → Nat) : Nat :=
  nextDword (fun i => rands (i + 2)) <<< 32 ||| nextDword rands

namespace RandomType

/-- How many results of `rand` a draw takes. -/
def words : RandomType → Nat
  | uint16 => 1
  | uint32 => 2
  | uint64 => 4

/-- `random_generator<ValueT>::generate`, which returns a `uint16_t` for every type. -/
def generate (rands : Nat → Nat) : RandomType → Nat
  | uint16 => nextWord (rands 0)
  | uint32 => nextDword rands % 2 ^ 16
  | uint64 => nextQword rands % 2 ^ 16

theorem low_word (high low : Nat) : (high <<< 16 ||| nextWord low) % 2 ^ 16 = nextWord low := by
  rw [Nat.or_mod_two_pow, Nat.shiftLeft_eq, Nat.mul_mod_left, Nat.zero_or, nextWord, Nat.mod_mod]

theorem generate_eq (rands : Nat → Nat) (type : RandomType) :
    type.generate rands = nextWord (rands 0) := by
  cases type with
  | uint16 => rfl
  | uint32 => exact low_word _ _
  | uint64 =>
      have split : nextDword (fun i => rands (i + 2)) <<< 32 % 2 ^ 16 = 0 := by
        rw [Nat.shiftLeft_eq]
        omega
      rw [generate, nextQword, Nat.or_mod_two_pow, split, Nat.zero_or]
      exact low_word _ _

end RandomType

/-! ## Random ids -/

structure RandomIdGenerator where
  ids : List Nat
  min : Nat
  max : Nat

namespace RandomIdGenerator

/-- A generator after `set_range`. -/
def create (rangeMin rangeMax : Nat) : RandomIdGenerator := ⟨[], rangeMin, rangeMax⟩

def doGenerate (generator : RandomIdGenerator) (tempval : Nat) : Option Nat :=
  if tempval ∈ generator.ids then none else some tempval

/-- The turns of the loop in `generate` from some draw on. -/
def draw (generator : RandomIdGenerator) (type : RandomType) (rands : Nat → Nat) (first : Nat) :
    Nat → Nat
  | 0 => 0
  | turns + 1 =>
      match generator.doGenerate (type.generate fun i => rands (first + i)) with
      | some val => val
      | none => draw generator type rands (first + type.words) turns

def generate (generator : RandomIdGenerator) (type : RandomType) (rands : Nat → Nat) : Nat :=
  generator.draw type rands 0 100

def release (generator : RandomIdGenerator) (val : Nat) : RandomIdGenerator :=
  { generator with ids := generator.ids.filter (· ≠ val) }

/-- Ids are looked for in a set that is empty, so that the first draw is returned. -/
theorem generate_of_empty {generator : RandomIdGenerator} (empty : generator.ids = [])
    (type : RandomType) (rands : Nat → Nat) :
    generator.generate type rands = nextWord (rands 0) := by
  have drawn : generator.doGenerate (type.generate fun i => rands (0 + i)) =
      some (nextWord (rands 0)) := by
    rw [doGenerate, empty, if_neg List.not_mem_nil, type.generate_eq]
  rw [generate, draw, drawn]

/-- `generate` is handed the results of the calls of `rand` that it makes. -/
def issuer (type : RandomType) : Issuer RandomIdGenerator Nat (Nat → Nat) where
  generate generator rands := (generator.generate type rands, generator)
  release := release

def start (rangeMin rangeMax : Nat) : Issued RandomIdGenerator Nat :=
  ⟨create rangeMin rangeMax, [], 0⟩

def InRange (rangeMin rangeMax id : Nat) : Prop := rangeMin ≤ id ∧ id ≤ rangeMax

/-- As long as ids are free, the first draw is one of them. -/
def DrawsFree (rangeMin rangeMax : Nat) (issued : Issued RandomIdGenerator Nat) :
    IdCall Nat (Nat → Nat) → Prop
  | .generate rands =>
      Issuer.Free (InRange rangeMin rangeMax) issued →
        InRange rangeMin rangeMax (nextWord (rands 0)) ∧ nextWord (rands 0) ∉ issued.held
  | .release _ => True

/-- No id is ever kept. -/
theorem ids_empty_step {type : RandomType} {issued next : Issued RandomIdGenerator Nat}
    {call : IdCall Nat (Nat → Nat)} (empty : issued.state.ids = [])
    (happens : (issuer type).step issued call = some next) : next.state.ids = [] := by
  cases call with
  | generate rands =>
      cases happens
      exact empty
  | release id =>
      cases happens
      exact congrArg (List.filter (· ≠ id)) empty

theorem honours_iff {type : RandomType} {rangeMin rangeMax : Nat}
    {issued : Issued RandomIdGenerator Nat} (empty : issued.state.ids = [])
    (call : IdCall Nat (Nat → Nat)) :
    (issuer type).Honours (InRange rangeMin rangeMax) issued call ↔
      DrawsFree rangeMin rangeMax issued call := by
  cases call with
  | generate rands =>
      have drawn : ((issuer type).generate issued.state rands).1 = nextWord (rands 0) :=
        generate_of_empty empty type rands
      rw [Issuer.Honours, DrawsFree, drawn]
  | release id => exact Iff.rfl

end RandomIdGenerator

/-! ## Sequential ids -/

structure SequentialIdGenerator where
  min : UInt32
  max : UInt32
  next : UInt32

namespace SequentialIdGenerator

/-- A generator after `set_range`. -/
def create (rangeMin rangeMax : UInt32) : SequentialIdGenerator := ⟨rangeMin, rangeMax, rangeMin⟩

def generate (generator : SequentialIdGenerator) : UInt32 × SequentialIdGenerator :=
  (generator.next, { generator with next := generator.next + 1 })

def release (generator : SequentialIdGenerator) (_ : UInt32) : SequentialIdGenerator := generator

def issuer : Issuer SequentialIdGenerator UInt32 Unit where
  generate generator _ := generator.generate
  release := release

def start (rangeMin rangeMax : UInt32) : Issued SequentialIdGenerator UInt32 :=
  ⟨create rangeMin rangeMax, [], 0⟩

def InRange (rangeMin rangeMax id : UInt32) : Prop := rangeMin ≤ id ∧ id ≤ rangeMax

/-- The id that is generated after a number of others. -/
def idAfter (rangeMin : UInt32) (count : Nat) : UInt32 := UInt32.ofNat (rangeMin.toNat + count)

/-- As long as ids are free, fewer ids were generated, since the counter last wrapped around
to the beginning of the range, than there are in it, and after the first such turn the id was
released. -/
def CountsFree (rangeMin rangeMax : UInt32) (issued : Issued SequentialIdGenerator UInt32) :
    IdCall UInt32 Unit → Prop
  | .generate _ =>
      Issuer.Free (InRange rangeMin rangeMax) issued →
        issued.count % 2 ^ 32 ≤ rangeMax.toNat - rangeMin.toNat ∧
          (2 ^ 32 ≤ issued.count → idAfter rangeMin issued.count ∉ issued.held)
  | .release _ => True

/-- The counter is at the number of ids that were generated, and no other ids are held. -/
structure Counts (rangeMin : UInt32) (issued : Issued SequentialIdGenerator UInt32) : Prop where
  next : issued.state.next = idAfter rangeMin issued.count
  held : ∀ id ∈ issued.held, ∃ before < issued.count, id = idAfter rangeMin before

variable {rangeMin rangeMax : UInt32} {issued next : Issued SequentialIdGenerator UInt32}

theorem counts_start : Counts rangeMin (start rangeMin rangeMax) where
  next := UInt32.ofNat_toNat.symm
  held := nofun

theorem Counts.step (counts : Counts rangeMin issued) {call : IdCall UInt32 Unit}
    (happens : issuer.step issued call = some next) : Counts rangeMin next := by
  cases call with
  | generate choice =>
      cases happens
      constructor
      · show issued.state.next + 1 = UInt32.ofNat (rangeMin.toNat + (issued.count + 1))
        rw [counts.next, idAfter, ← Nat.add_assoc, UInt32.ofNat_add (rangeMin.toNat + issued.count)]
        rfl
      · intro id member
        rcases List.mem_cons.mp member with rfl | before
        · exact ⟨issued.count, Nat.lt_succ_self _, counts.next⟩
        · obtain ⟨earlier, less, same⟩ := counts.held id before
          exact ⟨earlier, less.trans (Nat.lt_succ_self _), same⟩
  | release id =>
      cases happens
      exact ⟨counts.next, fun other member => counts.held other (List.mem_of_mem_erase member)⟩

theorem idAfter_toNat (rangeMin : UInt32) (count : Nat) :
    (idAfter rangeMin count).toNat = (rangeMin.toNat + count) % 2 ^ 32 := UInt32.toNat_ofNat'

/-- The counter is in the range as long as the range has more ids than it has passed. -/
theorem inRange_iff (nonempty : rangeMin ≤ rangeMax) (count : Nat) :
    InRange rangeMin rangeMax (idAfter rangeMin count) ↔
      count % 2 ^ 32 ≤ rangeMax.toNat - rangeMin.toNat := by
  rw [InRange, UInt32.le_iff_toNat_le, UInt32.le_iff_toNat_le, idAfter_toNat]
  rw [UInt32.le_iff_toNat_le] at nonempty
  have small := rangeMax.toNat_lt
  omega

/-- The first turn of the counter does not come to an id twice. -/
theorem Counts.fresh (counts : Counts rangeMin issued) (first : issued.count < 2 ^ 32) :
    idAfter rangeMin issued.count ∉ issued.held := by
  intro member
  obtain ⟨before, less, same⟩ := counts.held _ member
  have equal := congrArg UInt32.toNat same
  rw [idAfter_toNat, idAfter_toNat] at equal
  omega

theorem Counts.honours_iff (counts : Counts rangeMin issued) (call : IdCall UInt32 Unit) :
    issuer.Honours (InRange rangeMin rangeMax) issued call ↔
      CountsFree rangeMin rangeMax issued call := by
  cases call with
  | generate choice =>
      have generated : (issuer.generate issued.state choice).1 = idAfter rangeMin issued.count :=
        counts.next
      rw [Issuer.Honours, CountsFree, generated]
      refine forall_congr' ?_
      rintro ⟨id, ⟨low, high⟩, _⟩
      rw [inRange_iff (UInt32.le_trans low high)]
      refine and_congr_right fun _ => ⟨fun fresh _ => fresh, ?_⟩
      intro later
      by_cases first : issued.count < 2 ^ 32
      · exact counts.fresh first
      · exact later (not_lt.mp first)
  | release id => exact Iff.rfl

end SequentialIdGenerator

/-- **When the generators honour their contract**: while ids are free, the random generator
must happen to draw one of them first, and the sequential one must not have passed the end of
its range. -/
theorem id_generators_honour_iff (type : RandomType) (rangeMin rangeMax : Nat)
    (calls : List (IdCall Nat (Nat → Nat))) (first last : UInt32)
    (callsInSequence : List (IdCall UInt32 Unit)) :
    (Guarded (RandomIdGenerator.issuer type).step ((RandomIdGenerator.issuer type).Honours
          (RandomIdGenerator.InRange rangeMin rangeMax))
        (RandomIdGenerator.start rangeMin rangeMax) calls ↔
      Guarded (RandomIdGenerator.issuer type).step (RandomIdGenerator.DrawsFree rangeMin rangeMax)
        (RandomIdGenerator.start rangeMin rangeMax) calls) ∧
    (Guarded SequentialIdGenerator.issuer.step (SequentialIdGenerator.issuer.Honours
          (SequentialIdGenerator.InRange first last))
        (SequentialIdGenerator.start first last) callsInSequence ↔
      Guarded SequentialIdGenerator.issuer.step (SequentialIdGenerator.CountsFree first last)
        (SequentialIdGenerator.start first last) callsInSequence) := by
  have kept : ∀ issued call next, issued.state.ids = [] →
      (RandomIdGenerator.issuer type).step issued call = some next → next.state.ids = [] :=
    fun _ _ _ empty happens => RandomIdGenerator.ids_empty_step empty happens
  have counted : ∀ issued call next, SequentialIdGenerator.Counts first issued →
      SequentialIdGenerator.issuer.step issued call = some next →
      SequentialIdGenerator.Counts first next :=
    fun _ _ _ counts happens => counts.step happens
  constructor
  · exact guarded_congr kept (fun _ call empty => RandomIdGenerator.honours_iff empty call) rfl
  · exact guarded_congr counted (fun _ call counts => counts.honours_iff call)
      SequentialIdGenerator.counts_start

/-- The range from 1 to 5 and a draw of 7; and the range from 0 to 1, of which 0 is generated,
released and never generated again. -/
theorem generators_leave_their_range :
    (¬ ∀ calls, Guarded (RandomIdGenerator.issuer .uint32).step
        ((RandomIdGenerator.issuer .uint32).Honours (RandomIdGenerator.InRange 1 5))
        (RandomIdGenerator.start 1 5) calls) ∧
    ¬ ∀ calls, Guarded SequentialIdGenerator.issuer.step
        (SequentialIdGenerator.issuer.Honours (SequentialIdGenerator.InRange 0 1))
        (SequentialIdGenerator.start 0 1) calls := by
  constructor
  · intro guarded
    obtain ⟨honours, -⟩ := guarded [.generate fun _ => 7] _ rfl
    have generated := (honours ⟨1, ⟨by decide, by decide⟩, nofun⟩).1
    exact absurd generated.2 (by decide +kernel)
  · intro guarded
    obtain ⟨-, later⟩ := guarded [.generate (), .generate (), .release 0, .generate ()] _ rfl
    obtain ⟨-, later⟩ := later _ rfl
    obtain ⟨-, later⟩ := later _ rfl
    obtain ⟨honours, -⟩ := later _ rfl
    have generated := (honours ⟨0, ⟨by decide, by decide⟩, by decide +kernel⟩).1
    exact absurd generated.2 (by decide +kernel)

end Xul
