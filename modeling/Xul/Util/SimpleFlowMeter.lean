import Xul.Foundation.Runs
import Xul.Util.FlowMeter

/-!
# The flow meter of the clock

`simple_flow_meter` moves its ring on by the clock, one slot a second.  It knows the slot
that it was last in by its position only, so that after an idle gap of as many slots as the
ring has, or more, it clears too few of them.  Its recent bytes are those of the window as
long as no bytes are left in such slots, and its assertions hold as long as the packets in the
ring fit an `int` (`simple_flow_meter_window`).
-/

set_option autoImplicit false

namespace Xul

open Foundation

structure SimpleFlowMeter where
  counts : List MeterCount
  updateTimes : Int
  lastPosition : Int
  totalBytes : Int
  totalPackets : Int
  recent : MeterCount

namespace SimpleFlowMeter

/-- The meter of `unit_count` slots, cleared. -/
def create (unitCount : Nat) : SimpleFlowMeter where
  counts := List.replicate unitCount .clear
  updateTimes := 0
  lastPosition := 0
  totalBytes := 0
  totalPackets := 0
  recent := .clear

/-- What a turn of the loop in `step_next` makes of the meter. -/
def clearedSlot (meter : SimpleFlowMeter) (i : Int) : SimpleFlowMeter :=
  let offset := (toInt (toSizeT i % meter.counts.length)).toNat
  { meter with
    recent := meter.recent.sub (meter.counts.getD offset .clear)
    counts := meter.counts.set offset .clear
    updateTimes := toInt (meter.updateTimes + 1) }

/-- A turn of the loop with its assertions; there is no result where one of them fails. -/
def clearSlot (meter : SimpleFlowMeter) (i : Int) : Option SimpleFlowMeter := do
  guard (meter.recent.bytes ≥ 0)
  guard (meter.recent.packets ≥ 0)
  let cleared := meter.clearedSlot i
  guard (cleared.recent.bytes ≥ 0)
  guard (cleared.recent.packets ≥ 0)
  return cleared

/-- The turns of the loop from `i` on. -/
def clearSlots (meter : SimpleFlowMeter) (i : Int) : Nat → Option SimpleFlowMeter
  | 0 => some meter
  | turns + 1 => (meter.clearSlot i).bind fun cleared => cleared.clearSlots (i + 1) turns

def stepNext (meter : SimpleFlowMeter) (pos : Int) : Option SimpleFlowMeter := do
  guard (pos ≠ meter.lastPosition)
  let pos := if pos < meter.lastPosition then toInt (toSizeT (pos + meter.counts.length)) else pos
  let cleared ← meter.clearSlots (meter.lastPosition + 1) (pos - meter.lastPosition).toNat
  return { cleared with lastPosition := toInt (toSizeT pos % meter.counts.length) }

/-- The position that `add` and `update` take from the time since the start. -/
def position (meter : SimpleFlowMeter) (timediff : Int) : Int :=
  let posdiff := toInt ((toInt64 (timediff + 1000 - 1)).tdiv 1000)
  toInt (toSizeT posdiff % meter.counts.length)

/-- `update` at a time since the start. -/
def update (meter : SimpleFlowMeter) (timediff : Int) : Option SimpleFlowMeter :=
  let pos := meter.position timediff
  if pos ≠ meter.lastPosition then meter.stepNext pos else some meter

/-- `add` goes on as `update` does. -/
def add (meter : SimpleFlowMeter) (timediff count : Int) : Option SimpleFlowMeter := do
  guard (count ≥ 0)
  let pos := (meter.position timediff).toNat
  let meter ← meter.update timediff
  return { meter with
    counts := meter.counts.set pos ((meter.counts.getD pos .clear).addPacket count)
    recent := meter.recent.addPacket count
    totalBytes := toInt64 (meter.totalBytes + count)
    totalPackets := toInt64 (meter.totalPackets + 1) }

end SimpleFlowMeter

/-- A call, and the milliseconds since the start. -/
structure TimedCall where
  elapsed : Int
  call : FlowCall

/-- The slot of a time. -/
def slotOf (elapsed : Int) : Int := (elapsed + 999) / 1000

/-- A meter with the time of its last call, and the counts added so far in their slots; there is
no meter after an assertion has failed. -/
structure MeterSession where
  meter : Option SimpleFlowMeter
  elapsed : Int
  log : StepLog Int

namespace MeterSession

def start (unitCount : Nat) : MeterSession := ⟨some (.create unitCount), 0, []⟩

/-- Times do not decrease, and an `int` is added that is not negative. -/
def step (session : MeterSession) (event : TimedCall) : Option MeterSession := do
  guard (session.elapsed ≤ event.elapsed)
  match event.call with
  | .update => return ⟨session.meter.bind (·.update event.elapsed), event.elapsed, session.log⟩
  | .add count =>
      guard (0 ≤ count ∧ count < 2 ^ 31)
      return ⟨session.meter.bind (·.add event.elapsed count), event.elapsed,
        session.log ++ [(slotOf event.elapsed, count)]⟩

/-- The counts added in the last slots, as many as the meter has, ending with the current one. -/
def window (unitCount : Nat) (session : MeterSession) : List Int :=
  session.log.since (slotOf session.elapsed - unitCount + 1)

/-- No assertion has failed, and the recent bytes are those of the window. -/
def Windowed (unitCount : Nat) (session : MeterSession) : Prop :=
  session.meter.map (·.recent.bytes) = some (session.window unitCount).sum

instance (unitCount : Nat) (session : MeterSession) : Decidable (session.Windowed unitCount) :=
  inferInstanceAs (Decidable (_ = _))

/-- What is added by a call. -/
def added (event : TimedCall) : List Int :=
  match event.call with
  | .update => []
  | .add count => [count]

/-- A call that clears what it has to: the numbers of the slots fit in an `int`, an idle gap
of all slots or more leaves no bytes in the newest slots, which it does not clear, and the
bytes of the window fit in an `int`. -/
structure Clears (unitCount : Nat) (session : MeterSession) (event : TimedCall) : Prop where
  units : unitCount ≤ 2 ^ 30
  slot : slotOf event.elapsed < 2 ^ 31
  idle : let gap := slotOf event.elapsed - slotOf session.elapsed
    unitCount ≤ gap →
      (session.log.since (slotOf session.elapsed + gap % unitCount - unitCount + 1)).sum = 0
  fits : (session.log.since (slotOf event.elapsed - unitCount + 1)).sum + (added event).sum <
    2 ^ 31

/-- The packets of the ring fit an `int`, with the one that a call adds. -/
def FewPackets (session : MeterSession) (event : TimedCall) : Prop :=
  ∀ meter ∈ session.meter, meter.recent.packets + (added event).length < 2 ^ 31

instance (session : MeterSession) (event : TimedCall) : Decidable (session.FewPackets event) :=
  inferInstanceAs (Decidable (∀ _ ∈ session.meter, _))

end MeterSession

namespace SimpleFlowMeter

/-- The ring and the running count have the bytes of the last slots. -/
structure Keeps (unitCount : Nat) (last : Int) (log : StepLog Int) (meter : SimpleFlowMeter) :
    Prop where
  length : meter.counts.length = unitCount
  ring : Ring (meter.counts.map MeterCount.bytes) (fun step => (log.inStep step).sum) last
  recent : meter.recent.bytes = (log.since (last - unitCount + 1)).sum

variable {unitCount : Nat} {last : Int} {log : StepLog Int} {meter : SimpleFlowMeter}

theorem keeps_create (positive : 0 < unitCount) : (create unitCount).Keeps unitCount 0 [] where
  length := List.length_replicate
  ring := by
    rw [create, List.map_replicate]
    exact ring_replicate positive _ _
  recent := rfl

/-- The position of a number that is not negative. -/
theorem offset_eq {i : Int} (positive : 0 < unitCount) (few : unitCount < 2 ^ 31)
    (least : 0 ≤ i) (small : i < 2 ^ 64) :
    toInt (toSizeT i % unitCount) = ringPosition unitCount i := by
  have inRing := ringPosition_lt positive i
  have nonneg := Int.emod_nonneg i (Int.natCast_pos.mpr positive).ne'
  rw [ringPosition] at inRing ⊢
  rw [toSizeT_of_nonneg least small, toInt_of_small (by omega) (by omega)]
  omega

/-- The bytes of a slot that the ring has. -/
theorem getD_bytes {position : Nat} {value : Int}
    (found : (meter.counts.map MeterCount.bytes)[position]? = some value) :
    (meter.counts.getD position .clear).bytes = value := by
  rw [List.getElem?_map, Option.map_eq_some_iff] at found
  obtain ⟨count, here, rfl⟩ := found
  rw [List.getD_eq_getElem?_getD, here, Option.getD_some]

/-- Parts of a log whose counts are not negative have sums in order. -/
theorem sum_le_of_sublist {part whole : List Int} (sub : part.Sublist whole)
    (within : whole.Sublist log.values) (nonneg : ∀ count ∈ log.values, 0 ≤ count) :
    0 ≤ part.sum ∧ part.sum ≤ whole.sum := by
  have all : ∀ count ∈ whole, 0 ≤ count := fun count member =>
    nonneg count (within.subset member)
  exact ⟨List.sum_nonneg fun count member => all count (sub.subset member), sub.sum_le_sum all⟩

/-- A turn of the loop moves the ring on by a slot in which nothing was added. -/
theorem Keeps.clearedSlot (keeps : meter.Keeps unitCount last log) (positive : 0 < unitCount)
    (past : ∀ entry ∈ log, entry.1 ≤ last) (nonneg : ∀ count ∈ log.values, 0 ≤ count)
    (fits : (log.since (last - unitCount + 1)).sum < 2 ^ 31) {i : Int}
    (offset : (toInt (toSizeT i % meter.counts.length)).toNat =
      ringPosition unitCount (last + 1)) :
    (meter.clearedSlot i).Keeps unitCount (last + 1) log := by
  have long : (meter.counts.map MeterCount.bytes).length = unitCount := by
    rw [List.length_map, keeps.length]
  have leaving := keeps.ring.leaving (long.symm ▸ positive)
  have advanced := keeps.ring.advance (long.symm ▸ positive) (fun _ _ _ => rfl)
  rw [long] at leaving advanced
  have first : last + 1 - (unitCount : Int) = last - unitCount + 1 := by omega
  rw [first] at leaving
  refine ⟨(List.length_set ..).trans keeps.length, ?_, ?_⟩
  · rw [SimpleFlowMeter.clearedSlot, offset, List.map_set]
    rwa [StepLog.inStep_eq_nil past (by omega), List.sum_nil] at advanced
  · have split := (StepLog.since_perm (last - unitCount + 1) log).sum_eq
    have rest := sum_le_of_sublist (StepLog.since_sublist_since (show last - (unitCount : Int) + 1 ≤
      last - unitCount + 1 + 1 by omega) log) (StepLog.since_sublist _ log) nonneg
    rw [List.sum_append] at split
    have bytes : (meter.clearedSlot i).recent.bytes =
        toInt ((log.since (last - unitCount + 1)).sum -
          (log.inStep (last - unitCount + 1)).sum) := by
      rw [SimpleFlowMeter.clearedSlot, offset, MeterCount.sub, keeps.recent, getD_bytes leaving]
    have window : last + 1 - (unitCount : Int) + 1 = last - unitCount + 1 + 1 := by omega
    rw [bytes, window, toInt_of_small (by omega) (by omega)]
    omega

theorem clearSlot_eq_some_iff {next : SimpleFlowMeter} {i : Int} :
    meter.clearSlot i = some next ↔
      (0 ≤ meter.recent.bytes ∧ 0 ≤ meter.recent.packets ∧
        0 ≤ (meter.clearedSlot i).recent.bytes ∧ 0 ≤ (meter.clearedSlot i).recent.packets) ∧
      meter.clearedSlot i = next := by
  simp [clearSlot, Option.bind_eq_some_iff, and_assoc]

/-- The position of the slot that a turn clears. -/
theorem offset_of_congruent (keeps : meter.Keeps unitCount last log) (positive : 0 < unitCount)
    (few : unitCount < 2 ^ 31) {i : Int} (least : 0 ≤ i)
    (congruent : i ≡ last + 1 [ZMOD unitCount]) (small : i < 2 ^ 64) :
    (toInt (toSizeT i % meter.counts.length)).toNat = ringPosition unitCount (last + 1) := by
  rw [keeps.length, offset_eq positive few least small, Int.toNat_natCast, ringPosition, congruent,
    ringPosition]

/-- The loop moves the ring on by as many slots as it has turns. -/
theorem Keeps.clearSlots {next : SimpleFlowMeter} (keeps : meter.Keeps unitCount last log)
    (positive : 0 < unitCount) (few : unitCount < 2 ^ 31) (past : ∀ entry ∈ log, entry.1 ≤ last)
    (nonneg : ∀ count ∈ log.values, 0 ≤ count)
    (fits : (log.since (last - unitCount + 1)).sum < 2 ^ 31) {i : Int} (least : 0 ≤ i)
    (congruent : i ≡ last + 1 [ZMOD unitCount]) {turns : Nat} (small : i + turns < 2 ^ 64)
    (happens : meter.clearSlots i turns = some next) :
    next.Keeps unitCount (last + turns) log := by
  induction turns generalizing meter last i with
  | zero =>
      cases happens
      simpa using keeps
  | succ turns ih =>
      obtain ⟨cleared, first, later⟩ := Option.bind_eq_some_iff.mp happens
      obtain ⟨-, rfl⟩ := clearSlot_eq_some_iff.mp first
      have cleared := keeps.clearedSlot positive past nonneg fits
        (offset_of_congruent keeps positive few least congruent (by omega))
      have shrinks := sum_le_of_sublist (StepLog.since_sublist_since
        (show last - (unitCount : Int) + 1 ≤ last + 1 - unitCount + 1 by omega) log)
        (StepLog.since_sublist _ log) nonneg
      have rest := ih cleared (fun entry member => (past entry member).trans (by omega))
        (shrinks.2.trans_lt fits) (by omega : 0 ≤ i + 1) (congruent.add_right 1) (by omega) later
      rwa [Nat.cast_succ, Int.add_comm (turns : Int) 1, ← Int.add_assoc]

/-- The position of a time. -/
theorem position_eq (positive : 0 < unitCount) (few : unitCount < 2 ^ 31)
    (length : meter.counts.length = unitCount) {timediff : Int} (least : 0 ≤ timediff)
    (small : slotOf timediff < 2 ^ 31) :
    meter.position timediff = ringPosition unitCount (slotOf timediff) := by
  have slot : toInt ((toInt64 (timediff + 1000 - 1)).tdiv 1000) = slotOf timediff := by
    rw [slotOf] at small ⊢
    rw [toInt64_of_small (by omega) (by omega), Int.tdiv_eq_ediv_of_nonneg (by omega),
      toInt_of_small (by omega) (by omega)]
    omega
  have slotNonneg : 0 ≤ slotOf timediff := by
    rw [slotOf]
    omega
  rw [position, slot, length, offset_eq positive few slotNonneg (by omega)]

/-- How far a position is ahead of another one. -/
theorem ahead_eq (positive : 0 < unitCount) (last slot : Int) :
    let pos : Int := ringPosition unitCount slot
    let lastPosition : Int := ringPosition unitCount last
    (if pos < lastPosition then pos + unitCount else pos) - lastPosition =
      (slot - last) % unitCount := by
  intro pos lastPosition
  have natural : ∀ step, ((ringPosition unitCount step : Nat) : Int) = step % unitCount :=
    fun step => Int.toNat_of_nonneg (Int.emod_nonneg step (Int.natCast_pos.mpr positive).ne')
  have posLt := ringPosition_lt positive slot
  have lastLt := ringPosition_lt positive last
  have difference : (slot - last) % unitCount = (pos - lastPosition) % unitCount := by
    rw [Int.sub_emod, ← natural slot, ← natural last]
  rw [difference]
  split
  · next behind =>
      rw [← Int.add_emod_right, Int.emod_eq_of_lt (by omega) (by omega)]
      omega
  · next ahead =>
      rw [Int.emod_eq_of_lt (by omega) (by omega)]

theorem ringPosition_idem (positive : 0 < unitCount) (step : Int) :
    ringPosition unitCount (ringPosition unitCount step : Nat) = ringPosition unitCount step := by
  have least := Int.emod_nonneg step (Int.natCast_pos.mpr positive).ne'
  rw [ringPosition, ringPosition, Int.toNat_of_nonneg least, Int.emod_emod]

/-- **What `update` does**: the loop has as many turns as the gap, less whole turns of the
ring. -/
theorem Keeps.update_eq (keeps : meter.Keeps unitCount last log) (positive : 0 < unitCount)
    (units : unitCount ≤ 2 ^ 30) (at_ : meter.lastPosition = ringPosition unitCount last)
    {timediff : Int} (least : 0 ≤ timediff) (small : slotOf timediff < 2 ^ 31) :
    ∃ turns : Nat, (turns : Int) = (slotOf timediff - last) % unitCount ∧
      (ringPosition unitCount last : Int) + 1 + turns < 2 ^ 64 ∧
      meter.update timediff =
        (meter.clearSlots (ringPosition unitCount last + 1) turns).map fun cleared =>
          { cleared with lastPosition := ringPosition unitCount (slotOf timediff) } := by
  have few : unitCount < 2 ^ 31 := by omega
  have ahead := ahead_eq positive last (slotOf timediff)
  have position := position_eq positive few keeps.length least small
  have posLt := ringPosition_lt positive (slotOf timediff)
  have lastLt := ringPosition_lt positive last
  simp only at ahead
  by_cases same : meter.position timediff = meter.lastPosition
  · rw [SimpleFlowMeter.update, if_neg (not_not_intro same)]
    rw [position, at_] at same
    rw [same, if_neg (lt_irrefl _), Int.sub_self] at ahead
    refine ⟨0, ahead, by omega, ?_⟩
    have stays :
        meter = { meter with lastPosition := ringPosition unitCount (slotOf timediff) } := by
      rw [same, ← at_]
    exact congrArg some stays
  · have moves :
        (ringPosition unitCount (slotOf timediff) : Int) ≠ ringPosition unitCount last := by
      rwa [position, at_] at same
    rw [SimpleFlowMeter.update, if_pos same, stepNext, position, at_, keeps.length, guard,
      if_pos moves]
    simp only [Option.pure_def, Option.bind_eq_bind, Option.bind_some]
    have grown : toInt (toSizeT ((ringPosition unitCount (slotOf timediff) : Int) + unitCount)) =
        ringPosition unitCount (slotOf timediff) + unitCount := by
      rw [toSizeT_of_nonneg (by omega) (by omega), toInt_of_small (by omega) (by omega)]
    rw [grown]
    generalize reached : (if (ringPosition unitCount (slotOf timediff) : Int) <
      ringPosition unitCount last then (ringPosition unitCount (slotOf timediff) : Int) + unitCount
      else ringPosition unitCount (slotOf timediff)) = pos at ahead ⊢
    have inRange : 0 ≤ pos ∧ pos < 2 ^ 31 := by
      rw [← reached]
      split <;> omega
    have there : ringPosition unitCount pos = ringPosition unitCount (slotOf timediff) := by
      rw [← reached]
      split
      · rw [← ringPosition_sub, Int.add_sub_cancel, ringPosition_idem positive]
      · exact ringPosition_idem positive _
    have nonneg := Int.emod_nonneg (slotOf timediff - last) (Int.natCast_pos.mpr positive).ne'
    refine ⟨(pos - ringPosition unitCount last).toNat, by omega, by omega, ?_⟩
    rw [offset_eq positive few inRange.1 (by omega), there]
    exact Option.map_eq_bind.symm

/-- The position in the ring goes with the number of the slot. -/
theorem position_congruent (positive : 0 < unitCount) (last : Int) :
    (ringPosition unitCount last : Int) + 1 ≡ last + 1 [ZMOD unitCount] := by
  refine Int.ModEq.add_right 1 ?_
  rw [ringPosition, Int.toNat_of_nonneg (Int.emod_nonneg _ (Int.natCast_pos.mpr positive).ne')]
  exact Int.mod_modEq last unitCount

theorem Keeps.update {next : SimpleFlowMeter} (keeps : meter.Keeps unitCount last log)
    (positive : 0 < unitCount) (units : unitCount ≤ 2 ^ 30)
    (at_ : meter.lastPosition = ringPosition unitCount last)
    (past : ∀ entry ∈ log, entry.1 ≤ last) (nonneg : ∀ count ∈ log.values, 0 ≤ count)
    (fits : (log.since (last - unitCount + 1)).sum < 2 ^ 31) {timediff : Int}
    (least : 0 ≤ timediff) (small : slotOf timediff < 2 ^ 31)
    (happens : meter.update timediff = some next) :
    next.Keeps unitCount (last + (slotOf timediff - last) % unitCount) log ∧
      next.lastPosition = ringPosition unitCount (slotOf timediff) := by
  obtain ⟨turns, gap, below, loop⟩ := keeps.update_eq positive units at_ least small
  rw [loop, Option.map_eq_some_iff] at happens
  obtain ⟨cleared, happens, rfl⟩ := happens
  have kept := keeps.clearSlots positive (by omega) past nonneg fits (by omega)
    (position_congruent positive last) below happens
  rw [gap] at kept
  exact ⟨⟨kept.length, kept.ring, kept.recent⟩, rfl⟩

/-! ### The packets -/

/-- The running count has the packets of the ring. -/
structure Counted (meter : SimpleFlowMeter) : Prop where
  nonneg : ∀ count ∈ meter.counts, 0 ≤ count.packets
  total : meter.recent.packets = (meter.counts.map MeterCount.packets).sum
  small : meter.recent.packets < 2 ^ 31

theorem counted_create : (create unitCount).Counted where
  nonneg := by
    intro count member
    rw [List.eq_of_mem_replicate member]
    exact le_rfl
  total := by
    rw [create, List.map_replicate, List.sum_replicate]
    exact (nsmul_zero _).symm
  small := by
    show (0 : Int) < 2 ^ 31
    decide

/-- The packets of a slot are some of those of the ring. -/
theorem Counted.slot (counted : meter.Counted) (position : Nat) :
    0 ≤ (meter.counts.getD position .clear).packets ∧
      (meter.counts.getD position .clear).packets ≤ meter.recent.packets := by
  have all : ∀ packets ∈ meter.counts.map MeterCount.packets, 0 ≤ packets := by
    intro packets member
    obtain ⟨count, within, rfl⟩ := List.mem_map.mp member
    exact counted.nonneg count within
  rw [List.getD_eq_getElem?_getD]
  cases here : meter.counts[position]? with
  | none =>
      rw [counted.total]
      exact ⟨le_rfl, List.sum_nonneg all⟩
  | some count =>
      have member := List.mem_of_getElem? here
      rw [counted.total]
      exact ⟨counted.nonneg count member,
        List.single_le_sum all _ (List.mem_map_of_mem member)⟩

/-- The packets of a ring in which one slot is set. -/
theorem sum_packets_set {position : Nat} (inside : position < meter.counts.length)
    (count : MeterCount) :
    ((meter.counts.set position count).map MeterCount.packets).sum =
      (meter.counts.map MeterCount.packets).sum -
        (meter.counts.getD position .clear).packets + count.packets := by
  rw [List.map_set, List.sum_set', dif_pos (by rwa [List.length_map]), List.getElem_map,
    List.getD_eq_getElem?_getD, List.getElem?_eq_getElem inside, Option.getD_some]
  omega

theorem Counted.set (counted : meter.Counted) {position : Nat}
    (inside : position < meter.counts.length) {count recent : MeterCount}
    (least : 0 ≤ count.packets) (changed : recent.packets = meter.recent.packets -
      (meter.counts.getD position .clear).packets + count.packets)
    (small : recent.packets < 2 ^ 31) {next : SimpleFlowMeter}
    (counts : next.counts = meter.counts.set position count) (same : next.recent = recent) :
    next.Counted where
  nonneg := by
    rw [counts]
    intro other member
    rcases List.mem_or_eq_of_mem_set member with before | rfl
    · exact counted.nonneg other before
    · exact least
  total := by rw [counts, same, sum_packets_set inside, changed, counted.total]
  small := by rwa [same]

/-- A slot that is cleared takes its packets with it. -/
theorem Counted.clearedSlot (counted : meter.Counted) {i : Int}
    (inside : (toInt (toSizeT i % meter.counts.length)).toNat < meter.counts.length) :
    (meter.clearedSlot i).Counted ∧ 0 ≤ (meter.clearedSlot i).recent.packets ∧
      (meter.clearedSlot i).recent.packets ≤ meter.recent.packets := by
  obtain ⟨least, most⟩ := counted.slot (toInt (toSizeT i % meter.counts.length)).toNat
  have small := counted.small
  have packets : (meter.clearedSlot i).recent.packets = meter.recent.packets -
      (meter.counts.getD (toInt (toSizeT i % meter.counts.length)).toNat .clear).packets :=
    toInt_of_small (by omega) (by omega)
  refine ⟨counted.set inside le_rfl ?_ (by rw [packets]; omega) rfl rfl, by omega, by omega⟩
  rw [packets]
  exact (Int.add_zero _).symm

/-- **The assertions of the loop hold**, as the bytes and the packets of the ring fit. -/
theorem Counted.clearSlots (counted : meter.Counted) (keeps : meter.Keeps unitCount last log)
    (positive : 0 < unitCount) (few : unitCount < 2 ^ 31) (past : ∀ entry ∈ log, entry.1 ≤ last)
    (nonneg : ∀ count ∈ log.values, 0 ≤ count)
    (fits : (log.since (last - unitCount + 1)).sum < 2 ^ 31) {i : Int} (least : 0 ≤ i)
    (congruent : i ≡ last + 1 [ZMOD unitCount]) {turns : Nat} (small : i + turns < 2 ^ 64) :
    ∃ next, meter.clearSlots i turns = some next ∧ next.Counted ∧
      next.recent.packets ≤ meter.recent.packets := by
  induction turns generalizing meter last i with
  | zero => exact ⟨meter, rfl, counted, le_rfl⟩
  | succ turns ih =>
      have offset := offset_of_congruent keeps positive few least congruent (by omega)
      have cleared := keeps.clearedSlot positive past nonneg fits offset
      have inside : (toInt (toSizeT i % meter.counts.length)).toNat < meter.counts.length := by
        rw [offset, keeps.length]
        exact ringPosition_lt positive _
      obtain ⟨countedNext, leastPackets, fewer⟩ := counted.clearedSlot inside
      have bytes := sum_le_of_sublist (List.Sublist.refl (log.since (last - unitCount + 1)))
        (StepLog.since_sublist _ log) nonneg
      have shrinks := sum_le_of_sublist (StepLog.since_sublist_since
        (show last - (unitCount : Int) + 1 ≤ last + 1 - unitCount + 1 by omega) log)
        (StepLog.since_sublist _ log) nonneg
      have turn : meter.clearSlot i = some (meter.clearedSlot i) := by
        refine clearSlot_eq_some_iff.mpr ⟨⟨?_, by omega, ?_, leastPackets⟩, rfl⟩
        · rw [keeps.recent]
          exact bytes.1
        · rw [cleared.recent]
          exact shrinks.1
      obtain ⟨next, later, countedLast, least⟩ := ih countedNext cleared
        (fun entry member => (past entry member).trans (by omega)) (shrinks.2.trans_lt fits)
        (by omega : 0 ≤ i + 1) (congruent.add_right 1) (by omega)
      refine ⟨next, ?_, countedLast, least.trans fewer⟩
      rw [SimpleFlowMeter.clearSlots, turn, Option.bind_some, later]

theorem Counted.update (counted : meter.Counted) (keeps : meter.Keeps unitCount last log)
    (positive : 0 < unitCount) (units : unitCount ≤ 2 ^ 30)
    (at_ : meter.lastPosition = ringPosition unitCount last)
    (past : ∀ entry ∈ log, entry.1 ≤ last) (nonneg : ∀ count ∈ log.values, 0 ≤ count)
    (fits : (log.since (last - unitCount + 1)).sum < 2 ^ 31) {timediff : Int}
    (least : 0 ≤ timediff) (small : slotOf timediff < 2 ^ 31) :
    ∃ next, meter.update timediff = some next ∧ next.Counted ∧
      next.recent.packets ≤ meter.recent.packets := by
  obtain ⟨turns, gap, below, loop⟩ := keeps.update_eq positive units at_ least small
  obtain ⟨cleared, happens, countedNext, fewer⟩ := counted.clearSlots keeps positive (by omega) past
    nonneg fits (by omega) (position_congruent positive last) below
  rw [happens, Option.map_some] at loop
  exact ⟨_, loop, ⟨countedNext.nonneg, countedNext.total, countedNext.small⟩, fewer⟩

theorem Counted.add (counted : meter.Counted) {position : Nat}
    (inside : position < meter.counts.length) (few : meter.recent.packets + 1 < 2 ^ 31)
    (count updateTimes lastPosition totalBytes totalPackets : Int) :
    Counted ⟨meter.counts.set position ((meter.counts.getD position .clear).addPacket count),
      updateTimes, lastPosition, totalBytes, totalPackets, meter.recent.addPacket count⟩ := by
  obtain ⟨least, most⟩ := counted.slot position
  have slot : ((meter.counts.getD position .clear).addPacket count).packets =
      (meter.counts.getD position .clear).packets + 1 := toInt_of_small (by omega) (by omega)
  have recent : (meter.recent.addPacket count).packets = meter.recent.packets + 1 :=
    toInt_of_small (by omega) few
  refine counted.set inside (by omega) ?_ (by rw [recent]; exact few) rfl rfl
  rw [recent, slot]
  omega

/-! ### The window -/

/-- The ring is that of the new slot, if no bytes are left in slots that were not cleared. -/
theorem Keeps.jump {slot : Int}
    (keeps : meter.Keeps unitCount (last + (slot - last) % unitCount) log)
    (positive : 0 < unitCount) (later : last ≤ slot) (past : ∀ entry ∈ log, entry.1 ≤ last)
    (nonneg : ∀ count ∈ log.values, 0 ≤ count)
    (idle : unitCount ≤ slot - last →
      (log.since (last + (slot - last) % unitCount - unitCount + 1)).sum = 0) :
    meter.Keeps unitCount slot log := by
  by_cases short : slot - last < unitCount
  · rw [Int.emod_eq_of_lt (by omega) short] at keeps
    rwa [add_sub_cancel] at keeps
  · have nothing := idle (not_lt.mp short)
    have long : (meter.counts.map MeterCount.bytes).length = unitCount := by
      rw [List.length_map, keeps.length]
    have zero := @Ring.eq_replicate _ _ _ _ keeps.ring 0 fun step after _ => by
      have part := sum_le_of_sublist (StepLog.inStep_sublist_since
        (show last + (slot - last) % unitCount - unitCount + 1 ≤ step by omega) log)
        (StepLog.since_sublist _ log) nonneg
      omega
    rw [long] at zero
    refine ⟨keeps.length, ?_, ?_⟩
    · rw [zero]
      intro step after upTo
      rw [ring_replicate positive (0 : Int) slot step after upTo]
      rw [List.length_replicate] at after
      have nothing := StepLog.inStep_eq_nil past (show last < step by omega)
      exact congrArg (fun part : List Int => some part.sum) nothing.symm
    · rw [keeps.recent, nothing, StepLog.since_eq_nil past (by omega)]
      rfl

theorem Keeps.add (keeps : meter.Keeps unitCount last log) (positive : 0 < unitCount)
    (nonneg : ∀ count ∈ log.values, 0 ≤ count) {count : Int} (least : 0 ≤ count)
    (fits : (log.since (last - unitCount + 1)).sum + count < 2 ^ 31)
    (updateTimes lastPosition totalBytes totalPackets : Int) :
    Keeps unitCount last (log ++ [(last, count)])
      ⟨meter.counts.set (ringPosition unitCount last)
        ((meter.counts.getD (ringPosition unitCount last) .clear).addPacket count), updateTimes,
        lastPosition, totalBytes, totalPackets, meter.recent.addPacket count⟩ := by
  have long : (meter.counts.map MeterCount.bytes).length = unitCount := by
    rw [List.length_map, keeps.length]
  have here : (meter.counts.map MeterCount.bytes)[ringPosition _ last]? =
      some (log.inStep last).sum := keeps.ring last (by omega) le_rfl
  have changed := @Ring.set _ _ _ (fun step =>
    (StepLog.inStep step (log ++ [(last, count)])).sum) _ keeps.ring last (by omega) le_rfl
    fun other _ _ apart => by
      rw [StepLog.inStep_snoc, if_neg apart, List.append_nil]
  have part := sum_le_of_sublist (StepLog.inStep_sublist_since
    (show last - (unitCount : Int) + 1 ≤ last by omega) log) (StepLog.since_sublist _ log) nonneg
  rw [long] at here changed
  refine ⟨(List.length_set ..).trans keeps.length, ?_, ?_⟩
  · rw [List.map_set]
    have value : ((meter.counts.getD (ringPosition unitCount last) .clear).addPacket count).bytes =
        (StepLog.inStep last (log ++ [(last, count)])).sum := by
      rw [MeterCount.addPacket, getD_bytes here, StepLog.inStep_snoc, if_pos rfl, List.sum_append,
        List.sum_singleton, toInt_of_small (by omega) (by omega)]
    rwa [value]
  · show toInt (meter.recent.bytes + count) = _
    rw [keeps.recent, StepLog.since_snoc, if_pos (by omega), List.sum_append, List.sum_singleton,
      toInt_of_small (by omega) (by omega)]

end SimpleFlowMeter

namespace MeterSession

open SimpleFlowMeter

/-- The meter is up to date with the log. -/
structure Tracks (unitCount : Nat) (session : MeterSession) (meter : SimpleFlowMeter) : Prop where
  there : session.meter = some meter
  keeps : meter.Keeps unitCount (slotOf session.elapsed) session.log
  position : meter.lastPosition = ringPosition unitCount (slotOf session.elapsed)
  elapsed : 0 ≤ session.elapsed
  past : ∀ entry ∈ session.log, entry.1 ≤ slotOf session.elapsed
  nonneg : ∀ count ∈ session.log.values, 0 ≤ count
  fits : (session.window unitCount).sum < 2 ^ 31

variable {unitCount : Nat} {session next : MeterSession} {event : TimedCall}
  {meter after : SimpleFlowMeter}

theorem tracks_start (positive : 0 < unitCount) :
    (start unitCount).Tracks unitCount (.create unitCount) where
  there := rfl
  keeps := SimpleFlowMeter.keeps_create positive
  position := rfl
  elapsed := le_rfl
  past := nofun
  nonneg := nofun
  fits := by
    show (0 : Int) < 2 ^ 31
    decide

theorem Tracks.windowed (tracks : session.Tracks unitCount meter) :
    session.Windowed unitCount := by
  rw [Windowed, tracks.there]
  exact congrArg some tracks.keeps.recent

theorem slotOf_mono {earlier later : Int} (before : earlier ≤ later) :
    slotOf earlier ≤ slotOf later := by
  rw [slotOf, slotOf]
  omega

/-- The meter after a call. -/
def meterAfter (meter : SimpleFlowMeter) (event : TimedCall) : Option SimpleFlowMeter :=
  match event.call with
  | .update => meter.update event.elapsed
  | .add count => meter.add event.elapsed count

/-- What a step does: the meter is called, and what is added is logged. -/
theorem step_cases (happens : session.step event = some next) :
    session.elapsed ≤ event.elapsed ∧ (∀ count ∈ added event, 0 ≤ count ∧ count < 2 ^ 31) ∧
      next = ⟨session.meter.bind (meterAfter · event), event.elapsed,
        session.log ++ (added event).map fun count => (slotOf event.elapsed, count)⟩ := by
  obtain ⟨elapsed, call⟩ := event
  rw [step, Option.bind_eq_bind, Option.bind_eq_some_iff] at happens
  obtain ⟨_, later, happens⟩ := happens
  refine ⟨(Option.guard_eq_some' _).mp later, ?_⟩
  cases call with
  | update =>
      refine ⟨nofun, (Option.some.inj happens).symm.trans ?_⟩
      rw [added, List.map_nil, List.append_nil]
      rfl
  | add count =>
      dsimp only at happens
      rw [Option.bind_eq_some_iff] at happens
      obtain ⟨_, range, happens⟩ := happens
      refine ⟨?_, (Option.some.inj happens).symm⟩
      intro other member
      rw [List.mem_singleton.mp member]
      exact (Option.guard_eq_some' _).mp range

/-- A call updates the meter, and an `add` adds to it then. -/
theorem meterAfter_cases (called : meterAfter meter event = some after) :
    ∃ updated, meter.update event.elapsed = some updated ∧
      (event.call = .update ∧ after = updated ∨
        ∃ count, event.call = .add count ∧ after = { updated with
          counts := updated.counts.set (meter.position event.elapsed).toNat
            ((updated.counts.getD (meter.position event.elapsed).toNat .clear).addPacket count)
          recent := updated.recent.addPacket count
          totalBytes := toInt64 (updated.totalBytes + count)
          totalPackets := toInt64 (updated.totalPackets + 1) }) := by
  obtain ⟨elapsed, call⟩ := event
  cases call with
  | update => exact ⟨after, called, .inl ⟨rfl, rfl⟩⟩
  | add count =>
      obtain ⟨_, -, called⟩ := Option.bind_eq_some_iff.mp called
      obtain ⟨updated, happens, called⟩ := Option.bind_eq_some_iff.mp called
      exact ⟨updated, happens, .inr ⟨count, rfl, (Option.some.inj called).symm⟩⟩

/-- What `update` leaves, at the time of an event whose slot fits in an `int`. -/
theorem Tracks.update {updated : SimpleFlowMeter} (tracks : session.Tracks unitCount meter)
    (positive : 0 < unitCount) (units : unitCount ≤ 2 ^ 30) (slot : slotOf event.elapsed < 2 ^ 31)
    (later : session.elapsed ≤ event.elapsed)
    (happens : meter.update event.elapsed = some updated) :
    updated.Keeps unitCount (slotOf session.elapsed +
        (slotOf event.elapsed - slotOf session.elapsed) % unitCount) session.log ∧
      updated.lastPosition = ringPosition unitCount (slotOf event.elapsed) :=
  tracks.keeps.update positive units tracks.position tracks.past tracks.nonneg tracks.fits
    (tracks.elapsed.trans later) slot happens

/-- The position at which an event adds. -/
theorem Tracks.position_eq (tracks : session.Tracks unitCount meter) (positive : 0 < unitCount)
    (units : unitCount ≤ 2 ^ 30) (slot : slotOf event.elapsed < 2 ^ 31)
    (later : session.elapsed ≤ event.elapsed) :
    (meter.position event.elapsed).toNat = ringPosition unitCount (slotOf event.elapsed) := by
  rw [SimpleFlowMeter.position_eq positive (by omega) tracks.keeps.length
    (tracks.elapsed.trans later) slot, Int.toNat_natCast]

/-- **A step that clears what it has to keeps the meter up to date**, if no assertion fails. -/
theorem Tracks.step (tracks : session.Tracks unitCount meter) (positive : 0 < unitCount)
    (clears : session.Clears unitCount event) (happens : session.step event = some next)
    (called : meterAfter meter event = some after) : next.Tracks unitCount after := by
  obtain ⟨later, range, rfl⟩ := step_cases happens
  obtain ⟨updated, calls, cases_⟩ := meterAfter_cases called
  have laterSlot := slotOf_mono later
  obtain ⟨moved, position⟩ := tracks.update positive clears.units clears.slot later calls
  have keeps := moved.jump positive laterSlot tracks.past tracks.nonneg clears.idle
  have past : ∀ entry ∈ session.log, entry.1 ≤ slotOf event.elapsed := fun entry member =>
    (tracks.past entry member).trans laterSlot
  have fits := clears.fits
  have there : session.meter.bind (meterAfter · event) = some after := by
    rw [tracks.there, Option.bind_some, called]
  rcases cases_ with ⟨call, rfl⟩ | ⟨count, call, rfl⟩
  · rw [added, call] at fits
    have nothing : added event = [] := by rw [added, call]
    rw [nothing, List.map_nil, List.append_nil]
    rw [List.sum_nil, Int.add_zero] at fits
    exact ⟨there, keeps, position, tracks.elapsed.trans later, past, tracks.nonneg, fits⟩
  · have one : added event = [count] := by rw [added, call]
    have least : 0 ≤ count := (range count (by rw [one]; exact List.mem_singleton_self _)).1
    rw [one, List.sum_singleton] at fits
    rw [one]
    refine ⟨there, ?_, position, tracks.elapsed.trans later, ?_, ?_, ?_⟩
    · have added := keeps.add positive tracks.nonneg least fits
      rw [tracks.position_eq positive clears.units clears.slot later]
      exact added _ _ _ _
    · intro entry member
      rcases List.mem_append.mp member with before | new
      · exact past entry before
      · rw [List.mem_singleton.mp new]
    · intro value member
      rw [StepLog.values, List.map_append] at member
      rcases List.mem_append.mp member with before | new
      · exact tracks.nonneg value before
      · rw [List.mem_singleton.mp new]
        exact least
    · show (StepLog.since (slotOf event.elapsed - unitCount + 1) (_ ++ _)).sum < _
      rw [List.map_singleton, StepLog.since_snoc, if_pos (by omega), List.sum_append,
        List.sum_singleton]
      exact fits

/-- **No assertion fails**, while the packets fit. -/
theorem Tracks.called (tracks : session.Tracks unitCount meter) (counted : meter.Counted)
    (positive : 0 < unitCount) (clears : session.Clears unitCount event)
    (few : session.FewPackets event) (happens : session.step event = some next) :
    ∃ after, meterAfter meter event = some after ∧ after.Counted := by
  obtain ⟨later, least, -⟩ := step_cases happens
  obtain ⟨updated, calls, countedNext, fewer⟩ := counted.update tracks.keeps positive clears.units
    tracks.position tracks.past tracks.nonneg tracks.fits (tracks.elapsed.trans later) clears.slot
  have at_ := tracks.position_eq positive clears.units clears.slot later
  obtain ⟨moved, -⟩ := tracks.update positive clears.units clears.slot later calls
  obtain ⟨elapsed, call⟩ := event
  cases call with
  | update => exact ⟨updated, calls, countedNext⟩
  | add count =>
      have inside : (meter.position elapsed).toNat < updated.counts.length := by
        rw [at_, moved.length]
        exact ringPosition_lt positive _
      have small : meter.recent.packets + 1 < 2 ^ 31 := few meter tracks.there
      have room : updated.recent.packets + 1 < 2 ^ 31 := by omega
      have asserted : count ≥ 0 := (least count (List.mem_singleton_self _)).1
      have called : meter.add elapsed count = some { updated with
          counts := updated.counts.set (meter.position elapsed).toNat
            ((updated.counts.getD (meter.position elapsed).toNat .clear).addPacket count)
          recent := updated.recent.addPacket count
          totalBytes := toInt64 (updated.totalBytes + count)
          totalPackets := toInt64 (updated.totalPackets + 1) } := by
        rw [SimpleFlowMeter.add, guard, if_pos asserted, calls]
        rfl
      exact ⟨_, called, countedNext.add inside room count _ _ _ _⟩

/-- **A step that does not clear what it has to leaves another number of recent bytes**, or fails
an assertion. -/
theorem Tracks.not_windowed (tracks : session.Tracks unitCount meter) (positive : 0 < unitCount)
    (units : unitCount ≤ 2 ^ 30) (slot : slotOf event.elapsed < 2 ^ 31)
    (misses : ¬ session.Clears unitCount event) (happens : session.step event = some next) :
    ¬ next.Windowed unitCount := by
  intro windowed
  obtain ⟨later, range, rfl⟩ := step_cases happens
  rw [Windowed, Option.map_eq_some_iff] at windowed
  obtain ⟨after, called, windowed⟩ := windowed
  rw [tracks.there, Option.bind_some] at called
  obtain ⟨updated, calls, cases_⟩ := meterAfter_cases called
  have laterSlot := slotOf_mono later
  obtain ⟨moved, -⟩ := tracks.update positive units slot later calls
  have rest := sum_le_of_sublist (StepLog.since_sublist_since
    (show slotOf session.elapsed - (unitCount : Int) + 1 ≤ slotOf event.elapsed - unitCount + 1 by
      omega) session.log) (StepLog.since_sublist _ session.log) tracks.nonneg
  have kept := sum_le_of_sublist (StepLog.since_sublist_since
    (show slotOf session.elapsed - (unitCount : Int) + 1 ≤ slotOf session.elapsed +
      (slotOf event.elapsed - slotOf session.elapsed) % unitCount - unitCount + 1 by
        have := Int.emod_nonneg (slotOf event.elapsed - slotOf session.elapsed)
          (Int.natCast_pos.mpr positive).ne'
        omega) session.log) (StepLog.since_sublist _ session.log) tracks.nonneg
  have fits := tracks.fits
  have recent := moved.recent
  rw [window] at fits
  by_cases idle : unitCount ≤ slotOf event.elapsed - slotOf session.elapsed →
      (session.log.since (slotOf session.elapsed +
        (slotOf event.elapsed - slotOf session.elapsed) % unitCount - unitCount + 1)).sum = 0
  · have overflow : 2 ^ 31 ≤
        (session.log.since (slotOf event.elapsed - unitCount + 1)).sum + (added event).sum := by
      by_contra below
      exact misses ⟨units, slot, idle, not_le.mp below⟩
    rcases cases_ with ⟨call, rfl⟩ | ⟨count, call, rfl⟩
    · rw [added, call, List.sum_nil] at overflow
      omega
    · have one : added event = [count] := by rw [added, call]
      rw [one, List.sum_singleton] at overflow
      have shown : toInt (updated.recent.bytes + count) =
          (StepLog.since (slotOf event.elapsed - unitCount + 1) (_ ++ _)).sum := windowed
      rw [one, List.map_singleton, StepLog.since_snoc, if_pos (by omega), List.sum_append,
        List.sum_singleton] at shown
      have small := toInt_lt (updated.recent.bytes + count)
      omega
  · rw [Classical.not_imp] at idle
    obtain ⟨long, left⟩ := idle
    have gone := StepLog.since_eq_nil tracks.past
      (show slotOf session.elapsed < slotOf event.elapsed - unitCount + 1 by omega)
    rcases cases_ with ⟨call, rfl⟩ | ⟨count, call, rfl⟩
    · have nothing : added event = [] := by rw [added, call]
      have shown : after.recent.bytes =
          (StepLog.since (slotOf event.elapsed - unitCount + 1) (_ ++ _)).sum := windowed
      rw [nothing, List.map_nil, List.append_nil, gone, List.sum_nil] at shown
      omega
    · have one : added event = [count] := by rw [added, call]
      obtain ⟨least, small⟩ := range count (by rw [one]; exact List.mem_singleton_self _)
      have shown : toInt (updated.recent.bytes + count) =
          (StepLog.since (slotOf event.elapsed - unitCount + 1) (_ ++ _)).sum := windowed
      rw [one, List.map_singleton, StepLog.since_snoc, gone, if_pos (by omega), List.nil_append,
        List.sum_singleton, recent, toInt, Int.bmod_def] at shown
      omega

/-- **The window of `simple_flow_meter`.**  In a run whose calls all clear what they have to,
and whose packets fit, no assertion fails and the recent bytes are those of the window after
every call.  While the numbers of the slots are in range, they are in no run with a call that
does not clear what it has to. -/
theorem simple_flow_meter_window (positive : 0 < unitCount) (events : List TimedCall) :
    (Guarded step (fun session event => session.Clears unitCount event ∧ session.FewPackets event)
        (start unitCount) events →
      Throughout step (Windowed unitCount) (start unitCount) events) ∧
    (unitCount ≤ 2 ^ 30 → (∀ event ∈ events, slotOf event.elapsed < 2 ^ 31) →
      Throughout step (Windowed unitCount) (start unitCount) events →
        Guarded step (Clears unitCount) (start unitCount) events) := by
  constructor
  · intro guarded
    have kept := @throughout_of_guarded _ _ step
      (fun session => ∃ meter, session.Tracks unitCount meter ∧ meter.Counted) _
      (fun session event next => by
        rintro ⟨meter, tracks, counted⟩ ⟨clears, few⟩ happens
        obtain ⟨after, called, countedNext⟩ := tracks.called counted positive clears few happens
        exact ⟨after, tracks.step positive clears happens called, countedNext⟩)
      _ _ ⟨_, tracks_start positive, counted_create⟩ guarded
    exact kept.imp fun _ ⟨_, tracks, _⟩ => tracks.windowed
  · intro units slots throughout
    refine @guarded_of_throughout _ _ step
      (fun session => ∀ meter ∈ session.meter, session.Tracks unitCount meter) _ _ _ ?_ ?_ _ _
      (fun meter there => ?_) slots throughout
    · intro session event next tracks clears happens after there
      obtain ⟨-, -, rfl⟩ := step_cases happens
      obtain ⟨meter, here, called⟩ := Option.bind_eq_some_iff.mp there
      exact (tracks meter here).step positive clears happens called
    · intro session event next tracks slot misses happens
      cases here : session.meter with
      | some meter => exact (tracks meter here).not_windowed positive units slot misses happens
      | none =>
          obtain ⟨-, -, rfl⟩ := step_cases happens
          rw [Windowed, here]
          exact Option.some_ne_none _ ∘ Eq.symm
    · cases there
      exact tracks_start positive

/-- Two slots, and a gap of one. -/
theorem simple_flow_meter_window_two :
    Throughout step (Windowed 2) (start 2) [⟨1000, .add 5⟩, ⟨2000, .update⟩] := by
  refine (@simple_flow_meter_window 2 (by decide) [⟨1000, .add 5⟩, ⟨2000, .update⟩]).1 ?_
  refine Guarded.cons rfl ⟨⟨by decide, by decide +kernel, by decide +kernel, by decide +kernel⟩,
    by decide +kernel⟩ ?_
  exact .cons rfl ⟨⟨by decide, by decide +kernel, by decide +kernel, by decide +kernel⟩,
    by decide +kernel⟩ trivial

/-- After an idle gap of two slots the position of the clock is the old one. -/
theorem idle_gap_keeps_bytes :
    ¬ ∀ events, Throughout step (Windowed 2) (start 2) events := by
  intro throughout
  have all := throughout [⟨1000, .add 5⟩, ⟨3000, .update⟩]
  have windowed := ((all.2 _ rfl).2 _ rfl).head
  exact absurd windowed (by decide +kernel)

end MeterSession

end Xul
