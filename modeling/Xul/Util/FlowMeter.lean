import Xul.Foundation.SlidingWindow
import Xul.Std.Bytes

/-!
# Flow meters

`flow_meter` keeps a running count beside a ring of counts, and moves the ring on when
`update` is called.  Its running count is that of the open period and of the last completed
ones (`flow_meter_window`).
-/

set_option autoImplicit false

namespace Xul

open Foundation

/-- `flow_meter::meter_count`. -/
@[ext]
structure MeterCount where
  bytes : Int
  packets : Int
deriving DecidableEq

namespace MeterCount

def clear : MeterCount := ⟨0, 0⟩

/-- `operator+=`. -/
def add (count x : MeterCount) : MeterCount :=
  ⟨toInt (count.bytes + x.bytes), toInt (count.packets + x.packets)⟩

/-- `operator-=`. -/
def sub (count x : MeterCount) : MeterCount :=
  ⟨toInt (count.bytes - x.bytes), toInt (count.packets - x.packets)⟩

/-- `bytes += count; ++packets`. -/
def addPacket (count : MeterCount) (bytes : Int) : MeterCount :=
  ⟨toInt (count.bytes + bytes), toInt (count.packets + 1)⟩

/-- The count of some packets. -/
def of (packets : List Int) : MeterCount := ⟨packets.sum, packets.length⟩

theorem of_snoc {packets : List Int} {bytes : Int} (nonneg : 0 ≤ (packets ++ [bytes]).sum)
    (fits : (packets ++ [bytes]).sum < 2 ^ 31) (few : packets.length + 1 < 2 ^ 31) :
    (of packets).addPacket bytes = of (packets ++ [bytes]) := by
  rw [List.sum_append, List.sum_singleton] at nonneg fits
  have bytes : toInt (packets.sum + bytes) = packets.sum + bytes :=
    toInt_of_small (by omega) fits
  have count : toInt (packets.length + 1) = packets.length + 1 :=
    toInt_of_small (by omega) (by omega)
  simp [of, addPacket, bytes, count]

theorem of_sub {packets first rest : List Int} (split : packets.Perm (first ++ rest))
    (nonneg : 0 ≤ rest.sum) (fits : rest.sum < 2 ^ 31) (few : rest.length < 2 ^ 31) :
    (of packets).sub (of first) = of rest := by
  have bytes : packets.sum - first.sum = rest.sum := by
    rw [split.sum_eq, List.sum_append]
    omega
  have count : (packets.length : Int) - first.length = rest.length := by
    rw [split.length_eq, List.length_append]
    omega
  rw [of, of, sub, of, bytes, count, toInt_of_small (by omega) fits,
    toInt_of_small (by omega) (by omega)]

end MeterCount

/-! ## The meter that is updated -/

structure FlowMeter where
  counts : List MeterCount
  updateTimes : Int
  totalBytes : Int
  totalPackets : Int
  recent : MeterCount
  latest : MeterCount

namespace FlowMeter

/-- The meter of `unit_count` periods, cleared. -/
def create (unitCount : Nat) : FlowMeter where
  counts := List.replicate unitCount .clear
  updateTimes := 0
  totalBytes := 0
  totalPackets := 0
  recent := .clear
  latest := .clear

def add (meter : FlowMeter) (count : Int) : Option FlowMeter := do
  guard (count ≥ 0)
  return { meter with
    latest := meter.latest.addPacket count
    recent := meter.recent.addPacket count
    totalBytes := toInt64 (meter.totalBytes + count)
    totalPackets := toInt64 (meter.totalPackets + 1) }

/-- `update` has no result where one of its assertions fails. -/
def update (meter : FlowMeter) : Option FlowMeter := do
  let position := toInt (toSizeT meter.updateTimes % meter.counts.length)
  guard (meter.recent.bytes ≥ 0)
  guard (meter.recent.packets ≥ 0)
  let recent := meter.recent.sub (← meter.counts[position.toNat]?)
  guard (recent.bytes ≥ 0)
  guard (recent.packets ≥ 0)
  return { meter with
    recent
    counts := meter.counts.set position.toNat meter.latest
    latest := .clear
    updateTimes := toInt (meter.updateTimes + 1) }

end FlowMeter

inductive FlowCall
  | add (count : Int)
  | update

namespace FlowCall

def apply (meter : FlowMeter) : FlowCall → Option FlowMeter
  | add count => meter.add count
  | update => meter.update

/-- How many periods the calls complete. -/
def periods (calls : List FlowCall) : Nat :=
  calls.countP fun | update => true | add _ => false

/-- Every add of the calls, with the number of periods completed before it. -/
def adds : Nat → List FlowCall → StepLog Int
  | _, [] => []
  | period, add count :: calls => (period, count) :: adds period calls
  | period, update :: calls => adds (period + 1) calls

theorem adds_append (period : Nat) (calls more : List FlowCall) :
    adds period (calls ++ more) = adds period calls ++ adds (period + periods calls) more := by
  induction calls generalizing period with
  | nil => rfl
  | cons call calls ih =>
      cases call with
      | add first => exact congrArg (_ :: ·) (ih period)
      | update =>
          rw [List.cons_append, adds, ih, adds, periods, periods, List.countP_cons_of_pos rfl]
          simp only [Nat.add_assoc, Nat.add_comm 1]

theorem adds_snoc_add (period : Nat) (calls : List FlowCall) (count : Int) :
    adds period (calls ++ [add count]) =
      adds period calls ++ [(((period + periods calls : Nat) : Int), count)] :=
  adds_append period calls [add count]

theorem adds_snoc_update (period : Nat) (calls : List FlowCall) :
    adds period (calls ++ [update]) = adds period calls := by
  rw [adds_append]
  exact List.append_nil _

end FlowCall

namespace FlowMeter

/-- What the meter has after some periods and the adds of a log. -/
structure Keeps (unitCount period : Nat) (log : StepLog Int) (meter : FlowMeter) : Prop where
  length : meter.counts.length = unitCount
  ring : Ring meter.counts (fun step => .of (log.inStep step)) (period - 1)
  latest : meter.latest = .of (log.inStep period)
  recent : meter.recent = .of (log.since (period - unitCount))
  updateTimes : meter.updateTimes = period
  totalBytes : meter.totalBytes = log.values.sum
  totalPackets : meter.totalPackets = log.values.length
  past : ∀ entry ∈ log, entry.1 ≤ period

/-- The counts of a log that are not negative, and whose sum and number are in range. -/
structure Counted (log : StepLog Int) : Prop where
  nonneg : ∀ count ∈ log.values, 0 ≤ count
  bytes : log.values.sum < 2 ^ 31
  packets : log.values.length < 2 ^ 31

theorem Counted.init {log : StepLog Int} {last : Int × Int} (counted : Counted (log ++ [last])) :
    Counted log := by
  have values : StepLog.values (log ++ [last]) = log.values ++ [last.2] := List.map_append
  obtain ⟨nonneg, bytes, packets⟩ := counted
  rw [values] at nonneg bytes packets
  have least := nonneg last.2 (by simp)
  rw [List.sum_append, List.sum_singleton] at bytes
  rw [List.length_append, List.length_singleton] at packets
  exact ⟨fun count member => nonneg count (List.mem_append_left _ member), by omega, by omega⟩

/-- So are those of a part of it. -/
theorem Counted.part {log : StepLog Int} (counted : Counted log) {part : List Int}
    (sub : part.Sublist log.values) :
    0 ≤ part.sum ∧ part.sum < 2 ^ 31 ∧ part.length < 2 ^ 31 := by
  have nonneg : ∀ count ∈ part, 0 ≤ count := fun count member =>
    counted.nonneg count (sub.subset member)
  refine ⟨List.sum_nonneg nonneg, ?_, ?_⟩
  · exact (sub.sum_le_sum counted.nonneg).trans_lt counted.bytes
  · exact sub.length_le.trans_lt counted.packets

variable {unitCount period : Nat} {log : StepLog Int} {meter : FlowMeter}

theorem keeps_create (positive : 0 < unitCount) : (create unitCount).Keeps unitCount 0 [] where
  length := List.length_replicate
  ring := ring_replicate positive _ _
  latest := rfl
  recent := rfl
  updateTimes := rfl
  totalBytes := rfl
  totalPackets := rfl
  past := nofun

theorem Keeps.add (keeps : meter.Keeps unitCount period log) {count : Int}
    (counted : Counted (log ++ [((period : Int), count)])) :
    ∃ after, meter.add count = some after ∧
      after.Keeps unitCount period (log ++ [((period : Int), count)]) := by
  have values : StepLog.values (log ++ [((period : Int), count)]) = log.values ++ [count] :=
    List.map_append
  have nonneg : 0 ≤ count := counted.nonneg count (by simp [values])
  have latest := StepLog.inStep_snoc period period log count
  have recent := StepLog.since_snoc (period - unitCount) period log count
  rw [if_pos rfl] at latest
  rw [if_pos (by omega)] at recent
  have sizes := counted.part (.refl _)
  have latestPart := counted.part (StepLog.inStep_sublist period _)
  have recentPart := counted.part (StepLog.since_sublist (period - unitCount) _)
  rw [values, List.sum_append, List.sum_singleton, List.length_append,
    List.length_singleton] at sizes
  rw [latest] at latestPart
  rw [recent] at recentPart
  refine ⟨{ meter with
    latest := meter.latest.addPacket count
    recent := meter.recent.addPacket count
    totalBytes := toInt64 (meter.totalBytes + count)
    totalPackets := toInt64 (meter.totalPackets + 1) }, ?_, keeps.length, ?_, ?_, ?_,
    keeps.updateTimes, ?_, ?_, ?_⟩
  · simp [FlowMeter.add, guard, nonneg]
  · intro step after upTo
    have other := StepLog.inStep_snoc step period log count
    rw [if_neg (by omega), List.append_nil] at other
    exact (keeps.ring step after upTo).trans
      (congrArg (fun part => some (MeterCount.of part)) other.symm)
  · rw [latest, keeps.latest]
    exact MeterCount.of_snoc latestPart.1 latestPart.2.1 (by simpa using latestPart.2.2)
  · rw [recent, keeps.recent]
    exact MeterCount.of_snoc recentPart.1 recentPart.2.1 (by simpa using recentPart.2.2)
  · rw [values, List.sum_append, List.sum_singleton, keeps.totalBytes]
    exact toInt64_of_small (by omega) (by omega)
  · rw [values, List.length_append, List.length_singleton, Nat.cast_succ]
    show toInt64 (meter.totalPackets + 1) = _
    rw [keeps.totalPackets, toInt64_of_small (by omega) (by omega)]
  · intro entry member
    rcases List.mem_append.mp member with before | new
    · exact keeps.past entry before
    · rw [List.mem_singleton.mp new]

/-- **An update moves the ring on.**  The slot that it takes from the running count is that of
the period which leaves the window. -/
theorem Keeps.update (keeps : meter.Keeps unitCount period log) (positive : 0 < unitCount)
    (few : unitCount < 2 ^ 31) (counted : Counted log) (more : period + 1 < 2 ^ 31) :
    ∃ after, meter.update = some after ∧ after.Keeps unitCount (period + 1 : Nat) log := by
  have inRing := ringPosition_lt positive period
  have position : (toInt (toSizeT meter.updateTimes % meter.counts.length)).toNat =
      ringPosition unitCount period := by
    have least := Int.emod_nonneg (period : Int) (Int.natCast_pos.mpr positive).ne'
    rw [keeps.updateTimes, keeps.length, toSizeT_of_nonneg (by omega) (by omega)]
    rw [ringPosition] at inRing ⊢
    rw [toInt_of_small (by omega) (by omega)]
  have next : (period : Int) - 1 + 1 = period := by omega
  have leaving := keeps.ring.leaving (keeps.length.symm ▸ positive)
  rw [next, keeps.length] at leaving
  have split := StepLog.since_perm (period - unitCount) log
  have rest := counted.part (StepLog.since_sublist (period - unitCount + 1) log)
  have whole := counted.part (StepLog.since_sublist (period - unitCount) log)
  have moved := MeterCount.of_sub split rest.1 rest.2.1 rest.2.2
  have window : ((period + 1 : Nat) : Int) - unitCount = period - unitCount + 1 := by omega
  refine ⟨{ meter with
    recent := .of (log.since (period - unitCount + 1))
    counts := meter.counts.set (ringPosition unitCount period) meter.latest
    latest := .clear
    updateTimes := toInt (meter.updateTimes + 1) }, ?_, ?_⟩
  · have before : (MeterCount.of (log.since (period - unitCount))).bytes ≥ 0 := whole.1
    have after : (MeterCount.of (log.since (period - unitCount + 1))).bytes ≥ 0 := rest.1
    have packets : ∀ part, (MeterCount.of part).packets ≥ 0 := fun part =>
      Int.natCast_nonneg part.length
    simp [FlowMeter.update, position, leaving, keeps.recent, moved, guard, before, after, packets]
  · refine ⟨(List.length_set ..).trans keeps.length, ?_, ?_, ?_, ?_, keeps.totalBytes,
      keeps.totalPackets, ?_⟩
    · have advanced := keeps.ring.advance (keeps.length.symm ▸ positive) (fun _ _ _ => rfl)
      rw [next, keeps.length, ← keeps.latest] at advanced
      rwa [Nat.cast_succ, Int.add_sub_cancel]
    · rw [StepLog.inStep_eq_nil keeps.past (by omega)]
      rfl
    · rw [window]
    · show toInt (meter.updateTimes + 1) = _
      rw [keeps.updateTimes, toInt_of_small (by omega) (by omega)]
      rfl
    · intro entry member
      have before := keeps.past entry member
      omega

end FlowMeter

namespace FlowCall

/-- The meter after some calls, if no assertion fails. -/
def run (unitCount : Nat) (calls : List FlowCall) : Option FlowMeter :=
  calls.foldlM apply (FlowMeter.create unitCount)

variable {unitCount : Nat} {calls : List FlowCall}

/-- The meter keeps the log of its calls. -/
theorem keeps_run (positive : 0 < unitCount) (few : unitCount < 2 ^ 31)
    (counted : FlowMeter.Counted (adds 0 calls)) (updates : periods calls < 2 ^ 31) :
    ∃ meter, run unitCount calls = some meter ∧
      meter.Keeps unitCount (periods calls) (adds 0 calls) := by
  induction calls using List.reverseRecOn with
  | nil => exact ⟨_, rfl, FlowMeter.keeps_create positive⟩
  | append_singleton calls call ih =>
      cases call with
      | add count =>
          have same : periods (calls ++ [add count]) = periods calls := by
            simp [periods]
          rw [adds_snoc_add, Nat.zero_add] at counted ⊢
          rw [same] at updates ⊢
          obtain ⟨meter, reached, keeps⟩ := ih counted.init updates
          obtain ⟨after, happens, kept⟩ := keeps.add counted
          refine ⟨after, ?_, kept⟩
          rw [run, List.foldlM_append, ← run, reached]
          simpa [apply] using happens
      | update =>
          have more : periods (calls ++ [update]) = periods calls + 1 := by
            simp [periods]
          rw [adds_snoc_update] at counted ⊢
          rw [more] at updates ⊢
          obtain ⟨meter, reached, keeps⟩ := ih counted (by omega)
          obtain ⟨after, happens, kept⟩ := keeps.update positive few counted updates
          refine ⟨after, ?_, kept⟩
          rw [run, List.foldlM_append, ← run, reached]
          simpa [apply] using happens

/-- **The window of `flow_meter`.**  If the bytes, the packets and the updates fit in an
`int`, no assertion fails, and the recent counts are those of the adds since the last update
and in the last completed periods, of which there are as many as units. -/
theorem flow_meter_window (positive : 0 < unitCount) (few : unitCount < 2 ^ 31)
    (counted : FlowMeter.Counted (adds 0 calls)) (updates : periods calls < 2 ^ 31) :
    ∃ meter, run unitCount calls = some meter ∧
      meter.recent.bytes = ((adds 0 calls).since (periods calls - unitCount)).sum ∧
      meter.recent.packets = ((adds 0 calls).since (periods calls - unitCount)).length ∧
      meter.totalBytes = (adds 0 calls).values.sum := by
  obtain ⟨meter, reached, keeps⟩ := keeps_run positive few counted updates
  exact ⟨meter, reached, congrArg MeterCount.bytes keeps.recent,
    congrArg MeterCount.packets keeps.recent, keeps.totalBytes⟩

/-- Two units, and four periods. -/
theorem flow_meter_window_two :
    ∃ meter, run 2 [.add 1, .update, .add 2, .update, .add 4, .update, .add 8] = some meter ∧
      meter.recent = ⟨14, 3⟩ ∧ meter.totalBytes = 15 := by
  obtain ⟨meter, reached, bytes, packets, total⟩ := @flow_meter_window 2
    [.add 1, .update, .add 2, .update, .add 4, .update, .add 8] (by decide) (by decide)
    ⟨by decide, by decide, by decide⟩ (by decide)
  exact ⟨meter, reached, MeterCount.ext (bytes.trans rfl) (packets.trans rfl), total⟩

end FlowCall

end Xul
