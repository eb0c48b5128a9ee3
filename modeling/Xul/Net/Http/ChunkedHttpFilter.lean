import Xul.Foundation.ChunkedCoding
import Xul.Net.Http.HttpMessage

/-!
# The chunked filter

`chunked_http_filter` decodes a chunked body and calls the next filter.  It does not
look at what these calls return, so its decoding is a function of its own state and
the bytes it is given, and yields the calls it makes.

The filter keeps nothing of the bytes it has not decoded when a call ends.  What it
does keep is the phase of a byte-by-byte reader, except inside a size line, of which
it forgets the beginning (`remember`), and inside a line end, where it loses its
place.  `process_tracks` is the simulation: from a phase that is kept, a call delivers
the payload that the reader reads.
-/

set_option autoImplicit false

namespace Xul

open Foundation

/-- `chunked_http_filter`.  `fault` records that a call computed a sum outside the
range of `int`, or read outside the bytes it was given. -/
structure ChunkedHttpFilter where
  contentLength : Int
  receivedSize : Int
  lastChunkSize : Int
  currentChunkSize : Int
  receivedChunkSize : Int
  fault : Bool
deriving DecidableEq

/-- A call of the next filter. -/
inductive NextCall where
  | process (data : Bytes)
  | finish (data : Bytes)
deriving DecidableEq

namespace ChunkedHttpFilter

/-- `reset_state`. -/
def resetState (filter : ChunkedHttpFilter) : ChunkedHttpFilter :=
  { filter with
    contentLength := -1
    receivedSize := 0
    lastChunkSize := -1
    currentChunkSize := -1
    receivedChunkSize := 0 }

def create : ChunkedHttpFilter := resetState ⟨-1, 0, -1, -1, 0, false⟩

/-- What a call of a `decode_` function returns, leaves behind and calls. -/
structure Decoded where
  ret : Int
  filter : ChunkedHttpFilter
  calls : List NextCall

def decodeChunkData (filter : ChunkedHttpFilter) (data : Bytes) : Decoded :=
  let size : Int := data.length
  let remainingSize := toInt (filter.currentChunkSize - filter.receivedChunkSize)
  if 2 ^ 31 ≤ remainingSize + 2 then ⟨0, { filter with fault := true }, []⟩
  else if remainingSize + 2 ≤ size then
    if remainingSize < 0 then ⟨0, { filter with fault := true }, []⟩
    else if data[remainingSize.toNat]? ≠ some 13 ∨ data[remainingSize.toNat + 1]? ≠ some 10 then
      ⟨-1, filter, []⟩
    else
      ⟨remainingSize + 2,
        { filter with
          lastChunkSize := filter.currentChunkSize
          currentChunkSize := -1
          receivedChunkSize := 0 },
        [.process (data.take remainingSize.toNat)]⟩
  else if size < remainingSize then
    ⟨size, { filter with receivedChunkSize := filter.receivedChunkSize + size }, [.process data]⟩
  else ⟨0, filter, []⟩

/-- The next filter is finished at an empty line; anything else before the next empty
line is skipped by as much as follows that line. -/
def decodeChunkTrailer (filter : ChunkedHttpFilter) (data : Bytes) : Decoded :=
  if data.length < 2 then ⟨0, filter, []⟩
  else if data[0]? = some 13 ∧ data[1]? = some 10 then ⟨2, filter, [.finish []]⟩
  else
    let pos := (search data [13, 10, 13, 10]).getD data.length
    ⟨(data.length : Int) - pos, filter, [.process []]⟩

/-- The size line lies within the size of the data, which is an `int`. -/
def decodeChunkStart (filter : ChunkedHttpFilter) (data : Bytes) : Decoded :=
  match search data crlf with
  | none => ⟨0, filter, []⟩
  | some pos =>
      match scanHexInt64 (cStr (data.take pos)) with
      | none => ⟨-1, filter, []⟩
      | some chunksize => ⟨(pos : Int) + 2, { filter with currentChunkSize := chunksize }, []⟩

def decodeOnce (filter : ChunkedHttpFilter) (data : Bytes) : Decoded :=
  if filter.currentChunkSize = 0 then filter.decodeChunkTrailer data
  else if 0 < filter.currentChunkSize then filter.decodeChunkData data
  else filter.decodeChunkStart data

/-- The loop of `process`. -/
def processLoop : Nat → ChunkedHttpFilter → Bytes → ChunkedHttpFilter × List NextCall
  | 0, filter, _ => (filter, [])
  | fuel + 1, filter, data =>
      if data = [] then (filter, [])
      else
        let decoded := filter.decodeOnce data
        if decoded.ret ≤ 0 then (decoded.filter, decoded.calls)
        else
          let later := processLoop fuel
            { decoded.filter with receivedSize := decoded.filter.receivedSize + decoded.ret }
            (data.drop decoded.ret.toNat)
          (later.1, decoded.calls ++ later.2)

/-- `process`: every turn of its loop takes a byte at least. -/
def process (filter : ChunkedHttpFilter) (data : Bytes) : ChunkedHttpFilter × List NextCall :=
  processLoop data.length filter data

/-- Segments that are fed one after another. -/
def processAll (filter : ChunkedHttpFilter) : List Bytes → ChunkedHttpFilter × List NextCall
  | [] => (filter, [])
  | segment :: segments =>
      let first := filter.process segment
      let later := processAll first.1 segments
      (later.1, first.2 ++ later.2)

/-! ## The loop -/

theorem processLoop_of_le {fuel : Nat} {data : Bytes} (enough : data.length ≤ fuel)
    (filter : ChunkedHttpFilter) :
    processLoop fuel filter data = processLoop data.length filter data := by
  induction fuel using Nat.strong_induction_on generalizing filter data with
  | _ fuel ih =>
      cases data with
      | nil => cases fuel <;> rfl
      | cons byte rest =>
          obtain ⟨fuel, rfl⟩ : ∃ previous, fuel = previous + 1 :=
            ⟨fuel - 1, by rw [List.length_cons] at enough; omega⟩
          rw [List.length_cons] at enough
          simp only [List.length_cons, processLoop, List.cons_ne_nil, if_false]
          split
          · rfl
          · next positive =>
              have shorter : ((byte :: rest).drop
                  (filter.decodeOnce (byte :: rest)).ret.toNat).length ≤ rest.length := by
                rw [List.length_drop, List.length_cons]
                omega
              rw [ih fuel (Nat.lt_succ_self _) (shorter.trans (by omega)),
                ih rest.length (by omega) shorter]

@[simp] theorem process_nil (filter : ChunkedHttpFilter) : filter.process [] = (filter, []) := rfl

/-- One turn of the loop that stops. -/
theorem process_of_stop {filter : ChunkedHttpFilter} {data : Bytes} (nonempty : data ≠ [])
    (stops : (filter.decodeOnce data).ret ≤ 0) :
    filter.process data = ((filter.decodeOnce data).filter, (filter.decodeOnce data).calls) := by
  obtain ⟨byte, rest, rfl⟩ := List.exists_cons_of_ne_nil nonempty
  simp only [process, List.length_cons, processLoop, List.cons_ne_nil, if_false, if_pos stops]

/-- One turn of the loop that goes on. -/
theorem process_of_turn {filter after : ChunkedHttpFilter} {data : Bytes} {ret : Int}
    {calls : List NextCall} (turn : filter.decodeOnce data = ⟨ret, after, calls⟩)
    (positive : 0 < ret) (inside : ret ≤ data.length) :
    filter.process data =
      (({ after with receivedSize := after.receivedSize + ret }.process
          (data.drop ret.toNat)).1,
        calls ++ ({ after with receivedSize := after.receivedSize + ret }.process
          (data.drop ret.toNat)).2) := by
  obtain ⟨byte, rest, rfl⟩ := List.exists_cons_of_ne_nil
    (show data ≠ [] by rintro rfl; simp at inside; omega)
  have shorter : ((byte :: rest).drop ret.toNat).length ≤ rest.length := by
    rw [List.length_drop, List.length_cons]
    omega
  simp only [process, List.length_cons, processLoop, List.cons_ne_nil, if_false, turn,
    if_neg (not_le_of_gt positive), processLoop_of_le shorter]

/-! ## The filter and the byte-by-byte reader -/

/-- The size of a chunk as the filter reads its line, as long as the sums it makes of
the size stay in the range of `int`. -/
def chunkSize (line : Bytes) : Option Nat :=
  match scanHexInt64 (cStr line) with
  | none => none
  | some chunksize => if 0 ≤ chunksize ∧ chunksize + 2 < 2 ^ 31 then some chunksize.toNat else none

/-- What a filter keeps of a reader's phase from one call to the next. -/
def remember : Chunked.Phase → Option Chunked.Phase
  | .line _ => some (.line [])
  | .data left => some (.data left)
  | .trailer => some .trailer
  | .terminated => some .terminated
  | .dataEnd | .dataEndCr | .trailerCr | .malformed => none

/-- The filter is where the reader is. -/
def Tracks (filter : ChunkedHttpFilter) : Chunked.Phase → Prop
  | .line text =>
      text = [] ∧ filter.currentChunkSize < 0 ∧ filter.receivedChunkSize = 0 ∧
        filter.fault = false
  | .data left =>
      0 < left ∧ 0 ≤ filter.receivedChunkSize ∧
        filter.currentChunkSize = filter.receivedChunkSize + left ∧
        filter.currentChunkSize + 2 < 2 ^ 31 ∧ filter.fault = false
  | .trailer => filter.currentChunkSize = 0 ∧ filter.fault = false
  | .terminated => filter.currentChunkSize = 0 ∧ filter.fault = false
  | .dataEnd | .dataEndCr | .trailerCr | .malformed => False

/-- The bytes that reach the next filter. -/
def delivered (calls : List NextCall) : Bytes :=
  calls.flatMap fun call =>
    match call with
    | .process data => data
    | .finish _ => []

/-- How often the next filter is finished. -/
def finishes (calls : List NextCall) : Nat :=
  calls.countP fun call =>
    match call with
    | .process _ => false
    | .finish _ => true

@[simp] theorem delivered_nil : delivered [] = [] := rfl

@[simp] theorem delivered_append (calls more : List NextCall) :
    delivered (calls ++ more) = delivered calls ++ delivered more := List.flatMap_append

@[simp] theorem delivered_process (data : Bytes) : delivered [.process data] = data := by
  simp [delivered]

@[simp] theorem delivered_finish (data : Bytes) : delivered [.finish data] = [] := rfl

@[simp] theorem delivered_finish_cons (data : Bytes) (calls : List NextCall) :
    delivered (.finish data :: calls) = delivered calls := rfl

@[simp] theorem finishes_nil : finishes [] = 0 := rfl

@[simp] theorem finishes_append (calls more : List NextCall) :
    finishes (calls ++ more) = finishes calls + finishes more := List.countP_append

@[simp] theorem finishes_process (data : Bytes) : finishes [.process data] = 0 := rfl

@[simp] theorem finishes_finish (data : Bytes) : finishes [.finish data] = 1 := rfl

@[simp] theorem finishes_finish_cons (data : Bytes) (calls : List NextCall) :
    finishes (.finish data :: calls) = finishes calls + 1 := by
  simp [finishes]

theorem tracks_create : create.Tracks (.line []) := ⟨rfl, by decide, rfl, rfl⟩

/-- The count of received bytes plays no part. -/
theorem Tracks.received {filter : ChunkedHttpFilter} {phase : Chunked.Phase}
    (tracks : filter.Tracks phase) (receivedSize : Int) :
    { filter with receivedSize }.Tracks phase := by
  cases phase <;> exact tracks

/-! ### One turn from each phase -/

theorem decodeOnce_line {filter : ChunkedHttpFilter} {text data : Bytes}
    (tracks : filter.Tracks (.line text)) : filter.decodeOnce data = filter.decodeChunkStart data := by
  obtain ⟨-, negative, -⟩ := tracks
  rw [decodeOnce, if_neg (ne_of_lt negative), if_neg (not_lt_of_gt negative)]

theorem decodeOnce_data {filter : ChunkedHttpFilter} {left : Nat} {data : Bytes}
    (tracks : filter.Tracks (.data left)) : filter.decodeOnce data = filter.decodeChunkData data := by
  obtain ⟨positive, received, current, -⟩ := tracks
  rw [decodeOnce, if_neg (by omega), if_pos (by omega)]

theorem decodeOnce_zero {filter : ChunkedHttpFilter} {data : Bytes}
    (zero : filter.currentChunkSize = 0) : filter.decodeOnce data = filter.decodeChunkTrailer data :=
  if_pos zero

/-- A size line is taken with its line end. -/
theorem decodeChunkStart_of_found {filter : ChunkedHttpFilter} {data : Bytes} {lineLen size : Nat}
    (found : search data crlf = some lineLen) (sized : chunkSize (data.take lineLen) = some size) :
    filter.decodeChunkStart data =
      ⟨(lineLen : Int) + 2, { filter with currentChunkSize := size }, []⟩ ∧
      (size : Int) + 2 < 2 ^ 31 := by
  rw [decodeChunkStart, found]
  rw [chunkSize] at sized
  cases scanned : scanHexInt64 (cStr (data.take lineLen)) with
  | none => rw [scanned] at sized; cases sized
  | some chunksize =>
      simp only [scanned] at sized ⊢
      split at sized
      · next range =>
          cases sized
          rw [Int.toNat_of_nonneg range.1]
          exact ⟨rfl, range.2⟩
      · cases sized

/-- How many bytes of the payload are missing. -/
theorem toInt_remaining {filter : ChunkedHttpFilter} {left : Nat}
    (tracks : filter.Tracks (.data left)) :
    toInt (filter.currentChunkSize - filter.receivedChunkSize) = left ∧ (left : Int) + 2 < 2 ^ 31 := by
  obtain ⟨positive, received, current, range, -⟩ := tracks
  have equal : filter.currentChunkSize - filter.receivedChunkSize = left := by omega
  rw [equal]
  exact ⟨toInt_natCast (by omega), by omega⟩

theorem decodeChunkData_of_lt {filter : ChunkedHttpFilter} {left : Nat} {data : Bytes}
    (tracks : filter.Tracks (.data left)) (part : data.length < left) :
    filter.decodeChunkData data =
      ⟨data.length, { filter with
        receivedChunkSize := filter.receivedChunkSize + data.length }, [.process data]⟩ := by
  obtain ⟨remaining, range⟩ := toInt_remaining tracks
  simp only [decodeChunkData, remaining]
  rw [if_neg (by omega), if_neg (by omega), if_pos (by omega)]

theorem decodeChunkData_of_whole {filter : ChunkedHttpFilter} {payload more : Bytes}
    (tracks : filter.Tracks (.data payload.length)) :
    filter.decodeChunkData (payload ++ 13 :: 10 :: more) =
      ⟨(payload.length : Int) + 2, { filter with
        lastChunkSize := filter.currentChunkSize
        currentChunkSize := -1
        receivedChunkSize := 0 }, [.process payload]⟩ := by
  obtain ⟨remaining, range⟩ := toInt_remaining tracks
  have ends : (payload ++ 13 :: 10 :: more)[payload.length]? = some 13 ∧
      (payload ++ 13 :: 10 :: more)[payload.length + 1]? = some 10 := by
    constructor
    · rw [List.getElem?_append_right (le_refl _), Nat.sub_self]
      rfl
    · rw [List.getElem?_append_right (by omega), Nat.add_sub_cancel_left]
      rfl
  simp only [decodeChunkData, remaining, Int.toNat_natCast, List.length_append, List.length_cons]
  rw [if_neg (by omega), if_pos (by omega), if_neg (by omega),
    if_neg (by rw [ends.1, ends.2]; simp), List.take_left]

theorem decodeChunkTrailer_of_lineEnd (filter : ChunkedHttpFilter) (more : Bytes) :
    filter.decodeChunkTrailer (13 :: 10 :: more) = ⟨2, filter, [.finish []]⟩ := by
  rw [decodeChunkTrailer, if_neg (by simp), if_pos ⟨rfl, rfl⟩]

/-- A single byte after the end of a body is not looked at. -/
theorem process_of_short {filter : ChunkedHttpFilter} {data : Bytes}
    (zero : filter.currentChunkSize = 0) (short : data.length < 2) :
    filter.process data = (filter, []) := by
  by_cases empty : data = []
  · rw [empty, process_nil]
  · have turn : filter.decodeOnce data = ⟨0, filter, []⟩ := by
      rw [decodeOnce_zero zero, decodeChunkTrailer, if_pos short]
    rw [process_of_stop empty (by rw [turn]), turn]

/-! ### The simulation -/

/-- A reader that is past the two bytes after a payload has read a line end. -/
theorem lineEnd_of_remember_dataEnd {tail : Bytes} {kept : Chunked.Phase}
    (keeps : remember (Chunked.run chunkSize .dataEnd tail).1 = some kept) :
    ∃ more, tail = 13 :: 10 :: more ∧
      Chunked.run chunkSize .dataEnd tail = Chunked.run chunkSize (.line []) more := by
  cases tail with
  | nil => cases keeps
  | cons first tail =>
      by_cases cr : first = 13
      · subst cr
        cases tail with
        | nil => cases keeps
        | cons second more =>
            by_cases lf : second = 10
            · subst lf
              exact ⟨more, rfl, by simp [Chunked.run, Chunked.next]⟩
            · simp [Chunked.run, Chunked.next, lf, Chunked.run_malformed, remember] at keeps
      · simp [Chunked.run, Chunked.next, cr, Chunked.run_malformed, remember] at keeps

/-- A reader that is past the two bytes after the last line has read the body. -/
theorem lineEnd_of_remember_trailer {tail : Bytes} {kept : Chunked.Phase}
    (nonempty : tail ≠ [])
    (keeps : remember (Chunked.run chunkSize .trailer tail).1 = some kept) :
    ∃ more, tail = 13 :: 10 :: more := by
  cases tail with
  | nil => exact absurd rfl nonempty
  | cons first tail =>
      by_cases cr : first = 13
      · subst cr
        cases tail with
        | nil => cases keeps
        | cons second more =>
            by_cases lf : second = 10
            · exact ⟨more, by rw [lf]⟩
            · simp [Chunked.run, Chunked.next, lf, Chunked.run_malformed, remember] at keeps
      · simp [Chunked.run, Chunked.next, cr, Chunked.run_malformed, remember] at keeps

/-- The reader has not reached the end of a body before the last of these bytes. -/
def EndsLast (phase : Chunked.Phase) (bytes : Bytes) : Prop :=
  ∀ before after, bytes = before ++ after → after ≠ [] →
    (Chunked.run chunkSize phase before).1 ≠ .terminated

/-- The call that reports the end of a body, once it is reached. -/
def closing : Chunked.Phase → List NextCall
  | .terminated => [.finish []]
  | _ => []

theorem closing_of_alive {phase : Chunked.Phase} (alive : phase ≠ .terminated) :
    closing phase = [] := by
  cases phase with
  | terminated => exact absurd rfl alive
  | _ => rfl

@[simp] theorem delivered_closing (phase : Chunked.Phase) : delivered (closing phase) = [] := by
  cases phase <;> rfl

theorem finishes_closing (phase : Chunked.Phase) :
    finishes (closing phase) = if phase = .terminated then 1 else 0 := by
  cases phase <;> rfl

/-- What a call does with bytes that the reader takes from `phase` to one it keeps:
it delivers what the reader reads, reports the end of the body if that is where the
bytes end, and goes on with the bytes `more` after them as if they came in a call of
their own. -/
structure Tracked (filter : ChunkedHttpFilter) (phase kept : Chunked.Phase)
    (bytes more : Bytes) : Prop where
  goesOn : ∃ after calls, filter.process (bytes ++ more) =
      ((process after more).1, calls ++ closing kept ++ (process after more).2) ∧
    after.Tracks kept ∧ delivered calls = (Chunked.run chunkSize phase bytes).2 ∧
    finishes calls = 0

/-- One turn of the loop, when the reader reads the bytes of the turn to the phase in
which the filter goes on. -/
theorem Tracked.turn {filter next : ChunkedHttpFilter} {phase later kept : Chunked.Phase}
    {taken bytes more : Bytes} {calls : List NextCall}
    (turn : filter.decodeOnce (taken ++ bytes ++ more) = ⟨taken.length, next, calls⟩)
    (some : taken ≠ []) (reads : Chunked.run chunkSize phase taken = (later, delivered calls))
    (quiet : finishes calls = 0)
    (tracked : ∀ receivedSize, Tracked { next with receivedSize } later kept bytes more) :
    Tracked filter phase kept (taken ++ bytes) more where
  goesOn := by
    have positive : (0 : Int) < taken.length := by
      have := List.length_pos_of_ne_nil some
      omega
    obtain ⟨after, others, process, tracks, delivers, none⟩ :=
      (tracked (next.receivedSize + taken.length)).goesOn
    refine ⟨after, calls ++ others, ?_, tracks, ?_, ?_⟩
    · rw [process_of_turn turn positive (by simp only [List.length_append]; omega),
        Int.toNat_natCast, List.append_assoc, List.drop_left, process]
      simp only [List.append_assoc]
    · rw [Chunked.run_append, reads, delivered_append, delivers]
    · rw [finishes_append, quiet, none]

/-- No bytes at all. -/
theorem Tracked.nil {filter : ChunkedHttpFilter} {phase kept : Chunked.Phase} {more : Bytes}
    (tracks : filter.Tracks phase) (alive : phase ≠ .terminated)
    (keeps : remember phase = some kept) : Tracked filter phase kept [] more where
  goesOn := by
    have same : kept = phase := by
      cases phase with
      | line text =>
          cases keeps
          rw [tracks.1]
      | _ => cases keeps <;> rfl
    subst same
    exact ⟨filter, [], by rw [closing_of_alive alive]; rfl, tracks, rfl, rfl⟩

theorem EndsLast.drop {phase later : Chunked.Phase} {taken bytes payload : Bytes}
    (endsLast : EndsLast phase (taken ++ bytes))
    (reads : Chunked.run chunkSize phase taken = (later, payload)) : EndsLast later bytes := by
  rintro before after rfl nonempty
  have := endsLast (taken ++ before) after (by rw [List.append_assoc]) nonempty
  rwa [Chunked.run_append, reads] at this

/-- A size line, and the line end that completes it. -/
theorem run_sizeLine {bytes : Bytes} {lineLen : Nat} (found : search bytes crlf = some lineLen) :
    Chunked.run chunkSize (.line []) (bytes.take (lineLen + 2)) =
      (Chunked.afterLine chunkSize (bytes.take lineLen), []) := by
  have inside := (firstOccurrence_add_length_le found).resolve_right (by decide)
  have size : (bytes.take (lineLen + 2)).length = lineLen + 2 := by
    rw [List.length_take]
    exact Nat.min_eq_left inside
  have foundHere : firstOccurrence Chunked.lineEnd (bytes.take (lineLen + 2)) = some lineLen := by
    rw [search, ← List.take_append_drop (lineLen + 2) bytes] at found
    exact firstOccurrence_of_append found (le_of_eq size.symm)
  rw [Chunked.run_line_of_found foundHere, List.drop_of_length_le (le_of_eq size), List.take_take,
    Nat.min_eq_left (by omega), Chunked.run_nil]

/-- What the turns of a call that have fewer than `size` bytes before them deliver. -/
def TrackedBelow (kept : Chunked.Phase) (more : Bytes) (size : Nat) : Prop :=
  ∀ (filter : ChunkedHttpFilter) (phase : Chunked.Phase) (bytes : Bytes), bytes.length < size →
    filter.Tracks phase → phase ≠ .terminated → EndsLast phase bytes →
    remember (Chunked.run chunkSize phase bytes).1 = some kept → Tracked filter phase kept bytes more

/-- A size line that is not complete ends the call. -/
theorem Tracked.line_of_absent {filter : ChunkedHttpFilter} {kept : Chunked.Phase}
    {bytes more : Bytes} (tracks : filter.Tracks (.line [])) (nonempty : bytes ≠ [])
    (absent : search bytes crlf = none)
    (keeps : remember (Chunked.run chunkSize (.line []) bytes).1 = some kept)
    (rest : more = [] ∨ kept = .terminated) : Tracked filter (.line []) kept bytes more := by
  have reads : Chunked.run chunkSize (.line []) bytes = (.line ([] ++ bytes), []) :=
    Chunked.run_line_of_absent (firstOccurrence_eq_none_iff.mp absent)
  rw [reads] at keeps
  cases keeps
  obtain rfl : more = [] := rest.resolve_right (by simp)
  have start : filter.decodeOnce bytes = ⟨0, filter, []⟩ := by
    rw [decodeOnce_line tracks, decodeChunkStart, absent]
  refine ⟨filter, [], ?_, tracks, by rw [reads]; rfl, rfl⟩
  rw [List.append_nil, process_of_stop nonempty (by rw [start]), start]
  rfl

/-- A complete size line is one turn, after which the filter is in the payload, or in
the trailer behind the zero chunk. -/
theorem Tracked.line_of_found {filter : ChunkedHttpFilter} {kept : Chunked.Phase}
    {bytes more : Bytes} {lineLen : Nat} (tracks : filter.Tracks (.line []))
    (found : search bytes crlf = some lineLen) (endsLast : EndsLast (.line []) bytes)
    (keeps : remember (Chunked.run chunkSize (.line []) bytes).1 = some kept)
    (below : TrackedBelow kept more bytes.length) : Tracked filter (.line []) kept bytes more := by
  have inside := (firstOccurrence_add_length_le found).resolve_right (by decide)
  simp only [crlf, List.length_cons, List.length_nil] at inside
  have reads := run_sizeLine found
  have split := List.take_append_drop (lineLen + 2) bytes
  have taken : (bytes.take (lineLen + 2)).length = lineLen + 2 := by
    rw [List.length_take]
    exact Nat.min_eq_left inside
  have left : (bytes.drop (lineLen + 2)).length < bytes.length := by
    rw [List.length_drop]
    omega
  rw [← split] at endsLast keeps
  rw [Chunked.run_append, reads] at keeps
  cases sized : chunkSize (bytes.take lineLen) with
  | none => simp [Chunked.afterLine, sized, Chunked.run_malformed, remember] at keeps
  | some size =>
      have turn : filter.decodeOnce (bytes.take (lineLen + 2) ++ bytes.drop (lineLen + 2) ++ more) =
          ⟨(bytes.take (lineLen + 2)).length, { filter with currentChunkSize := size }, []⟩ := by
        have longer : search (bytes ++ more) crlf = some lineLen :=
          firstOccurrence_append (by decide) found more
        have sameLine : (bytes ++ more).take lineLen = bytes.take lineLen :=
          List.take_append_of_le_length (by omega)
        rw [split, taken, decodeOnce_line tracks]
        exact (decodeChunkStart_of_found longer (by rw [sameLine, sized])).1
      have range := (@decodeChunkStart_of_found filter _ _ _ found sized).2
      obtain ⟨-, negative, none, sound⟩ := tracks
      rw [← split]
      refine Tracked.turn turn (List.ne_nil_of_length_pos (by omega)) (by rw [reads]; rfl) rfl ?_
      intro receivedSize
      refine below _ _ _ left ?_ ?_ (endsLast.drop reads) keeps
      · cases size with
        | zero => simpa [Chunked.afterLine, sized] using ⟨rfl, sound⟩
        | succ size =>
            simp only [Chunked.afterLine, sized]
            exact ⟨Nat.succ_pos _, le_of_eq none.symm, by simp [none], range, sound⟩
      · cases size with
        | zero => simp [Chunked.afterLine, sized]
        | succ size => simp [Chunked.afterLine, sized]

/-- A part of a payload is delivered at once, and is the whole turn. -/
theorem Tracked.data_of_part {filter : ChunkedHttpFilter} {kept : Chunked.Phase}
    {bytes more : Bytes} {left : Nat} (tracks : filter.Tracks (.data left)) (nonempty : bytes ≠ [])
    (part : bytes.length < left)
    (keeps : remember (Chunked.run chunkSize (.data left) bytes).1 = some kept)
    (rest : more = [] ∨ kept = .terminated) : Tracked filter (.data left) kept bytes more := by
  have reads : Chunked.run chunkSize (.data left) bytes = (.data (left - bytes.length), bytes) :=
    Chunked.run_data_of_lt part
  have turn : filter.decodeOnce (bytes ++ [] ++ more) =
      ⟨bytes.length, { filter with
        receivedChunkSize := filter.receivedChunkSize + bytes.length }, [.process bytes]⟩ := by
    rw [reads] at keeps
    cases keeps
    obtain rfl : more = [] := rest.resolve_right (by simp)
    rw [List.append_nil, List.append_nil, decodeOnce_data tracks, decodeChunkData_of_lt tracks part]
  rw [reads] at keeps
  obtain ⟨positive, received, current, range, sound⟩ := tracks
  rw [← List.append_nil bytes]
  refine Tracked.turn turn nonempty (by rw [reads, delivered_process]) rfl
    fun receivedSize => Tracked.nil ?_ (by simp) keeps
  exact ⟨by omega, by simp only; omega, by simp only; omega, range, sound⟩

/-- The rest of a payload is delivered together with the line end behind it, which the
filter must have got in the same call. -/
theorem Tracked.data_of_whole {filter : ChunkedHttpFilter} {kept : Chunked.Phase}
    {bytes more : Bytes} {left : Nat} (tracks : filter.Tracks (.data left))
    (whole : left ≤ bytes.length) (endsLast : EndsLast (.data left) bytes)
    (keeps : remember (Chunked.run chunkSize (.data left) bytes).1 = some kept)
    (below : TrackedBelow kept more bytes.length) :
    Tracked filter (.data left) kept bytes more := by
  have positive : 0 < left := tracks.1
  have length : (bytes.take left).length = left := by
    rw [List.length_take]
    omega
  have reads : Chunked.run chunkSize (.data left) (bytes.take left) =
      (.dataEnd, bytes.take left) := by
    obtain ⟨byte, others, shape⟩ := List.exists_cons_of_ne_nil
      (List.ne_nil_of_length_pos (by omega : 0 < (bytes.take left).length))
    rw [shape, List.length_cons] at length
    rw [shape, ← length]
    exact Chunked.run_data_of_eq
  have split := List.take_append_drop left bytes
  rw [← split, Chunked.run_append, reads] at keeps
  obtain ⟨others, tail, onward⟩ := lineEnd_of_remember_dataEnd keeps
  rw [onward] at keeps
  have shape : bytes = (bytes.take left ++ [13, 10]) ++ others := by
    conv_lhs => rw [← split, tail]
    simp
  have readsEnd : Chunked.run chunkSize (.data left) (bytes.take left ++ [13, 10]) =
      (.line [], bytes.take left) := by
    rw [Chunked.run_append, reads]
    simp [Chunked.run, Chunked.next]
  have turn : filter.decodeOnce (bytes.take left ++ [13, 10] ++ others ++ more) =
      ⟨(bytes.take left ++ [13, 10]).length, { filter with
        lastChunkSize := filter.currentChunkSize
        currentChunkSize := -1
        receivedChunkSize := 0 }, [.process (bytes.take left)]⟩ := by
    have payload : filter.Tracks (.data (bytes.take left).length) := by rwa [length]
    have regroup : bytes.take left ++ [13, 10] ++ others ++ more =
        bytes.take left ++ 13 :: 10 :: (others ++ more) := by simp
    rw [decodeOnce_data tracks, regroup, decodeChunkData_of_whole payload]
    simp
  have shorter : others.length < bytes.length := by
    have := congrArg List.length shape
    simp only [List.length_append, List.length_cons, List.length_nil] at this
    omega
  rw [shape] at endsLast
  rw [shape]
  refine Tracked.turn turn (by simp) (by rw [readsEnd, delivered_process]) rfl ?_
  intro receivedSize
  exact below _ _ _ shorter ⟨rfl, neg_one_lt_zero, rfl, tracks.2.2.2.2⟩ (by simp)
    (endsLast.drop readsEnd) keeps

/-- The empty line of the trailer finishes the next filter. -/
theorem Tracked.trailer {filter : ChunkedHttpFilter} {kept : Chunked.Phase} {bytes more : Bytes}
    (tracks : filter.Tracks .trailer) (nonempty : bytes ≠ []) (endsLast : EndsLast .trailer bytes)
    (keeps : remember (Chunked.run chunkSize .trailer bytes).1 = some kept) :
    Tracked filter .trailer kept bytes more := by
  obtain ⟨others, rfl⟩ := lineEnd_of_remember_trailer nonempty keeps
  have ended : Chunked.run chunkSize .trailer [13, 10] = (.terminated, []) := by
    simp [Chunked.run, Chunked.next]
  obtain rfl : others = [] := by
    by_contra some
    exact endsLast [13, 10] others rfl some (by rw [ended])
  rw [ended] at keeps
  cases keeps
  have turn : filter.decodeOnce ([13, 10] ++ more) = ⟨2, filter, [.finish []]⟩ := by
    rw [decodeOnce_zero tracks.1]
    exact decodeChunkTrailer_of_lineEnd filter more
  have inside : (2 : Int) ≤ ([13, 10] ++ more : Bytes).length := by
    simp only [List.length_append, List.length_cons, List.length_nil]
    omega
  exact ⟨_, [], process_of_turn turn (by decide) inside, tracks, by rw [ended]; rfl, rfl⟩

/-- **From a phase that the filter keeps, a call delivers what the reader reads.**  The
induction is on the bytes: one turn of the loop takes a size line, a part of a payload
or a whole one, or the end of the body. -/
theorem process_tracked {filter : ChunkedHttpFilter} {phase kept : Chunked.Phase}
    {bytes more : Bytes} (tracks : filter.Tracks phase) (alive : phase ≠ .terminated)
    (endsLast : EndsLast phase bytes)
    (keeps : remember (Chunked.run chunkSize phase bytes).1 = some kept)
    (rest : more = [] ∨ kept = .terminated) : Tracked filter phase kept bytes more := by
  induction size : bytes.length using Nat.strong_induction_on generalizing filter phase bytes with
  | _ size ih =>
    subst size
    have below : TrackedBelow kept more bytes.length :=
      fun filter phase bytes shorter tracks alive endsLast keeps =>
        ih _ shorter tracks alive endsLast keeps rfl
    by_cases empty : bytes = []
    · subst empty
      exact Tracked.nil tracks alive keeps
    cases phase with
    | line text =>
        obtain rfl : text = [] := tracks.1
        cases found : search bytes crlf with
        | none => exact Tracked.line_of_absent tracks empty found keeps rest
        | some lineLen => exact Tracked.line_of_found tracks found endsLast keeps below
    | data left =>
        by_cases part : bytes.length < left
        · exact Tracked.data_of_part tracks empty part keeps rest
        · exact Tracked.data_of_whole tracks (not_lt.mp part) endsLast keeps below
    | trailer => exact Tracked.trailer tracks empty endsLast keeps
    | terminated => exact absurd rfl alive
    | _ => exact absurd tracks id

end ChunkedHttpFilter

end Xul
