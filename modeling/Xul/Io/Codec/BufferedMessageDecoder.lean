import Xul.Foundation.Framing
import Xul.Foundation.Logs
import Xul.Foundation.Runs
import Xul.Std.Strings

/-!
# Decoders that buffer

`buffered_message_decoder` hands what it is fed to the `do_decode` of its subclass, and
keeps what is not decoded for the next feed.  Data that arrives while nothing is kept is
decoded where it is, and what is left of it once more from the buffer.  A position marks
how much of the buffer is decoded, and the buffer is compacted by it later.

When `do_decode` recognises the messages of a framing, feeding a stream in parts is
draining it (`feedAll_spec`).
-/

set_option autoImplicit false

namespace Xul

open Foundation

/-- What `do_decode` returns, and the message it emits before. -/
structure DecodeResult (Message : Type) where
  ret : Int
  message : Option Message

/-- The `do_decode` of a subclass that keeps no state. -/
abbrev DoDecode (Message : Type) := Bytes → DecodeResult Message

/-- What happened to a decoder. -/
inductive DecoderEntry (Message : Type) where
  | message (message : Message)
  | aborted
  | reset
  | failed (errcode : Int)
deriving DecidableEq

/-- Whether the listener calls `abort` when it is told of the last message of the log. -/
abbrev DecoderListener (Message : Type) := List (DecoderEntry Message) → Bool

/-- `buffered_message_decoder`. -/
structure BufferedMessageDecoder (Message : Type) where
  buffer : Bytes
  position : Nat
  maxBufferSize : Int
  abort : Bool
  log : List (DecoderEntry Message)
deriving DecidableEq

namespace BufferedMessageDecoder

variable {Message : Type}

def create (maxBufferSize : Int) : BufferedMessageDecoder Message :=
  ⟨[], 0, maxBufferSize, false, []⟩

/-- What `reset` and `abort` have in common. -/
def clear (decoder : BufferedMessageDecoder Message) (abort : Bool)
    (entry : DecoderEntry Message) : BufferedMessageDecoder Message :=
  { decoder with buffer := [], position := 0, abort, log := decoder.log ++ [entry] }

def reset (decoder : BufferedMessageDecoder Message) : BufferedMessageDecoder Message :=
  decoder.clear false .reset

def doAbort (decoder : BufferedMessageDecoder Message) : BufferedMessageDecoder Message :=
  decoder.clear true .aborted

/-- The decoder aborts and tells its listener. -/
def fail (decoder : BufferedMessageDecoder Message) : BufferedMessageDecoder Message :=
  { decoder.doAbort with log := decoder.doAbort.log ++ [.failed 1] }

def getRemainingData (decoder : BufferedMessageDecoder Message) : Bytes :=
  decoder.buffer.drop decoder.position

/-- The messages that were emitted. -/
def messages (decoder : BufferedMessageDecoder Message) : List Message :=
  decoder.log.filterMap fun entry =>
    match entry with
    | .message message => some message
    | _ => none

/-- A message is emitted, and the listener may abort. -/
def emit (listener : DecoderListener Message) (decoder : BufferedMessageDecoder Message) :
    Option Message → BufferedMessageDecoder Message
  | none => decoder
  | some message =>
      let told := { decoder with log := decoder.log ++ [.message message] }
      if listener told.log then told.doAbort else told

/-- The loop of `decode_buffer`; it yields what is processed, or nothing when decoding
has failed. -/
def decodeLoop (doDecode : DoDecode Message) (listener : DecoderListener Message) :
    Nat → Nat → BufferedMessageDecoder Message → Bytes →
      Option Nat × BufferedMessageDecoder Message
  | 0, processedSize, decoder, _ => (some processedSize, decoder)
  | fuel + 1, processedSize, decoder, data =>
      if data = [] ∨ decoder.abort then (some processedSize, decoder)
      else
        let decoded := doDecode data
        let told := decoder.emit listener decoded.message
        if decoded.ret < 0 then (none, told.fail)
        else if decoded.ret = 0 then (some processedSize, told)
        else
          decodeLoop doDecode listener fuel (processedSize + decoded.ret.toNat) told
            (data.drop decoded.ret.toNat)

/-- `decode_buffer`: every turn of its loop takes a byte at least. -/
def decodeBuffer (doDecode : DoDecode Message) (listener : DecoderListener Message)
    (decoder : BufferedMessageDecoder Message) (data : Bytes) :
    Option Nat × BufferedMessageDecoder Message :=
  decodeLoop doDecode listener data.length 0 decoder data

/-- `check_buffer` compacts the buffer. -/
def checkBuffer (decoder : BufferedMessageDecoder Message) : BufferedMessageDecoder Message :=
  if 0 < decoder.position then
    { decoder with
      buffer := if decoder.position ≤ decoder.buffer.length then
          decoder.buffer.drop decoder.position
        else decoder.buffer
      position := 0 }
  else decoder

/-- The end of `feed`: what is in the buffer is decoded. -/
def feedBuffered (doDecode : DoDecode Message) (listener : DecoderListener Message)
    (decoder : BufferedMessageDecoder Message) : Bool × BufferedMessageDecoder Message :=
  if decoder.buffer = [] then (true, decoder)
  else
    match decoder.decodeBuffer doDecode listener decoder.buffer with
    | (none, failed) => (true, failed)
    | (some processedSize, decoded) =>
        let compacted :=
          { decoded with position := decoded.position + processedSize }.checkBuffer
        (compacted.buffer = [], compacted)

def feed (doDecode : DoDecode Message) (listener : DecoderListener Message)
    (decoder : BufferedMessageDecoder Message) (data : Bytes) :
    Bool × BufferedMessageDecoder Message :=
  let decoder := decoder.checkBuffer
  if decoder.buffer = [] then
    match decoder.decodeBuffer doDecode listener data with
    | (none, failed) => (true, failed)
    | (some processedSize, decoded) =>
        { decoded with buffer :=
          if processedSize < data.length then decoded.buffer ++ data.drop processedSize
          else decoded.buffer }.feedBuffered doDecode listener
  else if toSizeT decoder.maxBufferSize < decoder.buffer.length + data.length then
    (true, decoder.fail)
  else { decoder with buffer := decoder.buffer ++ data }.feedBuffered doDecode listener

/-- Feeds one after another. -/
def feedAll (doDecode : DoDecode Message) (listener : DecoderListener Message)
    (decoder : BufferedMessageDecoder Message) (feeds : List Bytes) :
    BufferedMessageDecoder Message :=
  feeds.foldl (fun decoder data => (decoder.feed doDecode listener data).2) decoder

/-- What is done to a decoder. -/
inductive Event where
  | feed (data : Bytes)
  | abort
  | reset
  | setMaxBufferSize (maxBufferSize : Int)

def apply (doDecode : DoDecode Message) (listener : DecoderListener Message)
    (decoder : BufferedMessageDecoder Message) : Event → BufferedMessageDecoder Message
  | .feed data => (decoder.feed doDecode listener data).2
  | .abort => decoder.doAbort
  | .reset => decoder.reset
  | .setMaxBufferSize maxBufferSize =>
      if maxBufferSize < 1 then decoder else { decoder with maxBufferSize }

/-! ## Nothing is emitted after an abort -/

/-- The last `abort` or `reset` of a log is an `abort`. -/
def abortedIn (log : List (DecoderEntry Message)) : Bool :=
  log.foldl (fun aborted entry =>
    match entry with
    | .aborted => true
    | .reset => false
    | _ => aborted) false

/-- Messages are only emitted while the decoder is not aborted. -/
def Emits (before : List (DecoderEntry Message)) : DecoderEntry Message → Prop
  | .message _ => abortedIn before = false
  | _ => True

/-- The flag of a decoder is what its log says, and its log emits nothing after an
abort. -/
structure Obeys (decoder : BufferedMessageDecoder Message) : Prop where
  flag : decoder.abort = abortedIn decoder.log
  emits : EachAllowed Emits decoder.log

variable {decoder : BufferedMessageDecoder Message} {doDecode : DoDecode Message}
  {listener : DecoderListener Message}

theorem Obeys.doAbort (obeys : decoder.Obeys) : decoder.doAbort.Obeys :=
  ⟨by simp [BufferedMessageDecoder.doAbort, clear, abortedIn],
    eachAllowed_snoc_iff.mpr ⟨obeys.emits, trivial⟩⟩

theorem Obeys.reset (obeys : decoder.Obeys) : decoder.reset.Obeys :=
  ⟨by simp [BufferedMessageDecoder.reset, clear, abortedIn],
    eachAllowed_snoc_iff.mpr ⟨obeys.emits, trivial⟩⟩

theorem Obeys.fail (obeys : decoder.Obeys) : decoder.fail.Obeys :=
  ⟨by simp [BufferedMessageDecoder.fail, BufferedMessageDecoder.doAbort, clear, abortedIn],
    eachAllowed_snoc_iff.mpr ⟨obeys.doAbort.emits, trivial⟩⟩

theorem Obeys.emit (obeys : decoder.Obeys) (alive : decoder.abort = false)
    (message : Option Message) : (decoder.emit listener message).Obeys := by
  cases message with
  | none => exact obeys
  | some message =>
      have flag : decoder.abort = abortedIn (decoder.log ++ [.message message]) := by
        rw [obeys.flag, abortedIn, abortedIn, List.foldl_append]
        rfl
      have told : Obeys { decoder with log := decoder.log ++ [.message message] } :=
        ⟨flag, eachAllowed_snoc_iff.mpr ⟨obeys.emits, by rw [Emits, ← obeys.flag, alive]⟩⟩
      simp only [BufferedMessageDecoder.emit]
      split
      · exact told.doAbort
      · exact told

theorem Obeys.decodeLoop {fuel processedSize : Nat} {data : Bytes} (obeys : decoder.Obeys) :
    (decodeLoop doDecode listener fuel processedSize decoder data).2.Obeys := by
  induction fuel generalizing processedSize decoder data with
  | zero => exact obeys
  | succ fuel ih =>
      simp only [BufferedMessageDecoder.decodeLoop]
      split
      · exact obeys
      · next continues =>
          have alive : decoder.abort = false := by
            simpa using fun aborted => continues (Or.inr aborted)
          have told : (decoder.emit listener (doDecode data).message).Obeys :=
            obeys.emit alive _
          split
          · exact told.fail
          · split
            · exact told
            · exact ih told

theorem Obeys.checkBuffer (obeys : decoder.Obeys) : decoder.checkBuffer.Obeys := by
  rw [BufferedMessageDecoder.checkBuffer]
  split
  · exact ⟨obeys.flag, obeys.emits⟩
  · exact obeys

theorem Obeys.feedBuffered (obeys : decoder.Obeys) :
    (decoder.feedBuffered doDecode listener).2.Obeys := by
  rw [BufferedMessageDecoder.feedBuffered]
  split
  · exact obeys
  · have decoded : (decoder.decodeBuffer doDecode listener decoder.buffer).2.Obeys :=
      obeys.decodeLoop
    split
    · next failed outcome => rwa [outcome] at decoded
    · next processedSize after outcome =>
        rw [outcome] at decoded
        exact Obeys.checkBuffer ⟨decoded.flag, decoded.emits⟩

theorem Obeys.feed (obeys : decoder.Obeys) (data : Bytes) :
    (decoder.feed doDecode listener data).2.Obeys := by
  have checked := obeys.checkBuffer
  rw [BufferedMessageDecoder.feed]
  split
  · have decoded : (decoder.checkBuffer.decodeBuffer doDecode listener data).2.Obeys :=
      checked.decodeLoop
    split
    · next failed outcome => rwa [outcome] at decoded
    · next processedSize after outcome =>
        rw [outcome] at decoded
        exact Obeys.feedBuffered ⟨decoded.flag, decoded.emits⟩
  · split
    · exact checked.fail
    · exact Obeys.feedBuffered ⟨checked.flag, checked.emits⟩

theorem Obeys.apply (obeys : decoder.Obeys) (event : Event) :
    (decoder.apply doDecode listener event).Obeys := by
  cases event with
  | feed data => exact obeys.feed data
  | abort => exact obeys.doAbort
  | reset => exact obeys.reset
  | setMaxBufferSize maxBufferSize =>
      simp only [BufferedMessageDecoder.apply]
      split
      · exact obeys
      · exact ⟨obeys.flag, obeys.emits⟩

theorem obeys_create (maxBufferSize : Int) :
    (create maxBufferSize : BufferedMessageDecoder Message).Obeys :=
  ⟨rfl, eachAllowed_nil⟩

/-- **A run emits nothing after an abort.** -/
theorem obeys_run (obeys : decoder.Obeys) (events : List Event) :
    (events.foldl (BufferedMessageDecoder.apply doDecode listener) decoder).Obeys := by
  induction events generalizing decoder with
  | nil => exact obeys
  | cons event events ih => exact ih (obeys.apply event)

/-! ## Feeding is draining -/

/-- The `do_decode` of a framing: nothing is returned for a beginning that is too short. -/
def doDecodeOf (framing : Framing UInt8 Message) : DoDecode Message := fun data =>
  match framing.decode data with
  | none => ⟨0, none⟩
  | some (size, message) => ⟨size, some message⟩

/-- A listener that does not abort. -/
def keepsOn : DecoderListener Message := fun _ => false

/-- No feed exceeds the buffer limit together with what is left of the feeds before. -/
def WithinLimit (framing : Framing UInt8 Message) (maxBufferSize : Int) :
    Bytes → List Bytes → Prop
  | _, [] => True
  | left, data :: feeds =>
      (left = [] ∨ ((left.length + data.length : Nat) : Int) ≤ toSizeT maxBufferSize) ∧
        WithinLimit framing maxBufferSize (framing.drain (left ++ data)).2 feeds

variable {framing : Framing UInt8 Message}

/-- A decoder that waits for more data, having emitted and kept what draining emits and
leaves. -/
def waiting (maxBufferSize : Int) (log : List (DecoderEntry Message)) (left : Bytes) :
    BufferedMessageDecoder Message :=
  ⟨left, 0, maxBufferSize, false, log⟩

@[simp] theorem waiting_buffer (maxBufferSize : Int) (log : List (DecoderEntry Message))
    (left : Bytes) : (waiting maxBufferSize log left).buffer = left := rfl

/-- The loop drains its data, and has processed all but what draining leaves. -/
theorem decodeLoop_of_framing {buffer : Bytes} {maxBufferSize : Int} (fuel processedSize : Nat)
    (log : List (DecoderEntry Message)) (data : Bytes) (enough : data.length ≤ fuel) :
    ∃ size, decodeLoop (doDecodeOf framing) keepsOn fuel processedSize
        (waiting maxBufferSize log buffer) data =
        (some (processedSize + size), waiting maxBufferSize
          (log ++ (framing.drain data).1.map DecoderEntry.message) buffer) ∧
      size ≤ data.length ∧ data.drop size = (framing.drain data).2 := by
  induction fuel generalizing processedSize log data with
  | zero =>
      obtain rfl : data = [] := List.eq_nil_of_length_eq_zero (Nat.le_zero.mp enough)
      rw [Framing.drain_of_none Framing.decode_nil]
      exact ⟨0, by simp [decodeLoop], le_rfl, rfl⟩
  | succ fuel ih =>
      cases found : framing.decode data with
      | none =>
          rw [Framing.drain_of_none found]
          refine ⟨0, ?_, Nat.zero_le _, rfl⟩
          by_cases empty : data = []
          · simp [decodeLoop, empty]
          · simp [decodeLoop, empty, waiting, doDecodeOf, found, emit]
      | some pair =>
          obtain ⟨size, message⟩ := pair
          obtain ⟨positive, inside⟩ := framing.inside found
          have nonempty : data ≠ [] := List.ne_nil_of_length_pos (by omega)
          have decoded : doDecodeOf framing data = ⟨size, some message⟩ := by
            rw [doDecodeOf, found]
          obtain ⟨more, loop, within, left⟩ := ih (processedSize + size) (log ++ [.message message])
            (data.drop size) (by rw [List.length_drop]; omega)
          rw [List.length_drop] at within
          rw [Framing.drain_of_some found]
          refine ⟨size + more, ?_, by omega, by rw [← left, List.drop_drop]⟩
          have turn : decodeLoop (doDecodeOf framing) keepsOn (fuel + 1) processedSize
              (waiting maxBufferSize log buffer) data =
              decodeLoop (doDecodeOf framing) keepsOn fuel (processedSize + size)
                (waiting maxBufferSize (log ++ [.message message]) buffer) (data.drop size) := by
            rw [decodeLoop, if_neg (by simp [nonempty, waiting]), decoded]
            simp only [Int.toNat_natCast]
            rw [if_neg (by omega), if_neg (by omega)]
            rfl
          rw [turn, loop]
          simp [Nat.add_assoc]

theorem decodeBuffer_of_none {maxBufferSize : Int} {log : List (DecoderEntry Message)}
    {data : Bytes} (none : framing.decode data = none) (buffer : Bytes) :
    (waiting maxBufferSize log buffer).decodeBuffer (doDecodeOf framing) keepsOn data =
      (some 0, waiting maxBufferSize log buffer) := by
  rw [decodeBuffer]
  cases data with
  | nil => rfl
  | cons byte rest => simp [decodeLoop, waiting, doDecodeOf, none, emit]

theorem feedBuffered_of_none {maxBufferSize : Int} {log : List (DecoderEntry Message)}
    {left : Bytes} (none : framing.decode left = none) :
    ((waiting maxBufferSize log left).feedBuffered (doDecodeOf framing) keepsOn).2 =
      waiting maxBufferSize log left := by
  rw [feedBuffered]
  split
  · rfl
  · rw [waiting_buffer, decodeBuffer_of_none none]
    rfl

/-- What is in the buffer is drained. -/
theorem feedBuffered_of_framing (maxBufferSize : Int) (log : List (DecoderEntry Message))
    (data : Bytes) :
    ((waiting maxBufferSize log data).feedBuffered (doDecodeOf framing) keepsOn).2 =
      waiting maxBufferSize (log ++ (framing.drain data).1.map DecoderEntry.message)
        (framing.drain data).2 := by
  by_cases empty : data = []
  · subst empty
    rw [Framing.drain_of_none Framing.decode_nil, feedBuffered_of_none Framing.decode_nil]
    simp
  · obtain ⟨size, loop, within, left⟩ :=
      @decodeLoop_of_framing _ framing data maxBufferSize data.length 0 log data le_rfl
    rw [feedBuffered, waiting_buffer, if_neg empty, decodeBuffer, loop]
    simp only [Nat.zero_add]
    rw [checkBuffer, ← left]
    by_cases nothing : size = 0
    · simp [waiting, nothing]
    · simp [waiting, Nat.pos_of_ne_zero nothing, within]

/-- **A feed that stays within the limit drains what was left together with the data.** -/
theorem feed_of_framing {maxBufferSize : Int} (log : List (DecoderEntry Message))
    {left data : Bytes} (none : framing.decode left = none)
    (fits : left = [] ∨ ((left.length + data.length : Nat) : Int) ≤ toSizeT maxBufferSize) :
    ((waiting maxBufferSize log left).feed (doDecodeOf framing) keepsOn data).2 =
      waiting maxBufferSize (log ++ (framing.drain (left ++ data)).1.map DecoderEntry.message)
        (framing.drain (left ++ data)).2 := by
  have checked : (waiting maxBufferSize log left : BufferedMessageDecoder Message).checkBuffer =
      waiting maxBufferSize log left := rfl
  rw [feed, checked]
  by_cases empty : left = []
  · subst empty
    obtain ⟨size, loop, within, drained⟩ :=
      @decodeLoop_of_framing _ framing [] maxBufferSize data.length 0 log data le_rfl
    rw [waiting_buffer, if_pos rfl, decodeBuffer, loop, List.nil_append]
    have kept : (if 0 + size < data.length then
        (waiting maxBufferSize (log ++ (framing.drain data).1.map DecoderEntry.message)
          []).buffer ++ data.drop (0 + size) else []) = (framing.drain data).2 := by
      rw [Nat.zero_add, ← drained]
      split
      · rfl
      · rw [List.drop_of_length_le (by omega)]
    have again := @feedBuffered_of_none _ framing maxBufferSize
      (log ++ (framing.drain data).1.map DecoderEntry.message) _ (Framing.decode_drain data)
    rw [← kept] at again ⊢
    exact again
  · have room := fits.resolve_left empty
    rw [waiting_buffer, if_neg empty, if_neg (by simpa [waiting] using room)]
    exact feedBuffered_of_framing maxBufferSize log (left ++ data)

/-- **Feeds that stay within the limit drain their stream.** -/
theorem feedAll_of_framing {maxBufferSize : Int} (feeds : List Bytes) :
    ∀ (log : List (DecoderEntry Message)) {left : Bytes}, framing.decode left = none →
      WithinLimit framing maxBufferSize left feeds →
      (waiting maxBufferSize log left).feedAll (doDecodeOf framing) keepsOn feeds =
        waiting maxBufferSize
          (log ++ (framing.drain (left ++ feeds.flatten)).1.map DecoderEntry.message)
          (framing.drain (left ++ feeds.flatten)).2 := by
  induction feeds with
  | nil =>
      intro log left none _
      rw [List.flatten_nil, List.append_nil, Framing.drain_of_none none]
      simp [feedAll]
  | cons data feeds ih =>
      intro log left none within
      rw [feedAll, List.foldl_cons, feed_of_framing log none within.1, ← feedAll,
        ih _ (Framing.decode_drain _) within.2, List.flatten_cons, ← List.append_assoc,
        Framing.drain_append (left ++ data)]
      simp

/-! ## Line decoders -/

/-- The `do_decode` of `line_message_decoder`: a message ends with its delimiter. -/
def lineDoDecode (delimiter : Bytes) : DoDecode Bytes := fun data =>
  match search data delimiter with
  | none => ⟨0, none⟩
  | some pos => ⟨(pos + delimiter.length : Nat), some (data.take (pos + delimiter.length))⟩

/-- Lines with a delimiter are a framing. -/
def lineFraming (delimiter : Bytes) (nonempty : delimiter ≠ []) : Framing UInt8 Bytes where
  decode data :=
    (search data delimiter).map fun pos =>
      (pos + delimiter.length, data.take (pos + delimiter.length))
  inside := by
    intro data size message found
    obtain ⟨pos, stands, same⟩ := Option.map_eq_some_iff.mp found
    cases same
    have positive := List.length_pos_of_ne_nil nonempty
    have inside := (firstOccurrence_add_length_le stands).resolve_right nonempty
    exact ⟨by omega, inside⟩
  stable := by
    intro data line found more
    obtain ⟨pos, stands, rfl⟩ := Option.map_eq_some_iff.mp found
    have inside := (firstOccurrence_add_length_le stands).resolve_right nonempty
    rw [search, firstOccurrence_append nonempty stands more, Option.map_some,
      List.take_append_of_le_length inside]

theorem doDecodeOf_lineFraming (delimiter : Bytes) (nonempty : delimiter ≠ []) :
    doDecodeOf (lineFraming delimiter nonempty) = lineDoDecode delimiter := by
  funext data
  simp only [doDecodeOf, lineFraming, lineDoDecode]
  cases search data delimiter <;> rfl

/-! ## Segmentation independence -/

/-- What a waiting decoder has emitted. -/
theorem messages_waiting (maxBufferSize : Int) (messages : List Message) (left : Bytes) :
    (waiting maxBufferSize (messages.map DecoderEntry.message) left).messages = messages := by
  rw [BufferedMessageDecoder.messages, waiting, List.filterMap_map]
  exact List.filterMap_some

/-- **Segmentation independence.**  Feeds that stay within the buffer limit emit the
messages of their stream in one feed and leave the same data, which are what draining the
stream gives and leaves, and no run of a decoder emits a message between an abort and the next
reset, whatever its listener does.  Decoders of lines with a delimiter that is not empty are
among the decoders. -/
theorem feeds_independent (framing : Framing UInt8 Message) (maxBufferSize : Int)
    (feeds : List Bytes) (within : WithinLimit framing maxBufferSize [] feeds) :
    let decoder : BufferedMessageDecoder Message := create maxBufferSize
    let pieces := decoder.feedAll (doDecodeOf framing) keepsOn feeds
    let whole := (decoder.feed (doDecodeOf framing) keepsOn feeds.flatten).2
    pieces.messages = whole.messages ∧ pieces.getRemainingData = whole.getRemainingData ∧
      pieces.messages = (framing.drain feeds.flatten).1 ∧
      pieces.getRemainingData = (framing.drain feeds.flatten).2 ∧
      (∀ (listener : DecoderListener Message) (events : List Event),
        EachAllowed Emits (events.foldl (apply (doDecodeOf framing) listener) decoder).log) ∧
      ∀ delimiter, delimiter ≠ [] → ∃ lines, doDecodeOf lines = lineDoDecode delimiter := by
  intro decoder pieces whole
  have start : decoder = waiting maxBufferSize [] [] := rfl
  have drained : pieces = waiting maxBufferSize
      ((framing.drain feeds.flatten).1.map DecoderEntry.message)
      (framing.drain feeds.flatten).2 := by
    simp only [pieces, start]
    rw [feedAll_of_framing feeds [] Framing.decode_nil within, List.nil_append, List.nil_append]
  have same : pieces = whole := by
    rw [drained]
    simp only [whole, start]
    rw [feed_of_framing [] Framing.decode_nil (Or.inl rfl), List.nil_append, List.nil_append]
  refine ⟨by rw [same], by rw [same], by rw [drained, messages_waiting], by rw [drained]; rfl,
    ?_, ?_⟩
  · intro listener events
    exact (obeys_run (obeys_create maxBufferSize) events).emits
  · intro delimiter nonempty
    exact ⟨_, doDecodeOf_lineFraming delimiter nonempty⟩

/-- A stream of two lines and a half, cut inside a delimiter. -/
theorem feeds_independent_lines :
    ((create 16).feedAll (doDecodeOf (lineFraming crlf (by decide))) keepsOn
        [ascii "one\r", ascii "\ntwo\r\nthr"]).messages =
      ((create 16).feed (doDecodeOf (lineFraming crlf (by decide))) keepsOn
        [ascii "one\r", ascii "\ntwo\r\nthr"].flatten).2.messages :=
  (feeds_independent (lineFraming crlf (by decide)) 16 [ascii "one\r", ascii "\ntwo\r\nthr"]
    ⟨Or.inl rfl, Or.inr (by decide +kernel), trivial⟩).1

example : ((create 16).feedAll (lineDoDecode crlf) keepsOn
    [ascii "one\r", ascii "\ntwo\r\nthr"]).messages = [ascii "one\r\n", ascii "two\r\n"] := by
  decide +kernel

/-! ## The bound of the buffer -/

/-- A call, with what `do_decode` and the listener do during it. -/
structure Call (Message : Type) where
  doDecode : DoDecode Message
  listener : DecoderListener Message
  event : Event

def step (decoder : BufferedMessageDecoder Message) (call : Call Message) :
    Option (BufferedMessageDecoder Message) :=
  some (decoder.apply call.doDecode call.listener call.event)

/-- The assertions at the entry of `feed`. -/
structure Asserted (decoder : BufferedMessageDecoder Message) : Prop where
  position : decoder.position ≤ decoder.buffer.length
  size : (decoder.buffer.length : Int) ≤ toSizeT decoder.maxBufferSize

/-- Between two calls the buffer is compacted and within its limit. -/
structure Compacted (decoder : BufferedMessageDecoder Message) : Prop where
  position : decoder.position = 0
  size : (decoder.buffer.length : Int) ≤ toSizeT decoder.maxBufferSize

/-- How much of the data `do_decode` leaves, if it does not fail. -/
def undecoded (doDecode : DoDecode Message) (listener : DecoderListener Message)
    (decoder : BufferedMessageDecoder Message) (data : Bytes) : Nat :=
  ((decoder.decodeBuffer doDecode listener data).1.map (data.length - ·)).getD 0

/-- Data that arrives while nothing is kept leaves no more than the limit. -/
def Fits (decoder : BufferedMessageDecoder Message) (call : Call Message) : Prop :=
  match call.event with
  | .feed data => decoder.checkBuffer.buffer = [] →
      (decoder.checkBuffer.undecoded call.doDecode call.listener data : Int) ≤
        toSizeT decoder.maxBufferSize
  | .abort | .reset => True
  | .setMaxBufferSize maxBufferSize =>
      1 ≤ maxBufferSize → (decoder.buffer.length : Int) ≤ toSizeT maxBufferSize

/-- Data that exceeds the limit together with what is kept is reported. -/
def Reported (decoder : BufferedMessageDecoder Message) (call : Call Message) : Prop :=
  ∀ data, call.event = .feed data → decoder.checkBuffer.buffer ≠ [] →
    toSizeT decoder.maxBufferSize < decoder.checkBuffer.buffer.length + data.length →
      (decoder.apply call.doDecode call.listener call.event).log =
        decoder.log ++ [.aborted, .failed 1]

/-- What decoding does to the buffer: nothing, or an abort clears it. -/
structure Leaves (before after : BufferedMessageDecoder Message) : Prop where
  limit : after.maxBufferSize = before.maxBufferSize
  buffer : after.buffer = before.buffer ∧ after.position = before.position ∨
    after.buffer = [] ∧ after.position = 0

theorem Leaves.refl (decoder : BufferedMessageDecoder Message) : Leaves decoder decoder :=
  ⟨rfl, .inl ⟨rfl, rfl⟩⟩

theorem Leaves.trans {first second third : BufferedMessageDecoder Message}
    (before : Leaves first second) (after : Leaves second third) : Leaves first third := by
  refine ⟨after.limit.trans before.limit, ?_⟩
  rcases after.buffer with ⟨buffer, position⟩ | cleared
  · rw [buffer, position]
    exact before.buffer
  · exact .inr cleared

theorem leaves_emit (decoder : BufferedMessageDecoder Message) (message : Option Message) :
    Leaves decoder (decoder.emit listener message) := by
  cases message with
  | none => exact .refl decoder
  | some message =>
      simp only [emit]
      split
      · exact ⟨rfl, .inr ⟨rfl, rfl⟩⟩
      · exact ⟨rfl, .inl ⟨rfl, rfl⟩⟩

theorem leaves_decodeLoop {fuel processedSize : Nat} {data : Bytes} :
    Leaves decoder (decodeLoop doDecode listener fuel processedSize decoder data).2 := by
  induction fuel generalizing processedSize decoder data with
  | zero => exact .refl decoder
  | succ fuel ih =>
      have told : Leaves decoder (decoder.emit listener (doDecode data).message) :=
        leaves_emit decoder (doDecode data).message
      simp only [decodeLoop]
      split
      · exact .refl decoder
      · split
        · exact told.trans ⟨rfl, .inr ⟨rfl, rfl⟩⟩
        · split
          · exact told
          · exact told.trans ih

theorem toSizeT_nonneg (value : Int) : 0 ≤ toSizeT value := Int.emod_nonneg _ (by decide)

/-- Decoding that fails ends with an abort, which leaves an empty buffer. -/
theorem compacted_of_failed {fuel processedSize : Nat} {data : Bytes}
    {failed : BufferedMessageDecoder Message}
    (outcome : decodeLoop doDecode listener fuel processedSize decoder data = (none, failed)) :
    failed.Compacted := by
  induction fuel generalizing processedSize decoder data with
  | zero => cases outcome
  | succ fuel ih =>
      simp only [decodeLoop] at outcome
      split at outcome
      · cases outcome
      · split at outcome
        · obtain ⟨-, rfl⟩ := Prod.mk.inj outcome
          exact ⟨rfl, toSizeT_nonneg _⟩
        · split at outcome
          · cases outcome
          · exact ih outcome

theorem checkBuffer_of_compacted (position : decoder.position = 0) :
    decoder.checkBuffer = decoder := if_neg (by omega)

/-- Compacting leaves no position. -/
theorem checkBuffer_position : decoder.checkBuffer.position = 0 := by
  rw [checkBuffer]
  split
  · rfl
  · omega

theorem checkBuffer_length : decoder.checkBuffer.buffer.length ≤ decoder.buffer.length := by
  rw [checkBuffer]
  split
  · dsimp only
    split
    · rw [List.length_drop]
      omega
    · exact le_rfl
  · exact le_rfl

theorem checkBuffer_maxBufferSize :
    decoder.checkBuffer.maxBufferSize = decoder.maxBufferSize := by
  rw [checkBuffer]
  split <;> rfl

/-- **What is decoded from the buffer stays within its limit.** -/
theorem Compacted.feedBuffered (compacted : decoder.Compacted) :
    (decoder.feedBuffered doDecode listener).2.Compacted := by
  rw [BufferedMessageDecoder.feedBuffered]
  split
  · exact compacted
  · have leaves : Leaves decoder (decoder.decodeBuffer doDecode listener decoder.buffer).2 :=
      leaves_decodeLoop
    split
    · next failed outcome =>
        exact compacted_of_failed outcome
    · next processedSize after outcome =>
        rw [outcome] at leaves
        have shorter : after.buffer.length ≤ decoder.buffer.length := by
          rcases leaves.buffer with ⟨buffer, -⟩ | ⟨buffer, -⟩
          · exact (congrArg List.length buffer).le
          · rw [buffer]
            exact Nat.zero_le _
        have kept := @checkBuffer_length Message
          { after with position := after.position + processedSize }
        refine ⟨checkBuffer_position, ?_⟩
        have size := compacted.size
        have limit : toSizeT after.maxBufferSize = toSizeT decoder.maxBufferSize :=
          congrArg toSizeT leaves.limit
        simp only [checkBuffer_maxBufferSize, limit]
        simp only at kept
        omega

/-- A feed of data that fits keeps the buffer within its limit. -/
theorem Compacted.feed (compacted : decoder.Compacted) (data : Bytes)
    (fits : decoder.buffer = [] →
      (decoder.undecoded doDecode listener data : Int) ≤ toSizeT decoder.maxBufferSize) :
    (decoder.feed doDecode listener data).2.Compacted := by
  rw [BufferedMessageDecoder.feed]
  simp only [checkBuffer_of_compacted compacted.position]
  split
  · next empty =>
      have leaves : Leaves decoder (decoder.decodeBuffer doDecode listener data).2 :=
        leaves_decodeLoop
      have room := fits empty
      split
      · next failed outcome =>
          exact compacted_of_failed outcome
      · next processedSize after outcome =>
          rw [outcome] at leaves
          rw [undecoded, outcome, Option.map_some, Option.getD_some] at room
          have state : after.buffer = [] ∧ after.position = 0 := by
            rcases leaves.buffer with ⟨buffer, position⟩ | cleared
            · exact ⟨buffer.trans empty, position.trans compacted.position⟩
            · exact cleared
          refine Compacted.feedBuffered ⟨state.2, ?_⟩
          dsimp only
          rw [state.1, leaves.limit]
          split
          · rw [List.nil_append, List.length_drop]
            exact room
          · exact toSizeT_nonneg _
  · split
    · exact ⟨rfl, toSizeT_nonneg _⟩
    · next within =>
        refine Compacted.feedBuffered ⟨compacted.position, ?_⟩
        dsimp only
        rw [List.length_append]
        omega

theorem Compacted.step (compacted : decoder.Compacted) {call : Call Message}
    (fits : decoder.Fits call) {next : BufferedMessageDecoder Message}
    (happens : decoder.step call = some next) : next.Compacted := by
  obtain ⟨doDecode, listener, event⟩ := call
  obtain rfl := Option.some.inj happens
  cases event with
  | feed data =>
      refine compacted.feed data ?_
      intro empty
      have room := fits
      rw [Fits] at room
      simp only [checkBuffer_of_compacted compacted.position] at room
      exact room empty
  | abort => exact ⟨rfl, toSizeT_nonneg _⟩
  | reset => exact ⟨rfl, toSizeT_nonneg _⟩
  | setMaxBufferSize maxBufferSize =>
      simp only [BufferedMessageDecoder.apply]
      split
      · exact compacted
      · next positive => exact ⟨compacted.position, fits (by omega)⟩

/-- The invariant gives the assertions. -/
theorem Compacted.asserted (compacted : decoder.Compacted) : decoder.Asserted :=
  ⟨by rw [compacted.position]; exact Nat.zero_le _, compacted.size⟩

theorem compacted_create (maxBufferSize : Int) :
    (create maxBufferSize : BufferedMessageDecoder Message).Compacted :=
  ⟨rfl, toSizeT_nonneg _⟩

theorem Compacted.reported (compacted : decoder.Compacted) (call : Call Message) :
    decoder.Reported call := by
  obtain ⟨doDecode, listener, event⟩ := call
  rintro data rfl kept exceeds
  simp only [checkBuffer_of_compacted compacted.position] at kept exceeds
  simp [BufferedMessageDecoder.apply, BufferedMessageDecoder.feed,
    checkBuffer_of_compacted compacted.position, kept, exceeds, BufferedMessageDecoder.fail,
    BufferedMessageDecoder.doAbort, clear]

/-- A `do_decode` that emits nothing when it waits for more data. -/
def Quiet (doDecode : DoDecode Message) : Prop :=
  ∀ data, (doDecode data).ret = 0 → (doDecode data).message = none

/-- Decoding ends because of an abort, at the end of the data, or where `do_decode` waits
for more of it. -/
theorem decodeLoop_stops (quiet : Quiet doDecode) {fuel start stop : Nat} {data : Bytes}
    {after : BufferedMessageDecoder Message} (enough : data.length ≤ fuel)
    (outcome : decodeLoop doDecode listener fuel start decoder data = (some stop, after)) :
    start ≤ stop ∧ (after.abort = true ∨ data.drop (stop - start) = [] ∨
      doDecode (data.drop (stop - start)) = ⟨0, none⟩) := by
  induction fuel generalizing start decoder data with
  | zero =>
      obtain ⟨same, -⟩ := Prod.mk.inj outcome
      obtain rfl := Option.some.inj same
      obtain rfl : data = [] := List.eq_nil_of_length_eq_zero (Nat.le_zero.mp enough)
      exact ⟨le_rfl, .inr (.inl List.drop_nil)⟩
  | succ fuel ih =>
      simp only [decodeLoop] at outcome
      split at outcome
      · next ends =>
          obtain ⟨same, rfl⟩ := Prod.mk.inj outcome
          obtain rfl := Option.some.inj same
          rw [Nat.sub_self, List.drop_zero]
          exact ⟨le_rfl, ends.elim (fun empty => .inr (.inl empty)) fun aborted => .inl aborted⟩
      · next continues =>
          rw [not_or] at continues
          have positive := List.length_pos_of_ne_nil continues.1
          split at outcome
          · cases outcome
          · next succeeds =>
              split at outcome
              · next waits =>
                  obtain ⟨same, rfl⟩ := Prod.mk.inj outcome
                  obtain rfl := Option.some.inj same
                  rw [Nat.sub_self, List.drop_zero]
                  have nothing := quiet data waits
                  refine ⟨le_rfl, .inr (.inr ?_)⟩
                  cases decoded : doDecode data with
                  | mk ret message =>
                      rw [decoded] at waits nothing
                      rw [show ret = 0 from waits, show message = none from nothing]
              · next takes =>
                  have taken : 0 < (doDecode data).ret.toNat := by omega
                  obtain ⟨le, stops⟩ := ih (by rw [List.length_drop]; omega) outcome
                  rw [List.drop_drop] at stops
                  have shift : (doDecode data).ret.toNat +
                      (stop - (start + (doDecode data).ret.toNat)) = stop - start := by omega
                  rw [shift] at stops
                  exact ⟨by omega, stops⟩

/-- Data at which decoding has stopped is not decoded again. -/
theorem decodeBuffer_idle {data : Bytes} (nonempty : data ≠ [])
    (idle : decoder.abort = true ∨ doDecode data = ⟨0, none⟩) :
    decoder.decodeBuffer doDecode listener data = (some 0, decoder) := by
  obtain ⟨byte, rest, rfl⟩ := List.exists_cons_of_ne_nil nonempty
  rw [decodeBuffer, List.length_cons, decodeLoop]
  by_cases aborted : decoder.abort = true
  · rw [if_pos (.inr aborted)]
  · have waits := idle.resolve_left aborted
    rw [if_neg (by simp [aborted])]
    simp [waits, emit]

/-- **Data that does not fit is kept beyond the limit.** -/
theorem Compacted.overfull (compacted : decoder.Compacted) {data : Bytes}
    (quiet : Quiet doDecode) (empty : decoder.buffer = [])
    (exceeds : toSizeT decoder.maxBufferSize < (decoder.undecoded doDecode listener data : Int)) :
    ¬ (decoder.feed doDecode listener data).2.Asserted := by
  rw [BufferedMessageDecoder.feed]
  simp only [checkBuffer_of_compacted compacted.position, if_pos empty]
  have leaves : Leaves decoder (decoder.decodeBuffer doDecode listener data).2 :=
    leaves_decodeLoop
  have limitNonneg := toSizeT_nonneg decoder.maxBufferSize
  rw [undecoded] at exceeds
  split
  · next failed outcome =>
      rw [outcome, Option.map_none, Option.getD_none] at exceeds
      omega
  · next stop after outcome =>
      rw [outcome] at leaves exceeds
      rw [Option.map_some, Option.getD_some] at exceeds
      obtain ⟨-, stops⟩ := decodeLoop_stops quiet le_rfl outcome
      rw [Nat.sub_zero] at stops
      have state : after.buffer = [] ∧ after.position = 0 := by
        rcases leaves.buffer with ⟨buffer, position⟩ | cleared
        · exact ⟨buffer.trans empty, position.trans compacted.position⟩
        · exact cleared
      have nonempty : data.drop stop ≠ [] := by
        refine List.ne_nil_of_length_pos ?_
        rw [List.length_drop]
        omega
      rw [if_pos (by omega), state.1, List.nil_append]
      have idle := @decodeBuffer_idle Message { after with buffer := data.drop stop } doDecode
        listener (data.drop stop) nonempty
        (stops.imp_right fun waits => waits.resolve_left nonempty)
      rw [BufferedMessageDecoder.feedBuffered, if_neg nonempty]
      simp only [state.2] at idle ⊢
      simp only [idle, Nat.add_zero]
      rw [checkBuffer_of_compacted rfl]
      rintro ⟨-, size⟩
      have limit : toSizeT after.maxBufferSize = toSizeT decoder.maxBufferSize :=
        congrArg toSizeT leaves.limit
      simp only [limit, List.length_drop] at size
      omega

/-- A quiet decoder fails an assertion after data that does not fit. -/
theorem Compacted.not_asserted {next : BufferedMessageDecoder Message} {call : Call Message}
    (compacted : decoder.Compacted) (quiet : Quiet call.doDecode) (exceeds : ¬ decoder.Fits call)
    (happens : BufferedMessageDecoder.step decoder call = some next) : ¬ next.Asserted := by
  intro asserted
  obtain rfl := Option.some.inj happens
  obtain ⟨doDecode, listener, event⟩ := call
  cases event with
  | feed data =>
      simp only [Fits, checkBuffer_of_compacted compacted.position, Classical.not_imp,
        not_le] at exceeds
      exact compacted.overfull quiet exceeds.1 exceeds.2 asserted
  | abort => exact exceeds trivial
  | reset => exact exceeds trivial
  | setMaxBufferSize maxBufferSize =>
      rw [Fits, Classical.not_imp] at exceeds
      rw [BufferedMessageDecoder.apply, if_neg (by omega)] at asserted
      exact exceeds.2 asserted.size

/-- **The bound of the buffer.**  The assertions hold on every call, and data that exceeds
the limit together with what is kept is reported, when no data that arrives while nothing is
kept leaves more than the limit.  Decoders that emit nothing when they wait for more data
keep the assertions in no other run. -/
theorem asserted_of_fits (maxBufferSize : Int) (calls : List (Call Message)) :
    let decoder : BufferedMessageDecoder Message := create maxBufferSize
    (Guarded step Fits decoder calls → Throughout step Asserted decoder calls ∧
      Guarded step Reported decoder calls) ∧
    ((∀ call ∈ calls, Quiet call.doDecode) →
      (Throughout step Asserted decoder calls ↔ Guarded step Fits decoder calls)) := by
  intro decoder
  have start : decoder.Compacted := compacted_create maxBufferSize
  have asserted : Guarded step Fits decoder calls → Throughout step Asserted decoder calls :=
    fun guarded => (throughout_of_guarded (fun _ _ _ compacted fits happens =>
      Compacted.step compacted fits happens) start guarded).imp fun _ compacted =>
        Compacted.asserted compacted
  refine ⟨fun guarded => ⟨asserted guarded, ?_⟩, fun quiet => ⟨fun throughout => ?_, asserted⟩⟩
  rotate_left
  · exact guarded_of_throughout (fun _ _ _ compacted fits happens =>
      Compacted.step compacted fits happens) (fun _ _ _ compacted quiet exceeds happens =>
        compacted.not_asserted quiet exceeds happens) start quiet throughout
  exact guarded.imp_of_invariant (fun _ _ _ compacted fits happens =>
    Compacted.step compacted fits happens) (fun _ call compacted _ =>
      Compacted.reported compacted call) start

/-- Two lines in three feeds, and what would exceed the limit is reported. -/
theorem asserted_of_fits_lines :
    Throughout step Asserted (create 8 : BufferedMessageDecoder Bytes)
      [⟨lineDoDecode crlf, keepsOn, .feed (ascii "one\r\ntwo")⟩,
        ⟨lineDoDecode crlf, keepsOn, .feed (ascii "\r\nthree")⟩,
        ⟨lineDoDecode crlf, keepsOn, .feed (ascii "four")⟩] := by
  refine ((asserted_of_fits 8 _).1 ?_).1
  rintro _ ⟨⟩
  refine ⟨fun _ => by decide +kernel, ?_⟩
  rintro _ ⟨⟩
  refine ⟨fun _ => by decide +kernel, ?_⟩
  rintro _ ⟨⟩
  exact ⟨fun _ => by decide +kernel, trivial⟩

/-- Data of twice the limit that is not decoded. -/
theorem direct_feed_exceeds :
    ¬ ∀ calls : List (Call Bytes), (∀ call ∈ calls, ∀ maxBufferSize,
        call.event ≠ .setMaxBufferSize maxBufferSize) →
      Throughout step Asserted (create 4) calls := by
  intro throughout
  have kept := throughout [⟨lineDoDecode crlf, keepsOn, .feed (ascii "no line")⟩] (by simp)
  have asserted := (kept.2 _ rfl).size
  exact absurd asserted (by decide +kernel)

end BufferedMessageDecoder

end Xul
