import Xul.Io.Codec.BufferedMessageDecoder
import Xul.Net.Http.HttpRequest

/-!
# Decoding requests

`http_request_decoder` waits for the header of a request, and hands out what follows it as data.
At a header that it rejects it aborts and reports an error, and so does the decoder it derives
from, which it tells of the failure.  An aborted decoder keeps what it is fed, and reports an error
when that exceeds its limit.

Between two resets a run reports more than one error exactly when it feeds such a header, or
exceeds the limit after an error (`reportsOnce_iff_tolerable`).  No message follows an error.
-/

set_option autoImplicit false

namespace Xul

open Foundation

/-- `decoder_message`. -/
inductive DecoderMessage where
  | request (request : HttpRequest)
  | data (data : Bytes)
deriving DecidableEq

structure HttpRequestDecoder extends BufferedMessageDecoder DecoderMessage where
  receivingHeader : Bool
deriving DecidableEq

namespace HttpRequestDecoder

open BufferedMessageDecoder (Event)

def defaultMaxBufferSize : Int := 8 * 1024

def create : HttpRequestDecoder :=
  { BufferedMessageDecoder.create defaultMaxBufferSize with receivingHeader := true }

def reset (decoder : HttpRequestDecoder) : HttpRequestDecoder :=
  { decoder.toBufferedMessageDecoder.reset with receivingHeader := true }

/-- `abort`, which calls the `reset` of the subclass. -/
def doAbort (decoder : HttpRequestDecoder) : HttpRequestDecoder :=
  { decoder.toBufferedMessageDecoder.doAbort with receivingHeader := true }

/-- The decoder aborts and tells its listener. -/
def fail (errcode : Int) (decoder : HttpRequestDecoder) : HttpRequestDecoder :=
  { decoder.doAbort with log := decoder.doAbort.log ++ [.failed errcode] }

/-- A message is emitted, and the listener may abort. -/
def emit (listener : DecoderListener DecoderMessage) (decoder : HttpRequestDecoder)
    (message : DecoderMessage) : HttpRequestDecoder :=
  let told := { decoder with log := decoder.log ++ [.message message] }
  if listener told.log then told.doAbort else told

def doDecode (listener : DecoderListener DecoderMessage) (decoder : HttpRequestDecoder)
    (data : Bytes) : Int × HttpRequestDecoder :=
  if decoder.receivingHeader then
    match HttpMessage.findHeaderEnd data with
    | none => (0, decoder)
    | some pos =>
        let headerSize := pos + 4
        match parseRequest data headerSize with
        | none => (-1, decoder.fail (-1))
        | some request =>
            (headerSize, { decoder.emit listener (.request request) with receivingHeader := false })
  else (data.length, decoder.emit listener (.data data))

/-- The loop of `decode_buffer`; it yields what is processed, or nothing when decoding
has failed. -/
def decodeLoop (listener : DecoderListener DecoderMessage) :
    Nat → Nat → HttpRequestDecoder → Bytes → Option Nat × HttpRequestDecoder
  | 0, processedSize, decoder, _ => (some processedSize, decoder)
  | fuel + 1, processedSize, decoder, data =>
      if data = [] ∨ decoder.abort then (some processedSize, decoder)
      else
        let decoded := decoder.doDecode listener data
        if decoded.1 < 0 then (none, decoded.2.fail 1)
        else if decoded.1 = 0 then (some processedSize, decoded.2)
        else
          decodeLoop listener fuel (processedSize + decoded.1.toNat) decoded.2
            (data.drop decoded.1.toNat)

/-- `decode_buffer`: every turn of its loop takes a byte at least. -/
def decodeBuffer (listener : DecoderListener DecoderMessage) (decoder : HttpRequestDecoder)
    (data : Bytes) : Option Nat × HttpRequestDecoder :=
  decodeLoop listener data.length 0 decoder data

def checkBuffer (decoder : HttpRequestDecoder) : HttpRequestDecoder :=
  { decoder.toBufferedMessageDecoder.checkBuffer with receivingHeader := decoder.receivingHeader }

/-- The end of `feed`: what is in the buffer is decoded. -/
def feedBuffered (listener : DecoderListener DecoderMessage) (decoder : HttpRequestDecoder) :
    Bool × HttpRequestDecoder :=
  if decoder.buffer = [] then (true, decoder)
  else
    match decoder.decodeBuffer listener decoder.buffer with
    | (none, failed) => (true, failed)
    | (some processedSize, decoded) =>
        let compacted :=
          { decoded with position := decoded.position + processedSize }.checkBuffer
        (compacted.buffer = [], compacted)

def feed (listener : DecoderListener DecoderMessage) (decoder : HttpRequestDecoder)
    (data : Bytes) : Bool × HttpRequestDecoder :=
  let decoder := decoder.checkBuffer
  if decoder.buffer = [] then
    match decoder.decodeBuffer listener data with
    | (none, failed) => (true, failed)
    | (some processedSize, decoded) =>
        { decoded with buffer :=
          if processedSize < data.length then decoded.buffer ++ data.drop processedSize
          else decoded.buffer }.feedBuffered listener
  else if toSizeT decoder.maxBufferSize < decoder.buffer.length + data.length then
    (true, decoder.fail 1)
  else { decoder with buffer := decoder.buffer ++ data }.feedBuffered listener

def apply (listener : DecoderListener DecoderMessage) (decoder : HttpRequestDecoder) :
    Event → HttpRequestDecoder
  | .feed data => (decoder.feed listener data).2
  | .abort => decoder.doAbort
  | .reset => decoder.reset
  | .setMaxBufferSize maxBufferSize =>
      if maxBufferSize < 1 then decoder else { decoder with maxBufferSize }

def step (listener : DecoderListener DecoderMessage) (decoder : HttpRequestDecoder)
    (event : Event) : Option HttpRequestDecoder :=
  some (decoder.apply listener event)

/-! ## Errors -/

/-- An error is in the log, behind its last `reset`. -/
def failedIn (log : List (DecoderEntry DecoderMessage)) : Bool :=
  log.foldl (fun failed entry =>
    match entry with
    | .failed _ => true
    | .reset => false
    | _ => failed) false

/-- Nothing but a `reset` makes way for a message or for another error. -/
def Allowed (before : List (DecoderEntry DecoderMessage)) : DecoderEntry DecoderMessage → Prop
  | .message _ | .failed _ => failedIn before = false
  | _ => True

/-- Between two resets there is at most one error, and no message follows it. -/
def ReportsOnce (decoder : HttpRequestDecoder) : Prop := EachAllowed Allowed decoder.log

/-- The header at the beginning of the data is one that the parser rejects. -/
def Rejected (data : Bytes) : Prop :=
  ∃ pos, HttpMessage.findHeaderEnd data = some pos ∧ parseRequest data (pos + 4) = none

/-- The data does not begin with a header that the decoder rejects. -/
def Ready (decoder : HttpRequestDecoder) (data : Bytes) : Prop :=
  decoder.abort = false → decoder.receivingHeader = true → ¬ Rejected data

/-- The data does not fit behind what is kept. -/
def Exceeds (decoder : HttpRequestDecoder) (data : Bytes) : Prop :=
  decoder.buffer ≠ [] ∧ toSizeT decoder.maxBufferSize < decoder.buffer.length + data.length

/-- A feed exceeds the limit before there is an error, or leads to no header that is rejected. -/
def Tolerable (decoder : HttpRequestDecoder) : Event → Prop
  | .feed data =>
      (decoder.Exceeds data → failedIn decoder.log = false) ∧
        (¬ decoder.Exceeds data → decoder.Ready (decoder.buffer ++ data))
  | _ => True

/-- What holds between the calls. -/
structure Sound (decoder : HttpRequestDecoder) : Prop where
  once : decoder.ReportsOnce
  aborted : failedIn decoder.log = true → decoder.abort = true
  position : decoder.position = 0

variable {decoder : HttpRequestDecoder} {listener : DecoderListener DecoderMessage}

theorem failedIn_snoc (log : List (DecoderEntry DecoderMessage))
    (entry : DecoderEntry DecoderMessage) :
    failedIn (log ++ [entry]) =
      match entry with
      | .failed _ => true
      | .reset => false
      | _ => failedIn log := by
  rw [failedIn, List.foldl_append]
  rfl

theorem sound_create : create.Sound := ⟨eachAllowed_nil, nofun, rfl⟩

theorem Sound.doAbort (sound : decoder.Sound) : decoder.doAbort.Sound :=
  ⟨eachAllowed_snoc_iff.mpr ⟨sound.once, trivial⟩, fun _ => rfl, rfl⟩

theorem Sound.reset (sound : decoder.Sound) : decoder.reset.Sound := by
  refine ⟨eachAllowed_snoc_iff.mpr ⟨sound.once, trivial⟩, ?_, rfl⟩
  intro failed
  rw [show decoder.reset.log = decoder.log ++ [.reset] from rfl, failedIn_snoc] at failed
  exact absurd failed Bool.false_ne_true

theorem log_fail (decoder : HttpRequestDecoder) (errcode : Int) :
    (decoder.fail errcode).log = decoder.log ++ [.aborted] ++ [.failed errcode] := rfl

theorem failedIn_fail (decoder : HttpRequestDecoder) (errcode : Int) :
    failedIn (decoder.fail errcode).log = true := by
  rw [log_fail, failedIn_snoc]

/-- The first error is allowed, -/
theorem Sound.fail (sound : decoder.Sound) (unfailed : failedIn decoder.log = false)
    (errcode : Int) : (decoder.fail errcode).Sound := by
  refine ⟨?_, fun _ => rfl, rfl⟩
  rw [ReportsOnce, log_fail]
  refine eachAllowed_snoc_iff.mpr ⟨sound.doAbort.once, ?_⟩
  show failedIn (decoder.log ++ [.aborted]) = false
  rwa [failedIn_snoc]

/-- and another is not. -/
theorem not_reportsOnce_fail (failed : failedIn decoder.log = true) (errcode : Int) :
    ¬ (decoder.fail errcode).ReportsOnce := by
  intro once
  rw [ReportsOnce, log_fail] at once
  have allowed : failedIn (decoder.log ++ [.aborted]) = false := (eachAllowed_snoc_iff.mp once).2
  rw [failedIn_snoc] at allowed
  exact absurd (failed.symm.trans allowed) nofun

theorem Sound.emit (sound : decoder.Sound) (alive : decoder.abort = false)
    (message : DecoderMessage) : (decoder.emit listener message).Sound := by
  have unfailed : failedIn decoder.log = false := by
    by_contra failed
    exact absurd (alive.symm.trans (sound.aborted (eq_true_of_ne_false failed))) nofun
  have told : Sound { decoder with log := decoder.log ++ [.message message] } := by
    refine ⟨eachAllowed_snoc_iff.mpr ⟨sound.once, unfailed⟩, ?_, sound.position⟩
    intro failed
    rw [failedIn_snoc] at failed
    exact sound.aborted failed
  simp only [HttpRequestDecoder.emit]
  split
  · exact told.doAbort
  · exact told

theorem buffer_emit (decoder : HttpRequestDecoder) (message : DecoderMessage) :
    (decoder.emit listener message).buffer = decoder.buffer ∨
      (decoder.emit listener message).buffer = [] := by
  simp only [HttpRequestDecoder.emit]
  split
  · exact .inr rfl
  · exact .inl rfl

/-! ## Decoding -/

/-- What `decode_buffer` leaves when it does not fail. -/
structure Decoded (decoder : HttpRequestDecoder) (left : Bytes) (after : HttpRequestDecoder) :
    Prop where
  sound : after.Sound
  buffer : after.buffer = decoder.buffer ∨ after.buffer = []
  ready : after.Ready left

theorem Sound.emitting (sound : decoder.Sound) (alive : decoder.abort = false)
    (message : DecoderMessage) (receivingHeader : Bool) :
    Sound { decoder.emit listener message with receivingHeader } := by
  have told := @Sound.emit decoder listener sound alive message
  exact ⟨told.once, told.aborted, told.position⟩

/-- A message leaves the buffer as it is, or empty. -/
theorem Decoded.of_emit {message : DecoderMessage} {receivingHeader : Bool} {left : Bytes}
    {after : HttpRequestDecoder}
    (decoded : Decoded { decoder.emit listener message with receivingHeader } left after) :
    decoder.Decoded left after := by
  refine ⟨decoded.sound, ?_, decoded.ready⟩
  rcases decoded.buffer with same | empty
  · rw [same]
    exact decoder.buffer_emit message
  · exact .inr empty

theorem ready_nil (decoder : HttpRequestDecoder) : decoder.Ready [] := by
  rintro - - ⟨pos, found, -⟩
  cases found

/-- **Data that is ready is decoded without an error.** -/
theorem Sound.decodeLoop {fuel start : Nat} {data : Bytes} (sound : decoder.Sound)
    (ready : decoder.Ready data) (enough : data.length ≤ fuel) :
    ∃ size after, HttpRequestDecoder.decodeLoop listener fuel start decoder data =
      (some (start + size), after) ∧ decoder.Decoded (data.drop size) after := by
  have stays : decoder.Decoded (data.drop 0) decoder := ⟨sound, .inl rfl, ready⟩
  induction fuel generalizing start decoder data with
  | zero => exact ⟨0, decoder, rfl, stays⟩
  | succ fuel ih =>
      rw [HttpRequestDecoder.decodeLoop]
      by_cases ends : data = [] ∨ decoder.abort = true
      · exact ⟨0, decoder, by rw [if_pos ends]; rfl, stays⟩
      · rw [if_neg ends]
        rw [not_or, Bool.not_eq_true] at ends
        obtain ⟨nonempty, alive⟩ := ends
        have positive := List.length_pos_of_ne_nil nonempty
        -- What a message leaves is ready: no other header is parsed.
        have goesOn : ∀ (message : DecoderMessage) (receivingHeader : Bool) (size : Nat),
            0 < size →
            ({ decoder.emit listener message with receivingHeader } : HttpRequestDecoder).Ready
              (data.drop size) →
            ∃ more after, HttpRequestDecoder.decodeLoop listener fuel (start + size)
              { decoder.emit listener message with receivingHeader } (data.drop size) =
                (some (start + more), after) ∧ decoder.Decoded (data.drop more) after := by
          intro message receivingHeader size some again
          obtain ⟨more, after, outcome, decoded⟩ := ih (sound.emitting alive message _) again
            (by rw [List.length_drop]; omega) ⟨sound.emitting alive message _, .inl rfl, again⟩
          rw [List.drop_drop] at decoded
          exact ⟨size + more, after, by rw [outcome, Nat.add_assoc], decoded.of_emit⟩
        by_cases receiving : decoder.receivingHeader = true
        · cases found : HttpMessage.findHeaderEnd data with
          | none =>
              have waits : decoder.doDecode listener data = (0, decoder) := by
                rw [doDecode, if_pos receiving, found]
              rw [waits]
              exact ⟨0, decoder, rfl, stays⟩
          | some pos =>
              cases parsed : parseRequest data (pos + 4) with
              | none => exact absurd ⟨pos, found, parsed⟩ (ready alive receiving)
              | some request =>
                  have takes : decoder.doDecode listener data = (((pos + 4 : Nat) : Int),
                      { decoder.emit listener (.request request) with receivingHeader := false }) := by
                    simp only [doDecode, if_pos receiving, found, parsed]
                  have turn := goesOn (.request request) false (pos + 4) (Nat.succ_pos _) nofun
                  rw [takes]
                  simp only [Int.toNat_natCast]
                  rw [if_neg (by omega), if_neg (by omega)]
                  exact turn
        · have takes : decoder.doDecode listener data = ((data.length : Int),
              decoder.emit listener (.data data)) := by
            rw [doDecode, if_neg receiving]
          have turn := goesOn (.data data) (decoder.emit listener (.data data)).receivingHeader
            data.length positive (by rw [List.drop_length]; exact ready_nil _)
          rw [takes]
          simp only [Int.toNat_natCast]
          rw [if_neg (by omega), if_neg (by omega)]
          exact turn

/-- A header that is rejected is reported twice. -/
theorem decodeBuffer_of_rejected {data : Bytes} (alive : decoder.abort = false)
    (receiving : decoder.receivingHeader = true) (rejected : Rejected data) :
    decoder.decodeBuffer listener data = (none, (decoder.fail (-1)).fail 1) := by
  obtain ⟨pos, found, parsed⟩ := rejected
  cases data with
  | nil => exact absurd ⟨pos, found, parsed⟩ (ready_nil decoder alive receiving)
  | cons byte data =>
      have fails : decoder.doDecode listener (byte :: data) = (-1, decoder.fail (-1)) := by
        simp only [doDecode, if_pos receiving, found, parsed]
      rw [decodeBuffer, List.length_cons, HttpRequestDecoder.decodeLoop, if_neg (by simp [alive]),
        fails]
      rfl

/-! ## Feeding -/

theorem checkBuffer_of_position (position : decoder.position = 0) :
    decoder.checkBuffer = decoder := by
  rw [checkBuffer, BufferedMessageDecoder.checkBuffer, if_neg (by omega)]

theorem Sound.checkBuffer (sound : decoder.Sound) (position : Nat) :
    ({ decoder with position } : HttpRequestDecoder).checkBuffer.Sound := by
  rw [HttpRequestDecoder.checkBuffer, BufferedMessageDecoder.checkBuffer]
  split
  · exact ⟨sound.once, sound.aborted, rfl⟩
  · next zero => exact ⟨sound.once, sound.aborted, Nat.eq_zero_of_not_pos zero⟩

theorem Sound.feedBuffered (sound : decoder.Sound) (ready : decoder.Ready decoder.buffer) :
    (decoder.feedBuffered listener).2.Sound := by
  rw [HttpRequestDecoder.feedBuffered]
  split
  · exact sound
  · obtain ⟨size, after, outcome, decoded⟩ :=
      @Sound.decodeLoop decoder listener _ 0 _ sound ready le_rfl
    rw [decodeBuffer, outcome]
    exact decoded.sound.checkBuffer _

theorem Sound.feed (sound : decoder.Sound) {data : Bytes}
    (tolerable : decoder.Tolerable (.feed data)) : (decoder.feed listener data).2.Sound := by
  obtain ⟨first, ready⟩ := tolerable
  rw [HttpRequestDecoder.feed]
  simp only [checkBuffer_of_position sound.position]
  by_cases empty : decoder.buffer = []
  · have fits : ¬ decoder.Exceeds data := fun exceeds => exceeds.1 empty
    have start : decoder.Ready data := by
      have here := ready fits
      rwa [empty, List.nil_append] at here
    obtain ⟨size, after, outcome, decoded⟩ :=
      @Sound.decodeLoop decoder listener _ 0 _ sound start le_rfl
    have cleared : after.buffer = [] := decoded.buffer.elim (fun same => same.trans empty) id
    rw [if_pos empty, decodeBuffer, outcome, Nat.zero_add]
    refine Sound.feedBuffered ⟨decoded.sound.once, decoded.sound.aborted, decoded.sound.position⟩ ?_
    simp only [cleared, List.nil_append]
    split
    · exact decoded.ready
    · exact ready_nil _
  · rw [if_neg empty]
    split
    · next exceeds => exact sound.fail (first ⟨empty, exceeds⟩) 1
    · next fits =>
        exact Sound.feedBuffered ⟨sound.once, sound.aborted, sound.position⟩
          (ready fun exceeds => fits exceeds.2)

theorem Sound.step {event : Event} {next : HttpRequestDecoder} (sound : decoder.Sound)
    (tolerable : decoder.Tolerable event) (happens : decoder.step listener event = some next) :
    next.Sound := by
  obtain rfl := Option.some.inj happens
  cases event with
  | feed data => exact sound.feed tolerable
  | abort => exact sound.doAbort
  | reset => exact sound.reset
  | setMaxBufferSize maxBufferSize =>
      rw [apply]
      split
      · exact sound
      · exact ⟨sound.once, sound.aborted, sound.position⟩

/-- A feed that is not tolerable is reported once more. -/
theorem Sound.not_reportsOnce {event : Event} {next : HttpRequestDecoder} (sound : decoder.Sound)
    (intolerable : ¬ decoder.Tolerable event) (happens : decoder.step listener event = some next) :
    ¬ next.ReportsOnce := by
  obtain rfl := Option.some.inj happens
  cases event with
  | feed data =>
      rw [apply, HttpRequestDecoder.feed]
      simp only [checkBuffer_of_position sound.position]
      by_cases exceeds : decoder.Exceeds data
      · have failed : failedIn decoder.log = true := by
          by_contra unfailed
          refine intolerable ⟨fun _ => eq_false_of_ne_true unfailed, fun fits => ?_⟩
          exact absurd exceeds fits
        rw [if_neg exceeds.1, if_pos exceeds.2]
        exact not_reportsOnce_fail failed 1
      · have rejected : decoder.abort = false ∧ decoder.receivingHeader = true ∧
            Rejected (decoder.buffer ++ data) := by
          by_contra accepted
          refine intolerable ⟨fun reported => absurd reported exceeds, ?_⟩
          intro _ alive receiving rejected
          exact accepted ⟨alive, receiving, rejected⟩
        obtain ⟨alive, receiving, rejected⟩ := rejected
        have twice : ∀ buffer,
            ¬ ReportsOnce ((HttpRequestDecoder.fail (-1) { decoder with buffer }).fail 1) := by
          intro buffer
          exact not_reportsOnce_fail (failedIn_fail _ (-1)) 1
        by_cases empty : decoder.buffer = []
        · rw [empty, List.nil_append] at rejected
          rw [if_pos empty, decodeBuffer_of_rejected alive receiving rejected]
          exact twice decoder.buffer
        · have fits : ¬ toSizeT decoder.maxBufferSize < decoder.buffer.length + data.length :=
            fun beyond => exceeds ⟨empty, beyond⟩
          have nonempty : decoder.buffer ++ data ≠ [] := List.append_ne_nil_of_left_ne_nil empty _
          have decoded := @decodeBuffer_of_rejected
            { decoder with buffer := decoder.buffer ++ data } listener _ alive receiving rejected
          rw [if_neg empty, if_neg fits, HttpRequestDecoder.feedBuffered, if_neg nonempty, decoded]
          exact twice (decoder.buffer ++ data)
  | abort | reset | setMaxBufferSize => exact absurd trivial intolerable

/-- **Between two resets an error is reported once, and no message after it, in the runs that feed
no header that is rejected, and exceed the limit before there is an error only.** -/
theorem reportsOnce_iff_tolerable (listener : DecoderListener DecoderMessage)
    (events : List Event) :
    Throughout (step listener) ReportsOnce create events ↔
      Guarded (step listener) Tolerable create events :=
  throughout_iff_guarded (fun _ sound => sound.once)
    (fun _ _ _ sound tolerable happens => sound.step tolerable happens)
    (fun _ _ _ sound intolerable happens => sound.not_reportsOnce intolerable happens) sound_create

/-- A header without a request line. -/
theorem empty_header_reported_twice :
    ¬ Throughout (step BufferedMessageDecoder.keepsOn) ReportsOnce create
      [.feed (crlf ++ crlf)] := by
  rintro ⟨-, later⟩
  have once : ReportsOnce (create.apply BufferedMessageDecoder.keepsOn (.feed (crlf ++ crlf))) :=
    later _ rfl
  have log : (create.apply BufferedMessageDecoder.keepsOn (.feed (crlf ++ crlf))).log =
      [.aborted, .failed (-1), .aborted, .failed 1] := by decide +kernel
  have allowed := once [.aborted, .failed (-1), .aborted] (.failed 1) [] log
  exact absurd (show failedIn [.aborted, .failed (-1), .aborted] = false from allowed) (by decide)

end HttpRequestDecoder

end Xul
