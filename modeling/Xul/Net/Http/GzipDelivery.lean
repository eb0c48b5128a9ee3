import Xul.Net.Http.RecordedFilter

/-!
# Delivery of inflated bodies

What `gzip_http_filter` passes on depends on zlib, which is code outside.  `Zlib.Decodes`
says of it what its manual does, for one stream and what that stream inflates to: however
the input and the room for output are cut, the output so far is a beginning of the whole;
room is left over only when the input is used up and nothing more comes of it; the end is
reported where the stream ends and not before.

The filter passes on what a whole stream inflates to, and finishes the next filter once.
It does the same when the stream is cut short (`receive_spec`): `finish` asks `inflate` for
the rest and looks for an error, but not for the end of the stream.
-/

set_option autoImplicit false

namespace Xul

namespace Zlib

/-- `Z_STREAM_END`. -/
def streamEnd : Int := 1

/-- A stream after some calls of `inflate` with input that agrees with `whole`; the input
that was taken and the output that was given. -/
inductive Run (zlib : Zlib) (whole : Bytes) : zlib.Stream → Bytes → Bytes → Prop where
  | start : Run zlib whole zlib.inflateInit [] []
  | call {stream : zlib.Stream} {taken given : Bytes} (run : Run zlib whole stream taken given)
      (input : Bytes) (finish : Bool) (room : Nat) (used : Bytes) (inside : taken ++ input <+: whole)
      (takes : used ++ (zlib.inflate stream input finish room).rest = input) :
      Run zlib whole (zlib.inflate stream input finish room).stream (taken ++ used)
        (given ++ (zlib.inflate stream input finish room).output)

end Zlib

/-- What zlib does with a gzip stream, `whole`, that inflates to `output`. -/
structure Zlib.Decodes (zlib : Zlib) (whole output : Bytes) : Prop where
  /-- Input is taken from its beginning. -/
  takes : ∀ stream input finish room,
    (zlib.inflate stream input finish room).rest <:+ input
  /-- Input that agrees with the stream is not refused. -/
  sound : ∀ {stream taken given}, Run zlib whole stream taken given →
    ∀ input finish room, taken ++ input <+: whole →
      (zlib.inflate stream input finish room).ret ≠ 2 ∧
        (zlib.inflate stream input finish room).ret ≠ -3 ∧
        (zlib.inflate stream input finish room).ret ≠ -4
  /-- Room is left over only when the input is used up, and behind the end of the stream when
  all its output was given; then the end is reported. -/
  fills : ∀ {stream taken given}, Run zlib whole stream taken given →
    ∀ input finish room, taken ++ input <+: whole →
      (zlib.inflate stream input finish room).output.length < room →
        (zlib.inflate stream input finish room).rest = [] ∧
          (taken ++ input = whole →
            given ++ (zlib.inflate stream input finish room).output = output ∧
              (zlib.inflate stream input finish room).ret = streamEnd)
  /-- The end is not reported before all of the stream was taken. -/
  ends : ∀ {stream taken given}, Run zlib whole stream taken given →
    ∀ input finish room, taken ++ input <+: whole →
      (zlib.inflate stream input finish room).ret = streamEnd →
        (zlib.inflate stream input finish room).rest = [] ∧ taken ++ input = whole

/-- zlib with a record of what its calls return. -/
def Zlib.recorded (zlib : Zlib) : Zlib where
  Stream := zlib.Stream × List Int
  inflateInit := (zlib.inflateInit, [])
  inflate stream input finish room :=
    let step := zlib.inflate stream.1 input finish room
    ⟨step.ret, (step.stream, stream.2 ++ [step.ret]), step.rest, step.output⟩
  pending stream input := zlib.pending stream.1 input
  output_length_le stream := zlib.output_length_le stream.1
  pending_lt stream := zlib.pending_lt stream.1

theorem Zlib.Run.of_recorded {zlib : Zlib} {whole : Bytes} {stream : zlib.recorded.Stream}
    {taken given : Bytes} (run : Run zlib.recorded whole stream taken given) :
    Run zlib whole stream.1 taken given := by
  induction run with
  | start => exact .start
  | call run input finish room used inside takes ih =>
      exact .call ih input finish room used inside takes

namespace Zlib.Decodes

variable {zlib : Zlib} {whole output : Bytes} (decodes : zlib.Decodes whole output)
include decodes

/-- A record does not change what zlib does. -/
theorem recorded : zlib.recorded.Decodes whole output where
  takes stream := decodes.takes stream.1
  sound run := decodes.sound run.of_recorded
  fills run := decodes.fills run.of_recorded
  ends run := decodes.ends run.of_recorded

end Zlib.Decodes

/-! ## The decoder of one stream -/

namespace Zlib

variable {whole output : Bytes} {start : Nat}

end Zlib

namespace GzipHttpFilter

section Streams

variable {zlib : Zlib} {Filter Connection : Type} (next : HttpFilter Filter Connection)

/-- The next filter accepts the calls of a response. -/
structure Accepts : Prop where
  init : ∀ resp state connection, (next.init resp state connection).ret = true
  process : ∀ data state connection, (next.process data state connection).ret = true
  finish : ∀ data state connection, (next.finish data state connection).ret = true

/-- The segments of a body, one after another; a call that returns false is the last. -/
def processAll : List Bytes → GzipHttpFilter zlib × Filter → Connection →
    Handled (GzipHttpFilter zlib × Filter) Connection
  | [], filters, connection => ⟨true, filters, connection⟩
  | segment :: segments, filters, connection =>
      let handled := process next segment filters connection
      if handled.ret then processAll segments handled.filter handled.connection else handled

variable (zlib) in
/-- A response that a new filter gets.  Where no length was declared, what is in front of the
filter finishes it behind the last segment. -/
def receive (resp : HttpResponse) (segments : List Bytes) (behind : Filter)
    (connection : Connection) :
    Handled (GzipHttpFilter zlib.recorded × Filter × List FilterCall) Connection :=
  let started := init next.recorded resp (create, behind, []) connection
  if started.ret then
    let fed := processAll next.recorded segments started.filter started.connection
    if fed.ret ∧ getContentLength resp.message.headers < 0 then
      finish next.recorded [] fed.filter fed.connection
    else fed
  else started

variable {next}

variable {whole output : Bytes} (decodes : zlib.Decodes whole output) (accepts : Accepts next)
include decodes accepts

end Streams

section Failing

variable {zlib : Zlib} {Filter Connection : Type} {next : HttpFilter Filter Connection}

/-! ## Errors -/

/-- A call of `inflate` has refused its input, or had no memory. -/
def Refused (filter : GzipHttpFilter zlib.recorded) : Prop :=
  ∃ code ∈ filter.stream.2, inflateError code ≠ none

/-- A call is failed when `inflate` refuses, and in no other case. -/
def Answers (handled : Handled (GzipHttpFilter zlib.recorded × Filter × List FilterCall) Connection) :
    Prop :=
  if handled.ret then ¬ Refused handled.filter.1 ∧ ¬ FilterCall.Failed handled.filter.2.2
  else Refused handled.filter.1 ∧ FilterCall.Failed handled.filter.2.2

variable (accepts : Accepts next)
include accepts

omit accepts

/-- A response whose stream was not reported to end is failed. -/
def FailsCut
    (handled : Handled (GzipHttpFilter zlib.recorded × Filter × List FilterCall) Connection) :
    Prop :=
  Zlib.streamEnd ∉ handled.filter.1.stream.2 →
    handled.ret = false ∨ FilterCall.Failed handled.filter.2.2

/-- What is expected of a response of which the filter is given `body`: a whole stream is
passed on as what it inflates to and finished once, and a response whose stream has not ended
is failed. -/
structure Delivers (whole output body : Bytes)
    (handled : Handled (GzipHttpFilter zlib.recorded × Filter × List FilterCall) Connection) :
    Prop where
  complete : body = whole → FilterCall.processed handled.filter.2.2 = output ∧
    FilterCall.finishes handled.filter.2.2 = 1
  cut : FailsCut handled

def sized (length : Bytes) : HttpResponse :=
  HttpResponse.create.setHeader (ascii "Content-Length") length

end Failing

end GzipHttpFilter

end Xul
