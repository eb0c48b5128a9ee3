import Xul.Net.Http.ChunkedHttpFilter

/-!
# The filters of a response

The body of a response goes through filters: the last one counts it and tells the
connection, and in front of it there may be one that inflates and, in front of these,
one that decodes chunks.  A filter is its functions on its own state and on that of
the connection (`HttpFilter`), so that a filter is put in front of another by giving it
the other's functions (`set_next`).

What `end_filter` and the chunked filter assert of the calls that they get is left out: that
there is a next filter, that a chunked response declares no length, and that nothing is
processed after the last byte of a body.

What the callbacks of a connection keep is kept by every call of its filters
(`HttpFilter.Keeps`), and what announcing a response establishes, initialising them
establishes.
-/

set_option autoImplicit false

namespace Xul

/-- `inner_http_connection`: what a request and its filters call of their connection. -/
structure InnerHttpConnection (RequestInfo Connection : Type) where
  getMaxRedirects : Connection → Int
  isStarted : Connection → Bool
  redirect : RequestInfo → Connection → Connection
  handleError : Int → Connection → Connection
  abortHandling : Connection → Connection
  onError : Int → Connection → Connection
  onHeader : HttpResponse → Connection → Bool × Connection
  onContent : Bytes → Connection → Bool × Connection
  /-- The total size, and the bytes of the read that come after the response. -/
  onComplete : Int → Bytes → Connection → Bool × Connection

/-- What a call of a filter returns and leaves behind. -/
structure Handled (Filter Connection : Type) where
  ret : Bool
  filter : Filter
  connection : Connection

/-- The same outcome for a filter that stands in a larger state. -/
def Handled.map {Filter Other Connection : Type} (wrap : Filter → Other)
    (handled : Handled Filter Connection) : Handled Other Connection :=
  ⟨handled.ret, wrap handled.filter, handled.connection⟩

/-- `http_filter`, by its functions on its state and on the connection.  The sizes of
the data are those of a read, which fit an `int`. -/
structure HttpFilter (Filter Connection : Type) where
  init : HttpResponse → Filter → Connection → Handled Filter Connection
  process : Bytes → Filter → Connection → Handled Filter Connection
  finish : Bytes → Filter → Connection → Handled Filter Connection
  handleError : Int → Filter → Connection → Filter × Connection

/-- How many bytes of `size` are inside a body of which `receivedSize` bytes were
received. -/
def realSize (contentLength receivedSize : Int) (size : Nat) : Int :=
  if 0 ≤ contentLength ∧ contentLength < receivedSize + size then contentLength - receivedSize
  else size

/-! ## The last filter -/

/-- `end_filter`. -/
structure EndFilter where
  contentLength : Int
  receivedSize : Int
  finished : Bool
deriving DecidableEq

namespace EndFilter

def create : EndFilter := ⟨-1, 0, false⟩

variable {RequestInfo Connection : Type} (inner : InnerHttpConnection RequestInfo Connection)

def finish (data : Bytes) (filter : EndFilter) (connection : Connection) :
    Handled EndFilter Connection :=
  if filter.finished then ⟨false, filter, inner.abortHandling connection⟩
  else
    let completed := inner.onComplete filter.receivedSize data connection
    ⟨completed.1, { filter with finished := true }, completed.2⟩

def checkFinish (data : Bytes) (filter : EndFilter) (connection : Connection) :
    Handled EndFilter Connection :=
  if 0 ≤ filter.contentLength ∧ filter.contentLength ≤ filter.receivedSize then
    filter.finish inner data connection
  else ⟨true, filter, connection⟩

def init (resp : HttpResponse) (_ : EndFilter) (connection : Connection) :
    Handled EndFilter Connection :=
  let filter : EndFilter := ⟨getContentLength resp.message.headers, 0, false⟩
  let header := inner.onHeader resp connection
  if header.1 then filter.checkFinish inner [] header.2 else ⟨false, filter, header.2⟩

/-- `process` returns true whatever `check_finish` returns. -/
def process (data : Bytes) (filter : EndFilter) (connection : Connection) :
    Handled EndFilter Connection :=
  let realsize := realSize filter.contentLength filter.receivedSize data.length
  let filter := { filter with receivedSize := filter.receivedSize + realsize }
  let content :=
    if 0 < realsize then inner.onContent (data.take realsize.toNat) connection
    else (true, connection)
  if content.1 then
    let checked := filter.checkFinish inner (data.drop realsize.toNat) content.2
    ⟨true, checked.filter, checked.connection⟩
  else ⟨false, filter, content.2⟩

def toHttpFilter : HttpFilter EndFilter Connection where
  init := init inner
  process := process inner
  finish := finish inner
  handleError errcode filter connection := (filter, inner.onError errcode connection)

end EndFilter

/-! ## The inflating filter -/

/-- What one call of `inflate` does: its code, the input it leaves and the output it
has stored. -/
structure InflateStep (Stream : Type) where
  ret : Int
  stream : Stream
  rest : Bytes
  output : Bytes

/-- zlib, which is code outside.  A call stores no more than there is room for, and the
calls that fill the whole buffer come to an end. -/
structure Zlib where
  Stream : Type
  inflateInit : Stream
  inflate : Stream → Bytes → Bool → Nat → InflateStep Stream
  pending : Stream → Bytes → Nat
  output_length_le : ∀ stream input finish room,
    (inflate stream input finish room).output.length ≤ room
  pending_lt : ∀ stream input finish room, 0 < room →
    (inflate stream input finish room).output.length = room →
      pending (inflate stream input finish room).stream (inflate stream input finish room).rest <
        pending stream input

/-- The decoder that refuses every input. -/
def Zlib.refusing : Zlib where
  Stream := Unit
  inflateInit := ()
  inflate _ input _ _ := ⟨-3, (), input, []⟩
  pending _ _ := 0
  output_length_le _ _ _ _ := Nat.zero_le _
  pending_lt _ _ _ _ positive full := absurd full (ne_of_lt positive)

/-- `gzip_http_filter`. -/
structure GzipHttpFilter (zlib : Zlib) where
  contentLength : Int
  receivedSize : Int
  stream : zlib.Stream

namespace GzipHttpFilter

variable {zlib : Zlib}

def create : GzipHttpFilter zlib := ⟨-1, 0, zlib.inflateInit⟩

/-- The size of `m_buffer`. -/
def bufferSize : Nat := 16 * 1024

/-- The error that a code of `inflate` stands for, if it does. -/
def inflateError (ret : Int) : Option Int :=
  if ret = 2 then some (-3) else if ret = -3 ∨ ret = -4 then some ret else none

variable {Filter Connection : Type} (next : HttpFilter Filter Connection)

/-- The loop of `ungzip`. -/
def ungzipLoop (eof : Bool) : Nat → Bytes → GzipHttpFilter zlib × Filter → Connection →
    Handled (GzipHttpFilter zlib × Filter) Connection
  | 0, _, filters, connection => ⟨false, filters, connection⟩
  | fuel + 1, source, (filter, behind), connection =>
      let step := zlib.inflate filter.stream source eof bufferSize
      let filter := { filter with stream := step.stream }
      match inflateError step.ret with
      | some errcode =>
          let failed := next.handleError errcode behind connection
          ⟨false, (filter, failed.1), failed.2⟩
      | none =>
          if step.output = [] then ⟨true, (filter, behind), connection⟩
          else
            let passed := next.process step.output behind connection
            if ¬ passed.ret then ⟨false, (filter, passed.filter), passed.connection⟩
            else if step.output.length = bufferSize then
              ungzipLoop eof fuel step.rest (filter, passed.filter) passed.connection
            else ⟨true, (filter, passed.filter), passed.connection⟩

/-- `ungzip` goes on as long as the buffer is filled to its end. -/
def ungzip (eof : Bool) (source : Bytes) (filters : GzipHttpFilter zlib × Filter)
    (connection : Connection) : Handled (GzipHttpFilter zlib × Filter) Connection :=
  ungzipLoop next eof (zlib.pending filters.1.stream source + 1) source filters connection

def finish (data : Bytes) (filters : GzipHttpFilter zlib × Filter) (connection : Connection) :
    Handled (GzipHttpFilter zlib × Filter) Connection :=
  let inflated := ungzip next true [] filters connection
  if inflated.ret then
    (next.finish data inflated.filter.2 inflated.connection).map (Prod.mk inflated.filter.1)
  else inflated

def checkFinish (data : Bytes) (filters : GzipHttpFilter zlib × Filter)
    (connection : Connection) : Handled (GzipHttpFilter zlib × Filter) Connection :=
  if 0 ≤ filters.1.contentLength ∧ filters.1.contentLength ≤ filters.1.receivedSize then
    finish next data filters connection
  else ⟨true, filters, connection⟩

/-- The next filter is initialised with a response that has neither a length nor a
coding. -/
def init (resp : HttpResponse) (filters : GzipHttpFilter zlib × Filter)
    (connection : Connection) : Handled (GzipHttpFilter zlib × Filter) Connection :=
  let filter := { filters.1 with
    contentLength := getContentLength resp.message.headers
    receivedSize := 0 }
  let bare := (resp.removeHeader (ascii "Content-Length")).removeHeader (ascii "Content-Encoding")
  let started := (next.init bare filters.2 connection).map (Prod.mk filter)
  if started.ret then checkFinish next [] started.filter started.connection else started

def process (data : Bytes) (filters : GzipHttpFilter zlib × Filter) (connection : Connection) :
    Handled (GzipHttpFilter zlib × Filter) Connection :=
  let realsize := realSize filters.1.contentLength filters.1.receivedSize data.length
  let filter := { filters.1 with receivedSize := filters.1.receivedSize + realsize }
  let inflated := ungzip next false (data.take realsize.toNat) (filter, filters.2) connection
  if inflated.ret then
    checkFinish next (data.drop realsize.toNat) inflated.filter inflated.connection
  else inflated

def toHttpFilter : HttpFilter (GzipHttpFilter zlib × Filter) Connection where
  init := init next
  process := process next
  finish := finish next
  handleError errcode filters connection :=
    let failed := next.handleError errcode filters.2 connection
    ((filters.1, failed.1), failed.2)

end GzipHttpFilter

/-! ## The chunked filter in front of another -/

namespace ChunkedHttpFilter

variable {Filter Connection : Type} (next : HttpFilter Filter Connection)

/-- The calls that decoding makes; nothing looks at what they return. -/
def makeCalls : List NextCall → Filter → Connection → Filter × Connection
  | [], filter, connection => (filter, connection)
  | .process data :: calls, filter, connection =>
      let passed := next.process data filter connection
      makeCalls calls passed.filter passed.connection
  | .finish data :: calls, filter, connection =>
      let passed := next.finish data filter connection
      makeCalls calls passed.filter passed.connection

def toHttpFilter : HttpFilter (ChunkedHttpFilter × Filter) Connection where
  init resp filters connection :=
    let bare :=
      (resp.removeHeader (ascii "Content-Length")).removeHeader (ascii "Content-Encoding")
    (next.init bare filters.2 connection).map (Prod.mk filters.1.resetState)
  process data filters connection :=
    let decoded := filters.1.process data
    let passed := makeCalls next decoded.2 filters.2 connection
    ⟨true, (decoded.1, passed.1), passed.2⟩
  finish data filters connection :=
    (next.finish data filters.2 connection).map (Prod.mk filters.1)
  handleError errcode filters connection :=
    let failed := next.handleError errcode filters.2 connection
    ((filters.1.resetState, failed.1), failed.2)

end ChunkedHttpFilter

/-! ## The filters of one response -/

/-- The chains of filters that `init_filters` makes. -/
inductive HttpFilters (zlib : Zlib) where
  | identity (filters : EndFilter)
  | gzip (filters : GzipHttpFilter zlib × EndFilter)
  | chunked (filters : ChunkedHttpFilter × EndFilter)
  | chunkedGzip (filters : ChunkedHttpFilter × GzipHttpFilter zlib × EndFilter)

namespace HttpFilters

variable {zlib : Zlib} {RequestInfo Connection : Type}
  (inner : InnerHttpConnection RequestInfo Connection)

/-- `init_filters`. -/
def ofResponse (resp : HttpResponse) : HttpFilters zlib :=
  let contentEncoding := trimSpaces (resp.getHeader (ascii "Content-Encoding") [])
  let transferEncoding := trimSpaces (resp.getHeader (ascii "Transfer-Encoding") [])
  if transferEncoding = ascii "chunked" then
    if contentEncoding = ascii "gzip" then
      .chunkedGzip (ChunkedHttpFilter.create, GzipHttpFilter.create, EndFilter.create)
    else .chunked (ChunkedHttpFilter.create, EndFilter.create)
  else if contentEncoding = ascii "gzip" then .gzip (GzipHttpFilter.create, EndFilter.create)
  else .identity EndFilter.create

/-- A call of the first filter of a chain. -/
def call (run : ∀ {Filter : Type}, HttpFilter Filter Connection → Filter → Connection →
    Handled Filter Connection) (filters : HttpFilters zlib) (connection : Connection) :
    Handled (HttpFilters zlib) Connection :=
  match filters with
  | .identity state => (run (EndFilter.toHttpFilter inner) state connection).map .identity
  | .gzip state =>
      (run (GzipHttpFilter.toHttpFilter (EndFilter.toHttpFilter inner)) state connection).map .gzip
  | .chunked state =>
      (run (ChunkedHttpFilter.toHttpFilter (EndFilter.toHttpFilter inner)) state connection).map
        .chunked
  | .chunkedGzip state =>
      (run (ChunkedHttpFilter.toHttpFilter (GzipHttpFilter.toHttpFilter
        (EndFilter.toHttpFilter inner))) state connection).map .chunkedGzip

def init (resp : HttpResponse) : HttpFilters zlib → Connection →
    Handled (HttpFilters zlib) Connection :=
  call inner fun filter => filter.init resp

def process (data : Bytes) : HttpFilters zlib → Connection →
    Handled (HttpFilters zlib) Connection :=
  call inner fun filter => filter.process data

def finish (data : Bytes) : HttpFilters zlib → Connection →
    Handled (HttpFilters zlib) Connection :=
  call inner fun filter => filter.finish data

end HttpFilters

/-! ## What every call of a filter keeps -/

/-- The callbacks that filters make of their connection keep a property, but for the
announcement of the response. -/
structure InnerHttpConnection.Keeps {RequestInfo Connection : Type}
    (inner : InnerHttpConnection RequestInfo Connection) (property : Connection → Prop) :
    Prop where
  abortHandling : ∀ connection, property connection → property (inner.abortHandling connection)
  onError : ∀ errcode connection, property connection →
    property (inner.onError errcode connection)
  onContent : ∀ data connection, property connection →
    property (inner.onContent data connection).2
  onComplete : ∀ totalSize data connection, property connection →
    property (inner.onComplete totalSize data connection).2

/-- The calls of a filter keep a property, which `init` establishes where `before`
holds. -/
structure HttpFilter.Keeps {Filter Connection : Type} (filter : HttpFilter Filter Connection)
    (before property : Connection → Prop) : Prop where
  init : ∀ resp state connection, before connection →
    property (filter.init resp state connection).connection
  process : ∀ data state connection, property connection →
    property (filter.process data state connection).connection
  finish : ∀ data state connection, property connection →
    property (filter.finish data state connection).connection
  handleError : ∀ errcode state connection, property connection →
    property (filter.handleError errcode state connection).2

namespace EndFilter

variable {RequestInfo Connection : Type} {inner : InnerHttpConnection RequestInfo Connection}
  {before property : Connection → Prop}

theorem finish_keeps (keeps : inner.Keeps property) (data : Bytes) (filter : EndFilter)
    {connection : Connection} (holds : property connection) :
    property (filter.finish inner data connection).connection := by
  rw [EndFilter.finish]
  split
  · exact keeps.abortHandling connection holds
  · exact keeps.onComplete _ data connection holds

theorem checkFinish_keeps (keeps : inner.Keeps property) (data : Bytes) (filter : EndFilter)
    {connection : Connection} (holds : property connection) :
    property (filter.checkFinish inner data connection).connection := by
  rw [checkFinish]
  split
  · exact finish_keeps keeps data filter holds
  · exact holds

theorem keeps (keeps : inner.Keeps property)
    (announces : ∀ resp connection, before connection →
      property (inner.onHeader resp connection).2) :
    (toHttpFilter inner).Keeps before property where
  init resp state connection holds := by
    have announced := announces resp connection holds
    simp only [toHttpFilter, EndFilter.init]
    split
    · exact checkFinish_keeps keeps [] _ announced
    · exact announced
  process data state connection holds := by
    simp only [toHttpFilter, EndFilter.process]
    generalize realSize state.contentLength state.receivedSize data.length = realsize
    have told : property (if 0 < realsize then
        inner.onContent (data.take realsize.toNat) connection else (true, connection)).2 := by
      split
      · exact keeps.onContent _ connection holds
      · exact holds
    generalize (if 0 < realsize then
      inner.onContent (data.take realsize.toNat) connection else (true, connection)) = content
      at told ⊢
    split
    · exact checkFinish_keeps keeps _ _ told
    · exact told
  finish data state connection holds := finish_keeps keeps data state holds
  handleError errcode state connection holds := keeps.onError errcode connection holds

end EndFilter

namespace GzipHttpFilter

variable {zlib : Zlib} {Filter Connection : Type} {next : HttpFilter Filter Connection}
  {before property : Connection → Prop}

/-- The induction is on the fuel of the loop. -/
theorem ungzipLoop_keeps (keeps : next.Keeps before property) (eof : Bool) {fuel : Nat} :
    ∀ {source : Bytes} {filters : GzipHttpFilter zlib × Filter} {connection : Connection},
      property connection →
      property (ungzipLoop next eof fuel source filters connection).connection := by
  induction fuel with
  | zero =>
      intro source filters connection holds
      exact holds
  | succ fuel ih =>
      intro source filters connection holds
      obtain ⟨filter, behind⟩ := filters
      simp only [ungzipLoop]
      split
      · exact keeps.handleError _ behind connection holds
      · have passed := keeps.process
          (zlib.inflate filter.stream source eof bufferSize).output behind connection holds
        split
        · exact holds
        · split
          · exact passed
          · split
            · exact ih passed
            · exact passed

theorem finish_keeps (keeps : next.Keeps before property) (data : Bytes)
    (filters : GzipHttpFilter zlib × Filter) {connection : Connection}
    (holds : property connection) :
    property (GzipHttpFilter.finish next data filters connection).connection := by
  have inflated : property (ungzip next true [] filters connection).connection :=
    ungzipLoop_keeps keeps true holds
  simp only [GzipHttpFilter.finish]
  split
  · exact keeps.finish data _ _ inflated
  · exact inflated

theorem checkFinish_keeps (keeps : next.Keeps before property) (data : Bytes)
    (filters : GzipHttpFilter zlib × Filter) {connection : Connection}
    (holds : property connection) :
    property (GzipHttpFilter.checkFinish next data filters connection).connection := by
  rw [GzipHttpFilter.checkFinish]
  split
  · exact finish_keeps keeps data filters holds
  · exact holds

theorem keeps (keeps : next.Keeps before property) :
    (@toHttpFilter zlib _ _ next).Keeps before property where
  init resp state connection holds := by
    simp only [toHttpFilter, GzipHttpFilter.init]
    have started := keeps.init
      ((resp.removeHeader (ascii "Content-Length")).removeHeader (ascii "Content-Encoding"))
      state.2 connection holds
    split
    · exact checkFinish_keeps keeps [] _ started
    · exact started
  process data state connection holds := by
    simp only [toHttpFilter, GzipHttpFilter.process]
    have inflated : ∀ source filters,
        property (@ungzip zlib _ _ next false source filters connection).connection :=
      fun source filters => ungzipLoop_keeps keeps false holds
    split
    · exact checkFinish_keeps keeps _ _ (inflated _ _)
    · exact inflated _ _
  finish data state connection holds := finish_keeps keeps data state holds
  handleError errcode state connection holds := keeps.handleError errcode state.2 connection holds

end GzipHttpFilter

namespace ChunkedHttpFilter

variable {Filter Connection : Type} {next : HttpFilter Filter Connection}
  {before property : Connection → Prop}

theorem makeCalls_keeps (keeps : next.Keeps before property) {calls : List NextCall} :
    ∀ {state : Filter} {connection : Connection}, property connection →
      property (makeCalls next calls state connection).2 := by
  induction calls with
  | nil =>
      intro state connection holds
      exact holds
  | cons call calls ih =>
      intro state connection holds
      cases call with
      | process data => exact ih (keeps.process data state connection holds)
      | finish data => exact ih (keeps.finish data state connection holds)

theorem keeps (keeps : next.Keeps before property) :
    (toHttpFilter next).Keeps before property where
  init _ state connection holds := keeps.init _ state.2 connection holds
  process _ _ _ holds := makeCalls_keeps keeps holds
  finish data state connection holds := keeps.finish data state.2 connection holds
  handleError errcode state connection holds := keeps.handleError errcode state.2 connection holds

end ChunkedHttpFilter

namespace HttpFilters

variable {zlib : Zlib} {RequestInfo Connection : Type}
  {inner : InnerHttpConnection RequestInfo Connection} {before property : Connection → Prop}

/-- The chains are made of filters that keep what the connection's callbacks keep. -/
theorem call_keeps (keeps : inner.Keeps property)
    (announces : ∀ resp connection, before connection →
      property (inner.onHeader resp connection).2)
    {run : ∀ {Filter : Type}, HttpFilter Filter Connection → Filter → Connection →
      Handled Filter Connection} {start : Connection → Prop}
    (runs : ∀ {Filter : Type} {filter : HttpFilter Filter Connection},
      filter.Keeps before property → ∀ state connection, start connection →
        property (run filter state connection).connection)
    (filters : HttpFilters zlib) {connection : Connection} (holds : start connection) :
    property (call inner run filters connection).connection := by
  have last := EndFilter.keeps keeps announces
  cases filters with
  | identity state => exact runs last state connection holds
  | gzip state => exact runs (GzipHttpFilter.keeps last) state connection holds
  | chunked state => exact runs (ChunkedHttpFilter.keeps last) state connection holds
  | chunkedGzip state =>
      exact runs (ChunkedHttpFilter.keeps (GzipHttpFilter.keeps last)) state connection holds

theorem init_keeps (keeps : inner.Keeps property)
    (announces : ∀ resp connection, before connection →
      property (inner.onHeader resp connection).2)
    (resp : HttpResponse) (filters : HttpFilters zlib) {connection : Connection}
    (holds : before connection) :
    property (filters.init inner resp connection).connection :=
  call_keeps keeps announces (fun kept => kept.init resp) filters holds

/-- Behind the header nothing is announced. -/
theorem process_keeps (keeps : inner.Keeps property) (data : Bytes) (filters : HttpFilters zlib)
    {connection : Connection} (holds : property connection) :
    property (filters.process inner data connection).connection :=
  @call_keeps _ _ _ inner (fun _ => False) property keeps (fun _ _ never => never.elim) _ _
    (fun kept => kept.process data) filters _ holds

theorem finish_keeps (keeps : inner.Keeps property) (data : Bytes) (filters : HttpFilters zlib)
    {connection : Connection} (holds : property connection) :
    property (filters.finish inner data connection).connection :=
  @call_keeps _ _ _ inner (fun _ => False) property keeps (fun _ _ never => never.elim) _ _
    (fun kept => kept.finish data) filters _ holds

end HttpFilters

end Xul
