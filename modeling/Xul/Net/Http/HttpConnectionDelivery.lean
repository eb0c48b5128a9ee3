import Xul.Foundation.Runs
import Xul.Net.Http.HttpConnection

/-!
# Delivery of a response of declared length

The state of a connection that receives such a response is a function of the bytes it
has received: of the header until it is complete (`awaiting`), and then of how much of
the body has arrived (`bodyState`).  Each read takes one of these states to the next,
and the listener is told of the response, of the pieces of the body and of the end.

The exception is a read that arrives when a part of the header is buffered and that is
too large together with it: the extractor counts what belongs to the body against the
limit of the header and gives up (`step_awaiting_of_large`).
-/

set_option autoImplicit false

namespace Xul

open Foundation HttpResponseExtractor

/-- A header block that declares a body of `contentLength` bytes, in no coding, and that
the extractor has room for. -/
structure IdentityHeader (contentLength : Nat) extends HeaderBlock where
  notRedirect : HttpConnectionRequestInfo.isRedirect response.statusCode = false
  noContentEncoding : response.getHeader (ascii "Content-Encoding") [] = []
  noTransferEncoding : response.getHeader (ascii "Transfer-Encoding") [] = []
  declares : getContentLength response.message.headers = contentLength
  fits : (block.length : Int) ≤ defaultMaxBufferSize

/-- Every read that arrives when a part of the header is buffered stays, together with
what is buffered, within the limit of the extractor. -/
def WithinLimit (headerLength : Nat) : Nat → List Bytes → Prop
  | _, [] => True
  | fed, read :: reads =>
      (0 < fed → fed < headerLength → ((fed + read.length : Nat) : Int) ≤ defaultMaxBufferSize) ∧
        WithinLimit headerLength (fed + read.length) reads

theorem withinLimit_of_le {headerLength : Nat} {reads : List Bytes} :
    ∀ {fed : Nat}, headerLength ≤ fed → WithinLimit headerLength fed reads := by
  induction reads with
  | nil =>
      intro fed _
      exact trivial
  | cons read reads ih =>
      intro fed received
      exact ⟨fun _ short => absurd received (not_le_of_gt short),
        ih (received.trans (Nat.le_add_right _ _))⟩

/-- What of a body comes with the bytes that complete the header. -/
theorem IdentityHeader.exists_after {contentLength : Nat} (header : IdentityHeader contentLength)
    {fed read body : Bytes} {reads : List Bytes}
    (split : fed ++ (read :: reads).flatten = header.block ++ body)
    (completes : header.block.length ≤ fed.length + read.length) :
    ∃ after, fed ++ read = header.block ++ after ∧ after ++ reads.flatten = body := by
  rw [List.flatten_cons, ← List.append_assoc] at split
  obtain ⟨after, same⟩ : header.block <+: fed ++ read := by
    refine List.prefix_of_prefix_length_le (List.prefix_append header.block body) ?_
      (by rwa [List.length_append])
    rw [← split]
    exact List.prefix_append (fed ++ read) reads.flatten
  refine ⟨after, same.symm, ?_⟩
  rw [← same, List.append_assoc] at split
  exact List.append_cancel_left split

/-- Before the header is complete there is no empty line. -/
theorem IdentityHeader.absent_of_partial {contentLength : Nat}
    (header : IdentityHeader contentLength) {fed read body : Bytes} {reads : List Bytes}
    (split : fed ++ (read :: reads).flatten = header.block ++ body)
    (short : fed.length + read.length < header.block.length) :
    HttpMessage.findHeaderEnd (fed ++ read) = none := by
  rw [List.flatten_cons, ← List.append_assoc] at split
  exact header.absent_of_short split (by rwa [List.length_append])

/-- A read that the limit has room for. -/
theorem limit_of_within {headerLength : Nat} {fed read : Bytes} {reads : List Bytes}
    (within : WithinLimit headerLength fed.length (read :: reads)) (short : fed.length < headerLength) :
    fed = [] ∨ ((fed ++ read).length : Int) ≤ toSizeT defaultMaxBufferSize := by
  rcases List.eq_nil_or_concat fed with rfl | ⟨before, last, rfl⟩
  · exact Or.inl rfl
  · right
    have fits := within.1 (by simp) short
    rwa [List.length_append, toSizeT_of_nonneg (by decide) (by decide)]

namespace HttpConnection

variable {zlib : Zlib} {env : HttpConnectionEnvironment}

@[simp] theorem tell_request (call : ListenerCall) (conn : HttpConnection zlib) :
    (conn.tell call).request = conn.request := rfl

@[simp] theorem tell_log (call : ListenerCall) (conn : HttpConnection zlib) :
    (conn.tell call).log = conn.log ++ [call] := rfl

@[simp] theorem isStarted_inner (conn : HttpConnection zlib) :
    (inner env).isStarted conn = conn.request.isSome := rfl

/-! ## The end filter of such a response -/

/-- A listener that always returns true. -/
def Accepts (env : HttpConnectionEnvironment) : Prop := ∀ log, env.answer log = true

theorem onContent_of_accepts (accepts : Accepts env) {info : HttpConnectionRequestInfo zlib}
    {conn : HttpConnection zlib} (pending : conn.request = some info) (data : Bytes) :
    (inner env).onContent data conn = (true, conn.tell (.httpData data)) := by
  simp only [inner, innerOfFilters, onContent, pending, accepts _]

theorem onHeader_of_accepts (accepts : Accepts env) {info : HttpConnectionRequestInfo zlib}
    {conn : HttpConnection zlib} (pending : conn.request = some info) (resp : HttpResponse) :
    (inner env).onHeader resp conn =
      (true, conn.tell (.httpResponse resp info.url.originalString)) := by
  simp only [inner, innerOfFilters, onHeader, pending, accepts _]

/-- The end of a response whose length is reached. -/
theorem endFilter_checkFinish {contentLength received : Nat} {data : Bytes}
    {info : HttpConnectionRequestInfo zlib} {conn : HttpConnection zlib}
    (pending : conn.request = some info) (inside : received ≤ contentLength) :
    EndFilter.checkFinish (inner env) data ⟨contentLength, received, false⟩ conn =
      if received < contentLength then ⟨true, ⟨contentLength, received, false⟩, conn⟩
      else
        ⟨true, ⟨contentLength, received, true⟩,
          { conn with request := none }.tell (.httpComplete contentLength)⟩ := by
  rw [EndFilter.checkFinish]
  by_cases short : received < contentLength
  · rw [if_neg (by simp only; omega), if_pos short]
  · have whole : received = contentLength := by omega
    rw [if_pos (by simp only; omega), if_neg short]
    simp only [EndFilter.finish, inner, innerOfFilters, onComplete, pending, whole,
      Bool.false_eq_true, if_false]

/-- The pieces of the body are counted, and the last one completes the response. -/
theorem endFilter_process (accepts : Accepts env) {contentLength received : Nat} {data : Bytes}
    {info : HttpConnectionRequestInfo zlib} {conn : HttpConnection zlib}
    (pending : conn.request = some info) (nonempty : data ≠ [])
    (inside : received + data.length ≤ contentLength) :
    EndFilter.process (inner env) data ⟨contentLength, received, false⟩ conn =
      EndFilter.checkFinish (inner env) [] ⟨contentLength, (received + data.length : Nat), false⟩
        (conn.tell (.httpData data)) := by
  have real : realSize contentLength received data.length = data.length := by
    rw [realSize, if_neg (by omega)]
  have positive : (0 : Int) < data.length := by
    have := List.length_pos_of_ne_nil nonempty
    omega
  have told : (conn.tell (.httpData data)).request = some info := pending
  simp only [EndFilter.process, real, if_pos positive, Int.toNat_natCast, List.take_length,
    List.drop_length, onContent_of_accepts accepts pending, if_true, ← Nat.cast_add,
    endFilter_checkFinish told inside]
  split <;> rfl

/-- An empty body is complete with its header. -/
theorem endFilter_init (accepts : Accepts env) {contentLength : Nat} {resp : HttpResponse}
    {filter : EndFilter} {info : HttpConnectionRequestInfo zlib} {conn : HttpConnection zlib}
    (pending : conn.request = some info)
    (declares : getContentLength resp.message.headers = contentLength) :
    EndFilter.init (inner env) resp filter conn =
      EndFilter.checkFinish (inner env) [] ⟨contentLength, (0 : Nat), false⟩
        (conn.tell (.httpResponse resp info.url.originalString)) := by
  simp only [EndFilter.init, declares, onHeader_of_accepts accepts pending, if_true]
  rfl

/-! ## The states of the connection -/

/-- The connection `conn` when `info` has received `fed` of its header. -/
def awaiting (conn : HttpConnection zlib) (info : HttpConnectionRequestInfo zlib) (fed : Bytes) :
    HttpConnection zlib :=
  { conn with
    request := some { info with responseExtractor := waiting defaultMaxBufferSize fed }
    socket := { conn.socket with receiving := true } }

/-- The connection when `received` bytes of the body have arrived and the listener was
told of it with `calls`. -/
def receivingBody (conn : HttpConnection zlib) (info : HttpConnectionRequestInfo zlib)
    (response : HttpResponse) (contentLength received : Nat) (calls : List ListenerCall) :
    HttpConnection zlib :=
  { conn with
    request := some { info with
      responseExtractor := finished defaultMaxBufferSize response
      filters := .identity ⟨contentLength, received, false⟩
      responseHeaderReceived := true }
    socket := { conn.socket with receiving := true }
    log := conn.log ++ calls }

/-- The connection when the response is complete. -/
def completed (conn : HttpConnection zlib) (calls : List ListenerCall) : HttpConnection zlib :=
  { conn with
    request := none
    socket := { conn.socket with receiving := true }
    log := conn.log ++ calls }

/-- The connection when `received` bytes of the body have arrived, which may be all. -/
def bodyState (conn : HttpConnection zlib) (info : HttpConnectionRequestInfo zlib)
    (response : HttpResponse) (contentLength received : Nat) (calls : List ListenerCall) :
    HttpConnection zlib :=
  if received < contentLength then conn.receivingBody info response contentLength received calls
  else conn.completed (calls ++ [.httpComplete contentLength])

/-- A connection that goes on receiving. -/
structure Ready (conn : HttpConnection zlib) : Prop where
  connected : conn.socket.connected = true
  notPaused : conn.pauseReceive = false

/-- What a socket can deliver to a connection. -/
structure IsRead (conn : HttpConnection zlib) (read : Bytes) : Prop where
  nonempty : read ≠ []
  fits : read.length ≤ conn.options.receiveBufferSize

theorem IsRead.lt {conn : HttpConnection zlib} {read : Bytes} (isRead : IsRead conn read) :
    read.length < 2 ^ 31 :=
  Nat.lt_of_le_of_lt isRead.fits conn.options.small

/-- A read that a receiving connection handles. -/
theorem step_socketReceive {conn : HttpConnection zlib} {read : Bytes}
    (receiving : conn.socket.receiving = true) (isRead : IsRead conn read) :
    step env conn (.socketReceive read) =
      some ({ conn with socket := { conn.socket with receiving := false } }.onSocketReceive env
        read) := by
  rw [step, if_pos ⟨receiving, isRead.nonempty, isRead.fits⟩]

/-- **A piece of the body takes the state of what was received to the state with it.** -/
theorem step_receivingBody (accepts : Accepts env) {conn : HttpConnection zlib} (ready : Ready conn)
    {info : HttpConnectionRequestInfo zlib} {response : HttpResponse}
    {contentLength received : Nat} {calls : List ListenerCall} {read : Bytes}
    (isRead : IsRead conn read) (inside : received + read.length ≤ contentLength) :
    step env (conn.receivingBody info response contentLength received calls)
        (.socketReceive read) =
      some (conn.bodyState info response contentLength (received + read.length)
        (calls ++ [.httpData read])) := by
  have here : IsRead (conn.receivingBody info response contentLength received calls) read :=
    ⟨isRead.nonempty, isRead.fits⟩
  rw [step_socketReceive rfl here]
  simp only [onSocketReceive, receivingBody, HttpConnectionRequestInfo.process,
    finished_headerFinished, if_true, HttpConnectionRequestInfo.processBodyData,
    HttpFilters.process, HttpFilters.call, EndFilter.toHttpFilter]
  rw [endFilter_process accepts rfl isRead.nonempty inside, endFilter_checkFinish rfl inside]
  by_cases short : received + read.length < contentLength
  · simp [short, bodyState, receivingBody, Handled.map, store, tell, checkReceive, receive,
      ready.connected, ready.notPaused]
  · simp [short, bodyState, completed, Handled.map, store, tell, checkReceive, receive,
      ready.connected, ready.notPaused]

/-! ## The header -/

/-- A read that does not complete the header is kept. -/
theorem step_awaiting_none {conn : HttpConnection zlib} (ready : Ready conn)
    {info : HttpConnectionRequestInfo zlib} {fed read : Bytes} (isRead : IsRead conn read)
    (limit : fed = [] ∨ ((fed ++ read).length : Int) ≤ toSizeT defaultMaxBufferSize)
    (absent : HttpMessage.findHeaderEnd (fed ++ read) = none) :
    step env (conn.awaiting info fed) (.socketReceive read) =
      some (conn.awaiting info (fed ++ read)) := by
  have here : IsRead (conn.awaiting info fed) read := ⟨isRead.nonempty, isRead.fits⟩
  have size : toInt read.length = read.length := toInt_natCast isRead.lt
  have notNegative : ¬ (read.length : Int) < 0 := by omega
  rw [step_socketReceive rfl here]
  simp [onSocketReceive, awaiting, HttpConnectionRequestInfo.process,
    HttpConnectionRequestInfo.processHeaderData, feed_waiting_none limit absent, size, notNegative,
    store, checkReceive, receive, ready.connected, ready.notPaused]

/-- The filters of a response in no coding. -/
theorem ofResponse_of_identity {contentLength : Nat} (header : IdentityHeader contentLength) :
    (HttpFilters.ofResponse header.response : HttpFilters zlib) = .identity EndFilter.create := by
  rw [HttpFilters.ofResponse, header.noContentEncoding, header.noTransferEncoding]
  rfl

/-- The response is told to the listener, and is complete if its body is empty. -/
theorem processRawResponse_of_identity (accepts : Accepts env) {contentLength : Nat}
    (header : IdentityHeader contentLength) {info pendingInfo : HttpConnectionRequestInfo zlib}
    (parsed : info.responseExtractor = finished defaultMaxBufferSize header.response)
    {conn : HttpConnection zlib} (pending : conn.request = some pendingInfo) :
    info.processRawResponse (inner env) conn =
      let checked := EndFilter.checkFinish (inner env) [] ⟨contentLength, (0 : Nat), false⟩
        (conn.tell (.httpResponse header.response pendingInfo.url.originalString))
      ⟨checked.ret, { info with responseHeaderReceived := true, filters := .identity checked.filter },
        checked.connection⟩ := by
  have response : info.responseExtractor.response = header.response := by rw [parsed]; rfl
  simp only [HttpConnectionRequestInfo.processRawResponse, response, header.notRedirect,
    Bool.false_eq_true, if_false, HttpConnectionRequestInfo.handleResponseHeader,
    ofResponse_of_identity header, HttpFilters.init, HttpFilters.call, EndFilter.toHttpFilter,
    endFilter_init accepts pending header.declares, Handled.map]

/-- **The read that completes the header** tells of the response, and of what it brings
of the body. -/
theorem step_awaiting_some (accepts : Accepts env) {conn : HttpConnection zlib}
    (ready : Ready conn) {info : HttpConnectionRequestInfo zlib} {contentLength : Nat}
    (header : IdentityHeader contentLength) {fed read after : Bytes} (isRead : IsRead conn read)
    (limit : fed = [] ∨ ((fed ++ read).length : Int) ≤ toSizeT defaultMaxBufferSize)
    (split : fed ++ read = header.block ++ after) (short : fed.length < header.block.length)
    (inside : after.length ≤ contentLength) :
    step env (conn.awaiting info fed) (.socketReceive read) =
      some (conn.bodyState info header.response contentLength after.length
        (.httpResponse header.response info.url.originalString ::
          if after = [] then [] else [.httpData after])) := by
  have here : IsRead (conn.awaiting info fed) read := ⟨isRead.nonempty, isRead.fits⟩
  have small : (fed ++ read).length < 2 ^ 31 := by
    have := isRead.lt
    rcases limit with rfl | fits
    · simpa using this
    · rw [toSizeT_of_nonneg (by decide) (by decide), defaultMaxBufferSize] at fits
      omega
  have lengths := congrArg List.length split
  simp only [List.length_append] at lengths
  have dropped : read.drop (header.block.length - fed.length) = after := by
    have := congrArg (List.drop header.block.length) split
    rwa [List.drop_left, List.drop_append, List.drop_of_length_le short.le, List.nil_append] at this
  have feeds := feed_waiting_some limit small split header.ends header.parses
  have rest : ((header.block.length : Int) - fed.length).toNat = header.block.length - fed.length :=
    by omega
  have notNegative : ¬ ((header.block.length : Int) - fed.length < 0) := by omega
  rw [step_socketReceive rfl here]
  simp only [onSocketReceive, awaiting, HttpConnectionRequestInfo.process, waiting_headerFinished,
    Bool.false_eq_true, if_false, HttpConnectionRequestInfo.processHeaderData, feeds,
    if_neg notNegative, finished_headerFinished, if_true, rest, dropped]
  rw [processRawResponse_of_identity accepts header rfl rfl]
  by_cases none : after = []
  · have consumed : ¬ ((header.block.length : Int) - fed.length < read.length) := by
      rw [none, List.length_nil] at lengths
      omega
    rw [none, endFilter_checkFinish rfl (Nat.zero_le _)]
    by_cases some : 0 < contentLength
    · simp [some, consumed, bodyState, receivingBody, store, tell, checkReceive, receive,
        ready.connected, ready.notPaused]
    · simp [some, consumed, bodyState, completed, store, tell, checkReceive, receive,
        ready.connected, ready.notPaused]
  · have positive := List.length_pos_of_ne_nil none
    have some : 0 < contentLength := by omega
    have consumed : (header.block.length : Int) - fed.length < read.length := by omega
    rw [endFilter_checkFinish rfl (Nat.zero_le _), if_pos some]
    simp only [not_true_eq_false, if_false, if_pos consumed,
      HttpConnectionRequestInfo.processBodyData, HttpFilters.process, HttpFilters.call,
      EndFilter.toHttpFilter, isStarted_inner, tell_request, Option.isSome_some, if_true]
    rw [endFilter_process accepts rfl none (by omega),
      endFilter_checkFinish rfl (by omega), Nat.zero_add]
    by_cases part : after.length < contentLength
    · simp [part, none, bodyState, receivingBody, Handled.map, store, tell, checkReceive, receive,
        ready.connected, ready.notPaused]
    · simp [part, none, bodyState, completed, Handled.map, store, tell, checkReceive, receive,
        ready.connected, ready.notPaused]

/-- **A read that is too large together with what is buffered** ends the connection. -/
theorem step_awaiting_of_large {conn : HttpConnection zlib} {info : HttpConnectionRequestInfo zlib}
    {fed read : Bytes} (isRead : IsRead conn read) (some : 0 < fed.length)
    (large : defaultMaxBufferSize < ((fed.length + read.length : Nat) : Int)) :
    step env (conn.awaiting info fed) (.socketReceive read) =
      .some (conn.onError HttpErrorCodes.invalidResponseHeader) := by
  have here : IsRead (conn.awaiting info fed) read := ⟨isRead.nonempty, isRead.fits⟩
  have nonempty : fed ≠ [] := List.ne_nil_of_length_pos some
  have feeds : (waiting defaultMaxBufferSize fed).feed read =
      (-1, waiting defaultMaxBufferSize fed) := by
    have beyond : toSizeT defaultMaxBufferSize < (fed.length : Int) + read.length := by
      rw [toSizeT_of_nonneg (by decide) (by decide)]
      omega
    have parsed : (waiting defaultMaxBufferSize fed).parseBuffered read =
        (-1, waiting defaultMaxBufferSize fed) := by
      rw [parseBuffered, if_neg (show ¬ (waiting defaultMaxBufferSize fed).buffer = [] from nonempty),
        if_pos (by exact beyond)]
    simp [feed, parsed]
  rw [step_socketReceive rfl here]
  simp [onSocketReceive, awaiting, HttpConnectionRequestInfo.process,
    HttpConnectionRequestInfo.processHeaderData, feeds, inner, handleError,
    HttpErrorCodes.invalidResponseHeader, HttpErrorCodes.eof, onError, abortHandling, close, tell,
    store]

/-! ## Runs -/

/-- The reads are handled, and the listener is told of the response, of the body in
pieces and of its end, and of nothing else. -/
def Delivers (env : HttpConnectionEnvironment) (conn : HttpConnection zlib)
    (response : HttpResponse) (realUrl body : Bytes) (reads : List Bytes) : Prop :=
  ∃ (last : HttpConnection zlib) (pieces : List Bytes),
    runFrom (step env) conn (reads.map .socketReceive) = some last ∧
    pieces.flatten = body ∧
    last.log = conn.log ++ .httpResponse response realUrl ::
      (pieces.map .httpData ++ [.httpComplete body.length]) ∧
    last.request = none

/-- **The rest of a body completes the response.**  The induction is on the reads; how
much of the body has arrived stands for the state. -/
theorem run_bodyState (accepts : Accepts env) {conn : HttpConnection zlib} (ready : Ready conn)
    {info : HttpConnectionRequestInfo zlib} {response : HttpResponse} {contentLength : Nat}
    {reads : List Bytes} (areReads : ∀ read ∈ reads, IsRead conn read) :
    ∀ {received : Nat} {calls : List ListenerCall},
      received + reads.flatten.length = contentLength →
      runFrom (step env) (conn.bodyState info response contentLength received calls)
          (reads.map .socketReceive) =
        some (conn.completed (calls ++ (reads.map .httpData ++ [.httpComplete contentLength]))) := by
  induction reads with
  | nil =>
      intro received calls whole
      have all : ¬ received < contentLength := by
        rw [List.flatten_nil, List.length_nil] at whole
        omega
      simp [runFrom, bodyState, all]
  | cons read reads ih =>
      intro received calls whole
      have isRead := areReads read (List.mem_cons_self ..)
      have positive := List.length_pos_of_ne_nil isRead.nonempty
      rw [List.flatten_cons, List.length_append] at whole
      have here : conn.bodyState info response contentLength received calls =
          conn.receivingBody info response contentLength received calls :=
        if_pos (by omega)
      rw [List.map_cons, runFrom, here,
        step_receivingBody accepts ready isRead (by omega), Option.bind_some,
        ih (fun other member => areReads other (List.mem_cons_of_mem _ member)) (by omega)]
      simp


/-- **Reads within the limit deliver the response.**  The induction is on the reads; the
bytes of the header that have arrived stand for the state. -/
theorem run_awaiting (accepts : Accepts env) {conn : HttpConnection zlib} (ready : Ready conn)
    {info : HttpConnectionRequestInfo zlib} {body : Bytes} (header : IdentityHeader body.length)
    {reads : List Bytes} (areReads : ∀ read ∈ reads, IsRead conn read) :
    ∀ {fed : Bytes}, fed ++ reads.flatten = header.block ++ body →
      fed.length < header.block.length → WithinLimit header.block.length fed.length reads →
      Delivers env (conn.awaiting info fed) header.response info.url.originalString body reads := by
  induction reads with
  | nil =>
      intro fed split short _
      have lengths := congrArg List.length split
      simp only [List.flatten_nil, List.append_nil, List.length_append] at lengths
      omega
  | cons read reads ih =>
      intro fed split short within
      have isRead := areReads read (List.mem_cons_self ..)
      have others := fun other member => areReads other (List.mem_cons_of_mem read member)
      have limit := limit_of_within within short
      by_cases completes : header.block.length ≤ fed.length + read.length
      · obtain ⟨after, here, later⟩ := header.exists_after split completes
        have size := congrArg List.length later
        rw [List.length_append] at size
        have reached : runFrom (step env) (conn.awaiting info fed)
            ((read :: reads).map .socketReceive) =
            some (conn.completed ((.httpResponse header.response info.url.originalString ::
              if after = [] then [] else [.httpData after]) ++
                (reads.map .httpData ++ [.httpComplete body.length]))) := by
          rw [List.map_cons, runFrom,
            step_awaiting_some accepts ready header isRead limit here short (by omega),
            Option.bind_some]
          exact run_bodyState accepts ready others size
        refine ⟨_, (if after = [] then [] else [after]) ++ reads, reached, ?_, ?_, rfl⟩
        · rw [List.flatten_append, ← later]
          split <;> simp_all
        · simp only [completed, awaiting]
          split <;> simp
      · obtain ⟨last, pieces, reached, delivered⟩ := @ih others (fed ++ read)
          (by rw [← split]; simp) (by rw [List.length_append]; omega)
          (by rw [List.length_append]; exact within.2)
        refine ⟨last, pieces, ?_, delivered⟩
        rw [List.map_cons, runFrom, step_awaiting_none ready isRead limit
          (header.absent_of_partial split (not_le.mp completes)), Option.bind_some]
        exact reached

/-- **Reads that deliver the response are within the limit**: the first that is not ends
in an error. -/
theorem withinLimit_of_run {conn : HttpConnection zlib} (ready : Ready conn)
    {info : HttpConnectionRequestInfo zlib} {response : HttpResponse} {url body : Bytes}
    (header : IdentityHeader body.length) {reads : List Bytes}
    (areReads : ∀ read ∈ reads, IsRead conn read) :
    ∀ {fed : Bytes}, fed ++ reads.flatten = header.block ++ body →
      fed.length < header.block.length →
      Delivers env (conn.awaiting info fed) response url body reads →
      WithinLimit header.block.length fed.length reads := by
  induction reads with
  | nil =>
      intro fed _ _ _
      exact trivial
  | cons read reads ih =>
      intro fed split short delivers
      have isRead := areReads read (List.mem_cons_self ..)
      have others := fun other member => areReads other (List.mem_cons_of_mem read member)
      obtain ⟨last, pieces, reached, delivered⟩ := delivers
      rw [List.map_cons, runFrom] at reached
      by_cases large : 0 < fed.length ∧ defaultMaxBufferSize < ((fed.length + read.length : Nat) : Int)
      · -- the connection has reported an error and receives no more
        rw [step_awaiting_of_large isRead large.1 large.2, Option.bind_some] at reached
        cases reads with
        | nil =>
            cases reached
            have log := delivered.2.1
            simp [onError, abortHandling, close, awaiting] at log
        | cons other reads =>
            rw [List.map_cons, runFrom] at reached
            simp [step, onError, abortHandling, close, tell, ClientSocket.create] at reached
      · have fits : 0 < fed.length → fed.length < header.block.length →
            ((fed.length + read.length : Nat) : Int) ≤ defaultMaxBufferSize :=
          fun some _ => not_lt.mp fun beyond => large ⟨some, beyond⟩
        rw [WithinLimit]
        refine ⟨fits, ?_⟩
        by_cases completes : header.block.length ≤ fed.length + read.length
        · exact withinLimit_of_le completes
        · have limit := @limit_of_within _ fed read [] ⟨fits, trivial⟩ short
          rw [step_awaiting_none ready isRead limit
            (header.absent_of_partial split (not_le.mp completes)), Option.bind_some] at reached
          have later := @ih others (fed ++ read) (by rw [← split]; simp)
            (by rw [List.length_append]; omega) ⟨last, pieces, reached, delivered⟩
          rwa [List.length_append] at later

/-- The connection of a request whose response has not begun. -/
theorem awaiting_nil {conn : HttpConnection zlib} (receiving : conn.socket.receiving = true)
    {info : HttpConnectionRequestInfo zlib} (pending : conn.request = some info)
    (fresh : info.responseExtractor = HttpResponseExtractor.create defaultMaxBufferSize) :
    conn.awaiting info [] = conn := by
  obtain ⟨options, host, port, ⟨connecting, connected, flag, sent⟩, resolving, pauseReceive, request,
    created, posted, log⟩ := conn
  cases info
  simp only at receiving pending fresh
  rw [awaiting, receiving, pending, fresh, create_eq_waiting]

/-- A header block is not empty. -/
theorem length_pos_of_ends (header : HeaderBlock) : 0 < header.block.length := by
  have := (firstOccurrence_add_length_le header.ends).resolve_right (by decide)
  simp only [HttpMessage.headerEndTag, List.length_cons, List.length_nil] at this
  omega

/-- What is delivered came in reads within the limit. -/
theorem Delivers.withinLimit {conn : HttpConnection zlib} (ready : Ready conn)
    (receiving : conn.socket.receiving = true) {info : HttpConnectionRequestInfo zlib}
    (pending : conn.request = some info)
    (fresh : info.responseExtractor = HttpResponseExtractor.create defaultMaxBufferSize)
    {body : Bytes} {contentLength : Nat} (header : IdentityHeader contentLength)
    (whole : body.length = contentLength) {reads : List Bytes}
    (partition : reads.flatten = header.block ++ body)
    (areReads : ∀ read ∈ reads, IsRead conn read)
    (delivers : Delivers env conn header.response info.url.originalString body reads) :
    WithinLimit header.block.length 0 reads := by
  subst whole
  have split : [] ++ reads.flatten = header.block ++ body := partition
  have some : ([] : Bytes).length < header.block.length := length_pos_of_ends header.toHeaderBlock
  rw [← awaiting_nil receiving pending fresh] at delivers
  exact withinLimit_of_run ready header areReads split some delivers

/-- **A response of declared length is delivered whole**, however its bytes are cut into
reads, exactly when no read that arrives behind a part of the header goes beyond the
limit of the extractor. -/
theorem delivers_iff (accepts : Accepts env) {conn : HttpConnection zlib} (ready : Ready conn)
    (receiving : conn.socket.receiving = true) {info : HttpConnectionRequestInfo zlib}
    (pending : conn.request = some info)
    (fresh : info.responseExtractor = HttpResponseExtractor.create defaultMaxBufferSize)
    {body : Bytes} {contentLength : Nat} (header : IdentityHeader contentLength)
    (whole : body.length = contentLength) {reads : List Bytes}
    (partition : reads.flatten = header.block ++ body)
    (areReads : ∀ read ∈ reads, IsRead conn read) :
    Delivers env conn header.response info.url.originalString body reads ↔
      WithinLimit header.block.length 0 reads := by
  constructor
  · exact Delivers.withinLimit ready receiving pending fresh header whole partition areReads
  · subst whole
    have split : [] ++ reads.flatten = header.block ++ body := partition
    have some : ([] : Bytes).length < header.block.length := length_pos_of_ends header.toHeaderBlock
    rw [← awaiting_nil receiving pending fresh]
    exact run_awaiting accepts ready header areReads split some

/-- A connection that has written a request to an address. -/
def requested (options : HttpConnectionOptions) : HttpConnection Zlib.refusing :=
  { (create options : HttpConnection Zlib.refusing) with
    socket := ⟨false, true, true, []⟩
    request := some (HttpConnectionRequestInfo.create 0
      (SimpleUri.parse (ascii "http://10.0.0.1/")).2)
    created := 1 }

/-- A listener that accepts everything. -/
def accepting : HttpConnectionEnvironment := ⟨fun _ => true, fun _ => true⟩

theorem accepting_accepts : Accepts accepting := fun _ => rfl

/-- The header of a response of two bytes. -/
def shortHeader : IdentityHeader 2 where
  block := ascii "HTTP/1.1 200 OK\r\nContent-Length: 2\r\n\r\n"
  response := (httpResponseParser.parse (ascii "HTTP/1.1 200 OK\r\nContent-Length: 2\r\n\r\n") 38
    HttpResponse.create).2
  ends := by decide +kernel
  parses := by decide +kernel
  notRedirect := by decide +kernel
  noContentEncoding := by decide +kernel
  noTransferEncoding := by decide +kernel
  declares := by decide +kernel
  fits := by decide +kernel

/-- A response whose empty line is cut. -/
theorem delivers_iff_cut_header :
    Delivers accepting (requested .create) shortHeader.response (ascii "http://10.0.0.1/")
      (ascii "hi") [ascii "HTTP/1.1 200 OK\r\nContent-Length: 2\r\n\r", ascii "\nhi"] := by
  have whole : (ascii "hi").length = 2 := rfl
  have partition : [ascii "HTTP/1.1 200 OK\r\nContent-Length: 2\r\n\r", ascii "\nhi"].flatten =
      shortHeader.block ++ ascii "hi" := by decide +kernel
  have areReads : ∀ read ∈ [ascii "HTTP/1.1 200 OK\r\nContent-Length: 2\r\n\r", ascii "\nhi"],
      IsRead (requested .create) read := by
    intro read member
    simp only [List.mem_cons, List.not_mem_nil, or_false] at member
    rcases member with rfl | rfl <;> exact ⟨by decide +kernel, by decide +kernel⟩
  refine (delivers_iff accepting_accepts ⟨rfl, rfl⟩ rfl rfl rfl shortHeader whole partition
    areReads).mpr ?_
  simp only [WithinLimit]
  decide +kernel

/-- The options of a connection that reads up to two megabytes at once. -/
def largeReads : HttpConnectionOptions :=
  { HttpConnectionOptions.create with
    receiveBufferSize := 2 * 1024 * 1024
    small := by decide }

/-- The header of a response of 64 KiB. -/
def largeHeader : IdentityHeader 65536 where
  block := ascii "HTTP/1.1 200 OK\r\nContent-Length: 65536\r\n\r\n"
  response := (httpResponseParser.parse (ascii "HTTP/1.1 200 OK\r\nContent-Length: 65536\r\n\r\n")
    42 HttpResponse.create).2
  ends := by decide +kernel
  parses := by decide +kernel
  notRedirect := by decide +kernel
  noContentEncoding := by decide +kernel
  noTransferEncoding := by decide +kernel
  declares := by decide +kernel
  fits := by decide +kernel

/-- A body of 64 KiB that comes in one read with the end of its header is not
delivered. -/
theorem large_read_not_delivered :
    ¬ Delivers accepting (requested largeReads) largeHeader.response (ascii "http://10.0.0.1/")
      (List.replicate 65536 97)
      [largeHeader.block.take 40, largeHeader.block.drop 40 ++ List.replicate 65536 97] := by
  have first : (largeHeader.block.take 40).length = 40 := by decide +kernel
  have second : (largeHeader.block.drop 40).length = 2 := by decide +kernel
  have total : largeHeader.block.length = 42 := by decide +kernel
  have whole : (List.replicate 65536 (97 : UInt8)).length = 65536 := List.length_replicate
  generalize List.replicate 65536 (97 : UInt8) = body at whole ⊢
  have size : (largeHeader.block.drop 40 ++ body).length = 65538 := by
    rw [List.length_append, second, whole]
  have partition : [largeHeader.block.take 40, largeHeader.block.drop 40 ++ body].flatten =
      largeHeader.block ++ body := by
    rw [List.flatten_cons, List.flatten_cons, List.flatten_nil, List.append_nil,
      ← List.append_assoc, List.take_append_drop]
  have areReads : ∀ read ∈ [largeHeader.block.take 40, largeHeader.block.drop 40 ++ body],
      IsRead (requested largeReads) read := by
    intro read member
    simp only [List.mem_cons, List.not_mem_nil, or_false] at member
    rcases member with rfl | rfl
    · exact ⟨List.ne_nil_of_length_pos (by rw [first]; decide), by rw [first]; decide⟩
    · exact ⟨List.ne_nil_of_length_pos (by rw [size]; decide), by rw [size]; decide⟩
  intro delivers
  have within := delivers.withinLimit ⟨rfl, rfl⟩ rfl rfl rfl largeHeader whole partition areReads
  have fits := within.2.1 (by rw [first]; decide) (by rw [first, total]; decide)
  rw [first, size] at fits
  exact absurd fits (by decide)

end HttpConnection

end Xul
