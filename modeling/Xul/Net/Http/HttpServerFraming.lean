import Xul.Net.Http.HttpServerLifecycle

/-!
# Requests on a connection

A connection carries requests one after the other, and its reads cut them anywhere.
`Standing` says where a client is in them between two turns of a read, or between two reads;
a step moves it on by the bytes of the step (`stands_step`).  The client loses its place in
three ways, which `FramesOn` excludes.  It takes what follows a header for a body, where no
body was declared or one of no bytes.  It copies a part of the header buffer over itself.  And it
forgets the header or the body that it is in, when the handler of a request has finished its
answer.  None of them is made good by what follows (`Doomed`), so that the requests are
framed by exactly the runs whose steps `FramesOn` allows.
-/

set_option autoImplicit false

namespace Xul

open Foundation

/-- The header declares the length of the body. -/
def declaresLength (request : HttpRequest) : Bool :=
  request.message.headers.contains (ascii "Content-Length")

theorem getContentLength_of_undeclared {request : HttpRequest}
    (undeclared : declaresLength request = false) :
    getContentLength request.message.headers = -1 := by
  have absent : request.message.headers.items.find?
      (fun entry => iequalTo entry.key (ascii "Content-Length")) = none := by
    rw [List.find?_eq_none]
    intro entry member same
    have declared : declaresLength request = true :=
      List.any_eq_true.mpr ⟨entry, member, same⟩
    rw [undeclared] at declared
    cases declared
  rw [getContentLength, AssociativeStringArray.get, absent]
  rfl

/-- A well-formed request on the wire: a header block that ends at its only empty line,
fits the limit and parses, and the body that it declares. -/
structure WireRequest (options : HttpServerOptions) where
  header : Bytes
  body : Bytes
  request : HttpRequest
  ends : HttpMessage.findHeaderEnd header = some (header.length - 4)
  fits : header.length ≤ options.maxHeaderSize
  parses : parseRequest header header.length = some request
  declared : declaresLength request = true →
    getContentLength request.message.headers = body.length
  undeclared : declaresLength request = false → body = []

namespace WireRequest

variable {options : HttpServerOptions}

def encode (wire : WireRequest options) : Bytes := wire.header ++ wire.body

/-- What a handler should be told: the request, and its body. -/
def served (wire : WireRequest options) : HttpRequest × Bytes := (wire.request, wire.body)

theorem four_le_length (wire : WireRequest options) : 4 ≤ wire.header.length := by
  have inside := (firstOccurrence_add_length_le wire.ends).resolve_right (by decide)
  simp only [HttpMessage.headerEndTag, List.length_cons, List.length_nil] at inside
  omega

theorem headerEndTag_suffix (wire : WireRequest options) :
    HttpMessage.headerEndTag <:+ wire.header := by
  have long := wire.four_le_length
  obtain ⟨rest, stands⟩ := (firstOccurrence_eq_some_iff.mp wire.ends).1
  have none : rest = [] := by
    have lengths := congrArg List.length stands
    simp only [HttpMessage.headerEndTag, List.length_append, List.length_cons, List.length_nil,
      List.length_drop] at lengths
    exact List.eq_nil_of_length_eq_zero (by omega)
  rw [none, List.append_nil] at stands
  exact ⟨wire.header.take (wire.header.length - 4), by rw [stands, List.take_append_drop]⟩

/-- The header is found with whatever follows it. -/
theorem findHeaderEnd_append (wire : WireRequest options) (more : Bytes) :
    HttpMessage.findHeaderEnd (wire.header ++ more) = some (wire.header.length - 4) :=
  firstOccurrence_append (by decide) wire.ends more

/-- No header is found in a part of it. -/
theorem findHeaderEnd_of_part (wire : WireRequest options) {seen toCome : Bytes}
    (split : wire.header = seen ++ toCome) (some : toCome ≠ []) :
    HttpMessage.findHeaderEnd seen = none := by
  have found := wire.ends
  rw [split] at found
  refine firstOccurrence_eq_none_of_append found ?_
  have long := wire.four_le_length
  have positive := List.length_pos_of_ne_nil some
  rw [split, List.length_append] at long
  simp only [HttpMessage.headerEndTag, List.length_cons, List.length_nil, List.length_append]
  omega

theorem parseRequest_append (wire : WireRequest options) (more : Bytes) :
    parseRequest (wire.header ++ more) wire.header.length = some wire.request := by
  rw [Xul.parseRequest_append wire.headerEndTag_suffix, wire.parses]

end WireRequest

/-- The bytes of requests. -/
def encodeAll {options : HttpServerOptions} (requests : List (WireRequest options)) : Bytes :=
  requests.flatMap WireRequest.encode

namespace HttpServerClient

/-! ## What the handlers were told -/

/-- What the handlers were told, without what they called. -/
def said (log : List LogEntry) : List (Nat × HandlerCall) :=
  log.filterMap fun entry =>
    match entry with
    | .told handler call => some (handler, call)
    | .called _ _ => none

/-- The requests that were handed to handlers. -/
def dispatched (log : List (Nat × HandlerCall)) : List (Nat × HttpRequest) :=
  log.filterMap fun entry =>
    match entry.2 with
    | .handleRequest request => some (entry.1, request)
    | _ => none

/-- The body that a handler was handed. -/
def bodyOf (handler : Nat) (log : List (Nat × HandlerCall)) : Bytes :=
  log.flatMap fun entry =>
    match entry.2 with
    | .handleBodyData data _ => if entry.1 = handler then data else []
    | _ => []

/-- The sizes that body callbacks received. -/
def bodySizes (log : List (Nat × HandlerCall)) : List Int :=
  log.filterMap fun entry =>
    match entry.2 with
    | .handleBodyData _ size => some size
    | _ => none

/-- What handlers call is not what they were told. -/
@[simp] theorem said_act (client : HttpServerClient) (handler : UrlHandler)
    (calls : List SessionCall) : said (client.act handler calls).log = said client.log := by
  have none : said (calls.map fun call => LogEntry.called handler.index call) = [] := by
    refine List.filterMap_eq_nil_iff.mpr ?_
    intro entry member
    obtain ⟨call, _, rfl⟩ := List.mem_map.mp member
    rfl
  rw [act, said, List.filterMap_append]
  exact (congrArg _ none).trans (List.append_nil _)

@[simp] theorem said_tell (router : HttpServerRouter) (client : HttpServerClient)
    (handler : UrlHandler) (call : HandlerCall) :
    said (client.tell router handler call).log = said client.log ++ [(handler.index, call)] := by
  rw [tell, said_act, said, List.filterMap_append]
  rfl

/-- The handlers were told exactly of these requests, one handler for each and in their
order, with these bodies, and never of a body without bytes. -/
structure Recorded (log : List (Nat × HandlerCall)) (served : List (HttpRequest × Bytes)) :
    Prop where
  inOrder : dispatched log = served.zipIdx.map fun entry => (entry.2, entry.1.1)
  bodies : ∀ handler, bodyOf handler log = ((served[handler]?).map Prod.snd).getD []
  positive : ∀ size ∈ bodySizes log, 0 < size

theorem recorded_nil : Recorded [] [] where
  inOrder := rfl
  bodies _ := rfl
  positive _ member := absurd member List.not_mem_nil

theorem dispatched_append (log more : List (Nat × HandlerCall)) :
    dispatched (log ++ more) = dispatched log ++ dispatched more := List.filterMap_append

theorem bodyOf_append (handler : Nat) (log more : List (Nat × HandlerCall)) :
    bodyOf handler (log ++ more) = bodyOf handler log ++ bodyOf handler more :=
  List.flatMap_append

theorem bodySizes_append (log more : List (Nat × HandlerCall)) :
    bodySizes (log ++ more) = bodySizes log ++ bodySizes more := List.filterMap_append

/-- The next handler is told of a request. -/
theorem Recorded.dispatch {log : List (Nat × HandlerCall)} {served : List (HttpRequest × Bytes)}
    (recorded : Recorded log served) (request : HttpRequest) :
    Recorded (log ++ [(served.length, .handleRequest request)]) (served ++ [(request, [])]) where
  inOrder := by
    rw [dispatched_append, recorded.inOrder]
    simp [dispatched, List.zipIdx_append]
  bodies handler := by
    have none : bodyOf handler [(served.length, .handleRequest request)] = [] := rfl
    rw [bodyOf_append, none, List.append_nil, recorded.bodies handler]
    rcases Nat.lt_trichotomy handler served.length with before | here | after
    · rw [List.getElem?_append_left before]
    · subst here
      simp
    · rw [List.getElem?_eq_none (Nat.le_of_lt after), List.getElem?_eq_none (by simp; omega)]
  positive := by
    have none : bodySizes [(served.length, .handleRequest request)] = [] := rfl
    rw [bodySizes_append, none, List.append_nil]
    exact recorded.positive

/-- The last handler is told of bytes of its body. -/
theorem Recorded.body {log : List (Nat × HandlerCall)} {served : List (HttpRequest × Bytes)}
    {request : HttpRequest} {before data : Bytes}
    (recorded : Recorded log (served ++ [(request, before)])) (some : data ≠ []) :
    Recorded (log ++ [(served.length, .handleBodyData data data.length)])
      (served ++ [(request, before ++ data)]) where
  inOrder := by
    have none : dispatched [(served.length, .handleBodyData data data.length)] = [] := rfl
    rw [dispatched_append, none, List.append_nil, recorded.inOrder]
    simp [List.zipIdx_append]
  bodies handler := by
    have told : bodyOf handler [(served.length, .handleBodyData data data.length)] =
        if served.length = handler then data else [] := List.append_nil _
    rw [bodyOf_append, told, recorded.bodies handler]
    rcases Nat.lt_trichotomy handler served.length with below | here | above
    · simp [List.getElem?_append_left below, Nat.ne_of_gt below]
    · subst here
      simp
    · rw [List.getElem?_eq_none (by simp; omega), List.getElem?_eq_none (by simp; omega)]
      simp [Nat.ne_of_lt above]
  positive := by
    have long := List.length_pos_of_ne_nil some
    have told : bodySizes [(served.length, .handleBodyData data data.length)] =
        [(data.length : Int)] := rfl
    rw [bodySizes_append, told, List.forall_mem_append]
    refine ⟨recorded.positive, ?_⟩
    intro size member
    rw [List.mem_singleton.mp member]
    exact Int.natCast_pos.mpr long

/-- The handlers are told of what is neither a request nor a body. -/
theorem Recorded.quiet {log more : List (Nat × HandlerCall)} {served : List (HttpRequest × Bytes)}
    (recorded : Recorded log served) (noDispatch : dispatched more = [])
    (noBody : ∀ handler, bodyOf handler more = []) (noSize : bodySizes more = []) :
    Recorded (log ++ more) served where
  inOrder := by rw [dispatched_append, noDispatch, List.append_nil, recorded.inOrder]
  bodies handler := by rw [bodyOf_append, noBody, List.append_nil, recorded.bodies]
  positive := by
    rw [bodySizes_append, noSize, List.append_nil]
    exact recorded.positive

theorem Recorded.length_dispatched {log : List (Nat × HandlerCall)}
    {served : List (HttpRequest × Bytes)} (recorded : Recorded log served) :
    (dispatched log).length = served.length := by
  rw [recorded.inOrder, List.length_map, List.length_zipIdx]

/-- **The requests are framed**: the handlers were told of them, nothing was copied over itself,
and no byte of a later request was discarded with an earlier one. -/
structure Framed (client : HttpServerClient) (served : List (HttpRequest × Bytes)) : Prop where
  recorded : Recorded (said client.log) served
  defined : client.undefinedCopy = false
  kept : client.discarded = false

/-! ## Where a client stands -/

variable {options : HttpServerOptions}

/-- A client that has framed what it was given so far. -/
structure InStep (options : HttpServerOptions) (client : HttpServerClient)
    (done : List (HttpRequest × Bytes)) : Prop extends Framed client done where
  options : client.options = options
  count : client.handledRequests = done.length

/-- A client that reads a header, of which it has `seen` some bytes. -/
structure InHeader (options : HttpServerOptions) (client : HttpServerClient) (seen : Bytes)
    (done : List (HttpRequest × Bytes)) : Prop extends InStep options client done where
  receiving : client.receivingHeader = true
  buffer : client.headerBuffer = seen
  received : client.receivedBodySize = 0

/-- A client that has handed over a request and `got` some bytes of its body. -/
structure InBody (client : HttpServerClient) (wire : WireRequest options) (got : Bytes)
    (done : List (HttpRequest × Bytes)) : Prop
    extends InStep options client (done ++ [(wire.request, got)]) where
  receiving : client.receivingHeader = false
  length : client.contentLength = getContentLength wire.request.message.headers
  received : client.receivedBodySize = got.length
  request : client.currentRequest = some wire.request
  handler : ∃ notFound, client.handler = some ⟨done.length, notFound⟩

/-- A client that has handed over a request without a body, and awaits the body. -/
structure Awaiting (options : HttpServerOptions) (client : HttpServerClient)
    (done : List (HttpRequest × Bytes)) : Prop extends InStep options client done where
  receiving : client.receivingHeader = false
  remaining : client.contentLength - client.receivedBodySize = 0 ∨
    client.contentLength - client.receivedBodySize = -1

/-- The client is in a body that is not complete. -/
def MissesBody (client : HttpServerClient) : Prop :=
  client.receivingHeader = false ∧ 0 < client.contentLength - client.receivedBodySize

instance (client : HttpServerClient) : Decidable client.MissesBody :=
  inferInstanceAs (Decidable (_ ∧ _))

/-- What is told or called does not move a client on. -/
structure SamePlace (client next : HttpServerClient) : Prop where
  options : next.options = client.options
  receivingHeader : next.receivingHeader = client.receivingHeader
  headerBuffer : next.headerBuffer = client.headerBuffer
  currentRequest : next.currentRequest = client.currentRequest
  handledRequests : next.handledRequests = client.handledRequests
  contentLength : next.contentLength = client.contentLength
  receivedBodySize : next.receivedBodySize = client.receivedBodySize
  undefinedCopy : next.undefinedCopy = client.undefinedCopy
  discarded : next.discarded = client.discarded
  recorded : ∀ served, Recorded (said client.log) served → Recorded (said next.log) served

namespace SamePlace

variable {client next last : HttpServerClient} {done : List (HttpRequest × Bytes)}

theorem trans (first : SamePlace client next) (second : SamePlace next last) :
    SamePlace client last where
  options := second.options.trans first.options
  receivingHeader := second.receivingHeader.trans first.receivingHeader
  headerBuffer := second.headerBuffer.trans first.headerBuffer
  currentRequest := second.currentRequest.trans first.currentRequest
  handledRequests := second.handledRequests.trans first.handledRequests
  contentLength := second.contentLength.trans first.contentLength
  receivedBodySize := second.receivedBodySize.trans first.receivedBodySize
  undefinedCopy := second.undefinedCopy.trans first.undefinedCopy
  discarded := second.discarded.trans first.discarded
  recorded served recorded := second.recorded served (first.recorded served recorded)

/-- The session is changed, and what handlers call is logged. -/
theorem act (client : HttpServerClient) (handler : UrlHandler) (calls : List SessionCall) :
    SamePlace client (client.act handler calls) :=
  ⟨rfl, rfl, rfl, rfl, rfl, rfl, rfl, rfl, rfl, fun _ recorded => by rwa [said_act]⟩

theorem receive (client : HttpServerClient) : SamePlace client client.receive :=
  ⟨rfl, rfl, rfl, rfl, rfl, rfl, rfl, rfl, rfl, fun _ => id⟩

theorem receiveNext (client : HttpServerClient) : SamePlace client client.receiveNext := by
  rw [HttpServerClient.receiveNext]
  split
  · exact receive client
  · exact ⟨rfl, rfl, rfl, rfl, rfl, rfl, rfl, rfl, rfl, fun _ => id⟩

theorem skip (client : HttpServerClient) (size : Nat) : SamePlace client (client.skip size) :=
  ⟨rfl, rfl, rfl, rfl, rfl, rfl, rfl, rfl, rfl, fun _ => id⟩

theorem tell (router : HttpServerRouter) (client : HttpServerClient) (handler : UrlHandler)
    {call : HandlerCall} (noDispatch : dispatched [(handler.index, call)] = [])
    (noBody : ∀ other, bodyOf other [(handler.index, call)] = [])
    (noSize : bodySizes [(handler.index, call)] = []) :
    SamePlace client (client.tell router handler call) :=
  ⟨rfl, rfl, rfl, rfl, rfl, rfl, rfl, rfl, rfl, fun _ recorded => by
    rw [said_tell]
    exact recorded.quiet noDispatch noBody noSize⟩

theorem inStep (same : SamePlace client next) (inStep : InStep options client done) :
    InStep options next done where
  recorded := same.recorded done inStep.recorded
  defined := same.undefinedCopy.trans inStep.defined
  kept := same.discarded.trans inStep.kept
  options := same.options.trans inStep.options
  count := same.handledRequests.trans inStep.count

theorem inHeader {seen : Bytes} (same : SamePlace client next)
    (inHeader : InHeader options client seen done) : InHeader options next seen done where
  toInStep := same.inStep inHeader.toInStep
  receiving := same.receivingHeader.trans inHeader.receiving
  buffer := same.headerBuffer.trans inHeader.buffer
  received := same.receivedBodySize.trans inHeader.received

theorem inBody {wire : WireRequest options} {got : Bytes} (same : SamePlace client next)
    (handled : next.handler = client.handler) (inBody : InBody client wire got done) :
    InBody next wire got done where
  toInStep := same.inStep inBody.toInStep
  receiving := same.receivingHeader.trans inBody.receiving
  length := same.contentLength.trans inBody.length
  received := same.receivedBodySize.trans inBody.received
  request := same.currentRequest.trans inBody.request
  handler := by
    rw [handled]
    exact inBody.handler

theorem awaiting (same : SamePlace client next) (awaiting : Awaiting options client done) :
    Awaiting options next done where
  toInStep := same.inStep awaiting.toInStep
  receiving := same.receivingHeader.trans awaiting.receiving
  remaining := by
    rw [same.contentLength, same.receivedBodySize]
    exact awaiting.remaining

end SamePlace

/-- `reset_state` outside a header loses nothing. -/
theorem InStep.resetState {client : HttpServerClient} {done : List (HttpRequest × Bytes)}
    (inStep : InStep options client done)
    (nothing : client.receivingHeader = false ∨ client.headerBuffer = []) :
    InHeader options client.resetState [] done where
  recorded := inStep.recorded
  defined := inStep.defined
  kept := by
    have lost : (client.receivingHeader && !client.headerBuffer.isEmpty) = false := by
      rcases nothing with outside | empty
      · rw [outside, Bool.false_and]
      · rw [empty, List.isEmpty_nil, Bool.not_true, Bool.and_false]
    exact (congrArg₂ (· || ·) inStep.kept lost :)
  options := inStep.options
  count := inStep.count
  receiving := rfl
  buffer := rfl
  received := rfl

/-! ### Turns of a header -/

/-- The rest of a read is copied to the beginning of the header buffer, where it overlaps. -/
def CopiesOver (client : HttpServerClient) (data : Bytes) : Prop :=
  client.headerBuffer = [] ∧ HttpMessage.findHeaderEnd data = none ∧
    client.overlaps data.length = true

instance (client : HttpServerClient) (data : Bytes) : Decidable (client.CopiesOver data) :=
  inferInstanceAs (Decidable (_ ∧ _ ∧ _))

/-- A part of a header is assigned to the header buffer, or has been appended to it. -/
theorem turn_of_absent (router : HttpServerRouter) (client : HttpServerClient) {data : Bytes}
    (absent : HttpMessage.findHeaderEnd (client.headerBuffer ++ data) = none)
    (fits : (client.headerBuffer ++ data).length ≤ client.options.maxHeaderSize) :
    client.turn router (.headerData data) =
      ((if client.headerBuffer = [] then client.assignHeader data
        else client.buffered data).receive, .stop) := by
  have unbuffered : (client.buffered data).options = client.options := rfl
  rw [turn_headerData, parseHeaderData, absent]
  simp only [unbuffered, if_neg (not_lt_of_ge fits)]
  by_cases empty : client.headerBuffer = []
  · obtain ⟨_, _, buffer⟩ := client
    subst empty
    rfl
  · have appended : (client.buffered data).headerBuffer ≠ [] := by
      simp [buffered, empty]
    rw [if_neg appended, if_neg empty]

/-- A part of a header fits the limit, and no header ends in it. -/
theorem absent_of_part {wire : WireRequest options} {seen data rest : Bytes}
    (split : wire.header = seen ++ (data ++ rest)) (unfinished : rest ≠ []) :
    HttpMessage.findHeaderEnd (seen ++ data) = none ∧
      (seen ++ data).length ≤ options.maxHeaderSize := by
  have whole : wire.header = (seen ++ data) ++ rest := by rw [split, List.append_assoc]
  refine ⟨wire.findHeaderEnd_of_part whole unfinished, ?_⟩
  have fits := wire.fits
  rw [whole, List.length_append] at fits
  omega

/-- A part of a header is kept. -/
theorem InHeader.part {client : HttpServerClient} {seen data rest : Bytes}
    {done : List (HttpRequest × Bytes)} (router : HttpServerRouter)
    (inHeader : InHeader options client seen done) (wire : WireRequest options)
    (split : wire.header = seen ++ (data ++ rest)) (unfinished : rest ≠ [])
    (apart : ¬ client.CopiesOver data) :
    ∃ next, client.turn router (.headerData data) = (next, .stop) ∧
      InHeader options next (seen ++ data) done := by
  obtain ⟨absent, fits⟩ := absent_of_part split unfinished
  obtain rfl := inHeader.buffer
  rw [← inHeader.options] at fits
  refine ⟨_, turn_of_absent router client absent fits, ?_⟩
  refine (SamePlace.receive _).inHeader ?_
  split
  · next empty =>
      rw [empty, List.nil_append] at absent ⊢
      have disjoint : client.overlaps data.length = false :=
        Bool.eq_false_iff.mpr fun overlap => apart ⟨empty, absent, overlap⟩
      exact {
        recorded := inHeader.recorded
        defined := congrArg₂ (· || ·) inHeader.defined disjoint
        kept := inHeader.kept
        options := inHeader.options
        count := inHeader.count
        receiving := inHeader.receiving
        buffer := rfl
        received := inHeader.received }
  · next kept =>
      exact {
        recorded := inHeader.recorded
        defined := inHeader.defined
        kept := inHeader.kept
        options := inHeader.options
        count := inHeader.count
        receiving := inHeader.receiving
        buffer := if_neg kept
        received := inHeader.received }

/-- A part of a header that is copied over itself. -/
theorem undefinedCopy_of_part {client : HttpServerClient} {data : Bytes}
    (router : HttpServerRouter) (copies : client.CopiesOver data)
    (fits : data.length ≤ client.options.maxHeaderSize) :
    (client.turn router (.headerData data)).1.undefinedCopy = true := by
  obtain ⟨empty, absent, overlap⟩ := copies
  rw [turn_of_absent router client (by rwa [empty, List.nil_append])
    (by rwa [empty, List.nil_append]), if_pos empty]
  exact (congrArg (client.undefinedCopy || ·) overlap).trans (Bool.or_true _)

/-- A request that is handed over has its own handler. -/
theorem inBody_handleRequest {client : HttpServerClient} {done : List (HttpRequest × Bytes)}
    (router : HttpServerRouter) (wire : WireRequest options) (inStep : InStep options client done)
    (received : client.receivedBodySize = 0) :
    InBody ({ client with
      receivingHeader := false
      contentLength := getContentLength wire.request.message.headers
      currentRequest := some wire.request }.handleRequest router wire.request) wire [] done where
  recorded := by
    rw [handleRequest, said_tell, inStep.count]
    exact inStep.recorded.dispatch wire.request
  defined := inStep.defined
  kept := inStep.kept
  options := inStep.options
  count := by
    rw [List.length_append, ← inStep.count]
    rfl
  receiving := rfl
  length := rfl
  received := received
  request := rfl
  handler := ⟨_, by rw [← inStep.count]; rfl⟩

/-- A header that is complete hands over its request; what follows goes to its body, or
to the next header when the declared body is empty. -/
theorem parseHeaderData_of_header (router : HttpServerRouter) (client : HttpServerClient)
    {done : List (HttpRequest × Bytes)} (wire : WireRequest options)
    (inStep : InStep options client done) (received : client.receivedBodySize = 0) (rest : Bytes) :
    ∃ next, InBody next wire [] done ∧
      client.parseHeaderData router (wire.header ++ rest) =
        if rest = [] then (next.receiveNext, .stop)
        else if getContentLength wire.request.message.headers = 0 then
          (next.resetState.skip wire.header.length, .headerData rest)
        else (next.skip wire.header.length, .bodyData rest) := by
  have inBody := inBody_handleRequest router wire inStep received
  refine ⟨_, inBody, ?_⟩
  have long := wire.four_le_length
  have size : wire.header.length - 4 + 4 = wire.header.length := by omega
  rw [parseHeaderData, wire.findHeaderEnd_append rest]
  simp only [size, wire.parseRequest_append rest, inBody.length, List.drop_left]
  by_cases last : rest = []
  · rw [if_pos last, if_neg (by rw [last, List.append_nil]; exact lt_irrefl _)]
  · have positive := List.length_pos_of_ne_nil last
    rw [if_neg last, if_pos (by rw [List.length_append]; omega)]

theorem InHeader.complete {client : HttpServerClient} {seen toCome : Bytes}
    {done : List (HttpRequest × Bytes)} (router : HttpServerRouter)
    (inHeader : InHeader options client seen done) (wire : WireRequest options)
    (split : wire.header = seen ++ toCome) (rest : Bytes) :
    ∃ next, InBody next wire [] done ∧
      client.turn router (.headerData (toCome ++ rest)) =
        if rest = [] then (next.receiveNext, .stop)
        else if getContentLength wire.request.message.headers = 0 then
          (next.resetState.skip wire.header.length, .headerData rest)
        else (next.skip wire.header.length, .bodyData rest) := by
  have shape : client.headerBuffer ++ (toCome ++ rest) = wire.header ++ rest := by
    rw [inHeader.buffer, split, List.append_assoc]
  rw [turn_headerData, shape]
  have inStep : InStep options (client.buffered (toCome ++ rest)) done :=
    ⟨⟨inHeader.recorded, inHeader.defined, inHeader.kept⟩, inHeader.options, inHeader.count⟩
  exact parseHeaderData_of_header router _ wire inStep inHeader.received rest

/-! ### Turns of a body -/

/-- The handler is told of as many bytes as the body and the data both have. -/
theorem InBody.read {client : HttpServerClient} {wire : WireRequest options} {got left : Bytes}
    {done : List (HttpRequest × Bytes)} (inBody : InBody client wire got done)
    (split : wire.body = got ++ left) (declares : declaresLength wire.request = true) :
    client.contentLength - client.receivedBodySize = left.length := by
  rw [inBody.length, inBody.received, wire.declared declares, split, List.length_append]
  omega

/-- A request with a body declares it. -/
theorem declaresLength_of_body {wire : WireRequest options} (some : wire.body ≠ []) :
    declaresLength wire.request = true := by
  by_contra undeclared
  exact some (wire.undeclared (Bool.eq_false_iff.mpr undeclared))

/-- What is missing of a body that is not complete. -/
theorem InBody.remaining {client : HttpServerClient} {wire : WireRequest options} {got left : Bytes}
    {done : List (HttpRequest × Bytes)} (inBody : InBody client wire got done)
    (split : wire.body = got ++ left) (unfinished : left ≠ []) :
    client.contentLength - client.receivedBodySize = left.length := by
  refine inBody.read split (declaresLength_of_body ?_)
  rw [split]
  exact fun none => unfinished (List.append_eq_nil_iff.mp none).2

theorem InBody.missesBody {client : HttpServerClient} {wire : WireRequest options}
    {got left : Bytes} {done : List (HttpRequest × Bytes)} (inBody : InBody client wire got done)
    (split : wire.body = got ++ left) (unfinished : left ≠ []) : client.MissesBody := by
  refine ⟨inBody.receiving, ?_⟩
  have positive := List.length_pos_of_ne_nil unfinished
  rw [inBody.remaining split unfinished]
  omega

theorem Awaiting.not_missesBody {client : HttpServerClient} {done : List (HttpRequest × Bytes)}
    (awaiting : Awaiting options client done) : ¬ client.MissesBody := by
  rintro ⟨-, missing⟩
  have nothing := awaiting.remaining
  omega

/-- A part of a body is handed over, or all of it; after all of it the client goes back
to reading a header. -/
theorem InBody.turn {client : HttpServerClient} {wire : WireRequest options}
    {got taken left rest : Bytes} {done : List (HttpRequest × Bytes)} (router : HttpServerRouter)
    (inBody : InBody client wire got done) (split : wire.body = got ++ (taken ++ left))
    (some : taken ≠ []) (apart : left = [] ∨ rest = []) (small : (taken ++ rest).length < 2 ^ 31) :
    ∃ next, InBody next wire (got ++ taken) done ∧
      client.turn router (.bodyData (taken ++ rest)) =
        if rest ≠ [] then (next.resetState.skip taken.length, .headerData rest)
        else if left = [] then (next.resetState.receiveNext, .stop)
        else (next.receiveNext, .stop) := by
  have positive := List.length_pos_of_ne_nil some
  have remaining : client.contentLength - client.receivedBodySize =
      ((taken ++ left).length : Int) :=
    inBody.remaining split fun none => some (List.append_eq_nil_iff.mp none).1
  rw [List.length_append] at small
  have size : toInt (min ((taken ++ left).length : Int) ((taken ++ rest).length : Int)) =
      taken.length := by
    have least : min ((taken ++ left).length : Int) ((taken ++ rest).length : Int) =
        (taken.length : Int) := by
      rcases apart with rfl | rfl <;> simp only [List.length_append, List.append_nil] <;> omega
    rw [least, toInt_natCast (by omega)]
  obtain ⟨notFound, handler⟩ := inBody.handler
  have told : InBody ({ client with
      receivedBodySize := client.receivedBodySize + taken.length }.tell router
        ⟨done.length, notFound⟩ (.handleBodyData taken taken.length)) wire (got ++ taken) done := {
    recorded := by
      rw [said_tell]
      exact inBody.recorded.body some
    defined := inBody.defined
    kept := inBody.kept
    options := inBody.options
    count := inBody.count.trans (by rw [List.length_append, List.length_append]; rfl)
    receiving := inBody.receiving
    length := inBody.length
    received := by
      rw [List.length_append, Nat.cast_add, ← inBody.received]
      rfl
    request := inBody.request
    handler := ⟨notFound, handler⟩ }
  refine ⟨_, told, ?_⟩
  simp only [HttpServerClient.turn, handleBodyData, inBody.request, handler, remaining, size,
    Int.toNat_natCast, List.take_left, List.drop_left]
  rw [toSizeT_of_nonneg (by omega) (by omega)]
  by_cases last : rest = []
  · have whole : ¬ ((taken.length : Int) < ((taken ++ rest).length : Int)) := by
      rw [last, List.append_nil]
      exact lt_irrefl _
    rw [if_neg whole, if_neg (not_not.mpr last)]
    by_cases complete : left = []
    · rw [if_pos complete, if_pos (by rw [complete, List.append_nil])]
    · have unfinished := List.length_pos_of_ne_nil complete
      rw [if_neg complete, if_neg (by rw [List.length_append]; omega)]
  · have more := List.length_pos_of_ne_nil last
    rw [if_pos (by rw [List.length_append]; omega), if_pos last]

/-- A request without a body is complete with its header. -/
theorem InBody.awaiting {client : HttpServerClient} {wire : WireRequest options}
    {done : List (HttpRequest × Bytes)} (inBody : InBody client wire [] done)
    (empty : wire.body = []) : Awaiting options client (done ++ [wire.served]) where
  toInStep := by
    have inStep := inBody.toInStep
    rwa [← empty] at inStep
  receiving := inBody.receiving
  remaining := by
    rw [inBody.length, inBody.received, List.length_nil, Nat.cast_zero, Int.sub_zero]
    cases declares : declaresLength wire.request with
    | true =>
        rw [wire.declared declares, empty]
        exact Or.inl rfl
    | false => exact Or.inr (getContentLength_of_undeclared declares)

/-! ## Requests that are to come -/

/-- Where a client stands in the requests of its connection, by what all handlers are to be
told of, and the bytes that are to come. -/
inductive Standing (options : HttpServerOptions) : HttpServerClient →
    List (HttpRequest × Bytes) → Bytes → Prop where
  | between {client : HttpServerClient} {done : List (HttpRequest × Bytes)}
      (inHeader : InHeader options client [] done) (pending : List (WireRequest options)) :
      Standing options client (done ++ pending.map WireRequest.served) (encodeAll pending)
  | header {client : HttpServerClient} {done : List (HttpRequest × Bytes)}
      {wire : WireRequest options} {seen toCome : Bytes}
      (inHeader : InHeader options client seen done) (split : wire.header = seen ++ toCome)
      (begun : seen ≠ []) (unfinished : toCome ≠ []) (more : List (WireRequest options)) :
      Standing options client (done ++ (wire :: more).map WireRequest.served)
        (toCome ++ (wire.body ++ encodeAll more))
  | body {client : HttpServerClient} {done : List (HttpRequest × Bytes)}
      {wire : WireRequest options} {got left : Bytes} (inBody : InBody client wire got done)
      (split : wire.body = got ++ left) (unfinished : left ≠ [])
      (more : List (WireRequest options)) :
      Standing options client (done ++ (wire :: more).map WireRequest.served)
        (left ++ encodeAll more)
  | waiting {client : HttpServerClient} {done : List (HttpRequest × Bytes)}
      (awaiting : Awaiting options client done) (more : List (WireRequest options)) :
      Standing options client (done ++ more.map WireRequest.served) (encodeAll more)

theorem served_next (done : List (HttpRequest × Bytes)) (wire : WireRequest options)
    (more : List (WireRequest options)) :
    (done ++ [wire.served]) ++ more.map WireRequest.served =
      done ++ (wire :: more).map WireRequest.served := by
  rw [List.append_assoc]
  rfl

theorem encodeAll_cons (wire : WireRequest options) (more : List (WireRequest options)) :
    encodeAll (wire :: more) = wire.header ++ (wire.body ++ encodeAll more) :=
  List.append_assoc _ _ _

theorem encodeAll_eq_nil {requests : List (WireRequest options)} (empty : encodeAll requests = []) :
    requests = [] := by
  cases requests with
  | nil => rfl
  | cons wire more =>
      have long := wire.four_le_length
      rw [encodeAll_cons] at empty
      rw [(List.append_eq_nil_iff.mp empty).1] at long
      exact absurd long (by decide)

section Standing

variable {client next : HttpServerClient} {served : List (HttpRequest × Bytes)} {bytes : Bytes}

theorem Standing.inStep (standing : Standing options client served bytes) :
    ∃ done, InStep options client done := by
  cases standing with
  | between inHeader => exact ⟨_, inHeader.toInStep⟩
  | header inHeader => exact ⟨_, inHeader.toInStep⟩
  | body inBody => exact ⟨_, inBody.toInStep⟩
  | waiting awaiting => exact ⟨_, awaiting.toInStep⟩

/-- A client that reads a header, and has bytes to read, is in front of a part of a header. -/
theorem Standing.inHeader (standing : Standing options client served bytes)
    (receiving : client.receivingHeader = true) (some : bytes ≠ []) :
    ∃ done, ∃ wire : WireRequest options, ∃ seen toCome more, InHeader options client seen done ∧
      wire.header = seen ++ toCome ∧ toCome ≠ [] ∧
      bytes = toCome ++ (wire.body ++ encodeAll more) ∧
      served = done ++ (wire :: more).map WireRequest.served := by
  cases standing with
  | between inHeader pending =>
      cases pending with
      | nil => exact absurd rfl some
      | cons wire more =>
          have long := wire.four_le_length
          have unfinished : wire.header ≠ [] := List.ne_nil_of_length_pos (by omega)
          exact ⟨_, wire, [], wire.header, more, inHeader, rfl, unfinished,
            encodeAll_cons wire more, rfl⟩
  | header inHeader split begun unfinished more =>
      exact ⟨_, _, _, _, more, inHeader, split, unfinished, rfl, rfl⟩
  | body inBody split unfinished more =>
      exact Bool.noConfusion (inBody.receiving.symm.trans receiving)
  | waiting awaiting more => exact Bool.noConfusion (awaiting.receiving.symm.trans receiving)

/-- A client that misses bytes of a body is in front of them. -/
theorem Standing.inBody (standing : Standing options client served bytes)
    (misses : client.MissesBody) :
    ∃ done, ∃ wire : WireRequest options, ∃ got left more, InBody client wire got done ∧
      wire.body = got ++ left ∧ left ≠ [] ∧ bytes = left ++ encodeAll more ∧
      served = done ++ (wire :: more).map WireRequest.served := by
  cases standing with
  | between inHeader pending =>
      exact Bool.noConfusion (inHeader.receiving.symm.trans misses.1)
  | header inHeader split begun unfinished more =>
      exact Bool.noConfusion (inHeader.receiving.symm.trans misses.1)
  | body inBody split unfinished more =>
      exact ⟨_, _, _, _, more, inBody, split, unfinished, rfl, rfl⟩
  | waiting awaiting more => exact absurd misses awaiting.not_missesBody

/-- A client that reads a body and misses nothing of it awaits a body of no bytes. -/
theorem Standing.awaiting (standing : Standing options client served bytes)
    (receiving : client.receivingHeader = false) (outside : ¬ client.MissesBody) :
    ∃ done, ∃ more : List (WireRequest options), Awaiting options client done ∧
      bytes = encodeAll more ∧ served = done ++ more.map WireRequest.served := by
  cases standing with
  | between inHeader pending => exact Bool.noConfusion (inHeader.receiving.symm.trans receiving)
  | header inHeader split begun unfinished more =>
      exact Bool.noConfusion (inHeader.receiving.symm.trans receiving)
  | body inBody split unfinished more => exact absurd (inBody.missesBody split unfinished) outside
  | waiting awaiting more => exact ⟨_, more, awaiting, rfl, rfl⟩

/-- What does not move a client on leaves it where it stands. -/
theorem Standing.of_samePlace (standing : Standing options client served bytes)
    (same : SamePlace client next) (handled : next.handler = client.handler) :
    Standing options next served bytes := by
  cases standing with
  | between inHeader pending => exact .between (same.inHeader inHeader) pending
  | header inHeader split begun unfinished more =>
      exact .header (same.inHeader inHeader) split begun unfinished more
  | body inBody split unfinished more =>
      exact .body (same.inBody handled inBody) split unfinished more
  | waiting awaiting more => exact .waiting (same.awaiting awaiting) more

/-- When no bytes are to come, the requests are framed. -/
theorem Standing.framed (standing : Standing options client served bytes) (none : bytes = []) :
    Framed client served := by
  cases standing with
  | between inHeader pending =>
      rw [encodeAll_eq_nil none, List.map_nil, List.append_nil]
      exact inHeader.toFramed
  | header inHeader split begun unfinished more =>
      exact absurd (List.append_eq_nil_iff.mp none).1 unfinished
  | body inBody split unfinished more =>
      exact absurd (List.append_eq_nil_iff.mp none).1 unfinished
  | waiting awaiting more =>
      rw [encodeAll_eq_nil none, List.map_nil, List.append_nil]
      exact awaiting.toFramed

end Standing

/-- Data ends inside the first of two parts, or covers it. -/
theorem append_cases {first second data later : Bytes} (bytes : first ++ second = data ++ later) :
    (∃ rest, first = data ++ rest ∧ later = rest ++ second ∧ rest ≠ []) ∨
      ∃ rest, data = first ++ rest ∧ second = rest ++ later := by
  rcases List.append_eq_append_iff.mp bytes with ⟨rest, shape, tail⟩ | ⟨rest, shape, tail⟩
  · exact Or.inr ⟨rest, shape, tail⟩
  · by_cases empty : rest = []
    · refine Or.inr ⟨[], ?_, ?_⟩
      · rw [shape, empty, List.append_nil, List.append_nil]
      · rw [tail, empty]
        rfl
    · exact Or.inl ⟨rest, shape, tail, empty⟩

/-- What is left of a read. -/
def Turn.data : Turn → Bytes
  | .stop => []
  | .headerData data => data
  | .bodyData data => data

/-- What is left of a read goes where the client is. -/
def Turn.Fits (client : HttpServerClient) : Turn → Prop
  | .stop => True
  | .headerData data => client.receivingHeader = true ∧ data ≠ [] ∧ data.length < 2 ^ 31
  | .bodyData data => client.receivingHeader = false ∧ data ≠ [] ∧ data.length < 2 ^ 31

end HttpServerClient

namespace HttpServerRun

open HttpServerClient

variable {options : HttpServerOptions}

/-- The client stands in the requests, with what is left of its read in front of the bytes that
are to be received. -/
structure Stands (options : HttpServerOptions) (run : HttpServerRun)
    (served : List (HttpRequest × Bytes)) (later : Bytes) : Prop where
  standing : Standing options run.client served (run.left.data ++ later)
  fits : run.left.Fits run.client

section Turns

variable {client : HttpServerClient} {done : List (HttpRequest × Bytes)}
  {wire : WireRequest options} {more : List (WireRequest options)} {data later : Bytes}

theorem handler_receiveNext (client : HttpServerClient) :
    client.receiveNext.handler = client.handler := by
  rw [HttpServerClient.receiveNext]
  split <;> rfl

/-- After a complete header, what is left of the read is for the body, or for the next header
when the body is empty. -/
theorem stands_afterHeader {rest : Bytes} (inBody : InBody client wire [] done)
    (small : rest.length < 2 ^ 31) (bytes : wire.body ++ encodeAll more = rest ++ later) :
    let next : HttpServerClient × Turn :=
      if rest = [] then (client.receiveNext, .stop)
      else if getContentLength wire.request.message.headers = 0 then
        (client.resetState.skip wire.header.length, .headerData rest)
      else (client.skip wire.header.length, .bodyData rest)
    Stands options ⟨next.1, next.2⟩ (done ++ (wire :: more).map WireRequest.served) later := by
  by_cases last : rest = []
  · simp only [if_pos last]
    rw [last, List.nil_append] at bytes
    refine ⟨?_, trivial⟩
    show Standing options _ _ later
    rw [← bytes]
    by_cases empty : wire.body = []
    · have awaiting := (SamePlace.receiveNext client).awaiting (inBody.awaiting empty)
      rw [empty, ← served_next]
      exact .waiting awaiting more
    · have kept := (SamePlace.receiveNext client).inBody (handler_receiveNext client) inBody
      exact .body kept (List.nil_append _).symm empty more
  · simp only [if_neg last]
    by_cases declaredEmpty : getContentLength wire.request.message.headers = 0
    · simp only [if_pos declaredEmpty]
      have empty : wire.body = [] := by
        by_contra some
        rw [wire.declared (declaresLength_of_body some)] at declaredEmpty
        exact some (List.eq_nil_of_length_eq_zero (by omega))
      have inHeader := (inBody.awaiting empty).toInStep.resetState (Or.inl inBody.receiving)
      rw [empty, List.nil_append] at bytes
      refine ⟨?_, rfl, last, small⟩
      show Standing options _ _ (rest ++ later)
      rw [← bytes, ← served_next]
      exact .between ((SamePlace.skip _ _).inHeader inHeader) more
    · simp only [if_neg declaredEmpty]
      refine ⟨?_, inBody.receiving, last, small⟩
      show Standing options _ _ (rest ++ later)
      rw [← bytes]
      by_cases empty : wire.body = []
      · rw [empty, ← served_next]
        exact .waiting ((SamePlace.skip _ _).awaiting (inBody.awaiting empty)) more
      · have inBody := (SamePlace.skip client wire.header.length).inBody rfl inBody
        exact .body inBody (List.nil_append _).symm empty more

/-- A turn of a client in a header. -/
theorem stands_inHeader {seen toCome : Bytes} (router : HttpServerRouter)
    (inHeader : InHeader options client seen done) (split : wire.header = seen ++ toCome)
    (unfinished : toCome ≠ []) (some : data ≠ []) (small : data.length < 2 ^ 31)
    (bytes : toCome ++ (wire.body ++ encodeAll more) = data ++ later)
    (apart : ¬ client.CopiesOver data) :
    Stands options ⟨(client.turn router (.headerData data)).1,
      (client.turn router (.headerData data)).2⟩ (done ++ (wire :: more).map WireRequest.served)
      later := by
  rcases append_cases bytes with ⟨rest, rfl, rfl, open_⟩ | ⟨rest, rfl, tail⟩
  · obtain ⟨next, turned, part⟩ := inHeader.part router wire split open_ apart
    rw [turned]
    have whole : wire.header = (seen ++ data) ++ rest := by rw [split, List.append_assoc]
    refine ⟨?_, trivial⟩
    exact .header part whole (fun none => some (List.append_eq_nil_iff.mp none).2) open_ more
  · obtain ⟨next, inBody, turned⟩ := inHeader.complete router wire split rest
    rw [List.length_append] at small
    rw [turned]
    exact stands_afterHeader inBody (by omega) tail

/-- A turn of a client in a body. -/
theorem stands_inBody {got left : Bytes} (router : HttpServerRouter)
    (inBody : InBody client wire got done) (split : wire.body = got ++ left)
    (unfinished : left ≠ []) (some : data ≠ []) (small : data.length < 2 ^ 31)
    (bytes : left ++ encodeAll more = data ++ later) :
    Stands options ⟨(client.turn router (.bodyData data)).1,
      (client.turn router (.bodyData data)).2⟩ (done ++ (wire :: more).map WireRequest.served)
      later := by
  rcases append_cases bytes with ⟨rest, rfl, rfl, open_⟩ | ⟨rest, rfl, tail⟩
  · obtain ⟨next, part, turned⟩ :=
      inBody.turn router split some (Or.inr rfl) (by rwa [List.append_nil])
    rw [List.append_nil, if_neg (not_not.mpr rfl), if_neg open_] at turned
    rw [turned]
    refine ⟨?_, trivial⟩
    have kept := (SamePlace.receiveNext next).inBody (handler_receiveNext next) part
    exact .body kept (by rw [split, List.append_assoc]) open_ more
  · obtain ⟨next, whole, turned⟩ :=
      @InBody.turn _ _ _ _ _ [] rest _ router inBody (by rwa [List.append_nil]) unfinished
        (Or.inl rfl) small
    rw [← split] at whole
    have inHeader := whole.toInStep.resetState (Or.inl whole.receiving)
    rw [List.length_append] at small
    rw [turned, ← served_next]
    by_cases last : rest = []
    · rw [if_neg (not_not.mpr last), if_pos rfl]
      rw [last, List.nil_append] at tail
      refine ⟨?_, trivial⟩
      show Standing options _ _ later
      rw [← tail]
      exact .between ((SamePlace.receiveNext _).inHeader inHeader) more
    · rw [if_pos last]
      refine ⟨?_, rfl, last, by omega⟩
      show Standing options _ _ (rest ++ later)
      rw [← tail]
      exact .between ((SamePlace.skip _ _).inHeader inHeader) more

end Turns

end HttpServerRun

/-! ## Answers that are over -/

namespace HttpServerClient

variable {options : HttpServerOptions} {client next : HttpServerClient}
  {served : List (HttpRequest × Bytes)} {later : Bytes}

/-- The answer is over while the client is in a body, whose handler is dropped, or while it
keeps a part of a header, which it discards when it keeps the connection. -/
def LosesPlace (router : HttpServerRouter) (client : HttpServerClient) (bytes : Nat) : Prop :=
  ∃ handler ∈ client.handler,
    let told := client.tell router handler (.handleDataSent bytes)
    (told.session.isFinished = true ∧ told.session.getSendingQueueSize = 0) ∧
      (told.MissesBody ∨ told.receivingHeader = true ∧ told.headerBuffer ≠ [] ∧
        ¬ (told.session.isKeepAlive = false ∨
          told.options.maxKeepAliveRequests ≤ told.handledRequests))

instance (router : HttpServerRouter) (client : HttpServerClient) (bytes : Nat) :
    Decidable (client.LosesPlace router bytes) :=
  inferInstanceAs (Decidable (∃ _ ∈ client.handler, _))

/-- The last that a handler is told moves nothing on. -/
theorem samePlace_finished (router : HttpServerRouter) (client : HttpServerClient)
    (handler : UrlHandler) :
    SamePlace client
      { client.tell router handler .handleRequestFinished with handler := none } := by
  have told : SamePlace client (client.tell router handler .handleRequestFinished) :=
    SamePlace.tell router client handler rfl (fun _ => rfl) rfl
  exact told.trans ⟨rfl, rfl, rfl, rfl, rfl, rfl, rfl, rfl, rfl, fun _ => id⟩

/-- Outside a body the handler may be dropped. -/
theorem Standing.drop (standing : Standing options client served later)
    (outside : ¬ client.MissesBody) (same : SamePlace client next) :
    Standing options next served later := by
  cases standing with
  | between inHeader pending => exact .between (same.inHeader inHeader) pending
  | header inHeader split begun unfinished more =>
      exact .header (same.inHeader inHeader) split begun unfinished more
  | body inBody split unfinished more => exact absurd (inBody.missesBody split unfinished) outside
  | waiting awaiting more => exact .waiting (same.awaiting awaiting) more

/-- Between two requests the state may be reset. -/
theorem Standing.reset (standing : Standing options client served later)
    (outside : ¬ client.MissesBody)
    (empty : client.receivingHeader = true → client.headerBuffer = []) :
    Standing options client.resetState served later := by
  cases standing with
  | between inHeader pending =>
      exact .between (inHeader.toInStep.resetState (Or.inr inHeader.buffer)) pending
  | header inHeader split begun unfinished more =>
      exact absurd (inHeader.buffer.symm.trans (empty inHeader.receiving)) begun
  | body inBody split unfinished more => exact absurd (inBody.missesBody split unfinished) outside
  | waiting awaiting more =>
      exact .between (awaiting.toInStep.resetState (Or.inl awaiting.receiving)) more

theorem Standing.onSocketSend (standing : Standing options client served later)
    (router : HttpServerRouter) {bytes : Nat} (keeps : ¬ client.LosesPlace router bytes) :
    Standing options (client.onSocketSend router bytes) served later := by
  rw [HttpServerClient.onSocketSend]
  cases handled : client.handler with
  | none => exact standing
  | some handler =>
      replace keeps := fun loses => keeps ⟨handler, handled, loses⟩
      simp only at keeps ⊢
      have stands : Standing options (client.tell router handler (.handleDataSent bytes)) served
          later :=
        standing.of_samePlace (SamePlace.tell router client handler rfl (fun _ => rfl) rfl) rfl
      generalize client.tell router handler (.handleDataSent bytes) = told at keeps stands ⊢
      split
      · next ended =>
          have outside : ¬ told.MissesBody := fun misses => keeps ⟨ended, Or.inl misses⟩
          split
          · have closed : SamePlace told told.closeSocket :=
              ⟨rfl, rfl, rfl, rfl, rfl, rfl, rfl, rfl, rfl, fun _ => id⟩
            exact stands.drop outside (closed.trans (samePlace_finished router _ handler))
          · next keepsOpen =>
              have reset := stands.reset outside fun receiving => by
                by_contra some
                exact keeps ⟨ended, Or.inr ⟨receiving, some, keepsOpen⟩⟩
              refine reset.drop ?_ (samePlace_finished router _ handler)
              exact fun misses => Bool.noConfusion misses.1
      · exact stands

/-! ## What is lost for good -/

/-- A handler has been told of a body of no bytes, or of fewer. -/
def Bad (log : List (Nat × HandlerCall)) : Prop := ∃ size ∈ bodySizes log, size ≤ 0

/-- A handler that is told of no more bytes. -/
structure Short (client : HttpServerClient) (handler : Nat) (got : Bytes) : Prop where
  body : bodyOf handler (said client.log) = got
  started : handler < client.handledRequests
  left : ∀ own, client.handler = some own → handler < own.index

/-- What was told stays told, and what was lost stays lost. -/
structure Extends (client next : HttpServerClient) : Prop where
  said : said client.log <+: said next.log
  undefinedCopy : client.undefinedCopy = true → next.undefinedCopy = true
  discarded : client.discarded = true → next.discarded = true
  short : ∀ handler got, Short client handler got → Short next handler got

namespace Extends

variable {last : HttpServerClient}

theorem trans (first : Extends client next) (second : Extends next last) : Extends client last where
  said := first.said.trans second.said
  undefinedCopy copied := second.undefinedCopy (first.undefinedCopy copied)
  discarded lost := second.discarded (first.discarded lost)
  short handler got short := second.short handler got (first.short handler got short)

/-- Nobody is told of anything. -/
theorem of_silent (log : HttpServerClient.said next.log = HttpServerClient.said client.log)
    (count : next.handledRequests = client.handledRequests)
    (handler : next.handler = client.handler ∨ next.handler = none)
    (undefinedCopy : client.undefinedCopy = true → next.undefinedCopy = true)
    (discarded : client.discarded = true → next.discarded = true) : Extends client next where
  said := by rw [log]
  undefinedCopy := undefinedCopy
  discarded := discarded
  short index got short := by
    refine ⟨by rw [log, short.body], by rw [count]; exact short.started, ?_⟩
    intro own handled
    rcases handler with same | none
    · exact short.left own (same.symm.trans handled)
    · rw [none] at handled
      cases handled

theorem refl (client : HttpServerClient) : Extends client client :=
  of_silent rfl rfl (Or.inl rfl) id id

theorem receiveNext (client : HttpServerClient) : Extends client client.receiveNext := by
  rw [HttpServerClient.receiveNext]
  split
  · exact of_silent rfl rfl (Or.inl rfl) id id
  · exact refl client

theorem resetState (client : HttpServerClient) : Extends client client.resetState := by
  refine of_silent rfl rfl (Or.inl rfl) id fun lost => ?_
  exact (congrArg (· || _) lost).trans (Bool.true_or _)

/-- The handler of a client is told of something. -/
theorem tell (router : HttpServerRouter) {handler : UrlHandler}
    (handled : client.handler = some handler) (call : HandlerCall) :
    Extends client (client.tell router handler call) where
  said := by
    rw [said_tell]
    exact List.prefix_append _ _
  undefinedCopy := id
  discarded := id
  short index got short := by
    refine ⟨?_, short.started, short.left⟩
    have other := short.left handler handled
    have none : bodyOf index [(handler.index, call)] = [] := by
      cases call with
      | handleBodyData data size => simp [bodyOf, Nat.ne_of_gt other]
      | _ => rfl
    rw [said_tell, bodyOf_append, none, List.append_nil, short.body]

/-- A request is handed over to a new handler. -/
theorem handleRequest (router : HttpServerRouter) (client : HttpServerClient)
    (request : HttpRequest) : Extends client (client.handleRequest router request) := by
  rw [HttpServerClient.handleRequest]
  refine Extends.mk ?_ id id fun index got short => ⟨?_, ?_, ?_⟩
  · rw [said_tell]
    exact List.prefix_append _ _
  · have none : bodyOf index [(client.handledRequests, .handleRequest request)] = [] := rfl
    rw [said_tell, bodyOf_append]
    exact (congrArg _ none).trans ((List.append_nil _).trans short.body)
  · exact Nat.lt_succ_of_lt short.started
  · intro own handled
    cases handled
    exact short.started

theorem handleError (client : HttpServerClient) : Extends client client.handleError :=
  (resetState client).trans (of_silent rfl rfl (Or.inl rfl) id id)

theorem parseHeaderData (router : HttpServerRouter) (client : HttpServerClient) (data : Bytes) :
    Extends client (client.parseHeaderData router data).1 := by
  rw [HttpServerClient.parseHeaderData]
  cases HttpMessage.findHeaderEnd data with
  | none =>
      simp only
      split
      · exact handleError client
      · split
        · refine of_silent rfl rfl (Or.inl rfl) (fun copied => ?_) id
          exact (congrArg (· || _) copied).trans (Bool.true_or _)
        · exact of_silent rfl rfl (Or.inl rfl) id id
  | some pos =>
      simp only
      cases parseRequest data (pos + 4) with
      | none => exact handleError client
      | some request =>
          have parsed : Extends client { client with
              receivingHeader := false
              contentLength := getContentLength request.message.headers
              currentRequest := some request } := of_silent rfl rfl (Or.inl rfl) id id
          have handed := parsed.trans (handleRequest router _ request)
          simp only
          split
          · split
            · exact (handed.trans (resetState _)).trans (of_silent rfl rfl (Or.inl rfl) id id)
            · exact handed.trans (of_silent rfl rfl (Or.inl rfl) id id)
          · exact handed.trans (receiveNext _)

theorem turn (router : HttpServerRouter) (client : HttpServerClient) (left : Turn) :
    Extends client (client.turn router left).1 := by
  cases left with
  | stop => exact refl client
  | headerData data =>
      rw [turn_headerData]
      have buffered : Extends client (client.buffered data) :=
        of_silent rfl rfl (Or.inl rfl) id id
      exact buffered.trans (parseHeaderData router _ _)
  | bodyData data =>
      simp only [HttpServerClient.turn, handleBodyData]
      split
      · next handler _ handled =>
          generalize toInt (min (client.contentLength - client.receivedBodySize) data.length) = size
          have read : Extends client { client with
              receivedBodySize := client.receivedBodySize + size } :=
            of_silent rfl rfl (Or.inl rfl) id id
          have told := read.trans (@tell { client with
            receivedBodySize := client.receivedBodySize + size } router handler handled
              (.handleBodyData (data.take size.toNat) size))
          split
          · exact (told.trans (resetState _)).trans (of_silent rfl rfl (Or.inl rfl) id id)
          · split
            · exact (told.trans (resetState _)).trans (receiveNext _)
            · exact told.trans (receiveNext _)
      · have closed : Extends client client.closeSocket := of_silent rfl rfl (Or.inl rfl) id id
        exact closed.trans (handleError _)

theorem onSocketReceiveFailed (router : HttpServerRouter) (client : HttpServerClient)
    (errcode : Int) : Extends client (client.onSocketReceiveFailed router errcode) := by
  rw [HttpServerClient.onSocketReceiveFailed]
  have reset := resetState client
  cases handled : client.resetState.handler with
  | none =>
      simp only
      exact reset.trans (of_silent rfl rfl (Or.inl rfl) id id)
  | some handler =>
      simp only
      exact (reset.trans (tell router handled _)).trans (of_silent rfl rfl (Or.inl rfl) id id)

theorem onSocketSend (router : HttpServerRouter) (client : HttpServerClient) (bytes : Nat) :
    Extends client (client.onSocketSend router bytes) := by
  rw [HttpServerClient.onSocketSend]
  cases handled : client.handler with
  | none => exact refl client
  | some handler =>
      have told := tell router handled (.handleDataSent bytes)
      have still : (client.tell router handler (.handleDataSent bytes)).handler = some handler :=
        handled
      simp only
      generalize client.tell router handler (.handleDataSent bytes) = answered at told still ⊢
      split
      · have ends : ∀ ended : HttpServerClient, ended.handler = some handler →
            Extends ended { ended.tell router handler .handleRequestFinished with
              handler := none } := fun ended handled =>
          (tell router handled _).trans (of_silent rfl rfl (Or.inr rfl) id id)
        split
        · have closed : Extends answered answered.closeSocket :=
            of_silent rfl rfl (Or.inl rfl) id id
          exact (told.trans closed).trans (ends answered.closeSocket still)
        · exact (told.trans (resetState _)).trans (ends answered.resetState still)
      · exact told

end Extends

end HttpServerClient

namespace HttpServerRun

open HttpServerClient

variable {options : HttpServerOptions} {run next last : HttpServerRun}
  {served : List (HttpRequest × Bytes)} {later : Bytes}

/-! ## Runs -/

/-- The steps that keep the place: a body is only read while there are bytes of it to come, the
rest of a read is not copied over itself, and an answer is not over before its request and before
the next header that has begun. -/
def FramesOn (router : HttpServerRouter) (run : HttpServerRun) : ServerEvent → Prop
  | .turn =>
      match run.left with
      | .stop => True
      | .headerData data => ¬ run.client.CopiesOver data
      | .bodyData _ => 0 < run.client.contentLength - run.client.receivedBodySize
  | .sent buf =>
      run.client.session.connection.socket.sendingQueue ≠ [] →
        ∀ client ∈ hears run.client (.writeCompleted buf 0),
          ¬ client.LosesPlace router buf.bytes.length
  | _ => True

instance (router : HttpServerRouter) : ∀ (run : HttpServerRun) (event : ServerEvent),
    Decidable (FramesOn router run event)
  | ⟨_, .stop⟩, .turn => isTrue trivial
  | ⟨client, .headerData data⟩, .turn => inferInstanceAs (Decidable (¬ client.CopiesOver data))
  | ⟨client, .bodyData _⟩, .turn =>
      inferInstanceAs (Decidable (0 < client.contentLength - client.receivedBodySize))
  | _, .sent _ =>
      inferInstanceAs (Decidable (_ ≠ [] → ∀ client ∈ hears _ _, ¬ LosesPlace _ client _))
  | _, .received _ => isTrue trivial
  | _, .receiveFailed _ => isTrue trivial
  | _, .sendFailed _ _ => isTrue trivial
  | _, .acts _ _ => isTrue trivial

/-- The bytes that are received. -/
def receivedIn : ServerEvent → Bytes
  | .received data => data
  | _ => []

/-- Nothing happens to a client that was dropped. -/
theorem step_of_erased (router : HttpServerRouter) {event : ServerEvent}
    (erased : run.client.erased = true) (stopped : run.left = .stop) :
    step router run event = none := by
  have silent : run.waiting = false := by
    rw [HttpServerRun.waiting, stopped, erased]
    rfl
  cases event with
  | turn => rw [step, stopped]
  | acts handler calls =>
      rw [step, silent]
      exact if_neg fun may => Bool.noConfusion may.1
  | _ =>
      simp only [step, onCompletion, silent]
      simp

/-- What was lost for good. -/
inductive Doomed (served : List (HttpRequest × Bytes)) (run : HttpServerRun) : Prop where
  | bad (bad : Bad (said run.client.log))
  | undefinedCopy (copied : run.client.undefinedCopy = true)
  | discarded (lost : run.client.discarded = true)
  | short {handler : Nat} {got : Bytes} (short : run.client.Short handler got)
      (less : got ≠ ((served[handler]?).map Prod.snd).getD [])
  | dropped (erased : run.client.erased = true) (stopped : run.left = .stop)
      (fewer : (dispatched (said run.client.log)).length < served.length)

theorem Doomed.not_framed (doomed : Doomed served run) : ¬ Framed run.client served := by
  intro framed
  cases doomed with
  | bad bad =>
      obtain ⟨size, member, negative⟩ := bad
      exact absurd (framed.recorded.positive size member) (not_lt_of_ge negative)
  | undefinedCopy copied => exact Bool.noConfusion (framed.defined.symm.trans copied)
  | discarded lost => exact Bool.noConfusion (framed.kept.symm.trans lost)
  | short short less => exact less (short.body.symm.trans (framed.recorded.bodies _))
  | dropped erased stopped fewer =>
      exact absurd framed.recorded.length_dispatched (Nat.ne_of_lt fewer)

/-- What a step does to the client, besides what the socket does before it. -/
theorem extends_step (router : HttpServerRouter) {event : ServerEvent}
    (happens : step router run event = some next) : Extends run.client next.client := by
  have heard : ∀ {socketEvent : SocketEvent} {listener : HttpServerClient → HttpServerRun},
      run.onCompletion socketEvent listener = some next →
      (∀ client, Extends client (listener client).client) → Extends run.client next.client := by
    intro socketEvent listener happens listens
    rw [onCompletion] at happens
    split at happens
    · obtain ⟨client, hears, rfl⟩ := Option.map_eq_some_iff.mp happens
      obtain ⟨connection, -, rfl⟩ := Option.map_eq_some_iff.mp hears
      have first : Extends run.client
          { run.client with session := { run.client.session with connection } } :=
        .of_silent rfl rfl (Or.inl rfl) id id
      exact first.trans (listens _)
    · cases happens
  cases event with
  | received data =>
      rw [step] at happens
      split at happens
      · exact heard happens fun client => .of_silent rfl rfl (Or.inl rfl) id id
      · cases happens
  | turn =>
      obtain ⟨client, left⟩ := run
      cases left with
      | stop => cases happens
      | headerData data =>
          cases happens
          exact .turn router client _
      | bodyData data =>
          cases happens
          exact .turn router client _
  | receiveFailed errcode =>
      rw [step] at happens
      split at happens
      · cases happens
      · exact heard happens fun client => .onSocketReceiveFailed router client errcode
  | sent buf =>
      rw [step] at happens
      split at happens
      · exact heard happens fun client => .refl client
      · exact heard happens fun client => .onSocketSend router client buf.bytes.length
  | sendFailed buf errcode =>
      rw [step] at happens
      split at happens
      · cases happens
      · exact heard happens fun client => .onSocketReceiveFailed router client errcode
  | acts handler calls =>
      rw [step] at happens
      split at happens
      · cases happens
        exact .of_silent (said_act _ _ _) rfl (Or.inl rfl) id id
      · cases happens

/-- **What is lost is not made good.** -/
theorem Doomed.step {router : HttpServerRouter} {event : ServerEvent} (doomed : Doomed served run)
    (happens : HttpServerRun.step router run event = some next) : Doomed served next := by
  have extended := extends_step router happens
  cases doomed with
  | bad bad =>
      obtain ⟨size, member, negative⟩ := bad
      exact .bad ⟨size, (extended.said.filterMap _).mem member, negative⟩
  | undefinedCopy copied => exact .undefinedCopy (extended.undefinedCopy copied)
  | discarded lost => exact .discarded (extended.discarded lost)
  | short short less => exact .short (extended.short _ _ short) less
  | dropped erased stopped fewer =>
      rw [step_of_erased router erased stopped] at happens
      cases happens

/-! ### Steps that keep the place -/

theorem samePlace_of_hears {client next : HttpServerClient} {event : SocketEvent}
    (heard : hears client event = some next) :
    SamePlace client next ∧ next.handler = client.handler := by
  obtain ⟨connection, -, rfl⟩ := Option.map_eq_some_iff.mp heard
  exact ⟨⟨rfl, rfl, rfl, rfl, rfl, rfl, rfl, rfl, rfl, fun _ => id⟩, rfl⟩

theorem left_of_waiting (waits : run.waiting = true) : run.left = .stop := by
  rw [HttpServerRun.waiting] at waits
  split at waits
  · next stopped => exact stopped
  · cases waits

/-- A completion comes to a client that has nothing left of its read. -/
theorem Stands.hears {event : SocketEvent} {listener : HttpServerClient → HttpServerRun}
    (stands : Stands options run served later)
    (happens : run.onCompletion event listener = some next) :
    ∃ client, HttpServerRun.hears run.client event = some client ∧
      Standing options client served later ∧ next = listener client := by
  rw [onCompletion] at happens
  split at happens
  · next waits =>
      obtain ⟨client, heard, rfl⟩ := Option.map_eq_some_iff.mp happens
      have standing := stands.standing
      rw [left_of_waiting waits] at standing
      obtain ⟨same, handled⟩ := samePlace_of_hears heard
      exact ⟨client, heard, standing.of_samePlace same handled, rfl⟩
  · cases happens

theorem stands_received {client : HttpServerClient} {data : Bytes}
    (standing : Standing options client served (data ++ later)) (some : data ≠ [])
    (small : data.length < 2 ^ 31) :
    Stands options ⟨client.fresh, firstTurn client data⟩ served later := by
  have fresh : Standing options client.fresh served (data ++ later) :=
    standing.of_samePlace ⟨rfl, rfl, rfl, rfl, rfl, rfl, rfl, rfl, rfl, fun _ => id⟩ rfl
  cases receiving : client.receivingHeader with
  | true =>
      rw [firstTurn, if_pos receiving]
      exact ⟨fresh, receiving, some, small⟩
  | false =>
      rw [firstTurn, receiving, if_neg Bool.false_ne_true]
      exact ⟨fresh, receiving, some, small⟩

theorem stands_headerData {client : HttpServerClient} {data : Bytes} (router : HttpServerRouter)
    (stands : Stands options ⟨client, .headerData data⟩ served later)
    (apart : ¬ client.CopiesOver data) :
    Stands options ⟨(client.turn router (.headerData data)).1,
      (client.turn router (.headerData data)).2⟩ served later := by
  obtain ⟨standing, receiving, some, small⟩ := stands
  obtain ⟨done, wire, seen, toCome, more, inHeader, split, unfinished, bytes, rfl⟩ :=
    standing.inHeader receiving fun none => some (List.append_eq_nil_iff.mp none).1
  exact stands_inHeader router inHeader split unfinished some small bytes.symm apart

theorem stands_bodyData {client : HttpServerClient} {data : Bytes} (router : HttpServerRouter)
    (stands : Stands options ⟨client, .bodyData data⟩ served later)
    (missing : 0 < client.contentLength - client.receivedBodySize) :
    Stands options ⟨(client.turn router (.bodyData data)).1,
      (client.turn router (.bodyData data)).2⟩ served later := by
  obtain ⟨standing, receiving, some, small⟩ := stands
  obtain ⟨done, wire, got, left, more, inBody, split, unfinished, bytes, rfl⟩ :=
    standing.inBody ⟨receiving, missing⟩
  exact stands_inBody router inBody split unfinished some small bytes.symm

/-- A connection that fails behind all requests has framed them. -/
theorem framed_onSocketReceiveFailed {client : HttpServerClient} (router : HttpServerRouter)
    (errcode : Int) (standing : Standing options client served []) :
    Framed (client.onSocketReceiveFailed router errcode) served := by
  have reset : Standing options client.resetState served [] := by
    generalize none : ([] : Bytes) = bytes at standing
    cases standing with
    | between inHeader pending =>
        exact .between (inHeader.toInStep.resetState (Or.inr inHeader.buffer)) pending
    | header inHeader split begun unfinished more =>
        exact absurd (List.append_eq_nil_iff.mp none.symm).1 unfinished
    | body inBody split unfinished more =>
        exact absurd (List.append_eq_nil_iff.mp none.symm).1 unfinished
    | waiting awaiting more =>
        exact .between (awaiting.toInStep.resetState (Or.inl awaiting.receiving)) more
  have framed := reset.framed rfl
  rw [onSocketReceiveFailed]
  cases handled : client.resetState.handler with
  | none => exact ⟨framed.recorded, framed.defined, framed.kept⟩
  | some handler =>
      have told : SamePlace client.resetState
          (client.resetState.tell router handler (.handleError errcode)) :=
        SamePlace.tell router _ handler rfl (fun _ => rfl) rfl
      exact ⟨told.recorded served framed.recorded, framed.defined, framed.kept⟩

theorem erased_onSocketReceiveFailed (router : HttpServerRouter) (client : HttpServerClient)
    (errcode : Int) : (client.onSocketReceiveFailed router errcode).erased = true := by
  rw [onSocketReceiveFailed]
  simp only
  split
  · rfl
  · rfl

/-- **A step that keeps the place** moves the client on by the bytes that are received, or ends
the connection. -/
theorem stands_step {router : HttpServerRouter} {event : ServerEvent}
    (stands : Stands options run served (receivedIn event ++ later))
    (keeps : FramesOn router run event) (happens : step router run event = some next) :
    Stands options next served later ∨
      (next.client.erased = true ∧ next.left = .stop ∧
        (later = [] → Framed next.client served)) := by
  have failed : ∀ {socketEvent : SocketEvent} {errcode : Int}, receivedIn event = [] →
      run.onCompletion socketEvent (fun client =>
        ⟨client.onSocketReceiveFailed router errcode, .stop⟩) = some next →
      next.client.erased = true ∧ next.left = .stop ∧
        (later = [] → Framed next.client served) := by
    intro socketEvent errcode nothing happens
    rw [nothing] at stands
    obtain ⟨client, -, standing, rfl⟩ := stands.hears happens
    refine ⟨erased_onSocketReceiveFailed router client errcode, rfl, ?_⟩
    rintro rfl
    exact framed_onSocketReceiveFailed router errcode standing
  cases event with
  | received data =>
      rw [step] at happens
      split at happens
      · next fits =>
          obtain ⟨client, -, standing, rfl⟩ := stands.hears happens
          obtain ⟨done, inStep⟩ := stands.standing.inStep
          have small := options.small
          have short := fits.2
          rw [inStep.options] at short
          exact Or.inl (stands_received standing fits.1 (by omega))
      · cases happens
  | turn =>
      obtain ⟨client, left⟩ := run
      cases left with
      | stop => cases happens
      | headerData data =>
          cases happens
          exact Or.inl (stands_headerData router stands keeps)
      | bodyData data =>
          cases happens
          exact Or.inl (stands_bodyData router stands keeps)
  | receiveFailed errcode =>
      rw [step] at happens
      split at happens
      · cases happens
      · exact Or.inr (failed rfl happens)
  | sent buf =>
      rw [step] at happens
      split at happens
      · obtain ⟨client, -, standing, rfl⟩ := stands.hears happens
        exact Or.inl ⟨standing, trivial⟩
      · next some =>
          obtain ⟨client, heard, standing, rfl⟩ := stands.hears happens
          exact Or.inl ⟨standing.onSocketSend router (keeps some client heard), trivial⟩
  | sendFailed buf errcode =>
      rw [step] at happens
      split at happens
      · cases happens
      · exact Or.inr (failed rfl happens)
  | acts handler calls =>
      rw [step] at happens
      split at happens
      · next may =>
          cases happens
          have standing := stands.standing
          rw [left_of_waiting may.1] at standing
          exact Or.inl ⟨standing.of_samePlace (SamePlace.act _ _ calls) rfl, trivial⟩
      · cases happens

/-! ### Steps that lose the place -/

theorem doomed_headerData {client : HttpServerClient} {data : Bytes} (router : HttpServerRouter)
    (stands : Stands options ⟨client, .headerData data⟩ served later)
    (copies : client.CopiesOver data) :
    Doomed served ⟨(client.turn router (.headerData data)).1,
      (client.turn router (.headerData data)).2⟩ := by
  obtain ⟨standing, receiving, some, -⟩ := stands
  obtain ⟨done, wire, seen, toCome, more, inHeader, split, unfinished, bytes, rfl⟩ :=
    standing.inHeader receiving fun none => some (List.append_eq_nil_iff.mp none).1
  refine .undefinedCopy (undefinedCopy_of_part router copies ?_)
  obtain rfl : [] = seen := copies.1.symm.trans inHeader.buffer
  -- the data is a part of the header, which has not ended in it
  rcases append_cases bytes.symm with ⟨rest, part, -, open_⟩ | ⟨rest, whole, -⟩
  · have fits := (@absent_of_part _ _ [] data rest (split.trans part) open_).2
    rwa [← inHeader.options] at fits
  · have absent : HttpMessage.findHeaderEnd (Turn.data (.headerData data)) = none := copies.2.1
    rw [whole, ← List.nil_append toCome, ← split, wire.findHeaderEnd_append rest] at absent
    cases absent

/-- What is read of a body of no bytes, or of fewer, is told to its handler; without a handler
the client is dropped. -/
theorem bad_or_dropped {client : HttpServerClient} {data : Bytes}
    {done : List (HttpRequest × Bytes)} (router : HttpServerRouter)
    (awaiting : Awaiting options client done) :
    Bad (said (client.turn router (.bodyData data)).1.log) ∨
      ((client.turn router (.bodyData data)).1.erased = true ∧
        (client.turn router (.bodyData data)).2 = .stop ∧
        (client.turn router (.bodyData data)).1.log = client.log) := by
  simp only [HttpServerClient.turn, handleBodyData]
  split
  · left
    have size : toInt (min (client.contentLength - client.receivedBodySize) data.length) ≤ 0 := by
      rcases awaiting.remaining with zero | one
      · rw [zero, min_eq_left (by omega)]
        decide
      · rw [one, min_eq_left (by omega)]
        decide
    refine ⟨_, ?_, size⟩
    split
    · simp [skip, resetState, bodySizes]
    · split
      · simp [resetState, bodySizes]
      · simp [bodySizes]
  · exact Or.inr ⟨rfl, rfl, rfl⟩

theorem doomed_bodyData {client : HttpServerClient} {data : Bytes} (router : HttpServerRouter)
    (stands : Stands options ⟨client, .bodyData data⟩ served later)
    (nothing : ¬ 0 < client.contentLength - client.receivedBodySize) :
    Doomed served ⟨(client.turn router (.bodyData data)).1,
      (client.turn router (.bodyData data)).2⟩ := by
  obtain ⟨standing, receiving, some, -⟩ := stands
  obtain ⟨done, more, awaiting, bytes, rfl⟩ :=
    standing.awaiting receiving fun misses => nothing misses.2
  rcases @bad_or_dropped _ client data _ router awaiting with bad | ⟨erased, stopped, log⟩
  · exact .bad bad
  · refine .dropped erased stopped ?_
    have told : said (client.turn router (.bodyData data)).1.log = said client.log :=
      congrArg _ log
    rw [told, awaiting.recorded.length_dispatched, List.length_append, List.length_map]
    cases more with
    | nil => exact absurd (List.append_eq_nil_iff.mp bytes).1 some
    | cons wire more => simp

/-- What is left of a body is not told to a handler that was dropped. -/
theorem doomed_of_missesBody {client ended : HttpServerClient} (router : HttpServerRouter)
    (handler : UrlHandler) (standing : Standing options client served later)
    (misses : client.MissesBody) (log : said ended.log = said client.log)
    (count : ended.handledRequests = client.handledRequests) :
    Doomed served
      ⟨{ ended.tell router handler .handleRequestFinished with handler := none }, .stop⟩ := by
  obtain ⟨done, wire, got, left, more, inBody, split, unfinished, -, rfl⟩ := standing.inBody misses
  refine @Doomed.short _ _ done.length got ⟨?_, ?_, fun own handled => by cases handled⟩ ?_
  · have told := said_tell router ended handler .handleRequestFinished
    have silent : bodyOf done.length [(handler.index, .handleRequestFinished)] = [] := rfl
    refine (congrArg (bodyOf done.length) told).trans ?_
    rw [bodyOf_append, silent, List.append_nil, log, inBody.recorded.bodies]
    simp
  · have counted := inBody.count
    rw [List.length_append] at counted
    exact lt_of_lt_of_eq (Nat.lt_succ_self _) (count.trans counted).symm
  · have body : ((done ++ (wire :: more).map WireRequest.served)[done.length]?).map Prod.snd =
        some wire.body := by simp [WireRequest.served]
    rw [body, Option.getD_some, split]
    exact fun same => unfinished (List.append_right_eq_self.mp same.symm)

/-- A handler whose answer is over leaves the body of its request behind, or what the client
has kept of a header. -/
theorem doomed_onSocketSend {client : HttpServerClient} (router : HttpServerRouter) {bytes : Nat}
    (standing : Standing options client served later) (loses : client.LosesPlace router bytes) :
    Doomed served ⟨client.onSocketSend router bytes, .stop⟩ := by
  obtain ⟨handler, handled, loses⟩ := loses
  rw [onSocketSend, Option.mem_def.mp handled]
  simp only at loses ⊢
  have told : Standing options (client.tell router handler (.handleDataSent bytes)) served
      later :=
    standing.of_samePlace (SamePlace.tell router client handler rfl (fun _ => rfl) rfl) rfl
  generalize client.tell router handler (.handleDataSent bytes) = answered at loses told ⊢
  obtain ⟨ended, misses | ⟨receiving, kept, keepsOpen⟩⟩ := loses
  · rw [if_pos ended]
    refine doomed_of_missesBody router handler told misses ?_ ?_
    · split <;> rfl
    · split <;> rfl
  · rw [if_pos ended, if_neg keepsOpen]
    have some : (answered.receivingHeader && !answered.headerBuffer.isEmpty) = true := by
      simpa [receiving] using kept
    exact .discarded ((congrArg (answered.discarded || ·) some).trans (Bool.or_true _))

/-- **A step that does not keep the place loses it for good.** -/
theorem doomed_step {router : HttpServerRouter} {event : ServerEvent}
    (stands : Stands options run served later) (loses : ¬ FramesOn router run event)
    (happens : step router run event = some next) : Doomed served next := by
  obtain ⟨client, left⟩ := run
  cases event with
  | turn =>
      cases left with
      | stop => cases happens
      | headerData data =>
          cases happens
          exact doomed_headerData router stands (not_not.mp loses)
      | bodyData data =>
          cases happens
          exact doomed_bodyData router stands loses
  | sent buf =>
      obtain ⟨some, left⟩ := Classical.not_imp.mp loses
      obtain ⟨client, left⟩ := not_forall.mp left
      obtain ⟨heard, misses⟩ := Classical.not_imp.mp left
      rw [step, if_neg some] at happens
      obtain ⟨other, heardOther, standing, rfl⟩ := stands.hears happens
      obtain rfl : client = other := Option.some.inj (heard.symm.trans heardOther)
      exact doomed_onSocketSend router standing (not_not.mp misses)
  | _ => exact absurd trivial loses

/-- **Requests are framed by exactly the runs whose steps keep the place of the client.**  The
induction is on the events. -/
theorem framed_iff_guarded {router : HttpServerRouter} {events : List ServerEvent}
    (stands : Stands options run served (events.flatMap receivedIn))
    (reached : runFrom (step router) run events = some last) (finished : last.left = .stop) :
    Framed last.client served ↔ Guarded (step router) (FramesOn router) run events := by
  induction events generalizing run with
  | nil =>
      cases reached
      have standing := stands.standing
      rw [finished] at standing
      exact iff_of_true (standing.framed rfl) trivial
  | cons event events ih =>
      obtain ⟨next, happens, later⟩ := Option.bind_eq_some_iff.mp reached
      have bytes : (event :: events).flatMap receivedIn =
          receivedIn event ++ events.flatMap receivedIn := rfl
      rw [bytes] at stands
      by_cases keeps : FramesOn router run event
      · rw [guarded_cons_iff happens, and_iff_right keeps]
        rcases stands_step stands keeps happens with on | ⟨erased, stopped, framed⟩
        · exact ih on later
        · cases events with
          | nil =>
              cases later
              exact iff_of_true (framed rfl) trivial
          | cons event events =>
              rw [runFrom, step_of_erased router erased stopped] at later
              cases later
      · have doomed : Doomed served last :=
          holds_of_run (fun _ _ _ doomed happens => doomed.step happens)
            (doomed_step stands keeps happens) later
        exact iff_of_false doomed.not_framed fun guarded =>
          keeps ((guarded_cons_iff happens).mp guarded).1

/-! ## A connection -/

/-- **Requests on a connection are framed exactly when no step of its run loses the place of
the client**: for all events on the connection that receive the bytes of these requests and
serve the last read to its end, and for any router and handlers. -/
theorem requests_framed_iff (options : HttpServerOptions) (router : HttpServerRouter)
    (connection : SocketRun) (requests : List (WireRequest options)) {events : List ServerEvent}
    {last : HttpServerRun} (received : events.flatMap receivedIn = encodeAll requests)
    (reached : runFrom (step router) (start options connection) events = some last)
    (finished : last.left = .stop) :
    Framed last.client (requests.map WireRequest.served) ↔
      Guarded (step router) (FramesOn router) (start options connection) events := by
  have inHeader : InHeader options (start options connection).client [] [] :=
    { recorded := recorded_nil, defined := rfl, kept := rfl, options := rfl, count := rfl
      receiving := rfl, buffer := rfl, received := rfl }
  have stands : Stands options (start options connection) (requests.map WireRequest.served)
      (events.flatMap receivedIn) := by
    rw [received]
    exact ⟨.between inHeader requests, trivial⟩
  exact framed_iff_guarded stands reached finished

/-- A request with a body of five bytes. -/
def postRequest : WireRequest .release where
  header := ascii "POST /a HTTP/1.1\r\nContent-Length: 5\r\n\r\n"
  body := ascii "hello"
  request := (parseRequest (ascii "POST /a HTTP/1.1\r\nContent-Length: 5\r\n\r\n") 39).getD .create
  ends := by decide +kernel
  fits := by decide +kernel
  parses := by decide +kernel
  declared := by decide +kernel
  undeclared := by decide +kernel

/-- A request that declares no length. -/
def getRequest : WireRequest .release where
  header := ascii "GET /b HTTP/1.1\r\n\r\n"
  body := []
  request := (parseRequest (ascii "GET /b HTTP/1.1\r\n\r\n") 19).getD .create
  ends := by decide +kernel
  fits := by decide +kernel
  parses := by decide +kernel
  declared := by decide +kernel
  undeclared := by decide +kernel

/-- The events of two reads that are served to their end. -/
def pipelined : List ServerEvent :=
  [.received (postRequest.header ++ ascii "he"), .turn, .turn,
    .received (ascii "llo" ++ getRequest.header), .turn, .turn]

theorem requests_framed_iff_pipelined :
    ∃ last, runFrom (step silentRouter) (start .release (.start .accepted)) pipelined = some last ∧
      Framed last.client [postRequest.served, getRequest.served] := by
  have waits : (runFrom (step silentRouter) (start .release (.start .accepted))
      pipelined).map waiting = some true := by decide +kernel
  obtain ⟨last, reached, waiting⟩ := Option.map_eq_some_iff.mp waits
  have keeps : Guarded (step silentRouter) (FramesOn silentRouter)
      (start .release (.start .accepted)) pipelined :=
    @of_decide_eq_true _ (Guarded.decide inferInstance _ _) (by decide +kernel)
  exact ⟨last, reached, (requests_framed_iff .release silentRouter (.start .accepted)
    [postRequest, getRequest] (by decide +kernel) reached (left_of_waiting waiting)).mpr keeps⟩

/-- A router whose handlers answer when they are handed the request. -/
def promptRouter : HttpServerRouter where
  createUrlHandler _ _ _ := true
  reaction _ log :=
    match log.getLast? with
    | some (.told _ (.handleRequest _)) =>
        [.setKeepAlive true, .setStatusCode 200, .sendHeader, .finish]
    | _ => []

/-- The bytes after a request that declares no length are discarded with it: its handler
is told of a body of -1 bytes.  A part of a header that follows the rest of a request in one read
is copied over itself, and an answer that is sent before the body is received takes the body
away. -/
theorem undeclared_not_framed :
    (¬ ∀ (options : HttpServerOptions) (router : HttpServerRouter) (connection : SocketRun)
        (requests : List (WireRequest options)) (events : List ServerEvent) (last : HttpServerRun),
      events.flatMap receivedIn = encodeAll requests →
      runFrom (step router) (start options connection) events = some last → last.left = .stop →
      Framed last.client (requests.map WireRequest.served)) ∧
    (runFrom (step silentRouter) (start .release (.start .accepted))
      [.received (ascii "P"), .turn,
        .received (postRequest.header.drop 1 ++ postRequest.body ++
          ascii "GET /a-path-as-long-as-the-whole-request-that-was-in-front-of-it"),
        .turn, .turn, .turn]).map (fun run => run.client.undefinedCopy) = some true ∧
    (runFrom (step promptRouter) (start .release (.start .accepted))
      [.received postRequest.header, .turn, .sent ⟨0, ascii "HTTP/1.0 200 OK\r\n\r\n"⟩,
        .received postRequest.body, .turn]).map (fun run =>
          (bodyOf 0 (said run.client.log), run.client.headerBuffer)) =
      some ([], ascii "hello") := by
  refine ⟨?_, by decide +kernel, by decide +kernel⟩
  intro framed
  have served : (runFrom (step silentRouter) (start .release (.start .accepted))
      [.received (getRequest.header ++ getRequest.header), .turn, .turn]).map (fun run =>
        (run.waiting, bodySizes (said run.client.log))) = some (true, [-1]) := by
    decide +kernel
  obtain ⟨last, reached, told⟩ := Option.map_eq_some_iff.mp served
  obtain ⟨waits, sizes⟩ := Prod.mk.inj told
  have recorded := (framed .release silentRouter (.start .accepted) [getRequest, getRequest] _ last
    (by decide +kernel) reached (left_of_waiting waits)).recorded
  exact absurd (recorded.positive (-1) (by rw [sizes]; decide)) (by decide)

end HttpServerRun

end Xul
