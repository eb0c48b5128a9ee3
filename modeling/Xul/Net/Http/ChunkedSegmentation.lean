import Xul.Foundation.Segmentation
import Xul.Net.Http.ChunkedHttpFilter

/-!
# Chunked bodies in segments

A chunked body that arrives in segments is decoded as one body only when every
segment boundary stands where the filter keeps its place.  `marks` says where that is:
in a size line, where the digits to come still have the value of the line, so at its
start or after leading zeros; from the end of the size line to the last byte of the
payload; before the empty line that closes the body.  `At` follows a reader through
the bytes and marks of a body.
-/

set_option autoImplicit false

namespace Xul

open Foundation

namespace ChunkedHttpFilter

/-! ## Hexadecimal size lines -/

/-- The value of a line of hexadecimal digits, if it is less than 2^31. -/
def hexSize (line : Bytes) : Option Nat :=
  if line ≠ [] ∧ ∀ c ∈ line, (digitValue 16 c).isSome then
    let value := Nat.ofDigits 16 (scanDigits 16 line).reverse
    if value < 2 ^ 31 then some value else none
  else none

/-- The first digits of a line are read when it is scanned as a number. -/
theorem scanNumber_of_hexDigits {line : Bytes} (nonempty : line ≠ [])
    (digits : ∀ c ∈ line, (digitValue 16 c).isSome) :
    scanNumber 16 line = some (false, Nat.ofDigits 16 (scanDigits 16 line).reverse) := by
  obtain ⟨c, rest, rfl⟩ := List.exists_cons_of_ne_nil nonempty
  obtain ⟨value, reads⟩ := Option.isSome_iff_exists.mp (digits c (List.mem_cons_self ..))
  have noPrefix : skipHexPrefix (c :: rest) = c :: rest := by
    unfold skipHexPrefix
    split
    · next equal =>
        obtain ⟨rfl, rfl⟩ := List.cons.inj equal
        exact absurd (digits 120 (by simp)) (by decide)
    · next equal =>
        obtain ⟨rfl, rfl⟩ := List.cons.inj equal
        exact absurd (digits 88 (by simp)) (by decide)
    · rfl
  simp [scanNumber, scanSign_dropWhile_of_digit reads, noPrefix, scanDigits, reads]

/-- What a line of hexadecimal digits is. -/
theorem hexSize_eq_some_iff {line : Bytes} {size : Nat} :
    hexSize line = some size ↔ line ≠ [] ∧ (∀ c ∈ line, (digitValue 16 c).isSome) ∧
      Nat.ofDigits 16 (scanDigits 16 line).reverse = size ∧ size < 2 ^ 31 := by
  simp only [hexSize]
  constructor
  · intro sized
    split at sized
    · next hex =>
        split at sized
        · next small =>
            cases sized
            exact ⟨hex.1, hex.2, rfl, small⟩
        · cases sized
    · cases sized
  · rintro ⟨nonempty, digits, rfl, small⟩
    rw [if_pos ⟨nonempty, digits⟩, if_pos small]

/-- A character that is no digit is not in a line of digits. -/
theorem not_mem_of_hexSize {line : Bytes} {size : Nat} (sized : hexSize line = some size)
    {c : UInt8} (noDigit : digitValue 16 c = none) : c ∉ line := by
  intro member
  have digit := (hexSize_eq_some_iff.mp sized).2.1 c member
  rw [noDigit] at digit
  cases digit

theorem ne_lf_of_hexSize {text digits : Bytes} {byte : UInt8} {size : Nat}
    (sized : hexSize (text ++ byte :: digits) = some size) : byte ≠ 10 := by
  rintro rfl
  have noDigit : digitValue 16 10 = none := by decide
  exact not_mem_of_hexSize sized noDigit (by simp)

/-- **The filter reads a line of hexadecimal digits as its value.** -/
theorem chunkSize_of_hexSize {line : Bytes} {size : Nat} (sized : hexSize line = some size)
    (small : size + 2 < 2 ^ 31) : chunkSize line = some size := by
  obtain ⟨nonempty, digits, value, -⟩ := hexSize_eq_some_iff.mp sized
  have clean : cStr line = line :=
    cStr_of_no_zero (not_mem_of_hexSize sized (by decide))
  have scanned : scanHexInt64 line = some (size : Int) := by
    rw [scanHexInt64, scanNumber_of_hexDigits nonempty digits, value]
    simp only [Option.map_some, Bool.false_eq_true, if_false]
    rw [if_neg (by omega), toInt64_of_small (by omega) (by omega)]
  have range : (0 : Int) ≤ size ∧ (size : Int) + 2 < 2 ^ 31 := by omega
  rw [chunkSize, clean, scanned]
  simp only [if_pos range, Int.toNat_natCast]

/-! ## Where a boundary may stand -/

/-- In a size line: before digits that still have the value of the line. -/
def lineMarks (size : Nat) : Bytes → List Bool
  | [] => []
  | c :: rest => decide (hexSize (c :: rest) = some size) :: lineMarks size rest

/-- From the end of a size line to the end of its chunk: before a byte of payload. -/
def payloadMarks (size : Nat) : List Bool := List.replicate size true ++ [false, false]

def chunkMarks (line : Bytes) (size : Nat) : List Bool :=
  lineMarks size line ++ [false, false] ++ payloadMarks size

/-- One mark for each byte of a body: whether a boundary may stand before it. -/
def marks (body : Chunked.Body hexSize) : List Bool :=
  (body.chunks.flatMap fun chunk => chunkMarks chunk.line chunk.payload.length) ++
    (lineMarks 0 body.last.line ++ [false, false, true, false])

/-- Every size of a body leaves room for the two bytes of a line end. -/
def SizesInRange (body : Chunked.Body hexSize) : Prop :=
  ∀ chunk ∈ body.chunks, chunk.payload.length + 2 < 2 ^ 31

/-! ## A reader inside a body -/

/-- The phase of a reader in a body, with the bytes, marks and payload that are to
come. -/
inductive At : Chunked.Phase → Bytes → List Bool → Bytes → Prop where
  | line (text digits payload : Bytes) (body : Chunked.Body hexSize)
      (sized : hexSize (text ++ digits) = some payload.length) (nonempty : payload ≠ [])
      (small : payload.length + 2 < 2 ^ 31) (others : SizesInRange body) :
      At (.line text) (digits ++ [13, 10] ++ (payload ++ [13, 10] ++ body.encode))
        (chunkMarks digits payload.length ++ marks body) (payload ++ body.payload)
  | lineCr (text payload : Bytes) (body : Chunked.Body hexSize)
      (sized : hexSize text = some payload.length) (nonempty : payload ≠ [])
      (small : payload.length + 2 < 2 ^ 31) (others : SizesInRange body) :
      At (.line (text ++ [13])) (10 :: (payload ++ [13, 10] ++ body.encode))
        (false :: (payloadMarks payload.length ++ marks body)) (payload ++ body.payload)
  | data (payload : Bytes) (body : Chunked.Body hexSize) (nonempty : payload ≠ [])
      (others : SizesInRange body) :
      At (.data payload.length) (payload ++ [13, 10] ++ body.encode)
        (payloadMarks payload.length ++ marks body) (payload ++ body.payload)
  | dataEnd (body : Chunked.Body hexSize) (others : SizesInRange body) :
      At .dataEnd (13 :: 10 :: body.encode) (false :: false :: marks body) body.payload
  | dataEndCr (body : Chunked.Body hexSize) (others : SizesInRange body) :
      At .dataEndCr (10 :: body.encode) (false :: marks body) body.payload
  | last (text digits : Bytes) (sized : hexSize (text ++ digits) = some 0) :
      At (.line text) (digits ++ [13, 10, 13, 10])
        (lineMarks 0 digits ++ [false, false, true, false]) []
  | lastCr (text : Bytes) (sized : hexSize text = some 0) :
      At (.line (text ++ [13])) [10, 13, 10] [false, true, false] []
  | trailer : At .trailer [13, 10] [true, false] []
  | trailerCr : At .trailerCr [10] [false] []
  | terminated : At .terminated [] [] []

theorem at_start {body : Chunked.Body hexSize} (inRange : SizesInRange body) :
    At (.line []) body.encode (marks body) body.payload := by
  obtain ⟨chunks, closing⟩ := body
  cases chunks with
  | nil =>
      have shape := At.last [] closing.line closing.sized
      simpa [Chunked.Body.encode, Chunked.Body.payload, marks, Chunked.lineEnd] using shape
  | cons chunk chunks =>
      have shape := At.line [] chunk.line chunk.payload ⟨chunks, closing⟩ chunk.sized
        chunk.nonempty (inRange chunk (List.mem_cons_self ..))
        fun other member => inRange other (List.mem_cons_of_mem _ member)
      simpa [Chunked.Body.encode, Chunked.Chunk.encode, Chunked.Body.payload, marks,
        Chunked.lineEnd] using shape

/-- A digit does not end a line. -/
theorem next_line_digit {text : Bytes} {c : UInt8} (digit : c ≠ 10) :
    Chunked.next chunkSize (.line text) c = (.line (text ++ [c]), []) := by
  simp [Chunked.next, digit]

theorem next_line_lf {text : Bytes} :
    Chunked.next chunkSize (.line (text ++ [13])) 10 =
      (Chunked.afterLine chunkSize text, []) := by
  simp [Chunked.next]

/-- **One byte further.** -/
theorem At.next {phase : Chunked.Phase} {bytes : Bytes} {marked : List Bool} {payload : Bytes}
    (at_ : At phase bytes marked payload) {byte : UInt8} {rest : Bytes}
    (shape : bytes = byte :: rest) :
    ∃ remaining, At (Chunked.next chunkSize phase byte).1 rest (marked.drop 1) remaining ∧
      payload = (Chunked.next chunkSize phase byte).2 ++ remaining := by
  cases at_ with
  | line text digits payload body sized nonempty small others =>
      cases digits with
      | nil =>
          cases shape
          rw [List.append_nil] at sized
          exact ⟨_, by
            rw [next_line_digit (by decide)]
            exact At.lineCr text payload body sized nonempty small others, rfl⟩
      | cons c digits =>
          cases shape
          have digit := ne_lf_of_hexSize sized
          refine ⟨_, ?_, by rw [next_line_digit digit]; rfl⟩
          rw [next_line_digit digit]
          exact At.line (text ++ [byte]) digits payload body (by simpa using sized) nonempty small
            others
  | lineCr text payload body sized nonempty small others =>
      cases shape
      have after : Chunked.afterLine chunkSize text = .data payload.length :=
        Chunked.afterLine_of_payload (chunkSize_of_hexSize sized small) nonempty
      refine ⟨_, ?_, by rw [next_line_lf]; rfl⟩
      rw [next_line_lf, after]
      exact At.data payload body nonempty others
  | data payload body nonempty others =>
      cases payload with
      | nil => exact absurd rfl nonempty
      | cons first payload =>
          cases shape
          cases payload with
          | nil =>
              exact ⟨_, by simpa [Chunked.next, payloadMarks] using At.dataEnd body others, rfl⟩
          | cons second payload =>
              have later := At.data (second :: payload) body (by simp) others
              exact ⟨_, by simpa [Chunked.next, payloadMarks, List.replicate_succ] using later, rfl⟩
  | dataEnd body others =>
      cases shape
      exact ⟨body.payload, by simpa [Chunked.next] using At.dataEndCr body others, rfl⟩
  | dataEndCr body others =>
      cases shape
      exact ⟨body.payload, by simpa [Chunked.next] using at_start others, rfl⟩
  | last text digits sized =>
      cases digits with
      | nil =>
          cases shape
          rw [List.append_nil] at sized
          exact ⟨_, by
            rw [next_line_digit (by decide)]
            exact At.lastCr text sized, rfl⟩
      | cons c digits =>
          cases shape
          have digit := ne_lf_of_hexSize sized
          refine ⟨_, ?_, by rw [next_line_digit digit]; rfl⟩
          rw [next_line_digit digit]
          exact At.last (text ++ [byte]) digits (by simpa using sized)
  | lastCr text sized =>
      cases shape
      have after : Chunked.afterLine chunkSize text = .trailer := by
        simp [Chunked.afterLine, chunkSize_of_hexSize sized (by decide)]
      refine ⟨_, ?_, by rw [next_line_lf]; rfl⟩
      rw [next_line_lf, after]
      exact At.trailer
  | trailer =>
      cases shape
      exact ⟨_, by simpa [Chunked.next] using At.trailerCr, rfl⟩
  | trailerCr =>
      cases shape
      exact ⟨_, by simpa [Chunked.next] using At.terminated, rfl⟩
  | terminated => cases shape

/-- Any number of bytes further. -/
theorem At.run {segment rest : Bytes} :
    ∀ {phase : Chunked.Phase} {marked : List Bool} {payload : Bytes},
      At phase (segment ++ rest) marked payload →
      ∃ remaining, At (Chunked.run chunkSize phase segment).1 rest (marked.drop segment.length)
          remaining ∧
        payload = (Chunked.run chunkSize phase segment).2 ++ remaining := by
  induction segment with
  | nil =>
      intro phase marked payload at_
      exact ⟨payload, at_, rfl⟩
  | cons byte segment ih =>
      intro phase marked payload at_
      obtain ⟨middle, one, rfl⟩ := at_.next rfl
      obtain ⟨remaining, later, rfl⟩ := ih one
      refine ⟨remaining, ?_, by simp [Chunked.run, List.append_assoc]⟩
      rw [List.drop_drop, Nat.add_comm] at later
      simpa [Chunked.run] using later

/-- A reader has read the body only at its end. -/
theorem At.nil_of_terminated {bytes : Bytes} {marked : List Bool} {payload : Bytes}
    (at_ : At .terminated bytes marked payload) : bytes = [] := by
  cases at_
  rfl

theorem At.terminated_of_nil {phase : Chunked.Phase} {bytes : Bytes} {marked : List Bool}
    {payload : Bytes} (at_ : At phase bytes marked payload) (empty : bytes = []) :
    phase = .terminated ∧ marked = [] ∧ payload = [] := by
  cases at_ with
  | terminated => exact ⟨rfl, rfl, rfl⟩
  | _ => simp at empty

/-- A reader reaches the end of the body at its last byte only. -/
theorem At.endsLast_left {phase : Chunked.Phase} {bytes rest : Bytes} {marked : List Bool}
    {payload : Bytes} (at_ : At phase (bytes ++ rest) marked payload) : EndsLast phase bytes := by
  rintro before after rfl unfinished ended
  rw [List.append_assoc] at at_
  obtain ⟨_, early, -⟩ := at_.run
  rw [ended] at early
  exact unfinished (List.append_eq_nil_iff.mp early.nil_of_terminated).1

/-- **At a boundary that is not marked the filter keeps its place.** -/
theorem At.kept {phase : Chunked.Phase} {bytes : Bytes} {marked : List Bool} {payload : Bytes}
    (at_ : At phase bytes marked payload) (allowed : marked.head? ≠ some false) :
    ∃ kept, remember phase = some kept ∧ At kept bytes marked payload := by
  cases at_ with
  | line text digits payload body sized nonempty small others =>
      cases digits with
      | nil => exact absurd rfl allowed
      | cons c digits =>
          have value : hexSize (c :: digits) = some payload.length := by
            by_contra differs
            exact allowed (by simp [chunkMarks, lineMarks, differs])
          exact ⟨_, rfl, At.line [] (c :: digits) payload body value nonempty small others⟩
  | lineCr text payload body sized nonempty small others => exact absurd rfl allowed
  | data payload body nonempty others => exact ⟨_, rfl, At.data payload body nonempty others⟩
  | dataEnd body others => exact absurd rfl allowed
  | dataEndCr body others => exact absurd rfl allowed
  | last text digits sized =>
      cases digits with
      | nil => exact absurd rfl allowed
      | cons c digits =>
          have value : hexSize (c :: digits) = some 0 := by
            by_contra differs
            exact allowed (by simp [lineMarks, differs])
          exact ⟨_, rfl, At.last [] (c :: digits) value⟩
  | lastCr text sized => exact absurd rfl allowed
  | trailer => exact ⟨_, rfl, At.trailer⟩
  | trailerCr => exact absurd rfl allowed
  | terminated => exact ⟨_, rfl, At.terminated⟩

/-! ## Segmentation -/

/-- A body fed in segments reaches the next filter as its payload, and finishes it
once; nothing the filter computes leaves the range of its type. -/
structure Delivers (body : Chunked.Body hexSize) (segments : List Bytes) : Prop where
  sound : (create.processAll segments).1.fault = false
  payload : delivered (create.processAll segments).2 = body.payload
  finished : finishes (create.processAll segments).2 = 1

theorem Tracks.fault_eq_false {filter : ChunkedHttpFilter} {phase : Chunked.Phase}
    (tracks : filter.Tracks phase) : filter.fault = false := by
  cases phase with
  | line text => exact tracks.2.2.2
  | data left => exact tracks.2.2.2.2
  | trailer => exact tracks.2
  | terminated => exact tracks.2
  | _ => exact absurd tracks id

/-- From inside a body, the segments of the rest deliver the payload of the rest.  The
induction is on the segments: each starts in a phase that the filter has kept. -/
theorem processAll_at {segments : List Bytes} :
    ∀ {filter : ChunkedHttpFilter} {phase : Chunked.Phase} {marked : List Bool}
      {payload : Bytes}, At phase segments.flatten marked payload → filter.Tracks phase →
      (∀ segment ∈ segments, segment ≠ []) → Aligned marked (segments.map List.length) →
      (filter.processAll segments).1.fault = false ∧
        delivered (filter.processAll segments).2 = payload ∧
        finishes (filter.processAll segments).2 = if phase = .terminated then 0 else 1 := by
  induction segments with
  | nil =>
      intro filter phase marked payload at_ tracks _ _
      obtain ⟨rfl, -, rfl⟩ := at_.terminated_of_nil rfl
      exact ⟨tracks.fault_eq_false, rfl, rfl⟩
  | cons segment segments ih =>
      intro filter phase marked payload at_ tracks nonempty aligned
      have some : segment ≠ [] := nonempty segment (List.mem_cons_self ..)
      have alive : phase ≠ .terminated := by
        rintro rfl
        have none := at_.nil_of_terminated
        exact some (List.append_eq_nil_iff.mp none).1
      obtain ⟨remaining, later, rfl⟩ := at_.run
      have allowed : (marked.drop segment.length).head? ≠ .some false := by
        cases segments with
        | nil =>
            rw [(later.terminated_of_nil rfl).2.1]
            simp
        | cons next segments => exact aligned.2.1
      obtain ⟨kept, keeps, standing⟩ := later.kept allowed
      obtain ⟨after, calls, process, tracksKept, delivers, quiet⟩ :=
        (process_tracked tracks alive at_.endsLast_left keeps (Or.inl rfl)).goesOn
      rw [List.append_nil, process_nil, List.append_nil] at process
      obtain ⟨sound, payload, finished⟩ := ih standing tracksKept
        (fun other member => nonempty other (List.mem_cons_of_mem _ member)) aligned.2
      simp only [processAll, process]
      refine ⟨sound, by simp [delivers, payload], ?_⟩
      rw [finishes_append, finishes_append, quiet, finishes_closing, finished, if_neg alive]
      split <;> rfl

/-- A body starts with digits that have the value of their line. -/
theorem marks_head? (body : Chunked.Body hexSize) : (marks body).head? ≠ some false := by
  obtain ⟨chunks, closing⟩ := body
  cases chunks with
  | nil =>
      obtain ⟨c, rest, line⟩ :=
        List.exists_cons_of_ne_nil (hexSize_eq_some_iff.mp closing.sized).1
      have sized := closing.sized
      rw [line] at sized
      simp [marks, line, lineMarks, sized]
  | cons chunk chunks =>
      obtain ⟨c, rest, line⟩ :=
        List.exists_cons_of_ne_nil (hexSize_eq_some_iff.mp chunk.sized).1
      have sized := chunk.sized
      rw [line] at sized
      simp [marks, line, chunkMarks, lineMarks, sized]

theorem encode_ne_nil (body : Chunked.Body hexSize) : body.encode ≠ [] := by
  simp [Chunked.Body.encode, Chunked.lineEnd]

/-- A new filter delivers a body in one call, reports its end after the last byte of
the payload, and goes on with what follows the body. -/
theorem process_encode {body : Chunked.Body hexSize} (inRange : SizesInRange body)
    (more : Bytes) :
    ∃ after calls, create.process (body.encode ++ more) =
        ((process after more).1, calls ++ .finish [] :: (process after more).2) ∧
      after.Tracks .terminated ∧ delivered calls = body.payload ∧ finishes calls = 0 := by
  have start := at_start inRange
  rw [← List.append_nil body.encode] at start
  obtain ⟨remaining, reached, payload⟩ := start.run
  obtain ⟨ended, -, rfl⟩ := reached.terminated_of_nil rfl
  have keeps : remember (Chunked.run chunkSize (.line []) body.encode).1 = some .terminated := by
    rw [ended]
    rfl
  obtain ⟨after, calls, process, tracks, delivers, quiet⟩ :=
    (@process_tracked _ _ _ _ more tracks_create (by simp) start.endsLast_left keeps
      (Or.inr rfl)).goesOn
  refine ⟨after, calls, ?_, tracks, ?_, quiet⟩
  · rw [process]
    simp [closing]
  · rw [delivers, payload, List.append_nil]

/-- A new filter delivers a body that is cut at aligned boundaries. -/
theorem create_delivers {body : Chunked.Body hexSize} {segments : List Bytes}
    (partitions : segments.flatten = body.encode) (nonempty : ∀ segment ∈ segments, segment ≠ [])
    (aligned : Aligned (marks body) (segments.map List.length)) (inRange : SizesInRange body) :
    Delivers body segments := by
  have start := at_start inRange
  rw [← partitions] at start
  obtain ⟨sound, payload, finished⟩ := processAll_at start tracks_create nonempty aligned
  exact ⟨sound, payload, finished⟩

/-- **Segmentation independence where the boundaries are aligned.**  A chunked body
whose sizes leave room for a line end, cut into nonempty segments at boundaries that
keep the filter's place, is delivered exactly and finished once, as it is in one
call. -/
theorem delivers_of_aligned (body : Chunked.Body hexSize) (segments : List Bytes)
    (partitions : segments.flatten = body.encode) (nonempty : ∀ segment ∈ segments, segment ≠ [])
    (aligned : Aligned (marks body) (segments.map List.length)) (inRange : SizesInRange body) :
    Delivers body segments ∧ Delivers body [body.encode] := by
  refine ⟨create_delivers partitions nonempty aligned inRange, ?_⟩
  refine create_delivers (List.append_nil _) ?_ (aligned_singleton (marks_head? body) _) inRange
  intro segment member
  rw [List.mem_singleton.mp member]
  exact encode_ne_nil body

/-- The body of one chunk, "hello". -/
def helloBody : Chunked.Body hexSize where
  chunks := [⟨ascii "5", ascii "hello", by decide, by decide +kernel, by decide⟩]
  last := ⟨ascii "0", by decide, by decide +kernel⟩

theorem helloBody_delivered :
    Delivers helloBody [ascii "5\r\nhe", ascii "llo\r\n0\r\n\r\n"] ∧
      Delivers helloBody [helloBody.encode] :=
  delivers_of_aligned helloBody [ascii "5\r\nhe", ascii "llo\r\n0\r\n\r\n"] (by decide) (by decide)
    ⟨by decide +kernel, by decide +kernel, trivial⟩ (by unfold SizesInRange; decide)

/-- A boundary between the carriage return and the line feed of a size line loses the
line: nothing is delivered. -/
theorem helloBody_lost :
    ¬ ∀ (body : Chunked.Body hexSize) (segments : List Bytes), segments.flatten = body.encode →
      (∀ segment ∈ segments, segment ≠ []) →
      Delivers body segments ∧ Delivers body [body.encode] := by
  intro independent
  obtain ⟨⟨-, payload, -⟩, -⟩ := independent helloBody
    [ascii "5\r", ascii "\nhello\r\n0\r\n\r\n"] (by decide) (by decide)
  exact absurd payload (by decide)

end ChunkedHttpFilter

end Xul
