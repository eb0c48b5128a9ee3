import Xul.Net.Http.HttpMessageParser

/-!
# Extracting a response header from a stream

The extractor collects bytes until the empty line has arrived and then parses the
header block.  Before that its state is a function of the bytes it was fed
(`waiting`): the pieces they came in have left no trace.  A piece that does not
complete the block extends these bytes (`feed_waiting_none`), the piece that does
is answered by the part of it that belongs to the block (`feed_waiting_some`), and
with these two steps the extractor finishes on the same piece, with the same
response and with the same total, however the stream is cut
(`feedUntilFinished_of_partition`).
-/

set_option autoImplicit false

namespace Xul

open Foundation

/-- `http_response_extractor`. -/
structure HttpResponseExtractor where
  buffer : Bytes
  maxBufferSize : Int
  headerFinished : Bool
  response : HttpResponse
deriving DecidableEq

namespace HttpResponseExtractor

/-- The default of the constructor's argument. -/
def defaultMaxBufferSize : Int := 64 * 1024

def reset (extractor : HttpResponseExtractor) : HttpResponseExtractor :=
  { extractor with buffer := [], headerFinished := false, response := HttpResponse.create }

def create (maxBufferSize : Int) : HttpResponseExtractor :=
  reset ⟨[], maxBufferSize, false, HttpResponse.create⟩

/-- `try_parse`: the size of the header block, 0 while it is incomplete, -1 when it
does not parse. -/
def tryParse (extractor : HttpResponseExtractor) (data : Bytes) : Int × HttpResponseExtractor :=
  match HttpMessage.findHeaderEnd data with
  | none => (0, { extractor with buffer := data })
  | some pos =>
      let headerSize := toInt (pos + 4)
      let parsed := httpResponseParser.parse data (toSizeT headerSize).toNat extractor.response
      if parsed.1 then
        (headerSize, { extractor with headerFinished := true, response := parsed.2 })
      else (-1, { extractor with response := parsed.2 })

/-- The first half of `feed`: `data` is parsed together with what is buffered, unless
both are too large together. -/
def parseBuffered (extractor : HttpResponseExtractor) (data : Bytes) :
    Int × HttpResponseExtractor :=
  if extractor.buffer = [] then extractor.tryParse data
  else if toSizeT extractor.maxBufferSize < (extractor.buffer.length : Int) + data.length then
    (-1, extractor)
  else { extractor with buffer := [] }.tryParse (extractor.buffer ++ data)

/-- `feed`: the number of bytes of `data` that were consumed, or -1. -/
def feed (extractor : HttpResponseExtractor) (data : Bytes) : Int × HttpResponseExtractor :=
  if extractor.headerFinished then (0, extractor)
  else
    let previousBufferSize := toInt extractor.buffer.length
    let header := extractor.parseBuffered data
    if header.1 < 0 then (-1, header.2)
    else if header.1 = 0 then (toInt data.length, header.2)
    else (header.1 - previousBufferSize, header.2)

/-- Feed pieces until the header is finished; the consumed sizes are collected. -/
def feedUntilFinished (extractor : HttpResponseExtractor) :
    List Bytes → List Int × HttpResponseExtractor
  | [] => ([], extractor)
  | piece :: pieces =>
      if extractor.headerFinished then ([], extractor)
      else
        let fed := extractor.feed piece
        let later := feedUntilFinished fed.2 pieces
        (fed.1 :: later.1, later.2)

/-! ## The extractor before the block is complete -/

/-- The extractor that has been fed `fed` and has found no empty line in it. -/
def waiting (maxBufferSize : Int) (fed : Bytes) : HttpResponseExtractor :=
  ⟨fed, maxBufferSize, false, HttpResponse.create⟩

/-- The extractor that has parsed a header block. -/
def finished (maxBufferSize : Int) (response : HttpResponse) : HttpResponseExtractor :=
  ⟨[], maxBufferSize, true, response⟩

@[simp] theorem create_eq_waiting (maxBufferSize : Int) :
    create maxBufferSize = waiting maxBufferSize [] := rfl

@[simp] theorem waiting_headerFinished (maxBufferSize : Int) (fed : Bytes) :
    (waiting maxBufferSize fed).headerFinished = false := rfl

@[simp] theorem finished_headerFinished (maxBufferSize : Int) (response : HttpResponse) :
    (finished maxBufferSize response).headerFinished = true := rfl

@[simp] theorem finished_response (maxBufferSize : Int) (response : HttpResponse) :
    (finished maxBufferSize response).response = response := rfl

@[simp] theorem feedUntilFinished_finished (maxBufferSize : Int) (response : HttpResponse)
    (pieces : List Bytes) :
    (finished maxBufferSize response).feedUntilFinished pieces =
      ([], finished maxBufferSize response) := by
  cases pieces <;> simp [feedUntilFinished]

/-- Within the limit a piece is parsed together with everything before it. -/
theorem parseBuffered_waiting {maxBufferSize : Int} {fed piece : Bytes}
    (limit : fed = [] ∨ ((fed ++ piece).length : Int) ≤ toSizeT maxBufferSize) :
    (waiting maxBufferSize fed).parseBuffered piece =
      (waiting maxBufferSize []).tryParse (fed ++ piece) := by
  by_cases empty : fed = []
  · subst empty
    rfl
  · have fits : ¬ toSizeT maxBufferSize < (fed.length : Int) + piece.length := by
      rw [← Nat.cast_add, ← List.length_append]
      exact not_lt_of_ge (limit.resolve_left empty)
    exact (if_neg empty).trans (if_neg fits)

/-- **A piece without the empty line is kept, and counted whole.** -/
theorem feed_waiting_none {maxBufferSize : Int} {fed piece : Bytes}
    (limit : fed = [] ∨ ((fed ++ piece).length : Int) ≤ toSizeT maxBufferSize)
    (absent : HttpMessage.findHeaderEnd (fed ++ piece) = none) :
    (waiting maxBufferSize fed).feed piece =
      (toInt piece.length, waiting maxBufferSize (fed ++ piece)) := by
  have header : (waiting maxBufferSize fed).parseBuffered piece =
      (0, waiting maxBufferSize (fed ++ piece)) := by
    rw [parseBuffered_waiting limit, tryParse, absent]
    rfl
  simp [feed, header]

/-- **The piece that brings the empty line finishes the extractor**, and what is
counted of it is its part of the block. -/
theorem feed_waiting_some {maxBufferSize : Int} {fed piece block after : Bytes}
    {response : HttpResponse}
    (limit : fed = [] ∨ ((fed ++ piece).length : Int) ≤ toSizeT maxBufferSize)
    (small : (fed ++ piece).length < 2 ^ 31) (split : fed ++ piece = block ++ after)
    (ends : HttpMessage.findHeaderEnd block = some (block.length - 4))
    (parses : httpResponseParser.parse block block.length HttpResponse.create =
      (true, response)) :
    (waiting maxBufferSize fed).feed piece =
      ((block.length : Int) - fed.length, finished maxBufferSize response) := by
  have lengths := congrArg List.length split
  rw [List.length_append, List.length_append] at lengths
  rw [List.length_append] at small
  have inside : block.length - 4 + 4 ≤ block.length :=
    (firstOccurrence_add_length_le ends).resolve_right (by decide)
  have found : HttpMessage.findHeaderEnd (fed ++ piece) = some (block.length - 4) := by
    rw [split]
    exact firstOccurrence_append (by decide) ends after
  have headerSize : toInt ((block.length - 4 : Nat) + 4) = block.length := by
    rw [show ((block.length - 4 : Nat) : Int) + 4 = block.length by omega]
    exact toInt_natCast (by omega)
  have window : (toSizeT (block.length : Int)).toNat = block.length := by
    rw [toSizeT_of_nonneg (by omega) (by omega), Int.toNat_natCast]
  have suffix : HttpMessage.headerEndTag <:+ block := by
    have block_end := (HttpMessageParser.headerEndTag_isSuffix_take ends).2
    rwa [List.take_of_length_le (by omega)] at block_end
  have whole : httpResponseParser.parse (fed ++ piece) block.length HttpResponse.create =
      (true, response) := by
    rw [split, HttpMessageParser.parse_append httpResponseParser_rejectsEmptyFirstLine suffix,
      parses]
  have positive : ¬ (block.length : Int) < 0 ∧ ¬ (block.length : Int) = 0 := by omega
  have header : (waiting maxBufferSize fed).parseBuffered piece =
      ((block.length : Int), finished maxBufferSize response) := by
    rw [parseBuffered_waiting limit, tryParse, found]
    simp only [headerSize, window, waiting, whole, if_true]
    rfl
  have fedSize : toInt (waiting maxBufferSize fed).buffer.length = fed.length :=
    toInt_natCast (by simp only [waiting]; omega)
  simp only [feed, waiting_headerFinished, Bool.false_eq_true, if_false, header,
    if_neg positive.1, if_neg positive.2, fedSize]

/-! ## Segmentation -/

/-- A byte string whose first empty line ends a header block that parses.  The block
is what the extractor consumes, `after` is what it leaves. -/
structure HeaderBlock where
  block : Bytes
  response : HttpResponse
  ends : HttpMessage.findHeaderEnd block = some (block.length - 4)
  parses : httpResponseParser.parse block block.length HttpResponse.create = (true, response)

/-- A prefix of a string that starts with a header block has no empty line as long as
it is shorter than the block. -/
theorem HeaderBlock.absent_of_short (header : HeaderBlock) {fed rest after : Bytes}
    (split : fed ++ rest = header.block ++ after) (short : fed.length < header.block.length) :
    HttpMessage.findHeaderEnd fed = none := by
  have found : HttpMessage.findHeaderEnd (fed ++ rest) = some (header.block.length - 4) := by
    rw [split]
    exact firstOccurrence_append (by decide) header.ends after
  have inside : header.block.length - 4 + 4 ≤ header.block.length :=
    (firstOccurrence_add_length_le header.ends).resolve_right (by decide)
  refine firstOccurrence_eq_none_of_append found ?_
  simp only [HttpMessage.headerEndTag, List.length_cons, List.length_nil]
  omega

/-- What a run that feeds pieces reports when `missing` bytes of
the block are missing. -/
structure Extracts (header : HeaderBlock) (maxBufferSize : Int) (missing : Nat)
    (pieces : List Bytes) (run : List Int × HttpResponseExtractor) : Prop where
  finishes : run.2 = finished maxBufferSize header.response
  positive : ∀ consumed ∈ run.1, 0 < consumed
  total : run.1.sum = missing
  reached : missing ≤ (pieces.take run.1.length).flatten.length
  notBefore : (pieces.take (run.1.length - 1)).flatten.length < missing

/-- From a state that still misses bytes of the block, feeding pieces up to the end of
the string extracts the block.  The induction is on the pieces; the bytes already fed
stand for the state. -/
theorem feedUntilFinished_waiting (header : HeaderBlock) {maxBufferSize : Int}
    {after : Bytes} (limit : ((header.block ++ after).length : Int) ≤ maxBufferSize)
    (int : maxBufferSize < 2 ^ 31) (pieces : List Bytes) :
    ∀ fed : Bytes, fed ++ pieces.flatten = header.block ++ after →
      (∀ piece ∈ pieces, piece ≠ []) → fed.length < header.block.length →
      Extracts header maxBufferSize (header.block.length - fed.length) pieces
        ((waiting maxBufferSize fed).feedUntilFinished pieces) := by
  have sizeT : toSizeT maxBufferSize = maxBufferSize :=
    toSizeT_of_nonneg (le_trans (Int.natCast_nonneg _) limit) (by omega)
  induction pieces with
  | nil =>
      intro fed split _ short
      have lengths := congrArg List.length split
      simp only [List.flatten_nil, List.append_nil, List.length_append] at lengths
      omega
  | cons piece pieces ih =>
      intro fed split nonempty short
      have pieceNonempty : 0 < piece.length :=
        List.length_pos_of_ne_nil (nonempty piece (List.mem_cons_self ..))
      rw [List.flatten_cons, ← List.append_assoc] at split
      have lengths := congrArg List.length split
      simp only [List.length_append] at lengths limit
      have fits : fed = [] ∨ ((fed ++ piece).length : Int) ≤ toSizeT maxBufferSize := by
        right
        rw [sizeT, List.length_append]
        omega
      by_cases completes : header.block.length ≤ fed.length + piece.length
      · obtain ⟨tail, split'⟩ : ∃ tail, fed ++ piece = header.block ++ tail := by
          have := List.prefix_of_prefix_length_le (List.prefix_append header.block after)
            (split ▸ List.prefix_append (fed ++ piece) pieces.flatten)
            (by rw [List.length_append]; omega)
          exact this.imp fun _ equal => equal.symm
        have step := feed_waiting_some fits (by rw [List.length_append]; omega) split'
          header.ends header.parses
        have run : (waiting maxBufferSize fed).feedUntilFinished (piece :: pieces) =
            ([(header.block.length : Int) - fed.length],
              finished maxBufferSize header.response) := by
          simp [feedUntilFinished, step]
        rw [run]
        exact {
          finishes := rfl
          positive := by simpa using short
          total := by simp; omega
          reached := by simp; omega
          notBefore := by simp; omega }
      · have absent := header.absent_of_short split (by rw [List.length_append]; omega)
        have step := feed_waiting_none fits absent
        have counted : toInt piece.length = piece.length := toInt_natCast (by omega)
        have later := ih (fed ++ piece) split
          (fun other member => nonempty other (List.mem_cons_of_mem _ member))
          (by rw [List.length_append]; omega)
        have run : (waiting maxBufferSize fed).feedUntilFinished (piece :: pieces) =
            ((piece.length : Int) :: ((waiting maxBufferSize (fed ++ piece)).feedUntilFinished
              pieces).1, ((waiting maxBufferSize (fed ++ piece)).feedUntilFinished pieces).2) := by
          simp [feedUntilFinished, step, counted]
        rw [run]
        obtain ⟨finishes, positive, total, reached, notBefore⟩ := later
        rw [List.length_append] at total reached notBefore
        exact {
          finishes
          positive := fun consumed member => by
            rcases List.mem_cons.mp member with rfl | other
            · omega
            · exact positive consumed other
          total := by rw [List.sum_cons, total]; omega
          reached := by
            simp only [List.length_cons, List.take_succ_cons, List.flatten_cons,
              List.length_append]
            omega
          notBefore := by
            cases remaining : ((waiting maxBufferSize (fed ++ piece)).feedUntilFinished
                pieces).1 with
            | nil => simp; omega
            | cons first others =>
                rw [remaining] at notBefore
                simp only [List.length_cons, Nat.add_sub_cancel, List.take_succ_cons,
                  List.flatten_cons, List.length_append] at notBefore ⊢
                omega }

/-- **Header extraction is independent of segmentation.**  Let the prefix of `whole`
through its first empty line parse as a response header, and let `whole` fit the
extractor's limit.  However `whole` is cut into nonempty pieces, feeding them until the
header is finished finishes on the piece that completes the empty line, with the
response that one feed of the whole yields and the parser makes of the prefix; every
consumed size is positive and they add up to the offset just past the empty line. -/
theorem feedUntilFinished_of_partition (maxBufferSize : Int) (int : maxBufferSize < 2 ^ 31)
    (whole : Bytes) (offset : Nat)
    (terminated : HttpMessage.findHeaderEnd whole = some offset)
    (parses : (httpResponseParser.parse (whole.take (offset + 4)) (offset + 4)
      HttpResponse.create).1 = true)
    (limit : (whole.length : Int) ≤ maxBufferSize)
    (pieces : List Bytes) (partitions : pieces.flatten = whole)
    (nonempty : ∀ piece ∈ pieces, piece ≠ []) :
    let run := (create maxBufferSize).feedUntilFinished pieces
    let once := (create maxBufferSize).feed whole
    run.2.headerFinished = true ∧ once.2.headerFinished = true ∧
      run.2.response = once.2.response ∧
      run.2.response = (httpResponseParser.parse (whole.take (offset + 4)) (offset + 4)
        HttpResponse.create).2 ∧
      (∀ consumed ∈ run.1, 0 < consumed) ∧
      run.1.sum = (offset : Int) + 4 ∧
      (pieces.take (run.1.length - 1)).flatten.length < offset + 4 ∧
      offset + 4 ≤ (pieces.take run.1.length).flatten.length := by
  intro run once
  have inside : offset + 4 ≤ whole.length :=
    (firstOccurrence_add_length_le terminated).resolve_right (by decide)
  have size : (whole.take (offset + 4)).length = offset + 4 := by
    rw [List.length_take]; omega
  let header : HeaderBlock := {
    block := whole.take (offset + 4)
    response := (httpResponseParser.parse (whole.take (offset + 4)) (offset + 4)
      HttpResponse.create).2
    ends := by
      rw [size]
      rw [← List.take_append_drop (offset + 4) whole] at terminated
      exact firstOccurrence_of_append terminated (le_of_eq size.symm)
    parses := by
      rw [size]
      exact Prod.ext parses rfl }
  have split : whole = header.block ++ whole.drop (offset + 4) :=
    (List.take_append_drop _ _).symm
  have blockSize : header.block.length = offset + 4 := size
  have extracted : Extracts header maxBufferSize (offset + 4) pieces run := by
    have := feedUntilFinished_waiting header (split ▸ limit) int pieces []
      (by rw [List.nil_append, partitions]; exact split) nonempty
      (by rw [blockSize, List.length_nil]; omega)
    rwa [blockSize, List.length_nil, Nat.sub_zero] at this
  have fedOnce : once = (((offset + 4 : Nat) : Int), finished maxBufferSize header.response) := by
    have fits : ([] : Bytes) = [] ∨ (([] ++ whole : Bytes).length : Int) ≤ toSizeT maxBufferSize :=
      Or.inl rfl
    have step := feed_waiting_some fits (by rw [List.nil_append]; omega) split header.ends
      header.parses
    rwa [blockSize, List.length_nil, Nat.cast_zero, sub_zero] at step
  obtain ⟨finishes, positive, total, reached, notBefore⟩ := extracted
  refine ⟨by rw [finishes]; rfl, by rw [fedOnce]; rfl, by rw [finishes, fedOnce],
    by rw [finishes]; rfl, positive, ?_, notBefore, reached⟩
  rw [total]
  push_cast
  rfl

/-- A terminator that straddles three pieces. -/
theorem feedUntilFinished_of_partition_straddled :
    let pieces := [ascii "HTTP/1.1 200 OK\r\nServer: xul\r", ascii "\n\r", ascii "\nbody"]
    ((create 65536).feedUntilFinished pieces).1.sum = 32 ∧
      ((create 65536).feedUntilFinished pieces).2.headerFinished = true := by
  have run := feedUntilFinished_of_partition 65536 (by decide)
    (ascii "HTTP/1.1 200 OK\r\nServer: xul\r\n\r\nbody") 28 (by decide +kernel)
    (by decide +kernel) (by decide +kernel)
    [ascii "HTTP/1.1 200 OK\r\nServer: xul\r", ascii "\n\r", ascii "\nbody"]
    (by decide +kernel) (by decide +kernel)
  exact ⟨run.2.2.2.2.2.1, run.1⟩

end HttpResponseExtractor

end Xul
