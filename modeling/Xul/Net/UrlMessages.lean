import Mathlib.Data.Int.ConditionallyCompleteOrder
import Mathlib.Order.Interval.Set.Defs
import Xul.Net.Http.HttpContentRange
import Xul.Net.Http.HttpMessage
import Xul.Net.Http.HttpRange

/-!
# Answers to range requests

`set_total_size` answers a request for a range of something whose size is known or not: it
sets the status, and with 206 the range that is sent, and the length of the content.  The
range is taken from the request as it is: one that has no first byte fails an assertion, one
that ends with the first byte as well, and one that ends behind the last byte, or before it
begins, is promised as it is.  What is promised is the text of the header, so a part is sent
only where the C library writes the text that is meant.
-/

set_option autoImplicit false

namespace Xul

namespace HttpRange

/-- The bytes that a request asks for: those from the first to the last one, as far as there
are any, or the last ones. -/
def asked (range : HttpRange) (totalSize : Int) : Set Int :=
  { position | 0 ≤ position ∧ position < totalSize ∧
      if 0 ≤ range.start then range.start ≤ position ∧ (0 ≤ range.stop → position ≤ range.stop)
      else totalSize - range.stop ≤ position }

end HttpRange

namespace UrlMessages

def setContentLength (resp : HttpResponse) (contentLength : Int) : HttpResponse :=
  resp.setHeader (ascii "Content-Length") (printInt contentLength)

/-- `set_content_range`, nothing if its assertion fails or, where `vsnprintf` does, the one
of `format`. -/
def setContentRange (conversion : ConversionB) (resp : HttpResponse) (range : HttpContentRange) :
    Option HttpResponse :=
  if 0 < range.stop ∧ conversion ≠ .refused then
    some (resp.setHeader (ascii "Content-Range") (cStr (range.str conversion)))
  else none

/-- The range that a request for a range of `totalSize` bytes is answered with. -/
def contentRange (requestRange : HttpRange) (totalSize : Int) : HttpContentRange where
  start := requestRange.start
  stop := if requestRange.stop < 0 then totalSize - 1 else requestRange.stop
  totalSize

/-- The length of the part that is sent. -/
def partLength (requestRange : HttpRange) (totalSize : Int) : Int :=
  if 0 ≤ requestRange.getLength ∧ requestRange.stop < totalSize then requestRange.getLength
  else totalSize - requestRange.getRealStart

/-- The branch of `set_total_size` that sends a part of the content. -/
def setPartialContent (conversion : ConversionB) (resp : HttpResponse) (requestRange : HttpRange)
    (totalSize : Int) : Option (Int × HttpResponse) :=
  let partialResp := resp.setStatusCode 206
  let contentLength := partLength requestRange totalSize
  if 0 ≤ requestRange.start ∨ 0 ≤ requestRange.stop then
    let contentRange := contentRange requestRange totalSize
    if 0 ≤ requestRange.start ∧ 0 ≤ contentRange.stop then
      (setContentRange conversion partialResp contentRange).map fun ranged =>
        (contentLength, ranged)
    else none
  else some (contentLength, partialResp)

/-- `set_total_size`: the length of the content and the response, nothing if an assertion
fails.  `format` reads the total size as an `int`. -/
def setTotalSize (conversion : ConversionB) (resp : HttpResponse) (requestRange : HttpRange)
    (totalSize : Int) : Option (Int × HttpResponse) :=
  let answered :=
    if requestRange.isValid then
      if totalSize < 0 ∧ requestRange.start ≤ 0 then some (totalSize, resp.setStatusCode 200)
      else if totalSize ≤ requestRange.start then
        some (0, (resp.setStatusCode 416).setHeader (ascii "Content-Range")
          (ascii "bytes */" ++ printInt (toInt totalSize)))
      else setPartialContent conversion resp requestRange totalSize
    else some (totalSize, resp.setStatusCode 200)
  answered.map fun answer =>
    (answer.1, if 0 ≤ answer.1 then setContentLength answer.2 answer.1 else answer.2)

/-! ## The parts that are sent -/

/-- The header that is written promises the bytes from `first` to `last`: a part of the
content, the one that was asked for, of the length that is returned. -/
structure Promises (requestRange : HttpRange) (totalSize : Int) (answer : Int × HttpResponse)
    (first last : Int) : Prop where
  header : answer.2.getHeader (ascii "Content-Range") [] =
    HttpContentRange.bytesText first last totalSize
  start : 0 ≤ first
  ordered : first ≤ last
  stop : last < totalSize
  selects : Set.Icc first last = requestRange.asked totalSize
  length : answer.1 = last - first + 1

def SendsPart (requestRange : HttpRange) (totalSize : Int) (answer : Int × HttpResponse) : Prop :=
  ∃ first last, Promises requestRange totalSize answer first last

/-- No assertion fails, and a part that is sent is the one that was asked for. -/
def Serves (conversion : ConversionB) (resp : HttpResponse) (requestRange : HttpRange)
    (totalSize : Int) : Prop :=
  ∃ answer, setTotalSize conversion resp requestRange totalSize = some answer ∧
    (answer.2.statusCode = 206 → SendsPart requestRange totalSize answer)

/-- The range is absent, or begins behind the last byte, or has a first byte and ends, after
the first byte of all, with a byte of the content, and the unit is written. -/
def Answerable (conversion : ConversionB) (requestRange : HttpRange) (totalSize : Int) : Prop :=
  requestRange.isValid = false ∨ totalSize ≤ requestRange.start ∨
    conversion = .dropped ∧ 0 ≤ requestRange.start ∧
      (requestRange.stop < 0 ∧ 1 < totalSize ∨
        requestRange.start ≤ requestRange.stop ∧ 0 < requestRange.stop ∧
          requestRange.stop < totalSize)

variable {conversion : ConversionB} {resp : HttpResponse} {range : HttpRange} {totalSize : Int}

/-- A range that begins where it should is a part of the content when it ends in it. -/
theorem selects_of_answerable (begins : 0 ≤ range.start)
    (ends : range.stop < 0 ∨ range.stop < totalSize) :
    Set.Icc (contentRange range totalSize).start (contentRange range totalSize).stop =
      range.asked totalSize := by
  funext position
  rw [eq_iff_iff]
  show range.start ≤ position ∧ position ≤ (if range.stop < 0 then totalSize - 1 else range.stop) ↔
    0 ≤ position ∧ position < totalSize ∧
      if 0 ≤ range.start then range.start ≤ position ∧ (0 ≤ range.stop → position ≤ range.stop)
      else totalSize - range.stop ≤ position
  rw [if_pos begins]
  split
  · omega
  · omega

/-- The length of a part that ends in the content. -/
theorem partLength_eq (begins : 0 ≤ range.start) (fits : totalSize < 2 ^ 63)
    (ends : range.stop < 0 ∨ range.start ≤ range.stop ∧ range.stop < totalSize) :
    partLength range totalSize =
      (contentRange range totalSize).stop - (contentRange range totalSize).start + 1 := by
  have real : range.getRealStart = range.start := if_pos begins
  show (if 0 ≤ range.getLength ∧ range.stop < totalSize then range.getLength
      else totalSize - range.getRealStart) =
    (if range.stop < 0 then totalSize - 1 else range.stop) - range.start + 1
  by_cases openEnded : range.stop < 0
  · have length : range.getLength = -1 := if_pos (Or.inr openEnded)
    rw [if_pos openEnded, length, if_neg (by omega), real]
    omega
  · have length : range.getLength = range.stop - range.start + 1 := by
      rw [HttpRange.getLength, if_neg (by omega), toInt64_of_small (by omega) (by omega)]
    rw [if_neg openEnded, length, if_pos (by omega)]

theorem setPartialContent_eq (valid : range.isValid = true) :
    setPartialContent conversion resp range totalSize =
      if 0 ≤ range.start ∧ 0 < (contentRange range totalSize).stop ∧ conversion ≠ .refused then
        some (partLength range totalSize, (resp.setStatusCode 206).setHeader
          (ascii "Content-Range") (cStr ((contentRange range totalSize).str conversion)))
      else none := by
  have some_bound : 0 ≤ range.start ∨ 0 ≤ range.stop := by
    simpa [HttpRange.isValid] using valid
  rw [setPartialContent]
  simp only [if_pos some_bound]
  by_cases begins : 0 ≤ range.start
  · by_cases ends : 0 < (contentRange range totalSize).stop
    · by_cases refused : conversion = .refused
      · rw [if_pos ⟨begins, ends.le⟩, setContentRange, if_neg (by simp [refused]),
          if_neg (by simp [refused])]
        rfl
      · rw [if_pos ⟨begins, ends.le⟩, setContentRange, if_pos ⟨ends, refused⟩,
          if_pos ⟨begins, ends, refused⟩]
        rfl
    · have failed : setContentRange conversion (resp.setStatusCode 206)
          (contentRange range totalSize) = none := if_neg fun asserted => ends asserted.1
      rw [failed, Option.map_none, ite_self, if_neg fun asserted => ends asserted.2.1]
  · rw [if_neg (fun asserted => begins asserted.1), if_neg (fun asserted => begins asserted.1)]

/-- A valid range that does not begin behind the last byte is answered with a part. -/
theorem setTotalSize_of_part (valid : range.isValid = true) (known : 0 ≤ totalSize)
    (within : range.start < totalSize) :
    setTotalSize conversion resp range totalSize =
      (setPartialContent conversion resp range totalSize).map fun answer =>
        (answer.1, if 0 ≤ answer.1 then setContentLength answer.2 answer.1 else answer.2) := by
  rw [setTotalSize]
  simp only [valid, if_true]
  rw [if_neg (by omega), if_neg (by omega)]

/-- The length of the content leaves the range that is sent. -/
theorem getHeader_setContentLength (resp : HttpResponse) (contentLength : Int) :
    (setContentLength resp contentLength).getHeader (ascii "Content-Range") [] =
      resp.getHeader (ascii "Content-Range") [] :=
  Headers.get_set_of_ne _ _ _ (by decide +kernel)

/-- An answer with another status is none with a part. -/
theorem serves_of_whole (known : 0 ≤ totalSize)
    (whole : range.isValid = false ∨ totalSize ≤ range.start) :
    Serves conversion resp range totalSize := by
  have unranged : ∃ answer, setTotalSize conversion resp range totalSize = some answer ∧
      answer.2.statusCode ≠ 206 := by
    rw [setTotalSize]
    by_cases valid : range.isValid = true
    · have behind : totalSize ≤ range.start := whole.resolve_left (by simp [valid])
      simp only [valid, if_true]
      rw [if_neg (by omega), if_pos behind]
      exact ⟨_, rfl, show (416 : Int) ≠ 206 by decide⟩
    · simp only [valid, if_false, Bool.false_eq_true]
      refine ⟨_, rfl, ?_⟩
      simp only
      split
      · exact show (200 : Int) ≠ 206 by decide
      · exact show (200 : Int) ≠ 206 by decide
  obtain ⟨answer, answered, status⟩ := unranged
  exact ⟨answer, answered, fun ranged => absurd ranged status⟩

/-- The last byte of a part that is answerable, and the assertions that hold of it. -/
theorem asserted_of_answerable (answerable : Answerable conversion range totalSize)
    (valid : range.isValid = true) (within : range.start < totalSize) :
    0 ≤ range.start ∧ 0 < (contentRange range totalSize).stop ∧ conversion ≠ .refused := by
  have part := (answerable.resolve_left (by simp [valid])).resolve_left (not_le.mpr within)
  obtain ⟨rfl, begins, ends⟩ := part
  refine ⟨begins, ?_, by decide⟩
  show 0 < (if range.stop < 0 then totalSize - 1 else range.stop)
  split
  · omega
  · omega

/-- The part that is sent of a range that ends in the content. -/
theorem sendsPart_of_ends (begins : 0 ≤ range.start) (fits : totalSize < 2 ^ 63)
    (within : range.start < totalSize)
    (ends : range.stop < 0 ∨ range.start ≤ range.stop ∧ range.stop < totalSize)
    {answer : Int × HttpResponse} (length : answer.1 = partLength range totalSize)
    (header : answer.2.getHeader (ascii "Content-Range") [] =
      cStr ((contentRange range totalSize).str .dropped)) :
    SendsPart range totalSize answer := by
  have bounds : range.start ≤ (contentRange range totalSize).stop ∧
      (contentRange range totalSize).stop < totalSize := by
    show range.start ≤ (if range.stop < 0 then totalSize - 1 else range.stop) ∧
      (if range.stop < 0 then totalSize - 1 else range.stop) < totalSize
    split
    · omega
    · omega
  exact ⟨range.start, (contentRange range totalSize).stop,
    { header := header.trans ((HttpContentRange.cStr_str_eq_iff begins begins).mpr ⟨rfl, rfl⟩)
      start := begins
      ordered := bounds.1
      stop := bounds.2
      selects := selects_of_answerable begins (ends.imp_right And.right)
      length := length.trans (partLength_eq begins fits ends) }⟩

/-- A part that is sent ends in the content, and its unit is written. -/
theorem answerable_of_sendsPart {answer : Int × HttpResponse}
    (part : SendsPart range totalSize answer) (begins : 0 ≤ range.start)
    (positive : 0 < (contentRange range totalSize).stop)
    (header : answer.2.getHeader (ascii "Content-Range") [] =
      cStr ((contentRange range totalSize).str conversion)) :
    Answerable conversion range totalSize := by
  obtain ⟨first, last, promised⟩ := part
  obtain ⟨dropped, same⟩ := (HttpContentRange.cStr_str_eq_iff begins promised.start).mp
    (header.symm.trans promised.header)
  have starts : range.start = first := congrArg HttpContentRange.start same
  have stops : (contentRange range totalSize).stop = last := congrArg HttpContentRange.stop same
  have ordered : range.start ≤ (contentRange range totalSize).stop :=
    starts.trans_le (promised.ordered.trans_eq stops.symm)
  have ends : (contentRange range totalSize).stop < totalSize := stops.trans_lt promised.stop
  refine .inr (.inr ⟨dropped, begins, ?_⟩)
  have last : (contentRange range totalSize).stop =
    if range.stop < 0 then totalSize - 1 else range.stop := rfl
  rw [last] at ordered ends positive
  split at positive
  · next openEnded => exact .inl ⟨openEnded, by omega⟩
  · next closed =>
      rw [if_neg closed] at ordered ends
      exact .inr ⟨ordered, positive, ends⟩

/-- **A range of a content of known size is served exactly when it is answerable.** -/
theorem serves_iff_answerable (conversion : ConversionB) (resp : HttpResponse) (range : HttpRange)
    {totalSize : Int} (known : 0 ≤ totalSize) (fits : totalSize < 2 ^ 63) :
    Serves conversion resp range totalSize ↔ Answerable conversion range totalSize := by
  by_cases whole : range.isValid = false ∨ totalSize ≤ range.start
  · refine iff_of_true (serves_of_whole known whole) ?_
    exact whole.imp_right Or.inl
  · rw [not_or, Bool.not_eq_false, not_le] at whole
    obtain ⟨valid, within⟩ := whole
    have answered := @setTotalSize_of_part conversion resp _ _ valid known within
    rw [setPartialContent_eq valid] at answered
    by_cases asserted : 0 ≤ range.start ∧ 0 < (contentRange range totalSize).stop ∧
        conversion ≠ .refused
    · rw [if_pos asserted, Option.map_some] at answered
      have header : ∀ sent, setTotalSize conversion resp range totalSize = some sent →
          sent.2.getHeader (ascii "Content-Range") [] =
            cStr ((contentRange range totalSize).str conversion) := by
        intro sent happens
        obtain rfl := Option.some.inj (answered.symm.trans happens)
        simp only
        split
        · rw [getHeader_setContentLength]
          exact Headers.get_set_self _ _ _ _
        · exact Headers.get_set_self _ _ _ _
      constructor
      · rintro ⟨answer, happens, served⟩
        refine answerable_of_sendsPart (served ?_) asserted.1 asserted.2.1 (header answer happens)
        rw [answered] at happens
        cases happens
        simp only
        split <;> rfl
      · intro answerable
        have part := (answerable.resolve_left (by simp [valid])).resolve_left (not_le.mpr within)
        obtain ⟨rfl, begins, ends⟩ := part
        refine ⟨_, answered, fun _ => ?_⟩
        exact sendsPart_of_ends begins fits within
          (ends.imp And.left fun closed => ⟨closed.1, closed.2.2⟩) rfl (header _ answered)
    · rw [if_neg asserted, Option.map_none] at answered
      refine iff_of_false ?_ fun answerable =>
        asserted (asserted_of_answerable answerable valid within)
      rintro ⟨answer, happens, -⟩
      rw [answered] at happens
      cases happens

/-- The first six bytes of ten, where the percent sign is dropped. -/
theorem serves_six_of_ten :
    Serves .dropped .create (HttpRange.clear.parse (ascii "bytes=0-5")).2 10 := by
  have parsed : HttpRange.clear.parse (ascii "bytes=0-5") = (true, ⟨0, 5⟩) := by decide +kernel
  rw [parsed]
  exact (serves_iff_answerable .dropped .create ⟨0, 5⟩ (by decide) (by decide)).mpr
    (.inr (.inr ⟨rfl, by decide, .inr ⟨by decide, by decide, by decide⟩⟩))

theorem not_serves_of_failed (failed : setTotalSize conversion resp range totalSize = none) :
    ¬ Serves conversion resp range totalSize := by
  rintro ⟨answer, answered, -⟩
  exact absurd (answered.symm.trans failed) (Option.some_ne_none _)

/-- A part is not sent where its header names no bytes that fit its length. -/
theorem not_serves_of_text {text : Bytes} {length : Int}
    (given : (setTotalSize conversion resp range totalSize).map (fun answer => (answer.1,
      answer.2.statusCode, answer.2.getHeader (ascii "Content-Range") [])) =
        some (length, 206, text))
    (other : ∀ first last : Int, 0 ≤ first → length = last - first + 1 →
      last < totalSize → text ≠ HttpContentRange.bytesText first last totalSize) :
    ¬ Serves conversion resp range totalSize := by
  rintro ⟨answer, answered, served⟩
  rw [answered] at given
  obtain ⟨measured, rest⟩ := Prod.mk.inj (Option.some.inj given)
  obtain ⟨status, header⟩ := Prod.mk.inj rest
  obtain ⟨first, last, promised⟩ := served status
  exact other first last promised.start (measured.symm.trans promised.length) promised.stop
    (header.symm.trans promised.header)

/-- The last five bytes and the first byte fail an assertion, a hundred bytes of ten are
promised in a part of ten bytes, and a part is not even named where the conversion is written
as it stands or in binary. -/
theorem parts_of_ten_not_served :
    (HttpRange.clear.parse (ascii "bytes=-5") = (true, ⟨-1, 5⟩) ∧
        ¬ Serves .dropped .create ⟨-1, 5⟩ 10) ∧
      (HttpRange.clear.parse (ascii "bytes=0-0") = (true, ⟨0, 0⟩) ∧
        ¬ Serves .dropped .create ⟨0, 0⟩ 10) ∧
      (HttpRange.clear.parse (ascii "bytes=0-99") = (true, ⟨0, 99⟩) ∧
        ¬ Serves .dropped .create ⟨0, 99⟩ 10) ∧
      (HttpRange.clear.parse (ascii "bytes=4-") = (true, ⟨4, -1⟩) ∧
        ¬ Serves .kept .create ⟨4, -1⟩ 10 ∧ ¬ Serves (.binary 0) .create ⟨4, -1⟩ 10) := by
  refine ⟨⟨by decide +kernel, not_serves_of_failed (by decide +kernel)⟩,
    ⟨by decide +kernel, not_serves_of_failed (by decide +kernel)⟩, ⟨by decide +kernel, ?_⟩,
    by decide +kernel, ?_, ?_⟩
  · have given : (setTotalSize .dropped .create ⟨0, 99⟩ 10).map (fun answer => (answer.1,
        answer.2.statusCode, answer.2.getHeader (ascii "Content-Range") [])) =
          some (10, 206, HttpContentRange.bytesText 0 99 10) := by decide +kernel
    refine not_serves_of_text given fun first last low length fits same => ?_
    have stops := (HttpContentRange.bytesText_inj (by decide) low same).2.1
    omega
  · have given : (setTotalSize .kept .create ⟨4, -1⟩ 10).map (fun answer => (answer.1,
        answer.2.statusCode, answer.2.getHeader (ascii "Content-Range") [])) =
          some (6, 206, ascii "%bytes 4-9/10") := by decide +kernel
    have percent : (ascii "%bytes 4-9/10").head? = some 37 := by decide +kernel
    refine not_serves_of_text given fun first last _ _ _ same => ?_
    have letter := (congrArg List.head? same).trans (HttpContentRange.head_bytesText first last 10)
    exact absurd (percent.symm.trans letter) (by decide)
  · have given : (setTotalSize (.binary 0) .create ⟨4, -1⟩ 10).map (fun answer => (answer.1,
        answer.2.statusCode, answer.2.getHeader (ascii "Content-Range") [])) =
          some (6, 206, ascii "100ytes 9-10/0") := by decide +kernel
    have one : (ascii "100ytes 9-10/0").head? = some 49 := by decide +kernel
    refine not_serves_of_text given fun first last _ _ _ same => ?_
    have letter := (congrArg List.head? same).trans (HttpContentRange.head_bytesText first last 10)
    exact absurd (one.symm.trans letter) (by decide)

end UrlMessages

end Xul
