import Xul.Net.Http.ChunkedSegmentation
import Xul.Net.Http.RecordedFilter

/-!
# Trailers and malformed framing

Behind the zero chunk a body may have fields, which end at an empty line.
`decode_chunk_trailer` looks for the empty line and then skips what follows the place where
it stands, so that it goes through the fields in strides of four bytes.  It finishes the
next filter where a stride ends at a line end, which is the empty line exactly when the
length of the fields is a multiple of four and no line end of a field stands at one
(`TrailerBody.Aligned`).

Whatever the framing is, `process` returns true and tells the next filter of no error.
-/

set_option autoImplicit false

namespace Xul

open Foundation

namespace ChunkedHttpFilter

/-! ## Size lines with an extension -/

def isHexDigit (c : UInt8) : Bool := (digitValue 16 c).isSome

/-- The size of a line: hexadecimal digits, behind which there is nothing or an extension,
which begins with a semicolon or a blank. -/
def lineSize (line : Bytes) : Option Nat :=
  let digits := line.takeWhile isHexDigit
  let extension := line.dropWhile isHexDigit
  if digits ≠ [] ∧ ∀ c ∈ extension.head?, c ∈ ascii "; \t" then
    some (Nat.ofDigits 16 (scanDigits 16 digits).reverse)
  else none

/-- What stands behind the digits of a number is not looked at. -/
theorem scanNumber_append {digits extension : Bytes} (nonempty : digits ≠ [])
    (hex : ∀ c ∈ digits, isHexDigit c)
    (stops : ∀ c ∈ extension.head?, c ∈ ascii "; \t") :
    scanNumber 16 (digits ++ extension) =
      some (false, Nat.ofDigits 16 (scanDigits 16 digits).reverse) := by
  have noDigit : scanDigits 16 extension = [] := by
    cases extension with
    | nil => rfl
    | cons c rest =>
        have blank : c = 59 ∨ c = 32 ∨ c = 9 := by simpa [ascii] using stops c rfl
        rcases blank with rfl | rfl | rfl <;> rfl
  have scanned : ∀ {front : Bytes}, (∀ c ∈ front, isHexDigit c) →
      scanDigits 16 (front ++ extension) = scanDigits 16 front := by
    intro front digits
    induction front with
    | nil => exact noDigit
    | cons c rest ih =>
        obtain ⟨value, reads⟩ := Option.isSome_iff_exists.mp (digits c List.mem_cons_self)
        simp only [List.cons_append, scanDigits, reads]
        rw [ih fun other member => digits other (List.mem_cons_of_mem _ member)]
  obtain ⟨c, rest, rfl⟩ := List.exists_cons_of_ne_nil nonempty
  obtain ⟨value, reads⟩ := Option.isSome_iff_exists.mp (hex c List.mem_cons_self)
  have noPrefix : skipHexPrefix (c :: (rest ++ extension)) = c :: (rest ++ extension) := by
    have second : ∀ x ∈ (rest ++ extension).head?, x ≠ 120 ∧ x ≠ 88 := by
      intro x member
      cases rest with
      | nil =>
          have blank : x = 59 ∨ x = 32 ∨ x = 9 := by simpa [ascii] using stops x member
          rcases blank with rfl | rfl | rfl <;> decide
      | cons other rest =>
          obtain rfl : other = x := Option.some.inj member
          have digit := hex other (by simp)
          exact ⟨by rintro rfl; exact absurd digit (by decide),
            by rintro rfl; exact absurd digit (by decide)⟩
    unfold skipHexPrefix
    split
    · next same =>
        rw [(List.cons.inj same).2] at second
        exact absurd rfl (second _ rfl).1
    · next same =>
        rw [(List.cons.inj same).2] at second
        exact absurd rfl (second _ rfl).2
    · rfl
  have all := scanned hex
  rw [List.cons_append] at all ⊢
  simp only [scanNumber, scanSign_dropWhile_of_digit reads, if_true, noPrefix, all]
  simp only [scanDigits, reads]

/-- **The filter reads the size of a line**, whatever its extension. -/
theorem chunkSize_of_lineSize {line : Bytes} {size : Nat} (sized : lineSize line = some size)
    (small : size + 2 < 2 ^ 31) : chunkSize line = some size := by
  rw [lineSize, Option.ite_none_right_eq_some] at sized
  obtain ⟨⟨nonempty, stops⟩, value⟩ := sized
  rw [Option.some.injEq] at value
  have hex : ∀ c ∈ line.takeWhile isHexDigit, isHexDigit c :=
    fun c member => List.mem_takeWhile_imp member
  have split := @List.takeWhile_append_dropWhile _ isHexDigit line
  generalize line.takeWhile isHexDigit = digits at *
  generalize line.dropWhile isHexDigit = extension at stops split
  have text : cStr line = digits ++ cStr extension := by
    rw [← split]
    refine List.takeWhile_append_of_pos fun c member => decide_eq_true ?_
    rintro rfl
    exact absurd (hex 0 member) (by decide)
  have stopsToo : ∀ c ∈ (cStr extension).head?, c ∈ ascii "; \t" := by
    cases extension with
    | nil => exact stops
    | cons c rest =>
        intro other member
        rw [cStr, List.takeWhile_cons] at member
        split at member
        · exact stops other member
        · cases member
  have scanned : scanHexInt64 (cStr line) = some (size : Int) := by
    rw [scanHexInt64, text, scanNumber_append nonempty hex stopsToo, value]
    simp only [Option.map_some, Bool.false_eq_true, if_false]
    rw [if_neg (by omega), toInt64_of_small (by omega) (by omega)]
  have range : (0 : Int) ≤ size ∧ (size : Int) + 2 < 2 ^ 31 := by omega
  rw [chunkSize, scanned]
  simp only [if_pos range, Int.toNat_natCast]

/-! ## Bodies with a trailer -/

/-- A field line of a trailer, without its line end. -/
structure TrailerField where
  text : Bytes
  nonempty : text ≠ []
  oneLine : (13 : UInt8) ∉ text

def TrailerField.line (field : TrailerField) : Bytes := field.text ++ crlf

/-- The field lines of a trailer. -/
def fieldLines (fields : List TrailerField) : Bytes := fields.flatMap TrailerField.line

/-- A chunked body with fields behind its zero chunk, of a size that one call can have. -/
structure TrailerBody where
  chunks : List (Chunked.Chunk lineSize)
  last : Chunked.LastLine lineSize
  fields : List TrailerField
  hasFields : fields ≠ []
  oneCall : (chunks.flatMap Chunked.Chunk.encode ++ (last.line ++ crlf) ++
    (fieldLines fields ++ crlf)).length < 2 ^ 31

namespace TrailerBody

def encode (body : TrailerBody) : Bytes :=
  body.chunks.flatMap Chunked.Chunk.encode ++ (body.last.line ++ crlf) ++
    (fieldLines body.fields ++ crlf)

/-- Going through the fields in strides of four bytes, the first line end is the empty line. -/
def Aligned (body : TrailerBody) : Prop :=
  4 ∣ (fieldLines body.fields).length ∧
    ∀ offset < (fieldLines body.fields).length, 4 ∣ offset →
      ¬ crlf <+: (fieldLines body.fields).drop offset

end TrailerBody

/-! ## Where the empty line stands -/

/-- A tag that begins with a carriage return does not begin in a text without one. -/
theorem not_endTag_prefix_of_text {text more : Bytes} (oneLine : (13 : UInt8) ∉ text)
    {offset : Nat} (inside : offset < text.length) :
    ¬ HttpMessage.headerEndTag <+: (text ++ more).drop offset := by
  rintro ⟨tail, split⟩
  rw [List.drop_append_of_le_length inside.le] at split
  obtain ⟨first, others, cut⟩ := List.exists_cons_of_ne_nil
    (List.ne_nil_of_length_pos (by rw [List.length_drop]; omega : 0 < (text.drop offset).length))
  rw [cut] at split
  obtain rfl : (13 : UInt8) = first := (List.cons.inj split).1
  exact oneLine (List.mem_of_mem_drop (cut ▸ List.mem_cons_self))

/-- The tag does not begin in a field line that another line follows. -/
theorem not_endTag_prefix_of_line (field : TrailerField) {next : UInt8} {more : Bytes}
    (notCr : next ≠ 13) {offset : Nat} (inside : offset < field.line.length) :
    ¬ HttpMessage.headerEndTag <+: (field.line ++ next :: more).drop offset := by
  have length : field.line.length = field.text.length + 2 := by
    simp [TrailerField.line, crlf]
  have shape : field.line ++ next :: more = field.text ++ (crlf ++ next :: more) := by
    rw [TrailerField.line, List.append_assoc]
  rw [shape]
  rcases Nat.lt_trichotomy offset field.text.length with before | at_cr | after
  · exact not_endTag_prefix_of_text field.oneLine before
  · rw [at_cr, List.drop_left]
    rintro ⟨tail, split⟩
    exact notCr (List.cons.inj (List.cons.inj (List.cons.inj split).2).2).1.symm
  · obtain rfl : offset = field.text.length + 1 := by omega
    rw [← List.drop_drop, List.drop_left]
    rintro ⟨tail, split⟩
    exact absurd (List.cons.inj split).1 (by decide)

/-- The first line of some fields begins with a character that is no carriage return. -/
theorem exists_cons_fieldLines {fields : List TrailerField} (hasFields : fields ≠ []) :
    ∃ first rest, fieldLines fields = first :: rest ∧ first ≠ 13 := by
  obtain ⟨field, others, rfl⟩ := List.exists_cons_of_ne_nil hasFields
  obtain ⟨first, rest, text⟩ := List.exists_cons_of_ne_nil field.nonempty
  refine ⟨first, rest ++ crlf ++ fieldLines others, ?_, ?_⟩
  · rw [fieldLines, List.flatMap_cons, TrailerField.line, text]
    rfl
  · rintro rfl
    exact field.oneLine (text ▸ List.mem_cons_self)

/-- **The first empty line is the one behind the last field.** -/
theorem search_fieldLines {fields : List TrailerField} (hasFields : fields ≠ []) :
    2 ≤ (fieldLines fields).length ∧
      search (fieldLines fields ++ crlf) [13, 10, 13, 10] =
        some ((fieldLines fields).length - 2) := by
  induction fields with
  | nil => exact absurd rfl hasFields
  | cons field others ih =>
      have length : field.line.length = field.text.length + 2 := by
        simp [TrailerField.line, crlf]
      by_cases last : others = []
      · subst last
        have shape : fieldLines [field] ++ crlf = field.text ++ HttpMessage.headerEndTag := by
          simp [fieldLines, TrailerField.line, crlf, HttpMessage.headerEndTag]
        have size : (fieldLines [field]).length = field.text.length + 2 := by
          simp [fieldLines, length]
        rw [shape, size]
        refine ⟨by omega, ?_⟩
        have here : firstOccurrence HttpMessage.headerEndTag HttpMessage.headerEndTag = some 0 := by
          decide
        exact firstOccurrence_append_left here
          fun earlier inside => not_endTag_prefix_of_text field.oneLine inside
      · obtain ⟨long, found⟩ := ih last
        obtain ⟨first, rest, split, notCr⟩ := exists_cons_fieldLines last
        have shape : fieldLines (field :: others) = field.line ++ fieldLines others :=
          List.flatMap_cons
        rw [shape, List.length_append, List.append_assoc]
        refine ⟨by omega, ?_⟩
        rw [split, List.cons_append] at found ⊢
        rw [search, firstOccurrence_append_left found
          fun earlier inside => not_endTag_prefix_of_line field notCr inside, ← split]
        congr 1
        omega

/-! ## Strides through the fields -/

/-- A call finishes the next filter once and takes all its bytes. -/
def EndsOnce (filter : ChunkedHttpFilter) (data : Bytes) : Prop :=
  finishes (filter.process data).2 = 1 ∧
    (filter.process data).1.receivedSize = filter.receivedSize + data.length

theorem crlf_prefix_drop_iff {fields : List TrailerField} {offset : Nat}
    (before : offset + 2 ≤ (fieldLines fields).length) :
    crlf <+: (fieldLines fields ++ crlf).drop offset ↔
      crlf <+: (fieldLines fields).drop offset := by
  rw [List.drop_append_of_le_length (by omega)]
  constructor
  · intro stands
    refine List.prefix_of_prefix_length_le stands (List.prefix_append _ _) ?_
    rw [List.length_drop]
    exact Nat.le_sub_of_add_le' before
  · exact fun stands => stands.trans (List.prefix_append _ _)

section Strides

variable {fields : List TrailerField} (hasFields : fields ≠ [])
include hasFields

theorem drop_fieldLines_end :
    (fieldLines fields ++ crlf).drop ((fieldLines fields).length - 2) = [13, 10, 13, 10] := by
  obtain ⟨-, found⟩ := search_fieldLines hasFields
  obtain ⟨⟨tail, split⟩, -⟩ := firstOccurrence_eq_some_iff.mp found
  have length := congrArg List.length split
  rw [List.length_append, List.length_drop, List.length_append] at length
  have none : tail = [] := List.length_eq_zero_iff.mp (by simp [crlf] at length; omega)
  rw [← split, none]
  rfl

theorem drop_fieldLines_add (gap : Nat) :
    (fieldLines fields ++ crlf).drop ((fieldLines fields).length - 2 + gap) =
      [13, 10, 13, 10].drop gap := by
  rw [← List.drop_drop, drop_fieldLines_end hasFields]

/-- Before the last line end the empty line is found where it stands. -/
theorem search_drop_fieldLines {offset : Nat} (before : offset + 2 ≤ (fieldLines fields).length) :
    search ((fieldLines fields ++ crlf).drop offset) [13, 10, 13, 10] =
      some ((fieldLines fields).length - 2 - offset) := by
  obtain ⟨-, found⟩ := search_fieldLines hasFields
  obtain ⟨standing, least⟩ := firstOccurrence_eq_some_iff.mp found
  refine firstOccurrence_eq_some_iff.mpr ⟨?_, ?_⟩
  · rwa [List.drop_drop, Nat.add_sub_of_le (by omega)]
  · intro earlier smaller stands
    rw [List.drop_drop] at stands
    exact least (offset + earlier) (by omega) stands

variable {filter : ChunkedHttpFilter} (zero : filter.currentChunkSize = 0)
include zero

/-- A stride that does not begin at a line end is four bytes long. -/
theorem process_stride {offset : Nat} (before : offset + 2 ≤ (fieldLines fields).length)
    (noLineEnd : ¬ crlf <+: (fieldLines fields).drop offset) :
    ∃ next : ChunkedHttpFilter, next.currentChunkSize = 0 ∧
      next.receivedSize = filter.receivedSize + 4 ∧
      filter.process ((fieldLines fields ++ crlf).drop offset) =
        ((next.process ((fieldLines fields ++ crlf).drop (offset + 4))).1,
          .process [] :: (next.process ((fieldLines fields ++ crlf).drop (offset + 4))).2) := by
  have length : ((fieldLines fields ++ crlf).drop offset).length =
      (fieldLines fields).length + 2 - offset := by
    simp [crlf]
  have elsewhere : ¬ (((fieldLines fields ++ crlf).drop offset)[0]? = some 13 ∧
      ((fieldLines fields ++ crlf).drop offset)[1]? = some 10) := by
    rintro ⟨first, second⟩
    rw [List.getElem?_drop, List.getElem?_append_left (by omega), ← List.getElem?_drop]
      at first second
    obtain ⟨rest, split⟩ := List.head?_eq_some_iff.mp (List.head?_eq_getElem? .. ▸ first)
    rw [split, List.getElem?_cons_succ] at second
    obtain ⟨others, behind⟩ := List.head?_eq_some_iff.mp (List.head?_eq_getElem? .. ▸ second)
    exact noLineEnd ⟨others, by rw [split, behind]; rfl⟩
  have stride : (((fieldLines fields).length + 2 - offset : Nat) : Int) -
      ((fieldLines fields).length - 2 - offset : Nat) = 4 := by
    omega
  have turn : filter.decodeOnce ((fieldLines fields ++ crlf).drop offset) =
      ⟨4, filter, [.process []]⟩ := by
    rw [decodeOnce_zero zero, decodeChunkTrailer, if_neg (by omega), if_neg elsewhere,
      search_drop_fieldLines hasFields before, length]
    simp only [Option.getD_some, stride]
  refine ⟨{ filter with receivedSize := filter.receivedSize + 4 }, zero, rfl, ?_⟩
  rw [process_of_turn turn (by decide) (by omega), List.drop_drop]
  rfl

omit hasFields in
/-- A stride at a line end finishes the next filter. -/
theorem process_lineEnd {data : Bytes} (lineEnd : crlf <+: data) :
    ∃ next : ChunkedHttpFilter, next.currentChunkSize = 0 ∧
      next.receivedSize = filter.receivedSize + 2 ∧
      filter.process data =
        ((next.process (data.drop 2)).1, .finish [] :: (next.process (data.drop 2)).2) := by
  obtain ⟨rest, rfl⟩ := lineEnd
  have turn : filter.decodeOnce (crlf ++ rest) = ⟨2, filter, [.finish []]⟩ := by
    rw [decodeOnce_zero zero]
    exact decodeChunkTrailer_of_lineEnd filter rest
  refine ⟨{ filter with receivedSize := filter.receivedSize + 2 }, zero, rfl, ?_⟩
  have inside : (2 : Int) ≤ (crlf ++ rest).length := by
    simp only [List.length_append, crlf, List.length_cons, List.length_nil]
    omega
  rw [process_of_turn turn (by decide) inside]
  rfl

/-- Inside the last line end of the fields no empty line is found. -/
theorem process_inside_lineEnd {offset : Nat} (inside : offset + 1 = (fieldLines fields).length) :
    filter.process ((fieldLines fields ++ crlf).drop offset) = (filter, [.process []]) := by
  have long := (search_fieldLines hasFields).1
  have data : (fieldLines fields ++ crlf).drop offset = [10, 13, 10] := by
    rw [show offset = (fieldLines fields).length - 2 + 1 by omega,
      drop_fieldLines_add hasFields]
    rfl
  have turn : filter.decodeOnce [10, 13, 10] = ⟨0, filter, [.process []]⟩ := by
    rw [decodeOnce_zero zero]
    rfl
  rw [data, process_of_stop (by decide) (by rw [turn]), turn]

/-- A stride begins at a line end, or the next one begins before the empty line, or the call
ends without having taken what is left. -/
theorem process_fields_cases {offset : Nat} (inside : offset ≤ (fieldLines fields).length) :
    crlf <+: (fieldLines fields ++ crlf).drop offset ∨
      (offset + 4 ≤ (fieldLines fields).length ∧ ¬ crlf <+: (fieldLines fields).drop offset) ∨
      (offset < (fieldLines fields).length ∧ (fieldLines fields).length < offset + 4 ∧
        finishes (filter.process ((fieldLines fields ++ crlf).drop offset)).2 = 0 ∧
        (filter.process ((fieldLines fields ++ crlf).drop offset)).1.receivedSize ≠
          filter.receivedSize + ((fieldLines fields ++ crlf).drop offset).length) := by
  have long := (search_fieldLines hasFields).1
  by_cases lineEnd : crlf <+: (fieldLines fields ++ crlf).drop offset
  · exact Or.inl lineEnd
  have notEnd : offset ≠ (fieldLines fields).length := by
    rintro rfl
    exact lineEnd (by rw [List.drop_left])
  have notTag : offset + 2 ≠ (fieldLines fields).length := by
    intro two
    refine lineEnd ?_
    rw [show offset = (fieldLines fields).length - 2 by omega, drop_fieldLines_end hasFields]
    exact ⟨crlf, rfl⟩
  by_cases far : offset + 4 ≤ (fieldLines fields).length
  · exact Or.inr (Or.inl ⟨far, fun stands =>
      lineEnd ((crlf_prefix_drop_iff (by omega)).mpr stands)⟩)
  have size : ((fieldLines fields ++ crlf).drop offset).length =
      (fieldLines fields).length + 2 - offset := by
    simp [crlf]
  refine Or.inr (Or.inr ⟨by omega, by omega, ?_⟩)
  by_cases one : offset + 1 = (fieldLines fields).length
  · rw [process_inside_lineEnd hasFields zero one]
    refine ⟨rfl, ?_⟩
    show filter.receivedSize ≠ _
    omega
  · obtain ⟨next, nextZero, received, strides⟩ := process_stride hasFields zero
      (show offset + 2 ≤ (fieldLines fields).length by omega)
      fun stands => lineEnd ((crlf_prefix_drop_iff (by omega)).mpr stands)
    have short : ((fieldLines fields ++ crlf).drop (offset + 4)).length < 2 := by
      simp [crlf]
      omega
    rw [strides, process_of_short nextZero short]
    refine ⟨rfl, ?_⟩
    show next.receivedSize ≠ _
    omega

/-- **The bytes of a trailer are not all taken without finishing the next filter.**  The
induction is on the bytes that are left. -/
theorem finishes_of_received {offset : Nat} (inside : offset ≤ (fieldLines fields).length)
    (received : (filter.process ((fieldLines fields ++ crlf).drop offset)).1.receivedSize =
      filter.receivedSize + ((fieldLines fields ++ crlf).drop offset).length) :
    0 < finishes (filter.process ((fieldLines fields ++ crlf).drop offset)).2 := by
  induction left : (fieldLines fields).length - offset using Nat.strong_induction_on
    generalizing filter offset with
  | _ left ih =>
    rcases process_fields_cases hasFields zero inside with lineEnd | ⟨far, noLineEnd⟩ |
      ⟨-, -, -, notAll⟩
    · obtain ⟨next, -, -, turns⟩ := process_lineEnd zero lineEnd
      rw [turns, finishes_finish_cons]
      exact Nat.succ_pos _
    · obtain ⟨next, nextZero, nextReceived, turns⟩ :=
        process_stride hasFields zero (by omega) noLineEnd
      rw [turns] at received ⊢
      refine ih _ ?_ nextZero far ?_ rfl
      · omega
      · have sizes : ((fieldLines fields ++ crlf).drop offset).length =
            ((fieldLines fields ++ crlf).drop (offset + 4)).length + 4 := by
          simp only [List.length_drop, List.length_append]
          omega
        rw [received, nextReceived, sizes]
        push_cast
        ring
    · exact absurd received notAll

/-- **Strides of four bytes that end at the empty line.**  The induction is on the bytes
that are left: a line end of a field on the way finishes the next filter early, and the
bytes behind it are not taken without finishing it again. -/
theorem endsOnce_iff {offset : Nat} (inside : offset ≤ (fieldLines fields).length) :
    EndsOnce filter ((fieldLines fields ++ crlf).drop offset) ↔
      4 ∣ (fieldLines fields).length - offset ∧
        ∀ later < (fieldLines fields).length, offset ≤ later → 4 ∣ later - offset →
          ¬ crlf <+: (fieldLines fields).drop later := by
  induction left : (fieldLines fields).length - offset using Nat.strong_induction_on
    generalizing filter offset with
  | _ left ih =>
    subst left
    rcases process_fields_cases hasFields zero inside with lineEnd | ⟨far, noLineEnd⟩ |
      ⟨before, near, none, -⟩
    · obtain ⟨next, nextZero, nextReceived, turns⟩ := process_lineEnd zero lineEnd
      by_cases ends : offset = (fieldLines fields).length
      · subst ends
        rw [List.drop_left, EndsOnce]
        rw [List.drop_left] at turns
        rw [turns]
        refine ⟨fun _ => ⟨by rw [Nat.sub_self]; exact dvd_zero 4, ?_⟩,
          fun _ => ⟨rfl, nextReceived⟩⟩
        intro later before after
        omega
      · have two : offset + 2 ≤ (fieldLines fields).length := by
          by_contra one
          have last : offset + 1 = (fieldLines fields).length := by omega
          rw [show offset = (fieldLines fields).length - 2 + 1 by
            have := (search_fieldLines hasFields).1
            omega, drop_fieldLines_add hasFields] at lineEnd
          exact absurd lineEnd (by decide)
        rw [crlf_prefix_drop_iff two] at lineEnd
        constructor
        · rintro ⟨once, received⟩
          rw [turns, finishes_finish_cons] at once
          rw [turns] at received
          rw [List.drop_drop] at once received
          have again := finishes_of_received hasFields nextZero two (by
            rw [received, nextReceived]
            simp only [List.length_drop, List.length_append]
            omega)
          omega
        · rintro ⟨-, elsewhere⟩
          exact absurd lineEnd (elsewhere offset (by omega) (le_refl _)
            (by rw [Nat.sub_self]; exact dvd_zero 4))
    · obtain ⟨next, nextZero, nextReceived, turns⟩ :=
        process_stride hasFields zero (show offset + 2 ≤ _ by omega) noLineEnd
      have later := ih _ (show (fieldLines fields).length - (offset + 4) < _ by omega) nextZero far rfl
      have same : EndsOnce filter ((fieldLines fields ++ crlf).drop offset) ↔
          EndsOnce next ((fieldLines fields ++ crlf).drop (offset + 4)) := by
        have sizes : ((fieldLines fields ++ crlf).drop offset).length =
            ((fieldLines fields ++ crlf).drop (offset + 4)).length + 4 := by
          simp only [List.length_drop, List.length_append]
          omega
        rw [EndsOnce, EndsOnce, turns, nextReceived, sizes]
        refine and_congr Iff.rfl ⟨?_, ?_⟩
        · intro received
          push_cast at received ⊢
          omega
        · intro received
          push_cast at received ⊢
          omega
      rw [same, later]
      refine and_congr ⟨fun whole => by omega, fun whole => by omega⟩ ?_
      constructor
      · intro elsewhere position before after stride
        by_cases here : position = offset
        · exact here ▸ noLineEnd
        · exact elsewhere position before (by omega) (by omega)
      · intro elsewhere position before after stride
        exact elsewhere position before (by omega) (by omega)
    · constructor
      · rintro ⟨once, -⟩
        rw [none] at once
        exact absurd once (by decide)
      · rintro ⟨whole, -⟩
        omega

end Strides

/-! ## What stands before the trailer -/

/-- A size line is one turn. -/
theorem process_sizeLine {filter : ChunkedHttpFilter} {line : Bytes} {size : Nat}
    (tracks : filter.Tracks (.line [])) (oneLine : (13 : UInt8) ∉ line)
    (sized : chunkSize line = some size) (more : Bytes) :
    filter.process (line ++ crlf ++ more) =
      { filter with
        currentChunkSize := size
        receivedSize := filter.receivedSize + (line.length + 2) }.process more := by
  have found : search (line ++ crlf ++ more) crlf = some line.length :=
    Chunked.firstOccurrence_lineEnd oneLine more
  have text : (line ++ crlf ++ more).take line.length = line := by
    rw [List.append_assoc, List.take_left]
  have turn : filter.decodeOnce (line ++ crlf ++ more) =
      ⟨(line.length : Int) + 2, { filter with currentChunkSize := size }, []⟩ := by
    rw [decodeOnce_line tracks]
    exact (decodeChunkStart_of_found found (by rw [text, sized])).1
  have inside : (line.length : Int) + 2 ≤ (line ++ crlf ++ more).length := by
    simp only [List.length_append, crlf, List.length_cons, List.length_nil]
    omega
  have rest : (line ++ crlf ++ more).drop ((line.length : Int) + 2).toNat = more := by
    rw [show ((line.length : Int) + 2).toNat = (line ++ crlf).length by simp [crlf]; omega,
      List.drop_left]
  rw [process_of_turn turn (by omega) inside, rest]
  rfl

/-- What a call makes of bytes in front of others: it delivers nothing but payload, takes
them all, and goes on with the others as if they came in a call of their own. -/
structure Passes (filter : ChunkedHttpFilter) (bytes : Bytes) (kept : Chunked.Phase) : Prop where
  goesOn : ∀ more, ∃ (after : ChunkedHttpFilter) (calls : List NextCall),
    filter.process (bytes ++ more) = ((after.process more).1, calls ++ (after.process more).2) ∧
      after.Tracks kept ∧ after.receivedSize = filter.receivedSize + bytes.length ∧
      finishes calls = 0

theorem length_encode (chunk : Chunked.Chunk lineSize) :
    chunk.encode.length = chunk.line.length + 2 + chunk.payload.length + 2 := by
  simp only [Chunked.Chunk.encode, Chunked.lineEnd, List.length_append, List.length_cons,
    List.length_nil]

theorem passes_chunk {filter : ChunkedHttpFilter} (tracks : filter.Tracks (.line []))
    (chunk : Chunked.Chunk lineSize) (small : chunk.payload.length + 2 < 2 ^ 31) :
    filter.Passes chunk.encode (.line []) where
  goesOn more := by
    have sized := chunkSize_of_lineSize chunk.sized small
    have shape : chunk.encode ++ more =
        chunk.line ++ crlf ++ (chunk.payload ++ 13 :: 10 :: more) := by
      simp [Chunked.Chunk.encode, Chunked.lineEnd, crlf]
    have start := process_sizeLine tracks chunk.oneLine sized (chunk.payload ++ 13 :: 10 :: more)
    obtain ⟨-, -, none, sound⟩ := tracks
    generalize entered : ({ filter with
      currentChunkSize := (chunk.payload.length : Int)
      receivedSize := filter.receivedSize + (chunk.line.length + 2) } : ChunkedHttpFilter) =
        inside at start
    have current : inside.currentChunkSize = chunk.payload.length := by rw [← entered]
    have nothing : inside.receivedChunkSize = 0 := by rw [← entered, none]
    have total : inside.receivedSize = filter.receivedSize + (chunk.line.length + 2) := by
      rw [← entered]
    have fault : inside.fault = false := by rw [← entered, sound]
    have data : inside.Tracks (.data chunk.payload.length) :=
      ⟨List.length_pos_of_ne_nil chunk.nonempty, le_of_eq nothing.symm, by
        rw [nothing, current, zero_add], by
        rw [current]
        exact_mod_cast small, fault⟩
    have turn : inside.decodeOnce (chunk.payload ++ 13 :: 10 :: more) = _ :=
      (decodeOnce_data data).trans (decodeChunkData_of_whole data)
    have length : (chunk.payload.length : Int) + 2 ≤
        (chunk.payload ++ 13 :: 10 :: more).length := by
      simp only [List.length_append, List.length_cons]
      omega
    have rest : (chunk.payload ++ 13 :: 10 :: more).drop
        ((chunk.payload.length : Int) + 2).toNat = more := by
      rw [show ((chunk.payload.length : Int) + 2).toNat = chunk.payload.length + 2 by omega,
        ← List.drop_drop, List.drop_left]
      rfl
    have turned := process_of_turn turn (by omega) length
    rw [rest] at turned
    refine ⟨_, [.process chunk.payload], by rw [shape, start, turned], ?_, ?_, rfl⟩
    · exact ⟨rfl, neg_one_lt_zero, rfl, fault⟩
    · simp only [total, length_encode]
      push_cast
      ring

theorem Passes.append {filter : ChunkedHttpFilter} {bytes others : Bytes}
    {kept later : Chunked.Phase} (first : filter.Passes bytes kept)
    (second : ∀ after : ChunkedHttpFilter, after.Tracks kept → after.Passes others later) :
    filter.Passes (bytes ++ others) later where
  goesOn more := by
    obtain ⟨middle, calls, process, tracks, received, quiet⟩ := first.goesOn (others ++ more)
    obtain ⟨after, moreCalls, processes, tracked, receives, quietly⟩ :=
      (second middle tracks).goesOn more
    refine ⟨after, calls ++ moreCalls, ?_, tracked, ?_, ?_⟩
    · rw [List.append_assoc, process, processes, List.append_assoc]
    · rw [receives, received, List.length_append]
      push_cast
      ring
    · rw [finishes_append, quiet, quietly]

theorem passes_nil {filter : ChunkedHttpFilter} {kept : Chunked.Phase}
    (tracks : filter.Tracks kept) : filter.Passes [] kept where
  goesOn _ := ⟨filter, [], rfl, tracks, (add_zero _).symm, rfl⟩

theorem passes_chunks {chunks : List (Chunked.Chunk lineSize)}
    (small : ∀ chunk ∈ chunks, chunk.payload.length + 2 < 2 ^ 31) :
    ∀ filter : ChunkedHttpFilter, filter.Tracks (.line []) →
      filter.Passes (chunks.flatMap Chunked.Chunk.encode) (.line []) := by
  induction chunks with
  | nil => exact fun filter tracks => passes_nil tracks
  | cons chunk chunks ih =>
      intro filter tracks
      rw [List.flatMap_cons]
      exact (passes_chunk tracks chunk (small chunk List.mem_cons_self)).append
        (ih fun other member => small other (List.mem_cons_of_mem _ member))

/-- The zero chunk takes the filter to the trailer. -/
theorem passes_last {filter : ChunkedHttpFilter} (tracks : filter.Tracks (.line []))
    (last : Chunked.LastLine lineSize) : filter.Passes (last.line ++ crlf) .trailer where
  goesOn more := by
    refine ⟨_, [], process_sizeLine tracks last.oneLine
      (chunkSize_of_lineSize last.sized (by decide)) more, ⟨rfl, tracks.2.2.2⟩, ?_, rfl⟩
    simp only [List.length_append, crlf, List.length_cons, List.length_nil]
    push_cast
    ring

/-- A new filter goes through the chunks of a body to its trailer. -/
theorem passes_body (body : TrailerBody) :
    create.Passes (body.chunks.flatMap Chunked.Chunk.encode ++ (body.last.line ++ crlf))
      .trailer := by
  have small : ∀ chunk ∈ body.chunks, chunk.payload.length + 2 < 2 ^ 31 := by
    intro chunk member
    have part : chunk.encode.length ≤ (body.chunks.flatMap Chunked.Chunk.encode).length :=
      (List.sublist_flatten_of_mem (List.mem_map_of_mem member)).length_le
    have total := body.oneCall
    have nonempty := (search_fieldLines body.hasFields).1
    rw [length_encode] at part
    simp only [List.length_append] at total
    omega
  exact (passes_chunks small create tracks_create).append fun after tracks => passes_last tracks _

/-- **A body with a trailer is finished once and taken to its end exactly when the strides
through its fields end at the empty line.** -/
theorem create_endsOnce_iff (body : TrailerBody) :
    EndsOnce create body.encode ↔ body.Aligned := by
  obtain ⟨after, calls, process, ⟨zero, -⟩, received, quiet⟩ :=
    (passes_body body).goesOn (fieldLines body.fields ++ crlf)
  have same : EndsOnce create body.encode ↔
      EndsOnce after ((fieldLines body.fields ++ crlf).drop 0) := by
    rw [List.drop_zero, EndsOnce, EndsOnce, TrailerBody.encode, process, finishes_append, quiet,
      zero_add, received, List.length_append]
    push_cast
    rw [add_assoc]
  rw [same, endsOnce_iff body.hasFields zero (Nat.zero_le _), TrailerBody.Aligned, Nat.sub_zero]
  refine and_congr Iff.rfl (forall₂_congr ?_)
  intro offset inside
  rw [Nat.sub_zero]
  exact ⟨fun elsewhere => elsewhere (Nat.zero_le _), fun elsewhere _ => elsewhere⟩

/-! ## Malformed framing -/

/-- The framing of a body breaks: a size line, which ends at the first line end, is not
hexadecimal, or a chunk is not followed by a line end. -/
inductive Malformed : Bytes → Prop where
  | sizeLine {line : Bytes} (oneLine : ¬ crlf <:+: line) (notHex : lineSize line = none)
      (more : Bytes) : Malformed (line ++ crlf ++ more)
  | chunkEnd (chunk : Chunked.Chunk lineSize) {more : Bytes} (noLineEnd : ¬ crlf <+: more)
      (notYet : ¬ more <+: crlf) : Malformed (chunk.line ++ crlf ++ chunk.payload ++ more)
  | later (chunk : Chunked.Chunk lineSize) {rest : Bytes} (malformed : Malformed rest) :
      Malformed (chunk.encode ++ rest)

variable {Filter Connection : Type} (next : HttpFilter Filter Connection)

/-- A call of the filter, in front of a filter that keeps a record. -/
def processRecorded (filter : ChunkedHttpFilter) (behind : Filter) (connection : Connection)
    (data : Bytes) :
    Handled (ChunkedHttpFilter × Filter × List FilterCall) Connection :=
  (toHttpFilter next.recorded).process data (filter, behind, []) connection

/-- A call fails in what it returns or in what it tells the next filter. -/
def Reports (handled : Handled (ChunkedHttpFilter × Filter × List FilterCall) Connection) : Prop :=
  handled.ret = false ∨ FilterCall.Failed handled.filter.2.2

/-- What is recorded of a call that decoding makes. -/
def recordOf : NextCall → FilterCall
  | .process data => .process data
  | .finish data => .finish data

theorem makeCalls_recorded (calls : List NextCall) (behind : Filter) (log : List FilterCall)
    (connection : Connection) :
    (makeCalls next.recorded calls (behind, log) connection).1.2 = log ++ calls.map recordOf := by
  induction calls generalizing behind log connection with
  | nil => exact (List.append_nil log).symm
  | cons call calls ih =>
      have step : log ++ (call :: calls).map recordOf =
          log ++ [recordOf call] ++ calls.map recordOf := by
        rw [List.append_assoc, List.map_cons, List.singleton_append]
      rw [step]
      cases call with
      | process data => exact ih _ _ _
      | finish data => exact ih _ _ _

theorem finishes_map_recordOf (calls : List NextCall) :
    FilterCall.finishes (calls.map recordOf) = finishes calls := by
  induction calls with
  | nil => rfl
  | cons call calls ih =>
      rw [List.map_cons, ← List.singleton_append, ← List.singleton_append (l := calls),
        FilterCall.finishes_append, finishes_append, ih]
      cases call with
      | process data => rfl
      | finish data => rfl

/-- Decoding makes no other calls than these. -/
theorem not_failed_map_recordOf (calls : List NextCall) :
    ¬ FilterCall.Failed (calls.map recordOf) := by
  rintro ⟨errcode, member⟩
  obtain ⟨call, -, same⟩ := List.mem_map.mp member
  cases call with
  | process data => cases same
  | finish data => cases same

theorem processRecorded_calls (filter : ChunkedHttpFilter) (behind : Filter)
    (connection : Connection) (data : Bytes) :
    (filter.processRecorded next behind connection data).filter.2.2 =
      (filter.process data).2.map recordOf := by
  exact makeCalls_recorded next _ behind [] connection

/-- **No call is ever reported as failed**, whatever state the filter is in. -/
theorem not_reports (filter : ChunkedHttpFilter) (behind : Filter) (connection : Connection)
    (data : Bytes) : ¬ Reports (filter.processRecorded next behind connection data) := by
  rintro (failed | told)
  · cases failed
  · rw [processRecorded_calls] at told
    exact not_failed_map_recordOf _ told

/-- What is expected of a new filter that gets a body in one call: a body with a trailer is
finished once and taken to its end, and malformed framing is reported. -/
structure Frames (behind : Filter) (connection : Connection) (data : Bytes) : Prop where
  trailer : ∀ body : TrailerBody, body.encode = data →
    FilterCall.finishes (create.processRecorded next behind connection data).filter.2.2 = 1 ∧
      (create.processRecorded next behind connection data).filter.1.receivedSize = data.length
  malformed : Malformed data → Reports (create.processRecorded next behind connection data)

theorem processRecorded_endsOnce_iff (behind : Filter) (connection : Connection) (data : Bytes) :
    (FilterCall.finishes (create.processRecorded next behind connection data).filter.2.2 = 1 ∧
      (create.processRecorded next behind connection data).filter.1.receivedSize = data.length) ↔
      EndsOnce create data := by
  rw [processRecorded_calls, finishes_map_recordOf, EndsOnce]
  exact and_congr Iff.rfl (by rw [show create.receivedSize = 0 from rfl, zero_add]; rfl)

/-- **Trailers and malformed framing.**  What is expected holds of exactly the data that are
well framed and whose trailer, if they are a body with one, is aligned. -/
theorem frames_iff (behind : Filter) (connection : Connection) (data : Bytes) :
    Frames next behind connection data ↔
      (∀ body : TrailerBody, body.encode = data → body.Aligned) ∧ ¬ Malformed data := by
  constructor
  · intro frames
    refine ⟨?_, fun malformed =>
      not_reports next create behind connection data (frames.malformed malformed)⟩
    intro body encodes
    have ends := (processRecorded_endsOnce_iff next behind connection data).mp
      (frames.trailer body encodes)
    rw [← encodes] at ends
    exact (create_endsOnce_iff body).mp ends
  · rintro ⟨aligned, wellFramed⟩
    refine ⟨?_, fun malformed => absurd malformed wellFramed⟩
    intro body encodes
    rw [processRecorded_endsOnce_iff, ← encodes]
    exact (create_endsOnce_iff body).mpr (aligned body encodes)

theorem zero_oneLine : (13 : UInt8) ∉ ascii "0" := by decide

/-- A body without chunks, with one field of nine bytes with its line end. -/
def expiresBody : TrailerBody where
  chunks := []
  last := ⟨ascii "0", zero_oneLine, by decide +kernel⟩
  fields := [⟨ascii "E: soon", by decide, by decide⟩]
  hasFields := by decide
  oneCall := by decide

/-- Strides of four bytes go past the empty line of this body, and a size line that is no
number is not reported. -/
theorem trailer_and_bad_line_not_framed :
    ¬ Frames HttpFilter.accepting () () expiresBody.encode ∧
      ¬ Frames HttpFilter.accepting () () (ascii "xyz\r\nhello\r\n") := by
  constructor
  · intro frames
    have ends := (processRecorded_endsOnce_iff HttpFilter.accepting () () _).mp
      (frames.trailer expiresBody rfl)
    exact absurd ((create_endsOnce_iff expiresBody).mp ends).1 (by decide)
  · intro frames
    have malformed : Malformed (ascii "xyz\r\nhello\r\n") :=
      @Malformed.sizeLine (ascii "xyz") (by decide) (by decide +kernel) (ascii "hello\r\n")
    exact not_reports HttpFilter.accepting create () () _ (frames.malformed malformed)

end ChunkedHttpFilter

end Xul
