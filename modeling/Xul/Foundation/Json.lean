import Mathlib.Algebra.Field.Rat
import Mathlib.Data.List.TakeWhile
import Mathlib.Data.Nat.Digits.Defs

/-!
# JSON texts

The values that a text can denote, the tokens of a value, and the texts that are cut into
tokens.  A text denotes a value if it is UTF-8 and is cut into the tokens of the value,
with blanks between them.  Strings are the bytes of their characters.

The rules that read a token in front of a text are equivalences (`reads_mark_iff`,
`reads_string_iff` and so on): they say what a text must be to begin with that token.  A
text between quotes is read as itself only if it needs no escapes (`Chars.eq_of_verbatim`).
-/

set_option autoImplicit false

namespace Foundation.Json

/-! ## UTF-8 -/

/-- The characters of a text, one after another, in UTF-8. -/
def IsUtf8 (text : List UInt8) : Prop :=
  ∃ chars : List Char, chars.flatMap String.utf8EncodeChar = text

theorem isUtf8_nil : IsUtf8 [] := ⟨[], rfl⟩

/-- Only a character of one byte is written with an ASCII byte. -/
theorem utf8EncodeChar_of_ascii {char : Char} {byte : UInt8} (ascii : byte < 128)
    (member : byte ∈ String.utf8EncodeChar char) : String.utf8EncodeChar char = [byte] := by
  have small : byte.toNat < 128 := ascii
  rw [String.utf8EncodeChar] at member ⊢
  split_ifs at member ⊢
  · rw [List.mem_singleton.mp member]
  all_goals
    simp only [List.mem_cons, List.not_mem_nil, or_false] at member
    rcases member with rfl | rfl | rfl | rfl <;>
    · simp only [UInt8.toNat_ofNat'] at small
      omega

theorem utf8EncodeChar_ascii {byte : UInt8} (ascii : byte < 128) :
    String.utf8EncodeChar (Char.ofNat byte.toNat) = [byte] := by
  have all : ∀ code : Fin 256, UInt8.ofFin code < 128 →
      String.utf8EncodeChar (Char.ofNat (UInt8.ofFin code).toNat) = [UInt8.ofFin code] := by
    decide +kernel
  exact all byte.toFin ascii

/-- An ASCII byte stands between two texts and never inside of a character. -/
theorem isUtf8_append_cons_iff {byte : UInt8} (ascii : byte < 128) (before text : List UInt8) :
    IsUtf8 (before ++ byte :: text) ↔ IsUtf8 before ∧ IsUtf8 text := by
  constructor
  · rintro ⟨chars, written⟩
    induction chars generalizing before with
    | nil => exact absurd written.symm (by simp)
    | cons char chars ih =>
        rw [List.flatMap_cons, List.append_eq_append_iff] at written
        rcases written with ⟨between, rfl, rest⟩ | ⟨between, whole, rest⟩
        · obtain ⟨⟨others, rfl⟩, after⟩ := ih between rest
          exact ⟨⟨char :: others, rfl⟩, after⟩
        · cases between with
          | nil =>
              obtain ⟨⟨others, none⟩, after⟩ := ih [] rest.symm
              rw [List.append_nil] at whole
              exact ⟨⟨[char], by rw [← whole, List.flatMap_singleton]⟩, after⟩
          | cons first between =>
              rw [List.cons_append, List.cons.injEq] at rest
              have inside : byte ∈ String.utf8EncodeChar char := by simp [whole, rest.1]
              rw [utf8EncodeChar_of_ascii ascii inside] at whole
              obtain ⟨rfl, same⟩ := List.append_eq_singleton_iff.mp whole.symm |>.resolve_right
                (by simp)
              obtain ⟨-, rfl⟩ := List.cons.inj same
              exact ⟨isUtf8_nil, chars, rest.2.symm⟩
  · rintro ⟨⟨first, rfl⟩, ⟨second, rfl⟩⟩
    refine ⟨first ++ Char.ofNat byte.toNat :: second, ?_⟩
    rw [List.flatMap_append, List.flatMap_cons, utf8EncodeChar_ascii ascii, List.singleton_append]

theorem isUtf8_cons_iff {byte : UInt8} (ascii : byte < 128) (text : List UInt8) :
    IsUtf8 (byte :: text) ↔ IsUtf8 text := by
  have cut := isUtf8_append_cons_iff ascii [] text
  rwa [List.nil_append, and_iff_right isUtf8_nil] at cut

theorem isUtf8_append_iff {raw : List UInt8} (ascii : ∀ byte ∈ raw, byte < 128)
    (text : List UInt8) : IsUtf8 (raw ++ text) ↔ IsUtf8 text := by
  induction raw with
  | nil => rw [List.nil_append]
  | cons byte raw ih =>
      rw [List.forall_mem_cons] at ascii
      rw [List.cons_append, isUtf8_cons_iff ascii.1, ih ascii.2]

/-! ## Values -/

inductive Value where
  | null
  | bool (value : Bool)
  | number (value : ℚ)
  | string (content : List UInt8)
  | array (items : List Value)
  | object (members : List (List UInt8 × Value))

inductive Mark where
  | leftBrace
  | rightBrace
  | leftBracket
  | rightBracket
  | comma
  | colon
deriving DecidableEq

def Mark.byte : Mark → UInt8
  | leftBrace => 123
  | rightBrace => 125
  | leftBracket => 91
  | rightBracket => 93
  | comma => 44
  | colon => 58

inductive Token where
  | mark (punctuation : Mark)
  | null
  | bool (value : Bool)
  | number (value : ℚ)
  | string (content : List UInt8)
deriving DecidableEq

/-- What stands before an item: a comma, unless it is the first one. -/
def separator (first : Bool) : List Token := if first then [] else [.mark .comma]

mutual
/-- The grammar of values. -/
def Value.tokens : Value → List Token
  | .null => [.null]
  | .bool value => [.bool value]
  | .number value => [.number value]
  | .string content => [.string content]
  | .array items => .mark .leftBracket :: (itemTokens true items ++ [.mark .rightBracket])
  | .object members => .mark .leftBrace :: (memberTokens true members ++ [.mark .rightBrace])

def itemTokens : Bool → List Value → List Token
  | _, [] => []
  | first, item :: items => separator first ++ (item.tokens ++ itemTokens false items)

def memberTokens : Bool → List (List UInt8 × Value) → List Token
  | _, [] => []
  | first, (name, value) :: members =>
      separator first ++ .string name :: .mark .colon :: (value.tokens ++ memberTokens false members)
end

/-! ## Strings -/

/-- A byte that stands for itself in a string. -/
def isVerbatim (byte : UInt8) : Bool := 32 ≤ byte && byte ≠ 34 && byte ≠ 92

/-- What a character stands for behind a backslash. -/
def escaped : UInt8 → Option UInt8
  | 34 => some 34
  | 92 => some 92
  | 47 => some 47
  | 98 => some 8
  | 102 => some 12
  | 110 => some 10
  | 114 => some 13
  | 116 => some 9
  | _ => none

def hexValue (byte : UInt8) : Option Nat :=
  if 48 ≤ byte ∧ byte ≤ 57 then some (byte.toNat - 48)
  else if 97 ≤ byte ∧ byte ≤ 102 then some (byte.toNat - 87)
  else if 65 ≤ byte ∧ byte ≤ 70 then some (byte.toNat - 55)
  else none

/-- The digits are gone through, and not all bytes that could be among them. -/
local instance decidableDigits (p : UInt8 → Prop) [DecidablePred p] (digits : List UInt8) :
    Decidable (∀ digit ∈ digits, p digit) := List.decidableBAll p digits

/-- The code that four hexadecimal digits stand for. -/
def codeUnit (digits : List UInt8) : Option Nat :=
  if digits.length = 4 ∧ ∀ digit ∈ digits, hexValue digit ≠ none then
    some (Nat.ofDigits 16 (digits.map fun digit => (hexValue digit).getD 0).reverse)
  else none

/-- What stands between the quotes of a string, and the bytes of its characters.  A
character above the basic plane is written as a pair of surrogates. -/
inductive Chars : List UInt8 → List UInt8 → Prop where
  | nil : Chars [] []
  | verbatim {byte : UInt8} {raw content : List UInt8} (plain : isVerbatim byte = true)
      (more : Chars raw content) : Chars (byte :: raw) (byte :: content)
  | escape {byte meant : UInt8} {raw content : List UInt8} (named : escaped byte = some meant)
      (more : Chars raw content) : Chars (92 :: byte :: raw) (meant :: content)
  | unit {digits : List UInt8} {code : Nat} {raw content : List UInt8}
      (hex : codeUnit digits = some code) (scalar : code < 0xD800 ∨ 0xE000 ≤ code)
      (more : Chars raw content) :
      Chars (92 :: 117 :: (digits ++ raw)) (String.utf8EncodeChar (Char.ofNat code) ++ content)
  | pair {first second : List UInt8} {high low : Nat} {raw content : List UInt8}
      (hexHigh : codeUnit first = some high) (isHigh : 0xD800 ≤ high ∧ high < 0xDC00)
      (hexLow : codeUnit second = some low) (isLow : 0xDC00 ≤ low ∧ low < 0xE000)
      (more : Chars raw content) :
      Chars (92 :: 117 :: (first ++ 92 :: 117 :: (second ++ raw)))
        (String.utf8EncodeChar
          (Char.ofNat (0x10000 + (high - 0xD800) * 0x400 + (low - 0xDC00))) ++ content)

/-! ## Numbers -/

def isDecimal (byte : UInt8) : Bool := 48 ≤ byte && byte ≤ 57

/-- At least one decimal digit. -/
def IsDigits (digits : List UInt8) : Prop := digits ≠ [] ∧ ∀ byte ∈ digits, isDecimal byte = true

def decimal (digits : List UInt8) : Nat :=
  Nat.ofDigits 10 (digits.map fun byte => byte.toNat - 48).reverse

/-- A fraction, with its digits as a number and their count. -/
inductive Fraction : List UInt8 → Nat → Nat → Prop where
  | none : Fraction [] 0 0
  | digits {digits : List UInt8} (isDigits : IsDigits digits) :
      Fraction (46 :: digits) (decimal digits) digits.length

inductive Exponent : List UInt8 → Int → Prop where
  | none : Exponent [] 0
  | unsigned {mark : UInt8} {digits : List UInt8} (isMark : mark = 101 ∨ mark = 69)
      (isDigits : IsDigits digits) : Exponent (mark :: digits) (decimal digits)
  | positive {mark : UInt8} {digits : List UInt8} (isMark : mark = 101 ∨ mark = 69)
      (isDigits : IsDigits digits) : Exponent (mark :: 43 :: digits) (decimal digits)
  | negative {mark : UInt8} {digits : List UInt8} (isMark : mark = 101 ∨ mark = 69)
      (isDigits : IsDigits digits) : Exponent (mark :: 45 :: digits) (-decimal digits)

/-- A number without its sign.  Only zero begins with a zero. -/
inductive Magnitude : List UInt8 → ℚ → Prop where
  | parts {whole fraction exponent : List UInt8} {digits places : Nat} {power : Int}
      (isWhole : IsDigits whole) (leading : whole = [48] ∨ whole.head? ≠ some 48)
      (isFraction : Fraction fraction digits places) (isExponent : Exponent exponent power) :
      Magnitude (whole ++ (fraction ++ exponent))
        ((decimal whole + digits / 10 ^ places) * 10 ^ power)

inductive Number : List UInt8 → ℚ → Prop where
  | unsigned {raw : List UInt8} {value : ℚ} (magnitude : Magnitude raw value) : Number raw value
  | negative {raw : List UInt8} {value : ℚ} (magnitude : Magnitude raw value) :
      Number (45 :: raw) (-value)

/-! ## Texts -/

/-- The ways to write a token. -/
def Token.Writes : Token → List UInt8 → Prop
  | .mark punctuation, raw => raw = [punctuation.byte]
  | null, raw => raw = [110, 117, 108, 108]
  | bool value, raw => raw = if value then [116, 114, 117, 101] else [102, 97, 108, 115, 101]
  | number value, raw => Number raw value
  | string content, raw => ∃ body, raw = 34 :: (body ++ [34]) ∧ Chars body content

def isNumberByte (byte : UInt8) : Bool :=
  isDecimal byte || byte == 43 || byte == 45 || byte == 46 || byte == 69 || byte == 101

/-- A number ends where no more of a number follows. -/
def Token.EndsBefore (rest : List UInt8) : Token → Prop
  | number _ => rest.takeWhile isNumberByte = []
  | .mark _ | null | bool _ | string _ => True

def isBlank (byte : UInt8) : Bool := byte == 32 || byte == 9 || byte == 10 || byte == 13

/-- A text is cut into tokens, with blanks between them. -/
inductive Lexes : List UInt8 → List Token → Prop where
  | nil : Lexes [] []
  | blank {byte : UInt8} {rest : List UInt8} {tokens : List Token} (isBlank : isBlank byte = true)
      (more : Lexes rest tokens) : Lexes (byte :: rest) tokens
  | token {raw rest : List UInt8} {token : Token} {tokens : List Token}
      (writes : token.Writes raw) (ends : token.EndsBefore rest) (more : Lexes rest tokens) :
      Lexes (raw ++ rest) (token :: tokens)

def Reads (text : List UInt8) (tokens : List Token) : Prop := IsUtf8 text ∧ Lexes text tokens

/-- **What a text denotes.** -/
def Denotes (text : List UInt8) (value : Value) : Prop := Reads text value.tokens

/-! ## Verbatim strings -/

theorem codeUnit_digits {digits : List UInt8} {code : Nat} (hex : codeUnit digits = some code) :
    digits.length = 4 ∧ ∀ digit ∈ digits, hexValue digit ≠ none := by
  by_contra neither
  rw [codeUnit, if_neg neither] at hex
  cases hex

theorem codeUnit_length {digits : List UInt8} {code : Nat} (hex : codeUnit digits = some code) :
    digits.length = 4 := (codeUnit_digits hex).1

/-- No hexadecimal digit is a quote. -/
theorem codeUnit_quotes {digits : List UInt8} {code : Nat} (hex : codeUnit digits = some code) :
    digits.count 34 = 0 :=
  List.count_eq_zero.mpr fun quote => (codeUnit_digits hex).2 34 quote (by decide)

/-- What escapes do: a string is no longer than what is written, with no fewer quotes, and
of the same length only without escapes. -/
theorem Chars.bounds {raw content : List UInt8} (chars : Chars raw content) :
    content.length ≤ raw.length ∧ raw.count 34 ≤ content.count 34 ∧
      (content.length = raw.length → raw = content ∧ ∀ byte ∈ raw, isVerbatim byte = true) := by
  have short : ∀ code, (String.utf8EncodeChar (Char.ofNat code)).length ≤ 4 := by
    intro code
    rw [String.length_utf8EncodeChar]
    exact Char.utf8Size_le_four _
  induction chars with
  | nil => simp
  | @verbatim byte raw content plain more ih =>
      obtain ⟨length, quotes, same⟩ := ih
      refine ⟨Nat.succ_le_succ length, ?_, ?_⟩
      · simpa [List.count_cons] using quotes
      · intro equal
        obtain ⟨rfl, all⟩ := same (Nat.succ.inj equal)
        exact ⟨rfl, List.forall_mem_cons.mpr ⟨plain, all⟩⟩
  | @escape byte meant raw content named more ih =>
      obtain ⟨length, quotes, -⟩ := ih
      refine ⟨by simp only [List.length_cons]; omega, ?_, ?_⟩
      · have kept : byte = 34 → meant = 34 := by
          rintro rfl
          exact (Option.some.inj named).symm
        rw [List.count_cons_of_ne (by decide)]
        by_cases quote : byte = 34
        · rw [quote, kept quote, List.count_cons_self, List.count_cons_self]
          exact Nat.succ_le_succ quotes
        · rw [List.count_cons_of_ne quote]
          exact quotes.trans (List.count_le_count_cons ..)
      · intro equal
        simp only [List.length_cons] at equal
        omega
  | @unit digits code raw content hex scalar more ih =>
      obtain ⟨length, quotes, -⟩ := ih
      have four := codeUnit_length hex
      have encoded := short code
      have none := codeUnit_quotes hex
      refine ⟨?_, ?_, ?_⟩
      · simp only [List.length_cons, List.length_append]
        omega
      · simp [List.count_append, none]
        omega
      · intro equal
        simp only [List.length_cons, List.length_append] at equal
        omega
  | @pair first second high low raw content hexHigh isHigh hexLow isLow more ih =>
      obtain ⟨length, quotes, -⟩ := ih
      have fourHigh := codeUnit_length hexHigh
      have fourLow := codeUnit_length hexLow
      have encoded := short (0x10000 + (high - 0xD800) * 0x400 + (low - 0xDC00))
      have noneHigh := codeUnit_quotes hexHigh
      have noneLow := codeUnit_quotes hexLow
      refine ⟨?_, ?_, ?_⟩
      · simp only [List.length_cons, List.length_append]
        omega
      · simp [List.count_append, noneHigh, noneLow]
        omega
      · intro equal
        simp only [List.length_cons, List.length_append] at equal
        omega

theorem Chars.of_verbatim {content : List UInt8}
    (plain : ∀ byte ∈ content, isVerbatim byte = true) : Chars content content := by
  induction content with
  | nil => exact .nil
  | cons byte content ih =>
      rw [List.forall_mem_cons] at plain
      exact .verbatim plain.1 (ih plain.2)

/-- **A text between quotes is read as itself only if it needs no escapes.**  What is read
cannot end before the text does, being no longer than what is written, and it cannot go on
behind its closing quote, which would have to be escaped. -/
theorem Chars.eq_of_verbatim {body text rest later : List UInt8} (chars : Chars body text)
    (same : body ++ 34 :: rest = text ++ 34 :: later) :
    body = text ∧ rest = later ∧ ∀ byte ∈ text, isVerbatim byte = true := by
  obtain ⟨length, quotes, verbatim⟩ := chars.bounds
  rw [List.append_eq_append_iff] at same
  rcases same with ⟨between, rfl, tail⟩ | ⟨between, rfl, tail⟩
  · have empty : between = [] := by
      rw [List.length_append] at length
      exact List.eq_nil_of_length_eq_zero (by omega)
    rw [empty] at tail verbatim ⊢
    rw [List.append_nil] at verbatim ⊢
    exact ⟨rfl, (List.cons.inj tail).2, (verbatim rfl).2⟩
  · cases between with
    | nil =>
        rw [List.append_nil] at verbatim ⊢
        exact ⟨rfl, ((List.cons.inj tail).2).symm, (verbatim rfl).2⟩
    | cons quote between =>
        obtain ⟨rfl, -⟩ := List.cons.inj tail
        rw [List.count_append, List.count_cons_self] at quotes
        omega

/-! ## Numbers that are written as digits -/

theorem Magnitude.of_digits {whole : List UInt8} (isWhole : IsDigits whole)
    (leading : whole = [48] ∨ whole.head? ≠ some 48) : Magnitude whole (decimal whole) := by
  have parts := Magnitude.parts isWhole leading .none .none
  simpa using parts

theorem isNumberByte_of_isDecimal {byte : UInt8} (digit : isDecimal byte = true) :
    isNumberByte byte = true := by
  simp [isNumberByte, digit]

theorem Fraction.numberBytes {raw : List UInt8} {digits places : Nat}
    (fraction : Fraction raw digits places) : ∀ byte ∈ raw, isNumberByte byte = true := by
  cases fraction with
  | none => simp
  | digits isDigits =>
      rw [List.forall_mem_cons]
      exact ⟨rfl, fun byte member => isNumberByte_of_isDecimal (isDigits.2 byte member)⟩

theorem Exponent.numberBytes {raw : List UInt8} {power : Int} (exponent : Exponent raw power) :
    ∀ byte ∈ raw, isNumberByte byte = true := by
  have mark : ∀ {byte : UInt8}, byte = 101 ∨ byte = 69 → isNumberByte byte = true := by
    rintro byte (rfl | rfl) <;> rfl
  have all : ∀ {digits : List UInt8}, IsDigits digits → ∀ byte ∈ digits, isNumberByte byte = true :=
    fun isDigits byte member => isNumberByte_of_isDecimal (isDigits.2 byte member)
  cases exponent with
  | none => simp
  | unsigned isMark isDigits => exact List.forall_mem_cons.mpr ⟨mark isMark, all isDigits⟩
  | positive isMark isDigits =>
      exact List.forall_mem_cons.mpr ⟨mark isMark, List.forall_mem_cons.mpr ⟨rfl, all isDigits⟩⟩
  | negative isMark isDigits =>
      exact List.forall_mem_cons.mpr ⟨mark isMark, List.forall_mem_cons.mpr ⟨rfl, all isDigits⟩⟩

theorem Magnitude.numberBytes {raw : List UInt8} {value : ℚ} (magnitude : Magnitude raw value) :
    raw ≠ [] ∧ ∀ byte ∈ raw, isNumberByte byte = true := by
  obtain ⟨isWhole, -, fraction, exponent⟩ := magnitude
  refine ⟨List.append_ne_nil_of_left_ne_nil isWhole.1 _, ?_⟩
  intro byte member
  rcases List.mem_append.mp member with whole | more
  · exact isNumberByte_of_isDecimal (isWhole.2 byte whole)
  · rcases List.mem_append.mp more with inFraction | inExponent
    · exact fraction.numberBytes byte inFraction
    · exact exponent.numberBytes byte inExponent

theorem Number.numberBytes {raw : List UInt8} {value : ℚ} (number : Number raw value) :
    raw ≠ [] ∧ ∀ byte ∈ raw, isNumberByte byte = true := by
  cases number with
  | unsigned magnitude => exact magnitude.numberBytes
  | negative magnitude =>
      exact ⟨List.cons_ne_nil _ _, List.forall_mem_cons.mpr ⟨rfl, magnitude.numberBytes.2⟩⟩

/-! ## Reading a token -/

theorem not_isBlank_of_isNumberByte {byte : UInt8} (inNumber : isNumberByte byte = true) :
    isBlank byte = false := by
  have all : ∀ code : Fin 256, isNumberByte (UInt8.ofFin code) = true →
      isBlank (UInt8.ofFin code) = false := by
    decide +kernel
  exact all byte.toFin inNumber

/-- No token begins with a blank. -/
theorem Token.Writes.head {token : Token} {raw : List UInt8} (writes : token.Writes raw) :
    ∃ byte more, raw = byte :: more ∧ isBlank byte = false := by
  cases token with
  | mark punctuation => exact ⟨_, _, writes, by cases punctuation <;> rfl⟩
  | null => exact ⟨_, _, writes, rfl⟩
  | bool value =>
      cases value with
      | false => exact ⟨_, _, writes, rfl⟩
      | true => exact ⟨_, _, writes, rfl⟩
  | number value =>
      obtain ⟨nonempty, all⟩ := Number.numberBytes writes
      obtain ⟨byte, more, rfl⟩ := List.exists_cons_of_ne_nil nonempty
      exact ⟨byte, more, rfl, not_isBlank_of_isNumberByte (all byte (List.mem_cons_self ..))⟩
  | string content =>
      obtain ⟨body, rfl, -⟩ := writes
      exact ⟨34, _, rfl, rfl⟩

theorem lexes_blank_iff {byte : UInt8} (blank : isBlank byte = true) {rest : List UInt8}
    {tokens : List Token} : Lexes (byte :: rest) tokens ↔ Lexes rest tokens := by
  constructor
  · generalize same : byte :: rest = text
    intro lexes
    cases lexes with
    | nil => cases same
    | blank isBlank more =>
        obtain ⟨-, rfl⟩ := List.cons.inj same
        exact more
    | token writes ends more =>
        obtain ⟨first, others, rfl, notBlank⟩ := writes.head
        obtain ⟨rfl, -⟩ := List.cons.inj same
        exact absurd blank (by simp [notBlank])
  · exact .blank blank

/-- The first token of a text that does not begin with a blank. -/
theorem Lexes.first {byte : UInt8} (notBlank : isBlank byte = false) {text : List UInt8}
    {token : Token} {tokens : List Token} (lexes : Lexes (byte :: text) (token :: tokens)) :
    ∃ raw rest, byte :: text = raw ++ rest ∧ token.Writes raw ∧ token.EndsBefore rest ∧
      Lexes rest tokens := by
  generalize whole : byte :: text = all at lexes
  cases lexes with
  | blank isBlank more =>
      obtain ⟨rfl, -⟩ := List.cons.inj whole
      exact absurd isBlank (by simp [notBlank])
  | token writes ends more => exact ⟨_, _, rfl, writes, ends, more⟩

/-- A token that can be cut from a text in one way only. -/
theorem lexes_token_iff {token : Token} {raw rest : List UInt8} {tokens : List Token}
    (writes : token.Writes raw) (ends : token.EndsBefore rest)
    (only : ∀ other later, token.Writes other → token.EndsBefore later →
      raw ++ rest = other ++ later → raw = other) :
    Lexes (raw ++ rest) (token :: tokens) ↔ Lexes rest tokens := by
  constructor
  · intro lexes
    obtain ⟨byte, more, begins, notBlank⟩ := writes.head
    have first := @Lexes.first byte notBlank (more ++ rest) token tokens
    rw [← List.cons_append, ← begins] at first
    obtain ⟨other, later, same, written, ended, behind⟩ := first lexes
    rw [only other later written ended same] at same
    exact List.append_cancel_left same ▸ behind
  · exact .token writes ends

/-- A number is as long as its bytes go on. -/
theorem lexes_number_iff {value : ℚ} {raw rest : List UInt8} {tokens : List Token}
    (number : Number raw value) (ends : rest.takeWhile isNumberByte = []) :
    Lexes (raw ++ rest) (.number value :: tokens) ↔ Lexes rest tokens := by
  have longest : ∀ {raw rest : List UInt8}, Number raw value → rest.takeWhile isNumberByte = [] →
      (raw ++ rest).takeWhile isNumberByte = raw := by
    intro raw rest number ends
    rw [List.takeWhile_append_of_pos number.numberBytes.2, ends, List.append_nil]
  refine lexes_token_iff number ends ?_
  intro other later written ended same
  rw [← longest number ends, same, longest written ended]

theorem lexes_string_iff {content rest : List UInt8} {tokens : List Token} :
    Lexes (34 :: (content ++ 34 :: rest)) (.string content :: tokens) ↔
      (∀ byte ∈ content, isVerbatim byte = true) ∧ Lexes rest tokens := by
  constructor
  · intro lexes
    obtain ⟨raw, later, same, ⟨body, rfl, chars⟩, -, more⟩ := lexes.first rfl
    rw [List.cons_append, List.append_assoc, List.singleton_append, List.cons.injEq] at same
    obtain ⟨-, rfl, verbatim⟩ := chars.eq_of_verbatim same.2.symm
    exact ⟨verbatim, more⟩
  · rintro ⟨verbatim, more⟩
    have token : Lexes (34 :: (content ++ [34]) ++ rest) (.string content :: tokens) :=
      .token ⟨content, rfl, .of_verbatim verbatim⟩ trivial more
    simpa using token

/-- A string that is read as itself. -/
def IsPlain (content : List UInt8) : Prop :=
  IsUtf8 content ∧ ∀ byte ∈ content, isVerbatim byte = true

section

variable {rest : List UInt8} {tokens : List Token}

theorem reads_nil : Reads [] [] := ⟨isUtf8_nil, .nil⟩

theorem reads_blank_iff {byte : UInt8} (blank : isBlank byte = true) :
    Reads (byte :: rest) tokens ↔ Reads rest tokens := by
  have all : ∀ code : Fin 256, isBlank (UInt8.ofFin code) = true → UInt8.ofFin code < 128 := by
    decide +kernel
  have ascii : byte < 128 := all byte.toFin blank
  rw [Reads, Reads, isUtf8_cons_iff ascii, lexes_blank_iff blank]

theorem reads_mark_iff (punctuation : Mark) :
    Reads (punctuation.byte :: rest) (.mark punctuation :: tokens) ↔ Reads rest tokens := by
  have ascii : punctuation.byte < 128 := by cases punctuation <;> decide
  have lexes : Lexes ([punctuation.byte] ++ rest) (.mark punctuation :: tokens) ↔
      Lexes rest tokens :=
    lexes_token_iff rfl trivial fun other later written _ _ => written.symm
  rw [Reads, Reads, isUtf8_cons_iff ascii, ← lexes, List.singleton_append]

theorem reads_bool_iff {value : Bool} {raw : List UInt8} (writes : (Token.bool value).Writes raw) :
    Reads (raw ++ rest) (.bool value :: tokens) ↔ Reads rest tokens := by
  have ascii : ∀ byte ∈ raw, byte < 128 := by
    rw [show raw = _ from writes]
    cases value <;> decide +kernel
  have lexes : Lexes (raw ++ rest) (.bool value :: tokens) ↔ Lexes rest tokens :=
    lexes_token_iff writes trivial fun other later written _ _ =>
      (show raw = _ from writes).trans written.symm
  rw [Reads, Reads, isUtf8_append_iff ascii, lexes]

theorem reads_number_iff {value : ℚ} {raw : List UInt8} (number : Number raw value)
    (ends : rest.takeWhile isNumberByte = []) :
    Reads (raw ++ rest) (.number value :: tokens) ↔ Reads rest tokens := by
  have all : ∀ code : Fin 256, isNumberByte (UInt8.ofFin code) = true →
      UInt8.ofFin code < 128 := by
    decide +kernel
  have ascii : ∀ byte ∈ raw, byte < 128 := fun byte member =>
    all byte.toFin (number.numberBytes.2 byte member)
  rw [Reads, Reads, isUtf8_append_iff ascii, lexes_number_iff number ends]

/-- **A text between quotes is that string if and only if it is plain.** -/
theorem reads_string_iff {content : List UInt8} :
    Reads (34 :: (content ++ 34 :: rest)) (.string content :: tokens) ↔
      IsPlain content ∧ Reads rest tokens := by
  rw [Reads, Reads, IsPlain, isUtf8_cons_iff (by decide), isUtf8_append_cons_iff (by decide),
    lexes_string_iff]
  exact and_and_and_comm

end

end Foundation.Json
