import Xul.Foundation.Framing
import Xul.Std.Bytes

/-!
# Tokens

`string_tokenizer_impl` appends what it is fed to its data and keeps the offset up to which
tokens were taken.  `next_token` searches for the delimiter from there.  Only when the
delimiter is included in the token does it move the offset behind the delimiter: otherwise
the next token is empty, and so is every one after it.

The length of a token passes through an `int`, and a piece that is too long for one takes the
offset back, or below zero, behind the end of the data.  `tokenizes_iff` says which texts are
tokenized nevertheless: those without a delimiter, and those whose pieces are short enough
when the delimiter is included, except that the offset may be lost with the last byte.
-/

set_option autoImplicit false

namespace Xul

open Foundation

/-- `string_tokenizer_impl`. -/
structure StringTokenizer where
  delimiter : Bytes
  data : Bytes
  offset : Nat
  includeDelimiter : Bool
deriving DecidableEq

namespace StringTokenizer

def create : StringTokenizer := ⟨[], [], 0, false⟩

def reset (tokenizer : StringTokenizer) : StringTokenizer := { tokenizer with data := [], offset := 0 }

def setIncludeDelimiter (tokenizer : StringTokenizer) (includes : Bool) : StringTokenizer :=
  { tokenizer with includeDelimiter := includes }

def setDelimiter (tokenizer : StringTokenizer) (delimiter : Bytes) : StringTokenizer :=
  { tokenizer with delimiter }

def feed (tokenizer : StringTokenizer) (data : Bytes) : StringTokenizer :=
  { tokenizer with data := tokenizer.data ++ data }

/-- A step of the offset, which is a `size_t`. -/
def advance (tokenizer : StringTokenizer) (length : Int) : StringTokenizer :=
  { tokenizer with offset := (toSizeT (tokenizer.offset + length)).toNat }

/-- `next_token` -/
def nextToken (tokenizer : StringTokenizer) : Option Bytes × StringTokenizer :=
  if tokenizer.data = [] ∨ tokenizer.data.length ≤ tokenizer.offset then (none, tokenizer)
  else
    let data := tokenizer.data.drop tokenizer.offset
    match firstOccurrence tokenizer.delimiter data with
    | none => (none, tokenizer)
    | some delimiterPos =>
        -- `int token_len = delimiter_pos - data`
        let moved := tokenizer.advance (toInt delimiterPos)
        if tokenizer.includeDelimiter then
          (some (data.take (delimiterPos + tokenizer.delimiter.length)),
            moved.advance tokenizer.delimiter.length)
        else (some (data.take delimiterPos), moved)

/-- `get_remains` -/
def getRemains (tokenizer : StringTokenizer) : Option Bytes :=
  if tokenizer.data = [] ∨ tokenizer.data.length ≤ tokenizer.offset then none
  else some (tokenizer.data.drop tokenizer.offset)

/-! ## Use -/

/-- The tokens that a caller gets who feeds the tokenizer and asks it for tokens. -/
def run : StringTokenizer → List (Pull UInt8) → List Bytes × StringTokenizer
  | tokenizer, [] => ([], tokenizer)
  | tokenizer, .feed data :: events => run (tokenizer.feed data) events
  | tokenizer, .read :: events =>
      match tokenizer.nextToken with
      | (none, tokenizer) => run tokenizer events
      | (some token, tokenizer) =>
          let later := run tokenizer events
          (token :: later.1, later.2)

/-- Asking again and again gives these tokens, and then nothing. -/
inductive Drains : StringTokenizer → List Bytes → StringTokenizer → Prop
  | done {tokenizer left : StringTokenizer} (nothing : tokenizer.nextToken = (none, left)) :
      Drains tokenizer [] left
  | token {tokenizer next left : StringTokenizer} {token : Bytes} {tokens : List Bytes}
      (found : tokenizer.nextToken = (some token, next)) (later : Drains next tokens left) :
      Drains tokenizer (token :: tokens) left

/-- A tokenizer as its owner sets it up. -/
def configured (delimiter : Bytes) (includes : Bool) : StringTokenizer :=
  (create.setDelimiter delimiter).setIncludeDelimiter includes

/-- The pieces of a text that the delimiter ends, without the delimiter. -/
def pieces (delimiter : Bytes) (nonempty : delimiter ≠ []) (text : Bytes) : List Bytes :=
  ((Framing.delimited delimiter nonempty).drain text).1

/-- What stands behind the last delimiter. -/
def rest (delimiter : Bytes) (nonempty : delimiter ≠ []) (text : Bytes) : Bytes :=
  ((Framing.delimited delimiter nonempty).drain text).2

/-- What of the delimiter belongs to a token. -/
def kept (delimiter : Bytes) (includes : Bool) : Bytes := if includes then delimiter else []

/-- A piece as the caller should get it. -/
def asToken (delimiter : Bytes) (includes : Bool) (piece : Bytes) : Bytes :=
  piece ++ kept delimiter includes

/-- What remains is what is left. -/
def Leaves (tokenizer : StringTokenizer) (left : Bytes) : Prop :=
  tokenizer.getRemains = if left = [] then none else some left

/-- However the text is fed and tokens are taken meanwhile, the tokens end, they are the
pieces of the text, and the remains are what stands behind the last delimiter. -/
def Tokenizes (delimiter : Bytes) (nonempty : delimiter ≠ []) (includes : Bool) (text : Bytes) :
    Prop :=
  ∀ events, fed events = text →
    ∃ tokens left, Drains ((configured delimiter includes).run events).2 tokens left ∧
      ((configured delimiter includes).run events).1 ++ tokens =
        (pieces delimiter nonempty text).map (asToken delimiter includes) ∧
      left.Leaves (rest delimiter nonempty text)

/-! ## One token -/

variable {delimiter data left : Bytes} {offset : Nat} {includes : Bool}

/-- What is before `left` has been taken from the data. -/
structure At (data : Bytes) (offset : Nat) (left : Bytes) : Prop where
  inside : offset ≤ data.length
  left : data.drop offset = left
  fits : data.length < 2 ^ 63

theorem At.length (at_left : At data offset left) : offset + left.length = data.length := by
  have inside := at_left.inside
  rw [← at_left.left, List.length_drop]
  omega

theorem At.spent_iff (at_left : At data offset left) :
    data = [] ∨ data.length ≤ offset ↔ left = [] := by
  have length := at_left.length
  rw [← List.length_eq_zero_iff, ← List.length_eq_zero_iff]
  omega

theorem At.leaves (at_left : At data offset left) :
    Leaves ⟨delimiter, data, offset, includes⟩ left := by
  rw [Leaves, getRemains, at_left.left]
  simp only [at_left.spent_iff]

theorem At.append (at_left : At data offset left) {more : Bytes}
    (fits : (data ++ more).length < 2 ^ 63) : At (data ++ more) offset (left ++ more) where
  inside := by
    rw [List.length_append]
    exact at_left.inside.trans (Nat.le_add_right ..)
  left := by rw [List.drop_append_of_le_length at_left.inside, at_left.left]
  fits := fits

theorem At.drop (at_left : At data offset left) {size : Nat} (within : size ≤ left.length) :
    At data (offset + size) (left.drop size) where
  inside := by
    have length := at_left.length
    omega
  left := by rw [← at_left.left, List.drop_drop]
  fits := at_left.fits

/-- An offset behind the data gives neither tokens nor remains. -/
theorem leaves_of_lost (lost : data.length ≤ offset) :
    Leaves ⟨delimiter, data, offset, includes⟩ [] := if_pos (.inr lost)

theorem nextToken_of_lost (lost : data.length ≤ offset) :
    nextToken ⟨delimiter, data, offset, includes⟩ = (none, ⟨delimiter, data, offset, includes⟩) :=
  if_pos (.inr lost)

theorem At.nextToken_of_none (at_left : At data offset left)
    (absent : firstOccurrence delimiter left = none) :
    nextToken ⟨delimiter, data, offset, includes⟩ =
      (none, ⟨delimiter, data, offset, includes⟩) := by
  rw [nextToken, at_left.left]
  split
  · rfl
  · simp only [absent]

/-- Where the offset is led by a delimiter, before it is stored in a `size_t`. -/
def landing (delimiter : Bytes) (includes : Bool) (offset delimiterPos : Nat) : Int :=
  offset + toInt delimiterPos + (kept delimiter includes).length

/-- What the offset is stored as. -/
def stored (landing : Int) : Nat := (toSizeT landing).toNat

theorem stored_of_inside {size : Nat} (inside : size ≤ data.length)
    (fits : data.length < 2 ^ 63) : stored size = size := by
  rw [stored, toSizeT_of_nonneg (by omega) (by omega), Int.toNat_natCast]

/-- A landing below zero is behind the data. -/
theorem lost_of_neg {landing : Int} (low : -2 ^ 31 ≤ landing) (negative : landing < 0)
    (fits : data.length < 2 ^ 63) : data.length ≤ stored landing := by
  rw [stored, toSizeT]
  omega

/-- Two steps of the offset are one. -/
theorem stored_add (first second : Int) : stored (stored first + second) = stored (first + second) := by
  have nonneg : 0 ≤ toSizeT first := Int.emod_nonneg _ (by decide)
  have same : toSizeT (toSizeT first + second) = toSizeT (first + second) := Int.emod_add_emod ..
  simp only [stored, Int.toNat_of_nonneg nonneg, same]

/-- **One token.** -/
theorem At.nextToken_of_some (at_left : At data offset left) (nonempty : delimiter ≠ [])
    {delimiterPos : Nat} (found : firstOccurrence delimiter left = some delimiterPos) :
    nextToken ⟨delimiter, data, offset, includes⟩ =
      (some (asToken delimiter includes (left.take delimiterPos)),
        ⟨delimiter, data, stored (landing delimiter includes offset delimiterPos), includes⟩) := by
  have inside := (firstOccurrence_add_length_le found).resolve_right nonempty
  have positive := List.length_pos_iff.mpr nonempty
  have more : ¬ (data = [] ∨ data.length ≤ offset) := by
    rw [at_left.spent_iff, ← List.length_eq_zero_iff]
    omega
  obtain ⟨after, behind⟩ := (firstOccurrence_eq_some_iff.mp found).1
  have token : left.take (delimiterPos + delimiter.length) =
      left.take delimiterPos ++ delimiter := by
    rw [List.take_add, ← behind, List.take_left]
  rw [nextToken, if_neg more, at_left.left]
  simp only [found]
  cases includes with
  | true =>
      have twice := stored_add (offset + toInt delimiterPos) delimiter.length
      simp only [if_true, token, advance]
      exact congrArg (fun offset => (_, StringTokenizer.mk _ _ offset _)) twice
  | false =>
      simp only [asToken, landing, kept, Bool.false_eq_true, if_false, List.append_nil,
        List.length_nil, Nat.cast_zero, add_zero]
      rfl

/-- An `int` holds a length, or a multiple of 2^32 less. -/
theorem toInt_natCast_turns (length : Nat) :
    ∃ turns : Int, 0 ≤ turns ∧ toInt length = length - 2 ^ 32 * turns ∧ -2 ^ 31 ≤ toInt length ∧
      toInt length < 2 ^ 31 := by
  have low := @Int.le_bmod length (2 ^ 32) (by decide)
  have high := toInt_lt length
  have turns : toInt length = length - 2 ^ 32 * Int.bdiv length (2 ^ 32) :=
    Int.bmod_eq_self_sub_mul_bdiv ..
  have least : -2 ^ 31 ≤ toInt length := by
    rw [toInt]
    omega
  exact ⟨_, by omega, turns, least, high⟩

theorem landing_of_small {delimiterPos : Nat} (small : delimiterPos < 2 ^ 31) :
    landing delimiter includes offset delimiterPos =
      (offset + delimiterPos + (kept delimiter includes).length : Nat) := by
  rw [landing, toInt_natCast small]
  push_cast
  rfl

/-! ## Where all is well -/

/-- Every piece is stepped over with its delimiter; or it is the last one, nothing follows
it, and the offset is led below zero. -/
def Steady (delimiter : Bytes) (includes : Bool) (rest : Bytes) : Nat → List Bytes → Prop
  | _, [] => True
  | offset, piece :: pieces =>
      includes = true ∧ piece.length < 2 ^ 31 ∧
          Steady delimiter includes rest (offset + (piece.length + delimiter.length)) pieces ∨
        pieces = [] ∧ rest = [] ∧ landing delimiter includes offset piece.length < 0

section

variable {nonempty : delimiter ≠ []} {size : Nat} {piece : Bytes}

/-- What is found in front of what is left. -/
theorem decode_delimited
    (found : (Framing.delimited delimiter nonempty).decode left = some (size, piece)) :
    firstOccurrence delimiter left = some piece.length ∧
      size = piece.length + delimiter.length ∧ left.take piece.length = piece ∧
      size ≤ left.length := by
  have within := ((Framing.delimited delimiter nonempty).inside found).2
  obtain ⟨delimiterPos, first, same⟩ := Option.map_eq_some_iff.mp found
  cases same
  have length : (left.take delimiterPos).length = delimiterPos :=
    List.length_take_of_le ((Nat.le_add_right ..).trans within)
  rw [length]
  exact ⟨first, rfl, rfl, within⟩

theorem At.nextToken_of_decode (at_left : At data offset left)
    (found : (Framing.delimited delimiter nonempty).decode left = some (size, piece)) :
    nextToken ⟨delimiter, data, offset, includes⟩ = (some (asToken delimiter includes piece),
      ⟨delimiter, data, stored (landing delimiter includes offset piece.length), includes⟩) := by
  obtain ⟨first, -, isPiece, -⟩ := decode_delimited found
  rw [at_left.nextToken_of_some nonempty first, isPiece]

/-- A short piece with its delimiter is stepped over. -/
theorem At.stored_of_small (at_left : At data offset left)
    (found : (Framing.delimited delimiter nonempty).decode left = some (size, piece))
    (small : piece.length < 2 ^ 31) :
    stored (landing delimiter true offset piece.length) = offset + size := by
  obtain ⟨-, isSize, -, within⟩ := decode_delimited found
  have length := at_left.length
  rw [landing_of_small small]
  change stored (offset + piece.length + delimiter.length : Nat) = _
  rw [@stored_of_inside data _ (by omega) at_left.fits, isSize, Nat.add_assoc]

theorem At.lost_of_landing (at_left : At data offset left)
    (negative : landing delimiter includes offset piece.length < 0) :
    data.length ≤ stored (landing delimiter includes offset piece.length) := by
  obtain ⟨turns, -, -, least, -⟩ := toInt_natCast_turns piece.length
  refine lost_of_neg ?_ negative at_left.fits
  rw [landing]
  omega

end

/-- Asking to the end gives the pieces of what is left. -/
theorem At.drains {nonempty : delimiter ≠ []} (at_left : At data offset left)
    (steady : Steady delimiter includes (rest delimiter nonempty left) offset
      (pieces delimiter nonempty left)) :
    ∃ last, Drains ⟨delimiter, data, offset, includes⟩
        ((pieces delimiter nonempty left).map (asToken delimiter includes)) last ∧
      last.Leaves (rest delimiter nonempty left) := by
  rw [pieces, rest] at *
  induction left using @Framing.drain_induction _ _ (Framing.delimited delimiter nonempty)
    generalizing offset with
  | left symbols none =>
      rw [Framing.drain_of_none none]
      have absent := Option.map_eq_none_iff.mp none
      exact ⟨_, .done (at_left.nextToken_of_none absent), at_left.leaves⟩
  | message symbols size piece found later =>
      have next := @At.nextToken_of_decode _ _ _ _ includes _ _ _ at_left found
      obtain ⟨-, isSize, -, within⟩ := decode_delimited found
      rw [Framing.drain_of_some found] at steady ⊢
      rcases steady with ⟨rfl, small, steady⟩ | ⟨none, empty, negative⟩
      · rw [at_left.stored_of_small found small] at next
        rw [← isSize] at steady
        obtain ⟨last, drains, leaves⟩ := later (at_left.drop within) steady
        exact ⟨last, .token next drains, leaves⟩
      · have isEmpty : ((Framing.delimited delimiter nonempty).drain (symbols.drop size)).2 = [] :=
          empty
        simp only [none, isEmpty, List.map_cons, List.map_nil]
        have lost := at_left.lost_of_landing negative
        exact ⟨_, .token next (.done (nextToken_of_lost lost)), leaves_of_lost lost⟩

theorem run_of_lost {events : List (Pull UInt8)} (lost : data.length ≤ offset)
    (nothing : fed events = []) :
    run ⟨delimiter, data, offset, includes⟩ events = ([], ⟨delimiter, data, offset, includes⟩) := by
  induction events with
  | nil => rfl
  | cons event events ih =>
      cases event with
      | feed more =>
          obtain ⟨rfl, nothing⟩ := List.append_eq_nil_iff.mp nothing
          rw [run, feed, List.append_nil]
          exact ih nothing
      | read =>
          rw [run, nextToken_of_lost lost]
          exact ih nothing

/-- What a caller has got and still gets, and what then remains. -/
theorem At.tokenizes {nonempty : delimiter ≠ []} {events : List (Pull UInt8)}
    (at_left : At data offset left) (fits : (data ++ fed events).length < 2 ^ 63)
    (steady : Steady delimiter includes (rest delimiter nonempty (left ++ fed events)) offset
      (pieces delimiter nonempty (left ++ fed events))) :
    ∃ tokens last, Drains (run ⟨delimiter, data, offset, includes⟩ events).2 tokens last ∧
      (run ⟨delimiter, data, offset, includes⟩ events).1 ++ tokens =
        (pieces delimiter nonempty (left ++ fed events)).map (asToken delimiter includes) ∧
      last.Leaves (rest delimiter nonempty (left ++ fed events)) := by
  induction events generalizing data offset left with
  | nil =>
      rw [fed, List.append_nil] at steady ⊢
      obtain ⟨last, drains, leaves⟩ := at_left.drains steady
      exact ⟨_, last, drains, rfl, leaves⟩
  | cons event events ih =>
      cases event with
      | feed more =>
          rw [fed, ← List.append_assoc] at fits steady ⊢
          have shorter : (data ++ more).length < 2 ^ 63 := by
            rw [List.length_append] at fits
            omega
          exact ih (at_left.append shorter) fits steady
      | read =>
          rw [fed] at fits steady ⊢
          cases found : (Framing.delimited delimiter nonempty).decode left with
          | none =>
              have absent := Option.map_eq_none_iff.mp found
              rw [run, at_left.nextToken_of_none absent]
              exact ih at_left fits steady
          | some pair =>
              obtain ⟨size, piece⟩ := pair
              have next := @At.nextToken_of_decode _ _ _ _ includes _ _ _ at_left found
              obtain ⟨-, isSize, -, within⟩ := decode_delimited found
              have whole := Framing.drain_of_some (Framing.stable _ found (fed events))
              rw [List.drop_append_of_le_length within] at whole
              rw [pieces, rest, whole] at steady
              rw [pieces, rest, whole, run, next]
              rcases steady with ⟨rfl, small, steady⟩ | ⟨none, empty, negative⟩
              · rw [at_left.stored_of_small found small]
                rw [← isSize] at steady
                obtain ⟨tokens, last, drains, same, leaves⟩ :=
                  ih (at_left.drop within) fits steady
                exact ⟨tokens, last, drains, congrArg (List.cons _) same, leaves⟩
              · have lost := at_left.lost_of_landing negative
                have unread := (Framing.drain_snd_of_nil none).symm.trans empty
                obtain ⟨-, nothing⟩ := List.append_eq_nil_iff.mp unread
                have spent := @run_of_lost delimiter _ _ includes _ lost nothing
                have isEmpty : ((Framing.delimited delimiter nonempty).drain
                  (left.drop size ++ fed events)).2 = [] := empty
                simp only [spent, none, isEmpty]
                exact ⟨[], _, .done (nextToken_of_lost lost), rfl, leaves_of_lost lost⟩

/-! ## What goes wrong otherwise -/

/-- Searching from one offset finds the delimiter at another. -/
structure FirstAt (delimiter data : Bytes) (offset stop : Nat) : Prop where
  le : offset ≤ stop
  standing : delimiter <+: data.drop stop
  least : ∀ earlier, offset ≤ earlier → earlier < stop → ¬ delimiter <+: data.drop earlier

theorem firstAt_of_some {delimiterPos : Nat}
    (found : firstOccurrence delimiter (data.drop offset) = some delimiterPos) :
    FirstAt delimiter data offset (offset + delimiterPos) := by
  obtain ⟨standing, least⟩ := firstOccurrence_eq_some_iff.mp found
  refine ⟨Nat.le_add_right .., ?_, ?_⟩
  · rwa [List.drop_drop] at standing
  · intro earlier behind before
    have absent := least (earlier - offset) (by omega)
    rwa [List.drop_drop, Nat.add_sub_cancel' behind] at absent

/-- Two searches that start before each other's ends find the same. -/
theorem FirstAt.unique {other stop otherStop : Nat} (first : FirstAt delimiter data offset stop)
    (second : FirstAt delimiter data other otherStop) (otherBefore : other ≤ stop)
    (before : offset ≤ otherStop) : otherStop = stop := by
  refine le_antisymm ?_ ?_
  · by_contra later
    exact second.least stop otherBefore (not_le.mp later) first.standing
  · by_contra later
    exact first.least otherStop before (not_le.mp later) second.standing

/-- The offset is not before the place to which a piece that was too long led it. -/
def Astray (delimiter : Bytes) (includes : Bool) (data : Bytes) (offset : Nat) : Prop :=
  ∃ origin length : Nat, FirstAt delimiter data origin (origin + length) ∧ 2 ^ 31 ≤ length ∧
    0 ≤ landing delimiter includes origin length ∧
    landing delimiter includes origin length ≤ offset

/-- **An offset that has gone astray is never led below zero.** -/
theorem Astray.landing {delimiterPos : Nat} (astray : Astray delimiter includes data offset)
    (first : FirstAt delimiter data offset (offset + delimiterPos)) :
    0 ≤ StringTokenizer.landing delimiter includes offset delimiterPos ∧
      Astray delimiter includes data
        (StringTokenizer.landing delimiter includes offset delimiterPos).toNat := by
  obtain ⟨origin, length, isFirst, large, nonneg, behind⟩ := astray
  obtain ⟨turns, -, eq, low, high⟩ := toInt_natCast_turns delimiterPos
  obtain ⟨turns', -, eq', low', high'⟩ := toInt_natCast_turns length
  have kept : ∀ later : Nat, offset ≤ later → Astray delimiter includes data later :=
    fun later le => ⟨origin, length, isFirst, large, nonneg, by omega⟩
  rcases Nat.lt_or_ge delimiterPos (2 ^ 31) with small | far
  · rw [landing_of_small small]
    refine ⟨Int.natCast_nonneg _, kept _ ?_⟩
    rw [Int.toNat_natCast]
    omega
  · unfold StringTokenizer.landing at nonneg behind ⊢
    rcases Nat.lt_or_ge (origin + length) offset with after | before
    · -- behind the piece there are more than 2^31 bytes to fall back
      refine ⟨by omega, offset, delimiterPos, first, far, ?_, ?_⟩
      · unfold StringTokenizer.landing
        omega
      · unfold StringTokenizer.landing
        omega
    · -- before its end, the same delimiter is found, and the landings differ by whole turns
      have same := isFirst.unique first before (by omega)
      refine ⟨by omega, origin, length, isFirst, large, ?_, ?_⟩
      · unfold StringTokenizer.landing
        omega
      · unfold StringTokenizer.landing
        omega

theorem length_kept_le (delimiter : Bytes) (includes : Bool) :
    (kept delimiter includes).length ≤ delimiter.length := by
  cases includes with
  | false => exact Nat.zero_le _
  | true => exact le_rfl

/-- From an offset that has gone astray the tokens that come to an end cover at least the
data up to that end. -/
theorem Drains.covers (nonempty : delimiter ≠ []) {tokenizer last : StringTokenizer}
    {tokens : List Bytes} (drains : Drains tokenizer tokens last) :
    ∀ {offset}, tokenizer = ⟨delimiter, data, offset, includes⟩ →
      At data offset (data.drop offset) → Astray delimiter includes data offset →
      ∃ final, last = ⟨delimiter, data, final, includes⟩ ∧ At data final (data.drop final) ∧
        final ≤ offset + (tokens.map List.length).sum := by
  induction drains with
  | done nothing =>
      rintro offset rfl at_left astray
      cases found : firstOccurrence delimiter (data.drop offset) with
      | none =>
          cases (at_left.nextToken_of_none found).symm.trans nothing
          exact ⟨offset, rfl, at_left, le_rfl⟩
      | some delimiterPos =>
          exact absurd ((at_left.nextToken_of_some nonempty found).symm.trans nothing) nofun
  | token isToken later ih =>
      rintro offset rfl at_left astray
      cases found : firstOccurrence delimiter (data.drop offset) with
      | none => exact absurd ((at_left.nextToken_of_none found).symm.trans isToken) nofun
      | some delimiterPos =>
          obtain ⟨nonneg, astray⟩ := astray.landing (firstAt_of_some found)
          have within := (firstOccurrence_add_length_le found).resolve_right nonempty
          have length := at_left.length
          have short := length_kept_le delimiter includes
          obtain ⟨turns, least, eq, -, -⟩ := toInt_natCast_turns delimiterPos
          have upto : (landing delimiter includes offset delimiterPos).toNat ≤
              offset + delimiterPos + (kept delimiter includes).length := by
            rw [landing]
            omega
          have stays : stored (landing delimiter includes offset delimiterPos) =
              (landing delimiter includes offset delimiterPos).toNat := by
            rw [stored, toSizeT_of_nonneg nonneg]
            have fits := at_left.fits
            omega
          have next := @At.nextToken_of_some _ _ _ _ includes at_left nonempty _ found
          rw [stays] at next
          obtain ⟨isThis, isNext⟩ := Prod.mk.inj (next.symm.trans isToken)
          obtain ⟨final, isLast, at_final, covered⟩ :=
            ih isNext.symm ⟨by omega, rfl, at_left.fits⟩ astray
          refine ⟨final, isLast, at_final, covered.trans ?_⟩
          rw [← Option.some.inj isThis, List.map_cons, List.sum_cons, asToken, List.length_append,
            List.length_take_of_le (by omega)]
          omega

/-- The pieces with their delimiters and the rest are the text. -/
theorem length_pieces (nonempty : delimiter ≠ []) (text : Bytes) :
    ((pieces delimiter nonempty text).map fun piece => piece.length + delimiter.length).sum +
      (rest delimiter nonempty text).length = text.length := by
  rw [pieces, rest]
  induction text using @Framing.drain_induction _ _ (Framing.delimited delimiter nonempty) with
  | left symbols none =>
      rw [Framing.drain_of_none none]
      exact Nat.zero_add _
  | message symbols size piece found later =>
      obtain ⟨-, isSize, -, within⟩ := decode_delimited found
      rw [Framing.drain_of_some found, List.map_cons, List.sum_cons, Nat.add_assoc, later,
        List.length_drop]
      omega

/-- Tokens are not longer than the pieces with their delimiters. -/
theorem sum_length_asToken_le (pieces : List Bytes) :
    ((pieces.map (asToken delimiter includes)).map List.length).sum ≤
      (pieces.map fun piece => piece.length + delimiter.length).sum := by
  induction pieces with
  | nil => exact le_rfl
  | cons piece pieces ih =>
      have short := length_kept_le delimiter includes
      rw [List.map_cons, List.map_cons, List.map_cons, List.sum_cons, List.sum_cons, asToken,
        List.length_append]
      omega

/-- A tokenizer that answers a token and stays as it is never comes to an end. -/
theorem not_drains_of_same {tokenizer : StringTokenizer} {token : Bytes}
    (same : tokenizer.nextToken = (some token, tokenizer)) {tokens : List Bytes}
    {last : StringTokenizer} : ¬ Drains tokenizer tokens last := by
  intro drains
  induction drains with
  | done nothing => exact absurd (same.symm.trans nothing) nofun
  | token found later ih =>
      cases same.symm.trans found
      exact ih same

/-- The offset stops at a delimiter that is not included. -/
theorem At.not_drains_of_excluded {nonempty : delimiter ≠ []} {size : Nat} {piece : Bytes}
    (at_left : At data offset left)
    (found : (Framing.delimited delimiter nonempty).decode left = some (size, piece))
    (small : piece.length < 2 ^ 31) {tokens : List Bytes} {last : StringTokenizer} :
    ¬ Drains ⟨delimiter, data, stored (landing delimiter false offset piece.length), false⟩
      tokens last := by
  obtain ⟨first, isSize, -, within⟩ := decode_delimited found
  have length := at_left.length
  have stays : stored (landing delimiter false offset piece.length) = offset + piece.length := by
    rw [landing_of_small small]
    exact @stored_of_inside data _ (by change offset + piece.length ≤ _; omega) at_left.fits
  have at_delimiter := @At.drop _ _ _ at_left piece.length (by omega)
  have here : firstOccurrence delimiter (left.drop piece.length) = some 0 :=
    firstOccurrence_eq_some_iff.mpr
      ⟨(firstOccurrence_eq_some_iff.mp first).1, fun earlier before => absurd before (by omega)⟩
  have again := @At.nextToken_of_some _ _ _ _ false at_delimiter nonempty _ here
  have stopped : stored (landing delimiter false (offset + piece.length) 0) =
      offset + piece.length := by
    rw [landing_of_small (by decide)]
    exact @stored_of_inside data _ at_delimiter.inside at_left.fits
  rw [stopped] at again
  rw [stays]
  exact not_drains_of_same again

theorem drains_of_lost {tokens : List Bytes} {last : StringTokenizer}
    (lost : data.length ≤ offset) (drains : Drains ⟨delimiter, data, offset, includes⟩ tokens last) :
    tokens = [] ∧ last = ⟨delimiter, data, offset, includes⟩ := by
  have nothing := @nextToken_of_lost delimiter data offset includes lost
  cases drains with
  | done found => exact ⟨rfl, (Prod.mk.inj (found.symm.trans nothing)).2⟩
  | token found later => exact absurd (found.symm.trans nothing) nofun

theorem Leaves.unique {tokenizer : StringTokenizer} {other : Bytes}
    (leaves : tokenizer.Leaves left) (also : tokenizer.Leaves other) : left = other := by
  have same := leaves.symm.trans also
  split at same
  · next empty =>
      split at same
      · next isEmpty => rw [empty, isEmpty]
      · exact absurd same nofun
  · split at same
    · exact absurd same nofun
    · exact Option.some.inj same

/-- Where a long piece leads the offset to a place in the data, too much comes after it. -/
theorem At.landing_neg {nonempty : delimiter ≠ []} {size : Nat} {piece : Bytes}
    (at_left : At data offset left)
    (found : (Framing.delimited delimiter nonempty).decode left = some (size, piece))
    (large : 2 ^ 31 ≤ piece.length) {last : StringTokenizer}
    (drains : Drains
      ⟨delimiter, data, stored (landing delimiter includes offset piece.length), includes⟩
      ((pieces delimiter nonempty (left.drop size)).map (asToken delimiter includes)) last)
    (leaves : last.Leaves (rest delimiter nonempty (left.drop size))) :
    landing delimiter includes offset piece.length < 0 := by
  by_contra nonneg
  rw [not_lt] at nonneg
  obtain ⟨first, isSize, -, within⟩ := decode_delimited found
  rw [← at_left.left] at first
  obtain ⟨turns, least, eq, -, high⟩ := toInt_natCast_turns piece.length
  have length := at_left.length
  have fits := at_left.fits
  have short := length_kept_le delimiter includes
  obtain ⟨reached, isReached⟩ := Int.eq_ofNat_of_zero_le nonneg
  have before : reached + 1 ≤ offset + size := by
    rw [landing] at isReached
    omega
  have stays : stored (landing delimiter includes offset piece.length) = reached := by
    rw [isReached]
    exact @stored_of_inside data _ (by omega) fits
  have astray : Astray delimiter includes data reached :=
    ⟨offset, piece.length, firstAt_of_some first, large, nonneg, isReached.le⟩
  rw [stays] at drains
  obtain ⟨final, rfl, at_final, covered⟩ :=
    drains.covers nonempty rfl ⟨by omega, rfl, fits⟩ astray
  have lengths := congrArg List.length (leaves.unique at_final.leaves)
  have parts := length_pieces nonempty (left.drop size)
  have shorter := @sum_length_asToken_le delimiter includes
    (pieces delimiter nonempty (left.drop size))
  have end_length := at_final.length
  rw [List.length_drop] at parts
  omega

/-- **Tokens that are right and come to an end** come from steady pieces. -/
theorem At.steady_of_drains {nonempty : delimiter ≠ []} {last : StringTokenizer}
    (at_left : At data offset left)
    (drains : Drains ⟨delimiter, data, offset, includes⟩
      ((pieces delimiter nonempty left).map (asToken delimiter includes)) last)
    (leaves : last.Leaves (rest delimiter nonempty left)) :
    Steady delimiter includes (rest delimiter nonempty left) offset
      (pieces delimiter nonempty left) := by
  induction left using @Framing.drain_induction _ _ (Framing.delimited delimiter nonempty)
    generalizing offset with
  | left symbols none =>
      rw [pieces, Framing.drain_of_none none]
      exact trivial
  | message symbols size piece found later =>
      have whole := Framing.drain_of_some found
      have isPieces : pieces delimiter nonempty symbols =
          piece :: pieces delimiter nonempty (symbols.drop size) := congrArg Prod.fst whole
      have isRest : rest delimiter nonempty symbols =
          rest delimiter nonempty (symbols.drop size) := by rw [rest, whole, rest]
      have next := @At.nextToken_of_decode _ _ _ _ includes _ _ _ at_left found
      obtain ⟨-, isSize, -, within⟩ := decode_delimited found
      rw [isPieces, List.map_cons] at drains
      rw [isRest] at leaves
      rw [isPieces, isRest]
      cases drains with
      | token isToken drains =>
          rw [← (Prod.mk.inj (next.symm.trans isToken)).2] at drains
          rcases Nat.lt_or_ge piece.length (2 ^ 31) with small | large
          · cases includes with
            | true =>
                rw [at_left.stored_of_small found small] at drains
                exact .inl ⟨rfl, small, isSize ▸ later (at_left.drop within) drains leaves⟩
            | false => exact absurd drains (at_left.not_drains_of_excluded found small)
          · have negative := at_left.landing_neg found large drains leaves
            have lost := at_left.lost_of_landing negative
            obtain ⟨none, isLast⟩ := drains_of_lost lost drains
            rw [isLast] at leaves
            exact .inr ⟨List.map_eq_nil_iff.mp none, leaves.unique (leaves_of_lost lost), negative⟩

/-- **Which texts are tokenized.** -/
theorem tokenizes_iff (delimiter : Bytes) (nonempty : delimiter ≠ []) (includes : Bool)
    (text : Bytes) (fits : text.length < 2 ^ 63) :
    Tokenizes delimiter nonempty includes text ↔
      Steady delimiter includes (rest delimiter nonempty text) 0
        (pieces delimiter nonempty text) := by
  have start : At [] 0 [] := ⟨le_rfl, rfl, Nat.two_pow_pos 63⟩
  constructor
  · intro tokenizes
    obtain ⟨tokens, last, drains, same, leaves⟩ := tokenizes [.feed text] (List.append_nil _)
    have at_text : At text 0 text := start.append fits
    rw [show tokens = _ from same] at drains
    exact at_text.steady_of_drains drains leaves
  · rintro steady events rfl
    exact start.tokenizes fits steady

/-- Two lines, with the line feeds. -/
theorem tokenizes_two_lines :
    Tokenizes [10] (List.cons_ne_nil _ _) true [97, 10, 98, 10, 99] :=
  (tokenizes_iff [10] (List.cons_ne_nil _ _) true [97, 10, 98, 10, 99] (by decide)).mpr
    (.inl ⟨rfl, by decide +kernel, .inl ⟨rfl, by decide +kernel, trivial⟩⟩)

/-- The first line without its line feed, and no end of empty tokens behind it. -/
theorem not_tokenizes_without_delimiter :
    ¬ Tokenizes [10] (List.cons_ne_nil _ _) false [97, 10, 98] := by
  intro tokenizes
  obtain ⟨tokens, last, drains, -⟩ := tokenizes [.feed [97, 10, 98]] rfl
  have first : ((configured [10] false).run [.feed [97, 10, 98]]).2.nextToken =
      (some [97], ⟨[10], [97, 10, 98], 1, false⟩) := by decide +kernel
  have again : nextToken ⟨[10], [97, 10, 98], 1, false⟩ =
      (some [], ⟨[10], [97, 10, 98], 1, false⟩) := by decide +kernel
  cases drains with
  | done nothing => exact absurd (first.symm.trans nothing) nofun
  | token found later =>
      cases first.symm.trans found
      exact not_drains_of_same again later

end StringTokenizer

end Xul
