import Xul.Io.Bmf

/-!
# What the reader accepts

`WellFormed` is the grammar of the format.  The reader goes on behind an element of a list or
a dictionary that it could not read, so a list or dictionary may be returned that is not well
formed; and it throws where a string has a negative length.  `survey` follows the reader
without building values and says which of these it is, and the reader does what the grammar
asks exactly where the survey finds neither (`safe_iff`).
-/

set_option autoImplicit false

namespace Xul

namespace Bmf

/-! ## The grammar -/

def IsInteger (s : Bytes) : Prop :=
  ∃ val, BmfIntegerEncoding.decode s = (some val, [])

/-- A length that is not negative and not too large, and as many bytes. -/
def IsString (s : Bytes) : Prop :=
  ∃ (size : Bytes) (val : Int64) (text : Bytes), s = size ++ text ∧
    BmfIntegerEncoding.decode size = (some val, []) ∧ ¬ val < 0 ∧
    ¬ Int64.ofNat maxString < val ∧ text.length = val.toNatClampNeg

/-- An entry of a dictionary: the key, behind its tag, and the value. -/
def entryBytes (entry : Bytes × Bytes) : Bytes := stringTag :: (entry.1 ++ entry.2)

/-- One value with its tag, and everything in it, and nothing behind it. -/
inductive WellFormed : Bytes → Prop
  | integer {s : Bytes} (isInteger : IsInteger s) : WellFormed (integerTag :: s)
  | string {s : Bytes} (isString : IsString s) : WellFormed (stringTag :: s)
  | list {items : List Bytes} (each : ∀ item ∈ items, WellFormed item) :
      WellFormed (listTag :: (items.flatten ++ [endTag]))
  | dict {entries : List (Bytes × Bytes)} (keys : ∀ entry ∈ entries, IsString entry.1)
      (values : ∀ entry ∈ entries, WellFormed entry.2) :
      WellFormed (dictTag :: (entries.flatMap entryBytes ++ [endTag]))

/-! ## The survey -/

/-- What stands at the head of an input: a well-formed value, a list or dictionary that is
closed although something in it is not well formed, or nothing that is read. -/
inductive Verdict
  | sound
  | flawed
  | unread
deriving DecidableEq

/-- A closed list or dictionary. -/
def Verdict.closed (flawless : Bool) : Verdict := if flawless then .sound else .flawed

def surveyString (s : Bytes) : Outcome Verdict :=
  (tryReadString s).bind fun s rest => .returned (s.elim .unread fun _ => .sound) rest

def surveyInteger (s : Bytes) : Outcome Verdict :=
  match BmfIntegerEncoding.decode s with
  | (none, rest) => .returned .unread rest
  | (some _, rest) => .returned .sound rest

def surveyWith (surveyItem : UInt8 → Bytes → Outcome Verdict) : Bytes → Outcome Verdict
  | [] => .returned .unread []
  | tag :: s => surveyItem tag s

/-- The elements of a list up to its end. -/
def surveyList (surveyItem : UInt8 → Bytes → Outcome Verdict) :
    Nat → Bool → Bytes → Outcome Verdict
  | 0, _, _ => .unfinished
  | _ + 1, _, [] => .returned .unread []
  | turns + 1, flawless, tag :: s =>
      if tag = endTag then .returned (.closed flawless) s
      else (surveyItem tag s).bind fun verdict s =>
        surveyList surveyItem turns (flawless && verdict = .sound) s

/-- The entries of a dictionary up to its end. -/
def surveyDict (surveyItem : UInt8 → Bytes → Outcome Verdict) :
    Nat → Bool → Bytes → Outcome Verdict
  | 0, _, _ => .unfinished
  | _ + 1, _, [] => .returned .unread []
  | turns + 1, flawless, tag :: s =>
      if tag = endTag then .returned (.closed flawless) s
      else if tag ≠ stringTag then .returned .unread s
      else (surveyString s).bind fun key s =>
        if key = .unread then .returned .unread s
        else (surveyWith surveyItem s).bind fun verdict s =>
          surveyDict surveyItem turns (flawless && verdict = .sound) s

def surveyItem : Nat → UInt8 → Bytes → Outcome Verdict
  | 0, _, _ => .unfinished
  | depth + 1, tag, s =>
      if tag = integerTag then surveyInteger s
      else if tag = stringTag then surveyString s
      else if tag = listTag then surveyList (surveyItem depth) (s.length + 1) true s
      else if tag = dictTag then surveyDict (surveyItem depth) (s.length + 1) true s
      else .returned .unread s

def survey (s : Bytes) : Outcome Verdict := surveyWith (surveyItem s.length) s

/-! ## The survey follows the reader -/

/-- The reader and the survey stop at the same place, and only what is not read is empty. -/
def Follows : Outcome Any → Outcome Verdict → Prop
  | .returned value rest, .returned verdict other =>
      rest = other ∧ (value = .empty ↔ verdict = .unread)
  | .thrown, .thrown => True
  | .unfinished, .unfinished => True
  | _, _ => False

theorem Follows.bind {outcome : Outcome Any} {surveyed : Outcome Verdict}
    (follows : Follows outcome surveyed) {next : Any → Bytes → Outcome Any}
    {goOn : Verdict → Bytes → Outcome Verdict}
    (each : ∀ value verdict rest, Follows (next value rest) (goOn verdict rest)) :
    Follows (outcome.bind next) (surveyed.bind goOn) := by
  cases outcome with
  | returned value rest =>
      cases surveyed with
      | returned verdict other =>
          obtain ⟨rfl, -⟩ := follows
          exact each value verdict rest
      | thrown => exact follows.elim
      | unfinished => exact follows.elim
  | thrown =>
      cases surveyed with
      | returned verdict other => exact follows.elim
      | thrown => trivial
      | unfinished => exact follows.elim
  | unfinished =>
      cases surveyed with
      | returned verdict other => exact follows.elim
      | thrown => exact follows.elim
      | unfinished => trivial

theorem follows_closed (items : Any) (nonempty : items ≠ .empty) (flawless : Bool) (s : Bytes) :
    Follows (.returned items s) (.returned (.closed flawless) s) := by
  refine ⟨rfl, fun empty => absurd empty nonempty, ?_⟩
  cases flawless with
  | false => exact nofun
  | true => exact nofun

theorem follows_unread (s : Bytes) : Follows (.returned .empty s) (.returned .unread s) :=
  ⟨rfl, fun _ => rfl, fun _ => rfl⟩

section

variable {readItem : UInt8 → Bytes → Outcome Any} {surveyItem : UInt8 → Bytes → Outcome Verdict}
  (items : ∀ tag s, Follows (readItem tag s) (surveyItem tag s))
include items

theorem follows_with (s : Bytes) : Follows (readWith readItem s) (surveyWith surveyItem s) := by
  cases s with
  | nil => exact follows_unread []
  | cons tag s => exact items tag s

theorem follows_list (turns : Nat) (before : List Any) (flawless : Bool) (s : Bytes) :
    Follows (readListLoop readItem turns before s) (surveyList surveyItem turns flawless s) := by
  induction turns generalizing before flawless s with
  | zero => trivial
  | succ turns ih =>
      cases s with
      | nil => exact follows_unread []
      | cons tag s =>
          rw [readListLoop, surveyList]
          split
          · exact follows_closed (.list before) (by rintro ⟨⟩) flawless s
          · exact (items tag s).bind fun value verdict rest => ih _ _ rest

theorem follows_dict (turns : Nat) (before : List (Bytes × Any)) (flawless : Bool) (s : Bytes) :
    Follows (readDictLoop readItem turns before s) (surveyDict surveyItem turns flawless s) := by
  induction turns generalizing before flawless s with
  | zero => trivial
  | succ turns ih =>
      cases s with
      | nil => exact follows_unread []
      | cons tag s =>
          rw [readDictLoop, surveyDict]
          split
          · exact follows_closed (.dict before) (by rintro ⟨⟩) flawless s
          · split
            · exact follows_unread s
            · rw [surveyString]
              cases tryReadString s with
              | thrown => trivial
              | unfinished => trivial
              | returned key rest =>
                  cases key with
                  | none => exact follows_unread rest
                  | some key =>
                      exact (follows_with items rest).bind fun value verdict after => ih _ _ after

end

theorem follows_string (s : Bytes) : Follows (readString s) (surveyString s) := by
  rw [readString, surveyString]
  cases tryReadString s with
  | thrown => trivial
  | unfinished => trivial
  | returned text rest =>
      cases text with
      | none => exact follows_unread rest
      | some text => exact ⟨rfl, Any.noConfusion, Verdict.noConfusion⟩

theorem follows_integer (s : Bytes) : Follows (readInteger s) (surveyInteger s) := by
  rw [readInteger, surveyInteger]
  obtain ⟨val, rest⟩ := BmfIntegerEncoding.decode s
  cases val with
  | none => exact follows_unread rest
  | some val => exact ⟨rfl, Any.noConfusion, Verdict.noConfusion⟩

theorem follows_item (depth : Nat) (tag : UInt8) (s : Bytes) :
    Follows (readItem depth tag s) (surveyItem depth tag s) := by
  induction depth generalizing tag s with
  | zero => trivial
  | succ depth ih =>
      rw [readItem, surveyItem]
      split
      · exact follows_integer s
      · split
        · exact follows_string s
        · split
          · exact follows_list ih _ _ _ s
          · split
            · exact follows_dict ih _ _ _ s
            · exact follows_unread s

theorem follows_survey (s : Bytes) : Follows (read s) (survey s) :=
  follows_with (fun tag s => follows_item _ tag s) s

/-! ## What the survey finds sound is well formed -/

theorem sound_of_closed {flawless : Bool} (sound : Verdict.closed flawless = .sound) :
    flawless = true := by
  cases flawless with
  | false => exact absurd sound nofun
  | true => rfl

/-- The bytes of a string that is read are in front of what is left. -/
theorem isString_of_read {s rest : Bytes} {text : Bytes}
    (read : tryReadString s = .returned (some text) rest) :
    ∃ whole, s = whole ++ rest ∧ IsString whole := by
  rw [tryReadString] at read
  split at read
  · cases read
  · next val left decoded =>
      split at read
      · cases read
      · next notLong =>
          split at read
          · cases read
          · next notNegative =>
              split at read
              · cases read
              · next enough =>
                  obtain ⟨size, rfl, whole⟩ := BmfIntegerEncoding.decode_split decoded
                  have drop : left.drop val.toNatClampNeg = rest := (Outcome.returned.inj read).2
                  refine ⟨size ++ left.take val.toNatClampNeg, ?_, size, val, _, rfl, whole,
                    notNegative, notLong, ?_⟩
                  · rw [← drop, List.append_assoc, List.take_append_drop]
                  · exact List.length_take_of_le (Nat.le_of_not_lt enough)

theorem isString_of_survey {s rest : Bytes} {verdict : Verdict}
    (ends : surveyString s = .returned verdict rest) (isRead : verdict ≠ .unread) :
    ∃ whole, s = whole ++ rest ∧ IsString whole := by
  obtain ⟨text, left, read, verdictIs⟩ := Outcome.of_bind_eq_returned ends
  obtain ⟨same, rfl⟩ := Outcome.returned.inj verdictIs
  cases text with
  | none => exact absurd same.symm isRead
  | some text => exact isString_of_read read

/-- A value that is found sound is well formed. -/
def SoundIsWellFormed (surveyItem : UInt8 → Bytes → Outcome Verdict) : Prop :=
  ∀ {tag : UInt8} {s rest : Bytes}, surveyItem tag s = .returned .sound rest →
    ∃ whole, tag :: s = whole ++ rest ∧ WellFormed whole

section

variable {surveyItem : UInt8 → Bytes → Outcome Verdict} (items : SoundIsWellFormed surveyItem)
include items

theorem wellFormed_of_with {s rest : Bytes}
    (sound : surveyWith surveyItem s = .returned .sound rest) :
    ∃ whole, s = whole ++ rest ∧ WellFormed whole := by
  cases s with
  | nil => exact absurd sound nofun
  | cons tag s => exact items sound

theorem items_of_surveyList {turns : Nat} {flawless : Bool} {s rest : Bytes}
    (sound : surveyList surveyItem turns flawless s = .returned .sound rest) :
    flawless = true ∧ ∃ each : List Bytes, (∀ item ∈ each, WellFormed item) ∧
      s = each.flatten ++ endTag :: rest := by
  induction turns generalizing flawless s with
  | zero => exact absurd sound nofun
  | succ turns ih =>
      cases s with
      | nil => exact absurd sound nofun
      | cons tag s =>
          rw [surveyList] at sound
          split at sound
          · next isEnd =>
              obtain ⟨closed, rfl⟩ := Outcome.returned.inj sound
              refine ⟨sound_of_closed closed, [], fun _ nothing => absurd nothing List.not_mem_nil, ?_⟩
              rw [isEnd]
              rfl
          · obtain ⟨verdict, left, item, sound⟩ := Outcome.of_bind_eq_returned sound
            obtain ⟨still, each, wellFormed, rfl⟩ := ih sound
            obtain ⟨before, isSound⟩ := Bool.and_eq_true_iff.mp still
            rw [of_decide_eq_true isSound] at item
            obtain ⟨whole, split, this⟩ := items item
            refine ⟨before, whole :: each, List.forall_mem_cons.mpr ⟨this, wellFormed⟩, ?_⟩
            rw [split, List.flatten_cons, List.append_assoc]

theorem entries_of_surveyDict {turns : Nat} {flawless : Bool} {s rest : Bytes}
    (sound : surveyDict surveyItem turns flawless s = .returned .sound rest) :
    flawless = true ∧ ∃ each : List (Bytes × Bytes), (∀ entry ∈ each, IsString entry.1) ∧
      (∀ entry ∈ each, WellFormed entry.2) ∧ s = each.flatMap entryBytes ++ endTag :: rest := by
  induction turns generalizing flawless s with
  | zero => exact absurd sound nofun
  | succ turns ih =>
      cases s with
      | nil => exact absurd sound nofun
      | cons tag s =>
          rw [surveyDict] at sound
          split at sound
          · next isEnd =>
              obtain ⟨closed, rfl⟩ := Outcome.returned.inj sound
              refine ⟨sound_of_closed closed, [], fun _ nothing => absurd nothing List.not_mem_nil,
                fun _ nothing => absurd nothing List.not_mem_nil, ?_⟩
              rw [isEnd]
              rfl
          · split at sound
            · exact absurd sound nofun
            · next isString =>
                obtain ⟨key, behindKey, string, sound⟩ := Outcome.of_bind_eq_returned sound
                split at sound
                · exact absurd sound nofun
                · next isRead =>
                    obtain ⟨verdict, left, item, sound⟩ := Outcome.of_bind_eq_returned sound
                    obtain ⟨still, each, keys, values, rfl⟩ := ih sound
                    obtain ⟨before, isSound⟩ := Bool.and_eq_true_iff.mp still
                    rw [of_decide_eq_true isSound] at item
                    obtain ⟨whole, rfl, this⟩ := wellFormed_of_with items item
                    obtain ⟨text, rfl, isText⟩ := isString_of_survey string isRead
                    refine ⟨before, (text, whole) :: each, List.forall_mem_cons.mpr ⟨isText, keys⟩,
                      List.forall_mem_cons.mpr ⟨this, values⟩, ?_⟩
                    rw [not_not.mp isString, List.flatMap_cons, entryBytes]
                    simp only [List.cons_append, List.append_assoc]

end

theorem wellFormed_of_item (depth : Nat) : SoundIsWellFormed (surveyItem depth) := by
  induction depth with
  | zero => exact nofun
  | succ depth ih =>
      intro tag s rest sound
      rw [surveyItem] at sound
      split at sound
      · next integer =>
          rw [surveyInteger] at sound
          split at sound
          · exact absurd sound nofun
          · next val left decoded =>
              obtain ⟨-, rfl⟩ := Outcome.returned.inj sound
              obtain ⟨head, rfl, whole⟩ := BmfIntegerEncoding.decode_split decoded
              exact ⟨tag :: head, rfl, integer ▸ .integer ⟨val, whole⟩⟩
      · split at sound
        · next string =>
            obtain ⟨whole, rfl, isString⟩ := isString_of_survey sound nofun
            exact ⟨tag :: whole, rfl, string ▸ .string isString⟩
        · split at sound
          · next list =>
              obtain ⟨-, each, wellFormed, rfl⟩ := items_of_surveyList ih sound
              refine ⟨listTag :: (each.flatten ++ [endTag]), ?_, .list wellFormed⟩
              rw [list, List.cons_append, List.append_assoc, List.singleton_append]
          · split at sound
            · next dict =>
                obtain ⟨-, each, keys, values, rfl⟩ := entries_of_surveyDict ih sound
                refine ⟨dictTag :: (each.flatMap entryBytes ++ [endTag]), ?_, .dict keys values⟩
                rw [dict, List.cons_append, List.append_assoc, List.singleton_append]
            · exact absurd sound nofun

theorem wellFormed_of_survey {s rest : Bytes} (sound : survey s = .returned .sound rest) :
    ∃ whole, s = whole ++ rest ∧ WellFormed whole :=
  wellFormed_of_with (wellFormed_of_item _) sound

/-! ## What is well formed is found sound -/

/-- A value is found sound behind its tag, whatever follows it. -/
def FoundSound (whole : Bytes) : Prop :=
  ∃ (tag : UInt8) (s : Bytes), whole = tag :: s ∧ tag ≠ endTag ∧
    ∀ (depth : Nat) (rest : Bytes), (s ++ rest).length < depth →
      surveyItem depth tag (s ++ rest) = .returned .sound rest

theorem surveyString_of_isString {s : Bytes} (isString : IsString s) (rest : Bytes) :
    surveyString (s ++ rest) = .returned .sound rest := by
  obtain ⟨size, val, text, rfl, decoded, notNegative, notLong, length⟩ := isString
  have enough : ¬ (text ++ rest).length < text.length := by
    rw [List.length_append]
    omega
  rw [surveyString, tryReadString, List.append_assoc,
    BmfIntegerEncoding.decode_append decoded, List.nil_append]
  simp only [if_neg notLong, if_neg notNegative, ← length, if_neg enough, List.drop_left]
  rfl

theorem surveyList_of_items {items : List Bytes} (each : ∀ item ∈ items, FoundSound item)
    {depth turns : Nat} {rest : Bytes}
    (inside : (items.flatten ++ endTag :: rest).length ≤ depth)
    (enough : (items.flatten ++ endTag :: rest).length < turns) :
    surveyList (surveyItem depth) turns true (items.flatten ++ endTag :: rest) =
      .returned .sound rest := by
  induction items generalizing turns with
  | nil =>
      cases turns with
      | zero => exact absurd enough (Nat.not_lt_zero _)
      | succ turns => rfl
  | cons item items ih =>
      obtain ⟨found, later⟩ := List.forall_mem_cons.mp each
      obtain ⟨tag, s, rfl, notEnd, sound⟩ := found
      rw [List.flatten_cons, List.cons_append, List.cons_append, List.append_assoc] at inside enough ⊢
      simp only [List.length_cons, List.length_append] at inside enough
      cases turns with
      | zero => exact absurd enough (Nat.not_lt_zero _)
      | succ turns =>
          have first := sound depth (items.flatten ++ endTag :: rest) (by
            simp only [List.length_append, List.length_cons]
            omega)
          rw [surveyList, if_neg notEnd, first, Outcome.bind_returned]
          apply ih later
          · simp only [List.length_append, List.length_cons]
            omega
          · simp only [List.length_append, List.length_cons]
            omega

theorem surveyDict_of_entries {entries : List (Bytes × Bytes)}
    (keys : ∀ entry ∈ entries, IsString entry.1) (each : ∀ entry ∈ entries, FoundSound entry.2)
    {depth turns : Nat} {rest : Bytes}
    (inside : (entries.flatMap entryBytes ++ endTag :: rest).length ≤ depth)
    (enough : (entries.flatMap entryBytes ++ endTag :: rest).length < turns) :
    surveyDict (surveyItem depth) turns true (entries.flatMap entryBytes ++ endTag :: rest) =
      .returned .sound rest := by
  induction entries generalizing turns with
  | nil =>
      cases turns with
      | zero => exact absurd enough (Nat.not_lt_zero _)
      | succ turns => rfl
  | cons entry entries ih =>
      obtain ⟨isString, otherKeys⟩ := List.forall_mem_cons.mp keys
      obtain ⟨found, later⟩ := List.forall_mem_cons.mp each
      obtain ⟨key, value⟩ := entry
      obtain ⟨tag, s, rfl, notEnd, sound⟩ := found
      have split : List.flatMap entryBytes ((key, tag :: s) :: entries) ++ endTag :: rest =
          stringTag :: (key ++ (tag :: (s ++ (entries.flatMap entryBytes ++ endTag :: rest)))) := by
        simp [entryBytes]
      rw [split] at inside enough ⊢
      simp only [List.length_cons, List.length_append] at inside enough
      cases turns with
      | zero => exact absurd enough (Nat.not_lt_zero _)
      | succ turns =>
          have first := sound depth (entries.flatMap entryBytes ++ endTag :: rest) (by
            simp only [List.length_append, List.length_cons]
            omega)
          rw [surveyDict, if_neg (by decide), if_neg (by decide),
            surveyString_of_isString isString, Outcome.bind_returned, if_neg nofun, surveyWith,
            first, Outcome.bind_returned]
          apply ih otherKeys later
          · simp only [List.length_append, List.length_cons]
            omega
          · simp only [List.length_append, List.length_cons]
            omega

theorem foundSound_of_wellFormed {whole : Bytes} (wellFormed : WellFormed whole) :
    FoundSound whole := by
  induction wellFormed with
  | @integer s isInteger =>
      obtain ⟨val, decoded⟩ := isInteger
      refine ⟨integerTag, s, rfl, by decide, ?_⟩
      intro depth rest enough
      cases depth with
      | zero => exact absurd enough (Nat.not_lt_zero _)
      | succ depth =>
          rw [surveyItem, if_pos rfl, surveyInteger, BmfIntegerEncoding.decode_append decoded]
          rfl
  | @string s isString =>
      refine ⟨stringTag, s, rfl, by decide, ?_⟩
      intro depth rest enough
      cases depth with
      | zero => exact absurd enough (Nat.not_lt_zero _)
      | succ depth =>
          rw [surveyItem, if_neg (by decide), if_pos rfl, surveyString_of_isString isString]
  | @list items each ih =>
      refine ⟨listTag, items.flatten ++ [endTag], rfl, by decide, ?_⟩
      intro depth rest enough
      rw [List.append_assoc, List.singleton_append] at enough ⊢
      cases depth with
      | zero => exact absurd enough (Nat.not_lt_zero _)
      | succ depth =>
          rw [surveyItem, if_neg (by decide), if_neg (by decide), if_pos rfl]
          exact surveyList_of_items ih (Nat.le_of_lt_succ enough) (Nat.lt_succ_self _)
  | @dict entries keys values ih =>
      refine ⟨dictTag, entries.flatMap entryBytes ++ [endTag], rfl, by decide, ?_⟩
      intro depth rest enough
      rw [List.append_assoc, List.singleton_append] at enough ⊢
      cases depth with
      | zero => exact absurd enough (Nat.not_lt_zero _)
      | succ depth =>
          rw [surveyItem, if_neg (by decide), if_neg (by decide), if_neg (by decide), if_pos rfl]
          exact surveyDict_of_entries keys ih (Nat.le_of_lt_succ enough) (Nat.lt_succ_self _)

theorem survey_of_wellFormed {whole : Bytes} (wellFormed : WellFormed whole) (rest : Bytes) :
    survey (whole ++ rest) = .returned .sound rest := by
  obtain ⟨tag, s, rfl, -, sound⟩ := foundSound_of_wellFormed wellFormed
  rw [List.cons_append, survey, surveyWith]
  exact sound _ rest (by rw [List.length_cons]; exact Nat.lt_succ_self _)

/-! ## Untrusted input -/

/-- The reader comes back, without throwing, and with a value only where the input begins with
a well-formed one. -/
def Safe (s : Bytes) : Prop :=
  ∃ value rest, read s = .returned value rest ∧
    (value ≠ .empty → ∃ whole after, s = whole ++ after ∧ WellFormed whole)

/-- The survey meets no negative length, and no list or dictionary that is closed although
something in it is not well formed. -/
def Unflawed (s : Bytes) : Prop :=
  match survey s with
  | .returned verdict _ => verdict ≠ .flawed
  | .thrown => False
  | .unfinished => False

/-- **The reader is safe exactly on the inputs without such a flaw.** -/
theorem safe_iff (s : Bytes) : Safe s ↔ Unflawed s := by
  have follows := follows_survey s
  have finishes := read_finishes s
  rw [Unflawed]
  constructor
  · rintro ⟨value, rest, returned, prefixed⟩
    rw [returned] at follows
    cases surveyed : survey s with
    | thrown => rw [surveyed] at follows; exact follows
    | unfinished => rw [surveyed] at follows; exact follows
    | returned verdict other =>
        rw [surveyed] at follows
        rintro rfl
        -- a closed value that is flawed is not empty, and what is well formed is not flawed
        have nonempty : value ≠ .empty := fun empty => absurd (follows.2.mp empty) nofun
        obtain ⟨whole, after, rfl, wellFormed⟩ := prefixed nonempty
        rw [survey_of_wellFormed wellFormed] at surveyed
        exact absurd surveyed nofun
  · intro unflawed
    cases returned : read s with
    | unfinished => rw [returned] at finishes; exact finishes.elim
    | thrown =>
        rw [returned] at follows
        cases surveyed : survey s with
        | thrown => rw [surveyed] at unflawed; exact unflawed.elim
        | unfinished => rw [surveyed] at unflawed; exact unflawed.elim
        | returned verdict other => rw [surveyed] at follows; exact follows.elim
    | returned value rest =>
        rw [returned] at follows
        refine ⟨value, rest, returned, ?_⟩
        intro nonempty
        cases surveyed : survey s with
        | thrown => rw [surveyed] at unflawed; exact unflawed.elim
        | unfinished => rw [surveyed] at unflawed; exact unflawed.elim
        | returned verdict other =>
            rw [surveyed] at follows unflawed
            cases verdict with
            | unread => exact absurd (follows.2.mpr rfl) nonempty
            | flawed => exact absurd rfl unflawed
            | sound =>
                obtain ⟨whole, split, wellFormed⟩ := wellFormed_of_survey surveyed
                exact ⟨whole, other, split, wellFormed⟩

/-- A string of length -1 makes the reader throw, and the list of one unknown tag is returned. -/
theorem negative_and_unknown_not_safe :
    read [stringTag, 1] = .thrown ∧ ¬ Safe [stringTag, 1] ∧ ¬ Safe [listTag, 2, endTag] := by
  have thrown : read [stringTag, 1] = .thrown := by rfl
  refine ⟨thrown, ?_, ?_⟩
  · rintro ⟨value, rest, returned, -⟩
    exact absurd (thrown.symm.trans returned) nofun
  · rintro ⟨value, rest, returned, prefixed⟩
    have list : read [listTag, 2, endTag] = .returned (.list [.empty]) [] := by rfl
    obtain ⟨rfl, -⟩ := Outcome.returned.inj (list.symm.trans returned)
    obtain ⟨whole, after, split, wellFormed⟩ := prefixed nofun
    have flawed : survey [listTag, 2, endTag] = .returned .flawed [] := by rfl
    rw [split, survey_of_wellFormed wellFormed] at flawed
    exact absurd flawed nofun

end Bmf

end Xul
