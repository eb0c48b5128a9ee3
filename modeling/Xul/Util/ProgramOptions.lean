import Xul.Foundation.Parts
import Xul.Std.Bytes

/-!
# Command lines

`program_options::split_command_line` scans a command line, in and outside of quotation marks, and
`simple_program_options::assemble` writes one, with quotation marks around the arguments that have
blanks or tabs.  The scanner undoes that (`splitCommandLine_assemble`).

`program_options::load` leaves the splitting to `boost::split`, which makes an argument of what is
between any two white space characters.  The scanner makes none of nothing, and they agree on the
lines without empty arguments only (`loadsAsScanned_iff`).
-/

set_option autoImplicit false

namespace Xul

namespace ProgramOptions

open Foundation

def quotationMark : UInt8 := 34

/-- What ends an argument outside of quotation marks. -/
def isBlank (c : UInt8) : Bool := c == 32 || c == 9 || c == 10 || c == 13

/-! ## The scanner -/

structure Scanner where
  inQuotationMark : Bool
  token : Bytes
  args : List Bytes

/-- `args.push_back(token); token.clear();` -/
def Scanner.push (s : Scanner) : Scanner := { s with token := [], args := s.args ++ [s.token] }

/-- The body of the loop of `split_command_line`. -/
def scan (s : Scanner) (a : UInt8) : Scanner :=
  if s.inQuotationMark then
    if a = quotationMark then { s.push with inQuotationMark := false }
    else { s with token := s.token ++ [a] }
  else if a = quotationMark then { s with inQuotationMark := true }
  else if isBlank a then if s.token ≠ [] then s.push else s
  else { s with token := s.token ++ [a] }

/-- What is left in the token behind the loop. -/
def Scanner.finish (s : Scanner) : List Bytes := if s.token ≠ [] then s.push.args else s.args

def splitCommandLine (cmdline : Bytes) : List Bytes :=
  (cmdline.foldl scan ⟨false, [], []⟩).finish

/-! ## Loading and assembling -/

/-- `boost::split` by `boost::is_space`, without compression. -/
def boostSplit (cmdline : Bytes) : List Bytes := cmdline.splitOnP isSpace

/-- `do_load` of `simple_program_options`: whether there are arguments, and what is kept. -/
def doLoad (args : List Bytes) : Bool × List Bytes := (args ≠ [], args)

def load (cmdline : Bytes) : Bool × List Bytes := doLoad (boostSplit cmdline)

def assembleArg (arg : Bytes) : Bytes :=
  if 32 ∈ arg ∨ 9 ∈ arg then [quotationMark] ++ arg ++ [quotationMark] ++ [32] else arg ++ [32]

def assemble (args : List Bytes) : Bytes := args.flatMap assembleArg

/-! ## What is scanned -/

/-- The scanner adds the character to its token. -/
def Added (inQuotationMark : Bool) (c : UInt8) : Prop :=
  c ≠ quotationMark ∧ (inQuotationMark = false → isBlank c = false)

theorem foldl_scan_added {inQuotationMark : Bool} {word : Bytes}
    (added : ∀ c ∈ word, Added inQuotationMark c) (token : Bytes) (args : List Bytes) :
    word.foldl scan ⟨inQuotationMark, token, args⟩ = ⟨inQuotationMark, token ++ word, args⟩ := by
  induction word generalizing token with
  | nil => rw [List.foldl_nil, List.append_nil]
  | cons c word ih =>
      obtain ⟨⟨notMark, notBlank⟩, others⟩ := List.forall_mem_cons.mp added
      have step : scan ⟨inQuotationMark, token, args⟩ c =
          ⟨inQuotationMark, token ++ [c], args⟩ := by
        cases inQuotationMark with
        | true => simp [scan, notMark]
        | false => simp [scan, notMark, notBlank rfl]
      rw [List.foldl_cons, step, ih others, List.append_assoc, List.singleton_append]

/-- An argument that is written is read. -/
theorem foldl_scan_assembleArg {arg : Bytes} (nonempty : arg ≠ []) (noMark : quotationMark ∉ arg)
    (noCR : 13 ∉ arg) (noLF : 10 ∉ arg) (args : List Bytes) :
    (assembleArg arg).foldl scan ⟨false, [], args⟩ = ⟨false, [], args ++ [arg]⟩ := by
  have differs : ∀ c ∈ arg, c ≠ quotationMark := fun c member same => noMark (same ▸ member)
  rw [assembleArg]
  split
  · have inside : ∀ c ∈ arg, Added true c := fun c member =>
      ⟨differs c member, fun isFalse => absurd isFalse.symm Bool.false_ne_true⟩
    simp only [List.foldl_append, List.foldl_cons, List.foldl_nil]
    rw [show scan ⟨false, [], args⟩ quotationMark = ⟨true, [], args⟩ from rfl,
      foldl_scan_added inside]
    simp [scan, Scanner.push, quotationMark, isBlank]
  · next plain =>
    obtain ⟨noSpace, noTab⟩ := not_or.mp plain
    have outside : ∀ c ∈ arg, Added false c := by
      intro c member
      have apart : c ≠ 32 ∧ c ≠ 9 ∧ c ≠ 10 ∧ c ≠ 13 :=
        ⟨fun same => noSpace (same ▸ member), fun same => noTab (same ▸ member),
          fun same => noLF (same ▸ member), fun same => noCR (same ▸ member)⟩
      exact ⟨differs c member, fun _ => by simp [isBlank, apart]⟩
    rw [List.foldl_append, foldl_scan_added outside]
    simp [scan, Scanner.push, quotationMark, isBlank, nonempty]

/-- **What is assembled is split** into the same arguments. -/
theorem splitCommandLine_assemble (args : List Bytes)
    (proper : ∀ arg ∈ args, arg ≠ [] ∧ quotationMark ∉ arg ∧ 13 ∉ arg ∧ 10 ∉ arg) :
    splitCommandLine (assemble args) = args := by
  have reads : ∀ before, (assemble args).foldl scan ⟨false, [], before⟩ =
      ⟨false, [], before ++ args⟩ := by
    induction args with
    | nil => simp [assemble]
    | cons arg args ih =>
        intro before
        obtain ⟨⟨nonempty, noMark, noCR, noLF⟩, others⟩ := List.forall_mem_cons.mp proper
        rw [assemble, List.flatMap_cons, List.foldl_append,
          foldl_scan_assembleArg nonempty noMark noCR noLF]
        have rest := ih others (before ++ [arg])
        rwa [List.append_assoc, List.singleton_append] at rest
  rw [splitCommandLine, reads]
  rfl

/-- An argument with a blank and a tab, and one without. -/
theorem splitCommandLine_assemble_two :
    splitCommandLine (assemble [ascii "a \tb", ascii "-c"]) = [ascii "a \tb", ascii "-c"] :=
  splitCommandLine_assemble [ascii "a \tb", ascii "-c"] (by decide +kernel)

/-! ## What is between the separators -/

/-- Without quotation marks, the arguments are the parts that are not empty. -/
theorem finish_foldl_scan {cmdline : Bytes} (noMark : quotationMark ∉ cmdline) (token : Bytes)
    (args : List Bytes) :
    (cmdline.foldl scan ⟨false, token, args⟩).finish =
      args ++ ((cmdline.splitOnP isBlank).modifyHead (token ++ ·)).filter (· ≠ []) := by
  induction cmdline generalizing token args with
  | nil =>
      rw [List.splitOnP_nil, List.foldl_nil]
      by_cases empty : token = []
      · simp [Scanner.finish, empty]
      · simp [Scanner.finish, Scanner.push, empty]
  | cons c cmdline ih =>
      obtain ⟨differs, others⟩ := not_or.mp (mt List.mem_cons.mpr noMark)
      have notMark : c ≠ quotationMark := Ne.symm differs
      obtain ⟨part, parts, isParts⟩ :=
        List.exists_cons_of_ne_nil (List.splitOnP_ne_nil isBlank cmdline)
      rw [List.foldl_cons, List.splitOnP_cons_eq_if_modifyHead]
      by_cases blank : isBlank c = true
      · by_cases empty : token = []
        · simp [scan, notMark, blank, empty, ih others, isParts]
        · simp [scan, Scanner.push, notMark, blank, empty, ih others, isParts]
      · rw [Bool.not_eq_true] at blank
        simp [scan, notMark, blank, ih others, isParts]

theorem splitCommandLine_eq_filter {cmdline : Bytes} (noMark : quotationMark ∉ cmdline) :
    splitCommandLine cmdline = (cmdline.splitOnP isBlank).filter (· ≠ []) := by
  obtain ⟨part, parts, isParts⟩ :=
    List.exists_cons_of_ne_nil (List.splitOnP_ne_nil isBlank cmdline)
  rw [splitCommandLine, finish_foldl_scan noMark, isParts]
  rfl

/-- The two readers make the same arguments of the line. -/
def LoadsAsScanned (cmdline : Bytes) : Prop := (load cmdline).2 = splitCommandLine cmdline

/-- **The two readers agree** on a line that begins with no white space and has none directly behind
white space or at its end. -/
theorem loadsAsScanned_iff (cmdline : Bytes) (noMark : quotationMark ∉ cmdline)
    (white : ∀ c ∈ cmdline, isSpace c = true → c = 32 ∨ c = 9 ∨ c = 13 ∨ c = 10) :
    LoadsAsScanned cmdline ↔ BeginsPlain isSpace cmdline ∧ Followed isSpace cmdline := by
  have same : ∀ c ∈ cmdline, isSpace c = isBlank c := by
    intro c member
    refine Bool.eq_iff_iff.mpr ⟨fun space => ?_, fun blank => ?_⟩
    · obtain rfl | rfl | rfl | rfl := white c member space <;> rfl
    · obtain ((rfl | rfl) | rfl) | rfl : ((c = 32 ∨ c = 9) ∨ c = 10) ∨ c = 13 := by
        simpa [isBlank] using blank
      all_goals rfl
  rw [← forall_parts_ne_nil_iff, LoadsAsScanned, splitCommandLine_eq_filter noMark,
    ← splitOnP_congr same]
  change cmdline.splitOnP isSpace = _ ↔ _
  rw [eq_comm, List.filter_eq_self]
  simp

/-- A blank between two arguments. -/
theorem loadsAsScanned_two : LoadsAsScanned (ascii "a b") :=
  (loadsAsScanned_iff (ascii "a b") (by decide +kernel) (by decide +kernel)).mpr
    ((forall_parts_ne_nil_iff _).mp (by decide +kernel))

/-- A blank behind the last argument. -/
theorem not_loadsAsScanned_trailing : ¬ LoadsAsScanned (ascii "a ") := by
  rw [LoadsAsScanned]
  decide +kernel

end ProgramOptions

end Xul
