import StarOS.Format.Trace
import StarOS.Kernel.Steps
import StarOS.Lib.Bytes

/-!
# The system call `SYSCALL_PRINTF` (`system_entry.cpp`)

The format is where `ebx` points; ten words of the user's stack are pushed before the call of `printf`, whatever
the format asks for.

* `syscallPrintf`      the accesses of `printf`;
* `PrintfAccess.Inside`   a character of a string, or one of the ten words;
* `directives`         what a format asks for;
* `Supply`, `Fit`      what a call finds, and that it is enough for the directives that the call comes to;
* `only_iff_fit`       the rounds of a call;
* `fit_pieces`, `printf_of_fit`   at most ten pieces with arguments fit, and what is printed then does not depend on
                       the rest of the stack;
* `syscallPrintf_inside_iff`   **the accesses are inside exactly if the directives fit**: at a `%` at the end `p++`
                       steps over the null byte, `va_arg` goes on behind the ten words, and a call for `%s` takes
                       its string for a format, with no words at all.
-/

namespace StarOS

open Lib

/-! ## the source -/

/-- the `uint32_t` at an address -/
def wordAt (mem : UInt32 → UInt8) (p : UInt32) : UInt32 :=
  UInt32.ofNat (read32 (fun a => mem (UInt32.ofNat a)) p.toNat)

/-- `pushl`; word 0 is the top of the stack -/
def pushl (w : UInt32) (stack : Nat → UInt32) : Nat → UInt32
  | 0 => w
  | i + 1 => stack i

/-- the loop of `SYSCALL_PRINTF`, the last word first -/
def pushEllipses (args : Nat → UInt32) (stack : Nat → UInt32) : Nat → UInt32 :=
  (List.range 10).foldl (fun stack i => pushl (args (9 - i)) stack) stack

/-- the words behind `args + last_arg_size` -/
def ellipses (mem : UInt32 → UInt8) (tf : TrapFrame) (k : Nat) : UInt32 :=
  wordAt mem (tf.edx + tf.esi + 4 * UInt32.ofNat k)

/-- what `va_arg` finds: behind the format of the first call are the words that were pushed and the `stack` before
them, behind that of a call for `%s` some words of the kernel's stack -/
def vaWords (mem : UInt32 → UInt8) (tf : TrapFrame) (stack : Nat → UInt32) (inner : Nat → Nat → UInt32) :
    Nat → Nat → UInt32
  | 0 => pushEllipses (ellipses mem tf) stack
  | call + 1 => inner call

/-- `printf` in `SYSCALL_PRINTF` -/
def syscallPrintf (mem : UInt32 → UInt8) (tf : TrapFrame) (stack : Nat → UInt32) (inner : Nat → Nat → UInt32)
    (fuel : Nat) : Trace := printfTrace mem (vaWords mem tf stack inner) fuel 0 0 tf.ebx 0 1

theorem pushEllipses_apply (args stack : Nat → UInt32) (i : Nat) :
    pushEllipses args stack i = if i < 10 then args i else stack (i - 10) := by
  match i with
  | 0 | 1 | 2 | 3 | 4 | 5 | 6 | 7 | 8 | 9 => rfl
  | i + 10 => exact (if_neg (by omega)).symm

theorem vaWords_of_lt {mem : UInt32 → UInt8} {tf : TrapFrame} {stack : Nat → UInt32} {inner : Nat → Nat → UInt32}
    {arg : Nat} (h : arg < 10) : vaWords mem tf stack inner 0 arg = ellipses mem tf arg :=
  (pushEllipses_apply _ _ arg).trans (if_pos h)

/-! ## accesses and directives -/

/-- a character of a string up to its null byte, or one of the words that were pushed -/
def PrintfAccess.Inside (mem : UInt32 → UInt8) : PrintfAccess → Prop
  | .byte format i => ∀ j < i, charAt mem format j ≠ 0
  | .word call arg => call = 0 ∧ arg < 10

/-- what a format asks for: `word` is `%x` or `%d`, with the number of the argument, `other` is `%` before another
character, and `lone` is `%` at the end -/
inductive Directive where
  | char (c : UInt8)
  | word (arg : Nat)
  | string (arg : Nat)
  | other
  | lone

def directives : Nat → List UInt8 → List Directive
  | _, [] => []
  | arg, c :: cs =>
    if c = 0x25 then
      match cs with
      | [] => [.lone]
      | d :: cs =>
        if d = 0x78 ∨ d = 0x64 then .word arg :: directives (arg + 1) cs
        else if d = 0x73 then .string arg :: directives (arg + 1) cs
        else .other :: directives arg cs
    else .char c :: directives arg cs

/-- the arguments that a call finds, those that are strings it can print, and those at which it halts -/
structure Supply where
  word : Nat → Prop
  string : Nat → Prop
  halts : Nat → Prop

namespace Directive

def Fits (s : Supply) : Directive → Prop
  | .char _ => True
  | .word arg => s.word arg
  | .string arg => s.word arg ∧ s.string arg
  | .other => True
  | .lone => False

/-- `print_c` is fatal for a character that is not printable -/
def Halts (s : Supply) : Directive → Prop
  | .char c => isPrintable c = false
  | .word _ => False
  | .string arg => s.halts arg
  | .other => False
  | .lone => False

end Directive

/-- each directive fits, up to the first at which the kernel halts -/
def Fit (s : Supply) : List Directive → Prop
  | [] => True
  | d :: ds => d.Fits s ∧ (¬ d.Halts s → Fit s ds)

/-- no arguments -/
def noWords : Supply := ⟨fun _ => False, fun _ => False, fun _ => False⟩

/-- ten arguments; a string is printed as a format, with no arguments -/
def tenWords (mem : UInt32 → UInt8) (args : Nat → UInt32) : Supply where
  word arg := arg < 10
  string arg := ∀ s, StringAt mem (args arg) s → Fit noWords (directives 0 s)
  halts arg := ∀ s, StringAt mem (args arg) s → ∃ d ∈ directives 0 s, d.Halts noWords

/-! ## strings -/

section
variable {mem : UInt32 → UInt8}

theorem StringAt.unique {p : UInt32} {s t : List UInt8} (hs : StringAt mem p s) (ht : StringAt mem p t) : s = t := by
  induction s generalizing p t with
  | nil =>
    cases t with
    | nil => rfl
    | cons c t => exact absurd (ht.2.1.symm.trans hs) ht.1
  | cons c s ih =>
    cases t with
    | nil => exact absurd (hs.2.1.symm.trans ht) hs.1
    | cons d t => rw [hs.2.1.symm.trans ht.2.1, ih hs.2.2 ht.2.2]

/-- a zero anywhere ends the strings of all addresses -/
theorem exists_string {z : UInt32} (hz : mem z = 0) (p : UInt32) : ∃ s, StringAt mem p s := by
  have hall : ∀ (k : Nat) (p : UInt32), mem (p + UInt32.ofNat k) = 0 → ∃ s, StringAt mem p s := by
    intro k
    induction k with
    | zero =>
      intro p hp
      exact ⟨[], (congrArg mem (UInt32.add_zero p)).symm.trans hp⟩
    | succ k ih =>
      intro p hp
      by_cases h0 : mem p = 0
      · exact ⟨[], h0⟩
      · rw [Nat.add_comm, UInt32.ofNat_add, ← UInt32.add_assoc] at hp
        obtain ⟨s, hs⟩ := ih (p + 1) hp
        exact ⟨mem p :: s, h0, rfl, hs⟩
  refine hall (z - p).toNat p ?_
  rw [UInt32.ofNat_toNat, UInt32.add_comm, UInt32.sub_add_cancel]
  exact hz

theorem StringAt.zero {p : UInt32} {s : List UInt8} (h : StringAt mem p s) : ∃ z, mem z = 0 := by
  induction s generalizing p with
  | nil => exact ⟨p, h⟩
  | cons c s ih => exact ih h.2.2

/-- the string `cs` is left from character `i` of the format on -/
def RestAt (mem : UInt32 → UInt8) (format : UInt32) (i : Nat) (cs : List UInt8) : Prop :=
  (PrintfAccess.byte format i).Inside mem ∧ StringAt mem (format + UInt32.ofNat i) cs

variable {format : UInt32} {i : Nat} {c : UInt8} {cs : List UInt8}

theorem StringAt.rest (h : StringAt mem format cs) : RestAt mem format 0 cs := by
  refine ⟨fun j hj => absurd hj (Nat.not_lt_zero j), ?_⟩
  rw [charAt_start]
  exact h

theorem RestAt.cons (h : RestAt mem format i (c :: cs)) :
    charAt mem format i = c ∧ c ≠ 0 ∧ RestAt mem format (i + 1) cs := by
  obtain ⟨hin, h0, hc, hrest⟩ := h
  refine ⟨hc, h0, fun j hj => ?_, charAt_next format i ▸ hrest⟩
  rcases Nat.lt_succ_iff_lt_or_eq.mp hj with hj | rfl
  · exact hin j hj
  · exact hc.trans_ne h0

end

/-! ## the rounds of a call -/

section
variable {mem : UInt32 → UInt8} {words : Nat → Nat → UInt32} {call arg : Nat} {format : UInt32} {i calls n : Nat}
  {cs : List UInt8}

/-- the supply is what the call finds -/
structure Finds (mem : UInt32 → UInt8) (words : Nat → Nat → UInt32) (call : Nat) (s : Supply) : Prop where
  word : ∀ arg, (PrintfAccess.word call arg).Inside mem ↔ s.word arg
  string : ∀ arg calls, 0 < calls → s.word arg →
    (Only mem words (PrintfAccess.Inside mem) calls 0 (words call arg) 0 (calls + 1) ↔ s.string arg)
  ends : ∀ arg calls n, s.word arg → s.string arg →
    (Ends mem words calls 0 (words call arg) 0 (calls + 1) n ↔ ¬ s.halts arg ∧ n = calls + 1)

theorem forall_mem_round {P : PrintfAccess → Prop} {a b c : PrintfAccess} (ha : P a) (hb : P b) :
    (∀ x ∈ [a, b, c], P x) ↔ P c := by
  simp [ha, hb]

/-- the accesses are inside if and only if the directives fit -/
theorem only_iff_fit {s : Supply} (hs : Finds mem words call s) (hrest : RestAt mem format i cs) (hcalls : 0 < calls) :
    Only mem words (PrintfAccess.Inside mem) call arg format i calls ↔ Fit s (directives arg cs) := by
  fun_induction directives arg cs generalizing i calls with
  | case1 arg =>
    refine (only_last fun fuel => printfTrace_end fuel hrest.2).trans ?_
    exact iff_of_true (List.forall_mem_singleton.mpr hrest.1) trivial
  | case2 arg =>
    -- the null byte is the second character, and the loop goes on behind it
    obtain ⟨hc, -, hnext⟩ := hrest.cons
    have hd : charAt mem format (i + 1) = 0 := hnext.2
    refine iff_of_false (fun hall => ?_) fun h => h.1
    have hround : ∀ fuel, printfTrace mem words (fuel + 1) call arg format i calls
        = (printfTrace mem words fuel call arg format (i + 2) calls).after [.byte format i, .byte format (i + 1)] :=
      fun fuel => printfTrace_other fuel hc hd (by decide) (by decide) (by decide)
    exact only_first ((only_after hround).mp hall).2 (i + 1) (Nat.lt_succ_self _) hd
  | case3 arg d cs hw ih =>
    obtain ⟨hc, -, hnext⟩ := hrest.cons
    obtain ⟨hd, -, hrest'⟩ := hnext.cons
    rw [only_after fun fuel => printfTrace_word fuel hc hd hw, ih hrest' hcalls, forall_mem_round hrest.1 hnext.1, hs.word]
    exact and_congr_right fun _ => (imp_iff_right not_false).symm
  | case4 arg cs hw ih =>
    obtain ⟨hc, -, hnext⟩ := hrest.cons
    obtain ⟨hd, -, hrest'⟩ := hnext.cons
    rw [only_string hc hd, forall_mem_round hrest.1 hnext.1, hs.word, Fit, Directive.Fits, and_assoc]
    refine and_congr_right fun hword => ?_
    rw [hs.string arg calls hcalls hword]
    refine and_congr_right fun hstring => ?_
    constructor
    · intro hall hhalt
      exact (ih hrest' (Nat.succ_pos calls)).mp (hall _ ((hs.ends arg calls _ hword hstring).mpr ⟨hhalt, rfl⟩))
    · intro hfit n hn
      obtain ⟨hhalt, rfl⟩ := (hs.ends arg calls n hword hstring).mp hn
      exact (ih hrest' (Nat.succ_pos calls)).mpr (hfit hhalt)
  | case5 arg d cs hw hstr ih =>
    obtain ⟨hc, -, hnext⟩ := hrest.cons
    obtain ⟨hd, -, hrest'⟩ := hnext.cons
    rw [not_or] at hw
    rw [only_after fun fuel => printfTrace_other fuel hc hd hw.1 hstr hw.2, ih hrest' hcalls]
    constructor
    · intro h
      exact ⟨trivial, fun _ => h.2⟩
    · intro h
      exact ⟨List.forall_mem_cons.mpr ⟨hrest.1, List.forall_mem_singleton.mpr hnext.1⟩, h.2 not_false⟩
  | case6 arg c cs hp ih =>
    obtain ⟨hc, h0, hnext⟩ := hrest.cons
    cases hprint : isPrintable c with
    | true =>
      rw [only_after fun fuel => printfTrace_char fuel hc h0 hp hprint, ih hnext hcalls, Fit, Directive.Halts, hprint]
      simp [Directive.Fits, hrest.1]
    | false =>
      rw [only_last fun fuel => printfTrace_halt fuel hc h0 hp hprint, Fit, Directive.Halts, hprint]
      simp [Directive.Fits, hrest.1]

/-- if its directives fit, a call without arguments returns exactly if it does not halt -/
theorem ends_iff (hrest : RestAt mem format i cs) (hfit : Fit noWords (directives arg cs)) :
    Ends mem words call arg format i calls n ↔ (∀ d ∈ directives arg cs, ¬ d.Halts noWords) ∧ n = calls := by
  fun_induction directives arg cs generalizing i with
  | case1 arg =>
    rw [ends_last fun fuel => printfTrace_end fuel hrest.2]
    simp [eq_comm]
  | case2 arg => exact absurd hfit.1 not_false
  | case3 arg d cs hw ih => exact absurd hfit.1 not_false
  | case4 arg cs hw ih => exact absurd hfit.1.1 not_false
  | case5 arg d cs hw hstr ih =>
    obtain ⟨hc, -, hnext⟩ := hrest.cons
    obtain ⟨hd, -, hrest'⟩ := hnext.cons
    rw [not_or] at hw
    rw [ends_after fun fuel => printfTrace_other fuel hc hd hw.1 hstr hw.2, ih hrest' (hfit.2 not_false),
      List.forall_mem_cons, and_iff_right (show ¬ Directive.other.Halts noWords from not_false)]
  | case6 arg c cs hp ih =>
    obtain ⟨hc, h0, hnext⟩ := hrest.cons
    rw [List.forall_mem_cons]
    cases hprint : isPrintable c with
    | true =>
      have hgoes : ¬ (Directive.char c).Halts noWords := by simp [Directive.Halts, hprint]
      rw [ends_after fun fuel => printfTrace_char fuel hc h0 hp hprint, ih hnext (hfit.2 hgoes), and_iff_right hgoes]
    | false =>
      rw [ends_last fun fuel => printfTrace_halt fuel hc h0 hp hprint]
      exact iff_of_false (fun h => by cases h) fun h => h.1.1 hprint

/-- a call for `%s` -/
theorem finds_noWords (hcall : 0 < call) : Finds mem words call noWords where
  word _ := iff_of_false (fun h => Nat.ne_of_gt hcall h.1) not_false
  string _ _ _ h := h.elim
  ends _ _ _ h := h.elim

/-- the call of `system_entry` -/
theorem finds_tenWords {args : Nat → UInt32} (hargs : ∀ arg < 10, words 0 arg = args arg) {z : UInt32}
    (hz : mem z = 0) : Finds mem words 0 (tenWords mem args) where
  word _ := and_iff_right rfl
  string arg calls hcalls harg := by
    obtain ⟨s, hs⟩ := exists_string hz (args arg)
    rw [hargs arg harg, only_iff_fit (finds_noWords hcalls) hs.rest (Nat.succ_pos calls)]
    exact ⟨fun h t ht => hs.unique ht ▸ h, fun h => h s hs⟩
  ends arg calls n harg hfit := by
    obtain ⟨s, hs⟩ := exists_string hz (args arg)
    rw [hargs arg harg, ends_iff hs.rest (hfit s hs)]
    refine and_congr_left fun _ => ⟨fun h hhalts => ?_, fun h d hd hhalts => ?_⟩
    · obtain ⟨d, hd, hhalt⟩ := hhalts s hs
      exact h d hd hhalt
    · exact h fun t ht => hs.unique ht ▸ ⟨d, hd, hhalts⟩

end

/-! ## a format that prints as it stands -/

theorem directives_char {c : UInt8} (h : c ≠ 0x25) (arg : Nat) (cs : List UInt8) :
    directives arg (c :: cs) = .char c :: directives arg cs := by
  rw [directives.eq_def]
  exact if_neg h

/-- printable characters without a `%` are directives of their own -/
theorem directives_clean {cs : List UInt8} (h : Clean cs) (arg : Nat) : directives arg cs = cs.map .char := by
  induction cs with
  | nil => rfl
  | cons c cs ih =>
    have hrest : Clean cs := ⟨fun d hd => h.1 d (List.mem_cons_of_mem _ hd), fun hd => h.2 (List.mem_cons_of_mem _ hd)⟩
    rw [directives_char (fun e => h.2 (e ▸ List.mem_cons_self)), ih hrest]
    rfl

theorem fit_chars (s : Supply) (cs : List UInt8) : Fit s (cs.map .char) := by
  induction cs with
  | nil => trivial
  | cons c cs ih => exact ⟨trivial, fun _ => ih⟩

/-- at most ten pieces with arguments fit -/
theorem fit_pieces {mem : UInt32 → UInt8} {args : Nat → UInt32} {ps : List Piece} {arg : Nat}
    (hargs : ArgumentsAt mem args arg ps) (hfew : arg + argumentCount ps ≤ 10)
    (hliteral : ∀ c, .literal c ∈ ps → c ≠ 0x25) (hplain : Plain ps) :
    Fit (tenWords mem args) (directives arg (formatText ps)) := by
  induction ps generalizing arg with
  | nil => trivial
  | cons piece ps ih =>
    have hliteral' := fun c hc => hliteral c (List.mem_cons_of_mem _ hc)
    cases piece with
    | literal c =>
      show Fit _ (directives arg (c :: formatText ps))
      rw [directives_char (hliteral c List.mem_cons_self)]
      exact ⟨trivial, fun _ => ih hargs hfew hliteral' hplain.tail⟩
    | string s =>
      rw [argumentCount] at hfew
      obtain ⟨hs, hrest⟩ := hargs
      refine ⟨⟨show arg < 10 by omega, fun t ht => ?_⟩, fun _ => ih hrest (by omega) hliteral' hplain.tail⟩
      rw [← hs.unique ht, directives_clean (hplain.string s List.mem_cons_self)]
      exact fit_chars _ s
    | word w =>
      rw [argumentCount] at hfew
      exact ⟨show arg < 10 by omega, fun _ => ih hargs.2 (by omega) hliteral' hplain.tail⟩

/-! ## the system call -/

/-- if the directives fit, what is printed does not depend on the words behind those that were pushed -/
theorem printf_of_fit {mem : UInt32 → UInt8} {tf : TrapFrame} {cs : List UInt8} {format : UInt32}
    (h : StringAt mem format cs) (hfit : Fit (tenWords mem (ellipses mem tf)) (directives 0 cs))
    (stack stack' : Nat → UInt32) (inner inner' : Nat → Nat → UInt32) (fuel : Nat) :
    printf mem (vaWords mem tf stack' inner') fuel format = printf mem (vaWords mem tf stack inner) fuel format := by
  obtain ⟨z, hz⟩ := h.zero
  have hinside : Only mem (vaWords mem tf stack inner) (PrintfAccess.Inside mem) 0 0 format 0 1 :=
    (only_iff_fit (finds_tenWords (fun _ => vaWords_of_lt) hz) h.rest Nat.one_pos).mpr hfit
  have hagree : Agree mem mem (vaWords mem tf stack inner) (vaWords mem tf stack' inner')
      (printfTrace mem (vaWords mem tf stack inner) fuel 0 0 format 0 1).accesses := by
    refine ⟨fun _ _ _ => rfl, fun call arg ha => ?_⟩
    obtain ⟨rfl, harg⟩ := hinside fuel _ ha
    rw [vaWords_of_lt harg, vaWords_of_lt harg]
  have hcongr := printfFrom_congr (s := ⟨[], [], 1⟩) hagree
  rwa [charAt_start] at hcongr

/-- **`printf` reads its strings up to their null bytes and takes the ten words only, if and only if the directives
fit**: of those that it comes to, none is a `%` at the end, the arguments are at most ten, and no string has a
directive that takes an argument or a `%` at its end. -/
theorem syscallPrintf_inside_iff (mem : UInt32 → UInt8) (tf : TrapFrame) (stack : Nat → UInt32)
    (inner : Nat → Nat → UInt32) (cs : List UInt8) (h : StringAt mem tf.ebx cs) :
    (∀ fuel, ∀ a ∈ (syscallPrintf mem tf stack inner fuel).accesses, a.Inside mem) ↔
      Fit (tenWords mem (ellipses mem tf)) (directives 0 cs) := by
  obtain ⟨z, hz⟩ := h.zero
  exact only_iff_fit (finds_tenWords (fun _ => vaWords_of_lt) hz) h.rest Nat.one_pos

/-- the registers of a call with its format at `ebx` and its arguments at `edx` -/
def printfFrame (ebx edx : UInt32) : TrapFrame :=
  (Trap.mk { Regs.zero with ebx := ebx, edx := edx, eax := 3 } 0 0 (0, 0) 0 0).frame 64

/-- the format `%s`, and the empty string -/
theorem syscallPrintf_inside_empty : StringAt (stringFormat 0x61) 0 [0x25, 0x73] ∧ ∀ fuel,
    ∀ a ∈ (syscallPrintf (stringFormat 0x61) (printfFrame 0 4) (fun _ => 0) (fun _ _ => 0) fuel).accesses,
      a.Inside (stringFormat 0x61) := by
  have hformat : StringAt (stringFormat 0x61) 0 [0x25, 0x73] := stringFormat_at 0x61
  have hargument : StringAt (stringFormat 0x61) (ellipses (stringFormat 0x61) (printfFrame 0 4) 0) [] := rfl
  refine ⟨hformat, (syscallPrintf_inside_iff _ (printfFrame 0 4) _ _ _ hformat).mpr ⟨⟨Nat.succ_pos 9, fun s hs => ?_⟩, ?_⟩⟩
  · rw [hs.unique hargument]
    trivial
  · exact fun _ => trivial

/-- the format `%`, in the last page of the stack of a process -/
def percentFormat (p : UInt32) : UInt8 := if p = 0x0feff000 then 0x25 else 0

theorem percent_steps_over_null : ¬ ∀ (mem : UInt32 → UInt8) (tf : TrapFrame) (stack : Nat → UInt32)
    (inner : Nat → Nat → UInt32) (cs : List UInt8), StringAt mem tf.ebx cs → Printable cs →
    ∀ fuel, ∀ a ∈ (syscallPrintf mem tf stack inner fuel).accesses, a.Inside mem := by
  intro hall
  let tf := printfFrame 0x0feff000 0x0feff000
  have hformat : StringAt percentFormat tf.ebx [0x25] := ⟨by decide, rfl, rfl⟩
  have hbehind : .byte tf.ebx 2 ∈ (syscallPrintf percentFormat tf (fun _ => 0) (fun _ _ => 0) 2).accesses :=
    List.mem_cons_of_mem _ (List.mem_cons_of_mem _ List.mem_cons_self)
  have hinside := hall percentFormat tf (fun _ => 0) (fun _ _ => 0) [0x25] hformat
    (List.forall_mem_singleton.mpr rfl) 2 _ hbehind
  exact hinside 1 (by decide) rfl

end StarOS
