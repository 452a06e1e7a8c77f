import StarOS.Format

/-!
# What `printf` reads

A call reads characters of its format and words of its `va_list`.  Where `print_int` leaves its arrays nothing in
the source stops it, and so the accesses go on behind it.

* `printfTrace`        the accesses of a call, and of the calls for `%s`, in the order of the source;
* `printfTrace_follows`  where `printf` returns, halts or goes on, so does the trace, and it has the arguments that
                       were taken;
* `printfFrom_congr`   `printf` reads nothing that is not in the trace;
* `Trace.Le`, `printfTrace_mono`   with more rounds a trace gets longer;
* `Only`, `Ends`       what is true of all accesses of a call, and that it returns, with a rule for each round.
-/

namespace StarOS

/-- character `i` of a format, or argument `arg` of the call number `call` -/
inductive PrintfAccess where
  | byte (format : UInt32) (i : Nat)
  | word (call arg : Nat)

/-- a call that has returned tells the number of calls made -/
inductive Ending where
  | running
  | halted
  | returned (calls : Nat)

structure Trace where
  accesses : List PrintfAccess
  ending : Ending

namespace Trace

/-- with the accesses `as` before it -/
def after (t : Trace) (as : List PrintfAccess) : Trace := { t with accesses := as ++ t.accesses }

/-- what comes after a return -/
def andThen (t : Trace) (next : Nat → Trace) : Trace :=
  match t.ending with
  | .returned calls => (next calls).after t.accesses
  | .running => t
  | .halted => t

end Trace

/-- character `i` of the string at `format` -/
def charAt (mem : UInt32 → UInt8) (format : UInt32) (i : Nat) : UInt8 := mem (format + UInt32.ofNat i)

/-- the loop of `printf` from character `i` of the format on, in the call number `call`, which has taken `arg`
arguments; `calls` calls were made -/
def printfTrace (mem : UInt32 → UInt8) (words : Nat → Nat → UInt32) :
    Nat → Nat → Nat → UInt32 → Nat → Nat → Trace
  | 0, _, _, _, _, _ => ⟨[], .running⟩
  | fuel + 1, call, arg, format, i, calls =>
    let c := charAt mem format i
    if c = 0 then ⟨[.byte format i], .returned calls⟩
    else if c = 0x25 then
      let c := charAt mem format (i + 1)
      let more := fun calls => printfTrace mem words fuel call (arg + 1) format (i + 2) calls
      if c = 0x78 then (more calls).after [.byte format i, .byte format (i + 1), .word call arg]
      else if c = 0x73 then
        ((printfTrace mem words fuel calls 0 (words call arg) 0 (calls + 1)).andThen more).after
          [.byte format i, .byte format (i + 1), .word call arg]
      else if c = 0x64 then (more calls).after [.byte format i, .byte format (i + 1), .word call arg]
      else (printfTrace mem words fuel call arg format (i + 2) calls).after [.byte format i, .byte format (i + 1)]
    else if !isPrintable c then ⟨[.byte format i], .halted⟩
    else (printfTrace mem words fuel call arg format (i + 1) calls).after [.byte format i]

theorem charAt_start (format : UInt32) : format + UInt32.ofNat 0 = format := UInt32.add_zero format

theorem charAt_next (format : UInt32) (i : Nat) : format + UInt32.ofNat i + 1 = format + UInt32.ofNat (i + 1) := by
  rw [UInt32.ofNat_add, UInt32.add_assoc]
  rfl

theorem charAt_behind (format : UInt32) (i : Nat) :
    format + UInt32.ofNat i + 1 + 1 = format + UInt32.ofNat (i + 2) := by
  rw [charAt_next, charAt_next]

/-- the character behind a `%` -/
theorem second_eq (mem : UInt32 → UInt8) (format : UInt32) (i : Nat) :
    mem (format + UInt32.ofNat i + 1) = charAt mem format (i + 1) := congrArg mem (charAt_next format i)

/-! ## traces with more rounds -/

namespace Trace

/-- `t'` goes on where `t` is still running -/
def Le (t t' : Trace) : Prop := t = t' ∨ (t.ending = .running ∧ t.accesses <+: t'.accesses)

theorem Le.after {t t' : Trace} (h : t.Le t') (as : List PrintfAccess) : (t.after as).Le (t'.after as) := by
  rcases h with rfl | ⟨h1, h2⟩
  · exact .inl rfl
  · exact .inr ⟨h1, (List.prefix_append_right_inj as).mpr h2⟩

theorem prefix_andThen (t : Trace) (next : Nat → Trace) : t.accesses <+: (t.andThen next).accesses := by
  unfold andThen
  cases t.ending with
  | running => exact List.prefix_rfl
  | halted => exact List.prefix_rfl
  | returned calls => exact List.prefix_append _ _

theorem Le.andThen {t t' : Trace} {next next' : Nat → Trace} (h : t.Le t') (hn : ∀ calls, (next calls).Le (next' calls)) :
    (t.andThen next).Le (t'.andThen next') := by
  rcases h with rfl | ⟨h1, h2⟩
  · unfold Trace.andThen
    cases t.ending with
    | running => exact .inl rfl
    | halted => exact .inl rfl
    | returned calls => exact (hn calls).after _
  · have e : t.andThen next = t := by rw [Trace.andThen, h1]
    rw [e]
    exact .inr ⟨h1, h2.trans (prefix_andThen t' next')⟩

theorem Le.subset {t t' : Trace} (h : t.Le t') : t.accesses ⊆ t'.accesses := by
  rcases h with rfl | ⟨-, h⟩
  · exact List.Subset.refl _
  · exact h.subset

theorem Le.returned {t t' : Trace} (h : t.Le t') {calls : Nat} (hc : t.ending = .returned calls) : t' = t := by
  rcases h with rfl | ⟨h, -⟩
  · rfl
  · rw [h] at hc
    cases hc

end Trace

section
variable {mem : UInt32 → UInt8} {words : Nat → Nat → UInt32}

theorem printfTrace_mono {m n : Nat} (h : m ≤ n) (call arg : Nat) (format : UInt32) (i calls : Nat) :
    (printfTrace mem words m call arg format i calls).Le (printfTrace mem words n call arg format i calls) := by
  induction m generalizing n call arg format i calls with
  | zero => exact .inr ⟨rfl, List.nil_prefix⟩
  | succ m ih =>
    obtain ⟨n, rfl⟩ := Nat.exists_eq_add_one.mpr (Nat.zero_lt_of_lt h)
    have ih := fun call arg format i calls => ih (Nat.le_of_succ_le_succ h) call arg format i calls
    rw [printfTrace, printfTrace]
    dsimp only
    split
    · exact .inl rfl
    split
    · split
      · exact (ih _ _ _ _ _).after _
      split
      · exact ((ih _ _ _ _ _).andThen fun _ => ih _ _ _ _ _).after _
      split
      · exact (ih _ _ _ _ _).after _
      · exact (ih _ _ _ _ _).after _
    split
    · exact .inl rfl
    · exact (ih _ _ _ _ _).after _

/-! ## the rounds of the loop -/

variable {call arg : Nat} {format : UInt32} {i calls : Nat} (fuel : Nat)

/-- a round begins with a character of the format -/
theorem first_mem : .byte format i ∈ (printfTrace mem words (fuel + 1) call arg format i calls).accesses := by
  rw [printfTrace]
  dsimp only
  split
  · exact List.mem_cons_self
  split
  · split
    · exact List.mem_cons_self
    split
    · exact List.mem_cons_self
    split
    · exact List.mem_cons_self
    · exact List.mem_cons_self
  split
  · exact List.mem_cons_self
  · exact List.mem_cons_self

theorem printfTrace_end (h : charAt mem format i = 0) :
    printfTrace mem words (fuel + 1) call arg format i calls = ⟨[.byte format i], .returned calls⟩ :=
  if_pos h

theorem printfTrace_char {c : UInt8} (h : charAt mem format i = c) (h0 : c ≠ 0) (hp : c ≠ 0x25)
    (hc : isPrintable c = true) : printfTrace mem words (fuel + 1) call arg format i calls
      = (printfTrace mem words fuel call arg format (i + 1) calls).after [.byte format i] := by
  rw [printfTrace, h]
  dsimp only
  rw [if_neg h0, if_neg hp, hc]
  rfl

theorem printfTrace_halt {c : UInt8} (h : charAt mem format i = c) (h0 : c ≠ 0) (hp : c ≠ 0x25)
    (hc : isPrintable c = false) :
    printfTrace mem words (fuel + 1) call arg format i calls = ⟨[.byte format i], .halted⟩ := by
  rw [printfTrace, h]
  dsimp only
  rw [if_neg h0, if_neg hp, hc]
  rfl

section
variable (h : charAt mem format i = 0x25) {d : UInt8} (hd : charAt mem format (i + 1) = d)
include h hd

theorem printfTrace_word (hw : d = 0x78 ∨ d = 0x64) : printfTrace mem words (fuel + 1) call arg format i calls
    = (printfTrace mem words fuel call (arg + 1) format (i + 2) calls).after
        [.byte format i, .byte format (i + 1), .word call arg] := by
  rw [printfTrace, h, hd]
  rcases hw with rfl | rfl <;> rfl

theorem printfTrace_string (hs : d = 0x73) : printfTrace mem words (fuel + 1) call arg format i calls
    = ((printfTrace mem words fuel calls 0 (words call arg) 0 (calls + 1)).andThen
        fun calls => printfTrace mem words fuel call (arg + 1) format (i + 2) calls).after
        [.byte format i, .byte format (i + 1), .word call arg] := by
  rw [printfTrace, h, hd, hs]
  rfl

theorem printfTrace_other (hx : d ≠ 0x78) (hs : d ≠ 0x73) (hi : d ≠ 0x64) :
    printfTrace mem words (fuel + 1) call arg format i calls
      = (printfTrace mem words fuel call arg format (i + 2) calls).after [.byte format i, .byte format (i + 1)] := by
  rw [printfTrace, h, hd]
  dsimp only
  rw [if_neg (by decide), if_pos rfl, if_neg hx, if_neg hs, if_neg hi]

end

end

/-! ## the trace of `printf` -/

/-- the call and the number of an argument that is taken -/
def PrintfAccess.argument : PrintfAccess → Option (Nat × Nat)
  | .byte _ _ => none
  | .word call arg => some (call, arg)

/-- the trace of a call that starts with `s` and ends like this; `outOfBounds` is an index of `print_int` -/
def Trace.Follows (t : Trace) (s : Printed) : Option (Except Fatal Printed) → Prop
  | none => t.ending = .running
  | some (.ok s') => t.ending = .returned s'.calls ∧ s'.taken = s.taken ++ t.accesses.filterMap PrintfAccess.argument
  | some (.error e) => e = .outOfBounds ∨ t.ending = .halted

theorem Trace.Follows.after {t : Trace} {s u : Printed} {r : Option (Except Fatal Printed)} (h : t.Follows u r)
    {as : List PrintfAccess} (hs : u.taken = s.taken ++ as.filterMap PrintfAccess.argument) : (t.after as).Follows s r := by
  match r with
  | none => exact h
  | some (.ok s') =>
    refine ⟨h.1, ?_⟩
    show s'.taken = s.taken ++ (as ++ t.accesses).filterMap _
    rw [h.2, hs, List.filterMap_append, List.append_assoc]
  | some (.error e) => exact h

/-- after a return both go on, and otherwise neither does -/
theorem Trace.Follows.andThen {t : Trace} {next : Nat → Trace} {s : Printed} {r : Option (Except Fatal Printed)}
    {more : Printed → Option (Except Fatal Printed)} (hn : ∀ s' : Printed, (next s'.calls).Follows s' (more s')) :
    t.Follows s r → (t.andThen next).Follows s (match r with | some (.ok s') => more s' | r => r) := by
  intro h
  match r with
  | none =>
    have hrun : t.ending = .running := h
    rw [Trace.andThen, hrun]
    exact hrun
  | some (.error e) =>
    refine h.imp_right fun hhalt => ?_
    have hhalt : t.ending = .halted := hhalt
    rw [Trace.andThen, hhalt]
    exact hhalt
  | some (.ok s') =>
    obtain ⟨hret, htaken⟩ := h
    rw [Trace.andThen, hret]
    exact (hn s').after htaken

/-- the trace ends as `printf` does, unless `print_int` leaves its arrays, and has the arguments that were taken -/
theorem printfTrace_follows (mem : UInt32 → UInt8) (words : Nat → Nat → UInt32) (fuel call arg : Nat) (format : UInt32)
    (i : Nat) (s : Printed) : (printfTrace mem words fuel call arg format i s.calls).Follows s
      (printfFrom mem words fuel call arg (format + UInt32.ofNat i) s) := by
  induction fuel generalizing call arg format i s with
  | zero => rfl
  | succ fuel ih =>
    have hbehind := charAt_behind format i
    have hsecond := second_eq mem format i
    cases asks (charAt mem format i) (charAt mem format (i + 1)) with
    | finish h0 =>
      rw [printfFrom_end h0, printfTrace_end fuel h0]
      exact ⟨rfl, (List.append_nil _).symm⟩
    | hex hp hd =>
      rw [printfFrom_hex hp (hsecond.trans hd), printfTrace_word fuel hp hd (.inl rfl), hbehind]
      exact (ih call (arg + 1) format (i + 2) _).after rfl
    | string hp hd =>
      rw [printfFrom_string hp (hsecond.trans hd), printfTrace_string fuel hp hd rfl, hbehind]
      have hinner := ih s.calls 0 (words call arg) 0 (s.take call arg).enter
      rw [charAt_start] at hinner
      refine Trace.Follows.after (u := (s.take call arg).enter) ?_ rfl
      exact Trace.Follows.andThen (fun s' => ih call (arg + 1) format (i + 2) s') hinner
    | int hp hd =>
      rw [printfFrom_int hp (hsecond.trans hd), printfTrace_word fuel hp hd (.inr rfl), hbehind]
      rcases printInt_cases (words call arg).toInt32 with ⟨-, hout⟩ | ⟨-, herr⟩
      · rw [hout]
        exact (ih call (arg + 1) format (i + 2) _).after rfl
      · rw [herr]
        exact .inl rfl
    | other hp hx hs hi =>
      rw [printfFrom_other hp (hsecond.trans_ne hx) (hsecond.trans_ne hs) (hsecond.trans_ne hi),
        printfTrace_other fuel hp rfl hx hs hi, hbehind]
      exact (ih call arg format (i + 2) s).after (List.append_nil _).symm
    | char h0 hp =>
      cases hprint : isPrintable (charAt mem format i) with
      | true =>
        rw [printfFrom_char rfl h0 hp hprint, printfTrace_char fuel rfl h0 hp hprint, charAt_next]
        exact (ih call arg format (i + 1) _).after (List.append_nil _).symm
      | false =>
        rw [printfFrom_halt rfl h0 hp hprint, printfTrace_halt fuel rfl h0 hp hprint]
        exact .inr rfl

/-- the memory and the arguments that agree at the accesses -/
structure Agree (mem mem' : UInt32 → UInt8) (words words' : Nat → Nat → UInt32) (as : List PrintfAccess) : Prop where
  byte : ∀ format i, .byte format i ∈ as → charAt mem' format i = charAt mem format i
  word : ∀ call arg, .word call arg ∈ as → words' call arg = words call arg

theorem Agree.of_subset {mem mem' : UInt32 → UInt8} {words words' : Nat → Nat → UInt32} {as bs : List PrintfAccess}
    (h : Agree mem mem' words words' bs) (hs : as ⊆ bs) : Agree mem mem' words words' as :=
  ⟨fun format i ha => h.byte format i (hs ha), fun call arg ha => h.word call arg (hs ha)⟩

section
variable {mem mem' : UInt32 → UInt8} {words words' : Nat → Nat → UInt32} {t : Trace} {as : List PrintfAccess}
  {call arg : Nat} {format : UInt32} {i : Nat}

/-- after the accesses of a round -/
theorem Agree.rest (h : Agree mem mem' words words' (t.after as).accesses) : Agree mem mem' words words' t.accesses :=
  h.of_subset (List.subset_append_right _ _)

theorem Agree.second
    (h : Agree mem mem' words words' (t.after (.byte format i :: .byte format (i + 1) :: as)).accesses) :
    mem' (format + UInt32.ofNat i + 1) = charAt mem format (i + 1) :=
  (second_eq mem' format i).trans (h.byte format (i + 1) (List.mem_cons_of_mem _ List.mem_cons_self))

theorem Agree.argument
    (h : Agree mem mem' words words' (t.after [.byte format i, .byte format (i + 1), .word call arg]).accesses) :
    words' call arg = words call arg :=
  h.word call arg (List.mem_cons_of_mem _ (List.mem_cons_of_mem _ List.mem_cons_self))

end

/-- `printf` reads nothing that is not in the trace -/
theorem printfFrom_congr {mem mem' : UInt32 → UInt8} {words words' : Nat → Nat → UInt32} {fuel call arg : Nat}
    {format : UInt32} {i : Nat} {s : Printed}
    (h : Agree mem mem' words words' (printfTrace mem words fuel call arg format i s.calls).accesses) :
    printfFrom mem' words' fuel call arg (format + UInt32.ofNat i) s
      = printfFrom mem words fuel call arg (format + UInt32.ofNat i) s := by
  induction fuel generalizing call arg format i s with
  | zero => rfl
  | succ fuel ih =>
    have hbehind := charAt_behind format i
    have hfirst : charAt mem' format i = charAt mem format i := h.byte format i (first_mem fuel)
    have hsecond := second_eq mem format i
    cases asks (charAt mem format i) (charAt mem format (i + 1)) with
    | finish h0 => rw [printfFrom_end (hfirst.trans h0), printfFrom_end h0]
    | hex hp hd =>
      rw [printfTrace_word fuel hp hd (.inl rfl)] at h
      rw [printfFrom_hex (hfirst.trans hp) (h.second.trans hd), printfFrom_hex hp (hsecond.trans hd), h.argument, hbehind]
      exact ih h.rest
    | string hp hd =>
      rw [printfTrace_string fuel hp hd rfl] at h
      rw [printfFrom_string (hfirst.trans hp) (h.second.trans hd), printfFrom_string hp (hsecond.trans hd), h.argument,
        hbehind]
      have hwhole := h.rest
      have hinner : printfFrom mem' words' fuel s.calls 0 (words call arg + UInt32.ofNat 0) (s.take call arg).enter
          = printfFrom mem words fuel s.calls 0 (words call arg + UInt32.ofNat 0) (s.take call arg).enter :=
        ih (hwhole.of_subset (Trace.prefix_andThen _ _).subset)
      have hfollows := printfTrace_follows mem words fuel s.calls 0 (words call arg) 0 (s.take call arg).enter
      rw [charAt_start] at hinner hfollows
      rw [hinner]
      generalize printfFrom mem words fuel s.calls 0 (words call arg) (s.take call arg).enter = r at hfollows ⊢
      match r with
      | none => rfl
      | some (.error _) => rfl
      | some (.ok s') =>
        have hret : (printfTrace mem words fuel s.calls 0 (words call arg) 0 (s.calls + 1)).ending
            = .returned s'.calls := hfollows.1
        rw [Trace.andThen, hret] at hwhole
        exact ih hwhole.rest
    | int hp hd =>
      rw [printfTrace_word fuel hp hd (.inr rfl)] at h
      rw [printfFrom_int (hfirst.trans hp) (h.second.trans hd), printfFrom_int hp (hsecond.trans hd), h.argument, hbehind]
      cases printInt (words call arg).toInt32.toInt with
      | error _ => rfl
      | ok out => exact ih h.rest
    | other hp hx hs hi =>
      rw [printfTrace_other fuel hp rfl hx hs hi] at h
      have hd' := h.second
      rw [printfFrom_other (hfirst.trans hp) (hd'.trans_ne hx) (hd'.trans_ne hs) (hd'.trans_ne hi),
        printfFrom_other hp (hsecond.trans_ne hx) (hsecond.trans_ne hs) (hsecond.trans_ne hi), hbehind]
      exact ih h.rest
    | char h0 hp =>
      cases hprint : isPrintable (charAt mem format i) with
      | true =>
        rw [printfTrace_char fuel rfl h0 hp hprint] at h
        rw [printfFrom_char hfirst h0 hp hprint, printfFrom_char rfl h0 hp hprint, charAt_next]
        exact ih h.rest
      | false => exact (printfFrom_halt hfirst h0 hp hprint).trans (printfFrom_halt rfl h0 hp hprint).symm

/-! ## all accesses of a call -/

section
variable (mem : UInt32 → UInt8) (words : Nat → Nat → UInt32)

/-- all accesses from character `i` of the format on satisfy `P` -/
def Only (P : PrintfAccess → Prop) (call arg : Nat) (format : UInt32) (i calls : Nat) : Prop :=
  ∀ fuel, ∀ a ∈ (printfTrace mem words fuel call arg format i calls).accesses, P a

/-- the call returns, with `calls'` calls made -/
def Ends (call arg : Nat) (format : UInt32) (i calls calls' : Nat) : Prop :=
  ∃ fuel, (printfTrace mem words fuel call arg format i calls).ending = .returned calls'

end

section
variable {mem : UInt32 → UInt8} {words : Nat → Nat → UInt32} {P : PrintfAccess → Prop}
  {call arg call' arg' : Nat} {format format' : UInt32} {i i' calls calls' n : Nat}

/-- a round that goes on -/
theorem only_after {as : List PrintfAccess} (h : ∀ fuel, printfTrace mem words (fuel + 1) call arg format i calls
    = (printfTrace mem words fuel call' arg' format' i' calls').after as) :
    Only mem words P call arg format i calls ↔ (∀ a ∈ as, P a) ∧ Only mem words P call' arg' format' i' calls' := by
  constructor
  · intro hall
    refine ⟨fun a ha => ?_, fun fuel a ha => ?_⟩
    · have h1 := hall 1 a
      rw [h 0] at h1
      exact h1 (List.mem_append_left _ ha)
    · have h1 := hall (fuel + 1) a
      rw [h fuel] at h1
      exact h1 (List.mem_append_right _ ha)
  · rintro ⟨has, hall⟩ fuel a ha
    cases fuel with
    | zero => exact absurd ha List.not_mem_nil
    | succ fuel =>
      rw [h fuel] at ha
      exact (List.mem_append.mp ha).elim (has a) (hall fuel a)

theorem ends_after {as : List PrintfAccess} (h : ∀ fuel, printfTrace mem words (fuel + 1) call arg format i calls
    = (printfTrace mem words fuel call' arg' format' i' calls').after as) :
    Ends mem words call arg format i calls n ↔ Ends mem words call' arg' format' i' calls' n := by
  constructor
  · rintro ⟨fuel, hn⟩
    cases fuel with
    | zero => cases hn
    | succ fuel =>
      rw [h fuel] at hn
      exact ⟨fuel, hn⟩
  · rintro ⟨fuel, hn⟩
    refine ⟨fuel + 1, ?_⟩
    rw [h fuel]
    exact hn

/-- a round that does not -/
theorem only_last {t : Trace} (h : ∀ fuel, printfTrace mem words (fuel + 1) call arg format i calls = t) :
    Only mem words P call arg format i calls ↔ ∀ a ∈ t.accesses, P a := by
  constructor
  · intro hall
    exact h 0 ▸ hall 1
  · intro ht fuel a ha
    cases fuel with
    | zero => exact absurd ha List.not_mem_nil
    | succ fuel =>
      rw [h fuel] at ha
      exact ht a ha

theorem ends_last {t : Trace} (h : ∀ fuel, printfTrace mem words (fuel + 1) call arg format i calls = t) :
    Ends mem words call arg format i calls n ↔ t.ending = .returned n := by
  constructor
  · rintro ⟨fuel, hn⟩
    cases fuel with
    | zero => cases hn
    | succ fuel => exact h fuel ▸ hn
  · intro ht
    refine ⟨1, ?_⟩
    rw [h 0]
    exact ht

theorem only_first (h : Only mem words P call arg format i calls) : P (.byte format i) := h 1 _ (first_mem 0)

/-- a call for `%s`, and what comes after it -/
theorem only_string (h : charAt mem format i = 0x25) (hd : charAt mem format (i + 1) = 0x73) :
    Only mem words P call arg format i calls ↔
      (∀ a ∈ [.byte format i, .byte format (i + 1), .word call arg], P a) ∧
      Only mem words P calls 0 (words call arg) 0 (calls + 1) ∧
      ∀ n, Ends mem words calls 0 (words call arg) 0 (calls + 1) n →
        Only mem words P call (arg + 1) format (i + 2) n := by
  have hround : ∀ fuel, printfTrace mem words (fuel + 1) call arg format i calls
      = ((printfTrace mem words fuel calls 0 (words call arg) 0 (calls + 1)).andThen
          fun calls => printfTrace mem words fuel call (arg + 1) format (i + 2) calls).after
          [.byte format i, .byte format (i + 1), .word call arg] := fun fuel => printfTrace_string fuel h hd rfl
  constructor
  · intro hall
    refine ⟨fun a ha => ?_, fun fuel a ha => ?_, fun n hn fuel a ha => ?_⟩
    · have h1 := hall 1 a
      rw [hround 0] at h1
      exact h1 (List.mem_append_left _ ha)
    · have h1 := hall (fuel + 1) a
      rw [hround fuel] at h1
      exact h1 (List.mem_append_right _ ((Trace.prefix_andThen _ _).subset ha))
    · -- as many rounds as both need
      obtain ⟨m, hm⟩ := hn
      have hinner := (printfTrace_mono (Nat.le_max_left m fuel) calls 0 (words call arg) 0 (calls + 1)).returned hm
      have hrest := (printfTrace_mono (Nat.le_max_right m fuel) call (arg + 1) format (i + 2) n).subset ha
      have h1 := hall (max m fuel + 1) a
      rw [hround, Trace.andThen, hinner, hm] at h1
      exact h1 (List.mem_append_right _ (List.mem_append_right _ hrest))
  · rintro ⟨has, hinner, hrest⟩ fuel a ha
    cases fuel with
    | zero => exact absurd ha List.not_mem_nil
    | succ fuel =>
      rw [hround fuel] at ha
      rcases List.mem_append.mp ha with ha | ha
      · exact has a ha
      · rw [Trace.andThen] at ha
        cases hend : (printfTrace mem words fuel calls 0 (words call arg) 0 (calls + 1)).ending with
        | running =>
          rw [hend] at ha
          exact hinner fuel a ha
        | halted =>
          rw [hend] at ha
          exact hinner fuel a ha
        | returned n =>
          rw [hend] at ha
          exact (List.mem_append.mp ha).elim (hinner fuel a) (hrest n ⟨fuel, hend⟩ fuel a)

end

end StarOS
