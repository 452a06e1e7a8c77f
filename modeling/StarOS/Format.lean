import StarOS.Print
import Mathlib.Data.Nat.Digits.Lemmas

/-!
# Formatted printing (`printf`, `print_hex`, `print_int`)

A string is where a 32-bit pointer leads, up to its null byte.  The arguments of a call are the words of its
`va_list`; the calls are numbered as they are made, so that also what a call made for `%s` finds there (it is
called with no arguments) is some word.

* `emit`, `printHex`, `printInt`, `printfFrom`   the source;
* `hexLoop_eq`, `intLoop_eq`   the loops over the digits are `Nat.digitsAppend`;
* `Asks`               what a round of `printf` finds, with a lemma for each case of it;
* `printed_decimal_iff`   `%d` prints the decimal notation of `n` exactly for `0 < n`: a negative remainder is
                       no index of `int_str`, and for 0 the loop over the zeros leaves the buffer;
* `Piece`, `Verbatim`  a format, and what it is to print its pieces;
* `printf_verbatim_iff`   they are printed exactly if no argument string has a `%` and the literal characters
                       are printable, for **`printf` prints no `%`**.
-/

namespace StarOS

/-! ## the source -/

def hexStr : List UInt8 := [48, 49, 50, 51, 52, 53, 54, 55, 56, 57, 97, 98, 99, 100, 101, 102, 0]

def intStr : List UInt8 := [48, 49, 50, 51, 52, 53, 54, 55, 56, 57, 0]

/-- `print_c` for each character -/
def emit : List UInt8 → Except Fatal (List UInt8)
  | [] => .ok []
  | c :: cs =>
    if !isPrintable c then .error (.nonPrintableChar (c.toInt8.toInt % 2^32).toNat)
    else (emit cs).map (c :: ·)

/-- `n` rounds of the loop of `print_hex`, which fills its buffer from the end -/
def hexLoop : Nat → Nat → List UInt8 → List UInt8
  | 0, _, buffer => buffer
  | n + 1, data, buffer => hexLoop n (data / 16) (hexStr.getD (data % 16) 0 :: buffer)

/-- `print_hex` of a `uint32_t` -/
def printHex (data : UInt32) : Except Fatal (List UInt8) := emit (hexLoop 8 data.toNat [])

/-- `n` rounds of the loop of `print_int` -/
def intLoop : Nat → Int → List UInt8 → Except Fatal (List UInt8)
  | 0, _, buffer => .ok buffer
  | n + 1, data, buffer =>
    let reminder := data.tmod 10
    if 0 ≤ reminder ∧ reminder < intStr.length then
      intLoop n (data.tdiv 10) (intStr.getD reminder.toNat 0 :: buffer)
    else .error .outOfBounds

/-- the index at which the loop over the zeros ends, if it ends in the buffer -/
def skipZeros : List UInt8 → Nat → Except Fatal Nat
  | [], _ => .error .outOfBounds
  | c :: cs, index => if c = 48 then skipZeros cs (index + 1) else .ok index

/-- `print_int` of an `int` -/
def printInt (data : Int) : Except Fatal (List UInt8) := do
  let buffer ← intLoop 30 data []
  let index ← skipZeros buffer 0
  let index := if index = buffer.length then index - 1 else index
  emit (buffer.drop index)

/-- what is printed so far, the arguments that were taken (with the number of the call) and the number of
calls made -/
structure Printed where
  out : List UInt8
  taken : List (Nat × Nat)
  calls : Nat

namespace Printed

def take (s : Printed) (call arg : Nat) : Printed := { s with taken := s.taken ++ [(call, arg)] }
def put (s : Printed) (out : List UInt8) : Printed := { s with out := s.out ++ out }
def enter (s : Printed) : Printed := { s with calls := s.calls + 1 }

end Printed

/-- the loop of `printf` from `p` on, in the call number `call`, which has taken `arg` arguments -/
def printfFrom (mem : UInt32 → UInt8) (words : Nat → Nat → UInt32) :
    Nat → Nat → Nat → UInt32 → Printed → Option (Except Fatal Printed)
  | 0, _, _, _, _ => none
  | fuel + 1, call, arg, p, s =>
    let c := mem p
    if c = 0 then some (.ok s)
    else if c = 0x25 then
      let c := mem (p + 1)
      let data := words call arg
      let more := fun s => printfFrom mem words fuel call (arg + 1) (p + 1 + 1) s
      if c = 0x78 then
        match printHex data with
        | .error e => some (.error e)
        | .ok out => more ((s.take call arg).put out)
      else if c = 0x73 then
        match printfFrom mem words fuel s.calls 0 data (s.take call arg).enter with
        | some (.ok s) => more s
        | r => r
      else if c = 0x64 then
        match printInt data.toInt32.toInt with
        | .error e => some (.error e)
        | .ok out => more ((s.take call arg).put out)
      else printfFrom mem words fuel call arg (p + 1 + 1) s
    else
      match emit [c] with
      | .error e => some (.error e)
      | .ok out => printfFrom mem words fuel call arg (p + 1) (s.put out)

def printf (mem : UInt32 → UInt8) (words : Nat → Nat → UInt32) (fuel : Nat) (format : UInt32) :
    Option (Except Fatal Printed) := printfFrom mem words fuel 0 0 format ⟨[], [], 1⟩

/-- at `p` is the string `cs` -/
def StringAt (mem : UInt32 → UInt8) : UInt32 → List UInt8 → Prop
  | p, [] => mem p = 0
  | p, c :: cs => c ≠ 0 ∧ mem p = c ∧ StringAt mem (p + 1) cs

/-! ## digits -/

/-- the character of a digit -/
def digitChar (d : Nat) : UInt8 := UInt8.ofNat (if d < 10 then 48 + d else 87 + d)

theorem hexStr_getD {d : Nat} (h : d < 16) : hexStr.getD d 0 = digitChar d := by
  revert d
  decide

theorem intStr_getD {d : Nat} (h : d < 10) : intStr.getD d 0 = digitChar d := by
  revert d
  decide

theorem digitsAppend_succ {b : Nat} (hb : 1 < b) (n d : Nat) :
    Nat.digitsAppend b (n + 1) d = d % b :: Nat.digitsAppend b n (d / b) := by
  unfold Nat.digitsAppend
  by_cases h : d = 0
  · subst h
    rw [Nat.digits_zero, Nat.zero_mod, Nat.zero_div, Nat.digits_zero]
    exact List.replicate_succ
  · rw [Nat.digits_def' hb (Nat.pos_of_ne_zero h), List.length_cons, Nat.add_sub_add_right, List.cons_append]

theorem digitsAppend_zero {b d : Nat} (h : d < b ^ 0) : Nat.digitsAppend b 0 d = [] := by
  obtain rfl : d = 0 := Nat.lt_one_iff.mp h
  rw [Nat.digitsAppend, Nat.digits_zero]
  rfl

/-- the characters of the digits, the highest first -/
def digitChars (ds : List Nat) : List UInt8 := ds.reverse.map digitChar

theorem digitChars_cons (d : Nat) (ds : List Nat) : digitChars (d :: ds) = digitChars ds ++ [digitChar d] := by
  rw [digitChars, List.reverse_cons, List.map_append]
  rfl

theorem hexLoop_eq {n d : Nat} (h : d < 16 ^ n) (buffer : List UInt8) :
    hexLoop n d buffer = digitChars (Nat.digitsAppend 16 n d) ++ buffer := by
  induction n generalizing d buffer with
  | zero =>
    rw [digitsAppend_zero h]
    rfl
  | succ n ih =>
    have hd : d / 16 < 16 ^ n := Nat.div_lt_of_lt_mul (by rwa [Nat.pow_succ'] at h)
    rw [hexLoop, ih hd, digitsAppend_succ (by decide), digitChars_cons, List.append_assoc,
      hexStr_getD (Nat.mod_lt _ (by decide))]
    rfl

theorem intLoop_eq {n d : Nat} (h : d < 10 ^ n) (buffer : List UInt8) :
    intLoop n d buffer = .ok (digitChars (Nat.digitsAppend 10 n d) ++ buffer) := by
  induction n generalizing d buffer with
  | zero =>
    rw [digitsAppend_zero h]
    rfl
  | succ n ih =>
    have hd : d / 10 < 10 ^ n := Nat.div_lt_of_lt_mul (by rwa [Nat.pow_succ'] at h)
    have hmod : d % 10 < 10 := Nat.mod_lt _ (by decide)
    have hlen : intStr.length = 11 := rfl
    have e1 : ((d : Int)).tmod 10 = (d % 10 : Nat) := rfl
    have e2 : ((d : Int)).tdiv 10 = (d / 10 : Nat) := rfl
    rw [intLoop, e1, e2, if_pos (by omega), ih hd, digitsAppend_succ (by decide), digitChars_cons, List.append_assoc,
      Int.toNat_natCast, intStr_getD hmod]
    rfl

/-- a remainder of a negative number is negative, if it is not zero -/
theorem intLoop_negative {n d : Nat} (h0 : 0 < d) (h : d < 10 ^ n) (buffer : List UInt8) :
    intLoop n (-(d : Int)) buffer = .error .outOfBounds := by
  induction n generalizing d buffer with
  | zero => omega
  | succ n ih =>
    have e1 : (-(d : Int)).tmod 10 = -((d % 10 : Nat) : Int) := by
      rw [Int.neg_tmod]
      rfl
    have e2 : (-(d : Int)).tdiv 10 = -((d / 10 : Nat) : Int) := by
      rw [Int.neg_tdiv]
      rfl
    rw [intLoop, e1, e2]
    by_cases hz : d % 10 = 0
    · have hd : d / 10 < 10 ^ n := Nat.div_lt_of_lt_mul (by rwa [Nat.pow_succ'] at h)
      rw [if_pos (by rw [hz]; decide)]
      exact ih (by omega) hd _
    · rw [if_neg (by omega)]

/-! ## what is printed -/

def Printable (cs : List UInt8) : Prop := ∀ c ∈ cs, isPrintable c = true

theorem emit_eq {cs : List UInt8} (h : Printable cs) : emit cs = .ok cs := by
  induction cs with
  | nil => rfl
  | cons c cs ih =>
    have hc := h c List.mem_cons_self
    have hcs := ih fun d hd => h d (List.mem_cons_of_mem _ hd)
    rw [emit, hc, hcs]
    rfl

theorem emit_ok {cs out : List UInt8} (h : emit cs = .ok out) : out = cs ∧ Printable cs := by
  induction cs generalizing out with
  | nil =>
    cases h
    exact ⟨rfl, fun _ hc => absurd hc List.not_mem_nil⟩
  | cons c cs ih =>
    rw [emit] at h
    cases hc : isPrintable c with
    | false =>
      rw [hc] at h
      cases h
    | true =>
      rw [hc] at h
      cases hcs : emit cs with
      | error e =>
        rw [hcs] at h
        cases h
      | ok out' =>
        rw [hcs] at h
        cases h
        obtain ⟨rfl, hall⟩ := ih hcs
        exact ⟨rfl, List.forall_mem_cons.mpr ⟨hc, hall⟩⟩

/-- the characters of digits below 16 are printable, and none is `%` -/
theorem digitChar_printable {d : Nat} (h : d < 16) : isPrintable (digitChar d) = true ∧ digitChar d ≠ 0x25 := by
  revert d
  decide

theorem digitChars_printable {ds : List Nat} (h : ∀ d ∈ ds, d < 16) :
    Printable (digitChars ds) ∧ 0x25 ∉ digitChars ds := by
  have hall : ∀ c ∈ digitChars ds, isPrintable c = true ∧ c ≠ 0x25 := by
    intro c hc
    obtain ⟨d, hd, rfl⟩ := List.mem_map.mp hc
    exact digitChar_printable (h d (List.mem_reverse.mp hd))
  exact ⟨fun c hc => (hall c hc).1, fun hc => (hall _ hc).2 rfl⟩

/-! ## rounds -/

/-- what the characters `c` and, behind a `%`, `d` ask for -/
inductive Asks (c d : UInt8) : Prop where
  | finish (h0 : c = 0)
  | hex (hp : c = 0x25) (hd : d = 0x78)
  | string (hp : c = 0x25) (hd : d = 0x73)
  | int (hp : c = 0x25) (hd : d = 0x64)
  | other (hp : c = 0x25) (hx : d ≠ 0x78) (hs : d ≠ 0x73) (hi : d ≠ 0x64)
  | char (h0 : c ≠ 0) (hp : c ≠ 0x25)

theorem asks (c d : UInt8) : Asks c d := by
  by_cases h0 : c = 0
  · exact .finish h0
  by_cases hp : c = 0x25
  · by_cases hx : d = 0x78
    · exact .hex hp hx
    by_cases hs : d = 0x73
    · exact .string hp hs
    by_cases hi : d = 0x64
    · exact .int hp hi
    · exact .other hp hx hs hi
  · exact .char h0 hp

theorem hexDigits_lt {w : UInt32} {d : Nat} (hd : d ∈ Nat.digitsAppend 16 8 w.toNat) : d < 16 :=
  Nat.lt_of_mem_digitsAppend (by decide) 8 d hd

theorem printHex_eq (w : UInt32) : printHex w = .ok (digitChars (Nat.digitsAppend 16 8 w.toNat)) := by
  rw [printHex, hexLoop_eq w.toNat_lt, List.append_nil]
  exact emit_eq (digitChars_printable fun d hd => hexDigits_lt hd).1

section
variable {mem : UInt32 → UInt8} {words : Nat → Nat → UInt32} {fuel call arg : Nat} {p : UInt32} {s : Printed}

theorem printfFrom_end (h : mem p = 0) : printfFrom mem words (fuel + 1) call arg p s = some (.ok s) := if_pos h

theorem printfFrom_hex (h0 : mem p = 0x25) (h1 : mem (p + 1) = 0x78) :
    printfFrom mem words (fuel + 1) call arg p s = printfFrom mem words fuel call (arg + 1) (p + 1 + 1)
      ((s.take call arg).put (digitChars (Nat.digitsAppend 16 8 (words call arg).toNat))) := by
  rw [printfFrom]
  simp only [h0, h1, printHex_eq]
  rfl

theorem printfFrom_string (h0 : mem p = 0x25) (h1 : mem (p + 1) = 0x73) :
    printfFrom mem words (fuel + 1) call arg p s =
      match printfFrom mem words fuel s.calls 0 (words call arg) (s.take call arg).enter with
      | some (.ok s) => printfFrom mem words fuel call (arg + 1) (p + 1 + 1) s
      | r => r := by
  rw [printfFrom]
  simp only [h0, h1]
  rfl

theorem printfFrom_int (h0 : mem p = 0x25) (h1 : mem (p + 1) = 0x64) :
    printfFrom mem words (fuel + 1) call arg p s =
      match printInt (words call arg).toInt32.toInt with
      | .error e => some (.error e)
      | .ok out => printfFrom mem words fuel call (arg + 1) (p + 1 + 1) ((s.take call arg).put out) := by
  rw [printfFrom]
  simp only [h0, h1]
  rfl

theorem printfFrom_other (h0 : mem p = 0x25) (hx : mem (p + 1) ≠ 0x78) (hs : mem (p + 1) ≠ 0x73)
    (hi : mem (p + 1) ≠ 0x64) :
    printfFrom mem words (fuel + 1) call arg p s = printfFrom mem words fuel call arg (p + 1 + 1) s := by
  rw [printfFrom]
  simp only [h0, hx, hs, hi, if_false]
  rfl

/-- a printable character that is no `%` -/
theorem printfFrom_char {c : UInt8} (hc : mem p = c) (h0 : c ≠ 0) (hp : c ≠ 0x25) (hprint : isPrintable c = true) :
    printfFrom mem words (fuel + 1) call arg p s = printfFrom mem words fuel call arg (p + 1) (s.put [c]) := by
  have hemit : emit [c] = .ok [c] := emit_eq fun d hd => (List.mem_singleton.mp hd) ▸ hprint
  subst hc
  rw [printfFrom]
  simp only [h0, hp, hemit, if_false]

/-- another character -/
theorem printfFrom_halt {c : UInt8} (hc : mem p = c) (h0 : c ≠ 0) (hp : c ≠ 0x25) (hprint : isPrintable c = false) :
    printfFrom mem words (fuel + 1) call arg p s
      = some (.error (.nonPrintableChar (c.toInt8.toInt % 2^32).toNat)) := by
  have hemit : emit [c] = .error (.nonPrintableChar (c.toInt8.toInt % 2^32).toNat) := by
    rw [emit, hprint]
    rfl
  subst hc
  rw [printfFrom]
  simp only [h0, hp, hemit, if_false]

end

/-! ## `%d` -/

/-- the decimal notation of a number -/
def decimal (n : Int) : List UInt8 :=
  (if n < 0 then [0x2d] else []) ++ if n = 0 then [0x30] else digitChars (Nat.digits 10 n.natAbs)

theorem skipZeros_replicate (k : Nat) (cs : List UInt8) (index : Nat) :
    skipZeros (List.replicate k 48 ++ cs) index = skipZeros cs (index + k) := by
  induction k generalizing index with
  | zero => rfl
  | succ k ih =>
    rw [List.replicate_succ, List.cons_append, skipZeros, if_pos rfl, ih]
    congr 1
    omega

/-- leading zeros, and the digits -/
theorem digitChars_append_zeros (ds : List Nat) (k : Nat) :
    digitChars (ds ++ List.replicate k 0) = List.replicate k 48 ++ digitChars ds := by
  rw [digitChars, List.reverse_append, List.reverse_replicate, List.map_append, List.map_replicate]
  rfl

/-- the loop over the zeros ends at the first digit -/
theorem skipZeros_digits {d : Nat} (h : d ≠ 0) (index : Nat) :
    skipZeros (digitChars (Nat.digits 10 d)) index = .ok index := by
  have hne : Nat.digits 10 d ≠ [] := Nat.digits_ne_nil_iff_ne_zero.mpr h
  obtain ⟨x, hx⟩ : ∃ x, x = (Nat.digits 10 d).getLast hne := ⟨_, rfl⟩
  have hx0 : x ≠ 0 := hx ▸ Nat.getLast_digit_ne_zero 10 h
  have hlt : x < 10 := Nat.digits_lt_base (by decide) (hx ▸ List.getLast_mem hne)
  have hchar : ∀ y < 10, y ≠ 0 → digitChar y ≠ 48 := by decide
  have hsplit : digitChars (Nat.digits 10 d) = digitChar x :: digitChars (Nat.digits 10 d).dropLast := by
    rw [← List.dropLast_append_getLast hne, ← hx, digitChars, List.reverse_append, List.dropLast_concat]
    rfl
  rw [hsplit]
  exact if_neg (hchar x hlt hx0)

theorem printInt_pos {d : Nat} (h0 : d ≠ 0) (h : d < 10 ^ 30) : printInt d = .ok (digitChars (Nat.digits 10 d)) := by
  have hbuffer := intLoop_eq h []
  rw [List.append_nil, Nat.digitsAppend, digitChars_append_zeros] at hbuffer
  have hdigits : ∀ x ∈ Nat.digits 10 d, x < 16 := fun x hx => by
    have := Nat.digits_lt_base (b := 10) (by decide) hx
    omega
  have hlen : 0 < (digitChars (Nat.digits 10 d)).length := by
    rw [digitChars, List.length_map, List.length_reverse]
    exact List.length_pos_of_ne_nil (Nat.digits_ne_nil_iff_ne_zero.mpr h0)
  rw [printInt, hbuffer]
  show (skipZeros _ 0 >>= _) = _
  rw [skipZeros_replicate, skipZeros_digits h0]
  show emit (List.drop (if _ then _ else _) _) = _
  rw [List.length_append, List.length_replicate, if_neg (by omega), Nat.zero_add, List.drop_left' List.length_replicate]
  exact emit_eq (digitChars_printable hdigits).1

/-- all digits are zeros, and so the loop over the zeros goes on behind the buffer -/
theorem printInt_zero : printInt 0 = .error .outOfBounds := rfl

theorem printInt_negative {d : Nat} (h0 : 0 < d) (h : d < 10 ^ 30) : printInt (-(d : Int)) = .error .outOfBounds := by
  rw [printInt, intLoop_negative h0 h]
  rfl

/-- the decimal notation is printed for positive numbers only -/
theorem printInt_cases (n : Int32) : (0 < n.toInt ∧ printInt n.toInt = .ok (decimal n.toInt)) ∨
    (n.toInt ≤ 0 ∧ printInt n.toInt = .error .outOfBounds) := by
  have hlo := n.le_toInt
  have hhi := n.toInt_lt
  have hbound : n.toInt.natAbs < 10 ^ 30 := by omega
  rcases Int.lt_trichotomy n.toInt 0 with hneg | hzero | hpos
  · have e : n.toInt = -(n.toInt.natAbs : Int) := by omega
    have herr := printInt_negative (d := n.toInt.natAbs) (by omega) hbound
    rw [← e] at herr
    exact .inr ⟨by omega, herr⟩
  · rw [hzero]
    exact .inr ⟨Int.le_refl 0, printInt_zero⟩
  · have e : n.toInt = (n.toInt.natAbs : Int) := by omega
    have hok := printInt_pos (d := n.toInt.natAbs) (by omega) hbound
    rw [← e] at hok
    rw [hok, decimal, if_neg (by omega), if_neg (by omega)]
    exact .inl ⟨hpos, rfl⟩

theorem printInt_iff (n : Int32) : printInt n.toInt = .ok (decimal n.toInt) ↔ 0 < n.toInt := by
  rcases printInt_cases n with ⟨hpos, hok⟩ | ⟨hle, herr⟩
  · exact iff_of_true hok hpos
  · rw [herr]
    exact iff_of_false (fun h => by cases h) (by omega)

section
variable {mem : UInt32 → UInt8} {words : Nat → Nat → UInt32}

/-- the format `%d` prints what `print_int` prints -/
theorem printf_int {format : UInt32} (h : StringAt mem format [0x25, 0x64]) (cs : List UInt8) :
    (∃ fuel t, printf mem words fuel format = some (.ok t) ∧ t.out = cs) ↔
      printInt (words 0 0).toInt32.toInt = .ok cs := by
  obtain ⟨-, h0, -, h1, h2⟩ := h
  constructor
  · rintro ⟨fuel, t, ht, rfl⟩
    cases fuel with
    | zero => cases ht
    | succ fuel =>
      rw [printf, printfFrom_int h0 h1] at ht
      cases hp : printInt (words 0 0).toInt32.toInt with
      | error e =>
        rw [hp] at ht
        cases ht
      | ok out =>
        rw [hp] at ht
        cases fuel with
        | zero => cases ht
        | succ fuel =>
          dsimp only at ht
          rw [printfFrom_end h2] at ht
          cases ht
          rfl
  · intro hp
    refine ⟨2, ((⟨[], [], 1⟩ : Printed).take 0 0).put cs, ?_, rfl⟩
    rw [printf, printfFrom_int h0 h1, hp]
    exact printfFrom_end h2

end

/-- **`printf("%d", n)` prints the decimal notation of `n`, and `print_int` stays inside `int_str` and its
buffer, if and only if `n` is positive.** -/
theorem printed_decimal_iff (mem : UInt32 → UInt8) (words : Nat → Nat → UInt32) (format : UInt32) (n : Int32)
    (hformat : StringAt mem format [0x25, 0x64]) (hn : words 0 0 = n.toUInt32) :
    (∃ fuel t, printf mem words fuel format = some (.ok t) ∧ t.out = decimal n.toInt) ↔ 0 < n.toInt := by
  rw [printf_int hformat, hn]
  exact printInt_iff n

/-- the format `%d` at address 0 -/
def intFormat : UInt32 → UInt8 := fun p => if p = 0 then 0x25 else if p = 1 then 0x64 else 0

theorem intFormat_at : StringAt intFormat 0 [0x25, 0x64] := by
  unfold StringAt StringAt StringAt
  decide

theorem printed_decimal_fifty : ∃ fuel t, printf intFormat (fun _ _ => 50) fuel 0 = some (.ok t) ∧
    t.out = decimal (50 : Int32).toInt :=
  (printed_decimal_iff intFormat (fun _ _ => 50) 0 50 intFormat_at rfl).mpr (by decide)

/-- the first remainder of -7 is the index -7 -/
theorem negative_not_printed : ¬ ∀ (mem : UInt32 → UInt8) (words : Nat → Nat → UInt32) (format : UInt32)
    (n : Int32), StringAt mem format [0x25, 0x64] → words 0 0 = n.toUInt32 →
    ∃ fuel t, printf mem words fuel format = some (.ok t) ∧ t.out = decimal n.toInt := by
  intro hall
  have h := hall intFormat (fun _ _ => (-7 : Int32).toUInt32) 0 (-7) intFormat_at rfl
  rw [printf_int intFormat_at] at h
  exact absurd ((printInt_iff (-7)).mp h) (by decide)

/-! ## no `%` is printed -/

def Clean (cs : List UInt8) : Prop := Printable cs ∧ 0x25 ∉ cs

theorem clean_append {cs ds : List UInt8} (hc : Clean cs) (hd : Clean ds) : Clean (cs ++ ds) := by
  refine ⟨fun c h => ?_, fun h => ?_⟩
  · rcases List.mem_append.mp h with h | h
    · exact hc.1 c h
    · exact hd.1 c h
  · rcases List.mem_append.mp h with h | h
    · exact hc.2 h
    · exact hd.2 h

theorem intLoop_clean {n : Nat} {data : Int} {buffer out : List UInt8} (h : intLoop n data buffer = .ok out)
    (hb : 0x25 ∉ buffer) : 0x25 ∉ out := by
  induction n generalizing data buffer with
  | zero =>
    cases h
    exact hb
  | succ n ih =>
    rw [intLoop] at h
    by_cases hr : 0 ≤ data.tmod 10 ∧ data.tmod 10 < intStr.length
    · rw [if_pos hr] at h
      have hchar : ∀ i < 11, (0x25 : UInt8) ≠ intStr.getD i 0 := by decide
      have hlen : intStr.length = 11 := rfl
      exact ih h (List.not_mem_cons_of_ne_of_not_mem (hchar _ (by omega)) hb)
    · rw [if_neg hr] at h
      cases h

theorem printInt_clean {n : Int} {out : List UInt8} (h : printInt n = .ok out) : Clean out := by
  unfold printInt at h
  cases hb : intLoop 30 n [] with
  | error e =>
    rw [hb] at h
    cases h
  | ok buffer =>
    have hclean := intLoop_clean hb List.not_mem_nil
    rw [hb] at h
    change (skipZeros buffer 0 >>= _) = _ at h
    cases hi : skipZeros buffer 0 with
    | error e =>
      rw [hi] at h
      cases h
    | ok index =>
      rw [hi] at h
      obtain ⟨rfl, hp⟩ := emit_ok h
      exact ⟨hp, fun hmem => hclean (List.mem_of_mem_drop hmem)⟩

section
variable {mem : UInt32 → UInt8} {words : Nat → Nat → UInt32}

theorem printfFrom_clean {fuel call arg : Nat} {p : UInt32} {s t : Printed}
    (h : printfFrom mem words fuel call arg p s = some (.ok t)) (hs : Clean s.out) : Clean t.out := by
  induction fuel generalizing call arg p s t with
  | zero => cases h
  | succ fuel ih =>
    cases asks (mem p) (mem (p + 1)) with
    | finish h0 =>
      rw [printfFrom_end h0] at h
      cases h
      exact hs
    | hex h0 h1 =>
      rw [printfFrom_hex h0 h1] at h
      exact ih h (clean_append hs (digitChars_printable fun d hd => hexDigits_lt hd))
    | string h0 h1 =>
      rw [printfFrom_string h0 h1] at h
      cases hcall : printfFrom mem words fuel s.calls 0 (words call arg) (s.take call arg).enter with
      | none =>
        rw [hcall] at h
        cases h
      | some r =>
        cases r with
        | error e =>
          rw [hcall] at h
          cases h
        | ok u =>
          rw [hcall] at h
          exact ih h (ih hcall hs)
    | int h0 h1 =>
      rw [printfFrom_int h0 h1] at h
      cases hout : printInt (words call arg).toInt32.toInt with
      | error e =>
        rw [hout] at h
        cases h
      | ok out =>
        rw [hout] at h
        exact ih h (clean_append hs (printInt_clean hout))
    | other h0 hx hstr hi =>
      rw [printfFrom_other h0 hx hstr hi] at h
      exact ih h hs
    | char h0 hp =>
      cases hprint : isPrintable (mem p) with
      | true =>
        rw [printfFrom_char rfl h0 hp hprint] at h
        refine ih h (clean_append hs ⟨fun c hc => ?_, fun hmem => hp (List.mem_singleton.mp hmem).symm⟩)
        rw [List.mem_singleton.mp hc]
        exact hprint
      | false =>
        rw [printfFrom_halt rfl h0 hp hprint] at h
        cases h

theorem printf_clean {fuel : Nat} {format : UInt32} {t : Printed}
    (h : printf mem words fuel format = some (.ok t)) : Clean t.out :=
  printfFrom_clean h ⟨fun _ hc => absurd hc List.not_mem_nil, List.not_mem_nil⟩

/-! ## strings -/

/-- a string without a `%` is printed as it is -/
theorem printfFrom_plain {cs : List UInt8} {fuel call arg : Nat} {p : UInt32} {s : Printed}
    (h : StringAt mem p cs) (hclean : Clean cs) (hfuel : cs.length < fuel) :
    printfFrom mem words fuel call arg p s = some (.ok (s.put cs)) := by
  induction cs generalizing fuel p s with
  | nil =>
    obtain ⟨fuel, rfl⟩ := Nat.exists_eq_add_one.mpr hfuel
    have hput : s.put [] = s := by
      show ({ s with out := s.out ++ [] } : Printed) = s
      rw [List.append_nil]
    rw [hput]
    exact printfFrom_end h
  | cons c cs ih =>
    obtain ⟨fuel, rfl⟩ := Nat.exists_eq_add_one.mpr (Nat.zero_lt_of_lt hfuel)
    obtain ⟨hc0, hc, hrest⟩ := h
    have hclean' : Clean cs :=
      ⟨fun d hd => hclean.1 d (List.mem_cons_of_mem _ hd), List.not_mem_of_not_mem_cons hclean.2⟩
    rw [printfFrom_char hc hc0 (List.ne_of_not_mem_cons hclean.2).symm (hclean.1 c List.mem_cons_self),
      ih hrest hclean' (Nat.lt_of_succ_lt_succ hfuel)]
    show some (Except.ok { s with out := s.out ++ [c] ++ cs }) = some (.ok { s with out := s.out ++ c :: cs })
    rw [List.append_assoc]
    rfl

end

/-! ## formats -/

/-- a piece of a format with its argument: a character, `%s` or `%x` -/
inductive Piece where
  | literal (c : UInt8)
  | string (s : List UInt8)
  | word (w : UInt32)

def Piece.format : Piece → List UInt8
  | .literal c => [c]
  | .string _ => [0x25, 0x73]
  | .word _ => [0x25, 0x78]

def formatText (ps : List Piece) : List UInt8 := ps.flatMap Piece.format

/-- from number `arg` on, `args` are the arguments of the pieces -/
def ArgumentsAt (mem : UInt32 → UInt8) (args : Nat → UInt32) : Nat → List Piece → Prop
  | _, [] => True
  | arg, .literal _ :: ps => ArgumentsAt mem args arg ps
  | arg, .string s :: ps => StringAt mem (args arg) s ∧ ArgumentsAt mem args (arg + 1) ps
  | arg, .word w :: ps => args arg = w ∧ ArgumentsAt mem args (arg + 1) ps

def argumentCount : List Piece → Nat
  | [] => 0
  | .literal _ :: ps => argumentCount ps
  | .string _ :: ps => argumentCount ps + 1
  | .word _ :: ps => argumentCount ps + 1

/-- a lower-case hexadecimal digit -/
def IsHexDigit (b : UInt8) : Prop := (48 ≤ b.toNat ∧ b.toNat ≤ 57) ∨ (97 ≤ b.toNat ∧ b.toNat ≤ 102)

def hexValue (b : UInt8) : Nat := if b.toNat ≤ 57 then b.toNat - 48 else b.toNat - 87

/-- what is to be printed for a piece -/
def Piece.Shows : Piece → List UInt8 → Prop
  | .literal c, out => out = [c]
  | .string s, out => out = s
  | .word w, out => out.length = 8 ∧ (∀ b ∈ out, IsHexDigit b) ∧ Nat.ofDigits 16 (out.reverse.map hexValue) = w.toNat

def Verbatim (ps : List Piece) (out : List UInt8) : Prop :=
  ∃ outs, List.Forall₂ Piece.Shows ps outs ∧ out = outs.flatten

theorem shows_word (w : UInt32) : (Piece.word w).Shows (digitChars (Nat.digitsAppend 16 8 w.toNat)) := by
  have hlt : w.toNat < 16 ^ 8 := w.toNat_lt
  have hdigit : ∀ d < 16, IsHexDigit (digitChar d) ∧ hexValue (digitChar d) = d := by
    unfold IsHexDigit
    decide
  refine ⟨?_, fun b hb => ?_, ?_⟩
  · rw [digitChars, List.length_map, List.length_reverse]
    exact Nat.length_digitsAppend (by decide) 8 hlt
  · obtain ⟨d, hd, rfl⟩ := List.mem_map.mp hb
    exact (hdigit d (hexDigits_lt (List.mem_reverse.mp hd))).1
  · have hmap : (digitChars (Nat.digitsAppend 16 8 w.toNat)).reverse.map hexValue = Nat.digitsAppend 16 8 w.toNat := by
      rw [digitChars, ← List.map_reverse, List.reverse_reverse, List.map_map]
      refine (List.map_congr_left fun d hd => (hdigit d (hexDigits_lt hd)).2).trans (List.map_id _)
    rw [hmap, Nat.digitsAppend, Nat.ofDigits_append_replicate_zero, Nat.ofDigits_digits]

/-- what is printed for a piece has all its characters -/
theorem Verbatim.mem {ps : List Piece} {out : List UInt8} (h : Verbatim ps out) :
    (∀ s, .string s ∈ ps → ∀ c ∈ s, c ∈ out) ∧ ∀ c, .literal c ∈ ps → c ∈ out := by
  obtain ⟨outs, hall, rfl⟩ := h
  induction hall with
  | nil => exact ⟨fun _ h => absurd h List.not_mem_nil, fun _ h => absurd h List.not_mem_nil⟩
  | @cons p out ps outs hp _ ih =>
    rw [List.flatten_cons]
    refine ⟨fun s hs c hc => ?_, fun c hc => ?_⟩
    · rcases List.mem_cons.mp hs with rfl | hs
      · exact List.mem_append_left _ ((show out = s from hp) ▸ hc)
      · exact List.mem_append_right _ (ih.1 s hs c hc)
    · rcases List.mem_cons.mp hc with rfl | hc
      · exact List.mem_append_left _ ((show out = [c] from hp) ▸ List.mem_cons_self)
      · exact List.mem_append_right _ (ih.2 c hc)

/-- what `printf` is to print as it stands: argument strings without a `%`, and printable characters -/
structure Plain (ps : List Piece) : Prop where
  string : ∀ s, .string s ∈ ps → Clean s
  literal : ∀ c, .literal c ∈ ps → isPrintable c = true

theorem Plain.tail {p : Piece} {ps : List Piece} (h : Plain (p :: ps)) : Plain ps :=
  ⟨fun s hs => h.string s (List.mem_cons_of_mem _ hs), fun c hc => h.literal c (List.mem_cons_of_mem _ hc)⟩

/-- the next argument is taken -/
theorem taken_succ (taken : List (Nat × Nat)) (call arg n : Nat) :
    taken ++ [(call, arg)] ++ (List.range' (arg + 1) n).map (call, ·)
      = taken ++ (List.range' arg (n + 1)).map (call, ·) := by
  rw [List.range'_succ, List.map_cons, List.append_assoc]
  rfl

/-- a round for each piece -/
theorem printfFrom_pieces {mem : UInt32 → UInt8} {words : Nat → Nat → UInt32} {ps : List Piece} {call arg : Nat}
    {p : UInt32} (s : Printed) (hformat : StringAt mem p (formatText ps)) (hargs : ArgumentsAt mem (words call) arg ps)
    (hliteral : ∀ c, .literal c ∈ ps → c ≠ 0x25) (hplain : Plain ps) :
    ∃ n outs calls, List.Forall₂ Piece.Shows ps outs ∧ ∀ fuel, n ≤ fuel →
      printfFrom mem words fuel call arg p s = some (.ok ⟨s.out ++ outs.flatten,
        s.taken ++ (List.range' arg (argumentCount ps)).map (call, ·), calls⟩) := by
  induction ps generalizing arg p s with
  | nil =>
    refine ⟨1, [], s.calls, .nil, fun fuel hfuel => ?_⟩
    obtain ⟨fuel, rfl⟩ := Nat.exists_eq_add_one.mpr hfuel
    rw [List.flatten_nil, List.append_nil, argumentCount, List.range'_zero, List.map_nil, List.append_nil]
    exact printfFrom_end hformat
  | cons piece ps ih =>
    have hliteral' : ∀ c, .literal c ∈ ps → c ≠ 0x25 := fun c hc => hliteral c (List.mem_cons_of_mem _ hc)
    cases piece with
    | literal c =>
      obtain ⟨hc0, hc, hrest⟩ := hformat
      obtain ⟨n, outs, calls, hshows, hrun⟩ := ih (s.put [c]) hrest hargs hliteral' hplain.tail
      refine ⟨n + 1, [c] :: outs, calls, .cons rfl hshows, fun fuel hfuel => ?_⟩
      obtain ⟨fuel, rfl⟩ := Nat.exists_eq_add_one.mpr (Nat.zero_lt_of_lt hfuel)
      rw [printfFrom_char hc hc0 (hliteral c List.mem_cons_self) (hplain.literal c List.mem_cons_self),
        hrun fuel (Nat.le_of_succ_le_succ hfuel), List.flatten_cons, ← List.append_assoc]
      rfl
    | string cs =>
      obtain ⟨-, h0, -, h1, hrest⟩ := hformat
      obtain ⟨hcs, hargs⟩ := hargs
      obtain ⟨n, outs, calls, hshows, hrun⟩ := ih ((s.take call arg).enter.put cs) hrest hargs hliteral' hplain.tail
      refine ⟨max n (cs.length + 1) + 1, cs :: outs, calls, .cons rfl hshows, fun fuel hfuel => ?_⟩
      obtain ⟨fuel, rfl⟩ := Nat.exists_eq_add_one.mpr (Nat.zero_lt_of_lt hfuel)
      rw [printfFrom_string h0 h1, printfFrom_plain hcs (hplain.string cs List.mem_cons_self) (by omega)]
      dsimp only
      rw [hrun fuel (by omega), List.flatten_cons, ← List.append_assoc, argumentCount, ← taken_succ]
      rfl
    | word w =>
      obtain ⟨-, h0, -, h1, hrest⟩ := hformat
      obtain ⟨hw, hargs⟩ := hargs
      obtain ⟨n, outs, calls, hshows, hrun⟩ :=
        ih ((s.take call arg).put (digitChars (Nat.digitsAppend 16 8 w.toNat))) hrest hargs hliteral' hplain.tail
      refine ⟨n + 1, _ :: outs, calls, .cons (shows_word w) hshows, fun fuel hfuel => ?_⟩
      obtain ⟨fuel, rfl⟩ := Nat.exists_eq_add_one.mpr (Nat.zero_lt_of_lt hfuel)
      rw [printfFrom_hex h0 h1, hw, hrun fuel (Nat.le_of_succ_le_succ hfuel), List.flatten_cons, ← List.append_assoc,
        argumentCount, ← taken_succ]
      rfl

/-- **The pieces of a format are printed, each argument taken in its turn and no others, if and only if no
argument string has a `%` and the literal characters are printable.** -/
theorem printf_verbatim_iff (mem : UInt32 → UInt8) (words : Nat → Nat → UInt32) (format : UInt32) (ps : List Piece)
    (hformat : StringAt mem format (formatText ps)) (hliteral : ∀ c, .literal c ∈ ps → c ≠ 0x25)
    (hargs : ArgumentsAt mem (words 0) 0 ps) (hprintable : ∀ s, .string s ∈ ps → Printable s) :
    (∃ fuel t, printf mem words fuel format = some (.ok t) ∧ Verbatim ps t.out ∧
      t.taken = (List.range (argumentCount ps)).map (0, ·)) ↔
    (∀ s, .string s ∈ ps → 0x25 ∉ s) ∧ ∀ c, .literal c ∈ ps → isPrintable c = true := by
  constructor
  · rintro ⟨fuel, t, ht, hverbatim, -⟩
    obtain ⟨hprint, hper⟩ := printf_clean ht
    exact ⟨fun s hs h => hper (hverbatim.mem.1 s hs _ h), fun c hc => hprint c (hverbatim.mem.2 c hc)⟩
  · rintro ⟨hstring, hchar⟩
    have hplain : Plain ps := ⟨fun s hs => ⟨hprintable s hs, hstring s hs⟩, hchar⟩
    obtain ⟨n, outs, calls, hshows, hrun⟩ := printfFrom_pieces ⟨[], [], 1⟩ hformat hargs hliteral hplain
    refine ⟨n, _, hrun n (Nat.le_refl n), ⟨outs, hshows, rfl⟩, ?_⟩
    rw [List.range_eq_range']
    rfl

/-- the format `%s` at address 0, and at address 4 a string of one character -/
def stringFormat (c : UInt8) : UInt32 → UInt8 := fun p =>
  if p = 0 then 0x25 else if p = 1 then 0x73 else if p = 4 then c else 0

theorem stringFormat_at (c : UInt8) : StringAt (stringFormat c) 0 (formatText [.string [c]]) := by
  refine ⟨by decide, rfl, by decide, rfl, rfl⟩

theorem stringFormat_arguments {c : UInt8} (h : c ≠ 0) : ArgumentsAt (stringFormat c) (fun _ => 4) 0 [.string [c]] :=
  ⟨⟨h, rfl, rfl⟩, trivial⟩

theorem printf_verbatim_letter : ∃ fuel t, printf (stringFormat 0x61) (fun _ _ => 4) fuel 0 = some (.ok t) ∧
    Verbatim [.string [0x61]] t.out ∧ t.taken = (List.range 1).map (0, ·) := by
  have hprintable : ∀ s, .string s ∈ [Piece.string [0x61]] → Printable s := by
    simp [Printable]
    decide
  refine (printf_verbatim_iff _ _ 0 [.string [0x61]] (stringFormat_at _) (by simp)
    (stringFormat_arguments (by decide)) hprintable).mpr ⟨?_, by simp⟩
  simp

/-- the string `%` is read as a format again -/
theorem percent_not_printed : ¬ ∀ (mem : UInt32 → UInt8) (words : Nat → Nat → UInt32) (format : UInt32)
    (ps : List Piece), StringAt mem format (formatText ps) → (∀ c, .literal c ∈ ps → c ≠ 0x25) →
    ArgumentsAt mem (words 0) 0 ps → (∀ s, .string s ∈ ps → Printable s) →
    ∃ fuel t, printf mem words fuel format = some (.ok t) ∧ Verbatim ps t.out ∧
      t.taken = (List.range (argumentCount ps)).map (0, ·) := by
  intro hall
  have hprintable : ∀ s, .string s ∈ [Piece.string [0x25]] → Printable s := by
    simp [Printable]
    decide
  obtain ⟨fuel, t, ht, hverbatim, -⟩ := hall (stringFormat 0x25) (fun _ _ => 4) 0 [.string [0x25]]
    (stringFormat_at _) (by simp) (stringFormat_arguments (by decide)) hprintable
  exact (printf_clean ht).2 (hverbatim.mem.1 _ List.mem_cons_self _ List.mem_cons_self)

end StarOS
