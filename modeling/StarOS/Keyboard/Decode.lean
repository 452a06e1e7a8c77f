import StarOS.Keyboard.Ps2

/-!
# Streams of documented scan codes

The bytes of a list of scan codes, one per keyboard interrupt.  Which events they dispatch depends
on `SCAN_CODE` only, so the stream is decoded apart from the rest of the keyboard (`decode`), and
`feed_decode` carries the result over.

* `decode_append`     a stream is decoded piece by piece;
* `decode_documented` two scan codes of the document halt the kernel, all others are decoded to
                      the event the document names;
* `understood_iff`    the same for streams.
-/

namespace StarOS

/-- one interrupt for each byte; the events that were dispatched -/
def Keyboard.feed : Keyboard → List UInt8 → Except Fatal (Keyboard × List KeyEvent)
  | k, [] => .ok (k, [])
  | k, b :: bs => (ps2KeyboardInterrupt k b).bind fun r =>
      (r.keyboard.feed bs).map fun t => (t.1, r.event.toList ++ t.2)

/-- `SCAN_CODE` after a stream of bytes, and the numbers of the events it dispatched -/
def decode : Nat → List UInt8 → Except Fatal (Nat × List Nat)
  | s, [] => .ok (s, [])
  | s, b :: bs =>
    let code := wrap64 ((s <<< 8) + b.toNat)
    if isCompleteScancode code then
      (toEventId code).bind fun i => (decode 0 bs).map fun t => (t.1, i :: t.2)
    else decode code bs

/-- one event for each scan code, in order, with the name and the status of the document, and
nothing left in `SCAN_CODE` -/
def Understood (k : Keyboard) (cs : List ScanCode) : Prop :=
  ∃ k' events, k.feed (cs.flatMap ScanCode.bytes) = .ok (k', events) ∧
    events.map (fun e => (e.keyname, e.isPressed)) = cs.map (fun c => (c.name, c.pressed)) ∧
    k'.scanCode = 0

/-! ## the decoder and the interrupt -/

theorem respond_event (k : Keyboard) (e : KeyEvent) : (k.respond e).event = some e := by
  simp only [Keyboard.respond]
  split <;> rfl

theorem interrupt_incomplete {k : Keyboard} {b : UInt8} {code : Nat}
    (hc : wrap64 ((k.scanCode <<< 8) + b.toNat) = code) (h : isCompleteScancode code = false) :
    ps2KeyboardInterrupt k b = .ok ⟨{ k with scanCode := code }, none, none⟩ := by
  simp only [ps2KeyboardInterrupt, hc, h, Bool.false_eq_true, if_false]

theorem interrupt_complete {k : Keyboard} {b : UInt8} {code : Nat}
    (hc : wrap64 ((k.scanCode <<< 8) + b.toNat) = code) (h : isCompleteScancode code = true) :
    ∃ f : Nat → Keyboard, ∃ g : Nat → Option (UInt32 × UInt8),
      ps2KeyboardInterrupt k b
        = (toEventId code).map (fun i => ⟨{ f i with scanCode := 0 }, some (keyevent i), g i⟩) := by
  let r : Nat → Response := fun i => { k with scanCode := code }.respond (keyevent i)
  refine ⟨fun i => (r i).keyboard, fun i => (r i).store, ?_⟩
  simp only [ps2KeyboardInterrupt, hc, h, if_true, responseScancode]
  cases toEventId code with
  | error e => rfl
  | ok i =>
    have hev : (r i).event = some (keyevent i) := respond_event _ _
    show Except.ok (Response.mk { (r i).keyboard with scanCode := 0 } (r i).event (r i).store) = _
    rw [hev]
    rfl

theorem feed_decode (k : Keyboard) (bs : List UInt8) :
    (k.feed bs).map (fun t => (t.1.scanCode, t.2))
      = (decode k.scanCode bs).map fun t => (t.1, t.2.map keyevent) := by
  induction bs generalizing k with
  | nil => rfl
  | cons b bs ih =>
    rw [Keyboard.feed, decode]
    by_cases h : isCompleteScancode (wrap64 ((k.scanCode <<< 8) + b.toNat)) = true
    · obtain ⟨f, g, e⟩ := interrupt_complete rfl h
      rw [if_pos h, e]
      cases toEventId (wrap64 ((k.scanCode <<< 8) + b.toNat)) with
      | error e => rfl
      | ok i =>
        have ih' := ih { f i with scanCode := 0 }
        -- the event of `b` is put in front on both sides
        calc ((Keyboard.feed { f i with scanCode := 0 } bs).map fun t => (t.1, keyevent i :: t.2)).map
              (fun t => (t.1.scanCode, t.2))
            = ((Keyboard.feed { f i with scanCode := 0 } bs).map fun t => (t.1.scanCode, t.2)).map
              (fun t => (t.1, keyevent i :: t.2)) := by
              cases Keyboard.feed { f i with scanCode := 0 } bs <;> rfl
          _ = ((decode 0 bs).map fun t => (t.1, t.2.map keyevent)).map
              (fun t => (t.1, keyevent i :: t.2)) := by rw [ih']
          _ = ((decode 0 bs).map fun t => (t.1, i :: t.2)).map fun t => (t.1, t.2.map keyevent) := by
              cases decode 0 bs <;> rfl
    · rw [Bool.not_eq_true] at h
      rw [interrupt_incomplete rfl h, h, if_neg Bool.false_ne_true]
      have ih' := ih { k with scanCode := wrap64 ((k.scanCode <<< 8) + b.toNat) }
      rw [← ih']
      simp only [Except.map, Except.bind]
      cases Keyboard.feed { k with scanCode := wrap64 ((k.scanCode <<< 8) + b.toNat) } bs <;> rfl

theorem decode_append (s : Nat) (as bs : List UInt8) :
    decode s (as ++ bs)
      = (decode s as).bind fun t => (decode t.1 bs).map fun u => (u.1, t.2 ++ u.2) := by
  induction as generalizing s with
  | nil =>
    rw [List.nil_append, decode]
    show _ = (decode s bs).map fun u => (u.1, [] ++ u.2)
    cases decode s bs <;> rfl
  | cons a as ih =>
    rw [List.cons_append, decode, decode]
    by_cases h : isCompleteScancode (wrap64 ((s <<< 8) + a.toNat)) = true
    · rw [if_pos h, if_pos h, ih]
      cases toEventId (wrap64 ((s <<< 8) + a.toNat)) with
      | error e => rfl
      | ok i =>
        show ((decode 0 as).bind _).map _ = ((decode 0 as).map _).bind _
        cases decode 0 as with
        | error e => rfl
        | ok t =>
          show ((decode t.1 bs).map _).map _ = (decode t.1 bs).map _
          cases decode t.1 bs <;> rfl
    · rw [if_neg h, if_neg h, ih]

/-! ## the document -/

/-- the two scan codes of the document that halt the kernel: `(keypad) enter` and `(multimedia)
media select`, released -/
def haltingCodes : List (List UInt8) := [[0xe0, 0x9c], [0xe0, 0xed]]

/-- what the decoder makes of one scan code: its event, or that it halted -/
def decodeOne (c : ScanCode) : Option KeyEvent :=
  match decode 0 c.bytes with
  | .ok (0, [i]) => some (keyevent i)
  | _ => none

theorem decodeOne_table : ∀ c ∈ documented,
    if c.bytes ∈ haltingCodes then (decode 0 c.bytes).toOption = none
    else (decodeOne c).map (fun e => (e.keyname, e.isPressed)) = some (c.name, c.pressed) := by
  decide +kernel

theorem decode_halting {c : ScanCode} (hc : c ∈ documented) (h : c.bytes ∈ haltingCodes) :
    ∃ e, decode 0 c.bytes = .error e := by
  have ht := decodeOne_table c hc
  rw [if_pos h] at ht
  revert ht
  cases decode 0 c.bytes with
  | error e => exact fun _ => ⟨e, rfl⟩
  | ok t => exact fun ht => by cases ht

theorem decode_documented {c : ScanCode} (hc : c ∈ documented) (h : c.bytes ∉ haltingCodes) :
    ∃ i, decode 0 c.bytes = .ok (0, [i]) ∧
      ((keyevent i).keyname, (keyevent i).isPressed) = (c.name, c.pressed) := by
  have ht := decodeOne_table c hc
  rw [if_neg h] at ht
  obtain ⟨e, he, hn⟩ := Option.map_eq_some_iff.mp ht
  rw [decodeOne] at he
  split at he
  · rename_i i hd
    cases he
    exact ⟨i, hd, hn⟩
  · cases he

/-! ## streams -/

theorem decode_stream {cs : List ScanCode} (hcs : ∀ c ∈ cs, c ∈ documented)
    (h : ∀ c ∈ cs, c.bytes ∉ haltingCodes) :
    ∃ is, decode 0 (cs.flatMap ScanCode.bytes) = .ok (0, is) ∧
      (is.map keyevent).map (fun e => (e.keyname, e.isPressed))
        = cs.map (fun c => (c.name, c.pressed)) := by
  induction cs with
  | nil => exact ⟨[], rfl, rfl⟩
  | cons c cs ih =>
    obtain ⟨i, hi, hn⟩ := decode_documented (hcs c List.mem_cons_self) (h c List.mem_cons_self)
    obtain ⟨is, his, hns⟩ := ih (fun c hc => hcs c (List.mem_cons_of_mem _ hc))
      (fun c hc => h c (List.mem_cons_of_mem _ hc))
    refine ⟨i :: is, ?_, ?_⟩
    · rw [List.flatMap_cons, decode_append, hi]
      show (decode 0 (cs.flatMap ScanCode.bytes)).map _ = _
      rw [his]
      rfl
    · rw [List.map_cons, List.map_cons, List.map_cons, hns, hn]

theorem decode_stream_halting {cs : List ScanCode} (hcs : ∀ c ∈ cs, c ∈ documented) {c : ScanCode}
    (hc : c ∈ cs) (h : c.bytes ∈ haltingCodes) :
    ∃ e, decode 0 (cs.flatMap ScanCode.bytes) = .error e := by
  induction cs with
  | nil => exact absurd hc List.not_mem_nil
  | cons d cs ih =>
    have hd := hcs d List.mem_cons_self
    rw [List.flatMap_cons, decode_append]
    by_cases hh : d.bytes ∈ haltingCodes
    · obtain ⟨e, he⟩ := decode_halting hd hh
      exact ⟨e, by rw [he]; rfl⟩
    · have hc' : c ∈ cs := (List.mem_cons.mp hc).resolve_left fun e => hh (e ▸ h)
      obtain ⟨i, hi, -⟩ := decode_documented hd hh
      obtain ⟨e, he⟩ := ih (fun c hc => hcs c (List.mem_cons_of_mem _ hc)) hc'
      refine ⟨e, ?_⟩
      rw [hi]
      show (decode 0 (cs.flatMap ScanCode.bytes)).map _ = _
      rw [he]
      rfl

/-- **A stream of documented scan codes is understood exactly if neither of the two halting codes
is in it.** -/
theorem understood_iff (k : Keyboard) (hk : k.scanCode = 0) (cs : List ScanCode)
    (hcs : ∀ c ∈ cs, c ∈ documented) :
    Understood k cs ↔ ∀ c ∈ cs, c.bytes ≠ [0xe0, 0x9c] ∧ c.bytes ≠ [0xe0, 0xed] := by
  have hf := feed_decode k (cs.flatMap ScanCode.bytes)
  rw [hk] at hf
  have hmem : ∀ b : List UInt8, b ∉ haltingCodes ↔ b ≠ [0xe0, 0x9c] ∧ b ≠ [0xe0, 0xed] := by
    intro b
    simp only [haltingCodes, List.mem_cons, List.not_mem_nil, or_false, not_or, ne_eq]
  simp only [← hmem]
  constructor
  · intro hu c hc h
    obtain ⟨k', events, he, -, -⟩ := hu
    obtain ⟨e, hd⟩ := decode_stream_halting hcs hc h
    rw [he, hd] at hf
    cases hf
  · intro h
    obtain ⟨is, hd, hn⟩ := decode_stream hcs h
    rw [hd] at hf
    cases he : k.feed (cs.flatMap ScanCode.bytes) with
    | error e =>
      rw [he] at hf
      cases hf
    | ok t =>
      rw [he] at hf
      obtain ⟨h1, h2⟩ := Prod.mk.inj (Except.ok.inj hf)
      have h1 : t.1.scanCode = 0 := h1
      have h2 : t.2 = is.map keyevent := h2
      exact ⟨t.1, t.2, he, h2 ▸ hn, h1⟩

/-- `A` pressed, then `right control` pressed -/
theorem understood_iff_two :
    Understood Keyboard.boot [⟨[0x1e], "A", true⟩, ⟨[0xe0, 0x1d], "right control", true⟩] :=
  (understood_iff Keyboard.boot rfl _ (by decide)).mpr (by decide)

/-- **The release of the keypad's enter key halts the kernel.** -/
theorem keypad_enter_halts : ¬ ∀ (k : Keyboard) (cs : List ScanCode), k.scanCode = 0 →
    (∀ c ∈ cs, c ∈ documented) → Understood k cs := by
  intro hall
  obtain ⟨k', events, he, -, -⟩ :=
    hall Keyboard.boot [⟨[0xe0, 0x9c], "(keypad) enter", false⟩] rfl (by decide)
  have h : Keyboard.boot.feed [0xe0, 0x9c] = .error (.invalidScanCode 0x9c) := rfl
  rw [List.flatMap_singleton, h] at he
  cases he

end StarOS
