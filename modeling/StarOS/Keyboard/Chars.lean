import StarOS.Keyboard.Decode

/-!
# The characters that are typed (`response_scancode`, `to_char`)

A key press has a character if the name of its key is one digit or one letter.  The letter is a capital
while a shift key is down.

* `nameChar`, `charOf`, `charsOf`   the characters that a list of events types, by the names of the keys;
* `Keyboard.Knows`     the table of pressed keys agrees with the events so far about the shift keys;
* `Keyboard.Takes`     what the characters of an interrupt do to a pending `gets`;
* `interrupt_takes`    every keyboard interrupt keeps the one and does the other.
-/

namespace StarOS

/-! ## characters of events -/

/-- the character on a key -/
def nameChar (keyname : String) : Option UInt8 :=
  match keyname.toUTF8.data.toList with
  | [c] => if inRange c.toNat 48 57 || inRange c.toNat 65 90 then some c else none
  | _ => none

/-- the last event of the key is a press -/
def held (events : List KeyEvent) (keyname : String) : Bool :=
  events.foldl (fun down e => if e.keyname = keyname then e.isPressed else down) false

def shiftHeld (events : List KeyEvent) : Bool := held events "left shift" || held events "right shift"

/-- the character that an event types after the events `past` -/
def charOf (past : List KeyEvent) (e : KeyEvent) : Option UInt8 :=
  if e.isPressed then (nameChar e.keyname).map fun c => if shiftHeld past then c else toLower c else none

/-- the characters that events type after the events `past` -/
def charsAfter (past : List KeyEvent) : List KeyEvent → List UInt8
  | [] => []
  | e :: es => (charOf past e).toList ++ charsAfter (past ++ [e]) es

def charsOf (events : List KeyEvent) : List UInt8 := charsAfter [] events

theorem held_append (past events : List KeyEvent) (keyname : String) :
    held (past ++ events) keyname
      = events.foldl (fun down e => if e.keyname = keyname then e.isPressed else down) (held past keyname) :=
  List.foldl_append

theorem held_snoc (past : List KeyEvent) (e : KeyEvent) (keyname : String) :
    held (past ++ [e]) keyname = if e.keyname = keyname then e.isPressed else held past keyname :=
  held_append past [e] keyname

theorem charsAfter_append (past es fs : List KeyEvent) :
    charsAfter past (es ++ fs) = charsAfter past es ++ charsAfter (past ++ es) fs := by
  induction es generalizing past with
  | nil => rw [List.append_nil]; rfl
  | cons e es ih =>
    rw [List.cons_append, charsAfter, ih, charsAfter, List.append_assoc, List.append_assoc]
    rfl

theorem charsOf_append (es fs : List KeyEvent) : charsOf (es ++ fs) = charsOf es ++ charsAfter es fs :=
  charsAfter_append [] es fs

theorem charsAfter_singleton (past : List KeyEvent) (e : KeyEvent) :
    charsAfter past [e] = (charOf past e).toList := List.append_nil _

/-! ## the tables -/

/-- the first character of the name in `Key_table` -/
def tableChar (keyId : Nat) : UInt8 := firstChar ((keyTable[keyId]?.map KeyboardKey.name).getD "")

/-- the ranges of `is_valid_char` are the keys with a character, which is the one that `to_char` reads -/
theorem keyeventTable_chars : ∀ e ∈ keyeventTable,
    nameChar e.keyname = if isValidChar e.keyId then some (tableChar e.keyId) else none := by
  decide +kernel

theorem keyeventTable_shift : ∀ e ∈ keyeventTable,
    (e.keyId = 0x2a ↔ e.keyname = "left shift") ∧ (e.keyId = 0x36 ↔ e.keyname = "right shift") := by
  decide +kernel

theorem keyevent_mem (i : Nat) : keyevent i ∈ keyeventTable ∨ keyevent i = ⟨0, 0, "", false⟩ := by
  rw [keyevent]
  cases h : keyeventTable[i]? with
  | none => exact .inr rfl
  | some e => exact .inl (List.mem_of_getElem? h)

theorem keyevent_char (i : Nat) : nameChar (keyevent i).keyname
    = if isValidChar (keyevent i).keyId then some (tableChar (keyevent i).keyId) else none := by
  rcases keyevent_mem i with h | h
  · exact keyeventTable_chars _ h
  · rw [h]
    rfl

theorem keyevent_shift (i : Nat) : ((keyevent i).keyId = 0x2a ↔ (keyevent i).keyname = "left shift") ∧
    ((keyevent i).keyId = 0x36 ↔ (keyevent i).keyname = "right shift") := by
  rcases keyevent_mem i with h | h
  · exact keyeventTable_shift _ h
  · rw [h]
    decide

/-! ## the keyboard -/

namespace Keyboard

/-- the keys that are down; the table is cleared at the first event -/
def pressed (k : Keyboard) : Nat → Bool :=
  if k.isKeyPressedTableInitialized then k.keyPressedTable else fun _ => false

/-- the table agrees with the events so far about the shift keys -/
structure Knows (k : Keyboard) (past : List KeyEvent) : Prop where
  left : k.pressed 0x2a = held past "left shift"
  right : k.pressed 0x36 = held past "right shift"

theorem knows_boot : boot.Knows [] := ⟨rfl, rfl⟩

variable {k : Keyboard} {past : List KeyEvent} {i : Nat}

theorem respond_pressed (k : Keyboard) (e : KeyEvent) :
    (k.respond e).keyboard.pressed = fun key => if key = e.keyId then e.isPressed else k.pressed key := by
  simp only [respond]
  split <;> rfl

theorem Knows.respond (h : k.Knows past) (i : Nat) :
    (k.respond (keyevent i)).keyboard.Knows (past ++ [keyevent i]) := by
  obtain ⟨hl, hr⟩ := keyevent_shift i
  constructor <;> rw [respond_pressed, held_snoc]
  · simp only [eq_comm (a := 0x2a), hl, h.left]
  · simp only [eq_comm (a := 0x36), hr, h.right]

/-- a shift key is not the one that types -/
theorem Knows.isShiftPressed (h : k.Knows past) (hv : isValidChar (keyevent i).keyId = true) :
    ({ k with keyPressedTable := fun key =>
      if key = (keyevent i).keyId then (keyevent i).isPressed else k.pressed key } : Keyboard).isShiftPressed
        = shiftHeld past := by
  have hl : 0x2a ≠ (keyevent i).keyId := fun e => by
    rw [← e] at hv
    exact absurd hv (by decide)
  have hr : 0x36 ≠ (keyevent i).keyId := fun e => by
    rw [← e] at hv
    exact absurd hv (by decide)
  rw [Keyboard.isShiftPressed, shiftHeld, ← h.left, ← h.right]
  simp only [if_neg hl, if_neg hr]

theorem charOf_keyevent (past : List KeyEvent) (i : Nat) : charOf past (keyevent i)
    = if isValidChar (keyevent i).keyId && (keyevent i).isPressed then
        some (if shiftHeld past then tableChar (keyevent i).keyId
          else toLower (tableChar (keyevent i).keyId))
      else none := by
  rw [charOf, keyevent_char]
  cases isValidChar (keyevent i).keyId <;> cases (keyevent i).isPressed <;> rfl

/-- an event with a character, while a `gets` is pending -/
theorem respond_char (h : k.Knows past) (hen : k.gets.enabled = true) {c : UInt8}
    (hc : charOf past (keyevent i) = some c) :
    (k.respond (keyevent i)).store = some (k.gets.buffer + k.gets.alreadyCount, c) ∧
      (k.respond (keyevent i)).keyboard.gets = { k.gets with
        alreadyCount := k.gets.alreadyCount + 1, enabled := k.gets.alreadyCount + 1 != k.gets.count } := by
  rw [charOf_keyevent] at hc
  split at hc
  swap
  · cases hc
  rename_i hv
  have hshift := h.isShiftPressed (Bool.and_eq_true_iff.mp hv).1
  have hcond : (k.gets.enabled && (isValidChar (keyevent i).keyId && (keyevent i).isPressed)) = true := by
    rw [hen, hv]
    rfl
  simp only [respond]
  rw [if_pos hcond]
  refine ⟨?_, rfl⟩
  rw [← Option.some.inj hc, ← hshift]
  rfl

/-- an event without one, or without a `gets` -/
theorem respond_no_char (h : k.gets.enabled = false ∨ charOf past (keyevent i) = none) :
    (k.respond (keyevent i)).store = none ∧ (k.respond (keyevent i)).keyboard.gets = k.gets := by
  have hcond : ¬ (k.gets.enabled && (isValidChar (keyevent i).keyId && (keyevent i).isPressed)) = true := by
    rcases h with h | h
    · rw [h]
      exact Bool.false_ne_true
    · rw [charOf_keyevent] at h
      split at h
      · cases h
      · rename_i hv
        exact fun hc => hv (Bool.and_eq_true_iff.mp hc).2
  simp only [respond]
  rw [if_neg hcond]
  exact ⟨rfl, rfl⟩

/-- what an interrupt that types the characters `cs` does to a pending `gets` -/
inductive Takes (k : Keyboard) (r : Response) : List UInt8 → Prop
  | quiet (cs : List UInt8) (none : k.gets.enabled = false ∨ cs = []) (store : r.store = .none)
      (gets : r.keyboard.gets = k.gets) : Takes k r cs
  | char (c : UInt8) (enabled : k.gets.enabled = true)
      (store : r.store = some (k.gets.buffer + k.gets.alreadyCount, c))
      (gets : r.keyboard.gets = { k.gets with
        alreadyCount := k.gets.alreadyCount + 1, enabled := k.gets.alreadyCount + 1 != k.gets.count }) :
      Takes k r [c]

theorem respond_takes (h : k.Knows past) (i : Nat) :
    k.Takes (k.respond (keyevent i)) (charsAfter past [keyevent i]) := by
  rw [charsAfter_singleton]
  cases hc : charOf past (keyevent i) with
  | none =>
    obtain ⟨hs, hg⟩ := respond_no_char (.inr hc)
    exact .quiet _ (.inr rfl) hs hg
  | some c =>
    by_cases hen : k.gets.enabled = true
    · obtain ⟨hs, hg⟩ := respond_char h hen hc
      exact .char c hen hs hg
    · have hoff := Bool.eq_false_iff.mpr hen
      obtain ⟨hs, hg⟩ := respond_no_char (.inl hoff : _ ∨ charOf past (keyevent i) = none)
      exact .quiet _ (.inl hoff) hs hg

/-- only the request matters -/
theorem Takes.congr {k k' : Keyboard} {r r' : Response} {cs : List UInt8} (h : k.Takes r cs)
    (hk : k'.gets = k.gets) (hs : r'.store = r.store) (hg : r'.keyboard.gets = r.keyboard.gets) :
    k'.Takes r' cs := by
  cases h with
  | quiet _ hn hstore hgets =>
    exact .quiet cs (by rw [hk]; exact hn) (hs.trans hstore) (hg.trans (hgets.trans hk.symm))
  | char c hen hstore hgets =>
    refine .char c (by rw [hk]; exact hen) ?_ ?_
    · rw [hs, hstore, hk]
    · rw [hg, hgets, hk]

/-- the events that a byte dispatches, and what they do -/
theorem interrupt_takes {b : UInt8} {r : Response} (h : ps2KeyboardInterrupt k b = .ok r)
    (hk : k.Knows past) : ∃ is, decode k.scanCode [b] = .ok (r.keyboard.scanCode, is) ∧
      r.keyboard.Knows (past ++ is.map keyevent) ∧ k.Takes r (charsAfter past (is.map keyevent)) := by
  let code := wrap64 ((k.scanCode <<< 8) + b.toNat)
  cases hc : isCompleteScancode code with
  | false =>
    rw [interrupt_incomplete rfl hc] at h
    obtain rfl := Except.ok.inj h
    refine ⟨[], ?_, ?_, .quiet _ (.inr rfl) rfl rfl⟩
    · show (if isCompleteScancode code = true then _ else _) = _
      rw [hc, if_neg Bool.false_ne_true]
      rfl
    · exact ⟨(hk.left.trans (by rw [List.map_nil, List.append_nil])),
        (hk.right.trans (by rw [List.map_nil, List.append_nil]))⟩
  | true =>
    let k' : Keyboard := { k with scanCode := code }
    have hk' : k'.Knows past := ⟨hk.left, hk.right⟩
    have hi : ps2KeyboardInterrupt k b = (responseScancode k' code).map fun r =>
        { r with keyboard := { r.keyboard with scanCode := 0 } } := if_pos hc
    rw [hi, responseScancode] at h
    cases hev : toEventId code with
    | error e =>
      rw [hev] at h
      cases h
    | ok i =>
      rw [hev] at h
      obtain rfl := Except.ok.inj h
      have hknows := hk'.respond i
      refine ⟨[i], ?_, ⟨hknows.left, hknows.right⟩, ?_⟩
      · show (if isCompleteScancode code = true then _ else _) = _
        rw [if_pos hc, hev]
        rfl
      · exact (respond_takes hk' i).congr rfl rfl rfl

end Keyboard

end StarOS
