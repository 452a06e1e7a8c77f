import StarOS.Fatal
import StarOS.Keyboard.Tables

/-!
# The keyboard interrupt (`ps2_keyboard.cpp`)

The bytes of the keyboard port are collected in `SCAN_CODE` until they make a complete scan code.
Its event is then looked up (`toEventId`, `keyeventTable`) and dispatched (`Keyboard.respond`): the
table of pressed keys is updated, and a character goes to the buffer of a pending `gets`.

A store through `gets_buffer` is part of the response, as the address and the byte.
-/

namespace StarOS

def inRange (data left right : Nat) : Bool := left ≤ data && data ≤ right

def isCompleteScancode (code : Nat) : Bool :=
  -- single byte
  if code ≤ 0xff then
    inRange code 0x01 0x53 || inRange code 0x57 0x58 || inRange code 0x81 0xd3 || inRange code 0xd7 0xd8
  -- two bytes
  else if code ≤ 0xffff then
    let highByte := (code &&& 0xff00) >>> 8
    let lowByte := code &&& 0xff
    highByte == 0xe0 && (lowByte != 0x2a && lowByte != 0xb7)
  -- four bytes
  else if code ≤ 0xffffffff then code == 0xe02ae037 || code == 0xe0b7e0aa
  -- six bytes
  else if code ≤ 0xffffffffffff then code == 0xe11d45e19dc5
  else false

/-- the first index below `length`, or `-1` -/
def indexOf (array : List Nat) (length : Nat) (data : Nat) : Int :=
  match (array.take length).findIdx? (· == data) with
  | some i => i
  | none => -1

def scancodesPart1 : List Nat := [
  0x10, 0x19, 0x1c, 0x1d, 0x20, 0x21, 0x22, 0x24, 0x2e, 0x30, 0x32, 0x35, 0x38, 0x47, 0x48, 0x49,
  0x4b, 0x4d, 0x4f, 0x50, 0x51, 0x52, 0x53, 0x5b, 0x5c, 0x5d, 0x5e, 0x5f, 0x63, 0x65, 0x66, 0x67,
  0x68, 0x69, 0x6a, 0x6b, 0x6c, 0x6d, 0x90, 0x99]

def scancodesPart2 : List Nat := [
  0x9c, 0x9d, 0xa0, 0xa1, 0xa2, 0xa4, 0xae, 0xb0, 0xb2, 0xb5, 0xb8, 0xc7, 0xc8, 0xc9, 0xcb, 0xcd,
  0xcf, 0xd0, 0xd1, 0xd2, 0xd3, 0xdb, 0xdc, 0xdd, 0xde, 0xdf, 0xe3, 0xe5, 0xe6, 0xe7, 0xe8, 0xe9,
  0xea, 0xeb, 0xec, 0xe0, 0xed]

/-- the number of a scan code's event, from 0 to 255 -/
def toEventId (code : Nat) : Except Fatal Nat :=
  if code ≤ 0xff then .ok code
  else if code ≤ 0xffff then
    let lowByte := code &&& 0xff
    if code ≤ 0xe09c then
      let eventId := ((0x59 + indexOf scancodesPart1 40 lowByte) % 256).toNat
      if inRange eventId 0x59 0x80 then .ok eventId else .error (.invalidScanCode lowByte)
    else
      let eventId := ((0xd9 + indexOf scancodesPart2 37 lowByte) % 256).toNat
      if inRange eventId 0xd9 0xfc then .ok eventId else .error (.invalidScanCode lowByte)
  else if code = 0xe02ae037 then .ok 0xfd
  else if code = 0xe0b7e0aa then .ok 0xfe
  else if code = 0xe11d45e19dc5 then .ok 0xff
  else .error (.invalidLongScanCode (wrap32 (code >>> 32)) (code &&& 0xffffffff))

/-- digits and letters -/
def isValidChar (keyId : Nat) : Bool :=
  inRange keyId 0x2 0xb || inRange keyId 0x10 0x19 || inRange keyId 0x1e 0x26 || inRange keyId 0x2c 0x32

def isAlpha (c : UInt8) : Bool := inRange c.toNat 97 122 || inRange c.toNat 65 90

def toLower (c : UInt8) : UInt8 := if isAlpha c && inRange c.toNat 65 90 then c + 32 else c

/-- the state of a `gets` system call, written by `system_entry` -/
structure Gets where
  enabled : Bool
  count : UInt32
  alreadyCount : UInt32
  buffer : UInt32

structure Keyboard where
  scanCode : Nat
  keyPressedTable : Nat → Bool
  isKeyPressedTableInitialized : Bool
  gets : Gets

def Keyboard.boot : Keyboard := ⟨0, fun _ => false, false, ⟨false, 0, 0, 0⟩⟩

def Keyboard.isShiftPressed (k : Keyboard) : Bool := k.keyPressedTable 0x2a || k.keyPressedTable 0x36

/-- the first character of a NUL-terminated name -/
def firstChar (name : String) : UInt8 := name.toUTF8.data.toList.headD 0

def Keyboard.toChar (k : Keyboard) (event : KeyEvent) : UInt8 :=
  let c := firstChar ((keyTable[event.keyId]?.map KeyboardKey.name).getD "")
  if k.isShiftPressed then c else toLower c

/-- what a keyboard interrupt leaves: the event dispatched and the byte stored for `gets`, if any -/
structure Response where
  keyboard : Keyboard
  event : Option KeyEvent
  store : Option (UInt32 × UInt8)

/-- `response_scancode` once the event is known -/
def Keyboard.respond (k : Keyboard) (event : KeyEvent) : Response :=
  let cleared := if k.isKeyPressedTableInitialized then k.keyPressedTable else fun _ => false
  let k := { k with
    keyPressedTable := fun i => if i = event.keyId then event.isPressed else cleared i
    isKeyPressedTableInitialized := true }
  if k.gets.enabled && (isValidChar event.keyId && event.isPressed) then
    let n := k.gets.alreadyCount + 1
    { keyboard := { k with gets := { k.gets with alreadyCount := n, enabled := n != k.gets.count } }
      event := some event
      store := some (k.gets.buffer + k.gets.alreadyCount, k.toChar event) }
  else ⟨k, some event, none⟩

def keyevent (eventId : Nat) : KeyEvent := (keyeventTable[eventId]?).getD ⟨0, 0, "", false⟩

def responseScancode (k : Keyboard) (code : Nat) : Except Fatal Response :=
  (toEventId code).map fun keyeventId => k.respond (keyevent keyeventId)

def ps2KeyboardInterrupt (k : Keyboard) (data : UInt8) : Except Fatal Response :=
  let code := wrap64 ((k.scanCode <<< 8) + data.toNat)
  if isCompleteScancode code then
    (responseScancode { k with scanCode := code } code).map fun r =>
      { r with keyboard := { r.keyboard with scanCode := 0 } }
  else .ok ⟨{ k with scanCode := code }, none, none⟩

/-! ## what an interrupt does to a pending `gets` -/

theorem respond_gets (k : Keyboard) (event : KeyEvent) :
    (k.respond event).keyboard.gets.count = k.gets.count ∧
    (k.respond event).keyboard.gets.buffer = k.gets.buffer ∧
    (k.gets.enabled = false → (k.respond event).keyboard.gets.enabled = false) := by
  simp only [Keyboard.respond]
  split
  · rename_i h
    refine ⟨rfl, rfl, fun he => ?_⟩
    rw [he] at h
    exact absurd h Bool.false_ne_true
  · exact ⟨rfl, rfl, fun he => he⟩

theorem interrupt_gets {k : Keyboard} {data : UInt8} {r : Response}
    (h : ps2KeyboardInterrupt k data = .ok r) :
    r.keyboard.gets.count = k.gets.count ∧ r.keyboard.gets.buffer = k.gets.buffer ∧
    (k.gets.enabled = false → r.keyboard.gets.enabled = false) := by
  simp only [ps2KeyboardInterrupt, responseScancode] at h
  split at h
  · revert h
    cases toEventId (wrap64 ((k.scanCode <<< 8) + data.toNat)) with
    | error e => exact fun h => by cases h
    | ok i =>
      intro h
      cases h
      exact respond_gets { k with scanCode := _ } (keyevent i)
  · cases h
    exact ⟨rfl, rfl, fun he => he⟩

theorem respond_store (k : Keyboard) (event : KeyEvent) :
    (k.respond event).keyboard.gets.alreadyCount
      = k.gets.alreadyCount + UInt32.ofNat (k.respond event).store.toList.length ∧
    ∀ address byte, (k.respond event).store = some (address, byte) →
      k.gets.enabled = true ∧ address = k.gets.buffer + k.gets.alreadyCount := by
  simp only [Keyboard.respond]
  split
  · rename_i h
    refine ⟨rfl, fun address byte hs => ?_⟩
    cases hs
    exact ⟨(Bool.and_eq_true_iff.mp h).1, rfl⟩
  · exact ⟨(UInt32.add_zero _).symm, fun _ _ hs => by cases hs⟩

/-- a character that is stored goes to the next place of the buffer -/
theorem interrupt_store {k : Keyboard} {data : UInt8} {r : Response}
    (h : ps2KeyboardInterrupt k data = .ok r) :
    r.keyboard.gets.alreadyCount = k.gets.alreadyCount + UInt32.ofNat r.store.toList.length ∧
    ∀ address byte, r.store = some (address, byte) →
      k.gets.enabled = true ∧ address = k.gets.buffer + k.gets.alreadyCount := by
  simp only [ps2KeyboardInterrupt, responseScancode] at h
  split at h
  · revert h
    cases toEventId (wrap64 ((k.scanCode <<< 8) + data.toNat)) with
    | error e => exact fun h => by cases h
    | ok i =>
      intro h
      cases h
      exact respond_store { k with scanCode := _ } (keyevent i)
  · cases h
    exact ⟨(UInt32.add_zero _).symm, fun _ _ hs => by cases hs⟩

theorem toEventId_error {code : Nat} {e : Fatal} (h : toEventId code = .error e) :
    (∃ l, e = .invalidScanCode l) ∨ ∃ w l, e = .invalidLongScanCode w l := by
  simp only [toEventId] at h
  repeat' split at h
  all_goals cases h
  · exact Or.inl ⟨_, rfl⟩
  · exact Or.inl ⟨_, rfl⟩
  · exact Or.inr ⟨_, _, rfl⟩

theorem interrupt_error {k : Keyboard} {data : UInt8} {e : Fatal}
    (h : ps2KeyboardInterrupt k data = .error e) :
    (∃ l, e = .invalidScanCode l) ∨ ∃ w l, e = .invalidLongScanCode w l := by
  simp only [ps2KeyboardInterrupt, responseScancode] at h
  split at h
  · revert h
    cases he : toEventId (wrap64 ((k.scanCode <<< 8) + data.toNat)) with
    | error e =>
      intro h
      cases h
      exact toEventId_error he
    | ok i => exact fun h => by cases h
  · cases h

end StarOS
