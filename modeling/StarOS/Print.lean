import StarOS.Layout
import StarOS.Fatal
import StarOS.Strings

/-!
# The screen (`b32_print.cpp`)

The VGA text memory has 25 rows of 80 cells, a character and its attributes each.  `printC` writes a
character, closes the line at a newline or after 80 characters, and scrolls up by half a screen below
the last row.  What goes to the serial port is left out.

* `outputChar`, `scrollUp`, `printC`, `clearScreen`   the source;
* `Text`             the lines of a text: the closed ones and the open one;
* `Shows s text`     rows `0 .. row` show the last `row + 1` lines, the rows below are blank, and
                     `column` is the length of the open line;
* `rowsShow_put`, `rowsShow_endLine`   a character and the end of a line;
* `screen_shows_text`   the screen after any text.
-/

namespace StarOS
open Lib

def vgaMemory : Nat := 0xb8000

/-- the character and the attributes at a position -/
def cellAt (m : Mem) (row column : Nat) : UInt8 × UInt8 :=
  (m (vgaMemory + 2 * (row * 80 + column)), m (vgaMemory + 2 * (row * 80 + column) + 1))

def outputChar (m : Mem) (c property : UInt8) (row column : Nat) : Mem :=
  let ptr := vgaMemory + 2 * (row * 80 + column)
  let data := (property.toNat <<< 8) + c.toNat
  write16 m ptr data

structure Console where
  mem : Mem
  row : Nat
  column : Nat

/-- scroll up half screen of text -/
def scrollUp (s : Console) : Console :=
  let dest := vgaMemory
  let offsetRow := 25 / 2
  let count := (25 - offsetRow) * 80
  let src := dest + 2 * (offsetRow * 80)
  let m := memcpy s.mem dest src (count * 2)
  let m := zeromem m (src + 2 * 80) ((count - 80) * 2)
  { mem := m, row := 25 - offsetRow, column := 0 }

def newline : UInt8 := 10

def isPrintable (c : UInt8) : Bool := c == newline || (32 ≤ c.toNat && c.toNat ≤ 126)

/-- `print_c`, with the position at which it calls `output_char`, if it does -/
def printC (s : Console) (c : UInt8) : Except Fatal (Console × Option (Nat × Nat)) :=
  if !isPrintable c then .error (.nonPrintableChar (c.toInt8.toInt % 2^32).toNat)
  else if c = newline then
    let s := { s with row := (s.row + 1) % 256 % 25, column := 0 }
    .ok (if s.row = 0 then scrollUp s else s, none)
  else
    let call := (s.row, s.column)
    let s := { s with
      mem := outputChar s.mem c 0b00000111 s.row s.column, column := (s.column + 1) % 256 }
    let s := if s.column = 80 then { s with column := 0, row := (s.row + 1) % 256 } else s
    .ok (if s.row = 25 then scrollUp s else s, some call)

/-- the characters of a text, one after the other -/
def printAll : Console → List UInt8 → Except Fatal (Console × List (Nat × Nat))
  | s, [] => .ok (s, [])
  | s, c :: cs => (printC s c).bind fun r => (printAll r.1 cs).map fun t => (t.1, r.2.toList ++ t.2)

/-- the inner loop at the start of `printf` -/
def clearRow (m : Mem) (row : Nat) : Mem :=
  (List.range 80).foldl (fun m column => outputChar m 32 0 row column) m

/-- the outer loop -/
def clearScreen (m : Mem) : Mem := (List.range 25).foldl clearRow m

/-- the screen before the first character -/
def Console.cleared (m : Mem) : Console := ⟨clearScreen m, 0, 0⟩

/-! ## cells -/

theorem cellAt_outputChar (m : Mem) (c property : UInt8) {row column r col : Nat} (hc : column < 80)
    (hcol : col < 80) : cellAt (outputChar m c property row column) r col
      = if r = row ∧ col = column then (c, property) else cellAt m r col := by
  have hdata : (property.toNat <<< 8) + c.toNat = 256 * property.toNat + c.toNat := by
    rw [Nat.shiftLeft_eq]
    omega
  simp only [cellAt, outputChar, hdata, write16_apply]
  by_cases h : r = row ∧ col = column
  · obtain ⟨rfl, rfl⟩ := h
    rw [if_pos rfl, if_neg (by omega), if_pos rfl, if_pos ⟨rfl, rfl⟩]
  · have hne : r * 80 + col ≠ row * 80 + column := by
      intro e
      exact h ⟨by omega, by omega⟩
    rw [if_neg (by omega), if_neg (by omega), if_neg (by omega), if_neg (by omega), if_neg h]

theorem cellAt_scrollUp (s : Console) {r col : Nat} (hr : r < 25) (hcol : col < 80) :
    cellAt (scrollUp s).mem r col = if r < 13 then cellAt s.mem (r + 12) col else (0, 0) := by
  have hmem : ∀ x, (scrollUp s).mem x
      = if vgaMemory + 2080 ≤ x ∧ x < vgaMemory + 2080 + 1920 then 0
        else if vgaMemory ≤ x ∧ x < vgaMemory + 2080 then s.mem (vgaMemory + 1920 + (x - vgaMemory))
        else s.mem x := by
    intro x
    show zeromem (memcpy s.mem vgaMemory (vgaMemory + 1920) 2080) (vgaMemory + 2080) 1920 x = _
    rw [zeromem_apply, memcpy_apply s.mem (by omega)]
  simp only [cellAt, hmem]
  by_cases h : r < 13
  · have e1 : vgaMemory + 1920 + (vgaMemory + 2 * (r * 80 + col) - vgaMemory)
        = vgaMemory + 2 * ((r + 12) * 80 + col) := by omega
    have e2 : vgaMemory + 1920 + (vgaMemory + 2 * (r * 80 + col) + 1 - vgaMemory)
        = vgaMemory + 2 * ((r + 12) * 80 + col) + 1 := by omega
    rw [if_pos h, if_neg (by omega), if_pos (by omega), if_neg (by omega), if_pos (by omega), e1, e2]
  · rw [if_neg h, if_pos (by omega), if_pos (by omega)]

theorem cellAt_clearRow (m : Mem) (row : Nat) {r col : Nat} (hcol : col < 80) :
    cellAt (clearRow m row) r col = if r = row then (32, 0) else cellAt m r col := by
  have h : ∀ n ≤ 80, cellAt ((List.range n).foldl (fun m column => outputChar m 32 0 row column) m) r col
      = if r = row ∧ col < n then (32, 0) else cellAt m r col := by
    intro n
    induction n with
    | zero =>
      intro _
      rw [if_neg (by omega)]
      rfl
    | succ n ih =>
      intro hn
      rw [List.range_succ, List.foldl_append]
      show cellAt (outputChar _ 32 0 row n) r col = _
      rw [cellAt_outputChar _ _ _ (by omega) hcol, ih (by omega)]
      by_cases h : r = row ∧ col = n
      · rw [if_pos h, if_pos (by omega)]
      · rw [if_neg h]
        have e : (r = row ∧ col < n) ↔ (r = row ∧ col < n + 1) := by omega
        simp only [e]
  rw [clearRow, h 80 (Nat.le_refl _)]
  simp only [hcol, and_true]

theorem cellAt_clearScreen (m : Mem) {r col : Nat} (hr : r < 25) (hcol : col < 80) :
    cellAt (clearScreen m) r col = (32, 0) := by
  have h : ∀ n, cellAt ((List.range n).foldl clearRow m) r col
      = if r < n then (32, 0) else cellAt m r col := by
    intro n
    induction n with
    | zero => rfl
    | succ n ih =>
      rw [List.range_succ, List.foldl_append, List.foldl_cons, List.foldl_nil, cellAt_clearRow _ _ hcol, ih]
      by_cases h : r = n
      · rw [if_pos h, if_pos (by omega)]
      · rw [if_neg h]
        have e : r < n ↔ r < n + 1 := by omega
        simp only [e]
  rw [clearScreen, h, if_pos hr]

/-! ## the text -/

/-- a text cut into lines: a newline or its 80th character closes a line -/
structure Text where
  closed : List (List UInt8)
  opened : List UInt8

namespace Text

def empty : Text := ⟨[], []⟩

def lines (t : Text) : List (List UInt8) := t.closed ++ [t.opened]

def put (t : Text) (c : UInt8) : Text :=
  if c = newline then ⟨t.closed ++ [t.opened], []⟩
  else if t.opened.length + 1 = 80 then ⟨t.closed ++ [t.opened ++ [c]], []⟩
  else ⟨t.closed, t.opened ++ [c]⟩

/-- the text of a sequence of characters -/
def of (cs : List UInt8) : Text := cs.foldl put empty

end Text

/-- a cell that shows nothing -/
def Blank (cell : UInt8 × UInt8) : Prop := cell.1 = 32 ∨ cell.1 = 0

/-- a row shows a line: left-aligned, the remainder blank -/
def RowShows (m : Mem) (r : Nat) (ln : List UInt8) : Prop :=
  ∀ col < 80, (∀ c, ln[col]? = some c → cellAt m r col = (c, 0b00000111)) ∧
    (ln[col]? = none → Blank (cellAt m r col))

/-- rows `0 .. row` show the last `row + 1` lines, the rows below are blank -/
structure RowsShow (m : Mem) (row : Nat) (lines : List (List UInt8)) : Prop where
  row_lt : row < 25
  enough : row < lines.length
  above : ∀ r ln, (lines.drop (lines.length - (row + 1)))[r]? = some ln → RowShows m r ln
  below : ∀ r, row < r → r < 25 → RowShows m r []

structure Shows (s : Console) (t : Text) : Prop where
  rows : RowsShow s.mem s.row t.lines
  column_eq : s.column = t.opened.length
  column_lt : s.column < 80

theorem rowShows_congr {m m' : Mem} {r r' : Nat} {ln : List UInt8}
    (hm : ∀ col < 80, cellAt m' r' col = cellAt m r col) (h : RowShows m r ln) : RowShows m' r' ln := by
  intro col hcol
  rw [hm col hcol]
  exact h col hcol

theorem rowShows_nil {m : Mem} {r : Nat} (h : ∀ col < 80, Blank (cellAt m r col)) : RowShows m r [] :=
  fun col hcol => ⟨fun _ hc => (by simp at hc), fun _ => h col hcol⟩

/-- a character at the end of the line that is shown -/
theorem rowShows_put {m : Mem} {row : Nat} {ln : List UInt8} (c : UInt8) (hlen : ln.length < 80)
    (h : RowShows m row ln) :
    RowShows (outputChar m c 0b00000111 row ln.length) row (ln ++ [c]) := by
  intro col hcol
  rw [cellAt_outputChar _ _ _ hlen hcol]
  rcases Nat.lt_trichotomy col ln.length with hlt | heq | hgt
  · rw [List.getElem?_append_left hlt, if_neg (by omega)]
    exact h col hcol
  · rw [heq, List.getElem?_concat_length, if_pos ⟨rfl, rfl⟩]
    exact ⟨fun d hd => by rw [Option.some.inj hd], fun hn => by cases hn⟩
  · have hout : (ln ++ [c])[col]? = none := List.getElem?_eq_none (by simp; omega)
    rw [hout, if_neg (by omega)]
    refine ⟨fun d hd => (by cases hd), fun _ => ?_⟩
    exact (h col hcol).2 (List.getElem?_eq_none (by omega))

/-! ## a character, and the end of a line -/

theorem rowsShow_put {m : Mem} {row : Nat} {closed : List (List UInt8)} {ln : List UInt8} (c : UInt8)
    (hlen : ln.length < 80) (h : RowsShow m row (closed ++ [ln])) :
    RowsShow (outputChar m c 0b00000111 row ln.length) row (closed ++ [ln ++ [c]]) := by
  have hn : (closed ++ [ln]).length = closed.length + 1 := List.length_append
  have hn' : (closed ++ [ln ++ [c]]).length = closed.length + 1 := List.length_append
  have henough := h.enough
  rw [hn] at henough
  have hrow : ∀ r ≠ row, ∀ ln', RowShows m r ln' →
      RowShows (outputChar m c 0b00000111 row ln.length) r ln' := by
    intro r hr ln'
    refine rowShows_congr fun col hcol => ?_
    rw [cellAt_outputChar _ _ _ hlen hcol, if_neg fun e => hr e.1]
  refine ⟨h.row_lt, by omega, fun r ln' hr => ?_, fun r h1 h2 => hrow r (by omega) [] (h.below r h1 h2)⟩
  rw [List.getElem?_drop, hn'] at hr
  rcases Nat.lt_trichotomy r row with hlt | rfl | hgt
  · apply hrow r (by omega)
    apply h.above r
    rw [List.getElem?_drop, hn, List.getElem?_append_left (by omega)]
    rw [List.getElem?_append_left (by omega)] at hr
    exact hr
  · have e : closed.length + 1 - (r + 1) + r = closed.length := by omega
    rw [e, List.getElem?_concat_length] at hr
    rw [← Option.some.inj hr]
    apply rowShows_put c hlen
    apply h.above r
    rw [List.getElem?_drop, hn, e, List.getElem?_concat_length]
  · rw [List.getElem?_eq_none (by omega)] at hr
    cases hr

/-- the line is closed: the next row, or half a screen up -/
def endLine (s : Console) : Console :=
  if s.row + 1 = 25 then scrollUp s else { s with row := s.row + 1, column := 0 }

theorem rowsShow_endLine {s : Console} {lines : List (List UInt8)} (h : RowsShow s.mem s.row lines) :
    RowsShow (endLine s).mem (endLine s).row (lines ++ [[]]) := by
  have hn : (lines ++ [[]]).length = lines.length + 1 := List.length_append
  have henough := h.enough
  have hlt := h.row_lt
  rw [endLine]
  split
  · rename_i hlast
    have hblank : ∀ r, 13 ≤ r → r < 25 → RowShows (scrollUp s).mem r [] := by
      intro r h1 h2
      refine rowShows_nil fun col hcol => ?_
      rw [cellAt_scrollUp s h2 hcol, if_neg (by omega)]
      exact Or.inr rfl
    refine ⟨(by decide : 13 < 25), ?_, fun r ln hr => ?_, fun r h1 h2 => hblank r (Nat.le_of_lt h1) h2⟩
    · show 13 < (lines ++ [[]]).length
      omega
    · have hr : ((lines ++ [[]]).drop ((lines ++ [[]]).length - 14))[r]? = some ln := hr
      rw [List.getElem?_drop, hn] at hr
      rcases Nat.lt_trichotomy r 13 with h13 | rfl | h13
      · -- row `r` is what row `r + 12` was
        refine rowShows_congr (m := s.mem) (r := r + 12) (fun col hcol => ?_) (h.above (r + 12) ln ?_)
        · rw [cellAt_scrollUp s (by omega) hcol, if_pos h13]
        · rw [List.getElem?_append_left (by omega)] at hr
          rw [List.getElem?_drop, ← hr]
          congr 1
          omega
      · have e : lines.length + 1 - 14 + 13 = lines.length := by omega
        rw [e, List.getElem?_concat_length] at hr
        rw [← Option.some.inj hr]
        exact hblank 13 (Nat.le_refl _) (by decide)
      · rw [List.getElem?_eq_none (by omega)] at hr
        cases hr
  · refine ⟨?_, ?_, fun r ln hr => ?_, fun r h1 h2 => h.below r (Nat.lt_of_succ_lt h1) h2⟩
    · show s.row + 1 < 25
      omega
    · show s.row + 1 < (lines ++ [[]]).length
      omega
    · have hr : ((lines ++ [[]]).drop ((lines ++ [[]]).length - (s.row + 1 + 1)))[r]? = some ln := hr
      rw [List.getElem?_drop, hn] at hr
      rcases Nat.lt_trichotomy r (s.row + 1) with h1 | rfl | h1
      · apply h.above r ln
        rw [List.getElem?_append_left (by omega)] at hr
        rw [List.getElem?_drop, ← hr]
        congr 1
        omega
      · have e : lines.length + 1 - (s.row + 1 + 1) + (s.row + 1) = lines.length := by omega
        rw [e, List.getElem?_concat_length] at hr
        rw [← Option.some.inj hr]
        exact h.below (s.row + 1) (by omega) (by omega)
      · rw [List.getElem?_eq_none (by omega)] at hr
        cases hr

/-! ## texts -/

theorem endLine_column (s : Console) : (endLine s).column = 0 := by
  rw [endLine]
  split <;> rfl

theorem printC_newline {s : Console} (hr : s.row < 25) : printC s newline = .ok (endLine s, none) := by
  have hrow : (s.row + 1) % 256 % 25 = if s.row + 1 = 25 then 0 else s.row + 1 := by
    split <;> omega
  rw [printC, if_neg (by decide), if_pos rfl]
  simp only [hrow, endLine]
  by_cases h : s.row + 1 = 25
  · rw [if_pos h, if_pos h, if_pos rfl]
    rfl
  · rw [if_neg h, if_neg h, if_neg (Nat.succ_ne_zero _)]

/-- a character that is no newline: it is written, and the 80th one closes the line -/
theorem printC_char {s : Console} {c : UInt8} (hp : isPrintable c = true) (hc : c ≠ newline)
    (hr : s.row < 25) (hcol : s.column < 80) :
    printC s c = .ok (if s.column + 1 = 80
      then endLine { s with mem := outputChar s.mem c 0b00000111 s.row s.column, column := 80 }
      else { s with mem := outputChar s.mem c 0b00000111 s.row s.column, column := s.column + 1 },
      some (s.row, s.column)) := by
  have ecol : (s.column + 1) % 256 = s.column + 1 := by omega
  have erow : (s.row + 1) % 256 = s.row + 1 := by omega
  rw [printC, if_neg (by rw [hp]; decide), if_neg hc]
  simp only [ecol, erow]
  by_cases h : s.column + 1 = 80
  · rw [if_pos h, if_pos h, endLine]
    rfl
  · rw [if_neg h, if_neg h, if_neg (by show ¬ s.row = 25; omega)]

theorem shows_printC {s : Console} {t : Text} {c : UInt8} (h : Shows s t) (hp : isPrintable c = true) :
    ∃ s' call, printC s c = .ok (s', call) ∧ Shows s' (t.put c) ∧
      ∀ p ∈ call, p.1 < 25 ∧ p.2 < 80 := by
  have hr := h.rows.row_lt
  have hcol := h.column_lt
  by_cases hc : c = newline
  · refine ⟨_, none, hc ▸ printC_newline hr, ?_, fun p hp => by cases hp⟩
    rw [Text.put, if_pos hc]
    exact ⟨rowsShow_endLine h.rows, endLine_column s, by rw [endLine_column]; decide⟩
  · refine ⟨_, _, printC_char hp hc hr hcol, ?_, fun p hp => ?_⟩
    · have hput := rowsShow_put c (h.column_eq ▸ hcol) h.rows
      rw [← h.column_eq] at hput
      rw [Text.put, if_neg hc, ← h.column_eq]
      split
      · exact ⟨rowsShow_endLine hput, endLine_column _, by rw [endLine_column]; decide⟩
      · refine ⟨hput, ?_, by show s.column + 1 < 80; omega⟩
        show s.column + 1 = (t.opened ++ [c]).length
        rw [List.length_append, ← h.column_eq]
        rfl
    · obtain rfl := Option.some.inj hp
      exact ⟨hr, hcol⟩

theorem shows_printAll {s : Console} {t : Text} {cs : List UInt8} (h : Shows s t)
    (hcs : ∀ c ∈ cs, isPrintable c = true) :
    ∃ s' calls, printAll s cs = .ok (s', calls) ∧ Shows s' (cs.foldl Text.put t) ∧
      ∀ p ∈ calls, p.1 < 25 ∧ p.2 < 80 := by
  induction cs generalizing s t with
  | nil => exact ⟨s, [], rfl, h, fun p hp => absurd hp List.not_mem_nil⟩
  | cons c cs ih =>
    obtain ⟨s₁, call, h₁, hs₁, hcall⟩ := shows_printC h (hcs c List.mem_cons_self)
    obtain ⟨s₂, calls, h₂, hs₂, hcalls⟩ := ih hs₁ fun d hd => hcs d (List.mem_cons_of_mem _ hd)
    refine ⟨s₂, call.toList ++ calls, ?_, hs₂, fun p hp => ?_⟩
    · rw [printAll, h₁]
      show (printAll s₁ cs).map _ = _
      rw [h₂]
      rfl
    · rcases List.mem_append.mp hp with hp | hp
      · exact hcall p (Option.mem_toList.mp hp)
      · exact hcalls p hp

theorem shows_cleared (m : Mem) : Shows (Console.cleared m) Text.empty := by
  have hblank : ∀ r < 25, RowShows (clearScreen m) r [] := by
    intro r hr
    refine rowShows_nil fun col hcol => ?_
    rw [cellAt_clearScreen m hr hcol]
    exact Or.inl rfl
  refine ⟨⟨Nat.zero_lt_succ _, Nat.zero_lt_succ _, fun r ln hr => ?_, fun r _ h => hblank r h⟩, rfl,
    Nat.zero_lt_succ _⟩
  have hr : [([] : List UInt8)][r]? = some ln := hr
  cases r with
  | zero => exact Option.some.inj hr ▸ hblank 0 (by decide)
  | succ r => cases hr

/-- **Whatever printable characters and newlines are printed on a cleared screen, every call of
`output_char` is inside the screen, `column` is the length of the open line, rows `0 .. row` show the
last `row + 1` lines of the text, left-aligned, and the rest of the screen is blank.** -/
theorem screen_shows_text (m : Mem) (cs : List UInt8) (h : ∀ c ∈ cs, isPrintable c = true) :
    ∃ s calls, printAll (Console.cleared m) cs = .ok (s, calls) ∧
      (∀ p ∈ calls, p.1 < 25 ∧ p.2 < 80) ∧ Shows s (Text.of cs) := by
  obtain ⟨s, calls, hs, hshows, hcalls⟩ := shows_printAll (shows_cleared m) h
  exact ⟨s, calls, hs, hcalls, hshows⟩

/-- `a`, a newline, `b` -/
theorem screen_shows_text_two : ∃ s calls,
    printAll (Console.cleared fun _ => 0) [97, 10, 98] = .ok (s, calls) ∧
    (∀ p ∈ calls, p.1 < 25 ∧ p.2 < 80) ∧ Shows s ⟨[[97]], [98]⟩ :=
  screen_shows_text (fun _ => 0) [97, 10, 98] (by decide +kernel)

end StarOS
