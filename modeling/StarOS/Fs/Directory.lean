import Mathlib.Data.List.GetD
import StarOS.Fs.Image

/-!
# What a directory sector is composed of, and what the search makes of it

The search reads the entries of a sector as `Slot`s: a long name entry is a piece of a name to store
in the name buffer, every other entry is compared with what the buffer holds.

* `scanTable_eq`      the loop is `settle`, applied to the comparisons (`probes`) its entries lead to;
* `settle_none`, `settle_found`   it ends at the first of them that spells the component;
* `LongName`, `Item`, `Composed`   live groups, deleted entries, the end marker;
* `probes_live`       a group is compared under its name, **followed by what was in the buffer** if its
                      name fills its entries.
-/

namespace StarOS
open Lib

/-! ## slots -/

/-- what the search reads of an entry that is no long name entry -/
structure Short where
  attributes : UInt8
  firstClusterNumber : Nat
  size : Nat
deriving DecidableEq

def Short.IsDirectory (s : Short) : Prop := s.attributes &&& 0x10 ≠ 0

instance (s : Short) : Decidable s.IsDirectory := inferInstanceAs (Decidable (_ ≠ _))

inductive Slot where
  | short (s : Short)
  | long (order : Nat) (chars : List UInt8)
deriving DecidableEq

/-- entry `i` of a directory -/
def entryAt (table : Mem) (i : Nat) : Mem := advance table (32 * i)

/-- the characters of a long name entry from number `i` on, without the padding -/
def longChars (lfn : Mem) (i n : Nat) : List UInt8 :=
  (((List.range' i n).map (lfnChar lfn)).filter (· ≠ 0xffff)).map UInt8.ofNat

def slotOf (entry : Mem) : Slot :=
  if entry 11 = 0x0f then .long (entry 0 &&& 0xf).toNat (longChars entry 0 13)
  else .short ⟨entry 11, read16 entry 20 * 2^16 + read16 entry 26, read32 entry 28⟩

/-- the slots of a sector -/
def slots (table : Mem) (i n : Nat) : List Slot := (List.range' i n).map fun j => slotOf (entryAt table j)

/-- the buffer after a string is stored from `off` on -/
def overlay (name : Mem) (off : Nat) (chars : List UInt8) : Mem :=
  fun x => if off ≤ x then (chars[x - off]?).getD (name x) else name x

/-- what the search does at an entry, besides storing in the buffer -/
inductive Probe where
  | compare (s : Short) (name : Mem)
  | overrun

def probes : List Slot → Mem → List Probe
  | [], _ => []
  | .short s :: slots, name => .compare s name :: probes slots name
  | .long order chars :: slots, name =>
    if order = 0 then
      if chars = [] then probes slots name else [.overrun]
    else probes slots (overlay name (13 * (order - 1)) chars)

/-- what the search ends with -/
def settle (part : Mem) : List Probe → Except Fatal Found
  | [] => .error (.fileNotFound (cString part (maxFilenameSize + 1)))
  | .overrun :: _ => .error .outOfBounds
  | .compare s name :: ps =>
    match strcmp (maxFilenameSize + 1) part name with
    | none => .error .outOfBounds
    | some r =>
      if r = 0 then
        if s.attributes &&& 0x10 = 0 then .ok (.file ⟨name, s.firstClusterNumber, s.size⟩)
        else .ok (.directory s.firstClusterNumber)
      else settle part ps

/-! ## the loop over the characters of an entry -/

theorem overlay_nil (name : Mem) (off : Nat) : overlay name off [] = name := by
  funext x
  simp [overlay]

theorem overlay_cons (name : Mem) (off : Nat) (b : UInt8) (chars : List UInt8) :
    overlay (writeByte name off b) (off + 1) chars = overlay name off (b :: chars) := by
  funext x
  unfold overlay writeByte
  by_cases hx : x = off
  · rw [if_neg (by omega), if_pos hx, if_pos (by omega), hx, Nat.sub_self]
    rfl
  · by_cases hx' : off + 1 ≤ x
    · have e : x - off = x - (off + 1) + 1 := by omega
      rw [if_pos hx', if_neg hx, if_pos (by omega), e, List.getElem?_cons_succ]
    · rw [if_neg hx', if_neg hx, if_neg (by omega)]

theorem longChars_succ (lfn : Mem) (i n : Nat) :
    longChars lfn i (n + 1) = if lfnChar lfn i ≠ 0xffff
      then UInt8.ofNat (lfnChar lfn i) :: longChars lfn (i + 1) n else longChars lfn (i + 1) n := by
  unfold longChars
  rw [List.range'_succ, List.map_cons, List.filter_cons]
  by_cases h : lfnChar lfn i ≠ 0xffff <;> simp [h]

theorem longChars_length (lfn : Mem) (i n : Nat) : (longChars lfn i n).length ≤ n := by
  unfold longChars
  rw [List.length_map]
  refine (List.length_filter_le ..).trans ?_
  rw [List.length_map, List.length_range']

theorem copyChars_eq (lfn : Mem) (n i off : Nat) (name : Mem) (h : off + n ≤ maxFilenameSize + 1) :
    copyChars lfn n i off name = .ok (overlay name off (longChars lfn i n)) := by
  induction n generalizing i off name with
  | zero => rw [copyChars, longChars, List.range'_zero, List.map_nil, List.filter_nil, List.map_nil, overlay_nil]
  | succ n ih =>
    rw [copyChars, longChars_succ]
    by_cases hc : lfnChar lfn i ≠ 0xffff
    · rw [if_pos hc, if_pos hc, if_pos (by omega), Int.toNat_natCast, ← overlay_cons]
      exact ih (i + 1) (off + 1) _ (by omega)
    · rw [if_neg hc, if_neg hc]
      exact ih (i + 1) off name (by omega)

/-- an order of zero puts the characters before the buffer -/
theorem copyChars_before (lfn : Mem) (n i : Nat) {off : Int} (name : Mem) (h : off < 0) :
    copyChars lfn n i off name = if longChars lfn i n = [] then .ok name else .error .outOfBounds := by
  induction n generalizing i with
  | zero => rw [copyChars, longChars, List.range'_zero, List.map_nil, List.filter_nil, List.map_nil, if_pos rfl]
  | succ n ih =>
    rw [copyChars, longChars_succ]
    by_cases hc : lfnChar lfn i ≠ 0xffff
    · rw [if_pos hc, if_pos hc, if_neg (by omega), if_neg (by simp)]
    · rw [if_neg hc, if_neg hc, ih]

/-! ## the loop over the entries -/

theorem order_le (b : UInt8) : (b &&& 0xf).toNat ≤ 15 := by
  rw [UInt8.toNat_and]
  exact Nat.and_le_right

theorem scanTable_eq (part table : Mem) (n i : Nat) (name : Mem) :
    scanTable part table n i name = settle part (probes (slots table i n) name) := by
  induction n generalizing i name with
  | zero => rfl
  | succ n ih =>
    have hslots : slots table i (n + 1) = slotOf (entryAt table i) :: slots table (i + 1) n := rfl
    rw [hslots, scanTable, slotOf]
    by_cases hl : entryAt table i 11 = 0x0f
    · have hl' : advance table (32 * i) 11 = 0x0f := hl
      have ho := order_le (entryAt table i 0)
      have horder : advance table (32 * i) 0 = entryAt table i 0 := rfl
      have hlfn : advance table (32 * i) = entryAt table i := rfl
      simp only [hl', hl, if_true, horder, hlfn, probes]
      generalize (entryAt table i 0 &&& 0xf).toNat = order at ho ⊢
      by_cases h0 : order = 0
      · rw [if_pos h0, copyChars_before _ _ _ _ (by omega)]
        by_cases hc : longChars (entryAt table i) 0 13 = []
        · rw [if_pos hc, if_pos hc]
          exact ih (i + 1) name
        · rw [if_neg hc, if_neg hc]
          rfl
      · have e : ((order : Int) - 1) * 13 = ((13 * (order - 1) : Nat) : Int) := by omega
        have hfit : 13 * (order - 1) + 13 ≤ maxFilenameSize + 1 := by
          unfold maxFilenameSize
          omega
        rw [if_neg h0, e, copyChars_eq _ _ _ _ _ hfit]
        exact ih (i + 1) _
    · have hl' : ¬ advance table (32 * i) 11 = 0x0f := hl
      simp only [hl', hl, if_false, probes, settle, ih]
      rfl

/-- an entry is read in its 32 bytes only -/
theorem slotOf_congr {e e' : Mem} (h : ∀ y < 32, e y = e' y) : slotOf e = slotOf e' := by
  have h16 : ∀ a, a + 1 < 32 → read16 e a = read16 e' a := by
    intro a ha
    unfold read16
    rw [h a (by omega), h (a + 1) ha]
  have hchars : longChars e 0 13 = longChars e' 0 13 := by
    unfold longChars
    congr 2
    refine List.map_congr_left fun i hi => lfnChar_congr (fun y _ hy => h y hy) ?_
    rw [List.mem_range'_1] at hi
    omega
  unfold slotOf
  rw [h 11 (by omega), h 0 (by omega), hchars, h16 20 (by omega), h16 26 (by omega),
    read32_congr (fun x _ hx => h x (by omega))]

theorem slots_congr {table table' : Mem} (h : ∀ y < 512, table y = table' y) :
    slots table 0 16 = slots table' 0 16 := by
  refine List.map_congr_left fun i hi => slotOf_congr fun y hy => h _ ?_
  rw [List.mem_range'_1] at hi
  omega

/-! ## the comparison -/

/-- the first 256 bytes at `p` are those of the string `c`, up to its null byte -/
def Spells (p : Mem) (c : List UInt8) : Prop := ∀ i < 256, i ≤ c.length → p i = c.getD i 0

instance (p : Mem) (c : List UInt8) : Decidable (Spells p c) :=
  decidable_of_iff (∀ i ∈ List.range 256, i ≤ c.length → p i = c.getD i 0)
    (forall_congr' fun _ => by rw [List.mem_range])

section
variable {part name : Mem} {c : List UInt8} (hc : ∀ b ∈ c, b ≠ 0) (hp : Spells part c)
include hc

theorem getD_ne_zero {i : Nat} (hi : i < c.length) : c.getD i 0 ≠ 0 := by
  rw [List.getD_eq_getElem _ _ hi]
  exact hc _ (List.getElem_mem hi)

include hp

theorem strcmp_spelled (hlen : c.length < 256) (h : Spells name c) :
    strcmp (maxFilenameSize + 1) part name = some 0 := by
  have hend : part c.length = 0 := by
    rw [hp _ hlen (Nat.le_refl _), List.getD_eq_default _ _ (Nat.le_refl _)]
  refine strcmp_same (i := c.length) (by unfold maxFilenameSize; omega) (fun j hj => ?_) (fun j hj => ?_) hend
  · rw [hp j (by omega) (by omega)]
    exact getD_ne_zero hc hj
  · rw [hp j (by omega) hj, h j (by omega) hj]

theorem strcmp_unspelled (h : ¬ Spells name c) :
    ∃ r, r ≠ 0 ∧ strcmp (maxFilenameSize + 1) part name = some r := by
  have hex : ∃ i, i < 256 ∧ i ≤ c.length ∧ name i ≠ c.getD i 0 := by
    by_contra hn
    exact h fun i hi hi' => not_not.mp fun hne => hn ⟨i, hi, hi', hne⟩
  -- the first byte that is another one
  obtain ⟨h256, hle, hne⟩ := Nat.find_spec hex
  have hmin : ∀ j < Nat.find hex, name j = c.getD j 0 := by
    intro j hj
    by_contra hn
    exact Nat.find_min hex hj ⟨by omega, by omega, hn⟩
  refine strcmp_differ (i := Nat.find hex) (by unfold maxFilenameSize; omega) (fun j hj => ?_) (fun j hj => ?_) ?_
  · rw [hp j (by omega) (by omega)]
    exact getD_ne_zero hc (by omega)
  · rw [hp j (by omega) (by omega), hmin j hj]
  · rw [hp _ h256 hle]
    exact hne.symm

/-- of a component of 256 bytes and more, `current_part_filename` holds no null byte of its own -/
theorem strcmp_long (hlen : 256 ≤ c.length) (h : Spells name c) (hlast : part 256 = name 256) :
    strcmp (maxFilenameSize + 1) part name = none ∨ strcmp (maxFilenameSize + 1) part name = some 0 := by
  have h0 : ∀ j < 256, part j ≠ 0 := by
    intro j hj
    rw [hp j hj (by omega)]
    exact getD_ne_zero hc (by omega)
  have he : ∀ j ≤ 256, part j = name j := by
    intro j hj
    by_cases hj' : j = 256
    · rw [hj', hlast]
    · rw [hp j (by omega) (by omega), h j (by omega) (by omega)]
  by_cases hz : part 256 = 0
  · exact .inr (strcmp_same (i := 256) (by decide) h0 he hz)
  · refine .inl (strcmp_past (fun j hj => ?_) (fun j hj => he j ?_))
    · by_cases hj' : j = 256
      · rw [hj']
        exact hz
      · exact h0 j (by unfold maxFilenameSize at hj; omega)
    · unfold maxFilenameSize at hj
      omega

end

/-! ## where the search ends -/

/-- the search for `c` goes no further -/
def Probe.Stops (c : List UInt8) : Probe → Prop
  | .compare _ name => Spells name c
  | .overrun => True

instance (c : List UInt8) : DecidablePred (Probe.Stops c)
  | .compare _ name => inferInstanceAs (Decidable (Spells name c))
  | .overrun => .isTrue trivial

/-- an entry that compares equal is taken -/
theorem settle_equal {part name : Mem} (h : strcmp (maxFilenameSize + 1) part name = some 0) (s : Short)
    (ps : List Probe) : settle part (.compare s name :: ps) = if s.IsDirectory
      then .ok (.directory s.firstClusterNumber) else .ok (.file ⟨name, s.firstClusterNumber, s.size⟩) := by
  rw [settle, h]
  by_cases hd : s.IsDirectory
  · rw [if_pos hd]
    exact if_neg hd
  · rw [if_neg hd]
    exact if_pos (not_not.mp hd)

section
variable {part : Mem} {c : List UInt8} (hc : ∀ b ∈ c, b ≠ 0) (hp : Spells part c)
include hc hp

theorem settle_skip {p : Probe} (h : ¬ p.Stops c) (ps : List Probe) : settle part (p :: ps) = settle part ps := by
  cases p with
  | overrun => exact absurd trivial h
  | compare s name =>
    obtain ⟨r, hr, e⟩ := strcmp_unspelled hc hp h
    rw [settle]
    simp only [e, hr, if_false]

theorem settle_none {ps : List Probe} (h : ps.find? (·.Stops c) = none) :
    settle part ps = .error (.fileNotFound (cString part (maxFilenameSize + 1))) := by
  induction ps with
  | nil => rfl
  | cons p ps ih =>
    rw [List.find?_cons] at h
    by_cases hs : p.Stops c
    · simp [hs] at h
    · rw [settle_skip hc hp hs]
      exact ih (by simpa [hs] using h)

theorem settle_stop {ps : List Probe} {p : Probe} (h : ps.find? (·.Stops c) = some p) :
    p.Stops c ∧ ∃ rest, settle part ps = settle part (p :: rest) := by
  induction ps with
  | nil => simp at h
  | cons q ps ih =>
    rw [List.find?_cons] at h
    by_cases hs : q.Stops c
    · have e : q = p := by simpa [hs] using h
      rw [← e]
      exact ⟨hs, ps, rfl⟩
    · rw [settle_skip hc hp hs]
      exact ih (by simpa [hs] using h)

theorem settle_found (hlen : c.length < 256) {ps : List Probe} {s : Short} {name : Mem}
    (h : ps.find? (·.Stops c) = some (.compare s name)) :
    settle part ps = if s.IsDirectory then .ok (.directory s.firstClusterNumber)
      else .ok (.file ⟨name, s.firstClusterNumber, s.size⟩) := by
  obtain ⟨hs, rest, e⟩ := settle_stop hc hp h
  rw [e]
  exact settle_equal (strcmp_spelled hc hp hlen hs) s rest

theorem settle_overrun {ps : List Probe} (h : ps.find? (·.Stops c) = some .overrun) :
    settle part ps = .error .outOfBounds := by
  obtain ⟨-, rest, e⟩ := settle_stop hc hp h
  rw [e]
  rfl

/-- where the buffer spells the component the search ends, if need be past the buffer -/
theorem settle_reached {ps : List Probe} {s : Short} {name : Mem}
    (h : ps.find? (·.Stops c) = some (.compare s name)) (hlast : part 256 = name 256) :
    settle part ps = .error .outOfBounds ∨ settle part ps = if s.IsDirectory
      then .ok (.directory s.firstClusterNumber) else .ok (.file ⟨name, s.firstClusterNumber, s.size⟩) := by
  by_cases hlen : c.length < 256
  · exact .inr (settle_found hc hp hlen h)
  · obtain ⟨hs, rest, e⟩ := settle_stop hc hp h
    rw [e]
    rcases strcmp_long hc hp (by omega) hs hlast with hr | hr
    · rw [settle, hr]
      exact .inl rfl
    · exact .inr (settle_equal hr s rest)

end

/-! ## long names -/

/-- a long name: ASCII, as long as the entries of a sector allow -/
structure LongName where
  bytes : List UInt8
  pos : 0 < bytes.length
  le : bytes.length ≤ 195
  ascii : ∀ b ∈ bytes, b ≠ 0 ∧ b < 0x80

namespace LongName
variable (n : LongName)

/-- the name and its null byte -/
def text : List UInt8 := n.bytes ++ [0]

/-- the number of its long name entries -/
def count : Nat := (n.bytes.length + 12) / 13

/-- character `i`, counted through all entries -/
def char (i : Nat) : Nat := if i < n.text.length then (n.text.getD i 0).toNat else 0xffff

/-- the slot of its entry of order `k + 1` -/
def slot (k : Nat) : Slot := .long (k + 1) ((n.text.drop (13 * k)).take 13)

/-- the buffer after its entries -/
def left (name : Mem) : Mem := overlay name 0 (n.text.take (13 * n.count))

/-- its entry of order `k + 1` -/
structure IsLong (k : Nat) (e : Mem) : Prop where
  attributes : e 11 = 0x0f
  order : e 0 = UInt8.ofNat (if k + 1 = n.count then 0x40 + (k + 1) else k + 1)
  chars : ∀ j < 13, lfnChar e j = n.char (13 * k + j)

variable {n}

theorem longChars_text {text : List UInt8} {e : Mem} {a i m : Nat}
    (h : ∀ j, i ≤ j → j < i + m → lfnChar e j
      = if a + j < text.length then (text.getD (a + j) 0).toNat else 0xffff) :
    longChars e i m = (text.drop (a + i)).take m := by
  induction m generalizing i with
  | zero => rw [List.take_zero]; rfl
  | succ m ih =>
    have hi := h i (Nat.le_refl _) (by omega)
    rw [longChars_succ, ih (fun j hj hj' => h j (by omega) (by omega))]
    by_cases hlt : a + i < text.length
    · have hb := (text.getD (a + i) 0).toNat_lt
      rw [if_pos hlt] at hi
      have e1 : lfnChar e i ≠ 0xffff := by omega
      rw [if_pos e1, hi, UInt8.ofNat_toNat, List.drop_eq_getElem_cons hlt, List.take_succ_cons,
        List.getD_eq_getElem _ _ hlt]
      rfl
    · rw [if_neg hlt] at hi
      rw [if_neg (fun hn => hn hi), List.drop_eq_nil_of_le (by omega), List.drop_eq_nil_of_le (by omega),
        List.take_nil, List.take_nil]

theorem slotOf_long {k : Nat} {e : Mem} (hk : k < n.count) (h : n.IsLong k e) : slotOf e = n.slot k := by
  have hle := n.le
  have horder : (e 0 &&& 0xf).toNat = k + 1 := by
    have hk' : k < 15 := by
      unfold count at hk
      omega
    rw [h.order]
    by_cases hl : k + 1 = n.count
    · rw [if_pos hl]
      interval_cases k <;> rfl
    · rw [if_neg hl]
      interval_cases k <;> rfl
  have hchars : longChars e 0 13 = (n.text.drop (13 * k)).take 13 :=
    longChars_text (a := 13 * k) fun j _ hj => h.chars j (by omega)
  rw [slotOf, if_pos h.attributes, horder, hchars, slot]

theorem probes_longs (m : Nat) (slots : List Slot) (name : Mem) :
    probes ((List.range m).reverse.map n.slot ++ slots) name
      = probes slots (overlay name 0 (n.text.take (13 * m))) := by
  induction m generalizing name with
  | zero => rw [Nat.mul_zero, List.take_zero, overlay_nil]; rfl
  | succ m ih =>
    rw [List.range_succ, List.reverse_append, List.reverse_singleton, List.singleton_append, List.map_cons,
      List.cons_append, slot, probes, if_neg (by omega), Nat.add_sub_cancel, ih]
    congr 1
    funext x
    unfold overlay
    rw [if_pos (Nat.zero_le x), if_pos (Nat.zero_le x), Nat.sub_zero]
    by_cases hx : x < 13 * m
    · rw [if_neg (by omega), List.getElem?_take_of_lt hx, List.getElem?_take_of_lt (by omega)]
    · have e : 13 * m + (x - 13 * m) = x := by omega
      have hnone : (n.text.take (13 * m))[x]? = none := List.getElem?_take_eq_none (by omega)
      rw [if_pos (by omega), hnone, Option.getD_none]
      by_cases hx' : x < 13 * (m + 1)
      · rw [List.getElem?_take_of_lt hx', List.getElem?_take_of_lt (by omega), List.getElem?_drop, e]
      · rw [List.getElem?_take_eq_none (by omega), List.getElem?_take_eq_none (by omega)]

theorem left_apply (name : Mem) (x : Nat) :
    n.left name x = if x < min (n.bytes.length + 1) (13 * n.count) then n.text.getD x 0 else name x := by
  unfold left overlay
  rw [if_pos (Nat.zero_le x), Nat.sub_zero, List.getElem?_take, List.getD_eq_getElem?_getD]
  have hlen : n.text.length = n.bytes.length + 1 := List.length_append
  by_cases hx : x < 13 * n.count
  · by_cases hx' : x < n.bytes.length + 1
    · rw [if_pos hx, if_pos (by omega), List.getElem?_eq_getElem (by omega)]
      rfl
    · rw [if_pos hx, if_neg (by omega), List.getElem?_eq_none (by omega)]
      rfl
  · rw [if_neg hx, if_neg (by omega)]
    rfl

/-- a name that does not fill its entries ends in them -/
theorem spells_left (hn : ¬ 13 ∣ n.bytes.length) (name : Mem) {c : List UInt8} (hc : ∀ b ∈ c, b ≠ 0) :
    Spells (n.left name) c ↔ n.bytes = c := by
  have hle := n.le
  have hleft : ∀ x ≤ n.bytes.length, n.left name x = n.bytes.getD x 0 := by
    intro x hx
    rw [left_apply, if_pos (by unfold count; omega), text]
    by_cases hx' : x < n.bytes.length
    · rw [List.getD_append _ _ _ _ hx']
    · rw [List.getD_append_right _ _ _ _ (by omega), List.getD_eq_default n.bytes _ (by omega)]
      have e : x - n.bytes.length = 0 := by omega
      rw [e]
      rfl
  constructor
  · intro h
    -- the null byte of the one is that of the other
    have hlen : n.bytes.length = c.length := by
      rcases Nat.lt_trichotomy n.bytes.length c.length with hlt | he | hlt
      · have h1 := h n.bytes.length (by omega) (by omega)
        rw [hleft _ (Nat.le_refl _), List.getD_eq_default _ _ (Nat.le_refl _)] at h1
        exact absurd h1.symm (getD_ne_zero hc hlt)
      · exact he
      · have h1 := h c.length (by omega) (Nat.le_refl _)
        rw [hleft _ (by omega), List.getD_eq_default c _ (Nat.le_refl _)] at h1
        exact absurd h1 (getD_ne_zero (fun b hb => (n.ascii b hb).1) hlt)
    refine List.ext_getElem hlen fun i hi hi' => ?_
    have h1 := h i (by omega) (by omega)
    rw [hleft i (by omega), List.getD_eq_getElem _ _ hi, List.getD_eq_getElem _ _ hi'] at h1
    exact h1
  · rintro rfl i hi hle
    exact hleft i hle

/-- its entry of order `k + 1`, the bytes that are not read being zero -/
def entry (n : LongName) (k : Nat) : Mem := fun y =>
  if y = 0 then UInt8.ofNat (if k + 1 = n.count then 0x40 + (k + 1) else k + 1)
  else if y = 11 then 0x0f
  else if y < 11 then byteOf (n.char (13 * k + (y - 1) / 2)) ((y - 1) % 2)
  else if 14 ≤ y ∧ y < 26 then byteOf (n.char (13 * k + 5 + (y - 14) / 2)) ((y - 14) % 2)
  else if 28 ≤ y then byteOf (n.char (13 * k + 11 + (y - 28) / 2)) ((y - 28) % 2)
  else 0

end LongName

/-- a short entry, its name being `A` -/
def Short.entry (s : Short) : Mem := fun y =>
  if y = 0 then 0x41
  else if y = 11 then s.attributes
  else if y = 20 ∨ y = 21 then byteOf s.firstClusterNumber (y - 18)
  else if y = 26 ∨ y = 27 then byteOf s.firstClusterNumber (y - 26)
  else if 28 ≤ y then byteOf s.size (y - 28)
  else 0

/-- the sector with these entries and zero entries behind them -/
def tableOf (entries : List Mem) : Mem := fun y => entries.getD (y / 32) (fun _ => 0) (y % 32)

theorem tableOf_behind {entries : List Mem} {i y : Nat} (hi : entries.length ≤ i) (hy : y < 32) :
    entryAt (tableOf entries) i y = 0 := by
  unfold entryAt advance tableOf
  rw [List.getD_eq_default _ _ (by omega)]

/-! ## the composition of a sector -/

/-- a part of a directory -/
inductive Item where
  | live (name : LongName) (s : Short)
  | deleted (slot : Slot)
  | bare (s : Short)
  | rest (marker : Slot) (zeros : Nat)

def Item.slots : Item → List Slot
  | .live n s => (List.range n.count).reverse.map n.slot ++ [.short s]
  | .deleted slot => [slot]
  | .bare s => [.short s]
  | .rest marker zeros => marker :: List.replicate zeros (.short ⟨0, 0, 0⟩)

/-- the long name of a live group -/
def Item.name : Item → Option (List UInt8)
  | .live n _ => some n.bytes
  | _ => none

/-- an entry in use that is no long name entry -/
structure InUse (e : Mem) (s : Short) : Prop where
  first : e 0 ≠ 0xe5 ∧ e 0 ≠ 0
  short : slotOf e = .short s

/-- the entries from number `i` on are those of the items: the long name entries of a live group in
descending order and then its short entry; deleted entries; entries without a long name; the end marker
and zero entries behind it -/
inductive Composed (table : Mem) : Nat → List Item → Prop where
  | full : Composed table 16 []
  | rest {i : Nat} (hi : i < 16) (h0 : entryAt table i 0 = 0)
      (hz : ∀ j, i < j → j < 16 → ∀ y < 32, entryAt table j y = 0) :
      Composed table i [.rest (slotOf (entryAt table i)) (15 - i)]
  | deleted {i : Nat} {items : List Item} (hi : i < 16) (h0 : entryAt table i 0 = 0xe5)
      (h : Composed table (i + 1) items) : Composed table i (.deleted (slotOf (entryAt table i)) :: items)
  | bare {i : Nat} {s : Short} {items : List Item} (hi : i < 16) (h0 : InUse (entryAt table i) s)
      (h : Composed table (i + 1) items) : Composed table i (.bare s :: items)
  | live {i : Nat} {n : LongName} {s : Short} {items : List Item} (hi : i + n.count < 16)
      (hl : ∀ k < n.count, n.IsLong (n.count - 1 - k) (entryAt table (i + k)))
      (h0 : InUse (entryAt table (i + n.count)) s)
      (h : Composed table (i + n.count + 1) items) : Composed table i (.live n s :: items)

theorem slots_cons {table : Mem} {i : Nat} (hi : i < 16) :
    slots table i (16 - i) = slotOf (entryAt table i) :: slots table (i + 1) (16 - (i + 1)) := by
  have e : 16 - i = 16 - (i + 1) + 1 := by omega
  rw [slots, e, List.range'_succ]
  rfl

theorem slots_composed {table : Mem} {i : Nat} {items : List Item} (h : Composed table i items) :
    slots table i (16 - i) = items.flatMap Item.slots := by
  induction h with
  | full => rfl
  | @rest i hi h0 hz =>
    rw [slots_cons hi, List.flatMap_singleton, Item.slots]
    congr 1
    refine List.eq_replicate_iff.mpr ⟨?_, fun s hs => ?_⟩
    · rw [slots, List.length_map, List.length_range']
      omega
    · obtain ⟨j, hj, rfl⟩ := List.mem_map.mp hs
      rw [List.mem_range'_1] at hj
      exact (slotOf_congr (hz j (by omega) (by omega))).trans (by decide : slotOf (fun _ => 0) = _)
  | deleted hi h0 h ih =>
    rw [slots_cons hi, ih]
    rfl
  | bare hi h0 h ih =>
    rw [slots_cons hi, ih, h0.short]
    rfl
  | @live i n s items hi hl h0 h ih =>
    have hcut : List.range' i (16 - i) = List.range' i n.count
        ++ (i + n.count) :: List.range' (i + n.count + 1) (16 - (i + n.count + 1)) := by
      have e : 16 - i = n.count + (16 - (i + n.count + 1) + 1) := by omega
      rw [e, ← List.range'_append_1, List.range'_succ]
    have hlongs : slots table i n.count = (List.range n.count).reverse.map n.slot := by
      refine List.ext_getElem (by simp [slots]) fun k hk hk' => ?_
      have hk1 : k < n.count := by simpa [slots] using hk
      have e : slotOf (entryAt table (i + k)) = n.slot (n.count - 1 - k) :=
        LongName.slotOf_long (by omega) (hl k hk1)
      simp [slots, e]
    rw [slots, hcut, List.map_append, List.map_cons, List.flatMap_cons, Item.slots, ← hlongs, ← ih, h0.short]
    simp [slots]

/-- a live group: its long name entries, then its short entry -/
theorem probes_live (n : LongName) (s : Short) (slots : List Slot) (name : Mem) :
    probes ((Item.live n s).slots ++ slots) name = .compare s (n.left name) :: probes slots (n.left name) := by
  rw [Item.slots, List.append_assoc, LongName.probes_longs]
  rfl

/-- a directory of one sector -/
structure Directory where
  table : Mem
  items : List Item
  composed : Composed table 0 items
  /-- no two live groups have one name -/
  distinct : (items.filterMap Item.name).Nodup

/-- what the search does with a directory, from the name buffer `name` on -/
def Directory.probes (d : Directory) (name : Mem) : List Probe := StarOS.probes (d.items.flatMap Item.slots) name

theorem Directory.scan_eq (d : Directory) {buffer : Mem} (h : ∀ y < 512, buffer y = d.table y) (part name : Mem) :
    scanTable part buffer (512 / 32) 0 name = settle part (d.probes name) := by
  rw [scanTable_eq, Directory.probes, ← slots_composed d.composed, slots_congr h]

end StarOS
