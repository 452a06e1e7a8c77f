import StarOS.Fs.Depth

/-!
# Where the search stores (`locate_file_dirent`)

* `partIndices`, `nameIndices`   the indices at which a call stores in `current_part_filename` and in
                       `abstract_entry.name`;
* `copyIndices_eq`     the stores of one long name entry are consecutive;
* `Probe.Ends`, `Strays`   what ends the search at an entry; it strays if that is an entry of order 0 that
                       is not all padding;
* `stores_in_names_iff`   all stores of a call, and of the calls it leads to, are in bounds exactly if none of
                       them strays.
-/

namespace StarOS
open Lib

/-- the indices at which `n` rounds of the loop that splits the path store -/
def partIndices (filename : Mem) : Nat → Nat → List Int
  | 0, _ => []
  | n + 1, i => if filename i = 0x2f then [(i : Int)] else (i : Int) :: partIndices filename (n) (i + 1)

/-- the indices at which `n` rounds of the loop over the characters store -/
def copyIndices (lfn : Mem) : Nat → Nat → Int → List Int
  | 0, _, _ => []
  | n + 1, i, offset =>
    if lfnChar lfn i ≠ 0xffff then offset :: copyIndices lfn n (i + 1) (offset + 1)
    else copyIndices lfn n (i + 1) offset

/-- the indices at which `n` rounds of the loop over the entries store in `abstract_entry.name`; behind a
store out of bounds nothing is known -/
def nameIndices (part table : Mem) : Nat → Nat → Mem → List Int
  | 0, _, _ => []
  | n + 1, i, name =>
    let entry := advance table (32 * i)
    if entry 11 = 0x0f then
      let order : Int := (entry 0 &&& 0xf).toNat
      copyIndices entry 13 0 ((order - 1) * 13) ++
        match copyChars entry 13 0 ((order - 1) * 13) name with
        | .error _ => []
        | .ok name => nameIndices part table n (i + 1) name
    else
      match strcmp (maxFilenameSize + 1) part name with
      | none => []
      | some r => if r = 0 then [] else nameIndices part table n (i + 1) name

/-- an index of an array of `MAX_FILENAME_SIZE + 1` bytes -/
def InName (x : Int) : Prop := 0 ≤ x ∧ x ≤ maxFilenameSize

/-- the search goes no further than this entry -/
def Probe.Ends (part : Mem) : Probe → Bool
  | .compare _ name => strcmp (maxFilenameSize + 1) part name == none || strcmp (maxFilenameSize + 1) part name == some 0
  | .overrun => true

/-- what ends the search in a sector is a long name entry of order 0 that is not all padding -/
def Strays (part : Mem) (ps : List Probe) : Prop := ps.find? (Probe.Ends part) = some .overrun

/-! ## one loop -/

theorem partIndices_in {filename : Mem} {n i : Nat} (h : i + n ≤ maxFilenameSize) :
    ∀ x ∈ partIndices filename n i, InName x := by
  induction n generalizing i with
  | zero => exact fun x hx => absurd hx List.not_mem_nil
  | succ n ih =>
    have hi : InName i := ⟨by omega, by omega⟩
    intro x hx
    rw [partIndices] at hx
    by_cases hs : filename i = 0x2f
    · rw [if_pos hs, List.mem_singleton] at hx
      exact hx ▸ hi
    · rw [if_neg hs] at hx
      rcases List.mem_cons.mp hx with rfl | hx
      · exact hi
      · exact ih (by omega) x hx

theorem copyIndices_eq (lfn : Mem) (n i : Nat) (off : Int) :
    copyIndices lfn n i off = (List.range (longChars lfn i n).length).map fun j => off + (j : Nat) := by
  induction n generalizing i off with
  | zero => rfl
  | succ n ih =>
    rw [copyIndices, longChars_succ]
    by_cases hc : lfnChar lfn i ≠ 0xffff
    · rw [if_pos hc, if_pos hc, ih, List.length_cons, List.range_succ_eq_map, List.map_cons, List.map_map]
      refine congrArg₂ _ (by omega) (List.map_congr_left fun j _ => ?_)
      show off + 1 + (j : Nat) = off + ((j + 1 : Nat) : Int)
      omega
    · rw [if_neg hc, if_neg hc, ih]

/-- an entry of order 1 to 15 is stored inside the array -/
theorem copyIndices_in (lfn : Mem) {order : Nat} (h0 : order ≠ 0) (h : order ≤ 15) :
    ∀ x ∈ copyIndices lfn 13 0 (((order : Int) - 1) * 13), InName x := by
  intro x hx
  have hlen := longChars_length lfn 0 13
  rw [copyIndices_eq, List.mem_map] at hx
  obtain ⟨j, hj, rfl⟩ := hx
  have hj := List.mem_range.mp hj
  unfold InName maxFilenameSize
  omega

/-- an entry of order 0 is stored before it, if anything is stored at all -/
theorem copyIndices_before (lfn : Mem) {off : Int} (h : off < 0) :
    (∀ x ∈ copyIndices lfn 13 0 off, InName x) ↔ longChars lfn 0 13 = [] := by
  rw [copyIndices_eq]
  constructor
  · intro hall
    by_contra hne
    have hpos := List.length_pos_of_ne_nil hne
    have hx := hall (off + (0 : Nat)) (List.mem_map.mpr ⟨0, List.mem_range.mpr hpos, rfl⟩)
    unfold InName at hx
    omega
  · intro hnil
    rw [hnil]
    exact fun x hx => absurd hx List.not_mem_nil

/-! ## one call -/

theorem nameIndices_in_iff (part table : Mem) (n i : Nat) (name : Mem) :
    (∀ x ∈ nameIndices part table n i name, InName x) ↔ ¬ Strays part (probes (slots table i n) name) := by
  induction n generalizing i name with
  | zero =>
    refine ⟨fun _ h => ?_, fun _ x hx => absurd hx List.not_mem_nil⟩
    cases h
  | succ n ih =>
    have hslots : slots table i (n + 1) = slotOf (entryAt table i) :: slots table (i + 1) n := rfl
    rw [hslots, nameIndices, slotOf]
    by_cases hl : entryAt table i 11 = 0x0f
    · have hl' : advance table (32 * i) 11 = 0x0f := hl
      have ho := order_le (entryAt table i 0)
      have horder : advance table (32 * i) 0 = entryAt table i 0 := rfl
      have hlfn : advance table (32 * i) = entryAt table i := rfl
      simp only [hl', hl, if_true, horder, hlfn, probes, List.forall_mem_append]
      generalize (entryAt table i 0 &&& 0xf).toNat = order at ho ⊢
      by_cases h0 : order = 0
      · have hoff : ((order : Int) - 1) * 13 < 0 := by omega
        rw [if_pos h0, copyIndices_before _ hoff, copyChars_before _ _ _ _ hoff]
        by_cases hc : longChars (entryAt table i) 0 13 = []
        · rw [if_pos hc, if_pos hc, and_iff_right hc]
          exact ih (i + 1) name
        · rw [if_neg hc, if_neg hc]
          refine ⟨fun h => absurd h.1 hc, fun h => absurd ?_ h⟩
          rfl
      · have e : ((order : Int) - 1) * 13 = ((13 * (order - 1) : Nat) : Int) := by omega
        have hfit : 13 * (order - 1) + 13 ≤ maxFilenameSize + 1 := by
          unfold maxFilenameSize
          omega
        rw [if_neg h0, and_iff_right (copyIndices_in _ h0 ho), e, copyChars_eq _ _ _ _ _ hfit]
        exact ih (i + 1) _
    · have hl' : ¬ advance table (32 * i) 11 = 0x0f := hl
      simp only [hl', hl, if_false, probes, Strays, List.find?_cons, Probe.Ends]
      cases hs : strcmp (maxFilenameSize + 1) part name with
      | none => simp
      | some r =>
        by_cases hr : r = 0
        · simp [hr]
        · have hgo : (some r == none || some r == some 0) = false := by simp [hr]
          simp only [hr, if_false, hgo]
          exact ih (i + 1) name

/-! ## a whole search -/

section
variable (m : Medium) (locals : Locals) (pbr : Pbr) (q : Lookup)

def Lookup.part : Mem := (splitPart q.filename maxFilenameSize 0 (locals.currentPartFilename q.reads)).1

def Lookup.table : Mem := readCluster m q.reads q.cluster pbr (locals.buffer q.reads)

/-- the indices at which the call stores, without the calls it makes -/
def Lookup.nameStores : List Int := nameIndices (q.part locals) (q.table m locals pbr) (512 / 32) 0 (locals.name q.reads)

def Lookup.partStores : List Int := partIndices q.filename maxFilenameSize 0

/-- what the call does at the entries of its directory -/
def Lookup.probes : List Probe := StarOS.probes (slots (q.table m locals pbr) 0 (512 / 32)) (locals.name q.reads)

/-- **Every store into the two name arrays, in all calls of a search, is in bounds if and only if in none of
the directories the search ends at a long name entry of order 0 that has a character.** -/
theorem stores_in_names_iff :
    (∀ n q', Descends m locals pbr n q q' →
      (∀ x ∈ q'.nameStores m locals pbr, InName x) ∧ ∀ x ∈ q'.partStores, InName x) ↔
    ∀ n q', Descends m locals pbr n q q' → ¬ Strays (q'.part locals) (q'.probes m locals pbr) := by
  have hcall : ∀ q' : Lookup, ((∀ x ∈ q'.nameStores m locals pbr, InName x) ∧ ∀ x ∈ q'.partStores, InName x) ↔
      ¬ Strays (q'.part locals) (q'.probes m locals pbr) := by
    intro q'
    have hpart : ∀ x ∈ q'.partStores, InName x := partIndices_in (Nat.le_of_eq (Nat.zero_add _))
    rw [and_iff_left hpart]
    exact nameIndices_in_iff _ _ _ _ _
  simp only [hcall]

end

/-- every sector is boot record and directory at once: its first entry is a long name entry of order 0 -/
def strayEntry : Medium := ⟨fun _ y => if y = 11 then 0x0f else 0, fun _ => false⟩

/-- the first character of that entry is stored 13 bytes before `abstract_entry.name` -/
theorem stored_before_name : ¬ ∀ (m : Medium) (locals : Locals) (pbr : Pbr) (q : Lookup) (n : Nat) (q' : Lookup),
    Descends m locals pbr n q q' →
    (∀ x ∈ q'.nameStores m locals pbr, InName x) ∧ ∀ x ∈ q'.partStores, InName x := by
  intro hall
  let q : Lookup := ⟨2, 2, fun _ => 0⟩
  let pbr := loadPbr strayEntry Image.locals 0
  have hin := (hall strayEntry Image.locals pbr q 0 q rfl).1
  have hslot : slotOf (entryAt (q.table strayEntry Image.locals pbr) 0) = .long 0 (List.replicate 13 0) := by
    decide
  have hstray : Strays (q.part Image.locals) (q.probes strayEntry Image.locals pbr) := by
    unfold Lookup.probes
    rw [slots, List.range'_succ, List.map_cons, hslot]
    rfl
  exact (nameIndices_in_iff _ _ _ _ _).mp hin hstray

end StarOS
