import StarOS.Kernel.State

/-!
# Descriptors and selectors as the CPU reads them

* `SegmentDescriptor.word`   the eight bytes of a packed descriptor as a little-endian number;
* `Segment`            what a descriptor says, `Segment.ofWord` what the CPU reads from the eight bytes;
* `ofWord_descriptor`  it reads what the descriptor was made from;
* `addAll_eq`          a run of `add_to_GDT`: the indices that are returned, and the table;
* `Selects`            the CPU's reading of a selector;
* `selector_iff`       **the slot of an index keeps its descriptor, and `descriptor_selector` of the index is a
                       selector for it exactly if the table is the GDT**: the table indicator is bit 2, and
                       the source sets bit 1.
-/

namespace StarOS

/-- the packed structure in memory; bit fields fill a byte from bit 0 on -/
def SegmentDescriptor.word (d : SegmentDescriptor) : Nat :=
  d.limitLow + d.baseLow * 2^16 + d.baseMid * 2^32
    + d.type * 2^40 + d.s * 2^44 + d.dpl * 2^45 + d.p * 2^47
    + d.limitHigh * 2^48 + d.avl * 2^52 + d.o * 2^53 + d.x * 2^54 + d.g * 2^55
    + d.baseHigh * 2^56

/-- the arguments of the constructor of a descriptor -/
structure Segment where
  base : Fin (2^32)
  limit : Fin (2^20)
  accessByte : Fin (2^8)
  flags : Fin (2^4)
deriving DecidableEq

namespace Segment

def descriptor (d : Segment) : SegmentDescriptor := .new d.base d.limit d.accessByte d.flags

/-- the x86 layout: base in bits 16 to 39 and 56 to 63, limit in bits 0 to 15 and 48 to 51, access byte in bits
40 to 47, flags in bits 52 to 55 -/
def ofWord (w : Nat) : Segment where
  base := ⟨(w / 2^16 % 2^24 + w / 2^56 % 2^8 * 2^24) % 2^32, Nat.mod_lt _ (by decide)⟩
  limit := ⟨(w % 2^16 + w / 2^48 % 2^4 * 2^16) % 2^20, Nat.mod_lt _ (by decide)⟩
  accessByte := ⟨w / 2^40 % 2^8, Nat.mod_lt _ (by decide)⟩
  flags := ⟨w / 2^52 % 2^4, Nat.mod_lt _ (by decide)⟩

end Segment

/-- the selector is one of `index` in the table, with the privilege level `rpl` -/
structure Selects (selector : UInt32) (index : Nat) (isGDT : Bool) (rpl : Nat) : Prop where
  index : selector.toNat / 2^3 % 2^13 = index
  table : selector.toNat / 2^2 % 2 = if isGDT then 0 else 1
  rpl : selector.toNat % 2^2 = rpl

/-- `add_to_GDT` for each of `ds` -/
def addAll : List SegmentDescriptor → List Segment → Except Fatal (List Nat × List SegmentDescriptor)
  | gdt, [] => .ok ([], gdt)
  | gdt, d :: ds => do
    let (index, gdt) ← addToGDT gdt d.descriptor
    let (indices, gdt) ← addAll gdt ds
    return (index :: indices, gdt)

/-! ## descriptors -/

/-- six digits of a number -/
def digits6 (limitLow baseLow accessByte limitHigh flags baseHigh : Nat) : Nat :=
  limitLow + baseLow * 2^16 + accessByte * 2^40 + limitHigh * 2^48 + flags * 2^52 + baseHigh * 2^56

/-- the bit fields put together again -/
theorem word_new (base limit accessByte flags : Nat) : (SegmentDescriptor.new base limit accessByte flags).word =
    digits6 (limit % 2^16) (base % 2^24) (accessByte % 2^8) (limit / 2^16 % 2^4) (flags % 2^4) (base / 2^24 % 2^8) := by
  have hmask : ∀ x n : Nat, x &&& (2^n - 1) = x % 2^n := Nat.and_two_pow_sub_one_eq_mod
  have h1 : ∀ x : Nat, x &&& 0b1 = x % 2 := fun x => hmask x 1
  have h2 : ∀ x : Nat, x &&& 0b11 = x % 2^2 := fun x => hmask x 2
  have h4 : ∀ x : Nat, x &&& 0xf = x % 2^4 := fun x => hmask x 4
  have h8 : ∀ x : Nat, x &&& 0xff = x % 2^8 := fun x => hmask x 8
  have h16 : ∀ x : Nat, x &&& 0xffff = x % 2^16 := fun x => hmask x 16
  have hbase : base % 2^24 = base % 2^16 + base / 2^16 % 2^8 * 2^16 := by omega
  have haccess : accessByte % 2^8 = accessByte % 2^4 + accessByte / 2^4 % 2 * 2^4 + accessByte / 2^5 % 2^2 * 2^5
      + accessByte / 2^7 % 2 * 2^7 := by omega
  have hflags : flags % 2^4 = flags % 2 + flags / 2 % 2 * 2 + flags / 2^2 % 2 * 2^2 + flags / 2^3 % 2 * 2^3 := by omega
  rw [SegmentDescriptor.word, digits6, hbase, haccess, hflags]
  simp only [SegmentDescriptor.new, h1, h2, h4, h8, h16, Nat.shiftRight_eq_div_pow]
  omega

/-- the digits are read back -/
theorem digits6_read {a b c d e f : Nat} (ha : a < 2^16) (hb : b < 2^24) (hc : c < 2^8) (hd : d < 2^4) (he : e < 2^4) :
    digits6 a b c d e f % 2^16 = a ∧ digits6 a b c d e f / 2^16 % 2^24 = b ∧ digits6 a b c d e f / 2^40 % 2^8 = c ∧
      digits6 a b c d e f / 2^48 % 2^4 = d ∧ digits6 a b c d e f / 2^52 % 2^4 = e ∧ digits6 a b c d e f / 2^56 = f := by
  unfold digits6
  refine ⟨?_, ?_, ?_, ?_, ?_, ?_⟩ <;> omega

theorem ofWord_descriptor (d : Segment) : Segment.ofWord d.descriptor.word = d := by
  obtain ⟨⟨base, hb⟩, ⟨limit, hl⟩, ⟨access, ha⟩, ⟨flags, hf⟩⟩ := d
  obtain ⟨e0, e1, e2, e3, e4, e5⟩ := digits6_read (a := limit % 2^16) (b := base % 2^24) (c := access % 2^8)
    (d := limit / 2^16 % 2^4) (e := flags % 2^4) (f := base / 2^24 % 2^8) (by omega) (by omega) (by omega) (by omega)
    (by omega)
  show Segment.ofWord (SegmentDescriptor.new base limit access flags).word = _
  rw [word_new]
  generalize digits6 _ _ _ _ _ _ = w at *
  unfold Segment.ofWord
  congr 1
  · apply Fin.ext
    show (w / 2^16 % 2^24 + w / 2^56 % 2^8 * 2^24) % 2^32 = base
    rw [e1, e5]
    omega
  · apply Fin.ext
    show (w % 2^16 + w / 2^48 % 2^4 * 2^16) % 2^20 = limit
    rw [e0, e3]
    omega
  · apply Fin.ext
    show w / 2^40 % 2^8 = access
    rw [e2]
    exact Nat.mod_eq_of_lt ha
  · apply Fin.ext
    show w / 2^52 % 2^4 = flags
    rw [e4]
    exact Nat.mod_eq_of_lt hf

/-! ## the table -/

theorem addToGDT_ok {gdt : List SegmentDescriptor} (h : gdt.length < gdtSize) (d : SegmentDescriptor) :
    addToGDT gdt d = .ok (gdt.length, gdt ++ [d]) :=
  if_neg (Nat.not_le.mpr h)

theorem addAll_eq {gdt : List SegmentDescriptor} {ds : List Segment} (h : gdt.length + ds.length ≤ gdtSize) :
    addAll gdt ds = .ok (List.range' gdt.length ds.length, gdt ++ ds.map Segment.descriptor) := by
  induction ds generalizing gdt with
  | nil =>
    rw [List.map_nil, List.append_nil]
    rfl
  | cons d ds ih =>
    rw [List.length_cons] at h
    have hrest : (gdt ++ [d.descriptor]).length = gdt.length + 1 := List.length_append
    rw [addAll, addToGDT_ok (by omega)]
    show (addAll (gdt ++ [d.descriptor]) ds >>= _) = _
    rw [ih (by omega), hrest, List.length_cons, List.range'_succ, List.map_cons, List.append_assoc]
    rfl

/-! ## selectors -/

/-- for the other table bit 1 is set, and carries into bit 2 if it is set in `rpl` -/
theorem selects_iff {index : Nat} (hi : index < gdtSize) (isGDT : Bool) (rpl : Fin 4) :
    Selects (descriptorSelector index isGDT rpl) index isGDT rpl ↔ isGDT = true := by
  have hlt : index < 512 := hi
  have hr := rpl.isLt
  have hsel := descriptorSelector_toNat index isGDT rpl
  cases isGDT with
  | true =>
    have e : (descriptorSelector index true rpl).toNat = 8 * index + rpl.val := by
      rw [hsel, if_pos rfl]
      omega
    refine iff_of_true ⟨?_, ?_, ?_⟩ rfl
    · omega
    · rw [e, if_pos rfl]
      omega
    · omega
  | false =>
    have e : (descriptorSelector index false rpl).toNat = 8 * index + 2 + rpl.val := by
      rw [hsel, if_neg Bool.false_ne_true]
      omega
    refine iff_of_false (fun h => ?_) Bool.false_ne_true
    have h2 := h.rpl
    omega

/-- **After any additions that fit into the table, the index of each leads to what was added, and the selector
made from it is read as that index, table and privilege level if and only if it is one of the GDT.** -/
theorem selector_iff (gdt : List SegmentDescriptor) (before after : List Segment) (d : Segment) (isGDT : Bool)
    (rpl : Fin 4) (hroom : gdt.length + (before ++ d :: after).length ≤ gdtSize) :
    (∃ indices table index, addAll gdt (before ++ d :: after) = .ok (indices, table) ∧
      indices[before.length]? = some index ∧ Selects (descriptorSelector index isGDT rpl) index isGDT rpl ∧
      (table[index]?).map (fun e => Segment.ofWord e.word) = some d) ↔ isGDT = true := by
  have hlen : (before ++ d :: after).length = before.length + (after.length + 1) := List.length_append
  have hindex : (List.range' gdt.length (before ++ d :: after).length)[before.length]?
      = some (gdt.length + before.length) := by
    rw [List.getElem?_range' (by omega), Nat.one_mul]
  have hslot : (gdt ++ (before ++ d :: after).map Segment.descriptor)[gdt.length + before.length]?
      = some d.descriptor := by
    rw [List.getElem?_append_right (Nat.le_add_right _ _), Nat.add_sub_cancel_left, List.getElem?_map,
      List.getElem?_append_right (Nat.le_refl _), Nat.sub_self]
    rfl
  have hlt : gdt.length + before.length < gdtSize := by omega
  have hselects := selects_iff hlt isGDT rpl
  constructor
  · rintro ⟨indices, table, index, hadd, hi, hsel, -⟩
    rw [addAll_eq hroom] at hadd
    cases hadd
    rw [hindex] at hi
    cases hi
    exact hselects.mp hsel
  · intro h
    refine ⟨_, _, _, addAll_eq hroom, hindex, hselects.mpr h, ?_⟩
    rw [hslot, Option.map_some, ofWord_descriptor]

/-- the code segment of a process, and its data segment behind it -/
theorem selector_process : ∃ indices table index,
    addAll (initGDT 0) ([] ++ ⟨0, 0xfffff, 0xfa, 0xc⟩ :: [⟨0, 0xfffff, 0xf2, 0xc⟩]) = .ok (indices, table) ∧
      indices[([] : List Segment).length]? = some index ∧ Selects (descriptorSelector index true 3) index true 3 ∧
      (table[index]?).map (fun e => Segment.ofWord e.word) = some ⟨0, 0xfffff, 0xfa, 0xc⟩ :=
  (selector_iff (initGDT 0) [] [⟨0, 0xfffff, 0xf2, 0xc⟩] ⟨0, 0xfffff, 0xfa, 0xc⟩ true 3 (by decide)).mpr rfl

/-- a selector of the other table: index 4, level 0 -/
theorem local_selector_wrong : ¬ ∀ (gdt : List SegmentDescriptor) (before after : List Segment) (d : Segment)
    (isGDT : Bool) (rpl : Fin 4), gdt.length + (before ++ d :: after).length ≤ gdtSize →
    ∃ indices table index, addAll gdt (before ++ d :: after) = .ok (indices, table) ∧
      indices[before.length]? = some index ∧ Selects (descriptorSelector index isGDT rpl) index isGDT rpl ∧
      (table[index]?).map (fun e => Segment.ofWord e.word) = some d := by
  intro hall
  obtain ⟨indices, table, index, hadd, hi, hsel, -⟩ :=
    hall (initGDT 0) [] [] ⟨0, 0xfffff, 0xfa, 0xc⟩ false 0 (by decide)
  rw [addAll_eq (by decide)] at hadd
  cases hadd
  cases hi
  exact Bool.false_ne_true ((selects_iff (by decide) false 0).mp hsel)

end StarOS
