import StarOS.Fs.Tree

/-!
# Disks that differ in the entries without a name

An entry that belongs to no long name can contain anything.  `relabel size table` makes all of them regular
files of `size` bytes.

* `composed_relabel`   the sector is composed of the same parts;
* `leftovers m pbr size`   a disk whose clusters are those of `m`, relabelled, behind a boot record of its own;
* `on_leftovers`       it holds every tree that `m` holds.
-/

namespace StarOS
open Lib

/-! ## a sector -/

/-- before entry `j` the directory has not ended, and no long name waits for its short entry -/
def Free (table : Mem) (j : Nat) : Prop :=
  j = 0 ∨ entryAt table (j - 1) 0 ≠ 0 ∧ (entryAt table (j - 1) 11 = 0x0f → entryAt table (j - 1) 0 = 0xe5)

/-- the entry is compared and belongs to no long name, and is none of the entries `.` and `..` -/
def Nameless (table : Mem) (j : Nat) : Prop :=
  entryAt table j 11 ≠ 0x0f ∧ (table 0 = 0x2e → 2 ≤ j) ∧ Free table j

instance (table : Mem) (j : Nat) : Decidable (Nameless table j) :=
  inferInstanceAs (Decidable (_ ∧ _ ∧ (_ ∨ _ ∧ _)))

def relabel (size : UInt8) (table : Mem) : Mem := fun y =>
  if Nameless table (y / 32) ∧ 11 ≤ y % 32 then (if y % 32 = 28 then size else 0) else table y

section
variable {table : Mem} {size : UInt8} {j : Nat}

theorem entryAt_relabel {y : Nat} (hy : y < 32) : entryAt (relabel size table) j y
    = if Nameless table j ∧ 11 ≤ y then (if y = 28 then size else 0) else entryAt table j y := by
  have e0 : (32 * j + y) / 32 = j := by omega
  have e1 : (32 * j + y) % 32 = y := by omega
  show relabel size table (32 * j + y) = _
  rw [relabel, e0, e1]
  rfl

theorem relabel_kept (h : ¬ Nameless table j) : ∀ y < 32, entryAt (relabel size table) j y = entryAt table j y := by
  intro y hy
  rw [entryAt_relabel hy, if_neg fun hn => h hn.1]

theorem relabel_first : entryAt (relabel size table) j 0 = entryAt table j 0 := by
  rw [entryAt_relabel (by omega), if_neg fun hn => absurd hn.2 (by omega)]

theorem relabel_slot (h : Nameless table j) :
    slotOf (entryAt (relabel size table) j) = .short ⟨0, 0, size.toNat⟩ := by
  have hbyte : ∀ y, 11 ≤ y → y < 32 → entryAt (relabel size table) j y = if y = 28 then size else 0 := by
    intro y h11 hy
    rw [entryAt_relabel hy, if_pos ⟨h, h11⟩]
  unfold slotOf read16 read32
  rw [hbyte 11 (by omega) (by omega), hbyte 20 (by omega) (by omega), hbyte 21 (by omega) (by omega),
    hbyte 26 (by omega) (by omega), hbyte 27 (by omega) (by omega), hbyte 28 (by omega) (by omega),
    hbyte 29 (by omega) (by omega), hbyte 30 (by omega) (by omega), hbyte 31 (by omega) (by omega)]
  simp

end

/-! ## its composition -/

section
variable {table : Mem} {size : UInt8}

theorem slot_short {e : Mem} (h : e 11 ≠ 0x0f) : ∃ s, slotOf e = .short s := ⟨_, if_neg h⟩

theorem InUse.attributes {e : Mem} {s : Short} (h : InUse e s) : e 11 ≠ 0x0f := by
  intro hl
  have hs := h.short
  rw [slotOf, if_pos hl] at hs
  cases hs

theorem InUse.free {s : Short} {i : Nat} (h : InUse (entryAt table i) s) : Free table (i + 1) :=
  .inr ⟨h.first.2, fun hl => absurd hl h.attributes⟩

theorem InUse.congr {e e' : Mem} {s : Short} (h : InUse e s) (he : ∀ y < 32, e' y = e y) : InUse e' s := by
  refine ⟨?_, (slotOf_congr he).trans h.short⟩
  rw [he 0 (by omega)]
  exact h.first

theorem LongName.IsLong.congr {n : LongName} {k : Nat} {e e' : Mem} (h : n.IsLong k e)
    (he : ∀ y < 32, e' y = e y) : n.IsLong k e' := by
  refine ⟨?_, ?_, fun j hj => ?_⟩
  · rw [he 11 (by omega)]
    exact h.attributes
  · rw [he 0 (by omega)]
    exact h.order
  · rw [lfnChar_congr (fun y _ hy => he y hy) hj]
    exact h.chars j hj

/-- a long name entry in use is not taken for a deleted one -/
theorem LongName.IsLong.ne_deleted {n : LongName} {k : Nat} {e : Mem} (hk : k < n.count) (h : n.IsLong k e) :
    e 0 ≠ 0xe5 := by
  have hle := n.le
  have hk' : k < 15 := by
    unfold LongName.count at hk
    omega
  rw [h.order]
  interval_cases k <;> split <;> decide

/-- the parts of a sector are kept, and every entry without a name is the same regular file -/
theorem composed_relabel (size : UInt8) {L : Short → Prop} {i : Nat} {items : List Item} {parts : List (Part Node)}
    (h : Composed table i items) (hg : Node.Groups L parts items) (hd : table 0 = 0x2e → 2 ≤ i)
    (hf : Free table i) :
    ∃ items', Composed (relabel size table) i items' ∧
      Node.Groups (fun s => s = ⟨0, 0, size.toNat⟩) parts items' := by
  -- an entry at which an item begins
  have hslot : ∀ {i slot}, slotOf (entryAt table i) = slot → slot.Left L → (table 0 = 0x2e → 2 ≤ i) →
      Free table i → (slotOf (entryAt (relabel size table) i)).Left (fun s => s = ⟨0, 0, size.toNat⟩) ∧
        (slotOf (entryAt (relabel size table) i)).part = slot.part := by
    intro i slot hslot hL hd hf
    by_cases hn : Nameless table i
    · obtain ⟨s, hs⟩ := slot_short hn.1
      rw [relabel_slot hn, ← hslot, hs]
      exact ⟨rfl, rfl⟩
    · have hl : entryAt table i 11 = 0x0f := not_not.mp fun hl => hn ⟨hl, hd, hf⟩
      rw [slotOf_congr (relabel_kept hn)]
      rw [slotOf, if_pos hl] at hslot
      rw [slotOf, if_pos hl, hslot]
      subst hslot
      exact ⟨hL, rfl⟩
  induction h generalizing parts with
  | full =>
    cases hg
    exact ⟨[], .full, .full⟩
  | @rest i hi h0 hz =>
    cases hg with
    | rest hL =>
      obtain ⟨hleft, hpart⟩ := hslot rfl hL hd hf
      refine ⟨_, .rest hi (relabel_first.trans h0) fun j hj hj' y hy => ?_, hpart ▸ .rest hleft⟩
      -- the directory has ended before this entry
      have hprev : entryAt table (j - 1) 0 = 0 := by
        by_cases he : j - 1 = i
        · rw [he, h0]
        · exact hz (j - 1) (by omega) (by omega) 0 (by omega)
      have hn : ¬ Nameless table j := fun hn => hn.2.2.elim (by omega) fun h => h.1 hprev
      rw [relabel_kept hn y hy]
      exact hz j hj hj' y hy
  | @deleted i items hi h0 h ih =>
    cases hg with
    | deleted hL hg =>
      obtain ⟨hleft, hpart⟩ := hslot rfl hL hd hf
      have hfree : Free table (i + 1) := by
        refine .inr ⟨?_, fun _ => h0⟩
        rw [Nat.add_sub_cancel, h0]
        decide
      obtain ⟨items', hc, hg'⟩ := ih hg (fun he => by have := hd he; omega) hfree
      exact ⟨_, .deleted hi (relabel_first.trans h0) hc, hpart ▸ .deleted hleft hg'⟩
  | @bare i s items hi h0 h ih =>
    cases hg with
    | bare hL hg =>
      obtain ⟨items', hc, hg'⟩ := ih hg (fun he => by have := hd he; omega) h0.free
      have hn : Nameless table i := ⟨h0.attributes, hd, hf⟩
      exact ⟨_, .bare hi ⟨by rw [relabel_first]; exact h0.first, relabel_slot hn⟩ hc, .bare rfl hg'⟩
  | @live i n s items hi hl h0 h ih =>
    cases hg with
    | child hfull hslash hs hg =>
      have hpos : 0 < n.count := by
        have := n.pos
        unfold LongName.count
        omega
      obtain ⟨items', hc, hg'⟩ := ih hg (fun he => by have := hd he; omega) h0.free
      refine ⟨_, .live hi (fun k hk => (hl k hk).congr (relabel_kept fun hn => hn.1 (hl k hk).attributes))
        (h0.congr (relabel_kept fun hn => ?_)) hc, .child hfull hslash hs hg'⟩
      -- its last long name entry is before its short entry
      have hlast := hl (n.count - 1) (by omega)
      have e : i + n.count - 1 = i + (n.count - 1) := by omega
      rcases hn.2.2 with he | ⟨-, hdel⟩
      · omega
      · rw [e] at hdel
        exact hlast.ne_deleted (by omega) (hdel hlast.attributes)

end

/-! ## a disk -/

/-- the boot record of the partition: a cluster is a sector, and the first sector before a cluster is the last
one with a number of 32 bits -/
def farBoot : Mem := fun y => if y = 12 then 2 else if y = 13 then 1 else if 28 ≤ y ∧ y < 32 then 0xff else 0

def farPbr : Pbr := ⟨512, 1, 0, 0, 0, 2^32 - 1, 0⟩

theorem farBoot_pbr : Pbr.ofBuffer farBoot = farPbr := rfl

/-- the cluster in this sector -/
def farCluster (n : Nat) : Nat := (((n : Int) - (2^32 - 1) + 2) % 2^32).toNat

theorem farSector (c : Nat) : 2 ≤ farPbr.clusterSector c ∧ farCluster (farPbr.clusterSector c) = c % 2^32 := by
  have e : farPbr.clusterSector c = ((Int.bmod (((c : Int) - 2) * ((1 : Nat) : Int)) (2^32)
      + ((0 : Nat) : Int) + ((2^32 - 1 : Nat) : Int)) % 2^64).toNat := rfl
  rw [e, Int.natCast_one, Int.mul_one, Int.bmod_def]
  unfold farCluster
  split <;> omega

/-- the number of a cluster is a word of 32 bits -/
theorem clusterSector_mod (pbr : Pbr) (c : Nat) : pbr.clusterSector (c % 2^32) = pbr.clusterSector c := by
  have hb : Int.bmod ((((c % 2^32 : Nat) : Int) - 2) * pbr.sectorsPerCluster) (2^32)
      = Int.bmod (((c : Int) - 2) * pbr.sectorsPerCluster) (2^32) := by
    have e : (c : Int) - 2 = ((c % 2^32 : Nat) : Int) - 2 + (2^32 : Nat) * ((c / 2^32 : Nat) : Int) := by omega
    rw [e, Int.add_mul, Int.mul_assoc, Int.add_mul_bmod_self_left]
  unfold Pbr.clusterSector
  rw [hb]

def leftovers (m : Medium) (pbr : Pbr) (size : UInt8) : Medium where
  sector n :=
    if n = 0 then write32 (fun _ => 0) (0x1be + 8) 1
    else if n = 1 then farBoot
    else relabel size (m.sector (pbr.clusterSector (farCluster n)))
  fails _ := false

section
variable (m : Medium) (pbr : Pbr) (size : UInt8)

theorem leftovers_pbr : (leftovers m pbr size).pbr = farPbr := by
  have hlba : read32 ((leftovers m pbr size).sector 0) (0x1be + 8) = 1 := read32_write32 (by omega)
  rw [Medium.pbr, hlba]
  exact farBoot_pbr

theorem leftovers_sector (c : Nat) : (leftovers m pbr size).sector (farPbr.clusterSector c)
    = relabel size (m.sector (pbr.clusterSector c)) := by
  obtain ⟨h2, hc⟩ := farSector c
  show (if farPbr.clusterSector c = 0 then _ else if farPbr.clusterSector c = 1 then _ else _) = _
  rw [if_neg (by omega), if_neg (by omega), hc, clusterSector_mod]

/-- **A tree that is on a disk is on one where its entries without a name are all the same regular file.** -/
theorem on_leftovers {L : Short → Prop} {n : Node} (h : n.On m pbr L) :
    n.On (leftovers m pbr size) farPbr (fun s => s = ⟨0, 0, size.toNat⟩) := by
  induction h with
  | file => exact .file
  | @directory c dots parts items hs hc hdots hch ih =>
    have hfirst : (leftovers m pbr size).sector (farPbr.clusterSector c) 0 = m.sector (pbr.clusterSector c) 0 := by
      rw [leftovers_sector]
      exact relabel_first (j := 0)
    have hsector := leftovers_sector m pbr size c
    cases hc with
    | plain hg =>
      have hno : m.sector (pbr.clusterSector c) 0 ≠ 0x2e := fun he => Bool.noConfusion (hdots.mpr he)
      obtain ⟨items', hs', hg'⟩ := composed_relabel size hs hg (fun he => absurd he hno) (.inl rfl)
      exact .directory (hsector ▸ hs') (.plain hg') (hfirst ▸ hdots) ih
    | @dots parts items s s' hdot hdot' hg =>
      have hdotted : m.sector (pbr.clusterSector c) 0 = 0x2e := hdots.mp rfl
      cases hs with
      | bare hi h0 hs =>
        cases hs with
        | bare hi' h0' hs =>
          obtain ⟨items', hs', hg'⟩ := composed_relabel size hs hg (fun _ => by omega) h0'.free
          -- the entries `.` and `..` stay
          have hkept : ∀ {j}, j < 2 → ∀ y < 32, entryAt (relabel size (m.sector (pbr.clusterSector c))) j y
              = entryAt (m.sector (pbr.clusterSector c)) j y := fun hj =>
            relabel_kept fun hn => Nat.not_le.mpr hj (hn.2.1 hdotted)
          refine .directory (hsector ▸ ?_) (.dots hdot hdot' hg') (hfirst ▸ hdots) ih
          exact .bare hi (h0.congr (hkept (by omega))) (.bare hi' (h0'.congr (hkept (by omega))) hs')

end

end StarOS
