import StarOS.Fs.Search

/-!
# Directory trees, and the search in one of their directories

A `Node` is a file or a directory with its parts.  A `Part` is a child under its long name, or an entry that
belongs to no long name: either it is compared (a deleted short entry, a volume label, the end marker, a zero
entry), or it is a piece that is stored in the name buffer (a deleted long name entry).

* `Node.On m pbr L n`  the directories of the tree are on the medium, one sector each, no long name filling its
                     entries, in front the entries `.` and `..` if the directory has them; `L` says what the
                     entries without a name contain;
* `Strayed c parts name`   an entry without a name is compared while the buffer spells `c`;
* `firstStop_straight`   a search that does not stray ends at the child, and nowhere if there is none;
* `firstStop_strayed`    a search that strays ends at an entry without a name.
-/

namespace StarOS
open Lib

inductive Part (α : Type) where
  | child (name : LongName) (n : α)
  | entry
  | piece (order : Nat) (chars : List UInt8)

inductive Node where
  | file (firstCluster size : Nat)
  | directory (firstCluster : Nat) (dots : Bool) (parts : List (Part Node))

/-- the part that a deleted entry or the end marker is -/
def Slot.part : Slot → Part Node
  | .short _ => .entry
  | .long order chars => .piece order chars

/-- what is in it; the order of a long name entry is read off its first byte, `0xe5` or zero -/
def Slot.Left (L : Short → Prop) : Slot → Prop
  | .short s => L s
  | .long order chars => (order = 0 ∨ order = 5) ∧ chars.length ≤ 13

namespace Node

def firstCluster : Node → Nat
  | .file c _ => c
  | .directory c _ _ => c

def IsFile : Node → Prop
  | .file _ _ => True
  | .directory _ _ _ => False

/-- the child under a name -/
def child (c : List UInt8) : List (Part Node) → Option Node
  | [] => none
  | .child name n :: parts => if name.bytes = c then some n else child c parts
  | .entry :: parts => child c parts
  | .piece _ _ :: parts => child c parts

/-- where a path leads, from a node on -/
def walk : List Component → Node → Option Node
  | [], n => some n
  | _ :: _, .file _ _ => none
  | c :: cs, .directory _ _ parts => (child c.bytes parts).bind (walk cs)

/-- the short entry of a node -/
def IsShort (s : Short) : Node → Prop
  | .file c size => ¬ s.IsDirectory ∧ s.firstClusterNumber = c ∧ s.size = size
  | .directory c _ _ => s.IsDirectory ∧ s.firstClusterNumber = c

/-- the parts of a directory and the items of its sector, each name with its null byte -/
inductive Groups (L : Short → Prop) : List (Part Node) → List Item → Prop where
  | full : Groups L [] []
  | rest {marker : Slot} {zeros : Nat} (hL : marker.Left L) :
      Groups L (marker.part :: List.replicate zeros .entry) [.rest marker zeros]
  | deleted {slot : Slot} {parts : List (Part Node)} {items : List Item} (hL : slot.Left L)
      (h : Groups L parts items) : Groups L (slot.part :: parts) (.deleted slot :: items)
  | bare {s : Short} {parts : List (Part Node)} {items : List Item} (hL : L s) (h : Groups L parts items) :
      Groups L (.entry :: parts) (.bare s :: items)
  | child {name : LongName} {n : Node} {s : Short} {parts : List (Part Node)} {items : List Item}
      (hfull : ¬ 13 ∣ name.bytes.length) (hslash : ∀ b ∈ name.bytes, b ≠ 0x2f) (hs : n.IsShort s)
      (h : Groups L parts items) : Groups L (.child name n :: parts) (.live name s :: items)

/-- what the sector of the directory with first cluster `c` is composed of -/
inductive Content (L : Short → Prop) (c : Nat) : Bool → List (Part Node) → List Item → Prop where
  | plain {parts : List (Part Node)} {items : List Item} (h : Groups L parts items) :
      Content L c false parts items
  | dots {parts : List (Part Node)} {items : List Item} {s s' : Short}
      (hs : s.IsDirectory ∧ s.firstClusterNumber = c) (hs' : s'.IsDirectory)
      (h : Groups L parts items) : Content L c true parts (.bare s :: .bare s' :: items)

inductive On (m : Medium) (pbr : Pbr) (L : Short → Prop) : Node → Prop where
  | file {c size : Nat} : On m pbr L (.file c size)
  | directory {c : Nat} {dots : Bool} {parts : List (Part Node)} {items : List Item}
      (hs : Composed (m.sector (pbr.clusterSector c)) 0 items) (hc : Content L c dots parts items)
      (hdots : dots = true ↔ m.sector (pbr.clusterSector c) 0 = 0x2e)
      (h : ∀ name n, .child name n ∈ parts → On m pbr L n) : On m pbr L (.directory c dots parts)

end Node

/-- the groups of the children do not have the name `c` as far as an entry without a name is compared while
the buffer, which holds `name` at first, spells `c`, or as far as a piece is stored before the buffer -/
def Strayed (c : List UInt8) : List (Part Node) → Mem → Prop
  | [], _ => False
  | .child n _ :: parts, name => n.bytes ≠ c ∧ Strayed c parts (n.left name)
  | .entry :: parts, name => Spells name c ∨ Strayed c parts name
  | .piece order chars :: parts, name =>
    if order = 0 then chars ≠ [] ∨ Strayed c parts name
    else Strayed c parts (overlay name (13 * (order - 1)) chars)

/-! ## the children -/

section
variable {parts : List (Part Node)} {c : List UInt8}
open Node

theorem child_cons (name : LongName) (n : Node) :
    child c (.child name n :: parts) = if name.bytes = c then some n else child c parts := rfl

theorem child_mem {n : Node} (h : child c parts = some n) :
    ∃ name, name.bytes = c ∧ .child name n ∈ parts := by
  induction parts with
  | nil => cases h
  | cons p parts ih =>
    have hbehind : child c parts = some n → ∃ name, name.bytes = c ∧ .child name n ∈ p :: parts := by
      intro h
      obtain ⟨name, he, hmem⟩ := ih h
      exact ⟨name, he, List.mem_cons_of_mem _ hmem⟩
    cases p with
    | entry => exact hbehind h
    | piece => exact hbehind h
    | child name n' =>
      rw [child_cons] at h
      by_cases he : name.bytes = c
      · rw [if_pos he] at h
        cases h
        exact ⟨name, he, List.mem_cons_self⟩
      · rw [if_neg he] at h
        exact hbehind h

theorem child_length {n : Node} (h : child c parts = some n) : c.length < 256 := by
  obtain ⟨name, rfl, -⟩ := child_mem h
  have := name.le
  omega

theorem child_zeros (c : List UInt8) (zeros : Nat) : child c (List.replicate zeros .entry) = none := by
  induction zeros with
  | zero => rfl
  | succ zeros ih => exact ih

end

/-! ## what is in the entries without a name -/

namespace Node
variable {m : Medium} {pbr : Pbr} {L L' : Short → Prop}

theorem groups_zeros (zeros : Nat) (h : L ⟨0, 0, 0⟩) :
    Groups L (.entry :: List.replicate zeros .entry) [.rest (.short ⟨0, 0, 0⟩) zeros] :=
  @Groups.rest L (.short ⟨0, 0, 0⟩) zeros h

theorem Groups.imp {parts : List (Part Node)} {items : List Item} (hL : ∀ s, L s → L' s) (h : Groups L parts items) :
    Groups L' parts items := by
  have hleft : ∀ {slot : Slot}, slot.Left L → slot.Left L' := by
    intro slot h
    cases slot with
    | short s => exact hL s h
    | long order chars => exact h
  induction h with
  | full => exact .full
  | rest h => exact .rest (hleft h)
  | deleted h _ ih => exact .deleted (hleft h) ih
  | bare h _ ih => exact .bare (hL _ h) ih
  | child hfull hslash hs _ ih => exact .child hfull hslash hs ih

theorem On.imp {n : Node} (hL : ∀ s, L s → L' s) (h : n.On m pbr L) : n.On m pbr L' := by
  induction h with
  | file => exact .file
  | directory hs hc hdots _ ih =>
    refine .directory hs ?_ hdots ih
    cases hc with
    | plain hg => exact .plain (hg.imp hL)
    | dots hdot hdot' hg => exact .dots hdot hdot' (hg.imp hL)

end Node

/-! ## the first stop -/

/-- where the search for `c` ends -/
def firstStop (c : List UInt8) (slots : List Slot) (name : Mem) : Option Probe :=
  (probes slots name).find? (·.Stops c)

section
variable {c : List UInt8} (slots : List Slot) (name : Mem)

theorem firstStop_short (s : Short) : firstStop c (.short s :: slots) name
    = if Spells name c then some (.compare s name) else firstStop c slots name := by
  have hstop : Probe.Stops c (.compare s name) ↔ Spells name c := Iff.rfl
  rw [firstStop, probes, List.find?_cons]
  by_cases h : Spells name c <;> simp [hstop, h, firstStop]

theorem firstStop_long (order : Nat) (chars : List UInt8) : firstStop c (.long order chars :: slots) name
    = if order = 0 then (if chars = [] then firstStop c slots name else some .overrun)
      else firstStop c slots (overlay name (13 * (order - 1)) chars) := by
  rw [firstStop, probes]
  by_cases h0 : order = 0
  · rw [if_pos h0, if_pos h0]
    by_cases hc : chars = []
    · rw [if_pos hc, if_pos hc]
      rfl
    · rw [if_neg hc, if_neg hc]
      rfl
  · rw [if_neg h0, if_neg h0]
    rfl

theorem firstStop_live {n : LongName} (hn : ¬ 13 ∣ n.bytes.length) (s : Short) (hc : ∀ b ∈ c, b ≠ 0) :
    firstStop c ((Item.live n s).slots ++ slots) name
      = if n.bytes = c then some (.compare s (n.left name)) else firstStop c slots (n.left name) := by
  have hstop : Probe.Stops c (.compare s (n.left name)) ↔ n.bytes = c := LongName.spells_left hn name hc
  rw [firstStop, probes_live, List.find?_cons]
  by_cases h : n.bytes = c <;> simp [hstop, h, firstStop]

end

/-! ## one directory -/

section
variable {L : Short → Prop} {parts : List (Part Node)} {slots : List Slot} {items : List Item}
  {c : List UInt8}
open Node

/-- what the search reads of a directory with these parts -/
inductive Reads (L : Short → Prop) : List (Part Node) → List Slot → Prop where
  | nil : Reads L [] []
  | child {name : LongName} {n : Node} {s : Short} {parts : List (Part Node)} {slots : List Slot}
      (hfull : ¬ 13 ∣ name.bytes.length) (hslash : ∀ b ∈ name.bytes, b ≠ 0x2f) (hs : n.IsShort s)
      (h : Reads L parts slots) : Reads L (.child name n :: parts) ((Item.live name s).slots ++ slots)
  | entry {s : Short} {parts : List (Part Node)} {slots : List Slot}
      (hL : L s ∨ s = ⟨0, 0, 0⟩ ∧ ∀ c, Node.child c parts = none) (h : Reads L parts slots) :
      Reads L (.entry :: parts) (.short s :: slots)
  | piece {order : Nat} {chars : List UInt8} {parts : List (Part Node)} {slots : List Slot}
      (ho : (order = 0 ∨ order = 5) ∧ chars.length ≤ 13) (h : Reads L parts slots) :
      Reads L (.piece order chars :: parts) (.long order chars :: slots)

theorem reads_left {slot : Slot} (hL : slot.Left L) (h : Reads L parts slots) :
    Reads L (slot.part :: parts) (slot :: slots) := by
  cases slot with
  | short s => exact .entry (.inl hL) h
  | long order chars => exact .piece hL h

theorem reads_zeros (zeros : Nat) :
    Reads L (List.replicate zeros .entry) (List.replicate zeros (.short ⟨0, 0, 0⟩)) := by
  induction zeros with
  | zero => exact .nil
  | succ zeros ih => exact .entry (.inr ⟨rfl, fun c => child_zeros c zeros⟩) ih

theorem groups_reads (h : Groups L parts items) : Reads L parts (items.flatMap Item.slots) := by
  induction h with
  | full => exact .nil
  | rest hL =>
    rw [List.flatMap_singleton]
    exact reads_left hL (reads_zeros _)
  | deleted hL h ih => exact reads_left hL ih
  | bare hL h ih => exact .entry (.inl hL) ih
  | child hfull hslash hs h ih => exact .child hfull hslash hs ih

theorem reads_clean (h : Reads L parts slots) {n : Node} (hn : child c parts = some n) :
    ∀ b ∈ c, b ≠ 0 ∧ b ≠ 0x2f := by
  induction h with
  | nil => cases hn
  | @child m n' s parts slots hfull hslash hs h ih =>
    rw [child_cons] at hn
    by_cases he : m.bytes = c
    · rw [← he]
      exact fun b hb => ⟨(m.ascii b hb).1, hslash b hb⟩
    · rw [if_neg he] at hn
      exact ih hn
  | entry hL h ih => exact ih hn
  | piece ho h ih => exact ih hn

/-- **A search that does not stray ends at the child, and nowhere if there is none.** -/
theorem firstStop_straight (h : Reads L parts slots) (hc : ∀ b ∈ c, b ≠ 0) {name : Mem}
    (hn : ¬ Strayed c parts name) : (child c parts = none → firstStop c slots name = none) ∧
    ∀ n, child c parts = some n → ∃ s name', firstStop c slots name = some (.compare s name') ∧
      n.IsShort s := by
  induction h generalizing name with
  | nil => exact ⟨fun _ => rfl, fun n hc => by cases hc⟩
  | @child m n s parts slots hfull hslash hs h ih =>
    rw [child_cons, firstStop_live slots name hfull s hc]
    by_cases he : m.bytes = c
    · rw [if_pos he, if_pos he]
      refine ⟨fun hc => (by cases hc), fun n' hc => ⟨s, _, rfl, ?_⟩⟩
      cases hc
      exact hs
    · rw [if_neg he, if_neg he]
      exact ih fun hs => hn ⟨he, hs⟩
  | @entry s parts slots hL h ih =>
    rw [firstStop_short, if_neg fun hs => hn (.inl hs)]
    exact ih fun hs => hn (.inr hs)
  | @piece order chars parts slots ho h ih =>
    rw [firstStop_long]
    rw [Strayed] at hn
    by_cases h0 : order = 0
    · rw [if_pos h0] at hn ⊢
      rw [if_pos (not_not.mp fun hc => hn (.inl hc))]
      exact ih fun hs => hn (.inr hs)
    · rw [if_neg h0] at hn ⊢
      exact ih hn

/-- the characters end before `x` -/
theorem overlay_behind (name : Mem) {chars : List UInt8} {off x : Nat} (h : off + chars.length ≤ x) :
    overlay name off chars x = name x := by
  unfold overlay
  rw [if_pos (by omega), List.getElem?_eq_none (by omega)]
  rfl

theorem left_behind (n : LongName) (name : Mem) {x : Nat} (h : 196 ≤ x) : n.left name x = name x := by
  have hle := n.le
  rw [LongName.left_apply, if_neg (by omega)]

/-- **A search that strays ends at an entry without a name.**  If that is a zero entry, there is no child of
that name. -/
theorem firstStop_strayed (h : Reads L parts slots) (hc : ∀ b ∈ c, b ≠ 0) {name : Mem}
    (hs : Strayed c parts name) : firstStop c slots name = some .overrun ∨
    ∃ s name', firstStop c slots name = some (.compare s name') ∧
      (L s ∨ s = ⟨0, 0, 0⟩ ∧ child c parts = none) ∧ name' 256 = name 256 := by
  induction h generalizing name with
  | nil => exact absurd hs id
  | @child m n s parts slots hfull hslash hsh h ih =>
    have hlast : m.left name 256 = name 256 := left_behind m name (by omega)
    rw [firstStop_live slots name hfull s hc, if_neg hs.1, child_cons, if_neg hs.1, ← hlast]
    exact ih hs.2
  | @entry s parts slots hL h ih =>
    rw [firstStop_short]
    by_cases hsp : Spells name c
    · rw [if_pos hsp]
      exact .inr ⟨s, name, rfl, hL.imp id fun ⟨he, hno⟩ => ⟨he, hno c⟩, rfl⟩
    · rw [if_neg hsp]
      exact ih (hs.resolve_left hsp)
  | @piece order chars parts slots ho h ih =>
    rw [firstStop_long]
    rw [Strayed] at hs
    by_cases h0 : order = 0
    · rw [if_pos h0] at hs ⊢
      by_cases hch : chars = []
      · rw [if_pos hch]
        exact ih (hs.resolve_left fun hne => hne hch)
      · rw [if_neg hch]
        exact .inl rfl
    · rw [if_neg h0] at hs ⊢
      have hlast : overlay name (13 * (order - 1)) chars 256 = name 256 := overlay_behind name (by omega)
      rw [← hlast]
      exact ih hs

/-- if the search strays from some content of the buffer on, it does so if the buffer spells the component
at first -/
theorem strayed_of_agree {c : List UInt8} {parts : List (Part Node)} {name name' : Mem}
    (h : Strayed c parts name) (ha : ∀ i < 256, i ≤ c.length → name i = c.getD i 0 → name' i = c.getD i 0) :
    Strayed c parts name' := by
  induction parts generalizing name name' with
  | nil => exact h
  | cons p parts ih =>
    cases p with
    | child n _ =>
      refine ⟨h.1, ih h.2 fun i hi hle hn => ?_⟩
      rw [LongName.left_apply] at hn ⊢
      by_cases hx : i < min (n.bytes.length + 1) (13 * n.count)
      · rw [if_pos hx] at hn ⊢
        exact hn
      · rw [if_neg hx] at hn ⊢
        exact ha i hi hle hn
    | entry =>
      refine h.imp (fun hs i hi hle => ha i hi hle (hs i hi hle)) fun h => ih h ha
    | piece order chars =>
      rw [Strayed] at h ⊢
      by_cases h0 : order = 0
      · rw [if_pos h0] at h ⊢
        exact h.imp id fun h => ih h ha
      · rw [if_neg h0] at h ⊢
        refine ih h fun i hi hle hn => ?_
        unfold overlay at hn ⊢
        by_cases hoff : 13 * (order - 1) ≤ i
        · rw [if_pos hoff] at hn ⊢
          cases hch : chars[i - 13 * (order - 1)]? with
          | none =>
            rw [hch] at hn
            exact ha i hi hle hn
          | some b =>
            rw [hch] at hn
            exact hn
        · rw [if_neg hoff] at hn ⊢
          exact ha i hi hle hn

end

/-! ## the directory on the medium -/

/-- the boot record of the first partition -/
def Medium.pbr (m : Medium) : Pbr := Pbr.ofBuffer (m.sector (read32 (m.sector 0) (0x1be + 8)))

section
variable {m : Medium} {pbr : Pbr} {L : Short → Prop} {cluster : Nat} {parts : List (Part Node)}
  {items : List Item} {c : List UInt8} {part : Mem}
open Node

/-- the search reads the sector of the directory -/
theorem scan_sector (hm : ∀ k, m.fails k = false) (pbr : Pbr) (k cluster : Nat) (part buffer name : Mem) :
    scanTable part (readCluster m k cluster pbr buffer) (512 / 32) 0 name
      = settle part (probes (slots (m.sector (pbr.clusterSector cluster)) 0 16) name) := by
  rw [scanTable_eq]
  refine congrArg (fun l => settle part (probes l name)) (slots_congr fun y hy => ?_)
  unfold readCluster
  exact readInto_apply hm _ _ _ _ hy

theorem scan_items (hm : ∀ k, m.fails k = false) (hs : Composed (m.sector (pbr.clusterSector cluster)) 0 items)
    (k : Nat) (part buffer name : Mem) :
    scanTable part (readCluster m k cluster pbr buffer) (512 / 32) 0 name
      = settle part (probes (items.flatMap Item.slots) name) := by
  rw [scan_sector hm, slots_composed hs]

/-- the slots of a directory without the entries `.` and `..` -/
theorem slots_plain (h : Node.On m pbr L (.directory cluster false parts)) :
    ∃ slots, Reads L parts slots ∧ ((∀ k, m.fails k = false) → ∀ k part buffer name,
      scanTable part (readCluster m k cluster pbr buffer) (512 / 32) 0 name = settle part (probes slots name)) := by
  cases h with
  | directory hs hc hdots hch =>
    cases hc with
    | plain hg => exact ⟨_, groups_reads hg, fun hm => scan_items hm hs⟩

/-- the name of a child can be a part of a path -/
theorem child_clean {dots : Bool} (h : Node.On m pbr L (.directory cluster dots parts)) {n : Node}
    (hn : child c parts = some n) : ∀ b ∈ c, b ≠ 0 ∧ b ≠ 0x2f := by
  cases h with
  | directory hs hc hdots hch =>
    cases hc with
    | plain hg => exact reads_clean (groups_reads hg) hn
    | dots _ _ hg => exact reads_clean (groups_reads hg) hn

/-- **What a search that does not stray ends with.** -/
theorem scan_straight (hm : ∀ k, m.fails k = false) (h : Node.On m pbr L (.directory cluster false parts))
    (hc : ∀ b ∈ c, b ≠ 0) {name : Mem} (hn : ¬ Strayed c parts name) (hp : Spells part c) (k : Nat) (buffer : Mem) :
    (child c parts = none → ∃ part', scanTable part (readCluster m k cluster pbr buffer) (512 / 32) 0 name
      = .error (.fileNotFound part')) ∧
    (∀ cl size, child c parts = some (.file cl size) → ∃ name',
      scanTable part (readCluster m k cluster pbr buffer) (512 / 32) 0 name = .ok (.file ⟨name', cl, size⟩)) ∧
    (∀ cl dots parts', child c parts = some (.directory cl dots parts') →
      scanTable part (readCluster m k cluster pbr buffer) (512 / 32) 0 name = .ok (.directory cl)) := by
  obtain ⟨slots, hr, hscan⟩ := slots_plain h
  obtain ⟨hnone, hsome⟩ := firstStop_straight hr hc hn
  rw [hscan hm]
  refine ⟨fun hn => ⟨_, settle_none hc hp (hnone hn)⟩, fun cl size hn => ?_, fun cl dots parts' hn => ?_⟩
  · obtain ⟨s, name', hfind, hd, rfl, rfl⟩ := hsome _ hn
    refine ⟨name', ?_⟩
    rw [settle_found hc hp (child_length hn) hfind, if_neg hd]
  · obtain ⟨s, name', hfind, hd, rfl⟩ := hsome _ hn
    rw [settle_found hc hp (child_length hn) hfind, if_pos hd]

/-- **What a search that strays ends with**, if the buffer agrees with the part of the path in its last byte. -/
theorem scan_strayed (hm : ∀ k, m.fails k = false) (h : Node.On m pbr L (.directory cluster false parts))
    (hc : ∀ b ∈ c, b ≠ 0) {name : Mem} (hs : Strayed c parts name) (hp : Spells part c) (hlast : part 256 = name 256)
    (k : Nat) (buffer : Mem) :
    scanTable part (readCluster m k cluster pbr buffer) (512 / 32) 0 name = .error .outOfBounds ∨
    ∃ s name', (L s ∨ s = ⟨0, 0, 0⟩ ∧ child c parts = none) ∧
      scanTable part (readCluster m k cluster pbr buffer) (512 / 32) 0 name = if s.IsDirectory
        then .ok (.directory s.firstClusterNumber) else .ok (.file ⟨name', s.firstClusterNumber, s.size⟩) := by
  obtain ⟨slots, hr, hscan⟩ := slots_plain h
  rw [hscan hm]
  rcases firstStop_strayed hr hc hs with hfind | ⟨s, name', hfind, hL, hname⟩
  · exact .inl (settle_overrun hc hp hfind)
  · exact (settle_reached hc hp hfind (hlast.trans hname.symm)).imp id fun e => ⟨s, name', hL, e⟩

end

end StarOS
