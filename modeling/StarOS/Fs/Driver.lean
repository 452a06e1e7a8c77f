import StarOS.Disk.Read
import StarOS.Fs.Fat32

/-!
# The disk behind the file system

The reader of the file system is written over a `Medium`: the content of the sectors, and for each read, by its
number, whether it fails.  Below it is the driver, with the drive that is selected, the address registers and the
status bytes of the drive.

* `polled`, `statusAfter`   the status bytes that the polls of one read and of several reads take;
* `Disk.medium`        the medium that a drive is;
* `read_step`          which status a read ends with does not depend on the sector;
* `driver_refines_medium`   **whatever sectors below `2^24` were read before, the driver answers the next read as the
                       medium does.**
-/

namespace StarOS
open Lib

/-- the polls of one read -/
def polled : List UInt8 → Option (UInt8 × List UInt8)
  | [] => none
  | b :: bs => (pollBusy b bs).bind fun r => pollReady r.1 r.2

/-- the status bytes that are left after `k` reads -/
def statusAfter : Nat → List UInt8 → Option (List UInt8)
  | 0, status => some status
  | k + 1, status => (polled status).bind fun r => statusAfter k r.2

/-- the status bytes when the drive is selected -/
def Ide.ready (s : Ide) : Option (List UInt8) :=
  if s.Selected then some s.drive.status
  else if s.drive.status.length < 15 then none
  else some (s.drive.status.drop 15)

/-- the read number `k` from here on fails -/
def Disk.fails (s : Disk) (k : Nat) : Bool :=
  ((s.ide.ready.bind (statusAfter k)).bind polled).elim false fun r => r.1 &&& DRQ = 0

def Disk.medium (s : Disk) : Medium := ⟨s.ide.drive.sectors, s.fails⟩

theorem poll_eq (d : Drive) : d.poll = (polled d.status).map fun r => (r.1, { d with status := r.2 }) := by
  unfold Drive.poll polled
  cases d.status with
  | nil => rfl
  | cons b bs =>
    show (pollBusy b bs).bind _ = Option.map _ ((pollBusy b bs).bind _)
    rw [Option.map_bind]
    rfl

section
variable {s t u : Disk} {call : ReadCall} {calls : List ReadCall} {code : Int} {dest : Buf}

theorem delay_some {d d' : Drive} {n : Nat} (h : d.delay n = some d') :
    ¬ d.status.length < n ∧ d'.status = d.status.drop n := by
  rw [Drive.delay] at h
  split at h
  · cases h
  · next hlen =>
    rw [← Option.some.inj h]
    exact ⟨hlen, rfl⟩

/-- the drive is selected with its status bytes -/
theorem select_ready {s t : Ide} {lba : Nat} (h : s.select 0x1f0 true lba = some t) :
    s.ready = some t.drive.status := by
  by_cases hs : s.Selected
  · have hc : ¬ (s.cachedPortBase ≠ 0x1f0 ∨ s.cachedIsMaster ≠ true) := fun hc => not_and_or.mpr hc hs
    rw [Ide.select, if_neg hc] at h
    rw [Ide.ready, if_pos hs, Option.some.inj h]
  · have hc : s.cachedPortBase ≠ 0x1f0 ∨ s.cachedIsMaster ≠ true := not_and_or.mp hs
    rw [Ide.select, if_pos hc] at h
    obtain ⟨d, hd, rfl⟩ := Option.map_eq_some_iff.mp h
    obtain ⟨hlen, hstatus⟩ := delay_some hd
    rw [Ide.ready, if_neg hs]
    show _ = some d.status
    rw [hstatus]
    exact if_neg hlen

/-- the status a read ends with, the one that is left, and the code -/
theorem read_step (h : s.read call = some (code, t, dest)) : ∃ status r, s.ide.ready = some status ∧
    polled status = some r ∧ t.ide.ready = some r.2 ∧ code = (if r.1 &&& DRQ ≠ 0 then 0 else -1) ∧
      (code ≠ 0 → dest = call.dest) := by
  have hselected := (readDiskSector_some h).1
  obtain ⟨r', hr, he⟩ := Option.map_eq_some_iff.mp h
  rw [read_small call.count_le] at hr
  have hfailed := readChunk_failed hr
  obtain ⟨rfl, rfl, rfl⟩ : r'.1 = code ∧ _ = t ∧ r'.2.2 = dest := by
    obtain ⟨h1, h2⟩ := Prod.mk.inj he
    exact ⟨h1, Prod.mk.inj h2⟩
  obtain ⟨u, hu, hr⟩ := Option.bind_eq_some_iff.mp hr
  obtain ⟨⟨b, d⟩, hp, hr⟩ := Option.map_eq_some_iff.mp hr
  rw [poll_eq] at hp
  obtain ⟨r, hpolled, hd⟩ := Option.map_eq_some_iff.mp hp
  obtain ⟨rfl, rfl⟩ := Prod.mk.inj hd
  refine ⟨u.drive.status, r, select_ready hu, hpolled, ?_, ?_, hfailed⟩
  · rw [Ide.ready, if_pos hselected]
    by_cases hb : r.1 &&& DRQ ≠ 0
    · rw [if_pos hb] at hr
      rw [← hr]
      exact congrArg some (readWords_status _ _ _ _)
    · rw [if_neg hb] at hr
      rw [← hr]
  · by_cases hb : r.1 &&& DRQ ≠ 0
    · rw [if_pos hb] at hr ⊢
      rw [← hr]
    · rw [if_neg hb] at hr ⊢
      rw [← hr]

/-- the reads before leave the drive as it was, and their status bytes are used up -/
theorem reads_step (hs : s.ide.Points 0) (hcalls : ∀ k ∈ calls, k.high = 0) (h : Path Disk.Step s calls t) :
    t.ide.Points 0 ∧ t.ide.drive.sectors = s.ide.drive.sectors ∧
      t.ide.ready = s.ide.ready.bind (statusAfter calls.length) := by
  induction calls generalizing s with
  | nil =>
    obtain rfl := path_nil.mp h
    exact ⟨hs, rfl, (Option.bind_fun_some _).symm⟩
  | cons k ks ih =>
    obtain ⟨u, ⟨code, dest, hread⟩, h⟩ := h
    obtain ⟨-, hsectors, hdrive, -⟩ := readDiskSector_some hread
    obtain ⟨status, r, hready, hpolled, hleft, -⟩ := read_step hread
    have htop := hs.top (hcalls k List.mem_cons_self)
    have hu : u.ide.Points 0 := fun _ => hdrive.trans htop
    obtain ⟨ht, hrest, hlast⟩ := ih hu (fun k' hk' => hcalls k' (List.mem_cons_of_mem _ hk')) h
    refine ⟨ht, hrest.trans hsectors, ?_⟩
    rw [hlast, hleft, hready, Option.bind_some, Option.bind_some, List.length_cons, statusAfter, hpolled,
      Option.bind_some]

/-- the next read stores what the medium says, and its code is that of the medium -/
theorem read_answered (hs : s.ide.Points 0) (hcalls : ∀ k ∈ calls, k.high = 0) (h : Path Disk.Step s calls t)
    (hcount : call.count = 1) (hhigh : call.high = 0) (hread : t.read call = some (code, u, dest)) :
    dest = s.medium.readTo calls.length call.sectorNumber call.dest 0 ∧
      code = if s.medium.fails calls.length then -1 else 0 := by
  obtain ⟨ht, hsectors, hlast⟩ := reads_step hs hcalls h
  obtain ⟨-, -, -, hgot⟩ := readDiskSector_some hread
  obtain ⟨status, r, hready, hpolled, -, hcode, hfailed⟩ := read_step hread
  have hfails : s.medium.fails calls.length = decide (r.1 &&& DRQ = 0) := by
    show ((s.ide.ready.bind (statusAfter calls.length)).bind polled).elim false _ = _
    rw [← hlast, hready, Option.bind_some, hpolled]
    rfl
  rw [Medium.readTo, hfails]
  by_cases hb : r.1 &&& DRQ = 0
  · have hcode' : code = -1 := hcode.trans (if_neg (not_not_intro hb))
    rw [if_pos (decide_eq_true hb), if_pos (decide_eq_true hb)]
    refine ⟨hfailed ?_, hcode'⟩
    rw [hcode']
    decide
  · have hcode' : code = 0 := hcode.trans (if_pos hb)
    have hdecide : ¬ decide (r.1 &&& DRQ = 0) = true := fun h => hb (of_decide_eq_true h)
    rw [if_neg hdecide, if_neg hdecide]
    refine ⟨funext fun i => ?_, hcode'⟩
    have hsmall : call.sectorNumber % 2^24 = call.sectorNumber := by
      have hlt : call.sectorNumber / 2^24 = 0 := hhigh
      omega
    refine (hgot hcode' i).trans ?_
    rw [ht.top hhigh, hsmall, hcount, hsectors]
    by_cases hi : i < 512
    · have hsector : 0 * 2^24 + call.sectorNumber + i / 512 = call.sectorNumber := by omega
      rw [if_pos (by omega), if_pos (by omega), hsector, Nat.mod_eq_of_lt hi]
      rfl
    · rw [if_neg (by omega), if_neg (by omega)]

end

/-! ## the two ways the file system reads -/

/-- the buffer starts at `off` of a larger one -/
theorem readTo_shift (m : Medium) (k n : Nat) (dest : Buf) (off i : Nat) :
    m.readTo k n (fun x => dest (off + x)) 0 i = m.readTo k n dest off (off + i) := by
  rw [Medium.readTo, Medium.readTo]
  by_cases hf : m.fails k
  · rw [if_pos hf, if_pos hf]
  · rw [if_neg hf, if_neg hf]
    by_cases hi : i < 512
    · rw [if_pos (by omega), if_pos (by omega), Nat.add_sub_cancel_left, Nat.sub_zero]
    · rw [if_neg (by omega), if_neg (by omega)]

/-- the buffer is a local variable -/
theorem readTo_local (m : Medium) (k n : Nat) (buffer : Mem) :
    m.readTo k n (fun x => some (buffer x)) 0 = fun x => some (m.readInto k n buffer x) := by
  rw [Medium.readTo, Medium.readInto]
  by_cases hf : m.fails k
  · rw [if_pos hf, if_pos hf]
  · rw [if_neg hf, if_neg hf]
    funext x
    by_cases hx : x < 512
    · rw [if_pos (by omega), if_pos hx, Nat.sub_zero]
    · rw [if_neg (by omega), if_neg hx]

/-- **Whatever sectors below `2^24` were read before, the driver answers the next read as the medium does.** -/
theorem driver_refines_medium (s t u : Disk) (calls : List ReadCall) (call : ReadCall) (code : Int) (got : Buf)
    (hs : s.ide.Points 0) (hcalls : ∀ k ∈ call :: calls, k.high = 0) (hcount : call.count = 1)
    (h : Path Disk.Step s calls t) (hread : t.read call = some (code, u, got)) :
    (∀ dest off, (call.dest = fun i => dest (off + i)) →
      ∀ i, got i = s.medium.readTo calls.length call.sectorNumber dest off (off + i)) ∧
    (∀ buffer : Mem, (call.dest = fun i => some (buffer i)) →
      got = fun i => some (s.medium.readInto calls.length call.sectorNumber buffer i)) ∧
    code = if s.medium.fails calls.length then -1 else 0 := by
  obtain ⟨hgot, hcode⟩ := read_answered hs (fun k hk => hcalls k (List.mem_cons_of_mem _ hk)) h hcount
    (hcalls call List.mem_cons_self) hread
  refine ⟨fun dest off hd i => ?_, fun buffer hb => ?_, hcode⟩
  · rw [hgot, hd]
    exact readTo_shift _ _ _ _ _ _
  · rw [hgot, hb]
    exact readTo_local _ _ _ _

/-- after sector 5, sector 0 is read into a local buffer -/
theorem driver_refines_medium_two : ∃ (t u : Disk) (code : Int) (got : Buf),
    Path Disk.Step (Disk.boot (fun _ => 0) (markedDrive 17)) [readOne 5 (by decide)] t ∧
    t.read (readOne 0 (by decide)) = some (code, u, got) ∧ code = 0 ∧
    ∀ i, got i = (Disk.boot (fun _ => 0) (markedDrive 17)).medium.readTo 1 0 (fun _ => none) 0 (0 + i) := by
  obtain ⟨t, dest, hr, ht⟩ := read_marked (boot_marked (fun _ => 0) 2) (readOne 5 (by decide))
  obtain ⟨u, got, hr', -⟩ := read_marked ht (readOne 0 (by decide))
  have hpath : Path Disk.Step (Disk.boot (fun _ => 0) (markedDrive 17)) [readOne 5 (by decide)] t :=
    ⟨t, ⟨_, _, hr⟩, rfl⟩
  have hzero : ∀ k ∈ [readOne 0 (by decide), readOne 5 (by decide)], k.high = 0 := by decide
  refine ⟨t, u, 0, got, hpath, hr', rfl, ?_⟩
  exact (driver_refines_medium _ t u _ _ 0 got (fun h => by cases h.1) hzero rfl hpath hr').1 (fun _ => none) 0 rfl

end StarOS
