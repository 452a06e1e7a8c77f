import StarOS.Exec.Segments

/-!
# Where `execv` reads and writes while it loads a file (`execv` of `process.cpp`)

The image of the file is `size` bytes at a buffer, and there is memory behind them.  `execvAccesses mem`
are the accesses to the image and to the pages of the segments, in the order of the source, and the message
the call halts with, `mem` being the memory from the buffer on.  Nothing is checked against `size`.

* `headers_inside`     the table of program headers is read inside the image exactly if it ends there;
* `segment_inside`     so is a segment: its first page from its offset on, the others from byte 4096 on;
* `segment_inPage`     it is written inside its pages exactly if the first one has room for what is copied there;
* `accesses_inside_iff`   **what a file that gets through needs for all reads to lie inside, and which writes do**;
* `accepted_iff_accesses`   the files for which `plan` has no way out of bounds.
-/

namespace StarOS
open Lib

inductive Access where
  /-- `n` bytes of the image from offset `src` on -/
  | read (src n : Nat)
  /-- `n` bytes from `offset` on in the page just allocated -/
  | write (offset n : Nat)

/-- a read in the first `size` bytes of the image; a pointer has 32 bits -/
def Access.Inside (size : Nat) : Access → Prop
  | .read src n => ∀ i < n, wrap32 (src + i) < size
  | .write _ _ => True

/-- a write in the page -/
def Access.InPage : Access → Prop
  | .read _ _ => True
  | .write offset n => offset + n ≤ pageSize

/-- the accesses up to a halt, and its message; `none` if the code goes on -/
abbrev Accesses := List Access × Option Fatal

/-- one part of the code after the other -/
def Accesses.andThen (p q : Accesses) : Accesses :=
  match p.2 with
  | none => (p.1 ++ q.1, q.2)
  | some e => (p.1, some e)

/-- `*(ELF_HEADER *)buffer` -/
def ElfHeader.ofBuffer (buffer : Mem) : ElfHeader where
  magicNum := read32 buffer 0
  bitness := (buffer 4).toNat
  endianness := (buffer 5).toNat
  version := (buffer 6).toNat
  abi := (buffer 7).toNat
  abiVersion := (buffer 8).toNat
  type := read16 buffer 16
  machine := read16 buffer 18
  eVersion := read32 buffer 20
  eEntry := read32 buffer 24
  ePhoff := read32 buffer 28
  ePhnum := read16 buffer 44

/-- `program_header_table[i]`, with the table at offset `table` of the buffer -/
def ProgramHeader.ofBuffer (buffer : Mem) (table i : Nat) : ProgramHeader where
  pOffset := read32 buffer (table + ProgramHeader.bytes * i + 4)
  pVaddr := read32 buffer (table + ProgramHeader.bytes * i + 8)
  pFilesz := read32 buffer (table + ProgramHeader.bytes * i + 16)
  pMemsz := read32 buffer (table + ProgramHeader.bytes * i + 20)

/-- the memory from the buffer on, the pointer going round at `2^32` -/
def around (mem : Mem) : Mem := fun i => mem (wrap32 i)

/-- how many bytes are copied into the first page: the sum is a `uint32_t` -/
def ProgramHeader.copied (h : ProgramHeader) : Nat :=
  if wrap32 (h.pMemsz + h.pVaddr % pageSize) < pageSize then h.pMemsz else pageSize - h.pVaddr % pageSize

/-- the loop that copies the following pages, `n` whole ones and `rest` bytes more -/
def copyNext (src rest : Nat) : Nat → List Access
  | 0 => if rest = 0 then [] else [.read src rest, .write 0 rest]
  | n + 1 => .read src pageSize :: .write 0 pageSize :: copyNext (src + pageSize) rest n

/-- the body of the loop over the program headers -/
def segmentAccesses (i : Nat) (phentry : ProgramHeader) : Accesses :=
  if phentry.pFilesz ≠ phentry.pMemsz then ([], some (.unsupportedProgramHeader i))
  else if phentry.pMemsz = 0 then ([], none)
  else
    let bytesToCopy := phentry.pMemsz - phentry.copied
    (.read phentry.pOffset phentry.copied :: .write (phentry.pVaddr % pageSize) phentry.copied ::
      copyNext pageSize (bytesToCopy % pageSize) (bytesToCopy / pageSize), none)

/-- the loop over the program headers, from entry `i` on; `n` are left -/
def headersAccesses (mem : Mem) (table i : Nat) : Nat → Accesses
  | 0 => ([], none)
  | n + 1 => Accesses.andThen ([.read (table + ProgramHeader.bytes * i) ProgramHeader.bytes], none)
    (Accesses.andThen (segmentAccesses i (.ofBuffer (around mem) table i)) (headersAccesses mem table (i + 1) n))

/-- `execv`, from the header of the file to `add_kernel_mappings` -/
def execvAccesses (mem : Mem) : Accesses :=
  let header := ElfHeader.ofBuffer (around mem)
  Accesses.andThen ([.read 0 ElfHeader.bytes], none)
    (if header.isValidElf then headersAccesses mem header.ePhoff 0 header.ePhnum
      else ([], some .unsupportedProgramFile))

/-! ## parts of the code -/

theorem Plan.andThen_none_iff (p q : Plan) : (p.andThen q).2 = none ↔ p.2 = none ∧ q.2 = none := by
  unfold Plan.andThen
  cases p.2 <;> simp

theorem Accesses.andThen_none_iff (p q : Accesses) : (p.andThen q).2 = none ↔ p.2 = none ∧ q.2 = none := by
  unfold Accesses.andThen
  cases p.2 <;> simp

theorem Accesses.andThen_none {p q : Accesses} (h : (p.andThen q).2 = none) :
    p.2 = none ∧ q.2 = none ∧ (p.andThen q).1 = p.1 ++ q.1 := by
  unfold Accesses.andThen at h ⊢
  cases hp : p.2 with
  | some e =>
    rw [hp] at h
    cases h
  | none =>
    rw [hp] at h
    exact ⟨rfl, h, rfl⟩

section
variable {mem : Mem} {table : Nat}

/-- header `j`, as it is read -/
def headerAt (mem : Mem) (table j : Nat) : ProgramHeader := .ofBuffer (around mem) table j

/-- the accesses of the loop, header by header -/
theorem headersAccesses_eq (i n : Nat) (h : (headersAccesses mem table i n).2 = none) :
    (headersAccesses mem table i n).1 = ((List.range' i n).flatMap fun j =>
      .read (table + ProgramHeader.bytes * j) ProgramHeader.bytes :: (segmentAccesses j (headerAt mem table j)).1) ∧
      ∀ j, i ≤ j → j < i + n → (segmentAccesses j (headerAt mem table j)).2 = none := by
  induction n generalizing i with
  | zero => exact ⟨rfl, fun j h1 h2 => by omega⟩
  | succ n ih =>
    rw [headersAccesses] at h ⊢
    obtain ⟨-, h1, e1⟩ := Accesses.andThen_none h
    obtain ⟨h2, h3, e2⟩ := Accesses.andThen_none h1
    obtain ⟨hreq, hnone⟩ := ih (i + 1) h3
    refine ⟨?_, fun j hj hjn => ?_⟩
    · rw [e1, e2, hreq, List.range'_succ, List.flatMap_cons]
      rfl
    · by_cases e : j = i
      · rw [e]
        exact h2
      · exact hnone j (by omega) (by omega)

end

theorem headersAccesses_none_iff {mem : Mem} {table : Nat} (i n : Nat) :
    (headersAccesses mem table i n).2 = none ↔
      ∀ j, i ≤ j → j < i + n → (segmentAccesses j (headerAt mem table j)).2 = none := by
  induction n generalizing i with
  | zero => exact ⟨fun _ j h1 h2 => by omega, fun _ => rfl⟩
  | succ n ih =>
    rw [headersAccesses, Accesses.andThen_none_iff, Accesses.andThen_none_iff, ih]
    constructor
    · rintro ⟨-, h1, h2⟩ j hj hjn
      by_cases e : j = i
      · rw [e]
        exact h1
      · exact h2 j (by omega) (by omega)
    · intro h
      exact ⟨rfl, h i (Nat.le_refl i) (by omega), fun j hj hjn => h j (by omega) (by omega)⟩

theorem segmentAccesses_none {i : Nat} {h : ProgramHeader} (hn : (segmentAccesses i h).2 = none) :
    h.pFilesz = h.pMemsz ∧ (h.pMemsz = 0 → (segmentAccesses i h).1 = []) ∧
    (h.pMemsz ≠ 0 → (segmentAccesses i h).1 = .read h.pOffset h.copied :: .write (h.pVaddr % pageSize) h.copied ::
      copyNext pageSize ((h.pMemsz - h.copied) % pageSize) ((h.pMemsz - h.copied) / pageSize)) := by
  unfold segmentAccesses at hn ⊢
  by_cases h1 : h.pFilesz ≠ h.pMemsz
  · rw [if_pos h1] at hn
    cases hn
  · rw [if_neg h1]
    refine ⟨not_not.mp h1, fun h0 => ?_, fun h0 => ?_⟩
    · rw [if_pos h0]
    · rw [if_neg h0]

/-! ## reads inside the image -/

section
variable {size : Nat} (hs : size < 2^32)
include hs

/-- a read from inside the address space does not come round to the image again -/
theorem wrapped_iff {src n : Nat} (hsrc : src < 2^32) (hn : 0 < n) :
    (∀ i < n, wrap32 (src + i) < size) ↔ src + n ≤ size := by
  constructor
  · intro h
    by_contra hgt
    by_cases hfit : src + n ≤ 2^32
    · have hlast := h (n - 1) (by omega)
      rw [wrap32_of_lt (by omega)] at hlast
      omega
    · -- the last byte of the address space is read
      have htop := h (2^32 - 1 - src) (by omega)
      rw [wrap32_of_lt (by omega)] at htop
      omega
  · intro h i hi
    rw [wrap32_of_lt (by omega)]
    omega

omit hs in
theorem copyNext_inside {src rest : Nat} (n : Nat) :
    (∀ a ∈ copyNext src rest n, a.Inside size) ↔ ∀ k < pageSize * n + rest, wrap32 (src + k) < size := by
  induction n generalizing src with
  | zero =>
    rw [copyNext, Nat.mul_zero, Nat.zero_add]
    by_cases h0 : rest = 0
    · simp [h0]
    · rw [if_neg h0]
      simp [Access.Inside]
  | succ n ih =>
    have hpage : pageSize * (n + 1) + rest = pageSize + (pageSize * n + rest) := by
      rw [Nat.mul_succ]
      omega
    rw [copyNext, List.forall_mem_cons, List.forall_mem_cons, ih, hpage]
    constructor
    · rintro ⟨h1, -, h2⟩ k hk
      by_cases hk' : k < pageSize
      · exact h1 k hk'
      · have e : src + k = src + pageSize + (k - pageSize) := by omega
        rw [e]
        exact h2 _ (by omega)
    · intro h
      refine ⟨fun k hk => h k (by omega), trivial, fun k hk => ?_⟩
      rw [Nat.add_assoc]
      exact h _ (by omega)

/-- the accesses of a segment lie inside the image exactly if its first page does, and the rest from byte
4096 on -/
theorem segment_inside {i : Nat} {h : ProgramHeader} (hn : (segmentAccesses i h).2 = none) (h0 : h.pMemsz ≠ 0)
    (hoff : h.pOffset < 2^32) :
    (∀ a ∈ (segmentAccesses i h).1, a.Inside size) ↔ h.pOffset + h.copied ≤ size ∧
      (h.pMemsz ≤ h.copied ∨ pageSize + (h.pMemsz - h.copied) ≤ size) := by
  have hpos : 0 < h.copied := by
    unfold ProgramHeader.copied
    have hmod : h.pVaddr % pageSize < pageSize := Nat.mod_lt _ (by decide)
    split <;> omega
  rw [(segmentAccesses_none hn).2.2 h0, List.forall_mem_cons, List.forall_mem_cons, copyNext_inside,
    Nat.div_add_mod]
  refine and_congr (wrapped_iff hs hoff hpos) ?_
  by_cases hle : h.pMemsz ≤ h.copied
  · have e : h.pMemsz - h.copied = 0 := by omega
    rw [e]
    exact ⟨fun _ => .inl hle, fun _ => ⟨trivial, fun k hk => absurd hk (Nat.not_lt_zero k)⟩⟩
  · rw [wrapped_iff hs (by decide) (by omega)]
    exact ⟨fun hx => .inr hx.2, fun hx => ⟨trivial, hx.resolve_left hle⟩⟩

/-- the headers lie inside the image exactly if the table ends there -/
theorem headers_inside {table n : Nat} (ht : table < 2^32) :
    (∀ j < n, (Access.read (table + ProgramHeader.bytes * j) ProgramHeader.bytes).Inside size) ↔
      n = 0 ∨ table + ProgramHeader.bytes * n ≤ size := by
  have hb : ProgramHeader.bytes = 32 := rfl
  by_cases h0 : n = 0
  · simp [h0]
  rw [or_iff_right h0, hb, ← wrapped_iff hs ht (by omega)]
  constructor
  · intro h k hk
    have e : table + k = table + 32 * (k / 32) + k % 32 := by omega
    rw [e]
    exact h (k / 32) (by omega) (k % 32) (Nat.mod_lt _ (by decide))
  · intro h j hj k hk
    rw [Nat.add_assoc]
    exact h _ (by omega)

end

/-! ## segments that are copied from their place -/

/-- the segment ends in its first page, or byte 4096 of the image is where its second page begins -/
def ProgramHeader.Plain (h : ProgramHeader) : Prop :=
  h.pVaddr % pageSize + h.pMemsz ≤ pageSize ∨
    h.pOffset = h.pVaddr % pageSize ∧ h.pVaddr % pageSize + h.pMemsz < 2^32

section
variable {size : Nat} {i : Nat} {h : ProgramHeader}

/-- the sum in the test for the first page does not wrap -/
def ProgramHeader.Bounded (h : ProgramHeader) : Prop := h.pVaddr % pageSize + h.pMemsz < 2^32

theorem ProgramHeader.Plain.bounded (hp : h.Plain) : h.Bounded := by
  have hpage : pageSize < 2^32 := by decide
  rcases hp with hp | ⟨-, hp⟩
  · exact Nat.lt_of_le_of_lt hp hpage
  · exact hp

/-- the first page takes no more than there is and no more than it has room for -/
theorem copied_bounded (hb : h.Bounded) : h.copied = min h.pMemsz (pageSize - h.pVaddr % pageSize) := by
  have hmod : h.pVaddr % pageSize < pageSize := Nat.mod_lt _ (by decide)
  have hsum : h.pMemsz + h.pVaddr % pageSize < 2^32 := Nat.add_comm _ _ ▸ hb
  unfold ProgramHeader.copied
  rw [wrap32_of_lt hsum]
  by_cases hlt : h.pMemsz + h.pVaddr % pageSize < pageSize
  · rw [if_pos hlt, Nat.min_eq_left (by omega)]
  · rw [if_neg hlt, Nat.min_eq_right (by omega)]

theorem plain_inside (hs : size < 2^32) (hn : (segmentAccesses i h).2 = none) (h0 : h.pMemsz ≠ 0)
    (hoff : h.pOffset < 2^32) (hp : h.Plain) :
    (∀ a ∈ (segmentAccesses i h).1, a.Inside size) ↔ h.pOffset + h.pMemsz ≤ size := by
  rw [segment_inside hs hn h0 hoff, copied_bounded hp.bounded]
  have hmod : h.pVaddr % pageSize < pageSize := Nat.mod_lt _ (by decide)
  rcases hp with hp | ⟨he, hp⟩
  · rw [Nat.min_eq_left (by omega)]
    exact ⟨fun hx => hx.1, fun hx => ⟨hx, .inl (Nat.le_refl _)⟩⟩
  · omega

theorem copyNext_inPage {src rest : Nat} (hr : rest ≤ pageSize) (n : Nat) : ∀ a ∈ copyNext src rest n, a.InPage := by
  induction n generalizing src with
  | zero =>
    rw [copyNext]
    by_cases h0 : rest = 0
    · simp [h0]
    · rw [if_neg h0]
      simpa [Access.InPage] using hr
  | succ n ih =>
    rw [copyNext, List.forall_mem_cons, List.forall_mem_cons]
    exact ⟨trivial, by simp [Access.InPage], ih⟩

theorem segment_inPage (hn : (segmentAccesses i h).2 = none) (h0 : h.pMemsz ≠ 0) :
    (∀ a ∈ (segmentAccesses i h).1, a.InPage) ↔ h.pVaddr % pageSize + h.copied ≤ pageSize := by
  rw [(segmentAccesses_none hn).2.2 h0, List.forall_mem_cons, List.forall_mem_cons]
  have hrest : (h.pMemsz - h.copied) % pageSize ≤ pageSize := Nat.le_of_lt (Nat.mod_lt _ (by decide))
  have hnext : ∀ a ∈ copyNext pageSize ((h.pMemsz - h.copied) % pageSize)
    ((h.pMemsz - h.copied) / pageSize), a.InPage := copyNext_inPage hrest _
  exact ⟨fun hx => hx.2.1, fun hx => ⟨trivial, hx, hnext⟩⟩

end

/-! ## the whole call -/

section
variable {mem : Mem} {size : Nat}

/-- the header of the file, as it is read -/
def headerOf (mem : Mem) : ElfHeader := .ofBuffer (around mem)

theorem execvAccesses_none_iff : (execvAccesses mem).2 = none ↔ (headerOf mem).isValidElf = true ∧
    ∀ j < (headerOf mem).ePhnum, (segmentAccesses j (headerAt mem (headerOf mem).ePhoff j)).2 = none := by
  show (Accesses.andThen _ (if (headerOf mem).isValidElf then _ else _)).2 = none ↔ _
  rw [Accesses.andThen_none_iff]
  cases hv : (headerOf mem).isValidElf with
  | false => simp
  | true =>
    rw [if_pos rfl]
    show _ ∧ (headersAccesses mem (headerOf mem).ePhoff 0 (headerOf mem).ePhnum).2 = none ↔ _
    rw [headersAccesses_none_iff]
    exact ⟨fun h => ⟨rfl, fun j hj => h.2 j (Nat.zero_le j) (by omega)⟩,
      fun h => ⟨rfl, fun j _ hj => h.2 j (by omega)⟩⟩

/-- the accesses of a call that gets through -/
theorem execvAccesses_none (ha : (execvAccesses mem).2 = none) :
    (headerOf mem).isValidElf = true ∧
    (headersAccesses mem (headerOf mem).ePhoff 0 (headerOf mem).ePhnum).2 = none ∧
    (execvAccesses mem).1 = .read 0 ElfHeader.bytes ::
      (headersAccesses mem (headerOf mem).ePhoff 0 (headerOf mem).ePhnum).1 := by
  obtain ⟨-, h2, e⟩ := Accesses.andThen_none ha
  cases hv : (ElfHeader.ofBuffer (around mem)).isValidElf with
  | false =>
    rw [hv] at h2
    cases h2
  | true =>
    rw [hv, if_pos rfl] at h2
    refine ⟨hv, h2, e.trans ?_⟩
    rw [hv, if_pos rfl]
    rfl

/-- what holds of all accesses holds of the header, of the table and of the segments -/
theorem forall_accesses (ha : (execvAccesses mem).2 = none) (P : Access → Prop) :
    (∀ a ∈ (execvAccesses mem).1, P a) ↔ P (.read 0 ElfHeader.bytes) ∧
      (∀ j < (headerOf mem).ePhnum,
        P (.read ((headerOf mem).ePhoff + ProgramHeader.bytes * j) ProgramHeader.bytes)) ∧
      ∀ j < (headerOf mem).ePhnum,
        ∀ a ∈ (segmentAccesses j (headerAt mem (headerOf mem).ePhoff j)).1, P a := by
  obtain ⟨-, h2, e⟩ := execvAccesses_none ha
  rw [e, (headersAccesses_eq _ _ h2).1, List.forall_mem_cons]
  refine and_congr Iff.rfl ?_
  constructor
  · intro h
    refine ⟨fun j hj => h _ (List.mem_flatMap.mpr ⟨j, ?_, List.mem_cons_self⟩), fun j hj a hm =>
      h a (List.mem_flatMap.mpr ⟨j, ?_, List.mem_cons_of_mem _ hm⟩)⟩ <;>
    · rw [List.mem_range'_1]
      omega
  · rintro ⟨h1, h2⟩ a hm
    obtain ⟨j, hj, hm⟩ := List.mem_flatMap.mp hm
    rw [List.mem_range'_1] at hj
    rcases List.mem_cons.mp hm with rfl | hm
    · exact h1 j (by omega)
    · exact h2 j (by omega) a hm

/-- the file has room for its header, for the table of program headers and for the segments -/
structure Encloses (mem : Mem) (size : Nat) : Prop where
  header : ElfHeader.bytes ≤ size
  table : (headerOf mem).ePhnum = 0 ∨ (headerOf mem).ePhoff + ProgramHeader.bytes * (headerOf mem).ePhnum ≤ size
  segments : ∀ j < (headerOf mem).ePhnum, (headerAt mem (headerOf mem).ePhoff j).pMemsz ≠ 0 →
    (headerAt mem (headerOf mem).ePhoff j).pOffset + (headerAt mem (headerOf mem).ePhoff j).pMemsz ≤ size

/-- **When a file that gets through, its segments being copied from their place, is read inside its image; and
every segment whose size does not wrap is written inside its pages, wherever it is copied from.** -/
theorem accesses_inside_iff (mem : Mem) (size : Nat) (hs : size < 2^32) (ha : (execvAccesses mem).2 = none) :
    ((∀ j < (headerOf mem).ePhnum, (headerAt mem (headerOf mem).ePhoff j).pMemsz = 0 ∨
      (headerAt mem (headerOf mem).ePhoff j).Plain) →
      ((∀ a ∈ (execvAccesses mem).1, a.Inside size) ↔ Encloses mem size)) ∧
    ∀ j < (headerOf mem).ePhnum, (headerAt mem (headerOf mem).ePhoff j).Bounded →
      ∀ a ∈ (segmentAccesses j (headerAt mem (headerOf mem).ePhoff j)).1, a.InPage := by
  obtain ⟨-, h2, -⟩ := execvAccesses_none ha
  have hnone := (headersAccesses_eq _ _ h2).2
  have hseg : ∀ j < (headerOf mem).ePhnum, (headerAt mem (headerOf mem).ePhoff j).pMemsz = 0 →
      (segmentAccesses j (headerAt mem (headerOf mem).ePhoff j)).1 = [] := fun j hj =>
    (segmentAccesses_none (hnone j (Nat.zero_le j) (by omega))).2.1
  constructor
  · intro hp
    rw [forall_accesses ha]
    have hhead : (Access.read 0 ElfHeader.bytes).Inside size ↔ ElfHeader.bytes ≤ size := by
      rw [← Nat.zero_add ElfHeader.bytes]
      exact wrapped_iff hs (by decide) (by decide)
    have hphoff : (headerOf mem).ePhoff < 2^32 := read32_lt _ _
    rw [hhead, headers_inside hs hphoff]
    have hsegs : (∀ j < (headerOf mem).ePhnum,
        ∀ a ∈ (segmentAccesses j (headerAt mem (headerOf mem).ePhoff j)).1, a.Inside size) ↔
        ∀ j < (headerOf mem).ePhnum, (headerAt mem (headerOf mem).ePhoff j).pMemsz ≠ 0 →
          (headerAt mem (headerOf mem).ePhoff j).pOffset + (headerAt mem (headerOf mem).ePhoff j).pMemsz ≤ size := by
      refine forall_congr' fun j => forall_congr' fun hj => ?_
      by_cases h0 : (headerAt mem (headerOf mem).ePhoff j).pMemsz = 0
      · rw [hseg j hj h0]
        exact ⟨fun _ hne => absurd h0 hne, fun _ a hm => absurd hm List.not_mem_nil⟩
      · rw [plain_inside hs (hnone j (Nat.zero_le j) (by omega)) h0 (read32_lt _ _) ((hp j hj).resolve_left h0)]
        exact ⟨fun h _ => h, fun h => h h0⟩
    rw [hsegs]
    exact ⟨fun h => ⟨h.1, h.2.1, h.2.2⟩, fun h => ⟨h.header, h.table, h.segments⟩⟩
  · intro j hj hb
    by_cases h0 : (headerAt mem (headerOf mem).ePhoff j).pMemsz = 0
    · rw [hseg j hj h0]
      exact fun a hm => absurd hm List.not_mem_nil
    · have hmod : (headerAt mem (headerOf mem).ePhoff j).pVaddr % pageSize < pageSize := Nat.mod_lt _ (by decide)
      rw [segment_inPage (hnone j (Nat.zero_le j) (by omega)) h0, copied_bounded hb]
      omega

theorem smallProgram_accesses : (execvAccesses smallProgram.buffer).2 = none := by
  refine execvAccesses_none_iff.mpr ⟨by decide +kernel, fun j hj => ?_⟩
  have hnum : (headerOf smallProgram.buffer).ePhnum = 1 := by decide +kernel
  have e : j = 0 := by omega
  rw [e, segmentAccesses, if_neg (by decide +kernel), if_neg (by decide +kernel)]

theorem crossing_accesses : (execvAccesses crossing.buffer).2 = none := by
  refine execvAccesses_none_iff.mpr ⟨by decide +kernel, fun j hj => ?_⟩
  have hnum : (headerOf crossing.buffer).ePhnum = 1 := by decide +kernel
  have e : j = 0 := by omega
  rw [e, segmentAccesses, if_neg (by decide +kernel), if_neg (by decide +kernel)]

/-- a segment in one page is read inside the file; one that goes on in a second page, which is read behind the
file, is written inside both -/
theorem accesses_inside_small :
    ((∀ a ∈ (execvAccesses smallProgram.buffer).1, a.Inside 88) ↔ Encloses smallProgram.buffer 88) ∧
      ∀ a ∈ (segmentAccesses 0 (headerAt crossing.buffer 52 0)).1, a.InPage := by
  constructor
  · refine (accesses_inside_iff smallProgram.buffer 88 (by decide) smallProgram_accesses).1 fun j hj => ?_
    have hnum : (headerOf smallProgram.buffer).ePhnum = 1 := by decide +kernel
    have e : j = 0 := by omega
    rw [e]
    exact .inr (.inl (by decide +kernel))
  · have hoff : (headerOf crossing.buffer).ePhoff = 52 := by decide +kernel
    have hpages := (accesses_inside_iff crossing.buffer 92 (by decide) crossing_accesses).2 0 (by decide +kernel)
    rw [hoff] at hpages
    have hv : (headerAt crossing.buffer 52 0).pVaddr = 0x8048ffc := by decide +kernel
    have hm : (headerAt crossing.buffer 52 0).pMemsz = 8 := by decide +kernel
    refine hpages ?_
    rw [ProgramHeader.Bounded, hv, hm]
    decide

/-- the header of the small program, and nothing behind it -/
def truncated : Mem := fun i => if i < 52 then smallProgram.buffer i else 0

theorem truncated_accesses : (execvAccesses truncated).2 = none := by
  refine execvAccesses_none_iff.mpr ⟨by decide +kernel, fun j hj => ?_⟩
  have hnum : (headerOf truncated).ePhnum = 1 := by decide +kernel
  have e : j = 0 := by omega
  rw [e, segmentAccesses, if_neg (by decide +kernel), if_pos (by decide +kernel)]

/-- a file of 52 bytes gets through, though its program header lies behind it -/
theorem truncated_not_inside : ¬ ∀ (mem : Mem) (size : Nat), size < 2^32 → (execvAccesses mem).2 ≠ none ∨
    (∀ a ∈ (execvAccesses mem).1, a.Inside size) ∧ ∀ a ∈ (execvAccesses mem).1, a.InPage := by
  intro hall
  rcases hall truncated 52 (by decide) with hne | ⟨hin, -⟩
  · exact hne truncated_accesses
  · have hnum : 0 < (headerOf truncated).ePhnum := by decide +kernel
    have hread := ((forall_accesses truncated_accesses _).mp hin).2.1 0 hnum 0 (by decide)
    have hoff : (headerOf truncated).ePhoff = 52 := by decide +kernel
    rw [hoff] at hread
    exact absurd hread (by decide)

end

/-! ## the same file in `plan` -/

section
variable {f : File}

theorem nextPages_none_iff (vaddr src rest n : Nat) : (nextPages f vaddr src rest n).2 = none ↔
    pageSize * n + rest = 0 ∨ src + (pageSize * n + rest) ≤ f.length := by
  induction n generalizing src with
  | zero =>
    rw [nextPages, Nat.mul_zero, Nat.zero_add, File.slice]
    by_cases h0 : rest = 0
    · simp [h0]
    · by_cases hle : src + rest ≤ f.length <;> simp [h0, hle]
  | succ n ih =>
    rw [nextPages, File.slice, Nat.mul_succ]
    have hpos : 0 < pageSize := by decide
    by_cases hle : src + pageSize ≤ f.length
    · rw [if_pos hle]
      dsimp only
      rw [Plan.andThen_none_iff, ih]
      simp only [true_and]
      omega
    · rw [if_neg hle]
      simp only [reduceCtorEq, false_iff]
      omega

/-- a header that is let through, with everything copied from the image to the page -/
theorem segment_none_iff (hs : f.length < 2^32) {j : Nat} {h : ProgramHeader} (hoff : h.pOffset < 2^32) :
    (segment f j h).2 = none ↔ (segmentAccesses j h).2 = none ∧
      (∀ a ∈ (segmentAccesses j h).1, a.Inside f.length) ∧ ∀ a ∈ (segmentAccesses j h).1, a.InPage := by
  by_cases h1 : h.pFilesz ≠ h.pMemsz
  · rw [segment, segmentAccesses, if_pos h1, if_pos h1]
    simp
  by_cases h0 : h.pMemsz = 0
  · rw [segment, segmentAccesses, if_neg h1, if_neg h1, if_pos h0, if_pos h0]
    simp
  have hn : (segmentAccesses j h).2 = none := by rw [segmentAccesses, if_neg h1, if_neg h0]
  rw [segment_inside hs hn h0 hoff, segment_inPage hn h0, segment, if_neg h1, if_neg h0]
  have hcopied : (if wrap32 (h.pMemsz + h.pVaddr % pageSize) < pageSize then h.pMemsz
      else pageSize - h.pVaddr % pageSize) = h.copied := rfl
  dsimp only
  rw [hcopied]
  by_cases hle : h.pOffset + h.copied ≤ f.length
  · rw [File.slice, if_pos hle]
    dsimp only
    by_cases hpage : h.pVaddr % pageSize + h.copied ≤ pageSize
    · rw [if_neg (Nat.not_lt.mpr hpage), Plan.andThen_none_iff, nextPages_none_iff, Nat.div_add_mod]
      have e : h.pMemsz - h.copied = 0 ↔ h.pMemsz ≤ h.copied := Nat.sub_eq_zero_iff_le
      rw [e]
      exact ⟨fun hx => ⟨hn, ⟨hle, hx.2⟩, hpage⟩, fun hx => ⟨rfl, hx.2.1.2⟩⟩
    · rw [if_pos (Nat.not_le.mp hpage)]
      exact ⟨fun hx => (by cases hx), fun hx => absurd hx.2.2 hpage⟩
  · rw [File.slice, if_neg hle]
    exact ⟨fun hx => (by cases hx), fun hx => absurd hx.2.1.1 hle⟩

theorem segments_none_iff (i n : Nat) : (segments f i n).2 = none ↔ ∀ j, i ≤ j → j < i + n →
    f.header.ePhoff + ProgramHeader.bytes * (j + 1) ≤ f.length ∧ (segment f j (f.phentry j)).2 = none := by
  induction n generalizing i with
  | zero => exact ⟨fun _ j h1 h2 => by omega, fun _ => rfl⟩
  | succ n ih =>
    rw [segments]
    by_cases hlt : f.length < f.header.ePhoff + ProgramHeader.bytes * (i + 1)
    · rw [if_pos hlt]
      exact ⟨fun hx => (by cases hx), fun hx => absurd (hx i (Nat.le_refl i) (by omega)).1 (Nat.not_le.mpr hlt)⟩
    · rw [if_neg hlt, Plan.andThen_none_iff, ih]
      constructor
      · rintro ⟨h1, h2⟩ j hj hjn
        by_cases e : j = i
        · rw [e]
          exact ⟨Nat.not_lt.mp hlt, h1⟩
        · exact h2 j (by omega) (by omega)
      · intro h
        exact ⟨(h i (Nat.le_refl i) (by omega)).2, fun j hj hjn => h j (by omega) (by omega)⟩

/-- the memory from the buffer on begins with the file -/
def File.At (f : File) (mem : Mem) : Prop := ∀ i < f.length, mem i = f.buffer i

section
variable {mem : Mem} (hs : f.length < 2^32) (hm : f.At mem)
include hs hm

theorem around_file {i : Nat} (hi : i < f.length) : around mem i = f.buffer i := by
  show mem (wrap32 i) = _
  rw [wrap32_of_lt (by omega)]
  exact hm i hi

theorem headerOf_file (hlen : ElfHeader.bytes ≤ f.length) : headerOf mem = f.header := by
  have hb : ∀ i < 52, around mem i = f.buffer i := fun i hi => around_file hs hm (Nat.lt_of_lt_of_le hi hlen)
  have h16 : ∀ a, a + 1 < 52 → read16 (around mem) a = read16 f.buffer a := by
    intro a ha
    unfold read16
    rw [hb a (by omega), hb (a + 1) ha]
  have h32 : ∀ a, a + 3 < 52 → read32 (around mem) a = read32 f.buffer a := fun a ha =>
    read32_congr fun x _ hx => hb x (by omega)
  unfold headerOf ElfHeader.ofBuffer File.header
  rw [h32 0 (by omega), hb 4 (by omega), hb 5 (by omega), hb 6 (by omega), hb 7 (by omega), hb 8 (by omega),
    h16 16 (by omega), h16 18 (by omega), h32 20 (by omega), h32 24 (by omega), h32 28 (by omega), h16 44 (by omega)]

theorem headerAt_file {table j : Nat} (hlen : table + ProgramHeader.bytes * (j + 1) ≤ f.length) :
    headerAt mem table j = f.programHeader table j := by
  have hb : ProgramHeader.bytes = 32 := rfl
  have h32 : ∀ a, table + ProgramHeader.bytes * j ≤ a → a + 3 < table + ProgramHeader.bytes * (j + 1) →
      read32 (around mem) a = read32 f.buffer a := fun a _ ha =>
    read32_congr fun x _ hx => around_file hs hm (by omega)
  unfold headerAt ProgramHeader.ofBuffer File.programHeader
  rw [hb] at h32 ⊢
  rw [h32 _ (by omega) (by omega), h32 _ (by omega) (by omega), h32 _ (by omega) (by omega),
    h32 _ (by omega) (by omega)]

/-- **The files that get through in `plan` are those that get through with all accesses in bounds.** -/
theorem accepted_iff_accesses : Accepted f ↔ (execvAccesses mem).2 = none ∧
    ∀ a ∈ (execvAccesses mem).1, a.Inside f.length ∧ a.InPage := by
  have hb : ProgramHeader.bytes = 32 := rfl
  have hhead : (Access.read 0 ElfHeader.bytes).Inside f.length ↔ ElfHeader.bytes ≤ f.length := by
    rw [← Nat.zero_add ElfHeader.bytes]
    exact wrapped_iff hs (by decide) (by decide)
  have hphoff : (headerOf mem).ePhoff < 2^32 := read32_lt _ _
  rw [accepted_iff]
  constructor
  · rintro ⟨hlen, hvalid, hsegs⟩
    have hheader := headerOf_file hs hm hlen
    have hall := (segments_none_iff 0 _).mp hsegs
    rw [← hheader] at hvalid hall
    have hseg : ∀ j < (headerOf mem).ePhnum, _ := fun j hj => by
      obtain ⟨hin, hnone⟩ := hall j (Nat.zero_le j) (by omega)
      rw [File.phentry, ← hheader, ← headerAt_file hs hm hin] at hnone
      exact (segment_none_iff hs (read32_lt _ _)).mp hnone
    have ha : (execvAccesses mem).2 = none :=
      execvAccesses_none_iff.mpr ⟨hvalid, fun j hj => (hseg j hj).1⟩
    refine ⟨ha, (forall_accesses ha _).mpr ⟨⟨hhead.mpr hlen, trivial⟩, fun j hj => ⟨?_, trivial⟩, fun j hj a hmem =>
      ⟨(hseg j hj).2.1 a hmem, (hseg j hj).2.2 a hmem⟩⟩⟩
    refine (headers_inside hs hphoff).mpr (.inr ?_) j hj
    have hlast := (hall ((headerOf mem).ePhnum - 1) (Nat.zero_le _) (by omega)).1
    rwa [Nat.sub_add_cancel (by omega)] at hlast
  · rintro ⟨ha, hin⟩
    obtain ⟨hvalid, hnone⟩ := execvAccesses_none_iff.mp ha
    obtain ⟨h1, h2, h3⟩ := (forall_accesses ha _).mp hin
    have hlen := hhead.mp h1.1
    have hheader := headerOf_file hs hm hlen
    have htable := (headers_inside hs hphoff).mp fun j hj => (h2 j hj).1
    refine ⟨hlen, hheader ▸ hvalid, (segments_none_iff 0 _).mpr fun j _ hj => ?_⟩
    rw [← hheader] at hj ⊢
    have hend : (headerOf mem).ePhoff + ProgramHeader.bytes * (j + 1) ≤ f.length := by
      rw [hb] at htable ⊢
      omega
    refine ⟨hend, ?_⟩
    rw [File.phentry, ← hheader, ← headerAt_file hs hm hend]
    exact (segment_none_iff hs (read32_lt _ _)).mpr ⟨hnone j (by omega), fun a hmem => (h3 j (by omega) a hmem).1,
      fun a hmem => (h3 j (by omega) a hmem).2⟩

end

end

end StarOS
