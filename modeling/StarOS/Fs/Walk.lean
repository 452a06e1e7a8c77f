import StarOS.Fs.Leftover

/-!
# Paths through a directory tree (`get_dir_entry`)

`Node.walk` goes through a path, one directory for each component.

* `Node.Leads c n`    in the directory `n` the search for `c` does not stray, whatever the name buffer held;
* `Node.Barren n`     in the directory `n` and below it no file is found, whatever is searched for;
* `locate_leads`      one call in a directory that leads on, and `locate_of_through` along a path of them;
* `Echo`              where the name buffer happens to hold the component that is searched for;
* `exists_descent`    below any other directory there is a path on which the search does not panic;
* `answers_iff`       **when `get_dir_entry` answers for a path**: it goes through directories that lead on, and
                      ends at no directory, unless no file is found there.
-/

namespace StarOS
open Lib

/-! ## paths -/

/-- the components with slashes between them -/
def pathBytes : List Component → List UInt8
  | [] => []
  | [c] => c.bytes
  | c :: c' :: cs => c.bytes ++ 0x2f :: pathBytes (c' :: cs)

/-- the memory at `p` begins with the bytes `l` -/
def HoldsBytes (p : Mem) (l : List UInt8) : Prop := ∀ i < l.length, p i = l.getD i 0

theorem holds_left {p : Mem} {l l' : List UInt8} (h : HoldsBytes p (l ++ l')) : HoldsBytes p l := by
  intro i hi
  rw [h i (by rw [List.length_append]; omega), List.getD_append _ _ _ _ hi]

theorem holds_before {p : Mem} {l l' : List UInt8} {b : UInt8} (h : HoldsBytes p (l ++ b :: l')) :
    ∀ i < l.length, p i = l.getD i 0 := holds_left h

theorem holds_at {p : Mem} {l l' : List UInt8} {b : UInt8} (h : HoldsBytes p (l ++ b :: l')) :
    p l.length = b := by
  have hlt : l.length < (l ++ b :: l').length := by
    rw [List.length_append, List.length_cons]
    omega
  rw [h _ hlt, List.getD_append_right _ _ _ _ (Nat.le_refl _), Nat.sub_self]
  rfl

theorem holds_behind {p : Mem} {l l' : List UInt8} {b : UInt8} (h : HoldsBytes p (l ++ b :: l')) :
    HoldsBytes (advance p (l.length + 1)) l' := by
  intro i hi
  have hlen : (l ++ b :: l').length = l.length + (l'.length + 1) := List.length_append
  have e : l.length + 1 + i - l.length = i + 1 := by omega
  show p (l.length + 1 + i) = _
  rw [h _ (by omega), List.getD_append_right _ _ _ _ (by omega), e]
  rfl

theorem holds_heads {p : Mem} {c l : List UInt8} {b : UInt8} (hc : ∀ b ∈ c, b ≠ 0 ∧ b ≠ 0x2f)
    (hb : b = 0 ∨ b = 0x2f) (h : HoldsBytes p (c ++ b :: l)) : Heads c p :=
  ⟨hc, fun i _ hi => holds_before h i hi, fun _ => hb.imp (holds_at h).trans (holds_at h).trans⟩

/-- the bytes of a path and, if anything follows, what follows them: a slash, or the null byte -/
theorem holds_path {p : Mem} {c : Component} {cs : List Component} {l : List UInt8}
    (h : HoldsBytes p (pathBytes (c :: cs) ++ 0 :: l)) :
    c.Begins p ∧ (∀ c' cs', cs = c' :: cs' → p c.bytes.length = 0x2f ∧
      HoldsBytes (advance p (c.bytes.length + 1)) (pathBytes cs ++ 0 :: l)) := by
  cases cs with
  | nil =>
    refine ⟨⟨holds_before h, .inl (holds_at h)⟩, fun c' cs' he => ?_⟩
    cases he
  | cons c' cs =>
    have h' : HoldsBytes p (c.bytes ++ 0x2f :: (pathBytes (c' :: cs) ++ 0 :: l)) := by
      rw [pathBytes, List.append_assoc] at h
      exact h
    exact ⟨⟨holds_before h', .inr (holds_at h')⟩, fun _ _ _ => ⟨holds_at h', holds_behind h'⟩⟩

/-- the part and the rest of a path, the part being cleared before -/
def partOf (filename : Mem) : Mem := (splitPart filename maxFilenameSize 0 (fun _ => 0)).1

def restOf (filename : Mem) : Mem := (splitPart filename maxFilenameSize 0 (fun _ => 0)).2

/-- what is left of a path has nothing to do with what the part held -/
theorem splitPart_rest (f : Mem) (n i : Nat) (part part' : Mem) :
    (splitPart f n i part).2 = (splitPart f n i part').2 := by
  induction n generalizing i part part' with
  | zero => rfl
  | succ n ih =>
    rw [splitPart, splitPart]
    by_cases h : f i = 0x2f
    · rw [if_pos h, if_pos h]
    · rw [if_neg h, if_neg h]
      exact ih _ _ _

/-- the path goes on behind its first slash -/
theorem rest_slash {p : Mem} {c l : List UInt8} (hc : ∀ b ∈ c, b ≠ 0x2f) (h : HoldsBytes p (c ++ 0x2f :: l))
    (hlen : c.length < 256) : HoldsBytes (restOf p) l := by
  have hne : ∀ y < c.length, p y ≠ 0x2f := by
    intro y hy
    rw [holds_before h y hy, List.getD_eq_getElem _ _ hy]
    exact hc _ (List.getElem_mem hy)
  rw [restOf, (splitPart_slash hne (holds_at h) _ (Nat.zero_le _) (by unfold maxFilenameSize; omega)).2]
  exact holds_behind h

theorem rest_path {p : Mem} {c c' : Component} {cs : List Component} {l : List UInt8}
    (h : HoldsBytes p (pathBytes (c :: c' :: cs) ++ 0 :: l)) (hlen : c.bytes.length < 256) :
    HoldsBytes (restOf p) (pathBytes (c' :: cs) ++ 0 :: l) := by
  rw [pathBytes, List.append_assoc] at h
  exact rest_slash (fun b hb => (c.clean b hb).2) h hlen

/-- a slash behind the null byte ends the path as well -/
theorem rest_behind {p : Mem} {c : Component} {l : List UInt8}
    (h : HoldsBytes p (pathBytes [c] ++ 0 :: 0x2f :: l)) (hlen : c.bytes.length ≤ 195) : HoldsBytes (restOf p) l := by
  have h' : HoldsBytes p ((c.bytes ++ [0]) ++ 0x2f :: l) := by
    rw [List.append_assoc]
    exact h
  refine rest_slash (fun b hb => ?_) h' (by rw [List.length_append, List.length_singleton]; omega)
  rcases List.mem_append.mp hb with hb | hb
  · exact (c.clean b hb).2
  · rw [List.mem_singleton.mp hb]
    decide

/-! ## along directories that lead on -/

/-- whatever the name buffer held, the search for this part of a path goes right in this directory -/
def Node.Leads (c : List UInt8) : Node → Prop
  | .file _ _ => False
  | .directory _ dots parts => dots = false ∧ ∀ name, ¬ Strayed c parts name

/-- in the directory and below it no file is found, whatever is searched for -/
inductive Node.Barren : Node → Prop where
  | directory {cluster : Nat} {dots : Bool} {parts : List (Part Node)}
      (hl : ∀ c, (∀ b ∈ c, b ≠ 0 ∧ b ≠ 0x2f) → (Node.directory cluster dots parts).Leads c)
      (h : ∀ c n, child c parts = some n → n.Barren) : Barren (.directory cluster dots parts)

/-- the path goes through directories that lead on and does not end at a directory, unless no file is found
there -/
structure Node.Through (n : Node) (cs : List Component) : Prop where
  leads : ∀ pre c rest n', cs = pre ++ c :: rest → n.walk pre = some n' → n'.Leads c.bytes
  ends : ∀ n', n.walk cs = some n' → n'.IsFile ∨ n'.Barren

section
variable {m : Medium} {pbr : Pbr} {L : Short → Prop}
open Node

theorem walk_cons (cluster : Nat) (dots : Bool) (parts : List (Part Node)) (c : Component) (cs : List Component) :
    walk (c :: cs) (.directory cluster dots parts) = (child c.bytes parts).bind (walk cs) := rfl

theorem on_child {cluster : Nat} {dots : Bool} {parts : List (Part Node)} {name : LongName} {n : Node}
    (h : Node.On m pbr L (.directory cluster dots parts)) (hmem : .child name n ∈ parts) : n.On m pbr L := by
  cases h with
  | directory _ _ _ hch => exact hch _ _ hmem

theorem walk_on {n n' : Node} (h : n.On m pbr L) {cs : List Component} (hw : n.walk cs = some n') :
    n'.On m pbr L := by
  induction cs generalizing n with
  | nil =>
    cases hw
    exact h
  | cons c cs ih =>
    cases n with
    | file => cases hw
    | directory cluster dots parts =>
      obtain ⟨x, hx, hw⟩ := Option.bind_eq_some_iff.mp hw
      obtain ⟨name, -, hmem⟩ := child_mem hx
      exact ih (on_child h hmem) hw

section
variable {cluster : Nat} {dots : Bool} {parts : List (Part Node)} {c : Component} {cs : List Component}

theorem through_leads (h : (Node.directory cluster dots parts).Through (c :: cs)) :
    (Node.directory cluster dots parts).Leads c.bytes := h.leads [] c cs _ rfl rfl

theorem through_child {n : Node} (h : (Node.directory cluster dots parts).Through (c :: cs))
    (hn : child c.bytes parts = some n) : n.Through cs := by
  constructor
  · intro pre c' rest n' he hw
    refine h.leads (c :: pre) c' rest n' (by rw [he, List.cons_append]) ?_
    rw [walk_cons, hn]
    exact hw
  · intro n' hw
    refine h.ends n' ?_
    rw [walk_cons, hn]
    exact hw

theorem walk_none (h : child c.bytes parts = none) : (Node.directory cluster dots parts).walk (c :: cs) = none := by
  rw [walk_cons, h]
  rfl

theorem through_of_child (hl : (Node.directory cluster dots parts).Leads c.bytes)
    (h : ∀ n, child c.bytes parts = some n → n.Through cs) : (Node.directory cluster dots parts).Through (c :: cs) := by
  have hw : ∀ pre n', walk (c :: pre) (.directory cluster dots parts) = some n' →
      ∃ n, child c.bytes parts = some n ∧ n.walk pre = some n' := fun pre n' hw => Option.bind_eq_some_iff.mp hw
  constructor
  · intro pre c' rest n' he hpre
    cases pre with
    | nil =>
      cases hpre
      rw [List.nil_append, List.cons.injEq] at he
      exact he.1 ▸ hl
    | cons c'' pre =>
      rw [List.cons_append, List.cons.injEq] at he
      rw [← he.1] at hpre
      obtain ⟨n, hn, hn'⟩ := hw pre n' hpre
      exact (h n hn).leads pre c' rest n' he.2 hn'
  · intro n' hcs
    obtain ⟨n, hn, hn'⟩ := hw cs n' hcs
    exact (h n hn).ends n' hn'

/-- a path that does not go through goes on from a child -/
theorem not_through_child (hl : (Node.directory cluster dots parts).Leads c.bytes)
    (h : ¬ (Node.directory cluster dots parts).Through (c :: cs)) :
    ∃ n, child c.bytes parts = some n ∧ ¬ n.Through cs := by
  by_contra hno
  exact h (through_of_child hl fun n hn => not_not.mp fun hne => hno ⟨n, hn, hne⟩)

end

theorem through_nil {n : Node} (h : n.IsFile ∨ n.Barren) : n.Through [] := by
  constructor
  · intro pre c rest n' he _
    exact absurd (List.append_eq_nil_iff.mp he.symm).2 (List.cons_ne_nil _ _)
  · intro n' hw
    cases hw
    exact h

/-- one call in a directory that leads on -/
theorem locate_leads (hm : ∀ k, m.fails k = false) {cluster : Nat} {dots : Bool} {parts : List (Part Node)}
    (hon : Node.On m pbr L (.directory cluster dots parts)) {c : List UInt8}
    (hl : (Node.directory cluster dots parts).Leads c) {filename : Mem} (hb : Heads c filename) (locals : Locals)
    (k fuel : Nat) :
    (child c parts = none → ∃ part, locateFileDirent m locals pbr (fuel + 1) k cluster filename
      = some (.error (.fileNotFound part))) ∧
    (∀ cl size, child c parts = some (.file cl size) → ∃ name reads,
      locateFileDirent m locals pbr (fuel + 1) k cluster filename = some (.ok (⟨name, cl, size⟩, reads))) ∧
    ∀ cl dots' parts', child c parts = some (.directory cl dots' parts') →
      locateFileDirent m locals pbr (fuel + 1) k cluster filename
        = locateFileDirent m locals pbr fuel (k + 1) cl (restOf filename) := by
  obtain ⟨rfl, hs⟩ := hl
  obtain ⟨hnone, hfile, hdir⟩ := scan_straight hm hon hb.ne_zero (hs (locals.name k))
    (hb.spells (locals.currentPartFilename k)) k (locals.buffer k)
  refine ⟨fun hc => ?_, fun cl size hc => ?_, fun cl dots' parts' hc => ?_⟩
  · obtain ⟨part, hscan⟩ := hnone hc
    exact ⟨part, locate_error fuel hscan⟩
  · obtain ⟨name, hscan⟩ := hfile cl size hc
    exact ⟨name, _, locate_file fuel hscan⟩
  · rw [locate_directory fuel (hdir cl dots' parts' hc), splitPart_rest _ _ _ _ (fun _ => 0)]
    rfl

/-- where no file is found the search panics, whatever the path is -/
theorem locate_barren (hm : ∀ k, m.fails k = false) (locals : Locals) {n : Node} (hb : n.Barren) (hon : n.On m pbr L)
    (k : Nat) (filename : Mem) : ∃ fuel part, locateFileDirent m locals pbr fuel k n.firstCluster filename
      = some (.error (.fileNotFound part)) := by
  induction hb generalizing k filename with
  | @directory cluster dots parts hl h ih =>
    obtain ⟨c, hc⟩ := exists_heads filename
    have hcall := locate_leads hm hon (hl c hc.clean) hc locals k
    cases hch : child c parts with
    | none => exact ⟨1, (hcall 0).1 hch⟩
    | some n =>
      cases n with
      | file => cases h c _ hch
      | directory cl dots' parts' =>
        obtain ⟨name, -, hmem⟩ := child_mem hch
        obtain ⟨fuel, part, hr⟩ := ih c _ hch (on_child hon hmem) (k + 1) (restOf filename)
        exact ⟨fuel + 1, part, ((hcall fuel).2.2 cl dots' parts' hch).trans hr⟩

theorem locate_of_through (hm : ∀ k, m.fails k = false) (locals : Locals) (cs : List Component) (c : Component)
    {cluster : Nat} {dots : Bool} {parts : List (Part Node)}
    (hon : Node.On m pbr L (.directory cluster dots parts))
    (ht : (Node.directory cluster dots parts).Through (c :: cs)) (k : Nat) {filename : Mem} {l : List UInt8}
    (hf : HoldsBytes filename (pathBytes (c :: cs) ++ 0 :: l)) :
    (∀ cl size, (Node.directory cluster dots parts).walk (c :: cs) = some (.file cl size) →
      ∃ name reads, locateFileDirent m locals pbr (cs.length + 1) k cluster filename
        = some (.ok (⟨name, cl, size⟩, reads))) ∧
    ((∀ cl size, (Node.directory cluster dots parts).walk (c :: cs) ≠ some (.file cl size)) →
      ∃ fuel part, locateFileDirent m locals pbr fuel k cluster filename
        = some (.error (.fileNotFound part))) := by
  induction cs generalizing c cluster dots parts k filename with
  | nil =>
    have hcall := locate_leads hm hon (through_leads ht) (holds_path hf).1.heads locals k
    rw [walk_cons]
    cases hch : child c.bytes parts with
    | none => exact ⟨fun cl size hw => (by cases hw), fun _ => ⟨1, (hcall 0).1 hch⟩⟩
    | some n =>
      cases n with
      | file cl size =>
        refine ⟨fun cl' size' hw => ?_, fun hw => absurd rfl (hw cl size)⟩
        cases hw
        exact (hcall 0).2.1 cl size hch
      | directory cl dots' parts' =>
        refine ⟨fun cl' size' hw => (by cases hw), fun _ => ?_⟩
        have hbarren := ((through_child ht hch).ends _ rfl).resolve_left id
        obtain ⟨name, -, hmem⟩ := child_mem hch
        obtain ⟨fuel, part, hr⟩ := locate_barren hm locals hbarren (on_child hon hmem) (k + 1) (restOf filename)
        exact ⟨fuel + 1, part, ((hcall fuel).2.2 cl dots' parts' hch).trans hr⟩
  | cons c' cs ih =>
    have hcall := locate_leads hm hon (through_leads ht) (holds_path hf).1.heads locals k
    rw [walk_cons]
    cases hch : child c.bytes parts with
    | none => exact ⟨fun cl size hw => (by cases hw), fun _ => ⟨1, (hcall 0).1 hch⟩⟩
    | some n =>
      have ht' := through_child ht hch
      cases n with
      | file => exact absurd (ht'.leads [] _ _ _ rfl rfl) id
      | directory cl dots' parts' =>
        obtain ⟨name, -, hmem⟩ := child_mem hch
        have hnext := fun fuel => (hcall fuel).2.2 cl dots' parts' hch
        obtain ⟨hfile, hmissing⟩ := ih c' (on_child hon hmem) ht' (k + 1) (rest_path hf (child_length hch))
        refine ⟨fun cl' size hw => ?_, fun hw => ?_⟩
        · rw [List.length_cons, hnext]
          exact hfile cl' size hw
        · obtain ⟨fuel, part, hr⟩ := hmissing hw
          exact ⟨fuel + 1, part, (hnext fuel).trans hr⟩

end

/-! ## a name buffer that holds what is searched for -/

/-- from read `k` on, the name buffer holds the part of the path that is searched for -/
def Echo (locals : Locals) (k : Nat) (filename : Mem) : Prop :=
  ∀ i, locals.currentPartFilename (k + i) = (fun _ => 0) ∧ locals.name (k + i) = partOf (restOf^[i] filename)

theorem exists_echo (k : Nat) (filename : Mem) : ∃ locals, Echo locals k filename := by
  refine ⟨⟨fun _ _ => 0, fun j => partOf (restOf^[j - k] filename), fun _ _ => 0⟩, fun i => ⟨rfl, ?_⟩⟩
  show partOf (restOf^[k + i - k] filename) = _
  rw [Nat.add_sub_cancel_left]

namespace Echo
variable {locals : Locals} {k : Nat} {filename : Mem}

theorem part (h : Echo locals k filename) : locals.currentPartFilename k = fun _ => 0 := (h 0).1

theorem name (h : Echo locals k filename) : locals.name k = partOf filename := (h 0).2

theorem next (h : Echo locals k filename) : Echo locals (k + 1) (restOf filename) := by
  intro i
  have e : k + 1 + i = k + (i + 1) := by omega
  rw [e]
  exact h (i + 1)

end Echo

theorem strcmp_partOf (filename : Mem) :
    strcmp (maxFilenameSize + 1) (partOf filename) (partOf filename) = some 0 := by
  have hend : partOf filename maxFilenameSize = 0 := splitPart_outside (.inr (Nat.le_of_eq (Nat.zero_add _))) _
  have hex : ∃ i, partOf filename i = 0 := ⟨_, hend⟩
  have hle : Nat.find hex ≤ maxFilenameSize := Nat.find_min' hex hend
  exact strcmp_same (i := Nat.find hex) (by omega) (fun j hj => Nat.find_min hex hj) (fun _ _ => rfl)
    (Nat.find_spec hex)

/-- an entry that is compared before anything is stored is taken -/
theorem settle_echo (filename : Mem) (s : Short) (ps : List Probe) :
    settle (partOf filename) (.compare s (partOf filename) :: ps) = if s.IsDirectory
      then .ok (.directory s.firstClusterNumber) else .ok (.file ⟨partOf filename, s.firstClusterNumber, s.size⟩) :=
  settle_equal (strcmp_partOf filename) s ps

section
variable {m : Medium} {pbr : Pbr} {L : Short → Prop} {locals : Locals} {k : Nat} {filename : Mem}
open Node

/-- the search goes through the entry `.` for ever -/
theorem echo_dots {cluster : Nat} {parts : List (Part Node)} (hm : ∀ k, m.fails k = false)
    (h : Node.On m pbr L (.directory cluster true parts)) (he : Echo locals k filename) (fuel : Nat) :
    locateFileDirent m locals pbr fuel k cluster filename = none := by
  induction fuel generalizing k filename with
  | zero => rfl
  | succ fuel ih =>
    have hscan : scanTable (splitPart filename maxFilenameSize 0 (locals.currentPartFilename k)).1
        (readCluster m k cluster pbr (locals.buffer k)) (512 / 32) 0 (locals.name k)
        = .ok (.directory cluster) := by
      cases h with
      | directory hs hc _ _ =>
        cases hc with
        | @dots _ items s s' hs1 hs2 hg =>
          rw [scan_items hm hs, he.part, he.name, List.flatMap_cons]
          refine (settle_echo filename s _).trans ?_
          rw [if_pos hs1.1, hs1.2]
    rw [locate_directory fuel hscan, he.part]
    exact ih he.next

/-- where the search strays, it does so in the echo -/
theorem echo_strayed {c : List UInt8} {parts : List (Part Node)} (hb : Heads c filename) (he : Echo locals k filename)
    {name : Mem} (hs : Strayed c parts name) : Strayed c parts (locals.name k) := by
  rw [he.name]
  exact strayed_of_agree hs fun i hi hle _ => hb.spells (fun _ => 0) i hi hle

end

/-! ## when the path is not answered -/

/-- the search neither panics nor returns the file that the path leads to -/
def Misses (r : Option (Except Fatal (DirEntry × Nat))) (goal : Option Node) : Prop :=
  (∀ part, r ≠ some (.error (.fileNotFound part))) ∧
  ∀ cl size e reads, goal = some (.file cl size) → r = some (.ok (e, reads)) →
    ¬ (e.firstClusterNumber = cl ∧ e.size = size)

section
variable {r : Option (Except Fatal (DirEntry × Nat))} {goal : Option Node}

theorem misses_none (h : r = none) : Misses r goal := by
  rw [h]
  exact ⟨fun part he => (by cases he), fun cl size e reads _ he => by cases he⟩

theorem misses_outOfBounds (h : r = some (.error .outOfBounds)) : Misses r goal := by
  rw [h]
  exact ⟨fun part he => (by cases he), fun cl size e reads _ he => by cases he⟩

theorem misses_file {e : DirEntry} {reads : Nat} (h : r = some (.ok (e, reads)))
    (hne : ∀ cl size, goal = some (.file cl size) → ¬ (e.firstClusterNumber = cl ∧ e.size = size)) :
    Misses r goal := by
  rw [h]
  refine ⟨fun part he => (by cases he), fun cl size e' reads' hg he => ?_⟩
  cases he
  exact hne cl size hg

theorem misses_directory {n : Node} (hn : ¬ n.IsFile) (h : Misses r none) : Misses r (some n) := by
  refine ⟨h.1, fun cl size e reads hg _ => ?_⟩
  cases hg
  exact absurd trivial hn

end

section
variable {m : Medium} {pbr : Pbr} {s0 : Short} {locals : Locals} {k : Nat} {filename : Mem} {c : List UInt8}
open Node

/-- an entry without a name that is a regular file is taken where the search strays -/
theorem locate_strayed (hm : ∀ k, m.fails k = false) {cluster : Nat} {parts : List (Part Node)}
    (hon : Node.On m pbr (· = s0) (.directory cluster false parts)) (hs0 : ¬ s0.IsDirectory)
    (hb : Heads c filename) (he : Echo locals k filename) {name : Mem} (hs : Strayed c parts name)
    {goal : Option Node} (hgoal : child c parts = none → goal = none)
    (hwrong : ∀ cl size, goal = some (.file cl size) → ¬ (s0.firstClusterNumber = cl ∧ s0.size = size))
    (fuel : Nat) : Misses (locateFileDirent m locals pbr fuel k cluster filename) goal := by
  cases fuel with
  | zero => exact misses_none rfl
  | succ fuel =>
    have hlast : (splitPart filename maxFilenameSize 0 (locals.currentPartFilename k)).1 256 = locals.name k 256 := by
      rw [he.part, he.name]
      rfl
    rcases scan_strayed hm hon hb.ne_zero (echo_strayed hb he hs) (hb.spells _) hlast k (locals.buffer k)
      with hscan | ⟨s, name', hL, hscan⟩
    · exact misses_outOfBounds (locate_error fuel hscan)
    · rcases hL with rfl | ⟨rfl, hnone⟩
      · rw [if_neg hs0] at hscan
        exact misses_file (locate_file fuel hscan) hwrong
      · rw [if_neg (by decide)] at hscan
        refine misses_file (locate_file fuel hscan) fun cl size hg => ?_
        rw [hgoal hnone] at hg
        cases hg

theorem locate_not_leads (hm : ∀ k, m.fails k = false) {cluster : Nat} {dots : Bool} {parts : List (Part Node)}
    (hon : Node.On m pbr (· = s0) (.directory cluster dots parts)) (hs0 : ¬ s0.IsDirectory)
    (hl : ¬ (Node.directory cluster dots parts).Leads c) (hb : Heads c filename) (he : Echo locals k filename)
    {goal : Option Node} (hgoal : child c parts = none → goal = none)
    (hwrong : ∀ cl size, goal = some (.file cl size) → ¬ (s0.firstClusterNumber = cl ∧ s0.size = size))
    (fuel : Nat) : Misses (locateFileDirent m locals pbr fuel k cluster filename) goal := by
  cases dots with
  | true => exact misses_none (echo_dots hm hon he fuel)
  | false =>
    obtain ⟨name, hs⟩ : ∃ name, Strayed c parts name := by
      by_contra hno
      exact hl ⟨rfl, fun name hs => hno ⟨name, hs⟩⟩
    exact locate_strayed hm hon hs0 hb he hs hgoal hwrong fuel

/-- the search from a node on does not panic, if the path begins with the bytes `l` and the name buffer holds
what is searched for -/
def Misleads (m : Medium) (pbr : Pbr) (n : Node) (l : List UInt8) : Prop :=
  ∀ {locals : Locals} {k : Nat} {filename : Mem}, HoldsBytes filename l → Echo locals k filename →
    ∀ fuel, Misses (locateFileDirent m locals pbr fuel k n.firstCluster filename) none

/-- **If a file can be found below a directory, there is a path on which the search does not panic**: it leads
to a file, or to a directory in which it strays. -/
theorem exists_descent (hm : ∀ k, m.fails k = false) (hs0 : ¬ s0.IsDirectory) {n : Node}
    (h : n.On m pbr (· = s0)) (hd : ¬ n.IsFile) (hb : ¬ n.Barren) : ∃ l, Misleads m pbr n l := by
  induction h with
  | file => exact absurd trivial hd
  | @directory cluster dots parts items hs hc hdots hch ih =>
    have hon : Node.On m pbr (· = s0) (.directory cluster dots parts) := .directory hs hc hdots hch
    by_cases hl : ∀ c, (∀ b ∈ c, b ≠ 0 ∧ b ≠ 0x2f) → (Node.directory cluster dots parts).Leads c
    swap
    · obtain ⟨c, hl⟩ := not_forall.mp hl
      obtain ⟨hc, hl⟩ := Classical.not_imp.mp hl
      exact ⟨c ++ [0], fun hf he fuel => locate_not_leads hm hon hs0 hl (holds_heads hc (.inl rfl) hf) he
        (fun _ => rfl) (fun _ _ hg => by cases hg) fuel⟩
    obtain ⟨c, n, hn, hb⟩ : ∃ c n, child c parts = some n ∧ ¬ n.Barren := by
      by_contra hno
      exact hb (.directory hl fun c n hn => not_not.mp fun hb => hno ⟨c, n, hn, hb⟩)
    have hc := child_clean hon hn
    obtain ⟨name, -, hmem⟩ := child_mem hn
    cases n with
    | file cl size =>
      refine ⟨c ++ [0], fun {locals k filename} hf he fuel => ?_⟩
      cases fuel with
      | zero => exact misses_none rfl
      | succ fuel =>
        obtain ⟨-, hfile, -⟩ := locate_leads hm hon (hl c hc) (holds_heads hc (.inl rfl) hf) locals k fuel
        obtain ⟨name', reads, hfound⟩ := hfile cl size hn
        exact misses_file hfound fun _ _ hg => by cases hg
    | directory cl dots' parts' =>
      obtain ⟨l, hdesc⟩ := ih name _ hmem id hb
      refine ⟨c ++ 0x2f :: l, fun {locals k filename} hf he fuel => ?_⟩
      cases fuel with
      | zero => exact misses_none rfl
      | succ fuel =>
        obtain ⟨-, -, hdir⟩ := locate_leads hm hon (hl c hc) (holds_heads hc (.inr rfl) hf) locals k fuel
        show Misses (locateFileDirent m locals pbr (fuel + 1) k cluster filename) none
        rw [hdir cl dots' parts' hn]
        exact hdesc (rest_slash (fun b hb => (hc b hb).2) hf (child_length hn)) he.next fuel

/-- what does not go through directories that lead on, or ends where a file can be found, is not answered -/
theorem locate_not_through (hm : ∀ k, m.fails k = false) (hs0 : ¬ s0.IsDirectory) (cs : List Component) (c : Component)
    {k : Nat} {filename : Mem} {cluster : Nat} {dots : Bool} {parts : List (Part Node)}
    (hon : Node.On m pbr (· = s0) (.directory cluster dots parts))
    (ht : ¬ (Node.directory cluster dots parts).Through (c :: cs)) {l : List UInt8}
    (hl : ∀ n, (Node.directory cluster dots parts).walk (c :: cs) = some n →
      ¬ n.IsFile → ¬ n.Barren → Misleads m pbr n l)
    (hwrong : ∀ cl size, (Node.directory cluster dots parts).walk (c :: cs) = some (.file cl size) →
      ¬ (s0.firstClusterNumber = cl ∧ s0.size = size))
    (hf : HoldsBytes filename (pathBytes (c :: cs) ++ 0 :: 0x2f :: l)) (he : Echo locals k filename) (fuel : Nat) :
    Misses (locateFileDirent m locals pbr fuel k cluster filename)
      ((Node.directory cluster dots parts).walk (c :: cs)) := by
  by_cases hb : (Node.directory cluster dots parts).Leads c.bytes
  swap
  · exact locate_not_leads hm hon hs0 hb (holds_path hf).1.heads he walk_none hwrong fuel
  cases fuel with
  | zero => exact misses_none rfl
  | succ fuel =>
    obtain ⟨-, hfile, hdir⟩ := locate_leads hm hon hb (holds_path hf).1.heads locals k fuel
    obtain ⟨n, hn, hthrough⟩ := not_through_child hb ht
    rw [walk_cons, hn] at hl hwrong ⊢
    cases n with
    | file cl size =>
      cases cs with
      | nil =>
        have hfound : (Node.file cl size).IsFile := trivial
        exact absurd (through_nil (.inl hfound)) hthrough
      | cons c' cs =>
        -- the file is returned, whatever is left of the path
        obtain ⟨name, reads, hfound⟩ := hfile cl size hn
        exact misses_file hfound fun _ _ hg => by cases hg
    | directory cl dots' parts' =>
      obtain ⟨name, hname, hmem⟩ := child_mem hn
      rw [hdir cl dots' parts' hn]
      cases cs with
      | nil =>
        have hbarren := fun hb => hthrough (through_nil (.inr hb))
        exact misses_directory id (hl _ rfl id hbarren (rest_behind hf (hname ▸ name.le)) he.next fuel)
      | cons c' cs =>
        exact locate_not_through hm hs0 cs c' (on_child hon hmem) hthrough hl hwrong
          (rest_path hf (child_length hn)) he.next fuel

end

/-! ## the interface -/

/-- the disk holds the tree: all reads succeed and the root directory is in cluster 2; what is in the entries
without a name is left open -/
structure Node.OnDisk (root : Node) (m : Medium) : Prop where
  reads : ∀ k, m.fails k = false
  on : root.On m m.pbr fun _ => True

/-- a directory tree, and a disk that holds it -/
structure DirectoryTree where
  m : Medium
  dots : Bool
  parts : List (Part Node)
  held : (Node.directory 2 dots parts).OnDisk m

def DirectoryTree.root (t : DirectoryTree) : Node := .directory 2 t.dots t.parts

/-- on every disk that holds the tree `get_dir_entry` answers for a path with the entry of the file it leads
to, and panics if it leads to none, whatever is in the memory behind the path and in the uninitialised locals -/
structure DirectoryTree.Answers (t : DirectoryTree) (cs : List Component) : Prop where
  file : ∀ cl size, t.root.walk cs = some (.file cl size) → ∀ m, t.root.OnDisk m → ∀ locals k pathname,
    HoldsBytes pathname (0x2f :: (pathBytes cs ++ [0])) →
    ∃ fuel e reads, getDirEntry m locals fuel k pathname = some (.ok (e, reads)) ∧
      e.firstClusterNumber = cl ∧ e.size = size
  missing : (∀ cl size, t.root.walk cs ≠ some (.file cl size)) → ∀ m, t.root.OnDisk m → ∀ locals k pathname,
    HoldsBytes pathname (0x2f :: (pathBytes cs ++ [0])) →
    ∃ fuel part, getDirEntry m locals fuel k pathname = some (.error (.fileNotFound part))

theorem loadPbr_reads {m : Medium} (hm : ∀ k, m.fails k = false) (locals : Locals) (k : Nat) :
    loadPbr m locals k = m.pbr := by
  show Pbr.ofBuffer (m.readInto (k + 1) (read32 (m.readInto k 0 (locals.buffer k)) (0x1be + 8)) _) = _
  rw [ofBuffer_readInto hm, read32_readInto hm _ _ _ _ (by decide)]
  rfl

theorem getDirEntry_path {m : Medium} (hm : ∀ k, m.fails k = false) (locals : Locals) (fuel k : Nat)
    {pathname : Mem} {c : Component} {cs : List Component} {l : List UInt8}
    (hp : HoldsBytes pathname (0x2f :: (pathBytes (c :: cs) ++ 0 :: l))) :
    getDirEntry m locals fuel k pathname
      = locateFileDirent m locals m.pbr fuel (k + 2) 2 (advance pathname 1) ∧
    HoldsBytes (advance pathname 1) (pathBytes (c :: cs) ++ 0 :: l) := by
  have h0 : pathname 0 = 0x2f := holds_at (l := []) hp
  have hrest : HoldsBytes (advance pathname 1) (pathBytes (c :: cs) ++ 0 :: l) := holds_behind (l := []) hp
  have hpos : 0 < c.bytes.length := List.length_pos_of_ne_nil c.nonempty
  have h1 : ¬ advance pathname 1 0 = 0x2f := (holds_path hrest).1.ne_slash 0 hpos
  have hmount : removeMountPoint pathname fsTableEntry.mountPoint = advance pathname 1 := by
    show removeMountPoint pathname [0x2f] = _
    rw [removeMountPoint, h0, if_pos (by decide), removeMountPoint, if_neg h1]
  refine ⟨?_, hrest⟩
  show locateFileDirent m locals (loadPbr m locals k) fuel (k + 2) 2
    (removeMountPoint pathname fsTableEntry.mountPoint) = _
  rw [loadPbr_reads hm, hmount]

namespace DirectoryTree
variable (t : DirectoryTree) (c : Component) (cs : List Component)

theorem answers_of_through (h : t.root.Through (c :: cs)) : t.Answers (c :: cs) := by
  constructor
  · intro cl size hw m hm locals k pathname hp
    obtain ⟨e, hf⟩ := getDirEntry_path hm.reads locals (cs.length + 1) k hp
    obtain ⟨name, reads, hr⟩ := (locate_of_through hm.reads locals cs c hm.on h (k + 2) hf).1 cl size hw
    exact ⟨cs.length + 1, _, reads, e.trans hr, rfl, rfl⟩
  · intro hno m hm locals k pathname hp
    have hf := (getDirEntry_path hm.reads locals 0 k hp).2
    obtain ⟨fuel, part, hr⟩ := (locate_of_through hm.reads locals cs c hm.on h (k + 2) hf).2 hno
    exact ⟨fuel, part, (getDirEntry_path hm.reads locals fuel k hp).1.trans hr⟩

/-- one byte or two are not the size of the file -/
theorem exists_size (goal : Option Node) :
    ∃ size : UInt8, ∀ cl n, goal = some (.file cl n) → size.toNat ≠ n := by
  by_cases h1 : ∃ cl, goal = some (.file cl 1)
  · obtain ⟨cl, rfl⟩ := h1
    refine ⟨2, fun cl' n hg => ?_⟩
    cases hg
    decide
  · refine ⟨1, fun cl n hg hn => h1 ⟨cl, ?_⟩⟩
    rw [hg, ← hn]
    rfl

theorem through_of_answers (h : t.Answers (c :: cs)) : t.root.Through (c :: cs) := by
  by_contra hno
  obtain ⟨size, hsize⟩ := exists_size (t.root.walk (c :: cs))
  -- a disk on which every entry without a name is a regular file of another size
  have hm : ∀ k, (leftovers t.m t.m.pbr size).fails k = false := fun _ => rfl
  have hon := on_leftovers t.m t.m.pbr size t.held.on
  have hdisk : t.root.OnDisk (leftovers t.m t.m.pbr size) := by
    refine ⟨hm, ?_⟩
    rw [leftovers_pbr]
    exact hon.imp fun _ _ => trivial
  have hs0 : ¬ Short.IsDirectory ⟨0, 0, size.toNat⟩ := fun hd => hd (by decide : (0 : UInt8) &&& 0x10 = 0)
  -- behind the path there is one that leads on from where it ends
  obtain ⟨l, hl⟩ : ∃ l, ∀ n, t.root.walk (c :: cs) = some n → ¬ n.IsFile → ¬ n.Barren →
      Misleads (leftovers t.m t.m.pbr size) farPbr n l := by
    by_cases hend : ∃ n, t.root.walk (c :: cs) = some n ∧ ¬ n.IsFile ∧ ¬ n.Barren
    · obtain ⟨n, hw, hfile, hbarren⟩ := hend
      obtain ⟨l, hdesc⟩ := exists_descent hm hs0 (walk_on hon hw) hfile hbarren
      refine ⟨l, fun n' hn' _ _ => ?_⟩
      rw [hw, Option.some.injEq] at hn'
      exact hn' ▸ hdesc
    · exact ⟨[], fun n hn hfile hbarren => absurd ⟨n, hn, hfile, hbarren⟩ hend⟩
  let bytes : List UInt8 := 0x2f :: (pathBytes (c :: cs) ++ 0 :: 0x2f :: l)
  let pathname : Mem := fun i => bytes.getD i 0
  have hbytes : HoldsBytes pathname bytes := fun _ _ => rfl
  have hp : HoldsBytes pathname (0x2f :: (pathBytes (c :: cs) ++ [0])) := by
    have hcut : bytes = 0x2f :: (pathBytes (c :: cs) ++ [0]) ++ 0x2f :: l := by
      rw [List.cons_append, List.append_assoc]
      rfl
    rw [hcut] at hbytes
    exact holds_left hbytes
  obtain ⟨locals, hecho⟩ := exists_echo 2 (advance pathname 1)
  have hmiss : ∀ fuel, Misses (getDirEntry (leftovers t.m t.m.pbr size) locals fuel 0 pathname)
      (t.root.walk (c :: cs)) := by
    intro fuel
    obtain ⟨e, hf⟩ := getDirEntry_path hm locals fuel 0 hbytes
    rw [e, leftovers_pbr]
    exact locate_not_through hm hs0 cs c hon hno hl (fun cl n hg hn => hsize cl n hg hn.2) hf hecho fuel
  by_cases hfile : ∃ cl size, t.root.walk (c :: cs) = some (.file cl size)
  · obtain ⟨cl, n, hw⟩ := hfile
    obtain ⟨fuel, e, reads, hr, he⟩ := h.file cl n hw _ hdisk locals 0 pathname hp
    exact (hmiss fuel).2 cl n e reads hw hr he
  · obtain ⟨fuel, part, hr⟩ := h.missing (fun cl n hw => hfile ⟨cl, n, hw⟩) _ hdisk locals 0 pathname hp
    exact (hmiss fuel).1 part hr

/-- **For which paths `get_dir_entry` answers.** -/
theorem answers_iff : t.Answers (c :: cs) ↔ t.root.Through (c :: cs) :=
  ⟨t.through_of_answers c cs, t.answers_of_through c cs⟩

end DirectoryTree

/-! ## a path that goes on behind a file -/

/-- the file `a` -/
def single : LongName where
  bytes := [0x61]
  pos := by decide
  le := by decide
  ascii := by simp

/-- a disk with the file `a`, of 10 bytes from cluster 5 on, in the root directory -/
def singleFile : Medium where
  sector n :=
    if n = 0 then fun y => if y = 0x1be + 8 then 1 else 0
    else if n = 1 then fun y => if y = 13 then 1 else if y = 14 then 2 else 0
    else tableOf [single.entry 0, (⟨0, 5, 10⟩ : Short).entry]
  fails _ := false

theorem singleFile_root : singleFile.pbr.clusterSector 2 = 2 := by decide +kernel

def singleTree : DirectoryTree where
  m := singleFile
  dots := false
  parts := .child single (.file 5 10) :: List.replicate 14 .entry
  held := by
    have hs : Composed (singleFile.sector (singleFile.pbr.clusterSector 2)) 0
        [.live single ⟨0, 5, 10⟩, .rest (.short ⟨0, 0, 0⟩) 13] := by
      rw [singleFile_root]
      refine .live (by decide) (fun k hk => ?_) ⟨by decide, by decide⟩
        (.rest (by decide) (by decide) fun j hj _ y hy => tableOf_behind (Nat.le_of_lt hj) hy)
      have hk' : k < 1 := hk
      interval_cases k
      exact ⟨by decide, by decide, by decide +kernel⟩
    refine ⟨fun _ => rfl, .directory hs (.plain (.child (by decide) (by simp [single]) ⟨by decide, rfl, rfl⟩
      (Node.groups_zeros 13 trivial))) ?_ fun name n hn => ?_⟩
    · rw [singleFile_root]
      decide
    · rcases List.mem_cons.mp hn with he | he
      · cases he
        exact .file
      · cases List.eq_of_mem_replicate he

/-- `/a/b` is answered with the entry of `/a` -/
theorem behind_file_answered : ¬ ∀ (t : DirectoryTree) (c : Component) (cs : List Component), t.Answers (c :: cs) := by
  intro h
  let a : Component := ⟨[0x61], by decide, by simp⟩
  let b : Component := ⟨[0x62], by decide, by simp⟩
  have ht := singleTree.through_of_answers a [b] (h singleTree a [b])
  exact ht.leads [a] b [] (.file 5 10) rfl rfl

end StarOS
