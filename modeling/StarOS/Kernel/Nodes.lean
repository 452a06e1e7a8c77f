import StarOS.Kernel.State
import StarOS.Lib.Chain
import StarOS.Lib.Loop
import StarOS.Lib.Run
import Mathlib.Data.Finset.Basic

/-!
# Linked lists (`linked_list.h`)

`LinkedList.remove`, `LinkedList.popFront`, .. work on mathematical lists; here are the nodes in memory.  Any
number of lists (`ι`) share one allocator, which chooses the node of an `insert`.

* `Place ι`            where a `next` field lies: the `head` of a list, or a node;
* `Nodes ι T`          the fields, the `tail` of each list, and the nodes that are allocated;
* `Nodes.exec`         the operations of the source;
* `Repr s nodes`       the list `l` is the chain of the nodes `nodes l`, with `tail` at its last place; no
                       node is in two lists, and the nodes allocated are those of the lists;
* `Repr.unlink`        a node is cut out;
* `refines`            one operation;  `lists_refine`   any sequence of them.
-/

namespace StarOS
open Lib

/-! ## the source -/

inductive Place (ι : Type*) where
  | head (l : ι)
  | node (n : Nat)
deriving DecidableEq

structure Nodes (ι T : Type*) where
  next : Place ι → Option Nat
  data : Nat → T
  tail : ι → Place ι
  allocated : Finset Nat

/-- the lists as their constructor leaves them -/
def Nodes.empty {ι T : Type*} (data : Nat → T) : Nodes ι T := ⟨fun _ => none, data, .head, ∅⟩

namespace Nodes
variable {ι T : Type*} [DecidableEq ι]

def setNext (s : Nodes ι T) (p : Place ι) (n : Option Nat) : Nodes ι T := { s with next := Function.update s.next p n }
def setTail (s : Nodes ι T) (l : ι) (p : Place ι) : Nodes ι T := { s with tail := Function.update s.tail l p }
def setData (s : Nodes ι T) (n : Nat) (x : T) : Nodes ι T := { s with data := Function.update s.data n x }
def malloc (s : Nodes ι T) (n : Nat) : Nodes ι T := { s with allocated := insert n s.allocated }
def free (s : Nodes ι T) (n : Nat) : Nodes ι T := { s with allocated := s.allocated.erase n }

/-- `insert`, and `push_back`; `cur` is the node `malloc` returns -/
def insert (s : Nodes ι T) (l : ι) (elem : T) (cur : Nat) : Nodes ι T :=
  let s := s.malloc cur
  let s := s.setData cur elem
  let s := s.setNext (.node cur) none
  let s := s.setNext (s.tail l) (some cur)
  s.setTail l (.node cur)

/-- what `remove` and `filter` do with a node that goes -/
def unlink (s : Nodes ι T) (l : ι) (prev : Place ι) (cur : Nat) : Nodes ι T :=
  let s := s.setNext prev (s.next (.node cur))
  let s := s.free cur
  if s.tail l = .node cur then s.setTail l prev else s

/-- one round of `remove` -/
def removeBody [DecidableEq T] (s : Nodes ι T) (l : ι) (elem : T) :
    Place ι × Option Nat → (Place ι × Option Nat) ⊕ Except Fatal (Nodes ι T)
  | (_, none) => .inr (.error .elemNotFound)
  | (prev, some cur) =>
    if s.data cur = elem then .inr (.ok (s.unlink l prev cur))
    else .inl (.node cur, s.next (.node cur))

/-- one round of `locate` -/
def locateBody (s : Nodes ι T) (filter : T → Bool) : Option Nat → Option Nat ⊕ Except Fatal T
  | none => .inr (.error .elementNotFound)
  | some cur => if filter (s.data cur) then .inr (.ok (s.data cur)) else .inl (s.next (.node cur))

/-- one round of `for_each` -/
def forEachBody (func : T → T) : Option Nat × Nodes ι T → (Option Nat × Nodes ι T) ⊕ Nodes ι T
  | (none, s) => .inr s
  | (some cur, s) => .inl (s.next (.node cur), s.setData cur (func (s.data cur)))

/-- one round of `filter` -/
def filterBody (l : ι) (filter : T → Bool) :
    Place ι × Option Nat × Nodes ι T → (Place ι × Option Nat × Nodes ι T) ⊕ Nodes ι T
  | (_, none, s) => .inr s
  | (prev, some cur, s) =>
    if !filter (s.data cur) then
      let s := s.unlink l prev cur
      .inl (prev, s.next prev, s)
    else .inl (.node cur, s.next (.node cur), s)

def popFront (s : Nodes ι T) (l : ι) : Except Fatal (T × Nodes ι T) :=
  match s.next (.head l) with
  | none => .error .emptyQueueToPop
  | some p =>
    let tmp := s.data p
    let s := s.setNext (.head l) (s.next (.node p))
    let s := if s.tail l = .node p then s.setTail l (.head l) else s
    .ok (tmp, s.free p)

end Nodes

/-- an operation on the list `l`; `scribble` is what other code does with memory that is no node -/
inductive ListOp (ι T : Type*) where
  | insert (l : ι) (elem : T) (cur : Nat)
  | remove (l : ι) (elem : T)
  | filter (l : ι) (filter : T → Bool)
  | forEach (l : ι) (func : T → T)
  | locate (l : ι) (filter : T → Bool)
  | popFront (l : ι)
  | scribble (n : Nat) (x : T) (next : Option Nat)

namespace Nodes
variable {ι T : Type*} [DecidableEq ι] [DecidableEq T]

/-- an operation, with at most `rounds` rounds of its loop: the state after it, and the element it returns -/
def exec (rounds : Nat) (s : Nodes ι T) : ListOp ι T → Option (Except Fatal (Nodes ι T × Option T))
  | .insert l elem cur => some (.ok (s.insert l elem cur, none))
  | .remove l elem => (loop (s.removeBody l elem) rounds (.head l, s.next (.head l))).map fun r =>
      r.map fun t => (t, none)
  | .filter l filter => (loop (filterBody l filter) rounds (.head l, s.next (.head l), s)).map fun t => .ok (t, none)
  | .forEach l func => (loop (forEachBody func) rounds (s.next (.head l), s)).map fun t => .ok (t, none)
  | .locate l filter => (loop (s.locateBody filter) rounds (s.next (.head l))).map fun r =>
      r.map fun x => (s, some x)
  | .popFront l => some ((s.popFront l).map fun r => (r.2, some r.1))
  | .scribble n x next => some (.ok ((s.setData n x).setNext (.node n) next, none))

/-- `malloc` returns a node that is not allocated, and nothing else is stored in a node that is -/
def Enabled (s : Nodes ι T) : ListOp ι T → Prop
  | .insert _ _ cur => cur ∉ s.allocated
  | .scribble n _ _ => n ∉ s.allocated
  | _ => True

/-- an operation that returns the element `op.2` -/
def Step (s : Nodes ι T) (op : ListOp ι T × Option T) (t : Nodes ι T) : Prop :=
  s.Enabled op.1 ∧ ∃ rounds, s.exec rounds op.1 = some (.ok (t, op.2))

end Nodes

/-! ## mathematical lists -/

/-- `locate` on a list -/
def LinkedList.locate {T : Type*} (filter : T → Bool) (q : List T) : Except Fatal T :=
  (q.find? filter).elim (.error .elementNotFound) .ok

namespace ListOp
variable {ι T : Type*} [DecidableEq ι] [DecidableEq T]

/-- the operation on mathematical lists -/
def apply (L : ι → List T) : ListOp ι T → Except Fatal ((ι → List T) × Option T)
  | .insert l elem _ => .ok (Function.update L l (L l ++ [elem]), none)
  | .remove l elem => (LinkedList.remove (L l) elem).map fun q => (Function.update L l q, none)
  | .filter l p => .ok (Function.update L l ((L l).filter p), none)
  | .forEach l func => .ok (Function.update L l ((L l).map func), none)
  | .locate l p => (LinkedList.locate p (L l)).map fun x => (L, some x)
  | .popFront l => (LinkedList.popFront (L l)).map fun r => (Function.update L l r.2, some r.1)
  | .scribble _ _ _ => .ok (L, none)

def Applied (L : ι → List T) (op : ListOp ι T × Option T) (L' : ι → List T) : Prop := op.1.apply L = .ok (L', op.2)

end ListOp

/-- the lists in memory -/
structure Repr {ι T : Type*} (s : Nodes ι T) (nodes : ι → List Nat) : Prop where
  chain : ∀ l, Links Place.node s.next (.head l) (nodes l) none
  tail : ∀ l, s.tail l = lastPlace Place.node (.head l) (nodes l)
  nodup : ∀ l, (nodes l).Nodup
  apart : ∀ l l', l ≠ l' → (nodes l).Disjoint (nodes l')
  allocated : ∀ n, n ∈ s.allocated ↔ ∃ l, n ∈ nodes l

/-- the elements of the lists -/
def Nodes.contents {ι T : Type*} (s : Nodes ι T) (nodes : ι → List Nat) (l : ι) : List T := (nodes l).map s.data

section
variable {ι T : Type*} {s t : Nodes ι T} {nodes : ι → List Nat} {l : ι}

theorem repr_empty (data : Nat → T) : Repr (Nodes.empty data : Nodes ι T) fun _ => [] where
  chain := fun _ => rfl
  tail := fun _ => rfl
  nodup := fun _ => List.nodup_nil
  apart := fun _ _ _ _ h => absurd h List.not_mem_nil
  allocated := fun n => ⟨fun h => absurd h (Finset.notMem_empty n), fun ⟨_, h⟩ => absurd h List.not_mem_nil⟩

theorem places_nodup {ns : List Nat} (h : ns.Nodup) : (places Place.node (.head l) ns).Nodup := by
  refine List.nodup_cons.mpr ⟨fun hm => ?_, h.map fun _ _ => Place.node.inj⟩
  obtain ⟨n, -, hn⟩ := List.mem_map.mp hm
  cases hn

theorem mem_places {ns : List Nat} {n : Nat} : Place.node n ∈ places Place.node (.head l) ns ↔ n ∈ ns := by
  refine ⟨fun h => ?_, fun h => List.mem_cons_of_mem _ (List.mem_map_of_mem h)⟩
  rcases List.mem_cons.mp h with h | h
  · cases h
  · obtain ⟨m, hm, he⟩ := List.mem_map.mp h
    exact Place.node.inj he ▸ hm

/-- places of different lists -/
theorem Repr.place_ne (h : Repr s nodes) {l' : ι} (hl : l ≠ l') {q q' : Place ι}
    (hq : q ∈ places Place.node (.head l) (nodes l)) (hq' : q' ∈ places Place.node (.head l') (nodes l')) : q ≠ q' := by
  rintro rfl
  cases q with
  | head k =>
    have hk : ∀ {m : ι} {ns : List Nat}, Place.head k ∈ places Place.node (.head m) ns → k = m := by
      intro m ns hm
      rcases List.mem_cons.mp hm with hm | hm
      · exact Place.head.inj hm
      · obtain ⟨n, -, hn⟩ := List.mem_map.mp hm
        cases hn
    exact hl ((hk hq).symm.trans (hk hq'))
  | node n => exact h.apart l l' hl (mem_places.mp hq) (mem_places.mp hq')

/-- the loop is at the rest of the list -/
theorem Repr.at (h : Repr s nodes) {pre rest : List Nat} (hl : nodes l = pre ++ rest) :
    s.next (lastPlace Place.node (.head l) pre) = rest.head? :=
  (Links.rest (hl ▸ h.chain l)).head

/-- the place behind the next node -/
theorem lastPlace_snoc (p : Place ι) (pre : List Nat) (c : Nat) :
    lastPlace Place.node p (pre ++ [c]) = .node c := lastPlace_append

/-- `for_each` changes the elements of the nodes it meets -/
theorem forEach_loops {ns : List Nat} {p : Place ι} (hchain : Links Place.node s.next p ns none) (hnodup : ns.Nodup)
    (func : T → T) : ∃ t, Loops (Nodes.forEachBody func) (ns.head?, s) t ∧ t = { s with data := t.data } ∧
      ∀ n, t.data n = if n ∈ ns then func (s.data n) else s.data n := by
  induction ns generalizing s p with
  | nil => exact ⟨s, Loops.stop rfl, rfl, fun n => (if_neg List.not_mem_nil).symm⟩
  | cons c ns ih =>
    obtain ⟨hc, hnodup⟩ := List.nodup_cons.mp hnodup
    obtain ⟨t, hloop, hfields, hdata⟩ := ih (s := s.setData c (func (s.data c))) hchain.2 hnodup
    refine ⟨t, Loops.round ?_ hloop, hfields, fun n => ?_⟩
    · show Sum.inl (s.next (.node c), _) = _
      rw [hchain.2.head]
    · rw [hdata]
      show (if n ∈ ns then func (Function.update s.data c _ n) else Function.update s.data c _ n) = _
      by_cases hn : n = c
      · subst hn
        rw [if_neg hc, Function.update_self, if_pos List.mem_cons_self]
      · rw [Function.update_of_ne hn]
        simp only [List.mem_cons, hn, false_or]

theorem locate_loops (h : Repr s nodes) {pre rest : List Nat} (p : T → Bool) (hl : nodes l = pre ++ rest) :
    Loops (s.locateBody p) rest.head? (LinkedList.locate p (rest.map s.data)) := by
  induction rest generalizing pre with
  | nil => exact Loops.stop rfl
  | cons c rest ih =>
    unfold LinkedList.locate
    rw [List.map_cons, List.find?_cons]
    cases hc : p (s.data c) with
    | true =>
      refine Loops.stop ?_
      show (if p (s.data c) = true then _ else _) = _
      rw [if_pos hc]
      rfl
    | false =>
      have hl' : nodes l = (pre ++ [c]) ++ rest := by rw [hl, List.append_assoc]; rfl
      have hat := h.at hl'
      rw [lastPlace_snoc] at hat
      refine Loops.round ?_ (ih hl')
      show (if p (s.data c) = true then _ else _) = _
      rw [if_neg (by rw [hc]; exact Bool.false_ne_true), hat]

variable [DecidableEq ι]

/-- one list has got other nodes -/
theorem Repr.replace (h : Repr s nodes) {ns : List Nat}
    (hchain : Links Place.node t.next (.head l) ns none) (htail : t.tail l = lastPlace Place.node (.head l) ns)
    (hnodup : ns.Nodup) (hnew : ∀ n ∈ ns, n ∈ nodes l ∨ n ∉ s.allocated)
    (hnext : ∀ l' ≠ l, ∀ q ∈ places Place.node (.head l') (nodes l'), t.next q = s.next q)
    (htails : ∀ l' ≠ l, t.tail l' = s.tail l')
    (halloc : ∀ n, n ∈ t.allocated ↔ n ∈ ns ∨ (n ∈ s.allocated ∧ n ∉ nodes l)) :
    Repr t (Function.update nodes l ns) := by
  have hdisjoint : ∀ l' ≠ l, ∀ n ∈ nodes l', n ∉ ns := by
    intro l' hl n hn hns
    rcases hnew n hns with h' | h'
    · exact h.apart l' l hl hn h'
    · exact h' ((h.allocated n).mpr ⟨l', hn⟩)
  refine ⟨fun l' => ?_, fun l' => ?_, fun l' => ?_, fun l' l'' hne n hn hn' => ?_, fun n => ?_⟩
  · by_cases hl : l' = l
    · subst hl
      rw [Function.update_self]
      exact hchain
    · rw [Function.update_of_ne hl]
      exact (h.chain l').congr (hnext l' hl)
  · by_cases hl : l' = l
    · subst hl
      rw [Function.update_self]
      exact htail
    · rw [Function.update_of_ne hl, htails l' hl]
      exact h.tail l'
  · by_cases hl : l' = l
    · subst hl
      rw [Function.update_self]
      exact hnodup
    · rw [Function.update_of_ne hl]
      exact h.nodup l'
  · by_cases hl : l' = l
    · subst hl
      rw [Function.update_self] at hn
      rw [Function.update_of_ne hne.symm] at hn'
      exact hdisjoint l'' hne.symm n hn' hn
    · rw [Function.update_of_ne hl] at hn
      by_cases hl' : l'' = l
      · subst hl'
        rw [Function.update_self] at hn'
        exact hdisjoint l' hl n hn hn'
      · rw [Function.update_of_ne hl'] at hn'
        exact h.apart l' l'' hne hn hn'
  · rw [halloc, h.allocated]
    constructor
    · rintro (hn | ⟨⟨l', hn⟩, hnot⟩)
      · exact ⟨l, by rwa [Function.update_self]⟩
      · have hl : l' ≠ l := by
          rintro rfl
          exact hnot hn
        exact ⟨l', by rwa [Function.update_of_ne hl]⟩
    · rintro ⟨l', hn⟩
      by_cases hl : l' = l
      · subst hl
        rw [Function.update_self] at hn
        exact .inl hn
      · rw [Function.update_of_ne hl] at hn
        exact .inr ⟨⟨l', hn⟩, fun hnl => h.apart l' l hl hn hnl⟩

/-- the elements, when one list has got other nodes -/
theorem contents_update (ns : List Nat) (hdata : ∀ l' ≠ l, ∀ n ∈ nodes l', t.data n = s.data n) :
    t.contents (Function.update nodes l ns) = Function.update (s.contents nodes) l (ns.map t.data) := by
  funext l'
  show (Function.update nodes l ns l').map t.data = _
  by_cases hl : l' = l
  · subst hl
    rw [Function.update_self, Function.update_self]
  · rw [Function.update_of_ne hl, Function.update_of_ne hl]
    exact List.map_congr_left (hdata l' hl)

/-! ## the operations -/

theorem Repr.insert (h : Repr s nodes) {cur : Nat} (hcur : cur ∉ s.allocated) (elem : T) :
    Repr (s.insert l elem cur) (Function.update nodes l (nodes l ++ [cur])) := by
  have hfresh : ∀ l', cur ∉ nodes l' := fun l' hn => hcur ((h.allocated cur).mpr ⟨l', hn⟩)
  have hne : ∀ l', ∀ q ∈ places Place.node (.head l') (nodes l'), q ≠ .node cur := by
    rintro l' q hq rfl
    exact hfresh l' (mem_places.mp hq)
  have hlast : lastPlace Place.node (.head l) (nodes l) ∈ places Place.node (.head l) (nodes l) := lastPlace_mem
  have hnext : (s.insert l elem cur).next = Function.update (Function.update s.next (.node cur) none)
      (lastPlace Place.node (.head l) (nodes l)) (some cur) := by
    rw [← h.tail l]
    rfl
  refine h.replace ?_ ?_ ?_ ?_ ?_ ?_ ?_
  · rw [hnext]
    refine links_append.mpr ⟨?_, ?_⟩
    · have hchain := (h.chain l).congr fun q hq => Function.update_of_ne (hne l q hq) none s.next
      exact hchain.setLast (places_nodup (h.nodup l)) _
    · show Function.update (Function.update s.next (.node cur) none)
        (lastPlace Place.node (.head l) (nodes l)) (some cur) (.node cur) = none
      rw [Function.update_of_ne (hne l _ hlast).symm, Function.update_self]
  · show Function.update s.tail l (.node cur) l = _
    rw [Function.update_self, lastPlace_append]
    rfl
  · refine List.nodup_append.mpr ⟨h.nodup l, List.nodup_singleton cur, fun a ha b hb => ?_⟩
    rintro rfl
    exact hfresh l (List.mem_singleton.mp hb ▸ ha)
  · intro n hn
    rcases List.mem_append.mp hn with hn | hn
    · exact .inl hn
    · exact .inr (List.mem_singleton.mp hn ▸ hcur)
  · intro l' hl q hq
    rw [hnext, Function.update_of_ne (h.place_ne hl hq hlast), Function.update_of_ne (hne l' q hq)]
  · exact fun l' hl => Function.update_of_ne hl _ _
  · intro n
    show n ∈ Insert.insert cur s.allocated ↔ _
    rw [Finset.mem_insert, List.mem_append, List.mem_singleton]
    have hin : n ∈ nodes l → n ∈ s.allocated := fun hn => (h.allocated n).mpr ⟨l, hn⟩
    tauto

theorem insert_contents (h : Repr s nodes) {cur : Nat} (hcur : cur ∉ s.allocated) (elem : T) :
    (s.insert l elem cur).contents (Function.update nodes l (nodes l ++ [cur]))
      = Function.update (s.contents nodes) l (s.contents nodes l ++ [elem]) := by
  have hdata : ∀ l', ∀ n ∈ nodes l', (s.insert l elem cur).data n = s.data n := by
    intro l' n hn
    refine Function.update_of_ne ?_ _ _
    rintro rfl
    exact hcur ((h.allocated n).mpr ⟨l', hn⟩)
  have hnew : [cur].map (s.insert l elem cur).data = [elem] := by
    show [Function.update s.data cur elem cur] = _
    rw [Function.update_self]
  rw [contents_update _ fun l' _ => hdata l', List.map_append, List.map_congr_left (hdata l), hnew]
  rfl

theorem unlink_next (p : Place ι) (c : Nat) : (s.unlink l p c).next = Function.update s.next p (s.next (.node c)) := by
  unfold Nodes.unlink
  dsimp only
  split <;> rfl

theorem unlink_data (p : Place ι) (c : Nat) : (s.unlink l p c).data = s.data := by
  unfold Nodes.unlink
  dsimp only
  split <;> rfl

theorem unlink_allocated (p : Place ι) (c : Nat) : (s.unlink l p c).allocated = s.allocated.erase c := by
  unfold Nodes.unlink
  dsimp only
  split <;> rfl

theorem unlink_tail (p : Place ι) (c : Nat) :
    (s.unlink l p c).tail = if s.tail l = .node c then Function.update s.tail l p else s.tail := by
  show (if s.tail l = .node c then _ else _ : Nodes ι T).tail = _
  by_cases hc : s.tail l = .node c
  · rw [if_pos hc, if_pos hc]
    rfl
  · rw [if_neg hc, if_neg hc]
    rfl

/-- **A node is cut out of its list**, wherever in the list it is. -/
theorem Repr.unlink (h : Repr s nodes) {c : Nat} {pre post : List Nat} (hl : nodes l = pre ++ c :: post) :
    Repr (s.unlink l (lastPlace Place.node (.head l) pre) c) (Function.update nodes l (pre ++ post)) := by
  have hchain := hl ▸ h.chain l
  have hnodup := hl ▸ h.nodup l
  have hplaces := places_nodup (l := l) hnodup
  have htail := h.tail l
  rw [hl, lastPlace_append] at htail
  obtain ⟨hpre, hcpost, hapart⟩ := List.nodup_append.mp hnodup
  have hprev : lastPlace Place.node (.head l) pre ∈ places Place.node (.head l) (nodes l) := by
    rw [hl]
    have hlast : lastPlace Place.node (.head l) pre ∈ places Place.node (.head l) pre := lastPlace_mem
    rcases List.mem_cons.mp hlast with e | e
    · rw [e]
      exact List.mem_cons_self
    · refine List.mem_cons_of_mem _ ?_
      rw [List.map_append]
      exact List.mem_append_left _ e
  have hc : c ∉ pre ++ post := by
    intro hm
    rcases List.mem_append.mp hm with hm | hm
    · exact hapart c hm c List.mem_cons_self rfl
    · exact (List.nodup_cons.mp hcpost).1 hm
  refine h.replace ?_ ?_ ?_ ?_ ?_ ?_ ?_
  · rw [unlink_next]
    exact hchain.skip hplaces
  · rw [unlink_tail, lastPlace_append]
    cases post with
    | nil =>
      rw [if_pos (show s.tail l = .node c from htail), Function.update_self]
      rfl
    | cons d post =>
      -- the last place is behind the node that goes
      have hlast : lastPlace Place.node (Place.node d : Place ι) post ∈ places Place.node (Place.node d) post :=
        lastPlace_mem
      have hne : s.tail l ≠ .node c := by
        intro e
        have hc' : Place.node c ∈ (d :: post).map (Place.node : Nat → Place ι) := (htail.symm.trans e) ▸ hlast
        obtain ⟨m, hm, he⟩ := List.mem_map.mp hc'
        exact (List.nodup_cons.mp hcpost).1 (Place.node.inj he ▸ hm)
      rw [if_neg hne]
      exact htail
  · exact hnodup.sublist (List.Sublist.append_left (List.sublist_cons_self ..) pre)
  · intro n hn
    refine .inl ?_
    rw [hl]
    rcases List.mem_append.mp hn with hn | hn
    · exact List.mem_append_left _ hn
    · exact List.mem_append_right _ (List.mem_cons_of_mem _ hn)
  · intro l' hne q hq
    rw [unlink_next]
    exact Function.update_of_ne (h.place_ne hne hq hprev) _ _
  · intro l' hne
    rw [unlink_tail]
    split
    · exact Function.update_of_ne hne _ _
    · rfl
  · intro n
    have hin : n ∈ nodes l ↔ n ∈ pre ++ post ∨ n = c := by
      rw [hl]
      simp only [List.mem_append, List.mem_cons]
      tauto
    have hall : n ∈ nodes l → n ∈ s.allocated := fun hn => (h.allocated n).mpr ⟨l, hn⟩
    rw [unlink_allocated, Finset.mem_erase]
    by_cases e : n = c
    · subst e
      tauto
    · tauto

theorem unlink_contents (c : Nat) (p : Place ι) (ns : List Nat) :
    (s.unlink l p c).contents (Function.update nodes l ns) = Function.update (s.contents nodes) l (ns.map s.data) := by
  rw [contents_update ns fun l' _ n _ => congrFun (unlink_data p c) n, unlink_data]

theorem popFront_eq {n : Nat} (hn : s.next (.head l) = some n) :
    s.popFront l = .ok (s.data n, s.unlink l (.head l) n) := by
  unfold Nodes.popFront Nodes.unlink
  rw [hn]
  show Except.ok _ = Except.ok _
  congr 2
  show Nodes.free (if s.tail l = _ then _ else _) n = if s.tail l = _ then _ else _
  by_cases h : s.tail l = .node n
  · rw [if_pos h, if_pos h]
    rfl
  · rw [if_neg h, if_neg h]

theorem update_same {ns : List Nat} (h : nodes l = ns) : Function.update nodes l ns = nodes := by
  rw [← h]
  exact Function.update_eq_self l nodes

section
variable [DecidableEq T]

theorem remove_loops (h : Repr s nodes) {pre rest : List Nat} (elem : T) (hl : nodes l = pre ++ rest) :
    (LinkedList.remove (rest.map s.data) elem = .error .elemNotFound ∧
      Loops (s.removeBody l elem) (lastPlace Place.node (.head l) pre, rest.head?) (.error .elemNotFound)) ∨
    ∃ c a b, rest = a ++ c :: b ∧ LinkedList.remove (rest.map s.data) elem = .ok ((a ++ b).map s.data) ∧
      Loops (s.removeBody l elem) (lastPlace Place.node (.head l) pre, rest.head?)
        (.ok (s.unlink l (lastPlace Place.node (.head l) (pre ++ a)) c)) := by
  induction rest generalizing pre with
  | nil => exact .inl ⟨rfl, Loops.stop rfl⟩
  | cons c rest ih =>
    by_cases hc : s.data c = elem
    · refine .inr ⟨c, [], rest, rfl, ?_, Loops.stop ?_⟩
      · rw [List.map_cons, LinkedList.remove, if_pos hc]
        rfl
      · rw [List.append_nil]
        exact if_pos hc
    · have hl' : nodes l = (pre ++ [c]) ++ rest := by rw [hl, List.append_assoc]; rfl
      have hround : s.removeBody l elem (lastPlace Place.node (.head l) pre, some c)
          = .inl (lastPlace Place.node (.head l) (pre ++ [c]), rest.head?) := by
        rw [← h.at hl', lastPlace_snoc]
        exact if_neg hc
      have hremove : LinkedList.remove ((c :: rest).map s.data) elem
          = (LinkedList.remove (rest.map s.data) elem).map (s.data c :: ·) := if_neg hc
      rcases ih hl' with ⟨hq, hloop⟩ | ⟨d, a, b, rfl, hq, hloop⟩
      · exact .inl ⟨by rw [hremove, hq]; rfl, hloop.round hround⟩
      · refine .inr ⟨d, c :: a, b, rfl, by rw [hremove, hq]; rfl, ?_⟩
        rw [List.append_assoc] at hloop
        exact hloop.round hround

end

theorem filter_loops (h : Repr s nodes) {pre rest : List Nat} (p : T → Bool) (hl : nodes l = pre ++ rest) :
    ∃ t ns, Loops (Nodes.filterBody l p) (lastPlace Place.node (.head l) pre, rest.head?, s) t ∧
      t.data = s.data ∧ Repr t (Function.update nodes l (pre ++ ns)) ∧
      ns.map s.data = (rest.map s.data).filter p := by
  induction rest generalizing s nodes pre with
  | nil => exact ⟨s, [], Loops.stop rfl, rfl, by rw [update_same hl]; exact h, rfl⟩
  | cons c rest ih =>
    rw [List.map_cons, List.filter_cons]
    by_cases hc : p (s.data c) = true
    · have hl' : nodes l = (pre ++ [c]) ++ rest := by rw [hl, List.append_assoc]; rfl
      obtain ⟨t, ns, hloop, hdata, hrepr, hns⟩ := ih h hl'
      refine ⟨t, c :: ns, hloop.round ?_, hdata, ?_, ?_⟩
      · rw [← h.at hl', lastPlace_snoc]
        show (if (!p (s.data c)) = true then _ else _) = _
        rw [hc]
        rfl
      · rw [List.append_assoc] at hrepr
        exact hrepr
      · rw [if_pos hc, List.map_cons, hns]
    · have h1 := h.unlink hl
      obtain ⟨t, ns, hloop, hdata, hrepr, hns⟩ := ih h1 (Function.update_self _ _ _)
      rw [unlink_data] at hdata hns
      refine ⟨t, ns, hloop.round ?_, hdata, ?_, ?_⟩
      · rw [← h1.at (Function.update_self _ _ _)]
        show (if (!p (s.data c)) = true then _ else _) = _
        rw [Bool.not_eq_true] at hc
        rw [hc]
        rfl
      · rw [Function.update_idem] at hrepr
        exact hrepr
      · rw [if_neg hc, hns]

end

/-! ## any sequence of operations -/

/-- the same outcome on nodes and on mathematical lists -/
inductive Agrees {ι T : Type*} :
    Except Fatal (Nodes ι T × Option T) → Except Fatal ((ι → List T) × Option T) → Prop where
  | halts (e : Fatal) : Agrees (.error e) (.error e)
  | returns {t : Nodes ι T} {nodes : ι → List Nat} (out : Option T) (h : Repr t nodes) :
      Agrees (.ok (t, out)) (.ok (t.contents nodes, out))

section
variable {ι T : Type*} [DecidableEq ι] [DecidableEq T] {s t : Nodes ι T} {nodes : ι → List Nat}

theorem exec_remove {n : Nat} {l : ι} {elem : T} {r : Except Fatal (Nodes ι T)}
    (h : loop (s.removeBody l elem) n (.head l, s.next (.head l)) = some r) :
    s.exec n (.remove l elem) = some (r.map fun t => (t, none)) := by
  rw [Nodes.exec, h]
  rfl

theorem exec_filter {n : Nat} {l : ι} {p : T → Bool}
    (h : loop (Nodes.filterBody l p) n (.head l, s.next (.head l), s) = some t) :
    s.exec n (.filter l p) = some (.ok (t, none)) := by
  rw [Nodes.exec, h]
  rfl

theorem exec_forEach {n : Nat} {l : ι} {func : T → T}
    (h : loop (Nodes.forEachBody func) n (s.next (.head l), s) = some t) :
    s.exec n (.forEach l func) = some (.ok (t, none)) := by
  rw [Nodes.exec, h]
  rfl

theorem exec_locate {n : Nat} {l : ι} {p : T → Bool} {r : Except Fatal T}
    (h : loop (s.locateBody p) n (s.next (.head l)) = some r) :
    s.exec n (.locate l p) = some (r.map fun x => (s, some x)) := by
  rw [Nodes.exec, h]
  rfl

theorem refines_insert (h : Repr s nodes) (l : ι) (elem : T) {cur : Nat} (hcur : cur ∉ s.allocated) :
    ∃ rounds r, s.exec rounds (.insert l elem cur) = some r ∧
      Agrees r (ListOp.apply (s.contents nodes) (.insert l elem cur)) := by
  refine ⟨0, _, rfl, ?_⟩
  rw [ListOp.apply, ← insert_contents h hcur elem]
  exact .returns none (h.insert hcur elem)

theorem refines_remove (h : Repr s nodes) (l : ι) (elem : T) :
    ∃ rounds r, s.exec rounds (.remove l elem) = some r ∧
      Agrees r (ListOp.apply (s.contents nodes) (.remove l elem)) := by
  have hhead := (h.chain l).head
  have hwhole : nodes l = [] ++ nodes l := rfl
  rcases remove_loops h elem hwhole with ⟨hq, n, hloop⟩ | ⟨c, a, b, hl, hq, n, hloop⟩
  · refine ⟨n, .error .elemNotFound, ?_, ?_⟩
    · rw [← hhead] at hloop
      exact exec_remove hloop
    · show Agrees _ ((LinkedList.remove ((nodes l).map s.data) elem).map _)
      rw [hq]
      exact .halts _
  · refine ⟨n, .ok (s.unlink l (lastPlace Place.node (.head l) a) c, none), ?_, ?_⟩
    · rw [← hhead] at hloop
      exact exec_remove hloop
    · show Agrees _ ((LinkedList.remove ((nodes l).map s.data) elem).map _)
      rw [hq]
      show Agrees _ (.ok (Function.update (s.contents nodes) l ((a ++ b).map s.data), none))
      rw [← unlink_contents c (lastPlace Place.node (.head l) a)]
      exact .returns none (h.unlink hl)

theorem refines_filter (h : Repr s nodes) (l : ι) (p : T → Bool) :
    ∃ rounds r, s.exec rounds (.filter l p) = some r ∧
      Agrees r (ListOp.apply (s.contents nodes) (.filter l p)) := by
  have hhead := (h.chain l).head
  have hwhole : nodes l = [] ++ nodes l := rfl
  obtain ⟨t, ns, ⟨n, hloop⟩, hdata, hrepr, hns⟩ := filter_loops h p hwhole
  refine ⟨n, .ok (t, none), ?_, ?_⟩
  · rw [← hhead] at hloop
    exact exec_filter hloop
  · have hcontents : t.contents (Function.update nodes l ns)
        = Function.update (s.contents nodes) l ((s.contents nodes l).filter p) := by
      rw [contents_update ns fun l' _ n _ => congrFun hdata n, hdata, hns]
      rfl
    rw [ListOp.apply, ← hcontents]
    exact .returns none hrepr

theorem refines_forEach (h : Repr s nodes) (l : ι) (func : T → T) :
    ∃ rounds r, s.exec rounds (.forEach l func) = some r ∧
      Agrees r (ListOp.apply (s.contents nodes) (.forEach l func)) := by
  have hhead := (h.chain l).head
  obtain ⟨t, ⟨n, hloop⟩, hfields, hdata⟩ := forEach_loops (h.chain l) (h.nodup l) func
  refine ⟨n, .ok (t, none), ?_, ?_⟩
  · rw [← hhead] at hloop
    exact exec_forEach hloop
  · have hrepr : Repr t nodes := by
      rw [hfields]
      exact ⟨h.chain, h.tail, h.nodup, h.apart, h.allocated⟩
    have hcontents : t.contents nodes = Function.update (s.contents nodes) l ((s.contents nodes l).map func) := by
      have hother : ∀ l' ≠ l, ∀ n ∈ nodes l', t.data n = s.data n := fun l' hl n hn => by
        rw [hdata, if_neg fun hn' => h.apart l' l hl hn hn']
      have hself : (nodes l).map t.data = (s.contents nodes l).map func := by
        show _ = ((nodes l).map s.data).map func
        rw [List.map_map]
        exact List.map_congr_left fun n hn => (hdata n).trans (if_pos hn)
      rw [← hself, ← contents_update (nodes l) hother, update_same rfl]
    rw [ListOp.apply, ← hcontents]
    exact .returns none hrepr

theorem refines_locate (h : Repr s nodes) (l : ι) (p : T → Bool) :
    ∃ rounds r, s.exec rounds (.locate l p) = some r ∧
      Agrees r (ListOp.apply (s.contents nodes) (.locate l p)) := by
  have hhead := (h.chain l).head
  have hwhole : nodes l = [] ++ nodes l := rfl
  obtain ⟨n, hloop⟩ := locate_loops h p hwhole
  rw [← hhead] at hloop
  refine ⟨n, _, exec_locate hloop, ?_⟩
  show Agrees _ ((LinkedList.locate p ((nodes l).map s.data)).map _)
  cases LinkedList.locate p ((nodes l).map s.data) with
  | error e => exact .halts e
  | ok x => exact .returns (some x) h

theorem refines_popFront (h : Repr s nodes) (l : ι) :
    ∃ rounds r, s.exec rounds (.popFront l) = some r ∧
      Agrees r (ListOp.apply (s.contents nodes) (.popFront l)) := by
  have hhead := (h.chain l).head
  refine ⟨0, _, rfl, ?_⟩
  show Agrees _ ((LinkedList.popFront ((nodes l).map s.data)).map _)
  cases hl : nodes l with
  | nil =>
    rw [hl] at hhead
    have hpop : s.popFront l = .error .emptyQueueToPop := by
      unfold Nodes.popFront
      rw [hhead]
      rfl
    rw [hpop]
    exact .halts _
  | cons c ns =>
    rw [hl] at hhead
    rw [popFront_eq hhead]
    show Agrees _ (.ok (Function.update (s.contents nodes) l (ns.map s.data), some (s.data c)))
    rw [← unlink_contents c (.head l)]
    exact .returns (some (s.data c)) (h.unlink (show nodes l = [] ++ c :: ns from hl))

theorem refines_scribble (h : Repr s nodes) {n : Nat} (x : T) (next : Option Nat) (hn : n ∉ s.allocated) :
    ∃ rounds r, s.exec rounds (.scribble n x next) = some r ∧
      Agrees r (ListOp.apply (s.contents nodes) (.scribble n x next)) := by
  have hnot : ∀ l, n ∉ nodes l := fun l hl => hn ((h.allocated n).mpr ⟨l, hl⟩)
  refine ⟨0, _, rfl, ?_⟩
  have hcontents : ((s.setData n x).setNext (.node n) next).contents nodes = s.contents nodes := by
    funext l
    refine List.map_congr_left fun m hm => Function.update_of_ne ?_ _ _
    rintro rfl
    exact hnot l hm
  rw [ListOp.apply, ← hcontents]
  refine .returns none ⟨fun l => (h.chain l).congr fun q hq => Function.update_of_ne ?_ _ _, h.tail, h.nodup, h.apart,
    h.allocated⟩
  rintro rfl
  exact hnot l (mem_places.mp hq)

/-- an operation ends, with the outcome it has on mathematical lists -/
theorem refines (h : Repr s nodes) (op : ListOp ι T) (he : s.Enabled op) :
    ∃ rounds r, s.exec rounds op = some r ∧ Agrees r (op.apply (s.contents nodes)) := by
  cases op with
  | insert l elem cur => exact refines_insert h l elem he
  | remove l elem => exact refines_remove h l elem
  | filter l p => exact refines_filter h l p
  | forEach l func => exact refines_forEach h l func
  | locate l p => exact refines_locate h l p
  | popFront l => exact refines_popFront h l
  | scribble n x next => exact refines_scribble h x next he

/-- the outcome does not depend on the rounds allowed -/
theorem exec_unique {rounds rounds' : Nat} {op : ListOp ι T} {r r' : Except Fatal (Nodes ι T × Option T)}
    (h : s.exec rounds op = some r) (h' : s.exec rounds' op = some r') : r = r' := by
  cases op with
  | insert l elem cur => exact Option.some.inj (h.symm.trans h')
  | remove l elem => exact loop_map_unique h h'
  | filter l p => exact loop_map_unique h h'
  | forEach l func => exact loop_map_unique h h'
  | locate l p => exact loop_map_unique h h'
  | popFront l => exact Option.some.inj (h.symm.trans h')
  | scribble n x next => exact Option.some.inj (h.symm.trans h')

theorem refines_step {op : ListOp ι T × Option T} (h : Repr s nodes) (hs : s.Step op t) :
    ∃ nodes', Repr t nodes' ∧ ListOp.Applied (s.contents nodes) op (t.contents nodes') := by
  obtain ⟨he, rounds, hexec⟩ := hs
  obtain ⟨rounds', r, hr, hagrees⟩ := refines h op.1 he
  obtain rfl := exec_unique hr hexec
  unfold ListOp.Applied
  generalize op.1.apply (s.contents nodes) = a at hagrees
  cases hagrees with
  | returns out h' => exact ⟨_, h', rfl⟩

theorem refines_run {ops : List (ListOp ι T × Option T)} (h : Repr s nodes) (hr : Path Nodes.Step s ops t) :
    ∃ nodes', Repr t nodes' ∧ Path ListOp.Applied (s.contents nodes) ops (t.contents nodes') := by
  induction ops generalizing s nodes with
  | nil =>
    obtain rfl := path_nil.mp hr
    exact ⟨nodes, h, rfl⟩
  | cons op ops ih =>
    obtain ⟨u, hu, hr⟩ := hr
    obtain ⟨nodes', h', ha⟩ := refines_step h hu
    obtain ⟨nodes'', h'', hp⟩ := ih h' hr
    exact ⟨nodes'', h'', _, ha, hp⟩

/-- **After any sequence of operations the lists in memory are chains of nodes that hold the mathematical
lists, and the next operation, whichever it is, ends with the outcome it has on these.** -/
theorem lists_refine (data : Nat → T) (ops : List (ListOp ι T × Option T)) (s : Nodes ι T)
    (hr : Path Nodes.Step (Nodes.empty data) ops s) :
    ∃ nodes, Repr s nodes ∧ Path ListOp.Applied (fun _ => []) ops (s.contents nodes) ∧
      ∀ op, s.Enabled op → ∃ rounds r, s.exec rounds op = some r ∧ Agrees r (op.apply (s.contents nodes)) := by
  obtain ⟨nodes, h, hp⟩ := refines_run (repr_empty data) hr
  exact ⟨nodes, h, hp, fun op he => refines h op he⟩

/-- two elements come into a list, the first goes out by `remove`, the second by `pop_front` -/
theorem lists_refine_two : ∃ s, Path Nodes.Step (Nodes.empty fun _ => 0 : Nodes Bool Nat)
    [(.insert true 7 0, none), (.insert true 8 1, none), (.remove true 7, none), (.popFront true, some 8)] s ∧
    ∃ nodes, Repr s nodes ∧ Path ListOp.Applied (fun _ => [])
      [(.insert true 7 0, none), (.insert true 8 1, none), (.remove true 7, none), (.popFront true, some 8)]
      (s.contents nodes) := by
  have hr : ∃ s, Path Nodes.Step (Nodes.empty fun _ => 0 : Nodes Bool Nat)
      [(.insert true 7 0, none), (.insert true 8 1, none), (.remove true 7, none), (.popFront true, some 8)] s := by
    have h0 : (0 : Nat) ∉ (∅ : Finset Nat) := Finset.notMem_empty 0
    have h1 : (1 : Nat) ∉ (Insert.insert 0 ∅ : Finset Nat) := by decide
    exact ⟨_, _, ⟨h0, 0, rfl⟩, _, ⟨h1, 0, rfl⟩, _, ⟨trivial, 1, rfl⟩, _, ⟨trivial, 0, rfl⟩, rfl⟩
  obtain ⟨s, hr⟩ := hr
  obtain ⟨nodes, h, hp, -⟩ := lists_refine _ _ s hr
  exact ⟨s, hr, nodes, h, hp⟩

end

end StarOS
