import Mathlib.Data.List.Nodup
import Mathlib.Logic.Function.Basic

/-!
# Chains of links

`next p` is the node the place `p` leads to, and `node n` the place of the node `n`, from which the chain
goes on.

* `Links node next p ns e`   the chain from `p` goes through the nodes `ns`, and the last place leads to `e`;
* `lastPlace node p ns`      that last place;
* `links_append`             a chain cut in two;
* `Links.congr`              a chain does not depend on other places;
* `Links.rest`, `Links.head`   the rest of a chain and its first node;
* `Links.setLast`, `Links.skip`   the last link changed, a node cut out of a chain without repetition.
-/

namespace Lib

section
variable {P N : Type*} (node : N → P)

def Links (next : P → Option N) : P → List N → Option N → Prop
  | p, [], e => next p = e
  | p, n :: ns, e => next p = some n ∧ Links next (node n) ns e

def lastPlace : P → List N → P
  | p, [] => p
  | _, n :: ns => lastPlace (node n) ns

/-- the places of a chain -/
def places (p : P) (ns : List N) : List P := p :: ns.map node

end

section
variable {P N : Type*} {node : N → P} {next next' : P → Option N} {p : P} {ns ms : List N} {e : Option N}

theorem places_cons (n : N) : places node p (n :: ns) = p :: places node (node n) ns := rfl

theorem lastPlace_mem : lastPlace node p ns ∈ places node p ns := by
  induction ns generalizing p with
  | nil => exact List.mem_cons_self
  | cons n ns ih => exact List.mem_cons_of_mem _ ih

theorem lastPlace_append : lastPlace node p (ns ++ ms) = lastPlace node (lastPlace node p ns) ms := by
  induction ns generalizing p with
  | nil => rfl
  | cons n ns ih => exact ih

theorem links_append {m : N} :
    Links node next p (ns ++ m :: ms) e ↔ Links node next p ns (some m) ∧ Links node next (node m) ms e := by
  induction ns generalizing p with
  | nil => exact Iff.rfl
  | cons n ns ih =>
    show next p = some n ∧ Links node next (node n) (ns ++ m :: ms) e ↔ _
    rw [ih, ← and_assoc]
    rfl

theorem Links.congr (h : ∀ q ∈ places node p ns, next' q = next q) (hl : Links node next p ns e) :
    Links node next' p ns e := by
  induction ns generalizing p with
  | nil => exact (h p List.mem_cons_self).trans hl
  | cons n ns ih =>
    obtain ⟨h1, h2⟩ := hl
    exact ⟨(h p List.mem_cons_self).trans h1, ih (fun q hq => h q (List.mem_cons_of_mem _ hq)) h2⟩

/-- the rest of a chain -/
theorem Links.rest (hl : Links node next p (ns ++ ms) e) : Links node next (lastPlace node p ns) ms e := by
  induction ns generalizing p with
  | nil => exact hl
  | cons n ns ih => exact ih hl.2

/-- the first node of a chain that ends -/
theorem Links.head (hl : Links node next p ns none) : next p = ns.head? := by
  cases ns with
  | nil => exact hl
  | cons n ns => exact hl.1

variable [DecidableEq P]

theorem Links.setLast (hn : (places node p ns).Nodup) (hl : Links node next p ns e) (e' : Option N) :
    Links node (Function.update next (lastPlace node p ns) e') p ns e' := by
  induction ns generalizing p with
  | nil => exact Function.update_self _ _ _
  | cons n ns ih =>
    obtain ⟨h1, h2⟩ := hl
    rw [places_cons, List.nodup_cons] at hn
    refine ⟨?_, ih hn.2 h2⟩
    have hne : p ≠ lastPlace node (node n) ns := fun h => hn.1 (h ▸ lastPlace_mem)
    rw [← h1]
    exact Function.update_of_ne hne _ _

/-- a node is cut out by letting the place before it lead to where the node led -/
theorem Links.skip {n : N} (hn : (places node p (ns ++ n :: ms)).Nodup) (hl : Links node next p (ns ++ n :: ms) e) :
    Links node (Function.update next (lastPlace node p ns) (next (node n))) p (ns ++ ms) e := by
  obtain ⟨h1, h2⟩ := links_append.mp hl
  have hsplit : places node p (ns ++ n :: ms) = places node p ns ++ places node (node n) ms := by
    unfold places
    rw [List.map_append, List.map_cons]
    rfl
  rw [hsplit] at hn
  obtain ⟨hn1, -, hapart⟩ := List.nodup_append.mp hn
  have h3 := h1.setLast hn1 (next (node n))
  cases ms with
  | nil =>
    rw [List.append_nil]
    exact h2 ▸ h3
  | cons m ms =>
    refine links_append.mpr ⟨h2.1 ▸ h3, h2.2.congr fun q hq => ?_⟩
    refine Function.update_of_ne (fun h => ?_) _ _
    exact hapart _ lastPlace_mem _ (List.mem_cons_of_mem _ hq) h.symm

end

end Lib
