import Mathlib.Data.List.Basic

/-!
# Computations with a state that may halt

`EStateM ε σ α` keeps the state when it halts: a result is `.ok a s` or `.error e s`.

* `final`              the state a result ends in;
* `Ends P E r`         what holds at the end: `P` after a value, `E` after a halt;
* `Ends.bind`, `Ends.forM`   the rules for a sequence and for a loop over a list;
* `Keeps I x`          the computation keeps the invariant `I`, whether it returns or halts;
* `Alike I r r'`       two results end the same way, in states related by `I`;
* `Alike.bind`, `Alike.forM`   the same two rules for the refinement of one computation by another.
-/

namespace Lib

section
variable {ε σ τ α β ι : Type}

def final : EStateM.Result ε σ α → σ
  | .ok _ s => s
  | .error _ s => s

/-! ## sequences -/

theorem bind_ok {x : EStateM ε σ α} {f : α → EStateM ε σ β} {s t : σ} {a : α} (h : x s = .ok a t) :
    (x >>= f) s = f a t := by
  show EStateM.bind x f s = _
  rw [EStateM.bind, h]

theorem bind_error {x : EStateM ε σ α} {f : α → EStateM ε σ β} {s t : σ} {e : ε}
    (h : x s = .error e t) : (x >>= f) s = .error e t := by
  show EStateM.bind x f s = _
  rw [EStateM.bind, h]

/-- a sequence that returns: so did both parts -/
theorem of_bind {x : EStateM ε σ α} {f : α → EStateM ε σ β} {s t : σ} {b : β}
    (h : (x >>= f) s = .ok b t) : ∃ a s', x s = .ok a s' ∧ f a s' = .ok b t := by
  cases hx : x s with
  | ok a s' => exact ⟨a, s', rfl, (bind_ok hx).symm.trans h⟩
  | error e s' => cases (bind_error hx).symm.trans h

theorem bind_get (f : σ → EStateM ε σ β) (s : σ) : (get >>= f) s = f s s := rfl

/-- a loop over a list, with its last round apart -/
theorem forM_snoc (f : ι → EStateM ε σ PUnit) (l : List ι) (i : ι) :
    (l ++ [i]).forM f = (l.forM f >>= fun _ => f i) := by
  have happend : (l ++ [i]).forM f = (l.forM f >>= fun _ => [i].forM f) := List.forM_append
  rw [happend]
  refine congrArg (l.forM f >>= ·) (funext fun _ => ?_)
  exact bind_pure_unit

/-! ## what holds at the end -/

inductive Ends (P : α → σ → Prop) (E : ε → σ → Prop) : EStateM.Result ε σ α → Prop
  | ok {a s} : P a s → Ends P E (.ok a s)
  | error {e s} : E e s → Ends P E (.error e s)

theorem Ends.imp {P P' : α → σ → Prop} {E E' : ε → σ → Prop} {r : EStateM.Result ε σ α}
    (h : Ends P E r) (hP : ∀ a s, P a s → P' a s) (hE : ∀ e s, E e s → E' e s) : Ends P' E' r := by
  cases h with
  | ok h => exact .ok (hP _ _ h)
  | error h => exact .error (hE _ _ h)

/-- what holds of the last state, after a value or a halt -/
theorem Ends.final {P : α → σ → Prop} {E : ε → σ → Prop} {r : EStateM.Result ε σ α} {Q : σ → Prop}
    (h : Ends P E r) (hP : ∀ a s, P a s → Q s) (hE : ∀ e s, E e s → Q s) : Q (Lib.final r) := by
  cases h with
  | ok h => exact hP _ _ h
  | error h => exact hE _ _ h

theorem Ends.of_ok {P : α → σ → Prop} {E : ε → σ → Prop} {r : EStateM.Result ε σ α} {a : α} {s : σ}
    (h : Ends P E r) (hr : r = .ok a s) : P a s := by
  rw [hr] at h
  cases h with
  | ok h => exact h

theorem Ends.bind {P : α → σ → Prop} {Q : β → σ → Prop} {E : ε → σ → Prop} {x : EStateM ε σ α}
    {f : α → EStateM ε σ β} {s : σ} (hx : Ends P E (x s)) (hf : ∀ a t, P a t → Ends Q E (f a t)) :
    Ends Q E ((x >>= f) s) := by
  cases h : x s with
  | ok a t =>
    rw [h] at hx
    rw [bind_ok h]
    cases hx with
    | ok hP => exact hf a t hP
  | error e t =>
    rw [h] at hx
    rw [bind_error h]
    cases hx with
    | error hE => exact .error hE

/-- the invariant rule of a loop over a list, which may lean on the elements still to come -/
theorem Ends.forM {I : List ι → σ → Prop} {E : ε → σ → Prop} {f : ι → EStateM ε σ PUnit}
    (hf : ∀ i l s, I (i :: l) s → Ends (fun _ t => I l t) E (f i s)) {l : List ι} {s : σ}
    (hs : I l s) : Ends (fun _ t => I [] t) E (l.forM f s) := by
  induction l generalizing s with
  | nil => exact .ok hs
  | cons i l ih => exact (hf i l s hs).bind fun _ t ht => ih ht

/-! ## computations that keep an invariant -/

def Keeps (I : σ → Prop) (x : EStateM ε σ α) : Prop := ∀ s, I s → I (final (x s))

theorem Keeps.of_ok {I : σ → Prop} {x : EStateM ε σ α} {s t : σ} {a : α} (h : Keeps I x) (hs : I s)
    (hx : x s = .ok a t) : I t := by
  have := h s hs
  rwa [hx] at this

theorem Keeps.pure {I : σ → Prop} (a : α) : Keeps I (pure a : EStateM ε σ α) := fun _ hs => hs

theorem Keeps.bind {I : σ → Prop} {x : EStateM ε σ α} {f : α → EStateM ε σ β} (hx : Keeps I x)
    (hf : ∀ a, Keeps I (f a)) : Keeps I (x >>= f) := by
  intro s hs
  have hs' := hx s hs
  cases h : x s with
  | ok a t =>
    rw [h] at hs'
    rw [bind_ok h]
    exact hf a t hs'
  | error e t =>
    rw [h] at hs'
    rw [bind_error h]
    exact hs'

/-- a computation that looks at its state first -/
theorem Keeps.get {I : σ → Prop} {f : σ → EStateM ε σ β} (hf : ∀ s, Keeps I (f s)) :
    Keeps I (get >>= f) := fun s hs => hf s s hs

theorem Keeps.forM {I : σ → Prop} {f : ι → EStateM ε σ PUnit} {l : List ι} (hf : ∀ i ∈ l, Keeps I (f i)) :
    Keeps I (l.forM f) := by
  induction l with
  | nil => exact .pure _
  | cons i l ih =>
    exact (hf i List.mem_cons_self).bind fun _ => ih fun j hj => hf j (List.mem_cons_of_mem _ hj)

/-! ## two computations that go the same way -/

inductive Alike (I : σ → τ → Prop) : EStateM.Result ε σ α → EStateM.Result ε τ α → Prop
  | ok {a s t} : I s t → Alike I (.ok a s) (.ok a t)
  | error {e s t} : I s t → Alike I (.error e s) (.error e t)

theorem Alike.final {I : σ → τ → Prop} {r : EStateM.Result ε σ α} {r' : EStateM.Result ε τ α}
    (h : Alike I r r') : I (Lib.final r) (Lib.final r') := by
  cases h with
  | ok h => exact h
  | error h => exact h

theorem Alike.imp {I J : σ → τ → Prop} {r : EStateM.Result ε σ α} {r' : EStateM.Result ε τ α}
    (h : Alike I r r') (hI : ∀ s t, I s t → J s t) : Alike J r r' := by
  cases h with
  | ok h => exact .ok (hI _ _ h)
  | error h => exact .error (hI _ _ h)

theorem Alike.bind {I : σ → τ → Prop} {x : EStateM ε σ α} {y : EStateM ε τ α}
    {f : α → EStateM ε σ β} {g : α → EStateM ε τ β} {s : σ} {t : τ} (hx : Alike I (x s) (y t))
    (hf : ∀ a s' t', x s = .ok a s' → y t = .ok a t' → I s' t' → Alike I (f a s') (g a t')) :
    Alike I ((x >>= f) s) ((y >>= g) t) := by
  cases hxs : x s with
  | ok a s' =>
    cases hyt : y t with
    | ok b t' =>
      rw [hxs, hyt] at hx
      rw [bind_ok hxs, bind_ok hyt]
      cases hx with
      | ok hI => exact hf a s' t' hxs hyt hI
    | error e t' =>
      rw [hxs, hyt] at hx
      cases hx
  | error e s' =>
    cases hyt : y t with
    | ok b t' =>
      rw [hxs, hyt] at hx
      cases hx
    | error e' t' =>
      rw [hxs, hyt] at hx
      rw [bind_error hxs, bind_error hyt]
      cases hx with
      | error hI => exact .error hI

/-- a step of the first computation that the second one does not have -/
theorem Alike.stutter {I : σ → τ → Prop} {x : EStateM ε σ PUnit} {y : EStateM ε τ PUnit}
    {f : PUnit → EStateM ε σ PUnit} {s : σ} {t : τ} (hx : Alike I (x s) (y t))
    (hf : ∀ s' t', y t = .ok ⟨⟩ t' → I s' t' → ∃ s'', f ⟨⟩ s' = .ok ⟨⟩ s'' ∧ I s'' t') :
    Alike I ((x >>= f) s) (y t) := by
  cases hxs : x s with
  | ok a s' =>
    cases hyt : y t with
    | ok b t' =>
      rw [hxs, hyt] at hx
      cases hx with
      | ok hI =>
        obtain ⟨s'', hs, hI'⟩ := hf s' t' hyt hI
        rw [bind_ok hxs, hs]
        exact .ok hI'
    | error e t' =>
      rw [hxs, hyt] at hx
      cases hx
  | error e s' =>
    rw [bind_error hxs, ← hxs]
    cases hyt : y t with
    | ok b t' =>
      rw [hxs, hyt] at hx
      cases hx
    | error e' t' =>
      rw [hxs, hyt] at hx
      rw [hxs]
      cases hx with
      | error hI => exact .error hI

/-- `J` is what the loop of the second computation keeps -/
theorem Alike.forM {I : σ → τ → Prop} {J : τ → Prop} {f : ι → EStateM ε σ PUnit}
    {g : ι → EStateM ε τ PUnit} {l : List ι}
    (hf : ∀ i ∈ l, ∀ s t, I s t → J t → Alike I (f i s) (g i t))
    (hJ : ∀ i ∈ l, ∀ t u, J t → g i t = .ok ⟨⟩ u → J u) {s : σ} {t : τ} (hs : I s t) (ht : J t) :
    Alike I (l.forM f s) (l.forM g t) := by
  induction l generalizing s t with
  | nil => exact .ok hs
  | cons i l ih =>
    refine (hf i List.mem_cons_self s t hs ht).bind fun _ s' t' _ hg hI => ?_
    exact ih (fun j hj => hf j (List.mem_cons_of_mem _ hj)) (fun j hj => hJ j (List.mem_cons_of_mem _ hj))
      hI (hJ i List.mem_cons_self t t' ht hg)

end

end Lib
