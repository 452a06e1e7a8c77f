import StarOS.Strings
import StarOS.Lib.Compare

/-!
# The order `strcmp` decides

`<` on lists of bytes is the lexicographic order, of the bytes as unsigned values.  `char` is signed.

* `NulString`, `IsString`   a string without its null byte, and an array that begins with it;
* `Returns`            what `strcmp` returns for two strings, wherever they are;
* `strcmp_eq`          it compares the strings by their characters as signed values;
* `lexicographic_iff`  when a comparison is the documented order;
* `strcmp_orders_iff`  **`strcmp` is, for two strings, exactly if the first bytes in which they differ are on one
                       side of 0x80**; it is antisymmetric and transitive for all.
-/

namespace StarOS
open Lib

/-- a string, without the null byte at its end -/
abbrev NulString := {cs : List UInt8 // 0 ∉ cs}

/-- the array begins with the string -/
def IsString : Mem → List UInt8 → Prop
  | p, [] => p 0 = 0
  | p, c :: cs => p 0 = c ∧ IsString (advance p 1) cs

/-- what `strcmp` returns for two strings, wherever they are and whatever follows them -/
def Returns (a b : NulString) (r : Int) : Prop :=
  ∀ n lhs rhs, IsString lhs a → IsString rhs b → a.1.length < n → b.1.length < n → strcmp n lhs rhs = some r

/-- the contract in `bootloader32.h` -/
structure Lexicographic (r : Int) (a b : List UInt8) : Prop where
  zero : r = 0 ↔ a = b
  negative : r < 0 ↔ a < b
  positive : 0 < r ↔ b < a

/-- the first bytes in which the strings differ are on two sides of 0x80 -/
def Straddles (a b : List UInt8) : Prop :=
  FirstDiffer (fun x y => (x < 0x80 ∧ 0x80 ≤ y) ∨ (0x80 ≤ x ∧ y < 0x80)) a b

/-! ## characters -/

/-- a byte as a `char` -/
def charValue (c : UInt8) : Int := c.toInt8.toInt

theorem charValue_eq (c : UInt8) : charValue c = if c.toNat < 128 then (c.toNat : Int) else c.toNat - 256 := by
  have h := c.toNat_lt
  have e : charValue c = (c.toNat : Int).bmod (2^8) := BitVec.toInt_eq_toNat_bmod c.toBitVec
  rw [e, Int.bmod_def]
  split <;> split <;> omega

theorem charValue_injective : Function.Injective charValue := by
  intro x y h
  have hx := x.toNat_lt
  have hy := y.toNat_lt
  rw [charValue_eq, charValue_eq] at h
  apply UInt8.toNat_inj.mp
  split at h <;> split at h <;> omega

theorem toNat_injective : Function.Injective UInt8.toNat := fun _ _ h => UInt8.toNat_inj.mp h

/-- two different characters compare as their bytes do, unless the sign bit is set in one of them only -/
theorem charValue_lt_iff {x y : UInt8} :
    ¬ (charValue x < charValue y ↔ x.toNat < y.toNat) ↔ (x < 0x80 ∧ 0x80 ≤ y) ∨ (0x80 ≤ x ∧ y < 0x80) := by
  have hx := x.toNat_lt
  have hy := y.toNat_lt
  have h80 : (0x80 : UInt8).toNat = 128 := rfl
  rw [charValue_eq, charValue_eq, UInt8.lt_iff_toNat_lt, UInt8.lt_iff_toNat_lt, UInt8.le_iff_toNat_le,
    UInt8.le_iff_toNat_le, h80]
  split <;> split <;> omega

/-! ## the comparison as a function of the strings -/

theorem strcmp_eq {n : Nat} {lhs rhs : Mem} {a b : List UInt8} (ha0 : 0 ∉ a) (hb0 : 0 ∉ b) (ha : IsString lhs a)
    (hb : IsString rhs b) (hna : a.length < n) (hnb : b.length < n) :
    strcmp n lhs rhs = some (compareBy charValue a b) := by
  induction a generalizing n lhs rhs b with
  | nil =>
    obtain ⟨n, rfl⟩ := Nat.exists_eq_add_one.mpr (Nat.zero_lt_of_lt hna)
    have hl : lhs 0 = 0 := ha
    rw [strcmp, if_neg (fun h => h.1 hl)]
    cases b with
    | nil => exact if_pos ⟨hl, hb⟩
    | cons y bs =>
      have hy : rhs 0 ≠ 0 := hb.1 ▸ (List.ne_of_not_mem_cons hb0).symm
      rw [if_neg (fun h => hy h.2), if_pos hl]
      rfl
  | cons x as ih =>
    obtain ⟨n, rfl⟩ := Nat.exists_eq_add_one.mpr (Nat.zero_lt_of_lt hna)
    obtain ⟨rfl, has⟩ := ha
    have hl : lhs 0 ≠ 0 := (List.ne_of_not_mem_cons ha0).symm
    rw [strcmp]
    cases b with
    | nil =>
      have hr : rhs 0 = 0 := hb
      rw [if_neg (fun h => h.2 hr), if_neg (fun h => hl h.1), if_neg hl]
      rfl
    | cons y bs =>
      obtain ⟨rfl, hbs⟩ := hb
      have hr : rhs 0 ≠ 0 := (List.ne_of_not_mem_cons hb0).symm
      rw [if_pos ⟨hl, hr⟩]
      by_cases h : lhs 0 = rhs 0
      · rw [if_pos h, h, compareBy_self]
        exact ih (List.not_mem_of_not_mem_cons ha0) (List.not_mem_of_not_mem_cons hb0) has hbs
          (Nat.lt_of_succ_lt_succ hna) (Nat.lt_of_succ_lt_succ hnb)
      · have hlt : (lhs 0).toInt8 < (rhs 0).toInt8 ↔ charValue (lhs 0) < charValue (rhs 0) := Int8.lt_iff_toInt_lt
        rw [if_neg h, compareBy_of_ne charValue h]
        simp only [hlt]
        split <;> rfl

/-- an array of the string, with zeros behind it -/
theorem isString_getD (cs : List UInt8) : IsString (fun i => cs.getD i 0) cs := by
  induction cs with
  | nil => rfl
  | cons c cs ih =>
    have e : advance (fun i => (c :: cs).getD i 0) 1 = fun i => cs.getD i 0 := by
      funext i
      show (c :: cs).getD (1 + i) 0 = _
      rw [Nat.add_comm, List.getD_cons_succ]
    refine ⟨rfl, ?_⟩
    rw [e]
    exact ih

theorem returns_iff {a b : NulString} {r : Int} : Returns a b r ↔ r = compareBy charValue a.1 b.1 := by
  constructor
  · intro h
    have hr := h (a.1.length + b.1.length + 1) _ _ (isString_getD _) (isString_getD _) (by omega) (by omega)
    rw [strcmp_eq a.2 b.2 (isString_getD _) (isString_getD _) (by omega) (by omega)] at hr
    exact (Option.some.inj hr).symm
  · rintro rfl n lhs rhs ha hb hna hnb
    exact strcmp_eq a.2 b.2 ha hb hna hnb

/-! ## the contract -/

/-- a comparison by another key is the documented order where it is the comparison by the bytes -/
theorem lexicographic_iff_eq {f : UInt8 → Int} {a b : List UInt8} :
    Lexicographic (compareBy f a b) a b ↔ compareBy f a b = compareBy UInt8.toNat a b := by
  have hzero : compareBy UInt8.toNat a b = 0 ↔ a = b := compareBy_eq_zero UInt8.toNat
  have hneg : compareBy UInt8.toNat a b < 0 ↔ a < b :=
    (compareBy_neg toNat_injective).trans (map_lt_map_iff_lt toNat_injective fun _ _ => UInt8.lt_iff_toNat_lt)
  have hpos : 0 < compareBy UInt8.toNat a b ↔ b < a :=
    (compareBy_pos toNat_injective).trans (map_lt_map_iff_lt toNat_injective fun _ _ => UInt8.lt_iff_toNat_lt)
  constructor
  · rintro ⟨h0, h1, h2⟩
    rw [← hneg] at h1
    rw [← hpos] at h2
    have hf := compareBy_range f a b
    have hg := compareBy_range UInt8.toNat a b
    omega
  · intro h
    rw [h]
    exact ⟨hzero, hneg, hpos⟩

theorem lexicographic_iff (a b : List UInt8) : Lexicographic (compareBy charValue a b) a b ↔ ¬ Straddles a b := by
  rw [lexicographic_iff_eq, compareBy_eq_iff, Straddles]
  simp only [charValue_lt_iff]

/-- **What `strcmp` returns for two strings is antisymmetric and transitive, and it is the documented order, of
the bytes as unsigned values, if and only if the first bytes in which they differ are on one side of 0x80.** -/
theorem strcmp_orders_iff (a b : NulString) :
    (∃ r, Returns a b r ∧ Lexicographic r a b ∧ Returns b a (-r) ∧
      ∀ c s, Returns b c s → r < 0 → s < 0 → ∃ t, Returns a c t ∧ t < 0) ↔ ¬ Straddles a b := by
  constructor
  · rintro ⟨r, hr, hlex, -⟩
    rw [returns_iff.mp hr] at hlex
    exact (lexicographic_iff a b).mp hlex
  · intro h
    refine ⟨_, returns_iff.mpr rfl, (lexicographic_iff a b).mpr h, ?_, fun c s hs hr hs0 => ?_⟩
    · exact returns_iff.mpr (compareBy_antisymm charValue_injective a.1 b.1).symm
    · rw [returns_iff.mp hs] at hs0
      exact ⟨_, returns_iff.mpr rfl, compareBy_trans charValue_injective hr hs0⟩

/-- 0x80 is negative as a `char` -/
theorem high_byte_precedes : ¬ ∀ a b : NulString, ∃ r, Returns a b r ∧ Lexicographic r a b ∧ Returns b a (-r) ∧
    ∀ c s, Returns b c s → r < 0 → s < 0 → ∃ t, Returns a c t ∧ t < 0 := by
  intro hall
  obtain ⟨r, hr, hlex, -⟩ := hall ⟨[0x61], by decide⟩ ⟨[0x80], by decide⟩
  rw [returns_iff.mp hr] at hlex
  exact absurd (hlex.negative.mpr (by decide)) (by decide)

end StarOS
