import StarOS.Disk.Pci
import StarOS.Lib.Sweep
import Mathlib.Data.Fin.Basic

/-!
# What `enumerate_PCI_devices` changes

* `PciFunction`        a function of a device of a bus, `register` the address of one of its registers;
* `pciAddress_eq`      the address in digits, so that no two functions share one;
* `Native`             the functions that `check_target` writes to: IDE controllers with the programming interface
                       0x8f;
* `enumerate_native`, `enumerate_other`   the loops over busses, devices and functions write `writeBack` to register
                       2 of each, and nothing else;
* `enumerated_iff`     **what is promised comes about exactly if there is none**: the programming interface is put
                       together again without its shift, into the revision.
-/

namespace StarOS
open Lib

/-- bus, device and function -/
abbrev PciFunction := Fin 256 × Fin 32 × Fin 8

namespace PciFunction

/-- the address of register `i` -/
def register (f : PciFunction) (i : Nat) : Nat := pciAddress f.1 f.2.1 f.2.2 (i <<< 2)

/-- one of the 64 registers of the function -/
def Owns (f : PciFunction) (a : Nat) : Prop := ∃ i < 64, a = f.register i

end PciFunction

/-- there is a function of class 1 and subclass 1, with the programming interface 0x8f -/
def Native (cfg : PciSpace) (f : PciFunction) : Prop :=
  cfg (f.register 0) ≠ 0xffffffff ∧ (cfg (f.register 2) >>> 24) % 256 = 1 ∧ (cfg (f.register 2) >>> 16) % 256 = 1 ∧
    (cfg (f.register 2) >>> 8) % 256 = 0x8f

instance (cfg : PciSpace) (f : PciFunction) : Decidable (Native cfg f) := inferInstanceAs (Decidable (_ ∧ _))

/-- bits 0 and 2 of the programming interface are clear, and all other bits are as they were -/
def ModeCleared (old new : Nat) : Prop := ∀ i, new.testBit i = (old.testBit i && i != 8 && i != 10)

structure ModesCleared (cfg cfg' : PciSpace) : Prop where
  native : ∀ f, Native cfg f → ModeCleared (cfg (f.register 2)) (cfg' (f.register 2))
  other : ∀ a, (∀ f, Native cfg f → a ≠ f.register 2) → cfg' a = cfg a

/-- what a call is to do; the devices are enumerated once -/
def Pci.Promised (s t : Pci) : Prop := if s.pciDone then t.space = s.space else ModesCleared s.space t.space

/-! ## addresses -/

theorem or_eq_add {a b i : Nat} (ha : a % 2^i = 0) (hb : b < 2^i) : a ||| b = a + b := by
  obtain ⟨c, rfl⟩ := Nat.dvd_of_mod_eq_zero ha
  exact (Nat.two_pow_add_eq_or_of_lt hb c).symm

theorem pciAddress_eq {bus device func offset : Nat} (hb : bus < 256) (hd : device < 32) (hf : func < 8)
    (ho : offset < 256) :
    pciAddress bus device func offset = 2^31 + bus * 2^16 + device * 2^11 + func * 2^8 + offset := by
  have e5 : device &&& 0b11111 = device := Nat.and_two_pow_sub_one_of_lt_two_pow (n := 5) hd
  have e3 : func &&& 0b111 = func := Nat.and_two_pow_sub_one_of_lt_two_pow (n := 3) hf
  have h31 : 2^31 ||| bus * 2^16 = 2^31 + bus * 2^16 := or_eq_add (i := 31) (by omega) (by omega)
  have h16 : (2^31 + bus * 2^16) ||| device * 2^11 = 2^31 + bus * 2^16 + device * 2^11 :=
    or_eq_add (i := 16) (by omega) (by omega)
  have h11 : (2^31 + bus * 2^16 + device * 2^11) ||| func * 2^8
      = 2^31 + bus * 2^16 + device * 2^11 + func * 2^8 := or_eq_add (i := 11) (by omega) (by omega)
  rw [pciAddress, e5, e3, Nat.shiftLeft_eq, Nat.shiftLeft_eq, Nat.shiftLeft_eq, Nat.shiftLeft_eq, Nat.one_mul, h31,
    h16, h11, or_eq_add (i := 8) (by omega) ho]

theorem register_eq (f : PciFunction) {i : Nat} (hi : i < 64) :
    f.register i = 2^31 + f.1.val * 2^16 + f.2.1.val * 2^11 + f.2.2.val * 2^8 + 4 * i := by
  have e : i <<< 2 = 4 * i := by rw [Nat.shiftLeft_eq, Nat.mul_comm]
  rw [PciFunction.register, pciAddress_eq f.1.isLt f.2.1.isLt f.2.2.isLt (by omega), e]

theorem PciFunction.owns_apart (f g : PciFunction) (a : Nat) (hf : f.Owns a) (hg : g.Owns a) : f = g := by
  obtain ⟨i, hi, rfl⟩ := hf
  obtain ⟨j, hj, h⟩ := hg
  rw [register_eq f hi, register_eq g hj] at h
  obtain ⟨b, d, n⟩ := f
  obtain ⟨b', d', n'⟩ := g
  have hb := b.isLt
  have hd := d.isLt
  have hn := n.isLt
  have hb' := b'.isLt
  have hd' := d'.isLt
  have hn' := n'.isLt
  simp only at h
  have e1 : b = b' := Fin.ext (by omega)
  have e2 : d = d' := Fin.ext (by omega)
  have e3 : n = n' := Fin.ext (by omega)
  rw [e1, e2, e3]

/-! ## one function -/

/-- what `check_target` writes for the double word of a native function -/
def writeBack (data : Nat) : Nat := (1 <<< 24) ||| (1 <<< 16) ||| (0x8f &&& 0x8a) ||| (data &&& 0xff)

theorem checkTarget_apply (cfg : PciSpace) (f : PciFunction) (a : Nat) : checkTarget cfg f.1 f.2.1 f.2.2 a =
    if Native cfg f ∧ a = f.register 2 then writeBack (cfg (f.register 2)) else cfg a := by
  let d := cfg (f.register 2)
  show (if cfg (f.register 0) = 0xffffffff then cfg
    else if (d >>> 24) % 256 = 1 ∧ (d >>> 16) % 256 = 1 ∧ (d >>> 8) % 256 = 0x8f then
      fun a => if a = f.register 2 then (((d >>> 24) % 256) <<< 24) ||| (((d >>> 16) % 256) <<< 16)
        ||| (((d >>> 8) % 256) &&& 0x8a) ||| (d &&& 0xff) else cfg a
    else cfg) a = _
  by_cases h : Native cfg f
  · obtain ⟨h0, h1, h2, h3⟩ := h
    rw [if_neg h0, if_pos ⟨h1, h2, h3⟩, h1, h2, h3]
    simp only [Native, h0, h1, h2, h3, ne_eq, not_false_eq_true, and_self, true_and]
    rfl
  · have hnone : ¬ (Native cfg f ∧ a = f.register 2) := fun hn => h hn.1
    by_cases h0 : cfg (f.register 0) = 0xffffffff
    · rw [if_pos h0, if_neg hnone]
    · rw [if_neg h0, if_neg fun hn => h ⟨h0, hn⟩, if_neg hnone]

/-- the class is kept, the programming interface is lost, and its bits are in the revision -/
theorem writeBack_eq (data : Nat) : writeBack data = 1 * 2^24 + 1 * 2^16 + 0 * 2^8 + (0x8a ||| data % 256) := by
  have hmask : data &&& 0xff = data % 256 := Nat.and_two_pow_sub_one_eq_mod data 8
  have hlt : 0x8a ||| data % 256 < 2^8 := Nat.or_lt_two_pow (by decide) (Nat.mod_lt _ (by decide))
  show (0x1010000 ||| 0x8a ||| (data &&& 0xff)) = _
  rw [hmask, Nat.or_assoc, or_eq_add (i := 8) (by decide) hlt]
  rfl

theorem local_checkTarget : Local PciFunction.Owns fun cfg f => checkTarget cfg f.1 f.2.1 f.2.2 := by
  constructor
  · intro cfg f a ha
    rw [checkTarget_apply, if_neg]
    rintro ⟨-, rfl⟩
    exact ha ⟨2, by decide, rfl⟩
  · intro cfg cfg' f h a ha
    have h0 := h (f.register 0) ⟨0, by decide, rfl⟩
    have h2 := h (f.register 2) ⟨2, by decide, rfl⟩
    have hN : Native cfg f ↔ Native cfg' f := by rw [Native, Native, h0, h2]
    rw [checkTarget_apply, checkTarget_apply, h2, h a ha]
    simp only [hN]

/-! ## all functions -/

def functions : List PciFunction := List.finRange 256 ×ˢ (List.finRange 32 ×ˢ List.finRange 8)

theorem mem_functions (f : PciFunction) : f ∈ functions :=
  List.pair_mem_product.mpr ⟨List.mem_finRange _, List.pair_mem_product.mpr ⟨List.mem_finRange _, List.mem_finRange _⟩⟩

theorem functions_nodup : functions.Nodup :=
  (List.nodup_finRange _).product ((List.nodup_finRange _).product (List.nodup_finRange _))

theorem enumerate_space {s : Pci} (h : s.pciDone = false) : (enumeratePCIDevices s).space
    = functions.foldl (fun cfg f => checkTarget cfg f.1 f.2.1 f.2.2) s.space := by
  rw [functions, foldl_triples fun cfg (bus : Fin 256) (device : Fin 32) (func : Fin 8) => checkTarget cfg bus device func,
    enumeratePCIDevices, if_neg (by rw [h]; decide)]
  simp only [← List.map_coe_finRange_eq_range, List.foldl_map]

theorem enumerate_native {s : Pci} (h : s.pciDone = false) {f : PciFunction} (hf : Native s.space f) :
    (enumeratePCIDevices s).space (f.register 2) = writeBack (s.space (f.register 2)) := by
  rw [enumerate_space h, local_checkTarget.foldl_part PciFunction.owns_apart functions_nodup s.space (mem_functions f)
    ⟨2, by decide, rfl⟩, checkTarget_apply, if_pos ⟨hf, rfl⟩]

theorem enumerate_other {s : Pci} (h : s.pciDone = false) {a : Nat}
    (ha : ∀ f, Native s.space f → a ≠ f.register 2) : (enumeratePCIDevices s).space a = s.space a := by
  rw [enumerate_space h]
  by_cases hown : ∃ f : PciFunction, f.Owns a
  · obtain ⟨f, hf⟩ := hown
    rw [local_checkTarget.foldl_part PciFunction.owns_apart functions_nodup s.space (mem_functions f) hf,
      checkTarget_apply, if_neg fun hn => ha f hn.1 hn.2]
  · exact local_checkTarget.foldl_other s.space fun f _ hf => hown ⟨f, hf⟩

/-- bit 7 of the programming interface is set before, and clear afterwards -/
theorem not_modeCleared {data : Nat} (h : (data >>> 8) % 256 = 0x8f) : ¬ ModeCleared data (writeBack data) := by
  intro hc
  have hold : data.testBit 15 = true := by
    rw [Nat.shiftRight_eq_div_pow] at h
    rw [Nat.testBit_eq_decide_div_mod_eq]
    exact decide_eq_true (by omega)
  have hnew : (writeBack data).testBit 15 = false := by
    have hlt : 0x8a ||| data % 256 < 2^8 := Nat.or_lt_two_pow (by decide) (Nat.mod_lt _ (by decide))
    rw [writeBack_eq, Nat.testBit_eq_decide_div_mod_eq]
    exact decide_eq_false (by omega)
  have h15 := hc 15
  rw [hold, hnew] at h15
  exact absurd h15 (by decide)

/-- **A call of `enumerate_PCI_devices` does what is promised if and only if the devices were enumerated before or
there is no function of class 1 and subclass 1 with the programming interface 0x8f.** -/
theorem enumerated_iff (s : Pci) :
    s.Promised (enumeratePCIDevices s) ↔ s.pciDone = true ∨ ∀ f, ¬ Native s.space f := by
  unfold Pci.Promised
  cases h : s.pciDone with
  | true =>
    rw [if_pos rfl, enumeratePCIDevices, if_pos h]
    exact iff_of_true rfl (.inl rfl)
  | false =>
    rw [if_neg Bool.false_ne_true]
    constructor
    · intro hc
      refine .inr fun f hf => ?_
      have hcleared := hc.native f hf
      rw [enumerate_native h hf] at hcleared
      exact not_modeCleared hf.2.2.2 hcleared
    · intro hn
      have hnone := hn.resolve_left Bool.false_ne_true
      exact ⟨fun f hf => absurd hf (hnone f), fun a ha => enumerate_other h ha⟩

/-- an IDE controller at 0:1f.2, and no other device -/
def ideController : PciSpace := fun a =>
  if a = pciAddress 0 31 2 0 then 0x70108086 else if a = pciAddress 0 31 2 8 then 0x01018f02 else 0xffffffff

/-- its double word 0x01018f02 becomes 0x0101008a -/
theorem controller_not_cleared : ¬ ∀ s : Pci, s.Promised (enumeratePCIDevices s) := by
  intro hall
  have hc : ModesCleared _ _ := hall ⟨ideController, false⟩
  have hf : Native ideController (0, 31, 2) := by decide
  have hcleared := hc.native _ hf
  rw [enumerate_native rfl hf] at hcleared
  exact not_modeCleared hf.2.2.2 hcleared

end StarOS
