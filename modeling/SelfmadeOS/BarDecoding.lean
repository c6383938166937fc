import SelfmadeOS.BarMemory

/-!
# BARs of devices

A BAR of `2 ^ k` bytes takes the address bits from `k` on and keeps the others; its lowest four
bits tell the type. A BAR that is not there reads as zero.
-/

namespace SelfmadeOS
set_option autoImplicit false
open StateRuns

def addressBits (w k : Nat) : BitVec w := ~~~BitVec.ofNat w (2 ^ k - 1)

inductive BarDecoding where
  | memory32 (k : Nat) (low : 4 ≤ k) (high : k ≤ 31)
  | memory64 (k : Nat) (low : 4 ≤ k) (high : k ≤ 63)
  | notImplemented

def BarDecoding.bytes : BarDecoding → Nat
  | memory32 k _ _ => 2 ^ k
  | memory64 k _ _ => 2 ^ k
  | notImplemented => 0

namespace PciFunction
variable (f : PciFunction) (barIndex : Nat)

/-- The two registers of a 64-bit BAR, and which of their bits can be written. -/
def register64 : BitVec 64 :=
  f.register (barRegister (barIndex + 1)) ++ f.register (barRegister barIndex)

def writable64 : BitVec 64 :=
  f.writable (barRegister (barIndex + 1)) ++ f.writable (barRegister barIndex)

/-- The address bits are all that can be written, and of the others only the type can be set;
its bit 3 is the one for prefetchable memory. -/
def Decodes : BarDecoding → Prop
  | .memory32 k _ _ => f.writable (barRegister barIndex) = addressBits 32 k ∧
      ∃ type : BitVec 4, type &&& 7 = 0 ∧
        f.register (barRegister barIndex) &&& ~~~addressBits 32 k = type.setWidth 32
  | .memory64 k _ _ => f.writable64 barIndex = addressBits 64 k ∧
      ∃ type : BitVec 4, type &&& 7 = 4 ∧
        f.register64 barIndex &&& ~~~addressBits 64 k = type.setWidth 64
  | .notImplemented => f.writable (barRegister barIndex) = 0 ∧
      f.register (barRegister barIndex) = 0

end PciFunction

section masks
variable {w k : Nat}

def lowBits (w n : Nat) : BitVec w := BitVec.ofNat w (2 ^ n - 1)

theorem getElem_lowBits {n i : Nat} (hi : i < w) : (lowBits w n)[i] = decide (i < n) := by
  unfold lowBits
  rw [← BitVec.getLsbD_eq_getElem hi, BitVec.getLsbD_ofNat, Nat.testBit_two_pow_sub_one,
    decide_eq_true hi, Bool.true_and]

theorem getElem_addressBits {i : Nat} (hi : i < w) :
    (addressBits w k)[i] = !decide (i < k) := by
  have hlow : addressBits w k = ~~~lowBits w k := rfl
  rw [hlow, BitVec.getElem_not, getElem_lowBits]

theorem and_addressBits {x : BitVec w} (h : 2 ^ k ∣ x.toNat) : x &&& addressBits w k = x := by
  obtain ⟨q, hq⟩ := h
  ext i hi
  rw [BitVec.getElem_and, getElem_addressBits]
  by_cases hik : i < k
  · have hbit : x[i] = false := by
      rw [← BitVec.getLsbD_eq_getElem hi, BitVec.getLsbD, hq, Nat.testBit_two_pow_mul,
        decide_eq_false (by omega), Bool.false_and]
    rw [hbit, Bool.false_and]
  · rw [decide_eq_false hik, Bool.not_false, Bool.and_true]

theorem type_or_addressBits (type : BitVec 4) (hlow : 4 ≤ k) :
    (type.setWidth w ||| addressBits w k) &&& ~~~lowBits w 4 = addressBits w k := by
  ext i hi
  rw [BitVec.getElem_and, BitVec.getElem_or, BitVec.getElem_not, getElem_lowBits,
    getElem_addressBits, BitVec.getElem_setWidth]
  by_cases hi4 : i < 4
  · have hik : i < k := by omega
    simp [hi4, hik]
  · have htype : type.getLsbD i = false := BitVec.getLsbD_of_ge _ _ (by omega)
    simp [hi4, htype]

theorem and_type {x : BitVec w} {type : BitVec 4} (hlow : 4 ≤ k)
    (h : x &&& ~~~addressBits w k = type.setWidth w) :
    x &&& lowBits w 3 = (type &&& 7).setWidth w := by
  ext i hi
  have hbit : (x &&& ~~~addressBits w k)[i] = (type.setWidth w)[i] := by rw [h]
  rw [BitVec.getElem_and, BitVec.getElem_not, getElem_addressBits, BitVec.getElem_setWidth,
    Bool.not_not] at hbit
  rw [BitVec.getElem_and, getElem_lowBits, BitVec.getElem_setWidth, BitVec.getLsbD_and, ← hbit]
  by_cases hi3 : i < 3
  · have hik : i < k := by omega
    have hseven : (lowBits 4 3).getLsbD i = true := by
      rw [BitVec.getLsbD_eq_getElem (by omega), getElem_lowBits, decide_eq_true hi3]
    have hseven' : (7 : BitVec 4).getLsbD i = true := hseven
    simp only [hi3, hik, hseven', decide_true, Bool.and_true]
  · have hseven : (lowBits 4 3).getLsbD i = false := by
      by_cases hi4 : i < 4
      · rw [BitVec.getLsbD_eq_getElem hi4, getElem_lowBits, decide_eq_false hi3]
      · exact BitVec.getLsbD_of_ge _ _ (by omega)
    have hseven' : (7 : BitVec 4).getLsbD i = false := hseven
    simp only [hi3, hseven', decide_false, Bool.and_false]

theorem toNat_complement (hk : k ≤ w) : (~~~addressBits w k).toNat = 2 ^ k - 1 := by
  unfold addressBits
  have hle := Nat.pow_le_pow_right (by omega : 0 < 2) hk
  have hpos := Nat.two_pow_pos k
  rw [BitVec.not_not, BitVec.toNat_ofNat, Nat.mod_eq_of_lt (by omega)]

theorem append_eq_or (high low : BitVec 32) :
    high.setWidth 64 <<< 32 ||| low.setWidth 64 = (high ++ low : BitVec 64) := by
  rw [BitVec.append_def, BitVec.shiftLeftZeroExtend_eq, BitVec.setWidth'_eq]

end masks

namespace PciFunction
variable {f : PciFunction} {barIndex : Nat}

theorem sized_eq (i : Nat) :
    f.sized i = f.register i &&& ~~~f.writable i ||| f.writable i := by
  have hones : (0xFFFFFFFF : BitVec 32) &&& f.writable i = f.writable i := BitVec.allOnes_and
  rw [sized, stored, hones]

theorem size64_eq : f.size64 barIndex =
    ~~~((f.register64 barIndex &&& ~~~f.writable64 barIndex ||| f.writable64 barIndex) &&&
      ~~~15) + 1 := by
  have hjoined : (f.sized (barRegister (barIndex + 1)) ++ f.sized (barRegister barIndex) :
      BitVec 64) =
        f.register64 barIndex &&& ~~~f.writable64 barIndex ||| f.writable64 barIndex := by
    rw [sized_eq, sized_eq, register64, writable64, BitVec.not_append, BitVec.and_append,
      BitVec.or_append]
  have hlow : (~~~15 : BitVec 64) = (0xFFFFFFFF : BitVec 32) ++ (0xFFFFFFF0 : BitVec 32) := rfl
  have hones : ∀ high : BitVec 32, high &&& 0xFFFFFFFF = high := fun _ => BitVec.and_allOnes
  rw [← hjoined, size64, hlow, BitVec.and_append, hones, append_eq_or]

theorem barSize_memory32 {k : Nat} {low : 4 ≤ k} {high : k ≤ 31}
    (h : f.Decodes barIndex (.memory32 k low high)) : (f.barSize barIndex).toNat = 2 ^ k := by
  obtain ⟨hwritable, type, htype, hfixed⟩ := h
  have hseven : f.register (barRegister barIndex) &&& 7 = 0 := by
    apply (and_type low hfixed).trans
    rw [htype]
    rfl
  rw [barSize, if_pos hseven, size32, sized_eq, hwritable, hfixed]
  have hmask : (type.setWidth 32 ||| addressBits 32 k) &&& 0xFFFFFFF0 = addressBits 32 k :=
    type_or_addressBits type low
  have hle := Nat.pow_le_pow_right (by omega : 0 < 2) high
  have hpos := Nat.two_pow_pos k
  rw [hmask, BitVec.toNat_add, BitVec.toNat_setWidth, toNat_complement (by omega)]
  change ((2 ^ k - 1) % 2 ^ 64 + 1) % 2 ^ 64 = 2 ^ k
  omega

theorem low_memory64 {k : Nat} {low : 4 ≤ k} {high : k ≤ 63}
    (h : f.Decodes barIndex (.memory64 k low high)) :
    f.register (barRegister barIndex) &&& 7 = 4 := by
  obtain ⟨-, type, htype, hfixed⟩ := h
  have hjoined := and_type low hfixed
  have hlow : lowBits 64 3 = (0 : BitVec 32) ++ (7 : BitVec 32) := rfl
  have htype' : (type &&& 7).setWidth 64 = (0 : BitVec 32) ++ (4 : BitVec 32) := by
    rw [htype]
    rfl
  have hnone : ∀ high : BitVec 32, high &&& 0 = 0 := fun _ => BitVec.and_zero
  rw [hlow, htype', register64, BitVec.and_append, hnone] at hjoined
  exact (BitVec.append_right_inj _).mp hjoined

theorem barSize_memory64 {k : Nat} {low : 4 ≤ k} {high : k ≤ 63}
    (h : f.Decodes barIndex (.memory64 k low high)) : (f.barSize barIndex).toNat = 2 ^ k := by
  have hseven := low_memory64 h
  obtain ⟨hwritable, type, htype, hfixed⟩ := h
  have hne : ¬f.register (barRegister barIndex) &&& 7 = 0 := by
    rw [hseven]
    decide
  rw [barSize, if_neg hne, if_pos hseven, size64_eq, hwritable, hfixed]
  have hmask : (type.setWidth 64 ||| addressBits 64 k) &&& ~~~15 = addressBits 64 k :=
    type_or_addressBits type low
  have hle := Nat.pow_le_pow_right (by omega : 0 < 2) high
  have hpos := Nat.two_pow_pos k
  rw [hmask, BitVec.toNat_add, toNat_complement (by omega)]
  change (2 ^ k - 1 + 1) % 2 ^ 64 = 2 ^ k
  omega

theorem barSize_notImplemented (h : f.Decodes barIndex .notImplemented) :
    f.barSize barIndex = 0x100000000 := by
  obtain ⟨hwritable, hregister⟩ := h
  have hseven : f.register (barRegister barIndex) &&& 7 = 0 := by
    rw [hregister]
    rfl
  rw [barSize, if_pos hseven, size32, sized_eq, hwritable, hregister]
  rfl

end PciFunction

/-- `BAR_size` returns the size of every BAR but one that is not there. -/
theorem barSize_returns_iff {s : PciMachine} {bdf : BusDeviceFunction} {barIndex : Nat}
    {d : BarDecoding} (h : (s.functions bdf).Decodes barIndex d) :
    (∃ size t, barSize bdf barIndex s = .ok size t ∧ size.toNat = d.bytes) ↔
      d ≠ .notImplemented := by
  obtain ⟨t, hrun, -⟩ := barSize_run s bdf barIndex
  constructor
  · rintro ⟨size, t', hrun', hsize⟩ rfl
    obtain ⟨rfl, rfl⟩ := EStateM.Result.ok.inj (hrun.symm.trans hrun')
    rw [PciFunction.barSize_notImplemented h] at hsize
    exact absurd hsize (by decide)
  · intro hthere
    refine ⟨_, t, hrun, ?_⟩
    cases d with
    | memory32 k low high => exact PciFunction.barSize_memory32 h
    | memory64 k low high => exact PciFunction.barSize_memory64 h
    | notImplemented => exact absurd rfl hthere

/-- BAR 4 of a virtio GPU decodes 16 KB. -/
theorem barSize_returns_iff_gpu :
    ∃ size t, barSize bootFunction 4 (.start (boot imageLayout zeroRam) gpuBar4) = .ok size t ∧
      size.toNat = 2 ^ 14 := by
  have hdecodes : gpuBar4.Decodes 4 (.memory64 14 (by decide) (by decide)) :=
    ⟨by decide, 12, by decide, by decide⟩
  exact (barSize_returns_iff (s := .start (boot imageLayout zeroRam) gpuBar4) hdecodes).mpr
    (fun h => by cases h)

/-- A BAR that reads as zero is said to have 4 GB. -/
theorem barSize_zeroRegister : (oneBar 1 0 0 0).Decodes 1 .notImplemented ∧
    ¬∃ size t, barSize bootFunction 1 (.start (boot imageLayout zeroRam) (oneBar 1 0 0 0)) =
      .ok size t ∧ size.toNat = BarDecoding.notImplemented.bytes := by
  have hdecodes : (oneBar 1 0 0 0).Decodes 1 .notImplemented := ⟨by decide, by decide⟩
  refine ⟨hdecodes, ?_⟩
  rintro ⟨size, t, hrun, hsize⟩
  obtain ⟨t', hrun', -⟩ :=
    barSize_run (.start (boot imageLayout zeroRam) (oneBar 1 0 0 0)) bootFunction 1
  obtain ⟨rfl, -⟩ := EStateM.Result.ok.inj (hrun'.symm.trans hrun)
  have hvalue : (oneBar 1 0 0 0).barSize 1 = 0x100000000 :=
    PciFunction.barSize_notImplemented hdecodes
  change ((oneBar 1 0 0 0).barSize 1).toNat = 0 at hsize
  rw [hvalue] at hsize
  exact absurd hsize (by decide)

end SelfmadeOS
