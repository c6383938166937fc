import Mathlib.Data.List.Basic
import Mathlib.Tactic.Common

/-!
# The feature negotiation of the GPU driver's constructor

`device_feature` and `driver_feature` are windows on 32 of the feature bits; what a store to
`driver_feature` means depends on the store to `driver_feature_select` before it. The messages
and the set-up of the queue between FEATURES_OK and DRIVER_OK are left out.
-/

namespace SelfmadeOS
set_option autoImplicit false

def statusAcknowledge : BitVec 8 := 1
def statusDriver : BitVec 8 := 2
def statusDriverOk : BitVec 8 := 4
def statusFeaturesOk : BitVec 8 := 8

/-- `virtio_pci_common_cfg` as far as the negotiation uses it; the device offers `offered` and
shows `answer` as its status once the driver has set FEATURES_OK. The last two fields record the
driver's stores. -/
structure CommonCfg where
  offered : BitVec 64
  answer : BitVec 8
  deviceFeatureSelect : BitVec 32
  driverFeatureSelect : BitVec 32
  deviceStatus : BitVec 8
  featureWrites : List (BitVec 32 × BitVec 32)
  statusWrites : List (BitVec 8)

namespace CommonCfg

def deviceFeature (c : CommonCfg) : BitVec 32 :=
  if c.deviceFeatureSelect = 0 then c.offered.setWidth 32
  else if c.deviceFeatureSelect = 1 then (c.offered >>> 32).setWidth 32
  else 0

def writeDriverFeature (c : CommonCfg) (value : BitVec 32) : CommonCfg :=
  { c with featureWrites := c.featureWrites ++ [(c.driverFeatureSelect, value)] }

def writeDeviceStatus (c : CommonCfg) (value : BitVec 8) : CommonCfg :=
  let setsFeaturesOk := value &&& statusFeaturesOk ≠ 0 ∧ c.deviceStatus &&& statusFeaturesOk = 0
  { c with
    deviceStatus := if setsFeaturesOk then c.answer else value
    statusWrites := c.statusWrites ++ [value] }

def setStatusBits (c : CommonCfg) (bits : BitVec 8) : CommonCfg :=
  c.writeDeviceStatus (c.deviceStatus ||| bits)

def startInitialization (c : CommonCfg) : CommonCfg :=
  ((c.writeDeviceStatus 0).setStatusBits statusAcknowledge).setStatusBits statusDriver

/-- One of the two rounds: a window is selected for reading, and what it shows, masked, selects
the window that `value` is stored to. -/
def negotiateWindow (c : CommonCfg) (window mask value : BitVec 32) : CommonCfg :=
  let c := { c with deviceFeatureSelect := window }
  let features := c.deviceFeature
  { c with driverFeatureSelect := features &&& mask }.writeDriverFeature value

/-- The constructor up to DRIVER_OK; the status that it re-reads is compared with 0x0b for a
message only. -/
def negotiate (c : CommonCfg) : CommonCfg :=
  let c := c.startInitialization
  let c := c.negotiateWindow 0 0 0
  let c := c.negotiateWindow 1 1 1
  let c := c.setStatusBits statusFeaturesOk
  c.setStatusBits statusDriverOk

/-- Feature bit `n` has been stored through the windows. -/
def FeatureWritten (c : CommonCfg) (n : Nat) : Prop :=
  ∃ p ∈ c.featureWrites, 32 * p.1.toNat ≤ n ∧ p.2.getLsbD (n - 32 * p.1.toNat) = true

def virtioFVersion1 : Nat := 32

/-- What the specification asks of the driver's stores. -/
structure Conforms (c : CommonCfg) : Prop where
  subset : ∀ n, c.FeatureWritten n → c.offered.getLsbD n = true
  driverOk : ∀ value ∈ c.statusWrites, value &&& statusDriverOk ≠ 0 →
    c.answer &&& statusFeaturesOk ≠ 0 ∧ c.offered.getLsbD virtioFVersion1 = true ∧
      c.FeatureWritten virtioFVersion1

structure Fresh (c : CommonCfg) : Prop where
  featureWrites : c.featureWrites = []
  statusWrites : c.statusWrites = []

section negotiation
variable (c : CommonCfg)

def secondSelect : BitVec 32 := (c.offered >>> 32).setWidth 32 &&& 1

theorem secondSelect_eq :
    c.secondSelect = if c.offered.getLsbD virtioFVersion1 then 1 else 0 := by
  unfold secondSelect virtioFVersion1
  ext i hi
  by_cases hzero : i = 0
  · subst hzero
    cases h : c.offered.getLsbD 32 <;>
      simpa [BitVec.getLsbD_eq_getElem (show 32 < 64 by decide)] using h
  · cases c.offered.getLsbD 32 <;> simp [hzero]

theorem negotiate_writes (fresh : c.Fresh) : c.negotiate.offered = c.offered ∧
    c.negotiate.answer = c.answer ∧
    c.negotiate.featureWrites = [(0, 0), (c.secondSelect, 1)] ∧
    c.negotiate.statusWrites = [0, 1, 3, 11, c.answer ||| statusDriverOk] := by
  obtain ⟨hfeature, hstatus⟩ := fresh
  refine ⟨?_, ?_, ?_, ?_⟩
  · simp only [negotiate, negotiateWindow, startInitialization, setStatusBits, writeDeviceStatus,
      writeDriverFeature]
  · simp only [negotiate, negotiateWindow, startInitialization, setStatusBits, writeDeviceStatus,
      writeDriverFeature]
  · simp only [negotiate, negotiateWindow, startInitialization, setStatusBits, writeDeviceStatus,
      writeDriverFeature, hfeature, List.nil_append, List.cons_append]
    simp [deviceFeature, secondSelect]
  · simp only [negotiate, negotiateWindow, startInitialization, setStatusBits, writeDeviceStatus,
      writeDriverFeature, hstatus, List.nil_append, List.cons_append]
    simp [statusAcknowledge, statusDriver, statusFeaturesOk]

theorem driverOk_written (answer : BitVec 8) :
    (answer ||| statusDriverOk) &&& statusDriverOk ≠ 0 := by
  intro h
  have hbit := congrArg (fun v : BitVec 8 => v.getLsbD 2) h
  simp [statusDriverOk] at hbit

variable {c} in
theorem featureWritten_iff (h : c.featureWrites = [(0, 0), (1, 1)]) (n : Nat) :
    c.FeatureWritten n ↔ n = virtioFVersion1 := by
  unfold FeatureWritten virtioFVersion1
  rw [h]
  constructor
  · rintro ⟨p, hp, hle, hbit⟩
    rcases List.mem_pair.mp hp with rfl | rfl
    · simp at hbit
    · simp only [BitVec.ofNat_eq_ofNat, BitVec.toNat_ofNat] at hle hbit
      simp only [BitVec.getLsbD_one, Nat.reduceLT, decide_true, Bool.true_and,
        decide_eq_true_eq] at hbit
      omega
  · rintro rfl
    exact ⟨(1, 1), List.mem_cons_of_mem _ (List.mem_cons_self ..), by decide, by decide⟩

/-- The stores conform exactly when VERSION_1 is offered and the device keeps FEATURES_OK. -/
theorem negotiate_conforms_iff (fresh : c.Fresh) : c.negotiate.Conforms ↔
    c.offered.getLsbD virtioFVersion1 = true ∧ c.answer &&& statusFeaturesOk ≠ 0 := by
  obtain ⟨hoffered, hanswer, hfeatures, hstatus⟩ := c.negotiate_writes fresh
  constructor
  · intro h
    have hlast := h.driverOk (c.answer ||| statusDriverOk) (by rw [hstatus]; simp)
      (driverOk_written c.answer)
    rw [hoffered, hanswer] at hlast
    exact ⟨hlast.2.1, hlast.1⟩
  · rintro ⟨hversion, hkept⟩
    rw [secondSelect_eq, if_pos hversion] at hfeatures
    refine ⟨?_, ?_⟩
    · intro n hn
      rw [hoffered, (featureWritten_iff hfeatures n).mp hn, hversion]
    · intro value _ _
      rw [hoffered, hanswer]
      exact ⟨hkept, hversion, (featureWritten_iff hfeatures _).mpr rfl⟩

end negotiation

def offering (offered : BitVec 64) (answer : BitVec 8) : CommonCfg where
  offered := offered
  answer := answer
  deviceFeatureSelect := 0
  driverFeatureSelect := 0
  deviceStatus := 0
  featureWrites := []
  statusWrites := []

theorem negotiate_conforms_iff_virtio : (offering 0x130000002 0x0b).negotiate.Conforms ↔
    (offering 0x130000002 0x0b).offered.getLsbD virtioFVersion1 = true ∧
      (offering 0x130000002 0x0b).answer &&& statusFeaturesOk ≠ 0 :=
  negotiate_conforms_iff _ ⟨rfl, rfl⟩

/-- A device without VERSION_1 and without bit 0, which takes FEATURES_OK back: bit 0 is stored
all the same, and so is DRIVER_OK. -/
theorem negotiate_fails_legacy : ¬(offering 0x30000002 0x03).negotiate.Conforms ∧
    (offering 0x30000002 0x03).negotiate.FeatureWritten 0 ∧
    7 ∈ (offering 0x30000002 0x03).negotiate.statusWrites := by
  refine ⟨?_, ⟨(0, 1), by decide, by decide, by decide⟩, by decide⟩
  intro h
  exact absurd (h.driverOk 7 (by decide) (by decide)).1 (by decide)

end CommonCfg

end SelfmadeOS
