import Mathlib.Order.CompletePartialOrder
import Mathlib.Order.Interval.Set.Disjoint
import SelfmadeOS.BarMemory

/-!
# The regions of several BARs

The offset of a region in its window is the size of the BAR itself, and no call knows of another.
So two regions stay apart if one size is at least twice the other, and a region leaves its window
when the sum that is tested wraps.
-/

namespace SelfmadeOS
set_option autoImplicit false
open StateRuns

/-- Calls one after the other. A call that runs off its end is over as well; `none` when the
kernel does not come back. -/
def allocAll : List (BusDeviceFunction × Nat) → PciMachine → Option PciMachine
  | [], s => some s
  | (bdf, barIndex) :: calls, s =>
    match allocBarMemory bdf barIndex s with
    | .ok _ s' => allocAll calls s'
    | .error .noReturnValue s' => allocAll calls s'
    | .error (.inKernel _) _ => none

def BarRegion.bytes (r : BarRegion) : Set Nat :=
  Set.Ico r.address.toNat (r.address.toNat + r.size.toNat)

def MemoryType.bytes (kind : MemoryType) : Set Nat :=
  Set.Ico kind.window.cpuBase.toNat (kind.window.cpuBase.toNat + kind.window.size.toNat)

/-- No region leaves its window, and no two regions of one window share a byte. -/
structure RegionsApart (regions : List BarRegion) : Prop where
  disjoint : regions.Pairwise fun a b => a.memoryType = b.memoryType → Disjoint a.bytes b.bytes
  inside : ∀ r ∈ regions, r.bytes ⊆ r.memoryType.bytes

/-- Bits that tell the type of a BAR are hard-wired. -/
def PciFunction.TypeFixed (f : PciFunction) (barIndex : Nat) : Prop :=
  if f.register (barRegister barIndex) &&& 1 = 1 then f.writable (barRegister barIndex) &&& 1 = 0
  else f.writable (barRegister barIndex) &&& 15 = 0

/-- The region of a memory BAR that passes the window test. -/
def PciFunction.testedRegion (f : PciFunction) (barIndex : Nat) : Option BarRegion :=
  match supportedType (f.register (barRegister barIndex)) with
  | some kind =>
    if kind ≠ .io ∧ kind.Fits (f.barSize barIndex) ∧ f.barSize barIndex ≠ 0 then
      some ⟨kind, kind.window.cpuBase + f.barSize barIndex, f.barSize barIndex⟩
    else none
  | none => none

/-- The regions of those memory BARs of the calls that pass the test. -/
def testedRegions (functions : BusDeviceFunction → PciFunction)
    (calls : List (BusDeviceFunction × Nat)) : List BarRegion :=
  calls.filterMap fun c => (functions c.1).testedRegion c.2

/-- Two sizes in one window differ by a factor of two at least, and the sum in the test fits in
64 bits. -/
structure SizesApart (regions : List BarRegion) : Prop where
  factor : regions.Pairwise fun a b => a.memoryType = b.memoryType →
    2 * a.size.toNat ≤ b.size.toNat ∨ 2 * b.size.toNat ≤ a.size.toNat
  sum : ∀ r ∈ regions, r.memoryType.window.cpuBase.toNat + 2 * r.size.toNat < 2 ^ 64

section arithmetic
variable {f : PciFunction} {barIndex : Nat} {r r' : BarRegion}

/-- What is known of a region that a test has let pass. -/
structure Tested (r : BarRegion) : Prop where
  address : r.address = r.memoryType.window.cpuBase + r.size
  fits : r.memoryType.Fits r.size
  nonempty : 0 < r.size.toNat

theorem testedRegion_tested (h : f.testedRegion barIndex = some r) : Tested r ∧
    supportedType (f.register (barRegister barIndex)) = some r.memoryType ∧
    r.memoryType ≠ .io ∧ f.barSize barIndex = r.size := by
  unfold PciFunction.testedRegion at h
  split at h
  · rename_i kind hkind
    split at h
    · rename_i htest
      obtain ⟨hmemory, hfits, hne⟩ := htest
      obtain rfl := Option.some.inj h
      exact ⟨⟨rfl, hfits, Nat.pos_of_ne_zero fun hzero => hne (BitVec.eq_of_toNat_eq hzero)⟩,
        hkind, hmemory, rfl⟩
    · cases h
  · cases h

theorem window_end (kind : MemoryType) :
    kind.window.cpuBase.toNat + kind.window.size.toNat < 2 ^ 64 := by
  cases kind <;> decide

theorem Tested.inside_iff (h : Tested r) : r.bytes ⊆ r.memoryType.bytes ↔
    r.memoryType.window.cpuBase.toNat + 2 * r.size.toNat < 2 ^ 64 := by
  obtain ⟨haddress, hfits, hpos⟩ := h
  have hend := window_end r.memoryType
  have hsize := r.size.isLt
  have hbelow := BitVec.lt_def.mp hfits
  simp only [BitVec.toNat_add, Nat.mod_eq_of_lt hend] at hbelow
  rw [BarRegion.bytes, MemoryType.bytes, Set.Ico_subset_Ico_iff (by omega), haddress,
    BitVec.toNat_add]
  constructor
  · rintro ⟨hlow, hhigh⟩
    omega
  · intro hsum
    omega

/-- With no wrapped sum, regions in one window are apart as their sizes are. -/
theorem Tested.disjoint_iff (h : Tested r) (h' : Tested r')
    (hsum : r.memoryType.window.cpuBase.toNat + 2 * r.size.toNat < 2 ^ 64)
    (hsum' : r'.memoryType.window.cpuBase.toNat + 2 * r'.size.toNat < 2 ^ 64)
    (hwindow : r.memoryType = r'.memoryType) : Disjoint r.bytes r'.bytes ↔
      2 * r.size.toNat ≤ r'.size.toNat ∨ 2 * r'.size.toNat ≤ r.size.toNat := by
  have hpos := h.nonempty
  have hpos' := h'.nonempty
  rw [BarRegion.bytes, BarRegion.bytes, h.address, h'.address, BitVec.toNat_add, BitVec.toNat_add,
    Nat.mod_eq_of_lt (by omega), Nat.mod_eq_of_lt (by omega), Set.Ico_disjoint_Ico, hwindow]
  omega

theorem apart_iff {regions : List BarRegion} (tested : ∀ r ∈ regions, Tested r) :
    RegionsApart regions ↔ SizesApart regions := by
  constructor
  · rintro ⟨hdisjoint, hinside⟩
    have hsum := fun r hr => (tested r hr).inside_iff.mp (hinside r hr)
    refine ⟨hdisjoint.imp_of_mem fun {a b} ha hb h hkind => ?_, hsum⟩
    exact ((tested a ha).disjoint_iff (tested b hb) (hsum a ha) (hsum b hb) hkind).mp (h hkind)
  · rintro ⟨hfactor, hsum⟩
    refine ⟨hfactor.imp_of_mem fun {a b} ha hb h hkind => ?_, fun r hr =>
      (tested r hr).inside_iff.mpr (hsum r hr)⟩
    exact ((tested a ha).disjoint_iff (tested b hb) (hsum a ha) (hsum b hb) hkind).mpr (h hkind)

end arithmetic

namespace PciFunction
variable {f g : PciFunction} {barIndex : Nat}

/-- Bits that are not writable read the same, whatever has been stored. -/
theorem SameFixed.masked (h : f.SameFixed g) {i : Nat} {mask : BitVec 32}
    (hfixed : f.writable i &&& mask = 0) : g.register i &&& mask = f.register i &&& mask := by
  have hpart : mask &&& ~~~f.writable i = mask := by
    ext k hk
    have hbit : (f.writable i &&& mask)[k] = false := by
      rw [hfixed]
      exact BitVec.getElem_zero hk
    rw [BitVec.getElem_and] at hbit
    rw [BitVec.getElem_and, BitVec.getElem_not]
    cases hmask : mask[k] with
    | false => rfl
    | true =>
      rw [hmask, Bool.and_true] at hbit
      rw [hbit]
      rfl
  rw [← hpart, BitVec.and_comm mask, ← BitVec.and_assoc, ← BitVec.and_assoc, h.fixed i]

theorem testedRegion_io (h : f.register (barRegister barIndex) &&& 1 = 1) :
    f.testedRegion barIndex = none := by
  unfold testedRegion
  split
  · rename_i kind hkind
    have htype := (Option.filter_eq_some_iff.mp hkind).1
    rw [memoryType, if_pos h] at htype
    obtain rfl := Option.some.inj htype
    exact if_neg fun htest => htest.1 rfl
  · rfl

theorem TypeFixed.kept (fixed : f.TypeFixed barIndex) (h : f.SameFixed g) :
    g.TypeFixed barIndex ∧ g.testedRegion barIndex = f.testedRegion barIndex := by
  by_cases hio : f.register (barRegister barIndex) &&& 1 = 1
  · rw [TypeFixed, if_pos hio] at fixed
    have hsame := (h.masked fixed).trans hio
    refine ⟨?_, (testedRegion_io hsame).trans (testedRegion_io hio).symm⟩
    rwa [TypeFixed, if_pos hsame, h.writable]
  · rw [TypeFixed, if_neg hio] at fixed
    have hsame := h.masked fixed
    obtain ⟨-, hkind, hlow⟩ := and_nibble (g.register (barRegister barIndex))
    obtain ⟨-, hkind', hlow'⟩ := and_nibble (f.register (barRegister barIndex))
    have hsize : g.barSize barIndex = f.barSize barIndex := by
      rw [barSize, barSize, ← hlow, ← hlow', hsame, h.size32, h.size64]
    have hbit : g.register (barRegister barIndex) &&& 1 =
        f.register (barRegister barIndex) &&& 1 := by
      have hmask : f.writable (barRegister barIndex) &&& 1 = 0 := by
        rw [show (1 : BitVec 32) = 15 &&& 1 from rfl, ← BitVec.and_assoc, fixed]
        rfl
      exact h.masked hmask
    constructor
    · rwa [TypeFixed, if_neg (hbit ▸ hio), h.writable]
    · rw [testedRegion, testedRegion, ← hkind, ← hkind', hsame, hsize]

end PciFunction

def PciMachine.held (s : PciMachine) : List BarRegion := s.regions.filter fun r => r.size ≠ 0

theorem held_assigned (s : PciMachine) (r : BarRegion) :
    (s.assigned r).held = s.held ++ if r.size ≠ 0 then [r] else [] := by
  simp only [PciMachine.held, PciMachine.assigned, List.filter_append, List.filter_cons,
    List.filter_nil, decide_eq_true_eq]

/-- A call assigns the region of its BAR, and the devices stay what they are. -/
structure Assigns (region : Option BarRegion) (s s' : PciMachine) : Prop where
  devices : ∀ bdf, (s.functions bdf).SameFixed (s'.functions bdf)
  held : s'.held = s.held ++ region.toList

section calls
variable {s s' : PciMachine} {bdf : BusDeviceFunction} {barIndex : Nat}
variable {kind : MemoryType}

theorem KeepsDevices.assigns {t : PciMachine} (h : KeepsDevices s t) : Assigns none s t := by
  refine ⟨h.devices, ?_⟩
  rw [PciMachine.held, h.regions]
  exact (List.append_nil _).symm

theorem assigns_of_ok {p : BitVec 64} (h : allocBarMemory bdf barIndex s = .ok p s') :
    Assigns ((s.functions bdf).testedRegion barIndex) s s' := by
  obtain ⟨kind, t, hkind, hsize, -, hfits, k, u, -, hprogram, rfl⟩ := allocBarMemory_ok h
  obtain ⟨-, hregions, hdevices, -⟩ := program_ok hprogram
  have hkept := barSize_keeps hsize
  have hheld : u.held = s.held := by
    rw [PciMachine.held, PciMachine.held, hregions, hkept.regions]
  refine ⟨fun bdf => (hkept.devices bdf).trans (hdevices bdf), ?_⟩
  rw [held_assigned, hheld, PciFunction.testedRegion, hkind]
  dsimp only
  by_cases hzero : (s.functions bdf).barSize barIndex = 0
  · rw [if_neg fun hne => hne hzero, if_neg fun htest => htest.2.2 hzero]
    rfl
  · have hmemory : kind ≠ .io := fun hio => hzero (barSize_io (hkind.trans (congrArg some hio)))
    rw [if_pos hzero, if_pos ⟨hmemory, hfits, hzero⟩]
    rfl

theorem program_run (s : PciMachine) (kind : MemoryType) (bdf : BusDeviceFunction)
    (barIndex : Nat) (offset : BitVec 64) : ∃ t, kind.program bdf barIndex offset s = .ok () t := by
  cases kind with
  | io => exact ⟨_, rfl⟩
  | nonPrefetchable => exact ⟨_, rfl⟩
  | prefetchable => exact ⟨_, rfl⟩

/-- A call that runs off its end has failed the test, or the length is not the one of its kind. -/
theorem assigns_of_noReturnValue
    (h : allocBarMemory bdf barIndex s = .error .noReturnValue s') :
    Assigns ((s.functions bdf).testedRegion barIndex) s s' := by
  unfold PciFunction.testedRegion
  cases hkind : supportedType ((s.functions bdf).register (barRegister barIndex)) with
  | none =>
    obtain ⟨t, message, hsize, hrun⟩ := allocBarMemory_unsupported s bdf barIndex hkind
    obtain ⟨-, rfl⟩ := EStateM.Result.error.inj (hrun.symm.trans h)
    exact ((barSize_keeps hsize).trans _ _ _ (DevicesKept.logMessage message t)).assigns
  | some kind =>
    obtain ⟨t, hsize, -, hrun⟩ := allocBarMemory_run s bdf barIndex hkind
    have hkept := barSize_keeps hsize
    rw [hrun] at h
    obtain ⟨hfails, rfl⟩ := assignBar_noReturnValue (program_run · kind bdf barIndex _) h
    dsimp only
    rw [if_neg fun htest => hfails htest.2.1]
    exact hkept.assigns

theorem allocAll_held {calls : List (BusDeviceFunction × Nat)}
    (fixed : ∀ c ∈ calls, (s.functions c.1).TypeFixed c.2) (hrun : allocAll calls s = some s') :
    s'.held = s.held ++ testedRegions s.functions calls := by
  induction calls generalizing s with
  | nil =>
    obtain rfl := Option.some.inj hrun
    exact (List.append_nil _).symm
  | cons c calls ih =>
    obtain ⟨bdf, barIndex⟩ := c
    have hrest : ∀ t, Assigns ((s.functions bdf).testedRegion barIndex) s t →
        allocAll calls t = some s' →
          s'.held = s.held ++ testedRegions s.functions ((bdf, barIndex) :: calls) := by
      intro t hassigns hcalls
      have hkept := fun c hc => (fixed c (List.mem_cons_of_mem _ hc)).kept (hassigns.devices c.1)
      rw [ih (fun c hc => (hkept c hc).1) hcalls, hassigns.held, List.append_assoc, testedRegions,
        testedRegions, List.filterMap_congr fun c hc => (hkept c hc).2, List.filterMap_cons]
      dsimp only
      cases (s.functions bdf).testedRegion barIndex <;> rfl
    unfold allocAll at hrun
    split at hrun
    · rename_i t hcall
      exact hrest t (assigns_of_ok hcall) hrun
    · rename_i t hcall
      exact hrest t (assigns_of_noReturnValue hcall) hrun
    · cases hrun

end calls

theorem regionsApart_filter (regions : List BarRegion) :
    RegionsApart (regions.filter fun r => r.size ≠ 0) ↔ RegionsApart regions := by
  have hempty : ∀ r : BarRegion, ¬r.size ≠ 0 → r.bytes = ∅ := by
    intro r hzero
    rw [BarRegion.bytes, not_not.mp hzero]
    exact Set.Ico_self _
  constructor
  · rintro ⟨hdisjoint, hinside⟩
    refine ⟨(List.pairwise_filter.mp hdisjoint).imp fun {a b} h hkind => ?_, fun r hr => ?_⟩
    · by_cases ha : a.size ≠ 0
      · by_cases hb : b.size ≠ 0
        · exact h (decide_eq_true ha) (decide_eq_true hb) hkind
        · rw [hempty b hb]
          exact Set.disjoint_empty _
      · rw [hempty a ha]
        exact Set.empty_disjoint _
    · by_cases hzero : r.size ≠ 0
      · exact hinside r (List.mem_filter.mpr ⟨hr, decide_eq_true hzero⟩)
      · rw [hempty r hzero]
        exact Set.empty_subset _
  · rintro ⟨hdisjoint, hinside⟩
    exact ⟨hdisjoint.filter _, fun r hr => hinside r (List.mem_of_mem_filter hr)⟩

theorem allocAll_held_tested {s s' : PciMachine} {calls : List (BusDeviceFunction × Nat)}
    (hnone : s.regions = []) (fixed : ∀ c ∈ calls, (s.functions c.1).TypeFixed c.2)
    (hrun : allocAll calls s = some s') : s'.held = testedRegions s.functions calls := by
  have hstart : s.held = [] := congrArg (List.filter fun r : BarRegion => r.size ≠ 0) hnone
  rw [allocAll_held fixed hrun, hstart, List.nil_append]

theorem held_apart_iff {s : PciMachine} {functions : BusDeviceFunction → PciFunction}
    {calls : List (BusDeviceFunction × Nat)} (h : s.held = testedRegions functions calls) :
    RegionsApart s.regions ↔ SizesApart (testedRegions functions calls) := by
  rw [← regionsApart_filter, ← PciMachine.held, h]
  refine apart_iff fun r hr => ?_
  obtain ⟨c, -, hc⟩ := List.mem_filterMap.mp hr
  exact (testedRegion_tested hc).1

/-- Regions stay apart just when the sizes do. -/
theorem allocAll_regionsApart_iff {s s' : PciMachine} {calls : List (BusDeviceFunction × Nat)}
    (hnone : s.regions = []) (fixed : ∀ c ∈ calls, (s.functions c.1).TypeFixed c.2)
    (hrun : allocAll calls s = some s') :
    RegionsApart s'.regions ↔ SizesApart (testedRegions s.functions calls) :=
  held_apart_iff (allocAll_held_tested hnone fixed hrun)

section pair
variable {s : PciMachine} {c c' : BusDeviceFunction × Nat} {r r' : BarRegion} {k k' : Machine}

theorem allocBarMemory_tested (h : (s.functions c.1).testedRegion c.2 = some r)
    (hmap : registerDeviceMemory r.address.toNat r.size.toNat s.kernel = .ok () k) :
    ∃ p t, allocBarMemory c.1 c.2 s = .ok p t ∧ t.kernel = k := by
  obtain ⟨⟨haddress, hfits, -⟩, hkind, hmemory, hsize⟩ := testedRegion_tested h
  rw [haddress] at hmap
  obtain ⟨t, hrun, hkernel⟩ := allocBarMemory_assigns s c.1 c.2 hkind hmemory hsize hfits hmap
  exact ⟨_, t, hrun, hkernel⟩

theorem allocAll_pair (fixed : (s.functions c'.1).TypeFixed c'.2)
    (h : (s.functions c.1).testedRegion c.2 = some r)
    (h' : (s.functions c'.1).testedRegion c'.2 = some r')
    (hmap : registerDeviceMemory r.address.toNat r.size.toNat s.kernel = .ok () k)
    (hmap' : registerDeviceMemory r'.address.toNat r'.size.toNat k = .ok () k') :
    ∃ s', allocAll [c, c'] s = some s' := by
  obtain ⟨p, t, hcall, rfl⟩ := allocBarMemory_tested h hmap
  have hkept := (fixed.kept ((assigns_of_ok hcall).devices c'.1)).2
  obtain ⟨p', t', hcall', -⟩ := allocBarMemory_tested (hkept.trans h') hmap'
  refine ⟨t', ?_⟩
  obtain ⟨bdf, barIndex⟩ := c
  obtain ⟨bdf', barIndex'⟩ := c'
  simp only [allocAll, hcall, hcall']

theorem registerDeviceMemory_none (k : Machine) (address size : Nat)
    (h : size % 2 ^ 32 = 0) : ∃ k', registerDeviceMemory address size k = .ok () k' := by
  obtain ⟨tests, htests⟩ : ∃ tests, 2 ^ 52 = tests + 1 := ⟨2 ^ 52 - 1, by decide⟩
  rw [registerDeviceMemory, h, bind_run (request_run k address 0 1), htests]
  exact ⟨_, rfl⟩

def BarRegion.op (r : BarRegion) : Op := .registerDeviceMemory r.address.toNat r.size.toNat

theorem image_allocPair (functions : BusDeviceFunction → PciFunction)
    (c c' : BusDeviceFunction × Nat) (fixed : (functions c'.1).TypeFixed c'.2)
    (h : (functions c.1).testedRegion c.2 = some r)
    (h' : (functions c'.1).testedRegion c'.2 = some r')
    (legal : r.op.Legal kernelHeapEnd) (legal' : r'.op.Legal kernelHeapEnd)
    (hroom : 4 * pageSize * (r.op.mostTables + r'.op.mostTables) ≤ 0xE8000) :
    ∃ k s', run imageLayout [] (boot imageLayout zeroRam) = .ok () k ∧
      allocAll [c, c'] ⟨k, functions, [], []⟩ = some s' := by
  obtain ⟨haddress, hpages, hsize, hout, hlimit⟩ := legal
  obtain ⟨haddress', hpages', hsize', hout', hlimit'⟩ := legal'
  have hfirst : 4 * pageSize * r.op.mostTables ≤ 0xE8000 :=
    (Nat.mul_le_mul_left _ (Nat.le_add_right _ _)).trans hroom
  have hcall' : DeviceCall imageLayout zeroRam [r.op] r'.address.toNat r'.size.toNat := by
    refine image_deviceCall (fun op h => ?_) hout' hlimit' ?_
    · rw [List.mem_singleton.mp h]
      trivial
    · change 0 + 4 * pageSize * (r.op.mostTables + (r'.op.mostTables + 0)) ≤ _
      rwa [Nat.zero_add]
  obtain ⟨k, k1, hboot, hmap, hrun⟩ :=
    image_maps _ _ haddress hpages hsize hout hlimit hfirst
  obtain ⟨k2, hmap', -⟩ := image_mapsNext (fun op h => by
    rw [List.mem_singleton.mp h]
    exact ⟨haddress, hpages, hsize, hout, hlimit⟩) hrun haddress' hpages' hsize' hcall'
  obtain ⟨s', hcalls⟩ := allocAll_pair (s := ⟨k, functions, [], []⟩) fixed h h' hmap hmap'
  exact ⟨k, s', hboot, hcalls⟩

end pair

def nextFunction : BusDeviceFunction :=
  { bootFunction with deviceNr := 2, device_lt := by decide }

/-- A GPU, and at every other function a device with a BAR of 32 KB. -/
def gpuAndOther (bdf : BusDeviceFunction) : PciFunction :=
  if bdf = bootFunction then gpuBar4 else oneBar 4 0xC 0xFFFF8000 0xFFFFFFFF

def twoCalls : List (BusDeviceFunction × Nat) := [(bootFunction, 4), (nextFunction, 4)]

theorem allocAll_regionsApart_iff_image : ∃ k s',
    run imageLayout [] (boot imageLayout zeroRam) = .ok () k ∧
      allocAll twoCalls ⟨k, gpuAndOther, [], []⟩ = some s' ∧
      (RegionsApart s'.regions ↔ SizesApart (testedRegions gpuAndOther twoCalls)) := by
  have hfirst : (gpuAndOther bootFunction).testedRegion 4 =
      some ⟨.prefetchable, 0x8000004000, 0x4000⟩ := by decide
  have hother : (gpuAndOther nextFunction).testedRegion 4 =
      some ⟨.prefetchable, 0x8000008000, 0x8000⟩ := by decide
  have fixed : (gpuAndOther bootFunction).TypeFixed 4 ∧ (gpuAndOther nextFunction).TypeFixed 4 := by
    unfold PciFunction.TypeFixed
    decide
  obtain ⟨k, s', hboot, hcalls⟩ := image_allocPair gpuAndOther (bootFunction, 4) (nextFunction, 4)
    fixed.2 hfirst hother ⟨by decide, by decide, by decide, Or.inr (by decide), by decide⟩
    ⟨by decide, by decide, by decide, Or.inr (by decide), by decide⟩ (by decide)
  have hfixed : ∀ c ∈ twoCalls, (gpuAndOther c.1).TypeFixed c.2 := by
    intro c hc
    rcases List.mem_pair.mp hc with rfl | rfl
    · exact fixed.1
    · exact fixed.2
  exact ⟨k, s', hboot, hcalls,
    allocAll_regionsApart_iff (s := ⟨k, gpuAndOther, [], []⟩) rfl hfixed hcalls⟩

/-- Two GPUs get the same 16 KB. A BAR of 2 ^ 63 bytes passes the test with a sum that has
wrapped, and its region is not in the window. -/
theorem allocAll_regionsMeet : ∃ k s' s'',
    run imageLayout [] (boot imageLayout zeroRam) = .ok () k ∧
      allocAll twoCalls (.start k gpuBar4) = some s' ∧ ¬RegionsApart s'.regions ∧
      allocAll [(bootFunction, 4)] (.start k (oneBar 4 0xC 0 0x80000000)) = some s'' ∧
      ¬RegionsApart s''.regions := by
  have hfirst : gpuBar4.testedRegion 4 = some ⟨.prefetchable, 0x8000004000, 0x4000⟩ := by decide
  have fixed : gpuBar4.TypeFixed 4 ∧ (oneBar 4 0xC 0 0x80000000).TypeFixed 4 := by
    unfold PciFunction.TypeFixed
    decide
  obtain ⟨k, s', hboot, hcalls⟩ := image_allocPair (fun _ => gpuBar4) (bootFunction, 4)
    (nextFunction, 4) fixed.1 hfirst hfirst
    ⟨by decide, by decide, by decide, Or.inr (by decide), by decide⟩
    ⟨by decide, by decide, by decide, Or.inr (by decide), by decide⟩ (by decide)
  have hhuge : (oneBar 4 0xC 0 0x80000000).testedRegion 4 =
      some ⟨.prefetchable, 0x8000008000000000, 0x8000000000000000⟩ := by decide
  obtain ⟨k', hmap⟩ := registerDeviceMemory_none k 0x8000008000000000 0x8000000000000000
    (by decide)
  obtain ⟨p, s'', hcall, -⟩ := allocBarMemory_tested (s := .start k (oneBar 4 0xC 0 0x80000000))
    (c := (bootFunction, 4)) hhuge hmap
  have hcalls' :
      allocAll [(bootFunction, 4)] (.start k (oneBar 4 0xC 0 0x80000000)) = some s'' := by
    simp only [allocAll, hcall]
  have hheld : s'.held = testedRegions (fun _ => gpuBar4) twoCalls :=
    allocAll_held_tested (s := .start k gpuBar4) rfl (fun c hc => by
      rcases List.mem_pair.mp hc with rfl | rfl
      · exact fixed.1
      · exact fixed.1) hcalls
  have hheld' : s''.held = testedRegions (fun _ => oneBar 4 0xC 0 0x80000000)
      [(bootFunction, 4)] :=
    allocAll_held_tested (s := .start k (oneBar 4 0xC 0 0x80000000)) rfl (fun c hc => by
      rw [List.mem_singleton.mp hc]
      exact fixed.2) hcalls'
  have hsame : testedRegions (fun _ => gpuBar4) twoCalls =
      [⟨.prefetchable, 0x8000004000, 0x4000⟩, ⟨.prefetchable, 0x8000004000, 0x4000⟩] := by decide
  have hout : testedRegions (fun _ => oneBar 4 0xC 0 0x80000000) [(bootFunction, 4)] =
      [⟨.prefetchable, 0x8000008000000000, 0x8000000000000000⟩] := by decide
  refine ⟨k, s', s'', hboot, hcalls, fun happart => ?_, hcalls', fun happart => ?_⟩
  · rw [held_apart_iff hheld, hsame] at happart
    exact absurd (List.pairwise_pair.mp happart.factor rfl) (by decide)
  · rw [held_apart_iff hheld', hout] at happart
    exact absurd (happart.sum _ (List.mem_singleton_self _)) (by decide)

end SelfmadeOS
