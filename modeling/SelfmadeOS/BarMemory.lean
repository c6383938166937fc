import SelfmadeOS.BarSize
import SelfmadeOS.DeviceRanges
import SelfmadeOS.PciCapabilities

/-!
# Memory for a BAR (`alloc_bar_memory`)

Each kind of BAR has a branch of its own. In two of them the pointer to the BAR is indexed a
second time, and the offset is added to a pointer to 64-bit words. What is printed with `verbose`
set is left out.
-/

namespace SelfmadeOS
set_option autoImplicit false
open StateRuns

/-- A window of the host bridge: where the CPU and where the bus see it. -/
structure Window where
  cpuBase : BitVec 64
  size : BitVec 64
  busBase : BitVec 64

def MemoryType.window : MemoryType → Window
  | .io => ⟨0x3EFF0000, 0x10000, 0⟩
  | .nonPrefetchable => ⟨0x10000000, 0x2EFF0000, 0x10000000⟩
  | .prefetchable => ⟨0x8000000000, 0x8000000000, 0x8000000000⟩

def memoryType (bar : BitVec 32) : Option MemoryType :=
  if bar &&& 1 = 1 then some .io
  else if bar &&& 9 = 8 then some .prefetchable
  else if bar &&& 9 = 0 then some .nonPrefetchable
  else none

def addressLength (bar : BitVec 32) : BitVec 32 := (bar &&& 6) >>> 1

def recordRegion (region : BarRegion) : PciM Unit :=
  modify fun s => { s with regions := s.regions ++ [region] }

/-- The test and the mapping that all three branches have; `program` stores the address and
`pointer` is returned. A failed test leads to the end of the function. -/
def assignBar (kind : MemoryType) (offset barSize : BitVec 64) (program : PciM Unit)
    (pointer : BitVec 64) : PciM (BitVec 64) := do
  if kind.window.cpuBase + offset + barSize < kind.window.cpuBase + kind.window.size then
    onKernel (registerDeviceMemory (kind.window.cpuBase + offset).toNat barSize.toNat)
    program
    recordRegion ⟨kind, kind.window.cpuBase + offset, barSize⟩
    return pointer
  else
    throw .noReturnValue

def allocBarMemory (bdf : BusDeviceFunction) (barIndex : Nat) : PciM (BitVec 64) := do
  let bar ← readConfig bdf (barRegister barIndex)
  if memoryType bar = none then
    onKernel (logMessage "Wrong memory type!")
  let barSize ← barSize bdf barIndex
  let offset := barSize
  match memoryType bar with
  | some .io =>
    if addressLength bar = 0 then
      -- `BAR` points to the register of the index already.
      assignBar .io offset barSize
        (writeConfig bdf (barRegister (barIndex + barIndex))
          ((MemoryType.io.window.busBase + offset).setWidth 32))
        (MemoryType.io.window.cpuBase + 8 * offset)
    else
      onKernel (logMessage
        "Address length 64-bit for memory type 1 not implemented so far")
      throw .noReturnValue
  | some .nonPrefetchable =>
    if addressLength bar = 0 then
      assignBar .nonPrefetchable offset barSize
        (writeConfig bdf (barRegister (barIndex + barIndex))
          ((MemoryType.nonPrefetchable.window.busBase + offset).setWidth 32))
        (MemoryType.nonPrefetchable.window.cpuBase + 8 * offset)
    else
      onKernel (logMessage
        "Address length 64-bit for memory type 2 not implemented so far")
      throw .noReturnValue
  | some .prefetchable =>
    if addressLength bar = 2 then
      let v := MemoryType.prefetchable.window.cpuBase + offset
      assignBar .prefetchable offset barSize
        (do
          writeConfig bdf (barRegister barIndex) (v.setWidth 32)
          writeConfig bdf (barRegister (barIndex + 1)) ((v >>> 32).setWidth 32))
        v
    else
      onKernel (logMessage
        "Address length 64-bit for memory type 1 not implemented so far")
      throw .noReturnValue
  | none =>
    onKernel (logMessage "Wrong memory type.")
    return 0

def MemoryType.addressLength : MemoryType → BitVec 32
  | .io => 0
  | .nonPrefetchable => 0
  | .prefetchable => 2

def supportedType (bar : BitVec 32) : Option MemoryType :=
  (memoryType bar).filter fun kind => SelfmadeOS.addressLength bar = kind.addressLength

theorem and_nibble (bar : BitVec 32) : memoryType (bar &&& 15) = memoryType bar ∧
    supportedType (bar &&& 15) = supportedType bar ∧ bar &&& 15 &&& 7 = bar &&& 7 := by
  have hpart : ∀ mask : BitVec 32, 15 &&& mask = mask → bar &&& 15 &&& mask = bar &&& mask :=
    fun mask h => by rw [BitVec.and_assoc, h]
  have hkind : memoryType (bar &&& 15) = memoryType bar := by
    simp only [memoryType, hpart 1 rfl, hpart 9 rfl]
  have hlength : addressLength (bar &&& 15) = addressLength bar := by
    simp only [addressLength, hpart 6 rfl]
  refine ⟨hkind, ?_, hpart 7 rfl⟩
  rw [supportedType, supportedType, hkind, hlength]

theorem low_nibble (bar : BitVec 32) : ∃ k : Fin 16, bar &&& 15 = BitVec.ofNat 32 k := by
  refine ⟨⟨bar.toNat % 16, Nat.mod_lt _ (by decide)⟩, BitVec.eq_of_toNat_eq ?_⟩
  have hmask : (bar &&& 15).toNat = bar.toNat % 16 := Nat.and_two_pow_sub_one_eq_mod _ 4
  have hlt := bar.isLt
  rw [hmask, BitVec.toNat_ofNat]
  dsimp only
  omega

theorem memoryType_ne_none (bar : BitVec 32) : memoryType bar ≠ none := by
  obtain ⟨k, hk⟩ := low_nibble bar
  rw [← (and_nibble bar).1, hk]
  clear hk
  revert k
  decide

/-- The branch of `BAR_size` that goes with a kind. -/
theorem supportedType_low (bar : BitVec 32) :
    (supportedType bar = some .io → ¬bar &&& 7 = 0 ∧ ¬bar &&& 7 = 4) ∧
    (supportedType bar = some .nonPrefetchable → bar &&& 7 = 0) ∧
    (supportedType bar = some .prefetchable → bar &&& 7 = 4) := by
  obtain ⟨k, hk⟩ := low_nibble bar
  obtain ⟨-, hkind, hlow⟩ := and_nibble bar
  rw [← hkind, ← hlow, hk]
  clear hk hkind hlow
  revert k
  decide

section sizes
variable {f : PciFunction} {barIndex : Nat}

theorem barSize_io (h : supportedType (f.register (barRegister barIndex)) = some .io) :
    f.barSize barIndex = 0 := by
  obtain ⟨h0, h4⟩ := (supportedType_low _).1 h
  rw [PciFunction.barSize, if_neg h0, if_neg h4]

theorem barSize_nonPrefetchable
    (h : supportedType (f.register (barRegister barIndex)) = some .nonPrefetchable) :
    f.barSize barIndex = f.size32 barIndex := if_pos ((supportedType_low _).2.1 h)

theorem size32_range (f : PciFunction) (barIndex : Nat) :
    0 < (f.size32 barIndex).toNat ∧ (f.size32 barIndex).toNat ≤ 2 ^ 32 := by
  unfold PciFunction.size32
  generalize ~~~(f.sized (barRegister barIndex) &&& 0xFFFFFFF0) = mask
  have hlt := mask.isLt
  have hvalue : (mask.setWidth 64 + 1).toNat = mask.toNat + 1 := by
    rw [BitVec.toNat_add, BitVec.toNat_setWidth]
    change (mask.toNat % 2 ^ 64 + 1) % 2 ^ 64 = _
    omega
  omega

end sizes

/-- What the branch of a kind returns and what it stores, for the offset that it has found. -/
def MemoryType.pointer (kind : MemoryType) (offset : BitVec 64) : BitVec 64 :=
  match kind with
  | .io | .nonPrefetchable => kind.window.cpuBase + 8 * offset
  | .prefetchable => kind.window.cpuBase + offset

def MemoryType.program (kind : MemoryType) (bdf : BusDeviceFunction) (barIndex : Nat)
    (offset : BitVec 64) : PciM Unit :=
  match kind with
  | .io | .nonPrefetchable =>
    writeConfig bdf (barRegister (barIndex + barIndex))
      ((kind.window.busBase + offset).setWidth 32)
  | .prefetchable => do
    writeConfig bdf (barRegister barIndex) ((kind.window.cpuBase + offset).setWidth 32)
    writeConfig bdf (barRegister (barIndex + 1))
      (((kind.window.cpuBase + offset) >>> 32).setWidth 32)

def MemoryType.Fits (kind : MemoryType) (size : BitVec 64) : Prop :=
  kind.window.cpuBase + size + size < kind.window.cpuBase + kind.window.size

instance (kind : MemoryType) (size : BitVec 64) : Decidable (kind.Fits size) :=
  inferInstanceAs (Decidable (_ < _))

section call
variable (s : PciMachine) (bdf : BusDeviceFunction) (barIndex : Nat)

theorem allocBarMemory_run {kind : MemoryType}
    (h : supportedType ((s.functions bdf).register (barRegister barIndex)) = some kind) :
    ∃ t, barSize bdf barIndex s = .ok ((s.functions bdf).barSize barIndex) t ∧
      (kind ≠ .io → t.kernel = s.kernel) ∧
      allocBarMemory bdf barIndex s = assignBar kind ((s.functions bdf).barSize barIndex)
        ((s.functions bdf).barSize barIndex)
        (kind.program bdf barIndex ((s.functions bdf).barSize barIndex))
        (kind.pointer ((s.functions bdf).barSize barIndex)) t := by
  obtain ⟨t, hsize, hkernel⟩ := barSize_run s bdf barIndex
  obtain ⟨htype, hlength⟩ := Option.filter_eq_some_iff.mp h
  obtain ⟨-, hnon, hpre⟩ := supportedType_low ((s.functions bdf).register (barRegister barIndex))
  refine ⟨t, hsize, ?_, ?_⟩
  · cases kind with
    | io => exact fun hne => absurd rfl hne
    | nonPrefetchable => exact fun _ => hkernel (Or.inl (hnon h))
    | prefetchable => exact fun _ => hkernel (Or.inr (hpre h))
  · rw [allocBarMemory, readConfig_bind, if_neg (memoryType_ne_none _)]
    apply (bind_run hsize).trans
    dsimp only
    rw [htype]
    cases kind with
    | io => exact congrFun (if_pos (of_decide_eq_true hlength)) t
    | nonPrefetchable => exact congrFun (if_pos (of_decide_eq_true hlength)) t
    | prefetchable => exact congrFun (if_pos (of_decide_eq_true hlength)) t

/-- Any other call sizes the BAR, prints a message, and runs off the end of the function. -/
theorem allocBarMemory_unsupported
    (h : supportedType ((s.functions bdf).register (barRegister barIndex)) = none) :
    ∃ t message, barSize bdf barIndex s = .ok ((s.functions bdf).barSize barIndex) t ∧
      allocBarMemory bdf barIndex s =
        .error .noReturnValue { t with kernel := t.kernel.logged message } := by
  obtain ⟨t, hsize, -⟩ := barSize_run s bdf barIndex
  obtain ⟨kind, htype⟩ := Option.ne_none_iff_exists'.mp
    (memoryType_ne_none ((s.functions bdf).register (barRegister barIndex)))
  have hlength : ¬addressLength ((s.functions bdf).register (barRegister barIndex)) =
      kind.addressLength := by
    intro hlength
    rw [supportedType, htype, Option.filter_some, if_pos (decide_eq_true hlength)] at h
    cases h
  rw [allocBarMemory, readConfig_bind, if_neg (memoryType_ne_none _)]
  refine ⟨t, ?_⟩
  refine Exists.imp (fun message h => ⟨hsize, (bind_run hsize).trans h⟩) ?_
  dsimp only
  rw [htype]
  cases kind with
  | io => exact ⟨_, congrFun (if_neg hlength) t⟩
  | nonPrefetchable => exact ⟨_, congrFun (if_neg hlength) t⟩
  | prefetchable => exact ⟨_, congrFun (if_neg hlength) t⟩

end call

section assigned
variable {kind : MemoryType} {offset size pointer p : BitVec 64} {program : PciM Unit}
variable {s s' : PciMachine}

def PciMachine.assigned (s : PciMachine) (region : BarRegion) : PciMachine :=
  { s with regions := s.regions ++ [region] }

theorem assignBar_ok (h : assignBar kind offset size program pointer s = .ok p s') :
    p = pointer ∧ kind.window.cpuBase + offset + size < kind.window.cpuBase + kind.window.size ∧
      ∃ k t, registerDeviceMemory (kind.window.cpuBase + offset).toNat size.toNat s.kernel =
          .ok () k ∧
        program { s with kernel := k } = .ok () t ∧
        s' = t.assigned ⟨kind, kind.window.cpuBase + offset, size⟩ := by
  unfold assignBar at h
  split at h
  · rename_i hfits
    cases hmap : registerDeviceMemory (kind.window.cpuBase + offset).toNat size.toNat s.kernel with
    | error e k =>
      rw [bind_stop (onKernel_stop s hmap)] at h
      cases h
    | ok u k =>
      rw [bind_run (onKernel_run s hmap)] at h
      cases hprogram : program { s with kernel := k } with
      | error e t =>
        rw [bind_stop hprogram] at h
        cases h
      | ok u t =>
        rw [bind_run hprogram] at h
        obtain ⟨rfl, rfl⟩ := EStateM.Result.ok.inj h
        exact ⟨rfl, hfits, k, t, rfl, hprogram, rfl⟩
  · cases h

theorem assignBar_noReturnValue (hprogram : ∀ t, ∃ u, program t = .ok () u)
    (h : assignBar kind offset size program pointer s = .error .noReturnValue s') :
    ¬kind.window.cpuBase + offset + size < kind.window.cpuBase + kind.window.size ∧ s' = s := by
  unfold assignBar at h
  split at h
  · cases hmap : registerDeviceMemory (kind.window.cpuBase + offset).toNat size.toNat s.kernel with
    | error e k =>
      rw [bind_stop (onKernel_stop s hmap)] at h
      cases h
    | ok _ k =>
      obtain ⟨u, hu⟩ := hprogram { s with kernel := k }
      rw [bind_run (onKernel_run s hmap), bind_run hu] at h
      cases h
  · rename_i hfails
    obtain ⟨-, rfl⟩ := EStateM.Result.error.inj h
    exact ⟨hfails, rfl⟩

end assigned

theorem allocBarMemory_ok {s s' : PciMachine} {bdf : BusDeviceFunction} {barIndex : Nat}
    {p : BitVec 64} (h : allocBarMemory bdf barIndex s = .ok p s') :
    ∃ kind t, supportedType ((s.functions bdf).register (barRegister barIndex)) = some kind ∧
      barSize bdf barIndex s = .ok ((s.functions bdf).barSize barIndex) t ∧
      p = kind.pointer ((s.functions bdf).barSize barIndex) ∧
      kind.Fits ((s.functions bdf).barSize barIndex) ∧
      ∃ k u, registerDeviceMemory
          (kind.window.cpuBase + (s.functions bdf).barSize barIndex).toNat
          ((s.functions bdf).barSize barIndex).toNat t.kernel = .ok () k ∧
        kind.program bdf barIndex ((s.functions bdf).barSize barIndex)
          { t with kernel := k } = .ok () u ∧
        s' = u.assigned ⟨kind, kind.window.cpuBase + (s.functions bdf).barSize barIndex,
          (s.functions bdf).barSize barIndex⟩ := by
  cases hkind : supportedType ((s.functions bdf).register (barRegister barIndex)) with
  | none =>
    obtain ⟨t, message, -, hrun⟩ := allocBarMemory_unsupported s bdf barIndex hkind
    rw [hrun] at h
    cases h
  | some kind =>
    obtain ⟨t, hsize, -, hrun⟩ := allocBarMemory_run s bdf barIndex hkind
    rw [hrun] at h
    obtain ⟨hp, hfits, k, u, hmap, hprogram, hs'⟩ := assignBar_ok h
    exact ⟨kind, t, rfl, hsize, hp, hfits, k, u, hmap, hprogram, hs'⟩

def MemoryType.ownStores (kind : MemoryType) (bdf : BusDeviceFunction) (barIndex : Nat)
    (bus : BitVec 64) : List (BusDeviceFunction × Nat × BitVec 32) :=
  match kind with
  | .io | .nonPrefetchable => [(bdf, 4 * barRegister barIndex, bus.setWidth 32)]
  | .prefetchable => [(bdf, 4 * barRegister barIndex, bus.setWidth 32),
      (bdf, 4 * barRegister (barIndex + 1), (bus >>> 32).setWidth 32)]

def ConfigStore.view (c : ConfigStore) : BusDeviceFunction × Nat × BitVec 32 :=
  (c.bdf, c.off, c.value)

/-- What a call has done after sizing: the pointer is the CPU's address of the bus address that
was stored to the BAR and nowhere else, and the range from it on was asked of the MMU. -/
structure OneRegionAssigned (kind : MemoryType) (bdf : BusDeviceFunction) (barIndex : Nat)
    (size bus p : BitVec 64) (t s' : PciMachine) : Prop where
  pointer : p = kind.window.cpuBase + (bus - kind.window.busBase)
  range : s'.kernel.requests = t.kernel.requests ++ [⟨p.toNat, size.toNat, 1⟩]
  stores : s'.stores.map ConfigStore.view =
    t.stores.map ConfigStore.view ++ kind.ownStores bdf barIndex bus
  width : kind ≠ .prefetchable → bus.toNat < 2 ^ 32

def BarConsistent (bdf : BusDeviceFunction) (barIndex : Nat) (s : PciMachine) (p : BitVec 64)
    (s' : PciMachine) : Prop :=
  ∃ kind t size bus, supportedType ((s.functions bdf).register (barRegister barIndex)) = some kind ∧
    barSize bdf barIndex s = .ok size t ∧ OneRegionAssigned kind bdf barIndex size bus p t s'

/-- The stores that the branch of a kind makes. -/
def MemoryType.programmed (kind : MemoryType) (bdf : BusDeviceFunction) (barIndex : Nat)
    (offset : BitVec 64) : List (BusDeviceFunction × Nat × BitVec 32) :=
  match kind with
  | .io | .nonPrefetchable => [(bdf, 4 * barRegister (barIndex + barIndex),
      (kind.window.busBase + offset).setWidth 32)]
  | .prefetchable => [(bdf, 4 * barRegister barIndex,
        (kind.window.cpuBase + offset).setWidth 32),
      (bdf, 4 * barRegister (barIndex + 1),
        ((kind.window.cpuBase + offset) >>> 32).setWidth 32)]

section views
variable {s s' t u : PciMachine} {kind : MemoryType} {bdf : BusDeviceFunction} {barIndex : Nat}
variable {p offset : BitVec 64}

theorem program_ok (h : kind.program bdf barIndex offset t = .ok () u) :
    u.kernel = t.kernel ∧ u.regions = t.regions ∧
      (∀ bdf, (t.functions bdf).SameFixed (u.functions bdf)) ∧
      u.stores.map ConfigStore.view =
        t.stores.map ConfigStore.view ++ kind.programmed bdf barIndex offset := by
  have hkept : DevicesKept (kind.program bdf barIndex offset) := by
    cases kind with
    | io => exact DevicesKept.writeConfig _ _ _
    | nonPrefetchable => exact DevicesKept.writeConfig _ _ _
    | prefetchable =>
      exact (DevicesKept.writeConfig _ _ _).bind fun _ => DevicesKept.writeConfig _ _ _
  have hdevices := hkept t
  rw [h, final_ok] at hdevices
  cases kind with
  | io =>
    obtain ⟨-, rfl⟩ := EStateM.Result.ok.inj h
    exact ⟨rfl, rfl, hdevices.devices, List.map_append⟩
  | nonPrefetchable =>
    obtain ⟨-, rfl⟩ := EStateM.Result.ok.inj h
    exact ⟨rfl, rfl, hdevices.devices, List.map_append⟩
  | prefetchable =>
    obtain ⟨-, rfl⟩ := EStateM.Result.ok.inj h
    refine ⟨rfl, rfl, hdevices.devices, ?_⟩
    simp only [PciMachine.configured, List.map_append, List.append_assoc]
    rfl

/-- Added to a pointer to 64-bit words, an offset counts eight times. -/
theorem scaled_ne {base offset : BitVec 64} (hpos : 0 < offset.toNat)
    (hle : offset.toNat ≤ 2 ^ 32) : (base + offset).toNat ≠ (base + 8 * offset).toNat := by
  intro h
  have hsame : offset = 8 * offset := (BitVec.add_right_inj base).mp (BitVec.eq_of_toNat_eq h)
  have hvalue := congrArg BitVec.toNat hsame
  rw [BitVec.toNat_mul, Nat.mod_eq_of_lt] at hvalue
  · change offset.toNat = 8 * offset.toNat at hvalue
    omega
  · change 8 * offset.toNat < 2 ^ 64
    omega

/-- What a call has done, next to what it should have done. -/
structure CallDone (kind : MemoryType) (bdf : BusDeviceFunction) (barIndex : Nat)
    (size p : BitVec 64) (t s' : PciMachine) : Prop where
  pointer : p = kind.pointer size
  requests : s'.kernel.requests = t.kernel.requests ++
    [⟨(kind.window.cpuBase + size).toNat, size.toNat % 2 ^ 32, 1⟩]
  stores : s'.stores.map ConfigStore.view =
    t.stores.map ConfigStore.view ++ kind.programmed bdf barIndex size

theorem CallDone.agrees_iff {size : BitVec 64} (h : CallDone kind bdf barIndex size p t s')
    (hio : kind = .io → size = 0)
    (hnon : kind = .nonPrefetchable → 0 < size.toNat ∧ size.toNat ≤ 2 ^ 32) :
    (∃ bus, OneRegionAssigned kind bdf barIndex size bus p t s') ↔
      kind = .prefetchable ∧ size.toNat < 2 ^ 32 ∨ kind = .io ∧ barIndex = 0 := by
  obtain ⟨rfl, hrequests, hstores⟩ := h
  constructor
  · rintro ⟨bus, -, hrange, hown, -⟩
    have hsame := List.append_cancel_left (hrequests.symm.trans hrange)
    have hwritten := List.append_cancel_left (hstores.symm.trans hown)
    simp only [List.cons.injEq, Request.mk.injEq, and_true] at hsame
    cases kind with
    | io =>
      simp only [MemoryType.programmed, MemoryType.ownStores, List.cons.injEq, Prod.mk.injEq,
        true_and, and_true, barRegister] at hwritten
      exact Or.inr ⟨rfl, by omega⟩
    | nonPrefetchable =>
      obtain ⟨hpos, hle⟩ := hnon rfl
      exact absurd hsame.1 (scaled_ne hpos hle)
    | prefetchable => exact Or.inl ⟨rfl, by omega⟩
  · rintro (⟨rfl, hsize⟩ | ⟨rfl, rfl⟩)
    · refine ⟨MemoryType.prefetchable.window.cpuBase + size, ?_, ?_, ?_, fun hne => absurd rfl hne⟩
      · change MemoryType.prefetchable.window.cpuBase + size =
          MemoryType.prefetchable.window.cpuBase + (MemoryType.prefetchable.window.cpuBase + size -
            MemoryType.prefetchable.window.cpuBase)
        rw [BitVec.add_comm _ size, BitVec.add_sub_cancel, BitVec.add_comm]
      · rw [hrequests, Nat.mod_eq_of_lt hsize]
        rfl
      · rw [hstores]
        rfl
    · obtain rfl := hio rfl
      refine ⟨0, rfl, hrequests, hstores, fun _ => by decide⟩

theorem allocBarMemory_done (h : allocBarMemory bdf barIndex s = .ok p s') :
    ∃ kind t, supportedType ((s.functions bdf).register (barRegister barIndex)) = some kind ∧
      barSize bdf barIndex s = .ok ((s.functions bdf).barSize barIndex) t ∧
      CallDone kind bdf barIndex ((s.functions bdf).barSize barIndex) p t s' := by
  obtain ⟨kind, t, hkind, hsize, hp, -, k, u, hmap, hprogram, rfl⟩ := allocBarMemory_ok h
  obtain ⟨hkernel, -, -, hstores⟩ := program_ok hprogram
  refine ⟨kind, t, hkind, hsize, hp, ?_, hstores⟩
  change u.kernel.requests = _
  rw [hkernel]
  exact registerDeviceMemory_requests hmap

theorem barConsistent_iff_agrees {size : BitVec 64}
    (hkind : supportedType ((s.functions bdf).register (barRegister barIndex)) = some kind)
    (hsize : barSize bdf barIndex s = .ok size t)
    (done : CallDone kind bdf barIndex size p t s')
    (hvalue : size = (s.functions bdf).barSize barIndex) :
    BarConsistent bdf barIndex s p s' ↔
      kind = .prefetchable ∧ size.toNat < 2 ^ 32 ∨ kind = .io ∧ barIndex = 0 := by
  rw [← done.agrees_iff
    (fun hio => hvalue.trans (barSize_io (hkind.trans (congrArg some hio))))
    fun hnon => by
      rw [hvalue, barSize_nonPrefetchable (hkind.trans (congrArg some hnon))]
      exact size32_range _ _]
  constructor
  · rintro ⟨kind', t', size', bus, hkind', hsize', hviews⟩
    obtain rfl := Option.some.inj (hkind.symm.trans hkind')
    obtain ⟨rfl, rfl⟩ := EStateM.Result.ok.inj (hsize.symm.trans hsize')
    exact ⟨bus, hviews⟩
  · rintro ⟨bus, hviews⟩
    exact ⟨kind, t, size, bus, hkind, hsize, hviews⟩

/-- The four views agree only for a 64-bit BAR below 4 GB, and for an I/O BAR of index 0. -/
theorem allocBarMemory_consistent_iff (h : allocBarMemory bdf barIndex s = .ok p s') :
    BarConsistent bdf barIndex s p s' ↔
      supportedType ((s.functions bdf).register (barRegister barIndex)) = some .prefetchable ∧
          ((s.functions bdf).barSize barIndex).toNat < 2 ^ 32 ∨
        supportedType ((s.functions bdf).register (barRegister barIndex)) = some .io ∧
          barIndex = 0 := by
  obtain ⟨kind, t, hkind, hsize, done⟩ := allocBarMemory_done h
  rw [hkind, Option.some.injEq, Option.some.injEq]
  exact barConsistent_iff_agrees hkind hsize done rfl

end views

/-- A memory BAR that fits its window is assigned if its pages can be mapped. -/
theorem allocBarMemory_assigns (s : PciMachine) (bdf : BusDeviceFunction) (barIndex : Nat)
    {kind : MemoryType} {size : BitVec 64} {k : Machine}
    (hkind : supportedType ((s.functions bdf).register (barRegister barIndex)) = some kind)
    (hmemory : kind ≠ .io) (hsize : (s.functions bdf).barSize barIndex = size)
    (hfits : kind.Fits size)
    (hmap : registerDeviceMemory (kind.window.cpuBase + size).toNat size.toNat s.kernel =
      .ok () k) :
    ∃ s', allocBarMemory bdf barIndex s = .ok (kind.pointer size) s' ∧ s'.kernel = k := by
  obtain ⟨t, -, hkernel, hrun⟩ := allocBarMemory_run s bdf barIndex hkind
  rw [hsize] at hrun
  rw [← hkernel hmemory] at hmap
  have hbelow : kind.window.cpuBase + size + size < kind.window.cpuBase + kind.window.size := hfits
  rw [hrun, assignBar, if_pos hbelow, bind_run (onKernel_run t hmap)]
  cases kind with
  | io => exact absurd rfl hmemory
  | nonPrefetchable => exact ⟨_, rfl, rfl⟩
  | prefetchable => exact ⟨_, rfl, rfl⟩

def oneBar (barIndex : Nat) (bar low high : BitVec 32) : PciFunction where
  register i := if i = barRegister barIndex then bar else 0
  writable i :=
    if i = barRegister barIndex then low else if i = barRegister (barIndex + 1) then high else 0

def gpuBar4 : PciFunction := oneBar 4 0xC 0xFFFFC000 0xFFFFFFFF

def bootFunction : BusDeviceFunction :=
  { PciFunction.firstFunction with deviceNr := 1, device_lt := by decide }

/-- A kernel with the same device at every function. -/
def PciMachine.start (k : Machine) (f : PciFunction) : PciMachine := ⟨k, fun _ => f, [], []⟩

theorem image_mapsNext {ops : List Op} {k : Machine} {address size : Nat}
    (legal : ∀ op ∈ ops, op.Legal kernelHeapEnd)
    (hrun : run imageLayout ops (boot imageLayout zeroRam) = .ok () k)
    (haddress : address % 4096 = 0) (hpages : size % 4096 = 0) (hsize : size < 2 ^ 32)
    (call : DeviceCall imageLayout zeroRam ops address size) :
    ∃ k', registerDeviceMemory address size k = .ok () k' ∧
      run imageLayout (ops ++ [.registerDeviceMemory address size]) (boot imageLayout zeroRam) =
        .ok () k' := by
  obtain ⟨k', hmap, -⟩ := call.registersExactly (fun _ _ _ => rfl) legal hrun haddress hpages
    hsize
  refine ⟨k', hmap, ?_⟩
  rw [run_append, bind_run hrun, runOps, runOps]
  exact bind_run hmap

theorem image_maps (address size : Nat) (haddress : address % 4096 = 0)
    (hpages : size % 4096 = 0) (hsize : size < 2 ^ 32)
    (outside : address + size ≤ initPageL0 ∨ kernelHeapEnd ≤ address)
    (limit : address + size ≤ addressLimit)
    (hroom : 4 * pageSize * (Op.registerDeviceMemory address size).mostTables ≤ 0xE8000) :
    ∃ k k', run imageLayout [] (boot imageLayout zeroRam) = .ok () k ∧
      registerDeviceMemory address size k = .ok () k' ∧
      run imageLayout [.registerDeviceMemory address size] (boot imageLayout zeroRam) =
        .ok () k' := by
  obtain ⟨k1, k2, k, hstart, -, -, -⟩ := image_start
  have hboot : run imageLayout [] (boot imageLayout zeroRam) = .ok () k := bind_run hstart
  have call : DeviceCall imageLayout zeroRam [] address size := by
    apply image_deviceCall (fun _ h => absurd h List.not_mem_nil) outside limit
    change 0 + 4 * pageSize * ((Op.registerDeviceMemory address size).mostTables + 0) ≤ _
    rwa [Nat.zero_add, Nat.add_zero]
  obtain ⟨k', hmap, hrun⟩ := image_mapsNext (fun _ h => absurd h List.not_mem_nil) hboot haddress
    hpages hsize call
  exact ⟨k, k', hboot, hmap, hrun⟩

theorem allocBarMemory_consistent_iff_gpu : ∃ k s',
    run imageLayout [] (boot imageLayout zeroRam) = .ok () k ∧
      allocBarMemory bootFunction 4 (.start k gpuBar4) = .ok 0x8000004000 s' ∧
      BarConsistent bootFunction 4 (.start k gpuBar4) 0x8000004000 s' := by
  obtain ⟨k, k', hboot, hmap, -⟩ := image_maps 0x8000004000 0x4000 (by decide) (by decide)
    (by decide) (Or.inr (by decide)) (by decide) (by decide)
  have hkind : supportedType (gpuBar4.register (barRegister 4)) = some .prefetchable := by decide
  have hsize : gpuBar4.barSize 4 = 0x4000 := by decide
  have hpointer : MemoryType.prefetchable.pointer 0x4000 = 0x8000004000 := by decide
  obtain ⟨s', hrun, -⟩ := allocBarMemory_assigns (.start k gpuBar4) bootFunction 4 hkind
    (by decide) hsize (by decide) hmap
  rw [hpointer] at hrun
  refine ⟨k, s', hboot, hrun, (allocBarMemory_consistent_iff hrun).mpr (Or.inl ⟨hkind, ?_⟩)⟩
  change (gpuBar4.barSize 4).toNat < 2 ^ 32
  rw [hsize]
  decide

/-- A 32-bit BAR of 4 KB, such as BAR 1 of the GPU: the caller gets 0x10008000, mapped is the
page at 0x10001000, and the address is stored to BAR 2. -/
theorem allocBarMemory_inconsistent : ∃ k s',
    run imageLayout [] (boot imageLayout zeroRam) = .ok () k ∧
      allocBarMemory bootFunction 1 (.start k (oneBar 1 0 0xFFFFF000 0)) = .ok 0x10008000 s' ∧
      ¬BarConsistent bootFunction 1 (.start k (oneBar 1 0 0xFFFFF000 0)) 0x10008000 s' := by
  obtain ⟨k, k', hboot, hmap, -⟩ := image_maps 0x10001000 0x1000 (by decide) (by decide)
    (by decide) (Or.inl (by decide)) (by decide) (by decide)
  have hkind : supportedType ((oneBar 1 0 0xFFFFF000 0).register (barRegister 1)) =
      some .nonPrefetchable := by decide
  have hsize : (oneBar 1 0 0xFFFFF000 0).barSize 1 = 0x1000 := by decide
  have hpointer : MemoryType.nonPrefetchable.pointer 0x1000 = 0x10008000 := by decide
  obtain ⟨s', hrun, -⟩ := allocBarMemory_assigns (.start k (oneBar 1 0 0xFFFFF000 0))
    bootFunction 1 hkind (by decide) hsize (by decide) hmap
  rw [hpointer] at hrun
  refine ⟨k, s', hboot, hrun, fun hconsistent => ?_⟩
  obtain ⟨kind, t, hkind', hsized, done⟩ := allocBarMemory_done hrun
  obtain rfl := Option.some.inj (hkind.symm.trans hkind')
  rcases (barConsistent_iff_agrees hkind' hsized done rfl).mp hconsistent with ⟨h, -⟩ | ⟨h, -⟩
  · cases h
  · cases h

end SelfmadeOS
