import SelfmadeOS.BarTraces

/-!
# Where the driver finds the device's registers (`virtio_gpu_driver.cpp`)

The part of the constructor that works out addresses: both capabilities are looked up, but only
one BAR is assigned, and everything is counted from there. What lies between the two look-ups
talks to the device and leaves its configuration space alone.
-/

namespace SelfmadeOS
set_option autoImplicit false
open StateRuns

namespace PciFunction
variable (f : PciFunction)

def capBar (cap : Nat) : Nat := (f.byte (cap + 4)).toNat
def capOffset (cap : Nat) : BitVec 32 := f.register ((cap + 8) / 4)
def notifyOffMultiplier (cap : Nat) : BitVec 32 := f.register ((cap + 16) / 4)

end PciFunction

def findCapability (bdf : BusDeviceFunction) (cfgType : BitVec 8) (tests : Nat) : PciM Nat :=
  fun s =>
    match (s.functions bdf).capabilityWalk cfgType tests
      (s.functions bdf).getPciCapabilityOffset with
    | some r => .ok r.1 s
    | none => .error (.inKernel .diverges) s

def readFunction (bdf : BusDeviceFunction) : PciM PciFunction :=
  fun s => .ok (s.functions bdf) s

structure RegisterPointers where
  commonCfg : BitVec 64
  queueNotifyAddress : BitVec 64

def registerPointers (tests : Nat) (bdf : BusDeviceFunction) (queueNotifyOff : BitVec 16) :
    PciM RegisterPointers := do
  writeCommand bdf ((← readCommand bdf) ||| 0x0007)
  let commonConfCap ← findCapability bdf 1 tests
  let bar4 ← allocBarMemory bdf ((← readFunction bdf).capBar commonConfCap)
  let notifyCap ← findCapability bdf 2 tests
  let offset := (← readFunction bdf).capOffset notifyCap
  let notifyOffMultiplier := (← readFunction bdf).notifyOffMultiplier notifyCap
  -- The product of the `uint16_t` and the `uint32_t` has 32 bits.
  return ⟨bar4, bar4 + offset.setWidth 64 +
    (queueNotifyOff.setWidth 32 * notifyOffMultiplier).setWidth 64⟩

/-- The CPU address of a BAR. The windows for memory are seen at the same place from both
sides. -/
def PciFunction.cpuAddress (f : PciFunction) (barIndex : Nat) : BitVec 64 :=
  if f.register (barRegister barIndex) &&& 1 = 1 then
    MemoryType.io.window.cpuBase + (f.register (barRegister barIndex) &&& 0xFFFFFFFC).setWidth 64
  else if f.register (barRegister barIndex) &&& 7 = 4 then f.register64 barIndex &&& ~~~15
  else (f.register (barRegister barIndex) &&& 0xFFFFFFF0).setWidth 64

/-- The bytes of `virtio_pci_common_cfg` that the driver uses, up to `queue_device`. -/
def commonCfgBytes : Nat := 56

/-- So many bytes from an address on lie in a range that was asked for as device memory. -/
def Request.HasDeviceBytes (r : Request) (address : BitVec 64) (bytes : Nat) : Prop :=
  r.attrIdx = 1 ∧ r.address ≤ address.toNat ∧ address.toNat + bytes ≤ r.address + r.size

def newRequests (s s' : PciMachine) : List Request :=
  s'.kernel.requests.drop s.kernel.requests.length

/-- The pointers are what the two capabilities say, and what they point to has been mapped. -/
structure FollowsLayout (s s' : PciMachine) (bdf : BusDeviceFunction) (commonCap notifyCap : Nat)
    (queueNotifyOff : BitVec 16) (p : RegisterPointers) : Prop where
  commonCfg : p.commonCfg.toNat =
    ((s'.functions bdf).cpuAddress ((s.functions bdf).capBar commonCap)).toNat +
      ((s.functions bdf).capOffset commonCap).toNat
  queueNotify : p.queueNotifyAddress.toNat =
    ((s'.functions bdf).cpuAddress ((s.functions bdf).capBar notifyCap)).toNat +
      ((s.functions bdf).capOffset notifyCap).toNat +
      queueNotifyOff.toNat * ((s.functions bdf).notifyOffMultiplier notifyCap).toNat
  commonMapped : ∃ r ∈ newRequests s s', r.HasDeviceBytes p.commonCfg commonCfgBytes
  notifyMapped : ∃ r ∈ newRequests s s', r.HasDeviceBytes p.queueNotifyAddress 4

/-- A virtio device: a list of capabilities behind the header, the two that are found in it, and
BARs that decode a power of two and share no register. -/
structure VirtioLayout (f : PciFunction) (commonCap notifyCap : Nat) : Prop where
  list : ∃ caps, caps ≠ [] ∧ f.CapabilityList f.getPciCapabilityOffset caps ∧
    ∀ cap ∈ caps, 0x40 ≤ cap
  common : ∃ tests messages,
    f.capabilityWalk 1 tests f.getPciCapabilityOffset = some (commonCap, messages)
  notify : ∃ tests messages,
    f.capabilityWalk 2 tests f.getPciCapabilityOffset = some (notifyCap, messages)
  bar : f.capBar commonCap ≤ 5
  decodes : f.register (barRegister (f.capBar commonCap)) &&& 7 = 4 →
    ∃ k low high, f.Decodes (f.capBar commonCap) (.memory64 k low high)
  apart : f.capBar notifyCap ≠ f.capBar commonCap → f.capBar notifyCap ≠ f.capBar commonCap + 1 ∧
    (f.register (barRegister (f.capBar notifyCap)) &&& 7 = 4 →
      f.capBar notifyCap + 1 ≠ f.capBar commonCap)

namespace PciFunction
variable (f : PciFunction) (commonCap notifyCap : Nat) (queueNotifyOff : BitVec 16)

/-- The address that a prefetchable BAR gets. -/
def assignedAddress : BitVec 64 :=
  MemoryType.prefetchable.window.cpuBase + f.barSize (f.capBar commonCap)

def notifyBarAddress : BitVec 64 :=
  if f.capBar notifyCap = f.capBar commonCap then f.assignedAddress commonCap
  else f.cpuAddress (f.capBar notifyCap)

def notifyProduct : Nat := queueNotifyOff.toNat * (f.notifyOffMultiplier notifyCap).toNat

/-- One 64-bit prefetchable BAR below 4 GB for both, with the common configuration at its start.
A product that loses its upper part has to be made up for by the notify capability's BAR. -/
structure OneBarLayout : Prop where
  kind : supportedType (f.register (barRegister (f.capBar commonCap))) = some .prefetchable
  small : (f.barSize (f.capBar commonCap)).toNat < 2 ^ 32
  room : commonCfgBytes ≤ (f.barSize (f.capBar commonCap)).toNat
  start : f.capOffset commonCap = 0
  notifyBar : (f.notifyBarAddress commonCap notifyCap).toNat +
    2 ^ 32 * (f.notifyProduct notifyCap queueNotifyOff / 2 ^ 32) =
      (f.assignedAddress commonCap).toNat
  notifyRoom : (f.capOffset notifyCap).toNat +
    f.notifyProduct notifyCap queueNotifyOff % 2 ^ 32 + 4 ≤
      (f.barSize (f.capBar commonCap)).toNat

end PciFunction

section walks
variable {f g : PciFunction} {cap : Nat} {caps : List Nat}

theorem byte_congr (h : ∀ i, i = 13 ∨ 16 ≤ i → g.register i = f.register i) {off : Nat}
    (hoff : off = 0x34 ∨ 0x40 ≤ off) : g.byte off = f.byte off := by
  unfold PciFunction.byte
  rw [h (off / 4) (by omega)]

/-- A list behind the header is walked the same, whatever happens to the header. -/
theorem capabilityWalk_congr (h : ∀ i, i = 13 ∨ 16 ≤ i → g.register i = f.register i)
    (hlist : f.CapabilityList cap caps) (hne : caps ≠ []) (hbehind : ∀ c ∈ caps, 0x40 ≤ c)
    (cfgType : BitVec 8) (tests : Nat) :
    g.capabilityWalk cfgType tests cap = f.capabilityWalk cfgType tests cap := by
  induction hlist generalizing tests with
  | nil => exact absurd rfl hne
  | @cons cap caps hcap rest ih =>
    have hcap' := hbehind cap List.mem_cons_self
    have htype : g.cfgType cap = f.cfgType cap := byte_congr h (Or.inr (by omega))
    have hnext : g.capNext cap = f.capNext cap := by
      unfold PciFunction.capNext
      rw [byte_congr h (Or.inr (by omega))]
    cases tests with
    | zero => rfl
    | succ tests =>
      unfold PciFunction.capabilityWalk
      rw [htype, hnext]
      split
      · rfl
      split
      · rfl
      · rename_i hnonzero
        generalize f.capNext cap = next at rest ih hnonzero ⊢
        cases rest with
        | nil => exact absurd rfl hnonzero
        | cons hnext rest =>
          exact ih (List.cons_ne_nil _ _) (fun c hc => hbehind c (List.mem_cons_of_mem _ hc)) tests

theorem capabilityWalk_mem {cfgType : BitVec 8} {tests found : Nat} {messages : List String}
    (hlist : f.CapabilityList cap caps) (hne : caps ≠ [])
    (h : f.capabilityWalk cfgType tests cap = some (found, messages)) : found ∈ caps := by
  obtain ⟨messages', hwalk⟩ : ∃ messages, f.capabilityWalk cfgType caps.length cap =
    some (_, messages) := hlist.walk hne
  have hfound := congrArg Prod.fst (PciFunction.capabilityWalk_unique h hwalk)
  simp only at hfound
  rw [hfound]
  cases hfind : caps.find? (fun c => f.cfgType c = cfgType) with
  | none => exact List.getLast_mem hne
  | some c => exact List.mem_of_find?_eq_some hfind

theorem capabilityWalk_behind (h : ∀ i, i = 13 ∨ 16 ≤ i → g.register i = f.register i)
    (list : ∃ caps, caps ≠ [] ∧ f.CapabilityList f.getPciCapabilityOffset caps ∧
      ∀ cap ∈ caps, 0x40 ≤ cap) {cfgType : BitVec 8} {tests : Nat} {messages : List String}
    (hwalk : f.capabilityWalk cfgType tests f.getPciCapabilityOffset = some (cap, messages)) :
    0x40 ≤ cap ∧
      g.capabilityWalk cfgType tests g.getPciCapabilityOffset = some (cap, messages) := by
  obtain ⟨caps, hne, hlist, hbehind⟩ := list
  refine ⟨hbehind cap (capabilityWalk_mem hlist hne hwalk), ?_⟩
  have hstart : g.getPciCapabilityOffset = f.getPciCapabilityOffset := by
    unfold PciFunction.getPciCapabilityOffset
    rw [byte_congr h (Or.inl rfl)]
  rw [hstart, capabilityWalk_congr h hlist hne hbehind, hwalk]

variable {s s' : PciMachine} {bdf : BusDeviceFunction} {cfgType : BitVec 8} {tests tests' : Nat}
variable {messages : List String}

theorem findCapability_run (hwalk : (s.functions bdf).capabilityWalk cfgType tests
      (s.functions bdf).getPciCapabilityOffset = some (cap, messages)) :
    findCapability bdf cfgType tests s = .ok cap s := by
  unfold findCapability
  rw [hwalk]

/-- A look-up that comes back has found what any longer one finds. -/
theorem findCapability_bind_ok {α : Type} {x : Nat → PciM α} {a : α}
    (hwalk : (s.functions bdf).capabilityWalk cfgType tests'
      (s.functions bdf).getPciCapabilityOffset = some (cap, messages))
    (h : (findCapability bdf cfgType tests >>= x) s = .ok a s') : x cap s = .ok a s' := by
  cases hfound : (s.functions bdf).capabilityWalk cfgType tests
      (s.functions bdf).getPciCapabilityOffset with
  | none =>
    have hstop : findCapability bdf cfgType tests s = .error (.inKernel .diverges) s := by
      unfold findCapability
      rw [hfound]
    rw [bind_stop hstop] at h
    cases h
  | some r =>
    obtain rfl := PciFunction.capabilityWalk_unique hfound hwalk
    rwa [bind_run (findCapability_run hfound)] at h

end walks

namespace PciFunction
section decoded
variable {f g : PciFunction} {barIndex k : Nat} {low : 4 ≤ k} {high : k ≤ 63} {v : BitVec 64}

theorem SameFixed.decodes (hfg : SameFixed f g)
    (h : f.Decodes barIndex (.memory64 k low high)) :
    g.Decodes barIndex (.memory64 k low high) := by
  obtain ⟨hwritable, type, htype, hfixed⟩ := h
  have hwritable' : g.writable64 barIndex = f.writable64 barIndex := by
    unfold writable64
    rw [hfg.writable]
  have hfixed' : g.register64 barIndex &&& ~~~f.writable64 barIndex =
      f.register64 barIndex &&& ~~~f.writable64 barIndex := by
    unfold register64 writable64
    rw [BitVec.not_append, BitVec.and_append, BitVec.and_append, hfg.fixed, hfg.fixed]
  refine ⟨hwritable'.trans hwritable, type, htype, ?_⟩
  rw [hwritable] at hfixed'
  exact hfixed'.trans hfixed

theorem cpuAddress_memory64 (h : f.Decodes barIndex (.memory64 k low high)) :
    f.cpuAddress barIndex = f.register64 barIndex &&& ~~~15 := by
  have hseven := low_memory64 h
  have hone : ¬f.register (barRegister barIndex) &&& 1 = 1 := by
    intro hone
    have hpart : f.register (barRegister barIndex) &&& 7 &&& 1 =
        f.register (barRegister barIndex) &&& 1 := by
      rw [BitVec.and_assoc]
      rfl
    rw [hseven, hone] at hpart
    exact absurd hpart (by decide)
  rw [cpuAddress, if_neg hone, if_pos hseven]

def written64 (f : PciFunction) (barIndex : Nat) (v : BitVec 64) : PciFunction :=
  (f.write (barRegister barIndex) (v.setWidth 32)).write (barRegister (barIndex + 1))
    ((v >>> 32).setWidth 32)

theorem written64_fixed (f : PciFunction) : SameFixed f (f.written64 barIndex v) :=
  (SameFixed.write _ _).trans (SameFixed.write _ _)

theorem written64_other {i : Nat} (hlow : i ≠ barRegister barIndex)
    (hhigh : i ≠ barRegister (barIndex + 1)) :
    (f.written64 barIndex v).register i = f.register i := by
  rw [written64, write_other _ _ _ _ hhigh, write_other _ _ _ _ hlow]

theorem halves (v : BitVec 64) : ((v >>> 32).setWidth 32 ++ v.setWidth 32 : BitVec 64) = v := by
  ext i hi
  rw [BitVec.getElem_append]
  split
  · rw [BitVec.getElem_setWidth, BitVec.getLsbD_eq_getElem hi]
  · rename_i hhigh
    rw [BitVec.getElem_setWidth, BitVec.getLsbD_ushiftRight, Nat.add_sub_cancel' (by omega),
      BitVec.getLsbD_eq_getElem hi]

theorem register64_written64 (f : PciFunction) (barIndex : Nat) (v : BitVec 64) :
    (f.written64 barIndex v).register64 barIndex =
      f.register64 barIndex &&& ~~~f.writable64 barIndex ||| v &&& f.writable64 barIndex := by
  have hnext : barRegister barIndex ≠ barRegister (barIndex + 1) :=
    barRegister_ne (Nat.ne_of_lt (Nat.lt_succ_self barIndex))
  have hstored : (f.written64 barIndex v).register64 barIndex =
      f.stored (barRegister (barIndex + 1)) ((v >>> 32).setWidth 32) ++
        f.stored (barRegister barIndex) (v.setWidth 32) := by
    rw [register64, written64, write_same, write_other _ _ _ _ hnext, write_same, stored, stored,
      write_other _ _ _ _ hnext.symm]
    rfl
  rw [hstored, stored, stored, ← BitVec.or_append, ← BitVec.and_append, ← BitVec.and_append,
    ← BitVec.not_append, halves]
  rfl

/-- The BAR takes an address that is a multiple of what it decodes. -/
theorem cpuAddress_written64 (h : f.Decodes barIndex (.memory64 k low high))
    (hv : 2 ^ k ∣ v.toNat) : (f.written64 barIndex v).cpuAddress barIndex = v := by
  rw [cpuAddress_memory64 ((written64_fixed f).decodes h), register64_written64]
  obtain ⟨hwritable, type, -, hfixed⟩ := h
  have hmask : (~~~15 : BitVec 64) = addressBits 64 4 := rfl
  have haddress : v &&& addressBits 64 k = v := and_addressBits hv
  have hnibble : v &&& addressBits 64 4 = v :=
    and_addressBits ((Nat.pow_dvd_pow 2 low).trans hv)
  have htype : type.setWidth 64 &&& addressBits 64 4 = 0 := by
    ext i hi
    rw [BitVec.getElem_and, getElem_addressBits, BitVec.getElem_setWidth]
    by_cases hi4 : i < 4
    · simp [hi4]
    · simp [hi4, BitVec.getLsbD_of_ge type i (by omega)]
  rw [hwritable, hfixed, haddress, hmask, BitVec.and_or_distrib_right, htype, hnibble]
  exact BitVec.zero_or

end decoded
end PciFunction

def MemoryType.written (kind : MemoryType) (f : PciFunction) (barIndex : Nat)
    (offset : BitVec 64) : PciFunction :=
  match kind with
  | .io | .nonPrefetchable =>
    f.write (barRegister (barIndex + barIndex)) ((kind.window.busBase + offset).setWidth 32)
  | .prefetchable => f.written64 barIndex (kind.window.cpuBase + offset)

section assigned
variable {s s' t u : PciMachine} {bdf : BusDeviceFunction} {barIndex : Nat} {p : BitVec 64}
variable {kind : MemoryType} {offset : BitVec 64}

theorem program_functions (h : kind.program bdf barIndex offset t = .ok () u) :
    u.functions bdf = kind.written (t.functions bdf) barIndex offset := by
  cases kind with
  | io =>
    obtain ⟨-, rfl⟩ := EStateM.Result.ok.inj h
    exact configured_same t bdf _ _
  | nonPrefetchable =>
    obtain ⟨-, rfl⟩ := EStateM.Result.ok.inj h
    exact configured_same t bdf _ _
  | prefetchable =>
    obtain ⟨-, rfl⟩ := EStateM.Result.ok.inj h
    rw [configured_same, configured_same]
    rfl

theorem allocBarMemory_written (h : allocBarMemory bdf barIndex s = .ok p s') :
    ∃ kind, supportedType ((s.functions bdf).register (barRegister barIndex)) = some kind ∧
      p = kind.pointer ((s.functions bdf).barSize barIndex) ∧
      kind.Fits ((s.functions bdf).barSize barIndex) ∧
      s'.functions bdf =
        kind.written (s.functions bdf) barIndex ((s.functions bdf).barSize barIndex) ∧
      newRequests s s' = [⟨(kind.window.cpuBase + (s.functions bdf).barSize barIndex).toNat,
        ((s.functions bdf).barSize barIndex).toNat % 2 ^ 32, 1⟩] := by
  obtain ⟨kind, t, hkind, hsize, hp, hfits, k, u, hmap, hprogram, rfl⟩ := allocBarMemory_ok h
  obtain ⟨size, t', hsize', hfunctions, -, -⟩ := barSize_restores s bdf barIndex
  obtain ⟨-, rfl⟩ := EStateM.Result.ok.inj (hsize'.symm.trans hsize)
  refine ⟨kind, hkind, hp, hfits, ?_, ?_⟩
  · have hwritten := program_functions hprogram
    dsimp only at hwritten
    rw [hfunctions] at hwritten
    exact hwritten
  · obtain ⟨hkernel, -, -, -⟩ := program_ok hprogram
    have hrequests : u.kernel.requests = _ := (congrArg Machine.requests hkernel).trans
      (registerDeviceMemory_requests hmap)
    change u.kernel.requests.drop s.kernel.requests.length = _
    rw [hrequests, (barSize_keeps hsize).requests, List.drop_left]

/-- The header's pointer to the list and everything behind the header stay as they are. -/
theorem MemoryType.written_behind (kind : MemoryType) (f : PciFunction) (hbar : barIndex ≤ 5)
    {i : Nat} (hi : i = 13 ∨ 16 ≤ i) :
    (kind.written f barIndex offset).register i = f.register i := by
  have hlow : i ≠ barRegister barIndex := by
    unfold barRegister
    omega
  have hhigh : i ≠ barRegister (barIndex + 1) := by
    unfold barRegister
    omega
  have hindexed : i ≠ barRegister (barIndex + barIndex) := by
    unfold barRegister
    omega
  cases kind with
  | io => exact write_other f _ i _ hindexed
  | nonPrefetchable => exact write_other f _ i _ hindexed
  | prefetchable => exact PciFunction.written64_other hlow hhigh

theorem PciFunction.SameFixed.barSize {f g : PciFunction} (hfg : SameFixed f g)
    (h : g.register (barRegister barIndex) = f.register (barRegister barIndex)) :
    g.barSize barIndex = f.barSize barIndex := by
  rw [PciFunction.barSize, PciFunction.barSize, h, hfg.size32, hfg.size64]

end assigned

section pointers
variable {s s' : PciMachine} {bdf : BusDeviceFunction} {commonCap notifyCap tests : Nat}
variable {queueNotifyOff : BitVec 16} {p : RegisterPointers}

def PciFunction.enabled (f : PciFunction) : PciFunction := f.writeLow 1 (f.command ||| 0x0007)

theorem enabled_other (f : PciFunction) {i : Nat} (hi : i ≠ 1) :
    f.enabled.register i = f.register i := if_neg hi

theorem enabled_fixed (f : PciFunction) : f.SameFixed f.enabled :=
  PciFunction.SameFixed.writeLow 1 _

theorem readFunction_bind {α : Type} (s : PciMachine) (bdf : BusDeviceFunction)
    (x : PciFunction → PciM α) : (readFunction bdf >>= x) s = x (s.functions bdf) s := (rfl)

theorem allocBarMemory_behind {barIndex : Nat} {address : BitVec 64} (hbar : barIndex ≤ 5)
    (h : allocBarMemory bdf barIndex s = .ok address s') {i : Nat} (hi : i = 13 ∨ 16 ≤ i) :
    (s'.functions bdf).register i = (s.functions bdf).register i := by
  obtain ⟨kind, -, -, -, hwritten, -⟩ := allocBarMemory_written h
  rw [hwritten, kind.written_behind _ hbar hi]

def PciFunction.pointers (f : PciFunction) (notifyCap : Nat) (queueNotifyOff : BitVec 16)
    (bar4 : BitVec 64) : RegisterPointers :=
  ⟨bar4, bar4 + (f.capOffset notifyCap).setWidth 64 +
    (queueNotifyOff.setWidth 32 * f.notifyOffMultiplier notifyCap).setWidth 64⟩

theorem registerPointers_ok (layout : VirtioLayout (s.functions bdf) commonCap notifyCap)
    (h : registerPointers tests bdf queueNotifyOff s = .ok p s') :
    ∃ bar4, allocBarMemory bdf ((s.functions bdf).capBar commonCap)
        (s.commanded bdf ((s.functions bdf).command ||| 0x0007)) = .ok bar4 s' ∧
      p = (s.functions bdf).pointers notifyCap queueNotifyOff bar4 := by
  unfold registerPointers at h
  rw [readCommand_bind, writeCommand_bind] at h
  have hbehind : ∀ i, i = 13 ∨ 16 ≤ i →
      ((s.commanded bdf ((s.functions bdf).command ||| 0x0007)).functions bdf).register i =
        (s.functions bdf).register i := fun i hi => commanded_other s bdf _ (by omega)
  generalize s.commanded bdf ((s.functions bdf).command ||| 0x0007) = s1 at h hbehind ⊢
  obtain ⟨tests1, messages, hcommon⟩ := layout.common
  obtain ⟨hcap, hwalk⟩ := capabilityWalk_behind hbehind layout.list hcommon
  have h' := findCapability_bind_ok hwalk h
  have hbar : (s1.functions bdf).capBar commonCap = (s.functions bdf).capBar commonCap :=
    congrArg BitVec.toNat (byte_congr hbehind (Or.inr (by omega)))
  rw [readFunction_bind, hbar] at h'
  cases hcall : allocBarMemory bdf ((s.functions bdf).capBar commonCap) s1 with
  | error e s2 =>
    rw [bind_stop hcall] at h'
    cases h'
  | ok bar4 s2 =>
    rw [bind_run hcall] at h'
    have hbehind' : ∀ i, i = 13 ∨ 16 ≤ i →
        (s2.functions bdf).register i = (s.functions bdf).register i :=
      fun i hi => (allocBarMemory_behind layout.bar hcall hi).trans (hbehind i hi)
    obtain ⟨tests2, messages', hnotify⟩ := layout.notify
    obtain ⟨hcap', hwalk'⟩ := capabilityWalk_behind hbehind' layout.list hnotify
    have h'' := findCapability_bind_ok hwalk' h'
    rw [readFunction_bind, readFunction_bind] at h''
    obtain ⟨hp, rfl⟩ := EStateM.Result.ok.inj h''
    refine ⟨bar4, rfl, hp.symm.trans ?_⟩
    unfold PciFunction.pointers PciFunction.capOffset PciFunction.notifyOffMultiplier
    rw [hbehind' _ (by omega), hbehind' _ (by omega)]

theorem registerPointers_run {bar4 : BitVec 64} {messages messages' : List String}
    (layout : VirtioLayout (s.functions bdf) commonCap notifyCap)
    (hcommon : (s.functions bdf).capabilityWalk 1 tests (s.functions bdf).getPciCapabilityOffset =
      some (commonCap, messages))
    (hnotify : (s.functions bdf).capabilityWalk 2 tests (s.functions bdf).getPciCapabilityOffset =
      some (notifyCap, messages'))
    (hcall : allocBarMemory bdf ((s.functions bdf).capBar commonCap)
      (s.commanded bdf ((s.functions bdf).command ||| 0x0007)) = .ok bar4 s') :
    registerPointers tests bdf queueNotifyOff s =
      .ok ((s.functions bdf).pointers notifyCap queueNotifyOff bar4) s' := by
  unfold registerPointers
  rw [readCommand_bind, writeCommand_bind]
  have hbehind : ∀ i, i = 13 ∨ 16 ≤ i →
      ((s.commanded bdf ((s.functions bdf).command ||| 0x0007)).functions bdf).register i =
        (s.functions bdf).register i := fun i hi => commanded_other s bdf _ (by omega)
  generalize s.commanded bdf ((s.functions bdf).command ||| 0x0007) = s1 at hcall hbehind ⊢
  have hbehind' : ∀ i, i = 13 ∨ 16 ≤ i →
      (s'.functions bdf).register i = (s.functions bdf).register i :=
    fun i hi => (allocBarMemory_behind layout.bar hcall hi).trans (hbehind i hi)
  obtain ⟨hcap, hwalk⟩ := capabilityWalk_behind hbehind layout.list hcommon
  obtain ⟨hcap', hwalk'⟩ := capabilityWalk_behind hbehind' layout.list hnotify
  have hbar : (s1.functions bdf).capBar commonCap = (s.functions bdf).capBar commonCap :=
    congrArg BitVec.toNat (byte_congr hbehind (Or.inr (by omega)))
  rw [bind_run (findCapability_run hwalk), readFunction_bind, hbar, bind_run hcall,
    bind_run (findCapability_run hwalk'), readFunction_bind, readFunction_bind]
  unfold PciFunction.pointers PciFunction.capOffset PciFunction.notifyOffMultiplier
  rw [hbehind' _ (by omega), hbehind' _ (by omega)]
  rfl

theorem registerPointers_assigned (layout : VirtioLayout (s.functions bdf) commonCap notifyCap)
    (h : registerPointers tests bdf queueNotifyOff s = .ok p s') {f : PciFunction}
    {size : BitVec 64} (hf : s.functions bdf = f) (hsize : f.barSize (f.capBar commonCap) = size) :
    ∃ kind, supportedType (f.register (barRegister (f.capBar commonCap))) = some kind ∧
      kind.Fits size ∧ s'.functions bdf = kind.written f.enabled (f.capBar commonCap) size ∧
      newRequests s s' = [⟨(kind.window.cpuBase + size).toNat, size.toNat % 2 ^ 32, 1⟩] ∧
      p = f.pointers notifyCap queueNotifyOff (kind.pointer size) := by
  obtain ⟨bar4, hcall, hp⟩ := registerPointers_ok layout h
  obtain ⟨kind, hkind, hbar4, hfits, hwritten, hrequests⟩ := allocBarMemory_written hcall
  rw [hf] at hp hkind hbar4 hfits hwritten hrequests
  rw [commanded_bar, hf] at hkind
  have henabled : (s.commanded bdf (f.command ||| 0x0007)).functions bdf = f.enabled := by
    rw [commanded_same, hf]
    rfl
  have hbar : f.enabled.register (barRegister (f.capBar commonCap)) =
      f.register (barRegister (f.capBar commonCap)) := enabled_other f (barRegister_ne_one _)
  rw [henabled, (enabled_fixed f).barSize hbar, hsize] at hbar4 hfits hwritten hrequests
  exact ⟨kind, hkind, hfits, hwritten, hrequests, hp.trans (by rw [hbar4])⟩

end pointers

section prefetchable
variable {f g : PciFunction} {commonCap notifyCap n : Nat} {queueNotifyOff : BitVec 16}

theorem cpuAddress_congr (hlow : g.register (barRegister n) = f.register (barRegister n))
    (hhigh : f.register (barRegister n) &&& 7 = 4 →
      g.register (barRegister (n + 1)) = f.register (barRegister (n + 1))) :
    g.cpuAddress n = f.cpuAddress n := by
  unfold PciFunction.cpuAddress PciFunction.register64
  rw [hlow]
  split
  · rfl
  split
  · rename_i hfour
    rw [hhigh hfour]
  · rfl

theorem assignedAddress_toNat (hsmall : (f.barSize (f.capBar commonCap)).toNat < 2 ^ 32) :
    (f.assignedAddress commonCap).toNat = 2 ^ 39 + (f.barSize (f.capBar commonCap)).toNat := by
  change (0x8000000000 + f.barSize (f.capBar commonCap) : BitVec 64).toNat = _
  bv_omega

theorem cpuAddress_assigned (layout : VirtioLayout f commonCap notifyCap)
    (hkind : supportedType (f.register (barRegister (f.capBar commonCap))) = some .prefetchable)
    (hsmall : (f.barSize (f.capBar commonCap)).toNat < 2 ^ 32) :
    (f.enabled.written64 (f.capBar commonCap) (f.assignedAddress commonCap)).cpuAddress
      (f.capBar commonCap) = f.assignedAddress commonCap := by
  obtain ⟨k, low, high, hdecodes⟩ := layout.decodes ((supportedType_low _).2.2 hkind)
  have hsize := PciFunction.barSize_memory64 hdecodes
  apply PciFunction.cpuAddress_written64 ((enabled_fixed f).decodes hdecodes)
  rw [assignedAddress_toNat hsmall, hsize]
  rw [hsize] at hsmall
  have hk : k < 32 := (Nat.pow_lt_pow_iff_right (by omega)).mp hsmall
  exact Nat.dvd_add (Nat.pow_dvd_pow 2 (by omega)) (Nat.dvd_refl _)

theorem cpuAddress_notify (layout : VirtioLayout f commonCap notifyCap)
    (hkind : supportedType (f.register (barRegister (f.capBar commonCap))) = some .prefetchable)
    (hsmall : (f.barSize (f.capBar commonCap)).toNat < 2 ^ 32) :
    (f.enabled.written64 (f.capBar commonCap) (f.assignedAddress commonCap)).cpuAddress
      (f.capBar notifyCap) = f.notifyBarAddress commonCap notifyCap := by
  unfold PciFunction.notifyBarAddress
  split
  · rename_i hsame
    rw [hsame]
    exact cpuAddress_assigned layout hkind hsmall
  · rename_i hother
    obtain ⟨hnext, hprevious⟩ := layout.apart hother
    have hkept : ∀ i, i ≠ f.capBar commonCap → i ≠ f.capBar commonCap + 1 →
        (f.enabled.written64 (f.capBar commonCap) (f.assignedAddress commonCap)).register
          (barRegister i) = f.register (barRegister i) := by
      intro i hi hi'
      rw [PciFunction.written64_other (barRegister_ne hi) (barRegister_ne hi')]
      exact enabled_other f (barRegister_ne_one i)
    exact cpuAddress_congr (hkept _ hother hnext)
      fun hfour => hkept _ (hprevious hfour) (by omega)

/-- The product is the only thing that loses bits. -/
theorem queueNotify_toNat {v : BitVec 64} (hv : v.toNat < 2 ^ 41) (queueNotifyOff : BitVec 16)
    (offset multiplier : BitVec 32) :
    (v + offset.setWidth 64 +
      (queueNotifyOff.setWidth 32 * multiplier).setWidth 64).toNat =
        v.toNat + offset.toNat + queueNotifyOff.toNat * multiplier.toNat % 2 ^ 32 := by
  have hproduct : (queueNotifyOff.setWidth 32 * multiplier).toNat =
      queueNotifyOff.toNat * multiplier.toNat % 2 ^ 32 := by
    rw [BitVec.toNat_mul, BitVec.toNat_setWidth, Nat.mod_eq_of_lt (a := queueNotifyOff.toNat)]
    exact Nat.lt_trans queueNotifyOff.isLt (by decide)
  have hoffset := offset.isLt
  rw [BitVec.toNat_add, BitVec.toNat_add, BitVec.toNat_setWidth, BitVec.toNat_setWidth, hproduct]
  generalize queueNotifyOff.toNat * multiplier.toNat = product
  omega

theorem followsLayout_iff {s s' : PciMachine} {bdf : BusDeviceFunction} {v : BitVec 64}
    {size : Nat} (hf : s.functions bdf = f) (hv : f.assignedAddress commonCap = v)
    (hsize : (f.barSize (f.capBar commonCap)).toNat = size)
    (hvalue : v.toNat = 2 ^ 39 + size) (hsmall : size < 2 ^ 32)
    (hkind : supportedType (f.register (barRegister (f.capBar commonCap))) = some .prefetchable)
    (hcommon : (s'.functions bdf).cpuAddress (f.capBar commonCap) = v)
    (hnotify : (s'.functions bdf).cpuAddress (f.capBar notifyCap) =
      f.notifyBarAddress commonCap notifyCap)
    (hrequests : newRequests s s' = [⟨v.toNat, size % 2 ^ 32, 1⟩]) :
    FollowsLayout s s' bdf commonCap notifyCap queueNotifyOff
        (f.pointers notifyCap queueNotifyOff v) ↔
      f.OneBarLayout commonCap notifyCap queueNotifyOff := by
  unfold PciFunction.pointers
  have hqueue := queueNotify_toNat (v := v) (by omega) queueNotifyOff
    (f.capOffset notifyCap) (f.notifyOffMultiplier notifyCap)
  have hproduct : f.notifyProduct notifyCap queueNotifyOff =
    queueNotifyOff.toNat * (f.notifyOffMultiplier notifyCap).toNat := rfl
  rw [← hproduct] at hqueue
  have hzero : f.capOffset commonCap = 0 ↔ (f.capOffset commonCap).toNat = 0 := by
    rw [← BitVec.toNat_inj]
    rfl
  constructor
  · rintro ⟨hcommonCfg, hqueueNotify, ⟨r, hr, -, -, hend⟩, r', hr', -, -, hend'⟩
    rw [hrequests, List.mem_singleton] at hr hr'
    subst hr hr'
    rw [hf, hcommon] at hcommonCfg
    rw [hf, hnotify, ← hproduct] at hqueueNotify
    simp only at hcommonCfg hqueueNotify hend hend'
    rw [hqueue] at hqueueNotify hend'
    unfold commonCfgBytes at hend
    constructor
    · exact hkind
    · omega
    · unfold commonCfgBytes
      omega
    · exact hzero.mpr (by omega)
    · rw [hv]
      omega
    · omega
  · intro hone
    have hstart := hzero.mp hone.start
    have hbar := hone.notifyBar
    have hroom := hone.room
    have hnotifyRoom := hone.notifyRoom
    rw [hv] at hbar
    unfold commonCfgBytes at hroom
    constructor
    · rw [hf, hcommon, hstart]
      rfl
    · rw [hf, hnotify, ← hproduct, hqueue]
      omega
    · refine ⟨_, by rw [hrequests]; exact List.mem_singleton_self _, rfl, Nat.le_refl _, ?_⟩
      simp only [commonCfgBytes]
      omega
    · refine ⟨_, by rw [hrequests]; exact List.mem_singleton_self _, rfl, ?_, ?_⟩
      · simp only [hqueue]
        omega
      · simp only [hqueue]
        omega

end prefetchable

section follows
variable {s s' : PciMachine} {bdf : BusDeviceFunction} {commonCap notifyCap tests : Nat}
variable {queueNotifyOff : BitVec 16} {p : RegisterPointers}

theorem follow_iff_prefetchable (layout : VirtioLayout (s.functions bdf) commonCap notifyCap)
    (h : registerPointers tests bdf queueNotifyOff s = .ok p s')
    (hkind : supportedType ((s.functions bdf).register
      (barRegister ((s.functions bdf).capBar commonCap))) = some .prefetchable)
    (hsmall : ((s.functions bdf).barSize ((s.functions bdf).capBar commonCap)).toNat < 2 ^ 32) :
    FollowsLayout s s' bdf commonCap notifyCap queueNotifyOff p ↔
      (s.functions bdf).OneBarLayout commonCap notifyCap queueNotifyOff := by
  obtain ⟨kind, hkind', -, hwritten, hrequests, rfl⟩ := registerPointers_assigned layout h rfl rfl
  obtain rfl := Option.some.inj (hkind.symm.trans hkind')
  have hfunction : s'.functions bdf =
      (s.functions bdf).enabled.written64 ((s.functions bdf).capBar commonCap)
        ((s.functions bdf).assignedAddress commonCap) := hwritten
  have hcommon := cpuAddress_assigned layout hkind hsmall
  have hnotify := cpuAddress_notify layout hkind hsmall
  rw [← hfunction] at hcommon hnotify
  exact followsLayout_iff rfl rfl rfl (assignedAddress_toNat hsmall) hsmall hkind hcommon hnotify
    hrequests

end follows

/-- The GPU: both capabilities name BAR 4, the notifications start at 0x3000. -/
def virtioGpu (commonOffset : BitVec 32) : PciFunction where
  register i :=
    if i = 8 then 0xC else if i = 13 then 0x40
    else if i = 16 then 0x01105009 else if i = 17 then 4 else if i = 18 then commonOffset
    else if i = 20 then 0x02140009 else if i = 21 then 4 else if i = 22 then 0x3000
    else if i = 24 then 4 else 0
  writable := enabledGpu.writable

theorem virtioGpu_list (commonOffset : BitVec 32) :
    (virtioGpu commonOffset).getPciCapabilityOffset = 0x40 ∧
      (virtioGpu commonOffset).cfgType 0x40 = 1 ∧ (virtioGpu commonOffset).capNext 0x40 = 0x50 ∧
      (virtioGpu commonOffset).cfgType 0x50 = 2 ∧ (virtioGpu commonOffset).capNext 0x50 = 0 ∧
      (virtioGpu commonOffset).capBar 0x40 = 4 ∧ (virtioGpu commonOffset).capBar 0x50 = 4 := by
  simp [PciFunction.getPciCapabilityOffset, PciFunction.cfgType, PciFunction.capNext,
    PciFunction.capBar, PciFunction.byte, virtioGpu]

theorem virtioGpu_walks (commonOffset : BitVec 32) :
    (virtioGpu commonOffset).capabilityWalk 1 2
        (virtioGpu commonOffset).getPciCapabilityOffset = some (0x40, []) ∧
      (virtioGpu commonOffset).capabilityWalk 2 2
        (virtioGpu commonOffset).getPciCapabilityOffset = some (0x50, []) := by
  obtain ⟨hstart, htype, hnext, htype', -⟩ := virtioGpu_list commonOffset
  rw [hstart]
  unfold PciFunction.capabilityWalk PciFunction.capabilityWalk
  rw [htype, hnext, htype']
  exact ⟨rfl, rfl⟩

theorem virtioGpu_layout (commonOffset : BitVec 32) :
    VirtioLayout (virtioGpu commonOffset) 0x40 0x50 := by
  obtain ⟨hstart, -, hnext, -, hnext', hbar, hbar'⟩ := virtioGpu_list commonOffset
  obtain ⟨hcommon, hnotify⟩ := virtioGpu_walks commonOffset
  constructor
  · refine ⟨[0x40, 0x50], List.cons_ne_nil _ _, ?_, by decide⟩
    rw [hstart]
    apply PciFunction.CapabilityList.cons (by decide)
    rw [hnext]
    apply PciFunction.CapabilityList.cons (by decide)
    rw [hnext']
    exact .nil
  · exact ⟨2, [], hcommon⟩
  · exact ⟨2, [], hnotify⟩
  · rw [hbar]
    decide
  · intro _
    rw [hbar]
    have hdecodes : gpuBar4.Decodes 4 (.memory64 14 (by decide) (by decide)) :=
      ⟨by decide, 12, by decide, by decide⟩
    exact ⟨14, by decide, by decide, hdecodes⟩
  · intro hne
    exact absurd (hbar'.trans hbar.symm) hne

theorem virtioGpu_bar (commonOffset : BitVec 32) :
    supportedType ((virtioGpu commonOffset).register (barRegister 4)) = some .prefetchable ∧
      (virtioGpu commonOffset).barSize 4 = 0x4000 := by
  have hkind : supportedType (gpuBar4.register (barRegister 4)) = some .prefetchable := by decide
  have hsize : gpuBar4.barSize 4 = 0x4000 := by decide
  exact ⟨hkind, hsize⟩

theorem virtioGpu_pointers (commonOffset : BitVec 32) :
    (virtioGpu commonOffset).pointers 0x50 1 (MemoryType.prefetchable.pointer 0x4000) =
      ⟨0x8000004000, 0x8000007004⟩ := by
  have hoffset : (virtioGpu commonOffset).capOffset 0x50 = 0x3000 := rfl
  have hmultiplier : (virtioGpu commonOffset).notifyOffMultiplier 0x50 = 4 := rfl
  rw [PciFunction.pointers, hoffset, hmultiplier, RegisterPointers.mk.injEq]
  decide

theorem virtioGpu_assigned (commonOffset : BitVec 32) {k k' : Machine}
    (hmap : registerDeviceMemory 0x8000004000 0x4000 k = .ok () k') : ∃ s',
    registerPointers 2 bootFunction 1 (.start k (virtioGpu commonOffset)) =
      .ok ⟨0x8000004000, 0x8000007004⟩ s' := by
  obtain ⟨-, -, -, -, -, hbar, -⟩ := virtioGpu_list commonOffset
  obtain ⟨hcommon, hnotify⟩ := virtioGpu_walks commonOffset
  obtain ⟨hkind, hsize⟩ := virtioGpu_bar commonOffset
  have hkept := commanded_bar (.start k (virtioGpu commonOffset)) bootFunction
    ((virtioGpu commonOffset).command ||| 0x0007) 4
  have hfixed : (virtioGpu commonOffset).SameFixed
      (((PciMachine.start k (virtioGpu commonOffset)).commanded bootFunction
        ((virtioGpu commonOffset).command ||| 0x0007)).functions bootFunction) := by
    rw [commanded_same]
    exact PciFunction.SameFixed.writeLow 1 _
  obtain ⟨s', hrun, -⟩ := allocBarMemory_assigns _ bootFunction 4
    ((congrArg supportedType hkept).trans hkind) (by decide) ((hfixed.barSize hkept).trans hsize)
    (by decide) hmap
  rw [← hbar] at hrun
  refine ⟨s', ?_⟩
  rw [← virtioGpu_pointers commonOffset]
  exact registerPointers_run (virtioGpu_layout commonOffset) hcommon hnotify hrun

end SelfmadeOS
