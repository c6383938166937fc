import SelfmadeOS.AccessRights
import SelfmadeOS.PciSearch
import SelfmadeOS.RegisterAddresses

/-!
# The drivers reach the registers of the devices

The UART, the configuration space and the GPU's BAR are ranges that were asked for as device
memory. Whatever the kernel does afterwards, an access to one of their registers goes through the
tables and ends at the register itself, as far as it is aligned.
-/

namespace SelfmadeOS
set_option autoImplicit false
open StateRuns

inductive CommonCfgField
  | deviceFeatureSelect
  | deviceFeature
  | driverFeatureSelect
  | driverFeature
  | configMsixVector
  | numQueues
  | deviceStatus
  | configGeneration
  | queueSelect
  | queueSize
  | queueMsixVector
  | queueEnable
  | queueNotifyOff
  | queueDesc
  | queueDriver
  | queueDevice
  deriving DecidableEq

namespace CommonCfgField

def fields : List CommonCfgField :=
  [deviceFeatureSelect, deviceFeature, driverFeatureSelect, driverFeature, configMsixVector,
    numQueues, deviceStatus, configGeneration, queueSelect, queueSize, queueMsixVector,
    queueEnable, queueNotifyOff, queueDesc, queueDriver, queueDevice]

def width : CommonCfgField → Nat
  | deviceFeatureSelect | deviceFeature | driverFeatureSelect | driverFeature => 4
  | configMsixVector | numQueues => 2
  | deviceStatus | configGeneration => 1
  | queueSelect | queueSize | queueMsixVector | queueEnable | queueNotifyOff => 2
  | queueDesc | queueDriver | queueDevice => 8

/-- The fields follow one another without padding. -/
def offset (field : CommonCfgField) : Nat :=
  ((fields.takeWhile fun f => f ≠ field).map width).sum

theorem layout (field : CommonCfgField) : field.offset % field.width = 0 ∧
    field.offset + field.width ≤ commonCfgBytes ∧ 0 < field.width ∧ field.width ∣ 4096 := by
  cases field <;> decide

end CommonCfgField

section requests
variable {L : Layout} {mem : Mem} {ops : List Op} {s s' : Machine} {address size : Nat}

theorem runOps_requests (h : runOps ops s = .ok () s') : s.requests <+: s'.requests := by
  have hext := Recorded.runOps ops s
  rw [h, final_ok] at hext
  exact hext.requests

theorem run_registered (h : run L ops (boot L mem) = .ok () s)
    (hop : .registerDeviceMemory address size ∈ ops) :
    ⟨address, size % 2 ^ 32, 1⟩ ∈ s.requests := by
  obtain ⟨k, hk, hget⟩ := List.getElem_of_mem hop
  obtain ⟨t, r, -, hasks, hr⟩ := (callsRecorded_of_run h).calls k _
    (List.getElem?_eq_some_iff.mpr ⟨hk, hget⟩)
  obtain rfl : r = ⟨address, size % 2 ^ 32, 1⟩ := hasks
  exact List.mem_of_getElem? hr

theorem run_uart (h : run L ops (boot L mem) = .ok () s) :
    ⟨0x9000000, pageSize, 1⟩ ∈ s.requests :=
  (callsRecorded_of_run h).initial.subset (List.mem_cons_of_mem _ (List.mem_singleton_self _))

end requests

/-- What the kernel is asked for when the BAR of the common configuration is assigned. -/
def PciFunction.barOp (f : PciFunction) (commonCap : Nat) : Op :=
  .registerDeviceMemory (f.assignedAddress commonCap).toNat (f.barSize (f.capBar commonCap)).toNat

section bar
variable {s s' : PciMachine} {bdf : BusDeviceFunction} {commonCap notifyCap tests : Nat}
variable {queueNotifyOff : BitVec 16} {p : RegisterPointers}

theorem registerPointers_kernel (layout : VirtioLayout (s.functions bdf) commonCap notifyCap)
    (hkind : supportedType ((s.functions bdf).register
      (barRegister ((s.functions bdf).capBar commonCap))) = some .prefetchable)
    (h : registerPointers tests bdf queueNotifyOff s = .ok p s') :
    ((s.functions bdf).barOp commonCap).exec s.kernel = .ok () s'.kernel := by
  obtain ⟨bar4, hcall, -⟩ := registerPointers_ok layout h
  have hbar := commanded_bar s bdf ((s.functions bdf).command ||| 0x0007)
    ((s.functions bdf).capBar commonCap)
  have hfixed : (s.functions bdf).SameFixed
      ((s.commanded bdf ((s.functions bdf).command ||| 0x0007)).functions bdf) := by
    rw [commanded_same]
    exact PciFunction.SameFixed.writeLow 1 _
  have hsize := hfixed.barSize hbar
  obtain ⟨t, hsized, hkernel, hrun⟩ := allocBarMemory_run
    (s.commanded bdf ((s.functions bdf).command ||| 0x0007)) bdf
    ((s.functions bdf).capBar commonCap) ((congrArg supportedType hbar).trans hkind)
  rw [hrun, hsize] at hcall
  obtain ⟨-, -, k, u, hmap, hprogram, rfl⟩ := assignBar_ok hcall
  obtain ⟨hprogrammed, -⟩ := program_ok hprogram
  rw [hkernel (by decide)] at hmap
  show registerDeviceMemory _ _ s.kernel = .ok () u.kernel
  rw [hprogrammed]
  exact hmap

end bar

/-- With the tables in `m`, each access of the drivers to a device meets the register that it is
meant for: in the BARs, the one at the offset that the capability gives. -/
structure RegistersReached (m : Mem) (s s' : PciMachine) (bdf : BusDeviceFunction)
    (commonCap notifyCap : Nat) (queueNotifyOff : BitVec 16) (p : RegisterPointers) : Prop where
  uart : kernelRegisters.access m ⟨.el1, .write, 0x9000000, 4⟩ = .ok ⟨0x9000000, .deviceNGnRnE⟩
  configuration : ∀ (bdf : BusDeviceFunction) (off width : Nat) (kind : AccessKind),
    kind ≠ .fetch → width ∈ [1, 2, 4] → off % width = 0 → off + width ≤ 4096 →
      kernelRegisters.access m ⟨.el1, kind, ecamPtr bdf off, width⟩ =
        .ok ⟨ecamPtr bdf off, .deviceNGnRnE⟩
  common : ∀ (field : CommonCfgField) (kind : AccessKind), kind ≠ .fetch →
    kernelRegisters.access m ⟨.el1, kind, p.commonCfg.toNat + field.offset, field.width⟩ =
      .ok ⟨((s'.functions bdf).cpuAddress ((s.functions bdf).capBar commonCap)).toNat +
        ((s.functions bdf).capOffset commonCap).toNat + field.offset, .deviceNGnRnE⟩
  notify : kernelRegisters.access m ⟨.el1, .write, p.queueNotifyAddress.toNat, 4⟩ =
    .ok ⟨((s'.functions bdf).cpuAddress ((s.functions bdf).capBar notifyCap)).toNat +
      ((s.functions bdf).capOffset notifyCap).toNat +
      queueNotifyOff.toNat * ((s.functions bdf).notifyOffMultiplier notifyCap).toNat,
      .deviceNGnRnE⟩

section reached
variable {ramEnd : Nat} {t : Machine} {r : Request} {kind : AccessKind} {address width : Nat}

theorem AccessesSound.device (sound : AccessesSound ramEnd t) (hr : r ∈ t.requests)
    (hattr : r.attrIdx = 1) (hkind : kind ≠ .fetch) (haligned : address % width = 0)
    (hlow : r.address ≤ address) (hhigh : address < r.address + r.size) :
    kernelRegisters.access t.mem ⟨.el1, kind, address, width⟩ =
      .ok ⟨address, .deviceNGnRnE⟩ := by
  have hmet := sound.requested r hr ⟨.el1, kind, address, width⟩ rfl hkind haligned ⟨hlow, hhigh⟩
  rw [hattr] at hmet
  exact hmet

theorem ecamPtr_range (bdf : BusDeviceFunction) (off : Nat) (hoff : off < 4096) :
    ecamBase ≤ ecamPtr bdf off ∧ ecamPtr bdf off < ecamBase + 0x10000000 ∧
      ecamPtr bdf off % 4096 = off := by
  obtain ⟨bus, device, function, hbus, hdevice, hfunction⟩ := bdf
  unfold ecamPtr ecamBase
  simp only [Nat.shiftLeft_eq]
  omega

theorem AccessesSound.configuration (sound : AccessesSound ramEnd t)
    (hr : ⟨ecamBase, 0x10000000, 1⟩ ∈ t.requests) (bdf : BusDeviceFunction) {off : Nat}
    (hkind : kind ≠ .fetch) (hwidth : width ∈ [1, 2, 4]) (haligned : off % width = 0)
    (hinside : off + width ≤ 4096) :
    kernelRegisters.access t.mem ⟨.el1, kind, ecamPtr bdf off, width⟩ =
      .ok ⟨ecamPtr bdf off, .deviceNGnRnE⟩ := by
  have hpos : 0 < width ∧ 4096 % width = 0 := by
    simp only [List.mem_cons, List.not_mem_nil, or_false] at hwidth
    rcases hwidth with rfl | rfl | rfl <;> decide
  obtain ⟨hbase, hend, hpage⟩ := ecamPtr_range bdf off (by omega)
  apply sound.device hr rfl hkind ?_ hbase hend
  rw [← Nat.mod_mod_of_dvd _ (Nat.dvd_of_mod_eq_zero hpos.2), hpage, haligned]

end reached

/-- A run of the kernel in which `ops` come before the GPU's constructor and `later` after its
look-ups: the configuration space has been asked for, and one BAR holds all that is needed. -/
structure DriversUp (L : Layout) (ramEnd : Nat) (mem : Mem) (ops later : List Op)
    (s s' : PciMachine) (bdf : BusDeviceFunction) (commonCap notifyCap tests : Nat)
    (queueNotifyOff : BitVec 16) (p : RegisterPointers) : Prop where
  zero : ZeroRam L ramEnd mem
  started : run L ops (boot L mem) = .ok () s.kernel
  ecam : .registerDeviceMemory ecamBase 0x10000000 ∈ ops
  layout : VirtioLayout (s.functions bdf) commonCap notifyCap
  oneBar : (s.functions bdf).OneBarLayout commonCap notifyCap queueNotifyOff
  pointers : registerPointers tests bdf queueNotifyOff s = .ok p s'
  lasts : RamRun L ramEnd mem (ops ++ (s.functions bdf).barOp commonCap :: later)
  blocks : ∀ c ∈ (final (run L (ops ++ (s.functions bdf).barOp commonCap :: later)
    (boot L mem))).calls, BlockFits c

section drivers
variable {L : Layout} {ramEnd : Nat} {mem : Mem} {ops later : List Op} {s s' : PciMachine}
variable {bdf : BusDeviceFunction} {commonCap notifyCap tests : Nat} {queueNotifyOff : BitVec 16}
variable {p : RegisterPointers}

theorem DriversUp.run (up : DriversUp L ramEnd mem ops later s s' bdf commonCap notifyCap tests
    queueNotifyOff p) :
    ∃ t, runOps later s'.kernel = .ok () t ∧ AccessesSound ramEnd t ∧
      ⟨0x9000000, pageSize, 1⟩ ∈ t.requests ∧ ⟨ecamBase, 0x10000000, 1⟩ ∈ t.requests ∧
      ∀ r ∈ newRequests s s', r ∈ t.requests := by
  obtain ⟨t, hrun, sound⟩ := up.lasts.accessesSound up.zero up.blocks
  have huart := run_uart hrun
  have hecam := run_registered hrun (List.mem_append_left _ up.ecam)
  have hbar := registerPointers_kernel up.layout up.oneBar.kind up.pointers
  rw [run_append, bind_run up.started, runOps, bind_run hbar] at hrun
  refine ⟨t, hrun, sound, huart, hecam, fun r hr => ?_⟩
  exact (runOps_requests hrun).subset (List.mem_of_mem_drop hr)

theorem DriversUp.follows (up : DriversUp L ramEnd mem ops later s s' bdf commonCap notifyCap
    tests queueNotifyOff p) : FollowsLayout s s' bdf commonCap notifyCap queueNotifyOff p :=
  (follow_iff_prefetchable up.layout up.pointers up.oneBar.kind up.oneBar.small).mpr up.oneBar

theorem DriversUp.aligned (up : DriversUp L ramEnd mem ops later s s' bdf commonCap notifyCap
    tests queueNotifyOff p) : p.commonCfg.toNat % 4096 = 0 ∧
      (p.queueNotifyAddress.toNat % 4 = 0 ↔ (((s.functions bdf).capOffset notifyCap).toNat +
        (s.functions bdf).notifyProduct notifyCap queueNotifyOff) % 4 = 0) := by
  have hpage : ((s.functions bdf).assignedAddress commonCap).toNat % 4096 = 0 :=
    (up.lasts.legal _ (List.mem_append_right _ List.mem_cons_self)).1
  obtain ⟨kind, hkind, -, hwritten, -, hp⟩ :=
    registerPointers_assigned up.layout up.pointers rfl rfl
  obtain rfl := Option.some.inj (hkind.symm.trans up.oneBar.kind)
  have hfunction : s'.functions bdf =
      (s.functions bdf).enabled.written64 ((s.functions bdf).capBar commonCap)
        ((s.functions bdf).assignedAddress commonCap) := hwritten
  have hcpu := cpuAddress_notify up.layout up.oneBar.kind up.oneBar.small
  rw [← hfunction] at hcpu
  have hbar := up.oneBar.notifyBar
  have hnotify := up.follows.queueNotify
  rw [hcpu] at hnotify
  refine ⟨?_, ?_⟩
  · rw [hp]
    exact hpage
  · rw [hnotify]
    change (_ + _ + (s.functions bdf).notifyProduct notifyCap queueNotifyOff) % 4 = 0 ↔ _
    generalize (s.functions bdf).notifyProduct notifyCap queueNotifyOff = product at hbar ⊢
    omega

/-- Whatever the kernel does afterwards: every access of the drivers to a device meets its register
exactly if the notifications start at a multiple of four bytes. -/
theorem registersReached_iff (up : DriversUp L ramEnd mem ops later s s' bdf commonCap notifyCap
    tests queueNotifyOff p) :
    ∃ t, runOps later s'.kernel = .ok () t ∧
      (RegistersReached t.mem s s' bdf commonCap notifyCap queueNotifyOff p ↔
        (((s.functions bdf).capOffset notifyCap).toNat +
          (s.functions bdf).notifyProduct notifyCap queueNotifyOff) % 4 = 0) := by
  obtain ⟨t, hlater, sound, huart, hecam, hnew⟩ := up.run
  obtain ⟨hpage, hfour⟩ := up.aligned
  obtain ⟨hcommon, hnotify, ⟨r, hr, hattr, hlow, hhigh⟩, r', hr', hattr', hlow', hhigh'⟩ :=
    up.follows
  refine ⟨t, hlater, ?_⟩
  rw [← hfour]
  constructor
  · intro reached
    by_contra hmisaligned
    have hfault := access_misaligned (m := t.mem)
      (a := ⟨.el1, .write, p.queueNotifyAddress.toNat, 4⟩) hmisaligned
    rw [reached.notify] at hfault
    cases hfault
  · intro haligned
    constructor
    · exact sound.device huart rfl nofun (by decide) (by decide) (by decide)
    · exact fun bdf off width kind hkind hwidth hoff hinside =>
        sound.configuration hecam bdf hkind hwidth hoff hinside
    · intro field kind hkind
      obtain ⟨hfield, hinside, hpos, hdvd⟩ := field.layout
      have hbase : p.commonCfg.toNat % field.width = 0 := by
        rw [← Nat.mod_mod_of_dvd _ hdvd, hpage, Nat.zero_mod]
      rw [← hcommon]
      apply sound.device (hnew r hr) hattr hkind
      · rw [Nat.add_mod, hbase, hfield, Nat.zero_mod]
      · exact Nat.le_add_right_of_le hlow
      · omega
    · rw [← hnotify]
      exact sound.device (hnew r' hr') hattr' nofun haligned hlow' (by omega)

end drivers

/-- From a heap that starts at a multiple of four pages, tables alone are taken in blocks that no
region border cuts. -/
theorem devices_ramRun {L : Layout} {ramEnd : Nat} {mem : Mem} {ops : List Op}
    (haligned : L.kernelEnd % (4 * pageSize) = 0) (hbytes : heapBytes ops = 0)
    (room : L.kernelEnd + 4 * pageSize * (initTablesMost L + mostTables ops) ≤ ramEnd)
    (limit : ramEnd ≤ addressLimit) (legal : ∀ op ∈ ops, op.Legal ramEnd) :
    RamRun L ramEnd mem ops ∧
      ∀ c ∈ (final (run L ops (boot L mem))).calls, OneRegion c.before.block := by
  obtain ⟨record, hlength⟩ := (run_takesHeap L mem ops).from_boot
  rw [hbytes] at record
  have hroom : L.kernelEnd + 0 +
      4 * pageSize * (final (run L ops (boot L mem))).calls.length ≤ ramEnd :=
    Nat.le_trans (Nat.add_le_add_left (Nat.mul_le_mul_left _ hlength) _) room
  have hword : ramEnd < 2 ^ 64 := Nat.lt_of_le_of_lt limit (by decide)
  have hblocks := fun c hc => record.blocks_inside hword hroom (c := c) hc
  refine ⟨⟨?_, limit, legal, ?_, fun c hc => (hblocks c hc).2.1⟩, fun c hc => ?_⟩
  · omega
  · exact fun r hr hattr => (record.requests r hr hattr).trans hroom
  · obtain ⟨-, -, b, k, hb, -, hblock⟩ := hblocks c hc
    obtain rfl := Nat.le_zero.mp hb
    simp only [OneRegion, blockSizeL2, pageSize] at haligned hblock ⊢
    omega

def ecamOps : List Op := [.registerDeviceMemory ecamBase 0x10000000]

theorem virtioGpu_ramRun : RamRun imageLayout 0x2000000000 zeroRam
      (ecamOps ++ [(virtioGpu 0).barOp 0x40]) ∧
    ∀ c ∈ (final (run imageLayout (ecamOps ++ [(virtioGpu 0).barOp 0x40])
      (boot imageLayout zeroRam))).calls, OneRegion c.before.block := by
  have hbar : (virtioGpu 0).barOp 0x40 = .registerDeviceMemory 0x8000004000 0x4000 := by decide
  rw [hbar]
  refine devices_ramRun (by decide) (by decide) (by decide) (by decide) fun op hop => ?_
  rcases List.mem_pair.mp hop with rfl | rfl
  · exact ⟨by decide, by decide, by decide, Or.inr (by decide), by decide⟩
  · exact ⟨by decide, by decide, by decide, Or.inr (by decide), by decide⟩

theorem virtioGpu_driversUp : ∃ k s',
    DriversUp imageLayout 0x2000000000 zeroRam ecamOps [] (.start k (virtioGpu 0)) s'
      bootFunction 0x40 0x50 2 1 ⟨0x8000004000, 0x8000007004⟩ := by
  obtain ⟨hram, hblocks⟩ := virtioGpu_ramRun
  have hzero : ZeroRam imageLayout 0x2000000000 zeroRam := fun _ _ _ => rfl
  obtain ⟨t, hrun, -⟩ := hram.accessesSound hzero fun c hc => Or.inl (hblocks c hc)
  rw [run_append] at hrun
  obtain ⟨_, k, hstart, hlast⟩ := bind_ok hrun
  obtain ⟨_, k', hmap, -⟩ := bind_ok hlast
  have hbar : (virtioGpu 0).barOp 0x40 = .registerDeviceMemory 0x8000004000 0x4000 := by decide
  rw [hbar] at hmap
  obtain ⟨s', hpointers⟩ := virtioGpu_assigned 0 hmap
  have hone : (virtioGpu 0).OneBarLayout 0x40 0x50 1 := by
    constructor <;> decide
  exact ⟨k, s', hzero, hstart, List.mem_cons_self, virtioGpu_layout 0, hone, hpointers, hram,
    fun c hc => Or.inl (hblocks c hc)⟩

theorem registersReached_iff_gpu : ∃ k s',
    run imageLayout ecamOps (boot imageLayout zeroRam) = .ok () k ∧
      registerPointers 2 bootFunction 1 (.start k (virtioGpu 0)) =
        .ok ⟨0x8000004000, 0x8000007004⟩ s' ∧
      RegistersReached s'.kernel.mem (.start k (virtioGpu 0)) s' bootFunction 0x40 0x50 1
        ⟨0x8000004000, 0x8000007004⟩ := by
  obtain ⟨k, s', up⟩ := virtioGpu_driversUp
  obtain ⟨t, hlater, hiff⟩ := registersReached_iff up
  obtain ⟨-, rfl⟩ := EStateM.Result.ok.inj hlater
  have haligned : (((virtioGpu 0).capOffset 0x50).toNat + (virtioGpu 0).notifyProduct 0x50 1) % 4 =
    0 := by decide
  exact ⟨k, s', up.started, up.pointers, hiff.mpr haligned⟩

end SelfmadeOS
