import Mathlib.Logic.Function.Basic
import SelfmadeOS.PciFunction
import SelfmadeOS.Mmu

/-!
# Sizing a base address register (`BAR_size`)

The register is overwritten with ones and read back: the bits that the device needs for its own
addresses read as zero. The size is what these bits count up to, so it hangs on the fixed bits of
the register only, and they survive whatever the driver stores.
-/

namespace SelfmadeOS
set_option autoImplicit false
open StateRuns

namespace PciFunction

def writeLow (f : PciFunction) (i : Nat) (value : BitVec 16) : PciFunction :=
  { f with register := fun j => if j = i then
      f.register i &&& ~~~(f.writable i &&& 0xFFFF) |||
        value.setWidth 32 &&& (f.writable i &&& 0xFFFF)
    else f.register j }

def command (f : PciFunction) : BitVec 16 := (f.register 1).setWidth 16

end PciFunction

/-- One store to the configuration space, with the function as it stands at that step. -/
structure ConfigStore where
  bdf : BusDeviceFunction
  off : Nat
  value : BitVec 32
  before : PciFunction

inductive MemoryType where
  | io
  | nonPrefetchable
  | prefetchable
deriving DecidableEq

structure BarRegion where
  memoryType : MemoryType
  address : BitVec 64
  size : BitVec 64
deriving DecidableEq

/-- The kernel and the PCI functions, with a record of the run that no code reads. -/
structure PciMachine where
  kernel : Machine
  functions : BusDeviceFunction → PciFunction
  stores : List ConfigStore
  regions : List BarRegion

/-- How a call of the driver can fail: at its own end, or inside the kernel. -/
inductive PciStop where
  | noReturnValue
  | inKernel (stop : Stop)

abbrev PciM := EStateM PciStop PciMachine

namespace PciMachine

def configured (s : PciMachine) (bdf : BusDeviceFunction) (i : Nat) (value : BitVec 32) :
    PciMachine :=
  { s with
    functions := Function.update s.functions bdf ((s.functions bdf).write i value)
    stores := s.stores ++ [⟨bdf, 4 * i, value, s.functions bdf⟩] }

def commanded (s : PciMachine) (bdf : BusDeviceFunction) (value : BitVec 16) : PciMachine :=
  { s with
    functions := Function.update s.functions bdf ((s.functions bdf).writeLow 1 value)
    stores := s.stores ++ [⟨bdf, 4, value.setWidth 32, s.functions bdf⟩] }

end PciMachine

def readConfig (bdf : BusDeviceFunction) (i : Nat) : PciM (BitVec 32) :=
  fun s => .ok ((s.functions bdf).register i) s

def writeConfig (bdf : BusDeviceFunction) (i : Nat) (value : BitVec 32) : PciM Unit :=
  fun s => .ok () (s.configured bdf i value)

def readCommand (bdf : BusDeviceFunction) : PciM (BitVec 16) :=
  fun s => .ok (s.functions bdf).command s

def writeCommand (bdf : BusDeviceFunction) (value : BitVec 16) : PciM Unit :=
  fun s => .ok () (s.commanded bdf value)

/-- A function of the kernel, called by the driver. -/
def onKernel {α : Type} (x : KernelM α) : PciM α := fun s =>
  match x s.kernel with
  | .ok a k => .ok a { s with kernel := k }
  | .error e k => .error (.inKernel e) { s with kernel := k }

def barRegister (barIndex : Nat) : Nat := 4 + barIndex

def barSize (bdf : BusDeviceFunction) (barIndex : Nat) : PciM (BitVec 64) := do
  let commandRegisterBefore ← readCommand bdf
  writeCommand bdf ((← readCommand bdf) &&& 0xFFFC)
  let size ←
    if (← readConfig bdf (barRegister barIndex)) &&& 7 = 0 then do
      let barValueBefore ← readConfig bdf (barRegister barIndex)
      writeConfig bdf (barRegister barIndex) 0xFFFFFFFF
      let mask ← readConfig bdf (barRegister barIndex)
      writeConfig bdf (barRegister barIndex) barValueBefore
      pure ((~~~(mask &&& 0xFFFFFFF0)).setWidth 64 + 1)
    else do
      if (← readConfig bdf (barRegister barIndex)) &&& 7 = 4 then do
        let barValueBefore1 ← readConfig bdf (barRegister barIndex)
        let barValueBefore2 ← readConfig bdf (barRegister (barIndex + 1))
        writeConfig bdf (barRegister barIndex) 0xFFFFFFFF
        writeConfig bdf (barRegister (barIndex + 1)) 0xFFFFFFFF
        let high ← readConfig bdf (barRegister (barIndex + 1))
        let low ← readConfig bdf (barRegister barIndex)
        writeConfig bdf (barRegister barIndex) barValueBefore1
        writeConfig bdf (barRegister (barIndex + 1)) barValueBefore2
        writeCommand bdf commandRegisterBefore
        pure (~~~(high.setWidth 64 <<< 32 ||| (low &&& 0xFFFFFFF0).setWidth 64) + 1)
      else do
        onKernel (logMessage "Other implementation needed")
        pure 0
  writeCommand bdf commandRegisterBefore
  return size

namespace PciFunction
variable (f : PciFunction)

/-- What the register reads after ones have been stored to it. -/
def sized (i : Nat) : BitVec 32 := f.stored i 0xFFFFFFFF

def size32 (barIndex : Nat) : BitVec 64 :=
  (~~~(f.sized (barRegister barIndex) &&& 0xFFFFFFF0)).setWidth 64 + 1

def size64 (barIndex : Nat) : BitVec 64 :=
  ~~~((f.sized (barRegister (barIndex + 1))).setWidth 64 <<< 32 |||
    (f.sized (barRegister barIndex) &&& 0xFFFFFFF0).setWidth 64) + 1

def barSize (barIndex : Nat) : BitVec 64 :=
  if f.register (barRegister barIndex) &&& 7 = 0 then f.size32 barIndex
  else if f.register (barRegister barIndex) &&& 7 = 4 then f.size64 barIndex
  else 0

/-- The same device, whatever has been stored to it. -/
structure SameFixed (f g : PciFunction) : Prop where
  writable : g.writable = f.writable
  fixed : ∀ i, g.register i &&& ~~~f.writable i = f.register i &&& ~~~f.writable i

theorem SameFixed.refl : SameFixed f f := ⟨rfl, fun _ => rfl⟩

variable {f} {g h : PciFunction}

theorem SameFixed.trans (hfg : SameFixed f g) (hgh : SameFixed g h) : SameFixed f h := by
  refine ⟨hgh.writable.trans hfg.writable, fun i => ?_⟩
  have hfixed := hgh.fixed i
  rw [hfg.writable] at hfixed
  exact hfixed.trans (hfg.fixed i)

theorem SameFixed.write (i : Nat) (value : BitVec 32) : SameFixed f (f.write i value) :=
  ⟨rfl, fun _ => write_fixed f i _ value⟩

theorem SameFixed.writeLow (i : Nat) (value : BitVec 16) : SameFixed f (f.writeLow i value) := by
  refine ⟨rfl, fun j => ?_⟩
  simp only [PciFunction.writeLow]
  split
  · rename_i hji
    subst hji
    ext k hk
    simp only [BitVec.getElem_and, BitVec.getElem_or, BitVec.getElem_not]
    cases (f.writable j)[k] <;> simp
  · rfl

theorem SameFixed.sized (hfg : SameFixed f g) (i : Nat) : g.sized i = f.sized i := by
  simp only [PciFunction.sized, PciFunction.stored, hfg.writable, hfg.fixed i]

theorem SameFixed.size32 (hfg : SameFixed f g) (barIndex : Nat) :
    g.size32 barIndex = f.size32 barIndex := by
  simp only [PciFunction.size32, hfg.sized]

theorem SameFixed.size64 (hfg : SameFixed f g) (barIndex : Nat) :
    g.size64 barIndex = f.size64 barIndex := by
  simp only [PciFunction.size64, hfg.sized]

end PciFunction

theorem barRegister_ne {i j : Nat} (h : i ≠ j) : barRegister i ≠ barRegister j :=
  fun hsame => h (Nat.add_left_cancel hsame)

theorem barRegister_ne_one (barIndex : Nat) : barRegister barIndex ≠ 1 := by
  unfold barRegister
  omega

section steps
variable {α β : Type} (s : PciMachine) (bdf : BusDeviceFunction) (i : Nat)

@[simp] theorem readConfig_bind (f : BitVec 32 → PciM α) :
    (readConfig bdf i >>= f) s = f ((s.functions bdf).register i) s := (rfl)

@[simp] theorem readCommand_bind (f : BitVec 16 → PciM α) :
    (readCommand bdf >>= f) s = f (s.functions bdf).command s := (rfl)

@[simp] theorem writeConfig_bind (value : BitVec 32) (f : Unit → PciM α) :
    (writeConfig bdf i value >>= f) s = f () (s.configured bdf i value) := (rfl)

@[simp] theorem writeCommand_bind (value : BitVec 16) (f : Unit → PciM α) :
    (writeCommand bdf value >>= f) s = f () (s.commanded bdf value) := (rfl)

theorem onKernel_run {x : KernelM α} {a : α} {k : Machine} (h : x s.kernel = .ok a k) :
    onKernel x s = .ok a { s with kernel := k } := by
  simp only [onKernel, h]

theorem onKernel_stop {x : KernelM α} {e : Stop} {k : Machine} (h : x s.kernel = .error e k) :
    onKernel x s = .error (.inKernel e) { s with kernel := k } := by
  simp only [onKernel, h]

variable (value : BitVec 32)

theorem configured_same :
    (s.configured bdf i value).functions bdf = (s.functions bdf).write i value :=
  Function.update_self ..

theorem commanded_same (command : BitVec 16) :
    (s.commanded bdf command).functions bdf = (s.functions bdf).writeLow 1 command :=
  Function.update_self ..

theorem commanded_other (command : BitVec 16) {i : Nat} (h : i ≠ 1) :
    ((s.commanded bdf command).functions bdf).register i = (s.functions bdf).register i := by
  rw [commanded_same]
  exact if_neg h

theorem commanded_bar (command : BitVec 16) (barIndex : Nat) :
    ((s.commanded bdf command).functions bdf).register (barRegister barIndex) =
      (s.functions bdf).register (barRegister barIndex) :=
  commanded_other s bdf command (barRegister_ne_one barIndex)

theorem configured_ones :
    ((s.configured bdf i 0xFFFFFFFF).functions bdf).register i = (s.functions bdf).sized i := by
  rw [configured_same, write_same]
  rfl

theorem configured_other {j : Nat} (h : j ≠ i) :
    ((s.configured bdf i value).functions bdf).register j = (s.functions bdf).register j := by
  rw [configured_same, write_other _ _ _ _ h]

end steps

/-- What the driver does to the configuration space leaves the devices what they are. -/
structure KeepsDevices (s t : PciMachine) : Prop where
  devices : ∀ bdf, (s.functions bdf).SameFixed (t.functions bdf)
  requests : t.kernel.requests = s.kernel.requests
  regions : t.regions = s.regions

theorem KeepsDevices.refl (s : PciMachine) : KeepsDevices s s :=
  ⟨fun _ => PciFunction.SameFixed.refl _, rfl, rfl⟩

theorem KeepsDevices.trans (s t u : PciMachine) (h : KeepsDevices s t) (h' : KeepsDevices t u) :
    KeepsDevices s u :=
  ⟨fun bdf => (h.devices bdf).trans (h'.devices bdf), h'.requests.trans h.requests,
    h'.regions.trans h.regions⟩

abbrev DevicesKept {α : Type} (x : PciM α) : Prop := Keeps KeepsDevices x

namespace DevicesKept
variable {α β : Type}

theorem bind {x : PciM α} {f : α → PciM β} (hx : DevicesKept x) (hf : ∀ a, DevicesKept (f a)) :
    DevicesKept (x >>= f) := Keeps.bind KeepsDevices.refl KeepsDevices.trans hx hf

theorem pure (a : α) : DevicesKept (Pure.pure a : PciM α) := Keeps.pure KeepsDevices.refl a

theorem readConfig (bdf : BusDeviceFunction) (i : Nat) :
    DevicesKept (SelfmadeOS.readConfig bdf i) := KeepsDevices.refl

theorem readCommand (bdf : BusDeviceFunction) : DevicesKept (SelfmadeOS.readCommand bdf) :=
  KeepsDevices.refl

theorem update {functions : BusDeviceFunction → PciFunction} {bdf : BusDeviceFunction}
    {g : PciFunction} (h : (functions bdf).SameFixed g) (bdf' : BusDeviceFunction) :
    (functions bdf').SameFixed (Function.update functions bdf g bdf') := by
  by_cases hbdf : bdf' = bdf
  · subst hbdf
    rwa [Function.update_self]
  · rw [Function.update_of_ne hbdf]
    exact PciFunction.SameFixed.refl _

theorem writeConfig (bdf : BusDeviceFunction) (i : Nat) (value : BitVec 32) :
    DevicesKept (SelfmadeOS.writeConfig bdf i value) :=
  fun _ => ⟨update (PciFunction.SameFixed.write i value), rfl, rfl⟩

theorem writeCommand (bdf : BusDeviceFunction) (value : BitVec 16) :
    DevicesKept (SelfmadeOS.writeCommand bdf value) :=
  fun _ => ⟨update (PciFunction.SameFixed.writeLow 1 value), rfl, rfl⟩

theorem logMessage (message : String) :
    DevicesKept (onKernel (SelfmadeOS.logMessage message)) :=
  fun _ => ⟨fun _ => PciFunction.SameFixed.refl _, rfl, rfl⟩

theorem barSize (bdf : BusDeviceFunction) (barIndex : Nat) :
    DevicesKept (SelfmadeOS.barSize bdf barIndex) := by
  refine (readCommand bdf).bind fun before => (readCommand bdf).bind fun _ =>
    (writeCommand _ _).bind fun _ => (readConfig _ _).bind fun _ => ?_
  have hend : ∀ size : BitVec 64, DevicesKept (SelfmadeOS.writeCommand bdf before >>= fun _ =>
      (Pure.pure size : PciM (BitVec 64))) :=
    fun size => (writeCommand bdf before).bind fun _ => pure size
  dsimp only
  split
  · exact (readConfig _ _).bind fun _ => (writeConfig _ _ _).bind fun _ =>
      (readConfig _ _).bind fun _ => (writeConfig _ _ _).bind fun _ => (pure _).bind hend
  refine (readConfig _ _).bind fun _ => ?_
  split
  · exact (readConfig _ _).bind fun _ => (readConfig _ _).bind fun _ =>
      (writeConfig _ _ _).bind fun _ => (writeConfig _ _ _).bind fun _ =>
      (readConfig _ _).bind fun _ => (readConfig _ _).bind fun _ =>
      (writeConfig _ _ _).bind fun _ => (writeConfig _ _ _).bind fun _ =>
      (writeCommand _ _).bind fun _ => (pure _).bind hend
  · exact (logMessage _).bind fun _ => (pure _).bind hend

end DevicesKept

theorem barSize_keeps {s t : PciMachine} {bdf : BusDeviceFunction} {barIndex : Nat}
    {size : BitVec 64} (h : barSize bdf barIndex s = .ok size t) : KeepsDevices s t := by
  have hkept := DevicesKept.barSize bdf barIndex s
  rwa [h, final_ok] at hkept

/-- `BAR_size` comes back with the size that the fixed bits give. -/
theorem barSize_run (s : PciMachine) (bdf : BusDeviceFunction) (barIndex : Nat) :
    ∃ t, barSize bdf barIndex s = .ok ((s.functions bdf).barSize barIndex) t ∧
      ((s.functions bdf).register (barRegister barIndex) &&& 7 = 0 ∨
        (s.functions bdf).register (barRegister barIndex) &&& 7 = 4 → t.kernel = s.kernel) := by
  have hnext : barRegister barIndex ≠ barRegister (barIndex + 1) :=
    barRegister_ne (Nat.ne_of_lt (Nat.lt_succ_self barIndex))
  rw [barSize, PciFunction.barSize]
  simp only [readCommand_bind, writeCommand_bind, readConfig_bind, commanded_bar]
  have hsame : (s.functions bdf).SameFixed
      ((s.commanded bdf ((s.functions bdf).command &&& 0xFFFC)).functions bdf) := by
    rw [commanded_same]
    exact PciFunction.SameFixed.writeLow 1 _
  have hbar := commanded_bar s bdf ((s.functions bdf).command &&& 0xFFFC) barIndex
  have hkernel : (s.commanded bdf ((s.functions bdf).command &&& 0xFFFC)).kernel = s.kernel := rfl
  generalize s.commanded bdf ((s.functions bdf).command &&& 0xFFFC) = s1 at hsame hbar hkernel ⊢
  split
  · rw [readConfig_bind, writeConfig_bind, readConfig_bind, writeConfig_bind, configured_ones,
      hsame.sized]
    exact ⟨_, rfl, fun _ => hkernel⟩
  rw [readConfig_bind, hbar]
  split
  · rw [readConfig_bind, readConfig_bind, writeConfig_bind, writeConfig_bind, readConfig_bind,
      readConfig_bind, configured_other _ _ _ _ hnext, configured_ones, configured_ones,
      configured_same, (PciFunction.SameFixed.write _ _).sized, hsame.sized, hsame.sized]
    exact ⟨_, rfl, fun _ => hkernel⟩
  · rename_i h0 h4
    exact ⟨_, rfl, fun h => absurd h (not_or.mpr ⟨h0, h4⟩)⟩

end SelfmadeOS
