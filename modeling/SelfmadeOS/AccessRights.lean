import SelfmadeOS.RequestedMappings

/-!
# What an access meets (`init_mmu.S`, `mmu.h`)

With translation on, the processor takes the rights and the kind of memory of an access from the
descriptor that the walk ends in and from three registers. The table descriptors of the kernel
restrict nothing, so the last descriptor decides alone.
-/

namespace SelfmadeOS
set_option autoImplicit false
open StateRuns Space

def mairAttrNormalWBWA : Nat := 0xff
def mairAttrDevicenGnRnE : Nat := 0x00

def mairCfg : Nat := mairAttrDevicenGnRnE <<< (8 * 1) ||| mairAttrNormalWBWA <<< (8 * 0)

def tcrEl1 : Nat :=
  0b010 <<< 32 ||| 0b10 <<< 30 ||| 0b11 <<< 28 ||| 0b01 <<< 26 ||| 0b01 <<< 24 ||| 0b1 <<< 23 |||
    24 <<< 16 ||| 0b00 <<< 14 ||| 0b11 <<< 12 ||| 0b01 <<< 10 ||| 0b01 <<< 8 ||| 0b0 <<< 7 ||| 24

def sctlrEl1 : Nat := 0b1000000011111

structure Registers where
  mair : Nat
  tcr : Nat
  sctlr : Nat

def kernelRegisters : Registers := ⟨mairCfg, tcrEl1, sctlrEl1⟩

def bits (word low width : Nat) : Nat := (word >>> low) % 2 ^ width

def bit (word low : Nat) : Bool := bits word low 1 == 1

namespace Registers

def inputLimit (r : Registers) : Nat := 2 ^ (64 - bits r.tcr 0 6)

def outputLimit (r : Registers) : Nat :=
  match bits r.tcr 32 3 with
  | 0 => 2 ^ 32
  | 1 => 2 ^ 36
  | 2 => 2 ^ 40
  | 3 => 2 ^ 42
  | 4 => 2 ^ 44
  | _ => 2 ^ 48

def walksDisabled (r : Registers) : Bool := bit r.tcr 7
def alignmentChecked (r : Registers) : Bool := bit r.sctlr 1
def writableNeverExecuted (r : Registers) : Bool := bit r.sctlr 19

end Registers

inductive ExceptionLevel where
  | el0
  | el1

inductive AccessKind where
  | read
  | write
  | fetch
deriving DecidableEq

structure MemoryAccess where
  level : ExceptionLevel
  kind : AccessKind
  address : Nat
  width : Nat

inductive AccessFault where
  | alignment
  | translation
  | addressSize
  | accessFlag
  | permission
deriving DecidableEq

inductive MemoryKind where
  | normalWriteBack
  | deviceNGnRnE
  | other (attr : Nat)
deriving DecidableEq

/-- The physical place of an access and what kind of memory is there. -/
structure Place where
  address : Nat
  kind : MemoryKind
deriving DecidableEq

def memoryKind (attr : Nat) : MemoryKind :=
  if attr = mairAttrNormalWBWA then .normalWriteBack
  else if attr = mairAttrDevicenGnRnE then .deviceNGnRnE
  else .other attr

/-- The byte of `MAIR_EL1` that `AttrIndx` chooses. -/
def Registers.kindOf (r : Registers) (attributes : Nat) : MemoryKind :=
  memoryKind (bits r.mair (8 * bits attributes 2 3) 8)

def Registers.permits (r : Registers) (attributes : Nat) : ExceptionLevel → AccessKind → Bool
  | .el0, .read => bit attributes 6
  | .el0, .write => bit attributes 6 && !bit attributes 7
  | .el0, .fetch => !bit attributes 54 &&
      !(r.writableNeverExecuted && bit attributes 6 && !bit attributes 7)
  | .el1, .read => true
  | .el1, .write => !bit attributes 7
  | .el1, .fetch => !bit attributes 53 && !(bit attributes 6 && !bit attributes 7) &&
      !(r.writableNeverExecuted && !bit attributes 7)

/-- The faults in the order of their priority. -/
def Registers.access (r : Registers) (m : Mem) (a : MemoryAccess) : Except AccessFault Place :=
  if (a.kind = .fetch ∨ r.alignmentChecked) ∧ a.address % a.width ≠ 0 then
    .error .alignment
  else if r.inputLimit ≤ a.address ∨ r.walksDisabled then
    .error .translation
  else
    match translate m a.address with
    | none => .error .translation
    | some t =>
      if r.outputLimit ≤ t.address then .error .addressSize
      else if !bit t.attributes 10 then .error .accessFlag
      else if r.permits t.attributes a.level a.kind then .ok ⟨t.address, r.kindOf t.attributes⟩
      else .error .permission

theorem kernelRegisters_limits : kernelRegisters.inputLimit = addressLimit ∧
    kernelRegisters.outputLimit = addressLimit ∧ kernelRegisters.walksDisabled = false := by
  refine ⟨?_, ?_, ?_⟩ <;> decide

def kindOfIndex (attrIdx : Nat) : MemoryKind :=
  if attrIdx = 0 then .normalWriteBack else .deviceNGnRnE

theorem kernelRegisters_kindOf (attrIdx : Nat) :
    kernelRegisters.kindOf (attributesOf attrIdx) = kindOfIndex attrIdx := by
  unfold attributesOf kindOfIndex
  split <;> decide

theorem attributesOf_accessFlag (attrIdx : Nat) : bit (attributesOf attrIdx) 10 = true := by
  unfold attributesOf
  split <;> decide

/-- The kernel reads and writes all that is mapped; device pages are not executed. -/
theorem kernelRegisters_permits (attrIdx : Nat) (kind : AccessKind) :
    kernelRegisters.permits (attributesOf attrIdx) .el1 kind =
      decide (kind = .fetch → attrIdx = 0) := by
  unfold attributesOf
  split
  · next h => cases kind <;> simp [h] <;> decide
  · next h => cases kind <;> simp [h] <;> decide

theorem kernelRegisters_permits_el0 (attrIdx : Nat) {kind : AccessKind} (h : kind ≠ .fetch) :
    kernelRegisters.permits (attributesOf attrIdx) .el0 kind = false := by
  unfold attributesOf
  cases kind with
  | fetch => exact absurd rfl h
  | read => split <;> decide
  | write => split <;> decide

section access
variable {m : Mem} {a : MemoryAccess}

theorem access_misaligned (h : a.address % a.width ≠ 0) :
    kernelRegisters.access m a = .error .alignment := by
  have hchecked : kernelRegisters.alignmentChecked = true := by decide
  rw [Registers.access, if_pos ⟨Or.inr hchecked, h⟩]

theorem access_unmapped (haligned : a.address % a.width = 0) (h : translate m a.address = none) :
    kernelRegisters.access m a = .error .translation := by
  rw [Registers.access, if_neg fun hnot => hnot.2 haligned, h]
  split <;> rfl

theorem access_mapped (haligned : a.address % a.width = 0) {attrIdx : Nat}
    (h : translate m a.address = some ⟨a.address, attributesOf attrIdx⟩) :
    kernelRegisters.access m a =
      if kernelRegisters.permits (attributesOf attrIdx) a.level a.kind then
        .ok ⟨a.address, kindOfIndex attrIdx⟩
      else .error .permission := by
  obtain ⟨hinput, houtput, hwalks⟩ := kernelRegisters_limits
  have hlimit := translate_limit h
  have hin : ¬(kernelRegisters.inputLimit ≤ a.address ∨ kernelRegisters.walksDisabled) := by
    rw [hinput, hwalks]
    rintro (hge | hoff)
    · exact absurd hlimit (Nat.not_lt.mpr hge)
    · cases hoff
  rw [Registers.access, if_neg fun hnot => hnot.2 haligned, if_neg hin, h]
  dsimp only
  rw [if_neg (by rw [houtput]; exact Nat.not_le.mpr hlimit), attributesOf_accessFlag,
    kernelRegisters_kindOf]
  rfl

theorem access_el1 (hlevel : a.level = .el1) (haligned : a.address % a.width = 0) {attrIdx : Nat}
    (h : translate m a.address = some ⟨a.address, attributesOf attrIdx⟩) :
    kernelRegisters.access m a =
      if a.kind = .fetch → attrIdx = 0 then .ok ⟨a.address, kindOfIndex attrIdx⟩
      else .error .permission := by
  rw [access_mapped haligned h, hlevel, kernelRegisters_permits]
  simp only [decide_eq_true_eq]

theorem access_el0 (hlevel : a.level = .el0) (hkind : a.kind ≠ .fetch)
    (haligned : a.address % a.width = 0) {attrIdx : Nat}
    (h : translate m a.address = some ⟨a.address, attributesOf attrIdx⟩) :
    kernelRegisters.access m a = .error .permission := by
  rw [access_mapped haligned h, hlevel, kernelRegisters_permits_el0 attrIdx hkind]
  rfl

end access

/-- What an access of the kernel meets, if it is aligned: the place itself, and the kind of memory
that stands there. -/
structure AccessesSound (ramEnd : Nat) (s : Machine) : Prop where
  kernel : ∀ a : MemoryAccess, a.level = .el1 → a.address % a.width = 0 →
    kernelRegisters.access s.mem a =
      if translate s.mem a.address = none then .error .translation
      else if a.kind = .fetch → attrIdxOf ramEnd (pageOf a.address) = 0 then
        .ok ⟨a.address, kindOfIndex (attrIdxOf ramEnd (pageOf a.address))⟩
      else .error .permission
  user : ∀ a : MemoryAccess, a.level = .el0 → a.kind ≠ .fetch →
    ∃ fault, kernelRegisters.access s.mem a = .error fault
  requested : ∀ r ∈ s.requests, ∀ a : MemoryAccess, a.level = .el1 → a.kind ≠ .fetch →
    a.address % a.width = 0 → r.Covers a.address →
      kernelRegisters.access s.mem a = .ok ⟨a.address, kindOfIndex r.attrIdx⟩

theorem Inv.accessesSound {S : Setting} {s : Machine} (inv : Inv S s) (served : Served S s) :
    AccessesSound S.ramEnd s := by
  refine ⟨fun a hlevel haligned => ?_, fun a hlevel hkind => ?_,
    fun r hr a hlevel hkind haligned hcovers => ?_⟩
  · cases hwalk : translate s.mem a.address with
    | none =>
      rw [if_pos rfl]
      exact access_unmapped haligned hwalk
    | some t =>
      obtain ⟨rfl, -⟩ := inv.translate_cases hwalk
      rw [if_neg nofun]
      exact access_el1 hlevel haligned hwalk
  · by_cases haligned : a.address % a.width = 0
    · cases hwalk : translate s.mem a.address with
      | none => exact ⟨_, access_unmapped haligned hwalk⟩
      | some t =>
        obtain ⟨rfl, -⟩ := inv.translate_cases hwalk
        exact ⟨_, access_el0 hlevel hkind haligned hwalk⟩
    · exact ⟨_, access_misaligned haligned⟩
  · rw [access_el1 hlevel haligned (inv.allServed served r hr _ hcovers),
      if_pos fun hfetch => absurd hfetch hkind]

variable {L : Layout} {ramEnd : Nat} {mem : Mem} {ops : List Op}

theorem RamRun.accessesSound (h : RamRun L ramEnd mem ops) (hzero : ZeroRam L ramEnd mem)
    (hfits : ∀ c ∈ (final (run L ops (boot L mem))).calls, BlockFits c) :
    ∃ s, run L ops (boot L mem) = .ok () s ∧ AccessesSound ramEnd s := by
  obtain ⟨s, hrun, inv, served⟩ := h.spec (h.boots_zero hzero False) fun c hc =>
    ⟨hfits c hc, Or.inl trivial, False.elim, False.elim⟩
  exact ⟨s, hrun, inv.accessesSound served⟩

/-- In every run: the kernel reaches RAM as cacheable memory and everything else as device
registers, always at the address itself; registers are never executed, and EL0 reaches nothing. -/
theorem accessesSound_of_run (h : RamRun L ramEnd mem ops) (hzero : ZeroRam L ramEnd mem)
    (hfits : ∀ c ∈ (final (run L ops (boot L mem))).calls, BlockFits c) :
    ∃ s, run L ops (boot L mem) = .ok () s ∧ AccessesSound ramEnd s :=
  h.accessesSound hzero hfits

theorem accessesSound_of_run_image :
    ∃ s, run imageLayout [.kalloc 0xE8000] (boot imageLayout zeroRam) = .ok () s ∧
      AccessesSound 0x50000000 s := by
  obtain ⟨h, hzero, hcalls⟩ := image_ramRun
  exact accessesSound_of_run h hzero fun c hc => Or.inl (hcalls c hc).1

end SelfmadeOS
