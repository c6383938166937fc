import SelfmadeOS.Mmu

/-! # The kernel allocator (`kernel_allocator.c`) and runs of the kernel from boot on -/

namespace SelfmadeOS
set_option autoImplicit false

def Machine.cleared (s : Machine) (adr size : Nat) : Machine :=
  { s with mem := s.mem.clear adr size }

/-- The byte loop of `kalloc` that clears the block; the block is made of whole pages. -/
def clearBlock (adr size : Nat) : KernelM Unit :=
  modify fun s => s.cleared adr size

def kalloc (size : Nat) : KernelM Nat := do
  let allignedSize := allign size
  let adr ← palloc allignedSize
  mapAddr adr allignedSize
  clearBlock adr allignedSize
  return adr

inductive Op where
  | kalloc (size : Nat)
  | registerDeviceMemory (address size : Nat)
deriving DecidableEq

def Op.exec : Op → KernelM Unit
  | .kalloc size => do let _ ← SelfmadeOS.kalloc size
  | .registerDeviceMemory address size => SelfmadeOS.registerDeviceMemory address size

def runOps : List Op → KernelM Unit
  | [] => pure ()
  | op :: ops => do
    op.exec
    runOps ops

def run (L : Layout) (ops : List Op) : KernelM Unit := do
  initMmu L
  runOps ops

/-- The machine when `init_mmu` is entered: any memory, the bump pointer at the heap start. -/
def boot (L : Layout) (mem : Mem) : Machine :=
  { mem := mem, currentFree := L.kernelEnd, log := [], requests := [], calls := [],
    returned := [], accesses := [] }

section Cleared
variable (s : Machine) (adr size : Nat)

@[simp] theorem cleared_mem : (s.cleared adr size).mem = s.mem.clear adr size := by
  simp only [Machine.cleared]

@[simp] theorem cleared_currentFree : (s.cleared adr size).currentFree = s.currentFree := by
  simp only [Machine.cleared]

@[simp] theorem cleared_requests : (s.cleared adr size).requests = s.requests := by
  simp only [Machine.cleared]

@[simp] theorem cleared_calls : (s.cleared adr size).calls = s.calls := by
  simp only [Machine.cleared]

theorem clearBlock_run : clearBlock adr size s = .ok () (s.cleared adr size) := rfl

end Cleared

end SelfmadeOS
