import Mathlib.Data.Nat.Bitwise
import Mathlib.Data.List.FinRange
import Mathlib.Tactic.Common
import SelfmadeOS.StateRuns

/-!
# The machine under the kernel: memory, the bump pointer and what is observed of a run

Memory is the physical (identity) view that `phys_to_virt` and `virt_to_phys` give the
kernel: a page is named by its address, a word by its page and its index in it.
Addresses and words are natural numbers; sums that can leave 64 bits are reduced explicitly.
-/

namespace SelfmadeOS
set_option autoImplicit false
open StateRuns

/-- Index of a 64-bit word in a page; also the index of a translation-table entry. -/
abbrev Index := Fin 512

instance index_neZero : NeZero 512 := ⟨by decide⟩

/-- `mem page index` is the word at `page + 8 * index`. -/
abbrev Mem := Nat → Index → Nat

namespace Mem

def set (m : Mem) (page : Nat) (index : Index) (word : Nat) : Mem :=
  fun p i => if p = page ∧ i = index then word else m p i

def zeroAt (m : Mem) (page : Nat) (indices : List Index) : Mem :=
  fun p i => if p = page ∧ i ∈ indices then 0 else m p i

def zeroPage (m : Mem) (page : Nat) : Mem :=
  fun p i => if p = page then 0 else m p i

/-- The page holds one of the `size` bytes from `adr` on; addresses wrap at `2 ^ 64`. -/
def InRange (adr size page : Nat) : Prop :=
  adr ≤ page ∧ page < adr + size ∨ page + 2 ^ 64 < adr + size

instance (adr size page : Nat) : Decidable (InRange adr size page) := instDecidableOr

def clear (m : Mem) (adr size : Nat) : Mem :=
  fun p i => if InRange adr size p then 0 else m p i

@[simp] theorem set_same (m : Mem) (page : Nat) (index : Index) (word : Nat) :
    m.set page index word page index = word := if_pos ⟨rfl, rfl⟩

theorem set_other (m : Mem) {page p : Nat} {index i : Index} (word : Nat)
    (h : ¬ (p = page ∧ i = index)) : m.set page index word p i = m p i := if_neg h

@[simp] theorem zeroAt_nil (m : Mem) (page : Nat) : m.zeroAt page [] = m := by
  funext p i
  simp [zeroAt]

theorem zeroAt_set (m : Mem) (page : Nat) (index : Index) (indices : List Index) :
    (m.set page index 0).zeroAt page indices = m.zeroAt page (index :: indices) := by
  funext p i
  simp only [zeroAt, set, List.mem_cons]
  grind

theorem zeroAt_finRange (m : Mem) (page : Nat) :
    m.zeroAt page (List.finRange 512) = m.zeroPage page := by
  funext p i
  simp [zeroAt, zeroPage]

end Mem

/-- The part of the state that later code can see. -/
structure Kernel where
  mem : Mem
  currentFree : Nat

/-- A range that `map_addr` (attribute index 0) or `register_device_memory` (1) sets out to map. -/
structure Request where
  address : Nat
  size : Nat
  attrIdx : Nat
deriving DecidableEq

def Request.Covers (r : Request) (page : Nat) : Prop :=
  r.address ≤ page ∧ page < r.address + r.size

/-- One call of `map_page_for_pagetable` by `mmu_map_4kb`: the address being mapped, the level
of the table that is missing for it (1, 2 or 3), and the state before the call. -/
structure TableCall where
  va : Nat
  level : Nat
  before : Kernel

/-- One load or store of a table word by `mmu.c`, with memory as it stands at that step. -/
structure Access where
  mem : Mem
  page : Nat
  index : Index
  write : Bool

/-- The kernel state together with a record of the run that no code reads. -/
structure Machine extends Kernel where
  log : List String
  requests : List Request
  calls : List TableCall
  returned : List Kernel
  accesses : List Access

/-- How a C function can fail to come back with a value. -/
inductive Stop where
  | noReturnValue
  | diverges
deriving DecidableEq, Repr

abbrev KernelM := EStateM Stop Machine

namespace Machine

def withFree (s : Machine) (address : Nat) : Machine := { s with currentFree := address }

def withMem (s : Machine) (mem : Mem) : Machine := { s with mem := mem }

def loaded (s : Machine) (page : Nat) (index : Index) : Machine :=
  { s with accesses := s.accesses ++ [⟨s.mem, page, index, false⟩] }

def stored (s : Machine) (page : Nat) (index : Index) (word : Nat) : Machine :=
  { s with
    mem := s.mem.set page index word
    accesses := s.accesses ++ [⟨s.mem, page, index, true⟩] }

def zeroedAt (s : Machine) (page : Nat) (indices : List Index) : Machine :=
  indices.foldl (fun s i => s.stored page i 0) s

def zeroed (s : Machine) (page : Nat) : Machine := s.zeroedAt page (List.finRange 512)

def logged (s : Machine) (message : String) : Machine := { s with log := s.log ++ [message] }

end Machine

def load (page : Nat) (index : Index) : KernelM Nat :=
  fun s => .ok (s.mem page index) (s.loaded page index)

def store (page : Nat) (index : Index) (word : Nat) : KernelM Unit :=
  fun s => .ok () (s.stored page index word)

def logMessage (message : String) : KernelM Unit :=
  fun s => .ok () (s.logged message)

def request (address size attrIdx : Nat) : KernelM Unit :=
  modify fun s => { s with requests := s.requests ++ [⟨address, size, attrIdx⟩] }

/-- `zero_out_page`: one store for each of the 512 words. -/
def zeroOutPage (page : Nat) : KernelM Unit :=
  (List.finRange 512).forM fun i => store page i 0

section Fields
variable (s : Machine) (page : Nat) (index : Index) (word : Nat) (indices : List Index)

@[simp] theorem withFree_mem : (s.withFree word).mem = s.mem := (rfl)
@[simp] theorem withFree_currentFree : (s.withFree word).currentFree = word := (rfl)
@[simp] theorem withFree_requests : (s.withFree word).requests = s.requests := (rfl)
@[simp] theorem withFree_calls : (s.withFree word).calls = s.calls := (rfl)
@[simp] theorem withFree_returned : (s.withFree word).returned = s.returned := (rfl)
@[simp] theorem withFree_accesses : (s.withFree word).accesses = s.accesses := (rfl)

@[simp] theorem withMem_mem (mem : Mem) : (s.withMem mem).mem = mem := (rfl)
@[simp] theorem loaded_toKernel : (s.loaded page index).toKernel = s.toKernel := (rfl)
@[simp] theorem loaded_mem : (s.loaded page index).mem = s.mem := (rfl)
@[simp] theorem loaded_currentFree : (s.loaded page index).currentFree = s.currentFree := (rfl)
@[simp] theorem loaded_requests : (s.loaded page index).requests = s.requests := (rfl)
@[simp] theorem loaded_calls : (s.loaded page index).calls = s.calls := (rfl)
@[simp] theorem loaded_returned : (s.loaded page index).returned = s.returned := (rfl)

@[simp] theorem stored_mem : (s.stored page index word).mem = s.mem.set page index word := (rfl)
@[simp] theorem stored_currentFree : (s.stored page index word).currentFree = s.currentFree := (rfl)
@[simp] theorem stored_requests : (s.stored page index word).requests = s.requests := (rfl)
@[simp] theorem stored_calls : (s.stored page index word).calls = s.calls := (rfl)
@[simp] theorem stored_returned : (s.stored page index word).returned = s.returned := (rfl)

theorem zeroedAt_fields :
    (s.zeroedAt page indices).mem = s.mem.zeroAt page indices ∧
    (s.zeroedAt page indices).currentFree = s.currentFree ∧
    (s.zeroedAt page indices).requests = s.requests ∧
    (s.zeroedAt page indices).calls = s.calls ∧
    (s.zeroedAt page indices).returned = s.returned := by
  induction indices generalizing s with
  | nil => simp [Machine.zeroedAt]
  | cons i is ih =>
    have h := ih (s.stored page i 0)
    rw [stored_mem, Mem.zeroAt_set] at h
    exact h

@[simp] theorem zeroed_mem : (s.zeroed page).mem = s.mem.zeroPage page := by
  rw [Machine.zeroed, (zeroedAt_fields s page _).1, Mem.zeroAt_finRange]

@[simp] theorem zeroed_currentFree : (s.zeroed page).currentFree = s.currentFree := by
  rw [Machine.zeroed, (zeroedAt_fields s page _).2.1]

@[simp] theorem zeroed_requests : (s.zeroed page).requests = s.requests := by
  rw [Machine.zeroed, (zeroedAt_fields s page _).2.2.1]

@[simp] theorem zeroed_calls : (s.zeroed page).calls = s.calls := by
  rw [Machine.zeroed, (zeroedAt_fields s page _).2.2.2.1]

@[simp] theorem zeroed_returned : (s.zeroed page).returned = s.returned := by
  rw [Machine.zeroed, (zeroedAt_fields s page _).2.2.2.2]

end Fields

section Run
variable {α β : Type}

@[simp] theorem load_run (s : Machine) (page : Nat) (index : Index) :
    load page index s = .ok (s.mem page index) (s.loaded page index) := rfl

@[simp] theorem store_run (s : Machine) (page : Nat) (index : Index) (word : Nat) :
    store page index word s = .ok () (s.stored page index word) := rfl

theorem storeAll_run (s : Machine) (page : Nat) (indices : List Index) :
    (indices.forM fun i => store page i 0) s = .ok () (s.zeroedAt page indices) := by
  induction indices generalizing s with
  | nil => rfl
  | cons i is ih =>
    change (store page i 0 >>= fun _ => is.forM fun i => store page i 0) s = _
    rw [bind_run (store_run s page i 0)]
    exact ih _

@[simp] theorem zeroOutPage_run (s : Machine) (page : Nat) :
    zeroOutPage page s = .ok () (s.zeroed page) :=
  storeAll_run s page _

/-! The first step of a program, executed. -/

@[simp] theorem load_bind (s : Machine) (page : Nat) (index : Index) (f : Nat → KernelM α) :
    (load page index >>= f) s = f (s.mem page index) (s.loaded page index) :=
  bind_run (load_run s page index)

@[simp] theorem store_bind (s : Machine) (page : Nat) (index : Index) (word : Nat)
    (f : Unit → KernelM α) :
    (store page index word >>= f) s = f () (s.stored page index word) :=
  bind_run (store_run s page index word)

@[simp] theorem zeroOutPage_bind (s : Machine) (page : Nat) (f : Unit → KernelM α) :
    (zeroOutPage page >>= f) s = f () (s.zeroed page) :=
  bind_run (zeroOutPage_run s page)

@[simp] theorem pure_run (s : Machine) (a : α) : (pure a : KernelM α) s = .ok a s := rfl

end Run

end SelfmadeOS
