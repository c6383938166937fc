import SelfmadeOS.Machine
import SelfmadeOS.Words

/-!
# The page allocator (`page_bump_allocator.c`)

`allign_addr` masks with `~(allignment - 1)`, which as a 64-bit word is `2 ^ 64 - allignment`.
-/

namespace SelfmadeOS
set_option autoImplicit false

def pageSize : Nat := 0x1000
def blockSizeL3 : Nat := 2 ^ 12
def blockSizeL2 : Nat := 2 ^ 21

def allignAddr (addr allignment : Nat) : Nat :=
  (addr + (allignment - 1)) % 2 ^ 64 &&& (2 ^ 64 - allignment)

def allign (size : Nat) : Nat :=
  let overAllignment := size % 4096
  if overAllignment > 0 then (size + 4096 - overAllignment) % 2 ^ 64 else size

def setCurrentFree (address : Nat) : KernelM Unit :=
  modify fun s => s.withFree address

def palloc (size : Nat) : KernelM Nat := do
  setCurrentFree (allignAddr (← get).currentFree pageSize)
  let allignedSize := allign size
  let startAdd := (← get).currentFree
  setCurrentFree ((startAdd + allignedSize) % 2 ^ 64)
  return startAdd

/-- The block of `nrOfPages` pages; `pagesLeft` is a number of bytes, as in the source. -/
def pallocContinuousBlock (nrOfPages : Nat) : KernelM Nat := do
  setCurrentFree (allignAddr (← get).currentFree pageSize)
  let startAdd := (← get).currentFree
  let pagesLeft := blockSizeL2 - (startAdd &&& (blockSizeL2 - 1))
  if nrOfPages > 4096 then
    logMessage
      "Error: A continous block in the same l3 pagetable can not be bigger than 4096."
    return startAdd
  else if pagesLeft ≥ nrOfPages then
    setCurrentFree ((startAdd + nrOfPages * 4096) % 2 ^ 64)
    return startAdd
  else
    let startAdd := (startAdd + blockSizeL2) % 2 ^ 64 &&& (2 ^ 64 - blockSizeL2)
    setCurrentFree ((startAdd + nrOfPages * 4096) % 2 ^ 64)
    return startAdd

def debugHelperSetCurrentFree (newCurrentFree : Nat) : KernelM Unit :=
  setCurrentFree newCurrentFree

theorem and_pageMask {x : Nat} (hx : x < 2 ^ 64) : x &&& (2 ^ 64 - 4096) = x / 4096 * 4096 := by
  rw [show 2 ^ 64 - 4096 = (2 ^ 52 - 1) * 2 ^ 12 by decide, Words.and_field]
  omega

theorem allignAddr_eq (addr : Nat) :
    allignAddr addr pageSize = (addr + 4095) % 2 ^ 64 / 4096 * 4096 := by
  exact and_pageMask (Nat.mod_lt (addr + 4095) (by decide))

theorem allignAddr_aligned (addr : Nat) : allignAddr addr pageSize % 4096 = 0 := by
  rw [allignAddr_eq]
  omega

theorem allignAddr_of_aligned {addr : Nat} (ha : addr % 4096 = 0) (hlt : addr < 2 ^ 64) :
    allignAddr addr pageSize = addr := by
  rw [allignAddr_eq]
  omega

theorem allign_aligned (size : Nat) : allign size % 4096 = 0 := by
  unfold allign
  dsimp only
  split <;> omega

theorem allign_idem (size : Nat) : allign (allign size) = allign size := by
  have h := allign_aligned size
  rw [allign]
  simp [h]

theorem pallocContinuousBlock_fits (s : Machine) {n : Nat} (h : n ≤ 4096)
    (hroom : blockSizeL2 - (allignAddr s.currentFree pageSize &&& (blockSizeL2 - 1)) ≥ n) :
    pallocContinuousBlock n s = .ok (allignAddr s.currentFree pageSize)
      (s.withFree ((allignAddr s.currentFree pageSize + n * 4096) % 2 ^ 64)) := by
  change (if n > 4096 then _ else _ : KernelM Nat)
    (s.withFree (allignAddr s.currentFree pageSize)) = _
  rw [if_neg (Nat.not_lt.mpr h)]
  exact congrFun (if_pos hroom) _

/-- The bytes left in a 2 MB region are at least a page, so four "pages" always fit. -/
theorem pallocContinuousBlock_four (s : Machine) :
    pallocContinuousBlock 4 s = .ok (allignAddr s.currentFree pageSize)
      (s.withFree ((allignAddr s.currentFree pageSize + 4 * 4096) % 2 ^ 64)) := by
  have hmask : allignAddr s.currentFree pageSize &&& (blockSizeL2 - 1)
      = allignAddr s.currentFree pageSize % 2 ^ 21 := Nat.and_two_pow_sub_one_eq_mod _ 21
  have haligned := allignAddr_aligned s.currentFree
  apply pallocContinuousBlock_fits s (by decide)
  rw [hmask, blockSizeL2]
  omega

theorem palloc_run (s : Machine) (size : Nat) :
    palloc size s = .ok (allignAddr s.currentFree pageSize)
      (s.withFree ((allignAddr s.currentFree pageSize + allign size) % 2 ^ 64)) := rfl

end SelfmadeOS
