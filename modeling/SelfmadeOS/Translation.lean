import SelfmadeOS.Mmu

/-!
# The translation the hardware makes of the tables

Stage 1 with a 4 KB granule from `TTBR0 = l0_table`; `T0SZ` is 24, so addresses have 40 bits.
The repository writes table and page descriptors only; block descriptors are decoded as well,
since memory that mmu.c did not write may hold them.
-/

namespace SelfmadeOS
set_option autoImplicit false

def addressLimit : Nat := 2 ^ 40

structure Translation where
  address : Nat
  attributes : Nat
deriving DecidableEq, Repr

/-- The address and attributes of a descriptor that maps `2 ^ bits` bytes. -/
def mapped (word bits va : Nat) : Translation :=
  ⟨(word &&& addressMask) / 2 ^ bits * 2 ^ bits + va % 2 ^ bits, word - (word &&& addressMask)⟩

def translateL3 (m : Mem) (table va : Nat) : Option Translation :=
  let word := m table (l3Index va)
  if word &&& 3 = 3 then some (mapped word 12 va) else none

def translateL2 (m : Mem) (table va : Nat) : Option Translation :=
  let word := m table (l2Index va)
  if word &&& 3 = 3 then translateL3 m (word &&& addressMask) va
  else if word &&& 3 = 1 then some (mapped word 21 va) else none

def translateL1 (m : Mem) (table va : Nat) : Option Translation :=
  let word := m table (l1Index va)
  if word &&& 3 = 3 then translateL2 m (word &&& addressMask) va
  else if word &&& 3 = 1 then some (mapped word 30 va) else none

def translate (m : Mem) (va : Nat) : Option Translation :=
  if va < addressLimit then
    let word := m l0Table (l0Index va)
    if word &&& 3 = 3 then translateL1 m (word &&& addressMask) va else none
  else
    none

end SelfmadeOS
