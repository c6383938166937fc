import SelfmadeOS.PageAllocator

/-!
# Building translation tables (`mmu.c`)

`verbose` is 0 (`init_kernel_allocator` clears it), so only the unconditional messages appear.
`l0_table` and the temporary tables are the linker's pages from `init_mmu` on.
-/

namespace SelfmadeOS
set_option autoImplicit false

def pageTableAttributes : Nat := 0b11
def pageAttributesForNormalMemory : Nat := 0b11100000011
def pageAttributesForDeviceMemory : Nat := 0b11 <<< 53 ||| 0b11100000111

def addressMask : Nat := 0x0000FFFFFFFFF000

def initPageL0 : Nat := 0x40000000
def initPageL1 : Nat := 0x40001000
def initPageL2 : Nat := 0x40002000
def initPageL3 : Nat := 0x40003000
def tmpPage1 : Nat := 0x40004000
def tmpPage2 : Nat := 0x40005000
def tmpPage3 : Nat := 0x40006000
def kernelStart : Nat := 0x40007000

def l0Table : Nat := initPageL0
def tmpL1Table : Nat := tmpPage1
def tmpL2Table : Nat := tmpPage2
def tmpL3Table : Nat := tmpPage3

/-- `(va >> shift) & 0x1FF`. -/
def tableIndex (va shift : Nat) : Index :=
  ⟨va >>> shift &&& 0x1FF, Nat.lt_succ_of_le Nat.and_le_right⟩

def l0Index (va : Nat) : Index := tableIndex va 39
def l1Index (va : Nat) : Index := tableIndex va 30
def l2Index (va : Nat) : Index := tableIndex va 21
def l3Index (va : Nat) : Index := tableIndex va 12

structure MapNewPageTables where
  newPagetable : Nat
  newL3Pagetable : Nat
  newL2Pagetable : Nat
  newL1Pagetable : Nat

/-- Level 3 of `map_page_for_table_h`: the new L3 page goes through the temporary L3 table. -/
def mapPageForTableL3 (parentPagetable : Nat) (pageTables : MapNewPageTables) : KernelM Unit := do
  let p3L2Index := l2Index pageTables.newL3Pagetable
  let p3L3Index := l3Index pageTables.newL3Pagetable
  if (← load parentPagetable p3L2Index) &&& 1 = 0 then
    let p3NewPagetableIndex := l3Index pageTables.newPagetable
    store parentPagetable p3L2Index (tmpL3Table ||| pageTableAttributes)
    let page := pageAttributesForNormalMemory ||| pageTables.newL3Pagetable
    store tmpL3Table p3L3Index page
    zeroOutPage pageTables.newL3Pagetable
    store pageTables.newL3Pagetable p3L3Index page
    store pageTables.newL3Pagetable p3NewPagetableIndex
      (pageAttributesForNormalMemory ||| pageTables.newPagetable)
  else
    logMessage
      "Error: MMU: The page table at level 3, for your page table mapping is already mapped."

def mapPageForTableL2 (parentPagetable : Nat) (pageTables : MapNewPageTables) : KernelM Unit := do
  let p3L1Index := l1Index pageTables.newL3Pagetable
  let p3L2Index := l2Index pageTables.newL3Pagetable
  if (← load parentPagetable p3L1Index) &&& 1 = 0 then
    let p2L3Index := l3Index pageTables.newL2Pagetable
    store parentPagetable p3L1Index (tmpL2Table ||| pageTableAttributes)
    mapPageForTableL3 tmpL2Table pageTables
    let page := pageAttributesForNormalMemory ||| pageTables.newL2Pagetable
    store pageTables.newL3Pagetable p2L3Index page
    zeroOutPage pageTables.newL2Pagetable
    store pageTables.newL2Pagetable p3L2Index (pageTables.newL3Pagetable ||| pageTableAttributes)
  else
    logMessage
      "Error: MMU: The page table at level 2, for your page table mapping is already mapped."

def mapPageForTableL1 (parentPagetable : Nat) (pageTables : MapNewPageTables) : KernelM Unit := do
  let p3L0Index := l0Index pageTables.newL3Pagetable
  let p3L1Index := l1Index pageTables.newL3Pagetable
  if (← load parentPagetable p3L0Index) &&& 1 = 0 then
    let p1L3Index := l3Index pageTables.newL1Pagetable
    store parentPagetable p3L0Index (tmpL1Table ||| pageTableAttributes)
    mapPageForTableL2 tmpL1Table pageTables
    let page := pageAttributesForNormalMemory ||| pageTables.newL1Pagetable
    store pageTables.newL3Pagetable p1L3Index page
    zeroOutPage pageTables.newL1Pagetable
    store pageTables.newL1Pagetable p3L1Index (pageTables.newL2Pagetable ||| pageTableAttributes)
  else
    logMessage
      "Error: MMU: The page table at level 1, for your page table mapping is already mapped."

/-- The recursion of the source goes from level 1 to level 3; here each level is a function. -/
def mapPageForTableH (parentPagetable : Nat) (pageTables : MapNewPageTables) (level : Nat) :
    KernelM Unit :=
  match level with
  | 1 => mapPageForTableL1 parentPagetable pageTables
  | 2 => mapPageForTableL2 parentPagetable pageTables
  | 3 => mapPageForTableL3 parentPagetable pageTables
  | _ => pure ()

/-- A function that runs off its end returns no value. -/
def mapPageForPagetable : KernelM Nat := do
  let continueousBlock ← pallocContinuousBlock 4
  let newPageTables : MapNewPageTables :=
    ⟨continueousBlock, (continueousBlock + 3 * pageSize) % 2 ^ 64,
      (continueousBlock + 2 * pageSize) % 2 ^ 64, (continueousBlock + pageSize) % 2 ^ 64⟩
  let l0i := l0Index newPageTables.newPagetable
  let l1i := l1Index newPageTables.newPagetable
  let l2i := l2Index newPageTables.newPagetable
  let l3i := l3Index newPageTables.newPagetable
  if (← load l0Table l0i) &&& 1 = 0 then
    mapPageForTableH l0Table newPageTables 1
    store l0Table l0i (newPageTables.newL1Pagetable ||| pageTableAttributes)
    zeroOutPage tmpL1Table
    zeroOutPage tmpL2Table
    zeroOutPage tmpL3Table
    return newPageTables.newPagetable
  else
    let l1Table := (← load l0Table l0i) &&& addressMask
    if (← load l1Table l1i) &&& 1 = 0 then
      mapPageForTableH l1Table newPageTables 2
      store l1Table l1i (newPageTables.newL2Pagetable ||| pageTableAttributes)
      zeroOutPage tmpL1Table
      zeroOutPage tmpL2Table
      return newPageTables.newPagetable
    else
      let l2Table := (← load l1Table l1i) &&& addressMask
      if (← load l2Table l2i) &&& 1 = 0 then
        mapPageForTableH l2Table newPageTables 3
        store l2Table l2i (newPageTables.newL3Pagetable ||| pageTableAttributes)
        -- The level-3 helper filled the temporary L3 table; the source clears the L1 one.
        zeroOutPage tmpL1Table
        return newPageTables.newPagetable
      else
        let l3Table := (← load l2Table l2i) &&& addressMask
        if (← load l3Table l3i) &&& 1 = 0 then
          store l3Table l3i (pageAttributesForNormalMemory ||| newPageTables.newPagetable)
          return newPageTables.newPagetable
        else
          throw .noReturnValue

def pageForPagetable (va level : Nat) : KernelM Nat := do
  modify fun s => { s with calls := s.calls ++ [⟨va, level, s.toKernel⟩] }
  let page ← mapPageForPagetable
  modify fun s => { s with returned := s.returned ++ [s.toKernel] }
  return page

/-- One `if(!(table[index] & 1)) table[index] = ...` of `mmu_map_4kb`, with the read of the next
table's address that follows it; the source repeats this for levels 1, 2 and 3. -/
def nextTable (table : Nat) (index : Index) (va level : Nat) : KernelM Nat := do
  if (← load table index) &&& 1 = 0 then
    let page ← pageForPagetable va level
    store table index (page ||| pageTableAttributes)
  return (← load table index) &&& addressMask

def pageEntry (l3 va pa attrIdx : Nat) : KernelM Unit := do
  if (← load l3 (l3Index va)) &&& 1 = 0 then
    if attrIdx = 0 then
      store l3 (l3Index va) (pageAttributesForNormalMemory ||| pa)
    else if attrIdx = 1 then
      store l3 (l3Index va) (pageAttributesForDeviceMemory ||| pa)
    else
      logMessage ("The memory attribute index " ++ toString attrIdx ++ " does not exist.")
  else
    logMessage "Error: Page already initialized"

def mmuMap4kb (rootPagetable va pa attrIdx : Nat) : KernelM Unit := do
  let l1 ← nextTable rootPagetable (l0Index va) va 1
  let l2 ← nextTable l1 (l1Index va) va 2
  let l3 ← nextTable l2 (l2Index va) va 3
  pageEntry l3 va pa attrIdx

/-- The loop of `map_addr` and `register_device_memory`. The unsigned remainder takes at most
`2 ^ 52` values, so a loop that has not ended after that many tests never ends. -/
def mapLoop (attrIdx : Nat) : (tests leftover adr : Nat) → KernelM Unit
  | 0, _, _ => throw .diverges
  | tests + 1, leftover, adr =>
    if leftover > 0 then do
      mmuMap4kb l0Table adr adr attrIdx
      mapLoop attrIdx tests ((leftover + 2 ^ 64 - blockSizeL3) % 2 ^ 64)
        ((adr + blockSizeL3) % 2 ^ 64)
    else
      pure ()

def mapAddr (address size : Nat) : KernelM Unit := do
  if size % pageSize ≠ 0 then
    logMessage "Size is not page aligned."
  else
    request address size 0
    mapLoop 0 (2 ^ 52) size address

/-- The size parameter is a `uint32_t`. -/
def registerDeviceMemory (address size : Nat) : KernelM Unit := do
  request address (size % 2 ^ 32) 1
  mapLoop 1 (2 ^ 52) (size % 2 ^ 32) address

def initUart : KernelM Unit := registerDeviceMemory 0x9000000 pageSize

/-- The linker's page-aligned end of the kernel image, where the heap starts. -/
structure Layout where
  kernelEnd : Nat
  aligned : kernelEnd % 4096 = 0
  above : kernelStart < kernelEnd
  below : kernelEnd < 2 ^ 64

def initTables : KernelM Unit := do
  zeroOutPage l0Table
  zeroOutPage initPageL1
  store l0Table (l0Index l0Table) (pageTableAttributes ||| initPageL1)
  zeroOutPage initPageL2
  store initPageL1 (l1Index l0Table) (pageTableAttributes ||| initPageL2)
  zeroOutPage initPageL3
  store initPageL2 (l2Index l0Table) (pageTableAttributes ||| initPageL3)
  store initPageL3 0 (pageAttributesForNormalMemory ||| initPageL0)
  store initPageL3 1 (pageAttributesForNormalMemory ||| initPageL1)
  store initPageL3 2 (pageAttributesForNormalMemory ||| initPageL2)
  store initPageL3 3 (pageAttributesForNormalMemory ||| initPageL3)
  store initPageL3 4 (pageAttributesForNormalMemory ||| tmpPage1)
  store initPageL3 5 (pageAttributesForNormalMemory ||| tmpPage2)
  store initPageL3 6 (pageAttributesForNormalMemory ||| tmpPage3)

/-- The write of `SCTLR_EL1`, which turns translation on, stands before the last message. -/
def initMmu (L : Layout) : KernelM Unit := do
  initTables
  mapAddr kernelStart (L.kernelEnd - kernelStart)
  initUart
  logMessage "3"

end SelfmadeOS
