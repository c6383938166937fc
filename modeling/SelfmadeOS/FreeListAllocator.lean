import SelfmadeOS.ByteMemory
import SelfmadeOS.HeapBounds

/-!
# The linked-list allocator (`page_free_linked_list_allocator.c`)

Every block starts with a header of sixteen bytes: a pointer to the next header, a size, and four
bytes of padding. An `int` is its 32 bits, whose sums and products wrap.
-/

namespace SelfmadeOS.FreeList
set_option autoImplicit false
open ByteMemory

/-- The memory of the kernel, the heads of the two lists, and what the logger is told. -/
structure Allocator where
  mem : Bytes
  listFree : BitVec 64
  listAlloc : BitVec 64
  log : List String

def memSize : BitVec 32 := 16

namespace Allocator
variable (s : Allocator)

def next (block : BitVec 64) : BitVec 64 := BitVec.ofNat 64 (loadBytes s.mem block.toNat 8)

def size (block : BitVec 64) : BitVec 32 := BitVec.ofNat 32 (loadBytes s.mem (block.toNat + 8) 4)

def setNext (block value : BitVec 64) : Allocator :=
  { s with mem := storeBytes s.mem block.toNat 8 value.toNat }

def setSize (block : BitVec 64) (value : BitVec 32) : Allocator :=
  { s with mem := storeBytes s.mem (block.toNat + 8) 4 value.toNat }

def logged (message : String) : Allocator := { s with log := s.log ++ [message] }

end Allocator

/-- `list_free` starts as the start of the heap. -/
def initAllocator (heapStart heapEnd : BitVec 64) (s : Allocator) : Allocator :=
  let s := s.setNext s.listFree 0
  let s := s.setSize s.listFree ((heapEnd - heapStart - memSize.signExtend 64).setWidth 32)
  { s with listAlloc := 0 }

def allignAddr (addr : BitVec 64) (allignment : BitVec 32) : BitVec 64 :=
  (addr + (allignment - 1).signExtend 64) &&& (~~~(allignment - 1)).signExtend 64

/-- What a request takes with its header and the room to align it. -/
def needed (size allignment : BitVec 32) : BitVec 32 := size + allignment - 1 + memSize

/-- The loop: `block_before` and `block` when it ends, or nothing when it has not ended after so
many tests. -/
def findBlock (s : Allocator) (need : BitVec 32) :
    (tests : Nat) → (blockBefore block : BitVec 64) → Option (BitVec 64 × BitVec 64)
  | 0, _, _ => none
  | tests + 1, blockBefore, block =>
    if block ≠ 0 ∧ s.size block < need then findBlock s need tests block (s.next block)
    else some (blockBefore, block)

def takeBlock (s : Allocator) (blockBefore block : BitVec 64) (allignment : BitVec 32) :
    BitVec 64 × Allocator :=
  let s := s.setNext blockBefore (s.next block)
  let pointer := allignAddr (block + 16) allignment
  let s := s.setNext block s.listAlloc
  (pointer, { s with listAlloc := block })

def splitBlock (s : Allocator) (block : BitVec 64) (size allignment : BitVec 32) :
    BitVec 64 × Allocator :=
  let s := s.setSize block (s.size block - needed size allignment)
  let newBlock := block + 16 + (s.size block).setWidth 64
  let pointer := allignAddr (newBlock + 16) allignment
  let s := s.setNext newBlock s.listAlloc
  let s := s.setSize newBlock (size + allignment - 1)
  (pointer, { s with listAlloc := newBlock })

def kalloc (tests : Nat) (size allignment : BitVec 32) (s : Allocator) :
    Option (BitVec 64 × Allocator) :=
  match findBlock s (needed size allignment) tests s.listFree s.listFree with
  | none => none
  | some (blockBefore, block) =>
    if block = 0 then
      some (0, s.logged "No free memory block left for this size and this allignment.")
    else if 10 * s.size block < 11 * needed size allignment then
      some (takeBlock s blockBefore block allignment)
    else some (splitBlock s block size allignment)

section headers
variable (s : Allocator) {block other value : BitVec 64} {n : BitVec 32}

theorem next_setNext : (s.setNext block value).next block = value := by
  have hlt : value.toNat < 256 ^ 8 := value.isLt
  unfold Allocator.next Allocator.setNext
  rw [loadBytes_storeBytes_same hlt, BitVec.ofNat_toNat, BitVec.setWidth_eq]

theorem size_setSize : (s.setSize block n).size block = n := by
  have hlt : n.toNat < 256 ^ 4 := n.isLt
  unfold Allocator.size Allocator.setSize
  rw [loadBytes_storeBytes_same hlt, BitVec.ofNat_toNat, BitVec.setWidth_eq]

theorem size_setNext (h : NoOverlap block.toNat 16 other.toNat 16 ∨ block = other) :
    (s.setNext block value).size other = s.size other := by
  unfold Allocator.size Allocator.setNext
  rw [loadBytes_storeBytes_apart]
  unfold NoOverlap at *
  rcases h with h | rfl <;> omega

theorem next_setSize (h : NoOverlap block.toNat 16 other.toNat 16 ∨ block = other) :
    (s.setSize block n).next other = s.next other := by
  unfold Allocator.next Allocator.setSize
  rw [loadBytes_storeBytes_apart]
  unfold NoOverlap at *
  rcases h with h | rfl <;> omega

theorem next_setNext_apart (h : NoOverlap block.toNat 16 other.toNat 16) :
    (s.setNext block value).next other = s.next other := by
  unfold Allocator.next Allocator.setNext
  rw [loadBytes_storeBytes_apart]
  unfold NoOverlap at *
  omega

theorem size_setSize_apart (h : NoOverlap block.toNat 16 other.toNat 16) :
    (s.setSize block n).size other = s.size other := by
  unfold Allocator.size Allocator.setSize
  rw [loadBytes_storeBytes_apart]
  unfold NoOverlap at *
  omega

/-- Neither store touches a byte outside the header. -/
theorem setNext_mem {x : Nat} (h : x < block.toNat ∨ block.toNat + 16 ≤ x) :
    (s.setNext block value).mem x = s.mem x := by
  apply storeBytes_outside
  omega

theorem setSize_mem {x : Nat} (h : x < block.toNat ∨ block.toNat + 16 ≤ x) :
    (s.setSize block n).mem x = s.mem x := by
  apply storeBytes_outside
  omega

end headers

structure Call where
  size : Nat
  log : Nat
  size_pos : 1 ≤ size
  size_lt : size < 2 ^ 31
  log_le : log ≤ 30

namespace Call
variable (c : Call)

def allignment : Nat := 2 ^ c.log

def needed : Nat := c.size + c.allignment + 15

def sizeInt : BitVec 32 := BitVec.ofNat 32 c.size

def allignmentInt : BitVec 32 := BitVec.ofNat 32 c.allignment

theorem allignment_pos : 0 < c.allignment := Nat.two_pow_pos c.log

theorem allignment_le : c.allignment ≤ 2 ^ 30 := Nat.pow_le_pow_right (by omega) c.log_le

theorem needed_toNat : (FreeList.needed c.sizeInt c.allignmentInt).toNat = c.needed := by
  have hsize := c.size_lt
  have hallignment := c.allignment_le
  have hpos := c.allignment_pos
  unfold FreeList.needed sizeInt allignmentInt memSize needed
  bv_omega

theorem low_toNat : (c.allignmentInt - 1).toNat = c.allignment - 1 := by
  have hallignment := c.allignment_le
  have hpos := c.allignment_pos
  unfold allignmentInt
  bv_omega

theorem low_msb : (c.allignmentInt - 1).msb = false := by
  have hallignment := c.allignment_le
  rw [BitVec.msb_eq_false_iff_two_mul_lt, c.low_toNat]
  omega

/-- The mask as 64 bits: the `int` is extended with its sign. -/
theorem mask_toNat : ((~~~(c.allignmentInt - 1)).signExtend 64).toNat = 2 ^ 64 - c.allignment := by
  have hallignment := c.allignment_le
  have hpos := c.allignment_pos
  rw [BitVec.signExtend_not (by omega), BitVec.signExtend_eq_setWidth_of_msb_false c.low_msb,
    BitVec.toNat_not, BitVec.toNat_setWidth, c.low_toNat]
  omega

theorem allignAddr_toNat {addr : BitVec 64} (h : addr.toNat + c.allignment ≤ 2 ^ 64) :
    (allignAddr addr c.allignmentInt).toNat =
      (addr.toNat + (c.allignment - 1)) / c.allignment * c.allignment := by
  have hpos := c.allignment_pos
  have hlog := c.log_le
  have hsum : (addr + (c.allignmentInt - 1).signExtend 64).toNat =
      addr.toNat + (c.allignment - 1) := by
    rw [BitVec.signExtend_eq_setWidth_of_msb_false c.low_msb, BitVec.toNat_add,
      BitVec.toNat_setWidth, c.low_toNat]
    omega
  have hmask : 2 ^ 64 - c.allignment = (2 ^ (64 - c.log) - 1) * 2 ^ c.log := by
    rw [Nat.sub_mul, ← Nat.pow_add, Nat.sub_add_cancel (by omega), Nat.one_mul]
    rfl
  have hlt : (addr.toNat + (c.allignment - 1)) / 2 ^ c.log < 2 ^ (64 - c.log) := by
    apply Nat.div_lt_of_lt_mul
    rw [← Nat.pow_add, Nat.add_sub_cancel' (by omega)]
    omega
  unfold allignAddr
  rw [BitVec.toNat_and, hsum, c.mask_toNat, hmask, Words.and_field, Nat.mod_eq_of_lt hlt]
  rfl

theorem allignAddr_dvd {addr : BitVec 64} (h : addr.toNat + c.allignment ≤ 2 ^ 64) :
    c.allignment ∣ (allignAddr addr c.allignmentInt).toNat := by
  rw [c.allignAddr_toNat h]
  exact Nat.dvd_mul_left _ _

theorem allignAddr_bounds {addr : BitVec 64} (h : addr.toNat + c.allignment ≤ 2 ^ 64) :
    addr.toNat ≤ (allignAddr addr c.allignmentInt).toNat ∧
      (allignAddr addr c.allignmentInt).toNat < addr.toNat + c.allignment := by
  have hpos := c.allignment_pos
  have hdiv := Nat.div_add_mod (addr.toNat + (c.allignment - 1)) c.allignment
  have hmod := Nat.mod_lt (addr.toNat + (c.allignment - 1)) hpos
  rw [c.allignAddr_toNat h, Nat.mul_comm]
  omega

end Call

section search
variable {s : Allocator} {block blockBefore : BitVec 64} {need : BitVec 32}

theorem findBlock_first (hfit : ¬ s.size block < need) (tests : Nat) :
    findBlock s need (tests + 1) blockBefore block = some (blockBefore, block) := by
  rw [findBlock, if_neg fun hgo => hfit hgo.2]

theorem findBlock_last (hblock : block ≠ 0) (hsmall : s.size block < need)
    (hnext : s.next block = 0) (tests : Nat) :
    findBlock s need (tests + 2) blockBefore block = some (block, 0) := by
  rw [findBlock, if_pos ⟨hblock, hsmall⟩, hnext, findBlock, if_neg fun hgo => hgo.1 rfl]

end search

/-- What a new block at the end of `block`, with `free` bytes before, leaves behind. -/
structure SplitOff (s s' : Allocator) (block pointer : BitVec 64) (c : Call) (free : Nat) :
    Prop where
  listFree : s'.listFree = s.listFree
  place : s'.listAlloc.toNat = block.toNat + 16 + (free - c.needed)
  next : s'.next s'.listAlloc = s.listAlloc
  blockNext : s'.next block = s.next block
  blockSize : (s'.size block).toNat = free - c.needed
  above : ∀ x, block.toNat + 16 + free ≤ x → s'.mem x = s.mem x
  room : s'.listAlloc.toNat + 16 ≤ pointer.toNat
  fits : pointer.toNat + c.size ≤ block.toNat + 16 + free
  aligned : c.allignment ∣ pointer.toNat

section split
variable {s : Allocator} {block : BitVec 64} {c : Call} {free : Nat}

theorem newSize_toNat (hsize : (s.size block).toNat = free) (hfit : c.needed ≤ free) :
    (s.size block - needed c.sizeInt c.allignmentInt).toNat = free - c.needed := by
  have hle : needed c.sizeInt c.allignmentInt ≤ s.size block := by
    rw [BitVec.le_def, c.needed_toNat, hsize]
    exact hfit
  rw [BitVec.toNat_sub_of_le hle, hsize, c.needed_toNat]

theorem newBlock_toNat {n : BitVec 32} (hroom : block.toNat + 16 + n.toNat < 2 ^ 64) :
    (block + 16 + n.setWidth 64).toNat = block.toNat + 16 + n.toNat := by
  bv_omega

theorem splitBlock_spec (hsize : (s.size block).toNat = free) (hfit : c.needed ≤ free)
    (hroom : block.toNat + 16 + free ≤ kernelHeapEnd) :
    SplitOff s (splitBlock s block c.sizeInt c.allignmentInt).2 block
      (splitBlock s block c.sizeInt c.allignmentInt).1 c free := by
  have hend : kernelHeapEnd = 0x50000000 := rfl
  have hneeded : c.needed = c.size + c.allignment + 15 := rfl
  have hpos := c.allignment_pos
  have hnew := newSize_toNat hsize hfit
  generalize hn : s.size block - needed c.sizeInt c.allignmentInt = n at hnew
  have hplace : (block + 16 + n.setWidth 64).toNat = block.toNat + 16 + (free - c.needed) := by
    rw [newBlock_toNat (by omega), hnew]
  generalize hb : block + 16 + n.setWidth 64 = newBlock at hplace
  have hapart : NoOverlap newBlock.toNat 16 block.toNat 16 := Or.inr (by omega)
  have hstart : (newBlock + 16).toNat = newBlock.toNat + 16 := by bv_omega
  have hsplit : splitBlock s block c.sizeInt c.allignmentInt =
      (allignAddr (newBlock + 16) c.allignmentInt,
        { ((s.setSize block n).setNext newBlock s.listAlloc).setSize newBlock
          (c.sizeInt + c.allignmentInt - 1) with listAlloc := newBlock }) := by
    unfold splitBlock
    simp only [hn, size_setSize, hb]
    rfl
  have hword : (newBlock + 16).toNat + c.allignment ≤ 2 ^ 64 := by omega
  obtain ⟨hlow, hhigh⟩ := c.allignAddr_bounds hword
  rw [hsplit]
  refine ⟨rfl, hplace, ?_, ?_, ?_, ?_, hstart ▸ hlow, ?_, c.allignAddr_dvd hword⟩
  · exact (next_setSize _ (Or.inr rfl)).trans (next_setNext _)
  · exact (next_setSize _ (Or.inl hapart)).trans
      ((next_setNext_apart _ hapart).trans (next_setSize _ (Or.inr rfl)))
  · have hkept := (size_setSize_apart (n := c.sizeInt + c.allignmentInt - 1)
      ((s.setSize block n).setNext newBlock s.listAlloc) hapart).trans
      ((size_setNext _ (Or.inl hapart)).trans (size_setSize s))
    exact (congrArg BitVec.toNat hkept).trans hnew
  · intro x hx
    exact (setSize_mem _ (Or.inr (by omega))).trans
      ((setNext_mem _ (Or.inr (by omega))).trans (setSize_mem s (Or.inr (by omega))))
  · have hfits : (allignAddr (newBlock + 16) c.allignmentInt).toNat + c.size ≤
        block.toNat + 16 + free := by omega
    exact hfits

end split

section exact
variable {s : Allocator} {size allignment : BitVec 32}

theorem kalloc_exact (hblock : s.listFree ≠ 0)
    (hlarge : ¬ s.size s.listFree < needed size allignment)
    (hexact : 10 * s.size s.listFree < 11 * needed size allignment) (tests : Nat) :
    kalloc (tests + 1) size allignment s =
      some (takeBlock s s.listFree s.listFree allignment) := by
  unfold kalloc
  rw [findBlock_first hlarge]
  simp only [if_neg hblock, if_pos hexact]

theorem takeBlock_pointer (s : Allocator) (blockBefore block : BitVec 64)
    (allignment : BitVec 32) :
    (takeBlock s blockBefore block allignment).1 = allignAddr (block + 16) allignment := rfl

theorem takeBlock_listFree (s : Allocator) (blockBefore block : BitVec 64)
    (allignment : BitVec 32) :
    (takeBlock s blockBefore block allignment).2.listFree = s.listFree := rfl

theorem takeBlock_size (s : Allocator) (block : BitVec 64) (allignment : BitVec 32) :
    (takeBlock s block block allignment).2.size block = s.size block :=
  (size_setNext _ (Or.inr rfl)).trans (size_setNext s (Or.inr rfl))

/-- The head of the free list stays there, and the same request finds it again. -/
theorem kalloc_exact_again (hblock : s.listFree ≠ 0)
    (hlarge : ¬ s.size s.listFree < needed size allignment)
    (hexact : 10 * s.size s.listFree < 11 * needed size allignment) (tests : Nat) :
    ∃ s', kalloc (tests + 1) size allignment (takeBlock s s.listFree s.listFree allignment).2 =
      some (allignAddr (s.listFree + 16) allignment, s') := by
  have hlist := takeBlock_listFree s s.listFree s.listFree allignment
  have hsize := takeBlock_size s s.listFree allignment
  generalize (takeBlock s s.listFree s.listFree allignment).2 = t at hlist hsize ⊢
  rw [← hlist] at hblock
  rw [← hsize, ← hlist] at hlarge hexact
  have hagain := kalloc_exact hblock hlarge hexact tests
  rw [hlist] at hagain
  exact ⟨_, hagain⟩

end exact

/-- One block is free, with `free` bytes behind its header. -/
structure OneFree (s : Allocator) (free : Nat) : Prop where
  block : s.listFree ≠ 0
  last : s.next s.listFree = 0
  size : (s.size s.listFree).toNat = free
  room : free < 0x10000000

section requests
variable {s : Allocator} {free : Nat} (h : OneFree s free) (c : Call) (tests : Nat)
include h

theorem OneFree.small_iff :
    s.size s.listFree < needed c.sizeInt c.allignmentInt ↔ free < c.needed := by
  rw [BitVec.lt_def, h.size, c.needed_toNat]

theorem OneFree.exact_iff (hfit : c.needed ≤ free) :
    10 * s.size s.listFree < 11 * needed c.sizeInt c.allignmentInt ↔
      10 * free < 11 * c.needed := by
  have hroom := h.room
  have hten : (10 : BitVec 32).toNat = 10 := rfl
  have heleven : (11 : BitVec 32).toNat = 11 := rfl
  rw [BitVec.lt_def, BitVec.toNat_mul, BitVec.toNat_mul, h.size, c.needed_toNat, hten, heleven,
    Nat.mod_eq_of_lt (by omega), Nat.mod_eq_of_lt (by omega)]

theorem kalloc_noBlock (hsmall : free < c.needed) :
    kalloc (tests + 2) c.sizeInt c.allignmentInt s =
      some (0, s.logged "No free memory block left for this size and this allignment.") := by
  unfold kalloc
  rw [findBlock_last h.block ((h.small_iff c).mpr hsmall) h.last]
  rfl

theorem kalloc_split (hfit : 11 * c.needed ≤ 10 * free) :
    kalloc (tests + 2) c.sizeInt c.allignmentInt s =
      some (splitBlock s s.listFree c.sizeInt c.allignmentInt) := by
  have hle : c.needed ≤ free := by omega
  have hlarge := mt (h.small_iff c).mp (Nat.not_lt.mpr hle)
  have hnotExact := mt (h.exact_iff c hle).mp (Nat.not_lt.mpr hfit)
  unfold kalloc
  rw [findBlock_first hlarge]
  simp only [if_neg h.block, if_neg hnotExact]

theorem kalloc_whole (hfit : c.needed ≤ free) (hexact : 10 * free < 11 * c.needed) :
    kalloc (tests + 2) c.sizeInt c.allignmentInt s =
      some (takeBlock s s.listFree s.listFree c.allignmentInt) :=
  kalloc_exact h.block (mt (h.small_iff c).mp (Nat.not_lt.mpr hfit))
    ((h.exact_iff c hfit).mpr hexact) (tests + 1)

theorem kalloc_whole_again (hfit : c.needed ≤ free) (hexact : 10 * free < 11 * c.needed) :
    ∃ s', kalloc (tests + 2) c.sizeInt c.allignmentInt
      (takeBlock s s.listFree s.listFree c.allignmentInt).2 =
      some (allignAddr (s.listFree + 16) c.allignmentInt, s') :=
  kalloc_exact_again h.block (mt (h.small_iff c).mp (Nat.not_lt.mpr hfit))
    ((h.exact_iff c hfit).mpr hexact) (tests + 1)

end requests

end SelfmadeOS.FreeList
