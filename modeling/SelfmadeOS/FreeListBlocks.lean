import SelfmadeOS.FreeListAllocator

/-!
# What the linked-list allocator hands out

As long as every request either finds too little or leaves more than a tenth, the free list is the
first block of the heap, and the blocks that were cut off its end lie side by side up to the end of
the heap. A block that is taken as a whole stays on the free list.
-/

namespace SelfmadeOS.FreeList
set_option autoImplicit false
open ByteMemory

/-- `kernel_heap_start` is the end of the kernel; the linker script ends the heap behind it. -/
structure HeapLayout extends Layout where
  room : kernelEnd < kernelHeapEnd

structure Served where
  call : Call
  pointer : BitVec 64

structure Run where
  allocator : Allocator
  served : List Served

def heapEnd : BitVec 64 := BitVec.ofNat 64 kernelHeapEnd

namespace HeapLayout
variable (L : HeapLayout)

def heapStart : BitVec 64 := BitVec.ofNat 64 L.kernelEnd

/-- `list_free` is the start of the heap and `list_alloc` is `NULL` before `init_allocator`. -/
def boot (mem : Bytes) : Run :=
  ⟨initAllocator L.heapStart heapEnd ⟨mem, L.heapStart, 0, []⟩, []⟩

def free : Nat := kernelHeapEnd - L.kernelEnd - 16

end HeapLayout

namespace Run

def step (tests : Nat) (r : Run) (c : Call) : Option Run :=
  (kalloc tests c.sizeInt c.allignmentInt r.allocator).map fun (pointer, s) =>
    ⟨s, if pointer = 0 then r.served else ⟨c, pointer⟩ :: r.served⟩

def steps (tests : Nat) : Run → List Call → Option Run
  | r, [] => some r
  | r, c :: rest => (r.step tests c).bind fun r => r.steps tests rest

end Run

inductive ListFrom (s : Allocator) : BitVec 64 → List (BitVec 64) → Prop where
  | nil : ListFrom s 0 []
  | cons {block : BitVec 64} {blocks : List (BitVec 64)} (hblock : block ≠ 0)
      (rest : ListFrom s (s.next block) blocks) : ListFrom s block (block :: blocks)

theorem ListFrom.head_mem {s : Allocator} {block : BitVec 64} {blocks : List (BitVec 64)}
    (h : ListFrom s block blocks) (hblock : block ≠ 0) : block ∈ blocks := by
  cases h with
  | nil => exact absurd rfl hblock
  | cons _ rest => exact List.mem_cons_self

/-- Nothing is handed out twice: where the blocks lie, and the headers on the two lists. -/
structure Sound (r : Run) (heapStart : Nat) (free alloc : List (BitVec 64)) : Prop where
  freeList : ListFrom r.allocator r.allocator.listFree free
  allocList : ListFrom r.allocator r.allocator.listAlloc alloc
  acyclic : free.Nodup
  disjoint : ∀ block ∈ free, block ∉ alloc
  aligned : ∀ b ∈ r.served, b.call.allignment ∣ b.pointer.toNat
  inside : ∀ b ∈ r.served, heapStart ≤ b.pointer.toNat ∧
    b.pointer.toNat + b.call.size ≤ kernelHeapEnd
  blocks : r.served.Pairwise fun b b' =>
    NoOverlap b.pointer.toNat b.call.size b'.pointer.toNat b'.call.size
  headers : ∀ b ∈ r.served, ∀ header ∈ free ++ alloc,
    NoOverlap b.pointer.toNat b.call.size header.toNat 16

def Safe (L : HeapLayout) (r : Run) : Prop := ∃ free alloc, Sound r L.kernelEnd free alloc

/-- The blocks on `list_alloc`, each from its header on up to the next one. -/
inductive Carved (s : Allocator) :
    Nat → BitVec 64 → List Served → List (BitVec 64) → Prop where
  | nil : Carved s kernelHeapEnd 0 [] []
  | cons {block : BitVec 64} {stop : Nat} {b : Served} {served : List Served}
      {headers : List (BitVec 64)} (hblock : block ≠ 0)
      (room : block.toNat + 16 ≤ b.pointer.toNat)
      (fits : b.pointer.toNat + b.call.size ≤ stop)
      (aligned : b.call.allignment ∣ b.pointer.toNat)
      (rest : Carved s stop (s.next block) served headers) :
      Carved s block.toNat block (b :: served) (block :: headers)

section carved
variable {s s' : Allocator} {start : Nat} {list : BitVec 64} {served : List Served}
variable {headers : List (BitVec 64)}

theorem Carved.start_le (h : Carved s start list served headers) : start ≤ kernelHeapEnd := by
  induction h with
  | nil => exact Nat.le_refl _
  | cons hblock room fits aligned rest ih => omega

theorem Carved.listFrom (h : Carved s start list served headers) : ListFrom s list headers := by
  induction h with
  | nil => exact ListFrom.nil
  | cons hblock room fits aligned rest ih => exact ListFrom.cons hblock ih

theorem Carved.headers_above (h : Carved s start list served headers) :
    ∀ header ∈ headers, start ≤ header.toNat := by
  induction h with
  | nil => exact List.forall_mem_nil _
  | cons hblock room fits aligned rest ih =>
    rw [List.forall_mem_cons]
    refine ⟨Nat.le_refl _, ?_⟩
    intro header hheader
    have habove := ih header hheader
    omega

theorem Carved.served_inside (h : Carved s start list served headers) :
    ∀ b ∈ served, start + 16 ≤ b.pointer.toNat ∧
      b.pointer.toNat + b.call.size ≤ kernelHeapEnd := by
  induction h with
  | nil => exact List.forall_mem_nil _
  | cons hblock room fits aligned rest ih =>
    have hstop := rest.start_le
    rw [List.forall_mem_cons]
    refine ⟨⟨room, by omega⟩, ?_⟩
    intro b hb
    obtain ⟨hlow, hhigh⟩ := ih b hb
    omega

theorem Carved.aligned (h : Carved s start list served headers) :
    ∀ b ∈ served, b.call.allignment ∣ b.pointer.toNat := by
  induction h with
  | nil => exact List.forall_mem_nil _
  | cons hblock room fits aligned rest ih => exact List.forall_mem_cons.mpr ⟨aligned, ih⟩

theorem Carved.pairwise (h : Carved s start list served headers) :
    served.Pairwise fun b b' =>
      NoOverlap b.pointer.toNat b.call.size b'.pointer.toNat b'.call.size := by
  induction h with
  | nil => exact List.Pairwise.nil
  | cons hblock room fits aligned rest ih =>
    refine List.Pairwise.cons ?_ ih
    intro b hb
    obtain ⟨hlow, -⟩ := rest.served_inside b hb
    exact Or.inl (by omega)

theorem Carved.apart (h : Carved s start list served headers) :
    ∀ b ∈ served, ∀ header ∈ headers, NoOverlap b.pointer.toNat b.call.size header.toNat 16 := by
  induction h with
  | nil => exact List.forall_mem_nil _
  | cons hblock room fits aligned rest ih =>
    simp only [List.forall_mem_cons]
    refine ⟨⟨Or.inr room, ?_⟩, ?_⟩
    · intro header hheader
      have habove := rest.headers_above header hheader
      exact Or.inl (by omega)
    · intro b hb
      obtain ⟨hlow, -⟩ := rest.served_inside b hb
      exact ⟨Or.inr (by omega), ih b hb⟩

theorem Carved.frame (h : Carved s start list served headers)
    (hsame : ∀ x, start ≤ x → s'.mem x = s.mem x) : Carved s' start list served headers := by
  induction h with
  | nil => exact Carved.nil
  | @cons block stop b served headers hblock room fits aligned rest ih =>
    have hnext : s'.next block = s.next block := by
      unfold Allocator.next
      rw [loadBytes_congr fun x hx _ => hsame x hx]
    refine Carved.cons hblock room fits aligned ?_
    rw [hnext]
    exact ih fun x hx => hsame x (by omega)

end carved

/-- The free list is the first block, and the served blocks lie behind its `free` bytes. -/
structure Ready (L : HeapLayout) (r : Run) (free : Nat) : Prop where
  listFree : r.allocator.listFree = L.heapStart
  one : OneFree r.allocator free
  carved : ∃ headers, Carved r.allocator (L.kernelEnd + 16 + free) r.allocator.listAlloc r.served
    headers

section ready
variable {L : HeapLayout} {r : Run} {free : Nat}

theorem heapStart_toNat (L : HeapLayout) : L.heapStart.toNat = L.kernelEnd := by
  have hbelow := L.below
  exact (BitVec.toNat_ofNat _ _).trans (Nat.mod_eq_of_lt hbelow)

theorem Ready.safe (h : Ready L r free) : Safe L r := by
  obtain ⟨headers, hcarved⟩ := h.carved
  have hstart := heapStart_toNat L
  refine ⟨[L.heapStart], headers, ?_, hcarved.listFrom, List.nodup_singleton _, ?_,
    hcarved.aligned, ?_, hcarved.pairwise, ?_⟩
  · have hlast := h.one.last
    have hblock := h.one.block
    rw [h.listFree] at hlast hblock ⊢
    exact ListFrom.cons hblock (hlast ▸ ListFrom.nil)
  · intro block hblock hmem
    obtain rfl := List.mem_singleton.mp hblock
    have habove := hcarved.headers_above _ hmem
    omega
  · intro b hb
    obtain ⟨hlow, hhigh⟩ := hcarved.served_inside b hb
    omega
  · intro b hb header hheader
    obtain ⟨hlow, -⟩ := hcarved.served_inside b hb
    rcases List.mem_append.mp hheader with hfree | halloc
    · obtain rfl := List.mem_singleton.mp hfree
      exact Or.inr (by omega)
    · exact hcarved.apart b hb header halloc

theorem freeSize_toNat (L : HeapLayout) :
    ((heapEnd - L.heapStart - memSize.signExtend 64).setWidth 32).toNat = L.free := by
  have hstart := heapStart_toNat L
  have hend : heapEnd.toNat = 0x50000000 := rfl
  have hmem : (memSize.signExtend 64).toNat = 16 := by decide
  have haligned := L.aligned
  have habove : 0x40007000 < L.kernelEnd := L.above
  have hroom : L.kernelEnd < 0x50000000 := L.room
  have hfree : L.free = 0x50000000 - L.kernelEnd - 16 := rfl
  rw [BitVec.toNat_setWidth, BitVec.toNat_sub, BitVec.toNat_sub, hstart, hend, hmem, hfree]
  omega

theorem heapStart_ne_zero (L : HeapLayout) : L.heapStart ≠ 0 := by
  intro hzero
  have hstart := heapStart_toNat L
  have habove : 0x40007000 < L.kernelEnd := L.above
  rw [hzero] at hstart
  have hnat : (0 : BitVec 64).toNat = 0 := rfl
  omega

theorem boot_ready (L : HeapLayout) (mem : Bytes) : Ready L (L.boot mem) L.free := by
  have haligned := L.aligned
  have habove : 0x40007000 < L.kernelEnd := L.above
  have hroom : L.kernelEnd < 0x50000000 := L.room
  have hfree : L.free = 0x50000000 - L.kernelEnd - 16 := rfl
  refine ⟨rfl, ⟨heapStart_ne_zero L, ?_, ?_, by omega⟩, [], ?_⟩
  · exact (next_setSize _ (Or.inr rfl)).trans (next_setNext _)
  · exact (congrArg BitVec.toNat (size_setSize _)).trans (freeSize_toNat L)
  · have hend : L.kernelEnd + 16 + L.free = kernelHeapEnd := by
      rw [hfree, kernelHeapEnd]
      omega
    rw [hend]
    exact Carved.nil

end ready

section step
variable {r r' : Run} {c : Call} {tests : Nat}

theorem steps_cons (h : r.step tests c = some r') (rest : List Call) :
    r.steps tests (c :: rest) = r'.steps tests rest := by
  rw [Run.steps, h, Option.bind_some]

theorem step_pointer {pointer : BitVec 64} {s : Allocator}
    (h : kalloc tests c.sizeInt c.allignmentInt r.allocator = some (pointer, s))
    (hpointer : pointer ≠ 0) : r.step tests c = some ⟨s, ⟨c, pointer⟩ :: r.served⟩ := by
  unfold Run.step
  simp only [h, Option.map_some, if_neg hpointer]

end step

section steps
variable {L : HeapLayout} {r : Run} {free : Nat} (h : Ready L r free) (c : Call) (tests : Nat)
include h

theorem Ready.noBlock (hsmall : free < c.needed) :
    ∃ r', r.step (tests + 2) c = some r' ∧ Ready L r' free := by
  have hkalloc := kalloc_noBlock h.one c tests hsmall
  refine ⟨_, congrArg (Option.map _) hkalloc, ?_⟩
  obtain ⟨headers, hcarved⟩ := h.carved
  refine ⟨h.listFree, ⟨h.one.block, h.one.last, h.one.size, h.one.room⟩, headers, ?_⟩
  exact hcarved.frame fun _ _ => rfl

theorem Ready.split (hfit : 11 * c.needed ≤ 10 * free) :
    ∃ r', r.step (tests + 2) c = some r' ∧ Ready L r' (free - c.needed) := by
  have hkalloc := kalloc_split h.one c tests hfit
  obtain ⟨headers, hcarved⟩ := h.carved
  have hstart : r.allocator.listFree.toNat = L.kernelEnd := by
    rw [h.listFree, heapStart_toNat]
  have hend := hcarved.start_le
  have hspec := splitBlock_spec (c := c) h.one.size (by omega) (by omega)
  generalize splitBlock r.allocator r.allocator.listFree c.sizeInt c.allignmentInt = split
    at hkalloc hspec
  obtain ⟨pointer, s⟩ := split
  change SplitOff r.allocator s r.allocator.listFree pointer c free at hspec
  have hplace := hspec.place
  have hpointer : pointer ≠ 0 := by
    rintro rfl
    exact absurd hspec.room (by simp)
  have hnew : s.listAlloc ≠ 0 := by
    intro hzero
    rw [hzero] at hplace
    have hnat : (0 : BitVec 64).toNat = 0 := rfl
    omega
  refine ⟨_, step_pointer hkalloc hpointer, hspec.listFree.trans h.listFree, ?_,
    s.listAlloc :: headers, ?_⟩
  · have hroom := h.one.room
    constructor
    · rw [hspec.listFree]
      exact h.one.block
    · rw [hspec.listFree]
      exact hspec.blockNext.trans h.one.last
    · rw [hspec.listFree]
      exact hspec.blockSize
    · omega
  · have hfrom : L.kernelEnd + 16 + (free - c.needed) = s.listAlloc.toNat := by omega
    rw [hfrom]
    have hfits : pointer.toNat + c.size ≤ L.kernelEnd + 16 + free := hstart ▸ hspec.fits
    have hrest : Carved s (L.kernelEnd + 16 + free) (s.next s.listAlloc) r.served headers := by
      rw [hspec.next]
      exact hcarved.frame fun x hx => hspec.above x (hstart.symm ▸ hx)
    exact Carved.cons hnew hspec.room hfits hspec.aligned hrest

/-- The block that is taken as a whole is the head of both lists. -/
theorem Ready.whole (hfit : c.needed ≤ free) (hexact : 10 * free < 11 * c.needed) :
    ∃ r', r.step (tests + 2) c = some r' ∧ ¬ Safe L r' := by
  have hkalloc := kalloc_whole h.one c tests hfit hexact
  refine ⟨_, congrArg (Option.map _) hkalloc, ?_⟩
  rintro ⟨free, alloc, hsound⟩
  have hfree := hsound.freeList.head_mem h.one.block
  have halloc := hsound.allocList.head_mem h.one.block
  exact hsound.disjoint _ hfree halloc

theorem Ready.whole_twice (hfit : c.needed ≤ free) (hexact : 10 * free < 11 * c.needed) :
    ∃ s pointer, r.steps (tests + 2) [c, c] =
      some ⟨s, ⟨c, pointer⟩ :: ⟨c, pointer⟩ :: r.served⟩ := by
  have hfirst := kalloc_whole h.one c tests hfit hexact
  have hpointer := takeBlock_pointer r.allocator r.allocator.listFree r.allocator.listFree
    c.allignmentInt
  obtain ⟨s', hsecond⟩ := kalloc_whole_again h.one c tests hfit hexact
  have hstart : r.allocator.listFree.toNat = L.kernelEnd := by
    rw [h.listFree, heapStart_toNat]
  have hroom : L.kernelEnd < 0x50000000 := L.room
  have hallignment := c.allignment_le
  have hplace : (r.allocator.listFree + 16).toNat = L.kernelEnd + 16 := by bv_omega
  have hword : (r.allocator.listFree + 16).toNat + c.allignment ≤ 2 ^ 64 := by omega
  have hbounds := (c.allignAddr_bounds hword).1
  generalize takeBlock r.allocator r.allocator.listFree r.allocator.listFree c.allignmentInt = t
    at hfirst hsecond hpointer
  rw [← hpointer] at hsecond hbounds
  obtain ⟨pointer, s⟩ := t
  have hne : pointer ≠ 0 := by
    rintro rfl
    exact absurd (hplace ▸ hbounds) (by simp)
  exact ⟨s', pointer, (steps_cons (step_pointer hfirst hne) [c]).trans
    (steps_cons (step_pointer hsecond hne) [])⟩

end steps

/-- No request finds enough, but not more than a tenth too much, where `free` bytes are left. -/
def neverExact : Nat → List Call → Bool
  | _, [] => true
  | free, c :: rest =>
    if free < c.needed then neverExact free rest
    else decide (11 * c.needed ≤ 10 * free) && neverExact (free - c.needed) rest

section runs
variable {L : HeapLayout}

/-- A run is safe throughout when it is before its first step and from its first step on. -/
theorem prefixes_cons {tests : Nat} {r r' : Run} {c : Call} (hsafe : Safe L r)
    (h : r.step tests c = some r') (rest : List Call) :
    (∀ first, first <+: c :: rest → ∃ t, r.steps tests first = some t ∧ Safe L t) ↔
      ∀ first, first <+: rest → ∃ t, r'.steps tests first = some t ∧ Safe L t := by
  constructor
  · intro hall first hfirst
    obtain ⟨t, hrun, ht⟩ := hall (c :: first) (List.cons_prefix_cons.mpr ⟨rfl, hfirst⟩)
    rw [steps_cons h] at hrun
    exact ⟨t, hrun, ht⟩
  · intro hall first hfirst
    rcases List.prefix_cons_iff.mp hfirst with rfl | ⟨later, rfl, hlater⟩
    · exact ⟨r, rfl, hsafe⟩
    · obtain ⟨t, hrun, ht⟩ := hall later hlater
      exact ⟨t, (steps_cons h later).trans hrun, ht⟩

theorem Ready.safe_iff {r : Run} {free : Nat} (h : Ready L r free) (tests : Nat)
    (calls : List Call) :
    (∀ first, first <+: calls → ∃ t, r.steps (tests + 2) first = some t ∧ Safe L t) ↔
      neverExact free calls = true := by
  induction calls generalizing r free with
  | nil =>
    refine ⟨fun _ => rfl, ?_⟩
    intro _ first hfirst
    obtain rfl := List.prefix_nil.mp hfirst
    exact ⟨r, rfl, h.safe⟩
  | cons c rest ih =>
    unfold neverExact
    by_cases hsmall : free < c.needed
    · obtain ⟨r', hstep, hready⟩ := h.noBlock c tests hsmall
      rw [if_pos hsmall, prefixes_cons h.safe hstep]
      exact ih hready
    rw [if_neg hsmall, Bool.and_eq_true, decide_eq_true_iff]
    by_cases hfit : 11 * c.needed ≤ 10 * free
    · obtain ⟨r', hstep, hready⟩ := h.split c tests hfit
      rw [prefixes_cons h.safe hstep, ih hready]
      exact ⟨fun hrest => ⟨hfit, hrest⟩, And.right⟩
    · obtain ⟨r', hstep, hunsafe⟩ := h.whole c tests (by omega) (by omega)
      constructor
      · intro hall
        obtain ⟨t, hrun, ht⟩ := hall [c] (List.cons_prefix_cons.mpr ⟨rfl, List.nil_prefix⟩)
        rw [steps_cons hstep, Run.steps] at hrun
        exact absurd (Option.some.inj hrun ▸ ht) hunsafe
      · intro hnever
        exact absurd hnever.1 hfit

end runs

/-- The allocator hands out nothing twice exactly when it never takes a block as a whole. -/
theorem kalloc_safe_iff (L : HeapLayout) (mem : Bytes) (calls : List Call) (tests : Nat) :
    (∀ first, first <+: calls →
      ∃ r, (L.boot mem).steps (tests + 2) first = some r ∧ Safe L r) ↔
      neverExact L.free calls = true :=
  (boot_ready L mem).safe_iff tests calls

def smallHeap : HeapLayout := ⟨⟨0x40200000, by decide, by decide, by decide⟩, by decide⟩

def wholeHeap : Call := ⟨smallHeap.free - 16, 0, by decide, by decide, by decide⟩

theorem kalloc_wholeHeap : ¬ ∀ first, first <+: [wholeHeap] →
    ∃ r, (smallHeap.boot fun _ => 0).steps 2 first = some r ∧ Safe smallHeap r := by
  intro hall
  obtain ⟨r, hstep, hunsafe⟩ := (boot_ready smallHeap fun _ => 0).whole wholeHeap 0 (by decide)
    (by decide)
  obtain ⟨t, hrun, ht⟩ := hall [wholeHeap] (List.prefix_refl _)
  rw [steps_cons hstep, Run.steps] at hrun
  exact hunsafe (Option.some.inj hrun ▸ ht)

end SelfmadeOS.FreeList
