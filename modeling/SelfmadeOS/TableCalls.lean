import SelfmadeOS.TableMemory

/-!
# What a call of `map_page_for_pagetable` does

Each of its four paths is executed once, to an explicit final machine. The machine after the
helper of level 3, 2 or 1 is named, for the case that the helper finds its slot free.
-/

namespace SelfmadeOS
set_option autoImplicit false
open StateRuns

def Written (s : Machine) (page : Nat) (index : Index) : Prop :=
  ∃ a ∈ s.accesses, a.write = true ∧ a.page = page ∧ a.index = index

section Written
variable {s : Machine} {page p : Nat} {index i : Index} {word : Nat}

@[simp] theorem written_loaded : Written (s.loaded p i) page index ↔ Written s page index := by
  constructor
  · rintro ⟨a, ha, hwrite, h⟩
    rcases List.mem_append.mp ha with ha | ha
    · exact ⟨a, ha, hwrite, h⟩
    · obtain rfl := List.mem_singleton.mp ha
      cases hwrite
  · rintro ⟨a, ha, h⟩
    exact ⟨a, List.mem_append_left _ ha, h⟩

@[simp] theorem written_stored : Written (s.stored p i word) page index ↔
    Written s page index ∨ (page = p ∧ index = i) := by
  constructor
  · rintro ⟨a, ha, hwrite, hpage, hindex⟩
    rcases List.mem_append.mp ha with ha | ha
    · exact Or.inl ⟨a, ha, hwrite, hpage, hindex⟩
    · obtain rfl := List.mem_singleton.mp ha
      exact Or.inr ⟨hpage.symm, hindex.symm⟩
  · rintro (⟨a, ha, h⟩ | ⟨rfl, rfl⟩)
    · exact ⟨a, List.mem_append_left _ ha, h⟩
    · exact ⟨_, List.mem_append_right _ (List.mem_singleton_self _), rfl, rfl, rfl⟩

theorem written_zeroedAt (indices : List Index) : Written (s.zeroedAt p indices) page index ↔
    Written s page index ∨ (page = p ∧ index ∈ indices) := by
  induction indices generalizing s with
  | nil => simp [Machine.zeroedAt]
  | cons i is ih =>
    have h := ih (s := s.stored p i 0)
    rw [written_stored] at h
    simp only [List.mem_cons]
    exact h.trans (by tauto)

@[simp] theorem written_zeroed : Written (s.zeroed p) page index ↔
    Written s page index ∨ page = p := by
  rw [Machine.zeroed, written_zeroedAt]
  simp

end Written

namespace Machine

def linkedL3 (s : Machine) (parent : Nat) (pt : MapNewPageTables) : Machine :=
  let page := pageAttributesForNormalMemory ||| pt.newL3Pagetable
  let slot := l3Index pt.newL3Pagetable
  (((((s.loaded parent (l2Index pt.newL3Pagetable)).stored parent (l2Index pt.newL3Pagetable)
    (tmpL3Table ||| pageTableAttributes)).stored tmpL3Table slot page).zeroed
    pt.newL3Pagetable).stored pt.newL3Pagetable slot page).stored pt.newL3Pagetable
    (l3Index pt.newPagetable) (pageAttributesForNormalMemory ||| pt.newPagetable)

def linkedL2 (s : Machine) (parent : Nat) (pt : MapNewPageTables) : Machine :=
  let s := (s.loaded parent (l1Index pt.newL3Pagetable)).stored parent
    (l1Index pt.newL3Pagetable) (tmpL2Table ||| pageTableAttributes)
  (((s.linkedL3 tmpL2Table pt).stored pt.newL3Pagetable (l3Index pt.newL2Pagetable)
    (pageAttributesForNormalMemory ||| pt.newL2Pagetable)).zeroed pt.newL2Pagetable).stored
    pt.newL2Pagetable (l2Index pt.newL3Pagetable) (pt.newL3Pagetable ||| pageTableAttributes)

def linkedL1 (s : Machine) (parent : Nat) (pt : MapNewPageTables) : Machine :=
  let s := (s.loaded parent (l0Index pt.newL3Pagetable)).stored parent
    (l0Index pt.newL3Pagetable) (tmpL1Table ||| pageTableAttributes)
  (((s.linkedL2 tmpL1Table pt).stored pt.newL3Pagetable (l3Index pt.newL1Pagetable)
    (pageAttributesForNormalMemory ||| pt.newL1Pagetable)).zeroed pt.newL1Pagetable).stored
    pt.newL1Pagetable (l1Index pt.newL3Pagetable) (pt.newL2Pagetable ||| pageTableAttributes)

end Machine

theorem mapPageForTableL3_run {s : Machine} (parent : Nat) (pt : MapNewPageTables)
    (hfree : s.mem parent (l2Index pt.newL3Pagetable) &&& 1 = 0) :
    mapPageForTableL3 parent pt s = .ok () (s.linkedL3 parent pt) := by
  simp only [mapPageForTableL3, load_bind, hfree, if_true, store_bind, store_run,
    zeroOutPage_bind, Machine.linkedL3]

theorem mapPageForTableL2_run {s : Machine} (parent : Nat) (pt : MapNewPageTables)
    (hfree : s.mem parent (l1Index pt.newL3Pagetable) &&& 1 = 0)
    (htmp : s.mem.set parent (l1Index pt.newL3Pagetable) (tmpL2Table ||| pageTableAttributes)
      tmpL2Table (l2Index pt.newL3Pagetable) &&& 1 = 0) :
    mapPageForTableL2 parent pt s = .ok () (s.linkedL2 parent pt) := by
  have h3 := mapPageForTableL3_run (s := (s.loaded parent (l1Index pt.newL3Pagetable)).stored
    parent (l1Index pt.newL3Pagetable) (tmpL2Table ||| pageTableAttributes)) tmpL2Table pt htmp
  simp only [mapPageForTableL2, load_bind, hfree, if_true, store_bind, store_run,
    zeroOutPage_bind, bind_run h3, Machine.linkedL2]

theorem mapPageForTableL1_run {s : Machine} (parent : Nat) (pt : MapNewPageTables)
    (hfree : s.mem parent (l0Index pt.newL3Pagetable) &&& 1 = 0)
    (htmp1 : s.mem.set parent (l0Index pt.newL3Pagetable) (tmpL1Table ||| pageTableAttributes)
      tmpL1Table (l1Index pt.newL3Pagetable) &&& 1 = 0)
    (htmp2 : (s.mem.set parent (l0Index pt.newL3Pagetable) (tmpL1Table ||| pageTableAttributes)).set
      tmpL1Table (l1Index pt.newL3Pagetable) (tmpL2Table ||| pageTableAttributes)
      tmpL2Table (l2Index pt.newL3Pagetable) &&& 1 = 0) :
    mapPageForTableL1 parent pt s = .ok () (s.linkedL1 parent pt) := by
  have h2 := mapPageForTableL2_run (s := (s.loaded parent (l0Index pt.newL3Pagetable)).stored
    parent (l0Index pt.newL3Pagetable) (tmpL1Table ||| pageTableAttributes)) tmpL1Table pt
    htmp1 htmp2
  simp only [mapPageForTableL1, load_bind, hfree, if_true, store_bind, store_run,
    zeroOutPage_bind, bind_run h2, Machine.linkedL1]

/-- The block that the next call takes: the bump pointer rounded up to a page. -/
def Kernel.block (k : Kernel) : Nat := allignAddr k.currentFree pageSize

/-- The four pages of a block as the source names them. -/
def blockTables (block : Nat) : MapNewPageTables :=
  ⟨block, (block + 3 * pageSize) % 2 ^ 64, (block + 2 * pageSize) % 2 ^ 64,
    (block + pageSize) % 2 ^ 64⟩

namespace Machine

def taken (s : Machine) : Machine :=
  s.withFree ((s.block + 4 * 4096) % 2 ^ 64)

/-- The machine after the reads that find level 1, 2, 3 of the block's own tables in turn. -/
def read1 (s : Machine) : Machine := s.taken.loaded l0Table (l0Index s.block)

def read2 (s : Machine) (l1 : Nat) : Machine :=
  (s.read1.loaded l0Table (l0Index s.block)).loaded l1 (l1Index s.block)

def read3 (s : Machine) (l1 l2 : Nat) : Machine :=
  ((s.read2 l1).loaded l1 (l1Index s.block)).loaded l2 (l2Index s.block)

def read4 (s : Machine) (l1 l2 l3 : Nat) : Machine :=
  ((s.read3 l1 l2).loaded l2 (l2Index s.block)).loaded l3 (l3Index s.block)

end Machine

section Fields
variable (s : Machine) (l1 l2 l3 : Nat)

@[simp] theorem taken_mem : s.taken.mem = s.mem := withFree_mem s _
structure Takes (b : Nat) (s s' : Machine) : Prop where
  currentFree : s'.currentFree = (b + 4 * 4096) % 2 ^ 64
  requests : s'.requests = s.requests
  calls : s'.calls = s.calls
  returned : s'.returned = s.returned
  written : ∀ {page i}, Written s page i → Written s' page i

namespace Takes
variable {b : Nat} {s s' : Machine} (h : Takes b s s')
include h

theorem currentFree_eq (room : b + 4 * pageSize ≤ 2 ^ 48) :
    s'.currentFree = b + 4 * pageSize := by
  rw [h.currentFree]
  simp only [pageSize] at room ⊢
  omega

theorem loaded (page : Nat) (i : Index) : Takes b s (s'.loaded page i) :=
  ⟨h.currentFree, h.requests, h.calls, h.returned, fun hw => written_loaded.mpr (h.written hw)⟩

theorem stored (page : Nat) (i : Index) (word : Nat) : Takes b s (s'.stored page i word) :=
  ⟨h.currentFree, h.requests, h.calls, h.returned,
    fun hw => written_stored.mpr (Or.inl (h.written hw))⟩

theorem zeroed (page : Nat) : Takes b s (s'.zeroed page) where
  currentFree := (zeroed_currentFree _ _).trans h.currentFree
  requests := (zeroed_requests _ _).trans h.requests
  calls := (zeroed_calls _ _).trans h.calls
  returned := (zeroed_returned _ _).trans h.returned
  written := fun hw => written_zeroed.mpr (Or.inl (h.written hw))

theorem linkedL3 (parent : Nat) (pt : MapNewPageTables) : Takes b s (s'.linkedL3 parent pt) :=
  (((((h.loaded _ _).stored _ _ _).stored _ _ _).zeroed _).stored _ _ _).stored _ _ _

theorem linkedL2 (parent : Nat) (pt : MapNewPageTables) : Takes b s (s'.linkedL2 parent pt) :=
  (((((h.loaded _ _).stored _ _ _).linkedL3 _ _).stored _ _ _).zeroed _).stored _ _ _

theorem linkedL1 (parent : Nat) (pt : MapNewPageTables) : Takes b s (s'.linkedL1 parent pt) :=
  (((((h.loaded _ _).stored _ _ _).linkedL2 _ _).stored _ _ _).zeroed _).stored _ _ _

end Takes

theorem takes_taken : Takes s.block s s.taken := by
  constructor <;> simp [Machine.taken, Written]

theorem takes_read1 : Takes s.block s s.read1 := (takes_taken s).loaded _ _

theorem takes_read2 : Takes s.block s (s.read2 l1) :=
  ((takes_read1 s).loaded _ _).loaded _ _

theorem takes_read3 : Takes s.block s (s.read3 l1 l2) :=
  ((takes_read2 s l1).loaded _ _).loaded _ _

theorem takes_read4 : Takes s.block s (s.read4 l1 l2 l3) :=
  ((takes_read3 s l1 l2).loaded _ _).loaded _ _

@[simp] theorem read1_mem : s.read1.mem = s.mem := by simp [Machine.read1]
@[simp] theorem read2_mem : (s.read2 l1).mem = s.mem := by simp [Machine.read2]
@[simp] theorem read3_mem : (s.read3 l1 l2).mem = s.mem := by simp [Machine.read3]
@[simp] theorem read4_mem : (s.read4 l1 l2 l3).mem = s.mem := by simp [Machine.read4]

end Fields

theorem blockTables_eq {block : Nat} (room : block + 4 * pageSize ≤ 2 ^ 48) :
    blockTables block =
      ⟨block, block + 3 * pageSize, block + 2 * pageSize, block + 1 * pageSize⟩ := by
  simp only [pageSize] at room
  simp only [blockTables, pageSize, MapNewPageTables.mk.injEq, true_and]
  omega

theorem pallocContinuousBlock_run (s : Machine) :
    pallocContinuousBlock 4 s = .ok s.block s.taken := pallocContinuousBlock_four s

section Paths
variable {s : Machine} {l1 l2 l3 : Nat}

theorem mapPageForPagetable_l1_missing
    (h0 : s.mem l0Table (l0Index s.block) &&& 1 = 0) {s' : Machine}
    (hhelper : mapPageForTableL1 l0Table (blockTables s.block) s.read1 = .ok () s') :
    mapPageForPagetable s = .ok s.block
      ((((s'.stored l0Table (l0Index s.block) ((blockTables s.block).newL1Pagetable |||
        pageTableAttributes)).zeroed tmpL1Table).zeroed tmpL2Table).zeroed tmpL3Table) := by
  have hrun := pallocContinuousBlock_run s
  change mapPageForTableL1 l0Table _ (s.taken.loaded l0Table (l0Index s.block)) = _ at hhelper
  simp only [mapPageForPagetable, bind_run hrun, load_bind, taken_mem, h0, if_true,
    mapPageForTableH]
  simp only [blockTables] at hhelper ⊢
  simp only [bind_run hhelper, store_bind, zeroOutPage_bind, pure_run]

theorem mapPageForPagetable_l2_missing
    (h0 : s.mem l0Table (l0Index s.block) &&& 1 ≠ 0)
    (hl1 : s.mem l0Table (l0Index s.block) &&& addressMask = l1)
    (h1 : s.mem l1 (l1Index s.block) &&& 1 = 0) {s' : Machine}
    (hhelper : mapPageForTableL2 l1 (blockTables s.block) (s.read2 l1) = .ok () s') :
    mapPageForPagetable s = .ok s.block
      (((s'.stored l1 (l1Index s.block) ((blockTables s.block).newL2Pagetable |||
        pageTableAttributes)).zeroed tmpL1Table).zeroed tmpL2Table) := by
  have hrun := pallocContinuousBlock_run s
  simp only [Machine.read2, Machine.read1] at hhelper
  simp only [mapPageForPagetable, bind_run hrun, load_bind, loaded_mem, taken_mem, h0, if_false,
    hl1, h1, if_true, mapPageForTableH]
  simp only [blockTables] at hhelper ⊢
  simp only [bind_run hhelper, store_bind, zeroOutPage_bind, pure_run]

theorem mapPageForPagetable_l3_missing
    (h0 : s.mem l0Table (l0Index s.block) &&& 1 ≠ 0)
    (hl1 : s.mem l0Table (l0Index s.block) &&& addressMask = l1)
    (h1 : s.mem l1 (l1Index s.block) &&& 1 ≠ 0)
    (hl2 : s.mem l1 (l1Index s.block) &&& addressMask = l2)
    (h2 : s.mem l2 (l2Index s.block) &&& 1 = 0) {s' : Machine}
    (hhelper : mapPageForTableL3 l2 (blockTables s.block) (s.read3 l1 l2) = .ok () s') :
    mapPageForPagetable s = .ok s.block
      ((s'.stored l2 (l2Index s.block) ((blockTables s.block).newL3Pagetable |||
        pageTableAttributes)).zeroed tmpL1Table) := by
  have hrun := pallocContinuousBlock_run s
  simp only [Machine.read3, Machine.read2, Machine.read1] at hhelper
  simp only [mapPageForPagetable, bind_run hrun, load_bind, loaded_mem, taken_mem, h0, if_false,
    hl1, h1, hl2, h2, if_true, mapPageForTableH]
  simp only [blockTables] at hhelper ⊢
  simp only [bind_run hhelper, store_bind, zeroOutPage_bind, pure_run]

theorem mapPageForPagetable_present
    (h0 : s.mem l0Table (l0Index s.block) &&& 1 ≠ 0)
    (hl1 : s.mem l0Table (l0Index s.block) &&& addressMask = l1)
    (h1 : s.mem l1 (l1Index s.block) &&& 1 ≠ 0)
    (hl2 : s.mem l1 (l1Index s.block) &&& addressMask = l2)
    (h2 : s.mem l2 (l2Index s.block) &&& 1 ≠ 0)
    (hl3 : s.mem l2 (l2Index s.block) &&& addressMask = l3) :
    mapPageForPagetable s =
      if s.mem l3 (l3Index s.block) &&& 1 = 0 then
        .ok s.block ((s.read4 l1 l2 l3).stored l3 (l3Index s.block) (descriptor 0 s.block))
      else .error .noReturnValue (s.read4 l1 l2 l3) := by
  have hrun := pallocContinuousBlock_run s
  simp only [mapPageForPagetable, bind_run hrun, load_bind, loaded_mem, taken_mem, h0, if_false,
    hl1, h1, hl2, h2, hl3]
  split <;> rfl

end Paths

end SelfmadeOS
