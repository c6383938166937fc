import SelfmadeOS.MappingRuns

/-!
# From boot on

The tables that `init_mmu` starts from satisfy the invariant; every good run from there comes
back with the invariant and with every requested page mapped.
-/

namespace SelfmadeOS
set_option autoImplicit false
open StateRuns Space RadixTree

namespace Machine

def tablesReady (s : Machine) : Machine :=
  let s := (s.zeroed l0Table).zeroed initPageL1
  let s := (s.stored l0Table (l0Index l0Table) (pageTableAttributes ||| initPageL1)).zeroed
    initPageL2
  let s := (s.stored initPageL1 (l1Index l0Table) (pageTableAttributes ||| initPageL2)).zeroed
    initPageL3
  let s := s.stored initPageL2 (l2Index l0Table) (pageTableAttributes ||| initPageL3)
  let s := s.stored initPageL3 0 (pageAttributesForNormalMemory ||| initPageL0)
  let s := s.stored initPageL3 1 (pageAttributesForNormalMemory ||| initPageL1)
  let s := s.stored initPageL3 2 (pageAttributesForNormalMemory ||| initPageL2)
  let s := s.stored initPageL3 3 (pageAttributesForNormalMemory ||| initPageL3)
  let s := s.stored initPageL3 4 (pageAttributesForNormalMemory ||| tmpPage1)
  let s := s.stored initPageL3 5 (pageAttributesForNormalMemory ||| tmpPage2)
  s.stored initPageL3 6 (pageAttributesForNormalMemory ||| tmpPage3)

end Machine

theorem initTables_run (s : Machine) : initTables s = .ok () s.tablesReady := by
  simp only [initTables, zeroOutPage_bind, store_bind, store_run, Machine.tablesReady]

def initWord (page : Nat) (j : Index) : Nat :=
  if page = initPageL3 then if j.val < 7 then descriptor 0 (initPageL0 + 4096 * j) else 0
  else if page = initPageL2 then if j = 0 then initPageL3 + 3 else 0
  else if page = initPageL1 then if j = 1 then initPageL2 + 3 else 0
  else if j = 0 then initPageL1 + 3 else 0

/-- The pages that `init_mmu` uses as tables. -/
def InitTable (page : Nat) : Prop :=
  page = l0Table ∨ page = initPageL1 ∨ page = initPageL2 ∨ page = initPageL3

instance (page : Nat) : Decidable (InitTable page) := instDecidableOr

theorem initTables_distinct : initPageL3 ≠ initPageL2 ∧ initPageL3 ≠ initPageL1 ∧
    initPageL3 ≠ l0Table ∧ initPageL2 ≠ initPageL1 ∧ initPageL2 ≠ l0Table ∧
    initPageL1 ≠ l0Table := by decide

theorem tablesReady_mem (s : Machine) (page : Nat) (j : Index) : s.tablesReady.mem page j =
    if InitTable page then initWord page j else s.mem page j := by
  obtain ⟨h32, h31, h30, h21, h20, h10⟩ := initTables_distinct
  have hi0 : l0Index l0Table = 0 := by decide
  have hi1 : l1Index l0Table = 1 := by decide
  have hi2 : l2Index l0Table = 0 := by decide
  have hw1 : pageTableAttributes ||| initPageL1 = initPageL1 + 3 := by decide
  have hw2 : pageTableAttributes ||| initPageL2 = initPageL2 + 3 := by decide
  have hw3 : pageTableAttributes ||| initPageL3 = initPageL3 + 3 := by decide
  simp only [Machine.tablesReady, stored_mem, zeroed_mem, Mem.set, Mem.zeroPage, hi0, hi1, hi2,
    hw1, hw2, hw3]
  by_cases h3 : page = initPageL3
  · subst page
    by_cases hj : j.val < 7
    · have hcases : j = 0 ∨ j = 1 ∨ j = 2 ∨ j = 3 ∨ j = 4 ∨ j = 5 ∨ j = 6 := by
        simp only [Fin.ext_iff]
        omega
      rcases hcases with rfl | rfl | rfl | rfl | rfl | rfl | rfl <;> rfl
    · have hne : j ≠ 0 ∧ j ≠ 1 ∧ j ≠ 2 ∧ j ≠ 3 ∧ j ≠ 4 ∧ j ≠ 5 ∧ j ≠ 6 := by
        simp only [ne_eq, Fin.ext_iff]
        omega
      simp [hne, hj, initWord, InitTable, h32]
  · simp only [h3, false_and, if_false, initWord, InitTable, or_false]
    grind

/-- What `init_mmu` relies on: no valid entries in two of the temporary pages, and what the
setting assumes of memory. -/
structure Boots (S : Setting) (mem : Mem) : Prop where
  tmp1 : NoEntries mem tmpL1Table
  tmp2 : NoEntries mem tmpL2Table
  zero : S.zeroHeap → ∀ a j, S.layout.kernelEnd ≤ a → a < S.ramEnd → mem a j = 0
  tidy : S.tidy → ∀ j, mem tmpL1Table j = 0 ∧ mem tmpL2Table j = 0 ∧ mem tmpL3Table j = 0

section Ready
variable (L : Layout) (mem : Mem)

def started : Machine := (boot L mem).tablesReady

theorem started_fields : (started L mem).currentFree = L.kernelEnd ∧
    (started L mem).requests = [] ∧ (started L mem).calls = [] ∧
    (started L mem).returned = [] := by
  simp [started, Machine.tablesReady, boot]

theorem started_mem (page : Nat) (j : Index) : (started L mem).mem page j =
    if InitTable page then initWord page j else mem page j := tablesReady_mem _ page j

theorem started_children (i : Index) :
    child (started L mem).mem l0Table i = (if i = 0 then some initPageL1 else none) ∧
    child (started L mem).mem initPageL1 i = (if i = 1 then some initPageL2 else none) ∧
    child (started L mem).mem initPageL2 i = (if i = 0 then some initPageL3 else none) := by
  have hlink : ∀ page next : Nat, ∀ k : Index, IsPage next →
      (started L mem).mem page i = (if i = k then next + 3 else 0) →
      child (started L mem).mem page i = if i = k then some next else none := by
    intro page next k hnext hword
    by_cases hi : i = k
    · rw [if_pos hi] at hword ⊢
      exact child_link hnext hword
    · rw [if_neg hi] at hword ⊢
      exact child_of_invalid (by rw [hword]; rfl)
  refine ⟨hlink _ _ _ (by decide) ?_, hlink _ _ _ (by decide) ?_, hlink _ _ _ (by decide) ?_⟩ <;>
    rw [started_mem, if_pos (by decide)] <;> rfl

theorem started_leaf (i : Index) : leaf (started L mem).mem initPageL3 i =
    if i.val < 7 then some (descriptor 0 (initPageL0 + 4096 * i)) else none := by
  have hword : (started L mem).mem initPageL3 i =
      if i.val < 7 then descriptor 0 (initPageL0 + 4096 * i) else 0 := by
    rw [started_mem, if_pos (by decide)]
    rfl
  by_cases hi : i.val < 7
  · rw [if_pos hi] at hword ⊢
    apply leaf_descriptor 0 _ hword
    simp only [IsPage, initPageL0]
    omega
  · rw [if_neg hi] at hword ⊢
    exact leaf_of_invalid (by rw [hword]; rfl)

theorem started_tables (p : List Index) : (ofMem (started L mem).mem).tables p =
    if p = [] then some l0Table else if p = [0] then some initPageL1
    else if p = [0, 1] then some initPageL2 else if p = [0, 1, 0] then some initPageL3
    else none := by
  have hchild := started_children L mem
  by_cases hp : p.length ≤ 3
  · rw [ofMem_tables hp]
    match p with
    | [] => rfl
    | [a] =>
      rw [descend_cons, (hchild a).1]
      by_cases ha : a = 0 <;> simp [ha]
    | [a, b] =>
      rw [descend_cons, (hchild a).1]
      by_cases ha : a = 0
      · rw [if_pos ha, Option.bind_some, descend_cons, (hchild b).2.1]
        by_cases hb : b = 1 <;> simp [ha, hb]
      · simp [ha]
    | [a, b, c] =>
      rw [descend_cons, (hchild a).1]
      by_cases ha : a = 0
      · rw [if_pos ha, Option.bind_some, descend_cons, (hchild b).2.1]
        by_cases hb : b = 1
        · rw [if_pos hb, Option.bind_some, descend_cons, (hchild c).2.2]
          by_cases hc : c = 0 <;> simp [ha, hb, hc]
        · simp [ha, hb]
      · simp [ha]
  · rw [ofMem_tables_long (by omega)]
    have hne : ∀ q : List Index, q.length ≤ 3 → p ≠ q := fun q hq h => hp (h ▸ hq)
    simp [hne]

theorem started_pages {a : Nat} (ha : IsPage a) : (ofMem (started L mem).mem).pages a =
    if initPageL0 ≤ a ∧ a < kernelStart then some (descriptor 0 a) else none := by
  obtain ⟨haligned, hlt⟩ := ha
  have hpath : tablePath a = [0, 1, 0] ↔ a / 2 ^ 21 = 0x200 := by
    simp only [tablePath, List.cons.injEq, and_true, Fin.ext_iff, l0Index_val, l1Index_val,
      l2Index_val, Fin.val_zero, Fin.val_one]
    omega
  rw [ofMem_pages ⟨haligned, hlt⟩, started_tables, if_neg (by simp [tablePath]),
    if_neg (by simp [tablePath]), if_neg (by simp [tablePath])]
  by_cases h : tablePath a = [0, 1, 0]
  · have hregion := hpath.mp h
    rw [if_pos h, Option.bind_some, started_leaf, l3Index_val]
    by_cases hlow : a / 2 ^ 12 % 512 < 7
    · have hin : initPageL0 ≤ a ∧ a < kernelStart := by
        simp only [initPageL0, kernelStart]
        omega
      have hpage : initPageL0 + 4096 * (a / 2 ^ 12 % 512) = a := by
        simp only [initPageL0]
        omega
      rw [if_pos hlow, if_pos hin, hpage]
    · have hout : ¬ (initPageL0 ≤ a ∧ a < kernelStart) := by
        simp only [initPageL0, kernelStart]
        omega
      rw [if_neg hlow, if_neg hout]
  · have hregion := mt hpath.mpr h
    rw [if_neg h, Option.bind_none, if_neg]
    simp only [initPageL0, kernelStart]
    omega

theorem started_table_cases {p : List Index} {t : Nat}
    (h : (ofMem (started L mem).mem).tables p = some t) :
    (p = [] ∧ t = l0Table ∨ p = [0] ∧ t = initPageL1 ∨ p = [0, 1] ∧ t = initPageL2 ∨
      p = [0, 1, 0] ∧ t = initPageL3) := by
  rw [started_tables] at h
  grind

theorem started_written {page : Nat} (h : InitTable page) (j : Index) :
    Written (started L mem) page j := by
  rcases h with rfl | rfl | rfl | rfl <;> simp [started, Machine.tablesReady]

theorem initWord_low {page : Nat} {j : Index} (h : initWord page j &&& 1 ≠ 0) :
    initWord page j % 4 = 3 := by
  have hslot : ∀ {c : Prop} [Decidable c] {word : Nat}, (c → word % 4 = 3) →
      (if c then word else 0) &&& 1 ≠ 0 → (if c then word else 0) % 4 = 3 := by
    intro c _ word hword hvalid
    split at hvalid
    · rw [if_pos ‹_›]
      exact hword ‹_›
    · exact absurd rfl hvalid
  unfold initWord at h ⊢
  split at h
  · rename_i hpage
    rw [if_pos hpage]
    refine hslot (fun hj => descriptor_low 0 ?_) h
    simp only [IsPage, initPageL0]
    omega
  · rename_i hpage
    rw [if_neg hpage]
    split at h
    · rename_i hpage
      rw [if_pos hpage]
      exact hslot (fun _ => rfl) h
    · rename_i hpage
      rw [if_neg hpage]
      split at h
      · rename_i hpage
        rw [if_pos hpage]
        exact hslot (fun _ => rfl) h
      · rename_i hpage
        rw [if_neg hpage]
        exact hslot (fun _ => rfl) h

variable {L mem}

theorem started_inv {S : Setting} (hL : S.layout = L) (boots : Boots S mem) :
    Inv S (started L mem) := by
  subst hL
  have hstart := kernelStart_lt (S := S)
  have hroom := S.room
  have hother : ∀ f j, ¬ InitTable f → (started S.layout mem).mem f j = mem f j :=
    fun f j hf => (started_mem _ mem f j).trans (if_neg hf)
  have hheap : ∀ a, S.layout.kernelEnd ≤ a → ¬ InitTable a := by
    rintro a ha (rfl | rfl | rfl | rfl) <;>
      simp only [l0Table, initPageL0, initPageL1, initPageL2, initPageL3, kernelStart] at * <;>
        omega
  have hpages : ∀ {a w}, (ofMem (started S.layout mem).mem).pages a = some w →
      (initPageL0 ≤ a ∧ a < kernelStart) ∧ w = descriptor 0 a := by
    intro a w ha
    rw [started_pages _ _ (ofMem_pages_isPage ha)] at ha
    split at ha
    · exact ⟨‹_›, (Option.some.inj ha).symm⟩
    · cases ha
  obtain ⟨hfree, hrequests, -, hreturned⟩ := started_fields S.layout mem
  refine ⟨hfree ▸ S.layout.aligned, hfree.ge, hfree ▸ S.room, ?_, ?_, ?_, ?_, ?_, ?_, ?_, ?_, ?_,
    ?_, ?_⟩
  · intro p q t hp hq
    have h := initTables_distinct
    rcases started_table_cases _ _ hp with ⟨rfl, rfl⟩ | ⟨rfl, rfl⟩ | ⟨rfl, rfl⟩ | ⟨rfl, rfl⟩ <;>
      rcases started_table_cases _ _ hq with ⟨rfl, h'⟩ | ⟨rfl, h'⟩ | ⟨rfl, h'⟩ | ⟨rfl, h'⟩ <;>
      first | rfl | (exfalso; grind)
  · intro p t hp
    rcases started_table_cases _ _ hp with ⟨_, rfl⟩ | ⟨_, rfl⟩ | ⟨_, rfl⟩ | ⟨_, rfl⟩ <;>
      exact ⟨by decide, Or.inl (by decide)⟩
  · intro a w ha
    obtain ⟨hin, rfl⟩ := hpages ha
    have hkind : attrIdxOf S.ramEnd a = 0 := if_pos ⟨hin.1, by omega⟩
    exact ⟨by rw [hkind], Or.inr (Or.inl hin)⟩
  · intro a hge _
    rw [hfree] at hge
    by_contra hsome
    obtain ⟨w, hw⟩ := Option.ne_none_iff_exists'.mp hsome
    obtain ⟨⟨_, hlt⟩, _⟩ := hpages hw
    omega
  · intro p f j hf hvalid
    have htable : InitTable f := by
      rcases started_table_cases _ _ hf with ⟨_, rfl⟩ | ⟨_, rfl⟩ | ⟨_, rfl⟩ | ⟨_, rfl⟩ <;> decide
    have hword := (started_mem S.layout mem f j).trans (if_pos htable)
    rw [hword] at hvalid
    exact ⟨hword.symm ▸ initWord_low hvalid, started_written _ _ htable j⟩
  · intro j
    rw [hother _ j (by decide)]
    exact boots.tmp1 j
  · intro j
    rw [hother _ j (by decide)]
    exact boots.tmp2 j
  · simp [hrequests]
  · intro hzero a j hge hlt
    rw [hfree] at hge
    rw [hother a j (hheap a hge)]
    exact boots.zero hzero a j hge hlt
  · intro _ p t hp
    have ht : IsPage t ∧ initPageL0 ≤ t ∧ t < kernelStart := by
      rcases started_table_cases _ _ hp with ⟨_, rfl⟩ | ⟨_, rfl⟩ | ⟨_, rfl⟩ | ⟨_, rfl⟩ <;> decide
    rw [started_pages _ _ ht.1, if_pos ht.2]
  · intro htidy
    refine ⟨fun j => ?_, by simp [hreturned]⟩
    rw [hother _ j (by decide), hother _ j (by decide), hother _ j (by decide)]
    exact boots.tidy htidy j

end Ready

theorem request_run (s : Machine) (address size attrIdx : Nat) :
    request address size attrIdx s = .ok () (s.requested ⟨address, size, attrIdx⟩) := rfl

theorem mapAddr_run (s : Machine) {address size : Nat} (h : size % 4096 = 0) :
    mapAddr address size s =
      mapLoop 0 (2 ^ 52) size address (s.requested ⟨address, size, 0⟩) := by
  have hsize : ¬ size % pageSize ≠ 0 := not_not_intro h
  rw [mapAddr, if_neg hsize, bind_run (request_run s address size 0)]

theorem registerDeviceMemory_run (s : Machine) {address size : Nat} (h : size < 2 ^ 32) :
    registerDeviceMemory address size s =
      mapLoop 1 (2 ^ 52) size address (s.requested ⟨address, size, 1⟩) := by
  rw [registerDeviceMemory, Nat.mod_eq_of_lt h, bind_run (request_run s address size 1)]

section Operations
variable {S : Setting} {s : Machine} (inv : Inv S s) (served : Served S s)
include inv

/-- Taking pages moves the bump pointer over memory that nothing uses. -/
theorem Inv.withFree {size : Nat} (hsize : size % 4096 = 0)
    (hroom : s.currentFree + size ≤ S.ramEnd) : Inv S (s.withFree (s.currentFree + size)) where
  aligned := by
    have haligned := inv.aligned
    rw [withFree_currentFree]
    omega
  above := le_trans inv.above (Nat.le_add_right _ _)
  below := hroom
  injective := inv.injective
  tables_at := by
    intro p t hp
    refine (inv.tables_at p t hp).imp_right fun h => h.imp_right fun h => ⟨h.1, ?_⟩
    rw [withFree_currentFree]
    omega
  pages_at := inv.pages_at
  free := by
    intro a hge hlt
    rw [withFree_currentFree] at hge
    exact inv.free a (by omega) hlt
  authored := inv.authored
  tmp1 := inv.tmp1
  tmp2 := inv.tmp2
  requests_at := by
    intro r hr
    refine (inv.requests_at r hr).imp_left fun n => ⟨n.attrIdx, n.aligned, n.above, ?_, n.apart⟩
    exact n.below.trans (Nat.le_add_right _ _)
  zero := by
    intro hzero a j hge hlt
    rw [withFree_currentFree] at hge
    exact inv.zero hzero a j (by omega) hlt
  mapped := inv.mapped
  tidy := inv.tidy

theorem Inv.normalRequest (size : Nat) :
    NormalRequest (s.withFree (s.currentFree + size)) ⟨s.currentFree, size, 0⟩ where
  attrIdx := rfl
  aligned := inv.aligned
  above := le_trans kernelStart_lt.le inv.above
  below := le_rfl
  apart := by
    intro p t hp hcovers
    have hlt := (inv.separate hp).1
    exact absurd hcovers.1 (by simpa using hlt)

section Contents
variable {m : Mem} (hm : ∀ page j, ¬Aside s page → m page j = s.mem page j)
include hm

omit inv in
theorem ofMem_aside : ofMem m = ofMem s.mem :=
  ofMem_congr fun p t j hp => hm t j fun haside => haside.noTable p hp

/-- What stands in pages that are no tables does not matter to the mapping code. -/
theorem Inv.withMem : Inv S (s.withMem m) := by
  have hspace : ofMem m = ofMem s.mem := ofMem_aside hm
  have htable : ∀ {p t} j, (ofMem s.mem).tables p = some t → m t j = s.mem t j :=
    fun j hp => hm _ j fun haside => haside.noTable _ hp
  have hlow : ∀ page j, page < kernelStart → m page j = s.mem page j :=
    fun page j hlt => hm page j fun haside => absurd haside.above (Nat.not_le.mpr hlt)
  refine ⟨inv.aligned, inv.above, inv.below, ?_, ?_, ?_, ?_, ?_, ?_, ?_, ?_, ?_, ?_, ?_⟩
  · rw [withMem_mem, hspace]
    exact inv.injective
  · rw [withMem_mem, hspace]
    exact inv.tables_at
  · rw [withMem_mem, hspace]
    exact inv.pages_at
  · rw [withMem_mem, hspace]
    exact inv.free
  · intro p f j hf hvalid
    rw [withMem_mem] at hf hvalid
    rw [hspace] at hf
    rw [htable j hf] at hvalid
    rw [Authored, withMem_mem, htable j hf]
    exact inv.authored p f j hf hvalid
  · intro j
    rw [withMem_mem, hlow _ j (by decide)]
    exact inv.tmp1 j
  · intro j
    rw [withMem_mem, hlow _ j (by decide)]
    exact inv.tmp2 j
  · intro r' hr'
    refine (inv.requests_at r' hr').imp_left fun n => ⟨n.attrIdx, n.aligned, n.above, n.below, ?_⟩
    rw [withMem_mem, hspace]
    exact n.apart
  · intro hzero a j hge hlt
    have hsame := hm a j fun haside => absurd haside.below (Nat.not_lt.mpr hge)
    exact hsame.trans (inv.zero hzero a j hge hlt)
  · rw [withMem_mem, hspace]
    exact inv.mapped
  · intro htidy
    obtain ⟨htemps, hreturned⟩ := inv.tidy htidy
    refine ⟨fun j => ?_, hreturned⟩
    rw [withMem_mem, hlow _ j (by decide), hlow _ j (by decide), hlow _ j (by decide)]
    exact htemps j

end Contents

section Clear
variable {r : Request} (hr : r ∈ s.requests) (hattr : r.attrIdx = 0)
include hr hattr

theorem Inv.block_aside {page : Nat} (hcovers : r.Covers page) : Aside s page := by
  obtain ⟨hge, hlt⟩ := hcovers
  rcases inv.requests_at r hr with normal | device
  · exact ⟨normal.above.trans hge, hlt.trans_le normal.below,
      fun p hp => normal.apart p page hp ⟨hge, hlt⟩⟩
  · rw [device.attrIdx] at hattr
    cases hattr

omit hattr in
theorem Inv.inRange_iff {page : Nat} :
    Mem.InRange r.address r.size page ↔ r.Covers page := by
  have hlimit := inv.request_limit hr
  simp only [addressLimit] at hlimit
  simp only [Mem.InRange, Request.Covers]
  omega

theorem Inv.cleared_mem {page : Nat} (j : Index) (h : ¬Aside s page) :
    (s.cleared r.address r.size).mem page j = s.mem page j := by
  rw [SelfmadeOS.cleared_mem, Mem.clear, if_neg]
  rw [inv.inRange_iff hr]
  exact fun hcovers => h (inv.block_aside hr hattr hcovers)

theorem Inv.cleared_space : ofMem (s.cleared r.address r.size).mem = ofMem s.mem :=
  ofMem_aside fun _ j => inv.cleared_mem hr hattr j

theorem Inv.cleared : Inv S (s.cleared r.address r.size) :=
  inv.withMem fun _ j => inv.cleared_mem hr hattr j

end Clear

omit inv in
include served in
theorem Served.of_space {s' : Machine} (hr : s'.requests = s.requests)
    (hspace : ofMem s'.mem = ofMem s.mem) : Served S s' := by
  intro r hr' page hpage hcovers
  rw [Mapped, hspace]
  exact served r (hr ▸ hr') page hpage hcovers

include served

/-- `kalloc` takes its block off the heap first, then maps it, then clears it. -/
theorem Inv.kalloc_builds (size : Nat) (good : Good S (final (kalloc size s))) :
    ∃ s1, kalloc size s = .ok s.currentFree (s1.cleared s.currentFree (allign size)) ∧
      s.currentFree + allign size ≤ S.ramEnd ∧ Inv S s1 ∧ Served S s1 ∧
      Builds ((s.withFree (s.currentFree + allign size)).requested
        ⟨s.currentFree, allign size, 0⟩) s1 := by
  have haligned := allign_aligned size
  have hidem := allign_idem size
  have hfree : allignAddr s.currentFree pageSize = s.currentFree := inv.block_eq
  have htake := palloc_run s (allign size)
  rw [hidem, hfree] at htake
  rw [kalloc, bind_run htake] at good ⊢
  generalize allign size = size at haligned good ⊢
  have hclear : ∀ adr, Recorded (clearBlock adr size >>= fun _ => (pure adr : KernelM Nat)) :=
    fun adr => (Recorded.clearBlock _ _).bind fun _ => Recorded.pure _
  have hmap := good.first fun _ => hclear _
  rw [mapAddr_run _ haligned] at hmap
  have hroom : s.currentFree + size ≤ S.ramEnd :=
    (hmap.of_extends (Recorded.mapLoop _ _ _ _ _)).requests _
      (List.mem_append_right _ (List.mem_singleton_self _)) rfl
  have hlimit := S.limit
  simp only [addressLimit] at hlimit
  rw [Nat.mod_eq_of_lt (show s.currentFree + size < 2 ^ 64 by omega)] at good hmap ⊢
  obtain ⟨s1, hrun, inv1, served1, builds⟩ := (inv.withFree haligned hroom).mapRange
    (r := ⟨s.currentFree, size, 0⟩) served (Or.inl (inv.normalRequest size)) inv.aligned haligned
    hmap
  refine ⟨s1, ?_, hroom, inv1, served1, builds⟩
  rw [bind_run ((mapAddr_run _ haligned).trans hrun), bind_run (clearBlock_run s1 _ _)]
  rfl

theorem Inv.kalloc_spec (size : Nat) (good : Good S (final (kalloc size s))) :
    ∃ adr s', kalloc size s = .ok adr s' ∧ Inv S s' ∧ Served S s' := by
  obtain ⟨s1, hrun, -, inv1, served1, builds⟩ := inv.kalloc_builds served size good
  have hr : ⟨s.currentFree, allign size, 0⟩ ∈ s1.requests := by
    rw [builds.requests]
    exact List.mem_append_right _ (List.mem_singleton_self _)
  exact ⟨_, _, hrun, inv1.cleared hr rfl, served1.of_space rfl (inv1.cleared_space hr rfl)⟩

theorem Inv.registerDeviceMemory_builds (address size : Nat) (hsize : size < 2 ^ 32)
    (haddress : address % 4096 = 0) (hpages : size % 4096 = 0)
    (hdevice : DeviceRequest S ⟨address, size, 1⟩)
    (good : Good S (final (registerDeviceMemory address size s))) :
    ∃ s', registerDeviceMemory address size s = .ok () s' ∧ Inv S s' ∧ Served S s' ∧
      Builds (s.requested ⟨address, size, 1⟩) s' := by
  rw [SelfmadeOS.registerDeviceMemory_run s hsize] at good ⊢
  exact inv.mapRange (r := ⟨address, size, 1⟩) served (Or.inr hdevice) haddress hpages good

theorem Inv.registerDeviceMemory_spec (address size : Nat) (hsize : size < 2 ^ 32)
    (haddress : address % 4096 = 0) (hpages : size % 4096 = 0)
    (hdevice : DeviceRequest S ⟨address, size, 1⟩)
    (good : Good S (final (registerDeviceMemory address size s))) :
    ∃ s', registerDeviceMemory address size s = .ok () s' ∧ Inv S s' ∧ Served S s' := by
  obtain ⟨s1, hrun, inv1, served1, -⟩ :=
    inv.registerDeviceMemory_builds served address size hsize haddress hpages hdevice good
  exact ⟨s1, hrun, inv1, served1⟩

end Operations

def Op.Legal (ramEnd : Nat) : Op → Prop
  | .kalloc _ => True
  | .registerDeviceMemory address size =>
    address % 4096 = 0 ∧ size % 4096 = 0 ∧ size < 2 ^ 32 ∧
      (address + size ≤ initPageL0 ∨ ramEnd ≤ address) ∧ address + size ≤ addressLimit

section Runs
variable {S : Setting}

theorem Inv.exec_spec {s : Machine} (inv : Inv S s) (served : Served S s) {op : Op}
    (legal : op.Legal S.ramEnd) (good : Good S (final (op.exec s))) :
    ∃ s', op.exec s = .ok () s' ∧ Inv S s' ∧ Served S s' := by
  cases op with
  | kalloc size =>
    obtain ⟨adr, s1, hrun, inv1, served1⟩ := inv.kalloc_spec served size
      (good.first fun _ => Recorded.pure _)
    exact ⟨s1, bind_run hrun, inv1, served1⟩
  | registerDeviceMemory address size =>
    obtain ⟨haddress, hpages, hsize, houtside, hlimit⟩ := legal
    exact inv.registerDeviceMemory_spec served address size hsize haddress hpages
      ⟨rfl, haddress, houtside, hlimit⟩ good

theorem Inv.runOps_spec {ops : List Op} (legal : ∀ op ∈ ops, op.Legal S.ramEnd) {s : Machine}
    (inv : Inv S s) (served : Served S s) (good : Good S (final (runOps ops s))) :
    ∃ s', runOps ops s = .ok () s' ∧ Inv S s' ∧ Served S s' := by
  induction ops generalizing s with
  | nil => exact ⟨s, rfl, inv, served⟩
  | cons op ops ih =>
    obtain ⟨s1, hrun, inv1, served1⟩ := inv.exec_spec served (legal op (List.mem_cons_self ..))
      (good.first fun _ => Recorded.runOps ops)
    rw [runOps, bind_run hrun] at good ⊢
    exact ih (fun op hop => legal op (List.mem_cons_of_mem _ hop)) inv1 served1 good

theorem started_served {L : Layout} {mem : Mem} : Served S (started L mem) := by
  intro r hr
  rw [(started_fields L mem).2.1] at hr
  cases hr

/-- `init_mmu` up to the write of `SCTLR_EL1`. -/
def beforeSctlr (L : Layout) : KernelM Unit := do
  initTables
  mapAddr kernelStart (L.kernelEnd - kernelStart)
  initUart

theorem initMmu_eq (L : Layout) :
    initMmu L = beforeSctlr L >>= fun _ => logMessage "3" := by
  simp only [initMmu, beforeSctlr, bind_assoc]

def initRequests (L : Layout) : List Request :=
  [⟨kernelStart, L.kernelEnd - kernelStart, 0⟩, ⟨0x9000000, pageSize, 1⟩]

/-- `init_mmu` maps the kernel image and the UART, and keeps what its own tables map. -/
theorem beforeSctlr_spec {mem : Mem} (boots : Boots S mem)
    (good : Good S (final (beforeSctlr S.layout (boot S.layout mem)))) :
    ∃ s', beforeSctlr S.layout (boot S.layout mem) = .ok () s' ∧ Inv S s' ∧ Served S s' ∧
      s'.requests = initRequests S.layout ∧
      Stacked S.layout.kernelEnd s'.calls s'.currentFree ∧
      ∀ a w, (ofMem (started S.layout mem).mem).pages a = some w →
        (ofMem s'.mem).pages a = some w := by
  have hstart := kernelStart_lt (S := S)
  have haligned := S.layout.aligned
  have hsize : (S.layout.kernelEnd - kernelStart) % 4096 = 0 := by
    simp only [kernelStart] at hstart ⊢
    omega
  have inv := started_inv rfl boots
  obtain ⟨hfree, hrequests, hcalls, -⟩ := started_fields S.layout mem
  have hkernel : NormalRequest (started S.layout mem)
      ⟨kernelStart, S.layout.kernelEnd - kernelStart, 0⟩ := by
    refine ⟨rfl, (by decide : kernelStart % 4096 = 0), le_rfl, ?_, fun p t hp hcovers => ?_⟩
    · rw [hfree]
      exact (Nat.add_sub_cancel' hstart.le).le
    · have hlow : t < kernelStart := by
        rcases started_table_cases _ _ hp with ⟨_, rfl⟩ | ⟨_, rfl⟩ | ⟨_, rfl⟩ | ⟨_, rfl⟩ <;> decide
      exact absurd hcovers.1 (by simpa using hlow)
  have huart : Recorded initUart := Recorded.registerDeviceMemory _ _
  rw [beforeSctlr, bind_run (initTables_run _)] at good ⊢
  have hmap := good.first fun _ => huart
  rw [mapAddr_run _ hsize] at hmap
  obtain ⟨s1, hrun, inv1, served1, adds1⟩ := inv.mapRange
    (r := ⟨kernelStart, S.layout.kernelEnd - kernelStart, 0⟩) started_served (Or.inl hkernel)
    (by decide : kernelStart % 4096 = 0) hsize hmap
  have hmapped : mapAddr kernelStart (S.layout.kernelEnd - kernelStart)
      (started S.layout mem) = .ok () s1 := (mapAddr_run _ hsize).trans hrun
  change Good S (final ((mapAddr _ _ >>= _) (started S.layout mem))) at good
  change ∃ s', (mapAddr _ _ >>= _) (started S.layout mem) = _ ∧ _
  rw [bind_run hmapped, initUart, registerDeviceMemory_run _ (by decide)] at good ⊢
  obtain ⟨s2, hrun2, inv2, served2, adds2⟩ := inv1.mapRange (r := ⟨0x9000000, pageSize, 1⟩) served1
    (Or.inr ⟨rfl, by decide, Or.inl (by decide), by decide⟩) (by decide) (by decide) good
  refine ⟨s2, hrun2, inv2, served2, ?_, ?_, fun a w ha => adds2.pages a w (adds1.pages a w ha)⟩
  · rw [adds2.requests, requested_requests, adds1.requests, requested_requests, hrequests]
    rfl
  · obtain ⟨cs1, hcalls1, hstacked1⟩ := adds1.blocks
    obtain ⟨cs2, hcalls2, hstacked2⟩ := adds2.blocks
    rw [requested_calls, hcalls, List.nil_append] at hcalls1
    rw [hcalls2, requested_calls, hcalls1]
    rw [requested_toKernel, hfree] at hstacked1
    exact hstacked1.append hstacked2

theorem initMmu_spec {mem : Mem} (boots : Boots S mem)
    (good : Good S (final (initMmu S.layout (boot S.layout mem)))) :
    ∃ s', initMmu S.layout (boot S.layout mem) = .ok () s' ∧ Inv S s' ∧ Served S s' := by
  rw [initMmu_eq] at good ⊢
  obtain ⟨s, hrun, inv, served, -⟩ :=
    beforeSctlr_spec boots (good.first fun _ => Recorded.logMessage "3")
  exact ⟨s.logged "3", bind_run hrun, inv.logged "3", served.of_space rfl rfl⟩

theorem initMmu_stacked {mem : Mem} (boots : Boots S mem)
    (good : Good S (final (initMmu S.layout (boot S.layout mem)))) {s' : Machine}
    (hrun : initMmu S.layout (boot S.layout mem) = .ok () s') :
    Stacked S.layout.kernelEnd s'.calls s'.currentFree := by
  rw [initMmu_eq] at good hrun
  obtain ⟨s, hfirst, -, -, -, hstacked, -⟩ :=
    beforeSctlr_spec boots (good.first fun _ => Recorded.logMessage "3")
  rw [bind_run hfirst] at hrun
  obtain ⟨-, rfl⟩ := EStateM.Result.ok.inj hrun
  exact hstacked

theorem run_spec {mem : Mem} (boots : Boots S mem) {ops : List Op}
    (legal : ∀ op ∈ ops, op.Legal S.ramEnd)
    (good : Good S (final (run S.layout ops (boot S.layout mem)))) :
    ∃ s', run S.layout ops (boot S.layout mem) = .ok () s' ∧ Inv S s' ∧ Served S s' := by
  obtain ⟨s1, hrun, inv1, served1⟩ := initMmu_spec boots (good.first fun _ => Recorded.runOps ops)
  rw [run, bind_run hrun] at good ⊢
  exact inv1.runOps_spec legal served1 good

end Runs

/-- A run whose device ranges are legal and whose heap lasts: every requested range and every
block of tables ends inside RAM. -/
structure RamRun (L : Layout) (ramEnd : Nat) (mem : Mem) (ops : List Op) : Prop where
  heap : L.kernelEnd ≤ ramEnd
  limit : ramEnd ≤ addressLimit
  legal : ∀ op ∈ ops, op.Legal ramEnd
  requests : ∀ r ∈ (final (run L ops (boot L mem))).requests,
    r.attrIdx = 0 → r.address + r.size ≤ ramEnd
  blocks : ∀ c ∈ (final (run L ops (boot L mem))).calls,
    c.before.block + 4 * pageSize ≤ ramEnd

/-- The temporary pages and the heap hold nothing at boot. -/
def ZeroRam (L : Layout) (ramEnd : Nat) (mem : Mem) : Prop :=
  ∀ page j, tmpPage1 ≤ page ∧ page < kernelStart ∨ L.kernelEnd ≤ page ∧ page < ramEnd →
    mem page j = 0

/-- Each block lies in one region, or needs no table of its own region. -/
def BlockFits (c : TableCall) : Prop := OneRegion c.before.block ∨ c.before.HasTable 3

/-- Memory that is zero at boot is all that the invariant asks of it. -/
theorem ZeroRam.boots {S : Setting} {mem : Mem} (hzero : ZeroRam S.layout S.ramEnd mem)
    (htidy : ¬ S.tidy) : Boots S mem := by
  have htmp : ∀ page, tmpPage1 ≤ page → page < kernelStart → NoEntries mem page := by
    intro page hge hlt j
    rw [hzero page j (Or.inl ⟨hge, hlt⟩)]
    rfl
  refine ⟨htmp _ (by decide) (by decide), htmp _ (by decide) (by decide), ?_, (absurd · htidy)⟩
  exact fun _ a j hge hlt => hzero a j (Or.inr ⟨hge, hlt⟩)

section RamRun
variable {L : Layout} {ramEnd : Nat} {mem : Mem} {ops : List Op}

def RamRun.setting (h : RamRun L ramEnd mem ops) (zeroHeap noOwnSlot tidy : Prop) : Setting :=
  ⟨L, ramEnd, h.heap, h.limit, zeroHeap, noOwnSlot, tidy⟩

theorem RamRun.spec (h : RamRun L ramEnd mem ops) {zeroHeap noOwnSlot tidy : Prop}
    (boots : Boots (h.setting zeroHeap noOwnSlot tidy) mem)
    (hcalls : ∀ c ∈ (final (run L ops (boot L mem))).calls, BlockFits c ∧
      (zeroHeap ∨ NoEntries c.before.mem c.before.block) ∧ (noOwnSlot → ¬ OwnSlot c) ∧
      (tidy → c.before.HasTable 3 ∨ ¬ c.before.HasTable 1)) :
    ∃ s, run L ops (boot L mem) = .ok () s ∧
      Inv (h.setting zeroHeap noOwnSlot tidy) s ∧ Served (h.setting zeroHeap noOwnSlot tidy) s := by
  have good : Good (h.setting zeroHeap noOwnSlot tidy) (final (run L ops (boot L mem))) := by
    refine ⟨fun c hc => ?_, h.requests⟩
    obtain ⟨hfits, hclean, hslot, htidy⟩ := hcalls c hc
    exact ⟨h.blocks c hc, hfits, hclean, hslot, htidy⟩
  exact run_spec boots h.legal good

theorem RamRun.boots_zero (h : RamRun L ramEnd mem ops) (hzero : ZeroRam L ramEnd mem)
    (noOwnSlot : Prop) : Boots (h.setting True noOwnSlot False) mem :=
  hzero.boots id

end RamRun

end SelfmadeOS
