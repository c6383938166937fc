import SelfmadeOS.SelfMapping
import SelfmadeOS.IdentityMapping

/-!
# Faults while tables are built

`map_page_for_pagetable` reaches the tables it edits through the tables themselves, so each of
its loads and stores needs a translation in the memory of that very step.
-/

namespace SelfmadeOS
set_option autoImplicit false
open StateRuns Space

def Access.address (a : Access) : Nat := a.page + 8 * a.index

/-- The tables, as they stand at the access, translate its address to itself. -/
def Access.Hits (a : Access) : Prop :=
  ∃ t, translate a.mem a.address = some t ∧ t.address = a.address

def IdentityPage (m : Mem) (page : Nat) : Prop :=
  ∀ offset, offset < 4096 →
    ∃ t, translate m (page + offset) = some t ∧ t.address = page + offset

/-- The state that the function relies on: tables and temporary pages are mapped to themselves,
the temporary pages are clean, and the next block is not mapped. -/
structure Prepared (k : Kernel) : Prop where
  tables : ∀ p t, (ofMem k.mem).tables p = some t → IdentityPage k.mem t
  temporaries : ∀ t ∈ [tmpL1Table, tmpL2Table, tmpL3Table], IdentityPage k.mem t
  clean : TemporariesClean k
  descriptors : OnlyDescriptors k.mem
  unmapped : ∀ page, k.block ≤ page → page < k.block + 4 * pageSize → translate k.mem page = none

def tableAccesses (k : Kernel) : List Access :=
  (final (mapPageForPagetable ⟨k, [], [], [], [], []⟩)).accesses

def Dead (m : Mem) (page : Nat) : Prop := ∀ p, (ofMem m).tables p ≠ some page

def KeepsEntries (m m' : Mem) : Prop :=
  ∀ p table j, (ofMem m).tables p = some table → m table j &&& 1 ≠ 0 → m' table j = m table j

theorem live_next {m : Mem} {p : List Index} {table : Nat} (i : Index) (hp : p.length ≤ 2)
    (h : (ofMem m).tables p = some table) (hvalid : m table i &&& 1 ≠ 0) :
    (ofMem m).tables (p ++ [i]) = some (m table i &&& addressMask) := by
  rw [ofMem_concat i hp, h, Option.bind_some, child, if_neg hvalid]

theorem no_next {m : Mem} {p : List Index} {table : Nat} {i : Index} (hp : p.length ≤ 2)
    (h : (ofMem m).tables p = some table) (hinvalid : m table i &&& 1 = 0) :
    (ofMem m).tables (p ++ [i]) = none := by
  rw [ofMem_concat i hp, h, Option.bind_some, child, if_pos hinvalid]

theorem valid_of_type {word : Nat} (h : word &&& 3 = 3 ∨ word &&& 3 = 1) : word &&& 1 ≠ 0 := by
  rw [and_three] at h
  rw [and_one]
  omega

section Keeps
variable {m m' : Mem} {va : Nat} {t : Translation}

theorem translateL3_kept {table : Nat} (kept : ∀ j, m table j &&& 1 ≠ 0 → m' table j = m table j)
    (h : translateL3 m table va = some t) : translateL3 m' table va = some t := by
  unfold translateL3 at h ⊢
  by_cases h3 : m table (l3Index va) &&& 3 = 3
  · rw [kept _ (valid_of_type (Or.inl h3))]
    exact h
  · simp only [h3, if_false, reduceCtorEq] at h

variable (kept : KeepsEntries m m')
include kept

theorem translateL2_kept {p : List Index} {table : Nat} (hp : p.length ≤ 2)
    (hlive : (ofMem m).tables p = some table) (h : translateL2 m table va = some t) :
    translateL2 m' table va = some t := by
  unfold translateL2 at h ⊢
  by_cases h3 : m table (l2Index va) &&& 3 = 3
  · have hvalid := valid_of_type (Or.inl h3)
    simp only [h3, if_true, kept _ _ _ hlive hvalid] at h ⊢
    exact translateL3_kept (fun j => kept _ _ j (live_next _ hp hlive hvalid)) h
  · by_cases h1 : m table (l2Index va) &&& 3 = 1
    · simp only [h1, if_true, kept _ _ _ hlive (valid_of_type (Or.inr h1))] at h ⊢
      exact h
    · simp only [h3, h1, if_false, reduceCtorEq] at h

theorem translateL1_kept {p : List Index} {table : Nat} (hp : p.length ≤ 1)
    (hlive : (ofMem m).tables p = some table) (h : translateL1 m table va = some t) :
    translateL1 m' table va = some t := by
  unfold translateL1 at h ⊢
  by_cases h3 : m table (l1Index va) &&& 3 = 3
  · have hvalid := valid_of_type (Or.inl h3)
    simp only [h3, if_true, kept _ _ _ hlive hvalid] at h ⊢
    exact translateL2_kept kept (by simp only [List.length_append, List.length_singleton]; omega)
      (live_next _ (by omega) hlive hvalid) h
  · by_cases h1 : m table (l1Index va) &&& 3 = 1
    · simp only [h1, if_true, kept _ _ _ hlive (valid_of_type (Or.inr h1))] at h ⊢
      exact h
    · simp only [h3, h1, if_false, reduceCtorEq] at h

/-- What is translated stays translated as long as the valid entries stay. -/
theorem translate_kept (h : translate m va = some t) : translate m' va = some t := by
  have hva := translate_limit h
  unfold translate at h ⊢
  by_cases h3 : m l0Table (l0Index va) &&& 3 = 3
  · have hvalid := valid_of_type (Or.inl h3)
    simp only [hva, h3, if_true, kept _ _ _ (ofMem_root m) hvalid] at h ⊢
    exact translateL1_kept kept (by simp) (live_next (p := []) _ (by simp) (ofMem_root m) hvalid) h
  · simp only [hva, h3, if_true, if_false, reduceCtorEq] at h

theorem IdentityPage.of_keeps {page : Nat} (h : IdentityPage m page) : IdentityPage m' page := by
  intro offset hoffset
  obtain ⟨t, ht, heq⟩ := h offset hoffset
  exact ⟨t, translate_kept kept ht, heq⟩

theorem KeepsEntries.set {page : Nat} {i : Index} {word : Nat}
    (hslot : ∀ p, (ofMem m).tables p = some page → m page i &&& 1 = 0) :
    KeepsEntries m (m'.set page i word) := by
  intro p table j hlive hvalid
  rw [Mem.set_other, kept p table j hlive hvalid]
  rintro ⟨rfl, rfl⟩
  exact hvalid (hslot p hlive)

theorem KeepsEntries.zeroAt {page : Nat} {indices : List Index} (hdead : Dead m page) :
    KeepsEntries m (m'.zeroAt page indices) := by
  intro p table j hlive hvalid
  rw [Mem.zeroAt, if_neg, kept p table j hlive hvalid]
  rintro ⟨rfl, -⟩
  exact hdead p hlive

end Keeps

/-- All accesses so far hit, and memory keeps the entries of `m`. -/
structure Safe (m : Mem) (s : Machine) : Prop where
  hits : ∀ a ∈ s.accesses, a.Hits
  keeps : KeepsEntries m s.mem

theorem IdentityPage.hits {m : Mem} {page : Nat} (h : IdentityPage m page) (i : Index)
    (write : Bool) : Access.Hits ⟨m, page, i, write⟩ := h (8 * i) (by omega)

namespace Safe
variable {m : Mem} {s : Machine} (h : Safe m s) {page : Nat} {i : Index}
include h

theorem identityPage (hpage : IdentityPage m page) : IdentityPage s.mem page :=
  hpage.of_keeps h.keeps

theorem loaded (hpage : IdentityPage s.mem page) : Safe m (s.loaded page i) where
  hits := by
    intro a ha
    rcases List.mem_append.mp ha with ha | ha
    · exact h.hits a ha
    · rw [List.mem_singleton.mp ha]
      exact hpage.hits i false
  keeps := h.keeps

theorem stored (word : Nat) (hpage : IdentityPage s.mem page)
    (hslot : ∀ p, (ofMem m).tables p = some page → m page i &&& 1 = 0) :
    Safe m (s.stored page i word) where
  hits := by
    intro a ha
    rcases List.mem_append.mp ha with ha | ha
    · exact h.hits a ha
    · rw [List.mem_singleton.mp ha]
      exact hpage.hits i true
  keeps := h.keeps.set hslot

theorem zeroedAt (hdead : Dead m page) (indices : List Index)
    (hpage : ∀ done, IdentityPage (s.mem.zeroAt page done) page) :
    Safe m (s.zeroedAt page indices) := by
  induction indices generalizing s with
  | nil => exact h
  | cons i is ih =>
    have hfirst := hpage []
    rw [Mem.zeroAt_nil] at hfirst
    apply ih (h.stored (i := i) 0 hfirst fun p hp => absurd hp (hdead p))
    intro done
    rw [stored_mem, Mem.zeroAt_set]
    exact hpage (i :: done)

theorem zeroed (hdead : Dead m page)
    (hpage : ∀ done, IdentityPage (s.mem.zeroAt page done) page) : Safe m (s.zeroed page) :=
  h.zeroedAt hdead _ hpage

end Safe

theorem mem_zeroedAt {s : Machine} {a : Access} (page : Nat) (indices : List Index)
    (h : a ∈ s.accesses) : a ∈ (s.zeroedAt page indices).accesses := by
  induction indices generalizing s with
  | nil => exact h
  | cons i is ih => exact ih (List.mem_append_left _ h)

theorem mem_zeroedAt_cons (s : Machine) (page : Nat) (i : Index) (indices : List Index) :
    ⟨s.mem, page, i, true⟩ ∈ (s.zeroedAt page (i :: indices)).accesses :=
  mem_zeroedAt (s := s.stored page i 0) page indices
    (List.mem_append_right _ (List.mem_singleton_self _))

theorem mem_zeroed (s : Machine) (page : Nat) :
    ⟨s.mem, page, 0, true⟩ ∈ (s.zeroed page).accesses := by
  have hcons : List.finRange 512 = 0 :: (List.finRange 511).map Fin.succ := List.finRange_succ
  rw [Machine.zeroed, hcons]
  exact mem_zeroedAt_cons s page 0 _

theorem not_hits {m : Mem} {page : Nat} (write : Bool) (h : translate m page = none) :
    ¬ Access.Hits ⟨m, page, 0, write⟩ := by
  rintro ⟨t, ht, -⟩
  rw [Access.address, Fin.val_zero, Nat.mul_zero, Nat.add_zero, h] at ht
  cases ht

namespace OneRegion
variable {b : Nat} (region : OneRegion b)
include region

theorem index_eq {x : Nat} (hx : x < 4 * pageSize) : l0Index (b + x) = l0Index b ∧
    l1Index (b + x) = l1Index b ∧ l2Index (b + x) = l2Index b := by
  simp only [OneRegion, blockSizeL2, pageSize] at region hx
  simp only [Fin.ext_iff, l0Index_val, l1Index_val, l2Index_val]
  omega

omit region in
theorem l3Index_ne : l3Index (b + 2 * pageSize) ≠ l3Index (b + 3 * pageSize) := by
  simp only [ne_eq, Fin.ext_iff, l3Index_val, pageSize]
  omega

theorem tables_eq (hlt : b < 2 ^ 64) : (blockTables b).newPagetable = b ∧
    (blockTables b).newL3Pagetable = b + 3 * pageSize ∧
    (blockTables b).newL2Pagetable = b + 2 * pageSize := by
  simp only [OneRegion, blockSizeL2, pageSize] at region
  simp only [blockTables, pageSize, true_and]
  omega

end OneRegion

section LinkedL3
variable (r : Machine) {parent f : Nat} {pt : MapNewPageTables}

theorem linkedL3_other {j : Index} (hf : f ≠ pt.newL3Pagetable) (h3 : f ≠ tmpL3Table)
    (hslot : ¬ (f = parent ∧ j = l2Index pt.newL3Pagetable)) :
    (r.linkedL3 parent pt).mem f j = r.mem f j := by
  simp only [Machine.linkedL3, stored_mem, zeroed_mem, loaded_mem, Mem.set, Mem.zeroPage, hf, h3,
    hslot, false_and, if_false]

theorem linkedL3_slot (pt : MapNewPageTables) (hparent : parent ≠ pt.newL3Pagetable)
    (h3 : parent ≠ tmpL3Table) :
    (r.linkedL3 parent pt).mem parent (l2Index pt.newL3Pagetable) =
      tmpL3Table ||| pageTableAttributes := by
  simp only [Machine.linkedL3, stored_mem, zeroed_mem, loaded_mem, Mem.set, Mem.zeroPage, hparent,
    h3, false_and, if_false, and_self, if_true]

theorem linkedL3_tmp {j : Index} (h3 : tmpL3Table ≠ pt.newL3Pagetable)
    (hparent : tmpL3Table ≠ parent) (hj : j ≠ l3Index pt.newL3Pagetable) :
    (r.linkedL3 parent pt).mem tmpL3Table j = r.mem tmpL3Table j := by
  simp only [Machine.linkedL3, stored_mem, zeroed_mem, loaded_mem, Mem.set, Mem.zeroPage, h3,
    hparent, hj, false_and, and_false, if_false]

end LinkedL3

structure Apart (b l1 : Nat) : Prop where
  root : b + 3 * pageSize ≠ l0Table
  table : b + 3 * pageSize ≠ l1
  tmp2 : b + 3 * pageSize ≠ tmpL2Table
  tmp3 : b + 3 * pageSize ≠ tmpL3Table

/-- The level-2 helper clears the new L2 page while only the new L3 page is mapped. -/
theorem linkedL2_misses {s : Machine} {b : Nat} (parent : Nat) (region : OneRegion b)
    (hlt : b < 2 ^ 64) (apart : Apart b parent) (hlink : Links s.mem l0Table (l0Index b) parent)
    (hslot : ¬ (l0Table = parent ∧ l0Index b = l1Index b)) (h2 : parent ≠ tmpL2Table)
    (h3 : parent ≠ tmpL3Table) (hzero : ∀ j, s.mem tmpL3Table j = 0) :
    ∃ a ∈ (s.linkedL2 parent (blockTables b)).accesses, ¬ a.Hits := by
  obtain ⟨-, hn3, hn2⟩ := region.tables_eq hlt
  obtain ⟨-, hi1, hi2⟩ := region.index_eq (x := 3 * pageSize) (by decide)
  have hconst : tmpL2Table ≠ tmpL3Table ∧ l0Table ≠ tmpL3Table ∧ l0Table ≠ tmpL2Table := by decide
  obtain ⟨r, hr⟩ : ∃ r, r = (s.loaded parent (l1Index b)).stored parent (l1Index b)
      (tmpL2Table ||| pageTableAttributes) := ⟨_, rfl⟩
  have hrmem : r.mem = s.mem.set parent (l1Index b) (tmpL2Table ||| pageTableAttributes) := by
    rw [hr, stored_mem, loaded_mem]
  obtain ⟨u, hu⟩ : ∃ u, u = (r.linkedL3 tmpL2Table (blockTables b)).stored (b + 3 * pageSize)
      (l3Index (b + 2 * pageSize)) (pageAttributesForNormalMemory ||| (b + 2 * pageSize)) :=
    ⟨_, rfl⟩
  have hkept : ∀ f j, f ≠ b + 3 * pageSize → u.mem f j =
      (r.linkedL3 tmpL2Table (blockTables b)).mem f j := by
    intro f j hf
    rw [hu, stored_mem, Mem.set_other _ _ fun h => hf h.1]
  have hl0 : u.mem l0Table (l0Index b) = s.mem l0Table (l0Index b) := by
    rw [hkept _ _ apart.root.symm, linkedL3_other _ (hn3 ▸ apart.root.symm) hconst.2.1
      fun h => hconst.2.2 h.1, hrmem, Mem.set_other _ _ hslot]
  have hl1 : u.mem parent (l1Index b) = tmpL2Table ||| pageTableAttributes := by
    rw [hkept _ _ apart.table.symm, linkedL3_other _ (hn3 ▸ apart.table.symm) h3
      fun h => h2 h.1, hrmem, Mem.set_same]
  have hl2 : u.mem tmpL2Table (l2Index b) = tmpL3Table ||| pageTableAttributes := by
    have hlinked := linkedL3_slot r (blockTables b) (hn3 ▸ apart.tmp2.symm) hconst.1
    rw [hn3, hi2] at hlinked
    rw [hkept _ _ apart.tmp2.symm, hlinked]
  have hl3 : u.mem tmpL3Table (l3Index (b + 2 * pageSize)) = 0 := by
    rw [hkept _ _ apart.tmp3.symm, linkedL3_tmp _ (hn3 ▸ apart.tmp3.symm) hconst.1.symm
      (hn3 ▸ OneRegion.l3Index_ne), hrmem, Mem.set_other _ _ fun h => h3 h.1.symm, hzero]
  have hnone : translate u.mem (b + 2 * pageSize) = none := by
    by_cases hva : b + 2 * pageSize < addressLimit
    · obtain ⟨hj0, hj1, hj2⟩ := region.index_eq (x := 2 * pageSize) (by decide)
      rw [translate_links hva (hj0 ▸ hlink.congr hl0)
        (hj1 ▸ links_of_eq (by decide : IsPage tmpL2Table) hl1)
        (hj2 ▸ links_of_eq (by decide : IsPage tmpL3Table) hl2), translateL3, hl3]
      rfl
    · rw [translate, if_neg hva]
  refine ⟨⟨u.mem, b + 2 * pageSize, 0, true⟩, ?_, not_hits _ hnone⟩
  have hmem : ⟨u.mem, b + 2 * pageSize, 0, true⟩ ∈ (u.zeroed (b + 2 * pageSize)).accesses :=
    mem_zeroed u _
  have hfinal : s.linkedL2 parent (blockTables b) = (u.zeroed (b + 2 * pageSize)).stored
      (b + 2 * pageSize) (l2Index (b + 3 * pageSize))
      (b + 3 * pageSize ||| pageTableAttributes) := by
    rw [Machine.linkedL2, hn3, hn2, hi1, hu, hr]
  rw [hfinal]
  exact List.mem_append_left _ hmem

theorem linkedL3_misses {s : Machine} {b : Nat} (parent : Nat) (region : OneRegion b)
    (hlt : b < 2 ^ 64) (hhigh : addressLimit ≤ b) :
    ∃ a ∈ (s.linkedL3 parent (blockTables b)).accesses, ¬ a.Hits := by
  obtain ⟨-, hn3, -⟩ := region.tables_eq hlt
  refine ⟨_, List.mem_append_left _ (List.mem_append_left _ (mem_zeroed _ _)), not_hits _ ?_⟩
  rw [hn3, translate, if_neg]
  omega

theorem identityPage_of_links {m : Mem} {page l1 l2 l3 : Nat} (haligned : page % 4096 = 0)
    (hlow : page < addressLimit) (h0 : Links m l0Table (l0Index page) l1)
    (h1 : Links m l1 (l1Index page) l2) (h2 : Links m l2 (l2Index page) l3)
    (h3 : m l3 (l3Index page) = descriptor 0 page) : IdentityPage m page := by
  intro offset hoffset
  have hva : page + offset < addressLimit := by
    simp only [addressLimit] at hlow ⊢
    omega
  have hpageOf : pageOf (page + offset) = page := by
    simp only [pageOf]
    omega
  have hpath := tablePath_pageOf (page + offset)
  have hindex := l3Index_pageOf (page + offset)
  rw [hpageOf] at hpath hindex
  simp only [tablePath, List.cons.injEq, and_true] at hpath
  have hword : m l3 (l3Index (page + offset)) = descriptor 0 (pageOf (page + offset)) := by
    rw [← hindex, hpageOf, h3]
  refine ⟨⟨page + offset, attributesOf 0⟩, ?_, rfl⟩
  rw [translate_links hva (hpath.1 ▸ h0) (hpath.2.1 ▸ h1) (hpath.2.2 ▸ h2), translateL3]
  simp only [hword, mapped_descriptor hva]
  rw [if_pos]
  rw [and_three]
  exact descriptor_low 0 (pageOf_isPage hva)

theorem identityPage_through {m : Mem} {b l1 l2 : Nat} (region : OneRegion b)
    (haligned : b % 4096 = 0) (hlow : b < addressLimit) (h0 : Links m l0Table (l0Index b) l1)
    (h1 : Links m l1 (l1Index b) l2)
    (h2 : m l2 (l2Index b) = tmpL3Table ||| pageTableAttributes)
    (h3 : m tmpL3Table (l3Index (b + 3 * pageSize)) = descriptor 0 (b + 3 * pageSize)) :
    IdentityPage m (b + 3 * pageSize) := by
  obtain ⟨hi0, hi1, hi2⟩ := region.index_eq (x := 3 * pageSize) (by decide)
  have hpages := region
  simp only [OneRegion, blockSizeL2, pageSize] at hpages
  simp only [addressLimit] at hlow
  rw [← hi0] at h0
  rw [← hi1] at h1
  rw [← hi2] at h2
  have hlink : Links m l2 (l2Index (b + 3 * pageSize)) tmpL3Table := links_of_eq (by decide) h2
  refine identityPage_of_links ?_ ?_ h0 h1 hlink h3
  · simp only [pageSize]
    omega
  · simp only [pageSize, addressLimit]
    omega

theorem block_lt (k : Kernel) : k.block < 2 ^ 64 := by
  rw [Kernel.block, allignAddr_eq]
  omega

namespace Prepared
variable {k : Kernel} (prepared : Prepared k)
include prepared

theorem ne_mapped {x page : Nat} (hx : x < 4 * pageSize) (hpage : IdentityPage k.mem page) :
    k.block + x ≠ page := by
  rintro rfl
  obtain ⟨t, ht, -⟩ := hpage 0 (by decide)
  rw [Nat.add_zero, prepared.unmapped _ (Nat.le_add_right _ _) (Nat.add_lt_add_left hx _)] at ht
  cases ht

theorem dead {x : Nat} (hx : x < 4 * pageSize) : Dead k.mem (k.block + x) :=
  fun p hp => prepared.ne_mapped hx (prepared.tables p _ hp) rfl

theorem apart {l1 : Nat} (hl1 : IdentityPage k.mem l1) : Apart k.block l1 where
  root := prepared.ne_mapped (by decide) (prepared.tables [] _ (ofMem_root _))
  table := prepared.ne_mapped (by decide) hl1
  tmp2 := prepared.ne_mapped (by decide) (prepared.temporaries _ (by simp))
  tmp3 := prepared.ne_mapped (by decide) (prepared.temporaries _ (by simp))

theorem links {p : List Index} {table : Nat} {i : Index}
    (hlive : (ofMem k.mem).tables p = some table) (hvalid : k.mem table i &&& 1 ≠ 0) :
    Links k.mem table i (k.mem table i &&& addressMask) := by
  refine ⟨?_, rfl⟩
  rw [and_three]
  exact prepared.descriptors p table i hlive hvalid

theorem dead_tmp {t : Nat} (ht : t ∈ [tmpL1Table, tmpL2Table, tmpL3Table]) : Dead k.mem t := by
  intro p hp
  obtain ⟨h1, h2, h3⟩ := prepared.clean.1 p t hp
  simp only [List.mem_cons, List.not_mem_nil, or_false] at ht
  exact ht.elim h1 fun ht => ht.elim h2 h3

/-- The level-3 helper makes the new L3 page visible before it writes to it. -/
theorem linkedL3_safe (region : OneRegion k.block) (hlow : k.block < addressLimit) {s : Machine}
    (h : Safe k.mem s) {l1 l2 : Nat} {p1 p2 : List Index}
    (hlive1 : (ofMem k.mem).tables p1 = some l1) (hlive2 : (ofMem k.mem).tables p2 = some l2)
    (hl1 : Links k.mem l0Table (l0Index k.block) l1) (hl2 : Links k.mem l1 (l1Index k.block) l2)
    (hslot : k.mem l2 (l2Index k.block) &&& 1 = 0) :
    Safe k.mem (s.linkedL3 l2 (blockTables k.block)) := by
  obtain ⟨hn, hn3, -⟩ := region.tables_eq (block_lt k)
  obtain ⟨-, -, hi2⟩ := region.index_eq (x := 3 * pageSize) (by decide)
  have hpage2 := prepared.tables p2 l2 hlive2
  have hpage3 := prepared.temporaries tmpL3Table (by simp)
  have hdead3 := prepared.dead_tmp (t := tmpL3Table) (by simp)
  have hdead := prepared.dead (x := 3 * pageSize) (by decide)
  have hne2 : k.block + 3 * pageSize ≠ l2 := prepared.ne_mapped (by decide) hpage2
  have hne3 : k.block + 3 * pageSize ≠ tmpL3Table := prepared.ne_mapped (by decide) hpage3
  have htmp2 : l2 ≠ tmpL3Table := (prepared.clean.1 p2 l2 hlive2).2.2
  simp only [Machine.linkedL3, hn, hn3, hi2]
  have hload := h.loaded (i := l2Index k.block) (h.identityPage hpage2)
  have hlink := hload.stored (i := l2Index k.block) (tmpL3Table ||| pageTableAttributes)
    (hload.identityPage hpage2) fun _ _ => hslot
  have hentry := hlink.stored (i := l3Index (k.block + 3 * pageSize))
    (pageAttributesForNormalMemory ||| (k.block + 3 * pageSize))
    (hlink.identityPage hpage3) fun p hp => absurd hp (hdead3 p)
  obtain ⟨v, hv⟩ : ∃ v, v = ((s.loaded l2 (l2Index k.block)).stored l2 (l2Index k.block)
      (tmpL3Table ||| pageTableAttributes)).stored tmpL3Table (l3Index (k.block + 3 * pageSize))
      (pageAttributesForNormalMemory ||| (k.block + 3 * pageSize)) := ⟨_, rfl⟩
  rw [← hv] at hentry ⊢
  -- From here on the page is reached through the temporary table, whatever is written to it.
  have hopen : ∀ m, KeepsEntries k.mem m → (∀ f j, f ≠ k.block + 3 * pageSize → m f j = v.mem f j) →
      IdentityPage m (k.block + 3 * pageSize) := by
    intro m keeps hother
    have hlink1 := hl1.congr (keeps [] _ _ (ofMem_root _) (valid_of_type (Or.inl hl1.type)))
    have hlink2 := hl2.congr (keeps _ _ _ hlive1 (valid_of_type (Or.inl hl2.type)))
    refine identityPage_through region (allignAddr_aligned _) hlow hlink1 hlink2 ?_ ?_
    · rw [hother _ _ hne2.symm, hv, stored_mem, Mem.set_other _ _ fun h => htmp2 h.1, stored_mem,
        Mem.set_same]
    · rw [hother _ _ hne3.symm, hv, stored_mem, Mem.set_same]
      rfl
  have hclear : Safe k.mem (v.zeroed (k.block + 3 * pageSize)) := by
    apply hentry.zeroed hdead
    intro done
    refine hopen _ (hentry.keeps.zeroAt hdead) fun f j hf => ?_
    rw [Mem.zeroAt, if_neg fun h => hf h.1]
  have hself := hclear.stored (i := l3Index (k.block + 3 * pageSize))
    (pageAttributesForNormalMemory ||| (k.block + 3 * pageSize))
    (hopen _ hclear.keeps fun f j hf => by rw [zeroed_mem, Mem.zeroPage, if_neg hf])
    fun p hp => absurd hp (hdead p)
  refine hself.stored _ (hopen _ hself.keeps fun f j hf => ?_) fun p hp => absurd hp (hdead p)
  rw [stored_mem, Mem.set_other _ _ fun h => hf h.1, zeroed_mem, Mem.zeroPage, if_neg hf]

end Prepared

section Call
variable {k : Kernel} (prepared : Prepared k) (region : OneRegion k.block)
variable {s : Machine} (hk : s.toKernel = k)
include prepared region hk

theorem l1_missing_misses (h0 : k.mem l0Table (l0Index k.block) &&& 1 = 0) :
    ∃ a ∈ (final (mapPageForPagetable s)).accesses, ¬ a.Hits := by
  subst hk
  obtain ⟨-, hn3, -⟩ := region.tables_eq (block_lt s.toKernel)
  obtain ⟨hi0, -, -⟩ := region.index_eq (x := 3 * pageSize) (by decide)
  have hzero := prepared.clean.2
  have hconst : tmpL1Table ≠ l0Table ∧ tmpL2Table ≠ l0Table ∧ tmpL3Table ≠ l0Table ∧
      tmpL2Table ≠ tmpL1Table ∧ tmpL1Table ≠ tmpL3Table := by decide
  have hhelper := mapPageForTableL1_run (s := s.read1) l0Table
    (blockTables s.block) (by rw [hn3, hi0, read1_mem]; exact h0)
    (by rw [Mem.set_other _ _ fun h => hconst.1 h.1, read1_mem, (hzero _).1, Nat.zero_and])
    (by
      rw [Mem.set_other _ _ fun h => hconst.2.2.2.1 h.1, Mem.set_other _ _ fun h => hconst.2.1 h.1,
        read1_mem, (hzero _).2.1, Nat.zero_and])
  rw [mapPageForPagetable_l1_missing h0 hhelper, final_ok]
  have hpage := prepared.temporaries tmpL1Table (by simp)
  obtain ⟨a, ha, hmiss⟩ := linkedL2_misses (s := (s.read1.loaded l0Table (l0Index s.block)).stored
    l0Table (l0Index s.block) (tmpL1Table ||| pageTableAttributes)) tmpL1Table region
    (block_lt _) (prepared.apart hpage)
    (links_of_eq (by decide) (by rw [stored_mem, Mem.set_same]; rfl))
    (fun h => hconst.1 h.1.symm) hconst.2.2.2.1.symm hconst.2.2.2.2
    (fun j => by
      rw [stored_mem, Mem.set_other _ _ fun h => hconst.2.2.1 h.1, loaded_mem, read1_mem]
      exact (hzero j).2.2)
  refine ⟨a, mem_zeroedAt _ _ (mem_zeroedAt _ _ (mem_zeroedAt _ _ ?_)), hmiss⟩
  refine List.mem_append_left _ ?_
  rw [Machine.linkedL1, hn3, hi0]
  exact List.mem_append_left _ (mem_zeroedAt _ _ (List.mem_append_left _ ha))

variable {l1 : Nat} (h0 : k.mem l0Table (l0Index k.block) &&& 1 ≠ 0)
variable (hl1 : k.mem l0Table (l0Index k.block) &&& addressMask = l1)
include h0 hl1

theorem l2_missing_misses (h1 : k.mem l1 (l1Index k.block) &&& 1 = 0) :
    ∃ a ∈ (final (mapPageForPagetable s)).accesses, ¬ a.Hits := by
  subst hk
  obtain ⟨-, hn3, -⟩ := region.tables_eq (block_lt s.toKernel)
  obtain ⟨-, hi1, -⟩ := region.index_eq (x := 3 * pageSize) (by decide)
  have hzero := prepared.clean.2
  have hlive := tables_l1 h0 hl1
  obtain ⟨-, hne2, hne3⟩ := prepared.clean.1 _ _ hlive
  have hhelper := mapPageForTableL2_run (s := s.read2 l1) l1
    (blockTables s.block) (by rw [hn3, hi1, read2_mem]; exact h1)
    (by rw [Mem.set_other _ _ fun h => hne2 h.1.symm, read2_mem, (hzero _).2.1, Nat.zero_and])
  rw [mapPageForPagetable_l2_missing h0 hl1 h1 hhelper, final_ok]
  obtain ⟨a, ha, hmiss⟩ := linkedL2_misses (s := s.read2 l1) l1 region
    (block_lt _) (prepared.apart (prepared.tables _ _ hlive))
    (by
      rw [read2_mem, ← hl1]
      exact prepared.links (ofMem_root _) h0)
    (by
      rintro ⟨rfl, hi⟩
      rw [hi] at h0
      exact h0 h1) hne2 hne3 (fun j => by rw [read2_mem]; exact (hzero j).2.2)
  exact ⟨a, mem_zeroedAt _ _ (mem_zeroedAt _ _ (List.mem_append_left _ ha)), hmiss⟩

variable {l2 : Nat} (h1 : k.mem l1 (l1Index k.block) &&& 1 ≠ 0)
variable (hl2 : k.mem l1 (l1Index k.block) &&& addressMask = l2)
include h1 hl2

omit region in
theorem safe_read3 (hs : s.accesses = []) : Safe k.mem (s.read3 l1 l2) := by
  subst hk
  have hroot := prepared.tables _ _ (ofMem_root s.mem)
  have hpage1 := prepared.tables _ _ (tables_l1 h0 hl1)
  have hpage2 := prepared.tables _ _ (tables_l2 h0 hl1 h1 hl2)
  have htaken : Safe s.mem s.taken := by
    refine ⟨fun a ha => ?_, fun _ _ _ _ _ => by rw [taken_mem]⟩
    rw [Machine.taken, withFree_accesses, hs] at ha
    cases ha
  have hread1 := htaken.loaded (i := l0Index s.block) (htaken.identityPage hroot)
  have hread1' := hread1.loaded (i := l0Index s.block) (hread1.identityPage hroot)
  have hread2 := hread1'.loaded (i := l1Index s.block) (hread1'.identityPage hpage1)
  have hread2' := hread2.loaded (i := l1Index s.block) (hread2.identityPage hpage1)
  exact hread2'.loaded (hread2'.identityPage hpage2)

theorem l3_missing_hits_iff (hs : s.accesses = []) (h2 : k.mem l2 (l2Index k.block) &&& 1 = 0) :
    (∀ a ∈ (final (mapPageForPagetable s)).accesses, a.Hits) ↔ k.block < addressLimit := by
  have hreads := safe_read3 prepared hk h0 hl1 h1 hl2 hs
  subst hk
  obtain ⟨-, hn3, -⟩ := region.tables_eq (block_lt s.toKernel)
  obtain ⟨-, -, hi2⟩ := region.index_eq (x := 3 * pageSize) (by decide)
  have hlive1 := tables_l1 h0 hl1
  have hlive2 := tables_l2 h0 hl1 h1 hl2
  have hhelper := mapPageForTableL3_run (s := s.read3 l1 l2) l2
    (blockTables s.block) (by rw [hn3, hi2, read3_mem]; exact h2)
  rw [mapPageForPagetable_l3_missing h0 hl1 h1 hl2 h2 hhelper, final_ok]
  constructor
  · intro hall
    by_contra hhigh
    obtain ⟨a, ha, hmiss⟩ := linkedL3_misses (s := s.read3 l1 l2) l2 region
      (block_lt _) (not_lt.mp hhigh)
    exact hmiss (hall a (mem_zeroedAt _ _ (List.mem_append_left _ ha)))
  · intro hlow
    have hhelped := prepared.linkedL3_safe region hlow hreads hlive1 hlive2
      (hl1 ▸ prepared.links (ofMem_root _) h0) (hl2 ▸ prepared.links hlive1 h1) h2
    have hlinked := hhelped.stored (i := l2Index s.block)
      ((blockTables s.block).newL3Pagetable ||| pageTableAttributes)
      (hhelped.identityPage (prepared.tables _ _ hlive2)) fun _ _ => h2
    have hdead := prepared.dead_tmp (t := tmpL1Table) (by simp)
    refine (hlinked.zeroed hdead fun done => ?_).hits
    exact (prepared.temporaries tmpL1Table (by simp)).of_keeps (hlinked.keeps.zeroAt hdead)

omit region in
theorem present_hits (hs : s.accesses = []) {l3 : Nat} (h2 : k.mem l2 (l2Index k.block) &&& 1 ≠ 0)
    (hl3 : k.mem l2 (l2Index k.block) &&& addressMask = l3) :
    ∀ a ∈ (final (mapPageForPagetable s)).accesses, a.Hits := by
  have hreads := safe_read3 prepared hk h0 hl1 h1 hl2 hs
  subst hk
  have hpage2 := prepared.tables _ _ (tables_l2 h0 hl1 h1 hl2)
  have hpage3 := prepared.tables _ _ (tables_l3 h0 hl1 h1 hl2 h2 hl3)
  have hread3 := hreads.loaded (i := l2Index s.block) (hreads.identityPage hpage2)
  have hread4 : Safe s.mem (s.read4 l1 l2 l3) := hread3.loaded (hread3.identityPage hpage3)
  rw [mapPageForPagetable_present h0 hl1 h1 hl2 h2 hl3]
  split
  · rename_i hleaf
    exact (hread4.stored _ (hread4.identityPage hpage3) fun _ _ => hleaf).hits
  · exact hread4.hits

end Call

/-- Every access of a call hits exactly if the block's L1 and L2 tables are there, and its L3
table as well unless the block is below the address limit. -/
theorem mapPageForPagetable_hits_iff {k : Kernel} (prepared : Prepared k)
    (region : OneRegion k.block) : (∀ a ∈ tableAccesses k, a.Hits) ↔
      k.HasTable 2 ∧ (k.HasTable 3 ∨ k.block < addressLimit) := by
  have hk : (⟨k, [], [], [], [], []⟩ : Machine).toKernel = k := rfl
  by_cases h0 : k.mem l0Table (l0Index k.block) &&& 1 = 0
  · obtain ⟨a, ha, hmiss⟩ := l1_missing_misses prepared region hk h0
    have hno : ¬ k.HasTable 2 := by
      rintro ⟨t, ht⟩
      obtain ⟨t1, ht1⟩ := ofMem_prefix (p := [l0Index k.block]) ⟨[l1Index k.block], rfl⟩ ht
      cases (no_next (p := []) (by simp) (ofMem_root _) h0).symm.trans ht1
    exact ⟨fun h => absurd (h a ha) hmiss, fun h => absurd h.1 hno⟩
  obtain ⟨l1, hl1⟩ : ∃ l1, k.mem l0Table (l0Index k.block) &&& addressMask = l1 := ⟨_, rfl⟩
  have hlive1 := tables_l1 h0 hl1
  by_cases h1 : k.mem l1 (l1Index k.block) &&& 1 = 0
  · obtain ⟨a, ha, hmiss⟩ := l2_missing_misses prepared region hk h0 hl1 h1
    have hno : ¬ k.HasTable 2 := by
      rintro ⟨t, ht⟩
      cases (no_next (by simp) hlive1 h1).symm.trans ht
    exact ⟨fun h => absurd (h a ha) hmiss, fun h => absurd h.1 hno⟩
  obtain ⟨l2, hl2⟩ : ∃ l2, k.mem l1 (l1Index k.block) &&& addressMask = l2 := ⟨_, rfl⟩
  have hlive2 := tables_l2 h0 hl1 h1 hl2
  have htwo : k.HasTable 2 := ⟨l2, hlive2⟩
  by_cases h2 : k.mem l2 (l2Index k.block) &&& 1 = 0
  · have hno : ¬ k.HasTable 3 := by
      rintro ⟨t, ht⟩
      cases (no_next (by simp) hlive2 h2).symm.trans ht
    have hiff := l3_missing_hits_iff prepared region hk h0 hl1 h1 hl2 rfl h2
    exact hiff.trans ⟨fun h => ⟨htwo, Or.inr h⟩, fun h => h.2.resolve_left hno⟩
  · obtain ⟨l3, hl3⟩ : ∃ l3, k.mem l2 (l2Index k.block) &&& addressMask = l3 := ⟨_, rfl⟩
    have hthree : k.HasTable 3 := ⟨l3, tables_l3 h0 hl1 h1 hl2 h2 hl3⟩
    exact ⟨fun _ => ⟨htwo, Or.inl hthree⟩,
      fun _ => present_hits prepared hk h0 hl1 h1 hl2 rfl h2 hl3⟩

/-- A state in which the first region is used up: all that was asked for lies in it, and below
the heap the words are those of the start, except for the image's entries. -/
structure FirstRegionUsed (s : Machine) : Prop where
  requests : ∀ r ∈ s.requests, r.address + r.size ≤ 0x40200000
  blocks : ∀ c ∈ s.calls, c.before.block + 4 * pageSize ≤ 0x40200000
  words : ∀ f j, f < 0x40118000 → ¬ ImageEntry f j → s.mem f j = imageWord f j

theorem FirstRegionUsed.owned_lt {s : Machine} (h : FirstRegionUsed s) {page : Nat}
    (howned : Owned s page) : page < 0x40200000 := by
  rcases howned with ⟨r, hr, hcovers⟩ | hlow | ⟨c, hc, hpage⟩
  · have hend := h.requests r hr
    have hlt := hcovers.2
    omega
  · exact lt_trans hlow.2 (by decide)
  · have hend := h.blocks c hc
    omega

theorem FirstRegionUsed.table_word {s : Machine} (h : FirstRegionUsed s) (f : Nat) (j : Index)
    (hf : f ∈ [l0Table, initPageL1, initPageL2]) : s.mem f j = imageWord f j := by
  simp only [List.mem_cons, List.not_mem_nil, or_false] at hf
  rcases hf with rfl | rfl | rfl <;>
    exact h.words _ _ (by decide) fun himage => absurd himage.1 (by decide)

theorem FirstRegionUsed.temporaries {s : Machine} (h : FirstRegionUsed s) :
    ∀ page ∈ [tmpL1Table, tmpL2Table, tmpL3Table], IdentityPage s.mem page := by
  have hl0 : s.mem l0Table 0 = initPageL1 + 3 := (h.table_word _ _ (by simp)).trans rfl
  have hl1 : s.mem initPageL1 1 = initPageL2 + 3 := (h.table_word _ _ (by simp)).trans rfl
  have hl2 : s.mem initPageL2 0 = initPageL3 + 3 := (h.table_word _ _ (by simp)).trans rfl
  have hentry : ∀ j : Index, j.val < 7 → s.mem initPageL3 j = imageWord initPageL3 j :=
    fun j hj => h.words _ _ (by decide) fun himage => absurd himage.2 (by omega)
  have hlinks0 := links_of_eq (by decide) hl0
  have hlinks1 := links_of_eq (by decide) hl1
  have hlinks2 := links_of_eq (by decide) hl2
  intro page hpage
  simp only [List.mem_cons, List.not_mem_nil, or_false] at hpage
  rcases hpage with rfl | rfl | rfl
  · exact identityPage_of_links (by decide) (by decide) hlinks0 hlinks1 hlinks2
      ((hentry 4 (by decide)).trans rfl)
  · exact identityPage_of_links (by decide) (by decide) hlinks0 hlinks1 hlinks2
      ((hentry 5 (by decide)).trans rfl)
  · exact identityPage_of_links (by decide) (by decide) hlinks0 hlinks1 hlinks2
      ((hentry 6 (by decide)).trans rfl)

theorem image_used : ∃ (h : RamRun imageLayout 0x50000000 zeroRam [.kalloc 0xE8000]) (s : Machine),
    run imageLayout [.kalloc 0xE8000] (boot imageLayout zeroRam) = .ok () s ∧
      Inv (h.setting True True True) s ∧ FirstRegionUsed s := by
  obtain ⟨h, -, hall⟩ := image_ramRun
  obtain ⟨k1, k2, t, himage, hrequests, hfinal⟩ := image_run
  have boots : Boots (h.setting True True True) zeroRam :=
    ⟨fun j => Nat.zero_and 1, fun j => Nat.zero_and 1, fun _ _ _ _ _ => rfl,
      fun _ _ => ⟨rfl, rfl, rfl⟩⟩
  obtain ⟨s, hs, inv, -⟩ := h.spec boots fun c hc =>
    ⟨Or.inl (hall c hc).1, Or.inl trivial, fun _ => (hall c hc).2.1,
      fun _ => Or.inl (hall c hc).2.2.2⟩
  obtain rfl : t.cleared 0x40118000 0xE8000 = s := by
    rw [hfinal] at hs
    cases hs
    rfl
  refine ⟨h, _, hfinal, inv, ⟨?_, ?_, ?_⟩⟩
  · intro r hr
    rw [cleared_requests, hrequests] at hr
    simp only [List.mem_cons, List.not_mem_nil, or_false] at hr
    rcases hr with rfl | rfl | rfl <;> decide
  · intro c hc
    rw [cleared_calls, himage.calls] at hc
    rcases List.mem_pair.mp hc with rfl | rfl
    · change k1.block + 4 * pageSize ≤ _
      rw [himage.block1]
      decide
    · change k2.block + 4 * pageSize ≤ _
      rw [himage.block2]
      decide
  · intro f j hf hentry
    have hout : ¬ Mem.InRange 0x40118000 0xE8000 f := by
      simp only [Mem.InRange]
      omega
    rw [cleared_mem, Mem.clear, if_neg hout, himage.words f j hentry]

/-- The state after a run that uses the first region up, with the bump pointer set anywhere
above. -/
theorem image_prepared : ∃ s,
    run imageLayout [.kalloc 0xE8000] (boot imageLayout zeroRam) = .ok () s ∧
    (∀ f j, f ∈ [l0Table, initPageL1, initPageL2] → s.mem f j = imageWord f j) ∧
    ∀ free, free % 4096 = 0 → 0x40200000 ≤ free → free + 4 * pageSize ≤ addressLimit →
      debugHelperSetCurrentFree free s = .ok () (s.withFree free) ∧
        Kernel.block ⟨s.mem, free⟩ = free ∧ Prepared ⟨s.mem, free⟩ := by
  obtain ⟨h, s, hfinal, inv, used⟩ := image_used
  have hself := inv.selfMapped trivial
  refine ⟨s, hfinal, used.table_word, fun free haligned hlow hhigh => ?_⟩
  have hblock : Kernel.block ⟨s.mem, free⟩ = free := by
    apply allignAddr_of_aligned haligned
    simp only [addressLimit] at hhigh
    omega
  refine ⟨rfl, hblock, ⟨fun p f hf offset hoffset => ⟨_, hself p f hf offset hoffset, rfl⟩,
    used.temporaries, ⟨fun p f hf => (inv.separate hf).2, (inv.tidy trivial).1⟩,
    inv.authored.onlyDescriptors, ?_⟩⟩
  intro page hge hlt
  rw [hblock] at hge hlt
  cases hwalk : translate s.mem page with
  | none => rfl
  | some w =>
    have hpage := used.owned_lt (inv.translate_cases hwalk).2
    simp only [pageOf] at hpage
    omega

theorem mapPageForPagetable_hits_iff_image : ∃ k : Kernel, Prepared k ∧ k.block = 0x40200000 ∧
    ((∀ a ∈ tableAccesses k, a.Hits) ↔ k.HasTable 2 ∧ (k.HasTable 3 ∨ k.block < addressLimit)) := by
  obtain ⟨s, -, -, hfree⟩ := image_prepared
  obtain ⟨-, hblock, prepared⟩ := hfree 0x40200000 (by decide) (by decide) (by decide)
  refine ⟨_, prepared, hblock, mapPageForPagetable_hits_iff prepared ?_⟩
  rw [hblock]
  decide

/-- The first gigabyte of RAM used up: the block has no L2 table, and the new L2 page is cleared
where it is not mapped. -/
theorem mapPageForPagetable_misses_image : ∃ k : Kernel, Prepared k ∧ k.block = 0x80000000 ∧
    OneRegion k.block ∧ ¬ ∀ a ∈ tableAccesses k, a.Hits := by
  obtain ⟨s, -, hwords, hfree⟩ := image_prepared
  obtain ⟨-, hblock, prepared⟩ := hfree 0x80000000 (by decide) (by decide) (by decide)
  have hregion : OneRegion (Kernel.block ⟨s.mem, 0x80000000⟩) := by
    rw [hblock]
    decide
  have h0 : s.mem l0Table 0 = initPageL1 + 3 := (hwords _ _ (by simp)).trans rfl
  have h1 : s.mem initPageL1 2 = 0 := (hwords _ _ (by simp)).trans rfl
  have hvalid : s.mem l0Table (l0Index 0x80000000) &&& 1 ≠ 0 := by
    change s.mem l0Table 0 &&& 1 ≠ 0
    rw [h0]
    decide
  have hl1 : s.mem l0Table (l0Index 0x80000000) &&& addressMask = initPageL1 := by
    change s.mem l0Table 0 &&& addressMask = initPageL1
    rw [h0]
    decide
  have hmissing : s.mem initPageL1 (l1Index 0x80000000) &&& 1 = 0 := by
    change s.mem initPageL1 2 &&& 1 = 0
    rw [h1, Nat.zero_and]
  rw [← hblock] at hvalid hl1 hmissing
  obtain ⟨a, ha, hmiss⟩ := l2_missing_misses prepared hregion
    (s := ⟨⟨s.mem, 0x80000000⟩, [], [], [], [], []⟩) rfl hvalid hl1 hmissing
  exact ⟨_, prepared, hblock, hregion, fun h => hmiss (h a ha)⟩

end SelfmadeOS
