import SelfmadeOS.BlockMapping

/-!
# The paths of `map_page_for_pagetable` that add tables

The words after each helper are written out once, for a helper that finds its slot free; the
paths that use the helpers then have the shape `NewTables`.
-/

namespace SelfmadeOS
set_option autoImplicit false
open Space

/-- Where a block may lie: above the temporary tables, in one region. -/
structure Fits (block : Nat) : Prop where
  page : IsPage block
  room : block + 4 * pageSize ≤ 2 ^ 48
  above : kernelStart ≤ block
  region : OneRegion block

namespace Fits
variable {b : Nat} (fits : Fits b)
include fits

theorem index_eq {j : Nat} (hj : j ≤ 3) : l0Index (b + j * pageSize) = l0Index b ∧
    l1Index (b + j * pageSize) = l1Index b ∧ l2Index (b + j * pageSize) = l2Index b := by
  simpa [tablePath] using fits.region.tablePath_eq fits.page hj

theorem l3Index_iff {a j : Nat} (hj : j ≤ 3) (ha : IsPage a) (hpath : tablePath a = tablePath b) :
    l3Index a = l3Index (b + j * pageSize) ↔ a = b + j * pageSize := by
  refine ⟨fun h => ?_, fun h => h ▸ rfl⟩
  apply page_eq_of_indices ha (fits.region.isPage fits.page hj) _ h
  rw [hpath, fits.region.tablePath_eq fits.page hj]

theorem l3Index_first {a : Nat} (ha : IsPage a) (hpath : tablePath a = tablePath b) :
    l3Index a = l3Index b ↔ a = b := by
  have h := fits.l3Index_iff (j := 0) (by decide) ha hpath
  rwa [Nat.zero_mul, Nat.add_zero] at h

theorem link {j : Nat} (hj : j ≤ 3) :
    (b + j * pageSize ||| pageTableAttributes) = b + j * pageSize + 3 :=
  link_eq (fits.region.isPage fits.page hj).1

/-- The pages of a block and the temporary tables are all different. -/
theorem apart {i : Nat} : b + i * pageSize ≠ tmpL1Table ∧ b + i * pageSize ≠ tmpL2Table ∧
    b + i * pageSize ≠ tmpL3Table := by
  have h := fits.above
  simp only [kernelStart, tmpL1Table, tmpL2Table, tmpL3Table, tmpPage1, tmpPage2, tmpPage3] at h ⊢
  omega

theorem tables_eq : (blockTables b).newPagetable = b ∧
    (blockTables b).newL3Pagetable = b + 3 * pageSize ∧
    (blockTables b).newL2Pagetable = b + 2 * pageSize ∧
    (blockTables b).newL1Pagetable = b + 1 * pageSize := by
  simp only [blockTables_eq fits.room, and_self]

theorem linkedL3_mem (r : Machine) {parent : Nat} (hparent : parent ≤ b) (f : Nat) (j : Index) :
    (r.linkedL3 parent (blockTables b)).mem f j =
      if f = b + 3 * pageSize then
        if j = l3Index b then descriptor 0 b
        else if j = l3Index (b + 3 * pageSize) then descriptor 0 (b + 3 * pageSize) else 0
      else if f = tmpL3Table ∧ j = l3Index (b + 3 * pageSize) then descriptor 0 (b + 3 * pageSize)
      else if f = parent ∧ j = l2Index b then tmpL3Table ||| pageTableAttributes
      else r.mem f j := by
  obtain ⟨-, -, htmp3⟩ := fits.apart (i := 3)
  obtain ⟨-, -, hl2⟩ := fits.index_eq (j := 3) le_rfl
  obtain ⟨hn, hn3, -, -⟩ := fits.tables_eq
  have hne : b + 3 * pageSize ≠ parent := by simp only [pageSize]; omega
  simp only [Machine.linkedL3, hn, hn3, stored_mem, zeroed_mem, loaded_mem, hl2,
    Mem.set, Mem.zeroPage, descriptor, if_true]
  grind

theorem linkedL2_mem (r : Machine) {parent : Nat} (hparent : parent < b) (f : Nat) (j : Index) :
    (r.linkedL2 parent (blockTables b)).mem f j =
      if f = b + 2 * pageSize then
        if j = l2Index b then b + 3 * pageSize ||| pageTableAttributes else 0
      else if f = b + 3 * pageSize ∧ j = l3Index (b + 2 * pageSize) then
        descriptor 0 (b + 2 * pageSize)
      else if f = b + 3 * pageSize then
        if j = l3Index b then descriptor 0 b
        else if j = l3Index (b + 3 * pageSize) then descriptor 0 (b + 3 * pageSize) else 0
      else if f = tmpL3Table ∧ j = l3Index (b + 3 * pageSize) then descriptor 0 (b + 3 * pageSize)
      else if f = tmpL2Table ∧ j = l2Index b then tmpL3Table ||| pageTableAttributes
      else if f = parent ∧ j = l1Index b then tmpL2Table ||| pageTableAttributes
      else r.mem f j := by
  obtain ⟨-, htmp2, htmp3⟩ := fits.apart (i := 2)
  obtain ⟨-, hl1, hl2⟩ := fits.index_eq (j := 3) le_rfl
  have hne2 : b + 2 * pageSize ≠ parent := by simp only [pageSize]; omega
  have hne23 : b + 2 * pageSize ≠ b + 3 * pageSize := by simp only [pageSize]; omega
  have htmp : tmpL2Table ≤ b := le_trans (by decide) fits.above
  obtain ⟨-, hn3, hn2, -⟩ := fits.tables_eq
  simp only [Machine.linkedL2, stored_mem, zeroed_mem, Mem.set, Mem.zeroPage,
    fits.linkedL3_mem _ htmp, loaded_mem, hn3, hn2, hl1, hl2]
  grind [descriptor]

theorem linkedL1_mem (r : Machine) {parent : Nat} (hparent : parent < b) (f : Nat) (j : Index) :
    (r.linkedL1 parent (blockTables b)).mem f j =
      if f = b + 1 * pageSize then
        if j = l1Index b then b + 2 * pageSize ||| pageTableAttributes else 0
      else if f = b + 3 * pageSize ∧ j = l3Index (b + 1 * pageSize) then
        descriptor 0 (b + 1 * pageSize)
      else if f = b + 2 * pageSize then
        if j = l2Index b then b + 3 * pageSize ||| pageTableAttributes else 0
      else if f = b + 3 * pageSize ∧ j = l3Index (b + 2 * pageSize) then
        descriptor 0 (b + 2 * pageSize)
      else if f = b + 3 * pageSize then
        if j = l3Index b then descriptor 0 b
        else if j = l3Index (b + 3 * pageSize) then descriptor 0 (b + 3 * pageSize) else 0
      else if f = tmpL3Table ∧ j = l3Index (b + 3 * pageSize) then descriptor 0 (b + 3 * pageSize)
      else if f = tmpL2Table ∧ j = l2Index b then tmpL3Table ||| pageTableAttributes
      else if f = tmpL1Table ∧ j = l1Index b then tmpL2Table ||| pageTableAttributes
      else if f = parent ∧ j = l0Index b then tmpL1Table ||| pageTableAttributes
      else r.mem f j := by
  obtain ⟨-, htmp2, htmp3⟩ := fits.apart (i := 1)
  obtain ⟨hl0, hl1, hl2⟩ := fits.index_eq (j := 3) le_rfl
  have hne1 : b + 1 * pageSize ≠ parent := by simp only [pageSize]; omega
  have hne13 : b + 1 * pageSize ≠ b + 3 * pageSize := by simp only [pageSize]; omega
  have htmp : tmpL1Table < b := lt_of_lt_of_le (by decide) fits.above
  obtain ⟨-, hn3, hn2, hn1⟩ := fits.tables_eq
  simp only [Machine.linkedL1, stored_mem, zeroed_mem, Mem.set, Mem.zeroPage,
    fits.linkedL2_mem _ htmp, loaded_mem, hn3, hn2, hn1, hl0, hl1]
  grind [descriptor]

end Fits

section Paths
variable {s : Machine} {l1 l2 : Nat} (ready : Ready s.toKernel) (fits : Fits s.block)
include ready fits

theorem l1_missing_newTables (h0 : s.mem l0Table (l0Index s.block) &&& 1 = 0) :
    ∃ s', mapPageForPagetable s = .ok s.block s' ∧ NewTables s s' 0 l0Table (l0Index s.block) := by
  have hpath := ofMem_root s.mem
  obtain ⟨hlt, hne1, hne2, hne3⟩ := ready.separate _ _ hpath
  obtain ⟨hn, hn3, hn2, hn1⟩ := fits.tables_eq
  obtain ⟨hi0, hi1, hi2⟩ := fits.index_eq (j := 3) le_rfl
  have happart := fun i => fits.apart (i := i)
  have hhelper := mapPageForTableL1_run (s := s.read1) l0Table
    (blockTables s.block) (by rw [hn3, hi0, read1_mem]; exact h0)
    (by
      rw [Mem.set_other _ _ fun h => hne1 h.1.symm, read1_mem]
      exact ready.tmp1 _)
    (by
      rw [Mem.set_other _ _ fun h => absurd h.1 (by decide),
        Mem.set_other _ _ fun h => hne2 h.1.symm, read1_mem]
      exact ready.tmp2 _)
  refine ⟨_, mapPageForPagetable_l1_missing h0 hhelper, ?_⟩
  have htakes := ((((((takes_read1 s).linkedL1 l0Table (blockTables s.block)).stored l0Table
    (l0Index s.block) ((blockTables s.block).newL1Pagetable ||| pageTableAttributes)).zeroed
    tmpL1Table).zeroed tmpL2Table).zeroed tmpL3Table)
  refine ⟨by decide, fits.region, hpath, rfl, h0, ?_, ?_, ?_, ?_, htakes, ?_, fun j => ?_,
    fun j => ?_, fun _ j => ?_⟩
  all_goals try simp only [stored_mem, zeroed_mem, Mem.set, Mem.zeroPage,
    fits.linkedL1_mem _ hlt, read1_mem, hn1, fits.link (j := 1) (by decide)]
  · intro f j hf1 hf2 hf3 hblock hslot
    have hb : f ≠ s.block + 1 * pageSize ∧ f ≠ s.block + 2 * pageSize ∧
        f ≠ s.block + 3 * pageSize := by
      simp only [pageSize] at hblock ⊢
      omega
    grind [tmpL1Table, tmpL2Table, tmpL3Table]
  · grind [tmpL1Table, tmpL2Table, tmpL3Table]
  · intro d j hd hd2
    have hd : d = 1 ∨ d = 2 := by omega
    have hb : s.block + 1 * pageSize ≠ s.block + 2 * pageSize ∧
        s.block + 2 * pageSize ≠ l0Table ∧ s.block + 1 * pageSize ≠ l0Table := by
      simp only [pageSize]
      omega
    have hl2 := fits.link (j := 2) (by decide)
    have hl3 := fits.link (j := 3) le_rfl
    rcases hd with rfl | rfl
    · have hp := happart 1
      simp only [tablePath, List.getElem?_cons_succ, List.getElem?_cons_zero, Option.some.injEq]
      grind
    · have hp := happart 2
      simp only [tablePath, List.getElem?_cons_succ, List.getElem?_cons_zero, Option.some.injEq]
      grind
  · intro a ha hpath'
    have ha3 := fits.l3Index_iff (j := 3) le_rfl ha hpath'
    have ha2 := fits.l3Index_iff (j := 2) (by decide) ha hpath'
    have ha1 := fits.l3Index_iff (j := 1) (by decide) ha hpath'
    have ha0 := fits.l3Index_first ha hpath'
    have hp := happart 3
    have hb : s.block + 3 * pageSize ≠ l0Table ∧ s.block + 3 * pageSize ≠ s.block + 2 * pageSize ∧
        s.block + 3 * pageSize ≠ s.block + 1 * pageSize := by
      simp only [pageSize]
      omega
    simp only [Nat.one_mul] at ha1 hb
    simp only [TakesPage, ha0, ha1, ha2, ha3, Nat.one_mul]
    grind
  · refine ⟨by simp, fun d j hd hd3 => ?_⟩
    have hd : d = 1 ∨ d = 2 ∨ d = 3 := by omega
    rcases hd with rfl | rfl | rfl <;>
      simp [Machine.linkedL1, Machine.linkedL2, Machine.linkedL3, hn3, hn2, hn1]
  · grind
  · grind
  · grind

variable (h0 : s.mem l0Table (l0Index s.block) &&& 1 ≠ 0)
variable (hl1 : s.mem l0Table (l0Index s.block) &&& addressMask = l1)
include ready fits h0 hl1

theorem l2_missing_newTables (h1 : s.mem l1 (l1Index s.block) &&& 1 = 0) :
    ∃ s', mapPageForPagetable s = .ok s.block s' ∧ NewTables s s' 1 l1 (l1Index s.block) := by
  have hpath := tables_l1 h0 hl1
  obtain ⟨hlt, hne1, hne2, hne3⟩ := ready.separate _ _ hpath
  obtain ⟨hn, hn3, hn2, -⟩ := fits.tables_eq
  obtain ⟨-, hi1, hi2⟩ := fits.index_eq (j := 3) le_rfl
  have happart := fun i => fits.apart (i := i)
  have hhelper := mapPageForTableL2_run (s := s.read2 l1) l1
    (blockTables s.block) (by rw [hn3, hi1, read2_mem]; exact h1)
    (by
      rw [Mem.set_other _ _ fun h => hne2 h.1.symm, read2_mem]
      exact ready.tmp2 _)
  refine ⟨_, mapPageForPagetable_l2_missing h0 hl1 h1 hhelper, ?_⟩
  have htakes := ((((takes_read2 s l1).linkedL2 l1 (blockTables s.block)).stored l1
    (l1Index s.block) ((blockTables s.block).newL2Pagetable ||| pageTableAttributes)).zeroed
    tmpL1Table).zeroed tmpL2Table
  refine ⟨by decide, fits.region, hpath, rfl, h1, ?_, ?_, ?_, ?_, htakes, ?_, fun j => ?_,
    fun j => ?_, fun h => by cases h⟩
  all_goals try simp only [stored_mem, zeroed_mem, Mem.set, Mem.zeroPage,
    fits.linkedL2_mem _ hlt, read2_mem, hn2, fits.link (j := 2) (by decide)]
  · intro f j hf1 hf2 hf3 hblock hslot
    have hb : f ≠ s.block + 2 * pageSize ∧ f ≠ s.block + 3 * pageSize := by
      simp only [pageSize] at hblock ⊢
      omega
    grind
  · grind
  · intro d j hd hd2
    obtain rfl : d = 2 := by omega
    have hb : s.block + 2 * pageSize ≠ l1 := by simp only [pageSize]; omega
    have hl3 := fits.link (j := 3) le_rfl
    have hp := happart 2
    simp only [tablePath, List.getElem?_cons_succ, List.getElem?_cons_zero, Option.some.injEq]
    grind
  · intro a ha hpath'
    have ha3 := fits.l3Index_iff (j := 3) le_rfl ha hpath'
    have ha2 := fits.l3Index_iff (j := 2) (by decide) ha hpath'
    have ha0 := fits.l3Index_first ha hpath'
    have hp := happart 3
    have hb : s.block + 3 * pageSize ≠ l1 ∧ s.block + 3 * pageSize ≠ s.block + 2 * pageSize := by
      simp only [pageSize]
      omega
    simp only [TakesPage, ha0, ha2, ha3]
    grind
  · refine ⟨by simp, fun d j hd hd3 => ?_⟩
    have hd : d = 2 ∨ d = 3 := by omega
    rcases hd with rfl | rfl <;> simp [Machine.linkedL2, Machine.linkedL3, hn3, hn2]
  · grind
  · grind

theorem l3_missing_newTables
    (h1 : s.mem l1 (l1Index s.block) &&& 1 ≠ 0)
    (hl2 : s.mem l1 (l1Index s.block) &&& addressMask = l2)
    (h2 : s.mem l2 (l2Index s.block) &&& 1 = 0) :
    ∃ s', mapPageForPagetable s = .ok s.block s' ∧ NewTables s s' 2 l2 (l2Index s.block) := by
  have hpath := tables_l2 h0 hl1 h1 hl2
  obtain ⟨hlt, hne1, hne2, hne3⟩ := ready.separate _ _ hpath
  obtain ⟨hn, hn3, -, -⟩ := fits.tables_eq
  obtain ⟨hp1, hp2, hp3⟩ := fits.apart (i := 3)
  obtain ⟨-, -, hi2⟩ := fits.index_eq (j := 3) le_rfl
  have hhelper := mapPageForTableL3_run (s := s.read3 l1 l2) l2
    (blockTables s.block) (by rw [hn3, hi2, read3_mem]; exact h2)
  refine ⟨_, mapPageForPagetable_l3_missing h0 hl1 h1 hl2 h2 hhelper, ?_⟩
  have htakes := (((takes_read3 s l1 l2).linkedL3 l2 (blockTables s.block)).stored l2
    (l2Index s.block) ((blockTables s.block).newL3Pagetable ||| pageTableAttributes)).zeroed
    tmpL1Table
  refine ⟨le_rfl, fits.region, hpath, rfl, h2, ?_, ?_, ?_, ?_, htakes, ?_, fun j => ?_, fun j => ?_,
    fun h => by cases h⟩
  all_goals try simp only [stored_mem, zeroed_mem, Mem.set, Mem.zeroPage,
    fits.linkedL3_mem _ hlt.le, read3_mem, hn3, fits.link (j := 3) le_rfl]
  · intro f j hf1 hf2 hf3 hblock hslot
    have hne : f ≠ s.block + 3 * pageSize := by simp only [pageSize] at hblock ⊢; omega
    grind [tmpL1Table, tmpL3Table]
  · grind [tmpL1Table]
  · intro d j hd hd2
    omega
  · intro a ha hpath'
    have ha3 := fits.l3Index_iff (j := 3) le_rfl ha hpath'
    have ha0 := fits.l3Index_first ha hpath'
    simp only [TakesPage, ha0, ha3]
    grind
  · refine ⟨by simp, fun d j hd hd3 => ?_⟩
    obtain rfl : d = 3 := by omega
    simp [Machine.linkedL3, hn3]
  · grind
  · have hne : tmpL2Table ≠ s.block + 3 * pageSize := Ne.symm hp2
    have htmp := ready.tmp2 j
    have hdiff : tmpL2Table ≠ tmpL1Table ∧ tmpL2Table ≠ tmpL3Table := by decide
    grind

end Paths

theorem Ready.fits {k : Kernel} (ready : Ready k) {p : List Index} (hp : p <+: tablePath k.block)
    (hmissing : (ofMem k.mem).tables p = none) : Fits k.block := by
  refine ⟨ready.page, ready.room, ready.above, ready.region.resolve_right ?_⟩
  rintro ⟨t, ht⟩
  obtain ⟨u, hu⟩ := ofMem_prefix hp ht
  rw [hmissing] at hu
  cases hu

theorem mapPageForPagetable_spec {s : Machine} (ready : Ready s.toKernel) :
    ∃ s' present, mapPageForPagetable s = .ok s.block s' ∧ TakesBlock s s' present := by
  have hchild : ∀ {p : List Index} {t : Nat} {i : Index}, p.length ≤ 2 →
      (ofMem s.mem).tables p = some t → s.mem t i &&& 1 = 0 →
      (ofMem s.mem).tables (p ++ [i]) = none := by
    intro p t i hlen ht hi
    rw [ofMem_concat i hlen, ht, Option.bind_some, child_of_invalid hi]
  by_cases h0 : s.mem l0Table (l0Index s.block) &&& 1 = 0
  · have hnone := hchild (by simp) (ofMem_root s.mem) h0
    have fits := ready.fits (p := [l0Index s.block]) ⟨_, rfl⟩ hnone
    obtain ⟨s', hrun, new⟩ := l1_missing_newTables ready fits h0
    exact ⟨s', 0, hrun, new.takesBlock ready⟩
  have ht1 := tables_l1 h0 rfl
  by_cases h1 : s.mem (s.mem l0Table (l0Index s.block) &&& addressMask) (l1Index s.block) &&& 1 = 0
  · have hnone := hchild (by simp) ht1 h1
    have fits := ready.fits (p := [l0Index s.block, l1Index s.block]) ⟨[_], rfl⟩ hnone
    obtain ⟨s', hrun, new⟩ := l2_missing_newTables ready fits h0 rfl h1
    exact ⟨s', 1, hrun, new.takesBlock ready⟩
  have ht2 := tables_l2 h0 rfl h1 rfl
  by_cases h2 : s.mem (s.mem (s.mem l0Table (l0Index s.block) &&& addressMask) (l1Index s.block) &&&
      addressMask) (l2Index s.block) &&& 1 = 0
  · have hnone := hchild (by simp) ht2 h2
    have fits := ready.fits (p := tablePath s.block) List.prefix_rfl hnone
    obtain ⟨s', hrun, new⟩ := l3_missing_newTables ready fits h0 rfl h1 rfl h2
    exact ⟨s', 2, hrun, new.takesBlock ready⟩
  · obtain ⟨s', hrun, takes⟩ := present_takesBlock ready h0 rfl h1 rfl h2 rfl
    exact ⟨s', 3, hrun, takes⟩

end SelfmadeOS
