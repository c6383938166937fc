import SelfmadeOS.SmallKernel
import SelfmadeOS.Walks

/-!
# The live tables are mapped to themselves

With the MMU on, `mmu.c` reads and writes tables at their physical addresses, so each of them
has to be translated to itself.
-/

namespace SelfmadeOS
set_option autoImplicit false
open StateRuns Space

/-- Every byte of every table that is reached from `l0_table` translates to itself. -/
def SelfMapped (m : Mem) : Prop :=
  ∀ p table, (ofMem m).tables p = some table → ∀ offset, offset < 4096 →
    translate m (table + offset) = some ⟨table + offset, pageAttributesForNormalMemory⟩

theorem Inv.selfMapped {S : Setting} {s : Machine} (inv : Inv S s) (hno : S.noOwnSlot) :
    SelfMapped s.mem := by
  intro p table hp offset hoffset
  have haligned := (inv.tables_at p table hp).1
  have hlimit := S.limit
  have hbelow := inv.below
  have hlt := (inv.separate hp).1
  have hpage : pageOf (table + offset) = table := by
    simp only [pageOf]
    omega
  have hmapped := inv.mapped hno p table hp
  have hfree := inv.aligned
  apply inv.authored.onlyDescriptors.translate_descriptor 0 (by omega)
  rw [hpage]
  exact hmapped

variable {L : Layout} {ramEnd : Nat} {mem : Mem} {ops : List Op}

/-- As long as no call takes its block in the very slot it supplies, all tables stay mapped. -/
theorem selfMapped_of_run (h : RamRun L ramEnd mem ops) (hzero : ZeroRam L ramEnd mem)
    (hregion : ∀ c ∈ (final (run L ops (boot L mem))).calls, OneRegion c.before.block)
    (hslot : ∀ c ∈ (final (run L ops (boot L mem))).calls, ¬ OwnSlot c) :
    ∃ s, run L ops (boot L mem) = .ok () s ∧ SelfMapped s.mem := by
  obtain ⟨s, hrun, inv, -⟩ := h.spec (h.boots_zero hzero True) fun c hc =>
    ⟨Or.inl (hregion c hc), Or.inl trivial, fun _ => hslot c hc, False.elim⟩
  exact ⟨s, hrun, inv.selfMapped trivial⟩

theorem selfMapped_of_run_image :
    ∃ s, run imageLayout [.kalloc 0xE8000] (boot imageLayout zeroRam) = .ok () s ∧
      SelfMapped s.mem := by
  obtain ⟨h, hzero, hcalls⟩ := image_ramRun
  exact selfMapped_of_run h hzero (fun c hc => (hcalls c hc).1) fun c hc => (hcalls c hc).2.1

/-- One page more: the call for its L3 table takes a block of the same region, and the entry
that the call wrote for the block's own L3 table is replaced by the page it returned. -/
theorem image_ownSlot : ∃ s,
    run imageLayout [.kalloc 0xE9000] (boot imageLayout zeroRam) = .ok () s ∧
    RamRun imageLayout 0x50000000 zeroRam [.kalloc 0xE9000] ∧
    (∀ c ∈ s.calls, OneRegion c.before.block) ∧
    (∃ k ∈ s.returned, k.mem tmpL3Table 4 = descriptor 0 0x40204000) ∧
    s.mem initPageL2 1 = 0x40201003 ∧
    ∀ f j, f ∈ [l0Table, initPageL1] ∨ f = 0x40201000 ∧ j ≠ 0 → s.mem f j = imageWord f j := by
  obtain ⟨k1, k2, tests, t, htests, himage, hfree, hrequests, hrun⟩ :=
    image_kalloc 1 (by decide)
  obtain ⟨n, rfl⟩ : ∃ n, tests = n + 2 := ⟨tests - 2, by omega⟩
  obtain ⟨k, k', s', hmap, hblock, hcalls, hrequests', hreturned, hk', hmem⟩ :=
    himage.nextRegion hfree (by decide) (by decide) (by decide)
  have hfinal := hrun s' (mapLoop_page hmap)
  rw [hrequests] at hrequests'
  simp only [Nat.reduceMul, Nat.reduceAdd] at hfinal hrequests' hblock hk' hmem
  have hkept : ∀ f j, ¬ Mem.InRange 0x40118000 0xE9000 f →
      (s'.cleared 0x40118000 0xE9000).mem f j = s'.mem f j := by
    intro f j hf
    rw [cleared_mem, Mem.clear, if_neg hf]
  refine ⟨_, hfinal, image_ramRun_kalloc hfinal (by rw [cleared_requests, hrequests'])
    (by decide) ?_, ?_, ⟨k', hreturned, ?_⟩, ?_, ?_⟩
  · rw [cleared_calls]
    exact himage.blocks (P := fun b => b + 4 * pageSize ≤ 0x50000000) hcalls (by decide)
      (by decide) (hblock.symm ▸ by decide)
  · rw [cleared_calls]
    exact himage.blocks hcalls (by decide) (by decide) (hblock.symm ▸ by decide)
  · rw [hk']
    rfl
  · rw [hkept _ _ (by decide), hmem, Mem.set_other _ _ (by decide), Mem.set_same]
  · rintro f j (hf | ⟨rfl, hj⟩)
    · simp only [List.mem_cons, List.not_mem_nil, or_false] at hf
      rcases hf with rfl | rfl
      · rw [hkept _ _ (by decide), hmem]
        exact himage.nextRegion_word (by decide) (by decide) (by decide) (by decide) (by decide)
          fun h => absurd h.1 (by decide)
      · rw [hkept _ _ (by decide), hmem]
        exact himage.nextRegion_word (by decide) (by decide) (by decide) (by decide) (by decide)
          fun h => absurd h.1 (by decide)
    · rw [hkept _ _ (by decide), hmem]
      exact himage.nextRegion_word (by decide) (by decide) (by decide) (by decide) (by decide)
        fun h => hj h.2

/-- The table at `0x40201000` is then live and not mapped at all. -/
theorem selfMapped_fails_image : ∃ s,
    run imageLayout [.kalloc 0xE9000] (boot imageLayout zeroRam) = .ok () s ∧
    RamRun imageLayout 0x50000000 zeroRam [.kalloc 0xE9000] ∧
    ZeroRam imageLayout 0x50000000 zeroRam ∧
    (∀ c ∈ s.calls, OneRegion c.before.block) ∧
    (ofMem s.mem).tables (tablePath 0x40200000) = some 0x40201000 ∧
    translate s.mem 0x40201000 = none ∧ ¬ SelfMapped s.mem := by
  obtain ⟨s, hrun, hram, hregion, -, hlink, hwords⟩ := image_ownSlot
  have h0 : s.mem l0Table 0 = initPageL1 + 3 := (hwords _ _ (by decide)).trans rfl
  have h1 : s.mem initPageL1 1 = initPageL2 + 3 := (hwords _ _ (by decide)).trans rfl
  have h2 : s.mem initPageL2 1 = 0x40201000 + 3 := hlink
  have hlive : (ofMem s.mem).tables (tablePath 0x40200000) = some 0x40201000 := by
    obtain ⟨hv1, hl1⟩ := child_eq_some.mp (child_link (by decide) h0)
    obtain ⟨hv2, hl2⟩ := child_eq_some.mp (child_link (by decide) h1)
    obtain ⟨hv3, hl3⟩ := child_eq_some.mp (child_link (by decide) h2)
    exact tables_l3 (a := 0x40200000) hv1 hl1 hv2 hl2 hv3 hl3
  have hnone : translate s.mem 0x40201000 = none := by
    rw [translate_links (by decide) (links_of_eq (by decide) h0) (links_of_eq (by decide) h1)
      (links_of_eq (by decide) h2), translateL3, hwords _ _ (by decide)]
    rfl
  refine ⟨s, hrun, hram, fun _ _ _ => rfl, hregion, hlive, hnone, fun h => ?_⟩
  have hself := h _ _ hlive 0 (by decide)
  rw [Nat.add_zero, hnone] at hself
  cases hself

end SelfmadeOS
