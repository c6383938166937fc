import SelfmadeOS.SelfMapping

/-! # The temporary tables between calls -/

namespace SelfmadeOS
set_option autoImplicit false
open StateRuns Space

variable {L : Layout} {ramEnd : Nat} {mem : Mem} {ops : List Op}

/-- The temporary pages come back clean from every call, as long as they were zero at boot and
each call finds all tables of its block's region, or none below the root. -/
theorem temporariesClean_of_run (h : RamRun L ramEnd mem ops)
    (htemps : ∀ j, mem tmpPage1 j = 0 ∧ mem tmpPage2 j = 0 ∧ mem tmpPage3 j = 0)
    (hfits : ∀ c ∈ (final (run L ops (boot L mem))).calls, BlockFits c)
    (hclean : ∀ c ∈ (final (run L ops (boot L mem))).calls,
      NoEntries c.before.mem c.before.block)
    (hpath : ∀ c ∈ (final (run L ops (boot L mem))).calls,
      c.before.HasTable 3 ∨ ¬ c.before.HasTable 1) :
    ∃ s, run L ops (boot L mem) = .ok () s ∧ ∀ k ∈ s.returned, TemporariesClean k := by
  have boots : Boots (h.setting False False True) mem := by
    refine ⟨fun j => ?_, fun j => ?_, False.elim, fun _ => htemps⟩
    · exact (congrArg (· &&& 1) (htemps j).1).trans rfl
    · exact (congrArg (· &&& 1) (htemps j).2.1).trans rfl
  obtain ⟨s, hrun, inv, -⟩ := h.spec boots fun c hc =>
    ⟨hfits c hc, Or.inr (hclean c hc), False.elim, fun _ => hpath c hc⟩
  exact ⟨s, hrun, (inv.tidy trivial).2⟩

theorem temporariesClean_of_run_image :
    ∃ s, run imageLayout [.kalloc 0xE8000] (boot imageLayout zeroRam) = .ok () s ∧
      ∀ k ∈ s.returned, TemporariesClean k := by
  obtain ⟨h, -, hcalls⟩ := image_ramRun
  exact temporariesClean_of_run h (fun _ => ⟨rfl, rfl, rfl⟩)
    (fun c hc => Or.inl (hcalls c hc).1) (fun c hc => (hcalls c hc).2.2.1)
    fun c hc => Or.inl (hcalls c hc).2.2.2

/-- A call that finds no L3 table comes back with an entry in the temporary L3 table. -/
theorem temporariesClean_fails_image : ∃ s,
    run imageLayout [.kalloc 0xE9000] (boot imageLayout zeroRam) = .ok () s ∧
    RamRun imageLayout 0x50000000 zeroRam [.kalloc 0xE9000] ∧
    ZeroRam imageLayout 0x50000000 zeroRam ∧
    ∃ k ∈ s.returned, k.mem tmpL3Table 4 = descriptor 0 0x40204000 ∧ ¬ TemporariesClean k := by
  obtain ⟨s, hrun, hram, -, ⟨k, hk, hentry⟩, -⟩ := image_ownSlot
  refine ⟨s, hrun, hram, fun _ _ _ => rfl, k, hk, hentry, fun h => ?_⟩
  have hzero := (h.2 4).2.2
  rw [hentry] at hzero
  exact absurd hzero (by decide)

end SelfmadeOS
