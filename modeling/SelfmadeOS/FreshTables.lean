import SelfmadeOS.IdentityMapping

/-! # Tables hold what `mmu.c` put there -/

namespace SelfmadeOS
set_option autoImplicit false
open StateRuns Space

/-- Only requested pages and pages taken for tables are translated, and every valid word of a
table was stored by `mmu.c`. -/
structure OnlyRequested (s : Machine) : Prop where
  owned : ∀ va t, translate s.mem va = some t → Owned s (pageOf va)
  written : ∀ p table j, (ofMem s.mem).tables p = some table → s.mem table j &&& 1 ≠ 0 →
    Written s table j

theorem Inv.onlyRequested {S : Setting} {s : Machine} (inv : Inv S s) : OnlyRequested s where
  owned := fun _ _ h => (inv.translate_cases h).2
  written := fun p table j hp hvalid => (inv.authored p table j hp hvalid).2

variable {L : Layout} {ramEnd : Nat} {mem : Mem} {ops : List Op}

/-- Whatever the heap held at boot: as long as the first page of each block holds no valid entry
when it is taken, nothing but what was asked for is translated. -/
theorem onlyRequested_of_run (h : RamRun L ramEnd mem ops)
    (htmp1 : NoEntries mem tmpPage1) (htmp2 : NoEntries mem tmpPage2)
    (hfits : ∀ c ∈ (final (run L ops (boot L mem))).calls, BlockFits c)
    (hclean : ∀ c ∈ (final (run L ops (boot L mem))).calls,
      NoEntries c.before.mem c.before.block) :
    ∃ s, run L ops (boot L mem) = .ok () s ∧ OnlyRequested s := by
  have boots : Boots (h.setting False False False) mem := ⟨htmp1, htmp2, False.elim, False.elim⟩
  obtain ⟨s, hrun, inv, -⟩ := h.spec boots fun c hc =>
    ⟨hfits c hc, Or.inr (hclean c hc), False.elim, False.elim⟩
  exact ⟨s, hrun, inv.onlyRequested⟩

theorem onlyRequested_of_run_image :
    ∃ s, run imageLayout [.kalloc 0xE8000] (boot imageLayout zeroRam) = .ok () s ∧
      OnlyRequested s := by
  obtain ⟨h, -, hcalls⟩ := image_ramRun
  exact onlyRequested_of_run h (fun j => Nat.zero_and 1) (fun j => Nat.zero_and 1)
    (fun c hc => Or.inl (hcalls c hc).1) fun c hc => (hcalls c hc).2.2.1

def usedRam : Mem := fun f j => if f = 0x40114000 ∧ j = 5 then descriptor 0 0x40000000 else 0

/-- That heap page becomes the L3 table of the UART page, and is not cleared. -/
theorem onlyRequested_fails_image : ∃ s,
    run imageLayout [] (boot imageLayout usedRam) = .ok () s ∧
    RamRun imageLayout 0x50000000 usedRam [] ∧ (∀ c ∈ s.calls, OneRegion c.before.block) ∧
    translate s.mem 0x9005000 = some ⟨0x40000000, pageAttributesForNormalMemory⟩ ∧
    ¬ Owned s 0x9005000 ∧ ¬ OnlyRequested s := by
  obtain ⟨k1, k2, s0, s, hinit, hmaps, hrequests, hcalls, hwords⟩ :=
    initMmu_small (L := imageLayout) usedRam (by decide) rfl rfl
  have hrun : run imageLayout [] (boot imageLayout usedRam) = .ok () s := by
    rw [run, bind_run hinit]
    rfl
  have hreq : s.requests = [⟨0x40007000, 0x109000, 0⟩, ⟨uartBase, 0x1000, 1⟩] :=
    hmaps.requests.trans hrequests
  have hblocks : ∀ P : Nat → Prop, P 0x40110000 → P 0x40114000 →
      ∀ c ∈ s.calls, P c.before.block := by
    intro P h1 h2 c hc
    rw [hmaps.calls, hcalls] at hc
    rcases List.mem_pair.mp hc with rfl | rfl
    · exact hmaps.block1.symm ▸ h1
    · exact hmaps.block2.symm ▸ h2
  have hword : ∀ f j, f ≠ initPageL3 → s.mem f j =
      if f = 0x40114000 ∧ j = 0 then descriptor 1 uartBase
      else if f = 0x40110000 ∧ j = 72 then 0x40114003
      else if f = initPageL1 ∧ j = 0 then 0x40110003
      else if InitTable f then initWord f j else usedRam f j := by
    intro f j hf
    rw [hmaps.words f j fun h => hf h.1, hwords f j fun h => hf h.1, started_mem]
    rfl
  have h0 : s.mem l0Table 0 = initPageL1 + 3 := by
    rw [hword _ _ (by decide), if_neg (by decide), if_neg (by decide), if_neg (by decide),
      if_pos (by decide)]
    rfl
  have h1 : s.mem initPageL1 0 = 0x40110000 + 3 := by
    rw [hword _ _ (by decide), if_neg (by decide), if_neg (by decide), if_pos (by decide)]
  have h2 : s.mem 0x40110000 72 = 0x40114000 + 3 := by
    rw [hword _ _ (by decide), if_neg (by decide), if_pos (by decide)]
  have h3 : s.mem 0x40114000 5 = descriptor 0 0x40000000 := by
    rw [hword _ _ (by decide), if_neg (by decide), if_neg (by decide), if_neg (by decide),
      if_neg (by decide), usedRam, if_pos (by decide)]
  have hwalk : translate s.mem 0x9005000 = some ⟨0x40000000, pageAttributesForNormalMemory⟩ := by
    have hleaf : s.mem 0x40114000 (l3Index 0x9005000) = descriptor 0 0x40000000 := h3
    rw [translate_links (by decide) (links_of_eq (by decide) h0) (links_of_eq (by decide) h1)
      (links_of_eq (by decide) h2)]
    simp only [translateL3, hleaf]
    rfl
  have howned : ¬ Owned s 0x9005000 := by
    rintro (⟨r, hr, hcovers⟩ | hlow | ⟨c, hc, hpage⟩)
    · rw [hreq] at hr
      rcases List.mem_pair.mp hr with rfl | rfl
      · exact absurd hcovers.1 (by decide)
      · exact absurd hcovers.2 (by decide)
    · exact absurd hlow.1 (by decide)
    · exact absurd hpage.1 (hblocks (fun b => ¬ b ≤ 0x9005000) (by decide) (by decide) c hc)
  refine ⟨s, hrun, ⟨by decide, by decide, fun _ h => absurd h List.not_mem_nil, ?_, ?_⟩,
    hblocks OneRegion (by decide) (by decide), hwalk, howned, fun h => howned (h.owned _ _ hwalk)⟩
  · intro r hr hattr
    rw [hrun, final_ok, hreq] at hr
    rcases List.mem_pair.mp hr with rfl | rfl <;> decide
  · rw [hrun, final_ok]
    exact hblocks (fun b => b + 4 * pageSize ≤ 0x50000000) (by decide) (by decide)

end SelfmadeOS
