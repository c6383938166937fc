import SelfmadeOS.HeapBounds

/-!
# Turning translation on

When `init_mmu` writes `SCTLR_EL1` the processor goes on with the next instruction of the image,
on the stack at its end, with the tables below it and the UART beside it.
-/

namespace SelfmadeOS
set_option autoImplicit false
open StateRuns Space

/-- All that the kernel uses at that moment walks to itself. -/
structure EnabledSafely (L : Layout) (m : Mem) : Prop where
  image : ∀ va, kernelStart ≤ va → va < L.kernelEnd → translate m va = some ⟨va, attributesOf 0⟩
  initPages : ∀ va, initPageL0 ≤ va → va < kernelStart →
    translate m va = some ⟨va, attributesOf 0⟩
  uart : ∀ va, uartBase ≤ va → va < uartBase + pageSize →
    translate m va = some ⟨va, attributesOf 1⟩

section enable
variable {L : Layout} {mem : Mem}

theorem initMmu_final (L : Layout) (s : Machine) :
    (final (initMmu L s)).calls = (final (beforeSctlr L s)).calls ∧
      (final (initMmu L s)).requests = (final (beforeSctlr L s)).requests := by
  rw [initMmu_eq]
  cases hrun : beforeSctlr L s with
  | ok a t =>
    rw [bind_run hrun]
    exact ⟨rfl, rfl⟩
  | error e t =>
    rw [bind_stop hrun]
    exact ⟨rfl, rfl⟩

theorem initPages_translate {S : Setting} {s : Machine} (inv : Inv S s)
    (hkept : ∀ a w, (ofMem (started S.layout mem).mem).pages a = some w →
      (ofMem s.mem).pages a = some w) {va : Nat} (hlow : initPageL0 ≤ va)
    (hhigh : va < kernelStart) : translate s.mem va = some ⟨va, attributesOf 0⟩ := by
  simp only [initPageL0] at hlow
  simp only [kernelStart] at hhigh
  have hpage : (ofMem (started S.layout mem).mem).pages (pageOf va) =
      some (descriptor 0 (pageOf va)) := by
    rw [started_pages _ _ (pageOf_isPage (by simp only [addressLimit]; omega)), if_pos]
    simp only [initPageL0, kernelStart, pageOf]
    omega
  exact inv.authored.onlyDescriptors.translate_descriptor _
    (by simp only [addressLimit]; omega) (hkept _ _ hpage)

theorem run_nil (L : Layout) : run L [] = initMmu L := bind_pure (initMmu L)

/-- For every image that leaves room for the tables, `init_mmu` turns translation on with all of
the image, its own pages and the UART in place. -/
theorem initMmu_enabledSafely (L : Layout) (mem : Mem) (hzero : ZeroRam L kernelHeapEnd mem)
    (hroom : L.kernelEnd + 4 * pageSize * (final (initMmu L (boot L mem))).calls.length ≤
      kernelHeapEnd)
    (hregion : ∀ c ∈ (final (initMmu L (boot L mem))).calls, OneRegion c.before.block) :
    ∃ s, beforeSctlr L (boot L mem) = .ok () s ∧ EnabledSafely L s.mem := by
  have hlasts : HeapLasts L mem [] :=
    ⟨fun _ h => absurd h List.not_mem_nil, by rw [run_nil]; exact hroom⟩
  have hrun := hlasts.ramRun fun _ h => absurd h List.not_mem_nil
  obtain ⟨hcalls, hrequests⟩ := initMmu_final L (boot L mem)
  have good : Good (hrun.setting True False False) (final (beforeSctlr L (boot L mem))) := by
    have hblocks := hrun.blocks
    have hranges := hrun.requests
    rw [run_nil, hcalls] at hblocks
    rw [run_nil, hrequests] at hranges
    rw [hcalls] at hregion
    exact ⟨fun c hc => ⟨hblocks c hc, Or.inl (hregion c hc), Or.inl trivial, False.elim,
      False.elim⟩, hranges⟩
  obtain ⟨s, hbefore, inv, served, hasked, -, hkept⟩ :=
    beforeSctlr_spec (hrun.boots_zero hzero False) good
  have hall := inv.allServed served
  have himage : ⟨kernelStart, L.kernelEnd - kernelStart, 0⟩ ∈ s.requests := by
    rw [hasked]
    exact List.mem_cons_self ..
  have huart : ⟨uartBase, pageSize, 1⟩ ∈ s.requests := by
    rw [hasked]
    exact List.mem_cons_of_mem _ (List.mem_cons_self ..)
  refine ⟨s, hbefore, ⟨fun va hlow hhigh => ?_, fun va hlow hhigh => ?_, fun va hlow hhigh => ?_⟩⟩
  · exact hall _ himage va ⟨hlow, by dsimp only; omega⟩
  · exact initPages_translate inv hkept hlow hhigh
  · exact hall _ huart va ⟨hlow, hhigh⟩

end enable

theorem initMmu_enabledSafely_image : ∃ s,
    beforeSctlr imageLayout (boot imageLayout zeroRam) = .ok () s ∧
      EnabledSafely imageLayout s.mem := by
  obtain ⟨k1, k2, s, hrun, himage, -, -⟩ := image_start
  refine initMmu_enabledSafely imageLayout zeroRam (fun _ _ _ => rfl) ?_ ?_
  · rw [hrun, final_ok, himage.calls]
    show imageLayout.kernelEnd + 4 * pageSize * 2 ≤ kernelHeapEnd
    decide
  · rw [hrun, final_ok]
    exact himage.oneRegion

end SelfmadeOS
