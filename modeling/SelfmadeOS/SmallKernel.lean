import SelfmadeOS.PresentTables

/-!
# The start of a kernel whose image ends in the first 2 MB of RAM

The image then needs no table of its own, and `init_uart` takes two blocks: one for the L2
table and one for the L3 table of the UART page. All words outside the L3 table of the first
region are known afterwards.
-/

namespace SelfmadeOS
set_option autoImplicit false
open StateRuns Space

def uartBase : Nat := 0x9000000

/-- The tables of the first 2 MB of RAM are those of `init_mmu`. -/
structure FirstRegion (m : Mem) : Prop where
  l0 : m l0Table 0 = initPageL1 + 3
  l1 : m initPageL1 1 = initPageL2 + 3
  l2 : m initPageL2 0 = initPageL3 + 3

theorem FirstRegion.walks {m : Mem} (h : FirstRegion m) {slots : Nat → Index → Prop} {a : Nat}
    (hlow : 0x40000000 ≤ a) (hhigh : a < 0x40200000) (hslot : slots initPageL3 (l3Index a)) :
    Walks slots m a := by
  have h0 : l0Index a = 0 := by
    simp only [Fin.ext_iff, l0Index_val, Fin.val_zero]
    omega
  have h1 : l1Index a = 1 := by
    simp only [Fin.ext_iff, l1Index_val, Fin.val_one]
    omega
  have h2 : l2Index a = 0 := by
    simp only [Fin.ext_iff, l2Index_val, Fin.val_zero]
    omega
  refine ⟨initPageL1, initPageL2, initPageL3, ?_, ?_, ?_, hslot⟩
  · rw [h0]
    exact child_link (by decide) h.l0
  · rw [h1]
    exact child_link (by decide) h.l1
  · rw [h2]
    exact child_link (by decide) h.l2

theorem started_firstRegion (L : Layout) (mem : Mem) : FirstRegion (started L mem).mem := by
  constructor <;> rw [started_mem, if_pos (by decide)] <;> rfl

def ImageEntry (f : Nat) (j : Index) : Prop := f = initPageL3 ∧ 7 ≤ j.val

/-- A state in which the next two blocks lie in the first region and nothing is in the way of
the UART's tables. -/
structure BeforeUart (s : Machine) (block : Nat) : Prop where
  currentFree : s.currentFree = block
  aligned : block % 4096 = 0
  above : kernelStart < block
  small : block + 8 * pageSize ≤ 0x40200000
  region : FirstRegion s.mem
  gigabyte : s.mem initPageL1 0 &&& 1 = 0
  free : ∀ j : Index, block / 4096 % 512 ≤ j.val → s.mem initPageL3 j &&& 1 = 0
  slot2 : s.mem block 72 &&& 1 = 0
  slot3 : s.mem (block + 4 * pageSize) 0 &&& 1 = 0

/-- The step that maps the UART page from there: two blocks, one for the L2 table and one for
the L3 table of the page. -/
structure MapsUart (s s' : Machine) (block : Nat) (k1 k2 : Kernel) : Prop where
  currentFree : s'.currentFree = block + 8 * pageSize
  requests : s'.requests = s.requests
  calls : s'.calls = s.calls ++ [⟨uartBase, 2, k1⟩, ⟨uartBase, 3, k2⟩]
  block1 : k1.block = block
  block2 : k2.block = block + 4 * pageSize
  mem1 : k1.mem = s.mem
  mem2 : ∀ f j, ¬ ImageEntry f j → k2.mem f j =
    if f = initPageL1 ∧ j = 0 then block + 3 else s.mem f j
  words : ∀ f j, ¬ ImageEntry f j → s'.mem f j =
    if f = block + 4 * pageSize ∧ j = 0 then descriptor 1 uartBase
    else if f = block ∧ j = 72 then block + 4 * pageSize + 3
    else if f = initPageL1 ∧ j = 0 then block + 3
    else s.mem f j

/-- A block in the first region supplies a missing table: nothing else is needed for it. -/
theorem FirstRegion.linksBlock {t : Machine} {block : Nat} (h : FirstRegion t.mem)
    (hfree : t.currentFree = block) (haligned : block % 4096 = 0) (hlow : 0x40000000 ≤ block)
    (hhigh : block + 4 * pageSize ≤ 0x40200000)
    (hleaf : t.mem initPageL3 (l3Index block) &&& 1 = 0) {table : Nat} {i : Index}
    (hmissing : t.mem table i &&& 1 = 0) (va level : Nat) :
    t.block = block ∧ ∃ t', nextTable table i va level t = .ok block t' ∧
      LinksBlock t t' va level table initPageL3 i := by
  simp only [pageSize] at hhigh
  have hblock : t.block = block := by
    subst hfree
    exact allignAddr_of_aligned haligned (by omega)
  refine ⟨hblock, ?_⟩
  have hlinks := nextTable_linksBlock (s := t) table initPageL3 i va level hmissing
  rw [hblock] at hlinks
  apply hlinks ⟨haligned, by omega⟩
  · simp only [pageSize]
    omega
  · exact h.walks hlow (by omega) ⟨rfl, hleaf⟩

theorem not_imageEntry {block f : Nat} {j : Index} (hblock : 7 ≤ (l3Index block).val)
    (h : ¬ ImageEntry f j) : ¬ (f = initPageL3 ∧ j = l3Index block) := by
  rintro ⟨rfl, rfl⟩
  exact h ⟨rfl, hblock⟩

theorem FirstRegion.linked {s s' : Machine} (h : FirstRegion s.mem) {va level : Nat}
    (hlinks : LinksBlock s s' va level initPageL1 initPageL3 0) : FirstRegion s'.mem := by
  have hkept {f : Nat} {j : Index} (hl3 : f ≠ initPageL3) (hlink : ¬ (f = initPageL1 ∧ j = 0)) :
      s'.mem f j = s.mem f j := by
    rw [hlinks.words fun hleaf => hl3 hleaf.1, if_neg hlink]
  constructor
  · exact (hkept (by decide) fun hlink => absurd hlink.1 (by decide)).trans h.l0
  · exact (hkept (by decide) fun hlink => absurd hlink.2 (by decide)).trans h.l1
  · exact (hkept (by decide) fun hlink => absurd hlink.1 (by decide)).trans h.l2

theorem BeforeUart.mapsUart {s : Machine} {block : Nat} (h : BeforeUart s block) :
    ∃ k1 k2 s', mmuMap4kb l0Table uartBase uartBase 1 s = .ok () s' ∧
      MapsUart s s' block k1 k2 := by
  obtain ⟨hfree, haligned, habove, hsmall, hregion, hgigabyte, hleaf, hslot2, hslot3⟩ := h
  simp only [kernelStart] at habove
  simp only [pageSize] at hsmall hslot3
  have hi0 : l0Index uartBase = 0 := by decide
  have hi1 : l1Index uartBase = 0 := by decide
  have hi2 : l2Index uartBase = 72 := by decide
  have hi3 : l3Index uartBase = 0 := by decide
  have hl0 : child s.mem l0Table 0 = some initPageL1 := child_link (by decide) hregion.l0
  have hentry1 : 7 ≤ (l3Index block).val := by
    rw [l3Index_val]
    omega
  have hentry2 : 7 ≤ (l3Index (block + 4 * 4096)).val := by
    rw [l3Index_val]
    omega
  have hne : block ≠ initPageL3 ∧ block ≠ initPageL1 := by
    simp only [initPageL3, initPageL1]
    omega
  have hnew : block + 4 * 4096 ≠ initPageL3 ∧ block + 4 * 4096 ≠ initPageL1 := by
    simp only [initPageL3, initPageL1]
    omega
  -- the UART's L2 table
  obtain ⟨hb1, s1, hrun1, hs1⟩ := FirstRegion.linksBlock
    (t := (s.loaded l0Table 0).loaded l0Table 0) hregion hfree haligned (by omega)
    (by simp only [pageSize]; omega) (hleaf _ (l3Index_val block).ge) hgigabyte uartBase 2
  have hw1 : ∀ f j, ¬ ImageEntry f j → s1.mem f j =
      if f = initPageL1 ∧ j = 0 then block + 3 else s.mem f j := by
    intro f j himage
    rw [hs1.words (by rw [hb1]; exact not_imageEntry hentry1 himage), hb1]
    rfl
  have hfree1 : s1.currentFree = block + 4 * 4096 := by rw [hs1.currentFree, hb1, pageSize]
  -- the UART's L3 table
  have hleaf1 : s1.mem initPageL3 (l3Index (block + 4 * 4096)) &&& 1 = 0 := by
    rw [hs1.words, if_neg fun hlink => absurd hlink.1 (by decide)]
    · apply hleaf
      rw [l3Index_val]
      omega
    · rintro ⟨-, hsame⟩
      rw [hb1] at hsame
      simp only [Fin.ext_iff, l3Index_val] at hsame
      omega
  have hmissing1 : s1.mem block 72 &&& 1 = 0 := by
    rw [hw1 _ _ fun hentry => hne.1 hentry.1, if_neg fun hlink => hne.2 hlink.1]
    exact hslot2
  have hfits2 : block + 4 * 4096 + 4 * pageSize ≤ 0x40200000 := by
    have hpage : pageSize = 4096 := rfl
    omega
  have hregion1 : FirstRegion s1.mem := by
    apply FirstRegion.linked _ hs1
    exact hregion
  obtain ⟨hb2, s2, hrun2, hs2⟩ := hregion1.linksBlock hfree1 (by omega) (by omega)
    hfits2 hleaf1 hmissing1 uartBase 3
  have hw2 : ∀ f j, ¬ ImageEntry f j → s2.mem f j =
      if f = block ∧ j = 72 then block + 4 * 4096 + 3
      else if f = initPageL1 ∧ j = 0 then block + 3 else s.mem f j := by
    intro f j himage
    rw [hs2.words (by rw [hb2]; exact not_imageEntry hentry2 himage), hb2, hw1 f j himage]
  -- the UART's page
  have hfree3 : s2.mem (block + 4 * 4096) 0 &&& 1 = 0 := by
    rw [hw2 _ _ fun h => hnew.1 h.1, if_neg (by omega), if_neg fun h => hnew.2 h.1]
    exact hslot3
  have hlast : pageEntry (block + 4 * 4096) uartBase uartBase 1 s2 =
      .ok () ((s2.loaded (block + 4 * 4096) 0).stored (block + 4 * 4096) 0
        (descriptor 1 uartBase)) := by
    simp only [pageEntry, hi3, load_bind, hfree3, if_true, one_ne_zero, if_false, store_run,
      descriptor]
  refine ⟨_, _, (s2.loaded (block + 4 * 4096) 0).stored (block + 4 * 4096) 0
    (descriptor 1 uartBase), ?_, ⟨?_, ?_, ?_, hb1, hb2, ?_, ?_, ?_⟩⟩
  · rw [mmuMap4kb, hi0, hi1, hi2, bind_run (nextTable_child uartBase 1 hl0), bind_run hrun1,
      bind_run hrun2]
    exact hlast
  · rw [stored_currentFree, loaded_currentFree, hs2.currentFree, hb2]
    unfold pageSize
    omega
  · rw [stored_requests, loaded_requests, hs2.requests, hs1.requests, loaded_requests,
      loaded_requests]
  · rw [stored_calls, loaded_calls, hs2.calls, hs1.calls, List.append_assoc, loaded_calls,
      loaded_calls]
    rfl
  · rw [loaded_mem, loaded_mem]
  · exact hw1
  · intro f j himage
    rw [stored_mem, loaded_mem, Mem.set, hw2 f j himage, pageSize]

section Start
variable {L : Layout} (mem : Mem) (hsmall : L.kernelEnd + 8 * pageSize ≤ 0x40200000)
include hsmall

theorem mapKernel_settles : ∃ s, mapAddr kernelStart (L.kernelEnd - kernelStart)
      (started L mem) = .ok () s ∧
    Settles (fun f j => f = initPageL3 ∧ 7 ≤ j.val ∧ j.val < L.kernelEnd / 4096 % 512)
      ((started L mem).requested ⟨kernelStart, L.kernelEnd - kernelStart, 0⟩) s := by
  have habove := L.above
  have haligned := L.aligned
  simp only [kernelStart, pageSize] at habove hsmall
  obtain ⟨n, hn⟩ : ∃ n, L.kernelEnd - kernelStart = 4096 * (n + 0) :=
    ⟨(L.kernelEnd - kernelStart) / 4096, by simp only [kernelStart]; omega⟩
  have hn' : kernelStart + 4096 * n = L.kernelEnd := by
    simp only [kernelStart] at hn ⊢
    omega
  simp only [kernelStart] at hn'
  have hsize : (L.kernelEnd - kernelStart) % 4096 = 0 := by omega
  obtain ⟨tests, htests⟩ : ∃ tests, 2 ^ 52 = tests + 1 + n := ⟨2 ^ 52 - 1 - n, by omega⟩
  obtain ⟨s, hrun, hsettles⟩ := mapLoop_settles
    (fun f j => f = initPageL3 ∧ 7 ≤ j.val ∧ j.val < L.kernelEnd / 4096 % 512)
    n 0 (tests + 1) kernelStart
    (s := (started L mem).requested ⟨kernelStart, L.kernelEnd - kernelStart, 0⟩)
    (Or.inl rfl) (by simp only [addressLimit, kernelStart]; omega) fun k hk => by
      apply (started_firstRegion L mem).walks
      · simp only [kernelStart]
        omega
      · simp only [kernelStart]
        omega
      · refine ⟨rfl, ?_⟩
        simp only [l3Index_val, kernelStart]
        omega
  refine ⟨s, ?_, hsettles⟩
  have hloop : mapLoop 0 (2 ^ 52) (L.kernelEnd - kernelStart) =
      mapLoop 0 (tests + 1 + n) (4096 * (n + 0)) := by rw [hn, htests]
  rw [mapAddr_run _ hsize, hloop, hrun]
  rfl

/-- `init_mmu` of such a kernel comes back, and takes two blocks for the UART. -/
theorem initMmu_small (hslot2 : mem L.kernelEnd 72 &&& 1 = 0)
    (hslot3 : mem (L.kernelEnd + 4 * pageSize) 0 &&& 1 = 0) :
    ∃ k1 k2 s s', initMmu L (boot L mem) = .ok () s' ∧ MapsUart s s' L.kernelEnd k1 k2 ∧
      s.requests = [⟨kernelStart, L.kernelEnd - kernelStart, 0⟩, ⟨uartBase, pageSize, 1⟩] ∧
      s.calls = [] ∧ ∀ f j, ¬ ImageEntry f j → s.mem f j = (started L mem).mem f j := by
  obtain ⟨s1, hkernel, hs1⟩ := mapKernel_settles mem hsmall
  obtain ⟨hfree0, hreq0, hcalls0, -⟩ := started_fields L mem
  have habove := L.above
  simp only [kernelStart] at habove
  have hw1 : ∀ f j, ¬ (f = initPageL3 ∧ 7 ≤ j.val ∧ j.val < L.kernelEnd / 4096 % 512) →
      s1.mem f j = (started L mem).mem f j := fun f j h => hs1.words f j (Or.inr h)
  have hother : ∀ f j, f ≠ initPageL3 → s1.mem f j = (started L mem).mem f j :=
    fun f j h => hw1 f j fun h' => h h'.1
  have hstarted : ∀ f j, L.kernelEnd ≤ f → s1.mem f j = mem f j := by
    intro f j hf
    rw [hother, started_mem, if_neg]
    · rintro (rfl | rfl | rfl | rfl) <;>
        simp only [l0Table, initPageL0, initPageL1, initPageL2, initPageL3] at hf <;> omega
    · rintro rfl
      simp only [initPageL3] at hf
      omega
  have hregion := started_firstRegion L mem
  have before : BeforeUart (s1.requested ⟨uartBase, pageSize, 1⟩) L.kernelEnd := by
    refine ⟨hs1.currentFree.trans hfree0, L.aligned, L.above, hsmall,
      ⟨(hother _ _ (by decide)).trans hregion.l0, (hother _ _ (by decide)).trans hregion.l1,
        (hother _ _ (by decide)).trans hregion.l2⟩, ?_, fun j hj => ?_,
      (congrArg (· &&& 1) (hstarted _ 72 le_rfl)).trans hslot2,
      (congrArg (· &&& 1) (hstarted _ 0 (Nat.le_add_right _ _))).trans hslot3⟩
    · have h := hother initPageL1 0 (by decide)
      rw [started_mem, if_pos (by decide)] at h
      exact (congrArg (· &&& 1) h).trans rfl
    · have h := hw1 initPageL3 j (by omega)
      have hword : initWord initPageL3 j = 0 := by
        simp only [pageSize] at hsmall
        rw [initWord, if_pos rfl, if_neg (by omega)]
      rw [started_mem, if_pos (by decide), hword] at h
      exact (congrArg (· &&& 1) h).trans rfl
  obtain ⟨k1, k2, s2, hrun, hmaps⟩ := before.mapsUart
  obtain ⟨tests, htests⟩ : ∃ tests, 2 ^ 52 = tests + 2 := ⟨2 ^ 52 - 2, by omega⟩
  refine ⟨k1, k2, s1.requested ⟨uartBase, pageSize, 1⟩, s2.logged "3", ?_,
    ⟨hmaps.1, hmaps.2, hmaps.3, hmaps.4, hmaps.5, hmaps.6, hmaps.7, hmaps.8⟩, ?_, ?_, ?_⟩
  · have huart : initUart s1 = .ok () s2 := by
      rw [initUart, registerDeviceMemory_run _ (by decide), htests]
      exact mapLoop_page hrun
    rw [initMmu, bind_run (initTables_run _)]
    change (mapAddr _ _ >>= _) (started L mem) = _
    rw [bind_run hkernel, bind_run huart]
    rfl
  · rw [requested_requests, hs1.requests, requested_requests, hreq0]
    rfl
  · rw [requested_calls, hs1.calls, requested_calls, hcalls0]
  · intro f j himage
    rw [requested_toKernel]
    exact hw1 f j fun h => himage ⟨h.1, h.2.1⟩

end Start

def imageLayout : Layout := ⟨0x40110000, by decide, by decide, by decide⟩

def zeroRam : Mem := fun _ _ => 0

def imageWord (f : Nat) (j : Index) : Nat :=
  if f = 0x40114000 ∧ j = 0 then descriptor 1 uartBase
  else if f = 0x40110000 ∧ j = 72 then 0x40114003
  else if f = initPageL1 ∧ j = 0 then 0x40110003
  else if InitTable f then initWord f j else 0

/-- What is known of a state after the start of this kernel: the two calls for the UART found
the first region's tables and an unused block each. -/
structure ImageState (k1 k2 : Kernel) (s : Machine) : Prop where
  calls : s.calls = [⟨uartBase, 2, k1⟩, ⟨uartBase, 3, k2⟩]
  block1 : k1.block = 0x40110000
  block2 : k2.block = 0x40114000
  region1 : FirstRegion k1.mem
  region2 : FirstRegion k2.mem
  clean1 : NoEntries k1.mem 0x40110000
  clean2 : NoEntries k2.mem 0x40114000
  words : ∀ f j, ¬ ImageEntry f j → s.mem f j = imageWord f j

theorem image_start : ∃ k1 k2 s, initMmu imageLayout (boot imageLayout zeroRam) = .ok () s ∧
    ImageState k1 k2 s ∧ s.currentFree = 0x40118000 ∧
    s.requests = [⟨0x40007000, 0x109000, 0⟩, ⟨uartBase, 0x1000, 1⟩] := by
  obtain ⟨k1, k2, s, s', hrun, hmaps, hrequests, hcalls, hwords⟩ :=
    initMmu_small (L := imageLayout) zeroRam (by decide) rfl rfl
  have hoff : ∀ f (j : Index), f ≠ initPageL3 → ¬ ImageEntry f j := fun f j hf h => hf h.1
  have hk1 : ∀ f j, f ≠ initPageL3 → k1.mem f j = (started imageLayout zeroRam).mem f j := by
    intro f j hf
    rw [hmaps.mem1, hwords f j (hoff f j hf)]
  have hk2 : ∀ f j, f ≠ initPageL3 → ¬ (f = initPageL1 ∧ j = 0) →
      k2.mem f j = (started imageLayout zeroRam).mem f j := by
    intro f j hf hlink
    rw [hmaps.mem2 f j (hoff f j hf), if_neg hlink, hwords f j (hoff f j hf)]
  have hregion := started_firstRegion imageLayout zeroRam
  refine ⟨k1, k2, s', hrun, ⟨?_, hmaps.block1, hmaps.block2, ⟨?_, ?_, ?_⟩, ⟨?_, ?_, ?_⟩,
    fun j => ?_, fun j => ?_, fun f j himage => ?_⟩, hmaps.currentFree,
    hmaps.requests.trans hrequests⟩
  · rw [hmaps.calls, hcalls]
    rfl
  · exact (hk1 _ _ (by decide)).trans hregion.l0
  · exact (hk1 _ _ (by decide)).trans hregion.l1
  · exact (hk1 _ _ (by decide)).trans hregion.l2
  · exact (hk2 _ _ (by decide) (by decide)).trans hregion.l0
  · exact (hk2 _ _ (by decide) (by decide)).trans hregion.l1
  · exact (hk2 _ _ (by decide) (by decide)).trans hregion.l2
  · rw [hk1 _ _ (by decide), started_mem, if_neg (by decide), zeroRam, Nat.zero_and]
  · rw [hk2 _ _ (by decide) (fun h => absurd h.1 (by decide)), started_mem, if_neg (by decide),
      zeroRam, Nat.zero_and]
  · rw [hmaps.words f j himage, hwords f j himage, started_mem]
    rfl

theorem run_cons {L : Layout} {s s1 s2 : Machine} {op : Op} (hinit : initMmu L s = .ok () s1)
    (hop : op.exec s1 = .ok () s2) : run L [op] s = .ok () s2 := by
  rw [run, bind_run hinit, runOps, bind_run hop]
  rfl

theorem image_kalloc (rest : Nat) (hlimit : rest ≤ 4096) :
    ∃ k1 k2 tests t, 2 ^ 52 = tests + 232 ∧ ImageState k1 k2 t ∧
      t.currentFree = 0x40200000 + 4096 * rest ∧
      t.requests = [⟨0x40007000, 0x109000, 0⟩, ⟨uartBase, 0x1000, 1⟩,
        ⟨0x40118000, 4096 * (232 + rest), 0⟩] ∧
      ∀ t', mapLoop 0 tests (4096 * rest) 0x40200000 t = .ok () t' →
        run imageLayout [.kalloc (4096 * (232 + rest))] (boot imageLayout zeroRam) =
          .ok () (t'.cleared 0x40118000 (4096 * (232 + rest))) := by
  obtain ⟨k1, k2, s, hrun, himage, hfree, hrequests⟩ := image_start
  have hregion : FirstRegion s.mem := by
    constructor <;> rw [himage.words _ _ fun h => absurd h.1 (by decide)] <;> rfl
  obtain ⟨tests, t, htests, hkalloc, hsettles⟩ := kalloc_settles ImageEntry 232 rest
    hfree (by decide) (by simp only [addressLimit]; omega) fun k hk =>
      hregion.walks (by omega) (by omega) ⟨rfl, by rw [l3Index_val]; omega⟩
  refine ⟨k1, k2, tests, t, htests, ⟨?_, himage.block1, himage.block2, himage.region1,
    himage.region2, himage.clean1, himage.clean2, fun f j hf => ?_⟩, ?_, ?_, ?_⟩
  · rw [hsettles.calls, requested_calls, withFree_calls, himage.calls]
  · rw [hsettles.words f j (Or.inr hf), requested_toKernel, withFree_mem, himage.words f j hf]
  · rw [hsettles.currentFree, requested_toKernel, withFree_currentFree]
    omega
  · rw [hsettles.requests, requested_requests, withFree_requests, hrequests]
    rfl
  · intro t' hloop
    apply run_cons hrun
    have hclear := (bind_run (f := fun _ => clearBlock 0x40118000 (4096 * (232 + rest)) >>= fun _ =>
      (pure 0x40118000 : KernelM Nat)) hloop).trans (bind_run (clearBlock_run t' _ _))
    exact bind_run (hkalloc.trans hclear)

theorem FirstRegion.hasTable {k : Kernel} (h : FirstRegion k.mem) (hlow : 0x40000000 ≤ k.block)
    (hhigh : k.block < 0x40200000) : k.HasTable 3 := by
  obtain ⟨l1, l2, l3, h1, h2, h3, -⟩ :=
    (h.walks hlow hhigh trivial : Walks (fun _ _ => True) k.mem k.block)
  obtain ⟨hv1, hl1⟩ := child_eq_some.mp h1
  obtain ⟨hv2, hl2⟩ := child_eq_some.mp h2
  obtain ⟨hv3, hl3⟩ := child_eq_some.mp h3
  exact ⟨l3, tables_l3 hv1 hl1 hv2 hl2 hv3 hl3⟩

theorem image_ramRun_kalloc {size : Nat} {s : Machine}
    (hrun : run imageLayout [.kalloc size] (boot imageLayout zeroRam) = .ok () s)
    (hrequests : s.requests = [⟨0x40007000, 0x109000, 0⟩, ⟨uartBase, 0x1000, 1⟩,
      ⟨0x40118000, size, 0⟩]) (hsize : 0x40118000 + size ≤ 0x50000000)
    (hblocks : ∀ c ∈ s.calls, c.before.block + 4 * pageSize ≤ 0x50000000) :
    RamRun imageLayout 0x50000000 zeroRam [.kalloc size] := by
  refine ⟨by decide, by decide, ?_, ?_, ?_⟩
  · intro op hop
    rw [List.mem_singleton.mp hop]
    trivial
  · intro r hr hattr
    rw [hrun, final_ok, hrequests] at hr
    simp only [List.mem_cons, List.not_mem_nil, or_false] at hr
    rcases hr with rfl | rfl | rfl
    · decide
    · decide
    · exact hsize
  · rw [hrun, final_ok]
    exact hblocks

theorem image_run : ∃ k1 k2 t, ImageState k1 k2 t ∧
    t.requests = [⟨0x40007000, 0x109000, 0⟩, ⟨uartBase, 0x1000, 1⟩, ⟨0x40118000, 0xE8000, 0⟩] ∧
    run imageLayout [.kalloc 0xE8000] (boot imageLayout zeroRam) =
      .ok () (t.cleared 0x40118000 0xE8000) := by
  obtain ⟨k1, k2, tests, t, htests, himage, -, hrequests, hrun⟩ :=
    image_kalloc 0 (by decide)
  obtain ⟨n, rfl⟩ : ∃ n, tests = n + 1 := ⟨tests - 1, by omega⟩
  have hfinal := hrun t rfl
  simp only [Nat.add_zero, Nat.reduceMul] at hfinal hrequests
  exact ⟨k1, k2, t, himage, hrequests, hfinal⟩

/-- A run that uses the first region up: every assumption on runs holds of it. -/
theorem image_ramRun :
    RamRun imageLayout 0x50000000 zeroRam [.kalloc 0xE8000] ∧
    ZeroRam imageLayout 0x50000000 zeroRam ∧
    ∀ c ∈ (final (run imageLayout [.kalloc 0xE8000] (boot imageLayout zeroRam))).calls,
      OneRegion c.before.block ∧ ¬ OwnSlot c ∧ NoEntries c.before.mem c.before.block ∧
        c.before.HasTable 3 := by
  obtain ⟨k1, k2, t, himage, hrequests, hfinal⟩ := image_run
  have hall : ∀ P : TableCall → Prop, P ⟨uartBase, 2, k1⟩ → P ⟨uartBase, 3, k2⟩ →
      ∀ c ∈ t.calls, P c := by
    intro P h1 h2 c hc
    rw [himage.calls] at hc
    rcases List.mem_pair.mp hc with rfl | rfl
    · exact h1
    · exact h2
  have hb1 := himage.block1
  have hb2 := himage.block2
  refine ⟨image_ramRun_kalloc hfinal (by rw [cleared_requests, hrequests]) (by decide) ?_,
    fun _ _ _ => rfl, ?_⟩
  · rw [cleared_calls]
    apply hall
    · dsimp only
      rw [hb1]
      decide
    · dsimp only
      rw [hb2]
      decide
  · rw [hfinal, final_ok, cleared_calls]
    apply hall
    · refine ⟨?_, ?_, ?_, himage.region1.hasTable (by rw [hb1]; decide) (by rw [hb1]; decide)⟩
      · dsimp only
        rw [hb1]
        decide
      · simp only [OwnSlot, hb1]
        decide
      · dsimp only
        rw [hb1]
        exact himage.clean1
    · refine ⟨?_, ?_, ?_, himage.region2.hasTable (by rw [hb2]; decide) (by rw [hb2]; decide)⟩
      · dsimp only
        rw [hb2]
        decide
      · simp only [OwnSlot, hb2]
        decide
      · dsimp only
        rw [hb2]
        exact himage.clean2

theorem imageWord_ram {f : Nat} (j : Index) (h2 : f ≠ 0x40110000) (h3 : f ≠ 0x40114000)
    (hinit : ¬ InitTable f) : imageWord f j = 0 := by
  have hl1 : f ≠ initPageL1 := by
    rintro rfl
    exact hinit (by decide)
  rw [imageWord, if_neg fun h => h3 h.1, if_neg fun h => h2 h.1, if_neg fun h => hl1 h.1,
    if_neg hinit]

theorem imageWord_l2 {j : Index} (hj : j ≠ 0) : imageWord initPageL2 j = 0 := by
  rw [imageWord, if_neg (fun h => absurd h.1 (by decide)),
    if_neg (fun h => absurd h.1 (by decide)), if_neg (fun h => absurd h.1 (by decide)),
    if_pos (by decide), initWord, if_neg (by decide), if_pos rfl, if_neg hj]

section NextRegion
variable {k1 k2 : Kernel} {t : Machine} (h : ImageState k1 k2 t)
include h

theorem ImageState.word {f : Nat} (j : Index) (hf : f ≠ initPageL3) :
    t.mem f j = imageWord f j := h.words f j fun himage => hf himage.1

theorem ImageState.child_l1 : child t.mem l0Table 0 = some initPageL1 :=
  child_link (by decide) ((h.word _ (by decide)).trans rfl)

theorem ImageState.child_l2 : child t.mem initPageL1 1 = some initPageL2 :=
  child_link (by decide) ((h.word _ (by decide)).trans rfl)

theorem ImageState.l3_missing {j : Index} (hj : j ≠ 0) : t.mem initPageL2 j &&& 1 = 0 := by
  rw [h.word _ (by decide), imageWord_l2 hj, Nat.zero_and]

variable {block : Nat} (hfree : t.currentFree = block) (haligned : block % 4096 = 0)
  (hlow : 0x40200000 < block) (hhigh : block + 4 * pageSize ≤ 0x80000000)
include hfree haligned hlow hhigh

/-- The missing L3 table of the second region takes a block from the region that `block` lies
in, which has no L3 table either. -/
theorem ImageState.addsL3 {s : Machine} (hs : s.toKernel = t.toKernel) : s.block = block ∧
    ∃ s', nextTable initPageL2 1 0x40200000 3 s = .ok block s' ∧
      AddsL3 s s' 0x40200000 3 initPageL2 initPageL2 1 := by
  have hpage : pageSize = 4096 := rfl
  have hblock : s.block = block := by
    rw [hs]
    simp only [Kernel.block, hfree]
    exact allignAddr_of_aligned haligned (by omega)
  have hb0 : l0Index block = 0 := by
    simp only [Fin.ext_iff, l0Index_val, Fin.val_zero]
    omega
  have hb1 : l1Index block = 1 := by
    simp only [Fin.ext_iff, l1Index_val, Fin.val_one]
    omega
  have hl2Index : ∀ a, 0x40200000 ≤ a → a < 0x80000000 → l2Index a ≠ 0 := by
    intro a hge hlt
    simp only [ne_eq, Fin.ext_iff, l2Index_val, Fin.val_zero]
    omega
  refine ⟨hblock, ?_⟩
  have hadds := nextTable_addsL3 (s := s) initPageL2 initPageL1 initPageL2 1 0x40200000 3
  rw [hblock, hs] at hadds
  apply hadds
  · exact h.l3_missing (by decide)
  · exact ⟨haligned, by omega⟩
  · omega
  · rw [hb0]
    exact h.child_l1
  · rw [hb1]
    exact h.child_l2
  · exact h.l3_missing (hl2Index _ (by omega) (by omega))
  · exact h.l3_missing (hl2Index _ (by omega) (by omega))

theorem ImageState.nextRegion :
    ∃ k k' s', mmuMap4kb l0Table 0x40200000 0x40200000 0 t = .ok () s' ∧ k.block = block ∧
      s'.calls = t.calls ++ [⟨0x40200000, 3, k⟩] ∧ s'.requests = t.requests ∧
      k' ∈ s'.returned ∧ k'.mem = newL3Mem t.mem initPageL2 block ∧
      s'.mem = ((newL3Mem t.mem initPageL2 block).set initPageL2 1 (block + 3)).set block 0
        (descriptor 0 0x40200000) := by
  have hi0 : l0Index 0x40200000 = 0 := by decide
  have hi1 : l1Index 0x40200000 = 1 := by decide
  have hi2 : l2Index 0x40200000 = 1 := by decide
  have hi3 : l3Index 0x40200000 = 0 := by decide
  obtain ⟨s1, hs1⟩ : ∃ s1, s1 = (((t.loaded l0Table 0).loaded l0Table 0).loaded initPageL1
      1).loaded initPageL1 1 := ⟨_, rfl⟩
  have hk1 : s1.toKernel = t.toKernel := by rw [hs1]; simp only [loaded_toKernel]
  obtain ⟨hblock, s2, hrun, hadds⟩ := h.addsL3 hfree haligned hlow hhigh hk1
  obtain ⟨k', hreturned, hk'⟩ := hadds.returned
  have hmem := hadds.mem
  rw [hblock, hk1] at hk' hmem
  have hleaf : s2.mem block 0 &&& 1 = 0 := by
    have hpage : pageSize = 4096 := rfl
    have hoff : block ≠ initPageL2 ∧ block ≠ tmpL1Table ∧ block ≠ tmpL3Table ∧
        block ≠ initPageL3 := by
      simp only [initPageL2, initPageL3, tmpL1Table, tmpL3Table, tmpPage1, tmpPage3]
      omega
    have hzero : imageWord block 0 = 0 := by
      apply imageWord_ram _ (by omega) (by omega)
      simp only [InitTable, l0Table, initPageL0, initPageL1, initPageL2, initPageL3]
      omega
    rw [hmem, Mem.set_other _ _ (fun h => hoff.1 h.1), newL3Mem_other _ _ hoff.1 (by omega)
      hoff.2.1 hoff.2.2.1, h.word _ hoff.2.2.2, hzero, Nat.zero_and]
  refine ⟨s1.toKernel, k', (s2.loaded block 0).stored block 0 (descriptor 0 0x40200000), ?_,
    hblock, ?_, ?_, ?_, hk', ?_⟩
  · have hl2 : child ((t.loaded l0Table 0).loaded l0Table 0).mem initPageL1 1 =
        some initPageL2 := h.child_l2
    rw [mmuMap4kb, hi0, hi1, hi2, bind_run (nextTable_child _ 1 h.child_l1),
      bind_run (nextTable_child _ 2 hl2), ← hs1, bind_run hrun]
    simp only [pageEntry, hi3, load_bind, hleaf, if_true, store_run, descriptor]
  · rw [stored_calls, loaded_calls, hadds.calls, hs1]
    rfl
  · rw [stored_requests, loaded_requests, hadds.requests, hs1]
    rfl
  · rw [stored_returned, loaded_returned, hreturned]
    exact List.mem_append_right _ (List.mem_singleton_self _)
  · rw [stored_mem, loaded_mem, hmem]

end NextRegion

theorem ImageState.blocks {k1 k2 k : Kernel} {t s : Machine} (h : ImageState k1 k2 t) {va : Nat}
    (hcalls : s.calls = t.calls ++ [⟨va, 3, k⟩]) {P : Nat → Prop} (h1 : P 0x40110000)
    (h2 : P 0x40114000) (h3 : P k.block) : ∀ c ∈ s.calls, P c.before.block := by
  intro c hc
  rw [hcalls, h.calls] at hc
  simp only [List.cons_append, List.nil_append, List.mem_cons, List.not_mem_nil, or_false] at hc
  rcases hc with rfl | rfl | rfl
  · exact h.block1.symm ▸ h1
  · exact h.block2.symm ▸ h2
  · exact h3

theorem ImageState.nextRegion_word {k1 k2 : Kernel} {t : Machine} (h : ImageState k1 k2 t)
    {block f : Nat} {j : Index} (h2 : f ≠ initPageL2) (h3 : f ≠ initPageL3)
    (hl3 : f ≠ block + 3 * pageSize) (htmp1 : f ≠ tmpL1Table) (htmp3 : f ≠ tmpL3Table)
    (hleaf : ¬ (f = block ∧ j = 0)) :
    ((newL3Mem t.mem initPageL2 block).set initPageL2 1 (block + 3)).set block 0
      (descriptor 0 0x40200000) f j = imageWord f j := by
  rw [Mem.set_other _ _ hleaf, Mem.set_other _ _ (fun h' => h2 h'.1),
    newL3Mem_other _ _ h2 hl3 htmp1 htmp3, h.words f j fun h' => h3 h'.1]

end SelfmadeOS
