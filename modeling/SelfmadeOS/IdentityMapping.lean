import SelfmadeOS.SmallKernel
import SelfmadeOS.Walks

/-!
# What is translated is translated to itself

Leaf entries are written from four places; each is the identity as long as the pages of a block
share their upper indices.
-/

namespace SelfmadeOS
set_option autoImplicit false
open StateRuns Space

/-- The translation is the identity where it is defined; in particular it is injective, and no
page of a range that `map_addr` was asked for reaches a table. -/
structure IdentityMapped (s : Machine) : Prop where
  equal : ∀ va t, translate s.mem va = some t → t.address = va
  unaliased : ∀ va va' t t', translate s.mem va = some t → translate s.mem va' = some t' →
    t.address = t'.address → va = va'
  apart : ∀ r ∈ s.requests, r.attrIdx = 0 → ∀ va t, r.Covers va → translate s.mem va = some t →
    ∀ p table, (ofMem s.mem).tables p = some table →
      ¬ (table ≤ t.address ∧ t.address < table + 4096)

theorem translate_limit {m : Mem} {va : Nat} {t : Translation} (h : translate m va = some t) :
    va < addressLimit := by
  unfold translate at h
  split at h
  · assumption
  · cases h

section Inv
variable {S : Setting} {s : Machine} (inv : Inv S s)
include inv

theorem Inv.translate_cases {va : Nat} {t : Translation} (h : translate s.mem va = some t) :
    t = ⟨va, attributesOf (attrIdxOf S.ramEnd (pageOf va))⟩ ∧ Owned s (pageOf va) := by
  have hva := translate_limit h
  rw [inv.authored.onlyDescriptors.translate_eq hva] at h
  obtain ⟨w, hw, rfl⟩ := Option.map_eq_some_iff.mp h
  obtain ⟨rfl, howned⟩ := inv.pages_at _ _ hw
  exact ⟨mapped_descriptor hva, howned⟩

theorem Inv.identityMapped : IdentityMapped s where
  equal := by
    intro va t h
    rw [(inv.translate_cases h).1]
  unaliased := by
    intro va va' t t' h h' heq
    rw [(inv.translate_cases h).1, (inv.translate_cases h').1] at heq
    exact heq
  apart := by
    intro r hr hattr va t hcovers h p table hp ⟨hge, hlt⟩
    rw [(inv.translate_cases h).1] at hge hlt
    dsimp only at hge hlt
    obtain ⟨hlow, hhigh⟩ := hcovers
    have haligned := inv.request_aligned hr
    have htable := (inv.tables_at p table hp).1
    rcases inv.requests_at r hr with normal | device
    · exact normal.apart p table hp ⟨by omega, by omega⟩
    · rw [device.attrIdx] at hattr
      cases hattr

end Inv

variable {L : Layout} {ramEnd : Nat} {mem : Mem} {ops : List Op}

theorem identityMapped_of_run (h : RamRun L ramEnd mem ops) (hzero : ZeroRam L ramEnd mem)
    (hfits : ∀ c ∈ (final (run L ops (boot L mem))).calls, BlockFits c) :
    ∃ s, run L ops (boot L mem) = .ok () s ∧ IdentityMapped s := by
  obtain ⟨s, hrun, inv, -⟩ := h.spec (h.boots_zero hzero False) fun c hc =>
    ⟨hfits c hc, Or.inl trivial, False.elim, False.elim⟩
  exact ⟨s, hrun, inv.identityMapped⟩

theorem identityMapped_of_run_image :
    ∃ s, run imageLayout [.kalloc 0xE8000] (boot imageLayout zeroRam) = .ok () s ∧
      IdentityMapped s := by
  obtain ⟨h, hzero, hcalls⟩ := image_ramRun
  exact identityMapped_of_run h hzero fun c hc => Or.inl (hcalls c hc).1

/-- A block at `0x405FF000` straddles two regions: its fourth page becomes the L3 table of the
first one, with an entry at the index that this page has in the second. -/
theorem identityMapped_fails_image : ∃ s,
    run imageLayout [.kalloc 0x4E7000] (boot imageLayout zeroRam) = .ok () s ∧
    RamRun imageLayout 0x50000000 zeroRam [.kalloc 0x4E7000] ∧
    ZeroRam imageLayout 0x50000000 zeroRam ∧
    translate s.mem 0x40402000 = some ⟨0x40602000, pageAttributesForNormalMemory⟩ ∧
    ¬ IdentityMapped s := by
  obtain ⟨k1, k2, tests, t, htests, himage, hfree, hrequests, hrun⟩ :=
    image_kalloc 1023 (by decide)
  obtain ⟨n, rfl⟩ : ∃ n, tests = n + 1 + 1022 + 1 := ⟨tests - 1024, by omega⟩
  obtain ⟨k, k', s1, hmap, hblock, hcalls, hrequests', -, -, hmem⟩ :=
    himage.nextRegion hfree (by decide) (by decide) (by decide)
  simp only [Nat.reduceMul, Nat.reduceAdd] at hrun hrequests hmem hblock
  have h0 : s1.mem l0Table 0 = initPageL1 + 3 := by
    rw [hmem]
    exact (himage.nextRegion_word (by decide) (by decide) (by decide) (by decide) (by decide)
      (by decide)).trans rfl
  have h1 : s1.mem initPageL1 1 = initPageL2 + 3 := by
    rw [hmem]
    exact (himage.nextRegion_word (by decide) (by decide) (by decide) (by decide) (by decide)
      (by decide)).trans rfl
  have h21 : s1.mem initPageL2 1 = 0x405FF000 + 3 := by
    rw [hmem]
    rfl
  have h22 : s1.mem initPageL2 2 = 0x40602000 + 3 := by
    rw [hmem]
    rfl
  have h3 : s1.mem 0x40602000 2 = descriptor 0 0x40602000 := by
    rw [hmem]
    rfl
  obtain ⟨s2, hloop, hsettles⟩ := mapLoop_settles (s := s1)
    (fun f _ => f = 0x405FF000 ∨ f = 0x40602000) 1022 0 (n + 1) 0x40201000 (Or.inl rfl)
    (by decide) fun k hk => by
      have hi0 : l0Index (0x40201000 + 4096 * k) = 0 := by
        simp only [Fin.ext_iff, l0Index_val, Fin.val_zero]
        omega
      have hi1 : l1Index (0x40201000 + 4096 * k) = 1 := by
        simp only [Fin.ext_iff, l1Index_val, Fin.val_one]
        omega
      have hi2 : l2Index (0x40201000 + 4096 * k) = 1 ∨ l2Index (0x40201000 + 4096 * k) = 2 := by
        simp only [Fin.ext_iff, l2Index_val, Fin.val_one, Fin.val_two]
        omega
      refine ⟨initPageL1, initPageL2, ?_⟩
      rw [hi0, hi1]
      rcases hi2 with hi2 | hi2
      · rw [hi2]
        exact ⟨_, child_link (by decide) h0, child_link (by decide) h1,
          child_link (by decide) h21, Or.inl rfl⟩
      · rw [hi2]
        exact ⟨_, child_link (by decide) h0, child_link (by decide) h1,
          child_link (by decide) h22, Or.inr rfl⟩
  have hfinal := hrun s2 (by
    rw [mapLoop, if_pos (by decide), bind_run hmap]
    exact hloop)
  have hkept : ∀ f j, ¬ Mem.InRange 0x40118000 0x4E7000 f → s1.mem f j &&& 1 ≠ 0 →
      (s2.cleared 0x40118000 0x4E7000).mem f j = s1.mem f j := by
    intro f j hf hvalid
    rw [cleared_mem, Mem.clear, if_neg hf, hsettles.words f j (Or.inl hvalid)]
  have hleaf : (s2.cleared 0x40118000 0x4E7000).mem 0x40602000 (l3Index 0x40402000) =
      descriptor 0 0x40602000 := (hkept _ 2 (by decide) (by rw [h3]; decide)).trans h3
  have hwalk : translate (s2.cleared 0x40118000 0x4E7000).mem 0x40402000 =
      some ⟨0x40602000, pageAttributesForNormalMemory⟩ := by
    rw [translate_links (by decide)
      (links_of_eq (by decide) ((hkept l0Table 0 (by decide) (by rw [h0]; decide)).trans h0))
      (links_of_eq (by decide) ((hkept initPageL1 1 (by decide) (by rw [h1]; decide)).trans h1))
      (links_of_eq (by decide) ((hkept initPageL2 2 (by decide) (by rw [h22]; decide)).trans h22))]
    simp only [translateL3, hleaf]
    rfl
  rw [← hsettles.calls] at hcalls
  refine ⟨_, hfinal, image_ramRun_kalloc hfinal ?_ (by decide) ?_, fun _ _ _ => rfl, hwalk, ?_⟩
  · rw [cleared_requests, hsettles.requests, hrequests', hrequests]
  · rw [cleared_calls]
    exact himage.blocks (P := fun b => b + 4 * pageSize ≤ 0x50000000) hcalls (by decide)
      (by decide) (hblock.symm ▸ by decide)
  · intro h
    have heq := h.equal _ _ hwalk
    exact absurd heq (by decide)

end SelfmadeOS
