import SelfmadeOS.Boot

/-!
# Following a run word by word

Mapping a page whose tables are there takes no block and changes an invalid word of its L3
table only, so a run over many such pages can be followed without looking at each of them. The
steps that supply a missing table are given with the memory they leave, on two of their paths.
-/

namespace SelfmadeOS
set_option autoImplicit false
open StateRuns Space

/-- Nothing but invalid words in the slots `slots` changes, and no block is taken. -/
structure Settles (slots : Nat → Index → Prop) (s s' : Machine) : Prop where
  currentFree : s'.currentFree = s.currentFree
  requests : s'.requests = s.requests
  calls : s'.calls = s.calls
  returned : s'.returned = s.returned
  words : ∀ f j, s.mem f j &&& 1 ≠ 0 ∨ ¬ slots f j → s'.mem f j = s.mem f j

/-- The tables of the address are there, and its last slot is one of `slots`. -/
def Walks (slots : Nat → Index → Prop) (m : Mem) (va : Nat) : Prop :=
  ∃ l1 l2 l3, child m l0Table (l0Index va) = some l1 ∧ child m l1 (l1Index va) = some l2 ∧
    child m l2 (l2Index va) = some l3 ∧ slots l3 (l3Index va)

section Steps
variable {slots : Nat → Index → Prop} {s s' : Machine}

theorem Settles.refl (s : Machine) : Settles slots s s := ⟨rfl, rfl, rfl, rfl, fun _ _ _ => rfl⟩

theorem Settles.trans {t : Machine} (h : Settles slots s s') (h' : Settles slots s' t) :
    Settles slots s t where
  currentFree := h'.currentFree.trans h.currentFree
  requests := h'.requests.trans h.requests
  calls := h'.calls.trans h.calls
  returned := h'.returned.trans h.returned
  words := by
    intro f j hkept
    have hfirst := h.words f j hkept
    rw [← hfirst]
    exact h'.words f j (hfirst.symm ▸ hkept)

theorem child_eq_some {m : Mem} {table next : Nat} {i : Index} :
    child m table i = some next ↔ m table i &&& 1 ≠ 0 ∧ m table i &&& addressMask = next := by
  unfold child
  split
  · rename_i h
    simp only [h, reduceCtorEq, ne_eq, not_true_eq_false, false_and]
  · rename_i h
    simp only [h, Option.some.injEq, ne_eq, not_false_eq_true, true_and]

theorem Settles.child {table next : Nat} {i : Index} (h : Settles slots s s')
    (hc : child s.mem table i = some next) : child s'.mem table i = some next := by
  have hvalid := (child_eq_some.mp hc).1
  rw [child_eq_some, h.words table i (Or.inl hvalid)]
  exact child_eq_some.mp hc

theorem Settles.walks (h : Settles slots s s') {va : Nat} (hw : Walks slots s.mem va) :
    Walks slots s'.mem va := by
  obtain ⟨l1, l2, l3, h1, h2, h3, hslot⟩ := hw
  exact ⟨l1, l2, l3, h.child h1, h.child h2, h.child h3, hslot⟩

theorem nextTable_child {table next : Nat} {i : Index} (va level : Nat)
    (h : SelfmadeOS.child s.mem table i = some next) :
    nextTable table i va level s = .ok next ((s.loaded table i).loaded table i) := by
  obtain ⟨hvalid, rfl⟩ := child_eq_some.mp h
  exact nextTable_valid va level hvalid

theorem pageEntry_settles {l3 va attrIdx : Nat} (hslot : slots l3 (l3Index va))
    (hattr : attrIdx = 0 ∨ attrIdx = 1) :
    ∃ s', pageEntry l3 va va attrIdx s = .ok () s' ∧ Settles slots s s' := by
  by_cases h : s.mem l3 (l3Index va) &&& 1 = 0
  · refine ⟨(s.loaded l3 (l3Index va)).stored l3 (l3Index va) (descriptor attrIdx va), ?_,
      rfl, rfl, rfl, rfl, fun f j hkept => ?_⟩
    · rcases hattr with rfl | rfl <;>
        simp only [pageEntry, load_bind, h, if_true, store_run, descriptor, one_ne_zero, if_false]
    · rw [stored_mem, loaded_mem]
      apply Mem.set_other
      rintro ⟨rfl, rfl⟩
      exact hkept.elim (fun hvalid => hvalid h) fun hno => hno hslot
  · refine ⟨(s.loaded l3 (l3Index va)).logged "Error: Page already initialized", ?_,
      rfl, rfl, rfl, rfl, fun _ _ _ => rfl⟩
    simp only [pageEntry, load_bind, h, if_false]
    rfl

theorem mmuMap4kb_settles {va attrIdx : Nat} (hw : Walks slots s.mem va)
    (hattr : attrIdx = 0 ∨ attrIdx = 1) :
    ∃ s', mmuMap4kb l0Table va va attrIdx s = .ok () s' ∧ Settles slots s s' := by
  obtain ⟨l1, l2, l3, h1, h2, h3, hslot⟩ := hw
  have hread : ∀ (t : Machine) (table : Nat) (i : Index), Settles slots t
      ((t.loaded table i).loaded table i) := fun t table i => ⟨rfl, rfl, rfl, rfl, fun _ _ _ => rfl⟩
  have hs1 := hread s l0Table (l0Index va)
  have hs2 := hs1.trans (hread _ l1 (l1Index va))
  have hs3 := hs2.trans (hread _ l2 (l2Index va))
  obtain ⟨s', hrun, hsettles⟩ := pageEntry_settles (s := _) hslot hattr
  refine ⟨s', ?_, hs3.trans hsettles⟩
  rw [mmuMap4kb, bind_run (nextTable_child va 1 h1), bind_run (nextTable_child va 2 (hs1.child h2)),
    bind_run (nextTable_child va 3 (hs2.child h3)), hrun]

/-- The loop up to the first page whose tables are not there. -/
theorem mapLoop_settles (slots : Nat → Index → Prop) (n rest tests adr : Nat) {attrIdx : Nat}
    (hattr : attrIdx = 0 ∨ attrIdx = 1)
    (hlimit : adr + 4096 * (n + rest) ≤ addressLimit)
    (hw : ∀ k, k < n → Walks slots s.mem (adr + 4096 * k)) :
    ∃ s', mapLoop attrIdx (tests + n) (4096 * (n + rest)) adr s =
        mapLoop attrIdx tests (4096 * rest) (adr + 4096 * n) s' ∧ Settles slots s s' := by
  induction n generalizing adr s with
  | zero => exact ⟨s, by simp, Settles.refl s⟩
  | succ n ih =>
    simp only [addressLimit] at hlimit
    have hleft : (4096 * (n + 1 + rest) + 2 ^ 64 - blockSizeL3) % 2 ^ 64 = 4096 * (n + rest) := by
      simp only [blockSizeL3]
      omega
    have hnext : (adr + blockSizeL3) % 2 ^ 64 = adr + 4096 := by
      simp only [blockSizeL3]
      omega
    obtain ⟨s1, hrun, hs1⟩ := mmuMap4kb_settles
      (show Walks slots s.mem adr from hw 0 (Nat.succ_pos n)) hattr
    obtain ⟨s', hrest, hs2⟩ := ih (adr + 4096) (s := s1)
      (by simp only [addressLimit]; omega) fun k hk => by
        have h := hs1.walks (hw (k + 1) (by omega))
        rwa [show adr + 4096 * (k + 1) = adr + 4096 + 4096 * k by omega] at h
    refine ⟨s', ?_, hs1.trans hs2⟩
    rw [← Nat.add_assoc, mapLoop, if_pos (show 4096 * (n + 1 + rest) > 0 by omega), hleft, hnext,
      bind_run hrun, hrest, show adr + 4096 + 4096 * n = adr + 4096 * (n + 1) by omega]

/-- `kalloc` up to the first page whose tables are not there. -/
theorem kalloc_settles (slots : Nat → Index → Prop) (n rest : Nat) {adr : Nat}
    (hfree : s.currentFree = adr) (haligned : adr % 4096 = 0)
    (hlimit : adr + 4096 * (n + rest) ≤ addressLimit)
    (hw : ∀ k, k < n → Walks slots s.mem (adr + 4096 * k)) :
    ∃ tests t, 2 ^ 52 = tests + n ∧
      kalloc (4096 * (n + rest)) s = (mapLoop 0 tests (4096 * rest) (adr + 4096 * n) >>= fun _ =>
        clearBlock adr (4096 * (n + rest)) >>= fun _ => pure adr) t ∧
      Settles slots ((s.withFree (adr + 4096 * (n + rest))).requested
        ⟨adr, 4096 * (n + rest), 0⟩) t := by
  simp only [addressLimit] at hlimit
  have hsize : (4096 * (n + rest)) % 4096 = 0 := by omega
  have hallign : allign (4096 * (n + rest)) = 4096 * (n + rest) := by
    rw [allign]
    simp only [hsize, lt_irrefl, if_false]
  have htake := palloc_run s (4096 * (n + rest))
  rw [hallign, hfree, allignAddr_of_aligned haligned (by omega),
    Nat.mod_eq_of_lt (show adr + 4096 * (n + rest) < 2 ^ 64 by omega)] at htake
  obtain ⟨tests, htests⟩ : ∃ tests, 2 ^ 52 = tests + n := ⟨2 ^ 52 - n, by omega⟩
  obtain ⟨t, hrun, hsettles⟩ := mapLoop_settles slots n rest tests adr
    (s := (s.withFree (adr + 4096 * (n + rest))).requested ⟨adr, 4096 * (n + rest), 0⟩)
    (Or.inl rfl) (by simpa only [addressLimit] using hlimit) hw
  refine ⟨tests, t, htests, ?_, hsettles⟩
  rw [kalloc, hallign, bind_run htake]
  simp only [bind, EStateM.bind, mapAddr_run _ hsize, htests, hrun]

theorem mapLoop_page {attrIdx tests adr : Nat}
    (h : mmuMap4kb l0Table adr adr attrIdx s = .ok () s') :
    mapLoop attrIdx (tests + 2) 4096 adr s = .ok () s' := by
  rw [mapLoop, if_pos (by decide), bind_run h]
  rfl

/-- Supplying a missing table when the block's own region has all its tables. -/
structure LinksBlock (s s' : Machine) (va level table l3 : Nat) (i : Index) : Prop where
  mem : s'.mem = (s.mem.set l3 (l3Index s.block) (descriptor 0 s.block)).set table i (s.block + 3)
  currentFree : s'.currentFree = s.block + 4 * pageSize
  requests : s'.requests = s.requests
  calls : s'.calls = s.calls ++ [⟨va, level, s.toKernel⟩]

theorem LinksBlock.words {s s' : Machine} {va level table l3 : Nat} {i : Index}
    (h : LinksBlock s s' va level table l3 i) {f : Nat} {j : Index}
    (hleaf : ¬ (f = l3 ∧ j = l3Index s.block)) :
    s'.mem f j = if f = table ∧ j = i then s.block + 3 else s.mem f j := by
  rw [h.mem, Mem.set]
  split
  · rfl
  · exact Mem.set_other _ _ hleaf

theorem nextTable_linksBlock (table l3 : Nat) (i : Index) (va level : Nat)
    (hmissing : s.mem table i &&& 1 = 0) (hpage : IsPage s.block)
    (hroom : s.block + 4 * pageSize ≤ 2 ^ 48)
    (hw : Walks (fun f j => f = l3 ∧ s.mem f j &&& 1 = 0) s.mem s.block) :
    ∃ s', nextTable table i va level s = .ok s.block s' ∧ LinksBlock s s' va level table l3 i := by
  obtain ⟨l1, l2, l3, h1, h2, h3, rfl, hleaf⟩ := hw
  obtain ⟨hv1, hl1⟩ := child_eq_some.mp h1
  obtain ⟨hv2, hl2⟩ := child_eq_some.mp h2
  obtain ⟨hv3, hl3⟩ := child_eq_some.mp h3
  have hcall := (mapPageForPagetable_present (s := (s.loaded table i).called va level)
    hv1 hl1 hv2 hl2 hv3 hl3).trans (if_pos hleaf)
  have hnext := nextTable_invalid va level hmissing hcall
  change nextTable table i va level s = .ok ((s.block ||| pageTableAttributes) &&& addressMask)
    (((((s.loaded table i).called va level).read4 l1 l2 l3).stored l3 (l3Index s.block)
      (descriptor 0 s.block)).cameBack.stored table i (s.block ||| pageTableAttributes) |>.loaded
        table i) at hnext
  rw [link_eq hpage.1, link_address hpage] at hnext
  have htakes := takes_read4 ((s.loaded table i).called va level) l1 l2 l3
  refine ⟨_, hnext, ?_, ?_, ?_, ?_⟩
  · simp only [loaded_mem, stored_mem, cameBack_toKernel, read4_mem, called_toKernel]
  · simp only [loaded_currentFree, stored_currentFree, cameBack_toKernel]
    exact htakes.currentFree_eq hroom
  · simp only [loaded_requests, stored_requests, cameBack_requests]
    exact htakes.requests
  · simp only [loaded_calls, stored_calls, cameBack_calls]
    exact htakes.calls

def newL3Mem (m : Mem) (l2 block : Nat) : Mem :=
  let l3 := block + 3 * pageSize
  (((((((m.set l2 (l2Index l3) (tmpL3Table ||| pageTableAttributes)).set tmpL3Table (l3Index l3)
    (descriptor 0 l3)).zeroPage l3).set l3 (l3Index l3) (descriptor 0 l3)).set l3 (l3Index block)
    (descriptor 0 block)).set l2 (l2Index block) (l3 + 3)).zeroPage tmpL1Table)

theorem newL3Mem_other (m : Mem) {l2 block f : Nat} (j : Index) (h2 : f ≠ l2)
    (h3 : f ≠ block + 3 * pageSize) (htmp1 : f ≠ tmpL1Table) (htmp3 : f ≠ tmpL3Table) :
    newL3Mem m l2 block f j = m f j := by
  simp only [newL3Mem, Mem.zeroPage, Mem.set, h2, h3, htmp1, htmp3, false_and, if_false]

/-- Supplying a missing table when the block's own region lacks its L3 table. -/
structure AddsL3 (s s' : Machine) (va level table l2 : Nat) (i : Index) : Prop where
  mem : s'.mem = (newL3Mem s.mem l2 s.block).set table i (s.block + 3)
  currentFree : s'.currentFree = s.block + 4 * pageSize
  requests : s'.requests = s.requests
  calls : s'.calls = s.calls ++ [⟨va, level, s.toKernel⟩]
  returned : ∃ k : Kernel, s'.returned = s.returned ++ [k] ∧ k.mem = newL3Mem s.mem l2 s.block

theorem nextTable_addsL3 (table l1 l2 : Nat) (i : Index) (va level : Nat)
    (hmissing : s.mem table i &&& 1 = 0) (hpage : IsPage s.block)
    (hroom : s.block + 4 * pageSize ≤ 2 ^ 48)
    (h1 : SelfmadeOS.child s.mem l0Table (l0Index s.block) = some l1)
    (h2 : SelfmadeOS.child s.mem l1 (l1Index s.block) = some l2)
    (h3 : s.mem l2 (l2Index s.block) &&& 1 = 0)
    (hfree : s.mem l2 (l2Index (s.block + 3 * pageSize)) &&& 1 = 0) :
    ∃ s', nextTable table i va level s = .ok s.block s' ∧ AddsL3 s s' va level table l2 i := by
  obtain ⟨hv1, hl1⟩ := child_eq_some.mp h1
  obtain ⟨hv2, hl2⟩ := child_eq_some.mp h2
  have hl3 := congrArg MapNewPageTables.newL3Pagetable (blockTables_eq hroom)
  have hl0 := congrArg MapNewPageTables.newPagetable (blockTables_eq hroom)
  dsimp only at hl3 hl0
  have hhelper := mapPageForTableL3_run (s := ((s.loaded table i).called va level).read3 l1 l2)
    l2 (blockTables s.block) (by rw [hl3, read3_mem]; exact hfree)
  have hcall := mapPageForPagetable_l3_missing (s := (s.loaded table i).called va level)
    hv1 hl1 hv2 hl2 h3 hhelper
  have hnext := nextTable_invalid va level hmissing hcall
  have htakes := (((takes_read3 ((s.loaded table i).called va level) l1 l2).linkedL3 l2
    (blockTables s.block)).stored l2 (l2Index s.block)
      ((blockTables s.block).newL3Pagetable ||| pageTableAttributes)).zeroed tmpL1Table
  have hlink : (s.block + 3 * pageSize ||| pageTableAttributes) = s.block + 3 * pageSize + 3 := by
    apply link_eq
    have haligned := hpage.1
    simp only [pageSize]
    omega
  simp only [called_toKernel, loaded_toKernel] at hnext htakes
  rw [link_eq hpage.1, link_address hpage] at hnext
  have hmem : (((((s.loaded table i).called va level).read3 l1 l2).linkedL3 l2
      (blockTables s.block) |>.stored l2 (l2Index s.block)
      ((blockTables s.block).newL3Pagetable ||| pageTableAttributes)).zeroed tmpL1Table).mem =
      newL3Mem s.mem l2 s.block := by
    simp only [zeroed_mem, stored_mem, Machine.linkedL3, read3_mem, called_toKernel,
      loaded_toKernel, hl0, hl3, hlink, newL3Mem, descriptor, if_true]
  refine ⟨_, hnext, ?_, ?_, ?_, ?_, _, ?_, hmem⟩
  · rw [loaded_mem, stored_mem, cameBack_toKernel, hmem]
  · rw [loaded_currentFree, stored_currentFree, cameBack_toKernel]
    exact htakes.currentFree_eq hroom
  · rw [loaded_requests, stored_requests, cameBack_requests]
    exact htakes.requests
  · rw [loaded_calls, stored_calls, cameBack_calls]
    exact htakes.calls
  · rw [loaded_returned, stored_returned, cameBack_returned, htakes.returned]
    rfl

end Steps

end SelfmadeOS
