import Mathlib.Data.Finset.Union
import Mathlib.Order.Interval.Finset.Nat
import SelfmadeOS.HeapBounds

/-!
# What the tables of a run cost

A block for a table is taken where there is no table yet, and tables are never given up. So the
regions that were asked for bound what a run pays for its tables, however often they were asked
for.
-/

namespace SelfmadeOS
set_option autoImplicit false
open StateRuns Space

def TableCall.slot (c : TableCall) : List Index := (tablePath c.va).take c.level

/-- The call supplied a table that was missing, for an address that somebody asked for. -/
structure Supplies (s s' : Machine) (c : TableCall) : Prop where
  level : 1 ≤ c.level ∧ c.level ≤ 3
  missing : (ofMem s.mem).tables c.slot = none
  there : ∃ t, (ofMem s'.mem).tables c.slot = some t
  asked : ∃ r ∈ s'.requests, r.Covers c.va

/-- The blocks that a step takes are for different tables, all of which were missing. -/
structure PaysOnce (s s' : Machine) : Prop where
  tables : ∀ p t, (ofMem s.mem).tables p = some t → (ofMem s'.mem).tables p = some t
  requests : s.requests <+: s'.requests
  calls : ∃ cs, s'.calls = s.calls ++ cs ∧ (cs.map TableCall.slot).Nodup ∧
    ∀ c ∈ cs, Supplies s s' c

namespace PaysOnce
variable {s t u : Machine}

theorem of_free (htables : ∀ p f, (ofMem s.mem).tables p = some f →
      (ofMem t.mem).tables p = some f)
    (hrequests : s.requests <+: t.requests) (hcalls : t.calls = s.calls) : PaysOnce s t := by
  refine ⟨htables, hrequests, [], ?_, List.nodup_nil, fun c hc => absurd hc List.not_mem_nil⟩
  rw [hcalls, List.append_nil]

theorem trans (h : PaysOnce s t) (h' : PaysOnce t u) : PaysOnce s u := by
  obtain ⟨htables, hrequests, cs, hcalls, hnodup, hsupplies⟩ := h
  obtain ⟨htables', hrequests', cs', hcalls', hnodup', hsupplies'⟩ := h'
  refine ⟨fun p f hf => htables' p f (htables p f hf), hrequests.trans hrequests', cs ++ cs', ?_,
    ?_, fun c hc => ?_⟩
  · rw [hcalls', hcalls, List.append_assoc]
  · rw [List.map_append]
    apply List.Nodup.append hnodup hnodup'
    intro slot hslot hslot'
    obtain ⟨c, hc, rfl⟩ := List.mem_map.mp hslot
    obtain ⟨c', hc', heq⟩ := List.mem_map.mp hslot'
    obtain ⟨f, hf⟩ := (hsupplies c hc).there
    have hmissing := (hsupplies' c' hc').missing
    rw [heq, hf] at hmissing
    cases hmissing
  · rcases List.mem_append.mp hc with hc | hc
    · obtain ⟨hlevel, hmissing, ⟨f, hf⟩, r, hr, hcovers⟩ := hsupplies c hc
      exact ⟨hlevel, hmissing, ⟨f, htables' _ f hf⟩, r, hrequests'.subset hr, hcovers⟩
    · obtain ⟨hlevel, hmissing, hthere, hasked⟩ := hsupplies' c hc
      refine ⟨hlevel, ?_, hthere, hasked⟩
      by_contra hsome
      obtain ⟨f, hf⟩ := Option.ne_none_iff_exists'.mp hsome
      rw [htables _ f hf] at hmissing
      cases hmissing

end PaysOnce

section page
variable {S : Setting} {s s' : Machine} {r : Request} {va : Nat}

theorem Inv.nextTable_pays (inv : Inv S s) (hr : r ∈ s.requests) (hcovers : r.Covers va)
    (path : List Index) (level : Nat) {table : Nat} {i : Index}
    (hpath : (ofMem s.mem).tables path = some table)
    (hslot : path ++ [i] = (tablePath va).take level)
    (hlevel : path.length + 1 = level) (hle : level ≤ 3)
    (good : Good S (final (nextTable table i va level s))) {t : Nat}
    (h : nextTable table i va level s = .ok t s') : PaysOnce s s' := by
  by_cases hmissing : s.mem table i &&& 1 = 0
  · have hgood := good.of_extends (nextTable_records va level hmissing)
    have adm := hgood.calls ⟨va, level, s.toKernel⟩
      (List.mem_append_right _ (List.mem_singleton_self _))
    obtain ⟨u, present, hrun, hgraft⟩ := nextTable_graft va level (inv.ready rfl adm)
      (by omega) hpath hmissing (inv.clean rfl adm)
    obtain ⟨-, rfl⟩ := EStateM.Result.ok.inj (hrun.symm.trans h)
    refine ⟨(hgraft.adds inv adm).tables, hgraft.requests ▸ List.prefix_rfl, _, hgraft.calls,
      List.nodup_singleton _, fun c hc => ?_⟩
    obtain rfl := List.mem_singleton.mp hc
    refine ⟨⟨hlevel ▸ Nat.le_add_left 1 _, hle⟩, ?_, ⟨s.block, ?_⟩, r, hgraft.requests ▸ hr,
      hcovers⟩
    · show (ofMem s.mem).tables ((tablePath va).take level) = none
      rw [← hslot]
      exact hgraft.graftable.slot
    · show (ofMem u.mem).tables ((tablePath va).take level) = _
      rw [← hslot, hgraft.space]
      simp only [Space.graft, Space.linkTable, List.prefix_rfl, if_true]
  · rw [nextTable_valid va level hmissing] at h
    obtain ⟨-, rfl⟩ := EStateM.Result.ok.inj h
    exact PaysOnce.of_free (fun _ _ hf => hf) List.prefix_rfl rfl

theorem Adds.paysOnce (h : Adds s s') (hcalls : s'.calls = s.calls) : PaysOnce s s' :=
  PaysOnce.of_free h.tables (h.requests ▸ List.prefix_rfl) hcalls

theorem Inv.mmuMap4kb_pays (inv : Inv S s) (hr : r ∈ s.requests) (hcovers : r.Covers va)
    (hpage : IsPage va) (good : Good S (final (mmuMap4kb l0Table va va r.attrIdx s)))
    (h : mmuMap4kb l0Table va va r.attrIdx s = .ok () s') : PaysOnce s s' := by
  have hrest2 := fun l2 => (Recorded.nextTable l2 (l2Index va) va 3).bind fun l3 =>
    Recorded.accesses.pageEntry l3 va va r.attrIdx
  have hrest1 := fun l1 => (Recorded.nextTable l1 (l1Index va) va 2).bind hrest2
  have hfirst := good.first hrest1
  obtain ⟨l1, s1, hrun1, inv1, builds1, hl1⟩ := inv.nextTable_spec [] va 1
    (ofMem_root s.mem) rfl rfl (by decide) hfirst
  have pays1 := inv.nextTable_pays hr hcovers [] 1 (ofMem_root s.mem) rfl rfl (by decide) hfirst
    hrun1
  simp only [mmuMap4kb] at good h
  rw [bind_run hrun1] at good h
  have hr1 : r ∈ s1.requests := builds1.requests ▸ hr
  have hsecond := good.first hrest2
  obtain ⟨l2, s2, hrun2, inv2, builds2, hl2⟩ := inv1.nextTable_spec [l0Index va] va 2
    hl1 rfl rfl (by decide) hsecond
  have pays2 := inv1.nextTable_pays hr1 hcovers [l0Index va] 2 hl1 rfl rfl (by decide) hsecond hrun2
  rw [bind_run hrun2] at good h
  have hr2 : r ∈ s2.requests := builds2.requests ▸ hr1
  have hthird := good.first fun l3 => Recorded.accesses.pageEntry l3 va va r.attrIdx
  obtain ⟨l3, s3, hrun3, inv3, builds3, hl3⟩ := inv2.nextTable_spec [l0Index va, l1Index va] va 3
    hl2 rfl rfl (by decide) hthird
  have pays3 := inv2.nextTable_pays hr2 hcovers [l0Index va, l1Index va] 3 hl2 rfl rfl (by decide)
    hthird hrun3
  rw [bind_run hrun3] at h
  obtain ⟨s4, hrun4, -, builds4, -⟩ := inv3.pageEntry_spec (builds3.requests ▸ hr2) hcovers
    hpage hl3
  obtain ⟨-, rfl⟩ := EStateM.Result.ok.inj (hrun4.symm.trans h)
  have hkept := HeapKept.accesses.pageEntry l3 va va r.attrIdx s3
  rw [hrun4, final_ok] at hkept
  exact ((pays1.trans pays2).trans pays3).trans (builds4.toAdds.paysOnce hkept.calls)

end page

section range
variable {S : Setting} {r : Request}

theorem Inv.mapLoop_pays {tests n adr : Nat} (haligned : adr % 4096 = 0)
    (hlow : r.address ≤ adr) (hhigh : adr + 4096 * n ≤ r.address + r.size)
    {s s' : Machine} (inv : Inv S s) (hr : r ∈ s.requests)
    (good : Good S (final (mapLoop r.attrIdx tests (4096 * n) adr s)))
    (h : mapLoop r.attrIdx tests (4096 * n) adr s = .ok () s') : PaysOnce s s' := by
  induction tests generalizing n adr s with
  | zero => cases h
  | succ tests ih =>
    cases n with
    | zero =>
      obtain ⟨-, rfl⟩ := EStateM.Result.ok.inj h
      exact PaysOnce.of_free (fun _ _ hf => hf) List.prefix_rfl rfl
    | succ n =>
      have hlimit := inv.request_limit hr
      simp only [addressLimit] at hlimit
      have hpage : IsPage adr := ⟨haligned, by omega⟩
      have hcovers : r.Covers adr := ⟨hlow, by omega⟩
      have hleft : (4096 * (n + 1) + 2 ^ 64 - blockSizeL3) % 2 ^ 64 = 4096 * n := by
        simp only [blockSizeL3]
        omega
      have hnext : (adr + blockSizeL3) % 2 ^ 64 = adr + 4096 := by
        simp only [blockSizeL3]
        omega
      simp only [mapLoop, if_pos (show 4096 * (n + 1) > 0 by omega), hleft, hnext] at good h
      have hfirst := good.first fun _ => Recorded.mapLoop _ _ _ _
      obtain ⟨s1, hrun1, inv1, builds1, -⟩ := inv.mmuMap4kb_spec hr hcovers hpage hfirst
      rw [bind_run hrun1] at good h
      apply (inv.mmuMap4kb_pays hr hcovers hpage hfirst hrun1).trans
      exact ih (by omega) (by omega) (by omega) inv1 (builds1.requests ▸ hr) good h

theorem Inv.mapRange_pays {s s' : Machine} (inv : Inv S s)
    (hr : NormalRequest s r ∨ DeviceRequest S r) (haddress : r.address % 4096 = 0)
    (hsize : r.size % 4096 = 0)
    (good : Good S (final (mapLoop r.attrIdx (2 ^ 52) r.size r.address (s.requested r))))
    (h : mapLoop r.attrIdx (2 ^ 52) r.size r.address (s.requested r) = .ok () s') :
    PaysOnce s s' := by
  have hmem : r ∈ (s.requested r).requests := List.mem_append_right _ (List.mem_singleton_self r)
  have hasked : PaysOnce s (s.requested r) :=
    PaysOnce.of_free (fun _ _ hf => hf) (List.prefix_append _ _) rfl
  obtain ⟨n, hn⟩ : ∃ n, r.size = 4096 * n := ⟨r.size / 4096, by omega⟩
  rw [hn] at good h
  exact hasked.trans ((inv.requested hr).mapLoop_pays haddress le_rfl (by omega) hmem good h)

end range

section operations
variable {S : Setting} {s s' : Machine}

theorem Inv.kalloc_pays (inv : Inv S s) (served : Served S s) {size adr : Nat}
    (good : Good S (final (kalloc size s))) (h : kalloc size s = .ok adr s') : PaysOnce s s' := by
  obtain ⟨-, -, hroom, -⟩ := inv.kalloc_builds served size good
  have haligned := allign_aligned size
  have hidem := allign_idem size
  have hfree : allignAddr s.currentFree pageSize = s.currentFree := inv.block_eq
  have htake := palloc_run s (allign size)
  rw [hidem, hfree] at htake
  rw [kalloc, bind_run htake] at good h
  generalize allign size = size at haligned hroom good h
  have hlimit := S.limit
  simp only [addressLimit] at hlimit
  rw [Nat.mod_eq_of_lt (show s.currentFree + size < 2 ^ 64 by omega)] at good h
  obtain ⟨_, t, hmap, hclear⟩ := bind_ok h
  have hgood := good.first fun _ => (Recorded.clearBlock s.currentFree size).bind fun _ =>
    Recorded.pure s.currentFree
  rw [mapAddr_run _ haligned] at hmap hgood
  rw [bind_run (clearBlock_run t _ _)] at hclear
  obtain ⟨-, rfl⟩ := EStateM.Result.ok.inj hclear
  have taken := inv.withFree haligned hroom
  have normal := inv.normalRequest size
  obtain ⟨t', hrun, inv', -, builds⟩ := taken.mapRange (r := ⟨s.currentFree, size, 0⟩) served
    (Or.inl normal) inv.aligned haligned hgood
  obtain ⟨-, rfl⟩ := EStateM.Result.ok.inj (hrun.symm.trans hmap)
  have pays := taken.mapRange_pays (r := ⟨s.currentFree, size, 0⟩) (Or.inl normal) inv.aligned
    haligned hgood hmap
  have hr : ⟨s.currentFree, size, 0⟩ ∈ t'.requests := by
    rw [builds.requests]
    exact List.mem_append_right _ (List.mem_singleton_self _)
  have hspace := inv'.cleared_space hr rfl
  have hbefore : PaysOnce s (s.withFree (s.currentFree + size)) :=
    PaysOnce.of_free (fun _ _ hf => hf) List.prefix_rfl rfl
  apply (hbefore.trans pays).trans
  exact PaysOnce.of_free (fun p f hf => hspace ▸ hf) List.prefix_rfl rfl

theorem Inv.exec_pays (inv : Inv S s) (served : Served S s) {op : Op} (legal : op.Legal S.ramEnd)
    (good : Good S (final (op.exec s))) (h : op.exec s = .ok () s') : PaysOnce s s' := by
  cases op with
  | kalloc size =>
    obtain ⟨adr, t, hrun, hpure⟩ := bind_ok h
    obtain ⟨-, rfl⟩ := EStateM.Result.ok.inj hpure
    exact inv.kalloc_pays served (good.first fun _ => Recorded.pure _) hrun
  | registerDeviceMemory address size =>
    obtain ⟨haddress, hpages, hsize, houtside, hlimit⟩ := legal
    have hrun : registerDeviceMemory address size s = _ := registerDeviceMemory_run s hsize
    change Good S (final (registerDeviceMemory address size s)) at good
    change registerDeviceMemory address size s = .ok () s' at h
    rw [hrun] at good h
    exact inv.mapRange_pays (r := ⟨address, size, 1⟩) (Or.inr ⟨rfl, haddress, houtside, hlimit⟩)
      haddress hpages good h

theorem Inv.runOps_pays {ops : List Op} (legal : ∀ op ∈ ops, op.Legal S.ramEnd) (inv : Inv S s)
    (served : Served S s) (good : Good S (final (runOps ops s)))
    (h : runOps ops s = .ok () s') : PaysOnce s s' := by
  induction ops generalizing s with
  | nil =>
    obtain ⟨-, rfl⟩ := EStateM.Result.ok.inj h
    exact PaysOnce.of_free (fun _ _ hf => hf) List.prefix_rfl rfl
  | cons op ops ih =>
    have hfirst := good.first fun _ => Recorded.runOps ops
    have hlegal := legal op List.mem_cons_self
    obtain ⟨t, hrun, inv', served'⟩ := inv.exec_spec served hlegal hfirst
    have pays := inv.exec_pays served hlegal hfirst hrun
    rw [runOps, bind_run hrun] at good h
    exact pays.trans (ih (fun op hop => legal op (List.mem_cons_of_mem _ hop)) inv' served' good h)

end operations

section boot
variable {S : Setting} {mem : Mem} {s : Machine}

theorem started_image : NormalRequest (started S.layout mem)
    ⟨kernelStart, S.layout.kernelEnd - kernelStart, 0⟩ := by
  have hstart := kernelStart_lt (S := S)
  obtain ⟨hfree, -⟩ := started_fields S.layout mem
  refine ⟨rfl, (by decide : kernelStart % 4096 = 0), le_rfl, ?_, fun p t hp hcovers => ?_⟩
  · rw [hfree]
    exact (Nat.add_sub_cancel' hstart.le).le
  · have hlow : t < kernelStart := by
      rcases started_table_cases _ _ hp with ⟨_, rfl⟩ | ⟨_, rfl⟩ | ⟨_, rfl⟩ | ⟨_, rfl⟩ <;> decide
    exact absurd hcovers.1 (Nat.not_le.mpr hlow)

theorem beforeSctlr_pays (boots : Boots S mem)
    (good : Good S (final (beforeSctlr S.layout (boot S.layout mem))))
    (h : beforeSctlr S.layout (boot S.layout mem) = .ok () s) :
    PaysOnce (started S.layout mem) s := by
  have hstart := kernelStart_lt (S := S)
  have haligned := S.layout.aligned
  have hsize : (S.layout.kernelEnd - kernelStart) % 4096 = 0 := by
    simp only [kernelStart] at hstart ⊢
    omega
  have inv := started_inv rfl boots
  rw [beforeSctlr, bind_run (initTables_run _)] at good h
  change Good S (final ((mapAddr _ _ >>= _) (started S.layout mem))) at good
  change (mapAddr _ _ >>= _) (started S.layout mem) = _ at h
  have hgood := good.first fun _ => Recorded.registerDeviceMemory 0x9000000 pageSize
  obtain ⟨_, t, hmap, huart⟩ := bind_ok h
  rw [bind_run hmap, initUart, registerDeviceMemory_run _ (by decide)] at good
  rw [initUart, registerDeviceMemory_run _ (by decide)] at huart
  rw [mapAddr_run _ hsize] at hmap hgood
  obtain ⟨t', hrun, inv', -⟩ := inv.mapRange
    (r := ⟨kernelStart, S.layout.kernelEnd - kernelStart, 0⟩) started_served (Or.inl started_image)
    (by decide : kernelStart % 4096 = 0) hsize hgood
  obtain ⟨-, rfl⟩ := EStateM.Result.ok.inj (hrun.symm.trans hmap)
  have pays := inv.mapRange_pays (r := ⟨kernelStart, S.layout.kernelEnd - kernelStart, 0⟩)
    (Or.inl started_image) (by decide : kernelStart % 4096 = 0) hsize hgood hmap
  apply pays.trans
  exact inv'.mapRange_pays (r := ⟨0x9000000, pageSize, 1⟩)
    (Or.inr ⟨rfl, by decide, Or.inl (by decide), by decide⟩) (by decide) (by decide) good huart

theorem run_pays (boots : Boots S mem) {ops : List Op} (legal : ∀ op ∈ ops, op.Legal S.ramEnd)
    (good : Good S (final (run S.layout ops (boot S.layout mem))))
    (h : run S.layout ops (boot S.layout mem) = .ok () s) : PaysOnce (started S.layout mem) s := by
  obtain ⟨_, t, hinit, hops⟩ := bind_ok h
  have hgood := good.first fun _ => Recorded.runOps ops
  obtain ⟨t', hrun, inv, served⟩ := initMmu_spec boots hgood
  obtain ⟨-, rfl⟩ := EStateM.Result.ok.inj (hrun.symm.trans hinit)
  rw [run, bind_run hinit] at good
  apply PaysOnce.trans ?_ (inv.runOps_pays legal served good hops)
  rw [initMmu_eq] at hinit hgood
  obtain ⟨_, u, hbefore, hlog⟩ := bind_ok hinit
  obtain ⟨-, rfl⟩ := EStateM.Result.ok.inj hlog
  apply (beforeSctlr_pays boots (hgood.first fun _ => Recorded.logMessage "3") hbefore).trans
  exact PaysOnce.of_free (fun _ _ hf => hf) List.prefix_rfl rfl

end boot

/-- The region of `va` that one table of a level stands for: 512 GB, 1 GB or 2 MB. -/
def region (level va : Nat) : Nat × Nat := (level, va / 2 ^ (48 - 9 * level))

def Request.regions (r : Request) : Finset (Nat × Nat) :=
  if r.size = 0 then ∅ else ({1, 2, 3} : Finset Nat).biUnion fun level =>
    (Finset.Icc (r.address / 2 ^ (48 - 9 * level))
      ((r.address + r.size - 1) / 2 ^ (48 - 9 * level))).image (Prod.mk level)

/-- The regions that the ranges asked for lie in, each of them once, apart from those whose tables
are there from the start. -/
def newRegions (requests : List Request) : Finset (Nat × Nat) :=
  requests.toFinset.biUnion Request.regions \
    {region 1 l0Table, region 2 l0Table, region 3 l0Table}

theorem Request.region_mem {r : Request} {va level : Nat} (h : r.Covers va) (hlow : 1 ≤ level)
    (hhigh : level ≤ 3) : region level va ∈ r.regions := by
  obtain ⟨hge, hlt⟩ := h
  rw [Request.regions, if_neg (by omega), Finset.mem_biUnion]
  refine ⟨level, ?_, Finset.mem_image_of_mem _ (Finset.mem_Icc.mpr ⟨?_, ?_⟩)⟩
  · simp only [Finset.mem_insert, Finset.mem_singleton]
    omega
  · exact Nat.div_le_div_right hge
  · exact Nat.div_le_div_right (by omega)

theorem take_of_region {va va' level level' : Nat} (hlow : 1 ≤ level) (hhigh : level ≤ 3)
    (h : region level va = region level' va') :
    (tablePath va).take level = (tablePath va').take level' := by
  obtain ⟨rfl, hva⟩ := Prod.mk.inj h
  have hindex : ∀ k : Nat, 48 - 9 * level ≤ k → tableIndex va k = tableIndex va' k := by
    intro k hk
    apply Fin.ext
    rw [tableIndex_val, tableIndex_val, ← Nat.sub_add_cancel hk, Nat.add_comm, Nat.pow_add,
      ← Nat.div_div_eq_div_mul, ← Nat.div_div_eq_div_mul, hva]
  obtain rfl | rfl | rfl : level = 1 ∨ level = 2 ∨ level = 3 := by omega
  · have h0 : l0Index va = l0Index va' := hindex 39 (by decide)
    simp only [tablePath, List.take_succ_cons, List.take_zero, h0]
  · have h0 : l0Index va = l0Index va' := hindex 39 (by decide)
    have h1 : l1Index va = l1Index va' := hindex 30 (by decide)
    simp only [tablePath, List.take_succ_cons, List.take_zero, h0, h1]
  · have h0 : l0Index va = l0Index va' := hindex 39 (by decide)
    have h1 : l1Index va = l1Index va' := hindex 30 (by decide)
    have h2 : l2Index va = l2Index va' := hindex 21 (by decide)
    simp only [tablePath, List.take_succ_cons, List.take_zero, h0, h1, h2]

theorem started_regions {L : Layout} {mem : Mem} {va level : Nat} (hlow : 1 ≤ level)
    (hhigh : level ≤ 3)
    (h : (ofMem (started L mem).mem).tables ((tablePath va).take level) = none) :
    region level va ∉
      ({region 1 l0Table, region 2 l0Table, region 3 l0Table} : Finset (Nat × Nat)) := by
  intro hmem
  simp only [Finset.mem_insert, Finset.mem_singleton] at hmem
  rcases hmem with heq | heq | heq <;>
    rw [take_of_region hlow hhigh heq, started_tables] at h <;> cases h

/-- A run pays for at most one table in each region that it asked for. -/
theorem PaysOnce.length_le {L : Layout} {mem : Mem} {s : Machine}
    (h : PaysOnce (started L mem) s) :
    (s.calls.map TableCall.slot).Nodup ∧ s.calls.length ≤ (newRegions s.requests).card := by
  obtain ⟨-, -, cs, hcs, hnodup, hsupplies⟩ := h
  rw [(started_fields L mem).2.2.1, List.nil_append] at hcs
  subst hcs
  refine ⟨hnodup, ?_⟩
  have hregions : (s.calls.map fun c => region c.level c.va).Nodup := by
    rw [List.Nodup, List.pairwise_map] at hnodup ⊢
    refine hnodup.imp_of_mem fun {c c'} hc _ hne heq => hne ?_
    obtain ⟨⟨hlow, hhigh⟩, -⟩ := hsupplies c hc
    exact take_of_region hlow hhigh heq
  rw [← List.length_map (f := fun c : TableCall => region c.level c.va),
    ← List.toFinset_card_of_nodup hregions]
  apply Finset.card_le_card
  intro key hkey
  obtain ⟨c, hc, rfl⟩ := List.mem_map.mp (List.mem_toFinset.mp hkey)
  obtain ⟨⟨hlow, hhigh⟩, hmissing, -, r, hr, hcovers⟩ := hsupplies c hc
  refine Finset.mem_sdiff.mpr ⟨?_, started_regions hlow hhigh hmissing⟩
  exact Finset.mem_biUnion.mpr ⟨r, List.mem_toFinset.mpr hr, r.region_mem hcovers hlow hhigh⟩

/-- The step has left memory and the bump pointer alone and taken no block. -/
structure OnlyReads (s s' : Machine) : Prop where
  kernel : s'.toKernel = s.toKernel
  requests : s'.requests = s.requests
  calls : s'.calls = s.calls

theorem OnlyReads.trans {s t u : Machine} (h : OnlyReads s t) (h' : OnlyReads t u) :
    OnlyReads s u :=
  ⟨h'.kernel.trans h.kernel, h'.requests.trans h.requests, h'.calls.trans h.calls⟩

section mapped
variable {s : Machine}

theorem nextTable_there (path : List Index) {table t : Nat} {i : Index} (va level : Nat)
    (hlen : path.length ≤ 2) (hpath : (ofMem s.mem).tables path = some table)
    (h : (ofMem s.mem).tables (path ++ [i]) = some t) :
    ∃ s', nextTable table i va level s = .ok t s' ∧ OnlyReads s s' := by
  rw [ofMem_concat i hlen, hpath, Option.bind_some] at h
  by_cases hmissing : s.mem table i &&& 1 = 0
  · rw [child_of_invalid hmissing] at h
    cases h
  · rw [child, if_neg hmissing] at h
    obtain rfl := Option.some.inj h
    exact ⟨_, nextTable_valid va level hmissing, rfl, rfl, rfl⟩

theorem mmuMap4kb_there (va attrIdx : Nat) {w : Nat} (h : (ofMem s.mem).pages va = some w) :
    ∃ s', mmuMap4kb l0Table va va attrIdx s = .ok () s' ∧ OnlyReads s s' := by
  obtain ⟨l3, hl3, hleaf⟩ := ofMem_page_table h
  obtain ⟨l1, hl1⟩ := ofMem_prefix (p := [l0Index va]) ⟨_, rfl⟩ hl3
  obtain ⟨l2, hl2⟩ := ofMem_prefix (p := [l0Index va, l1Index va]) ⟨_, rfl⟩ hl3
  obtain ⟨s1, hrun1, reads1⟩ := nextTable_there [] va 1 (by simp) (ofMem_root s.mem) hl1
  rw [← reads1.kernel] at hl1 hl2 hl3
  obtain ⟨s2, hrun2, reads2⟩ := nextTable_there [l0Index va] va 2 (by simp) hl1 hl2
  rw [← reads2.kernel] at hl2 hl3
  obtain ⟨s3, hrun3, reads3⟩ := nextTable_there [l0Index va, l1Index va] va 3 (by simp) hl2 hl3
  have reads := (reads1.trans reads2).trans reads3
  have hvalid : ¬ s3.mem l3 (l3Index va) &&& 1 = 0 := by
    intro hinvalid
    rw [reads.kernel] at hinvalid
    rw [leaf_of_invalid hinvalid] at hleaf
    cases hleaf
  refine ⟨(s3.loaded l3 (l3Index va)).logged "Error: Page already initialized", ?_,
    reads.trans ⟨rfl, rfl, rfl⟩⟩
  simp only [mmuMap4kb]
  rw [bind_run hrun1, bind_run hrun2, bind_run hrun3]
  simp only [pageEntry, bind, EStateM.bind, load_run, hvalid, if_false]
  rfl

theorem mapLoop_there (attrIdx tests n adr : Nat) (htests : n < tests)
    (h : ∀ k < n, ∃ w, (ofMem s.mem).pages (adr + 4096 * k) = some w) :
    ∃ s', mapLoop attrIdx tests (4096 * n) adr s = .ok () s' ∧ OnlyReads s s' := by
  induction tests generalizing n adr s with
  | zero => exact absurd htests (Nat.not_lt_zero n)
  | succ tests ih =>
    cases n with
    | zero => exact ⟨s, rfl, rfl, rfl, rfl⟩
    | succ n =>
      obtain ⟨w, hw⟩ := h 0 (Nat.succ_pos n)
      obtain ⟨last, hlast⟩ := h n (Nat.lt_succ_self n)
      obtain ⟨-, hlimit⟩ := ofMem_pages_isPage hlast
      have hleft : (4096 * (n + 1) + 2 ^ 64 - blockSizeL3) % 2 ^ 64 = 4096 * n := by
        simp only [blockSizeL3]
        omega
      have hnext : (adr + blockSizeL3) % 2 ^ 64 = adr + 4096 := by
        simp only [blockSizeL3]
        omega
      obtain ⟨s1, hrun1, reads1⟩ := mmuMap4kb_there adr attrIdx hw
      have hrest : ∀ k < n, ∃ w, (ofMem s1.mem).pages (adr + 4096 + 4096 * k) = some w := by
        intro k hk
        obtain ⟨w, hw⟩ := h (k + 1) (by omega)
        refine ⟨w, ?_⟩
        rwa [reads1.kernel, show adr + 4096 + 4096 * k = adr + 4096 * (k + 1) by omega]
      obtain ⟨s2, hrun2, reads2⟩ := ih n (adr + 4096) (by omega) hrest
      refine ⟨s2, ?_, reads1.trans reads2⟩
      simp only [mapLoop, if_pos (show 4096 * (n + 1) > 0 by omega), hleft, hnext]
      rw [bind_run hrun1]
      exact hrun2

/-- A call for a range of whole pages that have all been asked for before, also as RAM. -/
def Op.Again (s : Machine) : Op → Prop
  | .kalloc _ => False
  | .registerDeviceMemory address size => address % 4096 = 0 ∧ size % 4096 = 0 ∧
    ∀ page, page % 4096 = 0 → address ≤ page → page < address + size →
      ∃ r ∈ s.requests, r.Covers page

theorem Op.Again.mono {s s' : Machine} {op : Op} (h : op.Again s)
    (hrequests : s.requests <+: s'.requests) : op.Again s' := by
  cases op with
  | kalloc size => exact h.elim
  | registerDeviceMemory address size =>
    obtain ⟨haddress, hpages, hasked⟩ := h
    refine ⟨haddress, hpages, fun page hpage hlow hhigh => ?_⟩
    obtain ⟨r, hr, hcovers⟩ := hasked page hpage hlow hhigh
    exact ⟨r, hrequests.subset hr, hcovers⟩

theorem Served.exec_again {S : Setting} (served : Served S s) {op : Op} (again : op.Again s) :
    ∃ s', op.exec s = .ok () s' ∧ s'.toKernel = s.toKernel ∧ s'.calls = s.calls ∧
      s.requests <+: s'.requests ∧ Served S s' := by
  cases op with
  | kalloc size => exact again.elim
  | registerDeviceMemory address size =>
    obtain ⟨haddress, hpages, hasked⟩ := again
    have hle := Nat.mod_le size (2 ^ 32)
    obtain ⟨n, hn⟩ : ∃ n, size % 2 ^ 32 = 4096 * n := ⟨size % 2 ^ 32 / 4096, by omega⟩
    have hmapped : ∀ page, page % 4096 = 0 → address ≤ page → page < address + 4096 * n →
        Mapped S s page := by
      intro page hpage hlow hhigh
      obtain ⟨r, hr, hcovers⟩ := hasked page hpage hlow (by omega)
      exact served r hr page hpage hcovers
    obtain ⟨s', hrun, hkernel, hrequests, hcalls⟩ :=
      mapLoop_there (s := s.requested ⟨address, 4096 * n, 1⟩) 1 (2 ^ 52) n address (by omega)
        fun k hk => ⟨_, hmapped (address + 4096 * k) (by omega) (by omega) (by omega)⟩
    refine ⟨s', ?_, hkernel, hcalls, hrequests ▸ List.prefix_append _ _, ?_⟩
    · show registerDeviceMemory address size s = _
      rw [registerDeviceMemory, hn, bind_run (request_run s address (4096 * n) 1)]
      exact hrun
    · intro r hr page hpage hcovers
      rw [Mapped, hkernel]
      rw [hrequests] at hr
      rcases List.mem_append.mp hr with hr | hr
      · exact served r hr page hpage hcovers
      · obtain rfl := List.mem_singleton.mp hr
        exact hmapped page hpage hcovers.1 hcovers.2

theorem Served.runOps_again {S : Setting} (served : Served S s) {again : List Op}
    (hagain : ∀ op ∈ again, op.Again s) :
    ∃ s', runOps again s = .ok () s' ∧ s'.toKernel = s.toKernel ∧ s'.calls = s.calls := by
  induction again generalizing s with
  | nil => exact ⟨s, rfl, rfl, rfl⟩
  | cons op again ih =>
    obtain ⟨s1, hrun1, hkernel1, hcalls1, hrequests, served1⟩ :=
      served.exec_again (hagain op List.mem_cons_self)
    obtain ⟨s2, hrun2, hkernel2, hcalls2⟩ := ih served1 fun op hop =>
      (hagain op (List.mem_cons_of_mem _ hop)).mono hrequests
    exact ⟨s2, bind_run hrun1 |>.trans hrun2, hkernel2.trans hkernel1, hcalls2.trans hcalls1⟩

end mapped

section runs
variable {L : Layout} {ramEnd : Nat} {mem : Mem} {ops : List Op}

/-- No table is built twice: the blocks that a run takes for tables are at most one for each new
region of its ranges, and the heap loses nothing beyond them and what was asked for. -/
theorem tables_built_once (h : RamRun L ramEnd mem ops) (hzero : ZeroRam L ramEnd mem)
    (hfits : ∀ c ∈ (final (run L ops (boot L mem))).calls, BlockFits c) :
    ∃ s, run L ops (boot L mem) = .ok () s ∧ (s.calls.map TableCall.slot).Nodup ∧
      s.calls.length ≤ (newRegions s.requests).card ∧ s.currentFree ≤
        L.kernelEnd + heapBytes ops + 4 * pageSize * (newRegions s.requests).card := by
  have boots := h.boots_zero hzero False
  have good : Good (h.setting True False False) (final (run L ops (boot L mem))) := by
    refine ⟨fun c hc => ?_, h.requests⟩
    exact ⟨h.blocks c hc, hfits c hc, Or.inl trivial, False.elim, False.elim⟩
  obtain ⟨s, hrun, -⟩ := run_spec boots h.legal good
  change run L ops (boot L mem) = .ok () s at hrun
  obtain ⟨hnodup, hlength⟩ := (run_pays boots h.legal good hrun).length_le
  refine ⟨s, hrun, hnodup, hlength, ?_⟩
  have htaken := run_takesHeap L mem ops
  rw [hrun, final_ok] at htaken
  obtain ⟨b, hb, -, hend⟩ := htaken.from_boot.1.currentFree
  have hspent : 4 * pageSize * s.calls.length ≤ 4 * pageSize * (newRegions s.requests).card :=
    Nat.mul_le_mul_left _ hlength
  rw [hend, advance]
  exact (Nat.mod_le _ _).trans (Nat.add_le_add (Nat.add_le_add_left hb _) hspent)

/-- The small kernel takes both blocks that it is allowed, and no page more. -/
theorem tables_built_once_image :
    ∃ s, run imageLayout [.kalloc 0xE8000] (boot imageLayout zeroRam) = .ok () s ∧
      (s.calls.map TableCall.slot).Nodup ∧ s.calls.length = 2 ∧
      newRegions s.requests = {(2, 0), (3, 72)} ∧ s.currentFree ≤ 0x40200000 := by
  obtain ⟨h, hzero, hcalls⟩ := image_ramRun
  obtain ⟨s, hrun, hnodup, -, hfree⟩ :=
    tables_built_once h hzero fun c hc => Or.inl (hcalls c hc).1
  obtain ⟨k1, k2, t, himage, hrequests, hfinal⟩ := image_run
  obtain ⟨-, rfl⟩ := EStateM.Result.ok.inj (hfinal.symm.trans hrun)
  have hregions : newRegions (t.cleared 0x40118000 0xE8000).requests = {(2, 0), (3, 72)} := by
    rw [cleared_requests, hrequests]
    decide
  rw [hregions] at hfree
  refine ⟨_, hrun, hnodup, ?_, hregions, hfree⟩
  rw [cleared_calls, himage.calls]
  rfl

/-- What has been asked for stays as it was asked for: registering it again, also as a device,
changes no word of memory and takes nothing from the heap. -/
theorem registered_again (h : RamRun L ramEnd mem ops) (hzero : ZeroRam L ramEnd mem)
    (hfits : ∀ c ∈ (final (run L ops (boot L mem))).calls, BlockFits c) {again : List Op}
    (hagain : ∀ op ∈ again, op.Again (final (run L ops (boot L mem)))) :
    ∃ s s', run L ops (boot L mem) = .ok () s ∧ runOps again s = .ok () s' ∧
      s'.toKernel = s.toKernel ∧ s'.calls = s.calls := by
  obtain ⟨s, hrun, -, served⟩ := h.spec (h.boots_zero hzero False) fun c hc =>
    ⟨hfits c hc, Or.inl trivial, False.elim, False.elim⟩
  rw [hrun, final_ok] at hagain
  obtain ⟨s', hops, hkernel, hcalls⟩ := served.runOps_again hagain
  exact ⟨s, s', hrun, hops, hkernel, hcalls⟩

/-- The UART once more, and a part of a block as if it were a device. -/
theorem registered_again_image :
    ∃ s s', run imageLayout [.kalloc 0xE8000] (boot imageLayout zeroRam) = .ok () s ∧
      runOps [.registerDeviceMemory uartBase 0x1000,
        .registerDeviceMemory 0x40120000 0x8000] s = .ok () s' ∧
      s'.toKernel = s.toKernel ∧ s'.calls = s.calls := by
  obtain ⟨h, hzero, hcalls⟩ := image_ramRun
  apply registered_again h hzero fun c hc => Or.inl (hcalls c hc).1
  obtain ⟨k1, k2, t, -, hrequests, hfinal⟩ := image_run
  rw [hfinal, final_ok]
  intro op hop
  rcases List.mem_pair.mp hop with rfl | rfl
  · refine ⟨by decide, by decide, fun page _ hlow hhigh => ⟨⟨uartBase, 0x1000, 1⟩, ?_, hlow, hhigh⟩⟩
    simp [hrequests]
  · refine ⟨by decide, by decide, fun page _ hlow hhigh => ⟨⟨0x40118000, 0xE8000, 0⟩, ?_, ?_⟩⟩
    · simp [hrequests]
    · exact ⟨by dsimp only; omega, by dsimp only; omega⟩

end runs

end SelfmadeOS
