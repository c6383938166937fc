import Mathlib.Data.List.Pairwise
import Mathlib.Order.CompletePartialOrder
import Mathlib.Order.Interval.Set.Disjoint
import SelfmadeOS.HeapBounds

/-!
# The blocks of the heap and their owners

Between the calls the owners write to their blocks. Blocks, table blocks, the pages of
`init_mmu` and the kernel image never share a byte, and a call writes to none of the blocks
that were there before it.
-/

namespace SelfmadeOS
set_option autoImplicit false
open StateRuns Space

/-- Disjoint ranges, all between `low` and `high`. -/
structure Layered (low high : Nat) (ranges : List (Set Nat)) : Prop where
  pairwise : ranges.Pairwise Disjoint
  inside : ∀ r ∈ ranges, r ⊆ Set.Ico low high

section layers
variable {low middle high : Nat} {ranges more : List (Set Nat)}

theorem Layered.nil (low high : Nat) : Layered low high [] :=
  ⟨List.Pairwise.nil, fun _ h => absurd h List.not_mem_nil⟩

theorem Layered.singleton (low high : Nat) : Layered low high [Set.Ico low high] := by
  refine ⟨List.pairwise_singleton _ _, fun r hr => ?_⟩
  rw [List.mem_singleton.mp hr]

theorem Layered.append (h : Layered low middle ranges) (h' : Layered middle high more)
    (hlow : low ≤ middle) (hhigh : middle ≤ high) : Layered low high (ranges ++ more) := by
  refine ⟨List.pairwise_append.mpr ⟨h.pairwise, h'.pairwise, fun r hr r' hr' => ?_⟩, ?_⟩
  · exact (Set.Ico_disjoint_Ico_same (a := low) (b := middle) (c := high)).mono
      (h.inside r hr) (h'.inside r' hr')
  · intro r hr
    rcases List.mem_append.mp hr with hr | hr
    · exact (h.inside r hr).trans (Set.Ico_subset_Ico_right hhigh)
    · exact (h'.inside r hr).trans (Set.Ico_subset_Ico_left hlow)

theorem Layered.perm (h : Layered low high ranges) (hperm : ranges.Perm more) :
    Layered low high more :=
  ⟨(hperm.pairwise_iff fun hdisjoint => hdisjoint.symm).mp h.pairwise,
    fun r hr => h.inside r (hperm.mem_iff.mpr hr)⟩

end layers

structure Block where
  address : Nat
  size : Nat

def roundUp (size : Nat) : Nat := (size + 4095) / 4096 * 4096

def Block.bytes (b : Block) : Set Nat := Set.Ico b.address (b.address + roundUp b.size)

def TableCall.bytes (c : TableCall) : Set Nat :=
  Set.Ico c.before.block (c.before.block + 4 * pageSize)

def initPages : List Nat :=
  [initPageL0, initPageL1, initPageL2, initPageL3, tmpPage1, tmpPage2, tmpPage3]

/-- All that is in use: what stands below the heap, the blocks, and the blocks for tables. -/
def usedRanges (L : Layout) (s : Machine) (blocks : List Block) : List (Set Nat) :=
  (initPages.map fun page => Set.Ico page (page + pageSize)) ++
    Set.Ico kernelStart L.kernelEnd :: (blocks.map Block.bytes ++ s.calls.map TableCall.bytes)

/-- What happens once `init_mmu` is done: a call, or a write to a word of the given page of a
block, by its owner. -/
inductive Event where
  | kalloc (size : Nat)
  | registerDeviceMemory (address size : Nat)
  | write (block page : Nat) (index : Index) (word : Nat)

def Event.ops : Event → List Op
  | .kalloc size => [.kalloc size]
  | .registerDeviceMemory address size => [.registerDeviceMemory address size]
  | .write _ _ _ _ => []

def Block.write (b : Block) (page : Nat) (index : Index) (word : Nat) : KernelM Unit :=
  if 4096 * page < roundUp b.size then
    modify fun s => s.withMem (s.mem.set (b.address + 4096 * page) index word)
  else
    pure ()

def Event.exec (blocks : List Block) : Event → KernelM (List Block)
  | .kalloc size => do
    let adr ← SelfmadeOS.kalloc size
    return blocks ++ [⟨adr, size⟩]
  | .registerDeviceMemory address size => do
    SelfmadeOS.registerDeviceMemory address size
    return blocks
  | .write block page index word => do
    blocks[block]?.forM fun b => b.write page index word
    return blocks

def runEvents : List Event → List Block → KernelM (List Block)
  | [], blocks => pure blocks
  | event :: events, blocks => do
    let blocks ← event.exec blocks
    runEvents events blocks

def runOwned (L : Layout) (events : List Event) : KernelM (List Block) := do
  initMmu L
  runEvents events []

/-- Legal device ranges, sizes that can be rounded up, a heap that lasts, and blocks for tables
in one region each. -/
structure HeapServes (L : Layout) (mem : Mem) (events : List Event) : Prop where
  legal : ∀ op ∈ events.flatMap Event.ops, op.Legal kernelHeapEnd
  rounds : ∀ op ∈ events.flatMap Event.ops, op.Rounds
  room : L.kernelEnd + heapBytes (events.flatMap Event.ops) +
    4 * pageSize * (final (runOwned L events (boot L mem))).calls.length ≤ kernelHeapEnd
  regions : ∀ c ∈ (final (runOwned L events (boot L mem))).calls, OneRegion c.before.block

/-- No two ranges in use share a byte; a block is zero when `kalloc` returns it; and no call
changes a word of a block that was there before. -/
structure BlocksSafe (L : Layout) (mem : Mem) (events : List Event) : Prop where
  disjoint : ∃ blocks s, runOwned L events (boot L mem) = .ok blocks s ∧
    (usedRanges L s blocks).Pairwise Disjoint
  zeroed : ∀ before size after blocks s p s', events = before ++ .kalloc size :: after →
    runOwned L before (boot L mem) = .ok blocks s → kalloc size s = .ok p s' →
      ∀ page ∈ Block.bytes ⟨p, size⟩, ∀ j, s'.mem page j = 0
  kept : ∀ before event after blocks blocks' s s', events = before ++ event :: after →
    event.ops ≠ [] → runOwned L before (boot L mem) = .ok blocks s →
      event.exec blocks s = .ok blocks' s' →
        ∀ b ∈ blocks, ∀ page ∈ b.bytes, ∀ j, s'.mem page j = s.mem page j

theorem allign_eq_roundUp {size : Nat} (h : size + 4095 < 2 ^ 64) : allign size = roundUp size := by
  simp only [allign, roundUp]
  split <;> omega

section record
variable (event : Event) (events : List Event) (blocks : List Block)

theorem Block.write_run (b : Block) (page : Nat) (index : Index) (word : Nat) (s : Machine) :
    b.write page index word s = .ok () (if 4096 * page < roundUp b.size then
      s.withMem (s.mem.set (b.address + 4096 * page) index word) else s) := by
  unfold Block.write
  split
  · rfl
  · rfl

theorem Block.write_kept (b : Block) (page : Nat) (index : Index) (word : Nat) :
    HeapKept (b.write page index word) := by
  intro s
  rw [b.write_run, final_ok]
  split
  · exact ⟨rfl, rfl, rfl⟩
  · exact ⟨rfl, rfl, rfl⟩

theorem Event.exec_recorded : Recorded (event.exec blocks) := by
  cases event with
  | kalloc size => exact (Recorded.kalloc size).bind fun _ => Recorded.pure _
  | registerDeviceMemory address size =>
    exact (Recorded.registerDeviceMemory address size).bind fun _ => Recorded.pure _
  | write block page index word =>
    refine Recorded.bind ?_ fun _ => Recorded.pure _
    cases blocks[block]? with
    | none => exact Recorded.pure _
    | some b =>
      have hkept := b.write_kept page index word
      exact Recorded.of_eq fun s => ⟨(hkept s).requests, (hkept s).calls⟩

theorem runEvents_recorded : Recorded (runEvents events blocks) := by
  induction events generalizing blocks with
  | nil => exact Recorded.pure _
  | cons event events ih => exact (event.exec_recorded blocks).bind fun blocks => ih blocks

theorem Event.exec_takesHeap :
    HeapTaken (heapBytes event.ops) (mostTables event.ops) (event.exec blocks) := by
  cases event with
  | kalloc size =>
    exact (HeapTaken.kalloc size).bind fun _ => HeapTaken.of_kept (HeapKept.pure _)
  | registerDeviceMemory address size =>
    exact (HeapTaken.registerDeviceMemory address size).bind fun _ =>
      HeapTaken.of_kept (HeapKept.pure _)
  | write block page index word =>
    refine HeapTaken.of_kept (HeapKept.bind ?_ fun _ => HeapKept.pure _)
    cases blocks[block]? with
    | none => exact HeapKept.pure _
    | some b => exact b.write_kept page index word

theorem mostTables_append (ops more : List Op) :
    mostTables (ops ++ more) = mostTables ops + mostTables more := by
  simp [mostTables]

theorem runEvents_takesHeap : HeapTaken (heapBytes (events.flatMap Event.ops))
    (mostTables (events.flatMap Event.ops)) (runEvents events blocks) := by
  induction events generalizing blocks with
  | nil => exact HeapTaken.of_kept (HeapKept.pure _)
  | cons event events ih =>
    rw [List.flatMap_cons, heapBytes_append, mostTables_append]
    exact (event.exec_takesHeap blocks).bind fun blocks => ih blocks

end record

theorem Stacked.layered {free free' : Nat} {cs : List TableCall} (h : Stacked free cs free') :
    free ≤ free' ∧ Layered free free' (cs.map TableCall.bytes) := by
  induction cs generalizing free with
  | nil =>
    obtain rfl : free' = free := h
    exact ⟨le_rfl, Layered.nil _ _⟩
  | cons c cs ih =>
    obtain ⟨hblock, hrest⟩ := h
    obtain ⟨hle, hlayered⟩ := ih hrest
    have hstep : free ≤ free + 4 * pageSize := Nat.le_add_right _ _
    refine ⟨hstep.trans hle, ?_⟩
    have hfirst : Layered free (free + 4 * pageSize) [c.bytes] := by
      rw [TableCall.bytes, hblock]
      exact Layered.singleton _ _
    exact hfirst.append hlayered hstep hle

theorem Aside.of_space {s s' : Machine} {page : Nat} (h : Aside s page)
    (hspace : ofMem s'.mem = ofMem s.mem) (hle : s.currentFree ≤ s'.currentFree) :
    Aside s' page := by
  refine ⟨h.above, h.below.trans_le hle, ?_⟩
  rw [hspace]
  exact h.noTable

/-- The blocks hold no table, and everything taken from the heap lies in layers. -/
structure Holds (S : Setting) (blocks : List Block) (s : Machine) : Prop where
  inv : Inv S s
  served : Served S s
  aside : ∀ b ∈ blocks, ∀ page ∈ b.bytes, Aside s page
  layered : Layered S.layout.kernelEnd s.currentFree
    (blocks.map Block.bytes ++ s.calls.map TableCall.bytes)

namespace Holds
variable {S : Setting} {blocks : List Block} {s : Machine} (h : Holds S blocks s)
include h

theorem kalloc {size : Nat} (hround : size + 4095 < 2 ^ 64)
    (good : Good S (final (SelfmadeOS.kalloc size s))) :
    ∃ p s', SelfmadeOS.kalloc size s = .ok p s' ∧ Holds S (blocks ++ [⟨p, size⟩]) s' ∧
      (∀ page ∈ Block.bytes ⟨p, size⟩, ∀ j, s'.mem page j = 0) ∧
      ∀ page, Aside s page → ∀ j, s'.mem page j = s.mem page j := by
  obtain ⟨s1, hrun, hroom, inv1, served1, builds⟩ := h.inv.kalloc_builds h.served size good
  have hlimit := S.limit
  simp only [addressLimit] at hlimit
  rw [allign_eq_roundUp hround] at hrun hroom builds
  have hr : ⟨s.currentFree, roundUp size, 0⟩ ∈ s1.requests := by
    rw [builds.requests]
    exact List.mem_append_right _ (List.mem_singleton_self _)
  have hspace := inv1.cleared_space hr rfl
  obtain ⟨cs, hcalls, hstacked⟩ := builds.blocks
  obtain ⟨hle, hlayered⟩ := hstacked.layered
  simp only [requested_toKernel, withFree_currentFree] at hle hlayered
  have hkept : ∀ page, Aside s page → Aside s1 page ∧ ∀ j, s1.mem page j = s.mem page j :=
    fun page haside => builds.spares page
      ⟨haside.above, haside.below.trans_le (Nat.le_add_right _ _), haside.noTable⟩
  refine ⟨_, _, hrun, ⟨inv1.cleared hr rfl, served1.of_space rfl hspace, ?_, ?_⟩, ?_, ?_⟩
  · intro b hb page hpage
    rcases List.mem_append.mp hb with hb | hb
    · exact (hkept page (h.aside b hb page hpage)).1.of_space hspace le_rfl
    · rw [List.mem_singleton.mp hb] at hpage
      exact (inv1.block_aside hr rfl hpage).of_space hspace le_rfl
  · have hnew := ((Layered.singleton s.currentFree (s.currentFree + roundUp size)).append hlayered
      (Nat.le_add_right _ _) hle)
    have hall := h.layered.append hnew h.inv.above ((Nat.le_add_right _ _).trans hle)
    rw [cleared_calls, cleared_currentFree, hcalls, requested_calls, withFree_calls,
      List.map_append, List.map_append, List.append_assoc]
    rw [List.append_assoc] at hall
    exact hall.perm (List.Perm.append_left _ (List.perm_append_comm_assoc _ _ _))
  · intro page hpage j
    have hin : Mem.InRange s.currentFree (roundUp size) page := Or.inl hpage
    rw [cleared_mem, Mem.clear, if_pos hin]
  · intro page haside j
    have hbelow := haside.below
    rw [cleared_mem, Mem.clear, if_neg, (hkept page haside).2 j]
    simp only [Mem.InRange]
    omega

theorem registerDeviceMemory {address size : Nat}
    (legal : (Op.registerDeviceMemory address size).Legal S.ramEnd)
    (good : Good S (final (SelfmadeOS.registerDeviceMemory address size s))) :
    ∃ s', SelfmadeOS.registerDeviceMemory address size s = .ok () s' ∧ Holds S blocks s' ∧
      ∀ page, Aside s page → ∀ j, s'.mem page j = s.mem page j := by
  obtain ⟨haddress, hpages, hsize, houtside, hlimit⟩ := legal
  obtain ⟨s1, hrun, inv1, served1, builds⟩ := h.inv.registerDeviceMemory_builds h.served address
    size hsize haddress hpages ⟨rfl, haddress, houtside, hlimit⟩ good
  have hkept : ∀ page, Aside s page → Aside s1 page ∧ ∀ j, s1.mem page j = s.mem page j :=
    fun page haside => builds.spares page ⟨haside.above, haside.below, haside.noTable⟩
  obtain ⟨cs, hcalls, hstacked⟩ := builds.blocks
  obtain ⟨hle, hlayered⟩ := hstacked.layered
  refine ⟨s1, hrun, ⟨inv1, served1, ?_, ?_⟩, fun page haside => (hkept page haside).2⟩
  · exact fun b hb page hpage => (hkept page (h.aside b hb page hpage)).1
  · rw [hcalls, requested_calls, List.map_append, ← List.append_assoc]
    exact h.layered.append hlayered h.inv.above hle

theorem write {b : Block} (hb : b ∈ blocks) (page : Nat) (index : Index) (word : Nat) :
    ∃ s', b.write page index word s = .ok () s' ∧ Holds S blocks s' := by
  refine ⟨_, b.write_run page index word s, ?_⟩
  split
  · have haside : Aside s (b.address + 4096 * page) :=
      h.aside b hb _ ⟨Nat.le_add_right _ _, Nat.add_lt_add_left ‹_› _⟩
    have hm : ∀ p j, ¬Aside s p → s.mem.set (b.address + 4096 * page) index word p j = s.mem p j :=
      fun p j hp => Mem.set_other _ _ fun hsame => hp (hsame.1 ▸ haside)
    have hspace := ofMem_aside hm
    exact ⟨h.inv.withMem hm, h.served.of_space rfl hspace,
      fun b hb page hpage => (h.aside b hb page hpage).of_space hspace le_rfl, h.layered⟩
  · exact h

theorem exec {event : Event} (legal : ∀ op ∈ event.ops, op.Legal S.ramEnd)
    (rounds : ∀ op ∈ event.ops, op.Rounds) (good : Good S (final (event.exec blocks s))) :
    ∃ blocks' s', event.exec blocks s = .ok blocks' s' ∧ Holds S blocks' s' ∧
      (event.ops ≠ [] → ∀ page, Aside s page → ∀ j, s'.mem page j = s.mem page j) := by
  cases event with
  | kalloc size =>
    obtain ⟨p, s', hrun, holds, -, hkept⟩ := h.kalloc (rounds _ (List.mem_singleton_self _))
      (good.first fun _ => Recorded.pure _)
    exact ⟨_, s', bind_run hrun, holds, fun _ => hkept⟩
  | registerDeviceMemory address size =>
    obtain ⟨s', hrun, holds, hkept⟩ := h.registerDeviceMemory
      (legal _ (List.mem_singleton_self _)) (good.first fun _ => Recorded.pure _)
    exact ⟨blocks, s', bind_run hrun, holds, fun _ => hkept⟩
  | write block page index word =>
    have hops : (Event.write block page index word).ops = [] := rfl
    cases hget : blocks[block]? with
    | none =>
      refine ⟨blocks, s, ?_, h, fun hne => absurd hops hne⟩
      simp only [Event.exec, hget]
      rfl
    | some b =>
      obtain ⟨s', hrun, holds⟩ := h.write (List.mem_of_getElem? hget) page index word
      refine ⟨blocks, s', ?_, holds, fun hne => absurd hops hne⟩
      simp only [Event.exec, hget]
      exact bind_run hrun

theorem runEvents {events : List Event}
    (legal : ∀ op ∈ events.flatMap Event.ops, op.Legal S.ramEnd)
    (rounds : ∀ op ∈ events.flatMap Event.ops, op.Rounds)
    (good : Good S (final (SelfmadeOS.runEvents events blocks s))) :
    ∃ blocks' s', SelfmadeOS.runEvents events blocks s = .ok blocks' s' ∧ Holds S blocks' s' := by
  induction events generalizing blocks s with
  | nil => exact ⟨blocks, s, rfl, h⟩
  | cons event events ih =>
    rw [List.flatMap_cons] at legal rounds
    obtain ⟨blocks', s', hrun, holds, -⟩ := h.exec
      (fun op hop => legal op (List.mem_append_left _ hop))
      (fun op hop => rounds op (List.mem_append_left _ hop))
      (good.first fun blocks => runEvents_recorded events blocks)
    rw [SelfmadeOS.runEvents, bind_run hrun] at good ⊢
    exact ih holds (fun op hop => legal op (List.mem_append_right _ hop))
      (fun op hop => rounds op (List.mem_append_right _ hop)) good

end Holds

theorem runEvents_append (events more : List Event) (blocks : List Block) :
    runEvents (events ++ more) blocks = runEvents events blocks >>= runEvents more := by
  induction events generalizing blocks with
  | nil => rfl
  | cons event events ih => simp only [List.cons_append, runEvents, ih, bind_assoc]

section runs
variable {L : Layout} {mem : Mem} {events more : List Event}

theorem runOwned_append (L : Layout) (events more : List Event) :
    runOwned L (events ++ more) = runOwned L events >>= runEvents more := by
  simp only [runOwned, runEvents_append, bind_assoc]

theorem HeapServes.first (h : HeapServes L mem (events ++ more)) : HeapServes L mem events := by
  have hext : Extends (final (runOwned L events (boot L mem)))
      (final (runOwned L (events ++ more) (boot L mem))) := by
    rw [runOwned_append]
    exact final_bind Extends.refl (fun blocks => runEvents_recorded more blocks) _
  have hroom := h.room
  have hspent := Nat.mul_le_mul_left (4 * pageSize) hext.calls.length_le
  rw [List.flatMap_append, heapBytes_append] at hroom
  refine ⟨fun op hop => h.legal op ?_, fun op hop => h.rounds op ?_, by omega,
    fun c hc => h.regions c (hext.calls.subset hc)⟩
  · rw [List.flatMap_append]
    exact List.mem_append_left _ hop
  · rw [List.flatMap_append]
    exact List.mem_append_left _ hop

def HeapServes.setting (h : HeapServes L mem events) : Setting :=
  ⟨L, kernelHeapEnd, (Nat.le_add_right _ _).trans ((Nat.le_add_right _ _).trans h.room),
    by decide, True, False, False⟩

theorem HeapServes.good (h : HeapServes L mem events) :
    Good h.setting (final (runOwned L events (boot L mem))) := by
  have htaken : TakesHeap (heapBytes (events.flatMap Event.ops))
      (initTablesMost L + mostTables (events.flatMap Event.ops)) (boot L mem)
      (final (runOwned L events (boot L mem))) := by
    rw [runOwned]
    exact boot_takesHeap L mem (runEvents_takesHeap events [])
  have record := htaken.from_boot.1
  refine ⟨fun c hc => ⟨?_, Or.inl (h.regions c hc), Or.inl trivial, False.elim, False.elim⟩,
    fun r hr hattr => (record.requests r hr hattr).trans h.room⟩
  exact (record.blocks_inside (by decide : kernelHeapEnd < 2 ^ 64) h.room hc).2.1

theorem HeapServes.boots (h : HeapServes L mem events) (hzero : ZeroRam L kernelHeapEnd mem) :
    Boots h.setting mem :=
  hzero.boots id

theorem HeapServes.holds (h : HeapServes L mem events) (hzero : ZeroRam L kernelHeapEnd mem) :
    ∃ blocks s, runOwned L events (boot L mem) = .ok blocks s ∧ Holds h.setting blocks s := by
  have good := h.good
  have hinit := good.first fun _ => runEvents_recorded events []
  obtain ⟨s, hrun, inv, served⟩ := initMmu_spec (h.boots hzero) hinit
  have hstacked := (initMmu_stacked (h.boots hzero) hinit hrun).layered.2
  have holds : Holds h.setting [] s :=
    ⟨inv, served, fun b hb => absurd hb List.not_mem_nil, hstacked⟩
  have hfirst : initMmu L (boot L mem) = .ok () s := hrun
  rw [runOwned, bind_run hfirst] at good ⊢
  exact holds.runEvents h.legal h.rounds good

theorem HeapServes.before {event : Event} (h : HeapServes L mem (events ++ event :: more))
    (hzero : ZeroRam L kernelHeapEnd mem) {blocks : List Block} {s : Machine}
    (hrun : runOwned L events (boot L mem) = .ok blocks s) :
    Holds h.setting blocks s ∧ Good h.setting (final (event.exec blocks s)) := by
  obtain ⟨blocks', s', hrun', holds⟩ := h.first.holds hzero
  obtain ⟨rfl, rfl⟩ := EStateM.Result.ok.inj (hrun.symm.trans hrun')
  have good := h.good
  rw [runOwned_append, bind_run hrun, runEvents] at good
  exact ⟨holds, good.first fun blocks => runEvents_recorded more blocks⟩

theorem initPages_layered :
    Layered initPageL0 kernelStart (initPages.map fun page => Set.Ico page (page + pageSize)) := by
  have hinside : ∀ page ∈ initPages, initPageL0 ≤ page ∧ page + pageSize ≤ kernelStart := by decide
  have hpairwise : initPages.Pairwise fun p q => min (p + pageSize) (q + pageSize) ≤ max p q := by
    decide
  refine ⟨List.pairwise_map.mpr (hpairwise.imp Set.Ico_disjoint_Ico.mpr), fun r hr => ?_⟩
  obtain ⟨page, hpage, rfl⟩ := List.mem_map.mp hr
  obtain ⟨hlow, hhigh⟩ := hinside page hpage
  exact Set.Ico_subset_Ico hlow hhigh

theorem Holds.usedRanges {S : Setting} {blocks : List Block} {s : Machine} (h : Holds S blocks s) :
    Layered initPageL0 s.currentFree (usedRanges S.layout s blocks) := by
  have habove := S.layout.above.le
  have himage := (Layered.singleton kernelStart S.layout.kernelEnd).append h.layered habove
    h.inv.above
  exact initPages_layered.append himage (by decide) (habove.trans h.inv.above)

/-- Whatever the owners write in between, their blocks stay theirs. -/
theorem blocks_safe (hzero : ZeroRam L kernelHeapEnd mem) (h : HeapServes L mem events) :
    BlocksSafe L mem events := by
  refine ⟨?_, ?_, ?_⟩
  · obtain ⟨blocks, s, hrun, holds⟩ := h.holds hzero
    exact ⟨blocks, s, hrun, holds.usedRanges.pairwise⟩
  · rintro before size after blocks s p s' rfl hrun hkalloc
    obtain ⟨holds, good⟩ := h.before hzero hrun
    have hround : (Op.kalloc size).Rounds := h.rounds _ (by simp [Event.ops])
    obtain ⟨p', t, hrun', -, hclear, -⟩ := holds.kalloc hround
      (good.first fun _ => Recorded.pure _)
    obtain ⟨rfl, rfl⟩ := EStateM.Result.ok.inj (hkalloc.symm.trans hrun')
    exact hclear
  · rintro before event after blocks blocks' s s' rfl hcall hrun hexec b hb page hpage
    obtain ⟨holds, good⟩ := h.before hzero hrun
    have hops : ∀ op ∈ event.ops, op ∈ (before ++ event :: after).flatMap Event.ops :=
      fun op hop => List.mem_flatMap.mpr ⟨event, by simp, hop⟩
    obtain ⟨blocks'', t, hrun', -, hkept⟩ := holds.exec (fun op hop => h.legal op (hops op hop))
      (fun op hop => h.rounds op (hops op hop)) good
    obtain ⟨rfl, rfl⟩ := EStateM.Result.ok.inj (hexec.symm.trans hrun')
    exact hkept hcall page (holds.aside b hb page hpage)

end runs

/-- Two blocks, one of them written to, and a device page. -/
theorem blocks_safe_image : BlocksSafe imageLayout zeroRam [.kalloc 56, .write 0 0 3 7,
    .kalloc 5000, .registerDeviceMemory 0x10000000 0x1000] := by
  have htakes := image_takes (runEvents_takesHeap [.kalloc 56, .write 0 0 3 7,
    .kalloc 5000, .registerDeviceMemory 0x10000000 0x1000] []) (by decide)
  refine blocks_safe (fun _ _ _ => rfl) ⟨?_, ?_, ?_, htakes.1⟩
  · simp only [List.flatMap_cons, List.flatMap_nil, Event.ops, List.cons_append, List.nil_append,
      List.append_nil, List.forall_mem_cons, Op.Legal]
    exact ⟨trivial, trivial, by decide, fun _ h => absurd h List.not_mem_nil⟩
  · simp only [List.flatMap_cons, List.flatMap_nil, Event.ops, List.cons_append, List.nil_append,
      List.append_nil, List.forall_mem_cons, Op.Rounds]
    exact ⟨by decide, by decide, trivial, fun _ h => absurd h List.not_mem_nil⟩
  · rw [runOwned]
    apply Nat.le_trans (Nat.add_le_add_left (Nat.mul_le_mul_left _ htakes.2) _)
    decide

end SelfmadeOS
