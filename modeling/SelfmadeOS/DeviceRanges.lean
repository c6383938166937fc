import SelfmadeOS.HeapBounds

/-!
# What `register_device_memory` maps

The size comes in 64 bits and is cut to 32, and the remainder is counted down to exactly 0. So
the loop ends for whole pages only, and maps what was asked for if the size was not cut.
-/

namespace SelfmadeOS
set_option autoImplicit false
open StateRuns Space

/-- The loop maps `n` pages and ends with the next test. -/
def EndsAfter (n attrIdx leftover adr : Nat) (s s' : Machine) : Prop :=
  mapLoop attrIdx (n + 1) leftover adr s = .ok () s' ∧
    mapLoop attrIdx n leftover adr s = .error .diverges s'

def ceilPages (size : Nat) : Nat := (size + 4095) / 4096

def Overlaps (address size page : Nat) : Prop := page < address + size ∧ address < page + 4096

/-- The call comes back after as many pages as the caller's size has, and the pages that it has
mapped as device memory are those of the range that nothing was mapped for. -/
def RegistersExactly (s : Machine) (address asked : Nat) : Prop :=
  ∃ s', registerDeviceMemory address asked s = .ok () s' ∧
    EndsAfter (ceilPages asked) 1 (asked % 2 ^ 32) address
      (s.requested ⟨address, asked % 2 ^ 32, 1⟩) s' ∧
    ∀ page, IsPage page →
      ((ofMem s.mem).pages page = none ∧ (ofMem s'.mem).pages page = some (descriptor 1 page) ↔
        (ofMem s.mem).pages page = none ∧ Overlaps address asked page)

section loop
variable {attrIdx leftover adr n : Nat} {s s' : Machine}

theorem EndsAfter.leftover_eq (hlt : leftover < 2 ^ 64)
    (h : EndsAfter n attrIdx leftover adr s s') : leftover = 4096 * n := by
  induction n generalizing leftover adr s with
  | zero =>
    obtain ⟨hend, -⟩ := h
    unfold mapLoop at hend
    split at hend
    · cases hpage : mmuMap4kb l0Table adr adr attrIdx s with
      | ok _ t =>
        rw [bind_run hpage] at hend
        cases hend
      | error e t =>
        rw [bind_stop hpage] at hend
        cases hend
    · omega
  | succ n ih =>
    obtain ⟨hend, hgoes⟩ := h
    unfold mapLoop at hend hgoes
    split at hend
    · rename_i hpos
      rw [if_pos hpos] at hgoes
      cases hpage : mmuMap4kb l0Table adr adr attrIdx s with
      | ok _ t =>
        rw [bind_run hpage] at hend hgoes
        have hrest := ih (Nat.mod_lt _ (by decide)) ⟨hend, hgoes⟩
        simp only [blockSizeL3] at hrest
        omega
      | error e t =>
        rw [bind_stop hpage] at hend
        cases hend
    · rename_i hzero
      rw [if_neg hzero] at hgoes
      cases hgoes

theorem mapLoop_round (hlt : 4096 * (n + 1) < 2 ^ 64) (tests : Nat) {t : Machine}
    (hpage : mmuMap4kb l0Table adr adr attrIdx s = .ok () t) :
    mapLoop attrIdx (tests + 1) (4096 * (n + 1)) adr s =
      mapLoop attrIdx tests (4096 * n) ((adr + blockSizeL3) % 2 ^ 64) t := by
  have hleft : (4096 * (n + 1) + 2 ^ 64 - blockSizeL3) % 2 ^ 64 = 4096 * n := by
    simp only [blockSizeL3]
    omega
  rw [mapLoop, if_pos (by omega), hleft, bind_run hpage]

theorem endsAfter_of_ok (hlt : 4096 * n < 2 ^ 64) {tests : Nat} (hn : n < tests)
    (h : mapLoop attrIdx tests (4096 * n) adr s = .ok () s') :
    EndsAfter n attrIdx (4096 * n) adr s s' := by
  induction n generalizing tests adr s with
  | zero =>
    obtain ⟨tests, rfl⟩ := Nat.exists_eq_add_of_lt hn
    rw [Nat.zero_add] at h
    obtain ⟨-, rfl⟩ := EStateM.Result.ok.inj h
    exact ⟨rfl, rfl⟩
  | succ n ih =>
    obtain ⟨tests, rfl⟩ := Nat.exists_eq_add_of_lt hn
    cases hpage : mmuMap4kb l0Table adr adr attrIdx s with
    | ok _ t =>
      rw [mapLoop_round hlt _ hpage] at h
      obtain ⟨hend, hgoes⟩ := ih (by omega) (by omega) h
      exact ⟨(mapLoop_round hlt _ hpage).trans hend, (mapLoop_round hlt _ hpage).trans hgoes⟩
    | error e t =>
      unfold mapLoop at h
      rw [if_pos (by omega), bind_stop hpage] at h
      cases h

end loop

/-- Only a whole number of pages that fits in 32 bits is ever registered as asked. -/
theorem RegistersExactly.wholePages {s : Machine} {address asked : Nat}
    (h : RegistersExactly s address asked) : asked % 4096 = 0 ∧ asked < 2 ^ 32 := by
  obtain ⟨s', -, hends, -⟩ := h
  have heq := hends.leftover_eq (by omega)
  unfold ceilPages at heq
  omega

section register
variable {S : Setting} {s s' : Machine} {address asked : Nat}

theorem descriptor_kind {page a b : Nat} (hpage : IsPage page) (ha : a < 2) (hb : b < 2)
    (h : descriptor a page = descriptor b page) : a = b := by
  rw [descriptor_eq hpage, descriptor_eq hpage] at h
  have hsame := Nat.add_left_cancel h
  unfold attributesOf at hsame
  split at hsame <;> split at hsame
  · omega
  · exact absurd hsame (by decide)
  · exact absurd hsame (by decide)
  · omega

/-- What is new as device memory is a page of the range, and all of them are. -/
theorem Inv.newly_mapped (served : Served S s) (haddress : address % 4096 = 0)
    (inv' : Inv S s') (served' : Served S s')
    (hrequests : s'.requests = s.requests ++ [⟨address, asked, 1⟩])
    (hblocks : ∀ c ∈ s'.calls, initPageL0 ≤ c.before.block ∧
      c.before.block + 4 * pageSize ≤ S.ramEnd) (page : Nat) (hpage : IsPage page) :
    (ofMem s.mem).pages page = none ∧ (ofMem s'.mem).pages page = some (descriptor 1 page) ↔
      (ofMem s.mem).pages page = none ∧ Overlaps address asked page := by
  have hmem : ⟨address, asked, 1⟩ ∈ s'.requests := by
    rw [hrequests]
    exact List.mem_append_right _ (List.mem_singleton_self _)
  have hcovers : Overlaps address asked page ↔
      (⟨address, asked, 1⟩ : Request).Covers page := by
    obtain ⟨haligned, -⟩ := hpage
    simp only [Overlaps, Request.Covers]
    omega
  rw [hcovers]
  constructor
  · rintro ⟨hnone, hnew⟩
    refine ⟨hnone, ?_⟩
    obtain ⟨hword, howned⟩ := inv'.pages_at page _ hnew
    have hkind : attrIdxOf S.ramEnd page = 1 := by
      have hlt : attrIdxOf S.ramEnd page < 2 := by
        unfold attrIdxOf
        split <;> decide
      exact (descriptor_kind hpage (by decide) hlt hword).symm
    have hout : ¬(initPageL0 ≤ page ∧ page < S.ramEnd) := by
      intro hin
      rw [attrIdxOf, if_pos hin] at hkind
      cases hkind
    have habove := kernelStart_lt (S := S)
    have hroom := S.room
    rcases howned with ⟨r, hr, hr'⟩ | hinit | ⟨c, hc, hlow, hhigh⟩
    · rw [hrequests] at hr
      rcases List.mem_append.mp hr with hold | hnew'
      · have hmapped := served r hold page hpage.1 hr'
        rw [Mapped, hnone] at hmapped
        cases hmapped
      · rwa [List.mem_singleton.mp hnew'] at hr'
    · exact absurd ⟨hinit.1, by omega⟩ hout
    · obtain ⟨hblock, hend⟩ := hblocks c hc
      exact absurd ⟨hblock.trans hlow, by omega⟩ hout
  · rintro ⟨hnone, hr⟩
    refine ⟨hnone, ?_⟩
    have hmapped := served' _ hmem page hpage.1 hr
    rwa [Mapped, ← (inv'.request_kind hmem hr).1] at hmapped

end register

/-- What a call needs of the run that it ends: a range beside RAM that the tables can map, a heap
that lasts, and blocks for tables in one region each. -/
structure DeviceCall (L : Layout) (mem : Mem) (ops : List Op) (address size : Nat) : Prop where
  outside : address + size ≤ initPageL0 ∨ kernelHeapEnd ≤ address
  limit : address + size ≤ addressLimit
  lasts : HeapLasts L mem (ops ++ [.registerDeviceMemory address size])
  regions : ∀ c ∈ (final (run L (ops ++ [.registerDeviceMemory address size])
    (boot L mem))).calls, OneRegion c.before.block

section calls
variable {L : Layout} {mem : Mem} {ops : List Op} {s : Machine} {address asked : Nat}

theorem DeviceCall.registersExactly (call : DeviceCall L mem ops address asked)
    (hzero : ZeroRam L kernelHeapEnd mem) (legal : ∀ op ∈ ops, op.Legal kernelHeapEnd)
    (hrun : run L ops (boot L mem) = .ok () s) (haddress : address % 4096 = 0)
    (hpages : asked % 4096 = 0) (hsize : asked < 2 ^ 32) : RegistersExactly s address asked := by
  have legal' : ∀ op ∈ ops ++ [.registerDeviceMemory address asked], op.Legal kernelHeapEnd := by
    intro op hop
    rcases List.mem_append.mp hop with hop | hop
    · exact legal op hop
    · rw [List.mem_singleton.mp hop]
      exact ⟨haddress, hpages, hsize, call.outside, call.limit⟩
  have hram := call.lasts.ramRun legal'
  obtain ⟨hram1, hcalls⟩ := hram.first
  obtain ⟨s1, hrun1, inv, served⟩ := hram1.spec (hram1.boots_zero hzero False) fun c hc =>
    ⟨Or.inl (call.regions c (hcalls.subset hc)), Or.inl trivial, False.elim, False.elim⟩
  obtain ⟨s', hrun', inv', served'⟩ := hram.spec (hram.boots_zero hzero False) fun c hc =>
    ⟨Or.inl (call.regions c hc), Or.inl trivial, False.elim, False.elim⟩
  obtain ⟨-, rfl⟩ := EStateM.Result.ok.inj (hrun.symm.trans hrun1)
  have hblocks : ∀ c ∈ s'.calls, initPageL0 ≤ c.before.block ∧
      c.before.block + 4 * pageSize ≤ kernelHeapEnd := by
    intro c hc
    have hmem := call.lasts.blocks_inHeap c (by rw [hrun']; exact hc)
    exact ⟨le_trans (by decide : initPageL0 ≤ kernelStart) (L.above.le.trans hmem.1), hmem.2⟩
  rw [run_append, bind_run hrun, runOps, runOps] at hrun'
  have hregister : registerDeviceMemory address asked s = .ok () s' := by
    rw [← hrun']
    exact congrFun (bind_pure (registerDeviceMemory address asked)).symm s
  have hloop := hregister
  rw [registerDeviceMemory_run s hsize] at hloop
  obtain ⟨n, rfl⟩ : ∃ n, asked = 4096 * n := ⟨asked / 4096, by omega⟩
  have hceil : ceilPages (4096 * n) = n := by
    unfold ceilPages
    omega
  have hrequests := registerDeviceMemory_requests hregister
  rw [Nat.mod_eq_of_lt hsize] at hrequests
  refine ⟨s', hregister, ?_, ?_⟩
  · rw [hceil, Nat.mod_eq_of_lt hsize]
    exact endsAfter_of_ok (by omega) (by omega) hloop
  · exact inv'.newly_mapped served haddress served' hrequests hblocks

/-- The call is exact just for whole numbers of pages below 4 GB. -/
theorem registerDeviceMemory_exact_iff (hzero : ZeroRam L kernelHeapEnd mem)
    (legal : ∀ op ∈ ops, op.Legal kernelHeapEnd) (hrun : run L ops (boot L mem) = .ok () s)
    (haddress : address % 4096 = 0)
    (call : asked % 4096 = 0 ∧ asked < 2 ^ 32 → DeviceCall L mem ops address asked) :
    RegistersExactly s address asked ↔ asked % 4096 = 0 ∧ asked < 2 ^ 32 := by
  constructor
  · exact RegistersExactly.wholePages
  · rintro ⟨hpages, hsize⟩
    exact (call ⟨hpages, hsize⟩).registersExactly hzero legal hrun haddress hpages hsize

end calls

theorem image_deviceCall {ops : List Op} {address size : Nat} (rounds : ∀ op ∈ ops, op.Rounds)
    (outside : address + size ≤ initPageL0 ∨ kernelHeapEnd ≤ address)
    (limit : address + size ≤ addressLimit)
    (hroom : heapBytes (ops ++ [.registerDeviceMemory address size]) +
      4 * pageSize * mostTables (ops ++ [.registerDeviceMemory address size]) ≤ 0xE8000) :
    DeviceCall imageLayout zeroRam ops address size := by
  have htakes := image_takes (HeapTaken.runOps (ops ++ [.registerDeviceMemory address size])) hroom
  refine ⟨outside, limit, ⟨fun op hop => ?_, ?_⟩, htakes.1⟩
  · rcases List.mem_append.mp hop with hop | hop
    · exact rounds op hop
    · rw [List.mem_singleton.mp hop]
      trivial
  · rw [run]
    apply Nat.le_trans (Nat.add_le_add_left (Nat.mul_le_mul_left _ htakes.2) _)
    simp only [pageSize, kernelHeapEnd, show imageLayout.kernelEnd = 0x40110000 from rfl]
      at hroom ⊢
    omega

theorem registerDeviceMemory_exact_iff_image : ∃ s,
    run imageLayout [] (boot imageLayout zeroRam) = .ok () s ∧
      (RegistersExactly s 0x10000000 0x1000 ↔ 0x1000 % 4096 = 0 ∧ 0x1000 < 2 ^ 32) := by
  obtain ⟨k1, k2, s, hrun, -, -, -⟩ := image_start
  have hboot : run imageLayout [] (boot imageLayout zeroRam) = .ok () s := bind_run hrun
  refine ⟨s, hboot, registerDeviceMemory_exact_iff (L := imageLayout)
    (fun _ _ _ => rfl) (fun _ h => absurd h List.not_mem_nil) hboot (by decide) fun _ => ?_⟩
  exact image_deviceCall (fun _ h => absurd h List.not_mem_nil) (Or.inl (by decide)) (by decide)
    (by decide)

/-- A BAR of 16 bytes is never counted down to 0, and of one of 8 GB no page is mapped. -/
theorem registerDeviceMemory_not_exact : ∃ s,
    run imageLayout [] (boot imageLayout zeroRam) = .ok () s ∧
      ¬RegistersExactly s 0x10000000 0x10 ∧ ¬RegistersExactly s 0x8200000000 0x200000000 := by
  obtain ⟨k1, k2, s, hrun, -, -, -⟩ := image_start
  refine ⟨s, bind_run hrun, fun h => ?_, fun h => ?_⟩
  · exact absurd h.wholePages (by decide)
  · exact absurd h.wholePages (by decide)

end SelfmadeOS
