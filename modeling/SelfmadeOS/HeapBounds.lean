import SelfmadeOS.RequestedMappings

/-!
# Allocations and the end of the heap

Nobody compares the bump pointer with `kernel_heap_end`. What comes out of the heap lies in it
as long as all that is asked for, rounded up, and all blocks for tables fit.
-/

namespace SelfmadeOS
set_option autoImplicit false
open StateRuns

def kernelHeapEnd : Nat := 0x50000000

/-- The requests to `kalloc` of the two commands with which `terminal::printf` ends. -/
def transferToHost2dOps : List Op := [.kalloc 56, .kalloc 24]
def resourceFlushOps : List Op := [.kalloc 48, .kalloc 24]

inductive KernelCall where
  | kalloc (size : Nat)
  | printf
  | registerDeviceMemory (address size : Nat)

def KernelCall.ops : KernelCall → List Op
  | .kalloc size => [.kalloc size]
  | .printf => transferToHost2dOps ++ resourceFlushOps
  | .registerDeviceMemory address size => [.registerDeviceMemory address size]

def Op.bytes : Op → Nat
  | .kalloc size => allign size
  | .registerDeviceMemory _ _ => 0

def heapBytes (ops : List Op) : Nat := (ops.map Op.bytes).sum

def Op.Rounds : Op → Prop
  | .kalloc size => size + 4095 < 2 ^ 64
  | .registerDeviceMemory _ _ => True

/-- How many tables can be missing for a range; a loop that does not meet 0 runs through all
remainders. -/
def rangeTables (size : Nat) : Nat :=
  3 * if size % 4096 = 0 ∧ size < 2 ^ 64 then size / 4096 else 2 ^ 52

def Op.mostTables : Op → Nat
  | .kalloc size => rangeTables (allign size)
  | .registerDeviceMemory _ size => rangeTables (size % 2 ^ 32)

def mostTables (ops : List Op) : Nat := (ops.map Op.mostTables).sum

def advance (free bytes blocks : Nat) : Nat := (free + bytes + 4 * pageSize * blocks) % 2 ^ 64

/-- What a step that takes up to `bytes` bytes has recorded. -/
structure HeapRecord (bytes : Nat) (s s' : Machine) (calls : List TableCall)
    (requests : List Request) : Prop where
  currentFree : ∃ b, b ≤ bytes ∧ b % 4096 = 0 ∧
    s'.currentFree = advance s.currentFree b calls.length
  blocks : ∀ k c, calls[k]? = some c → ∃ b, b ≤ bytes ∧ b % 4096 = 0 ∧
    c.before.currentFree = advance s.currentFree b k
  requests : ∀ r ∈ requests, r.attrIdx = 0 →
    r.address + r.size ≤ s.currentFree + bytes + 4 * pageSize * calls.length

/-- Up to `bytes` bytes have been taken and, for each of at most `most` recorded calls, four
pages. -/
def TakesHeap (bytes most : Nat) (s s' : Machine) : Prop :=
  ∃ calls requests, s'.calls = s.calls ++ calls ∧ s'.requests = s.requests ++ requests ∧
    calls.length ≤ most ∧
    (PageAligned s.currentFree → HeapRecord bytes s s' calls requests)

section takes
variable {s t u : Machine} {n m k l : Nat}

theorem TakesBlocks.takesHeap (h : TakesBlocks k s t) : TakesHeap 0 k s t := by
  obtain ⟨hrequests, cs, hcalls, hlength, hfree⟩ := h
  refine ⟨cs, [], hcalls, by rw [hrequests, List.append_nil], hlength, fun haligned => ?_⟩
  obtain ⟨hend, hblocks⟩ := hfree haligned
  refine ⟨⟨0, Nat.le_refl 0, rfl, hend⟩, ?_, ?_⟩
  · exact fun k c hc => ⟨0, Nat.le_refl 0, rfl, hblocks k c hc⟩
  · exact fun r hr => absurd hr List.not_mem_nil

theorem HeapRecord.mono {cs : List TableCall} {rs : List Request}
    (h : HeapRecord n s t cs rs) (hle : n ≤ m) : HeapRecord m s t cs rs := by
  obtain ⟨⟨b, hb, hend⟩, hblocks, hrequests⟩ := h
  refine ⟨⟨b, hb.trans hle, hend⟩, fun k c hc => ?_, fun r hr hattr => ?_⟩
  · obtain ⟨b, hb, hblock⟩ := hblocks k c hc
    exact ⟨b, hb.trans hle, hblock⟩
  · have hrange := hrequests r hr hattr
    omega

theorem TakesHeap.mono (h : TakesHeap n k s t) (hle : n ≤ m) (hle' : k ≤ l) :
    TakesHeap m l s t := by
  obtain ⟨cs, rs, hcalls, hrequests, hlength, hrecord⟩ := h
  exact ⟨cs, rs, hcalls, hrequests, hlength.trans hle',
    fun haligned => (hrecord haligned).mono hle⟩

theorem advance_aligned {free bytes : Nat} (hfree : free % 4096 = 0) (hbytes : bytes % 4096 = 0)
    (blocks : Nat) : PageAligned (advance free bytes blocks) := by
  simp only [PageAligned, advance, pageSize]
  omega

theorem advance_advance (free bytes blocks bytes' blocks' : Nat) :
    advance (advance free bytes blocks) bytes' blocks' =
      advance free (bytes + bytes') (blocks + blocks') := by
  simp only [advance, pageSize]
  omega

theorem TakesHeap.aligned (h : TakesHeap n k s t) (haligned : PageAligned s.currentFree) :
    PageAligned t.currentFree := by
  obtain ⟨cs, rs, -, -, -, hrecord⟩ := h
  obtain ⟨b, -, hb, hend⟩ := (hrecord haligned).currentFree
  rw [hend]
  exact advance_aligned haligned.1 hb _

theorem HeapRecord.trans {cs cs' : List TableCall} {rs rs' : List Request}
    (h : HeapRecord n s t cs rs) (h' : HeapRecord m t u cs' rs') :
    HeapRecord (n + m) s u (cs ++ cs') (rs ++ rs') := by
  obtain ⟨⟨b, hb, hpage, hmiddle⟩, hblocks, hrequests⟩ := h
  obtain ⟨⟨b', hb', hpage', hend⟩, hblocks', hrequests'⟩ := h'
  have hle : t.currentFree ≤ s.currentFree + b + 4 * pageSize * cs.length := by
    rw [hmiddle]
    exact Nat.mod_le _ _
  refine ⟨⟨b + b', by omega, by omega, ?_⟩, fun k c hc => ?_, fun r hr hattr => ?_⟩
  · rw [hend, hmiddle, advance_advance, List.length_append]
  · rcases Nat.lt_or_ge k cs.length with hlt | hge
    · rw [List.getElem?_append_left hlt] at hc
      obtain ⟨b, hb, hblock⟩ := hblocks k c hc
      exact ⟨b, by omega, hblock⟩
    · rw [List.getElem?_append_right hge] at hc
      obtain ⟨b', hb', hpage', hblock⟩ := hblocks' _ c hc
      refine ⟨b + b', by omega, by omega, ?_⟩
      rw [hblock, hmiddle, advance_advance, Nat.add_sub_cancel' hge]
  · simp only [List.length_append, pageSize] at hle ⊢
    rcases List.mem_append.mp hr with hr | hr
    · have hrange := hrequests r hr hattr
      simp only [pageSize] at hrange
      omega
    · have hrange := hrequests' r hr hattr
      simp only [pageSize] at hrange
      omega

theorem TakesHeap.trans (h : TakesHeap n k s t) (h' : TakesHeap m l t u) :
    TakesHeap (n + m) (k + l) s u := by
  have haligned' := h.aligned
  obtain ⟨cs, rs, hcalls, hrequests, hlength, hrecord⟩ := h
  obtain ⟨cs', rs', hcalls', hrequests', hlength', hrecord'⟩ := h'
  refine ⟨cs ++ cs', rs ++ rs', by rw [hcalls', hcalls, List.append_assoc],
    by rw [hrequests', hrequests, List.append_assoc], ?_, fun haligned => ?_⟩
  · rw [List.length_append]
    omega
  · exact (hrecord haligned).trans (hrecord' (haligned' haligned))

theorem requested_takesHeap {r : Request}
    (hr : r.attrIdx = 0 → r.address + r.size ≤ s.currentFree) :
    TakesHeap 0 0 s (s.requested r) := by
  refine ⟨[], [r], (List.append_nil _).symm, rfl, Nat.le_refl 0, fun haligned => ⟨?_, ?_, ?_⟩⟩
  · exact ⟨0, Nat.le_refl 0, rfl, (Nat.mod_eq_of_lt haligned.2).symm⟩
  · intro k c hc
    cases hc
  · intro r' hr' hattr
    rw [List.mem_singleton.mp hr'] at hattr ⊢
    exact (hr hattr).trans (by omega)

end takes

theorem taken_takesHeap (s : Machine) (size : Nat) : TakesHeap (allign size) 0 s
    ((s.withFree ((allignAddr s.currentFree pageSize + allign size) % 2 ^ 64)).requested
      ⟨allignAddr s.currentFree pageSize, allign size, 0⟩) := by
  refine ⟨[], [_], (List.append_nil _).symm, rfl, Nat.le_refl 0, fun haligned => ?_⟩
  rw [allignAddr_of_aligned haligned.1 haligned.2]
  refine ⟨⟨allign size, Nat.le_refl _, allign_aligned size, rfl⟩, ?_, ?_⟩
  · intro k c hc
    cases hc
  · intro r hr _
    rw [List.mem_singleton.mp hr]
    exact Nat.le_add_right _ _

abbrev HeapTaken {α : Type} (bytes most : Nat) (x : KernelM α) : Prop :=
  Keeps (TakesHeap bytes most) x

namespace HeapTaken
variable {α β : Type} {n m k l : Nat}

theorem of_blocks {x : KernelM α} (h : BlocksTaken k x) : HeapTaken 0 k x :=
  fun s => (h s).takesHeap

theorem of_kept {x : KernelM α} (h : HeapKept x) : HeapTaken 0 0 x :=
  of_blocks (BlocksTaken.of_kept h)

theorem bind {x : KernelM α} {f : α → KernelM β} (hx : HeapTaken n k x)
    (hf : ∀ a, HeapTaken m l (f a)) : HeapTaken (n + m) (k + l) (x >>= f) :=
  Keeps.seq (fun _ _ h => h.mono (Nat.le_add_right n m) (Nat.le_add_right k l))
    (fun _ _ _ h h' => h.trans h') hx hf

theorem mapLoop_size (attrIdx size address : Nat) :
    BlocksTaken (rangeTables size) (mapLoop attrIdx (2 ^ 52) size address) := by
  unfold rangeTables
  split
  · rename_i hwhole
    have hpages := BlocksTaken.mapLoop_pages attrIdx (2 ^ 52) (n := size / 4096) (by omega) address
    rwa [show 4096 * (size / 4096) = size by omega] at hpages
  · exact BlocksTaken.mapLoop _ _ _ _

theorem registerDeviceMemory (address size : Nat) :
    HeapTaken 0 (Op.registerDeviceMemory address size).mostTables
      (SelfmadeOS.registerDeviceMemory address size) := by
  intro s
  have hasked := requested_takesHeap (s := s) (r := ⟨address, size % 2 ^ 32, 1⟩)
    fun h => absurd h Nat.one_ne_zero
  have h := hasked.trans (of_blocks (mapLoop_size 1 (size % 2 ^ 32) address) _)
  simp only [Nat.zero_add] at h
  rw [SelfmadeOS.registerDeviceMemory, bind_run (request_run s address (size % 2 ^ 32) 1)]
  exact h

theorem kalloc (size : Nat) :
    HeapTaken (allign size) (Op.kalloc size).mostTables (SelfmadeOS.kalloc size) := by
  intro s
  have hrest : BlocksTaken (rangeTables (allign size) + 0)
      (mapLoop 0 (2 ^ 52) (allign size) (allignAddr s.currentFree pageSize) >>= fun _ =>
        clearBlock (allignAddr s.currentFree pageSize) (allign size) >>= fun _ =>
          (Pure.pure (allignAddr s.currentFree pageSize) : KernelM Nat)) :=
    (mapLoop_size 0 (allign size) _).bind fun _ =>
      BlocksTaken.of_kept ((HeapKept.clearBlock _ _).bind fun _ => HeapKept.pure _)
  have htake := palloc_run s (allign size)
  rw [allign_idem] at htake
  rw [SelfmadeOS.kalloc, bind_run htake]
  have h := (taken_takesHeap s size).trans (of_blocks hrest _)
  rw [Nat.zero_add] at h
  rw [bind_of_eq (mapAddr_run _ (allign_aligned size))]
  exact h

theorem exec (op : Op) : HeapTaken op.bytes op.mostTables op.exec := by
  cases op with
  | kalloc size => exact (kalloc size).bind fun _ => of_kept (HeapKept.pure _)
  | registerDeviceMemory address size => exact registerDeviceMemory address size

theorem runOps (ops : List Op) :
    HeapTaken (heapBytes ops) (SelfmadeOS.mostTables ops) (SelfmadeOS.runOps ops) := by
  induction ops with
  | nil => exact of_kept (HeapKept.pure _)
  | cons op ops ih => exact (exec op).bind fun _ => ih

end HeapTaken

def initTablesMost (L : Layout) : Nat := rangeTables (L.kernelEnd - kernelStart) + 3

section boot
variable (L : Layout) (mem : Mem)

theorem boot_aligned : PageAligned (boot L mem).currentFree := ⟨L.aligned, L.below⟩

theorem beforeSctlr_takesHeap : TakesHeap 0 (initTablesMost L) (boot L mem)
    (final (beforeSctlr L (boot L mem))) := by
  have habove := L.above
  have haligned := L.aligned
  obtain ⟨hfree, hrequests, hcalls, -⟩ := started_fields L mem
  have hstarted : TakesHeap 0 0 (boot L mem) (started L mem) :=
    KeepsHeap.takes ⟨hfree, hcalls, hrequests⟩ |>.takesHeap
  have hasked := requested_takesHeap (s := started L mem)
    (r := ⟨kernelStart, L.kernelEnd - kernelStart, 0⟩) fun _ => by
      rw [hfree]
      dsimp only
      omega
  have hmap := HeapTaken.of_blocks
    (HeapTaken.mapLoop_size 0 (L.kernelEnd - kernelStart) kernelStart)
  have huart : HeapTaken 0 3 initUart := HeapTaken.registerDeviceMemory 0x9000000 pageSize
  have h := (hstarted.trans hasked).trans ((hmap.bind fun _ => huart) _)
  have hsize : (L.kernelEnd - kernelStart) % 4096 = 0 := by
    simp only [kernelStart] at habove ⊢
    omega
  rw [beforeSctlr, bind_run (initTables_run _), bind_of_eq (mapAddr_run _ hsize)]
  simp only [Nat.zero_add] at h
  exact h

theorem initMmu_takesHeap : TakesHeap 0 (initTablesMost L) (boot L mem)
    (final (initMmu L (boot L mem))) := by
  rw [initMmu_eq]
  refine seq_final (fun _ _ h => h) (fun _ _ _ h h' => ?_) (beforeSctlr_takesHeap L mem)
    fun _ => HeapTaken.of_kept (HeapKept.logMessage "3")
  have htotal := h.trans h'
  rwa [Nat.add_zero, Nat.add_zero] at htotal

theorem boot_takesHeap {α : Type} {x : KernelM α} {n k : Nat} (hx : HeapTaken n k x) :
    TakesHeap n (initTablesMost L + k) (boot L mem)
      (final ((initMmu L >>= fun _ => x) (boot L mem))) := by
  refine seq_final (fun _ _ h => h.mono (Nat.zero_le _) (Nat.le_add_right _ _))
    (fun _ _ _ h h' => ?_) (initMmu_takesHeap L mem) fun _ => hx
  have htotal := h.trans h'
  rwa [Nat.zero_add] at htotal

theorem run_takesHeap (ops : List Op) : TakesHeap (heapBytes ops)
    (initTablesMost L + mostTables ops) (boot L mem) (final (run L ops (boot L mem))) := by
  rw [run]
  exact boot_takesHeap L mem (HeapTaken.runOps ops)

end boot

theorem ImageState.oneRegion {k1 k2 : Kernel} {s : Machine} (h : ImageState k1 k2 s) :
    ∀ c ∈ s.calls, OneRegion c.before.block := by
  rw [h.calls]
  intro c hc
  rcases List.mem_pair.mp hc with rfl | rfl
  · dsimp only
    rw [h.block1]
    decide
  · dsimp only
    rw [h.block2]
    decide

/-- After the small kernel's start 0xE8000 bytes are left of the first region. -/
theorem image_takes {α : Type} {x : KernelM α} {n k : Nat} (hx : HeapTaken n k x)
    (hroom : n + 4 * pageSize * k ≤ 0xE8000) :
    (∀ c ∈ (final ((initMmu imageLayout >>= fun _ => x) (boot imageLayout zeroRam))).calls,
      OneRegion c.before.block) ∧
    (final ((initMmu imageLayout >>= fun _ => x) (boot imageLayout zeroRam))).calls.length ≤
      2 + k := by
  obtain ⟨k1, k2, s, hrun, himage, hfree, -⟩ := image_start
  obtain ⟨cs, rs, hcalls, -, hlength, hrecord⟩ := hx s
  have haligned : PageAligned s.currentFree := by
    rw [hfree]
    exact ⟨by decide, by decide⟩
  rw [bind_run hrun, hcalls]
  constructor
  · intro c hc
    rcases List.mem_append.mp hc with hc | hc
    · exact himage.oneRegion c hc
    · obtain ⟨j, hj, hget⟩ := List.getElem_of_mem hc
      obtain ⟨b, hb, hpage, hblock⟩ := (hrecord haligned).blocks j c
        (List.getElem?_eq_some_iff.mpr ⟨hj, hget⟩)
      simp only [pageSize, advance, hfree] at hroom hblock
      have hbase : c.before.block = c.before.currentFree :=
        allignAddr_of_aligned (by omega) (by omega)
      simp only [OneRegion, hbase, hblock, pageSize, blockSizeL2]
      omega
  · rw [List.length_append, himage.calls]
    exact Nat.add_le_add_left hlength 2

theorem allign_ge {size : Nat} (h : size + 4095 < 2 ^ 64) : size ≤ allign size := by
  unfold allign
  dsimp only
  split <;> omega

theorem kalloc_pointer {s s' : Machine} {size p : Nat} (hfree : PageAligned s.currentFree)
    (h : kalloc size s = .ok p s') : p = s.currentFree := by
  rw [kalloc] at h
  rw [bind_run (palloc_run s _), allignAddr_of_aligned hfree.1 hfree.2] at h
  generalize s.withFree _ = t at h
  cases hmap : mapAddr s.currentFree (allign size) t with
  | error e u =>
    rw [bind_stop hmap] at h
    cases h
  | ok _ u =>
    rw [bind_run hmap, bind_run (clearBlock_run _ _ _)] at h
    exact (EStateM.Result.ok.inj h).1.symm

def InHeap (L : Layout) (p size : Nat) : Prop := L.kernelEnd ≤ p ∧ p + size ≤ kernelHeapEnd

/-- Everything that a run gets from the heap lies in it: the blocks for tables, and what `kalloc`
returns after any part of the run. -/
structure AllocationsInHeap (L : Layout) (mem : Mem) (ops : List Op) : Prop where
  blocks : ∀ c ∈ (final (run L ops (boot L mem))).calls, InHeap L c.before.block (4 * pageSize)
  pointers : ∀ before size after s p s', ops = before ++ .kalloc size :: after →
    run L before (boot L mem) = .ok () s → kalloc size s = .ok p s' → InHeap L p size

/-- All sizes can be rounded up, and what is asked for fits in the heap together with the blocks
for tables. -/
structure HeapLasts (L : Layout) (mem : Mem) (ops : List Op) : Prop where
  rounds : ∀ op ∈ ops, op.Rounds
  room : L.kernelEnd + heapBytes ops +
    4 * pageSize * (final (run L ops (boot L mem))).calls.length ≤ kernelHeapEnd

section bounds
variable {L : Layout} {mem : Mem} {ops : List Op}

theorem heapBytes_append (ops more : List Op) :
    heapBytes (ops ++ more) = heapBytes ops + heapBytes more := by
  simp [heapBytes]

theorem TakesHeap.from_boot {n k : Nat} {s : Machine} (h : TakesHeap n k (boot L mem) s) :
    HeapRecord n (boot L mem) s s.calls s.requests ∧ s.calls.length ≤ k := by
  obtain ⟨cs, rs, hcalls, hrequests, hlength, hrecord⟩ := h
  obtain rfl : s.calls = cs := hcalls
  obtain rfl : s.requests = rs := hrequests
  exact ⟨hrecord (boot_aligned L mem), hlength⟩

section record
variable {n : Nat} {s : Machine} (record : HeapRecord n (boot L mem) s s.calls s.requests)
variable {limit : Nat} (hlimit : limit < 2 ^ 64)
variable (room : L.kernelEnd + n + 4 * pageSize * s.calls.length ≤ limit)
include record hlimit room

/-- With room for all of it the bump pointer never wraps. -/
theorem HeapRecord.blocks_inside {c : TableCall} (hc : c ∈ s.calls) :
    L.kernelEnd ≤ c.before.block ∧ c.before.block + 4 * pageSize ≤ limit ∧
      ∃ b k, b ≤ n ∧ k < s.calls.length ∧
        c.before.block = L.kernelEnd + b + 4 * pageSize * k := by
  obtain ⟨k, hk, hget⟩ := List.getElem_of_mem hc
  obtain ⟨b, hb, hpage, hblock⟩ :=
    record.blocks k c (List.getElem?_eq_some_iff.mpr ⟨hk, hget⟩)
  have haligned := L.aligned
  simp only [advance, pageSize] at room hblock
  rw [show (boot L mem).currentFree = L.kernelEnd from rfl,
    Nat.mod_eq_of_lt (by omega)] at hblock
  have hbase : c.before.block = c.before.currentFree :=
    allignAddr_of_aligned (by omega) (by omega)
  simp only [hbase, hblock, pageSize]
  exact ⟨by omega, by omega, b, k, hb, hk, rfl⟩

theorem HeapRecord.free_le : L.kernelEnd ≤ s.currentFree ∧
    s.currentFree ≤ L.kernelEnd + n + 4 * pageSize * s.calls.length := by
  obtain ⟨b, hb, -, hend⟩ := record.currentFree
  simp only [advance, pageSize] at room hend ⊢
  rw [show (boot L mem).currentFree = L.kernelEnd from rfl,
    Nat.mod_eq_of_lt (by omega)] at hend
  omega

end record

theorem HeapLasts.of_most (rounds : ∀ op ∈ ops, op.Rounds)
    (room : L.kernelEnd + heapBytes ops + 4 * pageSize *
      (initTablesMost L + mostTables ops) ≤ kernelHeapEnd) :
    HeapLasts L mem ops := by
  refine ⟨rounds, Nat.le_trans (Nat.add_le_add_left ?_ _) room⟩
  exact Nat.mul_le_mul_left _ (run_takesHeap L mem ops).from_boot.2

theorem HeapLasts.blocks_inHeap (h : HeapLasts L mem ops) :
    ∀ c ∈ (final (run L ops (boot L mem))).calls, InHeap L c.before.block (4 * pageSize) := by
  intro c hc
  obtain ⟨hlow, hhigh, -⟩ := (run_takesHeap L mem ops).from_boot.1.blocks_inside
    (by decide : kernelHeapEnd < 2 ^ 64) h.room hc
  exact ⟨hlow, hhigh⟩

theorem HeapLasts.pointers_inHeap (h : HeapLasts L mem ops) {before after : List Op}
    {size p : Nat} {s s' : Machine} (hops : ops = before ++ .kalloc size :: after)
    (hrun : run L before (boot L mem) = .ok () s) (hkalloc : kalloc size s = .ok p s') :
    InHeap L p size := by
  have hrounds : size + 4095 < 2 ^ 64 := h.rounds (.kalloc size) (by simp [hops])
  have hroom := h.room
  have htaken := run_takesHeap L mem before
  rw [hrun, final_ok] at htaken
  have hp := kalloc_pointer (htaken.aligned (boot_aligned L mem)) hkalloc
  have hcount : s.calls.length ≤ (final (run L ops (boot L mem))).calls.length := by
    have hext := final_bind Extends.refl
      (fun _ => Recorded.runOps (.kalloc size :: after)) (x := run L before) (boot L mem)
    rw [← run_append, ← hops, hrun, final_ok] at hext
    exact hext.calls.length_le
  have hsize := allign_ge hrounds
  have hbytes : heapBytes ops = heapBytes before + (allign size + heapBytes after) := by
    rw [hops, heapBytes_append]
    rfl
  have hspent : 4 * pageSize * s.calls.length ≤
      4 * pageSize * (final (run L ops (boot L mem))).calls.length :=
    Nat.mul_le_mul_left _ hcount
  obtain ⟨hlow, hhigh⟩ := htaken.from_boot.1.free_le (by decide : kernelHeapEnd < 2 ^ 64) (by omega)
  rw [hp]
  exact ⟨hlow, by omega⟩

theorem HeapLasts.ramRun (h : HeapLasts L mem ops)
    (legal : ∀ op ∈ ops, op.Legal kernelHeapEnd) : RamRun L kernelHeapEnd mem ops := by
  have hroom := h.room
  refine ⟨by omega, by decide, legal, fun r hr hattr => ?_, fun c hc => (h.blocks_inHeap c hc).2⟩
  exact ((run_takesHeap L mem ops).from_boot.1.requests r hr hattr).trans hroom

end bounds

/-- Whatever a run asks for comes out of the heap, if all of it fits. -/
theorem allocations_inHeap (L : Layout) (mem : Mem) (calls : List KernelCall)
    (h : HeapLasts L mem (calls.flatMap KernelCall.ops)) :
    AllocationsInHeap L mem (calls.flatMap KernelCall.ops) :=
  ⟨h.blocks_inHeap, fun _ _ _ _ _ _ hops hrun hkalloc => h.pointers_inHeap hops hrun hkalloc⟩

theorem allocations_inHeap_image : AllocationsInHeap imageLayout zeroRam
    ([.kalloc 100, .printf].flatMap KernelCall.ops) := by
  apply allocations_inHeap
  apply HeapLasts.of_most
  · simp only [KernelCall.ops, transferToHost2dOps, resourceFlushOps, List.flatMap_cons,
      List.flatMap_nil, List.cons_append, List.nil_append, List.append_nil, List.forall_mem_cons,
      Op.Rounds]
    exact ⟨by decide, by decide, by decide, by decide, by decide,
      fun _ h => absurd h List.not_mem_nil⟩
  · decide

/-- The largest size is rounded to nothing: `kalloc` returns the bump pointer for it. -/
theorem kalloc_outside_heap : ∃ s s', run imageLayout [] (boot imageLayout zeroRam) = .ok () s ∧
    kalloc (2 ^ 64 - 1) s = .ok 0x40118000 s' ∧
    ¬InHeap imageLayout 0x40118000 (2 ^ 64 - 1) ∧
    ¬AllocationsInHeap imageLayout zeroRam ([.kalloc (2 ^ 64 - 1)].flatMap KernelCall.ops) := by
  obtain ⟨k1, k2, s, hrun, -, hfree, -⟩ := image_start
  have hboot : run imageLayout [] (boot imageLayout zeroRam) = .ok () s := bind_run hrun
  have hout : ¬InHeap imageLayout 0x40118000 (2 ^ 64 - 1) := by
    rintro ⟨-, h⟩
    exact absurd h (by decide)
  have hkalloc : ∃ s', kalloc (2 ^ 64 - 1) s = .ok 0x40118000 s' := by
    rw [kalloc, show allign (2 ^ 64 - 1) = 0 by decide, bind_run (palloc_run s 0), hfree,
      show allignAddr 0x40118000 pageSize = 0x40118000 by decide]
    rw [bind_run (mapAddr_run _ rfl), bind_run (clearBlock_run _ _ _)]
    exact ⟨_, rfl⟩
  obtain ⟨s', hkalloc⟩ := hkalloc
  refine ⟨s, s', hboot, hkalloc, hout, fun h => hout ?_⟩
  exact h.pointers [] (2 ^ 64 - 1) [] s 0x40118000 s' rfl hboot hkalloc

end SelfmadeOS
