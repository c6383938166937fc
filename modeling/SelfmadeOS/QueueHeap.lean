import SelfmadeOS.BlockAccesses
import SelfmadeOS.QueueMemoryRuns

/-!
# The queue stands in the heap

`construct_virtqueue` takes the three areas from `kalloc`. They are apart from each other and from
all that the commands use, they are zero when the queue is enabled, and the driver's stores reach
them; so the queue in memory starts as its model does.
-/

namespace SelfmadeOS
set_option autoImplicit false
open StateRuns ByteMemory Records Transitions

/-- The fields of `virtio_pci_common_cfg` for the queue that is selected. Once the queue is
enabled the device works on what they have told it. -/
structure QueueCfg where
  queueSize : BitVec 16
  queueDesc : BitVec 64
  queueDriver : BitVec 64
  queueDevice : BitVec 64
  enabled : Option QueueAreas

def QueueCfg.writeEnable (cfg : QueueCfg) : QueueCfg :=
  { cfg with enabled := some ⟨cfg.queueSize.toNat, cfg.queueDesc.toNat, cfg.queueDriver.toNat,
      cfg.queueDevice.toNat⟩ }

/-- The queue that the driver works on, and what the device has been told; the messages are left
out. -/
def constructVirtqueue (cfg : QueueCfg) : KernelM (QueueAreas × QueueCfg) := do
  let queueSize := cfg.queueSize.toNat
  let addrDescriptorTable ← kalloc (descriptorTableSize queueSize)
  let cfg := { cfg with queueDesc := BitVec.ofNat 64 addrDescriptorTable }
  let addrDriver ← kalloc (driverAreaSize queueSize)
  let cfg := { cfg with queueDriver := BitVec.ofNat 64 addrDriver }
  let addrDevice ← kalloc (deviceAreaSize queueSize)
  let cfg := { cfg with queueDevice := BitVec.ofNat 64 addrDevice }
  return (⟨queueSize, addrDescriptorTable, addrDriver, addrDevice⟩, cfg.writeEnable)

/-- The sizes that `construct_virtqueue` asks `kalloc` for, in this order. -/
def queueKallocs (queueSize : Nat) : List Nat :=
  [descriptorTableSize queueSize, driverAreaSize queueSize, deviceAreaSize queueSize]

def queueEvents (before : List Event) (queueSize : Nat) : List Event :=
  before ++ (queueKallocs queueSize).map Event.kalloc

def queueSteps (before : List Event) (queueSize : Nat) (after : List KernelStep) :
    List KernelStep :=
  (queueEvents before queueSize).map KernelStep.other ++ after

/-- The areas are the three blocks behind those that the kernel has asked for before. -/
def queueAreas (before : List Event) (queueSize : Nat) (blocks : List Block) : QueueAreas :=
  let fresh := blocks.drop (before.flatMap Event.kallocs).length
  ⟨queueSize, blockAddress fresh 0, blockAddress fresh 1, blockAddress fresh 2⟩

/-- Memory byte by byte, as the device and the session see it. -/
def Mem.bytes (m : Mem) : Bytes := fun a =>
  BitVec.ofNat 8 (m (pageOf a) ⟨a / 8 % 512, Nat.mod_lt _ (by decide)⟩ >>> (8 * (a % 8)))

def Block.Cleared (b : Block) (m : Mem) : Prop := ∀ page ∈ b.bytes, ∀ j, m page j = 0

theorem Block.Cleared.bytes {b : Block} {m : Mem} (h : b.Cleared m)
    (haligned : b.address % 4096 = 0) {y : Nat} (hlow : b.address ≤ y)
    (hhigh : y < b.address + b.size) : m.bytes y = 0 := by
  have hpage : pageOf y ∈ b.bytes := by
    simp only [Block.bytes, Set.mem_Ico, pageOf, roundUp]
    omega
  rw [Mem.bytes, h _ hpage, Nat.zero_shiftRight]
  rfl

section kallocs
variable {S : Setting}

theorem runEvents_kallocs {sizes : List Nat} (rounds : ∀ size ∈ sizes, size + 4095 < 2 ^ 64)
    {blocks blocks' : List Block} (fresh : List Block) {s s' : Machine}
    (h : Holds S (blocks ++ fresh) s)
    (hfresh : ∀ b ∈ fresh, b.Cleared s.mem)
    (good : Good S (final (runEvents (sizes.map Event.kalloc) (blocks ++ fresh) s)))
    (hrun : runEvents (sizes.map Event.kalloc) (blocks ++ fresh) s = .ok blocks' s') :
    ∃ more, blocks' = blocks ++ more ∧ ∀ b ∈ more, b.Cleared s'.mem := by
  induction sizes generalizing fresh s with
  | nil =>
    obtain ⟨rfl, rfl⟩ := EStateM.Result.ok.inj hrun
    exact ⟨fresh, rfl, hfresh⟩
  | cons size sizes ih =>
    rw [List.map_cons, runEvents] at good hrun
    have hexec := good.first fun blocks => runEvents_recorded (sizes.map Event.kalloc) blocks
    obtain ⟨p, s1, hkalloc, holds, hclear, hkept⟩ :=
      h.kalloc (rounds size List.mem_cons_self) (hexec.first fun _ => Recorded.pure _)
    have hevent : Event.exec (blocks ++ fresh) (.kalloc size) s =
        .ok (blocks ++ fresh ++ [⟨p, size⟩]) s1 := bind_run hkalloc
    rw [bind_run hevent, List.append_assoc] at good hrun
    rw [List.append_assoc] at holds
    apply ih (fun size' hsize => rounds size' (List.mem_cons_of_mem _ hsize)) _ holds ?_ good hrun
    intro b hb page hpage j
    rcases List.mem_append.mp hb with hb | hb
    · rw [hkept page (h.aside b (List.mem_append_right _ hb) page hpage)]
      exact hfresh b hb page hpage j
    · rw [List.mem_singleton.mp hb] at hpage
      exact hclear page hpage j

end kallocs

section steps
variable {events before : List Event} {queueSize : Nat} {after steps : List KernelStep}
variable {blocks blocks' : List Block} {s s' : Machine}

theorem exec_extends {event : Event} (h : event.exec blocks s = .ok blocks' s') :
    blocks <+: blocks' := by
  cases event with
  | kalloc size =>
    obtain ⟨p, t, -, hend⟩ := bind_ok h
    obtain rfl := (EStateM.Result.ok.inj hend).1
    exact List.prefix_append _ _
  | registerDeviceMemory address size =>
    obtain ⟨u, t, -, hend⟩ := bind_ok h
    obtain rfl := (EStateM.Result.ok.inj hend).1
    exact List.prefix_rfl
  | write block page index word =>
    obtain ⟨u, t, -, hend⟩ := bind_ok h
    obtain rfl := (EStateM.Result.ok.inj hend).1
    exact List.prefix_rfl

theorem runEvents_extends (h : runEvents events blocks s = .ok blocks' s') :
    blocks <+: blocks' := by
  induction events generalizing blocks s with
  | nil =>
    obtain rfl := (EStateM.Result.ok.inj h).1
    exact List.prefix_rfl
  | cons event events ih =>
    obtain ⟨more, t, hexec, hrest⟩ := bind_ok h
    exact (exec_extends hexec).trans (ih hrest)

theorem others_events (events : List Event) :
    (events.map KernelStep.other).flatMap KernelStep.events = events := by
  induction events with
  | nil => rfl
  | cons event events ih =>
    rw [List.map_cons, List.flatMap_cons, ih]
    rfl

theorem queueSteps_events : (queueSteps before queueSize after).flatMap KernelStep.events =
    queueEvents before queueSize ++ after.flatMap KernelStep.events := by
  rw [queueSteps, List.flatMap_append, others_events]

theorem kernelCommands_others (events : List Event) (blocks : List Block) :
    kernelCommands (events.map .other ++ steps) blocks =
      kernelCommands steps (blocks.drop (events.flatMap Event.kallocs).length) := by
  induction events generalizing blocks with
  | nil => rfl
  | cons event events ih =>
    rw [List.map_cons, List.cons_append, kernelCommands, ih, List.drop_drop, List.flatMap_cons,
      List.length_append]

theorem queueEvents_kallocs : (queueEvents before queueSize).flatMap Event.kallocs =
    before.flatMap Event.kallocs ++ queueKallocs queueSize := by
  rw [queueEvents, List.flatMap_append]
  rfl

end steps

/-- The areas as blocks of the run: `construct_virtqueue` has just taken `fresh`. -/
structure QueueTaken (L : Layout) (mem : Mem) (before : List Event) (queueSize : Nat)
    (blocks done fresh rest : List Block) (s0 s : Machine) : Prop where
  booted : runOwned L before (boot L mem) = .ok done s0
  run : runEvents ((queueKallocs queueSize).map .kalloc) done s0 = .ok (done ++ fresh) s
  blocks : blocks = done ++ fresh ++ rest
  length : done.length = (before.flatMap Event.kallocs).length
  sizes : fresh.map Block.size = queueKallocs queueSize
  cleared : ∀ b ∈ fresh, b.Cleared s.mem

section taken
variable {L : Layout} {mem : Mem} {before : List Event} {queueSize : Nat}
variable {after : List KernelStep} {blocks done fresh rest : List Block} {s0 s : Machine}

theorem FromHeap.queueTaken (h : FromHeap L mem (queueSteps before queueSize after) blocks) :
    ∃ done fresh rest s0 s, QueueTaken L mem before queueSize blocks done fresh rest s0 s := by
  have hserves := h.serves
  obtain ⟨t, hrun⟩ := h.run
  rw [queueSteps_events] at hserves hrun
  have hfirst := hserves.first
  rw [runOwned_append] at hrun
  obtain ⟨blocks1, s, hqueue, hafter⟩ := bind_ok hrun
  obtain ⟨rest, rfl⟩ := runEvents_extends hafter
  rw [queueEvents] at hfirst hqueue
  obtain ⟨done, s0, hbefore, holds⟩ := hfirst.first.holds h.zero
  have hevents := hqueue
  have good := hfirst.good
  rw [runOwned_append, bind_run hbefore] at hevents good
  have rounds : ∀ size ∈ queueKallocs queueSize, size + 4095 < 2 ^ 64 := by
    intro size hsize
    refine hfirst.rounds (.kalloc size) (List.mem_flatMap.mpr ⟨.kalloc size, ?_, ?_⟩)
    · exact List.mem_append_right _ (List.mem_map_of_mem hsize)
    · exact List.mem_singleton_self _
  have hsizes := runEvents_sizes hevents
  have hrun := hevents
  rw [← List.append_nil done] at holds good hevents
  obtain ⟨fresh, rfl, hcleared⟩ := runEvents_kallocs rounds [] holds
    (fun b hb => absurd hb List.not_mem_nil) good hevents
  obtain ⟨-, u, -, hdone⟩ := bind_ok hbefore
  have hlength := congrArg List.length (runEvents_sizes hdone)
  rw [List.map_nil, List.nil_append, List.length_map] at hlength
  refine ⟨done, fresh, rest, s0, s, hbefore, hrun, rfl, hlength, ?_, hcleared⟩
  rw [List.map_append] at hsizes
  exact List.append_cancel_left hsizes

section areas
variable (taken : QueueTaken L mem before queueSize blocks done fresh rest s0 s)
include taken

theorem QueueTaken.three : ∃ b0 b1 b2, fresh = [b0, b1, b2] ∧
    b0.size = descriptorTableSize queueSize ∧ b1.size = driverAreaSize queueSize ∧
    b2.size = deviceAreaSize queueSize ∧
    queueAreas before queueSize blocks = ⟨queueSize, b0.address, b1.address, b2.address⟩ := by
  have hsizes := taken.sizes
  have hdrop : blocks.drop (before.flatMap Event.kallocs).length = fresh ++ rest := by
    rw [taken.blocks, ← taken.length, List.append_assoc, List.drop_left]
  obtain ⟨b0, fresh0, rfl, h0, hsizes⟩ := List.map_eq_cons_iff.mp hsizes
  obtain ⟨b1, fresh1, rfl, h1, hsizes⟩ := List.map_eq_cons_iff.mp hsizes
  obtain ⟨b2, fresh2, rfl, h2, hsizes⟩ := List.map_eq_cons_iff.mp hsizes
  obtain rfl := List.map_eq_nil_iff.mp hsizes
  refine ⟨b0, b1, b2, rfl, h0, h1, h2, ?_⟩
  rw [queueAreas, hdrop]
  rfl

theorem QueueTaken.ranges : (queueAreas before queueSize blocks).ranges =
    fresh.map fun b => (b.address, b.size) := by
  obtain ⟨b0, b1, b2, rfl, h0, h1, h2, hareas⟩ := taken.three
  rw [hareas, QueueAreas.ranges, ← h0, ← h1, ← h2]
  rfl

theorem QueueTaken.commands :
    kernelCommands (queueSteps before queueSize after) blocks = kernelCommands after rest := by
  have hlength := congrArg List.length taken.sizes
  rw [List.length_map] at hlength
  rw [queueSteps, kernelCommands_others, queueEvents_kallocs, List.length_append, ← hlength,
    ← taken.length, ← List.length_append, taken.blocks, List.drop_left]

theorem QueueTaken.aligned (h : FromHeap L mem (queueSteps before queueSize after) blocks) :
    ∀ b ∈ fresh, b.address % 4096 = 0 := by
  intro b hb
  obtain ⟨t, hrun⟩ := h.run
  refine (h.serves.block_access h.zero hrun ?_).1
  rw [taken.blocks]
  exact List.mem_append_left _ (List.mem_append_right _ hb)

theorem QueueTaken.positive (hpos : 0 < queueSize) : ∀ b ∈ fresh, 0 < b.size := by
  intro b hb
  have hmem := List.mem_map_of_mem (f := Block.size) hb
  rw [taken.sizes] at hmem
  simp only [queueKallocs, descriptorTableSize, driverAreaSize, deviceAreaSize, List.mem_cons,
    List.not_mem_nil, or_false] at hmem
  omega

end areas

theorem noOverlap_shrink {a n n' b k k' : Nat} (h : NoOverlap a n b k) (hn : n' ≤ n) (hk : k' ≤ k) :
    NoOverlap a n' b k' := by
  simp only [NoOverlap] at h ⊢
  omega

theorem le_roundUp (size : Nat) : size ≤ roundUp size := by
  simp only [roundUp]
  omega

theorem QueueTaken.allocated (taken : QueueTaken L mem before queueSize blocks done fresh rest s0 s)
    (h : FromHeap L mem (queueSteps before queueSize after) blocks) (hpos : 0 < queueSize) :
    (queueAreas before queueSize blocks).Allocated := by
  have hapart := h.apart
  rw [taken.blocks, List.map_append, List.map_append] at hapart
  have hfresh := (List.pairwise_append.mp (List.pairwise_append.mp hapart).1).2.1
  refine ⟨?_, ?_⟩
  · rw [taken.ranges]
    refine List.pairwise_map.mpr ((List.pairwise_map.mp hfresh).imp_of_mem ?_)
    intro x y hx hy hno
    have hx := taken.positive hpos x hx
    have hy := taken.positive hpos y hy
    have hxr := le_roundUp x.size
    have hyr := le_roundUp y.size
    apply noOverlap_shrink (hno ?_ ?_) hxr hyr
    · exact hx.trans_le hxr
    · exact hy.trans_le hyr
  · rw [taken.ranges]
    intro x hx
    obtain ⟨b, hb, rfl⟩ := List.mem_map.mp hx
    exact taken.aligned h b hb

theorem QueueTaken.apart (taken : QueueTaken L mem before queueSize blocks done fresh rest s0 s)
    (h : FromHeap L mem (queueSteps before queueSize after) blocks) (hpos : 0 < queueSize) :
    ∀ op ∈ kernelCommands (queueSteps before queueSize after) blocks, ∀ x ∈ op.blocks,
      ∀ r ∈ (queueAreas before queueSize blocks).ranges, NoOverlap r.1 r.2 x.1 x.2 := by
  have hsizes := h.sizes
  have hkallocs := congrArg List.length taken.sizes
  rw [← steps_kallocs, queueSteps_events, List.flatMap_append, queueEvents_kallocs,
    ← taken.sizes, taken.blocks, List.map_append, List.map_append, steps_kallocs] at hsizes
  have hdone : (done.map Block.size ++ fresh.map Block.size).length =
      (before.flatMap Event.kallocs ++ fresh.map Block.size).length := by
    rw [List.length_append, List.length_append, List.length_map, taken.length]
  have hrest := (List.append_inj hsizes hdone).2
  have hapart := h.apart
  rw [taken.blocks, List.map_append] at hapart
  intro op hop x hx r hr
  rw [taken.commands] at hop
  rw [taken.ranges] at hr
  obtain ⟨b, hb, rfl⟩ := List.mem_map.mp hr
  have hmem : x ∈ rest.map Block.range :=
    (kernelCommands_sublist hrest).subset (List.mem_flatMap.mpr ⟨op, hop, hx⟩)
  have hno := (List.pairwise_append.mp hapart).2.2 b.range
    (List.mem_map_of_mem (List.mem_append_right _ hb)) x hmem
  have hb := taken.positive hpos b hb
  have hround := le_roundUp b.size
  exact noOverlap_shrink (hno (hb.trans_le hround) (blocks_nonempty x hx)) hround le_rfl

theorem QueueTaken.constructed {cfg : QueueCfg} (hsize : cfg.queueSize.toNat = queueSize)
    (taken : QueueTaken L mem before queueSize blocks done fresh rest s0 s)
    (h : FromHeap L mem (queueSteps before queueSize after) blocks) (hpos : 0 < queueSize) :
    ∃ cfg', constructVirtqueue cfg s0 = .ok (queueAreas before queueSize blocks, cfg') s ∧
      cfg'.enabled = some (queueAreas before queueSize blocks) := by
  have hsmall : ∀ b ∈ fresh, b.address < 2 ^ 64 := by
    intro b hb
    have hmem : b ∈ blocks := by
      rw [taken.blocks]
      exact List.mem_append_left _ (List.mem_append_right _ hb)
    have hround := (taken.positive hpos b hb).trans_le (le_roundUp b.size)
    have hinside := h.range_inside (List.mem_map_of_mem (f := Block.range) hmem) hround
    have hend : kernelHeapEnd < 2 ^ 64 := by decide
    simp only [Block.range] at hinside
    omega
  obtain ⟨b0, b1, b2, rfl, -, -, -, hareas⟩ := taken.three
  obtain ⟨l1, t1, hexec, hrun⟩ := bind_ok taken.run
  obtain ⟨p0, t1, hkalloc0, hend⟩ := bind_ok hexec
  obtain ⟨rfl, rfl⟩ := EStateM.Result.ok.inj hend
  obtain ⟨l2, t2, hexec, hrun⟩ := bind_ok hrun
  obtain ⟨p1, t2, hkalloc1, hend⟩ := bind_ok hexec
  obtain ⟨rfl, rfl⟩ := EStateM.Result.ok.inj hend
  obtain ⟨l3, t3, hexec, hrun⟩ := bind_ok hrun
  obtain ⟨p2, t3, hkalloc2, hend⟩ := bind_ok hexec
  obtain ⟨rfl, rfl⟩ := EStateM.Result.ok.inj hend
  obtain ⟨hblocks, rfl⟩ := EStateM.Result.ok.inj hrun
  rw [List.append_assoc, List.append_assoc] at hblocks
  obtain ⟨rfl, rfl, rfl⟩ : ⟨p0, _⟩ = b0 ∧ ⟨p1, _⟩ = b1 ∧ ⟨p2, _⟩ = b2 := by
    simpa using List.append_cancel_left hblocks
  simp only [List.forall_mem_cons] at hsmall
  obtain ⟨h0, h1, h2, -⟩ := hsmall
  rw [hareas]
  refine ⟨QueueCfg.writeEnable { cfg with
      queueDesc := BitVec.ofNat 64 p0
      queueDriver := BitVec.ofNat 64 p1
      queueDevice := BitVec.ofNat 64 p2 }, ?_, ?_⟩
  · subst hsize
    rw [constructVirtqueue, bind_run hkalloc0, bind_run hkalloc1, bind_run hkalloc2]
    rfl
  · simp only [QueueCfg.writeEnable, BitVec.toNat_ofNat, Nat.mod_eq_of_lt h0,
      Nat.mod_eq_of_lt h1, Nat.mod_eq_of_lt h2, hsize]

/-- The areas are zero when the queue is enabled. -/
theorem QueueTaken.starts (taken : QueueTaken L mem before queueSize blocks done fresh rest s0 s)
    (h : FromHeap L mem (queueSteps before queueSize after) blocks) {v : Virtqueue}
    (hstart : QueueStart queueSize v) (hfits : BuffersFit v) :
    (memorySystem (queueAreas before queueSize blocks)).Reachable ⟨v, s.mem.bytes⟩ := by
  refine .start ⟨hstart, hfits, fun r hr y hlow hhigh => ?_⟩
  rw [taken.ranges] at hr
  obtain ⟨b, hb, rfl⟩ := List.mem_map.mp hr
  exact (taken.cleared b hb).bytes (taken.aligned h b hb) hlow hhigh

end taken

theorem driverStores_width (a : QueueAreas) (v : Virtqueue) :
    ∀ store ∈ a.driverStores v, 0 < store.field.width := by
  intro store hstore
  unfold QueueAreas.driverStores at hstore
  split at hstore
  · next f todo p _ =>
    cases f with
    | type address value => exact absurd hstore List.not_mem_nil
    | usedIdx => exact absurd hstore List.not_mem_nil
    | _ =>
      obtain rfl := List.mem_singleton.mp hstore
      exact Nat.succ_pos _
  · rcases List.mem_append.mp hstore with hstore | hstore
    · split at hstore
      · obtain rfl := List.mem_singleton.mp hstore
        exact Nat.succ_pos _
      · exact absurd hstore List.not_mem_nil
    · obtain rfl := List.mem_singleton.mp hstore
      exact Nat.succ_pos _
  · obtain rfl := List.mem_singleton.mp hstore
    exact Nat.succ_pos _
  · exact absurd hstore List.not_mem_nil

/-- All that the model of the queue takes for granted of the areas `a`, in a run of the kernel. -/
structure QueueReady (L : Layout) (mem : Mem) (before : List Event) (queueSize : Nat)
    (after : List KernelStep) (blocks : List Block) (a : QueueAreas) : Prop where
  allocated : a.Allocated
  apart : ∀ op ∈ kernelCommands (queueSteps before queueSize after) blocks, ∀ x ∈ op.blocks,
    ∀ r ∈ a.ranges, NoOverlap r.1 r.2 x.1 x.2
  starts : ∃ done s0, runOwned L before (boot L mem) = .ok done s0 ∧
    ∀ cfg : QueueCfg, cfg.queueSize.toNat = queueSize →
      ∃ cfg' s, constructVirtqueue cfg s0 = .ok (a, cfg') s ∧ cfg'.enabled = some a ∧
        ∀ v, QueueStart queueSize v → BuffersFit v → (memorySystem a).Reachable ⟨v, s.mem.bytes⟩
  reached : ∃ s, runOwned L ((queueSteps before queueSize after).flatMap KernelStep.events)
      (boot L mem) = .ok blocks s ∧ ∀ x, (memorySystem a).Reachable x →
    ∀ store ∈ a.driverStores (x.view a), kernelRegisters.access s.mem
      ⟨.el1, .write, store.address, store.field.width⟩ = .ok ⟨store.address, .normalWriteBack⟩

/-- In every run that the heap lasts for: `construct_virtqueue` tells the device of the very areas
that the driver works on, which are such that the queue in memory starts as its model does; no
block of a command touches them, and each store of the driver to them lands where it is meant. -/
theorem constructVirtqueue_ready {L : Layout} {mem : Mem} {before : List Event} {k : Nat}
    {after : List KernelStep} {blocks : List Block} (hlow : 2 ≤ k) (hk : k ≤ 16)
    (h : FromHeap L mem (queueSteps before (2 ^ k) after) blocks) :
    QueueReady L mem before (2 ^ k) after blocks (queueAreas before (2 ^ k) blocks) := by
  obtain ⟨done, fresh, rest, s0, s, taken⟩ := h.queueTaken
  have hpos : 0 < 2 ^ k := Nat.two_pow_pos k
  have allocated := taken.allocated h hpos
  refine ⟨allocated, taken.apart h hpos, ⟨done, s0, taken.booted, fun cfg hsize => ?_⟩, ?_⟩
  · obtain ⟨cfg', hrun, henabled⟩ := taken.constructed hsize h hpos
    exact ⟨cfg', s, hrun, henabled, fun v => taken.starts h⟩
  obtain ⟨t, hrun⟩ := h.run
  refine ⟨t, hrun, fun x hreach store hstore => ?_⟩
  obtain ⟨haligned, r, hr, hlower, hupper⟩ :=
    (memory_places allocated hlow hk rfl hreach).1 store hstore
  have hwidth := driverStores_width _ _ store hstore
  rw [taken.ranges] at hr
  obtain ⟨b, hb, rfl⟩ := List.mem_map.mp hr
  have hmem : b ∈ blocks := by
    rw [taken.blocks]
    exact List.mem_append_left _ (List.mem_append_right _ hb)
  have hround := le_roundUp b.size
  refine (h.serves.block_access h.zero hrun hmem).2 _ rfl nofun haligned ?_
  exact ⟨hlower, by dsimp only at hupper ⊢; omega⟩

/-- A queue of 64 entries, with two commands behind it. -/
theorem constructVirtqueue_ready_image : ∃ blocks, QueueReady imageLayout zeroRam [.kalloc 10] 64
    [.command .getDisplayInfo, .command .transferToHost2d] blocks
    (queueAreas [.kalloc 10] 64 blocks) := by
  have hheap : ∃ blocks, FromHeap imageLayout zeroRam (queueSteps [.kalloc 10] 64
      [.command .getDisplayInfo, .command .transferToHost2d]) blocks := by
    apply image_fromHeap ?_ (by decide)
    intro op hop
    rw [queueSteps_events] at hop
    simp only [queueEvents, queueKallocs, List.flatMap_cons, List.flatMap_nil, KernelStep.events,
      Command.kallocs, List.map_cons, List.map_nil, Event.ops, List.cons_append, List.nil_append,
      List.mem_cons, List.not_mem_nil, or_false] at hop
    rcases hop with rfl | rfl | rfl | rfl | rfl | rfl | rfl | rfl <;>
      simp [Op.Legal, Op.Rounds, descriptorTableSize, driverAreaSize, deviceAreaSize]
  obtain ⟨blocks, hheap⟩ := hheap
  exact ⟨blocks, constructVirtqueue_ready (k := 6) (by decide) (by decide) hheap⟩

end SelfmadeOS
