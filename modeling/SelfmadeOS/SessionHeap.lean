import SelfmadeOS.GpuPicture
import SelfmadeOS.HeapBlocks

/-!
# The blocks of the commands come from the heap

What a session takes for granted of the blocks of its commands follows from how `kalloc` works:
they lie apart from each other and from the frame, and addresses are small.
-/

namespace SelfmadeOS
set_option autoImplicit false
open StateRuns ByteMemory

def Command.kallocs : Command → List Nat
  | .getDisplayInfo => [24, 408]
  | .init2DFrameBuffer => [40, 24]
  | .connectResourceToMemory => [32, 16, 24, frameBytes]
  | .setScanoutParam => [48, 24]
  | .transferToHost2d => [56, 24]
  | .resourceFlush => [48, 24]

def Event.kallocs : Event → List Nat
  | .kalloc size => [size]
  | _ => []

/-- What the kernel does with the heap: a command, or anything else. -/
inductive KernelStep where
  | command (c : Command)
  | other (event : Event)

namespace KernelStep

def events : KernelStep → List Event
  | command c => c.kallocs.map .kalloc
  | other event => [event]

def kallocs : KernelStep → List Nat
  | command c => c.kallocs
  | other event => event.kallocs

end KernelStep

def blockAddress (blocks : List Block) (i : Nat) : Nat := (blocks.getD i ⟨0, 0⟩).address

def Command.buffers (c : Command) (blocks : List Block) : Buffers :=
  match c with
  | .connectResourceToMemory =>
    ⟨blockAddress blocks 0, blockAddress blocks 1, blockAddress blocks 2⟩
  | _ => ⟨blockAddress blocks 0, 0, blockAddress blocks 1⟩

def Command.memory2d (c : Command) (blocks : List Block) : Nat :=
  match c with
  | .connectResourceToMemory => blockAddress blocks 3
  | _ => 0

/-- The commands with the blocks that `kalloc` returned for them. -/
def kernelCommands : List KernelStep → List Block → List GpuOp
  | [], _ => []
  | .command c :: steps, blocks =>
    .command c (c.buffers blocks) (c.memory2d blocks) ::
      kernelCommands steps (blocks.drop c.kallocs.length)
  | .other event :: steps, blocks => kernelCommands steps (blocks.drop event.kallocs.length)

section sizes
variable {events : List Event} {blocks blocks' : List Block} {s s' : Machine}

theorem exec_sizes {event : Event} (h : event.exec blocks s = .ok blocks' s') :
    blocks'.map Block.size = blocks.map Block.size ++ event.kallocs := by
  cases event with
  | kalloc size =>
    obtain ⟨p, t, -, hend⟩ := bind_ok h
    obtain rfl := (EStateM.Result.ok.inj hend).1
    rw [List.map_append]
    rfl
  | registerDeviceMemory address size =>
    obtain ⟨u, t, -, hend⟩ := bind_ok h
    obtain rfl := (EStateM.Result.ok.inj hend).1
    exact (List.append_nil _).symm
  | write block page index word =>
    obtain ⟨u, t, -, hend⟩ := bind_ok h
    obtain rfl := (EStateM.Result.ok.inj hend).1
    exact (List.append_nil _).symm

theorem runEvents_sizes (h : runEvents events blocks s = .ok blocks' s') :
    blocks'.map Block.size = blocks.map Block.size ++ events.flatMap Event.kallocs := by
  induction events generalizing blocks s with
  | nil =>
    obtain rfl := (EStateM.Result.ok.inj h).1
    exact (List.append_nil _).symm
  | cons event events ih =>
    obtain ⟨more, t, hexec, hrest⟩ := bind_ok h
    rw [ih hrest, exec_sizes hexec, List.append_assoc]
    rfl

theorem steps_kallocs (steps : List KernelStep) :
    (steps.flatMap KernelStep.events).flatMap Event.kallocs = steps.flatMap KernelStep.kallocs := by
  rw [List.flatMap_assoc]
  congr 1
  funext step
  cases step with
  | command c => cases c <;> rfl
  | other event => exact List.flatMap_singleton ..

end sizes

def Block.range (b : Block) : Nat × Nat := (b.address, roundUp b.size)

def GpuOp.blocks : GpuOp → List (Nat × Nat)
  | .store _ => []
  | .command c b memory2d => c.blocks b memory2d

section commands
variable {steps : List KernelStep} {blocks : List Block}

theorem command_blocks {c : Command} {rest : List Nat}
    (h : blocks.map Block.size = c.kallocs ++ rest) :
    c.blocks (c.buffers blocks) (c.memory2d blocks) =
      (blocks.take c.kallocs.length).map Block.range := by
  have hrange : ∀ b : Block, ∀ size, b.size = size → b.range = (b.address, roundUp size) := by
    rintro b size rfl
    rfl
  cases c with
  | connectResourceToMemory =>
    obtain ⟨b0, rest0, rfl, h0, h⟩ := List.map_eq_cons_iff.mp h
    obtain ⟨b1, rest1, rfl, h1, h⟩ := List.map_eq_cons_iff.mp h
    obtain ⟨b2, rest2, rfl, h2, h⟩ := List.map_eq_cons_iff.mp h
    obtain ⟨b3, rest3, rfl, h3, h⟩ := List.map_eq_cons_iff.mp h
    show _ = [b0.range, b1.range, b2.range, b3.range]
    rw [hrange b0 _ h0, hrange b1 _ h1, hrange b2 _ h2, hrange b3 _ h3]
    rfl
  | _ =>
    obtain ⟨b0, rest0, rfl, h0, h⟩ := List.map_eq_cons_iff.mp h
    obtain ⟨b1, rest1, rfl, h1, h⟩ := List.map_eq_cons_iff.mp h
    show _ = [b0.range, b1.range]
    rw [hrange b0 _ h0, hrange b1 _ h1]
    rfl

theorem kernelCommands_sublist (h : blocks.map Block.size = steps.flatMap KernelStep.kallocs) :
    ((kernelCommands steps blocks).flatMap GpuOp.blocks).Sublist (blocks.map Block.range) := by
  induction steps generalizing blocks with
  | nil => exact List.nil_sublist _
  | cons step steps ih =>
    rw [List.flatMap_cons] at h
    have hdrop : (blocks.drop step.kallocs.length).map Block.size =
        steps.flatMap KernelStep.kallocs := by
      rw [List.map_drop, h, List.drop_left]
    cases step with
    | command c =>
      rw [kernelCommands, List.flatMap_cons]
      have hsplit : blocks.map Block.range = (blocks.take c.kallocs.length).map Block.range ++
          (blocks.drop c.kallocs.length).map Block.range := by
        rw [← List.map_append, List.take_append_drop]
      rw [hsplit, GpuOp.blocks, command_blocks h]
      exact (List.Sublist.refl _).append (ih hdrop)
    | other event => exact (ih hdrop).trans ((List.drop_sublist _ _).map _)

end commands

/-- Blocks of a run of the kernel, which the heap lasts for. -/
structure FromHeap (L : Layout) (mem : Mem) (steps : List KernelStep) (blocks : List Block) :
    Prop where
  zero : ZeroRam L kernelHeapEnd mem
  serves : HeapServes L mem (steps.flatMap KernelStep.events)
  run : ∃ s, runOwned L (steps.flatMap KernelStep.events) (boot L mem) = .ok blocks s

section runs
variable {L : Layout} {mem : Mem} {steps : List KernelStep} {blocks : List Block}

theorem FromHeap.sizes (h : FromHeap L mem steps blocks) :
    blocks.map Block.size = steps.flatMap KernelStep.kallocs := by
  obtain ⟨s, hrun⟩ := h.run
  obtain ⟨-, t, -, hevents⟩ := bind_ok hrun
  exact (runEvents_sizes hevents).trans (steps_kallocs steps)

theorem FromHeap.layered (h : FromHeap L mem steps blocks) :
    Layered L.kernelEnd kernelHeapEnd (blocks.map Block.bytes) := by
  obtain ⟨s, hrun⟩ := h.run
  obtain ⟨blocks', s', hrun', holds⟩ := h.serves.holds h.zero
  obtain ⟨rfl, rfl⟩ := EStateM.Result.ok.inj (hrun.symm.trans hrun')
  have htaken := boot_takesHeap L mem
    (runEvents_takesHeap (steps.flatMap KernelStep.events) [])
  rw [← runOwned, hrun, final_ok] at htaken
  have hroom := h.serves.room
  rw [hrun, final_ok] at hroom
  have hfree := (htaken.from_boot.1.free_le (by decide : kernelHeapEnd < 2 ^ 64) hroom).2
  have hlayered := holds.layered
  refine ⟨(List.pairwise_append.mp hlayered.pairwise).1, fun r hr => ?_⟩
  exact (hlayered.inside r (List.mem_append_left _ hr)).trans
    (Set.Ico_subset_Ico_right (hfree.trans hroom))

theorem FromHeap.range_inside (h : FromHeap L mem steps blocks) {r : Nat × Nat}
    (hr : r ∈ blocks.map Block.range) (hpos : 0 < r.2) : r.1 + r.2 ≤ kernelHeapEnd := by
  obtain ⟨b, hb, rfl⟩ := List.mem_map.mp hr
  have hinside := h.layered.inside _ (List.mem_map_of_mem (f := Block.bytes) hb)
  have hne : b.address < b.address + roundUp b.size := Nat.lt_add_of_pos_right hpos
  exact ((Set.Ico_subset_Ico_iff hne).mp hinside).2

theorem FromHeap.apart (h : FromHeap L mem steps blocks) :
    (blocks.map Block.range).Pairwise fun x y =>
      0 < x.2 → 0 < y.2 → NoOverlap x.1 x.2 y.1 y.2 := by
  refine List.pairwise_map.mpr ((List.pairwise_map.mp h.layered.pairwise).imp ?_)
  intro x y hdisjoint hx hy
  have hmin := Set.Ico_disjoint_Ico.mp hdisjoint
  simp only [Block.range, NoOverlap] at hx hy ⊢
  omega

theorem blocks_nonempty {op : GpuOp} : ∀ x ∈ op.blocks, 0 < x.2 := by
  cases op with
  | store s => exact fun x hx => absurd hx List.not_mem_nil
  | command c b memory2d =>
    have hpage : 0 < pageSize ∧ 0 < frameBytes := by decide
    cases c <;>
      simp only [GpuOp.blocks, Command.blocks, List.forall_mem_cons, hpage, true_and] <;>
      exact fun x hx => absurd hx List.not_mem_nil

theorem FromHeap.commands_apart (h : FromHeap L mem steps blocks) :
    ((kernelCommands steps blocks).flatMap GpuOp.blocks).Pairwise fun x y =>
      NoOverlap x.1 x.2 y.1 y.2 := by
  refine List.Pairwise.imp_of_mem ?_ (h.apart.sublist (kernelCommands_sublist h.sizes))
  intro x y hx hy hapart
  obtain ⟨_, -, hx⟩ := List.mem_flatMap.mp hx
  obtain ⟨_, -, hy⟩ := List.mem_flatMap.mp hy
  exact hapart (blocks_nonempty x hx) (blocks_nonempty y hy)

theorem FromHeap.block_inside (h : FromHeap L mem steps blocks) {op : GpuOp}
    (hop : op ∈ kernelCommands steps blocks) : ∀ x ∈ op.blocks, x.1 + x.2 ≤ kernelHeapEnd := by
  intro x hx
  have hmem : x ∈ (kernelCommands steps blocks).flatMap GpuOp.blocks :=
    List.mem_flatMap.mpr ⟨op, hop, hx⟩
  exact h.range_inside ((kernelCommands_sublist h.sizes).subset hmem) (blocks_nonempty x hx)

/-- A command of the run uses its frame only if it is the one that sets it up. -/
theorem kernelCommands_frame {op : GpuOp} (hop : op ∈ kernelCommands steps blocks) :
    ∃ c b memory2d, op = .command c b memory2d ∧
      (c ≠ .connectResourceToMemory → memory2d = 0) := by
  induction steps generalizing blocks with
  | nil => exact absurd hop List.not_mem_nil
  | cons step steps ih =>
    cases step with
    | command c =>
      rcases List.mem_cons.mp hop with rfl | hop
      · refine ⟨c, _, _, rfl, fun hc => ?_⟩
        cases c with
        | connectResourceToMemory => exact absurd rfl hc
        | _ => rfl
      · exact ih hop
    | other event => exact ih hop

theorem FromHeap.allocated (h : FromHeap L mem steps blocks) :
    ∀ op ∈ kernelCommands steps blocks, op.Allocated := by
  intro op hop
  obtain ⟨c, b, memory2d, rfl, hframe⟩ := kernelCommands_frame hop
  refine ⟨(List.pairwise_flatMap.mp h.commands_apart).1 _ hop, ?_⟩
  by_cases hc : c = .connectResourceToMemory
  · subst hc
    have hin := h.block_inside hop (memory2d, frameBytes) (by simp [GpuOp.blocks, Command.blocks])
    have hend : kernelHeapEnd < 2 ^ 64 := by decide
    omega
  · rw [hframe hc]
    decide

/-- What a session takes for granted: each command has its blocks, and no later command touches
the frame. -/
structure CommandsPlaced (ops : List GpuOp) : Prop where
  allocated : ∀ op ∈ ops, op.Allocated
  running : ∀ before b memory2d after, ops =
    before ++ .command .connectResourceToMemory b memory2d :: after →
      ∀ c b' memory2d', c = .transferToHost2d ∨ c = .resourceFlush →
        .command c b' memory2d' ∈ after → Running memory2d (.command c b' memory2d')

/-- In every run of the kernel that the heap lasts for, `kalloc` places the blocks of the commands
as a session needs them. -/
theorem kernelCommands_placed (h : FromHeap L mem steps blocks) :
    CommandsPlaced (kernelCommands steps blocks) := by
  refine ⟨h.allocated, fun before b memory2d after hsplit c b' memory2d' hc hop => ?_⟩
  refine ⟨hc, fun i hi block hblock => ?_⟩
  have hapart := h.commands_apart
  rw [hsplit, List.flatMap_append, List.flatMap_cons] at hapart
  have hframe : (memory2d, frameBytes) ∈
      GpuOp.blocks (.command .connectResourceToMemory b memory2d) := by
    simp [GpuOp.blocks, Command.blocks]
  have hlater := (List.pairwise_append.mp hapart).2.1
  have hno := (List.pairwise_append.mp hlater).2.2 _ hframe block
    (List.mem_flatMap.mpr ⟨_, hop, hblock⟩)
  simp only [NoOverlap] at hno
  omega

end runs

def exampleSteps : List KernelStep :=
  [.command .getDisplayInfo, .other (.kalloc 10), .command .transferToHost2d]

theorem image_serves {events : List Event}
    (hops : ∀ op ∈ events.flatMap Event.ops, op.Legal kernelHeapEnd ∧ op.Rounds)
    (hroom : heapBytes (events.flatMap Event.ops) +
      4 * pageSize * mostTables (events.flatMap Event.ops) ≤ 0xE8000) :
    HeapServes imageLayout zeroRam events := by
  have htakes := image_takes (runEvents_takesHeap events []) hroom
  refine ⟨fun op hop => (hops op hop).1, fun op hop => (hops op hop).2, ?_, htakes.1⟩
  rw [runOwned]
  have hpage : pageSize = 4096 := rfl
  have hend : imageLayout.kernelEnd + 0xE8000 + 4 * 4096 * 2 ≤ kernelHeapEnd := by decide
  have hspent := Nat.mul_le_mul_left (4 * pageSize) htakes.2
  rw [hpage] at hspent hroom ⊢
  omega

theorem image_fromHeap {steps : List KernelStep}
    (hops : ∀ op ∈ (steps.flatMap KernelStep.events).flatMap Event.ops,
      op.Legal kernelHeapEnd ∧ op.Rounds)
    (hroom : heapBytes ((steps.flatMap KernelStep.events).flatMap Event.ops) + 4 * pageSize *
      mostTables ((steps.flatMap KernelStep.events).flatMap Event.ops) ≤ 0xE8000) :
    ∃ blocks, FromHeap imageLayout zeroRam steps blocks := by
  have hzero : ZeroRam imageLayout kernelHeapEnd zeroRam := fun _ _ _ => rfl
  obtain ⟨blocks, s, hrun, -⟩ := (image_serves hops hroom).holds hzero
  exact ⟨blocks, hzero, image_serves hops hroom, s, hrun⟩

theorem exampleSteps_fromHeap : ∃ blocks, FromHeap imageLayout zeroRam exampleSteps blocks := by
  apply image_fromHeap ?_ (by decide)
  intro op hop
  simp only [exampleSteps, List.flatMap_cons, List.flatMap_nil, KernelStep.events,
    Command.kallocs, List.map_cons, List.map_nil, Event.ops, List.cons_append, List.nil_append,
    List.mem_cons, List.not_mem_nil, or_false] at hop
  rcases hop with rfl | rfl | rfl | rfl | rfl <;> simp [Op.Legal, Op.Rounds]

theorem kernelCommands_placed_image : ∃ blocks, blocks.map Block.size = [24, 408, 10, 56, 24] ∧
    CommandsPlaced (kernelCommands exampleSteps blocks) := by
  obtain ⟨blocks, hheap⟩ := exampleSteps_fromHeap
  exact ⟨blocks, hheap.sizes, kernelCommands_placed hheap⟩

end SelfmadeOS
