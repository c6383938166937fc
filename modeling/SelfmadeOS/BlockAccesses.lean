import SelfmadeOS.AccessRights
import SelfmadeOS.SessionHeap

/-!
# The stores of the commands reach their blocks

Whatever has happened before, a block that `kalloc` has returned is mapped to itself as cacheable
memory. So no store of a command faults, and it lands at the very address that the device is told.
-/

namespace SelfmadeOS
set_option autoImplicit false
open StateRuns ByteMemory Records

def BlocksRequested (blocks : List Block) (s : Machine) : Prop :=
  ∀ b ∈ blocks, ⟨b.address, roundUp b.size, 0⟩ ∈ s.requests

section requested
variable {events : List Event} {blocks blocks' : List Block} {s s' : Machine}

theorem kalloc_requested {size p : Nat} (hround : size + 4095 < 2 ^ 64)
    (h : kalloc size s = .ok p s') : ⟨p, roundUp size, 0⟩ ∈ s'.requests := by
  rw [kalloc_requests h, allign_eq_roundUp hround]
  exact List.mem_append_right _ (List.mem_singleton_self _)

theorem exec_requested {event : Event} (rounds : ∀ op ∈ event.ops, op.Rounds)
    (hblocks : BlocksRequested blocks s) (h : event.exec blocks s = .ok blocks' s') :
    BlocksRequested blocks' s' := by
  have hext := event.exec_recorded blocks s
  rw [h, final_ok] at hext
  have hold : BlocksRequested blocks s' := fun b hb => hext.requests.subset (hblocks b hb)
  cases event with
  | kalloc size =>
    obtain ⟨p, t, hrun, hend⟩ := bind_ok h
    obtain ⟨rfl, rfl⟩ := EStateM.Result.ok.inj hend
    intro b hb
    rcases List.mem_append.mp hb with hb | hb
    · exact hold b hb
    · obtain rfl := List.mem_singleton.mp hb
      exact kalloc_requested (rounds _ (List.mem_singleton_self _)) hrun
  | registerDeviceMemory address size =>
    obtain ⟨u, t, -, hend⟩ := bind_ok h
    obtain ⟨rfl, rfl⟩ := EStateM.Result.ok.inj hend
    exact hold
  | write block page index word =>
    obtain ⟨u, t, -, hend⟩ := bind_ok h
    obtain ⟨rfl, rfl⟩ := EStateM.Result.ok.inj hend
    exact hold

theorem runEvents_requested (rounds : ∀ op ∈ events.flatMap Event.ops, op.Rounds)
    (hblocks : BlocksRequested blocks s) (h : runEvents events blocks s = .ok blocks' s') :
    BlocksRequested blocks' s' := by
  induction events generalizing blocks s with
  | nil =>
    obtain ⟨rfl, rfl⟩ := EStateM.Result.ok.inj h
    exact hblocks
  | cons event events ih =>
    rw [List.flatMap_cons] at rounds
    obtain ⟨more, t, hexec, hrest⟩ := bind_ok h
    exact ih (fun op hop => rounds op (List.mem_append_right _ hop))
      (exec_requested (fun op hop => rounds op (List.mem_append_left _ hop)) hblocks hexec) hrest

end requested

section runs
variable {L : Layout} {mem : Mem} {events : List Event} {blocks : List Block} {s : Machine}

theorem HeapServes.requested (h : HeapServes L mem events)
    (hrun : runOwned L events (boot L mem) = .ok blocks s) : BlocksRequested blocks s := by
  obtain ⟨-, t, -, hevents⟩ := bind_ok hrun
  exact runEvents_requested h.rounds (fun b hb => absurd hb List.not_mem_nil) hevents

theorem HeapServes.block_access (h : HeapServes L mem events)
    (hzero : ZeroRam L kernelHeapEnd mem) (hrun : runOwned L events (boot L mem) = .ok blocks s)
    {b : Block} (hb : b ∈ blocks) : b.address % 4096 = 0 ∧
      ∀ a : MemoryAccess, a.level = .el1 → a.kind ≠ .fetch → a.address % a.width = 0 →
        a.address ∈ b.bytes →
          kernelRegisters.access s.mem a = .ok ⟨a.address, .normalWriteBack⟩ := by
  obtain ⟨blocks', s', hrun', holds⟩ := h.holds hzero
  obtain ⟨rfl, rfl⟩ := EStateM.Result.ok.inj (hrun.symm.trans hrun')
  have hr := h.requested hrun b hb
  have hsound := holds.inv.accessesSound holds.served
  exact ⟨holds.inv.request_aligned hr, fun a hlevel hkind haligned hin =>
    hsound.requested _ hr a hlevel hkind haligned hin⟩

end runs

/-- `kalloc` clears its block byte by byte; all other stores are single ones. -/
def storeAccesses (s : Store) : List MemoryAccess :=
  if s.field.width ≤ 8 then [⟨.el1, .write, s.address, s.field.width⟩]
  else (List.range s.field.width).map fun i => ⟨.el1, .write, s.address + i, 1⟩

/-- In the block as a whole, and single stores at a multiple of their width, which is a power
of two. -/
def PlacedIn (s : Store) (block : Nat × Nat) : Prop :=
  ∃ offset, s.address = block.1 + offset ∧ offset + s.field.width ≤ block.2 ∧
    (s.field.width ≤ 8 → 4096 % s.field.width = 0 ∧ offset % s.field.width = 0)

def PlacedStores (blocks : List (Nat × Nat)) (stores : List DriverStore) : Prop :=
  ∀ d ∈ stores, ∀ s ∈ d.stores, ∃ block ∈ blocks, PlacedIn s block

namespace PlacedStores
variable {blocks : List (Nat × Nat)} {stores more : List DriverStore}

theorem append (h : PlacedStores blocks stores) (h' : PlacedStores blocks more) :
    PlacedStores blocks (stores ++ more) := by
  intro d hd
  rcases List.mem_append.mp hd with hd | hd
  · exact h d hd
  · exact h' d hd

theorem nil (blocks : List (Nat × Nat)) : PlacedStores blocks [] :=
  fun _ hd => absurd hd List.not_mem_nil

theorem cons {d : DriverStore} (h : ∀ s ∈ d.stores, ∃ block ∈ blocks, PlacedIn s block)
    (h' : PlacedStores blocks stores) : PlacedStores blocks (d :: stores) := by
  intro d' hd
  rcases List.mem_cons.mp hd with rfl | hd
  · exact h
  · exact h' d' hd

theorem consField {a n : Nat} (hblock : (a, n) ∈ blocks) {address offset width value : Nat}
    (haddress : address = a + offset) (hroom : offset + width ≤ n)
    (haligned : 4096 % width = 0 ∧ offset % width = 0) (h : PlacedStores blocks stores) :
    PlacedStores blocks (field address width value :: stores) := by
  refine cons (fun s hs => ?_) h
  obtain rfl := List.mem_singleton.mp hs
  exact ⟨_, hblock, offset, haddress, hroom, fun _ => haligned⟩

theorem consQueue {f : Fill} (hf : f.stores = []) (h : PlacedStores blocks stores) :
    PlacedStores blocks (.queue f :: stores) := by
  refine cons (fun s hs => ?_) h
  have hnone : s ∈ f.stores := hs
  rw [hf] at hnone
  exact absurd hnone List.not_mem_nil

theorem consType {a n value : Nat} (hblock : (a, n) ∈ blocks) (hroom : 4 ≤ n)
    (h : PlacedStores blocks stores) : PlacedStores blocks (.queue (.type a value) :: stores) := by
  refine cons (fun s hs => ?_) h
  obtain rfl := List.mem_singleton.mp hs
  have haligned : 4096 % 4 = 0 ∧ 0 % 4 = 0 := by decide
  exact ⟨_, hblock, 0, rfl, by dsimp only; omega, fun _ => haligned⟩

theorem consWhole {a n value : Nat} (hblock : (a, n) ∈ blocks) (hlong : 8 < n)
    (h : PlacedStores blocks stores) : PlacedStores blocks (.ram ⟨a, ⟨n, value⟩⟩ :: stores) := by
  refine cons (fun s hs => ?_) h
  obtain rfl := List.mem_singleton.mp hs
  exact ⟨_, hblock, 0, rfl, by dsimp only; omega, fun hshort => absurd hlong (by
    dsimp only at hshort
    omega)⟩

theorem kalloc {a : Nat} (hblock : (a, pageSize) ∈ blocks) :
    PlacedStores blocks (kallocStores a) :=
  consWhole hblock (by decide) (consType hblock (by decide) (nil _))

theorem hdr {a n type : Nat} (hblock : (a, n) ∈ blocks) (hroom : 24 ≤ n) :
    PlacedStores blocks (hdrStores a type) := by
  refine consType hblock (by omega) ?_
  refine consField hblock rfl (by omega) (by decide) ?_
  refine consField hblock rfl (by omega) (by decide) ?_
  exact consField hblock rfl (by omega) (by decide) (nil _)

theorem desc (blocks : List (Nat × Nat)) (link : Nat × VirtqDesc) :
    PlacedStores blocks (descStores link) := by
  intro d hd s hs
  obtain ⟨f, hf, rfl⟩ := List.mem_map.mp hd
  have hnone : f.stores = [] := by
    simp only [Fill.desc, List.mem_cons, List.not_mem_nil, or_false] at hf
    rcases hf with rfl | rfl | rfl | rfl <;> rfl
  have hs' : s ∈ f.stores := hs
  rw [hnone] at hs'
  exact absurd hs' List.not_mem_nil

theorem screenRect {a n r : Nat} (hblock : (a, n) ∈ blocks) (hroom : r + 16 ≤ n)
    (haligned : r % 4 = 0) : PlacedStores blocks (screenRectStores (a + r)) := by
  simp only [screenRectStores, Nat.add_assoc]
  refine consField hblock rfl (by omega) ⟨by decide, haligned⟩ ?_
  refine consField hblock rfl (by omega) ⟨by decide, by omega⟩ ?_
  refine consField hblock rfl (by omega) ⟨by decide, by omega⟩ ?_
  exact consField hblock rfl (by omega) ⟨by decide, by omega⟩ (nil _)

theorem twoDescriptors {type requestLen d0 d1 : Nat} {fields : List DriverStore} {b : Buffers}
    (h : PlacedStores [(b.request, pageSize), (b.response, pageSize)] fields) :
    PlacedStores [(b.request, pageSize), (b.response, pageSize)]
      (twoDescriptorsStores type requestLen fields d0 d1 b) := by
  have hrequest : (b.request, pageSize) ∈ [(b.request, pageSize), (b.response, pageSize)] :=
    List.mem_cons_self
  have hresponse : (b.response, pageSize) ∈ [(b.request, pageSize), (b.response, pageSize)] :=
    List.mem_cons_of_mem _ List.mem_cons_self
  refine append (append (append (append (append (append ?_ ?_) ?_) h) ?_) ?_) ?_
  · exact kalloc hrequest
  · exact kalloc hresponse
  · exact hdr hrequest (by decide)
  · exact desc _ _
  · exact desc _ _
  · exact consQueue rfl (nil _)

end PlacedStores

section command
variable (c : Command) (b : Buffers) (memory2d : Nat)

theorem command_placed : PlacedStores (c.blocks b memory2d) (c.plan 0 0 0 b memory2d) := by
  have hpage : pageSize = 4096 := rfl
  have hrequest : (b.request, pageSize) ∈ c.blocks b memory2d := by
    cases c <;> exact List.mem_cons_self
  cases c with
  | getDisplayInfo =>
    refine .append (.append (.append (.append (.kalloc hrequest) (.kalloc ?_)) (.desc _ _))
      (.desc _ _)) (.hdr hrequest (by decide))
    exact List.mem_cons_of_mem _ List.mem_cons_self
  | init2DFrameBuffer =>
    apply PlacedStores.twoDescriptors
    refine .consField hrequest rfl (by omega) (by decide) ?_
    refine .consField hrequest rfl (by omega) (by decide) ?_
    refine .consField hrequest rfl (by omega) (by decide) ?_
    exact .consField hrequest rfl (by omega) (by decide) (.nil _)
  | connectResourceToMemory =>
    have hentry : (b.entry, pageSize) ∈ Command.connectResourceToMemory.blocks b memory2d :=
      List.mem_cons_of_mem _ List.mem_cons_self
    have hresponse : (b.response, pageSize) ∈ Command.connectResourceToMemory.blocks b memory2d :=
      List.mem_cons_of_mem _ (List.mem_cons_of_mem _ List.mem_cons_self)
    have hframe : (memory2d, frameBytes) ∈ Command.connectResourceToMemory.blocks b memory2d :=
      List.mem_cons_of_mem _ (List.mem_cons_of_mem _ (List.mem_cons_of_mem _ List.mem_cons_self))
    refine .append (.append (.append (.append (.append (.append (.append (.append (.append
      (.kalloc hrequest) (.kalloc hentry)) (.kalloc hresponse)) (.hdr hrequest (by decide))) ?_)
      (.desc _ _)) ?_) (.desc _ _)) (.consQueue rfl (.nil _))) (.desc _ _)
    · refine .consField hrequest rfl (by omega) (by decide) ?_
      exact .consField hrequest rfl (by omega) (by decide) (.nil _)
    · refine .consWhole hframe (by decide) (.cons (fun s hs => absurd hs List.not_mem_nil) ?_)
      refine .consField hentry (Nat.add_zero _).symm (by omega) (by decide) ?_
      refine .consField hentry rfl (by omega) (by decide) ?_
      exact .consField hentry rfl (by omega) (by decide) (.nil _)
  | setScanoutParam =>
    apply PlacedStores.twoDescriptors
    refine .append (.screenRect hrequest (by omega) (by decide)) ?_
    refine .consField hrequest rfl (by omega) (by decide) ?_
    exact .consField hrequest rfl (by omega) (by decide) (.nil _)
  | transferToHost2d =>
    apply PlacedStores.twoDescriptors
    refine .append (.append ?_ (.screenRect hrequest (by omega) (by decide))) ?_
    · refine .consField hrequest rfl (by omega) (by decide) ?_
      exact .consField hrequest rfl (by omega) (by decide) (.nil _)
    · exact .consField hrequest rfl (by omega) (by decide) (.nil _)
  | resourceFlush =>
    apply PlacedStores.twoDescriptors
    refine .append (.append ?_ (.screenRect hrequest (by omega) (by decide))) ?_
    · exact .consField hrequest rfl (by omega) (by decide) (.nil _)
    · exact .consField hrequest rfl (by omega) (by decide) (.nil _)

end command

section commands
variable {L : Layout} {mem : Mem} {steps : List KernelStep} {blocks : List Block}

theorem placed_access {s : Store} {block : Nat × Nat} (h : PlacedIn s block)
    (haligned : block.1 % 4096 = 0) {a : MemoryAccess} (ha : a ∈ storeAccesses s) :
    a.level = .el1 ∧ a.kind = .write ∧ a.address % a.width = 0 ∧ block.1 ≤ a.address ∧
      a.address < block.1 + block.2 := by
  obtain ⟨offset, haddress, hroom, hwidth⟩ := h
  unfold storeAccesses at ha
  split at ha
  · next hshort =>
    obtain rfl := List.mem_singleton.mp ha
    obtain ⟨hpage, hoffset⟩ := hwidth hshort
    have hpos : 0 < s.field.width := by
      by_contra hzero
      rw [Nat.eq_zero_of_not_pos hzero] at hpage
      cases hpage
    have hblock := (Nat.dvd_of_mod_eq_zero hpage).trans (Nat.dvd_of_mod_eq_zero haligned)
    have hplace : s.address % s.field.width = 0 := by
      rw [haddress]
      exact Nat.mod_eq_zero_of_dvd (Nat.dvd_add hblock (Nat.dvd_of_mod_eq_zero hoffset))
    exact ⟨rfl, rfl, hplace, by dsimp only; omega, by dsimp only; omega⟩
  · obtain ⟨i, hi, rfl⟩ := List.mem_map.mp ha
    have hlt := List.mem_range.mp hi
    exact ⟨rfl, rfl, Nat.mod_one _, by dsimp only; omega, by dsimp only; omega⟩

/-- In every run that the heap lasts for: no store of a command faults, and each lands at its own
address in cacheable memory, where the device looks for it. So do the pixels of the frame. -/
theorem commandStores_reach (h : FromHeap L mem steps blocks) :
    ∃ s, runOwned L (steps.flatMap KernelStep.events) (boot L mem) = .ok blocks s ∧
      ∀ c b memory2d, .command c b memory2d ∈ kernelCommands steps blocks →
        (∀ store ∈ c.stores b memory2d, ∀ a ∈ storeAccesses store,
          kernelRegisters.access s.mem a = .ok ⟨a.address, .normalWriteBack⟩) ∧
        (c = .connectResourceToMemory → ∀ i < screenWidth * screenHeight,
          kernelRegisters.access s.mem ⟨.el1, .write, memory2d + 4 * i, 4⟩ =
            .ok ⟨memory2d + 4 * i, .normalWriteBack⟩) := by
  obtain ⟨s, hrun⟩ := h.run
  refine ⟨s, hrun, fun c b memory2d hop => ?_⟩
  have hblocks : ∀ block ∈ c.blocks b memory2d, block.1 % 4096 = 0 ∧
      ∀ a : MemoryAccess, a.level = .el1 → a.kind = .write → a.address % a.width = 0 →
        block.1 ≤ a.address → a.address < block.1 + block.2 →
          kernelRegisters.access s.mem a = .ok ⟨a.address, .normalWriteBack⟩ := by
    intro block hblock
    have hmem := (kernelCommands_sublist h.sizes).subset (List.mem_flatMap.mpr ⟨_, hop, hblock⟩)
    obtain ⟨owned, howned, rfl⟩ := List.mem_map.mp hmem
    obtain ⟨haligned, haccess⟩ := h.serves.block_access h.zero hrun howned
    refine ⟨haligned, fun a hlevel hkind hplace hlow hhigh => ?_⟩
    exact haccess a hlevel (by rw [hkind]; exact nofun) hplace ⟨hlow, hhigh⟩
  refine ⟨fun store hstore a ha => ?_, ?_⟩
  · obtain ⟨d, hd, hs⟩ := List.mem_flatMap.mp hstore
    obtain ⟨block, hblock, hplaced⟩ := command_placed c b memory2d d hd store hs
    obtain ⟨haligned, haccess⟩ := hblocks block hblock
    obtain ⟨hlevel, hkind, hplace, hlow, hhigh⟩ := placed_access hplaced haligned ha
    exact haccess a hlevel hkind hplace hlow hhigh
  · rintro rfl i hi
    obtain ⟨haligned, haccess⟩ := hblocks (memory2d, frameBytes)
      (by simp [Command.blocks])
    have hframe : frameBytes = 4 * (screenWidth * screenHeight) := rfl
    exact haccess _ rfl rfl (by dsimp only at haligned ⊢; omega) (Nat.le_add_right _ _)
      (by dsimp only; omega)

end commands

theorem commandStores_reach_image : ∃ blocks s,
    runOwned imageLayout (exampleSteps.flatMap KernelStep.events)
      (boot imageLayout zeroRam) = .ok blocks s ∧
    ∀ c b memory2d, .command c b memory2d ∈ kernelCommands exampleSteps blocks →
      ∀ store ∈ c.stores b memory2d, ∀ a ∈ storeAccesses store,
        kernelRegisters.access s.mem a = .ok ⟨a.address, .normalWriteBack⟩ := by
  obtain ⟨blocks, hheap⟩ := exampleSteps_fromHeap
  obtain ⟨s, hrun, hstores⟩ := commandStores_reach hheap
  exact ⟨blocks, s, hrun, fun c b memory2d hop => (hstores c b memory2d hop).1⟩

end SelfmadeOS
