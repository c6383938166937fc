import SelfmadeOS.Drawing
import SelfmadeOS.GpuRequests
import SelfmadeOS.PageAllocator
import SelfmadeOS.QueueChains

/-!
# The commands and the bytes that they leave (`virtio_gpu_driver.cpp`)

All stores of a command before it posts, in the order of the source. The stores that the queue
knows are marked; the others fill the blocks of the command.
-/

namespace SelfmadeOS
set_option autoImplicit false
open ByteMemory Records Virtqueue

/-- A store to a block, the assignment of `display`, or a store that the queue knows. -/
inductive DriverStore where
  | ram (s : Store)
  | display (address : Nat)
  | queue (f : Fill)

/-- The descriptors and `used->idx` lie outside the blocks. -/
def Fill.stores : Fill → List Store
  | .type address value => [⟨address, ⟨4, value⟩⟩]
  | _ => []

def DriverStore.stores : DriverStore → List Store
  | .ram s => [s]
  | .display _ => []
  | .queue f => f.stores

def DriverStore.fills : DriverStore → List Fill
  | .queue f => [f]
  | _ => []

def frameBytes : Nat := 800 * 1280 * 4

/-- A block of one page, as `kalloc` returns it. -/
def kallocStores (block : Nat) : List DriverStore :=
  [.ram ⟨block, ⟨pageSize, 0⟩⟩, .queue (.type block 0)]

def field (address width value : Nat) : DriverStore := .ram ⟨address, ⟨width, value⟩⟩

def hdrStores (hdr type : Nat) : List DriverStore :=
  [.queue (.type hdr type), field (hdr + 4) 4 0, field (hdr + 8) 8 0, field (hdr + 16) 4 0]

def descStores (link : Nat × VirtqDesc) : List DriverStore := (Fill.desc link).map .queue

def getDisplayInfoStores (d response : Nat) (b : Buffers) : List DriverStore :=
  kallocStores b.request ++ kallocStores b.response ++
    descStores (d, requestDesc b 24 1) ++ descStores (response, responseDesc b 408) ++
    hdrStores b.request 0x0100

/-- The commands that differ in their type, in the size and in the fields of their request. -/
def twoDescriptorsStores (type requestLen : Nat) (fields : List DriverStore) (d0 d1 : Nat)
    (b : Buffers) : List DriverStore :=
  kallocStores b.request ++ kallocStores b.response ++ hdrStores b.request type ++ fields ++
    descStores (d0, requestDesc b requestLen d1) ++ descStores (d1, responseDesc b 24) ++
    [.queue .usedIdx]

def screenRectStores (r : Nat) : List DriverStore :=
  [field r 4 0, field (r + 4) 4 0, field (r + 8) 4 screenWidth, field (r + 12) 4 screenHeight]

def init2DFrameBufferStores (d0 d1 : Nat) (b : Buffers) : List DriverStore :=
  twoDescriptorsStores 0x0101 40
    [field (b.request + 28) 4 1, field (b.request + 36) 4 800, field (b.request + 32) 4 1280,
      field (b.request + 24) 4 1] d0 d1 b

def setScanoutParamStores (d0 d1 : Nat) (b : Buffers) : List DriverStore :=
  twoDescriptorsStores 0x0103 48
    (screenRectStores (b.request + 24) ++
      [field (b.request + 44) 4 1, field (b.request + 40) 4 0]) d0 d1 b

def transferToHost2dStores (d0 d1 : Nat) (b : Buffers) : List DriverStore :=
  twoDescriptorsStores 0x0105 56
    ([field (b.request + 40) 8 0, field (b.request + 52) 4 0] ++
      screenRectStores (b.request + 24) ++ [field (b.request + 48) 4 1]) d0 d1 b

def resourceFlushStores (d0 d1 : Nat) (b : Buffers) : List DriverStore :=
  twoDescriptorsStores 0x0104 48
    ([field (b.request + 44) 4 0] ++ screenRectStores (b.request + 24) ++
      [field (b.request + 40) 4 1]) d0 d1 b

def connectResourceToMemoryStores (d0 d1 d2 : Nat) (b : Buffers) (memory2d : Nat) :
    List DriverStore :=
  kallocStores b.request ++ kallocStores b.entry ++ kallocStores b.response ++
    hdrStores b.request 0x0106 ++ [field (b.request + 24) 4 1, field (b.request + 28) 4 1] ++
    descStores (d0, requestDesc b 32 d1) ++
    [.ram ⟨memory2d, ⟨frameBytes, 0⟩⟩, .display memory2d, field b.entry 8 memory2d,
      field (b.entry + 8) 4 frameBytes, field (b.entry + 12) 4 0] ++
    descStores (d1, ⟨b.entry, 16, virtqDescFNext, d2⟩) ++ [.queue .usedIdx] ++
    descStores (d2, responseDesc b 24)

/-- `memory2d` is the block that `connect_resource_to_memory` takes for the frame buffer. -/
def Command.plan (c : Command) (d0 d1 d2 : Nat) (b : Buffers) (memory2d : Nat) :
    List DriverStore :=
  match c with
  | .getDisplayInfo => getDisplayInfoStores d0 d1 b
  | .init2DFrameBuffer => init2DFrameBufferStores d0 d1 b
  | .connectResourceToMemory => connectResourceToMemoryStores d0 d1 d2 b memory2d
  | .setScanoutParam => setScanoutParamStores d0 d1 b
  | .transferToHost2d => transferToHost2dStores d0 d1 b
  | .resourceFlush => resourceFlushStores d0 d1 b

def screenRect : VirtioGpuRect := ⟨0, 0, screenWidth, screenHeight⟩

def Command.request (c : Command) (memory2d : Nat) : GpuRequest :=
  match c with
  | .getDisplayInfo => .getDisplayInfo
  | .init2DFrameBuffer => .resourceCreate2D 1 1 screenWidth screenHeight
  | .connectResourceToMemory => .resourceAttachBacking 1 [⟨memory2d, frameBytes⟩]
  | .setScanoutParam => .setScanout screenRect 0 1
  | .transferToHost2d => .transferToHost2D screenRect 0 1
  | .resourceFlush => .resourceFlush screenRect 1

def Command.stores (c : Command) (b : Buffers) (memory2d : Nat) : List Store :=
  (c.plan 0 0 0 b memory2d).flatMap DriverStore.stores

def Command.parts (c : Command) (b : Buffers) : List (Nat × Nat) :=
  match c with
  | .getDisplayInfo => [(b.request, 24)]
  | .init2DFrameBuffer => [(b.request, 40)]
  | .connectResourceToMemory => [(b.request, 32), (b.entry, 16)]
  | .setScanoutParam => [(b.request, 48)]
  | .transferToHost2d => [(b.request, 56)]
  | .resourceFlush => [(b.request, 48)]

/-- The device reads a block unless its descriptor gives it to write. -/
def VirtqDesc.deviceReads (d : VirtqDesc) : Bool := d.flags &&& virtqDescFWrite == 0

section plans
variable (c : Command) (d0 d1 d2 : Nat) (b : Buffers) (memory2d : Nat)

theorem plan_fills :
    (c.plan d0 d1 d2 b memory2d).flatMap DriverStore.fills = (c.posting d0 d1 d2 b).fills := by
  cases c <;> rfl

theorem plan_stores :
    (c.plan d0 d1 d2 b memory2d).flatMap DriverStore.stores = c.stores b memory2d := by
  cases c <;> rfl

theorem deviceReads_next {d : VirtqDesc} (h : d.flags = virtqDescFNext) :
    d.deviceReads = true := by
  unfold VirtqDesc.deviceReads
  rw [h]
  decide

theorem deviceReads_write {d : VirtqDesc} (h : d.flags = virtqDescFWrite) :
    d.deviceReads = false := by
  unfold VirtqDesc.deviceReads
  rw [h]
  decide

theorem readable_two {l0 l1 : Nat × VirtqDesc} (h0 : l0.2.flags = virtqDescFNext)
    (h1 : l1.2.flags = virtqDescFWrite) :
    ([l0, l1].filter fun link => link.2.deviceReads) = [l0] := by
  simp [deviceReads_next h0, deviceReads_write h1]

theorem readable_three {l0 l1 l2 : Nat × VirtqDesc} (h0 : l0.2.flags = virtqDescFNext)
    (h1 : l1.2.flags = virtqDescFNext) (h2 : l2.2.flags = virtqDescFWrite) :
    ([l0, l1, l2].filter fun link => link.2.deviceReads) = [l0, l1] := by
  simp [deviceReads_next h0, deviceReads_next h1, deviceReads_write h2]

theorem posting_parts :
    ((c.posting d0 d1 d2 b).post.links.filter fun link => link.2.deviceReads).map
      (fun link => (link.2.addr, link.2.len)) = c.parts b := by
  cases c with
  | connectResourceToMemory => exact congrArg (List.map _) (readable_three rfl rfl rfl)
  | _ => exact congrArg (List.map _) (readable_two rfl rfl)

end plans

def readParts (m : Bytes) (parts : List (Nat × Nat)) : List (BitVec 8) :=
  parts.flatMap fun part => readBytes m part.1 part.2

def Command.blocks (c : Command) (b : Buffers) (memory2d : Nat) : List (Nat × Nat) :=
  match c with
  | .connectResourceToMemory =>
    [(b.request, pageSize), (b.entry, pageSize), (b.response, pageSize), (memory2d, frameBytes)]
  | _ => [(b.request, pageSize), (b.response, pageSize)]

def BlocksApart (blocks : List (Nat × Nat)) : Prop :=
  blocks.Pairwise fun x y => NoOverlap x.1 x.2 y.1 y.2

/-- The stores of `kalloc` come before all others, but for the clearing of the frame buffer. -/
def Command.clears (c : Command) (b : Buffers) : List Store :=
  match c with
  | .connectResourceToMemory =>
    (kallocStores b.request ++ kallocStores b.entry ++ kallocStores b.response).flatMap
      DriverStore.stores
  | _ => (kallocStores b.request ++ kallocStores b.response).flatMap DriverStore.stores

def Command.fieldStores (c : Command) (b : Buffers) (memory2d : Nat) : List Store :=
  (c.stores b memory2d).drop (c.clears b).length

section bytes
variable {c : Command} {b : Buffers} {memory2d : Nat}

theorem stores_split (c : Command) (b : Buffers) (memory2d : Nat) :
    c.stores b memory2d = c.clears b ++ c.fieldStores b memory2d := by
  cases c <;> rfl

theorem clears_zero {s : Store} (h : s ∈ c.clears b) : s.field.value = 0 := by
  have hblock : ∀ block, ∀ s ∈ (kallocStores block).flatMap DriverStore.stores,
      s.field.value = 0 := by
    intro block s hs
    rcases List.mem_pair.mp hs with rfl | rfl <;> rfl
  cases c <;> simp only [Command.clears, List.flatMap_append, List.mem_append] at h
  case connectResourceToMemory =>
    rcases h with (h | h) | h <;> exact hblock _ s h
  all_goals
    rcases h with h | h <;> exact hblock _ s h

theorem parts_single (h : c ≠ .connectResourceToMemory) :
    c.parts b = [(b.request, size (c.request memory2d).record)] := by
  cases c with
  | connectResourceToMemory => exact absurd rfl h
  | _ => rfl

theorem request_size (h : c ≠ .connectResourceToMemory) :
    size (c.request memory2d).record ≤ pageSize := by
  cases c with
  | connectResourceToMemory => exact absurd rfl h
  | _ => exact Nat.le_of_ble_eq_true rfl

theorem fields_placed (h : c ≠ .connectResourceToMemory) :
    ∀ s ∈ c.fieldStores b memory2d, s ∈ layout b.request (c.request memory2d).record := by
  cases c with
  | connectResourceToMemory => exact absurd rfl h
  | _ =>
    simp [Command.fieldStores, Command.stores, Command.plan, Command.clears, Command.request,
      getDisplayInfoStores, twoDescriptorsStores, init2DFrameBufferStores, setScanoutParamStores,
      transferToHost2dStores, resourceFlushStores, screenRectStores, kallocStores, hdrStores,
      field, descStores, Fill.desc, DriverStore.stores, Fill.stores, layout, GpuRequest.record,
      ctrlHdr, GpuRequest.type, GpuRequest.body, VirtioGpuRect.fields, screenRect, screenWidth,
      screenHeight, Nat.add_assoc]

theorem fields_complete (h : c ≠ .connectResourceToMemory) :
    ∀ s ∈ layout b.request (c.request memory2d).record,
      s ∈ c.fieldStores b memory2d ∨ s.field.value = 0 := by
  cases c with
  | connectResourceToMemory => exact absurd rfl h
  | _ =>
    simp [Command.fieldStores, Command.stores, Command.plan, Command.clears, Command.request,
      getDisplayInfoStores, twoDescriptorsStores, init2DFrameBufferStores, setScanoutParamStores,
      transferToHost2dStores, resourceFlushStores, screenRectStores, kallocStores, hdrStores,
      field, descStores, Fill.desc, DriverStore.stores, Fill.stores, layout, GpuRequest.record,
      ctrlHdr, GpuRequest.type, GpuRequest.body, VirtioGpuRect.fields, screenRect, screenWidth,
      screenHeight, Nat.add_assoc]

theorem request_cleared (c : Command) (b : Buffers) : ⟨b.request, ⟨pageSize, 0⟩⟩ ∈ c.clears b := by
  cases c <;> exact List.mem_cons_self

theorem entry_cleared (b : Buffers) :
    ⟨b.entry, ⟨pageSize, 0⟩⟩ ∈ Command.connectResourceToMemory.clears b :=
  List.mem_cons_of_mem _ (List.mem_cons_of_mem _ List.mem_cons_self)

/-! `connect_resource_to_memory` lets the device read two blocks. -/

def attachBackingHead : List Field := ctrlHdr 0x0106 ++ [⟨4, 1⟩, ⟨4, 1⟩]

def backingEntry (memory2d : Nat) : VirtioGpuMemEntry := ⟨memory2d, frameBytes⟩

def attachBackingStores (b : Buffers) : List Store :=
  (hdrStores b.request 0x0106 ++ [field (b.request + 24) 4 1, field (b.request + 28) 4 1]).flatMap
    DriverStore.stores

def entryStores (b : Buffers) (memory2d : Nat) : List Store :=
  [⟨b.entry, ⟨8, memory2d⟩⟩, ⟨b.entry + 8, ⟨4, frameBytes⟩⟩, ⟨b.entry + 12, ⟨4, 0⟩⟩]

theorem attachBacking_record : (Command.connectResourceToMemory.request memory2d).record =
    attachBackingHead ++ (backingEntry memory2d).fields := rfl

theorem connect_fieldStores : Command.connectResourceToMemory.fieldStores b memory2d =
    attachBackingStores b ++ ⟨memory2d, ⟨frameBytes, 0⟩⟩ :: entryStores b memory2d := rfl

theorem attachBacking_placed : ∀ s ∈ attachBackingStores b,
    s ∈ layout b.request attachBackingHead := by
  simp [attachBackingStores, hdrStores, field, DriverStore.stores, Fill.stores,
    attachBackingHead, ctrlHdr, layout, Nat.add_assoc]

theorem attachBacking_complete : ∀ s ∈ layout b.request attachBackingHead,
    s ∈ attachBackingStores b ∨ s.field.value = 0 := by
  simp [attachBackingStores, hdrStores, field, DriverStore.stores, Fill.stores,
    attachBackingHead, ctrlHdr, layout, Nat.add_assoc]

theorem entry_placed : ∀ s ∈ entryStores b memory2d,
    s ∈ layout b.entry (backingEntry memory2d).fields := by
  simp [entryStores, backingEntry, VirtioGpuMemEntry.fields, layout, Nat.add_assoc]

theorem entry_complete : ∀ s ∈ layout b.entry (backingEntry memory2d).fields,
    s ∈ entryStores b memory2d := by
  simp [entryStores, backingEntry, VirtioGpuMemEntry.fields, layout, Nat.add_assoc]

theorem layout_apart {base base' : Nat} {r r' : List Field} {s : Store}
    (h : NoOverlap base pageSize base' pageSize) (hs : s ∈ layout base r)
    (hr : size r ≤ pageSize) (hr' : size r' ≤ pageSize) :
    NoOverlap s.address s.field.width base' (size r') := by
  obtain ⟨hlow, hhigh⟩ := layout_inside hs
  unfold NoOverlap at *
  omega

theorem page_apart {a n base k : Nat} (h : NoOverlap base pageSize a n) (hk : k ≤ pageSize) :
    NoOverlap a n base k := by
  unfold NoOverlap at *
  omega

theorem attachBacking_bytes (m : Bytes)
    (h : BlocksApart (Command.connectResourceToMemory.blocks b memory2d)) :
    readBytes (storeAll m (Command.connectResourceToMemory.stores b memory2d)) b.request
        (size attachBackingHead) = pack attachBackingHead ∧
      readBytes (storeAll m (Command.connectResourceToMemory.stores b memory2d)) b.entry
        (size (backingEntry memory2d).fields) = pack (backingEntry memory2d).fields := by
  simp only [BlocksApart, Command.blocks, List.pairwise_cons, List.mem_cons, List.not_mem_nil,
    or_false, forall_eq_or_imp, forall_eq] at h
  obtain ⟨⟨hentry, -, hrequest⟩, ⟨-, hframe⟩, -⟩ := h
  have hhead : size attachBackingHead ≤ pageSize := Nat.le_of_ble_eq_true rfl
  have htail : size (backingEntry memory2d).fields ≤ pageSize := Nat.le_of_ble_eq_true rfl
  rw [stores_split, connect_fieldStores]
  constructor
  · apply readBytes_cleared (fun s => clears_zero)
    · exact ⟨_, request_cleared _ _, Nat.le_refl _, Nat.add_le_add_left hhead _⟩
    · intro s hs
      rcases List.mem_append.mp hs with hown | hother
      · exact Or.inl (attachBacking_placed s hown)
      rcases List.mem_cons.mp hother with rfl | hother
      · exact Or.inr (page_apart hrequest hhead)
      · exact Or.inr (layout_apart hentry.symm (entry_placed s hother) htail hhead)
    · intro s hs
      exact (attachBacking_complete s hs).imp_left fun hmem => List.mem_append_left _ hmem
  · apply readBytes_cleared (fun s => clears_zero)
    · exact ⟨_, entry_cleared _, Nat.le_refl _, Nat.add_le_add_left htail _⟩
    · intro s hs
      rcases List.mem_append.mp hs with hother | hown
      · exact Or.inr (layout_apart hentry (attachBacking_placed s hother) hhead htail)
      rcases List.mem_cons.mp hown with rfl | hown
      · exact Or.inr (page_apart hframe htail)
      · exact Or.inl (entry_placed s hown)
    · intro s hs
      exact Or.inl (List.mem_append_right _ (List.mem_cons_of_mem _ (entry_complete s hs)))

/-- Whatever the blocks held before, the device reads the request that the command is for. -/
theorem command_bytes (m : Bytes) (h : BlocksApart (c.blocks b memory2d)) :
    readParts (storeAll m (c.stores b memory2d)) (c.parts b) =
      pack (c.request memory2d).record := by
  by_cases hc : c = .connectResourceToMemory
  · subst hc
    obtain ⟨hrequest, hentry⟩ := attachBacking_bytes m h
    rw [attachBacking_record, pack_append, ← hrequest, ← hentry]
    exact congrArg (_ ++ ·) (List.append_nil _)
  · rw [parts_single hc, readParts, List.flatMap_singleton, stores_split]
    apply readBytes_cleared (fun s => clears_zero)
    · exact ⟨_, request_cleared _ _, Nat.le_refl _, Nat.add_le_add_left (request_size hc) _⟩
    · exact fun s hs => Or.inl (fields_placed hc s hs)
    · exact fields_complete hc

theorem request_fits (c : Command) (h : memory2d < 2 ^ 64) :
    ∀ f ∈ (c.request memory2d).record, f.Fits := by
  cases c <;> simp [Command.request, GpuRequest.record, GpuRequest.type, GpuRequest.body, ctrlHdr,
    VirtioGpuRect.fields, VirtioGpuMemEntry.fields, screenRect, screenWidth, screenHeight,
    frameBytes, Field.Fits]
  omega

theorem command_parsed (m : Bytes) (h : BlocksApart (c.blocks b memory2d))
    (hfits : memory2d < 2 ^ 64) :
    GpuRequest.parse (readParts (storeAll m (c.stores b memory2d)) (c.parts b)) =
      some (c.request memory2d) := by
  have hparse := GpuRequest.parse_record (request_fits c hfits) []
  rwa [List.append_nil, ← command_bytes m h] at hparse

end bytes

end SelfmadeOS
