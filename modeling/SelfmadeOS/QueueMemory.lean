import SelfmadeOS.GpuRefinement

/-!
# The queue in memory

What both sides share of a queue are bytes in the three areas that `construct_virtqueue` takes
from `kalloc`. Here each side loads and stores nothing else; what the two see of each other is
the queue of the model.
-/

namespace SelfmadeOS
set_option autoImplicit false
open ByteMemory Records Transitions Virtqueue

def deviceAreaSize (queueSize : Nat) : Nat := queueSize * 8 + 6

/-- The addresses of the descriptor table, of the driver area and of the device area. -/
structure QueueAreas where
  queueSize : Nat
  desc : Nat
  avail : Nat
  used : Nat

namespace QueueAreas
variable (a : QueueAreas)

def ranges : List (Nat × Nat) :=
  [(a.desc, descriptorTableSize a.queueSize), (a.avail, driverAreaSize a.queueSize),
    (a.used, deviceAreaSize a.queueSize)]

/-- Blocks of `kalloc`: apart, and aligned to pages. -/
structure Allocated : Prop where
  apart : a.ranges.Pairwise fun x y => NoOverlap x.1 x.2 y.1 y.2
  aligned : ∀ x ∈ a.ranges, x.1 % 4096 = 0

def loadDesc (m : Bytes) (i : Nat) : VirtqDesc :=
  ⟨loadBytes m (a.desc + 16 * i) 8, loadBytes m (a.desc + 16 * i + 8) 4,
    loadBytes m (a.desc + 16 * i + 12) 2, loadBytes m (a.desc + 16 * i + 14) 2⟩

def loadAvailIdx (m : Bytes) : Nat := loadBytes m (a.avail + 2) 2

def loadRing (m : Bytes) (i : Nat) : Nat := loadBytes m (a.avail + 4 + 2 * i) 2

def loadUsedIdx (m : Bytes) : Nat := loadBytes m (a.used + 2) 2

def fillStores : Fill → List Store
  | .addr i value => [⟨a.desc + 16 * i, ⟨8, value⟩⟩]
  | .len i value => [⟨a.desc + 16 * i + 8, ⟨4, value⟩⟩]
  | .flags i value => [⟨a.desc + 16 * i + 12, ⟨2, value⟩⟩]
  | .next i value => [⟨a.desc + 16 * i + 14, ⟨2, value⟩⟩]
  | _ => []

/-- The head goes into the ring, whose flags the constructor clears first. -/
def ringStores (p : Post) (slot : Nat) : List Store :=
  (if p.command = .getDisplayInfo then [⟨a.avail, ⟨2, 0⟩⟩] else []) ++
    [⟨a.avail + 4 + 2 * slot, ⟨2, p.head⟩⟩]

def driverStores (v : Virtqueue) : List Store :=
  match v.driver with
  | .filling (f :: _) _ => a.fillStores f
  | .filling [] p => a.ringStores p (v.ringSlot p.command)
  | .publishing p => [⟨a.avail + 2, ⟨2, v.nextAvail p.command⟩⟩]
  | _ => []

/-- The device enters the chain and how much it has written, and then counts on. -/
def usedStores (v : Virtqueue) (head len : Nat) : List Store :=
  let elem := a.used + 4 + 8 * (v.usedIdx % v.queueSize)
  [⟨elem, ⟨4, head⟩⟩, ⟨elem + 4, ⟨4, len⟩⟩, ⟨a.used + 2, ⟨2, (v.usedIdx + 1) % 2 ^ 16⟩⟩]

/-- In an area as a whole, at a multiple of its width. -/
def Places (s : Store) : Prop :=
  s.address % s.field.width = 0 ∧
    ∃ x ∈ a.ranges, x.1 ≤ s.address ∧ s.address + s.field.width ≤ x.1 + x.2

end QueueAreas

/-- Both sides and the memory between them. The table, the ring and the two indices of `queue`
are not used. -/
structure QueueMemory where
  queue : Virtqueue
  mem : Bytes

def QueueMemory.view (a : QueueAreas) (x : QueueMemory) : Virtqueue :=
  { x.queue with
    desc := a.loadDesc x.mem
    availIdx := a.loadAvailIdx x.mem
    ring := a.loadRing x.mem
    usedIdx := a.loadUsedIdx x.mem }

def Buffers.Fits (b : Buffers) : Prop :=
  b.request < 256 ^ 8 ∧ b.entry < 256 ^ 8 ∧ b.response < 256 ^ 8

def BuffersFit (v : Virtqueue) : Prop :=
  ∀ todo p, v.driver.current = some (todo, p) → p.buffers.Fits

inductive MemoryStep (a : QueueAreas) : QueueMemory → QueueMemory → Prop where
  | begin {x : QueueMemory} (c : Command) (b : Buffers) (hidle : (x.view a).driver = .idle)
      (hfirst : c ≠ .getDisplayInfo) (hfits : b.Fits) :
      MemoryStep a x ⟨(x.view a).begin c b, x.mem⟩
  | driver {x : QueueMemory} {u : Virtqueue} (h : (x.view a).driverStep = some u) :
      MemoryStep a x ⟨u, storeAll x.mem (a.driverStores (x.view a))⟩
  | consume {x : QueueMemory} (hidle : (x.view a).device = .idle)
      (hnew : (x.view a).lastSeen ≠ (x.view a).availIdx) :
      MemoryStep a x ⟨(x.view a).consume, x.mem⟩
  | answer {x : QueueMemory} {head : Nat} (value : Nat)
      (hdevice : (x.view a).device = .consumed head) :
      MemoryStep a x ⟨(x.view a).answer head value, x.mem⟩
  | complete {x : QueueMemory} {head : Nat} (len : Nat)
      (hdevice : (x.view a).device = .answered head) :
      MemoryStep a x ⟨(x.view a).complete, storeAll x.mem (a.usedStores (x.view a) head len)⟩

structure MemoryStart (a : QueueAreas) (x : QueueMemory) : Prop where
  queue : QueueStart a.queueSize x.queue
  buffers : BuffersFit x.queue
  cleared : ∀ r ∈ a.ranges, ∀ y, r.1 ≤ y → y < r.1 + r.2 → x.mem y = 0

def memorySystem (a : QueueAreas) : System QueueMemory := ⟨MemoryStart a, MemoryStep a⟩

/-- The queue of the model, as far as the table and the ring reach. -/
structure Represents (a : QueueAreas) (x : QueueMemory) (v : Virtqueue) : Prop where
  view : x.view a = { v with desc := a.loadDesc x.mem, ring := a.loadRing x.mem }
  desc : ∀ i < a.queueSize, a.loadDesc x.mem i = v.desc i
  ring : ∀ i < a.queueSize, a.loadRing x.mem i = v.ring i

section frames
variable {m : Bytes} {stores : List Store} {b k : Nat}

theorem loadBytes_storeAll_apart
    (h : ∀ s ∈ stores, NoOverlap s.address s.field.width b k) :
    loadBytes (storeAll m stores) b k = loadBytes m b k := by
  apply loadBytes_congr
  intro y hlow hhigh
  apply storeAll_other
  intro s hs
  have hout := h s hs
  unfold NoOverlap at hout
  omega

variable {a : QueueAreas}

theorem loadDesc_kept {i : Nat}
    (h : ∀ s ∈ stores, NoOverlap s.address s.field.width (a.desc + 16 * i) 16) :
    a.loadDesc (storeAll m stores) i = a.loadDesc m i := by
  have hpart : ∀ base width, a.desc + 16 * i ≤ base → base + width ≤ a.desc + 16 * i + 16 →
      loadBytes (storeAll m stores) base width = loadBytes m base width := by
    intro base width hlow hhigh
    apply loadBytes_storeAll_apart
    intro s hs
    have hout := h s hs
    unfold NoOverlap at hout ⊢
    omega
  unfold QueueAreas.loadDesc
  rw [hpart _ 8 (by omega) (by omega), hpart _ 4 (by omega) (by omega),
    hpart (a.desc + 16 * i + 12) 2 (by omega) (by omega),
    hpart (a.desc + 16 * i + 14) 2 (by omega) (by omega)]

end frames

/-- The descriptor is in the table, and the value fits its field. -/
def Fill.Fits (queueSize : Nat) : Fill → Prop
  | .addr i value => i < queueSize ∧ value < 256 ^ 8
  | .len i value => i < queueSize ∧ value < 256 ^ 4
  | .flags i value => i < queueSize ∧ value < 256 ^ 2
  | .next i value => i < queueSize ∧ value < 256 ^ 2
  | _ => True

structure VirtqDesc.Fits (d : VirtqDesc) : Prop where
  addr : d.addr < 256 ^ 8
  len : d.len < 256 ^ 4
  flags : d.flags < 256 ^ 2
  next : d.next < 256 ^ 2

section fills
variable {a : QueueAreas} {m : Bytes} {v : Virtqueue} {f : Fill} {queueSize : Nat}

theorem posting_fits {c : Command} {d0 d1 d2 : Nat} {b : Buffers} (hb : b.Fits)
    (h1 : d1 < 256 ^ 2) (h2 : d2 < 256 ^ 2) :
    ∀ link ∈ (c.posting d0 d1 d2 b).post.links, link.2.Fits := by
  obtain ⟨hrequest, hentry, hresponse⟩ := hb
  have hwrite : virtqDescFWrite < 256 ^ 2 ∧ virtqDescFNext < 256 ^ 2 := by decide
  have hlast : ∀ len, len < 256 ^ 4 → (responseDesc b len).Fits :=
    fun len hlen => ⟨hresponse, hlen, hwrite.1, by dsimp only [responseDesc]; omega⟩
  have hfirst : ∀ len next, len < 256 ^ 4 → next < 256 ^ 2 → (requestDesc b len next).Fits :=
    fun len next hlen hnext => ⟨hrequest, hlen, hwrite.2, hnext⟩
  have hentryLen : 16 < 256 ^ 4 := by decide
  have hmiddle : VirtqDesc.Fits ⟨b.entry, 16, virtqDescFNext, d2⟩ :=
    ⟨hentry, hentryLen, hwrite.2, h2⟩
  intro link hlink
  cases c with
  | getDisplayInfo =>
    rcases List.mem_pair.mp hlink with rfl | rfl
    · exact hfirst _ _ (by decide) (by decide)
    · exact hlast _ (by decide)
  | connectResourceToMemory =>
    rcases List.mem_cons.mp hlink with rfl | hlink
    · exact hfirst _ _ (by decide) h1
    rcases List.mem_pair.mp hlink with rfl | rfl
    · exact hmiddle
    · exact hlast _ (by decide)
  | _ =>
    rcases List.mem_pair.mp hlink with rfl | rfl
    · exact hfirst _ _ (by decide) h1
    · exact hlast _ (by decide)

theorem desc_fits {link : Nat × VirtqDesc} (hindex : link.1 < queueSize) (h : link.2.Fits)
    (hf : f ∈ Fill.desc link) : f.Fits queueSize := by
  simp only [Fill.desc, List.mem_cons, List.not_mem_nil, or_false] at hf
  rcases hf with rfl | rfl | rfl | rfl
  · exact ⟨hindex, h.addr⟩
  · exact ⟨hindex, h.len⟩
  · exact ⟨hindex, h.flags⟩
  · exact ⟨hindex, h.next⟩

theorem ChainInv.fill_fits (inv : ChainInv queueSize v) (hsmall : queueSize ≤ 2 ^ 16)
    (hbuffers : BuffersFit v) {todo : List Fill} {p : Post}
    (hdriver : v.driver = .filling (f :: todo) p) : f.Fits queueSize := by
  have hcurrent : v.driver.current = some (f :: todo, p) := by
    rw [hdriver]
    rfl
  obtain ⟨c, d0, b, done, hp, hunder⟩ := inv.current _ _ hcurrent
  have hpost : (v.postingAt c d0 b).post.buffers = b := (posting_post _ _ _ _ _).2
  have hb := hbuffers _ _ hcurrent
  rw [hp, hpost] at hb
  have hsize := inv.size
  have hnext : ∀ i, v.getNextDescriptor i < 256 ^ 2 := by
    intro i
    have hlt := next_lt (v := v) (Nat.lt_of_le_of_lt (Nat.zero_le _) hunder.index) i
    omega
  have hmem : f ∈ (v.postingAt c d0 b).fills :=
    hunder.fills ▸ List.mem_append_right _ (List.mem_cons_self ..)
  rcases posting_covered _ _ _ _ _ hmem with hnone | ⟨link, hlink, hf⟩
  · cases f with
    | type address value => trivial
    | usedIdx => trivial
    | _ => cases hnone
  · have hlt : link.1 < v.queueSize := hunder.index_lt (List.mem_map_of_mem hlink)
    exact desc_fits (by omega) (posting_fits hb (hnext _) (hnext _) link hlink) hf

/-- A store to a descriptor is read back, and no other descriptor is touched. -/
theorem loadDesc_fill (hv : v.desc = a.loadDesc m) (hf : f.Fits queueSize) (i : Nat) :
    a.loadDesc (storeAll m (a.fillStores f)) i = (v.fill f).desc i := by
  have hother : ∀ offset {j width value : Nat}, offset + width ≤ 16 → i ≠ j →
      a.loadDesc (storeAll m [⟨a.desc + 16 * j + offset, ⟨width, value⟩⟩]) i = v.desc i := by
    intro offset j width value hroom hne
    rw [hv]
    apply loadDesc_kept
    intro s hs
    obtain rfl := List.mem_singleton.mp hs
    unfold NoOverlap
    dsimp only
    omega
  have hfield : ∀ offset place {j width value n : Nat}, place + n ≤ offset ∨
      offset + width ≤ place →
      loadBytes (storeAll m [⟨a.desc + 16 * j + offset, ⟨width, value⟩⟩])
        (a.desc + 16 * j + place) n = loadBytes m (a.desc + 16 * j + place) n := by
    intro offset place j width value n hout
    apply loadBytes_storeBytes_apart
    unfold NoOverlap
    dsimp only
    omega
  have hsame : ∀ {j : Nat} {d d' : VirtqDesc}, i = j → d = d' →
      d = setAt v.desc j d' i := fun hi hd => hd.trans (if_pos hi).symm
  cases f with
  | type address value => exact (congrFun hv i).symm
  | usedIdx => exact (congrFun hv i).symm
  | addr j value =>
    by_cases hi : i = j
    · refine hsame hi ?_
      rw [hv, hi]
      exact VirtqDesc.mk.injEq .. |>.mpr ⟨loadBytes_storeBytes_same hf.2,
        hfield 0 8 (by omega), hfield 0 12 (by omega), hfield 0 14 (by omega)⟩
    · exact (hother 0 (by omega) hi).trans (if_neg hi).symm
  | len j value =>
    by_cases hi : i = j
    · refine hsame hi ?_
      rw [hv, hi]
      exact VirtqDesc.mk.injEq .. |>.mpr ⟨hfield 8 0 (by omega), loadBytes_storeBytes_same hf.2,
        hfield 8 12 (by omega), hfield 8 14 (by omega)⟩
    · exact (hother 8 (by omega) hi).trans (if_neg hi).symm
  | flags j value =>
    by_cases hi : i = j
    · refine hsame hi ?_
      rw [hv, hi]
      exact VirtqDesc.mk.injEq .. |>.mpr ⟨hfield 12 0 (by omega), hfield 12 8 (by omega),
        loadBytes_storeBytes_same hf.2, hfield 12 14 (by omega)⟩
    · exact (hother 12 (by omega) hi).trans (if_neg hi).symm
  | next j value =>
    by_cases hi : i = j
    · refine hsame hi ?_
      rw [hv, hi]
      exact VirtqDesc.mk.injEq .. |>.mpr ⟨hfield 14 0 (by omega), hfield 14 8 (by omega),
        hfield 14 12 (by omega), loadBytes_storeBytes_same hf.2⟩
    · exact (hother 14 (by omega) hi).trans (if_neg hi).symm

end fills

end SelfmadeOS
