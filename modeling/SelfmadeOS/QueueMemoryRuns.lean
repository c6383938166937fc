import SelfmadeOS.QueueMemory

/-!
# The queue in memory, step by step

Each step that driver or device take in memory is a step of the model, and what the two sides
find there is what the model says.
-/

namespace SelfmadeOS
set_option autoImplicit false
open ByteMemory Records Transitions Virtqueue

namespace Represents
variable {a : QueueAreas} {x : QueueMemory} {v : Virtqueue} (h : Represents a x v)
include h

theorem availIdx : a.loadAvailIdx x.mem = v.availIdx := congrArg Virtqueue.availIdx h.view

theorem usedIdx : a.loadUsedIdx x.mem = v.usedIdx := congrArg Virtqueue.usedIdx h.view

end Represents

section steps
variable {a : QueueAreas} {x x' : QueueMemory} {v : Virtqueue}

/-- What the areas of a queue have to do with each other. -/
theorem QueueAreas.Allocated.places (h : a.Allocated) :
    NoOverlap a.desc (16 * a.queueSize) a.avail (2 * a.queueSize + 6) ∧
      NoOverlap a.desc (16 * a.queueSize) a.used (8 * a.queueSize + 6) ∧
      NoOverlap a.avail (2 * a.queueSize + 6) a.used (8 * a.queueSize + 6) := by
  have hapart := h.apart
  simp only [QueueAreas.ranges, List.pairwise_cons, List.forall_mem_cons, descriptorTableSize,
    driverAreaSize, deviceAreaSize] at hapart
  obtain ⟨⟨hda, hdu, -⟩, ⟨hau, -⟩, -⟩ := hapart
  rw [Nat.mul_comm 16, Nat.mul_comm 2, Nat.mul_comm 8]
  exact ⟨hda, hdu, hau⟩

/-! What the two sides compute besides the table and the ring does not depend on these. -/

section shared
variable (v : Virtqueue) (desc : Nat → VirtqDesc) (ring : Nat → Nat) (c : Command)

theorem begin_shared (b : Buffers) :
    ({ v with desc := desc, ring := ring } : Virtqueue).begin c b =
      { v.begin c b with desc := desc, ring := ring } := rfl

theorem fill_shared (f : Fill) (phase : DriverPhase) :
    ({ ({ v with desc := desc, ring := ring } : Virtqueue).fill f with
        driver := phase } : Virtqueue) =
      { v.fill f with
        driver := phase
        desc := (({ v with desc := desc } : Virtqueue).fill f).desc
        ring := ring } := by
  cases f <;> rfl

theorem ringSlot_shared :
    ({ v with desc := desc, ring := ring } : Virtqueue).ringSlot c = v.ringSlot c := rfl

theorem nextAvail_shared :
    ({ v with desc := desc, ring := ring } : Virtqueue).nextAvail c = v.nextAvail c := rfl

theorem waitsOn_shared :
    ({ v with desc := desc, ring := ring } : Virtqueue).waitsOn c = v.waitsOn c := rfl

theorem usedStores_shared (head len : Nat) :
    a.usedStores { v with desc := desc, ring := ring } head len = a.usedStores v head len := rfl

theorem driverStores_shared :
    a.driverStores { v with desc := desc, ring := ring } = a.driverStores v := rfl

theorem consume_shared (h : ring (v.lastSeen % v.queueSize) = v.ring (v.lastSeen % v.queueSize)) :
    ({ v with desc := desc, ring := ring } : Virtqueue).consume =
      { v.consume with desc := desc, ring := ring } := by
  simp only [Virtqueue.consume, h]

theorem responseAddress_shared {head : Nat}
    (h : (desc ((chain desc v.queueSize head).getLastD head)).addr = v.responseAddress head) :
    ({ v with desc := desc, ring := ring } : Virtqueue).responseAddress head =
      v.responseAddress head := h

theorem answer_shared {head value : Nat}
    (h : ({ v with desc := desc, ring := ring } : Virtqueue).responseAddress head =
      v.responseAddress head) :
    ({ v with desc := desc, ring := ring } : Virtqueue).answer head value =
      { v.answer head value with desc := desc, ring := ring } := by
  simp only [Virtqueue.answer, h]

theorem complete_shared : ({ v with desc := desc, ring := ring } : Virtqueue).complete =
    { v.complete with desc := desc, ring := ring } := rfl

end shared

theorem Represents.of_shared {u v' : Virtqueue} {m : Bytes} {desc : Nat → VirtqDesc}
    {ring : Nat → Nat} (hu : u = { v' with desc := desc, ring := ring })
    (havail : a.loadAvailIdx m = v'.availIdx) (hused : a.loadUsedIdx m = v'.usedIdx)
    (hdesc : ∀ i < a.queueSize, a.loadDesc m i = v'.desc i)
    (hring : ∀ i < a.queueSize, a.loadRing m i = v'.ring i) : Represents a ⟨u, m⟩ v' := by
  refine ⟨?_, hdesc, hring⟩
  rw [QueueMemory.view, havail, hused, hu]

theorem Represents.begin (h : Represents a x v) (c : Command) (b : Buffers) :
    Represents a ⟨(x.view a).begin c b, x.mem⟩ (v.begin c b) := by
  rw [h.view, begin_shared]
  exact .of_shared rfl h.availIdx h.usedIdx h.desc h.ring

theorem fillStores_inside {f : Fill} (hf : f.Fits a.queueSize) :
    ∀ s ∈ a.fillStores f, a.desc ≤ s.address ∧
      s.address + s.field.width ≤ a.desc + 16 * a.queueSize := by
  intro s hs
  cases f with
  | type address value => exact absurd hs List.not_mem_nil
  | usedIdx => exact absurd hs List.not_mem_nil
  | _ =>
    have hindex := hf.1
    obtain rfl := List.mem_singleton.mp hs
    dsimp only
    omega

theorem fill_desc_congr {u : Virtqueue} (f : Fill) {i : Nat} (h : u.desc i = v.desc i) :
    (u.fill f).desc i = (v.fill f).desc i := by
  cases f with
  | type address value => exact h
  | usedIdx => exact h
  | _ =>
    simp only [Virtqueue.fill, Virtqueue.setDesc, setAt]
    split
    · next heq => rw [← heq, h]
    · exact h

theorem Represents.fill (h : Represents a x v) (allocated : a.Allocated) {f : Fill}
    (hf : f.Fits a.queueSize) (phase : DriverPhase) :
    Represents a ⟨{ (x.view a).fill f with driver := phase }, storeAll x.mem (a.fillStores f)⟩
      { v.fill f with driver := phase } := by
  obtain ⟨hda, hdu, -⟩ := allocated.places
  have hinside := fillStores_inside hf
  have hkept : ∀ base n, (a.avail ≤ base ∧ base + n ≤ a.avail + (2 * a.queueSize + 6) ∨
      a.used ≤ base ∧ base + n ≤ a.used + (8 * a.queueSize + 6)) →
      loadBytes (storeAll x.mem (a.fillStores f)) base n = loadBytes x.mem base n := by
    intro base n hbase
    apply loadBytes_storeAll_apart
    intro s hs
    have hin := hinside s hs
    unfold NoOverlap at hda hdu ⊢
    omega
  have havail : a.loadAvailIdx (storeAll x.mem (a.fillStores f)) = v.availIdx :=
    (hkept (a.avail + 2) 2 (by omega)).trans h.availIdx
  have hused : a.loadUsedIdx (storeAll x.mem (a.fillStores f)) = v.usedIdx :=
    (hkept (a.used + 2) 2 (by omega)).trans h.usedIdx
  have hdesc : ∀ i < a.queueSize,
      a.loadDesc (storeAll x.mem (a.fillStores f)) i = (v.fill f).desc i := by
    intro i hi
    have hview : (x.view a).desc i = v.desc i := h.desc i hi
    have hload := loadDesc_fill (v := x.view a) (m := x.mem) rfl hf i
    exact hload.trans (fill_desc_congr f hview)
  have hring : ∀ i < a.queueSize,
      a.loadRing (storeAll x.mem (a.fillStores f)) i = (v.fill f).ring i := by
    intro i hi
    have hkeep := (hkept (a.avail + 4 + 2 * i) 2 (by omega)).trans (h.ring i hi)
    cases f <;> exact hkeep
  rw [h.view, fill_shared]
  refine .of_shared rfl ?_ ?_ hdesc hring
  · cases f <;> exact havail
  · cases f <;> exact hused

/-- Where the table and the device area are left alone. -/
theorem Represents.avail_stored (h : Represents a x v) (allocated : a.Allocated)
    {stores : List Store} (hinside : ∀ s ∈ stores, a.avail ≤ s.address ∧
      s.address + s.field.width ≤ a.avail + (2 * a.queueSize + 6)) :
    (∀ i < a.queueSize, a.loadDesc (storeAll x.mem stores) i = v.desc i) ∧
      a.loadUsedIdx (storeAll x.mem stores) = v.usedIdx := by
  obtain ⟨hda, -, hau⟩ := allocated.places
  constructor
  · intro i hi
    refine (loadDesc_kept fun s hs => ?_).trans (h.desc i hi)
    have hin := hinside s hs
    unfold NoOverlap at hda ⊢
    omega
  · refine (loadBytes_storeAll_apart fun s hs => ?_).trans h.usedIdx
    have hin := hinside s hs
    unfold NoOverlap at hau ⊢
    omega

theorem ringStores_load {m : Bytes} {p : Post} {slot : Nat} (hhead : p.head < 256 ^ 2) :
    a.loadAvailIdx (storeAll m (a.ringStores p slot)) = a.loadAvailIdx m ∧
      a.loadRing (storeAll m (a.ringStores p slot)) = setAt (a.loadRing m) slot p.head := by
  have hflags : ∀ base n, a.avail + 2 ≤ base →
      loadBytes (storeAll m (if p.command = .getDisplayInfo then [⟨a.avail, ⟨2, 0⟩⟩] else []))
        base n = loadBytes m base n := by
    intro base n hbase
    apply loadBytes_storeAll_apart
    intro s hs
    split at hs
    · obtain rfl := List.mem_singleton.mp hs
      exact Or.inl hbase
    · exact absurd hs List.not_mem_nil
  unfold QueueAreas.ringStores
  rw [storeAll_append]
  constructor
  · refine Eq.trans ?_ (hflags _ _ (Nat.le_refl _))
    apply loadBytes_storeAll_apart
    intro s hs
    obtain rfl := List.mem_singleton.mp hs
    exact Or.inr (by dsimp only; omega)
  · funext i
    by_cases hi : i = slot
    · rw [hi, setAt, if_pos rfl]
      exact loadBytes_storeBytes_same hhead
    · rw [setAt, if_neg hi]
      refine Eq.trans ?_ (hflags (a.avail + 4 + 2 * i) 2 (by omega))
      apply loadBytes_storeAll_apart
      intro s hs
      obtain rfl := List.mem_singleton.mp hs
      unfold NoOverlap
      dsimp only
      omega

theorem ringStores_inside {p : Post} {slot : Nat} (hslot : slot < a.queueSize) :
    ∀ s ∈ a.ringStores p slot, a.avail ≤ s.address ∧
      s.address + s.field.width ≤ a.avail + (2 * a.queueSize + 6) := by
  intro s hs
  rcases List.mem_append.mp hs with hs | hs
  · split at hs
    · obtain rfl := List.mem_singleton.mp hs
      dsimp only
      omega
    · exact absurd hs List.not_mem_nil
  · obtain rfl := List.mem_singleton.mp hs
    dsimp only
    omega

theorem Represents.ring_slot (h : Represents a x v) (c : Command) :
    (x.view a).ringSlot c = v.ringSlot c := by
  rw [h.view, ringSlot_shared]

theorem Represents.next_avail (h : Represents a x v) (c : Command) :
    (x.view a).nextAvail c = v.nextAvail c := by
  rw [h.view, nextAvail_shared]

theorem Represents.waits_on (h : Represents a x v) (c : Command) :
    (x.view a).waitsOn c = v.waitsOn c := by
  rw [h.view, waitsOn_shared]

theorem Represents.post (h : Represents a x v) (allocated : a.Allocated) {p : Post}
    (hslot : v.ringSlot p.command < a.queueSize) (hhead : p.head < 256 ^ 2) :
    Represents a
      ⟨{ x.view a with
          ring := setAt (x.view a).ring (v.ringSlot p.command) p.head
          driver := .publishing p },
        storeAll x.mem (a.ringStores p (v.ringSlot p.command))⟩
      { v with ring := setAt v.ring (v.ringSlot p.command) p.head, driver := .publishing p } := by
  obtain ⟨hdesc, hused⟩ := h.avail_stored allocated (ringStores_inside (p := p) hslot)
  obtain ⟨havail, hring⟩ := ringStores_load (a := a) (m := x.mem)
    (p := p) hhead
  rw [h.view]
  refine .of_shared rfl (havail.trans h.availIdx) hused hdesc fun i hi => ?_
  rw [hring]
  by_cases hi' : i = v.ringSlot p.command
  · exact (if_pos hi').trans (if_pos hi').symm
  · exact (if_neg hi').trans ((h.ring i hi).trans (if_neg hi').symm)

theorem Represents.publish (h : Represents a x v) (allocated : a.Allocated) {p : Post} :
    Represents a
      ⟨{ x.view a with
          availIdx := v.nextAvail p.command
          posted := (x.view a).posted ++ [p.head]
          driver := .notifying p },
        storeAll x.mem [⟨a.avail + 2, ⟨2, v.nextAvail p.command⟩⟩]⟩
      { v with
        availIdx := v.nextAvail p.command, posted := v.posted ++ [p.head]
        driver := .notifying p } := by
  have hinside : ∀ s ∈ [Store.mk (a.avail + 2) ⟨2, v.nextAvail p.command⟩], a.avail ≤ s.address ∧
      s.address + s.field.width ≤ a.avail + (2 * a.queueSize + 6) := by
    intro s hs
    obtain rfl := List.mem_singleton.mp hs
    dsimp only
    omega
  obtain ⟨hdesc, hused⟩ := h.avail_stored allocated hinside
  have hfits : v.nextAvail p.command < 256 ^ 2 := by
    unfold Virtqueue.nextAvail
    split <;> omega
  have havail : a.loadAvailIdx (storeAll x.mem [⟨a.avail + 2, ⟨2, v.nextAvail p.command⟩⟩]) =
      v.nextAvail p.command := loadBytes_storeBytes_same hfits
  rw [h.view]
  refine .of_shared rfl havail hused hdesc fun i hi => ?_
  refine (loadBytes_storeAll_apart fun s hs => ?_).trans (h.ring i hi)
  obtain rfl := List.mem_singleton.mp hs
  exact Or.inl (by dsimp only; omega)

/-- Steps that store nothing and change nothing that is shared. -/
theorem Represents.unstored (h : Represents a x v) {u v' : Virtqueue}
    (hu : u = { v' with desc := a.loadDesc x.mem, ring := a.loadRing x.mem })
    (hdesc : v'.desc = v.desc) (hring : v'.ring = v.ring) (havail : v'.availIdx = v.availIdx)
    (hused : v'.usedIdx = v.usedIdx) : Represents a ⟨u, x.mem⟩ v' := by
  refine .of_shared hu (h.availIdx.trans havail.symm) (h.usedIdx.trans hused.symm) ?_ ?_
  · rw [hdesc]
    exact h.desc
  · rw [hring]
    exact h.ring

theorem Represents.complete (h : Represents a x v) (allocated : a.Allocated) (head len : Nat)
    (hslot : v.usedIdx % v.queueSize < a.queueSize) :
    Represents a ⟨(x.view a).complete, storeAll x.mem (a.usedStores (x.view a) head len)⟩
      v.complete := by
  obtain ⟨-, hdu, hau⟩ := allocated.places
  have hinside : ∀ s ∈ a.usedStores v head len, a.used ≤ s.address ∧
      s.address + s.field.width ≤ a.used + (8 * a.queueSize + 6) := by
    intro s hs
    simp only [QueueAreas.usedStores, List.mem_cons, List.not_mem_nil, or_false] at hs
    rcases hs with rfl | rfl | rfl <;> dsimp only <;> omega
  have havail : a.loadAvailIdx (storeAll x.mem (a.usedStores v head len)) = v.availIdx := by
    refine (loadBytes_storeAll_apart fun s hs => ?_).trans h.availIdx
    have hin := hinside s hs
    unfold NoOverlap at hau ⊢
    omega
  have hused : a.loadUsedIdx (storeAll x.mem (a.usedStores v head len)) =
      (v.usedIdx + 1) % 2 ^ 16 := by
    unfold QueueAreas.usedStores
    exact loadBytes_storeBytes_same (Nat.mod_lt _ (by decide))
  rw [h.view, usedStores_shared, complete_shared]
  refine .of_shared rfl havail hused (fun i hi => ?_) fun i hi => ?_
  · refine (loadDesc_kept fun s hs => ?_).trans (h.desc i hi)
    have hin := hinside s hs
    unfold NoOverlap at hdu ⊢
    omega
  · refine (loadBytes_storeAll_apart fun s hs => ?_).trans (h.ring i hi)
    have hin := hinside s hs
    unfold NoOverlap at hau ⊢
    omega

theorem chain_congr {desc desc' : Nat → VirtqDesc} (fuel head : Nat)
    (h : ∀ i ∈ chain desc fuel head, desc' i = desc i) :
    chain desc' fuel head = chain desc fuel head := by
  induction fuel generalizing head with
  | zero => rfl
  | succ fuel ih =>
    rw [chain] at h
    obtain ⟨hhead, hrest⟩ := List.forall_mem_cons.mp h
    rw [chain, chain, hhead]
    split
    · next hflags =>
      rw [if_pos hflags] at hrest
      rw [ih _ hrest]
    · rfl

/-- The device finds the response block of a published chain. -/
theorem Represents.answer (h : Represents a x v) (hsize : v.queueSize = a.queueSize) {p : Post}
    (wellFormed : WellFormedChain v p) (value : Nat) :
    Represents a ⟨(x.view a).answer p.head value, x.mem⟩ (v.answer p.head value) := by
  have hvisits := wellFormed.visits _ (Nat.le_refl _)
  have hdesc : ∀ i ∈ chain v.desc v.queueSize p.head, a.loadDesc x.mem i = v.desc i := by
    intro i hi
    rw [hvisits] at hi
    exact h.desc i (hsize ▸ wellFormed.inTable i hi)
  have hne : chain v.desc v.queueSize p.head ≠ [] := by
    intro hnil
    have hcount := wellFormed.count
    rw [hvisits, List.map_eq_nil_iff] at hnil
    rw [hnil] at hcount
    cases hcommand : p.command <;> rw [hcommand] at hcount <;> cases hcount
  have haddress : (a.loadDesc x.mem
      ((chain (a.loadDesc x.mem) v.queueSize p.head).getLastD p.head)).addr =
        v.responseAddress p.head := by
    rw [chain_congr v.queueSize p.head hdesc, hdesc, Virtqueue.responseAddress]
    rw [List.getLastD_eq_getLast?, List.getLast?_eq_some_getLast hne]
    exact List.getLast_mem hne
  rw [h.view, answer_shared v _ _ (responseAddress_shared v _ _ haddress)]
  exact h.unstored rfl rfl rfl rfl rfl

theorem Represents.consume (h : Represents a x v) (hsize : v.queueSize = a.queueSize)
    (hpos : 0 < a.queueSize) : Represents a ⟨(x.view a).consume, x.mem⟩ v.consume := by
  have hslot : v.lastSeen % v.queueSize < a.queueSize := hsize ▸ Nat.mod_lt _ (hsize ▸ hpos)
  rw [h.view, consume_shared v _ _ (h.ring _ hslot)]
  exact h.unstored rfl rfl rfl rfl rfl

theorem ChainInv.head_lt {queueSize : Nat} (inv : ChainInv queueSize v) {todo : List Fill}
    {p : Post} (h : v.driver.current = some (todo, p)) : p.head < queueSize := by
  obtain ⟨c, d0, b, done, rfl, hunder⟩ := inv.current _ _ h
  have hhead : (v.postingAt c d0 b).post.head = d0 := posting_head _ _ _ _ _ hunder.first
  rw [hhead, ← inv.size]
  exact hunder.index

theorem ringSlot_lt (hpos : 0 < v.queueSize) (c : Command) : v.ringSlot c < v.queueSize := by
  unfold Virtqueue.ringSlot
  split
  · exact hpos
  · exact Nat.mod_lt _ hpos

/-- A step of the driver in memory is the step of the model. -/
theorem Represents.driver (h : Represents a x v) (allocated : a.Allocated)
    (chains : ChainInv a.queueSize v) (hpos : 0 < a.queueSize) (hsmall : a.queueSize ≤ 2 ^ 16)
    (hbuffers : BuffersFit v) {u : Virtqueue} (hstep : (x.view a).driverStep = some u) :
    ∃ v', v.driverStep = some v' ∧
      Represents a ⟨u, storeAll x.mem (a.driverStores (x.view a))⟩ v' := by
  have hsame : (x.view a).driver = v.driver := by rw [h.view]
  have hqueue := chains.size
  cases driverStep_move hstep with
  | @fill f todo p hdriver =>
    have hv := hsame.symm.trans hdriver
    have hfits := chains.fill_fits hsmall hbuffers hv
    rw [QueueAreas.driverStores, hdriver]
    refine ⟨_, ?_, h.fill allocated hfits _⟩
    rw [Virtqueue.driverStep, hv]
  | @ring p hdriver =>
    have hv := hsame.symm.trans hdriver
    have hcurrent : v.driver.current = some ([], p) := by
      rw [hv]
      rfl
    have hhead := chains.head_lt hcurrent
    rw [QueueAreas.driverStores, hdriver]
    dsimp only
    rw [h.ring_slot]
    have hslot : v.ringSlot p.command < a.queueSize := hqueue ▸ ringSlot_lt (by omega) _
    refine ⟨_, ?_, h.post allocated hslot (p := p) (by omega)⟩
    rw [Virtqueue.driverStep, hv]
  | @publish p hdriver =>
    have hv := hsame.symm.trans hdriver
    rw [QueueAreas.driverStores, hdriver]
    dsimp only
    rw [h.next_avail]
    refine ⟨_, ?_, h.publish allocated⟩
    rw [Virtqueue.driverStep, hv]
  | @notify p hdriver =>
    have hv := hsame.symm.trans hdriver
    rw [QueueAreas.driverStores, hdriver]
    refine ⟨{ v with driver := .waiting p }, ?_, h.unstored ?_ rfl rfl rfl rfl⟩
    · rw [Virtqueue.driverStep, hv]
    · rw [h.view]
  | @wait p hdriver hused =>
    have hv := hsame.symm.trans hdriver
    have hnew : ¬v.usedIdx = v.waitsOn p.command := by
      rw [← h.usedIdx, ← h.waits_on]
      exact hused
    rw [QueueAreas.driverStores, hdriver]
    refine ⟨{ v with driver := .reading p }, ?_, h.unstored ?_ rfl rfl rfl rfl⟩
    · rw [Virtqueue.driverStep, hv]
      exact if_neg hnew
    · rw [h.view]
  | @read p hdriver =>
    have hv := hsame.symm.trans hdriver
    rw [QueueAreas.driverStores, hdriver]
    refine ⟨{ v with reads := v.reads ++ [v.type p.buffers.response], driver := .idle }, ?_,
      h.unstored ?_ rfl rfl rfl rfl⟩
    · rw [Virtqueue.driverStep, hv]
    · rw [h.view]

theorem BuffersFit.driver {v' : Virtqueue} (h : BuffersFit v) (hstep : v.driverStep = some v') :
    BuffersFit v' := by
  intro todo p hcurrent
  cases driverStep_move hstep with
  | fill hdriver =>
    obtain ⟨-, rfl⟩ := Prod.mk.inj (Option.some.inj hcurrent)
    exact h _ _ (by rw [hdriver]; rfl)
  | ring hdriver =>
    obtain ⟨-, rfl⟩ := Prod.mk.inj (Option.some.inj hcurrent)
    exact h _ _ (by rw [hdriver]; rfl)
  | publish hdriver =>
    obtain ⟨-, rfl⟩ := Prod.mk.inj (Option.some.inj hcurrent)
    exact h _ _ (by rw [hdriver]; rfl)
  | notify hdriver =>
    obtain ⟨-, rfl⟩ := Prod.mk.inj (Option.some.inj hcurrent)
    exact h _ _ (by rw [hdriver]; rfl)
  | wait hdriver hused =>
    obtain ⟨-, rfl⟩ := Prod.mk.inj (Option.some.inj hcurrent)
    exact h _ _ (by rw [hdriver]; rfl)
  | read hdriver => cases hcurrent

theorem BuffersFit.begin (v : Virtqueue) (c : Command) {b : Buffers} (hb : b.Fits) :
    BuffersFit (v.begin c b) := by
  intro todo p hcurrent
  obtain ⟨-, rfl⟩ := Prod.mk.inj (Option.some.inj hcurrent)
  rw [(posting_post _ _ _ _ _).2]
  exact hb

end steps

section runs
variable {a : QueueAreas} {k : Nat} {x x' : QueueMemory} {v : Virtqueue}

structure Simulated (a : QueueAreas) (x : QueueMemory) (v : Virtqueue) : Prop where
  reachable : (queueSystem a.queueSize).Reachable v
  represents : Represents a x v
  buffers : BuffersFit v

theorem loadBytes_cleared {m : Bytes} {b n : Nat} (h : ∀ y, b ≤ y → y < b + n → m y = 0) :
    loadBytes m b n = 0 := by
  have hzero : ∀ n, value (List.replicate n 0) = 0 := by
    intro n
    induction n with
    | zero => rfl
    | succ n ih =>
      rw [List.replicate_succ, value, ih]
      rfl
  have hbytes : ((List.range n).map fun i => m (b + i)) = List.replicate n 0 := by
    apply List.eq_replicate_iff.mpr
    refine ⟨by simp, fun y hy => ?_⟩
    obtain ⟨i, hi, rfl⟩ := List.mem_map.mp hy
    have hlt := List.mem_range.mp hi
    exact h _ (Nat.le_add_right _ _) (by omega)
  rw [loadBytes, hbytes, hzero]

theorem MemoryStart.simulated (h : MemoryStart a x) (hpos : 0 < a.queueSize) :
    Simulated a x (x.view a) := by
  have havail : a.loadAvailIdx x.mem = 0 := by
    apply loadBytes_cleared
    intro y hlow hhigh
    refine h.cleared (a.avail, driverAreaSize a.queueSize) ?_ y (by dsimp only; omega) ?_
    · simp [QueueAreas.ranges]
    · simp only [driverAreaSize]
      omega
  have hused : a.loadUsedIdx x.mem = 0 := by
    apply loadBytes_cleared
    intro y hlow hhigh
    refine h.cleared (a.used, deviceAreaSize a.queueSize) ?_ y (by dsimp only; omega) ?_
    · simp [QueueAreas.ranges]
    · simp only [deviceAreaSize]
      omega
  have hview : x.view a = { x.queue with
      desc := a.loadDesc x.mem, availIdx := 0, ring := a.loadRing x.mem, usedIdx := 0 } := by
    rw [QueueMemory.view, havail, hused]
  generalize hdesc : a.loadDesc x.mem = desc at hview
  generalize hring : a.loadRing x.mem = ring at hview
  refine ⟨.start ⟨?_⟩, ⟨?_, ?_, ?_⟩, ?_⟩
  · obtain ⟨u, b, hbegin, hsize, hindex, -, -, hrest⟩ := h.queue.command
    refine ⟨{ u with desc := desc, availIdx := 0, ring := ring, usedIdx := 0 }, b, ?_, hsize,
      hindex, rfl, rfl, hrest⟩
    rw [hview, hbegin]
    rfl
  · rw [hview, hdesc, hring]
  · rw [hview, hdesc]
    exact fun _ _ => rfl
  · rw [hview, hring]
    exact fun _ _ => rfl
  · rw [hview]
    exact h.buffers

/-- Each step in memory is a step of the model. -/
theorem Simulated.step (h : Simulated a x v) (allocated : a.Allocated) (hlow : 2 ≤ k)
    (hk : k ≤ 16) (hsize : a.queueSize = 2 ^ k) (hstep : MemoryStep a x x') :
    ∃ v', Simulated a x' v' := by
  obtain ⟨hreach, represents, buffers⟩ := h
  have hthree : 3 ≤ a.queueSize :=
    hsize ▸ Nat.le_trans (by decide) (Nat.pow_le_pow_right (by decide) hlow)
  have hsmall : a.queueSize ≤ 2 ^ 16 := hsize ▸ Nat.pow_le_pow_right (by decide) hk
  have chains := chainInv_reachable hthree hreach
  have hqueue := chains.size
  cases hstep with
  | begin c b hidle hfirst hfits =>
    rw [represents.view] at hidle
    exact ⟨_, hreach.step (.begin c b hidle hfirst), represents.begin c b, .begin v c hfits⟩
  | driver hdriver =>
    obtain ⟨v', hv', hrepresents⟩ := represents.driver allocated chains (by omega) hsmall buffers
      hdriver
    exact ⟨v', hreach.step (.driver hv'), hrepresents, buffers.driver hv'⟩
  | consume hidle hnew =>
    rw [represents.view] at hidle hnew
    exact ⟨_, hreach.step (.consume hidle hnew), represents.consume hqueue (by omega), buffers⟩
  | @answer head value hdevice =>
    rw [represents.view] at hdevice
    have order := orderInv_reachable hlow hk (hsize ▸ hreach)
    have hwork : v.device ≠ .idle := by
      rw [hdevice]
      exact nofun
    obtain ⟨p, hphase, flight, -⟩ := order.in_flight (Or.inl hwork)
    obtain ⟨rfl, -⟩ := flight.of_consumed hdevice
    have hcurrent : v.driver.current = some ([], p) := by
      rcases hphase with hphase | hphase <;> rw [hphase] <;> rfl
    exact ⟨_, hreach.step (.answer value hdevice),
      represents.answer hqueue (chains.wellFormed hthree hcurrent) value, buffers⟩
  | @complete head len hdevice =>
    rw [represents.view] at hdevice
    have hslot : v.usedIdx % v.queueSize < a.queueSize := hqueue ▸ Nat.mod_lt _ (by omega)
    exact ⟨_, hreach.step (.complete hdevice), represents.complete allocated head len hslot,
      buffers⟩

theorem memory_simulated (allocated : a.Allocated) (hlow : 2 ≤ k) (hk : k ≤ 16)
    (hsize : a.queueSize = 2 ^ k) (h : (memorySystem a).Reachable x) : ∃ v, Simulated a x v := by
  have hpos : 0 < a.queueSize := hsize ▸ Nat.two_pow_pos k
  induction h with
  | start h => exact ⟨_, h.simulated hpos⟩
  | step _ hstep ih =>
    obtain ⟨v, hv⟩ := ih
    exact hv.step allocated hlow hk hsize hstep

theorem QueueAreas.Allocated.aligned_places (h : a.Allocated) :
    a.desc % 4096 = 0 ∧ a.avail % 4096 = 0 ∧ a.used % 4096 = 0 := by
  have haligned := h.aligned
  simp only [QueueAreas.ranges, List.forall_mem_cons] at haligned
  exact ⟨haligned.1, haligned.2.1, haligned.2.2.1⟩

theorem fillStores_places (allocated : a.Allocated) {f : Fill} (hf : f.Fits a.queueSize) :
    ∀ s ∈ a.fillStores f, a.Places s := by
  intro s hs
  obtain ⟨hlow, hhigh⟩ := fillStores_inside hf s hs
  have haligned := allocated.aligned_places.1
  refine ⟨?_, (a.desc, descriptorTableSize a.queueSize), List.mem_cons_self, hlow, ?_⟩
  · cases f with
    | type address value => exact absurd hs List.not_mem_nil
    | usedIdx => exact absurd hs List.not_mem_nil
    | _ =>
      obtain rfl := List.mem_singleton.mp hs
      dsimp only
      omega
  · simp only [descriptorTableSize]
    omega

theorem avail_places {s : Store} (hplace : s.address % s.field.width = 0)
    (hinside : a.avail ≤ s.address ∧
      s.address + s.field.width ≤ a.avail + (2 * a.queueSize + 6)) : a.Places s := by
  refine ⟨hplace, (a.avail, driverAreaSize a.queueSize),
    List.mem_cons_of_mem _ List.mem_cons_self, hinside.1, ?_⟩
  simp only [driverAreaSize]
  omega

theorem driverStores_places (allocated : a.Allocated) (chains : ChainInv a.queueSize v)
    (hsmall : a.queueSize ≤ 2 ^ 16) (hpos : 0 < a.queueSize) (buffers : BuffersFit v) :
    ∀ s ∈ a.driverStores v, a.Places s := by
  have haligned := allocated.aligned_places.2.1
  have hqueue := chains.size
  intro s hs
  unfold QueueAreas.driverStores at hs
  split at hs
  · next f todo p hdriver =>
    exact fillStores_places allocated (chains.fill_fits hsmall buffers hdriver) s hs
  · next p hdriver =>
    have hslot : v.ringSlot p.command < a.queueSize := hqueue ▸ ringSlot_lt (by omega) _
    refine avail_places ?_ (ringStores_inside hslot s hs)
    rcases List.mem_append.mp hs with hs | hs
    · split at hs
      · obtain rfl := List.mem_singleton.mp hs
        dsimp only
        omega
      · exact absurd hs List.not_mem_nil
    · obtain rfl := List.mem_singleton.mp hs
      dsimp only
      omega
  · obtain rfl := List.mem_singleton.mp hs
    exact avail_places (by dsimp only; omega) ⟨by dsimp only; omega, by dsimp only; omega⟩
  · exact absurd hs List.not_mem_nil

theorem usedStores_places (allocated : a.Allocated) (hslot : v.usedIdx % v.queueSize < a.queueSize)
    (head len : Nat) : ∀ s ∈ a.usedStores v head len, a.Places s := by
  have haligned := allocated.aligned_places.2.2
  intro s hs
  have hmem : (a.used, deviceAreaSize a.queueSize) ∈ a.ranges := by simp [QueueAreas.ranges]
  simp only [QueueAreas.usedStores, List.mem_cons, List.not_mem_nil, or_false] at hs
  rcases hs with rfl | rfl | rfl
  all_goals
    refine ⟨by dsimp only; omega, _, hmem, by dsimp only; omega, ?_⟩
    simp only [deviceAreaSize]
    omega

theorem memory_places (allocated : a.Allocated) (hlow : 2 ≤ k) (hk : k ≤ 16)
    (hsize : a.queueSize = 2 ^ k) (h : (memorySystem a).Reachable x) :
    (∀ s ∈ a.driverStores (x.view a), a.Places s) ∧
      ∀ head len, ∀ s ∈ a.usedStores (x.view a) head len, a.Places s := by
  obtain ⟨v, hreach, represents, buffers⟩ := memory_simulated allocated hlow hk hsize h
  have hthree : 3 ≤ a.queueSize :=
    hsize ▸ Nat.le_trans (by decide) (Nat.pow_le_pow_right (by decide) hlow)
  have hsmall : a.queueSize ≤ 2 ^ 16 := hsize ▸ Nat.pow_le_pow_right (by decide) hk
  have chains := chainInv_reachable hthree hreach
  have hqueue := chains.size
  refine ⟨?_, fun head len => ?_⟩
  · have hstores : a.driverStores (x.view a) = a.driverStores v := by
      rw [represents.view, driverStores_shared]
    rw [hstores]
    exact driverStores_places allocated chains hsmall (by omega) buffers
  · rw [represents.view, usedStores_shared]
    exact usedStores_places allocated (hqueue ▸ Nat.mod_lt _ (by omega)) head len

/-- However the two sides take turns: what they find in memory is a queue of the model, so all
that is known of the model holds of the bytes; and no store of either leaves the areas. -/
theorem queueMemory_refines (allocated : a.Allocated) (hlow : 2 ≤ k) (hk : k ≤ 16)
    (hsize : a.queueSize = 2 ^ k) (h : (memorySystem a).Reachable x) :
    (∃ v, (queueSystem (2 ^ k)).Reachable v ∧ Represents a x v) ∧
      (∀ s ∈ a.driverStores (x.view a), a.Places s) ∧
      ∀ head len, ∀ s ∈ a.usedStores (x.view a) head len, a.Places s := by
  obtain ⟨v, hreach, represents, -⟩ := memory_simulated allocated hlow hk hsize h
  exact ⟨⟨v, hsize ▸ hreach, represents⟩, memory_places allocated hlow hk hsize h⟩

end runs

def exampleAreas : QueueAreas := ⟨64, 0x1000, 0x2000, 0x3000⟩

theorem exampleAreas_allocated : exampleAreas.Allocated := by
  refine ⟨?_, ?_⟩
  · simp [QueueAreas.ranges, exampleAreas, NoOverlap, descriptorTableSize, driverAreaSize,
      deviceAreaSize]
  · simp [QueueAreas.ranges, exampleAreas]

theorem queueMemory_refines_first : ∃ x, (memorySystem exampleAreas).Reachable x ∧
    (∃ v, (queueSystem (2 ^ 6)).Reachable v ∧ Represents exampleAreas x v) ∧
      ∀ s ∈ exampleAreas.driverStores (x.view exampleAreas), exampleAreas.Places s := by
  let x : QueueMemory := ⟨emptyQueue.begin .getDisplayInfo ⟨0x4000, 0x5000, 0x6000⟩, fun _ => 0⟩
  have hfits : BuffersFit x.queue := .begin _ _ (by unfold Buffers.Fits; decide)
  have hreach : (memorySystem exampleAreas).Reachable x :=
    .start ⟨emptyQueue_start _, hfits, fun _ _ _ _ _ => rfl⟩
  obtain ⟨hrefines, hstores, -⟩ := queueMemory_refines exampleAreas_allocated (k := 6) (by decide)
    (by decide) rfl hreach
  exact ⟨x, hreach, hrefines, hstores⟩

end SelfmadeOS
