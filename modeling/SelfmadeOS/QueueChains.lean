import SelfmadeOS.Virtqueue
import Mathlib.Data.List.Basic

/-!
# The chains that the driver posts

A command's stores fill one chain of descriptors, whatever the slots held before.
-/

namespace SelfmadeOS
set_option autoImplicit false
open Transitions Virtqueue

/-- The descriptor table holds what the store has put there. -/
def Fill.Holds (desc : Nat → VirtqDesc) : Fill → Prop
  | .type _ _ => True
  | .addr i value => (desc i).addr = value
  | .len i value => (desc i).len = value
  | .flags i value => (desc i).flags = value
  | .next i value => (desc i).next = value
  | .usedIdx => True

def Fill.index : Fill → Option Nat
  | .type _ _ => none
  | .addr i _ => some i
  | .len i _ => some i
  | .flags i _ => some i
  | .next i _ => some i
  | .usedIdx => none

section filling
variable (v : Virtqueue) (f g : Fill) {target : Nat → VirtqDesc}

theorem fill_queueSize : (v.fill f).queueSize = v.queueSize := by
  cases f <;> rfl

theorem fill_touched : (v.fill f).touched = v.touched ++ f.index.toList := by
  cases f <;> simp [Virtqueue.fill, Virtqueue.setDesc, Fill.index]

theorem fill_holds : f.Holds (v.fill f).desc := by
  cases f <;> simp [Virtqueue.fill, Virtqueue.setDesc, setAt, Fill.Holds]

/-- Stores that agree on one table do not undo each other. -/
theorem fill_keeps (hf : f.Holds target) (hg : g.Holds target) (h : g.Holds v.desc) :
    g.Holds (v.fill f).desc := by
  cases f <;> cases g <;>
    simp only [Virtqueue.fill, Virtqueue.setDesc, setAt, Fill.Holds] at hf hg h ⊢ <;>
    try trivial
  all_goals
    split
    · rename_i heq
      subst heq
      simp_all
    · assumption

theorem holds_desc {i : Nat} {d : VirtqDesc} {desc : Nat → VirtqDesc}
    (h : ∀ f ∈ Fill.desc (i, d), f.Holds desc) : desc i = d := by
  have haddr := h (.addr i d.addr) (by simp [Fill.desc])
  have hlen := h (.len i d.len) (by simp [Fill.desc])
  have hflags := h (.flags i d.flags) (by simp [Fill.desc])
  have hnext := h (.next i d.next) (by simp [Fill.desc])
  simp only [Fill.Holds] at haddr hlen hflags hnext
  cases hd : desc i
  rw [hd] at haddr hlen hflags hnext
  simp_all

end filling

section postings
variable (c : Command) (d0 d1 d2 : Nat) (b : Buffers)

def Command.indices : List Nat := if c.descriptors = 3 then [d0, d1, d2] else [d0, d1]

theorem posting_links :
    (c.posting d0 d1 d2 b).post.links.map Prod.fst = c.indices d0 d1 d2 := by
  cases c <;> rfl

theorem posting_post : (c.posting d0 d1 d2 b).post.command = c ∧
    (c.posting d0 d1 d2 b).post.buffers = b := by
  cases c <;> exact ⟨rfl, rfl⟩

theorem posting_head (h : c = .getDisplayInfo → d0 = 0) :
    (c.posting d0 d1 d2 b).post.head = d0 := by
  cases c
  · exact (h rfl).symm
  all_goals rfl

theorem posting_filled {link : Nat × VirtqDesc} (h : link ∈ (c.posting d0 d1 d2 b).post.links) :
    ∀ f ∈ Fill.desc link, f ∈ (c.posting d0 d1 d2 b).fills := by
  intro f hf
  cases c <;> simp only [Command.posting, SelfmadeOS.getDisplayInfo, init2DFrameBuffer,
    setScanoutParam, transferToHost2dCommand, resourceFlushCommand, twoDescriptors,
    connectResourceToMemory, List.mem_append, List.mem_cons, List.not_mem_nil, or_false] at h ⊢
  all_goals
    rcases h with rfl | rfl | rfl <;> simp [hf]

theorem posting_covered {f : Fill} (h : f ∈ (c.posting d0 d1 d2 b).fills) :
    f.index = none ∨ ∃ link ∈ (c.posting d0 d1 d2 b).post.links, f ∈ Fill.desc link := by
  cases c <;> simp only [Command.posting, SelfmadeOS.getDisplayInfo, init2DFrameBuffer,
    setScanoutParam, transferToHost2dCommand, resourceFlushCommand, twoDescriptors,
    connectResourceToMemory, List.mem_append, List.mem_cons, List.not_mem_nil, or_false] at h ⊢
  all_goals grind [Fill.index]

end postings

/-- The stores that a command has still to do, and what it posts. -/
def DriverPhase.current : DriverPhase → Option (List Fill × Post)
  | .idle => none
  | .filling todo p => some (todo, p)
  | .publishing p => some ([], p)
  | .notifying p => some ([], p)
  | .waiting p => some ([], p)
  | .reading p => some ([], p)

def Virtqueue.postingAt (v : Virtqueue) (c : Command) (d0 : Nat) (b : Buffers) : Posting :=
  c.posting d0 (v.getNextDescriptor d0) (v.getNextDescriptor (v.getNextDescriptor d0)) b

/-- The stores `done` of the command that is under way can be read back. -/
structure Underway (v : Virtqueue) (c : Command) (d0 : Nat) (b : Buffers)
    (done todo : List Fill) : Prop where
  index : d0 < v.queueSize
  first : c = .getDisplayInfo → d0 = 0
  fills : (v.postingAt c d0 b).fills = done ++ todo
  holds : ∀ f ∈ done, f.Holds v.desc
  touched : v.touched = done.filterMap Fill.index

structure ChainInv (queueSize : Nat) (v : Virtqueue) : Prop where
  size : v.queueSize = queueSize
  index : v.descriptorIndex < queueSize
  current : ∀ todo p, v.driver.current = some (todo, p) →
    ∃ c d0 b done, p = (v.postingAt c d0 b).post ∧ Underway v c d0 b done todo

section invariant
variable {queueSize : Nat} {v v' : Virtqueue}

theorem ChainInv.of_eq (inv : ChainInv queueSize v) (hsize : v'.queueSize = v.queueSize)
    (hindex : v'.descriptorIndex = v.descriptorIndex) (hdesc : v'.desc = v.desc)
    (htouched : v'.touched = v.touched) (hdriver : v'.driver.current = v.driver.current ∨
      v'.driver.current = none) : ChainInv queueSize v' := by
  refine ⟨hsize ▸ inv.size, hindex ▸ inv.index, ?_⟩
  intro todo p hcurrent
  rcases hdriver with hsame | hnone
  · obtain ⟨c, d0, b, done, hp, h⟩ := inv.current todo p (hsame ▸ hcurrent)
    have hnext : ∀ i, v'.getNextDescriptor i = v.getNextDescriptor i := by
      intro i
      unfold Virtqueue.getNextDescriptor
      rw [hsize]
    have hposting : v'.postingAt c d0 b = v.postingAt c d0 b := by
      unfold Virtqueue.postingAt
      rw [hnext, hnext]
    refine ⟨c, d0, b, done, hposting ▸ hp, ?_⟩
    exact ⟨hsize ▸ h.index, h.first, hposting ▸ h.fills, hdesc ▸ h.holds, htouched ▸ h.touched⟩
  · rw [hnone] at hcurrent
    cases hcurrent

theorem next_lt (hsize : 0 < v.queueSize) (i : Nat) : v.getNextDescriptor i < v.queueSize :=
  Nat.mod_lt _ hsize

theorem next_distinct (hsize : 3 ≤ v.queueSize) {d0 : Nat} (h : d0 < v.queueSize) :
    d0 ≠ v.getNextDescriptor d0 ∧
      v.getNextDescriptor d0 ≠ v.getNextDescriptor (v.getNextDescriptor d0) ∧
      d0 ≠ v.getNextDescriptor (v.getNextDescriptor d0) := by
  have hstep : ∀ i, i < v.queueSize → v.getNextDescriptor i =
      if i + 1 = v.queueSize then 0 else i + 1 := by
    intro i hi
    unfold Virtqueue.getNextDescriptor
    split
    · rename_i heq
      rw [heq, Nat.mod_self]
    · exact Nat.mod_eq_of_lt (by omega)
  have hnext := next_lt (v := v) (by omega) d0
  rw [hstep _ hnext, hstep _ h]
  split <;> split <;> omega

theorem indices_nodup (hsize : 3 ≤ v.queueSize) (c : Command) {d0 : Nat}
    (h : d0 < v.queueSize) (b : Buffers) :
    ((v.postingAt c d0 b).post.links.map Prod.fst).Nodup := by
  obtain ⟨h01, h12, h02⟩ := next_distinct hsize h
  rw [Virtqueue.postingAt, posting_links, Command.indices]
  split <;> simp [h01, h12, h02]

theorem exists_table {links : List (Nat × VirtqDesc)} (h : (links.map Prod.fst).Nodup) :
    ∃ table : Nat → VirtqDesc, ∀ link ∈ links, table link.1 = link.2 := by
  induction links with
  | nil => exact ⟨fun _ => ⟨0, 0, 0, 0⟩, fun _ hmem => absurd hmem List.not_mem_nil⟩
  | cons link links ih =>
    obtain ⟨hfresh, hrest⟩ := List.nodup_cons.mp h
    obtain ⟨table, htable⟩ := ih hrest
    refine ⟨setAt table link.1 link.2, ?_⟩
    intro other hother
    rcases List.mem_cons.mp hother with rfl | hmem
    · exact if_pos rfl
    · have hne : other.1 ≠ link.1 := by
        intro heq
        exact hfresh (heq ▸ List.mem_map_of_mem hmem)
      exact (if_neg hne).trans (htable other hmem)

theorem desc_holds {i : Nat} {d : VirtqDesc} {table : Nat → VirtqDesc} (h : table i = d)
    {f : Fill} (hf : f ∈ Fill.desc (i, d)) : f.Holds table := by
  simp only [Fill.desc, List.mem_cons, List.not_mem_nil, or_false] at hf
  rcases hf with rfl | rfl | rfl | rfl <;> simp [Fill.Holds, h]

theorem posting_table (hsize : 3 ≤ v.queueSize) (c : Command) {d0 : Nat}
    (h : d0 < v.queueSize) (b : Buffers) :
    ∃ table : Nat → VirtqDesc, ∀ f ∈ (v.postingAt c d0 b).fills, f.Holds table := by
  obtain ⟨table, htable⟩ := exists_table (indices_nodup hsize c h b)
  refine ⟨table, ?_⟩
  intro f hf
  rcases posting_covered _ _ _ _ _ hf with hnone | ⟨link, hlink, hmem⟩
  · cases f <;> trivial
  · exact desc_holds (htable link hlink) hmem

section steps
variable {c : Command} {d0 : Nat} {b : Buffers} {done todo : List Fill}

theorem Underway.fill (hsize : 3 ≤ v.queueSize) {f : Fill}
    (h : Underway v c d0 b done (f :: todo)) (phase : DriverPhase) :
    Underway { v.fill f with driver := phase } c d0 b (done ++ [f]) todo := by
  have hqueue := fill_queueSize v f
  have hnext : ∀ i, ({ v.fill f with driver := phase } : Virtqueue).getNextDescriptor i =
      v.getNextDescriptor i := by
    intro i
    simp only [Virtqueue.getNextDescriptor, hqueue]
  have hfills := h.fills
  obtain ⟨table, htable⟩ := posting_table hsize c h.index b
  refine ⟨?_, h.first, ?_, ?_, ?_⟩
  · simp only [hqueue]
    exact h.index
  · unfold Virtqueue.postingAt at hfills ⊢
    rw [hnext, hnext, hfills, List.append_assoc, List.singleton_append]
  · intro g hg
    rcases List.mem_append.mp hg with hold | hnew
    · apply fill_keeps v f g (htable f _) (htable g _) (h.holds g hold)
      · exact hfills ▸ List.mem_append_right _ (List.mem_cons_self ..)
      · exact hfills ▸ List.mem_append_left _ hold
    · obtain rfl := List.mem_singleton.mp hnew
      exact fill_holds v g
  · simp only [fill_touched, h.touched, List.filterMap_append]
    cases hf : f.index <;> simp [hf]

end steps

theorem begin_underway (v : Virtqueue) (c : Command) (b : Buffers)
    (hfirst : c = .getDisplayInfo → v.descriptorIndex = 0)
    (hindex : v.descriptorIndex < v.queueSize) {todo : List Fill} {p : Post}
    (h : (v.begin c b).driver.current = some (todo, p)) :
    p = (v.postingAt c v.descriptorIndex b).post ∧
      Underway (v.begin c b) c v.descriptorIndex b [] todo := by
  obtain ⟨rfl, rfl⟩ := Prod.mk.inj (Option.some.inj h)
  refine ⟨rfl, hindex, hfirst, rfl, ?_, rfl⟩
  intro f hf
  exact absurd hf List.not_mem_nil

theorem ChainInv.begin (inv : ChainInv queueSize v) (c : Command) (b : Buffers)
    (hpos : 0 < queueSize) (hfirst : c = .getDisplayInfo → v.descriptorIndex = 0) :
    ChainInv queueSize (v.begin c b) := by
  have hsize := inv.size
  subst hsize
  refine ⟨rfl, ?_, ?_⟩
  · unfold Virtqueue.begin
    dsimp only
    split <;> exact next_lt hpos _
  · intro todo p h
    obtain ⟨hp, hunder⟩ := begin_underway v c b hfirst inv.index h
    exact ⟨c, v.descriptorIndex, b, [], hp, hunder⟩

theorem ChainInv.driver (inv : ChainInv queueSize v) (hsize : 3 ≤ queueSize)
    (h : v.driverStep = some v') : ChainInv queueSize v' := by
  unfold Virtqueue.driverStep at h
  split at h
  case h_1 => cases h
  case h_2 f todo p hdriver =>
    obtain rfl := Option.some.inj h
    have hsize' := inv.size
    obtain ⟨c, d0, b, done, hp, hunder⟩ := inv.current (f :: todo) p (by rw [hdriver]; rfl)
    refine ⟨(fill_queueSize v f).trans hsize', ?_, ?_⟩
    · have hindex := inv.index
      cases f <;> exact hindex
    · intro todo' p' hcurrent
      obtain ⟨rfl, rfl⟩ := Prod.mk.inj (Option.some.inj hcurrent)
      refine ⟨c, d0, b, done ++ [f], ?_, hunder.fill (hsize' ▸ hsize) _⟩
      rw [hp]
      unfold Virtqueue.postingAt Virtqueue.getNextDescriptor
      simp only [fill_queueSize]
  case h_3 p hdriver =>
    obtain rfl := Option.some.inj h
    exact inv.of_eq rfl rfl rfl rfl (Or.inl (by rw [hdriver]; rfl))
  case h_4 p hdriver =>
    obtain rfl := Option.some.inj h
    exact inv.of_eq rfl rfl rfl rfl (Or.inl (by rw [hdriver]; rfl))
  case h_5 p hdriver =>
    obtain rfl := Option.some.inj h
    exact inv.of_eq rfl rfl rfl rfl (Or.inl (by rw [hdriver]; rfl))
  case h_6 p hdriver =>
    split at h
    · cases h
    · obtain rfl := Option.some.inj h
      exact inv.of_eq rfl rfl rfl rfl (Or.inl (by rw [hdriver]; rfl))
  case h_7 p hdriver =>
    obtain rfl := Option.some.inj h
    exact inv.of_eq rfl rfl rfl rfl (Or.inr rfl)

theorem ChainInv.step (inv : ChainInv queueSize v) (hsize : 3 ≤ queueSize)
    (h : QueueStep v v') : ChainInv queueSize v' := by
  cases h with
  | begin c b hidle hfirst =>
    exact inv.begin c b (by omega) fun heq => absurd heq hfirst
  | driver h => exact inv.driver hsize h
  | consume hidle hnew => exact inv.of_eq rfl rfl rfl rfl (Or.inl rfl)
  | answer value hdevice => exact inv.of_eq rfl rfl rfl rfl (Or.inl rfl)
  | complete hdevice => exact inv.of_eq rfl rfl rfl rfl (Or.inl rfl)

theorem chainInv_start (hpos : 0 < queueSize) (h : QueueStart queueSize v) :
    ChainInv queueSize v := by
  obtain ⟨u, b, rfl, hsize, hindex, -⟩ := h.command
  subst hsize
  refine ⟨rfl, ?_, ?_⟩
  · unfold Virtqueue.begin
    dsimp only
    split <;> exact next_lt hpos _
  · intro todo p hcurrent
    obtain ⟨hp, hunder⟩ := begin_underway u .getDisplayInfo b (fun _ => hindex)
      (hindex ▸ hpos) hcurrent
    exact ⟨_, _, b, [], hp, hunder⟩

theorem chainInv_reachable (hsize : 3 ≤ queueSize) (h : (queueSystem queueSize).Reachable v) :
    ChainInv queueSize v :=
  h.invariant (p := ChainInv queueSize) (fun _ hstart => chainInv_start (by omega) hstart)
    fun _ _ inv hstep => inv.step hsize hstep

end invariant

section chains
variable {desc : Nat → VirtqDesc}

theorem chain_next {i : Nat} (hflags : (desc i).flags = virtqDescFNext) (fuel : Nat) :
    chain desc (fuel + 1) i = i :: chain desc fuel (desc i).next := by
  rw [chain, if_pos (by rw [hflags]; decide)]

theorem chain_last {i : Nat} (hflags : (desc i).flags = virtqDescFWrite) (fuel : Nat) :
    chain desc (fuel + 1) i = [i] := by
  rw [chain, if_neg (by rw [hflags]; decide)]

theorem chain_two {i j len len' : Nat} {b : Buffers} (hi : desc i = requestDesc b len j)
    (hj : desc j = responseDesc b len') (fuel : Nat) : chain desc (fuel + 3) i = [i, j] := by
  rw [chain_next (by rw [hi]; rfl), hi]
  show i :: chain desc (fuel + 2) j = _
  rw [chain_last (by rw [hj]; rfl)]

theorem chain_three {i j k len len' len'' address : Nat} {b : Buffers}
    (hi : desc i = requestDesc b len j) (hj : desc j = ⟨address, len', virtqDescFNext, k⟩)
    (hk : desc k = responseDesc b len'') (fuel : Nat) :
    chain desc (fuel + 3) i = [i, j, k] := by
  rw [chain_next (by rw [hi]; rfl), hi]
  show i :: chain desc (fuel + 2) j = _
  rw [chain_next (by rw [hj]), hj]
  show i :: j :: chain desc (fuel + 1) k = _
  rw [chain_last (by rw [hk]; rfl)]

end chains

/-- What a published chain has to be. -/
structure WellFormedChain (v : Virtqueue) (p : Post) : Prop where
  visits : ∀ fuel, v.queueSize ≤ fuel → chain v.desc fuel p.head = p.links.map Prod.fst
  written : ∀ i, i ∈ v.touched ↔ i ∈ p.links.map Prod.fst
  count : p.links.length = p.command.descriptors
  distinct : (p.links.map Prod.fst).Nodup
  inTable : ∀ i ∈ p.links.map Prod.fst, i < v.queueSize
  blocks : p.links.map (fun link => (v.desc link.1).addr) =
    if p.command.descriptors = 3 then [p.buffers.request, p.buffers.entry, p.buffers.response]
    else [p.buffers.request, p.buffers.response]
  flags : p.links.map (fun link => (v.desc link.1).flags) =
    List.replicate (p.links.length - 1) virtqDescFNext ++ [virtqDescFWrite]

/-- What `construct_virtqueue` allocates for the descriptor table and for the driver area. -/
def descriptorTableSize (queueSize : Nat) : Nat := queueSize * 16

def driverAreaSize (queueSize : Nat) : Nat := queueSize * 2 + 6

section published
variable {queueSize : Nat} {v : Virtqueue} {c : Command} {d0 : Nat} {b : Buffers}
variable {done todo : List Fill}

theorem Underway.links_hold (h : Underway v c d0 b done []) :
    ∀ link ∈ (v.postingAt c d0 b).post.links, v.desc link.1 = link.2 := by
  intro link hlink
  apply holds_desc
  intro f hf
  apply h.holds f
  have hfills := h.fills
  rw [List.append_nil] at hfills
  exact hfills ▸ posting_filled _ _ _ _ _ hlink f hf

theorem Underway.touched_iff (h : Underway v c d0 b done []) (i : Nat) :
    i ∈ v.touched ↔ i ∈ (v.postingAt c d0 b).post.links.map Prod.fst := by
  have hfills := h.fills
  rw [List.append_nil] at hfills
  rw [h.touched, List.mem_filterMap, List.mem_map]
  constructor
  · rintro ⟨f, hf, hindex⟩
    rcases posting_covered _ _ _ _ _ (hfills ▸ hf) with hnone | ⟨link, hlink, hmem⟩
    · rw [hnone] at hindex
      cases hindex
    · refine ⟨link, hlink, ?_⟩
      simp only [Fill.desc, List.mem_cons, List.not_mem_nil, or_false] at hmem
      rcases hmem with rfl | rfl | rfl | rfl <;> exact Option.some.inj hindex
  · rintro ⟨link, hlink, rfl⟩
    refine ⟨.addr link.1 link.2.addr, ?_, rfl⟩
    exact hfills ▸ posting_filled _ _ _ _ _ hlink _ (by simp [Fill.desc])

theorem Underway.index_lt (h : Underway v c d0 b done todo) {i : Nat}
    (hi : i ∈ (v.postingAt c d0 b).post.links.map Prod.fst) : i < v.queueSize := by
  have hpos : 0 < v.queueSize := Nat.lt_of_le_of_lt (Nat.zero_le _) h.index
  have hnext := next_lt hpos
  rw [Virtqueue.postingAt, posting_links, Command.indices] at hi
  have hindex := h.index
  split at hi <;> simp only [List.mem_cons, List.not_mem_nil, or_false] at hi <;>
    rcases hi with rfl | rfl | rfl <;> first | exact hindex | exact hnext _

/-- Following the descriptors from the head visits those that were written, in order. -/
theorem Underway.chain_eq (hsize : 3 ≤ v.queueSize) (h : Underway v c d0 b done [])
    {fuel : Nat} (hfuel : v.queueSize ≤ fuel) :
    chain v.desc fuel (v.postingAt c d0 b).post.head =
      (v.postingAt c d0 b).post.links.map Prod.fst := by
  obtain ⟨fuel, rfl⟩ := Nat.exists_eq_add_of_le (Nat.le_trans hsize hfuel)
  rw [Nat.add_comm 3 fuel]
  have hlinks := h.links_hold
  have hhead : (v.postingAt c d0 b).post.head = d0 := posting_head _ _ _ _ _ h.first
  rw [hhead]
  cases c with
  | getDisplayInfo =>
    obtain rfl := h.first rfl
    have hone : v.getNextDescriptor 0 = 1 := Nat.mod_eq_of_lt (by omega)
    have h1 := hlinks (v.getNextDescriptor 0, responseDesc b 408)
      (List.mem_cons_of_mem _ (List.mem_cons_self ..))
    rw [hone] at h1
    apply (chain_two (hlinks (0, requestDesc b 24 1) (List.mem_cons_self ..)) h1 fuel).trans
    show [0, 1] = [0, v.getNextDescriptor 0]
    rw [hone]
  | connectResourceToMemory =>
    exact chain_three (hlinks _ (List.mem_cons_self ..))
      (hlinks _ (List.mem_cons_of_mem _ (List.mem_cons_self ..)))
      (hlinks _ (List.mem_cons_of_mem _ (List.mem_cons_of_mem _ (List.mem_cons_self ..)))) fuel
  | _ =>
    exact chain_two (hlinks _ (List.mem_cons_self ..))
      (hlinks _ (List.mem_cons_of_mem _ (List.mem_cons_self ..))) fuel

theorem posting_blocks (c : Command) (d0 d1 d2 : Nat) (b : Buffers) :
    (c.posting d0 d1 d2 b).post.links.map (fun link => link.2.addr) =
      if c.descriptors = 3 then [b.request, b.entry, b.response]
      else [b.request, b.response] := by
  cases c <;> rfl

theorem posting_flags (c : Command) (d0 d1 d2 : Nat) (b : Buffers) :
    (c.posting d0 d1 d2 b).post.links.map (fun link => link.2.flags) =
      List.replicate ((c.posting d0 d1 d2 b).post.links.length - 1) virtqDescFNext ++
        [virtqDescFWrite] := by
  cases c <;> rfl

theorem Underway.wellFormed (hsize : 3 ≤ v.queueSize) (h : Underway v c d0 b done []) :
    WellFormedChain v (v.postingAt c d0 b).post := by
  have hlinks := h.links_hold
  obtain ⟨hcommand, hbuffers⟩ : (v.postingAt c d0 b).post.command = c ∧
    (v.postingAt c d0 b).post.buffers = b := posting_post _ _ _ _ _
  refine ⟨fun fuel => h.chain_eq hsize, h.touched_iff, ?_, indices_nodup hsize c h.index b,
    fun i => h.index_lt, ?_, ?_⟩
  · cases c <;> rfl
  · rw [hcommand, hbuffers, List.map_congr_left fun link hlink => by rw [hlinks link hlink]]
    exact posting_blocks _ _ _ _ _
  · rw [List.map_congr_left fun link hlink => by rw [hlinks link hlink]]
    exact posting_flags _ _ _ _ _

theorem ChainInv.wellFormed (inv : ChainInv queueSize v) (hsize : 3 ≤ queueSize) {p : Post}
    (h : v.driver.current = some ([], p)) : WellFormedChain v p := by
  obtain ⟨c, d0, b, done, rfl, hunder⟩ := inv.current [] p h
  exact hunder.wellFormed (inv.size.symm ▸ hsize)

end published

theorem exists_publishing {queueSize : Nat} (todo : List Fill) (p : Post) {v : Virtqueue}
    (h : (queueSystem queueSize).Reachable v) (hdriver : v.driver = .filling todo p) :
    ∃ v', (queueSystem queueSize).Reachable v' ∧ v'.driver = .publishing p := by
  induction todo generalizing v with
  | nil =>
    have hstep : v.driverStep = some { v with
        ring := setAt v.ring (v.ringSlot p.command) p.head, driver := .publishing p } := by
      unfold Virtqueue.driverStep
      rw [hdriver]
    exact ⟨_, h.step (.driver hstep), rfl⟩
  | cons f todo ih =>
    have hstep : v.driverStep = some { v.fill f with driver := .filling todo p } := by
      unfold Virtqueue.driverStep
      rw [hdriver]
    exact ih (h.step (.driver hstep)) rfl

def emptyQueue : Virtqueue where
  queueSize := 64
  desc := fun _ => ⟨0, 0, 0, 0⟩
  availIdx := 0
  ring := fun _ => 0
  usedIdx := 0
  type := fun _ => 0
  descriptorIndex := 0
  usedSnapshot := 0
  driver := .idle
  lastSeen := 0
  device := .idle
  posted := []
  consumed := []
  answers := []
  completed := 0
  reads := []
  touched := []

theorem emptyQueue_start (b : Buffers) : QueueStart 64 (emptyQueue.begin .getDisplayInfo b) :=
  ⟨emptyQueue, b, rfl, rfl, rfl, rfl, rfl, rfl, rfl, rfl, rfl, rfl, rfl, rfl⟩

end SelfmadeOS
