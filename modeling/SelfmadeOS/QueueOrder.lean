import SelfmadeOS.QueueChains

/-!
# One command at a time

The indices of both sides count in 16 bits. What they count, and which chain is in flight, follows
from where the driver stands in its command.
-/

namespace SelfmadeOS
set_option autoImplicit false
open Transitions Virtqueue

/-- Every command that was posted is finished: its answer has been read. -/
structure AllRead (v : Virtqueue) : Prop where
  device : v.device = .idle
  consumed : v.consumed = v.posted
  answers : v.answers = v.reads
  completed : v.completed = v.reads.length
  posted : v.posted.length = v.reads.length

/-- The chain of `p` is complete, and its answer is in the response block. -/
structure Completed (v : Virtqueue) (p : Post) : Prop where
  device : v.device = .idle
  consumed : v.consumed = v.posted
  answers : v.answers = v.reads ++ [v.type p.buffers.response]
  completed : v.completed = v.reads.length + 1

/-- How far the device is with the chain of `p`. -/
inductive InFlight (v : Virtqueue) (p : Post) : Prop where
  | posted (device : v.device = .idle) (posted : v.posted = v.consumed ++ [p.head])
      (entry : v.ring (v.reads.length % v.queueSize) = p.head)
      (answers : v.answers = v.reads) (completed : v.completed = v.reads.length)
  | consumed (device : v.device = .consumed p.head) (consumed : v.consumed = v.posted)
      (answers : v.answers = v.reads) (completed : v.completed = v.reads.length)
  | answered (device : v.device = .answered p.head) (consumed : v.consumed = v.posted)
      (answers : v.answers = v.reads ++ [v.type p.buffers.response])
      (completed : v.completed = v.reads.length)
  | completed (h : Completed v p)

/-- The driver waits on the index that `used->idx` has before `p` is complete. -/
def WaitsOnOld (v : Virtqueue) (p : Post) : Prop :=
  v.waitsOn p.command = v.reads.length % 2 ^ 16

/-- The chain of `p` is the last that was posted, and the only one without an answer read. -/
def Newest (v : Virtqueue) (p : Post) : Prop := v.posted.drop v.reads.length = [p.head]

/-- Only the constructor's command comes before all others. -/
def FirstIsFirst (v : Virtqueue) (p : Post) : Prop := p.command = .getDisplayInfo ↔ v.reads = []

def DriverPhase.Agrees (v : Virtqueue) : DriverPhase → Prop
  | .idle => AllRead v ∧ v.reads ≠ []
  | .filling todo p => AllRead v ∧ FirstIsFirst v p ∧ (.usedIdx ∈ todo ∨ WaitsOnOld v p)
  | .publishing p => AllRead v ∧ FirstIsFirst v p ∧ WaitsOnOld v p ∧
      v.ring (v.reads.length % v.queueSize) = p.head
  | .notifying p => InFlight v p ∧ Newest v p ∧ WaitsOnOld v p
  | .waiting p => InFlight v p ∧ Newest v p ∧ WaitsOnOld v p
  | .reading p => Completed v p ∧ Newest v p

structure OrderInv (v : Virtqueue) : Prop where
  avail : v.availIdx = v.posted.length % 2 ^ 16
  used : v.usedIdx = v.completed % 2 ^ 16
  seen : v.lastSeen = v.consumed.length % 2 ^ 16
  driver : v.driver.Agrees v

section fills
variable (v : Virtqueue) (f : Fill)

/-- A store before the post is seen in no index, no list and no other state of a side. -/
structure SameOrder (v v' : Virtqueue) : Prop where
  queueSize : v'.queueSize = v.queueSize
  availIdx : v'.availIdx = v.availIdx
  usedIdx : v'.usedIdx = v.usedIdx
  lastSeen : v'.lastSeen = v.lastSeen
  device : v'.device = v.device
  posted : v'.posted = v.posted
  consumed : v'.consumed = v.consumed
  answers : v'.answers = v.answers
  completed : v'.completed = v.completed
  reads : v'.reads = v.reads

theorem fill_order (phase : DriverPhase) : SameOrder v { v.fill f with driver := phase } := by
  cases f <;> constructor <;> rfl

theorem fill_snapshot : (v.fill f).usedSnapshot =
    if f = .usedIdx then v.usedIdx else v.usedSnapshot := by
  cases f <;> rfl

theorem AllRead.of_same {v v' : Virtqueue} (h : AllRead v) (same : SameOrder v v') :
    AllRead v' := by
  refine ⟨same.device.trans h.device, ?_, ?_, ?_, ?_⟩
  · rw [same.consumed, same.posted, h.consumed]
  · rw [same.answers, same.reads, h.answers]
  · rw [same.completed, same.reads, h.completed]
  · rw [same.posted, same.reads, h.posted]

theorem posting_snapshot (c : Command) (d0 d1 d2 : Nat) (b : Buffers)
    (h : c ≠ .getDisplayInfo) : Fill.usedIdx ∈ (c.posting d0 d1 d2 b).fills := by
  cases c with
  | getDisplayInfo => exact absurd rfl h
  | connectResourceToMemory => simp [Command.posting, connectResourceToMemory]
  | _ =>
    simp [Command.posting, init2DFrameBuffer, setScanoutParam, transferToHost2dCommand,
      resourceFlushCommand, twoDescriptors]

end fills

section steps
variable {v v' : Virtqueue} {p : Post}

theorem Newest.length (h : Newest v p) : v.posted.length = v.reads.length + 1 := by
  have hdrop := congrArg List.length h
  rw [List.length_drop, List.length_singleton] at hdrop
  omega

theorem AllRead.last (h : AllRead v) (inv : OrderInv v) : v.lastSeen = v.availIdx := by
  rw [inv.seen, inv.avail, h.consumed]

theorem AllRead.no_consume (h : AllRead v) (inv : OrderInv v) : ¬v.lastSeen ≠ v.availIdx :=
  fun hnew => hnew (h.last inv)

theorem OrderInv.begin (inv : OrderInv v) (c : Command) (b : Buffers) (hidle : v.driver = .idle)
    (hfirst : c ≠ .getDisplayInfo) : OrderInv (v.begin c b) := by
  have hdriver := inv.driver
  rw [hidle] at hdriver
  obtain ⟨allRead, hreads⟩ := hdriver
  refine ⟨inv.avail, inv.used, inv.seen, ⟨?_, ?_, ?_⟩⟩
  · exact ⟨allRead.device, allRead.consumed, allRead.answers, allRead.completed, allRead.posted⟩
  · have hcommand := (posting_post c v.descriptorIndex
      (v.getNextDescriptor v.descriptorIndex)
      (v.getNextDescriptor (v.getNextDescriptor v.descriptorIndex)) b).1
    exact iff_of_false (hcommand.symm ▸ hfirst) hreads
  · exact Or.inl (posting_snapshot c _ _ _ b hfirst)

theorem OrderInv.fill (inv : OrderInv v) {f : Fill} {todo : List Fill}
    (hdriver : v.driver = .filling (f :: todo) p) :
    OrderInv { v.fill f with driver := .filling todo p } := by
  have hagrees := inv.driver
  rw [hdriver] at hagrees
  obtain ⟨allRead, first, hsnapshot⟩ := hagrees
  have same := fill_order v f (.filling todo p)
  have hreads := same.reads
  refine ⟨?_, ?_, ?_, allRead.of_same same, ?_, ?_⟩
  · rw [same.availIdx, same.posted, inv.avail]
  · rw [same.usedIdx, same.completed, inv.used]
  · rw [same.lastSeen, same.consumed, inv.seen]
  · unfold FirstIsFirst
    rw [hreads]
    exact first
  · have hused : v.usedIdx = v.reads.length % 2 ^ 16 := by rw [inv.used, allRead.completed]
    unfold WaitsOnOld Virtqueue.waitsOn at hsnapshot ⊢
    rw [hreads]
    dsimp only
    rw [fill_snapshot]
    by_cases hcommand : p.command = .getDisplayInfo
    · apply Or.inr
      rw [if_pos hcommand, first.mp hcommand]
      rfl
    · rw [if_neg hcommand] at hsnapshot ⊢
      by_cases hf : f = .usedIdx
      · exact Or.inr (by rw [if_pos hf, hused])
      · rw [if_neg hf]
        rcases hsnapshot with hmem | hold
        · exact Or.inl ((List.mem_cons.mp hmem).resolve_left (Ne.symm hf))
        · exact Or.inr hold

/-- With `2 ^ k` entries the ring is indexed alike by the 16-bit index and by the count. -/
theorem slot_count {k : Nat} (hk : k ≤ 16) (n : Nat) : n % 2 ^ 16 % 2 ^ k = n % 2 ^ k :=
  Nat.mod_mod_of_dvd n (Nat.pow_dvd_pow 2 hk)

theorem ringSlot_count {k : Nat} (hk : k ≤ 16) (hsize : v.queueSize = 2 ^ k)
    (inv : OrderInv v) (allRead : AllRead v) (first : FirstIsFirst v p) :
    v.ringSlot p.command = v.reads.length % v.queueSize := by
  unfold Virtqueue.ringSlot
  split
  · rename_i hcommand
    rw [first.mp hcommand]
    rfl
  · rw [inv.avail, allRead.posted, hsize, slot_count hk]

theorem OrderInv.store {k : Nat} (hk : k ≤ 16) (hsize : v.queueSize = 2 ^ k) (inv : OrderInv v)
    (hdriver : v.driver = .filling [] p) :
    OrderInv { v with
      ring := setAt v.ring (v.ringSlot p.command) p.head, driver := .publishing p } := by
  have hagrees := inv.driver
  rw [hdriver] at hagrees
  obtain ⟨allRead, first, hsnapshot⟩ := hagrees
  refine ⟨inv.avail, inv.used, inv.seen, ?_, first, ?_, ?_⟩
  · exact ⟨allRead.device, allRead.consumed, allRead.answers, allRead.completed, allRead.posted⟩
  · exact hsnapshot.resolve_left List.not_mem_nil
  · exact if_pos (ringSlot_count hk hsize inv allRead first).symm

theorem OrderInv.publish (inv : OrderInv v) (hdriver : v.driver = .publishing p) :
    OrderInv { v with
      availIdx := v.nextAvail p.command, posted := v.posted ++ [p.head],
      driver := .notifying p } := by
  have hagrees := inv.driver
  rw [hdriver] at hagrees
  obtain ⟨allRead, first, hold, hentry⟩ := hagrees
  have hlength : (v.posted ++ [p.head]).length = v.reads.length + 1 := by
    rw [List.length_append, allRead.posted]
    rfl
  refine ⟨?_, inv.used, inv.seen, ?_, ?_, hold⟩
  · show v.nextAvail p.command = (v.posted ++ [p.head]).length % 2 ^ 16
    rw [hlength]
    unfold Virtqueue.nextAvail
    split
    · rename_i hcommand
      rw [first.mp hcommand]
      rfl
    · rw [inv.avail, allRead.posted, Nat.mod_add_mod]
  · refine .posted allRead.device ?_ hentry allRead.answers allRead.completed
    show v.posted ++ [p.head] = v.consumed ++ [p.head]
    rw [allRead.consumed]
  · show (v.posted ++ [p.head]).drop v.reads.length = [p.head]
    rw [← allRead.posted, List.drop_left]

theorem InFlight.wait_ends (h : InFlight v p) (inv : OrderInv v) (hold : WaitsOnOld v p) :
    v.usedIdx ≠ v.waitsOn p.command → Completed v p := by
  intro hne
  rw [hold, inv.used] at hne
  cases h with
  | posted _ _ _ _ completed => exact absurd (by rw [completed]) hne
  | consumed _ _ _ completed => exact absurd (by rw [completed]) hne
  | answered _ _ _ completed => exact absurd (by rw [completed]) hne
  | completed h => exact h

theorem OrderInv.wait (inv : OrderInv v) (hdriver : v.driver = .waiting p)
    (hne : v.usedIdx ≠ v.waitsOn p.command) : OrderInv { v with driver := .reading p } := by
  have hagrees := inv.driver
  rw [hdriver] at hagrees
  obtain ⟨flight, hposted, hold⟩ := hagrees
  have h := flight.wait_ends inv hold hne
  exact ⟨inv.avail, inv.used, inv.seen, ⟨h.device, h.consumed, h.answers, h.completed⟩, hposted⟩

theorem OrderInv.read (inv : OrderInv v) (hdriver : v.driver = .reading p) :
    OrderInv { v with reads := v.reads ++ [v.type p.buffers.response], driver := .idle } := by
  have hagrees := inv.driver
  rw [hdriver] at hagrees
  obtain ⟨h, hposted⟩ := hagrees
  have hlength : (v.reads ++ [v.type p.buffers.response]).length = v.reads.length + 1 :=
    List.length_append
  refine ⟨inv.avail, inv.used, inv.seen, ⟨h.device, h.consumed, h.answers, ?_, ?_⟩, ?_⟩
  · exact h.completed.trans hlength.symm
  · exact hposted.length.trans hlength.symm
  · exact List.concat_ne_nil _ _

theorem OrderInv.driver_step {k : Nat} (hk : k ≤ 16) (hsize : v.queueSize = 2 ^ k)
    (inv : OrderInv v) (h : v.driverStep = some v') : OrderInv v' := by
  unfold Virtqueue.driverStep at h
  split at h
  case h_1 => cases h
  case h_2 f todo p hdriver =>
    obtain rfl := Option.some.inj h
    exact inv.fill hdriver
  case h_3 p hdriver =>
    obtain rfl := Option.some.inj h
    exact inv.store hk hsize hdriver
  case h_4 p hdriver =>
    obtain rfl := Option.some.inj h
    exact inv.publish hdriver
  case h_5 p hdriver =>
    obtain rfl := Option.some.inj h
    have hagrees := inv.driver
    rw [hdriver] at hagrees
    obtain ⟨flight, hposted, hold⟩ := hagrees
    refine ⟨inv.avail, inv.used, inv.seen, ?_, hposted, hold⟩
    cases flight with
    | posted device posted entry answers completed =>
      exact .posted device posted entry answers completed
    | consumed device consumed answers completed =>
      exact .consumed device consumed answers completed
    | answered device consumed answers completed =>
      exact .answered device consumed answers completed
    | completed h => exact .completed ⟨h.device, h.consumed, h.answers, h.completed⟩
  case h_6 p hdriver =>
    split at h
    · cases h
    · rename_i hne
      obtain rfl := Option.some.inj h
      exact inv.wait hdriver hne
  case h_7 p hdriver =>
    obtain rfl := Option.some.inj h
    exact inv.read hdriver

theorem OrderInv.in_flight (inv : OrderInv v)
    (hwork : v.device ≠ .idle ∨ v.lastSeen ≠ v.availIdx) :
    ∃ p, (v.driver = .notifying p ∨ v.driver = .waiting p) ∧ InFlight v p ∧
      Newest v p ∧ WaitsOnOld v p := by
  have settled_absurd : ¬AllRead v := by
    intro h
    rcases hwork with hdevice | hnew
    · exact hdevice h.device
    · exact h.no_consume inv hnew
  have hagrees := inv.driver
  cases hdriver : v.driver with
  | idle =>
    rw [hdriver] at hagrees
    exact absurd hagrees.1 settled_absurd
  | filling todo p =>
    rw [hdriver] at hagrees
    exact absurd hagrees.1 settled_absurd
  | publishing p =>
    rw [hdriver] at hagrees
    exact absurd hagrees.1 settled_absurd
  | notifying p =>
    rw [hdriver] at hagrees
    exact ⟨p, Or.inl rfl, hagrees⟩
  | waiting p =>
    rw [hdriver] at hagrees
    exact ⟨p, Or.inr rfl, hagrees⟩
  | reading p =>
    rw [hdriver] at hagrees
    obtain ⟨h, -⟩ := hagrees
    rcases hwork with hdevice | hnew
    · exact absurd h.device hdevice
    · exact absurd (by rw [inv.seen, inv.avail, h.consumed]) hnew

theorem agrees_in_flight {phase : DriverPhase} (hphase : phase = .notifying p ∨ phase = .waiting p)
    (flight : InFlight v p) (hposted : Newest v p) (hold : WaitsOnOld v p) : phase.Agrees v := by
  rcases hphase with rfl | rfl <;> exact ⟨flight, hposted, hold⟩

theorem OrderInv.consume {k : Nat} (hk : k ≤ 16) (hsize : v.queueSize = 2 ^ k)
    (inv : OrderInv v) (hidle : v.device = .idle) (hnew : v.lastSeen ≠ v.availIdx) :
    OrderInv v.consume := by
  obtain ⟨p, hphase, flight, hposted, hold⟩ := inv.in_flight (Or.inr hnew)
  have hseen : v.consume.lastSeen = v.consume.consumed.length % 2 ^ 16 := by
    show (v.lastSeen + 1) % 2 ^ 16 = (v.consumed ++ [_]).length % 2 ^ 16
    rw [List.length_append, inv.seen, Nat.mod_add_mod]
    rfl
  refine ⟨inv.avail, inv.used, hseen, agrees_in_flight hphase ?_ hposted hold⟩
  cases flight with
  | posted _ posted entry answers completed =>
    have hcount : v.consumed.length = v.reads.length := by
      have hlength := hposted.length
      rw [posted, List.length_append] at hlength
      exact Nat.succ.inj hlength
    have hhead : v.ring (v.lastSeen % v.queueSize) = p.head := by
      rw [inv.seen, hcount, hsize, slot_count hk, ← hsize, entry]
    refine .consumed ?_ ?_ answers completed
    · show DevicePhase.consumed (v.ring (v.lastSeen % v.queueSize)) = _
      rw [hhead]
    · show v.consumed ++ [v.ring (v.lastSeen % v.queueSize)] = v.posted
      rw [hhead, posted]
  | consumed device => exact absurd (hidle.symm.trans device) (by simp)
  | answered device => exact absurd (hidle.symm.trans device) (by simp)
  | completed h => exact absurd (by rw [inv.seen, inv.avail, h.consumed]) hnew

theorem WellFormedChain.responseAddress_eq (h : WellFormedChain v p) :
    v.responseAddress p.head = p.buffers.response := by
  have hblocks := h.blocks
  have hlength := h.count
  unfold Virtqueue.responseAddress
  rw [h.visits _ (Nat.le_refl _)]
  by_cases hthree : p.command.descriptors = 3
  · obtain ⟨l0, l1, l2, heq⟩ := List.length_eq_three.mp (hlength.trans hthree)
    rw [if_pos hthree, heq] at hblocks
    rw [heq]
    exact (List.cons.inj (List.cons.inj (List.cons.inj hblocks).2).2).1
  · have htwo : p.command.descriptors = 2 := by
      cases hcommand : p.command <;> rw [hcommand] at hthree <;>
        first | rfl | exact absurd rfl hthree
    obtain ⟨l0, l1, heq⟩ := List.length_eq_two.mp (hlength.trans htwo)
    rw [if_neg hthree, heq] at hblocks
    rw [heq]
    exact (List.cons.inj (List.cons.inj hblocks).2).1

theorem OrderInv.answer {head : Nat} (value : Nat) (inv : OrderInv v)
    (hchain : ∀ q, v.driver.current = some ([], q) → WellFormedChain v q)
    (hdevice : v.device = .consumed head) : OrderInv (v.answer head value) := by
  obtain ⟨p, hphase, flight, hposted, hold⟩ := inv.in_flight (Or.inl (by rw [hdevice]; simp))
  refine ⟨inv.avail, inv.used, inv.seen, agrees_in_flight hphase ?_ hposted hold⟩
  cases flight with
  | consumed device consumed answers completed =>
    obtain rfl := DevicePhase.consumed.inj (hdevice.symm.trans device)
    refine .answered rfl consumed ?_ completed
    have hcurrent : v.driver.current = some ([], p) := by
      rcases hphase with h | h <;> rw [h] <;> rfl
    show v.answers ++ [value] =
      v.reads ++ [setAt v.type (v.responseAddress p.head) value p.buffers.response]
    rw [(hchain p hcurrent).responseAddress_eq, answers]
    simp [setAt]
  | posted device => exact absurd (hdevice.symm.trans device) (by simp)
  | answered device => exact absurd (hdevice.symm.trans device) (by simp)
  | completed h => exact absurd (hdevice.symm.trans h.device) (by simp)

theorem OrderInv.complete {head : Nat} (inv : OrderInv v) (hdevice : v.device = .answered head) :
    OrderInv v.complete := by
  obtain ⟨p, hphase, flight, hposted, hold⟩ := inv.in_flight (Or.inl (by rw [hdevice]; simp))
  have hused : v.complete.usedIdx = v.complete.completed % 2 ^ 16 := by
    show (v.usedIdx + 1) % 2 ^ 16 = (v.completed + 1) % 2 ^ 16
    rw [inv.used, Nat.mod_add_mod]
  refine ⟨inv.avail, hused, inv.seen, agrees_in_flight hphase ?_ hposted hold⟩
  cases flight with
  | answered device consumed answers completed =>
    exact .completed ⟨rfl, consumed, answers, congrArg Nat.succ completed⟩
  | posted device => exact absurd (hdevice.symm.trans device) (by simp)
  | consumed device => exact absurd (hdevice.symm.trans device) (by simp)
  | completed h => exact absurd (hdevice.symm.trans h.device) (by simp)

end steps

section runs
variable {k : Nat} {v v' : Virtqueue}

theorem OrderInv.step (hlow : 2 ≤ k) (hk : k ≤ 16) (chains : ChainInv (2 ^ k) v)
    (inv : OrderInv v) (h : QueueStep v v') : OrderInv v' := by
  have hsize : 3 ≤ 2 ^ k := Nat.le_trans (by decide) (Nat.pow_le_pow_right (by decide) hlow)
  cases h with
  | begin c b hidle hfirst => exact inv.begin c b hidle hfirst
  | driver h => exact inv.driver_step hk chains.size h
  | consume hidle hnew => exact inv.consume hk chains.size hidle hnew
  | answer value hdevice =>
    exact inv.answer value (fun q hcurrent => chains.wellFormed hsize hcurrent) hdevice
  | complete hdevice => exact inv.complete hdevice

theorem orderInv_start {queueSize : Nat} (h : QueueStart queueSize v) : OrderInv v := by
  obtain ⟨u, b, rfl, -, -, havail, hused, hseen, hdevice, hposted, hconsumed, hanswers,
    hcompleted, hreads⟩ := h.command
  have allRead : AllRead (u.begin .getDisplayInfo b) := by
    refine ⟨hdevice, hconsumed.trans hposted.symm, hanswers.trans hreads.symm, ?_, ?_⟩
    · show u.completed = u.reads.length
      rw [hcompleted, hreads]
      rfl
    · show u.posted.length = u.reads.length
      rw [hposted, hreads]
  refine ⟨?_, ?_, ?_, allRead, iff_of_true rfl hreads, Or.inr ?_⟩
  · show u.availIdx = u.posted.length % 2 ^ 16
    rw [havail, hposted]
    rfl
  · show u.usedIdx = u.completed % 2 ^ 16
    rw [hcompleted]
    exact hused
  · show u.lastSeen = u.consumed.length % 2 ^ 16
    rw [hseen, hconsumed]
    rfl
  · show 0 = u.reads.length % 2 ^ 16
    rw [hreads]
    rfl

theorem orderInv_reachable (hlow : 2 ≤ k) (hk : k ≤ 16)
    (h : (queueSystem (2 ^ k)).Reachable v) : OrderInv v := by
  have hsize : 3 ≤ 2 ^ k := Nat.le_trans (by decide) (Nat.pow_le_pow_right (by decide) hlow)
  exact h.invariant_with (p := OrderInv) (fun _ => chainInv_reachable hsize)
    (fun _ => orderInv_start) fun _ _ chains inv hstep => inv.step hlow hk chains hstep

end runs

/-- What "one command at a time" says of a state. -/
structure OneAtATime (v : Virtqueue) : Prop where
  /-- The device has consumed posted heads only, each once and in the order of posting. -/
  order : v.consumed <+: v.posted
  /-- It misses none: with nothing left to see it has consumed them all. -/
  none_lost : v.lastSeen = v.availIdx → v.consumed = v.posted
  one_in_flight : (v.posted.drop v.completed).length ≤ 1
  /-- No store goes to a descriptor of a chain in flight. -/
  untouched : ∀ f todo p i, v.driver = .filling (f :: todo) p → f.index = some i →
    ∀ head ∈ v.posted.drop v.completed, i ∉ chain v.desc v.queueSize head
  /-- The wait goes on exactly while the command's own chain is in flight. -/
  waits : ∀ p, v.driver = .waiting p →
    (v.usedIdx = v.waitsOn p.command ↔ v.posted.drop v.completed = [p.head])
  /-- The answer that is read is the one to this command. -/
  own_answer : ∀ p, v.driver = .reading p →
    v.answers = v.reads ++ [v.type p.buffers.response]
  answers_read : v.reads <+: v.answers

section results
variable {k : Nat} {v : Virtqueue} {p : Post}

/-- Before a command is posted none is in flight, and once it is posted it is the only one. -/
inductive Standing (v : Virtqueue) : Prop where
  | allRead (allRead : AllRead v)
      (driver : v.driver.current = none ∨ ∃ todo q, v.driver = .filling todo q ∨
        v.driver = .publishing q)
  | flight (p : Post) (flight : InFlight v p) (newest : Newest v p) (hold : WaitsOnOld v p)
      (driver : v.driver = .notifying p ∨ v.driver = .waiting p)
  | completed (p : Post) (completed : Completed v p) (newest : Newest v p)
      (driver : v.driver = .reading p)

theorem OrderInv.standing (inv : OrderInv v) : Standing v := by
  have hagrees := inv.driver
  cases hdriver : v.driver with
  | idle =>
    rw [hdriver] at hagrees
    exact .allRead hagrees.1 (Or.inl (by rw [hdriver]; rfl))
  | filling todo p =>
    rw [hdriver] at hagrees
    exact .allRead hagrees.1 (Or.inr ⟨todo, p, Or.inl hdriver⟩)
  | publishing p =>
    rw [hdriver] at hagrees
    exact .allRead hagrees.1 (Or.inr ⟨[], p, Or.inr hdriver⟩)
  | notifying p =>
    rw [hdriver] at hagrees
    exact .flight p hagrees.1 hagrees.2.1 hagrees.2.2 (Or.inl hdriver)
  | waiting p =>
    rw [hdriver] at hagrees
    exact .flight p hagrees.1 hagrees.2.1 hagrees.2.2 (Or.inr hdriver)
  | reading p =>
    rw [hdriver] at hagrees
    exact .completed p hagrees.1 hagrees.2 hdriver

theorem InFlight.consumed_prefix (h : InFlight v p) : v.consumed <+: v.posted := by
  cases h with
  | posted _ posted => exact posted ▸ List.prefix_append _ _
  | consumed _ consumed => exact consumed ▸ List.prefix_rfl
  | answered _ consumed => exact consumed ▸ List.prefix_rfl
  | completed h => exact h.consumed ▸ List.prefix_rfl

theorem InFlight.reads_prefix (h : InFlight v p) : v.reads <+: v.answers := by
  cases h with
  | posted _ _ _ answers => exact answers ▸ List.prefix_rfl
  | consumed _ _ answers => exact answers ▸ List.prefix_rfl
  | answered _ _ answers => exact answers ▸ List.prefix_append _ _
  | completed h => exact h.answers ▸ List.prefix_append _ _

theorem InFlight.unfinished (h : InFlight v p) (newest : Newest v p) :
    v.completed = v.reads.length ∧ v.posted.drop v.completed = [p.head] ∨
      v.completed = v.reads.length + 1 ∧ v.posted.drop v.completed = [] := by
  have hdone : v.completed = v.reads.length →
      v.completed = v.reads.length ∧ v.posted.drop v.completed = [p.head] :=
    fun heq => ⟨heq, heq ▸ newest⟩
  cases h with
  | posted _ _ _ _ completed => exact Or.inl (hdone completed)
  | consumed _ _ _ completed => exact Or.inl (hdone completed)
  | answered _ _ _ completed => exact Or.inl (hdone completed)
  | completed h =>
    refine Or.inr ⟨h.completed, List.drop_eq_nil_of_le (Nat.le_of_eq ?_)⟩
    rw [h.completed, newest.length]

theorem AllRead.none_in_flight (h : AllRead v) : v.posted.drop v.completed = [] := by
  refine List.drop_eq_nil_of_le (Nat.le_of_eq ?_)
  rw [h.completed, h.posted]

theorem Completed.none_in_flight (h : Completed v p) (newest : Newest v p) :
    v.posted.drop v.completed = [] := by
  refine List.drop_eq_nil_of_le (Nat.le_of_eq ?_)
  rw [h.completed, newest.length]

/-- An index that has gone round agrees with the count it stands for, one step away. -/
theorem index_succ_ne (n : Nat) : (n + 1) % 2 ^ 16 ≠ n % 2 ^ 16 := by
  omega

theorem OrderInv.none_lost (inv : OrderInv v) (h : v.lastSeen = v.availIdx) :
    v.consumed = v.posted := by
  cases inv.standing with
  | allRead allRead => exact allRead.consumed
  | completed p completed => exact completed.consumed
  | flight p flight newest =>
    cases flight with
    | posted _ posted =>
      rw [inv.seen, inv.avail, posted, List.length_append] at h
      exact absurd h.symm (index_succ_ne _)
    | consumed _ consumed => exact consumed
    | answered _ consumed => exact consumed
    | completed h => exact h.consumed

theorem OrderInv.waits (inv : OrderInv v) (hdriver : v.driver = .waiting p) :
    v.usedIdx = v.waitsOn p.command ↔ v.posted.drop v.completed = [p.head] := by
  have hagrees := inv.driver
  rw [hdriver] at hagrees
  obtain ⟨flight, newest, hold⟩ := hagrees
  rw [inv.used, hold]
  rcases flight.unfinished newest with ⟨hcompleted, hdrop⟩ | ⟨hcompleted, hdrop⟩
  · exact iff_of_true (by rw [hcompleted]) hdrop
  · refine iff_of_false ?_ (by rw [hdrop]; exact (List.cons_ne_nil _ _).symm)
    rw [hcompleted]
    exact index_succ_ne _

theorem OrderInv.oneAtATime (inv : OrderInv v) : OneAtATime v := by
  refine ⟨?_, inv.none_lost, ?_, ?_, fun p => inv.waits, ?_, ?_⟩
  · cases inv.standing with
    | allRead allRead => exact allRead.consumed ▸ List.prefix_rfl
    | flight p flight => exact flight.consumed_prefix
    | completed p completed => exact completed.consumed ▸ List.prefix_rfl
  · cases inv.standing with
    | allRead allRead => exact allRead.none_in_flight ▸ Nat.zero_le 1
    | flight p flight newest =>
      rcases flight.unfinished newest with ⟨-, hdrop⟩ | ⟨-, hdrop⟩ <;> simp [hdrop]
    | completed p completed newest => exact completed.none_in_flight newest ▸ Nat.zero_le 1
  · intro f todo p i hdriver _ head hhead
    have hagrees := inv.driver
    rw [hdriver] at hagrees
    rw [hagrees.1.none_in_flight] at hhead
    exact absurd hhead List.not_mem_nil
  · intro p hdriver
    have hagrees := inv.driver
    rw [hdriver] at hagrees
    exact hagrees.1.answers
  · cases inv.standing with
    | allRead allRead => exact allRead.answers ▸ List.prefix_rfl
    | flight p flight => exact flight.reads_prefix
    | completed p completed => exact completed.answers ▸ List.prefix_append _ _

end results

/-- In every run over a ring of `2 ^ k` entries commands are served one at a time. -/
theorem commands_oneAtATime {k : Nat} (hlow : 2 ≤ k) (hk : k ≤ 16) {v : Virtqueue}
    (h : (queueSystem (2 ^ k)).Reachable v) : OneAtATime v :=
  (orderInv_reachable hlow hk h).oneAtATime

theorem exists_waiting {queueSize : Nat} {v : Virtqueue} {p : Post}
    (h : (queueSystem queueSize).Reachable v) (hdriver : v.driver = .publishing p) :
    ∃ v', (queueSystem queueSize).Reachable v' ∧ v'.driver = .waiting p := by
  have hpublish : v.driverStep = some { v with
      availIdx := v.nextAvail p.command, posted := v.posted ++ [p.head],
      driver := .notifying p } := by
    unfold Virtqueue.driverStep
    rw [hdriver]
  exact ⟨_, (h.step (.driver hpublish)).step (.driver rfl), rfl⟩

/-- The driver waits for the answer to its first command. -/
theorem commands_oneAtATime_first : ∃ v p, (queueSystem (2 ^ 6)).Reachable v ∧
    v.driver = .waiting p ∧ OneAtATime v := by
  obtain ⟨u, hreach, hdriver⟩ :=
    exists_publishing _ _ (.start (emptyQueue_start ⟨0x1000, 0x2000, 0x3000⟩)) rfl
  obtain ⟨v, hreach', hwaiting⟩ := exists_waiting hreach hdriver
  exact ⟨v, _, hreach', hwaiting, commands_oneAtATime (k := 6) (by decide) (by decide) hreach'⟩

end SelfmadeOS
