import SelfmadeOS.GpuDevice
import SelfmadeOS.GpuSession

/-!
# Commands are served as if at once

While a command is under way the world stands where the command has got to: its stores so far,
or all of them, or those and the answer. When the driver is idle again, the world is that of the
commands served one after the other, without a queue.
-/

namespace SelfmadeOS
set_option autoImplicit false
open ByteMemory Records Transitions Virtqueue

variable {σ : Type} {execute : Executes σ}

section plans
variable (w : World σ) (c : Command) (d0 d1 d2 : Nat) (b : Buffers) (memory2d : Nat)

theorem World.storeAll_append (w : World σ) (first second : List DriverStore) :
    w.storeAll (first ++ second) = (w.storeAll first).storeAll second := List.foldl_append

theorem World.storeAll_concat (w : World σ) (done : List DriverStore) (d : DriverStore) :
    w.storeAll (done ++ [d]) = (w.storeAll done).store d := w.storeAll_append done [d]

/-- The last value that a list of stores gives to `display`. -/
def DriverStore.displayAfter (display : Nat) : DriverStore → Nat
  | .display address => address
  | _ => display

theorem World.storeAll_eq (w : World σ) (stores : List DriverStore) : w.storeAll stores =
    ⟨Records.storeAll w.mem (stores.flatMap DriverStore.stores), w.device,
      stores.foldl DriverStore.displayAfter w.display⟩ := by
  induction stores generalizing w with
  | nil => rfl
  | cons d stores ih =>
    rw [List.flatMap_cons, Records.storeAll_append]
    cases d <;> exact ih _

theorem plan_display (display : Nat) :
    (c.plan d0 d1 d2 b memory2d).foldl DriverStore.displayAfter display =
      if c = .connectResourceToMemory then memory2d else display := by
  cases c <;> rfl

theorem filled_eq : w.storeAll (c.plan d0 d1 d2 b memory2d) = w.filled c b memory2d := by
  unfold World.filled
  rw [World.storeAll_eq, World.storeAll_eq, plan_stores, plan_stores, plan_display, plan_display]

theorem filled_mem : (w.filled c b memory2d).mem = storeAll w.mem (c.stores b memory2d) := by
  rw [World.filled, World.storeAll_eq, plan_stores]

theorem filled_device : (w.filled c b memory2d).device = w.device := by
  rw [World.filled, World.storeAll_eq]

theorem serveAll_concat (s : Outcome σ) (ops : List GpuOp) (op : GpuOp) :
    s.serveAll execute (ops ++ [op]) = (s.serveAll execute ops).serve execute op := by
  unfold Outcome.serveAll
  rw [List.foldl_append]
  rfl

end plans

section queue
variable {queueSize : Nat} {world : World σ} {x x' : Session σ}

theorem SessionStep.queue (h : SessionStep execute x x') :
    x'.queue = x.queue ∨ QueueStep x.queue x'.queue := by
  cases h with
  | store s hidle => exact Or.inl rfl
  | begin c b memory2d hidle hfirst => exact Or.inr (.begin c b hidle hfirst)
  | plain hplan hplain => exact Or.inl rfl
  | fill hplan hdriver => exact Or.inr (.driver hdriver)
  | driver hplan hdriver => exact Or.inr (.driver hdriver)
  | consume hidle hnew => exact Or.inr (.consume hidle hnew)
  | answer hdevice => exact Or.inr (.answer _ hdevice)
  | complete hdevice => exact Or.inr (.complete hdevice)

theorem session_queue (h : (sessionSystem execute queueSize world).Reachable x) :
    (queueSystem queueSize).Reachable x.queue := by
  induction h with
  | start h => exact .start h.queue
  | step _ hstep ih =>
    rcases hstep.queue with hsame | hqueue
    · exact hsame ▸ ih
    · exact .step ih hqueue

end queue

section chains
variable {queueSize : Nat} {v : Virtqueue} {p : Post}

theorem posting_responseLen (c : Command) (d0 d1 d2 : Nat) (b : Buffers) :
    (((c.posting d0 d1 d2 b).post.links.map Prod.snd).getLastD ⟨0, 0, 0, 0⟩).len =
      c.responseLen := by
  cases c <;> rfl

theorem ChainInv.chain_desc (inv : ChainInv queueSize v) (hsize : 3 ≤ queueSize)
    (h : v.driver.current = some ([], p)) :
    (chain v.desc v.queueSize p.head).map v.desc = p.links.map Prod.snd ∧
      ∃ d0 d1 d2, p = (p.command.posting d0 d1 d2 p.buffers).post := by
  have hvisits := (inv.wellFormed hsize h).visits _ (Nat.le_refl _)
  obtain ⟨c, d0, b, done, rfl, hunder⟩ := inv.current [] p h
  obtain ⟨hcommand, hbuffers⟩ : (v.postingAt c d0 b).post.command = c ∧
    (v.postingAt c d0 b).post.buffers = b := posting_post _ _ _ _ _
  constructor
  · rw [hvisits, List.map_map]
    exact List.map_congr_left fun link hlink => hunder.links_hold link hlink
  · rw [hcommand, hbuffers]
    exact ⟨_, _, _, rfl⟩

theorem ChainInv.chainParts_eq (inv : ChainInv queueSize v) (hsize : 3 ≤ queueSize)
    (h : v.driver.current = some ([], p)) :
    v.chainParts p.head = p.command.parts p.buffers := by
  obtain ⟨hdesc, d0, d1, d2, hpost⟩ := inv.chain_desc hsize h
  have hparts := posting_parts p.command d0 d1 d2 p.buffers
  rw [← hpost] at hparts
  rw [Virtqueue.chainParts, hdesc, ← hparts, List.filter_map, List.map_map]
  rfl

theorem ChainInv.responseLength_eq (inv : ChainInv queueSize v) (hsize : 3 ≤ queueSize)
    (h : v.driver.current = some ([], p)) :
    v.responseLength p.head = p.command.responseLen := by
  obtain ⟨hdesc, d0, d1, d2, hpost⟩ := inv.chain_desc hsize h
  have hlen := posting_responseLen p.command d0 d1 d2 p.buffers
  rw [← hpost, ← hdesc] at hlen
  rw [Virtqueue.responseLength, ← hlen]
  have hvisits := (inv.wellFormed hsize h).visits _ (Nat.le_refl _)
  rw [hvisits, hpost]
  cases p.command <;> rfl

end chains

def DriverPhase.Posted : DriverPhase → Prop
  | .idle => False
  | .filling _ _ => False
  | _ => True

def Session.outcome (x : Session σ) : Outcome σ := ⟨x.world, x.queue.reads⟩

/-- The command under way, and what was served before it. -/
structure Current (execute : Executes σ) (world : World σ) (x : Session σ) (p : Post)
    (before : Outcome σ) (memory2d : Nat) : Prop where
  history : ∃ ops, x.history = ops ++ [.command p.command p.buffers memory2d] ∧
    before = (Outcome.mk world []).serveAll execute ops
  reads : x.queue.reads = before.reads
  allocated : (GpuOp.command p.command p.buffers memory2d).Allocated

/-- How far the device is with a command whose stores are all done. -/
inductive Serving (execute : Executes σ) (world : World σ) (x : Session σ) (p : Post) : Prop where
  | posted {before : Outcome σ} {memory2d : Nat}
      (current : Current execute world x p before memory2d)
      (answers : x.queue.answers = x.queue.reads)
      (stored : x.world = before.world.filled p.command p.buffers memory2d)
  | answered {before : Outcome σ} {memory2d : Nat}
      (current : Current execute world x p before memory2d)
      (answers : x.queue.answers ≠ x.queue.reads)
      (stored : x.world =
        (before.world.filled p.command p.buffers memory2d).answered execute p.command p.buffers)
      (type : x.queue.type p.buffers.response = loadBytes x.world.mem p.buffers.response 4)

inductive Stage (execute : Executes σ) (world : World σ) (x : Session σ) : Prop where
  | idle (driver : x.queue.driver = .idle) (plan : x.plan = [])
      (outcome : x.outcome = (Outcome.mk world []).serveAll execute x.history)
  | filling {p : Post} {before : Outcome σ} {memory2d : Nat} {todo : List Fill}
      {done : List DriverStore} (current : Current execute world x p before memory2d)
      (driver : x.queue.driver = .filling todo p)
      (plan : ∃ d0 d1 d2, p.command.plan d0 d1 d2 p.buffers memory2d = done ++ x.plan)
      (fills : x.plan.flatMap DriverStore.fills = todo)
      (stored : x.world = before.world.storeAll done)
  | serving {p : Post} (driver : x.queue.driver.current = some ([], p)) (plan : x.plan = [])
      (serving : Serving execute world x p)

section stages
variable {world : World σ} {x : Session σ} {v : Virtqueue} {p : Post} {before : Outcome σ}
variable {memory2d : Nat}

/-- A step of the queue that neither reads nor answers. -/
structure SameAnswers (v v' : Virtqueue) : Prop where
  reads : v'.reads = v.reads
  answers : v'.answers = v.answers
  type : v'.type = v.type

theorem Current.of_queue (h : Current execute world x p before memory2d)
    (hreads : v.reads = x.queue.reads) :
    Current execute world { x with queue := v } p before memory2d :=
  ⟨h.history, hreads.trans h.reads, h.allocated⟩

theorem Serving.of_queue (h : Serving execute world x p) (same : SameAnswers x.queue v) :
    Serving execute world { x with queue := v } p := by
  cases h with
  | posted current answers stored =>
    refine .posted (current.of_queue same.reads) ?_ stored
    exact same.answers.trans (answers.trans same.reads.symm)
  | answered current answers stored type =>
    refine .answered (current.of_queue same.reads) ?_ stored ?_
    · rw [same.answers, same.reads]
      exact answers
    · rw [same.type]
      exact type

/-- The steps of the device besides the answer leave a stage as it is. -/
theorem Stage.of_queue (h : Stage execute world x) (same : SameAnswers x.queue v)
    (hdriver : v.driver = x.queue.driver) : Stage execute world { x with queue := v } := by
  cases h with
  | idle driver plan outcome =>
    refine .idle (hdriver.trans driver) plan ?_
    rw [← outcome]
    exact congrArg (Outcome.mk x.world) same.reads
  | filling current driver plan fills stored =>
    exact .filling (current.of_queue same.reads) (hdriver.trans driver) plan fills stored
  | serving driver plan serving =>
    exact .serving (hdriver ▸ driver) plan (serving.of_queue same)

theorem Stage.serves (h : Stage execute world x) (order : OrderInv x.queue)
    (hplan : x.plan = []) (hcurrent : x.queue.driver.current = some ([], p)) :
    Serving execute world x p := by
  cases h with
  | idle driver =>
    rw [driver] at hcurrent
    cases hcurrent
  | filling current driver plan fills stored =>
    obtain ⟨d0, d1, d2, hdone⟩ := plan
    have hagrees := order.driver
    rw [driver] at hagrees hcurrent
    obtain ⟨-, rfl⟩ := Prod.mk.inj (Option.some.inj hcurrent)
    rw [hplan, List.append_nil] at hdone
    refine .posted current hagrees.1.answers ?_
    rw [stored, ← hdone, filled_eq]
  | serving driver _ serving =>
    obtain ⟨-, rfl⟩ := Prod.mk.inj (Option.some.inj (driver.symm.trans hcurrent))
    exact serving

end stages

section steps
variable {world : World σ} {x x' : Session σ} {v : Virtqueue} {p : Post}

theorem Stage.driver_idle (h : Stage execute world x) (hidle : x.queue.driver = .idle) :
    x.plan = [] ∧ x.outcome = (Outcome.mk world []).serveAll execute x.history := by
  cases h with
  | idle _ plan outcome => exact ⟨plan, outcome⟩
  | filling _ driver => exact absurd (hidle.symm.trans driver) (by simp)
  | serving driver =>
    rw [hidle] at driver
    cases driver

theorem Stage.begin (c : Command) (b : Buffers) (memory2d : Nat)
    (houtcome : x.outcome = (Outcome.mk world []).serveAll execute x.history)
    (hallocated : (GpuOp.command c b memory2d).Allocated) :
    Stage execute world (x.begin c b memory2d) := by
  obtain ⟨hcommand, hbuffers⟩ :
    (x.queue.postingAt c x.queue.descriptorIndex b).post.command = c ∧
      (x.queue.postingAt c x.queue.descriptorIndex b).post.buffers = b := posting_post _ _ _ _ _
  have hcurrent : Current execute world (x.begin c b memory2d)
      (x.queue.postingAt c x.queue.descriptorIndex b).post x.outcome memory2d := by
    refine ⟨⟨x.history, ?_, houtcome⟩, rfl, ?_⟩ <;> rw [hcommand, hbuffers]
    · rfl
    · exact hallocated
  have hplan : ∃ d0 d1 d2, c.plan d0 d1 d2 b memory2d = [] ++ (x.begin c b memory2d).plan :=
    ⟨_, _, _, rfl⟩
  have hstored : (x.begin c b memory2d).world = x.outcome.world.storeAll [] := rfl
  refine .filling hcurrent rfl ?_ (plan_fills _ _ _ _ _ _) hstored
  rw [hcommand, hbuffers]
  exact hplan

theorem Stage.at_fill (h : Stage execute world x) {f : Fill} {rest : List DriverStore}
    (hplan : x.plan = .queue f :: rest) :
    ∃ p, x.queue.driver = .filling (f :: rest.flatMap DriverStore.fills) p := by
  cases h with
  | idle _ plan => exact absurd (plan.symm.trans hplan) (by simp)
  | serving _ plan => exact absurd (plan.symm.trans hplan) (by simp)
  | filling _ driver _ fills =>
    rw [hplan, List.flatMap_cons] at fills
    exact ⟨_, driver.trans (congrArg (DriverPhase.filling · _) fills.symm)⟩

theorem Stage.no_fill (h : Stage execute world x) (hplan : x.plan = []) (f : Fill)
    (todo : List Fill) (p : Post) : x.queue.driver ≠ .filling (f :: todo) p := by
  intro hdriver
  cases h with
  | idle driver => exact absurd (driver.symm.trans hdriver) (by simp)
  | filling _ driver _ fills =>
    rw [hplan] at fills
    rw [hdriver, ← fills] at driver
    cases driver
  | serving driver =>
    rw [hdriver] at driver
    cases driver

theorem Stage.stored {d : DriverStore} {rest : List DriverStore} {before : Outcome σ}
    {memory2d : Nat} {done : List DriverStore} (hplan : x.plan = d :: rest)
    (plan : ∃ d0 d1 d2, p.command.plan d0 d1 d2 p.buffers memory2d = done ++ x.plan)
    (stored : x.world = before.world.storeAll done) :
    (∃ d0 d1 d2, p.command.plan d0 d1 d2 p.buffers memory2d = (done ++ [d]) ++ rest) ∧
      x.world.store d = before.world.storeAll (done ++ [d]) := by
  obtain ⟨d0, d1, d2, hdone⟩ := plan
  refine ⟨⟨d0, d1, d2, ?_⟩, ?_⟩
  · rw [hdone, hplan, List.append_assoc, List.singleton_append]
  · rw [World.storeAll_concat, stored]

theorem Stage.plain (h : Stage execute world x) {d : DriverStore} {rest : List DriverStore}
    (hplan : x.plan = d :: rest) (hplain : d.fills = []) :
    Stage execute world { x with world := x.world.store d, plan := rest } := by
  cases h with
  | idle _ plan => exact absurd (plan.symm.trans hplan) (by simp)
  | serving _ plan => exact absurd (plan.symm.trans hplan) (by simp)
  | filling current driver plan fills stored =>
    obtain ⟨hrest, hstored⟩ := Stage.stored hplan plan stored
    refine .filling ⟨current.history, current.reads, current.allocated⟩ driver hrest ?_
      hstored
    rw [← fills, hplan, List.flatMap_cons, hplain, List.nil_append]

theorem Stage.fill (h : Stage execute world x) {f : Fill} {rest : List DriverStore}
    (hplan : x.plan = .queue f :: rest) (hdriver : x.queue.driverStep = some v) :
    Stage execute world
      { x with queue := v, world := x.world.store (.queue f), plan := rest } := by
  cases h with
  | idle _ plan => exact absurd (plan.symm.trans hplan) (by simp)
  | serving _ plan => exact absurd (plan.symm.trans hplan) (by simp)
  | @filling p before memory2d todo done current driver plan fills stored =>
    obtain ⟨hrest, hstored⟩ := Stage.stored hplan plan stored
    have hfills : f :: rest.flatMap DriverStore.fills = todo := by
      rw [← fills, hplan]
      rfl
    rw [← hfills] at driver
    have hv : v = { x.queue.fill f with
        driver := .filling (rest.flatMap DriverStore.fills) p } := by
      unfold Virtqueue.driverStep at hdriver
      rw [driver] at hdriver
      exact (Option.some.inj hdriver).symm
    have hreads : v.reads = x.queue.reads := hv ▸ (fill_order x.queue f _).reads
    exact .filling ⟨current.history, hreads.trans current.reads, current.allocated⟩
      (hv ▸ rfl) hrest rfl hstored

theorem Serving.read (h : Serving execute world x p)
    (hcompleted : x.queue.answers ≠ x.queue.reads) :
    (Outcome.mk x.world (x.queue.reads ++ [x.queue.type p.buffers.response])) =
      (Outcome.mk world []).serveAll execute x.history := by
  cases h with
  | posted _ answers => exact absurd answers hcompleted
  | answered current _ stored type =>
    obtain ⟨ops, hhistory, hbefore⟩ := current.history
    rw [hhistory, serveAll_concat, ← hbefore, current.reads, type, stored]
    rfl

theorem Stage.driver (h : Stage execute world x) (order : OrderInv x.queue)
    (hplan : x.plan = []) (hmove : DriverMove x.queue v) :
    Stage execute world { x with queue := v } := by
  cases hmove with
  | @fill f todo p hdriver => exact absurd hdriver (h.no_fill hplan f todo p)
  | ring hdriver =>
    have hserves := h.serves order hplan (by rw [hdriver]; rfl)
    exact .serving rfl hplan (hserves.of_queue ⟨rfl, rfl, rfl⟩)
  | publish hdriver =>
    have hserves := h.serves order hplan (by rw [hdriver]; rfl)
    exact .serving rfl hplan (hserves.of_queue ⟨rfl, rfl, rfl⟩)
  | notify hdriver =>
    have hserves := h.serves order hplan (by rw [hdriver]; rfl)
    exact .serving rfl hplan (hserves.of_queue ⟨rfl, rfl, rfl⟩)
  | wait hdriver hused =>
    have hserves := h.serves order hplan (by rw [hdriver]; rfl)
    exact .serving rfl hplan (hserves.of_queue ⟨rfl, rfl, rfl⟩)
  | @read p hdriver =>
    have hagrees := order.driver
    rw [hdriver] at hagrees
    refine .idle rfl hplan ((h.serves order hplan (by rw [hdriver]; rfl)).read ?_)
    rw [hagrees.1.answers]
    simp

theorem InFlight.of_consumed {v : Virtqueue} {head : Nat} (h : InFlight v p)
    (hdevice : v.device = .consumed head) : head = p.head ∧ v.answers = v.reads := by
  cases h with
  | consumed device _ answers =>
    exact ⟨DevicePhase.consumed.inj (hdevice.symm.trans device), answers⟩
  | posted device => exact absurd (hdevice.symm.trans device) (by simp)
  | answered device => exact absurd (hdevice.symm.trans device) (by simp)
  | completed h => exact absurd (hdevice.symm.trans h.device) (by simp)

theorem Stage.plan_posted (h : Stage execute world x) (hposted : x.queue.driver.Posted) :
    x.plan = [] := by
  cases h with
  | idle _ plan => exact plan
  | filling _ driver =>
    rw [driver] at hposted
    cases hposted
  | serving _ plan => exact plan

/-- The answer is the one to the command, read from its blocks and written into its last block. -/
theorem Stage.answer {k head : Nat} (hlow : 2 ≤ k) (chains : ChainInv (2 ^ k) x.queue)
    (order : OrderInv x.queue) (h : Stage execute world x)
    (hdevice : x.queue.device = .consumed head) : Stage execute world (x.answer execute head) := by
  have hsize : 3 ≤ 2 ^ k := Nat.le_trans (by decide) (Nat.pow_le_pow_right (by decide) hlow)
  obtain ⟨p, hphase, flight, -, -⟩ := order.in_flight (Or.inl (by rw [hdevice]; simp))
  have hcurrent : x.queue.driver.current = some ([], p) := by
    rcases hphase with h | h <;> rw [h] <;> rfl
  have hplan := h.plan_posted (by rcases hphase with h | h <;> rw [h] <;> trivial)
  have hparts := chains.chainParts_eq hsize hcurrent
  have hlength := chains.responseLength_eq hsize hcurrent
  have haddress := (chains.wellFormed hsize hcurrent).responseAddress_eq
  obtain ⟨rfl, hanswers⟩ := flight.of_consumed hdevice
  cases h.serves order hplan hcurrent with
  | answered _ answers => exact absurd hanswers answers
  | @posted before memory2d current _ stored =>
    have hworld : (x.answer execute p.head).world =
        (before.world.filled p.command p.buffers memory2d).answered execute p.command
          p.buffers := by
      rw [Session.answer, hparts, hlength, haddress, stored]
      rfl
    refine .serving hcurrent hplan (.answered ⟨current.history, current.reads,
      current.allocated⟩ ?_ hworld ?_)
    · show x.queue.answers ++ [_] ≠ x.queue.reads
      rw [hanswers]
      simp
    · have htype : (x.answer execute p.head).queue.type (x.queue.responseAddress p.head) =
          loadBytes (x.answer execute p.head).world.mem (x.queue.responseAddress p.head) 4 :=
        if_pos rfl
      rwa [haddress] at htype

theorem Stage.step {k : Nat} (hlow : 2 ≤ k) (chains : ChainInv (2 ^ k) x.queue)
    (order : OrderInv x.queue) (h : Stage execute world x) (hstep : SessionStep execute x x') :
    Stage execute world x' := by
  cases hstep with
  | store s hidle =>
    obtain ⟨hplan, houtcome⟩ := h.driver_idle hidle
    refine .idle hidle hplan ?_
    rw [serveAll_concat, ← houtcome]
    rfl
  | begin c b memory2d hidle _ hallocated =>
    exact Stage.begin c b memory2d (h.driver_idle hidle).2 hallocated
  | plain hplan hplain => exact h.plain hplan hplain
  | fill hplan hdriver => exact h.fill hplan hdriver
  | driver hplan hdriver => exact h.driver order hplan (driverStep_move hdriver)
  | consume hidle hnew => exact h.of_queue ⟨rfl, rfl, rfl⟩ rfl
  | answer hdevice => exact h.answer hlow chains order hdevice
  | complete hdevice => exact h.of_queue ⟨rfl, rfl, rfl⟩ rfl

end steps

section runs
variable {k : Nat} {world : World σ} {x : Session σ}

theorem stage_start {queueSize : Nat} (h : SessionStart queueSize world x) :
    Stage execute world x := by
  obtain ⟨hstart, u, b, rfl, hallocated, rfl, hhistory⟩ := h
  obtain ⟨u', b', hqueue, -, -, -, -, -, -, -, -, -, -, hreads⟩ := hstart.command
  have hempty : u.queue.reads = [] := (congrArg Virtqueue.reads hqueue).trans hreads
  apply Stage.begin _ _ _ _ hallocated
  rw [hhistory, Session.outcome, hempty]
  rfl

theorem stage_reachable (hlow : 2 ≤ k) (hk : k ≤ 16)
    (h : (sessionSystem execute (2 ^ k) world).Reachable x) : Stage execute world x := by
  have hsize : 3 ≤ 2 ^ k := Nat.le_trans (by decide) (Nat.pow_le_pow_right (by decide) hlow)
  induction h with
  | start h => exact stage_start h
  | step hreach hstep ih =>
    have hqueue := session_queue hreach
    exact ih.step hlow (chainInv_reachable hsize hqueue) (orderInv_reachable hlow hk hqueue) hstep

/-- What the device finds when it has taken a chain: all that was done before, the stores of one
command, and through the chain the request that this command is for. -/
structure FindsRequest (execute : Executes σ) (world : World σ) (x : Session σ) (head : Nat)
    (ops : List GpuOp) (c : Command) (b : Buffers) (memory2d : Nat) : Prop where
  history : x.history = ops ++ [.command c b memory2d]
  world : x.world = ((Outcome.mk world []).serveAll execute ops).world.filled c b memory2d
  request : GpuRequest.parse (readParts x.world.mem (x.queue.chainParts head)) =
    some (c.request memory2d)

theorem Serving.findsRequest {p : Post} (h : Serving execute world x p)
    (hanswers : x.queue.answers = x.queue.reads)
    (hparts : x.queue.chainParts p.head = p.command.parts p.buffers) :
    ∃ ops c b memory2d, FindsRequest execute world x p.head ops c b memory2d := by
  cases h with
  | answered _ answers => exact absurd hanswers answers
  | posted current _ stored =>
    obtain ⟨ops, hhistory, rfl⟩ := current.history
    refine ⟨ops, _, _, _, hhistory, stored, ?_⟩
    rw [hparts, stored, filled_mem]
    exact command_parsed _ current.allocated.1 current.allocated.2

end runs

section firstRun
variable {k : Nat} {world : World σ} {x : Session σ} {p : Post}

theorem exists_planned (h : (sessionSystem execute (2 ^ k) world).Reachable x)
    (hdriver : x.queue.driver = .filling (x.plan.flatMap DriverStore.fills) p) :
    ∃ y, (sessionSystem execute (2 ^ k) world).Reachable y ∧ y.plan = [] ∧
      y.queue.driver = .filling [] p := by
  generalize hplan : x.plan = plan at hdriver
  induction plan generalizing x with
  | nil => exact ⟨x, h, hplan, hdriver⟩
  | cons d rest ih =>
    cases d with
    | ram s => exact ih (h.step (.plain hplan rfl)) rfl hdriver
    | display address => exact ih (h.step (.plain hplan rfl)) rfl hdriver
    | queue f =>
      have hstep : x.queue.driverStep = some { x.queue.fill f with
          driver := .filling (rest.flatMap DriverStore.fills) p } := by
        unfold Virtqueue.driverStep
        rw [hdriver]
        rfl
      exact ih (h.step (.fill hplan hstep)) rfl rfl

theorem exists_consumed (hlow : 2 ≤ k) (hk : k ≤ 16)
    (h : (sessionSystem execute (2 ^ k) world).Reachable x) (hplan : x.plan = [])
    (hdriver : x.queue.driver = .filling [] p) :
    ∃ y head, (sessionSystem execute (2 ^ k) world).Reachable y ∧
      y.queue.device = .consumed head := by
  have hagrees := (orderInv_reachable hlow hk (session_queue h)).driver
  rw [hdriver] at hagrees
  obtain ⟨allRead, -⟩ := hagrees
  have hring : x.queue.driverStep = some { x.queue with
      ring := setAt x.queue.ring (x.queue.ringSlot p.command) p.head
      driver := .publishing p } := by
    unfold Virtqueue.driverStep
    rw [hdriver]
  have hposted := (h.step (.driver hplan hring)).step (.driver hplan rfl)
  have hnew := mt (orderInv_reachable hlow hk (session_queue hposted)).none_lost
  refine ⟨_, _, hposted.step (.consume allRead.device (hnew ?_)), rfl⟩
  show ¬x.queue.consumed = x.queue.posted ++ [p.head]
  rw [allRead.consumed]
  simp

end firstRun

/-- In any order of steps: a chain that the device has taken puts the request of the command
under way before it. -/
theorem session_request {k : Nat} (hlow : 2 ≤ k) (hk : k ≤ 16) {world : World σ} {x : Session σ}
    (h : (sessionSystem execute (2 ^ k) world).Reachable x) {head : Nat}
    (hdevice : x.queue.device = .consumed head) :
    ∃ ops c b memory2d, FindsRequest execute world x head ops c b memory2d := by
  have hsize : 3 ≤ 2 ^ k := Nat.le_trans (by decide) (Nat.pow_le_pow_right (by decide) hlow)
  have hqueue := session_queue h
  have chains := chainInv_reachable hsize hqueue
  have order := orderInv_reachable hlow hk hqueue
  obtain ⟨p, hphase, flight, -, -⟩ := order.in_flight (Or.inl (by rw [hdevice]; simp))
  have hcurrent : x.queue.driver.current = some ([], p) := by
    rcases hphase with h | h <;> rw [h] <;> rfl
  obtain ⟨rfl, hanswers⟩ := flight.of_consumed hdevice
  have stage := stage_reachable hlow hk h
  have hplan := stage.plan_posted (by rcases hphase with h | h <;> rw [h] <;> trivial)
  exact (stage.serves order hplan hcurrent).findsRequest hanswers
    (chains.chainParts_eq hsize hcurrent)

def freshGpu : Gpu where
  modes := [⟨screenRect, 1⟩]
  resources := fun _ => none
  scanouts := fun _ => none
  shown := fun _ _ => 0

def freshWorld : World Gpu := ⟨fun _ => 0, freshGpu, 0⟩

/-- The constructor has begun its command, with a queue of 64 entries. -/
def firstSession : Session Gpu :=
  (Session.mk emptyQueue freshWorld [] []).begin .getDisplayInfo ⟨0x1000, 0x2000, 0x3000⟩ 0

theorem firstSession_reachable :
    (sessionSystem Gpu.execute (2 ^ 6) freshWorld).Reachable firstSession := by
  apply System.Reachable.start
  refine ⟨emptyQueue_start _, _, _, rfl, ⟨?_, by decide⟩, rfl, rfl⟩
  simp [BlocksApart, Command.blocks, NoOverlap, pageSize]

theorem session_request_first : ∃ x head ops c b memory2d,
    (sessionSystem Gpu.execute (2 ^ 6) freshWorld).Reachable x ∧
      x.queue.device = .consumed head ∧
      FindsRequest Gpu.execute freshWorld x head ops c b memory2d := by
  obtain ⟨x, hreach, hplan, hdriver⟩ := exists_planned firstSession_reachable rfl
  obtain ⟨y, head, hreach', hdevice⟩ :=
    exists_consumed (by decide) (by decide) hreach hplan hdriver
  obtain ⟨ops, c, b, memory2d, hfinds⟩ :=
    session_request (by decide) (by decide) hreach' hdevice
  exact ⟨y, head, ops, c, b, memory2d, hreach', hdevice, hfinds⟩

end SelfmadeOS
