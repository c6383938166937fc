import SelfmadeOS.GpuRefinement

/-!
# Commands finish

Each step of a session but those that begin something uses up work, and until the driver is idle
one of them is possible: there is neither a deadlock nor an endless run of a single command.
-/

namespace SelfmadeOS
set_option autoImplicit false
open Transitions Virtqueue

variable {σ : Type} {execute : Executes σ}

def Working (execute : Executes σ) (x x' : Session σ) : Prop :=
  SessionStep execute x x' ∧ x'.history = x.history

def DriverPhase.work : DriverPhase → Nat
  | .idle => 0
  | .filling _ _ => 8
  | .publishing _ => 7
  | .notifying _ => 3
  | .waiting _ => 2
  | .reading _ => 1

/-- A posted chain is consumed, answered and completed. -/
def Virtqueue.deviceWork (v : Virtqueue) : Nat :=
  match v.device with
  | .idle => if v.lastSeen = v.availIdx then 0 else 3
  | .consumed _ => 2
  | .answered _ => 1

def Session.work (x : Session σ) : Nat :=
  x.plan.length + x.queue.driver.work + x.queue.deviceWork

section work
variable {v v' : Virtqueue} {world : World σ} {x x' : Session σ}

theorem deviceWork_le (v : Virtqueue) : v.deviceWork ≤ 3 := by
  unfold Virtqueue.deviceWork
  split
  · split <;> omega
  · omega
  · omega

theorem deviceWork_same (h : SameOrder v v') : v'.deviceWork = v.deviceWork := by
  unfold Virtqueue.deviceWork
  rw [h.device, h.lastSeen, h.availIdx]

theorem plan_length_le (c : Command) (d0 d1 d2 : Nat) (b : Buffers) (memory2d : Nat) :
    (c.plan d0 d1 d2 b memory2d).length ≤ 30 := by
  cases c <;> exact Nat.le_of_ble_eq_true rfl

theorem Stage.work_le (h : Stage execute world x) : x.work ≤ 41 := by
  have hdevice := deviceWork_le x.queue
  have hdriver : x.queue.driver.work ≤ 8 := by
    cases x.queue.driver <;> simp [DriverPhase.work]
  have hplan : x.plan.length ≤ 30 := by
    cases h with
    | idle _ plan => simp [plan]
    | serving _ plan => simp [plan]
    | filling _ _ plan =>
      obtain ⟨d0, d1, d2, hplan⟩ := plan
      have hle := hplan ▸ plan_length_le _ d0 d1 d2 _ _
      rw [List.length_append] at hle
      omega
  unfold Session.work
  omega

theorem DriverMove.work_lt (h : DriverMove v v')
    (hfill : ∀ f todo p, v.driver ≠ .filling (f :: todo) p) :
    v'.driver.work + v'.deviceWork < v.driver.work + v.deviceWork := by
  cases h with
  | @fill f todo p hdriver => exact absurd hdriver (hfill f todo p)
  | ring hdriver =>
    rw [hdriver]
    exact Nat.add_lt_add_right (by decide : 7 < 8) _
  | @publish p hdriver =>
    have hle := deviceWork_le { v with
      availIdx := v.nextAvail p.command, posted := v.posted ++ [p.head], driver := .notifying p }
    rw [hdriver]
    simp only [DriverPhase.work]
    omega
  | notify hdriver =>
    rw [hdriver]
    exact Nat.add_lt_add_right (by decide : 2 < 3) _
  | wait hdriver =>
    rw [hdriver]
    exact Nat.add_lt_add_right (by decide : 1 < 2) _
  | read hdriver =>
    rw [hdriver]
    exact Nat.add_lt_add_right (by decide : 0 < 1) _

theorem OrderInv.complete_work (order : OrderInv v) {head : Nat}
    (hdevice : v.device = .answered head) : v.complete.deviceWork = 0 := by
  obtain ⟨p, -, flight, -, -⟩ := order.in_flight (Or.inl (by rw [hdevice]; simp))
  have hseen : v.lastSeen = v.availIdx := by
    cases flight with
    | answered _ consumed => rw [order.seen, order.avail, consumed]
    | posted device => exact absurd (hdevice.symm.trans device) (by simp)
    | consumed device => exact absurd (hdevice.symm.trans device) (by simp)
    | completed h => exact absurd (hdevice.symm.trans h.device) (by simp)
  exact if_pos hseen

theorem Stage.work_lt (h : Stage execute world x) (order : OrderInv x.queue)
    (hstep : Working execute x x') : x'.work < x.work := by
  obtain ⟨hstep, hsame⟩ := hstep
  unfold Session.work
  cases hstep with
  | store s hidle => exact absurd hsame (by simp)
  | begin c b memory2d => exact absurd hsame (by simp [Session.begin])
  | plain hplan hplain =>
    rw [hplan, List.length_cons]
    exact Nat.add_lt_add_right (Nat.add_lt_add_right (Nat.lt_succ_self _) _) _
  | @fill f rest v hplan hdriver =>
    obtain ⟨p, hfilling⟩ := h.at_fill hplan
    unfold Virtqueue.driverStep at hdriver
    rw [hfilling] at hdriver
    obtain rfl := Option.some.inj hdriver
    rw [hplan, hfilling, List.length_cons, deviceWork_same (fill_order x.queue f _)]
    exact Nat.add_lt_add_right (Nat.add_lt_add_right (Nat.lt_succ_self _) _) _
  | @driver v hplan hdriver =>
    have hlt := (driverStep_move hdriver).work_lt (h.no_fill hplan)
    dsimp only
    omega
  | consume hidle hnew =>
    have hwork : x.queue.deviceWork = 3 := by
      rw [Virtqueue.deviceWork, hidle]
      exact if_neg hnew
    rw [hwork]
    exact Nat.add_lt_add_left (by decide : 2 < 3) _
  | answer hdevice =>
    have hwork : x.queue.deviceWork = 2 := by rw [Virtqueue.deviceWork, hdevice]
    rw [hwork]
    exact Nat.add_lt_add_left (by decide : 1 < 2) _
  | complete hdevice =>
    have hwork : x.queue.deviceWork = 1 := by rw [Virtqueue.deviceWork, hdevice]
    rw [hwork, order.complete_work hdevice]
    exact Nat.add_lt_add_left (by decide : 0 < 1) _

end work

section next
variable {world : World σ} {x : Session σ}

/-- While the driver waits, the device has something to do or the wait is over. -/
theorem OrderInv.waiting_next (order : OrderInv x.queue) {p : Post}
    (hdriver : x.queue.driver = .waiting p) (hplan : x.plan = []) :
    ∃ x', Working execute x x' := by
  have hagrees := order.driver
  rw [hdriver] at hagrees
  obtain ⟨flight, newest, hold⟩ := hagrees
  cases flight with
  | posted device posted =>
    have hnew : x.queue.lastSeen ≠ x.queue.availIdx := by
      intro hsame
      have hall := order.none_lost hsame
      rw [posted] at hall
      exact absurd hall (by simp)
    exact ⟨_, .consume device hnew, rfl⟩
  | consumed device => exact ⟨_, .answer device, rfl⟩
  | answered device => exact ⟨_, .complete device, rfl⟩
  | completed h =>
    have hused : x.queue.usedIdx ≠ x.queue.waitsOn p.command := by
      rw [hold, order.used, h.completed]
      exact index_succ_ne _
    have hstep : x.queue.driverStep = some { x.queue with driver := .reading p } := by
      unfold Virtqueue.driverStep
      rw [hdriver]
      exact if_neg hused
    exact ⟨_, .driver hplan hstep, rfl⟩

theorem Stage.next (h : Stage execute world x) (order : OrderInv x.queue)
    (hbusy : x.queue.driver ≠ .idle) : ∃ x', Working execute x x' := by
  have hwhen : ∀ {v}, x.plan = [] → x.queue.driverStep = some v → ∃ x', Working execute x x' :=
    fun hplan hstep => ⟨_, .driver hplan hstep, rfl⟩
  cases hdriver : x.queue.driver with
  | idle => exact absurd hdriver hbusy
  | filling todo p =>
    cases hplan : x.plan with
    | nil =>
      cases todo with
      | nil =>
        apply hwhen hplan
        unfold Virtqueue.driverStep
        rw [hdriver]
      | cons f todo => exact absurd hdriver (h.no_fill hplan f todo p)
    | cons d rest =>
      cases d with
      | ram s => exact ⟨_, .plain hplan rfl, rfl⟩
      | display address => exact ⟨_, .plain hplan rfl, rfl⟩
      | queue f =>
        obtain ⟨p, hfilling⟩ := h.at_fill hplan
        have hstep : x.queue.driverStep = some { x.queue.fill f with
            driver := .filling (rest.flatMap DriverStore.fills) p } := by
          unfold Virtqueue.driverStep
          rw [hfilling]
        exact ⟨_, .fill hplan hstep, rfl⟩
  | publishing p =>
    apply hwhen (h.plan_posted (by rw [hdriver]; trivial))
    unfold Virtqueue.driverStep
    rw [hdriver]
  | notifying p =>
    apply hwhen (h.plan_posted (by rw [hdriver]; trivial))
    unfold Virtqueue.driverStep
    rw [hdriver]
  | waiting p => exact order.waiting_next hdriver (h.plan_posted (by rw [hdriver]; trivial))
  | reading p =>
    apply hwhen (h.plan_posted (by rw [hdriver]; trivial))
    unfold Virtqueue.driverStep
    rw [hdriver]

end next

section runs
variable {k : Nat} {world : World σ} {x : Session σ}

theorem working_reachable {x' : Session σ}
    (h : (sessionSystem execute (2 ^ k) world).Reachable x) (hstep : Working execute x x') :
    (sessionSystem execute (2 ^ k) world).Reachable x' := h.step hstep.1

theorem working_work {x' : Session σ} (hlow : 2 ≤ k) (hk : k ≤ 16)
    (h : (sessionSystem execute (2 ^ k) world).Reachable x) (hstep : Working execute x x') :
    x'.work < x.work :=
  (stage_reachable hlow hk h).work_lt (orderInv_reachable hlow hk (session_queue h)) hstep

theorem Stage.idle_finished (h : Stage execute world x) (order : OrderInv x.queue)
    (hidle : x.queue.driver = .idle) {x' : Session σ} : ¬Working execute x x' := by
  rintro ⟨hstep, hsame⟩
  obtain ⟨hplan, -⟩ := h.driver_idle hidle
  have hagrees := order.driver
  rw [hidle] at hagrees
  obtain ⟨allRead, -⟩ := hagrees
  cases hstep with
  | store s _ => exact absurd hsame (by simp)
  | begin c b memory2d => exact absurd hsame (by simp [Session.begin])
  | plain hplan' => exact absurd (hplan.symm.trans hplan') (by simp)
  | fill hplan' => exact absurd (hplan.symm.trans hplan') (by simp)
  | driver _ hdriver =>
    unfold Virtqueue.driverStep at hdriver
    rw [hidle] at hdriver
    cases hdriver
  | consume _ hnew => exact allRead.no_consume order hnew
  | answer hdevice => exact absurd (hdevice.symm.trans allRead.device) (by simp)
  | complete hdevice => exact absurd (hdevice.symm.trans allRead.device) (by simp)

end runs

/-- However the two sides take turns, a command is finished within 41 steps, and a run stops
only when the driver is idle. -/
theorem session_finishes {k : Nat} (hlow : 2 ≤ k) (hk : k ≤ 16) {world : World σ}
    {x y : Session σ} {n : Nat} (h : (sessionSystem execute (2 ^ k) world).Reachable x)
    (hrun : Steps (Working execute) n x y) :
    n ≤ 41 ∧ (y.queue.driver = .idle ↔ ∀ z, ¬Working execute y z) := by
  obtain ⟨hreach, hwork⟩ := hrun.bounded (fun _ _ => working_reachable)
    (fun _ _ => working_work hlow hk) h
  have hmost := (stage_reachable hlow hk h).work_le
  have stage := stage_reachable hlow hk hreach
  have order := orderInv_reachable hlow hk (session_queue hreach)
  refine ⟨by omega, fun hidle z => stage.idle_finished order hidle, fun hnone => ?_⟩
  by_contra hbusy
  obtain ⟨z, hz⟩ := stage.next order hbusy
  exact hnone z hz

theorem exists_idle {k : Nat} (hlow : 2 ≤ k) (hk : k ≤ 16) {world : World σ} {x : Session σ}
    (h : (sessionSystem execute (2 ^ k) world).Reachable x) :
    ∃ n y, Steps (Working execute) n x y ∧ y.queue.driver = .idle := by
  have hgood : ∀ s t, (sessionSystem execute (2 ^ k) world).Reachable s → Working execute s t →
      (sessionSystem execute (2 ^ k) world).Reachable t := fun _ _ => working_reachable
  have hless : ∀ s t, (sessionSystem execute (2 ^ k) world).Reachable s → Working execute s t →
      t.work < s.work := fun _ _ => working_work hlow hk
  apply exists_finished hgood hless _ h
  intro y hreach hbusy
  exact (stage_reachable hlow hk hreach).next
    (orderInv_reachable hlow hk (session_queue hreach)) hbusy

theorem session_finishes_first : ∃ n y, Steps (Working Gpu.execute) n firstSession y ∧
    y.queue.driver = .idle ∧ n ≤ 41 := by
  obtain ⟨n, y, hrun, hidle⟩ := exists_idle (by decide) (by decide) firstSession_reachable
  exact ⟨n, y, hrun, hidle,
    (session_finishes (k := 6) (by decide) (by decide) firstSession_reachable hrun).1⟩

/-- In any order of steps: when the driver is idle all its commands are served, as if each had
been answered at once. -/
theorem session_outcome {k : Nat} (hlow : 2 ≤ k) (hk : k ≤ 16) {world : World σ} {x : Session σ}
    (h : (sessionSystem execute (2 ^ k) world).Reachable x) (hidle : x.queue.driver = .idle) :
    x.outcome = (Outcome.mk world []).serveAll execute x.history :=
  ((stage_reachable hlow hk h).driver_idle hidle).2

theorem working_history {n : Nat} {x y : Session σ} (h : Steps (Working execute) n x y) :
    y.history = x.history := by
  induction h with
  | refl => rfl
  | step _ hstep ih => exact hstep.2.trans ih

theorem working_run {k n : Nat} {world : World σ} {x y : Session σ}
    (h : (sessionSystem execute (2 ^ k) world).Reachable x) (hrun : Steps (Working execute) n x y) :
    (sessionSystem execute (2 ^ k) world).Reachable y := by
  induction hrun with
  | refl => exact h
  | step _ hstep ih => exact working_reachable (ih h) hstep

theorem session_outcome_first : ∃ x, (sessionSystem Gpu.execute (2 ^ 6) freshWorld).Reachable x ∧
    x.outcome = (Outcome.mk freshWorld []).serveAll Gpu.execute
      [.command .getDisplayInfo ⟨0x1000, 0x2000, 0x3000⟩ 0] := by
  obtain ⟨n, y, hrun, hidle⟩ := exists_idle (by decide) (by decide) firstSession_reachable
  have hreach := working_run firstSession_reachable hrun
  have houtcome := session_outcome (by decide) (by decide) hreach hidle
  rw [working_history hrun] at houtcome
  exact ⟨y, hreach, houtcome⟩

def GpuOp.NotFirst : GpuOp → Prop
  | .store _ => True
  | .command c _ _ => c ≠ .getDisplayInfo

theorem exists_history {k : Nat} (hlow : 2 ≤ k) (hk : k ≤ 16) {world : World σ} {x : Session σ}
    (ops : List GpuOp) (h : (sessionSystem execute (2 ^ k) world).Reachable x)
    (hidle : x.queue.driver = .idle) (hallocated : ∀ op ∈ ops, op.Allocated)
    (hfirst : ∀ op ∈ ops, op.NotFirst) :
    ∃ y, (sessionSystem execute (2 ^ k) world).Reachable y ∧ y.queue.driver = .idle ∧
      y.history = x.history ++ ops := by
  induction ops generalizing x with
  | nil => exact ⟨x, h, hidle, (List.append_nil _).symm⟩
  | cons op ops ih =>
    obtain ⟨hop, hops⟩ := List.forall_mem_cons.mp hallocated
    obtain ⟨hnew, hrest⟩ := List.forall_mem_cons.mp hfirst
    cases op with
    | store s =>
      obtain ⟨y, hreach, hidle', hhistory⟩ := ih (h.step (.store s hidle)) hidle hops hrest
      exact ⟨y, hreach, hidle', hhistory.trans (List.append_assoc _ _ _)⟩
    | command c b memory2d =>
      have hbegin := h.step (.begin c b memory2d hidle hnew hop)
      obtain ⟨n, z, hrun, hdone⟩ := exists_idle hlow hk hbegin
      obtain ⟨y, hreach, hidle', hhistory⟩ := ih (working_run hbegin hrun) hdone hops hrest
      rw [working_history hrun] at hhistory
      exact ⟨y, hreach, hidle', hhistory.trans (List.append_assoc _ _ _)⟩

end SelfmadeOS
