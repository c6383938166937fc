import SelfmadeOS.KernelAllocator

/-!
# The record of a run only grows

Every operation of the memory code extends the lists of requests and of calls, also where it
stops; so what holds of all calls of a run holds of the calls up to any of its states.
-/

namespace SelfmadeOS
set_option autoImplicit false
open StateRuns

/-- What the single accesses of the table code keep, the code as a whole keeps. -/
structure KeptByAccesses (r : Machine → Machine → Prop) : Prop where
  refl : ∀ s, r s s
  trans : ∀ s t u, r s t → r t u → r s u
  load : ∀ page i, Keeps r (SelfmadeOS.load page i)
  store : ∀ page i word, Keeps r (SelfmadeOS.store page i word)
  zeroOutPage : ∀ page, Keeps r (SelfmadeOS.zeroOutPage page)
  logMessage : ∀ message, Keeps r (SelfmadeOS.logMessage message)

namespace KeptByAccesses
variable {r : Machine → Machine → Prop} {α β : Type} (h : KeptByAccesses r)
include h

theorem bind {x : KernelM α} {f : α → KernelM β} (hx : Keeps r x) (hf : ∀ a, Keeps r (f a)) :
    Keeps r (x >>= f) := Keeps.bind h.refl h.trans hx hf

theorem loadThen (page : Nat) (i : Index) {f : Nat → KernelM β} (hf : ∀ a, Keeps r (f a)) :
    Keeps r (SelfmadeOS.load page i >>= f) := h.bind (h.load page i) hf

theorem storeThen (page : Nat) (i : Index) (word : Nat) {f : Unit → KernelM β}
    (hf : ∀ a, Keeps r (f a)) : Keeps r (SelfmadeOS.store page i word >>= f) :=
  h.bind (h.store page i word) hf

theorem zeroThen (page : Nat) {f : Unit → KernelM β} (hf : ∀ a, Keeps r (f a)) :
    Keeps r (SelfmadeOS.zeroOutPage page >>= f) := h.bind (h.zeroOutPage page) hf

section Helper
variable (parent : Nat) (pt : MapNewPageTables)

theorem mapPageForTableL3 : Keeps r (SelfmadeOS.mapPageForTableL3 parent pt) := by
  apply h.loadThen
  intro _
  split
  · exact h.storeThen _ _ _ fun _ => h.storeThen _ _ _ fun _ => h.zeroThen _ fun _ =>
      h.storeThen _ _ _ fun _ => h.store _ _ _
  · exact h.logMessage _

theorem mapPageForTableL2 : Keeps r (SelfmadeOS.mapPageForTableL2 parent pt) := by
  apply h.loadThen
  intro _
  split
  · exact h.storeThen _ _ _ fun _ => h.bind (h.mapPageForTableL3 _ pt) fun _ =>
      h.storeThen _ _ _ fun _ => h.zeroThen _ fun _ => h.store _ _ _
  · exact h.logMessage _

theorem mapPageForTableL1 : Keeps r (SelfmadeOS.mapPageForTableL1 parent pt) := by
  apply h.loadThen
  intro _
  split
  · exact h.storeThen _ _ _ fun _ => h.bind (h.mapPageForTableL2 _ pt) fun _ =>
      h.storeThen _ _ _ fun _ => h.zeroThen _ fun _ => h.store _ _ _
  · exact h.logMessage _

end Helper

theorem mapPageForPagetable (s : Machine) :
    r (s.withFree ((allignAddr s.currentFree pageSize + 4 * 4096) % 2 ^ 64))
      (final (SelfmadeOS.mapPageForPagetable s)) := by
  have hpure : ∀ page : Nat, Keeps r (Pure.pure page : KernelM Nat) := Keeps.pure h.refl
  rw [SelfmadeOS.mapPageForPagetable, bind_run (pallocContinuousBlock_four s)]
  refine h.loadThen _ _ (fun _ => ?_) _
  split
  · exact h.bind (h.mapPageForTableL1 _ _) fun _ => h.storeThen _ _ _ fun _ =>
      h.zeroThen _ fun _ => h.zeroThen _ fun _ => h.zeroThen _ fun _ => hpure _
  refine h.loadThen _ _ fun _ => h.loadThen _ _ fun _ => ?_
  split
  · exact h.bind (h.mapPageForTableL2 _ _) fun _ => h.storeThen _ _ _ fun _ =>
      h.zeroThen _ fun _ => h.zeroThen _ fun _ => hpure _
  refine h.loadThen _ _ fun _ => h.loadThen _ _ fun _ => ?_
  split
  · exact h.bind (h.mapPageForTableL3 _ _) fun _ => h.storeThen _ _ _ fun _ =>
      h.zeroThen _ fun _ => hpure _
  refine h.loadThen _ _ fun _ => h.loadThen _ _ fun _ => ?_
  split
  · exact h.storeThen _ _ _ fun _ => hpure _
  · exact Keeps.throw h.refl _

theorem pageEntry (l3 va pa attrIdx : Nat) :
    Keeps r (SelfmadeOS.pageEntry l3 va pa attrIdx) := by
  apply h.loadThen
  intro _
  split
  · split
    · exact h.store _ _ _
    split
    · exact h.store _ _ _
    · exact h.logMessage _
  · exact h.logMessage _

end KeptByAccesses

structure Extends (s s' : Machine) : Prop where
  requests : s.requests <+: s'.requests
  calls : s.calls <+: s'.calls

theorem Extends.refl (s : Machine) : Extends s s := ⟨List.prefix_rfl, List.prefix_rfl⟩

theorem Extends.trans (s t u : Machine) (h : Extends s t) (h' : Extends t u) : Extends s u :=
  ⟨h.requests.trans h'.requests, h.calls.trans h'.calls⟩

theorem Extends.withFree (s : Machine) (word : Nat) : Extends s (s.withFree word) :=
  ⟨List.prefix_rfl, List.prefix_rfl⟩

/-- The program never takes anything back from the record. -/
abbrev Recorded {α : Type} (x : KernelM α) : Prop := Keeps Extends x

namespace Recorded
variable {α β : Type}

theorem bind {x : KernelM α} {f : α → KernelM β} (hx : Recorded x) (hf : ∀ a, Recorded (f a)) :
    Recorded (x >>= f) := Keeps.bind Extends.refl Extends.trans hx hf

theorem pure (a : α) : Recorded (Pure.pure a : KernelM α) := Keeps.pure Extends.refl a

theorem throw (e : Stop) : Recorded (MonadExcept.throw e : KernelM α) := Keeps.throw Extends.refl e

theorem of_eq {x : KernelM α}
    (h : ∀ s, (final (x s)).requests = s.requests ∧ (final (x s)).calls = s.calls) :
    Recorded x := by
  intro s
  obtain ⟨hr, hc⟩ := h s
  exact ⟨hr ▸ List.prefix_rfl, hc ▸ List.prefix_rfl⟩

theorem load (page : Nat) (i : Index) : Recorded (SelfmadeOS.load page i) :=
  of_eq fun _ => ⟨rfl, rfl⟩

theorem store (page : Nat) (i : Index) (word : Nat) : Recorded (SelfmadeOS.store page i word) :=
  of_eq fun _ => ⟨rfl, rfl⟩

theorem logMessage (message : String) : Recorded (SelfmadeOS.logMessage message) :=
  of_eq fun _ => ⟨rfl, rfl⟩

theorem request (address size attrIdx : Nat) : Recorded (SelfmadeOS.request address size attrIdx) :=
  fun _ => ⟨List.prefix_append _ _, List.prefix_rfl⟩

theorem zeroOutPage (page : Nat) : Recorded (SelfmadeOS.zeroOutPage page) :=
  of_eq fun s => by simp

theorem clearBlock (adr size : Nat) : Recorded (SelfmadeOS.clearBlock adr size) :=
  of_eq fun s => by simp [clearBlock_run]

theorem palloc (size : Nat) : Recorded (SelfmadeOS.palloc size) := by
  intro s
  rw [palloc_run, final_ok]
  exact Extends.withFree s _

theorem accesses : KeptByAccesses Extends :=
  ⟨Extends.refl, Extends.trans, load, store, zeroOutPage, logMessage⟩

theorem mapPageForPagetable : Recorded SelfmadeOS.mapPageForPagetable :=
  fun s => Extends.trans _ _ _ (Extends.withFree s _) (accesses.mapPageForPagetable s)

theorem pageForPagetable (va level : Nat) : Recorded (SelfmadeOS.pageForPagetable va level) := by
  refine bind (fun s => ⟨List.prefix_rfl, List.prefix_append _ _⟩) fun _ => ?_
  exact mapPageForPagetable.bind fun _ => bind (of_eq fun _ => ⟨rfl, rfl⟩) fun _ => pure _

theorem nextTable (table : Nat) (i : Index) (va level : Nat) :
    Recorded (SelfmadeOS.nextTable table i va level) := by
  refine (load _ _).bind fun _ => ?_
  have hread : Recorded (SelfmadeOS.load table i >>= fun w => Pure.pure (w &&& addressMask)) :=
    (load _ _).bind fun _ => pure _
  dsimp only
  split
  · exact (pageForPagetable _ _).bind fun _ => (store _ _ _).bind fun _ => hread
  · exact hread

theorem mmuMap4kb (root va pa attrIdx : Nat) :
    Recorded (SelfmadeOS.mmuMap4kb root va pa attrIdx) :=
  (nextTable _ _ _ _).bind fun _ => (nextTable _ _ _ _).bind fun _ =>
    (nextTable _ _ _ _).bind fun _ => accesses.pageEntry _ _ _ _

theorem mapLoop (attrIdx tests leftover adr : Nat) :
    Recorded (SelfmadeOS.mapLoop attrIdx tests leftover adr) := by
  induction tests generalizing leftover adr with
  | zero => exact throw _
  | succ tests ih =>
    unfold SelfmadeOS.mapLoop
    split
    · exact (mmuMap4kb _ _ _ _).bind fun _ => ih _ _
    · exact pure _

theorem mapAddr (address size : Nat) : Recorded (SelfmadeOS.mapAddr address size) := by
  unfold SelfmadeOS.mapAddr
  split
  · exact logMessage _
  · exact (request _ _ _).bind fun _ => mapLoop _ _ _ _

theorem registerDeviceMemory (address size : Nat) :
    Recorded (SelfmadeOS.registerDeviceMemory address size) :=
  (request _ _ _).bind fun _ => mapLoop _ _ _ _

theorem kalloc (size : Nat) : Recorded (SelfmadeOS.kalloc size) :=
  (palloc _).bind fun _ => (mapAddr _ _).bind fun _ => (clearBlock _ _).bind fun _ => pure _

theorem exec (op : Op) : Recorded op.exec := by
  cases op with
  | kalloc size => exact (kalloc size).bind fun _ => pure _
  | registerDeviceMemory address size => exact registerDeviceMemory address size

theorem runOps (ops : List Op) : Recorded (SelfmadeOS.runOps ops) := by
  induction ops with
  | nil => exact pure _
  | cons op ops ih => exact (exec op).bind fun _ => ih

end Recorded

end SelfmadeOS
