import SelfmadeOS.RunRecord
import SelfmadeOS.Grafting

/-!
# What an operation takes from the heap

The bump pointer moves for `palloc` and for the four pages of a table block, and for nothing
else; so it is known from the sizes asked for and from the number of table blocks.
-/

namespace SelfmadeOS
set_option autoImplicit false
open StateRuns

structure KeepsHeap (s s' : Machine) : Prop where
  currentFree : s'.currentFree = s.currentFree
  calls : s'.calls = s.calls
  requests : s'.requests = s.requests

theorem KeepsHeap.refl (s : Machine) : KeepsHeap s s := ⟨rfl, rfl, rfl⟩

theorem KeepsHeap.trans (s t u : Machine) (h : KeepsHeap s t) (h' : KeepsHeap t u) :
    KeepsHeap s u :=
  ⟨h'.currentFree.trans h.currentFree, h'.calls.trans h.calls, h'.requests.trans h.requests⟩

abbrev HeapKept {α : Type} (x : KernelM α) : Prop := Keeps KeepsHeap x

namespace HeapKept
variable {α β : Type}

theorem bind {x : KernelM α} {f : α → KernelM β} (hx : HeapKept x) (hf : ∀ a, HeapKept (f a)) :
    HeapKept (x >>= f) := Keeps.bind KeepsHeap.refl KeepsHeap.trans hx hf

theorem pure (a : α) : HeapKept (Pure.pure a : KernelM α) := Keeps.pure KeepsHeap.refl a

theorem throw (e : Stop) : HeapKept (MonadExcept.throw e : KernelM α) :=
  Keeps.throw KeepsHeap.refl e

theorem load (page : Nat) (i : Index) : HeapKept (SelfmadeOS.load page i) :=
  fun _ => ⟨rfl, rfl, rfl⟩

theorem store (page : Nat) (i : Index) (word : Nat) : HeapKept (SelfmadeOS.store page i word) :=
  fun _ => ⟨rfl, rfl, rfl⟩

theorem logMessage (message : String) : HeapKept (SelfmadeOS.logMessage message) :=
  fun _ => ⟨rfl, rfl, rfl⟩

theorem clearBlock (adr size : Nat) : HeapKept (SelfmadeOS.clearBlock adr size) :=
  fun s => ⟨cleared_currentFree s adr size, cleared_calls s adr size,
    cleared_requests s adr size⟩

theorem zeroOutPage (page : Nat) : HeapKept (SelfmadeOS.zeroOutPage page) := by
  intro s
  rw [zeroOutPage_run, final_ok]
  exact ⟨zeroed_currentFree s page, zeroed_calls s page, zeroed_requests s page⟩

theorem accesses : KeptByAccesses KeepsHeap :=
  ⟨KeepsHeap.refl, KeepsHeap.trans, load, store, zeroOutPage, logMessage⟩

end HeapKept

/-- A bump pointer as the allocator leaves it. -/
def PageAligned (free : Nat) : Prop := free % 4096 = 0 ∧ free < 2 ^ 64

/-- Up to `most` blocks for tables have been taken, one behind the other. -/
def TakesBlocks (most : Nat) (s s' : Machine) : Prop :=
  s'.requests = s.requests ∧ ∃ cs, s'.calls = s.calls ++ cs ∧ cs.length ≤ most ∧
    (PageAligned s.currentFree →
      s'.currentFree = (s.currentFree + 4 * pageSize * cs.length) % 2 ^ 64 ∧
      ∀ k c, cs[k]? = some c →
        c.before.currentFree = (s.currentFree + 4 * pageSize * k) % 2 ^ 64)

section blocks
variable {s t u : Machine} {n m : Nat}

theorem KeepsHeap.takes (h : KeepsHeap s t) : TakesBlocks 0 s t := by
  refine ⟨h.requests, [], by rw [h.calls, List.append_nil], Nat.le_refl _,
    fun hfree => ⟨?_, ?_⟩⟩
  · rw [h.currentFree]
    exact (Nat.mod_eq_of_lt hfree.2).symm
  · intro k c hc
    cases hc

theorem TakesBlocks.mono (h : TakesBlocks n s t) (hle : n ≤ m) : TakesBlocks m s t := by
  obtain ⟨hrequests, cs, hcalls, hlength, hfree⟩ := h
  exact ⟨hrequests, cs, hcalls, hlength.trans hle, hfree⟩

theorem TakesBlocks.trans (h : TakesBlocks n s t) (h' : TakesBlocks m t u) :
    TakesBlocks (n + m) s u := by
  obtain ⟨hrequests, cs, hcalls, hlength, hfree⟩ := h
  obtain ⟨hrequests', cs', hcalls', hlength', hfree'⟩ := h'
  refine ⟨hrequests'.trans hrequests, cs ++ cs', ?_, ?_, fun haligned => ?_⟩
  · rw [hcalls', hcalls, List.append_assoc]
  · rw [List.length_append]
    omega
  · obtain ⟨hmiddle, hblocks⟩ := hfree haligned
    have haligned' : PageAligned t.currentFree := by
      obtain ⟨hpage, hlt⟩ := haligned
      simp only [PageAligned, hmiddle, pageSize]
      omega
    obtain ⟨hend, hblocks'⟩ := hfree' haligned'
    refine ⟨?_, ?_⟩
    · rw [hend, hmiddle, Nat.mod_add_mod, List.length_append, Nat.mul_add, Nat.add_assoc]
    · intro k c hc
      rcases Nat.lt_or_ge k cs.length with hlt | hge
      · rw [List.getElem?_append_left hlt] at hc
        exact hblocks k c hc
      · rw [List.getElem?_append_right hge] at hc
        rw [hblocks' _ c hc, hmiddle, Nat.mod_add_mod, Nat.add_assoc, ← Nat.mul_add]
        congr 3
        omega

end blocks

abbrev BlocksTaken {α : Type} (most : Nat) (x : KernelM α) : Prop := Keeps (TakesBlocks most) x

namespace BlocksTaken
variable {α β : Type} {n m : Nat}

theorem of_kept {x : KernelM α} (h : HeapKept x) : BlocksTaken 0 x := fun s => (h s).takes

theorem mono {x : KernelM α} (h : BlocksTaken n x) (hle : n ≤ m) : BlocksTaken m x :=
  fun s => (h s).mono hle

theorem bind {x : KernelM α} {f : α → KernelM β} (hx : BlocksTaken n x)
    (hf : ∀ a, BlocksTaken m (f a)) : BlocksTaken (n + m) (x >>= f) :=
  Keeps.seq (fun _ _ h => h.mono (Nat.le_add_right n m)) (fun _ _ _ h h' => h.trans h') hx hf

theorem pageForPagetable (va level : Nat) :
    BlocksTaken 1 (SelfmadeOS.pageForPagetable va level) := by
  intro s
  have hrest := HeapKept.accesses.mapPageForPagetable (s.called va level)
  have hfinal : KeepsHeap (final (mapPageForPagetable (s.called va level)))
      (final (SelfmadeOS.pageForPagetable va level s)) := by
    cases hrun : mapPageForPagetable (s.called va level) with
    | ok page t =>
      rw [pageForPagetable_run hrun]
      exact ⟨rfl, rfl, rfl⟩
    | error e t =>
      rw [pageForPagetable_stop hrun]
      exact ⟨rfl, rfl, rfl⟩
  obtain ⟨hfree, hcalls, hrequests⟩ := KeepsHeap.trans _ _ _ hrest hfinal
  rw [withFree_requests, called_requests] at hrequests
  refine ⟨hrequests, [⟨va, level, s.toKernel⟩], hcalls, Nat.le_refl _, fun haligned => ⟨?_, ?_⟩⟩
  · rw [hfree, called_toKernel, allignAddr_of_aligned haligned.1 haligned.2]
    rfl
  · intro k c hc
    obtain ⟨rfl, hk⟩ : c = ⟨va, level, s.toKernel⟩ ∧ k = 0 := by
      cases k with
      | zero => exact ⟨(Option.some.inj hc).symm, rfl⟩
      | succ k => cases hc
    subst hk
    exact (Nat.mod_eq_of_lt haligned.2).symm

theorem nextTable (table : Nat) (i : Index) (va level : Nat) :
    BlocksTaken 1 (SelfmadeOS.nextTable table i va level) := by
  have hread : HeapKept (SelfmadeOS.load table i >>= fun w => Pure.pure (w &&& addressMask)) :=
    (HeapKept.load _ _).bind fun _ => HeapKept.pure _
  refine (bind (n := 0) (m := 1) (of_kept (HeapKept.load _ _)) fun _ => ?_)
  dsimp only
  split
  · exact bind (n := 1) (m := 0) (pageForPagetable _ _) fun _ =>
      of_kept ((HeapKept.store _ _ _).bind fun _ => hread)
  · exact (of_kept hread).mono (Nat.zero_le 1)

theorem mmuMap4kb (root va pa attrIdx : Nat) :
    BlocksTaken 3 (SelfmadeOS.mmuMap4kb root va pa attrIdx) :=
  bind (n := 1) (m := 2) (nextTable _ _ _ _) fun _ =>
    bind (n := 1) (m := 1) (nextTable _ _ _ _) fun _ =>
      bind (n := 1) (m := 0) (nextTable _ _ _ _) fun _ =>
        of_kept (HeapKept.accesses.pageEntry _ _ _ _)

theorem mapLoop (attrIdx tests leftover adr : Nat) :
    BlocksTaken (3 * tests) (SelfmadeOS.mapLoop attrIdx tests leftover adr) := by
  induction tests generalizing leftover adr with
  | zero => exact of_kept (HeapKept.throw _)
  | succ tests ih =>
    unfold SelfmadeOS.mapLoop
    split
    · refine (bind (n := 3) (m := 3 * tests) (mmuMap4kb _ _ _ _) fun _ => ih _ _).mono ?_
      omega
    · exact (of_kept (HeapKept.pure _)).mono (Nat.zero_le _)

theorem mapLoop_pages (attrIdx tests : Nat) {n : Nat} (hn : 4096 * n < 2 ^ 64) (adr : Nat) :
    BlocksTaken (3 * n) (SelfmadeOS.mapLoop attrIdx tests (4096 * n) adr) := by
  induction tests generalizing n adr with
  | zero => exact (of_kept (HeapKept.throw _)).mono (Nat.zero_le _)
  | succ tests ih =>
    unfold SelfmadeOS.mapLoop
    cases n with
    | zero => exact of_kept (HeapKept.pure _)
    | succ n =>
      have hleft : (4096 * (n + 1) + 2 ^ 64 - blockSizeL3) % 2 ^ 64 = 4096 * n := by
        simp only [blockSizeL3]
        omega
      rw [if_pos (by omega), hleft]
      refine (bind (n := 3) (m := 3 * n) (mmuMap4kb _ _ _ _) fun _ => ih (by omega) _).mono ?_
      omega

end BlocksTaken

end SelfmadeOS
