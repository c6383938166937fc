import SelfmadeOS.KernelAllocator

/-!
# What `palloc_continuous_block` promises and when it keeps it

`pages_left` counts bytes, and there is always a page of them; so the block is never moved to the
next 2 MB, and it fits in its region only by chance.
-/

namespace SelfmadeOS
set_option autoImplicit false

/-- The outcome of asking for `n` pages when the bump pointer stands at `free`: no block and only
the alignment done, or a block in one region that is taken. -/
def BlockContract (free n start free' : Nat) : Prop :=
  start = 0 ∧ free' = allignAddr free pageSize ∨
    start % pageSize = 0 ∧ free ≤ start ∧ start % blockSizeL2 + n * pageSize ≤ blockSizeL2 ∧
      free' = start + n * pageSize

/-- The block fits behind the aligned pointer in its region, or address 0 is returned for
nothing. -/
def BlockFitsBehind (free n : Nat) : Prop :=
  let start := allignAddr free pageSize
  free + (pageSize - 1) < 2 ^ 64 ∧ start % blockSizeL2 + n * pageSize ≤ blockSizeL2 ∧
      start + n * pageSize < 2 ^ 64 ∨
    start = 0 ∧ (n = 0 ∨ 4096 < n)

instance (free n : Nat) : Decidable (BlockFitsBehind free n) :=
  inferInstanceAs (Decidable (_ ∨ _))

section outcome
variable (s : Machine) (n : Nat)

theorem pagesLeft_ge (free : Nat) :
    4096 ≤ blockSizeL2 - (allignAddr free pageSize &&& (blockSizeL2 - 1)) := by
  have hmask : allignAddr free pageSize &&& (blockSizeL2 - 1) =
      allignAddr free pageSize % 2 ^ 21 := Nat.and_two_pow_sub_one_eq_mod _ 21
  have haligned := allignAddr_aligned free
  rw [hmask, blockSizeL2]
  omega

theorem pallocContinuousBlock_large (h : 4096 < n) : ∃ s', pallocContinuousBlock n s =
    .ok (allignAddr s.currentFree pageSize) s' ∧
      s'.currentFree = allignAddr s.currentFree pageSize := by
  refine ⟨(s.withFree (allignAddr s.currentFree pageSize)).logged
    "Error: A continous block in the same l3 pagetable can not be bigger than 4096.", ?_, rfl⟩
  change (if n > 4096 then _ else _ : KernelM Nat)
    (s.withFree (allignAddr s.currentFree pageSize)) = _
  rw [if_pos h]
  rfl

theorem pallocContinuousBlock_small (h : n ≤ 4096) : ∃ s', pallocContinuousBlock n s =
    .ok (allignAddr s.currentFree pageSize) s' ∧
      s'.currentFree = (allignAddr s.currentFree pageSize + n * 4096) % 2 ^ 64 := by
  have hroom : blockSizeL2 - (allignAddr s.currentFree pageSize &&& (blockSizeL2 - 1)) ≥ n :=
    Nat.le_trans h (pagesLeft_ge s.currentFree)
  exact ⟨_, pallocContinuousBlock_fits s h hroom, rfl⟩

end outcome

theorem allignAddr_bounds {free : Nat} (h : free < 2 ^ 64) :
    allignAddr free pageSize < 2 ^ 64 ∧ allignAddr free pageSize % 4096 = 0 ∧
      (free + 4095 < 2 ^ 64 ∧ free ≤ allignAddr free pageSize ∧
          allignAddr free pageSize ≤ free + 4095 ∨
        2 ^ 64 ≤ free + 4095 ∧ 0 < free ∧ allignAddr free pageSize = 0) := by
  rw [allignAddr_eq]
  omega

/-- The block is placed as promised exactly when it fits behind the pointer. -/
theorem pallocContinuousBlock_contract_iff (s : Machine) (n : Nat)
    (hfree : s.currentFree < 2 ^ 64) :
    (∃ start s', pallocContinuousBlock n s = .ok start s' ∧
      BlockContract s.currentFree n start s'.currentFree) ↔ BlockFitsBehind s.currentFree n := by
  obtain ⟨hlt, haligned, hbounds⟩ := allignAddr_bounds hfree
  have hout : ∃ s', pallocContinuousBlock n s = .ok (allignAddr s.currentFree pageSize) s' ∧
      s'.currentFree = if n ≤ 4096 then (allignAddr s.currentFree pageSize + n * 4096) % 2 ^ 64
        else allignAddr s.currentFree pageSize := by
    split
    · exact pallocContinuousBlock_small s n ‹_›
    · exact pallocContinuousBlock_large s n (Nat.lt_of_not_le ‹_›)
  obtain ⟨s', hrun, hfree'⟩ := hout
  rw [hrun]
  have hunfold : (∃ start t, (EStateM.Result.ok (allignAddr s.currentFree pageSize) s' :
      EStateM.Result Stop Machine Nat) = .ok start t ∧
        BlockContract s.currentFree n start t.currentFree) ↔
      BlockContract s.currentFree n (allignAddr s.currentFree pageSize) s'.currentFree := by
    constructor
    · rintro ⟨start, t, heq, h⟩
      obtain ⟨rfl, rfl⟩ := EStateM.Result.ok.inj heq
      exact h
    · intro h
      exact ⟨_, _, rfl, h⟩
  rw [hunfold, hfree']
  unfold BlockContract BlockFitsBehind
  dsimp only [blockSizeL2]
  generalize hstart : allignAddr s.currentFree pageSize = start at *
  simp only [pageSize]
  split <;> omega

def lastPageOfRegion : Machine where
  mem := fun _ _ => 0
  currentFree := 0x401FF000
  log := []
  requests := []
  calls := []
  returned := []
  accesses := []

/-- There the four pages for tables are taken across the end of the region. -/
theorem pallocContinuousBlock_crosses_region :
    ¬∃ start s', pallocContinuousBlock 4 lastPageOfRegion = .ok start s' ∧
      BlockContract lastPageOfRegion.currentFree 4 start s'.currentFree := by
  rintro ⟨start, s', hrun, h⟩
  rw [pallocContinuousBlock_four] at hrun
  obtain ⟨rfl, rfl⟩ := EStateM.Result.ok.inj hrun
  revert h
  unfold BlockContract
  decide

theorem pallocContinuousBlock_contract_iff_fits :
    (∃ start s', pallocContinuousBlock 4 (lastPageOfRegion.withFree 0x401FC000) =
        .ok start s' ∧ BlockContract 0x401FC000 4 start s'.currentFree) ↔
      BlockFitsBehind 0x401FC000 4 :=
  pallocContinuousBlock_contract_iff (lastPageOfRegion.withFree 0x401FC000) 4 (by decide)

end SelfmadeOS
