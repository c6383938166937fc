import SelfmadeOS.NewTables

/-!
# Supplying a missing table

`mmu_map_4kb` takes a block for a missing table and links the block's first page in its place.
`Space.graft` is both steps together. It only adds to the address space, whichever slots the
two writers use; when they use the same slot, the link hides what the block added.
-/

namespace SelfmadeOS
set_option autoImplicit false
open StateRuns Space

namespace Space

def graft (σ : Space) (block present : Nat) (path : List Index) : Space :=
  (σ.takeBlock block present).linkTable path block

/-- Neither the slot of the block's own region nor the slot at `path` leads anywhere yet. -/
structure Graftable (m : Mem) (block present : Nat) (path : List Index) : Prop where
  own : present < 3 → (ofMem m).tables ((tablePath block).take (present + 1)) = none
  slot : (ofMem m).tables path = none

namespace Graftable
variable {m : Mem} {block present : Nat} {path : List Index}
variable (g : Graftable m block present path)
include g

theorem not_own {p : List Index} {t : Nat} (h : (ofMem m).tables p = some t) :
    ¬ (present < p.length ∧ (tablePath block).take (present + 1) <+: p) := by
  rintro ⟨hlt, hp⟩
  have hlen := ofMem_tables_length h
  obtain ⟨u, hu⟩ := ofMem_prefix hp h
  rw [g.own (by omega)] at hu
  cases hu

theorem not_slot {p : List Index} {t : Nat} (h : (ofMem m).tables p = some t) :
    ¬ path <+: p := by
  intro hp
  obtain ⟨u, hu⟩ := ofMem_prefix hp h
  rw [g.slot] at hu
  cases hu

theorem takeBlock_tables {p : List Index} {t : Nat} (h : (ofMem m).tables p = some t) :
    ((ofMem m).takeBlock block present).tables p = some t := by
  simp only [Space.takeBlock, if_neg (g.not_own h), h]

theorem tables_of_some {p : List Index} {t : Nat} (h : (ofMem m).tables p = some t) :
    ((ofMem m).graft block present path).tables p = some t := by
  simp only [Space.graft, Space.linkTable, if_neg (g.not_slot h), g.takeBlock_tables h]

theorem pages_of_some {a w : Nat} (h : (ofMem m).pages a = some w)
    (hfree : ¬ TakesPage block present a) :
    ((ofMem m).graft block present path).pages a = some w := by
  obtain ⟨t, ht, _⟩ := ofMem_page_table h
  simp only [Space.graft, Space.linkTable, if_neg (g.not_slot ht), Space.takeBlock,
    if_neg hfree, h]

end Graftable

section Cases
variable {m : Mem} {block present t a w : Nat} {path p : List Index}

theorem takeBlock_tables_cases (h : ((ofMem m).takeBlock block present).tables p = some t) :
    (ofMem m).tables p = some t ∨
      (present < p.length ∧ p <+: tablePath block ∧ t = block + p.length * pageSize) := by
  simp only [Space.takeBlock] at h
  split at h
  · rename_i hown
    split at h
    · exact Or.inr ⟨hown.1, ‹_›, (Option.some.inj h).symm⟩
    · cases h
  · exact Or.inl h

theorem graft_tables_cases (h : ((ofMem m).graft block present path).tables p = some t) :
    p = path ∧ t = block ∨ ¬ path <+: p ∧ ((ofMem m).tables p = some t ∨
      (present < p.length ∧ p <+: tablePath block ∧ t = block + p.length * pageSize)) := by
  simp only [Space.graft, Space.linkTable] at h
  split at h
  · split at h
    · exact Or.inl ⟨‹_›, (Option.some.inj h).symm⟩
    · cases h
  · exact Or.inr ⟨‹_›, takeBlock_tables_cases h⟩

theorem graft_pages_cases (h : ((ofMem m).graft block present path).pages a = some w) :
    (ofMem m).pages a = some w ∨ TakesPage block present a ∧ w = descriptor 0 a := by
  simp only [Space.graft, Space.linkTable] at h
  split at h
  · cases h
  · simp only [Space.takeBlock] at h
    split at h
    · exact Or.inr ⟨‹_›, (Option.some.inj h).symm⟩
    · exact Or.inl h

theorem graft_tables_new (h : ((ofMem m).graft block present path).tables p = some t) :
    (ofMem m).tables p = some t ∨ ∃ j, j ≤ 3 ∧ t = block + j * pageSize := by
  rcases graft_tables_cases h with ⟨_, rfl⟩ | ⟨_, hold | ⟨_, hp, rfl⟩⟩
  · exact Or.inr ⟨0, by decide, by simp⟩
  · exact Or.inl hold
  · exact Or.inr ⟨p.length, hp.length_le, rfl⟩

theorem takeBlock_injective (inj : (ofMem m).Injective)
    (below : ∀ p t, (ofMem m).tables p = some t → t < block) :
    ((ofMem m).takeBlock block present).Injective := by
  intro p q t hp hq
  rcases takeBlock_tables_cases hp with hp | ⟨_, hpp, rfl⟩
  · rcases takeBlock_tables_cases hq with hq | ⟨_, _, rfl⟩
    · exact inj p q t hp hq
    · have h := below p _ hp
      omega
  · rcases takeBlock_tables_cases hq with hq | ⟨_, hqp, heq⟩
    · have h := below q _ hq
      omega
    · have hlen : p.length = q.length := by
        simp only [pageSize] at heq
        omega
      exact (List.prefix_of_prefix_length_le hpp hqp hlen.le).eq_of_length hlen

theorem graft_injective (inj : (ofMem m).Injective)
    (below : ∀ p t, (ofMem m).tables p = some t → t < block) :
    ((ofMem m).graft block present path).Injective := by
  have hnew : ∀ q, ¬ ((ofMem m).takeBlock block present).tables q = some block := by
    intro q hq
    rcases takeBlock_tables_cases hq with hq | ⟨hlt, _, heq⟩
    · exact absurd (below q _ hq) (lt_irrefl _)
    · simp only [pageSize] at heq
      omega
  intro p q t hp hq
  simp only [Space.graft, Space.linkTable] at hp hq
  split at hp <;> split at hq
  · split at hp <;> split at hq <;> simp_all
  · split at hp
    · obtain rfl := Option.some.inj hp
      exact absurd hq (hnew q)
    · cases hp
  · split at hq
    · obtain rfl := Option.some.inj hq
      exact absurd hp (hnew p)
    · cases hq
  · exact takeBlock_injective inj below p q t hp hq

end Cases

end Space

namespace Machine

def called (s : Machine) (va level : Nat) : Machine :=
  { s with calls := s.calls ++ [⟨va, level, s.toKernel⟩] }

def cameBack (s : Machine) : Machine := { s with returned := s.returned ++ [s.toKernel] }

end Machine

section Fields
variable (s : Machine) (va level : Nat)

@[simp] theorem called_toKernel : (s.called va level).toKernel = s.toKernel := (rfl)
@[simp] theorem called_requests : (s.called va level).requests = s.requests := (rfl)
@[simp] theorem cameBack_toKernel : s.cameBack.toKernel = s.toKernel := (rfl)
@[simp] theorem cameBack_requests : s.cameBack.requests = s.requests := (rfl)
@[simp] theorem cameBack_calls : s.cameBack.calls = s.calls := (rfl)
@[simp] theorem cameBack_returned :
    s.cameBack.returned = s.returned ++ [s.toKernel] := (rfl)

end Fields

theorem pageForPagetable_run {s s' : Machine} {va level page : Nat}
    (h : mapPageForPagetable (s.called va level) = .ok page s') :
    pageForPagetable va level s = .ok page s'.cameBack := by
  change (mapPageForPagetable >>= _) (s.called va level) = _
  rw [bind_run h]
  rfl

theorem pageForPagetable_stop {s s' : Machine} {va level : Nat} {e : Stop}
    (h : mapPageForPagetable (s.called va level) = .error e s') :
    pageForPagetable va level s = .error e s' := by
  change (mapPageForPagetable >>= _) (s.called va level) = _
  rw [bind_stop h]

theorem nextTable_valid {s : Machine} {table : Nat} {i : Index} (va level : Nat)
    (h : s.mem table i &&& 1 ≠ 0) : nextTable table i va level s =
      .ok (s.mem table i &&& addressMask) ((s.loaded table i).loaded table i) := by
  simp only [nextTable, bind, EStateM.bind, load_run, h, if_false, loaded_mem, pure_run]

theorem nextTable_invalid {s s' : Machine} {table page : Nat} {i : Index} (va level : Nat)
    (h : s.mem table i &&& 1 = 0)
    (hcall : mapPageForPagetable ((s.loaded table i).called va level) = .ok page s') :
    nextTable table i va level s = .ok ((page ||| pageTableAttributes) &&& addressMask)
      ((s'.cameBack.stored table i (page ||| pageTableAttributes)).loaded table i) := by
  have hrun := pageForPagetable_run hcall
  simp only [nextTable, bind, EStateM.bind, load_run, h, if_true, hrun, store_run, stored_mem,
    Mem.set_same, pure_run]

theorem nextTable_stop {s s' : Machine} {table : Nat} {i : Index} {va level : Nat} {e : Stop}
    (h : s.mem table i &&& 1 = 0)
    (hcall : mapPageForPagetable ((s.loaded table i).called va level) = .error e s') :
    nextTable table i va level s = .error e s' := by
  have hrun := pageForPagetable_stop hcall
  simp only [nextTable, bind, EStateM.bind, load_run, h, if_true, hrun]

/-- What supplying the missing table at `path` does. -/
structure Grafts (s s' : Machine) (va level present : Nat) (path : List Index) : Prop where
  present_le : present ≤ 3
  graftable : Graftable s.mem s.block present path
  space : ofMem s'.mem = (ofMem s.mem).graft s.block present path
  own : ∃ t, (ofMem s.mem).tables ((tablePath s.block).take present) = some t
  region : present < 3 → OneRegion s.block
  currentFree : s'.currentFree = s.block + 4 * pageSize
  requests : s'.requests = s.requests
  calls : s'.calls = s.calls ++ [⟨va, level, s.toKernel⟩]
  returned : ∃ k : Kernel, s'.returned = s.returned ++ [k] ∧
    ofMem k.mem = (ofMem s.mem).takeBlock s.block present ∧
    ∀ j, k.mem tmpL1Table j = s'.mem tmpL1Table j ∧ k.mem tmpL2Table j = s'.mem tmpL2Table j ∧
      k.mem tmpL3Table j = s'.mem tmpL3Table j
  frame : ∀ f j, (∀ p, (ofMem s.mem).tables p ≠ some f) →
    f ≠ tmpL1Table → f ≠ tmpL2Table → f ≠ tmpL3Table →
    f ≤ s.block ∨ s.block + 4 * pageSize ≤ f → s'.mem f j = s.mem f j
  authored : AllAuthored s → AllAuthored s'
  tmp1 : NoEntries s'.mem tmpL1Table
  tmp2 : NoEntries s'.mem tmpL2Table
  tidy : (present = 0 → ∀ j,
      s'.mem tmpL1Table j = 0 ∧ s'.mem tmpL2Table j = 0 ∧ s'.mem tmpL3Table j = 0) ∧
    (present = 3 → ∀ j, s'.mem tmpL1Table j = s.mem tmpL1Table j ∧
      s'.mem tmpL2Table j = s.mem tmpL2Table j ∧ s'.mem tmpL3Table j = s.mem tmpL3Table j)

section LinkStore
variable {s : Machine} {path : List Index} {table page : Nat} {i : Index}
variable (inj : (ofMem s.mem).Injective) (hlen : path.length ≤ 2)
variable (hpath : (ofMem s.mem).tables path = some table) (hpage : IsPage page)
variable (hclean : NoEntries s.mem page) (hne : page ≠ table)
include inj hlen hpath hpage hclean hne

theorem linkStore_space :
    ofMem (s.mem.set table i (page + 3)) = (ofMem s.mem).linkTable (path ++ [i]) page := by
  have change : SlotChange s.mem (s.mem.set table i (page + 3)) path table i :=
    ⟨hpath, fun p f j _ hne => Mem.set_other _ _ (by tauto)⟩
  apply change.linkTable inj hlen (child_link hpage (Mem.set_same _ _ _ _))
  intro j
  rw [Mem.set_other _ _ fun h => hne h.1]
  exact hclean j

theorem linkStore_authored (old : AllAuthored s) :
    AllAuthored (s.stored table i (page + 3)) := by
  intro p f j hf hvalid
  rw [stored_mem] at hf hvalid
  rw [Authored, stored_mem, written_stored]
  by_cases hslot : f = table ∧ j = i
  · obtain ⟨rfl, rfl⟩ := hslot
    obtain ⟨haligned, _⟩ := hpage
    rw [Mem.set_same]
    exact ⟨by omega, Or.inr ⟨rfl, rfl⟩⟩
  rw [Mem.set_other _ _ hslot] at hvalid ⊢
  have hnew : f ≠ page := by
    rintro rfl
    exact hvalid (hclean j)
  rw [linkStore_space inj hlen hpath hpage hclean hne] at hf
  simp only [Space.linkTable] at hf
  split at hf
  · split at hf
    · exact absurd (Option.some.inj hf).symm hnew
    · cases hf
  · obtain ⟨hlow, hwritten⟩ := old p f j hf hvalid
    exact ⟨hlow, Or.inl hwritten⟩

end LinkStore

theorem nextTable_graft {s : Machine} {path : List Index} {table : Nat} {i : Index}
    (va level : Nat) (ready : Ready s.toKernel) (hlen : path.length ≤ 2)
    (hpath : (ofMem s.mem).tables path = some table) (hmissing : s.mem table i &&& 1 = 0)
    (hclean : NoEntries s.mem s.block) :
    ∃ s' present, nextTable table i va level s = .ok s.block s' ∧
      Grafts s s' va level present (path ++ [i]) := by
  obtain ⟨s2, present, hrun, takes⟩ :=
    mapPageForPagetable_spec (s := (s.loaded table i).called va level) ready
  change mapPageForPagetable _ = .ok s.block s2 at hrun
  obtain ⟨hlt, hne1, hne2, hne3⟩ := ready.separate _ _ hpath
  have hlink := link_eq ready.page.1
  have hnext := nextTable_invalid va level hmissing hrun
  rw [hlink, link_address ready.page] at hnext
  have hspace : ofMem s2.mem = (ofMem s.mem).takeBlock s.block present := takes.space
  have hgraft : Graftable s.mem s.block present (path ++ [i]) := by
    refine ⟨fun h => (takes.missing h).2, ?_⟩
    rw [ofMem_concat i hlen, hpath]
    exact child_of_invalid hmissing
  have hpath2 : (ofMem s2.mem).tables path = some table := hspace ▸ hgraft.takeBlock_tables hpath
  have hfree : ∀ p, (ofMem s.mem).tables p ≠ some s.block := by
    intro p hp
    exact absurd (ready.separate p _ hp).1 (lt_irrefl _)
  have habove : s.block ≠ tmpL1Table ∧ s.block ≠ tmpL2Table ∧ s.block ≠ tmpL3Table := by
    have h := ready.above
    simp only [kernelStart, tmpL1Table, tmpL2Table, tmpL3Table, tmpPage1, tmpPage2, tmpPage3] at h ⊢
    omega
  have hclean2 : NoEntries s2.mem s.block := by
    intro j
    have hsame : s2.mem s.block j = s.mem s.block j :=
      takes.frame s.block j hfree habove.1 habove.2.1 habove.2.2 (Or.inl le_rfl)
    rw [hsame]
    exact hclean j
  have hinj2 : (ofMem s2.mem).Injective :=
    hspace ▸ takeBlock_injective ready.injective fun p t h => (ready.separate p t h).1
  have hold : AllAuthored s → AllAuthored s2 := by
    intro old
    refine takes.authored fun p f j hf hvalid => ?_
    obtain ⟨hlow, hwritten⟩ := old p f j hf hvalid
    exact ⟨hlow, written_loaded.mpr hwritten⟩
  have hother : ∀ f j, f ≠ table → s2.mem.set table i (s.block + 3) f j = s2.mem f j :=
    fun f j hf => Mem.set_other _ _ fun h => hf h.1
  have htmp : ∀ f, f = tmpL1Table ∨ f = tmpL2Table ∨ f = tmpL3Table → f ≠ table := by
    rintro f (rfl | rfl | rfl)
    · exact hne1.symm
    · exact hne2.symm
    · exact hne3.symm
  have htmp1 := fun j => hother tmpL1Table j (htmp _ (Or.inl rfl))
  have htmp2 := fun j => hother tmpL2Table j (htmp _ (Or.inr (Or.inl rfl)))
  have htmp3 := fun j => hother tmpL3Table j (htmp _ (Or.inr (Or.inr rfl)))
  refine ⟨_, present, hnext, takes.present_le, hgraft, ?_, takes.tables,
    fun h => (takes.missing h).1, takes.takes.currentFree_eq ready.room, takes.takes.requests,
    takes.takes.calls,
    ⟨s2.toKernel, ?_, hspace, ?_⟩, ?_, ?_, ?_, ?_, ?_⟩
  · apply (linkStore_space hinj2 hlen hpath2 ready.page hclean2 hlt.ne').trans
    rw [hspace]
    rfl
  · change s2.returned ++ [s2.toKernel] = _
    rw [takes.takes.returned]
    rfl
  · exact fun j => ⟨(htmp1 j).symm, (htmp2 j).symm, (htmp3 j).symm⟩
  · intro f j hf h1 h2 h3 hblock
    exact (hother f j fun h => hf path (h ▸ hpath)).trans (takes.frame f j hf h1 h2 h3 hblock)
  · intro old p f j hf hvalid
    obtain ⟨hlow, hwritten⟩ := linkStore_authored hinj2 hlen hpath2 ready.page hclean2 hlt.ne'
      (hold old) p f j hf hvalid
    exact ⟨hlow, written_loaded.mpr hwritten⟩
  · intro j
    exact (congrArg (· &&& 1) (htmp1 j)).trans (takes.tmp1 j)
  · intro j
    exact (congrArg (· &&& 1) (htmp2 j)).trans (takes.tmp2 j)
  · refine ⟨fun h j => ?_, fun h j => ?_⟩
    · obtain ⟨h1, h2, h3⟩ := takes.tidy.1 h j
      exact ⟨(htmp1 j).trans h1, (htmp2 j).trans h2, (htmp3 j).trans h3⟩
    · obtain ⟨h1, h2, h3⟩ := takes.tidy.2 h j
      exact ⟨(htmp1 j).trans h1, (htmp2 j).trans h2, (htmp3 j).trans h3⟩

end SelfmadeOS
