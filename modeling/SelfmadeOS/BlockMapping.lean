import SelfmadeOS.TableCalls

/-!
# `map_page_for_pagetable` as an operation on the address space

From a state whose tables are a tree apart from the bump pointer and the temporary pages, every
path of the call refines `Space.takeBlock`: it grafts the missing tables of the block's own
region and maps them and the page it returns.
-/

namespace SelfmadeOS
set_option autoImplicit false
open Space

/-- A word that `mmu.c` wrote and that the hardware takes for a table or page descriptor. -/
def Authored (s : Machine) (page : Nat) (index : Index) : Prop :=
  s.mem page index % 4 = 3 ∧ Written s page index

def AllAuthored (s : Machine) : Prop :=
  ∀ p f j, (ofMem s.mem).tables p = some f → s.mem f j &&& 1 ≠ 0 → Authored s f j

def NoEntries (m : Mem) (page : Nat) : Prop := ∀ j, m page j &&& 1 = 0

/-- What a call of `map_page_for_pagetable` relies on. -/
structure Ready (k : Kernel) : Prop where
  injective : (ofMem k.mem).Injective
  page : IsPage k.block
  room : k.block + 4 * pageSize ≤ 2 ^ 48
  above : kernelStart ≤ k.block
  separate : ∀ p f, (ofMem k.mem).tables p = some f →
    f < k.block ∧ f ≠ tmpL1Table ∧ f ≠ tmpL2Table ∧ f ≠ tmpL3Table
  tmp1 : NoEntries k.mem tmpL1Table
  tmp2 : NoEntries k.mem tmpL2Table
  region : OneRegion k.block ∨ ∃ t, (ofMem k.mem).tables (tablePath k.block) = some t
  unmapped : (ofMem k.mem).pages k.block = none

/-- What the call does, when the block's own tables are there down to level `present`. -/
structure TakesBlock (s s' : Machine) (present : Nat) : Prop where
  space : ofMem s'.mem = (ofMem s.mem).takeBlock s.block present
  present_le : present ≤ 3
  tables : ∃ t, (ofMem s.mem).tables ((tablePath s.block).take present) = some t
  missing : present < 3 → OneRegion s.block ∧
    (ofMem s.mem).tables ((tablePath s.block).take (present + 1)) = none
  takes : Takes s.block s s'
  frame : ∀ f j, (∀ p, (ofMem s.mem).tables p ≠ some f) →
    f ≠ tmpL1Table → f ≠ tmpL2Table → f ≠ tmpL3Table →
    f ≤ s.block ∨ s.block + 4 * pageSize ≤ f → s'.mem f j = s.mem f j
  authored : AllAuthored s → AllAuthored s'
  tmp1 : NoEntries s'.mem tmpL1Table
  tmp2 : NoEntries s'.mem tmpL2Table
  tidy :
    (present = 0 →
      ∀ j, s'.mem tmpL1Table j = 0 ∧ s'.mem tmpL2Table j = 0 ∧ s'.mem tmpL3Table j = 0) ∧
    (present = 3 → ∀ j, s'.mem tmpL1Table j = s.mem tmpL1Table j ∧
      s'.mem tmpL2Table j = s.mem tmpL2Table j ∧ s'.mem tmpL3Table j = s.mem tmpL3Table j)

/-- The words after a path that grafts new tables at slot `i` of `table`. -/
structure NewTables (s s' : Machine) (present table : Nat) (i : Index) : Prop where
  present_le : present ≤ 2
  region : OneRegion s.block
  at_path : (ofMem s.mem).tables ((tablePath s.block).take present) = some table
  index : (tablePath s.block)[present]? = some i
  missing : s.mem table i &&& 1 = 0
  others : ∀ f j, f ≠ tmpL1Table → f ≠ tmpL2Table → f ≠ tmpL3Table →
    f ≤ s.block ∨ s.block + 4 * pageSize ≤ f → f ≠ table ∨ j ≠ i → s'.mem f j = s.mem f j
  slot : s'.mem table i = s.block + (present + 1) * pageSize + 3
  upper : ∀ d j, present < d → d ≤ 2 → s'.mem (s.block + d * pageSize) j =
    if (tablePath s.block)[d]? = some j then s.block + (d + 1) * pageSize + 3 else 0
  lower : ∀ a, IsPage a → tablePath a = tablePath s.block →
    s'.mem (s.block + 3 * pageSize) (l3Index a) =
      if TakesPage s.block present a then descriptor 0 a else 0
  takes : Takes s.block s s'
  written : Written s' table i ∧
    ∀ d j, present < d → d ≤ 3 → Written s' (s.block + d * pageSize) j
  tmp1 : NoEntries s'.mem tmpL1Table
  tmp2 : NoEntries s'.mem tmpL2Table
  tidy : present = 0 → ∀ j,
    s'.mem tmpL1Table j = 0 ∧ s'.mem tmpL2Table j = 0 ∧ s'.mem tmpL3Table j = 0

namespace NewTables
variable {s s' : Machine} {present table : Nat} {i : Index}
variable (new : NewTables s s' present table i) (ready : Ready s.toKernel)
include new ready

theorem slotChange : SlotChange s.mem s'.mem ((tablePath s.block).take present) table i where
  at_path := new.at_path
  frame := by
    intro p f j hf hne
    obtain ⟨hlt, h1, h2, h3⟩ := ready.separate p f hf
    exact new.others f j h1 h2 h3 (Or.inl hlt.le) hne

theorem space : ofMem s'.mem = (ofMem s.mem).takeBlock s.block present := by
  have hle := new.present_le
  apply (new.slotChange ready).takeBlock ready.injective hle ready.page new.region rfl new.index
  · exact child_of_invalid new.missing
  · exact child_link (new.region.isPage ready.page (by omega)) new.slot
  · intro d j hd hd2
    have hword := new.upper d j hd hd2
    split at hword
    · rename_i hj
      rw [if_pos hj]
      exact child_link (new.region.isPage ready.page (by omega)) hword
    · rename_i hj
      rw [if_neg hj]
      exact child_of_invalid (by rw [hword]; rfl)
  · intro a ha hpath
    have hword := new.lower a ha hpath
    split at hword
    · rename_i htakes
      rw [if_pos htakes]
      exact leaf_descriptor 0 ha hword
    · rename_i htakes
      rw [if_neg htakes]
      exact leaf_of_invalid (by rw [hword]; rfl)

theorem chain_authored {d : Nat} (hd : present < d) (hd3 : d ≤ 3) (j : Index)
    (hvalid : s'.mem (s.block + d * pageSize) j &&& 1 ≠ 0) :
    Authored s' (s.block + d * pageSize) j := by
  refine ⟨?_, new.written.2 d j hd hd3⟩
  by_cases hlast : d = 3
  · subst d
    obtain ⟨a, ha, hpath, rfl⟩ := exists_page (l0Index s.block) (l1Index s.block)
      (l2Index s.block) j
    have hword := new.lower a ha hpath
    rw [hword] at hvalid ⊢
    split at hvalid
    · rw [if_pos ‹_›]
      exact descriptor_low 0 ha
    · exact absurd rfl hvalid
  · have hword := new.upper d j hd (by omega)
    rw [hword] at hvalid ⊢
    split at hvalid
    · obtain ⟨haligned, _⟩ := new.region.isPage ready.page (j := d + 1) (by omega)
      rw [if_pos ‹_›]
      omega
    · exact absurd rfl hvalid

theorem authored (old : AllAuthored s) : AllAuthored s' := by
  intro p f j hf hvalid
  rw [new.space ready] at hf
  simp only [Space.takeBlock] at hf
  have hold : (ofMem s.mem).tables p = some f → Authored s' f j := by
    intro hf
    by_cases hslot : f = table ∧ j = i
    · obtain ⟨rfl, rfl⟩ := hslot
      have hle := new.present_le
      obtain ⟨haligned, _⟩ := new.region.isPage ready.page (j := present + 1) (by omega)
      refine ⟨?_, new.written.1⟩
      rw [new.slot]
      omega
    · have hsame := (new.slotChange ready).frame p f j hf (by tauto)
      rw [hsame] at hvalid
      obtain ⟨hlow, hwritten⟩ := old p f j hf hvalid
      exact ⟨hsame.symm ▸ hlow, new.takes.written hwritten⟩
  split at hf
  · rename_i hthrough
    split at hf
    · rename_i hpre
      obtain rfl := Option.some.inj hf
      exact new.chain_authored ready hthrough.1 hpre.length_le j hvalid
    · cases hf
  · exact hold hf

theorem takesBlock : TakesBlock s s' present where
  space := new.space ready
  present_le := Nat.le_succ_of_le new.present_le
  tables := ⟨table, new.at_path⟩
  missing := by
    intro _
    refine ⟨new.region, ?_⟩
    have hlen : ((tablePath s.block).take present).length ≤ 2 := by
      rw [List.length_take]
      exact le_trans (Nat.min_le_left _ _) new.present_le
    rw [List.take_add_one, new.index]
    change (ofMem s.mem).tables (_ ++ [i]) = none
    rw [ofMem_concat _ hlen, new.at_path]
    exact child_of_invalid new.missing
  takes := new.takes
  frame := by
    intro f j hf h1 h2 h3 hblock
    exact new.others f j h1 h2 h3 hblock (Or.inl fun h => hf _ (h ▸ new.at_path))
  authored := new.authored ready
  tmp1 := new.tmp1
  tmp2 := new.tmp2
  tidy := by
    refine ⟨new.tidy, fun h => ?_⟩
    have hle := new.present_le
    omega

end NewTables

section Reads
variable {m : Mem} {a l1 l2 l3 : Nat}
variable (h0 : m l0Table (l0Index a) &&& 1 ≠ 0) (hl1 : m l0Table (l0Index a) &&& addressMask = l1)
include h0 hl1

theorem tables_l1 : (ofMem m).tables [l0Index a] = some l1 := by
  rw [← List.nil_append [l0Index a], ofMem_concat _ (by simp), ofMem_root, Option.bind_some,
    child, if_neg h0, hl1]

variable (h1 : m l1 (l1Index a) &&& 1 ≠ 0) (hl2 : m l1 (l1Index a) &&& addressMask = l2)
include h1 hl2

theorem tables_l2 : (ofMem m).tables [l0Index a, l1Index a] = some l2 := by
  change (ofMem m).tables ([l0Index a] ++ [l1Index a]) = _
  rw [ofMem_concat _ (by simp), tables_l1 h0 hl1, Option.bind_some, child, if_neg h1, hl2]

variable (h2 : m l2 (l2Index a) &&& 1 ≠ 0) (hl3 : m l2 (l2Index a) &&& addressMask = l3)
include h2 hl3

theorem tables_l3 : (ofMem m).tables (tablePath a) = some l3 := by
  change (ofMem m).tables ([l0Index a, l1Index a] ++ [l2Index a]) = _
  rw [ofMem_concat _ (by simp), tables_l2 h0 hl1 h1 hl2, Option.bind_some, child, if_neg h2, hl3]

end Reads

theorem present_takesBlock {s : Machine} {l1 l2 l3 : Nat} (ready : Ready s.toKernel)
    (h0 : s.mem l0Table (l0Index s.block) &&& 1 ≠ 0)
    (hl1 : s.mem l0Table (l0Index s.block) &&& addressMask = l1)
    (h1 : s.mem l1 (l1Index s.block) &&& 1 ≠ 0)
    (hl2 : s.mem l1 (l1Index s.block) &&& addressMask = l2)
    (h2 : s.mem l2 (l2Index s.block) &&& 1 ≠ 0)
    (hl3 : s.mem l2 (l2Index s.block) &&& addressMask = l3) :
    ∃ s', mapPageForPagetable s = .ok s.block s' ∧ TakesBlock s s' 3 := by
  have hpath := tables_l3 h0 hl1 h1 hl2 h2 hl3
  obtain ⟨hlt, hne1, hne2, hne3⟩ := ready.separate _ _ hpath
  have hfree : s.mem l3 (l3Index s.block) &&& 1 = 0 := by
    have h := ready.unmapped
    rw [ofMem_pages ready.page, hpath, Option.bind_some, leaf] at h
    by_contra hvalid
    rw [if_neg hvalid] at h
    cases h
  refine ⟨_, (mapPageForPagetable_present h0 hl1 h1 hl2 h2 hl3).trans (if_pos hfree), ?_⟩
  have hdesc := descriptor_low 0 ready.page
  have change : SlotChange s.mem (s.mem.set l3 (l3Index s.block) (descriptor 0 s.block))
      (tablePath s.block) l3 (l3Index s.block) := by
    refine ⟨hpath, fun p f j _ hne => ?_⟩
    exact Mem.set_other _ _ (by tauto)
  have hspace := change.mapPage ready.injective ready.page rfl rfl
    (leaf_descriptor 0 ready.page (Mem.set_same _ _ _ _))
  have htakes := takes_read4 s l1 l2 l3
  have hmem : ((s.read4 l1 l2 l3).stored l3 (l3Index s.block) (descriptor 0 s.block)).mem =
      s.mem.set l3 (l3Index s.block) (descriptor 0 s.block) := by
    rw [stored_mem, read4_mem]
  refine ⟨?_, le_rfl, ⟨l3, hpath⟩, ?_, htakes.stored _ _ _, ?_, ?_, ?_, ?_, ?_⟩
  · rw [hmem]
    exact hspace.trans (takeBlock_present _ _).symm
  · exact fun h => absurd h (by decide)
  · intro f j hf _ _ _ _
    rw [hmem]
    exact Mem.set_other _ _ fun h => hf _ (h.1 ▸ hpath)
  · intro old p f j hf hvalid
    rw [hmem] at hf hvalid
    rw [hspace] at hf
    rw [Authored, hmem, written_stored]
    by_cases hslot : f = l3 ∧ j = l3Index s.block
    · obtain ⟨rfl, rfl⟩ := hslot
      rw [Mem.set_same]
      exact ⟨hdesc, Or.inr ⟨rfl, rfl⟩⟩
    · rw [Mem.set_other _ _ hslot] at hvalid ⊢
      obtain ⟨hlow, hwritten⟩ := old p f j hf hvalid
      exact ⟨hlow, Or.inl (htakes.written hwritten)⟩
  · intro j
    rw [hmem, Mem.set_other _ _ fun h => hne1 h.1.symm]
    exact ready.tmp1 j
  · intro j
    rw [hmem, Mem.set_other _ _ fun h => hne2 h.1.symm]
    exact ready.tmp2 j
  · refine ⟨fun h => absurd h (by decide), fun _ j => ?_⟩
    rw [hmem, Mem.set_other _ _ fun h => hne1 h.1.symm, Mem.set_other _ _ fun h => hne2 h.1.symm,
      Mem.set_other _ _ fun h => hne3 h.1.symm]
    exact ⟨rfl, rfl, rfl⟩

end SelfmadeOS
