import SelfmadeOS.HeapUse
import SelfmadeOS.IdentityMapping

/-! # Every requested page is mapped, and stays mapped -/

namespace SelfmadeOS
set_option autoImplicit false
open StateRuns Space

/-- Every address of every range requested so far walks to itself, with the attributes of the
operation that asked for it. -/
def AllServed (s : Machine) : Prop :=
  ∀ r ∈ s.requests, ∀ va, r.Covers va →
    translate s.mem va = some ⟨va, attributesOf r.attrIdx⟩

theorem Inv.allServed {S : Setting} {s : Machine} (inv : Inv S s) (served : Served S s) :
    AllServed s := by
  intro r hr va hcovers
  have haligned := inv.request_aligned hr
  have hlimit := inv.request_limit hr
  obtain ⟨hlow, hhigh⟩ := hcovers
  have hpage : r.Covers (pageOf va) := by
    simp only [Request.Covers, pageOf]
    omega
  have hmapped := served r hr (pageOf va) (by simp only [pageOf]; omega) hpage
  rw [(inv.request_kind hr hpage).1]
  exact inv.authored.onlyDescriptors.translate_descriptor _ (by omega) hmapped

theorem runOps_append (ops more : List Op) :
    runOps (ops ++ more) = runOps ops >>= fun _ => runOps more := by
  induction ops with
  | nil => rfl
  | cons op ops ih =>
    simp only [List.cons_append, runOps, ih, bind_assoc]

theorem runOps_single (op : Op) : runOps [op] = op.exec := bind_pure op.exec

theorem run_append (L : Layout) (ops more : List Op) :
    run L (ops ++ more) = run L ops >>= fun _ => runOps more := by
  simp only [run, runOps_append, bind_assoc]

/-- The range of a call in `s`, as it reaches the tables: whole pages at the pointer that `kalloc`
returns, or the device range itself. -/
def Op.Asks (s : Machine) (r : Request) : Op → Prop
  | .kalloc size => ∃ p s', SelfmadeOS.kalloc size s = .ok p s' ∧ r = ⟨p, allign size, 0⟩
  | .registerDeviceMemory address size => r = ⟨address, size % 2 ^ 32, 1⟩

/-- The record after a run is made by its calls: the ranges of `init_mmu`, then for each call the
one range that it asks for in the state it starts from. -/
structure CallsRecorded (L : Layout) (mem : Mem) (ops : List Op) (s : Machine) : Prop where
  initial : initRequests L <+: s.requests
  length : s.requests.length = (initRequests L).length + ops.length
  calls : ∀ k op, ops[k]? = some op → ∃ t r, run L (ops.take k) (boot L mem) = .ok () t ∧
    op.Asks t r ∧ s.requests[(initRequests L).length + k]? = some r

section calls
variable {L : Layout} {mem : Mem} {s s' : Machine} {op : Op} {ops : List Op}

theorem mapLoop_requests {attrIdx tests leftover address : Nat}
    (h : mapLoop attrIdx tests leftover address s = .ok () s') : s'.requests = s.requests := by
  have hkept := BlocksTaken.mapLoop attrIdx tests leftover address s
  rw [h, final_ok] at hkept
  exact hkept.1

/-- A call asks for one range, with its size cut to 32 bits. -/
theorem registerDeviceMemory_requests {address size : Nat}
    (h : registerDeviceMemory address size s = .ok () s') :
    s'.requests = s.requests ++ [⟨address, size % 2 ^ 32, 1⟩] := by
  rw [registerDeviceMemory, bind_run (request_run s address (size % 2 ^ 32) 1)] at h
  exact mapLoop_requests h

theorem mapAddr_requests {address size : Nat} (haligned : size % 4096 = 0)
    (h : mapAddr address size s = .ok () s') :
    s'.requests = s.requests ++ [⟨address, size, 0⟩] := by
  rw [mapAddr_run _ haligned] at h
  exact mapLoop_requests h

theorem kalloc_requests {size p : Nat} (h : kalloc size s = .ok p s') :
    s'.requests = s.requests ++ [⟨p, allign size, 0⟩] := by
  rw [kalloc, bind_run (palloc_run s _)] at h
  obtain ⟨_, t, hmap, hclear⟩ := bind_ok h
  rw [bind_run (clearBlock_run t _ _)] at hclear
  obtain ⟨rfl, rfl⟩ := EStateM.Result.ok.inj hclear
  rw [cleared_requests]
  have hrequests := mapAddr_requests (allign_aligned size) hmap
  exact hrequests

theorem exec_requests (h : op.exec s = .ok () s') :
    ∃ r, op.Asks s r ∧ s'.requests = s.requests ++ [r] := by
  cases op with
  | kalloc size =>
    obtain ⟨p, t, hkalloc, hend⟩ := bind_ok h
    obtain ⟨-, rfl⟩ := EStateM.Result.ok.inj hend
    exact ⟨_, ⟨p, t, hkalloc, rfl⟩, kalloc_requests hkalloc⟩
  | registerDeviceMemory address size => exact ⟨_, rfl, registerDeviceMemory_requests h⟩

theorem initMmu_requests (h : initMmu L (boot L mem) = .ok () s) :
    s.requests = initRequests L := by
  have habove := L.above
  have haligned := L.aligned
  have hsize : (L.kernelEnd - kernelStart) % 4096 = 0 := by
    simp only [kernelStart] at habove ⊢
    omega
  rw [initMmu_eq, beforeSctlr] at h
  obtain ⟨_, t, hbefore, hlog⟩ := bind_ok h
  rw [bind_run (initTables_run _)] at hbefore
  obtain ⟨_, u, hmap, huart⟩ := bind_ok hbefore
  obtain ⟨-, rfl⟩ := EStateM.Result.ok.inj hlog
  have hrequests := mapAddr_requests hsize hmap
  change u.requests = (started L mem).requests ++ _ at hrequests
  change t.requests = _
  rw [registerDeviceMemory_requests huart, hrequests, (started_fields L mem).2.1]
  rfl

theorem callsRecorded_of_run (h : run L ops (boot L mem) = .ok () s) :
    CallsRecorded L mem ops s := by
  induction ops using List.reverseRecOn generalizing s with
  | nil =>
    obtain ⟨_, t, hinit, hend⟩ := bind_ok h
    obtain ⟨-, rfl⟩ := EStateM.Result.ok.inj hend
    have hrequests := initMmu_requests hinit
    exact ⟨hrequests ▸ List.prefix_rfl, congrArg List.length hrequests, nofun⟩
  | append_singleton ops op ih =>
    rw [run_append] at h
    obtain ⟨_, t, hrun, hlast⟩ := bind_ok h
    rw [runOps_single] at hlast
    obtain ⟨r, hasks, hrequests⟩ := exec_requests hlast
    have hbefore := ih hrun
    refine ⟨?_, ?_, fun k op' hop => ?_⟩
    · rw [hrequests]
      exact hbefore.initial.trans (List.prefix_append _ _)
    · rw [hrequests, List.length_append, List.length_append, hbefore.length, Nat.add_assoc]
      rfl
    · rcases Nat.lt_or_ge k ops.length with hlt | hge
      · rw [List.getElem?_append_left hlt] at hop
        obtain ⟨u, r', htake, hasks', hget⟩ := hbefore.calls k op' hop
        rw [List.take_append_of_le_length hlt.le, hrequests]
        refine ⟨u, r', htake, hasks', ?_⟩
        rw [List.getElem?_append_left (by rw [hbefore.length]; omega), hget]
      · -- past the earlier calls only the last one is left
        rw [List.getElem?_append_right hge] at hop
        obtain ⟨hk, hop⟩ := List.getElem?_eq_some_iff.mp hop
        obtain rfl : k = ops.length := by
          simp only [List.length_singleton] at hk
          omega
        simp only [Nat.sub_self, List.getElem_singleton] at hop
        subst hop
        refine ⟨t, r, ?_, hasks, ?_⟩
        · rw [List.take_left]
          exact hrun
        · rw [hrequests, ← hbefore.length, List.getElem?_concat_length]

end calls

variable {L : Layout} {ramEnd : Nat} {mem : Mem} {ops more : List Op}

theorem RamRun.first (h : RamRun L ramEnd mem (ops ++ more)) : RamRun L ramEnd mem ops ∧
    (final (run L ops (boot L mem))).calls <+:
      (final (run L (ops ++ more) (boot L mem))).calls := by
  have hext : Extends (final (run L ops (boot L mem)))
      (final (run L (ops ++ more) (boot L mem))) := by
    rw [run_append]
    exact final_bind Extends.refl (fun _ => Recorded.runOps more) _
  have hlegal := fun op hop => h.legal op (List.mem_append_left more hop)
  refine ⟨⟨h.heap, h.limit, hlegal, ?_, ?_⟩, hext.calls⟩
  · exact fun r hr => h.requests r (hext.requests.subset hr)
  · exact fun c hc => h.blocks c (hext.calls.subset hc)

/-- After every operation the ranges of all calls so far are mapped as requested, the later
operations change none of these translations, and no call runs off its end. -/
theorem allServed_of_run (h : RamRun L ramEnd mem (ops ++ more)) (hzero : ZeroRam L ramEnd mem)
    (hregion : ∀ c ∈ (final (run L (ops ++ more) (boot L mem))).calls, OneRegion c.before.block) :
    ∃ s s', run L ops (boot L mem) = .ok () s ∧ runOps more s = .ok () s' ∧
      CallsRecorded L mem ops s ∧ CallsRecorded L mem (ops ++ more) s' ∧
      AllServed s ∧ AllServed s' ∧ s.requests <+: s'.requests ∧
      ∀ r ∈ s.requests, ∀ va, r.Covers va → translate s'.mem va = translate s.mem va := by
  obtain ⟨h1, hcalls⟩ := h.first
  obtain ⟨s, hrun, inv, served⟩ := h1.spec (h1.boots_zero hzero False) fun c hc =>
    ⟨Or.inl (hregion c (hcalls.subset hc)), Or.inl trivial, False.elim, False.elim⟩
  obtain ⟨s', hrun', inv', served'⟩ := h.spec (h.boots_zero hzero False) fun c hc =>
    ⟨Or.inl (hregion c hc), Or.inl trivial, False.elim, False.elim⟩
  have hrecorded := callsRecorded_of_run hrun
  have hrecorded' := callsRecorded_of_run hrun'
  rw [run_append, bind_run hrun] at hrun'
  have hpre : s.requests <+: s'.requests := by
    have hext := Recorded.runOps more s
    rw [hrun'] at hext
    exact hext.requests
  have hall := inv.allServed served
  have hall' := inv'.allServed served'
  refine ⟨s, s', hrun, hrun', hrecorded, hrecorded', hall, hall', hpre, fun r hr va hcovers => ?_⟩
  rw [hall r hr va hcovers, hall' r (hpre.subset hr) va hcovers]

theorem allServed_of_run_image :
    ∃ s s', run imageLayout [] (boot imageLayout zeroRam) = .ok () s ∧
      runOps [.kalloc 0xE8000] s = .ok () s' ∧ CallsRecorded imageLayout zeroRam [] s ∧
      CallsRecorded imageLayout zeroRam [.kalloc 0xE8000] s' ∧ AllServed s ∧ AllServed s' ∧
      s.requests <+: s'.requests ∧
      ∀ r ∈ s.requests, ∀ va, r.Covers va → translate s'.mem va = translate s.mem va := by
  obtain ⟨h, hzero, hcalls⟩ := image_ramRun
  have h' : RamRun imageLayout 0x50000000 zeroRam ([] ++ [.kalloc 0xE8000]) := h
  exact allServed_of_run h' hzero fun c hc => (hcalls c hc).1

end SelfmadeOS
