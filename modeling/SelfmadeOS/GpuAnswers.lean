import SelfmadeOS.GpuDevice
import SelfmadeOS.GpuRefinement

/-!
# What a served command does

With the 2D device on the other side: the request is executed, its response type is what the
driver reads, and memory outside the blocks of the command is as before.
-/

namespace SelfmadeOS
set_option autoImplicit false
open ByteMemory Records

section blocks
variable {c : Command} {b : Buffers} {memory2d : Nat}

def InBlocks (blocks : List (Nat × Nat)) (s : Store) : Prop :=
  ∃ block ∈ blocks, block.1 ≤ s.address ∧ s.address + s.field.width ≤ block.1 + block.2

theorem request_block (c : Command) (b : Buffers) (memory2d : Nat) :
    (b.request, pageSize) ∈ c.blocks b memory2d := by
  cases c <;> exact List.mem_cons_self

theorem response_block (c : Command) (b : Buffers) (memory2d : Nat) :
    (b.response, pageSize) ∈ c.blocks b memory2d := by
  cases c <;> simp [Command.blocks]

theorem layout_inBlocks {base : Nat} {r : List Field} {s : Store} {blocks : List (Nat × Nat)}
    (hs : s ∈ layout base r) (hsize : size r ≤ pageSize) (hblock : (base, pageSize) ∈ blocks) :
    InBlocks blocks s := by
  obtain ⟨hlow, hhigh⟩ := layout_inside hs
  exact ⟨_, hblock, hlow, Nat.le_trans hhigh (Nat.add_le_add_left hsize base)⟩

theorem kallocStores_inBlocks {block : Nat} {blocks : List (Nat × Nat)}
    (hblock : (block, pageSize) ∈ blocks) :
    ∀ s ∈ (kallocStores block).flatMap DriverStore.stores, InBlocks blocks s := by
  intro s hs
  refine ⟨_, hblock, ?_⟩
  rcases List.mem_pair.mp hs with rfl | rfl
  · exact ⟨Nat.le_refl _, Nat.le_refl _⟩
  · exact ⟨Nat.le_refl _, Nat.add_le_add_left (Nat.le_of_ble_eq_true rfl) _⟩

theorem clears_inBlocks : ∀ s ∈ c.clears b, InBlocks (c.blocks b memory2d) s := by
  intro s hs
  have hrequest := kallocStores_inBlocks (request_block c b memory2d) s
  have hresponse := kallocStores_inBlocks (response_block c b memory2d) s
  cases c <;> simp only [Command.clears, List.flatMap_append, List.mem_append] at hs
  case connectResourceToMemory =>
    rcases hs with (h | h) | h
    · exact hrequest h
    · exact kallocStores_inBlocks (List.mem_cons_of_mem _ List.mem_cons_self) s h
    · exact hresponse h
  all_goals
    rcases hs with h | h
    · exact hrequest h
    · exact hresponse h

theorem fieldStores_inBlocks :
    ∀ s ∈ c.fieldStores b memory2d, InBlocks (c.blocks b memory2d) s := by
  intro s hs
  by_cases hc : c = .connectResourceToMemory
  · subst hc
    rw [connect_fieldStores] at hs
    rcases List.mem_append.mp hs with h | h
    · exact layout_inBlocks (attachBacking_placed s h) (Nat.le_of_ble_eq_true rfl)
        (request_block _ _ _)
    rcases List.mem_cons.mp h with rfl | h
    · refine ⟨(memory2d, frameBytes), ?_, Nat.le_refl _, Nat.le_refl _⟩
      simp [Command.blocks]
    · exact layout_inBlocks (entry_placed s h) (Nat.le_of_ble_eq_true rfl)
        (List.mem_cons_of_mem _ List.mem_cons_self)
  · exact layout_inBlocks (fields_placed hc s hs) (request_size hc) (request_block _ _ _)

theorem stores_inBlocks : ∀ s ∈ c.stores b memory2d, InBlocks (c.blocks b memory2d) s := by
  intro s hs
  rw [stores_split] at hs
  rcases List.mem_append.mp hs with h | h
  · exact clears_inBlocks s h
  · exact fieldStores_inBlocks s h

end blocks

def OutsideBlocks (blocks : List (Nat × Nat)) (x : Nat) : Prop :=
  ∀ block ∈ blocks, x < block.1 ∨ block.1 + block.2 ≤ x

section serving
variable {σ : Type} {execute : Executes σ} {c : Command} {b : Buffers} {memory2d : Nat}

theorem filled_outside (w : World σ) {x : Nat} (h : OutsideBlocks (c.blocks b memory2d) x) :
    (w.filled c b memory2d).mem x = w.mem x := by
  rw [filled_mem]
  apply storeAll_other
  intro s hs
  obtain ⟨block, hblock, hlow, hhigh⟩ := stores_inBlocks s hs
  have hout := h block hblock
  omega

/-- A command writes to its blocks only, and so does the device for it. -/
theorem serve_outside (s : Outcome σ) {x : Nat} (h : OutsideBlocks (c.blocks b memory2d) x) :
    (s.serve execute (.command c b memory2d)).world.mem x = s.world.mem x := by
  rw [← filled_outside s.world h]
  apply writeBytes_outside
  have hresponse : x < b.response ∨ b.response + pageSize ≤ x :=
    h (b.response, pageSize) (response_block c b memory2d)
  have hroom : c.responseLen ≤ pageSize := by cases c <;> exact Nat.le_of_ble_eq_true rfl
  rw [List.length_take]
  omega

theorem serve_display (s : Outcome σ) :
    (s.serve execute (.command c b memory2d)).world.display =
      if c = .connectResourceToMemory then memory2d else s.world.display := by
  show (s.world.filled c b memory2d).display = _
  rw [World.filled, World.storeAll_eq, plan_display]

end serving

theorem responseType_fits (g : Gpu) (mem : Bytes) (q : GpuRequest) :
    (⟨4, (g.executeRequest mem q).2⟩ : Field).Fits := by
  have hsmall : (g.executeRequest mem q).2 ≤ respErrInvalidParameter := by
    cases q <;> simp only [Gpu.executeRequest] <;> repeat' split
    all_goals exact Nat.le_of_ble_eq_true rfl
  exact Nat.lt_of_le_of_lt hsmall (by decide : respErrInvalidParameter < 256 ^ 4)

/-- What the driver relies on, of a device that is seen as a `Gpu`: a request that is in order is
executed, and the response begins with its type. All else is left open. -/
structure Documented {σ : Type} (execute : Executes σ) (view : σ → Gpu) : Prop where
  device : ∀ d mem q, (∀ f ∈ q.record, f.Fits) → (view d).Accepts mem q →
    view (execute d mem (pack q.record)).1 = ((view d).executeRequest mem q).1
  response : ∀ d mem q, (∀ f ∈ q.record, f.Fits) → (view d).Accepts mem q →
    ∃ r, (execute d mem (pack q.record)).2 = pack (⟨4, ((view d).executeRequest mem q).2⟩ :: r)

theorem gpu_documented : Documented Gpu.execute id := by
  have hresult : ∀ (d : Gpu) mem q, (∀ f ∈ q.record, f.Fits) →
      d.execute mem (pack q.record) = ((d.executeRequest mem q).1,
        pack (ctrlHdr (d.executeRequest mem q).2 ++ d.responseBody q)) := by
    intro d mem q hfits
    have hparse := GpuRequest.parse_record hfits []
    rw [List.append_nil] at hparse
    rw [Gpu.execute, hparse]
  constructor
  · intro d mem q hfits _
    exact congrArg Prod.fst (hresult d mem q hfits)
  · intro d mem q hfits _
    exact ⟨_, congrArg Prod.snd (hresult d mem q hfits)⟩

section answers
variable {σ : Type} {execute : Executes σ} {view : σ → Gpu} {c : Command} {b : Buffers}
variable {memory2d : Nat}

theorem serve_documented (hdocumented : Documented execute view) (s : Outcome σ)
    (hallocated : (GpuOp.command c b memory2d).Allocated)
    (haccepts : (view s.world.device).Accepts (s.world.filled c b memory2d).mem
      (c.request memory2d)) :
    view (s.serve execute (.command c b memory2d)).world.device =
        ((view s.world.device).executeRequest (s.world.filled c b memory2d).mem
          (c.request memory2d)).1 ∧
      (s.serve execute (.command c b memory2d)).reads = s.reads ++
        [((view s.world.device).executeRequest (s.world.filled c b memory2d).mem
          (c.request memory2d)).2] := by
  have hbytes := command_bytes s.world.mem hallocated.1
  rw [← filled_mem] at hbytes
  have hfits := request_fits c hallocated.2
  have hroom : 4 ≤ c.responseLen := by cases c <;> exact Nat.le_of_ble_eq_true rfl
  rw [← filled_device s.world] at haccepts ⊢
  constructor
  · rw [← hdocumented.device _ _ _ hfits haccepts, ← hbytes]
    rfl
  · obtain ⟨r, hresponse⟩ := hdocumented.response _ _ _ hfits haccepts
    rw [← hbytes] at hresponse
    show s.reads ++ [loadBytes (writeBytes _ b.response ((execute _ _ _).2.take _)) _ 4] = _
    rw [hresponse]
    exact congrArg (fun type => s.reads ++ [type])
      (loadBytes_writeBytes_pack (responseType_fits _ _ _) _ _ hroom)

theorem serve_result (hdocumented : Documented execute view) (s : Outcome σ)
    (hallocated : (GpuOp.command c b memory2d).Allocated) {g : Gpu} {type : Nat}
    (htype : type < respErrUnspec)
    (hresult : (view s.world.device).executeRequest (s.world.filled c b memory2d).mem
      (c.request memory2d) = (g, type)) :
    view (s.serve execute (.command c b memory2d)).world.device = g ∧
      (s.serve execute (.command c b memory2d)).reads = s.reads ++ [type] := by
  have haccepts : (view s.world.device).Accepts (s.world.filled c b memory2d).mem
      (c.request memory2d) := by
    unfold Gpu.Accepts
    rw [hresult]
    exact htype
  have h := serve_documented hdocumented s hallocated haccepts
  rwa [hresult] at h

end answers

end SelfmadeOS
