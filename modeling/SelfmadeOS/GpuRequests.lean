import SelfmadeOS.Records

/-!
# The requests of the GPU (`virtio_gpu_driver.cpp`)

The structures that the driver puts into memory, and what the device makes of the bytes: the
header says which structure follows it.
-/

namespace SelfmadeOS
set_option autoImplicit false
open Records

structure VirtioGpuRect where
  x : Nat
  y : Nat
  width : Nat
  height : Nat
deriving DecidableEq

structure VirtioGpuMemEntry where
  addr : Nat
  length : Nat
deriving DecidableEq

/-- The requests that the driver knows, with what their structures say. -/
inductive GpuRequest where
  | getDisplayInfo
  | resourceCreate2D (resourceId format width height : Nat)
  | resourceAttachBacking (resourceId : Nat) (entries : List VirtioGpuMemEntry)
  | setScanout (r : VirtioGpuRect) (scanoutId resourceId : Nat)
  | transferToHost2D (r : VirtioGpuRect) (offset resourceId : Nat)
  | resourceFlush (r : VirtioGpuRect) (resourceId : Nat)
deriving DecidableEq

def GpuRequest.type : GpuRequest → Nat
  | .getDisplayInfo => 0x0100
  | .resourceCreate2D _ _ _ _ => 0x0101
  | .setScanout _ _ _ => 0x0103
  | .resourceFlush _ _ => 0x0104
  | .transferToHost2D _ _ _ => 0x0105
  | .resourceAttachBacking _ _ => 0x0106

/-- `virtio_gpu_ctrl_hdr`: flags, fence and context are 0, and `kalloc` has cleared the rest. -/
def ctrlHdr (type : Nat) : List Field := [⟨4, type⟩, ⟨4, 0⟩, ⟨8, 0⟩, ⟨4, 0⟩, ⟨1, 0⟩, ⟨3, 0⟩]

def VirtioGpuRect.fields (r : VirtioGpuRect) : List Field :=
  [⟨4, r.x⟩, ⟨4, r.y⟩, ⟨4, r.width⟩, ⟨4, r.height⟩]

def VirtioGpuMemEntry.fields (e : VirtioGpuMemEntry) : List Field :=
  [⟨8, e.addr⟩, ⟨4, e.length⟩, ⟨4, 0⟩]

namespace GpuRequest

def body : GpuRequest → List Field
  | getDisplayInfo => []
  | resourceCreate2D resourceId format width height =>
    [⟨4, resourceId⟩, ⟨4, format⟩, ⟨4, width⟩, ⟨4, height⟩]
  | resourceAttachBacking resourceId entries =>
    [⟨4, resourceId⟩, ⟨4, entries.length⟩] ++ entries.flatMap VirtioGpuMemEntry.fields
  | setScanout r scanoutId resourceId => r.fields ++ [⟨4, scanoutId⟩, ⟨4, resourceId⟩]
  | transferToHost2D r offset resourceId =>
    r.fields ++ [⟨8, offset⟩, ⟨4, resourceId⟩, ⟨4, 0⟩]
  | resourceFlush r resourceId => r.fields ++ [⟨4, resourceId⟩, ⟨4, 0⟩]

def record (q : GpuRequest) : List Field := ctrlHdr q.type ++ q.body

end GpuRequest

def parseMemEntries : Nat → List (BitVec 8) → Option (List VirtioGpuMemEntry)
  | 0, _ => some []
  | n + 1, bytes =>
    match unpackAll [8, 4, 4] bytes with
    | some [addr, length, _] => (parseMemEntries n (bytes.drop 16)).map (⟨addr, length⟩ :: ·)
    | _ => none

/-- The request that the structure behind the header is, for the type that the header names. -/
def GpuRequest.parseBody (type : Nat) (bytes : List (BitVec 8)) : Option GpuRequest :=
  if type = 0x0100 then some .getDisplayInfo
  else if type = 0x0101 then
    match unpackAll [4, 4, 4, 4] bytes with
    | some [resourceId, format, width, height] =>
      some (.resourceCreate2D resourceId format width height)
    | _ => none
  else if type = 0x0103 then
    match unpackAll [4, 4, 4, 4, 4, 4] bytes with
    | some [x, y, width, height, scanoutId, resourceId] =>
      some (.setScanout ⟨x, y, width, height⟩ scanoutId resourceId)
    | _ => none
  else if type = 0x0104 then
    match unpackAll [4, 4, 4, 4, 4, 4] bytes with
    | some [x, y, width, height, resourceId, _] =>
      some (.resourceFlush ⟨x, y, width, height⟩ resourceId)
    | _ => none
  else if type = 0x0105 then
    match unpackAll [4, 4, 4, 4, 8, 4, 4] bytes with
    | some [x, y, width, height, offset, resourceId, _] =>
      some (.transferToHost2D ⟨x, y, width, height⟩ offset resourceId)
    | _ => none
  else if type = 0x0106 then
    match unpackAll [4, 4] bytes with
    | some [resourceId, nrEntries] =>
      (parseMemEntries nrEntries (bytes.drop 8)).map (.resourceAttachBacking resourceId ·)
    | _ => none
  else none

def GpuRequest.parse (bytes : List (BitVec 8)) : Option GpuRequest :=
  match unpackAll [4, 4, 8, 4, 1, 3] bytes with
  | some (type :: _) => GpuRequest.parseBody type (bytes.drop 24)
  | _ => none

section roundtrip

theorem pack_drop {r : List Field} {n : Nat} (h : size r = n) (rest : List (BitVec 8)) :
    (pack r ++ rest).drop n = rest := by
  rw [← h, ← pack_length r, List.drop_left]

theorem parseMemEntries_pack {entries : List VirtioGpuMemEntry}
    (h : ∀ f ∈ entries.flatMap VirtioGpuMemEntry.fields, f.Fits) (rest : List (BitVec 8)) :
    parseMemEntries entries.length
      (pack (entries.flatMap VirtioGpuMemEntry.fields) ++ rest) = some entries := by
  induction entries with
  | nil => rfl
  | cons e entries ih =>
    rw [List.flatMap_cons] at h ⊢
    obtain ⟨hfirst, hrest⟩ := List.forall_mem_append.mp h
    have hread := unpackAll_pack hfirst
      (pack (entries.flatMap VirtioGpuMemEntry.fields) ++ rest)
    rw [List.length_cons, parseMemEntries, pack_append, List.append_assoc]
    have hwidths : e.fields.map Field.width = [8, 4, 4] := rfl
    rw [hwidths] at hread
    rw [hread]
    have hdrop := pack_drop (r := e.fields) (n := 16) rfl
      (pack (entries.flatMap VirtioGpuMemEntry.fields) ++ rest)
    change (parseMemEntries entries.length (List.drop 16 _)).map _ = _
    rw [hdrop, ih hrest]
    rfl

namespace GpuRequest
variable {q : GpuRequest} (h : ∀ f ∈ q.record, f.Fits)
include h

theorem parseBody_body (rest : List (BitVec 8)) :
    parseBody q.type (pack q.body ++ rest) = some q := by
  have hbody : ∀ f ∈ q.body, f.Fits := fun f hf => h f (List.mem_append_right _ hf)
  have hread := unpackAll_pack hbody rest
  cases q with
  | getDisplayInfo => rfl
  | resourceCreate2D resourceId format width height =>
    change unpackAll [4, 4, 4, 4] _ = _ at hread
    simp only [parseBody, type, Nat.reduceEqDiff, if_false, if_true, hread]
    rfl
  | resourceAttachBacking resourceId entries =>
    obtain ⟨hhead, hentries⟩ := List.forall_mem_append.mp hbody
    have hfirst := unpackAll_pack hhead
      (pack (entries.flatMap VirtioGpuMemEntry.fields) ++ rest)
    change unpackAll [4, 4] _ = _ at hfirst
    simp only [parseBody, type, Nat.reduceEqDiff, if_false, if_true, body,
      pack_append, List.append_assoc, hfirst, List.map_cons, List.map_nil]
    have hdrop := pack_drop (r := [⟨4, resourceId⟩, ⟨4, entries.length⟩]) (n := 8) rfl
      (pack (entries.flatMap VirtioGpuMemEntry.fields) ++ rest)
    rw [hdrop, parseMemEntries_pack hentries]
    rfl
  | setScanout r scanoutId resourceId =>
    change unpackAll [4, 4, 4, 4, 4, 4] _ = _ at hread
    simp only [parseBody, type, Nat.reduceEqDiff, if_false, if_true, hread]
    rfl
  | transferToHost2D r offset resourceId =>
    change unpackAll [4, 4, 4, 4, 8, 4, 4] _ = _ at hread
    simp only [parseBody, type, Nat.reduceEqDiff, if_false, if_true, hread]
    rfl
  | resourceFlush r resourceId =>
    change unpackAll [4, 4, 4, 4, 4, 4] _ = _ at hread
    simp only [parseBody, type, Nat.reduceEqDiff, if_false, if_true, hread]
    rfl

theorem parse_record (rest : List (BitVec 8)) : parse (pack q.record ++ rest) = some q := by
  have hhdr : ∀ f ∈ ctrlHdr q.type, f.Fits := fun f hf => h f (List.mem_append_left _ hf)
  have hread := unpackAll_pack hhdr (pack q.body ++ rest)
  have hwidths : (ctrlHdr q.type).map Field.width = [4, 4, 8, 4, 1, 3] := rfl
  rw [hwidths] at hread
  rw [parse, record, pack_append, List.append_assoc, hread]
  have hdrop := pack_drop (r := ctrlHdr q.type) (n := 24) rfl (pack q.body ++ rest)
  change parseBody q.type (List.drop 24 _) = _
  rw [hdrop]
  exact parseBody_body h rest

end GpuRequest

end roundtrip

end SelfmadeOS
