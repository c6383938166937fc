import SelfmadeOS.GpuRequests
import SelfmadeOS.KernelLogger

/-!
# A 2D device

The other side of the requests, as the driver relies on it: resources with pixels of their own
and backing memory, scanouts that show a part of a resource, and a picture for each of them that
changes when the resource is flushed. Response types are those of `virtio_gpu_ctrl_type`.
-/

namespace SelfmadeOS
set_option autoImplicit false
open ByteMemory Records

def respOkDisplayInfo : Nat := 0x1101
def respErrUnspec : Nat := 0x1200
def respErrInvalidScanoutId : Nat := 0x1202
def respErrInvalidResourceId : Nat := 0x1203
def respErrInvalidParameter : Nat := 0x1205

def gpuMaxScanouts : Nat := 16

def gpuFormats : List Nat := [1, 2, 3, 4, 67, 68, 121, 134]

/-- A resource of four bytes a pixel, row after row. -/
structure Resource where
  width : Nat
  height : Nat
  format : Nat
  backing : List VirtioGpuMemEntry
  pixels : Bytes

structure Scanout where
  r : VirtioGpuRect
  resourceId : Nat

structure DisplayOne where
  r : VirtioGpuRect
  enabled : Nat

def DisplayOne.fields (d : DisplayOne) : List Field := d.r.fields ++ [⟨4, d.enabled⟩, ⟨4, 0⟩]

def DisplayOne.off : DisplayOne := ⟨⟨0, 0, 0, 0⟩, 0⟩

structure Gpu where
  modes : List DisplayOne
  resources : Nat → Option Resource
  scanouts : Nat → Option Scanout
  shown : Nat → Bytes

def backingByte (mem : Bytes) : List VirtioGpuMemEntry → Nat → Option (BitVec 8)
  | [], _ => none
  | e :: entries, i =>
    if i < e.length then some (mem (e.addr + i)) else backingByte mem entries (i - e.length)

namespace VirtioGpuRect

def Inside (r : VirtioGpuRect) (width height : Nat) : Prop :=
  0 < r.width ∧ 0 < r.height ∧ r.x + r.width ≤ width ∧ r.y + r.height ≤ height

instance (r : VirtioGpuRect) (width height : Nat) : Decidable (r.Inside width height) :=
  inferInstanceAs (Decidable (_ ∧ _ ∧ _ ∧ _))

def Covers (r : VirtioGpuRect) (x y : Nat) : Prop :=
  (r.x ≤ x ∧ x < r.x + r.width) ∧ (r.y ≤ y ∧ y < r.y + r.height)

instance (r : VirtioGpuRect) (x y : Nat) : Decidable (r.Covers x y) :=
  inferInstanceAs (Decidable ((_ ∧ _) ∧ _ ∧ _))

end VirtioGpuRect

namespace Resource

/-- The pixels of a rectangle are taken from memory; `offset` is the place of the first one. -/
def transfer (res : Resource) (mem : Bytes) (r : VirtioGpuRect) (offset : Nat) : Resource :=
  let stride := 4 * res.width
  { res with
    pixels := fun i =>
      let y := i / stride
      let x := i % stride / 4
      if r.Covers x y then
        (backingByte mem res.backing
          (offset + (y - r.y) * stride + (i % stride - 4 * r.x))).getD (res.pixels i)
      else res.pixels i }

/-- What a screen shows after a flush, where the flushed rectangle meets its own. -/
def refresh (res : Resource) (s : Scanout) (r : VirtioGpuRect) (shown : Bytes) : Bytes := fun i =>
  let stride := 4 * s.r.width
  let y := s.r.y + i / stride
  let x := s.r.x + i % stride / 4
  if r.Covers x y then res.pixels (y * (4 * res.width) + 4 * s.r.x + i % stride) else shown i

end Resource

namespace Gpu

def setResource (g : Gpu) (id : Nat) (res : Resource) : Gpu :=
  { g with resources := Function.update g.resources id (some res) }

/-- All screens that show the resource are refreshed. -/
def flush (g : Gpu) (id : Nat) (res : Resource) (r : VirtioGpuRect) : Gpu :=
  { g with
    shown := fun n =>
      match g.scanouts n with
      | some s => if s.resourceId = id then res.refresh s r (g.shown n) else g.shown n
      | none => g.shown n }

def executeRequest (g : Gpu) (mem : Bytes) : GpuRequest → Gpu × Nat
  | .getDisplayInfo => (g, respOkDisplayInfo)
  | .resourceCreate2D id format width height =>
    if id = 0 ∨ (g.resources id).isSome then (g, respErrInvalidResourceId)
    else if format ∈ gpuFormats then
      (g.setResource id ⟨width, height, format, [], fun _ => 0⟩, respOkNodata)
    else (g, respErrInvalidParameter)
  | .resourceAttachBacking id entries =>
    match g.resources id with
    | none => (g, respErrInvalidResourceId)
    | some res =>
      if res.backing = [] then (g.setResource id { res with backing := entries }, respOkNodata)
      else (g, respErrUnspec)
  | .setScanout r scanoutId id =>
    if scanoutId < g.modes.length then
      if id = 0 then
        ({ g with scanouts := Function.update g.scanouts scanoutId none }, respOkNodata)
      else
        match g.resources id with
        | none => (g, respErrInvalidResourceId)
        | some res =>
          if r.Inside res.width res.height then
            ({ g with scanouts := Function.update g.scanouts scanoutId (some ⟨r, id⟩) },
              respOkNodata)
          else (g, respErrInvalidParameter)
    else (g, respErrInvalidScanoutId)
  | .transferToHost2D r offset id =>
    match g.resources id with
    | none => (g, respErrInvalidResourceId)
    | some res =>
      if res.backing = [] then (g, respErrUnspec)
      else if r.Inside res.width res.height then
        (g.setResource id (res.transfer mem r offset), respOkNodata)
      else (g, respErrInvalidParameter)
  | .resourceFlush r id =>
    match g.resources id with
    | none => (g, respErrInvalidResourceId)
    | some res =>
      if r.Inside res.width res.height then
        (g.flush id res r, respOkNodata)
      else (g, respErrInvalidParameter)

def Accepts (g : Gpu) (mem : Bytes) (q : GpuRequest) : Prop :=
  (g.executeRequest mem q).2 < respErrUnspec

/-- The fields behind the header of a response: sixteen displays, those that are off last. -/
def responseBody (g : Gpu) : GpuRequest → List Field
  | .getDisplayInfo =>
    (g.modes ++ List.replicate (gpuMaxScanouts - g.modes.length) DisplayOne.off).flatMap
      DisplayOne.fields
  | _ => []

/-- A request that cannot be read gets an error. -/
def execute (g : Gpu) (mem : Bytes) (bytes : List (BitVec 8)) : Gpu × List (BitVec 8) :=
  match GpuRequest.parse bytes with
  | none => (g, pack (ctrlHdr respErrUnspec))
  | some q =>
    let result := g.executeRequest mem q
    (result.1, pack (ctrlHdr result.2 ++ g.responseBody q))

end Gpu

end SelfmadeOS
