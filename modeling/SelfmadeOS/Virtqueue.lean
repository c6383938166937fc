import Mathlib.Algebra.Group.Nat.Defs
import SelfmadeOS.Transitions

/-!
# The virtqueue (`virtio_gpu_driver.cpp`)

The driver posts a chain of descriptors for each command and waits for the device. One step is
one access to memory that both sides see; the steps of the two sides interleave freely. A
command is the list of its stores before it posts, and what is needed from there on.
-/

namespace SelfmadeOS
set_option autoImplicit false
open Transitions

structure VirtqDesc where
  addr : Nat
  len : Nat
  flags : Nat
  next : Nat
deriving DecidableEq

def virtqDescFNext : Nat := 1
def virtqDescFWrite : Nat := 2

inductive Command where
  | getDisplayInfo
  | init2DFrameBuffer
  | connectResourceToMemory
  | setScanoutParam
  | transferToHost2d
  | resourceFlush
deriving DecidableEq

/-- What a command does before it posts: stores of `type` words (zero where `kalloc` clears a
block), stores to the fields of a descriptor, and the read of `used->idx`. -/
inductive Fill where
  | type (address value : Nat)
  | addr (i value : Nat)
  | len (i value : Nat)
  | flags (i value : Nat)
  | next (i value : Nat)
  | usedIdx
deriving DecidableEq

structure Buffers where
  request : Nat
  entry : Nat
  response : Nat

/-- What a command goes on with: its head, its descriptors in order, and its blocks. -/
structure Post where
  command : Command
  head : Nat
  links : List (Nat × VirtqDesc)
  buffers : Buffers

structure Posting where
  fills : List Fill
  post : Post

def Fill.desc (link : Nat × VirtqDesc) : List Fill :=
  [.addr link.1 link.2.addr, .len link.1 link.2.len, .flags link.1 link.2.flags,
    .next link.1 link.2.next]

def requestDesc (b : Buffers) (len next : Nat) : VirtqDesc :=
  ⟨b.request, len, virtqDescFNext, next⟩

def responseDesc (b : Buffers) (len : Nat) : VirtqDesc := ⟨b.response, len, virtqDescFWrite, 0⟩

/-- The constructor numbers its two descriptors itself, and reads `used->idx` only to wait. -/
def getDisplayInfo (d response : Nat) (b : Buffers) : Posting :=
  let l0 := (d, requestDesc b 24 1)
  let l1 := (response, responseDesc b 408)
  { fills := [.type b.request 0, .type b.response 0] ++ Fill.desc l0 ++ Fill.desc l1 ++
      [.type b.request 0x0100]
    post := ⟨.getDisplayInfo, 0, [l0, l1], b⟩ }

/-- The commands that differ in their type and in the size of their request. -/
def twoDescriptors (command : Command) (type requestLen d0 d1 : Nat) (b : Buffers) : Posting :=
  let l0 := (d0, requestDesc b requestLen d1)
  let l1 := (d1, responseDesc b 24)
  { fills := [.type b.request 0, .type b.response 0, .type b.request type] ++
      Fill.desc l0 ++ Fill.desc l1 ++ [.usedIdx]
    post := ⟨command, d0, [l0, l1], b⟩ }

def init2DFrameBuffer : Nat → Nat → Buffers → Posting :=
  twoDescriptors .init2DFrameBuffer 0x0101 40

def setScanoutParam : Nat → Nat → Buffers → Posting := twoDescriptors .setScanoutParam 0x0103 48

def transferToHost2dCommand : Nat → Nat → Buffers → Posting :=
  twoDescriptors .transferToHost2d 0x0105 56

def resourceFlushCommand : Nat → Nat → Buffers → Posting :=
  twoDescriptors .resourceFlush 0x0104 48

/-- Three descriptors, and `used->idx` is read before the last one is filled. -/
def connectResourceToMemory (d0 d1 d2 : Nat) (b : Buffers) : Posting :=
  let l0 := (d0, requestDesc b 32 d1)
  let l1 := (d1, (⟨b.entry, 16, virtqDescFNext, d2⟩ : VirtqDesc))
  let l2 := (d2, responseDesc b 24)
  { fills := [.type b.request 0, .type b.entry 0, .type b.response 0, .type b.request 0x0106] ++
      Fill.desc l0 ++ Fill.desc l1 ++ [.usedIdx] ++ Fill.desc l2
    post := ⟨.connectResourceToMemory, d0, [l0, l1, l2], b⟩ }

def Command.posting (c : Command) (d0 d1 d2 : Nat) (b : Buffers) : Posting :=
  match c with
  | .getDisplayInfo => SelfmadeOS.getDisplayInfo d0 d1 b
  | .init2DFrameBuffer => SelfmadeOS.init2DFrameBuffer d0 d1 b
  | .connectResourceToMemory => SelfmadeOS.connectResourceToMemory d0 d1 d2 b
  | .setScanoutParam => SelfmadeOS.setScanoutParam d0 d1 b
  | .transferToHost2d => transferToHost2dCommand d0 d1 b
  | .resourceFlush => resourceFlushCommand d0 d1 b

def Command.descriptors : Command → Nat
  | .connectResourceToMemory => 3
  | _ => 2

/-- Where the driver stands in a command: `filling []` is before the store to the ring. -/
inductive DriverPhase where
  | idle
  | filling (todo : List Fill) (p : Post)
  | publishing (p : Post)
  | notifying (p : Post)
  | waiting (p : Post)
  | reading (p : Post)

inductive DevicePhase where
  | idle
  | consumed (head : Nat)
  | answered (head : Nat)

/-- The queue and both sides; the last six fields are a record that neither side reads. -/
structure Virtqueue where
  queueSize : Nat
  desc : Nat → VirtqDesc
  availIdx : Nat
  ring : Nat → Nat
  usedIdx : Nat
  type : Nat → Nat
  descriptorIndex : Nat
  usedSnapshot : Nat
  driver : DriverPhase
  lastSeen : Nat
  device : DevicePhase
  posted : List Nat
  consumed : List Nat
  answers : List Nat
  completed : Nat
  reads : List Nat
  touched : List Nat

def setAt {α : Type} (f : Nat → α) (i : Nat) (a : α) : Nat → α :=
  fun j => if j = i then a else f j

namespace Virtqueue

def getNextDescriptor (v : Virtqueue) (i : Nat) : Nat := (i + 1) % v.queueSize

def setDesc (v : Virtqueue) (i : Nat) (f : VirtqDesc → VirtqDesc) : Virtqueue :=
  { v with desc := setAt v.desc i (f (v.desc i)), touched := v.touched ++ [i] }

def fill (v : Virtqueue) : Fill → Virtqueue
  | .type address value => { v with type := setAt v.type address value }
  | .addr i value => v.setDesc i fun d => { d with addr := value }
  | .len i value => v.setDesc i fun d => { d with len := value }
  | .flags i value => v.setDesc i fun d => { d with flags := value }
  | .next i value => v.setDesc i fun d => { d with next := value }
  | .usedIdx => { v with usedSnapshot := v.usedIdx }

def ringSlot (v : Virtqueue) (c : Command) : Nat :=
  if c = .getDisplayInfo then 0 else v.availIdx % v.queueSize

/-- What a command makes of `avail->idx`. -/
def nextAvail (v : Virtqueue) (c : Command) : Nat :=
  if c = .getDisplayInfo then 1 else (v.availIdx + 1) % 2 ^ 16

/-- The value of `used->idx` on which a command goes on waiting. -/
def waitsOn (v : Virtqueue) (c : Command) : Nat :=
  if c = .getDisplayInfo then 0 else v.usedSnapshot

def begin (v : Virtqueue) (c : Command) (b : Buffers) : Virtqueue :=
  let d0 := v.descriptorIndex
  let d1 := v.getNextDescriptor d0
  let d2 := v.getNextDescriptor d1
  let posting := c.posting d0 d1 d2 b
  { v with
    descriptorIndex := if c.descriptors = 3 then v.getNextDescriptor d2 else d2
    driver := .filling posting.fills posting.post
    touched := [] }

/-- The next access of the driver; a wait that has to go on is no step. -/
def driverStep (v : Virtqueue) : Option Virtqueue :=
  match v.driver with
  | .idle => none
  | .filling (f :: todo) p => some { v.fill f with driver := .filling todo p }
  | .filling [] p =>
    some { v with ring := setAt v.ring (v.ringSlot p.command) p.head, driver := .publishing p }
  | .publishing p =>
    some { v with
      availIdx := v.nextAvail p.command, posted := v.posted ++ [p.head], driver := .notifying p }
  | .notifying p => some { v with driver := .waiting p }
  | .waiting p =>
    if v.usedIdx = v.waitsOn p.command then none else some { v with driver := .reading p }
  | .reading p => some { v with reads := v.reads ++ [v.type p.buffers.response], driver := .idle }

def chain (desc : Nat → VirtqDesc) : (fuel head : Nat) → List Nat
  | 0, _ => []
  | fuel + 1, head =>
    head :: if (desc head).flags &&& virtqDescFNext ≠ 0 then chain desc fuel (desc head).next
      else []

def responseAddress (v : Virtqueue) (head : Nat) : Nat :=
  (v.desc ((chain v.desc v.queueSize head).getLastD head)).addr

def consume (v : Virtqueue) : Virtqueue :=
  let head := v.ring (v.lastSeen % v.queueSize)
  { v with
    lastSeen := (v.lastSeen + 1) % 2 ^ 16
    device := .consumed head
    consumed := v.consumed ++ [head] }

def answer (v : Virtqueue) (head value : Nat) : Virtqueue :=
  { v with
    type := setAt v.type (v.responseAddress head) value
    device := .answered head
    answers := v.answers ++ [value] }

def complete (v : Virtqueue) : Virtqueue :=
  { v with usedIdx := (v.usedIdx + 1) % 2 ^ 16, device := .idle, completed := v.completed + 1 }

end Virtqueue

/-- The accesses of the driver, by where it stands in its command. -/
inductive DriverMove (v : Virtqueue) : Virtqueue → Prop where
  | fill {f : Fill} {todo : List Fill} {p : Post} (hdriver : v.driver = .filling (f :: todo) p) :
      DriverMove v { v.fill f with driver := .filling todo p }
  | ring {p : Post} (hdriver : v.driver = .filling [] p) : DriverMove v
      { v with ring := setAt v.ring (v.ringSlot p.command) p.head, driver := .publishing p }
  | publish {p : Post} (hdriver : v.driver = .publishing p) : DriverMove v
      { v with
        availIdx := v.nextAvail p.command, posted := v.posted ++ [p.head], driver := .notifying p }
  | notify {p : Post} (hdriver : v.driver = .notifying p) :
      DriverMove v { v with driver := .waiting p }
  | wait {p : Post} (hdriver : v.driver = .waiting p) (hused : v.usedIdx ≠ v.waitsOn p.command) :
      DriverMove v { v with driver := .reading p }
  | read {p : Post} (hdriver : v.driver = .reading p) : DriverMove v
      { v with reads := v.reads ++ [v.type p.buffers.response], driver := .idle }

theorem driverStep_move {v v' : Virtqueue} (h : v.driverStep = some v') : DriverMove v v' := by
  unfold Virtqueue.driverStep at h
  split at h
  case h_1 => cases h
  case h_2 f todo p hdriver =>
    obtain rfl := Option.some.inj h
    exact .fill hdriver
  case h_3 p hdriver =>
    obtain rfl := Option.some.inj h
    exact .ring hdriver
  case h_4 p hdriver =>
    obtain rfl := Option.some.inj h
    exact .publish hdriver
  case h_5 p hdriver =>
    obtain rfl := Option.some.inj h
    exact .notify hdriver
  case h_6 p hdriver =>
    split at h
    · cases h
    · rename_i hused
      obtain rfl := Option.some.inj h
      exact .wait hdriver hused
  case h_7 p hdriver =>
    obtain rfl := Option.some.inj h
    exact .read hdriver

inductive QueueStep : Virtqueue → Virtqueue → Prop where
  | begin {v : Virtqueue} (c : Command) (b : Buffers) (hidle : v.driver = .idle)
      (hfirst : c ≠ .getDisplayInfo) : QueueStep v (v.begin c b)
  | driver {v v' : Virtqueue} (h : v.driverStep = some v') : QueueStep v v'
  | consume {v : Virtqueue} (hidle : v.device = .idle) (hnew : v.lastSeen ≠ v.availIdx) :
      QueueStep v v.consume
  | answer {v : Virtqueue} {head : Nat} (value : Nat) (hdevice : v.device = .consumed head) :
      QueueStep v (v.answer head value)
  | complete {v : Virtqueue} {head : Nat} (hdevice : v.device = .answered head) :
      QueueStep v v.complete

/-- The constructor has allocated the queue and begins its first command. -/
structure QueueStart (queueSize : Nat) (v : Virtqueue) : Prop where
  command : ∃ u b, v = Virtqueue.begin u .getDisplayInfo b ∧ u.queueSize = queueSize ∧
    u.descriptorIndex = 0 ∧ u.availIdx = 0 ∧ u.usedIdx = 0 ∧ u.lastSeen = 0 ∧
    u.device = .idle ∧ u.posted = [] ∧ u.consumed = [] ∧ u.answers = [] ∧ u.completed = 0 ∧
    u.reads = []

def queueSystem (queueSize : Nat) : System Virtqueue := ⟨QueueStart queueSize, QueueStep⟩

end SelfmadeOS
