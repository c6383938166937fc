import SelfmadeOS.GpuCommands
import SelfmadeOS.QueueOrder

/-!
# A session with the GPU

Driver, device and memory together. The two sides take their steps in any order; what comes of a
command is what would come of it if the device answered at once. What the device makes of a
request is a parameter.
-/

namespace SelfmadeOS
set_option autoImplicit false
open ByteMemory Records Transitions Virtqueue

/-- What there is besides the queue: memory, the device, and the driver's `display`. -/
structure World (σ : Type) where
  mem : Bytes
  device : σ
  display : Nat

abbrev Executes (σ : Type) : Type := σ → Bytes → List (BitVec 8) → σ × List (BitVec 8)

/-- What the kernel does: a store between the commands, or a command. -/
inductive GpuOp where
  | store (s : Store)
  | command (c : Command) (b : Buffers) (memory2d : Nat)

/-- The blocks of a command share no byte, and an address has 64 bits. -/
def GpuOp.Allocated : GpuOp → Prop
  | .store _ => True
  | .command c b memory2d => BlocksApart (c.blocks b memory2d) ∧ memory2d < 2 ^ 64

variable {σ : Type}

namespace World

def store (w : World σ) : DriverStore → World σ
  | .ram s => { w with mem := s.apply w.mem }
  | .display address => { w with display := address }
  | .queue f => { w with mem := storeAll w.mem f.stores }

def storeAll (w : World σ) (stores : List DriverStore) : World σ := stores.foldl store w

/-- The device executes the request that stands in the parts, and writes its response as far as
there is room. -/
def answer (execute : Executes σ) (w : World σ) (parts : List (Nat × Nat))
    (address length : Nat) : World σ :=
  let result := execute w.device w.mem (readParts w.mem parts)
  { w with
    mem := writeBytes w.mem address (result.2.take length)
    device := result.1 }

end World

def Command.responseLen : Command → Nat
  | .getDisplayInfo => 408
  | _ => 24

/-- The world and the response types that the driver has read. -/
structure Outcome (σ : Type) where
  world : World σ
  reads : List Nat

def World.filled (w : World σ) (c : Command) (b : Buffers) (memory2d : Nat) : World σ :=
  w.storeAll (c.plan 0 0 0 b memory2d)

def World.answered (execute : Executes σ) (w : World σ) (c : Command) (b : Buffers) : World σ :=
  w.answer execute (c.parts b) b.response c.responseLen

def Outcome.serve (execute : Executes σ) (s : Outcome σ) : GpuOp → Outcome σ
  | .store w => { s with world := s.world.store (.ram w) }
  | .command c b memory2d =>
    let world := (s.world.filled c b memory2d).answered execute c b
    ⟨world, s.reads ++ [loadBytes world.mem b.response 4]⟩

def Outcome.serveAll (execute : Executes σ) (s : Outcome σ) (ops : List GpuOp) : Outcome σ :=
  ops.foldl (Outcome.serve execute) s

/-- The stores that the current command has still to do are in `plan`; `history` is a record. -/
structure Session (σ : Type) where
  queue : Virtqueue
  world : World σ
  plan : List DriverStore
  history : List GpuOp

namespace Virtqueue

def chainParts (v : Virtqueue) (head : Nat) : List (Nat × Nat) :=
  (((chain v.desc v.queueSize head).map v.desc).filter VirtqDesc.deviceReads).map
    fun d => (d.addr, d.len)

def responseLength (v : Virtqueue) (head : Nat) : Nat :=
  (v.desc ((chain v.desc v.queueSize head).getLastD head)).len

end Virtqueue

namespace Session

/-- A command takes its descriptors, and its blocks from `kalloc`. -/
def begin (x : Session σ) (c : Command) (b : Buffers) (memory2d : Nat) : Session σ :=
  let d0 := x.queue.descriptorIndex
  let d1 := x.queue.getNextDescriptor d0
  let d2 := x.queue.getNextDescriptor d1
  { x with
    queue := x.queue.begin c b
    plan := c.plan d0 d1 d2 b memory2d
    history := x.history ++ [.command c b memory2d] }

/-- The device follows the chain, executes the request and answers in the last block. -/
def answer (execute : Executes σ) (x : Session σ) (head : Nat) : Session σ :=
  let address := x.queue.responseAddress head
  let world := x.world.answer execute (x.queue.chainParts head) address
    (x.queue.responseLength head)
  { x with queue := x.queue.answer head (loadBytes world.mem address 4), world := world }

end Session

inductive SessionStep (execute : Executes σ) : Session σ → Session σ → Prop where
  | store {x : Session σ} (s : Store) (hidle : x.queue.driver = .idle) :
      SessionStep execute x
        { x with world := x.world.store (.ram s), history := x.history ++ [.store s] }
  | begin {x : Session σ} (c : Command) (b : Buffers) (memory2d : Nat)
      (hidle : x.queue.driver = .idle) (hfirst : c ≠ .getDisplayInfo)
      (hallocated : (GpuOp.command c b memory2d).Allocated) :
      SessionStep execute x (x.begin c b memory2d)
  | plain {x : Session σ} {d : DriverStore} {rest : List DriverStore}
      (hplan : x.plan = d :: rest) (hplain : d.fills = []) :
      SessionStep execute x { x with world := x.world.store d, plan := rest }
  | fill {x : Session σ} {f : Fill} {rest : List DriverStore} {v : Virtqueue}
      (hplan : x.plan = .queue f :: rest) (hdriver : x.queue.driverStep = some v) :
      SessionStep execute x
        { x with queue := v, world := x.world.store (.queue f), plan := rest }
  | driver {x : Session σ} {v : Virtqueue} (hplan : x.plan = [])
      (hdriver : x.queue.driverStep = some v) : SessionStep execute x { x with queue := v }
  | consume {x : Session σ} (hidle : x.queue.device = .idle)
      (hnew : x.queue.lastSeen ≠ x.queue.availIdx) :
      SessionStep execute x { x with queue := x.queue.consume }
  | answer {x : Session σ} {head : Nat} (hdevice : x.queue.device = .consumed head) :
      SessionStep execute x (x.answer execute head)
  | complete {x : Session σ} {head : Nat} (hdevice : x.queue.device = .answered head) :
      SessionStep execute x { x with queue := x.queue.complete }

/-- The queue is allocated, and the constructor begins its command in a world as it finds it. -/
structure SessionStart (queueSize : Nat) (world : World σ) (x : Session σ) : Prop where
  queue : QueueStart queueSize x.queue
  first : ∃ (u : Session σ) (b : Buffers), x = u.begin .getDisplayInfo b 0 ∧
    (GpuOp.command .getDisplayInfo b 0).Allocated ∧ u.world = world ∧ u.history = []

def sessionSystem (execute : Executes σ) (queueSize : Nat) (world : World σ) :
    System (Session σ) :=
  ⟨SessionStart queueSize world, SessionStep execute⟩

end SelfmadeOS
