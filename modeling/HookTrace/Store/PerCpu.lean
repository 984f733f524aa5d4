import HookTrace.Layout
import HookTrace.Scarcity
import HookTrace.Store.Fifo

/-!
# HookTrace.Store.PerCpu

Output through one queue per processor. A record is filled in in place, in the one staging
record of its processor, and copied into the processor's queue when it is committed. A full
queue loses the record and counts the loss.

* `StagingPool`: the staging records. One that is in use is unavailable, and its content stays
  when it is given back.
* `PerCpuQueues`: the queues. Producers name any processor, whose number is taken modulo the
  number of queues; consumers name a queue.
* `PerCpuOutput`: both together, as a sink whose records start out as zeros.
-/

namespace HookTrace.Store

structure Cell (ρ : Type) where
  record : ρ
  held : Bool := false

structure StagingPool (ρ : Type) where
  cells : Array (Cell ρ)

namespace StagingPool

variable {ρ : Type}

/-- A pool has at least one worker. -/
def empty [Layout ρ] (workers : Nat) : StagingPool ρ :=
  ⟨Array.replicate (max workers 1) { record := Layout.zero }⟩

def workers (pool : StagingPool ρ) : Nat :=
  pool.cells.size

/-- Takes a worker's record into use, with the content it was given back with. -/
def acquire (pool : StagingPool ρ) (worker : Nat) : Option (Slot ρ × StagingPool ρ) :=
  match pool.cells[worker]? with
  | none => none
  | some cell =>
    if cell.held then none
    else some (⟨worker, cell.record⟩,
      ⟨pool.cells.setIfInBounds worker { cell with held := true }⟩)

def release (pool : StagingPool ρ) (slot : Slot ρ) : StagingPool ρ :=
  ⟨pool.cells.setIfInBounds slot.cpu { record := slot.record }⟩

end StagingPool

structure PerCpuQueues (ρ : Type) where
  queues : Array (Fifo ρ)
  /-- Records that one queue holds. -/
  depth : Nat
  lost : Nat

namespace PerCpuQueues

variable {ρ : Type}

/-- There is at least one queue. -/
def empty (cpus depth : Nat) : PerCpuQueues ρ :=
  ⟨Array.replicate (max cpus 1) Fifo.empty, depth, 0⟩

def cpus (channel : PerCpuQueues ρ) : Nat :=
  channel.queues.size

def queued (channel : PerCpuQueues ρ) : List Nat :=
  channel.queues.toList.map Fifo.size

/-- Copies a record into the queue of a processor, or counts it as lost. -/
def output (channel : PerCpuQueues ρ) (cpu : Nat) (record : ρ) :
    PerCpuQueues ρ × List Notice :=
  let i := cpu % channel.queues.size
  match channel.queues[i]? with
  | none => (channel, [])
  | some queue =>
    if queue.size < channel.depth then
      ({ channel with queues := channel.queues.setIfInBounds i (queue.push record) }, [])
    else
      ({ channel with lost := channel.lost + 1 }, [.recordLost cpu])

/-- Takes the oldest record out of a queue; `none` if there is no such queue. -/
def receive (channel : PerCpuQueues ρ) (queue : Nat) :
    Option (Option ρ × PerCpuQueues ρ) :=
  match channel.queues[queue]? with
  | none => none
  | some fifo =>
    match fifo.pop? with
    | none => some (none, channel)
    | some (record, rest) =>
      some (some record, { channel with queues := channel.queues.setIfInBounds queue rest })

/-- Takes everything out, queue by queue. -/
def drain (channel : PerCpuQueues ρ) : List ρ × PerCpuQueues ρ :=
  (channel.queues.toList.flatMap Fifo.toList,
    { channel with queues := channel.queues.map fun _ => Fifo.empty })

end PerCpuQueues

structure PerCpuOutput (ρ : Type) where
  staging : StagingPool ρ
  channel : PerCpuQueues ρ

namespace PerCpuOutput

variable {ρ : Type}

/-- Staging for `workers` processors and queues for `cpus`. -/
def empty [Layout ρ] (workers cpus depth : Nat) : PerCpuOutput ρ :=
  ⟨.empty workers, .empty cpus depth⟩

/-- Takes a processor's staging record and clears it. -/
def reserve [Layout ρ] (output : PerCpuOutput ρ) (cpu : Nat) :
    Option (Slot ρ × PerCpuOutput ρ) :=
  match output.staging.acquire cpu with
  | none => none
  | some (slot, staging) => some ({ slot with record := Layout.zero }, { output with staging })

/-- Outputs the record as it is now, and gives the staging record back. -/
def commit (output : PerCpuOutput ρ) (slot : Slot ρ) : PerCpuOutput ρ × List Notice :=
  match output.channel.output slot.cpu slot.record with
  | (channel, notices) => (⟨output.staging.release slot, channel⟩, notices)

def release (output : PerCpuOutput ρ) (slot : Slot ρ) : PerCpuOutput ρ :=
  { output with staging := output.staging.release slot }

instance [Layout ρ] : RecordSink (PerCpuOutput ρ) ρ where
  reserve := reserve
  refusal _ := []
  commit := commit
  release := release

instance : RecordSource (PerCpuOutput ρ) ρ where
  drain output :=
    let (records, channel) := output.channel.drain
    (records, { output with channel })

/-- Between hooks no staging record is in use but one that is held elsewhere. -/
instance : Scarce (PerCpuOutput ρ) where
  under short output :=
    { output with staging :=
        ⟨output.staging.cells.mapIdx fun i cell =>
          { cell with held := short.staging || short.worker == some i }⟩ }

end PerCpuOutput

end HookTrace.Store
