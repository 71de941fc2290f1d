import Mathlib.Data.List.Nodup
import E3Controller.LabelledRun
import E3Controller.SpscRing
import E3Controller.SlotApi

/-!
# Pipelines, dispatcher and their threads

`SlotIqPipeline` and `IqPipeline` share one structure: the poll thread runs
`JbpfDispatcher::dispatch` and `process_buffers`, a worker thread drains the
queue, and a control thread calls `start` and `stop`. Each thread is a program
counter; one label of `step` is one atomic access to shared state. The
interleaving is sequentially consistent.

`History` records what happened and is never read by the threads; only the
environment's promise that an un-released buffer is not delivered again looks
at it.
-/

namespace E3Controller
namespace Pipeline

open SpscRing SlotApi

/-- What distinguishes the two pipelines: the queue capacity `2^logCapacity`, the
filter of `process_buffers`, the codelet's own time stamp of a sample, the
control-input messages each codelet load needs, and whether a load is requested. -/
structure Kind (α μ : Type) where
  logCapacity : ℕ
  logCapacity_lt : logCapacity < 64
  keep : α → Bool
  codeletUs : α → UInt32
  configMessages : List μ
  autoLoad : Bool

/-- `SlotIqPipeline`: 32 entries, no filter; both messages only in gNB mode. -/
def slotIqPipeline (config : SlotPipelineConfig) : Kind E3SlotDesc SlotMessage where
  logCapacity := 5
  logCapacity_lt := by decide
  keep _ := true
  codeletUs d := ((d.codeletTsNs / 1000) &&& 0x7fffffff).toUInt32
  configMessages :=
    match config.writer with
    | .gnb => [.shmCfg (shmCfgMessage config),.slotSel (slotSelMessage config)]
    | .controller => []
  autoLoad := !config.codeletBasePath.isEmpty

/-- `IqPipeline`: 64 entries; downlink and other PRB counts are filtered out. -/
def iqPipeline (config : IqPipelineConfig) : Kind IqSampleData PrbFilterConfig where
  logCapacity := 6
  logCapacity_lt := by decide
  keep s := !(s.direction != 1 || (config.expectedNumPrbu > 0 && s.numPrbu != config.expectedNumPrbu))
  codeletUs s := s.timestamp.toUInt32
  configMessages := [⟨config.expectedNumPrbu⟩]
  autoLoad := !config.codeletBasePath.isEmpty

structure QueueEntry (β : Type) where
  buf : β
  dispatchTsNs : UInt64
  recvUs : UInt32
  sampleId : UInt32
  deriving DecidableEq, Repr

/-- The poll thread: outside of `dispatch`, holding a copied handler, in the
configuration prologue of `process_buffers`, or in its loop over the batch. -/
inductive PollPc (β μ : Type)
  | idle
  | handler (bufs : List β)
  | sendConfig (remaining : List μ) (bufs : List β)
  | readClock (bufs : List β)
  | loop (ts : UInt64) (bufs : List β)
  | haveHead (ts : UInt64) (b : β) (bufs : List β) (head : BitVec 64)
  | haveTail (ts : UInt64) (b : β) (bufs : List β) (head tail : BitVec 64)
  | entryWritten (ts : UInt64) (b : β) (bufs : List β) (head : BitVec 64)
  deriving DecidableEq, Repr

/-- The worker thread, from the test of `running_` to the store of the tail. -/
inductive WorkerPc
  | absent | loopTop | loadTail
  | loadHead (tail : BitVec 64)
  | dispatch (tail : BitVec 64)
  | release (tail : BitVec 64)
  | storeTail (tail : BitVec 64)
  | exited
  deriving DecidableEq, Repr

inductive ControlPc
  | idle
  | startLoad | startLoaded | startReset | startRunning | startWorker | startRegister
  | stopUnregister | stopRunning | stopJoin | stopHead
  | stopTail (head : BitVec 64)
  | stopDrain (tail head : BitVec 64)
  | stopStore (head : BitVec 64)
  | stopUnload
  deriving DecidableEq, Repr

inductive LcmRequest
  | load (ok : Bool) | unload
  deriving DecidableEq, Repr

/-- What has happened so far. `accepted` and `dispatched` belong to the current
session and are cleared when `start` spawns the worker; `delivered` holds the
messages the channel accepted since the last successful load returned. -/
structure History (β α μ : Type) where
  queued : List (QueueEntry β) := []
  owned : List β := []
  handed : List β := []
  filtered : List β := []
  rejected : List β := []
  released : List β := []
  drained : List β := []
  accepted : List (QueueEntry β) := []
  dispatched : List (QueueEntry β × α) := []
  delivered : List μ := []
  requests : List LcmRequest := []

structure State (β α μ : Type) where
  registered : Bool
  running : Bool
  codeletsLoaded : Bool
  configSent : Bool
  ring : Ring 64 (QueueEntry β)
  dropped : UInt64
  totalSamplesReceived : UInt32
  mem : β → α
  poll : PollPc β μ
  worker : WorkerPc
  control : ControlPc
  hist : History β α μ

/-- Labels of the transition function. `ok` and `ts` are what the environment
answers where a thread asks it: a send, a load request, the clock. -/
inductive Action (β α : Type)
  | fill (b : β) (a : α)
  | deliver (bufs : List β)
  | poll (ok : Bool) (ts : UInt64)
  | worker
  | callStart
  | callStop
  | control (ok : Bool)
  deriving DecidableEq, Repr

variable {β α μ : Type}

def nowUs (ts : UInt64) : UInt32 := ((ts / 1000) &&& 0x7fffffff).toUInt32

def recvUs (now codelet : UInt32) : UInt32 :=
  if codelet > 0 then (now - codelet) &&& 0x7fffffff else 0

def newEntry (k : Kind α μ) (s : State β α μ) (ts : UInt64) (b : β) : QueueEntry β where
  buf := b
  dispatchTsNs := ts
  recvUs := recvUs (nowUs ts) (k.codeletUs (s.mem b))
  sampleId := s.totalSamplesReceived + 1

variable [DecidableEq β]

/-- One step of the poll thread inside `dispatch`, after the handler was copied. -/
def pollStep (k : Kind α μ) (s : State β α μ) (ok : Bool) (ts : UInt64) : Option (State β α μ) :=
  match s.poll with
  | .idle => none
  | .handler bufs =>
    if s.configSent || k.configMessages.isEmpty then some { s with poll := .readClock bufs }
    else some { s with poll := .sendConfig k.configMessages bufs }
  | .sendConfig [] bufs => some { s with configSent := true, poll := .readClock bufs }
  | .sendConfig (m :: ms) bufs =>
    if ok then
      some { s with
        poll := .sendConfig ms bufs
        hist := { s.hist with delivered := s.hist.delivered ++ [m] } }
    else some { s with poll := .readClock bufs }
  | .readClock bufs => some { s with poll := .loop ts bufs }
  | .loop _ [] => some { s with poll := .idle }
  | .loop ts (b :: bufs) =>
    if k.keep (s.mem b) then some { s with poll := .haveHead ts b bufs s.ring.head }
    else some { s with
      poll := .loop ts bufs
      hist := { s.hist with
        owned := s.hist.owned.erase b
        filtered := s.hist.filtered ++ [b] } }
  | .haveHead ts b bufs head => some { s with poll := .haveTail ts b bufs head s.ring.tail }
  | .haveTail ts b bufs head tail =>
    if head - tail ≥ BitVec.ofNat 64 (2 ^ k.logCapacity) then
      some { s with
        dropped := s.dropped + 1
        poll := .loop ts bufs
        hist := { s.hist with
          owned := s.hist.owned.erase b
          rejected := s.hist.rejected ++ [b] } }
    else
      some { s with
        ring := { s.ring with
          slots := Function.update s.ring.slots (slotIndex k.logCapacity head) (newEntry k s ts b) }
        totalSamplesReceived := s.totalSamplesReceived + 1
        poll := .entryWritten ts b bufs head }
  | .entryWritten ts _ bufs head =>
    some { s with
      ring := { s.ring with head := head + 1 }
      poll := .loop ts bufs
      hist := { s.hist with
        queued := s.hist.queued ++ [s.ring.slots (slotIndex k.logCapacity head)]
        accepted := s.hist.accepted ++ [s.ring.slots (slotIndex k.logCapacity head)] } }

def workerStep (k : Kind α μ) (s : State β α μ) : Option (State β α μ) :=
  match s.worker with
  | .absent => none
  | .exited => none
  | .loopTop =>
    if s.running then some { s with worker := .loadTail } else some { s with worker := .exited }
  | .loadTail => some { s with worker := .loadHead s.ring.tail }
  | .loadHead tail =>
    if s.ring.head = tail then some { s with worker := .loopTop }
    else some { s with worker := .dispatch tail }
  | .dispatch tail =>
    let entry := s.ring.slots (slotIndex k.logCapacity tail)
    some { s with
      worker := .release tail
      hist := { s.hist with dispatched := s.hist.dispatched ++ [(entry,s.mem entry.buf)] } }
  | .release tail =>
    let entry := s.ring.slots (slotIndex k.logCapacity tail)
    some { s with
      worker := .storeTail tail
      hist := { s.hist with
        owned := s.hist.owned.erase entry.buf
        released := s.hist.released ++ [entry.buf] } }
  | .storeTail tail =>
    some { s with
      ring := { s.ring with tail := tail + 1 }
      worker := .loopTop
      hist := { s.hist with queued := s.hist.queued.tail } }

/-- One step of `start` or `stop` after its first test; `ok` answers a load request. -/
def controlStep (k : Kind α μ) (s : State β α μ) (ok : Bool) : Option (State β α μ) :=
  match s.control with
  | .idle => none
  | .startLoad =>
    if ok then
      some { s with
        control := .startLoaded
        hist := { s.hist with delivered := [], requests := s.hist.requests ++ [.load true] } }
    else
      some { s with
        control := .idle
        hist := { s.hist with requests := s.hist.requests ++ [.load false] } }
  | .startLoaded => some { s with codeletsLoaded := true, control := .startReset }
  | .startReset => some { s with configSent := false, control := .startRunning }
  | .startRunning => some { s with running := true, control := .startWorker }
  | .startWorker =>
    some { s with
      worker := .loopTop
      control := .startRegister
      hist := { s.hist with accepted := [], dispatched := [] } }
  | .startRegister => some { s with registered := true, control := .idle }
  | .stopUnregister => some { s with registered := false, control := .stopRunning }
  | .stopRunning => some { s with running := false, control := .stopJoin }
  | .stopJoin =>
    if s.worker = .exited ∨ s.worker = .absent then
      some { s with worker := .absent, control := .stopHead }
    else none
  | .stopHead => some { s with control := .stopTail s.ring.head }
  | .stopTail head => some { s with control := .stopDrain s.ring.tail head }
  | .stopDrain tail head =>
    if tail = head then some { s with control := .stopStore head }
    else
      let entry := s.ring.slots (slotIndex k.logCapacity tail)
      some { s with
        control := .stopDrain (tail + 1) head
        hist := { s.hist with
          owned := s.hist.owned.erase entry.buf
          drained := s.hist.drained ++ [entry.buf] } }
  | .stopStore head =>
    some { s with
      ring := { s.ring with tail := head }
      control := .stopUnload
      hist := { s.hist with queued := s.hist.queued.drop (head - s.ring.tail).toNat } }
  | .stopUnload =>
    if s.codeletsLoaded then
      some { s with
        codeletsLoaded := false
        control := .idle
        hist := { s.hist with requests := s.hist.requests ++ [.unload] } }
    else some { s with control := .idle }

/-- `JbpfDispatcher::dispatch` up to the end of its critical section. With a
handler registered the buffers become the pipeline's; without one the
dispatcher releases them itself. -/
def deliver (s : State β α μ) (bufs : List β) : Option (State β α μ) :=
  match s.poll with
  | .idle =>
    if bufs ≠ [] ∧ bufs.Nodup ∧ ∀ b ∈ bufs, b ∉ s.hist.owned then
      if s.registered then
        some { s with
          poll := .handler bufs
          hist := { s.hist with
            owned := s.hist.owned ++ bufs
            handed := s.hist.handed ++ bufs } }
      else some s
    else none
  | _ => none

/-- The codelet side writes a buffer; it may do so only while the pipeline does
not own it. -/
def fill (s : State β α μ) (b : β) (a : α) : Option (State β α μ) :=
  if b ∈ s.hist.owned then none else some { s with mem := Function.update s.mem b a }

/-- `start()` and `stop()` test `running_` and return at once if there is nothing to do. -/
def callStart (k : Kind α μ) (s : State β α μ) : Option (State β α μ) :=
  match s.control with
  | .idle =>
    if s.running then some s
    else if k.autoLoad then some { s with control := .startLoad }
    else some { s with control := .startReset }
  | _ => none

def callStop (s : State β α μ) : Option (State β α μ) :=
  match s.control with
  | .idle => if s.running then some { s with control := .stopUnregister } else some s
  | _ => none

def step (k : Kind α μ) (s : State β α μ) : Action β α → Option (State β α μ)
  | .fill b a => fill s b a
  | .deliver bufs => deliver s bufs
  | .poll ok ts => pollStep k s ok ts
  | .worker => workerStep k s
  | .callStart => callStart k s
  | .callStop => callStop s
  | .control ok => controlStep k s ok

/-- A constructed pipeline: never started, queue empty, counters and slots arbitrary. -/
def State.constructed (ring : Ring 64 (QueueEntry β)) (dropped : UInt64) (total : UInt32)
    (mem : β → α) : State β α μ where
  registered := false
  running := false
  codeletsLoaded := false
  configSent := false
  ring := ring
  dropped := dropped
  totalSamplesReceived := total
  mem := mem
  poll := .idle
  worker := .absent
  control := .idle
  hist := {}

end Pipeline
end E3Controller
