import E3Controller.Dispatcher
import E3Controller.RunMeasure
import E3Controller.PipelineLifecycle

/-!
# The controller process: one dispatcher, one poll thread, two pipelines

`main` polls the dispatcher from one thread; each pipeline has its own worker and
its own caller of `start` and `stop`. Here the registration of a stream is an entry
of the dispatcher's table, looked up under its lock when a batch arrives. `Wired` is
what holds in every reachable state; from it both pipelines see exactly the runs
that `Pipeline.step` describes, so all results about one pipeline are results about
the process.
-/

namespace E3Controller
namespace Controller

open Dispatcher Pipeline SlotApi LabelledRun

variable {β α μ : Type}

inductive Handler
  | iqPipeline | slotIqPipeline
  deriving DecidableEq, Repr

/-- `toRelease` are the buffers that `dispatch` releases after its handler; `batches`
and `freed` record what the channels delivered and what the dispatcher released. -/
structure State (β : Type) where
  handlers : Handlers Handler
  iq : Pipeline.State β IqSampleData PrbFilterConfig
  slot : Pipeline.State β E3SlotDesc SlotMessage
  toRelease : List β
  batches : List (StreamId × List β)
  freed : List β

inductive Label (β : Type)
  | dispatch (streamId : StreamId) (bufs : List β)
  | poll (ok : Bool) (ts : UInt64)
  | iq (a : Action β IqSampleData)
  | slot (a : Action β E3SlotDesc)
  deriving DecidableEq

/-- Batches reach a pipeline through the dispatcher and on its thread only. -/
def viaDispatcher : Action β α → Bool
  | .deliver _ => true
  | .poll _ _ => true
  | _ => false

def hand (s : Pipeline.State β α μ) (bufs : List β) : Pipeline.State β α μ :=
  { s with
    poll := .handler bufs
    hist := { s.hist with
      owned := s.hist.owned ++ bufs
      handed := s.hist.handed ++ bufs } }

/-- The table after a step of a caller of `start` or `stop`: `start` ends with
`register_stream`, `stop` begins with `unregister_stream`. -/
def tableAfter (id : StreamId) (handler : Handler) (control : ControlPc) (a : Action β α)
    (handlers : Handlers Handler) : Handlers Handler :=
  match a, control with
  | .control _, .startRegister => registerStream handlers id handler true
  | .control _, .stopUnregister => unregisterStream handlers id
  | _, _ => handlers

def State.held (s : State β) : List β := s.iq.hist.owned ++ s.slot.hist.owned ++ s.toRelease

variable [DecidableEq β]

/-- A batch arrives while the poll thread is between two calls of `dispatch`. The
channels do not deliver a buffer that has not been released. -/
def dispatchStep (s : State β) (id : StreamId) (bufs : List β) : Option (State β) :=
  if s.iq.poll = .idle ∧ s.slot.poll = .idle ∧ s.toRelease = [] ∧ bufs.Nodup ∧
      ∀ b ∈ bufs, b ∉ s.held then
    match Dispatcher.dispatch s.handlers (some id) bufs.length with
    | none => some s
    | some routing =>
      let s := { s with
        batches := s.batches ++ [(id,bufs)]
        toRelease := if routing.release then bufs else [] }
      match routing.handler with
      | none => some s
      | some .iqPipeline => some { s with iq := hand s.iq bufs }
      | some .slotIqPipeline => some { s with slot := hand s.slot bufs }
  else none

/-- The poll thread inside of `dispatch`: the handler first, then the release loop. -/
def pollStep (ki : Kind IqSampleData PrbFilterConfig) (ks : Kind E3SlotDesc SlotMessage)
    (s : State β) (ok : Bool) (ts : UInt64) : Option (State β) :=
  if s.iq.poll ≠ .idle then (Pipeline.pollStep ki s.iq ok ts).map fun p => { s with iq := p }
  else if s.slot.poll ≠ .idle then (Pipeline.pollStep ks s.slot ok ts).map fun p => { s with slot := p }
  else if s.toRelease ≠ [] then some { s with freed := s.freed ++ s.toRelease, toRelease := [] }
  else none

def writesHeld (s : State β) : Action β α → Bool
  | .fill b _ => b ∈ s.held
  | _ => false

def step (ki : Kind IqSampleData PrbFilterConfig) (ks : Kind E3SlotDesc SlotMessage) (s : State β) :
    Label β → Option (State β)
  | .dispatch id bufs => dispatchStep s id bufs
  | .poll ok ts => pollStep ki ks s ok ts
  | .iq a =>
    if viaDispatcher a || writesHeld s a then none
    else (Pipeline.step ki s.iq a).map fun p =>
      { s with iq := p, handlers := tableAfter ecpriIqStreamId .iqPipeline s.iq.control a s.handlers }
  | .slot a =>
    if viaDispatcher a || writesHeld s a then none
    else (Pipeline.step ks s.slot a).map fun p =>
      { s with
        slot := p
        handlers := tableAfter slotIqStreamId .slotIqPipeline s.slot.control a s.handlers }

def State.constructed (iq : Pipeline.State β IqSampleData PrbFilterConfig)
    (slot : Pipeline.State β E3SlotDesc SlotMessage) : State β where
  handlers := fun _ => none
  iq := iq
  slot := slot
  toRelease := []
  batches := []
  freed := []

/-- The labels of `Pipeline.step` that a label of the process amounts to for the
eCPRI pipeline. -/
def seenByIq (s : State β) : Label β → List (Action β IqSampleData)
  | .dispatch id bufs => if id = ecpriIqStreamId ∧ bufs ≠ [] then [.deliver bufs] else []
  | .poll ok ts => if s.iq.poll ≠ .idle then [.poll ok ts] else []
  | .iq a => [a]
  | .slot _ => []

def seenBySlot (s : State β) : Label β → List (Action β E3SlotDesc)
  | .dispatch id bufs => if id = slotIqStreamId ∧ bufs ≠ [] then [.deliver bufs] else []
  | .poll ok ts => if s.iq.poll = .idle ∧ s.slot.poll ≠ .idle then [.poll ok ts] else []
  | .iq _ => []
  | .slot a => [a]

def onStream (id : StreamId) (batches : List (StreamId × List β)) : List β :=
  (batches.filter fun b => b.1 = id).flatMap Prod.snd

def entry (handler : Handler) (registered : Bool) : Option (StreamEntry Handler) :=
  if registered then some ⟨handler,true⟩ else none

end Controller
end E3Controller
