import Mathlib.Data.List.Basic

/-!
# Stage records of the slot path

`l1_kpm_trace.h`: the stamps `on_sample` makes on the ring of the worker thread.
Back-dated times go through a monotone floor, so that the ring's times ascend.
Without the recorder compiled in every stamp is a no-op.
-/

namespace E3Controller
namespace StageTrace

inductive Stage
  | recordBegin | processBegin | encodeE3smBegin | encodeE3smDone | skipped | waitEnter
  deriving DecidableEq, Repr

/-- The second auxiliary word: a number, or one of the two library constants. -/
inductive Aux2
  | value (n : UInt64) | indicationMessage | skipEncode
  deriving DecidableEq, Repr

structure Record where
  seq : UInt64
  stage : Stage
  aux : UInt64
  aux2 : Aux2
  tNs : UInt64
  deriving DecidableEq, Repr

/-- The thread's floor, the clamp counter, the ring, and the key last bound for the
library's own records. -/
structure Trace where
  enabled : Bool := true
  floorNs : UInt64 := 0
  clamped : UInt64 := 0
  records : List Record := []
  boundSeq : UInt64 := 0
  deriving DecidableEq, Repr

namespace Trace

/-- The time to stamp: the requested one, or one past the floor. -/
def monotone (t : Trace) (tNs : UInt64) : UInt64 × Trace :=
  if tNs ≤ t.floorNs then
    (t.floorNs + 1,{ t with clamped := t.clamped + 1, floorNs := t.floorNs + 1 })
  else (tNs,{ t with floorNs := tNs })

def stampAt (seq : UInt64) (stage : Stage) (aux : UInt64) (aux2 : Aux2) (tNs : UInt64) (t : Trace) :
    Trace :=
  if t.enabled then
    let m := t.monotone tNs
    { m.2 with records := m.2.records ++ [⟨seq,stage,aux,aux2,m.1⟩] }
  else t

def recordBegin (seq : UInt64) (sfn absSlot : UInt16) (gnbTsNs codeletEntryTsNs : UInt64) :
    Trace → Trace :=
  stampAt seq .recordBegin ((sfn.toUInt64 <<< 16) ||| absSlot.toUInt64) (.value codeletEntryTsNs)
    gnbTsNs

def processBegin (seq codeletTsNs dispatchTsNs : UInt64) (bytes : UInt32) : Trace → Trace :=
  stampAt seq .processBegin dispatchTsNs (.value bytes.toUInt64) codeletTsNs

def encodeBegin (seq : UInt64) (payloadBytes : UInt32) (now : UInt64) : Trace → Trace :=
  stampAt seq .encodeE3smBegin payloadBytes.toUInt64 .indicationMessage now

def encodeDone (seq encodedBytes now : UInt64) : Trace → Trace :=
  stampAt seq .encodeE3smDone encodedBytes .indicationMessage now

def encodeFailed (seq now : UInt64) : Trace → Trace := stampAt seq .skipped 0 .skipEncode now

def bindLibe3 (seq : UInt64) (t : Trace) : Trace := { t with boundSeq := seq }

def emitTail (seq subscribers now : UInt64) : Trace → Trace :=
  stampAt seq .waitEnter subscribers (.value 0) now

/-- A new worker thread: its floor starts at zero. -/
def newThread (t : Trace) : Trace := { t with floorNs := 0 }

end Trace
end StageTrace
end E3Controller
