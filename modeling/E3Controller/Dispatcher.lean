import Mathlib.Logic.Function.Basic
import Mathlib.Data.Int.Notation

/-!
# The dispatcher's table

`JbpfDispatcher` maps stream ids to handlers. A batch is routed to the handler of
its stream; the dispatcher releases the buffers itself unless that handler was
registered with `defer_release`. The map is an `unordered_map`, that is a partial
function, whose hash is FNV-1a over the sixteen bytes of the id.
-/

namespace E3Controller
namespace Dispatcher

/-- `struct jbpf_io_stream_id`, with its `JBPF_IO_STREAM_ID_LEN` bytes. -/
abbrev StreamId := Vector UInt8 16

def ecpriIqStreamId : StreamId :=
  #v[0xF1,0xF2,0x29,0x0F,0xD2,0x68,0x5D,0x17,0xEC,0xC9,0x90,0x2C,0x4C,0x9F,0x05,0xFE]

def slotIqStreamId : StreamId :=
  #v[0x75,0x31,0xab,0xcd,0x12,0x34,0x56,0x78,0x90,0xfe,0xdc,0xba,0x09,0x87,0x65,0x4a]

variable {H : Type}

structure StreamEntry (H : Type) where
  handler : H
  deferRelease : Bool := false
  deriving DecidableEq, Repr

abbrev Handlers (H : Type) := StreamId → Option (StreamEntry H)

def registerStream (handlers : Handlers H) (id : StreamId) (handler : H) (deferRelease : Bool) :
    Handlers H :=
  Function.update handlers id (some ⟨handler,deferRelease⟩)

def unregisterStream (handlers : Handlers H) (id : StreamId) : Handlers H :=
  Function.update handlers id none

@[simp] theorem registerStream_self (handlers : Handlers H) (id : StreamId) (h : H) (d : Bool) :
    registerStream handlers id h d id = some ⟨h,d⟩ :=
  Function.update_self ..

@[simp] theorem unregisterStream_self (handlers : Handlers H) (id : StreamId) :
    unregisterStream handlers id id = none :=
  Function.update_self ..

theorem registerStream_of_ne {id id' : StreamId} (hne : id' ≠ id) (handlers : Handlers H) (h : H)
    (d : Bool) : registerStream handlers id h d id' = handlers id' :=
  Function.update_of_ne hne ..

theorem unregisterStream_of_ne {id id' : StreamId} (hne : id' ≠ id) (handlers : Handlers H) :
    unregisterStream handlers id id' = handlers id' :=
  Function.update_of_ne hne ..

/-- What becomes of a batch: the handler that is called with it, and whether the
dispatcher releases the buffers once that call is over. -/
structure Routing (H : Type) where
  handler : Option H
  release : Bool
  deriving DecidableEq, Repr

/-- `dispatch`; `none` is the early return, which does not even release. -/
def dispatch (handlers : Handlers H) (streamId : Option StreamId) (numBufs : ℤ) :
    Option (Routing H) :=
  match streamId with
  | none => none
  | some id =>
    if numBufs ≤ 0 then none
    else
      let handler := (handlers id).map StreamEntry.handler
      let deferRelease := ((handlers id).map StreamEntry.deferRelease).getD false
      some ⟨handler,handler.isNone || !deferRelease⟩

theorem dispatch_of_pos (handlers : Handlers H) (id : StreamId) {n : ℤ} (hn : 0 < n) :
    dispatch handlers (some id) n = some (match handlers id with
      | none => ⟨none,true⟩
      | some e => ⟨some e.handler,!e.deferRelease⟩) := by
  rw [dispatch,if_neg (by omega)]
  cases handlers id <;> rfl

end Dispatcher
end E3Controller
