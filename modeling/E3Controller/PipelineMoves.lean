import E3Controller.PipelineModel

/-!
# What one step of a thread can do

One constructor for each transition of a thread and of its environment, with the label it
starts from and the tests it passed. The invariants of the pipelines are proved over these
moves instead of the transition functions.
-/

namespace E3Controller
namespace Pipeline

open SpscRing

variable {β α μ : Type}

section Moves

variable [DecidableEq β]

inductive PollMove (k : Kind α μ) (s : State β α μ) : State β α μ → Prop
  | skipConfig {bufs : List β} (pc : s.poll = .handler bufs)
      (nothing : (s.configSent || k.configMessages.isEmpty) = true) :
      PollMove k s { s with poll := .readClock bufs }
  | beginConfig {bufs : List β} (pc : s.poll = .handler bufs)
      (something : ¬ (s.configSent || k.configMessages.isEmpty) = true) :
      PollMove k s { s with poll := .sendConfig k.configMessages bufs }
  | endConfig {bufs : List β} (pc : s.poll = .sendConfig [] bufs) :
      PollMove k s { s with configSent := true, poll := .readClock bufs }
  | send {m : μ} {ms : List μ} {bufs : List β} (pc : s.poll = .sendConfig (m :: ms) bufs) :
      PollMove k s { s with
        poll := .sendConfig ms bufs
        hist := { s.hist with delivered := s.hist.delivered ++ [m] } }
  | sendFailed {m : μ} {ms : List μ} {bufs : List β} (pc : s.poll = .sendConfig (m :: ms) bufs) :
      PollMove k s { s with poll := .readClock bufs }
  | readClock {ts : UInt64} {bufs : List β} (pc : s.poll = .readClock bufs) :
      PollMove k s { s with poll := .loop ts bufs }
  | done {ts : UInt64} (pc : s.poll = .loop ts []) : PollMove k s { s with poll := .idle }
  | loadHead {ts : UInt64} {b : β} {bufs : List β} (pc : s.poll = .loop ts (b :: bufs))
      (keep : k.keep (s.mem b) = true) :
      PollMove k s { s with poll := .haveHead ts b bufs s.ring.head }
  | filter {ts : UInt64} {b : β} {bufs : List β} (pc : s.poll = .loop ts (b :: bufs))
      (unwanted : ¬ k.keep (s.mem b) = true) :
      PollMove k s { s with
        poll := .loop ts bufs
        hist := { s.hist with
          owned := s.hist.owned.erase b
          filtered := s.hist.filtered ++ [b] } }
  | loadTail {ts : UInt64} {b : β} {bufs : List β} {head : BitVec 64}
      (pc : s.poll = .haveHead ts b bufs head) :
      PollMove k s { s with poll := .haveTail ts b bufs head s.ring.tail }
  | reject {ts : UInt64} {b : β} {bufs : List β} {head tail : BitVec 64}
      (pc : s.poll = .haveTail ts b bufs head tail)
      (full : head - tail ≥ BitVec.ofNat 64 (2 ^ k.logCapacity)) :
      PollMove k s { s with
        dropped := s.dropped + 1
        poll := .loop ts bufs
        hist := { s.hist with
          owned := s.hist.owned.erase b
          rejected := s.hist.rejected ++ [b] } }
  | write {ts : UInt64} {b : β} {bufs : List β} {head tail : BitVec 64}
      (pc : s.poll = .haveTail ts b bufs head tail)
      (room : ¬ head - tail ≥ BitVec.ofNat 64 (2 ^ k.logCapacity)) :
      PollMove k s { s with
        ring := { s.ring with
          slots := Function.update s.ring.slots (slotIndex k.logCapacity head) (newEntry k s ts b) }
        totalSamplesReceived := s.totalSamplesReceived + 1
        poll := .entryWritten ts b bufs head }
  | publish {ts : UInt64} {b : β} {bufs : List β} {head : BitVec 64}
      (pc : s.poll = .entryWritten ts b bufs head) :
      PollMove k s { s with
        ring := { s.ring with head := head + 1 }
        poll := .loop ts bufs
        hist := { s.hist with
          queued := s.hist.queued ++ [s.ring.slots (slotIndex k.logCapacity head)]
          accepted := s.hist.accepted ++ [s.ring.slots (slotIndex k.logCapacity head)] } }

inductive WorkerMove (k : Kind α μ) (s : State β α μ) : State β α μ → Prop
  | enter (pc : s.worker = .loopTop) (running : s.running = true) :
      WorkerMove k s { s with worker := .loadTail }
  | leave (pc : s.worker = .loopTop) (stopped : ¬ s.running = true) :
      WorkerMove k s { s with worker := .exited }
  | loadTail (pc : s.worker = .loadTail) : WorkerMove k s { s with worker := .loadHead s.ring.tail }
  | empty {tail : BitVec 64} (pc : s.worker = .loadHead tail) (reached : s.ring.head = tail) :
      WorkerMove k s { s with worker := .loopTop }
  | found {tail : BitVec 64} (pc : s.worker = .loadHead tail) (behind : ¬ s.ring.head = tail) :
      WorkerMove k s { s with worker := .dispatch tail }
  | dispatch {tail : BitVec 64} {entry : QueueEntry β} (pc : s.worker = .dispatch tail)
      (read : s.ring.slots (slotIndex k.logCapacity tail) = entry) :
      WorkerMove k s { s with
        worker := .release tail
        hist := { s.hist with dispatched := s.hist.dispatched ++ [(entry,s.mem entry.buf)] } }
  | release {tail : BitVec 64} {entry : QueueEntry β} (pc : s.worker = .release tail)
      (read : s.ring.slots (slotIndex k.logCapacity tail) = entry) :
      WorkerMove k s { s with
        worker := .storeTail tail
        hist := { s.hist with
          owned := s.hist.owned.erase entry.buf
          released := s.hist.released ++ [entry.buf] } }
  | storeTail {tail : BitVec 64} (pc : s.worker = .storeTail tail) :
      WorkerMove k s { s with
        ring := { s.ring with tail := tail + 1 }
        worker := .loopTop
        hist := { s.hist with queued := s.hist.queued.tail } }

inductive ControlMove (k : Kind α μ) (s : State β α μ) (ok : Bool) : State β α μ → Prop
  | load (pc : s.control = .startLoad) (accepted : ok = true) :
      ControlMove k s ok { s with
        control := .startLoaded
        hist := { s.hist with delivered := [], requests := s.hist.requests ++ [.load true] } }
  | loadFailed (pc : s.control = .startLoad) (refused : ¬ ok = true) :
      ControlMove k s ok { s with
        control := .idle
        hist := { s.hist with requests := s.hist.requests ++ [.load false] } }
  | loaded (pc : s.control = .startLoaded) :
      ControlMove k s ok { s with codeletsLoaded := true, control := .startReset }
  | reset (pc : s.control = .startReset) :
      ControlMove k s ok { s with configSent := false, control := .startRunning }
  | run (pc : s.control = .startRunning) :
      ControlMove k s ok { s with running := true, control := .startWorker }
  | spawn (pc : s.control = .startWorker) :
      ControlMove k s ok { s with
        worker := .loopTop
        control := .startRegister
        hist := { s.hist with accepted := [], dispatched := [] } }
  | register (pc : s.control = .startRegister) :
      ControlMove k s ok { s with registered := true, control := .idle }
  | unregister (pc : s.control = .stopUnregister) :
      ControlMove k s ok { s with registered := false, control := .stopRunning }
  | halt (pc : s.control = .stopRunning) :
      ControlMove k s ok { s with running := false, control := .stopJoin }
  | join (pc : s.control = .stopJoin) (gone : s.worker = .exited ∨ s.worker = .absent) :
      ControlMove k s ok { s with worker := .absent, control := .stopHead }
  | loadHead (pc : s.control = .stopHead) :
      ControlMove k s ok { s with control := .stopTail s.ring.head }
  | loadTail {head : BitVec 64} (pc : s.control = .stopTail head) :
      ControlMove k s ok { s with control := .stopDrain s.ring.tail head }
  | drained {head : BitVec 64} (pc : s.control = .stopDrain head head) :
      ControlMove k s ok { s with control := .stopStore head }
  | drain {tail head : BitVec 64} {entry : QueueEntry β} (pc : s.control = .stopDrain tail head)
      (behind : tail ≠ head) (read : s.ring.slots (slotIndex k.logCapacity tail) = entry) :
      ControlMove k s ok { s with
        control := .stopDrain (tail + 1) head
        hist := { s.hist with
          owned := s.hist.owned.erase entry.buf
          drained := s.hist.drained ++ [entry.buf] } }
  | storeTail {head : BitVec 64} (pc : s.control = .stopStore head) :
      ControlMove k s ok { s with
        ring := { s.ring with tail := head }
        control := .stopUnload
        hist := { s.hist with queued := s.hist.queued.drop (head - s.ring.tail).toNat } }
  | unload (pc : s.control = .stopUnload) (loaded : s.codeletsLoaded = true) :
      ControlMove k s ok { s with
        codeletsLoaded := false
        control := .idle
        hist := { s.hist with requests := s.hist.requests ++ [.unload] } }
  | keepUnloaded (pc : s.control = .stopUnload) (unloaded : ¬ s.codeletsLoaded = true) :
      ControlMove k s ok { s with control := .idle }

inductive FillMove (s : State β α μ) (b : β) (a : α) : State β α μ → Prop
  | fill (free : b ∉ s.hist.owned) : FillMove s b a { s with mem := Function.update s.mem b a }

/-- A batch reaches a registered handler, or the dispatcher releases it. -/
inductive DeliverMove (s : State β α μ) (bufs : List β) : State β α μ → Prop
  | hand (pc : s.poll = .idle)
      (fresh : bufs ≠ [] ∧ bufs.Nodup ∧ ∀ b ∈ bufs, b ∉ s.hist.owned)
      (registered : s.registered = true) :
      DeliverMove s bufs { s with
        poll := .handler bufs
        hist := { s.hist with
          owned := s.hist.owned ++ bufs
          handed := s.hist.handed ++ bufs } }
  | unclaimed (pc : s.poll = .idle)
      (fresh : bufs ≠ [] ∧ bufs.Nodup ∧ ∀ b ∈ bufs, b ∉ s.hist.owned)
      (unregistered : ¬ s.registered = true) : DeliverMove s bufs s

inductive CallStartMove (k : Kind α μ) (s : State β α μ) : State β α μ → Prop
  | already (pc : s.control = .idle) (running : s.running = true) : CallStartMove k s s
  | load (pc : s.control = .idle) (stopped : ¬ s.running = true) (autoLoad : k.autoLoad = true) :
      CallStartMove k s { s with control := .startLoad }
  | reset (pc : s.control = .idle) (stopped : ¬ s.running = true) (noLoad : ¬ k.autoLoad = true) :
      CallStartMove k s { s with control := .startReset }

inductive CallStopMove (s : State β α μ) : State β α μ → Prop
  | stop (pc : s.control = .idle) (running : s.running = true) :
      CallStopMove s { s with control := .stopUnregister }
  | already (pc : s.control = .idle) (stopped : ¬ s.running = true) : CallStopMove s s

variable {k : Kind α μ} {s t : State β α μ}

theorem pollStep_move {ok : Bool} {ts : UInt64} (ht : pollStep k s ok ts = some t) :
    PollMove k s t := by
  cases hp : s.poll with
  | idle =>
    simp only [pollStep,hp] at ht
    cases ht
  | handler bufs =>
    simp only [pollStep,hp] at ht
    split at ht
    next hnothing =>
      cases ht
      exact .skipConfig hp hnothing
    next hsomething =>
      cases ht
      exact .beginConfig hp hsomething
  | sendConfig remaining bufs =>
    cases remaining with
    | nil =>
      simp only [pollStep,hp] at ht
      cases ht
      exact .endConfig hp
    | cons m ms =>
      simp only [pollStep,hp] at ht
      split at ht <;> cases ht
      · exact .send hp
      · exact .sendFailed hp
  | readClock bufs =>
    simp only [pollStep,hp] at ht
    cases ht
    exact .readClock hp
  | loop ts bufs =>
    cases bufs with
    | nil =>
      simp only [pollStep,hp] at ht
      cases ht
      exact .done hp
    | cons b bufs =>
      simp only [pollStep,hp] at ht
      split at ht
      next hkeep =>
        cases ht
        exact .loadHead hp hkeep
      next hunwanted =>
        cases ht
        exact .filter hp hunwanted
  | haveHead ts b bufs head =>
    simp only [pollStep,hp] at ht
    cases ht
    exact .loadTail hp
  | haveTail ts b bufs head tail =>
    simp only [pollStep,hp] at ht
    split at ht
    next hfull =>
      cases ht
      exact .reject hp hfull
    next hroom =>
      cases ht
      exact .write hp hroom
  | entryWritten ts b bufs head =>
    simp only [pollStep,hp] at ht
    cases ht
    exact .publish hp

theorem workerStep_move (ht : workerStep k s = some t) : WorkerMove k s t := by
  cases hw : s.worker with
  | absent =>
    simp only [workerStep,hw] at ht
    cases ht
  | exited =>
    simp only [workerStep,hw] at ht
    cases ht
  | loopTop =>
    simp only [workerStep,hw] at ht
    split at ht
    next hrunning =>
      cases ht
      exact .enter hw hrunning
    next hstopped =>
      cases ht
      exact .leave hw hstopped
  | loadTail =>
    simp only [workerStep,hw] at ht
    cases ht
    exact .loadTail hw
  | loadHead tail =>
    simp only [workerStep,hw] at ht
    split at ht
    next hreached =>
      cases ht
      exact .empty hw hreached
    next hbehind =>
      cases ht
      exact .found hw hbehind
  | dispatch tail =>
    simp only [workerStep,hw] at ht
    cases ht
    exact .dispatch hw rfl
  | release tail =>
    simp only [workerStep,hw] at ht
    cases ht
    exact .release hw rfl
  | storeTail tail =>
    simp only [workerStep,hw] at ht
    cases ht
    exact .storeTail hw

theorem controlStep_move {ok : Bool} (ht : controlStep k s ok = some t) : ControlMove k s ok t := by
  cases hc : s.control with
  | idle =>
    simp only [controlStep,hc] at ht
    cases ht
  | startLoad =>
    simp only [controlStep,hc] at ht
    split at ht
    next haccepted =>
      cases ht
      exact .load hc haccepted
    next hrefused =>
      cases ht
      exact .loadFailed hc hrefused
  | startLoaded =>
    simp only [controlStep,hc] at ht
    cases ht
    exact .loaded hc
  | startReset =>
    simp only [controlStep,hc] at ht
    cases ht
    exact .reset hc
  | startRunning =>
    simp only [controlStep,hc] at ht
    cases ht
    exact .run hc
  | startWorker =>
    simp only [controlStep,hc] at ht
    cases ht
    exact .spawn hc
  | startRegister =>
    simp only [controlStep,hc] at ht
    cases ht
    exact .register hc
  | stopUnregister =>
    simp only [controlStep,hc] at ht
    cases ht
    exact .unregister hc
  | stopRunning =>
    simp only [controlStep,hc] at ht
    cases ht
    exact .halt hc
  | stopJoin =>
    simp only [controlStep,hc] at ht
    split at ht
    next hgone =>
      cases ht
      exact .join hc hgone
    · cases ht
  | stopHead =>
    simp only [controlStep,hc] at ht
    cases ht
    exact .loadHead hc
  | stopTail head =>
    simp only [controlStep,hc] at ht
    cases ht
    exact .loadTail hc
  | stopDrain tail head =>
    simp only [controlStep,hc] at ht
    split at ht
    next hreached =>
      cases ht
      subst hreached
      exact .drained hc
    next hbehind =>
      cases ht
      exact .drain hc hbehind rfl
  | stopStore head =>
    simp only [controlStep,hc] at ht
    cases ht
    exact .storeTail hc
  | stopUnload =>
    simp only [controlStep,hc] at ht
    split at ht
    next hloaded =>
      cases ht
      exact .unload hc hloaded
    next hunloaded =>
      cases ht
      exact .keepUnloaded hc hunloaded

theorem fill_move {b : β} {a : α} (ht : fill s b a = some t) : FillMove s b a t := by
  unfold fill at ht
  split at ht
  · cases ht
  next hfree =>
    cases ht
    exact .fill hfree

theorem deliver_move {bufs : List β} (ht : deliver s bufs = some t) : DeliverMove s bufs t := by
  unfold deliver at ht
  split at ht
  next hp =>
    split at ht
    next hfresh =>
      split at ht
      next hregistered =>
        cases ht
        exact .hand hp hfresh hregistered
      next hunregistered =>
        cases ht
        exact .unclaimed hp hfresh hunregistered
    · cases ht
  · cases ht

omit [DecidableEq β] in
theorem callStart_move (ht : callStart k s = some t) : CallStartMove k s t := by
  unfold callStart at ht
  split at ht
  next hc =>
    split at ht
    next hrunning =>
      cases ht
      exact .already hc hrunning
    next hstopped =>
      split at ht
      next hload =>
        cases ht
        exact .load hc hstopped hload
      next hload =>
        cases ht
        exact .reset hc hstopped hload
  · cases ht

omit [DecidableEq β] in
theorem callStop_move (ht : callStop s = some t) : CallStopMove s t := by
  unfold callStop at ht
  split at ht
  next hc =>
    split at ht
    next hrunning =>
      cases ht
      exact .stop hc hrunning
    next hstopped =>
      cases ht
      exact .already hc hstopped
  · cases ht

end Moves

end Pipeline
end E3Controller
