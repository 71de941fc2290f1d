import Mathlib.Data.List.Forall2
import E3Controller.Layer1Runs
import E3Controller.PipelineFlow
import E3Controller.UplinkCodelet

/-!
# From the slot hook to the indication

The whole path of `writer: gnb`: codelet fires, the output channel, the pipeline's
threads and the service model. Every interleaving of them is a run. A descriptor
is queued by pointer, so what an indication carries depends on the buffer still
holding what its fire wrote when the worker reads it.
-/

namespace E3Controller
namespace SlotPath

open LabelledRun Config SlotApi SpscRing Pipeline Uplink Shm StageTrace L1Kpm Layer1

structure Fire where
  ctx : SlotCtx
  reply : HelperReply
  result : FireResult

inductive SmPc
  | idle | starting | stopping
  deriving DecidableEq, Repr

section Calls

variable {S : Type} {pc : SmPc} {t : S}

/-- A call of `start` or `stop`: refused inside of another one, ignored if there is nothing to do,
or passed on to the pipeline. -/
theorem called_cases {done : Bool} {s : S} {call : Option S}
    (ht : (if pc ≠ .idle then none else if done = true then some s else call) = some t) :
    pc = .idle ∧ (done = true ∧ s = t ∨ done = false ∧ call = some t) := by
  by_cases hidle : pc = .idle
  · rw [if_neg (not_not.mpr hidle)] at ht
    cases done with
    | true => exact ⟨hidle,.inl ⟨rfl,Option.some.inj ht⟩⟩
    | false => exact ⟨hidle,.inr ⟨rfl,ht⟩⟩
  · rw [if_pos hidle] at ht
    cases ht

theorem returned_cases {control : ControlPc} {started stopped : S}
    (ht : (if control ≠ .idle then none else
      match pc with
      | .idle => none
      | .starting => some started
      | .stopping => some stopped) = some t) :
    control = .idle ∧ (pc = .starting ∧ started = t ∨ pc = .stopping ∧ stopped = t) := by
  by_cases hidle : control = .idle
  · rw [if_neg (not_not.mpr hidle)] at ht
    cases pc with
    | idle => cases ht
    | starting => exact ⟨hidle,.inl ⟨rfl,Option.some.inj ht⟩⟩
    | stopping => exact ⟨hidle,.inr ⟨rfl,Option.some.inj ht⟩⟩
  · rw [if_pos hidle] at ht
    cases ht

end Calls

/-- All parties. `channel` holds the buffers sent and not yet delivered; `fires`,
`seen` and `emitted` record the fires, the descriptors `on_sample` was called with
and the indications it emitted. -/
structure PathState (β ω : Type) where
  pipe : Pipeline.State β E3SlotDesc SlotMessage
  sm : E3SMLayer1
  smControl : SmPc := .idle
  selState : E3SlotSel := {}
  channel : List β := []
  fires : List Fire := []
  seen : List E3SlotDesc := []
  emitted : List (Emission ω) := []

/-- A fire with the output buffer it is given; the channel losing or delivering its
oldest buffers; steps of the pipeline's threads; `start`, `stop` and their return. -/
inductive PathAction (β : Type)
  | fire (ctx : SlotCtx) (a : FireAnswers) (b : β)
  | lose (n : ℕ)
  | deliver (n : ℕ)
  | poll (ok : Bool) (ts : UInt64)
  | worker (a : Answers)
  | control (ok : Bool)
  | smStart
  | smStop
  | smReturn

section Step

variable {β ω : Type} [DecidableEq β] (p : Platform ω) (k : Kind E3SlotDesc SlotMessage)

/-- A fire writes its descriptor to a buffer that is neither in the channel nor in
the pipeline. -/
def fireStep (s : PathState β ω) (ctx : SlotCtx) (a : FireAnswers) (b : β) :
    Option (PathState β ω) :=
  let fired := jbpfMain s.selState ctx a
  let s := { s with selState := fired.1, fires := s.fires ++ [⟨ctx,a.reply,fired.2⟩] }
  match fired.2.desc with
  | none => some s
  | some d =>
    if b ∈ s.channel then none
    else
      match Pipeline.step k s.pipe (.fill b d) with
      | none => none
      | some pipe => some { s with
          pipe := pipe
          channel := if fired.2.sent then s.channel ++ [b] else s.channel }

/-- The worker; at `dispatch_sample` it runs the consumer. -/
def workerPathStep (s : PathState β ω) (a : Answers) : Option (PathState β ω) :=
  match Pipeline.step k s.pipe .worker with
  | none => none
  | some pipe =>
    match s.pipe.worker with
    | .dispatch tail =>
      let entry := s.pipe.ring.slots (slotIndex k.logCapacity tail)
      match s.sm.onSample p (dispatchSample entry (s.pipe.mem entry.buf)) a with
      | none => none
      | some (sm,es) => some { s with
          pipe := pipe
          sm := sm
          seen := s.seen ++ [s.pipe.mem entry.buf]
          emitted := s.emitted ++ es }
    | _ => some { s with pipe := pipe }

/-- A step inside the pipeline's `start` or `stop`. A load zeroes the codelet's maps,
a new worker thread has a new floor. -/
def controlPathStep (s : PathState β ω) (ok : Bool) : Option (PathState β ω) :=
  match Pipeline.step k s.pipe (.control ok) with
  | none => none
  | some pipe => some { s with
      pipe := pipe
      selState := if s.pipe.control = .startLoad ∧ ok = true then {} else s.selState
      sm := if s.pipe.control = .startWorker then { s.sm with trace := s.sm.trace.newThread }
        else s.sm }

/-- `start()` up to the call of the pipeline's `start`, and `stop()` likewise. -/
def smStartStep (s : PathState β ω) : Option (PathState β ω) :=
  if s.smControl ≠ .idle then none
  else if s.sm.running then some s
  else
    match Pipeline.step k s.pipe .callStart with
    | none => none
    | some pipe => some { s with pipe := pipe, sm := s.sm.startBegin, smControl := .starting }

def smStopStep (s : PathState β ω) : Option (PathState β ω) :=
  if s.smControl ≠ .idle then none
  else if !s.sm.running then some s
  else
    match Pipeline.step k s.pipe .callStop with
    | none => none
    | some pipe => some { s with pipe := pipe, sm := s.sm.stop, smControl := .stopping }

def smReturnStep (s : PathState β ω) : Option (PathState β ω) :=
  if s.pipe.control ≠ .idle then none
  else
    match s.smControl with
    | .idle => none
    | .starting => some { s with
        sm := { s.sm with running := s.pipe.running }
        smControl := .idle }
    | .stopping => some { s with smControl := .idle }

def deliverStep (s : PathState β ω) (n : ℕ) : Option (PathState β ω) :=
  match Pipeline.step k s.pipe (.deliver (s.channel.take n)) with
  | none => none
  | some pipe => some { s with pipe := pipe, channel := s.channel.drop n }

def pathStep (s : PathState β ω) : PathAction β → Option (PathState β ω)
  | .fire ctx a b => fireStep k s ctx a b
  | .lose n => some { s with channel := s.channel.drop n }
  | .deliver n => deliverStep k s n
  | .poll ok ts => (Pipeline.step k s.pipe (.poll ok ts)).map fun pipe => { s with pipe := pipe }
  | .worker a => workerPathStep p k s a
  | .control ok => controlPathStep k s ok
  | .smStart => smStartStep k s
  | .smStop => smStopStep k s
  | .smReturn => smReturnStep s

end Step

section Moves

variable {β ω : Type} [DecidableEq β] (p : Platform ω) (k : Kind E3SlotDesc SlotMessage)

inductive PathMove (s : PathState β ω) : PathAction β → PathState β ω → Prop
  | skip {ctx : SlotCtx} {a : FireAnswers} {b : β}
      (desc : (jbpfMain s.selState ctx a).2.desc = none) :
      PathMove s (.fire ctx a b) { s with
        selState := (jbpfMain s.selState ctx a).1
        fires := s.fires ++ [⟨ctx,a.reply,(jbpfMain s.selState ctx a).2⟩] }
  | fire {ctx : SlotCtx} {a : FireAnswers} {b : β} {d : E3SlotDesc}
      {pipe : Pipeline.State β E3SlotDesc SlotMessage}
      (desc : (jbpfMain s.selState ctx a).2.desc = some d) (free : b ∉ s.channel)
      (step : Pipeline.step k s.pipe (.fill b d) = some pipe) :
      PathMove s (.fire ctx a b) { s with
        selState := (jbpfMain s.selState ctx a).1
        fires := s.fires ++ [⟨ctx,a.reply,(jbpfMain s.selState ctx a).2⟩]
        pipe := pipe
        channel := if (jbpfMain s.selState ctx a).2.sent then s.channel ++ [b] else s.channel }
  | lose {n : ℕ} : PathMove s (.lose n) { s with channel := s.channel.drop n }
  | deliver {n : ℕ} {pipe : Pipeline.State β E3SlotDesc SlotMessage}
      (step : Pipeline.step k s.pipe (.deliver (s.channel.take n)) = some pipe) :
      PathMove s (.deliver n) { s with pipe := pipe, channel := s.channel.drop n }
  | poll {ok : Bool} {ts : UInt64} {pipe : Pipeline.State β E3SlotDesc SlotMessage}
      (step : Pipeline.step k s.pipe (.poll ok ts) = some pipe) :
      PathMove s (.poll ok ts) { s with pipe := pipe }
  | dispatch {a : Answers} {tail : BitVec 64} {pipe : Pipeline.State β E3SlotDesc SlotMessage}
      {sm : E3SMLayer1} {es : List (Emission ω)} (pc : s.pipe.worker = .dispatch tail)
      (step : Pipeline.step k s.pipe .worker = some pipe)
      (sample : s.sm.onSample p (dispatchSample (s.pipe.ring.slots (slotIndex k.logCapacity tail))
        (s.pipe.mem (s.pipe.ring.slots (slotIndex k.logCapacity tail)).buf)) a = some (sm,es)) :
      PathMove s (.worker a) { s with
        pipe := pipe
        sm := sm
        seen := s.seen ++ [s.pipe.mem (s.pipe.ring.slots (slotIndex k.logCapacity tail)).buf]
        emitted := s.emitted ++ es }
  | worker {a : Answers} {pipe : Pipeline.State β E3SlotDesc SlotMessage}
      (pc : ∀ tail, s.pipe.worker ≠ .dispatch tail)
      (step : Pipeline.step k s.pipe .worker = some pipe) :
      PathMove s (.worker a) { s with pipe := pipe }
  | control {ok : Bool} {pipe : Pipeline.State β E3SlotDesc SlotMessage}
      (step : Pipeline.step k s.pipe (.control ok) = some pipe) :
      PathMove s (.control ok) { s with
        pipe := pipe
        selState := if s.pipe.control = .startLoad ∧ ok = true then {} else s.selState
        sm := if s.pipe.control = .startWorker then { s.sm with trace := s.sm.trace.newThread }
          else s.sm }
  | startAgain (idle : s.smControl = .idle) (up : s.sm.running = true) : PathMove s .smStart s
  | start {pipe : Pipeline.State β E3SlotDesc SlotMessage} (idle : s.smControl = .idle)
      (down : s.sm.running = false) (step : Pipeline.step k s.pipe .callStart = some pipe) :
      PathMove s .smStart { s with pipe := pipe, sm := s.sm.startBegin, smControl := .starting }
  | stopAgain (idle : s.smControl = .idle) (down : s.sm.running = false) : PathMove s .smStop s
  | stop {pipe : Pipeline.State β E3SlotDesc SlotMessage} (idle : s.smControl = .idle)
      (up : s.sm.running = true) (step : Pipeline.step k s.pipe .callStop = some pipe) :
      PathMove s .smStop { s with pipe := pipe, sm := s.sm.stop, smControl := .stopping }
  | started (control : s.pipe.control = .idle) (starting : s.smControl = .starting) :
      PathMove s .smReturn { s with
        sm := { s.sm with running := s.pipe.running }
        smControl := .idle }
  | stopped (control : s.pipe.control = .idle) (stopping : s.smControl = .stopping) :
      PathMove s .smReturn { s with smControl := .idle }

variable {p k} {s t : PathState β ω}

theorem fireStep_move {ctx : SlotCtx} {a : FireAnswers} {b : β}
    (ht : fireStep k s ctx a b = some t) : PathMove p k s (.fire ctx a b) t := by
  unfold fireStep at ht
  dsimp only at ht
  split at ht
  next hdesc =>
    cases ht
    exact .skip hdesc
  next d hdesc =>
    split at ht
    · cases ht
    next hfree =>
      split at ht
      · cases ht
      next pipe hstep =>
        cases ht
        exact .fire hdesc hfree hstep

theorem workerPathStep_move {a : Answers} (ht : workerPathStep p k s a = some t) :
    PathMove p k s (.worker a) t := by
  unfold workerPathStep at ht
  split at ht
  · cases ht
  next pipe hstep =>
    split at ht
    next tail hpc =>
      dsimp only at ht
      split at ht
      · cases ht
      next sm es hsample =>
        cases ht
        exact .dispatch hpc hstep hsample
    next hpc =>
      cases ht
      exact .worker (fun tail h => hpc tail h) hstep

theorem smStartStep_move (ht : smStartStep k s = some t) : PathMove p k s .smStart t := by
  obtain ⟨hidle,⟨hup,rfl⟩ | ⟨hdown,hcall⟩⟩ := called_cases ht
  · exact .startAgain hidle hup
  · split at hcall
    · cases hcall
    next pipe hstep =>
      cases hcall
      exact .start hidle hdown hstep

theorem smStopStep_move (ht : smStopStep k s = some t) : PathMove p k s .smStop t := by
  obtain ⟨hidle,⟨hdown,rfl⟩ | ⟨hup,hcall⟩⟩ := called_cases ht
  · exact .stopAgain hidle (by simpa using hdown)
  · split at hcall
    · cases hcall
    next pipe hstep =>
      cases hcall
      exact .stop hidle (by simpa using hup) hstep

theorem smReturnStep_move (ht : smReturnStep s = some t) : PathMove p k s .smReturn t := by
  obtain ⟨hcontrol,⟨hpc,rfl⟩ | ⟨hpc,rfl⟩⟩ := returned_cases ht
  · exact .started hcontrol hpc
  · exact .stopped hcontrol hpc

theorem pathStep_move {a : PathAction β} (ht : pathStep p k s a = some t) : PathMove p k s a t := by
  cases a with
  | fire ctx a b => exact fireStep_move ht
  | lose n =>
    cases ht
    exact .lose
  | deliver n =>
    simp only [pathStep,deliverStep] at ht
    split at ht
    · cases ht
    next pipe hstep =>
      cases ht
      exact .deliver hstep
  | poll ok ts =>
    obtain ⟨pipe,hstep,rfl⟩ := Option.map_eq_some_iff.mp ht
    exact .poll hstep
  | worker a => exact workerPathStep_move ht
  | control ok =>
    simp only [pathStep,controlPathStep] at ht
    split at ht
    · cases ht
    next pipe hstep =>
      cases ht
      exact .control hstep
  | smStart => exact smStartStep_move ht
  | smStop => exact smStopStep_move ht
  | smReturn => exact smReturnStep_move ht

end Moves

section Invariant

variable {β ω : Type} (p : Platform ω)

/-- The buffers between a fire and the service model, oldest first. -/
def inflight (s : PathState β ω) : List β := waiting s.pipe ++ s.channel

/-- The slots that were given to the service model or are on their way to it. -/
def onward (s : PathState β ω) : List E3SlotDesc := s.seen ++ (inflight s).map s.pipe.mem

def sentDescs (fires : List Fire) : List E3SlotDesc :=
  (fires.filter fun f => f.result.sent).map fun f => f.result.desc.getD {}

/-- An indication is about a slot: the descriptor is of a written row, and the payload
carries its coordinates. -/
def About (encoding : EncodingFormat) (e : Emission ω) (d : E3SlotDesc) : Prop :=
  d.flags &&& flagTruncated = 0 ∧
    Carries p.codecs encoding e.payload ⟨d.gnbTsNs,d.sfn,d.slotId,d.fhBufferIndex,d.fhWriteIndex⟩

/-- The indications of one dApp belong, in order, to a selection of these slots. -/
def InOrder (encoding : EncodingFormat) (dapp : UInt32) (emitted : List (Emission ω))
    (seen : List E3SlotDesc) : Prop :=
  List.SublistForall₂ (About p encoding) (emitted.filter fun e => e.dapp = dapp) seen

/-- The invariant of the path. What the service model saw, followed by what the
buffers in flight hold, is a selection of what the fires sent, in order. -/
structure PathInv (k : Kind E3SlotDesc SlotMessage) (l₀ : E3SMLayer1) (s : PathState β ω) :
    Prop where
  pipe : Inv k s.pipe
  config : SameConfig l₀ s.sm
  fires : ∀ f ∈ s.fires, ∃ sel a, f.reply = a.reply ∧ f.result = (jbpfMain sel f.ctx a).2
  path : (s.seen ++ (inflight s).map s.pipe.mem).Sublist (sentDescs s.fires)
  emitted : ∀ dapp, InOrder p l₀.encoding dapp s.emitted s.seen

theorem sentDescs_append (fires : List Fire) (f : Fire) :
    (sentDescs fires).Sublist (sentDescs (fires ++ [f])) := by
  unfold sentDescs
  rw [List.filter_append,List.map_append]
  exact List.sublist_append_left _ _

theorem sentDescs_append_unsent {f : Fire} (fires : List Fire) (h : f.result.sent = false) :
    sentDescs (fires ++ [f]) = sentDescs fires := by
  unfold sentDescs
  rw [List.filter_append,List.map_append]
  simp [h]

theorem sentDescs_append_sent {f : Fire} {d : E3SlotDesc} (fires : List Fire)
    (hsent : f.result.sent = true) (hdesc : f.result.desc = some d) :
    sentDescs (fires ++ [f]) = sentDescs fires ++ [d] := by
  unfold sentDescs
  rw [List.filter_append,List.map_append]
  simp [hsent,hdesc]

variable {p}
variable {k : Kind E3SlotDesc SlotMessage} {l₀ : E3SMLayer1} {s t : PathState β ω}

theorem PathInv.quiet (h : PathInv p k l₀ s) (hpipe : Inv k t.pipe) (hconfig : SameConfig s.sm t.sm)
    (hfires : t.fires = s.fires) (hseen : t.seen = s.seen) (hemitted : t.emitted = s.emitted)
    (hmem : t.pipe.mem = s.pipe.mem) (hflight : (inflight t).Sublist (inflight s)) :
    PathInv p k l₀ t where
  pipe := hpipe
  config := h.config.trans hconfig
  fires := by
    rw [hfires]
    exact h.fires
  path := by
    rw [hfires,hseen,hmem]
    exact ((hflight.map _).append_left _).trans h.path
  emitted := by
    rw [hemitted,hseen]
    exact h.emitted

/-- Subscribers are distinct, so one published slot makes at most one message for each. -/
theorem emissions_filter (payload : ω) (a : Answers) (dapp : UInt32) :
    (E3SMLayer1.emissions payload a).filter (fun e => e.dapp = dapp) = [] ∨
    (E3SMLayer1.emissions payload a).filter (fun e => e.dapp = dapp) =
      [⟨dapp,ranFunctionId,payload,a.emitOk dapp⟩] := by
  have hcount := List.nodup_iff_count_le_one.mp a.subscribers.nodup dapp
  have hfilter : (E3SMLayer1.emissions payload a).filter (fun e => e.dapp = dapp) =
      (List.replicate (a.subscribers.ids.count dapp) dapp).map
        fun dapp => ⟨dapp,ranFunctionId,payload,a.emitOk dapp⟩ := by
    rw [E3SMLayer1.emissions,List.filter_map,← List.filter_eq]
    rfl
  rw [hfilter]
  rcases Nat.le_one_iff_eq_zero_or_eq_one.mp hcount with h0 | h1
  · rw [h0]
    exact .inl rfl
  · rw [h1]
    exact .inr rfl

theorem gnb_emissions {l l' : E3SMLayer1} {entry : QueueEntry β} {d : E3SlotDesc} {a : Answers}
    {es : List (Emission ω)} (hconfig : SameConfig l₀ l)
    (hgnb : l₀.shmWriter.writesRows = false)
    (h : l.onSample p (dispatchSample entry d) a = some (l',es)) :
    es = [] ∨ ∃ payload, es = E3SMLayer1.emissions payload a ∧
      ∀ dapp ok, About p l₀.encoding ⟨dapp,ranFunctionId,payload,ok⟩ d := by
  rcases E3SMLayer1.onSample_emissions p h with hnil | ⟨hadm,l₁,payload,hframe,henc,hes⟩
  · exact .inl hnil
  · right
    refine ⟨payload,hes,fun dapp ok => ⟨?_,?_⟩⟩
    · have hrows := (hconfig.trans (checkGeometry_sameConfig l (dispatchSample entry d))).writesRows
      exact (E3SMLayer1.checkPayload_gnb (hrows.trans hgnb) hadm.payload).1
    · have hsame := (hconfig.trans (afterCheck_sameConfig l (dispatchSample entry d))).frame hframe
      have hcarries := E3SMLayer1.encodeIndication_carries p henc
      rw [E3SMLayer1.placeRow_gnb p (hsame.writesRows.trans hgnb),hsame.encoding] at hcarries
      exact hcarries

theorem InOrder.next {encoding : EncodingFormat} {dapp : UInt32} {emitted es : List (Emission ω)}
    {seen : List E3SlotDesc} {d : E3SlotDesc} {a : Answers}
    (h : InOrder p encoding dapp emitted seen)
    (hes : es = [] ∨ ∃ payload, es = E3SMLayer1.emissions payload a ∧
      ∀ dapp ok, About p encoding ⟨dapp,ranFunctionId,payload,ok⟩ d) :
    InOrder p encoding dapp (emitted ++ es) (seen ++ [d]) := by
  obtain ⟨ds,hall,hsub⟩ := List.sublistForall₂_iff.mp h
  unfold InOrder
  rw [List.filter_append,List.sublistForall₂_iff]
  have hskip := hsub.trans (List.sublist_append_left seen [d])
  rcases hes with rfl | ⟨payload,rfl,habout⟩
  · exact ⟨ds,by simpa using hall,hskip⟩
  · rcases emissions_filter payload a dapp with hnone | hone
    · rw [hnone,List.append_nil]
      exact ⟨ds,hall,hskip⟩
    · rw [hone]
      exact ⟨ds ++ [d],List.rel_append hall (.cons (habout dapp _) .nil),
        hsub.append (List.Sublist.refl _)⟩

theorem PathInv.fires_append (h : PathInv p k l₀ s) {sel : E3SlotSel} {ctx : SlotCtx}
    {a : FireAnswers} {fired : E3SlotSel × FireResult} (hfired : jbpfMain sel ctx a = fired) :
    ∀ f ∈ s.fires ++ [⟨ctx,a.reply,fired.2⟩],
      ∃ sel a, f.reply = a.reply ∧ f.result = (jbpfMain sel f.ctx a).2 := by
  intro f hf
  rcases List.mem_append.mp hf with hf | hf
  · exact h.fires f hf
  · rw [List.mem_singleton.mp hf]
    exact ⟨sel,a,rfl,congrArg Prod.snd hfired.symm⟩

section Steps

variable [DecidableEq β]

theorem map_update_of_notMem (mem : β → E3SlotDesc) {b : β} (d : E3SlotDesc) {bufs : List β}
    (hb : b ∉ bufs) : bufs.map (Function.update mem b d) = bufs.map mem := by
  refine List.map_congr_left fun x hx => Function.update_of_ne ?_ d mem
  rintro rfl
  exact hb hx

/-- A fire adds its descriptor behind everything that is on its way. -/
theorem onward_fire (h : Inv k s.pipe) {b : β} (hchannel : b ∉ s.channel)
    (howned : b ∉ s.pipe.hist.owned) (d : E3SlotDesc) (sent : Bool) (selState : E3SlotSel)
    (fires : List Fire) :
    onward { s with
      selState := selState
      fires := fires
      pipe := { s.pipe with mem := Function.update s.pipe.mem b d }
      channel := if sent then s.channel ++ [b] else s.channel } =
      onward s ++ if sent then [d] else [] := by
  have hflight : b ∉ inflight s := fun hb =>
    (List.mem_append.mp hb).elim (fun hb => howned (h.waiting_owned hb)) hchannel
  have hkept : (waiting s.pipe ++ s.channel).map (Function.update s.pipe.mem b d) =
      (waiting s.pipe ++ s.channel).map s.pipe.mem := map_update_of_notMem s.pipe.mem d hflight
  cases sent with
  | true =>
    change s.seen ++ (waiting s.pipe ++ (s.channel ++ [b])).map (Function.update s.pipe.mem b d) = _
    rw [← List.append_assoc,List.map_append,hkept,List.map_singleton,Function.update_self,
      ← List.append_assoc]
    rfl
  | false =>
    change s.seen ++ (waiting s.pipe ++ s.channel).map (Function.update s.pipe.mem b d) = _
    rw [hkept]
    exact (List.append_nil _).symm

theorem PathInv.fire {ctx : SlotCtx} {a : FireAnswers} {b : β} {d : E3SlotDesc}
    {pipe : Pipeline.State β E3SlotDesc SlotMessage} (h : PathInv p k l₀ s)
    (hdesc : (jbpfMain s.selState ctx a).2.desc = some d) (hfree : b ∉ s.channel)
    (hstep : Pipeline.step k s.pipe (.fill b d) = some pipe) :
    PathInv p k l₀ { s with
      selState := (jbpfMain s.selState ctx a).1
      fires := s.fires ++ [⟨ctx,a.reply,(jbpfMain s.selState ctx a).2⟩]
      pipe := pipe
      channel := if (jbpfMain s.selState ctx a).2.sent then s.channel ++ [b] else s.channel } := by
  have hpipe := step_inv h.pipe hstep
  have hpath : (onward s).Sublist (sentDescs s.fires) := h.path
  cases fill_move hstep with
  | fill hunowned =>
    refine ⟨hpipe,h.config,h.fires_append rfl,?_,h.emitted⟩
    change (onward _).Sublist _
    rw [onward_fire h.pipe hfree hunowned]
    cases hsent : (jbpfMain s.selState ctx a).2.sent with
    | true =>
      rw [sentDescs_append_sent s.fires hsent hdesc]
      exact hpath.append (List.Sublist.refl _)
    | false =>
      rw [if_neg Bool.false_ne_true,List.append_nil]
      exact hpath.trans (sentDescs_append s.fires _)

theorem PathInv.pipelineStep {a : Pipeline.Action β E3SlotDesc} {pipe : Pipeline.State β E3SlotDesc SlotMessage}
    (h : PathInv p k l₀ s) (hfill : ∀ b d, a ≠ .fill b d) (hdeliver : ∀ bufs, a ≠ .deliver bufs)
    (hstep : Pipeline.step k s.pipe a = some pipe) {sm : E3SMLayer1} (hconfig : SameConfig s.sm sm)
    {smControl : SmPc} {selState : E3SlotSel} :
    PathInv p k l₀ { s with pipe := pipe, sm := sm, smControl := smControl, selState := selState } :=
  h.quiet (step_inv h.pipe hstep) hconfig rfl rfl rfl (step_mem hfill hstep)
    ((step_waiting h.pipe hdeliver hstep).append_right _)

theorem PathInv.deliver {n : ℕ} {pipe : Pipeline.State β E3SlotDesc SlotMessage}
    (h : PathInv p k l₀ s) (hstep : Pipeline.step k s.pipe (.deliver (s.channel.take n)) = some pipe) :
    PathInv p k l₀ { s with pipe := pipe, channel := s.channel.drop n } := by
  have hmem := step_mem (by simp) hstep
  refine h.quiet (step_inv h.pipe hstep) ⟨rfl,rfl,rfl,rfl⟩ rfl rfl rfl hmem ?_
  cases deliver_move hstep with
  | hand pc =>
    -- The batch moves from the channel to the poll thread.
    simp only [inflight,waiting,pc,PollPc.pending,List.append_nil,List.append_assoc,
      List.take_append_drop]
    exact List.Sublist.refl _
  | unclaimed => exact (List.drop_sublist n s.channel).append_left _

theorem PathInv.dispatch {a : Answers} {tail : BitVec 64}
    {pipe : Pipeline.State β E3SlotDesc SlotMessage} {sm : E3SMLayer1} {es : List (Emission ω)}
    (hgnb : l₀.shmWriter.writesRows = false) (h : PathInv p k l₀ s)
    (hw : s.pipe.worker = .dispatch tail) (hstep : Pipeline.step k s.pipe .worker = some pipe)
    (hsample : s.sm.onSample p (dispatchSample (s.pipe.ring.slots (slotIndex k.logCapacity tail))
      (s.pipe.mem (s.pipe.ring.slots (slotIndex k.logCapacity tail)).buf)) a = some (sm,es)) :
    PathInv p k l₀ { s with
      pipe := pipe
      sm := sm
      seen := s.seen ++ [s.pipe.mem (s.pipe.ring.slots (slotIndex k.logCapacity tail)).buf]
      emitted := s.emitted ++ es } := by
  have hwaiting := dispatch_waiting h.pipe hw hstep
  have hmem := step_mem (by simp) hstep
  have hsame := (h.config.trans (afterCheck_sameConfig s.sm _)).frame
    (E3SMLayer1.onSample_frame p hsample)
  refine ⟨step_inv h.pipe hstep,hsame,h.fires,?_,fun dapp => ?_⟩
  · have hpath := h.path
    rw [inflight,hwaiting] at hpath
    simp only [inflight,hmem,List.append_assoc,List.singleton_append]
    simpa using hpath
  · exact (h.emitted dapp).next (gnb_emissions h.config hgnb hsample)

theorem pathStep_inv {a : PathAction β} (hgnb : l₀.shmWriter.writesRows = false)
    (h : PathInv p k l₀ s) (ht : pathStep p k s a = some t) : PathInv p k l₀ t := by
  cases pathStep_move ht with
  | skip =>
    exact ⟨h.pipe,h.config,h.fires_append rfl,h.path.trans (sentDescs_append s.fires _),h.emitted⟩
  | fire hdesc hfree hstep => exact h.fire hdesc hfree hstep
  | @lose n =>
    exact h.quiet h.pipe ⟨rfl,rfl,rfl,rfl⟩ rfl rfl rfl rfl
      ((List.drop_sublist n s.channel).append_left _)
  | deliver hstep => exact h.deliver hstep
  | poll hstep => exact h.pipelineStep (by simp) (by simp) hstep ⟨rfl,rfl,rfl,rfl⟩
  | dispatch hw hstep hsample => exact h.dispatch hgnb hw hstep hsample
  | worker _ hstep => exact h.pipelineStep (by simp) (by simp) hstep ⟨rfl,rfl,rfl,rfl⟩
  | control hstep =>
    refine h.pipelineStep (by simp) (by simp) hstep ?_
    split <;> exact ⟨rfl,rfl,rfl,rfl⟩
  | startAgain => exact h
  | start _ _ hstep =>
    refine h.pipelineStep (by simp) (by simp) hstep ?_
    exact ⟨rfl,rfl,rfl,rfl⟩
  | stopAgain => exact h
  | stop _ _ hstep =>
    refine h.pipelineStep (by simp) (by simp) hstep ?_
    exact ⟨rfl,rfl,rfl,rfl⟩
  | started => exact h.quiet h.pipe ⟨rfl,rfl,rfl,rfl⟩ rfl rfl rfl rfl (List.Sublist.refl _)
  | stopped => exact h.quiet h.pipe ⟨rfl,rfl,rfl,rfl⟩ rfl rfl rfl rfl (List.Sublist.refl _)

end Steps

end Invariant

section Result

variable {β ω : Type} [DecidableEq β] (p : Platform ω)

/-- The path before anything has happened: a constructed pipeline and service model,
an empty channel, and a codelet with zeroed maps. -/
def PathState.fresh (config : ControllerConfig) (shmWriter : ShmIqWriter) (trace : Trace)
    (ring : Ring 64 (QueueEntry β)) (mem : β → E3SlotDesc) : PathState β ω where
  pipe := Pipeline.State.constructed ring 0 0 mem
  sm := E3SMLayer1.constructed config shmWriter trace

omit [DecidableEq β] in
theorem fresh_pathInv (k : Kind E3SlotDesc SlotMessage) (config : ControllerConfig)
    (shmWriter : ShmIqWriter) (trace : Trace) {ring : Ring 64 (QueueEntry β)}
    (mem : β → E3SlotDesc) (hring : ring.head = ring.tail) :
    PathInv p k (E3SMLayer1.constructed config shmWriter trace)
      (PathState.fresh config shmWriter trace ring mem : PathState β ω) where
  pipe := constructed_inv k ring 0 0 mem hring
  config := ⟨rfl,rfl,rfl,rfl⟩
  fires f hf := by cases hf
  path := List.Sublist.refl _
  emitted dapp := .nil

/-- An indication tells which row a fire published: the helper answered with that row,
and the payload carries it together with the fire's own time stamp, frame and slot. -/
def Tells (encoding : EncodingFormat) (e : Emission ω) (f : Fire) : Prop :=
  ∃ buf row, f.reply = .wrote buf row ∧ f.result.publish.isSome = true ∧
    Carries p.codecs encoding e.payload ⟨f.ctx.gnbTsNs,f.ctx.sfn,f.ctx.slotId,buf,row⟩

theorem tells_of_about {encoding : EncodingFormat} {e : Emission ω} {f : Fire}
    (hf : ∃ sel a, f.reply = a.reply ∧ f.result = (jbpfMain sel f.ctx a).2) {d : E3SlotDesc}
    (hd : f.result.desc = some d) (h : About p encoding e d) : Tells p encoding e f := by
  obtain ⟨sel,a,hreply,hresult⟩ := hf
  rw [hresult] at hd
  obtain ⟨flags,hclear,hdesc⟩ := jbpfMain_desc hd
  obtain ⟨hrow,n,hrung,-⟩ := descriptor_published hclear hdesc h.1
  have hpublish : f.result.publish = some n := by rw [hresult,jbpfMain_publish hd,hrung]
  rw [hrung] at hrow
  cases hr : a.reply with
  | refused rc hneg =>
    rw [hr] at hrow
    cases hrow
  | wrote buf row =>
    rw [hr,publishedRow,Option.some.injEq,Prod.mk.injEq] at hrow
    refine ⟨buf,row,hreply.trans hr,by rw [hpublish]; rfl,?_⟩
    rw [hrow.1,hrow.2]
    have hcarries := h.2
    rw [hdesc] at hcarries ⊢
    exact hcarries

/-- In every run, the indications for one dApp belong in order to distinct fires, and
each tells the row that the helper wrote for its own fire. -/
theorem indications_follow_fires (pipelineConfig : SlotPipelineConfig) (config : ControllerConfig)
    (shmWriter : ShmIqWriter) (hgnb : shmWriter.writer = .gnb) (trace : Trace)
    (ring : Ring 64 (QueueEntry β)) (hring : ring.head = ring.tail) (mem : β → E3SlotDesc)
    (actions : List (PathAction β)) (t : PathState β ω)
    (hrun : run (pathStep p (slotIqPipeline pipelineConfig))
      (PathState.fresh config shmWriter trace ring mem) actions = some t) (dapp : UInt32) :
    ∃ fs, fs.Sublist t.fires ∧
      List.Forall₂ (Tells p config.e3.encoding) (t.emitted.filter fun e => e.dapp = dapp) fs := by
  have hwrites : shmWriter.writesRows = false := by
    rw [ShmIqWriter.writesRows,hgnb]
    rfl
  have hinv : PathInv p (slotIqPipeline pipelineConfig)
      (E3SMLayer1.constructed config shmWriter trace) t :=
    run_invariant_of_step (fun _ _ _ hi ht => pathStep_inv hwrites hi ht)
      (fresh_pathInv p _ config shmWriter trace mem hring) hrun
  obtain ⟨ds,hall,hseen⟩ := List.sublistForall₂_iff.mp (hinv.emitted dapp)
  have hsent : ds.Sublist (sentDescs t.fires) :=
    hseen.trans ((List.sublist_append_left _ _).trans hinv.path)
  obtain ⟨fs,hfs,rfl⟩ := List.sublist_map_iff.mp hsent
  refine ⟨fs,hfs.trans List.filter_sublist,?_⟩
  have hfire : ∀ f ∈ fs, f ∈ t.fires ∧ f.result.sent = true := fun f hf =>
    List.mem_filter.mp (hfs.subset hf)
  have hpairs : List.Forall₂ (fun f e => (f ∈ t.fires ∧ f.result.sent = true) ∧
      About p config.e3.encoding e (f.result.desc.getD {})) fs
      (t.emitted.filter fun e => e.dapp = dapp) :=
    (List.forall₂_and_left _ _).mpr ⟨hfire,(List.forall₂_map_right_iff.mp hall).flip⟩
  refine (hpairs.imp fun f e hfe => ?_).flip
  obtain ⟨⟨hmem,hs⟩,habout⟩ := hfe
  have hf := hinv.fires f hmem
  obtain ⟨sel,a,hreply,hresult⟩ := hf
  obtain ⟨d,hd⟩ := jbpfMain_sent (hresult ▸ hs)
  rw [← hresult] at hd
  rw [hd] at habout
  exact tells_of_about p ⟨sel,a,hreply,hresult⟩ hd habout

end Result

def fullBandCtx (sfn : UInt16) : SlotCtx where
  dataEnd := 733824
  gnbTsNs := 1000
  sfn := sfn
  nofPorts := 4
  nofSymbols := 14
  nofSubcarriers := 3276

def answering (reply : HelperReply) : FireAnswers where
  entryTsNs := 1100
  exitTsNs := 1200
  shmIn := none
  selIn := none
  reply := reply
  outputBuf := true
  sendOk := true

/-- Start, one refused and one published fire, and both dispatched. -/
def refusedThenPublished : List (PathAction ℕ) :=
  [.smStart,.control true,.control true,.control true,.control true,.smReturn,
    .fire (fullBandCtx 7) (answering (.refused (-1) (by decide))) 1,
    .fire (fullBandCtx 8) (answering (.wrote 1 5)) 2,.deliver 2] ++
    List.replicate 14 (.poll true 2000) ++ List.replicate 12 (.worker oneSubscriber)

def emptyPath : PathState ℕ (JsonIndication ⊕ AperIndication) :=
  PathState.fresh {} gnbWriter {} ⟨0,0,fun _ => ⟨0,0,0,0⟩⟩ fun _ => {}

theorem indications_follow_fires_refused :
    ∃ t, run (pathStep taggedPlatform (slotIqPipeline { writer := .gnb })) emptyPath
      refusedThenPublished = some t ∧ t.fires.length = 2 ∧ t.emitted.length = 1 ∧
      ∃ fs, fs.Sublist t.fires ∧
        List.Forall₂ (Tells taggedPlatform .asn1) (t.emitted.filter fun e => e.dapp = 1) fs := by
  have hcount : (run (pathStep taggedPlatform (slotIqPipeline { writer := .gnb })) emptyPath
      refusedThenPublished).map (fun t => (t.fires.length,t.emitted.length)) = some (2,1) := by
    decide +kernel
  obtain ⟨t,hrun,hlen⟩ := Option.map_eq_some_iff.mp hcount
  rw [Prod.mk.injEq] at hlen
  exact ⟨t,hrun,hlen.1,hlen.2,indications_follow_fires taggedPlatform { writer := .gnb } {} gnbWriter
    rfl {} _ rfl _ refusedThenPublished t hrun 1⟩

end SlotPath
end E3Controller
