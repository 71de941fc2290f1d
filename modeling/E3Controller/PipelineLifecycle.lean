import E3Controller.PipelineStop

/-!
# Start and stop cycles of a pipeline

`start` acquires a codelet load, a worker and a registration in this order, with one
early return when the load fails; `stop` gives them back. Between the two calls the
three are held together or not at all, loads and unloads alternate, and the
consumers that were registered once are served by every later session.
-/

namespace E3Controller
namespace Pipeline

open SpscRing SlotApi LabelledRun

variable {β α μ γ : Type}

inductive ErrorCode
  | success | internalError
  deriving DecidableEq, Repr

/-- The result of `start`, if this step is the one that returns from it. -/
def startReturn (s : State β α μ) : Action β α → Option ErrorCode
  | .callStart => if s.running then some .success else none
  | .control ok =>
    match s.control with
    | .startLoad => if ok then none else some .internalError
    | .startRegister => some .success
    | _ => none
  | _ => none

/-- A pipeline with its `consumers_`, the calls of consumers so far and what `start`
returned so far. -/
structure Wired (β α μ γ : Type) where
  pipe : State β α μ
  consumers : List γ := []
  calls : List (γ × QueueEntry β × α) := []
  returns : List ErrorCode := []

inductive Event (β α γ : Type)
  | registerConsumer (c : γ)
  | act (a : Action β α)
  deriving DecidableEq, Repr

def Event.consumer : Event β α γ → Option γ
  | .registerConsumer c => some c
  | .act _ => none

/-- `dispatch_sample` calls every consumer in the order of registration, unless the
sample turns out not to be usable. -/
def fanOut (usable : α → Bool) (consumers : List γ) (d : QueueEntry β × α) :
    List (γ × QueueEntry β × α) :=
  if usable d.2 then consumers.map fun c => (c,d) else []

def dispatchedBy (k : Kind α μ) (s : State β α μ) : Action β α → List (QueueEntry β × α)
  | .worker =>
    match s.worker with
    | .dispatch tail =>
      let entry := s.ring.slots (slotIndex k.logCapacity tail)
      [(entry,s.mem entry.buf)]
    | _ => []
  | _ => []

variable [DecidableEq β]

/-- One step with its effect on consumers and results. Consumers are registered by the
control thread while the pipeline is stopped; anything else is undefined. -/
def wiredStep (k : Kind α μ) (usable : α → Bool) (s : Wired β α μ γ) :
    Event β α γ → Option (Wired β α μ γ)
  | .registerConsumer c =>
    if s.pipe.control = .idle ∧ s.pipe.running = false then
      some { s with consumers := s.consumers ++ [c] }
    else none
  | .act a =>
    match step k s.pipe a with
    | none => none
    | some pipe => some {
        pipe := pipe
        consumers := s.consumers
        calls := s.calls ++ (dispatchedBy k s.pipe a).flatMap (fanOut usable s.consumers)
        returns := s.returns ++ (startReturn s.pipe a).toList }

/-- Load and unload requests as a session with the gNB: a load is only requested while
nothing is loaded, an unload only while something is. -/
def lcmStep : Bool → LcmRequest → Option Bool
  | false, .load ok => some ok
  | true, .unload => some false
  | true, .load _ => none
  | false, .unload => none

/-- Between a load that succeeded and the next load request there is exactly one unload. -/
theorem lcm_paired {requests pre mid post : List LcmRequest} {ok loaded : Bool}
    (hrun : run lcmStep false requests = some loaded)
    (hsplit : requests = pre ++ .load true :: (mid ++ .load ok :: post))
    (hmid : ∀ r ∈ mid, r = .unload) : mid = [.unload] := by
  rw [hsplit] at hrun
  obtain ⟨b,-,hrun⟩ := run_append_eq_some.mp hrun
  obtain ⟨c,hload,hrest⟩ := run_cons_eq_some.mp hrun
  have hc : c = true := by
    cases b <;> cases hload
    rfl
  subst hc
  match mid with
  | [] =>
    obtain ⟨t,ht,-⟩ := run_cons_eq_some.mp hrest
    cases ht
  | [r] => rw [hmid r (by simp)]
  | r :: r' :: mid =>
    -- A second unload finds nothing loaded.
    rw [hmid r (by simp),hmid r' (by simp)] at hrest
    obtain ⟨t,ht,hrest⟩ := run_cons_eq_some.mp hrest
    cases ht
    obtain ⟨t,ht,-⟩ := run_cons_eq_some.mp hrest
    cases ht

/-- `running_`, the registration and the worker while the control thread is inside of
`start` or `stop`. -/
def ControlPc.holds : ControlPc → Option (Bool × Bool × Bool)
  | .idle => none
  | .startLoad | .startLoaded | .startReset | .startRunning => some (false,false,false)
  | .startWorker => some (true,false,false)
  | .startRegister => some (true,false,true)
  | .stopUnregister => some (true,true,true)
  | .stopRunning => some (true,false,true)
  | .stopJoin => some (false,false,true)
  | .stopHead | .stopTail _ | .stopDrain _ _ | .stopStore _ | .stopUnload => some (false,false,false)

def State.present (s : State β α μ) : Bool := s.worker ≠ .absent

omit [DecidableEq β] in
theorem present_iff (s : State β α μ) : s.present = true ↔ s.worker ≠ .absent := by
  simp [State.present]

/-- Whether the gNB holds a load of this pipeline's codelet. Between the reply to the load
request and the assignment of `codelets_loaded_` it does already. -/
def State.loaded (s : State β α μ) : Bool :=
  match s.control with
  | .startLoaded => true
  | _ => s.codeletsLoaded

structure LifecycleInv (s : State β α μ) : Prop where
  idle : s.control = .idle → s.registered = s.running ∧ s.present = s.running ∧
    (s.codeletsLoaded = true → s.running = true)
  busy : ∀ r g w, s.control.holds = some (r,g,w) →
    s.running = r ∧ s.registered = g ∧ s.present = w
  unloaded : s.control = .startLoad → s.codeletsLoaded = false
  requests : run lcmStep false s.hist.requests = some s.loaded

section Steps

variable {k : Kind α μ} {s t : State β α μ} {a : Action β α}

omit [DecidableEq β] in
theorem constructed_lifecycleInv (ring : Ring 64 (QueueEntry β)) (dropped : UInt64)
    (total : UInt32) (mem : β → α) :
    LifecycleInv (State.constructed ring dropped total mem : State β α μ) where
  idle _ := ⟨rfl,rfl,fun h => by cases h⟩
  busy r g w h := by cases h
  unloaded h := by cases h
  requests := rfl

theorem inSession_present (ha : a.inSession = true) (ht : step k s a = some t) :
    t.present = s.present ∧ t.hist.requests = s.hist.requests := by
  cases a with
  | fill b v =>
    cases fill_move ht
    exact ⟨rfl,rfl⟩
  | deliver bufs => cases deliver_move ht <;> exact ⟨rfl,rfl⟩
  | poll ok ts => cases pollStep_move ht <;> exact ⟨rfl,rfl⟩
  | worker => cases workerStep_move ht <;> exact ⟨by simp_all [State.present],rfl⟩
  | callStart => cases ha
  | callStop => cases ha
  | control ok => cases ha

theorem inSession_lifecycleInv (h : LifecycleInv s) (ha : a.inSession = true)
    (ht : step k s a = some t) : LifecycleInv t := by
  obtain ⟨hrun,hctl,hreg,hload,-⟩ := inSession_frame ha ht
  obtain ⟨hpres,hreq⟩ := inSession_present ha ht
  refine ⟨fun hc => ?_,fun r g w hw => ?_,fun hc => ?_,?_⟩
  · rw [hrun,hreg,hpres,hload]
    exact h.idle (hctl ▸ hc)
  · rw [hrun,hreg,hpres]
    exact h.busy r g w (hctl ▸ hw)
  · rw [hload]
    exact h.unloaded (hctl ▸ hc)
  · rw [hreq,h.requests]
    simp only [State.loaded,hctl,hload]

omit [DecidableEq β] in
theorem LifecycleInv.move {r g w : Bool} (h : LifecycleInv s)
    (hholds : t.control.holds = some (r,g,w)) (hr : t.running = r) (hg : t.registered = g)
    (hw : t.present = w) (hlate : t.control ≠ .startLoad)
    (hreq : t.hist.requests = s.hist.requests) (hload : t.loaded = s.loaded) :
    LifecycleInv t where
  idle hc := by
    rw [hc] at hholds
    cases hholds
  busy r' g' w' h' := by
    rw [hholds] at h'
    cases h'
    exact ⟨hr,hg,hw⟩
  unloaded hc := absurd hc hlate
  requests := by
    rw [hreq,hload]
    exact h.requests

omit [DecidableEq β] in
theorem LifecycleInv.rest (hc : t.control = .idle) (hreg : t.registered = t.running)
    (hpres : t.present = t.running) (hload : t.codeletsLoaded = true → t.running = true)
    (hreq : run lcmStep false t.hist.requests = some t.loaded) : LifecycleInv t where
  idle _ := ⟨hreg,hpres,hload⟩
  busy r g w h := by
    rw [hc] at h
    cases h
  unloaded h := by
    rw [hc] at h
    cases h
  requests := hreq

omit [DecidableEq β] in
theorem callStart_lifecycleInv (h : LifecycleInv s) (ht : callStart k s = some t) :
    LifecycleInv t := by
  have hreq := h.requests
  -- A stopped pipeline at rest has nothing registered, present or loaded.
  have hrest : s.control = .idle → ¬ s.running = true → s.codeletsLoaded = false ∧
      ∀ r g w, some (false,false,false) = some (r,g,w) →
        s.running = r ∧ s.registered = g ∧ s.present = w := by
    intro hc hrun
    obtain ⟨hreg,hpres,hload⟩ := h.idle hc
    refine ⟨?_,fun r g w hw => ?_⟩
    · rw [← Bool.not_eq_true]
      exact fun hl => hrun (hload hl)
    · rw [Bool.not_eq_true] at hrun
      cases hw
      exact ⟨hrun,hreg.trans hrun,hpres.trans hrun⟩
  cases callStart_move ht with
  | already => exact h
  | load pc hstopped hauto =>
    obtain ⟨hnot,hholds⟩ := hrest pc hstopped
    simp only [State.loaded,pc] at hreq
    exact ⟨by simp,hholds,fun _ => hnot,hreq⟩
  | reset pc hstopped hauto =>
    obtain ⟨hnot,hholds⟩ := hrest pc hstopped
    simp only [State.loaded,pc] at hreq
    exact ⟨by simp,hholds,by simp,hreq⟩

omit [DecidableEq β] in
theorem callStop_lifecycleInv (h : LifecycleInv s) (ht : callStop s = some t) :
    LifecycleInv t := by
  cases callStop_move ht with
  | stop pc hrun =>
    obtain ⟨hreg,hpres,-⟩ := h.idle pc
    exact h.move rfl hrun (hreg.trans hrun) (hpres.trans hrun) (by simp) rfl
      (by simp [State.loaded,pc])
  | already => exact h

theorem request_allowed {loaded : Bool} {requests : List LcmRequest} {r : LcmRequest} {after : Bool}
    (h : run lcmStep false requests = some loaded) (hr : lcmStep loaded r = some after) :
    run lcmStep false (requests ++ [r]) = some after :=
  run_append_eq_some.mpr ⟨loaded,h,run_cons_eq_some.mpr ⟨after,hr,rfl⟩⟩

theorem startLoad_lifecycleInv {ok : Bool} (h : LifecycleInv s) (hc : s.control = .startLoad)
    (ht : controlStep k s ok = some t) : LifecycleInv t := by
  obtain ⟨hrun,hreg,hpres⟩ := h.busy _ _ _ (congrArg ControlPc.holds hc)
  have hnot := h.unloaded hc
  have hreq := h.requests
  simp only [State.loaded,hc,hnot] at hreq
  simp only [controlStep,hc] at ht
  split at ht
  · cases ht
    refine ⟨by simp,fun r g w hw => ?_,by simp,request_allowed hreq rfl⟩
    cases hw
    exact ⟨hrun,hreg,hpres⟩
  · cases ht
    refine .rest rfl (hreg.trans hrun.symm) (hpres.trans hrun.symm) (fun hl => ?_) ?_
    · exact absurd (hnot.symm.trans hl) Bool.false_ne_true
    · exact (request_allowed hreq rfl).trans (congrArg some hnot.symm)

theorem stopUnload_lifecycleInv {ok : Bool} (h : LifecycleInv s) (hc : s.control = .stopUnload)
    (ht : controlStep k s ok = some t) : LifecycleInv t := by
  obtain ⟨hrun,hreg,hpres⟩ := h.busy _ _ _ (congrArg ControlPc.holds hc)
  have hreq := h.requests
  simp only [State.loaded,hc] at hreq
  simp only [controlStep,hc] at ht
  split at ht
  next hload =>
    cases ht
    rw [hload] at hreq
    exact .rest rfl (hreg.trans hrun.symm) (hpres.trans hrun.symm) (fun hl => by cases hl)
      (request_allowed hreq rfl)
  next hload =>
    cases ht
    exact .rest rfl (hreg.trans hrun.symm) (hpres.trans hrun.symm) (fun hl => absurd hl hload) hreq

theorem controlStep_lifecycleInv {ok : Bool} (h : LifecycleInv s)
    (ht : controlStep k s ok = some t) : LifecycleInv t := by
  cases controlStep_move ht with
  | load pc | loadFailed pc => exact startLoad_lifecycleInv h pc ht
  | loaded pc | reset pc =>
    obtain ⟨hrun,hreg,hpres⟩ := h.busy _ _ _ (congrArg ControlPc.holds pc)
    exact h.move rfl hrun hreg hpres (by simp) rfl (by simp [State.loaded,pc])
  | run pc | halt pc =>
    obtain ⟨hrun,hreg,hpres⟩ := h.busy _ _ _ (congrArg ControlPc.holds pc)
    exact h.move rfl rfl hreg hpres (by simp) rfl (by simp [State.loaded,pc])
  | spawn pc | join pc =>
    obtain ⟨hrun,hreg,hpres⟩ := h.busy _ _ _ (congrArg ControlPc.holds pc)
    exact h.move rfl hrun hreg rfl (by simp) rfl (by simp [State.loaded,pc])
  | register pc =>
    obtain ⟨hrun,hreg,hpres⟩ := h.busy _ _ _ (congrArg ControlPc.holds pc)
    have hreq := h.requests
    simp only [State.loaded,pc] at hreq
    exact .rest rfl hrun.symm (hpres.trans hrun.symm) (fun _ => hrun) hreq
  | unregister pc =>
    obtain ⟨hrun,hreg,hpres⟩ := h.busy _ _ _ (congrArg ControlPc.holds pc)
    exact h.move rfl hrun rfl hpres (by simp) rfl (by simp [State.loaded,pc])
  | loadHead pc | loadTail pc | drained pc | drain pc | storeTail pc =>
    obtain ⟨hrun,hreg,hpres⟩ := h.busy _ _ _ (congrArg ControlPc.holds pc)
    exact h.move rfl hrun hreg hpres (by simp) rfl (by simp [State.loaded,pc])
  | unload pc | keepUnloaded pc => exact stopUnload_lifecycleInv h pc ht

theorem step_lifecycleInv (h : LifecycleInv s) (ht : step k s a = some t) : LifecycleInv t := by
  cases a with
  | fill b v => exact inSession_lifecycleInv h rfl ht
  | deliver bufs => exact inSession_lifecycleInv h rfl ht
  | poll ok ts => exact inSession_lifecycleInv h rfl ht
  | worker => exact inSession_lifecycleInv h rfl ht
  | callStart => exact callStart_lifecycleInv h ht
  | callStop => exact callStop_lifecycleInv h ht
  | control ok => exact controlStep_lifecycleInv h ht

end Steps

def State.at (s : State β α μ) (c : ControlPc) : State β α μ := { s with control := c }

section FailedStart

variable {k : Kind α μ} {s t : State β α μ} {a : Action β α}

theorem inSession_at (ha : a.inSession = true) (c : ControlPc) :
    step k (s.at c) a = (step k s a).map fun t => t.at c := by
  cases a with
  | fill b v =>
    by_cases hb : b ∈ s.hist.owned <;> simp [step,fill,State.at,hb]
  | deliver bufs =>
    have hpoll : (s.at c).poll = s.poll := rfl
    simp only [step,deliver,hpoll]
    cases s.poll with
    | idle =>
      by_cases hb : bufs ≠ [] ∧ bufs.Nodup ∧ ∀ b ∈ bufs, b ∉ s.hist.owned
      · have hb' : bufs ≠ [] ∧ bufs.Nodup ∧ ∀ b ∈ bufs, b ∉ (s.at c).hist.owned := hb
        have hreg : (s.at c).registered = s.registered := rfl
        simp only [if_pos hb,if_pos hb',hreg]
        by_cases hr : s.registered
        · rw [if_pos hr,if_pos hr]
          rfl
        · rw [if_neg hr,if_neg hr]
          rfl
      · have hb' : ¬ (bufs ≠ [] ∧ bufs.Nodup ∧ ∀ b ∈ bufs, b ∉ (s.at c).hist.owned) := hb
        simp only [if_neg hb,if_neg hb',Option.map_none]
    | _ => rfl
  | poll ok ts =>
    simp only [step,pollStep,State.at]
    cases s.poll with
    | handler bufs => by_cases hs : s.configSent || k.configMessages.isEmpty <;> simp [hs]
    | sendConfig ms bufs =>
      cases ms with
      | nil => rfl
      | cons m ms => cases ok <;> rfl
    | loop ts bufs =>
      cases bufs with
      | nil => rfl
      | cons b bufs => by_cases hk : k.keep (s.mem b) <;> simp [hk]
    | haveTail ts b bufs head tail =>
      by_cases hfull : head - tail ≥ BitVec.ofNat 64 (2 ^ k.logCapacity)
      · simp only [if_pos hfull]
        rfl
      · simp only [if_neg hfull]
        rfl
    | _ => rfl
  | worker =>
    simp only [step,workerStep,State.at]
    cases s.worker with
    | loopTop => by_cases hr : s.running <;> simp [hr]
    | loadHead tail => by_cases he : s.ring.head = tail <;> simp [he]
    | _ => rfl
  | callStart => cases ha
  | callStop => cases ha
  | control ok => cases ha

/-- Without a registration and without a batch in hand, nothing moves the queue of a
pipeline that has no worker. -/
theorem inSession_ring (ha : a.inSession = true) (ht : step k s a = some t)
    (hreg : s.registered = false) (hpoll : s.poll = .idle) (hw : s.worker = .absent) :
    t.ring = s.ring ∧ t.poll = .idle ∧ t.worker = .absent := by
  cases a with
  | fill b v =>
    cases fill_move ht
    exact ⟨rfl,hpoll,hw⟩
  | deliver bufs =>
    cases deliver_move ht with
    | hand _ _ hregistered =>
      rw [hreg] at hregistered
      cases hregistered
    | unclaimed => exact ⟨rfl,hpoll,hw⟩
  | poll ok ts =>
    simp only [step,pollStep,hpoll] at ht
    cases ht
  | worker =>
    simp only [step,workerStep,hw] at ht
    cases ht
  | callStart => cases ha
  | callStop => cases ha
  | control ok => cases ha

end FailedStart

section Wired

variable {k : Kind α μ} {usable : α → Bool} {s t : Wired β α μ γ}

def Wired.at (s : Wired β α μ γ) (c : ControlPc) : Wired β α μ γ := { s with pipe := s.pipe.at c }

def Event.inSession : Event β α γ → Bool
  | .registerConsumer _ => false
  | .act a => a.inSession

theorem wiredStep_act {a : Action β α} (ht : wiredStep k usable s (.act a) = some t) :
    ∃ pipe, step k s.pipe a = some pipe ∧ t = {
      pipe := pipe
      consumers := s.consumers
      calls := s.calls ++ (dispatchedBy k s.pipe a).flatMap (fanOut usable s.consumers)
      returns := s.returns ++ (startReturn s.pipe a).toList } := by
  simp only [wiredStep] at ht
  split at ht
  · cases ht
  next pipe hstep => exact ⟨pipe,hstep,(Option.some.inj ht).symm⟩

theorem wiredStep_at (c : ControlPc) (s : Wired β α μ γ) (e : Event β α γ)
    (he : e.inSession = true) :
    wiredStep k usable (s.at c) e = (wiredStep k usable s e).map fun t => t.at c := by
  cases e with
  | registerConsumer x => cases he
  | act a =>
    have hstep := inSession_at (k := k) (s := s.pipe) he c
    have hdisp : dispatchedBy k (s.pipe.at c) a = dispatchedBy k s.pipe a := by cases a <;> rfl
    have hret : startReturn (s.pipe.at c) a = startReturn s.pipe a := by cases a <;> first | rfl | cases he
    simp only [wiredStep,Wired.at,hstep,hdisp,hret]
    cases step k s.pipe a <;> rfl

/-- What is left of the state when `start` fails at the load: what the other threads
did meanwhile, one more request in the log, and the error. -/
structure FailedStart (k : Kind α μ) (usable : α → Bool) (others : List (Event β α γ))
    (s u : Wired β α μ γ) : Prop where
  only : ∃ v, run (wiredStep k usable) s others = some v ∧ u = { v with
    pipe := { v.pipe with hist := { v.pipe.hist with
      requests := v.pipe.hist.requests ++ [.load false] } }
    returns := v.returns ++ [.internalError] }
  running : u.pipe.running = s.pipe.running
  registered : u.pipe.registered = s.pipe.registered
  worker : u.pipe.worker = s.pipe.worker
  codeletsLoaded : u.pipe.codeletsLoaded = s.pipe.codeletsLoaded
  ring : s.pipe.poll = .idle → u.pipe.ring = s.pipe.ring

structure StillStopped (s v : Wired β α μ γ) : Prop where
  control : v.pipe.control = .idle
  running : v.pipe.running = s.pipe.running
  registered : v.pipe.registered = false
  worker : v.pipe.worker = .absent
  codeletsLoaded : v.pipe.codeletsLoaded = s.pipe.codeletsLoaded
  ring : s.pipe.poll = .idle → v.pipe.poll = .idle ∧ v.pipe.ring = s.pipe.ring

theorem inSession_absent {s t : State β α μ} {a : Action β α} (ha : a.inSession = true)
    (ht : step k s a = some t) (hw : s.worker = .absent) : t.worker = .absent := by
  have hpres := (inSession_present ha ht).1
  simpa [State.present,hw] using hpres

theorem inSession_stillStopped {s₀ : Wired β α μ γ} {e : Event β α γ} (he : e.inSession = true)
    (h : StillStopped s₀ s) (ht : wiredStep k usable s e = some t) : StillStopped s₀ t := by
  cases e with
  | registerConsumer c => cases he
  | act a =>
    obtain ⟨pipe,hstep,rfl⟩ := wiredStep_act ht
    obtain ⟨hrun,hctl,hreg,hload,-⟩ := inSession_frame he hstep
    refine ⟨hctl.trans h.control,hrun.trans h.running,hreg.trans h.registered,
      inSession_absent he hstep h.worker,hload.trans h.codeletsLoaded,fun hpoll => ?_⟩
    obtain ⟨hidle,hring⟩ := h.ring hpoll
    obtain ⟨hring',hidle',-⟩ := inSession_ring he hstep h.registered hidle h.worker
    exact ⟨hidle',hring'.trans hring⟩

theorem failedStart_of_run {others : List (Event β α γ)} {u : Wired β α μ γ}
    (h : LifecycleInv s.pipe) (hc : s.pipe.control = .idle) (hrun : s.pipe.running = false)
    (hauto : k.autoLoad = true) (hothers : ∀ e ∈ others, e.inSession = true)
    (hu : run (wiredStep k usable) s (.act .callStart :: (others ++ [.act (.control false)])) = some u) :
    FailedStart k usable others s u := by
  obtain ⟨hreg,hpres,-⟩ := h.idle hc
  have hw : s.pipe.worker = .absent := by
    have hfalse := hpres.trans hrun
    simpa [State.present] using hfalse
  obtain ⟨s₁,hcall,hu⟩ := run_cons_eq_some.mp hu
  have hs₁ : s₁ = s.at .startLoad := by
    simp only [wiredStep,step,callStart,hc,hrun,hauto,startReturn,dispatchedBy] at hcall
    simpa [Wired.at,State.at,hrun] using hcall.symm
  subst hs₁
  obtain ⟨v₁,hv₁,hu⟩ := run_append_eq_some.mp hu
  rw [run_map (wiredStep_at .startLoad) hothers] at hv₁
  obtain ⟨v,hv,rfl⟩ := Option.map_eq_some_iff.mp hv₁
  have hstill : StillStopped s v := by
    refine run_invariant (C := fun _ e => e.inSession = true)
      (fun _ _ _ he hi ht => inSession_stillStopped he hi ht) ?_ (along_of_forall hothers) hv
    exact ⟨hc,rfl,hreg.trans hrun,hw,rfl,fun hp => ⟨hp,rfl⟩⟩
  obtain ⟨u',hlast,hu⟩ := run_cons_eq_some.mp hu
  have hu' : u' = { v with
      pipe := { v.pipe with hist := { v.pipe.hist with
        requests := v.pipe.hist.requests ++ [.load false] } }
      returns := v.returns ++ [.internalError] } := by
    simp only [wiredStep,step,controlStep,Wired.at,State.at,startReturn,dispatchedBy] at hlast
    simpa [← hstill.control] using hlast.symm
  have huu : u' = u := by simpa using hu
  subst huu
  subst hu'
  exact ⟨⟨v,hv,rfl⟩,hstill.running,hstill.registered.trans (hreg.trans hrun).symm,
    hstill.worker.trans hw.symm,hstill.codeletsLoaded,fun hp => (hstill.ring hp).2⟩

theorem step_dispatched {s t : State β α μ} {a : Action β α} (ht : step k s a = some t) :
    (t.hist.dispatched = s.hist.dispatched ++ dispatchedBy k s a ∧
      (t.worker ≠ .absent → s.worker ≠ .absent)) ∨
    (t.hist.dispatched = [] ∧ dispatchedBy k s a = []) := by
  cases a with
  | fill b v =>
    cases fill_move ht
    exact .inl ⟨by simp [dispatchedBy],id⟩
  | deliver bufs => cases deliver_move ht <;> exact .inl ⟨by simp [dispatchedBy],id⟩
  | poll ok ts => cases pollStep_move ht <;> exact .inl ⟨by simp [dispatchedBy],id⟩
  | worker =>
    cases workerStep_move ht with
    | dispatch pc hread => exact .inl ⟨by simp [dispatchedBy,pc,hread],fun _ => by simp [pc]⟩
    | enter pc | leave pc | loadTail pc | empty pc | found pc | release pc | storeTail pc =>
      exact .inl ⟨by simp [dispatchedBy,pc],fun _ => by simp [pc]⟩
  | callStart => cases callStart_move ht <;> exact .inl ⟨by simp [dispatchedBy],id⟩
  | callStop => cases callStop_move ht <;> exact .inl ⟨by simp [dispatchedBy],id⟩
  | control ok =>
    cases controlStep_move ht with
    | spawn => exact .inr ⟨rfl,rfl⟩
    | join => exact .inl ⟨by simp [dispatchedBy],fun h => absurd rfl h⟩
    | _ => exact .inl ⟨by simp [dispatchedBy],id⟩

theorem wiredStep_lifecycleInv {e : Event β α γ} (h : LifecycleInv s.pipe)
    (ht : wiredStep k usable s e = some t) : LifecycleInv t.pipe := by
  cases e with
  | registerConsumer c =>
    simp only [wiredStep] at ht
    split at ht <;> cases ht
    exact h
  | act a =>
    obtain ⟨pipe,hstep,rfl⟩ := wiredStep_act ht
    exact step_lifecycleInv h hstep

/-- While there is a worker, every sample of its session went to every consumer. -/
def Served (usable : α → Bool) (s : Wired β α μ γ) : Prop :=
  s.pipe.worker ≠ .absent →
    ∃ before, s.calls = before ++ s.pipe.hist.dispatched.flatMap (fanOut usable s.consumers)

theorem wiredStep_served {e : Event β α γ} (h : LifecycleInv s.pipe) (hs : Served usable s)
    (ht : wiredStep k usable s e = some t) : Served usable t := by
  cases e with
  | registerConsumer c =>
    simp only [wiredStep] at ht
    split at ht <;> cases ht
    next hidle =>
      intro hw
      have hpres := ((h.idle hidle.1).2.1).trans hidle.2
      exact absurd ((present_iff s.pipe).mpr hw) (by simp [hpres])
  | act a =>
    obtain ⟨pipe,hstep,rfl⟩ := wiredStep_act ht
    intro hw
    rcases step_dispatched hstep with ⟨hdisp,hkeep⟩ | ⟨hnil,hnone⟩
    · obtain ⟨before,hcalls⟩ := hs (hkeep hw)
      refine ⟨before,?_⟩
      simp only [hcalls,hdisp,List.flatMap_append,List.append_assoc]
    · refine ⟨s.calls,?_⟩
      simp only [hnil,hnone,List.flatMap_nil]

theorem run_consumers {events : List (Event β α γ)}
    (hrun : run (wiredStep k usable) s events = some t) :
    t.consumers = s.consumers ++ events.filterMap Event.consumer := by
  induction events generalizing s with
  | nil =>
    have hst : s = t := by simpa using hrun
    simp [hst]
  | cons e events ih =>
    obtain ⟨u,hu,hrest⟩ := run_cons_eq_some.mp hrun
    rw [ih hrest]
    cases e with
    | registerConsumer c =>
      simp only [wiredStep] at hu
      split at hu <;> cases hu
      simp [Event.consumer]
    | act a =>
      obtain ⟨pipe,-,rfl⟩ := wiredStep_act hu
      rw [List.filterMap_cons_none rfl]

/-- What holds of a pipeline after any sequence of calls, whatever its threads do. -/
structure LifecycleSafe (k : Kind α μ) (usable : α → Bool) (registered : List γ)
    (s : Wired β α μ γ) : Prop where
  settled : s.pipe.control = .idle → (s.pipe.running = true ↔ s.pipe.registered = true) ∧
    (s.pipe.running = true ↔ s.pipe.worker ≠ .absent) ∧
    (s.pipe.codeletsLoaded = true → s.pipe.running = true)
  paired : ∀ pre mid post ok,
    s.pipe.hist.requests = pre ++ .load true :: (mid ++ .load ok :: post) →
    (∀ r ∈ mid, r = .unload) → mid = [.unload]
  startRunning : s.pipe.control = .idle → s.pipe.running = true →
    wiredStep k usable s (.act .callStart) = some { s with returns := s.returns ++ [.success] }
  stopStopped : s.pipe.control = .idle → s.pipe.running = false →
    wiredStep k usable s (.act .callStop) = some s
  failedStart : s.pipe.control = .idle → s.pipe.running = false → k.autoLoad = true →
    ∀ (others : List (Event β α γ)) (u : Wired β α μ γ), (∀ e ∈ others, e.inSession = true) →
    run (wiredStep k usable) s (.act .callStart :: (others ++ [.act (.control false)])) = some u →
    FailedStart k usable others s u
  consumers : s.consumers = registered
  served : Served usable s

def LifecycleCorrect (k : Kind α μ) (usable : α → Bool) : Prop :=
  ∀ (β γ : Type) [DecidableEq β] (ring : Ring 64 (QueueEntry β)) (dropped : UInt64) (total : UInt32)
    (mem : β → α) (events : List (Event β α γ)) (s : Wired β α μ γ),
    run (wiredStep k usable) ⟨State.constructed ring dropped total mem,[],[],[]⟩ events = some s →
    LifecycleSafe k usable (events.filterMap Event.consumer) s

theorem lifecycleSafe_of_inv {registered : List γ} (h : LifecycleInv s.pipe)
    (hs : Served usable s) (hreg : s.consumers = registered) :
    LifecycleSafe k usable registered s where
  settled hc := by
    obtain ⟨hreg,hpres,hload⟩ := h.idle hc
    rw [← present_iff,hreg,hpres]
    exact ⟨Iff.rfl,Iff.rfl,hload⟩
  paired pre mid post ok hsplit hmid := lcm_paired h.requests hsplit hmid
  startRunning hc hrun := by
    simp [wiredStep,step,callStart,hc,hrun,startReturn,dispatchedBy]
  stopStopped hc hrun := by
    simp [wiredStep,step,callStop,hc,hrun,startReturn,dispatchedBy]
  failedStart hc hrun hauto others u hothers hu :=
    failedStart_of_run h hc hrun hauto hothers hu
  consumers := hreg
  served := hs

theorem lifecycleCorrect (k : Kind α μ) (usable : α → Bool) : LifecycleCorrect k usable := by
  intro β γ _ ring dropped total mem events s hrun
  obtain ⟨hinv,hserved⟩ := run_invariant_of_step
    (I := fun s : Wired β α μ γ => LifecycleInv s.pipe ∧ Served usable s)
    (fun s e t h ht => ⟨wiredStep_lifecycleInv h.1 ht,wiredStep_served h.1 h.2 ht⟩)
    ⟨constructed_lifecycleInv ring dropped total mem,fun hw => absurd rfl hw⟩ hrun
  exact lifecycleSafe_of_inv hinv hserved (run_consumers hrun)

end Wired

/-- Both pipelines go through any number of start and stop cycles as promised; whether a
section of the older pipeline decompresses is left open. -/
theorem both_pipelines_lifecycle (config : SlotPipelineConfig) (config' : IqPipelineConfig)
    (usable : IqSampleData → Bool) :
    LifecycleCorrect (slotIqPipeline config) (fun _ => true) ∧
      LifecycleCorrect (iqPipeline config') usable :=
  ⟨lifecycleCorrect _ _,lifecycleCorrect _ _⟩

/-- One consumer; a start whose load fails, a full session, and a second start. -/
def cycleRun : List (Action ℕ E3SlotDesc) :=
  [.callStart,.control false] ++ orderlyRun ++ .control true :: startRun

def cycleEvents : List (Event ℕ E3SlotDesc ℕ) := .registerConsumer 7 :: cycleRun.map .act

theorem cycleRun_seen :
    (run (wiredStep (slotIqPipeline autoLoadConfig) fun _ => true) ⟨constructedSlot,[],[],[]⟩
        cycleEvents).map (fun s => (s.pipe.control,s.pipe.running,s.returns,s.pipe.hist.requests,
          s.calls.map Prod.fst)) =
      some (.idle,true,[.internalError,.success,.success],
        [.load false,.load true,.unload,.load true],[7]) := by
  rfl

theorem both_pipelines_lifecycle_reload :
    ∃ s, run (wiredStep (slotIqPipeline autoLoadConfig) fun _ => true) ⟨constructedSlot,[],[],[]⟩
        cycleEvents = some s ∧ s.pipe.control = .idle ∧ s.pipe.running = true ∧
      s.returns = [.internalError,.success,.success] ∧
      s.pipe.hist.requests = [.load false,.load true,.unload,.load true] ∧
      s.calls.map Prod.fst = [7] ∧
      LifecycleSafe (slotIqPipeline autoLoadConfig) (fun _ => true) [7] s := by
  obtain ⟨s,hrun,hseen⟩ := Option.map_eq_some_iff.mp cycleRun_seen
  simp only [Prod.mk.injEq] at hseen
  obtain ⟨hcontrol,hrunning,hreturns,hrequests,hcalls⟩ := hseen
  refine ⟨s,hrun,hcontrol,hrunning,hreturns,hrequests,hcalls,?_⟩
  exact (both_pipelines_lifecycle autoLoadConfig {} fun _ => true).1 ℕ ℕ emptyRing 0 0 (fun _ => {})
    cycleEvents s hrun

end Pipeline
end E3Controller
