import E3Controller.ControllerShutdown
import E3Controller.SpectrumPath

/-!
# Service models and the pipelines they start

Each service model has its own `running_`, which it sets after the `start` of its pipeline has
returned and clears before it calls `stop`. A `start` that finds it set does nothing, so a
service model that is wrong about its pipeline could not be started again.
-/

namespace E3Controller
namespace ServiceModel

open LabelledRun SlotApi Pipeline
open SlotPath (SmPc)
open Controller (Stopping stopping_step)

section Managed

variable {β α μ : Type}

structure Managed (β α μ : Type) where
  running : Bool
  smControl : SmPc
  pipe : Pipeline.State β α μ

/-- Steps of the pipeline's own threads, and `start`, `stop` and their return. -/
inductive Act (β α : Type)
  | pipe (a : Action β α)
  | start
  | stop
  | returned

def callsPipeline : Action β α → Bool
  | .callStart => true
  | .callStop => true
  | _ => false

variable [DecidableEq β] (k : Kind α μ)

def managedStep (s : Managed β α μ) : Act β α → Option (Managed β α μ)
  | .pipe a =>
    if callsPipeline a then none
    else (Pipeline.step k s.pipe a).map fun pipe => { s with pipe := pipe }
  | .start =>
    if s.smControl ≠ .idle then none
    else if s.running then some s
    else (Pipeline.step k s.pipe .callStart).map fun pipe => { s with
      pipe := pipe
      smControl := .starting }
  | .stop =>
    if s.smControl ≠ .idle then none
    else if !s.running then some s
    else (Pipeline.step k s.pipe .callStop).map fun pipe => {
      running := false
      smControl := .stopping
      pipe := pipe }
  | .returned =>
    if s.pipe.control ≠ .idle then none
    else
      match s.smControl with
      | .idle => none
      | .starting => some { s with running := s.pipe.running, smControl := .idle }
      | .stopping => some { s with smControl := .idle }

section Moves

variable {k} {s : Managed β α μ} {pipe : Pipeline.State β α μ}

theorem move_pipe {a : Action β α} (ha : callsPipeline a = false)
    (ht : Pipeline.step k s.pipe a = some pipe) :
    managedStep k s (.pipe a) = some { s with pipe := pipe } := by
  simp [managedStep,ha,ht]

theorem move_start_again (hidle : s.smControl = .idle) (hrunning : s.running = true) :
    managedStep k s .start = some s := by
  rw [managedStep,if_neg (not_not.mpr hidle),if_pos hrunning]

theorem move_start (hidle : s.smControl = .idle) (hrunning : s.running = false)
    (ht : Pipeline.step k s.pipe .callStart = some pipe) :
    managedStep k s .start = some { s with pipe := pipe, smControl := .starting } := by
  rw [managedStep,if_neg (not_not.mpr hidle),if_neg (Bool.eq_false_iff.mp hrunning),ht,
    Option.map_some]

theorem move_stop_again (hidle : s.smControl = .idle) (hrunning : s.running = false) :
    managedStep k s .stop = some s := by
  rw [managedStep,if_neg (not_not.mpr hidle),if_pos (by rw [hrunning]; rfl)]

theorem move_stop (hidle : s.smControl = .idle) (hrunning : s.running = true)
    (ht : Pipeline.step k s.pipe .callStop = some pipe) :
    managedStep k s .stop = some ⟨false,.stopping,pipe⟩ := by
  rw [managedStep,if_neg (not_not.mpr hidle),if_neg (by simp [hrunning]),ht,Option.map_some]

theorem move_started (hcontrol : s.pipe.control = .idle) (hsm : s.smControl = .starting) :
    managedStep k s .returned = some { s with running := s.pipe.running, smControl := .idle } := by
  rw [managedStep,if_neg (not_not.mpr hcontrol),hsm]

theorem move_stopped (hcontrol : s.pipe.control = .idle) (hsm : s.smControl = .stopping) :
    managedStep k s .returned = some { s with smControl := .idle } := by
  rw [managedStep,if_neg (not_not.mpr hcontrol),hsm]

end Moves

/-- The service model is right about its pipeline whenever it is not inside of a call. -/
structure Agreed (s : Managed β α μ) : Prop where
  lifecycle : LifecycleInv s.pipe
  idle : s.smControl = .idle → s.pipe.control = .idle ∧ s.running = s.pipe.running
  starting : s.smControl = .starting → s.running = false
  stopping : s.smControl = .stopping → s.running = false ∧ Stopping s.pipe

variable {k} {s t : Managed β α μ}

theorem pipe_at_rest {a : Action β α} {pipe : Pipeline.State β α μ} (ha : callsPipeline a = false)
    (hs : s.pipe.control = .idle) (ht : Pipeline.step k s.pipe a = some pipe) :
    pipe.control = .idle ∧ pipe.running = s.pipe.running := by
  have hothers : a.inSession = true → pipe.control = .idle ∧ pipe.running = s.pipe.running := by
    intro hsession
    obtain ⟨hr,hc,-⟩ := inSession_frame hsession ht
    exact ⟨hc.trans hs,hr⟩
  cases a with
  | callStart => cases ha
  | callStop => cases ha
  | control ok => simp [Pipeline.step,controlStep,hs] at ht
  | _ => exact hothers rfl

theorem agreed_pipe {a : Action β α} {pipe : Pipeline.State β α μ} (h : Agreed s)
    (ha : callsPipeline a = false) (ht : Pipeline.step k s.pipe a = some pipe) :
    Agreed { s with pipe := pipe } where
  lifecycle := step_lifecycleInv h.lifecycle ht
  idle hidle := by
    obtain ⟨hcontrol,hrunning⟩ := h.idle hidle
    obtain ⟨hcontrol',hrunning'⟩ := pipe_at_rest ha hcontrol ht
    exact ⟨hcontrol',hrunning.trans hrunning'.symm⟩
  starting := h.starting
  stopping hstopping := by
    refine ⟨(h.stopping hstopping).1,stopping_step ?_ h.lifecycle (h.stopping hstopping).2 ht⟩
    rintro rfl
    cases ha

theorem agreed_stop {pipe : Pipeline.State β α μ} (h : Agreed s) (hidle : s.smControl = .idle)
    (hrunning : s.running = true) (ht : Pipeline.step k s.pipe .callStop = some pipe) :
    Agreed { running := false, smControl := .stopping, pipe := pipe } where
  lifecycle := step_lifecycleInv h.lifecycle ht
  idle hc := by cases hc
  starting _ := rfl
  stopping _ := by
    refine ⟨rfl,?_⟩
    have hup : s.pipe.running = true := (h.idle hidle).2.symm.trans hrunning
    cases callStop_move ht with
    | stop => trivial
    | already _ hstopped => exact absurd hup hstopped

theorem agreed_returned (h : Agreed s) (hcontrol : s.pipe.control = .idle)
    (ht : managedStep k s .returned = some t) : Agreed t := by
  simp only [managedStep,hcontrol,ne_eq,not_true_eq_false,if_false] at ht
  split at ht
  · cases ht
  next hstarting =>
    cases ht
    exact ⟨h.lifecycle,fun _ => ⟨hcontrol,rfl⟩,nofun,nofun⟩
  next hstopping =>
    cases ht
    obtain ⟨hrunning,hpipe⟩ := h.stopping hstopping
    have hstopped : s.pipe.running = false := by
      unfold Stopping at hpipe
      rwa [hcontrol] at hpipe
    exact ⟨h.lifecycle,fun _ => ⟨hcontrol,hrunning.trans hstopped.symm⟩,nofun,nofun⟩

theorem agreed_step {a : Act β α} (h : Agreed s) (ht : managedStep k s a = some t) : Agreed t := by
  cases a with
  | pipe a =>
    simp only [managedStep] at ht
    split at ht
    · cases ht
    next ha =>
      obtain ⟨pipe,hstep,rfl⟩ := Option.map_eq_some_iff.mp ht
      exact agreed_pipe h (by simpa using ha) hstep
  | start =>
    simp only [managedStep] at ht
    split at ht
    · cases ht
    split at ht
    · cases ht
      exact h
    next hrunning =>
      obtain ⟨pipe,hstep,rfl⟩ := Option.map_eq_some_iff.mp ht
      exact ⟨step_lifecycleInv h.lifecycle hstep,nofun,fun _ => by simpa using hrunning,nofun⟩
  | stop =>
    simp only [managedStep] at ht
    split at ht
    · cases ht
    next hidle =>
      split at ht
      · cases ht
        exact h
      next hrunning =>
        obtain ⟨pipe,hstep,rfl⟩ := Option.map_eq_some_iff.mp ht
        exact agreed_stop h (not_not.mp hidle) (by simpa using hrunning) hstep
  | returned =>
    by_cases hcontrol : s.pipe.control = .idle
    · exact agreed_returned h hcontrol ht
    · simp [managedStep,hcontrol] at ht

def AtRest (s : Managed β α μ) : Prop := s.smControl = .idle ∧ s.running = false

theorem atRest_step {a : Act β α} (hs : AtRest s) (ha : a ≠ .start)
    (ht : managedStep k s a = some t) : AtRest t := by
  obtain ⟨hidle,hstopped⟩ := hs
  cases a with
  | pipe a =>
    simp only [managedStep] at ht
    split at ht
    · cases ht
    · obtain ⟨pipe,-,rfl⟩ := Option.map_eq_some_iff.mp ht
      exact ⟨hidle,hstopped⟩
  | start => exact absurd rfl ha
  | stop =>
    simp only [managedStep,hidle,hstopped,ne_eq,not_true_eq_false,if_false,Bool.not_false,if_true] at ht
    cases ht
    exact ⟨hidle,hstopped⟩
  | returned => simp [managedStep,hidle] at ht

omit [DecidableEq β] in
theorem Agreed.absent (h : Agreed s) (hs : AtRest s) : s.pipe.present = false := by
  obtain ⟨hcontrol,hrunning⟩ := h.idle hs.1
  rw [(h.lifecycle.idle hcontrol).2.1,← hrunning]
  exact hs.2

end Managed

section Follows

variable {S A ε β α μ : Type} [DecidableEq β]

/-- A system with a service model in it: each step is one of its pipeline's, or no step of it at
all, only `start` calls `start`, and nothing is emitted without a worker. -/
structure Follows (k : Kind α μ) (view : S → Managed β α μ) (start : A) (emitted : S → List ε)
    (step : S → A → Option S) : Prop where
  moves : ∀ s a t, step s a = some t → view t = view s ∨
    ∃ m, (m = .start → a = start) ∧ managedStep k (view s) m = some (view t)
  emits : ∀ s a t, step s a = some t → emitted t = emitted s ∨ (view s).pipe.present = true

variable {k : Kind α μ} {view : S → Managed β α μ} {start : A} {emitted : S → List ε}
  {step : S → A → Option S} {s t : S}

theorem Follows.agreed (h : Follows k view start emitted step) {a : A} (hs : Agreed (view s))
    (ht : step s a = some t) : Agreed (view t) := by
  rcases h.moves s a t ht with hsame | ⟨m,-,hm⟩
  · rwa [hsame]
  · exact agreed_step hs hm

theorem Follows.atRest (h : Follows k view start emitted step) {a : A} (hs : AtRest (view s))
    (ha : a ≠ start) (ht : step s a = some t) : AtRest (view t) := by
  rcases h.moves s a t ht with hsame | ⟨m,hm,hstep⟩
  · rwa [hsame]
  · exact atRest_step hs (fun hstart => ha (hm hstart)) hstep

theorem Follows.quiet (h : Follows k view start emitted step) (hs : Agreed (view s))
    (hrest : AtRest (view s)) {bs : List A} {v : S} (hbs : ∀ b ∈ bs, b ≠ start)
    (hrun : run step s bs = some v) : emitted v = emitted s ∧ (view v).pipe.present = false := by
  have hend : (Agreed (view v) ∧ AtRest (view v)) ∧ emitted v = emitted s := by
    refine run_invariant (C := fun _ b => b ≠ start)
      (I := fun u => (Agreed (view u) ∧ AtRest (view u)) ∧ emitted u = emitted s) ?_
      ⟨⟨hs,hrest⟩,rfl⟩ (along_of_forall hbs) hrun
    rintro u b w hb ⟨⟨hu,hrest'⟩,hsame⟩ hw
    refine ⟨⟨h.agreed hu hw,h.atRest hrest' hb hw⟩,?_⟩
    rcases h.emits u b w hw with hkept | hpresent
    · exact hkept.trans hsame
    · rw [hu.absent hrest'] at hpresent
      cases hpresent
  exact ⟨hend.2,hend.1.1.absent hend.1.2⟩

theorem present_of_worker {s t : Pipeline.State β α μ} (ht : Pipeline.step k s .worker = some t) :
    s.present = true := by
  rw [present_iff]
  intro habsent
  simp [Pipeline.step,workerStep,habsent] at ht

omit [DecidableEq β] in
theorem constructed_agreed (ring : SpscRing.Ring 64 (QueueEntry β)) (mem : β → α) :
    Agreed (⟨false,.idle,Pipeline.State.constructed ring 0 0 mem⟩ : Managed β α μ) :=
  ⟨constructed_lifecycleInv ring 0 0 mem,fun _ => ⟨rfl,rfl⟩,nofun,nofun⟩

end Follows

section Slot

open Layer1 SlotPath

variable {β ω : Type} [DecidableEq β] (p : Platform ω) (k : Kind E3SlotDesc SlotMessage)

def slotView (s : SlotPath.PathState β ω) : Managed β E3SlotDesc SlotMessage :=
  ⟨s.sm.running,s.smControl,s.pipe⟩

omit [DecidableEq β] in
theorem onSample_running {l l' : E3SMLayer1} {s : SlotSample} {a : Layer1.Answers}
    {es : List (Emission ω)} (h : l.onSample p s a = some (l',es)) : l'.running = l.running := by
  rw [(E3SMLayer1.onSample_frame p h).running]
  unfold E3SMLayer1.afterCheck E3SMLayer1.checkGeometry
  split_ifs <;> rfl

theorem slot_moves {s t : SlotPath.PathState β ω} {a : SlotPath.PathAction β}
    (ht : SlotPath.pathStep p k s a = some t) : slotView t = slotView s ∨
      ∃ m, (m = .start → a = .smStart) ∧ managedStep k (slotView s) m = some (slotView t) := by
  have hpipe : ∀ {x : Action β E3SlotDesc} {pipe}, callsPipeline x = false →
      Pipeline.step k s.pipe x = some pipe → managedStep k (slotView s) (.pipe x) =
        some { slotView s with pipe := pipe } := fun hx hstep => move_pipe hx hstep
  cases SlotPath.pathStep_move ht with
  | skip => exact .inl rfl
  | fire _ _ hstep => exact .inr ⟨.pipe _,nofun,hpipe rfl hstep⟩
  | lose => exact .inl rfl
  | deliver hstep => exact .inr ⟨.pipe _,nofun,hpipe rfl hstep⟩
  | poll hstep => exact .inr ⟨.pipe _,nofun,hpipe rfl hstep⟩
  | dispatch _ hstep hsample =>
    refine .inr ⟨.pipe _,nofun,(hpipe rfl hstep).trans ?_⟩
    simp only [slotView,onSample_running p hsample]
  | worker _ hstep => exact .inr ⟨.pipe _,nofun,hpipe rfl hstep⟩
  | control hstep =>
    refine .inr ⟨.pipe _,nofun,(hpipe rfl hstep).trans ?_⟩
    simp only [slotView]
    split <;> rfl
  | startAgain hidle hup => exact .inr ⟨.start,fun _ => rfl,move_start_again hidle hup⟩
  | start hidle hdown hstep => exact .inr ⟨.start,fun _ => rfl,move_start hidle hdown hstep⟩
  | stopAgain hidle hdown => exact .inr ⟨.stop,nofun,move_stop_again hidle hdown⟩
  | stop hidle hup hstep => exact .inr ⟨.stop,nofun,move_stop hidle hup hstep⟩
  | started hcontrol hsm => exact .inr ⟨.returned,nofun,move_started hcontrol hsm⟩
  | stopped hcontrol hsm => exact .inr ⟨.returned,nofun,move_stopped hcontrol hsm⟩

theorem slot_emits {s t : SlotPath.PathState β ω} {a : SlotPath.PathAction β}
    (ht : SlotPath.pathStep p k s a = some t) :
    t.emitted = s.emitted ∨ (slotView s).pipe.present = true := by
  cases SlotPath.pathStep_move ht with
  | dispatch _ hstep _ => exact .inr (present_of_worker hstep)
  | _ => exact .inl rfl

theorem slot_follows : Follows k slotView .smStart SlotPath.PathState.emitted
    (SlotPath.pathStep (β := β) p k) :=
  ⟨fun _ _ _ ht => slot_moves p k ht,fun _ _ _ ht => slot_emits p k ht⟩

end Slot

section Spectrum

open Spectrum SpectrumPath

variable {β ω : Type} [DecidableEq β] (wide : Bfp.WideShift) (codec : IqCodec ω)
  (k : Kind IqSampleData PrbFilterConfig)

def spectrumView (s : SpectrumPath.PathState β ω) : Managed β IqSampleData PrbFilterConfig :=
  ⟨s.sm.running,s.smControl,s.fed.pipe⟩

theorem feed_moves {s : Managed β IqSampleData PrbFilterConfig}
    {fed fed' : Fed β IqSampleData PrbFilterConfig} (hs : fed.pipe = s.pipe)
    {a : FeedAction β IqSampleData} (ha : ∀ x, a = .act x → callsPipeline x = false)
    (ht : feedStep k fed a = some fed') : fed'.pipe = s.pipe ∨
      ∃ x, managedStep k s (.pipe x) = some { s with pipe := fed'.pipe } := by
  cases a with
  | output b d =>
    simp only [feedStep] at ht
    split at ht
    · cases ht
    · obtain ⟨pipe,hstep,rfl⟩ := Option.map_eq_some_iff.mp ht
      exact .inr ⟨.fill b d,move_pipe rfl (hs ▸ hstep)⟩
  | lose n =>
    cases ht
    exact .inl hs
  | deliver n =>
    obtain ⟨pipe,hstep,rfl⟩ := Option.map_eq_some_iff.mp ht
    exact .inr ⟨.deliver _,move_pipe rfl (hs ▸ hstep)⟩
  | act x =>
    simp only [feedStep] at ht
    split at ht
    · cases ht
    · obtain ⟨pipe,hstep,rfl⟩ := Option.map_eq_some_iff.mp ht
      exact .inr ⟨x,move_pipe (ha x rfl) (hs ▸ hstep)⟩

theorem act_pipe {fed fed' : Fed β IqSampleData PrbFilterConfig} {x : Action β IqSampleData}
    (ht : feedStep k fed (.act x) = some fed') : Pipeline.step k fed.pipe x = some fed'.pipe := by
  simp only [feedStep] at ht
  split at ht
  · cases ht
  · obtain ⟨pipe,hstep,rfl⟩ := Option.map_eq_some_iff.mp ht
    exact hstep

omit [DecidableEq β] in
theorem dispatch_view {s t : SpectrumPath.PathState β ω} {fed : Fed β IqSampleData PrbFilterConfig}
    {tail : BitVec 64} {a : Spectrum.Answers} {ns : UInt64}
    (ht : dispatchPathStep wide codec k s fed tail a ns = some t) :
    spectrumView t = { spectrumView s with pipe := fed.pipe } := by
  obtain ⟨buf,sm,hstep,hrunning,-⟩ := dispatchPathStep_says wide codec k s fed tail a ns
  rw [hstep,Option.some.injEq] at ht
  subst ht
  simp only [spectrumView,hrunning]

theorem spectrum_moves {s t : SpectrumPath.PathState β ω} {a : SpectrumPath.PathAction β}
    (ht : SpectrumPath.pathStep wide codec k s a = some t) : spectrumView t = spectrumView s ∨
      ∃ m, (m = .start → a = .smStart) ∧
        managedStep k (spectrumView s) m = some (spectrumView t) := by
  have hfeed : ∀ {x : FeedAction β IqSampleData} {fed}, (∀ y, x = .act y → callsPipeline y = false) →
      feedStep k s.fed x = some fed → { spectrumView s with pipe := fed.pipe } = spectrumView s ∨
        ∃ m, (m = .start → a = .smStart) ∧
          managedStep k (spectrumView s) m = some { spectrumView s with pipe := fed.pipe } := by
    intro x fed hx hstep
    rcases feed_moves k (s := spectrumView s) rfl hx hstep with hsame | ⟨y,hy⟩
    · left
      rw [hsame]
    · exact .inr ⟨.pipe y,nofun,hy⟩
  cases SpectrumPath.pathStep_move ht with
  | skip => exact .inl rfl
  | fire _ hstep => exact hfeed (by simp) hstep
  | lose hstep => exact hfeed (by simp) hstep
  | deliver hstep => exact hfeed (by simp) hstep
  | poll hstep => exact hfeed (by simp [callsPipeline]) hstep
  | dispatch _ hstep hsample =>
    rw [dispatch_view wide codec k hsample]
    exact hfeed (by simp [callsPipeline]) hstep
  | worker _ hstep => exact hfeed (by simp [callsPipeline]) hstep
  | control hstep => exact hfeed (by simp [callsPipeline]) hstep
  | startAgain hidle hup => exact .inr ⟨.start,fun _ => rfl,move_start_again hidle hup⟩
  | start hidle hdown hstep =>
    exact .inr ⟨.start,fun _ => rfl,move_start hidle hdown (act_pipe k hstep)⟩
  | stopAgain hidle hdown => exact .inr ⟨.stop,nofun,move_stop_again hidle hdown⟩
  | stop hidle hup hstep => exact .inr ⟨.stop,nofun,move_stop hidle hup (act_pipe k hstep)⟩
  | started hcontrol hsm => exact .inr ⟨.returned,nofun,move_started hcontrol hsm⟩
  | stopped hcontrol hsm => exact .inr ⟨.returned,nofun,move_stopped hcontrol hsm⟩

theorem spectrum_emits {s t : SpectrumPath.PathState β ω} {a : SpectrumPath.PathAction β}
    (ht : SpectrumPath.pathStep wide codec k s a = some t) :
    t.emitted = s.emitted ∨ (spectrumView s).pipe.present = true := by
  cases SpectrumPath.pathStep_move ht with
  | dispatch _ hstep _ => exact .inr (present_of_worker (act_pipe k hstep))
  | _ => exact .inl rfl

theorem spectrum_follows : Follows k spectrumView .smStart SpectrumPath.PathState.emitted
    (SpectrumPath.pathStep (β := β) wide codec k) :=
  ⟨fun _ _ _ ht => spectrum_moves wide codec k ht,fun _ _ _ ht => spectrum_emits wide codec k ht⟩

end Spectrum

def slotStop : List (SlotPath.PathAction ℕ) :=
  [.smStop,.control true,.control true,.worker Layer1.oneSubscriber] ++
    List.replicate 6 (.control true) ++ [.smReturn]

def spectrumStop : List (SpectrumPath.PathAction ℕ) :=
  [.smStop,.control true,.control true,.worker Spectrum.oneSubscriber 0] ++
    List.replicate 6 (.control true) ++ [.smReturn]

end ServiceModel
end E3Controller
