import E3Controller.PipelineSession

/-!
# Shutdown

`unregister_stream` prevents later look-ups only: a dispatch that has already
copied the handler still runs `process_buffers`, at any point of `stop` or after
it. If no batch is pending when `stop` reads the head for its drain, everything
is released before the unload and the queue stays empty until the next start;
otherwise a buffer can outlive its codelet.
-/

namespace E3Controller
namespace Pipeline

open SpscRing SlotApi

variable {β α μ : Type}

/-- What `stop` promises of a state: nothing is owned when the codelets are
unloaded, a stopped pipeline has an empty queue that no step extends, and a
worker only dispatches what its own session accepted. -/
structure StopSafe [DecidableEq β] (k : Kind α μ) (s : State β α μ) : Prop where
  unload : s.control = .stopUnload → s.hist.owned = [] ∧ s.hist.handed.Perm
    (s.hist.filtered ++ s.hist.rejected ++ s.hist.released ++ s.hist.drained)
  stopped : s.control = .idle → s.running = false → s.ring.head = s.ring.tail ∧
    ∀ a t, step k s a = some t → t.ring.head = s.ring.head ∧ t.hist.accepted = s.hist.accepted
  own : ∀ e ∈ s.hist.dispatched, e.1 ∈ s.hist.accepted

/-- The poll thread has no buffer of this pipeline in hand when `stop` loads the
head of the queue that it is going to drain. -/
def QuietAtDrain (s : State β α μ) : Action β α → Prop
  | .control _ => s.control = .stopHead → s.poll.pending = []
  | _ => True

instance [DecidableEq β] (s : State β α μ) (a : Action β α) : Decidable (QuietAtDrain s a) :=
  match a with
  | .control _ => inferInstanceAs (Decidable (s.control = .stopHead → s.poll.pending = []))
  | .fill _ _ | .deliver _ | .poll _ _ | .worker | .callStart | .callStop => isTrue trivial

/-- No handler is registered and none is left running on a batch. -/
def Quiet (s : State β α μ) : Prop := s.registered = false ∧ s.poll.pending = []

def StopInv (s : State β α μ) : Prop :=
  match s.control with
  | .idle => s.running = false → Quiet s ∧ s.hist.queued = []
  | .stopUnregister => True
  | .stopRunning => s.registered = false
  | .stopJoin => s.registered = false
  | .stopHead => s.registered = false
  | .stopTail head => Quiet s ∧ head = s.ring.head
  | .stopDrain _ head => Quiet s ∧ head = s.ring.head
  | .stopStore head => Quiet s ∧ head = s.ring.head
  | _ => Quiet s ∧ s.hist.queued = []

structure LogInv (s : State β α μ) : Prop where
  fifo : s.worker ≠ .absent → s.hist.accepted = s.hist.dispatched.map Prod.fst ++ undispatched s
  dispatched : s.hist.dispatched.map Prod.fst <+: s.hist.accepted

section Steps

variable [DecidableEq β] {k : Kind α μ} {s t : State β α μ} {a : Action β α}

theorem quiet_step (hq : Quiet s) (ha : a.inSession = true) (ht : step k s a = some t) :
    Quiet t ∧ t.ring.head = s.ring.head ∧ t.hist.accepted = s.hist.accepted ∧
      (s.hist.queued = [] → t.hist.queued = []) := by
  obtain ⟨hr,hp⟩ := hq
  cases a with
  | fill b a =>
    cases fill_move ht
    exact ⟨⟨hr,hp⟩,rfl,rfl,id⟩
  | deliver bufs =>
    cases deliver_move ht with
    | hand _ _ hregistered =>
      rw [hr] at hregistered
      cases hregistered
    | unclaimed => exact ⟨⟨hr,hp⟩,rfl,rfl,id⟩
  | poll ok ts => cases pollStep_move ht <;> simp_all [Quiet,PollPc.pending]
  | worker => cases workerStep_move ht <;> exact ⟨⟨hr,hp⟩,rfl,rfl,fun h => by simp [h]⟩
  | callStart => cases ha
  | callStop => cases ha
  | control ok => cases ha

theorem inSession_stopInv (h : StopInv s) (ha : a.inSession = true) (ht : step k s a = some t) :
    StopInv t := by
  obtain ⟨hrun,hctl,hreg,-,-⟩ := inSession_frame ha ht
  have hquiet := fun hq : Quiet s => quiet_step hq ha ht
  unfold StopInv at h ⊢
  rw [hctl,hrun,hreg]
  cases hc : s.control with
  | idle =>
    rw [hc] at h
    intro hr
    obtain ⟨hq,he⟩ := h hr
    exact ⟨(hquiet hq).1,(hquiet hq).2.2.2 he⟩
  | stopUnregister => trivial
  | stopRunning => rwa [hc] at h
  | stopJoin => rwa [hc] at h
  | stopHead => rwa [hc] at h
  | stopTail head =>
    rw [hc] at h
    exact ⟨(hquiet h.1).1,h.2.trans (hquiet h.1).2.1.symm⟩
  | stopDrain tail head =>
    rw [hc] at h
    exact ⟨(hquiet h.1).1,h.2.trans (hquiet h.1).2.1.symm⟩
  | stopStore head =>
    rw [hc] at h
    exact ⟨(hquiet h.1).1,h.2.trans (hquiet h.1).2.1.symm⟩
  | _ =>
    rw [hc] at h
    exact ⟨(hquiet h.1).1,(hquiet h.1).2.2.2 h.2⟩

theorem controlStep_stopInv {ok : Bool} (hinv : Inv k s) (h : StopInv s)
    (hquiet : s.control = .stopHead → s.poll.pending = []) (ht : controlStep k s ok = some t) :
    StopInv t := by
  have hc := hinv.control
  unfold StopInv at h
  cases controlStep_move ht with
  | register pc =>
    simp only [ControlInv,pc] at hc
    intro hr
    rw [hc] at hr
    cases hr
  | unregister pc => exact rfl
  | loadHead pc =>
    rw [pc] at h
    exact ⟨⟨h,hquiet pc⟩,rfl⟩
  | storeTail pc =>
    rw [pc] at h
    obtain ⟨hq,rfl⟩ := h
    refine ⟨hq,?_⟩
    rw [hinv.holds.distance k.logCapacity_lt]
    exact List.drop_length
  | loadFailed pc | unload pc | keepUnloaded pc =>
    rw [pc] at h
    exact fun _ => h
  | load pc | loaded pc | reset pc | run pc | spawn pc | halt pc | join pc | loadTail pc | drained pc
  | drain pc =>
    rw [pc] at h
    exact h

theorem step_stopInv (hinv : Inv k s) (h : StopInv s) (hquiet : QuietAtDrain s a)
    (ht : step k s a = some t) : StopInv t := by
  cases a with
  | control ok => exact controlStep_stopInv hinv h hquiet ht
  | callStart =>
    cases callStart_move ht with
    | already => exact h
    | load pc hstopped | reset pc hstopped =>
      simp only [StopInv,pc] at h
      exact h (by simpa using hstopped)
  | callStop =>
    cases callStop_move ht with
    | stop => trivial
    | already => exact h
  | fill b v => exact inSession_stopInv h rfl ht
  | deliver bufs => exact inSession_stopInv h rfl ht
  | poll ok ts => exact inSession_stopInv h rfl ht
  | worker => exact inSession_stopInv h rfl ht

/-- Only `start` brings a worker back, and it clears the session logs. -/
theorem worker_absent_step (hw : s.worker = .absent) (ht : step k s a = some t) :
    t.worker = .absent ∨ s.control = .startWorker ∧ t.hist.queued = s.hist.queued ∧
      t.hist.accepted = [] ∧ t.hist.dispatched = [] := by
  cases a with
  | fill b v =>
    cases fill_move ht
    exact .inl hw
  | deliver bufs => cases deliver_move ht <;> exact .inl hw
  | poll ok ts => cases pollStep_move ht <;> exact .inl hw
  | worker => simp [step,workerStep,hw] at ht
  | callStart => cases callStart_move ht <;> exact .inl hw
  | callStop => cases callStop_move ht <;> exact .inl hw
  | control ok =>
    cases controlStep_move ht with
    | spawn pc => exact .inr ⟨pc,rfl,rfl,rfl⟩
    | join => exact .inl rfl
    | _ => exact .inl hw

theorem step_logInv (hinv : Inv k s) (hstop : StopInv s) (h : LogInv s)
    (ht : step k s a = some t) : LogInv t := by
  have hflow := step_flow hinv ht
  have hfifo : t.worker ≠ .absent →
      t.hist.accepted = t.hist.dispatched.map Prod.fst ++ undispatched t := by
    intro hw'
    by_cases hw : s.worker = .absent
    · rcases worker_absent_step hw ht with habs | ⟨hc,hq,ha,hd⟩
      · exact absurd habs hw'
      · simp only [StopInv,hc] at hstop
        rw [ha,hd,undispatched,hq,hstop.2]
        simp
    · refine fifo_of_flow hflow hw ?_ (h.fifo hw)
      intro hc
      have hctl := hinv.control
      simp only [ControlInv,hc] at hctl
      exact hw hctl.1
  refine ⟨hfifo,?_⟩
  cases hflow with
  | silent _ _ ha hd => rw [ha,hd]; exact h.dispatched
  | hand _ _ _ _ _ ha hd => rw [ha,hd]; exact h.dispatched
  | discard _ _ _ ha hd => rw [ha,hd]; exact h.dispatched
  | enqueue e _ _ ha hd =>
    rw [ha,hd]
    exact h.dispatched.trans (List.prefix_append _ _)
  | dispatch e hw _ hu ha hd =>
    rw [ha,hd,h.fifo hw,hu]
    exact ⟨undispatched t,by simp⟩
  | drain e _ _ _ ha hd => rw [ha,hd]; exact h.dispatched
  | spawn _ _ _ ha hd => rw [ha,hd]; exact List.prefix_refl _

omit [DecidableEq β] in
theorem owned_eq_nil (hinv : Inv k s) (h : StopInv s) (hc : s.control = .stopUnload) :
    s.hist.owned = [] := by
  have hctl := hinv.control
  have ho := hinv.owned
  simp only [StopInv,hc] at h
  simp only [ControlInv,hc] at hctl
  rw [live,h.1.2,h.2,List.drop_nil] at ho
  exact ho.eq_nil

theorem stopSafe_of_inv (hinv : Inv k s) (h : StopInv s) (hlog : LogInv s) : StopSafe k s where
  unload hc := by
    have ho := owned_eq_nil hinv h hc
    exact ⟨ho,by simpa only [ho,List.append_nil] using hinv.handed⟩
  stopped hc hr := by
    simp only [StopInv,hc] at h
    obtain ⟨hq,he⟩ := h hr
    refine ⟨(hinv.holds.head_eq_tail_iff k.logCapacity_lt).mpr he,?_⟩
    intro a t ht
    cases a with
    | callStart => cases callStart_move ht <;> exact ⟨rfl,rfl⟩
    | callStop => cases callStop_move ht <;> exact ⟨rfl,rfl⟩
    | control ok => simp [step,controlStep,hc] at ht
    | fill b v => exact ⟨(quiet_step hq rfl ht).2.1,(quiet_step hq rfl ht).2.2.1⟩
    | deliver bufs => exact ⟨(quiet_step hq rfl ht).2.1,(quiet_step hq rfl ht).2.2.1⟩
    | poll ok ts => exact ⟨(quiet_step hq rfl ht).2.1,(quiet_step hq rfl ht).2.2.1⟩
    | worker => exact ⟨(quiet_step hq rfl ht).2.1,(quiet_step hq rfl ht).2.2.1⟩
  own e he := hlog.dispatched.subset (List.mem_map_of_mem he)

end Steps

/-- Every state of every run along `C`, from a constructed pipeline through any
number of starts and stops, satisfies what `stop` promises. -/
def StopCorrect (C : ∀ {β : Type}, State β α μ → Action β α → Prop) (k : Kind α μ) : Prop :=
  ∀ (β : Type) [DecidableEq β] (ring : Ring 64 (QueueEntry β)) (dropped : UInt64) (total : UInt32)
    (mem : β → α) (as : List (Action β α)) (s : State β α μ), ring.head = ring.tail →
    LabelledRun.Along (step k) C (State.constructed ring dropped total mem) as →
    LabelledRun.run (step k) (State.constructed ring dropped total mem) as = some s →
    StopSafe k s

theorem stopCorrect_of_quiet (k : Kind α μ) : StopCorrect QuietAtDrain k := by
  intro β _ ring dropped total mem as s hring hquiet hrun
  have hstart : Inv k (State.constructed ring dropped total mem) ∧
      StopInv (State.constructed (μ := μ) ring dropped total mem) ∧
      LogInv (State.constructed (μ := μ) ring dropped total mem) := by
    refine ⟨constructed_inv k ring dropped total mem hring,fun _ => ⟨⟨rfl,rfl⟩,rfl⟩,?_⟩
    exact ⟨fun hw => absurd rfl hw,List.prefix_refl _⟩
  obtain ⟨hinv,hstop,hlog⟩ := LabelledRun.run_invariant
    (I := fun s => Inv k s ∧ StopInv s ∧ LogInv s)
    (fun s a t hq h ht => ⟨step_inv h.1 ht,step_stopInv h.1 h.2.1 hq ht,
      step_logInv h.1 h.2.1 h.2.2 ht⟩) hstart hquiet hrun
  exact stopSafe_of_inv hinv hstop hlog

/-- Both pipelines shut down as promised in every run in which no batch is in
hand when `stop` starts its drain. -/
theorem both_pipelines_stopCorrect (config : SlotPipelineConfig) (config' : IqPipelineConfig) :
    StopCorrect QuietAtDrain (slotIqPipeline config) ∧
      StopCorrect QuietAtDrain (iqPipeline config') :=
  ⟨stopCorrect_of_quiet _,stopCorrect_of_quiet _⟩

def emptyRing : Ring 64 (QueueEntry ℕ) := ⟨0,0,fun _ => ⟨0,0,0,0⟩⟩

def autoLoadConfig : SlotPipelineConfig := { codeletBasePath := CString.str "codelets", writer := .gnb }

def constructedSlot : State ℕ E3SlotDesc SlotMessage := State.constructed emptyRing 0 0 fun _ => {}

def startRun {α : Type} : List (Action ℕ α) := .callStart :: List.replicate 6 (.control true)

def stopRun {α : Type} : List (Action ℕ α) :=
  [.callStop,.control true,.control true,.worker] ++ List.replicate 5 (.control true)

/-- A batch whose handler was copied before `stop` and that is not placed until
`stop` has returned. -/
def lateBatchRun {α : Type} : List (Action ℕ α) := startRun ++ .deliver [1] :: stopRun

def orderlyRun : List (Action ℕ E3SlotDesc) :=
  startRun ++ .deliver [1] :: List.replicate 10 (.poll true 0) ++ List.replicate 6 .worker ++ stopRun

theorem both_pipelines_stopCorrect_orderly :
    ∃ s, LabelledRun.run (step (slotIqPipeline autoLoadConfig)) constructedSlot orderlyRun = some s ∧
      s.control = .stopUnload ∧ s.hist.released = [1] ∧ StopSafe (slotIqPipeline autoLoadConfig) s := by
  refine ⟨_,rfl,rfl,rfl,?_⟩
  exact (both_pipelines_stopCorrect autoLoadConfig {}).1 ℕ emptyRing 0 0 (fun _ => {}) orderlyRun _ rfl
    (by decide +kernel) rfl

theorem not_stopCorrect {k : Kind α μ} (as : List (Action ℕ α)) (mem : ℕ → α) {s : State ℕ α μ}
    (hrun : LabelledRun.run (step k) (State.constructed emptyRing 0 0 mem) as = some s)
    (hs : ¬ StopSafe k s) : ¬ StopCorrect (fun _ _ => True) k :=
  fun h => hs (h ℕ emptyRing 0 0 mem as s rfl (LabelledRun.along_true _ _) hrun)

/-- The late batch: at the unload its buffer is not released; after `stop` has
returned the poll thread enqueues it; the worker of the next session dispatches
it although that session accepted nothing. Neither pipeline keeps its promise. -/
theorem late_batch_outlives_stop :
    (∃ s, LabelledRun.run (step (slotIqPipeline autoLoadConfig)) constructedSlot lateBatchRun = some s ∧
      s.control = .stopUnload ∧ s.codeletsLoaded = true ∧ s.hist.owned = [1]) ∧
    (∃ s, LabelledRun.run (step (slotIqPipeline autoLoadConfig)) constructedSlot
      (lateBatchRun ++ .control true :: List.replicate 9 (.poll true 0)) = some s ∧
      s.control = .idle ∧ s.running = false ∧ s.ring.head ≠ s.ring.tail) ∧
    (∃ s, LabelledRun.run (step (slotIqPipeline autoLoadConfig)) constructedSlot
      (lateBatchRun ++ .control true :: List.replicate 9 (.poll true 0) ++ startRun ++
        List.replicate 4 .worker) = some s ∧
      s.hist.dispatched.map (fun e => e.1.buf) = [1] ∧ s.hist.accepted = []) ∧
    ¬ StopCorrect (fun _ _ => True) (slotIqPipeline autoLoadConfig) ∧
    ¬ StopCorrect (fun _ _ => True) (iqPipeline { codeletBasePath := CString.str "codelets" }) := by
  refine ⟨⟨_,rfl,rfl,rfl,rfl⟩,⟨_,rfl,rfl,rfl,by decide⟩,⟨_,rfl,rfl,rfl⟩,?_,?_⟩
  · refine not_stopCorrect lateBatchRun (fun _ => {}) rfl fun h => ?_
    exact absurd (h.unload rfl).1 (List.cons_ne_nil 1 [])
  · refine not_stopCorrect lateBatchRun (fun _ => {}) rfl fun h => ?_
    exact absurd (h.unload rfl).1 (List.cons_ne_nil 1 [])

end Pipeline
end E3Controller
