import E3Controller.RunMeasure
import E3Controller.PipelineStop

/-!
# Calls return and accepted entries are dispatched

What must happen, for every interleaving. `start` and `stop` wait for nobody but
the worker that `stop` joins, and the drain of `stop` is bounded by the queue, so
both return after a bounded number of steps of the two threads involved. In a
running session the worker reaches every accepted entry, whatever the poll thread
adds behind it.
-/

namespace E3Controller
namespace Pipeline

open SpscRing SlotApi LabelledRun

variable {β α μ : Type}

/-- The labels that bring a call forward: the control thread's own, and the worker's
while `stop` joins it. -/
def advances (s : State β α μ) : Action β α → Bool
  | .control _ => true
  | .worker => s.control = .stopJoin
  | _ => false

def WorkerPc.toExit : WorkerPc → ℕ
  | .absent => 0
  | .exited => 0
  | .loopTop => 1
  | .storeTail _ => 2
  | .release _ => 3
  | .dispatch _ => 4
  | .loadHead _ => 5
  | .loadTail => 6

theorem WorkerPc.toExit_le (w : WorkerPc) : w.toExit ≤ 6 := by
  cases w <;> simp [WorkerPc.toExit]

/-- What is left of a call of `start` or `stop`, in steps that advance it. -/
def callRank (k : Kind α μ) (s : State β α μ) : ℕ :=
  match s.control with
  | .idle => 0
  | .startLoad => 6
  | .startLoaded => 5
  | .startReset => 4
  | .startRunning => 3
  | .startWorker => 2
  | .startRegister => 1
  | .stopUnregister => 2 ^ k.logCapacity + 14
  | .stopRunning => 2 ^ k.logCapacity + 13
  | .stopJoin => 2 ^ k.logCapacity + 6 + s.worker.toExit
  | .stopHead => 2 ^ k.logCapacity + 5
  | .stopTail head => (head - s.ring.tail).toNat + 4
  | .stopDrain tail head => (head - tail).toNat + 3
  | .stopStore _ => 2
  | .stopUnload => 1

structure CallInv (k : Kind α μ) (s : State β α μ) : Prop where
  inv : Inv k s
  halted : s.control = .stopJoin → s.running = false

theorem callRank_le {k : Kind α μ} {s : State β α μ} (h : Inv k s)
    (hc : s.control ≠ .idle) : callRank k s ≤ 2 ^ k.logCapacity + 14 := by
  have hctl := h.control
  have hlen := h.holds.length_le
  unfold ControlInv at hctl
  unfold callRank
  cases hp : s.control with
  | idle => exact absurd hp hc
  | stopJoin =>
    have := s.worker.toExit_le
    simp only
    omega
  | stopTail head =>
    rw [hp] at hctl
    obtain ⟨-,n,hn,rfl⟩ := hctl
    simp only [ahead_stopDrain h hn]
    omega
  | stopDrain tail head =>
    rw [hp] at hctl
    obtain ⟨-,m,n,hmn,hn,rfl,rfl⟩ := hctl
    have hle : n - m ≤ 2 ^ k.logCapacity := by omega
    have hd := add_sub_toNat k.logCapacity_lt (s.ring.tail + BitVec.ofNat 64 m) hle
    rw [add_ofNat_add_ofNat,Nat.add_sub_cancel' hmn] at hd
    simp only [hd]
    omega
  | _ => simp only; omega

theorem drain_distance {tail head : BitVec 64} (h : tail ≠ head) :
    (head - (tail + 1)).toNat + 1 = (head - tail).toNat := by
  bv_omega

section Steps

variable [DecidableEq β] {k : Kind α μ} {s t : State β α μ} {a : Action β α}

theorem step_callInv (h : CallInv k s) (ht : step k s a = some t) : CallInv k t := by
  refine ⟨step_inv h.inv ht,?_⟩
  cases a with
  | callStart =>
    cases callStart_move ht with
    | already => exact h.halted
    | load | reset => exact fun hc => by cases hc
  | callStop =>
    cases callStop_move ht with
    | stop => exact fun hc => by cases hc
    | already => exact h.halted
  | control ok =>
    cases controlStep_move ht with
    | halt => exact fun _ => rfl
    | _ => exact fun hc => by cases hc
  | fill b v =>
    obtain ⟨hr,hc,-⟩ := inSession_frame rfl ht
    rw [hr,hc]
    exact h.halted
  | deliver bufs =>
    obtain ⟨hr,hc,-⟩ := inSession_frame rfl ht
    rw [hr,hc]
    exact h.halted
  | poll ok ts =>
    obtain ⟨hr,hc,-⟩ := inSession_frame rfl ht
    rw [hr,hc]
    exact h.halted
  | worker =>
    obtain ⟨hr,hc,-⟩ := inSession_frame rfl ht
    rw [hr,hc]
    exact h.halted

theorem workerStep_toExit (hr : s.running = false) (ht : workerStep k s = some t) :
    t.worker.toExit + 1 ≤ s.worker.toExit := by
  cases workerStep_move ht with
  | enter pc hrunning =>
    rw [hr] at hrunning
    cases hrunning
  | leave pc | loadTail pc | empty pc | found pc | dispatch pc | release pc | storeTail pc =>
    simp [pc,WorkerPc.toExit]

theorem controlStep_rank {ok : Bool} (h : CallInv k s) (ht : controlStep k s ok = some t) :
    callRank k t + 1 ≤ callRank k s := by
  have hdist := h.inv.holds.distance k.logCapacity_lt
  have hlen := h.inv.holds.length_le
  cases controlStep_move ht with
  | halt pc =>
    have hle := s.worker.toExit_le
    simp only [callRank,pc]
    omega
  | loadHead pc =>
    simp only [callRank,pc,hdist]
    omega
  | drain pc hbehind =>
    have hround := drain_distance hbehind
    simp only [callRank,pc]
    omega
  | load pc | loadFailed pc | loaded pc | reset pc | run pc | spawn pc | register pc | unregister pc
  | join pc | loadTail pc | drained pc | storeTail pc | unload pc | keepUnloaded pc =>
    simp only [callRank,pc]
    omega

/-- A label that advances the call uses up rank; no other label gives rank back. -/
theorem step_callRank (hc : s.control ≠ .idle) (h : CallInv k s) (ht : step k s a = some t) :
    (if advances s a then 1 else 0) + callRank k t ≤ callRank k s := by
  cases a with
  | fill b v =>
    cases fill_move ht
    simp [advances,callRank]
  | deliver bufs => cases deliver_move ht <;> simp [advances,callRank]
  | poll ok ts => cases pollStep_move ht <;> simp [advances,callRank]
  | worker =>
    obtain ⟨-,hctl,-⟩ := inSession_frame (k := k) (a := .worker) rfl ht
    by_cases hj : s.control = .stopJoin
    · have hexit := workerStep_toExit (h.halted hj) ht
      simp only [advances,callRank,hctl,hj,decide_true,if_true]
      omega
    · have hwait : (if advances s (.worker : Action β α) then 1 else 0) = 0 := by simp [advances,hj]
      rw [hwait,Nat.zero_add]
      cases hp : s.control with
      | stopJoin => exact absurd hp hj
      | stopTail head =>
        -- the tail that the rank looks at belongs to the worker, which is gone by now
        have habs := h.inv.control
        simp only [ControlInv,hp] at habs
        simp [step,workerStep,habs.1] at ht
      | _ => simp [callRank,hctl,hp]
  | callStart => cases callStart_move ht <;> contradiction
  | callStop => cases callStop_move ht <;> contradiction
  | control ok =>
    have hrank := controlStep_rank h ht
    simp only [advances,if_true]
    omega

/-- A call in progress waits for nobody, or `stop` waits for a worker that can move. -/
theorem call_enabled (h : CallInv k s) (hc : s.control ≠ .idle) :
    (∀ ok, (step k s (.control ok)).isSome) ∨
      s.control = .stopJoin ∧ (step k s .worker).isSome := by
  by_cases hj : s.control = .stopJoin
  · have hr := h.halted hj
    cases hw : s.worker with
    | absent | exited => exact .inl fun ok => by simp [step,controlStep,hj,hw]
    | loopTop | loadTail | dispatch | release | storeTail =>
      exact .inr ⟨hj,by simp [step,workerStep,hw,hr]⟩
    | loadHead tail =>
      refine .inr ⟨hj,?_⟩
      simp only [step,workerStep,hw]
      split <;> rfl
  · refine .inl fun ok => ?_
    cases hp : s.control with
    | idle => exact absurd hp hc
    | stopJoin => exact absurd hp hj
    | startLoad | stopDrain | stopUnload =>
      simp only [step,controlStep,hp]
      split <;> rfl
    | startLoaded | startReset | startRunning | startWorker | startRegister | stopUnregister
    | stopRunning
    | stopHead | stopTail | stopStore => simp [step,controlStep,hp]

end Steps

/-- A call of `start` or `stop` in progress: it is never stuck, and while it has not
returned at most `bound` labels advance it. -/
structure CallReturns [DecidableEq β] (k : Kind α μ) (bound : ℕ) (s : State β α μ) : Prop where
  enabled : s.control ≠ .idle → (∀ ok, (step k s (.control ok)).isSome) ∨
    s.control = .stopJoin ∧ (step k s .worker).isSome
  bounded : ∀ (as : List (Action β α)) (t : State β α μ),
    Along (step k) (fun s _ => s.control ≠ .idle) s as → run (step k) s as = some t →
    total (step k) (fun s a => if advances s a then 1 else 0) s as ≤ bound

def CallsReturn (k : Kind α μ) (bound : ℕ) : Prop :=
  ∀ (β : Type) [DecidableEq β] (ring : Ring 64 (QueueEntry β)) (dropped : UInt64) (total : UInt32)
    (mem : β → α) (as : List (Action β α)) (s : State β α μ), ring.head = ring.tail →
    run (step k) (State.constructed ring dropped total mem) as = some s → CallReturns k bound s

theorem callsReturn (k : Kind α μ) : CallsReturn k (2 ^ k.logCapacity + 14) := by
  intro β _ ring dropped total mem as s hring hrun
  have hstart : CallInv k (State.constructed ring dropped total mem : State β α μ) :=
    ⟨constructed_inv k ring dropped total mem hring,fun hc => by cases hc⟩
  have hs := run_invariant_of_step (fun _ _ _ h ht => step_callInv h ht) hstart hrun
  refine ⟨call_enabled hs,fun bs t halong hbs => ?_⟩
  cases bs with
  | nil => exact Nat.zero_le _
  | cons b bs =>
    have hpaid := total_add_rank_le (callRank k) (fun _ _ _ _ h ht => step_callInv h ht)
      (fun _ _ _ hc h ht => step_callRank hc h ht) hs halong hbs
    exact (Nat.le_add_right _ _).trans (hpaid.trans (callRank_le hs.inv halong.1))

/-- Every `start` and `stop` of either pipeline returns, in any interleaving with the
poll thread, the codelets and the worker: no state blocks it, and it is over after as
many steps of its own and of the worker it joins as the queue has slots, and 14 more. -/
theorem both_pipelines_callsReturn (config : SlotPipelineConfig) (config' : IqPipelineConfig) :
    CallsReturn (slotIqPipeline config) (32 + 14) ∧ CallsReturn (iqPipeline config') (64 + 14) :=
  ⟨callsReturn (slotIqPipeline config),callsReturn (iqPipeline config')⟩

def busyStopRun : List (Action ℕ E3SlotDesc) :=
  startRun ++ .deliver [1] :: List.replicate 10 (.poll true 0) ++ [.worker,.callStop]

theorem both_pipelines_callsReturn_busy :
    ∃ s, run (step (slotIqPipeline autoLoadConfig)) constructedSlot busyStopRun = some s ∧
      s.control = .stopUnregister ∧ s.worker = .loadTail ∧ s.hist.queued.length = 1 ∧
      CallReturns (slotIqPipeline autoLoadConfig) (32 + 14) s := by
  refine ⟨_,rfl,rfl,rfl,rfl,?_⟩
  exact (both_pipelines_callsReturn autoLoadConfig {}).1 ℕ emptyRing 0 0 (fun _ => {})
    busyStopRun _ rfl rfl

def Action.isWorker : Action β α → Bool
  | .worker => true
  | _ => false

/-- Worker steps since its last dispatch, in the round that finds the next entry. -/
def WorkerPc.sinceDispatch : WorkerPc → ℕ
  | .release _ => 0
  | .storeTail _ => 1
  | .loopTop => 2
  | .loadTail => 3
  | .loadHead _ => 4
  | .dispatch _ => 5
  | .absent => 0
  | .exited => 0

/-- Worker steps until `n` entries of the session are dispatched. -/
def serveRank (n : ℕ) (s : State β α μ) : ℕ :=
  6 * (n - s.hist.dispatched.length) - s.worker.sinceDispatch

section Serve

variable [DecidableEq β] {k : Kind α μ} {s t : State β α μ} {a : Action β α} {dropped : UInt64}
  {total : UInt32} {n : ℕ}

theorem session_logs (h : Session k dropped total s) (ht : step k s a = some t) :
    s.hist.accepted <+: t.hist.accepted ∧ s.hist.dispatched <+: t.hist.dispatched := by
  cases step_flow h.inv ht with
  | silent _ _ ha hd => rw [ha,hd]; exact ⟨List.prefix_refl _,List.prefix_refl _⟩
  | hand _ _ _ _ _ ha hd => rw [ha,hd]; exact ⟨List.prefix_refl _,List.prefix_refl _⟩
  | discard _ _ _ ha hd => rw [ha,hd]; exact ⟨List.prefix_refl _,List.prefix_refl _⟩
  | enqueue e _ _ ha hd => rw [ha,hd]; exact ⟨List.prefix_append _ _,List.prefix_refl _⟩
  | dispatch e _ _ _ ha hd => rw [ha,hd]; exact ⟨List.prefix_refl _,List.prefix_append _ _⟩
  | drain e _ _ _ ha hd => rw [ha,hd]; exact ⟨List.prefix_refl _,List.prefix_refl _⟩
  | spawn hc => rw [h.control] at hc; cases hc

omit [DecidableEq β] in
theorem dispatched_all_of_empty (h : Session k dropped total s) {tail : BitVec 64}
    (hw : s.worker = .loadHead tail) (he : s.ring.head = tail) :
    s.hist.dispatched.length = s.hist.accepted.length := by
  have hworker := h.inv.worker
  simp only [WorkerInv,hw] at hworker
  have hq := (h.inv.holds.head_eq_tail_iff k.logCapacity_lt).mp (he.trans hworker)
  have hf := congrArg List.length h.fifo
  simp only [undispatched,hq,List.drop_nil,List.append_nil,List.length_map] at hf
  exact hf.symm

theorem workerStep_serveRank (h : Session k dropped total s) (hn : n ≤ s.hist.accepted.length)
    (hlt : s.hist.dispatched.length < n) (ht : workerStep k s = some t) :
    1 + serveRank n t ≤ serveRank n s := by
  cases workerStep_move ht with
  | leave pc hstopped => exact absurd h.running hstopped
  | empty pc hreached =>
    have hall := dispatched_all_of_empty h pc hreached
    omega
  | dispatch pc =>
    simp only [serveRank,pc,WorkerPc.sinceDispatch,List.length_append,List.length_singleton]
    omega
  | enter pc | loadTail pc | found pc | release pc | storeTail pc =>
    simp only [serveRank,pc,WorkerPc.sinceDispatch]
    omega

theorem step_serveRank (h : Session k dropped total s) (hn : n ≤ s.hist.accepted.length)
    (hlt : s.hist.dispatched.length < n) (ha : a.inSession = true) (ht : step k s a = some t) :
    (if a.isWorker then 1 else 0) + serveRank n t ≤ serveRank n s := by
  cases a with
  | fill b v =>
    cases fill_move ht
    simp [Action.isWorker,serveRank]
  | deliver bufs => cases deliver_move ht <;> simp [Action.isWorker,serveRank]
  | poll ok ts => cases pollStep_move ht <;> simp [Action.isWorker,serveRank]
  | worker => exact workerStep_serveRank h hn hlt ht
  | callStart => cases ha
  | callStop => cases ha
  | control ok => cases ha

omit [DecidableEq β] in
theorem session_worker_enabled [DecidableEq β] (h : Session k dropped total s)
    (hex : s.worker ≠ .exited) : (step k s .worker).isSome := by
  cases hw : s.worker with
  | absent => exact absurd hw h.worker
  | exited => exact absurd hw hex
  | loopTop | loadTail | dispatch | release | storeTail => simp [step,workerStep,hw,h.running]
  | loadHead tail =>
    simp only [step,workerStep,hw]
    split <;> rfl

theorem session_worker_inside (h : Session k dropped total s) (hex : s.worker ≠ .exited)
    (ha : a.inSession = true) (ht : step k s a = some t) : t.worker ≠ .exited := by
  cases a with
  | fill b v =>
    cases fill_move ht
    exact hex
  | deliver bufs => cases deliver_move ht <;> exact hex
  | poll ok ts => cases pollStep_move ht <;> exact hex
  | worker =>
    cases workerStep_move ht with
    | leave pc hstopped => exact absurd h.running hstopped
    | _ => simp
  | callStart => cases ha
  | callStop => cases ha
  | control ok => cases ha

/-- Enough worker steps, and everything accepted so far is dispatched. -/
theorem session_served (h : Session k dropped total s) {bs : List (Action β α)}
    (hbs : ∀ a ∈ bs, a.inSession = true) (hrun : run (step k) s bs = some t)
    (hcount : 6 * (s.hist.accepted.length - s.hist.dispatched.length) ≤ bs.countP Action.isWorker) :
    s.hist.accepted <+: t.hist.dispatched.map Prod.fst := by
  let n := s.hist.accepted.length
  let I : State β α μ → Prop := fun u => Session k dropped total u ∧ s.hist.accepted <+: u.hist.accepted
  have hI : ∀ u a v, a.inSession = true → I u → step k u a = some v → I v :=
    fun u a v ha hu hv => ⟨session_step ha hu.1 hv,hu.2.trans (session_logs hu.1 hv).1⟩
  have hs : I s := ⟨h,List.prefix_refl _⟩
  have ht : I t := run_invariant (C := fun _ a => a.inSession = true) hI hs (along_of_forall hbs) hrun
  refine List.prefix_of_prefix_length_le ht.2 ht.1.dispatched_prefix_accepted ?_
  rw [List.length_map]
  by_contra hshort
  -- an entry still missing at the end was missing all along, so every worker step was paid for
  obtain ⟨hmissing,halong⟩ := along_of_final (P := fun u => u.hist.dispatched.length < n) hI
    (fun u a v _ hu hv hlt => lt_of_le_of_lt (session_logs hu.1 hv).2.length_le hlt) hs hbs hrun
    (Nat.lt_of_not_le hshort)
  have hpaid := total_add_rank_le (serveRank n) (fun u a v hC => hI u a v hC.1)
    (fun u a v hC hu hv => step_serveRank hu.1 hu.2.length_le hC.2 hC.1 hv) hs halong hrun
  rw [total_eq_countP hrun] at hpaid
  have hleft : 1 ≤ serveRank n t := by
    have hround : t.worker.sinceDispatch ≤ 5 := by cases t.worker <;> simp [WorkerPc.sinceDispatch]
    simp only [serveRank]
    omega
  have hrank : serveRank n s ≤ 6 * (n - s.hist.dispatched.length) := Nat.sub_le _ _
  omega

end Serve

/-- The worker can always move, its backlog is bounded, and six of its steps for each
entry of the backlog dispatch all of it, whatever happens in between. -/
structure BacklogServed [DecidableEq β] (capacity : ℕ) (k : Kind α μ) (s : State β α μ) : Prop where
  enabled : (step k s .worker).isSome
  backlog : s.hist.accepted.length ≤ s.hist.dispatched.length + capacity
  served : ∀ (bs : List (Action β α)) (t : State β α μ), (∀ a ∈ bs, a.inSession = true) →
    run (step k) s bs = some t →
    6 * (s.hist.accepted.length - s.hist.dispatched.length) ≤ bs.countP Action.isWorker →
    s.hist.accepted <+: t.hist.dispatched.map Prod.fst

def SessionServed (capacity : ℕ) (k : Kind α μ) : Prop :=
  ∀ (β : Type) [DecidableEq β] (loaded sent : Bool) (ring : Ring 64 (QueueEntry β))
    (dropped : UInt64) (total : UInt32) (mem : β → α) (as : List (Action β α)) (s : State β α μ),
    ring.head = ring.tail → (∀ a ∈ as, a.inSession = true) →
    run (step k) (State.session loaded sent ring dropped total mem) as = some s →
    BacklogServed capacity k s

theorem sessionServed (k : Kind α μ) : SessionServed (2 ^ k.logCapacity) k := by
  intro β _ loaded sent ring dropped total mem as s hring has hrun
  have hstart := session_start k loaded sent ring dropped total mem hring
  obtain ⟨hs,hinside⟩ := run_invariant (C := fun _ a => a.inSession = true)
    (I := fun u => Session k dropped total u ∧ u.worker ≠ .exited)
    (fun _ _ _ ha hI hu => ⟨session_step ha hI.1 hu,session_worker_inside hI.1 hI.2 ha hu⟩)
    ⟨hstart,by simp [State.session]⟩ (along_of_forall has) hrun
  refine ⟨session_worker_enabled hs hinside,?_,fun bs t => session_served hs⟩
  have hqueue := hs.dispatched_length
  have hlen := hs.inv.holds.length_le
  omega

/-- Both pipelines serve every accepted entry, with at most the queue ahead of it. -/
theorem both_pipelines_sessionServed (config : SlotPipelineConfig) (config' : IqPipelineConfig) :
    SessionServed 32 (slotIqPipeline config) ∧ SessionServed 64 (iqPipeline config') :=
  ⟨sessionServed (slotIqPipeline config),sessionServed (iqPipeline config')⟩

theorem both_pipelines_sessionServed_wrap :
    ∃ s t, run (step (slotIqPipeline {})) wrapStart (wrapRun.take 11) = some s ∧
      run (step (slotIqPipeline {})) s (List.replicate 12 .worker) = some t ∧
      s.hist.accepted.length = 2 ∧ s.hist.dispatched = [] ∧
      s.hist.accepted <+: t.hist.dispatched.map Prod.fst := by
  refine ⟨_,_,rfl,rfl,rfl,rfl,?_⟩
  exact ((both_pipelines_sessionServed {} {}).1 ℕ true true wrapStart.ring 0 4294967294 (fun _ => {})
    (wrapRun.take 11) _ rfl (by decide) rfl).served (List.replicate 12 .worker) _ (by decide) rfl
    (by decide)

end Pipeline
end E3Controller
