import E3Controller.PipelineFlow

/-!
# One running session

From the moment `start` has registered the stream until somebody calls `stop`,
only the poll thread, the worker and the codelet side take steps. `Session` is
the invariant of such runs on top of `Inv`: accepted entries are the dispatched
ones followed by the queue, the counters count, and sample ids are handed out
one after another.
-/

namespace E3Controller
namespace Pipeline

open SpscRing SlotApi

variable {β α μ : Type}

/-- A pipeline whose `start` has just returned, with counters at any equal value. -/
def State.session (loaded sent : Bool) (ring : Ring 64 (QueueEntry β)) (dropped : UInt64)
    (total : UInt32) (mem : β → α) : State β α μ where
  registered := true
  running := true
  codeletsLoaded := loaded
  configSent := sent
  ring := ring
  dropped := dropped
  totalSamplesReceived := total
  mem := mem
  poll := .idle
  worker := .loopTop
  control := .idle
  hist := {}

def Action.inSession : Action β α → Bool
  | .callStart => false
  | .callStop => false
  | .control _ => false
  | _ => true

def sampleIds (total : UInt32) (n : ℕ) : List UInt32 :=
  (List.range n).map fun i => total + 1 + UInt32.ofNat i

theorem sampleIds_succ (total : UInt32) (n : ℕ) :
    sampleIds total (n + 1) = sampleIds total n ++ [total + 1 + UInt32.ofNat n] := by
  simp [sampleIds,List.range_succ]

theorem sampleIds_take (total : UInt32) {m n : ℕ} (h : m ≤ n) :
    (sampleIds total n).take m = sampleIds total m := by
  rw [sampleIds,← List.map_take,List.take_range,Nat.min_eq_left h,sampleIds]

structure Counts (k : Kind α μ) (dropped : UInt64) (total : UInt32) (s : State β α μ) : Prop where
  dropped : s.dropped = dropped + UInt64.ofNat s.hist.rejected.length
  ids : s.hist.accepted.map QueueEntry.sampleId = sampleIds total s.hist.accepted.length
  total :
    match s.poll with
    | .entryWritten _ _ _ head =>
      s.totalSamplesReceived = total + 1 + UInt32.ofNat s.hist.accepted.length ∧
        (s.ring.slots (slotIndex k.logCapacity head)).sampleId = s.totalSamplesReceived
    | _ => s.totalSamplesReceived = total + UInt32.ofNat s.hist.accepted.length
  arrival : (s.hist.accepted.map QueueEntry.buf ++ s.poll.pending).Sublist s.hist.handed

structure Session (k : Kind α μ) (dropped : UInt64) (total : UInt32) (s : State β α μ) : Prop where
  inv : Inv k s
  running : s.running = true
  control : s.control = .idle
  worker : s.worker ≠ .absent
  drained : s.hist.drained = []
  fifo : s.hist.accepted = s.hist.dispatched.map Prod.fst ++ undispatched s
  suffix : s.hist.queued <:+ s.hist.accepted
  released : s.hist.accepted.map QueueEntry.buf =
    s.hist.released ++ (s.hist.queued.drop (releasedAhead s)).map QueueEntry.buf
  counts : Counts k dropped total s

theorem session_start (k : Kind α μ) (loaded sent : Bool) (ring : Ring 64 (QueueEntry β))
    (dropped : UInt64) (total : UInt32) (mem : β → α) (h : ring.head = ring.tail) :
    Session k dropped total (State.session loaded sent ring dropped total mem : State β α μ) where
  inv := ⟨Holds.nil h,trivial,trivial,by simp [ControlInv,State.session],List.nodup_nil,
    List.Perm.refl _,List.Perm.refl _⟩
  running := rfl
  control := rfl
  worker := by simp [State.session]
  drained := rfl
  fifo := rfl
  suffix := List.suffix_refl _
  released := rfl
  counts := ⟨by simp [State.session],rfl,by simp [State.session],List.Sublist.refl _⟩

section Steps

variable [DecidableEq β] {k : Kind α μ} {s t : State β α μ} {dropped : UInt64} {total : UInt32}

/-- Poll thread, worker and environment leave the control thread's data alone. -/
theorem inSession_frame {a : Action β α} (ha : a.inSession = true) (ht : step k s a = some t) :
    t.running = s.running ∧ t.control = s.control ∧ t.registered = s.registered ∧
      t.codeletsLoaded = s.codeletsLoaded ∧ t.hist.drained = s.hist.drained := by
  cases a with
  | fill b a =>
    cases fill_move ht
    simp
  | deliver bufs => cases deliver_move ht <;> simp
  | poll ok ts => cases pollStep_move ht <;> simp
  | worker => cases workerStep_move ht <;> simp
  | callStart => cases ha
  | callStop => cases ha
  | control ok => cases ha

theorem workerStep_worker (ht : workerStep k s = some t) : t.worker ≠ .absent := by
  cases workerStep_move ht <;> simp

omit [DecidableEq β] in
theorem fifo_of_flow (hflow : Flow s t) (hw : s.worker ≠ .absent) (hc : s.control ≠ .startWorker)
    (h : s.hist.accepted = s.hist.dispatched.map Prod.fst ++ undispatched s) :
    t.hist.accepted = t.hist.dispatched.map Prod.fst ++ undispatched t := by
  cases hflow with
  | silent _ hu ha hd => rw [ha,hd,hu,h]
  | hand _ _ _ _ hu ha hd => rw [ha,hd,hu,h]
  | discard _ _ hu ha hd => rw [ha,hd,hu,h]
  | enqueue e _ hu ha hd => rw [ha,hd,hu,h,List.append_assoc]
  | dispatch e _ _ hu ha hd =>
    rw [ha,hd,h,hu]
    simp
  | drain e habs => exact absurd habs hw
  | spawn hctl => exact absurd hctl hc

theorem workerStep_counts (h : Counts k dropped total s) (ht : workerStep k s = some t) :
    Counts k dropped total t := by
  cases workerStep_move ht <;> exact { h with }

theorem enqueue_counts {ts : UInt64} {b : β} {bufs : List β} {head : BitVec 64}
    (hinv : Inv k s) (h : Counts k dropped total s) (hp : s.poll = .entryWritten ts b bufs head)
    {ok : Bool} {now : UInt64} (ht : pollStep k s ok now = some t) : Counts k dropped total t := by
  have hpoll := hinv.poll
  have htotal := h.total
  have harr := h.arrival
  simp only [PollInv,hp] at hpoll
  simp only [hp] at htotal
  simp only [hp,PollPc.pending] at harr
  simp only [pollStep,hp,Option.some.injEq] at ht
  subst ht
  refine { h with ids := ?_, total := ?_, arrival := ?_ }
  · simp only [List.map_append,List.map_singleton,List.length_append,List.length_singleton,
      sampleIds_succ,h.ids]
    rw [htotal.2,htotal.1]
  · simp only [List.length_append,List.length_singleton]
    rw [htotal.1,UInt32.ofNat_add,UInt32.add_assoc,UInt32.add_comm 1]
    rfl
  · simpa only [List.map_append,List.map_singleton,hpoll.2.2,PollPc.pending,List.append_assoc,
      List.singleton_append] using harr

omit [DecidableEq β] in
theorem sublist_of_cons {xs bufs handed : List β} {b : β} (h : (xs ++ b :: bufs).Sublist handed) :
    (xs ++ bufs).Sublist handed :=
  ((List.sublist_cons_self b bufs).append_left xs).trans h

theorem pollStep_counts {ok : Bool} {ts : UInt64} (hinv : Inv k s) (h : Counts k dropped total s)
    (ht : pollStep k s ok ts = some t) : Counts k dropped total t := by
  have htotal := h.total
  have harr := h.arrival
  cases pollStep_move ht with
  | filter pc =>
    simp only [pc,PollPc.pending] at htotal harr
    exact { h with total := htotal, arrival := sublist_of_cons harr }
  | reject pc =>
    simp only [pc,PollPc.pending] at htotal harr
    refine { h with dropped := ?_, total := htotal, arrival := sublist_of_cons harr }
    simp only [List.length_append,List.length_singleton]
    rw [h.dropped,UInt64.ofNat_add,UInt64.add_assoc]
    rfl
  | write pc =>
    simp only [pc,PollPc.pending] at htotal harr
    refine { h with total := ⟨?_,?_⟩, arrival := harr }
    · simp only [htotal]
      rw [UInt32.add_assoc,UInt32.add_assoc,UInt32.add_comm 1]
    · simp [newEntry]
  | publish pc => exact enqueue_counts hinv h pc ht
  | skipConfig pc | beginConfig pc | endConfig pc | send pc | sendFailed pc | readClock pc | done pc
  | loadHead pc | loadTail pc =>
    simp only [pc,PollPc.pending] at htotal harr
    exact { h with total := htotal, arrival := harr }

theorem workerStep_released (h : Session k dropped total s) (ht : workerStep k s = some t) :
    t.hist.queued <:+ t.hist.accepted ∧ t.hist.accepted.map QueueEntry.buf =
      t.hist.released ++ (t.hist.queued.drop (releasedAhead t)).map QueueEntry.buf := by
  have hsuf := h.suffix
  have hrel := h.released
  have hctl := h.control
  cases workerStep_move ht with
  | release pc hread =>
    obtain ⟨q,hq,rfl,hz⟩ := h.inv.worker_entry pc
    simp only [releasedAhead,pc,WorkerPc.ahead,hz,Nat.add_zero,List.drop_zero] at hrel
    refine ⟨hsuf,?_⟩
    rw [hq,hread] at hrel
    simpa only [releasedAhead,WorkerPc.ahead,hz,Nat.add_zero,hq,List.drop_succ_cons,List.drop_zero,
      List.append_assoc,List.singleton_append,List.map_cons] using hrel
  | storeTail pc =>
    simp only [releasedAhead,pc,hctl,WorkerPc.ahead,ControlPc.ahead,Nat.add_zero] at hrel
    refine ⟨(List.tail_suffix _).trans hsuf,?_⟩
    simpa only [releasedAhead,hctl,WorkerPc.ahead,ControlPc.ahead,Nat.add_zero,List.drop_zero,
      ← List.drop_one] using hrel
  | enter pc | leave pc | loadTail pc | empty pc | found pc | dispatch pc =>
    simp only [releasedAhead,pc,WorkerPc.ahead] at hrel
    exact ⟨hsuf,hrel⟩

theorem pollStep_released {ok : Bool} {ts : UInt64} (h : Session k dropped total s)
    (ht : pollStep k s ok ts = some t) :
    t.hist.queued <:+ t.hist.accepted ∧ t.hist.accepted.map QueueEntry.buf =
      t.hist.released ++ (t.hist.queued.drop (releasedAhead t)).map QueueEntry.buf := by
  have hsuf := h.suffix
  have hrel := h.released
  have hle := releasedAhead_le h.inv
  cases pollStep_move ht with
  | publish pc =>
    obtain ⟨gone,hgone⟩ := hsuf
    refine ⟨⟨gone,by rw [← hgone,List.append_assoc]⟩,?_⟩
    change List.map QueueEntry.buf (s.hist.accepted ++ [_]) =
      s.hist.released ++ List.map QueueEntry.buf (List.drop (releasedAhead s) (s.hist.queued ++ [_]))
    rw [List.drop_append_of_le_length hle,List.map_append,List.map_append,hrel,List.append_assoc]
  | _ => exact ⟨hsuf,hrel⟩

theorem session_step {a : Action β α} (ha : a.inSession = true) (h : Session k dropped total s)
    (ht : step k s a = some t) : Session k dropped total t := by
  obtain ⟨hr,hc,-,-,hd⟩ := inSession_frame ha ht
  have hinv := step_inv h.inv ht
  have hfifo := fifo_of_flow (step_flow h.inv ht) h.worker (by rw [h.control]; simp) h.fifo
  rw [h.running] at hr
  rw [h.control] at hc
  rw [h.drained] at hd
  cases a with
  | fill b a =>
    cases fill_move ht
    exact { h with inv := hinv, counts := { h.counts with } }
  | deliver bufs =>
    have htotal := h.counts.total
    have harr := h.counts.arrival
    cases deliver_move ht with
    | hand pc =>
      simp only [pc,PollPc.pending,List.append_nil] at htotal harr
      exact { h with
        inv := hinv
        counts := { h.counts with
          total := htotal, arrival := harr.append (List.Sublist.refl bufs) } }
    | unclaimed => exact h
  | poll ok ts =>
    obtain ⟨hsuf,hrel⟩ := pollStep_released h ht
    have hw : t.worker = s.worker := by cases pollStep_move ht <;> rfl
    exact ⟨hinv,hr,hc,hw ▸ h.worker,hd,hfifo,hsuf,hrel,pollStep_counts h.inv h.counts ht⟩
  | worker =>
    obtain ⟨hsuf,hrel⟩ := workerStep_released h ht
    exact ⟨hinv,hr,hc,workerStep_worker ht,hd,hfifo,hsuf,hrel,workerStep_counts h.counts ht⟩
  | callStart => cases ha
  | callStop => cases ha
  | control ok => cases ha

theorem session_run {as : List (Action β α)} (h : Session k dropped total s)
    (has : ∀ a ∈ as, a.inSession = true) (hrun : LabelledRun.run (step k) s as = some t) :
    Session k dropped total t :=
  LabelledRun.run_invariant (C := fun _ a => a.inSession = true)
    (fun _ _ _ ha h ht => session_step ha h ht) h (LabelledRun.along_of_forall has) hrun

end Steps

/-- What a session guarantees of a state, in terms of the counters, the slots
and the logs of what was handed over, accepted, dispatched and released. -/
structure SessionCorrect (capacity : ℕ) (k : Kind α μ) (dropped : UInt64) (total : UInt32)
    (s : State β α μ) : Prop where
  /-- The counters are never more than one capacity apart. -/
  distance_le : (s.ring.head - s.ring.tail).toNat ≤ capacity
  /-- The accepted entries that are not both dispatched and released stand in
  their slots between tail and head. -/
  intact : ∃ gone pending, s.hist.accepted = gone ++ pending ∧
    s.ring.head = s.ring.tail + BitVec.ofNat 64 pending.length ∧
    (∀ i (hi : i < pending.length), s.ring.slots
      ((s.ring.tail + BitVec.ofNat 64 i) &&& BitVec.ofNat 64 (capacity - 1)).toNat = pending[i]) ∧
    gone <+: s.hist.dispatched.map Prod.fst ∧ gone.map QueueEntry.buf <+: s.hist.released
  /-- Dispatch is first in, first out. -/
  dispatched_prefix : s.hist.dispatched.map Prod.fst <+: s.hist.accepted
  accepted_sublist : (s.hist.accepted.map QueueEntry.buf).Sublist s.hist.handed
  /-- Nothing handed over is lost or duplicated. -/
  accepted_perm : s.hist.handed.Perm (s.hist.filtered ++ s.hist.rejected ++
    s.hist.accepted.map QueueEntry.buf ++ s.poll.pending)
  /-- Each hand-over is released at most once and by one party only. -/
  released_perm : s.hist.handed.Perm (s.hist.filtered ++ s.hist.rejected ++
    s.hist.released ++ s.hist.owned)
  owned_nodup : s.hist.owned.Nodup
  released_prefix : s.hist.released <+: s.hist.dispatched.map fun e => e.1.buf
  dropped_eq : s.dropped = dropped + UInt64.ofNat s.hist.rejected.length
  /-- The dispatched ids are consecutive modulo `2^32`. -/
  sampleIds_eq : s.hist.dispatched.map (fun e => e.1.sampleId) =
    sampleIds total s.hist.dispatched.length

namespace Session

variable {k : Kind α μ} {s : State β α μ} {dropped : UInt64} {total : UInt32}

theorem released_prefix_accepted (h : Session k dropped total s) :
    s.hist.released <+: s.hist.accepted.map QueueEntry.buf :=
  ⟨_,h.released.symm⟩

theorem dispatched_prefix_accepted (h : Session k dropped total s) :
    s.hist.dispatched.map Prod.fst <+: s.hist.accepted :=
  ⟨_,h.fifo.symm⟩

theorem accepted_length (h : Session k dropped total s) :
    s.hist.accepted.length + releasedAhead s = s.hist.released.length + s.hist.queued.length := by
  have hlen := congrArg List.length h.released
  have hle := releasedAhead_le h.inv
  simp only [List.length_map,List.length_append,List.length_drop] at hlen
  omega

theorem dispatched_length (h : Session k dropped total s) :
    s.hist.accepted.length + (s.worker.taken + s.control.ahead s.ring.tail) =
      s.hist.dispatched.length + s.hist.queued.length := by
  have hlen := congrArg List.length h.fifo
  have hle := taken_le h.inv
  simp only [undispatched,List.length_map,List.length_append,List.length_drop] at hlen
  omega

theorem released_prefix_dispatched (h : Session k dropped total s) :
    s.hist.released <+: s.hist.dispatched.map fun e => e.1.buf := by
  have hd : (s.hist.dispatched.map fun e => e.1.buf) <+: s.hist.accepted.map QueueEntry.buf := by
    simpa only [List.map_map,Function.comp_def] using h.dispatched_prefix_accepted.map QueueEntry.buf
  refine List.prefix_of_prefix_length_le h.released_prefix_accepted hd ?_
  have h₁ := h.accepted_length
  have h₂ := h.dispatched_length
  have h₃ : releasedAhead s ≤ s.worker.taken + s.control.ahead s.ring.tail :=
    Nat.add_le_add_right s.worker.ahead_le_taken _
  rw [List.length_map]
  omega

theorem accepted_perm (h : Session k dropped total s) :
    s.hist.handed.Perm (s.hist.filtered ++ s.hist.rejected ++
      s.hist.accepted.map QueueEntry.buf ++ s.poll.pending) := by
  have hh := h.inv.handed
  rw [h.drained,List.append_nil] at hh
  refine hh.trans ?_
  rw [h.released]
  have ho : s.hist.owned.Perm ((s.hist.queued.drop (releasedAhead s)).map QueueEntry.buf ++
      s.poll.pending) := h.inv.owned.trans List.perm_append_comm
  simpa only [List.append_assoc] using
    ho.append_left (s.hist.filtered ++ s.hist.rejected ++ s.hist.released)

theorem correct (h : Session k dropped total s) :
    SessionCorrect (2 ^ k.logCapacity) k dropped total s where
  distance_le := (h.inv.holds.distance k.logCapacity_lt).le.trans h.inv.holds.length_le
  intact := by
    obtain ⟨gone,hgone⟩ := h.suffix
    have hlen : gone.length + s.hist.queued.length = s.hist.accepted.length := by
      rw [← hgone,List.length_append]
    have h₁ := h.accepted_length
    have h₂ := h.dispatched_length
    refine ⟨gone,s.hist.queued,hgone.symm,h.inv.holds.head_eq,h.inv.holds.slot_eq,?_,?_⟩
    · refine List.prefix_of_prefix_length_le ⟨_,hgone⟩ h.dispatched_prefix_accepted ?_
      rw [List.length_map]
      omega
    · have hp : gone.map QueueEntry.buf <+: s.hist.accepted.map QueueEntry.buf :=
        List.IsPrefix.map QueueEntry.buf ⟨_,hgone⟩
      refine List.prefix_of_prefix_length_le hp h.released_prefix_accepted ?_
      rw [List.length_map]
      omega
  dispatched_prefix := h.dispatched_prefix_accepted
  accepted_sublist := (List.sublist_append_left _ _).trans h.counts.arrival
  accepted_perm := h.accepted_perm
  released_perm := by simpa only [h.drained,List.append_nil] using h.inv.handed
  owned_nodup := h.inv.nodup
  released_prefix := h.released_prefix_dispatched
  dropped_eq := h.counts.dropped
  sampleIds_eq := by
    have hle : s.hist.dispatched.length ≤ s.hist.accepted.length := by
      simpa using h.dispatched_prefix_accepted.length_le
    have htake : s.hist.dispatched.map Prod.fst = s.hist.accepted.take s.hist.dispatched.length := by
      simpa using List.prefix_iff_eq_take.mp h.dispatched_prefix_accepted
    calc s.hist.dispatched.map (fun e => e.1.sampleId)
        = (s.hist.dispatched.map Prod.fst).map QueueEntry.sampleId := by simp
      _ = (sampleIds total s.hist.accepted.length).take s.hist.dispatched.length := by
          rw [htake,List.map_take,h.counts.ids]
      _ = sampleIds total s.hist.dispatched.length := sampleIds_take total hle

end Session

def SessionSafe (capacity : ℕ) (k : Kind α μ) : Prop :=
  ∀ (β : Type) [DecidableEq β] (loaded sent : Bool) (ring : Ring 64 (QueueEntry β))
    (dropped : UInt64) (total : UInt32) (mem : β → α) (as : List (Action β α)) (s : State β α μ),
    ring.head = ring.tail → (∀ a ∈ as, a.inSession = true) →
    LabelledRun.run (step k) (State.session loaded sent ring dropped total mem) as = some s →
    SessionCorrect capacity k dropped total s

theorem sessionSafe (k : Kind α μ) : SessionSafe (2 ^ k.logCapacity) k := by
  intro β _ loaded sent ring dropped total mem as s hring has hrun
  have hstart := session_start k loaded sent ring dropped total mem hring
  exact (session_run hstart has hrun).correct

/-- Both pipelines, with the capacities the source gives them. -/
theorem both_pipelines_sessionSafe (config : SlotPipelineConfig) (config' : IqPipelineConfig) :
    SessionSafe 32 (slotIqPipeline config) ∧ SessionSafe 64 (iqPipeline config') :=
  ⟨sessionSafe (slotIqPipeline config),sessionSafe (iqPipeline config')⟩

def wrapStart : State ℕ E3SlotDesc SlotMessage :=
  State.session true true ⟨BitVec.allOnes 64,BitVec.allOnes 64,fun _ => ⟨0,0,0,0⟩⟩ 0 4294967294
    fun _ => {}

/-- Two buffers are handed over; the first one is dispatched and released while
the second is still queued. -/
def wrapRun : List (Action ℕ E3SlotDesc) :=
  .deliver [1,2] :: List.replicate 10 (.poll true 5000) ++ List.replicate 6 .worker

theorem both_pipelines_sessionSafe_wrap :
    ∃ s, LabelledRun.run (step (slotIqPipeline {})) wrapStart wrapRun = some s ∧
      s.ring.head = 1 ∧ s.ring.tail = 0 ∧ s.hist.released = [1] ∧
      s.hist.accepted.map QueueEntry.sampleId = [4294967295,0] ∧
      SessionCorrect 32 (slotIqPipeline {}) 0 4294967294 s := by
  refine ⟨_,rfl,rfl,rfl,rfl,rfl,?_⟩
  exact (both_pipelines_sessionSafe {} {}).1 ℕ true true wrapStart.ring 0 4294967294 (fun _ => {})
    wrapRun _ rfl (by decide) rfl

end Pipeline
end E3Controller
