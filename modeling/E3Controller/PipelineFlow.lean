import E3Controller.PipelineInvariant

/-!
# What one step does to the buffers on their way

`Flow` lists, for any label of any thread, the only ways in which the entries
between the poll thread and the consumers can change: a batch comes in, a
pending buffer is dropped or enqueued, and the oldest entry is dispatched or
drained. The session, shutdown and end-to-end results use it instead of the
transition function.
-/

namespace E3Controller
namespace Pipeline

open SpscRing

variable {β α μ : Type}

/-- Queue entries that neither a worker nor `stop` has taken yet. -/
def undispatched (s : State β α μ) : List (QueueEntry β) :=
  s.hist.queued.drop (s.worker.taken + s.control.ahead s.ring.tail)

/-- The buffers on their way to the consumers, oldest first. -/
def waiting (s : State β α μ) : List β := (undispatched s).map QueueEntry.buf ++ s.poll.pending

theorem Inv.undispatched_owned {k : Kind α μ} {s : State β α μ} (h : Inv k s) {e : QueueEntry β}
    (he : e ∈ undispatched s) : e.buf ∈ s.hist.owned := by
  have hle : releasedAhead s ≤ s.worker.taken + s.control.ahead s.ring.tail :=
    Nat.add_le_add_right s.worker.ahead_le_taken _
  have hsub : e ∈ s.hist.queued.drop (releasedAhead s) := List.drop_subset_drop_left _ hle he
  rw [h.owned.mem_iff,live,List.mem_append]
  exact Or.inr (List.mem_map_of_mem hsub)

theorem Inv.pending_owned {k : Kind α μ} {s : State β α μ} (h : Inv k s) {b : β}
    (hb : b ∈ s.poll.pending) : b ∈ s.hist.owned := by
  rw [h.owned.mem_iff,live,List.mem_append]
  exact Or.inl hb

/-- The effect of one step on pending buffers, queue entries and session logs. -/
inductive Flow (s t : State β α μ) : Prop
  | silent (pending : t.poll.pending = s.poll.pending)
      (undispatched : undispatched t = undispatched s)
      (accepted : t.hist.accepted = s.hist.accepted)
      (dispatched : t.hist.dispatched = s.hist.dispatched)
  | hand (bufs : List β) (empty : s.poll.pending = []) (pending : t.poll.pending = bufs)
      (registered : s.registered = true)
      (undispatched : undispatched t = undispatched s)
      (accepted : t.hist.accepted = s.hist.accepted)
      (dispatched : t.hist.dispatched = s.hist.dispatched)
  | discard (b : β) (pending : s.poll.pending = b :: t.poll.pending)
      (undispatched : undispatched t = undispatched s)
      (accepted : t.hist.accepted = s.hist.accepted)
      (dispatched : t.hist.dispatched = s.hist.dispatched)
  | enqueue (e : QueueEntry β) (pending : s.poll.pending = e.buf :: t.poll.pending)
      (undispatched : undispatched t = undispatched s ++ [e])
      (accepted : t.hist.accepted = s.hist.accepted ++ [e])
      (dispatched : t.hist.dispatched = s.hist.dispatched)
  | dispatch (e : QueueEntry β) (present : s.worker ≠ .absent)
      (pending : t.poll.pending = s.poll.pending)
      (undispatched : undispatched s = e :: undispatched t)
      (accepted : t.hist.accepted = s.hist.accepted)
      (dispatched : t.hist.dispatched = s.hist.dispatched ++ [(e,s.mem e.buf)])
  | drain (e : QueueEntry β) (absent : s.worker = .absent)
      (pending : t.poll.pending = s.poll.pending)
      (undispatched : undispatched s = e :: undispatched t)
      (accepted : t.hist.accepted = s.hist.accepted)
      (dispatched : t.hist.dispatched = s.hist.dispatched)
  | spawn (control : s.control = .startWorker) (pending : t.poll.pending = s.poll.pending)
      (undispatched : undispatched t = undispatched s)
      (accepted : t.hist.accepted = []) (dispatched : t.hist.dispatched = [])

section Steps

variable [DecidableEq β] {k : Kind α μ} {s t : State β α μ}

theorem deliver_flow {bufs : List β} (ht : deliver s bufs = some t) : Flow s t := by
  cases deliver_move ht with
  | hand pc _ hregistered => exact .hand bufs (by rw [pc]; rfl) rfl hregistered rfl rfl rfl
  | unclaimed => exact .silent rfl rfl rfl rfl

theorem pollStep_flow {ok : Bool} {ts : UInt64} (h : Inv k s) (ht : pollStep k s ok ts = some t) :
    Flow s t := by
  have hpoll := h.poll
  cases pollStep_move ht with
  | filter pc | reject pc => exact .discard _ (by rw [pc]; rfl) rfl rfl rfl
  | publish pc =>
    simp only [PollInv,pc] at hpoll
    refine .enqueue _ ?_ ?_ rfl rfl
    · rw [pc,hpoll.2.2]
      rfl
    · exact List.drop_append_of_le_length (taken_le h)
  | skipConfig pc | beginConfig pc | endConfig pc | send pc | sendFailed pc | readClock pc | done pc
  | loadHead pc | loadTail pc | write pc => exact .silent (by rw [pc]; rfl) rfl rfl rfl

theorem workerStep_flow (h : Inv k s) (ht : workerStep k s = some t) : Flow s t := by
  have hworker := h.worker
  cases workerStep_move ht with
  | dispatch pc hread =>
    simp only [WorkerInv,pc] at hworker
    obtain ⟨rfl,hne⟩ := hworker
    obtain ⟨e,q,hq⟩ := List.exists_cons_of_ne_nil hne
    have hz := control_ahead_eq_zero h.control (by rw [pc]; simp)
    have hs := h.holds
    rw [hq] at hs
    obtain rfl := hs.slot_tail.symm.trans hread
    refine .dispatch e (by rw [pc]; simp) rfl ?_ rfl rfl
    simp only [undispatched,pc,hz,hq,WorkerPc.taken,Nat.add_zero,List.drop_zero,List.drop_one,
      List.tail_cons]
  | storeTail pc =>
    have hz := control_ahead_eq_zero h.control (by rw [pc]; simp)
    have hz' := control_ahead_eq_zero (storeTail_inv h pc ht).control
    refine .silent rfl ?_ rfl rfl
    simp only [undispatched,pc,hz,hz' (by simp),WorkerPc.taken,Nat.add_zero,List.drop_zero,
      List.drop_one]
  | enter pc | leave pc | loadTail pc | empty pc | found pc | release pc =>
    exact .silent rfl (by simp only [undispatched,pc,WorkerPc.taken]) rfl rfl

omit [DecidableEq β] in
theorem callStart_flow (ht : callStart k s = some t) : Flow s t := by
  cases callStart_move ht with
  | already => exact .silent rfl rfl rfl rfl
  | load pc | reset pc => exact .silent rfl (by simp only [undispatched,pc,ControlPc.ahead]) rfl rfl

omit [DecidableEq β] in
theorem callStop_flow (ht : callStop s = some t) : Flow s t := by
  cases callStop_move ht with
  | stop pc => exact .silent rfl (by simp only [undispatched,pc,ControlPc.ahead]) rfl rfl
  | already => exact .silent rfl rfl rfl rfl

theorem drain_flow {tail head : BitVec 64} {ok : Bool} (h : Inv k s)
    (hp : s.control = .stopDrain tail head) (hne : tail ≠ head)
    (ht : controlStep k s ok = some t) : Flow s t := by
  have hc := h.control
  simp only [ControlInv,hp] at hc
  obtain ⟨ha,m,n,hmn,hn,rfl,rfl⟩ := hc
  have hm : m < s.hist.queued.length :=
    lt_of_lt_of_le (lt_of_le_of_ne hmn fun he => hne (by rw [he])) hn
  have hnext : s.ring.tail + BitVec.ofNat 64 m + 1 = s.ring.tail + BitVec.ofNat 64 (m + 1) :=
    add_ofNat_add_ofNat s.ring.tail m 1
  simp only [controlStep,hp,hne,if_false,Option.some.injEq] at ht
  subst ht
  refine .drain s.hist.queued[m] ha rfl ?_ rfl rfl
  simp only [undispatched,ha,hp,WorkerPc.taken,ControlPc.ahead,Nat.zero_add,hnext,
    ahead_stopDrain h hm.le,ahead_stopDrain h hm]
  exact List.drop_eq_getElem_cons hm

theorem controlStep_flow {ok : Bool} (h : Inv k s) (ht : controlStep k s ok = some t) :
    Flow s t := by
  have hc := h.control
  cases controlStep_move ht with
  | spawn pc =>
    simp only [ControlInv,pc] at hc
    refine .spawn pc rfl ?_ rfl rfl
    simp only [undispatched,pc,hc.1,ControlPc.ahead,WorkerPc.taken]
  | join pc hgone =>
    refine .silent rfl ?_ rfl rfl
    rcases hgone with hw | hw
    · simp only [undispatched,pc,hw,ControlPc.ahead,WorkerPc.taken]
    · simp only [undispatched,pc,hw,ControlPc.ahead,WorkerPc.taken]
  | loadTail pc =>
    refine .silent rfl ?_ rfl rfl
    simp only [undispatched,pc,ControlPc.ahead,BitVec.sub_self,BitVec.toNat_zero]
  | drain pc hbehind => exact drain_flow h pc hbehind ht
  | storeTail pc =>
    simp only [ControlInv,pc] at hc
    obtain ⟨ha,n,hn,rfl⟩ := hc
    refine .silent rfl ?_ rfl rfl
    simp only [undispatched,pc,ha,ControlPc.ahead,WorkerPc.taken,Nat.add_zero,Nat.zero_add,
      List.drop_zero]
  | load pc | loadFailed pc | loaded pc | reset pc | run pc | register pc | unregister pc | halt pc
  | loadHead pc | drained pc | unload pc | keepUnloaded pc =>
    exact .silent rfl (by simp only [undispatched,pc,ControlPc.ahead]) rfl rfl

theorem step_flow {a : Action β α} (h : Inv k s) (ht : step k s a = some t) : Flow s t := by
  cases a with
  | fill b a =>
    cases fill_move ht
    exact .silent rfl rfl rfl rfl
  | deliver bufs => exact deliver_flow ht
  | poll ok ts => exact pollStep_flow h ht
  | worker => exact workerStep_flow h ht
  | callStart => exact callStart_flow ht
  | callStop => exact callStop_flow ht
  | control ok => exact controlStep_flow h ht

theorem step_pending {a : Action β α} (ha : ∀ bufs, a ≠ .deliver bufs) (ht : step k s a = some t) :
    t.poll.pending <:+ s.poll.pending := by
  cases a with
  | fill b x =>
    cases fill_move ht
    exact List.suffix_refl _
  | deliver bufs => exact absurd rfl (ha bufs)
  | poll ok ts =>
    cases pollStep_move ht with
    | filter pc | reject pc | publish pc =>
      rw [pc]
      exact List.suffix_cons _ _
    | skipConfig pc | beginConfig pc | endConfig pc | send pc | sendFailed pc | readClock pc | done pc
    | loadHead pc | loadTail pc | write pc =>
      rw [pc]
      exact List.suffix_refl _
  | worker => cases workerStep_move ht <;> exact List.suffix_refl _
  | callStart => cases callStart_move ht <;> exact List.suffix_refl _
  | callStop => cases callStop_move ht <;> exact List.suffix_refl _
  | control ok => cases controlStep_move ht <;> exact List.suffix_refl _

omit [DecidableEq β] in
theorem Inv.waiting_owned (h : Inv k s) {b : β} (hb : b ∈ waiting s) : b ∈ s.hist.owned := by
  rcases List.mem_append.mp hb with hb | hb
  · obtain ⟨e,he,rfl⟩ := List.mem_map.mp hb
    exact h.undispatched_owned he
  · exact h.pending_owned hb

/-- Without a delivery the waiting buffers can only become fewer, in place. -/
theorem step_waiting {a : Action β α} (h : Inv k s) (ha : ∀ bufs, a ≠ .deliver bufs)
    (ht : step k s a = some t) : (waiting t).Sublist (waiting s) := by
  have hpending := step_pending ha ht
  unfold waiting
  cases step_flow h ht with
  | silent hp hu _ _ => rw [hp,hu]
  | hand bufs hempty hp _ hu _ _ =>
    rw [hempty] at hpending
    rw [hempty,hu,List.suffix_nil.mp hpending]
  | discard b hp hu _ _ =>
    rw [hp,hu]
    exact (List.sublist_cons_self b _).append_left _
  | enqueue e hp hu _ _ =>
    rw [hp,hu,List.map_append,List.append_assoc]
    exact List.Sublist.refl _
  | dispatch e _ hp hu _ _ =>
    rw [hp,hu]
    exact List.sublist_cons_self _ _
  | drain e _ hp hu _ _ =>
    rw [hp,hu]
    exact List.sublist_cons_self _ _
  | spawn _ hp hu _ _ => rw [hp,hu]

/-- The worker dispatches the buffer that has been waiting longest. -/
theorem dispatch_waiting {tail : BitVec 64} (h : Inv k s) (hw : s.worker = .dispatch tail)
    (ht : step k s .worker = some t) :
    waiting s = (s.ring.slots (slotIndex k.logCapacity tail)).buf :: waiting t := by
  have hdisp : t.hist.dispatched = s.hist.dispatched ++
      [(s.ring.slots (slotIndex k.logCapacity tail),
        s.mem (s.ring.slots (slotIndex k.logCapacity tail)).buf)] := by
    simp only [step,workerStep,hw] at ht
    cases ht
    rfl
  have hne : t.hist.dispatched ≠ s.hist.dispatched := by
    rw [hdisp]
    simp
  cases step_flow h ht with
  | silent _ _ _ hd => exact absurd hd hne
  | hand _ _ _ _ _ _ hd => exact absurd hd hne
  | discard _ _ _ _ hd => exact absurd hd hne
  | enqueue _ _ _ _ hd => exact absurd hd hne
  | dispatch e _ hp hu _ hd =>
    rw [hdisp,List.append_cancel_left_eq,List.cons.injEq,Prod.mk.injEq] at hd
    unfold waiting
    rw [hp,hu,hd.1.1]
    rfl
  | drain _ _ _ _ _ hd => exact absurd hd hne
  | spawn _ _ _ _ hd =>
    rw [hdisp] at hd
    simp at hd

theorem step_mem {a : Action β α} (ha : ∀ b x, a ≠ .fill b x) (ht : step k s a = some t) :
    t.mem = s.mem := by
  cases a with
  | fill b x => exact absurd rfl (ha b x)
  | deliver bufs => cases deliver_move ht <;> rfl
  | poll ok ts => cases pollStep_move ht <;> rfl
  | worker => cases workerStep_move ht <;> rfl
  | callStart => cases callStart_move ht <;> rfl
  | callStop => cases callStop_move ht <;> rfl
  | control ok => cases controlStep_move ht <;> rfl

end Steps

end Pipeline
end E3Controller
