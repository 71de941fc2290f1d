import Mathlib.Data.List.Perm.Basic
import E3Controller.PipelineMoves

/-!
# The queue invariant, for every interleaving

`Inv` relates the counters, the masked slots, each thread's stale reads and the
ownership of every buffer. It holds in all states of all runs, with the control
thread stopping and restarting the pipeline at any point; the session and
shutdown results build on it.
-/

namespace E3Controller
namespace Pipeline

open SpscRing

variable {β α μ : Type}

/-- Buffers of the batch that the poll thread has not placed yet. -/
def PollPc.pending : PollPc β μ → List β
  | .idle => []
  | .handler bufs => bufs
  | .sendConfig _ bufs => bufs
  | .readClock bufs => bufs
  | .loop _ bufs => bufs
  | .haveHead _ b bufs _ => b :: bufs
  | .haveTail _ b bufs _ _ => b :: bufs
  | .entryWritten _ b bufs _ => b :: bufs

/-- Queue entries already released although the tail has not moved past them. -/
def WorkerPc.ahead : WorkerPc → ℕ
  | .storeTail _ => 1
  | _ => 0

/-- Queue entries already dispatched although the tail has not moved past them. -/
def WorkerPc.taken : WorkerPc → ℕ
  | .release _ => 1
  | .storeTail _ => 1
  | _ => 0

theorem WorkerPc.ahead_le_taken (w : WorkerPc) : w.ahead ≤ w.taken := by
  cases w <;> simp [WorkerPc.ahead,WorkerPc.taken]

/-- Queue entries the drain loop of `stop` is past. -/
def ControlPc.ahead (tail : BitVec 64) : ControlPc → ℕ
  | .stopDrain t _ => (t - tail).toNat
  | .stopStore h => (h - tail).toNat
  | _ => 0

def releasedAhead (s : State β α μ) : ℕ := s.worker.ahead + s.control.ahead s.ring.tail

def live (s : State β α μ) : List β :=
  s.poll.pending ++ (s.hist.queued.drop (releasedAhead s)).map QueueEntry.buf

/-- The producer's reads: its head is current, its tail may be stale but only
overestimates the fill level, and a written entry is not published yet. -/
def PollInv (k : Kind α μ) (s : State β α μ) : Prop :=
  match s.poll with
  | .haveHead _ _ _ head => head = s.ring.head
  | .haveTail _ _ _ head tail => head = s.ring.head ∧
      s.hist.queued.length ≤ (head - tail).toNat ∧ (head - tail).toNat ≤ 2 ^ k.logCapacity
  | .entryWritten _ b _ head => head = s.ring.head ∧
      s.hist.queued.length < 2 ^ k.logCapacity ∧
      (s.ring.slots (slotIndex k.logCapacity head)).buf = b
  | _ => True

/-- The consumer's reads: its tail is current, and past the test the queue is not empty. -/
def WorkerInv (s : State β α μ) : Prop :=
  match s.worker with
  | .loadHead tail => tail = s.ring.tail
  | .dispatch tail => tail = s.ring.tail ∧ s.hist.queued ≠ []
  | .release tail => tail = s.ring.tail ∧ s.hist.queued ≠ []
  | .storeTail tail => tail = s.ring.tail ∧ s.hist.queued ≠ []
  | _ => True

/-- `stop` drains only after the worker is gone, and `start` spawns only one. -/
def ControlInv (s : State β α μ) : Prop :=
  match s.control with
  | .idle => s.running = false → s.worker = .absent
  | .startLoad => s.worker = .absent
  | .startLoaded => s.worker = .absent
  | .startReset => s.worker = .absent
  | .startRunning => s.worker = .absent
  | .startWorker => s.worker = .absent ∧ s.running = true
  | .startRegister => s.running = true
  | .stopHead => s.worker = .absent
  | .stopTail head => s.worker = .absent ∧
      ∃ n, n ≤ s.hist.queued.length ∧ head = s.ring.tail + BitVec.ofNat 64 n
  | .stopDrain tail head => s.worker = .absent ∧
      ∃ m n, m ≤ n ∧ n ≤ s.hist.queued.length ∧
        tail = s.ring.tail + BitVec.ofNat 64 m ∧ head = s.ring.tail + BitVec.ofNat 64 n
  | .stopStore head => s.worker = .absent ∧
      ∃ n, n ≤ s.hist.queued.length ∧ head = s.ring.tail + BitVec.ofNat 64 n
  | .stopUnload => s.worker = .absent
  | _ => True

/-- The invariant of every reachable state. The last two fields are the
ownership account: every buffer handed over is released by exactly one party or
still owned, and the owned buffers are the live ones. -/
structure Inv (k : Kind α μ) (s : State β α μ) : Prop where
  holds : Holds k.logCapacity s.ring s.hist.queued
  poll : PollInv k s
  worker : WorkerInv s
  control : ControlInv s
  nodup : s.hist.owned.Nodup
  owned : s.hist.owned.Perm (live s)
  handed : s.hist.handed.Perm
    (s.hist.filtered ++ s.hist.rejected ++ s.hist.released ++ s.hist.drained ++ s.hist.owned)

theorem control_ahead_eq_zero {s : State β α μ} (h : ControlInv s) (hw : s.worker ≠ .absent) :
    s.control.ahead s.ring.tail = 0 := by
  unfold ControlInv at h
  cases hc : s.control <;> simp_all [ControlPc.ahead]

theorem constructed_inv (k : Kind α μ) (ring : Ring 64 (QueueEntry β)) (dropped : UInt64)
    (total : UInt32) (mem : β → α) (h : ring.head = ring.tail) :
    Inv k (State.constructed ring dropped total mem : State β α μ) where
  holds := Holds.nil h
  poll := trivial
  worker := trivial
  control := fun _ => rfl
  nodup := List.nodup_nil
  owned := List.Perm.refl _
  handed := List.Perm.refl _

theorem mem_of_perm_live {owned pre post : List β} {b : β} (h : owned.Perm (pre ++ b :: post)) :
    b ∈ owned := by
  rw [h.mem_iff]
  simp

theorem ahead_stopDrain {k : Kind α μ} {s : State β α μ} (h : Inv k s) {m : ℕ}
    (hm : m ≤ s.hist.queued.length) :
    (s.ring.tail + BitVec.ofNat 64 m - s.ring.tail).toNat = m :=
  add_sub_toNat k.logCapacity_lt s.ring.tail (hm.trans h.holds.length_le)

theorem control_ahead_le {k : Kind α μ} {s : State β α μ} (h : Inv k s) :
    s.control.ahead s.ring.tail ≤ s.hist.queued.length := by
  have hc := h.control
  unfold ControlInv at hc
  cases hp : s.control with
  | stopDrain tail head =>
    rw [hp] at hc
    obtain ⟨-,m,n,hmn,hn,rfl,-⟩ := hc
    have hm := hmn.trans hn
    simpa only [ControlPc.ahead,ahead_stopDrain h hm] using hm
  | stopStore head =>
    rw [hp] at hc
    obtain ⟨-,n,hn,rfl⟩ := hc
    simpa only [ControlPc.ahead,ahead_stopDrain h hn] using hn
  | _ => simp [ControlPc.ahead]

theorem taken_le {k : Kind α μ} {s : State β α μ} (h : Inv k s) :
    s.worker.taken + s.control.ahead s.ring.tail ≤ s.hist.queued.length := by
  have hw := h.worker
  by_cases ha : s.worker = .absent
  · simpa only [ha,WorkerPc.taken,Nat.zero_add] using control_ahead_le h
  · rw [control_ahead_eq_zero h.control ha,Nat.add_zero]
    unfold WorkerInv at hw
    cases hp : s.worker with
    | release tail =>
      rw [hp] at hw
      exact List.length_pos_iff.mpr hw.2
    | storeTail tail =>
      rw [hp] at hw
      exact List.length_pos_iff.mpr hw.2
    | _ => simp [WorkerPc.taken]

theorem releasedAhead_le {k : Kind α μ} {s : State β α μ} (h : Inv k s) :
    releasedAhead s ≤ s.hist.queued.length :=
  (Nat.add_le_add_right s.worker.ahead_le_taken _).trans (taken_le h)

/-- The capacity test on a stale tail still leaves room in the queue. -/
theorem room_of_not_full (k : Kind α μ) {d : BitVec 64} {n : ℕ} (hn : n ≤ d.toNat)
    (hd : ¬ d ≥ BitVec.ofNat 64 (2 ^ k.logCapacity)) : n < 2 ^ k.logCapacity := by
  have hpow : 2 ^ k.logCapacity < 2 ^ 64 := Nat.pow_lt_pow_right (by omega) k.logCapacity_lt
  rw [ge_iff_le,BitVec.le_def,BitVec.toNat_ofNat,Nat.mod_eq_of_lt hpow] at hd
  omega

/-- The poll thread's facts survive whatever the other threads take out of the queue. -/
theorem pollInv_of_le {k : Kind α μ} {s t : State β α μ} (h : PollInv k s)
    (hp : t.poll = s.poll) (hhead : t.ring.head = s.ring.head) (hslots : t.ring.slots = s.ring.slots)
    (hq : t.hist.queued.length ≤ s.hist.queued.length) : PollInv k t := by
  unfold PollInv at h ⊢
  rw [hp,hhead,hslots]
  cases hpc : s.poll with
  | haveHead ts b bufs head => rwa [hpc] at h
  | haveTail ts b bufs head tail =>
    rw [hpc] at h
    exact ⟨h.1,hq.trans h.2.1,h.2.2⟩
  | entryWritten ts b bufs head =>
    rw [hpc] at h
    exact ⟨h.1,lt_of_le_of_lt hq h.2.1,h.2.2⟩
  | _ => trivial

theorem controlInv_of_le {s t : State β α μ} (h : ControlInv s) (hc : t.control = s.control)
    (hw : t.worker = s.worker) (hr : t.running = s.running) (htail : t.ring.tail = s.ring.tail)
    (hq : s.hist.queued.length ≤ t.hist.queued.length) : ControlInv t := by
  unfold ControlInv at h ⊢
  rw [hc,hw,hr,htail]
  cases hp : s.control with
  | stopTail head =>
    rw [hp] at h
    obtain ⟨ha,n,hn,hhead⟩ := h
    exact ⟨ha,n,hn.trans hq,hhead⟩
  | stopDrain tail head =>
    rw [hp] at h
    obtain ⟨ha,m,n,hm,hn,he⟩ := h
    exact ⟨ha,m,n,hm,hn.trans hq,he⟩
  | stopStore head =>
    rw [hp] at h
    obtain ⟨ha,n,hn,hhead⟩ := h
    exact ⟨ha,n,hn.trans hq,hhead⟩
  | _ => rwa [hp] at h

theorem controlInv_worker {s : State β α μ} {w w' : WorkerPc} (h : ControlInv s)
    (hw : s.worker = w) (hne : w ≠ .absent) : ControlInv { s with worker := w' } := by
  unfold ControlInv at h ⊢
  cases hp : s.control <;> simp_all

theorem workerInv_of_ne_nil {s t : State β α μ} (h : WorkerInv s) (hw : t.worker = s.worker)
    (htail : t.ring.tail = s.ring.tail) (hq : s.hist.queued ≠ [] → t.hist.queued ≠ []) :
    WorkerInv t := by
  unfold WorkerInv at h ⊢
  rw [hw,htail]
  cases hp : s.worker with
  | dispatch tail =>
    rw [hp] at h
    exact ⟨h.1,hq h.2⟩
  | release tail =>
    rw [hp] at h
    exact ⟨h.1,hq h.2⟩
  | storeTail tail =>
    rw [hp] at h
    exact ⟨h.1,hq h.2⟩
  | _ => rwa [hp] at h

section Accounting

variable [DecidableEq β]

theorem perm_release {handed parts parts' owned : List β} {b : β}
    (h : handed.Perm (parts ++ owned)) (hb : b ∈ owned) (hp : parts'.Perm (b :: parts)) :
    handed.Perm (parts' ++ owned.erase b) := by
  have h₁ : (parts ++ owned).Perm (parts ++ b :: owned.erase b) :=
    (List.perm_cons_erase hb).append_left parts
  have h₂ : (parts ++ b :: owned.erase b).Perm (b :: parts ++ owned.erase b) := List.perm_middle
  exact h.trans (h₁.trans (h₂.trans (hp.symm.append_right _)))

theorem perm_erase_live {owned pre post : List β} {b : β} (h : owned.Perm (pre ++ b :: post)) :
    (owned.erase b).Perm (pre ++ post) := by
  have h₁ := (h.trans List.perm_middle).erase b
  rwa [List.erase_cons_head] at h₁

end Accounting

section Steps

variable [DecidableEq β] {k : Kind α μ} {s t : State β α μ}

theorem fill_inv {b : β} {a : α} (h : Inv k s) (ht : fill s b a = some t) : Inv k t := by
  cases fill_move ht with
  | fill => exact { h with }

theorem deliver_inv {bufs : List β} (h : Inv k s) (ht : deliver s bufs = some t) : Inv k t := by
  cases deliver_move ht with
  | hand pc hfresh =>
    have ho := h.owned
    simp only [live,pc,PollPc.pending,List.nil_append] at ho
    refine { h with poll := trivial, nodup := ?_, owned := ?_, handed := ?_ }
    · rw [List.nodup_append]
      refine ⟨h.nodup,hfresh.2.1,?_⟩
      rintro x hx y hy rfl
      exact hfresh.2.2 x hy hx
    · exact (ho.append_right bufs).trans List.perm_append_comm
    · simpa only [List.append_assoc] using h.handed.append_right bufs
  | unclaimed => exact h

/-- What the poll thread may release: the first pending buffer is owned, and
without it the rest of the live list is owned. -/
theorem Inv.pending_cons (h : Inv k s) {b : β} {bufs : List β} (hp : s.poll.pending = b :: bufs) :
    b ∈ s.hist.owned ∧ (s.hist.owned.erase b).Perm
      (bufs ++ (s.hist.queued.drop (releasedAhead s)).map QueueEntry.buf) := by
  have ho := h.owned
  rw [live,hp,List.cons_append] at ho
  have ho' : s.hist.owned.Perm
      ([] ++ b :: (bufs ++ (s.hist.queued.drop (releasedAhead s)).map QueueEntry.buf)) := ho
  have hperm := perm_erase_live ho'
  exact ⟨mem_of_perm_live ho',hperm⟩

theorem enqueue_inv {ts : UInt64} {b : β} {bufs : List β} {head : BitVec 64} (h : Inv k s)
    (hp : s.poll = .entryWritten ts b bufs head) (ok : Bool) (now : UInt64)
    (ht : pollStep k s ok now = some t) : Inv k t := by
  simp only [pollStep,hp,Option.some.injEq] at ht
  subst ht
  have hpoll := h.poll
  simp only [PollInv,hp] at hpoll
  obtain ⟨rfl,hroom,hbuf⟩ := hpoll
  have ho := h.owned
  simp only [live,hp,PollPc.pending] at ho
  refine { h with holds := ?_, poll := trivial, worker := ?_, control := ?_, owned := ?_ }
  · exact h.holds.publish hroom
  · exact workerInv_of_ne_nil h.worker rfl rfl (by simp)
  · exact controlInv_of_le h.control rfl rfl rfl rfl (by simp)
  · have hle := releasedAhead_le h
    change s.hist.owned.Perm (bufs ++ List.map QueueEntry.buf (List.drop (releasedAhead s)
      (s.hist.queued ++ [s.ring.slots (slotIndex k.logCapacity s.ring.head)])))
    rw [List.drop_append_of_le_length hle,List.map_append,List.map_singleton,hbuf,
      ← List.append_assoc]
    exact ho.trans (List.perm_append_singleton _ _).symm

theorem pollStep_inv {ok : Bool} {ts : UInt64} (h : Inv k s) (ht : pollStep k s ok ts = some t) :
    Inv k t := by
  have hpoll := h.poll
  have ho := h.owned
  cases pollStep_move ht with
  | skipConfig pc | beginConfig pc | endConfig pc | send pc | sendFailed pc | readClock pc | done pc =>
    simp only [live,pc,PollPc.pending] at ho
    exact { h with poll := trivial, owned := ho }
  | loadHead pc =>
    simp only [live,pc,PollPc.pending] at ho
    exact { h with poll := rfl, owned := ho }
  | filter pc =>
    obtain ⟨hb,he⟩ := h.pending_cons (congrArg PollPc.pending pc)
    refine { h with poll := trivial, nodup := h.nodup.erase _, owned := he, handed := ?_ }
    refine perm_release h.handed hb ?_
    simp only [List.append_assoc,List.singleton_append]
    exact List.perm_middle
  | loadTail pc =>
    simp only [live,pc,PollPc.pending] at ho
    simp only [PollInv,pc] at hpoll
    subst hpoll
    have hd := h.holds.distance k.logCapacity_lt
    exact { h with poll := ⟨rfl,hd.ge,hd.le.trans h.holds.length_le⟩, owned := ho }
  | reject pc =>
    obtain ⟨hb,he⟩ := h.pending_cons (congrArg PollPc.pending pc)
    refine { h with poll := trivial, nodup := h.nodup.erase _, owned := he, handed := ?_ }
    refine perm_release h.handed hb ?_
    simp only [List.append_assoc,List.singleton_append]
    exact (List.perm_middle.append_left _).trans List.perm_middle
  | write pc hroom =>
    simp only [live,pc,PollPc.pending] at ho
    simp only [PollInv,pc] at hpoll
    obtain ⟨rfl,hlow,-⟩ := hpoll
    have hlt := room_of_not_full k hlow hroom
    refine { h with holds := h.holds.write k.logCapacity_lt hlt _, poll := ?_, owned := ho }
    exact ⟨rfl,hlt,by simp [newEntry]⟩
  | publish pc => exact enqueue_inv h pc ok ts ht

omit [DecidableEq β] in
theorem Inv.worker_entry (h : Inv k s) {tail : BitVec 64} (hw : s.worker = .release tail) :
    ∃ q, s.hist.queued = s.ring.slots (slotIndex k.logCapacity tail) :: q ∧
      tail = s.ring.tail ∧ s.control.ahead s.ring.tail = 0 := by
  have hworker := h.worker
  simp only [WorkerInv,hw] at hworker
  obtain ⟨rfl,hne⟩ := hworker
  obtain ⟨e,q,hq⟩ := List.exists_cons_of_ne_nil hne
  have hs := h.holds
  rw [hq] at hs
  refine ⟨q,?_,rfl,control_ahead_eq_zero h.control (by rw [hw]; simp)⟩
  rw [hs.slot_tail,hq]

theorem release_inv {tail : BitVec 64} (h : Inv k s) (hw : s.worker = .release tail)
    (ht : workerStep k s = some t) : Inv k t := by
  obtain ⟨q,hq,rfl,hz⟩ := h.worker_entry hw
  have ho := h.owned
  simp only [live,releasedAhead,hw,WorkerPc.ahead,hz,Nat.add_zero,List.drop_zero,hq,
    List.map_cons] at ho
  have hmem := mem_of_perm_live ho
  have hperm := perm_erase_live ho
  simp only [workerStep,hw,Option.some.injEq] at ht
  subst ht
  refine { h with worker := ?_, control := ?_, nodup := h.nodup.erase _, owned := ?_, handed := ?_ }
  · exact ⟨rfl,by simp [hq]⟩
  · exact controlInv_worker h.control hw (by simp)
  · simpa only [live,releasedAhead,WorkerPc.ahead,hz,Nat.add_zero,hq,List.drop_succ_cons,
      List.drop_zero] using hperm
  · refine perm_release h.handed hmem ?_
    simp only [List.append_assoc,List.singleton_append]
    exact ((List.perm_middle.append_left _).append_left _).trans
      ((List.perm_middle.append_left _).trans List.perm_middle)

theorem storeTail_inv {tail : BitVec 64} (h : Inv k s) (hw : s.worker = .storeTail tail)
    (ht : workerStep k s = some t) : Inv k t := by
  have hworker := h.worker
  simp only [WorkerInv,hw] at hworker
  obtain ⟨rfl,hne⟩ := hworker
  have hz := control_ahead_eq_zero h.control (by rw [hw]; simp)
  simp only [workerStep,hw,Option.some.injEq] at ht
  subst ht
  have ho := h.owned
  simp only [live,releasedAhead,hw,WorkerPc.ahead,hz,Nat.add_zero] at ho
  have hadv := h.holds.advance (n := 1) (List.length_pos_iff.mpr hne)
  rw [List.drop_one] at hadv
  refine { h with holds := hadv, poll := ?_, worker := trivial, control := ?_, owned := ?_ }
  · exact pollInv_of_le h.poll rfl rfl rfl (by simp)
  · have hc := h.control
    unfold ControlInv at hc ⊢
    cases hp : s.control <;> simp_all
  · have hz' : s.control.ahead (s.ring.tail + 1) = 0 := by
      have hc := h.control
      unfold ControlInv at hc
      cases hp : s.control <;> simp_all [ControlPc.ahead]
    simpa only [live,releasedAhead,WorkerPc.ahead,hz',Nat.add_zero,List.drop_zero,
      ← List.drop_one] using ho

theorem workerStep_inv (h : Inv k s) (ht : workerStep k s = some t) : Inv k t := by
  have hworker := h.worker
  have hc := h.control
  have ho := h.owned
  cases workerStep_move ht with
  | enter pc | leave pc | empty pc =>
    simp only [live,releasedAhead,pc,WorkerPc.ahead] at ho
    exact { h with worker := trivial, control := controlInv_worker hc pc (by simp), owned := ho }
  | loadTail pc =>
    simp only [live,releasedAhead,pc,WorkerPc.ahead] at ho
    exact { h with worker := rfl, control := controlInv_worker hc pc (by simp), owned := ho }
  | found pc hbehind =>
    simp only [live,releasedAhead,pc,WorkerPc.ahead] at ho
    simp only [WorkerInv,pc] at hworker
    subst hworker
    have hq : s.hist.queued ≠ [] := fun he =>
      hbehind ((h.holds.head_eq_tail_iff k.logCapacity_lt).mpr he)
    exact { h with
      worker := ⟨rfl,hq⟩, control := controlInv_worker hc pc (by simp), owned := ho }
  | dispatch pc =>
    simp only [live,releasedAhead,pc,WorkerPc.ahead] at ho
    simp only [WorkerInv,pc] at hworker
    exact { h with
      worker := hworker, control := controlInv_worker hc pc (by simp), owned := ho }
  | release pc => exact release_inv h pc ht
  | storeTail pc => exact storeTail_inv h pc ht

omit [DecidableEq β] in
theorem callStart_inv (h : Inv k s) (ht : callStart k s = some t) : Inv k t := by
  have hc := h.control
  have ho := h.owned
  cases callStart_move ht with
  | already => exact h
  | load pc hstopped | reset pc hstopped =>
    simp only [ControlInv,pc] at hc
    simp only [live,releasedAhead,pc,ControlPc.ahead] at ho
    exact { h with control := hc (by simpa using hstopped), owned := ho }

omit [DecidableEq β] in
theorem callStop_inv (h : Inv k s) (ht : callStop s = some t) : Inv k t := by
  have ho := h.owned
  cases callStop_move ht with
  | stop pc =>
    simp only [live,releasedAhead,pc,ControlPc.ahead] at ho
    exact { h with control := trivial, owned := ho }
  | already => exact h

theorem drain_inv {tail head : BitVec 64} (h : Inv k s) (hp : s.control = .stopDrain tail head)
    (hne : tail ≠ head) (ok : Bool) (ht : controlStep k s ok = some t) : Inv k t := by
  have hc := h.control
  simp only [ControlInv,hp] at hc
  obtain ⟨ha,m,n,hmn,hn,rfl,rfl⟩ := hc
  have hlt : m < n := lt_of_le_of_ne hmn fun he => hne (by rw [he])
  have hm : m < s.hist.queued.length := lt_of_lt_of_le hlt hn
  have hahead : releasedAhead s = m := by
    simp only [releasedAhead,ha,hp,WorkerPc.ahead,ControlPc.ahead,Nat.zero_add,
      ahead_stopDrain h hm.le]
  have hentry := h.holds.slot_eq m hm
  have ho := h.owned
  rw [live,hahead,List.drop_eq_getElem_cons hm,List.map_cons,← hentry] at ho
  have hmem := mem_of_perm_live ho
  have hperm := perm_erase_live ho
  simp only [controlStep,hp,hne,if_false,Option.some.injEq] at ht
  subst ht
  have hnext : s.ring.tail + BitVec.ofNat 64 m + 1 = s.ring.tail + BitVec.ofNat 64 (m + 1) :=
    add_ofNat_add_ofNat s.ring.tail m 1
  refine { h with control := ?_, nodup := h.nodup.erase _, owned := ?_, handed := ?_ }
  · exact ⟨ha,m + 1,n,hlt,hn,hnext,rfl⟩
  · simpa only [live,releasedAhead,ha,WorkerPc.ahead,ControlPc.ahead,Nat.zero_add,hnext,
      ahead_stopDrain h hm] using hperm
  · refine perm_release h.handed hmem ?_
    rw [← List.append_assoc]
    exact List.perm_append_singleton _ _

theorem drainStore_inv {head : BitVec 64} (h : Inv k s) (hp : s.control = .stopStore head)
    (ok : Bool) (ht : controlStep k s ok = some t) : Inv k t := by
  have hc := h.control
  simp only [ControlInv,hp] at hc
  obtain ⟨ha,n,hn,rfl⟩ := hc
  have hahead := ahead_stopDrain h hn
  have ho := h.owned
  simp only [live,releasedAhead,ha,hp,WorkerPc.ahead,ControlPc.ahead,Nat.zero_add,hahead] at ho
  simp only [controlStep,hp,hahead,Option.some.injEq] at ht
  subst ht
  refine { h with holds := h.holds.advance hn, poll := ?_, worker := ?_, control := ha, owned := ?_ }
  · exact pollInv_of_le h.poll rfl rfl rfl (by simp)
  · simp only [WorkerInv,ha]
  · simpa only [live,releasedAhead,ha,WorkerPc.ahead,ControlPc.ahead,Nat.add_zero,
      List.drop_zero] using ho

theorem controlStep_inv {ok : Bool} (h : Inv k s) (ht : controlStep k s ok = some t) :
    Inv k t := by
  have hc := h.control
  have ho := h.owned
  cases controlStep_move ht with
  | load pc | loaded pc | reset pc =>
    simp only [ControlInv,pc] at hc
    simp only [live,releasedAhead,pc,ControlPc.ahead] at ho
    exact { h with control := hc, owned := ho }
  | loadFailed pc | unload pc | keepUnloaded pc =>
    simp only [ControlInv,pc] at hc
    simp only [live,releasedAhead,pc,ControlPc.ahead] at ho
    exact { h with control := fun _ => hc, owned := ho }
  | run pc =>
    simp only [ControlInv,pc] at hc
    simp only [live,releasedAhead,pc,ControlPc.ahead] at ho
    exact { h with control := ⟨hc,rfl⟩, owned := ho }
  | spawn pc =>
    simp only [ControlInv,pc] at hc
    simp only [live,releasedAhead,pc,hc.1,ControlPc.ahead,WorkerPc.ahead] at ho
    exact { h with worker := trivial, control := hc.2, owned := ho }
  | register pc =>
    simp only [ControlInv,pc] at hc
    simp only [live,releasedAhead,pc,ControlPc.ahead] at ho
    refine { h with control := ?_, owned := ho }
    intro hr
    rw [hc] at hr
    cases hr
  | unregister pc | halt pc =>
    simp only [live,releasedAhead,pc,ControlPc.ahead] at ho
    exact { h with control := trivial, owned := ho }
  | join pc hgone =>
    have hz : s.worker.ahead = 0 := by
      rcases hgone with hw | hw <;> simp [hw,WorkerPc.ahead]
    simp only [live,releasedAhead,pc,ControlPc.ahead,hz] at ho
    exact { h with worker := trivial, control := rfl, owned := ho }
  | loadHead pc =>
    simp only [ControlInv,pc] at hc
    simp only [live,releasedAhead,pc,ControlPc.ahead] at ho
    exact { h with control := ⟨hc,_,le_refl _,h.holds.head_eq⟩, owned := ho }
  | loadTail pc =>
    simp only [ControlInv,pc] at hc
    obtain ⟨ha,n,hn,rfl⟩ := hc
    simp only [live,releasedAhead,pc,ControlPc.ahead] at ho
    refine { h with control := ⟨ha,0,n,Nat.zero_le n,hn,?_,rfl⟩, owned := ?_ }
    · exact (BitVec.add_zero _).symm
    · simpa only [live,releasedAhead,ControlPc.ahead,BitVec.sub_self,BitVec.toNat_zero] using ho
  | drained pc =>
    simp only [ControlInv,pc] at hc
    obtain ⟨ha,m,n,-,hn,-,hhead⟩ := hc
    simp only [live,releasedAhead,pc,ControlPc.ahead] at ho
    exact { h with control := ⟨ha,n,hn,hhead⟩, owned := ho }
  | drain pc hbehind => exact drain_inv h pc hbehind ok ht
  | storeTail pc => exact drainStore_inv h pc ok ht

theorem step_inv {a : Action β α} (h : Inv k s) (ht : step k s a = some t) : Inv k t := by
  cases a with
  | fill b a => exact fill_inv h ht
  | deliver bufs => exact deliver_inv h ht
  | poll ok ts => exact pollStep_inv h ht
  | worker => exact workerStep_inv h ht
  | callStart => exact callStart_inv h ht
  | callStop => exact callStop_inv h ht
  | control ok => exact controlStep_inv h ht

theorem run_inv {as : List (Action β α)} (h : Inv k s)
    (hrun : LabelledRun.run (step k) s as = some t) : Inv k t :=
  LabelledRun.run_invariant_of_step (fun _ _ _ => step_inv) h hrun

end Steps

end Pipeline
end E3Controller
