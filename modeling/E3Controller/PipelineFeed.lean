import E3Controller.PipelineLifecycle

/-!
# A pipeline and the channel that feeds it

The codelet writes each sample to a free buffer and sends the buffer; the channel
may lose its oldest buffers and delivers the others in order. Samples are queued by
pointer, so what a consumer gets is what its buffer holds when the worker reads it.
`FedInv` says that this is always a sample that was sent, in the order of sending,
and one that passed the filter of `process_buffers`.
-/

namespace E3Controller
namespace Pipeline

open SpscRing LabelledRun

variable {β α μ : Type}

/-- `channel` holds the buffers sent and not yet delivered; `sent` and `taken` record
the samples that were sent and those that the worker dispatched. -/
structure Fed (β α μ : Type) where
  pipe : State β α μ
  channel : List β := []
  sent : List α := []
  taken : List α := []

inductive FeedAction (β α : Type)
  | output (b : β) (a : α)
  | lose (n : ℕ)
  | deliver (n : ℕ)
  | act (a : Action β α)
  deriving DecidableEq, Repr

/-- Writing and delivering buffers is left to the channel. -/
def Action.byChannel : Action β α → Bool
  | .fill _ _ => true
  | .deliver _ => true
  | _ => false

def PollPc.placing : PollPc β μ → List β
  | .haveHead _ b _ _ => [b]
  | .haveTail _ b _ _ _ => [b]
  | .entryWritten _ b _ _ => [b]
  | _ => []

/-- Buffers that `process_buffers` has decided to keep and nobody has taken yet. -/
def committed (s : State β α μ) : List β := (undispatched s).map QueueEntry.buf ++ s.poll.placing

def Kept (k : Kind α μ) (s : State β α μ) : Prop := ∀ b ∈ committed s, k.keep (s.mem b) = true

section Feed

variable [DecidableEq β] (k : Kind α μ)

def feedStep (s : Fed β α μ) : FeedAction β α → Option (Fed β α μ)
  | .output b a =>
    if b ∈ s.channel then none
    else (step k s.pipe (.fill b a)).map fun pipe => { s with
      pipe := pipe
      channel := s.channel ++ [b]
      sent := s.sent ++ [a] }
  | .lose n => some { s with channel := s.channel.drop n }
  | .deliver n => (step k s.pipe (.deliver (s.channel.take n))).map fun pipe => { s with
      pipe := pipe
      channel := s.channel.drop n }
  | .act a =>
    if a.byChannel then none
    else (step k s.pipe a).map fun pipe => { s with
      pipe := pipe
      taken := s.taken ++ (dispatchedBy k s.pipe a).map Prod.snd }

end Feed

/-- The buffers between the codelet and the consumers, oldest first. -/
def inTransit (s : Fed β α μ) : List β := waiting s.pipe ++ s.channel

/-- What was taken, followed by what the buffers in transit hold, is a selection of
what was sent, in order; all that was taken had been kept. -/
structure FedInv (k : Kind α μ) (s : Fed β α μ) : Prop where
  inv : Inv k s.pipe
  kept : Kept k s.pipe
  order : (s.taken ++ (inTransit s).map s.pipe.mem).Sublist s.sent
  taken : ∀ a ∈ s.taken, k.keep a = true

section Kept

variable {k : Kind α μ} {s t : State β α μ} {a : Action β α}

theorem committed_owned (h : Inv k s) {b : β} (hb : b ∈ committed s) : b ∈ s.hist.owned := by
  rcases List.mem_append.mp hb with hb | hb
  · obtain ⟨e,he,rfl⟩ := List.mem_map.mp hb
    exact h.undispatched_owned he
  · refine h.pending_owned ?_
    cases hp : s.poll <;> simp_all [PollPc.placing,PollPc.pending]

theorem Kept.of_subset (hk : Kept k s) (hmem : t.mem = s.mem)
    (hsub : ∀ b ∈ committed t, b ∈ committed s) : Kept k t := by
  intro b hb
  rw [hmem]
  exact hk b (hsub b hb)

theorem committed_of_none (hp : t.poll.placing = []) (hu : undispatched t = undispatched s) :
    ∀ b ∈ committed t, b ∈ committed s := by
  intro b hb
  rw [committed,hp,hu,List.append_nil] at hb
  exact List.mem_append_left _ hb

theorem committed_of_enqueue {e : QueueEntry β} (hp : t.poll.placing = [])
    (hu : undispatched t = undispatched s ++ [e]) (hplace : s.poll.placing = [e.buf]) :
    ∀ b ∈ committed t, b ∈ committed s := by
  intro b hb
  rw [committed,hp,hu,List.append_nil,List.map_append,List.map_singleton] at hb
  rwa [committed,hplace]

variable [DecidableEq β]

theorem undispatched_subset (h : Inv k s) (ht : step k s a = some t) (hp : t.poll = s.poll) :
    ∀ e ∈ undispatched t, e ∈ undispatched s := by
  intro e he
  cases step_flow h ht with
  | silent _ hu => rwa [← hu]
  | hand _ _ _ _ hu => rwa [← hu]
  | discard b hpend =>
    rw [hp] at hpend
    exact absurd (congrArg List.length hpend) (by simp)
  | enqueue e' hpend =>
    rw [hp] at hpend
    exact absurd (congrArg List.length hpend) (by simp)
  | dispatch e' _ _ hu =>
    rw [hu]
    exact List.mem_cons_of_mem _ he
  | drain e' _ _ hu =>
    rw [hu]
    exact List.mem_cons_of_mem _ he
  | spawn _ _ hu => rwa [← hu]

theorem committed_subset (h : Inv k s) (ht : step k s a = some t) (hp : t.poll = s.poll) :
    ∀ b ∈ committed t, b ∈ committed s := by
  intro b hb
  unfold committed at hb ⊢
  rw [hp] at hb
  rcases List.mem_append.mp hb with hb | hb
  · obtain ⟨e,he,rfl⟩ := List.mem_map.mp hb
    exact List.mem_append_left _ (List.mem_map_of_mem (undispatched_subset h ht hp e he))
  · exact List.mem_append_right _ hb

theorem pollStep_kept {ok : Bool} {ts : UInt64} (h : Inv k s) (hk : Kept k s)
    (ht : pollStep k s ok ts = some t) : Kept k t := by
  have hpoll := h.poll
  cases pollStep_move ht with
  | loadHead pc hkeep =>
    intro b hb
    rcases List.mem_append.mp hb with hb | hb
    · exact hk b (List.mem_append_left _ hb)
    · rw [List.mem_singleton.mp hb]
      exact hkeep
  | publish pc =>
    simp only [PollInv,pc] at hpoll
    refine hk.of_subset rfl (committed_of_enqueue rfl
      (List.drop_append_of_le_length (taken_le h)) ?_)
    rw [pc,hpoll.2.2]
    rfl
  | loadTail pc | write pc =>
    refine hk.of_subset rfl fun b hb => ?_
    rw [committed,pc]
    exact hb
  | skipConfig pc | beginConfig pc | endConfig pc | send pc | sendFailed pc | readClock pc | done pc
  | filter pc | reject pc => exact hk.of_subset rfl (committed_of_none rfl rfl)

theorem kept_step (h : Inv k s) (hk : Kept k s) (ht : step k s a = some t) : Kept k t := by
  cases a with
  | fill b v =>
    cases fill_move ht with
    | fill free =>
      intro c hc
      have hne : c ≠ b := fun he => free (he ▸ committed_owned h hc)
      have hsame : Function.update s.mem b v c = s.mem c := Function.update_of_ne hne ..
      exact (congrArg k.keep hsame).trans (hk c hc)
  | deliver bufs =>
    cases deliver_move ht with
    | hand => exact hk.of_subset rfl (committed_of_none rfl rfl)
    | unclaimed => exact hk
  | poll ok ts => exact pollStep_kept h hk ht
  | worker =>
    have hp : t.poll = s.poll := by cases workerStep_move ht <;> rfl
    exact hk.of_subset (step_mem (by simp) ht) (committed_subset h ht hp)
  | callStart =>
    have hp : t.poll = s.poll := by cases callStart_move ht <;> rfl
    exact hk.of_subset (step_mem (by simp) ht) (committed_subset h ht hp)
  | callStop =>
    have hp : t.poll = s.poll := by cases callStop_move ht <;> rfl
    exact hk.of_subset (step_mem (by simp) ht) (committed_subset h ht hp)
  | control ok =>
    have hp : t.poll = s.poll := by cases controlStep_move ht <;> rfl
    exact hk.of_subset (step_mem (by simp) ht) (committed_subset h ht hp)

end Kept

section Fed

variable {k : Kind α μ} {s t : Fed β α μ}

theorem FedInv.taken_sublist_sent (h : FedInv k s) : s.taken.Sublist s.sent :=
  (List.sublist_append_left _ _).trans h.order

/-- A step that neither sends nor takes keeps the invariant if nothing in transit is
added, moved or rewritten. -/
theorem FedInv.quiet (h : FedInv k s) (hinv : Inv k t.pipe) (hkept : Kept k t.pipe)
    (hsent : t.sent = s.sent) (htaken : t.taken = s.taken) (hmem : t.pipe.mem = s.pipe.mem)
    (htransit : (inTransit t).Sublist (inTransit s)) : FedInv k t where
  inv := hinv
  kept := hkept
  order := by
    rw [hsent,htaken,hmem]
    exact ((htransit.map _).append_left _).trans h.order
  taken := by
    rw [htaken]
    exact h.taken

variable [DecidableEq β]

theorem output_fedInv {b : β} {a : α} (h : FedInv k s) (ht : feedStep k s (.output b a) = some t) :
    FedInv k t := by
  simp only [feedStep] at ht
  split at ht
  · cases ht
  next hchannel =>
    obtain ⟨pipe,hfill,rfl⟩ := Option.map_eq_some_iff.mp ht
    have hinv := step_inv h.inv hfill
    have hkept := kept_step h.inv h.kept hfill
    cases fill_move hfill with
    | fill free =>
      have hfresh : b ∉ inTransit s := by
        intro hb
        rcases List.mem_append.mp hb with hb | hb
        · exact free (h.inv.waiting_owned hb)
        · exact hchannel hb
      have hsame :
          (inTransit s).map (Function.update s.pipe.mem b a) = (inTransit s).map s.pipe.mem := by
        refine List.map_congr_left fun x hx => Function.update_of_ne ?_ a s.pipe.mem
        rintro rfl
        exact hfresh hx
      refine ⟨hinv,hkept,?_,h.taken⟩
      change (s.taken ++ (waiting s.pipe ++ (s.channel ++ [b])).map
        (Function.update s.pipe.mem b a)).Sublist (s.sent ++ [a])
      rw [← List.append_assoc,List.map_append,List.map_singleton,Function.update_self,
        ← List.append_assoc]
      refine List.Sublist.append ?_ (List.Sublist.refl _)
      change (s.taken ++ (inTransit s).map _).Sublist _
      rw [hsame]
      exact h.order

theorem deliver_fedInv {n : ℕ} (h : FedInv k s) (ht : feedStep k s (.deliver n) = some t) :
    FedInv k t := by
  obtain ⟨pipe,hdeliver,rfl⟩ := Option.map_eq_some_iff.mp ht
  refine h.quiet (step_inv h.inv hdeliver) (kept_step h.inv h.kept hdeliver) rfl rfl
    (step_mem (by simp) hdeliver) ?_
  cases deliver_move hdeliver with
  | hand pc =>
    -- the batch moves from the channel to the poll thread
    simp only [inTransit,waiting,pc,PollPc.pending,List.append_nil,List.append_assoc,
      List.take_append_drop]
    exact List.Sublist.refl _
  | unclaimed => exact (List.drop_sublist n s.channel).append_left _

omit [DecidableEq β] in
theorem dispatch_undispatched {p : State β α μ} {tail : BitVec 64} (h : Inv k p)
    (hw : p.worker = .dispatch tail) :
    p.ring.slots (slotIndex k.logCapacity tail) ∈ undispatched p := by
  have hworker := h.worker
  simp only [WorkerInv,hw] at hworker
  obtain ⟨rfl,hne⟩ := hworker
  obtain ⟨e,q,hq⟩ := List.exists_cons_of_ne_nil hne
  have hz := control_ahead_eq_zero h.control (by rw [hw]; simp)
  have hs := h.holds
  rw [hq] at hs
  rw [hs.slot_tail,undispatched,hw,hz,hq]
  exact List.mem_cons_self

theorem dispatch_fedInv {tail : BitVec 64} (h : FedInv k s) (hw : s.pipe.worker = .dispatch tail)
    (ht : feedStep k s (.act .worker) = some t) : FedInv k t := by
  obtain ⟨pipe,hwork,rfl⟩ := Option.map_eq_some_iff.mp ht
  have hmem := step_mem (by simp) hwork
  have hwaiting := dispatch_waiting h.inv hw hwork
  have htaken : (dispatchedBy k s.pipe .worker).map Prod.snd =
      [s.pipe.mem (s.pipe.ring.slots (slotIndex k.logCapacity tail)).buf] := by
    simp [dispatchedBy,hw]
  refine ⟨step_inv h.inv hwork,kept_step h.inv h.kept hwork,?_,?_⟩
  · have horder := h.order
    rw [inTransit,hwaiting] at horder
    simp only [inTransit,hmem,htaken,List.append_assoc,List.singleton_append]
    simpa using horder
  · intro a ha
    rcases List.mem_append.mp ha with ha | ha
    · exact h.taken a ha
    · rw [htaken,List.mem_singleton] at ha
      rw [ha]
      refine h.kept _ (List.mem_append_left _ (List.mem_map_of_mem ?_))
      exact dispatch_undispatched h.inv hw

theorem act_fedInv {a : Action β α} (h : FedInv k s) (ht : feedStep k s (.act a) = some t) :
    FedInv k t := by
  by_cases hd : dispatchedBy k s.pipe a = []
  · simp only [feedStep] at ht
    split at ht
    · cases ht
    next hchannel =>
      obtain ⟨pipe,hact,rfl⟩ := Option.map_eq_some_iff.mp ht
      have hfill : ∀ b v, a ≠ .fill b v := by
        rintro b v rfl
        exact hchannel rfl
      have hdeliver : ∀ bufs, a ≠ .deliver bufs := by
        rintro bufs rfl
        exact hchannel rfl
      refine h.quiet (step_inv h.inv hact) (kept_step h.inv h.kept hact) rfl ?_ (step_mem hfill hact)
        ((step_waiting h.inv hdeliver hact).append_right _)
      rw [hd,List.map_nil,List.append_nil]
  · cases a with
    | worker =>
      cases hw : s.pipe.worker with
      | dispatch tail => exact dispatch_fedInv h hw ht
      | _ => simp [dispatchedBy,hw] at hd
    | _ => exact absurd rfl hd

theorem fed_step {a : FeedAction β α} (h : FedInv k s) (ht : feedStep k s a = some t) :
    FedInv k t := by
  cases a with
  | output b a => exact output_fedInv h ht
  | lose n =>
    cases ht
    exact h.quiet h.inv h.kept rfl rfl rfl ((List.drop_sublist n s.channel).append_left _)
  | deliver n => exact deliver_fedInv h ht
  | act a => exact act_fedInv h ht

omit [DecidableEq β] in
theorem constructed_fedInv (k : Kind α μ) (ring : Ring 64 (QueueEntry β)) (dropped : UInt64)
    (total : UInt32) (mem : β → α) (h : ring.head = ring.tail) :
    FedInv k ({ pipe := State.constructed ring dropped total mem } : Fed β α μ) where
  inv := constructed_inv k ring dropped total mem h
  kept := fun b hb => by cases hb
  order := List.Sublist.refl _
  taken := fun a ha => by cases ha

end Fed

end Pipeline
end E3Controller
