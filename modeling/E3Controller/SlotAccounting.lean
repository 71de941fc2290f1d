import E3Controller.ControllerRefinement
import E3Controller.DropAccounting
import E3Controller.SlotPath

/-!
# The drop accounting of the whole slot path

At the end `main` prints the slots dropped on a full queue and the slots that the service model
published or dropped. A slot that the codelet sent can also be lost in the channel, released by the
dispatcher while no handler is registered, or taken out of the queue by `stop`. No counter records
any of these.
-/

namespace E3Controller
namespace SlotPath

open LabelledRun Config SlotApi SpscRing Pipeline Uplink Shm StageTrace L1Kpm Layer1 E3SMLayer1

section Places

variable {β α μ : Type} {k : Kind α μ} {s t : Pipeline.State β α μ}

def inHand : WorkerPc → ℕ
  | .release _ => 1
  | _ => 0

theorem taken_eq (w : WorkerPc) : w.taken = w.ahead + inHand w := by
  cases w <;> rfl

/-- The buffer that the worker has dispatched and not released yet. -/
def inHandBufs (s : Pipeline.State β α μ) : List β :=
  (s.hist.queued.take (inHand s.worker)).map QueueEntry.buf

def dispatchedBufs (s : Pipeline.State β α μ) : List β := s.hist.released ++ inHandBufs s

theorem queued_split (h : Inv k s) : s.hist.queued.drop (releasedAhead s) =
    s.hist.queued.take (inHand s.worker) ++ undispatched s := by
  cases hw : s.worker with
  | release tail =>
    have hz := control_ahead_eq_zero h.control (by rw [hw]; simp)
    simp [releasedAhead,undispatched,hw,hz,WorkerPc.ahead,WorkerPc.taken,inHand,-List.drop_one]
  | _ => simp [releasedAhead,undispatched,hw,WorkerPc.ahead,WorkerPc.taken,inHand]

theorem handed_perm (h : Inv k s) : s.hist.handed.Perm (s.hist.filtered ++ s.hist.rejected ++
    dispatchedBufs s ++ s.hist.drained ++ waiting s) := by
  classical
  have howned := h.owned
  rw [live,queued_split h,List.map_append] at howned
  have hhanded := List.perm_iff_count.mp h.handed
  have hcount := List.perm_iff_count.mp howned
  rw [List.perm_iff_count]
  intro b
  have hb := hhanded b
  have hb' := hcount b
  simp only [dispatchedBufs,inHandBufs,waiting,List.count_append] at hb hb' ⊢
  omega

variable [DecidableEq β] {a : Action β α}

/-- Every dispatch is released in the end, and nothing else that the worker holds. -/
theorem step_dispatchedBufs (h : Inv k s) (ht : Pipeline.step k s a = some t) :
    dispatchedBufs t = dispatchedBufs s ++ (dispatchedBy k s a).map fun d => d.1.buf := by
  have hle := taken_le h
  have htaken := taken_eq s.worker
  cases a with
  | fill b v =>
    cases fill_move ht
    exact (List.append_nil _).symm
  | deliver bufs => cases deliver_move ht <;> exact (List.append_nil _).symm
  | poll ok ts =>
    cases pollStep_move ht with
    | publish =>
      simp only [dispatchedBufs,inHandBufs,dispatchedBy,List.map_nil,List.append_nil]
      rw [List.take_append_of_le_length (by omega)]
    | _ => exact (List.append_nil _).symm
  | worker =>
    have hworker := h.worker
    cases workerStep_move ht with
    | dispatch pc hread =>
      simp only [WorkerInv,pc] at hworker
      obtain ⟨rfl,hne⟩ := hworker
      obtain ⟨e,q,hq⟩ := List.exists_cons_of_ne_nil hne
      have hs := h.holds
      rw [hq] at hs
      simp [dispatchedBufs,inHandBufs,dispatchedBy,pc,inHand,hq,hs.slot_tail]
    | release pc hread =>
      obtain ⟨q,hq,-⟩ := h.worker_entry pc
      simp [dispatchedBufs,inHandBufs,dispatchedBy,pc,inHand,hq,hread]
    | enter pc | leave pc | loadTail pc | empty pc | found pc | storeTail pc =>
      simp [dispatchedBufs,inHandBufs,dispatchedBy,pc,inHand]
  | callStart => cases callStart_move ht <;> exact (List.append_nil _).symm
  | callStop => cases callStop_move ht <;> exact (List.append_nil _).symm
  | control ok =>
    have hcontrol := h.control
    cases controlStep_move ht with
    | spawn pc =>
      simp only [ControlInv,pc] at hcontrol
      simp [dispatchedBufs,inHandBufs,dispatchedBy,hcontrol.1,inHand]
    | join pc gone =>
      rcases gone with gone | gone <;> simp [dispatchedBufs,inHandBufs,dispatchedBy,gone,inHand]
    | storeTail pc =>
      simp only [ControlInv,pc] at hcontrol
      simp [dispatchedBufs,inHandBufs,dispatchedBy,hcontrol.1,inHand]
    | _ => exact (List.append_nil _).symm

theorem step_records (ht : Pipeline.step k s a = some t) :
    s.hist.rejected <+: t.hist.rejected ∧ s.hist.drained <+: t.hist.drained := by
  have hsame : s.hist.rejected <+: s.hist.rejected ∧ s.hist.drained <+: s.hist.drained :=
    ⟨List.prefix_refl _,List.prefix_refl _⟩
  cases a with
  | fill b v =>
    cases fill_move ht
    exact hsame
  | deliver bufs => cases deliver_move ht <;> exact hsame
  | poll ok ts =>
    cases pollStep_move ht with
    | reject => exact ⟨List.prefix_append _ _,hsame.2⟩
    | _ => exact hsame
  | worker => cases workerStep_move ht <;> exact hsame
  | callStart => cases callStart_move ht <;> exact hsame
  | callStop => cases callStop_move ht <;> exact hsame
  | control ok =>
    cases controlStep_move ht with
    | drain => exact ⟨hsame.1,List.prefix_append _ _⟩
    | _ => exact hsame

/-- The counter of a full queue follows the buffers that `process_buffers` released. -/
theorem step_rejected (ht : Pipeline.step k s a = some t)
    (hs : s.dropped = UInt64.ofNat s.hist.rejected.length) :
    t.dropped = UInt64.ofNat t.hist.rejected.length := by
  cases a with
  | fill b v =>
    cases fill_move ht
    exact hs
  | deliver bufs => cases deliver_move ht <;> exact hs
  | poll ok ts =>
    cases pollStep_move ht with
    | reject =>
      rw [List.length_append,UInt64.ofNat_add]
      exact congrArg (· + 1) hs
    | _ => exact hs
  | worker => cases workerStep_move ht <;> exact hs
  | callStart => cases callStart_move ht <;> exact hs
  | callStop => cases callStop_move ht <;> exact hs
  | control ok => cases controlStep_move ht <;> exact hs

theorem step_filtered (hkeep : ∀ d, k.keep d = true) (ht : Pipeline.step k s a = some t) :
    t.hist.filtered = s.hist.filtered := by
  cases a with
  | fill b v =>
    cases fill_move ht
    rfl
  | deliver bufs => cases deliver_move ht <;> rfl
  | poll ok ts =>
    cases pollStep_move ht with
    | filter _ hdropped => exact absurd (hkeep _) hdropped
    | _ => rfl
  | worker => cases workerStep_move ht <;> rfl
  | callStart => cases callStart_move ht <;> rfl
  | callStop => cases callStop_move ht <;> rfl
  | control ok => cases controlStep_move ht <;> rfl

def added (before after : List β) : List β := after.drop before.length

omit [DecidableEq β] in
@[simp] theorem added_self (l : List β) : added l l = [] :=
  List.drop_length

omit [DecidableEq β] in
theorem append_added {before after : List β} (h : before <+: after) :
    before ++ added before after = after :=
  List.prefix_iff_eq_append.mp h

/-- A buffer stops waiting by being dispatched, rejected or drained, in the step that records it. -/
theorem step_waiting_perm (hkeep : ∀ d, k.keep d = true) (h : Inv k s)
    (ha : ∀ bufs, a ≠ .deliver bufs) (ht : Pipeline.step k s a = some t) :
    (waiting s).Perm (added s.hist.rejected t.hist.rejected ++ added s.hist.drained t.hist.drained ++
      (dispatchedBy k s a).map (fun d => d.1.buf) ++ waiting t) := by
  have hbefore := List.perm_iff_count.mp (handed_perm h)
  have hafter := List.perm_iff_count.mp (handed_perm (step_inv h ht))
  have hrejected := append_added (step_records ht).1
  have hdrained := append_added (step_records ht).2
  rw [(Controller.step_owned ha ht).2,step_filtered hkeep ht,step_dispatchedBufs h ht,← hrejected,
    ← hdrained] at hafter
  rw [List.perm_iff_count]
  intro b
  have hb := (hbefore b).symm.trans (hafter b)
  simp only [List.count_append] at hb ⊢
  omega

end Places

section Audit

variable {β ω : Type}

/-- The path with the slots that it keeps no descriptors of: those the channel lost, those the
dispatcher released itself, those dropped on a full queue, those `stop` took out of the queue, and
those the encoder refused. -/
structure Audited (β ω : Type) where
  path : PathState β ω
  lost : List E3SlotDesc := []
  unclaimed : List E3SlotDesc := []
  rejected : List E3SlotDesc := []
  drained : List E3SlotDesc := []
  unencodable : List E3SlotDesc := []

variable [DecidableEq β] (p : Platform ω) (k : Kind E3SlotDesc SlotMessage)

omit [DecidableEq β] in
def refusedBy (s : PathState β ω) : PathAction β → List E3SlotDesc
  | .worker a =>
    match s.pipe.worker with
    | .dispatch tail =>
      let entry := s.pipe.ring.slots (slotIndex k.logCapacity tail)
      let d := s.pipe.mem entry.buf
      if s.sm.unencodable (dispatchSample entry d) a then [d] else []
    | _ => []
  | _ => []

omit [DecidableEq β] in
def lostBy (s : PathState β ω) : PathAction β → List E3SlotDesc
  | .lose n => (s.channel.take n).map s.pipe.mem
  | _ => []

omit [DecidableEq β] in
def unclaimedBy (s : PathState β ω) : PathAction β → List E3SlotDesc
  | .deliver n => if s.pipe.registered then [] else (s.channel.take n).map s.pipe.mem
  | _ => []

omit [DecidableEq β] in
def rejectedBy (s t : PathState β ω) : List E3SlotDesc :=
  (added s.pipe.hist.rejected t.pipe.hist.rejected).map s.pipe.mem

omit [DecidableEq β] in
def drainedBy (s t : PathState β ω) : List E3SlotDesc :=
  (added s.pipe.hist.drained t.pipe.hist.drained).map s.pipe.mem

def auditStep (s : Audited β ω) (a : PathAction β) : Option (Audited β ω) :=
  (pathStep p k s.path a).map fun path => {
    path := path
    lost := s.lost ++ lostBy s.path a
    unclaimed := s.unclaimed ++ unclaimedBy s.path a
    rejected := s.rejected ++ rejectedBy s.path path
    drained := s.drained ++ drainedBy s.path path
    unencodable := s.unencodable ++ refusedBy k s.path a }

inductive AuditMove (s : PathState β ω) (t : PathState β ω) (refused : List E3SlotDesc) : Prop
  | aside (pipe : t.pipe = s.pipe) (seen : t.seen = s.seen) (sm : SameCounters s.sm t.sm)
      (none : refused = [])
  | pipe (a : Action β E3SlotDesc) (step : Pipeline.step k s.pipe a = some t.pipe)
      (quiet : dispatchedBy k s.pipe a = []) (seen : t.seen = s.seen) (sm : SameCounters s.sm t.sm)
      (none : refused = [])
  | call (sample : SlotSample) (a : Layer1.Answers) (es : List (Emission ω)) (d : E3SlotDesc)
      (step : Pipeline.step k s.pipe .worker = some t.pipe)
      (one : (dispatchedBy k s.pipe .worker).map Prod.snd = [d]) (seen : t.seen = s.seen ++ [d])
      (sm : s.sm.onSample p sample a = some (t.sm,es))
      (refused : refused = if s.sm.unencodable sample a then [d] else [])

variable {p k} {s t : PathState β ω}

omit [DecidableEq β] in
theorem dispatchedBy_nil {pipe : Pipeline.State β E3SlotDesc SlotMessage}
    (h : ∀ tail, pipe.worker ≠ .dispatch tail) : dispatchedBy k pipe .worker = [] := by
  cases hw : pipe.worker with
  | dispatch tail => exact absurd hw (h tail)
  | _ => simp [dispatchedBy,hw]

theorem pathStep_audit {a : PathAction β} (ht : pathStep p k s a = some t) :
    AuditMove p k s t (refusedBy k s a) := by
  cases pathStep_move ht with
  | skip | lose | startAgain | stopAgain | started | stopped =>
    exact .aside rfl rfl ⟨rfl,rfl⟩ rfl
  | fire _ _ hstep => exact .pipe _ hstep rfl rfl ⟨rfl,rfl⟩ rfl
  | deliver hstep => exact .pipe _ hstep rfl rfl ⟨rfl,rfl⟩ rfl
  | poll hstep => exact .pipe _ hstep rfl rfl ⟨rfl,rfl⟩ rfl
  | dispatch hpc hstep hsample =>
    refine .call _ _ _ _ hstep ?_ rfl hsample ?_
    · simp [dispatchedBy,hpc]
    · simp only [refusedBy,hpc]
  | worker hpc hstep =>
    refine .pipe .worker hstep (dispatchedBy_nil hpc) rfl ⟨rfl,rfl⟩ ?_
    · cases hw : s.pipe.worker with
      | dispatch tail => exact absurd hw (hpc tail)
      | _ => simp [refusedBy,hw]
  | control hstep =>
    refine .pipe _ hstep rfl rfl ?_ rfl
    dsimp only
    split <;> exact ⟨rfl,rfl⟩
  | start _ _ hstep => exact .pipe _ hstep rfl rfl ⟨rfl,rfl⟩ rfl
  | stop _ _ hstep => exact .pipe _ hstep rfl rfl ⟨rfl,rfl⟩ rfl

theorem pathStep_pipe {a : PathAction β} (ht : pathStep p k s a = some t) :
    t.pipe = s.pipe ∨ ∃ x, Pipeline.step k s.pipe x = some t.pipe := by
  cases pathStep_audit ht with
  | aside hsame => exact .inl hsame
  | pipe x hx => exact .inr ⟨x,hx⟩
  | call _ _ _ _ hx => exact .inr ⟨.worker,hx⟩

def leaving (s t : PathState β ω) (a : PathAction β) : List E3SlotDesc :=
  lostBy s a ++ unclaimedBy s a ++ rejectedBy s t ++ drainedBy s t

omit [DecidableEq β] in
theorem map_dispatchedBy (x : Action β E3SlotDesc) (pipe : Pipeline.State β E3SlotDesc SlotMessage) :
    ((dispatchedBy k pipe x).map fun d => d.1.buf).map pipe.mem =
      (dispatchedBy k pipe x).map Prod.snd := by
  cases x with
  | worker => cases hw : pipe.worker <;> simp [dispatchedBy,hw]
  | _ => rfl

theorem onward_of_pipe (hkeep : ∀ d, k.keep d = true) (h : Inv k s.pipe) {x : Action β E3SlotDesc}
    (hfill : ∀ b d, x ≠ .fill b d) (hdeliver : ∀ bufs, x ≠ .deliver bufs)
    (hstep : Pipeline.step k s.pipe x = some t.pipe) (hchannel : t.channel = s.channel)
    (hseen : t.seen = s.seen ++ (dispatchedBy k s.pipe x).map Prod.snd) :
    (onward s).Perm (rejectedBy s t ++ drainedBy s t ++ onward t) := by
  have hwaiting := List.perm_iff_count.mp ((step_waiting_perm hkeep h hdeliver hstep).map s.pipe.mem)
  have hmem := step_mem hfill hstep
  rw [List.perm_iff_count]
  intro d
  have hd := hwaiting d
  simp only [onward,inflight,rejectedBy,drainedBy,hmem,hchannel,hseen,List.map_append,
    List.count_append,map_dispatchedBy] at hd ⊢
  omega

omit [DecidableEq β] in
theorem channel_split (n : ℕ) : (s.channel.map s.pipe.mem) =
    (s.channel.take n).map s.pipe.mem ++ (s.channel.drop n).map s.pipe.mem := by
  rw [← List.map_append,List.take_append_drop]

omit [DecidableEq β] in
theorem onward_of_lose (n : ℕ) :
    (onward s).Perm (lostBy s (.lose n) ++ onward { s with channel := s.channel.drop n }) := by
  rw [List.perm_iff_count]
  intro d
  simp only [lostBy,onward,inflight,List.map_append,List.count_append,channel_split n]
  omega

theorem onward_of_deliver {n : ℕ} {pipe : Pipeline.State β E3SlotDesc SlotMessage}
    (hstep : Pipeline.step k s.pipe (.deliver (s.channel.take n)) = some pipe) :
    (onward s).Perm (unclaimedBy s (.deliver n) ++
      onward { s with pipe := pipe, channel := s.channel.drop n }) := by
  rw [List.perm_iff_count]
  intro d
  cases deliver_move hstep with
  | hand pc _ hregistered =>
    simp only [unclaimedBy,onward,inflight,waiting,undispatched,pc,PollPc.pending,hregistered,if_true,
      List.map_append,List.count_append,List.map_nil,List.count_nil,channel_split n]
    omega
  | unclaimed _ _ hunregistered =>
    simp only [unclaimedBy,onward,inflight,if_neg hunregistered,List.map_append,List.count_append,
      channel_split n]
    omega

/-- The fire's descriptor is sent and comes onto the path, or neither. -/
theorem onward_of_fire {ctx : SlotCtx} {a : FireAnswers} {b : β} {d : E3SlotDesc}
    {pipe : Pipeline.State β E3SlotDesc SlotMessage} (h : Inv k s.pipe)
    (hdesc : (jbpfMain s.selState ctx a).2.desc = some d) (hfree : b ∉ s.channel)
    (hstep : Pipeline.step k s.pipe (.fill b d) = some pipe) :
    (sentDescs (s.fires ++ [⟨ctx,a.reply,(jbpfMain s.selState ctx a).2⟩]) ++ onward s).Perm
      (sentDescs s.fires ++ onward { s with
        selState := (jbpfMain s.selState ctx a).1
        fires := s.fires ++ [⟨ctx,a.reply,(jbpfMain s.selState ctx a).2⟩]
        pipe := pipe
        channel := if (jbpfMain s.selState ctx a).2.sent then s.channel ++ [b] else s.channel }) := by
  cases fill_move hstep with
  | fill hunowned =>
    rw [onward_fire h hfree hunowned]
    cases hsent : (jbpfMain s.selState ctx a).2.sent with
    | true =>
      rw [sentDescs_append_sent s.fires hsent hdesc,List.append_assoc]
      exact List.perm_append_comm.append_left _
    | false =>
      rw [sentDescs_append_unsent s.fires hsent,if_neg Bool.false_ne_true,List.append_nil]

/-- What the codelet sends comes onto the path, and what leaves it is lost, released, dropped or
drained. -/
theorem pathStep_sent (hkeep : ∀ d, k.keep d = true) (h : Inv k s.pipe) {a : PathAction β}
    (ht : pathStep p k s a = some t) :
    (sentDescs t.fires ++ onward s).Perm (sentDescs s.fires ++ leaving s t a ++ onward t) := by
  -- Steps that fire nothing and leave the channel alone.
  have hpipe : ∀ {x : Action β E3SlotDesc}, (∀ b d, x ≠ .fill b d) → (∀ bufs, x ≠ .deliver bufs) →
      Pipeline.step k s.pipe x = some t.pipe → t.channel = s.channel → t.fires = s.fires →
      lostBy s a = [] → unclaimedBy s a = [] →
      t.seen = s.seen ++ (dispatchedBy k s.pipe x).map Prod.snd →
      (sentDescs t.fires ++ onward s).Perm (sentDescs s.fires ++ leaving s t a ++ onward t) := by
    intro x hfill hdeliver hstep hchannel hfires hlost hunclaimed hseen
    rw [hfires,leaving,hlost,hunclaimed,List.append_assoc]
    exact (onward_of_pipe hkeep h hfill hdeliver hstep hchannel hseen).append_left _
  cases pathStep_move ht with
  | skip hdesc =>
    rw [sentDescs_append_unsent s.fires (jbpfMain_unsent hdesc)]
    simp [leaving,lostBy,unclaimedBy,rejectedBy,drainedBy,onward,inflight]
  | fire hdesc hfree hstep =>
    have hfire := onward_of_fire h hdesc hfree hstep
    cases fill_move hstep
    simpa [leaving,lostBy,unclaimedBy,rejectedBy,drainedBy] using hfire
  | @lose n =>
    simpa [leaving,unclaimedBy,rejectedBy,drainedBy] using (onward_of_lose n).append_left _
  | @deliver n pipe hstep =>
    have hquiet : pipe.hist.rejected = s.pipe.hist.rejected ∧
        pipe.hist.drained = s.pipe.hist.drained := by
      cases deliver_move hstep <;> exact ⟨rfl,rfl⟩
    simpa [leaving,lostBy,rejectedBy,drainedBy,hquiet] using (onward_of_deliver hstep).append_left _
  | startAgain | stopAgain | started | stopped =>
    simp [leaving,lostBy,unclaimedBy,rejectedBy,drainedBy,onward,inflight]
  | poll hstep => exact hpipe (by simp) (by simp) hstep rfl rfl rfl rfl (List.append_nil _).symm
  | dispatch hpc hstep _ =>
    refine hpipe (by simp) (by simp) hstep rfl rfl rfl rfl ?_
    simp [dispatchedBy,hpc]
  | worker hpc hstep =>
    refine hpipe (by simp) (by simp) hstep rfl rfl rfl rfl ?_
    simp [dispatchedBy_nil hpc]
  | control hstep => exact hpipe (by simp) (by simp) hstep rfl rfl rfl rfl (List.append_nil _).symm
  | start _ _ hstep => exact hpipe (by simp) (by simp) hstep rfl rfl rfl rfl (List.append_nil _).symm
  | stop _ _ hstep => exact hpipe (by simp) (by simp) hstep rfl rfl rfl rfl (List.append_nil _).symm

end Audit

section Accounts

variable {β ω : Type} {k : Kind E3SlotDesc SlotMessage}

structure Accounts (k : Kind E3SlotDesc SlotMessage) (s : Audited β ω) : Prop where
  inv : Inv k s.path.pipe
  dropped : s.path.pipe.dropped = UInt64.ofNat s.path.pipe.hist.rejected.length
  rejected : s.rejected.length = s.path.pipe.hist.rejected.length
  drained : s.drained.length = s.path.pipe.hist.drained.length
  tallied : ∃ tally published,
    Tallied s.path.sm s.path.seen.length s.unencodable.length tally published
  unencodable : s.unencodable.Sublist s.path.seen
  sent : (sentDescs s.path.fires).Perm
    (s.lost ++ s.unclaimed ++ s.rejected ++ s.drained ++ onward s.path)

theorem tallied_of_same {l l' : E3SMLayer1} {calls unencodable published : ℕ} {tally : Drop → ℕ}
    (h : Tallied l calls unencodable tally published) (hsame : SameCounters l l') :
    Tallied l' calls unencodable tally published := by
  refine ⟨fun d hd => ?_,hsame.slotPublishSeq.trans h.seq,h.total,h.unencodable_le,h.tally_le,
    h.published_le⟩
  rw [hsame.drops]
  exact h.drops d hd

theorem tallied_numbers {l : E3SMLayer1} {calls unencodable published : ℕ} {tally : Drop → ℕ}
    (h : Tallied l calls unencodable tally published) (hlt : calls < 2 ^ 64) :
    l.publishedSlots.toNat + (Drop.exclusive.map fun d => (l.drops d).toNat).sum =
      calls + unencodable := by
  have hdrops : Drop.exclusive.map (fun d => (l.drops d).toNat) = Drop.exclusive.map tally := by
    refine List.map_congr_left fun d hd => ?_
    have hle := h.tally_le d
    rw [h.drops d (mem_exclusive hd),UInt64.toNat_ofNat',Nat.mod_eq_of_lt (by omega)]
  have hle := h.published_le
  rw [publishedSlots,hdrops,h.seq,UInt64.toNat_ofNat',Nat.mod_eq_of_lt (by omega)]
  exact h.total

variable [DecidableEq β] (p : Platform ω)

theorem auditStep_accounts (hkeep : ∀ d, k.keep d = true) {s t : Audited β ω} {a : PathAction β}
    (h : Accounts k s) (ht : auditStep p k s a = some t) : Accounts k t := by
  obtain ⟨path,hstep,rfl⟩ := Option.map_eq_some_iff.mp ht
  obtain ⟨hinv,hdropped,hrejected,hdrained⟩ : Inv k path.pipe ∧
      path.pipe.dropped = UInt64.ofNat path.pipe.hist.rejected.length ∧
      s.path.pipe.hist.rejected <+: path.pipe.hist.rejected ∧
      s.path.pipe.hist.drained <+: path.pipe.hist.drained := by
    rcases pathStep_pipe hstep with hsame | ⟨x,hx⟩
    · rw [hsame]
      exact ⟨h.inv,h.dropped,List.prefix_refl _,List.prefix_refl _⟩
    · exact ⟨step_inv h.inv hx,step_rejected hx h.dropped,step_records hx⟩
  have hsent := List.perm_iff_count.mp h.sent
  have hmoved := List.perm_iff_count.mp (pathStep_sent hkeep h.inv hstep)
  refine ⟨hinv,hdropped,?_,?_,?_,?_,?_⟩
  · rw [← append_added hrejected]
    simp only [rejectedBy,List.length_append,List.length_map,h.rejected]
  · rw [← append_added hdrained]
    simp only [drainedBy,List.length_append,List.length_map,h.drained]
  · obtain ⟨tally,published,htally⟩ := h.tallied
    cases pathStep_audit hstep with
    | aside _ hseen hsm hnone | pipe _ _ _ hseen hsm hnone =>
      rw [hseen,hnone,List.append_nil]
      exact ⟨tally,published,tallied_of_same htally hsm⟩
    | call sample ans es d _ _ hseen hsample hrefused =>
      have hcount : (s.unencodable ++ refusedBy k s.path a).length =
          s.unencodable.length + if s.path.sm.unencodable sample ans then 1 else 0 := by
        rw [hrefused,List.length_append]
        split <;> rfl
      rw [hcount,hseen,List.length_append]
      exact sample_tallied p htally hsample
  · cases pathStep_audit hstep with
    | aside _ hseen _ hnone | pipe _ _ _ hseen _ hnone =>
      rw [hseen,hnone,List.append_nil]
      exact h.unencodable
    | call _ _ _ _ _ _ hseen _ hrefused =>
      rw [hseen,hrefused]
      refine h.unencodable.append ?_
      split
      · exact List.Sublist.refl _
      · exact List.nil_sublist _
  · rw [List.perm_iff_count]
    intro d
    have hd := hsent d
    have hd' := hmoved d
    simp only [leaving,List.count_append] at hd hd' ⊢
    omega

/-- What `main` prints at the end: slots dropped on a full queue, slots published, and slots that
the service model dropped for a reason of its own. -/
def printed (s : PathState β ω) : ℕ :=
  s.pipe.dropped.toNat + s.sm.publishedSlots.toNat +
    (Drop.exclusive.map fun d => (s.sm.drops d).toNat).sum

structure SlotAccount (s : Audited β ω) : Prop where
  /-- Each was lost in the channel, released by the dispatcher for want of a handler, dropped on a
  full queue, taken out of the queue by `stop`, given to `on_sample`, or is still on its way. -/
  places : (sentDescs s.path.fires).Perm (s.lost ++ s.unclaimed ++ s.rejected ++ s.drained ++
    s.path.seen ++ (inflight s.path).map s.path.pipe.mem)
  rejected : s.rejected.length = s.path.pipe.hist.rejected.length
  drained : s.drained.length = s.path.pipe.hist.drained.length
  unencodable : s.unencodable.Sublist s.path.seen
  /-- Unless a counter wraps, what is printed leaves out all but two of these and counts refused
  slots twice. -/
  numbers : (sentDescs s.path.fires).length < 2 ^ 64 →
    printed s.path + s.lost.length + s.unclaimed.length + s.drained.length +
      (inflight s.path).length = (sentDescs s.path.fires).length + s.unencodable.length
  complete_iff : (sentDescs s.path.fires).length < 2 ^ 64 → s.unencodable = [] →
    (printed s.path = (sentDescs s.path.fires).length ↔ s.lost = [] ∧ s.unclaimed = [] ∧
      s.drained = [] ∧ inflight s.path = [])

omit [DecidableEq β] in
theorem Accounts.slotAccount {s : Audited β ω} (h : Accounts k s) : SlotAccount s := by
  have hplaces : (sentDescs s.path.fires).Perm (s.lost ++ s.unclaimed ++ s.rejected ++ s.drained ++
      s.path.seen ++ (inflight s.path).map s.path.pipe.mem) := by
    rw [List.append_assoc]
    exact h.sent
  have hlength := hplaces.length_eq
  have hrejected := h.rejected
  simp only [List.length_append,List.length_map] at hlength
  have hnumbers : (sentDescs s.path.fires).length < 2 ^ 64 →
      printed s.path + s.lost.length + s.unclaimed.length + s.drained.length +
        (inflight s.path).length = (sentDescs s.path.fires).length + s.unencodable.length := by
    intro hlt
    obtain ⟨tally,published,htally⟩ := h.tallied
    have hsm := tallied_numbers htally (by omega)
    have hdropped : s.path.pipe.dropped.toNat = s.path.pipe.hist.rejected.length := by
      rw [h.dropped,UInt64.toNat_ofNat',Nat.mod_eq_of_lt (by omega)]
    rw [printed,Nat.add_assoc s.path.pipe.dropped.toNat,hsm]
    omega
  refine ⟨hplaces,h.rejected,h.drained,h.unencodable,hnumbers,fun hlt hnone => ?_⟩
  have hsum := hnumbers hlt
  rw [hnone,List.length_nil] at hsum
  simp only [← List.length_eq_zero_iff]
  omega

end Accounts

section Result

variable {β ω : Type} [DecidableEq β] (p : Platform ω)

omit [DecidableEq β] in
theorem fresh_accounts (k : Kind E3SlotDesc SlotMessage) (config : ControllerConfig)
    (shmWriter : ShmIqWriter) (trace : Trace) {ring : Ring 64 (QueueEntry β)} (mem : β → E3SlotDesc)
    (hring : ring.head = ring.tail) :
    Accounts k ({ path := PathState.fresh config shmWriter trace ring mem } : Audited β ω) where
  inv := constructed_inv k ring 0 0 mem hring
  dropped := rfl
  rejected := rfl
  drained := rfl
  tallied := ⟨fun _ => 0,0,fun _ _ => rfl,rfl,rfl,le_refl 0,fun _ => le_refl 0,le_refl 0⟩
  unencodable := List.Sublist.refl _
  sent := List.Perm.refl _

/-- In every run every slot that the codelet sent is in one of these places, and what `main` prints
at the end accounts for all of them exactly if none was lost, released unclaimed or taken out of
the queue by `stop`. -/
theorem slots_accounted (pipelineConfig : SlotPipelineConfig) (config : ControllerConfig)
    (shmWriter : ShmIqWriter) (trace : Trace) (ring : Ring 64 (QueueEntry β))
    (hring : ring.head = ring.tail) (mem : β → E3SlotDesc) (actions : List (PathAction β))
    (t : Audited β ω) (hrun : run (auditStep p (slotIqPipeline pipelineConfig))
      { path := PathState.fresh config shmWriter trace ring mem } actions = some t) : SlotAccount t := by
  have haccounts : Accounts (slotIqPipeline pipelineConfig) t :=
    run_invariant_of_step (fun _ _ _ hi ht => auditStep_accounts p (fun _ => rfl) hi ht)
      (fresh_accounts _ config shmWriter trace mem hring) hrun
  exact haccounts.slotAccount

end Result

def stoppedWithOneQueued : List (PathAction ℕ) :=
  [.smStart,.control true,.control true,.control true,.control true,.smReturn,
    .fire (fullBandCtx 7) (answering (.wrote 0 5)) 1,
    .fire (fullBandCtx 8) (answering (.wrote 1 5)) 2,.deliver 2] ++
    List.replicate 14 (.poll true 2000) ++ List.replicate 6 (.worker oneSubscriber) ++
    [.smStop,.control true,.control true,.worker oneSubscriber] ++
    List.replicate 7 (.control true) ++ [.smReturn]

theorem slots_accounted_drained :
    ∃ t, run (auditStep taggedPlatform (slotIqPipeline { writer := .gnb })) { path := emptyPath }
      stoppedWithOneQueued = some t ∧ (sentDescs t.path.fires).length = 2 ∧ printed t.path = 1 ∧
      t.path.pipe.hist.drained = [2] ∧ t.drained.map E3SlotDesc.sfn = [8] ∧ t.unencodable = [] ∧
      SlotAccount t := by
  have hcount : (run (auditStep taggedPlatform (slotIqPipeline { writer := .gnb }))
      { path := emptyPath } stoppedWithOneQueued).map (fun t => ((sentDescs t.path.fires).length,
        printed t.path,t.path.pipe.hist.drained,t.drained.map E3SlotDesc.sfn,
        t.unencodable.length)) = some (2,1,[2],[8],0) := by
    decide +kernel
  obtain ⟨t,hrun,ht⟩ := Option.map_eq_some_iff.mp hcount
  simp only [Prod.mk.injEq] at ht
  obtain ⟨hsent,hprinted,hdrained,hslot,hnone⟩ := ht
  exact ⟨t,hrun,hsent,hprinted,hdrained,hslot,List.length_eq_zero_iff.mp hnone,
    slots_accounted taggedPlatform { writer := .gnb } {} gnbWriter {} _ rfl _ stoppedWithOneQueued t
      hrun⟩

end SlotPath
end E3Controller
