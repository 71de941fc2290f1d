import E3Controller.PipelineStop

/-!
# Control-input messages after each load

A freshly loaded codelet has zeroed maps, so `start` clears `shm_cfg_sent_` and
the first batch sends the configuration again. The clearing assumes that no
`process_buffers` is running; one that is, and whose first message the previous
load accepted, sets the flag for a codelet that never saw it.
-/

namespace E3Controller
namespace Pipeline

open SpscRing SlotApi

variable {β α μ : Type}

/-- When a load succeeds the poll thread is not between two of its sends, nor
between the last send and the store of the flag. -/
def FreshAtLoad (k : Kind α μ) (s : State β α μ) : Action β α → Prop
  | .control true => s.control = .startLoad →
    match s.poll with
    | .sendConfig remaining _ => remaining = k.configMessages
    | _ => True
  | _ => True

instance [DecidableEq μ] (k : Kind α μ) (s : State β α μ) (a : Action β α) :
    Decidable (FreshAtLoad k s a) :=
  match a with
  | .control true =>
    match h : s.poll with
    | .sendConfig remaining _ =>
      decidable_of_iff (s.control = .startLoad → remaining = k.configMessages)
        (by simp only [FreshAtLoad,h])
    | .idle | .handler _ | .readClock _ | .loop _ _ | .haveHead _ _ _ _ | .haveTail _ _ _ _ _
    | .entryWritten _ _ _ _ => isTrue (by simp only [FreshAtLoad,h]; exact fun _ => trivial)
  | .control false | .fill _ _ | .deliver _ | .poll _ _ | .worker | .callStart | .callStop =>
    isTrue trivial

/-- A load of the codelet is current from the reset of the flag that follows
`codelets_loaded_ = true` until the unload. -/
def LoadCurrent (s : State β α μ) : Prop :=
  s.codeletsLoaded = true ∧ s.control ≠ .startReset

/-- What has been sent of the configuration since the last load, and that
`codelets_loaded_` is false while `start` waits for a load. -/
structure ConfigInv (k : Kind α μ) (s : State β α μ) : Prop where
  sending :
    match s.poll with
    | .sendConfig remaining _ => ∀ m ∈ k.configMessages, m ∈ remaining ∨ m ∈ s.hist.delivered
    | _ => True
  sent : s.configSent = true → LoadCurrent s → ∀ m ∈ k.configMessages, m ∈ s.hist.delivered
  unloaded :
    match s.control with
    | .idle => s.running = false → s.codeletsLoaded = false
    | .startLoad => s.codeletsLoaded = false
    | .startLoaded => s.codeletsLoaded = false
    | _ => True

section Steps

variable [DecidableEq β] {k : Kind α μ} {s t : State β α μ} {a : Action β α}

theorem pollStep_configInv {ok : Bool} {ts : UInt64} (h : ConfigInv k s)
    (ht : pollStep k s ok ts = some t) : ConfigInv k t := by
  have hsending := h.sending
  cases pollStep_move ht with
  | beginConfig pc => exact { h with sending := fun m hm => .inl hm }
  | endConfig pc =>
    simp only [pc] at hsending
    refine { h with sending := trivial, sent := fun _ _ m hm => ?_ }
    simpa using hsending m hm
  | send pc =>
    simp only [pc] at hsending
    refine { h with sending := fun m hm => ?_, sent := fun hs hl m hm => ?_ }
    · have hm' := hsending m hm
      simp only [List.mem_cons] at hm'
      simp only [List.mem_append,List.mem_singleton]
      tauto
    · exact List.mem_append_left _ (h.sent hs hl m hm)
  | _ => exact { h with sending := trivial }

theorem controlStep_configInv {ok : Bool} (hinv : Inv k s) (h : ConfigInv k s)
    (hfresh : FreshAtLoad k s (.control ok : Action β α)) (ht : controlStep k s ok = some t) :
    ConfigInv k t := by
  have hun := h.unloaded
  -- A load becomes current nowhere but at the reset.
  have hsent : s.control ≠ .startReset → s.configSent = true → s.codeletsLoaded = true →
      ∀ m ∈ k.configMessages, m ∈ s.hist.delivered := fun hpc hs hl => h.sent hs ⟨hl,hpc⟩
  cases controlStep_move ht with
  | load pc hok =>
    simp only [pc] at hun
    subst hok
    refine ⟨?_,fun _ hl => ?_,hun⟩
    · have hf := hfresh pc
      cases hpoll : s.poll with
      | sendConfig remaining bufs =>
        simp only [hpoll] at hf
        simp only [hf]
        exact fun m hm => .inl hm
      | _ => trivial
    · exact absurd (hun.symm.trans hl.1) Bool.false_ne_true
  | loadFailed pc =>
    simp only [pc] at hun
    exact { h with sent := fun hs hl => hsent (by simp [pc]) hs hl.1, unloaded := fun _ => hun }
  | loaded pc => exact { h with sent := fun _ hl => absurd rfl hl.2, unloaded := trivial }
  | reset pc => exact { h with sent := fun hs => (by cases hs), unloaded := trivial }
  | register pc =>
    have hc := hinv.control
    simp only [ControlInv,pc] at hc
    refine { h with sent := fun hs hl => hsent (by simp [pc]) hs hl.1, unloaded := fun hr => ?_ }
    simp only [hc] at hr
    cases hr
  | unload pc => exact { h with sent := fun _ hl => (by cases hl.1), unloaded := fun _ => rfl }
  | keepUnloaded pc hunloaded =>
    exact { h with
      sent := fun _ hl => absurd hl.1 hunloaded
      unloaded := fun _ => by simpa using hunloaded }
  | run pc | spawn pc | unregister pc | halt pc | join pc | loadHead pc | loadTail pc | drained pc
  | drain pc | storeTail pc =>
    exact { h with sent := fun hs hl => hsent (by simp [pc]) hs hl.1, unloaded := trivial }

theorem step_configInv (hinv : Inv k s) (h : ConfigInv k s) (hfresh : FreshAtLoad k s a)
    (ht : step k s a = some t) : ConfigInv k t := by
  have hun := h.unloaded
  cases a with
  | fill b v =>
    cases fill_move ht
    exact { h with }
  | deliver bufs =>
    cases deliver_move ht with
    | hand => exact { h with sending := trivial }
    | unclaimed => exact h
  | poll ok ts => exact pollStep_configInv h ht
  | worker => cases workerStep_move ht <;> exact { h with }
  | callStart =>
    cases callStart_move ht with
    | already => exact h
    | load pc hstopped =>
      simp only [pc] at hun
      have hnot := hun (by simpa using hstopped)
      exact { h with
        sent := fun _ hl => absurd (hnot.symm.trans hl.1) Bool.false_ne_true
        unloaded := hnot }
    | reset => exact { h with sent := fun _ hl => absurd rfl hl.2, unloaded := trivial }
  | callStop =>
    cases callStop_move ht with
    | stop pc =>
      exact { h with sent := fun hs hl => h.sent hs ⟨hl.1,by simp [pc]⟩, unloaded := trivial }
    | already => exact h
  | control ok => exact controlStep_configInv hinv h hfresh ht

end Steps

/-- Whenever the flag is set while a load is current, both messages were accepted
after that load. -/
def ConfigDelivered (config : SlotPipelineConfig) (s : State β E3SlotDesc SlotMessage) : Prop :=
  s.configSent = true → LoadCurrent s →
    .shmCfg (shmCfgMessage config) ∈ s.hist.delivered ∧
    .slotSel (slotSelMessage config) ∈ s.hist.delivered

def ConfigCorrect
    (C : ∀ {β : Type}, State β E3SlotDesc SlotMessage → Action β E3SlotDesc → Prop)
    (config : SlotPipelineConfig) : Prop :=
  ∀ (β : Type) [DecidableEq β] (ring : Ring 64 (QueueEntry β)) (dropped : UInt64) (total : UInt32)
    (mem : β → E3SlotDesc) (as : List (Action β E3SlotDesc)) (s : State β E3SlotDesc SlotMessage),
    ring.head = ring.tail →
    LabelledRun.Along (step (slotIqPipeline config)) C (State.constructed ring dropped total mem) as →
    LabelledRun.run (step (slotIqPipeline config)) (State.constructed ring dropped total mem) as =
      some s →
    ConfigDelivered config s

/-- In gNB mode every load is configured before the flag says so, in every run in
which no load succeeds in the middle of a send. -/
theorem gnb_configCorrect (config : SlotPipelineConfig) (hgnb : config.writer = .gnb) :
    ConfigCorrect (FreshAtLoad (slotIqPipeline config)) config := by
  intro β _ ring dropped total mem as s hring hfresh hrun
  have hstart : Inv (slotIqPipeline config) (State.constructed ring dropped total mem) ∧
      ConfigInv (slotIqPipeline config) (State.constructed ring dropped total mem) :=
    ⟨constructed_inv _ ring dropped total mem hring,trivial,fun hs => (by cases hs),fun _ => rfl⟩
  obtain ⟨-,hconf⟩ := LabelledRun.run_invariant
    (I := fun s => Inv (slotIqPipeline config) s ∧ ConfigInv (slotIqPipeline config) s)
    (fun s a t hf h ht => ⟨step_inv h.1 ht,step_configInv h.1 h.2 hf ht⟩) hstart hfresh hrun
  have hmsgs : (slotIqPipeline config).configMessages =
      [.shmCfg (shmCfgMessage config),.slotSel (slotSelMessage config)] := by
    simp only [slotIqPipeline,hgnb]
  intro hs hl
  have hall := hconf.sent hs hl
  rw [hmsgs] at hall
  exact ⟨hall _ (by simp),hall _ (by simp)⟩

def reloadRun : List (Action ℕ E3SlotDesc) :=
  orderlyRun ++ .control true :: startRun ++ .deliver [1] :: List.replicate 4 (.poll true 0)

theorem gnb_configCorrect_reload :
    ∃ s, LabelledRun.run (step (slotIqPipeline autoLoadConfig)) constructedSlot reloadRun = some s ∧
      s.configSent = true ∧ LoadCurrent s ∧ ConfigDelivered autoLoadConfig s := by
  refine ⟨_,rfl,rfl,⟨rfl,nofun⟩,?_⟩
  exact gnb_configCorrect autoLoadConfig rfl ℕ emptyRing 0 0 (fun _ => {}) reloadRun _ rfl
    (by decide +kernel) rfl

/-- Both messages are accepted for the first load; the poll thread sets the flag
only after `stop` and a new `start`. -/
def lateFlagRun : List (Action ℕ E3SlotDesc) :=
  startRun ++ .deliver [1] :: List.replicate 3 (.poll true 0) ++ stopRun ++
    .control true :: startRun ++ [.poll true 0]

/-- The codelet of the second load has received nothing, yet the flag is set. -/
theorem late_flag_skips_config :
    (∃ s, LabelledRun.run (step (slotIqPipeline autoLoadConfig)) constructedSlot lateFlagRun = some s ∧
      s.configSent = true ∧ LoadCurrent s ∧ s.hist.delivered = []) ∧
    ¬ ConfigCorrect (fun _ _ => True) autoLoadConfig := by
  refine ⟨⟨_,rfl,rfl,⟨rfl,nofun⟩,rfl⟩,fun h => ?_⟩
  have hbad := h ℕ emptyRing 0 0 (fun _ => {}) lateFlagRun _ rfl (LabelledRun.along_true _ _) rfl
  exact absurd (hbad rfl ⟨rfl,nofun⟩).1 List.not_mem_nil

end Pipeline
end E3Controller
