import E3Controller.ControllerRefinement

/-!
# Shutting the controller down

`main` leaves its polling loop, stops the agent and then both pipelines; from there
on nothing is dispatched and nobody calls `start`. What the two `stop` calls release
depends on the state they find: a pipeline that still runs is emptied whatever
happened to it before, one that was stopped earlier keeps what that stop left behind.
-/

namespace E3Controller
namespace Controller

open Dispatcher Pipeline SlotApi LabelledRun

variable {β α μ : Type}

/-- What can still happen to a pipeline once `main` has left its loop. -/
def inShutdown : Action β α → Bool
  | .deliver _ => false
  | .poll _ _ => false
  | .callStart => false
  | _ => true

def Label.inShutdown : Label β → Bool
  | .dispatch _ _ => false
  | .poll _ _ => false
  | .iq a => Controller.inShutdown a
  | .slot a => Controller.inShutdown a

section OnePipeline

variable [DecidableEq β] {k : Kind α μ} {s t : Pipeline.State β α μ} {a : Action β α}

structure Resting (k : Kind α μ) (s : Pipeline.State β α μ) : Prop where
  inv : Inv k s
  lifecycle : LifecycleInv s
  poll : s.poll = .idle

omit [DecidableEq β] in
theorem viaDispatcher_of_inShutdown (ha : inShutdown a = true) : viaDispatcher a = false := by
  cases a <;> first | rfl | cases ha

omit [DecidableEq β] in
theorem ne_callStart (ha : inShutdown a = true) : a ≠ .callStart := by
  rintro rfl
  cases ha

theorem resting_step (ha : inShutdown a = true) (h : Resting k s)
    (ht : Pipeline.step k s a = some t) : Resting k t :=
  ⟨step_inv h.inv ht,step_lifecycleInv h.lifecycle ht,
    (step_poll_eq (viaDispatcher_of_inShutdown ha) ht).trans h.poll⟩

def Stopping (s : Pipeline.State β α μ) : Prop :=
  match s.control with
  | .idle => s.running = false
  | .startLoad | .startLoaded | .startReset | .startRunning | .startWorker | .startRegister => False
  | _ => True

theorem stopping_step (ha : a ≠ .callStart) (hlife : LifecycleInv s) (h : Stopping s)
    (ht : Pipeline.step k s a = some t) : Stopping t := by
  have hothers : a.inSession = true → Stopping t := by
    intro hsession
    obtain ⟨hr,hc,-⟩ := inSession_frame hsession ht
    unfold Stopping at h ⊢
    rwa [hc,hr]
  cases a with
  | fill b v => exact hothers rfl
  | deliver bufs => exact hothers rfl
  | poll ok ts => exact hothers rfl
  | worker => exact hothers rfl
  | callStart => exact absurd rfl ha
  | callStop =>
    cases callStop_move ht with
    | stop => trivial
    | already => exact h
  | control ok =>
    unfold Stopping at h
    cases controlStep_move ht with
    | unload pc | keepUnloaded pc =>
      exact (hlife.busy _ _ _ (congrArg ControlPc.holds pc)).1
    | load pc | loadFailed pc | loaded pc | reset pc | run pc | spawn pc | register pc =>
      rw [pc] at h
      exact h.elim
    | _ => trivial

theorem waiting_step (hne : a ≠ .callStop) (h : s.control = .idle ∧ s.running = true)
    (ht : Pipeline.step k s a = some t) : t.control = .idle ∧ t.running = true := by
  have hothers : a.inSession = true → t.control = .idle ∧ t.running = true := by
    intro hsession
    obtain ⟨hr,hc,-⟩ := inSession_frame hsession ht
    rwa [hr,hc]
  cases a with
  | fill b v => exact hothers rfl
  | deliver bufs => exact hothers rfl
  | poll ok ts => exact hothers rfl
  | worker => exact hothers rfl
  | callStart =>
    cases callStart_move ht with
    | already => exact h
    | load _ hstopped => exact absurd h.2 hstopped
    | reset _ hstopped => exact absurd h.2 hstopped
  | callStop => exact absurd rfl hne
  | control ok => simp [Pipeline.step,controlStep,h.1] at ht

theorem stopped_step (ha : inShutdown a = true) (hrest : Resting k s)
    (h : s.control = .idle ∧ s.running = false) (ht : Pipeline.step k s a = some t) :
    (t.control = .idle ∧ t.running = false) ∧ t.hist = s.hist := by
  cases a with
  | deliver bufs => cases ha
  | poll ok ts => cases ha
  | callStart => cases ha
  | callStop =>
    cases callStop_move ht with
    | stop _ hr => exact absurd (h.2.symm.trans hr) Bool.false_ne_true
    | already => exact ⟨h,rfl⟩
  | fill b v =>
    cases fill_move ht
    exact ⟨h,rfl⟩
  | worker =>
    have hctl := hrest.inv.control
    simp only [ControlInv,h.1] at hctl
    simp [Pipeline.step,workerStep,hctl h.2] at ht
  | control ok => simp [Pipeline.step,controlStep,h.1] at ht

omit [DecidableEq β] in
theorem quietAtDrain_of_idle (h : s.poll = .idle) (a : Action β α) : QuietAtDrain s a := by
  cases a with
  | control ok => exact fun _ => by rw [h]; rfl
  | _ => trivial

/-- A call of `stop` on a running pipeline leaves it stopped and empty, also if an
earlier `stop` had let a batch slip into the queue. -/
theorem running_stop_releases (h : Resting k s) (hs : s.control = .idle ∧ s.running = true)
    {as : List (Action β α)} (has : ∀ a ∈ as, inShutdown a = true) (hcall : .callStop ∈ as)
    (hrun : run (Pipeline.step k) s as = some t) (ht : t.control = .idle) :
    t.running = false ∧ t.hist.owned = [] := by
  have hstop : StopInv s := by
    simp only [StopInv,hs.1,hs.2]
    exact fun hr => by cases hr
  obtain ⟨hrest,hquiet⟩ := run_invariant (C := fun _ a => inShutdown a = true)
    (I := fun u => Resting k u ∧ StopInv u)
    (fun u a v ha hu hv => ⟨resting_step ha hu.1 hv,
      step_stopInv hu.1.inv hu.2 (quietAtDrain_of_idle hu.1.poll a) hv⟩)
    ⟨h,hstop⟩ (along_of_forall has) hrun
  -- up to the first call the pipeline runs, from it on `stop` is under way
  obtain ⟨pre,post,rfl,hpre⟩ := List.eq_append_cons_of_mem hcall
  obtain ⟨u,hu,hrun⟩ := run_append_eq_some.mp hrun
  obtain ⟨v,hv,hrun⟩ := run_cons_eq_some.mp hrun
  obtain ⟨hrestu,hwait⟩ := run_invariant (C := fun _ a => inShutdown a = true ∧ a ≠ .callStop)
    (I := fun u => Resting k u ∧ u.control = .idle ∧ u.running = true)
    (fun u a v ha hu hv => ⟨resting_step ha.1 hu.1 hv,waiting_step ha.2 hu.2 hv⟩) ⟨h,hs⟩
    (along_of_forall fun a ha => ⟨has a (by simp [ha]),fun he => hpre (he ▸ ha)⟩) hu
  have hstopping : Stopping v := by
    cases callStop_move hv with
    | stop => trivial
    | already _ hnot => exact absurd hwait.2 hnot
  obtain ⟨-,hstopped⟩ := run_invariant (C := fun _ a => inShutdown a = true)
    (I := fun u => LifecycleInv u ∧ Stopping u)
    (fun u a v ha hu hv => ⟨step_lifecycleInv hu.1 hv,stopping_step (ne_callStart ha) hu.1 hu.2 hv⟩)
    ⟨step_lifecycleInv hrestu.lifecycle hv,hstopping⟩
    (along_of_forall fun a ha => has a (by simp [ha])) hrun
  simp only [Stopping,ht] at hstopped
  simp only [StopInv,ht] at hquiet
  obtain ⟨⟨-,hpend⟩,hqueue⟩ := hquiet hstopped
  have howned := hrest.inv.owned
  rw [live,hpend,hqueue,List.drop_nil] at howned
  exact ⟨hstopped,howned.eq_nil⟩

theorem stopped_stop_keeps (h : Resting k s) (hs : s.control = .idle ∧ s.running = false)
    {as : List (Action β α)} (has : ∀ a ∈ as, inShutdown a = true)
    (hrun : run (Pipeline.step k) s as = some t) :
    t.running = false ∧ t.hist.owned = s.hist.owned := by
  obtain ⟨-,⟨-,hr⟩,hh⟩ := run_invariant (C := fun _ a => inShutdown a = true)
    (I := fun u => Resting k u ∧ (u.control = .idle ∧ u.running = false) ∧ u.hist = s.hist)
    (fun u a v ha hu hv => by
      obtain ⟨hv₁,hv₂⟩ := stopped_step ha hu.1 hu.2.1 hv
      exact ⟨resting_step ha hu.1 hv,hv₁,hv₂.trans hu.2.2⟩)
    ⟨h,hs,rfl⟩ (along_of_forall has) hrun
  exact ⟨hr,by rw [hh]⟩

theorem stop_releases_iff (h : Resting k s) (hs : s.control = .idle) {as : List (Action β α)}
    (has : ∀ a ∈ as, inShutdown a = true) (hcall : .callStop ∈ as)
    (hrun : run (Pipeline.step k) s as = some t) (ht : t.control = .idle) :
    t.running = false ∧ (t.hist.owned = [] ↔ s.running = true ∨ s.hist.owned = []) := by
  cases hr : s.running with
  | true =>
    obtain ⟨hstopped,hempty⟩ := running_stop_releases h ⟨hs,hr⟩ has hcall hrun ht
    simp [hstopped,hempty]
  | false =>
    obtain ⟨hstopped,hsame⟩ := stopped_stop_keeps h ⟨hs,hr⟩ has hrun
    simp [hstopped,hsame]

end OnePipeline

section Process

variable [DecidableEq β] {ki : Kind IqSampleData PrbFilterConfig} {ks : Kind E3SlotDesc SlotMessage}
  {s₀ s t : State β} {ls rest : List (Label β)}

/-- `main` is out of its loop and no caller is inside of `start` or `stop`. -/
structure AtRest (s : State β) : Prop where
  iqPoll : s.iq.poll = .idle
  slotPoll : s.slot.poll = .idle
  released : s.toRelease = []
  iqControl : s.iq.control = .idle
  slotControl : s.slot.control = .idle

structure ShutDown (s t : State β) : Prop where
  handlers : ∀ id, t.handlers id = none
  threads : t.iq.worker = .absent ∧ t.slot.worker = .absent
  unloaded : t.iq.codeletsLoaded = false ∧ t.slot.codeletsLoaded = false
  /-- Every buffer is back exactly if each pipeline was still running or had nothing
  left over from an earlier `stop`. -/
  empty_iff : t.held = [] ↔
    (s.iq.running = true ∨ s.iq.hist.owned = []) ∧ (s.slot.running = true ∨ s.slot.hist.owned = [])
  /-- Then every arrival on any stream has had its one release. -/
  account : t.held = [] → (t.batches.flatMap Prod.snd).Perm
    (t.freed ++ givenBack t.iq ++ givenBack t.slot)

theorem lifecycle_run (h₀ : Constructed s₀) (hrun : run (step ki ks) s₀ ls = some s) :
    LifecycleInv s.iq ∧ LifecycleInv s.slot := by
  have hstart := constructed_wired ki ks h₀
  obtain ⟨⟨ri,di,ti,mi,-,hiq⟩,⟨rs,ds,ts,ms,-,hslot⟩,-⟩ := h₀
  have hi := iq_run hstart hrun
  have hs := slot_run hstart hrun
  rw [hiq] at hi
  rw [hslot] at hs
  exact ⟨run_invariant_of_step (fun _ _ _ h ht => step_lifecycleInv h ht)
      (constructed_lifecycleInv ri di ti mi) hi,
    run_invariant_of_step (fun _ _ _ h ht => step_lifecycleInv h ht)
      (constructed_lifecycleInv rs ds ts ms) hs⟩

theorem seenByIq_inShutdown (hrest : ∀ l ∈ rest, l.inShutdown = true) :
    ∀ a ∈ seen (step ki ks) seenByIq s rest, inShutdown a = true := by
  intro a ha
  obtain ⟨u,l,hl,hal⟩ := exists_of_mem_seen ha
  have hin := hrest l hl
  cases l with
  | dispatch id bufs => cases hin
  | poll ok ts => cases hin
  | iq b =>
    rw [seenByIq,List.mem_singleton] at hal
    exact hal ▸ hin
  | slot b => cases hal

theorem seenBySlot_inShutdown (hrest : ∀ l ∈ rest, l.inShutdown = true) :
    ∀ a ∈ seen (step ki ks) seenBySlot s rest, inShutdown a = true := by
  intro a ha
  obtain ⟨u,l,hl,hal⟩ := exists_of_mem_seen ha
  have hin := hrest l hl
  cases l with
  | dispatch id bufs => cases hin
  | poll ok ts => cases hin
  | iq b => cases hal
  | slot b =>
    rw [seenBySlot,List.mem_singleton] at hal
    exact hal ▸ hin

theorem toRelease_step (h : Wired ki ks s) {l : Label β} (hl : l.inShutdown = true)
    (ht : step ki ks s l = some t) : t.toRelease = s.toRelease := by
  cases step_move h ht with
  | iq => rfl
  | slot => rfl
  | nothing | unclaimed | toIq | toSlot | pollIq | pollSlot | release => cases hl

theorem toRelease_run (h : Wired ki ks s) (hrest : ∀ l ∈ rest, l.inShutdown = true)
    (hstop : run (step ki ks) s rest = some t) : t.toRelease = s.toRelease :=
  (run_invariant (C := fun _ l => l.inShutdown = true)
    (I := fun u => Wired ki ks u ∧ u.toRelease = s.toRelease)
    (fun _ _ _ hl hu hv => ⟨wired_step hu.1 hv,(toRelease_step hu.1 hl hv).trans hu.2⟩) ⟨h,rfl⟩
    (along_of_forall hrest) hstop).2

/-- The shutdown of `main`, from any state that the process can be in when it leaves
its loop. -/
theorem shutdown_releases_iff (h₀ : Constructed s₀) (hrun : run (step ki ks) s₀ ls = some s)
    (hs : AtRest s) (hrest : ∀ l ∈ rest, l.inShutdown = true)
    (hiq : .iq .callStop ∈ rest) (hslot : .slot .callStop ∈ rest)
    (hstop : run (step ki ks) s rest = some t) (hti : t.iq.control = .idle)
    (hts : t.slot.control = .idle) : ShutDown s t := by
  have hw := wired_run h₀ hrun
  have hall := run_append_eq_some.mpr ⟨s,hrun,hstop⟩
  have hwt := wired_run h₀ hall
  obtain ⟨hli,hls⟩ := lifecycle_run h₀ hrun
  obtain ⟨hlit,hlst⟩ := lifecycle_run h₀ hall
  have hreleased : t.toRelease = [] := (toRelease_run hw hrest hstop).trans hs.released
  obtain ⟨hir,hie⟩ := stop_releases_iff ⟨hw.iqInv,hli,hs.iqPoll⟩ hs.iqControl
    (seenByIq_inShutdown hrest) (mem_seen hstop hiq fun _ => by simp [seenByIq]) (iq_run hw hstop)
    hti
  obtain ⟨hsr,hse⟩ := stop_releases_iff ⟨hw.slotInv,hls,hs.slotPoll⟩ hs.slotControl
    (seenBySlot_inShutdown hrest) (mem_seen hstop hslot fun _ => by simp [seenBySlot])
    (slot_run hw hstop) hts
  obtain ⟨hireg,hipres,hiload⟩ := hlit.idle hti
  obtain ⟨hsreg,hspres,hsload⟩ := hlst.idle hts
  refine ⟨fun id => ?_,⟨?_,?_⟩,⟨?_,?_⟩,?_,fun hempty => ?_⟩
  · cases he : t.handlers id with
    | none => rfl
    | some e =>
      rcases hwt.registered he with ⟨-,-,hr⟩ | ⟨-,-,hr⟩
      · rw [hireg,hir] at hr
        cases hr
      · rw [hsreg,hsr] at hr
        cases hr
  · simpa [State.present,hir] using hipres
  · simpa [State.present,hsr] using hspres
  · simpa [hir] using hiload
  · simpa [hsr] using hsload
  · rw [← hie,← hse]
    simp [State.held,hreleased]
  · simpa only [hempty,List.append_nil] using hwt.accounted

end Process

def shutdownRun : List (Label ℕ) :=
  (stopRun ++ List.replicate 2 (Action.control true)).map .slot ++
    (stopRun ++ List.replicate 2 (Action.control true)).map .iq

theorem shutdown_releases_iff_queued :
    ∃ s t, run (step iqKind slotKind) constructedBoth routedRun = some s ∧
      run (step iqKind slotKind) s shutdownRun = some t ∧ s.iq.hist.owned = [1] ∧
      s.slot.hist.owned = [2] ∧ t.freed = [3] ∧ ShutDown s t := by
  refine ⟨_,_,rfl,rfl,rfl,rfl,rfl,?_⟩
  exact shutdown_releases_iff constructedBoth_constructed
    (show run (step iqKind slotKind) constructedBoth routedRun = some _ from rfl)
    ⟨rfl,rfl,rfl,rfl,rfl⟩ (show ∀ l ∈ shutdownRun, l.inShutdown = true by decide)
    (by simp [shutdownRun,stopRun]) (by simp [shutdownRun,stopRun]) rfl rfl rfl

end Controller
end E3Controller
