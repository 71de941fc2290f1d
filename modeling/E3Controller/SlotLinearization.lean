import E3Controller.Announcing
import E3Controller.ServiceModels

/-!
# The slot path as a sequence of calls

Four threads and a codelet work on the slot path at the same time. What the dApps are sent is what
the announcer says after some sequence of `start`, `stop` and slots, one after the other, and these
slots are a selection of what the codelet sent, in its order.
-/

namespace E3Controller
namespace SlotPath

open LabelledRun Config SlotApi SpscRing Pipeline Uplink Shm StageTrace L1Kpm Layer1 E3SMLayer1
open ServiceModel (Agreed slotView slot_follows constructed_agreed)

variable {β ω : Type}

def slotsOf (calls : List Call) : List SlotSample :=
  calls.filterMap fun
    | .sample s _ => some s
    | _ => none

/-- A slot as `dispatch_sample` makes it of a descriptor in the queue. -/
def Presents (β : Type) (s : SlotSample) (d : E3SlotDesc) : Prop :=
  ∃ entry : QueueEntry β, s = dispatchSample entry d

/-- The step at which a call takes effect: `start` as it returns, `stop` as it clears `running_`,
and `on_sample` as the worker runs it. -/
def TakesEffect : Call → PathAction β → Prop
  | .start _, .smReturn => True
  | .stop, .smStop => True
  | .sample _ a, .worker b => a = b
  | _, _ => False

inductive Heard (p : Platform ω) (s t : PathState β ω) : PathAction β → Prop
  | nothing (a : PathAction β) (sm : Frame s.sm t.sm) (seen : t.seen = s.seen)
      (emitted : t.emitted = s.emitted) : Heard p s t a
  | started (ok : Bool) (starting : s.smControl = .starting)
      (sm : t.sm = { s.sm with running := ok }) (seen : t.seen = s.seen)
      (emitted : t.emitted = s.emitted) : Heard p s t .smReturn
  | stopped (sm : t.sm = s.sm.stop) (seen : t.seen = s.seen) (emitted : t.emitted = s.emitted) :
      Heard p s t .smStop
  | slot (x : SlotSample) (d : E3SlotDesc) (a : Layer1.Answers) (es : List (Emission ω))
      (presents : Presents β x d) (sm : s.sm.onSample p x a = some (t.sm,es))
      (seen : t.seen = s.seen ++ [d]) (emitted : t.emitted = s.emitted ++ es) :
      Heard p s t (.worker a)

section Step

variable [DecidableEq β] {p : Platform ω} {k : Kind E3SlotDesc SlotMessage} {s t : PathState β ω}

theorem pathStep_heard {a : PathAction β} (ht : pathStep p k s a = some t) :
    Heard p s t a := by
  cases pathStep_move ht with
  | dispatch _ _ hsample => exact .slot _ _ _ _ ⟨_,rfl⟩ hsample rfl rfl
  | control hstep =>
    refine .nothing _ ?_ rfl rfl
    dsimp only
    split
    · exact trace_frame _ _
    · exact Frame.refl _
  | start hidle hdown hstep => exact .nothing _ ⟨rfl,rfl,rfl,rfl,rfl,rfl,rfl,rfl⟩ rfl rfl
  | stop hidle hup hstep => exact .stopped rfl rfl rfl
  | started hcontrol hstarting => exact .started s.pipe.running hstarting rfl rfl rfl
  | _ => exact .nothing _ (Frame.refl _) rfl rfl

end Step

section Linear

variable (config : ControllerConfig)

/-- The announcer after the calls so far, against the path. -/
structure Linearized (s : PathState β ω) (n : Announcer ω) (calls : List Call) : Prop where
  tracks : Tracks config (fun _ w => w.writesRows = false) ⟨s.sm,[],n.told⟩ n
  told : s.emitted = n.told.map Prod.snd
  slots : List.Forall₂ (Presents β) (slotsOf calls) s.seen

variable {config} {p : Platform ω} {s t : PathState β ω} {calls : List Call} {n : Announcer ω}

theorem Linearized.nothing (h : Linearized config s n calls) (hframe : Frame s.sm t.sm)
    (hseen : t.seen = s.seen) (hemitted : t.emitted = s.emitted) : Linearized config t n calls where
  tracks := by
    have hwriter := hframe.writesRows.trans h.tracks.writer
    have htracks : Tracks config _ ⟨t.sm,[],n.told ++ []⟩
        { n with placed := n.placed, told := n.told ++ [] } := h.tracks.framed hframe hwriter [] []
    simpa using htracks
  told := hemitted.trans h.told
  slots := by
    rw [hseen]
    exact h.slots

theorem Linearized.switched (h : Linearized config s n calls) {c : Call} {up : Bool}
    (hslots : slotsOf [c] = []) (hsm : t.sm = { s.sm with running := up })
    (hseen : t.seen = s.seen) (hemitted : t.emitted = s.emitted) :
    Linearized config t { n with up := up } (calls ++ [c]) where
  tracks := by
    rw [hsm]
    exact h.tracks.switch (Frame.refl _) rfl
  told := hemitted.trans h.told
  slots := by
    rw [hseen,slotsOf,List.filterMap_append]
    rw [slotsOf] at hslots
    rw [hslots,List.append_nil]
    exact h.slots

theorem Linearized.slot (h : Linearized config s n calls) {x : SlotSample} {d : E3SlotDesc}
    {a : Layer1.Answers} {es : List (Emission ω)} (hpresents : Presents β x d)
    (hsm : s.sm.onSample p x a = some (t.sm,es)) (hseen : t.seen = s.seen ++ [d])
    (hemitted : t.emitted = s.emitted ++ es) : ∃ n', n.hear p config gnbPlacement x a = some n' ∧
      Linearized config t n' (calls ++ [.sample x a]) := by
  have hcall : call p ⟨s.sm,[],n.told⟩ (.sample x a) = some ⟨t.sm,
      if s.sm.reachesCheck x then [] ++ [x] else [],n.told ++ es.map fun e => (x,e)⟩ := by
    rw [call_sample_eq,hsm]
    rfl
  have hrel := hear_tracks p (gnb_fulfils p config) h.tracks x a
  rw [hcall] at hrel
  cases hear : n.hear p config gnbPlacement x a with
  | none =>
    rw [hear] at hrel
    cases hrel
  | some n' =>
    rw [hear] at hrel
    cases hrel with
    | some htracks =>
      have htold : n.told ++ es.map (fun e => (x,e)) = n'.told := htracks.emitted
      refine ⟨n',rfl,?_,?_,?_⟩
      · exact ⟨htracks.shmName,htracks.targetSlot,htracks.encoding,htracks.geom,htracks.running,
          htracks.unchecked,htracks.checked,htracks.writer,rfl⟩
      · rw [hemitted,h.told,← htold]
        simp
      · rw [hseen,slotsOf,List.filterMap_append]
        exact List.rel_append h.slots (.cons hpresents .nil)

/-- Each step is nothing to the announcer, or one call that takes effect there. -/
theorem Heard.linearized {a : PathAction β} (hheard : Heard p s t a)
    (hstarting : s.smControl = .starting → s.sm.running = false)
    (h : Linearized config s n calls) : Linearized config t n calls ∨
      ∃ c n', TakesEffect c a ∧ announce p config gnbPlacement n c = some n' ∧
        Linearized config t n' (calls ++ [c]) := by
  cases hheard with
  | nothing _ hframe hseen hemitted => exact .inl (h.nothing hframe hseen hemitted)
  | started ok hpc hsm hseen hemitted =>
    have hup : n.up = false := h.tracks.running.symm.trans (hstarting hpc)
    refine .inr ⟨.start ok,_,trivial,?_,h.switched rfl hsm hseen hemitted⟩
    rw [announce,hup,Bool.false_or]
  | stopped hsm hseen hemitted =>
    exact .inr ⟨.stop,_,trivial,rfl,h.switched rfl hsm hseen hemitted⟩
  | slot x d a es hpresents hsm hseen hemitted =>
    obtain ⟨n',hn',hnext⟩ := h.slot hpresents hsm hseen hemitted
    exact .inr ⟨.sample x a,n',rfl,hn',hnext⟩

end Linear

section Run

variable [DecidableEq β] {t : PathState β ω}

/-- Every run of the path has a sequence of calls, each taking effect at a step of its own and in
the order of these steps, such that the dApps were sent what the announcer says after these calls.
The slots among them are a selection of what the codelet sent, in its order. -/
theorem path_linearizes (p : Platform ω) (pipelineConfig : SlotPipelineConfig)
    (config : ControllerConfig) (shmWriter : ShmIqWriter) (hgnb : shmWriter.writer = .gnb)
    (trace : Trace) (ring : Ring 64 (QueueEntry β)) (hring : ring.head = ring.tail)
    (mem : β → E3SlotDesc) (actions : List (PathAction β))
    (hrun : run (pathStep p (slotIqPipeline pipelineConfig))
      (PathState.fresh config shmWriter trace ring mem) actions = some t) :
    ∃ calls n, run (announce p config gnbPlacement) {} calls = some n ∧
      t.emitted = n.told.map Prod.snd ∧ t.sm.running = n.up ∧
      (∃ as, as.Sublist actions ∧ List.Forall₂ TakesEffect calls as) ∧
      ∃ ds, ds.Sublist (sentDescs t.fires) ∧ List.Forall₂ (Presents β) (slotsOf calls) ds := by
  have hwrites : shmWriter.writesRows = false := by
    rw [ShmIqWriter.writesRows,hgnb]
    rfl
  have hinv := run_invariant_of_step (fun _ _ _ hi ht => pathStep_inv hwrites hi ht)
    (fresh_pathInv p _ config shmWriter trace mem hring) hrun
  have hfresh : Linearized config
      (PathState.fresh config shmWriter trace ring mem : PathState β ω) {} [] :=
    ⟨fresh_tracks trace hwrites,rfl,.nil⟩
  have hfollows := slot_follows (β := β) p (slotIqPipeline pipelineConfig)
  obtain ⟨n,calls,hn,h,as,has,hcalls⟩ := run_linearizes (R := Linearized config)
    (fun s a t hs (ht : pathStep p _ s a = some t) => hfollows.agreed hs ht)
    (fun _ _ _ _ _ hs hR ht => (pathStep_heard ht).linearized hs.starting hR)
    (constructed_agreed ring mem) hfresh rfl hrun
  exact ⟨calls,n,hn,h.told,h.tracks.running,⟨as,has,hcalls⟩,t.seen,
    (List.sublist_append_left _ _).trans hinv.path,h.slots⟩

end Run

theorem path_linearizes_stopped :
    ∃ t, run (pathStep taggedPlatform (slotIqPipeline { writer := .gnb })) emptyPath
      (refusedThenPublished ++ ServiceModel.slotStop) = some t ∧ t.seen.length = 2 ∧
      t.emitted.length = 1 ∧
      ∃ calls n, run (announce taggedPlatform {} gnbPlacement) {} calls = some n ∧
        t.emitted = n.told.map Prod.snd ∧ t.sm.running = n.up ∧
        (∃ as, as.Sublist (refusedThenPublished ++ ServiceModel.slotStop) ∧
          List.Forall₂ TakesEffect calls as) ∧
        ∃ ds, ds.Sublist (sentDescs t.fires) ∧ List.Forall₂ (Presents ℕ) (slotsOf calls) ds := by
  have hcount : (run (pathStep taggedPlatform (slotIqPipeline { writer := .gnb })) emptyPath
      (refusedThenPublished ++ ServiceModel.slotStop)).map
        (fun t => (t.seen.length,t.emitted.length)) = some (2,1) := by
    decide +kernel
  obtain ⟨t,hrun,hlen⟩ := Option.map_eq_some_iff.mp hcount
  rw [Prod.mk.injEq] at hlen
  exact ⟨t,hrun,hlen.1,hlen.2,path_linearizes taggedPlatform { writer := .gnb } {} gnbWriter rfl {}
    _ rfl _ _ hrun⟩

end SlotPath
end E3Controller
