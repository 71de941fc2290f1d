import E3Controller.RunMeasure
import E3Controller.ServiceModels

/-!
# The spectrum path as a sequence of calls

`E3SMSpectrum` and its pipeline keep a decompression buffer, a padded buffer and an indication that
are written again for every sample. What the dApps are sent is none the less what a sequence of
`start`, `stop` and samples makes of each sample alone.
-/

namespace E3Controller
namespace SpectrumPath

open LabelledRun SlotApi SpscRing Pipeline Bfp Ecpri SectionPath Spectrum
open Layer1 (Emission)
open ServiceModel (Agreed spectrumView spectrum_follows constructed_agreed)

variable {β ω : Type}

/-- The calls of the service model, and of the pipeline's `dispatch_sample` on its behalf. -/
inductive Call
  | start (pipelineOk : Bool)
  | stop
  | sample (d : IqSampleData) (a : Spectrum.Answers)

structure Announcer (ω : Type) where
  up : Bool := false
  told : List (Emission ω) := []

/-- What the service model is for: each sample is announced by itself. -/
def announce (wide : WideShift) (codec : IqCodec ω) (encoding : Config.EncodingFormat)
    (n : Announcer ω) : Call → Option (Announcer ω)
  | .start pipelineOk => some { n with up := n.up || pipelineOk }
  | .stop => some { n with up := false }
  | .sample d a => some { n with told := n.told ++ said wide codec n.up encoding d a }

def samplesOf (calls : List Call) : List IqSampleData :=
  calls.filterMap fun
    | .sample d _ => some d
    | _ => none

def TakesEffect : Call → PathAction β → Prop
  | .start _, .smReturn => True
  | .stop, .smStop => True
  | .sample _ a, .worker b _ => a = b
  | _, _ => False

section Linear

variable (encoding : Config.EncodingFormat)

structure Linearized (s : PathState β ω) (n : Announcer ω) (calls : List Call) : Prop where
  encoding : s.sm.encoding = encoding
  running : s.sm.running = n.up
  told : s.emitted = n.told
  samples : s.fed.taken = samplesOf calls

variable {encoding} {wide : WideShift} {codec : IqCodec ω} {k : Kind IqSampleData PrbFilterConfig}
  {s t : PathState β ω} {n : Announcer ω} {calls : List Call}

theorem Linearized.quiet (h : Linearized encoding s n calls) (hsm : t.sm = s.sm)
    (hemitted : t.emitted = s.emitted) (htaken : t.fed.taken = s.fed.taken) :
    Linearized encoding t n calls where
  encoding := hsm ▸ h.encoding
  running := hsm ▸ h.running
  told := hemitted.trans h.told
  samples := htaken.trans h.samples

theorem Linearized.switched (h : Linearized encoding s n calls) {c : Call} {up : Bool}
    (hc : samplesOf [c] = []) (hsm : t.sm = { s.sm with running := up })
    (hemitted : t.emitted = s.emitted) (htaken : t.fed.taken = s.fed.taken) :
    Linearized encoding t { n with up := up } (calls ++ [c]) where
  encoding := hsm ▸ h.encoding
  running := hsm ▸ rfl
  told := hemitted.trans h.told
  samples := by
    rw [samplesOf] at hc
    rw [htaken,h.samples,samplesOf,samplesOf,List.filterMap_append,hc,List.append_nil]

variable [DecidableEq β]

/-- `dispatch_sample` adds its sample to the calls, and what is said about it to the messages. -/
theorem Linearized.dispatched (h : Linearized encoding s n calls) {a : Spectrum.Answers}
    {ns : UInt64} {tail : BitVec 64} {fed : Fed β IqSampleData PrbFilterConfig}
    (hw : s.fed.pipe.worker = .dispatch tail) (hfeed : feedStep k s.fed (.act .worker) = some fed)
    (ht : dispatchPathStep wide codec k s fed tail a ns = some t) :
    ∃ d, Linearized encoding t { n with told := n.told ++ said wide codec n.up encoding d a }
      (calls ++ [.sample d a]) := by
  obtain ⟨buf,sm,hstep,hrunning,hencoding⟩ := dispatchPathStep_says wide codec k s fed tail a ns
  rw [hstep,Option.some.injEq] at ht
  subst ht
  obtain ⟨pipe,-,rfl⟩ := Option.map_eq_some_iff.mp hfeed
  refine ⟨s.fed.pipe.mem (s.fed.pipe.ring.slots (slotIndex k.logCapacity tail)).buf,
    hencoding.trans h.encoding,hrunning.trans h.running,?_,?_⟩
  · rw [h.told,h.running,h.encoding]
  · have htaken : (dispatchedBy k s.fed.pipe .worker).map Prod.snd =
        [s.fed.pipe.mem (s.fed.pipe.ring.slots (slotIndex k.logCapacity tail)).buf] := by
      simp [dispatchedBy,hw]
    rw [htaken,h.samples,samplesOf,samplesOf,List.filterMap_append]
    rfl

/-- Each step is nothing to the announcer, or one call that takes effect there. -/
theorem pathStep_linearized {a : PathAction β} (ht : pathStep wide codec k s a = some t)
    (hstarting : s.smControl = .starting → s.sm.running = false)
    (h : Linearized encoding s n calls) : Linearized encoding t n calls ∨
      ∃ c n', TakesEffect c a ∧ announce wide codec encoding n c = some n' ∧
        Linearized encoding t n' (calls ++ [c]) := by
  have hquiet : ∀ {x : FeedAction β IqSampleData} {fed}, (∀ b d, x ≠ .output b d) →
      (∀ y, x = .act y → dispatchedBy k s.fed.pipe y = []) → feedStep k s.fed x = some fed →
      fed.taken = s.fed.taken := fun hout hact hfeed => (feedStep_quiet hout hact hfeed).2
  cases pathStep_move ht with
  | skip => exact .inl (h.quiet rfl rfl rfl)
  | fire _ hfeed =>
    refine .inl (h.quiet rfl rfl ?_)
    simp only [feedStep] at hfeed
    split at hfeed
    · cases hfeed
    · obtain ⟨pipe,-,rfl⟩ := Option.map_eq_some_iff.mp hfeed
      rfl
  | lose hfeed => exact .inl (h.quiet rfl rfl (hquiet (by simp) (by simp) hfeed))
  | deliver hfeed => exact .inl (h.quiet rfl rfl (hquiet (by simp) (by simp) hfeed))
  | poll hfeed => exact .inl (h.quiet rfl rfl (hquiet (by simp) (by simp [dispatchedBy]) hfeed))
  | @dispatch a ns tail _ fed hw hfeed hsample =>
    obtain ⟨d,hd⟩ := h.dispatched hw hfeed hsample
    exact .inr ⟨.sample d a,_,rfl,rfl,hd⟩
  | worker hw hfeed =>
    refine .inl (h.quiet rfl rfl (hquiet (by simp) (fun y hy => ?_) hfeed))
    cases hy
    cases hpc : s.fed.pipe.worker with
    | dispatch tail => exact absurd hpc (hw tail)
    | _ => simp [dispatchedBy,hpc]
  | control hfeed => exact .inl (h.quiet rfl rfl (hquiet (by simp) (by simp [dispatchedBy]) hfeed))
  | startAgain => exact .inl h
  | start _ _ hfeed => exact .inl (h.quiet rfl rfl (hquiet (by simp) (by simp [dispatchedBy]) hfeed))
  | stopAgain => exact .inl h
  | stop _ _ hfeed =>
    exact .inr ⟨.stop,_,trivial,rfl,
      h.switched rfl rfl rfl (hquiet (by simp) (by simp [dispatchedBy]) hfeed)⟩
  | started _ hpc =>
    have hup : n.up = false := h.running.symm.trans (hstarting hpc)
    refine .inr ⟨.start s.fed.pipe.running,_,trivial,?_,h.switched rfl rfl rfl rfl⟩
    rw [announce,hup,Bool.false_or]
  | stopped => exact .inl (h.quiet rfl rfl rfl)

end Linear

section Run

variable [DecidableEq β] (wide : WideShift) (codec : IqCodec ω) (cfg : IqPipelineConfig)

/-- Every run of the path has a sequence of calls, each taking effect at a step of its own and in
the order of these steps, such that the dApps were sent what the announcer says after these calls.
The samples among them passed the filter of the pipeline and are a selection of what the codelet
sent, in its order. -/
theorem spectrum_linearizes (encoding : Config.EncodingFormat) (statsLogPath : CString.Str)
    (ring : Ring 64 (QueueEntry β)) (hring : ring.head = ring.tail) (mem : β → IqSampleData)
    (actions : List (PathAction β)) (t : PathState β ω)
    (hrun : run (pathStep wide codec (iqPipeline cfg)) (PathState.fresh encoding statsLogPath ring mem)
      actions = some t) :
    ∃ calls n, run (announce wide codec encoding) {} calls = some n ∧ t.emitted = n.told ∧
      t.sm.running = n.up ∧ (∃ as, as.Sublist actions ∧ List.Forall₂ TakesEffect calls as) ∧
      (samplesOf calls).Sublist (t.fires.filterMap fun f => f.2.sent) ∧
      ∀ d ∈ samplesOf calls, (iqPipeline cfg).keep d = true := by
  have hinv : PathInv wide codec (iqPipeline cfg) t :=
    run_invariant_of_step (fun _ _ _ hi ht => pathStep_inv hi ht)
      (fresh_pathInv wide codec _ encoding statsLogPath mem hring) hrun
  have hfresh : Linearized encoding
      (PathState.fresh encoding statsLogPath ring mem : PathState β ω) {} [] := ⟨rfl,rfl,rfl,rfl⟩
  have hfollows := spectrum_follows (β := β) wide codec (iqPipeline cfg)
  obtain ⟨n,calls,hn,h,as,has,hcalls⟩ := run_linearizes (R := Linearized encoding)
    (fun s a t hs (ht : pathStep wide codec _ s a = some t) => hfollows.agreed hs ht)
    (fun _ _ _ _ _ hs hR ht => pathStep_linearized ht hs.starting hR)
    (constructed_agreed ring mem) hfresh rfl hrun
  rw [List.nil_append] at hn h
  refine ⟨calls,n,hn,h.told,h.running,⟨as,has,hcalls⟩,?_,?_⟩
  · rw [← h.samples,← hinv.sent]
    exact hinv.fed.taken_sublist_sent
  · rw [← h.samples]
    exact hinv.fed.taken

end Run

theorem spectrum_linearizes_stopped :
    ∃ t, run (pathStep (fun m _ => m) keepingIqCodec (iqPipeline { expectedNumPrbu := 1 })) emptyPath
      (otherThenTarget ++ ServiceModel.spectrumStop) = some t ∧ t.fires.length = 2 ∧
      t.emitted.length = 1 ∧
      ∃ calls n, run (announce (fun m _ => m) keepingIqCodec .asn1) {} calls = some n ∧
        t.emitted = n.told ∧ t.sm.running = n.up ∧
        (∃ as, as.Sublist (otherThenTarget ++ ServiceModel.spectrumStop) ∧
          List.Forall₂ TakesEffect calls as) ∧
        (samplesOf calls).Sublist (t.fires.filterMap fun f => f.2.sent) ∧
        ∀ d ∈ samplesOf calls, (iqPipeline { expectedNumPrbu := 1 }).keep d = true := by
  have hcount : (run (pathStep (fun m _ => m) keepingIqCodec (iqPipeline { expectedNumPrbu := 1 }))
      emptyPath (otherThenTarget ++ ServiceModel.spectrumStop)).map
        (fun t => (t.fires.length,t.emitted.length)) = some (2,1) := by
    decide +kernel
  obtain ⟨t,hrun,hlen⟩ := Option.map_eq_some_iff.mp hcount
  rw [Prod.mk.injEq] at hlen
  exact ⟨t,hrun,hlen.1,hlen.2,spectrum_linearizes (fun m _ => m) keepingIqCodec
    { expectedNumPrbu := 1 } .asn1 [] _ rfl _ _ t hrun⟩

end SpectrumPath
end E3Controller
