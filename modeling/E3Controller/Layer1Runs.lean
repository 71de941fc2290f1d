import E3Controller.Layer1
import E3Controller.LabelledRun

/-!
# Geometry over whole runs of the service model

The geometry is compared with the RAN once, on the first sample that is neither
refused nor filtered; the verdict is kept over all later samples and over all
start and stop cycles.
-/

namespace E3Controller
namespace Layer1

open LabelledRun Config SlotApi Shm StageTrace L1Kpm E3SMLayer1

inductive Call
  | start (pipelineOk : Bool)
  | stop
  | sample (s : SlotSample) (a : Answers)

/-- A service model, the samples that reached the geometry check so far, and the
indications emitted so far with the slot each is about. -/
structure Session (ω : Type) where
  sm : E3SMLayer1
  checked : List SlotSample := []
  emitted : List (SlotSample × Emission ω) := []

variable {ω : Type} (p : Platform ω)

def call (t : Session ω) : Call → Option (Session ω)
  | .start pipelineOk => some { t with sm := (t.sm.start pipelineOk).2 }
  | .stop => some { t with sm := t.sm.stop }
  | .sample s a =>
    match t.sm.onSample p s a with
    | none => none
    | some (sm,es) => some {
        sm := sm
        checked := if t.sm.reachesCheck s then t.checked ++ [s] else t.checked
        emitted := t.emitted ++ es.map fun e => (s,e) }

theorem call_sample {t t' : Session ω} {s : SlotSample} {a : Answers}
    (ht : call p t (.sample s a) = some t') :
    ∃ sm es, t.sm.onSample p s a = some (sm,es) ∧ t' = {
      sm := sm
      checked := if t.sm.reachesCheck s then t.checked ++ [s] else t.checked
      emitted := t.emitted ++ es.map fun e => (s,e) } := by
  simp only [call] at ht
  split at ht
  · cases ht
  next sm es hsample => exact ⟨sm,es,hsample,(Option.some.inj ht).symm⟩

def Session.fresh (config : ControllerConfig) (shmWriter : ShmIqWriter) (trace : Trace) : Session ω where
  sm := E3SMLayer1.constructed config shmWriter trace

structure SameConfig (l l' : E3SMLayer1) : Prop where
  shmName : l'.shmName = l.shmName
  encoding : l'.encoding = l.encoding
  geom : l'.geom = l.geom
  writesRows : l'.shmWriter.writesRows = l.shmWriter.writesRows

theorem checkGeometry_sameConfig (l : E3SMLayer1) (s : SlotSample) :
    SameConfig l (l.checkGeometry s) := by
  unfold checkGeometry
  split_ifs <;> exact ⟨rfl,rfl,rfl,rfl⟩

theorem afterCheck_sameConfig (l : E3SMLayer1) (s : SlotSample) : SameConfig l (l.afterCheck s) := by
  unfold afterCheck
  split
  · exact checkGeometry_sameConfig l s
  · exact ⟨rfl,rfl,rfl,rfl⟩

theorem SameConfig.frame {l l' l'' : E3SMLayer1} (h : SameConfig l l') (hf : Frame l' l'') :
    SameConfig l l'' where
  shmName := hf.shmName.trans h.shmName
  encoding := hf.encoding.trans h.encoding
  geom := hf.geom.trans h.geom
  writesRows := hf.writesRows.trans h.writesRows

theorem SameConfig.trans {l l' l'' : E3SMLayer1} (h : SameConfig l l') (h' : SameConfig l' l'') :
    SameConfig l l'' where
  shmName := h'.shmName.trans h.shmName
  encoding := h'.encoding.trans h.encoding
  geom := h'.geom.trans h.geom
  writesRows := h'.writesRows.trans h.writesRows

theorem start_sameConfig (l : E3SMLayer1) (ok : Bool) : SameConfig l (l.start ok).2 := by
  unfold E3SMLayer1.start
  split_ifs <;> exact ⟨rfl,rfl,rfl,rfl⟩

structure LatchInv (g : RadioGeometry) (t : Session ω) : Prop where
  geom : t.sm.geom = g
  unchecked : t.checked = [] → t.sm.geometryChecked = false ∧ t.sm.geometryOk = true ∧ t.emitted = []
  latched : ∀ first rest, t.checked = first :: rest →
    t.sm.geometryChecked = true ∧ t.sm.geometryOk = geometryAgrees g first
  agreed : ∀ x ∈ t.emitted, x.1 ∈ t.checked ∧ t.sm.geometryOk = true

theorem fresh_latchInv (config : ControllerConfig) (shmWriter : ShmIqWriter) (trace : Trace) :
    LatchInv config.radio (Session.fresh config shmWriter trace : Session ω) where
  geom := rfl
  unchecked _ := ⟨rfl,rfl,rfl⟩
  latched _ _ h := by cases h
  agreed x hx := by cases hx

theorem LatchInv.of_sm {g : RadioGeometry} {t : Session ω} (h : LatchInv g t) {sm : E3SMLayer1}
    (hgeom : sm.geom = t.sm.geom) (hchecked : sm.geometryChecked = t.sm.geometryChecked)
    (hok : sm.geometryOk = t.sm.geometryOk) : LatchInv g { t with sm := sm } where
  geom := hgeom.trans h.geom
  unchecked he := by
    rw [hchecked,hok]
    exact h.unchecked he
  latched first rest he := by
    rw [hchecked,hok]
    exact h.latched first rest he
  agreed x hx := by
    rw [hok]
    exact h.agreed x hx

theorem checkGeometry_first {l : E3SMLayer1} (hc : l.geometryChecked = false) (hok : l.geometryOk = true)
    (s : SlotSample) : (l.checkGeometry s).geometryChecked = true ∧
      (l.checkGeometry s).geometryOk = geometryAgrees l.geom s := by
  unfold checkGeometry
  rw [hc]
  cases hagree : geometryAgrees l.geom s
  · exact ⟨rfl,rfl⟩
  · exact ⟨rfl,hok⟩

theorem checkGeometry_later {l : E3SMLayer1} (hc : l.geometryChecked = true) (s : SlotSample) :
    l.checkGeometry s = l := if_pos hc

theorem LatchInv.reached {g : RadioGeometry} {t : Session ω} {s : SlotSample} (h : LatchInv g t) :
    ∃ first rest, t.checked ++ [s] = first :: rest ∧
      (t.sm.checkGeometry s).geometryChecked = true ∧
      (t.sm.checkGeometry s).geometryOk = geometryAgrees g first ∧
      (t.emitted ≠ [] → (t.sm.checkGeometry s).geometryOk = true) := by
  cases hl : t.checked with
  | nil =>
    obtain ⟨hc,hok,he⟩ := h.unchecked hl
    obtain ⟨hc',hok'⟩ := checkGeometry_first hc hok s
    rw [h.geom] at hok'
    exact ⟨s,[],rfl,hc',hok',fun hne => absurd he hne⟩
  | cons first rest =>
    obtain ⟨hc,hok⟩ := h.latched first rest hl
    rw [checkGeometry_later hc]
    refine ⟨first,rest ++ [s],rfl,hc,hok,fun hne => ?_⟩
    obtain ⟨x,hx⟩ := List.exists_mem_of_ne_nil _ hne
    exact (h.agreed x hx).2

theorem sample_latchInv {g : RadioGeometry} {t t' : Session ω} {s : SlotSample} {a : Answers}
    (h : LatchInv g t) (ht : call p t (.sample s a) = some t') : LatchInv g t' := by
  obtain ⟨sm,es,hsample,rfl⟩ := call_sample p ht
  have hframe := onSample_frame p hsample
  have hemit : es = [] ∨ Admitted t.sm s := (onSample_emissions p hsample).imp id fun h => h.1
  have hgeom : sm.geom = g := by
    rw [hframe.geom,(afterCheck_sameConfig t.sm s).geom,h.geom]
  by_cases hreach : t.sm.reachesCheck s
  · have hafter : t.sm.afterCheck s = t.sm.checkGeometry s := if_pos hreach
    rw [hafter] at hframe
    obtain ⟨first,rest,hlist,hchecked,hok,hbefore⟩ := h.reached (s := s)
    simp only [hreach,if_true]
    refine ⟨hgeom,fun hnil => ?_,fun first' rest' hlist' => ?_,fun x hx => ?_⟩
    · exact absurd hnil (List.append_ne_nil_of_right_ne_nil _ (by simp))
    · rw [hlist] at hlist'
      cases hlist'
      exact ⟨hframe.geometryChecked.trans hchecked,hframe.geometryOk.trans hok⟩
    · rw [List.mem_append] at hx
      rw [hframe.geometryOk,List.mem_append]
      rcases hx with hx | hx
      · exact ⟨.inl (h.agreed x hx).1,hbefore (List.ne_nil_of_mem hx)⟩
      · obtain ⟨e,he,rfl⟩ := List.mem_map.mp hx
        have hadm := hemit.resolve_left (List.ne_nil_of_mem he)
        exact ⟨.inr (by simp),hadm.geometryOk⟩
  · have hafter : t.sm.afterCheck s = t.sm := if_neg hreach
    have hes : es = [] := hemit.resolve_right fun hadm => hreach hadm.reaches
    rw [hafter] at hframe
    simp only [hreach,hes,List.map_nil,List.append_nil]
    exact h.of_sm hframe.geom hframe.geometryChecked hframe.geometryOk

theorem call_latchInv {g : RadioGeometry} {t t' : Session ω} {c : Call} (h : LatchInv g t)
    (ht : call p t c = some t') : LatchInv g t' := by
  cases c with
  | start ok =>
    cases ht
    refine h.of_sm (start_sameConfig t.sm ok).geom ?_ ?_
    · unfold E3SMLayer1.start
      split_ifs <;> rfl
    · unfold E3SMLayer1.start
      split_ifs <;> rfl
  | stop =>
    cases ht
    exact h.of_sm rfl rfl rfl
  | sample s a => exact sample_latchInv p h ht

theorem run_latchInv {g : RadioGeometry} {t t' : Session ω} {calls : List Call} (h : LatchInv g t)
    (hrun : run (call p) t calls = some t') : LatchInv g t' :=
  run_invariant_of_step (fun _ _ _ hi ht => call_latchInv p hi ht) h hrun

/-- A mismatch has been found and `emitted` was emitted before. -/
structure Refusing (emitted : List (SlotSample × Emission ω)) (t : Session ω) : Prop where
  checked : t.sm.geometryChecked = true
  mismatch : t.sm.geometryOk = false
  emitted : t.emitted = emitted

/-- Once a mismatch is found, no call emits anything or lifts the refusal. -/
theorem call_refusing {before : List (SlotSample × Emission ω)} {t t' : Session ω} {c : Call}
    (h : Refusing before t) (ht : call p t c = some t') : Refusing before t' := by
  cases c with
  | start ok =>
    cases ht
    unfold E3SMLayer1.start
    split_ifs <;> exact ⟨h.checked,h.mismatch,h.emitted⟩
  | stop =>
    cases ht
    exact ⟨h.checked,h.mismatch,h.emitted⟩
  | sample s a =>
    obtain ⟨sm,es,hsample,rfl⟩ := call_sample p ht
    have hframe := onSample_frame p hsample
    have hafter : t.sm.afterCheck s = t.sm := by
      unfold afterCheck
      rw [checkGeometry_later h.checked,ite_self]
    rw [hafter] at hframe
    have hes : es = [] := by
      rcases onSample_emissions p hsample with hnil | ⟨hadm,-⟩
      · exact hnil
      · have hok := hadm.geometryOk
        rw [checkGeometry_later h.checked,h.mismatch] at hok
        cases hok
    refine ⟨hframe.geometryChecked.trans h.checked,hframe.geometryOk.trans h.mismatch,?_⟩
    rw [hes,List.map_nil,List.append_nil,h.emitted]

/-- In every run, indications are emitted only if the first slot that reached the
check agreed with the configuration, and only for slots that reached it; once the
check found a mismatch nothing is emitted any more, over any starts and stops. -/
theorem emitted_only_if_first_agrees (config : ControllerConfig) (shmWriter : ShmIqWriter)
    (trace : Trace) (calls : List Call) (t : Session ω)
    (hrun : run (call p) (Session.fresh config shmWriter trace) calls = some t) :
    (∀ x ∈ t.emitted, x.1 ∈ t.checked ∧
      ∃ first rest, t.checked = first :: rest ∧ geometryAgrees config.radio first = true) ∧
    ∀ first rest, t.checked = first :: rest → geometryAgrees config.radio first = false →
      ∀ later t', run (call p) t later = some t' → t'.emitted = t.emitted := by
  have hinv := run_latchInv p (fresh_latchInv config shmWriter trace) hrun
  constructor
  · intro x hx
    obtain ⟨hmem,hok⟩ := hinv.agreed x hx
    obtain ⟨first,rest,hlist⟩ := List.exists_cons_of_ne_nil (List.ne_nil_of_mem hmem)
    have hlatch := (hinv.latched first rest hlist).2
    exact ⟨hmem,first,rest,hlist,hlatch.symm.trans hok⟩
  · intro first rest hlist hbad later t' hlater
    obtain ⟨hchecked,hlatch⟩ := hinv.latched first rest hlist
    have hrefuse : Refusing t.emitted t := ⟨hchecked,hlatch.trans hbad,rfl⟩
    exact (run_invariant_of_step (fun _ _ _ hi ht => call_refusing p hi ht) hrefuse hlater).emitted

def fullBandSample (ports : UInt16) : SlotSample where
  nofPorts := ports
  nofSymbols := 14
  nofSubcarriers := 3276
  bytesWritten := 183456 * ports.toUInt32

def oneSubscriber : Answers where
  subscribers := ⟨[1],by decide⟩
  alloc := ⟨true,true⟩
  emitOk _ := true
  encodeBeginNs := 0
  encodeEndNs := 0
  emitTailNs := 0

def taggedPlatform : Platform (JsonIndication ⊕ AperIndication) where
  target := RowConversion.neonTarget
  mul x _ := x
  codecs := taggedCodecs

def gnbWriter : ShmIqWriter where
  writer := .gnb

def rewiredCalls : List Call :=
  [.start true,.sample (fullBandSample 4) oneSubscriber,.sample (fullBandSample 2) oneSubscriber]

theorem emitted_only_if_first_agrees_rewired :
    ∃ t, run (call taggedPlatform) (Session.fresh {} gnbWriter {}) rewiredCalls = some t ∧
      t.emitted.length = 2 ∧ ∀ x ∈ t.emitted, x.1 ∈ t.checked ∧
        ∃ first rest, t.checked = first :: rest ∧ geometryAgrees {} first = true := by
  obtain ⟨t,hrun,hlen⟩ : ∃ t, run (call taggedPlatform) (Session.fresh {} gnbWriter {})
      rewiredCalls = some t ∧ t.emitted.length = 2 := ⟨_,rfl,rfl⟩
  exact ⟨t,hrun,hlen,(emitted_only_if_first_agrees taggedPlatform {} gnbWriter {} _ t hrun).1⟩

/-- The second slot of that run disagrees with the configuration and is published. -/
theorem later_mismatch_is_published :
    ∃ t x, run (call taggedPlatform) (Session.fresh {} gnbWriter {}) rewiredCalls = some t ∧
      x ∈ t.emitted ∧ geometryAgrees {} x.1 = false := by
  refine ⟨_,(fullBandSample 2,_),rfl,List.mem_append_right _ (List.mem_cons_self ..),?_⟩
  decide

end Layer1
end E3Controller
