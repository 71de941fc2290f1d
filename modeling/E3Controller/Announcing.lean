import E3Controller.RowRetention
import E3Controller.RunMeasure

/-!
# What the service model of RF=2 is for

`E3SMLayer1` keeps counters, warnings, stage records, a geometry latch and the cursor of a ring.
What its subscribers are sent depends on little of this. `announce` says what they are sent, and
every run of the service model sends just that.
-/

namespace E3Controller
namespace Layer1

open LabelledRun Config SlotApi Shm StageTrace L1Kpm CString E3SMLayer1
open ShmIqWriter (RingAt)

section Announcer

variable {ω : Type}

/-- How slots come to a row: which ones have something to announce, and the row of the `n`-th. -/
structure Placement where
  usable : SlotSample → Bool
  row : ℕ → SlotSample → UInt8 × UInt32

/-- The gNB's helper wrote the row and says where. -/
def gnbPlacement : Placement where
  usable s := !(s.flags &&& flagTruncated ≠ 0 || s.bytesWritten = 0)
  row _ s := (s.fhBufferIndex,s.fhWriteIndex)

/-- The controller fills the rows of both buffers in turn. -/
def controllerPlacement (g : RadioGeometry) (rows : ℕ) : Placement where
  usable s := s.iq.isSome && s.iqSizeBytes ≠ 0 &&
    !(s.iqSizeBytes < (portsClamped g s).toUInt32 * g.cbf16BytesPerAnt)
  row n _ := (UInt8.ofNat (n / rows % 2),UInt32.ofNat (n % rows))

/-- `verdict` is that of the first selected slot, `placed` counts the slots that were given a row
and `told` is what the subscribers were sent, with the slot it is about. -/
structure Announcer (ω : Type) where
  up : Bool := false
  verdict : Option Bool := none
  placed : ℕ := 0
  told : List (SlotSample × Emission ω) := []

def selected (config : ControllerConfig) (s : SlotSample) : Bool :=
  config.targetSlot < 0 || s.slotId.toNat = config.targetSlot

variable (p : Platform ω) (config : ControllerConfig)

/-- The indication of a slot in a row; `none` if the JSON library throws. -/
def indicationOf (s : SlotSample) (row : UInt8 × UInt32) (alloc : AllocAnswers) :
    Option (Option ω) :=
  match config.e3.encoding with
  | .json => (encodeIqIndicationJson p.codecs s.gnbTsNs s.sfn s.slotId config.shm.name row.1 row.2
      (portsClamped config.radio s)).map some
  | .asn1 => some (encodeIqIndicationAper p.codecs alloc s.gnbTsNs s.sfn s.slotId config.shm.name
      row.1 row.2 (portsClamped config.radio s))

variable (pl : Placement)

def Announcer.hear (n : Announcer ω) (s : SlotSample) (a : Answers) : Option (Announcer ω) :=
  if !(n.up && selected config s) then some n
  else
    let ok := n.verdict.getD (geometryAgrees config.radio s)
    if !(ok && pl.usable s && !a.subscribers.ids.isEmpty) then some { n with verdict := some ok }
    else (indicationOf p config s (pl.row n.placed s) a.alloc).map fun payload => { n with
      verdict := some ok
      placed := n.placed + 1
      told := n.told ++ (payload.elim [] fun payload => emissions payload a).map fun e => (s,e) }

def announce (n : Announcer ω) : Call → Option (Announcer ω)
  | .start pipelineOk => some { n with up := n.up || pipelineOk }
  | .stop => some { n with up := false }
  | .sample s a => n.hear p config pl s a

end Announcer

section OneCall

variable {ω : Type} (p : Platform ω)

theorem dropReason_none_iff (l : E3SMLayer1) (s : SlotSample) (subscribers : List UInt32) :
    (l.dropReason s subscribers).1 = none ↔ l.reachesCheck s = true ∧
      (l.checkGeometry s).geometryOk = true ∧ ((l.checkGeometry s).checkPayload s).1 = none ∧
      subscribers.isEmpty = false := by
  constructor
  · intro h
    obtain ⟨hreach,hok,hpayload⟩ := admitted_of_dropReason h
    refine ⟨hreach,hok,hpayload,?_⟩
    simp only [reachesCheck,Bool.and_eq_true,Bool.not_eq_true'] at hreach
    unfold dropReason at h
    simp only [hreach.1,hreach.2,hok,Bool.not_true,Bool.false_eq_true,if_false] at h
    cases hp : (l.checkGeometry s).checkPayload s with
    | mk d l' =>
      rw [hp] at h hpayload
      cases hpayload
      by_contra hempty
      simp [Bool.not_eq_false _ ▸ hempty] at h
  · rintro ⟨hreach,hok,hpayload,hsubs⟩
    simp only [reachesCheck,Bool.and_eq_true,Bool.not_eq_true'] at hreach
    unfold dropReason
    simp only [hreach.1,hreach.2,hok,Bool.not_true,Bool.false_eq_true,if_false]
    cases hp : (l.checkGeometry s).checkPayload s with
    | mk d l' =>
      rw [hp] at hpayload
      cases hpayload
      simp [hsubs]

theorem onSample_dropped {l : E3SMLayer1} {s : SlotSample} {a : Answers}
    (h : (l.dropReason s a.subscribers.ids).1 ≠ none) :
    ∃ l', l.onSample p s a = some (l',[]) ∧ Frame (l.afterCheck s) l' ∧
      l'.shmWriter = l.shmWriter := by
  have hframe := dropReason_frame l s a.subscribers.ids
  have hwriter := dropReason_shmWriter l s a.subscribers.ids
  unfold onSample
  cases hadm : l.dropReason s a.subscribers.ids with
  | mk d l₁ =>
    rw [hadm] at h hframe hwriter
    cases d with
    | none => exact absurd rfl h
    | some d => exact ⟨l₁.noteDrop d,rfl,hframe.trans (noteDrop_frame l₁ d),hwriter⟩

theorem publishSlot_told (l : E3SMLayer1) (s : SlotSample) (a : Answers) :
    (l.publishSlot p s a).map Prod.snd = (l.encodeIndication p s (l.placeRow p s).1 a.alloc).map
      fun payload => payload.elim [] fun payload => emissions payload a := by
  unfold publishSlot
  cases he : l.encodeIndication p s (l.placeRow p s).1 a.alloc with
  | none => simp only [he,Option.map_none]
  | some result =>
    cases result with
    | none => simp only [he,Option.map_some,Option.elim_none]
    | some payload =>
      simp only [he,Option.map_some,Option.elim_some,fanOut_emissions]
      rfl

end OneCall

section Simulation

variable {ω : Type} (p : Platform ω) (config : ControllerConfig)

/-- A writer that is in state `n` after `n` slots finds what is usable, and the rows, as the
placement says. -/
structure Fulfils (pl : Placement) (writer : ℕ → ShmIqWriter → Prop) : Prop where
  usable : ∀ {n l} s, writer n l.shmWriter → l.geom = config.radio →
    ((E3SMLayer1.checkPayload l s).1 = none ↔ pl.usable s = true)
  row : ∀ {n l} s, writer n l.shmWriter → l.geom = config.radio →
    (E3SMLayer1.placeRow p l s).1 = pl.row n s ∧ writer (n + 1) (l.placeRow p s).2

/-- The fields of the service model that matter, against the announcer. -/
structure Tracks (writer : ℕ → ShmIqWriter → Prop) (t : Session ω) (n : Announcer ω) : Prop where
  shmName : t.sm.shmName = config.shm.name
  targetSlot : t.sm.targetSlot = config.targetSlot
  encoding : t.sm.encoding = config.e3.encoding
  geom : t.sm.geom = config.radio
  running : t.sm.running = n.up
  unchecked : n.verdict = none → t.sm.geometryChecked = false ∧ t.sm.geometryOk = true
  checked : ∀ ok, n.verdict = some ok → t.sm.geometryChecked = true ∧ t.sm.geometryOk = ok
  writer : writer n.placed t.sm.shmWriter
  emitted : t.emitted = n.told

variable {config} {pl : Placement} {writer : ℕ → ShmIqWriter → Prop} {t : Session ω}
  {n : Announcer ω}

theorem Tracks.reaches (h : Tracks config writer t n) (s : SlotSample) :
    t.sm.reachesCheck s = (n.up && selected config s) := by
  simp only [reachesCheck,slotFiltered,selected,h.running,h.targetSlot]
  congr 1
  by_cases hslot : config.targetSlot < 0
  · simp [hslot]
  · simp [hslot,not_lt.mp hslot]

theorem Tracks.latched (h : Tracks config writer t n) (s : SlotSample) :
    (t.sm.checkGeometry s).geometryChecked = true ∧ (t.sm.checkGeometry s).geometryOk =
      n.verdict.getD (geometryAgrees config.radio s) := by
  cases hv : n.verdict with
  | none =>
    obtain ⟨hchecked,hok⟩ := h.unchecked hv
    have hfirst := checkGeometry_first hchecked hok s
    rwa [h.geom] at hfirst
  | some ok =>
    obtain ⟨hchecked,hok⟩ := h.checked ok hv
    rw [checkGeometry_later hchecked]
    exact ⟨hchecked,hok⟩

theorem Tracks.framed (h : Tracks config writer t n) {l' : E3SMLayer1} (hframe : Frame t.sm l')
    {placed : ℕ} (hwriter : writer placed l'.shmWriter) (checked : List SlotSample)
    (es : List (SlotSample × Emission ω)) :
    Tracks config writer ⟨l',checked,t.emitted ++ es⟩
      { n with placed := placed, told := n.told ++ es } where
  shmName := hframe.shmName.trans h.shmName
  targetSlot := hframe.targetSlot.trans h.targetSlot
  encoding := hframe.encoding.trans h.encoding
  geom := hframe.geom.trans h.geom
  running := hframe.running.trans h.running
  unchecked hv := by
    rw [hframe.geometryChecked,hframe.geometryOk]
    exact h.unchecked hv
  checked ok hv := by
    rw [hframe.geometryChecked,hframe.geometryOk]
    exact h.checked ok hv
  writer := hwriter
  emitted := by rw [h.emitted]

theorem Tracks.check (h : Tracks config writer t n) (s : SlotSample) :
    Tracks config writer { t with sm := t.sm.checkGeometry s }
      { n with verdict := some (n.verdict.getD (geometryAgrees config.radio s)) } where
  shmName := (checkGeometry_sameConfig t.sm s).shmName.trans h.shmName
  targetSlot := by
    rw [← h.targetSlot]
    unfold checkGeometry
    split_ifs <;> rfl
  encoding := (checkGeometry_sameConfig t.sm s).encoding.trans h.encoding
  geom := (checkGeometry_sameConfig t.sm s).geom.trans h.geom
  running := by
    rw [← h.running]
    unfold checkGeometry
    split_ifs <;> rfl
  unchecked hv := by cases hv
  checked ok hv := by
    cases hv
    exact h.latched s
  writer := by
    rw [checkGeometry_shmWriter]
    exact h.writer
  emitted := h.emitted

theorem encodeIndication_eq {l : E3SMLayer1} (hname : l.shmName = config.shm.name)
    (hencoding : l.encoding = config.e3.encoding) (hgeom : l.geom = config.radio) (s : SlotSample)
    (row : UInt8 × UInt32) (alloc : AllocAnswers) :
    l.encodeIndication p s row alloc = indicationOf p config s row alloc := by
  cases henc : config.e3.encoding with
  | json => simp only [encodeIndication,indicationOf,hname,hencoding,hgeom,henc]
  | asn1 => simp only [encodeIndication,indicationOf,hname,hencoding,hgeom,henc]

/-- A slot that passes every check is placed and announced as the announcer does. -/
theorem publish_tracks (hf : Fulfils p config pl writer) (h : Tracks config writer t n)
    (s : SlotSample) (a : Answers) (checked : List SlotSample) :
    Option.Rel (Tracks config writer)
      ((t.sm.publishSlot p s a).map fun r => ⟨r.1,checked,t.emitted ++ r.2.map fun e => (s,e)⟩)
      ((indicationOf p config s (pl.row n.placed s) a.alloc).map fun payload => { n with
        placed := n.placed + 1
        told := n.told ++ (payload.elim [] fun payload => emissions payload a).map fun e => (s,e) }) := by
  obtain ⟨hrow,hwriter⟩ := hf.row s h.writer h.geom
  have htold := publishSlot_told p t.sm s a
  rw [encodeIndication_eq p h.shmName h.encoding h.geom,hrow] at htold
  cases hpub : t.sm.publishSlot p s a with
  | none =>
    rw [hpub,Option.map_none,eq_comm,Option.map_eq_none_iff] at htold
    rw [htold]
    exact .none
  | some r =>
    rw [hpub,Option.map_some,eq_comm,Option.map_eq_some_iff] at htold
    obtain ⟨payload,hpayload,hes⟩ := htold
    rw [hpayload,Option.map_some,Option.map_some,hes]
    refine .some (h.framed (publishSlot_spec p hpub).1 ?_ checked _)
    rw [publishSlot_shmWriter p hpub]
    exact hwriter

theorem Tracks.passes_iff (hf : Fulfils p config pl writer) (h : Tracks config writer t n)
    {s : SlotSample} (hreach : t.sm.reachesCheck s = true) (subscribers : List UInt32) :
    (t.sm.dropReason s subscribers).1 = none ↔
      (n.verdict.getD (geometryAgrees config.radio s) && pl.usable s && !subscribers.isEmpty) =
        true := by
  have hcheck := h.check s
  rw [dropReason_none_iff,hf.usable s hcheck.writer hcheck.geom,(h.latched s).2]
  simp [hreach,and_assoc]

theorem call_sample_eq (t : Session ω) (s : SlotSample) (a : Answers) :
    call p t (.sample s a) = (t.sm.onSample p s a).map fun r =>
      ⟨r.1,if t.sm.reachesCheck s then t.checked ++ [s] else t.checked,
        t.emitted ++ r.2.map fun e => (s,e)⟩ := by
  rw [call]
  cases t.sm.onSample p s a <;> rfl

theorem hear_tracks (hf : Fulfils p config pl writer) (h : Tracks config writer t n)
    (s : SlotSample) (a : Answers) :
    Option.Rel (Tracks config writer) (call p t (.sample s a)) (n.hear p config pl s a) := by
  rw [call_sample_eq,Announcer.hear,← h.reaches s]
  by_cases hreach : t.sm.reachesCheck s = true
  · have hcheck := h.check s
    have hpasses := h.passes_iff p hf hreach a.subscribers.ids
    have hafter : t.sm.afterCheck s = t.sm.checkGeometry s := if_pos hreach
    simp only [hreach,Bool.not_true,Bool.false_eq_true,if_false,if_true]
    by_cases hpass : (t.sm.dropReason s a.subscribers.ids).1 = none
    · have hframe := dropReason_frame t.sm s a.subscribers.ids
      have hwriter := dropReason_shmWriter t.sm s a.subscribers.ids
      rw [hpasses.mp hpass]
      simp only [Bool.not_true,Bool.false_eq_true,if_false]
      unfold onSample
      cases hadm : t.sm.dropReason s a.subscribers.ids with
      | mk d l₂ =>
        rw [hadm] at hframe hwriter hpass
        cases hpass
        rw [hafter] at hframe
        have htracks := hcheck.framed hframe (hwriter ▸ h.writer) t.checked []
        simpa using publish_tracks p hf htracks s a (t.checked ++ [s])
    · obtain ⟨l',hsample,hframe,hwriter⟩ := onSample_dropped p hpass
      rw [hafter] at hframe
      have hstop : (n.verdict.getD (geometryAgrees config.radio s) && pl.usable s &&
          !a.subscribers.ids.isEmpty) = false := by
        rw [Bool.eq_false_iff]
        exact fun hall => hpass (hpasses.mpr hall)
      rw [hsample,hstop]
      have htracks := hcheck.framed hframe (hwriter ▸ h.writer) (t.checked ++ [s]) []
      simpa using Option.Rel.some htracks
  · have hpass : (t.sm.dropReason s a.subscribers.ids).1 ≠ none := by
      rw [Ne,dropReason_none_iff]
      exact fun hall => hreach hall.1
    obtain ⟨l',hsample,hframe,hwriter⟩ := onSample_dropped p hpass
    rw [show t.sm.afterCheck s = t.sm from if_neg hreach] at hframe
    rw [hsample]
    have htracks := h.framed hframe (hwriter ▸ h.writer) t.checked []
    simpa [hreach] using Option.Rel.some htracks

theorem Tracks.switch (h : Tracks config writer t n) {l' : E3SMLayer1} {up : Bool}
    (hframe : Frame { t.sm with running := up } l') (hwriter : l'.shmWriter = t.sm.shmWriter) :
    Tracks config writer { t with sm := l' } { n with up := up } where
  shmName := hframe.shmName.trans h.shmName
  targetSlot := hframe.targetSlot.trans h.targetSlot
  encoding := hframe.encoding.trans h.encoding
  geom := hframe.geom.trans h.geom
  running := hframe.running
  unchecked hv := by
    rw [hframe.geometryChecked,hframe.geometryOk]
    exact h.unchecked hv
  checked ok hv := by
    rw [hframe.geometryChecked,hframe.geometryOk]
    exact h.checked ok hv
  writer := by
    rw [hwriter]
    exact h.writer
  emitted := h.emitted

theorem call_tracks (hf : Fulfils p config pl writer) (h : Tracks config writer t n) (c : Call) :
    Option.Rel (Tracks config writer) (call p t c) (announce p config pl n c) := by
  cases c with
  | start ok =>
    refine .some ?_
    have hstart : Frame { t.sm with running := t.sm.running || ok } (t.sm.start ok).2 ∧
        (t.sm.start ok).2.shmWriter = t.sm.shmWriter := by
      unfold E3SMLayer1.start startBegin
      cases hr : t.sm.running <;> cases ok <;>
        exact ⟨⟨rfl,rfl,rfl,rfl,rfl,by simp [hr],rfl,rfl⟩,rfl⟩
    have hswitch := h.switch hstart.1 hstart.2
    rwa [h.running] at hswitch
  | stop => exact .some (h.switch ⟨rfl,rfl,rfl,rfl,rfl,rfl,rfl,rfl⟩ rfl)
  | sample s a => exact hear_tracks p hf h s a

theorem fresh_tracks {shmWriter : ShmIqWriter} (trace : Trace) (hwriter : writer 0 shmWriter) :
    Tracks config writer (Session.fresh config shmWriter trace : Session ω) {} where
  shmName := rfl
  targetSlot := rfl
  encoding := rfl
  geom := rfl
  running := rfl
  unchecked _ := ⟨rfl,rfl⟩
  checked ok hv := by cases hv
  writer := hwriter
  emitted := rfl

theorem emitted_eq_told {r : Option (Session ω)} {r' : Option (Announcer ω)}
    (h : Option.Rel (Tracks config writer) r r') :
    r.map Session.emitted = r'.map Announcer.told := by
  cases h with
  | none => rfl
  | some htracks => exact congrArg some htracks.emitted

end Simulation

section Modes

variable {ω : Type} (p : Platform ω) (config : ControllerConfig)

theorem gnb_fulfils : Fulfils p config gnbPlacement fun _ w => w.writesRows = false where
  usable {n l} s hgnb _ := by
    simp only [checkPayload,hgnb,Bool.false_eq_true,if_false,gnbPlacement]
    split
    next hbad => simpa [imp_iff_not_or] using hbad
    next hgood => simpa using hgood
  row s hgnb _ := by
    refine ⟨placeRow_gnb p hgnb s,?_⟩
    rw [placeRow_writesRows]
    exact hgnb

theorem controller_fulfils {rows : UInt32} (hrows : 0 < rows.toNat) :
    Fulfils p config (controllerPlacement config.radio rows.toNat)
      (RingAt rows config.radio config.shm.cbf16Scale) where
  usable {n l} s hring hgeom := by
    simp only [checkPayload,hring.writesRows,if_true,hgeom,controllerPlacement]
    split
    next hbad =>
      rcases Bool.or_eq_true _ _ |>.mp hbad with hnone | hzero
      · simp [Option.isNone_iff_eq_none.mp hnone]
      · simp [of_decide_eq_true hzero]
    next hgood =>
      rw [Bool.or_eq_true,not_or] at hgood
      split
      next hsmall => simp [hsmall]
      next hlarge => simpa [hlarge,Option.isSome_iff_ne_none] using hgood
  row {n l} s hring hgeom := by
    rw [placeRow_controller p (fun x _ => x) hring.writesRows s]
    refine ⟨?_,hring.publish p.target p.mul _ hrows _⟩
    rw [controllerPlacement]
    refine Prod.ext (UInt8.toNat_inj.mp ?_) (UInt32.toNat_inj.mp ?_)
    · have hlt : n / rows.toNat % 2 < 2 ^ 8 := by omega
      rw [UInt8.toNat_ofNat',hring.nextBuf,Nat.mod_eq_of_lt hlt]
    · have hlt : n % rows.toNat < 2 ^ 32 := (Nat.mod_lt n hrows).trans rows.toNat_lt
      rw [UInt32.toNat_ofNat',hring.nextRow,Nat.mod_eq_of_lt hlt]

def placement (rows : ℕ) : Placement :=
  match config.shm.writer with
  | .gnb => gnbPlacement
  | .controller => controllerPlacement config.radio rows

/-- For every configuration whose region could be opened and every sequence of calls, the service
model sends what the announcer says, and it throws exactly where the announcer stops. -/
theorem emits_as_announced {os : OsAnswers} {w w₀ : ShmIqWriter} {called : List OsCall}
    (hopen : w.openRegion os config.shm.name config.shm.sizeBytes config.radio config.shm.cbf16Scale
      config.shm.writer = (true,w₀,called)) (trace : Trace) (calls : List Call) :
    (run (call p) (Session.fresh config w₀ trace) calls).map Session.emitted =
      (run (announce p config (placement config w₀.numFhRows.toNat)) {} calls).map
        Announcer.told := by
  cases hwriter : config.shm.writer with
  | gnb =>
    obtain ⟨-,fd,rfl⟩ := openRegion_ok hopen
    have hplacement : placement config (ShmIqWriter.opened fd config.shm.name config.shm.sizeBytes
        config.radio config.shm.cbf16Scale config.shm.writer).numFhRows.toNat = gnbPlacement := by
      rw [placement,hwriter]
    have hgnb : (ShmIqWriter.opened fd config.shm.name config.shm.sizeBytes config.radio
        config.shm.cbf16Scale config.shm.writer).writesRows = false := by
      rw [hwriter]
      rfl
    rw [hplacement]
    exact emitted_eq_told (run_rel (fun _ _ c h => call_tracks p (gnb_fulfils p config) h c)
      (fresh_tracks trace hgnb) calls)
  | controller =>
    rw [hwriter] at hopen
    obtain ⟨rows,hrows,hring⟩ := ShmIqWriter.ringAt_of_open hopen
    have hplacement : placement config w₀.numFhRows.toNat =
        controllerPlacement config.radio rows.toNat := by
      rw [placement,hwriter,hring.numFhRows]
    rw [hplacement]
    exact emitted_eq_told (run_rel
      (fun _ _ c h => call_tracks p (controller_fulfils p config hrows) h c)
      (fresh_tracks trace hring) calls)

end Modes

theorem emits_as_announced_controller :
    ∃ w₀ called, ({} : ShmIqWriter).openRegion ⟨some 3,true,true⟩ controllerConfig.shm.name
      controllerConfig.shm.sizeBytes controllerConfig.radio controllerConfig.shm.cbf16Scale
      controllerConfig.shm.writer = (true,w₀,called) ∧
      (run (call taggedPlatform) (Session.fresh controllerConfig w₀ {}) twoSlots).map
        (fun t => t.emitted.length) = some 1 ∧
      (run (call taggedPlatform) (Session.fresh controllerConfig w₀ {}) twoSlots).map
        Session.emitted = (run (announce taggedPlatform controllerConfig
          (placement controllerConfig w₀.numFhRows.toNat)) {} twoSlots).map Announcer.told := by
  have hopen : ({} : ShmIqWriter).openRegion ⟨some 3,true,true⟩ controllerConfig.shm.name
      controllerConfig.shm.sizeBytes controllerConfig.radio controllerConfig.shm.cbf16Scale
      controllerConfig.shm.writer = (true,_,_) := rfl
  exact ⟨_,_,hopen,rfl,emits_as_announced taggedPlatform controllerConfig hopen {} twoSlots⟩


end Layer1
end E3Controller
