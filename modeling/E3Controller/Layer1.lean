import E3Controller.L1KpmIndication
import E3Controller.PipelineModel
import E3Controller.RowWriters
import E3Controller.StageTrace

/-!
# The L1-KPM service model

`E3SMLayer1`: `start`, `stop` and `on_sample`, the consumer of the slot pipeline.
`on_sample` filters, checks the geometry once, refuses slots without a row, and
publishes the rest: one encoding per slot, one message per subscriber.
-/

namespace E3Controller
namespace Layer1

open CString Config SlotApi Pipeline Shm RowConversion L1Kpm StageTrace

structure SlotSample where
  sfn : UInt16 := 0
  subframeId : UInt16 := 0
  slotId : UInt16 := 0
  sectorId : UInt16 := 0
  nofPorts : UInt16 := 0
  nofSymbols : UInt16 := 0
  nofSubcarriers : UInt16 := 0
  iq : Option Words := none
  iqSizeBytes : UInt32 := 0
  fhBufferIndex : UInt8 := 0
  fhWriteIndex : UInt32 := 0
  bytesWritten : UInt32 := 0
  flags : UInt8 := 0
  gnbTsNs : UInt64 := 0
  codeletEntryTsNs : UInt64 := 0
  codeletTsNs : UInt64 := 0
  dispatchTsNs : UInt64 := 0
  recvUs : UInt32 := 0
  sampleId : UInt32 := 0

def dispatchSample {β : Type} (entry : QueueEntry β) (s : E3SlotDesc) : SlotSample where
  sfn := s.sfn
  subframeId := s.subframeId
  slotId := s.slotId
  sectorId := s.sectorId
  nofPorts := s.nofPorts
  nofSymbols := s.nofSymbols
  nofSubcarriers := s.nofSubcarriers
  iq := none
  iqSizeBytes := 0
  fhBufferIndex := s.fhBufferIndex
  fhWriteIndex := s.fhWriteIndex
  bytesWritten := s.bytesWritten
  flags := s.flags
  gnbTsNs := s.gnbTsNs
  codeletEntryTsNs := s.codeletEntryTsNs
  codeletTsNs := s.codeletTsNs
  dispatchTsNs := entry.dispatchTsNs
  recvUs := entry.recvUs
  sampleId := entry.sampleId

inductive Drop
  | notRunning | slotFiltered | geometryMismatch | noIq | blobTooSmall | ranPublishedNothing
  | noSubscribers | encodeFailed | emitFailed
  deriving DecidableEq, Repr

/-- The parts outside of this repository: the build, the product of two floats and
the two codecs. -/
structure Platform (ω : Type) where
  target : Target
  mul : F32 → F32 → F32
  codecs : Codecs ω

structure Subscribers where
  ids : List UInt32
  nodup : ids.Nodup

/-- What the environment answers during one call of `on_sample`: the snapshot, the
encoder's allocations, the result of each emission and three reads of the clock. -/
structure Answers where
  subscribers : Subscribers
  alloc : AllocAnswers
  emitOk : UInt32 → Bool
  encodeBeginNs : UInt64
  encodeEndNs : UInt64
  emitTailNs : UInt64

structure Emission (ω : Type) where
  dapp : UInt32
  ranFunctionId : UInt32
  payload : ω
  ok : Bool

def ranFunctionId : UInt32 := 2

structure E3SMLayer1 where
  shmName : Str
  targetSlot : ℤ
  encoding : EncodingFormat
  geom : RadioGeometry
  shmWriter : ShmIqWriter
  running : Bool := false
  geometryChecked : Bool := false
  geometryOk : Bool := true
  truncatedWarned : Bool := false
  writerModeWarned : Bool := false
  slotPublishSeq : UInt64 := 0
  drops : Drop → UInt64 := fun _ => 0
  trace : Trace := {}

namespace E3SMLayer1

/-- A service model constructed from a configuration, after `init` opened the region. -/
def constructed (config : ControllerConfig) (shmWriter : ShmIqWriter) (trace : Trace) :
    E3SMLayer1 where
  shmName := config.shm.name
  targetSlot := config.targetSlot
  encoding := config.e3.encoding
  geom := config.radio
  shmWriter := shmWriter
  trace := trace

def noteDrop (l : E3SMLayer1) (d : Drop) : E3SMLayer1 :=
  { l with drops := Function.update l.drops d (l.drops d + 1) }

/-- The first part of `start`, up to the call of the pipeline's `start`. -/
def startBegin (l : E3SMLayer1) : E3SMLayer1 :=
  { l with truncatedWarned := false, writerModeWarned := false }

/-- `start()`; `pipelineOk` is the result of the pipeline's `start`, which spawns the
worker. -/
def start (l : E3SMLayer1) (pipelineOk : Bool) : Bool × E3SMLayer1 :=
  if l.running then (true,l)
  else if pipelineOk then
    (true,{ l.startBegin with running := true, trace := l.trace.newThread })
  else (false,l.startBegin)

def stop (l : E3SMLayer1) : E3SMLayer1 := { l with running := false }

def slotFiltered (l : E3SMLayer1) (s : SlotSample) : Bool :=
  l.targetSlot ≥ 0 && (s.slotId.toNat : ℤ) ≠ l.targetSlot

def geometryAgrees (g : RadioGeometry) (s : SlotSample) : Bool :=
  match validateAgainstRan g s.nofPorts s.nofSymbols s.nofSubcarriers.toUInt32 with
  | .ok () => true
  | .error _ => false

def checkGeometry (l : E3SMLayer1) (s : SlotSample) : E3SMLayer1 :=
  if l.geometryChecked then l
  else if geometryAgrees l.geom s then { l with geometryChecked := true }
  else { l with geometryChecked := true, geometryOk := false }

def portsClamped (g : RadioGeometry) (s : SlotSample) : UInt16 :=
  if s.nofPorts = 0 then 1 else if s.nofPorts > g.nofPorts then g.nofPorts else s.nofPorts

def checkPayload (l : E3SMLayer1) (s : SlotSample) : Option Drop × E3SMLayer1 :=
  if l.shmWriter.writesRows then
    if s.iq.isNone || s.iqSizeBytes = 0 then (some .noIq,{ l with writerModeWarned := true })
    else if s.iqSizeBytes < (portsClamped l.geom s).toUInt32 * l.geom.cbf16BytesPerAnt then
      (some .blobTooSmall,l)
    else (none,l)
  else if s.flags &&& flagTruncated ≠ 0 || s.bytesWritten = 0 then
    (some .ranPublishedNothing,{ l with truncatedWarned := true })
  else (none,l)

/-- `on_sample` up to the increment of the publish counter: the reason to drop the
slot, if there is one. -/
def dropReason (l : E3SMLayer1) (s : SlotSample) (subscribers : List UInt32) :
    Option Drop × E3SMLayer1 :=
  if !l.running then (some .notRunning,l)
  else if l.slotFiltered s then (some .slotFiltered,l)
  else
    let l := l.checkGeometry s
    if !l.geometryOk then (some .geometryMismatch,l)
    else
      match l.checkPayload s with
      | (some d,l) => (some d,l)
      | (none,l) => if subscribers.isEmpty then (some .noSubscribers,l) else (none,l)

section Publish

variable {ω : Type} (p : Platform ω)

/-- The row of a slot and the writer afterwards. In gNB mode the helper wrote the row. -/
def placeRow (l : E3SMLayer1) (s : SlotSample) : (UInt8 × UInt32) × ShmIqWriter :=
  if l.shmWriter.writesRows then
    let published := l.shmWriter.publishRowCbf16 p.target p.mul (s.iq.getD fun _ => 0)
      (portsClamped l.geom s)
    (published.1.getD (0,0),published.2)
  else ((s.fhBufferIndex,s.fhWriteIndex),l.shmWriter)

/-- The payload: `none` is an exception, `some none` an encoder that returned false. -/
def encodeIndication (l : E3SMLayer1) (s : SlotSample) (row : UInt8 × UInt32)
    (alloc : AllocAnswers) : Option (Option ω) :=
  match l.encoding with
  | .json => (encodeIqIndicationJson p.codecs s.gnbTsNs s.sfn s.slotId l.shmName row.1 row.2
      (portsClamped l.geom s)).map some
  | .asn1 => some (encodeIqIndicationAper p.codecs alloc s.gnbTsNs s.sfn s.slotId l.shmName row.1
      row.2 (portsClamped l.geom s))

/-- One message per subscriber; a refused one is counted. -/
def fanOut (payload : ω) (emitOk : UInt32 → Bool) (l : E3SMLayer1) :
    List UInt32 → E3SMLayer1 × List (Emission ω)
  | [] => (l,[])
  | dapp :: dapps =>
    let rest := fanOut payload emitOk (if emitOk dapp then l else l.noteDrop .emitFailed) dapps
    (rest.1,⟨dapp,ranFunctionId,payload,emitOk dapp⟩ :: rest.2)

def publishSlot (l : E3SMLayer1) (s : SlotSample) (a : Answers) :
    Option (E3SMLayer1 × List (Emission ω)) :=
  let seq := l.slotPublishSeq + 1
  let bytes := if s.bytesWritten > 0 then s.bytesWritten else s.iqSizeBytes
  let row := l.placeRow p s
  let trace := l.trace
    |>.recordBegin seq s.sfn s.slotId s.gnbTsNs s.codeletEntryTsNs
    |>.processBegin seq s.codeletTsNs s.dispatchTsNs bytes
    |>.encodeBegin seq s.iqSizeBytes a.encodeBeginNs
  let placed := { l with slotPublishSeq := seq, shmWriter := row.2 }
  match l.encodeIndication p s row.1 a.alloc with
  | none => none
  | some none =>
    some ({ placed with trace := trace.encodeFailed seq a.encodeEndNs }.noteDrop .encodeFailed,[])
  | some (some payload) =>
    let encoded := trace.encodeDone seq (UInt64.ofNat (p.codecs.size payload)) a.encodeEndNs
    let out := fanOut payload a.emitOk { placed with trace := encoded.bindLibe3 seq }
      a.subscribers.ids
    some ({ out.1 with
      trace := out.1.trace.emitTail seq (UInt64.ofNat a.subscribers.ids.length) a.emitTailNs },out.2)

/-- `on_sample`: the service model afterwards and the indications emitted; `none` when
the JSON library throws, which ends the process. -/
def onSample (l : E3SMLayer1) (s : SlotSample) (a : Answers) :
    Option (E3SMLayer1 × List (Emission ω)) :=
  match l.dropReason s a.subscribers.ids with
  | (some d,l) => some (l.noteDrop d,[])
  | (none,l) => l.publishSlot p s a

end Publish

/-- The configuration, the writer mode and the latches are the same; counters, warnings,
rows and stage records may differ. -/
structure Frame (l l' : E3SMLayer1) : Prop where
  shmName : l'.shmName = l.shmName
  targetSlot : l'.targetSlot = l.targetSlot
  encoding : l'.encoding = l.encoding
  geom : l'.geom = l.geom
  writesRows : l'.shmWriter.writesRows = l.shmWriter.writesRows
  running : l'.running = l.running
  geometryChecked : l'.geometryChecked = l.geometryChecked
  geometryOk : l'.geometryOk = l.geometryOk

theorem Frame.refl (l : E3SMLayer1) : Frame l l := ⟨rfl,rfl,rfl,rfl,rfl,rfl,rfl,rfl⟩

theorem Frame.trans {l l' l'' : E3SMLayer1} (h : Frame l l') (h' : Frame l' l'') : Frame l l'' where
  shmName := h'.shmName.trans h.shmName
  targetSlot := h'.targetSlot.trans h.targetSlot
  encoding := h'.encoding.trans h.encoding
  geom := h'.geom.trans h.geom
  writesRows := h'.writesRows.trans h.writesRows
  running := h'.running.trans h.running
  geometryChecked := h'.geometryChecked.trans h.geometryChecked
  geometryOk := h'.geometryOk.trans h.geometryOk

theorem noteDrop_frame (l : E3SMLayer1) (d : Drop) : Frame l (l.noteDrop d) :=
  ⟨rfl,rfl,rfl,rfl,rfl,rfl,rfl,rfl⟩

theorem trace_frame (l : E3SMLayer1) (t : Trace) : Frame l { l with trace := t } :=
  ⟨rfl,rfl,rfl,rfl,rfl,rfl,rfl,rfl⟩

def reachesCheck (l : E3SMLayer1) (s : SlotSample) : Bool := l.running && !l.slotFiltered s

def afterCheck (l : E3SMLayer1) (s : SlotSample) : E3SMLayer1 :=
  if l.reachesCheck s then l.checkGeometry s else l

theorem checkPayload_frame (l : E3SMLayer1) (s : SlotSample) : Frame l (l.checkPayload s).2 := by
  unfold checkPayload
  split_ifs <;> exact ⟨rfl,rfl,rfl,rfl,rfl,rfl,rfl,rfl⟩

theorem dropReason_frame (l : E3SMLayer1) (s : SlotSample) (subscribers : List UInt32) :
    Frame (l.afterCheck s) (l.dropReason s subscribers).2 := by
  unfold dropReason afterCheck reachesCheck
  by_cases hrun : l.running
  · by_cases hfilter : l.slotFiltered s
    · simp only [hrun,hfilter,Bool.not_true,Bool.and_false,Bool.false_eq_true,if_false,if_true]
      exact Frame.refl l
    · simp only [hrun,hfilter,Bool.not_true,Bool.not_false,Bool.and_self,Bool.false_eq_true,if_false,
        if_true]
      split
      · exact Frame.refl _
      · have hframe := checkPayload_frame (l.checkGeometry s) s
        cases hp : (l.checkGeometry s).checkPayload s with
        | mk d l' =>
          rw [hp] at hframe
          cases d with
          | some d => exact hframe
          | none =>
            simp only []
            split <;> exact hframe
  · simp only [hrun,Bool.not_false,Bool.false_and,Bool.false_eq_true,if_false,if_true]
    exact Frame.refl l

structure Admitted (l : E3SMLayer1) (s : SlotSample) : Prop where
  reaches : l.reachesCheck s = true
  geometryOk : (l.checkGeometry s).geometryOk = true
  payload : ((l.checkGeometry s).checkPayload s).1 = none

theorem admitted_of_dropReason {l : E3SMLayer1} {s : SlotSample} {subscribers : List UInt32}
    (h : (l.dropReason s subscribers).1 = none) : Admitted l s := by
  unfold dropReason at h
  by_cases hrun : l.running
  · by_cases hfilter : l.slotFiltered s
    · simp [hrun,hfilter] at h
    · simp only [hrun,hfilter,Bool.not_true,Bool.false_eq_true,if_false] at h
      by_cases hok : (l.checkGeometry s).geometryOk
      · simp only [hok,Bool.not_true,Bool.false_eq_true,if_false] at h
        refine ⟨by simp [reachesCheck,hrun,hfilter],hok,?_⟩
        cases hp : (l.checkGeometry s).checkPayload s with
        | mk d l' =>
          rw [hp] at h
          cases d with
          | some d => cases h
          | none => rfl
      · simp [hok] at h
  · simp [hrun] at h

/-- In gNB mode a slot passes only if the helper wrote its row. -/
theorem checkPayload_gnb {l : E3SMLayer1} {s : SlotSample} (hgnb : l.shmWriter.writesRows = false)
    (h : (l.checkPayload s).1 = none) : s.flags &&& flagTruncated = 0 ∧ s.bytesWritten ≠ 0 := by
  unfold checkPayload at h
  simp only [hgnb,Bool.false_eq_true,if_false] at h
  split at h
  · cases h
  next hgood => simpa using hgood

section Emissions

variable {ω : Type} (p : Platform ω)

theorem placeRow_gnb {l : E3SMLayer1} (hgnb : l.shmWriter.writesRows = false) (s : SlotSample) :
    (l.placeRow p s).1 = (s.fhBufferIndex,s.fhWriteIndex) := by
  unfold placeRow
  rw [hgnb]
  rfl

theorem fanOut_emissions (payload : ω) (emitOk : UInt32 → Bool) (l : E3SMLayer1)
    (dapps : List UInt32) :
    (fanOut payload emitOk l dapps).2 =
      dapps.map fun dapp => ⟨dapp,ranFunctionId,payload,emitOk dapp⟩ := by
  induction dapps generalizing l with
  | nil => rfl
  | cons dapp dapps ih =>
    rw [fanOut,List.map_cons,ih]

theorem fanOut_frame (payload : ω) (emitOk : UInt32 → Bool) (l : E3SMLayer1) (dapps : List UInt32) :
    Frame l (fanOut payload emitOk l dapps).1 := by
  induction dapps generalizing l with
  | nil => exact Frame.refl l
  | cons dapp dapps ih =>
    refine Frame.trans ?_ (ih _)
    split
    · exact Frame.refl l
    · exact noteDrop_frame l .emitFailed

theorem placeRow_writesRows (l : E3SMLayer1) (s : SlotSample) :
    (l.placeRow p s).2.writesRows = l.shmWriter.writesRows := by
  unfold placeRow
  split
  · exact l.shmWriter.publishRowCbf16_writesRows _ _ _ _
  · rfl

def emissions (payload : ω) (a : Answers) : List (Emission ω) :=
  a.subscribers.ids.map fun dapp => ⟨dapp,ranFunctionId,payload,a.emitOk dapp⟩

theorem publishSlot_spec {l l' : E3SMLayer1} {s : SlotSample} {a : Answers} {es : List (Emission ω)}
    (h : l.publishSlot p s a = some (l',es)) :
    Frame l l' ∧ (es = [] ∨ ∃ payload,
      l.encodeIndication p s (l.placeRow p s).1 a.alloc = some (some payload) ∧
        es = emissions payload a) := by
  have hplaced : ∀ trace, Frame l { l with
      slotPublishSeq := l.slotPublishSeq + 1, shmWriter := (l.placeRow p s).2, trace := trace } :=
    fun trace => ⟨rfl,rfl,rfl,rfl,placeRow_writesRows p l s,rfl,rfl,rfl⟩
  unfold publishSlot at h
  cases he : l.encodeIndication p s (l.placeRow p s).1 a.alloc with
  | none => simp [he] at h
  | some result =>
    cases result with
    | none =>
      simp only [he,Option.some.injEq,Prod.mk.injEq] at h
      obtain ⟨rfl,rfl⟩ := h
      exact ⟨(hplaced _).trans (noteDrop_frame _ _),.inl rfl⟩
    | some payload =>
      simp only [he,Option.some.injEq,Prod.mk.injEq] at h
      obtain ⟨rfl,rfl⟩ := h
      refine ⟨?_,.inr ⟨payload,rfl,fanOut_emissions payload a.emitOk _ _⟩⟩
      exact (hplaced _).trans
        ((fanOut_frame payload a.emitOk _ a.subscribers.ids).trans (trace_frame _ _))

theorem onSample_frame {l l' : E3SMLayer1} {s : SlotSample} {a : Answers} {es : List (Emission ω)}
    (h : l.onSample p s a = some (l',es)) : Frame (l.afterCheck s) l' := by
  have hframe := dropReason_frame l s a.subscribers.ids
  unfold onSample at h
  cases hadm : l.dropReason s a.subscribers.ids with
  | mk d l₁ =>
    rw [hadm] at h hframe
    cases d with
    | some d =>
      simp only [Option.some.injEq,Prod.mk.injEq] at h
      obtain ⟨rfl,rfl⟩ := h
      exact hframe.trans (noteDrop_frame l₁ d)
    | none => exact hframe.trans (publishSlot_spec p h).1

/-- The payload carries the slot's own coordinates and the row it was placed in. -/
theorem encodeIndication_carries {l : E3SMLayer1} {s : SlotSample} {row : UInt8 × UInt32}
    {alloc : AllocAnswers} {payload : ω} (h : l.encodeIndication p s row alloc = some (some payload)) :
    Carries p.codecs l.encoding payload ⟨s.gnbTsNs,s.sfn,s.slotId,row.1,row.2⟩ := by
  unfold encodeIndication at h
  cases henc : l.encoding with
  | json =>
    simp only [henc,Option.map_eq_some_iff,Option.some.injEq,exists_eq_right] at h
    exact carries_json h
  | asn1 =>
    simp only [henc,Option.some.injEq] at h
    exact carries_aper h

theorem encodeIndication_announces {l : E3SMLayer1} {s : SlotSample} {row : UInt8 × UInt32}
    {alloc : AllocAnswers} {payload : ω} {n : ℕ}
    (h : l.encodeIndication p s row alloc = some (some payload))
    (hn : Announces p.codecs l.encoding payload n) : n = (portsClamped l.geom s).toNat := by
  unfold encodeIndication at h
  cases henc : l.encoding with
  | json =>
    rw [henc] at hn
    simp only [henc,Option.map_eq_some_iff,Option.some.injEq,exists_eq_right] at h
    exact announces_json h hn
  | asn1 =>
    rw [henc] at hn
    simp only [henc,Option.some.injEq] at h
    exact announces_aper h hn

/-- A call either emits nothing, or the sample passed every check and each subscriber
gets the one payload that was encoded for it. -/
theorem onSample_emissions {l l' : E3SMLayer1} {s : SlotSample} {a : Answers}
    {es : List (Emission ω)} (h : l.onSample p s a = some (l',es)) :
    es = [] ∨ (Admitted l s ∧ ∃ l₁ payload, Frame (l.afterCheck s) l₁ ∧
      l₁.encodeIndication p s (l₁.placeRow p s).1 a.alloc = some (some payload) ∧
        es = emissions payload a) := by
  have hframe := dropReason_frame l s a.subscribers.ids
  unfold onSample at h
  cases hadm : l.dropReason s a.subscribers.ids with
  | mk d l₁ =>
    rw [hadm] at h hframe
    cases d with
    | some d =>
      simp only [Option.some.injEq,Prod.mk.injEq] at h
      exact .inl h.2.symm
    | none =>
      rcases (publishSlot_spec p h).2 with hnil | ⟨payload,henc,hes⟩
      · exact .inl hnil
      · exact .inr ⟨admitted_of_dropReason (congrArg Prod.fst hadm),l₁,payload,hframe,henc,hes⟩

end Emissions

end E3SMLayer1
end Layer1
end E3Controller
