import Mathlib.Data.List.Forall2
import Mathlib.Data.Nat.Log
import E3Controller.PipelineFeed
import E3Controller.SlotPath
import E3Controller.SpectrumIndication

/-!
# From the fronthaul to the indication of RF=1

The other path of the controller: the eCPRI codelet takes one section out of the
fronthaul, `IqPipeline` filters, queues and decompresses it, and `E3SMSpectrum` pads it
and sends it. Every interleaving of the parties is a run, with starts, stops and reloads
of the codelet at any point.
-/

namespace E3Controller
namespace SpectrumPath

open LabelledRun MemoryReads Prog SlotApi SpscRing Pipeline Bfp Ecpri SectionPath Spectrum Layer1
open SlotPath (SmPc called_cases returned_cases)

/-- All parties. `fires` records every packet with what the codelet did, `emitted` the
indications of the service model. -/
structure PathState (β ω : Type) where
  fed : Fed β IqSampleData PrbFilterConfig
  maps : Maps := loadedMaps
  decompressedBuf : List Int16 := []
  sm : E3SMSpectrum
  smControl : SmPc := .idle
  fires : List (Fire × FireResult) := []
  emitted : List (Emission ω) := []

/-- A packet with the buffer its output is given; the channel losing or delivering its
oldest buffers; steps of the pipeline's threads; `start`, `stop` and their return. -/
inductive PathAction (β : Type)
  | fire (x : Fire) (b : β)
  | lose (n : ℕ)
  | deliver (n : ℕ)
  | poll (ok : Bool) (ts : UInt64)
  | worker (a : Spectrum.Answers) (decompressNs : UInt64)
  | control (ok : Bool)
  | smStart
  | smStop
  | smReturn

section Step

variable {β ω : Type} [DecidableEq β] (wide : WideShift) (codec : IqCodec ω)
  (k : Kind IqSampleData PrbFilterConfig)

def fireStep (s : PathState β ω) (x : Fire) (b : β) : Option (PathState β ω) :=
  let fired := Ecpri.fire s.maps x
  let s := { s with maps := fired.1, fires := s.fires ++ [(x,fired.2)] }
  match fired.2.sent with
  | none => some s
  | some d => (feedStep k s.fed (.output b d)).map fun fed => { s with fed := fed }

/-- `dispatch_sample` on the entry at `tail`, with the service model as the only consumer. -/
def dispatchPathStep (s : PathState β ω) (fed : Fed β IqSampleData PrbFilterConfig)
    (tail : BitVec 64) (a : Spectrum.Answers) (decompressNs : UInt64) : Option (PathState β ω) :=
  let entry := s.fed.pipe.ring.slots (slotIndex k.logCapacity tail)
  let sample := s.fed.pipe.mem entry.buf
  let r := value (fun i => sample.iqPayload.getD i 0)
    (dispatchSample wide entry sample s.decompressedBuf decompressNs)
  let s := { s with fed := fed, decompressedBuf := r.2 }
  match r.1 with
  | none => some s
  | some dec => (s.sm.onSample codec dec a).map fun out => { s with
      sm := out.1
      emitted := s.emitted ++ out.2.emitted }

def workerPathStep (s : PathState β ω) (a : Spectrum.Answers) (decompressNs : UInt64) :
    Option (PathState β ω) :=
  match feedStep k s.fed (.act .worker) with
  | none => none
  | some fed =>
    match s.fed.pipe.worker with
    | .dispatch tail => dispatchPathStep wide codec k s fed tail a decompressNs
    | _ => some { s with fed := fed }

/-- A step inside the pipeline's `start` or `stop`. A load zeroes the codelet's maps. -/
def controlPathStep (s : PathState β ω) (ok : Bool) : Option (PathState β ω) :=
  (feedStep k s.fed (.act (.control ok))).map fun fed => { s with
    fed := fed
    maps := if s.fed.pipe.control = .startLoad ∧ ok = true then loadedMaps else s.maps }

/-- `start()` up to the call of the pipeline's `start`, and `stop()` likewise. -/
def smStartStep (s : PathState β ω) : Option (PathState β ω) :=
  if s.smControl ≠ .idle then none
  else if s.sm.running then some s
  else (feedStep k s.fed (.act .callStart)).map fun fed => { s with
    fed := fed
    smControl := .starting }

def smStopStep (s : PathState β ω) : Option (PathState β ω) :=
  if s.smControl ≠ .idle then none
  else if !s.sm.running then some s
  else (feedStep k s.fed (.act .callStop)).map fun fed => { s with
    fed := fed
    sm := { s.sm with running := false }
    smControl := .stopping }

def smReturnStep (s : PathState β ω) : Option (PathState β ω) :=
  if s.fed.pipe.control ≠ .idle then none
  else
    match s.smControl with
    | .idle => none
    | .starting => some { s with
        sm := { s.sm with running := s.fed.pipe.running }
        smControl := .idle }
    | .stopping => some { s with smControl := .idle }

def pathStep (s : PathState β ω) : PathAction β → Option (PathState β ω)
  | .fire x b => fireStep k s x b
  | .lose n => (feedStep k s.fed (.lose n)).map fun fed => { s with fed := fed }
  | .deliver n => (feedStep k s.fed (.deliver n)).map fun fed => { s with fed := fed }
  | .poll ok ts => (feedStep k s.fed (.act (.poll ok ts))).map fun fed => { s with fed := fed }
  | .worker a ns => workerPathStep wide codec k s a ns
  | .control ok => controlPathStep k s ok
  | .smStart => smStartStep k s
  | .smStop => smStopStep k s
  | .smReturn => smReturnStep s

end Step

section Moves

variable {β ω : Type} [DecidableEq β] (wide : WideShift) (codec : IqCodec ω)
  (k : Kind IqSampleData PrbFilterConfig)

inductive PathMove (s : PathState β ω) : PathAction β → PathState β ω → Prop
  | skip {x : Fire} {b : β} (unsent : (Ecpri.fire s.maps x).2.sent = none) :
      PathMove s (.fire x b) { s with
        maps := (Ecpri.fire s.maps x).1
        fires := s.fires ++ [(x,(Ecpri.fire s.maps x).2)] }
  | fire {x : Fire} {b : β} {d : IqSampleData} {fed : Fed β IqSampleData PrbFilterConfig}
      (sent : (Ecpri.fire s.maps x).2.sent = some d)
      (feed : feedStep k s.fed (.output b d) = some fed) :
      PathMove s (.fire x b) { s with
        maps := (Ecpri.fire s.maps x).1
        fires := s.fires ++ [(x,(Ecpri.fire s.maps x).2)]
        fed := fed }
  | lose {n : ℕ} {fed : Fed β IqSampleData PrbFilterConfig}
      (feed : feedStep k s.fed (.lose n) = some fed) : PathMove s (.lose n) { s with fed := fed }
  | deliver {n : ℕ} {fed : Fed β IqSampleData PrbFilterConfig}
      (feed : feedStep k s.fed (.deliver n) = some fed) :
      PathMove s (.deliver n) { s with fed := fed }
  | poll {ok : Bool} {ts : UInt64} {fed : Fed β IqSampleData PrbFilterConfig}
      (feed : feedStep k s.fed (.act (.poll ok ts)) = some fed) :
      PathMove s (.poll ok ts) { s with fed := fed }
  | dispatch {a : Spectrum.Answers} {ns : UInt64} {tail : BitVec 64} {t : PathState β ω}
      {fed : Fed β IqSampleData PrbFilterConfig} (pc : s.fed.pipe.worker = .dispatch tail)
      (feed : feedStep k s.fed (.act .worker) = some fed)
      (sample : dispatchPathStep wide codec k s fed tail a ns = some t) :
      PathMove s (.worker a ns) t
  | worker {a : Spectrum.Answers} {ns : UInt64} {fed : Fed β IqSampleData PrbFilterConfig}
      (pc : ∀ tail, s.fed.pipe.worker ≠ .dispatch tail)
      (feed : feedStep k s.fed (.act .worker) = some fed) :
      PathMove s (.worker a ns) { s with fed := fed }
  | control {ok : Bool} {fed : Fed β IqSampleData PrbFilterConfig}
      (feed : feedStep k s.fed (.act (.control ok)) = some fed) :
      PathMove s (.control ok) { s with
        fed := fed
        maps := if s.fed.pipe.control = .startLoad ∧ ok = true then loadedMaps else s.maps }
  | startAgain (idle : s.smControl = .idle) (up : s.sm.running = true) : PathMove s .smStart s
  | start {fed : Fed β IqSampleData PrbFilterConfig} (idle : s.smControl = .idle)
      (down : s.sm.running = false) (feed : feedStep k s.fed (.act .callStart) = some fed) :
      PathMove s .smStart { s with fed := fed, smControl := .starting }
  | stopAgain (idle : s.smControl = .idle) (down : s.sm.running = false) : PathMove s .smStop s
  | stop {fed : Fed β IqSampleData PrbFilterConfig} (idle : s.smControl = .idle)
      (up : s.sm.running = true) (feed : feedStep k s.fed (.act .callStop) = some fed) :
      PathMove s .smStop { s with
        fed := fed
        sm := { s.sm with running := false }
        smControl := .stopping }
  | started (control : s.fed.pipe.control = .idle) (starting : s.smControl = .starting) :
      PathMove s .smReturn { s with
        sm := { s.sm with running := s.fed.pipe.running }
        smControl := .idle }
  | stopped (control : s.fed.pipe.control = .idle) (stopping : s.smControl = .stopping) :
      PathMove s .smReturn { s with smControl := .idle }

variable {wide codec k} {s t : PathState β ω}

theorem workerPathStep_move {a : Spectrum.Answers} {ns : UInt64}
    (ht : workerPathStep wide codec k s a ns = some t) :
    PathMove wide codec k s (.worker a ns) t := by
  unfold workerPathStep at ht
  split at ht
  · cases ht
  next fed hfeed =>
    split at ht
    next tail hpc => exact .dispatch hpc hfeed ht
    next hpc =>
      cases ht
      exact .worker (fun tail h => hpc tail h) hfeed

theorem smStartStep_move (ht : smStartStep k s = some t) :
    PathMove wide codec k s .smStart t := by
  obtain ⟨hidle,⟨hup,rfl⟩ | ⟨hdown,hcall⟩⟩ := called_cases ht
  · exact .startAgain hidle hup
  · obtain ⟨fed,hfeed,rfl⟩ := Option.map_eq_some_iff.mp hcall
    exact .start hidle hdown hfeed

theorem smStopStep_move (ht : smStopStep k s = some t) : PathMove wide codec k s .smStop t := by
  obtain ⟨hidle,⟨hdown,rfl⟩ | ⟨hup,hcall⟩⟩ := called_cases ht
  · exact .stopAgain hidle (by simpa using hdown)
  · obtain ⟨fed,hfeed,rfl⟩ := Option.map_eq_some_iff.mp hcall
    exact .stop hidle (by simpa using hup) hfeed

theorem smReturnStep_move (ht : smReturnStep s = some t) :
    PathMove wide codec k s .smReturn t := by
  obtain ⟨hcontrol,⟨hpc,rfl⟩ | ⟨hpc,rfl⟩⟩ := returned_cases ht
  · exact .started hcontrol hpc
  · exact .stopped hcontrol hpc

theorem pathStep_move {a : PathAction β} (ht : pathStep wide codec k s a = some t) :
    PathMove wide codec k s a t := by
  cases a with
  | fire x b =>
    simp only [pathStep,fireStep] at ht
    split at ht
    next hunsent =>
      cases ht
      exact .skip hunsent
    next d hsent =>
      obtain ⟨fed,hfeed,rfl⟩ := Option.map_eq_some_iff.mp ht
      exact .fire hsent hfeed
  | lose n =>
    cases ht
    exact .lose rfl
  | deliver n =>
    obtain ⟨fed,hfeed,rfl⟩ := Option.map_eq_some_iff.mp ht
    exact .deliver hfeed
  | poll ok ts =>
    obtain ⟨fed,hfeed,rfl⟩ := Option.map_eq_some_iff.mp ht
    exact .poll hfeed
  | worker a ns => exact workerPathStep_move ht
  | control ok =>
    obtain ⟨fed,hfeed,rfl⟩ := Option.map_eq_some_iff.mp ht
    exact .control hfeed
  | smStart => exact smStartStep_move ht
  | smStop => exact smStopStep_move ht
  | smReturn => exact smReturnStep_move ht

end Moves

section Consumer

variable {ω : Type} (wide : WideShift) (codec : IqCodec ω)

def sectionValues (d : IqSampleData) : List Int16 :=
  (value (fun i => d.iqPayload.getD i 0) (decompressBfp9bit wide d.payloadSize.toNat d.numPrbu [])).outIq

/-- A payload is about a sample: it encodes the padded section and the time stamp. -/
def About (payload : ω) (d : IqSampleData) : Prop :=
  d.numPrbu.toNat * bfpPrbSize ≤ d.payloadSize.toNat ∧ ∃ padded fft,
    Padded d.numPrbu.toNat (sectionValues wide d) padded fft ∧
    codec.aperEncode (iqDataIndication padded fft d.timestamp) = some payload

def fanOut (payload : ω) (a : Spectrum.Answers) : List (Emission ω) :=
  a.subscribers.ids.map fun dapp => ⟨dapp,Spectrum.ranFunctionId,payload,a.emitOk dapp⟩

/-- The least power of two with room for the subcarriers of `n` PRBs. -/
def fftBins (n : ℕ) : ℕ := 2 ^ Nat.clog 2 (12 * n)

/-- The payload of the indication about a sample, as a function of the sample alone. -/
def announcement (d : IqSampleData) (alloc : IqAlloc) : Option ω :=
  let n := d.numPrbu.toNat
  if (1 ≤ n ∧ n * bfpPrbSize ≤ d.payloadSize.toNat) ∧ alloc.iqSamples = true ∧
      alloc.timestamp = true then
    codec.aperEncode
      (iqDataIndication (padHalves n (fftBins n) (sectionValues wide d)) (fftBins n) d.timestamp)
  else none

def said (running : Bool) (encoding : Config.EncodingFormat) (d : IqSampleData)
    (a : Spectrum.Answers) : List (Emission ω) :=
  if running = true ∧ encoding = .asn1 then
    (announcement wide codec d a.alloc).elim [] fun payload => fanOut payload a
  else []

theorem fftBins_least (n : ℕ) : LeastPower (12 * n) (fftBins n) := by
  refine ⟨⟨⟨_,rfl⟩,Nat.le_pow_clog (by omega) _⟩,?_⟩
  rintro p ⟨⟨j,rfl⟩,hj⟩
  exact Nat.pow_le_pow_right (by omega) (Nat.clog_le_of_le_pow hj)

theorem fftSizeOf_toNat (n : UInt16) : (fftSizeOf (n.toUInt32 * 12)).toNat = fftBins n.toNat := by
  have hlt := n.toNat_lt
  have hofdm := ofdmSymSize_toNat n
  have hleast := fftSizeOf_least (m := n.toUInt32 * 12) (by omega)
  rw [hofdm] at hleast
  exact hleast.unique (fftBins_least n.toNat)

theorem section_padded (n : UInt16) {iq : List Int16} (hiq : iq.length = 24 * n.toNat) :
    zeroPad iq (fftSizeOf (n.toUInt32 * 12)) (n.toUInt32 * 12 / 2) =
      some (padHalves n.toNat (fftBins n.toNat) iq) := by
  have hhalf := halfSc_toNat n
  have hfft : 12 * n.toNat ≤ fftBins n.toNat := (fftBins_least n.toNat).1.2
  have hbins := fftSizeOf_toNat n
  rw [zeroPad_eq (by omega) (by omega),hhalf,hbins,
    show 6 * n.toNat * 2 = 12 * n.toNat by omega,show 6 * n.toNat * 4 = 24 * n.toNat by omega]
  rfl

theorem sectionValues_length {d : IqSampleData}
    (h : d.numPrbu.toNat * bfpPrbSize ≤ d.payloadSize.toNat) :
    (sectionValues wide d).length = 24 * d.numPrbu.toNat :=
  decompress_length wide _ _ _ _ h

theorem announcement_none {d : IqSampleData} {alloc : IqAlloc}
    (h : ¬ (1 ≤ d.numPrbu.toNat ∧ d.numPrbu.toNat * bfpPrbSize ≤ d.payloadSize.toNat)) :
    announcement wide codec d alloc = none := if_neg fun hall => h hall.1

theorem about_of_announcement {d : IqSampleData} {alloc : IqAlloc} {payload : ω}
    (h : announcement wide codec d alloc = some payload) : About wide codec payload d := by
  unfold announcement at h
  dsimp only at h
  split at h
  next hwhole =>
    exact ⟨hwhole.1.2,_,_,
      padded_of_halves (sectionValues_length wide hwhole.1.2) (fftBins_least _),h⟩
  · cases h

/-- The encoder of the code fills in the same value. -/
theorem encode_announcement {d : IqSampleData} {alloc : IqAlloc} {fftSize : UInt32}
    (hwhole : 1 ≤ d.numPrbu.toNat ∧ d.numPrbu.toNat * bfpPrbSize ≤ d.payloadSize.toNat)
    (hfft : fftSize.toNat = fftBins d.numPrbu.toNat) :
    encodeSpectrumIqIndication codec alloc (paddedIndication
      (padHalves d.numPrbu.toNat (fftBins d.numPrbu.toNat) (sectionValues wide d)) fftSize
        d.timestamp) = announcement wide codec d alloc := by
  rw [encodeSpectrumIqIndication,aperIqIndication_padded,hfft,announcement]
  simp only [hwhole,true_and,Bool.and_eq_true]

theorem said_about (running : Bool) (encoding : Config.EncodingFormat) (d : IqSampleData)
    (a : Spectrum.Answers) : said wide codec running encoding d a = [] ∨
      ∃ payload, said wide codec running encoding d a = fanOut payload a ∧
        About wide codec payload d := by
  unfold said
  split
  · cases hpayload : announcement wide codec d a.alloc with
    | none => exact .inl rfl
    | some payload => exact .inr ⟨payload,rfl,about_of_announcement wide codec hpayload⟩
  · exact .inl rfl

theorem sendIndication_says (l : E3SMSpectrum) (s : DecompressedSample) (a : Spectrum.Answers)
    (fftSize : UInt32) :
    (l.sendIndication codec s a fftSize).2.emitted =
      ((encodeSpectrumIqIndication codec a.alloc l.indication).elim [] fun payload =>
        fanOut payload a) ∧
    (l.sendIndication codec s a fftSize).1.running = l.running ∧
    (l.sendIndication codec s a fftSize).1.encoding = l.encoding := by
  unfold E3SMSpectrum.sendIndication
  cases encodeSpectrumIqIndication codec a.alloc l.indication with
  | none => exact ⟨rfl,rfl,rfl⟩
  | some payload =>
    dsimp only
    split <;> exact ⟨rfl,rfl,rfl⟩

theorem onSample_skipped {l : E3SMSpectrum} {s : DecompressedSample} {a : Spectrum.Answers}
    (h : ¬ (l.running = true ∧ a.subscribers.ids ≠ [] ∧ l.encoding = .asn1 ∧
      1 ≤ s.raw.numPrbu.toNat)) : l.onSample codec s a = some (l,{}) := by
  unfold E3SMSpectrum.onSample
  by_cases hrunning : l.running = true
  · rw [if_neg (by simp [hrunning])]
    by_cases hsubs : a.subscribers.ids = []
    · rw [if_pos (by simp [hsubs])]
    · rw [if_neg (by simp [hsubs])]
      by_cases hencoding : l.encoding = .asn1
      · have hzero : s.raw.numPrbu.toUInt32 * 12 = 0 := by
          rw [← UInt32.toNat_inj,ofdmSymSize_toNat]
          have hn : ¬ 1 ≤ s.raw.numPrbu.toNat := fun hn => h ⟨hrunning,hsubs,hencoding,hn⟩
          simp only [UInt32.toNat_zero]
          omega
        rw [if_neg (not_not.mpr hencoding)]
        exact if_pos hzero
      · rw [if_pos hencoding]
  · rw [if_pos (by simp [hrunning])]

/-- `on_sample` on what `dispatch_sample` hands over: no copy leaves its buffer, and what is sent
depends on this sample alone. -/
theorem onSample_says (l : E3SMSpectrum) {dec : DecompressedSample} (a : Spectrum.Answers)
    (hsize : dec.decompressedSize = dec.decompressedIq.length)
    (hwhole : dec.raw.numPrbu.toNat * bfpPrbSize ≤ dec.raw.payloadSize.toNat)
    (hiq : dec.decompressedIq = sectionValues wide dec.raw) :
    ∃ l' out, l.onSample codec dec a = some (l',out) ∧
      out.emitted = said wide codec l.running l.encoding dec.raw a ∧ l'.running = l.running ∧
      l'.encoding = l.encoding := by
  have hlength := sectionValues_length wide hwhole
  by_cases hgo : l.running = true ∧ a.subscribers.ids ≠ [] ∧ l.encoding = .asn1 ∧
      1 ≤ dec.raw.numPrbu.toNat
  · obtain ⟨hrunning,hsubs,hencoding,hn⟩ := hgo
    rw [← hiq] at hlength
    have hcall : l.onSample codec dec a = some _ := onSample_section hrunning hsubs hencoding hn
      (hsize ▸ hlength.ge) (section_padded dec.raw.numPrbu hlength)
    have hsent := sendIndication_says codec { l with
        paddedBuf := padHalves dec.raw.numPrbu.toNat (fftBins dec.raw.numPrbu.toNat) dec.decompressedIq
        indication := paddedIndication
          (padHalves dec.raw.numPrbu.toNat (fftBins dec.raw.numPrbu.toNat) dec.decompressedIq)
          (fftSizeOf (dec.raw.numPrbu.toUInt32 * 12)) dec.raw.timestamp }
      dec a (fftSizeOf (dec.raw.numPrbu.toUInt32 * 12))
    generalize E3SMSpectrum.sendIndication codec _ dec a _ = r at hcall hsent
    refine ⟨r.1,r.2,hcall,?_,hsent.2⟩
    rw [hsent.1,said,if_pos ⟨hrunning,hencoding⟩,hiq,
      encode_announcement wide codec ⟨hn,hwhole⟩ (fftSizeOf_toNat dec.raw.numPrbu)]
  · refine ⟨l,{},onSample_skipped codec hgo,?_,rfl,rfl⟩
    rw [said]
    split
    next hup =>
      -- Nobody is subscribed, or there is no PRB.
      by_cases hsubs : a.subscribers.ids = []
      · cases announcement wide codec dec.raw a.alloc with
        | none => rfl
        | some payload => simp [fanOut,hsubs]
      · have hzero : ¬ 1 ≤ dec.raw.numPrbu.toNat := fun hn => hgo ⟨hup.1,hsubs,hup.2,hn⟩
        rw [announcement_none wide codec fun h => hzero h.1]
        rfl
    · rfl

variable {β : Type} (k : Kind IqSampleData PrbFilterConfig)

/-- The consumer takes every sample, and what it sends depends on the sample alone, whatever
`decompressed_buf_`, `padded_buf_` and `indication_` held before. -/
theorem dispatchPathStep_says (s : PathState β ω) (fed : Fed β IqSampleData PrbFilterConfig)
    (tail : BitVec 64) (a : Spectrum.Answers) (ns : UInt64) :
    ∃ buf sm, dispatchPathStep wide codec k s fed tail a ns = some { s with
        fed := fed
        decompressedBuf := buf
        sm := sm
        emitted := s.emitted ++ said wide codec s.sm.running s.sm.encoding
          (s.fed.pipe.mem (s.fed.pipe.ring.slots (slotIndex k.logCapacity tail)).buf) a } ∧
      sm.running = s.sm.running ∧ sm.encoding = s.sm.encoding := by
  generalize hentry : s.fed.pipe.ring.slots (slotIndex k.logCapacity tail) = entry
  generalize hd : s.fed.pipe.mem entry.buf = d
  unfold dispatchPathStep
  simp only [hentry,hd]
  generalize hr : value (fun i => d.iqPayload.getD i 0)
    (dispatchSample wide entry d s.decompressedBuf ns) = r
  rcases Nat.lt_or_ge d.payloadSize.toNat (d.numPrbu.toNat * bfpPrbSize) with hshort | hlong
  · have hnone := dispatchSample_short wide (fun i => d.iqPayload.getD i 0) entry d s.decompressedBuf ns hshort
    rw [hr] at hnone
    refine ⟨r.2,s.sm,?_,rfl,rfl⟩
    have hsilent : said wide codec s.sm.running s.sm.encoding d a = [] := by
      rw [said,announcement_none wide codec fun h => Nat.not_le.mpr hshort h.2]
      exact ite_self []
    rw [hnone,hsilent,List.append_nil]
  · obtain ⟨dec,hdec,hraw,hiq,hsize⟩ := dispatchSample_delivers wide (fun i => d.iqPayload.getD i 0)
      entry d s.decompressedBuf ns hlong
    rw [hr] at hdec
    have hvalues : dec.decompressedIq = sectionValues wide d := by
      rw [hiq,sectionValues,decompress_value wide _ _ _ _ hlong,decompress_value wide _ _ _ _ hlong]
    obtain ⟨l',out,hcall,hout,hkept⟩ := onSample_says wide codec s.sm a hsize (hraw ▸ hlong)
      (hraw ▸ hvalues)
    rw [hraw] at hout
    refine ⟨r.2,l',?_,hkept⟩
    rw [hdec,← hout]
    simp only [hcall,Option.map_some]

end Consumer

section FanOut

variable {ε δ κ : Type} [DecidableEq κ]

/-- Of one message for each of some distinct keys, at most one has a given key. -/
theorem filter_fanOut {key : ε → κ} {f : κ → ε} (hf : ∀ i, key (f i) = i) {ids : List κ}
    (hids : ids.Nodup) (i : κ) : (ids.map f).filter (fun e => key e = i) = [] ∨
      (ids.map f).filter (fun e => key e = i) = [f i] := by
  have hfilter : (ids.map f).filter (fun e => key e = i) = (List.replicate (ids.count i) i).map f := by
    rw [List.filter_map,← List.filter_eq]
    simp only [Function.comp_def,hf]
  rw [hfilter]
  rcases Nat.le_one_iff_eq_zero_or_eq_one.mp (List.nodup_iff_count_le_one.mp hids i) with h0 | h1
  · rw [h0]
    exact .inl rfl
  · rw [h1]
    exact .inr rfl

omit [DecidableEq κ] in
theorem sublistForall₂_append {R : ε → δ → Prop} {es es' : List ε} {ds : List δ} {d : δ}
    (h : List.SublistForall₂ R es ds) (h' : es' = [] ∨ ∃ e, es' = [e] ∧ R e d) :
    List.SublistForall₂ R (es ++ es') (ds ++ [d]) := by
  obtain ⟨ds',hall,hsub⟩ := List.sublistForall₂_iff.mp h
  rw [List.sublistForall₂_iff]
  rcases h' with rfl | ⟨e,rfl,he⟩
  · exact ⟨ds',by simpa using hall,hsub.trans (List.sublist_append_left ds [d])⟩
  · exact ⟨ds' ++ [d],List.rel_append hall (.cons he .nil),hsub.append (List.Sublist.refl _)⟩

omit [DecidableEq κ] in
theorem sublistForall₂_filterMap {α : Type} {R : ε → δ → Prop} {g : α → Option δ} {es : List ε}
    {l : List α} (h : List.SublistForall₂ R es (l.filterMap g)) :
    ∃ fs, fs.Sublist l ∧ List.Forall₂ (fun e f => ∃ d, g f = some d ∧ R e d) es fs := by
  induction l generalizing es with
  | nil =>
    cases h
    exact ⟨[],.slnil,.nil⟩
  | cons x l ih =>
    cases hx : g x with
    | none =>
      rw [List.filterMap_cons_none hx] at h
      obtain ⟨fs,hsub,hall⟩ := ih h
      exact ⟨fs,hsub.cons x,hall⟩
    | some d =>
      rw [List.filterMap_cons_some hx] at h
      cases h with
      | nil => exact ⟨[],List.nil_sublist _,.nil⟩
      | cons he hrest =>
        obtain ⟨fs,hsub,hall⟩ := ih hrest
        exact ⟨x :: fs,hsub.cons_cons x,.cons ⟨d,hx,he⟩ hall⟩
      | cons_right hrest =>
        obtain ⟨fs,hsub,hall⟩ := ih hrest
        exact ⟨fs,hsub.cons x,hall⟩

end FanOut

section Invariant

variable {β ω : Type} (wide : WideShift) (codec : IqCodec ω) (k : Kind IqSampleData PrbFilterConfig)

/-- The invariant of the path: what the consumer was given is a selection of what the packets
made the codelet send, and every dApp was sent at most one message about each. -/
structure PathInv (s : PathState β ω) : Prop where
  fed : FedInv k s.fed
  sent : s.fed.sent = s.fires.filterMap fun f => f.2.sent
  clean : Clean s.maps
  fires : ∀ f ∈ s.fires, ∃ maps, Clean maps ∧ f.2 = (Ecpri.fire maps f.1).2
  emitted : ∀ dapp, List.SublistForall₂ (fun e d => About wide codec e.payload d)
    (s.emitted.filter fun e => e.dapp = dapp) s.fed.taken

variable {wide codec k} {s t : PathState β ω}

theorem PathInv.quiet (h : PathInv wide codec k s) (hfed : FedInv k t.fed)
    (hsent : t.fed.sent = s.fed.sent) (htaken : t.fed.taken = s.fed.taken) (hclean : Clean t.maps)
    (hfires : t.fires = s.fires) (hemitted : t.emitted = s.emitted) : PathInv wide codec k t where
  fed := hfed
  sent := by
    rw [hsent,hfires]
    exact h.sent
  clean := hclean
  fires := by
    rw [hfires]
    exact h.fires
  emitted := by
    rw [hemitted,htaken]
    exact h.emitted

theorem clean_fire {maps : Maps} (h : Clean maps) (x : Fire) : Clean (Ecpri.fire maps x).1 :=
  (jbpfMain_maps x.ctx x.answers).clean h

variable [DecidableEq β]

theorem feedStep_quiet {fed fed' : Fed β IqSampleData PrbFilterConfig}
    {a : FeedAction β IqSampleData} (hout : ∀ b d, a ≠ .output b d)
    (hact : ∀ x, a = .act x → dispatchedBy k fed.pipe x = []) (ht : feedStep k fed a = some fed') :
    fed'.sent = fed.sent ∧ fed'.taken = fed.taken := by
  cases a with
  | output b d => exact absurd rfl (hout b d)
  | lose n =>
    cases ht
    exact ⟨rfl,rfl⟩
  | deliver n =>
    obtain ⟨pipe,-,rfl⟩ := Option.map_eq_some_iff.mp ht
    exact ⟨rfl,rfl⟩
  | act x =>
    simp only [feedStep] at ht
    split at ht
    · cases ht
    · obtain ⟨pipe,-,rfl⟩ := Option.map_eq_some_iff.mp ht
      exact ⟨rfl,by rw [hact x rfl,List.map_nil,List.append_nil]⟩

theorem PathInv.feed {a : FeedAction β IqSampleData} {fed : Fed β IqSampleData PrbFilterConfig}
    (h : PathInv wide codec k s) (hout : ∀ b d, a ≠ .output b d)
    (hact : ∀ x, a = .act x → dispatchedBy k s.fed.pipe x = [])
    (ht : feedStep k s.fed a = some fed) {maps : Maps} (hclean : Clean maps) {sm : E3SMSpectrum}
    {smControl : SmPc} :
    PathInv wide codec k { s with fed := fed, maps := maps, sm := sm, smControl := smControl } := by
  obtain ⟨hsent,htaken⟩ := feedStep_quiet hout hact ht
  exact h.quiet (fed_step h.fed ht) hsent htaken hclean rfl rfl

omit [DecidableEq β] in
theorem PathInv.fired (h : PathInv wide codec k s) (x : Fire) :
    ∀ f ∈ s.fires ++ [(x,(Ecpri.fire s.maps x).2)],
      ∃ maps, Clean maps ∧ f.2 = (Ecpri.fire maps f.1).2 := by
  intro f hf
  rcases List.mem_append.mp hf with hf | hf
  · exact h.fires f hf
  · rw [List.mem_singleton.mp hf]
    exact ⟨s.maps,h.clean,rfl⟩

theorem PathInv.dispatch {a : Spectrum.Answers} {ns : UInt64} {tail : BitVec 64}
    {fed : Fed β IqSampleData PrbFilterConfig} (h : PathInv wide codec k s)
    (hw : s.fed.pipe.worker = .dispatch tail) (hfeed : feedStep k s.fed (.act .worker) = some fed)
    (ht : dispatchPathStep wide codec k s fed tail a ns = some t) : PathInv wide codec k t := by
  obtain ⟨buf,sm,hstep,-⟩ := dispatchPathStep_says wide codec k s fed tail a ns
  rw [hstep,Option.some.injEq] at ht
  subst ht
  have hfed := fed_step h.fed hfeed
  obtain ⟨pipe,-,rfl⟩ := Option.map_eq_some_iff.mp hfeed
  refine ⟨hfed,h.sent,h.clean,h.fires,fun dapp => ?_⟩
  have htaken : (dispatchedBy k s.fed.pipe .worker).map Prod.snd =
      [s.fed.pipe.mem (s.fed.pipe.ring.slots (slotIndex k.logCapacity tail)).buf] := by
    simp [dispatchedBy,hw]
  simp only [htaken,List.filter_append]
  refine sublistForall₂_append (h.emitted dapp) ?_
  rcases said_about wide codec s.sm.running s.sm.encoding _ a with hnone | ⟨payload,hsaid,habout⟩
  · rw [hnone]
    exact .inl rfl
  · rw [hsaid]
    refine (filter_fanOut (fun _ => rfl) a.subscribers.nodup dapp).imp_right fun hone => ?_
    exact ⟨_,hone,habout⟩

theorem workerPathStep_isSome (s : PathState β ω) (a : Spectrum.Answers) (ns : UInt64) :
    (workerPathStep wide codec k s a ns).isSome = (Pipeline.step k s.fed.pipe .worker).isSome := by
  unfold workerPathStep
  simp only [feedStep,Action.byChannel,Bool.false_eq_true,if_false]
  cases Pipeline.step k s.fed.pipe .worker with
  | none => rfl
  | some pipe =>
    simp only [Option.map_some]
    split
    next tail hw =>
      obtain ⟨buf,sm,hstep,-⟩ := dispatchPathStep_says wide codec k s _ tail a ns
      rw [hstep]
      rfl
    · rfl

theorem pathStep_inv {a : PathAction β} (h : PathInv wide codec k s)
    (ht : pathStep wide codec k s a = some t) : PathInv wide codec k t := by
  cases pathStep_move ht with
  | @skip x b hunsent =>
    refine ⟨h.fed,?_,clean_fire h.clean x,h.fired x,h.emitted⟩
    simpa [hunsent] using h.sent
  | @fire x b d fed hsent hfeed =>
    have hfed := fed_step h.fed hfeed
    simp only [feedStep] at hfeed
    split at hfeed
    · cases hfeed
    · obtain ⟨pipe,-,rfl⟩ := Option.map_eq_some_iff.mp hfeed
      refine ⟨hfed,?_,clean_fire h.clean x,h.fired x,h.emitted⟩
      simpa [hsent] using h.sent
  | lose hfeed => exact h.feed (by simp) (by simp) hfeed h.clean
  | deliver hfeed => exact h.feed (by simp) (by simp) hfeed h.clean
  | poll hfeed => exact h.feed (by simp) (by simp [dispatchedBy]) hfeed h.clean
  | dispatch hw hfeed hsample => exact h.dispatch hw hfeed hsample
  | worker hw hfeed =>
    refine h.feed (by simp) (fun x hx => ?_) hfeed h.clean
    cases hx
    cases hpc : s.fed.pipe.worker with
    | dispatch tail => exact absurd hpc (hw tail)
    | _ => simp [dispatchedBy,hpc]
  | control hfeed =>
    refine h.feed (by simp) (by simp [dispatchedBy]) hfeed ?_
    split
    · exact clean_loadedMaps
    · exact h.clean
  | startAgain => exact h
  | start _ _ hfeed => exact h.feed (by simp) (by simp [dispatchedBy]) hfeed h.clean
  | stopAgain => exact h
  | stop _ _ hfeed => exact h.feed (by simp) (by simp [dispatchedBy]) hfeed h.clean
  | started => exact h.quiet h.fed rfl rfl h.clean rfl rfl
  | stopped => exact h.quiet h.fed rfl rfl h.clean rfl rfl

end Invariant

section Result

variable {β ω : Type} (wide : WideShift) (codec : IqCodec ω) (cfg : IqPipelineConfig)

def PathState.fresh (encoding : Config.EncodingFormat) (statsLogPath : CString.Str)
    (ring : Ring 64 (QueueEntry β)) (mem : β → IqSampleData) : PathState β ω where
  fed := { pipe := Pipeline.State.constructed ring 0 0 mem }
  sm := { encoding := encoding, statsLogPath := statsLogPath }

theorem fresh_pathInv (k : Kind IqSampleData PrbFilterConfig) (encoding : Config.EncodingFormat)
    (statsLogPath : CString.Str) {ring : Ring 64 (QueueEntry β)} (mem : β → IqSampleData)
    (hring : ring.head = ring.tail) :
    PathInv wide codec k (PathState.fresh encoding statsLogPath ring mem : PathState β ω) where
  fed := constructed_fedInv k ring 0 0 mem hring
  sent := rfl
  clean := clean_loadedMaps
  fires f hf := by cases hf
  emitted dapp := .nil

/-- A payload tells the section of a frame: an uplink frame of the targeted slot and symbol with
the configured PRB count, whose payload is read as BFP-9 and padded. -/
structure TellsFrame (payload : ω) (x : Fire) (f : Frame) : Prop where
  target : f.InTarget
  uplink : x.ctx.direction = 1
  count : cfg.expectedNumPrbu = 0 ∨ cfg.expectedNumPrbu.toNat = f.numPrbs
  whole : f.numPrbs * 28 ≤ f.payload.length
  encoded : ∃ padded fft timestamp, Padded f.numPrbs
      (bfp9Values wide f.payload (UInt16.ofNat f.numPrbs)) padded fft ∧
    codec.aperEncode (iqDataIndication padded fft timestamp) = some payload

/-- An indication tells of a packet: the codelet sent a sample of it that passes the filter of
`process_buffers`, and the indication is about this sample. -/
structure Tells (e : Emission ω) (f : Fire × FireResult) : Prop where
  sample : ∃ d, f.2.sent = some d ∧ (iqPipeline cfg).keep d = true ∧ About wide codec e.payload d
  frame : ∀ fr : Frame, fr.In f.1.mem f.1.ctx → fr.bytes.length < 65536 →
    TellsFrame wide codec cfg e.payload f.1 fr

theorem fire_carried {maps : Maps} (hclean : Clean maps) {x : Fire} {f : Frame}
    (hin : f.In x.mem x.ctx) (hlen : f.bytes.length < 65536) {d : IqSampleData}
    (hsent : (Ecpri.fire maps x).2.sent = some d) : f.InTarget ∧ f.Carried x.ctx d := by
  rcases jbpfMain_frame x.answers hin hclean hlen with ⟨⟨htarget,-⟩,d',hd',hreturn⟩ | ⟨-,hreturn⟩
  · rw [Ecpri.fire,hreturn,outputReturn] at hsent
    split at hsent
    · exact ⟨htarget,Option.some.inj hsent ▸ hd'⟩
    · cases hsent
  · rw [Ecpri.fire,hreturn] at hsent
    cases hsent

variable {wide codec cfg}

theorem tellsFrame_of_carried {payload : ω} {x : Fire} {f : Frame} {d : IqSampleData}
    (htarget : f.InTarget) (hcarried : f.Carried x.ctx d) (hkeep : (iqPipeline cfg).keep d = true)
    (habout : About wide codec payload d) : TellsFrame wide codec cfg payload x f := by
  rw [keep_iff,hcarried.direction,hcarried.numPrbu] at hkeep
  obtain ⟨hlong,padded,fft,hpadded,hcodec⟩ := habout
  have hwhole : f.numPrbs * 28 ≤ min f.payload.length maxIqPayloadBytes := by
    rw [← hcarried.numPrbu,← hcarried.payloadSize]
    exact hlong
  have hn : UInt16.ofNat f.numPrbs = d.numPrbu := by rw [← hcarried.numPrbu,UInt16.ofNat_toNat]
  have hpayload := holds_getD 0 d.iqPayload
  nth_rewrite 2 [hcarried.iqPayload] at hpayload
  have hvalues : sectionValues wide d = bfp9Values wide f.payload (UInt16.ofNat f.numPrbs) := by
    rw [hn]
    refine bfp9Values_eq wide (holds_append.mp hpayload).1 ?_ hlong
    rw [hcarried.numPrbu]
    exact hwhole
  rw [hcarried.numPrbu,hvalues] at hpadded
  exact ⟨htarget,hkeep.1,hkeep.2,by omega,padded,fft,d.timestamp,hpadded,hcodec⟩

variable [DecidableEq β] (wide codec cfg)

/-- In every run, the indications for one dApp belong in order to distinct packets, and each
tells the section of its own packet. The consumer never holds up the worker: no copy of
`on_sample` leaves its buffer. -/
theorem indications_follow_packets (encoding : Config.EncodingFormat) (statsLogPath : CString.Str)
    (ring : Ring 64 (QueueEntry β)) (hring : ring.head = ring.tail) (mem : β → IqSampleData)
    (actions : List (PathAction β)) (t : PathState β ω)
    (hrun : run (pathStep wide codec (iqPipeline cfg)) (PathState.fresh encoding statsLogPath ring mem)
      actions = some t) :
    (∀ dapp, ∃ fs, fs.Sublist t.fires ∧
      List.Forall₂ (Tells wide codec cfg) (t.emitted.filter fun e => e.dapp = dapp) fs) ∧
    ∀ a ns, (pathStep wide codec (iqPipeline cfg) t (.worker a ns)).isSome =
      (Pipeline.step (iqPipeline cfg) t.fed.pipe .worker).isSome := by
  have hinv : PathInv wide codec (iqPipeline cfg) t :=
    run_invariant_of_step (fun _ _ _ hi ht => pathStep_inv hi ht)
      (fresh_pathInv wide codec _ encoding statsLogPath mem hring) hrun
  refine ⟨fun dapp => ?_,fun a ns => ?_⟩
  · obtain ⟨ds,hall,hsub⟩ := List.sublistForall₂_iff.mp (hinv.emitted dapp)
    have hkept : List.Forall₂ (fun d e => (iqPipeline cfg).keep d = true ∧
        About wide codec e.payload d) ds (t.emitted.filter fun e => e.dapp = dapp) :=
      (List.forall₂_and_left _ _).mpr ⟨fun d hd => hinv.fed.taken d (hsub.subset hd),hall.flip⟩
    have hsent : ds.Sublist (t.fires.filterMap fun f => f.2.sent) := by
      rw [← hinv.sent]
      exact hsub.trans hinv.fed.taken_sublist_sent
    obtain ⟨fs,hfs,htold⟩ := sublistForall₂_filterMap
      (List.sublistForall₂_iff.mpr ⟨ds,hkept.flip,hsent⟩)
    refine ⟨fs,hfs,?_⟩
    have hfires : List.Forall₂ (fun f e => (∃ maps, Clean maps ∧ f.2 = (Ecpri.fire maps f.1).2) ∧
        ∃ d, f.2.sent = some d ∧ (iqPipeline cfg).keep d = true ∧ About wide codec e.payload d) fs
        (t.emitted.filter fun e => e.dapp = dapp) :=
      (List.forall₂_and_left _ _).mpr ⟨fun f hf => hinv.fires f (hfs.subset hf),htold.flip⟩
    refine (hfires.imp fun f e hfe => ?_).flip
    obtain ⟨⟨maps,hclean,hresult⟩,d,hd,hkeep,habout⟩ := hfe
    refine ⟨⟨d,hd,hkeep,habout⟩,fun fr hin hlen => ?_⟩
    obtain ⟨htarget,hcarried⟩ := fire_carried hclean hin hlen (hresult ▸ hd)
    exact tellsFrame_of_carried htarget hcarried hkeep habout
  · exact workerPathStep_isSome t a ns

end Result

def onePrbFrame : Frame :=
  { lastSymbolFrame none (0 :: List.replicate 27 5) (List.cons_ne_nil _ _) with numPrbu := 1 }

def otherSymbolFrame : Frame := { onePrbFrame with symbolId := 0 }

def otherThenTarget : List (PathAction ℕ) :=
  [.smStart,.control true,.control true,.control true,.control true,.smReturn,
    .fire (otherSymbolFrame.fire none) 1,.fire (onePrbFrame.fire (some ⟨1⟩)) 2,.deliver 2] ++
    List.replicate 9 (.poll true 2000) ++ List.replicate 6 (.worker oneSubscriber 0)

def emptyPath : PathState ℕ AperIqIndication :=
  PathState.fresh .asn1 [] ⟨0,0,fun _ => ⟨0,0,0,0⟩⟩ fun _ => {}

theorem indications_follow_packets_target :
    ∃ t, run (pathStep (fun m _ => m) keepingIqCodec (iqPipeline { expectedNumPrbu := 1 })) emptyPath
      otherThenTarget = some t ∧ t.fires.length = 2 ∧ t.emitted.length = 1 ∧
      ∃ fs, fs.Sublist t.fires ∧ List.Forall₂ (Tells (fun m _ => m) keepingIqCodec
        { expectedNumPrbu := 1 }) (t.emitted.filter fun e => e.dapp = 7) fs := by
  have hcount : (run (pathStep (fun m _ => m) keepingIqCodec (iqPipeline { expectedNumPrbu := 1 }))
      emptyPath otherThenTarget).map (fun t => (t.fires.length,t.emitted.length)) = some (2,1) := by
    decide +kernel
  obtain ⟨t,hrun,hlen⟩ := Option.map_eq_some_iff.mp hcount
  rw [Prod.mk.injEq] at hlen
  exact ⟨t,hrun,hlen.1,hlen.2,(indications_follow_packets (fun m _ => m) keepingIqCodec
    { expectedNumPrbu := 1 } .asn1 [] _ rfl _ otherThenTarget t hrun).1 7⟩

end SpectrumPath
end E3Controller
