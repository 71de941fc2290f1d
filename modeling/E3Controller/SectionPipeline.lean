import E3Controller.BfpDecompress
import E3Controller.ConfigLoader
import E3Controller.EcpriFrames
import E3Controller.PipelineModel

/-!
# Sections from the fronthaul to the consumers

What the eCPRI codelet sends, `IqPipeline` filters by direction and PRB count and decompresses
as BFP-9. The PRB count of the configuration is compared twice, in the codelet and in
`process_buffers`; the compression header of the section is compared nowhere.
-/

namespace E3Controller
namespace SectionPath

open MemoryReads Prog SlotApi Config Pipeline Bfp Ecpri LabelledRun

/-- `struct DecompressedSample`; `decompressedIq` is what the pointer points to. -/
structure DecompressedSample where
  raw : IqSampleData
  decompressedIq : List Int16
  decompressedSize : ℕ
  recvUs : UInt32
  sampleId : UInt32
  gnbTsNs : UInt64
  codeletTsNs : UInt64
  dispatchTsNs : UInt64
  decompressNs : UInt64
  deriving DecidableEq

section Dispatch

variable {β : Type} (wide : WideShift)

/-- `IqPipeline::dispatch_sample` on the sample the entry points to, with its payload at
address 0: what every consumer is called with, and `decompressed_buf_` after the call. -/
def dispatchSample (entry : QueueEntry β) (sample : IqSampleData) (decompressedBuf : List Int16)
    (decompressNs : UInt64) : Prog UInt8 (Option DecompressedSample × List Int16) := do
  let r ← decompressBfp9bit wide sample.payloadSize.toNat sample.numPrbu decompressedBuf
  if r.ok then
    let dec : DecompressedSample := {
      raw := sample
      decompressedIq := r.outIq
      decompressedSize := r.outIq.length
      recvUs := entry.recvUs
      sampleId := entry.sampleId
      gnbTsNs := sample.gnbTsNs
      codeletTsNs := sample.codeletTsNs
      dispatchTsNs := entry.dispatchTsNs
      decompressNs := decompressNs }
    pure (some dec,r.outIq)
  else pure (none,r.outIq)

variable (mem : ℕ → UInt8) (entry : QueueEntry β) (s : IqSampleData) (buf : List Int16) (ns : UInt64)

/-- The payload is decompressed exactly if it has 28 bytes for each PRB. -/
theorem dispatchSample_delivers (h : s.numPrbu.toNat * bfpPrbSize ≤ s.payloadSize.toNat) :
    ∃ dec, (value mem (dispatchSample wide entry s buf ns)).1 = some dec ∧ dec.raw = s ∧
      dec.decompressedIq =
        (value mem (decompressBfp9bit wide s.payloadSize.toNat s.numPrbu buf)).outIq ∧
      dec.decompressedSize = dec.decompressedIq.length := by
  have hok : (value mem (decompressBfp9bit wide s.payloadSize.toNat s.numPrbu buf)).ok = true := by
    rw [decompress_value wide mem _ _ buf h]
  simp only [dispatchSample,value_bind,value_pure,if_pos hok]
  exact ⟨_,rfl,rfl,rfl,rfl⟩

theorem dispatchSample_short (h : s.payloadSize.toNat < s.numPrbu.toNat * bfpPrbSize) :
    (value mem (dispatchSample wide entry s buf ns)).1 = none := by
  simp only [dispatchSample,decompress_short wide _ _ buf h,value_bind,value_pure]
  rfl

theorem keep_iff (cfg : IqPipelineConfig) : (iqPipeline cfg).keep s = true ↔
    s.direction = 1 ∧ (cfg.expectedNumPrbu = 0 ∨ cfg.expectedNumPrbu.toNat = s.numPrbu.toNat) := by
  simp only [iqPipeline,Bool.not_eq_true',Bool.or_eq_false_iff,bne_eq_false_iff_eq,Bool.and_eq_false_iff,
    decide_eq_false_iff_not,gt_iff_lt,UInt16.pos_iff_ne_zero,ne_eq,not_not,UInt16.toNat_inj]
  rw [eq_comm (a := s.numPrbu)]

end Dispatch

section FullBand

def FromPipeline (cfg : IqPipelineConfig) (x : Fire) : Prop :=
  ∀ m, x.answers.prbIn = some m → m ∈ (iqPipeline cfg).configMessages

def FilterSet (cfg : IqPipelineConfig) (maps : Maps) : Prop :=
  maps.prbFilter.expectedNumPrbu = 0 ∨ maps.prbFilter.expectedNumPrbu = cfg.expectedNumPrbu

variable {cfg : IqPipelineConfig} {maps : Maps} {x : Fire}

theorem filterSet_receive (hset : FilterSet cfg maps) (hmsg : FromPipeline cfg x) :
    FilterSet cfg (receiveFilter maps x.answers) := by
  unfold receiveFilter
  split
  next m hm =>
    right
    rw [List.mem_singleton.mp (hmsg m hm)]
  · exact hset

theorem run_filterSet {fires : List Fire} {maps' : Maps} (hset : FilterSet cfg maps)
    (hmsg : ∀ x ∈ fires, FromPipeline cfg x) (hrun : run Ecpri.step maps fires = some maps') :
    FilterSet cfg maps' := by
  refine run_invariant (C := fun _ x => FromPipeline cfg x) (fun s y t hy hs ht => ?_) hset
    (along_of_forall hmsg) hrun
  have hmaps : MapsAfter s y.answers (value y.mem (jbpfMain s y.ctx y.answers)).1 :=
    jbpfMain_maps y.ctx y.answers
  rw [← Option.some.inj ht]
  unfold FilterSet at hs ⊢
  rcases hmaps.prbFilter with hsame | hreceived
  · exact hsame ▸ hs
  · exact hreceived ▸ filterSet_receive hs hy

/-- A frame of the targeted slot and symbol with one BFP-9 section over a carrier of `n` PRBs.
Zero in the header stands for all PRBs of a carrier whose count does not fit. -/
structure FullBand (n : ℕ) (f : Frame) : Prop where
  target : f.InTarget
  numPrbu : f.numPrbu.toNat = if n ≤ 255 then n else 0
  compMethod : f.compMethod = 1
  iqWidth : f.iqWidth = 9
  payload : f.payload.length = 28 * n

theorem FullBand.numPrbs_eq_iff {n : ℕ} {f : Frame} (h : FullBand n f) (hn : 1 ≤ n) :
    f.numPrbs = n ↔ n ≤ 255 ∨ n = 273 := by
  have hzero : f.numPrbu = 0 ↔ ¬ n ≤ 255 := by
    rw [← BitVec.toNat_inj,h.numPrbu,show (0 : BitVec 8).toNat = 0 from rfl]
    split <;> omega
  by_cases hsmall : n ≤ 255
  · rw [Frame.numPrbs,if_neg fun hc => hzero.mp hc hsmall,h.numPrbu,if_pos hsmall]
    exact iff_of_true rfl (.inl hsmall)
  · rw [Frame.numPrbs,if_pos (hzero.mpr hsmall)]
    omega

theorem FullBand.bytes_lt {n : ℕ} {f : Frame} (h : FullBand n f) (hn : n ≤ 275) :
    f.bytes.length < 65536 := by
  have htag : f.vlanTag.length ≤ 4 := by
    unfold Frame.vlanTag
    split
    · exact Nat.zero_le _
    · rw [List.length_append,length_word,length_word]
  have hpayload := h.payload
  simp only [Frame.bytes,List.length_append,f.length_addresses,length_word,f.length_ecpriBytes]
  omega

/-- The codelet sends the section, `process_buffers` keeps it, and every consumer receives
`24 * n` values. -/
def ReachesConsumers (wide : WideShift) (cfg : IqPipelineConfig) (n : ℕ) (r : FireResult) : Prop :=
  ∃ s, r.sent = some s ∧ (iqPipeline cfg).keep s = true ∧
    ∀ (β : Type) (mem : ℕ → UInt8) (entry : QueueEntry β) (buf : List Int16) (ns : UInt64),
      ∃ dec, (value mem (dispatchSample wide entry s buf ns)).1 = some dec ∧
        dec.decompressedIq.length = 24 * n ∧ dec.decompressedSize = 24 * n

theorem numPrbs_of_reaches {wide : WideShift} {n : ℕ} {f : Frame} (hclean : Clean maps)
    (hin : f.In x.mem x.ctx) (hlen : f.bytes.length < 65536) (hout : x.answers.outputOk = true)
    (hcfg : cfg.expectedNumPrbu ≠ 0) (h : ReachesConsumers wide cfg n (fire maps x).2) :
    f.numPrbs = cfg.expectedNumPrbu.toNat := by
  obtain ⟨s,hs,hkeep,-⟩ := h
  rcases fire_frame hclean hin hlen hout with ⟨-,-,s',hs',hcarried⟩ | ⟨-,hnone⟩
  · obtain rfl : s' = s := Option.some.inj (hs'.symm.trans hs)
    rw [keep_iff,hcarried.numPrbu] at hkeep
    exact (hkeep.2.resolve_left hcfg).symm
  · rw [hnone] at hs
    cases hs

theorem FullBand.reaches (wide : WideShift) {n : ℕ} {f : Frame} (hband : FullBand n f) (hn : n ≤ 275)
    (hclean : Clean maps) (hin : f.In x.mem x.ctx) (hout : x.answers.outputOk = true)
    (hdirection : x.ctx.direction = 1) (hcfg : cfg.expectedNumPrbu.toNat = n)
    (hset : FilterSet cfg (receiveFilter maps x.answers)) (hnum : f.numPrbs = n) :
    ReachesConsumers wide cfg n (fire maps x).2 := by
  have hpass : f.PassesFilter (receiveFilter maps x.answers).prbFilter := by
    refine hset.imp_right fun hfilter => ?_
    rw [hfilter,hcfg,hnum]
  rcases fire_frame hclean hin (hband.bytes_lt hn) hout with ⟨-,-,s,hs,hcarried⟩ | ⟨hdrop,-⟩
  · have hprbs : s.numPrbu.toNat = n := hcarried.numPrbu.trans hnum
    have hsize : s.payloadSize.toNat = 28 * n := by
      rw [hcarried.payloadSize,hband.payload,maxIqPayloadBytes]
      omega
    have hlong : s.numPrbu.toNat * bfpPrbSize ≤ s.payloadSize.toNat := by
      rw [hprbs,hsize,bfpPrbSize]
      omega
    have hexpected : cfg.expectedNumPrbu.toNat = s.numPrbu.toNat := hcfg.trans hprbs.symm
    refine ⟨s,hs,(keep_iff s _).mpr ⟨hcarried.direction.trans hdirection,.inr hexpected⟩,?_⟩
    intro β mem entry buf ns
    obtain ⟨dec,hdec,-,hiq,hlen⟩ := dispatchSample_delivers wide mem entry s buf ns hlong
    have hvalues : dec.decompressedIq.length = 24 * n := by
      rw [hiq,decompress_length wide mem _ _ buf hlong,hprbs]
      rfl
    exact ⟨dec,hdec,hvalues,hlen.trans hvalues⟩
  · exact absurd ⟨hband.target,hpass⟩ hdrop

/-- A full-band section of an accepted carrier reaches RF=1 unless its PRB count neither fits
into the header nor is 273. -/
theorem full_band_reaches_iff (wide : WideShift) (yaml : ConfigLoader.Yaml) {path : CString.Str}
    {out config : ControllerConfig}
    (hload : ConfigLoader.loadConfig yaml path out = (.accepted,config)) {fires : List Fire}
    (hrun : run Ecpri.step loadedMaps fires = some maps)
    (hmsgs : ∀ y ∈ fires, FromPipeline (iqPipelineConfig config) y)
    (hmsg : FromPipeline (iqPipelineConfig config) x) (hdirection : x.ctx.direction = 1)
    (hout : x.answers.outputOk = true) {f : Frame} (hin : f.In x.mem x.ctx)
    (hband : FullBand config.radio.nofPrbs.toNat f) :
    ReachesConsumers wide (iqPipelineConfig config) config.radio.nofPrbs.toNat (fire maps x).2 ↔
      config.radio.nofPrbs.toNat ≤ 255 ∨ config.radio.nofPrbs.toNat = 273 := by
  have hrange := RadioGeometry.inRange_of_validate (ConfigLoader.checked_of_accepted yaml hload).radio
  have hpos := hrange.prbs_pos
  have hle := hrange.prbs_le
  have hset : FilterSet (iqPipelineConfig config) (receiveFilter maps x.answers) :=
    filterSet_receive (run_filterSet (.inl rfl) hmsgs hrun) hmsg
  have hne : config.radio.nofPrbs ≠ 0 := fun h0 => by
    rw [h0] at hpos
    exact absurd hpos (by decide)
  have hclean : Clean maps := run_clean clean_loadedMaps hrun
  rw [← hband.numPrbs_eq_iff hpos]
  constructor
  · exact numPrbs_of_reaches hclean hin (hband.bytes_lt hle) hout hne
  · exact hband.reaches wide hle hclean hin hout hdirection rfl hset

end FullBand

def prbsDoc (n : CString.Str) : ConfigLoader.Node :=
  ConfigLoader.sectionDoc (CString.str "radio") [(CString.str "nof_prbs",n)]

def band106 : Frame :=
  lastSymbolFrame none (List.replicate 2968 0) (List.ne_nil_of_length_pos (by rw [List.length_replicate]; omega))

theorem full_band_reaches_iff_106 : ∃ config,
    ConfigLoader.loadConfig (ConfigLoader.decimalYaml (prbsDoc (CString.str "106"))) [] {} =
      (.accepted,config) ∧
    ReachesConsumers (fun m _ => m) (iqPipelineConfig config) 106
      (fire loadedMaps (band106.fire (some ⟨106⟩))).2 := by
  have hload : ConfigLoader.loadConfig (ConfigLoader.decimalYaml (prbsDoc (CString.str "106"))) [] {} =
      (.accepted,(ConfigLoader.loadConfig (ConfigLoader.decimalYaml (prbsDoc (CString.str "106"))) []
        {}).2) := rfl
  have hrun : run Ecpri.step loadedMaps [] = some loadedMaps := rfl
  refine ⟨_,hload,?_⟩
  refine (full_band_reaches_iff (fun m _ => m) _ hload (x := band106.fire (some ⟨106⟩)) hrun ?_ ?_ rfl
    rfl (band106.in_fire _) ⟨by decide,rfl,rfl,rfl,List.length_replicate⟩).mpr (.inl (by decide))
  · intro y hy
    cases hy
  · intro m hm
    rw [← Option.some.inj hm]
    exact List.mem_singleton_self _

/-- A full-band frame of 264 PRBs, the carrier of 400 MHz at 120 kHz: the header says zero. -/
def band264 : Frame :=
  { lastSymbolFrame none (List.replicate 7392 0)
      (List.ne_nil_of_length_pos (by rw [List.length_replicate]; omega)) with numPrbu := 0 }

/-- The carrier is accepted, its full-band section is dropped. -/
theorem full_band_264_dropped : ∃ config,
    ConfigLoader.loadConfig (ConfigLoader.decimalYaml (prbsDoc (CString.str "264"))) [] {} =
      (.accepted,config) ∧ config.radio.nofPrbs = 264 ∧ FullBand 264 band264 ∧
    ¬ ReachesConsumers (fun m _ => m) (iqPipelineConfig config) 264
      (fire loadedMaps (band264.fire (some ⟨264⟩))).2 := by
  have hband : FullBand 264 band264 := ⟨by decide,rfl,rfl,rfl,List.length_replicate⟩
  refine ⟨_,rfl,rfl,hband,fun h => ?_⟩
  have hnum := numPrbs_of_reaches clean_loadedMaps (band264.in_fire _)
    (hband.bytes_lt (by omega)) rfl (by decide) h
  exact absurd hnum (by decide)

section Compression

variable {β : Type} (wide : WideShift)

/-- What the consumers get of a sample that found a free queue entry: the filter of
`process_buffers`, then `dispatch_sample`. -/
def sectionDelivery (cfg : IqPipelineConfig) (mem : ℕ → UInt8) (entry : QueueEntry β)
    (s : IqSampleData) (buf : List Int16) (ns : UInt64) : Option DecompressedSample :=
  if (iqPipeline cfg).keep s then (value mem (dispatchSample wide entry s buf ns)).1 else none

def bfp9Values (payload : List UInt8) (n : UInt16) : List Int16 :=
  (value (fun i => payload.getD i 0) (decompressBfp9bit wide payload.length n [])).outIq

variable {cfg : IqPipelineConfig} {mem : ℕ → UInt8} {entry : QueueEntry β} {s : IqSampleData}
  {buf : List Int16} {ns : UInt64}

theorem sectionDelivery_isSome_iff : (sectionDelivery wide cfg mem entry s buf ns).isSome = true ↔
    (iqPipeline cfg).keep s = true ∧ s.numPrbu.toNat * bfpPrbSize ≤ s.payloadSize.toNat := by
  unfold sectionDelivery
  by_cases hkeep : (iqPipeline cfg).keep s = true
  · rw [if_pos hkeep]
    rcases Nat.lt_or_ge s.payloadSize.toNat (s.numPrbu.toNat * bfpPrbSize) with hshort | hlong
    · rw [dispatchSample_short wide mem entry s buf ns hshort]
      exact iff_of_false Bool.false_ne_true fun h => absurd h.2 (Nat.not_le.mpr hshort)
    · obtain ⟨dec,hdec,-⟩ := dispatchSample_delivers wide mem entry s buf ns hlong
      rw [hdec]
      exact iff_of_true rfl ⟨hkeep,hlong⟩
  · rw [if_neg hkeep]
    exact iff_of_false Bool.false_ne_true fun h => hkeep h.1

theorem sectionDelivery_values {dec : DecompressedSample}
    (h : sectionDelivery wide cfg mem entry s buf ns = some dec) : dec.raw = s ∧
    dec.decompressedIq = (value mem (decompressBfp9bit wide s.payloadSize.toNat s.numPrbu buf)).outIq := by
  obtain ⟨hkeep,hlong⟩ := (sectionDelivery_isSome_iff wide).mp (Option.isSome_of_mem h)
  obtain ⟨dec',hdec,hraw,hiq,-⟩ := dispatchSample_delivers wide mem entry s buf ns hlong
  rw [sectionDelivery,if_pos hkeep,hdec] at h
  exact Option.some.inj h ▸ ⟨hraw,hiq⟩

theorem bfp9Values_eq {payload : List UInt8} {n : UInt16} {dataLen : ℕ}
    (hmem : Holds mem 0 (payload.take maxIqPayloadBytes))
    (hlen : n.toNat * bfpPrbSize ≤ min payload.length maxIqPayloadBytes) (hdata : n.toNat * bfpPrbSize ≤ dataLen) :
    (value mem (decompressBfp9bit wide dataLen n buf)).outIq = bfp9Values wide payload n := by
  have hsame : ∀ i < n.toNat * bfpPrbSize, mem i = payload.getD i 0 := by
    intro i hi
    have hin : i < (payload.take maxIqPayloadBytes).length := by
      rw [List.length_take]
      omega
    have hget := hmem.get hin
    rw [Nat.zero_add] at hget
    rw [hget,List.getElem_take,List.getD_eq_getElem?_getD,List.getElem?_eq_getElem,Option.getD_some]
  rw [bfp9Values,← decompress_congr wide [] (by omega) hsame,
    decompress_value wide mem dataLen n buf hdata,decompress_value wide mem payload.length n [] (by omega)]

/-- Whatever compression the frame declares, its section is delivered exactly if it is an uplink
section of the configured PRB count with 28 bytes for each PRB, and is then read as BFP-9. The
declaration reaches the consumers unchanged. -/
theorem section_read_as_bfp9 {maps₀ maps : Maps} {fires : List Fire} (hclean : Clean maps₀)
    (hrun : run Ecpri.step maps₀ fires = some maps) {x : Fire} {f : Frame} (hin : f.In x.mem x.ctx)
    (hlen : f.bytes.length < 65536) (hsent : (fire maps x).2.sent = some s) (cfg : IqPipelineConfig)
    (hmem : Holds mem 0 s.iqPayload) (entry : QueueEntry β) (buf : List Int16) (ns : UInt64) :
    ((sectionDelivery wide cfg mem entry s buf ns).isSome = true ↔
      x.ctx.direction = 1 ∧ (cfg.expectedNumPrbu = 0 ∨ cfg.expectedNumPrbu.toNat = f.numPrbs) ∧
        f.numPrbs * 28 ≤ min f.payload.length maxIqPayloadBytes) ∧
    ∀ dec, sectionDelivery wide cfg mem entry s buf ns = some dec →
      dec.raw.compMethod.toNat = f.compMethod.toNat ∧ dec.raw.iqWidth.toNat = f.iqWidth.toNat ∧
        dec.decompressedIq = bfp9Values wide f.payload (UInt16.ofNat f.numPrbs) := by
  have hcarried : f.Carried x.ctx s := by
    rcases jbpfMain_frame x.answers hin (run_clean hclean hrun) hlen with
      ⟨-,s',hs',hreturn⟩ | ⟨-,hreturn⟩
    · rw [fire,hreturn,outputReturn] at hsent
      split at hsent
      · exact Option.some.inj hsent ▸ hs'
      · cases hsent
    · rw [fire,hreturn] at hsent
      cases hsent
  have hiff : (sectionDelivery wide cfg mem entry s buf ns).isSome = true ↔
      x.ctx.direction = 1 ∧ (cfg.expectedNumPrbu = 0 ∨ cfg.expectedNumPrbu.toNat = f.numPrbs) ∧
        f.numPrbs * 28 ≤ min f.payload.length maxIqPayloadBytes := by
    rw [sectionDelivery_isSome_iff,keep_iff,hcarried.direction,hcarried.numPrbu,hcarried.payloadSize,
      and_assoc]
    rfl
  refine ⟨hiff,fun dec hdec => ?_⟩
  obtain ⟨hraw,hiq⟩ := sectionDelivery_values wide hdec
  obtain ⟨-,hlong⟩ := (sectionDelivery_isSome_iff wide).mp (Option.isSome_of_mem hdec)
  obtain ⟨-,-,hpayload⟩ := hiff.mp (Option.isSome_of_mem hdec)
  have hn : s.numPrbu = UInt16.ofNat f.numPrbs := by
    rw [← hcarried.numPrbu,UInt16.ofNat_toNat]
  rw [hcarried.iqPayload,holds_append] at hmem
  refine ⟨by rw [hraw,hcarried.compMethod],by rw [hraw,hcarried.iqWidth],?_⟩
  rw [hiq,← hn]
  exact bfp9Values_eq wide hmem.1 (by rw [hcarried.numPrbu]; exact hpayload) hlong

end Compression

def firstEntry : QueueEntry Unit := { buf := (), dispatchTsNs := 0, recvUs := 0, sampleId := 1 }

def uncompressed106 : Frame :=
  { lastSymbolFrame none (List.replicate 5088 0)
      (List.ne_nil_of_length_pos (by rw [List.length_replicate]; omega)) with
    compMethod := 0
    iqWidth := 0 }

theorem uncompressed106_bytes_lt : uncompressed106.bytes.length < 65536 := by
  simp only [Frame.bytes,List.length_append,uncompressed106.length_addresses,length_word,
    uncompressed106.length_ecpriBytes]
  rw [show uncompressed106.payload.length = 5088 from List.length_replicate]
  decide

theorem uncompressed106_sent : ∃ s, (fire loadedMaps (uncompressed106.fire none)).2.sent = some s ∧
    uncompressed106.Carried (uncompressed106.fire none).ctx s := by
  rcases fire_frame clean_loadedMaps (uncompressed106.in_fire none)
    uncompressed106_bytes_lt rfl with ⟨-,-,hs⟩ | ⟨hdrop,-⟩
  · exact hs
  · exact absurd ⟨by decide,.inl rfl⟩ hdrop

theorem section_read_as_bfp9_uncompressed : ∃ s,
    (fire loadedMaps (uncompressed106.fire none)).2.sent = some s ∧
      (sectionDelivery (fun m _ => m) {} (fun i => s.iqPayload.getD i 0) firstEntry s [] 0).isSome =
        true := by
  obtain ⟨s,hs,-⟩ := uncompressed106_sent
  refine ⟨s,hs,(section_read_as_bfp9 (fun m _ => m) clean_loadedMaps
    (rfl : run Ecpri.step loadedMaps [] = some loadedMaps) (uncompressed106.in_fire none) uncompressed106_bytes_lt hs {} (holds_getD 0 s.iqPayload) firstEntry
    [] 0).1.mpr ⟨rfl,.inr (by decide),?_⟩⟩
  rw [show uncompressed106.payload.length = 5088 from List.length_replicate]
  decide

/-- A section that declares uncompressed samples is decoded as BFP-9 and delivered. -/
theorem uncompressed_section_delivered : ∃ s dec,
    (fire loadedMaps (uncompressed106.fire none)).2.sent = some s ∧
      sectionDelivery (fun m _ => m) {} (fun i => s.iqPayload.getD i 0) firstEntry s [] 0 = some dec ∧
      ¬ (dec.raw.compMethod = 1 ∧ dec.raw.iqWidth = 9) := by
  obtain ⟨s,hs,hcarried⟩ := uncompressed106_sent
  have hkeep : (iqPipeline {}).keep s = true :=
    (keep_iff s {}).mpr ⟨hcarried.direction,.inr (by rw [hcarried.numPrbu]; decide)⟩
  have hlong : s.numPrbu.toNat * bfpPrbSize ≤ s.payloadSize.toNat := by
    rw [hcarried.numPrbu,hcarried.payloadSize,
      show uncompressed106.payload.length = 5088 from List.length_replicate]
    decide
  have hsome : (sectionDelivery (fun m _ => m) {} (fun i => s.iqPayload.getD i 0) firstEntry s []
      0).isSome = true := (sectionDelivery_isSome_iff _).mpr ⟨hkeep,hlong⟩
  obtain ⟨dec,hdec⟩ := Option.isSome_iff_exists.mp hsome
  refine ⟨s,dec,hs,hdec,fun hbfp => ?_⟩
  have hmethod := hcarried.compMethod
  rw [← (sectionDelivery_values _ hdec).1,hbfp.1] at hmethod
  exact absurd hmethod (by decide)

end SectionPath
end E3Controller
