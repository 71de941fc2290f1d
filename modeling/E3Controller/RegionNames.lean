import E3Controller.ShmRegion
import E3Controller.L1KpmIndication
import E3Controller.SlotApi

/-!
# One region, four names

The configured name reaches the operating system as a C string, the gNB helper
in a 64-byte array, and the dApp as a JSON string or a bounded octet string. The
loader bounds none of this, so the parties agree only on short names.
-/

namespace E3Controller
namespace RegionNames

open CString Config ConfigLoader Shm L1Kpm SlotApi

/-- All parties are told about the region that `open` creates, and the row the
helper is told about is the row the header advertises. -/
structure SameRegion {ω : Type} (codecs : Codecs ω) (c : ControllerConfig) (region : Str) :
    Prop where
  created : ∀ (os : OsAnswers) (w : ShmIqWriter), w.mapped = false →
    OsCall.shmOpen region ∈ (w.openRegion os c.shm.name c.shm.sizeBytes c.radio c.shm.cbf16Scale
      c.shm.writer).2.2
  helper : cstr (shmCfgMessage (slotPipelineConfig c)).name = region
  json : ∀ (ts : UInt64) (sfn slot : UInt16) (buf : UInt8) (row : UInt32) (ports : UInt16),
    ∃ w j, encodeIqIndicationJson codecs ts sfn slot c.shm.name buf row ports = some w ∧
      codecs.parse w = some j ∧ j.shmName = region
  aper : ∀ (ts : UInt64) (sfn slot : UInt16) (buf : UInt8) (row : UInt32) (ports : UInt16),
    ∃ w i, encodeIqIndicationAper codecs ⟨true,true⟩ ts sfn slot c.shm.name buf row ports = some w ∧
      codecs.aperDecode w = some i ∧ i.shmName = region
  subcarriers : (shmCfgMessage (slotPipelineConfig c)).nofSubcarriers.toNat =
    c.radio.nofSubcarriers.toNat
  row : ∀ (os : OsAnswers) (w w' : ShmIqWriter) (calls : List OsCall) (h : SharedMemoryHeader),
    w.openRegion os c.shm.name c.shm.sizeBytes c.radio c.shm.cbf16Scale c.shm.writer =
      (true,w',calls) → w'.header = some h →
    (shmCfgMessage (slotPipelineConfig c)).nofSymbols.toNat *
      (shmCfgMessage (slotPipelineConfig c)).nofSubcarriers.toNat * 2 * c.radio.nofPorts.toNat =
      h.numFhSamples.toNat

def Portable (name : Str) : Prop := 0 ∉ name ∧ name.length ≤ 63 ∧ Utf8 name

section Open

variable {os : OsAnswers} {w w' : ShmIqWriter} {name : Str} {total : UInt64} {g : RadioGeometry}
  {scale : F32} {writer : ShmWriter} {calls : List OsCall} {h : SharedMemoryHeader}

theorem openRegion_creates (hw : w.mapped = false) (region : Str) :
    OsCall.shmOpen region ∈ (w.openRegion os name total g scale writer).2.2 ↔
      region = cstr name := by
  rcases openRegion_cases os w name total g scale writer with
    ⟨hm,-⟩ | ⟨-,-,h⟩ | ⟨-,-,-,h⟩ | ⟨-,-,fd,-,h⟩
  · rw [hw] at hm
    cases hm
  all_goals rw [h]
  · simp
  · cases name <;> simp
  · simp

theorem openRegion_numFhSamples
    (ho : w.openRegion os name total g scale writer = (true,w',calls)) (hh : w'.header = some h) :
    h.numFhSamples = g.numFhSamples := by
  obtain ⟨-,fd,rfl⟩ := openRegion_ok ho
  cases hh
  rfl

end Open

section Names

variable {ω : Type} {codecs : Codecs ω} {c : ControllerConfig} {region : Str}

theorem json_name (codecs : Codecs ω) {name : Str} (hutf : Utf8 name) (ts : UInt64)
    (sfn slot : UInt16) (buf : UInt8) (row : UInt32) (ports : UInt16) :
    ∃ w j, encodeIqIndicationJson codecs ts sfn slot name buf row ports = some w ∧
      codecs.parse w = some j ∧ j.shmName = name := by
  obtain ⟨w,hw⟩ := Option.isSome_iff_exists.mp
    ((codecs.dump_isSome (jsonIndication ts sfn slot name buf row ports)).mpr hutf)
  exact ⟨w,_,hw,codecs.parse_dump _ _ hw,rfl⟩

theorem aper_name (codecs : Codecs ω) {name : Str} (hlen : 1 ≤ name.length ∧ name.length ≤ 63)
    (ts : UInt64) (sfn slot : UInt16) (buf : UInt8) (row : UInt32) (ports : UInt16) :
    ∃ w i, encodeIqIndicationAper codecs ⟨true,true⟩ ts sfn slot name buf row ports = some w ∧
      codecs.aperDecode w = some i ∧ i.shmName = name := by
  obtain ⟨w,hw⟩ := Option.isSome_iff_exists.mp ((codecs.aperEncode_isSome _).mpr
    ((aperIndication_grammar_iff ts sfn slot name buf row ports true).mpr hlen))
  exact ⟨w,_,hw,codecs.aperDecode_encode _ _ hw,rfl⟩

theorem subcarriers_eq (hg : c.radio.InRange) :
    (shmCfgMessage (slotPipelineConfig c)).nofSubcarriers.toNat = c.radio.nofSubcarriers.toNat := by
  have hle := hg.subcarriers_le
  simp only [shmCfgMessage,slotPipelineConfig,UInt32.toNat_toUInt16]
  exact Nat.mod_eq_of_lt (by omega)

theorem row_eq (hg : c.radio.InRange) :
    (shmCfgMessage (slotPipelineConfig c)).nofSymbols.toNat *
      (shmCfgMessage (slotPipelineConfig c)).nofSubcarriers.toNat * 2 * c.radio.nofPorts.toNat =
      c.radio.numFhSamples.toNat := by
  rw [subcarriers_eq hg,hg.numFhSamples_toNat,Nat.mul_comm _ c.radio.nofPorts.toNat]
  rfl

theorem sameRegion_of_portable (hg : c.radio.InRange) (hpos : 1 ≤ c.shm.name.length)
    (hp : Portable c.shm.name) : SameRegion codecs c c.shm.name := by
  obtain ⟨hnul,hlen,hutf⟩ := hp
  have hcstr := (cstr_eq_self_iff c.shm.name).mpr hnul
  refine ⟨fun os w hw => (openRegion_creates hw _).mpr hcstr.symm,?_,json_name codecs hutf,
    aper_name codecs ⟨hpos,hlen⟩,subcarriers_eq hg,?_⟩
  · change cstr (charArray shmCfgNameLen c.shm.name) = c.shm.name
    rw [cstr_charArray (by decide),hcstr,List.take_of_length_le (by simpa [shmCfgNameLen] using hlen)]
  · intro os w w' calls h ho hh
    rw [row_eq hg,openRegion_numFhSamples ho hh]

/-- The JSON string carries every byte, so it names the created region only if
there is no NUL; the octet string then bounds the length. -/
theorem portable_of_sameRegion (h : SameRegion codecs c region) : Portable c.shm.name := by
  have hcreated := (openRegion_creates (w := {}) rfl region).mp (h.created ⟨none,true,true⟩ {} rfl)
  obtain ⟨w,j,hj,hparse,hname⟩ := h.json 0 0 0 0 0 1
  have hjson := codecs.parse_dump _ _ hj
  rw [hparse] at hjson
  cases hjson
  have hcstr : cstr c.shm.name = c.shm.name := (hname.trans hcreated).symm
  have hutf := (codecs.dump_isSome _).mp (Option.isSome_iff_exists.mpr ⟨w,hj⟩)
  obtain ⟨w',i,hi,-,-⟩ := h.aper 0 0 0 0 0 1
  have hlen := (aperIndication_grammar_iff _ _ _ _ _ _ _ _).mp
    ((codecs.aperEncode_isSome _).mp (Option.isSome_iff_exists.mpr ⟨w',hi⟩))
  exact ⟨(cstr_eq_self_iff _).mp hcstr,hlen.2,hutf⟩

end Names

/-- For every accepted configuration whose region the system opens, all parties
are told about one region exactly when the name is portable. `opens` is the
system's answer to `shm_open`, which refuses an empty name. -/
theorem sameRegion_iff_portable {ω : Type} (codecs : Codecs ω) (yaml : Yaml) (path : Str)
    (out c : ControllerConfig) (opens : Str → Bool) (hempty : opens [] = false)
    (hload : loadConfig yaml path out = (.accepted,c)) (hopen : opens (cstr c.shm.name) = true) :
    (∃ region, SameRegion codecs c region) ↔ Portable c.shm.name := by
  have hg := RadioGeometry.inRange_of_validate (checked_of_accepted yaml hload).radio
  constructor
  · rintro ⟨region,h⟩
    exact portable_of_sameRegion h
  · intro hp
    refine ⟨c.shm.name,sameRegion_of_portable hg ?_ hp⟩
    rw [(cstr_eq_self_iff _).mpr hp.1] at hopen
    rcases hname : c.shm.name with _ | ⟨b,bs⟩
    · rw [hname,hempty] at hopen
      cases hopen
    · simp

def nameDoc (name : Str) : Node := sectionDoc (str "shm") [(str "name",name)]

def namedConfig (name : Str) : ControllerConfig where
  shm := { name := name }
  jbpf := { lcmSocketPath := str "/dev/shm/jbpf/jbpf_lcm_ipc" }

def opensName (name : Str) : Bool := !name.isEmpty && name.length ≤ 255

theorem sameRegion_iff_portable_default :
    loadConfig (decimalYaml (nameDoc (str "/e3_ran_buffers"))) (str "e3.yaml") {} =
      (.accepted,namedConfig (str "/e3_ran_buffers")) ∧
    ∃ region, SameRegion taggedCodecs (namedConfig (str "/e3_ran_buffers")) region := by
  have hload : loadConfig (decimalYaml (nameDoc (str "/e3_ran_buffers"))) (str "e3.yaml") {} =
      (.accepted,namedConfig (str "/e3_ran_buffers")) := by decide +kernel
  have hp : Portable (str "/e3_ran_buffers") := ⟨by decide +kernel,by decide +kernel,_,rfl⟩
  exact ⟨hload,(sameRegion_iff_portable taggedCodecs _ _ _ _ opensName rfl hload
    (by decide +kernel)).mpr hp⟩

def longName : Str := str "/e3_ran_buffers_of_the_second_cell_on_the_north_tower_controller"

/-- The name is accepted and the region can be opened, but the helper is told a
name without its last byte and the APER indication is never encoded. -/
theorem long_name_splits_region :
    loadConfig (decimalYaml (nameDoc longName)) (str "e3.yaml") {} =
      (.accepted,namedConfig longName) ∧ opensName (cstr longName) = true ∧
    cstr (shmCfgMessage (slotPipelineConfig (namedConfig longName))).name ≠ longName ∧
    (∀ ts sfn slot buf row ports,
      encodeIqIndicationAper taggedCodecs ⟨true,true⟩ ts sfn slot longName buf row ports = none) ∧
    ¬ ∃ region, SameRegion taggedCodecs (namedConfig longName) region := by
  have hlen : ¬ longName.length ≤ 63 := by decide +kernel
  refine ⟨by decide +kernel,by decide +kernel,by decide +kernel,?_,?_⟩
  · intro ts sfn slot buf row ports
    rw [encodeIqIndicationAper,if_pos rfl,← Option.not_isSome_iff_eq_none,
      taggedCodecs.aperEncode_isSome,aperIndication_grammar_iff]
    exact fun h => hlen h.2
  · rintro ⟨region,h⟩
    exact hlen (portable_of_sameRegion h).2.1

end RegionNames
end E3Controller
