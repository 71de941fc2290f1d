import E3Controller.Config

/-!
# The two encodings of an L1-KPM indication

`encode_iq_indication_json` fills a JSON object, `encode_iq_indication_aper` the
struct that asn1c generates from the grammar. The text and bit formats
themselves are the libraries'; `Codecs` states what is relied on of them.
-/

namespace E3Controller
namespace L1Kpm

open CString Config

structure JsonIndication where
  timestamp : UInt64
  sfn : UInt16
  slot : UInt16
  nRxAnt : UInt16
  shmName : Str
  fhBufferIndex : UInt8
  fhWriteIndex : UInt32
  deriving DecidableEq, Repr

/-- `L1KPM_Indication_t`, with `long` members as integers; `cellId` and
`validSymbolMask` are never emitted. -/
structure AperIndication where
  shmName : Str
  fhBufferIndex : ℤ
  fhWriteIndex : ℤ
  timestamp : ℤ
  sfn : ℤ
  slot : ℤ
  nRxAnt : Option ℤ
  deriving DecidableEq, Repr

/-- The constraints of `L1KPM-Indication` and `L1KPM-ShmRef`. -/
structure AperIndication.Grammar (i : AperIndication) : Prop where
  shmName : 1 ≤ i.shmName.length ∧ i.shmName.length ≤ 63
  fhBufferIndex : 0 ≤ i.fhBufferIndex ∧ i.fhBufferIndex ≤ 255
  fhWriteIndex : 0 ≤ i.fhWriteIndex ∧ i.fhWriteIndex ≤ 4294967295
  sfn : 0 ≤ i.sfn ∧ i.sfn ≤ 65535
  slot : 0 ≤ i.slot ∧ i.slot ≤ 65535
  nRxAnt : ∀ n ∈ i.nRxAnt, 0 ≤ n ∧ n ≤ 65535

def Utf8 (s : Str) : Prop := ∃ text : String, str text = s

instance (i : AperIndication) : Decidable i.Grammar :=
  decidable_of_iff ((1 ≤ i.shmName.length ∧ i.shmName.length ≤ 63) ∧
      (0 ≤ i.fhBufferIndex ∧ i.fhBufferIndex ≤ 255) ∧
      (0 ≤ i.fhWriteIndex ∧ i.fhWriteIndex ≤ 4294967295) ∧ (0 ≤ i.sfn ∧ i.sfn ≤ 65535) ∧
      (0 ≤ i.slot ∧ i.slot ≤ 65535) ∧ ∀ n ∈ i.nRxAnt, 0 ≤ n ∧ n ≤ 65535)
    ⟨fun ⟨h₁,h₂,h₃,h₄,h₅,h₆⟩ => ⟨h₁,h₂,h₃,h₄,h₅,h₆⟩,fun ⟨h₁,h₂,h₃,h₄,h₅,h₆⟩ => ⟨h₁,h₂,h₃,h₄,h₅,h₆⟩⟩

theorem utf8_iff_isValidUTF8 (s : Str) : Utf8 s ↔ s.toByteArray.IsValidUTF8 := by
  constructor
  · rintro ⟨text,rfl⟩
    exact ⟨text.toList,rfl⟩
  · rintro ⟨chars,h⟩
    refine ⟨String.ofList chars,?_⟩
    rw [str,String.toList_ofList]
    exact (List.toByteArray_inj.mp h).symm

instance (s : Str) : Decidable (Utf8 s) := decidable_of_iff _ (utf8_iff_isValidUTF8 s).symm

/-- The JSON library and the asn1c runtime. `dump` throws on a string that is not
UTF-8, `aperEncode` fails outside the grammar's constraints, and each decoder
undoes its encoder. -/
structure Codecs (ω : Type) where
  dump : JsonIndication → Option ω
  parse : ω → Option JsonIndication
  aperEncode : AperIndication → Option ω
  aperDecode : ω → Option AperIndication
  size : ω → ℕ
  dump_isSome : ∀ j, (dump j).isSome ↔ Utf8 j.shmName
  parse_dump : ∀ j w, dump j = some w → parse w = some j
  aperEncode_isSome : ∀ i, (aperEncode i).isSome ↔ i.Grammar
  aperDecode_encode : ∀ i w, aperEncode i = some w → aperDecode w = some i

def taggedCodecs : Codecs (JsonIndication ⊕ AperIndication) where
  dump j := if Utf8 j.shmName then some (.inl j) else none
  parse
    | .inl j => some j
    | .inr _ => none
  aperEncode i := if i.Grammar then some (.inr i) else none
  aperDecode
    | .inl _ => none
    | .inr i => some i
  size _ := 80
  dump_isSome j := by split_ifs with h <;> simp [h]
  parse_dump j w h := by
    split_ifs at h
    cases h
    rfl
  aperEncode_isSome i := by split_ifs with h <;> simp [h]
  aperDecode_encode i w h := by
    split_ifs at h
    cases h
    rfl

/-- Whether the two allocations of the APER encoder succeed. -/
structure AllocAnswers where
  shmRef : Bool
  nRxAnt : Bool

def jsonIndication (timestampNs : UInt64) (sfn slot : UInt16) (shmName : Str)
    (fhBufferIndex : UInt8) (fhWriteIndex : UInt32) (nofPorts : UInt16) : JsonIndication where
  timestamp := timestampNs
  sfn := sfn
  slot := slot
  nRxAnt := nofPorts
  shmName := shmName
  fhBufferIndex := fhBufferIndex
  fhWriteIndex := fhWriteIndex

/-- The struct `encode_iq_indication_aper` fills; the time stamp is cast to `long`. -/
def aperIndication (timestampNs : UInt64) (sfn slot : UInt16) (shmName : Str)
    (fhBufferIndex : UInt8) (fhWriteIndex : UInt32) (nofPorts : UInt16) (antAllocated : Bool) :
    AperIndication where
  shmName := shmName
  fhBufferIndex := fhBufferIndex.toNat
  fhWriteIndex := fhWriteIndex.toNat
  timestamp := timestampNs.toBitVec.toInt
  sfn := sfn.toNat
  slot := slot.toNat
  nRxAnt := if nofPorts > 0 && antAllocated then some nofPorts.toNat else none

variable {ω : Type} (codecs : Codecs ω)

/-- `none` is the exception of `dump`. -/
def encodeIqIndicationJson (timestampNs : UInt64) (sfn slot : UInt16) (shmName : Str)
    (fhBufferIndex : UInt8) (fhWriteIndex : UInt32) (nofPorts : UInt16) : Option ω :=
  codecs.dump (jsonIndication timestampNs sfn slot shmName fhBufferIndex fhWriteIndex nofPorts)

/-- `none` is the result `false`. -/
def encodeIqIndicationAper (alloc : AllocAnswers) (timestampNs : UInt64) (sfn slot : UInt16)
    (shmName : Str) (fhBufferIndex : UInt8) (fhWriteIndex : UInt32) (nofPorts : UInt16) : Option ω :=
  if alloc.shmRef then
    codecs.aperEncode (aperIndication timestampNs sfn slot shmName fhBufferIndex fhWriteIndex
      nofPorts alloc.nRxAnt)
  else none

/-- Which slot an indication is about and where its row is. -/
structure Coordinates where
  timestamp : UInt64
  sfn : UInt16
  slot : UInt16
  fhBufferIndex : UInt8
  fhWriteIndex : UInt32
  deriving DecidableEq, Repr

def Carries (encoding : EncodingFormat) (payload : ω) (c : Coordinates) : Prop :=
  match encoding with
  | .json => ∃ j, codecs.parse payload = some j ∧ j.timestamp = c.timestamp ∧ j.sfn = c.sfn ∧
      j.slot = c.slot ∧ j.fhBufferIndex = c.fhBufferIndex ∧ j.fhWriteIndex = c.fhWriteIndex
  | .asn1 => ∃ i, codecs.aperDecode payload = some i ∧ i.timestamp = c.timestamp.toBitVec.toInt ∧
      i.sfn = c.sfn.toNat ∧ i.slot = c.slot.toNat ∧ i.fhBufferIndex = c.fhBufferIndex.toNat ∧
      i.fhWriteIndex = c.fhWriteIndex.toNat

def Announces (encoding : EncodingFormat) (payload : ω) (n : ℕ) : Prop :=
  match encoding with
  | .json => ∃ j, codecs.parse payload = some j ∧ j.nRxAnt.toNat = n
  | .asn1 => ∃ i, codecs.aperDecode payload = some i ∧ i.nRxAnt = some (n : ℤ)

section Payload

variable {codecs} {timestampNs : UInt64} {sfn slot : UInt16} {shmName : Str} {fhBufferIndex : UInt8}
  {fhWriteIndex : UInt32} {nofPorts : UInt16} {alloc : AllocAnswers} {payload : ω}

theorem carries_json (h : encodeIqIndicationJson codecs timestampNs sfn slot shmName fhBufferIndex
    fhWriteIndex nofPorts = some payload) :
    Carries codecs .json payload ⟨timestampNs,sfn,slot,fhBufferIndex,fhWriteIndex⟩ :=
  ⟨_,codecs.parse_dump _ _ h,rfl,rfl,rfl,rfl,rfl⟩

theorem aperDecode_of_encode (h : encodeIqIndicationAper codecs alloc timestampNs sfn slot shmName
    fhBufferIndex fhWriteIndex nofPorts = some payload) :
    codecs.aperDecode payload = some (aperIndication timestampNs sfn slot shmName fhBufferIndex
      fhWriteIndex nofPorts alloc.nRxAnt) := by
  unfold encodeIqIndicationAper at h
  split at h
  · exact codecs.aperDecode_encode _ _ h
  · cases h

theorem carries_aper (h : encodeIqIndicationAper codecs alloc timestampNs sfn slot shmName
    fhBufferIndex fhWriteIndex nofPorts = some payload) :
    Carries codecs .asn1 payload ⟨timestampNs,sfn,slot,fhBufferIndex,fhWriteIndex⟩ :=
  ⟨_,aperDecode_of_encode h,rfl,rfl,rfl,rfl,rfl⟩

theorem announces_json {n : ℕ} (h : encodeIqIndicationJson codecs timestampNs sfn slot shmName
    fhBufferIndex fhWriteIndex nofPorts = some payload) (hn : Announces codecs .json payload n) :
    n = nofPorts.toNat := by
  obtain ⟨j,hj,rfl⟩ := hn
  rw [codecs.parse_dump _ _ h] at hj
  cases hj
  rfl

theorem announces_aper {n : ℕ} (h : encodeIqIndicationAper codecs alloc timestampNs sfn slot shmName
    fhBufferIndex fhWriteIndex nofPorts = some payload) (hn : Announces codecs .asn1 payload n) :
    n = nofPorts.toNat := by
  obtain ⟨i,hi,hant⟩ := hn
  rw [aperDecode_of_encode h] at hi
  cases hi
  simp only [aperIndication] at hant
  split at hant
  · cases hant
    rfl
  · cases hant

end Payload

theorem aperIndication_grammar_iff (timestampNs : UInt64) (sfn slot : UInt16) (shmName : Str)
    (fhBufferIndex : UInt8) (fhWriteIndex : UInt32) (nofPorts : UInt16) (antAllocated : Bool) :
    (aperIndication timestampNs sfn slot shmName fhBufferIndex fhWriteIndex nofPorts
      antAllocated).Grammar ↔ 1 ≤ shmName.length ∧ shmName.length ≤ 63 := by
  constructor
  · exact fun h => h.shmName
  · intro h
    have hbuf := fhBufferIndex.toNat_lt
    have hrow := fhWriteIndex.toNat_lt
    have hsfn := sfn.toNat_lt
    have hslot := slot.toNat_lt
    have hports := nofPorts.toNat_lt
    refine ⟨h,?_,?_,?_,?_,?_⟩
    · simp only [aperIndication]
      omega
    · simp only [aperIndication]
      omega
    · simp only [aperIndication]
      omega
    · simp only [aperIndication]
      omega
    · intro n hn
      simp only [aperIndication,Option.mem_def,ite_eq_iff,Option.some.injEq,reduceCtorEq,
        and_false,or_false] at hn
      omega

/-- What a decoded indication says, whichever format it came in. -/
structure IndicationRecord where
  timestamp : ℤ
  sfn : ℤ
  slot : ℤ
  nRxAnt : Option ℤ
  shmName : Str
  fhBufferIndex : ℤ
  fhWriteIndex : ℤ
  deriving DecidableEq, Repr

def JsonIndication.record (j : JsonIndication) : IndicationRecord where
  timestamp := j.timestamp.toNat
  sfn := j.sfn.toNat
  slot := j.slot.toNat
  nRxAnt := some j.nRxAnt.toNat
  shmName := j.shmName
  fhBufferIndex := j.fhBufferIndex.toNat
  fhWriteIndex := j.fhWriteIndex.toNat

def AperIndication.record (i : AperIndication) : IndicationRecord where
  timestamp := i.timestamp
  sfn := i.sfn
  slot := i.slot
  nRxAnt := i.nRxAnt
  shmName := i.shmName
  fhBufferIndex := i.fhBufferIndex
  fhWriteIndex := i.fhWriteIndex

section Agreement

variable (alloc : AllocAnswers) (timestampNs : UInt64) (sfn slot : UInt16) (shmName : Str)
  (fhBufferIndex : UInt8) (fhWriteIndex : UInt32) (nofPorts : UInt16)

/-- Both encoders fail, or both succeed and their outputs decode to one record. -/
def EncodersAgree : Prop :=
  match encodeIqIndicationJson codecs timestampNs sfn slot shmName fhBufferIndex fhWriteIndex nofPorts,
    encodeIqIndicationAper codecs alloc timestampNs sfn slot shmName fhBufferIndex fhWriteIndex
      nofPorts with
  | some json, some aper => ∃ j i, codecs.parse json = some j ∧ codecs.aperDecode aper = some i ∧
      j.record = i.record
  | none, none => True
  | _, _ => False

def aperTakes : Prop := alloc.shmRef = true ∧ 1 ≤ shmName.length ∧ shmName.length ≤ 63

theorem encodeJson_isSome_iff :
    (encodeIqIndicationJson codecs timestampNs sfn slot shmName fhBufferIndex fhWriteIndex
      nofPorts).isSome ↔ Utf8 shmName :=
  codecs.dump_isSome _

theorem encodeAper_isSome_iff :
    (encodeIqIndicationAper codecs alloc timestampNs sfn slot shmName fhBufferIndex fhWriteIndex
      nofPorts).isSome ↔ aperTakes alloc shmName := by
  unfold encodeIqIndicationAper aperTakes
  by_cases hal : alloc.shmRef
  · rw [if_pos hal,codecs.aperEncode_isSome,aperIndication_grammar_iff,and_iff_right hal]
  · simp [hal]

/-- The cast to `long` keeps a time stamp below `2^63` and turns any other negative. -/
theorem timestamp_cast_iff : (timestampNs.toNat : ℤ) = timestampNs.toBitVec.toInt ↔
    timestampNs.toNat < 2 ^ 63 := by
  have hlt := timestampNs.toNat_lt
  rw [BitVec.toInt_eq_toNat_cond]
  change (timestampNs.toNat : ℤ) = (if 2 * timestampNs.toNat < 2 ^ 64 then
    (timestampNs.toNat : ℤ) else (timestampNs.toNat : ℤ) - (2 ^ 64 : ℕ)) ↔ _
  split_ifs <;> omega

theorem records_eq_iff (hports : 1 ≤ nofPorts.toNat) :
    (jsonIndication timestampNs sfn slot shmName fhBufferIndex fhWriteIndex nofPorts).record =
      (aperIndication timestampNs sfn slot shmName fhBufferIndex fhWriteIndex nofPorts
        alloc.nRxAnt).record ↔ alloc.nRxAnt = true ∧ timestampNs.toNat < 2 ^ 63 := by
  have hpos : nofPorts > 0 := UInt16.lt_iff_toNat_lt.mpr hports
  rw [← timestamp_cast_iff]
  cases hant : alloc.nRxAnt <;>
    simp [JsonIndication.record,AperIndication.record,jsonIndication,aperIndication,hpos]

variable {codecs alloc timestampNs sfn slot shmName fhBufferIndex fhWriteIndex nofPorts}

theorem EncodersAgree.takes_iff (h : EncodersAgree codecs alloc timestampNs sfn slot shmName
    fhBufferIndex fhWriteIndex nofPorts) : Utf8 shmName ↔ aperTakes alloc shmName := by
  rw [← encodeJson_isSome_iff codecs timestampNs sfn slot shmName fhBufferIndex fhWriteIndex nofPorts,
    ← encodeAper_isSome_iff codecs alloc timestampNs sfn slot shmName fhBufferIndex fhWriteIndex
      nofPorts]
  unfold EncodersAgree at h
  split at h
  next hj ha => rw [hj,ha]; exact iff_of_true rfl rfl
  next hj ha => rw [hj,ha]
  next => exact h.elim

theorem encodersAgree_of_takes (hutf : Utf8 shmName) (htakes : aperTakes alloc shmName) :
    EncodersAgree codecs alloc timestampNs sfn slot shmName fhBufferIndex fhWriteIndex nofPorts ↔
      (jsonIndication timestampNs sfn slot shmName fhBufferIndex fhWriteIndex nofPorts).record =
      (aperIndication timestampNs sfn slot shmName fhBufferIndex fhWriteIndex nofPorts
        alloc.nRxAnt).record := by
  obtain ⟨json,hj⟩ := Option.isSome_iff_exists.mp ((encodeJson_isSome_iff codecs timestampNs sfn slot
    shmName fhBufferIndex fhWriteIndex nofPorts).mpr hutf)
  obtain ⟨aper,ha⟩ := Option.isSome_iff_exists.mp ((encodeAper_isSome_iff codecs alloc timestampNs
    sfn slot shmName fhBufferIndex fhWriteIndex nofPorts).mpr htakes)
  have hparse := codecs.parse_dump _ _ hj
  have hdecode := aperDecode_of_encode ha
  simp only [EncodersAgree,hj,ha,hparse,hdecode,Option.some.injEq]
  constructor
  · rintro ⟨j,i,rfl,rfl,h⟩
    exact h
  · exact fun h => ⟨_,_,rfl,rfl,h⟩

theorem encodersAgree_of_refused (hutf : ¬ Utf8 shmName) (htakes : ¬ aperTakes alloc shmName) :
    EncodersAgree codecs alloc timestampNs sfn slot shmName fhBufferIndex fhWriteIndex nofPorts := by
  rw [← encodeJson_isSome_iff codecs timestampNs sfn slot shmName fhBufferIndex fhWriteIndex nofPorts,
    Option.not_isSome_iff_eq_none] at hutf
  rw [← encodeAper_isSome_iff codecs alloc timestampNs sfn slot shmName fhBufferIndex fhWriteIndex
    nofPorts,Option.not_isSome_iff_eq_none] at htakes
  simp only [EncodersAgree,hutf,htakes]

variable (codecs alloc timestampNs sfn slot shmName fhBufferIndex fhWriteIndex nofPorts)

/-- The encoders agree exactly if both take the name, the antenna count could be
allocated and the time stamp is below `2^63`, or if both refuse the name. -/
theorem encoders_agree_iff (hports : 1 ≤ nofPorts.toNat) :
    EncodersAgree codecs alloc timestampNs sfn slot shmName fhBufferIndex fhWriteIndex nofPorts ↔
      (Utf8 shmName ∧ aperTakes alloc shmName ∧ alloc.nRxAnt = true ∧ timestampNs.toNat < 2 ^ 63) ∨
      (¬ Utf8 shmName ∧ ¬ aperTakes alloc shmName) := by
  have hrec := records_eq_iff alloc timestampNs sfn slot shmName fhBufferIndex fhWriteIndex nofPorts
    hports
  constructor
  · intro h
    by_cases hutf : Utf8 shmName
    · have htakes := h.takes_iff.mp hutf
      exact .inl ⟨hutf,htakes,hrec.mp ((encodersAgree_of_takes hutf htakes).mp h)⟩
    · exact .inr ⟨hutf,fun htakes => hutf (h.takes_iff.mpr htakes)⟩
  · rintro (⟨hutf,htakes,hsame⟩ | ⟨hutf,htakes⟩)
    · exact (encodersAgree_of_takes hutf htakes).mpr (hrec.mpr hsame)
    · exact encodersAgree_of_refused hutf htakes

end Agreement

theorem encoders_agree_iff_default :
    EncodersAgree taggedCodecs ⟨true,true⟩ 1000000000 0 8 (str "/e3_ran_buffers") 0 0 4 := by
  refine (encoders_agree_iff taggedCodecs ⟨true,true⟩ 1000000000 0 8 (str "/e3_ran_buffers") 0 0 4
    (by decide)).mpr (.inl ⟨⟨_,rfl⟩,⟨rfl,by decide,by decide⟩,rfl,by decide⟩)

/-- A name of 64 bytes is encoded by JSON alone, and a time stamp of `2^63` reads as a
negative number in APER. -/
theorem long_name_and_late_stamp_differ :
    ¬ EncodersAgree taggedCodecs ⟨true,true⟩ 1000000000 0 8 (List.replicate 64 97) 0 0 4 ∧
      ¬ EncodersAgree taggedCodecs ⟨true,true⟩ 0x8000000000000000 0 8 (str "/e3_ran_buffers") 0 0 4 := by
  constructor
  · intro h
    exact absurd (h.takes_iff.mp (by decide)).2.2 (by decide)
  · rw [encodersAgree_of_takes ⟨_,rfl⟩ ⟨rfl,by decide,by decide⟩]
    decide

end L1Kpm
end E3Controller
