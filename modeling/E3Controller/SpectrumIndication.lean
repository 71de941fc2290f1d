import Mathlib.Order.Bounds.Defs
import E3Controller.Layer1
import E3Controller.SectionPipeline

/-!
# The IQ indication of the Spectrum service model

`E3SMSpectrum::on_sample` pads a decompressed section with zeros to the next power of two, with
the first half of the subcarriers at the end of the buffer and the second half at its start, and
sends the buffer as an octet string. The bit format is asn1c's; `IqCodec` states what is relied
on of it.
-/

namespace E3Controller
namespace Spectrum

open CString Config SectionPath Layer1

structure SpectrumIQIndication where
  iqData : List UInt8 := []
  sampleCount : UInt32 := 0
  timestamp : UInt32 := 0
  deriving DecidableEq

/-- `Spectrum_IQDataIndication_t`, with `long` members as integers. -/
structure AperIqIndication where
  iqSamples : List UInt8
  sampleCount : ℤ
  timestamp : Option ℤ
  deriving DecidableEq

/-- The constraints of `Spectrum-IQDataIndication`. -/
structure AperIqIndication.Grammar (i : AperIqIndication) : Prop where
  iqSamples : 1 ≤ i.iqSamples.length ∧ i.iqSamples.length ≤ 16384
  sampleCount : 0 ≤ i.sampleCount ∧ i.sampleCount ≤ 32768
  timestamp : ∀ t ∈ i.timestamp, 0 ≤ t ∧ t ≤ 2147483647

instance AperIqIndication.decidableGrammar (i : AperIqIndication) : Decidable i.Grammar :=
  decidable_of_iff ((1 ≤ i.iqSamples.length ∧ i.iqSamples.length ≤ 16384) ∧
      (0 ≤ i.sampleCount ∧ i.sampleCount ≤ 32768) ∧ ∀ t ∈ i.timestamp, 0 ≤ t ∧ t ≤ 2147483647)
    ⟨fun ⟨h₁,h₂,h₃⟩ => ⟨h₁,h₂,h₃⟩,fun ⟨h₁,h₂,h₃⟩ => ⟨h₁,h₂,h₃⟩⟩

/-- The asn1c runtime: encoding fails outside of the constraints. -/
structure IqCodec (ω : Type) where
  aperEncode : AperIqIndication → Option ω
  aperEncode_isSome : ∀ i, (aperEncode i).isSome ↔ i.Grammar

structure IqAlloc where
  iqSamples : Bool
  timestamp : Bool

/-- The struct that `encode_spectrum_iq_indication` fills. -/
def aperIqIndication (i : SpectrumIQIndication) : AperIqIndication where
  iqSamples := i.iqData
  sampleCount := i.sampleCount.toNat
  timestamp := some i.timestamp.toNat

/-- `none` is the result `false`. -/
def encodeSpectrumIqIndication {ω : Type} (codec : IqCodec ω) (alloc : IqAlloc)
    (i : SpectrumIQIndication) : Option ω :=
  if alloc.iqSamples && alloc.timestamp then codec.aperEncode (aperIqIndication i) else none

/-- `while (fft_size < ofdm_sym_size) fft_size <<= 1`, for at most `fuel` rounds. -/
def fftLoop (ofdmSymSize : UInt32) : ℕ → UInt32 → UInt32
  | 0, fftSize => fftSize
  | fuel + 1, fftSize =>
    if fftSize < ofdmSymSize then fftLoop ofdmSymSize fuel (fftSize <<< 1) else fftSize

def fftSizeOf (ofdmSymSize : UInt32) : UInt32 := fftLoop ofdmSymSize 31 1

structure Copy where
  dst : ℕ
  src : ℕ
  len : ℕ
  deriving DecidableEq

/-- `none` if the copy leaves one of the buffers. -/
def memcpy (from_ : List Int16) (to_ : List Int16) (c : Copy) : Option (List Int16) :=
  if c.dst + c.len ≤ to_.length ∧ c.src + c.len ≤ from_.length then
    some (to_.take c.dst ++ ((from_.drop c.src).take c.len ++ to_.drop (c.dst + c.len)))
  else none

/-- The two copies: the upper half of the spectrum goes to the high indices, the lower half to
the low ones. -/
def padCopies (fftSize halfSc : UInt32) : List Copy :=
  let firstCarrierOffset := fftSize - halfSc
  [⟨firstCarrierOffset.toNat * 2,0,halfSc.toNat * 2⟩,⟨0,halfSc.toNat * 2,halfSc.toNat * 2⟩]

def zeroPad (iq : List Int16) (fftSize halfSc : UInt32) : Option (List Int16) :=
  (padCopies fftSize halfSc).foldlM (memcpy iq) (List.replicate (fftSize.toNat * 2) 0)

def leBytes (v : Int16) : List UInt8 := [v.toUInt16.toUInt8,(v.toUInt16 >>> 8).toUInt8]

def paddedIndication (padded : List Int16) (fftSize : UInt32) (timestamp : UInt64) :
    SpectrumIQIndication where
  iqData := padded.flatMap leBytes
  sampleCount := fftSize
  timestamp := timestamp.toUInt32

/-- The value that goes over the air about a padded buffer of `fft` samples: every field is what the
grammar calls it. -/
def iqDataIndication (padded : List Int16) (fft : ℕ) (timestamp : UInt64) : AperIqIndication where
  iqSamples := padded.flatMap leBytes
  sampleCount := fft
  timestamp := some (timestamp.toNat % 2 ^ 32 : ℕ)

structure StatsRow where
  sampleSeq : UInt64
  gnbToCodeletUs : UInt64
  codeletToDispatchUs : UInt64
  dispatchToHandlerUs : UInt64
  decompressNs : UInt64
  encodeNs : UInt64
  emitNs : UInt64
  fftSize : UInt32
  payloadBytes : UInt16

structure Answers where
  subscribers : Subscribers
  alloc : IqAlloc
  emitOk : UInt32 → Bool
  handlerEntryNs : UInt64
  encodeNs : UInt64
  emitNs : UInt64

/-- The fields of `E3SMSpectrum`; `encoding` is the agent's. -/
structure E3SMSpectrum where
  encoding : EncodingFormat
  statsLogPath : Str := []
  running : Bool := false
  paddedBuf : List Int16 := []
  indication : SpectrumIQIndication := {}
  samplePublishSeq : UInt64 := 0

structure Outcome (ω : Type) where
  emitted : List (Emission ω) := []
  stats : Option StatsRow := none

def ranFunctionId : UInt32 := 1

def satUs (lhs rhs : UInt64) : UInt64 := if lhs > rhs then (lhs - rhs) / 1000 else 0

variable {ω : Type} (codec : IqCodec ω)

namespace E3SMSpectrum

def sendIndication (l : E3SMSpectrum) (s : DecompressedSample) (a : Answers) (fftSize : UInt32) :
    E3SMSpectrum × Outcome ω :=
  match encodeSpectrumIqIndication codec a.alloc l.indication with
  | none => (l,{})
  | some payload =>
    let emitted := a.subscribers.ids.map fun dapp =>
      ⟨dapp,ranFunctionId,payload,a.emitOk dapp⟩
    let l := { l with samplePublishSeq := l.samplePublishSeq + 1 }
    if l.statsLogPath.isEmpty then (l,{ emitted := emitted })
    else
      (l,{
        emitted := emitted
        stats := some {
          sampleSeq := l.samplePublishSeq
          gnbToCodeletUs := satUs s.codeletTsNs s.gnbTsNs
          codeletToDispatchUs := satUs s.dispatchTsNs s.codeletTsNs
          dispatchToHandlerUs := satUs a.handlerEntryNs s.dispatchTsNs
          decompressNs := s.decompressNs
          encodeNs := a.encodeNs
          emitNs := a.emitNs
          fftSize := fftSize
          payloadBytes := s.raw.payloadSize } })

/-- `on_sample`; `none` if a copy leaves its buffer. The pipeline sets both pointers of every
sample. -/
def onSample (l : E3SMSpectrum) (s : DecompressedSample) (a : Answers) :
    Option (E3SMSpectrum × Outcome ω) :=
  if !l.running then some (l,{})
  else if a.subscribers.ids.isEmpty then some (l,{})
  else if l.encoding ≠ .asn1 then some (l,{})
  else
    let ofdmSymSize := s.raw.numPrbu.toUInt32 * 12
    if ofdmSymSize = 0 then some (l,{})
    else
      let fftSize := fftSizeOf ofdmSymSize
      let halfSc := ofdmSymSize / 2
      if s.decompressedSize < ofdmSymSize.toNat * 2 then some (l,{})
      else
        (zeroPad s.decompressedIq fftSize halfSc).map fun padded =>
          let indication := paddedIndication padded fftSize s.raw.timestamp
          sendIndication codec { l with paddedBuf := padded, indication := indication } s a fftSize

end E3SMSpectrum

section Padding

def LeastPower (m n : ℕ) : Prop := IsLeast {p | (∃ k, p = 2 ^ k) ∧ m ≤ p} n

/-- The loop ends with the least power of two, and within the rounds it is given. -/
theorem fftLoop_least {m : UInt32} (hm : m.toNat ≤ 2 ^ 31) (fuel : ℕ) {k : ℕ} {fftSize : UInt32}
    (hfft : fftSize.toNat = 2 ^ k) (hbelow : ∀ j < k, 2 ^ j < m.toNat) (hfuel : 31 ≤ k + fuel) :
    LeastPower m.toNat (fftLoop m fuel fftSize).toNat := by
  have hexit : ∀ {fft : UInt32} {i : ℕ}, fft.toNat = 2 ^ i → (∀ j < i, 2 ^ j < m.toNat) →
      m.toNat ≤ 2 ^ i → LeastPower m.toNat fft.toNat := by
    intro fft i hi hsmall hle
    refine ⟨⟨⟨i,hi⟩,hi ▸ hle⟩,?_⟩
    rintro p ⟨⟨j,rfl⟩,hj⟩
    by_contra hlt
    rw [hi] at hlt
    have hij : j < i := (Nat.pow_lt_pow_iff_right (by omega)).mp (Nat.not_le.mp hlt)
    exact absurd (hsmall j hij) (Nat.not_lt.mpr hj)
  induction fuel generalizing k fftSize with
  | zero =>
    have hpow : 2 ^ 31 ≤ 2 ^ k := Nat.pow_le_pow_right (by omega) (by omega)
    exact hexit hfft hbelow (by omega)
  | succ fuel ih =>
    rw [fftLoop]
    by_cases hlt : fftSize < m
    · have hlt' := UInt32.lt_iff_toNat_lt.mp hlt
      rw [if_pos hlt]
      refine ih (k := k + 1) ?_ ?_ (by omega)
      · rw [UInt32.toNat_shiftLeft,show (1 : UInt32).toNat % 32 = 1 from rfl,Nat.shiftLeft_eq,hfft,
          ← Nat.pow_succ,Nat.mod_eq_of_lt]
        rw [Nat.pow_succ]
        omega
      · intro j hj
        rcases Nat.lt_succ_iff_lt_or_eq.mp hj with hj | rfl
        · exact hbelow j hj
        · omega
    · rw [if_neg hlt]
      refine hexit hfft hbelow ?_
      rw [← hfft]
      exact Nat.not_lt.mp fun h => hlt (UInt32.lt_iff_toNat_lt.mpr h)

theorem fftSizeOf_least {m : UInt32} (hm : m.toNat ≤ 2 ^ 31) :
    LeastPower m.toNat (fftSizeOf m).toNat :=
  fftLoop_least hm 31 (k := 0) rfl (fun j hj => absurd hj (Nat.not_lt_zero j)) (by omega)

variable {iq : List Int16} {fftSize halfSc : UInt32}

theorem firstCarrierOffset_toNat (hhalf : halfSc.toNat * 2 ≤ fftSize.toNat) :
    (fftSize - halfSc).toNat = fftSize.toNat - halfSc.toNat :=
  UInt32.toNat_sub_of_le _ _ (UInt32.le_iff_toNat_le.mpr (by omega))

/-- Copies that stay inside of both buffers and write to different places. -/
structure CopiesApart (copies : List Copy) (dstLen srcLen : ℕ) : Prop where
  inside : ∀ c ∈ copies, c.dst + c.len ≤ dstLen ∧ c.src + c.len ≤ srcLen
  apart : copies.Pairwise fun c c' => c.dst + c.len ≤ c'.dst ∨ c'.dst + c'.len ≤ c.dst

theorem padCopies_apart (hhalf : halfSc.toNat * 2 ≤ fftSize.toNat) :
    CopiesApart (padCopies fftSize halfSc) (2 * fftSize.toNat) (4 * halfSc.toNat) := by
  constructor
  all_goals
    simp only [padCopies,firstCarrierOffset_toNat hhalf,List.forall_mem_cons,List.pairwise_cons,
      List.not_mem_nil,false_implies,implies_true,List.Pairwise.nil,and_true]
    omega

/-- The padded buffer: second half of the section, zeros, first half. -/
theorem zeroPad_eq (hiq : iq.length = halfSc.toNat * 4) (hhalf : halfSc.toNat * 2 ≤ fftSize.toNat) :
    zeroPad iq fftSize halfSc = some (iq.drop (halfSc.toNat * 2) ++
      (List.replicate (fftSize.toNat * 2 - halfSc.toNat * 4) 0 ++ iq.take (halfSc.toNat * 2))) := by
  have hfirst := firstCarrierOffset_toNat hhalf
  have hhigh : memcpy iq (List.replicate (fftSize.toNat * 2) 0)
      ⟨(fftSize - halfSc).toNat * 2,0,halfSc.toNat * 2⟩ = some (List.replicate
        (fftSize.toNat * 2 - halfSc.toNat * 2) 0 ++ iq.take (halfSc.toNat * 2)) := by
    have hcount : min ((fftSize.toNat - halfSc.toNat) * 2) (fftSize.toNat * 2) =
        fftSize.toNat * 2 - halfSc.toNat * 2 := by omega
    have hrest : fftSize.toNat * 2 - ((fftSize.toNat - halfSc.toNat) * 2 + halfSc.toNat * 2) = 0 := by
      omega
    rw [memcpy,if_pos (by simp only [List.length_replicate]; omega)]
    simp only [List.take_replicate,List.drop_replicate,List.drop_zero,hfirst,hcount,hrest,
      List.replicate_zero,List.append_nil]
  have hlow : memcpy iq (List.replicate (fftSize.toNat * 2 - halfSc.toNat * 2) 0 ++
      iq.take (halfSc.toNat * 2)) ⟨0,halfSc.toNat * 2,halfSc.toNat * 2⟩ =
      some (iq.drop (halfSc.toNat * 2) ++ (List.replicate
        (fftSize.toNat * 2 - halfSc.toNat * 4) 0 ++ iq.take (halfSc.toNat * 2))) := by
    rw [memcpy,if_pos (by simp only [List.length_append,List.length_replicate,List.length_take]; omega)]
    have hall : (iq.drop (halfSc.toNat * 2)).take (halfSc.toNat * 2) = iq.drop (halfSc.toNat * 2) :=
      List.take_of_length_le (by rw [List.length_drop]; omega)
    simp only [List.take_zero,List.nil_append,Nat.zero_add,hall]
    rw [List.drop_append_of_le_length (by rw [List.length_replicate]; omega),List.drop_replicate,
      Nat.sub_sub,show halfSc.toNat * 2 + halfSc.toNat * 2 = halfSc.toNat * 4 by omega]
  simp only [zeroPad,padCopies,List.foldlM_cons,List.foldlM_nil,hhigh,hlow,Option.bind_eq_bind,
    Option.bind_some,Option.pure_def]

def complexAt (buf : List Int16) (k : ℕ) : Option (Int16 × Int16) :=
  buf[2 * k]?.bind fun i => buf[2 * k + 1]?.map fun q => (i,q)

theorem complexAt_congr {buf buf' : List Int16} {k k' : ℕ} (h₀ : buf[2 * k]? = buf'[2 * k']?)
    (h₁ : buf[2 * k + 1]? = buf'[2 * k' + 1]?) : complexAt buf k = complexAt buf' k' := by
  rw [complexAt,complexAt,h₀,h₁]

def unpad (n : ℕ) (buf : List Int16) : List Int16 := buf.drop (buf.length - 12 * n) ++ buf.take (12 * n)

/-- A section of `12 * n` subcarriers in a buffer of `fft` samples. -/
structure Padded (n : ℕ) (iq buf : List Int16) (fft : ℕ) : Prop where
  least : LeastPower (12 * n) fft
  length : buf.length = 2 * fft
  upper : ∀ k < 6 * n, complexAt buf (fft - 6 * n + k) = complexAt iq k
  lower : ∀ k < 6 * n, complexAt buf k = complexAt iq (6 * n + k)
  zero : ∀ k, 6 * n ≤ k → k < fft - 6 * n → complexAt buf k = some (0,0)
  recovered : unpad n buf = iq

def padHalves (n fft : ℕ) (iq : List Int16) : List Int16 :=
  iq.drop (12 * n) ++ (List.replicate (fft * 2 - 24 * n) 0 ++ iq.take (12 * n))

section Halves

variable {n fft : ℕ} (hiq : iq.length = 24 * n) (hfft : 12 * n ≤ fft)

include hiq in
theorem length_secondHalf : (iq.drop (12 * n)).length = 12 * n := by
  rw [List.length_drop]
  omega

include hiq hfft in
theorem length_padHalves : (padHalves n fft iq).length = 2 * fft := by
  rw [padHalves,List.length_append,List.length_append,List.length_replicate,length_secondHalf hiq,
    List.length_take]
  omega

include hiq in
theorem padHalves_low {i : ℕ} (hi : i < 12 * n) : (padHalves n fft iq)[i]? = iq[12 * n + i]? := by
  have hdrop := length_secondHalf hiq
  rw [padHalves,List.getElem?_append_left (by omega),List.getElem?_drop]

include hiq in
theorem padHalves_mid {i : ℕ} (hi : 12 * n ≤ i) (hi' : i < fft * 2 - 12 * n) :
    (padHalves n fft iq)[i]? = some 0 := by
  have hdrop := length_secondHalf hiq
  rw [padHalves,List.getElem?_append_right (by omega),List.getElem?_append_left
    (by rw [List.length_replicate]; omega),List.getElem?_replicate,if_pos (by omega)]

include hiq hfft in
theorem padHalves_high {i : ℕ} (hi : i < 12 * n) :
    (padHalves n fft iq)[fft * 2 - 12 * n + i]? = iq[i]? := by
  have hdrop := length_secondHalf hiq
  rw [padHalves,List.getElem?_append_right (by omega),List.getElem?_append_right
    (by rw [List.length_replicate]; omega),List.length_replicate,hdrop,
    show fft * 2 - 12 * n + i - 12 * n - (fft * 2 - 24 * n) = i by omega,List.getElem?_take_of_lt hi]

include hiq hfft in
theorem unpad_padHalves : unpad n (padHalves n fft iq) = iq := by
  have hdrop := length_secondHalf hiq
  have hfront : (iq.drop (12 * n) ++ List.replicate (fft * 2 - 24 * n) 0).length = 2 * fft - 12 * n := by
    rw [List.length_append,List.length_replicate,hdrop]
    omega
  rw [unpad,length_padHalves hiq hfft,padHalves,← List.append_assoc,List.drop_left' hfront,
    List.append_assoc,List.take_left' hdrop,List.take_append_drop]

end Halves

theorem padded_of_halves {n fft : ℕ} (hiq : iq.length = 24 * n) (hleast : LeastPower (12 * n) fft) :
    Padded n iq (padHalves n fft iq) fft := by
  have hfft : 12 * n ≤ fft := hleast.1.2
  refine ⟨hleast,length_padHalves hiq hfft,fun k hk => ?_,fun k hk => ?_,fun k hk hk' => ?_,
    unpad_padHalves hiq hfft⟩
  · have h₀ := padHalves_high hiq hfft (i := 2 * k) (by omega)
    have h₁ := padHalves_high hiq hfft (i := 2 * k + 1) (by omega)
    rw [show fft * 2 - 12 * n + 2 * k = 2 * (fft - 6 * n + k) by omega] at h₀
    rw [show fft * 2 - 12 * n + (2 * k + 1) = 2 * (fft - 6 * n + k) + 1 by omega] at h₁
    exact complexAt_congr h₀ h₁
  · have h₀ : (padHalves n fft iq)[2 * k]? = _ := padHalves_low hiq (by omega)
    have h₁ : (padHalves n fft iq)[2 * k + 1]? = _ := padHalves_low hiq (by omega)
    rw [show 12 * n + 2 * k = 2 * (6 * n + k) by omega] at h₀
    rw [show 12 * n + (2 * k + 1) = 2 * (6 * n + k) + 1 by omega] at h₁
    exact complexAt_congr h₀ h₁
  · rw [complexAt,padHalves_mid hiq (i := 2 * k) (by omega) (by omega),
      padHalves_mid hiq (i := 2 * k + 1) (by omega) (by omega)]
    rfl

end Padding

section Indication

variable {codec} {l : E3SMSpectrum} {s : DecompressedSample} {a : Answers}

theorem ofdmSymSize_toNat (n : UInt16) : (n.toUInt32 * 12).toNat = 12 * n.toNat := by
  have hn := n.toNat_lt
  rw [UInt32.toNat_mul,UInt16.toNat_toUInt32,show (12 : UInt32).toNat = 12 from rfl,Nat.mod_eq_of_lt (by omega),
    Nat.mul_comm]

theorem halfSc_toNat (n : UInt16) : (n.toUInt32 * 12 / 2).toNat = 6 * n.toNat := by
  rw [UInt32.toNat_div,ofdmSymSize_toNat,show (2 : UInt32).toNat = 2 from rfl]
  omega

theorem length_leBytes (v : Int16) : (leBytes v).length = 2 := rfl

/-- The struct that is encoded holds the buffer's bytes, its size and the sample's time stamp. -/
theorem aperIqIndication_padded (padded : List Int16) (fftSize : UInt32) (timestamp : UInt64) :
    aperIqIndication (paddedIndication padded fftSize timestamp) =
      iqDataIndication padded fftSize.toNat timestamp := by
  rw [aperIqIndication,paddedIndication,iqDataIndication,UInt64.toNat_toUInt32]

/-- Up to 273 PRBs and with the time stamps of the codelet, the indication is one of the
grammar. -/
theorem iqDataIndication_grammar {n fft : ℕ} {iq padded : List Int16} {timestamp : UInt64}
    (hpad : Padded n iq padded fft) (hn : 1 ≤ n) (hmax : n ≤ 273)
    (htime : timestamp.toNat < 2 ^ 31) : (iqDataIndication padded fft timestamp).Grammar := by
  have hle : fft ≤ 2 ^ 12 := hpad.least.2 ⟨⟨12,rfl⟩,by omega⟩
  have hge : 12 * n ≤ fft := hpad.least.1.2
  have hlen : (padded.flatMap leBytes).length = 2 * (2 * fft) := by
    rw [BitString.length_fields length_leBytes,hpad.length]
  refine ⟨?_,?_,fun t ht => ?_⟩
  · simp only [iqDataIndication,hlen]
    omega
  · simp only [iqDataIndication]
    omega
  · obtain rfl : ((timestamp.toNat % 2 ^ 32 : ℕ) : ℤ) = t := Option.some.inj ht
    omega

/-- The buffer and the indication stay; every payload is the encoding of the indication, and what
is within the grammar and could be allocated goes to every subscriber. -/
theorem sendIndication_spec (codec : IqCodec ω) (l : E3SMSpectrum) (s : DecompressedSample)
    (a : Answers) (fftSize : UInt32) :
    ∃ l' out, l.sendIndication codec s a fftSize = (l',out) ∧ l'.paddedBuf = l.paddedBuf ∧
      l'.indication = l.indication ∧
      (∀ e ∈ out.emitted, codec.aperEncode (aperIqIndication l.indication) = some e.payload) ∧
      ((aperIqIndication l.indication).Grammar → a.alloc = ⟨true,true⟩ →
        out.emitted.map Emission.dapp = a.subscribers.ids) := by
  cases hencode : encodeSpectrumIqIndication codec a.alloc l.indication with
  | none =>
    refine ⟨l,{},by simp only [E3SMSpectrum.sendIndication,hencode],rfl,rfl,nofun,
      fun hgrammar halloc => ?_⟩
    have hsome := (codec.aperEncode_isSome (aperIqIndication l.indication)).mpr hgrammar
    rw [encodeSpectrumIqIndication,halloc] at hencode
    rw [show codec.aperEncode (aperIqIndication l.indication) = none from hencode] at hsome
    exact absurd hsome Bool.false_ne_true
  | some payload =>
    have hcodec : codec.aperEncode (aperIqIndication l.indication) = some payload := by
      rw [encodeSpectrumIqIndication] at hencode
      split at hencode
      · exact hencode
      · cases hencode
    have hdapps : (a.subscribers.ids.map fun dapp =>
        (⟨dapp,ranFunctionId,payload,a.emitOk dapp⟩ : Emission ω)).map Emission.dapp =
        a.subscribers.ids := List.map_map.trans (List.map_id _)
    have hpayload : ∀ e ∈ a.subscribers.ids.map fun dapp =>
        (⟨dapp,ranFunctionId,payload,a.emitOk dapp⟩ : Emission ω),
        codec.aperEncode (aperIqIndication l.indication) = some e.payload := by
      intro e he
      obtain ⟨dapp,-,rfl⟩ := List.mem_map.mp he
      exact hcodec
    simp only [E3SMSpectrum.sendIndication,hencode]
    split
    · exact ⟨_,_,rfl,rfl,rfl,hpayload,fun _ _ => hdapps⟩
    · exact ⟨_,_,rfl,rfl,rfl,hpayload,fun _ _ => hdapps⟩

theorem onSample_section {padded : List Int16} (hrunning : l.running = true)
    (hsubs : a.subscribers.ids ≠ []) (hencoding : l.encoding = .asn1) (hn : 1 ≤ s.raw.numPrbu.toNat)
    (hsize : 24 * s.raw.numPrbu.toNat ≤ s.decompressedSize)
    (hpad : zeroPad s.decompressedIq (fftSizeOf (s.raw.numPrbu.toUInt32 * 12))
      (s.raw.numPrbu.toUInt32 * 12 / 2) = some padded) :
    l.onSample codec s a = some (E3SMSpectrum.sendIndication codec { l with
        paddedBuf := padded
        indication := paddedIndication padded (fftSizeOf (s.raw.numPrbu.toUInt32 * 12)) s.raw.timestamp }
      s a (fftSizeOf (s.raw.numPrbu.toUInt32 * 12))) := by
  have hofdm := ofdmSymSize_toNat s.raw.numPrbu
  have hne : s.raw.numPrbu.toUInt32 * 12 ≠ 0 := by
    intro h0
    rw [h0,UInt32.toNat_zero] at hofdm
    omega
  have hsome : ¬ a.subscribers.ids.isEmpty = true := by
    rw [List.isEmpty_iff]
    exact hsubs
  rw [E3SMSpectrum.onSample,hrunning,if_neg (by decide),if_neg hsome,if_neg (not_not.mpr hencoding)]
  simp only [if_neg hne,hpad,Option.map_some]
  rw [if_neg (by omega)]

/-- A section of any number of PRBs is padded without loss: both halves are where the receiver
expects them, zeros everywhere else. Every payload sent is the encoding of this buffer's bytes, its
number of samples and the sample's time stamp, and up to 273 PRBs these can be encoded. -/
theorem spectrum_padding (codec : IqCodec ω) (l : E3SMSpectrum) (s : DecompressedSample) (a : Answers)
    (hrunning : l.running = true) (hsubs : a.subscribers.ids ≠ []) (hencoding : l.encoding = .asn1)
    (hn : 1 ≤ s.raw.numPrbu.toNat) (hiq : s.decompressedIq.length = 24 * s.raw.numPrbu.toNat)
    (hsize : s.decompressedSize = s.decompressedIq.length) :
    ∃ l' out, l.onSample codec s a = some (l',out) ∧
      Padded s.raw.numPrbu.toNat s.decompressedIq l'.paddedBuf l'.indication.sampleCount.toNat ∧
      CopiesApart (padCopies l'.indication.sampleCount (s.raw.numPrbu.toUInt32 * 12 / 2))
        l'.paddedBuf.length s.decompressedIq.length ∧
      l'.indication.iqData = l'.paddedBuf.flatMap leBytes ∧
      (∀ e ∈ out.emitted, codec.aperEncode (iqDataIndication l'.paddedBuf
        l'.indication.sampleCount.toNat s.raw.timestamp) = some e.payload) ∧
      (s.raw.numPrbu.toNat ≤ 273 → s.raw.timestamp.toNat < 2 ^ 31 →
        (iqDataIndication l'.paddedBuf l'.indication.sampleCount.toNat s.raw.timestamp).Grammar ∧
          (a.alloc = ⟨true,true⟩ → out.emitted.map Emission.dapp = a.subscribers.ids)) := by
  have hlt := s.raw.numPrbu.toNat_lt
  have hofdm := ofdmSymSize_toNat s.raw.numPrbu
  have hhalf := halfSc_toNat s.raw.numPrbu
  have hleast := fftSizeOf_least (m := s.raw.numPrbu.toUInt32 * 12) (by omega)
  rw [hofdm] at hleast
  have hfft : 12 * s.raw.numPrbu.toNat ≤ (fftSizeOf (s.raw.numPrbu.toUInt32 * 12)).toNat := hleast.1.2
  obtain ⟨padded,hpad,hpadded⟩ : ∃ padded,
      zeroPad s.decompressedIq (fftSizeOf (s.raw.numPrbu.toUInt32 * 12))
        (s.raw.numPrbu.toUInt32 * 12 / 2) = some padded ∧ Padded s.raw.numPrbu.toNat s.decompressedIq
        padded (fftSizeOf (s.raw.numPrbu.toUInt32 * 12)).toNat := by
    refine ⟨_,zeroPad_eq (by omega) (by omega),?_⟩
    rw [hhalf,show 6 * s.raw.numPrbu.toNat * 2 = 12 * s.raw.numPrbu.toNat by omega,
      show 6 * s.raw.numPrbu.toNat * 4 = 24 * s.raw.numPrbu.toNat by omega]
    exact padded_of_halves hiq hleast
  obtain ⟨l',out,hsend,hbuf,hind,hpayload,hemits⟩ := sendIndication_spec codec { l with
      paddedBuf := padded
      indication := paddedIndication padded (fftSizeOf (s.raw.numPrbu.toUInt32 * 12)) s.raw.timestamp }
    s a (fftSizeOf (s.raw.numPrbu.toUInt32 * 12))
  refine ⟨l',out,?_,?_⟩
  · rw [onSample_section hrunning hsubs hencoding hn (by omega) hpad,hsend]
  · rw [hbuf,hind]
    simp only [aperIqIndication_padded] at hpayload hemits
    refine ⟨hpadded,?_,rfl,hpayload,fun hmax htime => ?_⟩
    · have hapart : CopiesApart (padCopies (fftSizeOf (s.raw.numPrbu.toUInt32 * 12))
          (s.raw.numPrbu.toUInt32 * 12 / 2)) _ _ := padCopies_apart (by omega)
      rwa [hhalf,show 4 * (6 * s.raw.numPrbu.toNat) = 24 * s.raw.numPrbu.toNat by omega,← hiq,
        ← hpadded.length] at hapart
    · have hgrammar := iqDataIndication_grammar hpadded hn hmax htime
      exact ⟨hgrammar,hemits hgrammar⟩

end Indication

def keepingIqCodec : IqCodec AperIqIndication where
  aperEncode i := if i.Grammar then some i else none
  aperEncode_isSome i := by split_ifs with h <;> simp [h]

def onePrbSample : DecompressedSample where
  raw := { numPrbu := 1, timestamp := 5 }
  decompressedIq := (List.range 24).map Int16.ofNat
  decompressedSize := 24
  recvUs := 0
  sampleId := 1
  gnbTsNs := 0
  codeletTsNs := 0
  dispatchTsNs := 0
  decompressNs := 0

def oneSubscriber : Answers where
  subscribers := ⟨[7],by decide⟩
  alloc := ⟨true,true⟩
  emitOk _ := true
  handlerEntryNs := 0
  encodeNs := 0
  emitNs := 0

theorem spectrum_padding_one_prb : ∃ l' out,
    E3SMSpectrum.onSample keepingIqCodec { encoding := .asn1, running := true } onePrbSample
      oneSubscriber = some (l',out) ∧
    Padded 1 onePrbSample.decompressedIq l'.paddedBuf l'.indication.sampleCount.toNat ∧
      out.emitted.map Emission.dapp = [7] ∧ ∀ e ∈ out.emitted, keepingIqCodec.aperEncode
        (iqDataIndication l'.paddedBuf l'.indication.sampleCount.toNat 5) = some e.payload := by
  obtain ⟨l',out,hcall,hpadded,-,-,hpayload,hgrammar⟩ := spectrum_padding keepingIqCodec
    { encoding := .asn1, running := true } onePrbSample oneSubscriber rfl (by decide) rfl (by decide)
    (by decide) (by decide)
  exact ⟨l',out,hcall,hpadded,(hgrammar (by decide) (by decide)).2 rfl,hpayload⟩

end Spectrum
end E3Controller
