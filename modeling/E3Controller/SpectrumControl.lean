import Mathlib.Data.Int.Basic
import Mathlib.Data.List.Basic

/-!
# The PRB-blacklist control message

`encode_spectrum_prb_blacklist_control` and `decode_spectrum_prb_blacklist_control` translate
between the C++ struct, which has no notion of an absent field, and the struct asn1c generates,
in which two fields are optional. The bit format is asn1c's; `BlacklistCodec` states what is
relied on of it.
-/

namespace E3Controller
namespace Spectrum

structure SpectrumPRBBlacklistControl where
  blacklistedPrbs : List Int32
  samplingThreshold : Int32
  validityPeriod : Int32
  deriving DecidableEq

structure AperBlacklist where
  blacklistedPRBs : List Int64
  samplingThreshold : Option Int64
  validityPeriod : Option Int64
  deriving DecidableEq

/-- The constraints of `Spectrum-PRBBlacklistControl`. -/
structure AperBlacklist.Grammar (c : AperBlacklist) : Prop where
  length : c.blacklistedPRBs.length ≤ 273
  prbs : ∀ p ∈ c.blacklistedPRBs, 0 ≤ p.toInt ∧ p.toInt ≤ 272
  threshold : ∀ t ∈ c.samplingThreshold, 0 ≤ t.toInt ∧ t.toInt ≤ 100
  validity : ∀ t ∈ c.validityPeriod, 1 ≤ t.toInt ∧ t.toInt ≤ 3600

instance AperBlacklist.decidableGrammar (c : AperBlacklist) : Decidable c.Grammar :=
  -- Lists and options are walked: deciding over all 64-bit numbers does not evaluate.
  have := List.decidableBAll (p := fun p : Int64 => 0 ≤ p.toInt ∧ p.toInt ≤ 272) c.blacklistedPRBs
  have := Option.decidableForallMem (p := fun t : Int64 => 0 ≤ t.toInt ∧ t.toInt ≤ 100)
    c.samplingThreshold
  have := Option.decidableForallMem (p := fun t : Int64 => 1 ≤ t.toInt ∧ t.toInt ≤ 3600)
    c.validityPeriod
  decidable_of_iff (c.blacklistedPRBs.length ≤ 273 ∧
      (∀ p ∈ c.blacklistedPRBs, 0 ≤ p.toInt ∧ p.toInt ≤ 272) ∧
      (∀ t ∈ c.samplingThreshold, 0 ≤ t.toInt ∧ t.toInt ≤ 100) ∧
      ∀ t ∈ c.validityPeriod, 1 ≤ t.toInt ∧ t.toInt ≤ 3600)
    ⟨fun ⟨h₁,h₂,h₃,h₄⟩ => ⟨h₁,h₂,h₃,h₄⟩,fun ⟨h₁,h₂,h₃,h₄⟩ => ⟨h₁,h₂,h₃,h₄⟩⟩

/-- The asn1c runtime: encoding succeeds exactly within the constraints, and decoding undoes it.
What decoding makes of other bytes is left open. -/
structure BlacklistCodec (ω : Type) where
  aperEncode : AperBlacklist → Option ω
  aperDecode : ω → Option AperBlacklist
  aperEncode_isSome : ∀ c, (aperEncode c).isSome ↔ c.Grammar
  aperDecode_encode : ∀ c w, aperEncode c = some w → aperDecode w = some c

/-- Whether the allocations of the encoder succeed: those for list element `i`, and those of the
two optional fields. -/
structure BlacklistAlloc where
  prb : ℕ → Bool
  threshold : Bool
  validity : Bool

def BlacklistAlloc.Succeeds (alloc : BlacklistAlloc) (n : ℕ) : Prop :=
  (∀ i < n, alloc.prb i = true) ∧ alloc.threshold = true ∧ alloc.validity = true

variable {ω : Type} (codec : BlacklistCodec ω) (alloc : BlacklistAlloc)

def addPrbs (i : ℕ) : List Int32 → List Int64 → Option (List Int64)
  | [], list => some list
  | prb :: prbs, list =>
    if alloc.prb i then addPrbs (i + 1) prbs (list ++ [prb.toInt64]) else none

/-- `encode_spectrum_prb_blacklist_control`; `none` is the result `false`. -/
def encodeSpectrumPrbBlacklistControl (v : SpectrumPRBBlacklistControl) : Option ω :=
  match addPrbs alloc 0 v.blacklistedPrbs [] with
  | none => none
  | some list =>
    if !alloc.threshold then none
    else if !alloc.validity then none
    else codec.aperEncode {
      blacklistedPRBs := list
      samplingThreshold := some v.samplingThreshold.toInt64
      validityPeriod := some v.validityPeriod.toInt64 }

def blacklistOf (c : AperBlacklist) : SpectrumPRBBlacklistControl where
  blacklistedPrbs := c.blacklistedPRBs.map Int64.toInt32
  samplingThreshold :=
    match c.samplingThreshold with
    | some t => t.toInt32
    | none => 0
  validityPeriod :=
    match c.validityPeriod with
    | some t => t.toInt32
    | none => 0

/-- `decode_spectrum_prb_blacklist_control`; `none` is the result `false`. -/
def decodeSpectrumPrbBlacklistControl (w : ω) : Option SpectrumPRBBlacklistControl :=
  (codec.aperDecode w).map blacklistOf

section Encode

/-- The asn1c struct of a value: both optional fields are always there. -/
def aperBlacklist (v : SpectrumPRBBlacklistControl) : AperBlacklist where
  blacklistedPRBs := v.blacklistedPrbs.map Int32.toInt64
  samplingThreshold := some v.samplingThreshold.toInt64
  validityPeriod := some v.validityPeriod.toInt64

theorem blacklistOf_aperBlacklist (v : SpectrumPRBBlacklistControl) :
    blacklistOf (aperBlacklist v) = v := by
  have hprbs : (v.blacklistedPrbs.map Int32.toInt64).map Int64.toInt32 = v.blacklistedPrbs := by
    rw [List.map_map]
    exact (List.map_congr_left fun p _ => Int32.toInt32_toInt64 p).trans (List.map_id _)
  simp only [blacklistOf,aperBlacklist,hprbs,Int32.toInt32_toInt64]

variable {alloc}

theorem addPrbs_eq (i : ℕ) (prbs : List Int32) (list : List Int64) :
    addPrbs alloc i prbs list = if ∀ j < prbs.length, alloc.prb (i + j) = true then
      some (list ++ prbs.map Int32.toInt64) else none := by
  induction prbs generalizing i list with
  | nil => simp [addPrbs]
  | cons prb prbs ih =>
    have hsplit : (∀ j < (prb :: prbs).length, alloc.prb (i + j) = true) ↔
        alloc.prb i = true ∧ ∀ j < prbs.length, alloc.prb (i + 1 + j) = true := by
      constructor
      · intro h
        refine ⟨h 0 (Nat.zero_lt_succ _),fun j hj => ?_⟩
        rw [Nat.add_assoc,Nat.add_comm 1]
        exact h (j + 1) (Nat.succ_lt_succ hj)
      · rintro ⟨h₀,hrest⟩ j hj
        cases j with
        | zero => exact h₀
        | succ j =>
          rw [Nat.add_comm j,← Nat.add_assoc]
          exact hrest j (Nat.lt_of_succ_lt_succ hj)
    rw [addPrbs,ih]
    by_cases halloc : alloc.prb i = true
    · simp only [hsplit,halloc,true_and,if_true,List.append_assoc,List.map_cons,List.singleton_append]
    · rw [if_neg halloc,if_neg fun h => halloc (hsplit.mp h).1]

theorem encode_of_succeeds {v : SpectrumPRBBlacklistControl}
    (h : alloc.Succeeds v.blacklistedPrbs.length) :
    encodeSpectrumPrbBlacklistControl codec alloc v = codec.aperEncode (aperBlacklist v) := by
  obtain ⟨hprbs,hthreshold,hvalidity⟩ := h
  rw [encodeSpectrumPrbBlacklistControl,addPrbs_eq,if_pos (by simpa only [Nat.zero_add] using hprbs)]
  simp only [hthreshold,hvalidity,Bool.not_true,Bool.false_eq_true,if_false,List.nil_append]
  rfl

theorem succeeds_of_encode {v : SpectrumPRBBlacklistControl} {w : ω}
    (h : encodeSpectrumPrbBlacklistControl codec alloc v = some w) :
    alloc.Succeeds v.blacklistedPrbs.length := by
  rw [encodeSpectrumPrbBlacklistControl,addPrbs_eq] at h
  split at h
  · cases h
  next list hlist =>
    split_ifs at h with hthreshold hvalidity
    split_ifs at hlist with hprbs
    refine ⟨by simpa only [Nat.zero_add] using hprbs,?_,?_⟩
    · simpa using hthreshold
    · simpa using hvalidity

theorem decode_of_encode {v : SpectrumPRBBlacklistControl} {w : ω}
    (h : encodeSpectrumPrbBlacklistControl codec alloc v = some w) :
    decodeSpectrumPrbBlacklistControl codec w = some v := by
  rw [encode_of_succeeds codec (succeeds_of_encode codec h)] at h
  rw [decodeSpectrumPrbBlacklistControl,codec.aperDecode_encode _ _ h,Option.map_some,
    blacklistOf_aperBlacklist]

theorem encode_isSome_iff (v : SpectrumPRBBlacklistControl) :
    (∃ w, encodeSpectrumPrbBlacklistControl codec alloc v = some w) ↔
      alloc.Succeeds v.blacklistedPrbs.length ∧ (aperBlacklist v).Grammar := by
  constructor
  · rintro ⟨w,hw⟩
    have hsucceeds := succeeds_of_encode codec hw
    rw [encode_of_succeeds codec hsucceeds] at hw
    refine ⟨hsucceeds,(codec.aperEncode_isSome _).mp ?_⟩
    rw [hw]
    rfl
  · rintro ⟨hsucceeds,hgrammar⟩
    rw [encode_of_succeeds codec hsucceeds]
    exact Option.isSome_iff_exists.mp ((codec.aperEncode_isSome _).mpr hgrammar)

end Encode

section RoundTrip

/-- The bytes are accepted, and the decoded value is encoded to bytes that decode to it again. -/
def RoundTrips (w : ω) : Prop :=
  ∃ v w', decodeSpectrumPrbBlacklistControl codec w = some v ∧
    encodeSpectrumPrbBlacklistControl codec alloc v = some w' ∧
    decodeSpectrumPrbBlacklistControl codec w' = some v

/-- A message that names a validity period and keeps to the constraints, as far as `int` holds
its values. -/
structure Reencodable (c : AperBlacklist) : Prop where
  length : c.blacklistedPRBs.length ≤ 273
  prbs : ∀ p ∈ c.blacklistedPRBs, 0 ≤ p.toInt32.toInt ∧ p.toInt32.toInt ≤ 272
  threshold : ∀ t ∈ c.samplingThreshold, 0 ≤ t.toInt32.toInt ∧ t.toInt32.toInt ≤ 100
  validity : ∃ t, c.validityPeriod = some t ∧ 1 ≤ t.toInt32.toInt ∧ t.toInt32.toInt ≤ 3600

/-- The default for an absent validity period is none that the grammar knows; the default for
an absent threshold is. -/
theorem grammar_blacklistOf_iff (c : AperBlacklist) :
    (aperBlacklist (blacklistOf c)).Grammar ↔ Reencodable c := by
  have hprbs : (∀ p ∈ (aperBlacklist (blacklistOf c)).blacklistedPRBs, 0 ≤ p.toInt ∧ p.toInt ≤ 272) ↔
      ∀ p ∈ c.blacklistedPRBs, 0 ≤ p.toInt32.toInt ∧ p.toInt32.toInt ≤ 272 := by
    simp only [aperBlacklist,blacklistOf,List.map_map,List.forall_mem_map,Function.comp_apply,
      Int32.toInt_toInt64]
  have hthreshold : (∀ t ∈ (aperBlacklist (blacklistOf c)).samplingThreshold,
      0 ≤ t.toInt ∧ t.toInt ≤ 100) ↔
      ∀ t ∈ c.samplingThreshold, 0 ≤ t.toInt32.toInt ∧ t.toInt32.toInt ≤ 100 := by
    simp only [aperBlacklist,blacklistOf,Option.mem_def,Option.some.injEq,forall_eq',
      Int32.toInt_toInt64]
    cases c.samplingThreshold with
    | none => exact iff_of_true (by decide) (fun t ht => by cases ht)
    | some t => simp only [Option.some.injEq,forall_eq']
  have hvalidity : (∀ t ∈ (aperBlacklist (blacklistOf c)).validityPeriod,
      1 ≤ t.toInt ∧ t.toInt ≤ 3600) ↔
      ∃ t, c.validityPeriod = some t ∧ 1 ≤ t.toInt32.toInt ∧ t.toInt32.toInt ≤ 3600 := by
    simp only [aperBlacklist,blacklistOf,Option.mem_def,Option.some.injEq,forall_eq',
      Int32.toInt_toInt64]
    cases c.validityPeriod with
    | none =>
      refine iff_of_false (by decide) fun ⟨t,ht,_⟩ => ?_
      cases ht
    | some t => simp only [Option.some.injEq,exists_eq_left']
  have hlength : (aperBlacklist (blacklistOf c)).blacklistedPRBs.length = c.blacklistedPRBs.length := by
    simp only [aperBlacklist,blacklistOf,List.length_map]
  constructor
  · rintro ⟨hl,hp,ht,hv⟩
    exact ⟨hlength ▸ hl,hprbs.mp hp,hthreshold.mp ht,hvalidity.mp hv⟩
  · rintro ⟨hl,hp,ht,hv⟩
    exact ⟨hlength ▸ hl,hprbs.mpr hp,hthreshold.mpr ht,hvalidity.mpr hv⟩

/-- An accepted message survives the round trip exactly if it names a validity period and keeps
to the constraints; a value within the constraints always does. -/
theorem blacklist_round_trip_iff :
    (∀ w c, codec.aperDecode w = some c →
      (RoundTrips codec alloc w ↔ alloc.Succeeds c.blacklistedPRBs.length ∧ Reencodable c)) ∧
    ∀ v, (aperBlacklist v).Grammar → alloc.Succeeds v.blacklistedPrbs.length →
      ∃ w, encodeSpectrumPrbBlacklistControl codec alloc v = some w ∧
        decodeSpectrumPrbBlacklistControl codec w = some v := by
  constructor
  · intro w c hdecode
    have hv : decodeSpectrumPrbBlacklistControl codec w = some (blacklistOf c) := by
      rw [decodeSpectrumPrbBlacklistControl,hdecode,Option.map_some]
    have hlength : (blacklistOf c).blacklistedPrbs.length = c.blacklistedPRBs.length :=
      List.length_map _
    have hencode : (∃ w', encodeSpectrumPrbBlacklistControl codec alloc (blacklistOf c) = some w') ↔
        _ := encode_isSome_iff codec (blacklistOf c)
    rw [grammar_blacklistOf_iff,hlength] at hencode
    rw [← hencode]
    constructor
    · rintro ⟨v,w',hv',hw',-⟩
      rw [← Option.some.inj (hv.symm.trans hv')] at hw'
      exact ⟨w',hw'⟩
    · rintro ⟨w',hw'⟩
      exact ⟨blacklistOf c,w',hv,hw',decode_of_encode codec hw'⟩
  · intro v hgrammar hsucceeds
    obtain ⟨w,hw⟩ := (encode_isSome_iff codec v).mpr ⟨hsucceeds,hgrammar⟩
    exact ⟨w,hw,decode_of_encode codec hw⟩

end RoundTrip

def keepingBlacklistCodec : BlacklistCodec AperBlacklist where
  aperEncode c := if c.Grammar then some c else none
  aperDecode c := if c.Grammar then some c else none
  aperEncode_isSome c := by split_ifs with h <;> simp [h]
  aperDecode_encode c w h := by
    split_ifs at h with hc
    cases h
    rw [if_pos hc]

def allAllocated : BlacklistAlloc := ⟨fun _ => true,true,true⟩

def minuteMessage : AperBlacklist := ⟨[4,5],none,some 60⟩

theorem blacklist_round_trip_iff_minute :
    RoundTrips keepingBlacklistCodec allAllocated minuteMessage := by
  have hprbs : ∀ p ∈ minuteMessage.blacklistedPRBs, 0 ≤ p.toInt32.toInt ∧ p.toInt32.toInt ≤ 272 := by
    intro p hp
    rcases List.mem_pair.mp hp with rfl | rfl
    · decide
    · decide
  have hthreshold : ∀ t ∈ minuteMessage.samplingThreshold,
      0 ≤ t.toInt32.toInt ∧ t.toInt32.toInt ≤ 100 := by
    intro t ht
    cases ht
  exact ((blacklist_round_trip_iff keepingBlacklistCodec allAllocated).1 minuteMessage minuteMessage
    (by decide)).mpr ⟨⟨fun _ _ => rfl,rfl,rfl⟩,by decide,hprbs,hthreshold,60,rfl,by decide,by decide⟩

/-- The same PRBs without a validity period: accepted, and not encoded again. -/
def untimedMessage : AperBlacklist := ⟨[4,5],none,none⟩

theorem untimed_message_not_reencoded :
    decodeSpectrumPrbBlacklistControl keepingBlacklistCodec untimedMessage = some ⟨[4,5],0,0⟩ ∧
      encodeSpectrumPrbBlacklistControl keepingBlacklistCodec allAllocated ⟨[4,5],0,0⟩ = none ∧
      ¬ RoundTrips keepingBlacklistCodec allAllocated untimedMessage := by
  have hdecode : decodeSpectrumPrbBlacklistControl keepingBlacklistCodec untimedMessage =
      some ⟨[4,5],0,0⟩ := by decide
  have hencode : encodeSpectrumPrbBlacklistControl keepingBlacklistCodec allAllocated ⟨[4,5],0,0⟩ =
      none := by decide
  refine ⟨hdecode,hencode,?_⟩
  rintro ⟨v,w',hv,hw',-⟩
  rw [← Option.some.inj (hdecode.symm.trans hv),hencode] at hw'
  cases hw'

end Spectrum
end E3Controller
