import E3Controller.EcpriFrames

/-!
# The sampling period of the eCPRI codelet

With a sampling period the codelet outputs one packet out of so many that pass its
filters. Skipped packets leave no trace but the counter: what is sent with a period is
what would be sent without, thinned out.
-/

namespace Decimation

variable {α : Type*}

/-- Every `p`-th element, `c` elements into the current group. -/
def decimate (p : ℕ) : ℕ → List α → List α
  | _, [] => []
  | c, a :: as => if c + 1 < p then decimate p (c + 1) as else a :: decimate p 0 as

theorem getElem?_decimate {p c : ℕ} (hc : c < p) (l : List α) (i : ℕ) :
    (decimate p c l)[i]? = l[i * p + (p - 1 - c)]? := by
  induction l generalizing c i with
  | nil => simp [decimate]
  | cons a l ih =>
    rw [decimate]
    by_cases hlt : c + 1 < p
    · rw [if_pos hlt,ih hlt,show i * p + (p - 1 - c) = i * p + (p - 1 - (c + 1)) + 1 by omega,
        List.getElem?_cons_succ]
    · have hlast : p - 1 - c = 0 := by omega
      rw [if_neg hlt,hlast,Nat.add_zero]
      cases i with
      | zero => simp
      | succ i =>
        have hidx : (i + 1) * p = i * p + (p - 1 - 0) + 1 := by
          rw [Nat.succ_mul]
          omega
        rw [List.getElem?_cons_succ,ih (by omega),hidx,List.getElem?_cons_succ]

end Decimation

namespace E3Controller
namespace Ecpri

open MemoryReads Prog Decimation SlotApi

def unsampled (maps : Maps) : Maps := { maps with samplingPeriod := 0, symbolCounter := 0 }

def Fire.accepted (x : Fire) : Fire := { x with answers := { x.answers with outputOk := true } }

/-- The samples that a sequence of packets offers to the output channel, whether or not it
takes them. -/
def offeredBy : Maps → List Fire → List IqSampleData
  | _, [] => []
  | maps, x :: xs => (fire maps x.accepted).2.sent.toList ++ offeredBy (fire maps x).1 xs

/-- A fire without and with the sampling period of `maps`. -/
inductive Sampled (maps : Maps) : Maps × FireResult → Maps × FireResult → Prop
  | silent {maps' : Maps} {r : FireResult} (none : r.sent = none)
      (scratch : maps'.outputTmp = maps.outputTmp)
      (period : maps'.samplingPeriod = maps.samplingPeriod)
      (counter : maps'.symbolCounter = maps.symbolCounter) : Sampled maps (unsampled maps',r) (maps',r)
  | skipped {maps' : Maps} {r : FireResult} {s : IqSampleData} (sent : r.sent = some s)
      (scratch : maps'.outputTmp = clearedSample)
      (period : maps'.samplingPeriod = maps.samplingPeriod)
      (early : maps.symbolCounter + 1 < maps.samplingPeriod)
      (counter : maps'.symbolCounter = maps.symbolCounter + 1) :
      Sampled maps (unsampled maps',r) (maps',{})
  | output {maps' : Maps} {r : FireResult} {s : IqSampleData} (sent : r.sent = some s)
      (scratch : maps'.outputTmp = clearedSample)
      (period : maps'.samplingPeriod = maps.samplingPeriod)
      (due : ¬ maps.symbolCounter + 1 < maps.samplingPeriod)
      (counter : maps'.symbolCounter = 0) : Sampled maps (unsampled maps',r) (maps',r)

theorem rel_ite {α γ : Type} {R : α → γ → Prop} {c : Prop} [Decidable c] {x x' : α} {y y' : γ}
    (h : c → R x y) (h' : ¬ c → R x' y') : R (if c then x else x') (if c then y else y') := by
  split
  next hc => exact h hc
  next hc => exact h' hc

section Accepted

variable {maps : Maps} {mem : ℕ → UInt8} {ctx : OfhCtx} {a : Answers}

/-- A fire and the same fire with room in the channel: only the sending differs. -/
def SameButSent (ok : Bool) (r r' : Maps × FireResult) : Prop :=
  r.1 = r'.1 ∧ r.2.sent = if ok then r'.2.sent else none

theorem sameButSent_drop {ok : Bool} {r : FireResult} (h : r.sent = none) :
    SameButSent ok (maps,r) (maps,r) :=
  ⟨rfl,by simp [h]⟩

theorem sectionPacket_accepted (appHdr : ℕ) (w : UInt16) :
    SameButSent a.outputOk (value mem (sectionPacket maps ctx a appHdr w))
      (value mem (sectionPacket maps ctx { a with outputOk := true } appHdr w)) := by
  have hfilter : receiveFilter maps { a with outputOk := true } = receiveFilter maps a := rfl
  simp only [sectionPacket,value_ite,value_bind,value_pure,hfilter]
  refine rel_ite (fun _ => sameButSent_drop rfl) fun _ => ?_
  refine rel_ite (fun _ => sameButSent_drop rfl) fun _ => ?_
  refine rel_ite (fun _ => sameButSent_drop rfl) fun _ => ?_
  rcases hsampling : sampling (receiveFilter maps a) with ⟨due,maps'⟩
  cases due with
  | false => exact sameButSent_drop rfl
  | true =>
    simp only [outputSample,value_bind,value_ite,value_pure,if_true]
    cases a.outputOk <;> exact ⟨rfl,rfl⟩

theorem ecpriPacket_accepted (etherType : UInt16) (p : ℕ) :
    SameButSent a.outputOk (value mem (ecpriPacket maps ctx a etherType p))
      (value mem (ecpriPacket maps ctx { a with outputOk := true } etherType p)) := by
  simp only [ecpriPacket,value_ite,value_bind,value_pure]
  refine rel_ite (fun _ => sameButSent_drop rfl) fun _ => ?_
  refine rel_ite (fun _ => sameButSent_drop rfl) fun _ => ?_
  refine rel_ite (fun _ => sameButSent_drop rfl) fun _ => ?_
  refine rel_ite (fun _ => sameButSent_drop rfl) fun _ => ?_
  refine rel_ite (fun _ => sameButSent_drop rfl) fun _ => ?_
  refine rel_ite (fun _ => sameButSent_drop rfl) fun _ => ?_
  exact sectionPacket_accepted _ _

theorem jbpfMain_accepted :
    SameButSent a.outputOk (value mem (jbpfMain maps ctx a))
      (value mem (jbpfMain maps ctx { a with outputOk := true })) := by
  simp only [jbpfMain,value_ite,value_bind,value_pure]
  refine rel_ite (fun _ => sameButSent_drop rfl) fun _ => rel_ite (fun _ => ?_) fun _ => ?_
  · refine rel_ite (fun _ => sameButSent_drop rfl) fun _ => ?_
    exact ecpriPacket_accepted _ _
  · exact ecpriPacket_accepted _ _

theorem fire_accepted (maps : Maps) (x : Fire) :
    SameButSent x.answers.outputOk (fire maps x) (fire maps x.accepted) :=
  jbpfMain_accepted

end Accepted

section Step

variable {maps : Maps} {mem : ℕ → UInt8} {ctx : OfhCtx} {a : Answers}

theorem sampled_drop {r : FireResult} (h : r.sent = none) : Sampled maps (unsampled maps,r) (maps,r) :=
  .silent h rfl rfl rfl

theorem receiveFilter_unsampled (maps : Maps) (a : Answers) :
    receiveFilter (unsampled maps) a = unsampled (receiveFilter maps a) := by
  unfold receiveFilter
  split <;> rfl

theorem receiveFilter_symbolCounter (maps : Maps) (a : Answers) :
    (receiveFilter maps a).symbolCounter = maps.symbolCounter := by
  unfold receiveFilter
  split <;> rfl

theorem outputSample_value (mem : ℕ → UInt8) (ctx : OfhCtx) (maps maps' : Maps) (appHdr dscHdr : ℕ) (w : UInt16) (x : UInt32)
    (h : maps.outputTmp = maps'.outputTmp) (hout : a.outputOk = true) :
    ∃ s, value mem (outputSample maps ctx a appHdr dscHdr w x) =
        ({ maps with outputTmp := clearedSample },{ sent := some s }) ∧
      value mem (outputSample maps' ctx a appHdr dscHdr w x) =
        ({ maps' with outputTmp := clearedSample },{ sent := some s }) := by
  simp only [outputSample,value_bind,value_pure,hout,if_true,h]
  exact ⟨_,rfl,rfl⟩

theorem sampling_early (hp : maps.samplingPeriod > 0)
    (h : maps.symbolCounter + 1 < maps.samplingPeriod) :
    sampling maps = (false,{ maps with symbolCounter := maps.symbolCounter + 1 }) := by
  rw [sampling,if_pos hp]
  exact if_pos h

theorem sampling_due (hp : maps.samplingPeriod > 0)
    (h : ¬ maps.symbolCounter + 1 < maps.samplingPeriod) :
    sampling maps = (true,{ maps with symbolCounter := 0 }) := by
  rw [sampling,if_pos hp]
  exact if_neg h

theorem sectionPacket_sampled (hp : maps.samplingPeriod > 0) (hscratch : maps.outputTmp = clearedSample)
    (hout : a.outputOk = true) (appHdr : ℕ) (w : UInt16) :
    Sampled maps (value mem (sectionPacket (unsampled maps) ctx a appHdr w))
      (value mem (sectionPacket maps ctx a appHdr w)) := by
  have hperiod := receiveFilter_samplingPeriod maps a
  have hcounter := receiveFilter_symbolCounter maps a
  have hscratch' : (receiveFilter maps a).outputTmp = clearedSample :=
    (receiveFilter_outputTmp maps a).trans hscratch
  simp only [sectionPacket,value_ite,value_bind,value_pure,receiveFilter_unsampled]
  refine rel_ite (fun _ => sampled_drop rfl) fun _ => rel_ite (fun _ => sampled_drop rfl) fun _ => ?_
  refine rel_ite (fun _ => .silent rfl (hscratch'.trans hscratch.symm) hperiod hcounter) fun _ => ?_
  have hoff : sampling (unsampled (receiveFilter maps a)) = (true,unsampled (receiveFilter maps a)) :=
    sampling_off rfl
  rw [hoff]
  have hlt := Decidable.em (maps.symbolCounter + 1 < maps.samplingPeriod)
  rw [← hperiod,← hcounter] at hlt
  have hscratch₀ : (unsampled (receiveFilter maps a)).outputTmp = (receiveFilter maps a).outputTmp := rfl
  rcases hlt with hearly | hdue
  · obtain ⟨s,hs,-⟩ := outputSample_value mem ctx _ _ appHdr
      (appHdr + radioAppHdrSize + dataSectionHdrSize) w
      (value mem (ntohl (appHdr + radioAppHdrSize))) hscratch₀ hout
    rw [sampling_early (hperiod ▸ hp) hearly,hs]
    have hkept : ({ unsampled (receiveFilter maps a) with outputTmp := clearedSample } : Maps) =
        unsampled { receiveFilter maps a with
          symbolCounter := (receiveFilter maps a).symbolCounter + 1 } := by
      simp only [unsampled,hscratch']
    rw [hkept]
    exact .skipped rfl hscratch' hperiod (by rwa [hperiod,hcounter] at hearly)
      (congrArg (· + 1) hcounter)
  · obtain ⟨s,hs,hs'⟩ := outputSample_value mem ctx (unsampled (receiveFilter maps a))
      { receiveFilter maps a with symbolCounter := 0 } appHdr
      (appHdr + radioAppHdrSize + dataSectionHdrSize) w
      (value mem (ntohl (appHdr + radioAppHdrSize))) rfl hout
    rw [sampling_due (hperiod ▸ hp) hdue,hs]
    have hdue' : ¬ maps.symbolCounter + 1 < maps.samplingPeriod := by rwa [hperiod,hcounter] at hdue
    rw [hs']
    exact @Sampled.output maps
      { receiveFilter maps a with symbolCounter := 0, outputTmp := clearedSample } _ s rfl rfl hperiod
      hdue' rfl

theorem ecpriPacket_sampled (hp : maps.samplingPeriod > 0) (hscratch : maps.outputTmp = clearedSample)
    (hout : a.outputOk = true) (etherType : UInt16) (p : ℕ) :
    Sampled maps (value mem (ecpriPacket (unsampled maps) ctx a etherType p))
      (value mem (ecpriPacket maps ctx a etherType p)) := by
  simp only [ecpriPacket,value_ite,value_bind,value_pure]
  refine rel_ite (fun _ => sampled_drop rfl) fun _ => rel_ite (fun _ => sampled_drop rfl) fun _ => ?_
  refine rel_ite (fun _ => sampled_drop rfl) fun _ => rel_ite (fun _ => sampled_drop rfl) fun _ => ?_
  refine rel_ite (fun _ => sampled_drop rfl) fun _ => rel_ite (fun _ => sampled_drop rfl) fun _ => ?_
  exact sectionPacket_sampled hp hscratch hout _ _

theorem fire_sampled (hp : maps.samplingPeriod > 0) (hscratch : maps.outputTmp = clearedSample)
    (x : Fire) (hout : x.answers.outputOk = true) :
    Sampled maps (fire (unsampled maps) x) (fire maps x) := by
  simp only [fire,jbpfMain,value_ite,value_bind,value_pure]
  refine rel_ite (fun _ => sampled_drop rfl) fun _ => rel_ite (fun _ => ?_) fun _ => ?_
  · refine rel_ite (fun _ => sampled_drop rfl) fun _ => ?_
    exact ecpriPacket_sampled hp hscratch hout _ _
  · exact ecpriPacket_sampled hp hscratch hout _ _

end Step

/-- Between two packets the counter is below the period and the scratch element is clear. -/
structure Counting (maps : Maps) : Prop where
  period : maps.samplingPeriod > 0
  counter : maps.symbolCounter < maps.samplingPeriod
  scratch : maps.outputTmp = clearedSample

theorem counter_succ_toNat {c p : UInt32} (h : c < p) : (c + 1).toNat = c.toNat + 1 := by
  have hlt := UInt32.lt_iff_toNat_lt.mp h
  have hp := p.toNat_lt
  rw [UInt32.toNat_add,UInt32.toNat_one,Nat.mod_eq_of_lt (by omega)]

/-- From any point of a group on, the offers are every so-many-th offer of the codelet without
sampling. -/
theorem offeredBy_decimate {maps : Maps} (h : Counting maps) (xs : List Fire) :
    offeredBy maps xs = decimate maps.samplingPeriod.toNat maps.symbolCounter.toNat
      (offeredBy (unsampled maps) xs) := by
  induction xs generalizing maps with
  | nil => rfl
  | cons x xs ih =>
    have hsampled := fire_sampled h.period h.scratch x.accepted rfl
    rw [offeredBy,offeredBy,(fire_accepted maps x).1,(fire_accepted (unsampled maps) x).1]
    generalize fire maps x.accepted = r at hsampled ⊢
    generalize fire (unsampled maps) x.accepted = r₀ at hsampled ⊢
    have hcounter := counter_succ_toNat h.counter
    cases hsampled with
    | @silent maps' r hnone hscratch hperiod hcount =>
      have hnext : Counting maps' :=
        ⟨hperiod ▸ h.period,by rw [hperiod,hcount]; exact h.counter,hscratch.trans h.scratch⟩
      rw [ih hnext,hperiod,hcount,hnone]
      rfl
    | @skipped maps' r s hsent hscratch hperiod hearly hcount =>
      have hnext : Counting maps' :=
        ⟨hperiod ▸ h.period,by rw [hperiod,hcount]; exact hearly,hscratch⟩
      have hlt := UInt32.lt_iff_toNat_lt.mp hearly
      rw [hcounter] at hlt
      rw [ih hnext,hperiod,hcount,hsent,hcounter]
      simp only [Option.toList_none,Option.toList_some,List.nil_append,List.singleton_append,decimate,
        if_pos hlt]
    | @output maps' r s hsent hscratch hperiod hdue hcount =>
      have hnext : Counting maps' :=
        ⟨hperiod ▸ h.period,by rw [hperiod,hcount]; exact h.period,hscratch⟩
      have hge : ¬ maps.symbolCounter.toNat + 1 < maps.samplingPeriod.toNat := by
        rw [← hcounter]
        exact fun hlt => hdue (UInt32.lt_iff_toNat_lt.mpr hlt)
      rw [ih hnext,hperiod,hcount,hsent]
      simp only [Option.toList_some,List.singleton_append,decimate,if_neg hge,UInt32.toNat_zero]

def sampledMaps (p : UInt32) : Maps := { loadedMaps with samplingPeriod := p }

/-- With sampling period `p` the codelet offers, of the samples it would offer without one,
exactly every `p`-th, for any sequence of packets, filter messages and full channels. A full
channel costs the whole sample and changes nothing else. -/
theorem sampled_every_period (p : UInt32) (hp : p > 0) (xs : List Fire) :
    (∀ i, (offeredBy (sampledMaps p) xs)[i]? = (offeredBy loadedMaps xs)[(i + 1) * p.toNat - 1]?) ∧
    ∀ (maps : Maps) (x : Fire), (fire maps x).1 = (fire maps x.accepted).1 ∧
      (fire maps x).2.sent = if x.answers.outputOk then (fire maps x.accepted).2.sent else none := by
  refine ⟨fun i => ?_,fire_accepted⟩
  have hpos : 0 < p.toNat := UInt32.lt_iff_toNat_lt.mp hp
  have hkept : offeredBy (sampledMaps p) xs = decimate p.toNat 0 (offeredBy loadedMaps xs) :=
    offeredBy_decimate (⟨hp,hp,rfl⟩ : Counting (sampledMaps p)) xs
  have hindex : i * p.toNat + (p.toNat - 1 - 0) = (i + 1) * p.toNat - 1 := by
    rw [Nat.succ_mul]
    omega
  rw [hkept,getElem?_decimate hpos,hindex]

def oneByteFire : Fire := (lastSymbolFrame none [1] (by decide)).fire none

theorem oneByteFire_offered {maps : Maps} (h : Clean maps)
    (hfilter : maps.prbFilter.expectedNumPrbu = 0) :
    ∃ s, (fire maps oneByteFire.accepted).2.sent = some s := by
  rcases fire_frame h (Frame.in_fire (lastSymbolFrame none [1] (by decide)) none) (by decide) rfl with
    ⟨-,-,s,hs,-⟩ | ⟨hdrop,-⟩
  · exact ⟨s,hs⟩
  · exact absurd ⟨by decide,.inl hfilter⟩ hdrop

theorem sampled_every_period_two : ∃ s,
    (offeredBy (sampledMaps 2) [oneByteFire,oneByteFire])[0]? = some s := by
  obtain ⟨s₁,hs₁⟩ := oneByteFire_offered clean_loadedMaps rfl
  have hmaps : MapsAfter loadedMaps oneByteFire.answers (fire loadedMaps oneByteFire).1 :=
    jbpfMain_maps oneByteFire.ctx oneByteFire.answers
  have hfilter : (fire loadedMaps oneByteFire).1.prbFilter.expectedNumPrbu = 0 := by
    rcases hmaps.prbFilter with h | h <;> rw [h] <;> rfl
  obtain ⟨s₂,hs₂⟩ := oneByteFire_offered (hmaps.clean clean_loadedMaps) hfilter
  refine ⟨s₂,?_⟩
  rw [(sampled_every_period 2 (by decide) [oneByteFire,oneByteFire]).1 0]
  simp [offeredBy,hs₁,hs₂]

end Ecpri
end E3Controller
