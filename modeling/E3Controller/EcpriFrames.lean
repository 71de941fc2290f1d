import E3Controller.EcpriCodelet

/-!
# Frames and the samples made of them

An Ethernet frame built from the values of its header fields, and what the eCPRI codelet
makes of it in any state that a run of arbitrary packets can leave behind.
-/

namespace E3Controller
namespace Ecpri

open MemoryReads Prog BitString SlotApi LabelledRun

def word (v : UInt16) : List UInt8 := toBytes (bits 16 v.toNat)

structure Frame where
  addresses : List UInt8
  length_addresses : addresses.length = 12
  vlanTci : Option UInt16
  ecpriFirst : UInt8
  paylSize : UInt16
  xtcId : UInt16
  seqId : UInt16
  dataFeature : UInt8
  frameId : UInt8
  subframeId : BitVec 4
  slotId : BitVec 6
  symbolId : BitVec 6
  sectionId : BitVec 12
  rb : BitVec 1
  symInc : BitVec 1
  startPrbu : BitVec 10
  numPrbu : BitVec 8
  iqWidth : BitVec 4
  compMethod : BitVec 4
  rsrvd : UInt8
  payload : List UInt8
  payload_ne_nil : payload ≠ []

namespace Frame

variable (f : Frame)

def vlanTag : List UInt8 :=
  match f.vlanTci with
  | none => []
  | some tci => word ethP8021Q ++ word tci

def ecpriHdr : List UInt8 :=
  [f.ecpriFirst,ecpriIqData] ++ (word f.paylSize ++ (word f.xtcId ++ word f.seqId))

def sfSlotSymBits : List Bool :=
  bits 4 f.subframeId.toNat ++ (bits 6 f.slotId.toNat ++ bits 6 f.symbolId.toNat)

def appHdr : List UInt8 := [f.dataFeature,f.frameId] ++ toBytes f.sfSlotSymBits

def secBits : List Bool :=
  bits 12 f.sectionId.toNat ++ (bits 1 f.rb.toNat ++ (bits 1 f.symInc.toNat ++
    (bits 10 f.startPrbu.toNat ++ bits 8 f.numPrbu.toNat)))

def udCompBits : List Bool := bits 4 f.iqWidth.toNat ++ bits 4 f.compMethod.toNat

def ecpriBytes : List UInt8 :=
  f.ecpriHdr ++ (f.appHdr ++ (toBytes f.secBits ++ (toBytes f.udCompBits ++ ([f.rsrvd] ++ f.payload))))

def bytes : List UInt8 := f.addresses ++ (f.vlanTag ++ (word ecpriEthType ++ f.ecpriBytes))

/-- Zero in the header stands for the carrier of 273 PRBs. -/
def numPrbs : ℕ := if f.numPrbu = 0 then 273 else f.numPrbu.toNat

def InTarget : Prop := f.subframeId.toNat * 2 + f.slotId.toNat = 19 ∧ f.symbolId.toNat = 13

def PassesFilter (cfg : PrbFilterConfig) : Prop :=
  cfg.expectedNumPrbu = 0 ∨ cfg.expectedNumPrbu.toNat = f.numPrbs

instance : Decidable f.InTarget := inferInstanceAs (Decidable (_ ∧ _))

instance (cfg : PrbFilterConfig) : Decidable (f.PassesFilter cfg) :=
  inferInstanceAs (Decidable (_ ∨ _))

def In (mem : ℕ → UInt8) (ctx : OfhCtx) : Prop :=
  Holds mem ctx.data f.bytes ∧ ctx.dataEnd = ctx.data + f.bytes.length

structure Carried (ctx : OfhCtx) (s : IqSampleData) : Prop where
  gnbTsNs : s.gnbTsNs = ctx.metaData
  timestamp : s.timestamp.toNat < 2 ^ 31
  direction : s.direction = ctx.direction
  frameId : s.frameId = f.frameId
  subframeId : s.subframeId.toNat = f.subframeId.toNat
  slotId : s.slotId.toNat = f.slotId.toNat
  symbolId : s.symbolId.toNat = f.symbolId.toNat
  sectionId : s.sectionId.toNat = f.sectionId.toNat
  startPrbu : s.startPrbu.toNat = f.startPrbu.toNat
  numPrbu : s.numPrbu.toNat = f.numPrbs
  compMethod : s.compMethod.toNat = f.compMethod.toNat
  iqWidth : s.iqWidth.toNat = f.iqWidth.toNat
  payloadSize : s.payloadSize.toNat = min f.payload.length maxIqPayloadBytes
  iqPayload : s.iqPayload = f.payload.take maxIqPayloadBytes ++
    List.replicate (maxIqPayloadBytes - f.payload.length) 0

end Frame

section Words

variable {mem : ℕ → UInt8} {p : ℕ} {bs : List Bool}

theorem ntohs_toNat (mem : ℕ → UInt8) (p : ℕ) :
    (value mem (ntohs p)).toNat = number (ofBytes [mem p,mem (p + 1)]) := by
  have h₀ := (mem p).toNat_lt
  simp only [ntohs,value_bind,value_cell,value_pure]
  rw [UInt16.toNat_or,UInt16.toNat_shiftLeft,UInt8.toNat_toUInt16,UInt8.toNat_toUInt16,
    Nat.mod_eq_of_lt (by rw [Nat.shiftLeft_eq]; change _ * 2 ^ 8 < 2 ^ 16; omega),
    ← shiftLeft_or_ofBytes,number_ofBytes_singleton]
  rfl

theorem ntohl_toNat (mem : ℕ → UInt8) (p : ℕ) :
    (value mem (ntohl p)).toNat = number (ofBytes [mem p,mem (p + 1),mem (p + 2),mem (p + 3)]) := by
  simp only [ntohl,value_bind,value_cell,value_pure]
  rw [UInt32.toNat_or,UInt32.toNat_or,UInt32.toNat_or,shiftLeft_toUInt32 _ (by decide),
    shiftLeft_toUInt32 _ (by decide),shiftLeft_toUInt32 _ (by decide),UInt8.toNat_toUInt32,
    Nat.or_assoc,Nat.or_assoc,← shiftLeft_or_ofBytes,← shiftLeft_or_ofBytes,← shiftLeft_or_ofBytes,
    number_ofBytes_singleton]
  rfl

theorem ntohs_held (hlen : bs.length = 16) (h : Holds mem p (toBytes bs)) :
    (value mem (ntohs p)).toNat = number bs := by
  obtain ⟨x,y,hbytes⟩ := List.length_eq_two.mp ((length_toBytes bs).trans (by omega))
  have hbs := ofBytes_toBytes (n := 2) hlen
  rw [hbytes] at h hbs
  rw [ntohs_toNat,h.1,h.2.1,hbs]

theorem ntohl_held (hlen : bs.length = 32) (h : Holds mem p (toBytes bs)) :
    (value mem (ntohl p)).toNat = number bs := by
  obtain ⟨x,y,z,w,hbytes⟩ := List.length_eq_four.mp ((length_toBytes bs).trans (by omega))
  have hbs := ofBytes_toBytes (n := 4) hlen
  rw [hbytes] at h hbs
  rw [ntohl_toNat,h.1,h.2.1,h.2.2.1,h.2.2.2.1,hbs]

theorem cell_held (hlen : bs.length = 8) (h : Holds mem p (toBytes bs)) : (mem p).toNat = number bs := by
  obtain ⟨x,hbytes⟩ := List.length_eq_one_iff.mp ((length_toBytes bs).trans (by omega))
  have hbs := ofBytes_toBytes (n := 1) hlen
  rw [hbytes] at h hbs
  rw [h.1,← hbs,number_ofBytes_singleton]

theorem ntohs_word {v : UInt16} (h : Holds mem p (word v)) : value mem (ntohs p) = v := by
  rw [← UInt16.toNat_inj,ntohs_held (length_bits 16 _) h,number_bits v.toNat_lt]

theorem length_word (v : UInt16) : (word v).length = 2 := by rw [word,length_toBytes,length_bits]

end Words

section Fields

variable (f : Frame)

theorem Frame.sfSlotSym_number : number f.sfSlotSymBits =
    f.subframeId.toNat * 2 ^ 12 + f.slotId.toNat * 2 ^ 6 + f.symbolId.toNat := by
  simp only [Frame.sfSlotSymBits,number_append,List.length_append,length_bits,
    number_bits f.subframeId.isLt,number_bits f.slotId.isLt,number_bits f.symbolId.isLt]
  ring

theorem Frame.secBits_number : number f.secBits =
    f.sectionId.toNat * 2 ^ 20 + f.rb.toNat * 2 ^ 19 + f.symInc.toNat * 2 ^ 18 +
      f.startPrbu.toNat * 2 ^ 8 + f.numPrbu.toNat := by
  simp only [Frame.secBits,number_append,List.length_append,length_bits,number_bits f.sectionId.isLt,
    number_bits f.rb.isLt,number_bits f.symInc.isLt,number_bits f.startPrbu.isLt,
    number_bits f.numPrbu.isLt]
  ring

theorem Frame.udComp_number :
    number f.udCompBits = f.iqWidth.toNat * 2 ^ 4 + f.compMethod.toNat := by
  simp only [Frame.udCompBits,number_append,length_bits,number_bits f.iqWidth.isLt,
    number_bits f.compMethod.isLt]

theorem Frame.length_sfSlotSymBits : f.sfSlotSymBits.length = 16 := by
  simp only [Frame.sfSlotSymBits,List.length_append,length_bits]

theorem Frame.length_secBits : f.secBits.length = 32 := by
  simp only [Frame.secBits,List.length_append,length_bits]

theorem Frame.length_udCompBits : f.udCompBits.length = 8 := by
  simp only [Frame.udCompBits,List.length_append,length_bits]

theorem field16 (x : UInt16) {k m : UInt16} {w : ℕ} (hk : k.toNat < 16) (hm : m.toNat = 2 ^ w - 1) :
    ((x >>> k) &&& m).toNat = x.toNat / 2 ^ k.toNat % 2 ^ w := by
  rw [UInt16.toNat_and,UInt16.toNat_shiftRight,hm,Nat.and_two_pow_sub_one_eq_mod,
    Nat.shiftRight_eq_div_pow,Nat.mod_eq_of_lt hk]

theorem field32 (x : UInt32) {k m : UInt32} {w : ℕ} (hk : k.toNat < 32) (hm : m.toNat = 2 ^ w - 1)
    (hw : w ≤ 16) : ((x >>> k) &&& m).toUInt16.toNat = x.toNat / 2 ^ k.toNat % 2 ^ w := by
  have hpow : (2 : ℕ) ^ w ≤ 2 ^ 16 := Nat.pow_le_pow_right (by omega) hw
  have hlt : x.toNat / 2 ^ k.toNat % 2 ^ w < 2 ^ w := Nat.mod_lt _ (Nat.two_pow_pos w)
  rw [UInt32.toNat_toUInt16,UInt32.toNat_and,UInt32.toNat_shiftRight,hm,
    Nat.and_two_pow_sub_one_eq_mod,Nat.shiftRight_eq_div_pow,Nat.mod_eq_of_lt hk,Nat.mod_eq_of_lt]
  omega

theorem Frame.sfSlotSym_fields {w : UInt16} (h : w.toNat = number f.sfSlotSymBits) :
    ((w >>> 12) &&& 0xf).toNat = f.subframeId.toNat ∧ ((w >>> 6) &&& 0x3f).toNat = f.slotId.toNat ∧
      (w &&& 0x3f).toNat = f.symbolId.toNat := by
  have hslot := f.slotId.isLt
  have hsubframe := f.subframeId.isLt
  have hsymbol := f.symbolId.isLt
  rw [f.sfSlotSym_number] at h
  refine ⟨?_,?_,?_⟩
  · rw [field16 w (w := 4) (by decide) (by decide),h,show (12 : UInt16).toNat = 12 from rfl]
    omega
  · rw [field16 w (w := 6) (by decide) (by decide),h,show (6 : UInt16).toNat = 6 from rfl]
    omega
  · rw [UInt16.toNat_and,show (0x3f : UInt16).toNat = 2 ^ 6 - 1 from rfl,
      Nat.and_two_pow_sub_one_eq_mod,h]
    omega

theorem Frame.secBits_fields {x : UInt32} (h : x.toNat = number f.secBits) :
    ((x >>> 20) &&& 0xfff).toUInt16.toNat = f.sectionId.toNat ∧
      ((x >>> 8) &&& 0x3ff).toUInt16.toNat = f.startPrbu.toNat ∧
      (numPrbuOf x).toNat = f.numPrbs := by
  have hsection := f.sectionId.isLt
  have hstart := f.startPrbu.isLt
  have hnum := f.numPrbu.isLt
  have hrb := f.rb.isLt
  have hinc := f.symInc.isLt
  rw [f.secBits_number] at h
  refine ⟨?_,?_,?_⟩
  · rw [field32 x (w := 12) (by decide) (by decide) (by decide),h,show (20 : UInt32).toNat = 20 from rfl]
    omega
  · rw [field32 x (w := 10) (by decide) (by decide) (by decide),h,show (8 : UInt32).toNat = 8 from rfl]
    omega
  · have hlow : (x &&& 0xff).toUInt16.toNat = f.numPrbu.toNat := by
      rw [UInt32.toNat_toUInt16,UInt32.toNat_and,show (0xff : UInt32).toNat = 2 ^ 8 - 1 from rfl,
        Nat.and_two_pow_sub_one_eq_mod,h]
      omega
    have hzero : (x &&& 0xff).toUInt16 = 0 ↔ f.numPrbu = 0 := by
      rw [← UInt16.toNat_inj,hlow,← BitVec.toNat_inj]
      rfl
    by_cases hz : f.numPrbu = 0
    · rw [numPrbuOf,if_pos (hzero.mpr hz),Frame.numPrbs,if_pos hz]
      rfl
    · rw [numPrbuOf,if_neg fun hc => hz (hzero.mp hc),Frame.numPrbs,if_neg hz,hlow]

theorem Frame.udComp_fields {b : UInt8} (h : b.toNat = number f.udCompBits) :
    (b &&& 0x0f).toNat = f.compMethod.toNat ∧ (b >>> 4).toNat = f.iqWidth.toNat := by
  have hwidth := f.iqWidth.isLt
  have hmethod := f.compMethod.isLt
  rw [f.udComp_number] at h
  constructor
  · rw [UInt8.toNat_and,show (0x0f : UInt8).toNat = 2 ^ 4 - 1 from rfl,
      Nat.and_two_pow_sub_one_eq_mod,h]
    omega
  · rw [UInt8.toNat_shiftRight,show (4 : UInt8).toNat % 8 = 4 from rfl,Nat.shiftRight_eq_div_pow,h]
    omega

end Fields

section Parse

variable {mem : ℕ → UInt8} {f : Frame} {p : ℕ}

/-- Where the codelet finds the headers of a frame whose eCPRI header is at `p`. -/
structure Frame.Laid (f : Frame) (mem : ℕ → UInt8) (p : ℕ) : Prop where
  mesgType : mem (p + 1) = ecpriIqData
  frameId : mem (p + ecpriHdrSize + 1) = f.frameId
  sfSlotSym : (value mem (ntohs (p + ecpriHdrSize + 2))).toNat = number f.sfSlotSymBits
  secBits : (value mem (ntohl (p + ecpriHdrSize + radioAppHdrSize))).toNat = number f.secBits
  udComp : (mem (p + ecpriHdrSize + radioAppHdrSize + dataSectionHdrSize)).toNat = number f.udCompBits
  payload : Holds mem (p + ecpriHdrSize + radioAppHdrSize + dataSectionHdrSize + compressionHdrSize)
    f.payload

theorem Frame.length_ecpriHdr (f : Frame) : f.ecpriHdr.length = 8 := by
  simp only [Frame.ecpriHdr,List.length_append,length_word,List.length_cons,List.length_nil]

theorem Frame.length_ecpriBytes (f : Frame) : f.ecpriBytes.length = 18 + f.payload.length := by
  simp only [Frame.ecpriBytes,Frame.appHdr,List.length_append,f.length_ecpriHdr,length_toBytes,
    f.length_sfSlotSymBits,f.length_secBits,f.length_udCompBits,List.length_cons,List.length_nil]
  omega

theorem laid_of_holds (h : Holds mem p f.ecpriBytes) : f.Laid mem p := by
  simp only [Frame.ecpriBytes,Frame.appHdr,holds_append,List.length_append,f.length_ecpriHdr,
    length_toBytes,f.length_sfSlotSymBits,f.length_secBits,f.length_udCompBits,List.length_cons,
    List.length_nil] at h
  obtain ⟨hecpri,⟨happ,hsf⟩,hsec,hcomp,-,hpayload⟩ := h
  exact ⟨hecpri.2.1,happ.2.1,ntohs_held f.length_sfSlotSymBits hsf,ntohl_held f.length_secBits hsec,
    cell_held f.length_udCompBits hcomp,hpayload⟩

theorem entry_timestamp_lt (entryTsNs : UInt64) :
    (((entryTsNs / 1000) &&& 0x7fffffff).toUInt32.toUInt64).toNat < 2 ^ 31 := by
  rw [UInt32.toNat_toUInt64,UInt64.toNat_toUInt32,UInt64.toNat_and,
    show (0x7fffffff : UInt64).toNat = 2 ^ 31 - 1 from rfl,Nat.and_two_pow_sub_one_eq_mod]
  omega

variable {maps : Maps} {ctx : OfhCtx} (a : Answers)

def outputReturn (maps : Maps) (a : Answers) (s : IqSampleData) : Maps × FireResult :=
  ({ maps with outputTmp := clearedSample },
    if a.outputOk then { sent := some s } else { success := false })

theorem outputSample_frame (hlaid : f.Laid mem p) (hclean : maps.outputTmp = clearedSample)
    (hend : ctx.dataEnd = p + f.ecpriBytes.length) (hlen : f.payload.length < 65536)
    {w : UInt16} (hw : w.toNat = number f.sfSlotSymBits) {x : UInt32} (hx : x.toNat = number f.secBits) :
    ∃ s, f.Carried ctx s ∧ value mem (outputSample maps ctx a (p + ecpriHdrSize)
      (p + ecpriHdrSize + radioAppHdrSize + dataSectionHdrSize) w x) = outputReturn maps a s := by
  have hstart : ctx.dataEnd = p + ecpriHdrSize + radioAppHdrSize + dataSectionHdrSize +
      compressionHdrSize + f.payload.length := by
    rw [hend,f.length_ecpriBytes,← Nat.add_assoc]
    rfl
  have hsize := copySizeOf_toNat hstart
  rw [Nat.mod_eq_of_lt hlen] at hsize
  have hcopy := copyLoop_cleared mem hstart.ge hlaid.payload hsize
  obtain ⟨hsubframe,hslot,hsymbol⟩ := f.sfSlotSym_fields hw
  obtain ⟨hsection,hprb,hnum⟩ := f.secBits_fields hx
  obtain ⟨hmethod,hwidth⟩ := f.udComp_fields hlaid.udComp
  simp only [outputSample,value_bind,value_cell,value_ite,value_pure,hclean,hcopy]
  refine ⟨_,?_,(apply_ite (Prod.mk _) _ _ _).symm⟩
  exact ⟨rfl,entry_timestamp_lt _,rfl,hlaid.frameId,hsubframe,hslot,hsymbol,hsection,hprb,hnum,
    hmethod,hwidth,hsize,rfl⟩

def Frame.Handled (f : Frame) (maps : Maps) (ctx : OfhCtx) (a : Answers) (r : Maps × FireResult) :
    Prop :=
  let passes := f.InTarget ∧ f.PassesFilter (receiveFilter maps a).prbFilter
  (passes ∧ ∃ s, f.Carried ctx s ∧ r = outputReturn (receiveFilter maps a) a s) ∨
    (¬ passes ∧ r.2 = {})

theorem passesFilter_iff {cfg : PrbFilterConfig} {x : UInt32} (hx : x.toNat = number f.secBits) :
    ¬ (cfg.expectedNumPrbu > 0 ∧ numPrbuOf x ≠ cfg.expectedNumPrbu) ↔ f.PassesFilter cfg := by
  obtain ⟨-,-,hnum⟩ := f.secBits_fields hx
  rw [Frame.PassesFilter,gt_iff_lt,UInt16.pos_iff_ne_zero,not_and,not_not,← hnum,UInt16.toNat_inj,
    ← or_iff_not_imp_left,eq_comm (b := numPrbuOf x)]

theorem sampling_off (h : maps.samplingPeriod = 0) : sampling maps = (true,maps) := by
  rw [sampling,h]
  rfl

theorem receiveFilter_outputTmp (maps : Maps) (a : Answers) :
    (receiveFilter maps a).outputTmp = maps.outputTmp := by
  unfold receiveFilter
  split <;> rfl

theorem receiveFilter_samplingPeriod (maps : Maps) (a : Answers) :
    (receiveFilter maps a).samplingPeriod = maps.samplingPeriod := by
  unfold receiveFilter
  split <;> rfl

/-- What every fire finds that follows fires without sampling. -/
structure Clean (maps : Maps) : Prop where
  outputTmp : maps.outputTmp = clearedSample
  samplingPeriod : maps.samplingPeriod = 0

theorem Clean.receiveFilter (h : Clean maps) : Clean (receiveFilter maps a) :=
  ⟨(receiveFilter_outputTmp maps a).trans h.outputTmp,
    (receiveFilter_samplingPeriod maps a).trans h.samplingPeriod⟩

theorem sectionPacket_frame (hlaid : f.Laid mem p) (hclean : Clean maps)
    (hend : ctx.dataEnd = p + f.ecpriBytes.length) (hlen : f.payload.length < 65536)
    (htarget : f.InTarget) {w : UInt16} (hw : w.toNat = number f.sfSlotSymBits) :
    f.Handled maps ctx a (value mem (sectionPacket maps ctx a (p + ecpriHdrSize) w)) := by
  have hpayload := List.length_pos_iff.mpr f.payload_ne_nil
  have hlong := hend
  rw [f.length_ecpriBytes] at hlong
  have h₁ : ecpriHdrSize = 8 := rfl
  have h₂ : radioAppHdrSize = 4 := rfl
  have h₃ : dataSectionHdrSize = 4 := rfl
  have h₄ : compressionHdrSize = 2 := rfl
  simp only [sectionPacket]
  rw [if_neg (by omega),if_neg (by omega),value_bind,value_ite]
  by_cases hpass : f.PassesFilter (receiveFilter maps a).prbFilter
  · rw [if_neg ((passesFilter_iff hlaid.secBits).mpr hpass),
      sampling_off (hclean.receiveFilter a).samplingPeriod]
    refine .inl ⟨⟨htarget,hpass⟩,?_⟩
    exact outputSample_frame a hlaid (hclean.receiveFilter a).outputTmp hend hlen hw hlaid.secBits
  · rw [if_pos (not_not.mp fun hc => hpass ((passesFilter_iff hlaid.secBits).mp hc))]
    exact .inr ⟨fun h => hpass h.2,rfl⟩

theorem inTarget_iff {w : UInt16} (hw : w.toNat = number f.sfSlotSymBits) :
    ((w >>> 12) &&& (0xf : UInt16)) * slotsPerSubframe + ((w >>> 6) &&& (0x3f : UInt16)) =
      targetAbsSlot ∧ w &&& (0x3f : UInt16) = targetSymbolId ↔ f.InTarget := by
  obtain ⟨hsubframe,hslot,hsymbol⟩ := f.sfSlotSym_fields hw
  have h₁ := f.subframeId.isLt
  have h₂ := f.slotId.isLt
  rw [Frame.InTarget,← UInt16.toNat_inj,← UInt16.toNat_inj,UInt16.toNat_add,UInt16.toNat_mul,hsubframe,
    hslot,hsymbol,show slotsPerSubframe.toNat = 2 from rfl,show targetAbsSlot.toNat = 19 from rfl,
    show targetSymbolId.toNat = 13 from rfl]
  refine and_congr_left fun _ => ?_
  omega

theorem ecpriPacket_frame (hlaid : f.Laid mem p) (hclean : Clean maps)
    (hend : ctx.dataEnd = p + f.ecpriBytes.length) (hlen : f.payload.length < 65536) :
    f.Handled maps ctx a (value mem (ecpriPacket maps ctx a ecpriEthType p)) := by
  have hlong := hend
  rw [f.length_ecpriBytes] at hlong
  have h₁ : ecpriHdrSize = 8 := rfl
  have h₂ : radioAppHdrSize = 4 := rfl
  have hiff := inTarget_iff hlaid.sfSlotSym
  simp only [ecpriPacket]
  rw [if_neg (not_not.mpr rfl),if_neg (by omega),value_bind,value_cell,hlaid.mesgType,
    if_neg (not_not.mpr rfl),if_neg (by omega),value_bind,value_ite,value_ite]
  by_cases htarget : f.InTarget
  · obtain ⟨hslot,hsymbol⟩ := hiff.mpr htarget
    rw [if_neg (not_not.mpr hslot),if_neg (not_not.mpr hsymbol)]
    exact sectionPacket_frame a hlaid hclean hend hlen htarget hlaid.sfSlotSym
  · refine .inr ⟨fun h => htarget h.1,?_⟩
    split
    · rfl
    next hslot =>
      rw [if_pos fun hsymbol => htarget (hiff.mp ⟨not_not.mp hslot,hsymbol⟩)]
      rfl

theorem jbpfMain_frame (hin : f.In mem ctx) (hclean : Clean maps) (hlen : f.bytes.length < 65536) :
    f.Handled maps ctx a (value mem (jbpfMain maps ctx a)) := by
  obtain ⟨hmem,hend⟩ := hin
  have hecpri := f.length_ecpriBytes
  simp only [Frame.bytes,List.length_append,f.length_addresses,length_word] at hend hlen
  simp only [Frame.bytes,holds_append,f.length_addresses,length_word] at hmem
  obtain ⟨-,htag,htype,hbytes⟩ := hmem
  have h₁ : ethhdrSize = 14 := rfl
  have h₂ : vlanHdrSize = 4 := rfl
  simp only [jbpfMain]
  rw [if_neg (by omega),value_bind]
  cases hvlan : f.vlanTci with
  | none =>
    have htagLen : f.vlanTag = [] := by rw [Frame.vlanTag,hvlan]
    rw [htagLen,List.length_nil,Nat.add_zero] at htype hbytes
    rw [htagLen,List.length_nil] at hend
    rw [ntohs_word htype,if_neg (by decide)]
    exact ecpriPacket_frame a (laid_of_holds hbytes) hclean (by omega) (by omega)
  | some tci =>
    have htagBytes : f.vlanTag = word ethP8021Q ++ word tci := by rw [Frame.vlanTag,hvlan]
    rw [htagBytes,List.length_append,length_word,length_word] at htype hbytes hend hlen
    rw [htagBytes,holds_append] at htag
    rw [ntohs_word htag.1,if_pos rfl,if_neg (by omega),value_bind,
      ntohs_word (p := ctx.data + ethhdrSize + 2) htype]
    exact ecpriPacket_frame a (laid_of_holds hbytes) hclean (by omega) (by omega)

end Parse

section Runs

variable {mem : ℕ → UInt8} {maps : Maps} (ctx : OfhCtx) (a : Answers)

/-- What a fire can do to the maps: nothing, take the filter message, count the packet as well,
or clear the scratch element after an output. -/
inductive MapsAfter (maps : Maps) (a : Answers) : Maps → Prop
  | dropped : MapsAfter maps a maps
  | filtered : MapsAfter maps a (receiveFilter maps a)
  | skipped : MapsAfter maps a (sampling (receiveFilter maps a)).2
  | output : MapsAfter maps a { (sampling (receiveFilter maps a)).2 with outputTmp := clearedSample }

theorem outputSample_maps (maps : Maps) (appHdr dscHdr : ℕ) (w : UInt16) (x : UInt32) :
    (value mem (outputSample maps ctx a appHdr dscHdr w x)).1 =
      { maps with outputTmp := clearedSample } := by
  simp only [outputSample,value_bind,value_ite,value_pure]
  split <;> rfl

theorem sectionPacket_maps (appHdr : ℕ) (w : UInt16) :
    MapsAfter maps a (value mem (sectionPacket maps ctx a appHdr w)).1 := by
  simp only [sectionPacket,value_ite,value_bind,value_pure]
  split
  · exact .dropped
  split
  · exact .dropped
  split
  · exact .filtered
  split
  next hsampling =>
    have hskipped : MapsAfter maps a (sampling (receiveFilter maps a)).2 := .skipped
    rw [hsampling] at hskipped
    exact hskipped
  next hsampling =>
    have houtput : MapsAfter maps a
        { (sampling (receiveFilter maps a)).2 with outputTmp := clearedSample } := .output
    rw [hsampling] at houtput
    rw [outputSample_maps]
    exact houtput

theorem ecpriPacket_maps (etherType : UInt16) (p : ℕ) :
    MapsAfter maps a (value mem (ecpriPacket maps ctx a etherType p)).1 := by
  simp only [ecpriPacket,value_ite,value_bind,value_pure]
  split
  · exact .dropped
  split
  · exact .dropped
  split
  · exact .dropped
  split
  · exact .dropped
  split
  · exact .dropped
  split
  · exact .dropped
  · exact sectionPacket_maps ctx a _ _

theorem jbpfMain_maps : MapsAfter maps a (value mem (jbpfMain maps ctx a)).1 := by
  simp only [jbpfMain,value_ite,value_bind,value_pure]
  split
  · exact .dropped
  split
  · split
    · exact .dropped
    · exact ecpriPacket_maps ctx a _ _
  · exact ecpriPacket_maps ctx a _ _

variable {a} {maps' : Maps}

/-- The scratch element is clear again after every fire, however the packet ends. -/
theorem MapsAfter.clean (h : MapsAfter maps a maps') (hclean : Clean maps) : Clean maps' := by
  have hreceived := hclean.receiveFilter a
  have hsampling := sampling_off hreceived.samplingPeriod
  cases h with
  | dropped => exact hclean
  | filtered => exact hreceived
  | skipped => rwa [hsampling]
  | output => exact ⟨rfl,by rw [hsampling]; exact hreceived.samplingPeriod⟩

theorem sampling_prbFilter (maps : Maps) : (sampling maps).2.prbFilter = maps.prbFilter := by
  simp only [sampling]
  split_ifs <;> rfl

theorem MapsAfter.prbFilter (h : MapsAfter maps a maps') :
    maps'.prbFilter = maps.prbFilter ∨ maps'.prbFilter = (receiveFilter maps a).prbFilter := by
  cases h with
  | dropped => exact .inl rfl
  | filtered => exact .inr rfl
  | skipped => exact .inr (sampling_prbFilter _)
  | output => exact .inr (sampling_prbFilter _)

/-- One fire: the packet, the memory it lies in and what the environment answers. -/
structure Fire where
  ctx : OfhCtx
  mem : ℕ → UInt8
  answers : Answers

def fire (maps : Maps) (x : Fire) : Maps × FireResult := value x.mem (jbpfMain maps x.ctx x.answers)

def step (maps : Maps) (x : Fire) : Option Maps := some (fire maps x).1

theorem run_clean {maps maps' : Maps} {fires : List Fire} (hclean : Clean maps)
    (hrun : run step maps fires = some maps') : Clean maps' := by
  refine run_invariant_of_step (fun s x t hs ht => ?_) hclean hrun
  exact Option.some.inj ht ▸ (jbpfMain_maps x.ctx x.answers).clean hs

/-- A fire on a frame in a state that earlier fires left clean. -/
theorem fire_frame {maps : Maps} (hclean : Clean maps) {x : Fire} {f : Frame}
    (hin : f.In x.mem x.ctx) (hlen : f.bytes.length < 65536) (hout : x.answers.outputOk = true) :
    (f.InTarget ∧ f.PassesFilter (receiveFilter maps x.answers).prbFilter ∧
      ∃ s, (fire maps x).2.sent = some s ∧ f.Carried x.ctx s) ∨
    (¬ (f.InTarget ∧ f.PassesFilter (receiveFilter maps x.answers).prbFilter) ∧
      (fire maps x).2.sent = none) := by
  rcases jbpfMain_frame x.answers hin hclean hlen with
    ⟨⟨htarget,hpass⟩,s,hs,hreturn⟩ | ⟨hdrop,hreturn⟩
  · refine .inl ⟨htarget,hpass,s,?_,hs⟩
    rw [fire,hreturn,outputReturn,if_pos hout]
  · exact .inr ⟨hdrop,by rw [fire,hreturn]⟩

/-- After any packets, a frame gives one sample with the values of its own fields if it passes
the filters, and none if not. No packet is read behind its end. -/
theorem ecpri_round_trip {maps₀ maps : Maps} {fires : List Fire} (hclean : Clean maps₀)
    (hrun : run step maps₀ fires = some maps) (x : Fire) :
    (∀ i ∈ cells x.mem (jbpfMain maps x.ctx x.answers), i < x.ctx.dataEnd) ∧
      ∀ f : Frame, f.In x.mem x.ctx → f.bytes.length < 65536 → x.answers.outputOk = true →
        if f.InTarget ∧ f.PassesFilter (receiveFilter maps x.answers).prbFilter then
          ∃ s, (fire maps x).2.sent = some s ∧ f.Carried x.ctx s
        else (fire maps x).2.sent = none := by
  refine ⟨jbpfMain_below maps x.ctx x.answers,fun f hin hlen hout => ?_⟩
  rcases fire_frame (run_clean hclean hrun) hin hlen hout with ⟨htarget,hpass,hsent⟩ | ⟨hdrop,hnone⟩
  · rwa [if_pos ⟨htarget,hpass⟩]
  · rwa [if_neg hdrop]

end Runs

def Frame.fire (f : Frame) (prbIn : Option PrbFilterConfig) : Fire where
  ctx := { data := 0, dataEnd := f.bytes.length, metaData := 0, direction := 1 }
  mem := fun i => f.bytes.getD i 0
  answers := { entryTsNs := 0, exitTsNs := 0, prbIn := prbIn, outputOk := true }

theorem Frame.in_fire (f : Frame) (prbIn : Option PrbFilterConfig) :
    f.In (f.fire prbIn).mem (f.fire prbIn).ctx :=
  ⟨holds_getD 0 f.bytes,(Nat.zero_add _).symm⟩

def lastSymbolFrame (vlanTci : Option UInt16) (payload : List UInt8) (h : payload ≠ []) : Frame where
  addresses := List.replicate 12 0
  length_addresses := rfl
  vlanTci := vlanTci
  ecpriFirst := 0x10
  paylSize := 0
  xtcId := 0
  seqId := 0
  dataFeature := 0
  frameId := 0
  subframeId := 9
  slotId := 1
  symbolId := 13
  sectionId := 0
  rb := 0
  symInc := 0
  startPrbu := 0
  numPrbu := 106
  iqWidth := 9
  compMethod := 1
  rsrvd := 0
  payload := payload
  payload_ne_nil := h

def loadedMaps : Maps := ⟨clearedSample,0,0,⟨0⟩⟩

theorem clean_loadedMaps : Clean loadedMaps := ⟨rfl,rfl⟩

theorem ecpri_round_trip_shorter :
    let before := (lastSymbolFrame none [1,2,3] (by decide)).fire none
    let f := lastSymbolFrame (some 7) [4] (by decide)
    ∃ s, (fire (fire loadedMaps before).1 (f.fire (some ⟨106⟩))).2.sent = some s ∧
      f.Carried (f.fire (some ⟨106⟩)).ctx s := by
  intro before f
  have h := (ecpri_round_trip clean_loadedMaps (rfl : run step loadedMaps [before] = some _)
    (f.fire (some ⟨106⟩))).2 f (f.in_fire _) (by decide +kernel) rfl
  rwa [if_pos ⟨by decide,.inr (by decide)⟩] at h

end Ecpri
end E3Controller
