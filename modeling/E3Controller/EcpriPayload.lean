import E3Controller.EcpriFrames

/-!
# The payload of an eCPRI sample

How many bytes of a packet the codelet copies, and which. The distance to the end of the
packet is a 64-bit number that is cut to 16 bits before it is bounded.
-/

namespace E3Controller
namespace Ecpri

open MemoryReads Prog SlotApi

def iqStart (mem : ℕ → UInt8) (ctx : OfhCtx) : ℕ :=
  let nextHdr := ctx.data + ethhdrSize
  let ecpriHdr := if value mem (ntohs (ctx.data + 12)) = ethP8021Q then nextHdr + vlanHdrSize else nextHdr
  ecpriHdr + ecpriHdrSize + radioAppHdrSize + dataSectionHdrSize + compressionHdrSize

section Loop

variable (mem : ℕ → UInt8)

theorem copyLoop_cells {src pktEnd : ℕ} {copySize : UInt16} (hend : src + copySize.toNat ≤ pktEnd)
    {fuel i : ℕ} (hsize : copySize.toNat ≤ i + fuel) (iqPayload : List UInt8) :
    cells mem (copyLoop src pktEnd copySize fuel i iqPayload) =
      (List.range' i (copySize.toNat - i)).map (src + ·) := by
  induction fuel generalizing i iqPayload with
  | zero =>
    rw [copyLoop,cells_pure,Nat.sub_eq_zero_of_le (by omega)]
    rfl
  | succ fuel ih =>
    rw [copyLoop]
    by_cases hi : i ≥ copySize.toNat
    · rw [if_pos hi,cells_pure,Nat.sub_eq_zero_of_le hi]
      rfl
    · have hleft : copySize.toNat - i = copySize.toNat - (i + 1) + 1 := by omega
      rw [if_neg hi,if_neg (by omega),cells_bind,cells_cell,ih (by omega),hleft,List.range'_succ]
      rfl

end Loop

section Output

variable {mem : ℕ → UInt8} {start pktEnd : ℕ} {before : List UInt8}

/-- The copy loop of a fire over the contents that the scratch element had before. -/
def payloadLoop (start pktEnd : ℕ) (before : List UInt8) : Prog UInt8 (List UInt8) :=
  copyLoop start pktEnd (copySizeOf start pktEnd) maxIqPayloadBytes 0 before

/-- The sample that a program sends carries what the copy loop made, and the loop was the last
to read, behind reads of the headers only. -/
structure Output (mem : ℕ → UInt8) (start pktEnd : ℕ) (before : List UInt8)
    (p : Prog UInt8 (Maps × FireResult)) (s : IqSampleData) : Prop where
  start_lt : start < pktEnd
  payloadSize : s.payloadSize = copySizeOf start pktEnd
  iqPayload : s.iqPayload = value mem (payloadLoop start pktEnd before)
  reads : ∃ headers, (∀ i ∈ headers, i < start) ∧
    cells mem p = headers ++ cells mem (payloadLoop start pktEnd before)

def Outputs (mem : ℕ → UInt8) (start pktEnd : ℕ) (before : List UInt8)
    (p : Prog UInt8 (Maps × FireResult)) : Prop :=
  ∀ s, (value mem p).2.sent = some s → Output mem start pktEnd before p s

theorem outputs_silent {p : Prog UInt8 (Maps × FireResult)} (h : (value mem p).2.sent = none) :
    Outputs mem start pktEnd before p := by
  intro s hs
  rw [h] at hs
  cases hs

theorem outputs_bind {α : Type} {p : Prog UInt8 α} {f : α → Prog UInt8 (Maps × FireResult)}
    (hp : Below mem start p) (hf : Outputs mem start pktEnd before (f (value mem p))) :
    Outputs mem start pktEnd before (p >>= f) := by
  intro s hs
  rw [value_bind] at hs
  obtain ⟨hlt,hsize,hpayload,headers,hheaders,hcells⟩ := hf s hs
  refine ⟨hlt,hsize,hpayload,cells mem p ++ headers,fun i hi => ?_,?_⟩
  · exact (List.mem_append.mp hi).elim (hp i) (hheaders i)
  · rw [cells_bind,hcells,List.append_assoc]

theorem outputs_ite {c : Prop} [Decidable c] {p q : Prog UInt8 (Maps × FireResult)}
    (hp : c → Outputs mem start pktEnd before p) (hq : ¬ c → Outputs mem start pktEnd before q) :
    Outputs mem start pktEnd before (if c then p else q) := by
  by_cases hc : c
  · rw [if_pos hc]
    exact hp hc
  · rw [if_neg hc]
    exact hq hc

end Output

section Fires

variable {mem : ℕ → UInt8} (maps : Maps) (ctx : OfhCtx) (a : Answers)

theorem sampling_outputTmp : (sampling maps).2.outputTmp = maps.outputTmp := by
  simp only [sampling]
  split_ifs <;> rfl

theorem outputSample_outputs {appHdr dscHdr : ℕ} (happ : appHdr + radioAppHdrSize ≤ dscHdr)
    (hdsc : dscHdr + compressionHdrSize < ctx.dataEnd) (sfSlotSym : UInt16) (secBits : UInt32) :
    Outputs mem (dscHdr + compressionHdrSize) ctx.dataEnd maps.outputTmp.iqPayload
      (outputSample maps ctx a appHdr dscHdr sfSlotSym secBits) := by
  simp only [radioAppHdrSize] at happ
  have hcomp : compressionHdrSize = 2 := rfl
  refine outputs_bind (below_cell (by omega)) (outputs_bind (below_cell (by omega)) ?_)
  intro s hs
  simp only [value_bind,value_ite,value_pure] at hs
  split at hs
  next hout =>
    obtain rfl := Option.some.inj hs
    refine ⟨hdsc,rfl,rfl,[],fun i hi => absurd hi List.not_mem_nil,?_⟩
    rw [cells_bind,if_pos hout,cells_pure,List.append_nil]
    rfl
  next => cases hs

theorem sectionPacket_outputs (appHdr : ℕ) (sfSlotSym : UInt16) :
    Outputs mem (appHdr + radioAppHdrSize + dataSectionHdrSize + compressionHdrSize) ctx.dataEnd
      maps.outputTmp.iqPayload (sectionPacket maps ctx a appHdr sfSlotSym) := by
  have hsection : dataSectionHdrSize = 4 := rfl
  refine outputs_ite (fun _ => outputs_silent rfl) fun _ => ?_
  refine outputs_ite (fun _ => outputs_silent rfl) fun hdsc => ?_
  refine outputs_bind (ntohl_below (by omega)) ?_
  refine outputs_ite (fun _ => outputs_silent rfl) fun _ => ?_
  have houtputTmp := (sampling_outputTmp (receiveFilter maps a)).trans (receiveFilter_outputTmp maps a)
  rcases hsampling : sampling (receiveFilter maps a) with ⟨_ | _,maps'⟩
  · exact outputs_silent rfl
  · rw [hsampling] at houtputTmp
    have happ : appHdr + radioAppHdrSize ≤ appHdr + radioAppHdrSize + dataSectionHdrSize := by omega
    rw [← houtputTmp]
    exact outputSample_outputs maps' ctx a happ (by omega) sfSlotSym _

theorem ecpriPacket_outputs (etherType : UInt16) (ecpriHdr : ℕ) :
    Outputs mem (ecpriHdr + ecpriHdrSize + radioAppHdrSize + dataSectionHdrSize + compressionHdrSize)
      ctx.dataEnd maps.outputTmp.iqPayload (ecpriPacket maps ctx a etherType ecpriHdr) := by
  have hecpri : ecpriHdrSize = 8 := rfl
  have happ : radioAppHdrSize = 4 := rfl
  refine outputs_ite (fun _ => outputs_silent rfl) fun _ => ?_
  refine outputs_ite (fun _ => outputs_silent rfl) fun _ => ?_
  refine outputs_bind (below_cell (by omega)) ?_
  refine outputs_ite (fun _ => outputs_silent rfl) fun _ => ?_
  refine outputs_ite (fun _ => outputs_silent rfl) fun _ => ?_
  refine outputs_bind (ntohs_below (by omega)) ?_
  refine outputs_ite (fun _ => outputs_silent rfl) fun _ => ?_
  refine outputs_ite (fun _ => outputs_silent rfl) fun _ => ?_
  exact sectionPacket_outputs maps ctx a _ _

/-- Every packet that is output has its payload copied from where its headers end. -/
theorem jbpfMain_outputs :
    Outputs mem (iqStart mem ctx) ctx.dataEnd maps.outputTmp.iqPayload (jbpfMain maps ctx a) := by
  have heth : ethhdrSize = 14 := rfl
  have hecpri : ecpriHdrSize = 8 := rfl
  refine outputs_ite (fun _ => outputs_silent rfl) fun _ => ?_
  by_cases hvlan : value mem (ntohs (ctx.data + 12)) = ethP8021Q
  · have hstart : iqStart mem ctx = ctx.data + ethhdrSize + vlanHdrSize + ecpriHdrSize +
        radioAppHdrSize + dataSectionHdrSize + compressionHdrSize := by rw [iqStart,if_pos hvlan]
    refine outputs_bind (ntohs_below (by omega)) ?_
    refine outputs_ite (fun _ => ?_) fun hc => absurd hvlan hc
    refine outputs_ite (fun _ => outputs_silent rfl) fun _ => ?_
    refine outputs_bind (ntohs_below (by omega)) ?_
    rw [hstart]
    exact ecpriPacket_outputs maps ctx a _ _
  · have hstart : iqStart mem ctx = ctx.data + ethhdrSize + ecpriHdrSize + radioAppHdrSize +
        dataSectionHdrSize + compressionHdrSize := by rw [iqStart,if_neg hvlan]
    refine outputs_bind (ntohs_below (by omega)) ?_
    refine outputs_ite (fun hc => absurd hc hvlan) fun _ => ?_
    rw [hstart]
    exact ecpriPacket_outputs maps ctx a _ _

end Fires

section Distance

variable {mem : ℕ → UInt8} {start pktEnd : ℕ} {before : List UInt8}

/-- What the sample of a payload should be: its size, bounded by the array, that many bytes in
the array in front of what was there before, and no other byte of the payload read. -/
structure PayloadCopied (mem : ℕ → UInt8) (start pktEnd : ℕ) (before : List UInt8)
    (p : Prog UInt8 (Maps × FireResult)) (s : IqSampleData) : Prop where
  payloadSize : s.payloadSize.toNat = min (pktEnd - start) maxIqPayloadBytes
  iqPayload : ∀ j, s.iqPayload[j]? =
    if j < s.payloadSize.toNat then some (mem (start + j)) else before[j]?
  reads : ∃ headers, (∀ i ∈ headers, i < start) ∧
    cells mem p = headers ++ (List.range s.payloadSize.toNat).map (start + ·)

/-- The bytes follow the size that is written, whatever it is. -/
theorem Output.payloadCopied_iff {p : Prog UInt8 (Maps × FireResult)} {s : IqSampleData}
    (h : Output mem start pktEnd before p s) (hlen : before.length = maxIqPayloadBytes) :
    PayloadCopied mem start pktEnd before p s ↔
      s.payloadSize.toNat = min (pktEnd - start) maxIqPayloadBytes := by
  obtain ⟨hlt,hsize,hpayload,headers,hheaders,hcells⟩ := h
  have hcopy : (copySizeOf start pktEnd).toNat =
      min ((pktEnd - start) % 65536) maxIqPayloadBytes := copySizeOf_toNat (by omega)
  have hmod := Nat.mod_le (pktEnd - start) 65536
  refine ⟨PayloadCopied.payloadSize,fun hmin => ⟨hmin,fun j => ?_,headers,hheaders,?_⟩⟩
  · rw [hpayload,payloadLoop,copyLoop_get mem (by omega) (by rw [hlen,Nat.zero_add]) (by omega),hsize]
    simp only [Nat.zero_le,true_and]
  · rw [hcells,payloadLoop,copyLoop_cells mem (by omega) (by omega),hsize,Nat.sub_zero,
      List.range_eq_range']

theorem min_mod_eq_min_iff (avail : ℕ) :
    min (avail % 65536) maxIqPayloadBytes = min avail maxIqPayloadBytes ↔
      avail < 65536 ∨ maxIqPayloadBytes ≤ avail % 65536 := by
  have hmax : maxIqPayloadBytes = 8192 := rfl
  omega

/-- A sample carries as much of the payload as it can hold, unless the length of the payload
wraps in 16 bits to less than that. -/
theorem payload_copied_iff {maps : Maps} {ctx : OfhCtx} {a : Answers} {s : IqSampleData}
    (hlen : maps.outputTmp.iqPayload.length = maxIqPayloadBytes)
    (hsent : (value mem (jbpfMain maps ctx a)).2.sent = some s) :
    let avail := ctx.dataEnd - iqStart mem ctx
    PayloadCopied mem (iqStart mem ctx) ctx.dataEnd maps.outputTmp.iqPayload (jbpfMain maps ctx a) s ↔
      avail < 65536 ∨ maxIqPayloadBytes ≤ avail % 65536 := by
  intro avail
  have houtput := jbpfMain_outputs maps ctx a s hsent
  have hcopy : (copySizeOf (iqStart mem ctx) ctx.dataEnd).toNat =
      min (avail % 65536) maxIqPayloadBytes :=
    copySizeOf_toNat (Nat.add_sub_of_le houtput.start_lt.le).symm
  rw [houtput.payloadCopied_iff hlen,houtput.payloadSize,hcopy]
  exact min_mod_eq_min_iff avail

end Distance

theorem payload_copied_one_byte :
    let x := (lastSymbolFrame none [4] (by decide)).fire none
    ∃ s, (fire loadedMaps x).2.sent = some s ∧ PayloadCopied x.mem (iqStart x.mem x.ctx)
      x.ctx.dataEnd clearedSample.iqPayload (jbpfMain loadedMaps x.ctx x.answers) s := by
  intro x
  have hlen : loadedMaps.outputTmp.iqPayload.length = maxIqPayloadBytes := List.length_replicate
  have hsent : (fire loadedMaps x).2.sent.isSome = true := by decide +kernel
  obtain ⟨s,hs⟩ := Option.isSome_iff_exists.mp hsent
  refine ⟨s,hs,(payload_copied_iff hlen hs).mpr (.inl ?_)⟩
  decide +kernel

/-- The headers of that frame in front of 65536 bytes: the sample says that there are none. -/
theorem payload_of_65536_bytes_lost :
    let x := (lastSymbolFrame none [4] (by decide)).fire none
    let ctx := { x.ctx with dataEnd := iqStart x.mem x.ctx + 65536 }
    ∃ s, (value x.mem (jbpfMain loadedMaps ctx x.answers)).2.sent = some s ∧ s.payloadSize = 0 ∧
      ¬ PayloadCopied x.mem (iqStart x.mem ctx) ctx.dataEnd loadedMaps.outputTmp.iqPayload
        (jbpfMain loadedMaps ctx x.answers) s := by
  intro x ctx
  have hsent : (value x.mem (jbpfMain loadedMaps ctx x.answers)).2.sent.map IqSampleData.payloadSize =
      some 0 := by decide +kernel
  obtain ⟨s,hs,hsize⟩ := Option.map_eq_some_iff.mp hsent
  refine ⟨s,hs,hsize,fun h => ?_⟩
  have hmin : min (ctx.dataEnd - iqStart x.mem ctx) maxIqPayloadBytes = 8192 := by decide +kernel
  have hzero := h.payloadSize
  rw [hsize,hmin] at hzero
  exact absurd hzero (by decide)

end Ecpri
end E3Controller
