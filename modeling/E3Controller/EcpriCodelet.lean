import E3Controller.BitString
import E3Controller.LabelledRun
import E3Controller.MemoryReads
import E3Controller.SlotApi

/-!
# The eCPRI codelet

`ecpri_iq_collect.c` runs on every fronthaul packet inside the gNB. It walks the headers of
the packet, each after a comparison with `data_end`, drops what the filters do not want, and
builds the sample of the rest in a map element that lives as long as the codelet.
-/

namespace E3Controller
namespace Ecpri

open MemoryReads Prog BitString SlotApi

def ethhdrSize : ℕ := 14
def vlanHdrSize : ℕ := 4
def ecpriHdrSize : ℕ := 8
def radioAppHdrSize : ℕ := 4
def dataSectionHdrSize : ℕ := 4
def compressionHdrSize : ℕ := 2

def ethP8021Q : UInt16 := 0x8100
def ecpriEthType : UInt16 := 0xaefe
def ecpriIqData : UInt8 := 0x00
def maxIqPayloadBytes : ℕ := 8192

def targetAbsSlot : UInt16 := 19
def slotsPerSubframe : UInt16 := 2
def targetSymbolId : UInt16 := 13

structure OfhCtx where
  data : ℕ
  dataEnd : ℕ
  metaData : UInt64
  direction : UInt8

structure Maps where
  outputTmp : IqSampleData
  samplingPeriod : UInt32
  symbolCounter : UInt32
  prbFilter : PrbFilterConfig

/-- What the environment answers during one fire: the two clock reads, a message waiting on
the control input, and whether the output is taken. -/
structure Answers where
  entryTsNs : UInt64
  exitTsNs : UInt64
  prbIn : Option PrbFilterConfig
  outputOk : Bool

structure FireResult where
  sent : Option IqSampleData := none
  success : Bool := true
  deriving DecidableEq

def clearedSample : IqSampleData := { iqPayload := List.replicate maxIqPayloadBytes 0 }

def ntohs (p : ℕ) : Prog UInt8 UInt16 := do
  let b₀ ← cell p
  let b₁ ← cell (p + 1)
  pure ((b₀.toUInt16 <<< 8) ||| b₁.toUInt16)

def ntohl (p : ℕ) : Prog UInt8 UInt32 := do
  let b₀ ← cell p
  let b₁ ← cell (p + 1)
  let b₂ ← cell (p + 2)
  let b₃ ← cell (p + 3)
  pure ((b₀.toUInt32 <<< 24) ||| (b₁.toUInt32 <<< 16) ||| (b₂.toUInt32 <<< 8) ||| b₃.toUInt32)

def numPrbuOf (secBits : UInt32) : UInt16 :=
  let numPrbu := (secBits &&& 0xff).toUInt16
  if numPrbu = 0 then 273 else numPrbu

def receiveFilter (maps : Maps) (a : Answers) : Maps :=
  match a.prbIn with
  | some cfg => { maps with prbFilter := ⟨cfg.expectedNumPrbu⟩ }
  | none => maps

def sampling (maps : Maps) : Bool × Maps :=
  if maps.samplingPeriod > 0 then
    let cnt := maps.symbolCounter + 1
    if cnt < maps.samplingPeriod then (false,{ maps with symbolCounter := cnt })
    else (true,{ maps with symbolCounter := 0 })
  else (true,maps)

def copyLoop (src pktEnd : ℕ) (copySize : UInt16) : ℕ → ℕ → List UInt8 → Prog UInt8 (List UInt8)
  | 0, _, iqPayload => pure iqPayload
  | fuel + 1, i, iqPayload =>
    if i ≥ copySize.toNat then pure iqPayload
    else if src + i + 1 > pktEnd then pure iqPayload
    else do
      let b ← cell (src + i)
      copyLoop src pktEnd copySize fuel (i + 1) (iqPayload.set i b)

/-- Bytes to copy: `avail` narrowed to 16 bits, then bounded. -/
def copySizeOf (iqStart pktEnd : ℕ) : UInt16 :=
  let avail := UInt64.ofNat pktEnd - UInt64.ofNat iqStart
  let copySize := avail.toUInt16
  if copySize.toNat > maxIqPayloadBytes then UInt16.ofNat maxIqPayloadBytes else copySize

/-- The sample in the scratch element, and its output; the element is cleared either way. -/
def outputSample (maps : Maps) (ctx : OfhCtx) (a : Answers) (appHdr dscHdr : ℕ) (sfSlotSym : UInt16)
    (secBits : UInt32) : Prog UInt8 (Maps × FireResult) := do
  let frameId ← cell (appHdr + 1)
  let udCompHdr ← cell dscHdr
  let iqStart := dscHdr + compressionHdrSize
  let copySize := copySizeOf iqStart ctx.dataEnd
  let iqPayload ← copyLoop iqStart ctx.dataEnd copySize maxIqPayloadBytes 0 maps.outputTmp.iqPayload
  let out : IqSampleData := {
    gnbTsNs := ctx.metaData
    codeletTsNs := a.exitTsNs
    timestamp := ((a.entryTsNs / 1000) &&& 0x7fffffff).toUInt32.toUInt64
    direction := ctx.direction
    frameId := frameId
    compMethod := udCompHdr &&& 0x0f
    iqWidth := udCompHdr >>> 4
    subframeId := (sfSlotSym >>> 12) &&& 0xf
    slotId := (sfSlotSym >>> 6) &&& 0x3f
    symbolId := sfSlotSym &&& 0x3f
    sectionId := ((secBits >>> 20) &&& 0xfff).toUInt16
    startPrbu := ((secBits >>> 8) &&& 0x3ff).toUInt16
    numPrbu := numPrbuOf secBits
    payloadSize := copySize
    iqPayload := iqPayload }
  let cleared := { maps with outputTmp := clearedSample }
  if a.outputOk then pure (cleared,{ sent := some out })
  else pure (cleared,{ success := false })

/-- From the section header on: the PRB filter and the sampling. -/
def sectionPacket (maps : Maps) (ctx : OfhCtx) (a : Answers) (appHdr : ℕ) (sfSlotSym : UInt16) :
    Prog UInt8 (Maps × FireResult) :=
  let dataHdr := appHdr + radioAppHdrSize
  let dscHdr := dataHdr + dataSectionHdrSize
  if dataHdr + dataSectionHdrSize ≥ ctx.dataEnd then pure (maps,{ success := false })
  else if dscHdr + compressionHdrSize ≥ ctx.dataEnd then pure (maps,{ success := false })
  else do
    let secBits ← ntohl dataHdr
    let maps := receiveFilter maps a
    if maps.prbFilter.expectedNumPrbu > 0 ∧ numPrbuOf secBits ≠ maps.prbFilter.expectedNumPrbu then
      pure (maps,{})
    else
      match sampling maps with
      | (false,maps) => pure (maps,{})
      | (true,maps) => outputSample maps ctx a appHdr dscHdr sfSlotSym secBits

/-- From the eCPRI header on: only IQ data of the target slot and symbol. -/
def ecpriPacket (maps : Maps) (ctx : OfhCtx) (a : Answers) (etherType : UInt16) (ecpriHdr : ℕ) :
    Prog UInt8 (Maps × FireResult) :=
  if etherType ≠ ecpriEthType then pure (maps,{ success := false })
  else if ecpriHdr + ecpriHdrSize ≥ ctx.dataEnd then pure (maps,{ success := false })
  else do
    let mesgType ← cell (ecpriHdr + 1)
    if mesgType ≠ ecpriIqData then pure (maps,{})
    else
      let appHdr := ecpriHdr + ecpriHdrSize
      if appHdr + radioAppHdrSize ≥ ctx.dataEnd then pure (maps,{ success := false })
      else do
        let sfSlotSym ← ntohs (appHdr + 2)
        let subframeId := (sfSlotSym >>> 12) &&& 0xf
        let slotId := (sfSlotSym >>> 6) &&& 0x3f
        let absSlot := subframeId * slotsPerSubframe + slotId
        if absSlot ≠ targetAbsSlot then pure (maps,{})
        else if sfSlotSym &&& 0x3f ≠ targetSymbolId then pure (maps,{})
        else sectionPacket maps ctx a appHdr sfSlotSym

/-- `jbpf_main`. The look-up of the only element of an array map does not fail. -/
def jbpfMain (maps : Maps) (ctx : OfhCtx) (a : Answers) : Prog UInt8 (Maps × FireResult) :=
  let eh := ctx.data
  if eh + ethhdrSize ≥ ctx.dataEnd then pure (maps,{ success := false })
  else do
    let nextHdr := eh + ethhdrSize
    let etherType ← ntohs (eh + 12)
    if etherType = ethP8021Q then
      if nextHdr + vlanHdrSize ≥ ctx.dataEnd then pure (maps,{ success := false })
      else do
        let etherType ← ntohs (nextHdr + 2)
        ecpriPacket maps ctx a etherType (nextHdr + vlanHdrSize)
    else ecpriPacket maps ctx a etherType nextHdr

section Bounds

variable {mem : ℕ → UInt8} {n : ℕ}

theorem ntohs_below {p : ℕ} (h : p + 2 ≤ n) : Below mem n (ntohs p) :=
  below_bind (below_cell (by omega)) fun _ => below_bind (below_cell (by omega)) fun _ =>
    below_pure _

theorem ntohl_below {p : ℕ} (h : p + 4 ≤ n) : Below mem n (ntohl p) :=
  below_bind (below_cell (by omega)) fun _ => below_bind (below_cell (by omega)) fun _ =>
    below_bind (below_cell (by omega)) fun _ => below_bind (below_cell (by omega)) fun _ =>
      below_pure _

/-- The loop compares every address with the end of the packet, whatever the size says. -/
theorem copyLoop_below (src : ℕ) (copySize : UInt16) (fuel i : ℕ) (iqPayload : List UInt8) :
    Below mem n (copyLoop src n copySize fuel i iqPayload) := by
  induction fuel generalizing i iqPayload with
  | zero => exact below_pure _
  | succ fuel ih =>
    refine below_ite (fun _ => below_pure _) fun _ => below_ite (fun _ => below_pure _) fun h => ?_
    exact below_bind (below_cell (by omega)) fun b => ih (i + 1) (iqPayload.set i b)

variable (maps : Maps) (ctx : OfhCtx) (a : Answers)

theorem outputSample_below {appHdr dscHdr : ℕ} (happ : appHdr + radioAppHdrSize < ctx.dataEnd)
    (hdsc : dscHdr + compressionHdrSize < ctx.dataEnd) (sfSlotSym : UInt16) (secBits : UInt32) :
    Below mem ctx.dataEnd (outputSample maps ctx a appHdr dscHdr sfSlotSym secBits) := by
  simp only [radioAppHdrSize,compressionHdrSize] at happ hdsc
  refine below_bind (below_cell (by omega)) fun _ => below_bind (below_cell (by omega)) fun _ => ?_
  refine below_bind (copyLoop_below _ _ _ _ _) fun _ => ?_
  exact below_ite (fun _ => below_pure _) fun _ => below_pure _

theorem sectionPacket_below {appHdr : ℕ} (happ : appHdr + radioAppHdrSize < ctx.dataEnd)
    (sfSlotSym : UInt16) : Below mem ctx.dataEnd (sectionPacket maps ctx a appHdr sfSlotSym) := by
  refine below_ite (fun _ => below_pure _) fun hdata => ?_
  refine below_ite (fun _ => below_pure _) fun hdsc => ?_
  refine below_bind (ntohl_below (by simp only [dataSectionHdrSize] at hdata; omega)) fun secBits => ?_
  refine below_ite (fun _ => below_pure _) fun _ => ?_
  rcases sampling (receiveFilter maps a) with ⟨_ | _,maps'⟩
  · exact below_pure _
  · exact outputSample_below maps' ctx a happ (by omega) sfSlotSym secBits

theorem ecpriPacket_below (etherType : UInt16) (ecpriHdr : ℕ) :
    Below mem ctx.dataEnd (ecpriPacket maps ctx a etherType ecpriHdr) := by
  refine below_ite (fun _ => below_pure _) fun _ => below_ite (fun _ => below_pure _) fun hecpri => ?_
  refine below_bind (below_cell (by simp only [ecpriHdrSize] at hecpri; omega)) fun _ => ?_
  refine below_ite (fun _ => below_pure _) fun _ => below_ite (fun _ => below_pure _) fun happ => ?_
  refine below_bind (ntohs_below (by simp only [radioAppHdrSize] at happ; omega)) fun sfSlotSym => ?_
  refine below_ite (fun _ => below_pure _) fun _ => below_ite (fun _ => below_pure _) fun _ => ?_
  exact sectionPacket_below maps ctx a (by omega) sfSlotSym

/-- No byte at or behind `data_end` is read, whatever the packet holds. -/
theorem jbpfMain_below : Below mem ctx.dataEnd (jbpfMain maps ctx a) := by
  refine below_ite (fun _ => below_pure _) fun heth => ?_
  refine below_bind (ntohs_below (by simp only [ethhdrSize] at heth; omega)) fun etherType => ?_
  refine below_ite (fun _ => below_ite (fun _ => below_pure _) fun hvlan => ?_) fun _ =>
    ecpriPacket_below maps ctx a etherType _
  refine below_bind (ntohs_below (by simp only [vlanHdrSize] at hvlan; omega)) fun inner => ?_
  exact ecpriPacket_below maps ctx a inner _

end Bounds

section Copy

variable (mem : ℕ → UInt8)

theorem copyLoop_get {src pktEnd : ℕ} {copySize : UInt16} (hend : src + copySize.toNat ≤ pktEnd)
    {fuel i : ℕ} {iqPayload : List UInt8} (hlen : iqPayload.length = i + fuel)
    (hsize : copySize.toNat ≤ i + fuel) (j : ℕ) :
    (value mem (copyLoop src pktEnd copySize fuel i iqPayload))[j]? =
      if i ≤ j ∧ j < copySize.toNat then some (mem (src + j)) else iqPayload[j]? := by
  induction fuel generalizing i iqPayload with
  | zero =>
    rw [copyLoop,value_pure,if_neg (by omega)]
  | succ fuel ih =>
    rw [copyLoop]
    by_cases hi : i ≥ copySize.toNat
    · rw [if_pos hi,value_pure,if_neg (by omega)]
    · rw [if_neg hi,if_neg (by omega),value_bind,value_cell,ih (by rw [List.length_set]; omega) (by omega),
        List.getElem?_set]
      by_cases hj : i = j
      · subst hj
        rw [if_neg (by omega),if_pos rfl,if_pos (by omega),if_pos (by omega)]
      · rw [if_neg hj]
        congr 1
        exact propext ⟨fun h => ⟨by omega,h.2⟩,fun h => ⟨by omega,h.2⟩⟩

theorem copyLoop_cleared {src pktEnd : ℕ} {copySize : UInt16} {payload : List UInt8}
    (hend : src + payload.length ≤ pktEnd) (hmem : Holds mem src payload)
    (hsize : copySize.toNat = min payload.length maxIqPayloadBytes) :
    value mem (copyLoop src pktEnd copySize maxIqPayloadBytes 0 clearedSample.iqPayload) =
      payload.take maxIqPayloadBytes ++
        List.replicate (maxIqPayloadBytes - payload.length) 0 := by
  have hlen : clearedSample.iqPayload.length = 0 + maxIqPayloadBytes := by
    rw [clearedSample,List.length_replicate,Nat.zero_add]
  refine List.ext_getElem? fun j => ?_
  rw [copyLoop_get mem (by omega) hlen (by omega) j,List.getElem?_append,List.length_take,
    List.getElem?_replicate,clearedSample,List.getElem?_replicate]
  by_cases hj : j < copySize.toNat
  · have hin : j < payload.length := by omega
    rw [if_pos ⟨Nat.zero_le j,hj⟩,if_pos (by omega),List.getElem?_take_of_lt (by omega),
      List.getElem?_eq_getElem hin,hmem.get hin]
  · have hzero : (j - min maxIqPayloadBytes payload.length < maxIqPayloadBytes - payload.length) =
        (j < maxIqPayloadBytes) := propext (by omega)
    rw [if_neg fun h => hj h.2,if_neg (show ¬ j < min maxIqPayloadBytes payload.length by omega)]
    simp only [hzero]

/-- The narrowing keeps the distance modulo 65536 only, and the bound comes after it. -/
theorem copySizeOf_toNat {iqStart pktEnd len : ℕ} (hend : pktEnd = iqStart + len) :
    (copySizeOf iqStart pktEnd).toNat = min (len % 65536) maxIqPayloadBytes := by
  have havail : (UInt64.ofNat pktEnd - UInt64.ofNat iqStart).toUInt16.toNat = len % 65536 := by
    have hofNat : UInt64.ofNat pktEnd = UInt64.ofNat len + UInt64.ofNat iqStart := by
      rw [hend,Nat.add_comm,UInt64.ofNat_add]
    rw [hofNat,UInt64.add_sub_cancel,UInt64.toNat_toUInt16,UInt64.toNat_ofNat']
    omega
  have hmax : (UInt16.ofNat maxIqPayloadBytes).toNat = maxIqPayloadBytes := rfl
  simp only [copySizeOf,havail]
  split
  · rw [hmax]
    omega
  · rw [havail]
    omega

end Copy

end Ecpri
end E3Controller
