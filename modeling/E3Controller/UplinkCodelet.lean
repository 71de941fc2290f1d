import Mathlib.Data.Nat.Bitwise
import E3Controller.SlotApi

/-!
# The uplink slot codelet

`uplink_slot_collect.c` runs once per uplink slot inside the gNB. It decides
whether the slot is published, asks the native helper to convert it with one of
three literal lengths, and sends a descriptor. The helper answers with a packed
buffer and row index or with a negative code.
-/

namespace E3Controller
namespace Uplink

open SlotApi

structure SlotCtx where
  data : ℕ := 0
  dataEnd : ℕ := 0
  gnbTsNs : UInt64 := 0
  ctxId : UInt16 := 0
  sfn : UInt16 := 0
  subframeId : UInt16 := 0
  slotId : UInt16 := 0
  nofPorts : UInt16 := 0
  nofSymbols : UInt16 := 0
  nofSubcarriers : UInt16 := 0
  deriving DecidableEq, Repr

/-- Bytes of the grid in a slot context, and of one antenna of it. -/
def ctxAntennaBytes (ctx : SlotCtx) : ℕ := ctx.nofSymbols.toNat * ctx.nofSubcarriers.toNat * 4
def ctxGridBytes (ctx : SlotCtx) : ℕ := ctx.nofPorts.toNat * ctxAntennaBytes ctx

/-- What `jbpf_e3_publish_slot` may return: a negative code, or the row it wrote. -/
inductive HelperReply
  | refused (rc : Int64) (negative : rc < 0)
  | wrote (buf : UInt8) (row : UInt32)

def packRow (buf : UInt8) (row : UInt32) : Int64 :=
  ((buf.toUInt64 <<< 32) ||| row.toUInt64).toInt64

def HelperReply.rc : HelperReply → Int64
  | .refused rc _ => rc
  | .wrote buf row => packRow buf row

/-- What the environment answers during one fire: the two clock reads, a message
waiting on each control input, whatever the helper returns if it is called, the
output buffer and the send. -/
structure RawAnswers where
  entryTsNs : UInt64
  exitTsNs : UInt64
  shmIn : Option E3ShmCfg
  selIn : Option E3SlotSel
  rc : Int64
  outputBuf : Bool
  sendOk : Bool

/-- The answers of a helper that keeps to its own return values. -/
structure FireAnswers where
  entryTsNs : UInt64
  exitTsNs : UInt64
  shmIn : Option E3ShmCfg
  selIn : Option E3SlotSel
  reply : HelperReply
  outputBuf : Bool
  sendOk : Bool

def FireAnswers.raw (a : FireAnswers) : RawAnswers where
  entryTsNs := a.entryTsNs
  exitTsNs := a.exitTsNs
  shmIn := a.shmIn
  selIn := a.selIn
  rc := a.reply.rc
  outputBuf := a.outputBuf
  sendOk := a.sendOk

/-- What one fire did: the calls of the two helpers, the descriptor it wrote, and
whether that was sent. -/
structure FireResult where
  attach : Option E3ShmCfg := none
  publish : Option ℕ := none
  desc : Option E3SlotDesc := none
  sent : Bool := false
  success : Bool := true

def selects (sel : E3SlotSel) (ctx : SlotCtx) : Bool :=
  (!(sel.sfnMod > 1) || ctx.sfn % sel.sfnMod = sel.sfnOffset) &&
    (sel.slotMask = 0 || (ctx.slotId < 64 && (sel.slotMask >>> ctx.slotId.toUInt64) &&& 1 ≠ 0))

def filteredFlag (sel : E3SlotSel) : UInt8 :=
  if sel.sfnMod > 1 || sel.slotMask ≠ 0 then flagFiltered else 0

def rung (ctx : SlotCtx) : Option ℕ :=
  if ctx.data + slotBytes8P ≤ ctx.dataEnd then some slotBytes8P
  else if ctx.data + slotBytes4P ≤ ctx.dataEnd then some slotBytes4P
  else if ctx.data + slotBytes2P ≤ ctx.dataEnd then some slotBytes2P
  else none

/-- `rc`, `published` and `flags` when the descriptor is filled in. -/
def publishReturned (rung : Option ℕ) (rc : Int64) (flags : UInt8) : Int64 × ℕ × UInt8 :=
  let called : Int64 × ℕ × UInt8 :=
    match rung with
    | some n => (rc,n,flags)
    | none => (-1,0,flags ||| flagTruncated)
  if called.1 < 0 ∧ called.2.2 &&& flagTruncated = 0 then (0,0,called.2.2 ||| flagTruncated)
  else called

def publishResult (rung : Option ℕ) (reply : HelperReply) (flags : UInt8) : Int64 × ℕ × UInt8 :=
  publishReturned rung reply.rc flags

def descriptor (ctx : SlotCtx) (entryTsNs exitTsNs : UInt64) (result : Int64 × ℕ × UInt8) :
    E3SlotDesc where
  gnbTsNs := ctx.gnbTsNs
  bytesWritten := UInt32.ofNat result.2.1
  fhBufferIndex := ((result.1.toUInt64 >>> 32) &&& 0xff).toUInt8
  fhWriteIndex := (result.1.toUInt64 &&& 0xffffffff).toUInt32
  flags := result.2.2
  sfn := ctx.sfn
  subframeId := ctx.subframeId
  slotId := ctx.slotId
  sectorId := ctx.ctxId
  nofPorts := ctx.nofPorts
  nofSymbols := ctx.nofSymbols
  nofSubcarriers := ctx.nofSubcarriers
  codeletEntryTsNs := entryTsNs
  codeletTsNs := exitTsNs

/-- `jbpf_main`; the state is the cached selector. The look-up of the only element
of an array map does not fail. -/
def jbpfMainRaw (selState : E3SlotSel) (ctx : SlotCtx) (a : RawAnswers) : E3SlotSel × FireResult :=
  let sel := a.selIn.getD selState
  if !selects sel ctx then (sel,{ attach := a.shmIn })
  else
    let result := publishReturned (rung ctx) a.rc (filteredFlag sel)
    if !a.outputBuf then (sel,{ attach := a.shmIn, publish := rung ctx, success := false })
    else
      (sel,{
        attach := a.shmIn
        publish := rung ctx
        desc := some (descriptor ctx a.entryTsNs a.exitTsNs result)
        sent := a.sendOk
        success := a.sendOk })

def jbpfMain (selState : E3SlotSel) (ctx : SlotCtx) (a : FireAnswers) : E3SlotSel × FireResult :=
  jbpfMainRaw selState ctx a.raw

section Packing

variable (buf : UInt8) (row : UInt32)

theorem packRow_toNat : (packRow buf row).toUInt64.toNat = buf.toNat * 2 ^ 32 + row.toNat := by
  have hbuf := buf.toNat_lt
  have hrow := row.toNat_lt
  rw [packRow,UInt64.toUInt64_toInt64,UInt64.toNat_or,UInt64.toNat_shiftLeft,UInt8.toNat_toUInt64,
    UInt32.toNat_toUInt64,show (32 : UInt64).toNat % 64 = 32 from rfl,
    Nat.mod_eq_of_lt (a := buf.toNat <<< 32) (by rw [Nat.shiftLeft_eq]; omega),
    ← Nat.shiftLeft_add_eq_or_of_lt hrow,Nat.shiftLeft_eq]

theorem packRow_nonneg : ¬ packRow buf row < 0 := by
  have hbuf := buf.toNat_lt
  have hrow := row.toNat_lt
  have hpack := packRow_toNat buf row
  have hint : (packRow buf row).toInt = (packRow buf row).toUInt64.toBitVec.toInt := rfl
  rw [Int64.lt_iff_toInt_lt,hint,BitVec.toInt_eq_toNat_of_lt]
  · exact Int.not_lt.mpr (Int.natCast_nonneg _)
  · change 2 * (packRow buf row).toUInt64.toNat < 2 ^ 64
    omega

theorem packRow_buf : (((packRow buf row).toUInt64 >>> 32) &&& 0xff).toUInt8 = buf := by
  have hbuf := buf.toNat_lt
  have hrow := row.toNat_lt
  rw [← UInt8.toNat_inj,UInt64.toNat_toUInt8,UInt64.toNat_and,UInt64.toNat_shiftRight,packRow_toNat,
    show (32 : UInt64).toNat % 64 = 32 from rfl,show (0xff : UInt64).toNat = 2 ^ 8 - 1 from rfl,
    Nat.and_two_pow_sub_one_eq_mod,Nat.shiftRight_eq_div_pow]
  omega

theorem packRow_row : ((packRow buf row).toUInt64 &&& 0xffffffff).toUInt32 = row := by
  have hrow := row.toNat_lt
  rw [← UInt32.toNat_inj,UInt64.toNat_toUInt32,UInt64.toNat_and,packRow_toNat,
    show (0xffffffff : UInt64).toNat = 2 ^ 32 - 1 from rfl,Nat.and_two_pow_sub_one_eq_mod]
  omega

end Packing

def publishedRow (rung : Option ℕ) (reply : HelperReply) : Option (UInt8 × UInt32) :=
  match rung, reply with
  | some _, .wrote buf row => some (buf,row)
  | _, _ => none

theorem filteredFlag_not_truncated (sel : E3SlotSel) : filteredFlag sel &&& flagTruncated = 0 := by
  unfold filteredFlag
  split <;> decide

theorem truncated_of_or (f : UInt8) : (f ||| flagTruncated) &&& flagTruncated ≠ 0 := by
  have habs : (f ||| flagTruncated) &&& flagTruncated = flagTruncated := by
    rw [← UInt8.toBitVec_inj]
    simp only [UInt8.toBitVec_and,UInt8.toBitVec_or]
    ext i hi
    simp
    exact Or.inr
  rw [habs]
  decide

/-- Without `TRUNCATED` the helper was called and its answer is packed unchanged. -/
theorem publishResult_published {r : Option ℕ} {reply : HelperReply} {flags : UInt8}
    (hflags : flags &&& flagTruncated = 0)
    (h : (publishResult r reply flags).2.2 &&& flagTruncated = 0) :
    ∃ n buf row, r = some n ∧ reply = .wrote buf row ∧
      publishResult r reply flags = (packRow buf row,n,flags) := by
  cases r with
  | none =>
    have hres : (publishResult none reply flags).2.2 = flags ||| flagTruncated := by
      unfold publishResult publishReturned
      rw [if_neg fun hc => truncated_of_or flags hc.2]
    rw [hres] at h
    exact absurd h (truncated_of_or flags)
  | some n =>
    cases reply with
    | refused rc hneg =>
      have hres : (publishResult (some n) (.refused rc hneg) flags).2.2 = flags ||| flagTruncated := by
        unfold publishResult publishReturned
        rw [if_pos ⟨hneg,hflags⟩]
      rw [hres] at h
      exact absurd h (truncated_of_or flags)
    | wrote buf row =>
      refine ⟨n,buf,row,rfl,rfl,?_⟩
      unfold publishResult publishReturned
      rw [if_neg fun hc => packRow_nonneg buf row hc.1]
      rfl

/-- A descriptor without `TRUNCATED` is one of a published row and says which, and
how many bytes of it. -/
theorem descriptor_published {ctx : SlotCtx} {r : Option ℕ} {reply : HelperReply} {flags : UInt8}
    {entryTsNs exitTsNs : UInt64} {d : E3SlotDesc} (hflags : flags &&& flagTruncated = 0)
    (hd : d = descriptor ctx entryTsNs exitTsNs (publishResult r reply flags))
    (h : d.flags &&& flagTruncated = 0) :
    publishedRow r reply = some (d.fhBufferIndex,d.fhWriteIndex) ∧
      ∃ n, r = some n ∧ d.bytesWritten = UInt32.ofNat n := by
  subst hd
  obtain ⟨n,buf,row,rfl,rfl,hres⟩ := publishResult_published hflags h
  refine ⟨?_,n,rfl,?_⟩
  · rw [hres,publishedRow]
    exact congrArg some (Prod.ext (packRow_buf buf row).symm (packRow_row buf row).symm)
  · rw [hres]
    rfl

theorem jbpfMainRaw_desc {selState : E3SlotSel} {ctx : SlotCtx} {a : RawAnswers} {d : E3SlotDesc}
    (h : (jbpfMainRaw selState ctx a).2.desc = some d) :
    (jbpfMainRaw selState ctx a).2.publish = rung ctx ∧
      d = descriptor ctx a.entryTsNs a.exitTsNs
        (publishReturned (rung ctx) a.rc (filteredFlag (a.selIn.getD selState))) := by
  simp only [jbpfMainRaw] at h ⊢
  split at h
  · cases h
  next hsel =>
    split at h
    · cases h
    next hbuf =>
      rw [if_neg hsel,if_neg hbuf]
      exact ⟨rfl,(Option.some.inj h).symm⟩

theorem jbpfMainRaw_sent {selState : E3SlotSel} {ctx : SlotCtx} {a : RawAnswers}
    (h : (jbpfMainRaw selState ctx a).2.sent = true) :
    ∃ d, (jbpfMainRaw selState ctx a).2.desc = some d := by
  simp only [jbpfMainRaw] at h ⊢
  split at h
  · cases h
  next hsel =>
    split at h
    · cases h
    next hbuf =>
      rw [if_neg hsel,if_neg hbuf]
      exact ⟨_,rfl⟩

theorem jbpfMain_publish {selState : E3SlotSel} {ctx : SlotCtx} {a : FireAnswers} {d : E3SlotDesc}
    (h : (jbpfMain selState ctx a).2.desc = some d) :
    (jbpfMain selState ctx a).2.publish = rung ctx :=
  (jbpfMainRaw_desc h).1

theorem jbpfMain_sent {selState : E3SlotSel} {ctx : SlotCtx} {a : FireAnswers}
    (h : (jbpfMain selState ctx a).2.sent = true) : ∃ d, (jbpfMain selState ctx a).2.desc = some d :=
  jbpfMainRaw_sent h

theorem jbpfMain_unsent {selState : E3SlotSel} {ctx : SlotCtx} {a : FireAnswers}
    (h : (jbpfMain selState ctx a).2.desc = none) : (jbpfMain selState ctx a).2.sent = false := by
  rw [Bool.eq_false_iff]
  intro hsent
  obtain ⟨d,hd⟩ := jbpfMain_sent hsent
  rw [h] at hd
  cases hd

theorem jbpfMain_desc {selState : E3SlotSel} {ctx : SlotCtx} {a : FireAnswers} {d : E3SlotDesc}
    (h : (jbpfMain selState ctx a).2.desc = some d) :
    ∃ flags, flags &&& flagTruncated = 0 ∧
      d = descriptor ctx a.entryTsNs a.exitTsNs (publishResult (rung ctx) a.reply flags) :=
  ⟨filteredFlag (a.selIn.getD selState),filteredFlag_not_truncated _,(jbpfMainRaw_desc h).2⟩

def ladder : List ℕ := [slotBytes2P,slotBytes4P,slotBytes8P]

theorem ladder_lt {n : ℕ} (h : n ∈ ladder) : 0 < n ∧ n < 2 ^ 32 := by
  simp only [ladder,slotBytes2P,slotBytes4P,slotBytes8P,List.mem_cons,List.not_mem_nil,or_false] at h
  omega

/-- The ladder picks the largest size that fits into the region. -/
theorem rung_eq_some_iff {ctx : SlotCtx} {n : ℕ} : rung ctx = some n ↔
    n ∈ ladder ∧ ctx.data + n ≤ ctx.dataEnd ∧ ∀ m ∈ ladder, ctx.data + m ≤ ctx.dataEnd → m ≤ n := by
  have h2 : slotBytes2P = 366912 := rfl
  have h4 : slotBytes4P = 733824 := rfl
  have h8 : slotBytes8P = 1467648 := rfl
  simp only [rung,ladder,List.mem_cons,List.not_mem_nil,or_false,forall_eq_or_imp,forall_eq]
  split_ifs <;> simp <;> omega

theorem rung_largest {ctx : SlotCtx} {size n : ℕ} (hsize : ctx.dataEnd = ctx.data + size)
    (h : rung ctx = some n) : n ∈ ladder ∧ n ≤ size ∧ ∀ m ∈ ladder, m ≤ size → m ≤ n := by
  simp only [rung_eq_some_iff,hsize,Nat.add_le_add_iff_left] at h
  exact h

end Uplink
end E3Controller
