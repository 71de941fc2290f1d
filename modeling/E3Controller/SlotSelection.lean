import Mathlib.Data.List.Induction
import E3Controller.UplinkCodelet

/-!
# Which slots the codelet publishes, and how much of them

The codelet keeps one selector between fires. What a fire does is decided by the
selector received last, in this fire or in an earlier one; the helper may return
any value. The sizes it publishes are three literals, so that a whole grid is
published only if it has one of these sizes.
-/

namespace E3Controller
namespace Uplink

open SlotApi

def Selected (sel : E3SlotSel) (ctx : SlotCtx) : Prop :=
  (sel.sfnMod.toNat ≤ 1 ∨ ctx.sfn.toNat % sel.sfnMod.toNat = sel.sfnOffset.toNat) ∧
    (sel.slotMask = 0 ∨
      (ctx.slotId.toNat < 64 ∧ sel.slotMask.toNat.testBit ctx.slotId.toNat = true))

def Filtering (sel : E3SlotSel) : Prop := 1 < sel.sfnMod.toNat ∨ sel.slotMask ≠ 0

theorem shifted_mask_iff {mask : UInt64} {i : UInt16} (hi : i.toNat < 64) :
    (mask >>> i.toUInt64) &&& 1 ≠ 0 ↔ mask.toNat.testBit i.toNat = true := by
  have hbit : ((mask >>> i.toUInt64) &&& 1).toNat = mask.toNat / 2 ^ i.toNat % 2 := by
    rw [UInt64.toNat_and,UInt64.toNat_shiftRight,UInt16.toNat_toUInt64,Nat.mod_eq_of_lt hi,
      show (1 : UInt64).toNat = 1 from rfl,Nat.and_one_is_mod,Nat.shiftRight_eq_div_pow]
  rw [Nat.testBit_eq_decide_div_mod_eq,decide_eq_true_iff,ne_eq,← UInt64.toNat_inj,hbit,
    show (0 : UInt64).toNat = 0 from rfl]
  omega

theorem selects_iff (sel : E3SlotSel) (ctx : SlotCtx) : selects sel ctx = true ↔ Selected sel ctx := by
  have hmod : ¬ sel.sfnMod > 1 ↔ sel.sfnMod.toNat ≤ 1 := by
    rw [gt_iff_lt,UInt16.lt_iff_toNat_lt,show (1 : UInt16).toNat = 1 from rfl,Nat.not_lt]
  have hoffset : ctx.sfn % sel.sfnMod = sel.sfnOffset ↔
      ctx.sfn.toNat % sel.sfnMod.toNat = sel.sfnOffset.toNat := by
    rw [← UInt16.toNat_inj,UInt16.toNat_mod]
  have hid : ctx.slotId < 64 ↔ ctx.slotId.toNat < 64 := by
    rw [UInt16.lt_iff_toNat_lt]
    rfl
  unfold selects Selected
  simp only [Bool.and_eq_true,Bool.or_eq_true,Bool.not_eq_true',decide_eq_false_iff_not,
    decide_eq_true_iff,hmod,hoffset,hid]
  refine and_congr_right fun _ => or_congr_right (and_congr_right fun hlt => ?_)
  exact shifted_mask_iff hlt

theorem filtered_iff (sel : E3SlotSel) (f : UInt8) (hf : f = 0 ∨ f = flagTruncated) :
    (filteredFlag sel ||| f) &&& flagFiltered ≠ 0 ↔ Filtering sel := by
  have hmod : sel.sfnMod > 1 ↔ 1 < sel.sfnMod.toNat := by
    rw [gt_iff_lt,UInt16.lt_iff_toNat_lt]
    rfl
  unfold filteredFlag Filtering
  simp only [Bool.or_eq_true,decide_eq_true_iff,hmod]
  rcases hf with rfl | rfl
  all_goals
    split
    next h => exact ⟨fun _ => h,fun _ => by decide⟩
    next h => exact ⟨fun hc => absurd rfl hc,fun hc => absurd hc h⟩

/-- The two outcomes of the publication: the helper took the slot, or the
descriptor says that nothing was written. -/
theorem publishReturned_cases (r : Option ℕ) (rc : Int64) {flags : UInt8}
    (hflags : flags &&& flagTruncated = 0) :
    (∃ n, r = some n ∧ ¬ rc < 0 ∧ publishReturned r rc flags = (rc,n,flags)) ∨
    ((r = none ∨ rc < 0) ∧ (publishReturned r rc flags).2 = (0,flags ||| flagTruncated)) := by
  unfold publishReturned
  cases r with
  | none => exact .inr ⟨.inl rfl,by rw [if_neg fun hc => truncated_of_or flags hc.2]⟩
  | some n =>
    by_cases hrc : rc < 0
    · exact .inr ⟨.inr hrc,by rw [if_pos ⟨hrc,hflags⟩]⟩
    · exact .inl ⟨n,rfl,hrc,by rw [if_neg fun hc => hrc hc.1]⟩

theorem rung_mem_ladder {ctx : SlotCtx} {n : ℕ} (h : rung ctx = some n) : n ∈ ladder := by
  simp only [rung] at h
  split_ifs at h <;> cases h <;> decide

/-! ## Runs -/

structure Fire where
  ctx : SlotCtx
  answers : RawAnswers

/-- A run of the codelet: the cached selector at its end, and what each fire did. -/
def fires (selState : E3SlotSel) : List Fire → E3SlotSel × List FireResult
  | [] => (selState,[])
  | f :: fs =>
    let fired := jbpfMainRaw selState f.ctx f.answers
    let rest := fires fired.1 fs
    (rest.1,fired.2 :: rest.2)

/-- The selector received last; a zeroed map holds the one of all zeros. -/
def latest (fs : List Fire) : E3SlotSel :=
  ((fs.filterMap fun f => f.answers.selIn).getLast?).getD {}

theorem latest_append (fs : List Fire) (f : Fire) :
    latest (fs ++ [f]) = f.answers.selIn.getD (latest fs) := by
  unfold latest
  rw [List.filterMap_append]
  cases hsel : f.answers.selIn <;> simp [hsel]

theorem jbpfMainRaw_fst (selState : E3SlotSel) (ctx : SlotCtx) (a : RawAnswers) :
    (jbpfMainRaw selState ctx a).1 = a.selIn.getD selState := by
  simp only [jbpfMainRaw]
  split_ifs <;> rfl

theorem fires_append (selState : E3SlotSel) (before after : List Fire) :
    fires selState (before ++ after) =
      ((fires (fires selState before).1 after).1,
        (fires selState before).2 ++ (fires (fires selState before).1 after).2) := by
  induction before generalizing selState with
  | nil => rfl
  | cons f fs ih => simp only [List.cons_append,fires,ih]

theorem fires_length (selState : E3SlotSel) (fs : List Fire) :
    (fires selState fs).2.length = fs.length := by
  induction fs generalizing selState with
  | nil => rfl
  | cons f fs ih => simp only [fires,List.length_cons,ih]

/-- After any run the cache holds the selector received last. -/
theorem fires_latest (fs : List Fire) : (fires {} fs).1 = latest fs := by
  induction fs using List.reverseRecOn with
  | nil => rfl
  | append_singleton fs f ih =>
    rw [fires_append,latest_append,ih]
    exact jbpfMainRaw_fst _ _ _

/-- What one fire may do, given the selector that was cached before it. -/
structure FireLaw (cached : E3SlotSel) (f : Fire) (fired : E3SlotSel × FireResult) : Prop where
  onlySelected : fired.2.publish ≠ none ∨ fired.2.desc ≠ none ∨ fired.2.sent = true →
    Selected (f.answers.selIn.getD cached) f.ctx
  /-- The helper is called with the largest size of the ladder that the region holds. -/
  published : Selected (f.answers.selIn.getD cached) f.ctx → ∀ n, fired.2.publish = some n ↔
    n ∈ ladder ∧ f.ctx.data + n ≤ f.ctx.dataEnd ∧
      ∀ m ∈ ladder, f.ctx.data + m ≤ f.ctx.dataEnd → m ≤ n
  oneDescriptor : Selected (f.answers.selIn.getD cached) f.ctx → f.answers.outputBuf = true →
    ∃ d, fired.2.desc = some d ∧ fired.2.sent = f.answers.sendOk
  unselected : ¬ Selected (f.answers.selIn.getD cached) f.ctx →
    fired = (f.answers.selIn.getD cached,{ attach := f.answers.shmIn })
  filtered : ∀ d, fired.2.desc = some d →
    (d.flags &&& flagFiltered ≠ 0 ↔ Filtering (f.answers.selIn.getD cached))
  truncated : ∀ d, fired.2.desc = some d →
    (d.flags &&& flagTruncated ≠ 0 ↔ d.bytesWritten = 0) ∧
      (d.bytesWritten = 0 ↔ fired.2.publish = none ∨ f.answers.rc < 0)

theorem jbpfMainRaw_unselected {selState : E3SlotSel} {ctx : SlotCtx} {a : RawAnswers}
    (h : ¬ Selected (a.selIn.getD selState) ctx) :
    jbpfMainRaw selState ctx a = (a.selIn.getD selState,{ attach := a.shmIn }) := by
  have hsel : (!selects (a.selIn.getD selState) ctx) = true := by
    rw [Bool.not_eq_true',← Bool.not_eq_true,selects_iff]
    exact h
  simp only [jbpfMainRaw]
  rw [if_pos hsel]

/-- A selected fire tries to publish, also if it gets no output buffer afterwards. -/
theorem jbpfMainRaw_publish {selState : E3SlotSel} {ctx : SlotCtx} {a : RawAnswers}
    (h : Selected (a.selIn.getD selState) ctx) : (jbpfMainRaw selState ctx a).2.publish = rung ctx := by
  have hsel : selects (a.selIn.getD selState) ctx = true := (selects_iff _ _).mpr h
  cases hbuf : a.outputBuf <;> simp [jbpfMainRaw,hsel,hbuf]

theorem jbpfMainRaw_selected {selState : E3SlotSel} {ctx : SlotCtx} {a : RawAnswers}
    (h : Selected (a.selIn.getD selState) ctx) (hbuf : a.outputBuf = true) :
    ∃ d, (jbpfMainRaw selState ctx a).2.desc = some d ∧
      (jbpfMainRaw selState ctx a).2.sent = a.sendOk := by
  have hsel : selects (a.selIn.getD selState) ctx = true := (selects_iff _ _).mpr h
  simp [jbpfMainRaw,hsel,hbuf]

theorem descriptor_law {ctx : SlotCtx} {rc : Int64} {sel : E3SlotSel} {entryTsNs exitTsNs : UInt64}
    {d : E3SlotDesc}
    (hd : d = descriptor ctx entryTsNs exitTsNs (publishReturned (rung ctx) rc (filteredFlag sel))) :
    (d.flags &&& flagFiltered ≠ 0 ↔ Filtering sel) ∧
      (d.flags &&& flagTruncated ≠ 0 ↔ d.bytesWritten = 0) ∧
      (d.bytesWritten = 0 ↔ rung ctx = none ∨ rc < 0) := by
  have hclear := filteredFlag_not_truncated sel
  subst hd
  rcases publishReturned_cases (rung ctx) rc hclear with ⟨n,hrung,hrc,hres⟩ | ⟨hnone,hres⟩
  · have hpos := ladder_lt (rung_mem_ladder hrung)
    have hbytes : UInt32.ofNat n ≠ 0 := by
      intro h0
      have := congrArg UInt32.toNat h0
      rw [UInt32.toNat_ofNat',Nat.mod_eq_of_lt hpos.2,show (0 : UInt32).toNat = 0 from rfl] at this
      omega
    have hflag := filtered_iff sel 0 (.inl rfl)
    rw [UInt8.or_zero] at hflag
    simp only [descriptor,hres]
    simp [hflag,hclear,hbytes,hrung,hrc]
  · have hflag := filtered_iff sel flagTruncated (.inr rfl)
    have htrunc := truncated_of_or (filteredFlag sel)
    simp only [descriptor,hres]
    simp [hflag,htrunc,hnone]

theorem fire_law (cached : E3SlotSel) (f : Fire) :
    FireLaw cached f (jbpfMainRaw cached f.ctx f.answers) where
  onlySelected h := by
    by_contra hsel
    rw [jbpfMainRaw_unselected hsel] at h
    simp at h
  published h n := by rw [jbpfMainRaw_publish h,rung_eq_some_iff]
  oneDescriptor := jbpfMainRaw_selected
  unselected := jbpfMainRaw_unselected
  filtered d hd := (descriptor_law (jbpfMainRaw_desc hd).2).1
  truncated d hd := by
    rw [(jbpfMainRaw_desc hd).1]
    exact (descriptor_law (jbpfMainRaw_desc hd).2).2

/-- Every fire of a run follows the law for the selector received last before it or in
it, and without a selector every fire announces a descriptor. -/
structure SelectionLaw (before : List Fire) (f : Fire) (cached : E3SlotSel) (r : FireResult) :
    Prop where
  law : FireLaw (latest before) f (cached,r)
  received : f.answers.selIn.getD (latest before) = latest (before ++ [f])
  unconfigured : (∀ g ∈ before ++ [f], g.answers.selIn = none) → f.answers.outputBuf = true →
    ∃ d, r.desc = some d ∧ r.sent = f.answers.sendOk

theorem selected_default (ctx : SlotCtx) : Selected {} ctx :=
  ⟨.inl (Nat.zero_le 1),.inl rfl⟩

theorem latest_eq_default {fs : List Fire} (h : ∀ f ∈ fs, f.answers.selIn = none) :
    latest fs = {} := by
  have hnil : fs.filterMap (fun f => f.answers.selIn) = [] := by
    rw [List.filterMap_eq_nil_iff]
    exact h
  rw [latest,hnil]
  rfl

theorem selectionLaw_of_fire (before : List Fire) (f : Fire) {fired : E3SlotSel × FireResult}
    (hfired : jbpfMainRaw (latest before) f.ctx f.answers = fired) :
    SelectionLaw before f fired.1 fired.2 where
  law := hfired ▸ fire_law (latest before) f
  received := (latest_append before f).symm
  unconfigured hnone hbuf := by
    have hdefault := latest_eq_default hnone
    rw [latest_append] at hdefault
    rw [← hfired]
    apply jbpfMainRaw_selected _ hbuf
    rw [hdefault]
    exact selected_default f.ctx

/-- The selection law of whole runs from a load with zeroed maps: `before` are the fires
up to `f`, `after` those that follow, and the messages on the two control inputs arrive
in any of them. -/
theorem fires_follow_selection (before after : List Fire) (f : Fire) :
    ∃ r, (fires {} (before ++ f :: after)).2[before.length]? = some r ∧
      (fires {} (before ++ [f])).1 = latest (before ++ [f]) ∧
      SelectionLaw before f (fires {} (before ++ [f])).1 r := by
  have hfired : (fires {} (before ++ [f])).1 = (jbpfMainRaw (latest before) f.ctx f.answers).1 := by
    rw [fires_append,fires_latest]
    rfl
  refine ⟨(jbpfMainRaw (latest before) f.ctx f.answers).2,?_,fires_latest _,?_⟩
  · rw [fires_append,List.getElem?_append_right (by rw [fires_length]),fires_length,Nat.sub_self,
      fires_latest]
    rfl
  · rw [hfired]
    exact selectionLaw_of_fire before f rfl

/-! ## Whole grids -/

/-- No descriptor that is sent for this context stands for a prefix of its data. -/
def NeverPrefix (ctx : SlotCtx) : Prop :=
  ∀ (selState : E3SlotSel) (a : RawAnswers) (d : E3SlotDesc),
    (jbpfMainRaw selState ctx a).2.desc = some d → (jbpfMainRaw selState ctx a).2.sent = true →
    d.bytesWritten.toNat = ctx.dataEnd - ctx.data ∨
      (d.bytesWritten = 0 ∧ d.flags &&& flagTruncated ≠ 0)

def allSucceed : RawAnswers where
  entryTsNs := 0
  exitTsNs := 0
  shmIn := none
  selIn := none
  rc := 0
  outputBuf := true
  sendOk := true

theorem rung_eq_none_iff {ctx : SlotCtx} {size : ℕ} (hsize : ctx.dataEnd = ctx.data + size) :
    rung ctx = none ↔ size < slotBytes2P := by
  have h24 : slotBytes2P ≤ slotBytes4P := by decide
  have h48 : slotBytes4P ≤ slotBytes8P := by decide
  simp only [rung,hsize,Nat.add_le_add_iff_left]
  split_ifs <;> simp <;> omega

theorem allSucceed_desc {ctx : SlotCtx} {n : ℕ} (hrung : rung ctx = some n) :
    ∃ d, (jbpfMainRaw {} ctx allSucceed).2.desc = some d ∧
      (jbpfMainRaw {} ctx allSucceed).2.sent = true ∧ d.bytesWritten.toNat = n := by
  have hselected : Selected (allSucceed.selIn.getD {}) ctx := selected_default ctx
  obtain ⟨d,hd,hsent⟩ := jbpfMainRaw_selected hselected rfl
  refine ⟨d,hd,hsent,?_⟩
  rw [(jbpfMainRaw_desc hd).2,hrung]
  exact Nat.mod_eq_of_lt (ladder_lt (rung_mem_ladder hrung)).2

/-- A context whose data is the grid it reports is never published in part exactly when
the grid is smaller than the smallest size of the ladder or has one of its sizes. -/
theorem never_prefix_iff (ctx : SlotCtx) (hgrid : ctx.dataEnd = ctx.data + ctxGridBytes ctx) :
    NeverPrefix ctx ↔ ctxGridBytes ctx < slotBytes2P ∨ ctxGridBytes ctx ∈ ladder := by
  have hregion : ctx.dataEnd - ctx.data = ctxGridBytes ctx := by omega
  unfold NeverPrefix
  rw [hregion]
  constructor
  · intro h
    cases hrung : rung ctx with
    | none => exact .inl ((rung_eq_none_iff hgrid).mp hrung)
    | some n =>
      have hmem := rung_mem_ladder hrung
      obtain ⟨d,hd,hsent,hbytes⟩ := allSucceed_desc hrung
      rcases h {} allSucceed d hd hsent with hwhole | ⟨hzero,-⟩
      · exact .inr (by rwa [← hwhole,hbytes])
      · rw [hzero] at hbytes
        exact absurd hbytes (Nat.ne_of_lt (ladder_lt hmem).1)
  · intro h selState a d hd _
    have hlaw := descriptor_law (jbpfMainRaw_desc hd).2
    by_cases hnone : rung ctx = none ∨ a.rc < 0
    · have hzero := hlaw.2.2.mpr hnone
      exact .inr ⟨hzero,hlaw.2.1.mpr hzero⟩
    · rw [not_or] at hnone
      obtain ⟨n,hrung⟩ := Option.ne_none_iff_exists'.mp hnone.1
      obtain ⟨hmem,hle,hmax⟩ := rung_largest hgrid hrung
      have hwhole : n = ctxGridBytes ctx := by
        rcases h with hsmall | hrungs
        · exact absurd ((rung_eq_none_iff hgrid).mpr hsmall) hnone.1
        · exact Nat.le_antisymm hle (hmax _ hrungs le_rfl)
      rcases publishReturned_cases (rung ctx) a.rc (filteredFlag_not_truncated _) with
        ⟨m,hm,-,hres⟩ | ⟨hrefused,-⟩
      · left
        rw [hrung,Option.some.injEq] at hm
        rw [(jbpfMainRaw_desc hd).2,hres,← hwhole,hm]
        exact Nat.mod_eq_of_lt (ladder_lt (hm ▸ hmem)).2
      · exact absurd (not_or.mpr hnone) (not_not.mpr hrefused)

def fourPortCtx : SlotCtx where
  dataEnd := 733824
  nofPorts := 4
  nofSymbols := 14
  nofSubcarriers := 3276

theorem never_prefix_iff_four_ports : NeverPrefix fourPortCtx :=
  (never_prefix_iff fourPortCtx (by decide)).mpr (.inr (by decide))

/-- Three ports in full band: 550368 bytes, of which two ports are published. -/
def threePortCtx : SlotCtx where
  dataEnd := 550368
  nofPorts := 3
  nofSymbols := 14
  nofSubcarriers := 3276

theorem three_ports_published_as_two :
    threePortCtx.dataEnd = threePortCtx.data + ctxGridBytes threePortCtx ∧
      ¬ NeverPrefix threePortCtx := by
  refine ⟨by decide,fun h => ?_⟩
  have hrung : rung threePortCtx = some slotBytes2P := by decide
  obtain ⟨d,hd,hsent,hbytes⟩ := allSucceed_desc hrung
  rcases h {} allSucceed d hd hsent with hwhole | ⟨hzero,-⟩
  · rw [hbytes] at hwhole
    exact absurd hwhole (by decide)
  · rw [hzero] at hbytes
    exact absurd hbytes (by decide)

end Uplink
end E3Controller
