import E3Controller.Layer1Runs
import E3Controller.UplinkCodelet

/-!
# Announced antennas and written bytes

An indication states an antenna count that is computed from the reported port
count and the configured one; the helper reports how many bytes it wrote. The
first cannot exceed the second exactly when the descriptor covers the grid it
reports, or at least the antennas a configured row holds.
-/

namespace E3Controller
namespace Layer1

open LabelledRun Config SlotApi Pipeline Uplink Shm StageTrace L1Kpm E3SMLayer1

def antennaBytes (s : SlotSample) : ℕ := s.nofSymbols.toNat * s.nofSubcarriers.toNat * 4

/-- `bytes_written` covers the reported grid, or the antennas of a configured row. -/
def Covers (g : RadioGeometry) (s : SlotSample) : Prop :=
  max 1 s.nofPorts.toNat * antennaBytes s ≤ s.bytesWritten.toNat ∨
    g.nofPorts.toNat * antennaBytes s ≤ s.bytesWritten.toNat

theorem portsClamped_toNat {g : RadioGeometry} (hg : 1 ≤ g.nofPorts.toNat) (s : SlotSample) :
    (portsClamped g s).toNat = min (max 1 s.nofPorts.toNat) g.nofPorts.toNat := by
  unfold portsClamped
  by_cases hzero : s.nofPorts = 0
  · have h0 : s.nofPorts.toNat = 0 := by rw [hzero]; rfl
    have h1 : (1 : UInt16).toNat = 1 := rfl
    rw [if_pos hzero,h1]
    omega
  · have hne : s.nofPorts.toNat ≠ 0 := fun h => hzero (UInt16.toNat_inj.mp h)
    rw [if_neg hzero]
    split
    next hgt =>
      have := UInt16.lt_iff_toNat_lt.mp hgt
      omega
    next hle =>
      have : ¬ g.nofPorts.toNat < s.nofPorts.toNat := fun h => hle (UInt16.lt_iff_toNat_lt.mpr h)
      omega

theorem clamped_le_iff_covers {g : RadioGeometry} (hg : 1 ≤ g.nofPorts.toNat) (s : SlotSample) :
    (portsClamped g s).toNat * antennaBytes s ≤ s.bytesWritten.toNat ↔ Covers g s := by
  rw [portsClamped_toNat hg,← Nat.mul_min_mul_right,min_le_iff]
  rfl

variable {ω : Type} (p : Platform ω)

/-- The helper wrote every antenna that the indication states. -/
def Backed (encoding : EncodingFormat) (x : SlotSample × Emission ω) : Prop :=
  ∀ n, Announces p.codecs encoding x.2.payload n → n * antennaBytes x.1 ≤ x.1.bytesWritten.toNat

theorem emitted_of_onSample {l₀ : E3SMLayer1} {Q : SlotSample × Emission ω → Prop}
    (hQ : ∀ l s a l' es, SameConfig l₀ l → l.onSample p s a = some (l',es) → ∀ e ∈ es, Q (s,e))
    {calls : List Call} {t : Session ω} (hrun : run (call p) { sm := l₀ } calls = some t) :
    ∀ x ∈ t.emitted, Q x := by
  have hinv : SameConfig l₀ t.sm ∧ ∀ x ∈ t.emitted, Q x := by
    refine run_invariant_of_step (I := fun t => SameConfig l₀ t.sm ∧ ∀ x ∈ t.emitted, Q x) ?_
      ⟨⟨rfl,rfl,rfl,rfl⟩,fun x hx => by cases hx⟩ hrun
    rintro t c t' ⟨hconfig,hemitted⟩ ht
    cases c with
    | start ok =>
      cases ht
      exact ⟨hconfig.trans (start_sameConfig t.sm ok),hemitted⟩
    | stop =>
      cases ht
      exact ⟨hconfig.trans ⟨rfl,rfl,rfl,rfl⟩,hemitted⟩
    | sample s a =>
      obtain ⟨sm,es,hsample,rfl⟩ := call_sample p ht
      refine ⟨(hconfig.trans (afterCheck_sameConfig t.sm s)).frame (onSample_frame p hsample),?_⟩
      intro x hx
      rcases List.mem_append.mp hx with hx | hx
      · exact hemitted x hx
      · obtain ⟨e,he,rfl⟩ := List.mem_map.mp hx
        exact hQ t.sm s a sm es hconfig hsample e he
  exact hinv.2

theorem onSample_announces {l₀ l l' : E3SMLayer1} {s : SlotSample} {a : Answers}
    {es : List (Emission ω)} (hconfig : SameConfig l₀ l) (h : l.onSample p s a = some (l',es)) :
    ∀ e ∈ es, ∀ n, Announces p.codecs l₀.encoding e.payload n →
      n = (portsClamped l₀.geom s).toNat := by
  intro e he n hn
  rcases onSample_emissions p h with rfl | ⟨-,l₁,payload,hframe,henc,rfl⟩
  · cases he
  · have hsame := (hconfig.trans (afterCheck_sameConfig l s)).frame hframe
    obtain ⟨dapp,-,rfl⟩ := List.mem_map.mp he
    rw [← hsame.geom]
    rw [← hsame.encoding] at hn
    exact encodeIndication_announces p henc hn

/-- Some ladder size fits into the grid and is the whole grid, or holds as many
antennas as a configured row. -/
def LadderFits (g : RadioGeometry) (ctx : SlotCtx) : Prop :=
  ∃ n ∈ ladder, n ≤ ctxGridBytes ctx ∧
    (n = ctxGridBytes ctx ∨ g.nofPorts.toNat * ctxAntennaBytes ctx ≤ n)

/-- Of the descriptors that the codelet sends for a whole grid, those of the right
sizes cover what they report. -/
theorem sent_covers_iff {β : Type} (g : RadioGeometry) {sel : E3SlotSel} {ctx : SlotCtx}
    {a : FireAnswers} {d : E3SlotDesc} (hgrid : ctx.dataEnd = ctx.data + ctxGridBytes ctx)
    (hd : (jbpfMain sel ctx a).2.desc = some d) (hflags : d.flags &&& flagTruncated = 0)
    (entry : QueueEntry β) : Covers g (dispatchSample entry d) ↔ LadderFits g ctx := by
  obtain ⟨flags,hclear,hdesc⟩ := jbpfMain_desc hd
  obtain ⟨-,n,hrung,hbytes⟩ := descriptor_published hclear hdesc hflags
  obtain ⟨hmem,hle,hmax⟩ := rung_largest hgrid hrung
  obtain ⟨hpos,hlt⟩ := ladder_lt hmem
  have hn : d.bytesWritten.toNat = n := by
    rw [hbytes,UInt32.toNat_ofNat',Nat.mod_eq_of_lt hlt]
  have hant : antennaBytes (dispatchSample entry d) = ctxAntennaBytes ctx := by
    rw [hdesc]
    rfl
  have hports : d.nofPorts = ctx.nofPorts := by
    rw [hdesc]
    rfl
  have hone : max 1 ctx.nofPorts.toNat = ctx.nofPorts.toNat := by
    have hne : ctx.nofPorts.toNat ≠ 0 := by
      intro h0
      rw [ctxGridBytes,h0,Nat.zero_mul] at hle
      omega
    omega
  unfold Covers LadderFits
  rw [hant]
  simp only [dispatchSample,hn,hports,hone]
  change ctxGridBytes ctx ≤ n ∨ _ ↔ _
  constructor
  · rintro (hcov | hcov)
    · exact ⟨n,hmem,hle,.inl (Nat.le_antisymm hle hcov)⟩
    · exact ⟨n,hmem,hle,.inr hcov⟩
  · rintro ⟨m,hm,hmle,rfl | hcov⟩
    · exact .inl (hmax _ hm hmle)
    · exact .inr (hcov.trans (hmax m hm hmle))

def PublishedFor (ctx : SlotCtx) (s : SlotSample) : Prop :=
  ctx.dataEnd = ctx.data + ctxGridBytes ctx ∧
    ∃ (β : Type) (entry : QueueEntry β) (sel : E3SlotSel) (a : FireAnswers) (d : E3SlotDesc),
      (jbpfMain sel ctx a).2.desc = some d ∧ d.flags &&& flagTruncated = 0 ∧ s = dispatchSample entry d

/-- For a slot that the codelet published the sizes of the ladder decide, for any other
descriptor what it says itself. -/
structure Fits (g : RadioGeometry) (s : SlotSample) : Prop where
  published : ∀ ctx, PublishedFor ctx s → LadderFits g ctx
  other : (∀ ctx, ¬ PublishedFor ctx s) → Covers g s

theorem fits_iff_covers (g : RadioGeometry) (s : SlotSample) : Fits g s ↔ Covers g s := by
  have hsent : ∀ ctx, PublishedFor ctx s → (Covers g s ↔ LadderFits g ctx) := by
    rintro ctx ⟨hgrid,β,entry,sel,a,d,hd,hflags,rfl⟩
    exact sent_covers_iff g hgrid hd hflags entry
  constructor
  · intro h
    by_cases hpublished : ∃ ctx, PublishedFor ctx s
    · obtain ⟨ctx,hctx⟩ := hpublished
      exact (hsent ctx hctx).mpr (h.published ctx hctx)
    · exact h.other (not_exists.mp hpublished)
  · intro h
    exact ⟨fun ctx hctx => (hsent ctx hctx).mp h,fun _ => h⟩

/-- In every run the indications are backed by written bytes exactly when those that state a count
are about slots that fit: for what the codelet publishes that depends on the ladder, for other
descriptors on whether they cover their grid or a configured row. -/
theorem backed_iff_covers (config : ControllerConfig) (hg : config.radio.validate = .ok ())
    (shmWriter : ShmIqWriter) (trace : Trace) (calls : List Call) (t : Session ω)
    (hrun : run (call p) (Session.fresh config shmWriter trace) calls = some t) :
    (∀ x ∈ t.emitted, Backed p config.e3.encoding x) ↔
      ∀ x ∈ t.emitted, (∃ n, Announces p.codecs config.e3.encoding x.2.payload n) →
        Fits config.radio x.1 := by
  have hpos := (RadioGeometry.inRange_of_validate hg).ports_pos
  have hcount : ∀ x ∈ t.emitted, ∀ n, Announces p.codecs config.e3.encoding x.2.payload n →
      n = (portsClamped config.radio x.1).toNat :=
    emitted_of_onSample p (fun l s a l' es hc hs e he => onSample_announces p hc hs e he) hrun
  simp only [fits_iff_covers]
  constructor
  · rintro h x hx ⟨n,hn⟩
    have hle := h x hx n hn
    rw [hcount x hx n hn] at hle
    exact (clamped_le_iff_covers hpos x.1).mp hle
  · intro h x hx n hn
    rw [hcount x hx n hn]
    exact (clamped_le_iff_covers hpos x.1).mpr (h x hx ⟨n,hn⟩)

theorem backed_iff_covers_default :
    ∃ t, run (call taggedPlatform) (Session.fresh {} gnbWriter {})
      [.start true,.sample (fullBandSample 4) oneSubscriber] = some t ∧ t.emitted.length = 1 ∧
        ∀ x ∈ t.emitted, Backed taggedPlatform .asn1 x := by
  obtain ⟨t,hrun,hlen,hcov⟩ : ∃ t, run (call taggedPlatform) (Session.fresh {} gnbWriter {})
      [.start true,.sample (fullBandSample 4) oneSubscriber] = some t ∧ t.emitted.length = 1 ∧
        ∀ x ∈ t.emitted.map Prod.fst, Covers {} x :=
    ⟨_,rfl,rfl,fun x hx => by cases List.mem_singleton.mp hx; exact .inl (by decide)⟩
  refine ⟨t,hrun,hlen,?_⟩
  have hiff := backed_iff_covers taggedPlatform {} (by decide) gnbWriter {} _ t hrun
  exact hiff.mpr fun x hx _ => (fits_iff_covers {} x.1).mpr (hcov x.1 (List.mem_map_of_mem hx))

def sixPortCtx : SlotCtx where
  dataEnd := 1100736
  nofPorts := 6
  nofSymbols := 14
  nofSubcarriers := 3276

def wroteFirstRow : FireAnswers where
  entryTsNs := 0
  exitTsNs := 0
  shmIn := none
  selIn := none
  reply := .wrote 0 0
  outputBuf := true
  sendOk := true

def sixPortDesc : E3SlotDesc where
  bytesWritten := 733824
  nofPorts := 6
  nofSymbols := 14
  nofSubcarriers := 3276

def sixPortConfig : ControllerConfig where
  radio := { nofPorts := 6 }

theorem six_announced_four_written :
    (jbpfMain {} sixPortCtx wroteFirstRow).2.desc = some sixPortDesc ∧
    ∃ t x, run (call taggedPlatform) (Session.fresh sixPortConfig gnbWriter {})
      [.start true,.sample (dispatchSample (⟨0,0,0,0⟩ : QueueEntry ℕ) sixPortDesc) oneSubscriber] = some t ∧
        x ∈ t.emitted ∧ ¬ Backed taggedPlatform .asn1 x := by
  refine ⟨by decide +kernel,_,_,rfl,List.mem_cons_self ..,fun h => ?_⟩
  have hsix := h 6 ⟨_,rfl,rfl⟩
  exact absurd hsix (by decide)

end Layer1
end E3Controller
