import E3Controller.Layer1Runs

/-!
# Drop accounting over whole runs

Each call of `on_sample` ends in a drop with one named reason or in one message per
subscriber. The publish counter is raised before the slot is encoded, so a slot the
encoder refuses is counted as published and as dropped.
-/

namespace E3Controller
namespace Layer1

open LabelledRun Config SlotApi Shm StageTrace L1Kpm CString E3SMLayer1

def Drop.all : List Drop :=
  [.notRunning,.slotFiltered,.geometryMismatch,.noIq,.blobTooSmall,.ranPublishedNothing,
    .noSubscribers,.encodeFailed,.emitFailed]

/-- All counters but `emit_failed`, the one that may overlap with a publication. -/
def Drop.exclusive : List Drop := Drop.all.filter (· ≠ .emitFailed)

namespace E3SMLayer1

def sumDrops (l : E3SMLayer1) (ds : List Drop) : UInt64 := ds.foldl (fun t d => t + l.drops d) 0

def totalDrops (l : E3SMLayer1) : UInt64 := l.sumDrops Drop.all

def publishedSlots (l : E3SMLayer1) : UInt64 := l.slotPublishSeq

theorem totalDrops_eq (l : E3SMLayer1) :
    l.totalDrops = l.sumDrops Drop.exclusive + l.drops .emitFailed := rfl

/-- A sample that passes every check, and that the APER encoder will refuse. -/
def unencodable (l : E3SMLayer1) (s : SlotSample) (a : Answers) : Bool :=
  (l.dropReason s a.subscribers.ids).1.isNone && l.encoding = .asn1 &&
    !(a.alloc.shmRef && 1 ≤ l.shmName.length && l.shmName.length ≤ 63)

theorem unencodable_iff (l : E3SMLayer1) (s : SlotSample) (a : Answers) :
    l.unencodable s a = true ↔ (l.dropReason s a.subscribers.ids).1 = none ∧ l.encoding = .asn1 ∧
      ¬ (a.alloc.shmRef = true ∧ 1 ≤ l.shmName.length ∧ l.shmName.length ≤ 63) := by
  simp only [unencodable,Bool.and_eq_true,Option.isNone_iff_eq_none,decide_eq_true_eq,
    Bool.not_eq_true',Bool.eq_false_iff,ne_eq,and_assoc]

structure SameCounters (l l' : E3SMLayer1) : Prop where
  drops : l'.drops = l.drops
  slotPublishSeq : l'.slotPublishSeq = l.slotPublishSeq

theorem checkGeometry_latches (l : E3SMLayer1) (s : SlotSample) :
    ∃ checked ok, l.checkGeometry s = { l with geometryChecked := checked, geometryOk := ok } := by
  unfold checkGeometry
  split_ifs
  · exact ⟨l.geometryChecked,l.geometryOk,rfl⟩
  · exact ⟨true,l.geometryOk,rfl⟩
  · exact ⟨true,false,rfl⟩

theorem checkPayload_warnings (l : E3SMLayer1) (s : SlotSample) :
    ∃ truncated mode, (l.checkPayload s).2 =
      { l with truncatedWarned := truncated, writerModeWarned := mode } := by
  unfold checkPayload
  split_ifs
  · exact ⟨l.truncatedWarned,true,rfl⟩
  · exact ⟨l.truncatedWarned,l.writerModeWarned,rfl⟩
  · exact ⟨l.truncatedWarned,l.writerModeWarned,rfl⟩
  · exact ⟨true,l.writerModeWarned,rfl⟩
  · exact ⟨l.truncatedWarned,l.writerModeWarned,rfl⟩

theorem dropReason_latches (l : E3SMLayer1) (s : SlotSample) (subscribers : List UInt32) :
    ∃ checked ok truncated mode, (l.dropReason s subscribers).2 = { l with
      geometryChecked := checked
      geometryOk := ok
      truncatedWarned := truncated
      writerModeWarned := mode } := by
  obtain ⟨checked,ok,hgeom⟩ := checkGeometry_latches l s
  obtain ⟨truncated,mode,hpay⟩ := checkPayload_warnings (l.checkGeometry s) s
  rw [hgeom] at hpay
  unfold dropReason
  dsimp only
  split
  · exact ⟨_,_,_,_,rfl⟩
  split
  · exact ⟨_,_,_,_,rfl⟩
  split
  · exact ⟨checked,ok,_,_,hgeom⟩
  split
  next d l' hp =>
    rw [hgeom] at hp
    rw [hp] at hpay
    exact ⟨checked,ok,truncated,mode,hpay⟩
  next l' hp =>
    rw [hgeom] at hp
    rw [hp] at hpay
    split <;> exact ⟨checked,ok,truncated,mode,hpay⟩

theorem dropReason_counters (l : E3SMLayer1) (s : SlotSample) (subscribers : List UInt32) :
    SameCounters l (l.dropReason s subscribers).2 := by
  obtain ⟨checked,ok,truncated,mode,h⟩ := dropReason_latches l s subscribers
  rw [h]
  exact ⟨rfl,rfl⟩

theorem dropReason_early {l : E3SMLayer1} {s : SlotSample} {subscribers : List UInt32} {d : Drop}
    (h : (l.dropReason s subscribers).1 = some d) : d ≠ .encodeFailed ∧ d ≠ .emitFailed := by
  have hpay : ((l.checkGeometry s).checkPayload s).1 ≠ some .encodeFailed ∧
      ((l.checkGeometry s).checkPayload s).1 ≠ some .emitFailed := by
    unfold checkPayload
    split_ifs <;> exact ⟨by simp,by simp⟩
  unfold dropReason at h
  dsimp only at h
  split at h
  · cases h; exact ⟨by decide,by decide⟩
  split at h
  · cases h; exact ⟨by decide,by decide⟩
  split at h
  · cases h; exact ⟨by decide,by decide⟩
  split at h
  next d' l' hp =>
    cases h
    rw [hp] at hpay
    exact ⟨fun he => hpay.1 (congrArg some he),fun he => hpay.2 (congrArg some he)⟩
  next l' hp =>
    split at h
    · cases h; exact ⟨by decide,by decide⟩
    · cases h

section Cases

variable {ω : Type} (p : Platform ω)

/-- The encoder returns `false` exactly for APER with a failed allocation or a name
outside of the grammar. -/
theorem encodeIndication_refused_iff (l : E3SMLayer1) (s : SlotSample) (row : UInt8 × UInt32)
    (alloc : AllocAnswers) :
    l.encodeIndication p s row alloc = some none ↔ l.encoding = .asn1 ∧
      ¬ (alloc.shmRef = true ∧ 1 ≤ l.shmName.length ∧ l.shmName.length ≤ 63) := by
  unfold encodeIndication
  cases henc : l.encoding with
  | json => simp
  | asn1 =>
    simp only [Option.some.injEq,true_and,encodeIqIndicationAper]
    by_cases hal : alloc.shmRef
    · have hgram := aperIndication_grammar_iff s.gnbTsNs s.sfn s.slotId l.shmName row.1 row.2
        (portsClamped l.geom s) alloc.nRxAnt
      have hsome := p.codecs.aperEncode_isSome (aperIndication s.gnbTsNs s.sfn s.slotId l.shmName
        row.1 row.2 (portsClamped l.geom s) alloc.nRxAnt)
      rw [if_pos hal,← Option.not_isSome_iff_eq_none,hsome,hgram]
      simp [hal]
    · simp [hal]

theorem fanOut_counters (payload : ω) (emitOk : UInt32 → Bool) (l : E3SMLayer1)
    (dapps : List UInt32) :
    (∀ d, d ≠ .emitFailed → (fanOut payload emitOk l dapps).1.drops d = l.drops d) ∧
      (fanOut payload emitOk l dapps).1.slotPublishSeq = l.slotPublishSeq := by
  induction dapps generalizing l with
  | nil => exact ⟨fun _ _ => rfl,rfl⟩
  | cons dapp dapps ih =>
    rw [fanOut]
    by_cases hok : emitOk dapp
    · simpa only [hok,if_true] using ih l
    · obtain ⟨hdrops,hseq⟩ := ih (l.noteDrop .emitFailed)
      simp only [hok,Bool.false_eq_true,if_false]
      refine ⟨fun d hd => ?_,hseq⟩
      rw [hdrops d hd]
      exact Function.update_of_ne hd _ _

theorem publishSlot_cases {l l' : E3SMLayer1} {s : SlotSample} {a : Answers}
    {es : List (Emission ω)} (h : l.publishSlot p s a = some (l',es)) :
    l'.slotPublishSeq = l.slotPublishSeq + 1 ∧
    ((l.encodeIndication p s (l.placeRow p s).1 a.alloc = some none ∧ es = [] ∧
        l'.drops = Function.update l.drops .encodeFailed (l.drops .encodeFailed + 1)) ∨
      ∃ payload, l.encodeIndication p s (l.placeRow p s).1 a.alloc = some (some payload) ∧
        es = emissions payload a ∧ ∀ d, d ≠ .emitFailed → l'.drops d = l.drops d) := by
  unfold publishSlot at h
  cases he : l.encodeIndication p s (l.placeRow p s).1 a.alloc with
  | none => simp [he] at h
  | some result =>
    cases result with
    | none =>
      simp only [he,Option.some.injEq,Prod.mk.injEq] at h
      obtain ⟨rfl,rfl⟩ := h
      exact ⟨rfl,.inl ⟨rfl,rfl,rfl⟩⟩
    | some payload =>
      simp only [he,Option.some.injEq,Prod.mk.injEq] at h
      obtain ⟨rfl,rfl⟩ := h
      have hcount := fanOut_counters payload a.emitOk
      exact ⟨(hcount _ _).2,.inr ⟨payload,rfl,fanOut_emissions payload a.emitOk _ _,
        (hcount _ _).1⟩⟩

theorem onSample_cases {l l' : E3SMLayer1} {s : SlotSample} {a : Answers} {es : List (Emission ω)}
    (h : l.onSample p s a = some (l',es)) :
    (∃ d, d ≠ .emitFailed ∧ l.unencodable s a = false ∧ es = [] ∧
      l'.drops = Function.update l.drops d (l.drops d + 1) ∧ l'.slotPublishSeq = l.slotPublishSeq) ∨
    (l.unencodable s a = true ∧ es = [] ∧
      l'.drops = Function.update l.drops .encodeFailed (l.drops .encodeFailed + 1) ∧
      l'.slotPublishSeq = l.slotPublishSeq + 1) ∨
    (l.unencodable s a = false ∧ (∃ payload, es = emissions payload a) ∧
      (∀ d, d ≠ .emitFailed → l'.drops d = l.drops d) ∧
      l'.slotPublishSeq = l.slotPublishSeq + 1) := by
  have hcount := dropReason_counters l s a.subscribers.ids
  have hframe := dropReason_frame l s a.subscribers.ids
  unfold onSample at h
  cases hadm : l.dropReason s a.subscribers.ids with
  | mk reason l₁ =>
    rw [hadm] at h hcount hframe
    cases reason with
    | some d =>
      simp only [Option.some.injEq,Prod.mk.injEq] at h
      obtain ⟨rfl,rfl⟩ := h
      have hearly := dropReason_early (congrArg Prod.fst hadm)
      refine .inl ⟨d,hearly.2,by simp [unencodable,hadm],rfl,?_,hcount.slotPublishSeq⟩
      rw [noteDrop,hcount.drops]
    | none =>
      have hconf := (afterCheck_sameConfig l s).frame hframe
      have hunenc : l.unencodable s a = true ↔
          l₁.encodeIndication p s (l₁.placeRow p s).1 a.alloc = some none := by
        rw [encodeIndication_refused_iff,hconf.encoding,hconf.shmName,unencodable_iff,hadm]
        exact and_iff_right rfl
      obtain ⟨hseq,hcase⟩ := publishSlot_cases p h
      rw [hcount.slotPublishSeq] at hseq
      rcases hcase with ⟨henc,hes,hdrops⟩ | ⟨payload,henc,hes,hdrops⟩
      · rw [hcount.drops] at hdrops
        exact .inr (.inl ⟨hunenc.mpr henc,hes,hdrops,hseq⟩)
      · rw [hcount.drops] at hdrops
        have hnot : l.unencodable s a = false := by
          rw [Bool.eq_false_iff]
          intro hu
          rw [hunenc.mp hu] at henc
          cases henc
        exact .inr (.inr ⟨hnot,⟨payload,hes⟩,hdrops,hseq⟩)

end Cases
end E3SMLayer1

/-- A session with the number of `on_sample` calls and, of these, the number of
unencodable ones. -/
structure Ledger (ω : Type) where
  session : Session ω
  calls : ℕ := 0
  unencodable : ℕ := 0

section Runs

variable {ω : Type} (p : Platform ω)

def audit (t : Ledger ω) (c : Call) : Option (Ledger ω) :=
  match call p t.session c with
  | none => none
  | some session =>
    match c with
    | .sample s a => some {
        session := session
        calls := t.calls + 1
        unencodable := t.unencodable + if t.session.sm.unencodable s a then 1 else 0 }
    | _ => some { t with session := session }

def Ledger.fresh (config : ControllerConfig) (shmWriter : ShmIqWriter) (trace : Trace) : Ledger ω where
  session := Session.fresh config shmWriter trace

/-- The counters as exact numbers, before they are reduced to 64 bits. -/
structure Tallied (l : E3SMLayer1) (calls unencodable : ℕ) (tally : Drop → ℕ) (published : ℕ) :
    Prop where
  drops : ∀ d, d ≠ .emitFailed → l.drops d = UInt64.ofNat (tally d)
  seq : l.slotPublishSeq = UInt64.ofNat published
  total : published + (Drop.exclusive.map tally).sum = calls + unencodable
  unencodable_le : unencodable ≤ calls
  tally_le : ∀ d, tally d ≤ calls
  published_le : published ≤ calls

theorem sum_update_exclusive (tally : Drop → ℕ) {d : Drop} (hd : d ≠ .emitFailed) :
    (Drop.exclusive.map (Function.update tally d (tally d + 1))).sum =
      (Drop.exclusive.map tally).sum + 1 := by
  cases d <;> first | exact absurd rfl hd | (simp [Drop.exclusive,Drop.all,Function.update]; omega)

theorem Tallied.dropped {l l' : E3SMLayer1} {calls unencodable published : ℕ} {tally : Drop → ℕ}
    (h : Tallied l calls unencodable tally published) {d : Drop} (hd : d ≠ .emitFailed)
    (hdrops : l'.drops = Function.update l.drops d (l.drops d + 1)) {more : ℕ} (hmore : more ≤ 1)
    (hseq : l'.slotPublishSeq = UInt64.ofNat (published + more)) :
    Tallied l' (calls + 1) (unencodable + more) (Function.update tally d (tally d + 1))
      (published + more) where
  drops e he := by
    rw [hdrops]
    by_cases heq : e = d
    · subst heq
      rw [Function.update_self,Function.update_self,h.drops e he,UInt64.ofNat_add]
      rfl
    · rw [Function.update_of_ne heq,Function.update_of_ne heq,h.drops e he]
  seq := hseq
  total := by
    have htotal := h.total
    rw [sum_update_exclusive tally hd]
    omega
  unencodable_le := by
    have hle := h.unencodable_le
    omega
  tally_le e := by
    have hle := h.tally_le e
    by_cases heq : e = d
    · subst heq
      rw [Function.update_self]
      omega
    · rw [Function.update_of_ne heq]
      omega
  published_le := by
    have hle := h.published_le
    omega

theorem sample_tallied {l l' : E3SMLayer1} {s : SlotSample} {a : Answers} {es : List (Emission ω)}
    {calls unencodable published : ℕ} {tally : Drop → ℕ}
    (h : Tallied l calls unencodable tally published) (hsample : l.onSample p s a = some (l',es)) :
    ∃ tally' published', Tallied l' (calls + 1)
      (unencodable + if l.unencodable s a then 1 else 0) tally' published' := by
  have hsucc : l.slotPublishSeq + 1 = UInt64.ofNat (published + 1) := by
    rw [h.seq,UInt64.ofNat_add]
    rfl
  rcases onSample_cases p hsample with ⟨d,hd,hu,-,hdrops,hseq⟩ | ⟨hu,-,hdrops,hseq⟩ |
    ⟨hu,-,hdrops,hseq⟩
  · rw [hu]
    exact ⟨_,_,h.dropped hd hdrops (Nat.zero_le 1) (hseq.trans h.seq)⟩
  · rw [hu]
    exact ⟨_,_,h.dropped (by decide) hdrops (Nat.le_refl 1) (hseq.trans hsucc)⟩
  · rw [hu]
    refine ⟨tally,published + 1,fun d hd => (hdrops d hd).trans (h.drops d hd),hseq.trans hsucc,?_,
      ?_,fun d => ?_,?_⟩
    · have htotal := h.total
      simp only [Bool.false_eq_true,if_false]
      omega
    · have hle := h.unencodable_le
      simp only [Bool.false_eq_true,if_false]
      omega
    · have hle := h.tally_le d
      omega
    · have hle := h.published_le
      omega

def Balanced (t : Ledger ω) : Prop :=
  ∃ tally published, Tallied t.session.sm t.calls t.unencodable tally published

theorem fresh_balanced (config : ControllerConfig) (shmWriter : ShmIqWriter) (trace : Trace) :
    Balanced (Ledger.fresh config shmWriter trace : Ledger ω) :=
  ⟨fun _ => 0,0,fun _ _ => rfl,rfl,rfl,le_refl 0,fun _ => le_refl 0,le_refl 0⟩

theorem audit_balanced {t t' : Ledger ω} {c : Call} (h : Balanced t) (ht : audit p t c = some t') :
    Balanced t' := by
  obtain ⟨tally,published,htally⟩ := h
  -- Starting and stopping touch no counter.
  have hkeep : ∀ sm : E3SMLayer1, sm.drops = t.session.sm.drops →
      sm.slotPublishSeq = t.session.sm.slotPublishSeq →
      Tallied sm t.calls t.unencodable tally published := by
    intro sm hdrops hseq
    refine ⟨fun d hd => ?_,hseq.trans htally.seq,htally.total,htally.unencodable_le,
      htally.tally_le,htally.published_le⟩
    rw [hdrops]
    exact htally.drops d hd
  unfold audit at ht
  cases c with
  | start ok =>
    cases ht
    refine ⟨tally,published,hkeep _ ?_ ?_⟩
    · unfold E3SMLayer1.start
      split_ifs <;> rfl
    · unfold E3SMLayer1.start
      split_ifs <;> rfl
  | stop =>
    cases ht
    exact ⟨tally,published,hkeep _ rfl rfl⟩
  | sample s a =>
    split at ht
    · cases ht
    next session hcall =>
      cases ht
      obtain ⟨sm,es,hsample,rfl⟩ := call_sample p hcall
      exact sample_tallied p htally hsample

theorem run_balanced (config : ControllerConfig) (shmWriter : ShmIqWriter) (trace : Trace)
    {calls : List Call} {t : Ledger ω}
    (hrun : run (audit p) (Ledger.fresh config shmWriter trace) calls = some t) : Balanced t :=
  run_invariant_of_step (fun _ _ _ hi ht => audit_balanced p hi ht)
    (fresh_balanced config shmWriter trace) hrun

theorem sumDrops_eq {l : E3SMLayer1} {tally : Drop → ℕ} {ds : List Drop}
    (h : ∀ d ∈ ds, l.drops d = UInt64.ofNat (tally d)) :
    l.sumDrops ds = UInt64.ofNat (ds.map tally).sum := by
  have hacc : ∀ n, ds.foldl (fun t d => t + l.drops d) (UInt64.ofNat n) =
      UInt64.ofNat (n + (ds.map tally).sum) := by
    induction ds with
    | nil => exact fun _ => rfl
    | cons d ds ih =>
      intro n
      rw [List.foldl_cons,h d (by simp),← UInt64.ofNat_add,ih fun e he => h e (by simp [he]),
        List.map_cons,List.sum_cons,Nat.add_assoc]
  simpa [sumDrops] using hacc 0

theorem mem_exclusive {d : Drop} (h : d ∈ Drop.exclusive) : d ≠ .emitFailed := by
  simpa using List.of_mem_filter h

/-- What one call does: one attempt per subscriber and no counter but `emit_failed`
raised, or nothing emitted and exactly one counter raised by one. -/
def CallAccounted (l l' : E3SMLayer1) (a : Answers) (es : List (Emission ω)) : Prop :=
  (es.map Emission.dapp = a.subscribers.ids ∧ ∀ d, d ≠ .emitFailed → l'.drops d = l.drops d) ∨
    (es = [] ∧ ∃ d, l'.drops = Function.update l.drops d (l.drops d + 1))

theorem onSample_accounted {l l' : E3SMLayer1} {s : SlotSample} {a : Answers}
    {es : List (Emission ω)} (h : l.onSample p s a = some (l',es)) : CallAccounted l l' a es := by
  rcases onSample_cases p h with ⟨d,-,-,hes,hdrops,-⟩ | ⟨-,hes,hdrops,-⟩ |
    ⟨-,⟨payload,hes⟩,hdrops,-⟩
  · exact .inr ⟨hes,d,hdrops⟩
  · exact .inr ⟨hes,_,hdrops⟩
  · refine .inl ⟨?_,hdrops⟩
    rw [hes,emissions,List.map_map]
    exact List.map_id _

/-- The counters add up to the number of calls: in the 64-bit arithmetic of the code,
and as numbers while fewer than `2^64` calls were made. -/
structure Conserved (t : Ledger ω) : Prop where
  wrapped : t.session.sm.publishedSlots + t.session.sm.sumDrops Drop.exclusive =
    UInt64.ofNat t.calls
  exact : t.calls < 2 ^ 64 → t.session.sm.publishedSlots.toNat +
    (Drop.exclusive.map fun d => (t.session.sm.drops d).toNat).sum = t.calls

theorem Conserved.arrivals {t : Ledger ω} (h : Conserved t) :
    t.session.sm.totalDrops + t.session.sm.publishedSlots =
      UInt64.ofNat t.calls + t.session.sm.drops .emitFailed := by
  rw [totalDrops_eq,UInt64.add_comm,← UInt64.add_assoc,h.wrapped]

theorem Tallied.conserved {t : Ledger ω} {tally : Drop → ℕ} {published : ℕ}
    (h : Tallied t.session.sm t.calls t.unencodable tally published) (hu : t.unencodable = 0) :
    Conserved t where
  wrapped := by
    rw [publishedSlots,h.seq,sumDrops_eq fun d hd => h.drops d (mem_exclusive hd),
      ← UInt64.ofNat_add,h.total,hu,Nat.add_zero]
  exact hlt := by
    have htotal := h.total
    have hpub := h.published_le
    have hdrops : Drop.exclusive.map (fun d => (t.session.sm.drops d).toNat) =
        Drop.exclusive.map tally := by
      refine List.map_congr_left fun d hd => ?_
      have hle := h.tally_le d
      rw [h.drops d (mem_exclusive hd),UInt64.toNat_ofNat',Nat.mod_eq_of_lt (by omega)]
    rw [publishedSlots,hdrops,h.seq,UInt64.toNat_ofNat',Nat.mod_eq_of_lt (by omega)]
    omega

/-- In every run every call is accounted for, and the counters add up to the number of
calls exactly if no slot that passed every check was one the encoder refuses. -/
theorem slots_conserved_iff (config : ControllerConfig) (shmWriter : ShmIqWriter) (trace : Trace)
    (calls : List Call) (t : Ledger ω)
    (hrun : run (audit p) (Ledger.fresh config shmWriter trace) calls = some t) :
    (∀ s a l' es, t.session.sm.onSample p s a = some (l',es) →
      CallAccounted t.session.sm l' a es) ∧
    (t.unencodable = 0 → Conserved t) ∧
    (t.calls < 2 ^ 64 → Conserved t → t.unencodable = 0) := by
  obtain ⟨tally,published,htally⟩ := run_balanced p config shmWriter trace hrun
  refine ⟨fun s a l' es h => onSample_accounted p h,htally.conserved,fun hlt hcons => ?_⟩
  have hsum := hcons.wrapped
  have hle := htally.unencodable_le
  rw [publishedSlots,htally.seq,sumDrops_eq fun d hd => htally.drops d (mem_exclusive hd),
    ← UInt64.ofNat_add,htally.total] at hsum
  have hnat := congrArg UInt64.toNat hsum
  rw [UInt64.toNat_ofNat',UInt64.toNat_ofNat',Nat.mod_eq_of_lt (a := t.calls) hlt] at hnat
  omega

end Runs

def firstSlotCalls : List Call := [.start true,.sample (fullBandSample 4) oneSubscriber]

theorem slots_conserved_iff_default :
    ∃ t, run (audit taggedPlatform) (Ledger.fresh {} gnbWriter {}) firstSlotCalls = some t ∧
      t.calls = 1 ∧ t.unencodable = 0 ∧ Conserved t := by
  obtain ⟨t,hrun,hcalls,hu⟩ : ∃ t, run (audit taggedPlatform) (Ledger.fresh {} gnbWriter {})
      firstSlotCalls = some t ∧ t.calls = 1 ∧ t.unencodable = 0 := ⟨_,rfl,rfl,rfl⟩
  exact ⟨t,hrun,hcalls,hu,(slots_conserved_iff taggedPlatform {} gnbWriter {} _ t hrun).2.1 hu⟩

def longNamedConfig : ControllerConfig where
  shm := { name := List.replicate 64 97 }

/-- The encoder refuses its slots: one call, one published slot and one drop. -/
theorem refused_slot_counted_twice :
    ∃ t, run (audit taggedPlatform) (Ledger.fresh longNamedConfig gnbWriter {}) firstSlotCalls =
      some t ∧ t.calls = 1 ∧ t.session.sm.publishedSlots = 1 ∧
      t.session.sm.sumDrops Drop.exclusive = 1 ∧ ¬ Conserved t := by
  obtain ⟨t,hrun,hcalls,hpub,hsum⟩ : ∃ t, run (audit taggedPlatform)
      (Ledger.fresh longNamedConfig gnbWriter {}) firstSlotCalls = some t ∧ t.calls = 1 ∧
      t.session.sm.publishedSlots = 1 ∧ t.session.sm.sumDrops Drop.exclusive = 1 :=
    ⟨_,rfl,rfl,rfl,rfl⟩
  refine ⟨t,hrun,hcalls,hpub,hsum,fun hcons => ?_⟩
  have hwrapped := hcons.wrapped
  rw [hpub,hsum,hcalls] at hwrapped
  exact absurd hwrapped (by decide)

end Layer1
end E3Controller
