import E3Controller.DropAccounting
import E3Controller.MonotoneFloor

/-!
# The stage records of a worker thread

What a run stamps on the ring of its worker: one row per slot that is published or
refused by the encoder, under consecutive keys and at ascending times, whatever the
order of the times the slots carry.
-/

namespace E3Controller
namespace StageTrace

open MonotoneFloor

instance linearOrderTimes : LinearOrder UInt64 where
  le_refl := UInt64.le_refl
  le_trans _ _ _ := UInt64.le_trans
  le_antisymm _ _ := UInt64.le_antisymm
  le_total := UInt64.le_total
  lt_iff_le_not_ge a b := by
    rw [UInt64.not_le]
    exact ⟨fun h => ⟨UInt64.le_of_lt h,h⟩,And.right⟩
  toDecidableLE := inferInstance
  toDecidableLT := inferInstance
  toDecidableEq := inferInstance

namespace Trace

def stampRecord (t : Trace) (r : Record) : Trace := t.stampAt r.seq r.stage r.aux r.aux2 r.tNs

def stampAll (t : Trace) (reqs : List Record) : Trace := reqs.foldl stampRecord t

/-- For each stamp of a series, whether `clamped()` counts it. -/
def clampedStamps (t : Trace) : List Record → List Bool
  | [] => []
  | r :: rs =>
    decide ((t.stampRecord r).clamped ≠ t.clamped) :: (t.stampRecord r).clampedStamps rs

end Trace

def recorded (floor : UInt64) : List Record → List Record
  | [] => []
  | r :: rs =>
    { r with tNs := stamp (· + 1) floor r.tNs } :: recorded (stamp (· + 1) floor r.tNs) rs

def times (reqs : List Record) : List UInt64 := reqs.map Record.tNs

@[simp] theorem times_recorded (floor : UInt64) (reqs : List Record) :
    times (recorded floor reqs) = stamps (· + 1) floor (times reqs) := by
  induction reqs generalizing floor with
  | nil => rfl
  | cons r rs ih => exact congrArg (_ :: ·) (ih _)

theorem stampRecord_enabled {t : Trace} (h : t.enabled = true) (r : Record) :
    t.stampRecord r = { t with
      floorNs := stamp (· + 1) t.floorNs r.tNs
      clamped := t.clamped + if r.tNs ≤ t.floorNs then 1 else 0
      records := t.records ++ [{ r with tNs := stamp (· + 1) t.floorNs r.tNs }] } := by
  unfold Trace.stampRecord Trace.stampAt Trace.monotone stamp
  rw [if_pos h]
  split
  · rfl
  · rw [UInt64.add_zero]

theorem stampAll_enabled {t : Trace} (h : t.enabled = true) (reqs : List Record) :
    (t.stampAll reqs).records = t.records ++ recorded t.floorNs reqs ∧
    t.clampedStamps reqs = moves (· + 1) t.floorNs (times reqs) ∧
    (t.stampAll reqs).clamped = t.clamped + UInt64.ofNat ((t.clampedStamps reqs).count true) := by
  induction reqs generalizing t with
  | nil => exact ⟨(List.append_nil _).symm,rfl,(UInt64.add_zero _).symm⟩
  | cons r rs ih =>
    have hstamp := stampRecord_enabled h r
    obtain ⟨hrecords,hmoves,hclamped⟩ := ih (t := t.stampRecord r) (by rw [hstamp]; exact h)
    have hcounted : decide ((t.stampRecord r).clamped ≠ t.clamped) = decide (r.tNs ≤ t.floorNs) := by
      rw [hstamp]
      by_cases hle : r.tNs ≤ t.floorNs <;> simp [hle]
    refine ⟨?_,?_,?_⟩
    · rw [Trace.stampAll,List.foldl_cons,← Trace.stampAll,hrecords,hstamp,recorded,List.append_assoc]
      rfl
    · rw [Trace.clampedStamps,hcounted,hmoves,hstamp]
      rfl
    · rw [Trace.stampAll,List.foldl_cons,← Trace.stampAll,hclamped,Trace.clampedStamps,hcounted,
        List.count_cons,UInt64.ofNat_add,hstamp]
      by_cases hle : r.tNs ≤ t.floorNs
      · simp only [hle,if_true,decide_true,beq_self_eq_true]
        rw [UInt64.add_assoc,UInt64.add_comm 1]
        rfl
      · simp [hle]

theorem toNat_stamp_le {floor t : UInt64} {b : ℕ} (hfloor : floor.toNat ≤ b) (ht : t.toNat ≤ b)
    (hb : b + 1 < 2 ^ 64) : (stamp (· + 1) floor t).toNat ≤ b + 1 := by
  unfold stamp
  split
  · rw [UInt64.toNat_add,UInt64.toNat_one,Nat.mod_eq_of_lt (by omega)]
    omega
  · omega

/-- Each stamp moves the floor up by one, or to a time below the bound. -/
theorem toNat_stamps_le {floor : UInt64} {ts : List UInt64} {b : ℕ} (hfloor : floor.toNat ≤ b)
    (hts : ∀ t ∈ ts, t.toNat ≤ b) (hb : b + ts.length < 2 ^ 64) {u : UInt64}
    (hu : u ∈ floor :: stamps (· + 1) floor ts) : u.toNat ≤ b + ts.length := by
  induction ts generalizing floor b with
  | nil =>
    obtain rfl := List.mem_singleton.mp hu
    exact hfloor
  | cons t ts ih =>
    rw [List.length_cons] at hb ⊢
    rw [List.mem_cons] at hu
    rcases hu with rfl | hu
    · omega
    · have hstamp := toNat_stamp_le hfloor (hts t (by simp)) (by omega)
      have hts' : ∀ t' ∈ ts, t'.toNat ≤ b + 1 := by
        intro t' ht'
        have hle := hts t' (List.mem_cons_of_mem _ ht')
        omega
      have hle := ih hstamp hts' (by omega) hu
      omega

theorem room_of_bound {floor : UInt64} {ts : List UInt64} {b : ℕ} (hfloor : floor.toNat ≤ b)
    (hts : ∀ t ∈ ts, t.toNat ≤ b) (hb : b + ts.length + 1 < 2 ^ 64) : Room (· + 1) floor ts := by
  intro u hu
  have hle := toNat_stamps_le hfloor hts (by omega) hu
  rw [UInt64.lt_iff_toNat_lt,UInt64.toNat_add,UInt64.toNat_one,Nat.mod_eq_of_lt (by omega)]
  omega

/-- Half of the range is left for requests, the other half for moving them up. -/
theorem room_of_new_thread {reqs : List Record} (hbelow : ∀ req ∈ reqs, req.tNs.toNat < 2 ^ 63)
    (hfew : reqs.length < 2 ^ 63) : Room (· + 1) 0 (times reqs) := by
  have hlength : (times reqs).length = reqs.length := List.length_map _
  have hts : ∀ u ∈ times reqs, u.toNat ≤ 2 ^ 63 - 1 := by
    intro u hu
    obtain ⟨req,hreq,rfl⟩ := List.mem_map.mp hu
    have hlt := hbelow req hreq
    omega
  exact room_of_bound (Nat.zero_le _) hts (by omega)

@[simp] theorem length_recorded (floor : UInt64) (reqs : List Record) :
    (recorded floor reqs).length = reqs.length := by
  induction reqs generalizing floor with
  | nil => rfl
  | cons r rs ih => exact congrArg (· + 1) (ih _)

/-- A record is stamped as it was asked for, at its time or later. -/
theorem forall₂_recorded {floor : UInt64} {reqs : List Record}
    (h : Room (· + 1) floor (times reqs)) :
    List.Forall₂ (fun req rec => rec = { req with tNs := rec.tNs } ∧ req.tNs ≤ rec.tNs) reqs
      (recorded floor reqs) := by
  induction reqs generalizing floor with
  | nil => exact .nil
  | cons r rs ih => exact .cons ⟨rfl,le_stamp h.head r.tNs⟩ (ih h.tail)

theorem pairwise_recorded {floor : UInt64} {reqs : List Record}
    (h : Room (· + 1) floor (times reqs)) :
    (recorded floor reqs).Pairwise fun r r' => r.tNs < r'.tNs := by
  have hstamps := pairwise_stamps h
  rw [← times_recorded] at hstamps
  exact List.pairwise_map.mp hstamps

theorem moves_recorded {floor : UInt64} {reqs : List Record}
    (h : Room (· + 1) floor (times reqs)) :
    moves (· + 1) floor (times reqs) =
      List.zipWith (fun req rec => decide (rec.tNs ≠ req.tNs)) reqs (recorded floor reqs) := by
  rw [moves_eq_zipWith h,← times_recorded,times,times,List.zipWith_map]

/-- The key bound for the library is not read by a stamp. -/
theorem stampAll_bindLibe3 (t : Trace) (seq : UInt64) (reqs : List Record) :
    (t.bindLibe3 seq).stampAll reqs = (t.stampAll reqs).bindLibe3 seq := by
  induction reqs generalizing t with
  | nil => rfl
  | cons r rs ih =>
    have hone : (t.bindLibe3 seq).stampRecord r = (t.stampRecord r).bindLibe3 seq := by
      unfold Trace.stampRecord Trace.stampAt Trace.monotone Trace.bindLibe3
      dsimp only
      split_ifs <;> rfl
    rw [Trace.stampAll,List.foldl_cons,hone]
    exact ih (t.stampRecord r)

end StageTrace

namespace Layer1

open LabelledRun StageTrace MonotoneFloor E3SMLayer1

/-- A slot that got its own key: what it carried, what the environment answered, and
the size of its encoding unless the encoder refused it. -/
structure Row where
  sample : SlotSample
  answers : Answers
  encoded : Option UInt64

def Row.requests (seq : UInt64) (r : Row) : List Record :=
  let s := r.sample
  let a := r.answers
  let bytes := if s.bytesWritten > 0 then s.bytesWritten else s.iqSizeBytes
  [⟨seq,.recordBegin,(s.sfn.toUInt64 <<< 16) ||| s.slotId.toUInt64,.value s.codeletEntryTsNs,
      s.gnbTsNs⟩,
    ⟨seq,.processBegin,s.dispatchTsNs,.value bytes.toUInt64,s.codeletTsNs⟩,
    ⟨seq,.encodeE3smBegin,s.iqSizeBytes.toUInt64,.indicationMessage,a.encodeBeginNs⟩] ++
  match r.encoded with
  | some size =>
    [⟨seq,.encodeE3smDone,size,.indicationMessage,a.encodeEndNs⟩,
      ⟨seq,.waitEnter,UInt64.ofNat a.subscribers.ids.length,.value 0,a.emitTailNs⟩]
  | none => [⟨seq,.skipped,0,.skipEncode,a.encodeEndNs⟩]

/-- The rows of a thread, under the keys that follow `seq`. -/
def requestStream (seq : UInt64) : List Row → List Record
  | [] => []
  | r :: rs => r.requests (seq + 1) ++ requestStream (seq + 1) rs

section Rows

variable {ω : Type} (p : Platform ω)

/-- The size of a slot's encoding, unless the encoder refuses it. -/
def E3SMLayer1.encodedSize (l : E3SMLayer1) (s : SlotSample) (a : Answers) : Option UInt64 :=
  (l.encodeIndication p s (l.placeRow p s).1 a.alloc).join.map fun payload =>
    UInt64.ofNat (p.codecs.size payload)

def E3SMLayer1.rowOf (l : E3SMLayer1) (s : SlotSample) (a : Answers) : List Row :=
  match l.dropReason s a.subscribers.ids with
  | (some _,_) => []
  | (none,l) => [⟨s,a,l.encodedSize p s a⟩]

def Session.rowOf (t : Session ω) : Call → List Row
  | .sample s a => t.sm.rowOf p s a
  | _ => []

/-- The rows of a run: one for each sample that is not dropped early, in order. -/
def rowsIn : Session ω → List Call → List Row
  | _, [] => []
  | t, c :: cs =>
    t.rowOf p c ++
      match call p t c with
      | none => []
      | some t' => rowsIn t' cs

def Session.spawns (t : Session ω) : Call → Bool
  | .start pipelineOk => pipelineOk && !t.sm.running
  | _ => false

theorem fanOut_trace (payload : ω) (emitOk : UInt32 → Bool) (l : E3SMLayer1)
    (dapps : List UInt32) : (fanOut payload emitOk l dapps).1.trace = l.trace := by
  induction dapps generalizing l with
  | nil => rfl
  | cons dapp dapps ih =>
    rw [fanOut,ih]
    split <;> rfl

theorem publishSlot_trace {l l' : E3SMLayer1} {s : SlotSample} {a : Answers}
    {es : List (Emission ω)} (h : l.publishSlot p s a = some (l',es)) :
    ∃ seq, l'.trace = (l.trace.stampAll
      (Row.requests (l.slotPublishSeq + 1) ⟨s,a,l.encodedSize p s a⟩)).bindLibe3 seq := by
  unfold publishSlot at h
  unfold encodedSize
  cases he : l.encodeIndication p s (l.placeRow p s).1 a.alloc with
  | none => simp [he] at h
  | some result =>
    cases result with
    | none =>
      simp only [he,Option.some.injEq,Prod.mk.injEq] at h
      obtain ⟨rfl,-⟩ := h
      exact ⟨_,rfl⟩
    | some payload =>
      simp only [he,Option.some.injEq,Prod.mk.injEq] at h
      obtain ⟨rfl,-⟩ := h
      refine ⟨l.slotPublishSeq + 1,?_⟩
      dsimp only
      rw [fanOut_trace]
      exact stampAll_bindLibe3 _ _
        [⟨_,.waitEnter,UInt64.ofNat a.subscribers.ids.length,.value 0,a.emitTailNs⟩]

theorem onSample_trace {l l' : E3SMLayer1} {s : SlotSample} {a : Answers}
    {es : List (Emission ω)} (h : l.onSample p s a = some (l',es)) :
    l'.slotPublishSeq = l.slotPublishSeq + UInt64.ofNat (l.rowOf p s a).length ∧
    ∃ seq, l'.trace =
      (l.trace.stampAll (requestStream l.slotPublishSeq (l.rowOf p s a))).bindLibe3 seq := by
  obtain ⟨checked,ok,truncated,mode,hlatch⟩ := dropReason_latches l s a.subscribers.ids
  have htrace₁ : (l.dropReason s a.subscribers.ids).2.trace = l.trace := by rw [hlatch]
  have hseq₁ : (l.dropReason s a.subscribers.ids).2.slotPublishSeq = l.slotPublishSeq := by
    rw [hlatch]
  unfold onSample at h
  unfold rowOf
  cases hadm : l.dropReason s a.subscribers.ids with
  | mk reason l₁ =>
    rw [hadm] at h htrace₁ hseq₁
    cases reason with
    | some d =>
      simp only [Option.some.injEq,Prod.mk.injEq] at h
      obtain ⟨rfl,-⟩ := h
      exact ⟨hseq₁.trans (UInt64.add_zero _).symm,_,htrace₁⟩
    | none =>
      obtain ⟨seq,htrace⟩ := publishSlot_trace p h
      have hseq := (publishSlot_cases p h).1
      dsimp only at htrace₁ hseq₁
      rw [hseq₁] at hseq htrace
      rw [htrace₁] at htrace
      refine ⟨hseq,seq,htrace.trans ?_⟩
      simp only [requestStream,List.append_nil]

theorem call_trace {t t' : Session ω} {c : Call} (hthread : t.spawns c = false)
    (h : call p t c = some t') :
    t'.sm.slotPublishSeq = t.sm.slotPublishSeq + UInt64.ofNat (t.rowOf p c).length ∧
    ∃ seq, t'.sm.trace =
      (t.sm.trace.stampAll (requestStream t.sm.slotPublishSeq (t.rowOf p c))).bindLibe3 seq := by
  cases c with
  | start ok =>
    cases h
    have hkeep : (t.sm.start ok).2.slotPublishSeq = t.sm.slotPublishSeq ∧
        (t.sm.start ok).2.trace = t.sm.trace := by
      unfold E3SMLayer1.start
      cases hrunning : t.sm.running with
      | true => exact ⟨rfl,rfl⟩
      | false =>
        cases ok with
        | true => simp [Session.spawns,hrunning] at hthread
        | false => exact ⟨rfl,rfl⟩
    exact ⟨hkeep.1.trans (UInt64.add_zero _).symm,_,hkeep.2⟩
  | stop =>
    cases h
    exact ⟨(UInt64.add_zero _).symm,_,rfl⟩
  | sample s a =>
    obtain ⟨sm,es,hsample,rfl⟩ := call_sample p h
    exact onSample_trace p hsample

theorem requestStream_append (seq : UInt64) (rs rs' : List Row) :
    requestStream seq (rs ++ rs') =
      requestStream seq rs ++ requestStream (seq + UInt64.ofNat rs.length) rs' := by
  induction rs generalizing seq with
  | nil =>
    have hseq : seq + UInt64.ofNat 0 = seq := UInt64.add_zero seq
    rw [List.nil_append,List.length_nil,requestStream,List.nil_append,hseq]
  | cons r rs ih =>
    have hseq : seq + 1 + UInt64.ofNat rs.length = seq + UInt64.ofNat (rs.length + 1) := by
      rw [UInt64.ofNat_add,UInt64.add_assoc,UInt64.add_comm 1]
      rfl
    rw [List.cons_append,requestStream,requestStream,ih,hseq,List.append_assoc,List.length_cons]

theorem run_trace {t t' : Session ω} {calls : List Call}
    (hthread : Along (call p) (fun t c => t.spawns c = false) t calls)
    (hrun : run (call p) t calls = some t') :
    ∃ seq, t'.sm.trace = (t.sm.trace.stampAll
      (requestStream t.sm.slotPublishSeq (rowsIn p t calls))).bindLibe3 seq := by
  induction calls generalizing t with
  | nil =>
    cases hrun
    exact ⟨_,rfl⟩
  | cons c calls ih =>
    obtain ⟨t₁,ht₁,hrun⟩ := run_cons_eq_some.mp hrun
    obtain ⟨hseq₁,seq₁,htrace₁⟩ := call_trace p hthread.1 ht₁
    obtain ⟨seq,htrace⟩ := ih (hthread.2 t₁ ht₁) hrun
    refine ⟨seq,?_⟩
    rw [htrace,htrace₁,hseq₁,stampAll_bindLibe3]
    simp only [rowsIn,ht₁]
    rw [requestStream_append,Trace.stampAll,Trace.stampAll,Trace.stampAll,List.foldl_append]
    rfl

structure TimesBelow (b : ℕ) (s : SlotSample) (a : Answers) : Prop where
  gnbTsNs : s.gnbTsNs.toNat < b
  codeletTsNs : s.codeletTsNs.toNat < b
  encodeBeginNs : a.encodeBeginNs.toNat < b
  encodeEndNs : a.encodeEndNs.toNat < b
  emitTailNs : a.emitTailNs.toNat < b

theorem requests_below {b : ℕ} {r : Row} (h : TimesBelow b r.sample r.answers) {seq : UInt64}
    {req : Record} (hreq : req ∈ r.requests seq) : req.tNs.toNat < b := by
  unfold Row.requests at hreq
  simp only [List.mem_append,List.mem_cons,List.not_mem_nil,or_false] at hreq
  rcases hreq with (rfl | rfl | rfl) | hreq
  · exact h.gnbTsNs
  · exact h.codeletTsNs
  · exact h.encodeBeginNs
  · cases hr : r.encoded with
    | some size =>
      simp only [hr,List.mem_cons,List.not_mem_nil,or_false] at hreq
      rcases hreq with rfl | rfl
      · exact h.encodeEndNs
      · exact h.emitTailNs
    | none =>
      simp only [hr,List.mem_cons,List.not_mem_nil,or_false] at hreq
      rw [hreq]
      exact h.encodeEndNs

theorem requestStream_below {b : ℕ} {rs : List Row}
    (h : ∀ r ∈ rs, TimesBelow b r.sample r.answers) {seq : UInt64} {req : Record}
    (hreq : req ∈ requestStream seq rs) : req.tNs.toNat < b := by
  induction rs generalizing seq with
  | nil => cases hreq
  | cons r rs ih =>
    rcases List.mem_append.mp hreq with hreq | hreq
    · exact requests_below (h r (by simp)) hreq
    · exact ih (fun r' hr' => h r' (List.mem_cons_of_mem _ hr')) hreq

theorem sample_of_mem_rowsIn {t : Session ω} {calls : List Call} {r : Row}
    (h : r ∈ rowsIn p t calls) : Call.sample r.sample r.answers ∈ calls := by
  induction calls generalizing t with
  | nil => cases h
  | cons c calls ih =>
    rcases List.mem_append.mp h with h | h
    · cases c with
      | start ok => cases h
      | stop => cases h
      | sample s a =>
        simp only [Session.rowOf,E3SMLayer1.rowOf] at h
        split at h
        · cases h
        · obtain rfl := List.mem_singleton.mp h
          exact List.mem_cons_self
    · split at h
      · cases h
      · exact List.mem_cons_of_mem _ (ih h)

theorem spawned_trace {before started : Session ω} (hidle : before.sm.running = false)
    (hstart : call p before (.start true) = some started) :
    started.sm.trace = before.sm.trace.newThread := by
  cases hstart
  simp [E3SMLayer1.start,hidle]

/-- On one worker, whatever the times of its samples: the ring gets the rows of the
slots that were not dropped early, under consecutive keys; its times ascend strictly
and none is before the requested one; and the times that differ from the requested
ones are those of the stamps that were counted as clamped. -/
theorem stage_stream_ascending (before started t : Session ω) (calls : List Call)
    (henabled : before.sm.trace.enabled = true) (hidle : before.sm.running = false)
    (hstart : call p before (.start true) = some started)
    (hthread : Along (call p) (fun t c => t.spawns c = false) started calls)
    (htimes : ∀ s a, Call.sample s a ∈ calls → TimesBelow (2 ^ 63) s a)
    (hrun : run (call p) started calls = some t)
    (hfew : t.sm.trace.records.length < started.sm.trace.records.length + 2 ^ 63) :
    ∃ recs,
      let reqs := requestStream started.sm.slotPublishSeq (rowsIn p started calls)
      (∃ seq, t.sm.trace = (started.sm.trace.stampAll reqs).bindLibe3 seq) ∧
      t.sm.trace.records = started.sm.trace.records ++ recs ∧
      recs.Pairwise (fun r r' => r.tNs < r'.tNs) ∧
      List.Forall₂ (fun req rec => rec = { req with tNs := rec.tNs } ∧ req.tNs ≤ rec.tNs)
        reqs recs ∧
      started.sm.trace.clampedStamps reqs =
        List.zipWith (fun req rec => decide (rec.tNs ≠ req.tNs)) reqs recs ∧
      t.sm.trace.clamped = started.sm.trace.clamped +
        UInt64.ofNat ((started.sm.trace.clampedStamps reqs).count true) := by
  have hspawned := spawned_trace p hidle hstart
  have hon : started.sm.trace.enabled = true := by
    rw [hspawned]
    exact henabled
  have hfloor : started.sm.trace.floorNs = 0 := by
    rw [hspawned]
    rfl
  generalize hreqs : requestStream started.sm.slotPublishSeq (rowsIn p started calls) = reqs
  obtain ⟨seq,htrace⟩ := run_trace p hthread hrun
  rw [hreqs] at htrace
  obtain ⟨hrecords,hmoves,hclamped⟩ := stampAll_enabled hon reqs
  rw [hfloor] at hrecords hmoves
  have hring : t.sm.trace.records = started.sm.trace.records ++ recorded 0 reqs := by
    rw [htrace]
    exact hrecords
  have hroom : Room (· + 1) 0 (times reqs) := by
    refine room_of_new_thread (fun req hreq => ?_) ?_
    · rw [← hreqs] at hreq
      exact requestStream_below (fun r hr => htimes _ _ (sample_of_mem_rowsIn p hr)) hreq
    · rw [hring,List.length_append,length_recorded] at hfew
      omega
  refine ⟨recorded 0 reqs,⟨seq,htrace⟩,hring,pairwise_recorded hroom,forall₂_recorded hroom,
    hmoves.trans (moves_recorded hroom),?_⟩
  rw [htrace]
  exact hclamped

end Rows

def stampedSample (gnbTsNs codeletTsNs : UInt64) : SlotSample :=
  { fullBandSample 4 with gnbTsNs := gnbTsNs, codeletTsNs := codeletTsNs }

def answeredAt (now : UInt64) : Answers :=
  { oneSubscriber with encodeBeginNs := now, encodeEndNs := now, emitTailNs := now }

def interleavedCalls : List Call :=
  [.sample (stampedSample 100 120) (answeredAt 130),.sample (stampedSample 50 90) (answeredAt 200)]

theorem stage_stream_ascending_interleaved :
    ∃ started t recs, call taggedPlatform (Session.fresh {} gnbWriter {}) (.start true) = some started ∧
      run (call taggedPlatform) started interleavedCalls = some t ∧ t.sm.trace.clamped = 6 ∧
      t.sm.trace.records = started.sm.trace.records ++ recs ∧ recs.length = 10 ∧
      recs.Pairwise fun r r' => r.tNs < r'.tNs := by
  obtain ⟨started,t,hstart,hrun,hclamped,hlen,hnone⟩ : ∃ started t,
      call taggedPlatform (Session.fresh {} gnbWriter {}) (.start true) = some started ∧
      run (call taggedPlatform) started interleavedCalls = some t ∧ t.sm.trace.clamped = 6 ∧
      t.sm.trace.records.length = 10 ∧ started.sm.trace.records = [] :=
    ⟨_,_,rfl,rfl,by decide,by decide,rfl⟩
  have hthread : Along (call taggedPlatform) (fun t c => t.spawns c = false) started
      interleavedCalls := ⟨rfl,fun _ _ => ⟨rfl,fun _ _ => trivial⟩⟩
  have htimes : ∀ s a, Call.sample s a ∈ interleavedCalls → TimesBelow (2 ^ 63) s a := by
    intro s a h
    simp only [interleavedCalls,List.mem_cons,Call.sample.injEq,List.not_mem_nil,or_false] at h
    rcases h with ⟨rfl,rfl⟩ | ⟨rfl,rfl⟩
    · exact ⟨by decide,by decide,by decide,by decide,by decide⟩
    · exact ⟨by decide,by decide,by decide,by decide,by decide⟩
  obtain ⟨recs,-,hrecs,hascending,-⟩ := stage_stream_ascending taggedPlatform _ started t _ rfl rfl
    hstart hthread htimes hrun (by rw [hlen]; omega)
  refine ⟨started,t,recs,hstart,hrun,hclamped,hrecs,?_,hascending⟩
  rw [hrecs,hnone,List.nil_append] at hlen
  exact hlen

end Layer1
end E3Controller
