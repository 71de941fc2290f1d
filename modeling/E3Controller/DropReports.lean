import E3Controller.DropAccounting

/-!
# Drop reports over whole runs

`note_drop` raises a counter and calls `maybe_log_drops`, which writes a line to `stderr` and
a row to the drop log, but no more than once a second. Whatever the throttle leaves out of one
report is in the next one.
-/

namespace E3Controller
namespace Layer1

open LabelledRun Config CString SlotApi L1Kpm StageTrace E3SMLayer1

/-- A row of the drop log; `uptimeNs` is printed in seconds. -/
structure DropRow where
  uptimeNs : ℤ
  published : UInt64
  total : UInt64
  clamped : UInt64
  drops : List UInt64

inductive Csv
  | off
  | cannotOpen (path : Str)
  | first (row : DropRow)
  | next (row : DropRow)

structure Report where
  now : ℤ
  since : UInt64
  total : UInt64
  published : UInt64
  csv : Csv

/-- The fields of `E3SMLayer1` that only `maybe_log_drops` uses. Times are nanoseconds of the
steady clock. -/
structure DropLog where
  dropsLastReport : ℤ := 0
  dropsLastTotal : UInt64 := 0
  dropsLogPath : Str := []
  isOpen : Bool := false
  dropsLogStart : ℤ := 0

def oneSecond : ℤ := 1000000000

namespace DropLog

def throttled (log : DropLog) (now : ℤ) : Bool :=
  log.dropsLastReport ≠ 0 && now - log.dropsLastReport < oneSecond

def dropRow (log : DropLog) (l : E3SMLayer1) (now : ℤ) : DropRow where
  uptimeNs := now - log.dropsLogStart
  published := l.publishedSlots
  total := l.totalDrops
  clamped := l.trace.clamped
  drops := Drop.all.map l.drops

def writeCsv (log : DropLog) (l : E3SMLayer1) (now : ℤ) (openOk : Bool) : Csv × DropLog :=
  if log.dropsLogPath.isEmpty then (.off,log)
  else if log.isOpen then (.next (log.dropRow l now),log)
  else if openOk then
    let log := { log with isOpen := true, dropsLogStart := now }
    (.first (log.dropRow l now),log)
  else (.cannotOpen log.dropsLogPath,{ log with dropsLogPath := [] })

def maybeLogDrops (log : DropLog) (l : E3SMLayer1) (now : ℤ) (openOk : Bool) :
    Option Report × DropLog :=
  if log.throttled now then (none,log)
  else
    let log := { log with dropsLastReport := now }
    let total := l.totalDrops
    if total = log.dropsLastTotal then (none,log)
    else
      let since := total - log.dropsLastTotal
      let csv := { log with dropsLastTotal := total }.writeCsv l now openOk
      (some ⟨now,since,total,l.publishedSlots,csv.1⟩,csv.2)

end DropLog

namespace E3SMLayer1

variable {ω : Type} (p : Platform ω)

def encoded (l : E3SMLayer1) (s : SlotSample) (a : Answers) (payload : ω) : E3SMLayer1 :=
  let seq := l.slotPublishSeq + 1
  let bytes := if s.bytesWritten > 0 then s.bytesWritten else s.iqSizeBytes
  { l with
    slotPublishSeq := seq
    shmWriter := (l.placeRow p s).2
    trace := l.trace
      |>.recordBegin seq s.sfn s.slotId s.gnbTsNs s.codeletEntryTsNs
      |>.processBegin seq s.codeletTsNs s.dispatchTsNs bytes
      |>.encodeBegin seq s.iqSizeBytes a.encodeBeginNs
      |>.encodeDone seq (UInt64.ofNat (p.codecs.size payload)) a.encodeEndNs
      |>.bindLibe3 seq }

def fanOutNotes (emitOk : UInt32 → Bool) (l : E3SMLayer1) : List UInt32 → List E3SMLayer1
  | [] => []
  | dapp :: dapps =>
    if emitOk dapp then fanOutNotes emitOk l dapps
    else l.noteDrop .emitFailed :: fanOutNotes emitOk (l.noteDrop .emitFailed) dapps

/-- The service model as each call of `maybe_log_drops` inside one `on_sample` sees it. A slot
that is dropped or refused by the encoder is counted last. -/
def notedBy (l : E3SMLayer1) (s : SlotSample) (a : Answers) : List E3SMLayer1 :=
  match l.dropReason s a.subscribers.ids with
  | (some d,l) => [l.noteDrop d]
  | (none,l) =>
    match l.encodeIndication p s (l.placeRow p s).1 a.alloc with
    | some (some payload) => fanOutNotes a.emitOk (l.encoded p s a payload) a.subscribers.ids
    | _ => ((l.publishSlot p s a).map Prod.fst).toList

end E3SMLayer1

/-- A service model and its reports. `pending` records the times of the drops that were counted
since the last time a report was due. -/
structure Reporting where
  sm : E3SMLayer1
  log : DropLog
  reports : List Report := []
  pending : List ℤ := []

/-- One call of `maybe_log_drops`: a read of the clock, and whether the drop log can be opened. -/
structure Tick where
  now : ℤ
  openOk : Bool

namespace Reporting

def note (t : Reporting) (x : E3SMLayer1 × Tick) : Reporting :=
  let r := t.log.maybeLogDrops x.1 x.2.now x.2.openOk
  { t with
    log := r.2
    reports := t.reports ++ r.1.toList
    pending := if t.log.throttled x.2.now then t.pending ++ [x.2.now] else [] }

end Reporting

inductive ReportCall
  | start (pipelineOk : Bool)
  | stop
  | sample (s : SlotSample) (a : Answers) (ticks : List Tick)

def ReportCall.ticks : ReportCall → List Tick
  | .sample _ _ ticks => ticks
  | _ => []

/-- A call of the service model; `on_sample` reads the clock once for each drop it counts. -/
def reportStep {ω : Type} (p : Platform ω) (t : Reporting) : ReportCall → Option Reporting
  | .start pipelineOk => some { t with sm := (t.sm.start pipelineOk).2 }
  | .stop => some { t with sm := t.sm.stop }
  | .sample s a ticks =>
    if ticks.length ≠ (t.sm.notedBy p s a).length then none
    else (t.sm.onSample p s a).map fun r =>
      { ((t.sm.notedBy p s a).zip ticks).foldl Reporting.note t with sm := r.1 }

section Totals

variable {ω : Type} (p : Platform ω)

theorem totalDrops_of_drops {l l' : E3SMLayer1} (h : l'.drops = l.drops) :
    l'.totalDrops = l.totalDrops := by
  rw [totalDrops,totalDrops,sumDrops,sumDrops,h]

theorem noteDrop_totalDrops (l : E3SMLayer1) (d : Drop) :
    (l.noteDrop d).totalDrops = l.totalDrops + 1 := by
  simp only [totalDrops,sumDrops,Drop.all,noteDrop,List.foldl_cons,List.foldl_nil]
  cases d <;> simp only [Function.update_apply,reduceCtorEq,if_true,if_false] <;> ac_rfl

inductive CountsUp : UInt64 → List E3SMLayer1 → UInt64 → Prop
  | nil (total : UInt64) : CountsUp total [] total
  | cons {l : E3SMLayer1} {ls : List E3SMLayer1} {total final : UInt64}
      (next : l.totalDrops = total + 1) (rest : CountsUp l.totalDrops ls final) :
      CountsUp total (l :: ls) final

theorem fanOut_countsUp (payload : ω) (emitOk : UInt32 → Bool) (l : E3SMLayer1)
    (dapps : List UInt32) : CountsUp l.totalDrops (fanOutNotes emitOk l dapps)
      (fanOut payload emitOk l dapps).1.totalDrops := by
  induction dapps generalizing l with
  | nil => exact .nil _
  | cons dapp dapps ih =>
    rw [fanOutNotes,fanOut]
    by_cases hok : emitOk dapp = true
    · simp only [hok,if_true]
      exact ih l
    · simp only [hok,Bool.false_eq_true,if_false]
      exact .cons (noteDrop_totalDrops l .emitFailed) (ih _)

theorem publishSlot_countsUp {l l' : E3SMLayer1} {s : SlotSample} {a : Answers}
    {es : List (Emission ω)} (h : l.publishSlot p s a = some (l',es)) :
    CountsUp l.totalDrops
      (match l.encodeIndication p s (l.placeRow p s).1 a.alloc with
        | some (some payload) => fanOutNotes a.emitOk (l.encoded p s a payload) a.subscribers.ids
        | _ => ((l.publishSlot p s a).map Prod.fst).toList) l'.totalDrops := by
  cases he : l.encodeIndication p s (l.placeRow p s).1 a.alloc with
  | none => simp [publishSlot,he] at h
  | some result =>
    cases result with
    | none =>
      rw [h]
      have hrefused : l'.totalDrops = l.totalDrops + 1 := by
        simp only [publishSlot,he,Option.some.injEq,Prod.mk.injEq] at h
        rw [← h.1,noteDrop_totalDrops]
        rfl
      exact .cons hrefused (.nil _)
    | some payload =>
      simp only [publishSlot,he,Option.some.injEq,Prod.mk.injEq] at h
      rw [← h.1]
      exact fanOut_countsUp payload a.emitOk (l.encoded p s a payload) a.subscribers.ids

theorem onSample_countsUp {l l' : E3SMLayer1} {s : SlotSample} {a : Answers}
    {es : List (Emission ω)} (h : l.onSample p s a = some (l',es)) :
    CountsUp l.totalDrops (l.notedBy p s a) l'.totalDrops := by
  have hcount := (dropReason_counters l s a.subscribers.ids).drops
  unfold onSample at h
  unfold notedBy
  cases hadm : l.dropReason s a.subscribers.ids with
  | mk reason l₁ =>
    rw [hadm] at h hcount
    rw [← totalDrops_of_drops hcount]
    cases reason with
    | some d =>
      simp only [Option.some.injEq,Prod.mk.injEq] at h
      rw [← h.1]
      exact .cons (noteDrop_totalDrops l₁ d) (.nil _)
    | none => exact publishSlot_countsUp p h

end Totals

section Law

def sumSince (reports : List Report) : UInt64 := reports.foldl (fun t r => t + r.since) 0

def Csv.row? : Csv → Option DropRow
  | .first row => some row
  | .next row => some row
  | _ => none

/-- The row of a report says what its line says, and its counters add up to its total. -/
def Report.Agrees (r : Report) : Prop :=
  ∀ row, r.csv.row? = some row →
    row.published = r.published ∧ row.total = r.total ∧ row.total = row.drops.foldl (· + ·) 0

/-- The drop log and the reports so far: not opened yet, not asked for, refused once and for all,
or opened with the first report and written with every report since. -/
inductive CsvState (path : Str) : DropLog → List Report → Prop
  | unopened {log : DropLog} (hpath : log.dropsLogPath = path) (hclosed : log.isOpen = false) :
      CsvState path log []
  | off {log : DropLog} {reports : List Report} (hpath : log.dropsLogPath = []) (hnone : path = [])
      (hoff : ∀ r ∈ reports, r.csv = .off) : CsvState path log reports
  | refused {log : DropLog} {r : Report} {rs : List Report} (hpath : log.dropsLogPath = [])
      (hfirst : r.csv = .cannotOpen path) (hoff : ∀ x ∈ rs, x.csv = .off) : CsvState path log (r :: rs)
  | opened {log : DropLog} {r : Report} {rs : List Report} {row : DropRow}
      (hpath : log.dropsLogPath = path) (hne : path ≠ []) (hopen : log.isOpen = true)
      (hstart : log.dropsLogStart = r.now) (hfirst : r.csv = .first row)
      (hnext : ∀ x ∈ rs, ∃ row, x.csv = .next row ∧ row.uptimeNs = x.now - r.now) :
      CsvState path log (r :: rs)

structure ReportInv (path : Str) (total : UInt64) (t : Reporting) : Prop where
  total : total = t.log.dropsLastTotal + UInt64.ofNat t.pending.length
  reported : sumSince t.reports = t.log.dropsLastTotal
  totals : ∀ before r after, t.reports = before ++ r :: after → r.total = sumSince (before ++ [r])
  recent : ∀ τ ∈ t.pending, τ < t.log.dropsLastReport + oneSecond
  last : ∀ r ∈ t.reports, 0 < r.now ∧ r.now ≤ t.log.dropsLastReport
  spaced : t.reports.Pairwise fun r r' => r.now + oneSecond ≤ r'.now
  agrees : ∀ r ∈ t.reports, r.Agrees
  csv : CsvState path t.log t.reports

theorem sumSince_append (reports : List Report) (r : Report) :
    sumSince (reports ++ [r]) = sumSince reports + r.since := by
  simp only [sumSince,List.foldl_append,List.foldl_cons,List.foldl_nil]

variable {path : Str} {total : UInt64} {t : Reporting} {l : E3SMLayer1} {now : ℤ} {openOk : Bool}

theorem ReportInv.due (h : ReportInv path total t) (hdue : t.log.throttled now = false) :
    ∀ r ∈ t.reports, r.now + oneSecond ≤ now := by
  intro r hr
  obtain ⟨hpos,hle⟩ := h.last r hr
  simp only [DropLog.throttled,Bool.and_eq_false_iff,decide_eq_false_iff_not,not_not] at hdue
  rcases hdue with hzero | hlong
  · omega
  · omega

theorem CsvState.of_log {log log' : DropLog} {reports : List Report} (h : CsvState path log reports)
    (hpath : log'.dropsLogPath = log.dropsLogPath) (hopen : log'.isOpen = log.isOpen)
    (hstart : log'.dropsLogStart = log.dropsLogStart) : CsvState path log' reports := by
  cases h with
  | unopened h₁ h₂ => exact .unopened (hpath.trans h₁) (hopen.trans h₂)
  | off h₁ h₂ h₃ => exact .off (hpath.trans h₁) h₂ h₃
  | refused h₁ h₂ h₃ => exact .refused (hpath.trans h₁) h₂ h₃
  | opened h₁ h₂ h₃ h₄ h₅ h₆ =>
    exact .opened (hpath.trans h₁) h₂ (hopen.trans h₃) (hstart.trans h₄) h₅ h₆

theorem CsvState.write {log : DropLog} {reports : List Report} (h : CsvState path log reports)
    {r : Report} (hnow : r.now = now) (hcsv : r.csv = (log.writeCsv l now openOk).1) :
    CsvState path (log.writeCsv l now openOk).2 (reports ++ [r]) := by
  have hlast : ∀ {P : Report → Prop} {rs : List Report}, (∀ x ∈ rs, P x) → P r →
      ∀ x ∈ rs ++ [r], P x := by
    intro P rs hrs hr x hx
    rcases List.mem_append.mp hx with hx | hx
    · exact hrs x hx
    · rw [List.mem_singleton.mp hx]
      exact hr
  unfold DropLog.writeCsv at hcsv ⊢
  cases h with
  | unopened hpath hclosed =>
    by_cases hnone : log.dropsLogPath = []
    · rw [hnone] at hcsv ⊢
      simp only [List.isEmpty_nil,if_true] at hcsv ⊢
      exact .off hnone (hpath.symm.trans hnone) fun x hx => by rw [List.mem_singleton.mp hx,hcsv]
    · have hsome : ¬ log.dropsLogPath.isEmpty = true := by rwa [List.isEmpty_iff]
      simp only [if_neg hsome,hclosed,Bool.false_eq_true,if_false] at hcsv ⊢
      cases openOk with
      | true =>
        exact .opened hpath (hpath ▸ hnone) rfl hnow.symm hcsv fun x hx => by cases hx
      | false =>
        rw [hpath] at hcsv
        exact .refused rfl hcsv fun x hx => by cases hx
  | off hpath hnone hoff =>
    simp only [hpath,List.isEmpty_nil,if_true] at hcsv ⊢
    exact .off hpath hnone (hlast hoff hcsv)
  | refused hpath hfirst hoff =>
    simp only [hpath,List.isEmpty_nil,if_true] at hcsv ⊢
    exact .refused hpath hfirst (hlast hoff hcsv)
  | opened hpath hne hopen hstart hfirst hnext =>
    have hsome : ¬ log.dropsLogPath.isEmpty = true := by rwa [List.isEmpty_iff,hpath]
    simp only [if_neg hsome,hopen,if_true] at hcsv ⊢
    refine .opened hpath hne hopen hstart hfirst (hlast hnext ⟨_,hcsv,?_⟩)
    rw [hnow,← hstart]
    rfl

theorem writeCsv_row {log : DropLog} {row : DropRow}
    (h : (log.writeCsv l now openOk).1.row? = some row) :
    row.published = l.publishedSlots ∧ row.total = l.totalDrops ∧ row.drops = Drop.all.map l.drops := by
  unfold DropLog.writeCsv at h
  split_ifs at h
  · cases h
  · cases h
    exact ⟨rfl,rfl,rfl⟩
  · cases h
    exact ⟨rfl,rfl,rfl⟩
  · cases h

theorem writeCsv_log (log : DropLog) (l : E3SMLayer1) (now : ℤ) (openOk : Bool) : (log.writeCsv l now openOk).2.dropsLastReport =
    log.dropsLastReport ∧ (log.writeCsv l now openOk).2.dropsLastTotal = log.dropsLastTotal := by
  unfold DropLog.writeCsv
  split_ifs <;> exact ⟨rfl,rfl⟩

theorem note_throttled (h : ReportInv path total t) (hl : l.totalDrops = total + 1)
    (hthrottled : t.log.throttled now = true) :
    ReportInv path l.totalDrops (t.note (l,⟨now,openOk⟩)) := by
  have hlog : t.log.maybeLogDrops l now openOk = (none,t.log) := if_pos hthrottled
  simp only [Reporting.note,hlog,hthrottled,if_true,Option.toList_none,List.append_nil]
  refine { h with total := ?_, recent := ?_ }
  · rw [hl,h.total,List.length_append,List.length_singleton,UInt64.ofNat_add,UInt64.add_assoc]
    rfl
  · intro τ hτ
    rcases List.mem_append.mp hτ with hτ | hτ
    · exact h.recent τ hτ
    · rw [List.mem_singleton.mp hτ]
      simp only [DropLog.throttled,Bool.and_eq_true,decide_eq_true_eq] at hthrottled
      exact sub_lt_iff_lt_add'.mp hthrottled.2

theorem note_due (h : ReportInv path total t) (hnow : 0 < now)
    (hdue : t.log.throttled now = false) :
    ReportInv path l.totalDrops (t.note (l,⟨now,openOk⟩)) := by
  have hold := h.due hdue
  have hbefore : ∀ r ∈ t.reports, 0 < r.now ∧ r.now ≤ now := by
    intro r hr
    have hr' := hold r hr
    have hpos := (h.last r hr).1
    have hsecond : oneSecond = 1000000000 := rfl
    omega
  simp only [Reporting.note,DropLog.maybeLogDrops,hdue,Bool.false_eq_true,if_false]
  split
  next hsame =>
    -- the counter has wrapped around to the value of the last report
    simp only [Option.toList_none,List.append_nil]
    exact ⟨by simpa using hsame,h.reported,h.totals,nofun,hbefore,h.spaced,h.agrees,
      h.csv.of_log rfl rfl rfl⟩
  next hnew =>
    generalize hlog : ({ t.log with dropsLastReport := now, dropsLastTotal := l.totalDrops } : DropLog) =
      log
    have hwrite := writeCsv_log log l now openOk
    have hcsv : CsvState path log t.reports := hlog ▸ h.csv.of_log rfl rfl rfl
    have hsum : sumSince t.reports + (l.totalDrops - t.log.dropsLastTotal) = l.totalDrops := by
      rw [h.reported,UInt64.add_comm,UInt64.sub_add_cancel]
    simp only [Option.toList_some]
    refine ⟨?_,?_,?_,nofun,?_,?_,?_,hcsv.write rfl rfl⟩
    · rw [hwrite.2,← hlog]
      simp
    · rw [sumSince_append,hwrite.2,← hlog]
      exact hsum
    · intro before r after hsplit
      rcases List.append_eq_append_iff.mp hsplit with ⟨mid,hbefore',hmid⟩ | ⟨mid,hbefore',hmid⟩
      · cases mid with
        | nil =>
          rw [List.nil_append,List.cons.injEq] at hmid
          rw [hbefore',List.append_nil,sumSince_append,← hmid.1]
          exact hsum.symm
        | cons x mid => simp at hmid
      · cases mid with
        | nil =>
          rw [List.nil_append,List.cons.injEq] at hmid
          rw [List.append_nil] at hbefore'
          rw [← hbefore',sumSince_append,hmid.1]
          exact hsum.symm
        | cons x mid =>
          rw [List.cons_append,List.cons.injEq] at hmid
          rw [hmid.1]
          exact h.totals before x mid hbefore'
    · intro r hr
      rw [hwrite.1,← hlog]
      rcases List.mem_append.mp hr with hr | hr
      · exact hbefore r hr
      · rw [List.mem_singleton.mp hr]
        exact ⟨hnow,le_refl _⟩
    · rw [List.pairwise_append]
      refine ⟨h.spaced,List.pairwise_singleton _ _,fun r hr r' hr' => ?_⟩
      rw [List.mem_singleton.mp hr']
      exact hold r hr
    · intro r hr
      rcases List.mem_append.mp hr with hr | hr
      · exact h.agrees r hr
      · rw [List.mem_singleton.mp hr]
        intro row hrow
        obtain ⟨hpublished,htotal,hdrops⟩ := writeCsv_row hrow
        refine ⟨hpublished,htotal,?_⟩
        rw [htotal,hdrops,List.foldl_map]
        rfl

theorem note_reportInv (h : ReportInv path total t) (hl : l.totalDrops = total + 1) {x : Tick}
    (hx : 0 < x.now) : ReportInv path l.totalDrops (t.note (l,x)) := by
  cases hthrottled : t.log.throttled x.now with
  | true => exact note_throttled h hl hthrottled
  | false => exact note_due h hx hthrottled

theorem notes_reportInv {ls : List E3SMLayer1} {final : UInt64} {ticks : List Tick}
    (hup : CountsUp total ls final) (h : ReportInv path total t) (hlen : ticks.length = ls.length)
    (hticks : ∀ x ∈ ticks, 0 < x.now) : ReportInv path final ((ls.zip ticks).foldl Reporting.note t) := by
  induction hup generalizing t ticks with
  | nil => exact h
  | cons next rest ih =>
    cases ticks with
    | nil => cases hlen
    | cons x ticks =>
      rw [List.zip_cons_cons,List.foldl_cons]
      refine ih (note_reportInv h next (hticks x (by simp))) (by simpa using hlen) fun y hy => ?_
      exact hticks y (List.mem_cons_of_mem _ hy)

end Law

section Runs

variable {ω : Type} {p : Platform ω} {path : Str} {t t' : Reporting}

theorem ReportInv.of_sm {total total' : UInt64} (h : ReportInv path total t) (htotal : total' = total)
    {sm : E3SMLayer1} : ReportInv path total' { t with sm := sm } :=
  { h with total := htotal.trans h.total }

theorem reportStep_inv {c : ReportCall} (hticks : ∀ x ∈ c.ticks, 0 < x.now)
    (h : ReportInv path t.sm.totalDrops t) (ht : reportStep p t c = some t') :
    ReportInv path t'.sm.totalDrops t' := by
  cases c with
  | start pipelineOk =>
    cases ht
    refine h.of_sm (totalDrops_of_drops ?_)
    unfold E3SMLayer1.start
    split_ifs <;> rfl
  | stop =>
    cases ht
    exact h.of_sm rfl
  | sample s a ticks =>
    simp only [reportStep] at ht
    split at ht
    · cases ht
    next hlen =>
      obtain ⟨⟨sm,es⟩,hsample,rfl⟩ := Option.map_eq_some_iff.mp ht
      exact (notes_reportInv (onSample_countsUp p hsample) h (not_not.mp hlen) hticks).of_sm rfl

def Reporting.fresh (config : ControllerConfig) (shmWriter : Shm.ShmIqWriter) (trace : Trace) :
    Reporting where
  sm := E3SMLayer1.constructed config shmWriter trace
  log := { dropsLogPath := config.logging.dropsLogPath }

theorem fresh_reportInv (config : ControllerConfig) (shmWriter : Shm.ShmIqWriter) (trace : Trace) :
    ReportInv config.logging.dropsLogPath (Reporting.fresh config shmWriter trace).sm.totalDrops
      (Reporting.fresh config shmWriter trace) where
  total := rfl
  reported := rfl
  totals before r after hsplit := absurd hsplit (by simp [Reporting.fresh])
  recent := nofun
  last := nofun
  spaced := .nil
  agrees := nofun
  csv := .unopened rfl rfl

/-- In every run, the lines report every drop once: they are a second or more apart, each adds up
with those before it to the total at its time, and the drops they leave out are those counted
within a second of the time when a report was last due. -/
theorem drops_reported (p : Platform ω) (config : ControllerConfig) (shmWriter : Shm.ShmIqWriter)
    (trace : Trace) (calls : List ReportCall) (t : Reporting)
    (hticks : ∀ c ∈ calls, ∀ x ∈ c.ticks, 0 < x.now)
    (hrun : run (reportStep p) (Reporting.fresh config shmWriter trace) calls = some t) :
    ReportInv config.logging.dropsLogPath t.sm.totalDrops t :=
  run_invariant (C := fun _ c => ∀ x ∈ c.ticks, 0 < x.now)
    (fun _ _ _ hc hi ht => reportStep_inv hc hi ht) (fresh_reportInv config shmWriter trace)
    (along_of_forall hticks) hrun

end Runs

def unsubscribed : Answers := { oneSubscriber with subscribers := ⟨[],by decide⟩ }

def fourDrops : List ReportCall :=
  .start true :: [5,6,1000000005,1000000006].map fun now =>
    .sample (fullBandSample 4) unsubscribed [⟨now,true⟩]

theorem drops_reported_four :
    ∃ t, run (reportStep taggedPlatform) (Reporting.fresh {} gnbWriter {}) fourDrops = some t ∧
      t.reports.map (fun r => (r.now,r.since,r.total)) = [(5,1,1),(1000000005,2,3)] ∧
      t.pending = [1000000006] ∧ ReportInv [] t.sm.totalDrops t := by
  refine ⟨_,rfl,by decide,by decide,?_⟩
  exact drops_reported taggedPlatform {} gnbWriter {} fourDrops _ (by decide) rfl

end Layer1
end E3Controller
