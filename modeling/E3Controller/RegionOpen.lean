import E3Controller.LabelledRun
import E3Controller.ShmRegion

/-!
# What a failed `open` leaves behind

`open` records the region's name before it asks for the region, and the geometry
before it knows that a row fits. `close`, which the destructor calls as well, unlinks
whatever name is recorded. Calls are followed from construction on, with every answer
of the operating system.
-/

namespace E3Controller
namespace Shm

open CString Config LabelledRun

inductive NameEvent
  | opened (name : Str)
  | refused (name : Str)
  | unlinked (name : Str)
  deriving DecidableEq

def OsCall.event (granted : Bool) : OsCall → NameEvent
  | .shmOpen name => if granted then .opened name else .refused name
  | .shmUnlink name => .unlinked name

structure History where
  writer : ShmIqWriter := {}
  log : List NameEvent := []

/-- Calls of `open` and `close`; the destructor is a call of `close`. -/
inductive WriterCall
  | openRegion (os : OsAnswers) (name : Str) (total : UInt64) (geom : RadioGeometry) (scale : F32)
    (writer : ShmWriter)
  | close

def History.call (s : History) : WriterCall → Option History
  | .openRegion os name total geom scale writer =>
    let opened := s.writer.openRegion os name total geom scale writer
    some ⟨opened.2.1,s.log ++ opened.2.2.map (OsCall.event os.shmOpen.isSome)⟩
  | .close =>
    let closed := s.writer.close
    some ⟨closed.1,s.log ++ closed.2.map (OsCall.event false)⟩

/-- The name was opened by this writer and has not been unlinked since. -/
def Held (log : List NameEvent) (name : Str) : Prop :=
  ∃ before since, log = before ++ .opened name :: since ∧ .unlinked name ∉ since

def UnlinksOwn (log : List NameEvent) : Prop :=
  ∀ before name since, log = before ++ .unlinked name :: since → Held before name

/-- All members agree; the mapped memory is not one. -/
def SameFields (w w' : ShmIqWriter) : Prop := { w' with words := w.words } = w

/-- What one call may change: a failed `open` no field, and an `open` of an open writer
nothing at all. -/
def LeavesNoTrace (s : History) : WriterCall → Prop
  | .close => True
  | .openRegion os name total geom scale writer =>
    ((s.writer.openRegion os name total geom scale writer).1 = false →
      SameFields s.writer (s.writer.openRegion os name total geom scale writer).2.1) ∧
    (s.writer.mapped = true →
      s.writer.openRegion os name total geom scale writer = (false,s.writer,[]))

/-- No call of the run leaves a trace, and no foreign name is unlinked. -/
def NoTrace (calls : List WriterCall) : Prop :=
  Along History.call LeavesNoTrace {} calls ∧
    ∀ s, run History.call {} calls = some s → UnlinksOwn s.log

/-- The members that a region too small for a row leaves set, set already. -/
structure AlreadySet (w : ShmIqWriter) (geom : RadioGeometry) (scale : F32) (writer : ShmWriter) :
    Prop where
  shmName : w.shmName = []
  numFhSamples : w.numFhSamples = geom.numFhSamples
  rowBytes : w.rowBytes = geom.rowBytes
  numFhRows : w.numFhRows = 0
  numBuffers : w.numBuffers = 2
  cbf16Scale : w.cbf16Scale = scale
  geom : w.geom = geom
  writer : w.writer = writer

/-- The writer is open, or the operating system fails for the name that is recorded already, or
the region is large enough, or what a too small one would set is set already. -/
def Allowed (s : History) : WriterCall → Prop
  | .close => True
  | .openRegion os name total geom scale writer =>
    s.writer.mapped = true ∨
    ((os.shmOpen = none ∨ os.ftruncate = false ∨ os.mmap = false) ∧ s.writer.shmName = name) ∨
    ((∃ fd, os = ⟨some fd,true,true⟩) ∧ (ShmIqWriter.rowsFor total 2 geom.rowBytes ≠ 0 ∨
      AlreadySet s.writer geom scale writer))

def Unmapped (w : ShmIqWriter) : Prop :=
  w.mapped = false → w.fd = none ∧ w.mappedSize = 0 ∧ w.header = none

theorem call_unmapped {s t : History} {c : WriterCall} (h : Unmapped s.writer)
    (ht : s.call c = some t) : Unmapped t.writer := by
  cases c with
  | close =>
    cases ht
    exact fun _ => ⟨rfl,rfl,rfl⟩
  | openRegion os name total geom scale writer =>
    cases ht
    rcases openRegion_cases os s.writer name total geom scale writer with
      ⟨-,hr⟩ | ⟨hm,-,hr⟩ | ⟨-,-,-,hr⟩ | ⟨-,-,fd,-,hr⟩
    · rw [hr]
      exact h
    · rw [hr]
      intro _
      exact ⟨rfl,(h hm).2⟩
    · rw [hr]
      exact fun _ => ⟨rfl,rfl,rfl⟩
    · rw [hr]
      exact nofun

theorem sameFields_renamed_iff {w : ShmIqWriter} (hfd : w.fd = none) (name : Str) :
    SameFields w { w with shmName := name, fd := none } ↔ w.shmName = name := by
  constructor
  · intro h
    exact (congrArg ShmIqWriter.shmName h).symm
  · rintro rfl
    cases w
    cases hfd
    rfl

theorem sameFields_small_iff {w : ShmIqWriter} (hm : w.mapped = false) (h : Unmapped w)
    (geom : RadioGeometry) (scale : F32) (writer : ShmWriter) :
    SameFields w (w.tooSmall geom scale writer) ↔ AlreadySet w geom scale writer := by
  obtain ⟨hfd,hsize,hheader⟩ := h hm
  constructor
  · intro h
    exact ⟨(congrArg ShmIqWriter.shmName h).symm,(congrArg ShmIqWriter.numFhSamples h).symm,
      (congrArg ShmIqWriter.rowBytes h).symm,(congrArg ShmIqWriter.numFhRows h).symm,
      (congrArg ShmIqWriter.numBuffers h).symm,(congrArg ShmIqWriter.cbf16Scale h).symm,
      (congrArg ShmIqWriter.geom h).symm,(congrArg ShmIqWriter.writer h).symm⟩
  · rintro ⟨hname,hsamples,hbytes,hrows,hbuffers,hscale,hgeom,hwriter⟩
    cases w
    simp only at hm hfd hsize hheader hname hsamples hbytes hrows hbuffers hscale hgeom hwriter
    subst hm hfd hsize hheader hname hsamples hbytes hrows hbuffers hscale hgeom hwriter
    rfl

theorem leavesNoTrace_iff_allowed (s : History) (c : WriterCall) (h : Unmapped s.writer) :
    LeavesNoTrace s c ↔ Allowed s c := by
  cases c with
  | close => exact Iff.rfl
  | openRegion os name total geom scale writer =>
    simp only [LeavesNoTrace,Allowed]
    rcases openRegion_cases os s.writer name total geom scale writer with
      ⟨hm,hr⟩ | ⟨hm,hfail,hr⟩ | ⟨hm,hok,hrows,hr⟩ | ⟨hm,hrows,fd,hok,hr⟩
    · exact iff_of_true ⟨fun _ => by rw [hr]; rfl,fun _ => hr⟩ (.inl hm)
    · have hsame := sameFields_renamed_iff (h hm).1 name
      rw [hr]
      constructor
      · rintro ⟨hfields,-⟩
        exact .inr (.inl ⟨hfail,hsame.mp (hfields rfl)⟩)
      · rintro (hmapped | ⟨-,hname⟩ | ⟨⟨fd,rfl⟩,-⟩)
        · exact absurd (hm.symm.trans hmapped) nofun
        · exact ⟨fun _ => hsame.mpr hname,fun hmapped => absurd (hm.symm.trans hmapped) nofun⟩
        · rcases hfail with hc | hc | hc <;> cases hc
    · have hsame := sameFields_small_iff hm h geom scale writer
      rw [hr]
      constructor
      · rintro ⟨hfields,-⟩
        exact .inr (.inr ⟨hok,.inr (hsame.mp (hfields rfl))⟩)
      · rintro (hmapped | ⟨hfail,-⟩ | ⟨-,hsize | hset⟩)
        · exact absurd (hm.symm.trans hmapped) nofun
        · obtain ⟨fd,rfl⟩ := hok
          rcases hfail with hc | hc | hc <;> cases hc
        · exact absurd hrows hsize
        · exact ⟨fun _ => hsame.mpr hset,fun hmapped => absurd (hm.symm.trans hmapped) nofun⟩
    · have hallowed : (∃ fd, os = ⟨some fd,true,true⟩) ∧
          (ShmIqWriter.rowsFor total 2 geom.rowBytes ≠ 0 ∨ AlreadySet s.writer geom scale writer) :=
        ⟨⟨fd,hok⟩,.inl hrows⟩
      refine iff_of_true ⟨fun hfalse => ?_,fun hmapped => ?_⟩ (.inr (.inr hallowed))
      · rw [hr] at hfalse
        cases hfalse
      · rw [hm] at hmapped
        cases hmapped

section Names

variable {log : List NameEvent} {name : Str}

theorem split_append_event {e x : NameEvent} {before since : List NameEvent}
    (h : log ++ [e] = before ++ x :: since) : (log = before ∧ e = x) ∨
      ∃ since', since = since' ++ [e] ∧ log = before ++ x :: since' := by
  rcases List.eq_nil_or_concat since with rfl | ⟨since',y,rfl⟩
  · obtain ⟨hlog,he⟩ := List.append_inj' h rfl
    exact .inl ⟨hlog,List.singleton_inj.mp he⟩
  · rw [List.concat_eq_append,← List.cons_append,← List.append_assoc] at h
    obtain ⟨hlog,he⟩ := List.append_inj' h rfl
    refine .inr ⟨since',?_,hlog⟩
    rw [List.concat_eq_append,List.singleton_inj.mp he]

theorem held_opened (log : List NameEvent) (name : Str) : Held (log ++ [.opened name]) name :=
  ⟨log,[],rfl,List.not_mem_nil⟩

theorem Held.append {e : NameEvent} (h : Held log name) (he : e ≠ .unlinked name) :
    Held (log ++ [e]) name := by
  obtain ⟨before,since,rfl,hsince⟩ := h
  refine ⟨before,since ++ [e],by simp,?_⟩
  rw [List.mem_append,List.mem_singleton,not_or]
  exact ⟨hsince,he.symm⟩

theorem UnlinksOwn.append {e : NameEvent} (h : UnlinksOwn log)
    (he : ∀ name, e = .unlinked name → Held log name) : UnlinksOwn (log ++ [e]) := by
  intro before name since hsplit
  rcases split_append_event hsplit with ⟨rfl,rfl⟩ | ⟨since',-,hlog⟩
  · exact he name rfl
  · exact h before name since' hlog

end Names

/-- A recorded name is one that the writer holds, and only such names were unlinked. -/
structure Owns (s : History) : Prop where
  recorded : s.writer.shmName ≠ [] → Held s.log (cstr s.writer.shmName)
  unlinked : UnlinksOwn s.log

theorem close_owns {s : History} {t : History} (h : Owns s) (ht : s.call .close = some t) : Owns t := by
  cases ht
  refine ⟨fun hne => absurd rfl hne,?_⟩
  simp only [ShmIqWriter.close]
  split
  · rw [List.map_nil,List.append_nil]
    exact h.unlinked
  next hname =>
    apply h.unlinked.append
    intro name he
    cases he
    exact h.recorded fun hnil => hname (by rw [hnil]; rfl)

theorem event_ne_unlinked (granted : Bool) (name other : Str) :
    (OsCall.shmOpen name).event granted ≠ .unlinked other := by
  cases granted <;> exact nofun

theorem open_owns {s t : History} {os : OsAnswers} {name : Str} {total : UInt64}
    {geom : RadioGeometry} {scale : F32} {writer : ShmWriter} (h : Owns s)
    (hallowed : Allowed s (.openRegion os name total geom scale writer))
    (ht : s.call (.openRegion os name total geom scale writer) = some t) : Owns t := by
  cases ht
  rcases openRegion_cases os s.writer name total geom scale writer with
    ⟨-,hr⟩ | ⟨hm,hfail,hr⟩ | ⟨hm,hok,hrows,hr⟩ | ⟨hm,hrows,fd,hok,hr⟩
  · rw [hr]
    simp only [List.map_nil,List.append_nil]
    exact h
  · have hname : s.writer.shmName = name := by
      rcases hallowed with hmapped | ⟨-,hname⟩ | ⟨⟨fd,rfl⟩,-⟩
      · rw [hm] at hmapped
        cases hmapped
      · exact hname
      · rcases hfail with hc | hc | hc <;> cases hc
    rw [hr]
    refine ⟨fun hne => ?_,h.unlinked.append fun other he => absurd he (event_ne_unlinked _ _ _)⟩
    exact (hname ▸ h.recorded (by rw [hname]; exact hne)).append (event_ne_unlinked _ _ _)
  · obtain ⟨fd,rfl⟩ := hok
    have hopened : UnlinksOwn (s.log ++ [.opened (cstr name)]) :=
      h.unlinked.append fun other he => nomatch he
    rw [hr]
    refine ⟨fun hne => absurd rfl hne,?_⟩
    split
    · exact hopened
    · simp only [List.map_cons,List.map_nil]
      rw [← List.singleton_append,← List.append_assoc]
      apply hopened.append
      intro other he
      cases he
      exact held_opened s.log (cstr name)
  · subst hok
    rw [hr]
    exact ⟨fun _ => held_opened s.log (cstr name),h.unlinked.append fun other he => nomatch he⟩

theorem call_owns {s t : History} {c : WriterCall} (hallowed : Allowed s c) (h : Owns s)
    (ht : s.call c = some t) : Owns t := by
  cases c with
  | close => exact close_owns h ht
  | openRegion os name total geom scale writer => exact open_owns h hallowed ht

theorem fresh_owns : Owns {} :=
  ⟨fun hne => absurd rfl hne,fun before name since h => absurd h (by simp)⟩

/-- A run of calls on a new writer leaves no trace of a failed `open` and unlinks no foreign
name exactly if every call is allowed in the state in which it is made. -/
theorem no_trace_iff_allowed (calls : List WriterCall) :
    NoTrace calls ↔ Along History.call Allowed {} calls := by
  have hcongr : Along History.call LeavesNoTrace {} calls ↔ Along History.call Allowed {} calls :=
    along_congr (I := fun s => Unmapped s.writer) (fun s c t hs ht => call_unmapped hs ht)
      (fun s c hs => leavesNoTrace_iff_allowed s c hs) (fun _ => ⟨rfl,rfl,rfl⟩) calls
  unfold NoTrace
  rw [hcongr]
  refine ⟨And.left,fun hallowed => ⟨hallowed,fun s hrun => ?_⟩⟩
  have howns := run_invariant (I := Owns) (fun s c t hc hs ht => call_owns hc hs ht) fresh_owns
    hallowed hrun
  exact howns.unlinked

/-- The region belongs to someone else: `shm_open` is refused, then the writer is destroyed. -/
def refusedRun : List WriterCall :=
  [.openRegion ⟨none,false,false⟩ (str "/e3_ran_buffers") 1073741824 {} 0x3f800000 .controller,.close]

theorem refused_region_unlinked :
    (∃ s, run History.call {} refusedRun = some s ∧
      s.log = [.refused (str "/e3_ran_buffers"),.unlinked (str "/e3_ran_buffers")]) ∧
      ¬ NoTrace refusedRun := by
  obtain ⟨s,hrun,hlog⟩ : ∃ s, run History.call {} refusedRun = some s ∧
      s.log = [.refused (str "/e3_ran_buffers")] ++ .unlinked (str "/e3_ran_buffers") :: [] :=
    ⟨_,rfl,by decide⟩
  refine ⟨⟨s,hrun,hlog⟩,fun h => ?_⟩
  obtain ⟨before,since,hheld,-⟩ := h.2 s hrun _ _ _ hlog
  have hmem : NameEvent.opened (str "/e3_ran_buffers") ∈ [NameEvent.refused (str "/e3_ran_buffers")] := by
    rw [hheld]
    simp
  exact absurd (List.mem_singleton.mp hmem) nofun

end Shm
end E3Controller
