import E3Controller.ControllerModel

/-!
# Both pipelines inside of the controller

`Wired` relates the dispatcher's table to the two pipelines and accounts for every
buffer of the process. Every label keeps it, and under it every label is what
`Pipeline.step` allows each pipeline to do.
-/

namespace E3Controller
namespace Controller

open Dispatcher Pipeline SlotApi LabelledRun

variable {β α μ : Type}

theorem streams_ne : ecpriIqStreamId ≠ slotIqStreamId := by decide

section OnePipeline

variable [DecidableEq β] {k : Kind α μ} {s t : Pipeline.State β α μ} {a : Action β α}

omit [DecidableEq β] in
theorem ne_deliver (ha : viaDispatcher a = false) (bufs : List β) : a ≠ .deliver bufs := by
  rintro rfl
  cases ha

theorem step_poll_eq (ha : viaDispatcher a = false) (ht : Pipeline.step k s a = some t) :
    t.poll = s.poll := by
  cases a with
  | fill b v =>
    cases fill_move ht
    rfl
  | deliver bufs => cases ha
  | poll ok ts => cases ha
  | worker => cases workerStep_move ht <;> rfl
  | callStart => cases callStart_move ht <;> rfl
  | callStop => cases callStop_move ht <;> rfl
  | control ok => cases controlStep_move ht <;> rfl

theorem step_owned (ha : ∀ bufs, a ≠ .deliver bufs) (ht : Pipeline.step k s a = some t) :
    t.hist.owned.Sublist s.hist.owned ∧ t.hist.handed = s.hist.handed := by
  cases a with
  | fill b v =>
    cases fill_move ht
    exact ⟨List.Sublist.refl _,rfl⟩
  | deliver bufs => exact absurd rfl (ha bufs)
  | poll ok ts =>
    cases pollStep_move ht with
    | filter | reject => exact ⟨List.erase_sublist,rfl⟩
    | _ => exact ⟨List.Sublist.refl _,rfl⟩
  | worker =>
    cases workerStep_move ht with
    | release => exact ⟨List.erase_sublist,rfl⟩
    | _ => exact ⟨List.Sublist.refl _,rfl⟩
  | callStart => cases callStart_move ht <;> exact ⟨List.Sublist.refl _,rfl⟩
  | callStop => cases callStop_move ht <;> exact ⟨List.Sublist.refl _,rfl⟩
  | control ok =>
    cases controlStep_move ht with
    | drain => exact ⟨List.erase_sublist,rfl⟩
    | _ => exact ⟨List.Sublist.refl _,rfl⟩

theorem pollStep_registered {ok : Bool} {ts : UInt64} (ht : Pipeline.pollStep k s ok ts = some t) :
    t.registered = s.registered :=
  (inSession_frame (k := k) (a := .poll ok ts) rfl ht).2.2.1

theorem deliver_registered {bufs : List β} (hp : s.poll = .idle)
    (hfresh : bufs ≠ [] ∧ bufs.Nodup ∧ ∀ b ∈ bufs, b ∉ s.hist.owned) (hr : s.registered = true) :
    Pipeline.step k s (.deliver bufs) = some (hand s bufs) := by
  simp only [Pipeline.step,deliver,hp]
  rw [if_pos hfresh,if_pos hr]
  rfl

theorem deliver_unregistered {bufs : List β} (hp : s.poll = .idle)
    (hfresh : bufs ≠ [] ∧ bufs.Nodup ∧ ∀ b ∈ bufs, b ∉ s.hist.owned) (hr : s.registered = false) :
    Pipeline.step k s (.deliver bufs) = some s := by
  simp only [Pipeline.step,deliver,hp]
  rw [if_pos hfresh,if_neg (by simp [hr])]

end OnePipeline

section Table

variable {handlers : Handlers Handler} {id id' : StreamId} {handler : Handler}

theorem tableAfter_of_ne (hne : id' ≠ id) (c : ControlPc) (a : Action β α) :
    tableAfter id handler c a handlers id' = handlers id' := by
  unfold tableAfter
  split
  · exact registerStream_of_ne hne ..
  · exact unregisterStream_of_ne hne ..
  · rfl

theorem tableAfter_self [DecidableEq β] {k : Kind α μ} {s t : Pipeline.State β α μ}
    {a : Action β α} (h : handlers id = entry handler s.registered)
    (ht : Pipeline.step k s a = some t) :
    tableAfter id handler s.control a handlers id = entry handler t.registered := by
  cases a with
  | control ok =>
    cases controlStep_move ht with
    | register pc => simp [tableAfter,pc,entry]
    | unregister pc => simp [tableAfter,pc,entry]
    | load pc | loadFailed pc | loaded pc | reset pc | run pc | spawn pc | halt pc | join pc | loadHead pc
    | loadTail pc | drained pc | drain pc | storeTail pc | unload pc | keepUnloaded pc =>
      simpa only [tableAfter,pc] using h
  | callStart => cases callStart_move ht <;> exact h
  | callStop => cases callStop_move ht <;> exact h
  | fill b v =>
    rw [(inSession_frame rfl ht).2.2.1]
    exact h
  | deliver bufs =>
    rw [(inSession_frame rfl ht).2.2.1]
    exact h
  | poll ok ts =>
    rw [(inSession_frame rfl ht).2.2.1]
    exact h
  | worker =>
    rw [(inSession_frame rfl ht).2.2.1]
    exact h

end Table

structure Wired (ki : Kind IqSampleData PrbFilterConfig) (ks : Kind E3SlotDesc SlotMessage)
    (s : State β) : Prop where
  iqInv : Inv ki s.iq
  slotInv : Inv ks s.slot
  iqEntry : s.handlers ecpriIqStreamId = entry .iqPipeline s.iq.registered
  slotEntry : s.handlers slotIqStreamId = entry .slotIqPipeline s.slot.registered
  others : ∀ id, id ≠ ecpriIqStreamId → id ≠ slotIqStreamId → s.handlers id = none
  /-- One thread polls, so it is inside of at most one handler. -/
  onePoll : s.iq.poll = .idle ∨ s.slot.poll = .idle
  held : s.held.Nodup
  account : (s.batches.flatMap Prod.snd).Perm
    (s.freed ++ s.toRelease ++ s.iq.hist.handed ++ s.slot.hist.handed)
  iqStream : s.iq.hist.handed.Sublist (onStream ecpriIqStreamId s.batches)
  slotStream : s.slot.hist.handed.Sublist (onStream slotIqStreamId s.batches)

theorem entry_eq_some {handler : Handler} {registered : Bool} {e : StreamEntry Handler}
    (h : entry handler registered = some e) : e = ⟨handler,true⟩ ∧ registered = true := by
  cases registered <;> cases h
  exact ⟨rfl,rfl⟩

theorem entry_eq_none {handler : Handler} {registered : Bool}
    (h : entry handler registered = none) : registered = false := by
  cases registered
  · rfl
  · cases h

theorem Wired.registered {ki : Kind IqSampleData PrbFilterConfig} {ks : Kind E3SlotDesc SlotMessage}
    {s : State β} (h : Wired ki ks s) {id : StreamId} {e : StreamEntry Handler}
    (he : s.handlers id = some e) :
    id = ecpriIqStreamId ∧ e = ⟨.iqPipeline,true⟩ ∧ s.iq.registered = true ∨
      id = slotIqStreamId ∧ e = ⟨.slotIqPipeline,true⟩ ∧ s.slot.registered = true := by
  by_cases hi : id = ecpriIqStreamId
  · rw [hi,h.iqEntry] at he
    exact .inl ⟨hi,entry_eq_some he⟩
  · by_cases hs : id = slotIqStreamId
    · rw [hs,h.slotEntry] at he
      exact .inr ⟨hs,entry_eq_some he⟩
    · rw [h.others id hi hs] at he
      cases he

section Moves

variable [DecidableEq β] {ki : Kind IqSampleData PrbFilterConfig} {ks : Kind E3SlotDesc SlotMessage}
  {s t : State β} {l : Label β}

/-- The poll thread is between two batches and the new one is not held by anybody. -/
structure Fresh (s : State β) (bufs : List β) : Prop where
  iqIdle : s.iq.poll = .idle
  slotIdle : s.slot.poll = .idle
  released : s.toRelease = []
  nodup : bufs.Nodup
  free : ∀ b ∈ bufs, b ∉ s.held

/-- Everything a label can do once the table is known to follow the registrations. -/
inductive Move (ki : Kind IqSampleData PrbFilterConfig) (ks : Kind E3SlotDesc SlotMessage)
    (s : State β) : Label β → State β → Prop
  | nothing {id : StreamId} (fresh : Fresh s []) : Move ki ks s (.dispatch id []) s
  | unclaimed {id : StreamId} {bufs : List β} (fresh : Fresh s bufs) (ne : bufs ≠ [])
      (unregistered : s.handlers id = none) :
      Move ki ks s (.dispatch id bufs) { s with
        batches := s.batches ++ [(id,bufs)]
        toRelease := bufs }
  | toIq {bufs : List β} (fresh : Fresh s bufs) (ne : bufs ≠ []) (registered : s.iq.registered = true) :
      Move ki ks s (.dispatch ecpriIqStreamId bufs) { s with
        batches := s.batches ++ [(ecpriIqStreamId,bufs)]
        toRelease := []
        iq := hand s.iq bufs }
  | toSlot {bufs : List β} (fresh : Fresh s bufs) (ne : bufs ≠ [])
      (registered : s.slot.registered = true) :
      Move ki ks s (.dispatch slotIqStreamId bufs) { s with
        batches := s.batches ++ [(slotIqStreamId,bufs)]
        toRelease := []
        slot := hand s.slot bufs }
  | pollIq {ok : Bool} {ts : UInt64} {p : Pipeline.State β IqSampleData PrbFilterConfig}
      (busy : s.iq.poll ≠ .idle) (step : Pipeline.pollStep ki s.iq ok ts = some p) :
      Move ki ks s (.poll ok ts) { s with iq := p }
  | pollSlot {ok : Bool} {ts : UInt64} {p : Pipeline.State β E3SlotDesc SlotMessage}
      (idle : s.iq.poll = .idle) (busy : s.slot.poll ≠ .idle)
      (step : Pipeline.pollStep ks s.slot ok ts = some p) :
      Move ki ks s (.poll ok ts) { s with slot := p }
  | release {ok : Bool} {ts : UInt64} (iqIdle : s.iq.poll = .idle) (slotIdle : s.slot.poll = .idle) :
      Move ki ks s (.poll ok ts) { s with freed := s.freed ++ s.toRelease, toRelease := [] }
  | iq {a : Action β IqSampleData} {p : Pipeline.State β IqSampleData PrbFilterConfig}
      (own : viaDispatcher a = false) (step : Pipeline.step ki s.iq a = some p) :
      Move ki ks s (.iq a) { s with
        iq := p
        handlers := tableAfter ecpriIqStreamId .iqPipeline s.iq.control a s.handlers }
  | slot {a : Action β E3SlotDesc} {p : Pipeline.State β E3SlotDesc SlotMessage}
      (own : viaDispatcher a = false) (step : Pipeline.step ks s.slot a = some p) :
      Move ki ks s (.slot a) { s with
        slot := p
        handlers := tableAfter slotIqStreamId .slotIqPipeline s.slot.control a s.handlers }

theorem dispatchStep_move {id : StreamId} {bufs : List β} (h : Wired ki ks s)
    (ht : dispatchStep s id bufs = some t) : Move ki ks s (.dispatch id bufs) t := by
  unfold dispatchStep at ht
  split at ht
  next hguard =>
    have hfresh : Fresh s bufs :=
      ⟨hguard.1,hguard.2.1,hguard.2.2.1,hguard.2.2.2.1,hguard.2.2.2.2⟩
    cases bufs with
    | nil =>
      cases ht
      exact .nothing hfresh
    | cons b bufs =>
      have hpos : (0 : ℤ) < (b :: bufs).length := by simp
      rw [dispatch_of_pos _ _ hpos] at ht
      cases he : s.handlers id with
      | none =>
        simp only [he] at ht
        cases ht
        exact .unclaimed hfresh (by simp) he
      | some e =>
        rcases h.registered he with ⟨rfl,rfl,hr⟩ | ⟨rfl,rfl,hr⟩
        · simp only [he] at ht
          cases ht
          exact .toIq hfresh (by simp) hr
        · simp only [he] at ht
          cases ht
          exact .toSlot hfresh (by simp) hr
  · cases ht

theorem step_move (h : Wired ki ks s) (ht : step ki ks s l = some t) : Move ki ks s l t := by
  cases l with
  | dispatch id bufs => exact dispatchStep_move h ht
  | poll ok ts =>
    simp only [step,pollStep] at ht
    split at ht
    next hbusy =>
      obtain ⟨p,hp,rfl⟩ := Option.map_eq_some_iff.mp ht
      exact .pollIq hbusy hp
    next hidle =>
      rw [not_not] at hidle
      split at ht
      next hbusy =>
        obtain ⟨p,hp,rfl⟩ := Option.map_eq_some_iff.mp ht
        exact .pollSlot hidle hbusy hp
      next hidle' =>
        rw [not_not] at hidle'
        split at ht
        · cases ht
          exact .release hidle hidle'
        · cases ht
  | iq a =>
    simp only [step] at ht
    split at ht
    · cases ht
    next hown =>
      obtain ⟨p,hp,rfl⟩ := Option.map_eq_some_iff.mp ht
      exact .iq (by simp_all) hp
  | slot a =>
    simp only [step] at ht
    split at ht
    · cases ht
    next hown =>
      obtain ⟨p,hp,rfl⟩ := Option.map_eq_some_iff.mp ht
      exact .slot (by simp_all) hp

omit [DecidableEq β] in
theorem Fresh.toIq {bufs : List β} (h : Fresh s bufs) (ne : bufs ≠ []) :
    bufs ≠ [] ∧ bufs.Nodup ∧ ∀ b ∈ bufs, b ∉ s.iq.hist.owned :=
  ⟨ne,h.nodup,fun b hb ho => h.free b hb (by simp [State.held,ho])⟩

omit [DecidableEq β] in
theorem Fresh.toSlot {bufs : List β} (h : Fresh s bufs) (ne : bufs ≠ []) :
    bufs ≠ [] ∧ bufs.Nodup ∧ ∀ b ∈ bufs, b ∉ s.slot.hist.owned :=
  ⟨ne,h.nodup,fun b hb ho => h.free b hb (by simp [State.held,ho])⟩

/-- For the eCPRI pipeline every label is a run of its own transition function. -/
theorem step_seenByIq (h : Wired ki ks s) (ht : step ki ks s l = some t) :
    run (Pipeline.step ki) s.iq (seenByIq s l) = some t.iq := by
  cases step_move h ht with
  | nothing => simp [seenByIq]
  | @unclaimed id bufs fresh ne hnone =>
    by_cases hid : id = ecpriIqStreamId
    · rw [hid,h.iqEntry] at hnone
      simp only [seenByIq,hid,ne,true_and,not_false_eq_true,ne_eq,if_true]
      rw [run_cons_eq_some]
      exact ⟨_,deliver_unregistered fresh.iqIdle (fresh.toIq ne) (entry_eq_none hnone),rfl⟩
    · simp [seenByIq,hid]
  | toIq fresh ne hr =>
    simp only [seenByIq,ne,true_and,not_false_eq_true,ne_eq,if_true]
    rw [run_cons_eq_some]
    exact ⟨_,deliver_registered fresh.iqIdle (fresh.toIq ne) hr,rfl⟩
  | toSlot => simp [seenByIq,streams_ne.symm]
  | pollIq hbusy hp =>
    simp only [seenByIq,hbusy,ne_eq,not_false_eq_true,if_true]
    exact run_cons_eq_some.mpr ⟨_,hp,rfl⟩
  | pollSlot hidle => simp [seenByIq,hidle]
  | release hidle => simp [seenByIq,hidle]
  | iq _ hp => exact run_cons_eq_some.mpr ⟨_,hp,rfl⟩
  | slot => rfl

theorem step_seenBySlot (h : Wired ki ks s) (ht : step ki ks s l = some t) :
    run (Pipeline.step ks) s.slot (seenBySlot s l) = some t.slot := by
  cases step_move h ht with
  | nothing => simp [seenBySlot]
  | @unclaimed id bufs fresh ne hnone =>
    by_cases hid : id = slotIqStreamId
    · rw [hid,h.slotEntry] at hnone
      simp only [seenBySlot,hid,ne,true_and,not_false_eq_true,ne_eq,if_true]
      rw [run_cons_eq_some]
      exact ⟨_,deliver_unregistered fresh.slotIdle (fresh.toSlot ne) (entry_eq_none hnone),rfl⟩
    · simp [seenBySlot,hid]
  | toIq => simp [seenBySlot,streams_ne]
  | toSlot fresh ne hr =>
    simp only [seenBySlot,ne,true_and,not_false_eq_true,ne_eq,if_true]
    rw [run_cons_eq_some]
    exact ⟨_,deliver_registered fresh.slotIdle (fresh.toSlot ne) hr,rfl⟩
  | pollIq hbusy => simp [seenBySlot,hbusy]
  | pollSlot hidle hbusy hp =>
    simp only [seenBySlot,hidle,hbusy,ne_eq,not_false_eq_true,and_self,if_true]
    exact run_cons_eq_some.mpr ⟨_,hp,rfl⟩
  | release hidle hidle' => simp [seenBySlot,hidle']
  | iq => rfl
  | slot _ hp => exact run_cons_eq_some.mpr ⟨_,hp,rfl⟩

omit [DecidableEq β] in
theorem onStream_append (id id' : StreamId) (batches : List (StreamId × List β)) (bufs : List β) :
    onStream id (batches ++ [(id',bufs)]) =
      onStream id batches ++ if id' = id then bufs else [] := by
  by_cases hid : id' = id <;> simp [onStream,hid]

omit [DecidableEq β] in
theorem sublist_onStream {handed : List β} {id id' : StreamId} {batches : List (StreamId × List β)}
    {bufs : List β} (h : handed.Sublist (onStream id batches)) :
    handed.Sublist (onStream id (batches ++ [(id',bufs)])) := by
  rw [onStream_append]
  exact h.trans (List.sublist_append_left _ _)

omit [DecidableEq β] in
theorem held_of_sublist (h : s.held.Nodup) (hi : t.iq.hist.owned.Sublist s.iq.hist.owned)
    (hs : t.slot.hist.owned.Sublist s.slot.hist.owned) (hr : t.toRelease.Sublist s.toRelease) :
    t.held.Nodup :=
  h.sublist ((hi.append hs).append hr)

omit [DecidableEq β] in
theorem held_of_batch {bufs : List β} (h : s.held.Nodup) (hf : Fresh s bufs)
    (ht : t.held.Perm (s.held ++ bufs)) : t.held.Nodup := by
  rw [ht.nodup_iff,List.nodup_append]
  refine ⟨h,hf.nodup,?_⟩
  rintro x hx y hy rfl
  exact hf.free x hy hx

theorem wired_of_frame (h : Wired ki ks s) (ht : step ki ks s l = some t)
    (hentry : t.handlers ecpriIqStreamId = entry .iqPipeline t.iq.registered ∧
      t.handlers slotIqStreamId = entry .slotIqPipeline t.slot.registered ∧
      ∀ id, id ≠ ecpriIqStreamId → id ≠ slotIqStreamId → t.handlers id = none)
    (hpoll : t.iq.poll = .idle ∨ t.slot.poll = .idle) (hheld : t.held.Nodup)
    (haccount : (t.batches.flatMap Prod.snd).Perm
      (t.freed ++ t.toRelease ++ t.iq.hist.handed ++ t.slot.hist.handed))
    (hiq : t.iq.hist.handed.Sublist (onStream ecpriIqStreamId t.batches))
    (hslot : t.slot.hist.handed.Sublist (onStream slotIqStreamId t.batches)) : Wired ki ks t where
  iqInv := run_inv h.iqInv (step_seenByIq h ht)
  slotInv := run_inv h.slotInv (step_seenBySlot h ht)
  iqEntry := hentry.1
  slotEntry := hentry.2.1
  others := hentry.2.2
  onePoll := hpoll
  held := hheld
  account := haccount
  iqStream := hiq
  slotStream := hslot

theorem wired_step (h : Wired ki ks s) (ht : step ki ks s l = some t) : Wired ki ks t := by
  have hcount := List.perm_iff_count.mp h.account
  cases step_move h ht with
  | nothing => exact h
  | unclaimed hf =>
    refine wired_of_frame h ht ⟨h.iqEntry,h.slotEntry,h.others⟩ h.onePoll ?_ ?_
      (sublist_onStream h.iqStream) (sublist_onStream h.slotStream)
    · refine held_of_batch h.held hf ?_
      simp [State.held,hf.released]
    · rw [List.perm_iff_count]
      intro x
      have hx := hcount x
      simp only [hf.released,List.flatMap_append,List.count_append,List.flatMap_singleton,
        List.append_nil] at hx ⊢
      omega
  | toIq hf =>
    refine wired_of_frame h ht ⟨h.iqEntry,h.slotEntry,h.others⟩ (.inr hf.slotIdle) ?_ ?_ ?_
      (sublist_onStream h.slotStream)
    · refine held_of_batch h.held hf ?_
      rw [List.perm_iff_count]
      intro x
      simp only [State.held,hand,hf.released,List.count_append,List.append_nil]
      omega
    · rw [List.perm_iff_count]
      intro x
      have hx := hcount x
      simp only [hand,hf.released,List.flatMap_append,List.count_append,List.flatMap_singleton,
        List.append_nil] at hx ⊢
      omega
    · rw [onStream_append,if_pos rfl]
      exact h.iqStream.append (List.Sublist.refl _)
  | toSlot hf =>
    refine wired_of_frame h ht ⟨h.iqEntry,h.slotEntry,h.others⟩ (.inl hf.iqIdle) ?_ ?_
      (sublist_onStream h.iqStream) ?_
    · refine held_of_batch h.held hf ?_
      rw [List.perm_iff_count]
      intro x
      simp only [State.held,hand,hf.released,List.count_append,List.append_nil]
      omega
    · rw [List.perm_iff_count]
      intro x
      have hx := hcount x
      simp only [hand,hf.released,List.flatMap_append,List.count_append,List.flatMap_singleton,
        List.append_nil] at hx ⊢
      omega
    · rw [onStream_append,if_pos rfl]
      exact h.slotStream.append (List.Sublist.refl _)
  | pollIq hbusy hp =>
    obtain ⟨hown,hhanded⟩ := step_owned (k := ki) (a := .poll _ _) (by simp) hp
    refine wired_of_frame h ht ⟨?_,h.slotEntry,h.others⟩ (.inr (h.onePoll.resolve_left hbusy))
      (held_of_sublist h.held hown (List.Sublist.refl _) (List.Sublist.refl _)) ?_ ?_ h.slotStream
    · rw [pollStep_registered hp]
      exact h.iqEntry
    · rw [hhanded]
      exact h.account
    · rw [hhanded]
      exact h.iqStream
  | pollSlot hidle hbusy hp =>
    obtain ⟨hown,hhanded⟩ := step_owned (k := ks) (a := .poll _ _) (by simp) hp
    refine wired_of_frame h ht ⟨h.iqEntry,?_,h.others⟩ (.inl hidle)
      (held_of_sublist h.held (List.Sublist.refl _) hown (List.Sublist.refl _)) ?_ h.iqStream ?_
    · rw [pollStep_registered hp]
      exact h.slotEntry
    · rw [hhanded]
      exact h.account
    · rw [hhanded]
      exact h.slotStream
  | release hidle =>
    refine wired_of_frame h ht ⟨h.iqEntry,h.slotEntry,h.others⟩ (.inl hidle) ?_ ?_ h.iqStream
      h.slotStream
    · exact held_of_sublist h.held (List.Sublist.refl _) (List.Sublist.refl _) (List.nil_sublist _)
    · simpa only [List.append_nil] using h.account
  | iq hown hp =>
    obtain ⟨howned,hhanded⟩ := step_owned (ne_deliver hown) hp
    refine wired_of_frame h ht ⟨tableAfter_self h.iqEntry hp,?_,?_⟩ ?_
      (held_of_sublist h.held howned (List.Sublist.refl _) (List.Sublist.refl _)) ?_ ?_ h.slotStream
    · exact (tableAfter_of_ne streams_ne.symm _ _).trans h.slotEntry
    · exact fun id hi hs => (tableAfter_of_ne hi _ _).trans (h.others id hi hs)
    · rw [step_poll_eq hown hp]
      exact h.onePoll
    · rw [hhanded]
      exact h.account
    · rw [hhanded]
      exact h.iqStream
  | slot hown hp =>
    obtain ⟨howned,hhanded⟩ := step_owned (ne_deliver hown) hp
    refine wired_of_frame h ht ⟨?_,tableAfter_self h.slotEntry hp,?_⟩ ?_
      (held_of_sublist h.held (List.Sublist.refl _) howned (List.Sublist.refl _)) ?_ h.iqStream ?_
    · exact (tableAfter_of_ne streams_ne _ _).trans h.iqEntry
    · exact fun id hi hs => (tableAfter_of_ne hs _ _).trans (h.others id hi hs)
    · rw [step_poll_eq hown hp]
      exact h.onePoll
    · rw [hhanded]
      exact h.account
    · rw [hhanded]
      exact h.slotStream

end Moves

/-- A constructed process: two pipelines that were never started, with empty queues. -/
structure Constructed (s : State β) : Prop where
  iq : ∃ ring dropped total mem, ring.head = ring.tail ∧
    s.iq = Pipeline.State.constructed ring dropped total mem
  slot : ∃ ring dropped total mem, ring.head = ring.tail ∧
    s.slot = Pipeline.State.constructed ring dropped total mem
  process : s = State.constructed s.iq s.slot

theorem constructed_wired (ki : Kind IqSampleData PrbFilterConfig)
    (ks : Kind E3SlotDesc SlotMessage) {s : State β} (h : Constructed s) : Wired ki ks s := by
  obtain ⟨⟨ri,di,ti,mi,hri,hiq⟩,⟨rs,ds,ts,ms,hrs,hslot⟩,hs⟩ := h
  rw [hiq,hslot] at hs
  rw [hs]
  exact {
    iqInv := constructed_inv ki ri di ti mi hri
    slotInv := constructed_inv ks rs ds ts ms hrs
    iqEntry := rfl
    slotEntry := rfl
    others := fun _ _ _ => rfl
    onePoll := .inl rfl
    held := List.nodup_nil
    account := List.Perm.refl _
    iqStream := List.nil_sublist _
    slotStream := List.nil_sublist _ }

def givenBack (p : Pipeline.State β α μ) : List β :=
  p.hist.filtered ++ p.hist.rejected ++ p.hist.released ++ p.hist.drained

section Runs

variable [DecidableEq β] {ki : Kind IqSampleData PrbFilterConfig} {ks : Kind E3SlotDesc SlotMessage}
  {s₀ s : State β} {ls : List (Label β)}

theorem wired_run (h₀ : Constructed s₀) (hrun : run (step ki ks) s₀ ls = some s) : Wired ki ks s :=
  run_invariant_of_step (fun _ _ _ h ht => wired_step h ht) (constructed_wired ki ks h₀) hrun

theorem iq_run (h : Wired ki ks s₀) (hrun : run (step ki ks) s₀ ls = some s) :
    run (Pipeline.step ki) s₀.iq (seen (step ki ks) seenByIq s₀ ls) = some s.iq :=
  run_seen State.iq (fun _ _ _ h ht => wired_step h ht)
    (fun _ _ _ h ht => step_seenByIq h ht) h hrun

theorem slot_run (h : Wired ki ks s₀) (hrun : run (step ki ks) s₀ ls = some s) :
    run (Pipeline.step ks) s₀.slot (seen (step ki ks) seenBySlot s₀ ls) = some s.slot :=
  run_seen State.slot (fun _ _ _ h ht => wired_step h ht)
    (fun _ _ _ h ht => step_seenBySlot h ht) h hrun

structure Routed (ki : Kind IqSampleData PrbFilterConfig) (ks : Kind E3SlotDesc SlotMessage)
    (s₀ : State β) (ls : List (Label β)) (s : State β) : Prop where
  /-- Each pipeline has taken a run of its own. -/
  iqRun : run (Pipeline.step ki) s₀.iq (seen (step ki ks) seenByIq s₀ ls) = some s.iq
  slotRun : run (Pipeline.step ks) s₀.slot (seen (step ki ks) seenBySlot s₀ ls) = some s.slot
  /-- The table holds the streams of the registered pipelines and nothing else, each
  entry with `defer_release`. -/
  table : ∀ id e, s.handlers id = some e ↔
    id = ecpriIqStreamId ∧ e = ⟨.iqPipeline,true⟩ ∧ s.iq.registered = true ∨
      id = slotIqStreamId ∧ e = ⟨.slotIqPipeline,true⟩ ∧ s.slot.registered = true
  /-- The poll thread is inside of at most one `process_buffers`. -/
  onePoll : s.iq.poll = .idle ∨ s.slot.poll = .idle
  /-- A pipeline only gets what arrived on its own stream, in order. -/
  iqStream : s.iq.hist.handed.Sublist (onStream ecpriIqStreamId s.batches)
  slotStream : s.slot.hist.handed.Sublist (onStream slotIqStreamId s.batches)

omit [DecidableEq β] in
theorem Wired.table (h : Wired ki ks s) (id : StreamId) (e : StreamEntry Handler) :
    s.handlers id = some e ↔
      id = ecpriIqStreamId ∧ e = ⟨.iqPipeline,true⟩ ∧ s.iq.registered = true ∨
        id = slotIqStreamId ∧ e = ⟨.slotIqPipeline,true⟩ ∧ s.slot.registered = true := by
  refine ⟨h.registered,?_⟩
  rintro (⟨rfl,rfl,hr⟩ | ⟨rfl,rfl,hr⟩)
  · rw [h.iqEntry,hr]
    rfl
  · rw [h.slotEntry,hr]
    rfl

/-- In every run of the process, with any interleaving of the poll thread, both
workers and both callers of `start` and `stop`, each pipeline behaves as it does
alone with a dispatcher of its own. -/
theorem pipelines_refined (h₀ : Constructed s₀) (hrun : run (step ki ks) s₀ ls = some s) :
    Routed ki ks s₀ ls s := by
  have hs := wired_run h₀ hrun
  have hstart := constructed_wired ki ks h₀
  exact {
    iqRun := iq_run hstart hrun
    slotRun := slot_run hstart hrun
    table := hs.table
    onePoll := hs.onePoll
    iqStream := hs.iqStream
    slotStream := hs.slotStream }

theorem Wired.accounted (h : Wired ki ks s) : (s.batches.flatMap Prod.snd).Perm
    (s.freed ++ givenBack s.iq ++ givenBack s.slot ++ s.held) := by
  have hall := List.perm_iff_count.mp h.account
  have hiq := List.perm_iff_count.mp h.iqInv.handed
  have hslot := List.perm_iff_count.mp h.slotInv.handed
  rw [List.perm_iff_count]
  intro x
  have := hall x
  have := hiq x
  have := hslot x
  simp only [givenBack,State.held,List.count_append] at *
  omega

/-- Every buffer that arrived on any stream has been released exactly once for each
arrival or is still held, and nobody holds a buffer that another one holds. -/
theorem every_buffer_accounted (h₀ : Constructed s₀) (hrun : run (step ki ks) s₀ ls = some s) :
    (s.batches.flatMap Prod.snd).Perm
      (s.freed ++ givenBack s.iq ++ givenBack s.slot ++ s.held) ∧ s.held.Nodup :=
  ⟨(wired_run h₀ hrun).accounted,(wired_run h₀ hrun).held⟩

end Runs

def iqKind : Kind IqSampleData PrbFilterConfig :=
  iqPipeline { codeletBasePath := CString.str "codelets", expectedNumPrbu := 0 }

def slotKind : Kind E3SlotDesc SlotMessage := slotIqPipeline autoLoadConfig

def constructedBoth : State ℕ :=
  State.constructed (Pipeline.State.constructed emptyRing 0 0 fun _ => { direction := 1 }) constructedSlot

theorem constructedBoth_constructed : Constructed constructedBoth :=
  ⟨⟨emptyRing,0,0,_,rfl,rfl⟩,⟨emptyRing,0,0,_,rfl,rfl⟩,rfl⟩

def routedRun : List (Label ℕ) :=
  startRun.map .iq ++ startRun.map .slot ++
    .dispatch ecpriIqStreamId [1] :: List.replicate 9 (.poll true 0) ++
    .dispatch slotIqStreamId [2] :: List.replicate 10 (.poll true 0) ++
    [.dispatch #v[0,0,0,0,0,0,0,0,0,0,0,0,0,0,0,0] [3],.poll true 0]

theorem pipelines_refined_routed :
    ∃ s, run (step iqKind slotKind) constructedBoth routedRun = some s ∧ s.iq.hist.handed = [1] ∧
      s.slot.hist.handed = [2] ∧ s.freed = [3] ∧ Routed iqKind slotKind constructedBoth routedRun s := by
  refine ⟨_,rfl,rfl,rfl,rfl,?_⟩
  exact pipelines_refined constructedBoth_constructed rfl

theorem every_buffer_accounted_routed :
    ∃ s, run (step iqKind slotKind) constructedBoth routedRun = some s ∧ s.held = [1,2] ∧
      (s.batches.flatMap Prod.snd).Perm
        (s.freed ++ givenBack s.iq ++ givenBack s.slot ++ s.held) ∧ s.held.Nodup := by
  refine ⟨_,rfl,rfl,?_⟩
  exact every_buffer_accounted constructedBoth_constructed
    (show run (step iqKind slotKind) constructedBoth routedRun = some _ from rfl)

end Controller
end E3Controller
