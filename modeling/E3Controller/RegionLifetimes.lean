import E3Controller.LabelledRun
import E3Controller.ShmRegion
import E3Controller.SlotApi

/-!
# Controller lifetimes against one gNB helper

Each controller creates a region, announces it with an `e3_shm_cfg` after every
load, and unlinks it at the end. The helper outlives the controllers and, as the
source describes it, ignores a configuration that carries the epoch it is already
attached with. The epoch is documented as bumped with every new region; no code
does so, and only the first announced region is ever written.
-/

namespace E3Controller
namespace RegionLifetimes

open CString Config Shm SlotApi

/-- A running controller, its writer and the region instance `open` gave it. -/
structure Controller where
  config : ControllerConfig
  writer : ShmIqWriter
  region : ℕ

/-- Linked names, the running controller and the helper's mapping with its epoch.
`accepted` is the region of the controller whose configuration was accepted last,
`sent` holds each configuration's epoch and the region it was sent for, and
`published` each slot's intended and actual region. -/
structure World where
  names : Str → Option ℕ := fun _ => none
  next : ℕ := 0
  controller : Option Controller := none
  helper : Option (UInt16 × ℕ) := none
  accepted : Option ℕ := none
  sent : List (UInt16 × ℕ) := []
  published : List (ℕ × ℕ) := []

inductive Event
  | openRegion (os : OsAnswers) (config : ControllerConfig)
  | sendShmCfg
  | publishSlot
  | close

def World.call (w : World) : OsCall → World
  | .shmOpen name =>
    match w.names name with
    | some _ => w
    | none => { w with names := Function.update w.names name (some w.next), next := w.next + 1 }
  | .shmUnlink name => { w with names := Function.update w.names name none }

/-- The helper's attach: nothing to do for the epoch it is attached with,
otherwise the region is mapped by name. -/
def attach (w : World) (cfg : E3ShmCfg) : Option (UInt16 × ℕ) :=
  match w.helper with
  | some (epoch,region) =>
    if epoch = cfg.epoch then some (epoch,region)
    else (w.names (cstr cfg.name)).map fun r => (cfg.epoch,r)
  | none => (w.names (cstr cfg.name)).map fun r => (cfg.epoch,r)

/-- A new controller opens its region; one that fails is destroyed at once. -/
def openController (w : World) (os : OsAnswers) (c : ControllerConfig) : Option World :=
  if w.controller.isSome || (os.shmOpen.isSome && (cstr c.shm.name).isEmpty) then none
  else
    let opened := ({} : ShmIqWriter).openRegion os c.shm.name c.shm.sizeBytes c.radio
      c.shm.cbf16Scale c.shm.writer
    let w := if os.shmOpen.isSome then opened.2.2.foldl World.call w else w
    if opened.1 then
      (w.names (cstr c.shm.name)).map fun r => { w with controller := some ⟨c,opened.2.1,r⟩ }
    else some (opened.2.1.close.2.foldl World.call w)

def sendShmCfg (w : World) : Option World :=
  match w.controller with
  | none => none
  | some ctl =>
    match ctl.config.shm.writer with
    | .controller => none
    | .gnb =>
      let cfg := shmCfgMessage (slotPipelineConfig ctl.config)
      let sent := w.sent ++ [(cfg.epoch,ctl.region)]
      match attach w cfg with
      | some mapping => some { w with
          helper := some mapping, accepted := some ctl.region, sent := sent }
      | none => some { w with sent := sent }

def step (w : World) : Event → Option World
  | .openRegion os c => openController w os c
  | .sendShmCfg => sendShmCfg w
  | .publishSlot =>
    match w.helper, w.accepted with
    | some mapping, some region =>
      some { w with published := w.published ++ [(region,mapping.2)] }
    | _, _ => none
  | .close =>
    w.controller.map fun ctl => ctl.writer.close.2.foldl World.call { w with controller := none }

/-- Every slot goes to the region of the controller whose configuration the
helper accepted, and no two regions were announced under one epoch. -/
structure Safe (w : World) : Prop where
  published : ∀ p ∈ w.published, p.1 = p.2
  epochs : ∀ p ∈ w.sent, ∀ q ∈ w.sent, p.2 ≠ q.2 → p.1 ≠ q.1

/-- A configuration is only sent for a region if none was sent for another one. -/
def OnlyRegion (w : World) : Event → Prop
  | .sendShmCfg => ∀ p ∈ w.sent, some p.2 = w.controller.map Controller.region
  | _ => True

instance (w : World) (e : Event) : Decidable (OnlyRegion w e) :=
  match e with
  | .sendShmCfg => inferInstanceAs
      (Decidable (∀ p ∈ w.sent, some p.2 = w.controller.map Controller.region))
  | .openRegion _ _ | .publishSlot | .close => isTrue trivial

/-- What holds of every world: only the running controller's region is linked,
and the helper, the acceptance and the slots refer to announced regions. -/
structure Inv (w : World) : Prop where
  linked : ∀ n r, w.names n = some r →
    ∃ ctl, w.controller = some ctl ∧ ctl.region = r ∧ n = cstr ctl.config.shm.name
  named : ∀ ctl, w.controller = some ctl →
    ctl.writer.shmName = ctl.config.shm.name ∧ ctl.config.shm.name ≠ []
  epochs : ∀ p ∈ w.sent, p.1 = 1
  helper : ∀ p, w.helper = some p → p ∈ w.sent
  accepted : ∀ r, w.accepted = some r → ∃ p ∈ w.sent, p.2 = r
  published : ∀ p ∈ w.published, (∃ q ∈ w.sent, q.2 = p.1) ∧ ∃ q ∈ w.sent, q.2 = p.2

structure SameLog (t w : World) : Prop where
  controller : t.controller = w.controller
  helper : t.helper = w.helper
  accepted : t.accepted = w.accepted
  sent : t.sent = w.sent
  published : t.published = w.published

theorem initial_inv : Inv {} where
  linked := by simp
  named := by simp
  epochs := by simp
  helper := by simp
  accepted := by simp
  published := by simp

section Calls

variable {w t : World} {os : OsAnswers}

theorem SameLog.trans {u : World} (h : SameLog u t) (h' : SameLog t w) : SameLog u w :=
  ⟨h.1.trans h'.1,h.2.trans h'.2,h.3.trans h'.3,h.4.trans h'.4,h.5.trans h'.5⟩

theorem call_sameLog (w : World) (call : OsCall) : SameLog (w.call call) w := by
  cases call with
  | shmOpen name =>
    simp only [World.call]
    split
    · exact ⟨rfl,rfl,rfl,rfl,rfl⟩
    · exact ⟨rfl,rfl,rfl,rfl,rfl⟩
  | shmUnlink name => exact ⟨rfl,rfl,rfl,rfl,rfl⟩

theorem foldl_call_sameLog (calls : List OsCall) (w : World) :
    SameLog (calls.foldl World.call w) w := by
  induction calls generalizing w with
  | nil => exact ⟨rfl,rfl,rfl,rfl,rfl⟩
  | cons call calls ih => exact (ih (w.call call)).trans (call_sameLog w call)

theorem unlink_names (name n : Str) :
    (w.call (.shmUnlink name)).names n = if n = name then none else w.names n := by
  simp [World.call,Function.update_apply]

theorem link_names (name n : Str) (h : ∀ n, w.names n = none) :
    (w.call (.shmOpen name)).names n = if n = name then some w.next else none := by
  simp [World.call,h,Function.update_apply]

/-- `open` on a fresh writer: it keeps the name it was given, unless it found no
row and closed the region again. -/
theorem openRegion_fresh (os : OsAnswers) (name : Str) (total : UInt64) (g : RadioGeometry) (scale : F32)
    (writer : ShmWriter) :
    let opened := ({} : ShmIqWriter).openRegion os name total g scale writer
    (opened.2.2 = [.shmOpen (cstr name)] ∧ opened.2.1.shmName = name) ∨
      (opened.1 = false ∧ opened.2.1.shmName = [] ∧ opened.2.2 = .shmOpen (cstr name) ::
        if name.isEmpty then [] else [.shmUnlink (cstr name)]) := by
  rcases openRegion_cases os {} name total g scale writer with
    ⟨hm,-⟩ | ⟨-,-,h⟩ | ⟨-,-,-,h⟩ | ⟨-,-,fd,-,h⟩
  · cases hm
  · exact .inl ⟨congrArg (·.2.2) h,congrArg (·.2.1.shmName) h⟩
  · exact .inr ⟨congrArg (·.1) h,congrArg (·.2.1.shmName) h,congrArg (·.2.2) h⟩
  · exact .inl ⟨congrArg (·.2.2) h,congrArg (·.2.1.shmName) h⟩

end Calls

section Steps

variable {w t : World}

theorem Inv.of_sent (h : Inv w) (hh : t.helper = w.helper) (ha : t.accepted = w.accepted)
    (hs : t.sent = w.sent) (hp : t.published = w.published)
    (hlinked : ∀ n r, t.names n = some r →
      ∃ ctl, t.controller = some ctl ∧ ctl.region = r ∧ n = cstr ctl.config.shm.name)
    (hnamed : ∀ ctl, t.controller = some ctl →
      ctl.writer.shmName = ctl.config.shm.name ∧ ctl.config.shm.name ≠ []) : Inv t where
  linked := hlinked
  named := hnamed
  epochs := hs ▸ h.epochs
  helper := by rw [hh,hs]; exact h.helper
  accepted := by rw [ha,hs]; exact h.accepted
  published := by rw [hp,hs]; exact h.published

theorem Inv.unlinked (h : Inv w) (hc : w.controller = none) (n : Str) : w.names n = none := by
  cases hn : w.names n with
  | none => rfl
  | some r =>
    obtain ⟨ctl,hctl,-⟩ := h.linked n r hn
    rw [hc] at hctl
    cases hctl

theorem Inv.of_unlinked (h : Inv w) (ht : SameLog t w) (hc : w.controller = none)
    (hn : ∀ n, t.names n = none) : Inv t := by
  refine h.of_sent ht.helper ht.accepted ht.sent ht.published ?_ ?_
  · intro n r hr
    rw [hn] at hr
    cases hr
  · intro ctl hctl
    rw [ht.controller,hc] at hctl
    cases hctl

theorem close_after_failure {name : Str} {opened : Bool × ShmIqWriter × List OsCall}
    (hn : ∀ n, w.names n = none) (hne : cstr name ≠ [])
    (hopened : (opened.2.2 = [.shmOpen (cstr name)] ∧ opened.2.1.shmName = name) ∨
      (opened.1 = false ∧ opened.2.1.shmName = [] ∧ opened.2.2 = .shmOpen (cstr name) ::
        if name.isEmpty then [] else [.shmUnlink (cstr name)])) (n : Str) :
    (opened.2.1.close.2.foldl World.call (opened.2.2.foldl World.call w)).names n = none := by
  have hname : name.isEmpty = false := by
    cases name with
    | nil => exact absurd rfl hne
    | cons b bs => rfl
  rcases hopened with ⟨hcalls,hshm⟩ | ⟨-,hshm,hcalls⟩
  · simp [ShmIqWriter.close,hcalls,hshm,hname,unlink_names,link_names,hn]
  · simp [ShmIqWriter.close,hcalls,hshm,hname,unlink_names,link_names,hn]

theorem openController_inv {os : OsAnswers} {c : ControllerConfig} (h : Inv w)
    (ht : openController w os c = some t) : Inv t ∧ t.sent = w.sent := by
  unfold openController at ht
  split at ht
  · cases ht
  next hguard =>
    simp only [Bool.or_eq_true,Bool.and_eq_true,not_or,not_and,Bool.not_eq_true,
      Option.isSome_eq_false_iff,Option.isNone_iff_eq_none] at hguard
    obtain ⟨hc,hname⟩ := hguard
    have hn := h.unlinked hc
    have hopened := openRegion_fresh os c.shm.name c.shm.sizeBytes c.radio c.shm.cbf16Scale
      c.shm.writer
    simp only at ht hopened
    generalize ({} : ShmIqWriter).openRegion os c.shm.name c.shm.sizeBytes c.radio
      c.shm.cbf16Scale c.shm.writer = opened at ht hopened
    by_cases hos : os.shmOpen.isSome = true
    · have hne : cstr c.shm.name ≠ [] := by simpa using hname hos
      simp only [hos,if_true] at ht
      split at ht
      next hok =>
        obtain ⟨r,hr,rfl⟩ := Option.map_eq_some_iff.mp ht
        have hlog := foldl_call_sameLog opened.2.2 w
        rcases hopened with ⟨hcalls,hshm⟩ | ⟨hfalse,-⟩
        · refine ⟨h.of_sent hlog.helper hlog.accepted hlog.sent hlog.published ?_ ?_,hlog.sent⟩
          · intro n r' hr'
            rw [hcalls,List.foldl_cons,List.foldl_nil,link_names _ _ hn] at hr hr'
            rw [if_pos rfl] at hr
            split_ifs at hr' with hcn
            exact ⟨_,rfl,Option.some.inj (hr.symm.trans hr'),hcn⟩
          · rintro ctl hctl
            cases hctl
            refine ⟨hshm,?_⟩
            rintro hnil
            exact hne (by rw [hnil]; rfl)
        · rw [hfalse] at hok
          cases hok
      · cases ht
        have hlog := (foldl_call_sameLog opened.2.1.close.2 (opened.2.2.foldl World.call w)).trans
          (foldl_call_sameLog opened.2.2 w)
        exact ⟨h.of_unlinked hlog hc (close_after_failure hn hne hopened),hlog.sent⟩
    · simp only [hos,Bool.false_eq_true,if_false] at ht
      split at ht
      · simp [hn] at ht
      · cases ht
        have hlog := foldl_call_sameLog opened.2.1.close.2 w
        refine ⟨h.of_unlinked hlog hc fun n => ?_,hlog.sent⟩
        simp only [ShmIqWriter.close]
        split_ifs
        · exact hn n
        · simp [unlink_names,hn]

theorem close_inv (h : Inv w) (ht : step w .close = some t) : Inv t ∧ t.sent = w.sent := by
  obtain ⟨ctl,hctl,rfl⟩ := Option.map_eq_some_iff.mp ht
  obtain ⟨hshm,hne⟩ := h.named ctl hctl
  have hlog := foldl_call_sameLog ctl.writer.close.2 { w with controller := none }
  refine ⟨h.of_sent hlog.helper hlog.accepted hlog.sent hlog.published ?_ ?_,hlog.sent⟩
  · intro n r hr
    have hemp : ctl.config.shm.name.isEmpty = false := by simpa using hne
    simp only [ShmIqWriter.close,hshm,hemp,Bool.false_eq_true,if_false,List.foldl_cons,
      List.foldl_nil,unlink_names] at hr
    split_ifs at hr with hcn
    obtain ⟨ctl',hctl',-,hn'⟩ := h.linked n r hr
    rw [hctl] at hctl'
    cases hctl'
    exact absurd hn' hcn
  · intro ctl' hctl'
    rw [hlog.controller] at hctl'
    cases hctl'

theorem attach_cases {cfg : E3ShmCfg} {mapping : UInt16 × ℕ} (h : attach w cfg = some mapping) :
    w.helper = some mapping ∨
      (mapping.1 = cfg.epoch ∧ w.names (cstr cfg.name) = some mapping.2) := by
  unfold attach at h
  split at h
  next epoch region hh =>
    split at h
    · exact .inl (hh.trans h)
    · obtain ⟨r,hr,rfl⟩ := Option.map_eq_some_iff.mp h
      exact .inr ⟨rfl,hr⟩
  · obtain ⟨r,hr,rfl⟩ := Option.map_eq_some_iff.mp h
    exact .inr ⟨rfl,hr⟩

theorem Inv.announce (h : Inv w) (ctl : Controller) (hnames : t.names = w.names)
    (hc : t.controller = w.controller) (hs : t.sent = w.sent ++ [(1,ctl.region)])
    (hp : t.published = w.published) (hh : ∀ p, t.helper = some p → p ∈ t.sent)
    (ha : ∀ r, t.accepted = some r → ∃ p ∈ t.sent, p.2 = r) : Inv t where
  linked := by rw [hnames,hc]; exact h.linked
  named := by rw [hc]; exact h.named
  epochs := by
    intro p hmem
    rw [hs] at hmem
    rcases List.mem_append.mp hmem with hmem | hmem
    · exact h.epochs p hmem
    · rw [List.mem_singleton.mp hmem]
  helper := hh
  accepted := ha
  published := by
    intro p hmem
    rw [hp] at hmem
    obtain ⟨⟨q,hq,hq'⟩,r,hr,hr'⟩ := h.published p hmem
    rw [hs]
    exact ⟨⟨q,List.mem_append_left _ hq,hq'⟩,r,List.mem_append_left _ hr,hr'⟩

/-- Every configuration goes out with epoch 1, for the running controller's region. -/
theorem sendShmCfg_inv (h : Inv w) (ht : sendShmCfg w = some t) :
    Inv t ∧ ∃ ctl, w.controller = some ctl ∧ t.sent = w.sent ++ [(1,ctl.region)] := by
  unfold sendShmCfg at ht
  split at ht
  · cases ht
  next ctl hctl =>
    split at ht
    · cases ht
    · simp only at ht
      split at ht
      next mapping hattach =>
        cases ht
        refine ⟨h.announce ctl rfl rfl rfl rfl ?_ ?_,ctl,hctl,rfl⟩
        · rintro p hp
          cases hp
          rcases attach_cases hattach with hold | ⟨hepoch,hname⟩
          · exact List.mem_append_left _ (h.helper _ hold)
          · obtain ⟨ctl',hctl',hregion,-⟩ := h.linked _ _ hname
            rw [hctl] at hctl'
            cases hctl'
            refine List.mem_append_right _ (List.mem_singleton.mpr ?_)
            exact Prod.ext hepoch hregion.symm
        · rintro r hr
          cases hr
          exact ⟨_,List.mem_append_right _ (List.mem_singleton.mpr rfl),rfl⟩
      · cases ht
        refine ⟨h.announce ctl rfl rfl rfl rfl ?_ ?_,ctl,hctl,rfl⟩
        · exact fun p hp => List.mem_append_left _ (h.helper p hp)
        · intro r hr
          obtain ⟨q,hq,hq'⟩ := h.accepted r hr
          exact ⟨q,List.mem_append_left _ hq,hq'⟩

theorem publishSlot_inv (h : Inv w) (ht : step w .publishSlot = some t) :
    Inv t ∧ t.sent = w.sent := by
  simp only [step] at ht
  split at ht
  next mapping region hh ha =>
    cases ht
    refine ⟨⟨h.linked,h.named,h.epochs,h.helper,h.accepted,?_⟩,rfl⟩
    intro p hp
    rcases List.mem_append.mp hp with hp | hp
    · exact h.published p hp
    · rw [List.mem_singleton.mp hp]
      exact ⟨h.accepted region ha,mapping,h.helper mapping hh,rfl⟩
  · cases ht

def OneRegion (w : World) : Prop := ∀ p ∈ w.sent, ∀ q ∈ w.sent, p.2 = q.2

theorem oneRegion_append {region : ℕ} (hs : t.sent = w.sent ++ [(1,region)]) :
    OneRegion t ↔ OneRegion w ∧ ∀ p ∈ w.sent, p.2 = region := by
  simp only [OneRegion,hs,List.mem_append,List.mem_singleton]
  constructor
  · intro h
    exact ⟨fun p hp q hq => h p (.inl hp) q (.inl hq),fun p hp => h p (.inl hp) _ (.inr rfl)⟩
  · rintro ⟨h,hr⟩ p (hp | rfl) q (hq | rfl)
    · exact h p hp q hq
    · exact hr p hp
    · exact (hr q hq).symm
    · rfl

/-- One event keeps the invariant, and keeps to one region exactly when its
condition holds. -/
theorem step_spec {e : Event} (h : Inv w) (ht : step w e = some t) :
    Inv t ∧ (OneRegion t ↔ OneRegion w ∧ OnlyRegion w e) := by
  have hsame : t.sent = w.sent → (OneRegion t ↔ OneRegion w ∧ True) := by
    intro hs
    simp only [OneRegion,hs,and_true]
  cases e with
  | openRegion os c =>
    obtain ⟨hinv,hs⟩ := openController_inv h ht
    exact ⟨hinv,hsame hs⟩
  | publishSlot =>
    obtain ⟨hinv,hs⟩ := publishSlot_inv h ht
    exact ⟨hinv,hsame hs⟩
  | close =>
    obtain ⟨hinv,hs⟩ := close_inv h ht
    exact ⟨hinv,hsame hs⟩
  | sendShmCfg =>
    obtain ⟨hinv,ctl,hctl,hs⟩ := sendShmCfg_inv h ht
    refine ⟨hinv,?_⟩
    rw [oneRegion_append hs]
    simp only [OnlyRegion,hctl,Option.map_some,Option.some.injEq]

theorem run_spec {es : List Event} (h : Inv w) (hrun : LabelledRun.run step w es = some t) :
    Inv t ∧ (OneRegion t ↔ OneRegion w ∧ LabelledRun.Along step OnlyRegion w es) := by
  induction es generalizing w with
  | nil =>
    have ht : w = t := by simpa using hrun
    subst ht
    exact ⟨h,by simp [LabelledRun.Along]⟩
  | cons e es ih =>
    obtain ⟨u,hu,hrun⟩ := LabelledRun.run_cons_eq_some.mp hrun
    obtain ⟨hinv,hone⟩ := step_spec h hu
    obtain ⟨hinv',hone'⟩ := ih hinv hrun
    refine ⟨hinv',?_⟩
    rw [hone',hone]
    constructor
    · rintro ⟨⟨hw,he⟩,halong⟩
      refine ⟨hw,he,fun u' hu' => ?_⟩
      rw [hu] at hu'
      cases hu'
      exact halong
    · rintro ⟨hw,he,halong⟩
      exact ⟨⟨hw,he⟩,halong u hu⟩

/-- With one epoch for all regions, safety is that there was one region. -/
theorem safe_iff_oneRegion (h : Inv w) : Safe w ↔ OneRegion w := by
  constructor
  · intro hs p hp q hq
    by_contra hne
    exact hs.epochs p hp q hq hne ((h.epochs p hp).trans (h.epochs q hq).symm)
  · intro ho
    refine ⟨fun p hp => ?_,fun p hp q hq hne => absurd (ho p hp q hq) hne⟩
    obtain ⟨⟨q,hq,hq'⟩,r,hr,hr'⟩ := h.published p hp
    rw [← hq',← hr']
    exact ho q hq r hr

end Steps

/-- A run of lifetimes never writes a stale mapping exactly when no configuration
is sent for a second region. -/
theorem safe_iff_onlyRegion (es : List Event) (w : World)
    (hrun : LabelledRun.run step {} es = some w) :
    Safe w ↔ LabelledRun.Along step OnlyRegion {} es := by
  obtain ⟨hinv,hone⟩ := run_spec initial_inv hrun
  rw [safe_iff_oneRegion hinv,hone]
  simp [OneRegion]

def oneLifetime : List Event :=
  [.openRegion ⟨some 3,true,true⟩ {},.sendShmCfg,.publishSlot,.sendShmCfg,.publishSlot,.close]

theorem safe_iff_onlyRegion_oneLifetime :
    ∃ w, LabelledRun.run step {} oneLifetime = some w ∧ w.published = [(0,0),(0,0)] ∧ Safe w := by
  obtain ⟨w,hrun,hp⟩ : ∃ w, LabelledRun.run step {} oneLifetime = some w ∧
      w.published = [(0,0),(0,0)] := ⟨_,rfl,rfl⟩
  exact ⟨w,hrun,hp,(safe_iff_onlyRegion oneLifetime w hrun).mpr (by decide +kernel)⟩

/-- A restarted controller announces its new region under the old epoch; the
helper goes on writing the unlinked one. -/
theorem restarted_controller_gets_no_rows :
    ∃ w, LabelledRun.run step {} (oneLifetime ++ oneLifetime.take 3) = some w ∧
      w.published = [(0,0),(0,0),(1,0)] ∧ w.sent = [(1,0),(1,0),(1,1)] ∧ ¬ Safe w := by
  obtain ⟨w,hrun,hp,hs⟩ : ∃ w, LabelledRun.run step {} (oneLifetime ++ oneLifetime.take 3) = some w ∧
      w.published = [(0,0),(0,0),(1,0)] ∧ w.sent = [(1,0),(1,0),(1,1)] := ⟨_,rfl,rfl,rfl⟩
  refine ⟨w,hrun,hp,hs,fun h => ?_⟩
  have heq := h.published (1,0) (by simp [hp])
  cases heq

end RegionLifetimes
end E3Controller
