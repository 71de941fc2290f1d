import Mathlib.Data.List.Basic

/-! Runs of a partial labelled transition function, and the one induction rule
every safety theorem is derived from. A label is refused by returning `none`;
conditions on a run are conditions on the state before each label. -/
namespace LabelledRun

variable {S A : Type*} {step : S → A → Option S}

/-- Execute a list of labels; a refused label ends the run. -/
def run (step : S → A → Option S) : S → List A → Option S
  | s, [] => some s
  | s, a :: as => (step s a).bind fun t => run step t as

/-- Every label of the run from `s` meets `C` in the state in which it is taken. -/
def Along (step : S → A → Option S) (C : S → A → Prop) : S → List A → Prop
  | _, [] => True
  | s, a :: as => C s a ∧ ∀ t, step s a = some t → Along step C t as

instance decidableAlong {C : S → A → Prop} [∀ s a, Decidable (C s a)] :
    ∀ (s : S) (as : List A), Decidable (Along step C s as)
  | _, [] => isTrue trivial
  | s, a :: as =>
    match h : step s a with
    | none => decidable_of_iff (C s a)
        ⟨fun hc => ⟨hc,fun t ht => absurd (h.symm.trans ht) (by simp)⟩,And.left⟩
    | some t =>
      have := decidableAlong (C := C) t as
      decidable_of_iff (C s a ∧ Along step C t as)
        ⟨fun hc => ⟨hc.1,fun u hu => Option.some.inj (h.symm.trans hu) ▸ hc.2⟩,
          fun hc => ⟨hc.1,hc.2 t h⟩⟩

@[simp] theorem run_nil (s : S) : run step s [] = some s := rfl

theorem run_cons_eq_some {s u : S} {a : A} {as : List A} :
    run step s (a :: as) = some u ↔ ∃ t, step s a = some t ∧ run step t as = some u := by
  simp [run,Option.bind_eq_some_iff]

theorem run_append_eq_some {s u : S} {as bs : List A} :
    run step s (as ++ bs) = some u ↔ ∃ t, run step s as = some t ∧ run step t bs = some u := by
  induction as generalizing s with
  | nil => simp
  | cons a as ih =>
    rw [List.cons_append,run_cons_eq_some]
    simp only [run_cons_eq_some,ih]
    constructor
    · rintro ⟨t,ht,v,hv,hu⟩
      exact ⟨v,⟨t,ht,hv⟩,hu⟩
    · rintro ⟨v,⟨t,ht,hv⟩,hu⟩
      exact ⟨t,ht,v,hv,hu⟩

/-- A change of state that no label of the run notices can be made before it or after it. -/
theorem run_map {f : S → S} {P : A → Prop} (hf : ∀ s a, P a → step (f s) a = (step s a).map f)
    {as : List A} (has : ∀ a ∈ as, P a) (s : S) : run step (f s) as = (run step s as).map f := by
  induction as generalizing s with
  | nil => rfl
  | cons a as ih =>
    rw [run,run,hf s a (has a (by simp))]
    cases step s a with
    | none => rfl
    | some t => exact ih (fun b hb => has b (by simp [hb])) t

/-- An invariant kept by every label that meets `C` holds after a run along `C`. -/
theorem run_invariant {C : S → A → Prop} {I : S → Prop}
    (hstep : ∀ s a t, C s a → I s → step s a = some t → I t) {s u : S} {as : List A}
    (hs : I s) (hC : Along step C s as) (hrun : run step s as = some u) : I u := by
  induction as generalizing s with
  | nil =>
    have hu : s = u := by simpa using hrun
    exact hu ▸ hs
  | cons a as ih =>
    obtain ⟨t,ht,hrun⟩ := run_cons_eq_some.mp hrun
    exact ih (hstep s a t hC.1 hs ht) (hC.2 t ht) hrun

theorem along_congr {C D : S → A → Prop} {I : S → Prop}
    (hstep : ∀ s a t, I s → step s a = some t → I t) (h : ∀ s a, I s → (C s a ↔ D s a)) {s : S}
    (hs : I s) (as : List A) : Along step C s as ↔ Along step D s as := by
  induction as generalizing s with
  | nil => exact Iff.rfl
  | cons a as ih =>
    refine and_congr (h s a hs) (forall_congr' fun t => imp_congr_right fun ht => ?_)
    exact ih (hstep s a t hs ht)

theorem along_true (s : S) (as : List A) : Along step (fun _ _ => True) s as := by
  induction as generalizing s with
  | nil => trivial
  | cons a as ih => exact ⟨trivial,fun t _ => ih t⟩

theorem along_of_forall {P : A → Prop} {s : S} {as : List A} (h : ∀ a ∈ as, P a) :
    Along step (fun _ a => P a) s as := by
  induction as generalizing s with
  | nil => trivial
  | cons a as ih => exact ⟨h a (by simp),fun t _ => ih fun b hb => h b (by simp [hb])⟩

theorem run_invariant_of_step {I : S → Prop} (hstep : ∀ s a t, I s → step s a = some t → I t)
    {s u : S} {as : List A} (hs : I s) (hrun : run step s as = some u) : I u :=
  run_invariant (C := fun _ _ => True) (fun s a t _ => hstep s a t) hs (along_true s as) hrun

end LabelledRun
