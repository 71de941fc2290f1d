import Mathlib.Data.List.Basic
import E3Controller.LabelledRun

/-! Measures along runs of a partial labelled transition function: the total
cost of the labels taken, bounded by a rank that pays for it, the labels another
system sees when its state is a view of this one, two systems that go in step, and a
sequential system that explains a concurrent one. -/
namespace LabelledRun

variable {S A T B : Type*} {step : S → A → Option S}

/-- The cost of the labels of a run, each in the state in which it is taken. -/
def total (step : S → A → Option S) (cost : S → A → ℕ) : S → List A → ℕ
  | _, [] => 0
  | s, a :: as => cost s a + (step s a).elim 0 fun t => total step cost t as

theorem total_cons {cost : S → A → ℕ} {s t : S} {a : A} {as : List A} (ht : step s a = some t) :
    total step cost s (a :: as) = cost s a + total step cost t as := by
  rw [total,ht]
  rfl

/-- A rank that pays for every label on the way pays for the whole run. -/
theorem total_add_rank_le {C : S → A → Prop} {I : S → Prop} {cost : S → A → ℕ} (rank : S → ℕ)
    (hI : ∀ s a t, C s a → I s → step s a = some t → I t)
    (hrank : ∀ s a t, C s a → I s → step s a = some t → cost s a + rank t ≤ rank s)
    {s u : S} {as : List A} (hs : I s) (hC : Along step C s as)
    (hrun : run step s as = some u) : total step cost s as + rank u ≤ rank s := by
  induction as generalizing s with
  | nil =>
    have hu : s = u := by simpa using hrun
    rw [hu,total]
    omega
  | cons a as ih =>
    obtain ⟨t,ht,hrun⟩ := run_cons_eq_some.mp hrun
    have hhead := hrank s a t hC.1 hs ht
    have htail := ih (hI s a t hC.1 hs ht) (hC.2 t ht) hrun
    rw [total_cons ht]
    omega

/-- What is true at the end of a run and was never gained on the way was true all along. -/
theorem along_of_final {I P : S → Prop} {Q : A → Prop}
    (hI : ∀ s a t, Q a → I s → step s a = some t → I t)
    (hback : ∀ s a t, Q a → I s → step s a = some t → P t → P s) {s u : S} {as : List A}
    (hs : I s) (has : ∀ a ∈ as, Q a) (hrun : run step s as = some u) (hu : P u) :
    P s ∧ Along step (fun s a => Q a ∧ P s) s as := by
  induction as generalizing s with
  | nil =>
    have he : s = u := by simpa using hrun
    exact ⟨he ▸ hu,trivial⟩
  | cons a as ih =>
    obtain ⟨t,ht,hrun⟩ := run_cons_eq_some.mp hrun
    have ha := has a (by simp)
    obtain ⟨hPt,halong⟩ := ih (hI s a t ha hs ht) (fun b hb => has b (by simp [hb])) hrun
    have hP := hback s a t ha hs ht hPt
    refine ⟨hP,⟨ha,hP⟩,fun t' ht' => ?_⟩
    rw [ht,Option.some.injEq] at ht'
    exact ht' ▸ halong

theorem total_eq_countP {P : A → Bool} {s u : S} {as : List A} (hrun : run step s as = some u) :
    total step (fun _ a => if P a then 1 else 0) s as = as.countP P := by
  induction as generalizing s with
  | nil => rfl
  | cons a as ih =>
    obtain ⟨t,ht,hrun⟩ := run_cons_eq_some.mp hrun
    rw [total_cons ht,ih hrun,List.countP_cons,Nat.add_comm]

def seen (step : S → A → Option S) (see : S → A → List B) : S → List A → List B
  | _, [] => []
  | s, a :: as => see s a ++ (step s a).elim [] fun t => seen step see t as

theorem seen_cons {see : S → A → List B} {s t : S} {a : A} {as : List A} (ht : step s a = some t) :
    seen step see s (a :: as) = see s a ++ seen step see t as := by
  rw [seen,ht]
  rfl

/-- If every label amounts to a run between the views of its two states, so does every run. -/
theorem run_seen {step' : T → B → Option T} (view : S → T) {see : S → A → List B} {I : S → Prop}
    (hI : ∀ s a t, I s → step s a = some t → I t)
    (hview : ∀ s a t, I s → step s a = some t → run step' (view s) (see s a) = some (view t))
    {s u : S} {as : List A} (hs : I s) (hrun : run step s as = some u) :
    run step' (view s) (seen step see s as) = some (view u) := by
  induction as generalizing s with
  | nil =>
    have hu : s = u := by simpa using hrun
    rw [hu,seen,run_nil]
  | cons a as ih =>
    obtain ⟨t,ht,hrun⟩ := run_cons_eq_some.mp hrun
    rw [seen_cons ht,run_append_eq_some]
    exact ⟨view t,hview s a t hs ht,ih (hI s a t hs ht) hrun⟩

theorem exists_of_mem_seen {see : S → A → List B} {s : S} {as : List A} {b : B}
    (h : b ∈ seen step see s as) : ∃ t a, a ∈ as ∧ b ∈ see t a := by
  induction as generalizing s with
  | nil => cases h
  | cons a as ih =>
    rw [seen,List.mem_append] at h
    rcases h with h | h
    · exact ⟨s,a,by simp,h⟩
    · cases hs : step s a with
      | none =>
        rw [hs] at h
        cases h
      | some t =>
        rw [hs] at h
        obtain ⟨t,a',ha,hb⟩ := ih h
        exact ⟨t,a',by simp [ha],hb⟩

theorem mem_seen {see : S → A → List B} {s u : S} {as : List A} {a : A} {b : B}
    (hrun : run step s as = some u) (ha : a ∈ as) (hb : ∀ t, b ∈ see t a) :
    b ∈ seen step see s as := by
  induction as generalizing s with
  | nil => cases ha
  | cons a' as ih =>
    obtain ⟨t,ht,hrun⟩ := run_cons_eq_some.mp hrun
    rw [seen_cons ht,List.mem_append]
    rcases List.mem_cons.mp ha with rfl | ha
    · exact .inl (hb s)
    · exact .inr (ih hrun ha)

/-- Two systems that take or refuse every label together stay related along all labels. -/
theorem run_rel {step' : T → A → Option T} {R : S → T → Prop}
    (hstep : ∀ s t a, R s t → Option.Rel R (step s a) (step' t a)) {s : S} {t : T} (h : R s t)
    (as : List A) : Option.Rel R (run step s as) (run step' t as) := by
  induction as generalizing s t with
  | nil => exact .some h
  | cons a as ih =>
    rw [run,run]
    have ha := hstep s t a h
    cases hs : step s a with
    | none =>
      cases ht : step' t a with
      | none => exact .none
      | some v =>
        rw [hs,ht] at ha
        cases ha
    | some u =>
      cases ht : step' t a with
      | none =>
        rw [hs,ht] at ha
        cases ha
      | some v =>
        rw [hs,ht] at ha
        cases ha with
        | some huv => exact ih huv

/-- If every label is nothing to a sequential system or one call of it, which takes effect there,
then every run has a sequence of calls that explains it, in the order of their labels. `R` may
speak of the calls made so far. -/
theorem run_linearizes {step' : T → B → Option T} {takes : B → A → Prop} {I : S → Prop}
    {R : S → T → List B → Prop} (hI : ∀ s a t, I s → step s a = some t → I t)
    (hstep : ∀ s a t n bs, I s → R s n bs → step s a = some t →
      R t n bs ∨ ∃ b n', takes b a ∧ step' n b = some n' ∧ R t n' (bs ++ [b]))
    {s u : S} {n₀ n : T} {as : List A} {bs : List B} (hs : I s) (h : R s n bs)
    (hn : run step' n₀ bs = some n) (hrun : run step s as = some u) :
    ∃ n' bs', run step' n₀ (bs ++ bs') = some n' ∧ R u n' (bs ++ bs') ∧
      ∃ as', as'.Sublist as ∧ List.Forall₂ takes bs' as' := by
  induction as generalizing s n bs with
  | nil =>
    have hu : s = u := by simpa using hrun
    refine ⟨n,[],?_,?_,[],List.Sublist.refl _,.nil⟩
    · rwa [List.append_nil]
    · rwa [List.append_nil,← hu]
  | cons a as ih =>
    obtain ⟨t,ht,hrest⟩ := run_cons_eq_some.mp hrun
    have htI := hI s a t hs ht
    rcases hstep s a t n bs hs h ht with hsame | ⟨b,n₁,hb,hcall,hR⟩
    · obtain ⟨n',bs',hn',hR',as',has,hall⟩ := ih htI hsame hn hrest
      exact ⟨n',bs',hn',hR',as',has.cons a,hall⟩
    · have hsnoc : run step' n₀ (bs ++ [b]) = some n₁ :=
        run_append_eq_some.mpr ⟨n,hn,run_cons_eq_some.mpr ⟨n₁,hcall,rfl⟩⟩
      obtain ⟨n',bs',hn',hR',as',has,hall⟩ := ih htI hR hsnoc hrest
      refine ⟨n',b :: bs',?_,?_,a :: as',has.cons_cons a,.cons hb hall⟩
      · rwa [List.append_assoc] at hn'
      · rwa [List.append_assoc] at hR'

end LabelledRun
