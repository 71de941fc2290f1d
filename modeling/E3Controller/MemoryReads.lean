import Mathlib.Data.List.Basic

/-! Programs that read cells of a memory. The same term gives the value a program computes
and the cells it reads on the way, so that bounds on the reads are bounds on the program
itself. -/
namespace MemoryReads

/-- A program over a memory with contents in `β`: it returns, or reads a cell and goes on
with what it found. -/
inductive Prog (β α : Type)
  | ret (a : α)
  | read (i : ℕ) (next : β → Prog β α)

namespace Prog

variable {β α γ : Type}

def bind : Prog β α → (α → Prog β γ) → Prog β γ
  | ret a, f => f a
  | read i next, f => read i fun b => (next b).bind f

instance : Monad (Prog β) where
  pure := ret
  bind := bind

def cell (i : ℕ) : Prog β β := read i ret

def value (mem : ℕ → β) : Prog β α → α
  | ret a => a
  | read i next => value mem (next (mem i))

def cells (mem : ℕ → β) : Prog β α → List ℕ
  | ret _ => []
  | read i next => i :: cells mem (next (mem i))

theorem bind_ret (p : Prog β α) : p.bind ret = p := by
  induction p with
  | ret a => rfl
  | read i next ih => exact congrArg (read i) (funext ih)

theorem bind_bind {δ : Type} (p : Prog β α) (f : α → Prog β γ) (g : γ → Prog β δ) :
    (p.bind f).bind g = p.bind fun a => (f a).bind g := by
  induction p with
  | ret a => rfl
  | read i next ih => exact congrArg (read i) (funext ih)

instance : LawfulMonad (Prog β) :=
  LawfulMonad.mk' (Prog β) (fun p => bind_ret p) (fun _ _ => rfl) (fun p f g => bind_bind p f g)

section Execution

variable (mem : ℕ → β)

@[simp] theorem value_pure (a : α) : value mem (pure a : Prog β α) = a := rfl

@[simp] theorem cells_pure (a : α) : cells mem (pure a : Prog β α) = [] := rfl

@[simp] theorem value_cell (i : ℕ) : value mem (cell i) = mem i := rfl

@[simp] theorem cells_cell (i : ℕ) : cells mem (cell i) = [i] := rfl

@[simp] theorem value_bind (p : Prog β α) (f : α → Prog β γ) :
    value mem (p >>= f) = value mem (f (value mem p)) := by
  induction p with
  | ret a => rfl
  | read i next ih => exact ih (mem i)

@[simp] theorem cells_bind (p : Prog β α) (f : α → Prog β γ) :
    cells mem (p >>= f) = cells mem p ++ cells mem (f (value mem p)) := by
  induction p with
  | ret a => rfl
  | read i next ih => exact congrArg (List.cons i) (ih (mem i))

@[simp] theorem value_map (f : α → γ) (p : Prog β α) : value mem (f <$> p) = f (value mem p) := by
  rw [map_eq_pure_bind,value_bind,value_pure]

@[simp] theorem cells_map (f : α → γ) (p : Prog β α) : cells mem (f <$> p) = cells mem p := by
  rw [map_eq_pure_bind,cells_bind,cells_pure,List.append_nil]

@[simp] theorem value_ite (c : Prop) [Decidable c] (p q : Prog β α) :
    value mem (if c then p else q) = if c then value mem p else value mem q := apply_ite _ _ _ _

@[simp] theorem value_mapM (f : γ → Prog β α) (l : List γ) :
    value mem (l.mapM f) = l.map fun x => value mem (f x) := by
  induction l with
  | nil => rfl
  | cons x l ih => simp [List.mapM_cons,ih]

@[simp] theorem cells_mapM (f : γ → Prog β α) (l : List γ) :
    cells mem (l.mapM f) = l.flatMap fun x => cells mem (f x) := by
  induction l with
  | nil => rfl
  | cons x l ih => simp [List.mapM_cons,ih]

end Execution

def Below (mem : ℕ → β) (n : ℕ) (p : Prog β α) : Prop := ∀ i ∈ cells mem p, i < n

section Below

variable {mem : ℕ → β} {n : ℕ}

theorem below_pure (a : α) : Below mem n (pure a : Prog β α) := by
  intro i hi
  cases hi

theorem below_cell {i : ℕ} (h : i < n) : Below mem n (cell i) := by
  intro j hj
  rw [cells_cell,List.mem_singleton] at hj
  exact hj ▸ h

theorem below_bind {p : Prog β α} {f : α → Prog β γ} (hp : Below mem n p)
    (hf : ∀ a, Below mem n (f a)) : Below mem n (p >>= f) := by
  intro i hi
  rw [cells_bind,List.mem_append] at hi
  exact hi.elim (hp i) (hf _ i)

theorem below_ite {c : Prop} [Decidable c] {p q : Prog β α} (hp : c → Below mem n p)
    (hq : ¬ c → Below mem n q) : Below mem n (if c then p else q) := by
  by_cases hc : c
  · rw [if_pos hc]
    exact hp hc
  · rw [if_neg hc]
    exact hq hc

end Below

end Prog

def Holds {β : Type} (mem : ℕ → β) : ℕ → List β → Prop
  | _, [] => True
  | p, x :: l => mem p = x ∧ Holds mem (p + 1) l

section Holds

variable {β : Type} {mem : ℕ → β}

theorem holds_append {p : ℕ} {l l' : List β} :
    Holds mem p (l ++ l') ↔ Holds mem p l ∧ Holds mem (p + l.length) l' := by
  induction l generalizing p with
  | nil => simp [Holds]
  | cons x l ih =>
    rw [List.cons_append,Holds,Holds,ih,and_assoc,List.length_cons,Nat.add_assoc,Nat.add_comm 1]

theorem Holds.get {p : ℕ} {l : List β} (h : Holds mem p l) {i : ℕ} (hi : i < l.length) :
    mem (p + i) = l[i] := by
  induction l generalizing p i with
  | nil => exact absurd hi (Nat.not_lt_zero i)
  | cons x l ih =>
    cases i with
    | zero => exact h.1
    | succ i =>
      rw [List.getElem_cons_succ,← ih h.2 (Nat.lt_of_succ_lt_succ hi),Nat.add_assoc,Nat.add_comm 1]

theorem holds_of_get {p : ℕ} {l : List β} (h : ∀ i (hi : i < l.length), mem (p + i) = l[i]) :
    Holds mem p l := by
  induction l generalizing p with
  | nil => trivial
  | cons x l ih =>
    refine ⟨h 0 (Nat.zero_lt_succ _),ih fun i hi => ?_⟩
    rw [Nat.add_assoc,Nat.add_comm 1]
    exact h (i + 1) (Nat.succ_lt_succ hi)

theorem holds_getD (d : β) (l : List β) : Holds (fun i => l.getD i d) 0 l := by
  refine holds_of_get fun i hi => ?_
  rw [Nat.zero_add,List.getD_eq_getElem?_getD,List.getElem?_eq_getElem hi,Option.getD_some]

end Holds

end MemoryReads
