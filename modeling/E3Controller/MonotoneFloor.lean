import Mathlib.Data.List.Basic
import Mathlib.Order.Lattice

/-! Handing out ascending stamps for requests in any order: a request at or below
the last stamp is moved to the stamp that follows it. The stamps ascend as long as
each stamp handed out is below the one that follows it, which fails only where a
bounded type ends. -/
namespace MonotoneFloor

variable {α : Type*} [LinearOrder α] (next : α → α)

def stamp (floor t : α) : α := if t ≤ floor then next floor else t

def stamps : α → List α → List α
  | _, [] => []
  | floor, t :: ts => stamp next floor t :: stamps (stamp next floor t) ts

def moves : α → List α → List Bool
  | _, [] => []
  | floor, t :: ts => decide (t ≤ floor) :: moves (stamp next floor t) ts

/-- No stamp of the series is the last one there is. -/
def Room (floor : α) (ts : List α) : Prop := ∀ u ∈ floor :: stamps next floor ts, u < next u

variable {next} {floor : α}

theorem Room.head {ts : List α} (h : Room next floor ts) : floor < next floor := h floor (by simp)

theorem Room.tail {t : α} {ts : List α} (h : Room next floor (t :: ts)) :
    Room next (stamp next floor t) ts := fun u hu => h u (List.mem_cons_of_mem _ hu)

theorem lt_stamp (h : floor < next floor) (t : α) : floor < stamp next floor t := by
  unfold stamp
  split
  · exact h
  next hlt => exact lt_of_not_ge hlt

theorem le_stamp (h : floor < next floor) (t : α) : t ≤ stamp next floor t := by
  unfold stamp
  split
  next hle => exact hle.trans h.le
  · exact le_rfl

/-- A request is moved exactly if it is not above the floor. -/
theorem stamp_ne_iff (h : floor < next floor) (t : α) : stamp next floor t ≠ t ↔ t ≤ floor := by
  unfold stamp
  split
  next hle => exact iff_of_true (hle.trans_lt h).ne' hle
  next hlt => exact iff_of_false (fun hne => hne rfl) hlt

theorem lt_of_mem_stamps {ts : List α} (h : Room next floor ts) {u : α}
    (hu : u ∈ stamps next floor ts) : floor < u := by
  induction ts generalizing floor with
  | nil => cases hu
  | cons t ts ih =>
    have hlt := lt_stamp h.head t
    cases hu with
    | head => exact hlt
    | tail _ hu => exact hlt.trans (ih h.tail hu)

theorem pairwise_stamps {ts : List α} (h : Room next floor ts) :
    (stamps next floor ts).Pairwise (· < ·) := by
  induction ts generalizing floor with
  | nil => exact List.Pairwise.nil
  | cons t ts ih => exact List.Pairwise.cons (fun u hu => lt_of_mem_stamps h.tail hu) (ih h.tail)

/-- The moved requests are those whose stamp differs from what was asked for. -/
theorem moves_eq_zipWith {ts : List α} (h : Room next floor ts) :
    moves next floor ts = List.zipWith (fun t u => decide (u ≠ t)) ts (stamps next floor ts) := by
  induction ts generalizing floor with
  | nil => rfl
  | cons t ts ih =>
    rw [moves,stamps,List.zipWith_cons_cons,ih h.tail]
    congr 1
    exact decide_eq_decide.mpr (stamp_ne_iff h.head t).symm

end MonotoneFloor
