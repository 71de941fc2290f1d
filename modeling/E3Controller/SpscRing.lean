import Mathlib.Data.List.Basic
import Mathlib.Data.Nat.ModEq
import Mathlib.Logic.Function.Basic
import Mathlib.Tactic.Ring

/-!
# Single-producer single-consumer rings with free-running counters

A ring of `2^k` slots is addressed by two `w`-bit counters that are never
reduced: a slot is found by masking, the fill level by wrapping subtraction.
`Holds k r q` says that the slots between tail and head store exactly the list
`q`; each operation of either side has one lemma in terms of `Holds`.
-/

namespace SpscRing

variable {w k : ℕ} {ε : Type*}

structure Ring (w : ℕ) (ε : Type*) where
  head : BitVec w
  tail : BitVec w
  slots : ℕ → ε

/-- The slot a counter selects: the counter masked by capacity minus one. -/
def slotIndex (k : ℕ) (c : BitVec w) : ℕ := (c &&& BitVec.ofNat w (2 ^ k - 1)).toNat

theorem slotIndex_eq_mod (hk : k < w) (c : BitVec w) : slotIndex k c = c.toNat % 2 ^ k := by
  have hlt : 2 ^ k - 1 < 2 ^ w := by
    have hlt := Nat.pow_lt_pow_right (show 1 < 2 by omega) hk
    exact lt_of_le_of_lt (Nat.sub_le _ _) hlt
  rw [slotIndex,BitVec.toNat_and,BitVec.toNat_ofNat,Nat.mod_eq_of_lt hlt,
    Nat.and_two_pow_sub_one_eq_mod]

theorem slotIndex_add (hk : k < w) (c : BitVec w) (i : ℕ) :
    slotIndex k (c + BitVec.ofNat w i) = (c.toNat + i) % 2 ^ k := by
  have hd : 2 ^ k ∣ 2 ^ w := Nat.pow_dvd_pow 2 hk.le
  rw [slotIndex_eq_mod hk,BitVec.toNat_add,BitVec.toNat_ofNat,Nat.add_mod_mod,
    Nat.mod_mod_of_dvd _ hd]

/-- Within one capacity no two offsets share a slot, wherever the counters stand. -/
theorem slotIndex_add_inj (hk : k < w) (c : BitVec w) {i j : ℕ} (hi : i < 2 ^ k) (hj : j < 2 ^ k)
    (h : slotIndex k (c + BitVec.ofNat w i) = slotIndex k (c + BitVec.ofNat w j)) : i = j := by
  rw [slotIndex_add hk,slotIndex_add hk] at h
  have hm : i ≡ j [MOD 2 ^ k] := Nat.ModEq.add_left_cancel' c.toNat h
  have hm' : i % 2 ^ k = j % 2 ^ k := hm
  rwa [Nat.mod_eq_of_lt hi,Nat.mod_eq_of_lt hj] at hm'

theorem add_sub_toNat (hk : k < w) (c : BitVec w) {n : ℕ} (hn : n ≤ 2 ^ k) :
    (c + BitVec.ofNat w n - c).toNat = n := by
  have hlt : n < 2 ^ w := lt_of_le_of_lt hn (Nat.pow_lt_pow_right (by omega) hk)
  have he : c + BitVec.ofNat w n - c = BitVec.ofNat w n := by
    rw [BitVec.add_comm,BitVec.add_sub_cancel]
  rw [he,BitVec.toNat_ofNat,Nat.mod_eq_of_lt hlt]

theorem add_ofNat_add_ofNat (c : BitVec w) (m n : ℕ) :
    c + BitVec.ofNat w m + BitVec.ofNat w n = c + BitVec.ofNat w (m + n) := by
  rw [BitVec.add_assoc,← BitVec.ofNat_add]

/-- The ring stores the list `q`: its length is the counter distance, and the
slots from tail on hold its elements in order. -/
structure Holds (k : ℕ) (r : Ring w ε) (q : List ε) : Prop where
  head_eq : r.head = r.tail + BitVec.ofNat w q.length
  length_le : q.length ≤ 2 ^ k
  slot_eq : ∀ i (hi : i < q.length), r.slots (slotIndex k (r.tail + BitVec.ofNat w i)) = q[i]

namespace Holds

variable {r : Ring w ε} {q : List ε}

theorem nil {r : Ring w ε} (h : r.head = r.tail) : Holds k r [] where
  head_eq := by simp [h]
  length_le := by simp
  slot_eq := by simp

theorem distance (h : Holds k r q) (hk : k < w) : (r.head - r.tail).toNat = q.length := by
  rw [h.head_eq,add_sub_toNat hk _ h.length_le]

theorem head_eq_tail_iff (h : Holds k r q) (hk : k < w) : r.head = r.tail ↔ q = [] := by
  constructor
  · intro he
    have hd := h.distance hk
    rw [he,BitVec.sub_self] at hd
    exact List.length_eq_zero_iff.mp (by simpa using hd.symm)
  · rintro rfl
    simpa using h.head_eq

/-- The consumer finds the oldest element in the tail's slot. -/
theorem slot_tail {e : ε} (h : Holds k r (e :: q)) : r.slots (slotIndex k r.tail) = e := by
  have h₀ := h.slot_eq 0 (by simp)
  rwa [List.getElem_cons_zero,BitVec.add_zero] at h₀

/-- The producer's slot is none of the stored ones, so writing it keeps them. -/
theorem write (h : Holds k r q) (hk : k < w) (hroom : q.length < 2 ^ k) (e : ε) :
    Holds k { r with slots := Function.update r.slots (slotIndex k r.head) e } q where
  head_eq := h.head_eq
  length_le := h.length_le
  slot_eq := by
    intro i hi
    have hne : slotIndex k (r.tail + BitVec.ofNat w i) ≠ slotIndex k r.head := by
      intro he
      rw [h.head_eq] at he
      have := slotIndex_add_inj hk r.tail (lt_trans hi hroom) hroom he
      omega
    simp only [Function.update_of_ne hne]
    exact h.slot_eq i hi

/-- Storing the incremented head publishes whatever the producer's slot holds. -/
theorem publish (h : Holds k r q) (hroom : q.length < 2 ^ k) :
    Holds k { r with head := r.head + 1 } (q ++ [r.slots (slotIndex k r.head)]) where
  head_eq := by
    have hone : (1 : BitVec w) = BitVec.ofNat w 1 := rfl
    simp only [List.length_append,List.length_singleton]
    rw [h.head_eq,hone,add_ofNat_add_ofNat]
  length_le := by
    rw [List.length_append,List.length_singleton]
    exact hroom
  slot_eq := by
    intro i hi
    rcases Nat.lt_or_ge i q.length with hlt | hge
    · rw [List.getElem_append_left hlt]
      exact h.slot_eq i hlt
    · have he : i = q.length := by
        simp only [List.length_append,List.length_singleton] at hi
        omega
      subst he
      simp [h.head_eq]

theorem advance (h : Holds k r q) {n : ℕ} (hn : n ≤ q.length) :
    Holds k { r with tail := r.tail + BitVec.ofNat w n } (q.drop n) where
  head_eq := by
    rw [List.length_drop,add_ofNat_add_ofNat,Nat.add_sub_cancel' hn]
    exact h.head_eq
  length_le := by
    have := h.length_le
    rw [List.length_drop]
    omega
  slot_eq := by
    intro i hi
    rw [List.length_drop] at hi
    rw [List.getElem_drop,add_ofNat_add_ofNat]
    exact h.slot_eq (n + i) (by omega)

end Holds

end SpscRing
