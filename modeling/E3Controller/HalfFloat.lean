import Mathlib.Data.Nat.Bitwise
import Mathlib.Tactic.Ring
import Mathlib.Tactic.Tauto

/-!
# Binary32 patterns and their rounding to binary16

A pattern is split into sign, exponent and mantissa fields. `cvtRne` is the
conversion with round-to-nearest-even that x86 F16C and AArch64 FCVTN perform:
gradual underflow, overflow to infinity, and a quieted NaN that keeps the upper
payload bits.
-/

namespace HalfFloat

def sign (p : UInt32) : UInt32 := (p >>> 31) &&& 0x1
def exp8 (p : UInt32) : UInt32 := (p >>> 23) &&& 0xff
def man23 (p : UInt32) : UInt32 := p &&& 0x7fffff

def magnitude (p : UInt32) : UInt32 := p &&& 0x7fffffff

def isNaN (p : UInt32) : Bool := exp8 p = 0xff && man23 p ≠ 0

theorem and_mask_toNat (x m : UInt32) {n : ℕ} (hm : m.toNat = 2 ^ n - 1) :
    (x &&& m).toNat = x.toNat % 2 ^ n := by
  rw [UInt32.toNat_and,hm,Nat.and_two_pow_sub_one_eq_mod]

theorem sign_toNat (p : UInt32) : (sign p).toNat = p.toNat / 2 ^ 31 := by
  have hp := p.toNat_lt
  rw [sign,and_mask_toNat _ _ (n := 1) rfl,UInt32.toNat_shiftRight,
    show (31 : UInt32).toNat % 32 = 31 from rfl,Nat.shiftRight_eq_div_pow]
  omega

theorem exp8_toNat (p : UInt32) : (exp8 p).toNat = p.toNat / 2 ^ 23 % 256 := by
  rw [exp8,and_mask_toNat _ _ (n := 8) rfl,UInt32.toNat_shiftRight,
    show (23 : UInt32).toNat % 32 = 23 from rfl,Nat.shiftRight_eq_div_pow]
  rfl

theorem man23_toNat (p : UInt32) : (man23 p).toNat = p.toNat % 2 ^ 23 :=
  and_mask_toNat p _ rfl

theorem magnitude_toNat (p : UInt32) :
    (magnitude p).toNat = (exp8 p).toNat * 2 ^ 23 + (man23 p).toNat := by
  rw [exp8_toNat,man23_toNat,magnitude,and_mask_toNat _ _ (n := 31) rfl]
  omega

theorem sign_lt (p : UInt32) : (sign p).toNat < 2 := by
  have hp := p.toNat_lt
  rw [sign_toNat]
  omega

theorem exp8_lt (p : UInt32) : (exp8 p).toNat < 256 := by
  rw [exp8_toNat]
  omega

theorem man23_lt (p : UInt32) : (man23 p).toNat < 2 ^ 23 := by
  rw [man23_toNat]
  omega

section Patterns

variable (p : UInt32)

theorem exp8_eq_zero_iff : exp8 p = 0 ↔ (exp8 p).toNat = 0 := by
  rw [← UInt32.toNat_inj]
  rfl

theorem exp8_eq_max_iff : exp8 p = 0xff ↔ (exp8 p).toNat = 255 := by
  rw [← UInt32.toNat_inj]
  rfl

theorem man23_eq_zero_iff : man23 p = 0 ↔ (man23 p).toNat = 0 := by
  rw [← UInt32.toNat_inj]
  rfl

theorem isNaN_iff : isNaN p = true ↔ (exp8 p).toNat = 255 ∧ (man23 p).toNat ≠ 0 := by
  simp only [isNaN,exp8_eq_max_iff,ne_eq,man23_eq_zero_iff,Bool.and_eq_true,decide_eq_true_eq]

theorem isNaN_eq_false_iff : isNaN p = false ↔ ((exp8 p).toNat = 255 → (man23 p).toNat = 0) := by
  simp only [isNaN,exp8_eq_max_iff,ne_eq,man23_eq_zero_iff,Bool.and_eq_false_iff,decide_eq_false_iff_not,
    not_not]
  tauto

end Patterns

/-- Whether dropping the low `s` bits of `m` rounds up: more than half, or half
with an odd quotient. -/
def roundsUp (m s : ℕ) : Bool :=
  m % 2 ^ s > 2 ^ (s - 1) || (m % 2 ^ s = 2 ^ (s - 1) && m / 2 ^ s % 2 = 1)

/-- The same decision from the first dropped bit and the bits below it. -/
theorem roundsUp_iff_guard {m s : ℕ} (hs : 1 ≤ s) :
    roundsUp m s = true ↔
      m / 2 ^ (s - 1) % 2 = 1 ∧ (m % 2 ^ (s - 1) ≠ 0 ∨ m / 2 ^ s % 2 = 1) := by
  obtain ⟨t,rfl⟩ : ∃ t, s = t + 1 := ⟨s - 1,by omega⟩
  have hlow : m % 2 ^ t < 2 ^ t := Nat.mod_lt _ (Nat.two_pow_pos t)
  have hbit : m / 2 ^ t % 2 = 0 ∨ m / 2 ^ t % 2 = 1 := Nat.mod_two_eq_zero_or_one _
  simp only [roundsUp,Nat.add_sub_cancel,Nat.mod_pow_succ,Bool.or_eq_true,Bool.and_eq_true,
    decide_eq_true_eq,gt_iff_lt]
  rcases hbit with hbit | hbit
  · rw [hbit,Nat.mul_zero]
    omega
  · rw [hbit,Nat.mul_one]
    omega

/-- `m / 2^s` to the nearest integer, ties to even. -/
def roundEven (m s : ℕ) : ℕ := m / 2 ^ s + if roundsUp m s then 1 else 0

def halfWord (s m : ℕ) : UInt16 := UInt16.ofNat (s * 2 ^ 15 + m)

theorem halfWord_inj {s m m' : ℕ} (hm : m < 2 ^ 15) (hm' : m' < 2 ^ 15) :
    halfWord s m = halfWord s m' ↔ m = m' := by
  constructor
  · intro h
    have h' := congrArg UInt16.toNat h
    simp only [halfWord,UInt16.toNat_ofNat'] at h'
    omega
  · rintro rfl
    rfl

/-- The magnitude of the binary16 nearest to a binary32 with biased exponent `e`
and mantissa `m`. -/
def halfMagnitude (e m : ℕ) : ℕ :=
  if e = 255 then if m = 0 then 0x7c00 else 0x7c00 ||| 0x200 ||| m / 2 ^ 13
  else if 113 ≤ e then min 0x7c00 (roundEven ((e - 112) * 2 ^ 23 + m) 13)
  else if e = 0 then 0
  else roundEven (2 ^ 23 + m) (126 - e)

def cvtRne (p : UInt32) : UInt16 :=
  halfWord (sign p).toNat (halfMagnitude (exp8 p).toNat (man23 p).toNat)

theorem roundEven_normal (k m : ℕ) :
    roundEven (k * 2 ^ 23 + m) 13 = k * 2 ^ 10 + m / 2 ^ 13 + if roundsUp m 13 then 1 else 0 := by
  have hfactor : k * 2 ^ 23 + m = m + 2 ^ 13 * (k * 2 ^ 10) := by ring
  have hmod : (k * 2 ^ 23 + m) % 2 ^ 13 = m % 2 ^ 13 := by
    rw [hfactor,Nat.add_mul_mod_self_left]
  have hdiv : (k * 2 ^ 23 + m) / 2 ^ 13 = k * 2 ^ 10 + m / 2 ^ 13 := by
    rw [hfactor,Nat.add_mul_div_left _ _ (by norm_num),Nat.add_comm]
  have hpar : (k * 2 ^ 10 + m / 2 ^ 13) % 2 = m / 2 ^ 13 % 2 := by
    rw [show k * 2 ^ 10 = 2 * (k * 2 ^ 9) by ring,Nat.mul_add_mod]
  rw [roundEven,roundsUp,hmod,hdiv,hpar,roundsUp]

theorem roundEven_le (m s : ℕ) : roundEven m s ≤ m / 2 ^ s + 1 := by
  unfold roundEven
  split_ifs <;> omega

theorem halfMagnitude_normal {e m : ℕ} (he : 113 ≤ e) (he' : e < 143) (hm : m < 2 ^ 23) :
    halfMagnitude e m =
      (e - 112) * 2 ^ 10 + m / 2 ^ 13 + if roundsUp m 13 then 1 else 0 := by
  have hne : e ≠ 255 := by omega
  rw [halfMagnitude,if_neg hne,if_pos he,roundEven_normal,min_eq_right]
  split_ifs <;> omega

theorem halfMagnitude_overflow {e m : ℕ} (he : 143 ≤ e) (he' : e < 255) :
    halfMagnitude e m = 0x7c00 := by
  have hne : e ≠ 255 := by omega
  rw [halfMagnitude,if_neg hne,if_pos (by omega),roundEven_normal,min_eq_left]
  split_ifs <;> omega

/-- Below half of the smallest subnormal, and at it by the tie, the result is zero. -/
theorem halfMagnitude_underflow_iff {e m : ℕ} (he : e < 113) (hm : m < 2 ^ 23) :
    halfMagnitude e m = 0 ↔ e * 2 ^ 23 + m ≤ 0x33000000 := by
  have hne : e ≠ 255 := by omega
  rw [halfMagnitude,if_neg hne,if_neg (by omega)]
  by_cases h0 : e = 0
  · rw [if_pos h0]
    subst h0
    omega
  rw [if_neg h0]
  rcases Nat.lt_or_ge e 102 with hlt | hge
  · have hpow : 2 ^ 24 ≤ 2 ^ (126 - e - 1) := Nat.pow_le_pow_right (by omega) (by omega)
    have hpow' : 2 ^ (126 - e - 1) ≤ 2 ^ (126 - e) := Nat.pow_le_pow_right (by omega) (by omega)
    have hzero : roundEven (2 ^ 23 + m) (126 - e) = 0 := by
      have hmod := Nat.mod_eq_of_lt (show 2 ^ 23 + m < 2 ^ (126 - e) by omega)
      have hdiv := Nat.div_eq_of_lt (show 2 ^ 23 + m < 2 ^ (126 - e) by omega)
      simp only [roundEven,roundsUp,hmod,hdiv]
      simp
      omega
    rw [hzero]
    omega
  · have hsplit : e = 102 ∨ e = 103 ∨ e = 104 ∨ e = 105 ∨ e = 106 ∨ e = 107 ∨ e = 108 ∨ e = 109 ∨
        e = 110 ∨ e = 111 ∨ e = 112 := by omega
    rcases hsplit with rfl | rfl | rfl | rfl | rfl | rfl | rfl | rfl | rfl | rfl | rfl
    all_goals
      simp only [roundEven,roundsUp]
      norm_num
      try omega

theorem halfMagnitude_lt {e m : ℕ} (hm : m < 2 ^ 23) : halfMagnitude e m < 2 ^ 15 := by
  unfold halfMagnitude
  split_ifs with hinf hzero hnormal h0
  · omega
  · have hpay : m / 2 ^ 13 < 2 ^ 15 := by omega
    exact Nat.or_lt_two_pow (Nat.or_lt_two_pow (by omega) (by omega)) hpay
  · exact lt_of_le_of_lt (min_le_left _ _) (by omega)
  · omega
  · have hpow : 2 ^ 14 ≤ 2 ^ (126 - e) := Nat.pow_le_pow_right (by omega) (by omega)
    have hdiv : (2 ^ 23 + m) / 2 ^ (126 - e) ≤ (2 ^ 23 + m) / 2 ^ 14 :=
      Nat.div_le_div_left hpow (by omega)
    have hround := roundEven_le (2 ^ 23 + m) (126 - e)
    omega

end HalfFloat
