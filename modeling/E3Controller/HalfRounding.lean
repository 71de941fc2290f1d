import Mathlib.Data.Nat.Dist
import Mathlib.Order.Monotone.Basic
import E3Controller.HalfFloat

/-!
# Round to nearest, ties to even

What a rounding is, over any increasing scale of representable numbers: the point of
the scale nearest to the value, the even one of two. The magnitudes of binary16, counted
in the smallest unit of binary32, are such a scale, with infinity at its top standing for
`2^16`, and `cvtRne` rounds to it.
-/

namespace HalfFloat

section Scale

/-- `h` is the point of the scale `f 0, …, f top` nearest to `x`, and even if another one is
as near. -/
def NearestEven (f : ℕ → ℕ) (top x h : ℕ) : Prop :=
  h ≤ top ∧ ∀ k ≤ top, k ≠ h → Nat.dist x (f h) < Nat.dist x (f k) ∨
    (Nat.dist x (f h) = Nat.dist x (f k) ∧ h % 2 = 0)

variable {f : ℕ → ℕ} {top x h k : ℕ}

theorem NearestEven.le (hf : StrictMono f) (hh : NearestEven f top x h) (hk : NearestEven f top x k) :
    h ≤ k := by
  by_contra hlt
  rw [Nat.not_le] at hlt
  have hhk := hh.2 k hk.1 (by omega)
  have hkh := hk.2 h hh.1 (by omega)
  have hbetween := hk.2 (k + 1) (by have := hh.1; omega) (by omega)
  have hnext : f k < f (k + 1) := hf (Nat.lt_succ_self k)
  have hlast : f (k + 1) < f h := by
    apply hf
    omega
  simp only [Nat.dist] at hhk hkh hbetween
  omega

theorem NearestEven.unique (hf : StrictMono f) (hh : NearestEven f top x h)
    (hk : NearestEven f top x k) : h = k :=
  Nat.le_antisymm (hh.le hf hk) (hk.le hf hh)

theorem nearestEven_top (hf : StrictMono f) (hx : f top ≤ x) : NearestEven f top x top := by
  refine ⟨le_rfl,fun k hk hne => ?_⟩
  have hlt : f k < f top := by
    apply hf
    omega
  simp only [Nat.dist]
  omega

theorem nearestEven_self (hf : StrictMono f) (hh : h ≤ top) : NearestEven f top (f h) h := by
  refine ⟨hh,fun k hk hne => .inl ?_⟩
  rw [Nat.dist_self]
  exact Nat.dist_pos_of_ne fun heq => hne (hf.injective heq).symm

theorem nearestEven_between (hf : StrictMono f) (hh : h < top) (hlow : f h ≤ x) (hhigh : x ≤ f (h + 1)) :
    NearestEven f top x (h + if f (h + 1) + f h < 2 * x ∨ (f (h + 1) + f h = 2 * x ∧ h % 2 = 1)
      then 1 else 0) := by
  refine ⟨by split_ifs <;> omega,fun k hk hne => ?_⟩
  have hgap : f h < f (h + 1) := hf (Nat.lt_succ_self h)
  -- every other point lies beyond one of the two neighbours
  have houter : k = h ∨ k = h + 1 ∨ f k < f h ∨ f (h + 1) < f k := by
    rcases Nat.lt_trichotomy k h with hlt | heq | hgt
    · exact .inr (.inr (.inl (hf hlt)))
    · exact .inl heq
    · rcases Nat.eq_or_lt_of_le hgt with heq | hgt'
      · exact .inr (.inl heq.symm)
      · exact .inr (.inr (.inr (hf hgt')))
  split_ifs at hne ⊢ with hup
  · rcases houter with rfl | rfl | hout | hout
    · simp only [Nat.dist]
      omega
    · exact absurd rfl hne
    · simp only [Nat.dist]
      omega
    · simp only [Nat.dist]
      omega
  · rcases houter with rfl | rfl | hout | hout
    · exact absurd rfl hne
    · simp only [Nat.dist,Nat.add_zero]
      omega
    · simp only [Nat.dist,Nat.add_zero]
      omega
    · simp only [Nat.dist,Nat.add_zero]
      omega

/-- The integer form: the value is `m` steps of size `u`, a point of the scale is `2^s` steps. -/
theorem nearestEven_round {m s u : ℕ} (hf : StrictMono f) (hh : h < top) (hs : 1 ≤ s) (hu : 0 < u)
    (hlow : f h = m / 2 ^ s * 2 ^ s * u) (hhigh : f (h + 1) = f h + 2 ^ s * u)
    (hpar : h % 2 = m / 2 ^ s % 2) :
    NearestEven f top (m * u) (h + if roundsUp m s then 1 else 0) := by
  have hsplit : m = m / 2 ^ s * 2 ^ s + m % 2 ^ s := (Nat.div_add_mod' m (2 ^ s)).symm
  have hrem : m % 2 ^ s < 2 ^ s := Nat.mod_lt _ (Nat.two_pow_pos s)
  have hhalf : 2 ^ s = 2 * 2 ^ (s - 1) := by
    rw [← Nat.pow_succ',Nat.succ_eq_add_one,Nat.sub_add_cancel hs]
  have hx : m * u = f h + m % 2 ^ s * u := by
    conv_lhs => rw [hsplit,Nat.add_mul]
    rw [hlow]
  have hle : m % 2 ^ s * u ≤ 2 ^ s * u := Nat.mul_le_mul_right u hrem.le
  have hstep : 2 ^ s * u = 2 * (2 ^ (s - 1) * u) := by rw [hhalf,Nat.mul_assoc]
  have hlt : 2 ^ (s - 1) * u < m % 2 ^ s * u ↔ 2 ^ (s - 1) < m % 2 ^ s := Nat.mul_lt_mul_right hu
  have heq : m % 2 ^ s * u = 2 ^ (s - 1) * u ↔ m % 2 ^ s = 2 ^ (s - 1) := Nat.mul_left_inj hu.ne'
  have hcond : roundsUp m s = true ↔
      f (h + 1) + f h < 2 * (m * u) ∨ (f (h + 1) + f h = 2 * (m * u) ∧ h % 2 = 1) := by
    simp only [roundsUp,Bool.or_eq_true,Bool.and_eq_true,decide_eq_true_eq,gt_iff_lt,← hlt,← heq,
      ← hpar,hx,hhigh,hstep]
    omega
  have hnear := nearestEven_between (x := m * u) hf hh (by omega) (by omega)
  rwa [if_congr hcond.symm rfl rfl] at hnear

end Scale

/-- The value of the binary16 magnitude bits `h`, in units of `2^-149`. -/
def halfUnits (h : ℕ) : ℕ :=
  if h < 0x400 then h * 2 ^ 125 else (0x400 + h % 0x400) * 2 ^ (h / 0x400 + 124)

/-- The value of a binary32 with biased exponent `e` and mantissa `m`, in the same units. -/
def singleUnits (e m : ℕ) : ℕ := if e = 0 then m else (2 ^ 23 + m) * 2 ^ (e - 1)

theorem halfUnits_subnormal {h : ℕ} (hh : h ≤ 0x400) : halfUnits h = h * 2 ^ 125 := by
  unfold halfUnits
  split_ifs with hlt
  · rfl
  · rw [Nat.le_antisymm hh (Nat.le_of_not_lt hlt)]

theorem halfUnits_normal {q r : ℕ} (hq : 1 ≤ q) (hr : r ≤ 0x400) :
    halfUnits (q * 0x400 + r) = (0x400 + r) * 2 ^ (q + 124) := by
  rw [halfUnits,if_neg (by omega)]
  rcases Nat.lt_or_eq_of_le hr with hlt | rfl
  · rw [show (q * 0x400 + r) % 0x400 = r by omega,show (q * 0x400 + r) / 0x400 = q by omega]
  · rw [show (q * 0x400 + 0x400) % 0x400 = 0 by omega,
      show (q * 0x400 + 0x400) / 0x400 = q + 1 by omega,Nat.add_right_comm,Nat.pow_succ]
    ring

theorem halfUnits_succ (h : ℕ) : halfUnits h < halfUnits (h + 1) := by
  rcases Nat.lt_or_ge h 0x400 with hlt | hge
  · rw [halfUnits_subnormal hlt.le,halfUnits_subnormal hlt]
    exact Nat.mul_lt_mul_of_pos_right (Nat.lt_succ_self h) (Nat.two_pow_pos 125)
  · obtain ⟨q,r,hq,hr,rfl⟩ : ∃ q r, 1 ≤ q ∧ r < 0x400 ∧ h = q * 0x400 + r :=
      ⟨h / 0x400,h % 0x400,by omega,by omega,by omega⟩
    rw [Nat.add_assoc,halfUnits_normal hq hr.le,halfUnits_normal hq hr]
    exact Nat.mul_lt_mul_of_pos_right (by omega) (Nat.two_pow_pos _)

theorem halfUnits_strictMono : StrictMono halfUnits := strictMono_nat_of_lt_succ halfUnits_succ

theorem roundsUp_leading (m : ℕ) : roundsUp (2 ^ 23 + m) 13 = roundsUp m 13 := by
  have hmod : (2 ^ 23 + m) % 2 ^ 13 = m % 2 ^ 13 := by omega
  have hpar : (2 ^ 23 + m) / 2 ^ 13 % 2 = m / 2 ^ 13 % 2 := by omega
  rw [roundsUp,hmod,hpar,roundsUp]

section Magnitude

variable {e m : ℕ}

theorem nearest_normal (he : 113 ≤ e) (he' : e < 143) (hm : m < 2 ^ 23) :
    NearestEven halfUnits 0x7c00 (singleUnits e m) (halfMagnitude e m) := by
  obtain ⟨q,rfl⟩ : ∃ q, e = q + 113 := ⟨e - 113,by omega⟩
  have hhigh : m / 2 ^ 13 < 0x400 := by omega
  have hquot : (2 ^ 23 + m) / 2 ^ 13 = 0x400 + m / 2 ^ 13 := by omega
  have hpow : 2 ^ (q + 1 + 124) = 2 ^ 13 * 2 ^ (q + 112) := by
    rw [← Nat.pow_add]
    congr 1
    omega
  have hpoint := halfUnits_normal (q := q + 1) (by omega) hhigh.le
  have hnext := halfUnits_normal (q := q + 1) (r := m / 2 ^ 13 + 1) (by omega) hhigh
  rw [halfMagnitude_normal he he' hm,singleUnits,if_neg (by omega),← roundsUp_leading,
    show q + 113 - 112 = q + 1 by omega,show q + 113 - 1 = q + 112 by omega,
    show (2 : ℕ) ^ 10 = 0x400 from rfl]
  apply nearestEven_round halfUnits_strictMono (by omega) (by omega) (Nat.two_pow_pos _)
  · rw [hpoint,hquot,hpow]
    ring
  · rw [Nat.add_assoc,hnext,hpoint,hpow]
    ring
  · rw [hquot]
    omega

theorem nearest_subnormal (he : 0 < e) (he' : e < 113) (hm : m < 2 ^ 23) :
    NearestEven halfUnits 0x7c00 (singleUnits e m) (halfMagnitude e m) := by
  have hpow : (2 : ℕ) ^ 125 = 2 ^ (126 - e) * 2 ^ (e - 1) := by
    rw [← Nat.pow_add]
    congr 1
    omega
  have hlow : (2 : ℕ) ^ 14 ≤ 2 ^ (126 - e) := Nat.pow_le_pow_right (by omega) (by omega)
  have hquot : (2 ^ 23 + m) / 2 ^ (126 - e) < 0x400 := by
    have hle : (2 ^ 23 + m) / 2 ^ (126 - e) ≤ (2 ^ 23 + m) / 2 ^ 14 :=
      Nat.div_le_div_left hlow (by omega)
    omega
  rw [halfMagnitude,if_neg (by omega),if_neg (by omega),if_neg (by omega),singleUnits,
    if_neg (by omega),roundEven]
  apply nearestEven_round halfUnits_strictMono (by omega) (by omega) (Nat.two_pow_pos _)
  · rw [halfUnits_subnormal hquot.le,hpow,Nat.mul_assoc]
  · rw [halfUnits_subnormal hquot,halfUnits_subnormal hquot.le,← hpow,Nat.add_one_mul]
  · rfl

/-- `cvtRne` rounds every finite number to the nearest one. -/
theorem halfMagnitude_nearest (he : e < 255) (hm : m < 2 ^ 23) :
    NearestEven halfUnits 0x7c00 (singleUnits e m) (halfMagnitude e m) := by
  rcases Nat.lt_or_ge e 143 with hlt | hge
  · rcases Nat.lt_or_ge e 113 with hsub | hnormal
    · rcases Nat.eq_zero_or_pos e with rfl | hpos
      · -- binary32 subnormals lie far below half of the smallest binary16
        have hone : halfUnits 1 = 2 ^ 125 := by decide
        have hup : ¬ (halfUnits (0 + 1) + halfUnits 0 < 2 * m ∨
            (halfUnits (0 + 1) + halfUnits 0 = 2 * m ∧ 0 % 2 = 1)) := by
          rw [Nat.zero_add,hone]
          omega
        have hnear : NearestEven halfUnits 0x7c00 m _ :=
          nearestEven_between (h := 0) halfUnits_strictMono (by omega) (Nat.zero_le m)
            (by rw [Nat.zero_add,hone]; omega)
        rw [if_neg hup] at hnear
        exact hnear
      · exact nearest_subnormal hpos hsub hm
    · exact nearest_normal hnormal hlt hm
  · rw [halfMagnitude_overflow hge he]
    apply nearestEven_top halfUnits_strictMono
    have htop : halfUnits 0x7c00 = 2 ^ 23 * 2 ^ 142 := by decide
    have hpow : (2 : ℕ) ^ 142 ≤ 2 ^ (e - 1) := Nat.pow_le_pow_right (by omega) (by omega)
    rw [htop,singleUnits,if_neg (by omega)]
    exact Nat.mul_le_mul (by omega) hpow

end Magnitude

/-- `r` is the IEEE 754 round-to-nearest-even binary16 of the pattern `p`: sign kept, finite
values to the nearest, infinity to infinity, NaN to a NaN. -/
structure RneHalf (p : UInt32) (r : UInt16) : Prop where
  sign : r.toNat / 2 ^ 15 = (sign p).toNat
  nan : isNaN p = true → 0x7c00 < r.toNat % 2 ^ 15
  infinite : (magnitude p).toNat = 0x7f800000 → r.toNat % 2 ^ 15 = 0x7c00
  finite : (exp8 p).toNat < 255 →
    NearestEven halfUnits 0x7c00 (singleUnits (exp8 p).toNat (man23 p).toNat) (r.toNat % 2 ^ 15)

theorem halfWord_fields {s a : ℕ} (hs : s < 2) (ha : a < 2 ^ 15) :
    (halfWord s a).toNat / 2 ^ 15 = s ∧ (halfWord s a).toNat % 2 ^ 15 = a := by
  rw [halfWord,UInt16.toNat_ofNat']
  omega

theorem RneHalf.unique {p : UInt32} {r r' : UInt16} (hp : isNaN p = false) (h : RneHalf p r)
    (h' : RneHalf p r') : r = r' := by
  have hmag : r.toNat % 2 ^ 15 = r'.toNat % 2 ^ 15 := by
    rcases Nat.lt_or_ge (exp8 p).toNat 255 with hfin | hinf
    · exact (h.finite hfin).unique halfUnits_strictMono (h'.finite hfin)
    · have he := exp8_lt p
      have hm := (isNaN_eq_false_iff p).mp hp (by omega)
      have hmagnitude : (magnitude p).toNat = 0x7f800000 := by
        rw [magnitude_toNat]
        omega
      rw [h.infinite hmagnitude,h'.infinite hmagnitude]
  have hsign := h.sign.trans h'.sign.symm
  rw [← UInt16.toNat_inj]
  omega

theorem rneHalf_of_nan {p : UInt32} {a : ℕ} (hp : isNaN p = true) (ha : 0x7c00 < a) (ha' : a < 2 ^ 15) :
    RneHalf p (halfWord (sign p).toNat a) := by
  obtain ⟨hsign,hmag⟩ := halfWord_fields (sign_lt p) ha'
  rw [isNaN_iff] at hp
  refine ⟨hsign,fun _ => by rwa [hmag],fun hinf => ?_,fun hfin => by omega⟩
  rw [magnitude_toNat] at hinf
  omega

theorem cvtRne_rneHalf (p : UInt32) : RneHalf p (cvtRne p) := by
  have hm := man23_lt p
  by_cases hp : isNaN p = true
  · have hp' := (isNaN_iff p).mp hp
    have hquiet : 0x7c00 < halfMagnitude (exp8 p).toNat (man23 p).toNat := by
      rw [halfMagnitude,if_pos hp'.1,if_neg hp'.2]
      exact lt_of_lt_of_le (by decide) (Nat.left_le_or (n := 0x7c00 ||| 0x200))
    exact rneHalf_of_nan hp hquiet (halfMagnitude_lt hm)
  · obtain ⟨hsign,hmag⟩ := halfWord_fields (sign_lt p) (halfMagnitude_lt hm (e := (exp8 p).toNat))
    refine ⟨hsign,fun hnan => absurd hnan hp,fun hinf => ?_,fun hfin => ?_⟩
    · rw [magnitude_toNat] at hinf
      rw [cvtRne,hmag,halfMagnitude,if_pos (by omega),if_pos (by omega)]
    · rw [cvtRne,hmag]
      exact halfMagnitude_nearest hfin hm

end HalfFloat
