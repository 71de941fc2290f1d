import E3Controller.HalfRounding
import E3Controller.ShmRegion

/-!
# The two row writers

`e3_slot_convert.h` is what the gNB helper runs, `publish_row_cbf16` what the
controller runs; both turn bf16 words into fp16 words through a 32-bit product
and must write the same row. Which code they consist of is decided at compile
time, so the build target is a parameter. The product itself is shared.
-/

namespace E3Controller
namespace RowConversion

open HalfFloat Config Shm

structure Target where
  avx2 : Bool
  f16c : Bool
  aarch64 : Bool
  noNeon : Bool
  deriving DecidableEq, Repr

def Target.convertAvx2 (t : Target) : Bool := t.avx2 && t.f16c
def Target.convertNeon (t : Target) : Bool := !t.convertAvx2 && (t.aarch64 && !t.noNeon)

abbrev Words := ℕ → UInt16

section Words

variable (mul : F32 → F32 → F32)

def product (bf16 : UInt16) (scale : F32) : F32 := mul (bf16.toUInt32 <<< 16) scale

def halfBits (sign exp5 man10 : UInt32) : UInt16 :=
  ((sign <<< 15) ||| (exp5 <<< 10) ||| man10).toUInt16

/-- The writer's fallback: no subnormals, mantissa truncated. -/
def fallbackHalf (p : F32) : UInt16 :=
  if exp8 p = 0 then halfBits (sign p) 0 0
  else if exp8 p = 0xff then halfBits (sign p) 0x1f (if man23 p ≠ 0 then 1 else 0)
  else
    let exp5 : ℤ := (exp8 p).toNat - 127 + 15
    if exp5 ≤ 0 then halfBits (sign p) 0 0
    else if exp5 ≥ 0x1f then halfBits (sign p) 0x1f 0
    else halfBits (sign p) (UInt32.ofNat exp5.toNat) (man23 p >>> 13)

/-- The header's scalar reference: no subnormals, mantissa rounded to nearest even. -/
def scalarHalf (p : F32) : UInt16 :=
  if exp8 p = 0 then halfBits (sign p) 0 0
  else if exp8 p = 0xff then halfBits (sign p) 0x1f (if man23 p ≠ 0 then 0x200 else 0)
  else
    let exp5 : ℤ := (exp8 p).toNat - 127 + 15
    if exp5 ≥ 0x1f then halfBits (sign p) 0x1f 0
    else if exp5 ≤ 0 then halfBits (sign p) 0 0
    else
      let man10 := man23 p >>> 13
      let rem := man23 p &&& 0x1fff
      if rem > 0x1000 || (rem = 0x1000 && man10 &&& 1 ≠ 0) then
        if man10 + 1 = 0x400 then
          if exp5 + 1 ≥ 0x1f then halfBits (sign p) 0x1f 0
          else halfBits (sign p) (UInt32.ofNat (exp5 + 1).toNat) 0
        else halfBits (sign p) (UInt32.ofNat exp5.toNat) (man10 + 1)
      else halfBits (sign p) (UInt32.ofNat exp5.toNat) man10

def bf16ToFp16 (t : Target) (bf16 : UInt16) (scale : F32) : UInt16 :=
  if t.f16c then cvtRne (product mul bf16 scale) else fallbackHalf (product mul bf16 scale)

def bf16ToFp16Scalar (t : Target) (bf16 : UInt16) (scale : F32) : UInt16 :=
  if t.f16c then cvtRne (product mul bf16 scale)
  else if t.convertNeon then cvtRne (product mul bf16 scale)
  else scalarHalf (product mul bf16 scale)

end Words

theorem halfBits_eq {s e m : UInt32} {a : ℕ} (hs : s.toNat < 2) (he : e.toNat < 32) (hm : m.toNat < 1024)
    (ha : e.toNat * 2 ^ 10 + m.toNat = a) : halfBits s e m = halfWord s.toNat a := by
  have hlow : e.toNat <<< 10 ||| m.toNat = a := by
    rw [← Nat.shiftLeft_add_eq_or_of_lt (by omega),Nat.shiftLeft_eq,ha]
  have hall : s.toNat <<< 15 ||| a = s.toNat * 2 ^ 15 + a := by
    rw [← Nat.shiftLeft_add_eq_or_of_lt (by omega),Nat.shiftLeft_eq]
  rw [← UInt16.toNat_inj]
  simp only [halfBits,halfWord,UInt32.toNat_toUInt16,UInt32.toNat_or,UInt32.toNat_shiftLeft,
    UInt16.toNat_ofNat']
  rw [show (15 : UInt32).toNat % 32 = 15 from rfl,show (10 : UInt32).toNat % 32 = 10 from rfl,
    Nat.mod_eq_of_lt (a := s.toNat <<< 15) (by rw [Nat.shiftLeft_eq]; omega),
    Nat.mod_eq_of_lt (a := e.toNat <<< 10) (by rw [Nat.shiftLeft_eq]; omega),Nat.or_assoc,hlow,hall]

theorem halfBits_zero {s : UInt32} (hs : s.toNat < 2) : halfBits s 0 0 = halfWord s.toNat 0 :=
  halfBits_eq hs (by decide) (by decide) rfl

theorem halfBits_inf {s m : UInt32} (hs : s.toNat < 2) (hm : m.toNat < 1024) :
    halfBits s 0x1f m = halfWord s.toNat (0x7c00 + m.toNat) :=
  halfBits_eq hs (by decide) hm rfl

theorem halfBits_normal {s m : UInt32} {e : ℕ} {n : ℤ} (hs : s.toNat < 2) (hm : m.toNat < 1024)
    (hn : n = e) (he : e < 31) :
    halfBits s (UInt32.ofNat n.toNat) m = halfWord s.toNat (e * 2 ^ 10 + m.toNat) := by
  have hexp : (UInt32.ofNat n.toNat).toNat = e := by
    rw [hn,Int.toNat_natCast,UInt32.toNat_ofNat',Nat.mod_eq_of_lt (by omega)]
  exact halfBits_eq hs (by omega) hm (by rw [hexp])

/-- The magnitude bits of both scalar conversions: subnormals are flushed, `nan`
is the payload given to a NaN, `round` is added to a normal result. -/
def flushedMagnitude (nan : ℕ) (round : ℕ → ℕ) (e m : ℕ) : ℕ :=
  if e = 255 then 0x7c00 + if m = 0 then 0 else nan
  else if e < 113 then 0
  else if 143 ≤ e then 0x7c00
  else (e - 112) * 2 ^ 10 + m / 2 ^ 13 + round m

section Fields

variable (p : F32)

theorem man10_toNat : (man23 p >>> 13).toNat = (man23 p).toNat / 2 ^ 13 := by
  rw [UInt32.toNat_shiftRight,show (13 : UInt32).toNat % 32 = 13 from rfl,Nat.shiftRight_eq_div_pow]

theorem man10_lt : (man23 p >>> 13).toNat < 1024 := by
  have hm := man23_lt p
  rw [man10_toNat]
  omega

/-- The header's test on the dropped bits is the rounding of the library. -/
theorem dropped_iff_roundsUp :
    (man23 p &&& 0x1fff > 0x1000 || (man23 p &&& 0x1fff = 0x1000 && (man23 p >>> 13) &&& 1 ≠ 0)) =
      roundsUp (man23 p).toNat 13 := by
  have hrem : (man23 p &&& 0x1fff).toNat = (man23 p).toNat % 2 ^ 13 := and_mask_toNat _ _ rfl
  have hodd : ((man23 p >>> 13) &&& 1).toNat = (man23 p).toNat / 2 ^ 13 % 2 := by
    rw [and_mask_toNat _ _ (n := 1) rfl,man10_toNat,Nat.pow_one]
  rw [roundsUp,← hrem,← hodd,Bool.eq_iff_iff]
  simp only [Bool.or_eq_true,Bool.and_eq_true,decide_eq_true_eq,gt_iff_lt,UInt32.lt_iff_toNat_lt,
    ← UInt32.toNat_inj,ne_eq]
  simp

theorem flushed_of_ranges {h : UInt16} (nan : UInt32) {round : ℕ → ℕ} (hnan : nan.toNat < 1024)
    (hlow : (exp8 p).toNat < 113 → h = halfBits (sign p) 0 0)
    (hinf : (exp8 p).toNat = 255 → h = halfBits (sign p) 0x1f (if man23 p ≠ 0 then nan else 0))
    (hhigh : 143 ≤ (exp8 p).toNat → (exp8 p).toNat ≠ 255 → h = halfBits (sign p) 0x1f 0)
    (hnormal : 113 ≤ (exp8 p).toNat → (exp8 p).toNat < 143 → h = halfWord (sign p).toNat
      (((exp8 p).toNat - 112) * 2 ^ 10 + (man23 p).toNat / 2 ^ 13 + round (man23 p).toNat)) :
    h = halfWord (sign p).toNat
      (flushedMagnitude nan.toNat round (exp8 p).toNat (man23 p).toNat) := by
  have hs := sign_lt p
  unfold flushedMagnitude
  by_cases hmax : (exp8 p).toNat = 255
  · rw [hinf hmax,if_pos hmax]
    simp only [ne_eq,man23_eq_zero_iff]
    by_cases hman : (man23 p).toNat = 0
    · rw [if_neg (not_not.mpr hman),if_pos hman,halfBits_inf hs (by decide)]
      rfl
    · rw [if_pos hman,if_neg hman,halfBits_inf hs hnan]
  rw [if_neg hmax]
  by_cases hsmall : (exp8 p).toNat < 113
  · rw [hlow hsmall,if_pos hsmall,halfBits_zero hs]
  rw [if_neg hsmall]
  by_cases hlarge : 143 ≤ (exp8 p).toNat
  · rw [hhigh hlarge hmax,if_pos hlarge,halfBits_inf hs (by decide)]
    rfl
  · rw [hnormal (by omega) (by omega),if_neg hlarge]

theorem fallbackHalf_eq :
    fallbackHalf p = halfWord (sign p).toNat
      (flushedMagnitude 1 (fun _ => 0) (exp8 p).toNat (man23 p).toNat) := by
  simp only [fallbackHalf,exp8_eq_zero_iff,exp8_eq_max_iff]
  refine flushed_of_ranges p 1 (by decide) (fun hlow => ?_) (fun hinf => ?_)
    (fun hhigh hfinite => ?_) fun hge hlt => ?_
  · by_cases hzero : (exp8 p).toNat = 0
    · rw [if_pos hzero]
    · rw [if_neg hzero,if_neg (by omega),if_pos (by omega)]
  · rw [if_neg (by omega),if_pos hinf]
  · rw [if_neg (by omega),if_neg hfinite,if_neg (by omega),if_pos (by omega)]
  · rw [if_neg (by omega),if_neg (by omega),if_neg (by omega),if_neg (by omega),Nat.add_zero,
      ← man10_toNat]
    exact halfBits_normal (sign_lt p) (man10_lt p) (by omega) (by omega)

/-- Adding one to the mantissa, with the carry into the exponent that the source handles apart. -/
theorem halfBits_carry {exp5 : ℤ} {e : ℕ} (he : exp5 = e) (hlt : e < 31) :
    (if man23 p >>> 13 + 1 = 0x400 then
      if exp5 + 1 ≥ 0x1f then halfBits (sign p) 0x1f 0
      else halfBits (sign p) (UInt32.ofNat (exp5 + 1).toNat) 0
    else halfBits (sign p) (UInt32.ofNat exp5.toNat) (man23 p >>> 13 + 1)) =
      halfWord (sign p).toNat (e * 2 ^ 10 + (man23 p).toNat / 2 ^ 13 + 1) := by
  have hs := sign_lt p
  have hm := man10_lt p
  have hsucc : (man23 p >>> 13 + 1).toNat = (man23 p >>> 13).toNat + 1 := by
    rw [UInt32.toNat_add,UInt32.toNat_one]
    omega
  have hcarry : man23 p >>> 13 + 1 = 0x400 ↔ (man23 p >>> 13).toNat + 1 = 1024 := by
    rw [← hsucc,← UInt32.toNat_inj]
    rfl
  rw [← man10_toNat]
  simp only [hcarry]
  by_cases hfull : (man23 p >>> 13).toNat + 1 = 1024
  · have hround : e * 2 ^ 10 + (man23 p >>> 13).toNat + 1 = (e + 1) * 2 ^ 10 := by omega
    rw [if_pos hfull,hround]
    by_cases hover : e = 30
    · rw [if_pos (by omega),halfBits_inf hs (by decide),hover]
      rfl
    · rw [if_neg (by omega),halfBits_normal hs (by decide) (e := e + 1) (by omega) (by omega),
        UInt32.toNat_zero,Nat.add_zero]
  · rw [if_neg hfull,Nat.add_assoc,← hsucc]
    exact halfBits_normal hs (by omega) he hlt

theorem scalarHalf_eq :
    scalarHalf p = halfWord (sign p).toNat
      (flushedMagnitude 0x200 (fun m => if roundsUp m 13 then 1 else 0) (exp8 p).toNat
        (man23 p).toNat) := by
  simp only [scalarHalf,exp8_eq_zero_iff,exp8_eq_max_iff,dropped_iff_roundsUp]
  refine flushed_of_ranges p 0x200 (by decide) (fun hlow => ?_) (fun hinf => ?_)
    (fun hhigh hfinite => ?_) fun hge hlt => ?_
  · by_cases hzero : (exp8 p).toNat = 0
    · rw [if_pos hzero]
    · rw [if_neg hzero,if_neg (by omega),if_neg (by omega),if_pos (by omega)]
  · rw [if_neg (by omega),if_pos hinf]
  · rw [if_neg (by omega),if_neg hfinite,if_pos (by omega)]
  · rw [if_neg (by omega),if_neg (by omega),if_neg (by omega),if_neg (by omega)]
    by_cases hup : roundsUp (man23 p).toNat 13
    · rw [if_pos hup,if_pos hup]
      exact halfBits_carry p (by omega) (by omega)
    · rw [if_neg hup,if_neg hup,Nat.add_zero,← man10_toNat]
      exact halfBits_normal (sign_lt p) (man10_lt p) (by omega) (by omega)

theorem flushedMagnitude_lt {nan e m : ℕ} {round : ℕ → ℕ} (hnan : nan < 1024) (hr : ∀ m, round m ≤ 1)
    (hm : m < 2 ^ 23) : flushedMagnitude nan round e m < 2 ^ 15 := by
  have hr' := hr m
  unfold flushedMagnitude
  split_ifs <;> omega

theorem fallback_eq_cvtRne_iff :
    fallbackHalf p = cvtRne p ↔ isNaN p = false ∧
      (113 ≤ (exp8 p).toNat → (exp8 p).toNat < 143 → roundsUp (man23 p).toNat 13 = false) ∧
      ((exp8 p).toNat < 113 → (magnitude p).toNat ≤ 0x33000000) := by
  have hm := man23_lt p
  have he := exp8_lt p
  rw [fallbackHalf_eq,cvtRne,halfWord_inj (flushedMagnitude_lt (by omega) (by simp) hm)
    (halfMagnitude_lt hm),isNaN_eq_false_iff,flushedMagnitude,magnitude_toNat]
  by_cases hinf : (exp8 p).toNat = 255
  · rw [if_pos hinf,halfMagnitude,if_pos hinf]
    by_cases hman : (man23 p).toNat = 0
    · simp [hman,hinf]
    · rw [if_neg hman,if_neg hman]
      have hquiet : 0x7c00 ||| 0x200 ≤ 0x7c00 ||| 0x200 ||| (man23 p).toNat / 2 ^ 13 := Nat.left_le_or
      have hval : 0x7c00 ||| 0x200 = 0x7e00 := rfl
      omega
  rw [if_neg hinf]
  by_cases hlow : (exp8 p).toNat < 113
  · rw [if_pos hlow,eq_comm,halfMagnitude_underflow_iff hlow hm]
    omega
  rw [if_neg hlow]
  by_cases hhigh : 143 ≤ (exp8 p).toNat
  · rw [if_pos hhigh,halfMagnitude_overflow hhigh (by omega)]
    omega
  rw [if_neg hhigh,halfMagnitude_normal (by omega) (by omega) hm]
  cases roundsUp (man23 p).toNat 13
  · simp
    omega
  · simp
    omega

theorem fallback_eq_scalar_iff :
    fallbackHalf p = scalarHalf p ↔ isNaN p = false ∧
      (113 ≤ (exp8 p).toNat → (exp8 p).toNat < 143 → roundsUp (man23 p).toNat 13 = false) := by
  have hm := man23_lt p
  have hround : ∀ m, (if roundsUp m 13 then 1 else 0) ≤ 1 := fun m => by split_ifs <;> omega
  rw [fallbackHalf_eq,scalarHalf_eq,halfWord_inj (flushedMagnitude_lt (by omega) (by simp) hm)
    (flushedMagnitude_lt (by omega) hround hm),isNaN_eq_false_iff,flushedMagnitude,flushedMagnitude]
  by_cases hinf : (exp8 p).toNat = 255
  · rw [if_pos hinf,if_pos hinf]
    split_ifs <;> omega
  rw [if_neg hinf,if_neg hinf]
  by_cases hlow : (exp8 p).toNat < 113
  · rw [if_pos hlow,if_pos hlow]
    omega
  rw [if_neg hlow,if_neg hlow]
  by_cases hhigh : 143 ≤ (exp8 p).toNat
  · rw [if_pos hhigh,if_pos hhigh]
    omega
  rw [if_neg hhigh,if_neg hhigh]
  cases roundsUp (man23 p).toNat 13
  · simp
    omega
  · simp
    omega

/-- The scalar reference against the rounding instruction: it flushes what that rounds to a
subnormal. -/
theorem scalar_eq_cvtRne_iff (hp : isNaN p = false) :
    scalarHalf p = cvtRne p ↔
      (magnitude p).toNat ≤ 0x33000000 ∨ 0x38800000 ≤ (magnitude p).toNat := by
  have hm := man23_lt p
  have he := exp8_lt p
  have hround : ∀ m, (if roundsUp m 13 then 1 else 0) ≤ 1 := fun m => by split_ifs <;> omega
  rw [isNaN_eq_false_iff] at hp
  rw [scalarHalf_eq,cvtRne,halfWord_inj (flushedMagnitude_lt (by omega) hround hm)
    (halfMagnitude_lt hm),flushedMagnitude,magnitude_toNat]
  by_cases hinf : (exp8 p).toNat = 255
  · rw [if_pos hinf,halfMagnitude,if_pos hinf,if_pos (hp hinf),if_pos (hp hinf)]
    omega
  rw [if_neg hinf]
  by_cases hlow : (exp8 p).toNat < 113
  · rw [if_pos hlow,eq_comm,halfMagnitude_underflow_iff hlow hm]
    omega
  rw [if_neg hlow]
  by_cases hhigh : 143 ≤ (exp8 p).toNat
  · rw [if_pos hhigh,halfMagnitude_overflow hhigh (by omega)]
    omega
  · rw [if_neg hhigh,halfMagnitude_normal (by omega) (by omega) hm]
    omega

/-- The scalar reference rounds to nearest even exactly outside the open interval between half
of the smallest subnormal and the smallest normal number. -/
theorem scalar_rne_iff :
    RneHalf p (scalarHalf p) ↔
      (magnitude p).toNat ≤ 0x33000000 ∨ 0x38800000 ≤ (magnitude p).toNat := by
  cases hp : isNaN p with
  | true =>
    obtain ⟨he,hman⟩ := (isNaN_iff p).mp hp
    have hnan : RneHalf p (scalarHalf p) := by
      rw [scalarHalf_eq,flushedMagnitude,if_pos he,if_neg hman]
      exact rneHalf_of_nan hp (by omega) (by omega)
    refine iff_of_true hnan (.inr ?_)
    rw [magnitude_toNat]
    omega
  | false =>
    rw [← scalar_eq_cvtRne_iff p hp]
    constructor
    · intro h
      exact h.unique hp (cvtRne_rneHalf p)
    · intro h
      rw [h]
      exact cvtRne_rneHalf p

end Fields

/-- `2^-24`, the smallest subnormal of binary16, becomes zero. -/
theorem smallest_subnormal_flushed :
    cvtRne 0x33800000 = 0x0001 ∧ scalarHalf 0x33800000 = 0 ∧
      ¬ RneHalf 0x33800000 (scalarHalf 0x33800000) := by
  have hrne : cvtRne 0x33800000 = 0x0001 := by decide +kernel
  have hscalar : scalarHalf 0x33800000 = 0 := by decide +kernel
  refine ⟨hrne,hscalar,fun h => ?_⟩
  have hsame := h.unique (by decide) (cvtRne_rneHalf 0x33800000)
  rw [hrne,hscalar] at hsame
  exact absurd hsame (by decide)

def storeLanes (lane : UInt16 → UInt16) (dst src : ℕ) (source : Words) (i : ℕ) (mem : Words) :
    Words := fun j =>
  if dst + i ≤ j ∧ j < dst + i + 8 then lane (source (src + (j - dst))) else mem j

/-- `for (; i + 8 <= n; i += 8)`: eight lanes per iteration; returns the index
reached. -/
def vectorLoop (lane : UInt16 → UInt16) (dst src n : ℕ) (source : Words) (i : ℕ) (mem : Words) :
    ℕ × Words :=
  if i + 8 ≤ n then
    vectorLoop lane dst src n source (i + 8) (storeLanes lane dst src source i mem)
  else (i,mem)
termination_by n - i

def scalarLoop (word : UInt16 → UInt16) (dst src n : ℕ) (source : Words) (i : ℕ) (mem : Words) :
    Words :=
  if i < n then
    scalarLoop word dst src n source (i + 1) (Function.update mem (dst + i) (word (source (src + i))))
  else mem
termination_by n - i

/-- One antenna: a vector body with a scalar tail, or the scalar loop alone. -/
def convertWords (vector : Bool) (lane word : UInt16 → UInt16) (dst src n : ℕ) (source mem : Words) :
    Words :=
  if vector then
    let body := vectorLoop lane dst src n source 0 mem
    scalarLoop word dst src n source body.1 body.2
  else scalarLoop word dst src n source 0 mem

def forAntennas (ant : ℕ → Words → Words) : ℕ → Words → Words
  | 0, mem => mem
  | a + 1, mem => ant a (forAntennas ant a mem)

/-- Words `dst … dst + n - 1` hold the image of the source, the rest is kept. -/
def Converted (word : UInt16 → UInt16) (dst src n : ℕ) (source mem mem' : Words) : Prop :=
  ∀ j, mem' j = if dst ≤ j ∧ j < dst + n then word (source (src + (j - dst))) else mem j

theorem scalarLoop_apply (word : UInt16 → UInt16) (dst src n : ℕ) (source : Words) (i : ℕ)
    (mem : Words) (j : ℕ) :
    scalarLoop word dst src n source i mem j =
      if dst + i ≤ j ∧ j < dst + n then word (source (src + (j - dst))) else mem j := by
  fun_induction scalarLoop word dst src n source i mem with
  | case1 i mem hi ih =>
    rw [ih]
    by_cases hj : j = dst + i
    · subst hj
      rw [if_neg (by omega),if_pos (by omega),Function.update_self,Nat.add_sub_cancel_left]
    · rw [Function.update_of_ne hj]
      split_ifs <;> first | rfl | omega
  | case2 i mem hi => rw [if_neg (by omega)]

theorem vectorLoop_apply (lane : UInt16 → UInt16) (dst src n : ℕ) (source : Words) (i : ℕ)
    (mem : Words) (hi : i ≤ n) :
    i ≤ (vectorLoop lane dst src n source i mem).1 ∧ (vectorLoop lane dst src n source i mem).1 ≤ n ∧
    ∀ j, (vectorLoop lane dst src n source i mem).2 j =
      if dst + i ≤ j ∧ j < dst + (vectorLoop lane dst src n source i mem).1 then
        lane (source (src + (j - dst))) else mem j := by
  fun_induction vectorLoop lane dst src n source i mem with
  | case1 i mem hle ih =>
    obtain ⟨hlow,hhigh,happ⟩ := ih hle
    refine ⟨by omega,hhigh,fun j => ?_⟩
    rw [happ,storeLanes]
    split_ifs <;> first | rfl | omega
  | case2 i mem hle => exact ⟨le_refl i,hi,fun j => by rw [if_neg (by omega)]⟩

/-- The blocked loop is the pointwise conversion, provided lanes and tail agree. -/
theorem convertWords_converted {vector : Bool} {lane word : UInt16 → UInt16}
    (hlane : vector = true → lane = word) (dst src n : ℕ) (source mem : Words) :
    Converted word dst src n source mem (convertWords vector lane word dst src n source mem) := by
  intro j
  unfold convertWords
  split
  case isTrue hvec =>
    rw [hlane hvec]
    obtain ⟨-,hle,happ⟩ := vectorLoop_apply word dst src n source 0 mem (Nat.zero_le n)
    rw [scalarLoop_apply,happ]
    split_ifs <;> first | rfl | omega
  case isFalse =>
    rw [scalarLoop_apply]
    rfl

theorem forAntennas_converted {word : UInt16 → UInt16} {dst src n : ℕ} {source : Words}
    {ant : ℕ → Words → Words}
    (hant : ∀ a mem, Converted word (dst + a * n) (src + a * n) n source mem (ant a mem))
    (ports : ℕ) (mem : Words) :
    Converted word dst src (ports * n) source mem (forAntennas ant ports mem) := by
  induction ports with
  | zero =>
    intro j
    rw [Nat.zero_mul,if_neg (by omega)]
    rfl
  | succ a ih =>
    intro j
    have hsucc : (a + 1) * n = a * n + n := Nat.succ_mul a n
    change ant a (forAntennas ant a mem) j = _
    rw [hant a _ j,ih j,hsucc]
    by_cases hlast : dst + a * n ≤ j ∧ j < dst + a * n + n
    · rw [if_pos hlast,if_pos (by omega)]
      congr 2
      omega
    · rw [if_neg hlast]
      split_ifs <;> first | rfl | omega

end RowConversion
end E3Controller
