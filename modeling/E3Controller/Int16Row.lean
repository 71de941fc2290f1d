import E3Controller.RingWriter
import E3Controller.HalfRounding

/-!
# Rows of 16-bit integers

`int16_to_fp16` divides by 2048 and rounds to binary16 with shifts that depend on the
leading bit of the magnitude. Beside the word, the counts of all executed shifts are
computed: a count that is negative or not below 32 leaves the result to the target.
-/

namespace E3Controller
namespace RowConversion

open HalfFloat

section Traced

variable (undef : UndefinedShift)

/-- A shift and its count. All operands have 32 bits. -/
def tracedShiftRight (x : UInt32) (count : ℤ) : UInt32 × List ℤ := (shiftRight undef x count,[count])

def tracedShiftLeft (x : UInt32) (count : ℤ) : UInt32 × List ℤ := (shiftLeft undef x count,[count])

def int16FieldsTraced (mag : UInt32) (msb : ℤ) : (UInt32 × UInt32 × UInt32) × List ℤ :=
  if msb ≥ 10 then
    let shift := msb - 10
    let mantissa := tracedShiftRight undef mag shift
    let roundBit := tracedShiftRight undef mag (shift - 1)
    let one := tracedShiftLeft undef 1 (shift - 1)
    ((mantissa.1 &&& 0x3ff,roundBit.1 &&& 0x1,if mag &&& (one.1 - 1) ≠ 0 then 1 else 0),
      mantissa.2 ++ roundBit.2 ++ one.2)
  else
    let mantissa := tracedShiftLeft undef mag (10 - msb)
    ((mantissa.1 &&& 0x3ff,0,0),mantissa.2)

def int16ToFp16Traced (v : Int16) : UInt16 × List ℤ :=
  if v = 0 then (0,[])
  else
    let sign : UInt32 := if v < 0 then 0x8000 else 0
    let mag := UInt32.ofNat v.toInt.natAbs
    let msb : ℤ := Nat.log2 mag.toNat
    let expBiased := UInt32.ofNat (msb - 11 + 15).toNat
    let fields := int16FieldsTraced undef mag msb
    let exponent := tracedShiftLeft undef expBiased 10
    let half := (sign ||| exponent.1 ||| fields.1.1).toUInt16
    (if fields.1.2.1 ≠ 0 ∧ (fields.1.2.2 ≠ 0 ∨ fields.1.1 &&& 1 ≠ 0) then half + 1 else half,
      fields.2 ++ exponent.2)

theorem int16FieldsTraced_value (mag : UInt32) (msb : ℤ) :
    (int16FieldsTraced undef mag msb).1 = int16Fields undef mag msb := by
  unfold int16FieldsTraced int16Fields
  split <;> rfl

theorem int16ToFp16Traced_value (v : Int16) :
    (int16ToFp16Traced undef v).1 = int16ToFp16 undef v := by
  unfold int16ToFp16Traced int16ToFp16
  split
  · rfl
  · simp only [int16FieldsTraced_value]
    rfl

def leadingBit (v : Int16) : ℕ := Nat.log2 v.toInt.natAbs

theorem natAbs_le (v : Int16) : v.toInt.natAbs ≤ 2 ^ 15 := by
  have hlow := v.le_toInt
  have hhigh := v.toInt_lt
  omega

theorem mag_toNat (v : Int16) : (UInt32.ofNat v.toInt.natAbs).toNat = v.toInt.natAbs := by
  have hle := natAbs_le v
  rw [UInt32.toNat_ofNat',Nat.mod_eq_of_lt (by omega)]

theorem natAbs_ne_zero {v : Int16} (hv : v ≠ 0) : v.toInt.natAbs ≠ 0 := by
  intro h
  apply hv
  rw [← Int16.toInt_inj]
  exact Int.natAbs_eq_zero.mp h

theorem leadingBit_spec {v : Int16} (hv : v ≠ 0) :
    2 ^ leadingBit v ≤ v.toInt.natAbs ∧ v.toInt.natAbs < 2 ^ (leadingBit v + 1) :=
  ⟨Nat.log2_self_le (natAbs_ne_zero hv),Nat.lt_log2_self⟩

theorem leadingBit_le {v : Int16} (hv : v ≠ 0) : leadingBit v ≤ 15 := by
  have hle := natAbs_le v
  have hlow := (leadingBit_spec hv).1
  exact (Nat.pow_le_pow_iff_right (by omega)).mp (hlow.trans hle)

theorem int16ToFp16Traced_counts {v : Int16} (hv : v ≠ 0) :
    (int16ToFp16Traced undef v).2 = (if 10 ≤ leadingBit v then
      [(leadingBit v : ℤ) - 10,(leadingBit v : ℤ) - 10 - 1,(leadingBit v : ℤ) - 10 - 1]
      else [10 - (leadingBit v : ℤ)]) ++ [10] := by
  have hiff : (Nat.log2 v.toInt.natAbs : ℤ) ≥ 10 ↔ 10 ≤ leadingBit v := by
    unfold leadingBit
    omega
  simp only [int16ToFp16Traced,if_neg hv,int16FieldsTraced,mag_toNat,hiff]
  split <;> rfl

/-- Only the leading bit 10 makes a count negative, and none is too large. -/
theorem counts_defined_iff (v : Int16) :
    (∀ c ∈ (int16ToFp16Traced undef v).2, 0 ≤ c ∧ c < 32) ↔ v = 0 ∨ leadingBit v ≠ 10 := by
  by_cases hv : v = 0
  · subst hv
    exact iff_of_true (fun c hc => by cases hc) (.inl rfl)
  · have hle := leadingBit_le hv
    rw [int16ToFp16Traced_counts undef hv]
    split
    all_goals
      simp only [List.cons_append,List.nil_append,List.forall_mem_cons,List.not_mem_nil,
        false_implies,implies_true,and_true,hv,false_or,ne_eq]
      omega

theorem leadingBit_eq_ten_iff {v : Int16} (hv : v ≠ 0) :
    leadingBit v = 10 ↔ 1024 ≤ v.toInt.natAbs ∧ v.toInt.natAbs < 2048 :=
  Nat.log2_eq_iff (natAbs_ne_zero hv)

end Traced

section Rounding

variable (undef : UndefinedShift)

theorem shiftRight_toNat (x : UInt32) {c : ℕ} (hc : c < 32) :
    (shiftRight undef x c).toNat = x.toNat / 2 ^ c := by
  rw [shiftRight,if_pos (by omega),Int.toNat_natCast,UInt32.toNat_shiftRight,UInt32.toNat_ofNat',
    Nat.mod_mod_of_dvd _ (by decide),Nat.mod_eq_of_lt hc,Nat.shiftRight_eq_div_pow]

theorem shiftLeft_toNat {x : UInt32} {c : ℕ} (hc : c < 32) (hx : x.toNat * 2 ^ c < 2 ^ 32) :
    (shiftLeft undef x c).toNat = x.toNat * 2 ^ c := by
  rw [shiftLeft,if_pos (by omega),Int.toNat_natCast,UInt32.toNat_shiftLeft,UInt32.toNat_ofNat',
    Nat.mod_mod_of_dvd _ (by decide),Nat.mod_eq_of_lt hc,Nat.shiftLeft_eq,Nat.mod_eq_of_lt hx]

theorem ne_zero_iff (x : UInt32) : x ≠ 0 ↔ x.toNat ≠ 0 := by
  rw [ne_eq,← UInt32.toNat_inj]
  rfl

theorem int16Fields_high (mag : UInt32) {s : ℕ} (hs : s ≤ 4) :
    (int16Fields undef mag ((s + 11 : ℕ) : ℤ)).1.toNat = mag.toNat / 2 ^ (s + 1) % 2 ^ 10 ∧
      ((int16Fields undef mag ((s + 11 : ℕ) : ℤ)).2.1 ≠ 0 ↔ mag.toNat / 2 ^ s % 2 = 1) ∧
      ((int16Fields undef mag ((s + 11 : ℕ) : ℤ)).2.2 ≠ 0 ↔ mag.toNat % 2 ^ s ≠ 0) := by
  have hcut : ((s + 11 : ℕ) : ℤ) - 10 = ((s + 1 : ℕ) : ℤ) := by omega
  have hguard : ((s + 1 : ℕ) : ℤ) - 1 = (s : ℤ) := by omega
  have hpow : 2 ^ s < 2 ^ 32 := Nat.pow_lt_pow_right (by omega) (by omega)
  have hone : (shiftLeft undef 1 s).toNat = 2 ^ s := by
    rw [shiftLeft_toNat undef (by omega) (by rwa [UInt32.toNat_one,Nat.one_mul]),UInt32.toNat_one,
      Nat.one_mul]
  have hmask : (shiftLeft undef 1 s - 1).toNat = 2 ^ s - 1 := by
    have hpos : 1 ≤ 2 ^ s := Nat.one_le_two_pow
    rw [UInt32.toNat_sub_of_le _ _ (by rwa [UInt32.le_iff_toNat_le,hone]),hone]
    rfl
  simp only [int16Fields,if_pos (show ((s + 11 : ℕ) : ℤ) ≥ 10 by omega),hcut,hguard]
  refine ⟨?_,?_,?_⟩
  · rw [and_mask_toNat _ _ (n := 10) rfl,shiftRight_toNat undef _ (by omega)]
  · rw [ne_zero_iff,and_mask_toNat _ _ (n := 1) rfl,shiftRight_toNat undef _ (by omega)]
    omega
  · have hsticky : mag &&& (shiftLeft undef 1 s - 1) ≠ 0 ↔ mag.toNat % 2 ^ s ≠ 0 := by
      rw [ne_zero_iff,and_mask_toNat mag _ hmask]
    rw [← hsticky]
    split
    next hset => exact iff_of_true (by decide) hset
    next hclear => exact iff_of_false (fun h => h rfl) hclear

theorem int16Fields_low {mag : UInt32} {k : ℕ} (hk : k < 10) (hmag : mag.toNat < 2 ^ (k + 1)) :
    (int16Fields undef mag k).1.toNat = mag.toNat * 2 ^ (10 - k) % 2 ^ 10 ∧
      (int16Fields undef mag k).2 = (0,0) := by
  have hcount : 10 - (k : ℤ) = ((10 - k : ℕ) : ℤ) := by omega
  have hfit : mag.toNat * 2 ^ (10 - k) < 2 ^ 32 := by
    have hlt := Nat.mul_lt_mul_of_pos_right hmag (Nat.two_pow_pos (10 - k))
    rw [← Nat.pow_add,show k + 1 + (10 - k) = 11 by omega] at hlt
    omega
  simp only [int16Fields,if_neg (show ¬ (k : ℤ) ≥ 10 by omega),hcount]
  rw [and_mask_toNat _ _ (n := 10) rfl,shiftLeft_toNat undef (by omega) hfit]
  exact ⟨rfl,trivial⟩

def signBit (v : Int16) : ℕ := if v < 0 then 1 else 0

theorem assembled_eq (v : Int16) {k : ℕ} (hk : k ≤ 15) {mantissa : UInt32}
    (hm : mantissa.toNat < 2 ^ 10) :
    ((if v < 0 then (0x8000 : UInt32) else 0) ||| (UInt32.ofNat ((k : ℤ) - 11 + 15).toNat <<< 10) |||
      mantissa).toUInt16 = halfWord (signBit v) ((k + 4) * 2 ^ 10 + mantissa.toNat) := by
  have hexp : (k : ℤ) - 11 + 15 = ((k + 4 : ℕ) : ℤ) := by omega
  unfold signBit
  split
  · exact halfBits_normal (s := 1) (by decide) hm hexp (by omega)
  · exact halfBits_normal (s := 0) (by decide) hm hexp (by omega)

theorem halfWord_succ (s a : ℕ) : halfWord s a + 1 = halfWord s (a + 1) := by
  rw [halfWord,halfWord,← Nat.add_assoc,UInt16.ofNat_add (_ + a)]
  rfl

theorem int16ToFp16_high {v : Int16} (hv : v ≠ 0) {s : ℕ} (hs : leadingBit v = s + 11) :
    int16ToFp16 undef v = halfWord (signBit v) ((s + 15) * 2 ^ 10 +
      v.toInt.natAbs / 2 ^ (s + 1) % 2 ^ 10 + if roundsUp v.toInt.natAbs (s + 1) then 1 else 0) := by
  have hle := leadingBit_le hv
  have hlog : Nat.log2 v.toInt.natAbs = s + 11 := hs
  obtain ⟨hman,hround,hsticky⟩ :=
    int16Fields_high undef (UInt32.ofNat v.toInt.natAbs) (s := s) (by omega)
  rw [mag_toNat] at hman hround hsticky
  have hodd : (int16Fields undef (UInt32.ofNat v.toInt.natAbs) ((s + 11 : ℕ) : ℤ)).1 &&& 1 ≠ 0 ↔
      v.toInt.natAbs / 2 ^ (s + 1) % 2 = 1 := by
    rw [ne_zero_iff,and_mask_toNat _ _ (n := 1) rfl,hman]
    omega
  have hup : roundsUp v.toInt.natAbs (s + 1) = true ↔ _ :=
    roundsUp_iff_guard (m := v.toInt.natAbs) (s := s + 1) (by omega)
  rw [Nat.add_sub_cancel] at hup
  simp only [int16ToFp16,if_neg hv,mag_toNat,hlog,hround,hsticky,hodd,← hup]
  rw [assembled_eq v (by omega) (by rw [hman]; exact Nat.mod_lt _ (by decide)),hman]
  split
  · exact halfWord_succ _ _
  · exact congrArg (halfWord _) (Nat.add_zero _).symm

theorem int16ToFp16_low {v : Int16} (hv : v ≠ 0) (hk : leadingBit v < 10) :
    int16ToFp16 undef v = halfWord (signBit v) ((leadingBit v + 4) * 2 ^ 10 +
      v.toInt.natAbs * 2 ^ (10 - leadingBit v) % 2 ^ 10) := by
  have hlt : (UInt32.ofNat v.toInt.natAbs).toNat < 2 ^ (leadingBit v + 1) := by
    rw [mag_toNat]
    exact (leadingBit_spec hv).2
  obtain ⟨hman,hexact⟩ := int16Fields_low undef hk hlt
  rw [mag_toNat] at hman
  simp only [int16ToFp16,if_neg hv,mag_toNat,← leadingBit.eq_def,hexact]
  rw [assembled_eq v (by omega) (by rw [hman]; exact Nat.mod_lt _ (by decide)),hman,
    if_neg fun h => h.1 rfl]

/-- `r` is the binary16 nearest to `v / 2048`, the even one of two: its sign is that of `v`, and
`2^-11` is `2^138` units. -/
structure Nearest2048 (v : Int16) (r : UInt16) : Prop where
  sign : r.toNat / 2 ^ 15 = signBit v
  magnitude : NearestEven halfUnits 0x7c00 (v.toInt.natAbs * 2 ^ 138) (r.toNat % 2 ^ 15)

theorem nearest2048_halfWord {v : Int16} {a : ℕ}
    (h : NearestEven halfUnits 0x7c00 (v.toInt.natAbs * 2 ^ 138) a) :
    Nearest2048 v (halfWord (signBit v) a) := by
  have hsign : signBit v < 2 := by
    unfold signBit
    split <;> omega
  have ha := h.1
  obtain ⟨hs,hm⟩ := halfWord_fields hsign (show a < 2 ^ 15 by omega)
  exact ⟨hs,by rwa [hm]⟩

theorem nearest_high {m s : ℕ} (hlow : 2 ^ (s + 11) ≤ m) (hhigh : m < 2 ^ (s + 12)) (hs : s ≤ 4) :
    NearestEven halfUnits 0x7c00 (m * 2 ^ 138)
      ((s + 15) * 2 ^ 10 + m / 2 ^ (s + 1) % 2 ^ 10 + if roundsUp m (s + 1) then 1 else 0) := by
  have hpos : 0 < 2 ^ (s + 1) := Nat.two_pow_pos _
  have hge : 2 ^ 10 ≤ m / 2 ^ (s + 1) := by
    rw [Nat.le_div_iff_mul_le hpos,← Nat.pow_add]
    rwa [show 10 + (s + 1) = s + 11 by omega]
  have hlt : m / 2 ^ (s + 1) < 2 ^ 11 := by
    rw [Nat.div_lt_iff_lt_mul hpos,← Nat.pow_add]
    rwa [show 11 + (s + 1) = s + 12 by omega]
  obtain ⟨r,hman⟩ : ∃ r, m / 2 ^ (s + 1) = 0x400 + r := ⟨_,(Nat.add_sub_of_le hge).symm⟩
  have hmod : m / 2 ^ (s + 1) % 2 ^ 10 = r := by omega
  have hpow : 2 ^ (s + 15 + 124) = 2 ^ (s + 1) * 2 ^ 138 := by
    rw [← Nat.pow_add,show s + 15 + 124 = s + 1 + 138 by omega]
  have hpoint := halfUnits_normal (q := s + 15) (r := r) (by omega) (by omega)
  have hnext := halfUnits_normal (q := s + 15) (r := r + 1) (by omega) (by omega)
  rw [hmod,show (2 : ℕ) ^ 10 = 0x400 from rfl]
  apply nearestEven_round halfUnits_strictMono (by omega) (by omega) (Nat.two_pow_pos _)
  · rw [hpoint,hpow,← hman,Nat.mul_assoc]
  · rw [Nat.add_assoc,hnext,hpoint,hpow]
    ring
  · omega

theorem nearest_low {m k : ℕ} (hlow : 2 ^ k ≤ m) (hhigh : m < 2 ^ (k + 1)) (hk : k < 10) :
    NearestEven halfUnits 0x7c00 (m * 2 ^ 138) ((k + 4) * 2 ^ 10 + m * 2 ^ (10 - k) % 2 ^ 10) := by
  have hge : 2 ^ 10 ≤ m * 2 ^ (10 - k) := by
    have hle := Nat.mul_le_mul_right (2 ^ (10 - k)) hlow
    rwa [← Nat.pow_add,show k + (10 - k) = 10 by omega] at hle
  have hlt : m * 2 ^ (10 - k) < 2 ^ 11 := by
    have hlt := Nat.mul_lt_mul_of_pos_right hhigh (Nat.two_pow_pos (10 - k))
    rwa [← Nat.pow_add,show k + 1 + (10 - k) = 11 by omega] at hlt
  have hman : m * 2 ^ (10 - k) = 0x400 + m * 2 ^ (10 - k) % 2 ^ 10 := by omega
  have hpow : 2 ^ (10 - k) * 2 ^ (k + 4 + 124) = 2 ^ 138 := by
    rw [← Nat.pow_add,show 10 - k + (k + 4 + 124) = 138 by omega]
  have hpoint := halfUnits_normal (q := k + 4) (r := m * 2 ^ (10 - k) % 2 ^ 10) (by omega) (by omega)
  rw [← hman,Nat.mul_assoc,hpow] at hpoint
  rw [← hpoint]
  exact nearestEven_self halfUnits_strictMono (by omega)

/-- Unless the leading bit is bit 10, the word is the nearest one, on every target. -/
theorem int16ToFp16_nearest {v : Int16} (h : v = 0 ∨ leadingBit v ≠ 10) :
    Nearest2048 v (int16ToFp16 undef v) := by
  by_cases hv : v = 0
  · subst hv
    have hzero : int16ToFp16 undef 0 = halfWord (signBit 0) 0 := if_pos rfl
    rw [hzero]
    exact nearest2048_halfWord (nearestEven_self halfUnits_strictMono (h := 0) (by omega))
  · have hne := h.resolve_left hv
    have hle := leadingBit_le hv
    obtain ⟨hlow,hhigh⟩ := leadingBit_spec hv
    rcases Nat.lt_or_ge (leadingBit v) 10 with hk | hk
    · rw [int16ToFp16_low undef hv hk]
      exact nearest2048_halfWord (nearest_low hlow hhigh hk)
    · obtain ⟨s,hs⟩ : ∃ s, leadingBit v = s + 11 := ⟨leadingBit v - 11,by omega⟩
      rw [int16ToFp16_high undef hv hs]
      rw [hs] at hlow hhigh
      exact nearest2048_halfWord (nearest_high hlow hhigh (by omega))

end Rounding

section Loop

variable (word : Int16 → UInt16 × List ℤ) (dst nPairs : ℕ) (iq : ℕ → Int16)

def pairLoopTraced (i : ℕ) (mem : Words) : Words × List ℤ :=
  if i < nPairs then
    let re := word (iq (i * 2))
    let im := word (iq (i * 2 + 1))
    let rest := pairLoopTraced (i + 1)
      (Function.update (Function.update mem (dst + i * 2) re.1) (dst + (i * 2 + 1)) im.1)
    (rest.1,re.2 ++ im.2 ++ rest.2)
  else (mem,[])
termination_by nPairs - i

theorem pairLoopTraced_value (i : ℕ) (mem : Words) :
    (pairLoopTraced word dst nPairs iq i mem).1 =
      pairLoop (fun v => (word v).1) dst nPairs iq i mem := by
  fun_induction pairLoopTraced word dst nPairs iq i mem with
  | case1 i mem hi re im rest ih =>
    rw [pairLoop,if_pos hi]
    exact ih
  | case2 i mem hi => rw [pairLoop,if_neg hi]

theorem mem_pairLoopTraced {c : ℤ} (i : ℕ) (mem : Words) :
    c ∈ (pairLoopTraced word dst nPairs iq i mem).2 ↔
      ∃ j, i * 2 ≤ j ∧ j < nPairs * 2 ∧ c ∈ (word (iq j)).2 := by
  fun_induction pairLoopTraced word dst nPairs iq i mem with
  | case1 i mem hi re im rest ih =>
    rw [List.mem_append,List.mem_append,ih]
    constructor
    · rintro ((hc | hc) | ⟨j,hlow,hhigh,hc⟩)
      · exact ⟨i * 2,le_refl _,by omega,hc⟩
      · exact ⟨i * 2 + 1,by omega,by omega,hc⟩
      · exact ⟨j,by omega,hhigh,hc⟩
    · rintro ⟨j,hlow,hhigh,hc⟩
      by_cases heven : j = i * 2
      · subst heven
        exact .inl (.inl hc)
      by_cases hodd : j = i * 2 + 1
      · subst hodd
        exact .inl (.inr hc)
      · exact .inr ⟨j,by omega,hhigh,hc⟩
  | case2 i mem hi =>
    refine iff_of_false List.not_mem_nil ?_
    rintro ⟨j,hlow,hhigh,-⟩
    omega

end Loop

end RowConversion

namespace Shm
namespace ShmIqWriter

open RowConversion Config CString

variable (undef : UndefinedShift) (w : ShmIqWriter) (iq : ℕ → Int16)

def publishRowTraced : (Option (UInt8 × UInt32) × ShmIqWriter) × List ℤ :=
  if !w.writesRows then ((none,w),[])
  else
    let row := w.rowWord
    let nPairs := w.geom.nofSymbols.toNat * w.geom.nofSubcarriers.toNat
    let filled := pairLoopTraced (int16ToFp16Traced undef) row nPairs iq 0 w.words
    let written := nPairs * 2
    let cleared : Words := fun j =>
      if row + written ≤ j ∧ j < row + w.rowBytes.toNat / 2 then 0 else filled.1 j
    ((some (w.nextBuf,w.nextRow),{ w with words := cleared }.advance),filled.2)

theorem publishRowTraced_value : (w.publishRowTraced undef iq).1 = w.publishRow undef iq := by
  have hword : (fun v => (int16ToFp16Traced undef v).1) = int16ToFp16 undef :=
    funext (int16ToFp16Traced_value undef)
  unfold publishRowTraced publishRow
  split
  · rfl
  · simp only [pairLoopTraced_value,hword]

/-- The values a row takes from the slot buffer: real and imaginary parts of one antenna. -/
def rowValues : ℕ := w.geom.nofSymbols.toNat * w.geom.nofSubcarriers.toNat * 2

/-- A call of `publish_row` as it should be: every word it converts is the nearest one, and no
shift has a count that is negative or not below the width of its operand. -/
structure Int16RowCorrect : Prop where
  words : (w.publishRow undef iq).1.isSome → ∀ j < w.rowValues,
    Nearest2048 (iq j) ((w.publishRow undef iq).2.words (w.rowWord + j))
  counts : ∀ c ∈ (w.publishRowTraced undef iq).2, 0 ≤ c ∧ c < 32

theorem publishRow_word {w : ShmIqWriter} (hw : w.writesRows = true) {j : ℕ} (hj : j < w.rowValues) :
    (w.publishRow undef iq).2.words (w.rowWord + j) = int16ToFp16 undef (iq j) := by
  unfold rowValues at hj
  simp only [publishRow,hw,Bool.not_true,Bool.false_eq_true,if_false,advance_words]
  rw [if_neg (by omega),pairLoop_apply,if_pos (by omega),Nat.add_sub_cancel_left]

theorem counts_iff {w : ShmIqWriter} (hw : w.writesRows = true) :
    (∀ c ∈ (w.publishRowTraced undef iq).2, 0 ≤ c ∧ c < 32) ↔
      ∀ j < w.rowValues, iq j = 0 ∨ leadingBit (iq j) ≠ 10 := by
  simp only [publishRowTraced,hw,Bool.not_true,Bool.false_eq_true,if_false,mem_pairLoopTraced]
  constructor
  · intro h j hj
    apply (counts_defined_iff undef (iq j)).mp
    intro c hc
    exact h c ⟨j,by omega,hj,hc⟩
  · rintro h c ⟨j,-,hj,hc⟩
    exact (counts_defined_iff undef (iq j)).mpr (h j hj) c hc

/-- On every target, a row is converted as it should be exactly if the writer refuses it or no
value has a magnitude from 1024 to 2047. -/
theorem int16_row_correct_iff :
    Int16RowCorrect undef w iq ↔ (w.writesRows = true →
      ∀ j < w.rowValues, ¬ (1024 ≤ (iq j).toInt.natAbs ∧ (iq j).toInt.natAbs < 2048)) := by
  have hten : ∀ v : Int16, (v = 0 ∨ leadingBit v ≠ 10) ↔
      ¬ (1024 ≤ v.toInt.natAbs ∧ v.toInt.natAbs < 2048) := by
    intro v
    by_cases hv : v = 0
    · subst hv
      exact iff_of_true (.inl rfl) (by decide)
    · rw [← leadingBit_eq_ten_iff hv]
      exact or_iff_right hv
  cases hw : w.writesRows with
  | false =>
    have hrefused : w.publishRow undef iq = (none,w) := by
      rw [publishRow,hw]
      rfl
    refine iff_of_true ⟨fun h => ?_,fun c hc => ?_⟩ fun h => by cases h
    · rw [hrefused] at h
      cases h
    · rw [publishRowTraced,hw] at hc
      cases hc
  | true =>
    simp only [← hten,true_implies]
    constructor
    · intro h
      exact (counts_iff undef iq hw).mp h.counts
    · intro h
      refine ⟨fun _ j hj => ?_,(counts_iff undef iq hw).mpr h⟩
      rw [publishRow_word undef iq hw hj]
      exact int16ToFp16_nearest undef (h j hj)

/-- A row of values 1024 in the region of the default configuration: bit 10 leads, and the first cut
bit is looked for at position -1. -/
theorem row_1024_shifts_by_minus_one : ∃ w₀ called, ({} : ShmIqWriter).openRegion ⟨some 3,true,true⟩
    (str "/e3_ran_buffers") 1073741824 {} 0x3f800000 .controller = (true,w₀,called) ∧
      -1 ∈ (w₀.publishRowTraced (fun x _ => x) fun _ => 1024).2 ∧
      ¬ Int16RowCorrect (fun x _ => x) w₀ fun _ => 1024 := by
  obtain ⟨w₀,called,hopen,hw,hrow⟩ : ∃ w₀ called, ({} : ShmIqWriter).openRegion ⟨some 3,true,true⟩
      (str "/e3_ran_buffers") 1073741824 {} 0x3f800000 .controller = (true,w₀,called) ∧
        w₀.writesRows = true ∧ 0 < w₀.rowValues := ⟨_,_,rfl,rfl,by decide⟩
  have hmem : -1 ∈ (w₀.publishRowTraced (fun x _ => x) fun _ => 1024).2 := by
    simp only [publishRowTraced,hw,Bool.not_true,Bool.false_eq_true,if_false,mem_pairLoopTraced]
    exact ⟨0,le_refl 0,hrow,by decide⟩
  exact ⟨w₀,called,hopen,hmem,fun h => absurd (h.counts (-1) hmem).1 (by decide)⟩

end ShmIqWriter
end Shm
end E3Controller
