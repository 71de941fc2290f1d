import E3Controller.RowWriters

/-!
# The ring of rows

`publish_row` and `publish_row_cbf16` share one cursor. Each fills the row under the
cursor with what it converted, clears the rest of the row and moves the cursor on, to
the other buffer after the last row.
-/

namespace E3Controller
namespace RowConversion

open HalfFloat

section Int16

/-- What the target computes for a shift whose count is negative or at least 32, which the
language leaves open. -/
abbrev UndefinedShift := UInt32 → ℤ → UInt32

variable (undef : UndefinedShift)

def shiftRight (x : UInt32) (count : ℤ) : UInt32 :=
  if 0 ≤ count ∧ count < 32 then x >>> UInt32.ofNat count.toNat else undef x count

def shiftLeft (x : UInt32) (count : ℤ) : UInt32 :=
  if 0 ≤ count ∧ count < 32 then x <<< UInt32.ofNat count.toNat else undef x count

/-- `mantissa`, `round_bit` and `sticky` of a magnitude whose leading bit is `msb`. -/
def int16Fields (mag : UInt32) (msb : ℤ) : UInt32 × UInt32 × UInt32 :=
  if msb ≥ 10 then
    let shift := msb - 10
    (shiftRight undef mag shift &&& 0x3ff,shiftRight undef mag (shift - 1) &&& 0x1,
      if mag &&& (shiftLeft undef 1 (shift - 1) - 1) ≠ 0 then 1 else 0)
  else (shiftLeft undef mag (10 - msb) &&& 0x3ff,0,0)

def int16ToFp16 (v : Int16) : UInt16 :=
  if v = 0 then 0
  else
    let sign : UInt32 := if v < 0 then 0x8000 else 0
    let mag := UInt32.ofNat v.toInt.natAbs
    let msb : ℤ := Nat.log2 mag.toNat
    let expBiased := UInt32.ofNat (msb - 11 + 15).toNat
    let fields := int16Fields undef mag msb
    let half := (sign ||| (expBiased <<< 10) ||| fields.1).toUInt16
    if fields.2.1 ≠ 0 ∧ (fields.2.2 ≠ 0 ∨ fields.1 &&& 1 ≠ 0) then half + 1 else half

/-- `for (i = 0; i < n_pairs; ++i)`: real and imaginary part of one sample. -/
def pairLoop (word : Int16 → UInt16) (dst nPairs : ℕ) (iq : ℕ → Int16) (i : ℕ) (mem : Words) :
    Words :=
  if i < nPairs then
    pairLoop word dst nPairs iq (i + 1)
      (Function.update (Function.update mem (dst + i * 2) (word (iq (i * 2))))
        (dst + (i * 2 + 1)) (word (iq (i * 2 + 1))))
  else mem
termination_by nPairs - i

theorem pairLoop_apply (word : Int16 → UInt16) (dst nPairs : ℕ) (iq : ℕ → Int16) (i : ℕ)
    (mem : Words) (j : ℕ) :
    pairLoop word dst nPairs iq i mem j =
      if dst + i * 2 ≤ j ∧ j < dst + nPairs * 2 then word (iq (j - dst)) else mem j := by
  fun_induction pairLoop word dst nPairs iq i mem with
  | case1 i mem hi ih =>
    rw [ih]
    by_cases hodd : j = dst + (i * 2 + 1)
    · subst hodd
      rw [if_neg (by omega),if_pos (by omega),Function.update_self,Nat.add_sub_cancel_left]
    · rw [Function.update_of_ne hodd]
      by_cases heven : j = dst + i * 2
      · subst heven
        rw [if_neg (by omega),if_pos (by omega),Function.update_self,Nat.add_sub_cancel_left]
      · rw [Function.update_of_ne heven]
        split_ifs <;> first | rfl | omega
  | case2 i mem hi => rw [if_neg (by omega)]

end Int16

end RowConversion

namespace Shm
namespace ShmIqWriter

open RowConversion Config CString

def publishRow (undef : UndefinedShift) (w : ShmIqWriter) (iq : ℕ → Int16) :
    Option (UInt8 × UInt32) × ShmIqWriter :=
  if !w.writesRows then (none,w)
  else
    let row := w.rowWord
    let nPairs := w.geom.nofSymbols.toNat * w.geom.nofSubcarriers.toNat
    let filled := pairLoop (int16ToFp16 undef) row nPairs iq 0 w.words
    let written := nPairs * 2
    let cleared : Words := fun j =>
      if row + written ≤ j ∧ j < row + w.rowBytes.toNat / 2 then 0 else filled j
    (some (w.nextBuf,w.nextRow),{ w with words := cleared }.advance)

inductive RowCall
  | row (iq : ℕ → Int16)
  | rowCbf16 (iq : Words) (nofPorts : UInt16)

section Ring

variable (t : Target) (mul : F32 → F32 → F32) (undef : UndefinedShift)

def publish (w : ShmIqWriter) : RowCall → Option (UInt8 × UInt32) × ShmIqWriter
  | .row iq => w.publishRow undef iq
  | .rowCbf16 iq nofPorts => w.publishRowCbf16 t mul iq nofPorts

/-- What a row must hold: the delivered antennas, at least one and no more than a row has,
then zeros. -/
def RowCall.content (geom : RadioGeometry) (scale : F32) : RowCall → ℕ → UInt16
  | .row iq, j =>
    if j < geom.nofSymbols.toNat * geom.nofSubcarriers.toNat * 2 then int16ToFp16 undef (iq j) else 0
  | .rowCbf16 iq nofPorts, j =>
    if j < min (max 1 nofPorts.toNat) geom.nofPorts.toNat * geom.u16PerAnt.toNat then
      bf16ToFp16 mul t (iq j) scale
    else 0

theorem deliveredPorts_toNat (w : ShmIqWriter) (nofPorts : UInt16) :
    (w.deliveredPorts nofPorts).toNat = min (max 1 nofPorts.toNat) w.geom.nofPorts.toNat := by
  have hone : (if nofPorts ≠ 0 then nofPorts else 1).toNat = max 1 nofPorts.toNat := by
    by_cases hzero : nofPorts = 0
    · rw [if_neg (not_not.mpr hzero),hzero]
      rfl
    · have hne : nofPorts.toNat ≠ 0 := fun h => hzero (UInt16.toNat_inj.mp h)
      rw [if_pos hzero]
      omega
  unfold deliveredPorts
  simp only [gt_iff_lt,UInt16.lt_iff_toNat_lt,hone]
  split
  · omega
  · rw [hone]
    omega

/-- One call in controller mode: the indices of the cursor, the row filled, the cursor
moved. -/
theorem publish_spec {w : ShmIqWriter} (hw : w.writesRows = true) (c : RowCall) :
    ∃ mem, w.publish t mul undef c = (some (w.nextBuf,w.nextRow),{ w with words := mem }.advance) ∧
      ∀ j < w.rowBytes.toNat / 2,
        mem (w.rowWord + j) = c.content t mul undef w.geom w.cbf16Scale j := by
  cases c with
  | row iq =>
    simp only [publish,publishRow,hw,Bool.not_true,Bool.false_eq_true,if_false]
    refine ⟨_,rfl,?_⟩
    intro j hj
    rw [RowCall.content,pairLoop_apply,Nat.zero_mul,Nat.add_sub_cancel_left]
    split_ifs <;> first | rfl | omega
  | rowCbf16 iq nofPorts =>
    have hwords := fun j => w.publishRowCbf16_words t mul hw iq nofPorts (i := j)
    simp only [publish,publishRowCbf16,hw,Bool.not_true,Bool.false_eq_true,if_false,
      advance_words] at hwords ⊢
    refine ⟨_,rfl,?_⟩
    intro j hj
    rw [RowCall.content,← deliveredPorts_toNat]
    by_cases hdelivered : j < (w.deliveredPorts nofPorts).toNat * w.geom.u16PerAnt.toNat
    · rw [if_pos hdelivered]
      exact hwords j hdelivered
    · rw [if_neg hdelivered,if_pos (by omega)]

structure RingAt (rows : UInt32) (geom : RadioGeometry) (scale : F32) (k : ℕ) (w : ShmIqWriter) :
    Prop where
  writesRows : w.writesRows = true
  numFhRows : w.numFhRows = rows
  numBuffers : w.numBuffers = 2
  rowBytes : w.rowBytes = geom.rowBytes
  fhBufferSize : w.fhBufferSize = rows * geom.rowBytes
  geom : w.geom = geom
  scale : w.cbf16Scale = scale
  nextRow : w.nextRow.toNat = k % rows.toNat
  nextBuf : w.nextBuf.toNat = k / rows.toNat % 2

variable {rows : UInt32} {geom : RadioGeometry} {scale : F32} {k : ℕ} {w : ShmIqWriter}

theorem cursor_succ_wrap {n : ℕ} (h : k % n + 1 = n) :
    (k + 1) % n = 0 ∧ (k + 1) / n = k / n + 1 := by
  have hdiv := Nat.div_add_mod k n
  have hk : k + 1 = n * (k / n + 1) := by rw [Nat.mul_succ]; omega
  rw [hk]
  exact ⟨Nat.mul_mod_right _ _,Nat.mul_div_cancel_left _ (by omega)⟩

theorem cursor_succ {n : ℕ} (h : k % n + 1 < n) : (k + 1) % n = k % n + 1 ∧ (k + 1) / n = k / n := by
  have hdiv := Nat.div_add_mod k n
  have hk : k + 1 = n * (k / n) + (k % n + 1) := by omega
  constructor
  · rw [hk,Nat.mul_add_mod,Nat.mod_eq_of_lt h]
  · rw [hk,Nat.mul_add_div (by omega),Nat.div_eq_of_lt h,Nat.add_zero]

theorem nextBuf_toggle (b : UInt8) : ((b.toUInt32 + 1) % 2).toUInt8.toNat = (b.toNat + 1) % 2 := by
  have hb := b.toNat_lt
  rw [UInt32.toNat_toUInt8,UInt32.toNat_mod,UInt32.toNat_add,UInt8.toNat_toUInt32,
    show (1 : UInt32).toNat = 1 from rfl,show (2 : UInt32).toNat = 2 from rfl]
  omega

theorem RingAt.advance (h : RingAt rows geom scale k w) (hrows : 0 < rows.toNat) (mem : Words) :
    RingAt rows geom scale (k + 1) { w with words := mem }.advance := by
  have hlt : k % rows.toNat < rows.toNat := Nat.mod_lt _ hrows
  have hbound := rows.toNat_lt
  have hsucc : (w.nextRow + 1).toNat = k % rows.toNat + 1 := by
    rw [UInt32.toNat_add,h.nextRow,show (1 : UInt32).toNat = 1 from rfl,Nat.mod_eq_of_lt (by omega)]
  have hwrap : w.nextRow + 1 ≥ w.numFhRows ↔ rows.toNat ≤ k % rows.toNat + 1 := by
    rw [ge_iff_le,UInt32.le_iff_toNat_le,hsucc,h.numFhRows]
  unfold ShmIqWriter.advance
  by_cases hlast : k % rows.toNat + 1 = rows.toNat
  · obtain ⟨hmod,hdiv⟩ := cursor_succ_wrap hlast
    rw [if_pos (hwrap.mpr hlast.ge)]
    refine { h with nextRow := hmod.symm, nextBuf := ?_ }
    change ((w.nextBuf.toUInt32 + 1) % w.numBuffers).toUInt8.toNat = _
    rw [h.numBuffers,nextBuf_toggle,h.nextBuf,hdiv]
    omega
  · obtain ⟨hmod,hdiv⟩ := cursor_succ (k := k) (n := rows.toNat) (by omega)
    rw [if_neg (by rw [hwrap]; omega)]
    exact { h with nextRow := hsucc.trans hmod.symm, nextBuf := h.nextBuf.trans (by rw [hdiv]) }

theorem RingAt.publish (h : RingAt rows geom scale k w) (hrows : 0 < rows.toNat) (c : RowCall) :
    RingAt rows geom scale (k + 1) (w.publish t mul undef c).2 := by
  obtain ⟨mem,hpub,-⟩ := publish_spec t mul undef h.writesRows c
  rw [hpub]
  exact h.advance hrows mem

end Ring

theorem rowBytes_even (geom : RadioGeometry) : geom.rowBytes.toNat % 2 = 0 := by
  rw [RadioGeometry.rowBytes,UInt32.toNat_mul,show (2 : UInt32).toNat = 2 from rfl]
  omega

/-- What `open` leaves behind, for every geometry and region it accepts. -/
theorem ringAt_of_open {os : OsAnswers} {w w₀ : ShmIqWriter} {name : Str} {total : UInt64}
    {geom : RadioGeometry} {scale : F32} {called : List OsCall}
    (hopen : w.openRegion os name total geom scale .controller = (true,w₀,called)) :
    ∃ rows : UInt32, 0 < rows.toNat ∧ RingAt rows geom scale 0 w₀ := by
  obtain ⟨hrows,fd,rfl⟩ := openRegion_ok hopen
  have hne : (rowsFor total 2 geom.rowBytes).toNat ≠ 0 := fun h0 => hrows (UInt32.toNat_inj.mp h0)
  refine ⟨rowsFor total 2 geom.rowBytes,Nat.pos_of_ne_zero hne,rfl,rfl,rfl,rfl,rfl,rfl,rfl,?_,?_⟩
  · exact (Nat.zero_mod _).symm
  · change 0 = 0 / _ % 2
    rw [Nat.zero_div]

end ShmIqWriter
end Shm
end E3Controller
