import E3Controller.RowConversion

/-!
# Agreement of the row writers

The gNB helper fills a row with `convert_slot`, the controller with
`publish_row_cbf16`. Both loop over the delivered antennas and convert each
16-bit word on its own, so whole rows agree exactly when every word does.
-/

namespace E3Controller
namespace RowConversion

open HalfFloat Config

structure RowGeometry where
  nofSymbols : UInt32
  nofSubcarriers : UInt32
  nofAnts : UInt32

def RowGeometry.u16PerAnt (g : RowGeometry) : UInt64 :=
  g.nofSymbols.toUInt64 * g.nofSubcarriers.toUInt64 * 2

/-- The antennas `convert_slot` writes: at least one, at most the row's capacity. -/
def RowGeometry.deliveredPorts (g : RowGeometry) (nofPorts : UInt32) : UInt32 :=
  let ports := if nofPorts ≠ 0 then nofPorts else 1
  if ports > g.nofAnts then g.nofAnts else ports

def rowGeometry (g : RadioGeometry) : RowGeometry where
  nofSymbols := g.nofSymbols.toUInt32
  nofSubcarriers := g.nofSubcarriers
  nofAnts := g.nofPorts.toUInt32

section Writers

variable (t : Target) (mul : F32 → F32 → F32)

def convertAnt (dst src n : ℕ) (scale : F32) (source mem : Words) : Words :=
  convertWords (t.convertAvx2 || t.convertNeon) (fun bf16 => cvtRne (product mul bf16 scale))
    (fun bf16 => bf16ToFp16Scalar mul t bf16 scale) dst src n source mem

def writerAnt (dst src n : ℕ) (scale : F32) (source mem : Words) : Words :=
  convertWords (t.avx2 && t.f16c) (fun bf16 => cvtRne (product mul bf16 scale))
    (fun bf16 => bf16ToFp16 mul t bf16 scale) dst src n source mem

/-- `e3_convert::convert_slot`: the bytes written and the row. -/
def convertSlot (geom : RowGeometry) (nofPorts : UInt32) (scale : F32) (source mem : Words) :
    UInt64 × Words :=
  let ports := geom.deliveredPorts nofPorts
  let n := geom.u16PerAnt
  (ports.toUInt64 * n * 2,
    forAntennas (fun a => convertAnt t mul (a * n.toNat) (a * n.toNat) n.toNat scale source)
      ports.toNat mem)

/-- The vector lanes and the scalar tail of the header compute the same word. -/
theorem lane_eq_scalar {t : Target} (scale : F32) (hvec : (t.convertAvx2 || t.convertNeon) = true) :
    (fun bf16 => cvtRne (product mul bf16 scale)) = fun bf16 => bf16ToFp16Scalar mul t bf16 scale := by
  funext bf16
  unfold bf16ToFp16Scalar
  by_cases hf : t.f16c
  · rw [if_pos hf]
  · have hneon : t.convertNeon = true := by simpa [Target.convertAvx2,hf] using hvec
    rw [if_neg hf,if_pos hneon]

theorem convertAnt_converted (dst src n : ℕ) (scale : F32) (source mem : Words) :
    Converted (fun bf16 => bf16ToFp16Scalar mul t bf16 scale) dst src n source mem
      (convertAnt t mul dst src n scale source mem) :=
  convertWords_converted (lane_eq_scalar mul scale) dst src n source mem

theorem writerAnt_converted (dst src n : ℕ) (scale : F32) (source mem : Words) :
    Converted (fun bf16 => bf16ToFp16 mul t bf16 scale) dst src n source mem
      (writerAnt t mul dst src n scale source mem) := by
  refine convertWords_converted (fun hvec => ?_) dst src n source mem
  funext bf16
  rw [bf16ToFp16,if_pos (Bool.and_eq_true_iff.mp hvec).2]

/-- Where the two conversions of a product agree without F16C: no NaN, no normal
result that is rounded up, and with NEON nothing that becomes a subnormal. -/
structure Agree (t : Target) (p : F32) : Prop where
  notNaN : isNaN p = false
  exact : 113 ≤ (exp8 p).toNat → (exp8 p).toNat < 143 → roundsUp (man23 p).toNat 13 = false
  underflow : t.convertNeon → (exp8 p).toNat < 113 → (magnitude p).toNat ≤ 0x33000000

theorem word_eq_iff (bf16 : UInt16) (scale : F32) :
    bf16ToFp16 mul t bf16 scale = bf16ToFp16Scalar mul t bf16 scale ↔
      t.f16c = true ∨ Agree t (product mul bf16 scale) := by
  unfold bf16ToFp16 bf16ToFp16Scalar
  by_cases hf : t.f16c
  · simp [hf]
  · by_cases hneon : t.convertNeon
    · rw [if_neg hf,if_neg hf,if_pos hneon,fallback_eq_cvtRne_iff]
      exact ⟨fun h => .inr ⟨h.1,h.2.1,fun _ => h.2.2⟩,
        fun h => h.elim (fun h => absurd h hf) fun h => ⟨h.notNaN,h.exact,h.underflow hneon⟩⟩
    · rw [if_neg hf,if_neg hf,if_neg hneon,fallback_eq_scalar_iff]
      exact ⟨fun h => .inr ⟨h.1,h.2,fun hn => absurd hn hneon⟩,
        fun h => h.elim (fun h => absurd h hf) fun h => ⟨h.notNaN,h.exact⟩⟩

end Writers

end RowConversion

namespace Shm
namespace ShmIqWriter

open RowConversion HalfFloat Config

/-- Where the row of the cursor starts, as a word of the mapped memory. -/
def rowWord (w : ShmIqWriter) : ℕ := (w.rowBase - 64) / 2

def advance (w : ShmIqWriter) : ShmIqWriter :=
  if w.nextRow + 1 ≥ w.numFhRows then
    { w with nextRow := 0, nextBuf := ((w.nextBuf.toUInt32 + 1) % w.numBuffers).toUInt8 }
  else { w with nextRow := w.nextRow + 1 }

def deliveredPorts (w : ShmIqWriter) (nofPorts : UInt16) : UInt16 :=
  let ports := if nofPorts ≠ 0 then nofPorts else 1
  if ports > w.geom.nofPorts then w.geom.nofPorts else ports

/-- `publish_row_cbf16`: `none` when refused, else the indices of the row. -/
def publishRowCbf16 (t : Target) (mul : F32 → F32 → F32) (w : ShmIqWriter) (iq : Words)
    (nofPorts : UInt16) : Option (UInt8 × UInt32) × ShmIqWriter :=
  if !w.writesRows then (none,w)
  else
    let row := w.rowWord
    let n := w.geom.u16PerAnt.toNat
    let ports := w.deliveredPorts nofPorts
    let filled := forAntennas (fun a => writerAnt t mul (row + a * n) (a * n) n w.cbf16Scale iq)
      ports.toNat w.words
    let written := ports.toNat * n
    let cleared : Words := fun j =>
      if row + written ≤ j ∧ j < row + w.rowBytes.toNat / 2 then 0 else filled j
    (some (w.nextBuf,w.nextRow),{ w with words := cleared }.advance)

@[simp] theorem advance_words (w : ShmIqWriter) : w.advance.words = w.words := by
  unfold advance
  split <;> rfl

@[simp] theorem advance_writesRows (w : ShmIqWriter) : w.advance.writesRows = w.writesRows := by
  unfold advance
  split <;> rfl

theorem publishRowCbf16_writesRows (t : Target) (mul : F32 → F32 → F32) (w : ShmIqWriter) (iq : Words)
    (nofPorts : UInt16) : (w.publishRowCbf16 t mul iq nofPorts).2.writesRows = w.writesRows := by
  unfold publishRowCbf16
  split
  · rfl
  · rw [advance_writesRows]
    rfl

theorem publishRowCbf16_words (t : Target) (mul : F32 → F32 → F32) {w : ShmIqWriter}
    (hw : w.writesRows = true) (iq : Words) (nofPorts : UInt16) {i : ℕ}
    (hi : i < (w.deliveredPorts nofPorts).toNat * w.geom.u16PerAnt.toNat) :
    (w.publishRowCbf16 t mul iq nofPorts).2.words (w.rowWord + i) =
      bf16ToFp16 mul t (iq i) w.cbf16Scale := by
  have hant : ∀ a mem, Converted (fun bf16 => bf16ToFp16 mul t bf16 w.cbf16Scale)
      (w.rowWord + a * w.geom.u16PerAnt.toNat) (0 + a * w.geom.u16PerAnt.toNat)
      w.geom.u16PerAnt.toNat iq mem (writerAnt t mul (w.rowWord + a * w.geom.u16PerAnt.toNat)
        (a * w.geom.u16PerAnt.toNat) w.geom.u16PerAnt.toNat w.cbf16Scale iq mem) := by
    intro a mem
    rw [Nat.zero_add]
    exact writerAnt_converted t mul _ _ _ _ _ _
  have hrow := forAntennas_converted hant (w.deliveredPorts nofPorts).toNat w.words (w.rowWord + i)
  rw [if_pos (by omega),Nat.zero_add,Nat.add_sub_cancel_left] at hrow
  simp only [publishRowCbf16,hw,Bool.not_true,Bool.false_eq_true,if_false,advance_words]
  rw [if_neg (by omega),hrow]

end ShmIqWriter
end Shm

namespace RowConversion

open HalfFloat Config Shm

section Agreement

variable (t : Target) (mul : F32 → F32 → F32)

/-- The delivered words of a row and the helper's row are the same, whatever the
helper's row held before. -/
def RowsIdentical (w : ShmIqWriter) (iq : Words) (nofPorts : UInt16) : Prop :=
  ∀ (row : Words) (i : ℕ), i < (w.deliveredPorts nofPorts).toNat * w.geom.u16PerAnt.toNat →
    (w.publishRowCbf16 t mul iq nofPorts).2.words (w.rowWord + i) =
      (convertSlot t mul (rowGeometry w.geom) nofPorts.toUInt32 w.cbf16Scale iq row).2 i

theorem rowGeometry_u16PerAnt {g : RadioGeometry} (hg : g.InRange) :
    (rowGeometry g).u16PerAnt.toNat = g.u16PerAnt.toNat := by
  have hb := hg.grid_le
  rw [hg.u16PerAnt_toNat]
  simp only [RowGeometry.u16PerAnt,rowGeometry,UInt64.toNat_mul,UInt32.toNat_toUInt64,
    UInt16.toNat_toUInt32]
  rw [Nat.mod_eq_of_lt (a := g.nofSymbols.toNat * g.nofSubcarriers.toNat) (by omega)]
  exact Nat.mod_eq_of_lt (by simp; omega)

theorem rowGeometry_deliveredPorts (w : ShmIqWriter) (nofPorts : UInt16) :
    ((rowGeometry w.geom).deliveredPorts nofPorts.toUInt32).toNat =
      (w.deliveredPorts nofPorts).toNat := by
  have hzero : nofPorts.toUInt32 = 0 ↔ nofPorts = 0 := by
    rw [← UInt32.toNat_inj,← UInt16.toNat_inj,UInt16.toNat_toUInt32]
    rfl
  have hone : (1 : UInt32) = (1 : UInt16).toUInt32 := rfl
  simp only [RowGeometry.deliveredPorts,ShmIqWriter.deliveredPorts,rowGeometry,ne_eq,hzero,hone,
    gt_iff_lt,UInt32.lt_iff_toNat_lt,UInt16.lt_iff_toNat_lt]
  split_ifs <;> simp_all [UInt16.toNat_toUInt32]

theorem convertSlot_converted (scale : F32) (source : Words) (geom : RowGeometry) (nofPorts : UInt32)
    (row : Words) :
    Converted (fun bf16 => bf16ToFp16Scalar mul t bf16 scale) 0 0
      ((geom.deliveredPorts nofPorts).toNat * geom.u16PerAnt.toNat) source row
      (convertSlot t mul geom nofPorts scale source row).2 := by
  refine forAntennas_converted (fun a mem => ?_) _ row
  rw [Nat.zero_add]
  exact convertAnt_converted t mul _ _ _ _ _ _

theorem convertSlot_words {w : ShmIqWriter} (hg : w.geom.InRange) (iq row : Words)
    (nofPorts : UInt16) {i : ℕ}
    (hi : i < (w.deliveredPorts nofPorts).toNat * w.geom.u16PerAnt.toNat) :
    (convertSlot t mul (rowGeometry w.geom) nofPorts.toUInt32 w.cbf16Scale iq row).2 i =
      bf16ToFp16Scalar mul t (iq i) w.cbf16Scale := by
  have hrow := convertSlot_converted t mul w.cbf16Scale iq (rowGeometry w.geom) nofPorts.toUInt32 row i
  rwa [rowGeometry_u16PerAnt hg,rowGeometry_deliveredPorts,if_pos (by omega),Nat.zero_add,
    Nat.sub_zero] at hrow

theorem rowsIdentical_iff_words {w : ShmIqWriter} (hw : w.writesRows = true) (hg : w.geom.InRange)
    (iq : Words) (nofPorts : UInt16) :
    RowsIdentical t mul w iq nofPorts ↔
      ∀ i < (w.deliveredPorts nofPorts).toNat * w.geom.u16PerAnt.toNat,
        bf16ToFp16 mul t (iq i) w.cbf16Scale = bf16ToFp16Scalar mul t (iq i) w.cbf16Scale := by
  constructor
  · intro h i hi
    rw [← w.publishRowCbf16_words t mul hw iq nofPorts hi,h (fun _ => 0) i hi,
      convertSlot_words t mul hg iq _ nofPorts hi]
  · intro h row i hi
    rw [w.publishRowCbf16_words t mul hw iq nofPorts hi,convertSlot_words t mul hg iq row nofPorts hi,
      h i hi]

/-- For every build, geometry, source, port count and scale, the two rows agree
exactly when the build has F16C or every delivered product is one on which the
fallback needs no rounding, no subnormal and no NaN. -/
theorem rows_identical_iff (w : ShmIqWriter) (hw : w.writesRows = true)
    (hg : w.geom.validate = .ok ()) (iq : Words) (nofPorts : UInt16) :
    RowsIdentical t mul w iq nofPorts ↔
      t.f16c = true ∨ ∀ i < (w.deliveredPorts nofPorts).toNat * w.geom.u16PerAnt.toNat,
        Agree t (product mul (iq i) w.cbf16Scale) := by
  rw [rowsIdentical_iff_words t mul hw (RadioGeometry.inRange_of_validate hg)]
  simp only [word_eq_iff]
  by_cases hf : t.f16c
  · simp [hf]
  · simp [hf]

end Agreement

def neonTarget : Target where
  avx2 := false
  f16c := false
  aarch64 := true
  noNeon := false

def defaultWriter : ShmIqWriter where
  writer := .controller

theorem rows_identical_iff_ones :
    RowsIdentical neonTarget (fun x _ => x) defaultWriter (fun _ => 0x3f80) 4 := by
  refine (rows_identical_iff neonTarget (fun x _ => x) defaultWriter rfl (by decide) _ _).mpr
    (.inr fun i _ => ⟨by decide,by decide,by decide⟩)

/-- On AArch64 the helper delivers the subnormal `2^-24`, the controller zero. -/
theorem neon_subnormal_differs :
    ¬ RowsIdentical neonTarget (fun x _ => x) defaultWriter (fun _ => 0x3380) 4 := by
  have hg : defaultWriter.geom.InRange := RadioGeometry.inRange_of_validate (by decide)
  rw [rowsIdentical_iff_words neonTarget (fun x _ => x) rfl hg]
  intro h
  have hword := h 0 (by decide)
  exact absurd hword (by decide)

end RowConversion
end E3Controller
