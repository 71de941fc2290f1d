import Mathlib.Tactic.Linarith
import Mathlib.Tactic.Positivity
import E3Controller.BitString
import E3Controller.MemoryReads

/-!
# Block floating point with nine bits

`decompress_bfp_9bit` turns PRBs of 28 bytes into 24 16-bit values each: the first byte is
the exponent, the other 27 hold the mantissas as nine bits each, most significant bit first.
`extract_9bit` takes every mantissa out of a window of three bytes.
-/

namespace E3Controller
namespace Bfp

open MemoryReads Prog BitString

def bfpPrbSize : ℕ := 28
def int16PerPrb : ℕ := 24

/-- What the target computes for a shift of a 32-bit value by 32 or more, which the language
leaves open. -/
abbrev WideShift := Int16 → UInt8 → Int16

def signExtend (raw : UInt16) : Int16 :=
  if raw &&& 0x100 ≠ 0 then (raw ||| 0xfe00).toInt16 else raw.toInt16

/-- `extract_9bit`: the nine bits at `bitOffset`, counted from the byte at `data`. -/
def extract9bit (data bitOffset : ℕ) : Prog UInt8 Int16 := do
  let byteIdx := bitOffset / 8
  let bitPos := bitOffset % 8
  let b₀ ← cell (data + byteIdx)
  let b₁ ← cell (data + byteIdx + 1)
  let b₂ ← cell (data + byteIdx + 2)
  let window := (b₀.toUInt32 <<< 16) ||| (b₁.toUInt32 <<< 8) ||| b₂.toUInt32
  let shift := 24 - bitPos - 9
  let raw := ((window >>> UInt32.ofNat shift) &&& 0x1ff).toUInt16
  pure (signExtend raw)

/-- `int16_t value = mantissa << exponent`, in two's complement. -/
def shiftLeft (wide : WideShift) (mantissa : Int16) (exponent : UInt8) : Int16 :=
  if exponent < 32 then Int16.ofInt (mantissa.toInt * 2 ^ exponent.toNat)
  else wide mantissa exponent

/-- What `decompress_bfp_9bit` returns and leaves in `out_iq`, and the shift counts it
executed. -/
structure Result where
  ok : Bool
  outIq : List Int16
  shifts : List UInt8
  deriving DecidableEq, Repr

section Decompress

variable (wide : WideShift)

def decompressPrb (prbData : ℕ) : Prog UInt8 (List (UInt8 × Int16)) := do
  let exponent ← cell prbData
  (List.range int16PerPrb).mapM fun i => do
    let mantissa ← extract9bit (prbData + 1) (i * 9)
    pure (exponent,shiftLeft wide mantissa exponent)

/-- `decompress_bfp_9bit` on a buffer that starts at address 0. -/
def decompressBfp9bit (dataLen : ℕ) (numPrbu : UInt16) (outIq : List Int16) : Prog UInt8 Result :=
  if dataLen < numPrbu.toNat * bfpPrbSize then pure ⟨false,outIq,[]⟩
  else do
    let prbs ← (List.range numPrbu.toNat).mapM fun prb => decompressPrb wide (prb * bfpPrbSize)
    pure ⟨true,prbs.flatten.map Prod.snd,prbs.flatten.map Prod.fst⟩

end Decompress

section Extract

theorem signExtend_toInt {raw : UInt16} (h : raw.toNat < 512) :
    (signExtend raw).toInt = if raw.toNat < 256 then (raw.toNat : ℤ) else raw.toNat - 512 := by
  have hbit : raw &&& 0x100 ≠ 0 ↔ 256 ≤ raw.toNat := by
    rw [ne_eq,← UInt16.toNat_inj,UInt16.toNat_and,show (0x100 : UInt16).toNat = 2 ^ 8 from rfl,
      Nat.and_two_pow,Nat.testBit_eq_decide_div_mod_eq,UInt16.toNat_zero]
    simp
    omega
  have hor : (raw ||| 0xfe00).toNat = raw.toNat + 0xfe00 := by
    have hadd := Nat.shiftLeft_add_eq_or_of_lt (i := 9) (show raw.toNat < 2 ^ 9 from h) 127
    rw [UInt16.toNat_or,show (0xfe00 : UInt16).toNat = 127 <<< 9 from rfl,Nat.or_comm,← hadd,
      Nat.add_comm]
    rfl
  have hint : ∀ x : UInt16, x.toInt16.toInt = x.toBitVec.toInt := fun x => rfl
  unfold signExtend
  by_cases hneg : 256 ≤ raw.toNat
  · rw [if_pos (hbit.mpr hneg),if_neg (by omega),hint,BitVec.toInt_eq_toNat_cond]
    change (if 2 * (raw ||| 0xfe00).toNat < 2 ^ 16 then ((raw ||| 0xfe00).toNat : ℤ)
      else (raw ||| 0xfe00).toNat - (2 ^ 16 : ℕ)) = _
    rw [hor,if_neg (by omega)]
    omega
  · rw [if_neg (fun hb => hneg (hbit.mp hb)),if_pos (by omega),hint,BitVec.toInt_eq_toNat_of_lt]
    · rfl
    · change 2 * raw.toNat < 2 ^ 16
      omega

theorem window_toNat (b₀ b₁ b₂ : UInt8) :
    ((b₀.toUInt32 <<< 16) ||| (b₁.toUInt32 <<< 8) ||| b₂.toUInt32).toNat =
      number (ofBytes [b₀,b₁,b₂]) := by
  rw [UInt32.toNat_or,UInt32.toNat_or,shiftLeft_toUInt32 _ (by decide),shiftLeft_toUInt32 _ (by decide),
    UInt8.toNat_toUInt32,Nat.or_assoc,← shiftLeft_or_ofBytes,← shiftLeft_or_ofBytes,
    number_ofBytes_singleton]
  rfl

def bytesAt (mem : ℕ → UInt8) (data n : ℕ) : List UInt8 := (List.range n).map fun k => mem (data + k)

theorem bytesAt_slice (mem : ℕ → UInt8) (data : ℕ) {k m n : ℕ} (h : k + m ≤ n) :
    ((bytesAt mem data n).drop k).take m = bytesAt mem (data + k) m := by
  refine List.ext_getElem ?_ fun i hi hi' => ?_
  · simp only [bytesAt,List.length_take,List.length_drop,List.length_map,List.length_range]
    omega
  · simp only [bytesAt,List.getElem_take,List.getElem_drop,List.getElem_map,List.getElem_range,
      Nat.add_assoc]

theorem bytesAt_cons (mem : ℕ → UInt8) (data n : ℕ) :
    bytesAt mem data (n + 1) = mem data :: bytesAt mem (data + 1) n := by
  rw [bytesAt,List.range_succ_eq_map,List.map_cons,List.map_map]
  refine congrArg (List.cons (mem data)) (List.map_congr_left fun k _ => ?_)
  rw [Function.comp_apply,Nat.add_assoc,Nat.add_comm 1]

theorem extract9bit_value (mem : ℕ → UInt8) (data : ℕ) {o n : ℕ} (h : o / 8 + 3 ≤ n) :
    value mem (extract9bit data o) =
      signExtend (UInt16.ofNat (number (((ofBytes (bytesAt mem data n)).drop o).take 9))) := by
  have hwindow : ((ofBytes (bytesAt mem data n)).drop (8 * (o / 8))).take (8 * 3) =
      ofBytes [mem (data + o / 8),mem (data + o / 8 + 1),mem (data + o / 8 + 2)] := by
    rw [ofBytes_drop,ofBytes_take,bytesAt_slice mem data h]
    rfl
  have hfield : ((ofBytes (bytesAt mem data n)).drop o).take 9 =
      ((ofBytes [mem (data + o / 8),mem (data + o / 8 + 1),mem (data + o / 8 + 2)]).drop
        (o % 8)).take 9 := by
    rw [← hwindow,List.drop_take,List.drop_drop,List.take_take,Nat.div_add_mod,
      Nat.min_eq_left (by omega)]
  have hlen : (ofBytes [mem (data + o / 8),mem (data + o / 8 + 1),mem (data + o / 8 + 2)]).length =
      24 := length_fields (fun _ => length_bits 8 _) _
  have hfits : o % 8 + 9 ≤ (ofBytes [mem (data + o / 8),mem (data + o / 8 + 1),
      mem (data + o / 8 + 2)]).length := by omega
  have hraw := number_field hfits
  rw [hlen] at hraw
  simp only [extract9bit,value_bind,value_cell,value_pure]
  congr 1
  rw [← UInt16.toNat_inj,UInt32.toNat_toUInt16,UInt32.toNat_and,UInt32.toNat_shiftRight,window_toNat,
    show (0x1ff : UInt32).toNat = 2 ^ 9 - 1 from rfl,Nat.and_two_pow_sub_one_eq_mod,
    Nat.shiftRight_eq_div_pow,UInt32.toNat_ofNat',UInt16.toNat_ofNat',hfield,← hraw,
    show (24 - o % 8 - 9) % 2 ^ 32 % 32 = 24 - (o % 8 + 9) by omega]

theorem extract9bit_cells (mem : ℕ → UInt8) (data o : ℕ) :
    cells mem (extract9bit data o) = [data + o / 8,data + o / 8 + 1,data + o / 8 + 2] := by
  simp [extract9bit]

/-- The mantissas of a PRB are found in its own 27 bytes: the window of the last one reaches
into the byte after them, but not the field. -/
theorem extract9bit_prb (mem : ℕ → UInt8) (data : ℕ) {i : ℕ} (hi : i < int16PerPrb) :
    value mem (extract9bit data (i * 9)) =
      signExtend (UInt16.ofNat (number (((ofBytes (bytesAt mem data 27)).drop (9 * i)).take 9))) := by
  have hi' : i < 24 := hi
  have hown : ofBytes (bytesAt mem data 27) = (ofBytes (bytesAt mem data 28)).take (8 * 27) := by
    rw [ofBytes_take]
    exact congrArg ofBytes (bytesAt_slice mem data (k := 0) (by omega)).symm
  rw [extract9bit_value mem data (n := 28) (by omega),hown,List.drop_take,List.take_take,
    Nat.min_eq_left (by omega),Nat.mul_comm i]

end Extract

section Spec

variable (wide : WideShift) (mem : ℕ → UInt8) (dataLen : ℕ) (numPrbu : UInt16) (outIq : List Int16)

def prbMantissa (data i : ℕ) : Int16 :=
  signExtend (UInt16.ofNat (number (((ofBytes (bytesAt mem (data + 1) 27)).drop (9 * i)).take 9)))

theorem decompressPrb_value (data : ℕ) :
    value mem (decompressPrb wide data) = (List.range int16PerPrb).map fun i =>
      (mem data,shiftLeft wide (prbMantissa mem data i) (mem data)) := by
  simp only [decompressPrb,value_bind,value_cell,value_mapM,value_pure]
  refine List.map_congr_left fun i hi => ?_
  rw [extract9bit_prb mem (data + 1) (List.mem_range.mp hi),prbMantissa]

theorem decompressPrb_cells (data : ℕ) :
    cells mem (decompressPrb wide data) = data :: (List.range int16PerPrb).flatMap fun i =>
      [data + 1 + i * 9 / 8,data + 1 + i * 9 / 8 + 1,data + 1 + i * 9 / 8 + 2] := by
  simp [decompressPrb,extract9bit_cells]

theorem decompress_value (h : numPrbu.toNat * bfpPrbSize ≤ dataLen) :
    value mem (decompressBfp9bit wide dataLen numPrbu outIq) =
      let prbs := (List.range numPrbu.toNat).flatMap fun prb =>
        value mem (decompressPrb wide (prb * bfpPrbSize))
      ⟨true,prbs.map Prod.snd,prbs.map Prod.fst⟩ := by
  rw [decompressBfp9bit,if_neg (Nat.not_lt.mpr h)]
  simp only [value_bind,value_mapM,value_pure,List.flatMap_def]

theorem decompress_length (h : numPrbu.toNat * bfpPrbSize ≤ dataLen) :
    (value mem (decompressBfp9bit wide dataLen numPrbu outIq)).outIq.length =
      int16PerPrb * numPrbu.toNat := by
  have hprb : ∀ prb, (value mem (decompressPrb wide (prb * bfpPrbSize))).length = int16PerPrb := by
    intro prb
    rw [decompressPrb_value,List.length_map,List.length_range]
  rw [decompress_value wide mem dataLen numPrbu outIq h,List.length_map,length_fields hprb,
    List.length_range]

theorem decompress_cells (h : numPrbu.toNat * bfpPrbSize ≤ dataLen) :
    cells mem (decompressBfp9bit wide dataLen numPrbu outIq) =
      (List.range numPrbu.toNat).flatMap fun prb =>
        cells mem (decompressPrb wide (prb * bfpPrbSize)) := by
  rw [decompressBfp9bit,if_neg (Nat.not_lt.mpr h)]
  simp only [cells_bind,cells_mapM,cells_pure,List.append_nil]

theorem decompress_short (h : dataLen < numPrbu.toNat * bfpPrbSize) :
    decompressBfp9bit wide dataLen numPrbu outIq = pure ⟨false,outIq,[]⟩ := if_pos h

theorem mem_decompressPrb_cells {data i : ℕ} (h : i ∈ cells mem (decompressPrb wide data)) :
    i ≤ data + bfpPrbSize := by
  rw [decompressPrb_cells,List.mem_cons,List.mem_flatMap] at h
  change i ≤ data + 28
  rcases h with rfl | ⟨j,hj,hi⟩
  · omega
  · have hj' : j < 24 := List.mem_range.mp hj
    simp only [List.mem_cons,List.not_mem_nil,or_false] at hi
    omega

theorem reads_byte_after (data : ℕ) :
    data + bfpPrbSize ∈ cells mem (decompressPrb wide data) := by
  rw [decompressPrb_cells,List.mem_cons,List.mem_flatMap]
  exact .inr ⟨23,List.mem_range.mpr (by decide),by simp [bfpPrbSize]⟩

/-- Success reads only below `data_len`, failure reads nothing and changes nothing. -/
def StaysInside : Prop :=
  let call := decompressBfp9bit wide dataLen numPrbu outIq
  ((value mem call).ok = true → ∀ i ∈ cells mem call, i < dataLen) ∧
    (dataLen < numPrbu.toNat * bfpPrbSize →
      (value mem call).ok = false ∧ (value mem call).outIq = outIq ∧ cells mem call = [])

/-- The decompressor stays in its input unless that ends exactly with the last PRB, whose last
window reaches one byte further. -/
theorem stays_inside_iff :
    StaysInside wide mem dataLen numPrbu outIq ↔
      numPrbu = 0 ∨ dataLen ≠ numPrbu.toNat * bfpPrbSize := by
  have hzero : numPrbu = 0 ↔ numPrbu.toNat = 0 := by
    rw [← UInt16.toNat_inj]
    rfl
  rw [hzero]
  rcases Nat.lt_or_ge dataLen (numPrbu.toNat * bfpPrbSize) with hshort | hlong
  · refine iff_of_true ?_ (.inr (by omega))
    rw [StaysInside,decompress_short wide dataLen numPrbu outIq hshort]
    exact ⟨fun h => absurd h Bool.false_ne_true,fun _ => ⟨rfl,rfl,rfl⟩⟩
  · have hok : (value mem (decompressBfp9bit wide dataLen numPrbu outIq)).ok = true := by
      rw [decompress_value wide mem dataLen numPrbu outIq hlong]
    simp only [StaysInside,decompress_cells wide mem dataLen numPrbu outIq hlong,hok,forall_const,
      List.mem_flatMap,List.mem_range]
    constructor
    · rintro ⟨hinside,-⟩
      by_contra hnot
      rw [not_or,not_not] at hnot
      obtain ⟨hpos,hlen⟩ := hnot
      -- the last PRB reads the byte at `data_len`
      have hlast : (numPrbu.toNat - 1) * bfpPrbSize + bfpPrbSize = numPrbu.toNat * bfpPrbSize := by
        rw [← Nat.succ_mul,Nat.succ_eq_add_one,Nat.sub_add_cancel (Nat.pos_of_ne_zero hpos)]
      have hread := hinside _ ⟨numPrbu.toNat - 1,by omega,reads_byte_after wide mem _⟩
      omega
    · intro h
      refine ⟨fun i ⟨prb,hprb,hi⟩ => ?_,fun hshort => absurd hshort (by omega)⟩
      have hle := mem_decompressPrb_cells wide mem hi
      have hend : prb * bfpPrbSize + bfpPrbSize ≤ numPrbu.toNat * bfpPrbSize := by
        rw [← Nat.succ_mul]
        exact Nat.mul_le_mul_right _ hprb
      omega

end Spec

/-- One PRB in exactly 28 bytes: the byte after them is read. -/
theorem exact_length_read_past :
    28 ∈ cells (fun _ => 0) (decompressBfp9bit (fun m _ => m) 28 1 []) ∧
      ¬ StaysInside (fun m _ => m) (fun _ => 0) 28 1 [] := by
  have hread : 28 ∈ cells (fun _ => 0) (decompressBfp9bit (fun m _ => m) 28 1 []) := by decide +kernel
  refine ⟨hread,fun h => ?_⟩
  exact absurd (h.1 (by decide +kernel) 28 hread) (Nat.lt_irrefl 28)

section Reserved

/-- Two buffers that differ at most in the high nibbles of the PRBs' first bytes. -/
def SameButReserved (numPrbu : UInt16) (mem mem' : ℕ → UInt8) : Prop :=
  ∀ i, mem' i = mem i ∨
    (∃ prb < numPrbu.toNat, i = prb * bfpPrbSize) ∧ mem' i &&& 0x0f = mem i &&& 0x0f

variable (wide : WideShift) (dataLen : ℕ) (numPrbu : UInt16) (outIq : List Int16)

theorem shifts_le_iff (mem : ℕ → UInt8) (h : numPrbu.toNat * bfpPrbSize ≤ dataLen) :
    (∀ c ∈ (value mem (decompressBfp9bit wide dataLen numPrbu outIq)).shifts, c ≤ 15) ↔
      ∀ prb < numPrbu.toNat, mem (prb * bfpPrbSize) ≤ 15 := by
  simp only [decompress_value wide mem dataLen numPrbu outIq h,List.mem_map,List.mem_flatMap,
    List.mem_range,decompressPrb_value]
  constructor
  · intro hall prb hprb
    exact hall _ ⟨_,⟨prb,hprb,0,by decide,rfl⟩,rfl⟩
  · rintro hall c ⟨x,⟨prb,hprb,i,-,rfl⟩,rfl⟩
    exact hall prb hprb

theorem nibble_of_le {b : UInt8} (h : b ≤ 15) : b &&& 0x0f = b := by
  rw [← UInt8.toNat_inj,UInt8.toNat_and,show (0x0f : UInt8).toNat = 2 ^ 4 - 1 from rfl,
    Nat.and_two_pow_sub_one_eq_mod]
  have hle : b.toNat ≤ 15 := UInt8.le_iff_toNat_le.mp h
  omega

/-- The whole first byte is the shift count: the reserved nibbles are inert and the counts at
most 15 only if these nibbles are zero before and after the change. -/
theorem reserved_inert_iff (mem mem' : ℕ → UInt8) (h : numPrbu.toNat * bfpPrbSize ≤ dataLen)
    (hsame : SameButReserved numPrbu mem mem') :
    (let before := value mem (decompressBfp9bit wide dataLen numPrbu outIq)
      let after := value mem' (decompressBfp9bit wide dataLen numPrbu outIq)
      after.outIq = before.outIq ∧ (∀ c ∈ before.shifts, c ≤ 15) ∧ ∀ c ∈ after.shifts, c ≤ 15) ↔
      ∀ prb < numPrbu.toNat, mem (prb * bfpPrbSize) ≤ 15 ∧ mem' (prb * bfpPrbSize) ≤ 15 := by
  have hbefore := shifts_le_iff wide dataLen numPrbu outIq mem h
  have hafter := shifts_le_iff wide dataLen numPrbu outIq mem' h
  constructor
  · rintro ⟨-,hb,ha⟩ prb hprb
    exact ⟨hbefore.mp hb prb hprb,hafter.mp ha prb hprb⟩
  · intro hzero
    have hmem : mem' = mem := by
      funext i
      rcases hsame i with heq | ⟨⟨prb,hprb,rfl⟩,hlow⟩
      · exact heq
      · obtain ⟨hb,ha⟩ := hzero prb hprb
        rwa [nibble_of_le hb,nibble_of_le ha] at hlow
    subst hmem
    exact ⟨rfl,hbefore.mpr fun prb hprb => (hzero prb hprb).1,
      hafter.mpr fun prb hprb => (hzero prb hprb).2⟩

end Reserved

theorem reserved_inert_iff_zero : (value (fun _ => 2)
    (decompressBfp9bit (fun m _ => m) 28 1 [])).shifts.all (fun c => decide (c ≤ 15)) = true := by
  have hinert := (reserved_inert_iff (fun m _ => m) 28 1 [] (fun _ => 2) (fun _ => 2) (by decide)
    fun _ => .inl rfl).mpr fun prb _ => ⟨by decide,by decide⟩
  exact List.all_eq_true.mpr fun c hc => decide_eq_true (hinert.2.1 c hc)

def onesPrb (first : UInt8) (i : ℕ) : UInt8 := if i = 0 then first else 0xff

/-- Exponent 2 with reserved nibble 0 and 1: all values become zero, shifted by 18. -/
theorem reserved_nibble_zeroes :
    SameButReserved 1 (onesPrb 0x02) (onesPrb 0x12) ∧
      (value (onesPrb 0x02) (decompressBfp9bit (fun m _ => m) 28 1 [])).outIq =
        List.replicate 24 (-4) ∧
      (value (onesPrb 0x12) (decompressBfp9bit (fun m _ => m) 28 1 [])) =
        ⟨true,List.replicate 24 0,List.replicate 24 18⟩ := by
  refine ⟨fun i => ?_,by decide +kernel,by decide +kernel⟩
  by_cases hi : i = 0
  · exact .inr ⟨⟨0,by decide,hi⟩,by rw [hi]; decide⟩
  · left
    rw [onesPrb,onesPrb,if_neg hi,if_neg hi]

structure Prb where
  exponent : ℕ
  exponent_le : exponent ≤ 7
  mantissas : List ℤ
  length_mantissas : mantissas.length = int16PerPrb
  range : ∀ m ∈ mantissas, -256 ≤ m ∧ m ≤ 255

namespace Prb

def mantissaBits (p : Prb) : List Bool := p.mantissas.flatMap fun m => bits 9 (m % 512).toNat

def pack (p : Prb) : List UInt8 := UInt8.ofNat p.exponent :: toBytes p.mantissaBits

def values (p : Prb) : List ℤ := p.mantissas.map fun m => m * 2 ^ p.exponent

theorem length_mantissaBits (p : Prb) : p.mantissaBits.length = 8 * 27 := by
  rw [mantissaBits,length_fields (fun _ => length_bits 9 _),p.length_mantissas]
  rfl

theorem length_pack (p : Prb) : p.pack.length = bfpPrbSize := by
  rw [pack,List.length_cons,length_toBytes,p.length_mantissaBits]
  rfl

theorem length_values (p : Prb) : p.values.length = int16PerPrb := by
  rw [values,List.length_map,p.length_mantissas]

theorem values_range (p : Prb) : ∀ v ∈ p.values, -2 ^ 15 ≤ v ∧ v < 2 ^ 15 := by
  intro v hv
  obtain ⟨m,hm,rfl⟩ := List.mem_map.mp hv
  obtain ⟨hlow,hhigh⟩ := p.range m hm
  have hpos : (0 : ℤ) < 2 ^ p.exponent := by positivity
  have hpow : (2 : ℤ) ^ p.exponent ≤ 2 ^ 7 := by
    exact_mod_cast Nat.pow_le_pow_right (by omega) p.exponent_le
  constructor
  · nlinarith
  · nlinarith

end Prb

section RoundTrip

variable (wide : WideShift) (mem : ℕ → UInt8)

theorem prbMantissa_packed {p : Prb} {data : ℕ} (hmem : bytesAt mem data bfpPrbSize = p.pack) {i : ℕ}
    (hi : i < p.mantissas.length) : (prbMantissa mem data i).toInt = p.mantissas[i] := by
  have hrest : bytesAt mem (data + 1) 27 = toBytes p.mantissaBits :=
    (List.cons.inj ((bytesAt_cons mem data 27).symm.trans hmem)).2
  obtain ⟨hlow,hhigh⟩ := p.range _ (List.getElem_mem hi)
  have hfield : ((ofBytes (bytesAt mem (data + 1) 27)).drop (9 * i)).take 9 =
      bits 9 (p.mantissas[i] % 512).toNat := by
    rw [hrest,ofBytes_toBytes p.length_mantissaBits,Prb.mantissaBits]
    exact fields_get (fun _ => length_bits 9 _) hi
  have hlt : (p.mantissas[i] % 512).toNat < 512 := by omega
  have hraw : (UInt16.ofNat (p.mantissas[i] % 512).toNat).toNat = (p.mantissas[i] % 512).toNat := by
    rw [UInt16.toNat_ofNat',Nat.mod_eq_of_lt (by omega)]
  rw [prbMantissa,hfield,number_bits hlt,signExtend_toInt (by omega),hraw]
  split_ifs <;> omega

theorem decompressPrb_packed {p : Prb} {data : ℕ} (hmem : bytesAt mem data bfpPrbSize = p.pack) :
    (value mem (decompressPrb wide data)).map (fun v => v.2.toInt) = p.values := by
  have hfirst : mem data = UInt8.ofNat p.exponent :=
    (List.cons.inj ((bytesAt_cons mem data 27).symm.trans hmem)).1
  have hexp : (mem data).toNat = p.exponent := by
    have hle := p.exponent_le
    rw [hfirst,UInt8.toNat_ofNat',Nat.mod_eq_of_lt (by omega)]
  have hsmall : mem data < 32 := by
    have hle := p.exponent_le
    rw [UInt8.lt_iff_toNat_lt,hexp]
    exact Nat.lt_of_le_of_lt hle (by decide)
  rw [decompressPrb_value,List.map_map]
  refine List.ext_getElem ?_ fun i hi hi' => ?_
  · rw [List.length_map,List.length_range,Prb.values,List.length_map,p.length_mantissas]
  · rw [Prb.values,List.length_map] at hi'
    have hv := p.values_range (p.mantissas[i] * 2 ^ p.exponent)
      (List.mem_map_of_mem (List.getElem_mem hi'))
    simp only [List.getElem_map,List.getElem_range,Function.comp_apply,Prb.values]
    rw [shiftLeft,if_pos hsmall,prbMantissa_packed mem hmem hi',hexp,Int16.toInt_ofInt_of_le hv.1 hv.2]

theorem decompress_congr {mem mem' : ℕ → UInt8} {dataLen : ℕ} {numPrbu : UInt16}
    (outIq : List Int16) (h : numPrbu.toNat * bfpPrbSize ≤ dataLen)
    (hmem : ∀ i < numPrbu.toNat * bfpPrbSize, mem' i = mem i) :
    value mem' (decompressBfp9bit wide dataLen numPrbu outIq) =
      value mem (decompressBfp9bit wide dataLen numPrbu outIq) := by
  have hprbs : ((List.range numPrbu.toNat).flatMap fun prb =>
      value mem' (decompressPrb wide (prb * bfpPrbSize))) =
      (List.range numPrbu.toNat).flatMap fun prb =>
        value mem (decompressPrb wide (prb * bfpPrbSize)) := by
    refine List.flatMap_congr fun prb hprb => ?_
    have hend : (prb + 1) * bfpPrbSize ≤ numPrbu.toNat * bfpPrbSize :=
      Nat.mul_le_mul_right _ (List.mem_range.mp hprb)
    rw [Nat.succ_mul] at hend
    change _ + 28 ≤ _ at hend
    have hbytes : bytesAt mem' (prb * bfpPrbSize + 1) 27 = bytesAt mem (prb * bfpPrbSize + 1) 27 := by
      refine List.map_congr_left fun k hk => hmem _ ?_
      have hk' := List.mem_range.mp hk
      omega
    simp only [decompressPrb_value,prbMantissa,hbytes,hmem (prb * bfpPrbSize) (by omega)]
  rw [decompress_value wide mem' dataLen numPrbu outIq h,decompress_value wide mem dataLen numPrbu outIq h,
    hprbs]

/-- Packed PRBs come back as their mantissas times the power of two, whatever follows them in
memory. -/
theorem bfp_round_trip (prbs : List Prb) (numPrbu : UInt16) (hn : prbs.length = numPrbu.toNat)
    (hmem : bytesAt mem 0 (numPrbu.toNat * bfpPrbSize) = prbs.flatMap Prb.pack) (dataLen : ℕ)
    (hlen : numPrbu.toNat * bfpPrbSize ≤ dataLen) (outIq : List Int16) :
    let result := value mem (decompressBfp9bit wide dataLen numPrbu outIq)
    result.ok = true ∧ result.outIq.map Int16.toInt = prbs.flatMap Prb.values ∧
      result.outIq.length = 24 * prbs.length ∧
      (∀ v ∈ prbs.flatMap Prb.values, -2 ^ 15 ≤ v ∧ v < 2 ^ 15) ∧
      ∀ mem' : ℕ → UInt8, (∀ i < numPrbu.toNat * bfpPrbSize, mem' i = mem i) →
        value mem' (decompressBfp9bit wide dataLen numPrbu outIq) = result := by
  have hprb : ∀ i (hi : i < prbs.length), bytesAt mem (i * bfpPrbSize) bfpPrbSize = prbs[i].pack := by
    intro i hi
    have hend : (i + 1) * bfpPrbSize ≤ numPrbu.toNat * bfpPrbSize := Nat.mul_le_mul_right _ (by omega)
    rw [Nat.succ_mul] at hend
    have hslice := bytesAt_slice mem 0 hend
    rw [hmem,Nat.zero_add,Nat.mul_comm i,fields_get Prb.length_pack hi] at hslice
    rw [Nat.mul_comm i]
    exact hslice.symm
  have hvalues : (value mem (decompressBfp9bit wide dataLen numPrbu outIq)).outIq.map Int16.toInt =
      prbs.flatMap Prb.values := by
    have hmap : ((List.range numPrbu.toNat).map fun prb =>
        (value mem (decompressPrb wide (prb * bfpPrbSize))).map fun v => v.2.toInt) =
        prbs.map Prb.values := by
      refine List.ext_getElem (by simp [hn]) fun i hi hi' => ?_
      rw [List.length_map] at hi'
      simp only [List.getElem_map,List.getElem_range]
      exact decompressPrb_packed wide mem (hprb i hi')
    simp only [decompress_value wide mem dataLen numPrbu outIq hlen,List.map_map,List.map_flatMap]
    rw [List.flatMap_def,List.flatMap_def,← hmap]
    rfl
  refine ⟨?_,hvalues,?_,fun v hv => ?_,fun mem' hmem' => decompress_congr wide outIq hlen hmem'⟩
  · rw [decompress_value wide mem dataLen numPrbu outIq hlen]
  · have hlength := congrArg List.length hvalues
    rw [List.length_map,length_fields Prb.length_values] at hlength
    exact hlength
  · obtain ⟨p,-,hp⟩ := List.mem_flatMap.mp hv
    exact p.values_range v hp

end RoundTrip

def lowestPrb : Prb where
  exponent := 7
  exponent_le := by decide
  mantissas := List.replicate 24 (-256)
  length_mantissas := by decide
  range := by decide

theorem bfp_round_trip_lowest :
    (value (fun i => lowestPrb.pack.getD i 0) (decompressBfp9bit (fun m _ => m) 28 1 [])).outIq.map
      Int16.toInt = [lowestPrb].flatMap Prb.values :=
  (bfp_round_trip (fun m _ => m) _ [lowestPrb] 1 rfl (by decide +kernel) 28 (by decide) []).2.1

end Bfp
end E3Controller
