import E3Controller.MemoryReads
import E3Controller.RowWriters

/-!
# The accesses of the row conversion

`convert_ant` and `convert_slot` once more, as programs that read words of the source and return
their stores in order. What `RowWriters` says about the contents of the row is what these stores
leave behind.
-/

namespace E3Controller
namespace RowConversion

open HalfFloat Config MemoryReads Prog

abbrev Stores := List (ℕ × UInt16)

def applyStores (mem : Words) (stores : Stores) : Words :=
  stores.foldl (fun m s => Function.update m s.1 s.2) mem

/-- The vector loop from index `i` on: eight loads, eight stores. -/
def vectorAccesses (lane : UInt16 → UInt16) (dst src n i : ℕ) : Prog UInt16 (ℕ × Stores) :=
  if i + 8 ≤ n then do
    let stored ← (List.range 8).mapM fun k => do
      let b16 ← cell (src + (i + k))
      pure (dst + (i + k),lane b16)
    let rest ← vectorAccesses lane dst src n (i + 8)
    pure (rest.1,stored ++ rest.2)
  else pure (i,[])
termination_by n - i

def scalarAccesses (word : UInt16 → UInt16) (dst src n i : ℕ) : Prog UInt16 Stores :=
  if i < n then do
    let b16 ← cell (src + i)
    let rest ← scalarAccesses word dst src n (i + 1)
    pure ((dst + i,word b16) :: rest)
  else pure []
termination_by n - i

section Accesses

variable (t : Target) (mul : F32 → F32 → F32)

def convertAntAccesses (dst src n : ℕ) (scale : F32) : Prog UInt16 Stores :=
  if t.convertAvx2 || t.convertNeon then do
    let body ← vectorAccesses (fun bf16 => cvtRne (product mul bf16 scale)) dst src n 0
    let tail ← scalarAccesses (fun bf16 => bf16ToFp16Scalar mul t bf16 scale) dst src n body.1
    pure (body.2 ++ tail)
  else scalarAccesses (fun bf16 => bf16ToFp16Scalar mul t bf16 scale) dst src n 0

/-- `e3_convert::convert_slot`: the bytes it returns and its stores. -/
def convertSlotAccesses (geom : RowGeometry) (nofPorts : UInt32) (scale : F32) :
    Prog UInt16 (UInt64 × Stores) := do
  let ports := geom.deliveredPorts nofPorts
  let n := geom.u16PerAnt
  let stored ← (List.range ports.toNat).mapM fun a =>
    convertAntAccesses t mul (a * n.toNat) (a * n.toNat) n.toNat scale
  pure (ports.toUInt64 * n * 2,stored.flatten)

end Accesses

section Loops

variable (source : Words) (word : UInt16 → UInt16) (dst src n : ℕ)

def pointStore (word : UInt16 → UInt16) (source : Words) (dst src k : ℕ) : ℕ × UInt16 :=
  (dst + k,word (source (src + k)))

theorem scalarAccesses_spec (i : ℕ) :
    value source (scalarAccesses word dst src n i) =
      (List.range' i (n - i)).map (pointStore word source dst src) ∧
    cells source (scalarAccesses word dst src n i) = (List.range' i (n - i)).map (src + ·) := by
  fun_induction scalarAccesses word dst src n i with
  | case1 i hi ih =>
    have hsplit : List.range' i (n - i) = i :: List.range' (i + 1) (n - (i + 1)) := by
      rw [show n - i = n - (i + 1) + 1 by omega,List.range'_succ]
    constructor
    · simp only [value_bind,value_cell,value_pure,ih.1,hsplit,List.map_cons]
      rfl
    · simp only [cells_bind,cells_cell,cells_pure,ih.2,hsplit,List.map_cons,List.append_nil,
        List.singleton_append]
  | case2 i hi =>
    rw [Nat.sub_eq_zero_of_le (by omega)]
    exact ⟨rfl,rfl⟩

/-- The vector loop stops at an index `m` from which less than eight words are left. -/
theorem vectorAccesses_spec (i : ℕ) (hi : i ≤ n) : ∃ m, i ≤ m ∧ m ≤ n ∧
    value source (vectorAccesses word dst src n i) =
      (m,(List.range' i (m - i)).map (pointStore word source dst src)) ∧
    cells source (vectorAccesses word dst src n i) = (List.range' i (m - i)).map (src + ·) := by
  fun_induction vectorAccesses word dst src n i with
  | case1 i hle ih =>
    obtain ⟨m,hlow,hhigh,hvalue,hcells⟩ := ih hle
    have hblock : (List.range 8).map (fun k => i + k) = List.range' i 8 := List.range'_eq_map_range.symm
    have hsplit : List.range' i (m - i) = List.range' i 8 ++ List.range' (i + 8) (m - (i + 8)) := by
      rw [List.range'_append_1,show 8 + (m - (i + 8)) = m - i by omega]
    refine ⟨m,by omega,hhigh,?_,?_⟩
    · simp only [value_bind,value_mapM,value_cell,value_pure,hvalue,hsplit,List.map_append,← hblock,
        List.map_map]
      rfl
    · simp only [cells_bind,cells_mapM,cells_cell,cells_pure,hcells,hsplit,List.map_append,← hblock,
        List.append_nil,List.map_map]
      rfl
  | case2 i hle => exact ⟨i,le_refl i,hi,by simp,by simp⟩

end Loops

section Pointwise

variable (t : Target) (mul : F32 → F32 → F32) (scale : F32) (source : Words)

/-- Whatever the build, `convert_ant` reads and stores each word once, in order. -/
theorem convertAntAccesses_spec (dst src n : ℕ) :
    value source (convertAntAccesses t mul dst src n scale) = (List.range n).map
      (pointStore (fun bf16 => bf16ToFp16Scalar mul t bf16 scale) source dst src) ∧
    cells source (convertAntAccesses t mul dst src n scale) = (List.range n).map (src + ·) := by
  unfold convertAntAccesses
  split
  next hvec =>
    obtain ⟨m,-,hm,hvalue,hcells⟩ := vectorAccesses_spec source
      (fun bf16 => bf16ToFp16Scalar mul t bf16 scale) dst src n 0 (Nat.zero_le n)
    obtain ⟨hrest,hrestCells⟩ := scalarAccesses_spec source
      (fun bf16 => bf16ToFp16Scalar mul t bf16 scale) dst src n m
    have hsplit : List.range n = List.range' 0 (m - 0) ++ List.range' m (n - m) := by
      rw [Nat.sub_zero,List.range_eq_range',show n = m + (n - m) by omega,← List.range'_append_1,
        Nat.zero_add,Nat.add_sub_cancel_left]
    rw [lane_eq_scalar mul scale hvec]
    simp only [value_bind,cells_bind,value_pure,cells_pure,hvalue,hcells,hrest,hrestCells,hsplit,
      List.map_append,List.append_nil,and_self]
  next =>
    have hspec := scalarAccesses_spec source (fun bf16 => bf16ToFp16Scalar mul t bf16 scale) dst src
      n 0
    rwa [Nat.sub_zero,← List.range_eq_range'] at hspec

theorem applyStores_converted (word : UInt16 → UInt16) (dst src n : ℕ) (mem : Words) :
    Converted word dst src n source mem
      (applyStores mem ((List.range n).map (pointStore word source dst src))) := by
  induction n with
  | zero =>
    intro j
    rw [if_neg (by omega)]
    rfl
  | succ n ih =>
    intro j
    have hlast : applyStores mem ((List.range (n + 1)).map (pointStore word source dst src)) =
        Function.update (applyStores mem ((List.range n).map (pointStore word source dst src)))
          (dst + n) (word (source (src + n))) := by
      rw [applyStores,List.range_succ,List.map_append,List.foldl_append]
      rfl
    rw [hlast]
    by_cases hj : j = dst + n
    · rw [hj,Function.update_self,if_pos (by omega),Nat.add_sub_cancel_left]
    · rw [Function.update_of_ne hj,ih j]
      split_ifs <;> first | rfl | omega

theorem convertAnt_eq_stores (dst src n : ℕ) (mem : Words) :
    convertAnt t mul dst src n scale source mem =
      applyStores mem (value source (convertAntAccesses t mul dst src n scale)) := by
  funext j
  rw [(convertAntAccesses_spec t mul scale source dst src n).1,convertAnt_converted t mul dst src n scale source mem j,
    applyStores_converted source _ dst src n mem j]

theorem range_blocks (ports n : ℕ) :
    ((List.range ports).flatMap fun a => (List.range n).map (a * n + ·)) = List.range (ports * n) := by
  induction ports with
  | zero => simp
  | succ ports ih =>
    rw [List.range_succ,List.flatMap_append,ih,List.flatMap_singleton,Nat.succ_mul,List.range_add]

theorem convertSlotAccesses_spec (geom : RowGeometry) (nofPorts : UInt32) :
    (value source (convertSlotAccesses t mul geom nofPorts scale)).2 =
      (List.range ((geom.deliveredPorts nofPorts).toNat * geom.u16PerAnt.toNat)).map
        (pointStore (fun bf16 => bf16ToFp16Scalar mul t bf16 scale) source 0 0) ∧
    cells source (convertSlotAccesses t mul geom nofPorts scale) =
      List.range ((geom.deliveredPorts nofPorts).toNat * geom.u16PerAnt.toNat) := by
  constructor
  · simp only [convertSlotAccesses,value_bind,value_mapM,value_pure,
      (convertAntAccesses_spec t mul scale source _ _ _).1]
    rw [← range_blocks,List.map_flatMap,List.flatMap_def]
    refine congrArg List.flatten (List.map_congr_left fun a _ => ?_)
    rw [List.map_map]
    refine List.map_congr_left fun k _ => ?_
    simp only [pointStore,Function.comp_apply,Nat.zero_add]
  · simp only [convertSlotAccesses,cells_bind,cells_mapM,cells_pure,List.append_nil,
      (convertAntAccesses_spec t mul scale source _ _ _).2]
    exact range_blocks _ _

theorem deliveredPorts_toNat (geom : RowGeometry) (nofPorts : UInt32) :
    (geom.deliveredPorts nofPorts).toNat = min (max nofPorts.toNat 1) geom.nofAnts.toNat := by
  have hzero : nofPorts = 0 ↔ nofPorts.toNat = 0 := by
    rw [← UInt32.toNat_inj]
    rfl
  have hone : (1 : UInt32).toNat = 1 := rfl
  simp only [RowGeometry.deliveredPorts,ne_eq,hzero,gt_iff_lt,UInt32.lt_iff_toNat_lt]
  split_ifs <;> omega

/-- One antenna: every word converted, nothing else written, and of the source only these words
read. -/
structure AntPointwise (dst src n : ℕ) (mem : Words) : Prop where
  word : ∀ i < n, convertAnt t mul dst src n scale source mem (dst + i) =
    bf16ToFp16Scalar mul t (source (src + i)) scale
  kept : ∀ j, j < dst ∨ dst + n ≤ j → convertAnt t mul dst src n scale source mem j = mem j
  stores : convertAnt t mul dst src n scale source mem =
    applyStores mem (value source (convertAntAccesses t mul dst src n scale))
  written : (value source (convertAntAccesses t mul dst src n scale)).map Prod.fst =
    (List.range n).map (dst + ·)
  read : cells source (convertAntAccesses t mul dst src n scale) = (List.range n).map (src + ·)

/-- One slot: the words of the delivered antennas, no others, and as many bytes as it says. -/
structure SlotPointwise (geom : RowGeometry) (nofPorts : UInt32) (row : Words) (ports n : ℕ) :
    Prop where
  word : ∀ a < ports, ∀ i < n, (convertSlot t mul geom nofPorts scale source row).2 (a * n + i) =
    bf16ToFp16Scalar mul t (source (a * n + i)) scale
  kept : ∀ j, ports * n ≤ j → (convertSlot t mul geom nofPorts scale source row).2 j = row j
  stores : (convertSlot t mul geom nofPorts scale source row).2 =
    applyStores row (value source (convertSlotAccesses t mul geom nofPorts scale)).2
  written : (value source (convertSlotAccesses t mul geom nofPorts scale)).2.map Prod.fst =
    List.range (ports * n)
  read : cells source (convertSlotAccesses t mul geom nofPorts scale) = List.range (ports * n)
  bytes : (convertSlot t mul geom nofPorts scale source row).1 = UInt64.ofNat (ports * n * 2)
  bytes_exact : ports * n * 2 < 2 ^ 64 →
    (convertSlot t mul geom nofPorts scale source row).1.toNat = ports * n * 2

/-- For every build, length, source, geometry and port count the blocked loops are the pointwise
conversion. -/
theorem blocked_conversion_pointwise :
    (∀ dst src n mem, AntPointwise t mul scale source dst src n mem) ∧
      ∀ geom nofPorts row, SlotPointwise t mul scale source geom nofPorts row
        (min (max nofPorts.toNat 1) geom.nofAnts.toNat) geom.u16PerAnt.toNat := by
  constructor
  · intro dst src n mem
    obtain ⟨hvalue,hcells⟩ := convertAntAccesses_spec t mul scale source dst src n
    have hconverted := convertAnt_converted t mul dst src n scale source mem
    refine ⟨fun i hi => ?_,fun j hj => ?_,convertAnt_eq_stores t mul scale source dst src n mem,?_,hcells⟩
    · rw [hconverted (dst + i),if_pos (by omega),Nat.add_sub_cancel_left]
    · rw [hconverted j,if_neg (by omega)]
    · rw [hvalue,List.map_map]
      rfl
  · intro geom nofPorts row
    obtain ⟨hvalue,hcells⟩ := convertSlotAccesses_spec t mul scale source geom nofPorts
    have hconverted := convertSlot_converted t mul scale source geom nofPorts row
    have hbytes : (convertSlot t mul geom nofPorts scale source row).1 =
        UInt64.ofNat ((geom.deliveredPorts nofPorts).toNat * geom.u16PerAnt.toNat * 2) := by
      rw [convertSlot,UInt64.ofNat_mul,UInt64.ofNat_mul,UInt64.ofNat_toNat,UInt64.ofNat_uInt32ToNat]
      rfl
    rw [← deliveredPorts_toNat]
    refine ⟨fun a ha i hi => ?_,fun j hj => ?_,?_,?_,hcells,hbytes,fun hfits => ?_⟩
    · have hlt : a * geom.u16PerAnt.toNat + i <
          (geom.deliveredPorts nofPorts).toNat * geom.u16PerAnt.toNat := by
        calc a * geom.u16PerAnt.toNat + i < (a + 1) * geom.u16PerAnt.toNat := by
              rw [Nat.succ_mul]
              omega
          _ ≤ (geom.deliveredPorts nofPorts).toNat * geom.u16PerAnt.toNat := Nat.mul_le_mul_right _ ha
      rw [hconverted (a * geom.u16PerAnt.toNat + i),if_pos (by omega),Nat.zero_add,Nat.sub_zero]
    · rw [hconverted j,if_neg (by omega)]
    · funext j
      rw [hvalue,hconverted j,applyStores_converted source _ 0 0 _ row j]
    · rw [hvalue,List.map_map]
      refine (List.map_congr_left fun k _ => ?_).trans (List.map_id _)
      exact Nat.zero_add k
    · rw [hbytes,UInt64.toNat_ofNat',Nat.mod_eq_of_lt hfits]

end Pointwise

def tailGeometry : RowGeometry := ⟨1,6,2⟩

theorem blocked_conversion_tail :
    (convertSlot neonTarget (fun x _ => x) tailGeometry 3 0 (fun _ => 0x3f80) (fun _ => 0)).1.toNat = 48 :=
  ((blocked_conversion_pointwise neonTarget (fun x _ => x) 0 (fun _ => 0x3f80)).2 tailGeometry 3
    (fun _ => 0)).bytes_exact (by decide)

end RowConversion
end E3Controller
