import E3Controller.ConfigLoader

/-!
# The shared region and its rows

`ShmIqWriter::open` sizes the region from the configuration and writes the
32-bit header from which the dApp computes row addresses. Sizes are 64-bit, row
counts and buffer sizes are 32-bit; the narrowing of the row count and the
product of row count and stride are where the layout can go wrong.
-/

namespace E3Controller
namespace Shm

open CString Config ConfigLoader

/-- `struct SharedMemoryHeader`, without the reserved words. -/
structure SharedMemoryHeader where
  version : UInt32
  fhBufferSize : UInt32
  puschBufferSize : UInt32
  hestBufferSize : UInt32
  numFhSamples : UInt32
  numFhRows : UInt32
  numPuschRows : UInt32
  numHestRows : UInt32
  maxHestSamplesPerRow : UInt32
  deriving DecidableEq, Repr

def sizeofHeader : UInt64 := 64

/-- The fields of `ShmIqWriter`. `words` is the mapped memory behind the header,
as 16-bit words; `mapped` says whether there is a mapping. -/
structure ShmIqWriter where
  fd : Option ℕ := none
  mapped : Bool := false
  mappedSize : UInt64 := 0
  shmName : Str := []
  header : Option SharedMemoryHeader := none
  words : ℕ → UInt16 := fun _ => 0
  numFhSamples : UInt32 := 0
  rowBytes : UInt32 := 0
  numFhRows : UInt32 := 0
  numBuffers : UInt32 := 0
  fhBufferSize : UInt32 := 0
  nextRow : UInt32 := 0
  nextBuf : UInt8 := 0
  cbf16Scale : F32 := 0x3f800000
  geom : RadioGeometry := {}
  writer : ShmWriter := .controller

structure OsAnswers where
  shmOpen : Option ℕ
  ftruncate : Bool
  mmap : Bool

inductive OsCall
  | shmOpen (name : Str)
  | shmUnlink (name : Str)
  deriving DecidableEq

namespace ShmIqWriter

def writesRows (w : ShmIqWriter) : Bool := w.writer = .controller

def close (w : ShmIqWriter) : ShmIqWriter × List OsCall :=
  ({ w with
      mapped := false
      fd := none
      shmName := []
      header := none
      mappedSize := 0 },
    if w.shmName.isEmpty then [] else [.shmUnlink (cstr w.shmName)])

def rowsFor (total : UInt64) (numBuffers rowBytes : UInt32) : UInt32 :=
  let usable := if total > sizeofHeader then total - sizeofHeader else 0
  (usable / numBuffers.toUInt64 / rowBytes.toUInt64).toUInt32

/-- `open()`: its result, the writer afterwards, and the calls on names it made. -/
def openRegion (os : OsAnswers) (w : ShmIqWriter) (shmName : Str) (total : UInt64)
    (geom : RadioGeometry) (cbf16Scale : F32) (writer : ShmWriter) :
    Bool × ShmIqWriter × List OsCall :=
  if w.mapped then (false,w,[])
  else
    let w := { w with shmName := shmName, fd := os.shmOpen }
    let called := [OsCall.shmOpen (cstr shmName)]
    if os.shmOpen.isNone then (false,w,called)
    else if !os.ftruncate || !os.mmap then (false,{ w with fd := none },called)
    else
      let rows := rowsFor total 2 geom.rowBytes
      let w := { w with
        mapped := true
        mappedSize := total
        words := fun _ => 0
        geom := geom
        cbf16Scale := cbf16Scale
        writer := writer
        numFhSamples := geom.numFhSamples
        rowBytes := geom.rowBytes
        numBuffers := 2
        numFhRows := rows }
      if rows = 0 then
        let closed := w.close
        (false,closed.1,called ++ closed.2)
      else
        (true,{ w with
          fhBufferSize := rows * geom.rowBytes
          header := some {
            version := 1
            fhBufferSize := rows * geom.rowBytes
            puschBufferSize := 0
            hestBufferSize := 0
            numFhSamples := geom.numFhSamples
            numFhRows := rows
            numPuschRows := 0
            numHestRows := 0
            maxHestSamplesPerRow := 0 }
          nextRow := 0
          nextBuf := 0 },called)

/-- The byte offset of the row the cursor stands at, as `publish_row` computes it. -/
def rowBase (w : ShmIqWriter) : ℕ :=
  64 + w.nextBuf.toNat * w.fhBufferSize.toNat + w.nextRow.toNat * w.rowBytes.toNat

end ShmIqWriter

/-- The byte offset at which the dApp looks for a row. -/
def SharedMemoryHeader.rowOffset (h : SharedMemoryHeader) (buf row : ℕ) : ℕ :=
  64 + buf * h.fhBufferSize.toNat + row * (h.numFhSamples.toNat * 2)

/-- Rows of `stride` bytes at two offsets do not share a byte. -/
def Apart (stride a b : ℕ) : Prop := a + stride ≤ b ∨ b + stride ≤ a

/-- What the header must give the dApp for a region of `total` bytes whose writer
strides by `rowBytes`: rows exist, are apart from each other and from the header,
lie inside the region, and are where the writer puts them. -/
structure LayoutCorrect (total rowBytes : ℕ) (w : ShmIqWriter) (h : SharedMemoryHeader) : Prop where
  rows : 1 ≤ h.numFhRows.toNat
  apart : ∀ b b' r r', b < 2 → b' < 2 → r < h.numFhRows.toNat → r' < h.numFhRows.toNat →
    (b,r) ≠ (b',r') → Apart rowBytes (h.rowOffset b r) (h.rowOffset b' r')
  header : ∀ b r, b < 2 → r < h.numFhRows.toNat → 64 ≤ h.rowOffset b r
  inside : ∀ b r, b < 2 → r < h.numFhRows.toNat → h.rowOffset b r + rowBytes ≤ total
  writer : ∀ (b : UInt8) (r : UInt32), b.toNat < 2 → r.toNat < h.numFhRows.toNat →
    { w with nextBuf := b, nextRow := r }.rowBase = h.rowOffset b.toNat r.toNat

/-- Some rows exist and their layout is correct, whatever `open` was called on. -/
def OpenLayoutCorrect (c : ControllerConfig) : Prop :=
  ∀ (fd : ℕ) (w : ShmIqWriter), w.mapped = false →
    ∃ w' calls h, w.openRegion ⟨some fd,true,true⟩ c.shm.name c.shm.sizeBytes c.radio
      c.shm.cbf16Scale c.shm.writer = (true,w',calls) ∧ w'.header = some h ∧
      LayoutCorrect c.shm.sizeBytes.toNat c.radio.rowBytes.toNat w' h

/-- Rows of one stride that follow each other without a gap are apart. -/
theorem apart_of_ne {stride i j : ℕ} (h : i ≠ j) : Apart stride (64 + i * stride) (64 + j * stride) := by
  rcases Nat.lt_or_gt_of_ne h with hlt | hlt
  · have hle := Nat.mul_le_mul_right stride (Nat.succ_le_of_lt hlt)
    rw [Nat.succ_mul] at hle
    left
    omega
  · have hle := Nat.mul_le_mul_right stride (Nat.succ_le_of_lt hlt)
    rw [Nat.succ_mul] at hle
    right
    omega

/-- A buffer offset that is shorter than the rows of a buffer lands in one of them. -/
theorem not_apart_of_lt {stride fh m : ℕ} (hs : 0 < stride) (h : fh < m * stride) :
    ∃ r < m, ¬ Apart stride (64 + r * stride) (64 + fh) := by
  refine ⟨fh / stride,(Nat.div_lt_iff_lt_mul hs).mpr h,?_⟩
  have hdiv := Nat.div_add_mod' fh stride
  have hmod := Nat.mod_lt fh hs
  unfold Apart
  omega

theorem rowsFor_toNat {total : UInt64} (rowBytes : UInt32) (h : 64 < total.toNat) :
    (ShmIqWriter.rowsFor total 2 rowBytes).toNat =
      (total.toNat - 64) / 2 / rowBytes.toNat % 2 ^ 32 := by
  have hgt : total > sizeofHeader := UInt64.lt_iff_toNat_lt.mpr h
  have hle : sizeofHeader ≤ total := UInt64.le_of_lt hgt
  simp only [ShmIqWriter.rowsFor,hgt,if_true,UInt64.toNat_toUInt32,UInt64.toNat_div,
    UInt64.toNat_sub_of_le _ _ hle,UInt32.toNat_toUInt64]
  rfl

/-- The rows that fit into one buffer, before the count is narrowed to 32 bits. -/
def rowsPerBuffer (c : ControllerConfig) : ℕ :=
  (c.shm.sizeBytes.toNat - 64) / 2 / c.radio.rowBytes.toNat

/-- After narrowing there is still a row, and a buffer is shorter than `2^32` bytes. -/
def RowsFit (c : ControllerConfig) : Prop :=
  1 ≤ rowsPerBuffer c % 2 ^ 32 ∧ rowsPerBuffer c % 2 ^ 32 * c.radio.rowBytes.toNat < 2 ^ 32

instance (c : ControllerConfig) : Decidable (RowsFit c) := inferInstanceAs (Decidable (_ ∧ _))

structure HeaderFor (rows : UInt32) (g : RadioGeometry) (w : ShmIqWriter) (h : SharedMemoryHeader) :
    Prop where
  numFhRows : h.numFhRows = rows
  fhBufferSize : h.fhBufferSize = rows * g.rowBytes
  numFhSamples : h.numFhSamples = g.numFhSamples
  writerBuffer : w.fhBufferSize = rows * g.rowBytes
  writerRow : w.rowBytes = g.rowBytes

namespace ShmIqWriter

def opened (fd : ℕ) (name : Str) (total : UInt64) (g : RadioGeometry) (scale : F32)
    (writer : ShmWriter) : ShmIqWriter where
  fd := some fd
  mapped := true
  mappedSize := total
  shmName := name
  header := some {
    version := 1
    fhBufferSize := rowsFor total 2 g.rowBytes * g.rowBytes
    puschBufferSize := 0
    hestBufferSize := 0
    numFhSamples := g.numFhSamples
    numFhRows := rowsFor total 2 g.rowBytes
    numPuschRows := 0
    numHestRows := 0
    maxHestSamplesPerRow := 0 }
  numFhSamples := g.numFhSamples
  rowBytes := g.rowBytes
  numFhRows := rowsFor total 2 g.rowBytes
  numBuffers := 2
  fhBufferSize := rowsFor total 2 g.rowBytes * g.rowBytes
  cbf16Scale := scale
  geom := g
  writer := writer

def tooSmall (w : ShmIqWriter) (g : RadioGeometry) (scale : F32) (writer : ShmWriter) :
    ShmIqWriter :=
  { w with
    fd := none
    mapped := false
    mappedSize := 0
    shmName := []
    header := none
    words := fun _ => 0
    numFhSamples := g.numFhSamples
    rowBytes := g.rowBytes
    numFhRows := 0
    numBuffers := 2
    cbf16Scale := scale
    geom := g
    writer := writer }

end ShmIqWriter

section Open

variable (os : OsAnswers) (w : ShmIqWriter) (name : Str) (total : UInt64) (g : RadioGeometry)
  (scale : F32) (writer : ShmWriter)

/-- Everything `open` can do: refuse a second mapping, fail in the operating system, find the
region too small for a row, or succeed. -/
theorem openRegion_cases :
    (w.mapped = true ∧ w.openRegion os name total g scale writer = (false,w,[])) ∨
    (w.mapped = false ∧ (os.shmOpen = none ∨ os.ftruncate = false ∨ os.mmap = false) ∧
      w.openRegion os name total g scale writer =
        (false,{ w with shmName := name, fd := none },[.shmOpen (cstr name)])) ∨
    (w.mapped = false ∧ (∃ fd, os = ⟨some fd,true,true⟩) ∧
      ShmIqWriter.rowsFor total 2 g.rowBytes = 0 ∧
      w.openRegion os name total g scale writer = (false,w.tooSmall g scale writer,
        .shmOpen (cstr name) :: if name.isEmpty then [] else [.shmUnlink (cstr name)])) ∨
    (w.mapped = false ∧ ShmIqWriter.rowsFor total 2 g.rowBytes ≠ 0 ∧ ∃ fd,
      os = ⟨some fd,true,true⟩ ∧ w.openRegion os name total g scale writer =
        (true,.opened fd name total g scale writer,[.shmOpen (cstr name)])) := by
  obtain ⟨shmOpen,ftruncate,mmap⟩ := os
  cases hw : w.mapped with
  | true => exact .inl ⟨rfl,by simp [ShmIqWriter.openRegion,hw]⟩
  | false =>
    right
    cases shmOpen with
    | none => exact .inl ⟨rfl,.inl rfl,by simp [ShmIqWriter.openRegion,hw]⟩
    | some fd =>
      by_cases hos : ftruncate = true ∧ mmap = true
      · obtain ⟨rfl,rfl⟩ := hos
        right
        by_cases hrows : ShmIqWriter.rowsFor total 2 g.rowBytes = 0
        · refine .inl ⟨rfl,⟨fd,rfl⟩,hrows,?_⟩
          simp [ShmIqWriter.openRegion,ShmIqWriter.close,ShmIqWriter.tooSmall,hw,hrows]
        · refine .inr ⟨rfl,hrows,fd,rfl,?_⟩
          simp only [ShmIqWriter.openRegion,hw,hrows,Bool.false_eq_true,if_false,Option.isNone_some,
            Bool.not_true,Bool.or_self]
          rfl
      · have hfail : ftruncate = false ∨ mmap = false := by
          cases ftruncate <;> cases mmap <;> simp_all
        refine .inl ⟨rfl,.inr hfail,?_⟩
        have hor : (!ftruncate || !mmap) = true := by
          rcases hfail with rfl | rfl <;> simp
        simp [ShmIqWriter.openRegion,hw,hor]

variable {os w name total g scale writer}

theorem openRegion_ok {w' : ShmIqWriter} {calls : List OsCall}
    (ho : w.openRegion os name total g scale writer = (true,w',calls)) :
    ShmIqWriter.rowsFor total 2 g.rowBytes ≠ 0 ∧
      ∃ fd, w' = .opened fd name total g scale writer := by
  rcases openRegion_cases os w name total g scale writer with
    ⟨-,h⟩ | ⟨-,-,h⟩ | ⟨-,-,-,h⟩ | ⟨-,hrows,fd,-,h⟩
  all_goals
    rw [h] at ho
    cases ho
  exact ⟨hrows,fd,rfl⟩

/-- `open` succeeds exactly when it finds a row, and then writes such a header. -/
theorem openRegion_spec (fd : ℕ) (w : ShmIqWriter) (hw : w.mapped = false) (name : Str)
    (total : UInt64) (g : RadioGeometry) (scale : F32) (writer : ShmWriter) :
    (ShmIqWriter.rowsFor total 2 g.rowBytes = 0 ∧
      (w.openRegion ⟨some fd,true,true⟩ name total g scale writer).1 = false) ∨
    (ShmIqWriter.rowsFor total 2 g.rowBytes ≠ 0 ∧
      ∃ w' calls h, w.openRegion ⟨some fd,true,true⟩ name total g scale writer = (true,w',calls) ∧
        w'.header = some h ∧ HeaderFor (ShmIqWriter.rowsFor total 2 g.rowBytes) g w' h) := by
  rcases openRegion_cases ⟨some fd,true,true⟩ w name total g scale writer with
    ⟨hm,-⟩ | ⟨-,hfail,-⟩ | ⟨-,-,hrows,h⟩ | ⟨-,hrows,fd',-,h⟩
  · rw [hw] at hm
    cases hm
  · rcases hfail with hc | hc | hc <;> cases hc
  · exact .inl ⟨hrows,congrArg Prod.fst h⟩
  · exact .inr ⟨hrows,_,_,_,h,rfl,rfl,rfl,rfl,rfl,rfl⟩

end Open

section Layout

variable {c : ControllerConfig} {w : ShmIqWriter} {h : SharedMemoryHeader} {rows : UInt32}

theorem rowOffset_eq (hc : Checked c) (hh : HeaderFor rows c.radio w h) (b r : ℕ) :
    h.rowOffset b r = 64 + b * (rows * c.radio.rowBytes).toNat + r * c.radio.rowBytes.toNat := by
  have hg := RadioGeometry.inRange_of_validate hc.radio
  rw [SharedMemoryHeader.rowOffset,hh.fhBufferSize,hh.numFhSamples,hg.rowBytes_toNat]

theorem rowBase_eq (hc : Checked c) (hh : HeaderFor rows c.radio w h) (b : UInt8) (r : UInt32) :
    { w with nextBuf := b, nextRow := r }.rowBase = h.rowOffset b.toNat r.toNat := by
  rw [rowOffset_eq hc hh,ShmIqWriter.rowBase,hh.writerBuffer,hh.writerRow]

theorem layoutCorrect_of_fit (hc : Checked c) (hh : HeaderFor rows c.radio w h)
    (hrows : rows.toNat = rowsPerBuffer c % 2 ^ 32) (hpos : 1 ≤ rows.toNat)
    (hfit : rows.toNat * c.radio.rowBytes.toNat < 2 ^ 32) :
    LayoutCorrect c.shm.sizeBytes.toNat c.radio.rowBytes.toNat w h := by
  have hfh : (rows * c.radio.rowBytes).toNat = rows.toNat * c.radio.rowBytes.toNat := by
    rw [UInt32.toNat_mul,Nat.mod_eq_of_lt hfit]
  have hoff : ∀ b r, h.rowOffset b r = 64 + (b * rows.toNat + r) * c.radio.rowBytes.toNat := by
    intro b r
    rw [rowOffset_eq hc hh,hfh,Nat.add_mul,Nat.mul_assoc,Nat.add_assoc]
  refine ⟨by rwa [hh.numFhRows],?_,?_,?_,fun b r _ _ => rowBase_eq hc hh b r⟩
  · intro b b' r r' hb hb' hr hr' hne
    rw [hh.numFhRows] at hr hr'
    rw [hoff,hoff]
    refine apart_of_ne fun he => hne ?_
    interval_cases b <;> interval_cases b' <;> simp_all
    all_goals omega
  · intro b r _ _
    rw [hoff]
    omega
  · intro b r hb hr
    rw [hh.numFhRows] at hr
    have hend : (b * rows.toNat + r) * c.radio.rowBytes.toNat + c.radio.rowBytes.toNat ≤
        2 * (rows.toNat * c.radio.rowBytes.toNat) := by
      have hidx : b * rows.toNat + r + 1 ≤ 2 * rows.toNat := by interval_cases b <;> omega
      calc (b * rows.toNat + r) * c.radio.rowBytes.toNat + c.radio.rowBytes.toNat
          = (b * rows.toNat + r + 1) * c.radio.rowBytes.toNat := by rw [Nat.succ_mul]
        _ ≤ 2 * rows.toNat * c.radio.rowBytes.toNat := Nat.mul_le_mul_right _ hidx
        _ = 2 * (rows.toNat * c.radio.rowBytes.toNat) := Nat.mul_assoc _ _ _
    have hbuf : rows.toNat * c.radio.rowBytes.toNat ≤ (c.shm.sizeBytes.toNat - 64) / 2 := by
      rw [hrows]
      exact (Nat.mul_le_mul_right _ (Nat.mod_le _ _)).trans (Nat.div_mul_le_self _ _)
    have hhdr := hc.header
    rw [hoff]
    omega

/-- A buffer of `2^32` bytes or more wraps, and its rows then lie in the other one's. -/
theorem fit_of_layoutCorrect (hc : Checked c) (hh : HeaderFor rows c.radio w h)
    (hl : LayoutCorrect c.shm.sizeBytes.toNat c.radio.rowBytes.toNat w h) :
    rows.toNat * c.radio.rowBytes.toNat < 2 ^ 32 := by
  have hpos := (RadioGeometry.inRange_of_validate hc.radio).rowBytes_pos
  by_contra hge
  have hfh : (rows * c.radio.rowBytes).toNat < rows.toNat * c.radio.rowBytes.toNat :=
    lt_of_lt_of_le (rows * c.radio.rowBytes).toNat_lt (Nat.not_lt.mp hge)
  obtain ⟨r,hr,hnot⟩ := not_apart_of_lt hpos hfh
  have hrows : 0 < rows.toNat := Nat.zero_lt_of_lt hr
  have hap := hl.apart 0 1 r 0 (by omega) (by omega) (by rwa [hh.numFhRows])
    (by rwa [hh.numFhRows]) (by simp)
  rw [rowOffset_eq hc hh,rowOffset_eq hc hh] at hap
  simp only [Nat.zero_mul,Nat.one_mul,Nat.add_zero] at hap
  exact hnot hap

end Layout

theorem openLayoutCorrect_iff_rowsFit {c : ControllerConfig} (hc : Checked c) :
    OpenLayoutCorrect c ↔ RowsFit c := by
  have hrows := rowsFor_toNat c.radio.rowBytes hc.header
  constructor
  · intro hopen
    obtain ⟨w',calls,h,heq,hhdr,hl⟩ := hopen 3 {} rfl
    rcases openRegion_spec 3 {} rfl c.shm.name c.shm.sizeBytes c.radio c.shm.cbf16Scale c.shm.writer
      with ⟨-,hfalse⟩ | ⟨-,w'',calls'',h'',heq'',hhdr'',hh⟩
    · rw [heq] at hfalse
      cases hfalse
    · rw [heq] at heq''
      cases heq''
      rw [hhdr] at hhdr''
      cases hhdr''
      have hpos := hl.rows
      have hfit := fit_of_layoutCorrect hc hh hl
      rw [hh.numFhRows,hrows] at hpos
      rw [hrows] at hfit
      exact ⟨hpos,hfit⟩
  · rintro ⟨hpos,hfit⟩ fd w hw
    have hpos' : 1 ≤ (ShmIqWriter.rowsFor c.shm.sizeBytes 2 c.radio.rowBytes).toNat := by
      rw [hrows]
      exact hpos
    rcases openRegion_spec fd w hw c.shm.name c.shm.sizeBytes c.radio c.shm.cbf16Scale c.shm.writer
      with ⟨hzero,-⟩ | ⟨-,w',calls,h,heq,hhdr,hh⟩
    · rw [hzero] at hpos'
      exact absurd hpos' (by decide)
    · refine ⟨w',calls,h,heq,hhdr,layoutCorrect_of_fit hc hh hrows hpos' ?_⟩
      rw [hrows]
      exact hfit

/-- For every accepted configuration the rows are laid out as the dApp expects
exactly when neither 32-bit value of the header wraps. -/
theorem accepted_layout_iff (yaml : Yaml) (path : Str) (out c : ControllerConfig)
    (h : loadConfig yaml path out = (.accepted,c)) : OpenLayoutCorrect c ↔ RowsFit c :=
  openLayoutCorrect_iff_rowsFit (checked_of_accepted yaml h)

def sizeDoc (size : Str) : Node := sectionDoc (str "shm") [(str "size_bytes",size)]

def sizedConfig (size : UInt64) : ControllerConfig where
  shm := { sizeBytes := size }
  jbpf := { lcmSocketPath := str "/dev/shm/jbpf/jbpf_lcm_ipc" }

theorem accepted_layout_iff_default :
    loadConfig (decimalYaml (sizeDoc (str "1073741824"))) (str "e3.yaml") {} =
      (.accepted,sizedConfig 1073741824) ∧ RowsFit (sizedConfig 1073741824) ∧
      OpenLayoutCorrect (sizedConfig 1073741824) := by
  have hload : loadConfig (decimalYaml (sizeDoc (str "1073741824"))) (str "e3.yaml") {} =
      (.accepted,sizedConfig 1073741824) := by decide +kernel
  have hfit : RowsFit (sizedConfig 1073741824) := by decide +kernel
  exact ⟨hload,hfit,(accepted_layout_iff _ _ _ _ hload).mpr hfit⟩

/-- A 16 GiB region is accepted, and its buffers overlap. -/
theorem large_region_overlaps :
    loadConfig (decimalYaml (sizeDoc (str "17179869184"))) (str "e3.yaml") {} =
      (.accepted,sizedConfig 17179869184) ∧ ¬ OpenLayoutCorrect (sizedConfig 17179869184) := by
  have hload : loadConfig (decimalYaml (sizeDoc (str "17179869184"))) (str "e3.yaml") {} =
      (.accepted,sizedConfig 17179869184) := by decide +kernel
  have hnot : ¬ RowsFit (sizedConfig 17179869184) := by decide +kernel
  exact ⟨hload,fun hl => hnot
    ((openLayoutCorrect_iff_rowsFit (checked_of_accepted _ hload)).mp hl)⟩

end Shm
end E3Controller
