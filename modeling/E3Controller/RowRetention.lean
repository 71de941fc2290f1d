import E3Controller.AntennaBacking
import E3Controller.RingWriter

/-!
# Rows that stay readable

In controller mode the service model converts a slot into the next row of the region and
tells the subscribers which row it was. A dApp reads the row later, at the offset that the
header gives it. What it finds there is this slot, as long as the ring has not come around.
-/

namespace CyclicLog

variable {α : Type*}

/-- A ring of `m` cells shows the last `m` entries of a log. -/
def Shown (m : ℕ) (cell : ℕ → α → Prop) (log : List α) : Prop :=
  ∀ i a, log[i]? = some a → log.length ≤ i + m → cell (i % m) a

theorem Shown.push {m : ℕ} {cell cell' : ℕ → α → Prop} {log : List α} {a : α}
    (h : Shown m cell log) (hnew : cell' (log.length % m) a)
    (hkeep : ∀ i < log.length, i % m ≠ log.length % m → ∀ x, cell (i % m) x → cell' (i % m) x) :
    Shown m cell' (log ++ [a]) := by
  intro i x hi hrecent
  rw [List.length_append,List.length_singleton] at hrecent
  rcases Nat.lt_trichotomy i log.length with hlt | rfl | hgt
  · rw [List.getElem?_append_left hlt] at hi
    refine hkeep i hlt (fun he => ?_) x (h i x hi (by omega))
    -- two entries in one cell are a whole turn apart
    have hturn : (log.length - i) % m = 0 := Nat.sub_mod_eq_zero_of_mod_eq he.symm
    rw [Nat.mod_eq_of_lt (by omega)] at hturn
    omega
  · rw [List.getElem?_concat_length,Option.some.injEq] at hi
    exact hi ▸ hnew
  · rw [List.getElem?_eq_none (by simp; omega)] at hi
    cases hi

end CyclicLog

namespace E3Controller
namespace Shm
namespace ShmIqWriter

open RowConversion Config

section Frame

variable (t : Target) (mul : F32 → F32 → F32) (undef : UndefinedShift)

theorem publish_outside {w : ShmIqWriter} (hw : w.writesRows = true) (hg : w.geom.InRange)
    (hrow : w.rowBytes = w.geom.rowBytes) (c : RowCall) {i : ℕ}
    (hi : i < w.rowWord ∨ w.rowWord + w.rowBytes.toNat / 2 ≤ i) :
    (w.publish t mul undef c).2.words i = w.words i := by
  have hbytes : w.rowBytes.toNat / 2 = w.geom.nofPorts.toNat * w.geom.u16PerAnt.toNat := by
    rw [hrow,hg.rowBytes_toNat,hg.numFhSamples_toNat,hg.u16PerAnt_toNat]
    omega
  cases c with
  | row iq =>
    have hone : w.geom.u16PerAnt.toNat ≤ w.geom.nofPorts.toNat * w.geom.u16PerAnt.toNat :=
      Nat.le_mul_of_pos_left _ hg.ports_pos
    have hant := hg.u16PerAnt_toNat
    simp only [publish,publishRow,hw,Bool.not_true,Bool.false_eq_true,if_false,advance_words]
    rw [if_neg (by omega),pairLoop_apply,if_neg (by omega)]
  | rowCbf16 iq nofPorts =>
    have hports : (w.deliveredPorts nofPorts).toNat * w.geom.u16PerAnt.toNat ≤
        w.geom.nofPorts.toNat * w.geom.u16PerAnt.toNat := by
      refine Nat.mul_le_mul_right _ ?_
      rw [deliveredPorts_toNat]
      exact Nat.min_le_right _ _
    have hant : ∀ a mem, Converted (fun bf16 => bf16ToFp16 mul t bf16 w.cbf16Scale)
        (w.rowWord + a * w.geom.u16PerAnt.toNat) (0 + a * w.geom.u16PerAnt.toNat)
        w.geom.u16PerAnt.toNat iq mem (writerAnt t mul (w.rowWord + a * w.geom.u16PerAnt.toNat)
          (a * w.geom.u16PerAnt.toNat) w.geom.u16PerAnt.toNat w.cbf16Scale iq mem) := by
      intro a mem
      rw [Nat.zero_add]
      exact writerAnt_converted t mul _ _ _ _ _ _
    have hfilled := forAntennas_converted hant (w.deliveredPorts nofPorts).toNat w.words i
    simp only [publish,publishRowCbf16,hw,Bool.not_true,Bool.false_eq_true,if_false,advance_words]
    rw [if_neg (by omega),hfilled,if_neg (by omega)]

@[simp] theorem advance_header (w : ShmIqWriter) : w.advance.header = w.header := by
  unfold advance
  split <;> rfl

theorem publish_header {w : ShmIqWriter} (hw : w.writesRows = true) (c : RowCall) :
    (w.publish t mul undef c).2.header = w.header := by
  obtain ⟨mem,hpub,-⟩ := publish_spec t mul undef hw c
  rw [hpub,advance_header]

end Frame

section Ring

variable {rows : UInt32} {geom : RadioGeometry} {scale : F32} {k : ℕ} {w : ShmIqWriter}

/-- The rows of both buffers are one ring of cells without gaps. -/
theorem rowStart_eq (k : ℕ) (hfit : rows.toNat * geom.rowBytes.toNat < 2 ^ 32) :
    (64 + k / rows.toNat % 2 * (rows * geom.rowBytes).toNat + k % rows.toNat * geom.rowBytes.toNat -
      64) / 2 = k % (2 * rows.toNat) * (geom.rowBytes.toNat / 2) := by
  have heven := rowBytes_even geom
  have hbuffer : (rows * geom.rowBytes).toNat = rows.toNat * geom.rowBytes.toNat := by
    rw [UInt32.toNat_mul,Nat.mod_eq_of_lt hfit]
  obtain ⟨half,hhalf⟩ : ∃ half, geom.rowBytes.toNat = 2 * half :=
    ⟨geom.rowBytes.toNat / 2,by omega⟩
  have hcell : k % (2 * rows.toNat) = k / rows.toNat % 2 * rows.toNat + k % rows.toNat := by
    rw [Nat.mul_comm 2,Nat.mod_mul,Nat.mul_comm (k / rows.toNat % 2)]
    omega
  rw [hbuffer,hcell,hhalf]
  have hsum : 64 + k / rows.toNat % 2 * (rows.toNat * (2 * half)) + k % rows.toNat * (2 * half) - 64 =
      2 * ((k / rows.toNat % 2 * rows.toNat + k % rows.toNat) * half) := by
    rw [Nat.add_assoc,Nat.add_sub_cancel_left]
    ring
  rw [hsum,Nat.mul_div_cancel_left _ (by omega),Nat.mul_div_cancel_left _ (by omega)]

theorem RingAt.rowWord_eq (h : RingAt rows geom scale k w)
    (hfit : rows.toNat * geom.rowBytes.toNat < 2 ^ 32) :
    w.rowWord = k % (2 * rows.toNat) * (geom.rowBytes.toNat / 2) := by
  rw [rowWord,rowBase,h.nextBuf,h.nextRow,h.fhBufferSize,h.rowBytes]
  exact rowStart_eq k hfit

/-- Row-sized cell `c` of the region holds the content of a call. -/
def CellHolds (t : Target) (mul : F32 → F32 → F32) (undef : UndefinedShift) (geom : RadioGeometry)
    (scale : F32) (w : ShmIqWriter) (c : ℕ) (call : RowCall) : Prop :=
  ∀ j < geom.rowBytes.toNat / 2,
    w.words (c * (geom.rowBytes.toNat / 2) + j) = call.content t mul undef geom scale j

/-- The writer after a sequence of calls: the cursor, and the rows of the last turn. -/
structure RowsShown (t : Target) (mul : F32 → F32 → F32) (undef : UndefinedShift) (rows : UInt32)
    (geom : RadioGeometry) (scale : F32) (log : List RowCall) (w : ShmIqWriter) : Prop where
  ring : RingAt rows geom scale log.length w
  shown : CyclicLog.Shown (2 * rows.toNat) (CellHolds t mul undef geom scale w) log

theorem RowsShown.publish {t : Target} {mul : F32 → F32 → F32} {undef : UndefinedShift}
    {log : List RowCall} (h : RowsShown t mul undef rows geom scale log w) (hg : geom.InRange)
    (hrows : 0 < rows.toNat) (hfit : rows.toNat * geom.rowBytes.toNat < 2 ^ 32) (c : RowCall) :
    RowsShown t mul undef rows geom scale (log ++ [c]) (w.publish t mul undef c).2 := by
  have hword := h.ring.rowWord_eq hfit
  obtain ⟨mem,hpub,hmem⟩ := publish_spec t mul undef h.ring.writesRows c
  refine ⟨?_,h.shown.push ?_ ?_⟩
  · rw [List.length_append,List.length_singleton]
    exact h.ring.publish t mul undef hrows c
  · intro j hj
    rw [hpub,advance_words,← hword,← h.ring.geom,← h.ring.scale]
    refine hmem j ?_
    rwa [h.ring.rowBytes]
  · intro i _ hne x hx j hj
    have hout := fun k => publish_outside t mul undef h.ring.writesRows (h.ring.geom ▸ hg)
      (by rw [h.ring.rowBytes,h.ring.geom]) c (i := k)
    rw [h.ring.rowBytes,hword] at hout
    rw [hout]
    · exact hx j hj
    · -- different cells of the ring do not share a word
      rcases Nat.lt_or_gt_of_ne hne with hlt | hgt
      · have hle := Nat.mul_le_mul_right (geom.rowBytes.toNat / 2) (Nat.succ_le_of_lt hlt)
        rw [Nat.succ_mul] at hle
        left
        omega
      · have hle := Nat.mul_le_mul_right (geom.rowBytes.toNat / 2) (Nat.succ_le_of_lt hgt)
        rw [Nat.succ_mul] at hle
        right
        omega

end Ring

end ShmIqWriter
end Shm

namespace Layer1

open LabelledRun Config ConfigLoader SlotApi Shm RowConversion L1Kpm StageTrace E3SMLayer1
open ShmIqWriter (RowCall RowsShown)

variable {ω : Type} (p : Platform ω)

/-- A service model, the slots it has placed in the region, and what it told about them: each
indication with the number of the row it names. -/
structure Shelf (ω : Type) where
  sm : E3SMLayer1
  placed : List SlotSample := []
  told : List (ℕ × Emission ω) := []

def shelfStep (t : Shelf ω) : Call → Option (Shelf ω)
  | .start pipelineOk => some { t with sm := (t.sm.start pipelineOk).2 }
  | .stop => some { t with sm := t.sm.stop }
  | .sample s a =>
    (t.sm.onSample p s a).map fun r => {
      sm := r.1
      placed := if (t.sm.dropReason s a.subscribers.ids).1.isNone then t.placed ++ [s] else t.placed
      told := t.told ++ r.2.map fun e => (t.placed.length,e) }

def rowCall (g : RadioGeometry) (s : SlotSample) : RowCall :=
  .rowCbf16 (s.iq.getD fun _ => 0) (portsClamped g s)

section Sample

theorem checkPayload_shmWriter (l : E3SMLayer1) (s : SlotSample) :
    (l.checkPayload s).2.shmWriter = l.shmWriter := by
  unfold checkPayload
  split_ifs <;> rfl

theorem checkGeometry_shmWriter (l : E3SMLayer1) (s : SlotSample) :
    (l.checkGeometry s).shmWriter = l.shmWriter := by
  unfold checkGeometry
  split_ifs <;> rfl

theorem dropReason_shmWriter (l : E3SMLayer1) (s : SlotSample) (subscribers : List UInt32) :
    (l.dropReason s subscribers).2.shmWriter = l.shmWriter := by
  have hpayload := checkPayload_shmWriter (l.checkGeometry s) s
  rw [checkGeometry_shmWriter] at hpayload
  unfold dropReason
  split
  · rfl
  split
  · rfl
  dsimp only
  split
  · exact checkGeometry_shmWriter l s
  · generalize (l.checkGeometry s).checkPayload s = r at hpayload
    obtain ⟨_ | d,l'⟩ := r
    · dsimp only
      split <;> exact hpayload
    · exact hpayload

theorem fanOut_shmWriter (payload : ω) (emitOk : UInt32 → Bool) (l : E3SMLayer1)
    (dapps : List UInt32) : (fanOut payload emitOk l dapps).1.shmWriter = l.shmWriter := by
  induction dapps generalizing l with
  | nil => rfl
  | cons dapp dapps ih =>
    rw [fanOut]
    refine (ih _).trans ?_
    split <;> rfl

theorem publishSlot_shmWriter {l l' : E3SMLayer1} {s : SlotSample} {a : Answers}
    {es : List (Emission ω)} (h : l.publishSlot p s a = some (l',es)) :
    l'.shmWriter = (l.placeRow p s).2 := by
  unfold publishSlot at h
  cases he : l.encodeIndication p s (l.placeRow p s).1 a.alloc with
  | none => simp [he] at h
  | some result =>
    cases result with
    | none =>
      simp only [he,Option.some.injEq,Prod.mk.injEq] at h
      rw [← h.1]
      rfl
    | some payload =>
      simp only [he,Option.some.injEq,Prod.mk.injEq] at h
      rw [← h.1]
      exact fanOut_shmWriter payload a.emitOk _ a.subscribers.ids

theorem placeRow_controller (undef : UndefinedShift) {l : E3SMLayer1}
    (hctl : l.shmWriter.writesRows = true) (s : SlotSample) :
    l.placeRow p s = ((l.shmWriter.nextBuf,l.shmWriter.nextRow),
      (l.shmWriter.publish p.target p.mul undef (rowCall l.geom s)).2) := by
  obtain ⟨mem,hpub,-⟩ := ShmIqWriter.publish_spec p.target p.mul undef hctl (rowCall l.geom s)
  have hcall : l.shmWriter.publishRowCbf16 p.target p.mul (s.iq.getD fun _ => 0)
      (portsClamped l.geom s) = l.shmWriter.publish p.target p.mul undef (rowCall l.geom s) := rfl
  rw [placeRow,if_pos hctl,hcall,hpub]
  rfl

/-- What the indications of a slot say: its coordinates, a row, and the antennas that were
placed. -/
structure SaysRow (encoding : EncodingFormat) (g : RadioGeometry) (s : SlotSample) (buf : UInt8)
    (row : UInt32) (payload : ω) : Prop where
  carries : Carries p.codecs encoding payload ⟨s.gnbTsNs,s.sfn,s.slotId,buf,row⟩
  announces : ∀ n, Announces p.codecs encoding payload n → n = (portsClamped g s).toNat

/-- A call that drops its slot leaves the region and tells nobody; one that does not places the
slot in the row of the cursor and tells this row, if it tells anything. -/
theorem onSample_placed (undef : UndefinedShift) {l l' : E3SMLayer1} {s : SlotSample} {a : Answers}
    {es : List (Emission ω)} (hctl : l.shmWriter.writesRows = true)
    (h : l.onSample p s a = some (l',es)) :
    ((l.dropReason s a.subscribers.ids).1.isNone = false ∧ l'.shmWriter = l.shmWriter ∧ es = []) ∨
    ((l.dropReason s a.subscribers.ids).1.isNone = true ∧ s.iq.isSome = true ∧
      l'.shmWriter = (l.shmWriter.publish p.target p.mul undef (rowCall l.geom s)).2 ∧
      ∀ e ∈ es, SaysRow p l.encoding l.geom s l.shmWriter.nextBuf l.shmWriter.nextRow e.payload) := by
  have hframe := dropReason_frame l s a.subscribers.ids
  have hsame := (afterCheck_sameConfig l s).frame hframe
  have hwriter := dropReason_shmWriter l s a.subscribers.ids
  unfold onSample at h
  cases hadm : l.dropReason s a.subscribers.ids with
  | mk d l₁ =>
    rw [hadm] at h hsame hwriter
    cases d with
    | some d =>
      simp only [Option.some.injEq,Prod.mk.injEq] at h
      obtain ⟨rfl,rfl⟩ := h
      exact .inl ⟨rfl,hwriter,rfl⟩
    | none =>
      have hplace := placeRow_controller p undef (hwriter ▸ hctl) s
      rw [hwriter,hsame.geom] at hplace
      have hpayload := (admitted_of_dropReason (congrArg Prod.fst hadm)).payload
      refine .inr ⟨rfl,?_,?_,?_⟩
      · unfold checkPayload at hpayload
        rw [checkGeometry_shmWriter,if_pos hctl] at hpayload
        cases hiq : s.iq with
        | none => simp [hiq] at hpayload
        | some iq => rfl
      · rw [publishSlot_shmWriter p h,hplace]
      · rcases (publishSlot_spec p h).2 with rfl | ⟨payload,henc,rfl⟩
        · intro e he
          cases he
        · have hcarries := encodeIndication_carries p henc
          have hannounces := fun n => encodeIndication_announces p henc (n := n)
          rw [hplace] at hcarries
          rw [hsame.encoding] at hcarries hannounces
          rw [hsame.geom] at hannounces
          intro e he
          obtain ⟨dapp,-,rfl⟩ := List.mem_map.mp he
          exact ⟨hcarries,hannounces⟩

end Sample

section Runs

structure ShelfInv (undef : UndefinedShift) (rows : UInt32) (config : ControllerConfig)
    (h : SharedMemoryHeader) (t : Shelf ω) : Prop where
  encoding : t.sm.encoding = config.e3.encoding
  geom : t.sm.geom = config.radio
  header : t.sm.shmWriter.header = some h
  shown : RowsShown p.target p.mul undef rows config.radio config.shm.cbf16Scale
    (t.placed.map (rowCall config.radio)) t.sm.shmWriter
  iq : ∀ s ∈ t.placed, s.iq.isSome = true
  told : ∀ x ∈ t.told, ∃ s buf row, t.placed[x.1]? = some s ∧
    UInt8.toNat buf = x.1 / rows.toNat % 2 ∧ UInt32.toNat row = x.1 % rows.toNat ∧
    SaysRow p config.e3.encoding config.radio s buf row x.2.payload

variable {p} {undef : UndefinedShift} {rows : UInt32} {config : ControllerConfig}
  {h : SharedMemoryHeader} {t t' : Shelf ω}

theorem ShelfInv.of_sm (hinv : ShelfInv p undef rows config h t) {sm : E3SMLayer1}
    (hencoding : sm.encoding = t.sm.encoding) (hgeom : sm.geom = t.sm.geom)
    (hwriter : sm.shmWriter = t.sm.shmWriter) :
    ShelfInv p undef rows config h { t with sm := sm } where
  encoding := hencoding.trans hinv.encoding
  geom := hgeom.trans hinv.geom
  header := by
    rw [hwriter]
    exact hinv.header
  shown := by
    rw [hwriter]
    exact hinv.shown
  iq := hinv.iq
  told := hinv.told

theorem sample_shelfInv (hg : config.radio.InRange) (hrows : 0 < rows.toNat)
    (hfit : rows.toNat * config.radio.rowBytes.toNat < 2 ^ 32) {s : SlotSample} {a : Answers}
    (hinv : ShelfInv p undef rows config h t) (ht : shelfStep p t (.sample s a) = some t') :
    ShelfInv p undef rows config h t' := by
  obtain ⟨⟨sm,es⟩,hsample,rfl⟩ := Option.map_eq_some_iff.mp ht
  have hring := hinv.shown.ring
  have hsame := (afterCheck_sameConfig t.sm s).frame (onSample_frame p hsample)
  rcases onSample_placed p undef hring.writesRows hsample with
    ⟨hdrop,hwriter,rfl⟩ | ⟨hplaced,hiq,hwriter,hes⟩
  · simp only [hdrop,Bool.false_eq_true,if_false,List.map_nil,List.append_nil]
    exact hinv.of_sm hsame.encoding hsame.geom hwriter
  · rw [hinv.geom] at hwriter hes
    rw [hinv.encoding] at hes
    simp only [hplaced,if_true]
    refine ⟨hsame.encoding.trans hinv.encoding,hsame.geom.trans hinv.geom,?_,?_,?_,?_⟩
    · rw [hwriter,ShmIqWriter.publish_header _ _ _ hring.writesRows]
      exact hinv.header
    · rw [hwriter,List.map_append,List.map_singleton]
      exact hinv.shown.publish hg hrows hfit _
    · intro x hx
      rcases List.mem_append.mp hx with hx | hx
      · exact hinv.iq x hx
      · rw [List.mem_singleton.mp hx]
        exact hiq
    · intro x hx
      rcases List.mem_append.mp hx with hx | hx
      · obtain ⟨s',buf,row,hs',hrest⟩ := hinv.told x hx
        have hlt := (List.getElem?_eq_some_iff.mp hs').1
        exact ⟨s',buf,row,by rw [List.getElem?_append_left hlt,hs'],hrest⟩
      · obtain ⟨e,he,rfl⟩ := List.mem_map.mp hx
        have hcount : (t.placed.map (rowCall config.radio)).length = t.placed.length :=
          List.length_map _
        refine ⟨s,t.sm.shmWriter.nextBuf,t.sm.shmWriter.nextRow,List.getElem?_concat_length,?_,?_,hes e he⟩
        · rw [hring.nextBuf,hcount]
        · rw [hring.nextRow,hcount]

theorem shelfStep_inv (hg : config.radio.InRange) (hrows : 0 < rows.toNat)
    (hfit : rows.toNat * config.radio.rowBytes.toNat < 2 ^ 32) {c : Call}
    (hinv : ShelfInv p undef rows config h t) (ht : shelfStep p t c = some t') :
    ShelfInv p undef rows config h t' := by
  cases c with
  | start pipelineOk =>
    cases ht
    have hsame := start_sameConfig t.sm pipelineOk
    refine hinv.of_sm hsame.encoding hsame.geom ?_
    unfold E3SMLayer1.start
    split_ifs <;> rfl
  | stop =>
    cases ht
    exact hinv.of_sm rfl rfl rfl
  | sample s a => exact sample_shelfInv hg hrows hfit hinv ht

end Runs

section Result

def Shelf.fresh (config : ControllerConfig) (shmWriter : ShmIqWriter) (trace : Trace) : Shelf ω where
  sm := E3SMLayer1.constructed config shmWriter trace

theorem fresh_shelfInv (undef : UndefinedShift) {config : ControllerConfig} {w₀ : ShmIqWriter}
    {rows : UInt32} {h : SharedMemoryHeader}
    (hring : ShmIqWriter.RingAt rows config.radio config.shm.cbf16Scale 0 w₀)
    (hheader : w₀.header = some h) (trace : Trace) :
    ShelfInv p undef rows config h (Shelf.fresh config w₀ trace : Shelf ω) where
  encoding := rfl
  geom := rfl
  header := hheader
  shown := ⟨hring,fun i a hi => by cases hi⟩
  iq s hs := by cases hs
  told x hx := by cases hx

/-- The words of a slot in a row: the announced antennas converted, then zeros. -/
def slotWord (config : ControllerConfig) (s : SlotSample) (iq : Words) (j : ℕ) : UInt16 :=
  if j < (portsClamped config.radio s).toNat * config.radio.u16PerAnt.toNat then
    bf16ToFp16 p.mul p.target (iq j) config.shm.cbf16Scale
  else 0

/-- A dApp that was told about row number `k` can read it: the row is inside of the region, and
until the ring has come around it holds the slot that the indication is about. -/
def Readable (config : ControllerConfig) (t : Shelf ω) (k : ℕ) (e : Emission ω) : Prop :=
  ∃ s iq buf row h, t.placed[k]? = some s ∧ s.iq = some iq ∧ t.sm.shmWriter.header = some h ∧
    SaysRow p config.e3.encoding config.radio s buf row e.payload ∧
    h.rowOffset buf.toNat row.toNat + config.radio.rowBytes.toNat ≤ config.shm.sizeBytes.toNat ∧
    (t.placed.length ≤ k + 2 * h.numFhRows.toNat → ∀ j < config.radio.rowBytes.toNat / 2,
      t.sm.shmWriter.words ((h.rowOffset buf.toNat row.toNat - 64) / 2 + j) =
        slotWord p config s iq j)

theorem portsClamped_delivered {g : RadioGeometry} (hg : g.InRange) (s : SlotSample) :
    min (max 1 (portsClamped g s).toNat) g.nofPorts.toNat = (portsClamped g s).toNat := by
  have hpos := hg.ports_pos
  rw [portsClamped_toNat hpos]
  omega

/-- For every accepted configuration whose rows fit, in every run of the service model in
controller mode, every indication it ever sent is readable at the end of the run. -/
theorem announced_rows_readable (yaml : Yaml) {path : CString.Str} {out config : ControllerConfig}
    (hload : loadConfig yaml path out = (.accepted,config)) (hfit : RowsFit config)
    (hwriter : config.shm.writer = .controller) {os : OsAnswers} {w w₀ : ShmIqWriter}
    {called : List OsCall} (hopen : w.openRegion os config.shm.name config.shm.sizeBytes config.radio
      config.shm.cbf16Scale config.shm.writer = (true,w₀,called)) (trace : Trace) (calls : List Call)
    (t : Shelf ω) (hrun : run (shelfStep p) (Shelf.fresh config w₀ trace) calls = some t) :
    ∀ x ∈ t.told, Readable p config t x.1 x.2 := by
  have hc := checked_of_accepted yaml hload
  have hg := RadioGeometry.inRange_of_validate hc.radio
  rw [hwriter] at hopen
  obtain ⟨rows,hpos,hring⟩ := ShmIqWriter.ringAt_of_open hopen
  obtain ⟨-,fd,rfl⟩ := openRegion_ok hopen
  have hrows : rows = ShmIqWriter.rowsFor config.shm.sizeBytes 2 config.radio.rowBytes :=
    hring.numFhRows.symm
  obtain ⟨h,hheader,hh⟩ : ∃ h, (ShmIqWriter.opened fd config.shm.name config.shm.sizeBytes config.radio
      config.shm.cbf16Scale .controller).header = some h ∧ HeaderFor rows config.radio
      (.opened fd config.shm.name config.shm.sizeBytes config.radio config.shm.cbf16Scale .controller)
      h := hrows ▸ ⟨_,rfl,rfl,rfl,rfl,rfl,rfl⟩
  have hcount : rows.toNat = rowsPerBuffer config % 2 ^ 32 := by
    rw [hrows]
    exact rowsFor_toNat config.radio.rowBytes hc.header
  have hfit' : rows.toNat * config.radio.rowBytes.toNat < 2 ^ 32 := by
    rw [hcount]
    exact hfit.2
  have hlayout := layoutCorrect_of_fit hc hh hcount hpos hfit'
  have hstart := fresh_shelfInv p (fun x _ => x) hring hheader trace
  have hinv := run_invariant_of_step (fun _ _ _ hi ht => shelfStep_inv hg hpos hfit' hi ht) hstart hrun
  intro x hx
  obtain ⟨s,buf,row,hs,hbuf,hrow,hrowTold⟩ := hinv.told x hx
  obtain ⟨iq,hiq⟩ := Option.isSome_iff_exists.mp (hinv.iq s (List.mem_of_getElem? hs))
  refine ⟨s,iq,buf,row,h,hs,hiq,hinv.header,hrowTold,?_,?_⟩
  · refine hlayout.inside _ _ (by omega) ?_
    rw [hrow,hh.numFhRows]
    exact Nat.mod_lt _ hpos
  · intro hrecent j hj
    have hcell := hinv.shown.shown x.1 (rowCall config.radio s)
      (by rw [List.getElem?_map,hs]; rfl) (by rwa [List.length_map,← hh.numFhRows]) j hj
    rw [rowOffset_eq hc hh,hbuf,hrow,ShmIqWriter.rowStart_eq x.1 hfit',hcell,rowCall,hiq]
    simp only [RowCall.content,slotWord,portsClamped_delivered hg,Option.getD_some]

end Result

def controllerDoc : Node := sectionDoc (CString.str "shm") [(CString.str "writer",CString.str "controller")]

def controllerConfig : ControllerConfig where
  shm := { writer := .controller }
  jbpf := { lcmSocketPath := CString.str "/dev/shm/jbpf/jbpf_lcm_ipc" }

def twoSlots : List Call :=
  [.start true,.sample { fullBandSample 4 with iq := some fun _ => 0x3f80, iqSizeBytes := 733824 }
    oneSubscriber,.sample (fullBandSample 4) oneSubscriber]

theorem announced_rows_readable_first :
    ∃ w₀ called t, ({} : ShmIqWriter).openRegion ⟨some 3,true,true⟩ controllerConfig.shm.name
      controllerConfig.shm.sizeBytes controllerConfig.radio controllerConfig.shm.cbf16Scale
      controllerConfig.shm.writer = (true,w₀,called) ∧
      run (shelfStep taggedPlatform) (Shelf.fresh controllerConfig w₀ {}) twoSlots = some t ∧
      t.placed.length = 1 ∧ t.told.length = 1 ∧
      ∀ x ∈ t.told, Readable taggedPlatform controllerConfig t x.1 x.2 := by
  have hload : loadConfig (decimalYaml controllerDoc) (CString.str "e3.yaml") {} =
      (.accepted,controllerConfig) := by decide +kernel
  have hfit : RowsFit controllerConfig := by decide +kernel
  have hopen : ({} : ShmIqWriter).openRegion ⟨some 3,true,true⟩ controllerConfig.shm.name
      controllerConfig.shm.sizeBytes controllerConfig.radio controllerConfig.shm.cbf16Scale
      controllerConfig.shm.writer = (true,_,_) := rfl
  refine ⟨_,_,_,hopen,rfl,rfl,rfl,?_⟩
  exact announced_rows_readable taggedPlatform (decimalYaml controllerDoc) hload hfit rfl hopen {}
    twoSlots _ rfl

end Layer1
end E3Controller
