import Mathlib.Algebra.Order.Ring.Nat
import Mathlib.Tactic.IntervalCases
import E3Controller.CString

/-!
# Controller configuration

The configuration records of `e3_config.h` and the two geometry checks of
`e3_config.cpp`. Radio dimensions are 16-bit, derived sizes are 32-bit products
that wrap; `validate` is what keeps them from doing so.
-/

namespace E3Controller
namespace Config

open CString

structure RadioGeometry where
  nofPorts : UInt16 := 4
  nofPrbs : UInt16 := 273
  nofSymbols : UInt16 := 14
  scsKhz : UInt16 := 30
  deriving DecidableEq, Repr

namespace RadioGeometry

def kScPerPrb : UInt32 := 12
def kBytesPerCbf16 : UInt32 := 4

def nofSubcarriers (g : RadioGeometry) : UInt32 := g.nofPrbs.toUInt32 * kScPerPrb

/-- 16-bit values per antenna of the fp16 row. -/
def u16PerAnt (g : RadioGeometry) : UInt32 := g.nofSymbols.toUInt32 * g.nofSubcarriers * 2

/-- 16-bit values of the whole row, as advertised in the region header. -/
def numFhSamples (g : RadioGeometry) : UInt32 := g.nofPorts.toUInt32 * g.u16PerAnt

def rowBytes (g : RadioGeometry) : UInt32 := g.numFhSamples * 2

def cbf16BytesPerAnt (g : RadioGeometry) : UInt32 :=
  g.nofSymbols.toUInt32 * g.nofSubcarriers * kBytesPerCbf16

def slotsPerFrame (g : RadioGeometry) : UInt32 := 10 * (g.scsKhz / 15).toUInt32

def describe (g : RadioGeometry) : Str :=
  str (toString g.nofPorts) ++ str " ports x " ++ str (toString g.nofSymbols) ++ str " sym x " ++
    str (toString g.nofSubcarriers) ++ str " subc (" ++ str (toString g.nofPrbs) ++ str " PRB, " ++
    str (toString g.scsKhz) ++ str " kHz SCS)"

def validate (g : RadioGeometry) : Except Str Unit :=
  if g.nofPorts == 0 || g.nofPorts > 8 then
    .error (str "radio.nof_ports must be 1..8")
  else if g.nofPrbs == 0 || g.nofPrbs > 275 then
    .error (str "radio.nof_prbs must be 1..275")
  else if g.nofSymbols != 12 && g.nofSymbols != 14 then
    .error (str "radio.nof_symbols must be 12 or 14")
  else if g.scsKhz != 15 && g.scsKhz != 30 && g.scsKhz != 60 && g.scsKhz != 120 then
    .error (str "radio.scs_khz must be 15, 30, 60 or 120")
  else if g.u16PerAnt % 8 != 0 then
    .error (str "radio geometry gives " ++ str (toString g.u16PerAnt) ++
      str " uint16/antenna, which is not a multiple of 8 (required by the AVX2 convert)")
  else .ok ()

structure InRange (g : RadioGeometry) : Prop where
  ports_pos : 1 ≤ g.nofPorts.toNat
  ports_le : g.nofPorts.toNat ≤ 8
  prbs_pos : 1 ≤ g.nofPrbs.toNat
  prbs_le : g.nofPrbs.toNat ≤ 275
  symbols : g.nofSymbols.toNat = 12 ∨ g.nofSymbols.toNat = 14

theorem inRange_of_validate {g : RadioGeometry} (h : g.validate = .ok ()) : g.InRange := by
  unfold validate at h
  split_ifs at h with hports hprbs hsym hscs
  simp only [Bool.or_eq_true,beq_iff_eq,decide_eq_true_eq,not_or,gt_iff_lt,Bool.and_eq_true,
    bne_iff_ne,ne_eq,not_and,not_not] at hports hprbs hsym
  refine ⟨?_,?_,?_,?_,?_⟩
  · have hne : g.nofPorts.toNat ≠ 0 := fun h0 => hports.1 (UInt16.toNat_inj.mp h0)
    omega
  · exact Nat.not_lt.mp fun hlt => hports.2 (UInt16.lt_iff_toNat_lt.mpr hlt)
  · have hne : g.nofPrbs.toNat ≠ 0 := fun h0 => hprbs.1 (UInt16.toNat_inj.mp h0)
    omega
  · exact Nat.not_lt.mp fun hlt => hprbs.2 (UInt16.lt_iff_toNat_lt.mpr hlt)
  · by_cases h12 : g.nofSymbols = 12
    · left; rw [h12]; rfl
    · right; rw [hsym h12]; rfl

theorem nofSubcarriers_toNat (g : RadioGeometry) : g.nofSubcarriers.toNat = g.nofPrbs.toNat * 12 := by
  have := g.nofPrbs.toNat_lt
  simp only [nofSubcarriers,kScPerPrb,UInt32.toNat_mul,UInt16.toNat_toUInt32]
  exact Nat.mod_eq_of_lt (by simp; omega)

namespace InRange

variable {g : RadioGeometry}

theorem subcarriers_le (h : g.InRange) : g.nofSubcarriers.toNat ≤ 3300 := by
  have := h.prbs_le
  rw [nofSubcarriers_toNat]
  omega

theorem grid_le (h : g.InRange) : g.nofSymbols.toNat * g.nofSubcarriers.toNat ≤ 46200 := by
  have hs : g.nofSymbols.toNat ≤ 14 := by rcases h.symbols with hs | hs <;> omega
  calc g.nofSymbols.toNat * g.nofSubcarriers.toNat ≤ 14 * 3300 := Nat.mul_le_mul hs h.subcarriers_le
    _ = 46200 := by norm_num

theorem grid_pos (h : g.InRange) : 0 < g.nofSymbols.toNat * g.nofSubcarriers.toNat := by
  have hs : 0 < g.nofSymbols.toNat := by rcases h.symbols with hs | hs <;> omega
  have hp : 0 < g.nofSubcarriers.toNat := by
    have := h.prbs_pos
    rw [nofSubcarriers_toNat]
    omega
  exact Nat.mul_pos hs hp

theorem u16PerAnt_toNat (h : g.InRange) :
    g.u16PerAnt.toNat = g.nofSymbols.toNat * g.nofSubcarriers.toNat * 2 := by
  have hb := h.grid_le
  simp only [u16PerAnt,UInt32.toNat_mul,UInt16.toNat_toUInt32]
  rw [Nat.mod_eq_of_lt (a := g.nofSymbols.toNat * g.nofSubcarriers.toNat) (by omega)]
  exact Nat.mod_eq_of_lt (by simp; omega)

theorem row_le (h : g.InRange) :
    g.nofPorts.toNat * (g.nofSymbols.toNat * g.nofSubcarriers.toNat * 2) ≤ 739200 := by
  calc g.nofPorts.toNat * (g.nofSymbols.toNat * g.nofSubcarriers.toNat * 2)
      ≤ 8 * (46200 * 2) := Nat.mul_le_mul h.ports_le (Nat.mul_le_mul_right 2 h.grid_le)
    _ = 739200 := by norm_num

theorem numFhSamples_toNat (h : g.InRange) :
    g.numFhSamples.toNat = g.nofPorts.toNat * (g.nofSymbols.toNat * g.nofSubcarriers.toNat * 2) := by
  have hb := h.row_le
  simp only [numFhSamples,UInt32.toNat_mul,UInt16.toNat_toUInt32,h.u16PerAnt_toNat]
  exact Nat.mod_eq_of_lt (by omega)

theorem rowBytes_toNat (h : g.InRange) : g.rowBytes.toNat = g.numFhSamples.toNat * 2 := by
  have hb := h.row_le
  rw [← h.numFhSamples_toNat] at hb
  simp only [rowBytes,UInt32.toNat_mul]
  exact Nat.mod_eq_of_lt (by simp; omega)

theorem rowBytes_pos (h : g.InRange) : 0 < g.rowBytes.toNat := by
  have hp := h.ports_pos
  rw [h.rowBytes_toNat,h.numFhSamples_toNat]
  have := Nat.mul_pos (Nat.lt_of_lt_of_le Nat.zero_lt_one hp) (Nat.mul_pos h.grid_pos (show 0 < 2 by omega))
  omega

end InRange
end RadioGeometry

/-- Which process converts the resource grid and writes the fp16 rows. -/
inductive ShmWriter
  | controller | gnb
  deriving DecidableEq, Repr

/-- A 32-bit float is its bit pattern; `1.0f` is `0x3f800000`. -/
abbrev F32 := UInt32

/-- `x > 0.0f`: positive sign, not zero and not a NaN. -/
def F32.isPositive (x : F32) : Bool := 0 < x && x ≤ 0x7f800000

structure ShmConfig where
  name : Str := str "/e3_ran_buffers"
  sizeBytes : UInt64 := 1073741824
  writer : ShmWriter := .gnb
  cbf16Scale : F32 := 0x3f800000
  deriving DecidableEq, Repr

structure JbpfConfig where
  ipcName : Str := str "e3_controller"
  runPath : Str := str "/dev/shm"
  memSizeBytes : UInt64 := 1073741824
  lcmSocketPath : Str := str "/tmp/jbpf/jbpf_lcm_ipc"
  codeletBasePath : Str := []
  deriving DecidableEq, Repr

inductive EncodingFormat
  | asn1 | json
  deriving DecidableEq, Repr

inductive LinkLayer
  | zmq | posix
  deriving DecidableEq, Repr

inductive TransportLayer
  | tcp | ipc | sctp
  deriving DecidableEq, Repr

structure E3Config where
  encoding : EncodingFormat := .asn1
  linkLayer : LinkLayer := .zmq
  transport : TransportLayer := .tcp
  setupPort : UInt16 := 9990
  publisherPort : UInt16 := 9991
  subscriberPort : UInt16 := 9999
  deriving DecidableEq, Repr

structure ThreadConfig where
  pollCore : Int := -1
  workerCore : Int := -1
  publisherCore : Int := -1
  pollIntervalUs : Int := 100
  deriving DecidableEq, Repr

structure LoggingConfig where
  dropsLogPath : Str := []
  spectrumStatsLogPath : Str := []
  latrecDir : Str := []
  deriving DecidableEq, Repr

structure ControllerConfig where
  radio : RadioGeometry := {}
  shm : ShmConfig := {}
  jbpf : JbpfConfig := {}
  e3 : E3Config := {}
  threads : ThreadConfig := {}
  logging : LoggingConfig := {}
  targetSlot : Int := -1
  deriving DecidableEq, Repr

/-- Compare the configured geometry with what the RAN reports in one slot. A
zero in the report means the RAN did not state that dimension. -/
def validateAgainstRan (cfg : RadioGeometry) (ranNofPorts ranNofSymbols : UInt16)
    (ranNofSubcarriers : UInt32) : Except Str Unit :=
  if ranNofPorts != 0 && cfg.nofPorts > ranNofPorts then
    .error (str "config declares " ++ str (toString cfg.nofPorts) ++
      str " antenna ports but the RAN reports " ++ str (toString ranNofPorts) ++ str ". The extra " ++
      str (toString (cfg.nofPorts.toNat - ranNofPorts.toNat)) ++
      str " antenna(s) would be published as silence and the dApp could not tell. Set radio.nof_ports to " ++
      str (toString ranNofPorts) ++ str ".")
  else if ranNofSymbols != 0 && cfg.nofSymbols != ranNofSymbols then
    .error (str "config declares " ++ str (toString cfg.nofSymbols) ++
      str " symbols/slot but the RAN reports " ++ str (toString ranNofSymbols) ++
      str " — row stride would be wrong.")
  else if ranNofSubcarriers != 0 && cfg.nofSubcarriers != ranNofSubcarriers then
    .error (str "config declares " ++ str (toString cfg.nofSubcarriers) ++ str " subcarriers (" ++
      str (toString cfg.nofPrbs) ++ str " PRB) but the RAN reports " ++ str (toString ranNofSubcarriers) ++
      str " (" ++ str (toString (ranNofSubcarriers / 12)) ++ str " PRB) — row stride would be wrong.")
  else .ok ()

end Config
end E3Controller
