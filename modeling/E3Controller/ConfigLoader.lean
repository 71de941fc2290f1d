import E3Controller.Config

/-!
# The YAML loader

`load_config` walks a parsed document, fills the configuration field by field
and ends with the cross-field checks. Absent keys keep their defaults, unknown
keys are errors, and an exception of the YAML library inside the walk is turned
into a rejection; the check of the root's own keys stands outside that handler.
The configuration written so far stays in `out` whatever the outcome.
-/

namespace E3Controller
namespace ConfigLoader

open CString Config

inductive Node
  | null
  | scalar (text : Str)
  | sequence (items : List Node)
  | map (entries : List (Node × Node))

/-- The YAML library: parsing a file and converting a node to each type that a
field has. An error is the `what()` of the exception thrown. -/
structure Yaml where
  loadFile : Str → Except Str Node
  badSubscript : Str
  asString : Node → Except Str Str
  asU16 : Node → Except Str UInt16
  asU64 : Node → Except Str UInt64
  asF32 : Node → Except Str F32
  asInt : Node → Except Str Int

/-- How the walk can end early: `return false` with a message, or an exception. -/
inductive Failure
  | rejected (err : Str)
  | thrown (what : Str)

inductive Outcome
  | accepted
  | rejected (err : Str)
  | thrown (what : Str)
  deriving DecidableEq

abbrev Load := ExceptT Failure (StateM ControllerConfig)

def Node.hasKey (key : Str) : Node → Bool
  | .scalar text => text == key
  | _ => false

/-- `node[key]`: undefined on a null or a sequence, an exception on a scalar. -/
def Node.index (yaml : Yaml) (key : Str) : Node → Except Str (Option Node)
  | .null => .ok none
  | .sequence _ => .ok none
  | .scalar _ => .error yaml.badSubscript
  | .map entries => .ok ((entries.find? fun kv => kv.1.hasKey key).map Prod.snd)

variable (yaml : Yaml)

def thrown {T : Type} : Except Str T → Load T
  | .ok x => pure x
  | .error what => throw (.thrown what)

def unknownKey (sectionName key : Str) : Str :=
  str "unknown key '" ++ key ++ str "' in section '" ++ sectionName ++ str "'"

def checkKeysIn (sectionName : Str) (allowed : List Str) : List (Node × Node) → Load Unit
  | [] => pure ()
  | kv :: rest => do
    let key ← thrown (yaml.asString kv.1)
    if key ∈ allowed then checkKeysIn sectionName allowed rest
    else throw (.rejected (unknownKey sectionName key))

/-- Unknown keys are an error; anything but a mapping has no keys to check. -/
def checkKeys (node : Node) (sectionName : Str) (allowed : List Str) : Load Unit :=
  match node with
  | .map entries => checkKeysIn yaml sectionName allowed entries
  | _ => pure ()

def get {T : Type} (as : Node → Except Str T) (node : Node) (key : Str)
    (assign : T → ControllerConfig → ControllerConfig) : Load Unit := do
  match ← thrown (node.index yaml key) with
  | none => pure ()
  | some value =>
    let x ← thrown (as value)
    modify (assign x)

def getParsed {T : Type} (parse : Str → Except Str T) (node : Node) (key : Str)
    (assign : T → ControllerConfig → ControllerConfig) : Load Unit := do
  match ← thrown (node.index yaml key) with
  | none => pure ()
  | some value =>
    let text ← thrown (yaml.asString value)
    match parse text with
    | .error err => throw (.rejected err)
    | .ok x => modify (assign x)

def parseEncoding (s : Str) : Except Str EncodingFormat :=
  if s = str "asn1" ∨ s = str "ASN1" ∨ s = str "aper" then .ok .asn1
  else if s = str "json" ∨ s = str "JSON" then .ok .json
  else .error (str "e3.encoding must be 'asn1' or 'json', got '" ++ s ++ str "'")

def parseLinkLayer (s : Str) : Except Str LinkLayer :=
  if s = str "zmq" ∨ s = str "ZMQ" then .ok .zmq
  else if s = str "posix" ∨ s = str "POSIX" then .ok .posix
  else .error (str "e3.link_layer must be 'zmq' or 'posix', got '" ++ s ++ str "'")

def parseTransport (s : Str) : Except Str TransportLayer :=
  if s = str "tcp" ∨ s = str "TCP" then .ok .tcp
  else if s = str "ipc" ∨ s = str "IPC" then .ok .ipc
  else if s = str "sctp" ∨ s = str "SCTP" then .ok .sctp
  else .error (str "e3.transport must be 'tcp', 'ipc' or 'sctp', got '" ++ s ++ str "'")

def parseWriter (s : Str) : Except Str ShmWriter :=
  if s = str "controller" then .ok .controller
  else if s = str "gnb" then .ok .gnb
  else .error (str "shm.writer must be 'controller' or 'gnb', got '" ++ s ++ str "'")

def loadRadio (n : Node) : Load Unit := do
  checkKeys yaml n (str "radio") [str "nof_ports",str "nof_prbs",str "nof_symbols",str "scs_khz"]
  get yaml yaml.asU16 n (str "nof_ports") fun x c => { c with radio.nofPorts := x }
  get yaml yaml.asU16 n (str "nof_prbs") fun x c => { c with radio.nofPrbs := x }
  get yaml yaml.asU16 n (str "nof_symbols") fun x c => { c with radio.nofSymbols := x }
  get yaml yaml.asU16 n (str "scs_khz") fun x c => { c with radio.scsKhz := x }

def loadShm (n : Node) : Load Unit := do
  checkKeys yaml n (str "shm") [str "name",str "size_bytes",str "cbf16_scale",str "writer"]
  get yaml yaml.asString n (str "name") fun x c => { c with shm.name := x }
  get yaml yaml.asU64 n (str "size_bytes") fun x c => { c with shm.sizeBytes := x }
  get yaml yaml.asF32 n (str "cbf16_scale") fun x c => { c with shm.cbf16Scale := x }
  getParsed yaml parseWriter n (str "writer") fun x c => { c with shm.writer := x }

/-- The jbpf section; returns whether the socket path was given explicitly. -/
def loadJbpf (n : Node) : Load Bool := do
  checkKeys yaml n (str "jbpf") [str "ipc_name",str "run_path",str "mem_size_bytes",
    str "lcm_socket_path",str "codelet_base_path"]
  get yaml yaml.asString n (str "ipc_name") fun x c => { c with jbpf.ipcName := x }
  get yaml yaml.asString n (str "run_path") fun x c => { c with jbpf.runPath := x }
  get yaml yaml.asU64 n (str "mem_size_bytes") fun x c => { c with jbpf.memSizeBytes := x }
  get yaml yaml.asString n (str "lcm_socket_path") fun x c => { c with jbpf.lcmSocketPath := x }
  let explicit ← thrown (n.index yaml (str "lcm_socket_path"))
  get yaml yaml.asString n (str "codelet_base_path") fun x c => { c with jbpf.codeletBasePath := x }
  pure explicit.isSome

def loadE3 (n : Node) : Load Unit := do
  checkKeys yaml n (str "e3") [str "encoding",str "link_layer",str "transport",str "setup_port",
    str "publisher_port",str "subscriber_port"]
  getParsed yaml parseEncoding n (str "encoding") fun x c => { c with e3.encoding := x }
  getParsed yaml parseLinkLayer n (str "link_layer") fun x c => { c with e3.linkLayer := x }
  getParsed yaml parseTransport n (str "transport") fun x c => { c with e3.transport := x }
  get yaml yaml.asU16 n (str "setup_port") fun x c => { c with e3.setupPort := x }
  get yaml yaml.asU16 n (str "publisher_port") fun x c => { c with e3.publisherPort := x }
  get yaml yaml.asU16 n (str "subscriber_port") fun x c => { c with e3.subscriberPort := x }

def loadThreads (n : Node) : Load Unit := do
  checkKeys yaml n (str "threads") [str "poll_core",str "worker_core",str "publisher_core",
    str "poll_interval_us"]
  get yaml yaml.asInt n (str "poll_core") fun x c => { c with threads.pollCore := x }
  get yaml yaml.asInt n (str "worker_core") fun x c => { c with threads.workerCore := x }
  get yaml yaml.asInt n (str "publisher_core") fun x c => { c with threads.publisherCore := x }
  get yaml yaml.asInt n (str "poll_interval_us") fun x c => { c with threads.pollIntervalUs := x }

def loadLogging (n : Node) : Load Unit := do
  checkKeys yaml n (str "logging") [str "drops_log_path",str "spectrum_stats_log_path",
    str "latrec_dir"]
  get yaml yaml.asString n (str "drops_log_path") fun x c => { c with logging.dropsLogPath := x }
  get yaml yaml.asString n (str "spectrum_stats_log_path") fun x c =>
    { c with logging.spectrumStatsLogPath := x }
  get yaml yaml.asString n (str "latrec_dir") fun x c => { c with logging.latrecDir := x }

def inSection {T : Type} (root : Node) (key : Str) (absent : T) (load : Node → Load T) :
    Load T := do
  match ← thrown (root.index yaml key) with
  | none => pure absent
  | some n => load n

/-- The body of the `try` block. -/
def loadSections (root : Node) : Load Bool := do
  inSection yaml root (str "radio") () (loadRadio yaml)
  inSection yaml root (str "shm") () (loadShm yaml)
  let lcmExplicit ← inSection yaml root (str "jbpf") false (loadJbpf yaml)
  inSection yaml root (str "e3") () (loadE3 yaml)
  inSection yaml root (str "threads") () (loadThreads yaml)
  inSection yaml root (str "logging") () (loadLogging yaml)
  get yaml yaml.asInt root (str "target_slot") fun x c => { c with targetSlot := x }
  pure lcmExplicit

def kHeaderBytes : UInt64 := 64
def kNumBuffers : UInt64 := 2

def validateConfig (c : ControllerConfig) : Except Str Unit :=
  match c.radio.validate with
  | .error err => .error err
  | .ok () =>
    if c.shm.sizeBytes ≤ kHeaderBytes ||
        (c.shm.sizeBytes - kHeaderBytes) / kNumBuffers < c.radio.rowBytes.toUInt64 then
      .error (str "shm.size_bytes " ++ str (toString c.shm.sizeBytes) ++ str " is too small for " ++
        str (toString kNumBuffers) ++ str " buffers of one " ++ str (toString c.radio.rowBytes) ++
        str "-byte row (" ++ c.radio.describe ++ str ")")
    else if !c.shm.cbf16Scale.isPositive then
      .error (str "shm.cbf16_scale must be > 0 (a zero or negative scale zeroes the row and silently breaks the dApp)")
    else if c.targetSlot ≥ 0 && c.targetSlot.toNat ≥ c.radio.slotsPerFrame.toNat then
      .error (str "target_slot " ++ str (toString c.targetSlot) ++ str " is outside 0.." ++
        str (toString (c.radio.slotsPerFrame - 1)) ++ str " for " ++ str (toString c.radio.scsKhz) ++
        str " kHz SCS — it would never match")
    else .ok ()

def rootKeys : List Str :=
  [str "radio",str "shm",str "jbpf",str "e3",str "threads",str "logging",str "target_slot"]

def deriveLcmPath (lcmExplicit : Bool) (c : ControllerConfig) : ControllerConfig :=
  if lcmExplicit then c
  else { c with jbpf.lcmSocketPath := c.jbpf.runPath ++ str "/jbpf/jbpf_lcm_ipc" }

/-- `load_config`: the outcome and what `out` holds afterwards. -/
def loadConfig (path : Str) (_out : ControllerConfig) : Outcome × ControllerConfig :=
  match yaml.loadFile path with
  | .error what => (.rejected (str "cannot load '" ++ path ++ str "': " ++ what),{})
  | .ok (.map entries) =>
    match (checkKeys yaml (.map entries) (str "<root>") rootKeys).run.run {} with
    | (.error (.rejected err),c) => (.rejected err,c)
    | (.error (.thrown what),c) => (.thrown what,c)
    | (.ok (),c) =>
      match (loadSections yaml (.map entries)).run.run c with
      | (.error (.rejected err),c) => (.rejected err,c)
      | (.error (.thrown what),c) =>
        (.rejected (str "error parsing '" ++ path ++ str "': " ++ what),c)
      | (.ok lcmExplicit,c) =>
        match validateConfig (deriveLcmPath lcmExplicit c) with
        | .error err => (.rejected err,deriveLcmPath lcmExplicit c)
        | .ok () => (.accepted,deriveLcmPath lcmExplicit c)
  | .ok _ => (.rejected (str "top level of '" ++ path ++ str "' must be a mapping"),{})

theorem validateConfig_of_accepted {path : Str} {out c : ControllerConfig}
    (h : loadConfig yaml path out = (.accepted,c)) : validateConfig c = .ok () := by
  unfold loadConfig at h
  repeat' split at h
  all_goals first | cases h; assumption | cases h

structure Checked (c : ControllerConfig) : Prop where
  radio : c.radio.validate = .ok ()
  header : 64 < c.shm.sizeBytes.toNat
  row : c.radio.rowBytes.toNat ≤ (c.shm.sizeBytes.toNat - 64) / 2
  scale : c.shm.cbf16Scale.isPositive = true

theorem checked_of_validateConfig {c : ControllerConfig} (h : validateConfig c = .ok ()) :
    Checked c := by
  unfold validateConfig at h
  split at h
  · cases h
  next hradio =>
    split_ifs at h with hsize hscale hslot
    simp only [Bool.or_eq_true,decide_eq_true_eq,not_or,UInt64.not_le,UInt64.not_lt] at hsize
    have hheader : 64 < c.shm.sizeBytes.toNat := UInt64.lt_iff_toNat_lt.mp hsize.1
    refine ⟨hradio,hheader,?_,by simpa using hscale⟩
    have hrow := UInt64.le_iff_toNat_le.mp hsize.2
    have hle : kHeaderBytes ≤ c.shm.sizeBytes := UInt64.le_of_lt hsize.1
    rwa [UInt64.toNat_div,UInt64.toNat_sub_of_le _ _ hle] at hrow

theorem checked_of_accepted {path : Str} {out c : ControllerConfig}
    (h : loadConfig yaml path out = (.accepted,c)) : Checked c :=
  checked_of_validateConfig (validateConfig_of_accepted yaml h)

def decimal (text : Str) : Option ℕ :=
  if text.isEmpty then none
  else text.foldl (fun acc d =>
    acc.bind fun n => if 48 ≤ d ∧ d ≤ 57 then some (10 * n + (d.toNat - 48)) else none) (some 0)

def bounded {T : Type} (limit : ℕ) (make : ℕ → T) : Node → Except Str T
  | .scalar text =>
    match decimal text with
    | some n => if n < limit then .ok (make n) else .error (str "bad conversion")
    | none => .error (str "bad conversion")
  | _ => .error (str "bad conversion")

def decimalYaml (doc : Node) : Yaml where
  loadFile _ := .ok doc
  badSubscript := str "operator[] call on a scalar"
  asString
    | .scalar text => .ok text
    | _ => .error (str "bad conversion")
  asU16 := bounded (2 ^ 16) UInt16.ofNat
  asU64 := bounded (2 ^ 64) UInt64.ofNat
  asF32 _ := .error (str "bad conversion")
  asInt := bounded (2 ^ 31) Int.ofNat

def sectionDoc (name : Str) (values : List (Str × Str)) : Node :=
  .map [(.scalar name,.map (values.map fun kv => (.scalar kv.1,.scalar kv.2)))]

end ConfigLoader
end E3Controller
