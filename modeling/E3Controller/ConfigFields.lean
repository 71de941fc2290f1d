import E3Controller.ConfigLoader

/-!
# The loader as a walk over a table of fields

Every value that `load_config` reads belongs to one field of the configuration. The body
of its `try` block is a fixed sequence of steps: a section's keys are checked, then its
fields are read one by one. A step fails, does nothing or assigns one field, and what it
does depends on the document alone, never on the values assigned before.
-/

namespace E3Controller
namespace ConfigLoader

open CString Config

/-- A field: the key it is given under, how its node is converted, and where it is stored. -/
structure Field where
  key : Str
  Value : Type
  read : Node → Except Failure Value
  assign : Value → ControllerConfig → ControllerConfig
  value : ControllerConfig → Value

/-- A section of the document and its fields, in the order in which they are read. -/
structure Section where
  name : Str
  fields : List Field

structure Assignment where
  field : Field
  value : field.Value

def Assignment.apply (a : Assignment) (c : ControllerConfig) : ControllerConfig :=
  a.field.assign a.value c

abbrev Step := Except Failure (Option Assignment)

/-- Take the steps in order; the first one that fails ends the walk. -/
def exec : List Step → ControllerConfig → Except Failure Unit × ControllerConfig
  | [], c => (.ok (),c)
  | .error e :: _, c => (.error e,c)
  | .ok none :: steps, c => exec steps c
  | .ok (some a) :: steps, c => exec steps (a.apply c)

theorem exec_append (steps steps' : List Step) (c : ControllerConfig) :
    exec (steps ++ steps') c =
      match exec steps c with
      | (.error e,c') => (.error e,c')
      | (.ok _,c') => exec steps' c' := by
  induction steps generalizing c with
  | nil => rfl
  | cons s steps ih =>
    rcases s with e | (_ | a)
    · rfl
    · exact ih c
    · exact ih _

def readBefore : List Step → List Assignment
  | [] => []
  | .error _ :: _ => []
  | .ok none :: steps => readBefore steps
  | .ok (some a) :: steps => a :: readBefore steps

def applyAll (as : List Assignment) (c : ControllerConfig) : ControllerConfig :=
  as.foldl (fun c a => a.apply c) c

theorem exec_snd (steps : List Step) (c : ControllerConfig) :
    (exec steps c).2 = applyAll (readBefore steps) c := by
  induction steps generalizing c with
  | nil => rfl
  | cons s steps ih =>
    rcases s with e | (_ | a)
    · rfl
    · exact ih c
    · exact ih _

theorem exec_fails_iff (steps : List Step) (c : ControllerConfig) :
    (∃ e, (exec steps c).1 = .error e) ↔ ∃ e, .error e ∈ steps := by
  induction steps generalizing c with
  | nil => simp [exec]
  | cons s steps ih =>
    rcases s with e | (_ | a)
    · simp [exec]
    · rw [exec,ih c]
      simp
    · rw [exec,ih _]
      simp

theorem mem_readBefore {steps : List Step} (h : ¬ ∃ e, .error e ∈ steps) {a : Assignment} :
    a ∈ readBefore steps ↔ .ok (some a) ∈ steps := by
  induction steps with
  | nil => simp [readBefore]
  | cons s steps ih =>
    have hrest : ¬ ∃ e, .error e ∈ steps := fun ⟨e,he⟩ => h ⟨e,List.mem_cons_of_mem _ he⟩
    rcases s with e | (_ | b)
    · exact absurd ⟨e,List.mem_cons_self ..⟩ h
    · rw [readBefore,ih hrest]
      simp
    · rw [readBefore,List.mem_cons,ih hrest]
      simp

theorem readBefore_append_sublist (steps steps' : List Step) :
    (readBefore (steps ++ steps')).Sublist (readBefore steps ++ readBefore steps') := by
  induction steps with
  | nil => exact List.Sublist.refl _
  | cons s steps ih =>
    rcases s with e | (_ | a)
    · exact List.nil_sublist _
    · exact ih
    · exact ih.cons_cons a

/-- The computation takes these steps and then returns `r`. -/
def Does {T : Type} (m : Load T) (steps : List Step) (r : T) : Prop :=
  ∀ c, m.run.run c = ((exec steps c).1.map fun _ => r,(exec steps c).2)

theorem does_pure {T : Type} (r : T) : Does (pure r) [] r := fun _ => rfl

theorem does_bind {T U : Type} {m : Load T} {k : T → Load U} {steps steps' : List Step} {r : T}
    {r' : U} (hm : Does m steps r) (hk : Does (k r) steps' r') :
    Does (m >>= k) (steps ++ steps') r' := by
  intro c
  rw [exec_append]
  have hrun : (m >>= k).run.run c =
      match m.run.run c with
      | (.ok x,c') => (k x).run.run c'
      | (.error e,c') => (.error e,c') := by
    change (ExceptT.bindCont k (m.run.run c).1).run (m.run.run c).2 = _
    rcases m.run.run c with ⟨e | x,c'⟩
    · rfl
    · rfl
  rw [hrun,hm c]
  rcases exec steps c with ⟨e | x,c'⟩
  · rfl
  · exact hk c'

theorem does_bind_fails {T U : Type} {m : Load T} {k : T → Load U} {e : Failure} {r : T}
    (hm : Does m [.error e] r) (steps' : List Step) (r' : U) :
    Does (m >>= k) (.error e :: steps') r' := by
  intro c
  change (ExceptT.bindCont k (m.run.run c).1).run (m.run.run c).2 = _
  rw [hm c]
  rfl

section Table

variable (yaml : Yaml)

def converted {T : Type} (as : Node → Except Str T) (n : Node) : Except Failure T :=
  (as n).mapError .thrown

def parsed {T : Type} (parse : Str → Except Str T) (n : Node) : Except Failure T :=
  match converted yaml.asString n with
  | .error e => .error e
  | .ok text => (parse text).mapError .rejected

def radioSection : Section where
  name := str "radio"
  fields := [
    ⟨str "nof_ports",UInt16,converted yaml.asU16,fun x c => { c with radio.nofPorts := x },
      fun c => c.radio.nofPorts⟩,
    ⟨str "nof_prbs",UInt16,converted yaml.asU16,fun x c => { c with radio.nofPrbs := x },
      fun c => c.radio.nofPrbs⟩,
    ⟨str "nof_symbols",UInt16,converted yaml.asU16,fun x c => { c with radio.nofSymbols := x },
      fun c => c.radio.nofSymbols⟩,
    ⟨str "scs_khz",UInt16,converted yaml.asU16,fun x c => { c with radio.scsKhz := x },
      fun c => c.radio.scsKhz⟩]

def shmSection : Section where
  name := str "shm"
  fields := [
    ⟨str "name",Str,converted yaml.asString,fun x c => { c with shm.name := x },
      fun c => c.shm.name⟩,
    ⟨str "size_bytes",UInt64,converted yaml.asU64,fun x c => { c with shm.sizeBytes := x },
      fun c => c.shm.sizeBytes⟩,
    ⟨str "cbf16_scale",F32,converted yaml.asF32,fun x c => { c with shm.cbf16Scale := x },
      fun c => c.shm.cbf16Scale⟩,
    ⟨str "writer",ShmWriter,parsed yaml parseWriter,fun x c => { c with shm.writer := x },
      fun c => c.shm.writer⟩]

/-- The socket path, which is derived from the run path when it is not given. -/
def lcmField : Field :=
  ⟨str "lcm_socket_path",Str,converted yaml.asString,fun x c => { c with jbpf.lcmSocketPath := x },
    fun c => c.jbpf.lcmSocketPath⟩

def jbpfSection : Section where
  name := str "jbpf"
  fields := [
    ⟨str "ipc_name",Str,converted yaml.asString,fun x c => { c with jbpf.ipcName := x },
      fun c => c.jbpf.ipcName⟩,
    ⟨str "run_path",Str,converted yaml.asString,fun x c => { c with jbpf.runPath := x },
      fun c => c.jbpf.runPath⟩,
    ⟨str "mem_size_bytes",UInt64,converted yaml.asU64,fun x c => { c with jbpf.memSizeBytes := x },
      fun c => c.jbpf.memSizeBytes⟩,
    lcmField yaml,
    ⟨str "codelet_base_path",Str,converted yaml.asString,
      fun x c => { c with jbpf.codeletBasePath := x },fun c => c.jbpf.codeletBasePath⟩]

def e3Section : Section where
  name := str "e3"
  fields := [
    ⟨str "encoding",EncodingFormat,parsed yaml parseEncoding,fun x c => { c with e3.encoding := x },
      fun c => c.e3.encoding⟩,
    ⟨str "link_layer",LinkLayer,parsed yaml parseLinkLayer,fun x c => { c with e3.linkLayer := x },
      fun c => c.e3.linkLayer⟩,
    ⟨str "transport",TransportLayer,parsed yaml parseTransport,
      fun x c => { c with e3.transport := x },fun c => c.e3.transport⟩,
    ⟨str "setup_port",UInt16,converted yaml.asU16,fun x c => { c with e3.setupPort := x },
      fun c => c.e3.setupPort⟩,
    ⟨str "publisher_port",UInt16,converted yaml.asU16,fun x c => { c with e3.publisherPort := x },
      fun c => c.e3.publisherPort⟩,
    ⟨str "subscriber_port",UInt16,converted yaml.asU16,fun x c => { c with e3.subscriberPort := x },
      fun c => c.e3.subscriberPort⟩]

def threadsSection : Section where
  name := str "threads"
  fields := [
    ⟨str "poll_core",Int,converted yaml.asInt,fun x c => { c with threads.pollCore := x },
      fun c => c.threads.pollCore⟩,
    ⟨str "worker_core",Int,converted yaml.asInt,fun x c => { c with threads.workerCore := x },
      fun c => c.threads.workerCore⟩,
    ⟨str "publisher_core",Int,converted yaml.asInt,fun x c => { c with threads.publisherCore := x },
      fun c => c.threads.publisherCore⟩,
    ⟨str "poll_interval_us",Int,converted yaml.asInt,
      fun x c => { c with threads.pollIntervalUs := x },fun c => c.threads.pollIntervalUs⟩]

def loggingSection : Section where
  name := str "logging"
  fields := [
    ⟨str "drops_log_path",Str,converted yaml.asString,
      fun x c => { c with logging.dropsLogPath := x },fun c => c.logging.dropsLogPath⟩,
    ⟨str "spectrum_stats_log_path",Str,converted yaml.asString,
      fun x c => { c with logging.spectrumStatsLogPath := x },
      fun c => c.logging.spectrumStatsLogPath⟩,
    ⟨str "latrec_dir",Str,converted yaml.asString,fun x c => { c with logging.latrecDir := x },
      fun c => c.logging.latrecDir⟩]

def targetSlotField : Field :=
  ⟨str "target_slot",Int,converted yaml.asInt,fun x c => { c with targetSlot := x },
    fun c => c.targetSlot⟩

def sections : List Section :=
  [radioSection yaml,shmSection yaml,jbpfSection yaml,e3Section yaml,threadsSection yaml,
    loggingSection yaml]

def allFields : List Field := (sections yaml).flatMap Section.fields ++ [targetSlotField yaml]

def keyCheck (sectionName : Str) (allowed : List Str) : List (Node × Node) → Except Failure Unit
  | [] => .ok ()
  | kv :: rest =>
    match yaml.asString kv.1 with
    | .error what => .error (.thrown what)
    | .ok key =>
      if allowed.contains key then keyCheck sectionName allowed rest
      else .error (.rejected (unknownKey sectionName key))

def nodeCheck (sectionName : Str) (allowed : List Str) : Node → Except Failure Unit
  | .map entries => keyCheck yaml sectionName allowed entries
  | _ => .ok ()

def readStep (n : Node) (f : Field) : Step :=
  match n.index yaml f.key with
  | .error what => .error (.thrown what)
  | .ok none => .ok none
  | .ok (some v) => (f.read v).map fun x => some ⟨f,x⟩

def Section.steps (s : Section) (n : Node) : List Step :=
  ((nodeCheck yaml s.name (s.fields.map Field.key) n).map fun _ => none) ::
    s.fields.map (readStep yaml n)

/-- The steps for a section of the root; none if the document does not have it. -/
def sectionSteps (root : Node) (s : Section) : List Step :=
  match root.index yaml s.name with
  | .error what => [.error (.thrown what)]
  | .ok none => []
  | .ok (some n) => s.steps yaml n

def rootSteps (root : Node) : List Step :=
  (sections yaml).flatMap (sectionSteps yaml root) ++ [readStep yaml root (targetSlotField yaml)]

def lcmGiven (n : Node) : Bool :=
  match n.index yaml (str "lcm_socket_path") with
  | .ok (some _) => true
  | _ => false

def lcmExplicit (root : Node) : Bool :=
  match root.index yaml (str "jbpf") with
  | .ok (some n) => lcmGiven yaml n
  | _ => false

/-! ## The loader takes these steps -/

theorem does_checkKeysIn (sectionName : Str) (allowed : List Str) (entries : List (Node × Node)) :
    Does (checkKeysIn yaml sectionName allowed entries)
      [(keyCheck yaml sectionName allowed entries).map fun _ => none] () := by
  induction entries with
  | nil => exact fun c => rfl
  | cons kv rest ih =>
    intro c
    simp only [checkKeysIn,keyCheck]
    cases yaml.asString kv.1 with
    | error what => rfl
    | ok key =>
      rw [thrown,pure_bind]
      by_cases hkey : key ∈ allowed
      · simp only [if_pos hkey,List.contains_iff_mem]
        exact ih c
      · simp only [if_neg hkey,List.contains_iff_mem]
        rfl

theorem does_checkKeys (n : Node) (sectionName : Str) (allowed : List Str) :
    Does (checkKeys yaml n sectionName allowed)
      [(nodeCheck yaml sectionName allowed n).map fun _ => none] () := by
  cases n with
  | map entries => exact does_checkKeysIn yaml sectionName allowed entries
  | null => exact fun c => rfl
  | scalar text => exact fun c => rfl
  | sequence items => exact fun c => rfl

theorem does_get {T : Type} (as : Node → Except Str T) (n : Node) (key : Str)
    (assign : T → ControllerConfig → ControllerConfig) (value : ControllerConfig → T) :
    Does (get yaml as n key assign) [readStep yaml n ⟨key,T,converted as,assign,value⟩] () := by
  intro c
  simp only [get,readStep,converted]
  rcases n.index yaml key with what | (_ | v)
  · rfl
  · rfl
  · rw [thrown,pure_bind]
    simp only
    cases as v with
    | error what => rfl
    | ok x => rfl

theorem does_getParsed {T : Type} (parse : Str → Except Str T) (n : Node) (key : Str)
    (assign : T → ControllerConfig → ControllerConfig) (value : ControllerConfig → T) :
    Does (getParsed yaml parse n key assign)
      [readStep yaml n ⟨key,T,parsed yaml parse,assign,value⟩] () := by
  intro c
  simp only [getParsed,readStep,parsed,converted]
  rcases n.index yaml key with what | (_ | v)
  · rfl
  · rfl
  · rw [thrown,pure_bind]
    simp only
    cases yaml.asString v with
    | error what => rfl
    | ok text =>
      rw [thrown,pure_bind]
      simp only [Except.mapError]
      cases parse text with
      | error err => rfl
      | ok x => rfl

theorem does_loadRadio (n : Node) :
    Does (loadRadio yaml n) ((radioSection yaml).steps yaml n) () :=
  does_bind (does_checkKeys yaml n _ _) (does_bind (does_get yaml yaml.asU16 n _ _ _)
    (does_bind (does_get yaml yaml.asU16 n _ _ _) (does_bind (does_get yaml yaml.asU16 n _ _ _)
      (does_get yaml yaml.asU16 n _ _ _))))

theorem does_loadShm (n : Node) : Does (loadShm yaml n) ((shmSection yaml).steps yaml n) () :=
  does_bind (does_checkKeys yaml n _ _) (does_bind (does_get yaml yaml.asString n _ _ _)
    (does_bind (does_get yaml yaml.asU64 n _ _ _) (does_bind (does_get yaml yaml.asF32 n _ _ _)
      (does_getParsed yaml parseWriter n _ _ _))))

theorem does_loadE3 (n : Node) : Does (loadE3 yaml n) ((e3Section yaml).steps yaml n) () :=
  does_bind (does_checkKeys yaml n _ _) (does_bind (does_getParsed yaml parseEncoding n _ _ _)
    (does_bind (does_getParsed yaml parseLinkLayer n _ _ _)
      (does_bind (does_getParsed yaml parseTransport n _ _ _)
        (does_bind (does_get yaml yaml.asU16 n _ _ _) (does_bind (does_get yaml yaml.asU16 n _ _ _)
          (does_get yaml yaml.asU16 n _ _ _))))))

theorem does_loadThreads (n : Node) :
    Does (loadThreads yaml n) ((threadsSection yaml).steps yaml n) () :=
  does_bind (does_checkKeys yaml n _ _) (does_bind (does_get yaml yaml.asInt n _ _ _)
    (does_bind (does_get yaml yaml.asInt n _ _ _) (does_bind (does_get yaml yaml.asInt n _ _ _)
      (does_get yaml yaml.asInt n _ _ _))))

theorem does_loadLogging (n : Node) :
    Does (loadLogging yaml n) ((loggingSection yaml).steps yaml n) () :=
  does_bind (does_checkKeys yaml n _ _) (does_bind (does_get yaml yaml.asString n _ _ _)
    (does_bind (does_get yaml yaml.asString n _ _ _) (does_get yaml yaml.asString n _ _ _)))

/-- The socket path is looked up a second time, which cannot fail where the first look-up
did not. -/
theorem does_lcm (n : Node) {U : Type} {k : Bool → Load U} {steps : List Step} {r : U}
    (hk : Does (k (lcmGiven yaml n)) steps r) :
    Does (do
      get yaml yaml.asString n (str "lcm_socket_path") fun x c => { c with jbpf.lcmSocketPath := x }
      let explicit ← thrown (n.index yaml (str "lcm_socket_path"))
      k explicit.isSome) (readStep yaml n (lcmField yaml) :: steps) r := by
  have hget := does_get yaml yaml.asString n (str "lcm_socket_path")
    (fun x c => { c with jbpf.lcmSocketPath := x }) fun c => c.jbpf.lcmSocketPath
  cases hindex : n.index yaml (str "lcm_socket_path") with
  | error what =>
    have hstep : readStep yaml n (lcmField yaml) = .error (.thrown what) := by
      rw [readStep,show (lcmField yaml).key = str "lcm_socket_path" from rfl,hindex]
    have hfail : Does (get yaml yaml.asString n (str "lcm_socket_path")
        fun x c => { c with jbpf.lcmSocketPath := x }) [.error (.thrown what)] () := hstep ▸ hget
    rw [hstep]
    exact does_bind_fails hfail steps r
  | ok o =>
    have hgiven : lcmGiven yaml n = o.isSome := by
      rw [lcmGiven,hindex]
      cases o <;> rfl
    apply does_bind hget
    rw [thrown,pure_bind,← hgiven]
    exact hk

theorem does_loadJbpf (n : Node) :
    Does (loadJbpf yaml n) ((jbpfSection yaml).steps yaml n) (lcmGiven yaml n) := by
  refine does_bind (does_checkKeys yaml n _ _) (does_bind (does_get yaml yaml.asString n _ _ _)
    (does_bind (does_get yaml yaml.asString n _ _ _) (does_bind (does_get yaml yaml.asU64 n _ _ _) ?_)))
  exact does_lcm yaml n
    (k := fun explicit => do
      get yaml yaml.asString n (str "codelet_base_path")
        fun x c => { c with jbpf.codeletBasePath := x }
      pure explicit)
    (does_bind (does_get yaml yaml.asString n _ _ _) (does_pure (lcmGiven yaml n)))

theorem does_inSection {T : Type} (root : Node) (s : Section) (absent : T) {load : Node → Load T}
    {r : Node → T} (hload : ∀ n, Does (load n) (s.steps yaml n) (r n)) :
    Does (inSection yaml root s.name absent load) (sectionSteps yaml root s)
      (match root.index yaml s.name with
        | .ok (some n) => r n
        | _ => absent) := by
  unfold inSection sectionSteps
  rcases root.index yaml s.name with what | (_ | n)
  · exact fun c => rfl
  · exact fun c => rfl
  · exact hload n

/-- The body of the `try` block is the walk. -/
theorem does_loadSections (root : Node) :
    Does (loadSections yaml root) (rootSteps yaml root) (lcmExplicit yaml root) := by
  have hradio := does_inSection yaml root (radioSection yaml) () (does_loadRadio yaml)
  have hshm := does_inSection yaml root (shmSection yaml) () (does_loadShm yaml)
  have hjbpf := does_inSection yaml root (jbpfSection yaml) false (does_loadJbpf yaml)
  have he3 := does_inSection yaml root (e3Section yaml) () (does_loadE3 yaml)
  have hthreads := does_inSection yaml root (threadsSection yaml) () (does_loadThreads yaml)
  have hlogging := does_inSection yaml root (loggingSection yaml) () (does_loadLogging yaml)
  have hslot := does_get yaml yaml.asInt root (str "target_slot")
    (fun x c => { c with targetSlot := x }) fun c => c.targetSlot
  simp only [rootSteps,sections,List.flatMap_cons,List.flatMap_nil,List.append_assoc,List.append_nil]
  unfold loadSections
  exact does_bind hradio (does_bind hshm (does_bind hjbpf (does_bind he3 (does_bind hthreads
    (does_bind hlogging (does_bind hslot (does_pure (lcmExplicit yaml root))))))))

/-! ## Fields are independent -/

/-- Storing a value is undone by reading it, and reading by storing. -/
def Field.Lawful (f : Field) : Prop :=
  (∀ x c, f.value (f.assign x c) = x) ∧ ∀ c, f.assign (f.value c) c = c

def Field.Unaffected (f g : Field) : Prop := ∀ x c, f.value (g.assign x c) = f.value c

theorem allFields_lawful : ∀ f ∈ allFields yaml, f.Lawful := by
  simp only [allFields,sections,radioSection,shmSection,jbpfSection,lcmField,e3Section,threadsSection,
    loggingSection,targetSlotField,List.flatMap_cons,List.flatMap_nil,List.cons_append,
    List.nil_append,List.append_nil,List.forall_mem_cons]
  refine ⟨?_,?_,?_,?_,?_,?_,?_,?_,?_,?_,?_,?_,?_,?_,?_,?_,?_,?_,?_,?_,?_,?_,?_,?_,?_,?_,?_,?_⟩
  all_goals first | exact ⟨fun _ _ => rfl,fun _ => rfl⟩ | exact List.forall_mem_nil _

theorem allFields_unaffected : (allFields yaml).Pairwise Field.Unaffected := by
  simp only [allFields,sections,radioSection,shmSection,jbpfSection,lcmField,e3Section,threadsSection,
    loggingSection,targetSlotField,List.flatMap_cons,List.flatMap_nil,List.cons_append,
    List.nil_append,List.append_nil]
  repeat' first
    | exact List.Pairwise.nil
    | refine List.Pairwise.cons (List.forall_mem_cons.mpr ⟨fun _ _ => rfl,?_⟩) ?_
    | refine List.forall_mem_cons.mpr ⟨fun _ _ => rfl,?_⟩
    | exact List.forall_mem_nil _
    | refine List.Pairwise.cons (List.forall_mem_nil _) ?_

theorem readBefore_reads (n : Node) (fields : List Field) :
    ((readBefore (fields.map (readStep yaml n))).map Assignment.field).Sublist fields := by
  induction fields with
  | nil => exact List.Sublist.refl _
  | cons f fields ih =>
    have hstep : (∃ e, readStep yaml n f = .error e) ∨ readStep yaml n f = .ok none ∨
        ∃ x, readStep yaml n f = .ok (some ⟨f,x⟩) := by
      unfold readStep
      rcases n.index yaml f.key with what | (_ | v)
      · exact .inl ⟨_,rfl⟩
      · exact .inr (.inl rfl)
      · simp only
        cases f.read v with
        | error e => exact .inl ⟨e,rfl⟩
        | ok x => exact .inr (.inr ⟨x,rfl⟩)
    rw [List.map_cons]
    rcases hstep with ⟨e,h⟩ | h | ⟨x,h⟩
    · rw [h]
      exact List.nil_sublist _
    · rw [h]
      exact ih.cons f
    · rw [h]
      exact ih.cons_cons f

theorem readBefore_section (root : Node) (s : Section) :
    ((readBefore (sectionSteps yaml root s)).map Assignment.field).Sublist s.fields := by
  unfold sectionSteps
  rcases root.index yaml s.name with what | (_ | n)
  · exact List.nil_sublist _
  · exact List.nil_sublist _
  · simp only [Section.steps]
    cases nodeCheck yaml s.name (s.fields.map Field.key) n with
    | error e => exact List.nil_sublist _
    | ok u => exact readBefore_reads yaml n s.fields

theorem readBefore_sublist (root : Node) :
    ((readBefore (rootSteps yaml root)).map Assignment.field).Sublist (allFields yaml) := by
  have hsections : ∀ ss : List Section,
      ((readBefore (ss.flatMap (sectionSteps yaml root))).map Assignment.field).Sublist
        (ss.flatMap Section.fields) := by
    intro ss
    induction ss with
    | nil => exact List.Sublist.refl _
    | cons s ss ih =>
      rw [List.flatMap_cons,List.flatMap_cons]
      refine ((readBefore_append_sublist _ _).map _).trans ?_
      rw [List.map_append]
      exact (readBefore_section yaml root s).append ih
  refine ((readBefore_append_sublist _ _).map _).trans ?_
  rw [List.map_append]
  exact (hsections _).append (readBefore_reads yaml root [targetSlotField yaml])

end Table

section Applied

variable {as : List Assignment}

theorem applyAll_unaffected {f : Field} (h : ∀ a ∈ as, f.Unaffected a.field) (c : ControllerConfig) :
    f.value (applyAll as c) = f.value c := by
  induction as generalizing c with
  | nil => rfl
  | cons a as ih =>
    have hrest := ih (fun b hb => h b (List.mem_cons_of_mem _ hb)) (a.apply c)
    exact hrest.trans (h a (List.mem_cons_self ..) a.value c)

theorem applyAll_value (hlaw : ∀ a ∈ as, a.field.Lawful)
    (hind : (as.map Assignment.field).Pairwise Field.Unaffected) (c : ControllerConfig) :
    ∀ a ∈ as, a.field.value (applyAll as c) = a.value := by
  induction as generalizing c with
  | nil => exact List.forall_mem_nil _
  | cons a as ih =>
    rw [List.map_cons,List.pairwise_cons] at hind
    intro b hb
    rcases List.mem_cons.mp hb with rfl | hb
    · have hlater : ∀ d ∈ as, b.field.Unaffected d.field :=
        fun d hd => hind.1 d.field (List.mem_map_of_mem hd)
      have hkept := applyAll_unaffected hlater (b.apply c)
      exact hkept.trans ((hlaw b (List.mem_cons_self ..)).1 b.value c)
    · exact ih (fun d hd => hlaw d (List.mem_cons_of_mem _ hd)) hind.2 (a.apply c) b hb

/-- Nothing has changed exactly if every assigned value was there before. -/
theorem applyAll_eq_iff (hlaw : ∀ a ∈ as, a.field.Lawful)
    (hind : (as.map Assignment.field).Pairwise Field.Unaffected) (c : ControllerConfig) :
    applyAll as c = c ↔ ∀ a ∈ as, a.value = a.field.value c := by
  constructor
  · intro h a ha
    have hvalue := applyAll_value hlaw hind c a ha
    rw [h] at hvalue
    exact hvalue.symm
  · intro h
    induction as with
    | nil => rfl
    | cons a as ih =>
      rw [List.map_cons,List.pairwise_cons] at hind
      have happly : a.apply c = c := by
        rw [Assignment.apply,h a (List.mem_cons_self ..)]
        exact (hlaw a (List.mem_cons_self ..)).2 c
      change applyAll as (a.apply c) = c
      rw [happly]
      exact ih (fun d hd => hlaw d (List.mem_cons_of_mem _ hd)) hind.2
        fun d hd => h d (List.mem_cons_of_mem _ hd)

end Applied

section Reads

variable (yaml : Yaml) (root : Node)

theorem readBefore_lawful : ∀ a ∈ readBefore (rootSteps yaml root), a.field.Lawful := fun a ha =>
  allFields_lawful yaml a.field ((readBefore_sublist yaml root).subset (List.mem_map_of_mem ha))

theorem readBefore_unaffected :
    ((readBefore (rootSteps yaml root)).map Assignment.field).Pairwise Field.Unaffected :=
  (allFields_unaffected yaml).sublist (readBefore_sublist yaml root)

end Reads

end ConfigLoader
end E3Controller
