import Mathlib.Data.List.Induction
import Mathlib.Data.List.Nodup
import E3Controller.ConfigFields

/-!
# What a load leaves behind

Two questions about `load_config`: whether a rejected file leaves any of its values in
the configuration, and whether an accepted file has had all its values read. The
leaves of a document are its scalars, each with the path of keys that leads to it.
-/

namespace E3Controller
namespace ConfigLoader

open CString Config

section Rejected

variable (yaml : Yaml)

theorem loadConfig_map {path : Str} {entries : List (Node × Node)}
    (h : yaml.loadFile path = .ok (.map entries)) (out : ControllerConfig) :
    loadConfig yaml path out =
      match keyCheck yaml (str "<root>") rootKeys entries with
      | .error (.rejected err) => (.rejected err,{})
      | .error (.thrown what) => (.thrown what,{})
      | .ok () =>
        match exec (rootSteps yaml (.map entries)) {} with
        | (.error (.rejected err),c) => (.rejected err,c)
        | (.error (.thrown what),c) =>
          (.rejected (str "error parsing '" ++ path ++ str "': " ++ what),c)
        | (.ok (),c) =>
          match validateConfig (deriveLcmPath (lcmExplicit yaml (.map entries)) c) with
          | .error err => (.rejected err,deriveLcmPath (lcmExplicit yaml (.map entries)) c)
          | .ok () => (.accepted,deriveLcmPath (lcmExplicit yaml (.map entries)) c) := by
  have hcheck := does_checkKeys yaml (.map entries) (str "<root>") rootKeys {}
  have hwalk := does_loadSections yaml (.map entries) {}
  unfold loadConfig
  rw [h]
  simp only [hcheck,nodeCheck]
  rcases keyCheck yaml (str "<root>") rootKeys entries with (err | what) | u
  · rfl
  · rfl
  · simp only [Except.map,exec,hwalk]
    rcases exec (rootSteps yaml (.map entries)) {} with ⟨(err | what) | u,c⟩
    · rfl
    · rfl
    · rfl

/-- The load fails before the final checks, and what it read before that are defaults. -/
def NothingKept (path : Str) : Prop :=
  match yaml.loadFile path with
  | .ok (.map entries) =>
    (∃ e, keyCheck yaml (str "<root>") rootKeys entries = .error e) ∨
      ((∃ e, .error e ∈ rootSteps yaml (.map entries)) ∧
        ∀ a ∈ readBefore (rootSteps yaml (.map entries)), a.value = a.field.value {})
  | _ => True

theorem validateConfig_default : validateConfig {} = .ok () := by
  decide +kernel

theorem derived_ne_default {explicit : Bool} {c : ControllerConfig} {err : Str}
    (h : validateConfig (deriveLcmPath explicit c) = .error err) : deriveLcmPath explicit c ≠ {} := by
  intro hdefault
  rw [hdefault,validateConfig_default] at h
  cases h

theorem walk_default_iff (root : Node) {e : Except Failure Unit} {c : ControllerConfig}
    (h : exec (rootSteps yaml root) {} = (e,c)) :
    c = {} ↔ ∀ a ∈ readBefore (rootSteps yaml root), a.value = a.field.value {} := by
  have hc : c = applyAll (readBefore (rootSteps yaml root)) {} := by
    rw [← exec_snd,h]
  rw [hc]
  exact applyAll_eq_iff (readBefore_lawful yaml root) (readBefore_unaffected yaml root) {}

theorem kept_of_not_map {path : Str} (h : ¬ ∃ entries, yaml.loadFile path = .ok (.map entries))
    (out : ControllerConfig) : (loadConfig yaml path out).2 = {} ∧ NothingKept yaml path := by
  unfold loadConfig NothingKept
  rcases hload : yaml.loadFile path with what | (_ | text | items | entries)
  · exact ⟨rfl,trivial⟩
  · exact ⟨rfl,trivial⟩
  · exact ⟨rfl,trivial⟩
  · exact ⟨rfl,trivial⟩
  · exact absurd ⟨entries,hload⟩ h

/-- A rejected load leaves the default configuration exactly if it kept nothing, and no load
depends on what the configuration held before. -/
theorem rejected_default_iff (path : Str) :
    (∀ out err c, loadConfig yaml path out = (.rejected err,c) → (c = {} ↔ NothingKept yaml path)) ∧
      ∀ out out', loadConfig yaml path out = loadConfig yaml path out' := by
  refine ⟨fun out err c h => ?_,fun out out' => rfl⟩
  by_cases hmap : ∃ entries, yaml.loadFile path = .ok (.map entries)
  · obtain ⟨entries,hload⟩ := hmap
    rw [loadConfig_map yaml hload] at h
    rw [NothingKept,hload]
    simp only
    rcases hkeys : keyCheck yaml (str "<root>") rootKeys entries with (e | what) | u
    · rw [hkeys] at h
      exact iff_of_true (Prod.mk.inj h).2.symm (.inl ⟨_,rfl⟩)
    · rw [hkeys] at h
      exact absurd (Prod.mk.inj h).1 nofun
    · rw [hkeys] at h
      have hno : ¬ ∃ e, (Except.ok u : Except Failure Unit) = .error e := nofun
      rw [or_iff_right hno]
      rcases hwalk : exec (rootSteps yaml (.map entries)) {} with ⟨e | v,c'⟩
      · have hfails : ∃ e, .error e ∈ rootSteps yaml (.map entries) :=
          (exec_fails_iff _ {}).mp ⟨e,by rw [hwalk]⟩
        have hc : c' = c := by
          rw [hwalk] at h
          cases e with
          | rejected err' => exact (Prod.mk.inj h).2
          | thrown what => exact (Prod.mk.inj h).2
        rw [← hc,walk_default_iff yaml _ hwalk]
        exact ⟨fun hall => ⟨hfails,hall⟩,And.right⟩
      · have hok : ¬ ∃ e, .error e ∈ rootSteps yaml (.map entries) := by
          rw [← exec_fails_iff _ {},hwalk]
          exact nofun
        rw [hwalk] at h
        simp only at h
        split at h
        next err' hvalid =>
          have hc : deriveLcmPath (lcmExplicit yaml (.map entries)) c' = c := (Prod.mk.inj h).2
          exact iff_of_false (hc ▸ derived_ne_default hvalid) fun hkept => hok hkept.1
        next => exact absurd (Prod.mk.inj h).1 nofun
  · obtain ⟨hdefault,hkept⟩ := kept_of_not_map yaml hmap out
    rw [h] at hdefault
    exact iff_of_true hdefault hkept

end Rejected

def misspeltDoc : Node := sectionDoc (str "radios") [(str "nof_ports",str "2")]

theorem rejected_default_iff_misspelt :
    ∃ err, loadConfig (decimalYaml misspeltDoc) [] {} = (.rejected err,{}) := by
  obtain ⟨err,c,h⟩ : ∃ err c, loadConfig (decimalYaml misspeltDoc) [] {} = (.rejected err,c) :=
    ⟨_,_,rfl⟩
  have hkept : NothingKept (decimalYaml misspeltDoc) [] := .inl ⟨_,rfl⟩
  have hc : c = {} := ((rejected_default_iff (decimalYaml misspeltDoc) []).1 {} err c h).mpr hkept
  exact ⟨err,hc ▸ h⟩

def lateRejectDoc : Node :=
  .map [(.scalar (str "radio"),.map [(.scalar (str "nof_ports"),.scalar (str "2"))]),
    (.scalar (str "target_slot"),.scalar (str "99"))]

/-- The file is rejected for its slot, and its port count stays. -/
theorem rejected_file_keeps_ports :
    ∃ err c, loadConfig (decimalYaml lateRejectDoc) [] {} = (.rejected err,c) ∧
      c.radio.nofPorts = 2 ∧ c ≠ {} := by
  refine ⟨_,_,rfl,rfl,fun h => ?_⟩
  have hports := congrArg (fun c : ControllerConfig => c.radio.nofPorts) h
  exact absurd hports (by decide)

/-! ## Leaves -/

inductive PathItem
  | key (text : Str)
  | otherKey
  | index (i : ℕ)
  deriving DecidableEq

def Node.item : Node → PathItem
  | .scalar text => .key text
  | _ => .otherKey

abbrev Leaf := List PathItem × Str

def below (item : PathItem) (l : Leaf) : Leaf := (item :: l.1,l.2)

mutual

/-- The scalars of a document in document order; a null holds no value. -/
def leaves : Node → List Leaf
  | .null => []
  | .scalar text => [([],text)]
  | .sequence items => leavesIn 0 items
  | .map entries => leavesUnder entries

def leavesIn (i : ℕ) : List Node → List Leaf
  | [] => []
  | n :: rest => (leaves n).map (below (.index i)) ++ leavesIn (i + 1) rest

def leavesUnder : List (Node × Node) → List Leaf
  | [] => []
  | (k,v) :: rest => (leaves v).map (below k.item) ++ leavesUnder rest

end

theorem leavesUnder_eq (entries : List (Node × Node)) :
    leavesUnder entries = entries.flatMap fun kv => (leaves kv.2).map (below kv.1.item) := by
  induction entries with
  | nil => simp [leavesUnder]
  | cons kv rest ih => simp [leavesUnder,ih]

theorem mem_leaves_map {entries : List (Node × Node)} {l : Leaf} :
    l ∈ leaves (.map entries) ↔ ∃ kv ∈ entries, ∃ m ∈ leaves kv.2, l = below kv.1.item m := by
  rw [leaves,leavesUnder_eq]
  simp [eq_comm]

theorem mem_leavesIn {items : List Node} {i : ℕ} {l : Leaf} (h : l ∈ leavesIn i items) :
    ∃ j p, l.1 = .index j :: p := by
  induction items generalizing i with
  | nil => simp [leavesIn] at h
  | cons n rest ih =>
    rw [leavesIn,List.mem_append] at h
    rcases h with h | h
    · obtain ⟨m,-,rfl⟩ := List.mem_map.mp h
      exact ⟨i,m.1,rfl⟩
    · exact ih h

theorem hasKey_iff {n : Node} {key : Str} : n.hasKey key = true ↔ n = .scalar key := by
  cases n <;> simp [Node.hasKey]

/-- The node at a path, as the library finds it: the first entry with each key. -/
def nodeAt (yaml : Yaml) : Node → List PathItem → Option Node
  | n, [] => some n
  | n, .key k :: p =>
    match n.index yaml k with
    | .ok (some v) => nodeAt yaml v p
    | _ => none
  | _, _ :: _ => none

theorem index_map {yaml : Yaml} {entries : List (Node × Node)} {key : Str} :
    (Node.map entries).index yaml key =
      .ok ((entries.find? fun kv => kv.1.hasKey key).map Prod.snd) := rfl

theorem mem_leaves_of_nodeAt {yaml : Yaml} {p : List PathItem} {n : Node} {text : Str}
    (h : nodeAt yaml n p = some (.scalar text)) : (p,text) ∈ leaves n := by
  induction p generalizing n with
  | nil =>
    rw [nodeAt,Option.some.injEq] at h
    rw [h]
    simp [leaves]
  | cons item p ih =>
    cases item with
    | otherKey => simp [nodeAt] at h
    | index i => simp [nodeAt] at h
    | key k =>
      rw [nodeAt] at h
      cases n with
      | null => simp [Node.index] at h
      | scalar t => simp [Node.index] at h
      | sequence items => simp [Node.index] at h
      | map entries =>
        rw [index_map] at h
        cases hfind : entries.find? (fun kv => kv.1.hasKey k) with
        | none => simp [hfind] at h
        | some kv =>
          rw [hfind] at h
          have hfound := List.find?_some (p := fun kv : Node × Node => kv.1.hasKey k) hfind
          have hkey : kv.1 = .scalar k := hasKey_iff.mp hfound
          refine mem_leaves_map.mpr ⟨kv,List.mem_of_find?_eq_some hfind,(p,text),ih h,?_⟩
          rw [hkey]
          rfl

/-- An entry whose key was given before holds no leaf. -/
def NoShadowedLeaf (entries : List (Node × Node)) : Prop :=
  ∀ l₁ b l₂, entries = l₁ ++ b :: l₂ → (∃ a ∈ l₁, a.1 = b.1) → leaves b.2 = []

theorem NoShadowedLeaf.find {entries : List (Node × Node)} (h : NoShadowedLeaf entries)
    {kv : Node × Node} (hmem : kv ∈ entries) {key : Str} (hkey : kv.1 = .scalar key)
    (hleaf : leaves kv.2 ≠ []) : entries.find? (fun kv => kv.1.hasKey key) = some kv := by
  obtain ⟨l₁,l₂,rfl⟩ := List.append_of_mem hmem
  have hfirst : l₁.find? (fun kv => kv.1.hasKey key) = none := by
    rw [List.find?_eq_none]
    intro a ha hak
    exact hleaf (h l₁ kv l₂ rfl ⟨a,ha,(hasKey_iff.mp hak).trans hkey.symm⟩)
  rw [List.find?_append,hfirst,Option.none_or]
  exact List.find?_cons_of_pos (p := fun kv : Node × Node => kv.1.hasKey key) (hasKey_iff.mpr hkey)

def fieldPaths (yaml : Yaml) : List (List PathItem × Field) :=
  ((sections yaml).flatMap fun s => s.fields.map fun f => ([.key s.name,.key f.key],f)) ++
    [([.key (str "target_slot")],targetSlotField yaml)]

/-- Every leaf of the document has been read: its path names a field, the library finds this
leaf there, and the field holds its conversion. A field is read once, so that two leaves
with one path cannot both have been read. -/
structure AllRead (yaml : Yaml) (c : ControllerConfig) (doc : Node) : Prop where
  once : ((leaves doc).map Prod.fst).Nodup
  read : ∀ l ∈ leaves doc, ∃ f, (l.1,f) ∈ fieldPaths yaml ∧
    nodeAt yaml doc l.1 = some (.scalar l.2) ∧ f.read (.scalar l.2) = .ok (f.value c)

/-- No leaf stands under a key that was given before, or in a section that is not a mapping. -/
def Placed : Node → Prop
  | .map entries => NoShadowedLeaf entries ∧ ∀ kv ∈ entries,
    match kv.2 with
    | .map es => NoShadowedLeaf es
    | n => kv.1 = .scalar (str "target_slot") ∨ leaves n = []
  | n => leaves n = []

/-- What the library documents of its conversions: a text is that of a scalar, or stands for
a null, and no sequence or mapping is converted. -/
structure Yaml.Documented (yaml : Yaml) : Prop where
  asString : ∀ n text, yaml.asString n = .ok text → n = .scalar text ∨ n = .null ∧ text = str "null"
  asU16 : ∀ n x, yaml.asU16 n = .ok x → (∃ text, n = .scalar text) ∨ n = .null
  asU64 : ∀ n x, yaml.asU64 n = .ok x → (∃ text, n = .scalar text) ∨ n = .null
  asF32 : ∀ n x, yaml.asF32 n = .ok x → (∃ text, n = .scalar text) ∨ n = .null
  asInt : ∀ n x, yaml.asInt n = .ok x → (∃ text, n = .scalar text) ∨ n = .null

theorem pairwise_of_split {α : Type} {R : α → α → Prop} {l : List α}
    (h : ∀ l₁ b l₂, l = l₁ ++ b :: l₂ → ∀ a ∈ l₁, R a b) : l.Pairwise R := by
  induction l using List.reverseRecOn with
  | nil => exact List.Pairwise.nil
  | append_singleton l b ih =>
    rw [List.pairwise_append]
    refine ⟨ih fun l₁ x l₂ hl => ?_,List.pairwise_singleton R b,fun a ha x hx => ?_⟩
    · exact h l₁ x (l₂ ++ [b]) (by rw [hl]; simp)
    · rw [List.mem_singleton.mp hx]
      exact h l b [] rfl a ha

section Distinct

variable {entries l₁ l₂ : List (Node × Node)} {a b kv : Node × Node}

theorem nodup_entry (h : ((leaves (.map entries)).map Prod.fst).Nodup) (hkv : kv ∈ entries) :
    ((leaves kv.2).map Prod.fst).Nodup := by
  rw [leaves,leavesUnder_eq,List.map_flatMap,List.nodup_flatMap] at h
  have hentry := h.1 kv hkv
  rw [List.map_map] at hentry
  have hcons : (Prod.fst ∘ below kv.1.item : Leaf → List PathItem) =
      (List.cons kv.1.item) ∘ Prod.fst := rfl
  rw [hcons,← List.map_map] at hentry
  exact hentry.of_map _

theorem paths_disjoint (h : ((leaves (.map entries)).map Prod.fst).Nodup)
    (hsplit : entries = l₁ ++ b :: l₂) (ha : a ∈ l₁) (hkey : a.1 = b.1) {p : List PathItem}
    {text text' : Str} (hap : (p,text) ∈ leaves a.2) (hbp : (p,text') ∈ leaves b.2) : False := by
  rw [leaves,leavesUnder_eq,List.map_flatMap,List.nodup_flatMap,hsplit,List.pairwise_append] at h
  have hdisj := h.2.2.2 a ha b (List.mem_cons_self ..)
  have hpa : (a.1.item :: p) ∈ ((leaves a.2).map (below a.1.item)).map Prod.fst :=
    List.mem_map.mpr ⟨below a.1.item (p,text),List.mem_map_of_mem hap,rfl⟩
  have hpb : (a.1.item :: p) ∈ ((leaves b.2).map (below b.1.item)).map Prod.fst := by
    rw [hkey]
    exact List.mem_map.mpr ⟨below b.1.item (p,text'),List.mem_map_of_mem hbp,rfl⟩
  exact hdisj hpa hpb

theorem noShadowedLeaf_of_found {yaml : Yaml} (h : ((leaves (.map entries)).map Prod.fst).Nodup)
    (hfound : ∀ l ∈ leaves (.map entries), nodeAt yaml (.map entries) l.1 = some (.scalar l.2)) :
    NoShadowedLeaf entries := by
  rintro l₁ b l₂ hsplit ⟨a,ha,hkey⟩
  by_contra hleaf
  obtain ⟨m,hm⟩ := List.exists_mem_of_ne_nil _ hleaf
  have hbmem : b ∈ entries := by rw [hsplit]; simp
  have hnode := hfound _ (mem_leaves_map.mpr ⟨b,hbmem,m,hm,rfl⟩)
  cases hb : b.1 with
  | scalar k =>
    rw [hb] at hnode
    -- the library stops at an entry before `b`
    change nodeAt yaml (.map entries) (.key k :: m.1) = some (.scalar m.2) at hnode
    rw [nodeAt,index_map,hsplit,List.find?_append] at hnode
    cases hfind : l₁.find? (fun kv => kv.1.hasKey k) with
    | none =>
      have hnone := List.find?_eq_none.mp hfind a ha
      exact hnone (hasKey_iff.mpr (hkey.trans hb))
    | some a₀ =>
      rw [hfind] at hnode
      have hkey₀ := List.find?_some (p := fun kv : Node × Node => kv.1.hasKey k) hfind
      exact paths_disjoint h hsplit (List.mem_of_find?_eq_some hfind)
        ((hasKey_iff.mp hkey₀).trans hb.symm) (mem_leaves_of_nodeAt hnode) hm
  | null => rw [hb] at hnode; simp [below,Node.item,nodeAt] at hnode
  | sequence items => rw [hb] at hnode; simp [below,Node.item,nodeAt] at hnode
  | map es => rw [hb] at hnode; simp [below,Node.item,nodeAt] at hnode

theorem nodup_of_noShadowedLeaf (h : NoShadowedLeaf entries)
    (hkeys : ∀ kv ∈ entries, ∃ k, kv.1 = .scalar k)
    (heach : ∀ kv ∈ entries, leaves kv.2 ≠ [] → ((leaves kv.2).map Prod.fst).Nodup) :
    ((leaves (.map entries)).map Prod.fst).Nodup := by
  rw [leaves,leavesUnder_eq,List.map_flatMap,List.nodup_flatMap]
  constructor
  · intro kv hkv
    have hbelow : ((leaves kv.2).map Prod.fst).Nodup := by
      by_cases hleaf : leaves kv.2 = []
      · rw [hleaf]
        exact List.nodup_nil
      · exact heach kv hkv hleaf
    rw [List.map_map]
    have hcons : (Prod.fst ∘ below kv.1.item : Leaf → List PathItem) =
        (List.cons kv.1.item) ∘ Prod.fst := rfl
    rw [hcons,← List.map_map]
    exact hbelow.map List.cons_injective
  · apply pairwise_of_split
    intro l₁ b l₂ hsplit a ha p hpa hpb
    obtain ⟨la,hla,rfl⟩ := List.mem_map.mp hpa
    obtain ⟨ma,hma,rfl⟩ := List.mem_map.mp hla
    obtain ⟨lb,hlb,hsame⟩ := List.mem_map.mp hpb
    obtain ⟨mb,hmb,rfl⟩ := List.mem_map.mp hlb
    obtain ⟨k,hk⟩ := hkeys a (by rw [hsplit]; simp [ha])
    obtain ⟨k',hk'⟩ := hkeys b (by rw [hsplit]; simp)
    have hitem : b.1.item = a.1.item := (List.cons.inj hsame).1
    rw [hk,hk'] at hitem
    have hkey : a.1 = b.1 := by rw [hk,hk',PathItem.key.inj hitem]
    rw [h l₁ b l₂ hsplit ⟨a,ha,hkey⟩] at hmb
    exact absurd hmb (List.not_mem_nil)

end Distinct

section Accepted

variable {yaml : Yaml} {path : Str} {out c : ControllerConfig} {entries : List (Node × Node)}

structure AcceptedDoc (yaml : Yaml) (c : ControllerConfig) (entries : List (Node × Node)) : Prop where
  keys : keyCheck yaml (str "<root>") rootKeys entries = .ok ()
  steps : ¬ ∃ e, .error e ∈ rootSteps yaml (.map entries)
  config : c = deriveLcmPath (lcmExplicit yaml (.map entries))
    (applyAll (readBefore (rootSteps yaml (.map entries))) {})

theorem acceptedDoc_of_load (hload : yaml.loadFile path = .ok (.map entries))
    (h : loadConfig yaml path out = (.accepted,c)) : AcceptedDoc yaml c entries := by
  rw [loadConfig_map yaml hload] at h
  rcases hkeys : keyCheck yaml (str "<root>") rootKeys entries with (e | what) | u
  · rw [hkeys] at h
    cases h
  · rw [hkeys] at h
    cases h
  · rw [hkeys] at h
    have hsnd := exec_snd (rootSteps yaml (.map entries)) {}
    have hfails := exec_fails_iff (rootSteps yaml (.map entries)) {}
    rcases hwalk : exec (rootSteps yaml (.map entries)) {} with ⟨(e | what) | v,c'⟩
    · rw [hwalk] at h
      cases h
    · rw [hwalk] at h
      cases h
    · rw [hwalk] at h hsnd hfails
      refine ⟨hkeys,hfails.not.mp nofun,?_⟩
      simp only at h hsnd
      split at h
      · cases h
      · rw [← hsnd]
        exact (Prod.mk.inj h).2.symm

theorem keys_of_keyCheck (hyaml : yaml.Documented) {name : Str} {allowed : List Str}
    (hnull : str "null" ∉ allowed) (h : keyCheck yaml name allowed entries = .ok ()) :
    ∀ kv ∈ entries, ∃ k ∈ allowed, kv.1 = .scalar k := by
  induction entries with
  | nil => exact List.forall_mem_nil _
  | cons kv rest ih =>
    rw [keyCheck] at h
    cases hkey : yaml.asString kv.1 with
    | error what =>
      rw [hkey] at h
      cases h
    | ok key =>
      rw [hkey] at h
      simp only at h
      split at h
      next hmem =>
        rw [List.contains_iff_mem] at hmem
        have hscalar : kv.1 = .scalar key := by
          rcases hyaml.asString _ _ hkey with hs | ⟨-,rfl⟩
          · exact hs
          · exact absurd hmem hnull
        exact List.forall_mem_cons.mpr ⟨⟨key,hmem,hscalar⟩,ih h⟩
      next => cases h

theorem rootKeys_eq (yaml : Yaml) :
    rootKeys = (sections yaml).map Section.name ++ [str "target_slot"] := rfl

theorem null_not_key (yaml : Yaml) : ∀ s ∈ sections yaml, str "null" ∉ s.fields.map Field.key := by
  simp only [sections,radioSection,shmSection,jbpfSection,lcmField,e3Section,threadsSection,
    loggingSection,List.forall_mem_cons,List.map_cons,List.map_nil]
  refine ⟨by decide,by decide,by decide,by decide,by decide,by decide,List.forall_mem_nil _⟩

theorem of_converted {T : Type} {as : Node → Except Str T} {n : Node} {x : T}
    (h : converted as n = .ok x) : as n = .ok x := by
  rw [converted] at h
  cases has : as n with
  | error what => rw [has] at h; cases h
  | ok y => rw [has] at h; cases h; rfl

theorem of_parsed {T : Type} {parse : Str → Except Str T} {n : Node} {x : T}
    (h : parsed yaml parse n = .ok x) : ∃ text, yaml.asString n = .ok text := by
  rw [parsed] at h
  cases htext : converted yaml.asString n with
  | error e => rw [htext] at h; cases h
  | ok text => exact ⟨text,of_converted htext⟩

theorem name_ne_target (yaml : Yaml) : ∀ s ∈ sections yaml, s.name ≠ str "target_slot" := by
  simp only [sections,radioSection,shmSection,jbpfSection,e3Section,threadsSection,loggingSection,
    List.forall_mem_cons]
  refine ⟨by decide,by decide,by decide,by decide,by decide,by decide,List.forall_mem_nil _⟩

theorem read_scalar (hyaml : yaml.Documented) : ∀ f ∈ allFields yaml, ∀ n x, f.read n = .ok x →
    (∃ text, n = .scalar text) ∨ n = .null := by
  have hstring : ∀ n text, yaml.asString n = .ok text → (∃ text, n = .scalar text) ∨ n = .null :=
    fun n text h => (hyaml.asString n text h).imp (fun hs => ⟨text,hs⟩) And.left
  simp only [allFields,sections,radioSection,shmSection,jbpfSection,lcmField,e3Section,threadsSection,
    loggingSection,targetSlotField,List.flatMap_cons,List.flatMap_nil,List.cons_append,
    List.nil_append,List.append_nil,List.forall_mem_cons]
  refine ⟨?_,?_,?_,?_,?_,?_,?_,?_,?_,?_,?_,?_,?_,?_,?_,?_,?_,?_,?_,?_,?_,?_,?_,?_,?_,?_,?_,
    List.forall_mem_nil _⟩
  all_goals
    intro n x h
    first
      | exact hyaml.asU16 n x (of_converted h)
      | exact hyaml.asU64 n x (of_converted h)
      | exact hyaml.asF32 n x (of_converted h)
      | exact hyaml.asInt n x (of_converted h)
      | exact hstring n x (of_converted h)
      | exact (of_parsed h).elim (hstring n)

theorem derive_unaffected (yaml : Yaml) : ∀ s ∈ sections yaml, ∀ f ∈ s.fields,
    (s.name = str "jbpf" ∧ f.key = str "lcm_socket_path") ∨
      ∀ explicit c, f.value (deriveLcmPath explicit c) = f.value c := by
  simp only [sections,radioSection,shmSection,jbpfSection,lcmField,e3Section,threadsSection,
    loggingSection,List.forall_mem_cons]
  refine ⟨⟨?_,?_,?_,?_,List.forall_mem_nil _⟩,⟨?_,?_,?_,?_,List.forall_mem_nil _⟩,
    ⟨?_,?_,?_,.inl ⟨trivial,trivial⟩,?_,List.forall_mem_nil _⟩,⟨?_,?_,?_,?_,?_,?_,List.forall_mem_nil _⟩,
    ⟨?_,?_,?_,?_,List.forall_mem_nil _⟩,⟨?_,?_,?_,List.forall_mem_nil _⟩,List.forall_mem_nil _⟩
  all_goals exact .inr fun explicit c => by cases explicit <;> rfl

theorem mem_rootSteps {s : Section} (hs : s ∈ sections yaml) {n : Node}
    (hn : (Node.map entries).index yaml s.name = .ok (some n)) {step : Step}
    (hstep : step ∈ s.steps yaml n) : step ∈ rootSteps yaml (.map entries) := by
  have hsteps : sectionSteps yaml (.map entries) s = s.steps yaml n := by rw [sectionSteps,hn]
  refine List.mem_append_left _ (List.mem_flatMap.mpr ⟨s,hs,?_⟩)
  rwa [hsteps]

section Walked

variable (hdoc : AcceptedDoc yaml c entries)

include hdoc

theorem AcceptedDoc.kept {n v : Node} {f : Field} (hv : n.index yaml f.key = .ok (some v))
    (hstep : readStep yaml n f ∈ rootSteps yaml (.map entries)) :
    f.read v = .ok (f.value (applyAll (readBefore (rootSteps yaml (.map entries))) {})) := by
  rw [readStep,hv] at hstep
  simp only at hstep
  cases hread : f.read v with
  | error e =>
    rw [hread] at hstep
    exact absurd ⟨e,hstep⟩ hdoc.steps
  | ok x =>
    rw [hread] at hstep
    have hmem := (mem_readBefore hdoc.steps).mpr hstep
    have hvalue := applyAll_value (readBefore_lawful yaml _) (readBefore_unaffected yaml _) {} _ hmem
    exact congrArg Except.ok hvalue.symm

theorem AcceptedDoc.section_read {s : Section} (hs : s ∈ sections yaml) {n : Node}
    (hn : (Node.map entries).index yaml s.name = .ok (some n)) {f : Field} (hf : f ∈ s.fields)
    {v : Node} (hv : n.index yaml f.key = .ok (some v)) : f.read v = .ok (f.value c) := by
  have hstep : readStep yaml n f ∈ s.steps yaml n :=
    List.mem_cons_of_mem _ (List.mem_map_of_mem hf)
  rw [hdoc.kept hv (mem_rootSteps hs hn hstep),hdoc.config]
  rcases derive_unaffected yaml s hs f hf with ⟨hname,hkey⟩ | hsame
  · -- a socket path that is given is not derived
    have hexplicit : lcmExplicit yaml (.map entries) = true := by
      rw [hname] at hn
      rw [hkey] at hv
      rw [lcmExplicit,hn]
      simp only [lcmGiven,hv]
    rw [hexplicit]
    rfl
  · rw [hsame]

theorem AcceptedDoc.target_read {v : Node}
    (hv : (Node.map entries).index yaml (str "target_slot") = .ok (some v)) :
    (targetSlotField yaml).read v = .ok ((targetSlotField yaml).value c) := by
  have hstep : readStep yaml (.map entries) (targetSlotField yaml) ∈ rootSteps yaml (.map entries) :=
    List.mem_append_right _ (List.mem_cons_self ..)
  rw [hdoc.kept (f := targetSlotField yaml) hv hstep,hdoc.config]
  cases lcmExplicit yaml (.map entries) <;> rfl

theorem AcceptedDoc.section_keys (hyaml : yaml.Documented) {s : Section} (hs : s ∈ sections yaml)
    {es : List (Node × Node)} (hn : (Node.map entries).index yaml s.name = .ok (some (.map es))) :
    ∀ kv ∈ es, ∃ f ∈ s.fields, kv.1 = .scalar f.key := by
  have hstep := mem_rootSteps hs hn (List.mem_cons_self ..)
  rw [nodeCheck] at hstep
  cases hcheck : keyCheck yaml s.name (s.fields.map Field.key) es with
  | error e =>
    rw [hcheck] at hstep
    exact absurd ⟨e,hstep⟩ hdoc.steps
  | ok u =>
    intro kv hkv
    obtain ⟨k,hk,hkey⟩ := keys_of_keyCheck hyaml (null_not_key yaml s hs) hcheck kv hkv
    obtain ⟨f,hf,rfl⟩ := List.mem_map.mp hk
    exact ⟨f,hf,hkey⟩

/-- Where a leaf of a well-placed accepted document stands: it is the target slot, or a value in
a section that the library finds. -/
theorem AcceptedDoc.leaf_cases (hyaml : yaml.Documented) (hplaced : Placed (.map entries))
    {kv : Node × Node} (hkv : kv ∈ entries) (hleaf : leaves kv.2 ≠ []) :
    (∃ text, kv.1 = .scalar (str "target_slot") ∧ kv.2 = .scalar text ∧
      (Node.map entries).index yaml (str "target_slot") = .ok (some kv.2)) ∨
    ∃ s ∈ sections yaml, ∃ es, kv.1 = .scalar s.name ∧ kv.2 = .map es ∧
      (Node.map entries).index yaml s.name = .ok (some kv.2) ∧ NoShadowedLeaf es ∧
      ∀ e ∈ es, ∃ f ∈ s.fields, e.1 = .scalar f.key ∧ (leaves e.2 ≠ [] →
        ∃ text, e.2 = .scalar text ∧ kv.2.index yaml f.key = .ok (some e.2)) := by
  obtain ⟨hshadow,hvalues⟩ := hplaced
  obtain ⟨k,hk,hkey⟩ := keys_of_keyCheck hyaml (by decide) hdoc.keys kv hkv
  have hindex : (Node.map entries).index yaml k = .ok (some kv.2) := by
    rw [index_map,hshadow.find hkv hkey hleaf]
    rfl
  rw [rootKeys_eq yaml,List.mem_append,List.mem_singleton] at hk
  rcases hk with hk | rfl
  · right
    obtain ⟨s,hs,rfl⟩ := List.mem_map.mp hk
    have hvalue := hvalues kv hkv
    have hne : kv.1 ≠ .scalar (str "target_slot") := by
      rw [hkey]
      exact fun h => name_ne_target yaml s hs (Node.scalar.inj h)
    cases hn : kv.2 with
    | null => rw [hn] at hleaf; exact absurd (by simp [leaves]) hleaf
    | scalar text => rw [hn] at hvalue hleaf; exact absurd (hvalue.resolve_left hne) hleaf
    | sequence items => rw [hn] at hvalue hleaf; exact absurd (hvalue.resolve_left hne) hleaf
    | map es =>
      rw [hn] at hvalue hindex
      refine ⟨s,hs,es,hkey,rfl,hindex,hvalue,fun e he => ?_⟩
      obtain ⟨f,hf,hfkey⟩ := hdoc.section_keys hyaml hs hindex e he
      refine ⟨f,hf,hfkey,fun hleaf' => ?_⟩
      have hfound : (Node.map es).index yaml f.key = .ok (some e.2) := by
        rw [index_map,hvalue.find he hfkey hleaf']
        rfl
      have hfield : f ∈ allFields yaml :=
        List.mem_append_left _ (List.mem_flatMap.mpr ⟨s,hs,hf⟩)
      rcases read_scalar hyaml f hfield _ _ (hdoc.section_read hs hindex hf hfound) with
        ⟨text,htext⟩ | hnull
      · exact ⟨text,htext,hfound⟩
      · rw [hnull] at hleaf'
        exact absurd (by simp [leaves]) hleaf'
  · left
    have hread := hdoc.target_read hindex
    rcases read_scalar hyaml _ (List.mem_append_right _ (List.mem_cons_self ..)) _ _ hread with
      ⟨text,htext⟩ | hnull
    · exact ⟨text,hkey,htext,hindex⟩
    · rw [hnull] at hleaf
      exact absurd (by simp [leaves]) hleaf

theorem AcceptedDoc.once (hyaml : yaml.Documented) (hplaced : Placed (.map entries)) :
    ((leaves (.map entries)).map Prod.fst).Nodup := by
  have hkeys : ∀ kv ∈ entries, ∃ k, kv.1 = .scalar k := fun kv hkv =>
    (keys_of_keyCheck hyaml (by decide) hdoc.keys kv hkv).imp fun k h => h.2
  refine nodup_of_noShadowedLeaf hplaced.1 hkeys fun kv hkv hleaf => ?_
  rcases hdoc.leaf_cases hyaml hplaced hkv hleaf with
    ⟨text,-,hn,-⟩ | ⟨s,hs,es,-,hn,-,hshadow,hes⟩
  · rw [hn]
    simp [leaves]
  · rw [hn]
    refine nodup_of_noShadowedLeaf hshadow (fun e he => ?_) fun e he hleaf' => ?_
    · obtain ⟨f,-,hfkey,-⟩ := hes e he
      exact ⟨f.key,hfkey⟩
    · obtain ⟨f,-,-,hscalar⟩ := hes e he
      obtain ⟨text,htext,-⟩ := hscalar hleaf'
      rw [htext]
      simp [leaves]

theorem AcceptedDoc.allRead (hyaml : yaml.Documented) (hplaced : Placed (.map entries)) :
    AllRead yaml c (.map entries) := by
  refine ⟨hdoc.once hyaml hplaced,fun l hl => ?_⟩
  obtain ⟨kv,hkv,m,hm,rfl⟩ := mem_leaves_map.mp hl
  rcases hdoc.leaf_cases hyaml hplaced hkv (List.ne_nil_of_mem hm) with
    ⟨text,hkey,hn,hindex⟩ | ⟨s,hs,es,hkey,hn,hindex,-,hes⟩
  · have hread := hdoc.target_read hindex
    rw [hn] at hm hindex hread
    rw [leaves,List.mem_singleton] at hm
    subst hm
    refine ⟨targetSlotField yaml,List.mem_append_right _ ?_,?_,hread⟩
    · rw [hkey]
      exact List.mem_cons_self ..
    · rw [hkey]
      simp only [below,Node.item,nodeAt,hindex]
  · rw [hn] at hm hindex
    obtain ⟨e,he,m',hm',rfl⟩ := mem_leaves_map.mp hm
    obtain ⟨f,hf,hfkey,hscalar⟩ := hes e he
    obtain ⟨text,htext,hfound⟩ := hscalar (List.ne_nil_of_mem hm')
    rw [hn,htext] at hfound
    have hread := hdoc.section_read hs hindex hf hfound
    rw [htext,leaves,List.mem_singleton] at hm'
    subst hm'
    refine ⟨f,List.mem_append_left _ (List.mem_flatMap.mpr ⟨s,hs,?_⟩),?_,hread⟩
    · rw [hkey,hfkey]
      exact List.mem_map_of_mem hf
    · rw [hkey,hfkey]
      simp only [below,Node.item,nodeAt,hindex,hfound]

end Walked

theorem fieldPaths_single {item : PathItem} {f : Field} (h : ([item],f) ∈ fieldPaths yaml) :
    item = .key (str "target_slot") := by
  rcases List.mem_append.mp h with h | h
  · obtain ⟨s,-,hs⟩ := List.mem_flatMap.mp h
    obtain ⟨g,-,hg⟩ := List.mem_map.mp hs
    exact absurd (congrArg (fun x => x.1.length) hg) (by simp)
  · have heq := List.mem_singleton.mp h
    exact (List.cons.inj (congrArg Prod.fst heq)).1

theorem placed_of_allRead (h : AllRead yaml c (.map entries)) : Placed (.map entries) := by
  have hfound : ∀ l ∈ leaves (.map entries), nodeAt yaml (.map entries) l.1 = some (.scalar l.2) :=
    fun l hl => (h.read l hl).elim fun f hf => hf.2.1
  have hshadow := noShadowedLeaf_of_found h.once hfound
  refine ⟨hshadow,fun kv hkv => ?_⟩
  -- every leaf below `kv` is found through `kv` itself
  have hbelow : ∀ m ∈ leaves kv.2, ∃ k, kv.1 = .scalar k ∧ nodeAt yaml kv.2 m.1 = some (.scalar m.2) := by
    intro m hm
    have hnode := hfound _ (mem_leaves_map.mpr ⟨kv,hkv,m,hm,rfl⟩)
    cases hk : kv.1 with
    | scalar k =>
      rw [hk] at hnode
      change nodeAt yaml (.map entries) (.key k :: m.1) = some (.scalar m.2) at hnode
      rw [nodeAt,index_map,hshadow.find hkv hk (List.ne_nil_of_mem hm)] at hnode
      exact ⟨k,rfl,hnode⟩
    | null => rw [hk] at hnode; simp [below,Node.item,nodeAt] at hnode
    | sequence items => rw [hk] at hnode; simp [below,Node.item,nodeAt] at hnode
    | map es => rw [hk] at hnode; simp [below,Node.item,nodeAt] at hnode
  cases hn : kv.2 with
  | null => exact .inr (by simp [leaves])
  | scalar text =>
    left
    have hm : ([],text) ∈ leaves kv.2 := by rw [hn]; simp [leaves]
    obtain ⟨k,hk,-⟩ := hbelow _ hm
    obtain ⟨f,hf,-⟩ := h.read _ (mem_leaves_map.mpr ⟨kv,hkv,_,hm,rfl⟩)
    rw [hk] at hf
    rw [hk,PathItem.key.inj (fieldPaths_single hf)]
  | sequence items =>
    right
    by_contra hleaf
    obtain ⟨m,hm⟩ := List.exists_mem_of_ne_nil _ hleaf
    obtain ⟨k,-,hnode⟩ := hbelow m (by rw [hn]; exact hm)
    rw [leaves] at hm
    obtain ⟨j,p,hp⟩ := mem_leavesIn hm
    rw [hp] at hnode
    simp [nodeAt] at hnode
  | map es =>
    have hes := nodup_entry h.once hkv
    rw [hn] at hes hbelow
    exact noShadowedLeaf_of_found hes fun m hm => (hbelow m hm).elim fun k hk => hk.2

/-- An accepted file has had every value read exactly if every value stands where the loader
looks: in sections that are mappings, and under keys that were not given before. -/
theorem accepted_reads_all_iff (yaml : Yaml) (hyaml : yaml.Documented) (path : Str) (doc : Node)
    (hload : yaml.loadFile path = .ok doc) (out c : ControllerConfig)
    (h : loadConfig yaml path out = (.accepted,c)) : AllRead yaml c doc ↔ Placed doc := by
  by_cases hmap : ∃ entries, doc = .map entries
  · obtain ⟨entries,rfl⟩ := hmap
    exact ⟨placed_of_allRead,(acceptedDoc_of_load hload h).allRead hyaml⟩
  · -- only mappings are accepted
    rw [loadConfig,hload] at h
    cases doc with
    | map entries => exact absurd ⟨entries,rfl⟩ hmap
    | null => cases h
    | scalar text => cases h
    | sequence items => cases h

end Accepted

theorem noShadowedLeaf_singleton (kv : Node × Node) : NoShadowedLeaf [kv] := by
  rintro l₁ b l₂ hsplit ⟨a,ha,-⟩
  cases l₁ with
  | nil => cases ha
  | cons x l₁ => simp at hsplit

theorem bounded_scalar {T : Type} {limit : ℕ} {make : ℕ → T} {n : Node} {x : T}
    (h : bounded limit make n = .ok x) : (∃ text, n = .scalar text) ∨ n = .null := by
  cases n with
  | scalar text => exact .inl ⟨text,rfl⟩
  | null => cases h
  | sequence items => cases h
  | map entries => cases h

theorem decimalYaml_documented (doc : Node) : (decimalYaml doc).Documented where
  asString n text h := by
    cases n with
    | scalar t => cases h; exact .inl rfl
    | null => cases h
    | sequence items => cases h
    | map entries => cases h
  asU16 n x h := bounded_scalar h
  asU64 n x h := bounded_scalar h
  asF32 n x h := by cases h
  asInt n x h := bounded_scalar h

def twoPortDoc : Node := sectionDoc (str "radio") [(str "nof_ports",str "2")]

theorem accepted_reads_all_iff_two_ports :
    ∃ c, loadConfig (decimalYaml twoPortDoc) [] {} = (.accepted,c) ∧ c.radio.nofPorts = 2 ∧
      AllRead (decimalYaml twoPortDoc) c twoPortDoc := by
  obtain ⟨c,h,hports⟩ : ∃ c, loadConfig (decimalYaml twoPortDoc) [] {} = (.accepted,c) ∧
      c.radio.nofPorts = 2 := ⟨_,rfl,rfl⟩
  have hplaced : Placed twoPortDoc := by
    refine ⟨noShadowedLeaf_singleton _,fun kv hkv => ?_⟩
    rw [List.mem_singleton.mp hkv]
    exact noShadowedLeaf_singleton _
  exact ⟨c,h,hports,(accepted_reads_all_iff (decimalYaml twoPortDoc) (decimalYaml_documented _) []
    twoPortDoc rfl {} c h).mpr hplaced⟩

def listedPortDoc : Node :=
  .map [(.scalar (str "radio"),.sequence [.map [(.scalar (str "nof_ports"),.scalar (str "2"))]])]

theorem listed_ports_ignored :
    ∃ c, loadConfig (decimalYaml listedPortDoc) [] {} = (.accepted,c) ∧ c.radio.nofPorts = 4 ∧
      ¬ AllRead (decimalYaml listedPortDoc) c listedPortDoc := by
  refine ⟨_,rfl,rfl,fun h => ?_⟩
  have hleaf : ([.key (str "radio"),.index 0,.key (str "nof_ports")],str "2") ∈ leaves listedPortDoc := by
    simp [listedPortDoc,leaves,leavesUnder,leavesIn,below,Node.item]
  obtain ⟨f,-,hnode,-⟩ := h.read _ hleaf
  cases hnode

end ConfigLoader
end E3Controller
