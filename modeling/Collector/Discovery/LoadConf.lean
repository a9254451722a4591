import Collector.Confmap.Trees
import Collector.Discovery.PropertiesConf

/-!
# What becomes of the mapping of a properties file

`LoadConf` makes a property of each leaf under `splunk.discovery`. Its name and its text are read again, by the grammar
of the properties and by YAML.
-/

namespace Collector.Discovery

open Lib Confmap List

variable {type : PropertyType} {q : Parsed} {k val' : Str} {v : Value} {m sub : Fields} {p : Property} {ent : FileEntry}
  {prop : Str × Value} {conf : Tree}
variable {id : ComponentID} {val property : Str}

/-! ## Names -/

/-- Nothing of the name is skipped as whitespace, and no keyword stands behind a dot in it. -/
structure NameReads (id : ComponentID) : Prop where
  exact : Exact isSeparator isWhitespace id.name
  noKeyword : NoKeyword (propertyTokens id.name)

theorem propertyTokens_string (h : validType id.type = true) :
    propertyTokens id.string = .word id.type :: if id.name = [] then [] else .sep '/' :: propertyTokens id.name := by
  rw [ComponentID.string]
  split
  · exact (validType_word h).lex
  · exact propertyTokens_slash h id.name

theorem componentOf_string (h : validType id.type = true) :
    componentOf (propertyTokens id.string) = ⟨id.type, untok (propertyTokens id.name)⟩ := by
  have hs : notSlash (.word id.type) = true := rfl
  have hsep : notSlash (.sep '/') = false := rfl
  rw [propertyTokens_string h]
  split_ifs with hname
  · simp [componentOf, hs, Tok.text, hname, propertyTokens]
  · simp [componentOf, hs, hsep, Tok.text]

theorem noKeyword_string (h : validType id.type = true) :
    NoKeyword (propertyTokens id.string) ↔ NoKeyword (propertyTokens id.name) := by
  rw [propertyTokens_string h]
  split_ifs with hname
  · rw [hname]
    exact iff_of_true (.cons rfl noKeyword_nil) noKeyword_nil
  · refine ⟨fun hno => ?_, fun hno => .cons rfl (.cons rfl hno)⟩
    exact NoKeyword.suffix (x := [.word id.type, .sep '/']) hno

theorem NameReads.parseProperty (h : NameReads id) (hv : validType id.type = true)
    (componentType : ComponentType) (type : PropertyType) (key : Str) :
    parseProperty (propertyText componentType id.string type key) =
      some ⟨componentType, id, type, untok (keyTokens type key)⟩ := by
  refine parseProperty_eq_some.mpr ⟨_, keyTokens type key, propertyTokens_propertyText _ _ _ _,
    (noKeyword_string hv).mpr h.noKeyword, ?_, ?_, rfl⟩
  · rw [propertyTokens_string hv]
    simp [notSlash]
  · have hname : untok (propertyTokens id.name) = id.name := h.exact
    rw [componentOf_string hv, hname]

theorem length_string_componentOf (comp : List Tok) : (componentOf comp).string.length ≤ (untok comp).length := by
  have hs : untok (comp.takeWhile notSlash) ++ untok (comp.dropWhile notSlash) = untok comp := by
    rw [← untok_append, takeWhile_append_dropWhile]
  rw [← hs, ComponentID.string, componentOf]
  split_ifs with hname
  · simp
  · cases hd : comp.dropWhile notSlash with
    | nil => simp [hd] at hname
    | cons t rest =>
      have hh := head?_dropWhile_not notSlash comp
      rw [hd] at hh
      obtain rfl : t = .sep '/' := by simpa [notSlash] using hh
      simp [Tok.text]

variable {type' : PropertyType}

theorem component_prefix {ts comp k k' : List Tok}
    (h : ts ++ item type k = comp ++ item type' k') (hno : NoKeyword comp) : ∃ rest, ts = comp ++ rest := by
  rcases append_eq_append_iff.mp h with ⟨a, rfl, hi⟩ | ⟨a, rfl, -⟩
  · cases a with
    | nil => exact ⟨[], by simp⟩
    | cons t a =>
      obtain ⟨rfl, ht⟩ := cons.inj hi
      cases a with
      | nil => cases (cons.inj ht).1
      | cons t' a =>
        obtain ⟨rfl, -⟩ := cons.inj ht
        have hk : atKeyword (.sep '.' :: .word type.text :: a) = true := atKeyword_iff.mpr ⟨type, a, rfl⟩
        rw [hno ts _ rfl] at hk
        cases hk
  · exact ⟨a, rfl⟩

theorem item_injective {k k' : List Tok} (h : item type k = item type' k') : type = type' ∧ k = k' := by
  have ht : type = type' := by
    refine PropertyType.text_injective ?_
    simpa [item] using congrArg (take 2) h
  subst ht
  cases type <;> simpa [item] using h

theorem eq_nil_of_untok {ts : List Tok} (h : Canon isSeparator isWhitespace ts) (hnil : untok ts = []) : ts = [] := by
  cases ts with
  | nil => rfl
  | cons t ts =>
    cases t with
    | sep c => cases hnil
    | word w => exact absurd (append_eq_nil_iff.mp hnil).1 h.1.ne_nil

theorem nameReads_of_parse (hv : validType id.type = true) {componentType : ComponentType} {key : Str}
    (h : parseProperty (propertyText componentType id.string type key) = some q)
    (hq : validType q.component.type = true) (hst : id.string <+: q.component.string) :
    NameReads id ∧ q = ⟨componentType, id, type, untok (keyTokens type key)⟩ := by
  obtain ⟨comp, k, ht, hno, -, hc, hkey⟩ := parseProperty_eq_some.mp h
  rw [propertyTokens_propertyText] at ht
  obtain ⟨hh, hi⟩ := append_inj ht rfl
  obtain ⟨rest, hr⟩ := component_prefix hi hno
  have hlen : (untok (propertyTokens id.string)).length ≤ id.string.length := length_untok_lex id.string
  have hco := length_string_componentOf comp
  rw [hr, untok_append, length_append] at hlen
  rw [← hc] at hco
  have hs : id.string = q.component.string := hst.eq_of_length_le (by omega)
  have hid : q.component = id := ComponentID.string_injective _ _ hq hv hs.symm
  -- nothing is left of the tokens behind the component
  have hnil : rest = [] := by
    have hca : Canon isSeparator isWhitespace (propertyTokens id.string) := canon_lex id.string
    rw [hr] at hca
    refine eq_nil_of_untok hca.split.2 (eq_nil_of_length_eq_zero ?_)
    rw [hs] at hlen
    omega
  rw [hnil, append_nil] at hr
  rw [← hr] at hno hc hi
  rw [componentOf_string hv, hid] at hc
  have hty : q.componentType = componentType := by
    refine ComponentType.text_injective ?_
    simpa [header] using hh.symm
  obtain ⟨hq₁, hq₂⟩ := item_injective (append_cancel_left hi)
  refine ⟨⟨(congrArg ComponentID.name hc).symm, (noKeyword_string hv).mp hno⟩, ?_⟩
  rw [hq₂, ← hkey, ← hty, ← hid, hq₁]

/-! ## Files -/

structure GoodID (id : ComponentID) : Prop where
  type : validType id.type = true
  text : NoDouble ':' id.string
  last : id.string.getLast? ≠ some ':'

def File.entriesOf (file : File) : ComponentType → List (Str × FileEntry)
  | .receivers => file.receivers
  | .extensions => file.extensions

def File.setForm (file : File) : List (Str × Value) := confProps (Confmap.newFromStringMap file.entries)

def File.setOnly (file : File) : File := ⟨[], [], [], file.entries⟩

structure File.WellFormed (file : File) : Prop where
  nodup : ∀ typ, (keys (file.entriesOf typ)).Nodup
  ids : ∀ typ, ∀ e ∈ file.entriesOf typ, ∃ id, GoodID id ∧ e.1 = id.string
  configs : ∀ typ, ∀ e ∈ file.entriesOf typ, ∀ config, e.2.config = some config → Confmap.Clean config
  setForm : ∀ prop ∈ file.setForm, ∀ q, parseProperty prop.1 = some q → GoodID q.component

/-- Where only `enabled` is given for a component, its name is read. -/
def File.EnabledRead (file : File) : Prop :=
  ∀ typ, ∀ e ∈ file.entriesOf typ, e.2.enabled.isSome = true → e.2.config = none →
    ∀ id, GoodID id → e.1 = id.string → NameReads id

def File.configTree (file : File) (typ : ComponentType) (cid : Str) : Tree :=
  ((find cid (file.entriesOf typ)).bind FileEntry.config).elim .absent fun config => (Value.map config).tree

/-- A leaf of the config of a component. A config without entries is a leaf at the empty path. -/
structure MappingLeaf where
  componentType : ComponentType
  component : ComponentID
  path : List Str
  value : Value

def File.HasLeaf (file : File) (leaf : MappingLeaf) : Prop :=
  GoodID leaf.component ∧ ∃ e ∈ file.entriesOf leaf.componentType, e.1 = leaf.component.string ∧
    ∃ config, e.2.config = some config ∧ (leaf.path, leaf.value) ∈ Confmap.flattenValue (.map config)

structure MappingLeaf.Valid (leaf : MappingLeaf) : Prop where
  component : GoodID leaf.component
  item : (leaf.path = [] ∧ leaf.value = .map []) ∨ (GoodParts ':' leaf.path ∧ Confmap.isNode leaf.value = false)

section
variable (unmarshal : Str → Except Str Fields) (sprint : Value → Str)

def LineReads (key text : Str) (path : List Str) (v : Value) : Prop :=
  ∃ dst, unmarshal (key ++ ": " ++ text) = .ok dst ∧
    (Value.map (Confmap.toStringMap (Confmap.newFromStringMap dst))).tree = MapTree.path path v.tree

structure ReadsBack (leaf : MappingLeaf) : Prop where
  name : NameReads leaf.component
  path : leaf.path ≠ []
  line : LineReads unmarshal (untok (propertyTokens (Confmap.joinKey leaf.path))) (Confmap.sprintV sprint leaf.value)
    leaf.path leaf.value

def propTrees (props : List (Str × Value)) : List Tree := props.filterMap fun prop =>
  match newProperty unmarshal prop.1 (Confmap.sprintV sprint prop.2) with
  | .ok p => some (Value.map p.stringMap).tree
  | .error _ => none

/-- Away from the properties in `--set` form the mapping is as in the file. `set` is what they give alone. -/
structure Preserves (file : File) (conf set : Tree) : Prop where
  mapping : ∀ typ cid q,
    (∀ t ∈ propTrees unmarshal sprint file.setForm, t.Avoids (typ.text :: cid :: "config" :: q)) →
      conf.at_ (typ.text :: cid :: "config" :: q) = (file.configTree typ cid).at_ q
  setForm : ∀ p, (∃ t ∈ propTrees unmarshal sprint file.setForm, ¬ t.Avoids p) → conf.leafAt p = set.leafAt p

def Preserved (file : File) : Prop :=
  ∃ conf warnings set setWarnings, loadConf unmarshal sprint file = some (conf, warnings) ∧
    loadConf unmarshal sprint file.setOnly = some (set, setWarnings) ∧ Preserves unmarshal sprint file conf set

end

/-! ## Loading properties -/

section
variable {unmarshal : Str → Except Str Fields} {sprint : Value → Str}

theorem subStringMap_ne_badType (property : Str) (p : Parsed) (val t : Str) :
    subStringMap unmarshal property p val ≠ .error (.badType t) := by
  intro h
  rw [subStringMap] at h
  split at h <;> split at h <;> cases h

theorem not_badType (h : ∀ q, parseProperty property = some q → GoodID q.component) (t : Str) :
    newProperty unmarshal property val ≠ .error (.badType t) := by
  intro hbad
  rw [newProperty] at hbad
  split at hbad
  · cases hbad
  · rename_i p hp
    split at hbad
    · rename_i e he
      cases hbad
      exact subStringMap_ne_badType property p val t he
    · rw [if_pos (h p hp).type] at hbad
      cases hbad

theorem clean_singleton (h : CleanEntry k v) : Clean [(k, v)] :=
  clean_cons.mpr ⟨by simp [Lib.keys], h, clean_nil⟩

theorem cleanEntry_text (hk : ':' ∉ k) (hm : Clean m) : CleanEntry k (.map m) :=
  cleanEntry_map (noDouble_of_notMem hk) (fun _ hl => hk (mem_of_getLast? hl)) hm

theorem clean_subStringMap {p : Parsed}
    (h : subStringMap unmarshal property p val = .ok (val', sub)) : Clean sub := by
  rw [subStringMap] at h
  split at h
  · split at h
    · cases h
    · cases h
      exact clean_singleton (cleanEntry_leaf (noDouble_of_notMem (by decide)) rfl)
  · split at h
    · cases h
    · rename_i dst _
      cases h
      exact clean_singleton (cleanEntry_text (by decide) (clean_unflatten (flatten_not_isNode)))

theorem clean_stringMap (h : newProperty unmarshal property val = .ok p)
    (hid : GoodID p.component) : Clean p.stringMap := by
  obtain ⟨-, -, -, sub, hsub, hmap⟩ := newProperty_eq_ok.mp h
  have hc : Clean [(p.component.string, .map sub)] :=
    clean_singleton (cleanEntry_map hid.text (fun _ => hid.last) (clean_subStringMap hsub))
  rw [hmap]
  refine clean_singleton (cleanEntry_text ?_ hc)
  cases p.componentType <;> decide

/-- The properties that are read name components. -/
def GoodProps (props : List (Str × Value)) : Prop :=
  ∀ prop ∈ props, ∀ q, parseProperty prop.1 = some q → GoodID q.component

variable (unmarshal sprint) in
theorem exists_loadProps {props : List (Str × Value)}
    (hp : GoodProps props) {loaded : Fields × List Warning} (hl : Clean loaded.1) :
    ∃ loaded', props.foldlM (loadProp unmarshal sprint) loaded = some loaded' ∧ Clean loaded'.1 ∧
      (Value.map loaded'.1).tree =
        (propTrees unmarshal sprint props).foldl MapTree.merge (Value.map loaded.1).tree := by
  induction props generalizing loaded with
  | nil => exact ⟨loaded, rfl, hl, rfl⟩
  | cons prop props ih =>
    rw [GoodProps, forall_mem_cons] at hp
    rw [foldlM_cons, loadProp, propTrees, filterMap_cons]
    cases hnew : newProperty unmarshal prop.1 (sprintV sprint prop.2) with
    | error e =>
      cases e with
      | badType t => exact absurd hnew (not_badType hp.1 t)
      | parsing _ | bool _ | unmarshaling _ _ => exact ih hp.2 hl
    | ok p =>
      obtain ⟨hpa, -⟩ := newProperty_eq_ok.mp hnew
      have hc := clean_stringMap hnew (hp.1 _ hpa)
      have hm : Clean (mergeMaps loaded.1 p.stringMap, loaded.2).1 := hl.mergeMaps hc
      obtain ⟨loaded', hf, hc', ht⟩ := ih hp.2 hm
      refine ⟨loaded', hf, hc', ?_⟩
      rw [ht, tree_mergeMaps hl hc]
      rfl

theorem tree_nil : (Value.map []).tree = MapTree.emptyNode := by
  rw [tree_map]
  refine congrArg MapTree.node (funext fun k => ?_)
  rw [fieldsTree]

variable (unmarshal sprint) in
theorem exists_loadConf {file : File}
    (hp : GoodProps file.props) :
    ∃ warnings, loadConf unmarshal sprint file =
      some ((propTrees unmarshal sprint file.props).foldl MapTree.merge MapTree.emptyNode, warnings) := by
  have hnil : Clean (([] : Fields), file.unknownWarnings).1 := clean_nil
  obtain ⟨loaded, hf, hc, ht⟩ := exists_loadProps unmarshal sprint hp hnil
  refine ⟨loaded.2, ?_⟩
  rw [loadConf, hf, Option.map_some, confTree, newFromStringMap_eq hc, ht, tree_nil]

/-! ## The properties of one component -/

theorem confProps_eq (hm : Clean m) :
    confProps m = (flattenFields m).map fun e => (joinKey e.1, e.2) := by
  rw [← flatten_eq hm.nodup hm.distinct hm.good, confProps, allKeys, Lib.keys, map_map]
  have hget : ∀ e ∈ flatten m, (e.1, Confmap.get m e.1) = e := by
    intro e he
    rw [Confmap.get, find_of_mem (nodup_keys_flatten m) he]
    rfl
  exact (map_congr_left hget).trans (map_id _)

variable (sprint) in
def enabledTrees (enabled : Option Bool) : List Tree :=
  match enabled.bind fun b => parseBool (Confmap.sprintV sprint (.bool b)) with
  | none => []
  | some b => [.leaf (.str (boolText b))]

variable (sprint) in
def entryTrees (ent : FileEntry) : List Tree := MapTree.branches
  [("enabled", enabledTrees sprint ent.enabled), ("config", ent.config.elim [] Confmap.leafTrees)]

def below (typ : ComponentType) (cid : Str) (t : Tree) : Tree :=
  MapTree.single typ.text (MapTree.single cid t)

variable (typ : ComponentType)

theorem entryName_append (cid : Str) (type : PropertyType) (key : Str) :
    entryName typ.text cid ++ '.' :: (type.text ++ keySuffix type key) = propertyText typ cid type key := by
  unfold entryName propertyText
  generalize "splunk.discovery." = start
  simp only [append_assoc, cons_append]

theorem entryName_enabled (cid : Str) : entryName typ.text cid ++ ".enabled" = propertyText typ cid .enabled [] :=
  entryName_append typ cid .enabled []

theorem entryName_config (cid key : Str) :
    entryName typ.text cid ++ ".config." ++ key = propertyText typ cid .config key := by
  rw [append_assoc]
  exact entryName_append typ cid .config key

theorem propTrees_of_parse (hp : parseProperty property = some q) (hv : validType q.component.type = true) :
    propTrees unmarshal sprint [(property, v)] =
      match subStringMap unmarshal property q (sprintV sprint v) with
      | .ok (_, sub) => [below q.componentType q.component.string (Value.map sub).tree]
      | .error _ => [] := by
  rw [propTrees, filterMap_cons, newProperty, hp]
  dsimp only
  cases subStringMap unmarshal property q (sprintV sprint v) with
  | error e => rfl
  | ok r =>
    obtain ⟨val, sub⟩ := r
    dsimp only
    rw [if_pos hv]
    dsimp only
    rw [tree_single, tree_single]
    rfl

section
variable {id : ComponentID} (hid : validType id.type = true) (hname : NameReads id) (typ : ComponentType)
include hid hname

theorem propTrees_enabled (b : Bool) :
    propTrees unmarshal sprint [(entryName typ.text id.string ++ ".enabled", .bool b)] =
      (enabledTrees sprint (some b)).map fun t => below typ id.string (MapTree.single "enabled" t) := by
  rw [entryName_enabled, propTrees_of_parse (hname.parseProperty hid typ .enabled []) hid, subStringMap, enabledTrees,
    Option.bind_some]
  dsimp only
  cases parseBool (sprintV sprint (.bool b)) with
  | none => rfl
  | some b' =>
    dsimp only
    rw [tree_single]
    rfl

theorem propTrees_config {p : List Str}
    (hl : LineReads unmarshal (untok (propertyTokens (joinKey p))) (sprintV sprint v) p v) :
    propTrees unmarshal sprint [(entryName typ.text id.string ++ ".config." ++ joinKey p, v)] =
      [below typ id.string (MapTree.single "config" (MapTree.path p v.tree))] := by
  obtain ⟨dst, hdst, ht⟩ := hl
  rw [entryName_config, propTrees_of_parse (hname.parseProperty hid typ .config _) hid, subStringMap]
  dsimp only [keyTokens]
  rw [hdst]
  dsimp only
  rw [tree_single, ht]

end

theorem propTrees_append (props props' : List (Str × Value)) : propTrees unmarshal sprint (props ++ props') =
      propTrees unmarshal sprint props ++ propTrees unmarshal sprint props' :=
  filterMap_append

theorem propTrees_map {E : Type} {l : List E} {f : E → Str × Value} {g : E → Tree}
    (h : ∀ e ∈ l, propTrees unmarshal sprint [f e] = [g e]) : propTrees unmarshal sprint (l.map f) = l.map g := by
  induction l with
  | nil => rfl
  | cons e l ih =>
    rw [forall_mem_cons] at h
    rw [map_cons, ← singleton_append, propTrees_append, h.1, ih h.2]
    rfl

variable (unmarshal sprint) in
structure EntryReads (id : ComponentID) (ent : FileEntry) : Prop where
  name : ent.enabled.isSome = true ∨ ent.config.isSome = true → NameReads id
  clean : ∀ config, ent.config = some config → Confmap.Clean config
  ne_nil : ∀ config, ent.config = some config → config ≠ []
  line : ∀ config, ent.config = some config → ∀ e ∈ Confmap.flattenFields config,
    LineReads unmarshal (untok (propertyTokens (Confmap.joinKey e.1))) (Confmap.sprintV sprint e.2) e.1 e.2

theorem propTrees_entryProps (hid : validType id.type = true)
    (hent : EntryReads unmarshal sprint id ent) (typ : ComponentType) :
    propTrees unmarshal sprint (entryProps typ.text id.string ent) =
      (entryTrees sprint ent).map (below typ id.string) := by
  obtain ⟨config, enabled, unknown⟩ := ent
  have hen : propTrees unmarshal sprint (entryProps typ.text id.string ⟨none, enabled, unknown⟩) =
      (enabledTrees sprint enabled).map fun t => below typ id.string (MapTree.single "enabled" t) := by
    cases enabled with
    | none => rfl
    | some b => exact propTrees_enabled hid (hent.name (.inl rfl)) typ b
  have hco : propTrees unmarshal sprint (entryProps typ.text id.string ⟨config, none, unknown⟩) =
      (config.elim [] leafTrees).map fun t => below typ id.string (MapTree.single "config" t) := by
    cases config with
    | none => rfl
    | some config =>
      have hc := hent.clean config rfl
      rw [entryProps]
      dsimp only
      rw [newFromStringMap_eq hc, confProps_eq hc, nil_append, map_map,
        Option.elim_some, leafTrees, map_map]
      exact propTrees_map fun e he => propTrees_config hid (hent.name (.inr rfl)) typ (hent.line config rfl e he)
  have hs : entryProps typ.text id.string ⟨config, enabled, unknown⟩ =
      entryProps typ.text id.string ⟨none, enabled, unknown⟩ ++
        entryProps typ.text id.string ⟨config, none, unknown⟩ := by
    simp [entryProps]
  rw [hs, propTrees_append, hen, hco]
  simp [entryTrees, MapTree.branches, Function.comp_def]

theorem component_of_entryProps (hid : validType id.type = true)
    (hent : EntryReads unmarshal sprint id ent) {typ : ComponentType}
    (hp : prop ∈ entryProps typ.text id.string ent) (hq : parseProperty prop.1 = some q) :
    q.component = id := by
  have hs : ∀ type key, NameReads id → prop.1 = propertyText typ id.string type key → q.component = id := by
    intro type key hname ht
    rw [ht, hname.parseProperty hid] at hq
    cases hq
    rfl
  rw [entryProps] at hp
  rcases mem_append.mp hp with he | hco
  · cases hb : ent.enabled with
    | none =>
      rw [hb] at he
      cases he
    | some b =>
      rw [hb] at he
      obtain rfl := mem_singleton.mp he
      exact hs .enabled [] (hent.name (.inl (by rw [hb]; rfl))) (entryName_enabled typ id.string)
  · cases hc : ent.config with
    | none =>
      rw [hc] at hco
      cases hco
    | some config =>
      rw [hc] at hco
      obtain ⟨e, -, rfl⟩ := mem_map.mp hco
      exact hs .config e.1 (hent.name (.inr (by rw [hc]; rfl))) (entryName_config typ id.string e.1)

/-! ## The mapping of a file -/

variable (sprint) in
def entriesTrees (entries : List (Str × FileEntry)) : List Tree :=
  MapTree.branches (entries.map fun e => (e.1, entryTrees sprint e.2))

variable (sprint) in
def File.mappingTrees (file : File) : List Tree := MapTree.branches
  [("extensions", entriesTrees sprint file.extensions), ("receivers", entriesTrees sprint file.receivers)]

def File.mappingProps (file : File) : List (Str × Value) :=
  file.extensions.flatMap (fun e => entryProps "extensions" e.1 e.2) ++
    file.receivers.flatMap (fun e => entryProps "receivers" e.1 e.2)

theorem File.props_eq (file : File) : file.props = file.mappingProps ++ file.setForm := rfl

variable (unmarshal sprint) in
def Reads (entries : List (Str × FileEntry)) : Prop :=
  ∀ e ∈ entries, ∃ id, GoodID id ∧ e.1 = id.string ∧ EntryReads unmarshal sprint id e.2

theorem propTrees_entries {entries : List (Str × FileEntry)} (h : Reads unmarshal sprint entries)
    (typ : ComponentType) :
    propTrees unmarshal sprint (entries.flatMap fun e => entryProps typ.text e.1 e.2) =
      (entriesTrees sprint entries).map (MapTree.single typ.text) := by
  induction entries with
  | nil => rfl
  | cons e entries ih =>
    obtain ⟨⟨id, hid, hkey, hent⟩, hr⟩ := forall_mem_cons.mp h
    have hb : below typ id.string = MapTree.single typ.text ∘ MapTree.single id.string := rfl
    have hc : entriesTrees sprint (e :: entries) =
        (entryTrees sprint e.2).map (MapTree.single e.1) ++ entriesTrees sprint entries := rfl
    rw [flatMap_cons, propTrees_append, ih hr, hc, hkey, propTrees_entryProps hid.type hent, hb, map_append, map_map]

section
variable {file : File} (hreads : ∀ typ, Reads unmarshal sprint (file.entriesOf typ))
include hreads

theorem propTrees_mappingProps : propTrees unmarshal sprint file.mappingProps = file.mappingTrees sprint := by
  rw [File.mappingProps, propTrees_append]
  have he := propTrees_entries (hreads .extensions) .extensions
  have hr := propTrees_entries (hreads .receivers) .receivers
  rw [File.mappingTrees, MapTree.branches, flatMap_cons, flatMap_cons, flatMap_nil, append_nil]
  exact congrArg₂ (· ++ ·) he hr

theorem good_mappingProps : GoodProps file.mappingProps := by
  have hen : ∀ (typ : ComponentType), ∀ prop ∈ (file.entriesOf typ).flatMap fun e => entryProps typ.text e.1 e.2,
      ∀ q, parseProperty prop.1 = some q → GoodID q.component := by
    intro typ prop hp q hq
    obtain ⟨e, he, hmem⟩ := mem_flatMap.mp hp
    obtain ⟨id, hid, hkey, hent⟩ := hreads typ e he
    rw [hkey] at hmem
    rw [component_of_entryProps hid.type hent hmem hq]
    exact hid
  intro prop hp
  rcases mem_append.mp hp with hp | hp
  · exact hen .extensions prop hp
  · exact hen .receivers prop hp

theorem at_mappingTrees (hn : ∀ typ, (keys (file.entriesOf typ)).Nodup) (typ : ComponentType) (cid : Str)
    (q : List Str) :
    ((file.mappingTrees sprint).foldl MapTree.merge MapTree.emptyNode).at_ (typ.text :: cid :: "config" :: q) =
      (file.configTree typ cid).at_ q := by
  have hp : ∀ {a b : Str} {ts us : List Tree}, a ≠ b → (keys [(a, ts), (b, us)]).Nodup := by
    intro a b ts us hne
    simp [Lib.keys, hne]
  have hs : (MapTree.emptyNode : Tree).at_ [typ.text] = .absent := rfl
  have htyp : find typ.text [("extensions", entriesTrees sprint file.extensions),
      ("receivers", entriesTrees sprint file.receivers)] = some (entriesTrees sprint (file.entriesOf typ)) := by
    cases typ <;> rfl
  have hk : (keys ((file.entriesOf typ).map fun e => (e.1, entryTrees sprint e.2))).Nodup := by
    rw [keys_map_snd]
    exact hn typ
  rw [File.mappingTrees, MapTree.at_foldl_merge_branches (hp (by decide)), htyp, Option.getD_some, hs,
    entriesTrees, MapTree.at_foldl_merge_branches hk, find_map_snd, MapTree.at_absent, File.configTree]
  cases hf : find cid (file.entriesOf typ) with
  | none => simp
  | some ent =>
    obtain ⟨id, -, -, hent⟩ := hreads typ (cid, ent) (find_mem _ _ _ hf)
    have hi : find "config".toList [("enabled", enabledTrees sprint ent.enabled),
        ("config", ent.config.elim [] leafTrees)] = some (ent.config.elim [] leafTrees) := rfl
    rw [Option.map_some, Option.getD_some, entryTrees, MapTree.at_foldl_merge_branches (hp (by decide)), hi,
      Option.getD_some, MapTree.at_absent, Option.bind_some]
    cases hc : ent.config with
    | none => rfl
    | some config =>
      rw [Option.elim_some, Option.elim_some,
        tree_eq_foldl_leafTrees (hent.clean config hc) (hent.ne_nil config hc)]

end

/-! ## Files whose leaves all come back -/

section
variable {file : File} (hfile : file.WellFormed)
include hfile

theorem File.WellFormed.valid_of_hasLeaf {leaf : MappingLeaf} (hleaf : file.HasLeaf leaf) : leaf.Valid := by
  obtain ⟨hid, e, he, -, config, hc, hmem⟩ := hleaf
  have hcl := hfile.configs _ e he config hc
  refine ⟨hid, ?_⟩
  by_cases hnil : config = []
  · rw [hnil] at hmem
    left
    simpa [flattenValue] using hmem
  · have hf : (leaf.path, leaf.value) ∈ flattenFields config := by
      simpa [flattenValue, hnil] using hmem
    exact .inr ⟨flattenFields_good config hcl.good _ hf, flattenFields_not_isNode _ hf⟩

theorem reads_of_leaves (hen : file.EnabledRead)
    (hl : ∀ leaf, file.HasLeaf leaf → ReadsBack unmarshal sprint leaf) (typ : ComponentType) :
    Reads unmarshal sprint (file.entriesOf typ) := by
  intro e he
  obtain ⟨id, hid, hkey⟩ := hfile.ids typ e he
  have hleaf : ∀ config, e.2.config = some config → ∀ x ∈ flattenValue (.map config),
      ReadsBack unmarshal sprint ⟨typ, id, x.1, x.2⟩ :=
    fun config hc x hx => hl _ ⟨hid, e, he, hkey, config, hc, hx⟩
  have hne : ∀ config, e.2.config = some config → config ≠ [] := by
    rintro config hc rfl
    exact (hleaf [] hc ([], .map []) (by simp [flattenValue])).path rfl
  have hf : ∀ config, e.2.config = some config → ∀ x ∈ flattenFields config,
      ReadsBack unmarshal sprint ⟨typ, id, x.1, x.2⟩ := by
    intro config hc x hx
    refine hleaf config hc x ?_
    simpa [flattenValue, hne config hc] using hx
  refine ⟨id, hid, hkey, fun hg => ?_, hfile.configs typ e he, hne, fun config hc x hx => (hf config hc x hx).line⟩
  cases hc : e.2.config with
  | none =>
    rw [hc] at hg
    exact hen typ e he (by simpa using hg) hc id hid hkey
  | some config =>
    obtain ⟨x, hx⟩ := exists_mem_of_ne_nil _ (flattenFields_ne_nil config (hne config hc))
    exact (hf config hc x hx).name

theorem preserved_of_reads (hreads : ∀ typ, Reads unmarshal sprint (file.entriesOf typ)) :
    Preserved unmarshal sprint file := by
  have hpro : GoodProps file.props := by
    intro prop hpr
    rcases mem_append.mp hpr with hpr | hpr
    · exact good_mappingProps hreads prop hpr
    · exact hfile.setForm prop hpr
  obtain ⟨warnings, hc⟩ := exists_loadConf unmarshal sprint hpro
  have hset : file.setOnly.props = file.setForm := rfl
  obtain ⟨setWarnings, hsc⟩ := exists_loadConf unmarshal sprint (hset ▸ hfile.setForm)
  rw [hset] at hsc
  rw [File.props_eq, propTrees_append, foldl_append, propTrees_mappingProps hreads] at hc
  refine ⟨_, warnings, _, setWarnings, hc, hsc, ?_, ?_⟩
  · intro typ cid q ha
    rw [MapTree.at_foldl_merge ha, at_mappingTrees hreads hfile.nodup]
  · intro p hp
    exact MapTree.leafAt_foldl_merge hp _ _

end

end

/-! ## Files with one leaf -/

namespace MappingLeaf

def config (leaf : MappingLeaf) : Fields := Confmap.insertPath leaf.path leaf.value []

def entry (leaf : MappingLeaf) : Str × FileEntry := (leaf.component.string, ⟨some leaf.config, none, []⟩)

def file (leaf : MappingLeaf) : File :=
  match leaf.componentType with
  | .receivers => ⟨[leaf.entry], [], [], []⟩
  | .extensions => ⟨[], [leaf.entry], [], []⟩

variable (leaf : MappingLeaf)

theorem entriesOf_file (typ : ComponentType) :
    leaf.file.entriesOf typ = if typ = leaf.componentType then [leaf.entry] else [] := by
  unfold file
  cases leaf.componentType <;> cases typ <;> rfl

theorem mem_entriesOf_file {typ : ComponentType} {e : Str × FileEntry} (h : e ∈ leaf.file.entriesOf typ) :
    typ = leaf.componentType ∧ e = leaf.entry := by
  rw [entriesOf_file] at h
  split at h
  · exact ⟨‹_›, mem_singleton.mp h⟩
  · cases h

theorem setForm_file : leaf.file.setForm = [] := by
  unfold file
  cases leaf.componentType <;> rfl

theorem props_file :
    leaf.file.props = entryProps leaf.componentType.text leaf.component.string ⟨some leaf.config, none, []⟩ := by
  have hnil : confProps (newFromStringMap []) = [] := rfl
  unfold file
  cases leaf.componentType with
  | receivers =>
    rw [File.props, hnil, flatMap_nil, nil_append, append_nil, flatMap_singleton]
    rfl
  | extensions =>
    rw [File.props, hnil, flatMap_nil, append_nil, append_nil, flatMap_singleton]
    rfl

theorem configTree_file :
    leaf.file.configTree leaf.componentType leaf.component.string = (Value.map leaf.config).tree := by
  have hkey : leaf.entry.1 = leaf.component.string := rfl
  rw [File.configTree, entriesOf_file, if_pos rfl, find, if_pos hkey]
  rfl

variable {leaf} (hleaf : leaf.Valid)
include hleaf

theorem Valid.clean_config : Clean leaf.config := by
  rcases hleaf.item with ⟨hp, -⟩ | ⟨hp, hv⟩
  · rw [config, hp]
    exact clean_nil
  · exact clean_nil.insertPath hp hv

theorem Valid.flattenFields_config (hp : leaf.path ≠ []) :
    flattenFields leaf.config = [(leaf.path, leaf.value)] := by
  rcases hleaf.item with ⟨hnil, -⟩ | ⟨-, hv⟩
  · exact absurd hnil hp
  · exact flattenFields_insertPath hp hv

theorem Valid.flattenValue_config : flattenValue (.map leaf.config) = [(leaf.path, leaf.value)] := by
  by_cases hp : leaf.path = []
  · rcases hleaf.item with ⟨-, hv⟩ | ⟨hg, -⟩
    · rw [config, hp, hv]
      simp [insertPath, flattenValue]
    · rw [hp] at hg
      exact hg.elim
  · have hf := hleaf.flattenFields_config hp
    have hne : leaf.config ≠ [] := by
      intro hnil
      rw [hnil, flattenFields] at hf
      cases hf
    simpa [flattenValue, hne] using hf

theorem Valid.wellFormed_file : leaf.file.WellFormed := by
  refine ⟨fun typ => ?_, fun typ e he => ?_, fun typ e he config hc => ?_, fun prop hp => ?_⟩
  · rw [entriesOf_file]
    split <;> simp [Lib.keys]
  · rw [(leaf.mem_entriesOf_file he).2]
    exact ⟨leaf.component, hleaf.component, rfl⟩
  · rw [(leaf.mem_entriesOf_file he).2] at hc
    cases hc
    exact hleaf.clean_config
  · rw [setForm_file] at hp
    cases hp

theorem Valid.eq_of_hasLeaf {other : MappingLeaf} (h : leaf.file.HasLeaf other) : other = leaf := by
  obtain ⟨hid, e, he, hkey, config, hco, hmem⟩ := h
  obtain ⟨htyp, rfl⟩ := leaf.mem_entriesOf_file he
  cases hco
  rw [hleaf.flattenValue_config, mem_singleton] at hmem
  have hc : leaf.component = other.component :=
    ComponentID.string_injective _ _ hleaf.component.type hid.type hkey
  obtain ⟨typ, id, path, value⟩ := other
  cases hmem
  cases htyp
  cases hc
  rfl

omit hleaf in
theorem enabledRead_file : leaf.file.EnabledRead := by
  intro typ e he hen
  rw [(leaf.mem_entriesOf_file he).2] at hen
  cases hen

end MappingLeaf

section
variable {unmarshal : Str → Except Str Fields} {sprint : Value → Str}

theorem loadConf_one {file : File} (hp : file.props = [prop])
    {warnings : List Warning} (h : loadConf unmarshal sprint file = some (conf, warnings)) :
    conf = MapTree.emptyNode ∨ ∃ p, newProperty unmarshal prop.1 (sprintV sprint prop.2) = .ok p ∧
      conf = confTree (mergeMaps [] p.stringMap) := by
  have he : confTree [] = MapTree.emptyNode := tree_nil
  rw [loadConf, hp, foldlM_cons, loadProp] at h
  cases hnew : newProperty unmarshal prop.1 (sprintV sprint prop.2) with
  | error e =>
    rw [hnew] at h
    cases e with
    | badType t => cases h
    | parsing _ | bool _ | unmarshaling _ _ =>
      cases h
      exact .inl he
  | ok p =>
    rw [hnew] at h
    cases h
    exact .inr ⟨p, rfl, rfl⟩

theorem subStringMap_ne_nil {p : Parsed}
    (h : subStringMap unmarshal property p val = .ok (val', sub)) : sub ≠ [] := by
  rw [subStringMap] at h
  split at h <;> split at h <;> cases h <;> simp

theorem component_of_at (h : newProperty unmarshal property val = .ok p)
    {typ : ComponentType} {cid : Str} {q : List Str}
    (hat : (confTree (mergeMaps [] p.stringMap)).at_ (typ.text :: cid :: q) ≠ .absent) :
    cid <+: p.component.string := by
  obtain ⟨-, -, -, sub, hsub, hmap⟩ := newProperty_eq_ok.mp h
  have ht : ':' ∉ p.componentType.text := by cases p.componentType <;> decide
  obtain ⟨c, hc, hn | ⟨m, hm⟩⟩ := mergeMaps_branch ht p.component.string (subStringMap_ne_nil hsub)
  · rw [hmap, hn] at hat
    exact absurd rfl hat
  · rw [hmap, hm, confTree, newFromStringMap_entry ht, tree_single, tree_single] at hat
    by_cases htyp : typ.text = p.componentType.text
    · by_cases hcid : cid = c
      · rwa [hcid]
      · rw [htyp, MapTree.at_single_self, MapTree.at_single_ne _ _ hcid] at hat
        exact absurd rfl hat
    · rw [MapTree.at_single_ne _ _ htyp] at hat
      exact absurd rfl hat

namespace MappingLeaf

variable {leaf : MappingLeaf} (hleaf : leaf.Valid)

theorem at_of_preserves {set : Tree} (h : Preserves unmarshal sprint leaf.file conf set) :
    conf.at_ [leaf.componentType.text, leaf.component.string, "config"] = (Value.map leaf.config).tree := by
  rw [h.mapping leaf.componentType leaf.component.string [], configTree_file, MapTree.at_nil]
  rw [setForm_file]
  intro t ht
  cases ht

theorem path_ne_nil_of_preserved (h : Preserved unmarshal sprint leaf.file) : leaf.path ≠ [] := by
  obtain ⟨conf, warnings, set, -, hc, -, hp⟩ := h
  have hat := at_of_preserves hp
  intro hpa
  -- a config without entries gives no property
  have hpr : leaf.file.props = [] := by
    rw [props_file, config, hpa]
    rfl
  have hg : GoodProps leaf.file.props := by
    rw [hpr]
    exact fun prop hpro => absurd hpro not_mem_nil
  obtain ⟨_, hl⟩ := exists_loadConf unmarshal sprint hg
  rw [hl, hpr] at hc
  cases hc
  rw [tree_map] at hat
  cases hat

include hleaf

theorem Valid.props_file (hp : leaf.path ≠ []) : leaf.file.props =
    [(propertyText leaf.componentType leaf.component.string .config (joinKey leaf.path), leaf.value)] := by
  rw [MappingLeaf.props_file, entryProps]
  dsimp only
  rw [newFromStringMap_eq hleaf.clean_config, confProps_eq hleaf.clean_config,
    hleaf.flattenFields_config hp, nil_append, map_singleton, map_singleton, entryName_config]

theorem Valid.line (hpat : leaf.path ≠ []) (hname : NameReads leaf.component)
    (h : Preserved unmarshal sprint leaf.file) :
    LineReads unmarshal (untok (propertyTokens (joinKey leaf.path))) (sprintV sprint leaf.value)
      leaf.path leaf.value := by
  obtain ⟨conf, warnings, set, -, hc, -, hp⟩ := h
  have hat := at_of_preserves hp
  have hpr := hleaf.props_file hpat
  have hpa := hname.parseProperty hleaf.component.type leaf.componentType .config (joinKey leaf.path)
  have hg : GoodProps leaf.file.props := by
    intro prop hpro q hq
    rw [hpr, mem_singleton] at hpro
    rw [hpro, hpa] at hq
    cases hq
    exact hleaf.component
  obtain ⟨_, hl⟩ := exists_loadConf unmarshal sprint hg
  rw [hl, hpr, propTrees_of_parse hpa hleaf.component.type, subStringMap] at hc
  dsimp only [keyTokens] at hc
  rw [LineReads]
  cases hy : unmarshal (untok (propertyTokens (joinKey leaf.path)) ++ ": " ++
      sprintV sprint leaf.value) with
  | error e =>
    rw [hy] at hc
    cases hc
    rw [tree_map] at hat
    cases hat
  | ok dst =>
    rw [hy] at hc
    cases hc
    refine ⟨dst, rfl, ?_⟩
    rcases hleaf.item with ⟨hnil, -⟩ | ⟨hpar, hv⟩
    · exact absurd hnil hpat
    · rw [← tree_insertPath hpar hv, ← config, ← hat, foldl_cons, foldl_nil, below,
        MapTree.at_merge_right (by simp [MapTree.emptyNode]), MapTree.at_single_self, MapTree.at_single_self,
        tree_single, MapTree.at_single_self, MapTree.at_nil]

theorem Valid.readsBack (h : Preserved unmarshal sprint leaf.file) : ReadsBack unmarshal sprint leaf := by
  have hp := path_ne_nil_of_preserved h
  have hname : NameReads leaf.component := by
    obtain ⟨conf, warnings, set, -, hc, -, hpr⟩ := h
    have hat := at_of_preserves hpr
    rw [tree_map] at hat
    rcases loadConf_one (hleaf.props_file hp) hc with rfl | ⟨p, hnew, rfl⟩
    · cases hat
    · have hs := component_of_at hnew (by rw [hat]; simp)
      obtain ⟨hpa, hv, -⟩ := newProperty_eq_ok.mp hnew
      exact (nameReads_of_parse hleaf.component.type hpa hv hs).1
  exact ⟨hname, hp, hleaf.line hp hname h⟩

end MappingLeaf

end

/-- Files whose leaves are in a class are preserved exactly when each leaf of the class comes back from its property. -/
theorem preserved_iff (unmarshal : Str → Except Str Fields) (sprint : Value → Str) (leaves : Set MappingLeaf) :
    (∀ file : File, file.WellFormed → file.EnabledRead → (∀ leaf, file.HasLeaf leaf → leaf ∈ leaves) →
      Preserved unmarshal sprint file) ↔
      ∀ leaf ∈ leaves, leaf.Valid → ReadsBack unmarshal sprint leaf := by
  constructor
  · intro h leaf hmem hleaf
    refine hleaf.readsBack (h leaf.file hleaf.wellFormed_file MappingLeaf.enabledRead_file fun other ho => ?_)
    rw [hleaf.eq_of_hasLeaf ho]
    exact hmem
  · intro h file hfile he hl
    refine preserved_of_reads hfile (reads_of_leaves hfile he fun leaf hleaf => ?_)
    exact h leaf (hl leaf hleaf) (hfile.valid_of_hasLeaf hleaf)

/-! ## A string that reads as a boolean -/

def nameLeaf : MappingLeaf := ⟨.receivers, ⟨"redis", []⟩, ["name"], .str "true"⟩

def nameFile : File := ⟨[("redis", ⟨some [("name", .str "true")], none, []⟩)], [], [], []⟩

def nameYaml (text : Str) : Except Str Fields :=
  if text = "name: true" then .ok [("name", .bool true)] else .error []

theorem valid_nameLeaf : nameLeaf.Valid :=
  ⟨⟨by decide, noDouble_of_notMem (by decide), by decide⟩, .inr ⟨noDouble_of_notMem (by decide), rfl⟩⟩

theorem not_preserved_true :
    nameFile.WellFormed ∧ nameFile.EnabledRead ∧ ¬ Preserved nameYaml printTrue nameFile := by
  have hfile : nameLeaf.file = nameFile := rfl
  rw [← hfile]
  refine ⟨valid_nameLeaf.wellFormed_file, MappingLeaf.enabledRead_file, fun h => ?_⟩
  obtain ⟨dst, hdst, ht⟩ := (valid_nameLeaf.readsBack h).line
  have hy : nameYaml (untok (propertyTokens (joinKey nameLeaf.path)) ++ ": " ++
      sprintV printTrue nameLeaf.value) = .ok [("name", .bool true)] := by rfl
  rw [hy] at hdst
  cases hdst
  have hat := congrArg (fun t => MapTree.at_ t ["name".toList]) ht
  cases hat

end Collector.Discovery
