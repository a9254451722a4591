import Collector.Discovery.ConsumeLogs
import Collector.Discovery.EnvVar
import Collector.Lib.Layers

/-!
# The configuration of the discovery properties

`propertiesConfFromEnv`, `parsedProperty` and `loadPropertiesFile` with the loader of
`internal/confmapprovider/discovery/properties/conf.go`. A `--set` property goes over what is there, a file goes under
it.
-/

namespace Collector.Discovery

open Lib Strings List

variable {environ p : List Str} {conf : Tree} (val : Str)

/-! ## The environment -/

def confTree (m : Fields) : Tree := (Value.map (Confmap.newFromStringMap m)).tree

inductive CallErr where
  | notOfForm (rawProperty : Str)
  | property (e : PropertyErr)
  | file (e : Str)
  | panic
  deriving DecidableEq

inductive Reading where
  | skipped
  | panics
  | conf (t : Tree)

section
variable (unmarshal : Str → Except Str Fields)

def readEnv (env : Str) : Reading :=
  match cut '=' env with
  | none => .skipped
  | some (envVar, val) =>
    if val = [] then .skipped
    else if envVar = "SPLUNK_DISCOVERY_LOG_LEVEL" ∨ envVar = "SPLUNK_DISCOVERY_DURATION" then
      .skipped
    else
      match newPropertyFromEnvVar unmarshal envVar val with
      | none => .skipped
      | some (.error (.property (.badType _))) => .panics
      | some (.error _) => .skipped
      | some (.ok p) => .conf (confTree p.stringMap)

def addEnv (propertiesConf : Tree) (env : Str) : Option Tree :=
  match readEnv unmarshal env with
  | .skipped => some propertiesConf
  | .panics => none
  | .conf t => some (propertiesConf.merge t)

/-- All of `os.Environ`. `none` is a panic. -/
def propertiesConfFromEnv (environ : List Str) : Option Tree :=
  environ.foldlM (addEnv unmarshal) MapTree.emptyNode

/-! ## Files -/

structure FileEntry where
  config : Option Fields
  enabled : Option Bool
  unknown : List Str

structure File where
  receivers : List (Str × FileEntry)
  extensions : List (Str × FileEntry)
  unknown : List Str
  entries : Fields

inductive Warning where
  | unknownMapping (name : Str)
  | unknownProperty (name : Str)
  | property (e : PropertyErr)
  deriving DecidableEq

def entryName (typ : Str) (cid : Str) : Str := "splunk.discovery." ++ typ ++ '.' :: cid

def confProps (conf : Fields) : List (Str × Value) :=
  (Confmap.allKeys conf).map fun k => (k, Confmap.get conf k)

def entryProps (typ : Str) (cid : Str) (ent : FileEntry) : List (Str × Value) :=
  (match ent.enabled with
    | none => []
    | some b => [(entryName typ cid ++ ".enabled", .bool b)]) ++
  match ent.config with
  | none => []
  | some config => (confProps (Confmap.newFromStringMap config)).map fun prop =>
      (entryName typ cid ++ ".config." ++ prop.1, prop.2)

/-- The properties in the order in which they are loaded: the `--set` form comes last. -/
def File.props (file : File) : List (Str × Value) :=
  file.extensions.flatMap (fun e => entryProps "extensions" e.1 e.2) ++
  file.receivers.flatMap (fun e => entryProps "receivers" e.1 e.2) ++
  confProps (Confmap.newFromStringMap file.entries)

def File.unknownWarnings (file : File) : List Warning :=
  let unknownIn (typ : Str) (entries : List (Str × FileEntry)) : List Warning :=
    (sortStrings (entries.flatMap fun e => e.2.unknown.map fun u => entryName typ e.1 ++ '.' :: u)).map
      .unknownProperty
  (sortStrings file.unknown).map .unknownMapping ++ unknownIn "extensions" file.extensions ++
    unknownIn "receivers" file.receivers

variable (sprint : Value → Str)

/-- One property of a file. A bad one is a warning, and `none` is a panic. -/
def loadProp (loaded : Fields × List Warning) (prop : Str × Value) : Option (Fields × List Warning) :=
  match newProperty unmarshal prop.1 (Confmap.sprintV sprint prop.2) with
  | .error (.badType _) => none
  | .error e => some (loaded.1, loaded.2 ++ [.property e])
  | .ok p => some (Confmap.mergeMaps loaded.1 p.stringMap, loaded.2)

def loadConf (file : File) : Option (Tree × List Warning) :=
  (file.props.foldlM (loadProp unmarshal sprint) ([], file.unknownWarnings)).map fun loaded =>
    (confTree loaded.1, loaded.2)

/-! ## The calls -/

structure PropertiesState where
  propertiesConf : Tree
  propertiesFileSpecified : Bool

variable (decode : Fields → Except Str File)

/-- The properties that are there go over those of the entry. -/
def mergeDiscoveryPropertiesEntry (d : PropertiesState) (raw : Fields) : Except CallErr PropertiesState :=
  match decode raw with
  | .error e => .error (.file e)
  | .ok file =>
    match loadConf unmarshal sprint file with
    | none => .error .panic
    | some (conf, _) => .ok { d with propertiesConf := conf.merge d.propertiesConf }

/-- `content` is what `LoadProperties` reads. -/
def loadPropertiesFile (d : PropertiesState) (content : Except Str Fields) : Except CallErr PropertiesState :=
  match content with
  | .error e => .error (.file e)
  | .ok raw =>
    match mergeDiscoveryPropertiesEntry unmarshal sprint decode d raw with
    | .error e => .error e
    | .ok d => .ok { d with propertiesFileSpecified := true }

def parsedProperty (d : PropertiesState) (rawProperty : Str) : Except CallErr PropertiesState :=
  match cut '=' rawProperty with
  | none => .error (.notOfForm rawProperty)
  | some (property, val) =>
    if val = [] then .error (.notOfForm rawProperty)
    else
      match newProperty unmarshal property val with
      | .error (.badType _) => .error .panic
      | .error e => .error (.property e)
      | .ok prop => .ok { d with propertiesConf := d.propertiesConf.merge (confTree prop.stringMap) }

inductive Call where
  | set (rawProperty : Str)
  | file (content : Except Str Fields)
  | entry (raw : Fields)

def call (d : PropertiesState) : Call → Except CallErr PropertiesState
  | .set rawProperty => parsedProperty unmarshal d rawProperty
  | .file content => loadPropertiesFile unmarshal sprint decode d content
  | .entry raw => mergeDiscoveryPropertiesEntry unmarshal sprint decode d raw

/-- A call that fails changes nothing, and a panic ends the run. -/
def runCalls : List Call → PropertiesState → PropertiesState
  | [], d => d
  | c :: cs, d =>
    match call unmarshal sprint decode d c with
    | .ok d => runCalls cs d
    | .error .panic => d
    | .error _ => runCalls cs d

/-! ## The calls as layers -/

open MapTree

def fileLayer (raw : Fields) : Except CallErr (Layer Str Value) :=
  match decode raw with
  | .error e => .error (.file e)
  | .ok file =>
    match loadConf unmarshal sprint file with
    | none => .error .panic
    | some (conf, _) => .ok (.lower conf)

def setLayer (rawProperty : Str) : Except CallErr (Layer Str Value) :=
  match cut '=' rawProperty with
  | none => .error (.notOfForm rawProperty)
  | some (property, val) =>
    if val = [] then .error (.notOfForm rawProperty)
    else
      match newProperty unmarshal property val with
      | .error (.badType _) => .error .panic
      | .error e => .error (.property e)
      | .ok prop => .ok (.upper (confTree prop.stringMap))

def callLayer : Call → Except CallErr (Layer Str Value)
  | .set rawProperty => setLayer unmarshal rawProperty
  | .file content =>
    match content with
    | .error e => .error (.file e)
    | .ok raw => fileLayer unmarshal sprint decode raw
  | .entry raw => fileLayer unmarshal sprint decode raw

def Call.isFile : Call → Bool
  | .file _ => true
  | _ => false

variable (d : PropertiesState)

theorem mergeEntry_eq (raw : Fields) : mergeDiscoveryPropertiesEntry unmarshal sprint decode d raw =
      (fileLayer unmarshal sprint decode raw).map fun layer =>
        ⟨layer.apply d.propertiesConf, d.propertiesFileSpecified⟩ := by
  unfold mergeDiscoveryPropertiesEntry fileLayer
  cases decode raw with
  | error e => rfl
  | ok file =>
    dsimp only
    cases loadConf unmarshal sprint file <;> rfl

theorem parsedProperty_eq (rawProperty : Str) :
    parsedProperty unmarshal d rawProperty = (setLayer unmarshal rawProperty).map fun layer =>
      ⟨layer.apply d.propertiesConf, d.propertiesFileSpecified⟩ := by
  unfold parsedProperty setLayer
  cases cut '=' rawProperty with
  | none => rfl
  | some pv =>
    dsimp only
    split
    · rfl
    · cases newProperty unmarshal pv.1 pv.2 with
      | error e => cases e <;> rfl
      | ok prop => rfl

theorem call_eq (c : Call) : call unmarshal sprint decode d c = (callLayer unmarshal sprint decode c).map fun layer =>
      ⟨layer.apply d.propertiesConf, d.propertiesFileSpecified || c.isFile⟩ := by
  cases c with
  | set rawProperty =>
    rw [call, callLayer, parsedProperty_eq]
    simp [Call.isFile]
  | entry raw =>
    rw [call, callLayer, mergeEntry_eq]
    simp [Call.isFile]
  | file content =>
    cases content with
    | error e => rfl
    | ok raw =>
      show loadPropertiesFile unmarshal sprint decode d (.ok raw) = (fileLayer unmarshal sprint decode raw).map _
      rw [loadPropertiesFile, mergeEntry_eq]
      cases fileLayer unmarshal sprint decode raw with
      | error e => rfl
      | ok layer => simp [Except.map, Call.isFile]

def callLayers : List Call → List (Layer Str Value)
  | [] => []
  | c :: cs =>
    match callLayer unmarshal sprint decode c with
    | .ok layer => layer :: callLayers cs
    | .error .panic => []
    | .error _ => callLayers cs

variable (cs : List Call)

theorem runCalls_eq (d : PropertiesState) : (runCalls unmarshal sprint decode cs d).propertiesConf =
      (callLayers unmarshal sprint decode cs).foldl Layer.apply d.propertiesConf := by
  induction cs generalizing d with
  | nil => rfl
  | cons c cs ih =>
    rw [runCalls, callLayers, call_eq]
    cases callLayer unmarshal sprint decode c with
    | ok layer => exact ih _
    | error e => cases e <;> first | rfl | exact ih d

def envTrees (environ : List Str) : List Tree := environ.filterMap fun env =>
  match readEnv unmarshal env with
  | .conf t => some t
  | _ => none

theorem propertiesConfFromEnv_eq (h : propertiesConfFromEnv unmarshal environ = some conf) :
    conf = ((envTrees unmarshal environ).map Layer.upper).foldl Layer.apply emptyNode := by
  have hinv := foldlM_inv (addEnv unmarshal) (fun es conf =>
    conf = ((envTrees unmarshal es).map Layer.upper).foldl Layer.apply emptyNode) emptyNode environ rfl
  refine hinv ?_ conf h
  intro es env conf conf' _ hc hadd
  unfold addEnv at hadd
  unfold envTrees at hc ⊢
  rw [filterMap_append]
  cases hr : readEnv unmarshal env with
  | skipped =>
    rw [hr] at hadd
    cases hadd
    simpa [hr] using hc
  | panics =>
    rw [hr] at hadd
    cases hadd
  | conf t =>
    rw [hr] at hadd
    cases hadd
    simp [hr, ← hc, Layer.apply]

/-! ## Precedence -/

def setTrees (cs : List Call) : List Tree := uppers (callLayers unmarshal sprint decode cs)

def fileTrees (cs : List Call) : List Tree := lowers (callLayers unmarshal sprint decode cs)

def inputTrees (environ : List Str) (cs : List Call) : List Tree :=
  envTrees unmarshal environ ++ setTrees unmarshal sprint decode cs ++ fileTrees unmarshal sprint decode cs

/-- The value of the last `--set` property at a path, or else that of the environment, or else that of
the first file. -/
def inputValue (environ : List Str) (cs : List Call) (path : List Str) : Option Value :=
  ((setTrees unmarshal sprint decode cs).reverse.findSome? (leafAt path)).or
    (((envTrees unmarshal environ).reverse.findSome? (leafAt path)).or
      ((fileTrees unmarshal sprint decode cs).findSome? (leafAt path)))

def inputLayers (environ : List Str) (cs : List Call) : List (Layer Str Value) :=
  (envTrees unmarshal environ).map Layer.upper ++ callLayers unmarshal sprint decode cs

theorem tree_mem_inputTrees {cs : List Call} {layer : Layer Str Value}
    (h : layer ∈ inputLayers unmarshal sprint decode environ cs) :
    layer.tree ∈ inputTrees unmarshal sprint decode environ cs := by
  unfold inputTrees
  rw [mem_append, mem_append]
  rcases mem_append.mp h with henv | hc
  · obtain ⟨t, ht, rfl⟩ := mem_map.mp henv
    exact Or.inl (Or.inl ht)
  · rcases mem_uppers_or_lowers hc with hset | hf
    · exact Or.inl (Or.inr hset)
    · exact Or.inr hf

theorem inputValue_eq (environ : List Str) (cs : List Call) (path : List Str) :
    inputValue unmarshal sprint decode environ cs path =
      topLeaf path (inputLayers unmarshal sprint decode environ cs) := by
  unfold topLeaf inputLayers
  rw [uppers_map_upper, lowers_map_upper, reverse_append, findSome?_append, Option.or_assoc]
  rfl

theorem runCalls_eq_layered (specified : Bool) (henv : propertiesConfFromEnv unmarshal environ = some conf) :
    (runCalls unmarshal sprint decode cs ⟨conf, specified⟩).propertiesConf =
      layered (inputLayers unmarshal sprint decode environ cs) := by
  unfold layered inputLayers
  rw [runCalls_eq, propertiesConfFromEnv_eq unmarshal henv, foldl_append]

/-- After any calls, a leaf is that of the last `--set` property at its path, of the environment, or of the first
file. No such value is lost but where an input has a map. -/
theorem runCalls_precedence (environ : List Str) (conf : Tree) (cs : List Call) (specified : Bool)
    (henv : propertiesConfFromEnv unmarshal environ = some conf)
    (hfree : ConflictFree (inputTrees unmarshal sprint decode environ cs)) (path : List Str) :
    let final := (runCalls unmarshal sprint decode cs ⟨conf, specified⟩).propertiesConf
    (∀ v, final.at_ path = leaf v → inputValue unmarshal sprint decode environ cs path = some v) ∧
      (path ≠ [] → (∀ t ∈ inputTrees unmarshal sprint decode environ cs, ∀ m, t.at_ path ≠ node m) →
        leafAt path final = inputValue unmarshal sprint decode environ cs path) := by
  intro final
  have hf : final = layered (inputLayers unmarshal sprint decode environ cs) :=
    runCalls_eq_layered unmarshal sprint decode cs specified henv
  have hin : ∀ layer ∈ inputLayers unmarshal sprint decode environ cs,
      layer.tree ∈ inputTrees unmarshal sprint decode environ cs :=
    fun layer h => tree_mem_inputTrees unmarshal sprint decode h
  rw [inputValue_eq, hf]
  refine ⟨fun v hv => hfree.topLeaf hin hv, fun hp hn => ?_⟩
  exact hfree.leafAt_layered hin hp fun layer h => hn layer.tree (hin layer h)

end

/-! ## A file, a variable and a `--set` property for one setting -/

theorem exists_of_at_single {k : Str} {v w : Value}
    (h : (Value.map [(k, v)]).tree.at_ p = .leaf w) : ∃ q, p = k :: q ∧ v.tree.at_ q = .leaf w := by
  rw [tree_map] at h
  cases p with
  | nil => cases h
  | cons k' q =>
    rw [MapTree.at_node, fieldsTree, fieldsTree] at h
    by_cases hk : k = k'
    · rw [if_pos hk] at h
      exact ⟨q, by rw [hk], h⟩
    · rw [if_neg hk, MapTree.at_absent] at h
      cases h

def redisSetting : List Str := ["receivers", "redis", "enabled"]

def redisMap (val : Str) : Fields :=
  [("receivers", .map [("redis", .map [("enabled", .str val)])])]

def redisEnabled (val : Str) : Tree := (Value.map (redisMap val)).tree

theorem path_of_redisEnabled {val : Str} {v : Value} (h : (redisEnabled val).at_ p = .leaf v) : p = redisSetting := by
  obtain ⟨p, rfl, hr⟩ := exists_of_at_single h
  obtain ⟨p, rfl, hre⟩ := exists_of_at_single hr
  obtain ⟨p, rfl, he⟩ := exists_of_at_single hre
  cases p with
  | nil => rfl
  | cons k p => cases he

theorem newFromStringMap_redisMap : Confmap.newFromStringMap (redisMap val) = redisMap val := by
  rfl

theorem mergeMaps_redisMap : Confmap.mergeMaps [] (redisMap val) = redisMap val := by
  have hm : Confmap.mergeInto (redisMap val) [] = redisMap val := by rfl
  have hf : Confmap.flatten (redisMap val) = [("receivers::redis::enabled".toList, .str val)] := by rfl
  have hu : Confmap.unflatten [("receivers::redis::enabled".toList, .str val)] = redisMap val := by
    rfl
  have hnil : Confmap.newFromStringMap [] = [] := rfl
  rw [Confmap.mergeMaps, Confmap.toStringMap, newFromStringMap_redisMap, hnil, hm, hf, hu]
  rfl

def noYaml (_ : Str) : Except Str Fields := .error []

def printTrue (_ : Value) : Str := "true"

def redisFile : File := ⟨[("redis", ⟨none, some true, []⟩)], [], [], []⟩

def redisDecode (_ : Fields) : Except Str File := .ok redisFile

def redisEnviron : List Str := ["SPLUNK_DISCOVERY_RECEIVERS_redis_ENABLED=true"]

def redisCalls : List Call :=
  [.set "splunk.discovery.receivers.redis.enabled=false",
    .file (.ok [("splunk.discovery", .map [("receivers", .map [("redis", .map [("enabled", .bool true)])])])])]

theorem loadConf_redisFile : loadConf noYaml printTrue redisFile = some (redisEnabled "true".toList, []) := by
  have hp : redisFile.props = [("splunk.discovery.receivers.redis.enabled".toList, .bool true)] := by rfl
  have hpr : loadProp noYaml printTrue ([], []) ("splunk.discovery.receivers.redis.enabled".toList, .bool true) =
        some (Confmap.mergeMaps [] (redisMap "true".toList), []) := by rfl
  have hw : redisFile.unknownWarnings = [] := by
    simp [File.unknownWarnings, sortStrings, redisFile]
  unfold loadConf
  rw [hp, hw, foldlM_cons, hpr, mergeMaps_redisMap]
  show some (confTree (redisMap "true".toList), _) = _
  rw [confTree, newFromStringMap_redisMap]
  rfl

theorem callLayers_redisCalls : callLayers noYaml printTrue redisDecode redisCalls =
    [.upper (redisEnabled "false"), .lower (redisEnabled "true")] := by
  have hset : setLayer noYaml "splunk.discovery.receivers.redis.enabled=false" =
      .ok (.upper (redisEnabled "false")) := by rfl
  unfold redisCalls
  rw [callLayers, callLayer, hset]
  dsimp only
  rw [callLayers, callLayer, fileLayer, redisDecode]
  dsimp only
  rw [loadConf_redisFile]
  rfl

theorem redisInputs : inputTrees noYaml printTrue redisDecode redisEnviron redisCalls =
    ["true", "false", "true"].map fun val => redisEnabled val.toList := by
  have henv : envTrees noYaml redisEnviron = [redisEnabled "true"] := by rfl
  rw [inputTrees, setTrees, fileTrees, callLayers_redisCalls, henv]
  rfl

theorem redisInputs_conflictFree :
    MapTree.ConflictFree (inputTrees noYaml printTrue redisDecode redisEnviron redisCalls) := by
  have hpa : ∀ t ∈ inputTrees noYaml printTrue redisDecode redisEnviron redisCalls,
      ∀ p v, t.at_ p = .leaf v → p = redisSetting := by
    intro t ht p v h
    rw [redisInputs] at ht
    obtain ⟨val, -, rfl⟩ := mem_map.mp ht
    exact path_of_redisEnabled h
  intro t ht u hu p q v w htp hup
  have hp := hpa t ht p v htp
  have hpq := hpa u hu (p ++ q) w hup
  rw [hp] at hpq
  exact append_right_eq_self.mp hpq

theorem redisInputs_leaf {t : Tree} (ht : t ∈ inputTrees noYaml printTrue redisDecode redisEnviron redisCalls) :
    ∃ v, t.at_ redisSetting = .leaf v := by
  rw [redisInputs] at ht
  obtain ⟨val, -, rfl⟩ := mem_map.mp ht
  exact ⟨.str val.toList, rfl⟩

theorem runCalls_precedence_redis : MapTree.leafAt redisSetting (runCalls noYaml printTrue redisDecode redisCalls
      ⟨MapTree.emptyNode.merge (redisEnabled "true"), false⟩).propertiesConf = some (.str "false") := by
  have hva : inputValue noYaml printTrue redisDecode redisEnviron redisCalls redisSetting = some (.str "false") := by
    rw [inputValue, setTrees, callLayers_redisCalls]
    rfl
  rw [← hva]
  refine (runCalls_precedence noYaml printTrue redisDecode redisEnviron _ redisCalls false (by rfl)
    redisInputs_conflictFree redisSetting).2 (by decide) ?_
  intro t ht m hm
  obtain ⟨v, hv⟩ := redisInputs_leaf ht
  rw [hv] at hm
  cases hm

end Collector.Discovery
