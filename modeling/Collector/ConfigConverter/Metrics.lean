import Collector.Confmap.Lookup
import Collector.ConfigConverter.Discovery
import Collector.Lib.Regex

/-!
# Metrics that are disabled

`disable_kubelet_utilization_metrics.go` with the filters of `dpfilters`, and
`disable_excessive_internal_metrics.go` of `internal/configconverter`.
-/

namespace Collector.ConfigConverter

open Lib Lib.Outcome Lib.Regex Confmap

variable {sc : Value} {conf : Fields} {key : Str}

/-! ## Filters of datapoints -/

namespace DpFilters

structure MetricFilter where
  dimensions : Fields
  metricName : Str
  metricNames : List Str

abbrev Matcher := (Str → Bool) × Bool

structure StringFilter where
  staticSet : List (Str × Bool)
  regexps : List Matcher
  globs : List Matcher

structure DataPointFilter where
  metricFilter : Option StringFilter
  dimensionsFilter : Option (List (Str × StringFilter))

structure DataPoint where
  metric : Str
  dimensions : List (Str × Str)

structure FilterSet where
  excludeFilters : List DataPointFilter
  includeFilters : List DataPointFilter

def stripNegation : Str → Str × Bool
  | '!' :: value => (value, true)
  | value => (value, false)

def isRegex (s : Str) : Bool := 2 < s.length && s.head? == some '/' && s.getLast? == some '/'

def isGlobbed (s : Str) : Bool := s.any fun c => "*?[]\x7b\x7d!".toList.contains c

def stripSlashes (s : Str) : Str := (s.drop 1).dropLast

/-- `fmt.Sprintf("%v", _)`, and the two libraries that compile patterns. -/
structure Compilers where
  sprint : Value → Str
  regexp : Str → Option (Str → Bool)
  glob : Str → Option (Str → Bool)

variable (compile : Compilers)

def addItem (f : StringFilter) (item : Str) : Option StringFilter :=
  let (m, negated) := stripNegation item
  if isRegex m then
    (compile.regexp (stripSlashes m)).map fun re => { f with regexps := f.regexps ++ [(re, negated)] }
  else if isGlobbed m then
    (compile.glob m).map fun g => { f with globs := f.globs ++ [(g, negated)] }
  else some { f with staticSet := put m negated f.staticSet }

def newStringFilter (items : List Str) : Option StringFilter := items.foldlM (addItem compile) ⟨[], [], []⟩

def matchAny (s : Str) : List Matcher → Bool → Option Bool
  | [], matched => some matched
  | (m, negated) :: ms, matched => if m s && negated then none else matchAny s ms (matched || m s)

def StringFilter.matchString (f : StringFilter) (s : Str) : Bool :=
  match find s f.staticSet with
  | some true => false
  | static => (((matchAny s f.regexps static.isSome).bind (matchAny s f.globs)).getD false)

def MetricFilter.normalize (mf : MetricFilter) : Option (List Str × List (Str × List Str)) := do
  let dimSet ← mf.dimensions.mapM fun (k, v) =>
    match v with
    | .list vs => some (k, vs.map compile.sprint)
    | .str s => some (k, [s])
    | _ => none
  return (if mf.metricName = [] then mf.metricNames else mf.metricNames ++ [mf.metricName], dimSet)

def newDimensionsFilter (m : List (Str × List Str)) : Option (List (Str × StringFilter)) :=
  m.mapM fun (k, items) => if items.isEmpty then none else (newStringFilter compile items).map fun f => (k, f)

def dimensionsMatch (filterMap : List (Str × StringFilter)) (dimensions : List (Str × Str)) : Bool :=
  dimensions.all (fun dim => (find dim.1 filterMap).all (·.matchString dim.2)) &&
    dimensions.any fun dim => (find dim.1 filterMap).isSome

def newDataPointFilter (metricNames : List Str) (dimSet : List (Str × List Str)) : Option DataPointFilter := do
  let metricFilter ← if metricNames.isEmpty then some none else (newStringFilter compile metricNames).map some
  let dimensionsFilter ← if dimSet.isEmpty then some none else (newDimensionsFilter compile dimSet).map some
  if metricFilter.isNone && dimensionsFilter.isNone then none
  else return ⟨metricFilter, dimensionsFilter⟩

def DataPointFilter.matchPoint (f : DataPointFilter) (dp : DataPoint) : Bool :=
  f.metricFilter.all (·.matchString dp.metric) && f.dimensionsFilter.all (dimensionsMatch · dp.dimensions)

def getDataPointFilters (metricFilters : List MetricFilter) : Option (List DataPointFilter) :=
  metricFilters.mapM fun f => do
    let (metricNames, dimSet) ← f.normalize compile
    newDataPointFilter compile metricNames dimSet

def newFilterSet (excludes includes : List MetricFilter) : Option FilterSet := do
  let excludeSet ← getDataPointFilters compile excludes
  let includeSet ← getDataPointFilters compile includes
  return ⟨excludeSet, includeSet⟩

def FilterSet.matchPoint (fs : FilterSet) (dp : DataPoint) : Bool :=
  fs.excludeFilters.any (·.matchPoint dp) && !fs.includeFilters.any (·.matchPoint dp)

end DpFilters

/-! ## Kubelet metrics -/

namespace DisableKubeletUtilizationMetrics

open DpFilters

structure SignalfxExporterConfig where
  excludeMetrics : List MetricFilter
  includeMetrics : List MetricFilter

def utilizationMetrics : List Str :=
  ["k8s.node.cpu.utilization", "k8s.pod.cpu.utilization", "container.cpu.utilization"]

def defaultExcludeMetrics : List MetricFilter :=
  [⟨[], [], ["/^(?i:(container)|(k8s\\.node)|(k8s\\.pod))\\.cpu\\.utilization$/"]⟩]

/-- The maps among the components whose name matches `type(/\w+)?`. -/
def configsOf (type : Str) (components : Fields) : List (Str × Fields) :=
  components.filterMap fun (name, cfg) =>
    match search (seq (lit type) (opt (group 1 (seq (lit ['/']) (plus word))))) name, cfg with
    | some _, .map m => some (name, m)
    | _, _ => none

variable (compile : Compilers) (unmarshal : Fields → Option SignalfxExporterConfig)

def checkExporter (disableMetrics : List (Str × Bool)) (cm : Str × Fields) : Option (List (Str × Bool)) := do
  let cfg ← unmarshal (newFromStringMap cm.2)
  let excludeMetrics := if cfg.excludeMetrics.isEmpty then defaultExcludeMetrics else cfg.excludeMetrics
  let filter ← newFilterSet compile excludeMetrics cfg.includeMetrics
  return disableMetrics.map fun (metricName, disabled) => (metricName, disabled && filter.matchPoint ⟨metricName, []⟩)

def disableMetric (metricsCfg : Fields) (metric : Str × Bool) : Fields :=
  if (find metric.1 metricsCfg).isNone && metric.2 then put metric.1 (.map [("enabled", .bool false)]) metricsCfg
  else metricsCfg

def disableIn (disableMetrics : List (Str × Bool)) (conf : Fields) (receiver : Str × Fields) : Fields :=
  let metricsCfg := match find "metrics".toList receiver.2 with
    | some (.map m) => m
    | _ => []
  let metricsCfg := disableMetrics.foldl disableMetric metricsCfg
  if metricsCfg.isEmpty then conf
  else
    let metricsCfgKey := "receivers::" ++ receiver.1 ++ "::metrics"
    merge conf (newFromStringMap [(metricsCfgKey, .map metricsCfg)])

def disable (conf : Fields) : Option Fields := do
  let receivers ← sub conf "receivers"
  let exporters ← sub conf "exporters"
  let kubeletReceiverConfigs := configsOf "kubeletstats" (toStringMap receivers)
  let sfxExporterConfigs := configsOf "signalfx" (toStringMap exporters)
  if kubeletReceiverConfigs.isEmpty || sfxExporterConfigs.isEmpty then none
  else
    let disableMetrics ← sfxExporterConfigs.foldlM (checkExporter compile unmarshal) (utilizationMetrics.map (·, true))
    return kubeletReceiverConfigs.foldl (disableIn disableMetrics) conf

def convert (conf : Fields) : Result Fields := .ok ((disable compile unmarshal conf).getD conf)

end DisableKubeletUtilizationMetrics

/-! ## Metrics of the collector -/

namespace DisableExcessiveInternalMetrics

def promJobNamePrefix : Str := "otel-"

def metricPatterns : List Str :=
  ["otelcol_rpc_.*", "otelcol_http_.*", "otelcol_processor_batch_.*"]

def metricNameLabel : Str := "__name__"

def promScrapeConfigsKeys : List Str :=
  ["receivers::prometheus/internal::config::scrape_configs", "receivers::prometheus/agent::config::scrape_configs",
    "receivers::prometheus/k8s_cluster_receiver::config::scrape_configs",
    "receivers::prometheus/collector::config::scrape_configs"]

def foundRegexPattern : Value → Option Str
  | .map mrc =>
    match find "source_labels".toList mrc, find "regex".toList mrc with
    | some (.list [.str label]), some (.str regex) => if label = metricNameLabel then some regex else none
    | _, _ => none
  | _ => none

def addPatterns (mrcs : List Value) : List Value :=
  mrcs ++ (metricPatterns.filter fun pattern => !(mrcs.filterMap foundRegexPattern).contains pattern).map fun pattern =>
    .map [("source_labels", .list [.str metricNameLabel]), ("regex", .str pattern), ("action", .str "drop")]

def addRelabelConfigs (sc : Fields) : Fields :=
  match (find "metric_relabel_configs".toList sc).getD .null with
  | .null => put "metric_relabel_configs" (.list (addPatterns [])) sc
  | .list mrcs => put "metric_relabel_configs" (.list (addPatterns mrcs)) sc
  | _ => sc

def updateScrapeConfig : Value → Result Value
  | .map sc =>
    match find "job_name".toList sc with
    | none => .ok (.map sc)
    | some jobName => do
      let jobName ← asString jobName
      return .map (if promJobNamePrefix.isPrefixOf jobName then addRelabelConfigs sc else sc)
  | v => .ok v

def updateKey (conf : Fields) (key : Str) : Result Fields :=
  match lookup conf key with
  | .list scrapeConfigs => do
    let scrapeConfigs ← scrapeConfigs.foldlM (fun done sc => do
      let sc ← updateScrapeConfig sc
      return done ++ [sc]) []
    return merge conf (newFromStringMap [(key, .list scrapeConfigs)])
  | _ => .ok conf

def convert (conf : Fields) : Result Fields := promScrapeConfigsKeys.foldlM updateKey conf

def NamedJob (scrapeConfig : Value) : Prop :=
  ∀ sc, scrapeConfig = .map sc → ∀ v, find "job_name".toList sc = some v → ∃ s, v = .str s

def WellFormed (scrapeConfigs : Value) : Prop := ∀ vs, scrapeConfigs = .list vs → ∀ sc ∈ vs, NamedJob sc

theorem updateScrapeConfig_eq (h : NamedJob sc) : ∃ sc', updateScrapeConfig sc = .ok sc' := by
  cases sc with
  | map sc =>
    rw [updateScrapeConfig]
    cases hjob : find "job_name".toList sc with
    | none => exact ⟨_, rfl⟩
    | some jobName =>
      obtain ⟨s, rfl⟩ := h sc rfl jobName hjob
      exact ⟨_, rfl⟩
  | null | bool _ | int _ | float _ | str _ | bytes _ | list _ | imap _ => exact ⟨_, rfl⟩

theorem namedJob_of_safe (h : Safe (updateScrapeConfig sc)) : NamedJob sc := by
  rintro sc rfl v hv
  rw [updateScrapeConfig, hv] at h
  have hs := ((safe_bind _ _).mp h).1
  cases v with
  | str s => exact ⟨s, rfl⟩
  | null | bool _ | int _ | float _ | bytes _ | list _ | map _ | imap _ => exact absurd hs (not_safe_panic _)

theorem scrapeConfigs_ok (sc : Value) (_ done : List Value) (_ : True) (h : NamedJob sc) :
    ∃ done', (do let sc ← updateScrapeConfig sc; return done ++ [sc] : Result (List Value)) = .ok done' ∧ True := by
  obtain ⟨sc', hsc'⟩ := updateScrapeConfig_eq h
  rw [hsc']
  exact ⟨_, rfl, trivial⟩

theorem updateKey_eq (h : WellFormed (lookup conf key)) : ∃ conf', updateKey conf key = .ok conf' ∧
      ∀ key', parted (splitKey key) (splitKey key') = true → lookup conf' key' = lookup conf key' := by
  rw [updateKey]
  split
  · rename_i scs hscs
    obtain ⟨scs', hscs'⟩ := foldlM_ok (fun _ _ => True) scrapeConfigs_ok trivial (h scs hscs) (s := [])
    rw [hscs']
    exact ⟨_, rfl, fun key' hkey' => lookup_merge hkey' _ conf⟩
  · exact ⟨conf, rfl, fun _ _ => rfl⟩

theorem wellFormed_of_safe (h : Safe (updateKey conf key)) : WellFormed (lookup conf key) := by
  intro scs hscs
  rw [updateKey, hscs] at h
  refine (safe_foldlM (fun _ _ => True) scrapeConfigs_ok ?_ trivial).mp ((safe_bind _ _).mp h).1
  exact fun sc l done _ hs => namedJob_of_safe ((safe_bind _ _).mp hs).1

theorem safe_convert (conf : Fields) :
    Safe (convert conf) ↔ ∀ key ∈ promScrapeConfigsKeys, WellFormed (lookup conf key) := by
  -- the keys part from each other, so an update leaves those to come as they were
  refine safe_foldlM (fun keys conf' => keys.Pairwise (fun k k' => parted (splitKey k) (splitKey k') = true) ∧
    ∀ key ∈ keys, lookup conf' key = lookup conf key) ?_ ?_ ⟨by decide, fun _ _ => rfl⟩
  · rintro key keys conf' ⟨hp, hs⟩ hkey
    rw [List.forall_mem_cons] at hs
    rw [List.pairwise_cons] at hp
    obtain ⟨conf'', hu, ho⟩ := updateKey_eq (hs.1.symm ▸ hkey)
    exact ⟨conf'', hu, hp.2, fun key' hk => (ho key' (hp.1 key' hk)).trans (hs.2 key' hk)⟩
  · rintro key keys conf' ⟨-, hs⟩ h
    rw [← hs key List.mem_cons_self]
    exact wellFormed_of_safe h

end DisableExcessiveInternalMetrics

end Collector.ConfigConverter
