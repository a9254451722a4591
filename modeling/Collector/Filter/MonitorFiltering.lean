import Collector.Confmap
import Collector.Filter.StringFilter
import Collector.Lib.Panic

/-!
# The metrics of a monitor

The filters of the agent (`pkg/core/dpfilters`), how they are made from the configuration of a monitor, and
`filtering.go` of the Smart Agent receiver.
-/

namespace Collector.Filter

open Lib Strings List

structure Datapoint where
  metric : Str
  dimensions : List (Str × Str)

/-! ## Filter sets -/

structure FilterSet (F : Type) where
  excludeFilters : List F
  includeFilters : List F

namespace FilterSet

variable {F : Type} (M : F → Bool → Prop)

/-- The loop over the inclusion filters. `M` says what a filter may return. -/
def Includes : List F → Bool → Prop
  | [], b => b = true
  | incl :: rest, b => (M incl true ∧ b = false) ∨ (M incl false ∧ Includes rest b)

def Excludes (includes : List F) : List F → Bool → Prop
  | [], b => b = false
  | ex :: rest, b => (M ex true ∧ Includes M includes b) ∨ (M ex false ∧ Excludes includes rest b)

def Matches (fs : FilterSet F) (b : Bool) : Prop := Excludes M fs.includeFilters fs.excludeFilters b

variable {M}

theorem excludes_false {ex : List F} : Excludes M [] ex false ↔ ∀ f ∈ ex, M f false := by
  induction ex with
  | nil => simp [Excludes]
  | cons f ex ih =>
    rw [Excludes, ih, forall_mem_cons]
    simp [Includes]

variable (ht : ∀ f, ∃ b, M f b)
include ht

theorem excludes_true {ex : List F} : Excludes M [] ex true ↔ ∃ f ∈ ex, M f true := by
  induction ex with
  | nil => simp [Excludes]
  | cons f ex ih =>
    rw [Excludes, ih, exists_mem_cons_iff]
    simp only [Includes, and_true]
    constructor
    · exact Or.imp_right And.right
    · rintro (hf | hr)
      · exact .inl hf
      · obtain ⟨b, hb⟩ := ht f
        cases b with
        | true => exact .inl hb
        | false => exact .inr ⟨hb, hr⟩

theorem exists_includes (includes : List F) : ∃ b, Includes M includes b := by
  induction includes with
  | nil => exact ⟨true, rfl⟩
  | cons f includes ih =>
    obtain ⟨b, hb⟩ := ht f
    cases b with
    | true => exact ⟨false, .inl ⟨hb, rfl⟩⟩
    | false =>
      obtain ⟨b', hb'⟩ := ih
      exact ⟨b', .inr ⟨hb, hb'⟩⟩

theorem exists_matches (fs : FilterSet F) : ∃ b, fs.Matches M b := by
  unfold Matches
  induction fs.excludeFilters with
  | nil => exact ⟨false, rfl⟩
  | cons f ex ih =>
    obtain ⟨b, hb⟩ := ht f
    cases b with
    | true =>
      obtain ⟨b', hb'⟩ := exists_includes ht fs.includeFilters
      exact ⟨b', .inl ⟨hb, hb'⟩⟩
    | false =>
      obtain ⟨b', hb'⟩ := ih
      exact ⟨b', .inr ⟨hb, hb'⟩⟩

end FilterSet

/-! ## `overridableDatapointFilter` -/

structure OverridableFilter where
  dimFilter : Option StringMapFilter
  metricFilter : Option OverridableStringFilter

namespace OverridableFilter

def newDimFilter (pats : Patterns) (dimensions : List (Str × List Str)) : Except Err (Option StringMapFilter) :=
  if dimensions = [] then .ok none else (StringMapFilter.new pats dimensions).map some

def newMetricFilter (pats : Patterns) (metricNames : List Str) : Except Err (Option OverridableStringFilter) :=
  if metricNames = [] then .ok none else (OverridableStringFilter.new pats metricNames).map some

def new (pats : Patterns) (metricNames : List Str) (dimensions : List (Str × List Str)) :
    Except Err OverridableFilter := do
  let dimFilter ← newDimFilter pats dimensions
  let metricFilter ← newMetricFilter pats metricNames
  if metricFilter.isNone && dimFilter.isNone then .error .noMetricOrDimension
  else .ok ⟨dimFilter, metricFilter⟩

def matchesMetric (f : OverridableFilter) (metric : Str) : Bool :=
  match f.metricFilter with
  | none => true
  | some metricFilter => metricFilter.matchesText metric

def Matches (f : OverridableFilter) (dp : Datapoint) (b : Bool) : Prop :=
  if f.matchesMetric dp.metric then
    match f.dimFilter with
    | none => b = true
    | some dimFilter => dimFilter.Matches dp.dimensions b
  else b = false

theorem exists_matches (f : OverridableFilter) (dp : Datapoint) : ∃ b, f.Matches dp b := by
  unfold Matches
  split
  · split
    · exact ⟨true, rfl⟩
    · rename_i dimFilter _
      exact dimFilter.exists_matches dp.dimensions
  · exact ⟨false, rfl⟩

end OverridableFilter

/-! ## The configuration -/

structure MetricFilter where
  dimensions : Fields
  metricNames : List Str
  metricName : Str
  negated : Bool

structure MonitorConfig where
  datapointsToExclude : List MetricFilter
  extraMetrics : List Str
  extraGroups : List Str
  /-- `GetExtraMetrics`, where the configuration has it. -/
  monitorExtra : Option (List Str)

section
variable (pats : Patterns) (sprint : Value → Str)

namespace MetricFilter

def normalizedNames (mf : MetricFilter) : List Str :=
  if mf.metricName ≠ [] then mf.metricNames ++ [mf.metricName] else mf.metricNames

def normalizeValue : Value → Except Err (List Str)
  | .list vs => .ok (vs.map (Confmap.sprintV sprint))
  | .str s => .ok [s]
  | v => .error (.notStringOrList v)

/-- The set is listed in the order in which it is visited later. -/
def normalize (mf : MetricFilter) : Except Err (List (Str × List Str)) :=
  mf.dimensions.mapM fun e => (normalizeValue sprint e.2).map fun values => (e.1, values)

end MetricFilter

def makeFilter (mf : MetricFilter) : Except Err OverridableFilter := do
  if mf.negated then .error .negatedFilter
  else
    let dimSet ← mf.normalize sprint
    OverridableFilter.new pats mf.normalizedNames dimSet

def makeNewFilterSet (excludes : List MetricFilter) : Except Err (FilterSet OverridableFilter) := do
  let excludeSet ← excludes.mapM (makeFilter pats sprint)
  .ok ⟨excludeSet, []⟩

end

/-! ## The metadata of a monitor -/

structure Metadata where
  sendAll : Bool
  sendUnknown : Bool
  defaultMetrics : List (Str × Bool)
  metrics : List (Str × Str)
  groupMetricsMap : List (Str × List Str)

namespace Metadata

def hasMetric (metadata : Metadata) (metric : Str) : Bool := metric ∈ keys metadata.metrics

def hasDefaultMetric (metadata : Metadata) (metric : Str) : Bool := (find metric metadata.defaultMetrics).getD false

end Metadata

/-! ## `extraMetricsFilter` -/

structure ExtraMetricsFilter where
  metadata : Metadata
  extraMetrics : List Str
  stringFilter : BasicStringFilter

section
variable (pats : Patterns) (sprint : Value → Str)

def validateMetricName (metadata : Metadata) (metricName : Str) : Except Err Unit :=
  if trimSpace metricName = [] then .error .emptyMetricName
  else if metadata.sendUnknown then .ok ()
  else if '*' ∈ metricName then (BasicStringFilter.new pats [metricName]).map fun _ => ()
  else .ok ()

def validateGroup (metadata : Metadata) (group : Str) : Except Err (List Str) :=
  if trimSpace group = [] then .error .emptyGroup
  else .ok ((find group metadata.groupMetricsMap).getD [])

def newMetricsFilter (metadata : Metadata) (extraMetrics extraGroups : List Str) : Except Err ExtraMetricsFilter := do
  let metricItems ← extraMetrics.mapM fun metric => do
    let _ ← validateMetricName pats metadata metric
    .ok (if metadata.hasDefaultMetric metric then [] else [metric])
  let groupItems ← extraGroups.mapM (validateGroup metadata)
  let filterItems := metricItems.flatten ++ groupItems.flatten
  match BasicStringFilter.new pats filterItems with
  | .error e => .error (.filterItems filterItems e)
  | .ok basicFilter => .ok ⟨metadata, (keys metadata.metrics).filter basicFilter.matchesText, basicFilter⟩

def ExtraMetricsFilter.matchesMetric (mf : ExtraMetricsFilter) (metric : Str) : Bool :=
  if mf.metadata.metrics = [] then true
  else if !mf.metadata.hasMetric metric && mf.metadata.sendUnknown then true
  else if mf.metadata.hasDefaultMetric metric then true
  else if metric ∈ mf.extraMetrics then true
  else mf.stringFilter.matchesText metric

/-! ## `monitorFiltering` -/

inductive DatapointFilter where
  | negated (included : ExtraMetricsFilter)
  | set (fs : FilterSet OverridableFilter)

def DatapointFilter.Matches (dp : Datapoint) : DatapointFilter → Bool → Prop
  | .negated included, b => b = !included.matchesMetric dp.metric
  | .set fs, b => fs.Matches (fun f => f.Matches dp) b

theorem DatapointFilter.exists_matches (dp : Datapoint) (filter : DatapointFilter) : ∃ b, filter.Matches dp b := by
  cases filter with
  | negated included => exact ⟨_, rfl⟩
  | set fs => exact FilterSet.exists_matches (fun f => f.exists_matches dp) fs

structure MonitorFiltering where
  filterSet : FilterSet DatapointFilter
  metadata : Option Metadata
  hasExtraMetrics : Bool

def includedFilters (metadata : Option Metadata) (conf : MonitorConfig) : Except Err (List DatapointFilter) :=
  match metadata with
  | none => .ok []
  | some metadata =>
    if metadata.metrics ≠ [] ∧ metadata.sendAll = false then
      match newMetricsFilter pats metadata (conf.extraMetrics ++ conf.monitorExtra.getD []) conf.extraGroups with
      | .error e => .error (.extraMetrics e)
      | .ok includedMetricsFilter => .ok [.negated includedMetricsFilter]
    else .ok []

def buildFilterSet (metadata : Option Metadata) (conf : MonitorConfig) : Except Err (FilterSet DatapointFilter) := do
  let filter ← makeNewFilterSet pats sprint conf.datapointsToExclude
  let included ← includedFilters pats metadata conf
  .ok ⟨included ++ [.set filter], []⟩

def newMonitorFiltering (conf : MonitorConfig) (metadata : Option Metadata) : Except Err MonitorFiltering := do
  let filterSet ← buildFilterSet pats sprint metadata conf
  .ok ⟨filterSet, metadata, !conf.extraMetrics.isEmpty || !conf.extraGroups.isEmpty⟩

end

namespace MonitorFiltering

variable (mf : MonitorFiltering)

def Matches (dp : Datapoint) (b : Bool) : Prop := mf.filterSet.Matches (DatapointFilter.Matches dp) b

def Filtered : List Datapoint → List Datapoint → Prop
  | [], out => out = []
  | dp :: dps, out =>
    (mf.Matches dp false ∧ ∃ rest, out = dp :: rest ∧ Filtered dps rest) ∨ (mf.Matches dp true ∧ Filtered dps out)

/-- The loop of `EnabledMetrics`. The datapoint has the name of the metric only. -/
def Enabled : List Str → List Str → Prop
  | [], out => out = []
  | metric :: metrics, out =>
    (mf.Matches ⟨metric, []⟩ false ∧ ∃ rest, out = metric :: rest ∧ Enabled metrics rest) ∨
      (mf.Matches ⟨metric, []⟩ true ∧ Enabled metrics out)

/-- What `EnabledMetrics` may return. The metrics are visited in any order. -/
def EnabledMetrics (out : List Str) : Prop :=
  match mf.metadata with
  | none => out = []
  | some metadata => ∃ order : List Str, order.Perm (keys metadata.metrics) ∧ mf.Enabled order out

/-! ## Sent and enabled -/

def Sends (metric : Str) : Prop := ∃ dps out dp, mf.Filtered dps out ∧ dp ∈ out ∧ dp.metric = metric

def Known (metric : Str) : Prop := ∃ metadata, mf.metadata = some metadata ∧ metric ∈ keys metadata.metrics

def NeverHides : Prop := ∀ metric, mf.Known metric → mf.Sends metric → ∀ out, mf.EnabledMetrics out → metric ∈ out

variable {mf}

theorem Filtered.matches_false {dps out : List Datapoint} (h : mf.Filtered dps out) :
    ∀ dp ∈ out, mf.Matches dp false := by
  induction dps generalizing out with
  | nil =>
    cases h
    simp
  | cons dp dps ih =>
    rcases h with ⟨hdp, rest, rfl, hr⟩ | ⟨-, hout⟩
    · exact forall_mem_cons.mpr ⟨hdp, ih hr⟩
    · exact ih hout

theorem sends_iff (metric : Str) : mf.Sends metric ↔ ∃ dimensions, mf.Matches ⟨metric, dimensions⟩ false := by
  constructor
  · rintro ⟨dps, out, dp, hout, hdp, rfl⟩
    exact ⟨dp.dimensions, hout.matches_false dp hdp⟩
  · rintro ⟨dimensions, h⟩
    exact ⟨[⟨metric, dimensions⟩], [⟨metric, dimensions⟩], ⟨metric, dimensions⟩, .inl ⟨h, [], rfl, rfl⟩, by simp, rfl⟩

theorem Enabled.mem {metric : Str} (hnot : ¬ mf.Matches ⟨metric, []⟩ true) {metrics out : List Str}
    (hmem : metric ∈ metrics) (h : mf.Enabled metrics out) : metric ∈ out := by
  induction metrics generalizing out with
  | nil => cases hmem
  | cons m metrics ih =>
    rcases h with ⟨-, rest, rfl, hr⟩ | ⟨ht, hout⟩
    · rcases mem_cons.mp hmem with rfl | hmem
      · exact mem_cons_self
      · exact mem_cons_of_mem _ (ih hmem hr)
    · rcases mem_cons.mp hmem with rfl | hmem
      · exact absurd ht hnot
      · exact ih hmem hout

theorem exists_matches (dp : Datapoint) : ∃ b, mf.Matches dp b :=
  FilterSet.exists_matches (DatapointFilter.exists_matches dp) mf.filterSet

theorem exists_enabled_without {metric : Str} (ht : mf.Matches ⟨metric, []⟩ true) (metrics : List Str) :
    ∃ out, mf.Enabled metrics out ∧ metric ∉ out := by
  induction metrics with
  | nil => exact ⟨[], rfl, by simp⟩
  | cons m metrics ih =>
    obtain ⟨out, hout, hmem⟩ := ih
    by_cases hm : m = metric
    · exact ⟨out, .inr ⟨hm ▸ ht, hout⟩, hmem⟩
    · obtain ⟨b, hb⟩ := @exists_matches mf ⟨m, []⟩
      cases b with
      | true => exact ⟨out, .inr ⟨hb, hout⟩, hmem⟩
      | false => exact ⟨m :: out, .inl ⟨hb, out, rfl, hout⟩, by simp [Ne.symm hm, hmem]⟩

theorem enabled_iff {metric : Str} (hk : mf.Known metric) :
    (∀ out, mf.EnabledMetrics out → metric ∈ out) ↔ ¬ mf.Matches ⟨metric, []⟩ true := by
  obtain ⟨metadata, hm, hmem⟩ := hk
  unfold EnabledMetrics
  rw [hm]
  constructor
  · intro h ht
    obtain ⟨out, hout, hnot⟩ := exists_enabled_without ht (keys metadata.metrics)
    exact hnot (h out ⟨_, .refl _, hout⟩)
  · rintro hnot out ⟨order, hp, hout⟩
    exact hout.mem hnot (hp.mem_iff.mpr hmem)

end MonitorFiltering

/-! ## What the configuration makes -/

section
variable {pats : Patterns} {sprint : Value → Str}

def MetricFilter.appliesTo (pats : Patterns) (f : MetricFilter) (metric : Str) : Bool :=
  f.normalizedNames.isEmpty ||
    match OverridableStringFilter.new pats f.normalizedNames with
    | .error _ => false
    | .ok metricFilter => metricFilter.matchesText metric

structure Made (pats : Patterns) (f : MetricFilter) (ov : OverridableFilter) : Prop where
  metrics : ∀ metric, ov.matchesMetric metric = f.appliesTo pats metric
  dimensions : match ov.dimFilter with
    | none => f.dimensions = []
    | some dimFilter => ∃ dimSet, Lib.keys dimSet = keys f.dimensions ∧ StringMapFilter.new pats dimSet = .ok dimFilter

variable {f : MetricFilter}

theorem keys_normalize {dimSet : List (Str × List Str)} (h : f.normalize sprint = .ok dimSet) :
    keys dimSet = keys f.dimensions := by
  have hall := forall₂_of_mapM h
  clear h
  unfold Lib.keys
  generalize f.dimensions = l at hall
  induction hall with
  | nil => rfl
  | cons he _ ih =>
    obtain ⟨values, -, rfl⟩ := map_eq_ok.mp he
    rw [map_cons, map_cons, ih]

theorem made_makeFilter {ov : OverridableFilter} (h : makeFilter pats sprint f = .ok ov) :
    Made pats f ov := by
  unfold makeFilter at h
  split at h
  · cases h
  · obtain ⟨dimSet, hno, h⟩ := bind_eq_ok.mp h
    unfold OverridableFilter.new at h
    obtain ⟨dimFilter, hdim, h⟩ := bind_eq_ok.mp h
    obtain ⟨metricFilter, hm, h⟩ := bind_eq_ok.mp h
    split at h
    · cases h
    · cases h
      refine ⟨fun metric => ?_, ?_⟩
      · unfold OverridableFilter.newMetricFilter at hm
        unfold OverridableFilter.matchesMetric MetricFilter.appliesTo
        split_ifs at hm with hn
        · cases hm
          rw [hn]
          rfl
        · obtain ⟨filter, hf, rfl⟩ := map_eq_ok.mp hm
          rw [hf]
          simp [hn]
      · have hk := keys_normalize hno
        unfold OverridableFilter.newDimFilter at hdim
        split_ifs at hdim with hnil
        · cases hdim
          rw [hnil] at hk
          exact map_eq_nil_iff.mp hk.symm
        · obtain ⟨smf, hsmf, rfl⟩ := map_eq_ok.mp hdim
          exact ⟨dimSet, hk, hsmf⟩

theorem Made.matches_nil_iff {ov : OverridableFilter} (h : Made pats f ov) {dp : Datapoint}
    (hp : ov.Matches dp false) : ov.Matches ⟨dp.metric, []⟩ true ↔
      f.appliesTo pats dp.metric = true ∧ ∃ k ∈ keys f.dimensions, k.getLast? = some '?' := by
  have hd := h.dimensions
  unfold OverridableFilter.Matches at hp ⊢
  rw [h.metrics] at hp ⊢
  cases ha : f.appliesTo pats dp.metric with
  | false => simp
  | true =>
    rw [ha, if_pos rfl] at hp
    rw [if_pos rfl]
    cases hf : ov.dimFilter with
    | none =>
      rw [hf] at hp
      cases hp
    | some dimFilter =>
      rw [hf] at hd
      obtain ⟨dimSet, hk, hnew⟩ := hd
      dsimp only
      rw [StringMapFilter.matches_nil_iff hnew, hk]
      exact (and_iff_right rfl).symm

/-! ## The filters of a monitor -/

theorem newMonitorFiltering_ok {conf : MonitorConfig} {metadata : Option Metadata} {mf : MonitorFiltering}
    (h : newMonitorFiltering pats sprint conf metadata = .ok mf) : ∃ included excludeSet,
      mf.filterSet = ⟨included ++ [.set ⟨excludeSet, []⟩], []⟩ ∧
      (∀ filter ∈ included, ∃ extra, filter = .negated extra) ∧
      List.Forall₂ (Made pats) conf.datapointsToExclude excludeSet := by
  unfold newMonitorFiltering buildFilterSet makeNewFilterSet at h
  obtain ⟨filterSet, hset, h⟩ := bind_eq_ok.mp h
  cases h
  obtain ⟨filter, hf, hset⟩ := bind_eq_ok.mp hset
  obtain ⟨included, hi, hset⟩ := bind_eq_ok.mp hset
  cases hset
  obtain ⟨excludeSet, he, hf⟩ := bind_eq_ok.mp hf
  cases hf
  refine ⟨included, excludeSet, rfl, ?_, (forall₂_of_mapM he).imp fun f ov => made_makeFilter⟩
  unfold includedFilters at hi
  split at hi
  · cases hi
    simp
  · split at hi
    · split at hi
      · cases hi
      · cases hi
        simp
    · cases hi
      simp

theorem DatapointFilter.not_matches_negated {extra : ExtraMetricsFilter} {dp : Datapoint}
    (hp : DatapointFilter.Matches dp (.negated extra) false) :
    ¬ DatapointFilter.Matches ⟨dp.metric, []⟩ (.negated extra) true := by
  intro ht
  exact Bool.false_ne_true (Eq.trans hp (Eq.symm ht))

theorem exists_mem_iff_of_forall₂ {α β : Type} {R : α → β → Prop} {P : α → Prop} {Q : β → Prop} {l : List α}
    {l' : List β} (h : List.Forall₂ R l l') (hPQ : ∀ a, ∀ b ∈ l', R a b → (Q b ↔ P a)) :
    (∃ b ∈ l', Q b) ↔ ∃ a ∈ l, P a := by
  induction h with
  | nil => simp
  | cons hab _ ih =>
    rw [exists_mem_cons_iff, exists_mem_cons_iff, hPQ _ _ mem_cons_self hab,
      ih fun a b hb => hPQ a b (mem_cons_of_mem _ hb)]

theorem matches_nil_iff {conf : MonitorConfig} {metadata : Option Metadata} {mf : MonitorFiltering}
    (h : newMonitorFiltering pats sprint conf metadata = .ok mf) {dp : Datapoint} (hp : mf.Matches dp false) :
    mf.Matches ⟨dp.metric, []⟩ true ↔ ∃ f ∈ conf.datapointsToExclude, f.appliesTo pats dp.metric = true ∧
      ∃ k ∈ keys f.dimensions, k.getLast? = some '?' := by
  obtain ⟨included, excludeSet, hset, hi, hm⟩ := newMonitorFiltering_ok h
  unfold MonitorFiltering.Matches FilterSet.Matches at hp ⊢
  rw [hset] at hp ⊢
  rw [FilterSet.excludes_false] at hp
  rw [FilterSet.excludes_true (DatapointFilter.exists_matches _)]
  have hps : ∀ ov ∈ excludeSet, ov.Matches dp false :=
    FilterSet.excludes_false.mp (hp _ (mem_append_right _ (mem_singleton_self _)))
  rw [← exists_mem_iff_of_forall₂ hm fun f ov hov hf => hf.matches_nil_iff (hps ov hov),
    ← FilterSet.excludes_true fun ov => OverridableFilter.exists_matches ov _]
  constructor
  · rintro ⟨filter, hfi, ht⟩
    rcases mem_append.mp hfi with hfi | hfi
    · obtain ⟨extra, rfl⟩ := hi filter hfi
      exact absurd ht (DatapointFilter.not_matches_negated (hp _ (mem_append_left _ hfi)))
    · rw [mem_singleton.mp hfi] at ht
      exact ht
  · intro ht
    exact ⟨_, mem_append_right _ (mem_singleton_self _), ht⟩

/-- A metric that is sent is hidden just when a filter for it has a dimension that may be missing. -/
theorem neverHides_iff {conf : MonitorConfig} {metadata : Option Metadata} {mf : MonitorFiltering}
    (h : newMonitorFiltering pats sprint conf metadata = .ok mf) :
    mf.NeverHides ↔ ∀ metric, mf.Known metric → mf.Sends metric → ∀ f ∈ conf.datapointsToExclude,
      f.appliesTo pats metric = true → ∀ k ∈ keys f.dimensions, k.getLast? ≠ some '?' := by
  unfold MonitorFiltering.NeverHides
  refine forall_congr' fun metric => forall_congr' fun hk => forall_congr' fun hs => ?_
  obtain ⟨dimensions, hp⟩ := (MonitorFiltering.sends_iff metric).mp hs
  rw [MonitorFiltering.enabled_iff hk, matches_nil_iff h hp]
  push Not
  rfl

end

/-! ## A dimension that may be missing -/

def noPatterns : Patterns := ⟨.error, .error⟩

def oneMetric : Metadata := ⟨false, false, [("m", true)], [("m", [])], []⟩

def excludeX (dimension : Str) : MonitorConfig := ⟨[⟨[(dimension, .str ['x'])], [], [], false⟩], [], [], none⟩

def xFilter : OverridableStringFilter := ⟨⟨[(['x'], false)], [], [], false⟩⟩

def excludingX (okMissing : List Str) : MonitorFiltering :=
  ⟨⟨[.negated ⟨oneMetric, [], .empty⟩, .set ⟨[⟨some ⟨[(['a'], xFilter)], okMissing⟩, none⟩], []⟩], []⟩,
    some oneMetric, false⟩

theorem neverHides_required :
    newMonitorFiltering noPatterns (fun _ => []) (excludeX ['a']) (some oneMetric) = .ok (excludingX []) ∧
      (excludingX []).NeverHides := by
  refine ⟨rfl, (@neverHides_iff noPatterns (fun _ => []) (excludeX ['a']) (some oneMetric) _ rfl).mpr ?_⟩
  intro metric _ _ f hf _ k hk
  rw [mem_singleton.mp hf] at hk
  rw [mem_singleton.mp hk]
  decide

/-- With the dimension `a?`, a datapoint passes whose `a` is `y`, but the metric is not enabled. -/
theorem not_neverHides_optional :
    newMonitorFiltering noPatterns (fun _ => []) (excludeX ['a', '?']) (some oneMetric) = .ok (excludingX [['a']]) ∧
      ¬ (excludingX [['a']]).NeverHides := by
  refine ⟨rfl, fun h => ?_⟩
  have hp : (excludingX [['a']]).Matches ⟨['m'], [(['a'], ['y'])]⟩ false := by
    refine FilterSet.excludes_false.mpr (forall_mem_cons.mpr ⟨rfl, ?_⟩)
    refine forall_mem_singleton.mpr (FilterSet.excludes_false.mpr (forall_mem_singleton.mpr ?_))
    exact ⟨_, .refl _, by decide⟩
  have hk : (excludingX [['a']]).Known ['m'] := ⟨oneMetric, rfl, by decide⟩
  have he := h ['m'] hk ((MonitorFiltering.sends_iff _).mpr ⟨_, hp⟩)
  rw [MonitorFiltering.enabled_iff hk] at he
  have hm := @matches_nil_iff noPatterns (fun _ => []) (excludeX ['a', '?']) (some oneMetric) _ rfl _ hp
  exact he (hm.mpr ⟨_, mem_singleton_self _, rfl, ['a', '?'], by simp [Lib.keys], rfl⟩)

end Collector.Filter
