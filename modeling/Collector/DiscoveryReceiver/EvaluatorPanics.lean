import Mathlib.Data.List.Dedup
import Collector.DiscoveryReceiver.Evaluator

/-!
# Where evaluating a status match panics
-/

namespace Collector.DiscoveryReceiver

open Lib Outcome List Option

variable {A V P C Details : Type} {values : Values A} {engine : Engine A V P} {json : JsonText A} {encoded : Encoded C}
variable {r : Resolved} {ev : Evaluator} {cfg : Config}

/-! ## One match -/

def Match.NotBool (engine : Engine A V P) (env : List (Str × A)) (m : Match) : Prop :=
  m.expr ≠ [] ∧
    ∃ program ret, engine.compile m.expr env = some program ∧ engine.run program env = some ret ∧ engine.bool ret = none

variable {m : Match}

theorem Match.only_expr (hone : m.types.length = 1) (he : m.expr ≠ []) : m.strict = [] ∧ m.regexp = [] := by
  unfold types at hone
  constructor
  · by_contra hne
    simp [he, hne] at hone
  · by_contra hne
    simp [he, hne] at hone

variable {exprEnv : Str → Option (List (Str × A))} {pattern : Str}

theorem Match.safe_holds {env : List (Str × A)}
    (hone : m.types.length = 1) (henv : m.expr ≠ [] → exprEnv pattern = some env) :
    Safe (m.holds engine exprEnv pattern) ↔ ¬ m.NotBool engine env := by
  unfold holds NotBool
  by_cases he : m.expr = []
  · simp only [he, ne_eq, not_true_eq_false, if_false, false_and, not_false_eq_true, iff_true]
    split
    · exact safe_ok _
    · split
      · split
        · exact safe_error _
        · exact safe_ok _
      · exact safe_error _
  · obtain ⟨hs, hr⟩ := only_expr hone he
    simp only [hs, hr, he, ne_eq, not_true_eq_false, if_false, not_false_eq_true, if_true, henv he, true_and]
    cases hp : engine.compile m.expr env with
    | none => simp
    | some program =>
      cases hret : engine.run program env with
      | none => simp [hret]
      | some ret => cases hb : engine.bool ret <;> simp [hret, hb]

variable {s : List Str × List (Record A)}

theorem safe_addRecord {status : Str} {record : Record A} :
    Safe (addRecord engine exprEnv r status m pattern record s) ↔ Safe (m.holds engine exprEnv pattern) := by
  unfold addRecord evaluateMatch
  rw [safe_map, safe_attempt, safe_map]

/-! ## Resource attributes -/

def NilConfig (encoded : Encoded C) (config : Str) : Prop :=
  (encoded.base64 config).bind encoded.unmarshal = some none

theorem safe_addObserverToEncodedConfig {config observerID : Str} :
    Safe (addObserverToEncodedConfig encoded config observerID) ↔ ¬ NilConfig encoded config := by
  unfold addObserverToEncodedConfig NilConfig
  split
  next h => simp [h]
  next h => simp [h]
  next h =>
    rw [h]
    split <;> simp

def NotUpdated (ev : Evaluator) (corr : Correlation Details) : Prop :=
  find (updatedWithObserverAttr corr.observerID.string) (ev.attrs corr.receiverID) = none ∧ corr.observerID.string ≠ []

/-- The configuration has to be put into attributes that are shared, or a null is updated. -/
def EmbedPanics (values : Values A) (encoded : Encoded C) (embed readOnly : Bool) (attributes : List (Str × A))
    (corr : Correlation Details) (ev : Evaluator) : Prop :=
  embed = true ∧ ((receiverConfigAttr ∉ keys attributes ∧ readOnly = true) ∨ NotUpdated ev corr ∧ ∃ config,
      (receiverConfigAttr, config) ∈ withConfig values embed (ev.attrs corr.receiverID) attributes ∧
        NilConfig encoded (values.asString config))

variable {embed : Bool} {corr : Correlation Details}

theorem safe_correlateAttribute (s : List (Str × A) × Evaluator) (e : Str × A) :
    Safe (correlateAttribute values encoded embed (ev.attrs corr.receiverID) corr.receiverID corr.observerID.string
      s e) ↔
      ¬ ((e.1 = receiverConfigAttr ∧ embed = true) ∧ NotUpdated ev corr ∧ NilConfig encoded (values.asString e.2)) := by
  unfold correlateAttribute
  by_cases he : e.1 = receiverConfigAttr ∧ embed = true
  · rw [if_pos he, safe_map]
    unfold correlateConfig NotUpdated
    split
    next h => simp [h]
    next h =>
      by_cases ho : corr.observerID.string = []
      · simp [ho]
      · rw [if_neg ho, safe_map, safe_attempt, safe_addObserverToEncodedConfig]
        simp [he, h, ho]
  · rw [if_neg he]
    simp [he]

theorem safe_correlateResourceAttributes {readOnly : Bool} {attributes : List (Str × A)} :
    Safe (correlateResourceAttributes values encoded embed readOnly attributes corr ev) ↔
      ¬ EmbedPanics values encoded embed readOnly attributes corr ev := by
  unfold correlateResourceAttributes EmbedPanics
  by_cases hs : embed = true ∧ receiverConfigAttr ∉ keys attributes ∧ readOnly = true
  · simp [hs]
  · simp only [if_neg hs]
    rw [safe_foldlM_iff safe_correlateAttribute]
    constructor
    · rintro h ⟨he, hw | ⟨hu, config, hmem, hnil⟩⟩
      · exact hs ⟨he, hw⟩
      · exact h _ hmem ⟨⟨rfl, he⟩, hu, hnil⟩
    · rintro h ⟨k, config⟩ hmem ⟨⟨rfl, he⟩, hu, hnil⟩
      exact h ⟨he, .inr ⟨hu, config, hmem, hnil⟩⟩

/-! ## Statements -/

variable {e : Str × Match} {ms : List (Str × List Match)}

theorem mem_pairs_append {ms' : List (Str × List Match)} : e ∈ pairs (ms ++ ms') ↔ e ∈ pairs ms ∨ e ∈ pairs ms' := by
  unfold pairs
  rw [flatMap_append, mem_append]

variable {ids : ComponentID × Str}

theorem types_length_of_pairs (hcfg : cfg.validate = [])
    (hr : resolve cfg ids = some r) (he : e ∈ pairs (r.status.metrics ++ r.status.statements)) :
    e.2.types.length = 1 := by
  unfold resolve at hr
  rw [ite_none_left_eq_some, bind_eq_some_iff] at hr
  obtain ⟨-, entry, hen, hr⟩ := hr
  rw [map_eq_some_iff] at hr
  obtain ⟨status, hs, rfl⟩ := hr
  unfold pairs at he
  rw [mem_flatMap] at he
  obtain ⟨g, hg, he⟩ := he
  obtain ⟨m, hm, rfl⟩ := mem_map.mp he
  exact cfg.types_length hcfg (find_mem _ _ _ hen) hs hg hm

def StatementPanics (values : Values A) (engine : Engine A V P) (json : JsonText A) (encoded : Encoded C) (cfg : Config)
    (getOrCreate : ComponentID → Str → Correlation Details) (ev : Evaluator) (statement : Statement A) : Prop :=
  ∃ ids r, statement.receiverIDs values = .ok ids ∧ resolve cfg ids = some r ∧
    (EmbedPanics values encoded cfg.embedReceiverConfig false (statementAttributes values r)
      (getOrCreate r.receiverID r.endpointID) ev ∨
    ∃ e ∈ pairs r.status.statements, ∃ env, statementEnv values json (statement.patternMapStr values json) = some env ∧
      e.2.NotBool engine env)

theorem exists_statementEnv (values : Values A) (json : JsonText A) (statement : Statement A) :
    ∃ env, statementEnv values json (statement.patternMapStr values json) = some env := by
  have hh : (statement.patternMapStr values json).head? = some '\x7b' := by
    unfold Statement.patternMapStr
    split
    next text ht => exact json.marshal_object _ _ ht
    next => rfl
  have hne := json.unmarshal_object _ hh
  unfold statementEnv
  split
  next => exact ⟨_, rfl⟩
  next env henv =>
    cases env with
    | none => exact absurd henv hne
    | some env => exact ⟨env, rfl⟩

variable {statement : Statement A}

theorem safe_evaluateStatementMatch (hcfg : cfg.validate = []) (hr : resolve cfg ids = some r) :
    Safe ((pairs r.status.statements).foldlM (evaluateStatementMatch values engine json r statement) s) ↔
      ¬ ∃ e ∈ pairs r.status.statements, ∃ env,
        statementEnv values json (statement.patternMapStr values json) = some env ∧ e.2.NotBool engine env := by
  obtain ⟨env, henv⟩ := exists_statementEnv values json statement
  have hb (s : List Str × List (Record A)) (e : Str × Match) :
      Safe (evaluateStatementMatch values engine json r statement s e) ↔
      Safe (e.2.holds engine (statementEnv values json)
        (if e.2.strict ≠ [] then statement.message else statement.patternMapStr values json)) := safe_addRecord
  rw [safe_foldlM_iff hb]
  push Not
  refine forall₂_congr fun e he => ?_
  have hone : e.2.types.length = 1 := types_length_of_pairs hcfg hr (mem_pairs_append.mpr (.inr he))
  have hp (hex : e.2.expr ≠ []) : statementEnv values json
      (if e.2.strict ≠ [] then statement.message else statement.patternMapStr values json) = some env := by
    rw [if_neg (not_not.mpr (Match.only_expr hone hex).1), henv]
  rw [Match.safe_holds hone hp]
  simp [henv]

variable {getOrCreate : ComponentID → Str → Correlation Details}

theorem safe_evaluateStatement (hcfg : cfg.validate = []) :
    Safe (evaluateStatement values engine json encoded cfg getOrCreate ev statement) ↔
      ¬ StatementPanics values engine json encoded cfg getOrCreate ev statement := by
  obtain ⟨ids, hids⟩ : ∃ ids, statement.receiverIDs values = .ok ids := receiverNameToIDs_ok _ _
  unfold evaluateStatement StatementPanics
  rw [hids, ok_bind]
  cases hr : resolve cfg ids with
  | none => simp [pure, Except.pure, hr]
  | some r =>
    simp only [Except.ok.injEq, exists_and_left, exists_eq_left', hr, some.injEq]
    rw [not_or, ← safe_correlateResourceAttributes]
    refine safe_bind_iff fun c => ?_
    rw [safe_bind, safe_evaluateStatementMatch hcfg hr]
    exact and_iff_left fun s _ => safe_ok _

/-! ## Metrics -/

def MetricsPanic (values : Values A) (engine : Engine A V P) (encoded : Encoded C) (cfg : Config)
    (getOrCreate : ComponentID → Str → Correlation Details) (ev : Evaluator) (md : Metrics A) : Prop :=
  md.all ≠ [] ∧ ∃ ids r rm, md.receiverIDs values = .ok ids ∧ resolve cfg ids = some r ∧ r.status.metrics ≠ [] ∧
    md.resourceMetrics.head? = some rm ∧
    (EmbedPanics values encoded cfg.embedReceiverConfig md.readOnly rm.attributes
      (getOrCreate r.receiverID r.endpointID) ev ∨
    ∃ e ∈ pairs r.status.metrics, ∃ metric ∈ md.all, e.2.NotBool engine [(nameField, values.str metric.name)])

variable {md : Metrics A}

theorem mem_metricPairs {name : Str} {metric : Metric} :
    (e, name, metric) ∈ md.pairs ms ↔ e ∈ pairs ms ∧ metric ∈ md.all ∧ metric.name = name := by
  unfold Metrics.pairs Metrics.receiverMetrics
  simp only [mem_flatMap, List.mem_map, mem_dedup, Prod.mk.injEq]
  constructor
  · rintro ⟨e', he', -, ⟨name', -, rfl⟩, metric', hm, rfl, rfl, rfl⟩
    obtain ⟨hmem, hn⟩ := mem_filter.mp hm
    exact ⟨he', hmem, of_decide_eq_true hn⟩
  · rintro ⟨he, hmem, rfl⟩
    refine ⟨e, he, _, ⟨metric.name, ⟨metric, hmem, rfl⟩, rfl⟩, metric, ?_, rfl, rfl, rfl⟩
    exact mem_filter.mpr ⟨hmem, decide_eq_true rfl⟩

theorem safe_evaluateMetricMatch (hcfg : cfg.validate = []) (hr : resolve cfg ids = some r) :
    Safe ((md.pairs r.status.metrics).foldlM (evaluateMetricMatch values engine r) s) ↔
      ¬ ∃ e ∈ pairs r.status.metrics, ∃ metric ∈ md.all, e.2.NotBool engine [(nameField, values.str metric.name)] := by
  have hb (s : List Str × List (Record A)) (e : (Str × Match) × Str × Metric) :
      Safe (evaluateMetricMatch values engine r s e) ↔ Safe (e.1.2.holds engine (metricEnv values) e.2.1) :=
    safe_addRecord
  have hm (e : Str × Match) (he : e ∈ pairs r.status.metrics) (name : Str) :
      Safe (e.2.holds engine (metricEnv values) name) ↔ ¬ e.2.NotBool engine [(nameField, values.str name)] :=
    Match.safe_holds (types_length_of_pairs hcfg hr (mem_pairs_append.mpr (.inl he))) fun _ => rfl
  rw [safe_foldlM_iff hb]
  push Not
  constructor
  · intro h e he metric hmem
    exact (hm e he metric.name).mp (h (e, metric.name, metric) (mem_metricPairs.mpr ⟨he, hmem, rfl⟩))
  · rintro h ⟨e, name, metric⟩ hmem
    obtain ⟨he, hme, rfl⟩ := mem_metricPairs.mp hmem
    exact (hm e he metric.name).mpr (h e he metric hme)

theorem safe_evaluateMetrics (hcfg : cfg.validate = []) :
    Safe (evaluateMetrics values engine encoded cfg getOrCreate ev md) ↔
      ¬ MetricsPanic values engine encoded cfg getOrCreate ev md := by
  obtain ⟨ids, hids⟩ := md.receiverIDs_ok values
  unfold evaluateMetrics MetricsPanic
  by_cases hall : md.all = []
  · simp [hall]
  · rw [if_neg (by simpa using hall), hids, ok_bind]
    cases hr : resolve cfg ids with
    | none => simp [pure, Except.pure, hr]
    | some r =>
      cases hre : md.resourceMetrics with
      | nil => exact absurd (by simp [Metrics.all, hre]) hall
      | cons rm rest =>
        by_cases hm : r.status.metrics = []
        · simp [hm, pure, Except.pure, hr]
        · simp only [List.isEmpty_iff, hm, if_false, Except.ok.injEq, exists_and_left, exists_eq_left', hr,
            some.injEq, List.head?_cons, ne_eq, hall, not_false_eq_true, true_and]
          rw [not_or, ← safe_correlateResourceAttributes]
          refine safe_bind_iff fun c => ?_
          rw [safe_bind, safe_evaluateMetricMatch hcfg hr]
          exact and_iff_left fun s _ => safe_ok _

/-- In a valid configuration, the evaluation returns just if no expression of the receiver returns a value that is no
bool, and an embedded configuration that is updated is not a null and can be written. -/
theorem safe_evaluate_iff (values : Values A) (engine : Engine A V P) (json : JsonText A) (encoded : Encoded C)
    (cfg : Config) (hcfg : cfg.validate = []) (getOrCreate : ComponentID → Str → Correlation Details) (ev : Evaluator) :
    (∀ statement, Safe (evaluateStatement values engine json encoded cfg getOrCreate ev statement) ↔
      ¬ StatementPanics values engine json encoded cfg getOrCreate ev statement) ∧
    ∀ md, Safe (evaluateMetrics values engine encoded cfg getOrCreate ev md) ↔
      ¬ MetricsPanic values engine encoded cfg getOrCreate ev md :=
  ⟨fun _ => safe_evaluateStatement hcfg, fun _ => safe_evaluateMetrics hcfg⟩

/-! A receiver with an expression for its metrics, and a batch with one of them. -/

def strings : Values Str := ⟨id, id, id⟩

def returning (ret : Option Bool) : Engine Str (Option Bool) Str :=
  ⟨fun _ => none, fun e _ => some e, fun _ _ => some ret, id⟩

def noJson : JsonText Str := ⟨fun _ => none, fun _ => none, id, by simp, by simp⟩

def noConfig : Encoded Unit := ⟨fun _ => none, fun _ => none, fun _ _ => (), fun _ => none, id⟩

def exprConfig : Config :=
  ⟨[(⟨['a'], []⟩, ⟨some ⟨[(['f', 'a', 'i', 'l', 'e', 'd'], [⟨none, [], [], ['n', 'a', 'm', 'e'], false⟩])], []⟩, []⟩)],
    [⟨['o'], []⟩], false⟩

def oneMetric : Metrics Str :=
  ⟨[⟨[(receiverTypeAttr, ['a']), (endpointIDAttr, ['e'])], [[⟨['m'], none⟩]]⟩], false⟩

theorem safe_evaluate_bool : exprConfig.validate = [] ∧
    Safe (evaluateMetrics strings (returning (some true)) noConfig exprConfig
      (fun _ _ => (newCorrelation : Correlation Unit)) ⟨[], []⟩ oneMetric) := by
  have hv : exprConfig.validate = [] := by decide +kernel
  have hiff := safe_evaluate_iff strings (returning (some true)) noJson noConfig exprConfig hv
    (fun _ _ => (newCorrelation : Correlation Unit)) ⟨[], []⟩
  refine ⟨hv, (hiff.2 oneMetric).mpr ?_⟩
  rintro ⟨-, ids, r, rm, -, -, -, -, ⟨he, -⟩ | ⟨e, -, metric, -, -, program, ret, -, hret, hb⟩⟩
  · cases he
  · cases hret
    cases hb

theorem not_safe_evaluate_notBool : exprConfig.validate = [] ∧
    ¬ Safe (evaluateMetrics strings (returning none) noConfig exprConfig
      (fun _ _ => (newCorrelation : Correlation Unit)) ⟨[], []⟩ oneMetric) := by
  refine ⟨by decide +kernel, ?_⟩
  rw [safe_iff_not_panics]
  decide +kernel

end Collector.DiscoveryReceiver
