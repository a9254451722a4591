import Mathlib.Algebra.Order.Ring.Int
import Collector.Value

/-!
# From Prometheus to OpenTelemetry

`prometheus_to_otel.go` and `internal/prometheus_spec_utils.go` of
`internal/receiver/signalfxgatewayprometheusremotewritereceiver`. The type of a series is guessed from its name and
labels.
-/

namespace Collector.RemoteWrite

open Lib List

variable {F : Type}

/-- The operations of `float64` that the code uses. -/
structure Floats (F : Type) where
  isNaN : F → Bool
  toInt64 : F → Int
  ofInt64 : Int → F
  eq : F → F → Bool

/-! ## Requests -/

structure Label where
  name : Str
  value : Str
  deriving DecidableEq

structure Sample (F : Type) where
  value : F
  timestamp : Int

structure TimeSeries (F : Type) where
  labels : List Label
  samples : List (Sample F)

/-- Only the number of the metadata counts. -/
structure WriteRequest (F : Type) where
  timeseries : List (TimeSeries F)
  metadata : Nat

inductive MetricType where
  | counter
  | gauge
  | histogram
  | gaugeHistogram
  | summary
  | info
  | stateset
  deriving DecidableEq

variable (metricType : MetricType)

def nameLabel : Str := ['_', '_', 'n', 'a', 'm', 'e', '_', '_']

def getLabelValue (labels : List Label) (name : Str) : Option Str :=
  (labels.find? fun label => label.name = name).map Label.value

def extractMetricNameLabel (labels : List Label) : Option Str := getLabelValue labels nameLabel

def hasSuffix (s : Str) (suffix : String) : Bool := suffix.toList.isSuffixOf s

def determineMetricTypeByConvention (metricName : Str) (labels : List Label) : MetricType :=
  let hasLe := (getLabelValue labels ['l', 'e']).isSome
  let hasQuantile := (getLabelValue labels ['q', 'u', 'a', 'n', 't', 'i', 'l', 'e']).isSome
  let hasMetricName := (getLabelValue labels metricName).isSome
  if hasLe && (hasSuffix metricName "_gsum" || hasSuffix metricName "_gcount") then .gaugeHistogram
  else if hasLe then .histogram
  else if hasQuantile then .summary
  else if hasMetricName then .stateset
  else if hasSuffix metricName "_total" || hasSuffix metricName "_count" || hasSuffix metricName "_counter" ||
      hasSuffix metricName "_created" then .counter
  else if hasSuffix metricName "_bucket" then .histogram
  else if hasSuffix metricName "_info" then .info
  else .gauge

/-! ## Metrics -/

inductive NumberValue (F : Type) where
  | int (i : Int)
  | double (v : F)

/-- The times are unsigned 64-bit nanoseconds. -/
structure DataPoint (F : Type) where
  startTimestamp : Nat
  timestamp : Nat
  value : NumberValue F
  attributes : List (Str × Str)

inductive Data (F : Type) where
  | gauge (dataPoints : List (DataPoint F))
  /-- It is cumulative and monotonic. -/
  | sum (dataPoints : List (DataPoint F))

def Data.dataPoints : Data F → List (DataPoint F)
  | .gauge dps => dps
  | .sum dps => dps

def Data.isSum : Data F → Bool
  | .gauge _ => false
  | .sum _ => true

structure Metric (F : Type) where
  name : Str
  data : Data F

structure Metrics (F : Type) where
  scopeName : Str
  scopeVersion : Str
  metrics : List (Metric F)

structure Counters where
  totalNans : Int
  totalInvalidRequests : Int
  totalBadMetrics : Int

variable (c : Counters)

inductive TranslationError where
  | missingName
  | noSamples (metricName : Str)

structure MetricData (F : Type) where
  metricName : Str
  labels : List Label
  samples : List (Sample F)

/-! ## Partitions -/

def metricData (ts : TimeSeries F) : MetricData F :=
  ⟨(extractMetricNameLabel ts.labels).getD [], ts.labels, ts.samples⟩

def addTo (metricType : MetricType) (md : MetricData F) (partitions : List (MetricType × List (MetricData F))) :
    List (MetricType × List (MetricData F)) :=
  put metricType ((find metricType partitions).getD [] ++ [md]) partitions

structure Partitioned (F : Type) where
  partitions : List (MetricType × List (MetricData F))
  errors : List TranslationError
  counters : Counters

def translationErrors (ts : TimeSeries F) : List TranslationError :=
  (if (extractMetricNameLabel ts.labels).isNone then [.missingName] else []) ++
    if ts.samples.isEmpty then [.noSamples (metricData ts).metricName] else []

def partitionSeries (p : Partitioned F) (ts : TimeSeries F) : Partitioned F :=
  let md := metricData ts
  { partitions := addTo (determineMetricTypeByConvention md.metricName md.labels) md p.partitions
    errors := p.errors ++ translationErrors ts
    counters :=
      if md.samples.isEmpty then { p.counters with totalInvalidRequests := p.counters.totalInvalidRequests + 1 }
      else p.counters }

def partitionWriteRequest (counters : Counters) (writeReq : WriteRequest F) : Partitioned F :=
  writeReq.timeseries.foldl partitionSeries ⟨[], [], counters⟩

/-! ## Data points -/

def int64Wrap : Nat := 2 ^ 64

/-- Milliseconds as unsigned nanoseconds, which wrap around. -/
def prometheusToOtelTimestamp (ts : Int) : Nat := (ts * 1000000 % int64Wrap).toNat

/-- `pcommon.NewTimestampFromTime`, of a time that is a number of milliseconds. -/
def newTimestampFromTime (t : Int) : Nat := (t * 1000000 % int64Wrap).toNat

section
variable (floats : Floats F)

def setFloatOrInt (sample : Sample F) : NumberValue F :=
  if floats.eq (floats.ofInt64 (floats.toInt64 sample.value)) sample.value then .int (floats.toInt64 sample.value)
  else .double sample.value

def setAttributes (labels : List Label) : List (Str × Str) :=
  putAll ((labels.filter fun attr => attr.name ≠ nameLabel).map fun attr => (attr.name, attr.value)) []

def dataPoint (labels : List Label) (sample : Sample F) : DataPoint F where
  startTimestamp := prometheusToOtelTimestamp sample.timestamp
  timestamp := prometheusToOtelTimestamp sample.timestamp
  value := setFloatOrInt floats sample
  attributes := setAttributes labels

def addSample (labels : List Label) (s : Counters × List (DataPoint F)) (sample : Sample F) :
    Counters × List (DataPoint F) :=
  if floats.isNaN sample.value then ({ s.1 with totalNans := s.1.totalNans + 1 }, s.2)
  else (s.1, s.2 ++ [dataPoint floats labels sample])

def addSeries (data : List (DataPoint F) → Data F) (s : Counters × List (Metric F)) (md : MetricData F) :
    Counters × List (Metric F) :=
  if md.metricName = [] then ({ s.1 with totalBadMetrics := s.1.totalBadMetrics + 1 }, s.2)
  else
    let (counters, dps) := md.samples.foldl (addSample floats md.labels) (s.1, [])
    (counters, s.2 ++ [⟨md.metricName, data dps⟩])

def addGaugeMetrics (s : Counters × List (Metric F)) (metrics : List (MetricData F)) : Counters × List (Metric F) :=
  metrics.foldl (addSeries floats .gauge) s

def addCounterMetrics (s : Counters × List (Metric F)) (metrics : List (MetricData F)) : Counters × List (Metric F) :=
  metrics.foldl (addSeries floats .sum) s

def addMetrics (s : Counters × List (Metric F)) (e : MetricType × List (MetricData F)) : Counters × List (Metric F) :=
  match e.1 with
  | .counter | .histogram | .gaugeHistogram => addCounterMetrics floats s e.2
  | _ => addGaugeMetrics floats s e.2

/-- The partitions in the order in which Go ranges over them. -/
def transformPrometheusRemoteWriteToOtel (counters : Counters)
    (parsedPrwMetrics : List (MetricType × List (MetricData F))) : Counters × List (Metric F) :=
  parsedPrwMetrics.foldl (addMetrics floats) (counters, [])

/-! ## The sums about the requests -/

def getSampleTimestampBounds (samples : List (Sample F)) : Int × Int :=
  if samples.isEmpty then (-1, -1)
  else samples.foldl (fun b sample =>
      (if b.1 > sample.timestamp then sample.timestamp else b.1,
        if b.2 < sample.timestamp then sample.timestamp else b.2)) (2 ^ 63 - 1, -2 ^ 63)

def getWriteRequestTimestampBounds (request : WriteRequest F) : Int × Int :=
  request.timeseries.foldl (fun b ts =>
    let s := getSampleTimestampBounds ts.samples
    (if s.1 < b.1 then s.1 else b.1, if s.2 > b.2 then s.2 else b.2)) (2 ^ 63 - 1, -2 ^ 63)

def bookkeepingSum (name : String) (total : Int) (start stop : Int) : Metric F :=
  ⟨name.toList, .sum [⟨newTimestampFromTime start, newTimestampFromTime stop, .int total, []⟩]⟩

def addBadRequests (counters : Counters) (start stop : Int) : Metric F :=
  bookkeepingSum "prometheus.invalid_requests" counters.totalInvalidRequests start stop

def addNanDataPoints (counters : Counters) (start stop : Int) : Metric F :=
  bookkeepingSum "prometheus.total_NAN_samples" counters.totalNans start stop

def addMetricsWithMissingName (counters : Counters) (start stop : Int) : Metric F :=
  bookkeepingSum "prometheus.total_bad_datapoints" counters.totalBadMetrics start stop

def bookkeeping (counters : Counters) (request : WriteRequest F) : List (Metric F) :=
  let (start, stop) := getWriteRequestTimestampBounds request
  [addBadRequests counters start stop, addNanDataPoints counters start stop,
    addMetricsWithMissingName counters start stop]

structure Converted (F : Type) where
  metrics : Metrics F
  errors : List TranslationError
  counters : Counters

/-- `range` gives the order in which Go ranges over the partitions. -/
def fromPrometheusWriteRequestMetrics
    (range : List (MetricType × List (MetricData F)) → List (MetricType × List (MetricData F)))
    (counters : Counters) (request : WriteRequest F) : Converted F :=
  let p := partitionWriteRequest counters request
  let (counters, metrics) := transformPrometheusRemoteWriteToOtel floats p.counters (range p.partitions)
  { metrics :=
      { scopeName := "otelcol/signalfxgatewayprometheusremotewrite"
        scopeVersion := "0.1"
        metrics := metrics ++ bookkeeping counters request }
    errors := p.errors
    counters }

end

/-! ## What each loop adds -/

def Counters.plus (c : Counters) (nans bad : Nat) : Counters :=
  { c with totalNans := c.totalNans + nans, totalBadMetrics := c.totalBadMetrics + bad }

theorem Counters.plus_zero : c.plus 0 0 = c := by
  simp [Counters.plus]

theorem Counters.plus_plus (n n' b b' : Nat) : (c.plus n b).plus n' b' = c.plus (n + n') (b + b') := by
  simp [Counters.plus, Int.add_assoc]

def isSumType : MetricType → Bool
  | .counter | .histogram | .gaugeHistogram => true
  | _ => false

theorem isSumType_iff :
    isSumType metricType ↔ metricType ∈ [MetricType.counter, .histogram, .gaugeHistogram] := by
  cases metricType <;> decide

def dataOf (metricType : MetricType) : List (DataPoint F) → Data F :=
  if isSumType metricType then .sum else .gauge

variable (dps : List (DataPoint F))

theorem dataOf_dataPoints :
    (dataOf metricType dps).dataPoints = dps := by
  unfold dataOf
  split <;> rfl

theorem dataOf_isSum :
    (dataOf metricType dps).isSum = isSumType metricType := by
  cases metricType <;> rfl

def metricTypeOf (md : MetricData F) : MetricType := determineMetricTypeByConvention md.metricName md.labels

def unnamed (md : MetricData F) : Nat := if md.metricName = [] then 1 else 0

section
variable (floats : Floats F)

def dataPoints (labels : List Label) (samples : List (Sample F)) : List (DataPoint F) :=
  (samples.filter fun sample => !floats.isNaN sample.value).map (dataPoint floats labels)

def nans (samples : List (Sample F)) : Nat := samples.countP fun sample => floats.isNaN sample.value

def nansOf (md : MetricData F) : Nat := if md.metricName = [] then 0 else nans floats md.samples

def metricOf (data : List (DataPoint F) → Data F) (md : MetricData F) : Option (Metric F) :=
  if md.metricName = [] then none else some ⟨md.metricName, data (dataPoints floats md.labels md.samples)⟩

theorem foldl_addSample (labels : List Label) (samples : List (Sample F)) (c : Counters) (dps : List (DataPoint F)) :
    samples.foldl (addSample floats labels) (c, dps) =
      (c.plus (nans floats samples) 0, dps ++ dataPoints floats labels samples) := by
  induction samples generalizing c dps with
  | nil => simp [nans, dataPoints, c.plus_zero]
  | cons sample rest ih =>
    rw [foldl_cons, addSample]
    by_cases hn : floats.isNaN sample.value
    · have hc : { c with totalNans := c.totalNans + 1 } = c.plus 1 0 := by simp [Counters.plus]
      simp only [hn, if_true]
      rw [ih, hc, Counters.plus_plus]
      simp [nans, dataPoints, hn, Nat.add_comm]
    · simp only [hn, Bool.false_eq_true, if_false]
      rw [ih]
      simp [nans, dataPoints, hn]

variable (data : List (DataPoint F) → Data F)

theorem addSeries_eq (c : Counters) (ms : List (Metric F)) (md : MetricData F) :
    addSeries floats data (c, ms) md =
      (c.plus (nansOf floats md) (unnamed md), ms ++ (metricOf floats data md).toList) := by
  unfold addSeries nansOf unnamed metricOf
  by_cases hm : md.metricName = []
  · simp [hm, Counters.plus]
  · simp [hm, foldl_addSample]

theorem foldl_addSeries (mds : List (MetricData F)) (c : Counters)
    (ms : List (Metric F)) :
    mds.foldl (addSeries floats data) (c, ms) =
      (c.plus (mds.map (nansOf floats)).sum (mds.map unnamed).sum, ms ++ mds.filterMap (metricOf floats data)) := by
  induction mds generalizing c ms with
  | nil => simp [c.plus_zero]
  | cons md rest ih =>
    rw [foldl_cons, addSeries_eq, ih, Counters.plus_plus]
    cases h : metricOf floats data md <;> simp [h]

theorem addMetrics_eq (s : Counters × List (Metric F)) (e : MetricType × List (MetricData F)) :
    addMetrics floats s e = e.2.foldl (addSeries floats (dataOf e.1)) s := by
  obtain ⟨metricType, mds⟩ := e
  cases metricType <;> rfl

theorem transform_eq (parts : List (MetricType × List (MetricData F))) (c : Counters) (ms : List (Metric F)) :
    parts.foldl (addMetrics floats) (c, ms) =
      (c.plus ((parts.flatMap Prod.snd).map (nansOf floats)).sum ((parts.flatMap Prod.snd).map unnamed).sum,
        ms ++ parts.flatMap fun e => e.2.filterMap (metricOf floats (dataOf e.1))) := by
  induction parts generalizing c ms with
  | nil => simp [c.plus_zero]
  | cons e rest ih =>
    rw [foldl_cons, addMetrics_eq, foldl_addSeries, ih, Counters.plus_plus]
    simp

end

/-! ## Every series is in one partition -/

def Sorted (parts : List (MetricType × List (MetricData F))) : Prop := ∀ e ∈ parts, ∀ md ∈ e.2, metricTypeOf md = e.1

theorem perm_addTo (t : MetricType) (md : MetricData F) (parts : List (MetricType × List (MetricData F))) :
    ((addTo t md parts).flatMap Prod.snd).Perm (md :: parts.flatMap Prod.snd) := by
  unfold addTo
  induction parts with
  | nil => simp [put]
  | cons e rest ih =>
    obtain ⟨t', mds⟩ := e
    by_cases ht : t' = t
    · simp only [find, put, ht, if_true, Option.getD_some, flatMap_cons, append_assoc, singleton_append]
      exact perm_middle
    · simp only [find, put, ht, if_false, flatMap_cons]
      exact (ih.append_left mds).trans perm_middle

variable {parts : List (MetricType × List (MetricData F))}

theorem Sorted.addTo (h : Sorted parts) (md : MetricData F) :
    Sorted (addTo (metricTypeOf md) md parts) := by
  intro e he md' hmd
  rcases mem_put he with rfl | he
  · rcases mem_append.mp hmd with hmd | hmd
    · cases hf : find (metricTypeOf md) parts with
      | none => simp [hf] at hmd
      | some mds =>
        rw [hf, Option.getD_some] at hmd
        exact h _ (find_mem _ _ _ hf) md' hmd
    · rw [mem_singleton.mp hmd]
  · exact h e he md' hmd

structure PartitionedAs (c : Counters) (series : List (TimeSeries F)) (p : Partitioned F) : Prop where
  perm : (p.partitions.flatMap Prod.snd).Perm (series.map metricData)
  sorted : Sorted p.partitions
  errors : p.errors = series.flatMap translationErrors
  counters : p.counters =
    { c with totalInvalidRequests := c.totalInvalidRequests + series.countP fun ts => ts.samples.isEmpty }

theorem PartitionedAs.step {c : Counters} {series : List (TimeSeries F)} {p : Partitioned F}
    (h : PartitionedAs c series p) (ts : TimeSeries F) : PartitionedAs c (series ++ [ts]) (partitionSeries p ts) where
  perm := by
    rw [map_append, map_singleton]
    have hp : ((partitionSeries p ts).partitions.flatMap Prod.snd).Perm
        (metricData ts :: p.partitions.flatMap Prod.snd) := perm_addTo _ _ _
    exact (hp.trans (h.perm.cons _)).trans (perm_append_singleton _ _).symm
  sorted := h.sorted.addTo (metricData ts)
  errors := by simp [partitionSeries, h.errors]
  counters := by
    have hs : (metricData ts).samples = ts.samples := rfl
    simp only [partitionSeries, hs, h.counters, countP_append, countP_singleton]
    split <;> simp [Int.add_assoc]

theorem partitionedAs (request : WriteRequest F) :
    PartitionedAs c request.timeseries (partitionWriteRequest c request) := by
  have hrun : ∀ (rest done : List (TimeSeries F)) (p : Partitioned F), PartitionedAs c done p →
      PartitionedAs c (done ++ rest) (rest.foldl partitionSeries p) := by
    intro rest
    induction rest with
    | nil => intro done p h; simpa using h
    | cons ts rest ih =>
      intro done p h
      rw [foldl_cons, append_cons]
      exact ih _ _ (h.step ts)
  refine hrun request.timeseries [] ⟨[], [], c⟩ ⟨by simp, ?_, rfl, by simp⟩
  intro e he
  cases he

/-! ## What a request becomes -/

section
variable (floats : Floats F)

theorem sorted_metrics (h : Sorted parts) :
    (parts.flatMap fun e => e.2.filterMap (metricOf floats (dataOf e.1))) =
      (parts.flatMap Prod.snd).filterMap fun md => metricOf floats (dataOf (metricTypeOf md)) md := by
  induction parts with
  | nil => rfl
  | cons e rest ih =>
    rw [flatMap_cons, flatMap_cons, filterMap_append, ih fun e' he => h e' (.tail _ he)]
    congr 1
    apply filterMap_congr
    intro md hmd
    rw [h e (.head _) md hmd]

def seriesMetric (ts : TimeSeries F) : Option (Metric F) :=
  metricOf floats (dataOf (metricTypeOf (metricData ts))) (metricData ts)

variable {range : List (MetricType × List (MetricData F)) → List (MetricType × List (MetricData F))}

theorem convert_spec (hr : ∀ parts, (range parts).Perm parts) (c : Counters) (request : WriteRequest F) :
    ∃ ms, (fromPrometheusWriteRequestMetrics floats range c request).metrics.metrics =
        ms ++ bookkeeping (fromPrometheusWriteRequestMetrics floats range c request).counters request ∧
      ms.Perm (request.timeseries.filterMap (seriesMetric floats)) ∧
      (fromPrometheusWriteRequestMetrics floats range c request).counters =
        (partitionWriteRequest c request).counters.plus
          (request.timeseries.map fun ts => nansOf floats (metricData ts)).sum
          (request.timeseries.map fun ts => unnamed (metricData ts)).sum := by
  have hp := partitionedAs c request
  generalize hq : partitionWriteRequest c request = p at hp
  have hs : Sorted (range p.partitions) := fun e he => hp.sorted e ((hr _).mem_iff.mp he)
  have hpe : ((range p.partitions).flatMap Prod.snd).Perm (request.timeseries.map metricData) :=
    ((hr _).flatMap_right _).trans hp.perm
  have ht := transform_eq floats (range p.partitions) p.counters []
  rw [nil_append, sorted_metrics floats hs, (hpe.map _).sum_nat, (hpe.map _).sum_nat, map_map,
    map_map] at ht
  have hms : ((((range p.partitions).flatMap Prod.snd)).filterMap
      fun md => metricOf floats (dataOf (metricTypeOf md)) md).Perm
        (request.timeseries.filterMap (seriesMetric floats)) := by
    have h := hpe.filterMap fun md => metricOf floats (dataOf (metricTypeOf md)) md
    rw [filterMap_map] at h
    exact h
  have hc : (fromPrometheusWriteRequestMetrics floats range c request).counters =
      (transformPrometheusRemoteWriteToOtel floats p.counters (range p.partitions)).1 := by
    rw [← hq]
    rfl
  refine ⟨_, ?_, hms, ?_⟩
  · rw [hc]
    unfold fromPrometheusWriteRequestMetrics
    simp only [hq]
    unfold transformPrometheusRemoteWriteToOtel
    rw [ht]
  · rw [hc]
    unfold transformPrometheusRemoteWriteToOtel
    rw [ht]
    rfl

theorem convert_errors (c : Counters) (request : WriteRequest F) :
    (fromPrometheusWriteRequestMetrics floats range c request).errors = request.timeseries.flatMap translationErrors :=
  (partitionedAs c request).errors

/-! ## Series and metrics -/

def named (ts : TimeSeries F) : Bool := (metricData ts).metricName ≠ []

def NumberValue.Means (value : F) : NumberValue F → Prop
  | .int i => floats.eq (floats.ofInt64 i) value = true
  | .double v => v = value

def OnePerLabel (labels : List Label) (attributes : List (Str × Str)) : Prop :=
  attributes.Perm ((labels.filter fun l => l.name ≠ nameLabel).map fun l => (l.name, l.value))

/-- The value of the last label of the name. -/
def LastPerName (labels : List Label) (attributes : List (Str × Str)) : Prop :=
  (keys attributes).Nodup ∧ ∀ name, find name attributes =
    if name = nameLabel then none else (labels.reverse.find? fun l => l.name = name).map Label.value

structure Carries (attributes : List Label → List (Str × Str) → Prop) (labels : List Label) (dp : DataPoint F)
    (sample : Sample F) : Prop where
  startTimestamp : (dp.startTimestamp : Int) = sample.timestamp * 1000000 % 2 ^ 64
  timestamp : (dp.timestamp : Int) = sample.timestamp * 1000000 % 2 ^ 64
  value : dp.value.Means floats sample.value
  attributes : attributes labels dp.attributes

structure Represents (attributes : List Label → List (Str × Str) → Prop) (m : Metric F) (ts : TimeSeries F) :
    Prop where
  name : (ts.labels.find? fun l => l.name = nameLabel).map Label.value = some m.name
  kind : m.data.isSum ↔
    determineMetricTypeByConvention m.name ts.labels ∈ [MetricType.counter, .histogram, .gaugeHistogram]
  points : List.Forall₂ (Carries floats attributes ts.labels) m.data.dataPoints
    (ts.samples.filter fun sample => !floats.isNaN sample.value)

structure Conserves (attributes : List Label → List (Str × Str) → Prop) (c : Counters) (request : WriteRequest F)
    (result : Converted F) : Prop where
  metrics : ∃ ms represented, result.metrics.metrics = ms ++ bookkeeping result.counters request ∧
    ms.Perm represented ∧ List.Forall₂ (Represents floats attributes) represented (request.timeseries.filter named)
  totalNans : result.counters.totalNans =
    c.totalNans + ((request.timeseries.filter named).flatMap TimeSeries.samples).countP fun s => floats.isNaN s.value
  totalBadMetrics : result.counters.totalBadMetrics = c.totalBadMetrics + request.timeseries.countP fun ts => !named ts
  totalInvalidRequests : result.counters.totalInvalidRequests =
    c.totalInvalidRequests + request.timeseries.countP fun ts => ts.samples.isEmpty
  errors : result.errors ≠ [] ↔
    ∃ ts ∈ request.timeseries, (∀ l ∈ ts.labels, l.name ≠ nameLabel) ∨ ts.samples = []

theorem means_setFloatOrInt (sample : Sample F) : (setFloatOrInt floats sample).Means floats sample.value := by
  unfold setFloatOrInt
  split
  case isTrue h => exact h
  case isFalse => rfl

theorem setAttributes_append (rest : List Label) (l : Label) :
    setAttributes (rest ++ [l]) =
      if l.name = nameLabel then setAttributes rest else put l.name l.value (setAttributes rest) := by
  unfold setAttributes putAll
  by_cases hl : l.name = nameLabel <;> simp [hl]

variable (labels : List Label)

theorem lastPerName_setAttributes : LastPerName labels (setAttributes labels) := by
  refine ⟨nodup_keys_putAll _ nodup_nil, fun name => ?_⟩
  induction labels using List.reverseRecOn with
  | nil => simp [setAttributes, putAll]
  | append_singleton rest l ih =>
    have hrev : (rest ++ [l]).reverse = l :: rest.reverse := by simp
    rw [setAttributes_append, hrev, find?_cons]
    by_cases hl : l.name = nameLabel
    · by_cases hn : name = nameLabel
      · simp only [hl, hn, if_true] at ih ⊢
        exact ih
      · have hne : nameLabel ≠ name := fun h => hn h.symm
        simp only [hl, hn, hne, if_true, if_false, decide_false] at ih ⊢
        exact ih
    · rw [if_neg hl, find_put]
      by_cases hn : name = l.name
      · subst hn
        simp [hl]
      · have hne : l.name ≠ name := fun h => hn h.symm
        simp only [hn, hne, if_false, decide_false]
        exact ih

theorem carries_dataPoint (sample : Sample F) :
    Carries floats LastPerName labels (dataPoint floats labels sample) sample := by
  have ht : (prometheusToOtelTimestamp sample.timestamp : Int) = sample.timestamp * 1000000 % 2 ^ 64 := by
    have h : (0 : Int) ≤ sample.timestamp * 1000000 % int64Wrap := Int.emod_nonneg _ (by decide)
    exact Int.toNat_of_nonneg h
  exact ⟨ht, ht, means_setFloatOrInt floats sample, lastPerName_setAttributes labels⟩

variable {ts : TimeSeries F}

theorem seriesMetric_of_named (h : named ts = true) :
    ∃ m, seriesMetric floats ts = some m ∧ Represents floats LastPerName m ts := by
  have hn : (metricData ts).metricName ≠ [] := by simpa [named] using h
  refine ⟨_, if_neg hn, ?_, ?_, ?_⟩
  · change extractMetricNameLabel ts.labels = some ((extractMetricNameLabel ts.labels).getD [])
    cases he : extractMetricNameLabel ts.labels with
    | none => exact absurd (by simp [metricData, he]) hn
    | some name => rfl
  · rw [dataOf_isSum]
    exact isSumType_iff _
  · rw [dataOf_dataPoints, dataPoints, forall₂_map_left_iff]
    exact forall₂_same.mpr fun sample _ => carries_dataPoint floats ts.labels sample

theorem seriesMetric_of_not_named (h : named ts = false) : seriesMetric floats ts = none := by
  have hn : (metricData ts).metricName = [] := by simpa [named] using h
  exact if_pos hn

variable (series : List (TimeSeries F))

theorem represents_series :
    List.Forall₂ (Represents floats LastPerName) (series.filterMap (seriesMetric floats)) (series.filter named) := by
  induction series with
  | nil => exact .nil
  | cons ts rest ih =>
    cases hn : named ts with
    | false =>
      rw [filterMap_cons_none (seriesMetric_of_not_named floats hn), filter_cons_of_neg (by simp [hn])]
      exact ih
    | true =>
      obtain ⟨m, hm, hr⟩ := seriesMetric_of_named floats hn
      rw [filterMap_cons_some hm, filter_cons_of_pos hn]
      exact .cons hr ih

/-! ## The counters and the errors -/

theorem sum_nansOf :
    (series.map fun ts => nansOf floats (metricData ts)).sum =
      ((series.filter named).flatMap TimeSeries.samples).countP fun s => floats.isNaN s.value := by
  induction series with
  | nil => rfl
  | cons ts rest ih =>
    have hs : nansOf floats (metricData ts) = if named ts then nans floats ts.samples else 0 := by
      by_cases h : (metricData ts).metricName = []
      · simp [nansOf, named, h]
      · simp [nansOf, named, h]
        rfl
    rw [map_cons, sum_cons, ih, hs, filter_cons]
    split
    · rw [flatMap_cons, countP_append]
      rfl
    · rw [Nat.zero_add]

theorem sum_unnamed :
    (series.map fun ts => unnamed (metricData ts)).sum = series.countP fun ts => !named ts := by
  induction series with
  | nil => rfl
  | cons ts rest ih =>
    have hs : unnamed (metricData ts) = if (!named ts) = true then 1 else 0 := by
      by_cases h : (metricData ts).metricName = [] <;> simp [unnamed, named, h]
    rw [map_cons, sum_cons, ih, hs, countP_cons, Nat.add_comm]

theorem translationErrors_eq_nil (ts : TimeSeries F) :
    translationErrors ts = [] ↔ ¬((∀ l ∈ ts.labels, l.name ≠ nameLabel) ∨ ts.samples = []) := by
  have hn : (extractMetricNameLabel ts.labels).isNone ↔ ∀ l ∈ ts.labels, l.name ≠ nameLabel := by
    simp [extractMetricNameLabel, getLabelValue]
  have hs : ts.samples.isEmpty ↔ ts.samples = [] := isEmpty_iff
  rw [← hn, ← hs, translationErrors, append_eq_nil_iff]
  by_cases h1 : (extractMetricNameLabel ts.labels).isNone <;> by_cases h2 : ts.samples.isEmpty <;> simp [h1, h2]

theorem conserves (hr : ∀ parts, (range parts).Perm parts) (c : Counters) (request : WriteRequest F) :
    Conserves floats LastPerName c request (fromPrometheusWriteRequestMetrics floats range c request) := by
  obtain ⟨ms, hms, hp, hc⟩ := convert_spec floats hr c request
  rw [(partitionedAs c request).counters, sum_nansOf, sum_unnamed] at hc
  refine ⟨⟨ms, _, hms, hp, represents_series floats request.timeseries⟩, ?_, ?_, ?_, ?_⟩
  · rw [hc]
    rfl
  · rw [hc]
    rfl
  · rw [hc]
    rfl
  · rw [convert_errors, ne_eq, flatMap_eq_nil_iff]
    simp only [translationErrors_eq_nil, not_forall, not_not, exists_prop]

theorem Conserves.attributes_of_single {attributes : List Label → List (Str × Str) → Prop}
    (hr : ∀ parts, (range parts).Perm parts) {c : Counters} {sample : Sample F} {metadata : Nat}
    (hs : ts.samples = [sample]) (hv : floats.isNaN sample.value = false) (hn : named ts = true)
    (h : Conserves floats attributes c ⟨[ts], metadata⟩
      (fromPrometheusWriteRequestMetrics floats range c ⟨[ts], metadata⟩)) :
    attributes ts.labels (setAttributes ts.labels) := by
  obtain ⟨ms, represented, hms, hpe, hrep⟩ := h.metrics
  obtain ⟨ms', hms', hpe', -⟩ := convert_spec floats hr c ⟨[ts], metadata⟩
  obtain ⟨m, hm, -⟩ := seriesMetric_of_named floats hn
  have hone : represented = [m] := by
    have heq : ms = ms' := append_cancel_right (hms.symm.trans hms')
    rw [heq] at hpe
    refine perm_singleton.mp (hpe.symm.trans ?_)
    simpa [hm] using hpe'
  rw [hone, filter_cons_of_pos hn, filter_nil] at hrep
  obtain ⟨hpo, -⟩ := forall₂_cons.mp hrep
  have hd : m.data.dataPoints = [dataPoint floats ts.labels sample] := by
    have hne : (metricData ts).metricName ≠ [] := by simpa [named] using hn
    have hm' : some _ = some m := (if_neg hne).symm.trans hm
    rw [← Option.some.inj hm', dataOf_dataPoints]
    change ((ts.samples.filter _).map _) = _
    rw [hs, filter_cons_of_pos (by simp [hv])]
    rfl
  have hp := hpo.points
  rw [hd, hs, filter_cons_of_pos (by simp [hv])] at hp
  exact (forall₂_cons.mp hp).1.attributes

end

def integral : Floats (Option Int) where
  isNaN v := v.isNone
  toInt64 v := v.getD 0
  ofInt64 i := some i
  eq v w := v.isSome && v = w

def mixedRequest : WriteRequest (Option Int) where
  timeseries :=
    [⟨[⟨nameLabel, "jobs_total"⟩, ⟨['a'], ['1']⟩], [⟨some 3, 1000⟩, ⟨some 5, 2000⟩]⟩,
      ⟨[⟨nameLabel, "load"⟩], [⟨none, 1000⟩]⟩, ⟨[], [⟨some 1, 1000⟩]⟩]
  metadata := 0

theorem conserves_mixedRequest :
    Conserves integral LastPerName ⟨0, 0, 0⟩ mixedRequest
      (fromPrometheusWriteRequestMetrics integral List.reverse ⟨0, 0, 0⟩ mixedRequest) :=
  conserves integral reverse_perm ⟨0, 0, 0⟩ mixedRequest

def repeatedLabel : WriteRequest (Option Int) where
  timeseries := [⟨[⟨nameLabel, ['m']⟩, ⟨['a'], ['1']⟩, ⟨['a'], ['2']⟩], [⟨some 5, 1000⟩]⟩]
  metadata := 0

theorem not_conserves_repeatedLabel :
    ¬Conserves integral OnePerLabel ⟨0, 0, 0⟩ repeatedLabel
      (fromPrometheusWriteRequestMetrics integral id ⟨0, 0, 0⟩ repeatedLabel) := by
  intro h
  have ha := Conserves.attributes_of_single integral (fun _ => Perm.refl _) rfl rfl (by decide) h
  exact absurd ha.length_eq (by decide)

end Collector.RemoteWrite
