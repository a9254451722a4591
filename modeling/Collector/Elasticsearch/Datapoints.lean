import Collector.Elasticsearch.Request

/-!
# The datapoints of an Elasticsearch response

Every aggregation of the response is looked up by its name in the metadata of the request. An unknown name is a nil
pointer, whose type is asked for.
-/

namespace Collector.Elasticsearch

open Lib Outcome List

variable {N : Type}

namespace AggregationResponse

def docCount : AggregationResponse N → Option Int
  | .mk docCount _ _ _ _ _ => docCount

def value : AggregationResponse N → Json N
  | .mk _ value _ _ _ _ => value

def values : AggregationResponse N → Json N
  | .mk _ _ values _ _ _ => values

def subAggregations : AggregationResponse N → List (Str × AggregationResponse N)
  | .mk _ _ _ subs _ _ => subs

def buckets : AggregationResponse N → List (BucketKey N × BucketResponse N)
  | .mk _ _ _ _ buckets _ => buckets

def otherValues : AggregationResponse N → List (Str × Json N)
  | .mk _ _ _ _ _ others => others

end AggregationResponse

namespace BucketResponse

def docCount : BucketResponse N → Option Int
  | .mk docCount _ => docCount

def subAggregations : BucketResponse N → List (Str × AggregationResponse N)
  | .mk _ subs => subs

end BucketResponse

section
variable {P : AggregationResponse N → Prop} (step : ∀ agg : AggregationResponse N,
  (∀ e ∈ agg.subAggregations, P e.2) → (∀ b ∈ agg.buckets, ∀ e ∈ b.2.subAggregations, P e.2) → P agg)
include step
set_option linter.unusedSectionVars false

mutual
theorem AggregationResponse.induct : (agg : AggregationResponse N) → P agg
  | .mk docCount value values subs buckets others =>
    step (.mk docCount value values subs buckets others) (induct_subs subs) (induct_buckets buckets)

theorem AggregationResponse.induct_subs : (subs : List (Str × AggregationResponse N)) → ∀ e ∈ subs, P e.2
  | [], _, h => nomatch h
  | (_, agg) :: subs, e, h => (mem_cons.mp h).elim (fun he => he ▸ induct agg) (induct_subs subs e)

theorem AggregationResponse.induct_buckets : (buckets : List (BucketKey N × BucketResponse N)) →
    ∀ b ∈ buckets, ∀ e ∈ b.2.subAggregations, P e.2
  | [], _, h => nomatch h
  | (_, .mk _ subs) :: buckets, b, h =>
    (mem_cons.mp h).elim (fun hb => hb ▸ induct_subs subs) (induct_buckets buckets b)
end
end

/-! ## Metric aggregations -/

inductive Value (N : Type) where
  | int (n : Int)
  | float (n : N)
deriving DecidableEq

abbrev Dimensions := List (Str × Str)

structure Datapoint (N : Type) where
  metric : Str
  value : Value N
  dimensions : Dimensions
deriving DecidableEq

def statsType : Str := ['s', 't', 'a', 't', 's']
def extendedStatsType : Str := ['e', 'x', 't', 'e', 'n', 'd', 'e', 'd', '_'] ++ statsType
def percentilesType : Str := ['p', 'e', 'r', 'c', 'e', 'n', 't', 'i', 'l', 'e', 's']
def boundsName : Str := "std_deviation_bounds"
def metricTypeName : Str := "metric_aggregation_type"
def bucketTypeName : Str := "bucket_aggregation_type"

def collectDatapoint (metricName : Str) (value : Json N) (dims : Dimensions) : Option (Datapoint N) :=
  match value with
  | .num n => some ⟨metricName, .float n, dims⟩
  | _ => none

def getDatapointsFromStats (aggName : Str) (agg : AggregationResponse N) (dims : Dimensions) : List (Datapoint N) :=
  agg.otherValues.flatMap fun e =>
    if e.1 = boundsName then
      match e.2 with
      | .obj m => m.filterMap fun b => collectDatapoint (aggName ++ '.' :: (e.1 ++ '.' :: b.1)) b.2 dims
      | _ => []
    else (collectDatapoint (aggName ++ '.' :: e.1) e.2 dims).toList

section
variable (percentile : Str → Option Str)

/-- `getDatapointsFromPercentiles`, with the text of the percentile without trailing zeros, if it is a number. -/
def getDatapointsFromPercentiles (aggName : Str) (agg : AggregationResponse N) (dims : Dimensions) :
    List (Datapoint N) :=
  match agg.values with
  | .obj m => m.filterMap fun e =>
      (percentile e.1).bind fun p => collectDatapoint (aggName ++ '.' :: 'p' :: p) e.2 dims
  | _ => []

def collectDatapointsFromMetricAggregation (aggName aggType : Str) (agg : AggregationResponse N) (dims : Dimensions) :
    List (Datapoint N) :=
  let dims := put metricTypeName aggType dims
  if aggType = statsType ∨ aggType = extendedStatsType then getDatapointsFromStats aggName agg dims
  else if aggType = percentilesType then getDatapointsFromPercentiles percentile aggName agg dims
  else (collectDatapoint aggName agg.value dims).toList

/-! ## The recursion -/

def isMetricAggregation (agg : AggregationResponse N) : Bool := agg.docCount.isNone && agg.buckets.isEmpty

def terminalDocCount (docCount : Option Int) (subs : List (Str × AggregationResponse N)) : Option Int :=
  if subs.isEmpty then docCount else none

/-- `collectDocCountFromTerminalBucket`, where the value is an int64. -/
def collectDocCountFromTerminalBucket (docCount : Int) (aggName aggType : Str) (dims : Dimensions) : Datapoint N :=
  ⟨aggName ++ '.' :: docCountName, .int docCount, put bucketTypeName aggType dims⟩

variable (order : Order Empty Panic) (aggsMeta : List (Str × Str))

def getType (aggName : Str) : Outcome Empty Panic Str :=
  match find aggName aggsMeta with
  | none => .error (.panic .nilMeta)
  | some aggType => .ok aggType

mutual
def recursivelyCollectDatapoints (dims : Dimensions) (aggName : Str) :
    AggregationResponse N → Outcome Empty Panic (List (Datapoint N))
  | .mk docCount value values subs buckets others =>
    if docCount.isNone && buckets.isEmpty then
      (getType aggsMeta aggName).map fun aggType => collectDatapointsFromMetricAggregation percentile aggName aggType
        (.mk docCount value values subs buckets others) dims
    else do
      let fromBuckets ← order.rangeLeave (fromBuckets dims aggName buckets)
      let fromSubs ← order.rangeLeave (fromSubAggregations dims subs)
      return fromBuckets.flatten ++ fromSubs.flatten

def fromBuckets (dims : Dimensions) (aggName : Str) :
    List (BucketKey N × BucketResponse N) → List (Outcome Empty Panic (Option (List (Datapoint N))))
  | [] => []
  | (.str key, .mk docCount subs) :: buckets =>
    (match terminalDocCount docCount subs with
      | some docCount => (getType aggsMeta aggName).map fun aggType =>
          some [collectDocCountFromTerminalBucket docCount aggName aggType (put aggName key dims)]
      | none => (order.rangeLeave (fromSubAggregations (put aggName key dims) subs)).map fun dps => some dps.flatten)
      :: fromBuckets dims aggName buckets
  | (_, _) :: buckets => .ok none :: fromBuckets dims aggName buckets

def fromSubAggregations (dims : Dimensions) :
    List (Str × AggregationResponse N) → List (Outcome Empty Panic (Option (List (Datapoint N))))
  | [] => []
  | (k, agg) :: subs => (getType aggsMeta k >>= fun _ => (recursivelyCollectDatapoints dims k agg).map some)
      :: fromSubAggregations dims subs
end

def fromAggregation (dims : Dimensions) (e : Str × Option (AggregationResponse N)) :
    Outcome Empty Panic (Option (List (Datapoint N))) :=
  getType aggsMeta e.1 >>= fun _ => match e.2 with
    | none => .error (.panic .nilAggregation)
    | some agg => (recursivelyCollectDatapoints percentile order aggsMeta dims e.1 agg).map some

def collectDatapoints (dims : Dimensions) (aggs : List (Str × Option (AggregationResponse N))) :
    Outcome Empty Panic (List (Datapoint N)) :=
  (order.rangeLeave (aggs.map (fromAggregation percentile order aggsMeta dims))).map List.flatten

/-! ## Where it panics -/

def fromSub (dims : Dimensions) (e : Str × AggregationResponse N) : Outcome Empty Panic (Option (List (Datapoint N))) :=
  getType aggsMeta e.1 >>= fun _ => (recursivelyCollectDatapoints percentile order aggsMeta dims e.1 e.2).map some

def fromBucket (dims : Dimensions) (aggName : Str) (b : BucketKey N × BucketResponse N) :
    Outcome Empty Panic (Option (List (Datapoint N))) :=
  match b.1 with
  | .str key => match terminalDocCount b.2.docCount b.2.subAggregations with
    | some docCount => (getType aggsMeta aggName).map fun aggType =>
        some [collectDocCountFromTerminalBucket docCount aggName aggType (put aggName key dims)]
    | none =>
      (order.rangeLeave (b.2.subAggregations.map (fromSub percentile order aggsMeta (put aggName key dims)))).map
        fun dps => some dps.flatten
  | _ => .ok none

variable (dims : Dimensions)

theorem fromSubAggregations_eq (subs : List (Str × AggregationResponse N)) :
    fromSubAggregations percentile order aggsMeta dims subs = subs.map (fromSub percentile order aggsMeta dims) := by
  induction subs with
  | nil => rw [fromSubAggregations, map_nil]
  | cons e subs ih =>
    rw [fromSubAggregations, ih, map_cons]
    rfl

theorem fromBuckets_eq (aggName : Str) (buckets : List (BucketKey N × BucketResponse N)) :
    fromBuckets percentile order aggsMeta dims aggName buckets =
      buckets.map (fromBucket percentile order aggsMeta dims aggName) := by
  induction buckets with
  | nil => rw [fromBuckets, map_nil]
  | cons b buckets ih =>
    obtain ⟨key, docCount, subs⟩ := b
    cases key with
    | str key =>
      simp only [fromBuckets, ih, map_cons, fromSubAggregations_eq]
      rfl
    | null | bool | num =>
      rw [fromBuckets, ih, map_cons]
      · rfl
      · simp

end

/-- The sub-aggregations of a metric aggregation are not looked at, nor are those of a bucket whose key is no string. -/
inductive Unknown (names : Str → Prop) : AggregationResponse N → Prop where
  | subName {agg sub : AggregationResponse N} {k : Str} (hagg : isMetricAggregation agg = false)
    (hmem : (k, sub) ∈ agg.subAggregations) (h : ¬ names k) : Unknown names agg
  | subNested {agg sub : AggregationResponse N} {k : Str} (hagg : isMetricAggregation agg = false)
    (hmem : (k, sub) ∈ agg.subAggregations) (h : Unknown names sub) : Unknown names agg
  | bucketName {agg sub : AggregationResponse N} {k key : Str} {bucket : BucketResponse N}
    (hbucket : (.str key, bucket) ∈ agg.buckets) (hmem : (k, sub) ∈ bucket.subAggregations) (h : ¬ names k) :
    Unknown names agg
  | bucketNested {agg sub : AggregationResponse N} {k key : Str} {bucket : BucketResponse N}
    (hbucket : (.str key, bucket) ∈ agg.buckets) (hmem : (k, sub) ∈ bucket.subAggregations) (h : Unknown names sub) :
    Unknown names agg

def SubUnknown (names : Str → Prop) (e : Str × AggregationResponse N) : Prop := ¬ names e.1 ∨ Unknown names e.2

def BucketUnknown (names : Str → Prop) (b : BucketKey N × BucketResponse N) : Prop :=
  (∃ key, b.1 = .str key) ∧ ∃ e ∈ b.2.subAggregations, SubUnknown names e

theorem unknown_iff {names : Str → Prop} {agg : AggregationResponse N} : Unknown names agg ↔
    isMetricAggregation agg = false ∧
      ((∃ b ∈ agg.buckets, BucketUnknown names b) ∨ ∃ e ∈ agg.subAggregations, SubUnknown names e) := by
  have hm {b} (hb : b ∈ agg.buckets) : isMetricAggregation agg = false := by
    unfold isMetricAggregation
    cases hbuc : agg.buckets with
    | nil => simp [hbuc] at hb
    | cons => simp
  constructor
  · rintro (⟨hagg, hmem, h⟩ | ⟨hagg, hmem, h⟩ | ⟨hbu, hmem, h⟩ | ⟨hbu, hmem, h⟩)
    · exact ⟨hagg, .inr ⟨_, hmem, .inl h⟩⟩
    · exact ⟨hagg, .inr ⟨_, hmem, .inr h⟩⟩
    · exact ⟨hm hbu, .inl ⟨_, hbu, ⟨_, rfl⟩, _, hmem, .inl h⟩⟩
    · exact ⟨hm hbu, .inl ⟨_, hbu, ⟨_, rfl⟩, _, hmem, .inr h⟩⟩
  · rintro ⟨hagg, ⟨⟨_, bucket⟩, hbu, ⟨key, rfl⟩, e, hmem, h | h⟩ | ⟨e, hmem, h | h⟩⟩
    · exact .bucketName hbu hmem h
    · exact .bucketNested hbu hmem h
    · exact .subName hagg hmem h
    · exact .subNested hagg hmem h

/-- The aggregation is known, it is not null, and all names under it are known. -/
def Known (names : Str → Prop) (e : Str × Option (AggregationResponse N)) : Prop :=
  names e.1 ∧ ∃ agg, e.2 = some agg ∧ ¬ Unknown names agg

section
variable {percentile : Str → Option Str} {aggsMeta : List (Str × Str)} {names : Str → Prop}
  (hnames : ∀ k, k ∈ keys aggsMeta ↔ names k)
include hnames

theorem panicsIff_getType (aggName : Str) : PanicsIff (fun _ => getType aggsMeta aggName) (¬ names aggName) := by
  rw [← hnames, ← find_none]
  unfold getType
  constructor
  · intro h
    simp [h]
  · intro h _
    cases hf : find aggName aggsMeta with
    | none => exact absurd hf h
    | some aggType => exact safe_ok aggType

theorem panicsIff_fromSub {e : Str × AggregationResponse N} (ih : ∀ dims aggName, names aggName → PanicsIff
      (fun order => recursivelyCollectDatapoints percentile order aggsMeta dims aggName e.2) (Unknown names e.2))
    (dims : Dimensions) :
    PanicsIff (fun order => fromSub percentile order aggsMeta dims e) (SubUnknown names e) := by
  have hget := panicsIff_getType hnames e.1
  unfold fromSub SubUnknown
  exact hget.bind fun hn _ => (ih dims e.1 (not_not.mp hn)).map some

theorem panicsIff_fromBucket {b : BucketKey N × BucketResponse N} {aggName : Str} (hn : names aggName)
    (hsub : ∀ e ∈ b.2.subAggregations, ∀ dims,
      PanicsIff (fun order => fromSub percentile order aggsMeta dims e) (SubUnknown names e)) (dims : Dimensions) :
    PanicsIff (fun order => fromBucket percentile order aggsMeta dims aggName b) (BucketUnknown names b) := by
  unfold fromBucket BucketUnknown
  obtain ⟨key, bucket⟩ := b
  cases key with
  | str key =>
    cases hc : terminalDocCount bucket.docCount bucket.subAggregations with
    | some docCount =>
      -- a terminal bucket has no sub-aggregations
      have hem : bucket.subAggregations = [] := by
        unfold terminalDocCount at hc
        split at hc
        next h => exact isEmpty_iff.mp h
        next => cases hc
      exact .of_safe (fun order => (safe_map _ _).mpr ((panicsIff_getType hnames aggName).safe (by simpa) order))
        (by simp [hem])
    | none =>
      refine ((PanicsIff.rangeLeave fun e he => hsub e he _).map _).congr ?_
      simp
  | null | bool | num => exact .of_safe (fun _ => safe_ok none) (by simp)

theorem panicsIff_recursivelyCollectDatapoints (agg : AggregationResponse N) :
    ∀ (dims : Dimensions) (aggName : Str), names aggName →
      PanicsIff (fun order => recursivelyCollectDatapoints percentile order aggsMeta dims aggName agg)
        (Unknown names agg) := by
  induction agg using AggregationResponse.induct with
  | step agg ihsubs ihbuckets =>
    intro dims aggName hn
    rw [unknown_iff]
    obtain ⟨docCount, value, values, subs, buckets, others⟩ := agg
    simp only [recursivelyCollectDatapoints, isMetricAggregation, AggregationResponse.docCount,
      AggregationResponse.buckets, AggregationResponse.subAggregations]
    cases hm : docCount.isNone && buckets.isEmpty with
    | true =>
      refine .of_safe (fun order => ?_) (by simp)
      rw [if_pos rfl, safe_map]
      exact (panicsIff_getType hnames aggName).safe (by simpa) order
    | false =>
      simp only [Bool.false_eq_true, if_false, true_and, fromBuckets_eq, fromSubAggregations_eq]
      refine PanicsIff.bind (.rangeLeave fun b hb => ?_) fun _ _ => PanicsIff.map (.rangeLeave fun e he => ?_) _
      · exact panicsIff_fromBucket hnames hn (fun e he => panicsIff_fromSub hnames (ihbuckets b hb e he)) dims
      · exact panicsIff_fromSub hnames (ihsubs e he) dims

theorem panicsIff_fromAggregation (dims : Dimensions) (e : Str × Option (AggregationResponse N)) :
    PanicsIff (fun order => fromAggregation percentile order aggsMeta dims e) (¬ Known names e) := by
  have hb (hn : names e.1) : PanicsIff (fun order => match e.2 with
      | none => .error (.panic .nilAggregation)
      | some agg => (recursivelyCollectDatapoints percentile order aggsMeta dims e.1 agg).map some)
      (¬ ∃ agg, e.2 = some agg ∧ ¬ Unknown names agg) := by
    cases e.2 with
    | none => exact ⟨fun _ => not_safe_panic _, fun h => absurd (by simp) h⟩
    | some agg => exact ((panicsIff_recursivelyCollectDatapoints hnames agg dims e.1 hn).map some).congr (by simp)
  unfold fromAggregation Known
  refine ((panicsIff_getType hnames e.1).bind fun hn _ => hb (not_not.mp hn)).congr ?_
  rw [not_and_or]

theorem panicsIff_collectDatapoints (dims : Dimensions) (aggs : List (Str × Option (AggregationResponse N))) :
    PanicsIff (fun order => collectDatapoints percentile order aggsMeta dims aggs) (¬ ∀ e ∈ aggs, Known names e) := by
  unfold collectDatapoints
  refine ((PanicsIff.rangeLeave fun e _ => panicsIff_fromAggregation hnames dims e).map _).congr ?_
  push Not
  rfl

end

/-! ## The monitor -/

section
variable (nums : Json.Numbers N) (pick : List Str → Str) (percentile : Str → Option Str)

def configure (req : Json N) : Option (List (Str × Str)) :=
  (unmarshalRequest nums req).bind (getAggregationsMeta pick)

def process [DecidableEq N] (order : Order Unit Panic) (order' : Order Empty Panic) (aggsMeta : List (Str × Str))
    (dims : Dimensions) (resp : Json N) : Result (List (Datapoint N)) :=
  unmarshalResponse order nums resp >>= fun aggs => lift (collectDatapoints percentile order' aggsMeta dims aggs)

/-- An aggregation of the request, or one below it under `aggs`. -/
def NamedIn (req : Json N) (k : Str) : Prop := ∃ aggs, unmarshalRequest nums req = some aggs ∧ Named aggs k

variable {nums pick percentile}

theorem mem_keys_configure {req : Json N} {aggsMeta : List (Str × Str)} (h : configure nums pick req = some aggsMeta)
    (k : Str) : k ∈ keys aggsMeta ↔ NamedIn nums req k := by
  rw [configure, Option.bind_eq_some_iff] at h
  obtain ⟨aggs, ha, h⟩ := h
  rw [mem_keys_getAggregationsMeta h]
  unfold NamedIn
  constructor
  · exact fun hk => ⟨aggs, ha, hk⟩
  · rintro ⟨aggs', ha', hk⟩
    rw [ha] at ha'
    cases ha'
    exact hk

/-- A response does not crash the monitor just if it can be decoded without a panic and the request has all names in
it under `aggs`. -/
theorem safe_process_iff [DecidableEq N] {req : Json N} {aggsMeta : List (Str × Str)} (dims : Dimensions)
    (resp : Json N) (hreq : configure nums pick req = some aggsMeta) :
    (∀ order order', Safe (process nums percentile order order' aggsMeta dims resp)) ↔
      ¬ ResponsePanics nums resp ∧ ∀ aggs, unmarshalResponse .asListed nums resp = .ok aggs →
        ∀ e ∈ aggs, Known (NamedIn nums req) e := by
  have hc (aggs : List (Str × Option (AggregationResponse N))) :
      (∀ order', Safe (collectDatapoints percentile order' aggsMeta dims aggs)) ↔
        ∀ e ∈ aggs, Known (NamedIn nums req) e := by
    rw [(panicsIff_collectDatapoints (mem_keys_configure hreq) dims aggs).forall_safe, not_not]
  simp only [process, safe_bind, safe_lift]
  rw [← (panicsIff_unmarshalResponse resp).forall_safe]
  constructor
  · intro h
    refine ⟨fun order => (h order .asListed).1, fun aggs ha => ?_⟩
    exact (hc aggs).mp fun order' => (h .asListed order').2 aggs ha
  · rintro ⟨hd, h⟩ order order'
    refine ⟨hd order, fun aggs ha => ?_⟩
    exact (hc aggs).mpr (h aggs (steady_unmarshalResponse resp order .asListed aggs ha)) order'

end

/-! ## A request with `aggs` and one with `aggregations` -/

def intNumbers : Json.Numbers Int := ⟨some, some⟩

def averageUnder (keyword : Str) : Json Int :=
  .obj [(aggsName, .obj [(['a'], .obj [(['t', 'e', 'r', 'm', 's'], .obj []),
    (keyword, .obj [(['b'], .obj [(['a', 'v', 'g'], .obj [])])])])])]

def averageOfBucket : Json Int :=
  .obj [(aggregationsName, .obj [(['a'], .obj [(bucketsName, .arr [.obj [(keyName, .str ['x']), (docCountName, .num 1),
    (['b'], .obj [(valueName, .num 2)])]])])])]

def averageMeta : List (Str × Str) := [(['a'], ['t', 'e', 'r', 'm', 's']), (['b'], ['a', 'v', 'g'])]

def averageAggregations : List (Str × Option (AggregationResponse Int)) :=
  [(['a'], some (.mk none .null .null []
    [(.str ['x'], .mk (some 1) [(['b'], .mk none (.num 2) .null [] [] [])])] []))]

theorem configure_averageUnder : configure intNumbers (·.headD []) (averageUnder aggsName) = some averageMeta := by
  decide +kernel

theorem unmarshalResponse_averageOfBucket :
    unmarshalResponse .asListed intNumbers averageOfBucket = .ok averageAggregations := rfl

theorem known_averageAggregations {names : Str → Prop} (ha : names ['a']) (hb : names ['b']) :
    ∀ e ∈ averageAggregations, Known names e := by
  have hm : ¬ Unknown names (.mk none (.num (2 : Int)) .null [] [] []) := by
    simp [unknown_iff, isMetricAggregation, AggregationResponse.docCount, AggregationResponse.buckets]
  intro e he
  rw [averageAggregations, mem_singleton] at he
  subst he
  refine ⟨ha, _, rfl, ?_⟩
  rw [unknown_iff]
  simp [AggregationResponse.buckets, AggregationResponse.subAggregations, BucketResponse.subAggregations, BucketUnknown,
    SubUnknown, hb, hm]

theorem safe_process_aggs : configure intNumbers (·.headD []) (averageUnder aggsName) = some averageMeta ∧
    ∀ order order', Safe (process intNumbers some order order' averageMeta [] averageOfBucket) := by
  refine ⟨configure_averageUnder, (safe_process_iff _ _ configure_averageUnder).mpr ⟨?_, ?_⟩⟩
  · exact not_responsePanics_of_ok unmarshalResponse_averageOfBucket
  · intro aggs ha
    rw [unmarshalResponse_averageOfBucket] at ha
    cases ha
    have hn := mem_keys_configure configure_averageUnder
    exact known_averageAggregations ((hn _).mp (by decide)) ((hn _).mp (by decide))

theorem not_safe_process_aggregations :
    configure intNumbers (·.headD []) (averageUnder aggregationsName) = some [(['a'], ['t', 'e', 'r', 'm', 's'])] ∧
    ¬ Safe (process intNumbers some .asListed .asListed [(['a'], ['t', 'e', 'r', 'm', 's'])] [] averageOfBucket) := by
  refine ⟨by decide +kernel, ?_⟩
  rw [safe_iff_not_panics]
  decide +kernel

end Collector.Elasticsearch
