import Mathlib.Algebra.Order.Ring.Int
import Collector.Value

/-!
# Fetching the points of the vSphere monitor

`PointsSvc.FetchPoints` asks vCenter page by page for the latest samples. A time is its number of nanoseconds since the
zero value of `time.Time`.
-/

namespace Collector.VSphere

open Lib List

variable {pageNum : Nat}

def second : Int := 1000000000

def realtimeMetricsInterval : Int := 20

structure PerfMetricId where
  counterId : Int
  instance_ : Str
deriving DecidableEq

structure InventoryObject where
  ref : Str
  metricIds : List PerfMetricId

structure Inventory where
  objects : List InventoryObject
  dimensionMap : List (Str × List (Str × Str))

inductive PerfStatsType where
  | unset
  | absolute
  | delta
  | rate
deriving DecidableEq

structure MetricInfo where
  metricName : Str
  statsType : PerfStatsType

abbrev MetricInfosByKey := List (Int × MetricInfo)

structure VsphereInfo where
  inv : Inventory
  perfCounterIndex : MetricInfosByKey

inductive BasePerfMetricSeries where
  | int (id : PerfMetricId) (value : List Int)
  | other

structure PerfEntityMetric where
  entity : Str
  sampleInfo : List Int
  value : List BasePerfMetricSeries

inductive BasePerfEntityMetricBase where
  | entity (m : PerfEntityMetric)
  | other

inductive MetricType where
  | gauge
  | count
deriving DecidableEq

inductive DatapointValue where
  /-- A hundredth of the number. -/
  | float (hundredths : Int)
  | int (v : Int)
deriving DecidableEq

structure Datapoint where
  metric : Str
  dims : List (Str × Str)
  value : DatapointValue
  metricType : MetricType
  timestamp : Int
  notHostSpecific : Bool
deriving DecidableEq

/-- A datapoint that was handed to `ptConsumer`, with the object and the series that it comes from. -/
structure SentPoint where
  entity : Str
  id : PerfMetricId
  point : Datapoint
deriving DecidableEq

inductive Panic where
  | nilDereference
  | sliceBounds
  | indexOutOfRange
deriving DecidableEq

variable {p : Panic}

/-- The points that a part of the code hands on, and the panic that ends it. -/
structure Handed where
  points : List SentPoint
  panic : Option Panic

namespace Handed

def nothing : Handed := ⟨[], none⟩

def andThen (h next : Handed) : Handed :=
  if h.panic = none then ⟨h.points ++ next.points, next.panic⟩ else h

def sequence (hs : List Handed) : Handed := hs.foldr andThen nothing

theorem sequence_append (hs hs' : List Handed) : sequence (hs ++ hs') = (sequence hs).andThen (sequence hs') := by
  induction hs with
  | nil => simp [sequence, nothing, andThen]
  | cons x hs ih =>
    change x.andThen (sequence (hs ++ hs')) = (x.andThen (sequence hs)).andThen (sequence hs')
    rw [ih]
    unfold andThen
    split_ifs <;> simp_all

theorem sequence_panic_iff {hs : List Handed} : (sequence hs).panic = none ↔ ∀ x ∈ hs, x.panic = none := by
  induction hs with
  | nil => simp [sequence, nothing]
  | cons x hs ih =>
    rw [forall_mem_cons, ← ih, sequence, foldr_cons, ← sequence, andThen]
    split <;> simp_all

theorem sequence_of_noPanic {hs : List Handed} (h : ∀ x ∈ hs, x.panic = none) :
    sequence hs = ⟨hs.flatMap points, none⟩ := by
  induction hs with
  | nil => rfl
  | cons x hs ih =>
    rw [forall_mem_cons] at h
    have hse : sequence (x :: hs) = x.andThen (sequence hs) := rfl
    rw [hse, ih h.2, andThen, if_pos h.1, flatMap_cons]

theorem andThen_panic_ne {h next : Handed} (hh : h.panic ≠ some p) (hn : next.panic ≠ some p) :
    (h.andThen next).panic ≠ some p := by
  unfold andThen
  split
  · exact hn
  · exact hh

theorem sequence_panic_ne {hs : List Handed} (h : ∀ x ∈ hs, x.panic ≠ some p) :
    (sequence hs).panic ≠ some p := by
  induction hs with
  | nil => simp [sequence, nothing]
  | cons x hs ih =>
    rw [forall_mem_cons] at h
    exact andThen_panic_ne h.1 (ih h.2)

end Handed

/-! ## Pages -/

structure InvIterator where
  inv : List InventoryObject
  pageSize : Int
  numPages : Int

/-- The fetcher for the batch size 0 has a single page. The division is the one of Go. -/
def numPages (perfBatchSize : Int) (numObjs : Nat) : Int :=
  if perfBatchSize = 0 then 1 else (numObjs + perfBatchSize - 1).tdiv perfBatchSize

def invIterator (perfBatchSize : Int) (inv : List InventoryObject) : InvIterator where
  inv := inv
  pageSize := if perfBatchSize = 0 then inv.length else perfBatchSize
  numPages := numPages perfBatchSize inv.length

def InvIterator.startIdx (it : InvIterator) (pageNum : Nat) : Int := pageNum * it.pageSize

def InvIterator.endIdx (it : InvIterator) (pageNum : Nat) : Int :=
  if it.inv.length < it.startIdx pageNum + it.pageSize then it.inv.length else it.startIdx pageNum + it.pageSize

def InvIterator.slice (it : InvIterator) (pageNum : Nat) : Except Panic (List InventoryObject) :=
  if 0 ≤ it.startIdx pageNum ∧ it.startIdx pageNum ≤ it.endIdx pageNum then
    .ok ((it.inv.drop (it.startIdx pageNum).toNat).take (it.endIdx pageNum - it.startIdx pageNum).toNat)
  else .error .sliceBounds

theorem InvIterator.slice_error {it : InvIterator} (h : it.slice pageNum = .error p) :
    p = .sliceBounds := by
  unfold InvIterator.slice at h
  split at h
  · cases h
  · cases h
    rfl

/-- What `nextInvPage` returns after the page `pageNum`. -/
def InvIterator.hasNext (it : InvIterator) (pageNum : Nat) : Bool := (pageNum + 1 : Int) < it.numPages

/-! ## Points -/

def statsTypeToMetricType : PerfStatsType → MetricType
  | .delta => .count
  | _ => .gauge

def percentSuffix : Str := ['_', 'p', 'e', 'r', 'c', 'e', 'n', 't']

def metricInfo (vsInfo : VsphereInfo) (counterId : Int) : MetricInfo :=
  (find counterId vsInfo.perfCounterIndex).getD ⟨[], .unset⟩

def dimensions (vcenterName : Str) (vsInfo : VsphereInfo) (entity : Str) (id : PerfMetricId) : List (Str × Str) :=
  let dims := (find entity vsInfo.inv.dimensionMap).getD []
  let dims := if id.instance_ ≠ [] then put ['o', 'b', 'j', 'e', 'c', 't'] id.instance_ dims else dims
  put ['v', 'c', 'e', 'n', 't', 'e', 'r'] vcenterName dims

def datapoint (vcenterName : Str) (vsInfo : VsphereInfo) (entity : Str) (id : PerfMetricId) (value : Int)
    (timestamp : Int) : Datapoint :=
  let info := metricInfo vsInfo id.counterId
  let dims := dimensions vcenterName vsInfo entity id
  { metric := info.metricName
    dims := dims
    value := if percentSuffix <:+ info.metricName then .float value else .int value
    metricType := statsTypeToMetricType info.statsType
    timestamp := timestamp
    notHostSpecific := (find ['h', 'o', 's', 't'] dims).isSome }

section
variable (vcenterName : Str) (vsInfo : VsphereInfo)

def seriesPoints (m : PerfEntityMetric) : BasePerfMetricSeries → Handed
  | .int id value =>
    ⟨(value.zip m.sampleInfo).map fun p => ⟨m.entity, id, datapoint vcenterName vsInfo m.entity id p.1 p.2⟩,
      if m.sampleInfo.length < value.length then some .indexOutOfRange else none⟩
  | .other => .nothing

def metricPoints : BasePerfEntityMetricBase → Handed
  | .entity m =>
    if m.sampleInfo = [] then ⟨[], some .indexOutOfRange⟩
    else .sequence (m.value.map (seriesPoints vcenterName vsInfo m))
  | .other => .nothing

def pagePoints (metrics : List BasePerfEntityMetricBase) : Handed :=
  .sequence (metrics.map (metricPoints vcenterName vsInfo))

theorem pagePoints_panic_ne (hp : p ≠ .indexOutOfRange) (metrics : List BasePerfEntityMetricBase) :
    (pagePoints vcenterName vsInfo metrics).panic ≠ some p := by
  refine Handed.sequence_panic_ne (forall_mem_map.mpr fun m _ => ?_)
  cases m with
  | other => simp [metricPoints, Handed.nothing]
  | entity m =>
    rw [metricPoints]
    split
    · simp [hp.symm]
    · refine Handed.sequence_panic_ne (forall_mem_map.mpr fun series _ => ?_)
      cases series with
      | other => simp [seriesPoints, Handed.nothing]
      | int id value =>
        rw [seriesPoints]
        split <;> simp [hp.symm]

def laterSampleTime (latestSampleTime : Int) : BasePerfEntityMetricBase → Int
  | .entity m => match m.sampleInfo.getLast? with
    | some t => if latestSampleTime < t then t else latestSampleTime
    | none => latestSampleTime
  | .other => latestSampleTime

/-- What vCenter answers to the performance query for a page: an error, or a response to the query. -/
abbrev QueryPerf := Nat → Option (List InventoryObject → Int → List BasePerfEntityMetricBase)

/-- `Gateway.queryPerf`, which makes no call for an empty list of objects. -/
def gatewayQueryPerf (queryPerf : QueryPerf) (pageNum : Nat) (invObjs : List InventoryObject) (maxSample : Int) :
    Option (List BasePerfEntityMetricBase) :=
  if invObjs = [] then some [] else (queryPerf pageNum).map fun respond => respond invObjs maxSample

theorem gatewayQueryPerf_eq_none {queryPerf : QueryPerf} {invObjs : List InventoryObject}
    {maxSample : Int} :
    gatewayQueryPerf queryPerf pageNum invObjs maxSample = none ↔ invObjs ≠ [] ∧ queryPerf pageNum = none := by
  unfold gatewayQueryPerf
  split <;> simp_all

/-- The loop of `FetchPoints` from the page `pageNum` on, with the slices that are passed to `queryPerf`. -/
def fetchLoop (it : InvIterator) (queryPerf : QueryPerf) (numSamplesReqd : Int) :
    Nat → Nat → Int → (Handed × Int) × List (List InventoryObject)
  | 0, _, latestSampleTime => ((.nothing, latestSampleTime), [])
  | fuel + 1, pageNum, latestSampleTime =>
    match it.slice pageNum with
    | .error p => ((⟨[], some p⟩, 0), [])
    | .ok slice =>
      match gatewayQueryPerf queryPerf pageNum slice numSamplesReqd with
      | none => ((.nothing, 0), [slice])
      | some metrics =>
        let latestSampleTime := metrics.foldl laterSampleTime latestSampleTime
        let handed := pagePoints vcenterName vsInfo metrics
        if it.hasNext pageNum then
          let rest := fetchLoop it queryPerf numSamplesReqd fuel (pageNum + 1) latestSampleTime
          ((handed.andThen rest.1.1, rest.1.2), slice :: if handed.panic = none then rest.2 else [])
        else ((handed, latestSampleTime), [slice])

/-- There is one round for each page, and one if there is none. -/
def fetch (perfBatchSize : Int) (queryPerf : QueryPerf) (numSamplesReqd : Int) :
    (Handed × Int) × List (List InventoryObject) :=
  let it := invIterator perfBatchSize vsInfo.inv.objects
  fetchLoop vcenterName vsInfo it queryPerf numSamplesReqd (max 1 it.numPages.toNat) 0 0

def fetchPoints (perfBatchSize : Int) (queryPerf : QueryPerf) (numSamplesReqd : Int) : Handed × Int :=
  (fetch vcenterName vsInfo perfBatchSize queryPerf numSamplesReqd).1

def queriedSlices (perfBatchSize : Int) (queryPerf : QueryPerf) (numSamplesReqd : Int) : List (List InventoryObject) :=
  (fetch vcenterName vsInfo perfBatchSize queryPerf numSamplesReqd).2

end

end Collector.VSphere
