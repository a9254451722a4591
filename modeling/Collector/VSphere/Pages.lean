import Mathlib.Algebra.Order.Group.Int
import Mathlib.Order.Lattice
import Collector.VSphere.Points

/-!
# The pages of a performance query
-/

namespace Collector.VSphere

open Lib List

variable {p perfBatchSize : Nat}

/-- The first page is taken in any case. -/
def InvIterator.pages (it : InvIterator) : List Nat := List.range (max 1 it.numPages.toNat)

theorem flatMap_pages {α : Type} (l : List α) (b m : Nat) :
    (List.range m).flatMap (fun k => (l.drop (k * b)).take b) = l.take (m * b) := by
  induction m with
  | zero => simp
  | succ m ih => rw [range_succ, flatMap_append, ih, flatMap_singleton, Nat.succ_mul, take_add]

theorem slice_eq {it : InvIterator} {k : Nat} (hsi : it.pageSize = p) (hk : k * p ≤ it.inv.length) :
    it.slice k = .ok ((it.inv.drop (k * p)).take p) := by
  have hs : it.startIdx k = (k * p : Nat) := by rw [InvIterator.startIdx, hsi, Nat.cast_mul]
  have hend : it.endIdx k = (min it.inv.length (k * p + p) : Nat) := by
    unfold InvIterator.endIdx
    rw [hs, hsi]
    split <;> omega
  have hb : 0 ≤ it.startIdx k ∧ it.startIdx k ≤ it.endIdx k := by
    rw [hs, hend]
    omega
  have hl : (it.endIdx k - it.startIdx k).toNat = min p (it.inv.length - k * p) := by
    rw [hs, hend]
    omega
  rw [InvIterator.slice, if_pos hb, hl, hs, Int.toNat_natCast, ← length_drop, ← take_eq_take_min]

theorem slice_negative {it : InvIterator} (h : it.pageSize < 0) : it.slice 0 = .error .sliceBounds := by
  have hs : it.startIdx 0 = 0 := by simp [InvIterator.startIdx]
  have hend : it.endIdx 0 = it.pageSize := by
    unfold InvIterator.endIdx
    rw [hs, if_neg (by omega), zero_add]
  rw [InvIterator.slice, if_neg]
  omega

theorem toNat_numPages (h : perfBatchSize ≠ 0) (numObjs : Nat) :
    (numPages perfBatchSize numObjs).toNat = (numObjs + perfBatchSize - 1) / perfBatchSize := by
  have hc : (numObjs + perfBatchSize - 1 : Int) = (numObjs + perfBatchSize - 1 : Nat) := by omega
  rw [numPages, if_neg (by exact_mod_cast h), hc, Int.tdiv_eq_ediv_of_nonneg (by omega)]
  rfl

theorem numPages_bounds {numObjs : Nat} (hp : p = if perfBatchSize = 0 then numObjs else perfBatchSize) :
    numObjs ≤ max 1 (numPages perfBatchSize numObjs).toNat * p ∧
      ∀ k < max 1 (numPages perfBatchSize numObjs).toNat, k * p ≤ numObjs := by
  by_cases hz : perfBatchSize = 0
  · subst hz
    rw [if_pos rfl] at hp
    subst hp
    simp [numPages]
  · rw [if_neg hz] at hp
    subst hp
    rw [toNat_numPages hz]
    have hmul := Nat.div_mul_le_self (numObjs + p - 1) p
    have hlt := Nat.lt_div_mul_add (a := numObjs + p - 1) (b := p) (by omega)
    constructor
    · have hle := Nat.mul_le_mul_right p (le_max_right 1 ((numObjs + p - 1) / p))
      omega
    · intro k hk
      cases k with
      | zero => simp
      | succ k =>
        have hk' : k + 1 + 1 ≤ (numObjs + p - 1) / p := by omega
        have hle := Nat.mul_le_mul_right p hk'
        rw [Nat.succ_mul (k + 1)] at hle
        omega

theorem slice_pages {objs : List InventoryObject}
    (hp : p = if perfBatchSize = 0 then objs.length else perfBatchSize) :
    (∀ k ∈ (invIterator perfBatchSize objs).pages,
      (invIterator perfBatchSize objs).slice k = .ok ((objs.drop (k * p)).take p)) ∧
    ((invIterator perfBatchSize objs).pages.flatMap fun k => (objs.drop (k * p)).take p) = objs := by
  obtain ⟨hc, hb⟩ := numPages_bounds hp
  have hs : (invIterator perfBatchSize objs).pageSize = p := by
    rw [hp]
    simp only [invIterator]
    split <;> simp_all
  constructor
  · exact fun k hk => slice_eq hs (hb k (mem_range.mp hk))
  · exact (flatMap_pages objs _ _).trans (take_of_length_le hc)

/-! ## The loop -/

section
variable {vcenterName : Str} {vsInfo : VsphereInfo} {m : PerfEntityMetric} {metrics : List BasePerfEntityMetricBase}
  {it : InvIterator} {queryPerf : QueryPerf} {n : Int} {pages : List Nat} {slice : Nat → List InventoryObject}

/-- One round of the loop. The last one has no next page. -/
theorem fetchLoop_succ {count pageNum : Nat} {objs : List InventoryObject}
    (hc : pageNum + (count + 1) = max 1 it.numPages.toNat) (hs : it.slice pageNum = .ok objs)
    (hq : gatewayQueryPerf queryPerf pageNum objs n = some metrics) (t : Int) :
    fetchLoop vcenterName vsInfo it queryPerf n (count + 1) pageNum t =
      let rest := fetchLoop vcenterName vsInfo it queryPerf n count (pageNum + 1) (metrics.foldl laterSampleTime t)
      (((pagePoints vcenterName vsInfo metrics).andThen rest.1.1, rest.1.2),
        objs :: if (pagePoints vcenterName vsInfo metrics).panic = none then rest.2 else []) := by
  rw [fetchLoop, hs]
  simp only [hq]
  by_cases hn : it.hasNext pageNum = true
  · rw [if_pos hn]
  · obtain rfl : count = 0 := by
      rw [InvIterator.hasNext, decide_eq_true_eq] at hn
      omega
    rw [if_neg hn, fetchLoop, Handed.andThen]
    split_ifs with hp
    · rw [Handed.nothing, append_nil, ← hp]
    · rfl

/-- The slices of a call that panics are the first ones. -/
theorem fetchLoop_answered {answer : Nat → List BasePerfEntityMetricBase} {count pageNum : Nat}
    (hc : pageNum + count = max 1 it.numPages.toNat) (hs : ∀ k ∈ range' pageNum count, it.slice k = .ok (slice k))
    (hq : ∀ k ∈ range' pageNum count, gatewayQueryPerf queryPerf k (slice k) n = some (answer k)) (t : Int) :
    (fetchLoop vcenterName vsInfo it queryPerf n count pageNum t).1 =
      (pagePoints vcenterName vsInfo ((range' pageNum count).flatMap answer),
        ((range' pageNum count).flatMap answer).foldl laterSampleTime t) ∧
    (fetchLoop vcenterName vsInfo it queryPerf n count pageNum t).2 <+: (range' pageNum count).map slice ∧
    ((fetchLoop vcenterName vsInfo it queryPerf n count pageNum t).1.1.panic = none →
      (fetchLoop vcenterName vsInfo it queryPerf n count pageNum t).2 = (range' pageNum count).map slice) := by
  induction count generalizing pageNum t with
  | zero => exact ⟨rfl, nil_prefix, fun _ => rfl⟩
  | succ count ih =>
    rw [range'_succ, forall_mem_cons] at hs hq
    obtain ⟨heq, hpre, hall⟩ := ih (by omega) hs.2 hq.2 ((answer pageNum).foldl laterSampleTime t)
    rw [fetchLoop_succ hc hs.1 hq.1, range'_succ, map_cons, prefix_cons_inj, cons_eq_cons]
    refine ⟨?_, ?_⟩
    · simp only [heq, flatMap_cons, foldl_append, pagePoints, map_append, Handed.sequence_append]
    · unfold Handed.andThen
      split_ifs with hp
      · exact ⟨hpre, fun h => ⟨rfl, hall h⟩⟩
      · exact ⟨ nil_prefix, fun h => absurd h hp⟩

/-- What vCenter answers for the slices of the inventory. -/
def answers (it : InvIterator) (queryPerf : QueryPerf) (n : Int) : List BasePerfEntityMetricBase :=
  it.pages.flatMap fun k => match it.slice k with
    | .ok slice => (gatewayQueryPerf queryPerf k slice n).getD []
    | .error _ => []

/-- A call in which no query fails. -/
theorem fetch_answered (vcenterName : Str) {perfBatchSize : Int}
    (hit : it = invIterator perfBatchSize vsInfo.inv.objects)
    (hs : ∀ k ∈ it.pages, it.slice k = .ok (slice k)) (hq : ∀ k, queryPerf k ≠ none) :
    fetchPoints vcenterName vsInfo perfBatchSize queryPerf n =
      (pagePoints vcenterName vsInfo (answers it queryPerf n), (answers it queryPerf n).foldl laterSampleTime 0) ∧
    queriedSlices vcenterName vsInfo perfBatchSize queryPerf n <+: it.pages.map slice ∧
    ((fetchPoints vcenterName vsInfo perfBatchSize queryPerf n).1.panic = none →
      queriedSlices vcenterName vsInfo perfBatchSize queryPerf n = it.pages.map slice) := by
  have hans (k : Nat) : gatewayQueryPerf queryPerf k (slice k) n =
      some ((gatewayQueryPerf queryPerf k (slice k) n).getD []) := by
    obtain ⟨metrics, hm⟩ := Option.ne_none_iff_exists'.mp fun h => hq k (gatewayQueryPerf_eq_none.mp h).2
    rw [hm, Option.getD_some]
  have hanswers : answers it queryPerf n = _ := flatMap_congr fun k hk => by rw [hs k hk]
  rw [hanswers]
  rw [InvIterator.pages, range_eq_range'] at hs ⊢
  unfold fetchPoints queriedSlices fetch
  rw [← hit]
  exact fetchLoop_answered (Nat.zero_add _) hs (fun k _ => hans k) 0

end

section
variable {vcenterName : Str} {vsInfo : VsphereInfo} {m : PerfEntityMetric} {metrics : List BasePerfEntityMetricBase}

/-- A value of each series for each of the samples. -/
def PerfEntityMetric.Paired (m : PerfEntityMetric) : Prop :=
  ∀ id value, .int id value ∈ m.value → value.length = m.sampleInfo.length

def DatapointValue.number : DatapointValue → Int
  | .float hundredths => hundredths
  | .int v => v

def SentPoint.reading (s : SentPoint) : Str × PerfMetricId × Int × Int :=
  (s.entity, s.id, s.point.value.number, s.point.timestamp)

def readingsOf (m : PerfEntityMetric) : BasePerfMetricSeries → List (Str × PerfMetricId × Int × Int)
  | .int id value => (List.range value.length).map fun i => (m.entity, id, value.getD i 0, m.sampleInfo.getD i 0)
  | .other => []

/-- The values of an answer, each with the time of the sample at its position. -/
def readings : BasePerfEntityMetricBase → List (Str × PerfMetricId × Int × Int)
  | .entity m => m.value.flatMap (readingsOf m)
  | .other => []

def sampleInfos : BasePerfEntityMetricBase → List Int
  | .entity m => m.sampleInfo
  | .other => []

theorem metricPoints_eq (h : m.Paired) (hne : m.sampleInfo ≠ []) : metricPoints vcenterName vsInfo (.entity m) =
      ⟨m.value.flatMap fun series => (seriesPoints vcenterName vsInfo m series).points, none⟩ := by
  rw [metricPoints, if_neg hne, Handed.sequence_of_noPanic, flatMap_map]
  rw [forall_mem_map]
  intro series hs
  cases series with
  | other => rfl
  | int id value => simp [seriesPoints, h id value hs]

theorem readings_series (h : m.Paired) {series : BasePerfMetricSeries} (hs : series ∈ m.value) :
    (seriesPoints vcenterName vsInfo m series).points.map SentPoint.reading = readingsOf m series := by
  cases series with
  | other => rfl
  | int id value =>
    have hlen := h id value hs
    have hnumber (v t : Int) : (datapoint vcenterName vsInfo m.entity id v t).value.number = v := by
      unfold datapoint
      dsimp only
      split <;> rfl
    refine ext_getElem (by simp [seriesPoints, readingsOf, hlen]) fun i h1 h2 => ?_
    have hi : i < value.length := by simpa [readingsOf] using h2
    simp [seriesPoints, readingsOf, SentPoint.reading, hnumber, hi, hlen ▸ hi]
    rfl

theorem pagePoints_panic_iff (h : ∀ m, .entity m ∈ metrics → m.Paired) :
    (pagePoints vcenterName vsInfo metrics).panic = none ↔ ∀ m, .entity m ∈ metrics → m.sampleInfo ≠ [] := by
  rw [pagePoints, Handed.sequence_panic_iff, forall_mem_map]
  constructor
  · intro hp m hm hnil
    simpa [metricPoints, hnil] using hp _ hm
  · intro hne m hm
    cases m with
    | other => rfl
    | entity m => rw [metricPoints_eq (h m hm) (hne m hm)]

theorem pagePoints_eq (h : ∀ m, .entity m ∈ metrics → m.Paired) (hne : ∀ m, .entity m ∈ metrics → m.sampleInfo ≠ []) :
    pagePoints vcenterName vsInfo metrics =
      ⟨metrics.flatMap fun m => (metricPoints vcenterName vsInfo m).points, none⟩ := by
  have hp := (@pagePoints_panic_iff vcenterName vsInfo metrics h).mpr hne
  rw [pagePoints, Handed.sequence_panic_iff] at hp
  rw [pagePoints, Handed.sequence_of_noPanic hp, flatMap_map]

theorem readings_points (h : ∀ m, .entity m ∈ metrics → m.Paired) (hne : ∀ m, .entity m ∈ metrics → m.sampleInfo ≠ []) :
    (pagePoints vcenterName vsInfo metrics).points.map SentPoint.reading = metrics.flatMap readings := by
  rw [pagePoints_eq h hne, map_flatMap]
  refine flatMap_congr fun m hm => ?_
  cases m with
  | other => rfl
  | entity m =>
    rw [metricPoints_eq (h m hm) (hne m hm), map_flatMap]
    exact flatMap_congr fun series hs => readings_series (h m hm) hs

theorem foldl_max_le {l : List Int} {t u : Int} : l.foldl max t ≤ u ↔ t ≤ u ∧ ∀ x ∈ l, x ≤ u := by
  induction l generalizing t with
  | nil => simp
  | cons x l ih => rw [foldl_cons, ih, max_le_iff, forall_mem_cons, and_assoc]

theorem le_foldl_laterSampleTime {t u : Int} : u ≤ metrics.foldl laterSampleTime t ↔
    u ≤ t ∨ ∃ m, .entity m ∈ metrics ∧ ∃ latest ∈ m.sampleInfo.getLast?, u ≤ latest := by
  induction metrics generalizing t with
  | nil => simp
  | cons m metrics ih =>
    rw [foldl_cons, ih]
    cases m with
    | other => simp [laterSampleTime]
    | entity m =>
      simp only [mem_cons, BasePerfEntityMetricBase.entity.injEq, or_and_right, exists_or, exists_eq_left, ← or_assoc]
      refine or_congr_left ?_
      unfold laterSampleTime
      cases hl : m.sampleInfo.getLast? with
      | none => simp [hl]
      | some latest =>
        simp only [hl, Option.mem_def, Option.some.injEq, exists_eq_left']
        split <;> omega

/-- The time of an entity is that of its last sample. -/
theorem foldl_laterSampleTime_iff : metrics.foldl laterSampleTime 0 = (metrics.flatMap sampleInfos).foldl max 0 ↔
    ∀ t ∈ metrics.flatMap sampleInfos, 0 < t →
      ∃ m, .entity m ∈ metrics ∧ ∃ latest ∈ m.sampleInfo.getLast?, t ≤ latest := by
  have hmax := (foldl_max_le (l := metrics.flatMap sampleInfos) (t := 0)).mp (le_refl _)
  have hle : metrics.foldl laterSampleTime 0 ≤ (metrics.flatMap sampleInfos).foldl max 0 := by
    rcases le_foldl_laterSampleTime.mp (le_refl (metrics.foldl laterSampleTime 0)) with h | ⟨m, hm, latest, hl, h⟩
    · exact h.trans hmax.1
    · exact h.trans (hmax.2 latest (mem_flatMap.mpr ⟨.entity m, hm, mem_of_getLast? hl⟩))
  rw [le_antisymm_iff, and_iff_right hle, foldl_max_le, and_iff_right (le_foldl_laterSampleTime.mpr (.inl (le_refl 0)))]
  refine forall₂_congr fun t _ => ?_
  rw [le_foldl_laterSampleTime, or_iff_not_imp_left, not_le]

end

/-- Every value is sent with the time of its sample, and the latest time returned, just if all entities have samples and
no sample is later than the last ones. -/
theorem fetchPoints_iff (vcenterName : Str) (vsInfo : VsphereInfo) (perfBatchSize : Nat) (queryPerf : QueryPerf)
    (n : Int) (metrics : List BasePerfEntityMetricBase) (hq : ∀ k, queryPerf k ≠ none)
    (hmetrics : metrics = answers (invIterator perfBatchSize vsInfo.inv.objects) queryPerf n)
    (hpaired : ∀ m, .entity m ∈ metrics → m.Paired) :
    ((fetchPoints vcenterName vsInfo perfBatchSize queryPerf n).1.panic = none ∧
      (fetchPoints vcenterName vsInfo perfBatchSize queryPerf n).1.points.map SentPoint.reading =
        metrics.flatMap readings ∧
      (fetchPoints vcenterName vsInfo perfBatchSize queryPerf n).2 = (metrics.flatMap sampleInfos).foldl max 0) ↔
    (∀ m, .entity m ∈ metrics → m.sampleInfo ≠ []) ∧ ∀ t ∈ metrics.flatMap sampleInfos, 0 < t →
      ∃ m, .entity m ∈ metrics ∧ ∃ latest ∈ m.sampleInfo.getLast?, t ≤ latest := by
  obtain ⟨hs, -⟩ := @slice_pages _ perfBatchSize vsInfo.inv.objects rfl
  obtain ⟨heq, -⟩ := fetch_answered (n := n) vcenterName rfl hs hq
  rw [heq, ← hmetrics, foldl_laterSampleTime_iff, pagePoints_panic_iff hpaired]
  exact and_congr_right fun hne => and_iff_right (readings_points hpaired hne)

def twoObjects : VsphereInfo := ⟨⟨[⟨['h'], []⟩, ⟨['g'], []⟩], []⟩, []⟩

/-- The samples of the first object are not in the order of their times. -/
def unordered : PerfEntityMetric := ⟨['h'], [20, 10, 30], [.int ⟨1, []⟩ [5, 6, 7]]⟩

def single : PerfEntityMetric := ⟨['g'], [25], [.other, .int ⟨2, []⟩ [8]]⟩

def twoPages : QueryPerf
  | 0 => some fun _ _ => [.entity unordered]
  | _ => some fun _ _ => [.other, .entity single]

theorem fetchPoints_twoPages : (fetchPoints [] twoObjects 1 twoPages 3).1.panic = none ∧
    (fetchPoints [] twoObjects 1 twoPages 3).1.points.map SentPoint.reading =
      [(['h'], ⟨1, []⟩, 5, 20), (['h'], ⟨1, []⟩, 6, 10), (['h'], ⟨1, []⟩, 7, 30), (['g'], ⟨2, []⟩, 8, 25)] ∧
    (fetchPoints [] twoObjects 1 twoPages 3).2 = 30 := by
  refine (fetchPoints_iff [] twoObjects 1 twoPages 3 [.entity unordered, .other, .entity single]
    (by rintro (_ | _) <;> nofun) rfl ?_).mpr ⟨?_, ?_⟩
  · simp [PerfEntityMetric.Paired, unordered, single]
  · simp [unordered, single]
  · simp [sampleInfos, unordered, single]

theorem fetchPoints_noSample :
    (fetchPoints [] twoObjects 0 (fun _ => some fun _ _ => [.entity ⟨['h'], [], []⟩]) 1).1.panic =
      some .indexOutOfRange := by
  decide

end Collector.VSphere
