import Collector.RemoteWrite.Conversion

/-!
# The times of the bookkeeping sums

`getWriteRequestTimestampBounds` starts from sentinels. A series without samples counts as one at the millisecond before
the epoch.
-/

namespace Collector.RemoteWrite

open List

variable {F : Type}
variable {t : Int} {request : WriteRequest F}

def maxInt64 : Int := 2 ^ 63 - 1

def minInt64 : Int := -2 ^ 63

def goesOn (request : WriteRequest F) : Bool := !(request.timeseries.isEmpty && request.metadata = 0)

/-! ## Bounds of a list -/

structure Spans (b : Int × Int) (times : List Int) : Prop where
  least : b.1 ∈ times
  greatest : b.2 ∈ times
  within : ∀ t ∈ times, b.1 ≤ t ∧ t ≤ b.2

def widen (b c : Int × Int) : Int × Int := (if c.1 < b.1 then c.1 else b.1, if c.2 > b.2 then c.2 else b.2)

theorem Spans.of_singleton (t : Int) : Spans (t, t) [t] := ⟨by simp, by simp, by simp⟩

variable {b : Int × Int}

theorem Spans.unique {c : Int × Int} {l m : List Int} (hb : Spans b l) (hc : Spans c m) (h : ∀ t, t ∈ l ↔ t ∈ m) :
    b = c := by
  have h1 := hb.within _ ((h _).mpr hc.least)
  have h2 := hb.within _ ((h _).mpr hc.greatest)
  have h3 := hc.within _ ((h _).mp hb.least)
  have h4 := hc.within _ ((h _).mp hb.greatest)
  exact Prod.ext (by omega) (by omega)

theorem Spans.widen {c : Int × Int} {l m : List Int} (hb : Spans b l) (hc : Spans c m) :
    Spans (widen b c) (l ++ m) where
  least := by
    change (if c.1 < b.1 then c.1 else b.1) ∈ l ++ m
    split
    · exact mem_append_right l hc.least
    · exact mem_append_left m hb.least
  greatest := by
    change (if c.2 > b.2 then c.2 else b.2) ∈ l ++ m
    split
    · exact mem_append_right l hc.greatest
    · exact mem_append_left m hb.greatest
  within := by
    intro t ht
    unfold RemoteWrite.widen
    rcases mem_append.mp ht with ht | ht
    · have := hb.within t ht
      constructor <;> split <;> omega
    · have := hc.within t ht
      constructor <;> split <;> omega

section
variable {E : Type} {f : E → Int × Int} {g : E → List Int} {es : List E}

theorem spans_foldl {b : Int × Int} {l : List Int} (hb : Spans b l) (h : ∀ e ∈ es, Spans (f e) (g e)) :
    Spans (es.foldl (fun b e => widen b (f e)) b) (l ++ es.flatMap g) := by
  induction es generalizing b l with
  | nil => simpa using hb
  | cons e rest ih =>
    rw [foldl_cons, flatMap_cons, ← append_assoc]
    exact ih (hb.widen (h e (.head _))) fun e' he => h e' (.tail _ he)

theorem widen_sentinels {c : Int × Int} (h1 : c.1 ≤ maxInt64) (h2 : minInt64 ≤ c.2) :
    widen (maxInt64, minInt64) c = c := by
  have e1 : (if c.1 < maxInt64 then c.1 else maxInt64) = c.1 := by split <;> omega
  have e2 : (if c.2 > minInt64 then c.2 else minInt64) = c.2 := by split <;> omega
  exact Prod.ext e1 e2

theorem spans_sentinels (hne : es ≠ []) (h : ∀ e ∈ es, Spans (f e) (g e))
    (hr : ∀ t ∈ es.flatMap g, minInt64 ≤ t ∧ t ≤ maxInt64) :
    Spans (es.foldl (fun b e => widen b (f e)) (maxInt64, minInt64)) (es.flatMap g) := by
  cases es with
  | nil => exact absurd rfl hne
  | cons e rest =>
    have he := h e (.head _)
    have h1 := hr _ (mem_flatMap.mpr ⟨e, .head _, he.least⟩)
    have h2 := hr _ (mem_flatMap.mpr ⟨e, .head _, he.greatest⟩)
    rw [foldl_cons, widen_sentinels h1.2 h2.1, flatMap_cons]
    exact spans_foldl he fun e' he' => h e' (.tail _ he')

end

/-! ## Bounds of a request -/

def times (request : WriteRequest F) : List Int :=
  request.timeseries.flatMap fun ts => ts.samples.map Sample.timestamp

def Int64Times (request : WriteRequest F) : Prop := ∀ t ∈ times request, minInt64 ≤ t ∧ t ≤ maxInt64

def seenTimes (samples : List (Sample F)) : List Int :=
  if samples.isEmpty then [-1] else samples.map Sample.timestamp

variable {samples : List (Sample F)}

theorem mem_seenTimes : t ∈ seenTimes samples ↔ samples = [] ∧ t = -1 ∨ t ∈ samples.map Sample.timestamp := by
  cases samples <;> simp [seenTimes]

theorem spans_samples (hr : ∀ t ∈ samples.map Sample.timestamp, minInt64 ≤ t ∧ t ≤ maxInt64) :
    Spans (getSampleTimestampBounds samples) (seenTimes samples) := by
  unfold getSampleTimestampBounds seenTimes
  cases samples with
  | nil => exact Spans.of_singleton (-1)
  | cons s rest =>
    have hf : (s :: rest).map Sample.timestamp = (s :: rest).flatMap fun s => [s.timestamp] :=
      map_eq_flatMap
    rw [hf] at hr ⊢
    exact spans_sentinels (cons_ne_nil s rest) (fun e _ => Spans.of_singleton e.timestamp) hr

def allSeenTimes (request : WriteRequest F) : List Int :=
  request.timeseries.flatMap fun ts => seenTimes ts.samples

theorem mem_allSeenTimes :
    t ∈ allSeenTimes request ↔ (∃ ts ∈ request.timeseries, ts.samples = []) ∧ t = -1 ∨ t ∈ times request := by
  simp only [allSeenTimes, times, mem_flatMap, mem_seenTimes]
  constructor
  · rintro ⟨ts, hts, ⟨he, rfl⟩ | ht⟩
    · exact .inl ⟨⟨ts, hts, he⟩, rfl⟩
    · exact .inr ⟨ts, hts, ht⟩
  · rintro (⟨⟨ts, hts, he⟩, rfl⟩ | ⟨ts, hts, ht⟩)
    · exact ⟨ts, hts, .inl ⟨he, rfl⟩⟩
    · exact ⟨ts, hts, .inr ht⟩

theorem spans_request (hr : Int64Times request) (hne : request.timeseries ≠ []) :
    Spans (getWriteRequestTimestampBounds request) (allSeenTimes request) := by
  apply spans_sentinels hne
  · intro ts hts
    exact spans_samples fun t ht => hr t (mem_flatMap.mpr ⟨ts, hts, ht⟩)
  · intro t ht
    rcases mem_allSeenTimes.mp ht with ⟨-, rfl⟩ | ht
    · decide
    · exact hr t ht

/-- A series without samples is like one with a sample at -1. -/
theorem bounds_eq (hr : Int64Times request) (hb : Spans b (times request)) :
    getWriteRequestTimestampBounds request =
      if ∃ ts ∈ request.timeseries, ts.samples = [] then (min b.1 (-1), max b.2 (-1)) else b := by
  have hne : request.timeseries ≠ [] := by
    intro h
    simpa [times, h] using hb.least
  have hs := spans_request hr hne
  split_ifs with he
  · refine hs.unique (m := -1 :: times request) ⟨?_, ?_, fun t ht => ?_⟩ fun t => by simp [mem_allSeenTimes, he]
    · rcases Int.le_total b.1 (-1) with h | h <;> simp [h, hb.least]
    · rcases Int.le_total b.2 (-1) with h | h <;> simp [h, hb.greatest]
    · rcases mem_cons.mp ht with rfl | ht
      · exact ⟨Int.min_le_right .., Int.le_max_right ..⟩
      · have := hb.within t ht
        constructor <;> dsimp only <;> omega
  · exact hs.unique hb fun t => mem_allSeenTimes.trans (or_iff_right fun h => he h.1)

/-! ## The dates -/

def Fits (t : Int) : Prop := 0 ≤ t * 1000000 ∧ t * 1000000 < 2 ^ 63

/-- The times of a data point are in order, are those of the first and the last sample, and do not overflow. -/
structure Dated (request : WriteRequest F) (p : DataPoint F) : Prop where
  le : p.startTimestamp ≤ p.timestamp
  spans : times request ≠ [] → ∃ b, Spans b (times request) ∧
    p.startTimestamp = prometheusToOtelTimestamp b.1 ∧ p.timestamp = prometheusToOtelTimestamp b.2
  exact : (∀ t ∈ times request, Fits t) →
    (p.startTimestamp : Int) = (getWriteRequestTimestampBounds request).1 * 1000000 ∧
      (p.timestamp : Int) = (getWriteRequestTimestampBounds request).2 * 1000000

/-- There are samples, whose unsigned nanoseconds are in order. If a series has none, that it counts as one at -1 does
not change the nanoseconds. -/
def NoSentinel (request : WriteRequest F) : Prop :=
  ∃ b, Spans b (times request) ∧ prometheusToOtelTimestamp b.1 ≤ prometheusToOtelTimestamp b.2 ∧
    ((∃ ts ∈ request.timeseries, ts.samples = []) →
      prometheusToOtelTimestamp (min b.1 (-1)) = prometheusToOtelTimestamp b.1 ∧
        prometheusToOtelTimestamp (max b.2 (-1)) = prometheusToOtelTimestamp b.2)

theorem newTimestampFromTime_of_fits (h : Fits t) : (newTimestampFromTime t : Int) = t * 1000000 := by
  have hw : (2 : Int) ^ 63 < (int64Wrap : Int) := by decide
  have hlt : t * 1000000 < (int64Wrap : Int) := Int.lt_trans h.2 hw
  rw [newTimestampFromTime, Int.emod_eq_of_lt h.1 hlt, Int.toNat_of_nonneg h.1]

def requestPoint (request : WriteRequest F) (total : Int) : DataPoint F :=
  let (start, stop) := getWriteRequestTimestampBounds request
  ⟨newTimestampFromTime start, newTimestampFromTime stop, .int total, []⟩

theorem Dated.noSentinel {total : Int} (hr : Int64Times request) (h : Dated request (requestPoint request total)) :
    NoSentinel request := by
  have ht : times request ≠ [] := by
    -- otherwise a sentinel or -1 is all that was seen, and it has no unsigned nanoseconds
    intro hnil
    have hex := h.exact (by simp [hnil])
    by_cases hne : request.timeseries = []
    · simp [getWriteRequestTimestampBounds, hne] at hex
    · have hm := mem_allSeenTimes.mp (spans_request hr hne).least
      simp only [hnil, not_mem_nil, or_false] at hm
      omega
  obtain ⟨b, hb, h1, h2⟩ := h.spans ht
  refine ⟨b, hb, h1 ▸ h2 ▸ h.le, fun he => ?_⟩
  have hbounds := bounds_eq hr hb
  rw [if_pos he] at hbounds
  simp only [requestPoint, hbounds] at h1 h2
  exact ⟨h1, h2⟩

theorem NoSentinel.dated (hr : Int64Times request) (h : NoSentinel request) (total : Int) :
    Dated request (requestPoint request total) := by
  obtain ⟨b, hb, hle, he⟩ := h
  have hbounds := bounds_eq hr hb
  split_ifs at hbounds with hem
  · obtain ⟨h1, h2⟩ := he hem
    refine ⟨?_, fun _ => ⟨b, hb, ?_⟩, fun hf => ?_⟩
    · simp only [requestPoint, hbounds]
      exact h1.trans_le (hle.trans_eq h2.symm)
    · simp only [requestPoint, hbounds]
      exact ⟨h1, h2⟩
    · -- the nanoseconds of -1 are none that fit
      have hfit := hf _ hb.least
      have hns := newTimestampFromTime_of_fits hfit
      rw [show min b.1 (-1) = -1 by unfold Fits at hfit; omega] at h1
      rw [newTimestampFromTime, ← prometheusToOtelTimestamp, ← h1] at hns
      exact absurd (hns ▸ hfit.2) (by decide)
  · refine ⟨?_, fun _ => ⟨b, hb, ?_⟩, fun hf => ?_⟩ <;> simp only [requestPoint, hbounds]
    · exact hle
    · exact ⟨rfl, rfl⟩
    · exact ⟨newTimestampFromTime_of_fits (hf _ hb.least), newTimestampFromTime_of_fits (hf _ hb.greatest)⟩

/-- The sums are dated by the samples exactly when there are samples, in order, that sentinels do not replace. -/
theorem dated_iff {request : WriteRequest F} (hr : Int64Times request) (counters : Counters) :
    (∀ m ∈ bookkeeping counters request, ∀ p ∈ m.data.dataPoints, Dated request p) ↔ NoSentinel request := by
  have hb : (∀ m ∈ bookkeeping counters request, ∀ p ∈ m.data.dataPoints, Dated request p) ↔
      ∀ total ∈ [counters.totalInvalidRequests, counters.totalNans, counters.totalBadMetrics],
        Dated request (requestPoint request total) := by
    simp [bookkeeping, addBadRequests, addNanDataPoints, addMetricsWithMissingName, bookkeepingSum, Data.dataPoints,
      requestPoint]
  rw [hb]
  exact ⟨fun h => (h _ (.head _)).noSentinel hr, fun h total _ => h.dated hr total⟩

theorem dated_mixedRequest : (bookkeeping ⟨0, 0, 0⟩ mixedRequest).length = 3 ∧
    ∀ m ∈ bookkeeping ⟨0, 0, 0⟩ mixedRequest, ∀ p ∈ m.data.dataPoints, Dated mixedRequest p := by
  have hr : Int64Times mixedRequest := by
    unfold Int64Times
    decide
  refine ⟨rfl, (dated_iff hr ⟨0, 0, 0⟩).mpr ⟨(1000, 2000), ⟨by decide, by decide, by decide⟩, by decide, fun h => ?_⟩⟩
  simp [mixedRequest] at h

theorem not_dated_metadata : goesOn (⟨[], 1⟩ : WriteRequest (Option Int)) = true ∧
    ¬ ∀ m ∈ bookkeeping ⟨0, 0, 0⟩ (⟨[], 1⟩ : WriteRequest (Option Int)), ∀ p ∈ m.data.dataPoints, Dated ⟨[], 1⟩ p :=
  ⟨rfl, fun h => absurd (h _ (.head _) _ (.head _)).le (by decide)⟩

end Collector.RemoteWrite
