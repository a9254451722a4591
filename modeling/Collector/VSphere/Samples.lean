import Mathlib.Tactic.Ring
import Collector.Lib.Runs
import Collector.VSphere.Monitor
import Collector.VSphere.Pages

/-!
# The samples that the vSphere monitor sends

Every object has a sample at every multiple of 20 seconds, and a query returns the latest samples of the objects that it
asks for.
-/

namespace Collector.VSphere

open Lib List Function

variable (entity : Str) {perfBatchSize : Int} {objs : List InventoryObject}

def interval : Int := realtimeMetricsInterval * second

def samples (first : Int) (n : Nat) : List Int := (List.range n).map fun i : Nat => (first + (i : Int)) * interval

def latestSamples (now : Int) (n : Nat) : List Int := samples (now / interval - n + 1) n

section
variable {first a b : Int} {n m : Nat} {now t : Int}

theorem interval_pos : 0 < interval := by decide

@[simp] theorem length_samples : (samples first n).length = n := by simp [samples]

theorem samples_append : samples first n ++ samples (first + n) m = samples first (n + m) := by
  unfold samples
  rw [range_add, map_append, map_map]
  congr 1
  refine map_congr_left fun i _ => ?_
  simp only [comp_apply]
  push_cast
  ring

theorem mem_samples : t ∈ samples first n ↔ ∃ k, first ≤ k ∧ k < first + n ∧ t = k * interval := by
  unfold samples
  rw [mem_map]
  constructor
  · rintro ⟨i, hi, rfl⟩
    rw [mem_range] at hi
    exact ⟨first + i, by omega, by omega, rfl⟩
  · rintro ⟨k, hle, hlt, rfl⟩
    refine ⟨(k - first).toNat, by rw [mem_range]; omega, ?_⟩
    congr 1
    omega

theorem nodup_samples : (samples first n).Nodup := by
  refine Nodup.map_on (fun i _ j _ h => ?_) nodup_range
  have h' := Int.eq_of_mul_eq_mul_right interval_pos.ne' h
  omega

theorem samples_between {t₁ t₂ : Int} (h₁ : t₁ ∈ samples first n) (h₂ : t₂ ∈ samples first n) (ht : interval ∣ t)
    (hle : t₁ ≤ t) (hle' : t ≤ t₂) : t ∈ samples first n := by
  rw [mem_samples] at *
  obtain ⟨k₁, hk₁, -, rfl⟩ := h₁
  obtain ⟨k₂, -, hk₂, rfl⟩ := h₂
  obtain ⟨k, rfl⟩ := ht
  rw [mul_comm interval k] at *
  have hlow := Int.le_of_mul_le_mul_right hle interval_pos
  have hh := Int.le_of_mul_le_mul_right hle' interval_pos
  exact ⟨k, by omega, by omega, rfl⟩

theorem getLast?_latestSamples (hn : 0 < n) : (latestSamples now n).getLast? = some (now / interval * interval) := by
  obtain ⟨n, rfl⟩ := Nat.exists_eq_add_of_lt hn
  unfold latestSamples samples
  simp only [zero_add, range_succ, map_append, map_cons, map_nil, getLast?_concat]
  congr 2
  push_cast
  ring

end

/-! ## What vCenter answers -/

/-- The metrics of an object: a value of each of its series for each of the latest `n` samples. -/
structure Reports (ids : Str → List PerfMetricId) (now : Int) (n : Nat) (m : PerfEntityMetric) : Prop where
  sampleInfo : m.sampleInfo = latestSamples now n
  value : ∃ series : List (PerfMetricId × List Int), m.value = series.map (fun p => .int p.1 p.2) ∧
    (series.map Prod.fst).Perm (ids m.entity) ∧ ∀ p ∈ series, p.2.length = n

def Responds (ids : Str → List PerfMetricId) (now : Int) (n : Nat) (refs : List Str)
    (metrics : List BasePerfEntityMetricBase) : Prop :=
  ∃ ms : List PerfEntityMetric, metrics = ms.map .entity ∧ (ms.map PerfEntityMetric.entity).Perm refs ∧
    ∀ m ∈ ms, Reports ids now n m

def InfoAnswers.Finds (refs : List Str) (a : InfoAnswers) : Prop :=
  ∀ inv, a.inventory = some inv → inv.objects.map InventoryObject.ref = refs

structure Answers.At (refs : List Str) (ids : Str → List PerfMetricId) (now : Int) (a : Answers) : Prop where
  setup : a.setup.Finds refs
  reload : a.reload.Finds refs
  currentTime : ∀ t, a.currentTime = some t → t = now
  queryPerf : ∀ page respond, a.queryPerf page = some respond → ∀ objs (n : Nat), 0 < n →
    Responds ids now n (objs.map InventoryObject.ref) (respond objs n)

def sampleTimes (entity : Str) (id : PerfMetricId) (sent : List SentPoint) : List Int :=
  (sent.filter fun p => p.entity = entity ∧ p.id = id).map fun p => p.point.timestamp

theorem sampleTimes_append (id : PerfMetricId) (sent sent' : List SentPoint) :
    sampleTimes entity id (sent ++ sent') = sampleTimes entity id sent ++ sampleTimes entity id sent' := by
  simp [sampleTimes]

theorem sampleTimes_flatMap {α : Type} (id : PerfMetricId) (l : List α) (f : α → List SentPoint) :
    sampleTimes entity id (l.flatMap f) = l.flatMap fun x => sampleTimes entity id (f x) := by
  simp [sampleTimes, filter_flatMap, map_flatMap]

section
variable {α β γ : Type} [DecidableEq β] {f : α → β} {b : β} {L : List γ} {l : List α}

theorem flatMap_ite_of_notMem (h : b ∉ l.map f) : l.flatMap (fun x => if f x = b then L else []) = [] := by
  rw [flatMap_eq_nil_iff]
  intro x hx
  rw [if_neg]
  rintro rfl
  exact h (mem_map_of_mem hx)

theorem flatMap_ite_of_mem (hn : (l.map f).Nodup) (h : b ∈ l.map f) :
    l.flatMap (fun x => if f x = b then L else []) = L := by
  induction l with
  | nil => simp at h
  | cons x l ih =>
    rw [map_cons, nodup_cons] at hn
    rw [flatMap_cons]
    by_cases hx : f x = b
    · rw [if_pos hx, flatMap_ite_of_notMem (hx ▸ hn.1), append_nil]
    · have hmem : b ∈ l.map f := by simpa [Ne.symm hx] using h
      rw [if_neg hx, ih hn.2 hmem, nil_append]

end

/-! ## The points of a response -/

section
variable {refs : List Str} {ids : Str → List PerfMetricId} {now : Int} {n : Nat} {vcenterName : Str}
  {vsInfo : VsphereInfo} {m : PerfEntityMetric} {ms : List PerfEntityMetric}

variable {id : PerfMetricId}

theorem sampleTimes_seriesPoints {value : List Int} (id' : PerfMetricId) (h : value.length = m.sampleInfo.length) :
    sampleTimes entity id' (seriesPoints vcenterName vsInfo m (.int id value)).points =
      if id = id' then if m.entity = entity then m.sampleInfo else [] else [] := by
  have ht : (value.zip m.sampleInfo).map Prod.snd = m.sampleInfo := map_snd_zip (by omega)
  simp only [sampleTimes, seriesPoints, filter_map, map_map]
  by_cases hid : id = id' <;> by_cases he : m.entity = entity <;>
    simp [hid, he, comp_def, datapoint, ht]

theorem Reports.paired (h : Reports ids now n m) : m.Paired := by
  intro id value hv
  obtain ⟨ss, hss, -, hl⟩ := h.value
  rw [hss, mem_map] at hv
  obtain ⟨p, hp, heq⟩ := hv
  cases heq
  simp [hl p hp, h.sampleInfo, latestSamples]

theorem Reports.sampleInfo_ne_nil (h : Reports ids now n m) (hn : 0 < n) : m.sampleInfo ≠ [] := by
  rw [h.sampleInfo, ← length_pos_iff, latestSamples, length_samples]
  exact hn

theorem Reports.sampleTimes_eq (h : Reports ids now n m) (hn : 0 < n) {entity : Str}
    (hno : (ids entity).Nodup) (hid : id ∈ ids entity) :
    sampleTimes entity id (metricPoints vcenterName vsInfo (.entity m)).points =
      if m.entity = entity then latestSamples now n else [] := by
  obtain ⟨series, hs, hpe, hl⟩ := h.value
  have hea (p) (hp : p ∈ series) : sampleTimes entity id (seriesPoints vcenterName vsInfo m (.int p.1 p.2)).points =
        if p.1 = id then if m.entity = entity then latestSamples now n else [] else [] := by
    rw [← h.sampleInfo]
    apply sampleTimes_seriesPoints
    simp [hl p hp, h.sampleInfo, latestSamples]
  rw [metricPoints_eq h.paired (h.sampleInfo_ne_nil hn), sampleTimes_flatMap, hs, flatMap_map, flatMap_congr hea]
  by_cases he : m.entity = entity
  · subst he
    exact flatMap_ite_of_mem (hpe.nodup_iff.mpr hno) (hpe.mem_iff.mpr hid)
  · simp [he]

theorem sampleTimes_metrics (hp : (ms.map PerfEntityMetric.entity).Perm refs)
    (hr : ∀ m ∈ ms, Reports ids now n m) (hn : 0 < n) (hre : refs.Nodup) {entity : Str}
    (he : entity ∈ refs) (hno : (ids entity).Nodup) (hid : id ∈ ids entity) :
    sampleTimes entity id (ms.flatMap fun m => (metricPoints vcenterName vsInfo (.entity m)).points) =
      latestSamples now n := by
  rw [sampleTimes_flatMap, flatMap_congr fun m hm => (hr m hm).sampleTimes_eq hn hno hid]
  exact flatMap_ite_of_mem (hp.nodup_iff.mpr hre) (hp.mem_iff.mpr he)

theorem laterSampleTime_eq (h : ∀ m ∈ ms, Reports ids now n m) (hn : 0 < n) (t : Int) :
    (ms.map .entity).foldl laterSampleTime t = if ms = [] then t else max t (now / interval * interval) := by
  induction ms generalizing t with
  | nil => rfl
  | cons m ms ih =>
    rw [forall_mem_cons] at h
    have hl : laterSampleTime t (.entity m) = max t (now / interval * interval) := by
      rw [laterSampleTime, h.1.sampleInfo, getLast?_latestSamples hn, max_def_lt]
    rw [map_cons, foldl_cons, hl, ih h.2, if_neg (cons_ne_nil m ms)]
    split
    · rfl
    · rw [max_assoc, max_self]

/-! ## The pages -/

theorem pages_cover {it : InvIterator} (hit : it = invIterator perfBatchSize objs) :
    it.slice 0 = .error .sliceBounds ∨ ∃ slice : Nat → List InventoryObject,
      (∀ k ∈ it.pages, it.slice k = .ok (slice k)) ∧ it.pages.flatMap slice = objs ∧ (slice 0 = [] → objs = []) := by
  subst hit
  by_cases hneg : perfBatchSize < 0
  · left
    apply slice_negative
    simp [invIterator, hneg.ne, hneg]
  · right
    obtain ⟨b, rfl⟩ := Int.eq_ofNat_of_zero_le (by omega : 0 ≤ perfBatchSize)
    obtain ⟨p, hp⟩ : ∃ p, p = if b = 0 then objs.length else b := ⟨_, rfl⟩
    obtain ⟨hs, hc⟩ := slice_pages hp
    refine ⟨fun k => (objs.drop (k * p)).take p, hs, hc, fun he => ?_⟩
    simp only [Nat.zero_mul, drop_zero, take_eq_nil_iff] at he
    rcases he with hz | he
    · rw [← hc, flatMap_eq_nil_iff]
      simp [hz]
    · exact he

/-! ## The points of a run -/

variable {a : Answers} {it : InvIterator} {slice : Nat → List InventoryObject} {pages : List Nat}

theorem Answers.At.gateway_responds (h : a.At refs ids now) (hn : 0 < n) {page : Nat}
    {metrics : List BasePerfEntityMetricBase} (hm : gatewayQueryPerf a.queryPerf page objs n = some metrics) :
    Responds ids now n (objs.map InventoryObject.ref) metrics := by
  unfold gatewayQueryPerf at hm
  split_ifs at hm with ho
  · cases hm
    exact ⟨[], rfl, by simp [ho], by simp⟩
  · obtain ⟨respond, hr, rfl⟩ := Option.map_eq_some_iff.mp hm
    exact h.queryPerf page respond hr objs n hn

theorem answered_eq (h : a.At refs ids now) (hn : 0 < n)
    (hall : ∀ k ∈ pages, gatewayQueryPerf a.queryPerf k (slice k) n ≠ none) : ∃ ms : List PerfEntityMetric,
      (ms.map PerfEntityMetric.entity).Perm ((pages.flatMap slice).map InventoryObject.ref) ∧
      (∀ m ∈ ms, Reports ids now n m) ∧
      (pages.flatMap fun k => (gatewayQueryPerf a.queryPerf k (slice k) n).getD []) = ms.map .entity := by
  induction pages with
  | nil => exact ⟨[], by simp, by simp, rfl⟩
  | cons k pages ih =>
    rw [forall_mem_cons] at hall
    obtain ⟨metrics, hm⟩ := Option.ne_none_iff_exists'.mp hall.1
    obtain ⟨ms, rfl, hp, hr⟩ := h.gateway_responds hn hm
    obtain ⟨ms', hp', hr', heq⟩ := ih hall.2
    refine ⟨ms ++ ms', ?_, forall_mem_append.mpr ⟨hr, hr'⟩, by rw [flatMap_cons, hm, heq, map_append, Option.getD_some]⟩
    rw [map_append, flatMap_cons, map_append]
    exact hp.append hp'

def Answers.Whole (perfBatchSize : Int) (numObjs : Nat) (a : Answers) : Prop :=
  ∀ k, k < max 1 (numPages perfBatchSize numObjs).toNat → a.queryPerf k = none → a.queryPerf 0 = none

theorem fetchPoints_cases (vcenterName : Str) (h : a.At refs ids now) (hn : 0 < n)
    (hr : vsInfo.inv.objects.map InventoryObject.ref = refs) (hw : a.Whole perfBatchSize refs.length) :
    ((fetchPoints vcenterName vsInfo perfBatchSize a.queryPerf n).1.points = [] ∧
      ((fetchPoints vcenterName vsInfo perfBatchSize a.queryPerf n).1.panic = none →
        (fetchPoints vcenterName vsInfo perfBatchSize a.queryPerf n).2 = 0)) ∨
    ∃ ms : List PerfEntityMetric, (ms.map PerfEntityMetric.entity).Perm refs ∧ (∀ m ∈ ms, Reports ids now n m) ∧
      fetchPoints vcenterName vsInfo perfBatchSize a.queryPerf n =
        (⟨ms.flatMap fun m => (metricPoints vcenterName vsInfo (.entity m)).points, none⟩,
          (ms.map .entity).foldl laterSampleTime 0) := by
  obtain ⟨it, hit⟩ : ∃ it, it = invIterator perfBatchSize vsInfo.inv.objects := ⟨_, rfl⟩
  have hp : it.numPages = numPages perfBatchSize refs.length := by
    rw [hit, ← hr, length_map]
    rfl
  unfold fetchPoints fetch
  simp only [← hit]
  obtain ⟨count, hcount⟩ : ∃ count, max 1 it.numPages.toNat = count + 1 :=
    Nat.exists_eq_succ_of_ne_zero (by omega)
  have hz : 0 ∈ it.pages := mem_range.mpr (by omega)
  rcases pages_cover hit with hb | ⟨slice, hs, hc, hf⟩
  · left
    rw [hcount, fetchLoop, hb]
    simp
  · by_cases hno : gatewayQueryPerf a.queryPerf 0 (slice 0) n = none
    · left
      rw [hcount, fetchLoop, hs 0 hz]
      simp [hno, Handed.nothing]
    · right
      have hall (k) (hk : k ∈ it.pages) : gatewayQueryPerf a.queryPerf k (slice k) n ≠ none := by
        intro hfa
        obtain ⟨hne, hq⟩ := gatewayQueryPerf_eq_none.mp hfa
        have hq0 : a.queryPerf 0 = none := hw k (hp ▸ mem_range.mp hk) hq
        have he : slice 0 = [] := by simpa [gatewayQueryPerf_eq_none, hq0] using hno
        rw [hf he, flatMap_eq_nil_iff] at hc
        exact hne (hc k hk)
      obtain ⟨ms, hperm, hrep, hans⟩ := answered_eq h hn hall
      refine ⟨ms, by rwa [← hr, ← hc], hrep, ?_⟩
      rw [InvIterator.pages, range_eq_range'] at hs hall hans
      rw [(fetchLoop_answered (Nat.zero_add _) hs (fun k hk => ?_) 0).1, hans, pagePoints_eq, flatMap_map]
      · simpa using fun m hm => (hrep m hm).paired
      · simpa using fun m hm => (hrep m hm).sampleInfo_ne_nil hn
      · obtain ⟨metrics, hm⟩ := Option.ne_none_iff_exists'.mp (hall k hk)
        rw [hm, Option.getD_some]

end

/-! ## Runs -/

/-- The queries of the run fail only together with the first one, the seconds since the last sample are converted
without a loss, and the clock is past the first sample after the zero time. -/
structure Answers.Sound (conv : Conversions) (conf : Config) (numObjs : Nat) (vsm : VSphereMonitor) (now : Int)
    (a : Answers) : Prop where
  whole : a.Whole conf.perfBatchSize numObjs
  seconds : vsm.lastPointRetrievalTime ≠ 0 →
    conv.int32 (now - vsm.lastPointRetrievalTime) = (now - vsm.lastPointRetrievalTime) / second
  nonzero : interval ≤ now

namespace VSphereMonitor

/-- The time of the last retrieval is that of the last sample of every series, of which no sample is missing. -/
structure Caught (refs : List Str) (ids : Str → List PerfMetricId) (times : List Int) (vsm : VSphereMonitor) :
    Prop where
  inventory : ∀ info, vsm.vSphereInfo = some info → info.inv.objects.map InventoryObject.ref = refs
  sent : (vsm.lastPointRetrievalTime = 0 ∧ vsm.sent = []) ∨
    ∃ last : Int, 0 < last ∧ vsm.lastPointRetrievalTime = last * interval ∧ (∃ t ∈ times, last * interval ≤ t) ∧
      ∀ ref ∈ refs, ∀ id ∈ ids ref, ∃ n : Nat, sampleTimes ref id vsm.sent = samples (last + 1 - n) n

section
variable {refs : List Str} {ids : Str → List PerfMetricId} {times : List Int} {now : Int} {conv : Conversions}
  {conf : Config} {vsm : VSphereMonitor} {a : Answers}

theorem Caught.mono (h : vsm.Caught refs ids times) (now : Int) : vsm.Caught refs ids (times ++ [now]) := by
  refine ⟨h.inventory, h.sent.imp_right ?_⟩
  rintro ⟨last, hpos, hl, ⟨t, ht, hle⟩, hs⟩
  exact ⟨last, hpos, hl, ⟨t, mem_append_left _ ht, hle⟩, hs⟩

theorem Caught.load (h : vsm.Caught refs ids times) {answers : InfoAnswers} (hf : answers.Finds refs) :
    (vsm.load answers).1.Caught refs ids times := by
  refine ⟨fun info hi => ?_, h.sent⟩
  simp only [VSphereMonitor.load, retrieveVSphereInfo, retrievePopulatedInventory, Option.bind_eq_some_iff,
    Option.map_eq_some_iff] at hi
  obtain ⟨-, ⟨inv, hinv, rfl⟩, idx, -, rfl⟩ := hi
  rw [← hf inv hinv]
  simp [populateInvMetrics, comp_def]

def Due (vsm : VSphereMonitor) (now : Int) (n : Nat) : Prop :=
  (vsm.lastPointRetrievalTime = 0 ∧ n = 1) ∨
    ∃ last : Int, vsm.lastPointRetrievalTime = last * interval ∧ now / interval = last + n

variable (h : vsm.Caught refs ids times)
include h

theorem Caught.samples_append {n : Nat} (hdue : vsm.Due now n) {ref : Str} (href : ref ∈ refs) {id : PerfMetricId}
    (hid : id ∈ ids ref) :
    ∃ m : Nat, sampleTimes ref id vsm.sent ++ latestSamples now n = samples (now / interval + 1 - m) m := by
  unfold latestSamples
  rcases h.sent with ⟨hz, hse⟩ | ⟨last, hpos, hl, -, hs⟩
  · refine ⟨n, ?_⟩
    rw [hse, sub_add_eq_add_sub]
    rfl
  · have hdue' : now / interval = last + n := by
      rcases hdue with ⟨hz, -⟩ | ⟨last', hl', hc⟩
      · rw [hl] at hz
        exact absurd hz (mul_pos hpos interval_pos).ne'
      · rw [hl] at hl'
        rw [hc, Int.eq_of_mul_eq_mul_right interval_pos.ne' hl']
    obtain ⟨m, hm⟩ := hs ref href id hid
    refine ⟨m + n, ?_⟩
    have hf : now / interval - n + 1 = last + 1 - m + m := by omega
    have hall : now / interval + 1 - (m + n : Nat) = last + 1 - m := by omega
    rw [hm, hf, hall, VSphere.samples_append]

theorem Caught.fetch (hrf : refs.Nodup) (hids : ∀ ref ∈ refs, (ids ref).Nodup) (hat : a.At refs ids now)
    (hw : a.Whole conf.perfBatchSize refs.length) (hnow : interval ≤ now) {n : Nat}
    (hn : 0 < n) (hdue : vsm.Due now n) : (vsm.fetch conf a n).Caught refs ids (times ++ [now]) := by
  have hm := h.mono now
  unfold VSphereMonitor.fetch
  cases hin : vsm.vSphereInfo with
  | none => exact ⟨by simp, hm.sent⟩
  | some info =>
    have hi (info') (hin' : some info = some info') : info'.inv.objects.map InventoryObject.ref = refs := by
      rw [← hin] at hin'
      exact h.inventory info' hin'
    refine ⟨hi, ?_⟩
    obtain ⟨r, hr⟩ : ∃ r, r = fetchPoints conf.vcenterName info conf.perfBatchSize a.queryPerf n := ⟨_, rfl⟩
    have hc := fetchPoints_cases conf.vcenterName hat hn (hi info rfl) hw
    simp only [← hr] at hc ⊢
    rcases hc with ⟨hp, ht⟩ | ⟨ms, hpe, hre, heq⟩
    · rw [hp, append_nil, if_neg fun hno => hno.2 (ht hno.1)]
      exact hm.sent
    · rw [heq, laterSampleTime_eq hre hn]
      by_cases hms : ms = []
      · simp only [hms, flatMap_nil, append_nil, if_true, ne_eq, not_true_eq_false, and_false, if_false]
        exact hm.sent
      · have hdiv : 1 ≤ now / interval := Int.le_ediv_of_mul_le interval_pos (by rwa [one_mul])
        have hpos : 0 < now / interval * interval := mul_pos hdiv interval_pos
        rw [if_neg hms, max_eq_right hpos.le, if_pos ⟨rfl, hpos.ne'⟩]
        refine .inr ⟨now / interval, hdiv, rfl, ⟨now, by simp, Int.ediv_mul_le now interval_pos.ne'⟩, ?_⟩
        intro ref href id hid
        rw [sampleTimes_append, sampleTimes_metrics hpe hre hn hrf href (hids ref href) hid]
        exact h.samples_append hdue href hid

omit h in
theorem due_of_seconds {last seconds : Int} (hl : vsm.lastPointRetrievalTime = last * interval)
    (hle : last * interval ≤ now) (hs : seconds = (now - last * interval) / second) :
    ∃ n : Nat, seconds.tdiv realtimeMetricsInterval = n ∧ vsm.Due now n := by
  have hn : 0 ≤ seconds := by
    rw [hs]
    exact Int.ediv_nonneg (by omega) (by decide)
  have hc : seconds.tdiv realtimeMetricsInterval = now / interval - last := by
    rw [Int.tdiv_eq_ediv_of_nonneg hn, hs, Int.ediv_ediv_of_nonneg (by decide), mul_comm second,
      sub_eq_add_neg, ← neg_mul]
    exact (Int.add_mul_ediv_right now (-last) interval_pos.ne').trans (sub_eq_add_neg _ _).symm
  have hdiv : last ≤ now / interval := Int.le_ediv_of_mul_le interval_pos hle
  refine ⟨(now / interval - last).toNat, by omega, .inr ⟨last, hl, by omega⟩⟩

theorem Caught.generateDatapoints (hr : refs.Nodup) (hids : ∀ ref ∈ refs, (ids ref).Nodup) (hat : a.At refs ids now)
    (hs : a.Sound conv conf refs.length vsm now)
    (hla : ∀ t ∈ times, t < now) : (vsm.generateDatapoints conv conf a).Caught refs ids (times ++ [now]) := by
  have hf {n : Nat} (hn : 0 < n) (hdue : vsm.Due now n) :=
    h.fetch hr hids hat hs.whole hs.nonzero hn hdue
  unfold VSphereMonitor.generateDatapoints getNumSamplesReqd
  by_cases hz : vsm.lastPointRetrievalTime = 0
  · rw [if_pos hz]
    exact hf Nat.one_pos (.inl ⟨hz, rfl⟩)
  · rw [if_neg hz]
    cases hc : a.currentTime with
    | none => exact h.mono now
    | some currentTime =>
      cases hat.currentTime currentTime hc
      obtain ⟨hz', -⟩ | ⟨last, -, hl, ⟨t, ht, hle⟩, -⟩ := h.sent
      · exact absurd hz' hz
      · have hse := hs.seconds hz
        rw [hl] at hse
        obtain ⟨n, hn, hdue⟩ := due_of_seconds hl (hle.trans (hla t ht).le) hse
        simp only [Option.map_some, hl, hn]
        split
        · exact h.mono now
        · exact hf (by omega) hdue

theorem Caught.run (hr : refs.Nodup) (hids : ∀ ref ∈ refs, (ids ref).Nodup) (hat : a.At refs ids now)
    (hs : a.Sound conv conf refs.length vsm now) (hl : ∀ t ∈ times, t < now) :
    (vsm.run conv conf a).Caught refs ids (times ++ [now]) := by
  have hse : (vsm.firstTimeSetup a).1.Caught refs ids times ∧
      (vsm.firstTimeSetup a).1.lastPointRetrievalTime = vsm.lastPointRetrievalTime := by
    unfold firstTimeSetup
    split
    · exact ⟨h, rfl⟩
    · split
      · exact ⟨h.load hat.setup, rfl⟩
      · exact ⟨h, rfl⟩
  have hs' : a.Sound conv conf refs.length (vsm.firstTimeSetup a).1 now :=
    ⟨hs.whole, by rw [hse.2]; exact hs.seconds, hs.nonzero⟩
  unfold VSphereMonitor.run collect
  simp only
  split
  · exact h.mono now
  · split
    · have hg := hse.1.generateDatapoints hr hids hat hs' hl
      split
      · exact hg.load hat.reload
      · exact hg
    · exact hse.1.mono now

end

/-- Every sample is sent once, in every sequence of runs that are sound. -/
theorem sent_once (conv : Conversions) (conf : Config) (refs : List Str) (ids : Str → List PerfMetricId)
    (hrefs : refs.Nodup) (hids : ∀ ref ∈ refs, (ids ref).Nodup) (rs : List (Int × Answers))
    (hincreasing : (rs.map Prod.fst).Pairwise (· < ·)) (hat : ∀ r ∈ rs, r.2.At refs ids r.1)
    (hsound : ∀ es r, es ++ [r] <+: rs →
      r.2.Sound conv conf refs.length (newVsphereMonitor.runs conv conf (es.map Prod.snd)) r.1) :
    ∀ ref ∈ refs, ∀ id ∈ ids ref,
      let times := sampleTimes ref id (newVsphereMonitor.runs conv conf (rs.map Prod.snd)).sent
      times.Nodup ∧ ∀ t₁ ∈ times, ∀ t₂ ∈ times, ∀ t, interval ∣ t → t₁ ≤ t → t ≤ t₂ → t ∈ times := by
  have hc : (newVsphereMonitor.runs conv conf (rs.map Prod.snd)).Caught refs ids (rs.map Prod.fst) := by
    refine forall_prefix_of_steps
      (fun es => (newVsphereMonitor.runs conv conf (es.map Prod.snd)).Caught refs ids (es.map Prod.fst))
      (fun es r => es ++ [r] <+: rs) rs ?_ ?_ (fun _ _ => id) rs prefix_rfl
    · exact ⟨by simp [newVsphereMonitor, runs], .inl ⟨rfl, rfl⟩⟩
    · intro es r h hes
      have hl : ∀ t ∈ es.map Prod.fst, t < r.1 := by
        have hp := hincreasing.sublist (hes.sublist.map Prod.fst)
        rw [map_append, pairwise_append] at hp
        intro t ht
        exact hp.2.2 t ht r.1 (by simp)
      have hrun := h.run hrefs hids (hat r (hes.subset (by simp))) (hsound es r hes) hl
      simpa [runs] using hrun
  intro ref href id hid
  simp only
  rcases hc.sent with ⟨-, hse⟩ | ⟨last, -, -, -, hs⟩
  · simp [hse, sampleTimes]
  · obtain ⟨n, hn⟩ := hs ref href id hid
    rw [hn]
    exact ⟨nodup_samples, fun t₁ h₁ t₂ h₂ t ht hle hle' => samples_between h₁ h₂ ht hle hle'⟩

def server (ids : Str → List PerfMetricId) (now : Int) (objs : List InventoryObject) (n : Int) :
    List BasePerfEntityMetricBase :=
  objs.map fun o =>
    .entity ⟨o.ref, latestSamples now n.toNat, (ids o.ref).map fun id => .int id (List.replicate n.toNat 0)⟩

theorem responds_server (ids : Str → List PerfMetricId) (now : Int) (objs : List InventoryObject) (n : Nat) :
    Responds ids now n (objs.map InventoryObject.ref) (server ids now objs n) := by
  refine ⟨objs.map fun o =>
    ⟨o.ref, latestSamples now n, (ids o.ref).map fun id => .int id (replicate n 0)⟩, ?_, ?_, ?_⟩
  · simp [server]
  · simp [comp_def]
  · rw [forall_mem_map]
    intro o _
    exact ⟨rfl, (ids o.ref).map fun id => (id, replicate n 0), by simp, by simp [comp_def], by simp⟩

def twoObjects : Inventory := ⟨[⟨['a'], []⟩, ⟨['b'], []⟩], []⟩

def oneSeries (_ : Str) : List PerfMetricId := [⟨1, []⟩]

def runAt (seconds : Int) (fails : Nat → Bool) : Int × Answers :=
  let now := seconds * second
  let info : InfoAnswers := ⟨some twoObjects, fun _ => none, some [], some now⟩
  (now, ⟨true, info, some now, fun page => if fails page then none else some (server oneSeries now), now, info⟩)

theorem at_runAt (seconds : Int) (fails : Nat → Bool) :
    (runAt seconds fails).2.At [['a'], ['b']] oneSeries (runAt seconds fails).1 := by
  have hf (t : Int) : InfoAnswers.Finds [['a'], ['b']] ⟨some twoObjects, fun _ => none, some [], some t⟩ := by
    rintro inv ⟨⟩
    rfl
  refine ⟨hf _, hf _, ?_, ?_⟩
  · rintro t ⟨⟩
    rfl
  · intro page respond hr objs n hn
    simp only [runAt] at hr
    split at hr
    · cases hr
    · cases hr
      exact responds_server _ _ _ _

def onePerPage : Config := ⟨1, 60, ['v', 'c']⟩

def secondRunFails : List (Int × Answers) :=
  [runAt 40 fun _ => false, runAt 65 fun _ => true, runAt 80 fun _ => false]

theorem sent_once_secondRunFails :
    sampleTimes ['a'] ⟨1, []⟩ (newVsphereMonitor.runs wholeSeconds onePerPage (secondRunFails.map Prod.snd)).sent =
      [40 * second, 60 * second, 80 * second] ∧
    (sampleTimes ['b'] ⟨1, []⟩
      (newVsphereMonitor.runs wholeSeconds onePerPage (secondRunFails.map Prod.snd)).sent).Nodup := by
  have hat : ∀ r ∈ secondRunFails, r.2.At [['a'], ['b']] oneSeries r.1 := by
    simp only [secondRunFails, forall_mem_cons, at_runAt, true_and]
    simp
  have hs : ∀ r ∈ secondRunFails, ∀ vsm, r.2.Sound wholeSeconds onePerPage 2 vsm r.1 := by
    simp only [secondRunFails, forall_mem_cons]
    refine ⟨fun vsm => ⟨?_, fun _ => rfl, by decide⟩, fun vsm => ⟨?_, fun _ => rfl, by decide⟩,
      fun vsm => ⟨?_, fun _ => rfl, by decide⟩, by simp⟩
    · simp [Answers.Whole, runAt]
    · simp [Answers.Whole, runAt]
    · simp [Answers.Whole, runAt]
  refine ⟨by decide +kernel, ?_⟩
  exact (sent_once wholeSeconds onePerPage [['a'], ['b']] oneSeries (by decide) (by decide) secondRunFails (by decide)
    hat (fun es r hes => hs r (hes.subset (by simp)) _) ['b'] (by decide) ⟨1, []⟩ (by decide)).1

def secondPageFails : List (Int × Answers) :=
  [runAt 40 fun _ => false, runAt 60 fun page => page = 1, runAt 80 fun _ => false]

theorem not_sent_once_secondPageFails :
    (∀ r ∈ secondPageFails, r.2.At [['a'], ['b']] oneSeries r.1) ∧ (secondPageFails.map Prod.fst).Pairwise (· < ·) ∧
    sampleTimes ['a'] ⟨1, []⟩ (newVsphereMonitor.runs wholeSeconds onePerPage (secondPageFails.map Prod.snd)).sent =
      [40 * second, 60 * second, 60 * second, 80 * second] := by
  refine ⟨?_, by decide, by decide +kernel⟩
  simp only [secondPageFails, forall_mem_cons, at_runAt, true_and]
  simp

end VSphereMonitor

end Collector.VSphere
