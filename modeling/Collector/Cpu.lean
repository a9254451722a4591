import Mathlib.Tactic.Positivity
import Collector.Value

/-!
# CPU utilisation

`generateDatapoints` of the `cpu` monitor, with the times as exact numbers.
-/

namespace Collector.Cpu

open List

structure TimesStat where
  user : ℚ
  system : ℚ
  idle : ℚ
  nice : ℚ
  iowait : ℚ
  irq : ℚ
  softirq : ℚ
  steal : ℚ

structure TotalUsed where
  total : ℚ
  used : ℚ

def cpuTimeStatTototalUsed (t : TimesStat) : TotalUsed :=
  let total := t.user + t.system + t.idle + t.nice + t.iowait + t.irq + t.softirq + t.steal
  ⟨total, total - t.idle⟩

inductive UtilizationError where
  | prevTotalZero
  | usedDiffLessThanZero
  | totalDiffLessThanZero
  | negative

def getUtilization (prev current : TotalUsed) : Except UtilizationError ℚ :=
  let usedDiff := current.used - prev.used
  let totalDiff := current.total - prev.total
  if prev.total = 0 then .error .prevTotalZero
  else if usedDiff < 0 then .error .usedDiffLessThanZero
  else if totalDiff < 0 then .error .totalDiffLessThanZero
  else if (usedDiff = 0 ∧ totalDiff = 0) ∨ totalDiff = 0 then .ok 0
  else if usedDiff / totalDiff * 100 < 0 then .error .negative
  else if usedDiff / totalDiff * 100 > 100 then .ok 100
  else .ok (usedDiff / totalDiff * 100)

inductive Metric where
  | idle | nice | softirq | interrupt | steal | system | user | wait | utilization | numProcessors
deriving DecidableEq

def makeSecondaryDatapoints (stat : TimesStat) : List (Metric × ℚ) :=
  [(.idle, stat.idle), (.nice, stat.nice), (.softirq, stat.softirq), (.interrupt, stat.irq), (.steal, stat.steal),
    (.system, stat.system), (.user, stat.user), (.wait, stat.iowait)]

/-- What `times` and `cpu.Counts` return, with an empty list for an error. -/
structure Reading where
  times : List TimesStat
  counts : Option Nat

/-- The previous sample is kept when there is no utilization. -/
def generateDatapoints (previousTotal : Option TotalUsed) (r : Reading) : List (Metric × ℚ) × Option TotalUsed :=
  match r.times with
  | [] => ([], previousTotal)
  | t :: _ =>
    let current := cpuTimeStatTototalUsed t
    let counts := r.counts.toList.map fun n => (Metric.numProcessors, (n : ℚ))
    match previousTotal with
    | none => (makeSecondaryDatapoints t ++ counts, some current)
    | some prev =>
      match getUtilization prev current with
      | .error _ => ([], previousTotal)
      | .ok utilization => (makeSecondaryDatapoints t ++ (.utilization, utilization) :: counts, some current)

def initializeCPUTimes (r : Reading) : Option TotalUsed := r.times.head?.map cpuTimeStatTototalUsed

/-- The datapoints of each reading. -/
def run (previousTotal : Option TotalUsed) : List Reading → List (List (Metric × ℚ))
  | [] => []
  | r :: rs =>
    let (dps, previousTotal) := generateDatapoints previousTotal r
    dps :: run previousTotal rs

/-! ## Consecutive samples -/

/-- The first sample is not zero, and nothing goes backwards. -/
def Forward (prev current : TotalUsed) : Prop :=
  prev.total ≠ 0 ∧ prev.used ≤ current.used ∧ prev.total ≤ current.total

/-- What is reported is the utilization between the two samples, and only a zero or backwards one of them suppresses
it. -/
structure Reports (prev current : TotalUsed) (dps : List (Metric × ℚ)) : Prop where
  value : ∀ v, (.utilization, v) ∈ dps → 0 ≤ v ∧ v ≤ 100 ∧ getUtilization prev current = .ok v
  suppressed : (∀ v, (.utilization, v) ∉ dps) → ¬ Forward prev current

variable {prev current : TotalUsed}

theorem getUtilization_error {x : UtilizationError} (h : getUtilization prev current = .error x) :
    ¬ Forward prev current := by
  rintro ⟨hz, hu, ht⟩
  have hq : 0 ≤ (current.used - prev.used) / (current.total - prev.total) * 100 := by
    have := sub_nonneg.mpr hu
    have := sub_nonneg.mpr ht
    positivity
  unfold getUtilization at h
  rw [if_neg hz, if_neg (not_lt.mpr (sub_nonneg.mpr hu)), if_neg (not_lt.mpr (sub_nonneg.mpr ht)),
    if_neg (not_lt.mpr hq)] at h
  split_ifs at h

theorem getUtilization_bounds {v : ℚ} (h : getUtilization prev current = .ok v) : 0 ≤ v ∧ v ≤ 100 := by
  simp only [getUtilization] at h
  split_ifs at h with _ _ _ _ hn hg <;> cases h
  · norm_num
  · norm_num
  · exact ⟨not_lt.mp hn, not_lt.mp hg⟩

theorem generateDatapoints_spec (prev : TotalUsed) {r : Reading} (hr : initializeCPUTimes r = some current) :
    Reports prev current (generateDatapoints (some prev) r).1 ∧
      (Forward prev current → (generateDatapoints (some prev) r).2 = some current) := by
  obtain ⟨t, ht, rfl⟩ := Option.map_eq_some_iff.mp hr
  obtain ⟨ts, hts⟩ := head?_eq_some_iff.mp ht
  unfold generateDatapoints
  simp only [hts]
  cases hu : getUtilization prev (cpuTimeStatTototalUsed t) with
  | error x => exact ⟨⟨nofun, fun _ => getUtilization_error hu⟩, fun hf => absurd hf (getUtilization_error hu)⟩
  | ok u =>
    refine ⟨⟨fun v hv => ?_, fun hn => absurd (by simp) (hn u)⟩, fun _ => rfl⟩
    obtain rfl : v = u := by simpa [makeSecondaryDatapoints] using hv
    exact ⟨(getUtilization_bounds hu).1, (getUtilization_bounds hu).2, hu⟩

/-- Before the last interval all samples go forward, so that each of them is stored. -/
theorem run_consecutive (r : Reading) (rs : List Reading) (samples : List TotalUsed)
    (hs : (r :: rs).map initializeCPUTimes = samples.map some) (hf : samples.dropLast.IsChain Forward)
    (k : Nat) (prev current : TotalUsed) (hp : samples[k]? = some prev) (hc : samples[k + 1]? = some current) :
    ∃ dps, (run (initializeCPUTimes r) rs)[k]? = some dps ∧ Reports prev current dps := by
  induction rs generalizing r samples k with
  | nil => obtain _ | ⟨a, _ | ⟨b, rest⟩⟩ := samples <;> simp at hs hc
  | cons r' rs ih =>
    obtain _ | ⟨a, _ | ⟨b, rest⟩⟩ := samples <;> simp at hs
    obtain ⟨ha, hb, hrest⟩ := hs
    rw [ha, run]
    obtain ⟨hrep, hstore⟩ := generateDatapoints_spec a hb
    cases k with
    | zero =>
      obtain rfl : a = prev := by simpa using hp
      obtain rfl : b = current := by simpa using hc
      exact ⟨_, rfl, hrep⟩
    | succ k =>
      cases rest with
      | nil => simp at hc
      | cons c rest =>
        rw [dropLast_cons_cons, dropLast_cons_cons, isChain_cons_cons] at hf
        simp only [hstore hf.1, getElem?_cons_succ, ← hb]
        exact ih r' (b :: c :: rest) (by simp [hb, hrest]) (by rw [dropLast_cons_cons]; exact hf.2) k hp hc

def reading (user idle : ℚ) : Reading := ⟨[⟨user, 0, idle, 0, 0, 0, 0, 0⟩], none⟩

theorem run_threeSamples :
    ∃ dps, (run (initializeCPUTimes (reading 1 1)) [reading 2 2, reading 4 3])[1]? = some dps ∧
      Reports ⟨4, 2⟩ ⟨7, 4⟩ dps :=
  run_consecutive (reading 1 1) [reading 2 2, reading 4 3] [⟨2, 1⟩, ⟨4, 2⟩, ⟨7, 4⟩]
    (by norm_num [reading, initializeCPUTimes, cpuTimeStatTototalUsed]) (by simp [Forward]; decide) 1 _ _ rfl rfl

/-- After a zero sample nothing is reported any more. -/
theorem run_zeroSample :
    run (initializeCPUTimes (reading 0 0)) [reading 1 1, reading 2 2, reading 3 3] = [[], [], []] := by
  norm_num [run, reading, initializeCPUTimes, generateDatapoints, getUtilization, cpuTimeStatTototalUsed]

end Collector.Cpu
