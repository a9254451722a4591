import Mathlib.Data.List.ReduceOption
import Collector.VSphere.Points

/-!
# The runs of the vSphere monitor

What vCenter and the clock answer in a run are its inputs.
-/

namespace Collector.VSphere

open Lib List

structure Config where
  perfBatchSize : Int
  /-- In seconds. -/
  vsphereReloadInterval : Int
  vcenterName : Str

/-- The conversions of a duration in nanoseconds to its seconds, through `Seconds()` and thus a float64. -/
structure Conversions where
  /-- `int(d.Seconds())`. -/
  int : Int → Int
  /-- `int32(d.Seconds())`. -/
  int32 : Int → Int

/-- The answers to `RetrieveVSphereInfo` and to the call of `RetrieveCurrentTime` after it. -/
structure InfoAnswers where
  inventory : Option Inventory
  availablePerfMetric : Str → Option (List PerfMetricId)
  perfCounterIndex : Option MetricInfosByKey
  currentTime : Option Int

structure Answers where
  logIn : Bool
  setup : InfoAnswers
  currentTime : Option Int
  queryPerf : QueryPerf
  clock : Int
  reload : InfoAnswers

/-- A call of `FetchPoints`, with the results of the calls of `RetrieveVSphereInfo` before it. -/
structure FetchCall where
  vsInfo : Option VsphereInfo
  retrievals : List (Option VsphereInfo)

/-- The panic is the one that ended the agent. The services are created by the login and not used before it. -/
structure VSphereMonitor where
  vSphereInfo : Option VsphereInfo
  lastVsphereLoadTime : Int
  lastPointRetrievalTime : Int
  sent : List SentPoint
  crashed : Option Panic
  retrievals : List (Option VsphereInfo)
  fetches : List FetchCall

def newVsphereMonitor : VSphereMonitor := ⟨none, 0, 0, [], none, [], []⟩

/-- An object whose metrics cannot be queried keeps those it has. -/
def populateInvMetrics (availablePerfMetric : Str → Option (List PerfMetricId)) (inv : Inventory) : Inventory :=
  { inv with objects := inv.objects.map fun o => { o with metricIds := (availablePerfMetric o.ref).getD o.metricIds } }

def retrievePopulatedInventory (a : InfoAnswers) : Option Inventory :=
  a.inventory.map (populateInvMetrics a.availablePerfMetric)

def retrieveVSphereInfo (a : InfoAnswers) : Option VsphereInfo :=
  (retrievePopulatedInventory a).bind fun inv => a.perfCounterIndex.map fun idx => ⟨inv, idx⟩

namespace VSphereMonitor

/-- Asks for the time only when the information was retrieved, and returns whether both were. -/
def load (vsm : VSphereMonitor) (a : InfoAnswers) : VSphereMonitor × Bool :=
  let info := retrieveVSphereInfo a
  let currentTime := info.bind fun _ => a.currentTime
  ({ vsm with
      vSphereInfo := info
      lastVsphereLoadTime := currentTime.getD vsm.lastVsphereLoadTime
      retrievals := vsm.retrievals ++ [info] }, currentTime.isSome)

def firstTimeSetup (vsm : VSphereMonitor) (a : Answers) : VSphereMonitor × Bool :=
  if vsm.lastVsphereLoadTime ≠ 0 then (vsm, true)
  else if a.logIn then vsm.load a.setup
  else (vsm, false)

def reloadVSphereInfo (vsm : VSphereMonitor) (a : Answers) : VSphereMonitor := (vsm.load a.reload).1

section
variable (conv : Conversions) (conf : Config)

def isTimeForVSphereInfoReload (vsm : VSphereMonitor) (a : Answers) : Bool :=
  conf.vsphereReloadInterval < conv.int (a.clock - vsm.lastVsphereLoadTime)

def getNumSamplesReqd (vsm : VSphereMonitor) (a : Answers) : Option Int :=
  if vsm.lastPointRetrievalTime = 0 then some 1
  else a.currentTime.map fun currentTime =>
    (conv.int32 (currentTime - vsm.lastPointRetrievalTime)).tdiv realtimeMetricsInterval

def fetch (vsm : VSphereMonitor) (a : Answers) (numSamples : Int) : VSphereMonitor :=
  let vsm := { vsm with fetches := vsm.fetches ++ [FetchCall.mk vsm.vSphereInfo vsm.retrievals] }
  match vsm.vSphereInfo with
  | none => { vsm with crashed := some .nilDereference }
  | some info =>
    let r := fetchPoints conf.vcenterName info conf.perfBatchSize a.queryPerf numSamples
    { vsm with
      sent := vsm.sent ++ r.1.points
      crashed := r.1.panic
      lastPointRetrievalTime := if r.1.panic = none ∧ r.2 ≠ 0 then r.2 else vsm.lastPointRetrievalTime }

def generateDatapoints (vsm : VSphereMonitor) (a : Answers) : VSphereMonitor :=
  match vsm.getNumSamplesReqd conv a with
  | none => vsm
  | some numSamples => if numSamples = 0 then vsm else vsm.fetch conf a numSamples

def collect (vsm : VSphereMonitor) (a : Answers) : VSphereMonitor :=
  let vsm := vsm.generateDatapoints conv conf a
  if vsm.crashed = none ∧ vsm.isTimeForVSphereInfoReload conv conf a then vsm.reloadVSphereInfo a else vsm

/-- An agent that has crashed runs no more. -/
def run (vsm : VSphereMonitor) (a : Answers) : VSphereMonitor :=
  if vsm.crashed ≠ none then vsm
  else
    let setup := vsm.firstTimeSetup a
    if setup.2 then setup.1.collect conv conf a else setup.1

def runs (vsm : VSphereMonitor) (as : List Answers) : VSphereMonitor := as.foldl (run conv conf) vsm

end

/-! ## What is given to `FetchPoints` -/

/-- The information that the latest successful call of `RetrieveVSphereInfo` has loaded. -/
def lastLoaded (retrievals : List (Option VsphereInfo)) : Option VsphereInfo := retrievals.reduceOption.getLast?

structure Holds (vsm : VSphereMonitor) : Prop where
  vSphereInfo : vsm.vSphereInfo = vsm.retrievals.getLast?.join
  fetches : ∀ call ∈ vsm.fetches, call.vsInfo = call.retrievals.getLast?.join
  crashed : vsm.crashed = some .nilDereference → ∃ call ∈ vsm.fetches, call.vsInfo = none

/-- `FetchPoints` was always given the inventory that was loaded last. -/
def Loaded (vsm : VSphereMonitor) : Prop :=
  vsm.crashed ≠ some .nilDereference ∧
    ∀ call ∈ vsm.fetches, ∃ info, call.vsInfo = some info ∧ lastLoaded call.retrievals = some info

variable {conv : Conversions} {conf : Config} {vsm : VSphereMonitor}

theorem lastLoaded_of_getLast? {retrievals : List (Option VsphereInfo)} {info : VsphereInfo}
    (h : retrievals.getLast?.join = some info) : lastLoaded retrievals = some info := by
  obtain ⟨front, rfl⟩ := getLast?_eq_some_iff.mp (Option.join_eq_some_iff.mp h)
  simp [lastLoaded, reduceOption_append]

theorem fetchLoop_panic_ne {vcenterName : Str} {vsInfo : VsphereInfo} {it : InvIterator} {queryPerf : QueryPerf}
    {n : Int} (fuel pageNum : Nat) (t : Int) :
    (fetchLoop vcenterName vsInfo it queryPerf n fuel pageNum t).1.1.panic ≠ some .nilDereference := by
  induction fuel generalizing pageNum t with
  | zero => simp [fetchLoop, Handed.nothing]
  | succ fuel ih =>
    unfold fetchLoop
    split
    · rename_i p hp
      rw [InvIterator.slice_error hp]
      simp
    · split
      · simp [Handed.nothing]
      · dsimp only
        split
        · exact Handed.andThen_panic_ne (pagePoints_panic_ne _ _ (by decide) _) (ih _ _)
        · exact pagePoints_panic_ne _ _ (by decide) _

section

variable (h : vsm.Holds)
include h

theorem Holds.load (a : InfoAnswers) : (vsm.load a).1.Holds :=
  ⟨by simp [VSphereMonitor.load], h.fetches, h.crashed⟩

theorem Holds.fetch (a : Answers) (n : Int) : (vsm.fetch conf a n).Holds := by
  have hca : ∀ call ∈ vsm.fetches ++ [FetchCall.mk vsm.vSphereInfo vsm.retrievals],
      call.vsInfo = call.retrievals.getLast?.join := by
    simpa [or_imp, forall_and, h.vSphereInfo] using h.fetches
  unfold VSphereMonitor.fetch
  cases hi : vsm.vSphereInfo with
  | none =>
    rw [hi] at hca
    exact ⟨by simpa [hi] using h.vSphereInfo, hca, fun _ => ⟨⟨none, vsm.retrievals⟩, by simp, rfl⟩⟩
  | some info =>
    rw [hi] at hca
    exact ⟨by simpa [hi] using h.vSphereInfo, hca, fun hcr => absurd hcr (fetchLoop_panic_ne _ _ _)⟩

theorem Holds.collect (a : Answers) : (vsm.collect conv conf a).Holds := by
  have hg : (vsm.generateDatapoints conv conf a).Holds := by
    unfold VSphereMonitor.generateDatapoints
    split
    · exact h
    · split
      · exact h
      · exact h.fetch a _
  unfold VSphereMonitor.collect
  simp only
  split
  · exact hg.load a.reload
  · exact hg

theorem Holds.firstTimeSetup (a : Answers) : (vsm.firstTimeSetup a).1.Holds := by
  unfold VSphereMonitor.firstTimeSetup
  split_ifs
  · exact h
  · exact h.load a.setup
  · exact h

theorem Holds.run (a : Answers) : (vsm.run conv conf a).Holds := by
  unfold VSphereMonitor.run
  simp only
  split_ifs
  · exact h
  · exact (h.firstTimeSetup a).collect a
  · exact h.firstTimeSetup a

theorem Holds.loaded_iff : vsm.Loaded ↔ ¬ ∃ call ∈ vsm.fetches, call.vsInfo = none := by
  constructor
  · rintro ⟨-, hca⟩ ⟨call, hc, hn⟩
    obtain ⟨info, hi, -⟩ := hca call hc
    exact absurd (hn.symm.trans hi) (by simp)
  · intro hne
    refine ⟨fun hcr => hne (h.crashed hcr), fun call hc => ?_⟩
    obtain ⟨info, hi⟩ := Option.ne_none_iff_exists'.mp fun hn => hne ⟨call, hc, hn⟩
    exact ⟨info, hi, lastLoaded_of_getLast? (h.fetches call hc ▸ hi)⟩

end

theorem holds_runs (conv : Conversions) (conf : Config) (as : List Answers) :
    (newVsphereMonitor.runs conv conf as).Holds := by
  have hs : newVsphereMonitor.Holds := ⟨rfl, by simp [newVsphereMonitor], by simp [newVsphereMonitor]⟩
  unfold runs
  exact foldlRecOn as _ hs fun vsm h a _ => h.run a

/-! ## What the answers have to be -/

section
variable (conv conf)

/-- The run gets to `FetchPoints`: the monitor is set up, and there is time for a sample. -/
def Asks (vsm : VSphereMonitor) (a : Answers) : Prop :=
  vsm.crashed = none ∧ (vsm.firstTimeSetup a).2 ∧
    ∃ n, (vsm.firstTimeSetup a).1.getNumSamplesReqd conv a = some n ∧ n ≠ 0

/-- The run gets to a reload. -/
def Reloads (vsm : VSphereMonitor) (a : Answers) : Prop :=
  vsm.crashed = none ∧ (vsm.firstTimeSetup a).2 ∧ (vsm.run conv conf a).crashed = none ∧
    (vsm.firstTimeSetup a).1.isTimeForVSphereInfoReload conv conf a

/-- The latest reload of a monitor that is set up could not retrieve the inventory or the counter index. -/
inductive Stale : List Answers → Prop
  | failed {as : List Answers} {a : Answers} : Reloads conv conf (newVsphereMonitor.runs conv conf as) a →
    retrieveVSphereInfo a.reload = none → Stale (as ++ [a])
  | kept {as : List Answers} {a : Answers} : Stale as → (newVsphereMonitor.runs conv conf as).lastVsphereLoadTime ≠ 0 →
    (Reloads conv conf (newVsphereMonitor.runs conv conf as) a → retrieveVSphereInfo a.reload = none) →
    Stale (as ++ [a])

theorem runs_concat (as : List Answers) (a : Answers) :
    vsm.runs conv conf (as ++ [a]) = (vsm.runs conv conf as).run conv conf a := foldl_concat ..

theorem load_spec (a : InfoAnswers) : (vsm.load a).1.fetches = vsm.fetches ∧ (vsm.load a).1.crashed = vsm.crashed ∧
    ((vsm.load a).2 → (vsm.load a).1.vSphereInfo ≠ none) ∧
    ((vsm.load a).2 = false → (vsm.load a).1.lastVsphereLoadTime = vsm.lastVsphereLoadTime) := by
  unfold VSphereMonitor.load
  cases retrieveVSphereInfo a <;> cases a.currentTime <;> simp

/-- A monitor that is not set up has an inventory afterwards, or no load time. -/
theorem firstTimeSetup_cases (vsm : VSphereMonitor) (a : Answers) :
    vsm.lastVsphereLoadTime ≠ 0 ∧ vsm.firstTimeSetup a = (vsm, true) ∨
    vsm.lastVsphereLoadTime = 0 ∧ (vsm.firstTimeSetup a).1.fetches = vsm.fetches ∧
      (vsm.firstTimeSetup a).1.crashed = vsm.crashed ∧
      ((vsm.firstTimeSetup a).2 → (vsm.firstTimeSetup a).1.vSphereInfo ≠ none) ∧
      ((vsm.firstTimeSetup a).2 = false → (vsm.firstTimeSetup a).1.lastVsphereLoadTime = 0) := by
  by_cases ht : vsm.lastVsphereLoadTime = 0
  · obtain ⟨hf, hc, hi, hl⟩ := vsm.load_spec a.setup
    rw [ht] at hl
    unfold firstTimeSetup
    rw [if_neg (not_not.mpr ht)]
    split_ifs
    · exact .inr ⟨ht, hf, hc, hi, hl⟩
    · exact .inr ⟨ht, rfl, rfl, nofun, fun _ => ht⟩
  · exact .inl ⟨ht, if_pos ht⟩

theorem generateDatapoints_spec (vsm : VSphereMonitor) (a : Answers) :
    (vsm.generateDatapoints conv conf a).vSphereInfo = vsm.vSphereInfo ∧
    (vsm.generateDatapoints conv conf a).lastVsphereLoadTime = vsm.lastVsphereLoadTime ∧
    ((∃ call ∈ (vsm.generateDatapoints conv conf a).fetches, call.vsInfo = none) ↔
      (∃ call ∈ vsm.fetches, call.vsInfo = none) ∨
        (∃ n, vsm.getNumSamplesReqd conv a = some n ∧ n ≠ 0) ∧ vsm.vSphereInfo = none) := by
  unfold generateDatapoints
  cases vsm.getNumSamplesReqd conv a with
  | none => simp
  | some n =>
    by_cases hn : n = 0
    · simp [hn]
    · simp only [if_neg hn]
      unfold fetch
      cases hi : vsm.vSphereInfo <;> simp [hn, or_and_right, exists_or]

theorem collect_spec (vsm : VSphereMonitor) (a : Answers) :
    ((∃ call ∈ (vsm.collect conv conf a).fetches, call.vsInfo = none) ↔
      (∃ call ∈ vsm.fetches, call.vsInfo = none) ∨
        (∃ n, vsm.getNumSamplesReqd conv a = some n ∧ n ≠ 0) ∧ vsm.vSphereInfo = none) ∧
    (vsm.collect conv conf a).vSphereInfo =
      if (vsm.collect conv conf a).crashed = none ∧ vsm.isTimeForVSphereInfoReload conv conf a then
        retrieveVSphereInfo a.reload else vsm.vSphereInfo := by
  obtain ⟨hi, ht, hf⟩ := vsm.generateDatapoints_spec conv conf a
  have htime : (vsm.generateDatapoints conv conf a).isTimeForVSphereInfoReload conv conf a =
      vsm.isTimeForVSphereInfoReload conv conf a := by rw [isTimeForVSphereInfoReload, ht, isTimeForVSphereInfoReload]
  unfold collect
  simp only [htime]
  split_ifs with h h'
  · exact ⟨hf, rfl⟩
  · exact absurd h h'
  · exact ⟨hf, hi⟩

/-- What a run does to the calls and to the inventory. -/
theorem run_spec (vsm : VSphereMonitor) (a : Answers) :
    ((∃ call ∈ (vsm.run conv conf a).fetches, call.vsInfo = none) ↔ (∃ call ∈ vsm.fetches, call.vsInfo = none) ∨
      Asks conv vsm a ∧ vsm.lastVsphereLoadTime ≠ 0 ∧ vsm.vSphereInfo = none) ∧
    ((vsm.run conv conf a).lastVsphereLoadTime ≠ 0 → ((vsm.run conv conf a).vSphereInfo = none ↔
      Reloads conv conf vsm a ∧ retrieveVSphereInfo a.reload = none ∨ vsm.vSphereInfo = none ∧
        vsm.lastVsphereLoadTime ≠ 0 ∧ (Reloads conv conf vsm a → retrieveVSphereInfo a.reload = none))) := by
  unfold Asks Reloads
  by_cases hc : vsm.crashed = none
  · have hr : vsm.run conv conf a = if (vsm.firstTimeSetup a).2 then (vsm.firstTimeSetup a).1.collect conv conf a
      else (vsm.firstTimeSetup a).1 := if_neg (not_not.mpr hc)
    obtain ⟨ht, hs⟩ | ⟨ht, hf, -, hi, hl⟩ := vsm.firstTimeSetup_cases a
    · obtain ⟨hf, hi⟩ := vsm.collect_spec conv conf a
      rw [hs, if_pos rfl] at hr
      rw [hr, hs]
      refine ⟨by simp [hf, hc, ht], fun _ => ?_⟩
      rw [hi]
      split_ifs with hre <;> simp [hc, ht, hre]
    · cases hs : (vsm.firstTimeSetup a).2 with
      | true =>
        obtain ⟨hf', hi'⟩ := (vsm.firstTimeSetup a).1.collect_spec conv conf a
        rw [hs, if_pos rfl] at hr
        rw [hr]
        refine ⟨by simp [hf', hf, hi hs, ht], fun _ => ?_⟩
        rw [hi']
        split_ifs with hre <;> simp [hc, ht, hre, hi hs]
      | false =>
        rw [hs, if_neg nofun] at hr
        rw [hr]
        exact ⟨by simp [hf, ht], fun h => absurd (hl hs) h⟩
  · have hr : vsm.run conv conf a = vsm := if_pos hc
    simp +contextual [hr, hc]

theorem stale_iff (as : List Answers) (ht : (newVsphereMonitor.runs conv conf as).lastVsphereLoadTime ≠ 0) :
    Stale conv conf as ↔ (newVsphereMonitor.runs conv conf as).vSphereInfo = none := by
  induction as using reverseRecOn with
  | nil => exact absurd rfl ht
  | append_singleton as a ih =>
    rw [runs_concat] at ht ⊢
    rw [(run_spec conv conf _ a).2 ht]
    constructor
    · intro h
      generalize hl : as ++ [a] = l at h
      cases h with
      | failed hre hnone =>
        obtain ⟨rfl, ⟨⟩⟩ := append_inj' hl rfl
        exact .inl ⟨hre, hnone⟩
      | kept hst hlo hre =>
        obtain ⟨rfl, ⟨⟩⟩ := append_inj' hl rfl
        exact .inr ⟨(ih hlo).mp hst, hlo, hre⟩
    · rintro (⟨hre, hnone⟩ | ⟨hnone, hlo, hre⟩)
      · exact .failed hre hnone
      · exact .kept ((ih hlo).mpr hnone) hlo hre

/-- `FetchPoints` is always given the inventory that was loaded last, if and only if no run asks for samples after a
reload has failed and before another one has succeeded. -/
theorem fetches_loaded_iff (as : List Answers) : (newVsphereMonitor.runs conv conf as).Loaded ↔
    ∀ before a after, as = before ++ a :: after → Stale conv conf before →
      (newVsphereMonitor.runs conv conf before).lastVsphereLoadTime ≠ 0 →
      ¬ Asks conv (newVsphereMonitor.runs conv conf before) a := by
  rw [(holds_runs conv conf as).loaded_iff]
  induction as using reverseRecOn with
  | nil => simp [runs, newVsphereMonitor]
  | append_singleton as a ih =>
    have hst := stale_iff conv conf as
    have hspec := ((newVsphereMonitor.runs conv conf as).run_spec conv conf a).1
    rw [runs_concat, hspec, not_or, ih]
    constructor
    · rintro ⟨hb, hl⟩ before b after heq
      rcases eq_nil_or_concat after with rfl | ⟨after, x, rfl⟩
      · obtain ⟨rfl, ⟨⟩⟩ := append_inj' heq rfl
        tauto
      · rw [concat_eq_append, ← cons_append, ← append_assoc] at heq
        exact hb before b after (append_inj' heq rfl).1
    · intro h
      refine ⟨fun before b after heq => h before b (after ++ [a]) (by simp [heq]), ?_⟩
      have := h as a [] rfl
      tauto

end

def wholeSeconds : Conversions where
  int d := d / second
  int32 d := d / second

def defaultConfig : Config := ⟨10, 60, ['v', 'c']⟩

def loads (now : Int) : InfoAnswers := ⟨some ⟨[], []⟩, fun _ => none, some [], some now⟩

/-- The reload at the end of the first run cannot retrieve the inventory. -/
def reloadFails : List Answers :=
  [⟨true, loads 1, some 1, fun _ => none, 100 * second, { loads 1 with inventory := none }⟩,
    ⟨true, loads 2, some 2, fun _ => none, 120 * second, loads 2⟩]

theorem crashed_reloadFails :
    (newVsphereMonitor.runs wholeSeconds defaultConfig reloadFails).crashed = some .nilDereference := by
  decide

end VSphereMonitor

end Collector.VSphere
