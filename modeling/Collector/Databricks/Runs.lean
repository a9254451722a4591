import Collector.Lib.Runs
import Collector.Value

/-!
# The run metrics of the Databricks receiver

At every scrape `RunMetricsProvider` lists the completed runs of each job and records a data point for the new ones.
-/

namespace Collector.Databricks

open Lib List Option

structure JobRunTask where
  taskKey : Str
  executionDuration : Int
deriving DecidableEq

structure JobRun where
  jobID : Int
  runID : Int
  startTime : Int
  executionDuration : Int
  lifeCycleState : Str
  tasks : List JobRunTask
deriving DecidableEq

def skipped : Str := ['S', 'K', 'I', 'P', 'P', 'E', 'D']

/-! ## Listing the runs -/

structure JobRuns where
  runs : List JobRun
  hasMore : Bool

def completedJobRuns (completed : List JobRun) (limit offset : Nat) : JobRuns where
  runs := (completed.drop offset).take limit
  hasMore := offset + limit < completed.length

def stopsAt (prevStartTime : Int) (runs : List JobRun) : Bool :=
  prevStartTime = 0 || match runs.getLast? with
    | none => true
    | some run => run.startTime < prevStartTime

/-- The loop of `CompletedJobRuns` from page `i` on, for a number of pages. -/
def completedPages (completed : List JobRun) (limit : Nat) (prevStartTime : Int) : Nat → Nat → Option (List JobRun)
  | 0, _ => none
  | fuel + 1, i =>
    let resp := completedJobRuns completed limit (limit * i)
    if stopsAt prevStartTime resp.runs then some resp.runs
    else if resp.hasMore then (completedPages completed limit prevStartTime fuel (i + 1)).map (resp.runs ++ ·)
    else some resp.runs

def listRuns (completed : List JobRun) (limit : Nat) (prevStartTime : Int) : Option (List JobRun) :=
  completedPages completed limit prevStartTime (completed.length + 1) 0

/-! ## The tracker -/

abbrev RunTracker := List (Int × Int)

def getPrevStartTime (t : RunTracker) (jobID : Int) : Int := (find jobID t).getD 0

def collectNewRuns (runs : List JobRun) (prev : Int) : List JobRun :=
  runs.reverse.filter fun run => ¬ run.startTime ≤ prev

def extractNewRuns (t : RunTracker) : List JobRun → RunTracker × List JobRun
  | [] => (t, [])
  | latestRun :: runs =>
    let prev := getPrevStartTime t latestRun.jobID
    (put latestRun.jobID latestRun.startTime t, if prev = 0 then [] else collectNewRuns (latestRun :: runs) prev)

/-! ## The data points -/

inductive DataPoint where
  | jobRunDuration (duration jobID : Int)
  | taskRunDuration (duration jobID : Int) (taskKey : Str)

structure Provider where
  tracker : RunTracker
  recorded : List (JobRun × DataPoint)

def newRunMetricsProvider : Provider := ⟨[], []⟩

def recordRun (jobID : Int) (run : JobRun) : List (JobRun × DataPoint) :=
  if run.lifeCycleState = skipped then []
  else (run, .jobRunDuration run.executionDuration jobID) ::
    run.tasks.map fun task => (run, .taskRunDuration task.executionDuration jobID task.taskKey)

def addSingleJobRunMetrics (limit : Nat) (completed : Int → List JobRun) (p : Provider) (jobID : Int) :
    Option Provider :=
  (listRuns (completed jobID) limit (getPrevStartTime p.tracker jobID)).map fun runs =>
    let new := extractNewRuns p.tracker runs
    ⟨new.1, p.recorded ++ new.2.flatMap (recordRun jobID)⟩

structure Scrape where
  jobIDs : List Int
  completed : Int → List JobRun

def addMultiJobRunMetrics (limit : Nat) (p : Provider) (scrape : Scrape) : Option Provider :=
  scrape.jobIDs.foldlM (addSingleJobRunMetrics limit scrape.completed) p

/-! ## What one job's tracker reports -/

def Listed (jobID : Int) (runs : List JobRun) : Prop :=
  runs.Pairwise (fun run run' => run'.startTime < run.startTime) ∧ ∀ run ∈ runs, run.jobID = jobID ∧ 0 < run.startTime

def latestStart (prev : Int) : List JobRun → Int
  | [] => prev
  | latestRun :: _ => latestRun.startTime

def newRuns (prev : Int) (runs : List JobRun) : List JobRun :=
  if prev = 0 then [] else (collectNewRuns runs prev).filter fun run => run.lifeCycleState ≠ skipped

def reports (prev : Int) : List (List JobRun) → List JobRun
  | [] => []
  | runs :: rest => newRuns prev runs ++ reports (latestStart prev runs) rest

def prevAfter (prev : Int) (listings : List (List JobRun)) : Int := listings.foldl latestStart prev

section
variable {jobID prev : Int} {run : JobRun} {runs : List JobRun} {listings listings' : List (List JobRun)}

theorem reports_append :
    reports prev (listings ++ listings') = reports prev listings ++ reports (prevAfter prev listings) listings' := by
  induction listings generalizing prev with
  | nil => rfl
  | cons runs rest ih => simp [reports, ih, prevAfter]

theorem latestStart_congr {runs' : List JobRun} (h : runs.head? = runs'.head?) :
    latestStart prev runs = latestStart prev runs' := by
  cases runs <;> cases runs' <;> simp_all [latestStart]

theorem mem_newRuns : run ∈ newRuns prev runs ↔
    prev ≠ 0 ∧ run ∈ runs ∧ prev < run.startTime ∧ run.lifeCycleState ≠ skipped := by
  unfold newRuns
  split
  · simp_all
  · simp_all [collectNewRuns, and_comm]

theorem Listed.nodup (h : Listed jobID runs) : runs.Nodup :=
  h.1.imp fun hlt heq => by simp [heq] at hlt

theorem Listed.le_latestStart (h : Listed jobID runs) (hrun : run ∈ runs) : run.startTime ≤ latestStart prev runs := by
  cases runs with
  | nil => simp at hrun
  | cons latestRun runs =>
    rw [latestStart]
    rcases mem_cons.mp hrun with rfl | hrun
    · exact Int.le_refl _
    · exact Int.le_of_lt ((pairwise_cons.mp h.1).1 run hrun)

theorem Listed.count_newRuns (h : Listed jobID runs) (hrun : run ∈ newRuns prev runs) :
    (newRuns prev runs).count run = 1 := by
  apply count_eq_one_of_mem _ hrun
  unfold newRuns
  split
  · exact nodup_nil
  · exact ((nodup_reverse.mpr h.nodup).filter _).filter _

theorem notMem_reports_of_notMem (h : ∀ runs ∈ listings, run ∉ runs) : run ∉ reports prev listings := by
  induction listings generalizing prev with
  | nil => simp [reports]
  | cons runs rest ih =>
    rw [forall_mem_cons] at h
    rw [reports, mem_append, mem_newRuns]
    rintro (⟨-, hrun, -⟩ | hrun)
    · exact h.1 hrun
    · exact ih h.2 hrun

theorem notMem_reports_of_le (hl : ∀ runs ∈ listings, Listed jobID runs) (h : ∀ runs ∈ listings, run ∈ runs)
    (hle : run.startTime ≤ prev) : run ∉ reports prev listings := by
  induction listings generalizing prev with
  | nil => simp [reports]
  | cons runs rest ih =>
    rw [forall_mem_cons] at h hl
    rw [reports, mem_append, mem_newRuns]
    rintro (⟨-, -, hlt, -⟩ | hrun)
    · omega
    · exact ih hl.2 h.2 (hl.1.le_latestStart h.1) hrun

def Grows (jobID : Int) (listings : List (List JobRun)) : Prop :=
  (∀ runs ∈ listings, Listed jobID runs) ∧ listings.Pairwise (· ⊆ ·)

theorem prevAfter_of_empty (h : ∀ runs ∈ listings, runs = []) : prevAfter prev listings = prev := by
  induction listings with
  | nil => rfl
  | cons runs rest ih =>
    rw [forall_mem_cons] at h
    rw [prevAfter, foldl_cons, h.1]
    exact ih h.2

theorem Grows.prevAfter_lt_iff (h : Grows jobID (listings ++ [runs])) (run : JobRun) :
    (prevAfter 0 (listings ++ [runs]) ≠ 0 ∧ prevAfter 0 (listings ++ [runs]) < run.startTime) ↔
      runs ≠ [] ∧ ∀ run' ∈ runs, run'.startTime < run.startTime := by
  have hp : prevAfter 0 (listings ++ [runs]) = latestStart (prevAfter 0 listings) runs := by
    simp [prevAfter]
  have hl := h.1 runs (by simp)
  rw [hp]
  cases runs with
  | nil =>
    have hem : prevAfter 0 listings = 0 := by
      apply prevAfter_of_empty
      intro earlier he
      have hs := (pairwise_append.mp h.2).2.2 earlier he [] (by simp)
      exact subset_nil.mp hs
    simp [latestStart, hem]
  | cons latestRun runs =>
    have hpos := (hl.2 latestRun mem_cons_self).2
    have hall := (pairwise_cons.mp hl.1).1
    simp only [latestStart, ne_eq, reduceCtorEq, not_false_eq_true, true_and, forall_mem_cons]
    constructor
    · rintro ⟨-, hlt⟩
      refine ⟨hlt, fun run' hrun' => ?_⟩
      have hlt' := hall run' hrun'
      omega
    · rintro ⟨hlt, -⟩
      exact ⟨by omega, hlt⟩

theorem Grows.count_reports (h : Grows jobID (listings ++ runs :: listings')) (hrun : run ∈ runs)
    (hnew : ∀ earlier ∈ listings, run ∉ earlier) :
    (reports 0 (listings ++ runs :: listings')).count run =
      if run ∈ newRuns (prevAfter 0 listings) runs then 1 else 0 := by
  have hli : ∀ later ∈ runs :: listings', Listed jobID later := fun later hl =>
    h.1 later (mem_append_right _ hl)
  rw [forall_mem_cons] at hli
  have hl : run ∉ reports (latestStart (prevAfter 0 listings) runs) listings' := by
    apply notMem_reports_of_le hli.2 _ (hli.1.le_latestStart hrun)
    intro later hl
    have hs := (pairwise_cons.mp (pairwise_append.mp h.2).2.1).1 later hl
    exact hs hrun
  rw [reports_append, reports, count_append, count_append,
    count_eq_zero_of_not_mem (notMem_reports_of_notMem hnew), count_eq_zero_of_not_mem hl]
  split_ifs with hmem
  · simp [hli.1.count_newRuns hmem]
  · simp [count_eq_zero_of_not_mem hmem]

end

/-! ## The pages -/

def Descending (runs : List JobRun) : Prop := runs.Pairwise fun run run' => run'.startTime ≤ run.startTime

section
variable {completed : List JobRun} {limit : Nat} {prev jobID : Int}

theorem mem_of_stopsAt {front rest : List JobRun} {run : JobRun} (h : Descending (front ++ rest))
    (hf : front = [] → rest = []) (hs : stopsAt prev front = true) (hp : prev ≠ 0)
    (hrun : run ∈ front ++ rest) (hle : prev ≤ run.startTime) : run ∈ front := by
  rcases mem_append.mp hrun with hrun | hrun
  · exact hrun
  · have hne : front ≠ [] := by
      intro hnil
      rw [hf hnil] at hrun
      simp at hrun
    have hl : front.getLast? = some (front.getLast hne) := getLast?_eq_some_getLast hne
    have hb := (pairwise_append.mp h).2.2 _ (getLast_mem hne) run hrun
    simp only [stopsAt, hp, hl, decide_false, Bool.false_or, decide_eq_true_eq] at hs
    omega

theorem completedPages_spec (prev : Int) (fuel i : Nat) (h : Descending completed) (hli : 0 < limit)
    (hi : limit * i ≤ completed.length) (hfu : completed.length < fuel + limit * i) :
    ∃ out, completedPages completed limit prev fuel i = some out ∧ out <+: completed.drop (limit * i) ∧
      (out = [] → completed.drop (limit * i) = []) ∧
      (prev ≠ 0 → ∀ run ∈ completed.drop (limit * i), prev ≤ run.startTime → run ∈ out) := by
  induction fuel generalizing i with
  | zero => omega
  | succ fuel ih =>
    obtain ⟨rest, hr⟩ : ∃ rest, rest = completed.drop (limit * i) := ⟨_, rfl⟩
    have he : rest.take limit = [] → rest = [] := by
      intro ht
      rcases take_eq_nil_iff.mp ht with hz | hnil
      · omega
      · exact hnil
    rw [completedPages]
    simp only [completedJobRuns, ← hr]
    by_cases hs : stopsAt prev (rest.take limit) = true
    · rw [if_pos hs]
      refine ⟨_, rfl, take_prefix _ _, he, ?_⟩
      intro hp run hrun hle
      have hl : Descending (rest.take limit ++ rest.drop limit) := by
        rw [take_append_drop, hr]
        exact h.sublist (drop_sublist _ _)
      rw [← take_append_drop limit rest] at hrun
      refine mem_of_stopsAt hl (fun hnil => ?_) hs hp hrun hle
      rw [he hnil, drop_nil]
    · rw [if_neg hs]
      by_cases hm : limit * i + limit < completed.length
      · rw [if_pos (by simpa using hm)]
        obtain ⟨out, hout, hf, -, hall⟩ := ih (i + 1) (by rw [Nat.mul_succ]; omega) (by rw [Nat.mul_succ]; omega)
        have hd : completed.drop (limit * (i + 1)) = rest.drop limit := by
          rw [hr, drop_drop, Nat.mul_succ]
        rw [hd] at hf hall
        refine ⟨rest.take limit ++ out, by rw [hout]; rfl, ?_, ?_, ?_⟩
        · conv_rhs => rw [← take_append_drop limit rest]
          exact (prefix_append_right_inj _).mpr hf
        · intro hnil
          exact he (append_eq_nil_iff.mp hnil).1
        · intro hp run hrun hle
          rw [← take_append_drop limit rest, mem_append] at hrun
          exact mem_append.mpr (hrun.imp_right fun hrun => hall hp run hrun hle)
      · rw [if_neg (by simpa using hm)]
        have ht : rest.take limit = rest := by
          apply take_of_length_le
          rw [hr, length_drop]
          omega
        exact ⟨rest.take limit, rfl, take_prefix _ _, he, by rw [ht]; exact fun _ _ hrun _ => hrun⟩

theorem listRuns_spec (prev : Int) (h : Listed jobID completed) (hl : 0 < limit) :
    ∃ runs, listRuns completed limit prev = some runs ∧ runs.head? = completed.head? ∧ runs ⊆ completed ∧
      newRuns prev runs = newRuns prev completed := by
  obtain ⟨runs, hru, ⟨rest, hr⟩, he, hall⟩ :=
    completedPages_spec prev (completed.length + 1) 0 (h.1.imp Int.le_of_lt) hl (by simp) (by omega)
  rw [Nat.mul_zero, drop_zero] at hr he hall
  refine ⟨runs, hru, ?_, ?_, ?_⟩
  · cases runs with
    | nil => rw [he rfl]
    | cons run runs =>
      rw [← hr]
      rfl
  · rw [← hr]
    exact subset_append_left _ _
  · unfold newRuns
    split_ifs with hp
    · rfl
    · have hold : rest.reverse.filter (fun run => ¬ run.startTime ≤ prev) = [] := by
        rw [filter_eq_nil_iff]
        intro run hrun hlt
        rw [mem_reverse] at hrun
        have hmem := hall hp run (by rw [← hr]; exact mem_append_right _ hrun)
          (Int.le_of_lt (by simpa using hlt))
        have hn := h.nodup
        rw [← hr] at hn
        exact (disjoint_of_nodup_append hn) hmem hrun
      rw [collectNewRuns, collectNewRuns, ← hr, reverse_append, filter_append, hold, nil_append]

end

/-! ## The provider keeps a tracker for each job -/

def durationOf (jobID : Int) : JobRun × DataPoint → Option JobRun
  | (run, .jobRunDuration _ id) => if id = jobID then some run else none
  | (_, .taskRunDuration ..) => none

def Provider.reported (p : Provider) (jobID : Int) : List JobRun := p.recorded.filterMap (durationOf jobID)

def Provider.Tracks (p : Provider) (listings : Int → List (List JobRun)) : Prop :=
  ∀ jobID, getPrevStartTime p.tracker jobID = prevAfter 0 (listings jobID) ∧
    p.reported jobID = reports 0 (listings jobID)

section
variable {jobID : Int} {limit : Nat} {p : Provider}

theorem filterMap_recordRun (jobID id : Int) (runs : List JobRun) :
    (runs.flatMap (recordRun id)).filterMap (durationOf jobID) =
      if id = jobID then runs.filter fun run => run.lifeCycleState ≠ skipped else [] := by
  induction runs with
  | nil => simp
  | cons run runs ih =>
    rw [flatMap_cons, filterMap_append, ih, recordRun]
    by_cases hs : run.lifeCycleState = skipped <;> by_cases hid : id = jobID <;>
      simp [hs, hid, durationOf, Function.comp_def]

theorem extractNewRuns_spec (t : RunTracker) {runs : List JobRun} (h : ∀ run ∈ runs, run.jobID = jobID) :
    (extractNewRuns t runs).2.filter (fun run => run.lifeCycleState ≠ skipped) =
      newRuns (getPrevStartTime t jobID) runs ∧
    ∀ id, getPrevStartTime (extractNewRuns t runs).1 id =
      if id = jobID then latestStart (getPrevStartTime t id) runs else getPrevStartTime t id := by
  cases runs with
  | nil => simp [extractNewRuns, newRuns, collectNewRuns, latestStart]
  | cons latestRun runs =>
    have hjob := h latestRun mem_cons_self
    refine ⟨?_, fun id => ?_⟩
    · simp only [extractNewRuns, newRuns, hjob]
      split <;> rfl
    · simp only [extractNewRuns, getPrevStartTime, hjob, find_put, latestStart]
      split <;> rfl

theorem addSingleJobRunMetrics_spec {completed : Int → List JobRun} (h : Listed jobID (completed jobID))
    (hl : 0 < limit) :
    ∃ p', addSingleJobRunMetrics limit completed p jobID = some p' ∧ ∀ id,
      getPrevStartTime p'.tracker id = (if id = jobID then latestStart (getPrevStartTime p.tracker id) (completed id)
        else getPrevStartTime p.tracker id) ∧
      p'.reported id = p.reported id ++
        if id = jobID then newRuns (getPrevStartTime p.tracker id) (completed id) else [] := by
  obtain ⟨runs, hru, hh, hs, hnew⟩ := listRuns_spec (getPrevStartTime p.tracker jobID) h hl
  obtain ⟨hr, ht⟩ := extractNewRuns_spec p.tracker fun run hrun => (h.2 run (hs hrun)).1
  refine ⟨_, by rw [addSingleJobRunMetrics, hru]; rfl, fun id => ⟨?_, ?_⟩⟩
  · rw [ht]
    split_ifs with hid
    · subst hid
      exact latestStart_congr hh
    · rfl
  · rw [Provider.reported, filterMap_append, filterMap_recordRun, hr, hnew]
    by_cases hid : id = jobID
    · subst hid
      simp [Provider.reported]
    · rw [if_neg (Ne.symm hid), if_neg hid]
      rfl

def listings (scrapes : List Scrape) (jobID : Int) : List (List JobRun) :=
  (scrapes.filter fun scrape => jobID ∈ scrape.jobIDs).map fun scrape => scrape.completed jobID

/-- The jobs of a scrape are distinct, and each listing is in the order of the API. -/
def Scrape.Valid (scrape : Scrape) : Prop :=
  scrape.jobIDs.Nodup ∧ ∀ jobID, Listed jobID (scrape.completed jobID)

theorem addMultiJobRunMetrics_spec {scrape : Scrape} (h : scrape.Valid) (hli : 0 < limit) :
    ∃ p', addMultiJobRunMetrics limit p scrape = some p' ∧ ∀ id,
      getPrevStartTime p'.tracker id = (if id ∈ scrape.jobIDs then
        latestStart (getPrevStartTime p.tracker id) (scrape.completed id) else getPrevStartTime p.tracker id) ∧
      p'.reported id = p.reported id ++
        if id ∈ scrape.jobIDs then newRuns (getPrevStartTime p.tracker id) (scrape.completed id) else [] := by
  obtain ⟨jobIDs, completed⟩ := scrape
  obtain ⟨hn, hl⟩ := h
  simp only [addMultiJobRunMetrics] at *
  induction jobIDs generalizing p with
  | nil => exact ⟨p, rfl, by simp⟩
  | cons jobID jobIDs ih =>
    rw [nodup_cons] at hn
    obtain ⟨p₁, hp₁, hs⟩ := addSingleJobRunMetrics_spec (p := p) (hl jobID) hli
    obtain ⟨p₂, hp₂, hr⟩ := ih (p := p₁) hn.2
    refine ⟨p₂, by rw [foldlM_cons, hp₁]; exact hp₂, fun id => ?_⟩
    rw [(hr id).1, (hr id).2, (hs id).1, (hs id).2]
    by_cases hid : id = jobID
    · subst hid
      simp [hn.1]
    · simp [hid]

theorem listings_concat (scrapes : List Scrape) (scrape : Scrape) (jobID : Int) :
    listings (scrapes ++ [scrape]) jobID =
      listings scrapes jobID ++ if jobID ∈ scrape.jobIDs then [scrape.completed jobID] else [] := by
  unfold listings
  rw [filter_append, map_append]
  split <;> simp_all

theorem tracks_scrapes {scrapes : List Scrape} (h : ∀ scrape ∈ scrapes, scrape.Valid) (hl : 0 < limit) :
    ∃ p, scrapes.foldlM (addMultiJobRunMetrics limit) newRunMetricsProvider = some p ∧ p.Tracks (listings scrapes) := by
  apply foldlM_some (addMultiJobRunMetrics limit) (fun done p => p.Tracks (listings done))
  · intro jobID
    exact ⟨rfl, rfl⟩
  · intro done scrape p hsc ht
    obtain ⟨p', hp', hs⟩ := addMultiJobRunMetrics_spec (p := p) (h scrape hsc) hl
    refine ⟨p', hp', fun jobID => ?_⟩
    rw [(hs jobID).1, (hs jobID).2, (ht jobID).1, (ht jobID).2, listings_concat]
    split
    · simp [prevAfter, reports_append, reports]
    · simp

end

def Provider.durationPoints (p : Provider) (run : JobRun) : Nat := (p.reported run.jobID).count run

/-- A listing of the job with a run that is not in the one before it. -/
def NewIn (listings : List (List JobRun)) (earlier later : List JobRun) (run : JobRun) : Prop :=
  (∃ before after, listings = before ++ earlier :: later :: after) ∧ run ∈ later ∧ run ∉ earlier ∧
    run.lifeCycleState ≠ skipped

theorem Grows.durationPoints_first {jobID : Int} {first : List JobRun} {rest : List (List JobRun)} {run : JobRun}
    (h : Grows jobID (first :: rest)) (hrun : run ∈ first) : (reports 0 (first :: rest)).count run = 0 := by
  have hc := Grows.count_reports (nil_append (first :: rest) ▸ h) hrun (by simp)
  rw [nil_append] at hc
  rw [hc, if_neg]
  simp [mem_newRuns, prevAfter]

theorem Grows.durationPoints_new {jobID : Int} {all : List (List JobRun)} {earlier later : List JobRun} {run : JobRun}
    (h : Grows jobID all) (hnew : NewIn all earlier later run) :
    (reports 0 all).count run = 1 ↔ earlier ≠ [] ∧ ∀ run' ∈ earlier, run'.startTime < run.startTime := by
  obtain ⟨⟨before, after, rfl⟩, hrun, he, hs⟩ := hnew
  have hsp : before ++ earlier :: later :: after = (before ++ [earlier]) ++ later :: after := by simp
  rw [hsp] at h ⊢
  have hf : Grows jobID (before ++ [earlier]) :=
    ⟨fun runs hr => h.1 runs (mem_append_left _ hr), (pairwise_append.mp h.2).1⟩
  have hfi : ∀ runs ∈ before ++ [earlier], run ∉ runs := by
    intro runs hr hmem
    rcases mem_append.mp hr with hr | hr
    · exact he ((pairwise_append.mp hf.2).2.2 runs hr earlier (by simp) hmem)
    · rw [mem_singleton.mp hr] at hmem
      exact he hmem
  rw [h.count_reports hrun hfi, ← hf.prevAfter_lt_iff run]
  simp [mem_newRuns, hrun, hs]

/-- Every sequence of scrapes ends. A run that is completed before the first scrape of its job has no data point, and
a later one has exactly one, just if the listing before it is not empty and has only earlier runs. -/
theorem durationPoints_once_iff (limit : Nat) (hlimit : 0 < limit) (scrapes : List Scrape)
    (hvalid : ∀ scrape ∈ scrapes, scrape.Valid) (jobID : Int) (hgrows : (listings scrapes jobID).Pairwise (· ⊆ ·)) :
    ∃ p, scrapes.foldlM (addMultiJobRunMetrics limit) newRunMetricsProvider = some p ∧
      (((∀ earlier later run, NewIn (listings scrapes jobID) earlier later run → p.durationPoints run = 1) ∧
          ∀ first rest, listings scrapes jobID = first :: rest → ∀ run ∈ first, p.durationPoints run = 0) ↔
        ∀ earlier later run, NewIn (listings scrapes jobID) earlier later run →
          earlier ≠ [] ∧ ∀ run' ∈ earlier, run'.startTime < run.startTime) := by
  obtain ⟨p, hp, ht⟩ := tracks_scrapes hvalid hlimit
  have hgrows : Grows jobID (listings scrapes jobID) := by
    refine ⟨fun runs hr => ?_, hgrows⟩
    simp only [listings, List.mem_map, mem_filter] at hr
    obtain ⟨scrape, ⟨hs, -⟩, rfl⟩ := hr
    exact (hvalid scrape hs).2 jobID
  have hpo (runs) (hr : runs ∈ listings scrapes jobID) (run) (hrun : run ∈ runs) :
      p.durationPoints run = (reports 0 (listings scrapes jobID)).count run := by
    rw [Provider.durationPoints, ((hgrows.1 runs hr).2 run hrun).1, (ht jobID).2]
  have hnew (earlier later run) (hnew : NewIn (listings scrapes jobID) earlier later run) :
      p.durationPoints run = 1 ↔ earlier ≠ [] ∧ ∀ run' ∈ earlier, run'.startTime < run.startTime := by
    obtain ⟨before, after, hsp⟩ := hnew.1
    rw [hpo later (by rw [hsp]; simp) run hnew.2.1]
    exact hgrows.durationPoints_new hnew
  refine ⟨p, hp, ?_⟩
  constructor
  · rintro ⟨hone, -⟩ earlier later run h
    exact (hnew earlier later run h).mp (hone earlier later run h)
  · intro hc
    refine ⟨fun earlier later run h => (hnew earlier later run h).mpr (hc earlier later run h), ?_⟩
    intro first rest hf run hrun
    rw [hpo first (by rw [hf]; simp) run hrun, hf]
    exact Grows.durationPoints_first (hf ▸ hgrows) hrun

def runAt (startTime : Int) : JobRun := ⟨42, startTime, startTime, 7, [], [⟨['t'], 3⟩]⟩

def scrapeOf (completed : List JobRun) : Scrape where
  jobIDs := [42]
  completed jobID := if jobID = 42 then completed else []

theorem valid_scrapeOf {completed : List JobRun} (h : Listed 42 completed) : (scrapeOf completed).Valid := by
  refine ⟨by simp [scrapeOf], fun jobID => ?_⟩
  unfold scrapeOf
  by_cases hjob : jobID = 42
  · subst hjob
    simpa using h
  · simp [hjob, Listed]

def inOrder : List Scrape := [scrapeOf [runAt 1], scrapeOf [runAt 2, runAt 1]]

theorem durationPoints_inOrder :
    ∃ p, inOrder.foldlM (addMultiJobRunMetrics 1) newRunMetricsProvider = some p ∧ p.durationPoints (runAt 2) = 1 ∧
      p.durationPoints (runAt 1) = 0 := by
  have hv : ∀ scrape ∈ inOrder, scrape.Valid := by
    simp only [inOrder, forall_mem_cons]
    exact ⟨valid_scrapeOf (by simp [Listed, runAt]), valid_scrapeOf (by simp [Listed, runAt]), by simp⟩
  have hl : listings inOrder 42 = [[runAt 1], [runAt 2, runAt 1]] := by decide
  obtain ⟨p, hp, hiff⟩ := durationPoints_once_iff 1 (by decide) inOrder hv 42 (by rw [hl]; simp)
  have hnew : NewIn (listings inOrder 42) [runAt 1] [runAt 2, runAt 1] (runAt 2) := by
    rw [hl]
    exact ⟨⟨[], [], rfl⟩, by decide, by decide, by decide⟩
  rw [hl] at hiff hnew
  have ho := hiff.mpr ?_
  · exact ⟨p, hp, ho.1 _ _ _ hnew, ho.2 _ _ rfl (runAt 1) (by simp)⟩
  · rintro earlier later run ⟨⟨before, after, hs⟩, hrun, he, -⟩
    obtain rfl : before = [] := by
      have hle := congrArg List.length hs
      simp only [length_append, length_cons, length_nil] at hle
      exact eq_nil_of_length_eq_zero (by omega)
    simp only [nil_append, List.cons.injEq] at hs
    obtain ⟨rfl, rfl, -⟩ := hs
    rcases mem_pair.mp hrun with rfl | rfl
    · decide
    · exact absurd (mem_singleton_self _) he

def outOfOrder : List Scrape := [scrapeOf [runAt 2], scrapeOf [runAt 2, runAt 1]]

theorem not_durationPoints_outOfOrder :
    (∀ scrape ∈ outOfOrder, scrape.Valid) ∧ (listings outOfOrder 42).Pairwise (· ⊆ ·) ∧
    NewIn (listings outOfOrder 42) [runAt 2] [runAt 2, runAt 1] (runAt 1) ∧
    ∃ p, outOfOrder.foldlM (addMultiJobRunMetrics 1) newRunMetricsProvider = some p ∧
      p.durationPoints (runAt 1) = 0 := by
  have hl : listings outOfOrder 42 = [[runAt 2], [runAt 2, runAt 1]] := by decide
  rw [hl]
  refine ⟨?_, by simp, ⟨⟨[], [], rfl⟩, by decide, by decide, by decide⟩, ?_⟩
  · simp only [outOfOrder, forall_mem_cons]
    exact ⟨valid_scrapeOf (by simp [Listed, runAt]), valid_scrapeOf (by simp [Listed, runAt]), by simp⟩
  · have hrun : (outOfOrder.foldlM (addMultiJobRunMetrics 1) newRunMetricsProvider).any
        (fun p => p.durationPoints (runAt 1) = 0) = true := by
      decide +kernel
    obtain ⟨p, hp, hz⟩ := (any_eq_true _ _).mp hrun
    exact ⟨p, hp, of_decide_eq_true hz⟩

/-! ## A server that sends a list in pages -/

section
variable {α : Type}

/-- `none` is an absent array. -/
structure Response (α : Type) where
  items : Option (List α)
  hasMore : Bool

/-- The slices of a fixed list. `absent` says at which offsets an empty slice is left out. -/
def serve (all : List α) (absent : Nat → Bool) (limit offset : Nat) : Response α :=
  let slice := (all.drop offset).take limit
  ⟨if slice.isEmpty && absent offset then none else some slice, offset + limit < all.length⟩

/-- The loop of `jobs` and `activeJobRuns` from page `i` on. -/
def allPages (request : Nat → Nat → Response α) (limit : Nat) : Nat → Nat → Option (List α)
  | 0, _ => none
  | fuel + 1, i =>
    let resp := request limit (limit * i)
    if resp.hasMore then (allPages request limit fuel (i + 1)).map (resp.items.getD [] ++ ·)
    else some (resp.items.getD [])

def jobs {Job : Type} (request : Nat → Nat → Response Job) (limit fuel : Nat) : Option (List Job) :=
  allPages request limit fuel 0

def activeJobRuns (request : Nat → Nat → Response JobRun) (limit fuel : Nat) : Option (List JobRun) :=
  allPages request limit fuel 0

inductive Fault where
  | indexOutOfRange
  | outOfFuel

/-- `CompletedJobRuns` from page `i` on. An empty array that is not absent has no last run. -/
def completedJobRunsFrom (request : Nat → Nat → Response JobRun) (limit : Nat) (prevStartTime : Int) :
    Nat → Nat → Except Fault (List JobRun)
  | 0, _ => .error .outOfFuel
  | fuel + 1, i =>
    let resp := request limit (limit * i)
    if prevStartTime = 0 then .ok (resp.items.getD [])
    else match resp.items with
      | none => .ok []
      | some runs => match runs.getLast? with
        | none => .error .indexOutOfRange
        | some run =>
          if run.startTime < prevStartTime then .ok runs
          else if resp.hasMore then (completedJobRunsFrom request limit prevStartTime fuel (i + 1)).map (runs ++ ·)
          else .ok runs

variable {all : List α} {absent : Nat → Bool} {completed : List JobRun} {limit fuel i : Nat} {prev : Int}

theorem getD_serve (offset : Nat) : (serve all absent limit offset).items.getD [] = (all.drop offset).take limit := by
  rw [serve]
  split
  · simp_all
  · rfl

theorem allPages_eq (hl : 0 < limit) (hi : limit * i ≤ all.length) (hfu : all.length < fuel + limit * i) :
    allPages (serve all absent) limit fuel i = some (all.drop (limit * i)) := by
  induction fuel generalizing i with
  | zero => omega
  | succ fuel ih =>
    rw [allPages]
    simp only [getD_serve]
    by_cases hm : limit * i + limit < all.length
    · rw [if_pos (by simpa [serve] using hm)]
      rw [ih (by rw [Nat.mul_succ]; omega) (by rw [Nat.mul_succ]; omega), map_some, Nat.mul_succ, ← drop_drop,
        take_append_drop]
    · rw [if_neg (by simpa [serve] using hm), take_of_length_le]
      rw [length_drop]
      omega

/-- Where no empty array is sent, the loop does not come to a page without a last run. -/
theorem completedJobRunsFrom_eq (hl : 0 < limit) (he : completed = [] → absent 0 = true)
    (hi : limit * i < completed.length ∨ i = 0) :
    completedJobRunsFrom (serve completed absent) limit prev fuel i =
      (completedPages completed limit prev fuel i).elim (.error .outOfFuel) .ok := by
  induction fuel generalizing i with
  | zero => rfl
  | succ fuel ih =>
    obtain ⟨slice, hs⟩ : ∃ slice, slice = (completed.drop (limit * i)).take limit := ⟨_, rfl⟩
    rw [completedJobRunsFrom, completedPages]
    simp only [completedJobRuns, serve, ← hs]
    cases slice with
    | nil =>
      have hd : completed.length ≤ limit * i := by
        rcases take_eq_nil_iff.mp hs.symm with hz | hnil
        · omega
        · exact drop_eq_nil_iff.mp hnil
      obtain rfl : i = 0 := by omega
      rw [Nat.mul_zero, he (length_eq_zero_iff.mp (by omega))]
      simp [stopsAt]
    | cons run runs =>
      have hlast : (run :: runs).getLast? = some ((run :: runs).getLast (cons_ne_nil _ _)) := getLast?_eq_some_getLast _
      simp only [isEmpty_cons, Bool.false_and, Bool.false_eq_true, if_false, stopsAt, hlast, getD_some,
        Bool.or_eq_true, decide_eq_true_eq]
      by_cases hp : prev = 0
      · simp [hp]
      · simp only [hp, if_false, false_or]
        split
        · rfl
        · split_ifs with hm
          · rw [ih (.inl (by rw [Nat.mul_succ]; omega))]
            cases completedPages completed limit prev fuel (i + 1) <;> rfl
          · rfl

/-- All loops end. The first two return the whole list, and the last one a front part with every run that has started
since `prev`, except for an empty list of runs that is sent as an array. -/
theorem paging_complete {Job : Type} (all : List Job) (active completed : List JobRun) (absent : Nat → Bool)
    (limit : Nat) (hlimit : 0 < limit) (prev : Int) (hprev : 0 < prev) (hsorted : Descending completed) :
    (jobs (serve all absent) limit (all.length + 1) = some all ∧
      activeJobRuns (serve active absent) limit (active.length + 1) = some active ∧
      ∃ out, completedJobRunsFrom (serve completed absent) limit prev (completed.length + 1) 0 = .ok out ∧
        out <+: completed ∧ ∀ run ∈ completed, prev ≤ run.startTime → run ∈ out) ↔
    (completed = [] → absent 0 = true) := by
  have hall {α : Type} (all : List α) : allPages (serve all absent) limit (all.length + 1) 0 = some all := by
    rw [allPages_eq hlimit (by simp) (by omega), Nat.mul_zero, drop_zero]
  constructor
  · rintro ⟨-, -, out, hout, -⟩ rfl
    by_contra habsent
    simp [completedJobRunsFrom, serve, habsent, show prev ≠ 0 by omega] at hout
  · intro hempty
    obtain ⟨out, hout, hpre, -, hin⟩ :=
      completedPages_spec prev (completed.length + 1) 0 hsorted hlimit (by simp) (by omega)
    rw [Nat.mul_zero, drop_zero] at hpre hin
    refine ⟨hall all, hall active, out, ?_, hpre, hin (by omega)⟩
    rw [completedJobRunsFrom_eq hlimit hempty (.inr rfl), hout]
    rfl

theorem paging_complete_two :
    ∃ out, completedJobRunsFrom (serve [runAt 2, runAt 1] fun _ => false) 1 2 3 0 = .ok out ∧ runAt 2 ∈ out := by
  obtain ⟨-, -, out, hout, -, hin⟩ := (paging_complete ([] : List Unit) [] [runAt 2, runAt 1] (fun _ => false) 1
    (by decide) 2 (by decide) (by simp [Descending, runAt])).mpr (by simp)
  exact ⟨out, hout, hin _ (by simp) (by simp [runAt])⟩

/-- A job without runs, which was tracked before. -/
theorem completedJobRuns_emptyArray :
    completedJobRunsFrom (serve [] fun _ => false) 1 2 1 0 = .error .indexOutOfRange := rfl

end

end Collector.Databricks
