import Collector.Value

/-!
# The datapoints of collectd

`Start` of `pkg/receiver/smartagentreceiver/receiver.go` and `receiveDPs` of `collectd.go`. A receiver stands for its
output.
-/

namespace Collector.Collectd

open Lib List

/-! ## Receivers and their monitors -/

def isWord (c : Char) : Bool :=
  c.isAlphanum || c = '_'

/-- `ReplaceAllString` of `nonWordCharacters` with the empty text. -/
def removeNonWord (s : Str) : Str :=
  s.filter isWord

structure ID where
  type : Str
  name : Str
  deriving DecidableEq

def ID.string (id : ID) : Str :=
  if id.name = [] then id.type else id.type ++ '/' :: id.name

def typeStr : Str :=
  "smartagent"

def monitorID (name : Str) : Str :=
  removeNonWord (ID.string ⟨typeStr, name⟩)

theorem monitorID_eq (name : Str) : monitorID name = typeStr ++ removeNonWord name := by
  have ht : removeNonWord typeStr = typeStr := by decide
  unfold monitorID ID.string
  by_cases hn : name = []
  · simp only [hn, if_true, ht]
    rfl
  · have hs : isWord '/' = false := by decide
    simp only [hn, if_false, removeNonWord, filter_append, filter_cons, hs]
    rw [removeNonWord] at ht
    simp [ht]

theorem monitorID_ne_nil (name : Str) : monitorID name ≠ [] := by
  rw [monitorID_eq]
  exact append_ne_nil_of_left_ne_nil (by decide) _

theorem monitorID_eq_iff (name name' : Str) :
    monitorID name = monitorID name' ↔ removeNonWord name = removeNonWord name' := by
  rw [monitorID_eq, monitorID_eq, append_cancel_left_eq]

/-! ## The active monitors -/

inductive Event where
  | configureFromMonitor (name : Str)
  | monitorDidShutdown (name : Str)
  deriving DecidableEq

def Event.name : Event → Str
  | .configureFromMonitor name | .monitorDidShutdown name => name

def Event.output : Event → Option Str
  | .configureFromMonitor name => some name
  | .monitorDidShutdown _ => none

def register (activeMonitors : List (Str × Str)) : Event → List (Str × Str)
  | .configureFromMonitor name => put (monitorID name) name activeMonitors
  | .monitorDidShutdown name =>
    match find (monitorID name) activeMonitors with
    | some _ => remove (monitorID name) activeMonitors
    | none => activeMonitors

def activeMonitors (events : List Event) : List (Str × Str) :=
  events.foldl register []

variable (active : List (Str × Str))

theorem find_register (e : Event) (id : Str) :
    find id (register active e) = if monitorID e.name = id then e.output else find id active := by
  cases e with
  | configureFromMonitor name =>
    simp only [register, Event.name, Event.output, find_put, eq_comm]
  | monitorDidShutdown name =>
    change find id (register active _) = if monitorID name = id then none else find id active
    simp only [register]
    split
    · simp only [find_remove, eq_comm]
    · rename_i hn
      by_cases heq : monitorID name = id
      · rw [if_pos heq, ← heq, hn]
      · rw [if_neg heq]

variable (events : List Event)

theorem find_activeMonitors (id : Str) :
    find id (activeMonitors events) = ((events.filter fun e => monitorID e.name = id).getLast?).bind Event.output := by
  induction events using reverseRecOn with
  | nil => rfl
  | append_singleton events e ih =>
    rw [activeMonitors, foldl_concat, find_register, filter_append]
    by_cases hid : monitorID e.name = id
    · simp [hid]
    · rw [if_neg hid, ← activeMonitors, ih]
      simp [hid]

/-! ## Sending datapoints -/

inductive MetaValue where
  | string (s : Str)
  | other
  deriving DecidableEq

structure Datapoint where
  metaData : List (Str × MetaValue)
  dimensions : List (Str × Str)
  deriving DecidableEq

/-- The monitor that a datapoint names, and the datapoint without that dimension. -/
def Datapoint.takeMonitorID (dp : Datapoint) : Str × Datapoint :=
  match find "monitorID".toList dp.metaData with
  | some (.string id) => (id, dp)
  | _ =>
    match find "monitorID".toList dp.dimensions with
    | some id =>
      if id = [] then ([], dp) else (id, { dp with dimensions := remove "monitorID" dp.dimensions })
    | none => ([], dp)

abbrev Group :=
  List (Nat × Datapoint)

def addDP (groups : List (Str × Group)) (monitorID : Str) (dp : Nat × Datapoint) : List (Str × Group) :=
  if monitorID = [] then groups else put monitorID ((find monitorID groups).getD [] ++ [dp]) groups

def dpsByMonitorID (dps : List Datapoint) : List (Str × Group) :=
  dps.zipIdx.foldl (fun groups (dp, i) => addDP groups dp.takeMonitorID.1 (i, dp.takeMonitorID.2)) []

def sendGroups (activeMonitors : List (Str × Str)) (groups : List (Str × Group)) : List (Str × Group) :=
  groups.filterMap fun (id, group) => (find id activeMonitors).map fun output => (output, group)

def deliveries (sent : List (Str × Group)) (i : Nat) : List Str :=
  (sent.filter fun s => s.2.any (·.1 = i)).map Prod.fst

def Routed (activeMonitors : List (Str × Str)) (name : Str) : Prop :=
  ∀ (dps : List Datapoint) (groups : List (Str × Group)), groups.Perm (dpsByMonitorID dps) →
    ∀ (i : Nat) (dp : Datapoint), dps[i]? = some dp → dp.takeMonitorID.1 = monitorID name →
      deliveries (sendGroups activeMonitors groups) i = [name]

/-! ### What a group holds -/

def members (dps : List Datapoint) (id : Str) : Group :=
  (dps.zipIdx.filter fun x => x.1.takeMonitorID.1 = id).map fun x => (x.2, x.1.takeMonitorID.2)

variable (dps : List Datapoint)

theorem members_concat (dp : Datapoint) (id : Str) : members (dps ++ [dp]) id =
    members dps id ++ if dp.takeMonitorID.1 = id then [(dps.length, dp.takeMonitorID.2)] else [] := by
  by_cases hid : dp.takeMonitorID.1 = id
  · simp [members, zipIdx_append, hid]
  · simp [members, zipIdx_append, hid]

theorem dpsByMonitorID_concat (dp : Datapoint) : dpsByMonitorID (dps ++ [dp]) =
    addDP (dpsByMonitorID dps) dp.takeMonitorID.1 (dps.length, dp.takeMonitorID.2) := by
  simp [dpsByMonitorID, zipIdx_append, foldl_append]

theorem nodup_keys_dpsByMonitorID : (keys (dpsByMonitorID dps)).Nodup := by
  induction dps using reverseRecOn with
  | nil => exact nodup_nil
  | append_singleton dps dp ih =>
    rw [dpsByMonitorID_concat, addDP]
    split
    · exact ih
    · exact nodup_keys_put _ _ ih

theorem find_dpsByMonitorID (id : Str) :
    find id (dpsByMonitorID dps) = if id = [] ∨ members dps id = [] then none else some (members dps id) := by
  induction dps using reverseRecOn with
  | nil => simp [dpsByMonitorID, members]
  | append_singleton dps dp ih =>
    rw [dpsByMonitorID_concat, members_concat]
    by_cases hdp : dp.takeMonitorID.1 = id
    · by_cases hid : id = []
      · rw [addDP, hdp, if_pos hid, ih, if_pos (.inl hid), if_pos (.inl hid)]
      · have hg : (find id (dpsByMonitorID dps)).getD [] = members dps id := by
          rw [ih]
          split_ifs with he
          · exact (he.resolve_left hid).symm
          · rfl
        rw [addDP, hdp, if_neg hid, find_put_self, if_pos rfl, if_neg (by simp [hid]), hg]
    · have hs : find id (addDP (dpsByMonitorID dps) dp.takeMonitorID.1 (dps.length, dp.takeMonitorID.2)) =
          find id (dpsByMonitorID dps) := by
        unfold addDP
        split
        · rfl
        · exact find_put_ne _ _ (Ne.symm hdp)
      rw [if_neg hdp, append_nil, ← ih]
      exact hs

theorem mem_members (id : Str) (i : Nat) :
    (members dps id).any (·.1 = i) = true ↔ ∃ dp, dps[i]? = some dp ∧ dp.takeMonitorID.1 = id := by
  simp only [members, any_eq_true, mem_map, mem_filter, decide_eq_true_eq]
  constructor
  · rintro ⟨x, ⟨⟨dp, j⟩, ⟨hmem, hdp⟩, rfl⟩, rfl⟩
    exact ⟨dp, mk_mem_zipIdx_iff_getElem?.mp hmem, hdp⟩
  · rintro ⟨dp, hget, hdp⟩
    exact ⟨_, ⟨(dp, i), ⟨mk_mem_zipIdx_iff_getElem?.mpr hget, hdp⟩, rfl⟩, rfl⟩

theorem deliveries_eq (groups : List (Str × Group)) (i : Nat) : deliveries (sendGroups active groups) i =
      (groups.filter fun e => e.2.any (·.1 = i)).filterMap fun e => find e.1 active := by
  induction groups with
  | nil => rfl
  | cons e groups ih =>
    simp only [deliveries, sendGroups] at ih ⊢
    cases hf : find e.1 active with
    | none => by_cases hany : e.2.any (·.1 = i) = true <;> simp [hf, hany, ih]
    | some output => by_cases hany : e.2.any (·.1 = i) = true <;> simp [hf, hany, ih]

theorem deliveries_sendGroups {dps : List Datapoint} {groups : List (Str × Group)}
    (hp : groups.Perm (dpsByMonitorID dps)) {i : Nat} {dp : Datapoint} (hget : dps[i]? = some dp)
    (hid : dp.takeMonitorID.1 ≠ []) :
    deliveries (sendGroups active groups) i = (find dp.takeMonitorID.1 active).toList := by
  have hn : (keys groups).Nodup :=
    (hp.map Prod.fst).nodup_iff.mpr (nodup_keys_dpsByMonitorID dps)
  have hf : ∀ k, find k groups = if k = [] ∨ members dps k = [] then none else some (members dps k) := by
    intro k
    rw [find_perm hp hn, find_dpsByMonitorID]
  -- the datapoint is in the group of the monitor that it names, and in no other
  have hfi : (groups.filter fun e => e.2.any (·.1 = i)) = groups.filter fun e => e.1 = dp.takeMonitorID.1 := by
    refine filter_congr fun e he => ?_
    have hg := find_of_mem hn he
    rw [hf] at hg
    split at hg
    · cases hg
    · rw [← Option.some.inj hg, Bool.eq_iff_iff, mem_members, decide_eq_true_eq]
      constructor
      · rintro ⟨dp', hget', hk⟩
        rw [hget] at hget'
        cases hget'
        exact hk.symm
      · exact fun hk => ⟨dp, hget, hk.symm⟩
  have hmem : members dps dp.takeMonitorID.1 ≠ [] := by
    intro hnil
    have hany := (mem_members dps dp.takeMonitorID.1 i).mpr ⟨dp, hget, rfl⟩
    simp [hnil] at hany
  rw [deliveries_eq, hfi, filter_key hn, hf, if_neg (by simp [hid, hmem])]
  cases ha : find dp.takeMonitorID.1 active <;> simp [ha]

theorem routed_iff_find (name : Str) : Routed active name ↔ find (monitorID name) active = some name := by
  constructor
  · intro h
    -- a datapoint that names the monitor
    let dp : Datapoint := ⟨[("monitorID", .string (monitorID name))], []⟩
    have hdp : dp.takeMonitorID.1 = monitorID name := rfl
    have hs := h [dp] _ (.refl _) 0 dp rfl hdp
    rw [deliveries_sendGroups active (.refl _) rfl (by rw [hdp]; exact monitorID_ne_nil name), hdp] at hs
    cases hf : find (monitorID name) active <;> simp_all
  · intro h dps groups hp i dp hget hdp
    rw [deliveries_sendGroups active hp hget (by rw [hdp]; exact monitorID_ne_nil name), hdp, h]
    rfl

/-! ## Which receivers get their datapoints -/

def Configured (events : List Event) (name : Str) : Prop :=
  (events.filter fun e => e.name = name).getLast? = some (.configureFromMonitor name)

/-- Of the receivers with the same word characters, this one was configured last and none has shut down since. -/
def Undisturbed (events : List Event) (name : Str) : Prop :=
  (events.filter fun e => removeNonWord e.name = removeNonWord name).getLast? = some (.configureFromMonitor name)

theorem routed_iff_undisturbed (name : Str) : Routed (activeMonitors events) name ↔ Undisturbed events name := by
  rw [routed_iff_find, find_activeMonitors, Undisturbed]
  simp only [monitorID_eq_iff]
  cases (events.filter fun e => removeNonWord e.name = removeNonWord name).getLast? with
  | none => simp
  | some e => cases e <;> simp [Event.output]

/-- All configured receivers get their datapoints, and nobody else, just if none is disturbed. -/
theorem routed_iff (events : List Event) : (∀ name, Configured events name → Routed (activeMonitors events) name) ↔
      ∀ name, Configured events name → Undisturbed events name := by
  simp only [routed_iff_undisturbed]

def sameLetters : List Event :=
  [.configureFromMonitor "a-b", .configureFromMonitor "ab"]

theorem routed_sameLetters : Configured sameLetters "a-b" ∧ ¬Routed (activeMonitors sameLetters) "a-b" := by
  refine ⟨show _ = _ by decide, ?_⟩
  rw [routed_iff_undisturbed]
  show ¬_ = _
  decide

end Collector.Collectd
