import Mathlib.Data.List.MinMax
import Mathlib.Order.Lattice
import Collector.Component
import Collector.Lib.Runs

/-!
# The discoverer as a consumer of logs

`ConsumeLogs` and `determineCurrentStatus` of `internal/confmapprovider/discovery/discoverer.go`.
-/

namespace Collector.Discovery

open Lib List

variable (receiverID : ComponentID)

/-! ## Statuses -/

inductive Status where
  | failed
  | partially
  | successful
  deriving DecidableEq

namespace Status

def rank : Status → Nat
  | .failed => 0
  | .partially => 1
  | .successful => 2

theorem rank_injective : Function.Injective rank := by
  intro a b h
  cases a <;> cases b <;> first | rfl | simp [rank] at h

instance : LinearOrder Status := LinearOrder.lift' rank rank_injective

def ofString (s : Str) : Option Status :=
  if s = "successful" then some .successful
  else if s = "partial" then some .partially
  else if s = "failed" then some .failed
  else none

theorem le_successful (s : Status) : s ≤ .successful := by
  cases s <;> decide

end Status

def determineCurrentStatus (current : Option Status) (observed : Status) : Status :=
  if current = some .successful then .successful
  else if observed = .successful then .successful
  else if current = some .partially then .partially
  else observed

theorem determineCurrentStatus_eq_max (current : WithBot Status) (observed : Status) :
    ((determineCurrentStatus current observed : Status) : WithBot Status) = max current observed := by
  cases current with
  | bot => cases observed <;> decide
  | coe current =>
    have h : determineCurrentStatus (some current) observed = max current observed := by
      cases current <;> cases observed <;> decide
    rw [← WithBot.coe_max]
    exact congrArg _ h

/-! ## The input -/

structure ResourceLogs where
  receiverName : Option Str
  receiverType : Option Str
  receiverConfig : Option Str
  observerID : Option Str
  scopeLogs : List (List (Option Str))

inductive Stop where
  | err (text : Str)
  | panic
  deriving DecidableEq

abbrev Tree := MapTree Str Value

/-! ## The code -/

structure Statuses where
  discoveredReceivers : List (ComponentID × Status)
  discoveredObservers : List (ComponentID × Status)

structure Discoverer where
  statuses : Statuses
  discoveredConfig : List (ComponentID × Tree)

def newDiscoverer : Discoverer := ⟨⟨[], []⟩, []⟩

inductive Identified where
  | skipped
  | panics
  | ids (receiverID observerID : ComponentID)

/-- The receiver and the observer of a resource. `MustNewIDWithName` panics on a bad type. -/
def identify (rlog : ResourceLogs) : Identified :=
  match rlog.receiverType with
  | none => .skipped
  | some receiverType =>
    let obsID := rlog.observerID.getD []
    let observer := if obsID = [] then .ok ⟨[], []⟩ else ComponentID.unmarshalText obsID
    match observer with
    | .error _ => .skipped
    | .ok observerID =>
      if validType receiverType then .ids ⟨receiverType, rlog.receiverName.getD []⟩ observerID
      else .panics

def ruleOf (rCfg : Tree) : Except Stop Str :=
  match rCfg.at_ ["rule"] with
  | .absent => .ok []
  | .leaf (.str rule) => .ok rule
  | _ => .error .panic

def configOf (rCfg : Tree) : Except Stop (Option Tree) :=
  match rCfg.at_ ["config"] with
  | .absent => .ok none
  | .node m => .ok (some (.node m))
  | _ => .error .panic

def embed (receiverID : ComponentID) (rule : Str) (configSection : Option Tree) (rCfg : Tree) : Except Stop Tree :=
  match rCfg.at_ ["receivers"], rCfg.at_ ["receivers", receiverID.string] with
  | .node receivers, .node rMap =>
    let rMap := if rule = [] then MapTree.node rMap else (MapTree.node rMap).set "rule" (.leaf (.str rule))
    let rMap := match configSection with
      | none => rMap
      | some c => rMap.set "config" c
    .ok (rCfg.set "receivers" ((MapTree.node receivers).set receiverID.string rMap))
  | _, _ => .error .panic

section
variable (entries : ComponentID → ComponentID → Option Tree) (decode : Str → Except Str Tree)

/-- What a resource assigns to `discoveredConfig[receiverID]`, in order, and whether it stops there. `decode` is
base64 and YAML. -/
def readConfig (receiverID observerID : ComponentID) (receiverConfig : Str) : List Tree × Option Stop :=
  let embedded (rule : Str) (configSection : Option Tree) : Except Stop (List Tree) :=
    if receiverConfig = [] then .ok []
    else
      match decode receiverConfig with
      | .error e => .error (.err e)
      | .ok rCfg => (embed receiverID rule configSection rCfg).map fun t => [t]
  match entries receiverID observerID with
  | none =>
    match embedded [] none with
    | .error stop => ([], some stop)
    | .ok ts => (ts, none)
  | some rCfg =>
    match ruleOf rCfg, configOf rCfg with
    | .ok rule, .ok configSection =>
      match embedded rule configSection with
      | .error stop => ([rCfg], some stop)
      | .ok ts => (rCfg :: ts, none)
    | _, _ => ([], some .panic)

end

def consumeRecord (receiverID observerID : ComponentID)
    (currentReceiverStatus currentObserverStatus : Option Status) (d : Statuses)
    (statusAttr : Option Str) : Statuses :=
  if currentReceiverStatus ≠ some .successful ∨ currentObserverStatus ≠ some .successful then
    match statusAttr.bind Status.ofString with
    | none => d
    | some rStatus =>
      ⟨put receiverID (determineCurrentStatus currentReceiverStatus rStatus) d.discoveredReceivers,
        put observerID (determineCurrentStatus currentObserverStatus rStatus) d.discoveredObservers⟩
  else d

/-- The loops over the scopes and their records. Each round reads the records of the first scope. -/
def consumeScopes (receiverID observerID : ComponentID) (scopeLogs : List (List (Option Str)))
    (d : Statuses) : Statuses :=
  let currentReceiverStatus := find receiverID d.discoveredReceivers
  let currentObserverStatus := find observerID d.discoveredObservers
  scopeLogs.foldl (fun d _ => (scopeLogs.headD []).foldl
    (consumeRecord receiverID observerID currentReceiverStatus currentObserverStatus) d) d

section
variable (entries : ComponentID → ComponentID → Option Tree) (decode : Str → Except Str Tree)

def consumeResource (d : Discoverer) (rlog : ResourceLogs) : Discoverer × Option Stop :=
  match identify rlog with
  | .skipped => (d, none)
  | .panics => (d, some .panic)
  | .ids receiverID observerID =>
    match readConfig entries decode receiverID observerID (rlog.receiverConfig.getD []) with
    | (rCfgs, stop) =>
      let discoveredConfig := rCfgs.foldl (fun m rCfg => put receiverID rCfg m) d.discoveredConfig
      match stop with
      | some stop => (⟨d.statuses, discoveredConfig⟩, some stop)
      | none =>
        (⟨consumeScopes receiverID observerID rlog.scopeLogs d.statuses, discoveredConfig⟩, none)

def consumeResources : List ResourceLogs → Discoverer → Discoverer × Option Stop
  | [], d => (d, none)
  | rlog :: rlogs, d =>
    match consumeResource entries decode d rlog with
    | (d, none) => consumeResources rlogs d
    | (d, some stop) => (d, some stop)

def consumeLogs (ld : List ResourceLogs) (d : Discoverer) : Discoverer × Option Stop :=
  if ld.all fun rlog => rlog.scopeLogs.all List.isEmpty then (d, none)
  else consumeResources entries decode ld d

/-- A sequence of batches. A batch that fails leaves what it has done; a panic ends the run. -/
def consumeAll : List (List ResourceLogs) → Discoverer → Discoverer
  | [], d => d
  | ld :: lds, d =>
    match consumeLogs entries decode ld d with
    | (d, some .panic) => d
    | (d, _) => consumeAll lds d

end

/-! ## A run as its effects -/

structure Effect where
  receiverID : ComponentID
  observerID : ComponentID
  rCfgs : List Tree
  scopeLogs : List (List (Option Str))

def applyEffect (d : Discoverer) (e : Effect) : Discoverer :=
  ⟨consumeScopes e.receiverID e.observerID e.scopeLogs d.statuses,
    e.rCfgs.foldl (fun m rCfg => put e.receiverID rCfg m) d.discoveredConfig⟩

def after (es : List Effect) : Discoverer := es.foldl applyEffect newDiscoverer

theorem after_append (es : List Effect) (e : Effect) : after (es ++ [e]) = applyEffect (after es) e := by
  unfold after
  rw [foldl_concat]

section
variable (entries : ComponentID → ComponentID → Option Tree) (decode : Str → Except Str Tree)

def resourceEffects (rlog : ResourceLogs) : List Effect × Option Stop :=
  match identify rlog with
  | .skipped => ([], none)
  | .panics => ([], some .panic)
  | .ids receiverID observerID =>
    match readConfig entries decode receiverID observerID (rlog.receiverConfig.getD []) with
    -- A resource that stops has assigned its configurations, but its records are not read.
    | (rCfgs, some stop) => ([⟨receiverID, observerID, rCfgs, []⟩], some stop)
    | (rCfgs, none) => ([⟨receiverID, observerID, rCfgs, rlog.scopeLogs⟩], none)

def batchEffects : List ResourceLogs → List Effect × Option Stop
  | [] => ([], none)
  | rlog :: rlogs =>
    match resourceEffects entries decode rlog with
    | (es, none) => (es ++ (batchEffects rlogs).1, (batchEffects rlogs).2)
    | (es, some stop) => (es, some stop)

def effects : List (List ResourceLogs) → List Effect
  | [] => []
  | ld :: lds =>
    if ld.all fun rlog => rlog.scopeLogs.all List.isEmpty then effects lds
    else
      match batchEffects entries decode ld with
      | (es, some .panic) => es
      | (es, _) => es ++ effects lds

theorem consumeResource_eq (d : Discoverer) (rlog : ResourceLogs) : consumeResource entries decode d rlog =
      ((resourceEffects entries decode rlog).1.foldl applyEffect d, (resourceEffects entries decode rlog).2) := by
  unfold consumeResource resourceEffects
  split
  · rfl
  · rfl
  · rename_i receiverID observerID _
    rcases readConfig entries decode receiverID observerID (rlog.receiverConfig.getD []) with
      ⟨rCfgs, stop⟩
    cases stop <;> rfl

theorem consumeResources_eq (rlogs : List ResourceLogs) (d : Discoverer) : consumeResources entries decode rlogs d =
      ((batchEffects entries decode rlogs).1.foldl applyEffect d, (batchEffects entries decode rlogs).2) := by
  induction rlogs generalizing d with
  | nil => rfl
  | cons rlog rlogs ih =>
    unfold consumeResources batchEffects
    rw [consumeResource_eq]
    rcases resourceEffects entries decode rlog with ⟨es, stop⟩
    cases stop with
    | none =>
      dsimp only
      rw [ih, foldl_append]
    | some stop => rfl

theorem consumeAll_eq (lds : List (List ResourceLogs)) (d : Discoverer) :
    consumeAll entries decode lds d = (effects entries decode lds).foldl applyEffect d := by
  induction lds generalizing d with
  | nil => rfl
  | cons ld lds ih =>
    unfold consumeAll consumeLogs effects
    by_cases he : ld.all fun rlog => rlog.scopeLogs.all isEmpty
    · rw [if_pos he, if_pos he]
      exact ih d
    · rw [if_neg he, if_neg he, consumeResources_eq]
      rcases batchEffects entries decode ld with ⟨es, stop⟩
      match stop with
      | some .panic => rfl
      | some (.err text) =>
        dsimp only
        rw [ih, foldl_append]
      | none =>
        dsimp only
        rw [ih, foldl_append]

end

/-! ## What one resource does to the statuses -/

def validStatuses (scope : List (Option Str)) : List Status :=
  scope.filterMap fun statusAttr => statusAttr.bind Status.ofString

def allStatuses (scopeLogs : List (List (Option Str))) : List Status := scopeLogs.flatMap validStatuses

def statusOf (receiverID : ComponentID) (d : Statuses) : WithBot Status :=
  find receiverID d.discoveredReceivers

def lastStatus (scopeLogs : List (List (Option Str))) : WithBot Status :=
  (validStatuses (scopeLogs.headD [])).getLast?

variable (observerID : ComponentID)

theorem consumeRecords_status {cr co : Option Status}
    (hg : cr ≠ some .successful ∨ co ≠ some .successful) (scope : List (Option Str)) (d : Statuses) :
    find receiverID (scope.foldl (consumeRecord receiverID observerID cr co) d).discoveredReceivers =
      match (validStatuses scope).getLast? with
      | none => find receiverID d.discoveredReceivers
      | some s => some (determineCurrentStatus cr s) := by
  induction scope using reverseRecOn with
  | nil => rfl
  | append_singleton scope a ih =>
    rw [foldl_concat, consumeRecord, if_pos hg]
    unfold validStatuses at ih ⊢
    rw [filterMap_append]
    cases hs : a.bind Status.ofString with
    | none => simpa [hs] using ih
    | some s => simp [hs]

theorem consumeRecords_gated (scope : List (Option Str)) (d : Statuses) :
    scope.foldl (consumeRecord receiverID observerID (some .successful) (some .successful)) d = d := by
  induction scope generalizing d with
  | nil => rfl
  | cons a scope ih =>
    rw [foldl_cons, ih, consumeRecord]
    simp

theorem consumeRounds_status {cr co : Option Status}
    (hg : cr ≠ some .successful ∨ co ≠ some .successful) (scope : List (Option Str))
    (rounds : List (List (Option Str))) (d : Statuses) :
    find receiverID (rounds.foldl (fun d _ =>
        scope.foldl (consumeRecord receiverID observerID cr co) d) d).discoveredReceivers =
      match rounds, (validStatuses scope).getLast? with
      | _ :: _, some s => some (determineCurrentStatus cr s)
      | _, _ => find receiverID d.discoveredReceivers := by
  induction rounds using reverseRecOn with
  | nil => rfl
  | append_singleton rounds round ih =>
    rw [foldl_concat, consumeRecords_status receiverID observerID hg scope, ih]
    cases (validStatuses scope).getLast? <;> cases rounds <;> rfl

theorem statusOf_consumeScopes (scopeLogs : List (List (Option Str))) (d : Statuses) :
    statusOf receiverID (consumeScopes receiverID observerID scopeLogs d) =
      max (statusOf receiverID d) (lastStatus scopeLogs) := by
  unfold statusOf consumeScopes
  dsimp only
  by_cases hg : find receiverID d.discoveredReceivers ≠ some .successful ∨
      find observerID d.discoveredObservers ≠ some .successful
  · rw [consumeRounds_status receiverID observerID hg]
    cases scopeLogs with
    | nil => exact (max_bot_right _).symm
    | cons scope scopes =>
      unfold lastStatus
      rw [headD_cons]
      cases (validStatuses scope).getLast? with
      | none => exact (max_bot_right _).symm
      | some s => exact determineCurrentStatus_eq_max _ s
  · -- Receiver and observer are successful, so the records are not looked at.
    have hr : find receiverID d.discoveredReceivers = some .successful := by
      by_contra hr; exact hg (Or.inl hr)
    have ho : find observerID d.discoveredObservers = some .successful := by
      by_contra ho; exact hg (Or.inr ho)
    have hs : ∀ rounds : List (List (Option Str)), rounds.foldl (fun d _ =>
        (scopeLogs.headD []).foldl (consumeRecord receiverID observerID (some .successful)
          (some .successful)) d) d = d := by
      intro rounds
      induction rounds with
      | nil => rfl
      | cons round rounds ih => rw [foldl_cons, consumeRecords_gated, ih]
    rw [hr, ho, hs, hr]
    have hle : lastStatus scopeLogs ≤ ((Status.successful : Status) : WithBot Status) := by
      cases lastStatus scopeLogs with
      | bot => exact bot_le
      | coe s => exact WithBot.coe_le_coe.mpr s.le_successful
    exact (max_eq_left hle).symm

theorem consumeScopes_related (rel : Statuses → Statuses → Prop) (refl : ∀ d, rel d d)
    (trans : ∀ a b c, rel a b → rel b c → rel a c) {receiverID observerID : ComponentID}
    (h : ∀ cr co d a, rel d (consumeRecord receiverID observerID cr co d a))
    (scopeLogs : List (List (Option Str))) (d : Statuses) :
    rel d (consumeScopes receiverID observerID scopeLogs d) := by
  unfold consumeScopes
  refine foldl_related rel refl trans _ (fun d _ => ?_) scopeLogs d
  exact foldl_related rel refl trans _ (h _ _) _ d

theorem statusOf_consumeScopes_other {receiverID r : ComponentID} (hr : r ≠ receiverID)
    (scopeLogs : List (List (Option Str))) (d : Statuses) :
    statusOf r (consumeScopes receiverID observerID scopeLogs d) = statusOf r d := by
  refine consumeScopes_related (fun d d' => statusOf r d' = statusOf r d) (fun _ => rfl)
    (fun _ _ _ h h' => h'.trans h) ?_ scopeLogs d
  intro cr co d a
  unfold consumeRecord
  split
  · split
    · rfl
    · exact find_put_ne _ _ hr
  · rfl

/-- No run of batches takes a status back, also not where one of them fails or panics. -/
theorem le_statusOf_consumeAll (entries : ComponentID → ComponentID → Option Tree) (decode : Str → Except Str Tree)
    (lds : List (List ResourceLogs)) (d : Discoverer) (r : ComponentID) :
    statusOf r d.statuses ≤ statusOf r (consumeAll entries decode lds d).statuses := by
  rw [consumeAll_eq]
  refine foldl_related (fun d d' => statusOf r d.statuses ≤ statusOf r d'.statuses) (fun _ => le_rfl)
    (fun _ _ _ => le_trans) applyEffect (fun d e => ?_) _ d
  by_cases hr : r = e.receiverID
  · subst hr
    exact (le_max_left _ _).trans_eq (statusOf_consumeScopes _ _ _ _).symm
  · exact (statusOf_consumeScopes_other _ hr _ _).ge

end Collector.Discovery
