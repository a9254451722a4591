import Collector.Discovery.ConsumeLogs

/-!
# The status of a receiver

It should be the best one that was ever observed. The last record of the first scope decides, for each resource.
-/

namespace Collector.Discovery

open Lib List

def observed (receiverID : ComponentID) (es : List Effect) : List Status :=
  es.flatMap fun e => if e.receiverID = receiverID then allStatuses e.scopeLogs else []

def Best (es : List Effect) : Prop :=
  ∀ receiverID, statusOf receiverID (after es).statuses = (observed receiverID es).maximum

/-- No record is better than both the status before and the last record of the first scope. -/
def KeepsBest (es : List Effect) (e : Effect) : Prop :=
  ∀ s ∈ allStatuses e.scopeLogs,
    (s : WithBot Status) ≤ max (statusOf e.receiverID (after es).statuses) (lastStatus e.scopeLogs)

theorem lastStatus_le (scopeLogs : List (List (Option Str))) :
    lastStatus scopeLogs ≤ (allStatuses scopeLogs).maximum := by
  unfold lastStatus
  cases hl : (validStatuses (scopeLogs.headD [])).getLast? with
  | none => exact bot_le
  | some s =>
    refine le_maximum_of_mem' ?_
    have hmem := mem_of_getLast? hl
    cases scopeLogs with
    | nil => simp [validStatuses] at hmem
    | cons scope scopes => exact mem_append_left _ hmem

theorem observed_append (receiverID : ComponentID) (es : List Effect) (e : Effect) :
    observed receiverID (es ++ [e]) = observed receiverID es ++ observed receiverID [e] := by
  unfold observed
  rw [flatMap_append]

theorem best_append_iff (es : List Effect) (e : Effect) (hb : Best es) : Best (es ++ [e]) ↔ KeepsBest es e := by
  unfold Best
  simp only [after_append, observed_append, maximum_append]
  have hall : observed e.receiverID [e] = allStatuses e.scopeLogs := by simp [observed]
  have hse : statusOf e.receiverID (applyEffect (after es) e).statuses =
      max (statusOf e.receiverID (after es).statuses) (lastStatus e.scopeLogs) :=
    statusOf_consumeScopes e.receiverID e.observerID e.scopeLogs (after es).statuses
  have hle := lastStatus_le e.scopeLogs
  constructor
  · intro h s hs
    have hr := h e.receiverID
    rw [hse, hall, ← hb e.receiverID] at hr
    rw [hr]
    exact le_max_of_le_right (le_maximum_of_mem' hs)
  · intro hk receiverID
    by_cases hr : receiverID = e.receiverID
    · rw [hr, hse, hall, ← hb e.receiverID]
      refine le_antisymm (max_le_max_left _ hle) (max_le (le_max_left _ _) ?_)
      exact maximum_le_of_forall_le hk
    · have ho : observed receiverID [e] = [] := by simp [observed, Ne.symm hr]
      rw [ho, maximum_nil, max_bot_right, ← hb receiverID]
      exact statusOf_consumeScopes_other e.observerID hr e.scopeLogs (after es).statuses

theorem best_nil : Best [] := fun _ => rfl

section
variable (entries : ComponentID → ComponentID → Option Tree) (decode : Str → Except Str Tree)

/-- Every receiver always has its best status just if no step overlooks a better record. Then neither the order nor
the batches of the statuses count. -/
theorem consumeAll_best_iff (lds : List (List ResourceLogs)) :
    consumeAll entries decode lds newDiscoverer = after (effects entries decode lds) ∧
    ((∀ es, es <+: effects entries decode lds → Best es) ↔
      ∀ es e, es ++ [e] <+: effects entries decode lds → KeepsBest es e) ∧
    ∀ lds', (∀ es e, es ++ [e] <+: effects entries decode lds → KeepsBest es e) →
      (∀ es e, es ++ [e] <+: effects entries decode lds' → KeepsBest es e) →
      ∀ receiverID, (∀ s, s ∈ observed receiverID (effects entries decode lds) ↔
        s ∈ observed receiverID (effects entries decode lds')) →
      statusOf receiverID (consumeAll entries decode lds newDiscoverer).statuses =
        statusOf receiverID (consumeAll entries decode lds' newDiscoverer).statuses := by
  have hb : ∀ lds, (∀ es, es <+: effects entries decode lds → Best es) ↔
      ∀ es e, es ++ [e] <+: effects entries decode lds → KeepsBest es e :=
    fun lds => forall_prefix_iff Best KeepsBest _ best_nil best_append_iff
  refine ⟨consumeAll_eq entries decode lds newDiscoverer, hb lds, ?_⟩
  intro lds' hst hst' receiverID hsa
  have h := (hb lds).mpr hst _ prefix_rfl receiverID
  have h' := (hb lds').mpr hst' _ prefix_rfl receiverID
  rw [consumeAll_eq, consumeAll_eq]
  refine h.trans (Eq.trans ?_ h'.symm)
  refine le_antisymm (maximum_mono ?_) (maximum_mono ?_)
  · exact fun s hs => (hsa s).mp hs
  · exact fun s hs => (hsa s).mpr hs

end

def redisLogs (scopeLogs : List (List (Option Str))) : ResourceLogs :=
  ⟨none, some "redis", none, some "host_observer", scopeLogs⟩

theorem consumeAll_success_lost : (consumeAll (fun _ _ => none) (fun _ => .error []) [[redisLogs
      [[some "successful", some "failed"]]]] newDiscoverer).statuses.discoveredReceivers =
        [(⟨"redis", []⟩, .failed)] ∧
    (consumeAll (fun _ _ => none) (fun _ => .error []) [[redisLogs
      [[some "failed"], [some "successful"]]]] newDiscoverer).statuses.discoveredReceivers =
        [(⟨"redis", []⟩, .failed)] := by
  decide +kernel

end Collector.Discovery
