import Collector.DiscoveryReceiver.CorrelationStore

/-!
# The correlations of an endpoint agree

`GetOrCreate` copies the no-type correlation after it has given the lock of the endpoint back. An update between the
copy and its `Store` is lost for the new correlation.
-/

namespace Collector.DiscoveryReceiver

open Option Function

variable {Details : Type}
variable {e : Str} {pc : Pc Details} {m t : Nat} {r : ComponentID} {s s' : Store Details}

/-! ## What a thread has in its hands -/

def Pc.holds : Pc Details → Option Str
  | .updateLoadOrStore u | .updateStore u _ | .updateRange u _ | .updateUnlock u => some u.endpoint.id
  | .getLoadOrStore _ e | .getStoreNoType _ e _ | .getLockReceiver _ e _ | .getUnlock _ e _ => some e
  | .reapLoad _ e _ | .reapDelete _ e | .reapUnlock _ e => some e
  | _ => none

def Pc.writes : Pc Details → Option (Str × Nat)
  | .updateStore u m | .updateRange u m => some (u.endpoint.id, m)
  | .getStoreNoType _ e m => some (e, m)
  | _ => none

def Pc.creates : Pc Details → Option Nat
  | .updateStore _ m | .getStoreNoType _ _ m => some m
  | _ => none

def Pc.reads : Pc Details → Option Nat
  | .getLockReceiver _ _ m | .getUnlock _ _ m | .getLoad _ m | .getLoadNoType _ m | .getCopy _ m
  | .getStore _ m _ => some m
  | _ => none

theorem writes_holds (h : pc.writes = some (e, m)) : pc.holds = some e := by
  cases pc <;> simp_all [Pc.writes, Pc.holds]

theorem creates_writes (h : pc.creates = some m) : ∃ e, pc.writes = some (e, m) := by
  cases pc <;> simp_all [Pc.creates, Pc.writes]

structure Inv (s : Store Details) : Prop where
  fresh : ∀ m, s.nextMap ≤ m → ∀ r, s.maps m r = none
  allocated : ∀ e m, s.correlations e = some m → m < s.nextMap
  injective : ∀ e e' m, s.correlations e = some m → s.correlations e' = some m → e = e'
  read : ∀ t m, (s.threads t).reads = some m → m < s.nextMap
  locked : ∀ t e, (s.threads t).holds = some e → s.endpointLocks e = some t
  current : ∀ t e m, (s.threads t).writes = some (e, m) → s.correlations e = some m
  created : ∀ t m, (s.threads t).creates = some m → (∀ r, s.maps m r = none) ∧ ∀ t', (s.threads t').reads ≠ some m
  agree : Agree s
  copied : ∀ t r m c, s.threads t = .getStore r m c → ∀ e, s.correlations e = some m → c.info = latest e s.log

theorem inv_newCorrelationStore : Inv (newCorrelationStore : Store Details) where
  fresh := fun _ _ _ => rfl
  allocated := fun _ _ h => by cases h
  injective := fun _ _ _ h => by cases h
  read := fun _ _ h => by cases h
  locked := fun _ _ h => by cases h
  current := fun _ _ _ h => by cases h
  created := fun _ _ h => by cases h
  agree := fun _ _ h => by cases h
  copied := fun _ _ _ _ h => by cases h

/-! ## The latest update -/

theorem latest_updated (e : Str) (log : List (Event Details)) (u : Update Details) :
    latest e (log ++ [.updated u]) = if u.endpoint.id = e then u.info else latest e log := by
  unfold latest
  rw [List.foldl_concat]

theorem latest_created (e e' : Str) (log : List (Event Details)) :
    latest e (log ++ [.created e']) = if e' = e then newCorrelation.info else latest e log := by
  unfold latest
  rw [List.foldl_concat]

/-! ## Single operations -/

theorem forall_goto (s : Store Details) (t : Nat) (pc : Pc Details) (P : Nat → Pc Details → Prop)
    (hs : P t pc) (ho : ∀ t', t' ≠ t → P t' (s.threads t')) (t' : Nat) :
    P t' ((s.goto t pc).threads t') :=
  (forall_update_iff s.threads P).mpr ⟨hs, ho⟩ t'

namespace Inv
variable {s : Store Details} (h : Inv s)
include h

theorem goto (t : Nat) (pc : Pc Details)
    (hr : ∀ m, pc.reads = some m → m < s.nextMap ∧ ∀ t', t' ≠ t → (s.threads t').creates ≠ some m)
    (hl : ∀ e, pc.holds = some e → s.endpointLocks e = some t)
    (hc : ∀ e m, pc.writes = some (e, m) → s.correlations e = some m)
    (hcr : ∀ m, pc.creates = some m → pc.reads ≠ some m ∧
      (∀ r, s.maps m r = none) ∧ ∀ t', t' ≠ t → (s.threads t').reads ≠ some m)
    (hco : ∀ r m c, pc = .getStore r m c → ∀ e, s.correlations e = some m → c.info = latest e s.log) :
    Inv (s.goto t pc) where
  fresh := h.fresh
  allocated := h.allocated
  injective := h.injective
  read t' m := forall_goto s t pc (fun _ pc => pc.reads = some m → m < s.nextMap)
    (fun hm => (hr m hm).1) (fun t' _ => h.read t' m) t'
  locked t' e := forall_goto s t pc (fun t' pc => pc.holds = some e → s.endpointLocks e = some t')
    (hl e) (fun t' _ => h.locked t' e) t'
  current t' e m := forall_goto s t pc (fun _ pc => pc.writes = some (e, m) → s.correlations e = some m)
    (hc e m) (fun t' _ => h.current t' e m) t'
  created t' m := by
    refine forall_goto s t pc (fun _ pc' => pc'.creates = some m →
      (∀ r, s.maps m r = none) ∧ ∀ t', ((s.goto t pc).threads t').reads ≠ some m) ?_ ?_ t'
    · intro hm
      obtain ⟨hs, he, ho⟩ := hcr m hm
      exact ⟨he, forall_goto s t pc (fun _ pc => pc.reads ≠ some m) hs ho⟩
    · intro t' ht hm
      obtain ⟨he, ho⟩ := h.created t' m hm
      refine ⟨he, forall_goto s t pc (fun _ pc => pc.reads ≠ some m) ?_ fun t'' _ => ho t''⟩
      intro hpc
      exact (hr m hpc).2 t' ht hm
  agree := h.agree
  copied t' r m c := forall_goto s t pc (fun _ pc => pc = .getStore r m c →
    ∀ e, s.correlations e = some m → c.info = latest e s.log) (hco r m c) (fun t' _ => h.copied t' r m c) t'

theorem goto_free (t : Nat) (pc : Pc Details) (hr : pc.reads = none)
    (hh : pc.holds = none) (hw : pc.writes = none) (hc : pc.creates = none) :
    Inv (s.goto t pc) := by
  refine h.goto t pc ?_ ?_ ?_ ?_ ?_
  · simp [hr]
  · simp [hh]
  · simp [hw]
  · simp [hc]
  · rintro r m c rfl
    cases hr

theorem goto_held (hl : s.endpointLocks e = some t) (hh : pc.holds = some e) (hr : pc.reads = none)
    (hw : pc.writes = none) (hc : pc.creates = none) : Inv (s.goto t pc) := by
  refine h.goto t pc (by simp [hr]) ?_ (by simp [hw]) (by simp [hc]) ?_
  · intro e' he'
    cases hh.symm.trans he'
    exact hl
  · rintro r m c rfl
    cases hr

theorem locks {locks : Str → Option Nat}
    (hl : ∀ t e, (s.threads t).holds = some e → locks e = s.endpointLocks e) : Inv { s with endpointLocks := locks } :=
  { h with locked := fun t e hh => (hl t e hh).trans (h.locked t e hh) }

theorem lock (e : Str) (t : Nat) (hf : s.endpointLocks e = none) :
    Inv { s with endpointLocks := update s.endpointLocks e (some t) } := by
  refine h.locks fun t' e' hh => update_of_ne ?_ ..
  rintro rfl
  have hl := h.locked t' e' hh
  rw [hf] at hl
  cases hl

theorem unlock (e : Str) (hn : ∀ t, (s.threads t).holds ≠ some e) : Inv (s.unlockEndpoint e) := by
  refine h.locks fun t e' hh => update_of_ne ?_ ..
  rintro rfl
  exact hn t hh

theorem receivers (locks : ComponentID → Option Nat) : Inv { s with receiverLocks := locks } :=
  { h with }

theorem tick (now : Nat) : Inv { s with now := now } := { h with }

theorem allocate (e : Str) (hnew : s.correlations e = none) : Inv (s.allocate e) := by
  have hca : ∀ e' m, update s.correlations e (some s.nextMap) e' = some m →
      (e' = e ∧ m = s.nextMap) ∨ (e' ≠ e ∧ s.correlations e' = some m) := by
    intro e' m hm
    by_cases he : e' = e
    · subst he
      rw [update_self] at hm
      exact Or.inl ⟨rfl, (some.inj hm).symm⟩
    · rw [update_of_ne he] at hm
      exact Or.inr ⟨he, hm⟩
  refine ⟨?_, ?_, ?_, ?_, h.locked, ?_, h.created, ?_, ?_⟩
  · intro m hm
    exact h.fresh m (Nat.le_of_succ_le hm)
  · intro e' m hm
    rcases hca e' m hm with ⟨-, rfl⟩ | ⟨-, hm⟩
    · exact Nat.lt_succ_self _
    · exact Nat.lt_succ_of_lt (h.allocated e' m hm)
  · intro e₁ e₂ m h₁ h₂
    rcases hca e₁ m h₁ with ⟨he₁, hm₁⟩ | ⟨-, hold₁⟩
    · rcases hca e₂ m h₂ with ⟨he₂, -⟩ | ⟨-, hold₂⟩
      · rw [he₁, he₂]
      · exact absurd (h.allocated e₂ m hold₂) (by omega)
    · rcases hca e₂ m h₂ with ⟨-, hm₂⟩ | ⟨-, hold₂⟩
      · exact absurd (h.allocated e₁ m hold₁) (by omega)
      · exact h.injective e₁ e₂ m hold₁ hold₂
  · intro t m hm
    exact Nat.lt_succ_of_lt (h.read t m hm)
  · intro t e' m hm
    have hcu := h.current t e' m hm
    have hne : e' ≠ e := by
      rintro rfl
      rw [hnew] at hcu
      cases hcu
    exact (update_of_ne hne ..).trans hcu
  · intro e' m hm r c hc
    rcases hca e' m hm with ⟨-, rfl⟩ | ⟨-, hm⟩
    · exact absurd ((h.fresh _ (Nat.le_refl _) r).symm.trans hc) (by simp)
    · exact h.agree e' m hm r c hc
  · intro t r m c ht e' hm
    rcases hca e' m hm with ⟨-, rfl⟩ | ⟨-, hm⟩
    · have hr := h.read t s.nextMap (congrArg Pc.reads ht)
      exact absurd hr (Nat.lt_irrefl _)
    · exact h.copied t r m c ht e' hm

/-- New contents for the map `m` and a log that says the same about the endpoints of the other maps. -/
theorem setMap {f : ComponentID → Option (Correlation Details)} {log : List (Event Details)}
    (hm : m < s.nextMap) (hcr : ∀ t, (s.threads t).creates = some m → ∀ r, f r = none)
    (hlog : ∀ e m', s.correlations e = some m' → m' ≠ m → latest e log = latest e s.log)
    (hag : ∀ e, s.correlations e = some m → ∀ r c, f r = some c → c.info = latest e log)
    (hco : ∀ e, s.correlations e = some m → ∀ t r c, s.threads t = .getStore r m c → c.info = latest e log) :
    Inv { s with maps := update s.maps m f, log := log } := by
  refine { h with fresh := ?_, created := ?_, agree := ?_, copied := ?_ }
  · intro m' hm' r
    have hne : m' ≠ m := Nat.ne_of_gt (Nat.lt_of_lt_of_le hm hm')
    exact (congrFun (update_of_ne hne ..) r).trans (h.fresh m' hm' r)
  · intro t m' hm'
    refine ⟨fun r => ?_, (h.created t m' hm').2⟩
    by_cases hmm : m' = m
    · subst hmm
      exact (congrFun (update_self ..) r).trans (hcr t hm' r)
    · exact (congrFun (update_of_ne hmm ..) r).trans ((h.created t m' hm').1 r)
  · intro e m' hm' r c hc
    by_cases hmm : m' = m
    · subst hmm
      exact hag e hm' r c ((congrFun (update_self ..) r).symm.trans hc)
    · have hc := (congrFun (update_of_ne hmm ..) r).symm.trans hc
      exact (h.agree e m' hm' r c hc).trans (hlog e m' hm' hmm).symm
  · intro t r m' c ht e hm'
    by_cases hmm : m' = m
    · subst hmm
      exact hco e hm' t r c ht
    · exact (h.copied t r m' c ht e hm').trans (hlog e m' hm' hmm).symm

section
variable {log : List (Event Details)} {i : Info Details} {e' : Str}

omit h in
theorem latest_other (hcu : s.correlations e = some m)
    (hl : ∀ e', latest e' log = if e = e' then i else latest e' s.log) {m' : Nat}
    (hm' : s.correlations e' = some m') (hne : m' ≠ m) : latest e' log = latest e' s.log := by
  rw [hl, if_neg]
  rintro rfl
  rw [hcu] at hm'
  exact hne (some.inj hm').symm

theorem latest_own (hcu : s.correlations e = some m)
    (hl : ∀ e', latest e' log = if e = e' then i else latest e' s.log)
    (hm : s.correlations e' = some m) : latest e' log = i :=
  (hl e').trans (if_pos (h.injective e e' m hcu hm))

end

variable {c : Correlation Details}

theorem first {ev : Event Details} (hcu : s.correlations e = some m) (hem : ∀ r, s.maps m r = none)
    (hre : ∀ t, (s.threads t).reads ≠ some m) (hcr : ∀ t, (s.threads t).creates ≠ some m)
    (hl : ∀ e', latest e' (s.log ++ [ev]) = if e = e' then c.info else latest e' s.log) :
    Inv ((s.put m noType c).record ev) := by
  refine h.setMap (h.allocated e m hcu) (fun t ht => absurd ht (hcr t)) (fun _ _ => latest_other hcu hl) ?_ ?_
  · intro e' hm' r c' hc'
    refine Eq.trans ?_ (h.latest_own hcu hl hm').symm
    by_cases hr : r = noType
    · rw [hr, update_self] at hc'
      cases hc'
      rfl
    · rw [update_of_ne hr, hem r] at hc'
      cases hc'
  · intro e' hm' t r c' ht
    exact absurd (congrArg Pc.reads ht) (hre t)

theorem updateAll {u : Update Details} (hcu : s.correlations u.endpoint.id = some m)
    (hco : ∀ t r c, s.threads t = .getStore r m c → c.info = u.info) :
    Inv ((s.updateAll m u).record (.updated u)) := by
  have hl := fun e' => latest_updated e' s.log u
  refine h.setMap (h.allocated _ m hcu) ?_ (fun _ _ => latest_other hcu hl) ?_ ?_
  · intro t ht r
    rw [(h.created t m ht).1 r]
    rfl
  · intro e' hm' r c' hc'
    obtain ⟨c, -, rfl⟩ := map_eq_some_iff.mp hc'
    exact (h.latest_own hcu hl hm').symm
  · intro e' hm' t r c ht
    exact (hco t r c ht).trans (h.latest_own hcu hl hm').symm

theorem putCopy (hm : m < s.nextMap) (hcr : ∀ t, (s.threads t).creates ≠ some m)
    (hco : ∀ e, s.correlations e = some m → c.info = latest e s.log) : Inv (s.put m r c) := by
  refine h.setMap hm (fun t ht => absurd ht (hcr t)) (fun _ _ _ _ => rfl) ?_ ?_
  · intro e hm' r' c' hc'
    by_cases hr : r' = r
    · rw [hr, update_self] at hc'
      cases hc'
      exact hco e hm'
    · rw [update_of_ne hr] at hc'
      exact h.agree e m hm' r' c' hc'
  · exact fun e hm' t r c ht => h.copied t r m c ht e hm'

theorem delete (e : Str) (hn : ∀ t, (s.threads t).holds ≠ some e) : Inv (s.delete e) := by
  have hold : ∀ e' m, (s.delete e).correlations e' = some m → s.correlations e' = some m := by
    intro e' m hm
    by_cases he : e' = e
    · subst he
      have : (s.delete e').correlations e' = none := update_self ..
      rw [this] at hm
      cases hm
    · exact (update_of_ne he ..).symm.trans hm
  refine ⟨h.fresh, fun e' m hm => h.allocated e' m (hold e' m hm), ?_, h.read, h.locked, ?_, h.created, ?_, ?_⟩
  · intro e₁ e₂ m h₁ h₂
    exact h.injective e₁ e₂ m (hold e₁ m h₁) (hold e₂ m h₂)
  · intro t e' m hm
    have hne : e' ≠ e := by
      rintro rfl
      exact hn t (writes_holds hm)
    exact (update_of_ne hne ..).trans (h.current t e' m hm)
  · intro e' m hm
    exact h.agree e' m (hold e' m hm)
  · intro t r m c ht e' hm
    exact h.copied t r m c ht e' (hold e' m hm)

/-! ## Who else may be there -/

theorem idle (t : Nat) : Inv (s.goto t .idle) := h.goto_free t .idle rfl rfl rfl rfl

section

variable (ht : (s.threads t).holds = some e)
include ht

theorem holds_unique {t' : Nat} (ht' : (s.threads t').holds = some e) : t' = t := by
  have hl := h.locked t e ht
  rw [h.locked t' e ht'] at hl
  exact some.inj hl

theorem holder (hpc : pc.holds = some e) {e' : Str} (he' : pc.holds = some e') : s.endpointLocks e' = some t := by
  rw [hpc] at he'
  cases he'
  exact h.locked t e ht

theorem alone (t' : Nat) : ((s.goto t .idle).threads t').holds ≠ some e := by
  refine forall_goto s t .idle (fun _ pc => pc.holds ≠ some e) (by simp [Pc.holds]) ?_ t'
  intro t' hne ht'
  exact hne (h.holds_unique ht ht')

theorem not_created (hm : s.correlations e = some m) (t' : Nat) (hne : t' ≠ t) : (s.threads t').creates ≠ some m := by
  intro hc
  obtain ⟨e', hw⟩ := creates_writes hc
  have he : e' = e := h.injective e' e m (h.current t' e' m hw) hm
  subst he
  exact hne (h.holds_unique ht (writes_holds hw))

end

theorem reader (ht : (s.threads t).reads = some m) :
    m < s.nextMap ∧ ∀ t', (s.threads t').creates ≠ some m := by
  refine ⟨h.read t m ht, fun t' hc => ?_⟩
  exact (h.created t' m hc).2 t ht

end Inv

/-! ## Steps -/

theorem goto_goto (s : Store Details) (t : Nat) (pc pc' : Pc Details) : (s.goto t pc).goto t pc' = s.goto t pc' := by
  unfold Store.goto
  rw [update_idem]

section
variable {ttl : Nat} {s s' : Store Details} {t : Nat}

/-- The step is no update while a copy that says something else waits to be stored. -/
def Undisturbed (s : Store Details) : Action Details → Prop
  | .step t => ∀ u m, s.threads t = .updateRange u m →
      ∀ t' r c, s.threads t' = .getStore r m c → c.info = u.info
  | _ => True

variable (h : Inv s)
include h

theorem inv_lock (hh : pc.holds = some e)
    (hr : pc.reads = none) (hw : pc.writes = none) (hc : pc.creates = none)
    (hs : (s.lockEndpoint e t).map (fun s => s.goto t pc) = some s') : Inv s' := by
  obtain ⟨s₁, hl, rfl⟩ := map_eq_some_iff.mp hs
  unfold Store.lockEndpoint at hl
  cases hf : s.endpointLocks e with
  | some _ =>
    rw [hf] at hl
    cases hl
  | none =>
    rw [hf] at hl
    cases hl
    exact (h.lock e t hf).goto_held (update_self ..) hh hr hw hc

theorem inv_unlock (hhe : (s.threads t).holds = some e)
    (hh : pc.holds = none) (hw : pc.writes = none) (hc : pc.creates = none)
    (hr : ∀ m, pc.reads = some m → (s.threads t).reads = some m) (hs : ∀ r m c, pc ≠ .getStore r m c) :
    Inv ((s.unlockEndpoint e).goto t pc) := by
  rw [← goto_goto _ t .idle]
  refine ((h.idle t).unlock e (h.alone hhe)).goto t pc ?_ (by simp [hh]) (by simp [hw]) (by simp [hc]) ?_
  · intro m hm
    obtain ⟨hlt, ho⟩ := h.reader (hr m hm)
    refine ⟨hlt, fun t' hne => ?_⟩
    exact forall_goto s t .idle (fun _ pc => pc.creates ≠ some m) (by simp [Pc.creates]) (fun t' _ => ho t') t'
  · intro r m c hpc
    exact absurd hpc (hs r m c)

theorem inv_loadOrStore (found made : Nat → Pc Details) (hhe : (s.threads t).holds = some e)
    (hf : ∀ m, s.correlations e = some m → Inv (s.goto t (found m))) (hh : (made s.nextMap).holds = some e)
    (hr : (made s.nextMap).reads = none) (hw : (made s.nextMap).writes = some (e, s.nextMap))
    (hc : (made s.nextMap).creates = some s.nextMap) :
    Inv ((s.loadOrStore e).1.goto t
      (if (s.loadOrStore e).2.2 then found (s.loadOrStore e).2.1 else made (s.loadOrStore e).2.1)) := by
  unfold Store.loadOrStore
  cases hco : s.correlations e with
  | some m => exact hf m hco
  | none =>
    refine (h.allocate e hco).goto t _ (by simp [hr]) (fun _ => h.holder hhe hh) ?_ ?_ ?_
    · intro e' m hm
      cases hw.symm.trans hm
      exact update_self ..
    · intro m hm
      cases hc.symm.trans hm
      refine ⟨by simp [hr], h.fresh _ (Nat.le_refl _), fun t' _ ht' => ?_⟩
      exact absurd (h.read t' _ ht') (Nat.lt_irrefl _)
    · intro r m c hpc
      cases hr.symm.trans (congrArg Pc.reads hpc)

theorem inv_first {c : Correlation Details} {ev : Event Details}
    (hh : (s.threads t).holds = some e) (hwr : (s.threads t).writes = some (e, m))
    (hma : (s.threads t).creates = some m)
    (hl : ∀ e', latest e' (s.log ++ [ev]) = if e = e' then c.info else latest e' s.log)
    (hho : pc.holds = some e) (hre : ∀ m', pc.reads = some m' → m' = m) (hw : pc.writes = none)
    (hcr : pc.creates = none) (hs : ∀ r m c, pc ≠ .getStore r m c) :
    Inv (((s.put m noType c).record ev).goto t pc) := by
  have hc := h.current t e m hwr
  obtain ⟨hem, hu⟩ := h.created t m hma
  have ho : ∀ t', ((s.goto t .idle).threads t').creates ≠ some m :=
    forall_goto s t .idle (fun _ pc => pc.creates ≠ some m) (by simp [Pc.creates]) (h.not_created hh hc)
  have hr : ∀ t', ((s.goto t .idle).threads t').reads ≠ some m :=
    forall_goto s t .idle (fun _ pc => pc.reads ≠ some m) (by simp [Pc.reads]) fun t' _ => hu t'
  rw [← goto_goto _ t .idle]
  refine ((h.idle t).first hc hem hr ho hl).goto t pc ?_ (fun _ => h.holder hh hho) (by simp [hw]) (by simp [hcr]) ?_
  · intro m' hm'
    rw [hre m' hm']
    exact ⟨h.allocated e m hc, fun t' _ => ho t'⟩
  · intro r m c hpc
    exact absurd hpc (hs r m c)

theorem inv_keep (hh : ∀ e, pc.holds = some e → (s.threads t).holds = some e)
    (hr : ∀ m, pc.reads = some m → (s.threads t).reads = some m) (hw : pc.writes = none)
    (hc : pc.creates = none)
    (hs : ∀ r m c, pc = .getStore r m c → ∀ e, s.correlations e = some m → c.info = latest e s.log) :
    Inv (s.goto t pc) := by
  refine h.goto t pc ?_ (fun e he => h.locked t e (hh e he)) (by simp [hw]) (by simp [hc]) hs
  intro m hm
  obtain ⟨hlt, ho⟩ := h.reader (hr m hm)
  exact ⟨hlt, fun t' _ => ho t'⟩

theorem inv_updateRange {u : Update Details} (hpc : s.threads t = .updateRange u m)
    (hok : ∀ t' r c, s.threads t' = .getStore r m c → c.info = u.info) :
    Inv (((s.updateAll m u).record (.updated u)).goto t (.updateUnlock u)) := by
  have hl := h.locked t _ (congrArg Pc.holds hpc)
  have hc := h.current t _ m (congrArg Pc.writes hpc)
  have hco := forall_goto s t .idle (fun _ pc => ∀ r c, pc = .getStore r m c → c.info = u.info) (by simp)
    fun t' _ => hok t'
  rw [← goto_goto _ t .idle]
  exact ((h.idle t).updateAll hc hco).goto_held hl rfl rfl rfl rfl

theorem inv_getStore {c : Correlation Details} (hpc : s.threads t = .getStore r m c) :
    Inv ((s.put m r c).goto t (.getUnlockReceiver r c)) := by
  obtain ⟨hlt, hcr⟩ := h.reader (congrArg Pc.reads hpc)
  have ho := forall_goto s t .idle (fun _ pc => pc.creates ≠ some m) (by simp [Pc.creates]) fun t' _ => hcr t'
  rw [← goto_goto _ t .idle]
  exact ((h.idle t).putCopy hlt ho (h.copied t r m c hpc)).goto_free t _ rfl rfl rfl rfl

theorem next_inv (hok : Undisturbed s (.step t)) (hs : next ttl s t = some s') : Inv s' := by
  unfold next at hs
  generalize hpc : s.threads t = pc at hs
  have hh : (s.threads t).holds = pc.holds := congrArg Pc.holds hpc
  have hr : (s.threads t).reads = pc.reads := congrArg Pc.reads hpc
  have hw : (s.threads t).writes = pc.writes := congrArg Pc.writes hpc
  have hc : (s.threads t).creates = pc.creates := congrArg Pc.creates hpc
  cases pc with
  | idle | panicked | reapRange _ => cases hs
  | updateLock u | getLock r e | reapLock visited e m => exact inv_lock h rfl rfl rfl rfl hs
  | updateLoadOrStore u =>
    cases hs
    refine inv_loadOrStore h (.updateRange u) (.updateStore u) hh ?_ rfl rfl rfl rfl
    intro m hf
    refine h.goto t _ (by simp [Pc.reads]) (fun _ => h.holder hh rfl) ?_ (by simp [Pc.creates]) (by simp)
    intro e m' hm
    cases hm
    exact hf
  | updateStore u m =>
    cases hs
    exact inv_first h hh hw hc (fun e' => latest_updated e' s.log u) rfl (by simp [Pc.reads]) rfl rfl (by simp)
  | updateRange u m =>
    cases hs
    exact inv_updateRange h hpc (hok u m hpc)
  | updateUnlock u =>
    cases hs
    exact inv_unlock h hh rfl rfl rfl (by simp [Pc.reads]) (by simp)
  | getLoadOrStore r e =>
    cases hs
    refine inv_loadOrStore h (.getLockReceiver r e) (.getStoreNoType r e) hh ?_ rfl rfl rfl rfl
    intro m hf
    refine h.goto t _ ?_ (fun _ => h.holder hh rfl) (by simp [Pc.writes]) (by simp [Pc.creates]) (by simp)
    intro m' hm'
    cases hm'
    exact ⟨h.allocated e m hf, h.not_created hh hf⟩
  | getStoreNoType r e m =>
    cases hs
    exact inv_first h hh hw hc (fun e' => latest_created e' e s.log) rfl (fun m' hm' => (some.inj hm').symm)
      rfl rfl (by simp)
  | getLockReceiver r e m =>
    obtain ⟨s₁, hl, rfl⟩ := map_eq_some_iff.mp hs
    unfold Store.lockReceiver at hl
    split at hl
    · cases hl
      exact inv_keep (h.receivers _) (fun _ => hh.trans) (fun _ => hr.trans) rfl rfl (by simp)
    · cases hl
  | getUnlock r e m =>
    cases hs
    exact inv_unlock h hh rfl rfl rfl (fun _ => hr.trans) (by simp)
  | getLoad r m =>
    dsimp only at hs
    split at hs
    · cases hs
      exact h.goto_free t _ rfl rfl rfl rfl
    · cases hs
      exact inv_keep h (by simp [Pc.holds]) (fun _ => hr.trans) rfl rfl (by simp)
  | getLoadNoType r m =>
    dsimp only at hs
    split at hs
    · cases hs
      exact inv_keep h (by simp [Pc.holds]) (fun _ => hr.trans) rfl rfl (by simp)
    · cases hs
      exact h.goto_free t _ rfl rfl rfl rfl
  | getCopy r m =>
    obtain ⟨c, hc, rfl⟩ := map_eq_some_iff.mp hs
    refine inv_keep h (by simp [Pc.holds]) (fun _ => hr.trans) rfl rfl ?_
    intro r' m' c' hst e he
    cases hst
    exact h.agree e m he noType c hc
  | getStore r m c =>
    cases hs
    exact inv_getStore h hpc
  | getUnlockReceiver r c =>
    cases hs
    exact (h.receivers _).idle t
  | reapLoad visited e m =>
    have hl := h.locked t e hh
    dsimp only at hs
    split at hs
    · split at hs
      · cases hs
        exact h.goto_held hl rfl rfl rfl rfl
      · cases hs
        exact h.goto_held hl rfl rfl rfl rfl
    · cases hs
      exact h.goto_held hl rfl rfl rfl rfl
  | reapDelete visited e =>
    cases hs
    rw [← goto_goto _ t .idle]
    exact ((h.idle t).delete e (h.alone hh)).goto_held (h.locked t e hh) rfl rfl rfl rfl
  | reapUnlock visited e =>
    cases hs
    exact inv_unlock h hh rfl rfl rfl (by simp [Pc.reads]) (by simp)

theorem act_inv {a : Action Details} (hok : Undisturbed s a) (hs : act ttl s a = some s') : Inv s' := by
  cases a with
  | call t c =>
    rw [act] at hs
    split at hs
    · cases hs
      cases c <;> exact h.goto_free t _ rfl rfl rfl rfl
    · cases hs
  | step t => exact next_inv h hok hs
  | visit t e =>
    rw [act] at hs
    split at hs
    · split at hs
      · cases hs
      · cases hs
        exact h.goto_free t _ rfl rfl rfl rfl
    · cases hs
  | rangeEnd t =>
    rw [act] at hs
    split at hs
    · cases hs
      exact h.idle t
    · cases hs
  | tick d =>
    cases hs
    exact h.tick _

end

/-! ## Runs -/

/-- When no update comes between a copy and its `Store`, all the correlations of an endpoint say what its last update
said. -/
theorem correlations_agree (ttl : Nat) (acts : List (Action Details)) (s : Store Details)
    (hrun : acts.foldlM (act ttl) newCorrelationStore = some s)
    (hgood : Lib.GoodRun (act ttl) Undisturbed newCorrelationStore acts) : Agree s :=
  (hgood.inv (fun _ _ _ h hok hs => act_inv h hok hs) inv_newCorrelationStore hrun).agree

section Example

def redis : Endpoint Unit := ⟨"redis", "localhost:6379", none⟩

def observerID : ComponentID := ⟨"host_observer", []⟩

def receiverID : ComponentID := ⟨"redis", []⟩

def update (state : EndpointState) : Action Unit := .call 0 (.updateEndpoint ⟨redis, state, observerID⟩)

def steps (t n : Nat) : List (Action Unit) := List.replicate n (.step t)

/-- The second update comes after thread 1 has copied the correlation. -/
def lostUpdate : List (Action Unit) :=
  [update .added] ++ steps 0 4 ++ [.call 1 (.getOrCreate receiverID redis.id)] ++ steps 1 7 ++
    [update .changed] ++ steps 0 4 ++ steps 1 2

theorem lostUpdate_disagrees : ∃ s, lostUpdate.foldlM (act 0) newCorrelationStore = some s ∧
    (∀ t, s.threads t = .idle) ∧ ¬ Agree s := by
  refine ⟨_, rfl, ?_, ?_⟩
  · rintro (_ | _ | t) <;> rfl
  · intro h
    cases congrArg Info.lastState (h redis.id 0 rfl receiverID _ rfl)

def keptUpdate : List (Action Unit) :=
  [update .added] ++ steps 0 4 ++ [.call 0 (.getOrCreate receiverID redis.id)] ++ steps 0 9 ++
    [update .changed] ++ steps 0 4

theorem correlations_agree_keptUpdate : ∃ s, keptUpdate.foldlM (act 0) newCorrelationStore = some s ∧
    (∀ t, s.threads t = .idle) ∧ s.correlations redis.id = some 0 ∧ (s.maps 0 receiverID).isSome ∧ Agree s := by
  refine ⟨_, rfl, ?_, rfl, rfl, ?_⟩
  · rintro (_ | t) <;> rfl
  · refine correlations_agree 0 keptUpdate _ rfl ?_
    -- every step is evaluated; the copy is stored before the second update
    repeat
      refine ⟨?_, fun _ hs => ?_⟩
      · first
        | trivial
        | rintro _ _ ⟨⟩ (_ | _) _ _ ⟨⟩
      cases hs
    trivial

end Example

end Collector.DiscoveryReceiver
