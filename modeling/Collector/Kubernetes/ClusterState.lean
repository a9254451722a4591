import Collector.Lib.Runs
import Collector.Value

/-!
# The datapoint cache of the cluster monitor

`cluster/clusterstate.go` and `cluster/metrics/cache.go` of the Kubernetes monitors. The cache outlives a restart, but
not the keys that a store has seen, by which a new list clears it.
-/

namespace Collector.Kubernetes

open Lib List Option

/-- The objects the stores are told of, each of the one type that its UID has. -/
structure Objects (T U O D : Type) where
  uid : O → U
  typeOf : U → T
  /-- Where `none` is the nil slice. -/
  datapoints : O → Option (List D)

structure ClusterState (T U O D : Type) where
  started : Bool
  dpCache : List (U × List D)
  keysSeen : T → List U
  listed : T → Bool
  /-- The latest version of each object that was seen since the last start and not deleted. -/
  objects : List (U × O)

namespace ClusterState

section Code

variable {T U O D : Type} [DecidableEq T] [DecidableEq U] (env : Objects T U O D)

def initial : ClusterState T U O D :=
  ⟨false, [], fun _ => [], fun _ => false, []⟩

def deleteByKey (dpCache : List (U × List D)) (key : U) : List (U × List D) :=
  remove key dpCache

def handleAdd (dpCache : List (U × List D)) (newObj : O) : List (U × List D) :=
  match env.datapoints newObj with
  | none => dpCache
  | some dps => put (env.uid newObj) dps dpCache

def allDatapoints (s : ClusterState T U O D) : List D :=
  s.dpCache.flatMap Prod.snd

def addFunc (t : T) (s : ClusterState T U O D) (obj : O) : ClusterState T U O D :=
  { s with
    dpCache := handleAdd env s.dpCache obj
    keysSeen := Function.update s.keysSeen t ((s.keysSeen t).insert (env.uid obj))
    objects := put (env.uid obj) obj s.objects }

def deleteFunc (t : T) (s : ClusterState T U O D) (obj : O) : ClusterState T U O D :=
  { s with
    dpCache := deleteByKey s.dpCache (env.uid obj)
    keysSeen := Function.update s.keysSeen t ((s.keysSeen t).filter (· ≠ env.uid obj))
    objects := remove (env.uid obj) s.objects }

def purge (t : T) (s : ClusterState T U O D) : ClusterState T U O D :=
  { s with
    dpCache := (s.keysSeen t).foldl deleteByKey s.dpCache
    keysSeen := Function.update s.keysSeen t []
    objects := s.objects.filter fun e => env.typeOf e.1 ≠ t }

def replaceFunc (t : T) (s : ClusterState T U O D) (list : List O) : ClusterState T U O D :=
  list.foldl (addFunc env t) (purge env t s)

inductive Action (T O : Type) where
  | start
  | stop
  | replace (t : T) (list : List O)
  | add (t : T) (obj : O)
  | delete (t : T) (obj : O)

/-- A reflector lists its type before it watches it. -/
def step (s : ClusterState T U O D) : Action T O → Option (ClusterState T U O D)
  | .start =>
    if s.started then none
    else some { s with started := true, keysSeen := fun _ => [], listed := fun _ => false, objects := [] }
  | .stop => some { s with started := false }
  | .replace t list =>
    if s.started ∧ ∀ obj ∈ list, env.typeOf (env.uid obj) = t then
      some { replaceFunc env t s list with listed := Function.update s.listed t true }
    else none
  | .add t obj =>
    if s.started ∧ s.listed t ∧ env.typeOf (env.uid obj) = t then some (addFunc env t s obj) else none
  | .delete t obj =>
    if s.started ∧ s.listed t ∧ env.typeOf (env.uid obj) = t then some (deleteFunc env t s obj) else none

end Code

/-! ## Replica sets -/

/-- The types of `Start`, as it watches them on OpenShift and in every namespace. -/
inductive Resource where
  | clusterresourcequotas
  | pods
  | daemonsets
  | deployments
  | statefulsets
  | replicationcontrollers
  | replicasets
  | resourcequotas
  | services
  | jobs
  | cronjobs
  | nodes
  | namespaces
  | horizontalpodautoscalers
  deriving DecidableEq

def Resource.all : List Resource :=
  [.clusterresourcequotas, .pods, .daemonsets, .deployments, .statefulsets, .replicationcontrollers, .replicasets,
    .resourcequotas, .services, .jobs, .cronjobs, .nodes, .namespaces, .horizontalpodautoscalers]

theorem Resource.mem_all (t : Resource) : t ∈ all := by
  cases t <;> decide

structure Datapoint where
  metric : Str
  dimensions : List (Str × Str)
  value : Int
  deriving DecidableEq

structure ReplicaSet where
  namespaceName : Str
  uid : Str
  name : Str
  replicas : Option Int
  availableReplicas : Int

def makeReplicaDPs (resource : Str) (dimensions : List (Str × Str)) (desired available : Int) : List Datapoint :=
  [⟨"kubernetes." ++ resource ++ ".desired", dimensions, desired⟩,
    ⟨"kubernetes." ++ resource ++ ".available", dimensions, available⟩]

def datapointsForReplicaSet (rs : ReplicaSet) : Option (List Datapoint) :=
  let dimensions :=
    [("metric_source".toList, "kubernetes".toList), ("kubernetes_namespace".toList, rs.namespaceName),
      ("kubernetes_uid".toList, rs.uid), ("kubernetes_name".toList, rs.name)]
  rs.replicas.map fun replicas => makeReplicaDPs "replica_set".toList dimensions replicas rs.availableReplicas

def replicaSets : Objects Resource Str ReplicaSet Datapoint :=
  ⟨ReplicaSet.uid, fun _ => .replicasets, datapointsForReplicaSet⟩

/-! ## What the cache should hold -/

section Tracking

variable {T U O D : Type} [DecidableEq U] {env : Objects T U O D} {s s' : ClusterState T U O D} {t : T}

def latestDatapoints (env : Objects T U O D) (s : ClusterState T U O D) : List D :=
  s.objects.flatMap fun e => (env.datapoints e.2).getD []

/-- An object without datapoints does not take the place of one that has some, and a list names each object of its
type that is cached and was not seen since the start. -/
def Supersedes (env : Objects T U O D) (s : ClusterState T U O D) : Action T O → Prop
  | .replace t list =>
    (∀ u ∈ keys s.dpCache, env.typeOf u = t → u ∉ s.keysSeen t → u ∈ list.map env.uid) ∧
      ∀ obj ∈ list, env.datapoints obj = none → (env.uid obj ∈ keys s.dpCache → env.uid obj ∈ s.keysSeen t) ∧
          ∀ obj' ∈ list, env.uid obj' = env.uid obj → env.datapoints obj' = none
  | .add _ obj => env.datapoints obj = none → env.uid obj ∉ keys s.dpCache
  | _ => True

def Tracked (env : Objects T U O D) (s : ClusterState T U O D) (u : U) : Prop :=
  find u s.dpCache = (find u s.objects).bind env.datapoints

structure Keyed (env : Objects T U O D) (s : ClusterState T U O D) : Prop where
  cacheKeys : (keys s.dpCache).Nodup
  objectKeys : (keys s.objects).Nodup
  typed : ∀ t, ∀ u ∈ s.keysSeen t, env.typeOf u = t
  seen : ∀ u ∈ keys s.objects, u ∈ s.keysSeen (env.typeOf u)

structure Reflects (env : Objects T U O D) (s : ClusterState T U O D) : Prop where
  keyed : s.Keyed env
  tracked : ∀ u, s.listed (env.typeOf u) = true → s.Tracked env u

theorem reflects_initial : (initial : ClusterState T U O D).Reflects env :=
  ⟨⟨nodup_nil, nodup_nil, nofun, nofun⟩, nofun⟩

variable {dpCache : List (U × List D)}

theorem nodup_handleAdd (h : (keys dpCache).Nodup) (obj : O) : (keys (handleAdd env dpCache obj)).Nodup := by
  unfold handleAdd
  split
  · exact h
  · exact nodup_keys_put _ _ h

variable {obj : O} {u : U}

theorem find_handleAdd_ne (h : u ≠ env.uid obj) (dpCache : List (U × List D)) :
    find u (handleAdd env dpCache obj) = find u dpCache := by
  unfold handleAdd
  split
  · rfl
  · exact find_put_ne _ _ h

theorem find_handleAdd_self (h : env.datapoints obj = none → env.uid obj ∉ keys dpCache) :
    find (env.uid obj) (handleAdd env dpCache obj) = env.datapoints obj := by
  unfold handleAdd
  split
  · rename_i hn
    rw [hn, find_none]
    exact h hn
  · rename_i dps hs
    rw [hs, find_put_self]

variable (ks : List U)

theorem find_foldl_deleteByKey (dpCache : List (U × List D)) (u : U) :
    find u (ks.foldl deleteByKey dpCache) = if u ∈ ks then none else find u dpCache := by
  induction ks generalizing dpCache with
  | nil => simp
  | cons k ks ih =>
    rw [foldl_cons, ih, deleteByKey, find_remove]
    by_cases hk : u = k <;> simp [hk]

theorem nodup_foldl_deleteByKey (h : (keys dpCache).Nodup) : (keys (ks.foldl deleteByKey dpCache)).Nodup := by
  induction ks generalizing dpCache with
  | nil => exact h
  | cons k ks ih => exact ih (nodup_keys_filter _ h)

variable [DecidableEq T]

theorem tracked_addFunc (hok : env.datapoints obj = none → env.uid obj ∉ keys s.dpCache)
    (h : u = env.uid obj ∨ s.Tracked env u) : (s.addFunc env t obj).Tracked env u := by
  simp only [Tracked, addFunc]
  by_cases hu : u = env.uid obj
  · subst hu
    rw [find_handleAdd_self hok, find_put_self]
    rfl
  · rw [find_handleAdd_ne hu, find_put_ne _ _ hu]
    exact h.resolve_left hu

variable {list : List O}

theorem tracked_foldl_addFunc (hok : ∀ obj ∈ list, env.datapoints obj = none → env.uid obj ∉ keys s.dpCache ∧
      ∀ obj' ∈ list, env.uid obj' = env.uid obj → env.datapoints obj' = none)
    (h : u ∈ list.map env.uid ∨ s.Tracked env u) : (list.foldl (addFunc env t) s).Tracked env u := by
  induction list generalizing s with
  | nil => simpa using h
  | cons obj list ih =>
    have hobj := fun hn => (hok obj mem_cons_self hn).1
    apply ih
    · intro obj' hmem hn
      obtain ⟨hf, hs⟩ := hok obj' (mem_cons_of_mem _ hmem) hn
      refine ⟨?_, fun o ho => hs o (mem_cons_of_mem _ ho)⟩
      rw [← find_none] at hf ⊢
      by_cases heq : env.uid obj' = env.uid obj
      · -- the object before it with its UID has no datapoints either
        rw [heq, show (s.addFunc env t obj).dpCache = handleAdd env s.dpCache obj from rfl, find_handleAdd_self hobj]
        exact hs obj mem_cons_self heq.symm
      · rw [← hf]
        exact find_handleAdd_ne heq _
    · rcases h with hmem | ht
      · rcases mem_cons.mp hmem with rfl | hmem
        · exact .inr (tracked_addFunc hobj (.inl rfl))
        · exact .inl hmem
      · exact .inr (tracked_addFunc hobj (.inr ht))

theorem mem_keysSeen_addFunc {t' : T} :
    u ∈ (s.addFunc env t obj).keysSeen t' ↔ t' = t ∧ u = env.uid obj ∨ u ∈ s.keysSeen t' := by
  by_cases ht : t' = t
  · subst ht
    simp [addFunc]
  · simp [addFunc, ht]

theorem Keyed.addFunc (h : s.Keyed env) (ht : env.typeOf (env.uid obj) = t) : (s.addFunc env t obj).Keyed env := by
  refine ⟨nodup_handleAdd h.cacheKeys obj, nodup_keys_put _ _ h.objectKeys, ?_, ?_⟩
  · intro t' u hu
    rcases mem_keysSeen_addFunc.mp hu with ⟨rfl, rfl⟩ | hu
    · exact ht
    · exact h.typed t' u hu
  · intro u hu
    apply mem_keysSeen_addFunc.mpr
    rcases (mem_keys_put _ _ _ _).mp hu with rfl | hu
    · exact .inl ⟨ht, rfl⟩
    · exact .inr (h.seen u hu)

theorem Keyed.foldl_addFunc (h : s.Keyed env)
    (ht : ∀ obj ∈ list, env.typeOf (env.uid obj) = t) : (list.foldl (ClusterState.addFunc env t) s).Keyed env := by
  induction list generalizing s with
  | nil => exact h
  | cons obj list ih =>
    apply ih _ fun o ho => ht o (mem_cons_of_mem _ ho)
    exact h.addFunc (ht obj mem_cons_self)

theorem Keyed.deleteFunc (h : s.Keyed env) : (s.deleteFunc env t obj).Keyed env := by
  have hmem : ∀ t' u, u ∈ (s.deleteFunc env t obj).keysSeen t' ↔ u ∈ s.keysSeen t' ∧ (t' = t → u ≠ env.uid obj) := by
    intro t' u
    by_cases ht : t' = t
    · subst ht
      simp [ClusterState.deleteFunc]
    · simp [ClusterState.deleteFunc, ht]
  refine ⟨nodup_keys_filter _ h.cacheKeys, nodup_keys_filter _ h.objectKeys, ?_, ?_⟩
  · intro t' u hu
    exact h.typed t' u ((hmem t' u).mp hu).1
  · intro u hu
    obtain ⟨e, he, rfl⟩ := mem_map.mp hu
    obtain ⟨he, hne⟩ := mem_filter.mp he
    exact (hmem _ _).mpr ⟨h.seen _ (mem_map_of_mem he), fun _ => by simpa using hne⟩

theorem Keyed.purge (h : s.Keyed env) : (s.purge env t).Keyed env := by
  refine ⟨nodup_foldl_deleteByKey _ h.cacheKeys, nodup_keys_filter _ h.objectKeys, ?_, ?_⟩
  · intro t' u hu
    by_cases ht : t' = t
    · subst ht
      simp [ClusterState.purge] at hu
    · exact h.typed t' u (by simpa [ClusterState.purge, ht] using hu)
  · intro u hu
    obtain ⟨e, he, rfl⟩ := mem_map.mp hu
    obtain ⟨he, hne⟩ := mem_filter.mp he
    have ht : env.typeOf e.1 ≠ t := by simpa using hne
    simpa [ClusterState.purge, ht] using h.seen e.1 (mem_map_of_mem he)

theorem find_objects_purge (u : U) :
    find u (s.purge env t).objects = if env.typeOf u = t then none else find u s.objects := by
  have h := find_filter (fun u => decide (env.typeOf u ≠ t)) u s.objects
  by_cases ht : env.typeOf u = t <;> simp_all [purge]

theorem Reflects.replace (h : s.Reflects env) (hok : s.Supersedes env (.replace t list))
    (hty : ∀ obj ∈ list, env.typeOf (env.uid obj) = t) :
    Reflects env { replaceFunc env t s list with listed := Function.update s.listed t true } := by
  obtain ⟨hle, hnil⟩ := hok
  have hk : (replaceFunc env t s list).Keyed env := h.keyed.purge.foldl_addFunc hty
  refine ⟨⟨hk.cacheKeys, hk.objectKeys, hk.typed, hk.seen⟩, ?_⟩
  intro u hl
  apply tracked_foldl_addFunc (t := t)
  · intro obj hobj hn
    refine ⟨?_, (hnil obj hobj hn).2⟩
    rw [← find_none]
    simp only [purge, find_foldl_deleteByKey]
    split_ifs with hs
    · rfl
    · exact (find_none _ _).mpr fun hmem => hs ((hnil obj hobj hn).1 hmem)
  · by_cases ht : env.typeOf u = t
    · by_cases hu : u ∈ list.map env.uid
      · exact .inl hu
      · right
        have hc : find u (s.purge env t).dpCache = none := by
          simp only [purge, find_foldl_deleteByKey]
          split_ifs with hs
          · rfl
          · exact (find_none _ _).mpr fun hmem => hu (hle u hmem ht hs)
        rw [Tracked, hc, find_objects_purge, if_pos ht]
        rfl
    · right
      have hs : u ∉ s.keysSeen t := fun hmem => ht (h.keyed.typed t u hmem)
      have hb : s.listed (env.typeOf u) = true := by simpa [ht] using hl
      have htr := h.tracked u hb
      simp only [Tracked, find_objects_purge, if_neg ht] at htr ⊢
      simpa only [purge, find_foldl_deleteByKey, if_neg hs] using htr

theorem Reflects.step {a : Action T O} (h : s.Reflects env) (hok : s.Supersedes env a)
    (hs : s.step env a = some s') : s'.Reflects env := by
  cases a with
  | start =>
    obtain ⟨-, heq⟩ := ite_none_left_eq_some.mp hs
    cases heq
    exact ⟨⟨h.keyed.cacheKeys, nodup_nil, nofun, nofun⟩, nofun⟩
  | stop =>
    cases hs
    obtain ⟨⟨hc, ho, htyp, hse⟩, ht⟩ := h
    exact ⟨⟨hc, ho, htyp, hse⟩, ht⟩
  | replace t list =>
    obtain ⟨⟨-, hty⟩, rfl⟩ := ite_some_none_eq_some.mp hs
    exact h.replace hok hty
  | add t obj =>
    obtain ⟨⟨-, -, hty⟩, rfl⟩ := ite_some_none_eq_some.mp hs
    exact ⟨h.keyed.addFunc hty, fun u hl => tracked_addFunc hok (.inr (h.tracked u hl))⟩
  | delete t obj =>
    obtain ⟨⟨-, -, hty⟩, rfl⟩ := ite_some_none_eq_some.mp hs
    refine ⟨h.keyed.deleteFunc, fun u hl => ?_⟩
    have ht := h.tracked u hl
    unfold Tracked deleteFunc deleteByKey
    simp only [find_remove]
    split
    · rfl
    · exact ht

theorem allDatapoints_latest (env : Objects T U O D) (actions : List (Action T O)) (s : ClusterState T U O D)
    (hgood : GoodRun (step env) (Supersedes env) initial actions) (hrun : actions.foldlM (step env) initial = some s)
    (hlisted : ∀ t, s.listed t = true) : s.allDatapoints.Perm (s.latestDatapoints env) := by
  have h : s.Reflects env := hgood.inv (fun _ _ _ h hok hs => h.step hok hs) reflects_initial hrun
  have hp := perm_filterMap_of_find h.keyed.cacheKeys h.keyed.objectKeys fun u => h.tracked u (hlisted _)
  have hall := hp.flatMap_right Prod.snd
  unfold allDatapoints latestDatapoints
  convert hall using 1
  generalize s.objects = objects
  induction objects with
  | nil => rfl
  | cons e objects ih => cases hdps : env.datapoints e.2 <;> simp [hdps, ih]

end Tracking

def web : ReplicaSet :=
  ⟨"default", "rs-1", "web", some 3, 2⟩

def startWith (list : List ReplicaSet) : List (Action Resource ReplicaSet) :=
  .start :: Resource.all.map fun t => .replace t (if t = .replicasets then list else [])

instance {T U O D : Type} [DecidableEq T] [DecidableEq U] (env : Objects T U O D) (s : ClusterState T U O D) :
    (a : Action T O) → Decidable (s.Supersedes env a)
  | .replace _ _ =>
    have (o : Option (List D)) : Decidable (o = none) := decidable_of_iff _ Option.isNone_iff_eq_none
    inferInstanceAs (Decidable (_ ∧ _))
  | .add _ _ =>
    have (o : Option (List D)) : Decidable (o = none) := decidable_of_iff _ Option.isNone_iff_eq_none
    inferInstanceAs (Decidable (_ → _))
  | .start | .stop | .delete _ _ => .isTrue trivial

def scaled : List (Action Resource ReplicaSet) :=
  startWith [web] ++ [.add .replicasets { web with replicas := some 5 }, .stop] ++ startWith [web] ++
    [.delete .replicasets web]

theorem allDatapoints_scaled : ∃ s : ClusterState Resource Str ReplicaSet Datapoint,
    scaled.foldlM (step replicaSets) initial = some s ∧ s.allDatapoints.Perm (s.latestDatapoints replicaSets) := by
  have hg : GoodRun (step replicaSets) (Supersedes replicaSets) initial scaled := by
    decide +kernel
  have hend : (scaled.foldlM (step replicaSets) initial).any (fun s => Resource.all.all s.listed) = true := by
    decide +kernel
  obtain ⟨s, hrun, hl⟩ := (any_eq_true _ _).mp hend
  refine ⟨s, hrun, allDatapoints_latest replicaSets scaled s hg hrun fun t => ?_⟩
  exact all_eq_true.mp hl t (Resource.mem_all t)

def deletedWhileStopped : List (Action Resource ReplicaSet) :=
  startWith [web] ++ [.stop] ++ startWith []

theorem allDatapoints_deletedWhileStopped : ∃ s : ClusterState Resource Str ReplicaSet Datapoint,
    deletedWhileStopped.foldlM (step replicaSets) initial = some s ∧ (∀ t, s.listed t = true) ∧
      s.objects = [] ∧ ¬ s.allDatapoints.Perm (s.latestDatapoints replicaSets) := by
  have hend : (deletedWhileStopped.foldlM (step replicaSets) initial).any (fun s =>
      Resource.all.all s.listed && s.objects.isEmpty && !s.allDatapoints.isEmpty) = true := by
    decide +kernel
  obtain ⟨s, hrun, ht⟩ := (any_eq_true _ _).mp hend
  simp only [Bool.and_eq_true, Bool.not_eq_true', List.isEmpty_iff, List.isEmpty_eq_false_iff] at ht
  obtain ⟨⟨hl, ho⟩, hs⟩ := ht
  refine ⟨s, hrun, fun t => List.all_eq_true.mp hl t (Resource.mem_all t), ho, fun hp => hs ?_⟩
  rw [latestDatapoints, ho] at hp
  exact hp.eq_nil

end ClusterState

end Collector.Kubernetes
