import Collector.Kubernetes.Dimensions

/-!
# The indexes of the caches

The caches of pods, services and replica sets of `kubernetes/utils`, over sequences of additions and deletions.
-/

namespace Collector.Kubernetes

open Lib List Option

variable {T R : Type}

structure CachedPod (T : Type) extends Pod where
  tolerations : List T

instance : ObjectMeta (CachedPod T) := ⟨fun pod => pod.uid, fun pod => pod.namespaceName⟩

inductive CacheKind where
  | pod
  | service
  | replicaSet

/-- What a cache keeps of an object. -/
def CacheKind.Cached (T : Type) : CacheKind → Type
  | .pod => CachedPod T
  | .service => Service
  | .replicaSet => Workload

instance : (kind : CacheKind) → ObjectMeta (kind.Cached T)
  | .pod => inferInstanceAs (ObjectMeta (CachedPod T))
  | .service => inferInstanceAs (ObjectMeta Service)
  | .replicaSet => inferInstanceAs (ObjectMeta Workload)

variable {kind : CacheKind}

/-- An object of the API server. `rest` has the fields that are not cached. -/
structure APIObject (T R : Type) (kind : CacheKind) where
  kept : kind.Cached T
  rest : R

def APIObject.uid (obj : APIObject T R kind) : Str := ObjectMeta.uid obj.kept

def APIObject.namespaceName (obj : APIObject T R kind) : Str := ObjectMeta.namespaceName obj.kept

/-- `newCachedPod`, `newCachedService` and `newCachedReplicaSet`. -/
def newCached (obj : APIObject T R kind) : kind.Cached T := obj.kept

/-- `AsPod`, `AsService` and `AsReplicaSet`, of a pointer that may be nil. -/
def asObject [Inhabited R] : Option (kind.Cached T) → Option (APIObject T R kind)
  | none => none
  | some cached => some ⟨cached, default⟩

namespace Cache

def deleteByKeyOf : (kind : CacheKind) → Cache (kind.Cached T) → Str → Cache (kind.Cached T)
  | .pod | .service => deleteByKey
  | .replicaSet => deleteByKeyKeepingSet

def getObject [Inhabited R] (c : Cache (kind.Cached T)) (uid : Str) : Option (APIObject T R kind) :=
  asObject (c.get uid)

def objectsForNamespace [Inhabited R] (c : Cache (kind.Cached T)) (ns : Str) : List (Option (APIObject T R kind)) :=
  (c.uids ns).map c.getObject

inductive Operation (T R : Type) (kind : CacheKind) where
  | add (obj : APIObject T R kind)
  | delete (obj : APIObject T R kind)
  | deleteByKey (uid : Str)

def operate (c : Cache (kind.Cached T)) : Operation T R kind → Cache (kind.Cached T)
  | .add obj => c.add (newCached obj)
  | .delete obj => deleteByKeyOf kind c obj.uid
  | .deleteByKey uid => deleteByKeyOf kind c uid

def operated (ops : List (Operation T R kind)) : Cache (kind.Cached T) := ops.foldl operate empty

/-! ## What was added last -/

def latestStep (uid : Str) (last : Option (APIObject T R kind)) : Operation T R kind → Option (APIObject T R kind)
  | .add obj => if obj.uid = uid then some obj else last
  | .delete obj => if obj.uid = uid then none else last
  | .deleteByKey k => if k = uid then none else last

/-- The object that was added last under a UID and not deleted since. -/
def latest (ops : List (Operation T R kind)) (uid : Str) : Option (APIObject T R kind) :=
  ops.foldl (latestStep uid) none

/-- No object comes in another namespace than the one that is there. -/
def KeepsNamespaces (ops : List (Operation T R kind)) : Prop :=
  ∀ before obj after, ops = before ++ .add obj :: after →
    ∀ old ∈ latest before obj.uid, old.namespaceName = obj.namespaceName

theorem get_deleteByKeyOf (c : Cache (kind.Cached T)) (u k : Str) :
    (deleteByKeyOf kind c k).get u = if u = k then none else c.get u := by
  rw [← get_deleteByKey]
  cases kind with
  | pod | service => rfl
  | replicaSet =>
    simp only [deleteByKeyOf, deleteByKeyKeepingSet, deleteByKey]
    cases c.get k <;> rfl

theorem uids_deleteByKeyOf (c : Cache (kind.Cached T)) (k ns : Str) :
    (deleteByKeyOf kind c k).uids ns = (c.deleteByKey k).uids ns := by
  cases kind with
  | pod | service => rfl
  | replicaSet => exact (uids_deleteByKey k ns).symm

/-- A cache after its operations. -/
structure Holds (ops : List (Operation T R kind)) (c : Cache (kind.Cached T)) : Prop where
  indexed : c.Indexed
  nodup : ∀ ns, (c.uids ns).Nodup
  get : ∀ u, c.get u = (latest ops u).map newCached

variable {ops : List (Operation T R kind)} {c : Cache (kind.Cached T)}

theorem Holds.add (h : Holds ops c) (obj : APIObject T R kind)
    (hns : ∀ old ∈ latest ops obj.uid, old.namespaceName = obj.namespaceName) :
    Holds (ops ++ [.add obj]) (c.operate (.add obj)) := by
  refine ⟨h.indexed.add fun old hold => ?_, fun ns => ?_, fun u => ?_⟩
  · rw [h.get, map_eq_some_iff] at hold
    obtain ⟨old, hold, rfl⟩ := hold
    exact hns old hold
  · rw [operate, uids_add]
    split_ifs
    · exact (h.nodup ns).insert
    · exact h.nodup ns
  · have hu : ObjectMeta.uid (newCached obj) = obj.uid := rfl
    rw [operate, get_add, latest, foldl_concat, ← latest, latestStep, h.get, hu]
    simp only [eq_comm]
    split_ifs <;> rfl

theorem Holds.deleteByKey (h : Holds ops c) {op : Operation T R kind} {k : Str}
    (hc : c.operate op = deleteByKeyOf kind c k) (hl : ∀ u l, latestStep u l op = if k = u then none else l) :
    Holds (ops ++ [op]) (c.operate op) := by
  have hi := h.indexed.deleteByKey k
  rw [hc]
  refine ⟨⟨fun u obj => ?_, fun u ns => ?_⟩, fun ns => ?_, fun u => ?_⟩
  · rw [get_deleteByKeyOf, ← get_deleteByKey]
    exact hi.uid u obj
  · rw [get_deleteByKeyOf, uids_deleteByKeyOf, ← get_deleteByKey]
    exact hi.mem u ns
  · rw [uids_deleteByKeyOf, uids_deleteByKey, uids_deleteByKeyKeepingSet]
    split_ifs
    · exact (h.nodup ns).filter _
    · exact h.nodup ns
  · rw [get_deleteByKeyOf, latest, foldl_concat, ← latest, hl, h.get]
    simp only [eq_comm]
    split_ifs <;> rfl

theorem holds_operated (hns : KeepsNamespaces ops) : Holds ops (operated ops) := by
  induction ops using reverseRecOn with
  | nil => exact ⟨indexed_empty, fun _ => nodup_nil, fun _ => rfl⟩
  | append_singleton ops op ih =>
    have h := ih fun before obj after heq => hns before obj (after ++ [op]) (by simp [heq])
    rw [operated, foldl_concat, ← operated]
    cases op with
    | add obj => exact h.add obj (hns ops obj [] rfl)
    | delete obj => exact h.deleteByKey rfl fun _ _ => rfl
    | deleteByKey k => exact h.deleteByKey rfl fun _ _ => rfl

/-- The two indexes of a cache agree, and it gives the objects that were added last. -/
theorem indexes_agree [Inhabited R] (kind : CacheKind) (ops : List (Operation T R kind)) (hns : KeepsNamespaces ops) :
    (∀ u ns, u ∈ (operated ops).uids ns ↔ ∃ obj, (operated ops).get u = some obj ∧
      ObjectMeta.uid obj = u ∧ ObjectMeta.namespaceName obj = ns) ∧
    (∀ ns, ∃ objs : List (APIObject T R kind), (objs.map APIObject.uid).Nodup ∧
      (∀ obj, obj ∈ objs ↔ latest ops obj.uid = some obj ∧ obj.namespaceName = ns) ∧
      (operated ops).objectsForNamespace ns = objs.map fun obj => some (⟨obj.kept, default⟩ : APIObject T R kind)) ∧
    ∀ u, (operated ops).get u = none → (operated ops).getObject u = (none : Option (APIObject T R kind)) := by
  have h := holds_operated hns
  generalize operated ops = c at h
  refine ⟨fun u ns => ?_, fun ns => ?_, fun u hu => by rw [getObject, hu, asObject]⟩
  · rw [h.indexed.mem]
    exact exists_congr fun obj => and_congr_right fun hobj => by simp [h.indexed.uid u obj hobj]
  · have hl {u obj} (hu : latest ops u = some obj) : obj.uid = u := h.indexed.uid u _ (by rw [h.get, hu]; rfl)
    have hmem {u} (hu : u ∈ c.uids ns) : ∃ obj, latest ops u = some obj ∧ obj.namespaceName = ns := by
      obtain ⟨_, hobj, hn⟩ := (h.indexed.mem u ns).mp hu
      rw [h.get, map_eq_some_iff] at hobj
      obtain ⟨obj, hobj, rfl⟩ := hobj
      exact ⟨obj, hobj, hn⟩
    refine ⟨(c.uids ns).filterMap (latest ops), ?_, fun obj => ?_, ?_⟩
    · rw [map_filterMap, filterMap_congr (g := some), filterMap_some]
      · exact h.nodup ns
      · intro u hu
        obtain ⟨obj, hobj, -⟩ := hmem hu
        rw [hobj, map_some, hl hobj]
    · rw [mem_filterMap]
      constructor
      · rintro ⟨u, hu, hobj⟩
        obtain ⟨obj', hobj', hn⟩ := hmem hu
        rw [hobj] at hobj'
        cases hobj'
        rw [hl hobj]
        exact ⟨hobj, hn⟩
      · rintro ⟨hobj, hn⟩
        exact ⟨_, (h.indexed.mem _ ns).mpr ⟨_, by rw [h.get, hobj]; rfl, hn⟩, hobj⟩
    · rw [objectsForNamespace, map_filterMap, ← filterMap_eq_map]
      refine filterMap_congr fun u hu => ?_
      obtain ⟨obj, hobj, -⟩ := hmem hu
      simp [getObject, h.get, hobj, asObject, newCached]

def service (uid : Str) (selector : List (Str × Str)) : APIObject Unit Unit .service :=
  ⟨(⟨uid, "web", "default", selector⟩ : Service), ()⟩

/-- A service comes again with another selector, and another one goes. -/
def addedAgain : List (Operation Unit Unit .service) :=
  [.add (service "svc-1" []), .add (service "svc-2" []), .add (service "svc-1" [("app", "web")]),
    .delete (service "svc-2" [])]

theorem indexes_agree_addedAgain :
    (∀ u ns, u ∈ (operated addedAgain).uids ns ↔ ∃ obj, (operated addedAgain).get u = some obj ∧
      ObjectMeta.uid obj = u ∧ ObjectMeta.namespaceName obj = ns) ∧
    (operated addedAgain).uids "default" = ["svc-1"] := by
  refine ⟨(indexes_agree .service addedAgain ?_).1, by decide⟩
  rintro (_ | ⟨_, _ | ⟨_, _ | ⟨_, _ | ⟨_, before⟩⟩⟩⟩) obj after heq old hold <;> simp [addedAgain] at heq
  · cases hold
  · obtain ⟨rfl, rfl, -⟩ := heq
    cases hold
  · obtain ⟨rfl, rfl, rfl, -⟩ := heq
    cases hold
    rfl

end Cache

end Collector.Kubernetes
