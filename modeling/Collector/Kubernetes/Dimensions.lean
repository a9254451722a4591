import Collector.Value

/-!
# The dimension handler of the cluster monitor

`cluster/metrics/dimensions.go`, `cluster/metrics/pods.go` and the caches of `kubernetes/utils`, as far as they send
updates of `kubernetes_pod_uid`.
-/

namespace Collector.Kubernetes

open Lib List Option

structure OwnerReference where
  kind : Str
  name : Str
  uid : Str
  deriving DecidableEq

structure Pod where
  uid : Str
  namespaceName : Str
  creationTimestamp : Str
  labels : List (Str × Str)
  ownerReferences : List OwnerReference
  deriving DecidableEq

structure Service where
  uid : Str
  name : Str
  namespaceName : Str
  selector : List (Str × Str)
  deriving DecidableEq

structure Workload where
  uid : Str
  name : Str
  namespaceName : Str
  ownerReferences : List OwnerReference
  deriving DecidableEq

class ObjectMeta (α : Type) where
  uid : α → Str
  namespaceName : α → Str

instance : ObjectMeta Pod := ⟨Pod.uid, Pod.namespaceName⟩
instance : ObjectMeta Service := ⟨Service.uid, Service.namespaceName⟩
instance : ObjectMeta Workload := ⟨Workload.uid, Workload.namespaceName⟩

/-! ## The caches -/

/-- `PodCache`, `ServiceCache`, `ReplicaSetCache` and `JobCache`. -/
structure Cache (α : Type) where
  namespaceUIDCache : List (Str × List Str)
  cached : List (Str × α)

namespace Cache

variable {α : Type} [ObjectMeta α]

def empty : Cache α := ⟨[], []⟩

def uids (c : Cache α) (ns : Str) : List Str :=
  (find ns c.namespaceUIDCache).getD []

def add (c : Cache α) (obj : α) : Cache α :=
  let ns := ObjectMeta.namespaceName obj
  let uid := ObjectMeta.uid obj
  ⟨put ns ((c.uids ns).insert uid) c.namespaceUIDCache, put uid obj c.cached⟩

def get (c : Cache α) (uid : Str) : Option α :=
  find uid c.cached

def getForNamespace (c : Cache α) (ns : Str) : List α :=
  (c.uids ns).filterMap c.get

/-- `DeleteByKey`, which leaves the cache alone where it gives an error. -/
def deleteByKey (c : Cache α) (uid : Str) : Cache α :=
  match c.get uid with
  | none => c
  | some obj =>
    let ns := ObjectMeta.namespaceName obj
    let rest := (c.uids ns).filter (· ≠ uid)
    ⟨if rest = [] then remove ns c.namespaceUIDCache else put ns rest c.namespaceUIDCache, remove uid c.cached⟩

/-- `DeleteByKey` of the replica sets, which keeps the empty set of a namespace. -/
def deleteByKeyKeepingSet (c : Cache α) (uid : Str) : Cache α :=
  match c.get uid with
  | none => c
  | some obj =>
    let ns := ObjectMeta.namespaceName obj
    ⟨put ns ((c.uids ns).filter (· ≠ uid)) c.namespaceUIDCache, remove uid c.cached⟩

structure Indexed (c : Cache α) : Prop where
  uid : ∀ u obj, c.get u = some obj → ObjectMeta.uid obj = u
  mem : ∀ u ns, u ∈ c.uids ns ↔ ∃ obj, c.get u = some obj ∧ ObjectMeta.namespaceName obj = ns

variable {c : Cache α}

theorem indexed_empty : (empty : Cache α).Indexed :=
  ⟨nofun, by simp [uids, get, empty]⟩

variable (obj : α)

theorem get_add (u : Str) : (c.add obj).get u = if u = ObjectMeta.uid obj then some obj else c.get u := by
  unfold get add
  by_cases hu : u = ObjectMeta.uid obj
  · simp [hu]
  · simp [hu, find_put_ne]

theorem uids_add (ns : Str) : (c.add obj).uids ns =
    if ns = ObjectMeta.namespaceName obj then (c.uids ns).insert (ObjectMeta.uid obj) else c.uids ns := by
  unfold add uids
  rw [find_put]
  split_ifs with hns
  · rw [hns]
    rfl
  · rfl

theorem mem_uids_add (u ns : Str) : u ∈ (c.add obj).uids ns ↔
    ns = ObjectMeta.namespaceName obj ∧ u = ObjectMeta.uid obj ∨ u ∈ c.uids ns := by
  rw [uids_add]
  split_ifs with hns <;> simp [hns]

theorem Indexed.add (h : c.Indexed) {obj : α}
    (hns : ∀ old, c.get (ObjectMeta.uid obj) = some old → ObjectMeta.namespaceName old = ObjectMeta.namespaceName obj) :
    (c.add obj).Indexed := by
  constructor
  · intro u o ho
    rw [get_add] at ho
    split_ifs at ho with hu
    · cases ho
      exact hu.symm
    · exact h.uid u o ho
  · intro u ns
    rw [mem_uids_add, get_add, h.mem]
    by_cases hu : u = ObjectMeta.uid obj
    · subst hu
      simp only [and_true, if_pos, some.injEq, exists_eq_left']
      constructor
      · rintro (rfl | ⟨old, hold, rfl⟩)
        · rfl
        · exact (hns old hold).symm
      · rintro rfl
        exact .inl rfl
    · simp [hu]

theorem get_deleteByKey (u k : Str) : (c.deleteByKey k).get u = if u = k then none else c.get u := by
  unfold deleteByKey
  split
  · rename_i hn
    split
    · rename_i heq
      rw [heq, hn]
    · rfl
  · exact find_remove k u c.cached

theorem uids_deleteByKeyKeepingSet (k ns : Str) : (c.deleteByKeyKeepingSet k).uids ns =
    if (c.get k).map ObjectMeta.namespaceName = some ns then (c.uids ns).filter (· ≠ k) else c.uids ns := by
  unfold deleteByKeyKeepingSet
  cases c.get k with
  | none => rfl
  | some obj =>
    unfold uids
    simp only [map_some, some.injEq, find_put, eq_comm]
    split_ifs with hns
    · rw [hns]
      rfl
    · rfl

theorem uids_deleteByKey (k ns : Str) : (c.deleteByKey k).uids ns = (c.deleteByKeyKeepingSet k).uids ns := by
  unfold deleteByKey deleteByKeyKeepingSet
  cases c.get k with
  | none => rfl
  | some obj =>
    unfold uids
    simp only
    split_ifs with hr
    · rw [find_put, find_remove, hr]
      split_ifs <;> rfl
    · rfl

theorem Indexed.mem_uids_deleteByKey (h : c.Indexed) (k u ns : Str) :
    u ∈ (c.deleteByKey k).uids ns ↔ u ∈ c.uids ns ∧ u ≠ k := by
  rw [uids_deleteByKey, uids_deleteByKeyKeepingSet]
  split_ifs with hk
  · simp
  · refine (and_iff_left_of_imp ?_).symm
    rintro hu rfl
    obtain ⟨obj, hobj, rfl⟩ := (h.mem u ns).mp hu
    exact hk (congrArg _ hobj)

theorem Indexed.deleteByKey (h : c.Indexed) (k : Str) : (c.deleteByKey k).Indexed := by
  constructor
  · intro u o ho
    rw [get_deleteByKey] at ho
    split at ho
    · cases ho
    · exact h.uid u o ho
  · intro u ns
    rw [h.mem_uids_deleteByKey, get_deleteByKey, h.mem]
    by_cases hu : u = k <;> simp [hu]

theorem Indexed.mem_getForNamespace (h : c.Indexed) (ns : Str) (obj : α) :
    obj ∈ c.getForNamespace ns ↔ c.get (ObjectMeta.uid obj) = some obj ∧ ObjectMeta.namespaceName obj = ns := by
  unfold getForNamespace
  rw [mem_filterMap]
  constructor
  · rintro ⟨u, hu, hget⟩
    obtain ⟨o, ho, hns⟩ := (h.mem u ns).mp hu
    rw [hget] at ho
    cases ho
    rw [h.uid u obj hget]
    exact ⟨hget, hns⟩
  · rintro ⟨hget, hns⟩
    exact ⟨_, (h.mem _ ns).mpr ⟨obj, hget, hns⟩, hget⟩

end Cache

/-! ## The updates -/

/-- An update of `kubernetes_pod_uid`, which is merged into the properties and tags there are. -/
structure Dimension where
  value : Str
  properties : List (Str × Str)
  tags : List (Str × Bool)
  deriving DecidableEq

variable {sent : List Dimension}

def propNameSanitizer (label : Str) : Str :=
  label.map fun c => if c = '.' ∨ c = '/' then '_' else c

def addLabel (out : List (Str × Str) × List (Str × Bool)) (label : Str × Str) :
    List (Str × Str) × List (Str × Bool) :=
  let key := propNameSanitizer label.1
  if label.2 = [] then (out.1, put key true out.2) else (put key label.2 out.1, out.2)

def propsAndTagsFromLabels (labels : List (Str × Str)) : List (Str × Str) × List (Str × Bool) :=
  labels.foldl addLabel ([], [])

/-- An empty selector matches every pod. -/
def selectorMatchesPod (selector : List (Str × Str)) (pod : Pod) : Bool :=
  selector.all fun label => find label.1 pod.labels = some label.2

def findOwnerWithUID (ors : List OwnerReference) (uid : Str) : Option OwnerReference :=
  ors.find? (·.uid = uid)

def findOwnerWithKind (ors : List OwnerReference) (kind : Str) : Option OwnerReference :=
  ors.find? (·.kind = kind)

def lowercaseFirstChar : Str → Str
  | [] => []
  | c :: cs => c.toLower :: cs

def ownerProperties (props : List (Str × Str)) (or : OwnerReference) : List (Str × Str) :=
  let props := put (lowercaseFirstChar or.kind) or.name props
  let props := put (lowercaseFirstChar or.kind ++ "_uid") or.uid props
  if or.kind = "ReplicaSet" ∨ or.kind = "Job" then props
  else put "kubernetes_workload_name" or.name (put "kubernetes_workload" or.kind props)

def dimensionForPod (pod : Pod) : Dimension :=
  let out := propsAndTagsFromLabels pod.labels
  let props := put "pod_creation_timestamp".toList pod.creationTimestamp out.1
  ⟨pod.uid, pod.ownerReferences.foldl ownerProperties props, out.2⟩

def dimensionForPodWorkload (pod : Pod) (workloadName workloadType : Str) : Dimension :=
  ⟨pod.uid, [("kubernetes_workload", workloadType), ("kubernetes_workload_name", workloadName)], []⟩

def serviceTag (name : Str) : Str :=
  "kubernetes_service_" ++ name

def dimensionForPodServices (pod : Pod) (serviceNames : List Str) (isAdd : Bool) : Dimension :=
  ⟨pod.uid, [], serviceNames.foldl (fun tags srv => put (serviceTag srv) isAdd tags) []⟩

def dimensionForPodDeployment (pod : Pod) (deploymentName deploymentUID : Str) : Dimension :=
  ⟨pod.uid, [("kubernetes_workload", "Deployment"), ("kubernetes_workload_name", deploymentName),
    ("deployment", deploymentName), ("deployment_uid", deploymentUID)], []⟩

def dimensionForPodCronJob (pod : Pod) (cronJobName cronJobUID : Str) : Dimension :=
  ⟨pod.uid, [("kubernetes_workload", "CronJob"), ("kubernetes_workload_name", cronJobName),
    ("cronJob", cronJobName), ("cronJob_uid", cronJobUID)], []⟩

/-! ## The handler -/

inductive Kind where
  | pod
  | service
  | replicaSet
  | job
  deriving DecidableEq

inductive Object where
  | pod (o : Pod)
  | service (o : Service)
  | replicaSet (o : Workload)
  | job (o : Workload)
  deriving DecidableEq

def Object.uid : Object → Str
  | .pod o => o.uid
  | .service o => o.uid
  | .replicaSet o => o.uid
  | .job o => o.uid

def Object.kind : Object → Kind
  | .pod _ => .pod
  | .service _ => .service
  | .replicaSet _ => .replicaSet
  | .job _ => .job

structure DimensionHandler where
  uidKindCache : List (Str × Kind)
  podCache : Cache Pod
  serviceCache : Cache Service
  replicaSetCache : Cache Workload
  jobCache : Cache Workload
  sent : List Dimension

namespace DimensionHandler

def initial : DimensionHandler :=
  ⟨[], .empty, .empty, .empty, .empty, []⟩

def send (dh : DimensionHandler) (dims : List Dimension) : DimensionHandler :=
  { dh with sent := dh.sent ++ dims }

def dimensionForPodReplicaSet (pod : Pod) (rs : Workload) : Dimension :=
  match findOwnerWithKind rs.ownerReferences "Deployment" with
  | some deployRef => dimensionForPodDeployment pod deployRef.name deployRef.uid
  | none => dimensionForPodWorkload pod rs.name "ReplicaSet"

def dimensionForPodJob (pod : Pod) (job : Workload) : Dimension :=
  match findOwnerWithKind job.ownerReferences "CronJob" with
  | some cronJobRef => dimensionForPodCronJob pod cronJobRef.name cronJobRef.uid
  | none => dimensionForPodWorkload pod job.name "Job"

def podServiceNames (dh : DimensionHandler) (pod : Pod) : List Str :=
  ((dh.serviceCache.getForNamespace pod.namespaceName).filter fun ser => selectorMatchesPod ser.selector pod).map
    Service.name

def serviceUpdates (dh : DimensionHandler) (pod : Pod) : List Dimension :=
  if dh.podServiceNames pod = [] then [] else [dimensionForPodServices pod (dh.podServiceNames pod) true]

def cachedOwner (cache : Cache Workload) (kind : Str) (pod : Pod) : Option Workload :=
  (findOwnerWithKind pod.ownerReferences kind).bind fun ref => cache.get ref.uid

def handleAddPod (dh : DimensionHandler) (pod : Pod) : DimensionHandler :=
  let dh := { dh with podCache := dh.podCache.add pod }
  dh.send (dh.serviceUpdates pod ++
    ((cachedOwner dh.replicaSetCache "ReplicaSet" pod).map (dimensionForPodReplicaSet pod)).toList ++
    ((cachedOwner dh.jobCache "Job" pod).map (dimensionForPodJob pod)).toList)

def matchingPods (dh : DimensionHandler) (service : Service) : List Pod :=
  (dh.podCache.getForNamespace service.namespaceName).filter fun pod => selectorMatchesPod service.selector pod

def handleAddService (dh : DimensionHandler) (service : Service) : DimensionHandler :=
  let dh := { dh with serviceCache := dh.serviceCache.add service }
  dh.send ((dh.matchingPods service).map fun pod => dimensionForPodServices pod [service.name] true)

def handleDeleteService (dh : DimensionHandler) (uid : Str) : DimensionHandler :=
  match dh.serviceCache.get uid with
  | none => dh
  | some service =>
    let dh := { dh with serviceCache := dh.serviceCache.deleteByKey uid }
    dh.send ((dh.matchingPods service).map fun pod => dimensionForPodServices pod [service.name] false)

def ownedPods (dh : DimensionHandler) (owner : Workload) : List Pod :=
  (dh.podCache.getForNamespace owner.namespaceName).filter fun pod =>
    (findOwnerWithUID pod.ownerReferences owner.uid).isSome

def handleAddReplicaSet (dh : DimensionHandler) (rs : Workload) : DimensionHandler :=
  let dh := { dh with replicaSetCache := dh.replicaSetCache.add rs }
  dh.send ((dh.ownedPods rs).map fun pod => dimensionForPodReplicaSet pod rs)

def handleAddJob (dh : DimensionHandler) (job : Workload) : DimensionHandler :=
  let dh := { dh with jobCache := dh.jobCache.add job }
  dh.send ((dh.ownedPods job).map fun pod => dimensionForPodJob pod job)

def handleAdd (dh : DimensionHandler) (newObj : Object) : DimensionHandler :=
  let dh := match newObj with
    | .pod o => (dh.send [dimensionForPod o]).handleAddPod o
    | .service o => dh.handleAddService o
    | .replicaSet o => dh.handleAddReplicaSet o
    | .job o => dh.handleAddJob o
  { dh with uidKindCache := put newObj.uid newObj.kind dh.uidKindCache }

def deleteByKey (dh : DimensionHandler) (key : Str) : DimensionHandler :=
  let dh := match find key dh.uidKindCache with
    | some .pod => { dh with podCache := dh.podCache.deleteByKey key }
    | some .service => dh.handleDeleteService key
    | some .replicaSet => { dh with replicaSetCache := dh.replicaSetCache.deleteByKeyKeepingSet key }
    | some .job => { dh with jobCache := dh.jobCache.deleteByKey key }
    | none => dh
  { dh with uidKindCache := remove key dh.uidKindCache }

end DimensionHandler

/-! ## What the dimension of a pod has after the updates -/

variable {V : Type} (field : Dimension → List (Str × V)) (uid key : Str)

def latest (sent : List Dimension) : Option V :=
  sent.reverse.findSome? fun d => if d.value = uid then find key (field d) else none

theorem latest_append (sent more : List Dimension) :
    latest field uid key (sent ++ more) = (latest field uid key more).or (latest field uid key sent) := by
  simp [latest, findSome?_append]

theorem latest_nil : latest field uid key [] = none := rfl

theorem latest_cons (d : Dimension) (sent : List Dimension) : latest field uid key (d :: sent) =
    (latest field uid key sent).or (if d.value = uid then find key (field d) else none) := by
  simp [latest, findSome?_append]

theorem latest_eq_none (h : ∀ d ∈ sent, d.value = uid → find key (field d) = none) :
    latest field uid key sent = none := by
  apply findSome?_eq_none_iff.mpr
  intro d hd
  rw [mem_reverse] at hd
  split
  · exact h d hd ‹_›
  · rfl

theorem latest_eq_some {v : V} (h : ∀ d ∈ sent, d.value = uid → ∀ w, find key (field d) = some w → w = v)
    (hs : ∃ d ∈ sent, d.value = uid ∧ find key (field d) = some v) : latest field uid key sent = some v := by
  cases hl : latest field uid key sent with
  | none =>
    obtain ⟨d, hd, huid, hf⟩ := hs
    have hn := findSome?_eq_none_iff.mp hl d (mem_reverse.mpr hd)
    rw [if_pos huid, hf] at hn
    cases hn
  | some w =>
    obtain ⟨d, hd, hw⟩ := exists_of_findSome?_eq_some hl
    split at hw
    · rw [h d (mem_reverse.mp hd) ‹_› w hw]
    · cases hw

end Collector.Kubernetes
