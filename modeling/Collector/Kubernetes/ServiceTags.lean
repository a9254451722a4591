import Collector.Kubernetes.Dimensions
import Collector.Lib.Runs

/-!
# Service tags on pods

Only the deletion of a service sends that a tag is gone.
-/

namespace Collector.Kubernetes

open Lib List Option

variable (dh : DimensionHandler) (pod : Pod) {ns : Str}

def Object.namespaceName : Object → Str
  | .pod o => o.namespaceName
  | .service o => o.namespaceName
  | .replicaSet o => o.namespaceName
  | .job o => o.namespaceName

structure Watched where
  handler : DimensionHandler
  objects : List (Str × Object)

namespace Watched

def initial : Watched :=
  ⟨.initial, []⟩

inductive Action where
  | add (obj : Object)
  | delete (uid : Str)

def pods (s : Watched) (ns : Str) : List Pod :=
  s.objects.filterMap fun e => match e.2 with
    | .pod pod => if pod.namespaceName = ns then some pod else none
    | _ => none

def services (s : Watched) (ns : Str) : List Service :=
  s.objects.filterMap fun e => match e.2 with
    | .service ser => if ser.namespaceName = ns then some ser else none
    | _ => none

/-- A UID stands for one object, which stays in its namespace. -/
def SameObject (s : Watched) (obj : Object) : Prop :=
  ∀ old ∈ find obj.uid s.objects, old.kind = obj.kind ∧ old.namespaceName = obj.namespaceName

def NameFree (s : Watched) : Object → Prop
  | .service ser => ∀ other ∈ s.services ser.namespaceName, other.name = ser.name → other.uid = ser.uid
  | _ => True

instance (s : Watched) : (obj : Object) → Decidable (s.NameFree obj)
  | .service _ => inferInstanceAs (Decidable (∀ _ ∈ _, _))
  | .pod _ | .replicaSet _ | .job _ => .isTrue trivial

instance (s : Watched) (obj : Object) : Decidable (s.SameObject obj) :=
  inferInstanceAs (Decidable (∀ _ ∈ find obj.uid s.objects, _))

def add (s : Watched) (obj : Object) : Watched :=
  ⟨s.handler.handleAdd obj, put obj.uid obj s.objects⟩

def delete (s : Watched) (uid : Str) : Watched :=
  ⟨s.handler.deleteByKey uid, remove uid s.objects⟩

@[simp] theorem objects_add (s : Watched) (obj : Object) : (s.add obj).objects = put obj.uid obj s.objects := rfl

@[simp] theorem objects_delete (s : Watched) (uid : Str) : (s.delete uid).objects = remove uid s.objects := rfl

def step (s : Watched) : Action → Option Watched
  | .add obj => if s.SameObject obj ∧ s.NameFree obj then some (s.add obj) else none
  | .delete uid => some (s.delete uid)

/-! ## When the tags stay in step -/

def tagsOf (s : Watched) (uid : Str) : List Str :=
  (s.handler.sent.flatMap fun d => Lib.keys d.tags).filter fun tag =>
    latest Dimension.tags uid tag s.handler.sent = some true

def labelTags (labels : List (Str × Str)) : List Str :=
  (labels.filter (·.2 = [])).map fun label => propNameSanitizer label.1

def IsServiceTag (tag : Str) : Prop :=
  tag.take (serviceTag []).length = serviceTag []

instance (tag : Str) : Decidable (IsServiceTag tag) :=
  inferInstanceAs (Decidable (_ = _))

def Selects (s : Watched) (pod : Pod) (tag : Str) : Prop :=
  ∃ ser ∈ s.services pod.namespaceName,
    serviceTag ser.name = tag ∧ ser.selector ≠ [] ∧ selectorMatchesPod ser.selector pod = true

/-- The service tags of a pod are of services that match it. The selectors are not empty, and a service matches the
pods that it matched. -/
def Keeps (s : Watched) : Action → Prop
  | .add (.pod pod) =>
    (∀ ser ∈ s.services pod.namespaceName, ser.selector ≠ []) ∧
      ∀ tag ∈ s.tagsOf pod.uid ++ labelTags pod.labels, IsServiceTag tag → s.Selects pod tag
  | .add (.service ser) =>
    ∀ pod ∈ s.pods ser.namespaceName, ser.selector ≠ [] ∧
      ∀ old ∈ s.services ser.namespaceName, old.uid = ser.uid → selectorMatchesPod old.selector pod = true →
        old.name = ser.name ∧ selectorMatchesPod ser.selector pod = true
  | _ => True

instance (s : Watched) : (a : Action) → Decidable (s.Keeps a)
  | .add (.pod _) =>
    have (pod : Pod) (tag : Str) : Decidable (s.Selects pod tag) := inferInstanceAs (Decidable (∃ _ ∈ _, _))
    inferInstanceAs (Decidable (_ ∧ _))
  | .add (.service _) => inferInstanceAs (Decidable (∀ _ ∈ _, _))
  | .add (.replicaSet _) | .add (.job _) | .delete _ => .isTrue trivial

/-! ## The caches have the objects -/

structure Tied (s : Watched) : Prop where
  objectKeys : (keys s.objects).Nodup
  uid : ∀ u obj, find u s.objects = some obj → obj.uid = u
  kinds : ∀ u, find u s.handler.uidKindCache = (find u s.objects).map Object.kind
  pod : ∀ u pod, s.handler.podCache.get u = some pod ↔ find u s.objects = some (.pod pod)
  service : ∀ u ser, s.handler.serviceCache.get u = some ser ↔ find u s.objects = some (.service ser)
  podIndex : s.handler.podCache.Indexed
  serviceIndex : s.handler.serviceCache.Indexed

theorem tied_initial : initial.Tied :=
  ⟨nodup_nil, nofun, fun _ => rfl, fun _ _ => by simp [initial, DimensionHandler.initial, Cache.get, Cache.empty],
    fun _ _ => by simp [initial, DimensionHandler.initial, Cache.get, Cache.empty], Cache.indexed_empty,
    Cache.indexed_empty⟩

variable {s s' : Watched}

theorem Tied.mem_pods (h : s.Tied) (ns : Str) (pod : Pod) :
    pod ∈ s.pods ns ↔ find pod.uid s.objects = some (.pod pod) ∧ pod.namespaceName = ns := by
  simp only [pods, mem_filterMap]
  constructor
  · rintro ⟨⟨u, obj⟩, hmem, hpod⟩
    have hf := find_of_mem h.objectKeys hmem
    obtain rfl := h.uid u obj hf
    cases obj with
    | pod o =>
      obtain ⟨hns, ⟨⟩⟩ := ite_none_right_eq_some.mp hpod
      exact ⟨hf, hns⟩
    | _ => cases hpod
  · rintro ⟨hf, hns⟩
    exact ⟨_, find_mem _ _ _ hf, by simp [hns]⟩

theorem Tied.mem_services (h : s.Tied) (ns : Str) (ser : Service) :
    ser ∈ s.services ns ↔ find ser.uid s.objects = some (.service ser) ∧ ser.namespaceName = ns := by
  simp only [services, mem_filterMap]
  constructor
  · rintro ⟨⟨u, obj⟩, hmem, hser⟩
    have hf := find_of_mem h.objectKeys hmem
    obtain rfl := h.uid u obj hf
    cases obj with
    | service o =>
      obtain ⟨hns, ⟨⟩⟩ := ite_none_right_eq_some.mp hser
      exact ⟨hf, hns⟩
    | _ => cases hser
  · rintro ⟨hf, hns⟩
    exact ⟨_, find_mem _ _ _ hf, by simp [hns]⟩

theorem Tied.mem_cachedPods (h : s.Tied) (ns : Str) (pod : Pod) :
    pod ∈ s.handler.podCache.getForNamespace ns ↔ pod ∈ s.pods ns := by
  rw [h.podIndex.mem_getForNamespace, h.mem_pods]
  exact and_congr_left' (h.pod _ _)

theorem Tied.mem_cachedServices (h : s.Tied) (ns : Str) (ser : Service) :
    ser ∈ s.handler.serviceCache.getForNamespace ns ↔ ser ∈ s.services ns := by
  rw [h.serviceIndex.mem_getForNamespace, h.mem_services]
  exact and_congr_left' (h.service _ _)

theorem find_put_of_kind {obj o : Object} (hs : s.SameObject obj) (hk : o.kind ≠ obj.kind) (u : Str) :
    find u (put obj.uid obj s.objects) = some o ↔ find u s.objects = some o := by
  by_cases hu : u = obj.uid
  · subst hu
    rw [find_put_self]
    constructor
    · rintro ⟨⟩
      exact absurd rfl hk
    · intro hf
      exact absurd (hs o hf).1 hk
  · rw [find_put_ne _ _ hu]

theorem uidKindCache_handleAdd (obj : Object) :
    (dh.handleAdd obj).uidKindCache = put obj.uid obj.kind dh.uidKindCache := by
  cases obj <;> rfl

variable {obj : Object}

theorem Tied.add (h : s.Tied) (hs : s.SameObject obj) : (s.add obj).Tied := by
  unfold Watched.add
  have huid : ∀ u o, find u (put obj.uid obj s.objects) = some o → o.uid = u := by
    intro u o ho
    by_cases hu : u = obj.uid
    · subst hu
      rw [find_put_self] at ho
      cases ho
      rfl
    · rw [find_put_ne _ _ hu] at ho
      exact h.uid u o ho
  have hk : ∀ u, find u (s.handler.handleAdd obj).uidKindCache =
      (find u (put obj.uid obj s.objects)).map Object.kind := by
    intro u
    rw [uidKindCache_handleAdd]
    by_cases hu : u = obj.uid
    · simp [hu]
    · rw [find_put_ne _ _ hu, find_put_ne _ _ hu, h.kinds]
  have hke := nodup_keys_put obj.uid obj h.objectKeys
  cases obj with
  | pod p =>
    refine ⟨hke, huid, hk, fun u pod => ?_, fun u ser => ?_, ?_, h.serviceIndex⟩
    · rw [show (s.handler.handleAdd (.pod p)).podCache = s.handler.podCache.add p from rfl, Cache.get_add]
      by_cases hu : u = ObjectMeta.uid p
      · subst hu
        simp [ObjectMeta.uid, Object.uid]
      · rw [if_neg hu, h.pod, find_put_ne _ _ (by exact hu)]
    · rw [find_put_of_kind hs (by simp [Object.kind])]
      exact h.service u ser
    · apply h.podIndex.add
      intro old hold
      exact (hs _ ((h.pod _ _).mp hold)).2
  | service q =>
    refine ⟨hke, huid, hk, fun u pod => ?_, fun u ser => ?_, h.podIndex, ?_⟩
    · rw [find_put_of_kind hs (by simp [Object.kind])]
      exact h.pod u pod
    · rw [show (s.handler.handleAdd (.service q)).serviceCache = s.handler.serviceCache.add q from rfl, Cache.get_add]
      by_cases hu : u = ObjectMeta.uid q
      · subst hu
        simp [ObjectMeta.uid, Object.uid]
      · rw [if_neg hu, h.service, find_put_ne _ _ (by exact hu)]
    · apply h.serviceIndex.add
      intro old hold
      exact (hs _ ((h.service _ _).mp hold)).2
  | replicaSet _ | job _ =>
    refine ⟨hke, huid, hk, fun u pod => ?_, fun u ser => ?_, h.podIndex, h.serviceIndex⟩
    · rw [find_put_of_kind hs (by simp [Object.kind])]
      exact h.pod u pod
    · rw [find_put_of_kind hs (by simp [Object.kind])]
      exact h.service u ser

theorem deleteByKey_spec (key : Str) : (dh.deleteByKey key).uidKindCache = remove key dh.uidKindCache ∧
    (dh.deleteByKey key).podCache =
      (if find key dh.uidKindCache = some .pod then dh.podCache.deleteByKey key else dh.podCache) ∧
    (dh.deleteByKey key).serviceCache =
      (if find key dh.uidKindCache = some .service then dh.serviceCache.deleteByKey key else dh.serviceCache) ∧
    (dh.deleteByKey key).sent = dh.sent ++ if find key dh.uidKindCache = some .service then
        (dh.serviceCache.get key).toList.flatMap fun service =>
          (dh.matchingPods service).map fun pod => dimensionForPodServices pod [service.name] false
      else [] := by
  unfold DimensionHandler.deleteByKey
  split
  case h_2 hk =>
    rw [hk]
    unfold DimensionHandler.handleDeleteService
    split
    · rename_i hn
      simp [Cache.deleteByKey, hn]
    · rename_i service hs
      simp [hs, DimensionHandler.send]
      rfl
  all_goals rename_i hk; rw [hk]; simp

/-- A cache that loses the object of a key of its kind, and no other. -/
theorem get_delete_iff {α : Type} [ObjectMeta α] {c : Cache α} (wrap : α → Object) {k : Kind}
    (hk : ∀ x, (wrap x).kind = k) (h : ∀ u x, c.get u = some x ↔ find u s.objects = some (wrap x))
    (key u : Str) (x : α) :
    (if (find key s.objects).map Object.kind = some k then c.deleteByKey key else c).get u = some x ↔
      find u (remove key s.objects) = some (wrap x) := by
  rw [find_remove]
  by_cases hu : u = key
  · subst hu
    split
    · simp [Cache.get_deleteByKey]
    · rename_i hne
      simp only [h, if_pos, reduceCtorEq, iff_false]
      intro hf
      exact hne (by simp [hf, hk])
  · split <;> simp [Cache.get_deleteByKey, hu, h]

theorem Tied.delete (h : s.Tied) (key : Str) : (s.delete key).Tied := by
  obtain ⟨hki, hpo, hse, -⟩ := deleteByKey_spec s.handler key
  rw [h.kinds] at hpo hse
  unfold Watched.delete
  refine ⟨nodup_keys_filter _ h.objectKeys, ?_, ?_, ?_, ?_, ?_, ?_⟩
  · intro u obj hf
    rw [find_remove] at hf
    split at hf
    · cases hf
    · exact h.uid u obj hf
  · intro u
    simp only [hki, find_remove]
    split
    · rfl
    · exact h.kinds u
  · intro u pod
    rw [hpo]
    exact get_delete_iff .pod (fun _ => rfl) h.pod key u pod
  · intro u ser
    rw [hse]
    exact get_delete_iff .service (fun _ => rfl) h.service key u ser
  · rw [hpo]
    split
    · exact h.podIndex.deleteByKey key
    · exact h.podIndex
  · rw [hse]
    split
    · exact h.serviceIndex.deleteByKey key
    · exact h.serviceIndex

/-! ## What the events send -/

theorem mem_tagsOf (uid tag : Str) :
    tag ∈ s.tagsOf uid ↔ latest Dimension.tags uid tag s.handler.sent = some true := by
  simp only [tagsOf, mem_filter, decide_eq_true_eq, and_iff_right_iff_imp]
  intro hl
  obtain ⟨d, hd, htag⟩ := exists_of_findSome?_eq_some hl
  split at htag
  · refine mem_flatMap.mpr ⟨d, mem_reverse.mp hd, ?_⟩
    exact mem_map_of_mem (find_mem _ _ _ htag)
  · cases htag

theorem serviceTag_inj {a b : Str} : serviceTag a = serviceTag b ↔ a = b :=
  append_right_inj _

theorem isServiceTag (name : Str) : IsServiceTag (serviceTag name) := by
  have ha : serviceTag name = serviceTag [] ++ name := by
    unfold serviceTag
    rw [append_nil]
  rw [IsServiceTag, ha]
  exact take_left

variable (names : List Str)

theorem find_foldl_serviceTag (isAdd : Bool) (name : Str) (tags : List (Str × Bool)) :
    find (serviceTag name) (names.foldl (fun tags srv => put (serviceTag srv) isAdd tags) tags) =
      if name ∈ names then some isAdd else find (serviceTag name) tags := by
  induction names generalizing tags with
  | nil => rfl
  | cons srv names ih =>
    rw [foldl_cons, ih]
    by_cases hn : name = srv
    · subst hn
      simp
    · have hne : serviceTag name ≠ serviceTag srv := fun heq => hn (serviceTag_inj.mp heq)
      simp [hn, find_put_ne _ _ hne]

theorem find_tags_services (isAdd : Bool) (name : Str) :
    find (serviceTag name) (dimensionForPodServices pod names isAdd).tags =
      if name ∈ names then some isAdd else none := by
  unfold dimensionForPodServices
  rw [find_foldl_serviceTag, find_nil]

theorem find_foldl_addLabel (labels : List (Str × Str)) (tag : Str) (out : List (Str × Str) × List (Str × Bool)) :
    find tag (labels.foldl addLabel out).2 = if tag ∈ labelTags labels then some true else find tag out.2 := by
  induction labels generalizing out with
  | nil => simp [labelTags]
  | cons label labels ih =>
    rw [foldl_cons, ih]
    by_cases hv : label.2 = []
    · have ht : labelTags (label :: labels) = propNameSanitizer label.1 :: labelTags labels := by
        simp [labelTags, hv]
      by_cases htag : tag = propNameSanitizer label.1
      · subst htag
        simp [ht, addLabel, hv]
      · simp [ht, addLabel, hv, htag, find_put_ne]
    · have ht : labelTags (label :: labels) = labelTags labels := by
        simp [labelTags, hv]
      simp [ht, addLabel, hv]

theorem find_tags_pod (tag : Str) :
    find tag (dimensionForPod pod).tags = if tag ∈ labelTags pod.labels then some true else none := by
  unfold dimensionForPod propsAndTagsFromLabels
  rw [find_foldl_addLabel, find_nil]

theorem tags_dimensionForPodReplicaSet (rs : Workload) :
    (DimensionHandler.dimensionForPodReplicaSet pod rs).tags = [] := by
  unfold DimensionHandler.dimensionForPodReplicaSet
  split <;> rfl

theorem tags_dimensionForPodJob (job : Workload) : (DimensionHandler.dimensionForPodJob pod job).tags = [] := by
  unfold DimensionHandler.dimensionForPodJob
  split <;> rfl

theorem latest_tags_eq_none {dims : List Dimension} (h : ∀ d ∈ dims, d.tags = []) (uid tag : Str) :
    latest Dimension.tags uid tag dims = none :=
  latest_eq_none _ _ _ fun d hd _ => by rw [h d hd, find_nil]

theorem latest_services (pods : List Pod) (service : Str) (isAdd : Bool) (uid name : Str) :
    latest Dimension.tags uid (serviceTag name) (pods.map fun pod => dimensionForPodServices pod [service] isAdd) =
      if name = service ∧ ∃ pod ∈ pods, pod.uid = uid then some isAdd else none := by
  split_ifs with h
  · obtain ⟨rfl, pod, hpod, huid⟩ := h
    apply latest_eq_some
    · intro d hd _ w hw
      obtain ⟨q, -, rfl⟩ := mem_map.mp hd
      rw [find_tags_services] at hw
      simpa using hw.symm
    · exact ⟨_, mem_map_of_mem hpod, huid, by simp [find_tags_services]⟩
  · apply latest_eq_none
    intro d hd huid
    obtain ⟨q, hq, rfl⟩ := mem_map.mp hd
    rw [find_tags_services, if_neg]
    intro hn
    exact h ⟨mem_singleton.mp hn, q, hq, huid⟩

variable (p : Pod)

theorem latest_serviceUpdates (uid name : Str) : latest Dimension.tags uid (serviceTag name) (dh.serviceUpdates p) =
      if uid = p.uid ∧ name ∈ dh.podServiceNames p then some true else none := by
  unfold DimensionHandler.serviceUpdates
  split
  · rename_i hnil
    simp [hnil, latest_nil]
  · rw [latest_cons, latest_nil, find_tags_services, none_or]
    by_cases huid : uid = p.uid
    · subst huid
      simp [dimensionForPodServices]
    · have hne : (dimensionForPodServices p (dh.podServiceNames p) true).value ≠ uid := fun heq => huid heq.symm
      simp [huid, hne]

theorem mem_tagsOf_addPod (uid name : Str) : serviceTag name ∈ (s.add (.pod p)).tagsOf uid ↔
      uid = p.uid ∧ (name ∈ s.handler.podServiceNames p ∨ serviceTag name ∈ labelTags p.labels) ∨
        serviceTag name ∈ s.tagsOf uid := by
  obtain ⟨owners, hs, ho⟩ : ∃ owners, (s.add (.pod p)).handler.sent =
      s.handler.sent ++ (dimensionForPod p :: (s.handler.serviceUpdates p ++ owners)) ∧ ∀ d ∈ owners, d.tags = [] := by
    refine ⟨_, by simp [add, DimensionHandler.handleAdd, DimensionHandler.handleAddPod, DimensionHandler.send]; rfl, ?_⟩
    intro d hd
    simp only [mem_append, mem_toList, map_eq_some_iff] at hd
    rcases hd with ⟨rs, -, rfl⟩ | ⟨job, -, rfl⟩
    · exact tags_dimensionForPodReplicaSet p rs
    · exact tags_dimensionForPodJob p job
  rw [mem_tagsOf, mem_tagsOf, hs, latest_append, latest_cons, latest_append, latest_tags_eq_none ho,
    latest_serviceUpdates, find_tags_pod, none_or]
  by_cases huid : uid = p.uid
  · subst huid
    by_cases hn : name ∈ s.handler.podServiceNames p
    · simp [hn]
    · by_cases htag : serviceTag name ∈ labelTags p.labels
      · simp [hn, htag, dimensionForPod]
      · simp [hn, htag]
  · have hne : (dimensionForPod p).value ≠ uid := fun heq => huid heq.symm
    simp [huid, hne]

/-! ## Runs -/

structure InStep (s : Watched) : Prop where
  tied : s.Tied
  names : ∀ ns, ∀ ser ∈ s.services ns, ∀ other ∈ s.services ns, other.name = ser.name → other = ser
  selectors : ∀ ns, ∀ pod ∈ s.pods ns, ∀ ser ∈ s.services ns, ser.selector ≠ []
  tags : ∀ ns, ∀ pod ∈ s.pods ns, ∀ name, serviceTag name ∈ s.tagsOf pod.uid ↔ s.Selects pod (serviceTag name)

theorem inStep_initial : initial.InStep :=
  ⟨tied_initial, nofun, nofun, nofun⟩

section

variable (h : s.Tied)
include h

theorem Tied.mem_pods_add (hs : s.SameObject obj) (ns : Str) (pod : Pod) :
    pod ∈ (s.add obj).pods ns ↔ obj = .pod pod ∧ pod.namespaceName = ns ∨ pod.uid ≠ obj.uid ∧ pod ∈ s.pods ns := by
  rw [(h.add hs).mem_pods, h.mem_pods]
  by_cases huid : pod.uid = obj.uid
  · simp [huid]
  · have hne : obj ≠ .pod pod := by
      rintro rfl
      exact huid rfl
    simp [huid, hne, find_put_ne]

theorem Tied.mem_services_add (hs : s.SameObject obj) (ns : Str) (ser : Service) : ser ∈ (s.add obj).services ns ↔
      obj = .service ser ∧ ser.namespaceName = ns ∨ ser.uid ≠ obj.uid ∧ ser ∈ s.services ns := by
  rw [(h.add hs).mem_services, h.mem_services]
  by_cases huid : ser.uid = obj.uid
  · simp [huid]
  · have hne : obj ≠ .service ser := by
      rintro rfl
      exact huid rfl
    simp [huid, hne, find_put_ne]

theorem Tied.mem_pods_add_other (hs : s.SameObject obj) (hk : obj.kind ≠ .pod) (ns : Str) (pod : Pod) :
    pod ∈ (s.add obj).pods ns ↔ pod ∈ s.pods ns := by
  have hf := find_put_of_kind (o := .pod pod) hs hk.symm pod.uid
  rw [(h.add hs).mem_pods, h.mem_pods]
  exact and_congr_left' hf

theorem Tied.mem_services_add_other (hs : s.SameObject obj) (hk : obj.kind ≠ .service) (ns : Str) (ser : Service) :
    ser ∈ (s.add obj).services ns ↔ ser ∈ s.services ns := by
  have hf := find_put_of_kind (o := .service ser) hs hk.symm ser.uid
  rw [(h.add hs).mem_services, h.mem_services]
  exact and_congr_left' hf

theorem Tied.mem_pods_delete (key ns : Str) (pod : Pod) :
    pod ∈ (s.delete key).pods ns ↔ pod.uid ≠ key ∧ pod ∈ s.pods ns := by
  rw [(h.delete key).mem_pods, h.mem_pods, objects_delete, find_remove]
  by_cases huid : pod.uid = key <;> simp [huid]

theorem Tied.mem_services_delete (key ns : Str) (ser : Service) :
    ser ∈ (s.delete key).services ns ↔ ser.uid ≠ key ∧ ser ∈ s.services ns := by
  rw [(h.delete key).mem_services, h.mem_services, objects_delete, find_remove]
  by_cases huid : ser.uid = key <;> simp [huid]

omit h in
theorem selects_congr (h : ∀ ns ser, ser ∈ s'.services ns ↔ ser ∈ s.services ns) (pod : Pod) (tag : Str) :
    s'.Selects pod tag ↔ s.Selects pod tag := by
  simp only [Selects, h]

theorem Tied.mem_podServiceNames (pod : Pod) (name : Str) : name ∈ s.handler.podServiceNames pod ↔
    ∃ ser ∈ s.services pod.namespaceName, ser.name = name ∧ selectorMatchesPod ser.selector pod = true := by
  simp only [DimensionHandler.podServiceNames, List.mem_map, mem_filter, h.mem_cachedServices]
  constructor
  · rintro ⟨ser, ⟨hser, hm⟩, hn⟩
    exact ⟨ser, hser, hn, hm⟩
  · rintro ⟨ser, hser, hn, hm⟩
    exact ⟨ser, ⟨hser, hm⟩, hn⟩

theorem Tied.mem_matchingPods {pod : Pod} (hpod : pod ∈ s.pods ns) (ser : Service) :
    (∃ q ∈ s.handler.matchingPods ser, q.uid = pod.uid) ↔
      pod.namespaceName = ser.namespaceName ∧ selectorMatchesPod ser.selector pod = true := by
  simp only [DimensionHandler.matchingPods, mem_filter, h.mem_cachedPods, h.mem_pods]
  have hf := ((h.mem_pods ns pod).mp hpod).1
  constructor
  · rintro ⟨q, ⟨⟨hq, hns⟩, hm⟩, huid⟩
    rw [huid, hf] at hq
    cases hq
    exact ⟨hns, hm⟩
  · rintro ⟨hns, hm⟩
    exact ⟨pod, ⟨⟨hf, hns⟩, hm⟩, rfl⟩

theorem Tied.latest_matchingPods {pod : Pod} (hpod : pod ∈ s.pods ns) (ser : Service) (isAdd : Bool) (name : Str) :
    latest Dimension.tags pod.uid (serviceTag name)
        ((s.handler.matchingPods ser).map fun pod => dimensionForPodServices pod [ser.name] isAdd) =
      if name = ser.name ∧ pod.namespaceName = ser.namespaceName ∧ selectorMatchesPod ser.selector pod = true then
        some isAdd
      else none := by
  rw [latest_services]
  simp only [h.mem_matchingPods hpod]

end

theorem InStep.addPod (h : s.InStep) {p : Pod} (hsa : s.SameObject (.pod p)) (hok : s.Keeps (.add (.pod p))) :
    (s.add (.pod p)).InStep := by
  obtain ⟨hse, hk⟩ := hok
  have hs := h.tied.mem_services_add_other hsa nofun
  refine ⟨h.tied.add hsa, fun ns ser hser other ho => ?_, fun ns pod hpod ser hser => ?_, fun ns pod hpod name => ?_⟩
  · exact h.names ns ser ((hs ns ser).mp hser) other ((hs ns other).mp ho)
  · have hser := (hs ns ser).mp hser
    rcases (h.tied.mem_pods_add hsa ns pod).mp hpod with ⟨⟨⟩, rfl⟩ | ⟨-, hpod⟩
    · exact hse ser hser
    · exact h.selectors ns pod hpod ser hser
  · rw [mem_tagsOf_addPod, selects_congr hs, h.tied.mem_podServiceNames]
    rcases (h.tied.mem_pods_add hsa ns pod).mp hpod with ⟨⟨⟩, rfl⟩ | ⟨hne, hpod⟩
    · constructor
      · have hl : ∀ tag ∈ s.tagsOf p.uid ++ labelTags p.labels, tag = serviceTag name → s.Selects p tag := by
          rintro tag htag rfl
          exact hk _ htag (isServiceTag name)
        rintro (⟨-, ⟨ser, hser, hn, hm⟩ | htag⟩ | htag)
        · exact ⟨ser, hser, by rw [hn], hse ser hser, hm⟩
        · exact hl _ (mem_append_right _ htag) rfl
        · exact hl _ (mem_append_left _ htag) rfl
      · rintro ⟨ser, hser, hn, -, hm⟩
        exact .inl ⟨rfl, .inl ⟨ser, hser, serviceTag_inj.mp hn, hm⟩⟩
    · have hne : pod.uid ≠ p.uid := hne
      simp only [hne, false_and, false_or]
      exact h.tags ns pod hpod name

theorem InStep.addService (h : s.InStep) {q : Service} (hsa : s.SameObject (.service q))
    (hf : s.NameFree (.service q)) (hok : s.Keeps (.add (.service q))) : (s.add (.service q)).InStep := by
  have hpo := h.tied.mem_pods_add_other hsa nofun
  have hs := h.tied.mem_services_add hsa
  refine ⟨h.tied.add hsa, fun ns ser hser other ho hn => ?_, fun ns pod hpod ser hser => ?_,
    fun ns pod hpod name => ?_⟩
  · rcases (hs ns ser).mp hser with ⟨⟨⟩, rfl⟩ | ⟨hne, hser⟩ <;>
      rcases (hs _ other).mp ho with ⟨⟨⟩, hns⟩ | ⟨hne', ho⟩
    · rfl
    · exact absurd (hf other ho hn) hne'
    · subst hns
      exact absurd (hf ser hser hn.symm) hne
    · exact h.names _ ser hser other ho hn
  · have hpod := (hpo ns pod).mp hpod
    rcases (hs ns ser).mp hser with ⟨⟨⟩, rfl⟩ | ⟨-, hser⟩
    · exact (hok pod hpod).1
    · exact h.selectors ns pod hpod ser hser
  · have hpod := (hpo ns pod).mp hpod
    obtain rfl := ((h.tied.mem_pods ns pod).mp hpod).2
    have hsen : (s.add (.service q)).handler.sent = s.handler.sent ++
        (s.handler.matchingPods q).map fun pod => dimensionForPodServices pod [q.name] true := rfl
    have hold := (mem_tagsOf pod.uid _).symm.trans (h.tags _ pod hpod name)
    rw [mem_tagsOf, hsen, latest_append, h.tied.latest_matchingPods hpod]
    constructor
    · intro htag
      split_ifs at htag with hnew
      · obtain ⟨rfl, hns, hm⟩ := hnew
        refine ⟨q, (hs _ q).mpr (.inl ⟨rfl, hns.symm⟩), rfl, ?_, hm⟩
        exact (hok pod (hns ▸ hpod)).1
      · obtain ⟨ser, hser, hn, hse, hm⟩ := hold.mp htag
        by_cases huid : ser.uid = q.uid
        · -- the version before this one matched the pod
          have hfi : find q.uid s.objects = some (.service ser) := huid ▸ ((h.tied.mem_services _ ser).mp hser).1
          have hns : ser.namespaceName = q.namespaceName := (hsa (.service ser) hfi).2
          have hp : pod.namespaceName = q.namespaceName := ((h.tied.mem_services _ ser).mp hser).2.symm.trans hns
          obtain ⟨hsel, hk⟩ := hok pod (hp ▸ hpod)
          obtain ⟨hn', hm'⟩ := hk ser (hp ▸ hser) huid hm
          refine ⟨q, (hs _ q).mpr (.inl ⟨rfl, hp.symm⟩), ?_, hsel, hm'⟩
          rw [← hn', hn]
        · exact ⟨ser, (hs _ ser).mpr (.inr ⟨huid, hser⟩), hn, hse, hm⟩
    · rintro ⟨ser, hser, hn, hse, hm⟩
      rcases (hs _ ser).mp hser with ⟨⟨⟩, hns⟩ | ⟨-, hser⟩
      · rw [if_pos ⟨(serviceTag_inj.mp hn).symm, hns.symm, hm⟩]
        rfl
      · have hb := hold.mpr ⟨ser, hser, hn, hse, hm⟩
        rw [hb]
        split <;> rfl

theorem InStep.addOwner (h : s.InStep) (hsa : s.SameObject obj) (hpod : obj.kind ≠ .pod)
    (hse : obj.kind ≠ .service) : (s.add obj).InStep := by
  have hp := h.tied.mem_pods_add_other hsa hpod
  have hs := h.tied.mem_services_add_other hsa hse
  have ht : ∀ uid tag, latest Dimension.tags uid tag (s.add obj).handler.sent =
      latest Dimension.tags uid tag s.handler.sent := by
    intro uid tag
    obtain ⟨dims, hsen, hdi⟩ : ∃ dims, (s.add obj).handler.sent = s.handler.sent ++ dims ∧
        ∀ d ∈ dims, d.tags = [] := by
      cases obj with
      | pod _ => exact absurd rfl hpod
      | service _ => exact absurd rfl hse
      | replicaSet rs =>
        refine ⟨_, rfl, fun d hd => ?_⟩
        obtain ⟨pod, -, rfl⟩ := mem_map.mp hd
        exact tags_dimensionForPodReplicaSet pod rs
      | job job =>
        refine ⟨_, rfl, fun d hd => ?_⟩
        obtain ⟨pod, -, rfl⟩ := mem_map.mp hd
        exact tags_dimensionForPodJob pod job
    rw [hsen, latest_append, latest_tags_eq_none hdi, none_or]
  refine ⟨h.tied.add hsa, fun ns ser hser other ho => ?_, fun ns pod hpod ser hser => ?_, fun ns pod hpod name => ?_⟩
  · exact h.names ns ser ((hs ns ser).mp hser) other ((hs ns other).mp ho)
  · exact h.selectors ns pod ((hp ns pod).mp hpod) ser ((hs ns ser).mp hser)
  · rw [mem_tagsOf, ht, ← mem_tagsOf, selects_congr hs]
    exact h.tags ns pod ((hp ns pod).mp hpod) name

theorem InStep.delete (h : s.InStep) (key : Str) : (s.delete key).InStep := by
  have hp := h.tied.mem_pods_delete key
  have hs := h.tied.mem_services_delete key
  refine ⟨h.tied.delete key, fun ns ser hser other ho => ?_, fun ns pod hpod ser hser => ?_,
    fun ns pod hpod name => ?_⟩
  · exact h.names ns ser ((hs ns ser).mp hser).2 other ((hs ns other).mp ho).2
  · exact h.selectors ns pod ((hp ns pod).mp hpod).2 ser ((hs ns ser).mp hser).2
  · obtain ⟨-, hmem⟩ := (hp ns pod).mp hpod
    have hold := (mem_tagsOf pod.uid _).symm.trans (h.tags _ pod hmem name)
    obtain rfl := ((h.tied.mem_pods ns pod).mp hmem).2
    rw [mem_tagsOf, Watched.delete, (deleteByKey_spec _ key).2.2.2, latest_append, h.tied.kinds]
    by_cases hki : (find key s.objects).map Object.kind = some .service
    · obtain ⟨obj, hobj, hk⟩ := map_eq_some_iff.mp hki
      cases obj with
      | service q =>
        obtain rfl := h.tied.uid _ _ hobj
        rw [if_pos hki, (h.tied.service _ q).mpr hobj, toList_some, flatMap_singleton,
          h.tied.latest_matchingPods hmem]
        constructor
        · intro htag
          split_ifs at htag with hg
          · cases htag
          · obtain ⟨ser, hser, hn, hse, hm⟩ := hold.mp htag
            refine ⟨ser, (hs _ ser).mpr ⟨?_, hser⟩, hn, hse, hm⟩
            intro huid
            obtain ⟨hf, hns⟩ := (h.tied.mem_services _ ser).mp hser
            rw [huid, hobj] at hf
            cases hf
            exact hg ⟨(serviceTag_inj.mp hn).symm, hns.symm, hm⟩
        · rintro ⟨ser, hser, hn, hse, hm⟩
          obtain ⟨hne, hser⟩ := (hs _ ser).mp hser
          rw [hold.mpr ⟨ser, hser, hn, hse, hm⟩, if_neg]
          · rfl
          · rintro ⟨rfl, hns, -⟩
            have hq : q ∈ s.services pod.namespaceName := (h.tied.mem_services _ q).mpr ⟨hobj, hns.symm⟩
            have heq := h.names _ q hq ser hser (serviceTag_inj.mp hn)
            exact hne (heq ▸ rfl)
      | pod _ | replicaSet _ | job _ => cases hk
    · rw [if_neg hki, latest_nil, none_or, hold]
      -- no service has the UID
      have hsa : ∀ ns ser, ser ∈ (s.delete key).services ns ↔ ser ∈ s.services ns := by
        intro ns ser
        rw [hs, and_iff_right_iff_imp]
        intro hser huid
        have hf := ((h.tied.mem_services ns ser).mp hser).1
        rw [huid] at hf
        exact hki (by simp [hf, Object.kind])
      exact (selects_congr hsa pod _).symm

theorem InStep.step {a : Action} (h : s.InStep) (hok : s.Keeps a) (hst : s.step a = some s') : s'.InStep := by
  cases a with
  | add obj =>
    obtain ⟨⟨hs, hf⟩, rfl⟩ := ite_some_none_eq_some.mp hst
    cases obj with
    | pod p => exact h.addPod hs hok
    | service q => exact h.addService hs hf hok
    | replicaSet _ | job _ => exact h.addOwner hs nofun nofun
  | delete key =>
    cases hst
    exact h.delete key

theorem serviceTags_inStep (actions : List Action) (s : Watched) (hgood : GoodRun step Keeps initial actions)
    (hrun : actions.foldlM step initial = some s) (pod : Pod) (hpod : find pod.uid s.objects = some (.pod pod))
    (name : Str) :
    latest Dimension.tags pod.uid (serviceTag name) s.handler.sent = some true ↔
      ∃ ser, find ser.uid s.objects = some (.service ser) ∧ ser.namespaceName = pod.namespaceName ∧ ser.name = name ∧
        ser.selector ≠ [] ∧ selectorMatchesPod ser.selector pod = true := by
  have h : s.InStep := hgood.inv (fun _ _ _ h hok hst => h.step hok hst) inStep_initial hrun
  have ht := h.tags _ pod ((h.tied.mem_pods _ pod).mpr ⟨hpod, rfl⟩) name
  rw [mem_tagsOf] at ht
  rw [ht]
  constructor
  · rintro ⟨ser, hser, hn, hs, hm⟩
    obtain ⟨hf, hns⟩ := (h.tied.mem_services _ ser).mp hser
    exact ⟨ser, hf, hns, serviceTag_inj.mp hn, hs, hm⟩
  · rintro ⟨ser, hf, hns, rfl, hs, hm⟩
    exact ⟨ser, (h.tied.mem_services _ ser).mpr ⟨hf, hns⟩, rfl, hs, hm⟩

def web : Pod :=
  ⟨"pod-1", "default", [], [("app", "web")], []⟩

def frontend : Service :=
  ⟨"svc-1", "frontend", "default", [("app", "web")]⟩

def serviceComesAndGoes : List Action :=
  [.add (.service frontend), .add (.pod web), .add (.pod web), .delete frontend.uid]

theorem serviceTags_serviceComesAndGoes : ∃ s, serviceComesAndGoes.foldlM step initial = some s ∧
    ¬ latest Dimension.tags web.uid (serviceTag frontend.name) s.handler.sent = some true := by
  have hg : GoodRun step Keeps initial serviceComesAndGoes := by
    decide +kernel
  have hend : (serviceComesAndGoes.foldlM step initial).any (fun s => s.objects = [(web.uid, .pod web)]) = true := by
    decide +kernel
  obtain ⟨s, hrun, ho⟩ : ∃ s, serviceComesAndGoes.foldlM step initial = some s ∧
      s.objects = [(web.uid, .pod web)] := by
    simpa [Option.any_eq_true] using hend
  refine ⟨s, hrun, fun htag => ?_⟩
  have hpod : find web.uid s.objects = some (.pod web) := by
    rw [ho]
    decide +kernel
  obtain ⟨ser, hf, -⟩ := (serviceTags_inStep _ s hg hrun web hpod _).mp htag
  rw [ho] at hf
  have heq := mem_singleton.mp (find_mem _ _ _ hf)
  exact nomatch (Prod.mk.inj heq).2

def relabelled : List Action :=
  [.add (.service frontend), .add (.pod web), .add (.pod { web with labels := [("app", "old")] })]

theorem serviceTags_relabelled : ∃ s pod, relabelled.foldlM step initial = some s ∧
    s.objects = [(frontend.uid, .service frontend), (web.uid, .pod pod)] ∧
      selectorMatchesPod frontend.selector pod = false ∧
        latest Dimension.tags web.uid (serviceTag frontend.name) s.handler.sent = some true := by
  have hend : (relabelled.foldlM step initial).any (fun s =>
      s.objects = [(frontend.uid, .service frontend), (web.uid, .pod { web with labels := [("app", "old")] })] ∧
        latest Dimension.tags web.uid (serviceTag frontend.name) s.handler.sent = some true) = true := by
    decide +kernel
  obtain ⟨s, hrun, ht⟩ := (any_eq_true _ _).mp hend
  obtain ⟨ho, htag⟩ := of_decide_eq_true ht
  exact ⟨s, _, hrun, ho, by decide +kernel, htag⟩

end Watched

end Collector.Kubernetes
