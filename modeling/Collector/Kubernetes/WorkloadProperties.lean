import Collector.Kubernetes.Dimensions

/-!
# Workload properties and the order of events

A pod event looks its owner up by the kind that the reference names, and the event of an owner looks for the pods by its
UID.
-/

namespace Collector.Kubernetes

open Lib List Option

variable {o c : Object} (pod : Pod) {owner : Workload} {v : Str}

namespace DimensionHandler

/-! ## What the events send -/

def sends : Object → List (Str × Str)
  | .replicaSet rs =>
    match findOwnerWithKind rs.ownerReferences "Deployment" with
    | some deployRef =>
      [("kubernetes_workload", "Deployment"), ("kubernetes_workload_name", deployRef.name),
        ("deployment", deployRef.name), ("deployment_uid", deployRef.uid)]
    | none => [("kubernetes_workload", "ReplicaSet"), ("kubernetes_workload_name", rs.name)]
  | .job job =>
    match findOwnerWithKind job.ownerReferences "CronJob" with
    | some cronJobRef =>
      [("kubernetes_workload", "CronJob"), ("kubernetes_workload_name", cronJobRef.name),
        ("cronJob", cronJobRef.name), ("cronJob_uid", cronJobRef.uid)]
    | none => [("kubernetes_workload", "Job"), ("kubernetes_workload_name", job.name)]
  | _ => []

theorem dimensionForPodReplicaSet_eq (rs : Workload) :
    dimensionForPodReplicaSet pod rs = ⟨pod.uid, sends (.replicaSet rs), []⟩ := by
  cases hd : findOwnerWithKind rs.ownerReferences "Deployment" <;>
    simp only [dimensionForPodReplicaSet, sends, hd] <;> rfl

theorem dimensionForPodJob_eq (job : Workload) : dimensionForPodJob pod job = ⟨pod.uid, sends (.job job), []⟩ := by
  cases hc : findOwnerWithKind job.ownerReferences "CronJob" <;>
    simp only [dimensionForPodJob, sends, hc] <;> rfl

def ownerPart (dh : DimensionHandler) (pod : Pod) (q : Str) : Option Str :=
  ((cachedOwner dh.jobCache "Job" pod).bind fun job => find q (sends (.job job))).or
    ((cachedOwner dh.replicaSetCache "ReplicaSet" pod).bind fun rs => find q (sends (.replicaSet rs)))

variable (dh : DimensionHandler) (uid q : Str)

theorem latest_serviceProperties {dims : List Dimension} (h : ∀ d ∈ dims, d.properties = []) :
    latest Dimension.properties uid q dims = none :=
  latest_eq_none _ _ _ fun d hd _ => by rw [h d hd, find_nil]

theorem latest_properties_pod (pod : Pod) : latest Dimension.properties uid q (dh.handleAdd (.pod pod)).sent =
    if uid = pod.uid then
      ((dh.ownerPart pod q).or (find q (dimensionForPod pod).properties)).or
        (latest Dimension.properties uid q dh.sent)
    else latest Dimension.properties uid q dh.sent := by
  have hs : latest Dimension.properties uid q (dh.serviceUpdates pod) = none := by
    apply latest_serviceProperties
    intro d hd
    unfold serviceUpdates at hd
    split at hd
    · cases hd
    · rw [mem_singleton.mp hd]
      rfl
  have hse : (dh.handleAdd (.pod pod)).sent = dh.sent ++ (dimensionForPod pod :: (dh.serviceUpdates pod ++
      (((cachedOwner dh.replicaSetCache "ReplicaSet" pod).map (dimensionForPodReplicaSet pod)).toList ++
        ((cachedOwner dh.jobCache "Job" pod).map (dimensionForPodJob pod)).toList))) := by
    simp [handleAdd, handleAddPod, send]
    rfl
  rw [hse, latest_append, latest_cons, latest_append, latest_append, hs, or_none, ownerPart]
  have hv : (dimensionForPod pod).value = pod.uid := rfl
  cases cachedOwner dh.replicaSetCache "ReplicaSet" pod <;>
    cases cachedOwner dh.jobCache "Job" pod <;>
    by_cases huid : uid = pod.uid <;>
    simp [latest_cons, latest_nil, dimensionForPodReplicaSet_eq, dimensionForPodJob_eq, huid, hv, Ne.symm]

theorem latest_properties_owned (pods : List Pod) (properties : List (Str × Str)) :
    latest Dimension.properties uid q (pods.map fun pod => ⟨pod.uid, properties, []⟩) =
      if ∃ pod ∈ pods, pod.uid = uid then find q properties else none := by
  cases hf : find q properties with
  | none =>
    rw [ite_self]
    apply latest_eq_none
    intro d hd _
    obtain ⟨pod, -, rfl⟩ := mem_map.mp hd
    exact hf
  | some v =>
    split_ifs with h
    · obtain ⟨pod, hpod, huid⟩ := h
      apply latest_eq_some
      · intro d hd _ w hw
        obtain ⟨pod', -, rfl⟩ := mem_map.mp hd
        exact some.inj (hw.symm.trans hf)
      · exact ⟨_, mem_map_of_mem hpod, huid, hf⟩
    · apply latest_eq_none
      intro d hd huid
      obtain ⟨pod, hpod, rfl⟩ := mem_map.mp hd
      exact absurd ⟨pod, hpod, huid⟩ h

variable {dh uid q} in
theorem latest_properties_owner {o : Object}
    (hs : (dh.handleAdd o).sent = dh.sent ++ (dh.ownedPods owner).map fun pod => ⟨pod.uid, sends o, []⟩) :
    latest Dimension.properties uid q (dh.handleAdd o).sent =
      (if ∃ pod ∈ dh.ownedPods owner, pod.uid = uid then find q (sends o) else none).or
        (latest Dimension.properties uid q dh.sent) := by
  rw [hs, latest_append, latest_properties_owned]

theorem sent_replicaSet (rs : Workload) : (dh.handleAdd (.replicaSet rs)).sent =
    dh.sent ++ (dh.ownedPods rs).map fun pod => ⟨pod.uid, sends (.replicaSet rs), []⟩ := by
  simp only [← dimensionForPodReplicaSet_eq]
  rfl

theorem sent_job (job : Workload) : (dh.handleAdd (.job job)).sent =
    dh.sent ++ (dh.ownedPods job).map fun pod => ⟨pod.uid, sends (.job job), []⟩ := by
  simp only [← dimensionForPodJob_eq]
  rfl

theorem latest_properties_service (service : Service) :
    latest Dimension.properties uid q (dh.handleAdd (.service service)).sent =
      latest Dimension.properties uid q dh.sent := by
  have hs : (dh.handleAdd (.service service)).sent = dh.sent ++
      (dh.matchingPods service).map fun pod => dimensionForPodServices pod [service.name] true := rfl
  rw [hs, latest_append, latest_serviceProperties, none_or]
  intro d hd
  obtain ⟨pod, -, rfl⟩ := mem_map.mp hd
  rfl

end DimensionHandler

/-! ## The properties that a pod has itself -/

def workloadProperties : List Str :=
  ["kubernetes_workload", "kubernetes_workload_name", "deployment", "deployment_uid", "cronJob", "cronJob_uid"]

def refValue (ref : OwnerReference) (q : Str) : Option Str :=
  let deferred := ref.kind = "ReplicaSet" ∨ ref.kind = "Job"
  if ¬ deferred ∧ q = "kubernetes_workload_name" then some ref.name
  else if ¬ deferred ∧ q = "kubernetes_workload" then some ref.kind
  else if q = lowercaseFirstChar ref.kind ++ "_uid" then some ref.uid
  else if q = lowercaseFirstChar ref.kind then some ref.name
  else none

def labelValues (labels : List (Str × Str)) (q : Str) : List Str :=
  (labels.filter fun label => label.2 ≠ [] ∧ propNameSanitizer label.1 = q).map Prod.snd

theorem find_ownerProperties (props : List (Str × Str)) (ref : OwnerReference) (q : Str) :
    find q (ownerProperties props ref) = (refValue ref q).or (find q props) := by
  unfold ownerProperties refValue
  by_cases hk : ref.kind = "ReplicaSet" ∨ ref.kind = "Job"
  · simp only [hk, if_true, not_true_eq_false, false_and, if_false, find_put]
    split
    · rfl
    · split <;> rfl
  · simp only [hk, if_false, not_false_eq_true, true_and, find_put]
    split
    · rfl
    · split
      · rfl
      · split
        · rfl
        · split <;> rfl

theorem find_properties_labels (labels : List (Str × Str)) (q : Str) (out : List (Str × Str) × List (Str × Bool)) :
    find q (labels.foldl addLabel out).1 = (labelValues labels q).getLast?.or (find q out.1) := by
  induction labels generalizing out with
  | nil => rfl
  | cons label labels ih =>
    rw [foldl_cons, ih]
    by_cases hv : label.2 = []
    · simp [addLabel, labelValues, hv]
    · by_cases hq : propNameSanitizer label.1 = q
      · have hl : labelValues (label :: labels) q = label.2 :: labelValues labels q := by
          simp [labelValues, hv, hq]
        rw [hl, getLast?_cons]
        cases (labelValues labels q).getLast? <;> simp [addLabel, hv, hq]
      · have hl : labelValues (label :: labels) q = labelValues labels q := by
          simp [labelValues, hq]
        simp [hl, addLabel, hv, find_put_ne _ _ (Ne.symm hq)]

theorem find_properties_pod {pod : Pod} (hr : pod.ownerReferences.length ≤ 1) {q : Str}
    (hq : q ∈ workloadProperties) :
    find q (dimensionForPod pod).properties =
      (pod.ownerReferences.head?.bind (refValue · q)).or (labelValues pod.labels q).getLast? := by
  have hne : q ≠ "pod_creation_timestamp" := by
    rintro rfl
    revert hq
    decide +kernel
  have hl : find q (put "pod_creation_timestamp" pod.creationTimestamp
      (propsAndTagsFromLabels pod.labels).1) = (labelValues pod.labels q).getLast? := by
    rw [find_put_ne _ _ hne, propsAndTagsFromLabels, find_properties_labels, find_nil, or_none]
  unfold dimensionForPod
  match href : pod.ownerReferences, hr with
  | [], _ => simpa using hl
  | [ref], _ =>
    simp only [foldl_cons, foldl_nil, find_ownerProperties, hl, head?_cons, bind_some]

/-! ## The objects and the calls -/

def SamePod (p p' : Pod) : Prop :=
  p' = { p with labels := p'.labels } ∧ p'.labels.Perm p.labels

def SameAs : Object → Object → Prop
  | .pod p, .pod p' => SamePod p p'
  | o, o' => o = o'

structure Covers (objs calls : List Object) : Prop where
  known : ∀ c ∈ calls, ∃ o ∈ objs, SameAs o c
  all : ∀ o ∈ objs, ∃ c ∈ calls, SameAs o c

structure Fixed (objs : List Object) : Prop where
  uids : (objs.map Object.uid).Nodup
  owner : ∀ p, .pod p ∈ objs → p.ownerReferences.length ≤ 1
  namespaces : ∀ p, .pod p ∈ objs → ∀ ref ∈ p.ownerReferences, ∀ owner,
    .replicaSet owner ∈ objs ∨ .job owner ∈ objs → owner.uid = ref.uid → owner.namespaceName = p.namespaceName

def property (calls : List Object) (p : Pod) (q : Str) : Option Str :=
  latest Dimension.properties p.uid q (calls.foldl DimensionHandler.handleAdd .initial).sent

variable {objs calls : List Object} {p p' : Pod} {q : Str}

theorem SamePod.uid (h : SamePod p p') : p'.uid = p.uid := by
  rw [h.1]

theorem SamePod.ownerReferences (h : SamePod p p') : p'.ownerReferences = p.ownerReferences := by
  rw [h.1]

theorem SamePod.namespaceName (h : SamePod p p') : p'.namespaceName = p.namespaceName := by
  rw [h.1]

theorem SameAs.elim (h : SameAs o c) :
    (∃ p p', o = .pod p ∧ c = .pod p' ∧ SamePod p p') ∨ o.kind ≠ .pod ∧ o = c := by
  cases o with
  | pod p =>
    cases c with
    | pod p' => exact .inl ⟨p, p', rfl, rfl, h⟩
    | _ => cases h
  | _ => exact .inr ⟨nofun, h⟩

theorem SameAs.uid (h : SameAs o c) : c.uid = o.uid := by
  obtain ⟨p, p', rfl, rfl, hs⟩ | ⟨-, rfl⟩ := h.elim
  · exact SamePod.uid hs
  · rfl

theorem SameAs.refl (o : Object) : SameAs o o := by
  cases o with
  | pod p => exact ⟨rfl, .refl _⟩
  | _ => rfl

theorem Fixed.eq_of_uid (h : Fixed objs) {o' : Object} (ho : o ∈ objs) (ho' : o' ∈ objs) (huid : o.uid = o'.uid) :
    o = o' :=
  inj_on_of_nodup_map h.uids ho ho' huid

open DimensionHandler

/-! ## What the caches have -/

structure Loaded (objs seen : List Object) (dh : DimensionHandler) : Prop where
  known : ∀ c ∈ seen, ∃ o ∈ objs, SameAs o c
  podIndex : dh.podCache.Indexed
  pod : ∀ u p', dh.podCache.get u = some p' → ∃ p, .pod p ∈ objs ∧ SamePod p p'
  podSeen : ∀ p, .pod p ∈ objs → ((dh.podCache.get p.uid).isSome = true ↔ ∃ c ∈ seen, SameAs (.pod p) c)
  replicaSet : ∀ u rs, dh.replicaSetCache.get u = some rs ↔ .replicaSet rs ∈ seen ∧ rs.uid = u
  job : ∀ u job, dh.jobCache.get u = some job ↔ .job job ∈ seen ∧ job.uid = u

theorem loaded_initial (objs : List Object) : Loaded objs [] .initial := by
  refine ⟨nofun, Cache.indexed_empty, ?_, ?_, ?_, ?_⟩ <;> simp [initial, Cache.get, Cache.empty]

variable {seen : List Object} {dh : DimensionHandler}

theorem get_add_seen {mk : Workload → Object} (hmk : ∀ v w, mk v = mk w → v = w) {cache : Cache Workload}
    (h : ∀ u w, cache.get u = some w ↔ mk w ∈ seen ∧ w.uid = u) {r : Workload}
    (hun : ∀ w, mk w ∈ seen → w.uid = r.uid → w = r) (u : Str) (w : Workload) :
    (cache.add r).get u = some w ↔ mk w ∈ seen ++ [mk r] ∧ w.uid = u := by
  have hmem : mk w ∈ seen ++ [mk r] ↔ mk w ∈ seen ∨ w = r := by
    rw [mem_append, mem_singleton]
    exact or_congr_right ⟨hmk w r, fun heq => heq ▸ rfl⟩
  rw [Cache.get_add, hmem]
  by_cases hu : u = r.uid
  · subst hu
    rw [if_pos (by rfl)]
    constructor
    · rintro ⟨⟩
      exact ⟨.inr rfl, rfl⟩
    · rintro ⟨hw | rfl, huid⟩
      · rw [hun w hw huid]
      · rfl
  · rw [if_neg (by exact hu), h]
    constructor
    · rintro ⟨hw, huid⟩
      exact ⟨.inl hw, huid⟩
    · rintro ⟨hw | rfl, huid⟩
      · exact ⟨hw, huid⟩
      · exact absurd huid.symm hu

section

variable (hf : Fixed objs)
include hf

section

variable (h : Loaded objs seen dh)
include h

theorem Loaded.samePod (hp : .pod p ∈ objs) (hget : dh.podCache.get p.uid = some p') : SamePod p p' := by
  obtain ⟨o, ho, hs⟩ := h.pod _ _ hget
  have huid : o.uid = p.uid := hs.uid.symm.trans (h.podIndex.uid _ _ hget)
  cases hf.eq_of_uid ho hp huid
  exact hs

theorem Loaded.addPod (hp : .pod p ∈ objs) (hs : SamePod p p') :
    Loaded objs (seen ++ [.pod p']) (dh.handleAdd (.pod p')) := by
  have hca : (dh.handleAdd (.pod p')).podCache = dh.podCache.add p' := rfl
  refine ⟨?_, ?_, fun u o ho => ?_, fun o ho => ?_, fun u rs => ?_, fun u job => ?_⟩
  · simp only [mem_append, mem_singleton]
    rintro c (hc | rfl)
    · exact h.known c hc
    · exact ⟨_, hp, hs⟩
  · apply h.podIndex.add
    intro old hold
    have hold : dh.podCache.get p.uid = some old := hs.uid ▸ hold
    exact (h.samePod hf hp hold).namespaceName.trans hs.namespaceName.symm
  · rw [hca, Cache.get_add] at ho
    split at ho
    · cases ho
      exact ⟨p, hp, hs⟩
    · exact h.pod u o ho
  · rw [hca, Cache.get_add]
    by_cases huid : o.uid = p'.uid
    · cases hf.eq_of_uid ho hp (huid.trans hs.uid)
      rw [if_pos (by exact huid)]
      simpa using .inr hs
    · have hne : ¬ SameAs (.pod o) (.pod p') := fun hs' => huid hs'.uid.symm
      rw [if_neg (by exact huid), h.podSeen o ho]
      simp [or_and_right, exists_or, hne]
  · rw [show (dh.handleAdd (.pod p')).replicaSetCache = dh.replicaSetCache from rfl, h.replicaSet]
    simp
  · rw [show (dh.handleAdd (.pod p')).jobCache = dh.jobCache from rfl, h.job]
    simp

theorem Loaded.addOther (ho : o ∈ objs) (hk : o.kind ≠ .pod) : Loaded objs (seen ++ [o]) (dh.handleAdd o) := by
  have hkn : ∀ c ∈ seen ++ [o], ∃ o ∈ objs, SameAs o c := by
    simp only [mem_append, mem_singleton]
    rintro c (hc | rfl)
    · exact h.known c hc
    · exact ⟨_, ho, .refl _⟩
  have hpo : (dh.handleAdd o).podCache = dh.podCache := by
    cases o with
    | pod _ => exact absurd rfl hk
    | _ => rfl
  have hse : ∀ p, .pod p ∈ objs → ((dh.podCache.get p.uid).isSome = true ↔ ∃ c ∈ seen ++ [o], SameAs (.pod p) c) := by
    intro p hp
    have hne : ¬ SameAs (.pod p) o := by
      intro hs
      cases o with
      | pod _ => exact hk rfl
      | _ => cases hs
    rw [h.podSeen p hp]
    simp [or_and_right, exists_or, hne]
  have hu : ∀ c ∈ seen, c.kind ≠ .pod → c.uid = o.uid → c = o := by
    intro c hc hck huid
    obtain ⟨o', ho', hs⟩ := h.known c hc
    have heq := hf.eq_of_uid ho' ho (hs.uid.symm.trans huid)
    obtain ⟨_, _, rfl, -⟩ | ⟨-, rfl⟩ := hs.elim
    · exact absurd (heq ▸ rfl) hk
    · exact heq
  refine ⟨hkn, hpo ▸ h.podIndex, hpo ▸ h.pod, hpo ▸ hse, fun u rs => ?_, fun u job => ?_⟩
  · cases o with
    | replicaSet r =>
      exact get_add_seen (fun _ _ => Object.replicaSet.inj) h.replicaSet
        (fun w hw huid => Object.replicaSet.inj (hu _ hw nofun huid)) u rs
    | pod _ => exact absurd rfl hk
    | _ => exact (h.replicaSet u rs).trans (by simp)
  · cases o with
    | job j =>
      exact get_add_seen (fun _ _ => Object.job.inj) h.job
        (fun w hw huid => Object.job.inj (hu _ hw nofun huid)) u job
    | pod _ => exact absurd rfl hk
    | _ => exact (h.job u job).trans (by simp)

theorem Loaded.add (hc : ∃ o ∈ objs, SameAs o c) : Loaded objs (seen ++ [c]) (dh.handleAdd c) := by
  obtain ⟨o, ho, hs⟩ := hc
  obtain ⟨p, p', rfl, rfl, hs⟩ | ⟨hk, rfl⟩ := hs.elim
  · exact h.addPod hf ho hs
  · exact h.addOther hf ho hk

end

theorem loaded_calls (hk : ∀ c ∈ calls, ∃ o ∈ objs, SameAs o c) :
    Loaded objs calls (calls.foldl handleAdd .initial) := by
  induction calls using reverseRecOn with
  | nil => exact loaded_initial objs
  | append_singleton calls c ih =>
    rw [foldl_append]
    exact (ih fun c hc => hk c (mem_append_left _ hc)).add hf (hk c (by simp))

end

/-! ## The value of a property after one more call -/

def kindName : Object → Str
  | .replicaSet _ => "ReplicaSet"
  | .job _ => "Job"
  | .pod _ => "Pod"
  | .service _ => "Service"

def Names (p : Pod) (o : Object) : Prop :=
  ∃ ref ∈ p.ownerReferences, ref.uid = o.uid

def Matches (p : Pod) (o : Object) : Prop :=
  ∃ ref ∈ p.ownerReferences, ref.uid = o.uid ∧ ref.kind = kindName o

theorem Matches.names (h : Matches p o) : Names p o := by
  obtain ⟨ref, hmem, huid, -⟩ := h
  exact ⟨ref, hmem, huid⟩

theorem cachedOwner_nil (href : p.ownerReferences = []) (cache : Cache Workload) (kind : Str) :
    cachedOwner cache kind p = none := by
  simp [cachedOwner, findOwnerWithKind, href]

theorem cachedOwner_singleton {ref : OwnerReference} (href : p.ownerReferences = [ref]) (cache : Cache Workload)
    (kind : Str) : cachedOwner cache kind p = if ref.kind = kind then cache.get ref.uid else none := by
  unfold cachedOwner findOwnerWithKind
  by_cases hk : ref.kind = kind <;> simp [href, hk]

theorem Loaded.ownerPart (h : Loaded objs seen dh) (hr : p.ownerReferences.length ≤ 1) (hs : SamePod p p')
    (q v : Str) :
    dh.ownerPart p' q = some v ↔ ∃ o ∈ seen, Matches p o ∧ find q (sends o) = some v := by
  have hne : "ReplicaSet".toList ≠ "Job".toList := by decide +kernel
  unfold DimensionHandler.ownerPart
  match href : p.ownerReferences, hr with
  | [], _ =>
    have href' := hs.ownerReferences.trans href
    constructor
    · intro hv
      rw [cachedOwner_nil href', cachedOwner_nil href'] at hv
      cases hv
    · rintro ⟨o, -, ⟨ref, hmem, -⟩, -⟩
      rw [href] at hmem
      cases hmem
  | [ref], _ =>
    have href' := hs.ownerReferences.trans href
    simp only [Matches, href, mem_singleton, exists_eq_left, cachedOwner_singleton href']
    constructor
    · intro hv
      rcases or_eq_some_iff.mp hv with hv | ⟨-, hv⟩
      · obtain ⟨job, hget, hv⟩ := bind_eq_some_iff.mp hv
        obtain ⟨hk, hget⟩ := ite_none_right_eq_some.mp hget
        obtain ⟨hmem, huid⟩ := (h.job _ _).mp hget
        exact ⟨.job job, hmem, ⟨huid.symm, hk⟩, hv⟩
      · obtain ⟨rs, hget, hv⟩ := bind_eq_some_iff.mp hv
        obtain ⟨hk, hget⟩ := ite_none_right_eq_some.mp hget
        obtain ⟨hmem, huid⟩ := (h.replicaSet _ _).mp hget
        exact ⟨.replicaSet rs, hmem, ⟨huid.symm, hk⟩, hv⟩
    · rintro ⟨o, hmem, ⟨huid, hk⟩, hv⟩
      cases o with
      | replicaSet rs =>
        have hget := (h.replicaSet _ _).mpr ⟨hmem, huid.symm⟩
        have hk : ref.kind = "ReplicaSet".toList := hk
        rw [if_pos hk, if_neg (hk ▸ hne), hget]
        exact hv
      | job job =>
        have hget := (h.job _ _).mpr ⟨hmem, huid.symm⟩
        have hk : ref.kind = "Job".toList := hk
        rw [if_pos hk, if_neg (hk ▸ hne.symm), hget, bind_none, or_none]
        exact hv
      | pod _ | service _ => cases hv

theorem latest_samePod (dh : DimensionHandler) (hs : SamePod p p') :
    latest Dimension.properties p.uid q (dh.handleAdd (.pod p')).sent =
      ((dh.ownerPart p' q).or (find q (dimensionForPod p').properties)).or
        (latest Dimension.properties p.uid q dh.sent) := by
  rw [latest_properties_pod, if_pos hs.uid.symm]

theorem property_concat (calls : List Object) (c : Object) (p : Pod) (q : Str) : property (calls ++ [c]) p q =
    latest Dimension.properties p.uid q ((calls.foldl handleAdd .initial).handleAdd c).sent := by
  rw [property, foldl_append]
  rfl

theorem names_uid (hr : p.ownerReferences.length ≤ 1) (ho : Names p o) (hc : Names p c) : o.uid = c.uid := by
  obtain ⟨ref, href, huid⟩ := ho
  obtain ⟨ref', href', huid'⟩ := hc
  match hl : p.ownerReferences, hr with
  | [], _ => simp [hl] at href
  | [r], _ =>
    rw [hl, mem_singleton] at href href'
    rw [← huid, ← huid', href, href']

theorem mem_of_sends (hc : ∃ o ∈ objs, SameAs o c) (hs : find q (sends c) ≠ none) : c ∈ objs := by
  obtain ⟨o, ho, hsa⟩ := hc
  obtain ⟨_, _, -, rfl, -⟩ | ⟨-, rfl⟩ := hsa.elim
  · exact absurd rfl hs
  · exact ho

theorem mem_others : o ∈ objs.filter (·.uid ≠ p.uid) ↔ o ∈ objs ∧ o.uid ≠ p.uid := by
  simp [mem_filter]

section

variable (hf : Fixed objs) (hp : .pod p ∈ objs)
include hf hp

theorem Loaded.mem_ownedPods (h : Loaded objs seen dh)
    (ho : .replicaSet owner ∈ objs ∨ .job owner ∈ objs) :
    (∃ pod ∈ dh.ownedPods owner, pod.uid = p.uid) ↔
      (∃ c ∈ seen, SameAs (.pod p) c) ∧ ∃ ref ∈ p.ownerReferences, ref.uid = owner.uid := by
  have hfi : ∀ pod : Pod, (findOwnerWithUID pod.ownerReferences owner.uid).isSome = true ↔
      ∃ ref ∈ pod.ownerReferences, ref.uid = owner.uid := by
    intro pod
    simp [findOwnerWithUID]
  simp only [ownedPods, mem_filter, h.podIndex.mem_getForNamespace, hfi]
  constructor
  · rintro ⟨pod, ⟨⟨hget, -⟩, href⟩, huid⟩
    have hget : dh.podCache.get p.uid = some pod := huid ▸ hget
    have hs := h.samePod hf hp hget
    exact ⟨(h.podSeen p hp).mp (by simp [hget]), hs.ownerReferences ▸ href⟩
  · rintro ⟨hse, ref, href, huid⟩
    obtain ⟨pod, hget⟩ := isSome_iff_exists.mp ((h.podSeen p hp).mpr hse)
    have hs := h.samePod hf hp hget
    have hns := hf.namespaces p hp ref href owner ho huid.symm
    refine ⟨pod, ⟨⟨?_, ?_⟩, ref, hs.ownerReferences ▸ href, huid⟩, hs.uid⟩
    · rw [show ObjectMeta.uid pod = p.uid from hs.uid]
      exact hget
    · exact hs.namespaceName.trans hns.symm

open Classical in
theorem Loaded.latest_other (h : Loaded objs seen dh) (hc : ∃ o ∈ objs, SameAs o c)
    (hne : ¬ SameAs (.pod p) c) :
    latest Dimension.properties p.uid q (dh.handleAdd c).sent =
      (if (∃ c ∈ seen, SameAs (.pod p) c) ∧ Names p c then find q (sends c) else none).or
        (latest Dimension.properties p.uid q dh.sent) := by
  obtain ⟨o, ho, hsa⟩ := hc
  obtain ⟨_, p', rfl, rfl, -⟩ | ⟨hk, rfl⟩ := hsa.elim
  · have huid : p.uid ≠ p'.uid := by
      intro huid
      cases hf.eq_of_uid ho hp (hsa.uid.symm.trans huid.symm)
      exact hne hsa
    rw [latest_properties_pod, if_neg huid, show sends (.pod p') = [] from rfl, find_nil, ite_self, Option.none_or]
  cases o with
  | pod _ => exact absurd rfl hk
  | service ser =>
    rw [latest_properties_service, show sends (.service ser) = [] from rfl, find_nil, ite_self, Option.none_or]
  | replicaSet rs =>
    rw [latest_properties_owner (sent_replicaSet dh rs)]
    exact congrArg (Option.or · _) (if_congr (h.mem_ownedPods hf hp (.inl ho)) rfl rfl)
  | job job =>
    rw [latest_properties_owner (sent_job dh job)]
    exact congrArg (Option.or · _) (if_congr (h.mem_ownedPods hf hp (.inr ho)) rfl rfl)

theorem property_unseen (hk : ∀ c ∈ calls, ∃ o ∈ objs, SameAs o c)
    (hu : ∀ c ∈ calls, ¬ SameAs (.pod p) c) : property calls p q = none := by
  induction calls using reverseRecOn with
  | nil => rfl
  | append_singleton calls c ih =>
    have hk' := fun c hc => hk c (mem_append_left _ hc)
    have hu' := fun c hc => hu c (mem_append_left _ hc)
    have hl := loaded_calls hf hk'
    rw [property_concat, hl.latest_other hf hp (hk c (by simp)) (hu c (by simp)), if_neg, none_or]
    · exact ih hk' hu'
    · rintro ⟨⟨c, hc, hs⟩, -⟩
      exact hu' c hc hs

/-! ## When the order does not matter -/

/-- The pod's own values do not depend on the order of its labels where no owner overrides them, and they are those of
the object with the UID of the reference where that has another kind. -/
structure Agrees (objs : List Object) (p : Pod) (q : Str) : Prop where
  own : (∀ o ∈ objs, Matches p o → find q (sends o) = none) → ∀ p₁ p₂, SamePod p p₁ → SamePod p p₂ →
    find q (dimensionForPod p₁).properties = find q (dimensionForPod p₂).properties
  stray : ∀ o ∈ objs, Names p o → ¬ Matches p o → ∀ v, find q (sends o) = some v →
    ∀ p₁, SamePod p p₁ → find q (dimensionForPod p₁).properties = some v

structure Valued (objs seen : List Object) (p : Pod) (q : Str) (value : Option Str) : Prop where
  matched : ∀ o ∈ seen, Matches p o → find q (sends o) ≠ none → value = find q (sends o)
  own : (∀ o ∈ objs, Matches p o → find q (sends o) = none) → value = find q (dimensionForPod p).properties

def podLast (objs : List Object) (p p₁ : Pod) : List Object :=
  objs.filter (·.uid ≠ p.uid) ++ [.pod p₁]

theorem covers_podLast (hs : SamePod p p') :
    Covers objs (podLast objs p p') := by
  constructor
  · intro c hc
    rcases mem_append.mp hc with hc | hc
    · exact ⟨c, (mem_others.mp hc).1, .refl _⟩
    · exact ⟨.pod p, hp, mem_singleton.mp hc ▸ hs⟩
  · intro o ho
    by_cases huid : o.uid = p.uid
    · cases hf.eq_of_uid ho hp huid
      exact ⟨.pod p', by simp [podLast], hs⟩
    · exact ⟨o, mem_append_left _ (mem_others.mpr ⟨ho, huid⟩), .refl _⟩

theorem property_podLast (hs : SamePod p p')
    (hn : ∀ o ∈ objs, Matches p o → find q (sends o) = none) :
    property (podLast objs p p') p q = find q (dimensionForPod p').properties := by
  have hk : ∀ c ∈ objs.filter (·.uid ≠ p.uid), ∃ o ∈ objs, SameAs o c :=
    fun c hc => ⟨c, (mem_others.mp hc).1, .refl _⟩
  have hpa : DimensionHandler.ownerPart ((objs.filter (·.uid ≠ p.uid)).foldl handleAdd .initial) p' q = none := by
    apply eq_none_iff_forall_ne_some.mpr
    intro v hv
    obtain ⟨o, ho, hm, hse⟩ := ((loaded_calls hf hk).ownerPart (hf.owner p hp) hs q v).mp hv
    rw [hn o (mem_others.mp ho).1 hm] at hse
    cases hse
  have hb : property (objs.filter (·.uid ≠ p.uid)) p q = none :=
    property_unseen hf hp hk fun c hc hs => (mem_others.mp hc).2 hs.uid
  unfold podLast
  rw [property_concat, latest_samePod _ hs, hpa, none_or]
  exact (congrArg _ hb).trans (or_none)

theorem agrees_of_confluent
    (hco : ∀ calls calls', Covers objs calls → Covers objs calls' → property calls p q = property calls' p q) :
    Agrees objs p q := by
  constructor
  · intro hn p₁ p₂ hs₁ hs₂
    rw [← property_podLast hf hp hs₁ hn, ← property_podLast hf hp hs₂ hn]
    exact hco _ _ (covers_podLast hf hp hs₁) (covers_podLast hf hp hs₂)
  · intro o ho hna hst v hse p₁ hs
    have hn : ∀ o' ∈ objs, Matches p o' → find q (sends o') = none := by
      intro o' ho' hm
      have huid := names_uid (hf.owner p hp) hm.names hna
      exact absurd (hf.eq_of_uid ho' ho huid ▸ hm) hst
    have hk : ∀ c ∈ objs, ∃ o ∈ objs, SameAs o c := fun c hc => ⟨c, hc, .refl _⟩
    have hcov : Covers objs (objs ++ [o]) := by
      refine ⟨fun c hc => ?_, fun c hc => ⟨c, mem_append_left _ hc, .refl _⟩⟩
      rcases mem_append.mp hc with hc | hc
      · exact hk c hc
      · exact ⟨o, ho, mem_singleton.mp hc ▸ .refl _⟩
    have hne : ¬ SameAs (.pod p) o := by
      intro hs
      cases o with
      | pod _ => cases hse
      | _ => cases hs
    have hv : property (objs ++ [o]) p q = some v := by
      rw [property_concat, (loaded_calls hf hk).latest_other hf hp ⟨o, ho, .refl o⟩ hne,
        if_pos ⟨⟨.pod p, hp, .refl _⟩, hna⟩, hse]
      rfl
    rw [← property_podLast hf hp hs hn, ← hv]
    exact hco _ _ (covers_podLast hf hp hs) hcov

variable (ha : Agrees objs p q)
include ha

theorem valued_pod (hk : ∀ c ∈ calls, ∃ o ∈ objs, SameAs o c) (hsa : SamePod p p')
    (ih : (∃ c ∈ calls, SameAs (.pod p) c) → Valued objs calls p q (property calls p q)) :
    Valued objs (calls ++ [.pod p']) p q (property (calls ++ [.pod p']) p q) := by
  have hpa := (loaded_calls hf hk).ownerPart (hf.owner p hp) hsa q
  rw [property_concat, latest_samePod _ hsa]
  constructor
  · intro o ho hm hs
    have ho : o ∈ calls := by
      rcases mem_append.mp ho with ho | ho
      · exact ho
      · rw [mem_singleton.mp ho] at hs
        exact absurd rfl hs
    obtain ⟨v, hv⟩ := ne_none_iff_exists'.mp hs
    rw [(hpa v).mpr ⟨o, ho, hm, hv⟩, hv]
    rfl
  · intro hn
    have hpa : DimensionHandler.ownerPart (calls.foldl handleAdd .initial) p' q = none := by
      apply eq_none_iff_forall_ne_some.mpr
      intro v hv
      obtain ⟨o, ho, hm, hs⟩ := (hpa v).mp hv
      rw [hn o (mem_of_sends (q := q) (hk o ho) (by simp [hs])) hm] at hs
      cases hs
    rw [hpa, none_or, ha.own hn p' p hsa ⟨rfl, .refl _⟩]
    cases hown : find q (dimensionForPod p).properties with
    | some v => rfl
    | none =>
      -- nothing was sent for the property before
      by_cases hb : ∃ c ∈ calls, SameAs (.pod p) c
      · exact ((ih hb).own hn).trans hown
      · exact property_unseen hf hp hk fun c hc hsa => hb ⟨c, hc, hsa⟩

theorem valued_other (hk : ∀ c' ∈ calls ++ [c], ∃ o ∈ objs, SameAs o c') (hne : ¬ SameAs (.pod p) c)
    (hb : ∃ c ∈ calls, SameAs (.pod p) c) (ih : Valued objs calls p q (property calls p q)) :
    Valued objs (calls ++ [c]) p q (property (calls ++ [c]) p q) := by
  have hr := hf.owner p hp
  have hc := hk c (by simp)
  have hlo := loaded_calls hf fun c hc => hk c (mem_append_left _ hc)
  obtain ⟨hma, hown⟩ := ih
  rw [property_concat, hlo.latest_other hf hp hc hne]
  by_cases hn : Names p c
  · rw [if_pos ⟨hb, hn⟩]
    cases hs : find q (sends c) with
    | none =>
      refine ⟨fun o ho hm ho' => ?_, hown⟩
      rcases mem_append.mp ho with ho | ho
      · exact hma o ho hm ho'
      · rw [mem_singleton.mp ho] at ho'
        exact absurd hs ho'
    | some w =>
      have hmem := mem_of_sends (q := q) hc (by simp [hs])
      constructor
      · intro o ho hm ho'
        have ho := mem_of_sends (hk o ho) ho'
        rw [hf.eq_of_uid ho hmem (names_uid hr hm.names hn), hs]
        rfl
      · intro hno
        have hst : ¬ Matches p c := fun hm => by
          rw [hno c hmem hm] at hs
          cases hs
        exact (ha.stray c hmem hn hst w hs p ⟨rfl, .refl _⟩).symm
  · rw [if_neg fun h => hn h.2, none_or]
    refine ⟨fun o ho hm ho' => ?_, hown⟩
    rcases mem_append.mp ho with ho | ho
    · exact hma o ho hm ho'
    · exact absurd (mem_singleton.mp ho ▸ hm.names) hn

theorem valued_calls (hk : ∀ c ∈ calls, ∃ o ∈ objs, SameAs o c) (hse : ∃ c ∈ calls, SameAs (.pod p) c) :
    Valued objs calls p q (property calls p q) := by
  induction calls using reverseRecOn with
  | nil => simp at hse
  | append_singleton calls c ih =>
    have hk' := fun c hc => hk c (mem_append_left _ hc)
    by_cases hs : SameAs (.pod p) c
    · cases c with
      | pod p' => exact valued_pod hf hp ha hk' hs (ih hk')
      | _ => cases hs
    · have hb : ∃ c ∈ calls, SameAs (.pod p) c := by
        obtain ⟨c', hc', hs'⟩ := hse
        rcases mem_append.mp hc' with hc' | hc'
        · exact ⟨c', hc', hs'⟩
        · exact absurd (mem_singleton.mp hc' ▸ hs') hs
      exact valued_other hf hp ha hk hs hb (ih hk' hb)

theorem property_eq_of_agrees {calls calls' : List Object} (hca : Covers objs calls) (hca' : Covers objs calls') :
    property calls p q = property calls' p q := by
  have hv := valued_calls hf hp ha hca.known (hca.all _ hp)
  have hv' := valued_calls hf hp ha hca'.known (hca'.all _ hp)
  by_cases hma : ∃ o ∈ objs, Matches p o ∧ find q (sends o) ≠ none
  · obtain ⟨o, ho, hm, hs⟩ := hma
    have hmem : ∀ {calls}, Covers objs calls → o ∈ calls := by
      intro calls hca
      obtain ⟨c, hc, hsa⟩ := hca.all o ho
      cases o with
      | pod _ => exact absurd rfl hs
      | _ => exact (show _ = c from hsa) ▸ hc
    rw [hv.matched o (hmem hca) hm hs, hv'.matched o (hmem hca') hm hs]
  · have hn : ∀ o ∈ objs, Matches p o → find q (sends o) = none := by
      intro o ho hm
      exact not_not.mp fun hs => hma ⟨o, ho, hm, hs⟩
    rw [hv.own hn, hv'.own hn]

end

/-! ## The condition on labels and owners -/

def ownValue (p : Pod) (q : Str) : Option Str :=
  p.ownerReferences.head?.bind (refValue · q)

/-- Labels that become one property have one value, unless the owner sets it. Where the object with the UID of the
reference has another kind, the pod itself has what the object sends. -/
structure Settled (objs : List Object) (p : Pod) (q : Str) : Prop where
  labels : (∀ o ∈ objs, Matches p o → find q (sends o) = none) → ownValue p q = none →
    ∀ v ∈ labelValues p.labels q, ∀ w ∈ labelValues p.labels q, v = w
  stray : ∀ o ∈ objs, Names p o → ¬ Matches p o → ∀ v, find q (sends o) = some v → ownValue p q = some v ∨
      ownValue p q = none ∧ labelValues p.labels q ≠ [] ∧ ∀ w ∈ labelValues p.labels q, w = v

theorem find_properties_samePod (hr : p.ownerReferences.length ≤ 1) (hq : q ∈ workloadProperties)
    (hs : SamePod p p') :
    find q (dimensionForPod p').properties = (ownValue p q).or (labelValues p'.labels q).getLast? := by
  rw [find_properties_pod (hs.ownerReferences ▸ hr) hq, hs.ownerReferences]
  rfl

theorem SamePod.mem_labelValues (hs : SamePod p p') (v : Str) :
    v ∈ labelValues p'.labels q ↔ v ∈ labelValues p.labels q :=
  ((hs.2.filter _).map _).mem_iff

theorem exists_getLast_labelValues (hv : v ∈ labelValues p.labels q) :
    ∃ p₁, SamePod p p₁ ∧ (labelValues p₁.labels q).getLast? = some v := by
  obtain ⟨label, hl, rfl⟩ := mem_map.mp hv
  obtain ⟨hl, hq⟩ := mem_filter.mp hl
  refine ⟨{ p with labels := p.labels.erase label ++ [label] }, ⟨rfl, ?_⟩, ?_⟩
  · exact (perm_append_singleton _ _).trans (perm_cons_erase hl).symm
  · obtain ⟨hva, hkey⟩ := of_decide_eq_true hq
    simp [labelValues, filter_append, hva, hkey]

theorem getLast?_eq_of_forall {l : List Str} (hne : l ≠ []) (h : ∀ w ∈ l, w = v) : l.getLast? = some v := by
  rw [getLast?_eq_some_getLast hne, h _ (getLast_mem hne)]

theorem agrees_iff_settled (hr : p.ownerReferences.length ≤ 1) (hq : q ∈ workloadProperties) :
    Agrees objs p q ↔ Settled objs p q := by
  have hf := fun p₁ (hs : SamePod p p₁) => find_properties_samePod hr hq hs
  constructor
  · intro h
    constructor
    · intro hno hown v hv w hw
      obtain ⟨p₁, hs₁, hl₁⟩ := exists_getLast_labelValues hv
      obtain ⟨p₂, hs₂, hl₂⟩ := exists_getLast_labelValues hw
      have heq := h.own hno p₁ p₂ hs₁ hs₂
      rw [hf p₁ hs₁, hf p₂ hs₂, hown, hl₁, hl₂] at heq
      exact some.inj heq
    · intro o ho hn hst v hse
      have hva := fun p₁ hs => (hf p₁ hs).symm.trans (h.stray o ho hn hst v hse p₁ hs)
      cases hown : ownValue p q with
      | some u =>
        have hp := hva p ⟨rfl, .refl _⟩
        rw [hown] at hp
        exact .inl hp
      | none =>
        rw [hown] at hva
        refine .inr ⟨rfl, fun hnil => ?_, fun w hw => ?_⟩
        · have hp := hva p ⟨rfl, .refl _⟩
          rw [hnil] at hp
          cases hp
        · obtain ⟨p₁, hs, hl⟩ := exists_getLast_labelValues hw
          have hp := hva p₁ hs
          rw [hl] at hp
          exact some.inj hp
  · intro h
    constructor
    · intro hno p₁ p₂ hs₁ hs₂
      rw [hf p₁ hs₁, hf p₂ hs₂]
      cases hown : ownValue p q with
      | some u => rfl
      | none =>
        have he := h.labels hno hown
        rw [none_or, none_or]
        cases hla : labelValues p.labels q with
        | nil =>
          have hnil : ∀ {p₁}, SamePod p p₁ → labelValues p₁.labels q = [] := fun hs =>
            eq_nil_iff_forall_not_mem.mpr fun v hv => by simpa [hla] using (hs.mem_labelValues v).mp hv
          rw [hnil hs₁, hnil hs₂]
        | cons v rest =>
          have hv : v ∈ labelValues p.labels q := by simp [hla]
          have hl : ∀ {p₁}, SamePod p p₁ → (labelValues p₁.labels q).getLast? = some v := by
            intro p₁ hs
            apply getLast?_eq_of_forall (ne_nil_of_mem ((hs.mem_labelValues v).mpr hv))
            intro w hw
            exact he w ((hs.mem_labelValues w).mp hw) v hv
          rw [hl hs₁, hl hs₂]
    · intro o ho hn hst v hse p₁ hs
      rw [hf p₁ hs]
      rcases h.stray o ho hn hst v hse with hown | ⟨hown, hne, hall⟩
      · rw [hown]
        rfl
      · obtain ⟨w, hw⟩ := exists_mem_of_ne_nil _ hne
        rw [hown, none_or]
        apply getLast?_eq_of_forall (ne_nil_of_mem ((hs.mem_labelValues w).mpr hw))
        intro w hw
        exact hall w ((hs.mem_labelValues w).mp hw)

theorem properties_confluent_iff (objs : List Object) (hfixed : Fixed objs) :
    (∀ calls calls', Covers objs calls → Covers objs calls' → ∀ p, .pod p ∈ objs → ∀ q ∈ workloadProperties,
      property calls p q = property calls' p q) ↔
    ∀ p, .pod p ∈ objs → ∀ q ∈ workloadProperties, Settled objs p q := by
  constructor
  · intro h p hp q hq
    apply (agrees_iff_settled (hfixed.owner p hp) hq).mp
    exact agrees_of_confluent hfixed hp fun calls calls' hc hc' => h calls calls' hc hc' p hp q hq
  · intro h calls calls' hc hc' p hp q hq
    have ha := (agrees_iff_settled (hfixed.owner p hp) hq).mpr (h p hp q hq)
    exact property_eq_of_agrees hfixed hp ha hc hc'

instance (p : Pod) (o : Object) : Decidable (Names p o) :=
  inferInstanceAs (Decidable (∃ _ ∈ _, _))

instance (p : Pod) (o : Object) : Decidable (Matches p o) :=
  inferInstanceAs (Decidable (∃ _ ∈ _, _))

def webReplicaSet : Workload :=
  ⟨"rs-1", "web-5d", "default", [⟨"Deployment", "web", "deploy-1"⟩]⟩

def ownedAs (kind : Str) : Pod :=
  ⟨"pod-1", "default", [], [("app", "web")], [⟨kind, "web-5d", "rs-1"⟩]⟩

def podAndOwner (kind : Str) : List Object :=
  [.replicaSet webReplicaSet, .pod (ownedAs kind)]

theorem fixed_podAndOwner (kind : Str) : Fixed (podAndOwner kind) := by
  have hpod : ∀ p, .pod p ∈ podAndOwner kind → p = ownedAs kind := by
    intro p hp
    rcases mem_pair.mp hp with hp | hp
    · cases hp
    · exact Object.pod.inj hp
  refine ⟨?_, fun p hp => ?_, fun p hp ref _ owner ho _ => ?_⟩
  · change ["rs-1".toList, "pod-1".toList].Nodup
    decide +kernel
  · rw [hpod p hp]
    exact le_rfl
  · rw [hpod p hp]
    rcases ho with ho | ho <;> rcases mem_pair.mp ho with heq | heq <;> cases heq
    rfl

theorem properties_confluent_deployment : Fixed (podAndOwner "ReplicaSet") ∧
    ∀ calls calls', Covers (podAndOwner "ReplicaSet") calls → Covers (podAndOwner "ReplicaSet") calls' →
      ∀ p, .pod p ∈ podAndOwner "ReplicaSet" → ∀ q ∈ workloadProperties,
        property calls p q = property calls' p q := by
  refine ⟨fixed_podAndOwner _, (properties_confluent_iff _ (fixed_podAndOwner _)).mpr fun p hp q hq => ?_⟩
  have hp : p = ownedAs "ReplicaSet" := by
    rcases mem_pair.mp hp with hp | hp
    · cases hp
    · exact Object.pod.inj hp
  subst hp
  have hl : ∀ q ∈ workloadProperties, labelValues (ownedAs "ReplicaSet").labels q = [] := by
    decide +kernel
  have hm : ∀ o ∈ podAndOwner "ReplicaSet", Names (ownedAs "ReplicaSet") o → Matches (ownedAs "ReplicaSet") o := by
    decide +kernel
  constructor
  · intro _ _ v hv
    rw [hl q hq] at hv
    cases hv
  · intro o ho hn hs
    exact absurd (hm o ho hn) hs

/-- The reference names another kind than the object with its UID has. -/
theorem properties_otherKind : Fixed (podAndOwner "StatefulSet".toList) ∧
    Covers (podAndOwner "StatefulSet".toList) (podAndOwner "StatefulSet".toList) ∧
    Covers (podAndOwner "StatefulSet".toList) (podAndOwner "StatefulSet".toList).reverse ∧
    property (podAndOwner "StatefulSet".toList) (ownedAs "StatefulSet".toList) "kubernetes_workload".toList =
      some "StatefulSet".toList ∧
    property (podAndOwner "StatefulSet".toList).reverse (ownedAs "StatefulSet".toList) "kubernetes_workload".toList =
      some "Deployment".toList := by
  refine ⟨fixed_podAndOwner _, ⟨?_, ?_⟩, ⟨?_, ?_⟩, by decide +kernel, by decide +kernel⟩
  · exact fun c hc => ⟨c, hc, .refl c⟩
  · exact fun o ho => ⟨o, ho, .refl o⟩
  · exact fun c hc => ⟨c, mem_reverse.mp hc, .refl c⟩
  · exact fun o ho => ⟨o, mem_reverse.mpr ho, .refl o⟩

end Collector.Kubernetes
