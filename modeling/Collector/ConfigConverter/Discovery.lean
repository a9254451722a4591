import Collector.Confmap.Flatten
import Collector.Lib.Panic

/-!
# The discovery converter

`internal/configconverter/discovery.go` moves what was discovered into the service. Some of its type assertions are not
checked.
-/

namespace Collector.ConfigConverter

open Lib Confmap List

variable (v : Value) {σ : Type} {components : List Value} (key : Str)

inductive ConvertErr where
  /-- `service is of unexpected form`. -/
  | service (v : Value)
  /-- `cannot determine service extensions`. -/
  | serviceExtensions (v : Value)
  /-- `cannot determine discovery extensions`. -/
  | discoveryExtensions (v : Value)
  /-- `cannot determine discovery receivers`. -/
  | discoveryReceivers (v : Value)
  /-- `cannot determine metrics pipeline receivers`. -/
  | metricsReceivers (v : Value)

variable (err : Value → ConvertErr)

inductive Panic where
  /-- An assertion of another type, or on nil. -/
  | assertion (v : Value)
  /-- A key of a `map[any]` that has no hash. -/
  | unhashable (v : Value)

abbrev Result := Outcome ConvertErr Panic

def asMap : Value → Result Fields
  | .map m => .ok m
  | v => .error (.panic (.assertion v))

def asString : Value → Result Str
  | .str s => .ok s
  | v => .error (.panic (.assertion v))

def hashable : Value → Bool
  | .bytes _ | .list _ | .map _ | .imap _ => false
  | _ => true

def asKey (v : Value) : Result Value := if hashable v then .ok v else .error (.panic (.unhashable v))

def sameKey : Value → Value → Bool
  | .null, .null => true
  | .bool a, .bool b => a == b
  | .int a, .int b => a == b
  | .float a, .float b => a == b
  | .str a, .str b => a == b
  | _, _ => false

namespace Discovery

def discoExtensionsKey : Str := "extensions/splunk.discovery"

def discoReceiversKey : Str := "receivers/splunk.discovery"

def toAnySlice : Value → Option (List Value)
  | .list vs => some vs
  | _ => none

def optionalSlice (err : Value → ConvertErr) : Option Value → Result (List Value)
  | none | some .null => .ok []
  | some v =>
    match toAnySlice v with
    | some vs => .ok vs
    | none => .error (.error (err v))

def optionalMap : Option Value → Result Fields
  | none | some .null => .ok []
  | some v => asMap v

def presentMap : Option Value → Result Fields
  | none => .ok []
  | some v => asMap v

def getServiceExtensions (out : Fields) : Result (Fields × List Value) :=
  match find "service".toList out with
  | none | some .null => .ok ([], [])
  | some (.map service) => do
    let serviceExtensions ← optionalSlice .serviceExtensions (find "extensions".toList service)
    return (service, serviceExtensions)
  | some s => .error (.error (.service s))

def getDisco (key : Str) (err : Value → ConvertErr) (service : Fields) : Result (Bool × List Value × Fields) :=
  match find key service with
  | none => .ok (false, [], service)
  | some des =>
    match toAnySlice des with
    | some vs => .ok (true, vs, service.filter fun e => e.1 ≠ key)
    | none => .error (.error (err des))

def getDiscoExtensions : Fields → Result (Bool × List Value × Fields) :=
  getDisco discoExtensionsKey .discoveryExtensions

def getDiscoReceivers : Fields → Result (Bool × List Value × Fields) :=
  getDisco discoReceiversKey .discoveryReceivers

def getMetricsPipelineAndReceivers (service : Fields) : Result (Fields × Fields × List Value) := do
  let pipelines ← optionalMap (find "pipelines".toList service)
  let metricsPipeline ← optionalMap (find "metrics".toList pipelines)
  let metricsReceivers ← optionalSlice .metricsReceivers (find "receivers".toList metricsPipeline)
  return (pipelines, metricsPipeline, metricsReceivers)

/-- The elements that are not in `serviceComponents` are appended, each as often as it is there. -/
def appendUnique (serviceComponents discoComponents : List Value) : Result (List Value) := do
  let existing ← serviceComponents.foldlM (fun existing e => do
    let e ← asKey e
    return e :: existing) []
  discoComponents.foldlM (fun components e => do
    let e ← asKey e
    return if existing.any (sameKey e) then components else components ++ [e]) serviceComponents

def setAutoDiscoveryResourceAttribute (service : Fields) : Result Fields := do
  let telemetry ← presentMap (find "telemetry".toList service)
  let resAttrs ← presentMap (find "resource".toList telemetry)
  let resAttrs := put "splunk_autodiscovery".toList (.str "true".toList) resAttrs
  return put "telemetry".toList (.map (put "resource".toList (.map resAttrs) telemetry)) service

def appendDisco (key : Str) (components disco : List Value) (m : Fields) : Result Fields :=
  if disco.isEmpty then .ok m
  else do
    let components ← appendUnique components disco
    return put key (.list components) m

def relocate (out service : Fields) (serviceExtensions discoExtensions discoReceivers : List Value) :
    Result Fields := do
  let service ← appendDisco "extensions".toList serviceExtensions discoExtensions service
  let (pipelines, metricsPipeline, metricsReceivers) ← getMetricsPipelineAndReceivers service
  let metricsPipeline ← appendDisco "receivers".toList metricsReceivers discoReceivers metricsPipeline
  let pipelines := put "metrics".toList (.map metricsPipeline) pipelines
  let service := put "pipelines".toList (.map pipelines) service
  let service ← setAutoDiscoveryResourceAttribute service
  return newFromStringMap (put "service".toList (.map service) out)

def convert (conf : Fields) : Result Fields := do
  let out := toStringMap conf
  let (service, serviceExtensions) ← getServiceExtensions out
  let (discoExtensionsIsSet, discoExtensions, service) ← getDiscoExtensions service
  let (discoReceiversIsSet, discoReceivers, service) ← getDiscoReceivers service
  if !discoExtensionsIsSet && !discoReceiversIsSet then return conf
  relocate out service serviceExtensions discoExtensions discoReceivers

/-! ## The forms that it can read -/

def elements : Option Value → List Value
  | some (.list vs) => vs
  | _ => []

def entries : Option Value → Fields
  | some (.map m) => m
  | _ => []

def IsList (v : Value) : Prop := ∃ vs, v = .list vs

def IsMap (v : Value) : Prop := ∃ m, v = .map m

def Optional (form : Value → Prop) (o : Option Value) : Prop := ∀ v, o = some v → v = .null ∨ form v

structure Found (service : Fields) : Prop where
  serviceExtensions : Optional IsList (find "extensions".toList service)
  discoExtensions : ∀ v, find discoExtensionsKey service = some v → IsList v
  discoReceivers : ∀ v, find discoReceiversKey service = some v → IsList v
  isSet : (find discoExtensionsKey service).isSome = true ∨ (find discoReceiversKey service).isSome = true

structure WellFormed (service : Fields) (serviceExtensions discoExtensions discoReceivers : List Value) : Prop where
  extensions : discoExtensions ≠ [] → ∀ e ∈ serviceExtensions ++ discoExtensions, hashable e = true
  pipelines : Optional IsMap (find "pipelines".toList service)
  metrics : Optional IsMap (find "metrics".toList (entries (find "pipelines".toList service)))
  /-- Receivers of another form are reported before the rest is looked at. -/
  rest : let metrics := entries (find "metrics".toList (entries (find "pipelines".toList service)))
    Optional IsList (find "receivers".toList metrics) → (discoReceivers ≠ [] →
        ∀ e ∈ elements (find "receivers".toList metrics) ++ discoReceivers, hashable e = true) ∧
      (∀ v, find "telemetry".toList service = some v → IsMap v) ∧
      ∀ v, find "resource".toList (entries (find "telemetry".toList service)) = some v → IsMap v

/-! ## Where it panics -/

open Outcome

variable {o : Option Value} {service : Fields}

theorem safe_asMap : Safe (asMap v) ↔ IsMap v := by
  cases v <;> simp [asMap, IsMap]

theorem asKey_eq {v : Value} (h : hashable v = true) : asKey v = .ok v := if_pos h

theorem safe_asKey : Safe (asKey v) ↔ hashable v = true := by
  rw [asKey]
  by_cases h : hashable v = true <;> simp [h]

theorem optionalSlice_eq (h : Optional IsList o) : optionalSlice err o = .ok (elements o) := by
  cases o with
  | none => rfl
  | some v => rcases h v rfl with rfl | ⟨vs, rfl⟩ <;> rfl

theorem optionalSlice_error (h : ¬ Optional IsList o) : ∃ e, optionalSlice err o = .error (.error e) := by
  rw [Optional, not_forall] at h
  obtain ⟨v, h⟩ := h
  rw [Classical.not_imp, not_or] at h
  obtain ⟨rfl, hn, hl⟩ := h
  cases v with
  | null => exact absurd rfl hn
  | list vs => exact absurd ⟨vs, rfl⟩ hl
  | bool _ | int _ | float _ | str _ | bytes _ | map _ | imap _ => exact ⟨_, rfl⟩

theorem optionalMap_eq (h : Optional IsMap o) : optionalMap o = .ok (entries o) := by
  cases o with
  | none => rfl
  | some v => rcases h v rfl with rfl | ⟨m, rfl⟩ <;> rfl

theorem safe_optionalMap (o : Option Value) : Safe (optionalMap o) ↔ Optional IsMap o := by
  constructor
  · rintro h v rfl
    cases v with
    | null => exact .inl rfl
    | map m => exact .inr ⟨m, rfl⟩
    | bool _ | int _ | float _ | str _ | bytes _ | list _ | imap _ => exact absurd h (not_safe_panic _)
  · intro h
    rw [optionalMap_eq h]
    exact safe_ok _

theorem presentMap_eq (h : ∀ v, o = some v → IsMap v) : presentMap o = .ok (entries o) := by
  cases o with
  | none => rfl
  | some v =>
    obtain ⟨m, rfl⟩ := h v rfl
    rfl

theorem safe_presentMap (o : Option Value) : Safe (presentMap o) ↔ ∀ v, o = some v → IsMap v := by
  cases o with
  | none => simp [presentMap]
  | some v => simp [presentMap, safe_asMap]

variable (next : σ → Value → σ)

theorem keyLoop_eq {l : List Value} (h : ∀ e ∈ l, hashable e = true) (s : σ) :
    l.foldlM (fun s e => do let e ← asKey e; return next s e : σ → Value → Result σ) s = .ok (l.foldl next s) := by
  induction l generalizing s with
  | nil => rfl
  | cons e l ih =>
    rw [foldlM_cons, asKey_eq (h e mem_cons_self)]
    exact ih (fun e' he' => h e' (mem_cons_of_mem e he')) (next s e)

theorem safe_keyLoop (l : List Value) (s : σ) :
    Safe (l.foldlM (fun s e => do let e ← asKey e; return next s e : σ → Value → Result σ) s) ↔
      ∀ e ∈ l, hashable e = true := by
  refine safe_foldlM (fun _ _ => True) ?_ ?_ trivial
  · intro a l s _ ha
    rw [asKey_eq ha]
    exact ⟨_, rfl, trivial⟩
  · intro a l s _ hs
    exact (safe_asKey a).mp ((safe_bind _ _).mp hs).1

theorem foldl_appended (p : Value → Bool) (l acc : List Value) :
    l.foldl (fun acc e => if p e then acc else acc ++ [e]) acc = acc ++ l.filter fun e => !p e := by
  induction l generalizing acc with
  | nil => simp
  | cons e l ih =>
    rw [foldl_cons, ih]
    by_cases h : p e = true <;> simp [h]

variable {disco : List Value}

theorem appendUnique_eq (h : ∀ e ∈ components ++ disco, hashable e = true) :
    appendUnique components disco = .ok (components ++ disco.filter fun e => !components.any (sameKey e)) := by
  rw [forall_mem_append] at h
  have he : components.foldl (fun existing e => e :: existing) [] = components.reverse := by simp
  rw [appendUnique, keyLoop_eq (fun existing e => e :: existing) h.1, he]
  change disco.foldlM _ components = _
  rw [keyLoop_eq (fun cs e => if components.reverse.any (sameKey e) then cs else cs ++ [e]) h.2, foldl_appended]
  simp only [any_reverse]

theorem safe_appendUnique (components disco : List Value) :
    Safe (appendUnique components disco) ↔ ∀ e ∈ components ++ disco, hashable e = true := by
  constructor
  · intro h
    rw [appendUnique, safe_bind, safe_keyLoop (fun existing e => e :: existing)] at h
    obtain ⟨hc, hr⟩ := h
    have hd := hr _ (keyLoop_eq (fun existing e => e :: existing) hc [])
    exact forall_mem_append.mpr ⟨hc, (safe_keyLoop _ disco components).mp hd⟩
  · intro h
    rw [appendUnique_eq h]
    exact safe_ok _

theorem appendDisco_eq (m : Fields) (h : disco ≠ [] → ∀ e ∈ components ++ disco, hashable e = true) :
    ∃ m', appendDisco key components disco m = .ok m' ∧ ∀ k ≠ key, find k m' = find k m := by
  rw [appendDisco]
  cases disco with
  | nil => exact ⟨m, rfl, fun _ _ => rfl⟩
  | cons e disco =>
    rw [appendUnique_eq (h (cons_ne_nil e disco))]
    exact ⟨_, rfl, fun k hk => find_put_ne _ m hk⟩

theorem safe_appendDisco (components disco : List Value) (m : Fields) :
    Safe (appendDisco key components disco m) ↔ (disco ≠ [] → ∀ e ∈ components ++ disco, hashable e = true) := by
  constructor
  · intro h hne
    rw [appendDisco, if_neg (by simpa using hne), safe_bind] at h
    exact (safe_appendUnique components disco).mp h.1
  · intro h
    obtain ⟨m', hm', -⟩ := appendDisco_eq key m h
    rw [hm']
    exact safe_ok m'

theorem safe_setAutoDiscoveryResourceAttribute (service : Fields) :
    Safe (setAutoDiscoveryResourceAttribute service) ↔ (∀ v, find "telemetry".toList service = some v → IsMap v) ∧
      ∀ v, find "resource".toList (entries (find "telemetry".toList service)) = some v → IsMap v := by
  rw [setAutoDiscoveryResourceAttribute, safe_bind, safe_presentMap]
  refine and_congr_right fun h => ?_
  rw [presentMap_eq h]
  constructor
  · intro hr
    exact (safe_presentMap _).mp ((safe_bind _ _).mp (hr _ rfl)).1
  · rintro hres tel heq
    cases heq
    rw [presentMap_eq hres]
    exact safe_ok _

theorem getMetrics_eq (hp : Optional IsMap (find "pipelines".toList service))
    (hm : Optional IsMap (find "metrics".toList (entries (find "pipelines".toList service)))) :
    let pipelines := entries (find "pipelines".toList service)
    let metrics := entries (find "metrics".toList pipelines)
    getMetricsPipelineAndReceivers service = (do
      let receivers ← optionalSlice .metricsReceivers (find "receivers".toList metrics)
      return (pipelines, metrics, receivers)) := by
  intro pipelines metrics
  rw [getMetricsPipelineAndReceivers, optionalMap_eq hp]
  change optionalMap (find "metrics".toList pipelines) >>= _ = _
  rw [optionalMap_eq hm]
  rfl

theorem safe_getMetrics (h : Safe (getMetricsPipelineAndReceivers service)) :
    Optional IsMap (find "pipelines".toList service) ∧
      Optional IsMap (find "metrics".toList (entries (find "pipelines".toList service))) := by
  rw [getMetricsPipelineAndReceivers, safe_bind, safe_optionalMap] at h
  have hm := h.2 _ (optionalMap_eq h.1)
  rw [safe_bind, safe_optionalMap] at hm
  exact ⟨h.1, hm.1⟩

theorem safe_relocate (out service : Fields) (serviceExtensions discoExtensions discoReceivers : List Value) :
    Safe (relocate out service serviceExtensions discoExtensions discoReceivers) ↔
      WellFormed service serviceExtensions discoExtensions discoReceivers := by
  rw [relocate, safe_bind, safe_appendDisco]
  constructor
  · rintro ⟨hext, hre⟩
    obtain ⟨service', hse', hf⟩ := appendDisco_eq "extensions" service hext
    have h := hre service' hse'
    rw [safe_bind] at h
    obtain ⟨hp, hm⟩ := safe_getMetrics h.1
    have hd := h.2
    rw [getMetrics_eq hp hm] at hd
    rw [hf _ (by decide)] at hp hm
    refine ⟨hext, hp, hm, fun hr => ?_⟩
    rw [hf _ (by decide), optionalSlice_eq _ hr] at hd
    have hl := hd _ rfl
    rw [safe_bind, safe_appendDisco] at hl
    obtain ⟨metrics', hm', -⟩ := appendDisco_eq "receivers" _ hl.1
    have hset := hl.2 metrics' hm'
    rw [safe_bind, safe_setAutoDiscoveryResourceAttribute, find_put_ne _ _ (by decide), hf _ (by decide)] at hset
    exact ⟨hl.1, hset.1⟩
  · rintro ⟨hext, hp, hm, hre⟩
    obtain ⟨service', hse', hf⟩ := appendDisco_eq "extensions" service hext
    refine ⟨hext, fun s hs => ?_⟩
    rw [hse'] at hs
    cases hs
    rw [← hf _ (by decide)] at hp hm hre
    rw [getMetrics_eq hp hm]
    by_cases hr : Optional IsList (find "receivers".toList
        (entries (find "metrics".toList (entries (find "pipelines".toList service')))))
    · obtain ⟨hk, htel⟩ := hre hr
      rw [optionalSlice_eq _ hr]
      change Safe (appendDisco _ _ _ _ >>= _)
      refine (safe_bind _ _).mpr ⟨(safe_appendDisco _ _ _ _).mpr hk, fun m _ => ?_⟩
      refine (safe_bind _ _).mpr ⟨?_, fun _ _ => safe_ok _⟩
      rw [safe_setAutoDiscoveryResourceAttribute, find_put_ne _ _ (by decide), hf _ (by decide)]
      exact htel
    · obtain ⟨e, he⟩ := optionalSlice_error .metricsReceivers hr
      rw [he]
      exact safe_error e

theorem getDisco_eq {key : Str} (h : ∀ v, find key service = some v → IsList v) :
    getDisco key err service = .ok ((find key service).isSome, elements (find key service), remove key service) := by
  rw [getDisco]
  cases hkey : find key service with
  | none =>
    rw [remove_of_notMem ((find_none key service).mp hkey)]
    rfl
  | some v =>
    obtain ⟨vs, rfl⟩ := h v hkey
    rfl

theorem getDisco_error {key : Str}
    (h : ¬ ∀ v, find key service = some v → IsList v) : ∃ e, getDisco key err service = .error (.error e) := by
  rw [not_forall] at h
  obtain ⟨v, h⟩ := h
  rw [Classical.not_imp] at h
  obtain ⟨hkey, hl⟩ := h
  rw [getDisco, hkey]
  cases v with
  | list vs => exact absurd ⟨vs, rfl⟩ hl
  | null | bool _ | int _ | float _ | str _ | bytes _ | map _ | imap _ => exact ⟨_, rfl⟩

theorem WellFormed.of_find {service' : Fields} {es des drs : List Value}
    (hp : find "pipelines".toList service' = find "pipelines".toList service)
    (ht : find "telemetry".toList service' = find "telemetry".toList service) :
    WellFormed service' es des drs ↔ WellFormed service es des drs := by
  constructor
  · rintro ⟨h₁, h₂, h₃, h₄⟩
    rw [hp] at h₂ h₃ h₄
    rw [ht] at h₄
    exact ⟨h₁, h₂, h₃, h₄⟩
  · rintro ⟨h₁, h₂, h₃, h₄⟩
    rw [← hp] at h₂ h₃ h₄
    rw [← ht] at h₄
    exact ⟨h₁, h₂, h₃, h₄⟩

section
variable {conf service : Fields} (hservice : find "service".toList (toStringMap conf) = some (.map service))
include hservice

theorem convert_eq : convert conf = (do
    let serviceExtensions ← optionalSlice .serviceExtensions (find "extensions".toList service)
    let (discoExtensionsIsSet, discoExtensions, service) ← getDiscoExtensions service
    let (discoReceiversIsSet, discoReceivers, service) ← getDiscoReceivers service
    if !discoExtensionsIsSet && !discoReceiversIsSet then return conf
    relocate (toStringMap conf) service serviceExtensions discoExtensions discoReceivers) := by
  rw [convert, getServiceExtensions, hservice]
  exact bind_assoc _ _ _

theorem convert_found (hf : Found service) : convert conf =
    relocate (toStringMap conf) (remove discoReceiversKey (remove discoExtensionsKey service))
      (elements (find "extensions".toList service)) (elements (find discoExtensionsKey service))
      (elements (find discoReceiversKey service)) := by
  have hr := find_remove_ne (show discoReceiversKey ≠ discoExtensionsKey by decide) service
  have hset : (!(find discoExtensionsKey service).isSome && !(find discoReceiversKey service).isSome) = false := by
    rcases hf.isSet with h | h <;> simp [h]
  rw [convert_eq hservice, optionalSlice_eq _ hf.serviceExtensions]
  change getDiscoExtensions service >>= _ = _
  rw [getDiscoExtensions, getDisco_eq _ hf.discoExtensions]
  change getDiscoReceivers _ >>= _ = _
  rw [getDiscoReceivers, getDisco_eq _ (hr ▸ hf.discoReceivers), hr]
  exact if_neg (by rw [hset]; decide)

theorem safe_convert_found (hf : Found service) : Safe (convert conf) ↔
    WellFormed service (elements (find "extensions".toList service)) (elements (find discoExtensionsKey service))
      (elements (find discoReceiversKey service)) := by
  rw [convert_found hservice hf, safe_relocate]
  refine WellFormed.of_find ?_ ?_
  · rw [find_remove_ne (by decide), find_remove_ne (by decide)]
  · rw [find_remove_ne (by decide), find_remove_ne (by decide)]

theorem safe_convert_not_found (hf : ¬ Found service) : Safe (convert conf) := by
  rw [convert_eq hservice]
  by_cases hext : Optional IsList (find "extensions".toList service)
  swap
  · obtain ⟨e, he⟩ := optionalSlice_error .serviceExtensions hext
    rw [he]
    exact safe_error e
  rw [optionalSlice_eq _ hext]
  change Safe (getDiscoExtensions service >>= _)
  rw [getDiscoExtensions]
  by_cases hde : ∀ v, find discoExtensionsKey service = some v → IsList v
  swap
  · obtain ⟨e, he⟩ := getDisco_error .discoveryExtensions hde
    rw [he]
    exact safe_error e
  have hr := find_remove_ne (show discoReceiversKey ≠ discoExtensionsKey by decide) service
  rw [getDisco_eq _ hde]
  change Safe (getDiscoReceivers _ >>= _)
  rw [getDiscoReceivers]
  by_cases hdr : ∀ v, find discoReceiversKey service = some v → IsList v
  swap
  · obtain ⟨e, he⟩ := getDisco_error .discoveryReceivers (hr ▸ hdr)
    rw [he]
    exact safe_error e
  rw [getDisco_eq _ (hr ▸ hdr), hr]
  have hset : ¬ ((find discoExtensionsKey service).isSome = true ∨ (find discoReceiversKey service).isSome = true) :=
    fun h => hf ⟨hext, hde, hdr, h⟩
  rw [not_or, Bool.not_eq_true, Bool.not_eq_true] at hset
  change Safe (if (!(find discoExtensionsKey service).isSome && !(find discoReceiversKey service).isSome) = true
    then _ else _)
  rw [hset.1, hset.2]
  exact safe_ok conf

end

theorem safe_convert (conf : Fields) : Safe (convert conf) ↔
    ∀ service, find "service".toList (toStringMap conf) = some (.map service) → Found service →
      WellFormed service (elements (find "extensions".toList service)) (elements (find discoExtensionsKey service))
        (elements (find discoReceiversKey service)) := by
  by_cases hservice : ∃ service, find "service".toList (toStringMap conf) = some (.map service)
  · obtain ⟨service, hservice⟩ := hservice
    simp only [hservice, Option.some.injEq, Value.map.injEq, forall_eq']
    by_cases hf : Found service
    · rw [safe_convert_found hservice hf]
      exact ⟨fun h _ => h, fun h => h hf⟩
    · exact iff_of_true (safe_convert_not_found hservice hf) fun h => absurd h hf
  · refine iff_of_true ?_ fun service h => absurd ⟨service, h⟩ hservice
    rw [convert, getServiceExtensions]
    cases hv : find "service".toList (toStringMap conf) with
    | none => exact safe_ok conf
    | some v =>
      cases v with
      | map service => exact absurd ⟨service, hv⟩ hservice
      | null => exact safe_ok conf
      | bool _ | int _ | float _ | str _ | bytes _ | list _ | imap _ => exact safe_error _

end Discovery

end Collector.ConfigConverter
