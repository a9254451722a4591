import Collector.Confmap.Frame
import Collector.ConfigConverter.Discovery

/-!
# What the discovery converter adds

On a service of the right types the converter is a chain of `put`s. It should append what was discovered, set the
resource attribute, and change nothing else.
-/

namespace Collector.ConfigConverter.Discovery

open Lib Confmap List

variable {discovered : List Str} {v : Value} {o : Option Value} {key k : Str} {s m : Fields}

/-- `Convert` on the configuration in place: `*in` is assigned at the end only. -/
def convertIn (conf : Fields) : Result Unit × Fields :=
  match convert conf with
  | .ok conf' => (.ok (), conf')
  | .error e => (.error e, conf)

/-! ## The service -/

def IsNames (v : Value) : Prop := ∃ names : List Str, v = .list (names.map .str)

def nameOf : Value → Option Str
  | .str s => some s
  | _ => none

def names (o : Option Value) : List Str := (elements o).filterMap nameOf

def pipelinesOf (service : Fields) : Fields := entries (find "pipelines".toList service)

def metricsOf (service : Fields) : Fields := entries (find "metrics".toList (pipelinesOf service))

def telemetryOf (service : Fields) : Fields := entries (find "telemetry".toList service)

def resourceOf (service : Fields) : Fields := entries (find "resource".toList (telemetryOf service))

def extensions (service : Fields) : List Str := names (find "extensions".toList service)

def receivers (service : Fields) : List Str := names (find "receivers".toList (metricsOf service))

def discoveredExtensions (service : Fields) : List Str := names (find discoExtensionsKey service)

def discoveredReceivers (service : Fields) : List Str := names (find discoReceiversKey service)

/-- Every section is missing, null or of its type, and something is set by the discovery provider. -/
structure WellTyped (service : Fields) : Prop where
  extensions : Optional IsNames (find "extensions".toList service)
  pipelines : Optional IsMap (find "pipelines".toList service)
  metrics : Optional IsMap (find "metrics".toList (pipelinesOf service))
  receivers : Optional IsNames (find "receivers".toList (metricsOf service))
  telemetry : Optional IsMap (find "telemetry".toList service)
  resource : Optional IsMap (find "resource".toList (telemetryOf service))
  discoExtensions : ∀ v, find discoExtensionsKey service = some v → IsNames v
  discoReceivers : ∀ v, find discoReceiversKey service = some v → IsNames v
  isSet : (find discoExtensionsKey service).isSome = true ∨ (find discoReceiversKey service).isSome = true

/-! ## What should be added -/

structure Added (original discovered added : List Str) : Prop where
  sublist : added.Sublist discovered
  nodup : added.Nodup
  mem : ∀ e, e ∈ added ↔ e ∈ discovered ∧ e ∉ original

def Extended (conf' : Fields) (path : List Str) (original discovered : List Str) : Prop :=
  ∃ added, Added original discovered added ∧ leafAt conf' path = some (.list ((original ++ added).map .str))

def changedPaths (service : Fields) : List (List Str) :=
  [[discoExtensionsKey], [discoReceiversKey]] ++
    (if discoveredExtensions service = [] then [] else [["extensions".toList]]) ++
    (if discoveredReceivers service = [] then [] else [["pipelines".toList, "metrics".toList, "receivers".toList]]) ++
    [["telemetry".toList, "resource".toList, "splunk_autodiscovery".toList]]

structure OnlyAdds (service conf conf' : Fields) : Prop where
  extensionsGone : valueAt conf' ["service", discoExtensionsKey] = none
  receiversGone : valueAt conf' ["service", discoReceiversKey] = none
  extensions : discoveredExtensions service ≠ [] →
    Extended conf' ["service", "extensions"] (extensions service) (discoveredExtensions service)
  receivers : discoveredReceivers service ≠ [] →
    Extended conf' ["service", "pipelines", "metrics", "receivers"] (receivers service) (discoveredReceivers service)
  pipelines : discoveredReceivers service = [] →
    valueAt conf' ["service", "pipelines"] = valueAt conf ["service", "pipelines"]
  attr : leafAt conf' ["service", "telemetry", "resource", "splunk_autodiscovery"] = some (.str "true")
  others : SameOff ((changedPaths service).map ("service" :: ·)) conf conf'

/-- The converter adds what was discovered and nothing else, and a configuration that it reports stays as it is. -/
def AddsDiscovered (conf : Fields) : Prop :=
  (∀ service, find "service".toList conf = some (.map service) → WellTyped service →
    ∃ conf', convertIn conf = (.ok (), conf') ∧ OnlyAdds service conf conf') ∧
  ∀ e conf', convertIn conf = (.error e, conf') → conf' = conf

/-! ## What is added -/

def fresh (original discovered : List Str) : List Str := discovered.filter fun e => e ∉ original

def addNames (key : Str) (original discovered : List Str) (m : Fields) : Fields :=
  if discovered = [] then m else put key (.list ((original ++ fresh original discovered).map .str)) m

def withExtensions (service : Fields) : Fields :=
  addNames "extensions" (extensions service) (discoveredExtensions service)
    (remove discoReceiversKey (remove discoExtensionsKey service))

def withReceivers (service : Fields) : Fields :=
  put "metrics" (.map (addNames "receivers" (receivers service) (discoveredReceivers service) (metricsOf service)))
    (pipelinesOf service)

def withAttribute (service : Fields) : Fields :=
  put "resource" (.map (put "splunk_autodiscovery" (.str "true") (resourceOf service))) (telemetryOf service)

def relocated (service : Fields) : Fields :=
  put "telemetry" (.map (withAttribute service))
    (put "pipelines" (.map (withReceivers service)) (withExtensions service))

/-- Nothing discovered is listed twice, the metrics pipeline is there or needed, and no unchecked section is null. -/
structure Addable (service : Fields) : Prop where
  extensions : (fresh (extensions service) (discoveredExtensions service)).Nodup
  receivers : (fresh (receivers service) (discoveredReceivers service)).Nodup
  metrics : discoveredReceivers service = [] → ∃ pipelines metrics,
    find "pipelines".toList service = some (.map pipelines) ∧ find "metrics".toList pipelines = some (.map metrics)
  telemetry : find "telemetry".toList service ≠ some .null
  resource : find "resource".toList (telemetryOf service) ≠ some .null

theorem added_fresh {original : List Str} :
    Added original discovered (fresh original discovered) ↔ (fresh original discovered).Nodup := by
  refine ⟨fun h => h.nodup, fun h => ⟨filter_sublist, h, fun e => ?_⟩⟩
  simp [fresh]

theorem isList_of_isNames (h : IsNames v) : IsList v := by
  obtain ⟨ns, rfl⟩ := h
  exact ⟨_, rfl⟩

theorem elements_eq (h : Optional IsNames o) : elements o = (names o).map .str := by
  cases o with
  | none => rfl
  | some v =>
    rcases h v rfl with rfl | ⟨ns, rfl⟩
    · rfl
    · have hn : (ns.map Value.str).filterMap nameOf = ns := by
        rw [filterMap_map]
        exact filterMap_some
      rw [names, elements, hn]

theorem appendDisco_names (key : Str) (original discovered : List Str) (m : Fields) :
    appendDisco key (original.map .str) (discovered.map .str) m = .ok (addNames key original discovered m) := by
  have hk : ∀ e ∈ original.map Value.str ++ discovered.map .str, hashable e = true := by
    intro e he
    rw [← map_append] at he
    obtain ⟨s, -, rfl⟩ := mem_map.mp he
    rfl
  have hf : (discovered.map Value.str).filter (fun e => !(original.map Value.str).any (sameKey e)) =
      (fresh original discovered).map .str := by
    rw [filter_map, fresh]
    congr 1
    refine filter_congr fun s _ => ?_
    rw [Bool.eq_iff_iff]
    simp [sameKey, forall_mem_ne]
  rw [appendDisco, addNames, appendUnique_eq hk, hf, ← map_append]
  cases discovered <;> rfl

theorem find_addNames_ne (h : k ≠ key) (original discovered : List Str) (m : Fields) :
    find k (addNames key original discovered m) = find k m := by
  rw [addNames]
  split
  · rfl
  · exact find_put_ne _ _ h

theorem find_withExtensions (hk : k ∉ ["extensions".toList, discoReceiversKey, discoExtensionsKey])
    (service : Fields) : find k (withExtensions service) = find k service := by
  simp only [mem_cons, not_mem_nil, or_false, not_or] at hk
  rw [withExtensions, find_addNames_ne hk.1, find_remove_ne hk.2.1, find_remove_ne hk.2.2]

def NoNull (service : Fields) : Prop :=
  find "telemetry".toList service ≠ some .null ∧ find "resource".toList (telemetryOf service) ≠ some .null

theorem isMap_of_optional (h : Optional IsMap o) (hn : o ≠ some .null) : ∀ v, o = some v → IsMap v := by
  rintro v rfl
  exact (h v rfl).resolve_left fun hv => hn (hv ▸ rfl)

section
variable {service : Fields} (h : WellTyped service)
include h

theorem WellTyped.found : Found service :=
  ⟨fun v hv => (h.extensions v hv).imp_right isList_of_isNames, fun v hv => isList_of_isNames (h.discoExtensions v hv),
    fun v hv => isList_of_isNames (h.discoReceivers v hv), h.isSet⟩

theorem getMetrics_names (hs : find "pipelines".toList s = find "pipelines".toList service) :
    getMetricsPipelineAndReceivers s =
      .ok (pipelinesOf service, metricsOf service, (receivers service).map .str) := by
  have hl : Optional IsList (find "receivers".toList (metricsOf service)) :=
    fun v hv => (h.receivers v hv).imp_right isList_of_isNames
  rw [getMetrics_eq (hs ▸ h.pipelines) (hs ▸ h.metrics), hs]
  change optionalSlice _ (find _ (metricsOf service)) >>= _ = _
  rw [optionalSlice_eq _ hl, elements_eq h.receivers]
  rfl

variable (hn : NoNull service)
include hn

theorem setAutoDiscoveryResourceAttribute_eq (hs : find "telemetry".toList s = find "telemetry".toList service) :
    setAutoDiscoveryResourceAttribute s = .ok (put "telemetry" (.map (withAttribute service)) s) := by
  rw [setAutoDiscoveryResourceAttribute, hs, presentMap_eq (isMap_of_optional h.telemetry hn.1)]
  change presentMap (find _ (telemetryOf service)) >>= _ = _
  rw [presentMap_eq (isMap_of_optional h.resource hn.2)]
  rfl

theorem convert_relocated {conf : Fields} (hconf : Clean conf)
    (hservice : find "service".toList conf = some (.map service)) :
    convert conf = .ok (newFromStringMap (put "service" (.map (relocated service)) conf)) := by
  have hmap : toStringMap conf = conf := toStringMap_eq hconf.nodup hconf.distinct hconf.good
  have hext : elements (find "extensions".toList service) = (extensions service).map .str := elements_eq h.extensions
  have hde : elements (find discoExtensionsKey service) = (discoveredExtensions service).map .str :=
    elements_eq fun v hv => .inr (h.discoExtensions v hv)
  have hd : elements (find discoReceiversKey service) = (discoveredReceivers service).map .str :=
    elements_eq fun v hv => .inr (h.discoReceivers v hv)
  rw [convert_found (hmap.symm ▸ hservice) h.found, hmap, hext, hde, hd, relocate, appendDisco_names]
  -- the sections that are read next are still those of the service
  change getMetricsPipelineAndReceivers (withExtensions service) >>= _ = _
  rw [getMetrics_names h (find_withExtensions (by decide) service)]
  change appendDisco _ _ _ _ >>= _ = _
  rw [appendDisco_names]
  change setAutoDiscoveryResourceAttribute _ >>= _ = _
  rw [setAutoDiscoveryResourceAttribute_eq h hn]
  · rfl
  · rw [find_put_ne _ _ (by decide)]
    exact find_withExtensions (by decide) service

end

/-! ## The leaves -/

theorem leafAt_entries (m : Fields) (k j : Str) (q : List Str) :
    leafAt m (k :: j :: q) = leafAt (entries (find k m)) (j :: q) := by
  rw [leafAt]
  cases hk : find k m with
  | none => rfl
  | some v => cases v <;> rfl

theorem sameOff_addNames (key : Str) (original discovered : List Str) (m : Fields) :
    SameOff (if discovered = [] then [] else [[key]]) m (addNames key original discovered m) := by
  rw [addNames]
  split
  · exact SameOff.rfl
  · exact sameOff_put key _ m

variable {service : Fields}

theorem sameOff_withReceivers (hr : discoveredReceivers service ≠ [])
    (hs : find "pipelines".toList s = find "pipelines".toList service) :
    SameOff [["pipelines", "metrics", "receivers"]] s (put "pipelines" (.map (withReceivers service)) s) := by
  have hn := sameOff_addNames "receivers" (receivers service) (discoveredReceivers service) (metricsOf service)
  rw [if_neg hr] at hn
  have hm : SameOff [["metrics", "receivers"]] (pipelinesOf service) (withReceivers service) :=
    hn.put_map (cons_ne_nil _ _) fun j q => leafAt_entries _ _ j q
  refine hm.put_map (cons_ne_nil _ _) fun j q => ?_
  rw [leafAt_entries, hs]
  rfl

theorem sameOff_withAttribute (hs : find "telemetry".toList s = find "telemetry".toList service) :
    SameOff [["telemetry", "resource", "splunk_autodiscovery"]] s
      (put "telemetry" (.map (withAttribute service)) s) := by
  have hresource : SameOff [["resource", "splunk_autodiscovery"]] (telemetryOf service) (withAttribute service) :=
    (sameOff_put "splunk_autodiscovery" _ _).put_map (cons_ne_nil _ _) fun j q => leafAt_entries _ _ j q
  refine hresource.put_map (cons_ne_nil _ _) fun j q => ?_
  rw [leafAt_entries, hs]
  rfl

theorem put_withReceivers (h : Addable service) (hr : discoveredReceivers service = [])
    (hs : find "pipelines".toList s = find "pipelines".toList service) :
    put "pipelines".toList (.map (withReceivers service)) s = s := by
  obtain ⟨pipelines, metrics, hpi, hme⟩ := h.metrics hr
  have hp : pipelinesOf service = pipelines := by rw [pipelinesOf, hpi, entries]
  have hm : metricsOf service = metrics := by rw [metricsOf, hp, hme, entries]
  rw [withReceivers, addNames, if_pos hr, hp, hm, put_of_find hme]
  exact put_of_find (hs.trans hpi)

theorem changedPaths_ne_nil (service : Fields) : changedPaths service ≠ [] :=
  append_ne_nil_of_right_ne_nil _ (cons_ne_nil _ _)

theorem sameOff_relocated (h : Addable service) : SameOff (changedPaths service) service (relocated service) := by
  have hk := (sameOff_remove discoExtensionsKey service).trans
    (sameOff_remove discoReceiversKey (remove discoExtensionsKey service))
  have hext := hk.trans (sameOff_addNames "extensions".toList (extensions service) (discoveredExtensions service) _)
  have hf := find_withExtensions (k := "pipelines".toList) (by decide) service
  have hr : SameOff (if discoveredReceivers service = [] then []
      else [["pipelines".toList, "metrics".toList, "receivers".toList]]) (withExtensions service)
      (put "pipelines".toList (.map (withReceivers service)) (withExtensions service)) := by
    split
    · rename_i hn
      rw [put_withReceivers h hn hf]
      exact SameOff.rfl
    · rename_i hs
      exact sameOff_withReceivers hs hf
  refine (hext.trans hr).trans (sameOff_withAttribute ?_)
  rw [find_put_ne _ _ (by decide)]
  exact find_withExtensions (by decide) service

theorem clean_entries (hm : Clean m) (k : Str) : Clean (entries (find k m)) := by
  cases hk : find k m with
  | none => exact clean_nil
  | some v =>
    cases v with
    | map sub => exact (hm.find hk).sub
    | _ => exact clean_nil

theorem clean_addNames (hm : Clean m) (hkey : ':' ∉ key) (original discovered : List Str) :
    Clean (addNames key original discovered m) := by
  rw [addNames]
  split
  · exact hm
  · exact hm.put_leaf hkey rfl

theorem clean_relocated (h : Clean service) : Clean (relocated service) := by
  have hp : Clean (pipelinesOf service) := clean_entries h _
  have htelemetry : Clean (telemetryOf service) := clean_entries h _
  have hext : Clean (withExtensions service) := clean_addNames ((h.remove _).remove _) (by decide) _ _
  have hr : Clean (withReceivers service) :=
    hp.put_section (by decide) (clean_addNames (clean_entries hp _) (by decide) _ _)
  have ha : Clean (withAttribute service) :=
    htelemetry.put_section (by decide) ((clean_entries htelemetry _).put_leaf (by decide) rfl)
  exact (hext.put_section (by decide) hr).put_section (by decide) ha

section
variable {service conf : Fields}

theorem leafAt_put_map (k j : Str) (m m' : Fields) (q : List Str) :
    leafAt (put k (.map m') m) (k :: j :: q) = leafAt m' (j :: q) := by
  rw [leafAt_put, if_pos rfl, leafOf_map]

theorem leafAt_addNames (original : List Str) (hne : discovered ≠ []) (m : Fields) :
    leafAt (addNames key original discovered m) [key] =
      some (.list ((original ++ fresh original discovered).map .str)) := by
  rw [addNames, if_neg hne, leafAt_put, if_pos rfl]
  rfl

theorem leafAt_extensions (hne : discoveredExtensions service ≠ []) :
    leafAt (put "service" (.map (relocated service)) conf) ["service", "extensions"] =
      some (.list ((extensions service ++ fresh (extensions service) (discoveredExtensions service)).map .str)) := by
  rw [leafAt_put_map, relocated, leafAt_put, if_neg (by decide), leafAt_put, if_neg (by decide)]
  exact leafAt_addNames _ hne _

theorem leafAt_receivers (hne : discoveredReceivers service ≠ []) :
    leafAt (put "service" (.map (relocated service)) conf) ["service", "pipelines", "metrics", "receivers"] =
      some (.list ((receivers service ++ fresh (receivers service) (discoveredReceivers service)).map .str)) := by
  rw [leafAt_put_map, relocated, leafAt_put, if_neg (by decide), leafAt_put_map, withReceivers, leafAt_put_map]
  exact leafAt_addNames _ hne _

theorem leafAt_attribute : leafAt (put "service" (.map (relocated service)) conf)
        ["service", "telemetry", "resource", "splunk_autodiscovery"] =
      some (.str "true") := by
  rw [leafAt_put_map, relocated, leafAt_put_map, withAttribute, leafAt_put_map, leafAt_put, if_pos rfl]
  rfl

theorem valueAt_service (k : Str) : valueAt (put "service" (.map (relocated service)) conf) ["service", k] =
      find k (relocated service) := by
  rw [valueAt, find_put_self]
  rfl

theorem find_relocated_gone (hk : k = discoExtensionsKey ∨ k = discoReceiversKey) :
    find k (relocated service) = none := by
  rcases hk with rfl | rfl
  · rw [relocated, find_put_ne _ _ (by decide), find_put_ne _ _ (by decide), withExtensions,
      find_addNames_ne (by decide), find_remove_ne (by decide), find_remove, if_pos rfl]
  · rw [relocated, find_put_ne _ _ (by decide), find_put_ne _ _ (by decide), withExtensions,
      find_addNames_ne (by decide), find_remove, if_pos rfl]

theorem find_relocated_pipelines :
    find "pipelines".toList (relocated service) = some (.map (withReceivers service)) := by
  rw [relocated, find_put_ne _ _ (by decide), find_put_self]

variable (hservice : find "service".toList conf = some (.map service))
include hservice

theorem onlyAdds_of_addable (h : Addable service) :
    OnlyAdds service conf (put "service".toList (.map (relocated service)) conf) := by
  refine ⟨?_, ?_, fun hne => ?_, fun hne => ?_, fun hn => ?_, leafAt_attribute, ?_⟩
  · rw [valueAt_service, find_relocated_gone (.inl rfl)]
  · rw [valueAt_service, find_relocated_gone (.inr rfl)]
  · exact ⟨_, added_fresh.mpr h.extensions, leafAt_extensions hne⟩
  · exact ⟨_, added_fresh.mpr h.receivers, leafAt_receivers hne⟩
  · have hput := put_withReceivers h hn (s := service) rfl
    rw [valueAt_service, find_relocated_pipelines, valueAt, hservice]
    change _ = find "pipelines".toList service
    rw [← find_put_self "pipelines".toList (.map (withReceivers service)) service, hput]
  · refine (sameOff_relocated h).put_map (changedPaths_ne_nil service) fun j q => ?_
    rw [leafAt_entries, hservice, entries]

theorem addable_of_onlyAdds (hnull : NoNull service)
    (h : OnlyAdds service conf (put "service" (.map (relocated service)) conf)) : Addable service := by
  have hn : ∀ {original discovered : List Str} {path : List Str},
      (discovered ≠ [] → leafAt (put "service" (.map (relocated service)) conf) path =
        some (.list ((original ++ fresh original discovered).map .str))) →
      (discovered ≠ [] → Extended (put "service" (.map (relocated service)) conf) path original discovered) →
      (fresh original discovered).Nodup := by
    intro original discovered path hl he
    by_cases hne : discovered = []
    · rw [hne]
      exact nodup_nil
    · obtain ⟨added, ha, hpa⟩ := he hne
      rw [hl hne, Option.some.injEq, Value.list.injEq,
        (map_injective_iff.mpr fun _ _ => Value.str.inj).eq_iff, append_cancel_left_eq] at hpa
      exact hpa ▸ ha.nodup
  refine ⟨hn leafAt_extensions h.extensions, hn leafAt_receivers h.receivers, fun hno => ?_, hnull.1, hnull.2⟩
  have hp := h.pipelines hno
  rw [valueAt_service, find_relocated_pipelines, valueAt, hservice] at hp
  exact ⟨_, _, hp.symm, find_put_self _ _ _⟩

variable (hconf : Clean conf) (htyped : WellTyped service)
include hconf htyped

theorem noNull_of_convert {conf' : Fields} (h : convert conf = .ok conf') : NoNull service := by
  have hmap : toStringMap conf = conf := toStringMap_eq hconf.nodup hconf.distinct hconf.good
  have hw := (safe_convert_found (hmap.symm ▸ hservice) htyped.found).mp (h ▸ Outcome.safe_ok conf')
  obtain ⟨-, htelemetry, hresource⟩ := hw.rest fun v hv => (htyped.receivers v hv).imp_right isList_of_isNames
  constructor
  · intro hn
    obtain ⟨m, hm⟩ := htelemetry _ hn
    cases hm
  · intro hn
    obtain ⟨m, hm⟩ := hresource _ hn
    cases hm

theorem convertIn_onlyAdds_iff :
    (∃ conf', convertIn conf = (.ok (), conf') ∧ OnlyAdds service conf conf') ↔ Addable service := by
  have hcl : Clean (put "service" (.map (relocated service)) conf) :=
    hconf.put_section (by decide) (clean_relocated (hconf.find hservice).sub)
  have hc : NoNull service → convert conf = .ok (put "service" (.map (relocated service)) conf) := by
    intro hn
    rw [convert_relocated htyped hn hconf hservice, newFromStringMap_eq hcl]
  constructor
  · rintro ⟨conf', hin, ho⟩
    have hok : convert conf = .ok conf' := by
      rw [convertIn] at hin
      split at hin
      · rename_i heq
        rw [heq, (Prod.mk.inj hin).2]
      · cases (Prod.mk.inj hin).1
    have hn := noNull_of_convert hservice hconf htyped hok
    rw [hc hn, Except.ok.injEq] at hok
    exact addable_of_onlyAdds hservice hn (hok ▸ ho)
  · intro h
    refine ⟨_, ?_, onlyAdds_of_addable hservice h⟩
    rw [convertIn, hc ⟨h.telemetry, h.resource⟩]

end

/-- The converter only adds what was discovered just if nothing is discovered twice, no empty pipeline is made up, and
neither the telemetry nor its resource is null. -/
theorem addsDiscovered_iff {conf : Fields} (hconf : Clean conf) : AddsDiscovered conf ↔
    ∀ service, find "service".toList conf = some (.map service) → WellTyped service → Addable service := by
  have he : ∀ e conf', convertIn conf = (.error e, conf') → conf' = conf := by
    intro e conf' h
    rw [convertIn] at h
    split at h
    · cases (Prod.mk.inj h).1
    · exact (Prod.mk.inj h).2.symm
  rw [AddsDiscovered, and_iff_left he]
  refine forall_congr' fun service => forall_congr' fun hservice => forall_congr' fun htyped => ?_
  exact convertIn_onlyAdds_iff hservice hconf htyped

variable {form : Value → Prop}

theorem optional_none : Optional form none := nofun

theorem optional_some (h : form v) : Optional form (some v) := by
  rintro w hw
  exact .inr (Option.some.inj hw ▸ h)

theorem optional_null : Optional form (some .null) := by
  rintro w hw
  exact .inl (Option.some.inj hw).symm

def strs (l : List String) : Value := .list (l.map fun s => .str s.toList)

def fullService : Fields :=
  [("extensions", strs ["ext/one"]), ("extensions/splunk.discovery", strs ["ext/one", "ext/two"]),
   ("pipelines", .map [("metrics", .map [("receivers", strs ["recv/one"])])]),
   ("receivers/splunk.discovery", strs ["recv/two"]),
   ("telemetry", .map [("resource", .map [("my-resource", .str "test")])])]

theorem addsDiscovered_full : WellTyped fullService ∧ AddsDiscovered [("service", .map fullService)] := by
  have htyped : WellTyped fullService := by
    refine ⟨optional_some ⟨["ext/one"], rfl⟩, optional_some ⟨_, rfl⟩, optional_some ⟨_, rfl⟩,
      optional_some ⟨["recv/one"], rfl⟩, optional_some ⟨_, rfl⟩, optional_some ⟨_, rfl⟩, ?_, ?_, .inl rfl⟩
    · rintro v hv
      exact ⟨["ext/one", "ext/two"], (Option.some.inj hv).symm⟩
    · rintro v hv
      exact ⟨["recv/two"], (Option.some.inj hv).symm⟩
  refine ⟨htyped, (addsDiscovered_iff (clean_of_plain (by decide))).mpr fun service hservice _ => ?_⟩
  obtain rfl : fullService = service := Value.map.inj (Option.some.inj hservice)
  exact ⟨by decide, by decide, fun h => absurd h (by decide), nofun, nofun⟩

def extensionOnly : Fields := [("extensions/splunk.discovery", strs ["ext/one"])]

def nullTelemetry : Fields := [("receivers/splunk.discovery", strs ["recv/one"]), ("telemetry", .null)]

def listedTwice : Fields := [("receivers/splunk.discovery", strs ["recv/one", "recv/one"])]

/-- A metrics pipeline is made up, an assertion on nil panics, and a receiver is added twice. -/
theorem not_addsDiscovered_sections : ¬ AddsDiscovered [("service", .map extensionOnly)] ∧
    ¬ AddsDiscovered [("service", .map nullTelemetry)] ∧
    ¬ AddsDiscovered [("service", .map listedTwice)] := by
  have ha : ∀ {service : Fields}, Clean [("service", .map service)] → WellTyped service →
      AddsDiscovered [("service", .map service)] → Addable service :=
    fun hconf htyped h => (convertIn_onlyAdds_iff rfl hconf htyped).mp (h.1 _ rfl htyped)
  refine ⟨fun h => ?_, fun h => ?_, fun h => ?_⟩
  · have htyped : WellTyped extensionOnly :=
      ⟨optional_none, optional_none, optional_none, optional_none, optional_none, optional_none,
        fun v hv => ⟨["ext/one"], (Option.some.inj hv).symm⟩, nofun, .inl rfl⟩
    obtain ⟨pipelines, metrics, hp, -⟩ := (ha (clean_of_plain (by decide)) htyped h).metrics rfl
    cases hp
  · have htyped : WellTyped nullTelemetry :=
      ⟨optional_none, optional_none, optional_none, optional_none, optional_null, optional_none, nofun,
        fun v hv => ⟨["recv/one"], (Option.some.inj hv).symm⟩, .inr rfl⟩
    exact (ha (clean_of_plain (by decide)) htyped h).telemetry rfl
  · have htyped : WellTyped listedTwice :=
      ⟨optional_none, optional_none, optional_none, optional_none, optional_none, optional_none, nofun,
        fun v hv => ⟨["recv/one", "recv/one"], (Option.some.inj hv).symm⟩, .inr rfl⟩
    exact absurd (ha (clean_of_plain (by decide)) htyped h).receivers (by decide)

end Collector.ConfigConverter.Discovery
