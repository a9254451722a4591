import Collector.Confmap
import Collector.Strings

/-!
# The config server

`internal/configconverter/config_server.go`. A `range` loop visits a map in the order of its list.
-/

namespace Collector.ConfigConverter

open Lib Confmap List

def fragments : List Str :=
  ["access", "api_key", "apikey", "auth", "credential", "creds", "login", "password", "pwd", "token",
    "user"].map String.toList

def shouldRedactKey (k : Str) : Bool := fragments.any fun fragment => Strings.contains k fragment

theorem shouldRedactKey_of_mem {k : Str} (h : k ∈ fragments) : shouldRedactKey k = true := by
  refine any_eq_true.mpr ⟨k, h, ?_⟩
  rw [Strings.contains.eq_def, isPrefixOf_iff_prefix.mpr (prefix_refl k), Bool.true_or]

def redacted : Str := "<redacted>"

section
variable (castToString : Value → Str)

def castToStringMap (m : List (Value × Value)) : Fields :=
  m.foldl (fun out e => put (sprintV castToString e.1) e.2 out) []

mutual
def redactValue (k : Str) : Value → Value
  | .str s => if shouldRedactKey k then .str redacted else .str s
  | .map m => .map (simpleRedact m)
  | .imap m => .map (castToStringMap castToString (redactEntries m))
  | v => v

def simpleRedact : Fields → Fields
  | [] => []
  | (k, v) :: config => (k, redactValue k v) :: simpleRedact config

def redactEntries : List (Value × Value) → List (Value × Value)
  | [] => []
  | (k, v) :: m => (k, redactValue (sprintV castToString k) v) :: redactEntries m
end

variable (k : Str)

theorem simpleRedact_put (v : Value) (m : Fields) :
    simpleRedact castToString (put k v m) = put k (redactValue castToString k v) (simpleRedact castToString m) := by
  induction m with
  | nil => simp [put, simpleRedact]
  | cons e m ih =>
    obtain ⟨k', v'⟩ := e
    by_cases h : k' = k
    · simp [put, simpleRedact, h]
    · simp [put, simpleRedact, h, ih]

theorem redactEntries_eq_map (m : List (Value × Value)) : redactEntries castToString m =
      m.map fun e => (e.1, redactValue castToString (sprintV castToString e.1) e.2) := by
  induction m with
  | nil => rw [redactEntries]; rfl
  | cons e m ih =>
    obtain ⟨k, v⟩ := e
    rw [redactEntries, ih]; rfl

/-- The case of a `map[any]any` as the source has it. -/
theorem redactValue_imap (m : List (Value × Value)) :
    redactValue castToString k (.imap m) = .map (simpleRedact castToString (castToStringMap castToString m)) := by
  rw [redactValue, redactEntries_eq_map, castToStringMap, castToStringMap, foldl_map]
  have (out : Fields) : m.foldl (fun out e => put (sprintV castToString e.1)
        (redactValue castToString (sprintV castToString e.1) e.2) out) (simpleRedact castToString out) =
      simpleRedact castToString (m.foldl (fun out e => put (sprintV castToString e.1) e.2 out) out) := by
    induction m generalizing out with
    | nil => rfl
    | cons e m ih => rw [foldl_cons, foldl_cons, ← simpleRedact_put, ih]
  have := this []
  rw [simpleRedact] at this
  rw [this]

/-!
## Secrets

A secret is a string under a key to redact. With `through`, an element of a list is under the key of the list.
-/

variable (through : Bool)

mutual
def mapSecrets (f : Str → Str) (secret : Bool) : Value → Value
  | .str s => if secret then .str (f s) else .str s
  | .list vs => .list (mapSecretsElems f (through && secret) vs)
  | .map m => .map (mapSecretsFields f m)
  | .imap m => .imap (mapSecretsEntries f m)
  | v => v

def mapSecretsElems (f : Str → Str) (secret : Bool) : List Value → List Value
  | [] => []
  | v :: vs => mapSecrets f secret v :: mapSecretsElems f secret vs

def mapSecretsFields (f : Str → Str) : Fields → Fields
  | [] => []
  | (k, v) :: m => (k, mapSecrets f (shouldRedactKey k) v) :: mapSecretsFields f m

def mapSecretsEntries (f : Str → Str) : List (Value × Value) → List (Value × Value)
  | [] => []
  | (k, v) :: m => (k, mapSecrets f (shouldRedactKey (sprintV castToString k)) v) :: mapSecretsEntries f m
end

def hideSecrets (config : Fields) : Fields := mapSecretsFields castToString through (fun _ => []) config

mutual
def hasSecret (secret : Bool) : Value → Bool
  | .str _ => secret
  | .list vs => elemsHaveSecret (through && secret) vs
  | .map m => fieldsHaveSecret m
  | .imap m => entriesHaveSecret m
  | _ => false

def elemsHaveSecret (secret : Bool) : List Value → Bool
  | [] => false
  | v :: vs => hasSecret secret v || elemsHaveSecret secret vs

def fieldsHaveSecret : Fields → Bool
  | [] => false
  | (k, v) :: m => hasSecret (shouldRedactKey k) v || fieldsHaveSecret m

def entriesHaveSecret : List (Value × Value) → Bool
  | [] => false
  | (k, v) :: m => hasSecret (shouldRedactKey (sprintV castToString k)) v || entriesHaveSecret m
end

mutual
def listsSecret (secret : Bool) : Value → Bool
  | .list vs => elemsHaveSecret castToString through (through && secret) vs
  | .map m => fieldsListSecret m
  | .imap m => entriesListSecret m
  | _ => false

def fieldsListSecret : Fields → Bool
  | [] => false
  | (k, v) :: m => listsSecret (shouldRedactKey k) v || fieldsListSecret m

def entriesListSecret : List (Value × Value) → Bool
  | [] => false
  | (k, v) :: m => listsSecret (shouldRedactKey (sprintV castToString k)) v || entriesListSecret m
end

/-! The functions on lists and maps, entry by entry. -/

variable (m : Fields)

theorem simpleRedact_eq : simpleRedact castToString m = m.map fun e => (e.1, redactValue castToString e.1 e.2) := by
  induction m with
  | nil => rw [simpleRedact]; rfl
  | cons e m ih => rw [simpleRedact, ih]; rfl

variable (f : Str → Str) (secret : Bool)

theorem mapSecretsElems_eq (vs : List Value) :
    mapSecretsElems castToString through f secret vs = vs.map (mapSecrets castToString through f secret) := by
  induction vs with
  | nil => rw [mapSecretsElems]; rfl
  | cons v vs ih => rw [mapSecretsElems, ih]; rfl

theorem mapSecretsFields_eq (m : Fields) : mapSecretsFields castToString through f m =
      m.map fun e => (e.1, mapSecrets castToString through f (shouldRedactKey e.1) e.2) := by
  induction m with
  | nil => rw [mapSecretsFields]; rfl
  | cons e m ih => rw [mapSecretsFields, ih]; rfl

theorem mapSecretsEntries_eq (m : List (Value × Value)) : mapSecretsEntries castToString through f m = m.map fun e =>
      (e.1, mapSecrets castToString through f (shouldRedactKey (sprintV castToString e.1)) e.2) := by
  induction m with
  | nil => rw [mapSecretsEntries]; rfl
  | cons e m ih => rw [mapSecretsEntries, ih]; rfl

theorem elemsHaveSecret_eq_false (vs : List Value) : elemsHaveSecret castToString through secret vs = false ↔
      ∀ v ∈ vs, hasSecret castToString through secret v = false := by
  induction vs with
  | nil => simp [elemsHaveSecret]
  | cons v vs ih => simp [elemsHaveSecret, ih]

theorem fieldsHaveSecret_eq_false : fieldsHaveSecret castToString through m = false ↔
      ∀ e ∈ m, hasSecret castToString through (shouldRedactKey e.1) e.2 = false := by
  induction m with
  | nil => simp [fieldsHaveSecret]
  | cons e m ih => simp [fieldsHaveSecret, ih]

theorem entriesHaveSecret_eq_false (m : List (Value × Value)) :
    entriesHaveSecret castToString through m = false ↔ ∀ e ∈ m,
      hasSecret castToString through (shouldRedactKey (sprintV castToString e.1)) e.2 = false := by
  induction m with
  | nil => simp [entriesHaveSecret]
  | cons e m ih => simp [entriesHaveSecret, ih]

theorem fieldsListSecret_eq_false : fieldsListSecret castToString through m = false ↔
      ∀ e ∈ m, listsSecret castToString through (shouldRedactKey e.1) e.2 = false := by
  induction m with
  | nil => simp [fieldsListSecret]
  | cons e m ih => simp [fieldsListSecret, ih]

theorem entriesListSecret_eq_false (m : List (Value × Value)) :
    entriesListSecret castToString through m = false ↔ ∀ e ∈ m,
      listsSecret castToString through (shouldRedactKey (sprintV castToString e.1)) e.2 = false := by
  induction m with
  | nil => simp [entriesListSecret]
  | cons e m ih => simp [entriesListSecret, ih]

/-! ## What a change of the secrets changes -/

theorem mapSecrets_of_no_secret (v : Value)
    (h : hasSecret castToString through secret v = false) : mapSecrets castToString through f secret v = v := by
  induction v using Value.induct generalizing secret with
  | null | bool _ | int _ | float _ | bytes _ => simp [mapSecrets]
  | str s =>
    rw [hasSecret] at h
    simp [mapSecrets, h]
  | list vs ih =>
    rw [hasSecret, elemsHaveSecret_eq_false] at h
    rw [mapSecrets, mapSecretsElems_eq]
    exact congrArg _ ((map_congr_left fun v hv => ih v hv _ (h v hv)).trans (map_id' vs))
  | map m ih | imap m ih =>
    simp only [hasSecret, fieldsHaveSecret_eq_false, entriesHaveSecret_eq_false] at h
    simp only [mapSecrets, mapSecretsFields_eq, mapSecretsEntries_eq]
    exact congrArg _ ((map_congr_left fun e he => congrArg (Prod.mk e.1) (ih e he _ (h e he))).trans (map_id' m))

theorem no_secret_of_mapSecrets {f : Str → Str} (hf : ∀ s, f s ≠ s) (secret : Bool) (v : Value)
    (h : mapSecrets castToString through f secret v = v) : hasSecret castToString through secret v = false := by
  have map_eq_self {α : Type} (g : α → α) (l : List α) (h : l.map g = l) : ∀ a ∈ l, g a = a :=
    map_inj_left.mp (h.trans (map_id' l).symm)
  induction v using Value.induct generalizing secret with
  | null | bool _ | int _ | float _ | bytes _ => simp [hasSecret]
  | str s => cases secret <;> simp_all [mapSecrets, hasSecret]
  | list vs ih =>
    rw [mapSecrets, Value.list.injEq, mapSecretsElems_eq] at h
    rw [hasSecret, elemsHaveSecret_eq_false]
    exact fun v hv => ih v hv _ (map_eq_self _ _ h v hv)
  | map m ih | imap m ih =>
    simp only [mapSecrets, Value.map.injEq, Value.imap.injEq, mapSecretsFields_eq, mapSecretsEntries_eq] at h
    simp only [hasSecret, fieldsHaveSecret_eq_false, entriesHaveSecret_eq_false]
    exact fun e he => ih e he _ (congrArg Prod.snd (map_eq_self _ _ h e he))

theorem mapSecrets_mapSecrets (g : Str → Str) (secret : Bool) (v : Value) :
    mapSecrets castToString through g secret (mapSecrets castToString through f secret v) =
      mapSecrets castToString through (g ∘ f) secret v := by
  induction v using Value.induct generalizing secret with
  | null | bool _ | int _ | float _ | bytes _ => simp [mapSecrets]
  | str s => cases secret <;> simp [mapSecrets]
  | list vs ih =>
    simp only [mapSecrets, mapSecretsElems_eq, map_map]
    exact congrArg _ (map_congr_left fun v hv => ih v hv _)
  | map m ih | imap m ih =>
    simp only [mapSecrets, mapSecretsFields_eq, mapSecretsEntries_eq, map_map]
    exact congrArg _ (map_congr_left fun e he => congrArg (Prod.mk e.1) (ih e he _))

theorem hasSecret_mapSecrets (v : Value) :
    hasSecret castToString through secret (mapSecrets castToString through f secret v) = false ↔
      hasSecret castToString through secret v = false := by
  induction v using Value.induct generalizing secret with
  | null | bool _ | int _ | float _ | bytes _ => simp [mapSecrets]
  | str s => cases secret <;> simp [mapSecrets, hasSecret]
  | list m ih | map m ih | imap m ih =>
    simp only [mapSecrets, hasSecret, mapSecretsElems_eq, mapSecretsFields_eq, mapSecretsEntries_eq,
      elemsHaveSecret_eq_false, fieldsHaveSecret_eq_false, entriesHaveSecret_eq_false, forall_mem_map]
    exact forall₂_congr fun e he => ih e he _

theorem listsSecret_mapSecrets (v : Value) :
    listsSecret castToString through secret (mapSecrets castToString through f secret v) = false ↔
      listsSecret castToString through secret v = false := by
  induction v using Value.induct generalizing secret with
  | null | bool _ | int _ | float _ | bytes _ => simp [mapSecrets]
  | str s => cases secret <;> simp [mapSecrets, listsSecret]
  | list vs =>
    have h := hasSecret_mapSecrets castToString through f secret (.list vs)
    rwa [mapSecrets, hasSecret, hasSecret] at h
  | map m ih | imap m ih =>
    simp only [mapSecrets, listsSecret, mapSecretsFields_eq, mapSecretsEntries_eq, fieldsListSecret_eq_false,
      entriesListSecret_eq_false, forall_mem_map]
    exact forall₂_congr fun e he => ih e he _

theorem redactValue_mapSecrets (k : Str) (v : Value)
    (h : listsSecret castToString through (shouldRedactKey k) v = false) :
    redactValue castToString k (mapSecrets castToString through f (shouldRedactKey k) v) =
      redactValue castToString k v := by
  induction v using Value.induct generalizing k with
  | null | bool _ | int _ | float _ | bytes _ => simp [mapSecrets]
  | str s => cases hk : shouldRedactKey k <;> simp [mapSecrets, redactValue, hk]
  | list vs =>
    rw [listsSecret] at h
    rw [mapSecrets_of_no_secret]
    rwa [hasSecret]
  | map m ih =>
    rw [listsSecret, fieldsListSecret_eq_false] at h
    simp only [mapSecrets, redactValue, simpleRedact_eq, mapSecretsFields_eq, map_map]
    exact congrArg _ (map_congr_left fun e he => congrArg (Prod.mk e.1) (ih e he _ (h e he)))
  | imap m ih =>
    rw [listsSecret, entriesListSecret_eq_false] at h
    simp only [mapSecrets, redactValue, redactEntries_eq_map, mapSecretsEntries_eq, map_map]
    refine congrArg (fun m => Value.map (castToStringMap castToString m)) ?_
    exact map_congr_left fun e he => congrArg (Prod.mk e.1) (ih e he _ (h e he))

mutual
/-- No two keys of a `map[any]any` that the redaction comes to have one string. -/
def DistinctKeys : Value → Prop
  | .map m => DistinctKeysFields m
  | .imap m => (m.map fun e => sprintV castToString e.1).Nodup ∧ DistinctKeysEntries m
  | _ => True

def DistinctKeysFields : Fields → Prop
  | [] => True
  | (_, v) :: m => DistinctKeys v ∧ DistinctKeysFields m

def DistinctKeysEntries : List (Value × Value) → Prop
  | [] => True
  | (_, v) :: m => DistinctKeys v ∧ DistinctKeysEntries m
end

theorem distinctKeysFields_iff : DistinctKeysFields castToString m ↔ ∀ e ∈ m, DistinctKeys castToString e.2 := by
  induction m with
  | nil => simp [DistinctKeysFields]
  | cons e m ih => simp [DistinctKeysFields, ih]

theorem distinctKeysEntries_iff (m : List (Value × Value)) :
    DistinctKeysEntries castToString m ↔ ∀ e ∈ m, DistinctKeys castToString e.2 := by
  induction m with
  | nil => simp [DistinctKeysEntries]
  | cons e m ih => simp [DistinctKeysEntries, ih]

theorem no_listed_secret_of_redactValue {f : Str → Str} (hf : ∀ s, f s ≠ s) (k : Str) (v : Value)
    (hk : DistinctKeys castToString v)
    (h : redactValue castToString k (mapSecrets castToString through f (shouldRedactKey k) v) =
      redactValue castToString k v) : listsSecret castToString through (shouldRedactKey k) v = false := by
  induction v using Value.induct generalizing k with
  | null | bool _ | int _ | float _ | str _ | bytes _ => simp [listsSecret]
  | list vs =>
    have hl : mapSecrets castToString through f (shouldRedactKey k) (.list vs) = .list vs := by
      rw [mapSecrets] at h ⊢
      simpa only [redactValue] using h
    have := no_secret_of_mapSecrets castToString through hf _ _ hl
    rwa [hasSecret] at this
  | map m ih =>
    rw [DistinctKeys, distinctKeysFields_iff] at hk
    simp only [mapSecrets, redactValue, simpleRedact_eq, mapSecretsFields_eq, map_map, Value.map.injEq] at h
    rw [listsSecret, fieldsListSecret_eq_false]
    exact fun e he => ih e he _ (hk e he) (congrArg Prod.snd (map_inj_left.mp h e he))
  | imap m ih =>
    rw [DistinctKeys, distinctKeysEntries_iff] at hk
    have hc (g : Value × Value → Value) : castToStringMap castToString (m.map fun e => (e.1, g e)) =
        m.map fun e => (sprintV castToString e.1, g e) := by
      rw [castToStringMap, foldl_map]
      exact foldl_put_fresh _ _ m [] hk.1 (fun _ _ => by simp [Lib.keys])
    simp only [mapSecrets, redactValue, redactEntries_eq_map, mapSecretsEntries_eq, map_map, Value.map.injEq,
      Function.comp_def, hc] at h
    rw [listsSecret, entriesListSecret_eq_false]
    exact fun e he => ih e he _ (hk.2 e he) (congrArg Prod.snd (map_inj_left.mp h e he))

/-! ## Two configurations that differ in their secrets only -/

theorem simpleRedact_congr {config config' : Fields} (hl : fieldsListSecret castToString through config = false)
    (h : hideSecrets castToString through config' = hideSecrets castToString through config) :
    simpleRedact castToString config' = simpleRedact castToString config := by
  have hi (m : Fields) (hm : fieldsListSecret castToString through m = false) :
      simpleRedact castToString (hideSecrets castToString through m) = simpleRedact castToString m := by
    have := redactValue_mapSecrets castToString through (fun _ => []) [] (.map m) (by rwa [listsSecret])
    rwa [mapSecrets, redactValue, redactValue, Value.map.injEq] at this
  have hl' : fieldsListSecret castToString through config' = false := by
    have kept (m : Fields) : fieldsListSecret castToString through (hideSecrets castToString through m) = false ↔
        fieldsListSecret castToString through m = false := by
      have := listsSecret_mapSecrets castToString through (fun _ => []) false (.map m)
      rwa [mapSecrets, listsSecret, listsSecret] at this
    rwa [← kept, h, kept]
  calc simpleRedact castToString config'
      = simpleRedact castToString (hideSecrets castToString through config') := (hi config' hl').symm
    _ = simpleRedact castToString (hideSecrets castToString through config) := by rw [h]
    _ = simpleRedact castToString config := hi config hl

theorem simpleRedact_hides_iff (config : Fields) : (fieldsListSecret castToString through config = false →
      ∀ config', hideSecrets castToString through config' = hideSecrets castToString through config →
        simpleRedact castToString config' = simpleRedact castToString config) ∧
    (DistinctKeysFields castToString config →
      (∀ config', hideSecrets castToString through config' = hideSecrets castToString through config →
        simpleRedact castToString config' = simpleRedact castToString config) →
      fieldsListSecret castToString through config = false) := by
  refine ⟨fun hl config' h => simpleRedact_congr castToString through hl h, fun hk h => ?_⟩
  -- every secret gets one more character
  have hh : hideSecrets castToString through (mapSecretsFields castToString through (cons 'x') config) =
      hideSecrets castToString through config := by
    have := mapSecrets_mapSecrets castToString through (cons 'x') (fun _ => []) false (.map config)
    rwa [mapSecrets, mapSecrets, mapSecrets, Value.map.injEq] at this
  have hs : redactValue castToString [] (mapSecrets castToString through (cons 'x') (shouldRedactKey [])
      (.map config)) = redactValue castToString [] (.map config) := by
    rw [mapSecrets, redactValue, redactValue, h _ hh]
  have := no_listed_secret_of_redactValue castToString through (cons_ne_self 'x') [] (.map config)
    (by rwa [DistinctKeys]) hs
  rwa [listsSecret] at this

end

section Example

def field (k : String) (v : Value) : Str × Value := (k.toList, v)

def hecExporter (token : String) : Fields :=
  [field "exporters" (.map [field "splunk_hec" (.map [field "token" (.str token.toList)])])]

theorem simpleRedact_hides_exporters :
    simpleRedact (fun _ => []) (hecExporter "b") = simpleRedact (fun _ => []) (hecExporter "a") := by
  have ht : shouldRedactKey "token" = true :=
    shouldRedactKey_of_mem (mem_map_of_mem (by simp))
  refine (simpleRedact_hides_iff (fun _ => []) false (hecExporter "a")).1 rfl (hecExporter "b") ?_
  simp only [hecExporter, field, hideSecrets, mapSecretsFields, mapSecrets, ht, if_true]

def scrapeConfigs (password : String) : Fields :=
  [field "receivers" (.map [field "prometheus" (.map [field "config" (.map [field "scrape_configs"
    (.list [.map [field "basic_auth" (.map [field "password" (.str password.toList)])]])])])])]

theorem simpleRedact_shows_password :
    hideSecrets (fun _ => []) false (scrapeConfigs "b") = hideSecrets (fun _ => []) false (scrapeConfigs "a") ∧
      simpleRedact (fun _ => []) (scrapeConfigs "b") ≠ simpleRedact (fun _ => []) (scrapeConfigs "a") := by
  have hp : shouldRedactKey "password" = true :=
    shouldRedactKey_of_mem (mem_map_of_mem (by simp))
  constructor
  · simp only [scrapeConfigs, field, hideSecrets, mapSecretsFields, mapSecrets, mapSecretsElems, hp, if_true]
  · have hne : "b".toList ≠ "a".toList := by decide
    simp only [scrapeConfigs, field, simpleRedact, redactValue, cons.injEq, Prod.mk.injEq, Value.map.injEq,
      Value.list.injEq, Value.str.injEq, hne, and_false, false_and, not_false_eq_true, ne_eq]

end Example

/-! ## What the server answers -/

inductive ConfigType where
  | initialConfig
  | effectiveConfig

structure ConfigServer where
  initial : Fields
  effective : Fields

inductive Response where
  | methodNotAllowed
  | body (text : Str)

def muxHandleFunc (castToString : Value → Str) (yamlMarshal : Fields → Str) (configType : ConfigType)
    (cs : ConfigServer) (method : Str) : Response :=
  if method ≠ "GET" then .methodNotAllowed
  else match configType with
    | .initialConfig => .body (yamlMarshal cs.initial)
    | .effectiveConfig => .body (yamlMarshal (simpleRedact castToString cs.effective))

theorem muxHandleFunc_effective (castToString : Value → Str) (yamlMarshal : Fields → Str) (through : Bool)
    (cs cs' : ConfigServer) (method : Str)
    (hl : fieldsListSecret castToString through cs.effective = false)
    (h : hideSecrets castToString through cs'.effective = hideSecrets castToString through cs.effective) :
    muxHandleFunc castToString yamlMarshal .effectiveConfig cs' method =
      muxHandleFunc castToString yamlMarshal .effectiveConfig cs method := by
  rw [muxHandleFunc, muxHandleFunc, simpleRedact_congr castToString through hl h]

end Collector.ConfigConverter
