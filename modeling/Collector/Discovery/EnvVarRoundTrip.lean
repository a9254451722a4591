import Collector.Discovery.EnvVar

/-!
# The trip through an environment variable
-/

namespace Collector.Discovery

open Lib Lib.Peg List

variable {component : ComponentID} {named : Bool} {s : Str} {p' : Property}

def Same (p p' : Property) : Prop :=
  p'.toParsed = p.toParsed ∧ p'.val = p.val ∧ p'.stringMap = p.stringMap

/-- No keyword of the grammar stands alone behind an escaped character of the component. There is no NUL in the name
or the key, and a key exactly for a config property. -/
structure Survives (p : Property) : Prop where
  safe : keywordSafe (p.component.type ++ '/' :: p.component.name) = true
  name : '\x00' ∉ p.component.name
  key : '\x00' ∉ p.key
  config : p.type = .config → p.key ≠ []
  enabled : p.type = .enabled → p.key = []

theorem keywordSafe_componentText (hn : named = false → component.name = []) :
    keywordSafe (componentText component named) = keywordSafe (component.type ++ '/' :: component.name) := by
  unfold componentText
  cases named with
  | true => rfl
  | false =>
    rw [hn rfl]
    unfold keywordSafe
    have hnil : isUpperKeyword [] = false := by decide
    rw [(splitRuns_append plain component.type [] rfl).1, all_append]
    simp [splitRuns, hnil]

theorem nul_not_mem_of_validType {type : Str} (h : validType type = true) : '\x00' ∉ type := fun hmem =>
  absurd (validType_char h hmem) (by decide)

theorem nul_mem_componentText (hv : validType component.type = true) (hn : named = false → component.name = []) :
    '\x00' ∈ componentText component named ↔ '\x00' ∈ component.name := by
  have ht := nul_not_mem_of_validType hv
  unfold componentText
  cases named with
  | true => simp [ht]
  | false => simp [ht, hn rfl]

theorem wordify_ne_nil (h : s ≠ []) : wordify s ≠ [] := by
  cases s with
  | nil => exact absurd rfl h
  | cons c s =>
    have hc : wordify (c :: s) = wordifyRune c ++ wordify s := rfl
    rw [hc, wordifyRune]
    split <;> simp

theorem envVarTokens_ne_nil (h : s ≠ []) : envVarTokens s ≠ [] := by
  intro hnil
  have he : untok (envVarTokens s) = s := exact_of_no_skip _ s
  rw [hnil] at he
  exact h he.symm

section
variable {unmarshal : Str → Except Str Fields} {p : Property} {val : Str}

theorem newPropertyFromEnvVar_eq_ok : newPropertyFromEnvVar unmarshal p.toEnvVar val = some (.ok p') ↔
      ∃ evp cid key, newEnvVarProperty p.toEnvVar = some evp ∧
        unwordify evp.component.type = .ok cid ∧ unwordify evp.key = .ok key ∧
        newProperty unmarshal (propertyText evp.componentType cid evp.type key) val = .ok p' := by
  have he : unwordify [] = .ok [] := rfl
  unfold newPropertyFromEnvVar
  rw [if_pos (toEnvVar_recognised p)]
  constructor
  · intro h
    split at h
    · cases h
    rename_i evp hevp
    have hn : evp.component.name = [] := by
      obtain ⟨ts, rest, key, -, -, hc, -⟩ := newEnvVarProperty_eq_some.mp hevp
      rw [hc]
    split at h
    · cases h
    rename_i cid hcid
    rw [hn, he] at h
    dsimp only at h
    rw [if_pos rfl] at h
    split at h
    · cases h
    rename_i key hkey
    refine ⟨evp, cid, key, hevp, hcid, hkey, ?_⟩
    cases hnew : newProperty unmarshal (propertyText evp.componentType cid evp.type key) val with
    | error e =>
      rw [hnew] at h
      cases h
    | ok q =>
      rw [hnew] at h
      cases h
      rfl
  · rintro ⟨evp, cid, key, hevp, hcid, hkey, hnew⟩
    have hn : evp.component.name = [] := by
      obtain ⟨ts, rest, k, -, -, hc, -⟩ := newEnvVarProperty_eq_some.mp hevp
      rw [hc]
    rw [hevp]
    dsimp only
    rw [hcid]
    dsimp only
    rw [hn, he]
    dsimp only
    rw [if_pos rfl, hkey]
    dsimp only
    rw [hnew]
    rfl

def Property.envVarKey (p : Property) : Str :=
  match p.type with
  | .config => wordify p.key
  | .enabled => []

theorem envVarKeyRule_rest (hkey : p.type = .config → p.key ≠ []) :
    ∃ key, envVarKeyRule p.envVarRest = some (key, []) ∧ untok key = p.envVarKey := by
  unfold Property.envVarRest Property.envVarKey
  cases ht : p.type with
  | config =>
    have hc : EnvCanon (.sep '_' :: envVarTokens (wordify p.key)) := ⟨rfl, canon_lex _⟩
    exact ⟨_, (envVarKeyRule_eq_some hc).mpr
      (Or.inr ⟨rfl, envVarTokens_ne_nil (wordify_ne_nil (hkey ht))⟩), exact_of_no_skip _ _⟩
  | enabled => exact ⟨[], rfl, rfl⟩

variable {property : Str} (hp : newProperty unmarshal property val = .ok p)
include hp

theorem back_of_survives (h : Survives p) :
    ∃ p', newPropertyFromEnvVar unmarshal p.toEnvVar val = some (.ok p') ∧ Same p p' := by
  obtain ⟨hpa, hv, -, sub, hsub, hmap⟩ := newProperty_eq_ok.mp hp
  obtain ⟨name, key, hnk⟩ := exists_nameAndKey hpa
  have hn := p.name_of_not_named
  have hsa : keywordSafe (componentText p.component p.named) = true := by
    rw [keywordSafe_componentText hn]
    exact h.safe
  have hs := component_of_safe _ p.type p.envVarRest hsa
  have hid : componentText p.component p.named ≠ [] := by
    have hne := (validType_word hv).ne_nil
    unfold componentText
    split <;> simp [hne]
  obtain ⟨ks, hks, hkey⟩ := envVarKeyRule_rest h.config
  have hevp : newEnvVarProperty p.toEnvVar = some ⟨p.componentType,
      ⟨wordify (componentText p.component p.named), []⟩, p.type, p.envVarKey⟩ := by
    refine newEnvVarProperty_eq_some.mpr ⟨_, p.envVarRest, ks, envVarTokens_toEnvVar p, ?_, ?_, ?_, hks, hkey.symm⟩
    · rw [hs]
      exact envVarTokens_ne_nil (wordify_ne_nil hid)
    · rw [hs]
      exact congrArg (fun s => ComponentID.mk s []) (exact_of_no_skip _ _).symm
    · rw [hs]
  have hcid : unwordify (wordify (componentText p.component p.named)) = .ok (componentText p.component p.named) :=
    unwordify_wordify fun hmem => h.name ((nul_mem_componentText hv hn).mp hmem)
  have hkey : unwordify p.envVarKey = .ok p.key := by
    unfold Property.envVarKey
    cases ht : p.type with
    | config => exact unwordify_wordify h.key
    | enabled =>
      rw [h.enabled ht]
      rfl
  have hkt : untok (keyTokens p.type p.key) = p.key := by
    cases ht : p.type with
    | config =>
      rw [keyTokens, ← hnk.key_eq]
      exact hnk.canon_key.exact
    | enabled =>
      rw [h.enabled ht]
      rfl
  have hb := parseProperty_propertyText hnk hv hn p.componentType p.type p.key
  rw [hkt] at hb
  refine ⟨{ p with input := propertyText p.componentType (componentText p.component p.named) p.type p.key },
    newPropertyFromEnvVar_eq_ok.mpr ⟨_, _, p.key, hevp, hcid, hkey, ?_⟩, rfl, rfl, rfl⟩
  exact newProperty_eq_ok.mpr ⟨hb, hv, rfl, sub, subStringMap_congr hsub _, hmap⟩

end

theorem not_broken {t u : Str} {d : Char} (h : s ++ ['_', 'x'] <+: u) (h' : s ++ d :: t <+: u)
    (hd : d = '\x00' ∨ ∃ c t', t = c :: t' ∧ c ≠ 'x') : False := by
  obtain ⟨v, hv⟩ := h
  obtain ⟨w, hw⟩ := h'
  rw [← hw, append_assoc, append_assoc, append_cancel_left_eq] at hv
  obtain ⟨hc, ht⟩ := cons.inj hv
  rcases hd with rfl | ⟨c, t', rfl, hne⟩
  · exact absurd hc (by decide)
  · exact hne (cons.inj ht).1.symm

theorem componentText_prefix (component : ComponentID) (named : Bool) :
    componentText component named <+: component.type ++ '/' :: component.name := by
  unfold componentText
  split
  · exact prefix_rfl
  · exact prefix_append _ _

section
variable {unmarshal : Str → Except Str Fields} {p : Property} {val : Str}

theorem back_parts (hb : newPropertyFromEnvVar unmarshal p.toEnvVar val = some (.ok p')) (hs : Same p p') :
    ∃ componentType type cid k rest ks,
      (spanBefore atUpperKeyword (envVarTokens (wordify (componentText p.component p.named)) ++
        .sep '_' :: .word (upperType p.type) :: p.envVarRest)).2 =
        .sep '_' :: .word (upperType type) :: rest ∧
      unwordify (untok (spanBefore atUpperKeyword (envVarTokens (wordify (componentText p.component p.named)) ++
          .sep '_' :: .word (upperType p.type) :: p.envVarRest)).1) = .ok cid ∧
      envVarKeyRule rest = some (ks, []) ∧ unwordify (untok ks) = .ok k ∧
      parseProperty (propertyText componentType cid type k) = some p.toParsed := by
  obtain ⟨evp, cid, k, hevp, hcid, hk, hnew⟩ := newPropertyFromEnvVar_eq_ok.mp hb
  obtain ⟨ts, rest, ks, ht, -, hc, hta, hks, hkey⟩ := newEnvVarProperty_eq_some.mp hevp
  rw [envVarTokens_toEnvVar] at ht
  obtain rfl := (append_inj ht rfl).2
  rw [hc] at hcid
  rw [hkey] at hk
  have hpa := (newProperty_eq_ok.mp hnew).1
  rw [hs.1] at hpa
  exact ⟨evp.componentType, evp.type, cid, k, rest, ks, hta, hcid, hks, hk, hpa⟩

theorem survives_of_back {property : Str} (hp : newProperty unmarshal property val = .ok p)
    (hba : newPropertyFromEnvVar unmarshal p.toEnvVar val = some (.ok p')) (hsam : Same p p') :
    Survives p := by
  obtain ⟨hpa, hva, -, -⟩ := newProperty_eq_ok.mp hp
  obtain ⟨name, key, hnk⟩ := exists_nameAndKey hpa
  have hn := p.name_of_not_named
  obtain ⟨he, hno, -⟩ := propertyTokens_component hnk hva hn
  obtain ⟨componentType, type, cid, k, rest, ks, hta, hcid, hks, hk, hf⟩ :=
    back_parts hba hsam
  -- The component comes back, so none of its escapes was broken.
  have hw : ¬(keywordSafe (componentText p.component p.named) = false ∨
      '\x00' ∈ componentText p.component p.named) := by
    intro hb
    obtain ⟨s, d, t, v, hid, hs, hv, hd, hca⟩ := captured_broken p.type p.envVarRest hb
    rw [hca] at hcid
    obtain ⟨z, rfl⟩ := unwordify_broken hs hv hcid
    rw [hid] at he hno
    have hpr := component_of_broken he z hno hf
    have hown := componentText_prefix p.component p.named
    rw [hid] at hown
    exact not_broken hpr hown hd
  rw [not_or, Bool.not_eq_false] at hw
  obtain ⟨hsa, hnul⟩ := hw
  have hna : '\x00' ∉ p.component.name := fun hmem =>
    hnul ((nul_mem_componentText hva hn).mpr hmem)
  rw [component_of_safe _ _ _ hsa] at hta hcid
  obtain ⟨ht, hr⟩ : type = p.type ∧ rest = p.envVarRest := by
    obtain ⟨hwo, hr⟩ := cons.inj (cons.inj hta).2
    exact ⟨(upperType_injective (Tok.word.inj hwo)).symm, hr.symm⟩
  have hc : cid = componentText p.component p.named := by
    have hre : untok (envVarTokens (wordify (componentText p.component p.named))) =
        wordify (componentText p.component p.named) := exact_of_no_skip _ _
    rw [hre, unwordify_wordify hnul] at hcid
    exact (Except.ok.inj hcid).symm
  subst ht hr hc
  have hkey : p.key = untok (keyTokens p.type k) := by
    rw [parseProperty_propertyText hnk hva hn] at hf
    exact congrArg Parsed.key (Option.some.inj hf).symm
  rw [keywordSafe_componentText hn] at hsa
  cases ht : p.type with
  | enabled =>
    have hnon : p.key = [] := by rw [hkey, ht]; rfl
    exact ⟨hsa, hna, by simp [hnon], by simp [ht], fun _ => hnon⟩
  | config =>
    rw [Property.envVarRest, ht] at hks
    have hcan : EnvCanon (.sep '_' :: envVarTokens (wordify p.key)) := ⟨rfl, canon_lex _⟩
    obtain ⟨rfl, hne⟩ : ks = envVarTokens (wordify p.key) ∧ ks ≠ [] := by
      rcases (envVarKeyRule_eq_some hcan).mp hks with ⟨h, -⟩ | ⟨h, hne⟩
      · cases h
      · exact ⟨(cons.inj h).2.symm, hne⟩
    refine ⟨hsa, hna, fun hmem => ?_, fun _ hem => ?_, by simp [ht]⟩
    · -- A NUL in the key breaks its escape, which then stays in the key.
      obtain ⟨s, t, hst, hs⟩ := eq_append_cons_of_mem hmem
      have hre : untok (envVarTokens (wordify p.key)) = wordify p.key := exact_of_no_skip _ _
      rw [hre, hst, wordify_nul] at hk
      obtain ⟨z, rfl⟩ := unwordify_broken hs (hexMatch_nul _) hk
      have hek : Exact isSeparator isWhitespace (s ++ '\x00' :: t) := by
        rw [← hst, ← hnk.key_eq]
        exact hnk.canon_key.exact
      have hpr := key_of_broken hek z
      rw [ht] at hkey
      have hkey' : untok (propertyTokens (s ++ '_' :: 'x' :: z)) = s ++ '\x00' :: t := by
        rw [← hst, hkey]
        rfl
      rw [hkey'] at hpr
      exact not_broken hpr prefix_rfl (Or.inl rfl)
    · rw [hem] at hne
      exact hne rfl

end

theorem newPropertyFromEnvVar_toEnvVar_iff (unmarshal : Str → Except Str Fields) (property val : Str)
    (p : Property) (hp : newProperty unmarshal property val = .ok p) :
    (∃ p', newPropertyFromEnvVar unmarshal p.toEnvVar val = some (.ok p') ∧ Same p p') ↔ Survives p := by
  constructor
  · rintro ⟨p', hb, hs⟩
    exact survives_of_back hp hb hs
  · exact back_of_survives hp

def unmarshalLine (line : Str) : Except Str Fields :=
  match Strings.cut ' ' line with
  | none => .error line
  | some (key, word) => .ok [(key.dropLast, .str word)]

def configProperty (component : ComponentID) (key val input : Str) : Property where
  componentType := .receivers
  component := component
  type := .config
  key := key
  val := val
  input := input
  stringMap := [(ComponentType.receivers.text, .map [(component.string, .map [("config",
    .map (Confmap.toStringMap (Confmap.newFromStringMap [(key, .str val)])))])])]

theorem newProperty_line (component : ComponentID) (key val input : Str)
    (hpa : parseProperty input = some ⟨.receivers, component, .config, key⟩)
    (hv : validType component.type = true)
    (hl : unmarshalLine (key ++ ": " ++ val) = .ok [(key, .str val)]) :
    newProperty unmarshalLine input val = .ok (configProperty component key val input) := by
  refine newProperty_eq_ok.mpr ⟨hpa, hv, rfl, _, ?_, rfl⟩
  unfold subStringMap configProperty
  dsimp only
  rw [hl]

def redisCA : Property := configProperty ⟨"redis", "my-db"⟩ "tls::ca" "file"
  "splunk.discovery.receivers.redis/my-db.config.tls::ca"

theorem newPropertyFromEnvVar_toEnvVar_redis :
    newProperty unmarshalLine "splunk.discovery.receivers.redis/my-db.config.tls::ca" "file" = .ok redisCA ∧
      ∃ p', newPropertyFromEnvVar unmarshalLine redisCA.toEnvVar "file" = some (.ok p') ∧ Same redisCA p' := by
  have hp := newProperty_line ⟨"redis", "my-db"⟩ "tls::ca" "file"
    "splunk.discovery.receivers.redis/my-db.config.tls::ca" (by decide +kernel) (by decide) (by rfl)
  exact ⟨hp, (newPropertyFromEnvVar_toEnvVar_iff unmarshalLine _ _ _ hp).mpr
    ⟨by decide +kernel, by decide, by decide, by decide, by decide⟩⟩

def fooKey : Property := configProperty ⟨"foo_CONFIG", []⟩ "key" "word"
  "splunk.discovery.receivers.foo_CONFIG.config.key"

/-- The type `foo_CONFIG` comes back as `foo_x5f`, and its last part in the key. -/
theorem newPropertyFromEnvVar_component_lost :
    newProperty unmarshalLine "splunk.discovery.receivers.foo_CONFIG.config.key" "word" = .ok fooKey ∧
      (newPropertyFromEnvVar unmarshalLine fooKey.toEnvVar "word").map (fun r =>
          r.toOption.map Property.toParsed) =
        some (some ⟨.receivers, ⟨"foo_x5f", []⟩, .config, "CONFIG_key"⟩) := by
  refine ⟨newProperty_line _ _ _ _ (by decide +kernel) (by decide) (by rfl), by decide +kernel⟩

end Collector.Discovery
