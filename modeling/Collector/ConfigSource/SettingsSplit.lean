import Collector.ConfigSource.Settings
import Collector.Confmap.Sections

/-!
# The settings are split off

`SettingsFromConf` takes the section `config_sources` out, whose keys it finds by their first characters.
-/

namespace Collector.ConfigSource

open Lib Strings Confmap List

variable {k : Str} {settingsMap : Fields} {resolveString : ResolveString}

def InSection (k : Str) : Prop := (splitKey k).head? = some configSourcesKey

instance (k : Str) : Decidable (InSection k) := inferInstanceAs (Decidable (_ = _))

def HasComponent (conf : Fields) (c : Str) : Prop := ∃ k ∈ allKeys conf, ∃ q, splitKey k = configSourcesKey :: c :: q

/-- The section is in the settings, and the rest of the configuration is untouched. -/
structure SplitOff (conf : Fields) (settings : List (Str × Settings)) (rest : Fields) : Prop where
  kept : ∀ k ∈ allKeys conf, ¬ InSection k → k ∈ allKeys rest ∧ Confmap.get rest k = Confmap.get conf k
  gone : ∀ k ∈ allKeys rest, ¬ InSection k
  entries : (keys settings).Nodup
  component : ∀ c, HasComponent conf c → ∃ id, ComponentID.unmarshalText c = .ok id ∧ id.string ∈ keys settings
  distinct : ∀ c c' id id', HasComponent conf c → HasComponent conf c' → ComponentID.unmarshalText c = .ok id →
    ComponentID.unmarshalText c' = .ok id' → id.string = id'.string → c = c'

/-! ## The rest -/

theorem isSettingsKey_of_inSection (h : InSection k) : isSettingsKey k := by
  obtain ⟨p, hp⟩ : ∃ p, splitKey k = configSourcesKey :: p := by
    unfold InSection at h
    cases hs : splitKey k with
    | nil => simp [hs] at h
    | cons a p => exact ⟨p, by rw [hs] at h; simpa using h⟩
  unfold isSettingsKey
  rw [List.isPrefixOf_iff_prefix, ← joinKey_splitKey k, hp]
  cases p with
  | nil => exact prefix_refl _
  | cons a p => exact prefix_append _ _

section
variable {conf : Fields} (hfree : PrefixFree (flatten conf))
include hfree

theorem find_flatten_withoutSettings (k : Str) :
    find k (flatten (withoutSettings conf)) = if isSettingsKey k then none else find k (flatten conf) := by
  have hl : ∀ e ∈ (flatten conf).filter fun e => !isSettingsKey e.1, isNode e.2 = false :=
    fun e he => flatten_not_isNode e (mem_filter.mp he).1
  have hfree' : PrefixFree ((flatten conf).filter fun e => !isSettingsKey e.1) :=
    fun e he e' he' => hfree e (mem_filter.mp he).1 e' (mem_filter.mp he').1
  unfold withoutSettings newFromStringMap
  rw [find_flatten (clean_unflatten hl), leafAt_unflatten hl (nodup_keys_filter _ (nodup_keys_flatten conf)) hfree',
    find_filter (fun k => !isSettingsKey k)]
  cases isSettingsKey k <;> rfl

theorem mem_allKeys_withoutSettings (k : Str) :
    k ∈ allKeys (withoutSettings conf) ↔ k ∈ allKeys conf ∧ isSettingsKey k = false := by
  unfold allKeys
  rw [← not_iff_not, ← find_none, find_flatten_withoutSettings hfree]
  cases isSettingsKey k
  · simp [find_none]
  · simp

theorem get_withoutSettings (hk : isSettingsKey k = false) :
    Confmap.get (withoutSettings conf) k = Confmap.get conf k := by
  unfold Confmap.get
  rw [find_flatten_withoutSettings hfree, hk]
  rfl

end

/-! ## The entries -/

section
variable {factories : Factories} {castToStringMap : Value → Fields}

structure Loads (settingsMap : Fields) (acc settings : List (Str × Settings)) : Prop where
  nodup : (keys acc).Nodup → (keys settings).Nodup
  keeps : ∀ n ∈ keys acc, n ∈ keys settings
  loads : ∀ c ∈ keys settingsMap, ∃ id, ComponentID.unmarshalText c = .ok id ∧ id.string ∈ keys settings ∧
    id.string ∉ keys acc
  distinct : ∀ c ∈ keys settingsMap, ∀ c' ∈ keys settingsMap, ∀ id id', ComponentID.unmarshalText c = .ok id →
    ComponentID.unmarshalText c' = .ok id' → id.string = id'.string → c = c'

variable {acc settings : List (Str × Settings)}

theorem loadSettings_cons {key : Str} {value : Value}
    (h : loadSettings factories castToStringMap ((key, value) :: settingsMap) acc = .ok settings) :
    ∃ componentID cfgSrcSettings, ComponentID.unmarshalText key = .ok componentID ∧ componentID.string ∉ keys acc ∧
      loadSettings factories castToStringMap settingsMap (put componentID.string cfgSrcSettings acc) =
        .ok settings := by
  unfold loadSettings at h
  dsimp only at h
  split at h
  · cases h
  · rename_i componentID hid
    split at h
    · cases h
    · cases h
    · split at h
      · cases h
      · rename_i cfgSrcSettings _
        split at h
        · cases h
        · rename_i hf
          exact ⟨componentID, cfgSrcSettings, hid, hf, h⟩

theorem loads_loadSettings
    (h : loadSettings factories castToStringMap settingsMap acc = .ok settings) : Loads settingsMap acc settings := by
  induction settingsMap generalizing acc with
  | nil =>
    cases h
    exact ⟨id, fun n hn => hn, by simp [Lib.keys], by simp [Lib.keys]⟩
  | cons e settingsMap ih =>
    obtain ⟨componentID, cfgSrcSettings, hid, hf, h⟩ := loadSettings_cons h
    have hr := ih h
    have hmem : componentID.string ∈ keys (put componentID.string cfgSrcSettings acc) :=
      (mem_keys_put _ _ _ _).mpr (.inl rfl)
    -- The name is taken by the time a later entry is loaded.
    have hl {c : Str} (hc : c ∈ keys settingsMap) {id : ComponentID} (hkey : ComponentID.unmarshalText c = .ok id) :
        id.string ≠ componentID.string := by
      obtain ⟨id', hid', -, hnew⟩ := hr.loads c hc
      cases hid'.symm.trans hkey
      exact fun heq => hnew (heq ▸ hmem)
    refine ⟨fun hn => hr.nodup (nodup_keys_put _ _ hn), fun n hn => ?_, fun c hc => ?_, ?_⟩
    · exact hr.keeps n ((mem_keys_put _ _ _ _).mpr (.inr hn))
    · rcases mem_cons.mp hc with rfl | hc
      · exact ⟨componentID, hid, hr.keeps _ hmem, hf⟩
      · obtain ⟨id, hid, hin, hnew⟩ := hr.loads c hc
        exact ⟨id, hid, hin, fun hacc => hnew ((mem_keys_put _ _ _ _).mpr (.inr hacc))⟩
    · intro c hc c' hc' id id' hkey hkey' heq
      rcases mem_cons.mp hc with rfl | hc
      · rcases mem_cons.mp hc' with rfl | hc'
        · rfl
        · cases hid.symm.trans hkey
          exact absurd heq.symm (hl hc' hkey')
      · rcases mem_cons.mp hc' with rfl | hc'
        · cases hid.symm.trans hkey'
          exact absurd heq (hl hc hkey)
        · exact hr.distinct c hc c' hc' id id' hkey hkey' heq

theorem keys_resolveSettings {conf splitMap splitMap' : Fields} {ks : List Str}
    {h h' : History} (hn : (keys splitMap ++ ks).Nodup)
    (hr : resolveSettings resolveString conf ks splitMap h = (.ok splitMap', h')) :
    keys splitMap' = keys splitMap ++ ks.filter isSettingsKey := by
  induction ks generalizing splitMap h with
  | nil =>
    cases hr
    simp
  | cons key ks ih =>
    unfold resolveSettings at hr
    obtain ⟨hk, hne⟩ : key ∉ keys splitMap ∧ (keys splitMap ++ ks).Nodup := by
      rw [nodup_middle, nodup_cons] at hn
      exact ⟨fun hmem => hn.1 (mem_append_left _ hmem), hn.2⟩
    split_ifs at hr with hkey
    · dsimp only at hr
      split at hr
      · cases hr
      · rw [filter_cons_of_pos hkey]
        have hput : keys (put key (resolveConfigValue resolveString (Confmap.get conf key) h).1.value splitMap) =
            keys splitMap ++ [key] := by
          rw [put_of_notMem _ _ _ hk, Lib.keys_append]
          rfl
        have ih := ih (by rwa [hput, append_assoc]) hr
        rw [ih, hput, append_assoc]
        rfl
    · rw [filter_cons_of_neg hkey]
      exact ih hne hr

theorem component_key {c : Str} {q : List Str} (hq : splitKey k = configSourcesKey :: c :: q)
    (hc : k.getLast? ≠ some ':') : NoDouble ':' c ∧ c.getLast? ≠ some ':' := by
  have hg : GoodParts ':' (configSourcesKey :: c :: q) := hq ▸ splitDouble_good ':' k
  cases q with
  | nil =>
    refine ⟨hg.2.2, fun hl => hc ?_⟩
    rw [← joinKey_splitKey k, hq]
    show (configSourcesKey ++ ':' :: ':' :: c).getLast? = some ':'
    rw [getLast?_append]
    simp [getLast?_cons, hl]
  | cons a q => exact ⟨hg.2.2.1, hg.2.2.2.1⟩

theorem mem_keys_settingsMap {conf splitMap : Fields} (hfree : PrefixFree (flatten conf))
    (hco : ∀ k ∈ allKeys conf, InSection k → k.getLast? ≠ some ':')
    (hke : keys splitMap = (allKeys conf).filter isSettingsKey)
    (hsub : sub (newFromStringMap splitMap) configSourcesKey = .ok settingsMap) {c : Str} (hc : HasComponent conf c) :
    c ∈ keys (toStringMap settingsMap) := by
  obtain ⟨k, hk, q, hq⟩ := hc
  have hin : InSection k := by
    unfold InSection
    rw [hq]
    rfl
  have hfree' : PrefixFree splitMap := by
    apply hfree.of_keys
    rw [hke]
    exact fun k hk => (mem_filter.mp hk).1
  have hn : (keys splitMap).Nodup := by
    rw [hke]
    exact (nodup_keys_flatten conf).filter _
  -- The key puts the component into the section, which is a map.
  have hmem : k ∈ keys splitMap := by
    rw [hke]
    exact mem_filter.mpr ⟨hk, isSettingsKey_of_inSection hin⟩
  obtain ⟨e, he, rfl⟩ := mem_map.mp hmem
  obtain ⟨m, hf, hc⟩ := (sections_unflatten hn hfree').within configSourcesKey c q (mem_map.mpr ⟨e, he, hq⟩)
  have hmap : settingsMap = newFromStringMap m := by
    unfold sub newFromStringMap at hsub
    rw [hf] at hsub
    cases hsub
    rfl
  obtain ⟨hd, hl⟩ := component_key hq (hco e.1 hk hin)
  rw [hmap]
  apply mem_keys_toStringMap _ hd hl
  obtain ⟨e', he', rfl⟩ := mem_map.mp hc
  exact mem_keys_unflatten ⟨e', he', [], splitDouble_of_noDouble hd⟩

/-- The section is split off just if no other key starts with its name. -/
theorem splitOff_iff {sprint : Value → Str} {resolveString : ResolveString} {conf rest : Fields}
    {settings : List (Str × Settings)} {h h' : History} (hfree : PrefixFree (flatten conf))
    (hcolon : ∀ k ∈ allKeys conf, InSection k → k.getLast? ≠ some ':')
    (hs : settingsFromConf sprint factories castToStringMap resolveString conf h = (.ok (settings, rest), h')) :
    SplitOff conf settings rest ↔ ∀ k ∈ allKeys conf, isSettingsKey k → InSection k := by
  obtain ⟨rfl, splitMap, settingsMap, hre, hsub, hlo⟩ := settingsFromConf_ok hs
  have hke : keys (intfaceKeysToStrings sprint splitMap) = (allKeys conf).filter isSettingsKey := by
    rw [intfaceKeysToStrings_eq, keys_map_snd]
    exact keys_resolveSettings (nodup_keys_flatten conf) hre
  have hl := loads_loadSettings hlo
  have hmem {c : Str} (hc : HasComponent conf c) : c ∈ keys (toStringMap settingsMap) :=
    mem_keys_settingsMap hfree hcolon hke hsub hc
  constructor
  · intro hsp k hk hset
    by_contra hout
    have hr := (hsp.kept k hk hout).1
    rw [mem_allKeys_withoutSettings hfree, hset] at hr
    cases hr.2
  · intro hco
    refine ⟨fun k hk hout => ?_, fun k hk hin => ?_, hl.nodup nodup_nil, fun c hc => ?_, ?_⟩
    · have hset : isSettingsKey k = false := by
        by_contra hset
        exact hout (hco k hk (by simpa using hset))
      exact ⟨(mem_allKeys_withoutSettings hfree k).mpr ⟨hk, hset⟩, get_withoutSettings hfree hset⟩
    · rw [mem_allKeys_withoutSettings hfree, isSettingsKey_of_inSection hin] at hk
      cases hk.2
    · obtain ⟨id, hid, hin, -⟩ := hl.loads c (hmem hc)
      exact ⟨id, hid, hin⟩
    · intro c c' id id' hc hc' hid hid' heq
      exact hl.distinct c (hmem hc) c' (hmem hc') id id' hid hid' heq

end

/-! ## A section and a stray key -/

def anyFactory : Factories := fun type => some (some ⟨fun name body => .ok ⟨⟨type, name⟩, body⟩, fun _ => .ok none⟩)

def topValues : Value → Fields
  | .map m => m
  | _ => []

def envSection : Fields := [("env", .map [])]

def envConf : Fields := [(configSourcesKey, .map envSection), ("a", .str "b")]

def strayConf : Fields := [("config_sources_old", .str "b")]

def sameString : ResolveString := fun s h => (⟨.str s, none, none⟩, h)

theorem splitOff_env : SplitOff envConf [("env", ⟨⟨"env", []⟩, []⟩)] [("a", .str "b")] :=
  (@splitOff_iff anyFactory topValues (fun _ => []) sameString envConf _ _ [] []
    (by unfold PrefixFree; decide) (by decide) rfl).mpr (by decide)

/-- The section `config_sources_old` is in neither part. -/
theorem not_splitOff_stray :
    settingsFromConf (fun _ => []) anyFactory topValues sameString strayConf [] = (.ok ([], []), []) ∧
      ¬ SplitOff strayConf [] [] := by
  refine ⟨by rfl, fun h => ?_⟩
  have hk := h.kept "config_sources_old" (by decide) (by decide)
  exact absurd hk.1 (by decide)

end Collector.ConfigSource
