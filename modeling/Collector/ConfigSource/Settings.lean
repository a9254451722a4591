import Collector.ConfigSource.Resolve

/-!
# The settings of the config sources

`internal/configsource/settings.go`, and how config sources are built.
-/

namespace Collector.ConfigSource

open Lib Strings Confmap

def configSourcesKey : Str := "config_sources"

/-- The settings of a config source. `body` is what is decoded into its own struct. -/
structure Settings where
  id : ComponentID
  body : Fields

/-- A factory. `unmarshal` decodes over the factory's default settings, under the given name. -/
structure Factory where
  unmarshal : Str → Fields → Except Err Settings
  createConfigSource : Settings → Except Err (Option Source)

abbrev Factories := Str → Option (Option Factory)

def sub (conf : Fields) (key : Str) : Except Err Fields :=
  match find key conf with
  | none => .ok []
  | some .null => .ok []
  | some (.map m) => .ok (newFromStringMap m)
  | some v => .error (.subKind key v)

section
variable (sprint : Value → Str) (factories : Factories) (castToStringMap : Value → Fields)

def loadSettings : Fields → List (Str × Settings) → Except Err (List (Str × Settings))
  | [], settings => .ok settings
  | (key, value) :: settingsMap, settings =>
    let settingsValue := newFromStringMap (castToStringMap value)
    match ComponentID.unmarshalText key with
    | .error e => .error (.invalidKey key e)
    | .ok componentID =>
      match factories componentID.type with
      | none | some none => .error (.unknownType componentID)
      | some (some factory) =>
        match factory.unmarshal componentID.name settingsValue with
        | .error e => .error (.unmarshalSettings componentID e)
        | .ok cfgSrcSettings =>
          let fullName := componentID.string
          if fullName ∈ keys settings then .error (.duplicateName fullName)
          else loadSettings settingsMap (put fullName cfgSrcSettings settings)

def buildConfigSources : List (Str × Settings) → List (Str × Source) → Except Err (List (Str × Source))
  | [], cfgSources => .ok cfgSources
  | (fullName, cfgSrcSettings) :: settings, cfgSources =>
    match factories cfgSrcSettings.id.type with
    -- A nil factory panics in the code. `loadSettings` has refused it before.
    | none | some none => .error (.unknownSourceType fullName)
    | some (some factory) =>
      match factory.createConfigSource cfgSrcSettings with
      | .error e => .error (.createSource fullName e)
      | .ok none => .error (.nilSource fullName)
      | .ok (some cfgSrc) => buildConfigSources settings (put fullName cfgSrc cfgSources)

def isSettingsKey (key : Str) : Bool := configSourcesKey.isPrefixOf key

/-- The loop of `sourceSettings`. The close functions of the values are dropped. -/
def resolveSettings (resolveString : ResolveString) (conf : Fields) :
    List Str → Fields → History → Except Err Fields × History
  | [], splitMap, h => (.ok splitMap, h)
  | key :: ks, splitMap, h =>
    if isSettingsKey key then
      match resolveConfigValue resolveString (get conf key) h with
      | (r, h) =>
        match r.err with
        | some e => (.error e, h)
        | none => resolveSettings resolveString conf ks (put key r.value splitMap) h
    else resolveSettings resolveString conf ks splitMap h

def sourceSettings (resolveString : ResolveString) (conf : Fields) (h : History) :
    Except Err (List (Str × Settings)) × History :=
  match resolveSettings resolveString conf (allKeys conf) [] h with
  | (.error e, h) => (.error e, h)
  | (.ok splitMap, h) =>
    match sub (newFromStringMap (intfaceKeysToStrings sprint splitMap)) configSourcesKey with
    | .error e => (.error (.wrapped "invalid settings sub map content" e), h)
    | .ok settingsMap => (loadSettings factories castToStringMap (toStringMap settingsMap) [], h)

def withoutSettings (conf : Fields) : Fields :=
  newFromStringMap ((flatten conf).filter fun e => !isSettingsKey e.1)

/-- The settings, and the configuration without them. Only the providers are asked here. -/
def settingsFromConf (resolveString : ResolveString) (conf : Fields) (h : History) :
    Except Err (List (Str × Settings) × Fields) × History :=
  match sourceSettings sprint factories castToStringMap resolveString conf h with
  | (.error e, h) => (.error (.wrapped "failed resolving config sources settings" e), h)
  | (.ok settings, h) => (.ok (settings, withoutSettings conf), h)

def buildConfigSourcesFromConf (resolveString : ResolveString) (conf : Fields) (h : History) :
    Except Err (List (Str × Source) × Fields) × History :=
  match settingsFromConf sprint factories castToStringMap resolveString conf h with
  | (.error e, h) => (.error (.wrapped "failed to parse settings from conf" e), h)
  | (.ok (configSourceSettings, confWithoutSettings), h) =>
    match buildConfigSources factories configSourceSettings [] with
    | .error e => (.error (.wrapped "failed to build config sources" e), h)
    | .ok configSources => (.ok (configSources, confWithoutSettings), h)

variable {sprint factories castToStringMap} {resolveString : ResolveString} {conf rest : Fields} {h h' : History}

theorem settingsFromConf_ok {settings : List (Str × Settings)}
    (hs : settingsFromConf sprint factories castToStringMap resolveString conf h = (.ok (settings, rest), h')) :
    rest = withoutSettings conf ∧ ∃ splitMap settingsMap,
      resolveSettings resolveString conf (allKeys conf) [] h = (.ok splitMap, h') ∧
      sub (newFromStringMap (intfaceKeysToStrings sprint splitMap)) configSourcesKey = .ok settingsMap ∧
      loadSettings factories castToStringMap (toStringMap settingsMap) [] = .ok settings := by
  unfold settingsFromConf at hs
  split at hs
  · cases hs
  · rename_i settings' h₁ hso
    cases hs
    refine ⟨rfl, ?_⟩
    unfold sourceSettings at hso
    split at hso
    · cases hso
    · rename_i splitMap h₂ hr
      split at hso
      · cases hso
      · rename_i settingsMap hsub
        obtain ⟨hl, rfl⟩ := Prod.mk.inj hso
        exact ⟨splitMap, settingsMap, hr, hsub, hl⟩

theorem buildConfigSourcesFromConf_ok {configSources : List (Str × Source)}
    (hs : buildConfigSourcesFromConf sprint factories castToStringMap resolveString conf h =
      (.ok (configSources, rest), h')) :
    ∃ settings,
      settingsFromConf sprint factories castToStringMap resolveString conf h = (.ok (settings, rest), h') := by
  unfold buildConfigSourcesFromConf at hs
  split at hs
  · cases hs
  · rename_i hse
    split at hs
    · cases hs
    · cases hs
      exact ⟨_, hse⟩

end

end Collector.ConfigSource
