import Collector.Discovery.EnvVar

/-!
# Where a property is split

A dot, a slash and the keywords may all stand in a name and in the key. The name ends at the first dot with a whole
keyword behind it.
-/

namespace Collector.Discovery

open Lib List

variable {s type : Str} (componentType : ComponentType)

def namedProperty (componentType : ComponentType) (type name key : Str) : Str :=
  "splunk" ++ '.' :: ("discovery" ++ '.' :: (componentType.text ++ '.' :: (type ++ '/' :: (name ++
    '.' :: ("config" ++ '.' :: key)))))

def NoWhitespace (s : Str) : Prop := ∀ c ∈ s, isWhitespace c = false

def NoDotKeyword (s : Str) : Prop :=
  ∀ (a b : Str) (type : PropertyType), s = a ++ '.' :: (type.text ++ b) → b.head?.map isSeparator = some false

theorem noDotKeyword_of_tails (h : ∀ y ∈ s.tails, ∀ type ∈ [PropertyType.config, .enabled],
    ('.' :: type.text).isPrefixOf y = true → (y.drop (type.text.length + 1)).head?.map isSeparator = some false) :
    NoDotKeyword s := by
  rintro a b type rfl
  have hy := h ('.' :: (type.text ++ b)) ((mem_tails _ _).mpr (suffix_append a _)) type
    (PropertyType.all type)
  have hs : ('.' :: type.text).isPrefixOf ('.' :: (type.text ++ b)) = true :=
    isPrefixOf_iff_prefix.mpr ⟨b, rfl⟩
  simpa using hy hs

theorem untok_propertyTokens (h : NoWhitespace s) : untok (propertyTokens s) = s := exact_of_forall h

theorem head?_untok_of_canon {w : Str} {ts : List Tok} (h : Canon isSeparator isWhitespace (.word w :: ts)) {c : Char}
    (hc : (untok ts).head? = some c) : isSeparator c = true := by
  obtain ⟨-, hh, ht⟩ := h
  cases ts with
  | nil => cases hc
  | cons t ts =>
    cases t with
    | word v => exact absurd rfl (hh v)
    | sep d =>
      obtain rfl : d = c := Option.some.inj hc
      exact ht.1

theorem NoDotKeyword.noKeyword (hs : NoWhitespace s) (h : NoDotKeyword s) :
    NoKeyword (propertyTokens s) := by
  intro x y hxy
  rw [Bool.eq_false_iff, ne_eq, atKeyword_iff]
  rintro ⟨type, rest, rfl⟩
  have ht : s = untok x ++ '.' :: (type.text ++ untok rest) := by
    rw [← untok_propertyTokens hs, hxy]
    simp [Tok.text]
  obtain ⟨c, hc, hsep⟩ := Option.map_eq_some_iff.mp (h _ _ _ ht)
  have hca : Canon isSeparator isWhitespace (propertyTokens s) := canon_lex s
  rw [hxy] at hca
  rw [head?_untok_of_canon hca.split.2.2 hc] at hsep
  cases hsep

theorem namedProperty_eq (type name key : Str) :
    namedProperty componentType type name key = propertyText componentType (type ++ '/' :: name) .config key := by
  unfold namedProperty propertyText
  rw [append_assoc, append_assoc type]
  rfl

theorem propertyTokens_named (ht : validType type = true)
    (name key : Str) :
    propertyTokens (namedProperty componentType type name key) =
      propertyHeader componentType ++ (.word type :: .sep '/' :: propertyTokens name ++
        item .config (propertyTokens key)) := by
  rw [namedProperty_eq, propertyTokens_propertyText, propertyTokens_slash ht]
  rfl

theorem parseProperty_named {name key : Str} (ht : validType type = true)
    (hn : NoWhitespace name) (hkey : NoWhitespace key) (hno : NoDotKeyword name) :
    parseProperty (namedProperty componentType type name key) =
      some ⟨componentType, ⟨type, name⟩, .config, key⟩ := by
  have hc : NoKeyword (.word type :: .sep '/' :: propertyTokens name) :=
    ((hno.noKeyword hn).cons rfl).cons rfl
  rw [parseProperty_eq_some]
  refine ⟨_, _, propertyTokens_named componentType ht name key, hc, by simp [notSlash], ?_, ?_⟩
  · have hs : notSlash (.word type) = true := rfl
    have hsep : notSlash (.sep '/') = false := rfl
    simp [componentOf, hs, hsep, Tok.text, untok_propertyTokens hn]
  · exact (untok_propertyTokens hkey).symm

theorem newProperty_named {unmarshal : Str → Except Str Fields} (componentType : ComponentType)
    {type name key val : Str} (htype : validType type = true) (hname : NoWhitespace name) (hkey : NoWhitespace key)
    (hno : NoDotKeyword name) {dst : Fields} (hval : unmarshal (key ++ ": " ++ val) = .ok dst) :
    ∃ p, newProperty unmarshal (namedProperty componentType type name key) val = .ok p ∧
      p.toParsed = ⟨componentType, ⟨type, name⟩, .config, key⟩ := by
  have hsub : subStringMap unmarshal (namedProperty componentType type name key)
      ⟨componentType, ⟨type, name⟩, .config, key⟩ val =
      .ok (val, [("config", .map (Confmap.toStringMap (Confmap.newFromStringMap dst)))]) := by
    simp only [subStringMap, hval]
  have hp := parseProperty_named componentType htype hname hkey hno
  refine ⟨{
    componentType, component := ⟨type, name⟩, type := .config, key, val
    input := namedProperty componentType type name key
    stringMap := [(componentType.text, .map [(ComponentID.string ⟨type, name⟩, .map
      [("config", .map (Confmap.toStringMap (Confmap.newFromStringMap dst)))])])] }, ?_, rfl⟩
  exact newProperty_eq_ok.mpr ⟨hp, htype, rfl, _, hsub, rfl⟩

def yamlLine : Str → Except Str Fields := fun s =>
  if s = "auth/user.name: admin" then .ok [("auth/user.name", .str "admin")] else .error []

theorem newProperty_named_redis :
    ∃ p, newProperty yamlLine (namedProperty .receivers "redis" "a.configured/b.c"
        "auth/user.name") "admin" = .ok p ∧
      p.toParsed = ⟨.receivers, ⟨"redis", "a.configured/b.c"⟩, .config, "auth/user.name"⟩ := by
  have hno : NoDotKeyword "a.configured/b.c" := noDotKeyword_of_tails (by decide +kernel)
  have hw {s : Str} (h : s.any isWhitespace = false) : NoWhitespace s :=
    fun c hc => Bool.eq_false_iff.mpr (any_eq_false.mp h c hc)
  exact newProperty_named .receivers (by decide) (hw (by decide)) (hw (by decide)) hno (if_pos (by decide))

end Collector.Discovery
