import Collector.Component
import Collector.Confmap
import Collector.Lib.Peg
import Collector.Lib.Tokens

/-!
# Discovery properties

`NewProperty` of `internal/confmapprovider/discovery/properties/property.go`, with its lexer and its
grammar: `splunk.discovery.<receivers|extensions>.<type(/name)>.<config.<key>|enabled>`.
-/

namespace Collector.Discovery

open Lib Lib.Peg Option

variable {w val type : Str} {a y : List Tok} {t : Tok}
variable {rest ts : List Tok} {c : Char} {p : Parsed} {property : Str}

inductive ComponentType where
  | receivers
  | extensions
  deriving DecidableEq

variable {componentType : ComponentType}

inductive PropertyType where
  | config
  | enabled
  deriving DecidableEq

def ComponentType.text : ComponentType → Str
  | .receivers => "receivers"
  | .extensions => "extensions"

def PropertyType.text : PropertyType → Str
  | .config => "config"
  | .enabled => "enabled"

/-! ## The lexer -/

def isSeparator (c : Char) : Bool := c = '.' || c = '/'

/-- The `\s` of the rule `Whitespace`, whose tokens are elided. -/
def isWhitespace (c : Char) : Bool := c ∈ [' ', '\t', '\n', '\r', '\x0c']

def propertyTokens (property : Str) : List Tok := lex isSeparator isWhitespace property

/-! ## The grammar -/

def sepIs (c : Char) : Rule Tok := one fun t => t = .sep c

def literal (w : Str) : Rule Tok := one fun t => t = .word w

def stringTok : Rule Tok := one fun t => match t with
  | .word _ => true
  | .sep _ => false

def sepKeyword (c : Char) (text : PropertyType → Str) : Rule Tok :=
  seq (sepIs c) (ahead (alt (literal (text .config)) (literal (text .enabled))))

def oneOf {A : Type} (text : A → Str) (all : List A) (t : Tok) : Option A :=
  all.find? fun a => t = .word (text a)

def parseHeader (first second : Str) (c : Char) (text : ComponentType → Str) (ts : List Tok) :
    Option (ComponentType × List Tok) :=
  match seq (literal first) (seq (sepIs c) (seq (literal second) (sepIs c))) ts with
  | none => none
  | some (_, ts) =>
    match pick (oneOf text [.receivers, .extensions]) ts with
    | none => none
    | some (componentType, ts) => (sepIs c ts).map fun m => (componentType, m.2)

def dot : Rule Tok := sepIs '.'

def forwardSlash : Rule Tok := sepIs '/'

/-- `(Dot (?= ('config'|'enabled')))`. -/
def dotKeyword : Rule Tok := sepKeyword '.' PropertyType.text

/-- `@~(ForwardSlash | (Dot (?= ('config'|'enabled'))))+`. -/
def componentTypeRule : Rule Tok := plus (butNot (alt forwardSlash dotKeyword))

/-- `(ForwardSlash @(~(Dot (?= ('config'|'enabled')))+)*)?`. -/
def componentNameRule : Rule Tok := opt (seq (drop forwardSlash) (many (plus (butNot dotKeyword))))

def parseComponentID (ts : List Tok) : Option (ComponentID × List Tok) :=
  match componentTypeRule ts with
  | none => none
  | some (type, ts) =>
    match componentNameRule ts with
    | none => none
    | some (name, ts) => some (⟨untok type, untok name⟩, ts)

/-- `'splunk' Dot 'discovery' Dot @('receivers' | 'extensions') Dot`. -/
def parseComponentType : List Tok → Option (ComponentType × List Tok) :=
  parseHeader "splunk" "discovery" '.' ComponentType.text

/-- `((@'config' Dot)|@('enabled'))`. -/
def parseType (ts : List Tok) : Option (PropertyType × List Tok) :=
  match seq (literal "config") dot ts with
  | some (_, ts) => some (.config, ts)
  | none => (literal "enabled" ts).map fun m => (.enabled, m.2)

structure Parsed where
  componentType : ComponentType
  component : ComponentID
  type : PropertyType
  key : Str
  deriving DecidableEq

/-- `Dot`, the type, and `@(String|Dot|ForwardSlash)*` up to the end. -/
def parseItem (componentType : ComponentType) (component : ComponentID) (ts : List Tok) : Option Parsed :=
  match dot ts with
  | none => none
  | some (_, ts) =>
    match parseType ts with
    | none => none
    | some (type, ts) =>
      match many (alt (alt stringTok dot) forwardSlash) ts with
      | some (key, []) => some ⟨componentType, component, type, untok key⟩
      | _ => none

def parseProperty (property : Str) : Option Parsed :=
  match parseComponentType (propertyTokens property) with
  | none => none
  | some (componentType, ts) =>
    match parseComponentID ts with
    | none => none
    | some (component, ts) => parseItem componentType component ts

/-! ## Properties -/

structure Property extends Parsed where
  val : Str
  input : Str
  stringMap : Fields

inductive PropertyErr where
  | parsing (property : Str)
  | bool (property : Str)
  | unmarshaling (key : Str) (e : Str)
  /-- The panic of `MustNewIDWithName`. -/
  | badType (type : Str)
  deriving DecidableEq

def parseBool (s : Str) : Option Bool :=
  if s ∈ ["1", "t", "T", "true", "TRUE", "True"].map String.toList then some true
  else if s ∈ ["0", "f", "F", "false", "FALSE", "False"].map String.toList then some false
  else none

def boolText : Bool → Str
  | true => "true"
  | false => "false"

section
variable (unmarshal : Str → Except Str Fields)

/-- The value, and the map of the property. `unmarshal` is `yaml.Unmarshal`. -/
def subStringMap (property : Str) (p : Parsed) (val : Str) : Except PropertyErr (Str × Fields) :=
  match p.type with
  | .enabled =>
    match parseBool val with
    | none => .error (.bool property)
    | some b => .ok (boolText b, [("enabled", .str (boolText b))])
  | .config =>
    match unmarshal (p.key ++ ": " ++ val) with
    | .error e => .error (.unmarshaling p.key e)
    | .ok dst =>
      .ok (val, [("config", .map (Confmap.toStringMap (Confmap.newFromStringMap dst)))])

def newProperty (property val : Str) : Except PropertyErr Property :=
  match parseProperty property with
  | none => .error (.parsing property)
  | some p =>
    match subStringMap unmarshal property p val with
    | .error e => .error e
    | .ok (v, sub) =>
      if validType p.component.type then
        .ok { p with
          val := v
          input := property
          stringMap := [(p.componentType.text, .map [(p.component.string, .map sub)])] }
      else .error (.badType p.component.type)

end

/-! ## The grammar in closed form -/

theorem literal_eq_some : literal w ts = some (a, rest) ↔ a = [.word w] ∧ ts = .word w :: rest := by
  unfold literal
  rw [one_eq_some]
  simp

theorem sepIs_eq_some : sepIs c ts = some (a, rest) ↔ a = [.sep c] ∧ ts = .sep c :: rest := by
  unfold sepIs
  rw [one_eq_some]
  simp

theorem isSome_literal : (literal w ts).isSome = true ↔ ∃ rest, ts = .word w :: rest := by
  rw [isSome_iff_exists]
  constructor
  · rintro ⟨⟨a, rest⟩, h⟩
    exact ⟨rest, (literal_eq_some.mp h).2⟩
  · rintro ⟨rest, h⟩
    exact ⟨([.word w], rest), literal_eq_some.mpr ⟨rfl, h⟩⟩

theorem isSome_sepKeyword {text : PropertyType → Str} : (sepKeyword c text ts).isSome = true ↔
      ∃ type : PropertyType, ∃ rest, ts = .sep c :: .word (text type) :: rest := by
  unfold sepKeyword
  rw [isSome_seq_ahead]
  constructor
  · rintro ⟨b, mid, hsep, hw⟩
    obtain ⟨-, rfl⟩ := sepIs_eq_some.mp hsep
    rcases isSome_alt.mp hw with h | h
    · obtain ⟨rest, rfl⟩ := isSome_literal.mp h
      exact ⟨.config, rest, rfl⟩
    · obtain ⟨rest, rfl⟩ := isSome_literal.mp h
      exact ⟨.enabled, rest, rfl⟩
  · rintro ⟨type, rest, rfl⟩
    refine ⟨[.sep c], .word (text type) :: rest, sepIs_eq_some.mpr ⟨rfl, rfl⟩, isSome_alt.mpr ?_⟩
    cases type with
    | config => exact Or.inl (isSome_literal.mpr ⟨rest, rfl⟩)
    | enabled => exact Or.inr (isSome_literal.mpr ⟨rest, rfl⟩)

theorem oneOf_eq_some {A : Type} {text : A → Str} (ht : Function.Injective text) {all : List A}
    (hall : ∀ a, a ∈ all) {a : A} : oneOf text all t = some a ↔ t = .word (text a) := by
  unfold oneOf
  constructor
  · intro h
    simpa using List.find?_some h
  · rintro rfl
    cases hf : all.find? (fun b => Tok.word (text a) = .word (text b)) with
    | none =>
      have hn := List.find?_eq_none.mp hf a (hall a)
      simp at hn
    | some b =>
      have hb : text a = text b := by simpa using List.find?_some hf
      rw [ht hb]

theorem ComponentType.all (a : ComponentType) : a ∈ [ComponentType.receivers, .extensions] := by
  cases a <;> simp

theorem PropertyType.all (a : PropertyType) : a ∈ [PropertyType.config, .enabled] := by
  cases a <;> simp

theorem ComponentType.text_injective : Function.Injective ComponentType.text := by
  intro a b h
  cases a <;> cases b <;> first | rfl | exact absurd h (by decide)

def header (first second : Str) (c : Char) (type : Str) : List Tok :=
  [.word first, .sep c, .word second, .sep c, .word type, .sep c]

theorem parseHeader_eq_some {first second : Str} {text : ComponentType → Str} (hte : Function.Injective text) :
    parseHeader first second c text ts = some (componentType, rest) ↔
      ts = header first second c (text componentType) ++ rest := by
  unfold parseHeader
  constructor
  · intro h
    split at h
    · cases h
    · rename_i a mid hf
      obtain ⟨_, _, _, hw, hta, -⟩ := seq_eq_some.mp hf
      obtain ⟨_, _, _, hc, hta', -⟩ := seq_eq_some.mp hta
      obtain ⟨_, _, _, hw', hc', -⟩ := seq_eq_some.mp hta'
      obtain ⟨-, rfl⟩ := literal_eq_some.mp hw
      obtain ⟨-, rfl⟩ := sepIs_eq_some.mp hc
      obtain ⟨-, rfl⟩ := literal_eq_some.mp hw'
      obtain ⟨-, rfl⟩ := sepIs_eq_some.mp hc'
      split at h
      · cases h
      · rename_i ct mid' hp
        obtain ⟨t, ht, rfl⟩ := pick_eq_some.mp hp
        rw [oneOf_eq_some hte ComponentType.all] at ht
        obtain ⟨⟨a', rest'⟩, hl, heq⟩ := map_eq_some_iff.mp h
        obtain ⟨-, rfl⟩ := sepIs_eq_some.mp hl
        cases heq
        rw [ht]
        rfl
  · rintro rfl
    have hf : seq (literal first) (seq (sepIs c) (seq (literal second) (sepIs c)))
        (header first second c (text componentType) ++ rest) =
        some ([.word first, .sep c, .word second, .sep c], .word (text componentType) :: .sep c :: rest) :=
      seq_eq_some.mpr ⟨[.word first], _, _, literal_eq_some.mpr ⟨rfl, rfl⟩,
        seq_eq_some.mpr ⟨[.sep c], _, _, sepIs_eq_some.mpr ⟨rfl, rfl⟩,
          seq_eq_some.mpr ⟨[.word second], _, _, literal_eq_some.mpr ⟨rfl, rfl⟩,
            sepIs_eq_some.mpr ⟨rfl, rfl⟩, rfl⟩, rfl⟩, rfl⟩
    have hp : pick (oneOf text [.receivers, .extensions])
        (.word (text componentType) :: .sep c :: rest) = some (componentType, .sep c :: rest) :=
      pick_eq_some.mpr ⟨_, (oneOf_eq_some hte ComponentType.all).mpr rfl, rfl⟩
    have hl : sepIs c (.sep c :: rest) = some ([.sep c], rest) := sepIs_eq_some.mpr ⟨rfl, rfl⟩
    rw [hf]
    dsimp only
    rw [hp]
    dsimp only
    rw [hl]
    rfl

def atKeyword (ts : List Tok) : Bool := (dotKeyword ts).isSome

def notSlash (t : Tok) : Bool := t ≠ .sep '/'

theorem spanBefore_type (ts : List Tok) : spanBefore (fun ts => (alt forwardSlash dotKeyword ts).isSome) ts =
      ((spanBefore atKeyword ts).1.takeWhile notSlash,
        (spanBefore atKeyword ts).1.dropWhile notSlash ++ (spanBefore atKeyword ts).2) := by
  induction ts with
  | nil => rfl
  | cons t ts ih =>
    have halt : (alt forwardSlash dotKeyword (t :: ts)).isSome = (!notSlash t || atKeyword (t :: ts)) := by
      unfold alt forwardSlash sepIs atKeyword notSlash
      by_cases ht : t = .sep '/' <;> simp [one, ht]
    rw [spanBefore, spanBefore, halt, ih]
    cases hkey : atKeyword (t :: ts) with
    | true => simp
    | false =>
      cases hs : notSlash t with
      | true => simp [hs]
      | false => simp [hs, spanBefore_append_eq]

theorem atKeyword_iff :
    atKeyword ts = true ↔ ∃ type : PropertyType, ∃ rest, ts = .sep '.' :: .word type.text :: rest :=
  isSome_sepKeyword

theorem componentNameRule_none {tail : List Tok} (h : tail = [] ∨ atKeyword tail = true) :
    componentNameRule tail = some ([], tail) := by
  have hs : forwardSlash tail = none := by
    rcases h with rfl | h
    · rfl
    · obtain ⟨type, rest, rfl⟩ := atKeyword_iff.mp h
      rfl
  unfold componentNameRule opt seq drop
  rw [hs]
  rfl

theorem componentNameRule_slash (ts : List Tok) :
    componentNameRule (.sep '/' :: ts) = some (spanBefore atKeyword ts) := by
  have hm : many (plus (butNot dotKeyword)) ts = some (spanBefore atKeyword ts) :=
    many_plus_butNot dotKeyword ts
  have hs : forwardSlash (.sep '/' :: ts) = some ([.sep '/'], ts) :=
    sepIs_eq_some.mpr ⟨rfl, rfl⟩
  unfold componentNameRule opt seq drop
  rw [hs, map_some, bind_some, hm]
  rfl

def componentOf (comp : List Tok) : ComponentID :=
  ⟨untok (comp.takeWhile notSlash), untok ((comp.dropWhile notSlash).drop 1)⟩

theorem parseComponentID_eq (ts : List Tok) : parseComponentID ts =
      if (spanBefore atKeyword ts).1.takeWhile notSlash = [] then none
      else some (componentOf (spanBefore atKeyword ts).1, (spanBefore atKeyword ts).2) := by
  unfold parseComponentID componentTypeRule
  rw [plus_butNot, spanBefore_type]
  by_cases he : (spanBefore atKeyword ts).1.takeWhile notSlash = []
  · rw [if_pos he, if_pos he]
  · rw [if_neg he, if_neg he]
    dsimp only
    unfold componentOf
    cases hd : (spanBefore atKeyword ts).1.dropWhile notSlash with
    | nil =>
      rw [List.nil_append, componentNameRule_none (spanBefore_rest atKeyword ts)]
      rfl
    | cons t name =>
      have ht : t = .sep '/' := by
        have hh := List.head?_dropWhile_not notSlash (spanBefore atKeyword ts).1
        rw [hd] at hh
        simpa [notSlash] using hh
      have hc : (spanBefore atKeyword ts).1 = ((spanBefore atKeyword ts).1.takeWhile notSlash ++ [t]) ++ name := by
        rw [List.append_assoc, List.singleton_append, ← hd, List.takeWhile_append_dropWhile]
      rw [List.cons_append, ht, componentNameRule_slash, spanBefore_suffix atKeyword ts _ _ hc]
      rfl

theorem PropertyType.text_injective : Function.Injective PropertyType.text := by
  intro a b h
  cases a <;> cases b <;> first | rfl | exact absurd h (by decide)

def item (type : PropertyType) (key : List Tok) : List Tok :=
  .sep '.' :: .word type.text :: match type with
    | .config => .sep '.' :: key
    | .enabled => key

theorem parseType_eq_some {type : PropertyType} :
    parseType ts = some (type, rest) ↔ .sep '.' :: ts = item type rest := by
  have hco : ∀ ts a rest, seq (literal "config") dot ts = some (a, rest) ↔
      a = [.word "config", .sep '.'] ∧ ts = .word "config" :: .sep '.' :: rest := by
    intro ts a rest
    rw [seq_eq_some]
    constructor
    · rintro ⟨b, mid, d, hw, hc, rfl⟩
      obtain ⟨rfl, rfl⟩ := literal_eq_some.mp hw
      obtain ⟨rfl, rfl⟩ := sepIs_eq_some.mp hc
      exact ⟨rfl, rfl⟩
    · rintro ⟨rfl, rfl⟩
      exact ⟨_, _, _, literal_eq_some.mpr ⟨rfl, rfl⟩, sepIs_eq_some.mpr ⟨rfl, rfl⟩, rfl⟩
  unfold parseType
  constructor
  · intro h
    split at h
    · rename_i a rest' hseq
      obtain ⟨-, rfl⟩ := (hco _ _ _).mp hseq
      cases h
      rfl
    · obtain ⟨⟨a, rest'⟩, hlit, heq⟩ := map_eq_some_iff.mp h
      obtain ⟨-, rfl⟩ := literal_eq_some.mp hlit
      cases heq
      rfl
  · intro h
    cases type with
    | config =>
      have hts : ts = .word "config" :: .sep '.' :: rest := (List.cons.inj h).2
      rw [(hco ts _ rest).mpr ⟨rfl, hts⟩]
    | enabled =>
      obtain rfl := (List.cons.inj h).2
      rfl

theorem many_key {ts : List Tok} (h : Canon isSeparator isWhitespace ts) :
    many (alt (alt stringTok dot) forwardSlash) ts = some (ts, []) := by
  unfold stringTok dot forwardSlash sepIs
  rw [alt_one, alt_one]
  refine many_one _ fun t ht => ?_
  cases t with
  | word w => rfl
  | sep c =>
    have hc := h.sep_mem c ht
    simpa [isSeparator] using hc

theorem parseItem_eq_some (h : Canon isSeparator isWhitespace ts) {component : ComponentID} :
    parseItem componentType component ts = some p ↔
      ∃ type key, ts = item type key ∧ p = ⟨componentType, component, type, untok key⟩ := by
  have hkey : ∀ type rest, Canon isSeparator isWhitespace (item type rest) →
      many (alt (alt stringTok dot) forwardSlash) rest = some (rest, []) := by
    intro type rest hc
    refine many_key ?_
    cases type with
    | config => exact hc.2.2.2.2
    | enabled => exact hc.2.2.2
  unfold parseItem
  constructor
  · intro hp
    split at hp
    · cases hp
    · rename_i a mid hdot
      obtain ⟨-, rfl⟩ := sepIs_eq_some.mp hdot
      split at hp
      · cases hp
      · rename_i type rest ht
        have hi := parseType_eq_some.mp ht
        rw [hkey type rest (hi ▸ h)] at hp
        cases hp
        exact ⟨type, rest, hi, rfl⟩
  · rintro ⟨type, rest, rfl, rfl⟩
    obtain ⟨mid, hmid⟩ : ∃ mid, item type rest = .sep '.' :: mid := ⟨_, rfl⟩
    have hdot : dot (item type rest) = some ([.sep '.'], mid) := sepIs_eq_some.mpr ⟨rfl, hmid⟩
    rw [hdot]
    dsimp only
    rw [parseType_eq_some.mpr hmid.symm]
    dsimp only
    rw [hkey type rest h]

def NoKeyword (comp : List Tok) : Prop := ∀ x y, comp = x ++ y → atKeyword y = false

theorem atKeyword_append_sep (hy : y ≠ []) (c : Char) (r : List Tok) :
    atKeyword (y ++ .sep c :: r) = atKeyword y := by
  rw [Bool.eq_iff_iff, atKeyword_iff, atKeyword_iff]
  match y, hy with
  | [t], _ => simp
  | t :: t' :: y, _ => simp

theorem NoKeyword.span {comp : List Tok} (h : NoKeyword comp) (type : PropertyType) (key : List Tok) :
    spanBefore atKeyword (comp ++ item type key) = (comp, item type key) := by
  have hs : atKeyword (item type key) = true := atKeyword_iff.mpr ⟨type, _, rfl⟩
  have ho := spanBefore_over atKeyword comp (item type key) fun x y hxy hy =>
    (atKeyword_append_sep hy _ _).trans (h x y hxy)
  rw [ho, spanBefore_of_stop atKeyword _ (Or.inr hs), List.append_nil]

abbrev propertyHeader (componentType : ComponentType) : List Tok :=
  header "splunk" "discovery" '.' componentType.text

theorem parseProperty_eq_some : parseProperty property = some p ↔ ∃ comp key,
      propertyTokens property = propertyHeader p.componentType ++ (comp ++ item p.type key) ∧
      NoKeyword comp ∧ comp.takeWhile notSlash ≠ [] ∧ p.component = componentOf comp ∧ p.key = untok key := by
  have hc : Canon isSeparator isWhitespace (propertyTokens property) := canon_lex property
  unfold parseProperty
  constructor
  · intro h
    split at h
    · cases h
    · rename_i componentType ts hty
      have hh := (parseHeader_eq_some ComponentType.text_injective).mp hty
      rw [hh] at hc ⊢
      rw [parseComponentID_eq] at h
      split at h
      · cases h
      · rename_i component ts' hif
        split at hif
        · cases hif
        · rename_i hne
          cases hif
          have happ := spanBefore_append_eq atKeyword ts
          rw [← happ] at hc
          obtain ⟨type, key, hi, rfl⟩ := (parseItem_eq_some hc.split.2.split.2).mp h
          refine ⟨(spanBefore atKeyword ts).1, key, ?_, ?_, hne, rfl, rfl⟩
          · dsimp only
            rw [← hi, happ]
          · intro x y hxy
            by_cases hy : y = []
            · rw [hy]
              rfl
            · have hs := spanBefore_no_stop atKeyword ts x y hxy hy
              rw [hi] at hs
              rwa [← atKeyword_append_sep hy]
  · rintro ⟨comp, key, ht, hs, hne, hco, hkey⟩
    have hsp := hs.span p.type key
    rw [ht] at hc ⊢
    have hh : parseComponentType (propertyHeader p.componentType ++ (comp ++ item p.type key)) =
        some (p.componentType, comp ++ item p.type key) :=
      (parseHeader_eq_some ComponentType.text_injective).mpr rfl
    rw [hh]
    dsimp only
    rw [parseComponentID_eq, hsp, if_neg hne]
    dsimp only
    rw [parseItem_eq_some hc.split.2.split.2]
    refine ⟨p.type, key, rfl, ?_⟩
    rw [← hco, ← hkey]

/-! ## Accepted properties -/

section
variable {unmarshal : Str → Except Str Fields}

theorem newProperty_eq_ok {p : Property} : newProperty unmarshal property val = .ok p ↔
      parseProperty property = some p.toParsed ∧ validType p.component.type = true ∧
      p.input = property ∧ ∃ sub, subStringMap unmarshal property p.toParsed val = .ok (p.val, sub) ∧
        p.stringMap = [(p.componentType.text, .map [(p.component.string, .map sub)])] := by
  unfold newProperty
  constructor
  · intro h
    split at h
    · cases h
    rename_i parsed hp
    split at h
    · cases h
    rename_i v sub hsub
    split at h
    · rename_i hv
      cases h
      exact ⟨hp, hv, rfl, sub, hsub, rfl⟩
    · cases h
  · rintro ⟨hp, hv, hi, sub, hsub, hmap⟩
    rw [hp]
    dsimp only
    rw [hsub]
    dsimp only
    rw [if_pos hv, ← hi, ← hmap]

theorem subStringMap_congr {r : Str × Fields} (h : subStringMap unmarshal property p val = .ok r) (property' : Str) :
    subStringMap unmarshal property' p val = .ok r := by
  unfold subStringMap at h ⊢
  split at h
  · split at h
    · cases h
    · rename_i b hb
      simpa [hb] using h
  · exact h

end

theorem validType_char (h : validType type = true) (hc : c ∈ type) : (isLetter c || isDigit c || c = '_') = true := by
  cases type with
  | nil => cases hc
  | cons a s =>
    simp only [validType, Bool.and_eq_true, List.all_eq_true] at h
    rcases List.mem_cons.mp hc with rfl | hc
    · simp [h.1]
    · exact h.2 c hc

theorem validType_word (h : validType type = true) : Word isSeparator isWhitespace type := by
  have hout : ∀ c ∈ type, ∀ d : Char, (isLetter d || isDigit d || d = '_') = false → c ≠ d := by
    rintro c hc d hd rfl
    rw [validType_char h hc] at hd
    cases hd
  refine ⟨?_, fun c hc => ?_, fun c hc => ?_⟩
  · rintro rfl
    cases h
  · have hdot := hout c hc '.' rfl
    have hs := hout c hc '/' rfl
    simp [isSeparator, hdot, hs]
  · have hmem := List.mem_of_head? hc
    unfold isWhitespace
    simp only [List.mem_cons, List.not_mem_nil, or_false, decide_eq_false_iff_not, not_or]
    exact ⟨hout c hmem _ rfl, hout c hmem _ rfl, hout c hmem _ rfl, hout c hmem _ rfl, hout c hmem _ rfl⟩

structure NameAndKey (p : Parsed) (name key : List Tok) : Prop where
  canon_name : Canon isSeparator isWhitespace name
  canon_key : Canon isSeparator isWhitespace key
  noKeyword : NoKeyword name
  name_eq : untok name = p.component.name
  key_eq : untok key = p.key

theorem NoKeyword.suffix {x : List Tok} (h : NoKeyword (x ++ y)) : NoKeyword y := fun a b hab =>
  h (x ++ a) b (by rw [hab, List.append_assoc])

theorem NoKeyword.cons (ht : atKeyword (t :: ts) = false) (h : NoKeyword ts) : NoKeyword (t :: ts) := by
  intro x y hxy
  cases x with
  | nil =>
    rw [List.nil_append] at hxy
    rw [← hxy, ht]
  | cons a x => exact h x y (List.cons.inj hxy).2

theorem exists_nameAndKey (h : parseProperty property = some p) : ∃ name key, NameAndKey p name key := by
  obtain ⟨comp, key, hto, hno, -, hc, hkey⟩ := parseProperty_eq_some.mp h
  have hca : Canon isSeparator isWhitespace (propertyTokens property) := canon_lex property
  rw [hto] at hca
  obtain ⟨hco, hi⟩ := hca.split.2.split
  have hs : comp = (comp.takeWhile notSlash ++ (comp.dropWhile notSlash).take 1) ++
      (comp.dropWhile notSlash).drop 1 := by
    rw [List.append_assoc, List.take_append_drop, List.takeWhile_append_dropWhile]
  refine ⟨(comp.dropWhile notSlash).drop 1, key, ?_, ?_, ?_, ?_, hkey.symm⟩
  · rw [hs] at hco
    exact hco.split.2
  · cases ht : p.type with
    | config =>
      rw [ht] at hi
      exact hi.2.2.2.2
    | enabled =>
      rw [ht] at hi
      exact hi.2.2.2
  · rw [hs] at hno
    exact hno.suffix
  · rw [hc]
    rfl

end Collector.Discovery
