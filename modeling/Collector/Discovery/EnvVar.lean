import Collector.Discovery.Property
import Collector.Discovery.Wordify

/-!
# Properties as environment variables

`ToEnvVar` and `NewPropertyFromEnvVar`, with the grammar of `internal/confmapprovider/discovery/properties/env_var.go`.
-/

namespace Collector.Discovery

open Lib Lib.Peg List Bool

/-! ## The code -/

def toUpper (s : Str) : Str := s.map Char.toUpper

/-- The variable has the slash of the component. The input `component.type/` is preserved. -/
def Property.named (p : Property) : Bool :=
  p.component.name ≠ [] ∨ ("splunk.discovery." ++ p.componentType.text ++ '.' ::
    p.component.type ++ "/.").isPrefixOf p.input

def Property.toEnvVar (p : Property) : Str :=
  let envVar := "SPLUNK_DISCOVERY_" ++ toUpper p.componentType.text ++ ['_']
  let envVar := envVar ++ wordify p.component.type
  let envVar := if p.named then envVar ++ wordify ('/' :: p.component.name) else envVar
  let envVar := envVar ++ '_' :: toUpper p.type.text
  match p.type with
  | .config => envVar ++ '_' :: wordify p.key
  | .enabled => envVar

def envVarTokens (property : Str) : List Tok := lex (· = '_') (fun _ => false) property

def underscore : Rule Tok := sepIs '_'

def upperComponentType (componentType : ComponentType) : Str := toUpper componentType.text

def upperType (type : PropertyType) : Str := toUpper type.text

/-- `Underscore (?= ('CONFIG'|'ENABLED'))`. -/
def underscoreKeyword : Rule Tok := sepKeyword '_' upperType

/-- `@~(Underscore (?= ('CONFIG'|'ENABLED')))+`. -/
def envVarTypeRule : Rule Tok := plus (butNot underscoreKeyword)

/-- `(Underscore 'x2f' Underscore @(~(?= Underscore (?= ('CONFIG'|'ENABLED')))+|''))?`. -/
def envVarNameRule : Rule Tok :=
  opt (seq (drop underscore) (seq (drop (literal "x2f")) (seq (drop underscore)
    (alt (plus (butNot (ahead underscoreKeyword))) (literal [])))))

/-- `(Underscore @(String|Underscore)+)*`. -/
def envVarKeyRule : Rule Tok := many (seq (drop underscore) (plus (alt stringTok underscore)))

def newEnvVarProperty (property : Str) : Option Parsed :=
  match parseHeader "SPLUNK" "DISCOVERY" '_' upperComponentType (envVarTokens property) with
  | none => none
  | some (componentType, ts) =>
    match envVarTypeRule ts with
    | none => none
    | some (type, ts) =>
      match envVarNameRule ts with
      | none => none
      | some (name, ts) =>
        match underscore ts with
        | none => none
        | some (_, ts) =>
          match pick (oneOf upperType [.config, .enabled]) ts with
          | none => none
          | some (propertyType, ts) =>
            match envVarKeyRule ts with
            | some (key, []) => some ⟨componentType, ⟨untok type, untok name⟩, propertyType, untok key⟩
            | _ => none

inductive EnvVarErr where
  | parsing
  | idType (content : List Str)
  | idName
  | key (content : List Str)
  | property (e : PropertyErr)
  deriving DecidableEq

def keySuffix (type : PropertyType) (key : Str) : Str :=
  match type with
  | .config => '.' :: key
  | .enabled => []

def propertyText (componentType : ComponentType) (cid : Str) (type : PropertyType) (key : Str) : Str :=
  "splunk.discovery." ++ componentType.text ++ '.' :: (cid ++ '.' :: (type.text ++ keySuffix type key))

/-- `none` where the variable is not recognised. -/
def newPropertyFromEnvVar (unmarshal : Str → Except Str Fields) (envVar val : Str) :
    Option (Except EnvVarErr Property) :=
  if "SPLUNK_DISCOVERY_".toList.isPrefixOf envVar then
    match newEnvVarProperty envVar with
    | none => some (.error .parsing)
    | some evp =>
      match unwordify evp.component.type with
      | .error content => some (.error (.idType content))
      | .ok cid =>
        match unwordify evp.component.name with
        | .error _ => some (.error .idName)
        | .ok cidName =>
          let cid := if evp.component.name = [] then cid else cid ++ '/' :: cidName
          match unwordify evp.key with
          | .error content => some (.error (.key content))
          | .ok key =>
            some ((newProperty unmarshal (propertyText evp.componentType cid evp.type key) val).mapError .property)
  else none

/-! ## The grammar in closed form -/

theorem upperComponentType_injective : Function.Injective upperComponentType := by
  intro a b h
  cases a <;> cases b <;> first | rfl | exact absurd h (by decide)

theorem upperType_injective : Function.Injective upperType := by
  intro a b h
  cases a <;> cases b <;> first | rfl | exact absurd h (by decide)

def atUpperKeyword (ts : List Tok) : Bool := (underscoreKeyword ts).isSome

theorem atUpperKeyword_iff {ts : List Tok} :
    atUpperKeyword ts = true ↔ ∃ type, ∃ rest, ts = .sep '_' :: .word (upperType type) :: rest :=
  isSome_sepKeyword

/-- The name of the grammar never matches: the type has gone on up to the keyword. -/
theorem envVarNameRule_none {tail : List Tok} (h : tail = [] ∨ atUpperKeyword tail = true) :
    envVarNameRule tail = some ([], tail) := by
  unfold envVarNameRule opt
  have hn : seq (drop underscore) (seq (drop (literal "x2f")) (seq (drop underscore)
      (alt (plus (butNot (ahead underscoreKeyword))) (literal [])))) tail = none := by
    rw [Option.eq_none_iff_forall_not_mem]
    rintro ⟨a, rest⟩ hmem
    obtain ⟨_, mid, _, hus, hseq, -⟩ := seq_eq_some.mp hmem
    obtain ⟨_, _, _, hlit, -, -⟩ := seq_eq_some.mp hseq
    obtain ⟨⟨_, _⟩, hus, heq⟩ := Option.map_eq_some_iff.mp hus
    obtain ⟨⟨_, _⟩, hlit, -⟩ := Option.map_eq_some_iff.mp hlit
    obtain ⟨-, rfl⟩ := sepIs_eq_some.mp hus
    cases heq
    obtain ⟨-, rfl⟩ := literal_eq_some.mp hlit
    rcases h with h | h
    · cases h
    · obtain ⟨type, rest', heq⟩ := atUpperKeyword_iff.mp h
      cases type <;> exact absurd (cons.inj (cons.inj heq).2).1 (by decide)
  rw [hn]
  rfl

abbrev EnvCanon (ts : List Tok) : Prop := Canon (· = '_') (fun _ => false) ts

variable {key : List Tok}

theorem envVarKeyRule_eq_some {ts : List Tok} (hc : EnvCanon ts) :
    envVarKeyRule ts = some (key, []) ↔ (ts = [] ∧ key = []) ∨ (ts = .sep '_' :: key ∧ key ≠ []) := by
  have hp : ∀ u us, EnvCanon (u :: us) → plus (alt stringTok underscore) (u :: us) = some (u :: us, []) := by
    intro u us hus
    unfold stringTok underscore sepIs
    rw [alt_one]
    refine plus_one _ ?_
    intro t ht
    cases t with
    | word w => rfl
    | sep c => simpa using hus.sep_mem c ht
  unfold envVarKeyRule many
  rw [Option.some.injEq]
  match ts, hc with
  | [], _ =>
    rw [rounds_of_none _ _ rfl]
    constructor
    · intro h
      cases h
      exact Or.inl ⟨rfl, rfl⟩
    · rintro (⟨-, rfl⟩ | ⟨h, -⟩)
      · rfl
      · cases h
  | .word w :: us, _ =>
    rw [rounds_of_none _ _ rfl]
    simp
  | [.sep c], hc =>
    obtain rfl : c = '_' := by simpa using hc.1
    -- A trailing underscore is left over.
    rw [rounds_of_none _ _ rfl]
    constructor
    · intro h
      cases h
    · rintro (⟨h, -⟩ | ⟨h, hne⟩)
      · cases h
      · exact absurd (cons.inj h).2.symm hne
  | .sep c :: u :: us, hc =>
    obtain rfl : c = '_' := by simpa using hc.1
    have hr : seq (drop underscore) (plus (alt stringTok underscore)) (.sep '_' :: u :: us) = some (u :: us, []) :=
      seq_eq_some.mpr ⟨[], u :: us, u :: us, rfl, hp u us hc.2, rfl⟩
    rw [length_cons, rounds, hr]
    dsimp only
    rw [rounds_of_none _ _ rfl]
    constructor
    · intro h
      cases h
      simp
    · rintro (⟨h, -⟩ | ⟨h, -⟩)
      · cases h
      · obtain rfl := (cons.inj h).2
        simp

abbrev envVarHeader (componentType : ComponentType) : List Tok :=
  header "SPLUNK" "DISCOVERY" '_' (upperComponentType componentType)

theorem newEnvVarProperty_eq_some {property : Str} {evp : Parsed} :
    newEnvVarProperty property = some evp ↔ ∃ ts rest key,
      envVarTokens property = envVarHeader evp.componentType ++ ts ∧
      (spanBefore atUpperKeyword ts).1 ≠ [] ∧
      evp.component = ⟨untok (spanBefore atUpperKeyword ts).1, []⟩ ∧
      (spanBefore atUpperKeyword ts).2 = .sep '_' :: .word (upperType evp.type) :: rest ∧
      envVarKeyRule rest = some (key, []) ∧ evp.key = untok key := by
  have hty : ∀ ts, envVarTypeRule ts =
      if (spanBefore atUpperKeyword ts).1 = [] then none else some (spanBefore atUpperKeyword ts) :=
    plus_butNot underscoreKeyword
  unfold newEnvVarProperty
  constructor
  · intro h
    split at h
    · cases h
    rename_i componentType ts hh
    rw [hty] at h
    by_cases he : (spanBefore atUpperKeyword ts).1 = []
    · rw [if_pos he] at h
      cases h
    rw [if_neg he] at h
    dsimp only at h
    rw [envVarNameRule_none (spanBefore_rest atUpperKeyword ts)] at h
    dsimp only at h
    split at h
    · cases h
    rename_i _ mid hus
    obtain ⟨-, hta⟩ := sepIs_eq_some.mp hus
    split at h
    · cases h
    rename_i type rest hp
    obtain ⟨t, ht, rfl⟩ := pick_eq_some.mp hp
    rw [oneOf_eq_some upperType_injective PropertyType.all] at ht
    split at h
    · rename_i key hkey
      cases h
      exact ⟨ts, rest, key, (parseHeader_eq_some upperComponentType_injective).mp hh, he, rfl,
        by rw [hta, ht], hkey, rfl⟩
    · cases h
  · rintro ⟨ts, rest, key, hto, he, hc, hta, hkey, hevp⟩
    rw [(parseHeader_eq_some upperComponentType_injective).mpr hto]
    dsimp only
    rw [hty, if_neg he]
    dsimp only
    rw [envVarNameRule_none (spanBefore_rest atUpperKeyword ts)]
    dsimp only
    have hus : underscore (spanBefore atUpperKeyword ts).2 =
        some ([.sep '_'], .word (upperType evp.type) :: rest) := sepIs_eq_some.mpr ⟨rfl, hta⟩
    have hp : pick (oneOf upperType [.config, .enabled]) (.word (upperType evp.type) :: rest) =
        some (evp.type, rest) :=
      pick_eq_some.mpr ⟨_, (oneOf_eq_some upperType_injective PropertyType.all).mpr rfl, rfl⟩
    rw [hus]
    dsimp only
    rw [hp]
    dsimp only
    rw [hkey]
    dsimp only
    rw [untok_nil, ← hc, ← hevp]

/-! ## The tokens of an encoded text -/

def plain (c : Char) : Bool := !escaped c

def escapeTokens (rs : List (Char × Str)) : List Tok :=
  rs.flatMap fun r => .sep '_' :: .word ('x' :: hexEncoded r.1) :: .sep '_' :: wordTok r.2

theorem wordify_of_plain (s : Str) (h : ∀ c ∈ s, plain c = true) : wordify s = s := by
  induction s with
  | nil => rfl
  | cons c s ih =>
    have hc : escaped c = false := by simpa [plain] using h c mem_cons_self
    have hs := ih fun d hd => h d (mem_cons_of_mem _ hd)
    unfold wordify at hs ⊢
    rw [flatMap_cons, hs, wordifyRune, hc]
    rfl

variable (c : Char)

theorem wordify_run (s : Str) (hc : plain c = false) (hs : ∀ d ∈ s, plain d = true) :
    wordify (c :: s) = '_' :: ('x' :: hexEncoded c ++ '_' :: s) := by
  have hesc : escaped c = true := by simpa [plain] using hc
  have hco : wordify (c :: s) = wordifyRune c ++ wordify s := rfl
  rw [hco, wordify_of_plain s hs, wordifyRune, if_pos hesc]
  simp

theorem ne_underscore_of_plain {c : Char} (h : plain c = true) : c ≠ '_' := by
  rintro rfl
  exact absurd h (by decide)

theorem lex_plain (s : Str) (h : ∀ c ∈ s, plain c = true) : envVarTokens s = wordTok s :=
  lex_word (fun c hc => by simpa using ne_underscore_of_plain (h c hc)) (by simp)

theorem lex_digits : envVarTokens ('x' :: hexEncoded c) = [.word ('x' :: hexEncoded c)] := by
  refine lex_word (fun d hd => ?_) (by simp)
  rcases mem_cons.mp hd with rfl | hd
  · rfl
  · have hhex := isHex_hexEncoded d hd
    rw [decide_eq_false_iff_not]
    rintro rfl
    exact absurd hhex (by decide)

theorem envVarTokens_runs (first : Str) (rs : List (Char × Str)) (hf : ∀ c ∈ first, plain c = true)
    (hrs : ∀ r ∈ rs, plain r.1 = false ∧ ∀ c ∈ r.2, plain c = true) :
    envVarTokens (wordify (first ++ joinRuns rs)) = wordTok first ++ escapeTokens rs := by
  induction rs generalizing first with
  | nil =>
    rw [joinRuns, flatMap_nil, append_nil, wordify_of_plain first hf, lex_plain first hf]
    simp [escapeTokens]
  | cons r rs ih =>
    obtain ⟨hr, hrun⟩ := hrs r mem_cons_self
    have ht := ih r.2 hrun fun r' hr' => hrs r' (mem_cons_of_mem _ hr')
    have hte : wordify (first ++ joinRuns (r :: rs)) =
        first ++ '_' :: (('x' :: hexEncoded r.1) ++ '_' :: wordify (r.2 ++ joinRuns rs)) := by
      have hj : first ++ joinRuns (r :: rs) = first ++ ((r.1 :: r.2) ++ joinRuns rs) := by
        simp [joinRuns]
      rw [hj, wordify_append, wordify_append, wordify_of_plain first hf,
        wordify_run r.1 r.2 hr hrun, wordify_append, wordify_of_plain r.2 hrun]
      simp
    have hlex := lex_plain first hf
    have hd := lex_digits r.1
    unfold envVarTokens at ht hlex hd ⊢
    rw [hte, lex_sep _ _ '_' rfl, lex_sep _ _ '_' rfl, hlex, hd, ht]
    simp [escapeTokens]

theorem envVarTokens_wordify (s : Str) :
    envVarTokens (wordify s) = wordTok (splitRuns plain s).1 ++ escapeTokens (splitRuns plain s).2 := by
  obtain ⟨hf, hrs⟩ := splitRuns_plain plain s
  have h := envVarTokens_runs _ _ hf hrs
  rwa [joinRuns_splitRuns] at h

/-! ## Where the component of a variable ends -/

def isUpperKeyword (w : Str) : Bool := w = upperType .config || w = upperType .enabled

def keywordSafe (s : Str) : Bool := (splitRuns plain s).2.all fun r => !isUpperKeyword r.2

variable (w : Str)

theorem atUpperKeyword_word (ts : List Tok) : atUpperKeyword (.word w :: ts) = false := rfl

theorem atUpperKeyword_sep_word (ts : List Tok) : atUpperKeyword (.sep '_' :: .word w :: ts) = isUpperKeyword w := by
  rw [Bool.eq_iff_iff, atUpperKeyword_iff]
  unfold isUpperKeyword
  constructor
  · rintro ⟨type, rest, h⟩
    cases h
    cases type <;> simp
  · intro h
    rw [Bool.or_eq_true, decide_eq_true_eq, decide_eq_true_eq] at h
    rcases h with rfl | rfl
    · exact ⟨.config, ts, rfl⟩
    · exact ⟨.enabled, ts, rfl⟩

theorem spanBefore_wordTok (ts : List Tok) : spanBefore atUpperKeyword (wordTok w ++ ts) =
      (wordTok w ++ (spanBefore atUpperKeyword ts).1, (spanBefore atUpperKeyword ts).2) := by
  unfold wordTok
  split
  · rfl
  · rw [singleton_append, spanBefore, atUpperKeyword_word, if_neg (by decide)]
    rfl

theorem spanBefore_escape (w : Str) (ts : List Tok) : spanBefore atUpperKeyword
        (.sep '_' :: .word ('x' :: hexEncoded c) :: .sep '_' :: (wordTok w ++ .sep '_' :: ts)) =
      if isUpperKeyword w then ([.sep '_', .word ('x' :: hexEncoded c)], .sep '_' :: (wordTok w ++ .sep '_' :: ts))
      else (.sep '_' :: .word ('x' :: hexEncoded c) :: .sep '_' :: wordTok w ++
        (spanBefore atUpperKeyword (.sep '_' :: ts)).1, (spanBefore atUpperKeyword (.sep '_' :: ts)).2) := by
  have hx : isUpperKeyword ('x' :: hexEncoded c) = false := by
    unfold isUpperKeyword upperType toUpper
    rw [or_eq_false_iff, decide_eq_false_iff_not, decide_eq_false_iff_not]
    constructor <;> intro h <;> exact absurd (cons.inj h).1 (by decide)
  have hl : atUpperKeyword (.sep '_' :: (wordTok w ++ .sep '_' :: ts)) = isUpperKeyword w := by
    unfold wordTok
    split_ifs with hw
    · rw [hw]
      rfl
    · exact atUpperKeyword_sep_word w _
  rw [spanBefore, atUpperKeyword_sep_word, hx, if_neg (by decide), spanBefore, atUpperKeyword_word,
    if_neg (by decide), spanBefore, hl, spanBefore_wordTok]
  split <;> rfl

variable (rs : List (Char × Str))

theorem escapeTokens_sep (ts : List Tok) : ∃ ts', escapeTokens rs ++ .sep '_' :: ts = .sep '_' :: ts' := by
  cases rs with
  | nil => exact ⟨ts, rfl⟩
  | cons r rs => exact ⟨_, rfl⟩

theorem spanBefore_escapeTokens_cons (r : Char × Str) (rs : List (Char × Str)) (ts : List Tok) :
    spanBefore atUpperKeyword (escapeTokens (r :: rs) ++ .sep '_' :: ts) =
      if isUpperKeyword r.2 then ([.sep '_', .word ('x' :: hexEncoded r.1)],
        .sep '_' :: (wordTok r.2 ++ (escapeTokens rs ++ .sep '_' :: ts)))
      else (.sep '_' :: .word ('x' :: hexEncoded r.1) :: .sep '_' :: wordTok r.2 ++
          (spanBefore atUpperKeyword (escapeTokens rs ++ .sep '_' :: ts)).1,
        (spanBefore atUpperKeyword (escapeTokens rs ++ .sep '_' :: ts)).2) := by
  obtain ⟨ts', hts'⟩ := escapeTokens_sep rs ts
  have hc : escapeTokens (r :: rs) ++ .sep '_' :: ts = .sep '_' :: .word ('x' :: hexEncoded r.1) :: .sep '_' ::
        (wordTok r.2 ++ (escapeTokens rs ++ .sep '_' :: ts)) := by
    simp [escapeTokens]
  rw [hc, hts']
  exact spanBefore_escape r.1 r.2 ts'

variable (type : PropertyType)

theorem spanBefore_safe {rs : List (Char × Str)} (ts : List Tok) (h : ∀ r ∈ rs, isUpperKeyword r.2 = false) :
    spanBefore atUpperKeyword (escapeTokens rs ++ .sep '_' :: .word (upperType type) :: ts) =
      (escapeTokens rs, .sep '_' :: .word (upperType type) :: ts) := by
  induction rs with
  | nil => exact spanBefore_of_stop _ _ (Or.inr (atUpperKeyword_iff.mpr ⟨type, ts, rfl⟩))
  | cons r rs ih =>
    rw [spanBefore_escapeTokens_cons, h r mem_cons_self, ih fun r' hr' => h r' (mem_cons_of_mem _ hr')]
    simp [escapeTokens]

theorem spanBefore_unsafe (ts : List Tok) (h : ∃ r ∈ rs, isUpperKeyword r.2 = true) :
    ∃ pre r post, rs = pre ++ r :: post ∧ isUpperKeyword r.2 = true ∧
      (spanBefore atUpperKeyword (escapeTokens rs ++ .sep '_' :: ts)).1 =
        escapeTokens pre ++ [.sep '_', .word ('x' :: hexEncoded r.1)] := by
  induction rs with
  | nil => simp at h
  | cons r rs ih =>
    rw [spanBefore_escapeTokens_cons]
    cases hr : isUpperKeyword r.2 with
    | true => exact ⟨[], r, rs, rfl, hr, rfl⟩
    | false =>
      obtain ⟨pre, r', post, rfl, hr', hs⟩ := ih (by simpa [hr] using h)
      refine ⟨r :: pre, r', post, rfl, hr', ?_⟩
      rw [if_neg (by decide), hs]
      simp [escapeTokens]

section
variable (id : Str) (type : PropertyType) (ts : List Tok)

theorem component_of_safe (h : keywordSafe id = true) :
    spanBefore atUpperKeyword (envVarTokens (wordify id) ++ .sep '_' :: .word (upperType type) :: ts) =
      (envVarTokens (wordify id), .sep '_' :: .word (upperType type) :: ts) := by
  have hall : ∀ r ∈ (splitRuns plain id).2, isUpperKeyword r.2 = false := by
    intro r hr
    simpa using all_eq_true.mp h r hr
  rw [envVarTokens_wordify, append_assoc, spanBefore_wordTok, spanBefore_safe _ _ hall]

theorem component_of_unsafe (h : keywordSafe id = false) :
    ∃ s c w t, id = s ++ c :: (w ++ t) ∧ isUpperKeyword w = true ∧
      untok (spanBefore atUpperKeyword (envVarTokens (wordify id) ++ .sep '_' :: ts)).1 =
        wordify s ++ '_' :: 'x' :: hexEncoded c := by
  have hex : ∃ r ∈ (splitRuns plain id).2, isUpperKeyword r.2 = true := by
    simpa [keywordSafe] using h
  obtain ⟨hf, hrs⟩ := splitRuns_plain plain id
  obtain ⟨pre, r, post, hs, hr, hsp⟩ := spanBefore_unsafe _ ts hex
  have hpre := envVarTokens_runs _ pre hf fun r' hr' => hrs r' (by rw [hs]; simp [hr'])
  refine ⟨(splitRuns plain id).1 ++ joinRuns pre, r.1, r.2, joinRuns post, ?_, hr, ?_⟩
  · have hj := joinRuns_splitRuns plain id
    rw [hs] at hj
    refine hj.symm.trans ?_
    simp [joinRuns]
  · have hexact : untok (envVarTokens (wordify ((splitRuns plain id).1 ++ joinRuns pre))) =
        wordify ((splitRuns plain id).1 ++ joinRuns pre) := exact_of_no_skip _ _
    rw [envVarTokens_wordify, append_assoc, spanBefore_wordTok, hsp, ← append_assoc, ← hpre, untok_append, hexact]
    simp [Tok.text]

end

/-! ## The tokens of the property that is formed -/

theorem lex_text {w : Str} (h : w.all fun c => !isSeparator c && !isWhitespace c) : propertyTokens w = wordTok w := by
  rw [all_eq_true] at h
  refine lex_word (fun c hc => ?_) fun c hc => ?_
  · have := h c hc
    simp_all
  · have := h c (mem_of_head? hc)
    simp_all

theorem propertyTokens_dot (s t : Str) :
    propertyTokens (s ++ '.' :: t) = propertyTokens s ++ .sep '.' :: propertyTokens t :=
  lex_sep s t '.' rfl

theorem propertyTokens_slash {type : Str} (ht : validType type = true) (name : Str) :
    propertyTokens (type ++ '/' :: name) = .word type :: .sep '/' :: propertyTokens name := by
  have hlex : propertyTokens (type ++ '/' :: name) = propertyTokens type ++ .sep '/' :: propertyTokens name :=
    lex_sep type name '/' rfl
  have hw : propertyTokens type = [.word type] := (validType_word ht).lex
  rw [hlex, hw]
  rfl

variable (componentType : ComponentType)

theorem propertyTokens_componentType : propertyTokens componentType.text = [.word componentType.text] := by
  rw [lex_text (by cases componentType <;> decide)]
  cases componentType <;> rfl

theorem propertyTokens_type : propertyTokens type.text = [.word type.text] := by
  rw [lex_text (by cases type <;> decide)]
  cases type <;> rfl

def keyTokens (type : PropertyType) (key : Str) : List Tok :=
  match type with
  | .config => propertyTokens key
  | .enabled => []

theorem propertyTokens_propertyText (cid : Str) (type : PropertyType) (key : Str) :
    propertyTokens (propertyText componentType cid type key) =
      propertyHeader componentType ++ (propertyTokens cid ++ item type (keyTokens type key)) := by
  have ht : propertyText componentType cid type key =
      "splunk" ++ '.' :: ("discovery" ++ '.' :: (componentType.text ++ '.' :: (cid ++ '.' ::
        (type.text ++ keySuffix type key)))) := by
    unfold propertyText
    rw [append_assoc]
    rfl
  have hi : propertyTokens (type.text ++ keySuffix type key) = (item type (keyTokens type key)).tail := by
    cases type with
    | config =>
      rw [keySuffix, propertyTokens_dot, propertyTokens_type]
      rfl
    | enabled =>
      rw [keySuffix, append_nil, propertyTokens_type]
      rfl
  rw [ht, propertyTokens_dot, propertyTokens_dot, propertyTokens_dot, propertyTokens_dot, hi,
    propertyTokens_componentType]
  rfl

def componentText (component : ComponentID) (named : Bool) : Str :=
  if named then component.type ++ '/' :: component.name else component.type

theorem noKeyword_nil : NoKeyword [] := by
  intro x y hxy
  rw [(append_eq_nil_iff.mp hxy.symm).2]
  rfl

variable {named : Bool}

theorem propertyTokens_component {p : Parsed} {name : List Tok} (h : NameAndKey p name key)
    (hv : validType p.component.type = true)
    (hn : named = false → p.component.name = []) :
    Exact isSeparator isWhitespace (componentText p.component named) ∧
    NoKeyword (propertyTokens (componentText p.component named)) ∧
    (propertyTokens (componentText p.component named)).takeWhile notSlash ≠ [] ∧
    componentOf (propertyTokens (componentText p.component named)) = p.component := by
  have hty : propertyTokens p.component.type = [.word p.component.type] := (validType_word hv).lex
  unfold componentText
  cases named with
  | true =>
    have hna : propertyTokens p.component.name = name := by
      rw [← h.name_eq]
      exact lex_untok h.canon_name
    have ht : propertyTokens (p.component.type ++ '/' :: p.component.name) =
        .word p.component.type :: .sep '/' :: name := by
      rw [propertyTokens_slash hv, hna]
    have hexact : untok (propertyTokens (p.component.type ++ '/' :: p.component.name)) =
        p.component.type ++ '/' :: p.component.name := by
      rw [ht]
      simp [Tok.text, h.name_eq]
    rw [if_pos rfl, ht]
    refine ⟨hexact, .cons rfl (.cons rfl h.noKeyword), by simp [notSlash], ?_⟩
    simp [componentOf, notSlash, h.name_eq, Tok.text]
  | false =>
    have hexact : untok (propertyTokens p.component.type) = p.component.type := by
      rw [hty]
      simp [Tok.text]
    rw [if_neg (by decide), hty]
    refine ⟨hexact, .cons rfl noKeyword_nil, by simp [notSlash], ?_⟩
    have hc : (⟨p.component.type, p.component.name⟩ : ComponentID) = p.component := rfl
    rw [hn rfl] at hc
    simpa [componentOf, notSlash, Tok.text] using hc

theorem parseProperty_propertyText {p : Parsed} {name : List Tok} (h : NameAndKey p name key)
    (hv : validType p.component.type = true)
    (hn : named = false → p.component.name = []) (componentType : ComponentType)
    (type : PropertyType) (k : Str) :
    parseProperty (propertyText componentType (componentText p.component named) type k) =
      some ⟨componentType, p.component, type, untok (keyTokens type k)⟩ := by
  obtain ⟨-, hno, hne, hc⟩ := propertyTokens_component h hv hn
  exact parseProperty_eq_some.mpr ⟨_, keyTokens type k, propertyTokens_propertyText _ _ _ _, hno, hne, hc.symm, rfl⟩

/-! ## The tokens of the variable that is formed -/

section
variable (p : Property)

theorem Property.name_of_not_named (h : p.named = false) : p.component.name = [] := by
  unfold Property.named at h
  by_contra hne
  simp [hne] at h

def Property.envVarSuffix : Str :=
  match p.type with
  | .config => '_' :: wordify p.key
  | .enabled => []

theorem toEnvVar_eq : p.toEnvVar = "SPLUNK" ++ '_' :: ("DISCOVERY" ++ '_' ::
      (upperComponentType p.componentType ++ '_' :: (wordify (componentText p.component p.named) ++ '_' ::
        (upperType p.type ++ p.envVarSuffix)))) := by
  have hh : ∀ s : Str, "SPLUNK_DISCOVERY_" ++ s = "SPLUNK" ++ '_' :: ("DISCOVERY" ++ '_' :: s) := fun s => rfl
  have hc : wordify (componentText p.component p.named) =
      if p.named then wordify p.component.type ++ wordify ('/' :: p.component.name)
      else wordify p.component.type := by
    unfold componentText
    split
    · exact wordify_append _ _
    · rfl
  rw [← hh, hc]
  unfold Property.toEnvVar Property.envVarSuffix upperComponentType upperType
  dsimp only
  cases p.named <;> cases p.type <;>
    simp only [append_assoc, cons_append, nil_append, append_nil, if_true, false_eq_true, if_false]

theorem envVarTokens_underscore (s t : Str) :
    envVarTokens (s ++ '_' :: t) = envVarTokens s ++ .sep '_' :: envVarTokens t :=
  lex_sep s t '_' rfl

def Property.envVarRest : List Tok :=
  match p.type with
  | .config => .sep '_' :: envVarTokens (wordify p.key)
  | .enabled => []

theorem envVarTokens_toEnvVar : envVarTokens p.toEnvVar = envVarHeader p.componentType ++
      (envVarTokens (wordify (componentText p.component p.named)) ++
        .sep '_' :: .word (upperType p.type) :: p.envVarRest) := by
  have hct : envVarTokens (upperComponentType p.componentType) = [.word (upperComponentType p.componentType)] := by
    cases p.componentType <;> decide
  have ht : envVarTokens (upperType p.type ++ p.envVarSuffix) = .word (upperType p.type) :: p.envVarRest := by
    unfold Property.envVarSuffix Property.envVarRest
    cases p.type with
    | config =>
      rw [envVarTokens_underscore]
      rfl
    | enabled => rfl
  rw [toEnvVar_eq, envVarTokens_underscore, envVarTokens_underscore, envVarTokens_underscore,
    envVarTokens_underscore, ht, hct]
  rfl

theorem toEnvVar_recognised : "SPLUNK_DISCOVERY_".toList.isPrefixOf p.toEnvVar = true := by
  rw [toEnvVar_eq]
  rfl

end

/-! ## Variables that lose their component or key -/

theorem untok_prefix (comp : List Tok) :
    untok comp <+: (componentOf comp).type ++ '/' :: (componentOf comp).name := by
  have hc : comp = comp.takeWhile notSlash ++ comp.dropWhile notSlash :=
    (takeWhile_append_dropWhile).symm
  unfold componentOf
  cases hd : comp.dropWhile notSlash with
  | nil =>
    rw [hd, append_nil] at hc
    rw [← hc]
    exact prefix_append _ _
  | cons t name =>
    have ht : t = .sep '/' := by
      have hh := head?_dropWhile_not notSlash comp
      rw [hd] at hh
      simpa [notSlash] using hh
    rw [hd, ht] at hc
    have hte := congrArg untok hc
    rw [untok_append, untok_cons] at hte
    rw [hte]
    exact prefix_rfl

theorem underscore_not_mem_type : '_' ∉ type.text := by
  cases type <;> decide

section
variable {s t : Str} (hexact : Exact isSeparator isWhitespace (s ++ t)) (z : Str)
include hexact

theorem propertyTokens_broken :
    ∃ a b v ts, s = a ++ b ∧ propertyTokens (s ++ t) = propertyTokens a ++ propertyTokens (b ++ t) ∧
      untok (propertyTokens a) = a ∧
      propertyTokens (s ++ '_' :: 'x' :: z) = propertyTokens a ++ .word (b ++ '_' :: 'x' :: v) :: ts := by
  obtain ⟨a, b, v, ts, rfl, he, ha, ht⟩ :=
    hexact.diverge ['_', 'x'] z (by simp) (by simp [isSeparator]) (by simp [isWhitespace])
  refine ⟨a, b, v, ts, rfl, ?_, ha, ?_⟩
  · rw [append_assoc]
    exact he.lex_append (b ++ t)
  · rw [append_assoc b] at ht
    exact ht

theorem key_of_broken : s ++ ['_', 'x'] <+: untok (propertyTokens (s ++ '_' :: 'x' :: z)) := by
  obtain ⟨a, b, v, ts, rfl, -, ha, ht⟩ := propertyTokens_broken hexact z
  rw [ht, untok_append, ha]
  exact ⟨v ++ untok ts, by simp [Tok.text]⟩

theorem component_of_broken (hno : NoKeyword (propertyTokens (s ++ t))) {componentType : ComponentType}
    {type : PropertyType} {k : Str} {q : Parsed}
    (hq : parseProperty (propertyText componentType (s ++ '_' :: 'x' :: z) type k) = some q) :
    s ++ ['_', 'x'] <+: q.component.type ++ '/' :: q.component.name := by
  obtain ⟨a, b, v, ts, rfl, hs, ha, hto⟩ := propertyTokens_broken hexact z
  obtain ⟨comp, key, hp, hc, -, hco, -⟩ := parseProperty_eq_some.mp hq
  rw [hs] at hno
  -- No keyword stands in front of the broken word, and that word is none.
  have ho : ∀ x y, propertyTokens a = x ++ y → y ≠ [] → ∀ r,
      atKeyword (y ++ .word (b ++ '_' :: 'x' :: v) :: r) = false := by
    intro x y hxy hy r
    rw [← not_eq_true, atKeyword_iff]
    rintro ⟨type', rest, heq⟩
    match y, hy with
    | [u], _ =>
      have hw : b ++ '_' :: 'x' :: v = type'.text :=
        Tok.word.inj (cons.inj (cons.inj heq).2).1
      exact underscore_not_mem_type type' (by rw [← hw]; simp)
    | u :: u' :: y, _ =>
      have hkey : atKeyword (u :: u' :: y ++ propertyTokens (b ++ t)) = true := by
        obtain ⟨rfl, ht⟩ := cons.inj heq
        obtain ⟨rfl, -⟩ := cons.inj ht
        exact atKeyword_iff.mpr ⟨type', _, rfl⟩
      rw [hno x _ (by rw [hxy, append_assoc])] at hkey
      cases hkey
  have hsp : ∀ r, ∃ ws, (spanBefore atKeyword (propertyTokens a ++ .word (b ++ '_' :: 'x' :: v) :: r)).1 =
      propertyTokens a ++ .word (b ++ '_' :: 'x' :: v) :: ws := by
    intro r
    rw [spanBefore_over _ _ _ fun x y hxy hy => ho x y hxy hy r, spanBefore]
    exact ⟨_, rfl⟩
  have hsa : comp ++ item q.type key =
      propertyTokens a ++ .word (b ++ '_' :: 'x' :: v) :: (ts ++ item type (keyTokens type k)) := by
    rw [propertyTokens_propertyText, hto] at hp
    have ht := (append_inj hp rfl).2
    rw [← ht]
    simp
  obtain ⟨ws, hws⟩ := hsp (ts ++ item type (keyTokens type k))
  rw [← hsa, hc.span] at hws
  have hpr := untok_prefix comp
  rw [← hco] at hpr
  refine List.IsPrefix.trans ?_ hpr
  have hc' : comp = propertyTokens a ++ .word (b ++ '_' :: 'x' :: v) :: ws := hws
  rw [hc', untok_append, ha]
  exact ⟨v ++ untok ws, by simp [Tok.text]⟩

end

theorem captured_broken {id : Str} (ts : List Tok) (h : keywordSafe id = false ∨ '\x00' ∈ id) :
    ∃ s d t v, id = s ++ d :: t ∧ '\x00' ∉ s ∧ hexMatch ('x' :: v) = none ∧
      (d = '\x00' ∨ ∃ c t', t = c :: t' ∧ c ≠ 'x') ∧
      untok (spanBefore atUpperKeyword (envVarTokens (wordify id) ++ .sep '_' :: .word (upperType type) :: ts)).1 =
        wordify s ++ '_' :: 'x' :: v := by
  cases hsa : keywordSafe id with
  | true =>
    obtain ⟨s, t, rfl, hs⟩ := eq_append_cons_of_mem (h.resolve_left (by simp [hsa]))
    refine ⟨s, '\x00', t, '_' :: wordify t, rfl, hs, hexMatch_nul _, Or.inl rfl, ?_⟩
    rw [component_of_safe _ type ts hsa]
    exact (exact_of_no_skip _ _).trans (wordify_nul s t)
  | false =>
    obtain ⟨s, c, w, t, rfl, hw, hc⟩ := component_of_unsafe id (.word (upperType type) :: ts) hsa
    by_cases hmem : '\x00' ∈ s
    · obtain ⟨s₁, s₂, rfl, hs₁⟩ := eq_append_cons_of_mem hmem
      refine ⟨s₁, '\x00', s₂ ++ c :: (w ++ t), '_' :: wordify s₂ ++ '_' :: 'x' :: hexEncoded c, by simp,
        hs₁, hexMatch_nul _, Or.inl rfl, ?_⟩
      rw [hc, wordify_nul]
      simp
    · refine ⟨s, c, w ++ t, hexEncoded c, rfl, hmem, hexMatch_open (isHex_hexEncoded), Or.inr ?_, hc⟩
      unfold isUpperKeyword at hw
      rw [or_eq_true, decide_eq_true_eq, decide_eq_true_eq] at hw
      rcases hw with rfl | rfl
      · exact ⟨'C', _, rfl, by decide⟩
      · exact ⟨'E', _, rfl, by decide⟩

end Collector.Discovery
