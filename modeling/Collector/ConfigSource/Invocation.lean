import Collector.ConfigSource.Loop

/-!
# Invocations

`getBracketedExpandableContent` and `getBareExpandableContent` find the name that is looked up, and
`parseCfgSrcInvocation` finds a name, a selector and parameters in the same text. For a confmap provider, a URI is put
together again.
-/

namespace Collector.ConfigSource

open Lib Strings List Option

variable {s after pre post : Str} {params : Option Fields} {req : Request}

/-! ## The name that is parsed -/

/-- The name that `parseCfgSrcInvocation` returns, also with an error in the parameters, or none without a selector. -/
def parsedCfgSrcName (s : Str) : Option Str := (cut ':' s).map fun parts => trim parts.1

variable {ext : Externals}

def selectorText (afterCfgSrcName : Str) : Str :=
  match cut '\n' afterCfgSrcName with
  | some (first, _) => first
  | none =>
    match cut '?' afterCfgSrcName with
    | some (first, _) => first
    | none => afterCfgSrcName

theorem parseCfgSrcInvocation_selector {first name selector : Str}
    (hcut : cut ':' s = some (first, after)) (h : parseCfgSrcInvocation ext s = .ok (name, selector, params)) :
    name = trim first ∧ selector = trim (selectorText after) := by
  unfold parseCfgSrcInvocation at h
  unfold selectorText
  rw [hcut] at h
  dsimp only at h
  cases hl : cut '\n' after with
  | some p =>
    rw [hl] at h
    dsimp only at h
    split at h
    · cases h
      exact ⟨rfl, rfl⟩
    · split at h
      · cases h
      · cases h
        exact ⟨rfl, rfl⟩
  | none =>
    rw [hl] at h
    dsimp only at h ⊢
    cases hq : cut '?' after with
    | none =>
      rw [hq] at h
      cases h
      exact ⟨rfl, rfl⟩
    | some p =>
      rw [hq] at h
      dsimp only at h
      split at h
      · cases h
      · cases h
        exact ⟨rfl, rfl⟩

theorem parsedCfgSrcName_of_ok {name selector : Str}
    (h : parseCfgSrcInvocation ext s = .ok (name, selector, params)) : parsedCfgSrcName s = some name := by
  cases hcut : cut ':' s with
  | none => simp [parseCfgSrcInvocation, hcut] at h
  | some parts =>
    rw [parsedCfgSrcName, hcut, (parseCfgSrcInvocation_selector hcut h).1]
    rfl

def ExternalYaml (ext : Externals) : Prop := ∀ s err, ext.yamlUnmarshalMap s = .error err → ∃ text, err = .external text

theorem parseCfgSrcInvocation_missing (hext : ExternalYaml ext) (s : Str) :
    parseCfgSrcInvocation ext s = .error (.invalidSyntax s) ↔ parsedCfgSrcName s = none := by
  unfold parsedCfgSrcName parseCfgSrcInvocation
  cases cut ':' s with
  | none => simp
  | some parts =>
    simp only [map_some, reduceCtorEq, iff_false]
    split
    · split
      · simp
      · split
        · rename_i err herr
          obtain ⟨text, rfl⟩ := hext _ _ herr
          simp
        · simp
    · split
      · simp
      · split <;> simp

/-- `parseCfgSrcInvocation` finds a selector, and returns the name that is looked up. -/
structure NamesAgree (e : Expandable) : Prop where
  name : parsedCfgSrcName e.content = some e.cfgSrcName
  ok : ∀ ext name selector params, parseCfgSrcInvocation ext e.content = .ok (name, selector, params) →
    name = e.cfgSrcName
  selector : ∀ ext, ExternalYaml ext → parseCfgSrcInvocation ext e.content ≠ .error (.invalidSyntax e.content)

theorem namesAgree_iff (e : Expandable) : NamesAgree e ↔ parsedCfgSrcName e.content = some e.cfgSrcName := by
  refine ⟨NamesAgree.name, fun h => ⟨h, fun ext name selector params hok => ?_, fun ext hext hm => ?_⟩⟩
  · have hn := parsedCfgSrcName_of_ok hok
    rw [h] at hn
    exact (some.inj hn).symm
  · rw [parseCfgSrcInvocation_missing hext, h] at hm
    cases hm

/-! ## Bare invocations -/

def isNameChar (c : Char) : Bool := isShellSpecialVar c || isAlphaNum c || c = '/'

theorem scanTokenName_spec (s : Str) (i : Nat) (sep : Option Nat) :
    i ≤ (scanTokenName s i sep).1 ∧ (∀ c ∈ s.take ((scanTokenName s i sep).1 - i), isNameChar c = true) ∧
      ∀ k, (scanTokenName s i sep).2 = some k → sep = some k ∨ k ≤ (scanTokenName s i sep).1 := by
  induction s generalizing i sep with
  | nil => exact ⟨Nat.le_refl i, by simp, fun k hk => .inl hk⟩
  | cons c s ih =>
    -- The loop goes on by one character that may stand in a name.
    have hn (hc : isNameChar c = true) (sep : Option Nat) : i ≤ (scanTokenName s (i + 1) sep).1 ∧
          ∀ d ∈ (c :: s).take ((scanTokenName s (i + 1) sep).1 - i), isNameChar d = true := by
      obtain ⟨hle, hch, -⟩ := ih (i + 1) sep
      refine ⟨by omega, ?_⟩
      have hlen : (scanTokenName s (i + 1) sep).1 - i = (scanTokenName s (i + 1) sep).1 - (i + 1) + 1 := by omega
      rw [hlen, take_succ_cons, forall_mem_cons]
      exact ⟨hc, hch⟩
    unfold scanTokenName
    split
    · rename_i hc
      obtain ⟨hle, hch⟩ := hn (by simp [isNameChar, hc]) sep
      exact ⟨hle, hch, (ih (i + 1) sep).2.2⟩
    · split
      · rename_i hc
        obtain ⟨hle, hch⟩ := hn (by simp [isNameChar, hc.1]) (some i)
        refine ⟨hle, hch, fun k hk => ?_⟩
        rcases (ih (i + 1) (some i)).2.2 k hk with hik | hik
        · cases hik
          exact .inr hle
        · exact .inr hik
      · exact ⟨Nat.le_refl i, by simp, fun k hk => .inl hk⟩

theorem getTokenName_spec (s : Str) :
    (getTokenName s).1 = s.take (getTokenName s).2 ∧ ∀ c ∈ (getTokenName s).1, isNameChar c = true := by
  unfold getTokenName
  split_ifs with hsp
  · refine ⟨rfl, ?_⟩
    cases s with
    | nil => simp
    | cons c s =>
      have hc : isShellSpecialVar c = true := by simpa using hsp
      simp [isNameChar, hc]
  · obtain ⟨-, hch, hsep⟩ := scanTokenName_spec s 0 none
    split
    · rename_i i k hs
      simp only [hs, Nat.sub_zero] at hch hsep
      have hk : k ≤ i := (hsep k rfl).resolve_left (by simp)
      split
      · exact ⟨rfl, fun c hc => hch c ((take_prefix_take_left hk).subset hc)⟩
      · exact ⟨rfl, hch⟩
    · rename_i i hs
      simp only [hs, Nat.sub_zero] at hch
      exact ⟨rfl, hch⟩

theorem getBareExpandableContent_name (h : (getBareExpandableContent s).cfgSrcName ≠ []) :
    parsedCfgSrcName (getBareExpandableContent s).content = some (getBareExpandableContent s).cfgSrcName := by
  obtain ⟨ht, hch⟩ := getTokenName_spec s
  have hnot {c : Char} (hc : isNameChar c = false) : c ∉ (getTokenName s).1 := by
    intro hmem
    rw [hch c hmem] at hc
    cases hc
  unfold getBareExpandableContent at h ⊢
  dsimp only at h ⊢
  split_ifs with hco
  · have hs : (getTokenName s).1 ++ ':' :: s.drop ((getTokenName s).2 + 1) = s := by
      obtain ⟨hlt, hget⟩ := List.getElem?_eq_some_iff.mp hco
      rw [ht, ← hget, cons_getElem_drop_succ, take_append_drop]
    have hcut := cut_append (hnot (c := ':') (by decide)) (s.drop ((getTokenName s).2 + 1))
    rw [hs] at hcut
    unfold parsedCfgSrcName
    rw [hcut, map_some, trim_of_noSpace _ (hnot (by decide))]
  · simp [hco] at h

/-! ## Bracketed invocations -/

theorem getBracketedExpandableContent_name (h : (getBracketedExpandableContent s).cfgSrcName ≠ []) :
    parsedCfgSrcName (getBracketedExpandableContent s).content = some (getBracketedExpandableContent s).cfgSrcName ↔
      (getBracketedExpandableContent s).cfgSrcName.getLast? ≠ some ' ' := by
  unfold getBracketedExpandableContent at h ⊢
  dsimp only at h ⊢
  split
  · rename_i name rest hcut
    split
    · rename_i hl
      have hn : name ≠ [] := by simpa [hcut, hl] using h
      have hh : name.head? ≠ some ' ' := by
        have hc := head?_trim (scanToClosingBracket s).1
        rw [(cut_eq _ _ _ _ hcut).1, head?_append_of_ne_nil _ hn] at hc
        exact hc
      unfold parsedCfgSrcName
      rw [hcut, map_some, some.injEq, trim_eq_self_iff]
      exact and_iff_right hh
    · rename_i hs
      simp [hcut, hs] at h
  · rename_i hcut
    simp [hcut] at h

/-- The parsed name of a bare invocation is the one that is looked up. For a bracketed one it is so just if no space
stands before the `:`. -/
theorem namesAgree_iff_noSpace (s : Str) :
    ((getBareExpandableContent s).cfgSrcName ≠ [] → NamesAgree (getBareExpandableContent s)) ∧
    ((getBracketedExpandableContent s).cfgSrcName ≠ [] → (NamesAgree (getBracketedExpandableContent s) ↔
        (getBracketedExpandableContent s).cfgSrcName.getLast? ≠ some ' ')) := by
  rw [namesAgree_iff, namesAgree_iff]
  exact ⟨getBareExpandableContent_name, getBracketedExpandableContent_name⟩

/-- The source that is looked up has a name with a space at its end. -/
theorem not_namesAgree_spaced : (getBracketedExpandableContent "\x7bfile :x\x7d").cfgSrcName = "file " ∧
    parseCfgSrcInvocation plainExternals (getBracketedExpandableContent "\x7bfile :x\x7d").content =
      .ok ("file", "x", none) ∧
    ¬ NamesAgree (getBracketedExpandableContent "\x7bfile :x\x7d") := by
  have hn : (getBracketedExpandableContent "\x7bfile :x\x7d").cfgSrcName = "file " := by decide
  refine ⟨hn, by rfl, fun h => ?_⟩
  have hs := h.name
  rw [hn] at hs
  revert hs
  decide

/-! ## The URI for a provider -/

theorem parseCfgSrcInvocation_plain (ext : Externals) {first : Str} (hcut : cut ':' s = some (first, after))
    (hl : '\n' ∉ after) (hq : '?' ∉ after) :
    parseCfgSrcInvocation ext s = .ok (trim first, trim after, none) := by
  unfold parseCfgSrcInvocation
  simp only [hcut, (cut_none _ _).mpr hl, (cut_none _ _).mpr hq]

theorem selectorText_eq (h : ∀ c, c ≠ ' ' → c ∈ after → c ∈ selectorText after) : '\n' ∉ after ∧ '?' ∉ after := by
  have hl : '\n' ∉ after := by
    intro hmem
    have hsel := h '\n' (by decide) hmem
    unfold selectorText at hsel
    split at hsel
    · rename_i first rest hcut
      exact (cut_eq _ _ _ _ hcut).2 hsel
    · rename_i hcut
      exact (cut_none _ _).mp hcut hmem
  refine ⟨hl, fun hmem => ?_⟩
  have hsel := h '?' (by decide) hmem
  unfold selectorText at hsel
  rw [(cut_none _ _).mpr hl] at hsel
  simp only at hsel
  split at hsel
  · rename_i first rest hcut
    exact (cut_eq _ _ _ _ hcut).2 hsel
  · rename_i hcut
    exact (cut_none _ _).mp hcut hmem

structure Scheme where
  text : Str
  nonempty : text ≠ []
  trimmed : trim text = text
  noColon : ':' ∉ text
  noBracket : '}' ∉ text

namespace Scheme

variable (scheme : Scheme) (lead trail : Nat) (rest : Str)

def body : Str := List.replicate lead ' ' ++ (scheme.text ++ List.replicate trail ' ' ++ ':' :: rest)

def uri : Str := scheme.text ++ ':' :: trim rest

theorem trim_padded : trim (scheme.text ++ replicate trail ' ') = scheme.text := by
  obtain ⟨hh, hl⟩ := (trim_eq_self_iff _).mp scheme.trimmed
  obtain ⟨a, c, hac⟩ := eq_nil_or_concat scheme.text |>.resolve_left scheme.nonempty
  obtain ⟨d, b, hdb⟩ := exists_cons_of_ne_nil scheme.nonempty
  have hd : d ≠ ' ' := by simpa [hdb] using hh
  have hc : c ≠ ' ' := by simpa [hac] using hl
  unfold trim
  rw [hdb, cons_append, dropWhile_cons_of_neg (by simpa using hd), ← cons_append, ← hdb, hac,
    concat_eq_append, append_assoc, singleton_append, rdropWhile_append_cons a (by simpa using hc),
    rdropWhile_eq_nil_iff.mpr (fun x hx => by simpa using eq_of_mem_replicate hx)]

theorem trim_body : trim (scheme.body lead trail rest) =
      scheme.text ++ replicate trail ' ' ++ ':' :: rest.rdropWhile (· = ' ') := by
  obtain ⟨hh, -⟩ := (trim_eq_self_iff _).mp scheme.trimmed
  obtain ⟨d, b, hdb⟩ := exists_cons_of_ne_nil scheme.nonempty
  have hd : d ≠ ' ' := by simpa [hdb] using hh
  unfold trim body
  rw [dropWhile_append_of_pos (fun x hx => by simpa using eq_of_mem_replicate hx), hdb]
  rw [cons_append, cons_append, dropWhile_cons_of_neg (by simpa using hd), ← cons_append,
    ← cons_append, rdropWhile_append_cons _ (by decide)]

theorem cut_trim_body : cut ':' (trim (scheme.body lead trail rest)) =
      some (scheme.text ++ replicate trail ' ', rest.rdropWhile (· = ' ')) := by
  rw [trim_body]
  apply cut_append
  rw [mem_append, not_or]
  exact ⟨scheme.noColon, fun hmem => absurd (eq_of_mem_replicate hmem) (by decide)⟩

variable {rest}

theorem getBracketedExpandableContent_body (hr : '}' ∉ rest) (post : Str) :
    getBracketedExpandableContent ('{' :: (scheme.body lead trail rest ++ '}' :: post)) =
      ⟨trim (scheme.body lead trail rest), (scheme.body lead trail rest).length + 2,
        scheme.text ++ replicate trail ' '⟩ := by
  have hc : '}' ∉ scheme.body lead trail rest := by
    unfold body
    simp only [mem_append, mem_cons, mem_replicate, not_or]
    exact ⟨by simp, ⟨scheme.noBracket, by simp⟩, by decide, hr⟩
  have hs : scanToClosingBracket ('{' :: (scheme.body lead trail rest ++ '}' :: post)) =
      (scheme.body lead trail rest, (scheme.body lead trail rest).length + 2) := by
    unfold scanToClosingBracket
    rw [drop_one, tail_cons, cut_append hc]
    split
    · rename_i hcut
      cases hcut
    · rename_i hcut
      have hnil : scheme.body lead trail rest = [] := by simp_all
      simp [body] at hnil
    · simp_all
  have hl : (trim (scheme.body lead trail rest)).length > 1 := by
    have hpos := length_pos_iff.mpr scheme.nonempty
    rw [trim_body]
    simp only [length_append, length_cons]
    omega
  unfold getBracketedExpandableContent
  simp only [hs, cut_trim_body, if_pos hl]

end Scheme

def Asked (h h' : History) (req : Request) : Prop := h' = h ++ [.failed req] ∨ h' = h ++ [.retrieved h.length req]

theorem Asked.ne {h h' : History} (ha : Asked h h' req) : h' ≠ h := by
  rcases ha with rfl | rfl <;> simp

theorem Asked.unique {h h' : History} {req' : Request} (ha : Asked h h' req) (ha' : Asked h h' req') :
    req = req' := by
  rcases ha with rfl | rfl
  · rcases ha' with heq | heq
    · simpa using heq
    · simp at heq
  · rcases ha' with heq | heq
    · simp at heq
    · simpa using heq

theorem asked_retrieveFromProvider (provider : Provider) (cfgSrcName selector : Str) (h : History) :
    Asked h (retrieveFromProvider (some provider) cfgSrcName selector h).2
      (.provider (cfgSrcName ++ ':' :: selector)) := by
  unfold retrieveFromProvider
  dsimp only
  split
  · exact .inl rfl
  · split
    · exact .inr rfl
    · exact .inr rfl

theorem resolveStringValue_bracketed (ext : Externals) (srcs : Sources) (fuel : Nat) {body : Str} (h : History)
    (hpre : '$' ∉ pre) (hp : '$' ∉ post) {content cfgSrcName : Str}
    (hb : getBracketedExpandableContent ('{' :: (body ++ '}' :: post)) = ⟨content, body.length + 2, cfgSrcName⟩)
    (hn : cfgSrcName ≠ []) :
    (resolveStringValue ext srcs (fuel + 1) (pre ++ '$' :: '{' :: (body ++ '}' :: post)) h).2 =
      (retrieveConfigSourceData ext srcs (resolveStringValue ext srcs fuel) cfgSrcName content h).2 := by
  have hat : expandableAt ext.ddBackwardCompatible ('{' :: (body ++ '}' :: post)) =
      ⟨content, body.length + 2, cfgSrcName⟩ := hb
  have hd : ('{' :: (body ++ '}' :: post)).drop (body.length + 2) = post := by simp
  rcases hret : retrieveConfigSourceData ext srcs (resolveStringValue ext srcs fuel) cfgSrcName content h with ⟨r, h'⟩
  unfold resolveStringValue
  rw [resolveStringLoop_text hpre]
  cases herr : r.err with
  | some e => rw [resolveStringLoop_fail (by simp) hat hn hret herr]
  | none =>
    by_cases hall : body.length + 2 = ('{' :: (body ++ '}' :: post)).length ∧
        (none : Option Str).getD [] ++ ([] ++ pre) = []
    · rw [resolveStringLoop_whole (by simp) hat hn hret herr hall.1 hall.2]
    · rw [resolveStringLoop_splice (by simp) hat hn hret herr hall, resolveStringLoop_skip, hd,
        resolveStringLoop_end hp]

namespace Scheme

variable (scheme : Scheme) (lead trail : Nat) {rest : Str}

/-- The reference among plain text makes one request, which is for the whole URI. -/
def Forwarded (scheme : Scheme) (lead trail : Nat) (rest pre post : Str) : Prop :=
  ∀ ext srcs fuel h provider, srcs.configSources scheme.text = none →
    srcs.confmapProviders scheme.text = some (some provider) →
    Asked h (resolveStringValue ext srcs (fuel + 1)
      (pre ++ '$' :: '{' :: (scheme.body lead trail rest ++ '}' :: post)) h).2
      (.provider (scheme.uri rest))

def onlyProvider : Sources :=
  ⟨fun _ => none, fun name => if name = scheme.text then some (some fun _ _ => .ok (.ok .null)) else none⟩

theorem forwarded_of_plain (hl : '\n' ∉ rest) (hq : '?' ∉ rest) (hr : '}' ∉ rest)
    (hpre : '$' ∉ pre) (hpo : '$' ∉ post) : Forwarded scheme lead 0 rest pre post := by
  intro ext srcs fuel h provider hn hp
  have hcut := scheme.cut_trim_body lead 0 rest
  have hpa := parseCfgSrcInvocation_plain ext hcut (fun hmem => hl (mem_of_mem_rdropWhile hmem))
    (fun hmem => hq (mem_of_mem_rdropWhile hmem))
  rw [trim_padded, trim_rdropWhile] at hpa
  rw [resolveStringValue_bracketed ext srcs fuel h hpre hpo (scheme.getBracketedExpandableContent_body lead 0 hr post)
    (by simp [scheme.nonempty])]
  unfold retrieveConfigSourceData
  simp only [replicate_zero, append_nil, hn, hp, hpa]
  exact asked_retrieveFromProvider _ _ _ _

theorem asked_onlyProvider (hr : '}' ∉ rest) (hpre : '$' ∉ pre) (hpo : '$' ∉ post)
    (ha : Asked [] (resolveStringValue plainExternals scheme.onlyProvider 1
      (pre ++ '$' :: '{' :: (scheme.body lead trail rest ++ '}' :: post)) []).2 req) :
    trail = 0 ∧ req = .provider (scheme.text ++ ':' :: trim (selectorText (rest.rdropWhile (· = ' ')))) := by
  rw [resolveStringValue_bracketed _ _ 0 [] hpre hpo (scheme.getBracketedExpandableContent_body lead trail hr post)
    (by simp [scheme.nonempty])] at ha
  unfold retrieveConfigSourceData onlyProvider at ha
  simp only at ha
  by_cases ht : trail = 0
  · subst ht
    refine ⟨rfl, ?_⟩
    simp only [replicate_zero, append_nil, if_true] at ha
    split at ha
    · exact absurd rfl ha.ne
    · rename_i name selector params hp
      obtain ⟨rfl, rfl⟩ := parseCfgSrcInvocation_selector (scheme.cut_trim_body lead 0 rest) hp
      rw [trim_padded] at ha
      exact ha.unique (asked_retrieveFromProvider _ _ _ _)
  · have ho : scheme.text ++ replicate trail ' ' ≠ scheme.text := by simp [ht]
    simp only [if_neg ho] at ha
    exact absurd rfl ha.ne

/-- A bracketed reference hands the whole URI on just if no space stands before the first `:`, and the rest has
neither a newline nor a `?`. -/
theorem forwarded_iff (hrest : '}' ∉ rest) {pre post : Str} (hpre : '$' ∉ pre) (hpost : '$' ∉ post) :
    Forwarded scheme lead trail rest pre post ↔ trail = 0 ∧ '\n' ∉ rest ∧ '?' ∉ rest := by
  constructor
  · intro hf
    have ha := hf plainExternals scheme.onlyProvider 0 [] (fun _ _ => .ok (.ok .null)) rfl (by simp [onlyProvider])
    obtain ⟨ht, hreq⟩ := scheme.asked_onlyProvider lead trail hrest hpre hpost ha
    have hs : trim rest = trim (selectorText (rest.rdropWhile (· = ' '))) := by simpa [uri] using hreq
    have hsa : ∀ c, c ≠ ' ' → c ∈ rest.rdropWhile (· = ' ') → c ∈ selectorText (rest.rdropWhile (· = ' ')) := by
      intro c hc hmem
      apply mem_of_mem_trim
      rw [← hs]
      exact mem_trim hc (mem_of_mem_rdropWhile hmem)
    obtain ⟨hl, hq⟩ := selectorText_eq hsa
    have hb {c : Char} (hc : c ≠ ' ') (hmem : c ∈ rest) : c ∈ rest.rdropWhile (· = ' ') := by
      apply mem_of_mem_trim
      rw [trim_rdropWhile]
      exact mem_trim hc hmem
    exact ⟨ht, fun hmem => hl (hb (by decide) hmem), fun hmem => hq (hb (by decide) hmem)⟩
  · rintro ⟨rfl, hl, hq⟩
    exact scheme.forwarded_of_plain lead hl hq hrest hpre hpost

end Scheme

def httpScheme : Scheme := ⟨"http", by decide, by decide, by decide, by decide⟩

/-- The reference `${ http://host:80/a }` with text around it. -/
theorem forwarded_port : '}' ∉ "//host:80/a ".toList ∧ '$' ∉ "x".toList ∧
      Scheme.Forwarded httpScheme 1 0 "//host:80/a ".toList "x".toList "x".toList := by
  have hr : '}' ∉ "//host:80/a ".toList := by decide
  have ht : '$' ∉ "x".toList := by decide
  exact ⟨hr, ht, (httpScheme.forwarded_iff 1 0 hr ht ht).mpr (by decide)⟩

/-- The query of `${http://host?a=b}` does not reach the provider. -/
theorem not_forwarded_query :
    (resolveStringValue plainExternals httpScheme.onlyProvider 1 "$\x7bhttp://host?a=b\x7d" []).2 =
      [.retrieved 0 (.provider "http://host")] ∧
    ¬ Scheme.Forwarded httpScheme 0 0 "//host?a=b" [] [] := by
  refine ⟨by rfl, fun hf => ?_⟩
  have ha := hf plainExternals httpScheme.onlyProvider 0 [] (fun _ _ => .ok (.ok .null)) rfl rfl
  obtain ⟨-, hreq⟩ := httpScheme.asked_onlyProvider 0 0 (by decide) (by decide) (by decide) ha
  rw [Request.provider.injEq] at hreq
  revert hreq
  decide

end Collector.ConfigSource
