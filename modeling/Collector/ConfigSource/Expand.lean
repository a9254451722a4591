import Collector.ConfigSource.Resolve

/-!
# Expansion without config sources

`resolveStringValue` is meant to do what `os.Expand` does. Both loops are `render`, with other readers of the text after
a `$`.
-/

namespace Collector.ConfigSource

open Lib Strings Confmap List

variable (mapping env : Str → Str) {s : Str} (ext : Externals) (t : Str)

def shellToken (mapping : Str → Str) (t : Str) : Str × Nat :=
  let (name, w) := getShellName t
  (if name = [] ∧ w > 0 then [] else if name = [] then ['$'] else mapping name, w)

/-- The reader of `resolveStringValue` where the text after a `$` names no config source. -/
def envToken (env : Str → Str) (t : Str) : Str × Nat :=
  let e := expandableAt false t
  (osExpandEnv env e.content e.consumed, e.consumed)

/-! ## The loops -/

theorem osExpandLoop_eq (skip : Nat) (pending : Str) (buf : Option Str) (rest : Str) :
    osExpandLoop mapping skip pending buf rest =
      buf.getD [] ++ pending ++ render '$' (shellToken mapping) skip rest := by
  induction rest generalizing skip pending buf with
  | nil => cases buf <;> simp [osExpandLoop, render]
  | cons c rest ih =>
    cases skip with
    | succ skip => simpa [osExpandLoop, render] using ih skip pending buf
    | zero =>
      rw [osExpandLoop, render]
      by_cases hc : c = '$' ∧ rest ≠ []
      · rw [if_pos hc, if_pos hc]
        rcases hs : getShellName rest with ⟨name, w⟩
        simp only [shellToken, hs]
        split_ifs <;> simp [ih, hc.1]
      · simp [if_neg hc, ih]

theorem osExpand_eq (s : Str) (mapping : Str → Str) : osExpand s mapping = render '$' (shellToken mapping) 0 s := by
  simp [osExpand, osExpandLoop_eq]

theorem resolveStringLoop_eq (hdd : ext.ddBackwardCompatible = false)
    (retrieve : Str → Str → History → Res Value × History) (skip : Nat) (pending : Str)
    (buf : Option Str) (rest : Str) (h : History)
    (hn : ∀ t ∈ markedTails '$' (fun t => (expandableAt false t).consumed) skip rest,
      (expandableAt false t).cfgSrcName = []) :
    resolveStringLoop ext retrieve skip pending buf [] rest h =
      (⟨.str (buf.getD [] ++ pending ++ render '$' (envToken ext.env) skip rest), none, none⟩, h) := by
  induction rest generalizing skip pending buf with
  | nil => cases buf <;> simp [resolveStringLoop, render, mergeCloseFuncs]
  | cons c rest ih =>
    cases skip with
    | succ skip =>
      simpa [resolveStringLoop, render] using ih skip pending buf (by simpa [markedTails] using hn)
    | zero =>
      rw [markedTails] at hn
      rw [resolveStringLoop, render]
      by_cases hc : c = '$' ∧ rest ≠ []
      · rw [if_pos hc] at hn
        have hna := hn rest mem_cons_self
        simp only [if_pos hc, hdd, hna, if_true]
        rw [ih _ _ _ (fun t ht => hn t (mem_cons_of_mem _ ht))]
        simp [envToken]
      · rw [if_neg hc] at hn
        simp only [if_neg hc]
        rw [ih _ _ _ hn]
        simp

theorem resolveStringValue_eq (srcs : Sources) (fuel : Nat) (s : Str) (h : History)
    (hdd : ext.ddBackwardCompatible = false) (hn : NoConfigSource false s) :
    resolveStringValue ext srcs fuel s h = (⟨.str (render '$' (envToken ext.env) 0 s), none, none⟩, h) := by
  cases fuel with
  | zero => rw [resolveStringValue, resolveStringLoop_eq ext hdd _ 0 [] none s h hn]; rfl
  | succ fuel => rw [resolveStringValue, resolveStringLoop_eq ext hdd _ 0 [] none s h hn]; rfl

/-! ## The two readers -/

theorem takeWhile_noSpace (s : Str) : ' ' ∉ s.takeWhile isAlphaNum := by
  intro h
  exact absurd (mem_takeWhile_imp h) (by decide)

theorem scanTokenName_some (s : Str) (i k : Nat) :
    scanTokenName s i (some k) = (i + (s.takeWhile isAlphaNum).length, some k) := by
  induction s generalizing i with
  | nil => simp [scanTokenName]
  | cons c s ih =>
    by_cases hc : isAlphaNum c = true
    · simp [scanTokenName, hc, ih]; omega
    · simp [scanTokenName, hc]

theorem scanTokenName_none (s : Str) (i : Nat) :
    scanTokenName s i none = (i + (s.takeWhile isAlphaNum).length, none) ∨
    (s[(s.takeWhile isAlphaNum).length]? = some '/' ∧ ∃ n, (s.takeWhile isAlphaNum).length < n ∧
        scanTokenName s i none = (i + n, some (i + (s.takeWhile isAlphaNum).length))) := by
  induction s generalizing i with
  | nil => simp [scanTokenName]
  | cons c s ih =>
    by_cases hc : isAlphaNum c = true
    · rcases ih (i + 1) with h | ⟨hget, n, hn, h⟩
      · left; simp [scanTokenName, hc, h]; omega
      · right
        refine ⟨by simpa [hc] using hget, n + 1, by simp [hc]; omega, ?_⟩
        simp [scanTokenName, hc, h]; omega
    · by_cases hs : c = '/'
      · right
        subst hs
        refine ⟨by simp [hc], (s.takeWhile isAlphaNum).length + 1, by simp [hc], ?_⟩
        simp [scanTokenName, hc, scanTokenName_some]; omega
      · left; simp [scanTokenName, hc, hs]

theorem getTokenName_plain (h : s.head?.any isShellSpecialVar = false) :
    getTokenName s = (s.takeWhile isAlphaNum, (s.takeWhile isAlphaNum).length) ∨
    ∃ n, 0 < n ∧ s[n]? = some ':' ∧ getTokenName s = (s.take n, n) := by
  have ht : s.take (s.takeWhile isAlphaNum).length = s.takeWhile isAlphaNum :=
    (prefix_iff_eq_take.mp ( takeWhile_prefix _)).symm
  rw [getTokenName, h, if_neg (by simp)]
  rcases scanTokenName_none s 0 with hs | ⟨_, n, hn, hs⟩
  · left; simp [hs, ht]
  · simp only [hs, Nat.zero_add]
    by_cases hc : s[n]? = some ':'
    · right; exact ⟨n, by omega, hc, by simp [hc]⟩
    · left; simp [hc, ht]

def bareName (t : Str) : Str × Nat :=
  if t.head?.any isShellSpecialVar then (t.take 1, 1)
  else (t.takeWhile isAlphaNum, (t.takeWhile isAlphaNum).length)

theorem getShellName_bare (hne : t ≠ []) (hb : t.head? ≠ some '{') : getShellName t = bareName t := by
  obtain ⟨c, t, rfl⟩ := exists_cons_of_ne_nil hne
  have hc : c ≠ '{' := by simpa using hb
  rw [getShellName]
  · simp [bareName]; rfl
  · intro _ _ h; exact absurd h hc
  · intro h; exact absurd h hc

theorem getShellName_bracket (hb : t.head? = some '{') : getShellName t = scanToClosingBracket t := by
  obtain ⟨t, rfl⟩ := head?_eq_some_iff.mp hb
  rw [getShellName.eq_def]
  split
  · rename_i c t' he
    simp only [cons.injEq, true_and] at he
    split_ifs with hs
    · have hc : c ≠ '}' := by rintro rfl; revert hs; decide
      simp [scanToClosingBracket, he, cut, hc]
    · rfl
  · rfl
  · rename_i c t' h1 h2 he
    simp only [cons.injEq] at he
    exact absurd he.1.symm h2
  · rename_i he; simp at he

/-- The bare syntax reads the name of `os.Expand`, unless a `:` follows the `$`. -/
theorem getBareExpandableContent_eq (hc : t.head? ≠ some ':') (hna : (getBareExpandableContent t).cfgSrcName = []) :
    getBareExpandableContent t = ⟨(bareName t).1, (bareName t).2, []⟩ := by
  by_cases hs : t.head?.any isShellSpecialVar = true
  · -- A special variable has a name, so no `:` follows it.
    obtain ⟨c, t, rfl⟩ : ∃ c t', t = c :: t' := by
      cases t with
      | nil => simp at hs
      | cons c t => exact ⟨c, t, rfl⟩
    simp only [getBareExpandableContent, getTokenName, if_pos hs] at hna ⊢
    split_ifs at hna with hn
    · simp at hna
    · rw [if_neg hn, bareName, if_pos hs]
  · simp only [Bool.not_eq_true] at hs
    have hb : bareName t = (t.takeWhile isAlphaNum, (t.takeWhile isAlphaNum).length) := by
      simp [bareName, hs]
    rcases getTokenName_plain hs with htok | ⟨n, hn, hget, htok⟩
    · simp only [getBareExpandableContent, htok, hb] at hna ⊢
      split at hna
      · -- The name before the `:` is empty, so the `:` is the first character.
        rename_i hget
        simp only at hna
        rw [hna] at hget
        exact absurd (by simpa [head?_eq_getElem?] using hget) hc
      · rename_i hget; simp [hget]
    · simp only [getBareExpandableContent, htok, hget, if_true] at hna
      have : t = [] := by simpa [show n ≠ 0 by omega] using hna
      simp [this] at hget

/-- `$` stands for itself, and every other name, less the spaces around it, for its variable. -/
def envMapping (env : Str → Str) (name : Str) : Str :=
  if name = ['$'] then ['$'] else getenv env (trim name)

/-- The mapping where the spaces go first, so that ` $ ` is the name `$` too. -/
def trimmedMapping (env : Str → Str) (name : Str) : Str :=
  if trim name = ['$'] then ['$'] else getenv env (trim name)

theorem expandableAt_dollar : expandableAt false ('$' :: t) = ⟨['$'], 1, []⟩ := by
  simp [expandableAt]

theorem expandableAt_bracket (hb : t.head? = some '{') : expandableAt false t = getBracketedExpandableContent t := by
  obtain ⟨t, rfl⟩ := head?_eq_some_iff.mp hb
  rfl

theorem expandableAt_bare (hd : t.head? ≠ some '$') (hb : t.head? ≠ some '{') :
    expandableAt false t = getBareExpandableContent t := by
  rw [expandableAt.eq_def]
  split
  · simp at hd
  · simp at hb
  · rfl

theorem scanToClosingBracket_pos : 0 < (scanToClosingBracket t).2 := by
  rw [scanToClosingBracket.eq_def]
  split <;> simp

theorem getBracketedExpandableContent_eq (hn : (getBracketedExpandableContent t).cfgSrcName = []) :
    getBracketedExpandableContent t = ⟨trim (scanToClosingBracket t).1, (scanToClosingBracket t).2, []⟩ := by
  simp only [getBracketedExpandableContent] at hn ⊢
  split at hn
  · split at hn
    · rename_i hl; simp only at hn; simp [hl, hn]
    · rename_i hl; simp [hl]
  · rfl

theorem bareName_noSpace : ' ' ∉ (bareName t).1 := by
  rw [bareName]
  split
  · cases t with
    | nil => simp
    | cons c t =>
      rename_i hs
      have hc : ' ' ≠ c := by rintro rfl; simp [isShellSpecialVar] at hs
      simpa using hc
  · exact takeWhile_noSpace t

theorem envToken_eq (t : Str) (hne : t ≠ []) (hc : t.head? ≠ some ':')
    (hna : (expandableAt false t).cfgSrcName = []) :
    envToken env t = shellToken (trimmedMapping env) t := by
  by_cases hd : t.head? = some '$'
  · obtain ⟨t, rfl⟩ := head?_eq_some_iff.mp hd
    have hs : getShellName ('$' :: t) = (['$'], 1) := by
      rw [getShellName_bare _ (by simp) (by simp)]; simp [bareName, isShellSpecialVar]
    simp [envToken, shellToken, hs, expandableAt_dollar, osExpandEnv, trimmedMapping,
      trim_of_noSpace ['$'] (by decide)]
  by_cases hb : t.head? = some '{'
  · rw [expandableAt_bracket t hb] at hna
    have hpos := scanToClosingBracket_pos t
    simp only [envToken, shellToken, expandableAt_bracket t hb, getShellName_bracket t hb,
      getBracketedExpandableContent_eq t hna, osExpandEnv, trimmedMapping, Prod.mk.injEq, and_true]
    by_cases hn : (scanToClosingBracket t).1 = []
    · simp [hn, hpos, trim]
    · by_cases ht : trim (scanToClosingBracket t).1 = []
      · simp [hn, ht, hpos, getenv]
      · simp [hn, ht]
  · rw [expandableAt_bare t hd hb] at hna
    have htr := trim_of_noSpace _ (bareName_noSpace t)
    simp only [envToken, shellToken, expandableAt_bare t hd hb, getShellName_bare t hne hb,
      getBareExpandableContent_eq t hc hna, osExpandEnv, trimmedMapping, htr,
      Prod.mk.injEq, and_true]
    by_cases hn : (bareName t).1 = []
    · simp [hn]
    · simp [hn]

def PaddedDollar (t : Str) : Prop :=
  t.head? = some '{' ∧ (scanToClosingBracket t).1 ≠ ['$'] ∧ trim (scanToClosingBracket t).1 = ['$']

theorem shellToken_envMapping {t : Str} (hne : t ≠ []) :
    (shellToken (envMapping env) t).2 = (shellToken (trimmedMapping env) t).2 ∧
    (¬ PaddedDollar t → (shellToken (envMapping env) t).1 = (shellToken (trimmedMapping env) t).1) ∧
    (PaddedDollar t → (shellToken (envMapping env) t).1 = getenv env ['$'] ∧
      (shellToken (trimmedMapping env) t).1 = ['$']) := by
  refine ⟨rfl, ?_, ?_⟩
  · intro hp
    have hmap : envMapping env (getShellName t).1 = trimmedMapping env (getShellName t).1 := by
      by_cases hb : t.head? = some '{'
      · rw [getShellName_bracket t hb, envMapping, trimmedMapping]
        by_cases hd : (scanToClosingBracket t).1 = ['$']
        · simp [hd, trim_of_noSpace ['$'] (by decide)]
        · have : trim (scanToClosingBracket t).1 ≠ ['$'] := fun ht => hp ⟨hb, hd, ht⟩
          simp [hd, this]
      · rw [getShellName_bare t hne hb, envMapping, trimmedMapping, trim_of_noSpace _ (bareName_noSpace t)]
    simp [shellToken, hmap]
  · rintro ⟨hb, hd, ht⟩
    have hn : (scanToClosingBracket t).1 ≠ [] := by
      intro hn; rw [hn] at ht; simp [trim] at ht
    simp [shellToken, getShellName_bracket t hb, hn, envMapping, trimmedMapping, hd, ht]

/-! ## When the expansion is that of `os.Expand` -/

def firstBareColon (s : Str) : Option Str := (dollarTails false s).find? fun t => t.head? == some ':'

def NoPaddedDollar (s : Str) : Prop := ∀ t ∈ dollarTails false s, ¬ PaddedDollar t

theorem firstBareColon_none (h : firstBareColon s = none) : ∀ t ∈ dollarTails false s, t.head? ≠ some ':' := by
  simpa [firstBareColon] using h

theorem firstBareColon_some {t : Str} (h : firstBareColon s = some t) : t.head? = some ':' := by
  simpa using find?_some h

theorem envToken_colon {t : Str} (hc : t.head? = some ':') : envToken env t = (getenv env t, t.length) := by
  obtain ⟨t, rfl⟩ := head?_eq_some_iff.mp hc
  have htok : getTokenName (':' :: t) = ([], 0) := by
    simp [getTokenName, isShellSpecialVar, scanTokenName, isAlphaNum]
  rw [envToken, expandableAt_bare _ (by simp) (by simp)]
  simp [getBareExpandableContent, htok, osExpandEnv]

theorem shellToken_colon {t : Str} (hc : t.head? = some ':') : shellToken mapping t = (['$'], 0) := by
  obtain ⟨t, rfl⟩ := head?_eq_some_iff.mp hc
  have hn : getShellName (':' :: t) = ([], 0) := by
    rw [getShellName_bare _ (by simp) (by simp)]
    simp [bareName, isShellSpecialVar, isAlphaNum]
  simp [shellToken, hn]

theorem render_trimmedMapping_iff (hno : NoConfigSource false s) :
    render '$' (envToken env) 0 s = render '$' (shellToken (trimmedMapping env)) 0 s ↔
      ∀ t, firstBareColon s = some t → getenv env t = '$' :: osExpand t (trimmedMapping env) := by
  have ha : ∀ t ∈ dollarTails false s, t.head? ≠ some ':' → envToken env t = shellToken (trimmedMapping env) t :=
    fun t ht hc => envToken_eq env t (markedTails_ne_nil _ _ _ _ t ht) hc (hno t ht)
  cases hfi : firstBareColon s with
  | none =>
    have hco := firstBareColon_none hfi
    have := render_congr _ _ _ _ _ _ fun t ht => ⟨ha t ht (hco t ht), rfl⟩
    simpa using this
  | some t =>
    have hc := firstBareColon_some hfi
    obtain ⟨a, hf, hg⟩ := render_first '$' (envToken env) (shellToken (trimmedMapping env))
      (fun t => (expandableAt false t).consumed) _ 0 s t hfi
      (fun t ht hn => ⟨ha t ht (by simpa using hn), rfl⟩)
    rw [hf, hg, envToken_colon env hc, shellToken_colon _ hc, render_skip]
    simp [render, osExpand_eq]

def dollarEnv (name : Str) : Str := if name = ['$'] then ['$'] else []

theorem envMapping_dollarEnv : envMapping dollarEnv = trimmedMapping dollarEnv := by
  funext name
  rw [envMapping, trimmedMapping]
  by_cases ht : trim name = ['$']
  · simp [ht, getenv, dollarEnv]
  · have hn : name ≠ ['$'] := by rintro rfl; exact ht (trim_of_noSpace _ (by decide))
    simp [ht, hn]

theorem render_envMapping_iff (hn : NoConfigSource false s) :
    (∀ env, render '$' (envToken env) 0 s = render '$' (shellToken (envMapping env)) 0 s) ↔
      firstBareColon s = none ∧ NoPaddedDollar s := by
  have hne : ∀ t ∈ dollarTails false s, t ≠ [] := fun t ht => markedTails_ne_nil _ _ _ _ t ht
  constructor
  · intro heq
    have hf : firstBareColon s = none := by
      have heq := heq dollarEnv
      rw [envMapping_dollarEnv, render_trimmedMapping_iff dollarEnv hn] at heq
      cases hf : firstBareColon s with
      | none => rfl
      | some t =>
        have ht : t ≠ ['$'] := by rintro rfl; simpa using firstBareColon_some hf
        simpa [getenv, dollarEnv, ht] using heq t hf
    refine ⟨hf, ?_⟩
    -- In the empty environment a padded `$` stands for `$` in one text and for nothing in the other.
    intro t ht hp
    have htok : ∀ t ∈ dollarTails false s, envToken (fun _ => []) t = shellToken (trimmedMapping fun _ => []) t :=
      fun t ht => envToken_eq _ t (hne t ht) (firstBareColon_none hf t ht) (hn t ht)
    have hlen := (render_length '$' (envToken fun _ => []) (shellToken (envMapping fun _ => []))
      (fun t => (expandableAt false t).consumed) 0 s ?_).2 ⟨t, ht, ?_⟩
    · rw [heq fun _ => []] at hlen
      exact absurd hlen (lt_irrefl _)
    · intro t ht
      obtain ⟨hw, hs, hpad⟩ := shellToken_envMapping (fun _ => []) (hne t ht)
      refine ⟨rfl, by rw [hw, ← htok t ht]; rfl, ?_⟩
      rw [htok t ht]
      by_cases hp : PaddedDollar t
      · rw [(hpad hp).1]; simp [getenv]
      · rw [hs hp]
    · obtain ⟨h1, h2⟩ := (shellToken_envMapping (fun _ => []) (hne t ht)).2.2 hp
      rw [htok t ht, h1, h2]; simp [getenv]
  · rintro ⟨hf, hpad⟩ env
    refine render_congr _ _ _ _ _ _ fun t ht => ⟨?_, rfl⟩
    obtain ⟨hw, hs, _⟩ := shellToken_envMapping env (hne t ht)
    rw [envToken_eq env t (hne t ht) (firstBareColon_none hf t ht) (hn t ht)]
    exact (Prod.ext (hs (hpad t ht)) hw).symm

/-- A string expands as under `os.Expand` just if no reference is `$:`, or a variable makes up for the lost rest.
Where only the exact name `$` counts as `$`, there is no padded `${ $ }` either. -/
theorem resolveStringValue_osExpand_iff (ext : Externals) (srcs : Sources) (fuel : Nat) (s : Str)
    (h : History) (hdd : ext.ddBackwardCompatible = false) (hnone : NoConfigSource false s) :
    (∀ env, resolveStringValue { ext with env := env } srcs fuel s h =
        (⟨.str (osExpand s (trimmedMapping env)), none, none⟩, h) ↔
      ∀ t, firstBareColon s = some t → getenv env t = '$' :: osExpand t (trimmedMapping env)) ∧
    ((∀ env, resolveStringValue { ext with env := env } srcs fuel s h =
        (⟨.str (osExpand s (envMapping env)), none, none⟩, h)) ↔
      firstBareColon s = none ∧ NoPaddedDollar s) := by
  have hrun : ∀ env, resolveStringValue { ext with env := env } srcs fuel s h =
      (⟨.str (render '$' (envToken env) 0 s), none, none⟩, h) :=
    fun env => resolveStringValue_eq { ext with env := env } srcs fuel s h hdd hnone
  simp only [hrun, Prod.mk.injEq, Res.mk.injEq, Value.str.injEq, and_true]
  refine ⟨fun env => ?_, ?_⟩
  · rw [osExpand_eq s]
    exact render_trimmedMapping_iff env hnone
  · simp only [osExpand_eq]
    exact render_envMapping_iff hnone

theorem resolveStringValue_osExpand_iff_path : NoConfigSource false "a$\x7bHOME\x7d/$PATH$" ∧
    resolveStringValue plainExternals noSources 0 "a$\x7bHOME\x7d/$PATH$" [] =
      (⟨.str (osExpand "a$\x7bHOME\x7d/$PATH$" (trimmedMapping plainExternals.env)), none, none⟩, []) := by
  have hn : NoConfigSource false "a$\x7bHOME\x7d/$PATH$" := by intro t ht; revert t; decide
  refine ⟨hn, ((resolveStringValue_osExpand_iff plainExternals noSources 0 _ [] rfl hn).1 plainExternals.env).mpr ?_⟩
  rw [show firstBareColon "a$\x7bHOME\x7d/$PATH$" = none by decide]
  simp

/-- `$:foo` names no config source, and comes out as nothing. -/
theorem resolveStringValue_colon_lost : NoConfigSource false "$:foo" ∧
    resolveStringValue plainExternals noSources 0 "$:foo" [] = (⟨.str [], none, none⟩, []) ∧
    osExpand "$:foo" (trimmedMapping plainExternals.env) = "$:foo" ∧
    osExpand "$:foo" (envMapping plainExternals.env) = "$:foo" := by
  refine ⟨by intro t ht; revert t; decide, ?_, by decide, by decide⟩
  rw [resolveStringValue_eq plainExternals noSources 0 _ [] rfl (by intro t ht; revert t; decide)]
  have : render '$' (envToken plainExternals.env) 0 "$:foo" = [] := by decide
  rw [this]

end Collector.ConfigSource
