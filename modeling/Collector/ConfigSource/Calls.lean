import Collector.ConfigSource.Literal
import Collector.Confmap.Leaves

/-!
# The calls that a string makes

What comes out of a variable or a config source is appended to the buffer and not looked at again. The calls do not
depend on the values, as long as no `$` in a selector or a parameter asks for one.
-/

namespace Collector.ConfigSource

open Lib Strings Confmap Option

variable {m : Fields}

/-! ## The strings in a value -/

mutual
def expandedStrings : Value → List Str
  | .str s => [s]
  | .list vs => expandedElems vs
  | .map m => expandedFields m
  | _ => []

def expandedElems : List Value → List Str
  | [] => []
  | v :: vs => expandedStrings v ++ expandedElems vs

def expandedFields : Fields → List Str
  | [] => []
  | (_, v) :: m => expandedStrings v ++ expandedFields m
end

section
variable {resolveString resolveString' : ResolveString}

theorem mem_expandedElems {vs : List Value} {s : Str} : s ∈ expandedElems vs ↔ ∃ v ∈ vs, s ∈ expandedStrings v := by
  induction vs with
  | nil => simp [expandedElems]
  | cons v vs ih => rw [expandedElems, List.mem_append, ih, List.exists_mem_cons_iff]

theorem mem_expandedFields {s : Str} : s ∈ expandedFields m ↔ ∃ e ∈ m, s ∈ expandedStrings e.2 := by
  induction m with
  | nil => simp [expandedFields]
  | cons e m ih => rw [expandedFields, List.mem_append, ih, List.exists_mem_cons_iff]

theorem resolveEach_congr {ι γ : Type} {value : ι → Value} (add : List γ → ι → Value → List γ) {xs : List ι}
    (hval : ∀ x ∈ xs, ∀ h, resolveConfigValue resolveString (value x) h =
      resolveConfigValue resolveString' (value x) h) (acc : List γ) (closeFuncs : List (Option CloseFunc))
    (h : History) : resolveEach resolveString value add xs acc closeFuncs h =
      resolveEach resolveString' value add xs acc closeFuncs h := by
  induction xs generalizing acc closeFuncs h with
  | nil => rfl
  | cons x xs ih =>
    rw [List.forall_mem_cons] at hval
    simp only [resolveEach, hval.1, ih hval.2]

theorem resolveConfigValue_congr {v : Value} (h : History)
    (hsame : ∀ s ∈ expandedStrings v, ∀ h, resolveString s h = resolveString' s h) :
    resolveConfigValue resolveString v h = resolveConfigValue resolveString' v h := by
  induction v using Value.induct generalizing h with
  | str s =>
    rw [resolveConfigValue, resolveConfigValue]
    exact hsame s (by simp [expandedStrings]) h
  | list vs ih =>
    rw [expandedStrings] at hsame
    rw [resolveConfigValue, resolveConfigValue, resolveElems_eq, resolveElems_eq, resolveEach_congr]
    exact fun v hv h => ih v hv h fun s hs => hsame s (mem_expandedElems.mpr ⟨v, hv, hs⟩)
  | map m ih =>
    rw [expandedStrings] at hsame
    rw [resolveConfigValue, resolveConfigValue, resolveFields_eq, resolveFields_eq, resolveEach_congr]
    exact fun e he h => ih e he h fun s hs => hsame s (mem_expandedFields.mpr ⟨e, he, hs⟩)
  | _ =>
    rw [resolveConfigValue, resolveConfigValue]
    all_goals simp

theorem expandedStrings_of_mem_flattenFields {e : List Str × Value} (he : e ∈ flattenFields m) :
    ∀ s ∈ expandedStrings e.2, s ∈ expandedFields m := by
  refine flattenFields_induct (motive := fun m e => ∀ s ∈ expandedStrings e.2, s ∈ expandedFields m) ?_ ?_ ?_ he
  · intro k v m _ s hs
    exact mem_expandedFields.mpr ⟨_, List.mem_cons_self, hs⟩
  · intro k sub m e _ ih s hs
    refine mem_expandedFields.mpr ⟨_, List.mem_cons_self, ?_⟩
    rw [expandedStrings]
    exact ih s hs
  · intro x m e ih s hs
    rw [expandedFields]
    exact List.mem_append_right _ (ih s hs)

theorem expandedStrings_get {k s : Str} (h : s ∈ expandedStrings (get m k)) : s ∈ expandedFields m := by
  rw [Confmap.get] at h
  cases hf : find k (flatten m) with
  | none => simp [hf, expandedStrings] at h
  | some v =>
    rw [hf, getD_some] at h
    obtain ⟨e, he, heq⟩ := exists_of_mem_flatten (find_mem k v _ hf)
    cases heq
    exact expandedStrings_of_mem_flattenFields he s h

theorem resolveKeys_congr {conf : Fields}
    (hsame : ∀ s ∈ expandedFields conf, ∀ h, resolveString s h = resolveString' s h)
    (ks : List Str) (resolved : Fields) (closeFuncs : List (Option CloseFunc)) (h : History) :
    resolveKeys resolveString conf ks resolved closeFuncs h =
      resolveKeys resolveString' conf ks resolved closeFuncs h := by
  rw [resolveKeys_eq, resolveKeys_eq, resolveEach_congr]
  exact fun k _ h => resolveConfigValue_congr h fun s hs => hsame s (expandedStrings_get hs)

end

/-! ## Two runs that make the same calls -/

structure SameCalls (r r' : Res Value × History) : Prop where
  history : r.2 = r'.2
  ok : r.1.err = none ↔ r'.1.err = none

namespace SameCalls

variable {r r' r'' : Res Value × History}

theorem refl (r : Res Value × History) : SameCalls r r := ⟨rfl, Iff.rfl⟩

theorem symm (h : SameCalls r r') : SameCalls r' r := ⟨h.history.symm, h.ok.symm⟩

theorem trans (h : SameCalls r r') (h' : SameCalls r' r'') : SameCalls r r'' :=
  ⟨h.history.trans h'.history, h.ok.trans h'.ok⟩

end SameCalls

section
variable {ext ext' : Externals} {retrieve retrieve' : Str → Str → History → Res Value × History}

theorem sameCalls_splice (pending : Str) (buf : Option Str) (closeFuncs : List (Option CloseFunc)) {rest : Str}
    (hr : rest ≠ []) {e : Expandable} (he : expandableAt ext.ddBackwardCompatible rest = e)
    (hn : e.cfgSrcName ≠ [])
    {h h' : History} {r : Res Value} (hret : retrieve e.cfgSrcName e.content h = (r, h')) (herr : r.err = none) :
    SameCalls (resolveStringLoop ext retrieve 0 pending buf closeFuncs ('$' :: rest) h)
      (resolveStringLoop ext retrieve e.consumed [] (some (buf.getD [] ++ pending ++ spliced ext r.value))
        (appendClose closeFuncs r.close) rest h') := by
  subst he
  by_cases hall : (expandableAt ext.ddBackwardCompatible rest).consumed = rest.length ∧ buf.getD [] ++ pending = []
  · rw [resolveStringLoop_whole hr rfl hn hret herr hall.1 hall.2, resolveStringLoop_skip, hall.1,
      List.drop_length, resolveStringLoop_nil]
    exact ⟨rfl, Iff.rfl⟩
  · rw [resolveStringLoop_splice hr rfl hn hret herr hall]
    exact .refl _

theorem sameCalls_loop (hdd : ext.ddBackwardCompatible = ext'.ddBackwardCompatible) (skip : Nat)
    (rest pending pending' : Str)
    (buf buf' : Option Str) (closeFuncs closeFuncs' : List (Option CloseFunc)) (h : History)
    (hca : ∀ t ∈ markedTails '$' (fun t => (expandableAt ext.ddBackwardCompatible t).consumed) skip rest,
      ∀ e, expandableAt ext.ddBackwardCompatible t = e → e.cfgSrcName ≠ [] → ∀ h,
        SameCalls (retrieve e.cfgSrcName e.content h) (retrieve' e.cfgSrcName e.content h)) :
    SameCalls (resolveStringLoop ext retrieve skip pending buf closeFuncs rest h)
      (resolveStringLoop ext' retrieve' skip pending' buf' closeFuncs' rest h) := by
  induction skip, rest using scan_induct ext.ddBackwardCompatible
    generalizing pending pending' buf buf' closeFuncs closeFuncs' h with
  | nil skip =>
    rw [resolveStringLoop_skip, resolveStringLoop_skip skip, List.drop_nil, resolveStringLoop_nil,
      resolveStringLoop_nil]
    exact ⟨rfl, Iff.rfl⟩
  | skip n c rest ih =>
    rw [markedTails] at hca
    rw [resolveStringLoop, resolveStringLoop]
    exact ih _ _ _ _ _ _ h hca
  | text c rest hc ih =>
    rw [markedTails, if_neg hc] at hca
    rw [resolveStringLoop, if_neg hc, resolveStringLoop, if_neg hc]
    exact ih _ _ _ _ _ _ h hca
  | env rest e hr he hn ih =>
    rw [markedTails, if_pos ⟨rfl, hr⟩, he, List.forall_mem_cons] at hca
    rw [resolveStringLoop_env hr he hn, resolveStringLoop_env hr (hdd ▸ he) hn]
    exact ih _ _ _ _ _ _ h hca.2
  | invocation rest e hr he hn ih =>
    rw [markedTails, if_pos ⟨rfl, hr⟩, he, List.forall_mem_cons] at hca
    have he' : expandableAt ext'.ddBackwardCompatible rest = e := hdd ▸ he
    have hcal := hca.1 e he hn h
    rcases hret : retrieve e.cfgSrcName e.content h with ⟨r, h₁⟩
    rcases hret' : retrieve' e.cfgSrcName e.content h with ⟨r', h₁'⟩
    rw [hret, hret'] at hcal
    obtain rfl : h₁ = h₁' := hcal.history
    cases herr : r.err with
    | none =>
      have hl := sameCalls_splice pending buf closeFuncs hr he hn hret herr
      have hri := sameCalls_splice pending' buf' closeFuncs' hr he' hn hret' (hcal.ok.mp herr)
      exact hl.trans ((ih _ _ _ _ _ _ h₁ hca.2).trans hri.symm)
    | some err =>
      obtain ⟨e', herr'⟩ : ∃ e', r'.err = some e' := by
        rw [← ne_none_iff_exists']
        intro hno
        rw [hcal.ok.mpr hno] at herr
        cases herr
      rw [resolveStringLoop_fail hr he hn hret herr, resolveStringLoop_fail hr he' hn hret' herr']
      exact ⟨rfl, by simp [Res.fail]⟩

end

/-! ## Values that may differ -/

structure SameSources (srcs srcs' : Sources) : Prop where
  configSources : ∀ name, (srcs.configSources name).isSome = (srcs'.configSources name).isSome
  confmapProviders : ∀ name,
    (srcs.confmapProviders name).map Option.isSome = (srcs'.confmapProviders name).map Option.isSome

structure Answers (srcs : Sources) : Prop where
  configSources : ∀ name source, srcs.configSources name = some source →
    ∀ h selector params, ∃ v, source h selector params = .ok (.ok v)
  confmapProviders : ∀ name provider, srcs.confmapProviders name = some (some provider) →
    ∀ h uri, ∃ v, provider h uri = .ok (.ok v)

/-- There is no `$` in the selector or in a parameter of an invocation. -/
def PlainInvocation (ext : Externals) (cfgSrcInvocation : Str) : Prop :=
  ∀ name selector params, parseCfgSrcInvocation ext cfgSrcInvocation = .ok (name, selector, params) →
    '$' ∉ selector ∧ ∀ fields, params = some fields → ∀ s ∈ expandedFields fields, '$' ∉ s

def PlainInvocations (ext : Externals) (s : Str) : Prop :=
  ∀ t ∈ dollarTails ext.ddBackwardCompatible s, (expandableAt ext.ddBackwardCompatible t).cfgSrcName ≠ [] →
    PlainInvocation ext (expandableAt ext.ddBackwardCompatible t).content

section
variable {ext : Externals} (env env' : Str → Str)

theorem resolveParams_congr (ext : Externals) (srcs srcs' : Sources) {params : Option Fields}
    (hpa : ∀ fields, params = some fields →
      ∀ s ∈ expandedFields fields, '$' ∉ s) (fuel : Nat) (cfgSrcName cfgSrcInvocation : Str) (h : History) :
    resolveParams { ext with env := env } (resolveStringValue { ext with env := env } srcs fuel) cfgSrcName
        cfgSrcInvocation params h =
      resolveParams { ext with env := env' } (resolveStringValue { ext with env := env' } srcs' fuel) cfgSrcName
        cfgSrcInvocation params h := by
  cases params with
  | none => rfl
  | some fields =>
    have hsame : ∀ s ∈ expandedFields fields, ∀ h, resolveStringValue { ext with env := env } srcs fuel s h =
        resolveStringValue { ext with env := env' } srcs' fuel s h := by
      intro s hs h
      have hp := hpa fields rfl s hs
      rw [resolveStringValue_literal _ _ _ _ hp, resolveStringValue_literal _ _ _ _ hp]
    unfold resolveParams resolveConf
    simp only [resolveKeys_congr hsame]

theorem sameCalls_retrieveFromProvider {p p' : Option Provider} (hnil : p.isSome = p'.isSome)
    (hans : ∀ provider, p = some provider → ∀ h uri, ∃ v, provider h uri = .ok (.ok v))
    (hans' : ∀ provider, p' = some provider → ∀ h uri, ∃ v, provider h uri = .ok (.ok v)) (cfgSrcName selector : Str)
    (h : History) :
    SameCalls (retrieveFromProvider p cfgSrcName selector h) (retrieveFromProvider p' cfgSrcName selector h) := by
  cases p with
  | none =>
    obtain rfl : p' = none := by simpa using hnil
    exact .refl _
  | some provider =>
    obtain ⟨provider', rfl⟩ : ∃ provider', p' = some provider' := by
      rw [← isSome_iff_exists, ← hnil]
      rfl
    obtain ⟨v, hv⟩ := hans provider rfl h (cfgSrcName ++ ':' :: selector)
    obtain ⟨v', hv'⟩ := hans' provider' rfl h (cfgSrcName ++ ':' :: selector)
    unfold retrieveFromProvider
    simp only [hv, hv']
    exact ⟨rfl, Iff.rfl⟩

theorem sameCalls_retrieveFromSource {source source' : Source}
    (hans : ∀ h selector params, ∃ v, source h selector params = .ok (.ok v))
    (hans' : ∀ h selector params, ∃ v, source' h selector params = .ok (.ok v)) (cfgSrcName selector : Str)
    (params : Option Fields) (closeFuncs : List (Option CloseFunc)) (h : History) :
    SameCalls (retrieveFromSource source cfgSrcName selector params closeFuncs h)
      (retrieveFromSource source' cfgSrcName selector params closeFuncs h) := by
  obtain ⟨v, hv⟩ := hans h selector params
  obtain ⟨v', hv'⟩ := hans' h selector params
  unfold retrieveFromSource
  simp only [hv, hv']
  exact ⟨rfl, Iff.rfl⟩

variable {srcs srcs' : Sources} (hsame : SameSources srcs srcs') (hans : Answers srcs) (hans' : Answers srcs')
include hsame hans hans'

theorem sameCalls_retrieve {cfgSrcInvocation : Str} (hpl : PlainInvocation ext cfgSrcInvocation) (fuel : Nat)
    (cfgSrcName : Str) (h : History) :
    SameCalls
      (retrieveConfigSourceData { ext with env := env } srcs (resolveStringValue { ext with env := env } srcs fuel)
        cfgSrcName cfgSrcInvocation h)
      (retrieveConfigSourceData { ext with env := env' } srcs' (resolveStringValue { ext with env := env' } srcs' fuel)
        cfgSrcName cfgSrcInvocation h) := by
  have hso := hsame.configSources cfgSrcName
  have hpr := hsame.confmapProviders cfgSrcName
  have hpa (env : Str → Str) : parseCfgSrcInvocation { ext with env := env } cfgSrcInvocation =
      parseCfgSrcInvocation ext cfgSrcInvocation := rfl
  unfold retrieveConfigSourceData
  rw [hpa env, hpa env']
  cases hs : srcs.configSources cfgSrcName with
  | none =>
    obtain hs' : srcs'.configSources cfgSrcName = none := by simpa [hs] using hso
    simp only [hs']
    cases hp : srcs.confmapProviders cfgSrcName with
    | none =>
      rw [hp, map_none, eq_comm, map_eq_none_iff] at hpr
      simp only [hpr]
      exact .refl _
    | some p =>
      rw [hp, map_some, eq_comm, map_eq_some_iff] at hpr
      obtain ⟨p', hp', hnil⟩ := hpr
      simp only [hp']
      cases parseCfgSrcInvocation ext cfgSrcInvocation with
      | error e => exact .refl _
      | ok parts =>
        apply sameCalls_retrieveFromProvider hnil.symm
        · rintro provider rfl
          exact hans.confmapProviders _ _ hp
        · rintro provider rfl
          exact hans'.confmapProviders _ _ hp'
  | some source =>
    obtain ⟨source', hs'⟩ : ∃ source', srcs'.configSources cfgSrcName = some source' := by
      rw [← isSome_iff_exists, ← hso, hs]
      rfl
    simp only [hs']
    cases hok : parseCfgSrcInvocation ext cfgSrcInvocation with
    | error e => exact .refl _
    | ok parts =>
      obtain ⟨name, selector, params⟩ := parts
      obtain ⟨hse, hpm⟩ := hpl name selector params hok
      have hpar := resolveParams_congr env env' ext srcs srcs' hpm fuel name cfgSrcInvocation h
      simp only [resolveStringValue_literal _ _ _ _ hse, hpar]
      split
      · exact .refl _
      · exact sameCalls_retrieveFromSource (hans.configSources _ _ hs) (hans'.configSources _ _ hs') _ _ _ _ _

/-- Two runs over a string, with other values of variables and sources, make the same calls. -/
theorem resolveStringValue_sameCalls (fuel : Nat) (s : Str) (h : History) (hplain : PlainInvocations ext s) :
    (resolveStringValue { ext with env := env } srcs fuel s h).2 =
      (resolveStringValue { ext with env := env' } srcs' fuel s h).2 := by
  cases fuel with
  | zero =>
    unfold resolveStringValue
    apply SameCalls.history
    apply sameCalls_loop
    · rfl
    · exact fun _ _ _ _ _ _ => .refl _
  | succ fuel =>
    unfold resolveStringValue
    apply SameCalls.history
    apply sameCalls_loop
    · rfl
    · rintro t ht _ rfl hn h
      exact sameCalls_retrieve env env' hsame hans hans' (hplain t ht hn) fuel _ h

end

def oneValue (v : Value) : Sources :=
  ⟨fun name => if name = ['b'] then some fun _ _ _ => .ok (.ok v) else none, fun _ => none⟩

theorem sameSources_oneValue (v v' : Value) : SameSources (oneValue v) (oneValue v') := by
  refine ⟨fun name => ?_, fun name => rfl⟩
  unfold oneValue
  dsimp only
  split <;> rfl

theorem answers_oneValue (v : Value) : Answers (oneValue v) := by
  refine ⟨fun name source hs h selector params => ⟨v, ?_⟩, fun name provider hp => by cases hp⟩
  unfold oneValue at hs
  dsimp only at hs
  split at hs
  · cases hs
    rfl
  · cases hs

theorem resolveStringValue_sameCalls_secret : PlainInvocations plainExternals "$A$\x7bb:x\x7d".toList ∧
    (resolveStringValue { plainExternals with env := fun _ => [] } (oneValue .null) 1 "$A$\x7bb:x\x7d".toList []).2 =
      (resolveStringValue { plainExternals with env := fun _ => "$b:y".toList } (oneValue (.str "$b:z".toList)) 1
        "$A$\x7bb:x\x7d".toList []).2 := by
  have hta : dollarTails false "$A$\x7bb:x\x7d".toList = ["A$\x7bb:x\x7d".toList, "\x7bb:x\x7d".toList] := by decide
  have hp : PlainInvocations plainExternals "$A$\x7bb:x\x7d".toList := by
    intro t ht hn
    rw [show plainExternals.ddBackwardCompatible = false from rfl, hta] at ht
    simp only [List.mem_cons, List.not_mem_nil, or_false] at ht
    rcases ht with rfl | rfl
    · exact absurd rfl hn
    · intro name selector params hpa
      cases hpa
      exact ⟨by decide, fun fields hf => by cases hf⟩
  exact ⟨hp, resolveStringValue_sameCalls _ _ (sameSources_oneValue _ _) (answers_oneValue _) (answers_oneValue _)
    1 _ [] hp⟩

end Collector.ConfigSource
