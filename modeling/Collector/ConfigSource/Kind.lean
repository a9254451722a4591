import Collector.ConfigSource.Loop
import Collector.Lib.Panic

/-!
# The kind of a result

Only a string that is one invocation may become another value than text. The code asks instead whether the buffer is
empty and everything is consumed.
-/

namespace Collector.ConfigSource

open Lib Strings Confmap List

variable {dd : Bool} {s : Str}

def SingleInvocation (dd : Bool) : Str → Prop
  | [] => False
  | c :: t => c = '$' ∧ (expandableAt dd t).cfgSrcName ≠ [] ∧ (expandableAt dd t).consumed = t.length

instance (dd : Bool) (s : Str) : Decidable (SingleInvocation dd s) :=
  match s with
  | [] => .isFalse id
  | _ :: _ => inferInstanceAs (Decidable (_ ∧ _ ∧ _))

/-! ## Text -/

def prepend (text : Str) (x : Except Err Str × History) : Except Err Str × History := (x.1.map (text ++ ·), x.2)

def spliceLoop (ext : Externals) (retrieve : Str → Str → History → Res Value × History) :
    Nat → Str → History → Except Err Str × History
  | _, [], h => (.ok [], h)
  | skip + 1, _ :: rest, h => spliceLoop ext retrieve skip rest h
  | 0, c :: rest, h =>
    if c = '$' ∧ rest ≠ [] then
      let e := expandableAt ext.ddBackwardCompatible rest
      if e.cfgSrcName = [] then
        prepend (osExpandEnv ext.env e.content e.consumed) (spliceLoop ext retrieve e.consumed rest h)
      else
        match retrieve e.cfgSrcName e.content h with
        | (r, h) =>
          match r.err with
          | some err => (.error err, h)
          | none => prepend (spliced ext r.value) (spliceLoop ext retrieve e.consumed rest h)
    else prepend [c] (spliceLoop ext retrieve 0 rest h)

/-- `resolveStringValue` as it is meant for a string that is not one invocation. -/
def spliceStringValue (ext : Externals) (srcs : Sources) : Nat → Str → History → Except Err Str × History
  | 0, s, h => spliceLoop ext (fun _ _ h => (.fail .null .depth, h)) 0 s h
  | fuel + 1, s, h => spliceLoop ext (retrieveConfigSourceData ext srcs (resolveStringValue ext srcs fuel)) 0 s h

def Spliced (front : Str) (r : Res Value × History) (x : Except Err Str × History) : Prop :=
  r.2 = x.2 ∧ match x.1 with
    | .ok text => r.1.value = .str (front ++ text) ∧ r.1.err = none
    | .error e => r.1.err = some e

variable {r : Res Value × History} {x : Except Err Str × History}

theorem Spliced.prepend {front text : Str} (h : Spliced (front ++ text) r x) : Spliced front r (prepend text x) := by
  obtain ⟨x, hx⟩ := x
  unfold Spliced ConfigSource.prepend at *
  cases x with
  | ok t => simpa [Except.map] using h
  | error e => simpa [Except.map] using h

/-- Everything before some last invocation can turn out empty: variables, invocations or broken brackets, without text
between them. -/
def exposed (dd : Bool) : Nat → Str → Bool
  | _, [] => false
  | skip + 1, _ :: rest => exposed dd skip rest
  | 0, c :: rest =>
    if c = '$' ∧ rest ≠ [] then
      let e := expandableAt dd rest
      if e.cfgSrcName = [] then osExpandEnv (fun _ => []) e.content e.consumed = [] && exposed dd e.consumed rest
      else e.consumed = rest.length || exposed dd e.consumed rest
    else false

variable {rest : Str}

section
variable {e : Expandable} (hr : rest ≠ []) (he : expandableAt dd rest = e)
include hr he

theorem exposed_env (hn : e.cfgSrcName = []) : exposed dd 0 ('$' :: rest) =
    (osExpandEnv (fun _ => []) e.content e.consumed = [] && exposed dd e.consumed rest) := by
  rw [exposed, if_pos ⟨rfl, hr⟩, he]
  exact if_pos hn

theorem exposed_invocation (hn : e.cfgSrcName ≠ []) :
    exposed dd 0 ('$' :: rest) = (e.consumed = rest.length || exposed dd e.consumed rest) := by
  rw [exposed, if_pos ⟨rfl, hr⟩, he]
  exact if_neg hn

end

theorem osExpandEnv_ne_nil {name : Str} {w : Nat} (h : osExpandEnv (fun _ => []) name w ≠ []) (env : Str → Str) :
    osExpandEnv env name w ≠ [] := by
  unfold osExpandEnv at h ⊢
  split
  · rename_i hb
    rw [if_pos hb] at h
    exact h
  · rename_i hb
    rw [if_neg hb] at h
    split
    · simp
    · rename_i hl
      rw [if_neg hl] at h
      simp [getenv] at h

section
variable {ext : Externals} {retrieve : Str → Str → History → Res Value × History}

theorem spliced_loop (skip : Nat) (rest pending : Str) (buf : Option Str) (closeFuncs : List (Option CloseFunc))
    (h : History) (hf : buf.getD [] ++ pending ≠ [] ∨ exposed ext.ddBackwardCompatible skip rest = false) :
    Spliced (buf.getD [] ++ pending) (resolveStringLoop ext retrieve skip pending buf closeFuncs rest h)
      (spliceLoop ext retrieve skip rest h) := by
  induction skip, rest using scan_induct ext.ddBackwardCompatible generalizing pending buf closeFuncs h with
  | nil skip =>
    rw [resolveStringLoop_skip, drop_nil, resolveStringLoop_nil, spliceLoop]
    simp [Spliced]
  | skip n c rest ih =>
    rw [exposed] at hf
    rw [resolveStringLoop, spliceLoop]
    exact ih pending buf closeFuncs h hf
  | text c rest hc ih =>
    rw [spliceLoop, if_neg hc, resolveStringLoop, if_neg hc]
    apply Spliced.prepend
    have hne := ih (pending ++ [c]) buf closeFuncs h (.inl (by simp))
    simpa using hne
  | env rest e hr he hn ih =>
    rw [exposed_env hr he hn] at hf
    rw [spliceLoop, if_pos ⟨rfl, hr⟩]
    dsimp only
    rw [he, if_pos hn, resolveStringLoop_env hr he hn]
    apply Spliced.prepend
    have hne := ih [] (some (buf.getD [] ++ pending ++ osExpandEnv ext.env e.content e.consumed)) closeFuncs h ?_
    · simpa using hne
    · simp only [Option.getD_some, append_nil, ne_eq, append_eq_nil_iff, not_and]
      -- Either something is in the buffer, or the variable adds something, or the rest is not exposed.
      rcases hf with hf | hf
      · refine .inl fun hnil => absurd ?_ hf
        simpa using hnil
      · rw [Bool.and_eq_false_iff, decide_eq_false_iff_not] at hf
        rcases hf with hl | hr
        · exact .inl fun _ => osExpandEnv_ne_nil hl ext.env
        · exact .inr hr
  | invocation rest e hr he hn ih =>
    rw [exposed_invocation hr he hn] at hf
    rw [spliceLoop, if_pos ⟨rfl, hr⟩]
    dsimp only
    rw [he, if_neg hn]
    rcases hret : retrieve e.cfgSrcName e.content h with ⟨r, h'⟩
    dsimp only
    cases herr : r.err with
    | some err =>
      rw [resolveStringLoop_fail hr he hn hret herr]
      exact ⟨rfl, rfl⟩
    | none =>
      have hp : ¬ (e.consumed = rest.length ∧ buf.getD [] ++ pending = []) := by
        rintro ⟨hall, hnil⟩
        rcases hf with hf | hf
        · exact hf hnil
        · simp [hall] at hf
      rw [resolveStringLoop_splice hr he hn hret herr hp]
      apply Spliced.prepend
      have hne := ih [] (some (buf.getD [] ++ pending ++ spliced ext r.value)) (appendClose closeFuncs r.close) h' ?_
      · simpa using hne
      · rcases hf with hf | hf
        · refine .inl fun hnil => hf ?_
          simp only [Option.getD_some, append_nil, append_eq_nil_iff] at hnil
          simpa using hnil.1
        · rw [Bool.or_eq_false_iff] at hf
          exact .inr hf.2

theorem resolveStringLoop_fails {t : Str} {e : Expandable} (het : expandableAt ext.ddBackwardCompatible t = e)
    (hf : ∀ h, (retrieve e.cfgSrcName e.content h).1.err ≠ none) (hn : e.cfgSrcName ≠ []) (skip : Nat)
    (rest pending : Str) (buf : Option Str) (closeFuncs : List (Option CloseFunc)) (h : History)
    (ht : t ∈ markedTails '$' (fun t => (expandableAt ext.ddBackwardCompatible t).consumed) skip rest) :
    (resolveStringLoop ext retrieve skip pending buf closeFuncs rest h).1.err ≠ none := by
  induction skip, rest using scan_induct ext.ddBackwardCompatible generalizing pending buf closeFuncs h with
  | nil skip => cases skip <;> cases ht
  | skip n c rest ih =>
    rw [markedTails] at ht
    rw [resolveStringLoop]
    exact ih pending buf closeFuncs h ht
  | text c rest hc ih =>
    rw [markedTails, if_neg hc] at ht
    rw [resolveStringLoop, if_neg hc]
    exact ih _ buf closeFuncs h ht
  | env rest e' hr he hs ih =>
    rw [markedTails, if_pos ⟨rfl, hr⟩, he, mem_cons] at ht
    rw [resolveStringLoop_env hr he hs]
    refine ih _ _ _ h (ht.resolve_left ?_)
    rintro rfl
    exact hn (het ▸ he ▸ hs)
  | invocation rest e' hr he hs ih =>
    rw [markedTails, if_pos ⟨rfl, hr⟩, he, mem_cons] at ht
    rcases hret : retrieve e'.cfgSrcName e'.content h with ⟨r, h'⟩
    cases herr : r.err with
    | some err =>
      rw [resolveStringLoop_fail hr he hs hret herr]
      simp [Res.fail]
    | none =>
      have hl := ht.resolve_left (by
        rintro rfl
        obtain rfl := het.symm.trans he
        have herr' := hf h
        rw [hret] at herr'
        exact herr' herr)
      have hp : ¬ (e'.consumed = rest.length ∧ buf.getD [] ++ pending = []) := by
        rintro ⟨hall, -⟩
        rw [markedTails_skip, hall, drop_length] at hl
        cases hl
      rw [resolveStringLoop_splice hr he hs hret herr hp]
      exact ih _ _ _ h' hl

theorem resolveStringLoop_exposed (ext : Externals) (retrieve : Str → Str → History → Res Value × History)
    (henv : ext.env = fun _ => []) (skip : Nat) (rest pending : Str) (buf : Option Str)
    (closeFuncs : List (Option CloseFunc)) (h : History)
    (hn : ∀ t ∈ markedTails '$' (fun t => (expandableAt ext.ddBackwardCompatible t).consumed) skip rest,
      ∀ e, expandableAt ext.ddBackwardCompatible t = e → e.cfgSrcName ≠ [] → ∀ h, ∃ close h',
        retrieve e.cfgSrcName e.content h = (⟨.null, close, none⟩, h'))
    (hf : buf.getD [] ++ pending = []) (he : exposed ext.ddBackwardCompatible skip rest = true) :
    ∃ close h', resolveStringLoop ext retrieve skip pending buf closeFuncs rest h = (⟨.null, close, none⟩, h') := by
  induction skip, rest using scan_induct ext.ddBackwardCompatible generalizing pending buf closeFuncs h with
  | nil skip => simp [exposed] at he
  | skip n c rest ih =>
    rw [markedTails] at hn
    rw [exposed] at he
    rw [resolveStringLoop]
    exact ih pending buf closeFuncs h hn hf he
  | text c rest hc ih =>
    rw [exposed, if_neg hc] at he
    cases he
  | env rest e hr hat hna ih =>
    rw [markedTails, if_pos ⟨rfl, hr⟩, hat, forall_mem_cons] at hn
    rw [exposed_env hr hat hna, Bool.and_eq_true, decide_eq_true_eq] at he
    rw [resolveStringLoop_env hr hat hna]
    refine ih _ _ _ h hn.2 ?_ he.2
    rw [hf, henv, he.1]
    rfl
  | invocation rest e hr hat hna ih =>
    rw [markedTails, if_pos ⟨rfl, hr⟩, hat, forall_mem_cons] at hn
    rw [exposed_invocation hr hat hna, Bool.or_eq_true, decide_eq_true_eq] at he
    obtain ⟨close, h', hret⟩ := hn.1 e hat hna h
    by_cases hall : e.consumed = rest.length
    · rw [resolveStringLoop_whole hr hat hna hret rfl hall hf]
      exact ⟨_, _, rfl⟩
    · rw [resolveStringLoop_splice hr hat hna hret rfl (fun hp => hall hp.1)]
      refine ih _ _ _ h' hn.2 ?_ (he.resolve_left hall)
      rw [hf]
      rfl

end

/-! ## Invocations that cannot be parsed -/

def malformed (cfgSrcInvocation : Str) : Bool :=
  match parseCfgSrcInvocation plainExternals cfgSrcInvocation with
  | .error _ => true
  | .ok _ => false

theorem mapM_ok {α β ε : Type} {f : α → Except ε β} (hf : ∀ a, ∃ b, f a = .ok b) (l : List α) :
    ∃ bs, l.mapM f = .ok bs := by
  induction l with
  | nil => exact ⟨[], rfl⟩
  | cons a l ih =>
    obtain ⟨b, hb⟩ := hf a
    obtain ⟨bs, hbs⟩ := ih
    refine ⟨b :: bs, ?_⟩
    rw [mapM_cons, hb, hbs]
    rfl

theorem parseParamsAsURLQuery_plain {query : Str} {values : List (Str × List Str)} (h : parseQuery query = .ok values) :
    ∃ params, parseParamsAsURLQuery plainExternals query = .ok params := by
  have hv : ∀ s, ∃ v, plainExternals.yamlUnmarshal s = .ok v := fun s => ⟨.str s, rfl⟩
  unfold parseParamsAsURLQuery
  refine exists_bind_eq_ok.mpr ⟨values, h, exists_bind_eq_ok.mpr ?_⟩
  refine Exists.imp (fun params hp => ⟨hp, _, rfl⟩) (mapM_ok ?_ values)
  rintro ⟨k, _ | ⟨x, _ | ⟨y, xs⟩⟩⟩
  · exact ⟨_, rfl⟩
  · exact ⟨_, rfl⟩
  · obtain ⟨vs, hvs⟩ := mapM_ok hv (x :: y :: xs)
    exact ⟨(k, .list vs), by simp only [hvs]; rfl⟩

variable {cfgSrcInvocation : Str}

theorem parseCfgSrcInvocation_malformed (h : malformed cfgSrcInvocation = true)
    (ext : Externals) : ∃ e, parseCfgSrcInvocation ext cfgSrcInvocation = .error e := by
  unfold malformed at h
  unfold parseCfgSrcInvocation at h ⊢
  cases hcut : cut ':' cfgSrcInvocation with
  | none => exact ⟨_, rfl⟩
  | some parts =>
    simp only [hcut] at h ⊢
    cases hl : cut '\n' parts.2 with
    | some lines =>
      simp only [hl] at h
      split at h
      · rename_i e herr
        split at herr
        · cases herr
        · cases herr
      · cases h
    | none =>
      simp only [hl] at h ⊢
      cases hq : cut '?' parts.2 with
      | none => simp [hq] at h
      | some query =>
        simp only [hq] at h ⊢
        cases hp : parseQuery query.2 with
        | error e => exact ⟨.invalidParams cfgSrcInvocation e, by unfold parseParamsAsURLQuery; rw [hp]; rfl⟩
        | ok values =>
          obtain ⟨params, hpa⟩ := parseParamsAsURLQuery_plain hp
          simp [hpa] at h

theorem retrieve_malformed (h : malformed cfgSrcInvocation = true) (ext : Externals)
    (srcs : Sources) (resolveString : ResolveString) (cfgSrcName : Str) (hist : History) :
    (retrieveConfigSourceData ext srcs resolveString cfgSrcName cfgSrcInvocation hist).1.err ≠ none := by
  obtain ⟨e, he⟩ := parseCfgSrcInvocation_malformed h ext
  unfold retrieveConfigSourceData
  split
  · split
    · simp [Res.fail]
    · simp [he, Res.fail]
  · simp [he, Res.fail]

def allReturn (v : Value) : Sources := ⟨fun _ => none, fun _ => some (some fun _ _ => .ok (.ok v))⟩

theorem retrieve_allReturn (h : malformed cfgSrcInvocation = false) (dd : Bool) (v : Value)
    (resolveString : ResolveString) (cfgSrcName : Str) (hist : History) :
    ∃ close hist', retrieveConfigSourceData { plainExternals with ddBackwardCompatible := dd } (allReturn v)
    resolveString cfgSrcName cfgSrcInvocation hist = (⟨v, close, none⟩, hist') := by
  have hp : parseCfgSrcInvocation { plainExternals with ddBackwardCompatible := dd } cfgSrcInvocation =
      parseCfgSrcInvocation plainExternals cfgSrcInvocation := rfl
  unfold malformed at h
  unfold retrieveConfigSourceData allReturn
  simp only [hp]
  split at h
  · cases h
  · rename_i parts hok
    obtain ⟨name, selector, params⟩ := parts
    simp only [hok, retrieveFromProvider]
    exact ⟨_, _, rfl⟩

/-! ## The kind and the syntax -/

/-- In every run, a string that is resolved becomes text. -/
def Textual (dd : Bool) (s : Str) : Prop :=
  ∀ ext srcs fuel h, ext.ddBackwardCompatible = dd → (resolveStringValue ext srcs fuel s h).1.err = none →
    ∃ text, (resolveStringValue ext srcs fuel s h).1.value = .str text ∧
      spliceStringValue ext srcs fuel s h = (.ok text, (resolveStringValue ext srcs fuel s h).2)

def WellFormed (dd : Bool) (s : Str) : Prop :=
  ∀ t ∈ dollarTails dd s, (expandableAt dd t).cfgSrcName ≠ [] → malformed (expandableAt dd t).content = false

theorem Spliced.textual (h : Spliced [] r x)
    (herr : r.1.err = none) : ∃ text, r.1.value = .str text ∧ x = (.ok text, r.2) := by
  obtain ⟨y, h'⟩ := x
  obtain ⟨rfl, hv⟩ := h
  cases y with
  | ok text => exact ⟨text, hv.1, rfl⟩
  | error e =>
    rw [show r.1.err = some e from hv] at herr
    cases herr

theorem textual_of_not_exposed (h : exposed dd 0 s = false) : Textual dd s := by
  rintro ext srcs fuel hist rfl herr
  cases fuel with
  | zero =>
    unfold resolveStringValue at herr ⊢
    exact (spliced_loop 0 s [] none [] hist (.inr h)).textual herr
  | succ fuel =>
    unfold resolveStringValue at herr ⊢
    exact (spliced_loop 0 s [] none [] hist (.inr h)).textual herr

theorem textual_of_not_wellFormed (h : ¬ WellFormed dd s) : Textual dd s := by
  rintro ext srcs fuel hist rfl herr
  unfold WellFormed at h
  push Not at h
  obtain ⟨t, ht, hn, hm⟩ := h
  rw [ne_eq, Bool.not_eq_false] at hm
  cases fuel with
  | zero =>
    unfold resolveStringValue at herr
    exact absurd herr (resolveStringLoop_fails rfl (fun h => by simp [Res.fail]) hn 0 s [] none [] hist ht)
  | succ fuel =>
    unfold resolveStringValue at herr
    exact absurd herr (resolveStringLoop_fails rfl (retrieve_malformed hm ext srcs _ _) hn 0 s [] none [] hist ht)

theorem not_textual (he : exposed dd 0 s = true) (hf : WellFormed dd s) : ¬ Textual dd s := by
  intro hte
  obtain ⟨close, h', hrun⟩ := resolveStringLoop_exposed { plainExternals with ddBackwardCompatible := dd }
    (retrieveConfigSourceData { plainExternals with ddBackwardCompatible := dd } (allReturn .null)
      (resolveStringValue { plainExternals with ddBackwardCompatible := dd } (allReturn .null) 0)) rfl 0 s [] none [] []
    (by rintro t ht _ rfl hn h; exact retrieve_allReturn (hf t ht hn) dd .null _ _ h) rfl he
  have hv : resolveStringValue { plainExternals with ddBackwardCompatible := dd } (allReturn .null) 1 s [] =
      (⟨.null, close, none⟩, h') := hrun
  obtain ⟨text, htex, -⟩ := hte _ (allReturn .null) 1 [] rfl (congrArg (·.1.err) hv)
  rw [hv] at htex
  cases htex

theorem exposed_of_single (h : SingleInvocation dd s) : exposed dd 0 s = true := by
  cases s with
  | nil => exact h.elim
  | cons c t =>
    obtain ⟨hc, hn, hall⟩ := h
    have ht : t ≠ [] := by
      rintro rfl
      cases dd <;> exact hn rfl
    rw [exposed, if_pos ⟨hc, ht⟩]
    simp [hn, hall]

/-- A string becomes text in every run just if it is not exposed, or no run resolves it. One invocation alone is
exposed, but there are others. -/
theorem textual_iff (dd : Bool) (s : Str) :
    (Textual dd s ↔ ¬ (exposed dd 0 s = true ∧ WellFormed dd s)) ∧ (SingleInvocation dd s → exposed dd 0 s = true) := by
  refine ⟨⟨fun ht h => not_textual h.1 h.2 ht, fun h => ?_⟩, exposed_of_single⟩
  by_cases he : exposed dd 0 s = true
  · exact textual_of_not_wellFormed fun hf => h ⟨he, hf⟩
  · exact textual_of_not_exposed (by simpa using he)

theorem not_textual_emptyVariable : ¬ SingleInvocation false "$E$b:c" ∧
    (resolveStringValue plainExternals (allReturn (.int 5)) 1 "$E$b:c" []).1.err = none ∧
    (resolveStringValue plainExternals (allReturn (.int 5)) 1 "$E$b:c" []).1.value = .int 5 :=
  ⟨by decide, by rfl, by rfl⟩

end Collector.ConfigSource
