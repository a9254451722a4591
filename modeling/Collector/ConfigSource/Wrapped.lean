import Collector.ConfigSource.Ownership
import Collector.ConfigSource.Settings

/-!
# The provider wrapper

`ResolveForWrapped` of `internal/confmapprovider/configsource/provider.go`. What it returns should own all that was
obtained, from the wrapped provider, for the settings and for the rest.
-/

namespace Collector.ConfigSource

open Lib Strings Confmap List

variable {α β : Type} {h h' : History} {ids : List Nat}

/-! ## The code -/

def asConf (sprint : Value → Str) : Value → Option Fields
  | .null => some []
  | .map m => some (newFromStringMap (intfaceKeysToStrings sprint m))
  | _ => none

/-- The types that `confmap.NewRetrieved` takes. -/
def supportedRaw : Value → Bool
  | .bytes _ => false
  | .imap _ => false
  | _ => true

section
variable (ext : Externals) (factories : Factories) (castToStringMap : Value → Fields)
  (providers : Str → Option (Option Provider)) (fuel : Nat)

/-- The result is the new `Retrieved`: its raw value and its close function. -/
def resolveForWrapped (provider : Provider) (uri : Str) (h : History) : Res Value × History :=
  match provider h uri with
  | .error e =>
    (.fail .null (.wrapped "configsource provider failed retrieving" e), h ++ [.failed (.provider uri)])
  | .ok (.error e) =>
    (.fail .null (.wrapped "failed retrieving from wrappedProvider" e), h ++ [.retrieved h.length (.provider uri)])
  | .ok (.ok raw) =>
    let retrieved := h.length
    let h := h ++ [.retrieved retrieved (.provider uri)]
    match asConf ext.sprint raw with
    | none =>
      -- The raw fallback makes a new `Retrieved` of the raw value alone.
      if supportedRaw raw then (⟨raw, none, none⟩, h)
      else
        (.fail .null (.wrapped "failed retrieving from wrappedProvider" (.notConf raw)), h)
    | some conf =>
      match buildConfigSourcesFromConf ext.sprint factories castToStringMap
        (resolveStringValue ext ⟨fun _ => none, providers⟩ fuel) conf h with
      | (.error e, h) => (.fail .null (.wrapped "failed resolving latestConf" e), h)
      | (.ok (configSources, confToResolve), h) =>
        match resolveWithConfigSources ext ⟨fun name => find name configSources, providers⟩ fuel confToResolve h with
        | (resolved, h) =>
          match resolved.err with
          | some e => (.fail .null (.wrapped "failed resolving with config sources" e), h)
          | none =>
            (⟨.map (toStringMap resolved.value),
              mergeCloseFuncs [resolved.close, some (retrievedClose retrieved)], none⟩, h)

end

/-! ## When a value makes a call -/

mutual
def NoInvocation (ddBackwardCompatible : Bool) : Value → Prop
  | .str s => NoConfigSource ddBackwardCompatible s
  | .list vs => NoInvocationElems ddBackwardCompatible vs
  | .map m => NoInvocationFields ddBackwardCompatible m
  | _ => True

def NoInvocationElems (ddBackwardCompatible : Bool) : List Value → Prop
  | [] => True
  | v :: vs => NoInvocation ddBackwardCompatible v ∧ NoInvocationElems ddBackwardCompatible vs

def NoInvocationFields (ddBackwardCompatible : Bool) : Fields → Prop
  | [] => True
  | (_, v) :: m => NoInvocation ddBackwardCompatible v ∧ NoInvocationFields ddBackwardCompatible m
end

def Counts {α : Type} (h : History) (call : Res α × History) (quiet : Prop) : Prop :=
  h.length ≤ call.2.length ∧ (call.1.err = none → (call.2.length = h.length ↔ quiet))

theorem counts_fail (zero : α) (e : Err) (quiet : Prop)
    (hle : h.length ≤ h'.length) : Counts h (Res.fail zero e, h') quiet :=
  ⟨hle, by simp [Res.fail]⟩

theorem logged_length (hl : Logged h h') : h.length ≤ h'.length := by
  obtain ⟨evs, rfl, _⟩ := hl
  simp

section
variable {call : Res α × History} {rest : Res β × History} {zero : β} {wrap : Err → Err} {quiet quiet' : Prop}

theorem counts_next (hc : Counts h call quiet) (hrest : Counts call.2 rest quiet') :
    Counts h (match call.1.err with
      | some e => (.fail zero (wrap e), call.2)
      | none => rest) (quiet ∧ quiet') := by
  have hle := hc.1
  have hle' := hrest.1
  split
  · exact counts_fail _ _ _ hle
  · rename_i hok
    refine ⟨hle.trans hle', fun hok' => ?_⟩
    rw [← hc.2 hok, ← hrest.2 hok']
    omega

theorem counts_false (hc : Accounted h call) (hrest : Counts call.2 rest False) :
    Counts h (match call.1.err with
      | some e => (.fail zero (wrap e), call.2)
      | none => rest) False := by
  have hn : Counts h call (call.2.length = h.length) := ⟨logged_length hc.1, fun _ => Iff.rfl⟩
  simpa using counts_next hn hrest

theorem counts_called (hc : Counts h call False) (hle : call.2.length ≤ rest.2.length) :
    Counts h (match call.1.err with
      | some e => (.fail zero (wrap e), call.2)
      | none => rest) False := by
  have hn : Counts call.2 rest (rest.2.length = call.2.length) := ⟨hle, fun _ => Iff.rfl⟩
  simpa using counts_next hc hn

theorem counts_into (f : α → β) (zero : β) (hc : Counts h call quiet) :
    Counts h (call.1.into f zero, call.2) quiet := by
  rw [Res.into]
  split
  · exact counts_fail _ _ _ hc.1
  · rename_i hok
    exact ⟨hc.1, fun _ => hc.2 hok⟩

end

section
variable (ext : Externals) (srcs : Sources)

theorem retrieveFromProvider_calls (provider : Option Provider) (cfgSrcName selector : Str)
    (h : History) : Counts h (retrieveFromProvider provider cfgSrcName selector h) False := by
  refine ⟨logged_length (retrieveFromProvider_accounted provider cfgSrcName selector h).1, ?_⟩
  cases provider with
  | none => simp [retrieveFromProvider, Res.fail]
  | some p =>
    rw [retrieveFromProvider]
    dsimp only
    split
    · simp [Res.fail]
    · split <;> simp

theorem retrieveFromSource_calls (source : Source) (cfgSrcName selector : Str)
    (params : Option Fields) (closeFuncs : List (Option CloseFunc)) (h : History) :
    Counts h (retrieveFromSource source cfgSrcName selector params closeFuncs h) False := by
  rw [retrieveFromSource]
  dsimp only
  split
  · exact counts_fail _ _ _ (by simp)
  · split <;> exact ⟨by simp, by simp⟩

theorem retrieveConfigSourceData_calls {resolveString : ResolveString}
    (hstr : ∀ s h, Accounted h (resolveString s h)) (cfgSrcName cfgSrcInvocation : Str) (h : History) :
    Counts h (retrieveConfigSourceData ext srcs resolveString cfgSrcName cfgSrcInvocation h) False := by
  rw [retrieveConfigSourceData]
  split
  · split
    · exact counts_fail _ _ _ (le_refl _)
    · split
      · exact counts_fail _ _ _ (le_refl _)
      · exact retrieveFromProvider_calls _ _ _ h
  · split
    · exact counts_fail _ _ _ (le_refl _)
    · refine counts_false (hstr _ h) ?_
      split
      · exact counts_false (resolveParams_accounted ext hstr _ _ _ _) (retrieveFromSource_calls _ _ _ _ _ _)
      · exact counts_fail _ _ _ (le_refl _)

theorem resolveStringLoop_counts {retrieve : Str → Str → History → Res Value × History}
    (hret : ∀ name content h, Counts h (retrieve name content h) False) (skip : Nat) (pending : Str)
    (buf : Option Str) (closeFuncs : List (Option CloseFunc)) (rest : Str) (h : History) :
    Counts h (resolveStringLoop ext retrieve skip pending buf closeFuncs rest h)
      (∀ t ∈ markedTails '$' (fun t => (expandableAt ext.ddBackwardCompatible t).consumed) skip rest,
        (expandableAt ext.ddBackwardCompatible t).cfgSrcName = []) := by
  induction rest generalizing skip pending buf closeFuncs h with
  | nil => cases buf <;> simp [resolveStringLoop, markedTails, Counts]
  | cons c rest ih =>
    cases skip with
    | succ skip => rw [resolveStringLoop, markedTails]; exact ih _ _ _ _ _
    | zero =>
      rw [resolveStringLoop, markedTails]
      split
      · dsimp only
        simp only [forall_mem_cons]
        split
        · rename_i hn
          simpa [hn] using ih _ _ _ _ h
        · rename_i hn
          simp only [hn, false_and]
          refine counts_called (hret _ _ h) ?_
          split
          · exact le_refl _
          · exact (ih _ _ _ _ _).1
      · exact ih _ _ _ _ _

theorem resolveStringValue_counts (fuel : Nat) (s : Str) (h : History) :
    Counts h (resolveStringValue ext srcs fuel s h) (NoConfigSource ext.ddBackwardCompatible s) := by
  cases fuel with
  | zero => exact resolveStringLoop_counts ext (fun _ _ h => counts_fail _ _ _ (le_refl _)) 0 [] none [] s h
  | succ fuel =>
    have hcalls := retrieveConfigSourceData_calls ext srcs (resolveStringValue_accounted ext srcs fuel)
    exact resolveStringLoop_counts ext hcalls 0 [] none [] s h

end

theorem noInvocationElems_iff (dd : Bool) (vs : List Value) :
    NoInvocationElems dd vs ↔ ∀ v ∈ vs, NoInvocation dd v := by
  induction vs with
  | nil => simp [NoInvocationElems]
  | cons v vs ih => rw [NoInvocationElems, ih, forall_mem_cons]

theorem noInvocationFields_iff (dd : Bool) (m : Fields) : NoInvocationFields dd m ↔ ∀ e ∈ m, NoInvocation dd e.2 := by
  induction m with
  | nil => simp [NoInvocationFields]
  | cons e m ih => rw [NoInvocationFields, ih, forall_mem_cons]

section
variable {dd : Bool} {resolveString : ResolveString}

theorem resolveEach_counts {ι γ : Type} {value : ι → Value} (add : List γ → ι → Value → List γ) {xs : List ι}
    (hval : ∀ x ∈ xs, ∀ h, Counts h (resolveConfigValue resolveString (value x) h) (NoInvocation dd (value x)))
    (acc : List γ) (closeFuncs : List (Option CloseFunc)) (h : History) :
    Counts h (resolveEach resolveString value add xs acc closeFuncs h) (∀ x ∈ xs, NoInvocation dd (value x)) := by
  induction xs generalizing acc closeFuncs h with
  | nil => exact ⟨le_refl _, by simp [resolveEach]⟩
  | cons x xs ih =>
    rw [forall_mem_cons] at hval ⊢
    exact counts_next (hval.1 h) (ih hval.2 _ _ _)

theorem resolveConfigValue_counts (hstr : ∀ s h, Counts h (resolveString s h) (NoConfigSource dd s)) (v : Value)
    (h : History) : Counts h (resolveConfigValue resolveString v h) (NoInvocation dd v) := by
  induction v using Value.induct generalizing h with
  | str s => rw [resolveConfigValue, NoInvocation]; exact hstr s h
  | list vs ih =>
    rw [resolveConfigValue, resolveElems_eq, NoInvocation, noInvocationElems_iff]
    exact counts_into Value.list Value.null (resolveEach_counts _ ih [] [] h)
  | map m ih =>
    rw [resolveConfigValue, resolveFields_eq, NoInvocation, noInvocationFields_iff]
    exact counts_into Value.imap Value.null (resolveEach_counts _ ih [] [] h)
  | _ =>
    rw [resolveConfigValue, NoInvocation]
    · exact ⟨le_refl _, by simp⟩
    all_goals simp

end

/-! ## The phases -/

section
variable (ext : Externals) (srcs : Sources) {fuel : Nat} {conf : Fields}

theorem resolveSettings_spec {ks : List Str} {splitMap settings : Fields}
    (hrun : resolveSettings (resolveStringValue ext srcs fuel) conf ks splitMap h = (.ok settings, h')) :
    (∃ ids, Obtained h h' ids) ∧
    (h'.length = h.length ↔ ∀ k ∈ ks, isSettingsKey k → NoInvocation ext.ddBackwardCompatible (get conf k)) := by
  induction ks generalizing splitMap h with
  | nil =>
    simp only [resolveSettings, Prod.mk.injEq] at hrun
    rw [← hrun.2]
    exact ⟨⟨[], obtained_refl h⟩, by simp⟩
  | cons k ks ih =>
    rw [resolveSettings] at hrun
    split at hrun
    · rename_i hkey
      have hacc := resolveConfigValue_accounted (resolveStringValue_accounted ext srcs fuel) (get conf k) h
      have hc := resolveConfigValue_counts (resolveStringValue_counts ext srcs fuel) (get conf k) h
      dsimp only at hrun
      split at hrun
      · simp at hrun
      · rename_i hok
        obtain ⟨ids, ho, _⟩ := hacc.2 hok
        obtain ⟨⟨ids', ho'⟩, hiff⟩ := ih hrun
        refine ⟨⟨_, obtained_trans ho ho'⟩, ?_⟩
        have hle := hc.1
        have hle' := logged_length (obtained_logged ho')
        simp only [forall_mem_cons, hkey, true_implies]
        rw [← hiff, ← hc.2 hok]
        omega
    · rename_i hkey
      simpa [hkey] using ih hrun

theorem buildConfigSourcesFromConf_spec {factories : Factories} {castToStringMap : Value → Fields}
    {configSources : List (Str × Source)} {rest : Fields}
    (hrun : buildConfigSourcesFromConf ext.sprint factories castToStringMap (resolveStringValue ext srcs fuel)
      conf h = (.ok (configSources, rest), h')) :
    (∃ ids, Obtained h h' ids) ∧
    (h'.length = h.length ↔
      ∀ k ∈ allKeys conf, isSettingsKey k → NoInvocation ext.ddBackwardCompatible (get conf k)) := by
  obtain ⟨settings, hs⟩ := buildConfigSourcesFromConf_ok hrun
  obtain ⟨-, splitMap, settingsMap, hset, -⟩ := settingsFromConf_ok hs
  exact resolveSettings_spec ext srcs hset

end

/-! ## What the wrapper returns -/

section
variable (ext : Externals) (factories : Factories) (castToStringMap : Value → Fields)
  (providers : Str → Option (Option Provider)) (fuel : Nat)

theorem resolveForWrapped_cases (provider : Provider) {uri : Str}
    (hok : (resolveForWrapped ext factories castToStringMap providers fuel provider uri h).1.err = none) :
    (∃ raw, provider h uri = .ok (.ok raw) ∧ asConf ext.sprint raw = none ∧
      resolveForWrapped ext factories castToStringMap providers fuel provider uri h =
        (⟨raw, none, none⟩, h ++ [.retrieved h.length (.provider uri)])) ∨
    ∃ raw conf configSources rest h' r, provider h uri = .ok (.ok raw) ∧ asConf ext.sprint raw = some conf ∧
      buildConfigSourcesFromConf ext.sprint factories castToStringMap
        (resolveStringValue ext ⟨fun _ => none, providers⟩ fuel) conf
        (h ++ [.retrieved h.length (.provider uri)]) = (.ok (configSources, rest), h') ∧
      resolveWithConfigSources ext ⟨fun name => find name configSources, providers⟩ fuel rest h' = r ∧
      r.1.err = none ∧
      resolveForWrapped ext factories castToStringMap providers fuel provider uri h = (⟨.map (toStringMap r.1.value),
          mergeCloseFuncs [r.1.close, some (retrievedClose h.length)], none⟩, r.2) := by
  rw [resolveForWrapped] at hok ⊢
  split at hok
  · simp [Res.fail] at hok
  · simp [Res.fail] at hok
  · rename_i raw hraw
    dsimp only at hok ⊢
    cases hc : asConf ext.sprint raw with
    | none =>
      rw [hc] at hok
      dsimp only at hok ⊢
      split_ifs at hok with hs
      · exact Or.inl ⟨raw, hraw, hc, by rw [if_pos hs]⟩
      · simp [Res.fail] at hok
    | some conf =>
      rw [hc] at hok
      dsimp only at hok ⊢
      rcases hb : buildConfigSourcesFromConf ext.sprint factories castToStringMap
        (resolveStringValue ext ⟨fun _ => none, providers⟩ fuel) conf
        (h ++ [.retrieved h.length (.provider uri)]) with ⟨built, h'⟩
      rw [hb] at hok
      cases built with
      | error e => simp [Res.fail] at hok
      | ok built =>
        obtain ⟨configSources, rest⟩ := built
        dsimp only at hok ⊢
        cases herr : (resolveWithConfigSources ext ⟨fun name => find name configSources, providers⟩
          fuel rest h').1.err with
        | some e => rw [herr] at hok; simp [Res.fail] at hok
        | none =>
          refine Or.inr ⟨raw, conf, configSources, rest, h', _, hraw, hc, hb, rfl, herr, ?_⟩
          rw [hb]
          dsimp only
          rw [herr]

theorem obtained_length (ho : Obtained h h' ids) : h'.length = h.length ↔ ids = [] := by
  obtain ⟨evs, rfl, _, hall, rfl⟩ := ho
  constructor
  · intro hlen
    obtain rfl : evs = [] := by simpa using hlen
    rfl
  · intro hnil
    simp [obtained_eq_nil hall hnil]

theorem count_iff_dropped_nil {own : Nat} {dropped : List Nat} (hn : (own :: (dropped ++ ids)).Nodup) :
    (∀ id, (ids ++ [own]).count id = if id ∈ own :: (dropped ++ ids) then 1 else 0) ↔ dropped = [] := by
  have hp : (ids ++ [own]).Perm (own :: ids) := perm_append_comm
  constructor
  · intro hc
    refine eq_nil_iff_forall_not_mem.mpr fun id hid => ?_
    have hone := hc id
    rw [if_pos (by simp [hid])] at hone
    have hmem : id ∈ own :: ids := hp.mem_iff.mp (count_pos_iff.mp (by omega))
    rw [nodup_cons, nodup_append] at hn
    rcases mem_cons.mp hmem with rfl | hmem
    · exact hn.1 (by simp [hid])
    · exact hn.2.2.2 id hid id hmem rfl
  · rintro rfl id
    rw [hp.count_eq]
    exact hn.count

/-- The wrapper owns all that was obtained just if the wrapped provider gave a map or nil and no setting has an
invocation. -/
theorem resolveForWrapped_owns_iff (provider : Provider) (uri : Str) (h : History)
    (hok : (resolveForWrapped ext factories castToStringMap providers fuel provider uri h).1.err = none) :
    ∃ evs, (resolveForWrapped ext factories castToStringMap providers fuel provider uri h).2 = h ++ evs ∧
      AllRetrieved evs ∧ (obtained evs).Nodup ∧
      ((∀ errs id, (callClose (resolveForWrapped ext factories castToStringMap providers fuel provider
          uri h).1.close errs).1.count id = if id ∈ obtained evs then 1 else 0) ↔
        ∃ raw conf, provider h uri = .ok (.ok raw) ∧ asConf ext.sprint raw = some conf ∧
          ∀ k ∈ allKeys conf, isSettingsKey k → NoInvocation ext.ddBackwardCompatible (get conf k)) := by
  have hown := obtained_retrieved h (.provider uri)
  rcases resolveForWrapped_cases ext factories castToStringMap providers fuel provider hok with
    ⟨raw, hraw, hc, hrun⟩ | ⟨raw, conf, configSources, rest, h', r, hraw, hc, hb, hres, hr, hrun⟩
  · -- The raw fallback: nothing closes what the provider returned.
    rw [hrun]
    obtain ⟨evs, he, hlog, hall, hids⟩ := hown
    refine ⟨evs, he, hall, log_obtained_nodup hlog, ?_⟩
    simp only [hids]
    constructor
    · intro hco
      have := hco (fun _ => none) h.length
      simp [callClose] at this
    · rintro ⟨raw', conf, hraw', hc', _⟩
      rw [hraw] at hraw'
      obtain rfl : raw = raw' := by simpa using hraw'
      rw [hc] at hc'
      simp at hc'
  · obtain ⟨⟨dropped, hset⟩, hiff⟩ := buildConfigSourcesFromConf_spec ext ⟨fun _ => none, providers⟩ hb
    obtain ⟨ids, hres', ho⟩ := (resolveWithConfigSources_accounted ext
      ⟨fun name => find name configSources, providers⟩ fuel rest h').2 (by rw [hres]; exact hr)
    rw [hres] at hres' ho
    obtain ⟨evs, he, hlog, hall, hids⟩ := obtained_trans hown (obtained_trans hset hres')
    have hn := log_obtained_nodup hlog
    have hcl : Owns (mergeCloseFuncs [r.1.close, some (retrievedClose h.length)]) (ids ++ [h.length]) := by
      simpa using owns_mergeCloseFuncs (.cons ho (.cons (owns_retrievedClose h.length) .nil))
    rw [hrun]
    refine ⟨evs, he, hall, hn, ?_⟩
    have hids' : obtained evs = h.length :: (dropped ++ ids) := by simpa using hids
    rw [hids'] at hn ⊢
    simp only [callClose_owns hcl, forall_const]
    rw [count_iff_dropped_nil hn, ← obtained_length hset, hiff]
    constructor
    · intro hq
      exact ⟨raw, conf, hraw, hc, hq⟩
    · rintro ⟨raw', conf', hraw', hc', hq⟩
      rw [hraw] at hraw'
      obtain rfl : raw = raw' := by simpa using hraw'
      rw [hc] at hc'
      obtain rfl : conf = conf' := by simpa using hc'
      exact hq

end

def constProvider (v : Value) : Provider := fun _ _ => .ok (.ok v)

def vaultFactory : Factories := fun type =>
  if type = "vault" then
    some (some ⟨fun name body => .ok ⟨⟨type, name⟩, body⟩, fun _ => .ok (some fun _ _ _ => .ok (.ok .null))⟩)
  else none

def envOnly : Str → Option (Option Provider) := fun scheme =>
  if scheme = "env" then some (some (constProvider (.str "addr"))) else none

def plainMap : Value := .map [("config_sources", .map []), ("a", .str "x")]

theorem resolveForWrapped_owns_iff_plainMap :
    (resolveForWrapped plainExternals vaultFactory (fun _ => []) envOnly 1 (constProvider plainMap)
      "file:x" []).1.err = none ∧
    ∃ evs, (resolveForWrapped plainExternals vaultFactory (fun _ => []) envOnly 1
        (constProvider plainMap) "file:x" []).2 = [] ++ evs ∧
      ∀ errs id, (callClose (resolveForWrapped plainExternals vaultFactory (fun _ => []) envOnly 1
        (constProvider plainMap) "file:x" []).1.close errs).1.count id =
          if id ∈ obtained evs then 1 else 0 := by
  have hok : (resolveForWrapped plainExternals vaultFactory (fun _ => []) envOnly 1
      (constProvider plainMap) "file:x" []).1.err = none :=
    Option.isNone_iff_eq_none.mp (by decide +kernel)
  obtain ⟨evs, he, _, _, hiff⟩ := resolveForWrapped_owns_iff plainExternals vaultFactory (fun _ => [])
    envOnly 1 (constProvider plainMap) "file:x" [] hok
  refine ⟨hok, evs, he, hiff.mpr ⟨plainMap, _, rfl, rfl, ?_⟩⟩
  intro k hk hkey
  have hcases : k ∈ [configSourcesKey, ['a']] := hk
  rcases mem_pair.mp hcases with rfl | rfl
  · exact trivial
  · cases hkey

def vaultSettings : Value :=
  .map [("config_sources", .map [("vault", .map [("endpoint", .str "$\x7benv:ADDR\x7d")])])]

/-- A scalar is returned without its Close, and what a setting took from a provider is lost. -/
theorem resolveForWrapped_lost : ((resolveForWrapped plainExternals vaultFactory (fun _ => []) envOnly 1
        (constProvider (.str "x")) "env:x" []).1.err.isNone ∧
      obtained (resolveForWrapped plainExternals vaultFactory (fun _ => []) envOnly 1
        (constProvider (.str "x")) "env:x" []).2 = [0] ∧
      (callClose (resolveForWrapped plainExternals vaultFactory (fun _ => []) envOnly 1
        (constProvider (.str "x")) "env:x" []).1.close fun _ => none).1 = []) ∧
    ((resolveForWrapped plainExternals vaultFactory (fun _ => []) envOnly 1
        (constProvider vaultSettings) "file:x" []).1.err.isNone ∧
      obtained (resolveForWrapped plainExternals vaultFactory (fun _ => []) envOnly 1
        (constProvider vaultSettings) "file:x" []).2 = [0, 1] ∧
      (callClose (resolveForWrapped plainExternals vaultFactory (fun _ => []) envOnly 1
        (constProvider vaultSettings) "file:x" []).1.close fun _ => none).1 = [0]) := by
  refine ⟨⟨?_, ?_, ?_⟩, ?_, ?_, ?_⟩ <;> decide +kernel

end Collector.ConfigSource
