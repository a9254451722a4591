import Collector.ConfigSource.Resolve

/-!
# Who closes what was retrieved

When a call of the resolver succeeds, its close function owns every `Retrieved` that it obtained. When it fails, its
close function is nil.
-/

namespace Collector.ConfigSource

open Lib Strings Confmap List

variable {n : Nat} {f : Option CloseFunc} {evs : History}

/-! ## Histories -/

def obtained (evs : History) : List Nat :=
  evs.filterMap fun e => match e with
    | .retrieved id _ => some id
    | _ => none

/-- Events from place `n` on, without a Close. A `Retrieved` has its place as its number. -/
def Log (n : Nat) : History → Prop
  | [] => True
  | .retrieved id _ :: evs => id = n ∧ Log (n + 1) evs
  | .failed _ :: evs => Log (n + 1) evs
  | .closed _ :: _ => False

theorem log_append {a b : History} (ha : Log n a) (hb : Log (n + a.length) b) : Log n (a ++ b) := by
  induction a generalizing n with
  | nil => simpa using hb
  | cons e a ih =>
    have hb' : Log (n + 1 + a.length) b := by
      rwa [length_cons, show n + (a.length + 1) = n + 1 + a.length by omega] at hb
    cases e with
    | retrieved id req => exact ⟨ha.1, ih ha.2 hb'⟩
    | failed req => exact ih ha hb'
    | closed id => exact ha.elim

theorem log_obtained_ge (h : Log n evs) : ∀ id ∈ obtained evs, n ≤ id := by
  induction evs generalizing n with
  | nil => simp [obtained]
  | cons e evs ih =>
    intro id hid
    cases e with
    | retrieved id' req =>
      obtain ⟨rfl, h⟩ := h
      rcases mem_cons.mp hid with rfl | hid
      · exact le_refl _
      · exact Nat.le_of_succ_le (ih h id hid)
    | failed req => exact Nat.le_of_succ_le (ih h id hid)
    | closed id' => exact h.elim

theorem log_obtained_nodup (h : Log n evs) : (obtained evs).Nodup := by
  induction evs generalizing n with
  | nil => simp [obtained]
  | cons e evs ih =>
    cases e with
    | retrieved id req =>
      obtain ⟨rfl, h⟩ := h
      refine nodup_cons.mpr ⟨?_, ih h⟩
      intro hid
      have := log_obtained_ge h _ hid
      omega
    | failed req => exact ih h
    | closed id => exact h.elim

theorem log_no_closed (h : Log n evs) (id : Nat) : Event.closed id ∉ evs := by
  induction evs generalizing n with
  | nil => simp
  | cons e evs ih =>
    cases e with
    | retrieved id' req => simpa using ih h.2
    | failed req => simpa using ih h
    | closed id' => exact h.elim

@[simp] theorem obtained_append (a b : History) : obtained (a ++ b) = obtained a ++ obtained b := by
  simp [obtained]

/-! ## Close functions gathered in a loop -/

def Gathered (closeFuncs : List (Option CloseFunc)) (ids : List Nat) : Prop :=
  ∃ idss, List.Forall₂ Owns closeFuncs idss ∧ idss.flatten = ids

theorem gathered_nil : Gathered [] [] := ⟨[], .nil, rfl⟩

variable {closeFuncs : List (Option CloseFunc)}

theorem gathered_append {ids ids' : List Nat} (hg : Gathered closeFuncs ids) (hf : Owns f ids') :
    Gathered (closeFuncs ++ [f]) (ids ++ ids') := by
  obtain ⟨idss, ho, rfl⟩ := hg
  exact ⟨idss ++ [ids'], rel_append ho (.cons hf .nil), by simp⟩

theorem gathered_appendClose {ids ids' : List Nat} (hg : Gathered closeFuncs ids) (hf : Owns f ids') :
    Gathered (appendClose closeFuncs f) (ids ++ ids') := by
  cases f with
  | none =>
    obtain rfl : ids' = [] := hf
    simpa [appendClose] using hg
  | some f => exact gathered_append hg hf

theorem owns_of_gathered {ids : List Nat} (hg : Gathered closeFuncs ids) : Owns (mergeCloseFuncs closeFuncs) ids := by
  obtain ⟨idss, ho, rfl⟩ := hg
  exact owns_mergeCloseFuncs ho

/-! ## What a call does -/

def Logged (h h' : History) : Prop := ∃ evs, h' = h ++ evs ∧ Log h.length evs

def AllRetrieved (evs : History) : Prop := ∀ e ∈ evs, ∃ id req, e = Event.retrieved id req

/-- `h'` follows on `h`, every call between them succeeded, and they returned `ids`. -/
def Obtained (h h' : History) (ids : List Nat) : Prop :=
  ∃ evs, h' = h ++ evs ∧ Log h.length evs ∧ AllRetrieved evs ∧ obtained evs = ids

/-- When a call from `h` succeeds, so did all its calls, and its close function owns what they returned. -/
def Accounted {α : Type} (h : History) (call : Res α × History) : Prop :=
  Logged h call.2 ∧ (call.1.err = none → ∃ ids, Obtained h call.2 ids ∧ Owns call.1.close ids)

section
variable {α β : Type} {h₀ h h' : History} {ids ids' : List Nat}
  {call : Res α × History} {rest : Res β × History}

theorem logged_trans (hl : Logged h₀ h) (hl' : Logged h h') : Logged h₀ h' := by
  obtain ⟨a, rfl, ha⟩ := hl
  obtain ⟨b, rfl, hb⟩ := hl'
  refine ⟨a ++ b, append_assoc _ _ _, log_append ha ?_⟩
  rwa [length_append] at hb

theorem obtained_refl (h : History) : Obtained h h [] :=
  ⟨[], by simp, trivial, by simp [AllRetrieved], rfl⟩

theorem obtained_logged (ho : Obtained h h' ids) : Logged h h' := by
  obtain ⟨evs, he, hl, _⟩ := ho
  exact ⟨evs, he, hl⟩

theorem obtained_trans (ho : Obtained h₀ h ids) (ho' : Obtained h h' ids') : Obtained h₀ h' (ids ++ ids') := by
  obtain ⟨a, rfl, ha, hna, rfl⟩ := ho
  obtain ⟨b, rfl, hb, hnb, rfl⟩ := ho'
  refine ⟨a ++ b, append_assoc _ _ _, log_append ha ?_, forall_mem_append.mpr ⟨hna, hnb⟩, by simp⟩
  rwa [length_append] at hb

/-- Every call from `h₀` to `h` succeeded, and the gathered close functions own what they returned. -/
def Owning (h₀ h : History) (closeFuncs : List (Option CloseFunc)) : Prop :=
  ∃ ids, Obtained h₀ h ids ∧ Gathered closeFuncs ids

theorem owning_refl (h : History) : Owning h h [] := ⟨[], obtained_refl h, gathered_nil⟩

theorem accounted_fail (zero : α) (e : Err) (hl : Logged h₀ h) : Accounted h₀ (Res.fail zero e, h) :=
  ⟨hl, by simp [Res.fail]⟩

theorem accounted_into (f : α → β) (zero : β) (hc : Accounted h call) :
    Accounted h (call.1.into f zero, call.2) := by
  obtain ⟨hl, hok⟩ := hc
  rw [Res.into]
  split
  · exact accounted_fail _ _ hl
  · rename_i hn
    exact ⟨hl, fun _ => hok hn⟩

namespace Owning

theorem logged (ho : Owning h₀ h closeFuncs) : Logged h₀ h := by
  obtain ⟨ids, ho, -⟩ := ho
  exact obtained_logged ho

theorem done (v : α) (ho : Owning h₀ h closeFuncs) :
    Accounted h₀ ((⟨v, mergeCloseFuncs closeFuncs, none⟩ : Res α), h) := by
  obtain ⟨ids, ho, hg⟩ := ho
  exact ⟨obtained_logged ho, fun _ => ⟨ids, ho, owns_of_gathered hg⟩⟩

/-- A call on the way, after which its error is returned or the rest follows. -/
theorem next {zero : β} {wrap : Err → Err} (ho : Owning h₀ h closeFuncs) (hc : Accounted h call)
    (hrest : Owning h₀ call.2 (appendClose closeFuncs call.1.close) → Accounted h₀ rest) :
    Accounted h₀ (match call.1.err with
      | some e => (.fail zero (wrap e), call.2)
      | none => rest) := by
  split
  · exact accounted_fail _ _ (logged_trans ho.logged hc.1)
  · rename_i hok
    obtain ⟨ids, ho, hg⟩ := ho
    obtain ⟨ids', ho', hown⟩ := hc.2 hok
    exact hrest ⟨ids ++ ids', obtained_trans ho ho', gathered_appendClose hg hown⟩

end Owning

end

/-! ## Values -/

section
variable {resolveString : ResolveString}

theorem resolveEach_accounted {ι γ : Type} {value : ι → Value} (add : List γ → ι → Value → List γ) {xs : List ι}
    (hval : ∀ x ∈ xs, ∀ h, Accounted h (resolveConfigValue resolveString (value x) h)) (acc : List γ)
    {h₀ h : History} (ho : Owning h₀ h closeFuncs) :
    Accounted h₀ (resolveEach resolveString value add xs acc closeFuncs h) := by
  induction xs generalizing acc closeFuncs h with
  | nil => exact ho.done _
  | cons x xs ih =>
    rw [forall_mem_cons] at hval
    exact ho.next (hval.1 h) fun ho => ih hval.2 _ ho

variable (hstr : ∀ s h, Accounted h (resolveString s h))
include hstr

theorem resolveConfigValue_accounted (v : Value) (h : History) :
    Accounted h (resolveConfigValue resolveString v h) := by
  induction v using Value.induct generalizing h with
  | str s => rw [resolveConfigValue]; exact hstr s h
  | list vs ih =>
    rw [resolveConfigValue, resolveElems_eq]
    exact accounted_into Value.list Value.null (resolveEach_accounted _ ih [] (owning_refl h))
  | map m ih =>
    rw [resolveConfigValue, resolveFields_eq]
    exact accounted_into Value.imap Value.null (resolveEach_accounted _ ih [] (owning_refl h))
  | _ =>
    rw [resolveConfigValue]
    · exact (owning_refl h).done _
    all_goals simp

theorem resolveConf_accounted (ext : Externals) (conf : Fields) (h : History) :
    Accounted h (resolveConf resolveString ext conf h) := by
  rw [resolveConf, resolveKeys_eq]
  exact accounted_into _ []
    (resolveEach_accounted _ (fun k _ => resolveConfigValue_accounted hstr _) [] (owning_refl h))

end

/-! ## Invocations -/

section
variable (ext : Externals) (srcs : Sources) {h₀ h : History}

theorem obtained_retrieved (h : History) (req : Request) :
    Obtained h (h ++ [.retrieved h.length req]) [h.length] :=
  ⟨[.retrieved h.length req], rfl, ⟨rfl, trivial⟩, by simp [AllRetrieved], rfl⟩

theorem logged_failed (hl : Logged h₀ h) (req : Request) : Logged h₀ (h ++ [.failed req]) :=
  logged_trans hl ⟨[.failed req], rfl, trivial⟩

theorem retrieveFromProvider_accounted (provider : Option Provider) (cfgSrcName selector : Str)
    (h : History) : Accounted h (retrieveFromProvider provider cfgSrcName selector h) := by
  have hl := (owning_refl h).logged
  cases provider with
  | none => exact accounted_fail _ _ hl
  | some p =>
    rw [retrieveFromProvider]
    dsimp only
    split
    · exact accounted_fail _ _ (logged_failed hl _)
    · have ho := obtained_retrieved h (.provider (cfgSrcName ++ ':' :: selector))
      split
      · exact accounted_fail _ _ (obtained_logged ho)
      · exact ⟨obtained_logged ho, fun _ => ⟨_, ho, owns_retrievedClose h.length⟩⟩

theorem retrieveFromSource_accounted (source : Source) (cfgSrcName selector : Str)
    (params : Option Fields) (ho : Owning h₀ h closeFuncs) :
    Accounted h₀ (retrieveFromSource source cfgSrcName selector params closeFuncs h) := by
  rw [retrieveFromSource]
  dsimp only
  split
  · exact accounted_fail _ _ (logged_failed ho.logged _)
  · obtain ⟨ids, ho, hg⟩ := ho
    have ho' := obtained_trans ho (obtained_retrieved h (.source cfgSrcName selector params))
    split
    · -- `AsRaw` failed: the close function is returned along with the error.
      exact ⟨obtained_logged ho', by simp⟩
    · exact Owning.done _ ⟨_, ho', gathered_append hg (owns_retrievedClose h.length)⟩

variable {resolveString : ResolveString} (hstr : ∀ s h, Accounted h (resolveString s h))
include hstr

theorem resolveParams_accounted (cfgSrcName cfgSrcInvocation : Str) (params : Option Fields)
    (h : History) : Accounted h (resolveParams ext resolveString cfgSrcName cfgSrcInvocation params h) := by
  cases params with
  | none => exact (owning_refl h).done _
  | some params =>
    rw [resolveParams]
    obtain ⟨hl, hok⟩ := resolveConf_accounted hstr ext params h
    dsimp only
    split
    · exact accounted_fail _ _ hl
    · rename_i hn
      exact ⟨hl, fun _ => hok hn⟩

theorem retrieveConfigSourceData_accounted (cfgSrcName cfgSrcInvocation : Str) (h : History) :
    Accounted h (retrieveConfigSourceData ext srcs resolveString cfgSrcName cfgSrcInvocation h) := by
  have ho := owning_refl h
  rw [retrieveConfigSourceData]
  split
  · split
    · exact accounted_fail _ _ ho.logged
    · split
      · exact accounted_fail _ _ ho.logged
      · exact retrieveFromProvider_accounted _ _ _ h
  · split
    · exact accounted_fail _ _ ho.logged
    · rename_i name selector params _
      refine ho.next (hstr selector h) fun ho => ?_
      split
      · exact ho.next (resolveParams_accounted ext hstr name cfgSrcInvocation params _) fun ho =>
          retrieveFromSource_accounted _ _ _ _ ho
      · exact accounted_fail _ _ ho.logged

end

/-! ## Strings -/

section
variable (ext : Externals) (srcs : Sources)

theorem resolveStringLoop_accounted {retrieve : Str → Str → History → Res Value × History}
    (hret : ∀ name content h, Accounted h (retrieve name content h)) (skip : Nat) (pending : Str)
    (buf : Option Str) (rest : Str) {h₀ h : History} (ho : Owning h₀ h closeFuncs) :
    Accounted h₀ (resolveStringLoop ext retrieve skip pending buf closeFuncs rest h) := by
  induction rest generalizing skip pending buf closeFuncs h with
  | nil => cases buf <;> rw [resolveStringLoop] <;> exact ho.done _
  | cons c rest ih =>
    cases skip with
    | succ skip => rw [resolveStringLoop]; exact ih _ _ _ ho
    | zero =>
      rw [resolveStringLoop]
      split
      · dsimp only
        split
        · exact ih _ _ _ ho
        · refine ho.next (hret _ _ h) fun ho => ?_
          split
          · exact ho.done _
          · exact ih _ _ _ ho
      · exact ih _ _ _ ho

theorem resolveStringValue_accounted (fuel : Nat) (s : Str) (h : History) :
    Accounted h (resolveStringValue ext srcs fuel s h) := by
  induction fuel generalizing s h with
  | zero =>
    exact resolveStringLoop_accounted ext (fun _ _ h => accounted_fail .null .depth (owning_refl h).logged) 0 [] none s
      (owning_refl h)
  | succ fuel ih =>
    exact resolveStringLoop_accounted ext (retrieveConfigSourceData_accounted ext srcs ih) 0 [] none s (owning_refl h)

theorem resolveWithConfigSources_accounted (fuel : Nat) (conf : Fields) (h : History) :
    Accounted h (resolveWithConfigSources ext srcs fuel conf h) :=
  resolveConf_accounted (resolveStringValue_accounted ext srcs fuel) ext conf h

/-! ## The whole configuration -/

def callClose (closeFunc : Option CloseFunc) (errs : CloseErrs) : List Nat × List Err :=
  match closeFunc with
  | none => ([], [])
  | some f => f errs

theorem callClose_owns {closeFunc : Option CloseFunc} {ids : List Nat} (h : Owns closeFunc ids)
    (errs : CloseErrs) : callClose closeFunc errs = (ids, ids.filterMap errs) := by
  cases closeFunc with
  | none => rw [show ids = [] from h]; rfl
  | some f => exact h errs

theorem obtained_eq_nil {evs : History} (hall : AllRetrieved evs) (h : obtained evs = []) : evs = [] := by
  cases evs with
  | nil => rfl
  | cons e evs =>
    obtain ⟨id, req, rfl⟩ := hall e mem_cons_self
    simp [obtained] at h

/-- After a resolution that succeeds, the close function closes each obtained `Retrieved` once and nothing else, and
returns all errors. It is nil only if no Retrieve was made. -/
theorem resolveWithConfigSources_close_once (fuel : Nat) (conf : Fields) (h : History)
    (hok : (resolveWithConfigSources ext srcs fuel conf h).1.err = none) :
    ∃ evs, (resolveWithConfigSources ext srcs fuel conf h).2 = h ++ evs ∧ AllRetrieved evs ∧ (obtained evs).Nodup ∧
      (∀ errs, (∀ id, (callClose (resolveWithConfigSources ext srcs fuel conf h).1.close errs).1.count id =
          if id ∈ obtained evs then 1 else 0) ∧
        (callClose (resolveWithConfigSources ext srcs fuel conf h).1.close errs).2 = (obtained evs).filterMap errs) ∧
      ((resolveWithConfigSources ext srcs fuel conf h).1.close = none → evs = []) := by
  obtain ⟨ids, ⟨evs, he, hlog, hall, rfl⟩, hown⟩ :=
    (resolveWithConfigSources_accounted ext srcs fuel conf h).2 hok
  have hn := log_obtained_nodup hlog
  refine ⟨evs, he, hall, hn, ?_, ?_⟩
  · intro errs
    rw [callClose_owns hown]
    exact ⟨fun id => hn.count, rfl⟩
  · intro hnil
    rw [hnil] at hown
    exact obtained_eq_nil hall hown

def vaultOnly : Sources where
  configSources := fun name =>
    if name = "vault" then some fun _ selector _ => .ok (.ok (.str selector)) else none
  confmapProviders := fun _ => none

def vaultConf : Fields := [("a", .str "$vault:x"), ("b", .str "y")]

theorem resolveWithConfigSources_close_once_vault :
    (resolveWithConfigSources plainExternals vaultOnly 1 vaultConf []).1.err = none ∧
    ∃ evs, (resolveWithConfigSources plainExternals vaultOnly 1 vaultConf []).2 = [] ++ evs ∧
      AllRetrieved evs ∧ (obtained evs).Nodup := by
  have hok : (resolveWithConfigSources plainExternals vaultOnly 1 vaultConf []).1.err = none :=
    Option.isNone_iff_eq_none.mp (by decide +kernel)
  obtain ⟨evs, he, hall, hn, _⟩ :=
    resolveWithConfigSources_close_once plainExternals vaultOnly 1 vaultConf [] hok
  exact ⟨hok, evs, he, hall, hn⟩

theorem resolveWithConfigSources_fail_close {fuel : Nat} {conf : Fields} {h : History}
    (hf : (resolveWithConfigSources ext srcs fuel conf h).1.err ≠ none) :
    (resolveWithConfigSources ext srcs fuel conf h).1.close = none := by
  simp only [resolveWithConfigSources, resolveConf, Res.into] at hf ⊢
  split
  · rfl
  · rename_i hn; simp [hn] at hf

/-- After a resolution that fails, what was obtained can be closed only if nothing was obtained. -/
theorem resolveWithConfigSources_fail_leaks (fuel : Nat) (conf : Fields) (h : History)
    (hfail : (resolveWithConfigSources ext srcs fuel conf h).1.err ≠ none) :
    ∃ evs, (resolveWithConfigSources ext srcs fuel conf h).2 = h ++ evs ∧
      ∀ errs, ((∀ id ∈ obtained evs, Event.closed id ∈ evs ∨
        id ∈ (callClose (resolveWithConfigSources ext srcs fuel conf h).1.close errs).1) ↔
        obtained evs = []) := by
  obtain ⟨evs, he, hlog⟩ := (resolveWithConfigSources_accounted ext srcs fuel conf h).1
  refine ⟨evs, he, fun errs => ⟨fun hcl => ?_, fun hnil => by simp [hnil]⟩⟩
  rw [resolveWithConfigSources_fail_close ext srcs hfail] at hcl
  refine eq_nil_iff_forall_not_mem.mpr fun id hid => ?_
  rcases hcl id hid with hc | hc
  · exact log_no_closed hlog id hc
  · simp [callClose] at hc

def vaultThenUnknown : Fields :=
  [("a", .str "$vault:x"), ("b", .str "$nowhere:y")]

theorem resolveWithConfigSources_fail_leaks_vault :
    (resolveWithConfigSources plainExternals vaultOnly 1 vaultThenUnknown []).1.err ≠ none ∧
    ∃ evs, (resolveWithConfigSources plainExternals vaultOnly 1 vaultThenUnknown []).2 = [] ++ evs ∧
      ∀ errs, ((∀ id ∈ obtained evs, Event.closed id ∈ evs ∨ id ∈ (callClose
        (resolveWithConfigSources plainExternals vaultOnly 1 vaultThenUnknown []).1.close errs).1) ↔
        obtained evs = []) := by
  have hf : (resolveWithConfigSources plainExternals vaultOnly 1 vaultThenUnknown []).1.err ≠ none :=
    Option.isSome_iff_ne_none.mp (by decide +kernel)
  exact ⟨hf, resolveWithConfigSources_fail_leaks plainExternals vaultOnly 1 vaultThenUnknown [] hf⟩

/-- The value of the first key was obtained, and nothing closes it. -/
theorem resolveWithConfigSources_vault_lost :
    (resolveWithConfigSources plainExternals vaultOnly 1 vaultThenUnknown []).1.err.isSome ∧
    obtained (resolveWithConfigSources plainExternals vaultOnly 1 vaultThenUnknown []).2 = [0] ∧
    (resolveWithConfigSources plainExternals vaultOnly 1 vaultThenUnknown []).2.length = 1 ∧
    (resolveWithConfigSources plainExternals vaultOnly 1 vaultThenUnknown []).1.close.isNone := by
  refine ⟨?_, ?_, ?_, ?_⟩ <;> decide +kernel

end

end Collector.ConfigSource
