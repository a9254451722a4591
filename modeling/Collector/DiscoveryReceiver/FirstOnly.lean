import Collector.DiscoveryReceiver.Evaluator
import Collector.Lib.Delimited

/-!
# Matches that report once

The memory of an evaluator is a set of texts, in which endpoint, receiver, status and text of the match are joined by
double colons.
-/

namespace Collector.DiscoveryReceiver

open Lib Outcome List

variable {A V P : Type} {logged : List Str} {t : Str}

structure MatchCall where
  m : Match
  pattern : Str
  status : Str
  receiverID : ComponentID
  endpointID : Str

variable {calls : List MatchCall}

namespace MatchCall

def subject (c : MatchCall) : Match × Str × ComponentID × Str := (c.m, c.status, c.receiverID, c.endpointID)

def parts (c : MatchCall) : List Str := [c.endpointID, c.receiverID.string, c.status, c.m.pattern]

def text (c : MatchCall) : Str := joinDouble ':' c.parts

theorem text_eq_loggedKey (c : MatchCall) : c.text = loggedKey c.endpointID c.receiverID c.status c.m.pattern := rfl

theorem text_of_subject {c d : MatchCall} (h : d.subject = c.subject) : d.text = c.text := by
  simp only [subject, Prod.mk.injEq] at h
  unfold text parts
  rw [h.1, h.2.1, h.2.2.1, h.2.2.2]

theorem m_of_subject {c d : MatchCall} (h : d.subject = c.subject) : d.m = c.m := (Prod.mk.inj h).1

end MatchCall

section
variable (engine : Engine A V P) (exprEnv : Str → Option (List (Str × A)))

def MatchCall.Matches (c : MatchCall) : Prop := c.m.holds engine exprEnv c.pattern = .ok true

def MatchCall.evaluate (logged : List Str) (c : MatchCall) : Outcome MatchError Panic (Bool × List Str) :=
  evaluateMatch engine exprEnv logged c.m c.pattern c.status c.receiverID c.endpointID

def MatchCall.answer (logged : List Str) (c : MatchCall) : Outcome MatchError Panic Bool :=
  (c.evaluate engine exprEnv logged).map Prod.fst

def MatchCall.remember (logged : List Str) (c : MatchCall) : List Str :=
  match c.evaluate engine exprEnv logged with
  | .ok (_, logged) => logged
  | .error _ => logged

def loggedAfter (calls : List MatchCall) : List Str := calls.foldl (MatchCall.remember engine exprEnv) []

/-- Each call is true for the first time it matches, and for the first time only. -/
def ReportsOnce (calls : List MatchCall) : Prop :=
  ∀ before c after, calls = before ++ c :: after → c.m.firstOnly = true →
    (c.Matches engine exprEnv → (∀ d ∈ before, d.subject = c.subject → ¬d.Matches engine exprEnv) →
      c.answer engine exprEnv (loggedAfter engine exprEnv before) = .ok true) ∧
    ((∃ d ∈ before, d.subject = c.subject ∧ d.Matches engine exprEnv) →
      c.answer engine exprEnv (loggedAfter engine exprEnv before) ≠ .ok true)

def TextsApart (calls : List MatchCall) : Prop :=
  ∀ before c after, calls = before ++ c :: after → c.m.firstOnly = true → c.Matches engine exprEnv →
    ∀ d ∈ before, d.m.firstOnly = true → d.Matches engine exprEnv → d.text = c.text →
      ∃ d' ∈ before, d'.subject = c.subject ∧ d'.Matches engine exprEnv

variable {engine exprEnv}

/-! ## One call -/

variable {c : MatchCall}

theorem MatchCall.evaluate_of_matches (hf : c.m.firstOnly = true) (hm : c.Matches engine exprEnv)
    (logged : List Str) :
    c.evaluate engine exprEnv logged =
      .ok (if c.text ∈ logged then (false, logged) else (true, logged ++ [c.text])) := by
  unfold evaluate evaluateMatch
  rw [hm, hf, ← text_eq_loggedKey]
  rfl

theorem MatchCall.answer_of_matches (hf : c.m.firstOnly = true) (hm : c.Matches engine exprEnv)
    (logged : List Str) : c.answer engine exprEnv logged = .ok (decide (c.text ∉ logged)) := by
  unfold answer
  rw [evaluate_of_matches hf hm]
  by_cases hl : c.text ∈ logged <;> simp [hl, Except.map]

theorem MatchCall.matches_of_answer (h : c.answer engine exprEnv logged = .ok true) : c.Matches engine exprEnv := by
  obtain ⟨⟨b, l⟩, he, rfl⟩ := map_eq_ok.mp h
  obtain ⟨shouldLog, hs, hr⟩ := map_eq_ok.mp he
  cases shouldLog with
  | true => exact hs
  | false => exact absurd (Prod.mk.inj hr).1 (by simp)

theorem MatchCall.mem_remember : t ∈ c.remember engine exprEnv logged ↔
      t ∈ logged ∨ c.m.firstOnly = true ∧ c.Matches engine exprEnv ∧ c.text = t := by
  by_cases h : c.m.firstOnly = true ∧ c.Matches engine exprEnv
  · unfold remember
    rw [evaluate_of_matches h.1 h.2]
    by_cases hl : c.text ∈ logged
    · simp only [hl, if_true, h.1, h.2, true_and]
      exact ⟨.inl, fun ht => ht.elim id fun heq => heq ▸ hl⟩
    · simp only [hl, if_false, h.1, h.2, true_and, mem_append, mem_singleton]
      rw [eq_comm]
  · have hs : c.remember engine exprEnv logged = logged := by
      unfold remember evaluate evaluateMatch
      cases hh : c.m.holds engine exprEnv c.pattern with
      | error e => rfl
      | ok b =>
        have hb : (b && c.m.firstOnly) = false := by
          cases b with
          | false => rfl
          | true => simpa using fun hf => h ⟨hf, hh⟩
        simp only [Except.map, hb, Bool.false_eq_true, if_false]
    rw [hs]
    exact ⟨.inl, fun ht => ht.elim id fun hc => absurd ⟨hc.1, hc.2.1⟩ h⟩

/-! ## Runs -/

theorem mem_loggedAfter : t ∈ loggedAfter engine exprEnv calls ↔
      ∃ d ∈ calls, d.m.firstOnly = true ∧ d.Matches engine exprEnv ∧ d.text = t := by
  induction calls using reverseRecOn with
  | nil => simp [loggedAfter]
  | append_singleton calls c ih =>
    unfold loggedAfter at ih ⊢
    rw [foldl_append, foldl_cons, foldl_nil, MatchCall.mem_remember, ih]
    simp only [mem_append, mem_singleton, or_and_right, exists_or, exists_eq_left]

theorem reportsOnce_iff (calls : List MatchCall) :
    ReportsOnce engine exprEnv calls ↔ TextsApart engine exprEnv calls := by
  constructor
  · intro h before c after hc hf hm d hd hdf hdm ht
    by_contra hn
    have hans := (h before c after hc hf).1 hm fun d' hd' hsub hm' => hn ⟨d', hd', hsub, hm'⟩
    have hlog : c.text ∈ loggedAfter engine exprEnv before := mem_loggedAfter.mpr ⟨d, hd, hdf, hdm, ht⟩
    rw [MatchCall.answer_of_matches hf hm] at hans
    simp [hlog] at hans
  · intro h before c after hc hf
    constructor
    · intro hm hn
      have hlog : c.text ∉ loggedAfter engine exprEnv before := by
        intro hlog
        obtain ⟨d, hd, hdf, hdm, ht⟩ := mem_loggedAfter.mp hlog
        obtain ⟨d', hd', hsub, hm'⟩ := h before c after hc hf hm d hd hdf hdm ht
        exact hn d' hd' hsub hm'
      rw [MatchCall.answer_of_matches hf hm]
      simp [hlog]
    · rintro ⟨d, hd, hsub, hdm⟩ hans
      have hm := MatchCall.matches_of_answer hans
      have hdf : d.m.firstOnly = true := by rw [MatchCall.m_of_subject hsub, hf]
      have hlog : c.text ∈ loggedAfter engine exprEnv before :=
        mem_loggedAfter.mpr ⟨d, hd, hdf, hdm, MatchCall.text_of_subject hsub⟩
      rw [MatchCall.answer_of_matches hf hm] at hans
      simp [hlog] at hans

end

/-! ## One text for two matches -/

def plainEngine : Engine Unit Unit Unit where
  regexp re := some fun s => s.tails.any fun t => re.isPrefixOf t
  compile _ _ := none
  run _ _ := none
  bool _ := none

def refused : Str := "refused"

def refusedCall (m : Match) : MatchCall := ⟨m, refused, "failed", ⟨"redis", []⟩, "10.0.0.1:6379"⟩

theorem not_reportsOnce_kinds : ¬ReportsOnce plainEngine (fun _ => none)
      [refusedCall ⟨none, refused, [], [], true⟩, refusedCall ⟨none, [], refused, [], true⟩] := by
  intro h
  have hm : (refusedCall ⟨none, [], refused, [], true⟩).Matches plainEngine fun _ => none := rfl
  have hnew : ∀ d ∈ [refusedCall ⟨none, refused, [], [], true⟩],
      d.subject = (refusedCall ⟨none, [], refused, [], true⟩).subject → ¬d.Matches plainEngine fun _ => none := by
    intro d hd hsub
    rw [mem_singleton.mp hd] at hsub
    exact absurd (congrArg Match.strict (MatchCall.m_of_subject hsub)) (by decide)
  have hans := (h _ _ [] rfl rfl).1 hm hnew
  rw [MatchCall.answer_of_matches rfl hm] at hans
  exact absurd (Except.ok.inj hans) (by decide)

end Collector.DiscoveryReceiver
