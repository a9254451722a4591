import Mathlib.Data.List.Infix

/-!
# Runs
-/

namespace Collector.Lib

open List Option

variable {S E : Type}

/-- A preorder that every step respects holds between the ends of a fold. -/
theorem foldl_related (rel : S → S → Prop) (refl : ∀ s, rel s s)
    (trans : ∀ a b c, rel a b → rel b c → rel a c) (step : S → E → S) (h : ∀ s e, rel s (step s e))
    (es : List E) (s : S) : rel s (es.foldl step s) := by
  induction es generalizing s with
  | nil => exact refl s
  | cons e es ih => exact trans _ _ _ (h s e) (ih (step s e))

/-! ## Steps that can fail -/

section
variable {S E : Type} (step : S → E → Option S) (inv : List E → S → Prop) (s₀ : S) (all : List E)

theorem foldlM_concat (es : List E) (e : E) :
    (es ++ [e]).foldlM step s₀ = (es.foldlM step s₀).bind fun s => step s e := by
  simp [foldlM_append, bind_eq_bind]

/-- What every step that succeeds keeps, a run that succeeds has at its end. -/
theorem foldlM_inv (start : inv [] s₀)
    (h : ∀ es e s s', e ∈ all → inv es s → step s e = some s' → inv (es ++ [e]) s') :
    ∀ s, all.foldlM step s₀ = some s → inv all s := by
  induction all using reverseRecOn with
  | nil =>
    rintro s ⟨⟩
    exact start
  | append_singleton es e ih =>
    intro s hs
    rw [foldlM_concat, bind_eq_some_iff] at hs
    obtain ⟨t, ht, hs⟩ := hs
    have hinv := ih (fun es e s s' he => h es e s s' (mem_append_left _ he)) t ht
    exact h es e t s (by simp) hinv hs

/-- When the invariant lets every step succeed, the run succeeds. -/
theorem foldlM_some (start : inv [] s₀)
    (h : ∀ es e s, e ∈ all → inv es s → ∃ s', step s e = some s' ∧ inv (es ++ [e]) s') :
    ∃ s, all.foldlM step s₀ = some s ∧ inv all s := by
  induction all using reverseRecOn with
  | nil => exact ⟨s₀, rfl, start⟩
  | append_singleton es e ih =>
    obtain ⟨s, hs, hinv⟩ := ih fun es e s he => h es e s (mem_append_left _ he)
    obtain ⟨s', hs', hinv'⟩ := h es e s (by simp) hinv
    refine ⟨s', ?_, hinv'⟩
    rw [foldlM_concat, hs]
    exact hs'

end

theorem foldlM_ok_concat {S E ε : Type} {step : S → E → Except ε S} {es : List E} {e : E} {s t : S} :
    (es ++ [e]).foldlM step s = .ok t ↔ ∃ u, es.foldlM step s = .ok u ∧ step u e = .ok t := by
  simp only [foldlM_append, foldlM_cons, foldlM_nil, bind_pure]
  cases es.foldlM step s <;> simp [bind, Except.bind]

/-- A run succeeds where the steps succeed by themselves. -/
theorem foldlM_eq_ok_iff {S E ε : Type} {step : S → E → Except ε S} {ok : E → Prop} {f : S → E → S}
    (h : ∀ s e t, step s e = .ok t ↔ ok e ∧ t = f s e) {es : List E} {s t : S} :
    es.foldlM step s = .ok t ↔ (∀ e ∈ es, ok e) ∧ t = es.foldl f s := by
  induction es using reverseRecOn generalizing t with
  | nil => simp [pure, Except.pure, eq_comm]
  | append_singleton es e ih =>
    simp only [foldlM_ok_concat, ih, h, foldl_concat, forall_mem_append, forall_mem_singleton]
    grind

/-- Every step of the run is good in the state in which it is taken. -/
def GoodRun {S E : Type} (step : S → E → Option S) (ok : S → E → Prop) : S → List E → Prop
  | _, [] => True
  | s, e :: es => ok s e ∧ ∀ s', step s e = some s' → GoodRun step ok s' es

/-- A run can be checked step by step. -/
instance GoodRun.decidable {S E : Type} (step : S → E → Option S) (ok : S → E → Prop) [∀ s e, Decidable (ok s e)] :
    (s : S) → (es : List E) → Decidable (GoodRun step ok s es)
  | _, [] => .isTrue trivial
  | s, e :: es =>
    match h : step s e with
    | none => decidable_of_iff (ok s e) (by simp [GoodRun, h])
    | some t =>
      have := GoodRun.decidable step ok t es
      decidable_of_iff (ok s e ∧ GoodRun step ok t es) (by simp [GoodRun, h])

/-- What every good step keeps, a run of good steps keeps. -/
theorem GoodRun.inv {step : S → E → Option S} {ok : S → E → Prop} {inv : S → Prop}
    (hs : ∀ s e s', inv s → ok s e → step s e = some s' → inv s') {es : List E} {s₀ s : S}
    (hg : GoodRun step ok s₀ es) (start : inv s₀) (hrun : es.foldlM step s₀ = some s) : inv s := by
  induction es generalizing s₀ with
  | nil =>
    cases hrun
    exact start
  | cons e es ih =>
    rw [foldlM_cons] at hrun
    obtain ⟨t, ht, hrun⟩ := bind_eq_some_iff.mp hrun
    exact ih (hg.2 t ht) (hs s₀ e t start hg.1 ht) hrun

/-! ## All the states of a run -/

variable {E : Type} (inv : List E → Prop) (ok : List E → E → Prop) (all : List E)

/-- When every step is good, the invariant holds all along the run. -/
theorem forall_prefix_of_steps (start : inv []) (step : ∀ es e, inv es → ok es e → inv (es ++ [e]))
    (h : ∀ es e, es ++ [e] <+: all → ok es e) : ∀ es, es <+: all → inv es := by
  intro es hes
  induction es using reverseRecOn with
  | nil => exact start
  | append_singleton es e ih =>
    have hpre : es <+: all := (prefix_append es [e]).trans hes
    exact step es e (ih hpre) (h es e hes)

/-- Where a step keeps the invariant only if it is good, the two say the same. -/
theorem forall_prefix_iff (start : inv []) (step : ∀ es e, inv es → (inv (es ++ [e]) ↔ ok es e)) :
    (∀ es, es <+: all → inv es) ↔ ∀ es e, es ++ [e] <+: all → ok es e := by
  constructor
  · intro h es e hes
    have hpre : es <+: all := (prefix_append es [e]).trans hes
    exact (step es e (h es hpre)).mp (h _ hes)
  · exact forall_prefix_of_steps inv ok all start fun es e hinv hok => (step es e hinv).mpr hok

end Collector.Lib
