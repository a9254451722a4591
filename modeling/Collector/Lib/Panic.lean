import Mathlib.Data.List.Basic

/-!
# Computations that may panic

A computation returns a value or an error, or it panics. It is safe if it does not panic.
-/

namespace Collector.Lib

open List

variable {ε π α β σ : Type}

inductive Stop (ε π : Type) where
  | error (e : ε)
  | panic (p : π)

abbrev Outcome (ε π α : Type) := Except (Stop ε π) α
variable {l : List α} {s : σ} {bodies : List (Outcome ε π α)}

theorem ok_bind (a : α) (f : α → Except ε β) : (.ok a >>= f) = f a := rfl

variable {f : α → Except ε β}

variable {x : Except ε α} {b : β}

theorem bind_eq_ok : (x >>= f) = .ok b ↔ ∃ a, x = .ok a ∧ f a = .ok b := by
  cases x <;> simp [bind, Except.bind]

theorem exists_bind_eq_ok : (∃ b, (x >>= f) = .ok b) ↔ ∃ a, x = .ok a ∧ ∃ b, f a = .ok b := by
  cases x <;> simp [bind, Except.bind]

theorem map_eq_ok {f : α → β} : x.map f = .ok b ↔ ∃ a, x = .ok a ∧ f a = b := by
  cases x <;> simp [Except.map]

theorem forall₂_of_mapM {bs : List β} (h : l.mapM f = .ok bs) : List.Forall₂ (fun a b => f a = .ok b) l bs := by
  induction l generalizing bs with
  | nil =>
    cases h
    exact .nil
  | cons a l ih =>
    rw [mapM_cons, bind_eq_ok] at h
    obtain ⟨b, hb, h⟩ := h
    rw [bind_eq_ok] at h
    obtain ⟨bs, hbs, h⟩ := h
    cases h
    exact .cons hb (ih hbs)

namespace Outcome

def Safe (x : Outcome ε π α) : Prop := ∀ p, x ≠ .error (.panic p)

@[simp] theorem safe_ok (a : α) : Safe (.ok a : Outcome ε π α) := nofun

@[simp] theorem safe_error (e : ε) : Safe (.error (.error e) : Outcome ε π α) := nofun

@[simp] theorem not_safe_panic (p : π) : ¬ Safe (.error (.panic p) : Outcome ε π α) := fun h => h p rfl

variable (x : Outcome ε π α)

theorem safe_bind (f : α → Outcome ε π β) : Safe (x >>= f) ↔ Safe x ∧ ∀ a, x = .ok a → Safe (f a) := by
  match x with
  | .ok a => exact ⟨fun h => ⟨safe_ok a, fun _ heq => Except.ok.inj heq ▸ h⟩, fun h => h.2 a rfl⟩
  | .error (.error e) => exact ⟨fun _ => ⟨safe_error e, nofun⟩, fun _ => safe_error e⟩
  | .error (.panic p) => exact ⟨fun h => absurd h (not_safe_panic p), fun h => absurd h.1 (not_safe_panic p)⟩

@[simp] theorem safe_map (f : α → β) : Safe (x.map f : Outcome ε π β) ↔ Safe x := by
  match x with
  | .ok a => simp [Except.map]
  | .error (.error e) => simp [Except.map]
  | .error (.panic p) => simp [Except.map]

section
variable {step : σ → α → Outcome ε π σ} {P : α → Prop} (I : List α → σ → Prop)
  (hok : ∀ a l s, I (a :: l) s → P a → ∃ s', step s a = .ok s' ∧ I l s')
include hok

/-- `I` relates the state to what is left. -/
theorem foldlM_ok_inv (hI : I l s) (hP : ∀ a ∈ l, P a) : ∃ s', l.foldlM step s = .ok s' ∧ I [] s' := by
  induction l generalizing s with
  | nil => exact ⟨s, rfl, hI⟩
  | cons a l ih =>
    rw [forall_mem_cons] at hP
    obtain ⟨s', hs', hI'⟩ := hok a l s hI hP.1
    rw [foldlM_cons, hs']
    exact ih hI' hP.2

theorem foldlM_ok (hI : I l s) (hP : ∀ a ∈ l, P a) : ∃ s', l.foldlM step s = .ok s' := by
  obtain ⟨s', hs', -⟩ := foldlM_ok_inv I hok hI hP
  exact ⟨s', hs'⟩

theorem safe_foldlM (hp : ∀ a l s, I (a :: l) s → Safe (step s a) → P a) (hI : I l s) :
    Safe (l.foldlM step s) ↔ ∀ a ∈ l, P a := by
  constructor
  · intro h
    induction l generalizing s with
    | nil => simp
    | cons a l ih =>
      rw [foldlM_cons, safe_bind] at h
      have ha := hp a l s hI h.1
      obtain ⟨s', hs', hI'⟩ := hok a l s hI ha
      exact forall_mem_cons.mpr ⟨ha, ih hI' (h.2 s' hs')⟩
  · intro hP
    obtain ⟨s', hs'⟩ := foldlM_ok I hok hI hP
    rw [hs']
    exact safe_ok s'

end

variable {step : σ → α → Outcome ε π σ}

theorem exists_foldlM_eq_ok {Goes : α → Prop} (hg : ∀ s a, (∃ s', step s a = .ok s') ↔ Goes a) :
    (∃ t, l.foldlM step s = .ok t) ↔ ∀ a ∈ l, Goes a := by
  induction l generalizing s with
  | nil => simp [pure, Except.pure]
  | cons a l ih =>
    rw [foldlM_cons, exists_bind_eq_ok, forall_mem_cons, ← hg s a]
    constructor
    · rintro ⟨s', hs', hl⟩
      exact ⟨⟨s', hs'⟩, ih.mp hl⟩
    · rintro ⟨⟨s', hs'⟩, hl⟩
      exact ⟨s', hs', ih.mpr hl⟩

/-- One of the elements has `Q`, and those before it have `P`. -/
def Hits (P Q : α → Prop) : List α → Prop
  | [] => False
  | a :: l => Q a ∨ (P a ∧ Hits P Q l)

theorem hits_iff {P Q : α → Prop} :
    Hits P Q l ↔ ∃ front a rest, l = front ++ a :: rest ∧ (∀ x ∈ front, P x) ∧ Q a := by
  induction l with
  | nil => simp [Hits]
  | cons a l ih =>
    rw [Hits, ih]
    constructor
    · rintro (ha | ⟨ha, front, b, rest, rfl, hf, hb⟩)
      · exact ⟨[], a, l, rfl, by simp, ha⟩
      · exact ⟨a :: front, b, rest, rfl, forall_mem_cons.mpr ⟨ha, hf⟩, hb⟩
    · rintro ⟨front, b, rest, hl, hf, hb⟩
      cases front with
      | nil =>
        cases hl
        exact .inl hb
      | cons x front =>
        cases hl
        rw [forall_mem_cons] at hf
        exact .inr ⟨hf.1, front, b, rest, rfl, hf.2, hb⟩

theorem Hits.mono {P Q Q' : α → Prop} (h : Hits P Q l) (hQ : ∀ a ∈ l, Q a → Q' a) : Hits P Q' l := by
  induction l with
  | nil => exact h
  | cons a l ih =>
    rw [forall_mem_cons] at hQ
    exact h.imp (hQ.1) fun h => ⟨h.1, ih h.2 hQ.2⟩

theorem not_safe_foldlM {Goes Panics : α → Prop}
    (hg : ∀ s a, (∃ s', step s a = .ok s') ↔ Goes a) (hp : ∀ s a, ¬ Safe (step s a) ↔ Panics a)
    : ¬ Safe (l.foldlM step s) ↔ Hits Goes Panics l := by
  induction l generalizing s with
  | nil => simp [pure, Except.pure, Hits]
  | cons a l ih =>
    rw [foldlM_cons, safe_bind, Hits, ← hp s a, ← hg s a, not_and_or, not_forall]
    refine or_congr_right ?_
    constructor
    · rintro ⟨s', h⟩
      obtain ⟨hs', hr⟩ := not_forall.mp h
      exact ⟨⟨s', hs'⟩, ih.mp hr⟩
    · rintro ⟨⟨s', hs'⟩, hr⟩
      exact ⟨s', fun h => ih.mpr hr (h hs')⟩

/-! ## Panic or result -/

/-- The computation panics if `P`, and otherwise it returns a value with `Q`. -/
structure Ends (x : Outcome ε π α) (P : Prop) (Q : α → Prop) : Prop where
  panics : P → ¬ Safe x
  returns : ¬ P → ∃ a, x = .ok a ∧ Q a

namespace Ends

variable {x : Outcome ε π α} {P P' : Prop} {Q : α → Prop} {R : β → Prop}

theorem safe_iff (h : Ends x P Q) : Safe x ↔ ¬ P := by
  refine ⟨fun hs hP => h.panics hP hs, fun hP => ?_⟩
  obtain ⟨a, rfl, -⟩ := h.returns hP
  exact safe_ok a

theorem of_ok {a : α} (hP : ¬ P) (hQ : Q a) : Ends (.ok a : Outcome ε π α) P Q :=
  ⟨fun h => absurd h hP, fun _ => ⟨a, rfl, hQ⟩⟩

theorem congr (h : Ends x P Q) (hP : P' ↔ P) : Ends x P' Q :=
  ⟨fun h' => h.panics (hP.mp h'), fun h' => h.returns fun hp => h' (hP.mpr hp)⟩

theorem map {f : α → β} (h : Ends x P Q) (hR : ∀ a, Q a → R (f a)) : Ends (x.map f : Outcome ε π β) P R := by
  refine ⟨fun hP => (safe_map x f).not.mpr (h.panics hP), fun hP => ?_⟩
  obtain ⟨a, rfl, ha⟩ := h.returns hP
  exact ⟨f a, rfl, hR a ha⟩

theorem bind {f : α → Outcome ε π β} (h : Ends x P Q) (hf : ∀ a, Q a → Ends (f a) P' R) :
    Ends (x >>= f) (P ∨ P') R := by
  by_cases hP : P
  · refine ⟨fun _ hs => h.panics hP ((safe_bind x f).mp hs).1, fun h' => absurd (.inl hP) h'⟩
  · obtain ⟨a, rfl, ha⟩ := h.returns hP
    exact (hf a ha).congr (or_iff_right hP)

end Ends

/-!
## Loops over maps

The bodies are run in any order, up to one that stops the loop.
-/

structure Order (ε π : Type) where
  on : {α : Type} → List (Outcome ε π α) → List (Outcome ε π α)
  perm : ∀ {α : Type} (bodies : List (Outcome ε π α)), (on bodies).Perm bodies

namespace Order

def asListed : Order ε π := ⟨id, fun _ => .rfl⟩

/-- The results are listed in the order of the bodies. -/
def range (order : Order ε π) (bodies : List (Outcome ε π α)) : Outcome ε π (List α) := do
  let _ ← (order.on bodies).mapM id
  bodies.mapM id

/-- A loop that a body can leave, by the result `none`. -/
def leave : List (Outcome ε π (Option α)) → Outcome ε π (List α)
  | [] => .ok []
  | x :: bodies => x >>= fun
    | none => .ok []
    | some a => (leave bodies).map (a :: ·)

def rangeLeave (order : Order ε π) (bodies : List (Outcome ε π (Option α))) : Outcome ε π (List α) :=
  leave (order.on bodies)

def panics : Outcome ε π α → Bool
  | .error (.panic _) => true
  | _ => false

def panicsFirst : Order ε π where
  on bodies := bodies.filter panics ++ bodies.filter fun x => !panics x
  perm bodies := List.filter_append_perm panics bodies

end Order

variable {as : List α}

theorem mapM_id_eq_ok : bodies.mapM id = .ok as ↔ bodies = as.map .ok := by
  induction bodies generalizing as with
  | nil => cases as <;> simp [pure, Except.pure]
  | cons x bodies ih =>
    rw [mapM_cons, bind_eq_ok]
    cases as with
    | nil => simp [bind_eq_ok, pure, Except.pure]
    | cons a as => simp [bind_eq_ok, pure, Except.pure, ih]

theorem exists_map_ok (h : ∀ x ∈ bodies, ∃ a, x = .ok a) : ∃ as : List α, bodies = as.map .ok := by
  induction bodies with
  | nil => exact ⟨[], rfl⟩
  | cons x bodies ih =>
    rw [forall_mem_cons] at h
    obtain ⟨⟨a, rfl⟩, h⟩ := h
    obtain ⟨as, rfl⟩ := ih h
    exact ⟨a :: as, rfl⟩

theorem safe_mapM_id (h : ∀ x ∈ bodies, Safe x) : Safe (bodies.mapM id) := by
  induction bodies with
  | nil => exact safe_ok []
  | cons x bodies ih =>
    rw [forall_mem_cons] at h
    rw [mapM_cons, safe_bind]
    refine ⟨h.1, fun a _ => ?_⟩
    rw [safe_bind]
    exact ⟨ih h.2, fun as _ => safe_ok _⟩

variable {order : Order ε π}

theorem range_eq_ok : order.range bodies = .ok as ↔ bodies = as.map .ok := by
  unfold Order.range
  rw [bind_eq_ok]
  simp only [mapM_id_eq_ok]
  constructor
  · rintro ⟨-, -, h⟩
    exact h
  · intro h
    obtain ⟨bs, hbs⟩ : ∃ bs : List α, order.on bodies = bs.map .ok := by
      apply exists_map_ok
      intro x hx
      rw [(order.perm bodies).mem_iff, h, mem_map] at hx
      obtain ⟨a, -, ha⟩ := hx
      exact ⟨a, ha.symm⟩
    exact ⟨bs, hbs, h⟩

theorem safe_range (h : ∀ x ∈ bodies, Safe x) : Safe (order.range bodies) := by
  unfold Order.range
  rw [safe_bind]
  refine ⟨safe_mapM_id fun x hx => h x ((order.perm bodies).mem_iff.mp hx), fun _ _ => safe_mapM_id h⟩

theorem safe_iff_not_panics {x : Outcome ε π α} : Safe x ↔ Order.panics x = false := by
  match x with
  | .ok a => simp [Order.panics]
  | .error (.error e) => simp [Order.panics]
  | .error (.panic p) => simp [Order.panics]

theorem exists_panicsFirst (h : ¬ ∀ x ∈ bodies, Safe x) :
    ∃ p rest, Order.panicsFirst.on bodies = .error (.panic p) :: rest := by
  push Not at h
  obtain ⟨x, hx, hp⟩ := h
  rw [safe_iff_not_panics, Bool.not_eq_false] at hp
  have hmem : x ∈ bodies.filter Order.panics := mem_filter.mpr ⟨hx, hp⟩
  cases hf : bodies.filter Order.panics with
  | nil => simp [hf] at hmem
  | cons y ys =>
    have hy : Order.panics y = true := (mem_filter.mp (hf ▸ mem_cons_self)).2
    have hon : Order.panicsFirst.on bodies = y :: (ys ++ bodies.filter fun x => !Order.panics x) := by
      rw [← cons_append, ← hf]
      rfl
    match y with
    | .error (.panic p) => exact ⟨p, _, hon⟩
    | .error (.error e) => simp [Order.panics] at hy
    | .ok a => simp [Order.panics] at hy

theorem safe_of_safe_range (h : Safe (Order.panicsFirst.range bodies)) : ∀ x ∈ bodies, Safe x := by
  by_contra hne
  obtain ⟨p, rest, hon⟩ := exists_panicsFirst hne
  rw [Order.range, hon, mapM_cons] at h
  exact absurd h (not_safe_panic p)

variable {bodies : List (Outcome ε π (Option α))}

theorem safe_rangeLeave (h : ∀ x ∈ bodies, Safe x) : Safe (order.rangeLeave bodies) := by
  have hl (bodies : List (Outcome ε π (Option α))) (h : ∀ x ∈ bodies, Safe x) : Safe (Order.leave bodies) := by
    induction bodies with
    | nil => exact safe_ok []
    | cons x bodies ih =>
      rw [forall_mem_cons] at h
      rw [Order.leave, safe_bind]
      refine ⟨h.1, fun a _ => ?_⟩
      cases a with
      | none => exact safe_ok []
      | some a => exact (safe_map _ _).mpr (ih h.2)
  exact hl _ fun x hx => h x ((order.perm bodies).mem_iff.mp hx)

theorem safe_of_safe_rangeLeave (h : Safe (Order.panicsFirst.rangeLeave bodies)) : ∀ x ∈ bodies, Safe x := by
  by_contra hne
  obtain ⟨p, rest, hon⟩ := exists_panicsFirst hne
  rw [Order.rangeLeave, hon, Order.leave] at h
  exact absurd h (not_safe_panic p)

theorem exists_ok_of_safe {x : Outcome Empty π α} (h : Safe x) : ∃ a, x = .ok a := by
  match x with
  | .ok a => exact ⟨a, rfl⟩
  | .error (.error e) => exact e.elim
  | .error (.panic p) => exact absurd h (not_safe_panic p)

theorem safe_bind_iff {x : Outcome Empty π α} {f : α → Outcome Empty π β} {P : Prop} (h : ∀ a, Safe (f a) ↔ P) :
    Safe (x >>= f) ↔ Safe x ∧ P := by
  rw [safe_bind]
  refine and_congr_right fun hx => ?_
  obtain ⟨a, rfl⟩ := exists_ok_of_safe hx
  simp [h]

theorem safe_foldlM_iff {step : σ → α → Outcome Empty π σ} {P : α → Prop} (h : ∀ s a, Safe (step s a) ↔ P a)
    : Safe (l.foldlM step s) ↔ ∀ a ∈ l, P a := by
  refine safe_foldlM (fun _ _ => True) ?_ ?_ trivial
  · intro a _ s _ ha
    obtain ⟨s', hs'⟩ := exists_ok_of_safe ((h s a).mpr ha)
    exact ⟨s', hs', trivial⟩
  · exact fun a _ s _ hsa => (h s a).mp hsa

def lift : Outcome Empty π α → Outcome ε π α
  | .ok a => .ok a
  | .error (.panic p) => .error (.panic p)

@[simp] theorem safe_lift (x : Outcome Empty π α) : Safe (lift x : Outcome ε π α) ↔ Safe x := by
  match x with
  | .ok a => simp [lift]
  | .error (.panic p) => simp [lift]

def attempt : Outcome ε π α → Outcome Empty π (Option α)
  | .ok a => .ok (some a)
  | .error (.error _) => .ok none
  | .error (.panic p) => .error (.panic p)

@[simp] theorem safe_attempt : Safe (attempt x) ↔ Safe x := by
  match x with
  | .ok a => simp [attempt]
  | .error (.error e) => simp [attempt]
  | .error (.panic p) => simp [attempt]

/-- What a computation that ranges over maps returns does not depend on the order. -/
def Steady (x : Order ε π → Outcome ε π α) : Prop :=
  ∀ order order' a, x order = .ok a → x order' = .ok a

namespace Steady

variable {x : Order ε π → Outcome ε π α}

theorem eq_ok_iff (h : Steady x) (order order' : Order ε π) {a : α} : x order = .ok a ↔ x order' = .ok a :=
  ⟨h order order' a, h order' order a⟩

theorem const (x : Outcome ε π α) : Steady fun _ => x := fun _ _ _ h => h

theorem bind (h : Steady x) (f : α → Outcome ε π β) : Steady fun order => x order >>= f := by
  intro order order' b hb
  rw [bind_eq_ok] at hb ⊢
  obtain ⟨a, ha, hb⟩ := hb
  exact ⟨a, h order order' a ha, hb⟩

theorem map (h : Steady x) (f : α → β) : Steady fun order => ((x order).map f : Outcome ε π β) := by
  intro order order' b hb
  rw [map_eq_ok] at hb ⊢
  obtain ⟨a, ha, rfl⟩ := hb
  exact ⟨a, h order order' a ha, rfl⟩

theorem range {body : Order ε π → β → Outcome ε π α} {l : List β} (h : ∀ b ∈ l, Steady (body · b)) :
    Steady fun order => order.range (l.map (body order)) := by
  intro order order' as has
  rw [range_eq_ok] at has ⊢
  induction l generalizing as with
  | nil => exact has
  | cons b l ih =>
    cases as with
    | nil => simp at has
    | cons a as =>
      rw [forall_mem_cons] at h
      simp only [map_cons, cons.injEq] at has ⊢
      exact ⟨h.1 order order' a has.1, ih h.2 as has.2⟩

theorem foldlM {step : Order ε π → σ → α → Outcome ε π σ} {l : List α} {s : σ}
    (h : ∀ a ∈ l, ∀ s, Steady (step · s a)) : Steady fun order => l.foldlM (step order) s := by
  intro order order' t ht
  induction l generalizing s with
  | nil => exact ht
  | cons a l ih =>
    rw [forall_mem_cons] at h
    simp only [foldlM_cons, bind_eq_ok] at ht ⊢
    obtain ⟨s', hs', ht⟩ := ht
    exact ⟨s', h.1 s order order' s' hs', ih h.2 ht⟩

end Steady

/-- A computation that ranges over maps panics in some order if and only if `P`. -/
structure PanicsIff (x : Order ε π → Outcome ε π α) (P : Prop) : Prop where
  panics : P → ¬ Safe (x .panicsFirst)
  safe : ¬ P → ∀ order, Safe (x order)

namespace PanicsIff

variable {P Q : Prop} {x : Order ε π → Outcome ε π α}

theorem forall_safe (h : PanicsIff x P) : (∀ order, Safe (x order)) ↔ ¬ P :=
  ⟨fun hs hP => h.panics hP (hs _), h.safe⟩

theorem congr (h : PanicsIff x P) (hPQ : Q ↔ P) : PanicsIff x Q :=
  ⟨fun hQ => h.panics (hPQ.mp hQ), fun hQ => h.safe fun hP => hQ (hPQ.mpr hP)⟩

theorem of_safe (hx : ∀ order, Safe (x order)) (hP : ¬ P) : PanicsIff x P :=
  ⟨fun h => absurd h hP, fun _ => hx⟩

theorem map (h : PanicsIff x P) (f : α → β) : PanicsIff (fun order => ((x order).map f : Outcome ε π β)) P :=
  ⟨fun hP hs => h.panics hP ((safe_map _ f).mp hs), fun hP order => (safe_map _ f).mpr (h.safe hP order)⟩

theorem range {body : Order ε π → β → Outcome ε π α} {P : β → Prop} {l : List β}
    (h : ∀ b ∈ l, PanicsIff (fun order => body order b) (P b)) :
    PanicsIff (fun order => order.range (l.map (body order))) (∃ b ∈ l, P b) := by
  constructor
  · rintro ⟨b, hb, hP⟩ hs
    exact (h b hb).panics hP (safe_of_safe_range hs _ (mem_map_of_mem hb))
  · intro hP order
    refine safe_range (forall_mem_map.mpr fun b hb => (h b hb).safe (fun hPb => hP ⟨b, hb, hPb⟩) order)

theorem rangeLeave {body : Order ε π → β → Outcome ε π (Option α)} {P : β → Prop} {l : List β}
    (h : ∀ b ∈ l, PanicsIff (fun order => body order b) (P b)) :
    PanicsIff (fun order => order.rangeLeave (l.map (body order))) (∃ b ∈ l, P b) := by
  constructor
  · rintro ⟨b, hb, hP⟩ hs
    exact (h b hb).panics hP (safe_of_safe_rangeLeave hs _ (mem_map_of_mem hb))
  · intro hP order
    refine safe_rangeLeave (forall_mem_map.mpr fun b hb => (h b hb).safe (fun hPb => hP ⟨b, hb, hPb⟩) order)

theorem bind {x : Order Empty π → Outcome Empty π α} {y : Order Empty π → α → Outcome Empty π β} (h : PanicsIff x P)
    (hy : ¬ P → ∀ a, PanicsIff (fun order => y order a) Q) : PanicsIff (fun order => x order >>= y order) (P ∨ Q) := by
  constructor
  · intro hPQ hs
    rw [safe_bind] at hs
    obtain ⟨a, ha⟩ := exists_ok_of_safe hs.1
    have hP : ¬ P := fun hP => h.panics hP hs.1
    exact (hy hP a).panics (hPQ.resolve_left hP) (hs.2 a ha)
  · intro hPQ order
    obtain ⟨hP, hQ⟩ := not_or.mp hPQ
    rw [safe_bind]
    exact ⟨h.safe hP order, fun a _ => (hy hP a).safe hQ order⟩

end PanicsIff

end Outcome

end Collector.Lib
