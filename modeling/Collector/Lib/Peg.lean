import Mathlib.Data.List.Basic

/-!
# Parsing expressions over tokens

A rule gives the tokens that it captures and those that it leaves. `butNot r` takes one token where `r` does not match.
-/

namespace Collector.Lib.Peg

open List Option

variable {T A : Type}

abbrev Rule (T : Type) := List T → Option (List T × List T)

def one (p : T → Bool) : Rule T
  | [] => none
  | t :: ts => if p t then some ([t], ts) else none

def pick (f : T → Option A) : List T → Option (A × List T)
  | [] => none
  | t :: ts => (f t).map fun a => (a, ts)

def drop (r : Rule T) : Rule T := fun ts => (r ts).map fun m => ([], m.2)

def seq (r r' : Rule T) : Rule T := fun ts =>
  (r ts).bind fun m => (r' m.2).map fun m' => (m.1 ++ m'.1, m'.2)

def alt (r r' : Rule T) : Rule T := fun ts => (r ts).or (r' ts)

def opt (r : Rule T) : Rule T := fun ts => some ((r ts).getD ([], ts))

def ahead (r : Rule T) : Rule T := fun ts => (r ts).map fun _ => ([], ts)

def butNot (r : Rule T) : Rule T
  | [] => none
  | t :: ts => if (r (t :: ts)).isSome then none else some ([t], ts)

def rounds (r : Rule T) : Nat → List T → List T × List T
  | 0, ts => ([], ts)
  | n + 1, ts =>
    match r ts with
    | none => ([], ts)
    | some (a, rest) => (a ++ (rounds r n rest).1, (rounds r n rest).2)

def many (r : Rule T) : Rule T := fun ts => some (rounds r ts.length ts)

def plus (r : Rule T) : Rule T := seq r (many r)

/-! ## What a rule matches -/

variable {rest : List T}

theorem one_eq_some {p : T → Bool} {ts a : List T} :
    one p ts = some (a, rest) ↔ ∃ t, p t = true ∧ a = [t] ∧ ts = t :: rest := by
  cases ts with
  | nil => simp [one]
  | cons t ts =>
    rw [one]
    split_ifs with h
    · constructor
      · intro heq
        cases heq
        exact ⟨t, h, rfl, rfl⟩
      · rintro ⟨t', -, rfl, heq⟩
        cases heq
        rfl
    · constructor
      · intro heq
        cases heq
      · rintro ⟨t', ht, -, heq⟩
        cases heq
        exact absurd ht h

theorem pick_eq_some {f : T → Option A} {ts : List T} {a : A} :
    pick f ts = some (a, rest) ↔ ∃ t, f t = some a ∧ ts = t :: rest := by
  cases ts with
  | nil => simp [pick]
  | cons t ts =>
    rw [pick, map_eq_some_iff]
    constructor
    · rintro ⟨b, hb, heq⟩
      cases heq
      exact ⟨t, hb, rfl⟩
    · rintro ⟨t', ht, heq⟩
      cases heq
      exact ⟨a, ht, rfl⟩

variable {r' : Rule T}

theorem seq_eq_some {r : Rule T} {ts a : List T} : seq r r' ts = some (a, rest) ↔
      ∃ b mid c, r ts = some (b, mid) ∧ r' mid = some (c, rest) ∧ a = b ++ c := by
  unfold seq
  rw [bind_eq_some_iff]
  constructor
  · rintro ⟨⟨b, mid⟩, hr, h⟩
    obtain ⟨⟨c, rest'⟩, hr', heq⟩ := map_eq_some_iff.mp h
    cases heq
    exact ⟨b, mid, c, hr, hr', rfl⟩
  · rintro ⟨b, mid, c, hr, hr', rfl⟩
    exact ⟨(b, mid), hr, map_eq_some_iff.mpr ⟨(c, rest), hr', rfl⟩⟩

theorem isSome_seq_ahead {r : Rule T} {ts : List T} :
    (seq r (ahead r') ts).isSome = true ↔ ∃ b mid, r ts = some (b, mid) ∧ (r' mid).isSome = true := by
  rw [isSome_iff_exists]
  constructor
  · rintro ⟨⟨a, rest⟩, h⟩
    obtain ⟨b, mid, c, hr, hr', -⟩ := seq_eq_some.mp h
    obtain ⟨m, hm, -⟩ := map_eq_some_iff.mp hr'
    exact ⟨b, mid, hr, by rw [hm]; rfl⟩
  · rintro ⟨b, mid, hr, h⟩
    obtain ⟨m, hm⟩ := isSome_iff_exists.mp h
    exact ⟨(b ++ [], mid), seq_eq_some.mpr ⟨b, mid, [], hr, by rw [ahead, hm]; rfl, rfl⟩⟩

theorem isSome_alt {r : Rule T} {ts : List T} :
    (alt r r' ts).isSome = true ↔ (r ts).isSome = true ∨ (r' ts).isSome = true := by
  unfold alt
  rw [isSome_or, Bool.or_eq_true]

/-! ## Up to the first stop -/

def spanBefore (stop : List T → Bool) : List T → List T × List T
  | [] => ([], [])
  | t :: ts =>
    if stop (t :: ts) then ([], t :: ts)
    else (t :: (spanBefore stop ts).1, (spanBefore stop ts).2)

section
variable (stop : List T → Bool)

theorem spanBefore_append_eq (ts : List T) : (spanBefore stop ts).1 ++ (spanBefore stop ts).2 = ts := by
  induction ts with
  | nil => rfl
  | cons t ts ih =>
    unfold spanBefore
    split
    · rfl
    · simp [ih]

theorem spanBefore_rest (ts : List T) : (spanBefore stop ts).2 = [] ∨ stop (spanBefore stop ts).2 = true := by
  induction ts with
  | nil => exact Or.inl rfl
  | cons t ts ih =>
    unfold spanBefore
    split_ifs with h
    · exact Or.inr h
    · exact ih

theorem spanBefore_over (a b : List T) (h : ∀ x y, a = x ++ y → y ≠ [] → stop (y ++ b) = false) :
    spanBefore stop (a ++ b) = (a ++ (spanBefore stop b).1, (spanBefore stop b).2) := by
  induction a with
  | nil => rfl
  | cons t a ih =>
    have hs : stop (t :: (a ++ b)) = false := h [] (t :: a) rfl (by simp)
    have ht := ih fun x y hxy => h (t :: x) y (by rw [hxy]; rfl)
    rw [cons_append, spanBefore, hs, if_neg (by decide), ht]
    rfl

theorem spanBefore_of_stop (b : List T) (h : b = [] ∨ stop b = true) : spanBefore stop b = ([], b) := by
  cases b with
  | nil => rfl
  | cons t b =>
    have hs : stop (t :: b) = true := by simpa using h
    rw [spanBefore, if_pos hs]

theorem spanBefore_no_stop (ts x y : List T) (h : (spanBefore stop ts).1 = x ++ y) (hy : y ≠ []) :
    stop (y ++ (spanBefore stop ts).2) = false := by
  induction ts generalizing x with
  | nil =>
    have hnil := append_eq_nil_iff.mp h.symm
    exact absurd hnil.2 hy
  | cons t ts ih =>
    unfold spanBefore at h ⊢
    split_ifs at h with hs
    · exact absurd (append_eq_nil_iff.mp h.symm).2 hy
    · rw [if_neg hs]
      cases x with
      | nil =>
        have hall := spanBefore_append_eq stop ts
        rw [← nil_append y, ← h]
        simpa [hall] using hs
      | cons t' x => exact ih x (cons.inj h).2

theorem spanBefore_suffix (ts x y : List T) (h : (spanBefore stop ts).1 = x ++ y) :
    spanBefore stop (y ++ (spanBefore stop ts).2) = (y, (spanBefore stop ts).2) := by
  have ho := spanBefore_over stop y (spanBefore stop ts).2 fun x' y' hxy hy =>
    spanBefore_no_stop stop ts (x ++ x') y' (by rw [h, hxy, append_assoc]) hy
  rw [ho, spanBefore_of_stop _ _ (spanBefore_rest stop ts)]
  simp

end

/-! ## Repetitions in closed form -/

section
variable (r : Rule T)

theorem rounds_of_none (n : Nat) {ts : List T} (h : r ts = none) : rounds r n ts = ([], ts) := by
  cases n with
  | zero => rfl
  | succ n => rw [rounds, h]

variable (ts : List T)

theorem rounds_butNot : rounds (butNot r) ts.length ts = spanBefore (fun ts => (r ts).isSome) ts := by
  induction ts with
  | nil => rfl
  | cons t ts ih =>
    rw [length_cons, rounds, butNot, spanBefore]
    cases (r (t :: ts)).isSome with
    | true => rfl
    | false => simp [ih]

theorem many_butNot : many (butNot r) ts = some (spanBefore (fun ts => (r ts).isSome) ts) :=
  congrArg some (rounds_butNot r ts)

theorem plus_butNot : plus (butNot r) ts =
      if (spanBefore (fun ts => (r ts).isSome) ts).1 = [] then none
      else some (spanBefore (fun ts => (r ts).isSome) ts) := by
  unfold plus seq
  cases ts with
  | nil => rfl
  | cons t ts =>
    rw [butNot, spanBefore]
    cases (r (t :: ts)).isSome with
    | true => rfl
    | false => simp [many_butNot]

theorem many_plus_butNot : many (plus (butNot r)) ts = some (spanBefore (fun ts => (r ts).isSome) ts) := by
  unfold many
  congr 1
  have hs : ∀ n, rounds (plus (butNot r)) n (spanBefore (fun ts => (r ts).isSome) ts).2 =
      ([], (spanBefore (fun ts => (r ts).isSome) ts).2) := by
    intro n
    have hnil := spanBefore_of_stop (fun ts => (r ts).isSome) _ (spanBefore_rest (fun ts => (r ts).isSome) ts)
    exact rounds_of_none _ n (by rw [plus_butNot, hnil, if_pos rfl])
  cases ts with
  | nil => rfl
  | cons t ts =>
    rw [length_cons, rounds, plus_butNot]
    by_cases he : (spanBefore (fun ts => (r ts).isSome) (t :: ts)).1 = []
    · have hall := spanBefore_append_eq (fun ts => (r ts).isSome) (t :: ts)
      rw [he, nil_append] at hall
      rw [if_pos he]
      exact Prod.ext he.symm hall.symm
    · rw [if_neg he]
      dsimp only
      rw [hs]
      simp

variable (p : T → Bool)

theorem many_one {ts : List T} (h : ∀ t ∈ ts, p t = true) : many (one p) ts = some (ts, []) := by
  unfold many
  congr 1
  induction ts with
  | nil => rfl
  | cons t ts ih =>
    rw [length_cons, rounds, one, if_pos (h t mem_cons_self)]
    have hta := ih fun t ht => h t (mem_cons_of_mem _ ht)
    simp [hta]

theorem plus_one {t : T} {ts : List T} (h : ∀ u ∈ t :: ts, p u = true) :
    plus (one p) (t :: ts) = some (t :: ts, []) := by
  unfold plus seq
  rw [one, if_pos (h t mem_cons_self), bind_some, many_one p fun u hu => h u (mem_cons_of_mem _ hu)]
  rfl

theorem alt_one (q : T → Bool) : alt (one p) (one q) = one fun t => p t || q t := by
  funext ts
  unfold alt
  cases ts with
  | nil => rfl
  | cons t ts => cases hp : p t <;> cases hq : q t <;> simp [one, hp, hq]

end

end Collector.Lib.Peg
