import Mathlib.Data.List.Basic

/-!
# Lists joined by a doubled delimiter

`splitDouble` undoes `joinDouble` for exactly the parts of `GoodParts`: no part holds the delimiter, and only the last
may end in `d`.
-/

namespace Collector.Lib

open List

variable {α : Type} [DecidableEq α]
variable {d : α}

def joinDouble (d : α) : List (List α) → List α
  | [] => []
  | [p] => p
  | p :: q :: ps => p ++ d :: d :: joinDouble d (q :: ps)

def splitDouble (d : α) : List α → List (List α)
  | [] => [[]]
  | [a] => [[a]]
  | a :: b :: l =>
    if a = d ∧ b = d then [] :: splitDouble d l else (splitDouble d (b :: l)).modifyHead (a :: ·)

def NoDouble (d : α) : List α → Prop
  | a :: b :: l => ¬ (a = d ∧ b = d) ∧ NoDouble d (b :: l)
  | _ => True

def GoodParts (d : α) : List (List α) → Prop
  | [] => False
  | [p] => NoDouble d p
  | p :: q :: ps => NoDouble d p ∧ p.getLast? ≠ some d ∧ GoodParts d (q :: ps)

theorem splitDouble_ne_nil (d : α) (l : List α) : splitDouble d l ≠ [] := by
  induction l using splitDouble.induct d with
  | case1 => simp [splitDouble]
  | case2 a => simp [splitDouble]
  | case3 a b l h ih => simp [splitDouble, h]
  | case4 a b l h ih => simp [splitDouble, h, ih]

variable {ps : List (List α)}

omit [DecidableEq α] in
theorem joinDouble_modifyHead (d a : α) (h : ps ≠ []) :
    joinDouble d (ps.modifyHead (a :: ·)) = a :: joinDouble d ps := by
  match ps, h with
  | [p], _ => rfl
  | p :: q :: ps, _ => rfl

theorem joinDouble_splitDouble (d : α) (l : List α) : joinDouble d (splitDouble d l) = l := by
  induction l using splitDouble.induct d with
  | case1 => rfl
  | case2 a => rfl
  | case3 a b l h ih =>
    obtain ⟨rfl, rfl⟩ := h
    obtain ⟨p, ps, hp⟩ := exists_cons_of_ne_nil (splitDouble_ne_nil b l)
    simp only [splitDouble, and_self, if_true]
    rw [hp] at ih ⊢
    simp [joinDouble, ih]
  | case4 a b l h ih =>
    rw [splitDouble, if_neg h, joinDouble_modifyHead _ _ (splitDouble_ne_nil _ _), ih]

variable {p : List α}

theorem splitDouble_head {d b : α} {l : List α}
    (h : splitDouble d (b :: l) = p :: ps) : (p = [] ∧ b = d) ∨ ∃ p', p = b :: p' := by
  cases l with
  | nil => simp only [splitDouble, cons.injEq] at h; exact Or.inr ⟨[], h.1.symm⟩
  | cons c l =>
    rw [splitDouble] at h
    split_ifs at h with hd
    · simp only [cons.injEq] at h
      exact Or.inl ⟨h.1.symm, hd.1⟩
    · obtain ⟨q, qs, hq⟩ := exists_cons_of_ne_nil (splitDouble_ne_nil d (c :: l))
      rw [hq] at h
      simp only [modifyHead_cons, cons.injEq] at h
      exact Or.inr ⟨q, h.1.symm⟩

theorem splitDouble_good (d : α) (l : List α) : GoodParts d (splitDouble d l) := by
  induction l using splitDouble.induct d with
  | case1 => trivial
  | case2 a => trivial
  | case3 a b l h ih =>
    obtain ⟨p, ps, hp⟩ := exists_cons_of_ne_nil (splitDouble_ne_nil d l)
    rw [splitDouble, if_pos h]
    rw [hp] at ih ⊢
    exact ⟨trivial, by simp, ih⟩
  | case4 a b l h ih =>
    rw [splitDouble, if_neg h]
    obtain ⟨p, ps, hp⟩ := exists_cons_of_ne_nil (splitDouble_ne_nil d (b :: l))
    rw [hp] at ih ⊢
    rcases splitDouble_head hp with ⟨rfl, rfl⟩ | ⟨p', rfl⟩
    · -- The delimiter follows `a`, so `a` is a part of its own and is not `d`.
      have ha : a ≠ b := fun hab => h ⟨hab, rfl⟩
      cases ps with
      | nil => trivial
      | cons q qs => exact ⟨trivial, by simpa using ha, ih.2.2⟩
    · cases ps with
      | nil => exact ⟨h, ih⟩
      | cons q qs => exact ⟨⟨h, ih.1⟩, by simpa using ih.2.1, ih.2.2⟩

theorem splitDouble_of_noDouble {d : α} (h : NoDouble d p) : splitDouble d p = [p] := by
  induction p using splitDouble.induct d with
  | case1 => rfl
  | case2 a => rfl
  | case3 a b l hd _ => exact absurd hd h.1
  | case4 a b l hd ih => rw [splitDouble, if_neg hd, ih h.2]; rfl

theorem splitDouble_append {d : α} (r : List α) (h : NoDouble d p) (hl : p.getLast? ≠ some d) :
    splitDouble d (p ++ d :: d :: r) = p :: splitDouble d r := by
  induction p using splitDouble.induct d with
  | case1 => simp [splitDouble]
  | case2 a =>
    have ha : a ≠ d := by simpa using hl
    simp [splitDouble, ha]
  | case3 a b l hd _ => exact absurd hd h.1
  | case4 a b l hd ih =>
    have hr := ih h.2 (by simpa using hl)
    simp only [cons_append] at hr ⊢
    rw [splitDouble, if_neg hd, hr]
    rfl

theorem splitDouble_joinDouble {d : α} (h : GoodParts d ps) : splitDouble d (joinDouble d ps) = ps := by
  induction ps using joinDouble.induct with
  | case1 => exact h.elim
  | case2 p => exact splitDouble_of_noDouble h
  | case3 p q ps ih =>
    rw [joinDouble, splitDouble_append _ h.1 h.2.1, ih h.2.2]

/-- The parts come back from the joined list exactly when they are good. -/
theorem splitDouble_joinDouble_iff (d : α) (ps : List (List α)) :
    splitDouble d (joinDouble d ps) = ps ↔ GoodParts d ps :=
  ⟨fun h => h ▸ splitDouble_good d (joinDouble d ps), splitDouble_joinDouble⟩

omit [DecidableEq α] in
theorem noDouble_of_notMem (h : d ∉ p) : NoDouble d p := by
  induction p with
  | nil => trivial
  | cons a p ih =>
    have ih := ih fun hp => h (.tail _ hp)
    cases p with
    | nil => trivial
    | cons b p => exact ⟨fun hd => h (hd.1 ▸ mem_cons_self), ih⟩

omit [DecidableEq α] in
theorem NoDouble.of_append {a b : List α} (h : NoDouble d (a ++ b)) : NoDouble d b := by
  induction a with
  | nil => exact h
  | cons c a ih =>
    apply ih
    rw [cons_append] at h
    cases hab : a ++ b with
    | nil => trivial
    | cons e l =>
      rw [hab] at h
      exact h.2

theorem splitDouble_cons (h : d ∉ p) (r : List α) : splitDouble d (p ++ d :: d :: r) = p :: splitDouble d r :=
  splitDouble_append r (noDouble_of_notMem h) fun hl => h (mem_of_getLast? hl)

theorem splitDouble_append_double (d : α) (u v : List α) (hl : u.getLast? ≠ some d) :
    splitDouble d (u ++ d :: d :: v) = splitDouble d u ++ splitDouble d v := by
  induction u using splitDouble.induct d with
  | case1 => simp [splitDouble]
  | case2 a =>
    have ha : a ≠ d := by simpa using hl
    simp [splitDouble, ha]
  | case3 a b l hd ih =>
    rw [cons_append, cons_append, splitDouble, if_pos hd, splitDouble, if_pos hd]
    cases l with
    | nil => simp [hd.2] at hl
    | cons c l => rw [ih (by simpa using hl), cons_append]
  | case4 a b l hd ih =>
    have hr := ih (by simpa using hl)
    obtain ⟨q, qs, hq⟩ := exists_cons_of_ne_nil (splitDouble_ne_nil d (b :: l))
    rw [cons_append] at hr
    rw [cons_append, cons_append, splitDouble, if_neg hd, hr, splitDouble, if_neg hd, hq]
    rfl

theorem exists_splitDouble_head (d : α) (u : List α) :
    ∃ p, p <+: u ∧ ∀ v, ∃ ps, ps ≠ [] ∧ splitDouble d (u ++ d :: d :: v) = p :: ps := by
  induction u using splitDouble.induct d with
  | case1 => exact ⟨[], nil_prefix, fun v => ⟨_, splitDouble_ne_nil d v, by simp [splitDouble]⟩⟩
  | case2 a =>
    by_cases ha : a = d
    · refine ⟨[], nil_prefix, fun v => ⟨_, splitDouble_ne_nil d (d :: v), ?_⟩⟩
      simp [splitDouble, ha]
    · refine ⟨[a], prefix_rfl, fun v => ⟨_, splitDouble_ne_nil d v, ?_⟩⟩
      simp [splitDouble, ha]
  | case3 a b l hd ih =>
    refine ⟨[], nil_prefix, fun v => ⟨_, splitDouble_ne_nil d (l ++ d :: d :: v), ?_⟩⟩
    rw [cons_append, cons_append, splitDouble, if_pos hd]
  | case4 a b l hd ih =>
    obtain ⟨p, hp, hs⟩ := ih
    refine ⟨a :: p, cons_prefix_cons.mpr ⟨rfl, hp⟩, fun v => ?_⟩
    obtain ⟨ps, hps, heq⟩ := hs v
    refine ⟨ps, hps, ?_⟩
    rw [cons_append] at heq
    rw [cons_append, cons_append, splitDouble, if_neg hd, heq, modifyHead_cons]

omit [DecidableEq α] in
theorem joinDouble_append_head (d : α) (w p : List α) (ps : List (List α)) :
    joinDouble d ((w ++ p) :: ps) = w ++ joinDouble d (p :: ps) := by
  cases ps with
  | nil => rfl
  | cons q ps => simp [joinDouble]

theorem splitDouble_append_head {d : α} {w : List α} (l : List α) (hw : d ∉ w) :
    splitDouble d (w ++ l) = (splitDouble d l).modifyHead (w ++ ·) := by
  induction w with
  | nil => cases h : splitDouble d l <;> simp [h]
  | cons a w ih =>
    have ha : a ≠ d := fun h => hw (h ▸ mem_cons_self)
    have ih := ih fun h => hw (.tail _ h)
    rw [cons_append]
    cases hl : w ++ l with
    | nil =>
      obtain ⟨rfl, rfl⟩ := append_eq_nil_iff.mp hl
      rfl
    | cons b l' =>
      rw [splitDouble, if_neg fun h => ha h.1, ← hl, ih, modifyHead_modifyHead]
      rfl

theorem goodParts_exchange {w w' : List α} (hw : d ∉ w) (hw' : d ∉ w')
    (h : GoodParts d ((w ++ p) :: ps)) : GoodParts d ((w' ++ p) :: ps) := by
  rw [← splitDouble_joinDouble_iff, joinDouble_append_head, splitDouble_append_head _ hw] at h
  rw [← splitDouble_joinDouble_iff, joinDouble_append_head, splitDouble_append_head _ hw']
  obtain ⟨q, qs, hq⟩ := exists_cons_of_ne_nil (splitDouble_ne_nil d (joinDouble d (p :: ps)))
  rw [hq, modifyHead_cons, cons.injEq, append_cancel_left_eq] at h
  rw [hq, modifyHead_cons, h.1, h.2]

end Collector.Lib
