import Mathlib.Data.List.Infix

/-!
# Positions and slices of a string
-/

namespace Collector.Lib

open List Option

variable {α : Type} [DecidableEq α]

def indexOf (sub : List α) : List α → Option Nat
  | [] => if sub = [] then some 0 else none
  | c :: s => if sub <+: c :: s then some 0 else (indexOf sub s).map (· + 1)

def lastIndexOf (sub : List α) : List α → Option Nat
  | [] => if sub = [] then some 0 else none
  | c :: s =>
    match lastIndexOf sub s with
    | some i => some (i + 1)
    | none => if sub <+: c :: s then some 0 else none

variable {s : List α} {i : Nat}

theorem indexOf_le {sub : List α} (h : indexOf sub s = some i) : i + sub.length ≤ s.length := by
  induction s generalizing i with
  | nil =>
    obtain ⟨rfl, rfl⟩ := ite_some_none_eq_some.mp h
    simp
  | cons c s ih =>
    rw [indexOf] at h
    split_ifs at h with hsub
    · cases h
      simpa using hsub.length_le
    · obtain ⟨i, hi, rfl⟩ := map_eq_some_iff.mp h
      have := ih hi
      simp only [length_cons]
      omega

theorem lastIndexOf_le {sub : List α} (h : lastIndexOf sub s = some i) : i + sub.length ≤ s.length := by
  induction s generalizing i with
  | nil =>
    obtain ⟨rfl, rfl⟩ := ite_some_none_eq_some.mp h
    simp
  | cons c s ih =>
    rw [lastIndexOf] at h
    split at h
    · rename_i j hj
      cases h
      have := ih hj
      simp only [length_cons]
      omega
    · obtain ⟨hsub, heq⟩ := ite_none_right_eq_some.mp h
      cases heq
      simpa using hsub.length_le

/-! ## One character -/

variable {c : α}

theorem indexOf_append {a : List α} (h : c ∉ a) (b : List α) : indexOf [c] (a ++ c :: b) = some a.length := by
  induction a with
  | nil => simp [indexOf]
  | cons d a ih =>
    rw [mem_cons, not_or] at h
    have hd : ¬ [c] <+: d :: (a ++ c :: b) := by simp [h.1]
    rw [cons_append, indexOf, if_neg hd, ih h.2]
    rfl

theorem indexOf_of_notMem (h : c ∉ s) : indexOf [c] s = none := by
  induction s with
  | nil => rfl
  | cons d s ih =>
    rw [mem_cons, not_or] at h
    have hd : ¬ [c] <+: d :: s := by simp [h.1]
    rw [indexOf, if_neg hd, ih h.2]
    rfl

end Collector.Lib
