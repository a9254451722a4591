import Mathlib.Data.List.Basic

/-!
# Texts with references

`f` reads the text after a marker and says what the reference stands for and how many characters it takes.
-/

namespace Collector.Lib

open List

variable {α : Type} [DecidableEq α]

def render (marker : α) (f : List α → List α × Nat) : Nat → List α → List α
  | _, [] => []
  | skip + 1, _ :: s => render marker f skip s
  | 0, c :: s =>
    if c = marker ∧ s ≠ [] then (f s).1 ++ render marker f (f s).2 s else c :: render marker f 0 s

def markedTails (marker : α) (w : List α → Nat) : Nat → List α → List (List α)
  | _, [] => []
  | skip + 1, _ :: s => markedTails marker w skip s
  | 0, c :: s =>
    if c = marker ∧ s ≠ [] then s :: markedTails marker w (w s) s else markedTails marker w 0 s

variable (marker : α) (f g : List α → List α × Nat) (w : List α → Nat) (k : Nat) (s : List α)

theorem markedTails_ne_nil (t : List α) (h : t ∈ markedTails marker w k s) : t ≠ [] := by
  induction s generalizing k with
  | nil => simp [markedTails] at h
  | cons c s ih =>
    cases k with
    | succ k => exact ih k (by simpa [markedTails] using h)
    | zero =>
      rw [markedTails] at h
      split_ifs at h with hc
      · rcases mem_cons.mp h with rfl | h
        · exact hc.2
        · exact ih _ h
      · exact ih 0 h

theorem render_skip : render marker f k s = render marker f 0 (s.drop k) := by
  induction s generalizing k with
  | nil => simp [render]
  | cons c s ih =>
    cases k with
    | zero => rfl
    | succ k => simpa [render] using ih k

theorem markedTails_skip : markedTails marker w k s = markedTails marker w 0 (s.drop k) := by
  induction s generalizing k with
  | nil => simp [markedTails]
  | cons c s ih =>
    cases k with
    | zero => rfl
    | succ k => simpa [markedTails] using ih k

theorem render_congr (h : ∀ t ∈ markedTails marker w k s, f t = g t ∧ (f t).2 = w t) :
    render marker f k s = render marker g k s := by
  induction s generalizing k with
  | nil => rfl
  | cons c s ih =>
    cases k with
    | succ k => exact ih k (by simpa [markedTails] using h)
    | zero =>
      rw [markedTails] at h
      rw [render, render]
      split_ifs with hc
      · rw [if_pos hc] at h
        obtain ⟨hfg, hw⟩ := h s mem_cons_self
        rw [← hfg]
        congr 1
        exact ih _ (by rw [hw]; exact fun t ht => h t (mem_cons_of_mem _ ht))
      · rw [if_neg hc] at h
        rw [ih 0 h]

theorem render_first (bad : List α → Bool) (k : Nat) (s t : List α)
    (hbad : (markedTails marker w k s).find? bad = some t)
    (h : ∀ t ∈ markedTails marker w k s, bad t = false → f t = g t ∧ (f t).2 = w t) :
    ∃ a, render marker f k s = a ++ ((f t).1 ++ render marker f (f t).2 t) ∧
      render marker g k s = a ++ ((g t).1 ++ render marker g (g t).2 t) := by
  induction s generalizing k with
  | nil => simp [markedTails] at hbad
  | cons c s ih =>
    cases k with
    | succ k => exact ih k (by simpa [markedTails] using hbad) (by simpa [markedTails] using h)
    | zero =>
      rw [markedTails] at hbad h
      rw [render, render]
      split_ifs with hc
      · rw [if_pos hc] at hbad h
        rw [find?_cons] at hbad
        cases hs : bad s with
        | true =>
          obtain rfl : s = t := by simpa [hs] using hbad
          exact ⟨[], rfl, rfl⟩
        | false =>
          obtain ⟨hfg, hw⟩ := h s mem_cons_self hs
          obtain ⟨a, hf, hg⟩ := ih (w s) (by simpa [hs] using hbad) (fun t ht => h t (mem_cons_of_mem _ ht))
          refine ⟨(f s).1 ++ a, ?_, ?_⟩
          · rw [hw, hf]; simp
          · rw [← hfg, hw, hg]; simp
      · rw [if_neg hc] at hbad h
        obtain ⟨a, hf, hg⟩ := ih 0 hbad h
        exact ⟨c :: a, by rw [hf]; simp, by rw [hg]; simp⟩

theorem render_length (h : ∀ t ∈ markedTails marker w k s,
      (f t).2 = w t ∧ (g t).2 = w t ∧ (g t).1.length ≤ (f t).1.length) :
    (render marker g k s).length ≤ (render marker f k s).length ∧
    ((∃ t ∈ markedTails marker w k s, (g t).1.length < (f t).1.length) →
      (render marker g k s).length < (render marker f k s).length) := by
  induction s generalizing k with
  | nil => simp [render, markedTails]
  | cons c s ih =>
    cases k with
    | succ k => simpa [render, markedTails] using ih k (by simpa [markedTails] using h)
    | zero =>
      rw [markedTails] at h ⊢
      rw [render, render]
      split_ifs with hc
      · rw [if_pos hc] at h
        obtain ⟨hf, hg, hle⟩ := h s mem_cons_self
        obtain ⟨hle', hlt'⟩ := ih (w s) (fun t ht => h t (mem_cons_of_mem _ ht))
        rw [hf, hg]
        simp only [length_append]
        refine ⟨by omega, ?_⟩
        rintro ⟨t, ht, hlt⟩
        rcases mem_cons.mp ht with rfl | ht
        · omega
        · have := hlt' ⟨t, ht, hlt⟩; omega
      · rw [if_neg hc] at h
        obtain ⟨hle, hlt⟩ := ih 0 h
        simp only [length_cons]
        exact ⟨by omega, fun he => by have := hlt he; omega⟩

end Collector.Lib
