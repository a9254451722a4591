import Collector.Expvar.Values

/-!
# Escaped lists

What `utils.SplitString` reads back, and when it fails.
-/

namespace Collector.Expvar

open List

variable {sep escape : Char}

def escapeRunes (sep escape : Char) (s : Str) : Str :=
  s.flatMap fun r => if r = sep ∨ r = escape then [escape, r] else [r]

/-- An odd number of escapes stands at the end. -/
def EndsInEscape (escape : Char) (s : Str) : Prop := (s.reverse.takeWhile (· = escape)).length % 2 = 1

theorem splitString_escapeRunes (runes t s : Str) :
    splitString sep escape false runes (escapeRunes sep escape t ++ s) =
      splitString sep escape false (runes ++ t) s := by
  induction t generalizing runes with
  | nil => simp [escapeRunes]
  | cons r t ih =>
    have hr : splitString sep escape false runes (escapeRunes sep escape (r :: t) ++ s) =
        splitString sep escape false (runes ++ [r]) (escapeRunes sep escape t ++ s) := by
      by_cases h : r = sep ∨ r = escape
      · simp [escapeRunes, h, splitString]
      · simp_all [escapeRunes, splitString]
    rw [hr, ih, append_assoc, singleton_append]

theorem splitString_intercalate (hne : sep ≠ escape) (t : Str) (ts : List Str) :
    splitString sep escape false [] ([sep].intercalate ((t :: ts).map (escapeRunes sep escape))) = some (t :: ts) := by
  induction ts generalizing t with
  | nil => simpa [splitString] using splitString_escapeRunes [] t []
  | cons t' ts ih =>
    rw [map_cons, map_cons, intercalate_cons_cons, append_assoc, splitString_escapeRunes]
    simpa [splitString, hne] using ih t'

/-- Only the escapes decide the state that the loop ends in. -/
theorem splitString_eq_none_iff (inEscape : Bool) (runes s : Str) :
    splitString sep escape inEscape runes s = none ↔ s.foldl (fun b r => !b && r = escape) inEscape = true := by
  fun_induction splitString sep escape inEscape runes s <;> simp_all

theorem foldl_escape (s : Str) :
    s.foldl (fun b r => !b && r = escape) false = true ↔ EndsInEscape escape s := by
  induction s using reverseRecOn with
  | nil => simp [EndsInEscape]
  | append_singleton s r ih =>
    unfold EndsInEscape at ih ⊢
    rw [foldl_concat, reverse_concat, takeWhile_cons]
    by_cases hr : r = escape
    · simp only [hr, decide_true, Bool.and_true, Bool.not_eq_true', ↓reduceIte, length_cons]
      rw [← Bool.not_eq_true, ih]
      omega
    · simp [hr]

theorem splitString_inverse (sep escape : Char) (hne : sep ≠ escape) :
    (∀ l : List Str, l ≠ [] →
      splitString sep escape false [] ([sep].intercalate (l.map (escapeRunes sep escape))) = some l) ∧
    ∀ s : Str, splitString sep escape false [] s = none ↔ EndsInEscape escape s := by
  refine ⟨fun l hl => ?_, fun s => ?_⟩
  · cases l with
    | nil => exact absurd rfl hl
    | cons t ts => exact splitString_intercalate hne t ts
  · rw [splitString_eq_none_iff, foldl_escape]

theorem splitString_inverse_dot :
    (∀ l : List Str, l ≠ [] →
      splitString '.' '\\' false [] (['.'].intercalate (l.map (escapeRunes '.' '\\'))) = some l) ∧
    ∀ s : Str, splitString '.' '\\' false [] s = none ↔ EndsInEscape '\\' s :=
  splitString_inverse '.' '\\' (by decide)

end Collector.Expvar
