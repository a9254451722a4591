import Collector.Lib.Runs
import Collector.StatsD.Parser

/-!
# Patterns and their text

`parseFields` takes a pattern apart, and `print` puts it together.
-/

namespace Collector.StatsD

open Lib List

/-- Literals and fields in turn. -/
def print : Bool → List Str → Str
  | _, [] => []
  | isField, piece :: pieces => (if isField then '{' :: piece ++ ['}'] else piece) ++ print (!isField) pieces

/-- At most one brace is open at a time, and none at the end. -/
def Balanced (p : Str) : Prop :=
  (∀ q, q <+: p → q.count '}' ≤ q.count '{' ∧ q.count '{' ≤ q.count '}' + 1) ∧ p.count '{' = p.count '}'

def AdjacentFields (p : Str) : Prop := ['}', '{'] <:+: p

/-! ## Reading -/

def startsWithField (p : Str) : Bool := p.head? = some '{'

def nextIsField (isField : Bool) (pieces : List Str) : Bool := pieces.foldl (fun b _ => !b) isField

theorem print_concat (isField : Bool) (pieces : List Str) (piece : Str) : print isField (pieces ++ [piece]) =
    print isField pieces ++ if nextIsField isField pieces then '{' :: piece ++ ['}'] else piece := by
  induction pieces generalizing isField with
  | nil => cases isField <;> simp [print, nextIsField]
  | cons p pieces ih =>
    rw [cons_append, print, ih, print, append_assoc]
    rfl

/-- What the loop has of a text that it has read. -/
structure Read (q : Str) (f : Fields) : Prop where
  first : q = [] → f = ⟨[], false, []⟩
  printed : print (startsWithField q) f.substrs ++ (if f.inBraces then ['{'] else []) ++ f.currentField = q
  turn : q ≠ [] → nextIsField (startsWithField q) f.substrs = f.inBraces
  opened : q.count '{' = q.count '}' + f.inBraces.toNat
  last : f.inBraces = false → (f.currentField = [] ↔ ∀ c ∈ q.getLast?, c = '}')

/-- The last character of a text is in its place. -/
def Fine (q : Str) : Prop :=
  (q.count '}' ≤ q.count '{' ∧ q.count '{' ≤ q.count '}' + 1) ∧ ¬ ['}', '{'] <:+ q

variable {q : Str} {f : Fields}

theorem adjacent_concat (c : Char) : ['}', '{'] <:+ q ++ [c] ↔ c = '{' ∧ q.getLast? = some '}' := by
  rw [← reverse_prefix, reverse_concat, ← head?_reverse]
  cases q.reverse <;> simp [eq_comm]

theorem startsWithField_concat (hq : q ≠ []) (c : Char) : startsWithField (q ++ [c]) = startsWithField q := by
  simp [startsWithField, head?_append, head?_eq_some_head hq]

/-- The next piece, with its braces. -/
theorem Read.piece (h : Read q f) (hq : q ≠ []) :
    print (startsWithField q) (f.substrs ++ [f.currentField]) = (if f.inBraces then q ++ ['}'] else q) ∧
    nextIsField (startsWithField q) (f.substrs ++ [f.currentField]) = !f.inBraces := by
  have hp := h.printed
  constructor
  · rw [print_concat, h.turn hq]
    cases hb : f.inBraces <;> rw [hb] at hp
    · simpa using hp
    · nth_rewrite 2 [← hp]
      simp
  · rw [nextIsField, foldl_concat, ← nextIsField, h.turn hq]

/-- A character goes on with the text, or it is refused. -/
theorem parseField_spec (h : Read q f) (c : Char) :
    (∃ f', parseField f (c, q.length) = some f' ∧ Read (q ++ [c]) f' ∧ Fine (q ++ [c])) ∨
    parseField f (c, q.length) = none ∧ ¬ Fine (q ++ [c]) := by
  obtain ⟨substrs, inBraces, currentField⟩ := f
  have hpiece := h.piece
  obtain ⟨hfirst, hprinted, hturn, hopened, hlast⟩ := h
  simp only at hpiece hprinted hturn hopened hlast
  have hne : q ++ [c] ≠ [] := concat_ne_nil c q
  unfold Fine
  rw [adjacent_concat]
  by_cases ho : c = '{'
  · subst ho
    cases inBraces with
    | true =>
      refine .inr ⟨rfl, fun hf => ?_⟩
      have hle := hf.1.2
      rw [count_append, count_append, hopened] at hle
      change _ + 1 + 1 ≤ _ + 0 + 1 at hle
      omega
    | false =>
      by_cases hcf : currentField = []
      · by_cases hq : q = []
        · subst hq
          cases hfirst rfl
          exact .inl ⟨_, rfl, ⟨nofun, rfl, fun _ => rfl, rfl, nofun⟩, by decide⟩
        · -- the character before it has closed a field
          refine .inr ⟨by simp [parseField, hcf, hq], fun hf => hf.2 ⟨rfl, ?_⟩⟩
          have hl := (hlast rfl).mp hcf _ (getLast?_eq_some_getLast hq)
          rw [getLast?_eq_some_getLast hq, hl]
      · have hq : q ≠ [] := fun hq => hcf (by cases hfirst hq; rfl)
        have hl : q.getLast? ≠ some '}' := fun hl => hcf ((hlast rfl).mpr (by simp [hl]))
        refine .inl ⟨⟨substrs ++ [currentField], true, []⟩, by simp [parseField, length_pos_iff.mpr hcf],
          ⟨(absurd · hne), ?_, fun _ => ?_, by simp [hopened], nofun⟩, by simp [hopened, hl]⟩
        · rw [startsWithField_concat hq, (hpiece hq).1]
          simp
        · rw [startsWithField_concat hq, (hpiece hq).2]
          rfl
  by_cases hc : c = '}'
  · subst hc
    cases inBraces with
    | false =>
      refine .inr ⟨rfl, fun hf => ?_⟩
      have hle := hf.1.1
      rw [count_append, count_append, hopened] at hle
      change _ + 1 ≤ _ + 0 + 0 at hle
      omega
    | true =>
      have hq : q ≠ [] := fun hq => by cases hfirst hq
      refine .inl ⟨_, rfl, ⟨(absurd · hne), ?_, fun _ => ?_, by simp [hopened], by simp⟩, by simp [hopened]⟩
      · rw [startsWithField_concat hq, (hpiece hq).1]
        simp
      · rw [startsWithField_concat hq, (hpiece hq).2]
        rfl
  · refine .inl ⟨⟨substrs, inBraces, currentField ++ [c]⟩, by simp [parseField], ⟨(absurd · hne), ?_, fun _ => ?_,
      by simp [hopened, ho, hc], by simp [hc]⟩, by cases inBraces <;> simp [hopened, ho, hc]⟩
    · by_cases hq : q = []
      · cases hfirst hq
        simp [hq, print]
      · rw [startsWithField_concat hq, ← append_assoc, hprinted]
    · by_cases hq : q = []
      · cases hfirst hq
        simp [hq, startsWithField, nextIsField, ho]
      · rw [startsWithField_concat hq, hturn hq]

/-- The loop ends just for texts with all braces in their places. -/
theorem foldlM_parseField (q : Str) :
    (∃ f, q.zipIdx.foldlM parseField ⟨[], false, []⟩ = some f ∧ Read q f ∧ ∀ r, r <+: q → Fine r) ∨
    q.zipIdx.foldlM parseField ⟨[], false, []⟩ = none ∧ ¬ ∀ r, r <+: q → Fine r := by
  induction q using reverseRecOn with
  | nil =>
    refine .inl ⟨_, rfl, ⟨fun _ => rfl, rfl, nofun, rfl, fun _ => by simp⟩, fun r hr => ?_⟩
    rw [prefix_nil.mp hr]
    simp [Fine]
  | append_singleton q c ih =>
    have hz : (q ++ [c]).zipIdx = q.zipIdx ++ [(c, q.length)] := by simp [zipIdx_append]
    rw [hz, foldlM_concat]
    obtain ⟨f, hf, hr, hfine⟩ | ⟨hf, hn⟩ := ih
    · rw [hf, Option.bind_some]
      obtain ⟨f', hf', hr', hfine'⟩ | ⟨hf', hn⟩ := parseField_spec hr c
      · refine .inl ⟨f', hf', hr', fun r hr => ?_⟩
        obtain rfl | hr := prefix_concat_iff.mp hr
        · exact hfine'
        · exact hfine r hr
      · exact .inr ⟨hf', fun h => hn (h _ prefix_rfl)⟩
    · rw [hf]
      exact .inr ⟨rfl, fun h => hn fun r hr => h r (hr.trans (prefix_append q [c]))⟩

theorem fine_iff (p : Str) : (∀ q, q <+: p → Fine q) ↔
    (∀ q, q <+: p → q.count '}' ≤ q.count '{' ∧ q.count '{' ≤ q.count '}' + 1) ∧ ¬ AdjacentFields p := by
  unfold AdjacentFields Fine
  rw [ infix_iff_suffix_prefix]
  grind

theorem parseFields_eq (p : Str) : parseFields p =
    (p.zipIdx.foldlM parseField ⟨[], false, []⟩).bind fun fields => if fields.inBraces then none
      else some ⟨if 0 < fields.currentField.length then fields.substrs ++ [fields.currentField] else fields.substrs,
        startsWithField p⟩ :=
  rfl

theorem print_of_parseFields {p : Str} {pattern : FieldPattern} (h : parseFields p = some pattern) :
    print pattern.startWithField pattern.substrs = p := by
  rw [parseFields_eq] at h
  obtain ⟨f, hf, hr, -⟩ | ⟨hf, -⟩ := foldlM_parseField p <;> rw [hf] at h
  · rw [Option.bind_some] at h
    split_ifs at h with hb hcf <;> cases h
    · have hq : p ≠ [] := fun hq => by simp [hr.first hq] at hcf
      rw [(hr.piece hq).1, if_neg hb]
    · have hp := hr.printed
      simpa [hb, length_eq_zero_iff.mp (Nat.eq_zero_of_not_pos hcf)] using hp
  · cases h

/-- A pattern can be printed again, and what cannot be a pattern is refused. -/
theorem parseFields_inverts (p : Str) :
    ((parseFields p).isSome ↔ Balanced p ∧ ¬ AdjacentFields p) ∧
    ∀ pattern, parseFields p = some pattern → print pattern.startWithField pattern.substrs = p := by
  refine ⟨?_, fun pattern => print_of_parseFields⟩
  unfold Balanced
  rw [parseFields_eq, and_right_comm, ← fine_iff]
  obtain ⟨f, hf, hr, hfine⟩ | ⟨hf, hn⟩ := foldlM_parseField p <;> rw [hf]
  · cases hb : f.inBraces with
    | true => simp [hr.opened, hb]
    | false => simpa [hr.opened, hb] using hfine
  · simp [hn]

end Collector.StatsD
