import Mathlib.Data.List.DropRight

/-!
# Tokens: separators and the words between them

Everything up to the next separator is a word, without the characters of the class `skip` that it starts with.
-/

namespace Collector.Lib

open List

variable {w a t : List Char} {c : Char}

inductive Tok where
  | sep (c : Char)
  | word (w : List Char)
  deriving DecidableEq

variable {ts : List Tok}

def Tok.text : Tok → List Char
  | .sep c => [c]
  | .word w => w

def untok (ts : List Tok) : List Char := ts.flatMap Tok.text

@[simp] theorem untok_nil : untok [] = [] := rfl

@[simp] theorem untok_cons (t : Tok) (ts : List Tok) : untok (t :: ts) = t.text ++ untok ts := rfl

@[simp] theorem untok_append (ts us : List Tok) : untok (ts ++ us) = untok ts ++ untok us := by
  simp [untok]

def wordTok (w : List Char) : List Tok := if w = [] then [] else [.word w]

@[simp] theorem untok_wordTok (w : List Char) : untok (wordTok w) = w := by
  unfold wordTok
  split <;> simp_all [Tok.text]

section
variable (isSep skip : Char → Bool)

def lexFrom : List Char → List Char → List Tok
  | w, [] => wordTok w
  | w, c :: s =>
    if isSep c then wordTok w ++ .sep c :: lexFrom [] s
    else if w = [] ∧ skip c then lexFrom [] s
    else lexFrom (w ++ [c]) s

def lex (s : List Char) : List Tok := lexFrom isSep skip [] s

variable {isSep skip}

theorem lexFrom_sep (w s t : List Char) (hc : isSep c = true) :
    lexFrom isSep skip w (s ++ c :: t) = lexFrom isSep skip w s ++ .sep c :: lex isSep skip t := by
  induction s generalizing w with
  | nil =>
    rw [nil_append, lexFrom, lexFrom, if_pos hc]
    rfl
  | cons a s ih =>
    rw [cons_append, lexFrom, lexFrom]
    split
    · rw [ih, append_assoc]
      rfl
    · split <;> rw [ih]

theorem lex_sep (s t : List Char) (c : Char) (hc : isSep c = true) :
    lex isSep skip (s ++ c :: t) = lex isSep skip s ++ .sep c :: lex isSep skip t :=
  lexFrom_sep [] s t hc

@[simp] theorem lex_nil : lex isSep skip [] = [] := rfl

theorem lex_sep_cons (t : List Char) (hc : isSep c = true) : lex isSep skip (c :: t) = .sep c :: lex isSep skip t :=
  lex_sep [] t c hc

theorem lexFrom_word (w u s : List Char) (hu : ∀ c ∈ u, isSep c = false)
    (hs : w = [] → ∀ c, u.head? = some c → skip c = false) :
    lexFrom isSep skip w (u ++ s) = lexFrom isSep skip (w ++ u) s := by
  induction u generalizing w with
  | nil => simp
  | cons a u ih =>
    have ha : isSep a = false := hu a mem_cons_self
    have hnot : ¬(w = [] ∧ skip a = true) := by
      rintro ⟨hw, ha'⟩
      rw [hs hw a rfl] at ha'
      cases ha'
    rw [cons_append, lexFrom, if_neg (by simp [ha]), if_neg hnot,
      ih (w ++ [a]) (fun c hc => hu c (mem_cons_of_mem _ hc)) (by simp)]
    simp

theorem lexFrom_begun (w s : List Char) (hw : w ≠ []) : ∃ v ts, lexFrom isSep skip w s = .word (w ++ v) :: ts := by
  induction s generalizing w with
  | nil => exact ⟨[], [], by simp [lexFrom, wordTok, hw]⟩
  | cons a s ih =>
    rw [lexFrom]
    split
    · exact ⟨[], _, by rw [wordTok, if_neg hw, append_nil]; rfl⟩
    · rw [if_neg (by simp [hw])]
      obtain ⟨v, ts, h⟩ := ih (w ++ [a]) (by simp)
      exact ⟨a :: v, ts, by rw [h]; simp⟩

theorem lex_word (hw : ∀ c ∈ w, isSep c = false)
    (hs : ∀ c, w.head? = some c → skip c = false) : lex isSep skip w = wordTok w := by
  have h := @lexFrom_word isSep skip [] w [] hw fun _ => hs
  rw [append_nil, nil_append] at h
  exact h

/-! ## Texts and their tokens -/

theorem length_untok_lexFrom (w s : List Char) : (untok (lexFrom isSep skip w s)).length ≤ w.length + s.length := by
  induction s generalizing w with
  | nil => simp [lexFrom]
  | cons a s ih =>
    rw [lexFrom]
    split
    · have := ih []
      simp [Tok.text] at this ⊢
      omega
    · split_ifs with hw
      · have := ih []
        simp [hw.1] at this ⊢
        omega
      · have := ih (w ++ [a])
        simp at this ⊢
        omega

theorem length_untok_lex (s : List Char) : (untok (lex isSep skip s)).length ≤ s.length := by
  have h := @length_untok_lexFrom isSep skip [] s
  rwa [length_nil, Nat.zero_add] at h

variable (isSep skip)

structure Word (w : List Char) : Prop where
  ne_nil : w ≠ []
  no_sep : ∀ c ∈ w, isSep c = false
  head : ∀ c, w.head? = some c → skip c = false

def Canon : List Tok → Prop
  | [] => True
  | .sep c :: ts => isSep c = true ∧ Canon ts
  | .word w :: ts => Word isSep skip w ∧ (∀ v, ts.head? ≠ some (.word v)) ∧ Canon ts

variable {isSep skip}

theorem canon_wordTok (hw : w = [] ∨ Word isSep skip w)
    (h : Canon isSep skip (.sep c :: ts)) : Canon isSep skip (wordTok w ++ .sep c :: ts) := by
  unfold wordTok
  split_ifs with hne
  · exact h
  · exact ⟨hw.resolve_left hne, by simp, h⟩

theorem canon_lexFrom (w s : List Char) (hw : w = [] ∨ Word isSep skip w) :
    Canon isSep skip (lexFrom isSep skip w s) := by
  induction s generalizing w with
  | nil =>
    rw [lexFrom, wordTok]
    split
    · trivial
    · rename_i hne
      exact ⟨hw.resolve_left hne, by simp, trivial⟩
  | cons a s ih =>
    rw [lexFrom]
    split
    · rename_i ha
      exact canon_wordTok hw ⟨ha, ih [] (Or.inl rfl)⟩
    · rename_i ha
      split
      · exact ih [] (Or.inl rfl)
      · rename_i hs
        refine ih _ (Or.inr ⟨by simp, ?_, ?_⟩)
        · intro c hc
          rcases mem_append.mp hc with hc | hc
          · rcases hw with rfl | hw
            · cases hc
            · exact hw.no_sep c hc
          · rw [mem_singleton.mp hc]
            simpa using ha
        · intro c hc
          rcases hw with rfl | hw
          · obtain rfl : a = c := by simpa using hc
            simpa using hs
          · refine hw.head c ?_
            rwa [head?_append_of_ne_nil _ hw.ne_nil] at hc

theorem canon_lex (s : List Char) : Canon isSep skip (lex isSep skip s) :=
  canon_lexFrom [] s (Or.inl rfl)

theorem Canon.split {us : List Tok} (h : Canon isSep skip (ts ++ us)) :
    Canon isSep skip ts ∧ Canon isSep skip us := by
  induction ts with
  | nil => exact ⟨trivial, h⟩
  | cons t ts ih =>
    cases t with
    | sep c =>
      obtain ⟨hts, hus⟩ := ih h.2
      exact ⟨⟨h.1, hts⟩, hus⟩
    | word w =>
      obtain ⟨hw, hh, ht⟩ := h
      obtain ⟨hts, hus⟩ := ih ht
      refine ⟨⟨hw, fun v hv => hh v ?_, hts⟩, hus⟩
      cases ts with
      | nil => cases hv
      | cons t ts => exact hv

theorem Canon.sep_mem (h : Canon isSep skip ts) (c : Char) (hc : Tok.sep c ∈ ts) : isSep c = true := by
  obtain ⟨x, y, rfl⟩ := append_of_mem hc
  exact h.split.2.1

theorem Word.lex (h : Word isSep skip w) : lex isSep skip w = [.word w] := by
  rw [lex_word h.no_sep h.head, wordTok, if_neg h.ne_nil]

theorem lex_untok (h : Canon isSep skip ts) : lex isSep skip (untok ts) = ts := by
  induction ts with
  | nil => rfl
  | cons t ts ih =>
    cases t with
    | sep c =>
      rw [untok_cons, Tok.text, singleton_append, lex_sep_cons _ h.1, ih h.2]
    | word w =>
      obtain ⟨hw, hh, ht⟩ := h
      have hlex : lex isSep skip w = [.word w] := hw.lex
      rw [untok_cons, Tok.text]
      match ts, hh, ht, ih with
      | [], _, _, _ => rw [untok_nil, append_nil, hlex]
      | .sep c :: ts, _, ht, ih =>
        have hr := ih ht
        rw [untok_cons, Tok.text, singleton_append] at hr ⊢
        rw [lex_sep _ _ _ ht.1, hlex, ← lex_sep_cons _ ht.1, hr]
        rfl
      | .word v :: ts, hh, _, _ => exact absurd rfl (hh v)

/-! ## Parts of a text -/

variable (isSep skip) in
def Exact (s : List Char) : Prop := untok (lex isSep skip s) = s

theorem Canon.exact (h : Canon isSep skip ts) : Exact isSep skip (untok ts) :=
  congrArg untok (lex_untok h)

variable (isSep) in
def EndsWord (s : List Char) : Prop := s = [] ∨ ∃ s' c, s = s' ++ [c] ∧ isSep c = true

theorem EndsWord.lex_append (ha : EndsWord isSep a) (t : List Char) :
    lex isSep skip (a ++ t) = lex isSep skip a ++ lex isSep skip t := by
  rcases ha with rfl | ⟨a', c, rfl, hc⟩
  · rfl
  · rw [append_assoc, singleton_append, lex_sep a' t c hc, lex_sep a' [] c hc]
    simp

theorem exists_endsWord (isSep : Char → Bool) (s : List Char) :
    ∃ a b, s = a ++ b ∧ EndsWord isSep a ∧ ∀ c ∈ b, isSep c = false := by
  induction s using reverseRecOn with
  | nil => exact ⟨[], [], rfl, Or.inl rfl, by simp⟩
  | append_singleton s c ih =>
    obtain ⟨a, b, rfl, ha, hb⟩ := ih
    cases hc : isSep c with
    | true => exact ⟨a ++ b ++ [c], [], by simp, Or.inr ⟨a ++ b, c, rfl, hc⟩, by simp⟩
    | false =>
      refine ⟨a, b ++ [c], by simp, ha, fun d hd => ?_⟩
      rcases mem_append.mp hd with hd | hd
      · exact hb d hd
      · rw [mem_singleton.mp hd, hc]

theorem Exact.split (h : Exact isSep skip (a ++ t)) (ha : EndsWord isSep a) :
    Exact isSep skip a ∧ Exact isSep skip t := by
  unfold Exact at h ⊢
  rw [ha.lex_append, untok_append] at h
  have hla := @length_untok_lex isSep skip a
  have hlt := @length_untok_lex isSep skip t
  have hlen := congrArg length h
  rw [length_append, length_append] at hlen
  exact append_inj h (by omega)

theorem Exact.head (h : Exact isSep skip (c :: t)) (hc : isSep c = false) : skip c = false := by
  cases hs : skip c with
  | false => rfl
  | true =>
    have hlex : lex isSep skip (c :: t) = lex isSep skip t := by
      unfold lex
      rw [lexFrom, if_neg (by simp [hc]), if_pos ⟨rfl, hs⟩]
    have hlen := congrArg length h
    rw [hlex, length_cons] at hlen
    have hle := @length_untok_lex isSep skip t
    omega

theorem exact_of_forall {s : List Char} (hs : ∀ c ∈ s, skip c = false) : Exact isSep skip s := by
  have h : ∀ w, untok (lexFrom isSep skip w s) = w ++ s := by
    induction s with
    | nil => simp [lexFrom]
    | cons c s ih =>
      intro w
      have ih := ih fun d hd => hs d (.tail _ hd)
      rw [lexFrom]
      split
      · simp [ih [], Tok.text]
      · simp [ih (w ++ [c]), hs c (.head _)]
  exact h []

theorem exact_of_no_skip (isSep : Char → Bool) (s : List Char) : Exact isSep (fun _ => false) s :=
  exact_of_forall fun _ _ => rfl

/-- Where a text goes on in another way, the tokens in front stay. -/
theorem Exact.diverge {s : List Char} (h : Exact isSep skip (s ++ t)) (u w : List Char) (hu : u ≠ [])
    (huse : ∀ c ∈ u, isSep c = false) (hus : ∀ c, u.head? = some c → skip c = false) :
    ∃ a b v ts, s = a ++ b ∧ EndsWord isSep a ∧ untok (lex isSep skip a) = a ∧
      lex isSep skip (s ++ (u ++ w)) = lex isSep skip a ++ .word (b ++ u ++ v) :: ts := by
  obtain ⟨a, b, rfl, ha, hb⟩ := exists_endsWord isSep s
  rw [append_assoc] at h
  obtain ⟨he, ht⟩ := h.split ha
  have hw : ∀ c ∈ b ++ u, isSep c = false := by
    intro c hc
    rcases mem_append.mp hc with hc | hc
    · exact hb c hc
    · exact huse c hc
  have hh : ∀ c, (b ++ u).head? = some c → skip c = false := by
    intro c hc
    cases b with
    | nil => exact hus c hc
    | cons b₀ b =>
      obtain rfl : b₀ = c := by simpa using hc
      exact Exact.head ht (hb b₀ mem_cons_self)
  obtain ⟨v, ts, hbe⟩ := @lexFrom_begun isSep skip (b ++ u) w (by simp [hu])
  refine ⟨a, b, v, ts, rfl, ha, he, ?_⟩
  have has : a ++ b ++ (u ++ w) = a ++ ((b ++ u) ++ w) := by simp
  have hlex : lex isSep skip ((b ++ u) ++ w) = lexFrom isSep skip (b ++ u) w :=
    lexFrom_word [] (b ++ u) w hw fun _ => hh
  rw [has, ha.lex_append, hlex, hbe]

/-! ## Runs of a class of characters -/

end

def splitRuns (plain : Char → Bool) : List Char → List Char × List (Char × List Char)
  | [] => ([], [])
  | c :: s =>
    if plain c then (c :: (splitRuns plain s).1, (splitRuns plain s).2)
    else ([], (c, (splitRuns plain s).1) :: (splitRuns plain s).2)

def joinRuns (rs : List (Char × List Char)) : List Char := rs.flatMap fun r => r.1 :: r.2

section
variable (plain : Char → Bool) (s : List Char)

theorem joinRuns_splitRuns : (splitRuns plain s).1 ++ joinRuns (splitRuns plain s).2 = s := by
  induction s with
  | nil => rfl
  | cons c s ih =>
    unfold splitRuns
    split
    · simp [ih]
    · simpa [joinRuns] using ih

theorem splitRuns_plain : (∀ c ∈ (splitRuns plain s).1, plain c = true) ∧
    ∀ r ∈ (splitRuns plain s).2, plain r.1 = false ∧ ∀ c ∈ r.2, plain c = true := by
  induction s with
  | nil => simp [splitRuns]
  | cons c s ih =>
    unfold splitRuns
    split_ifs with hc
    · refine ⟨fun d hd => ?_, ih.2⟩
      rcases mem_cons.mp hd with rfl | hd
      · exact hc
      · exact ih.1 d hd
    · refine ⟨by simp, fun r hr => ?_⟩
      rcases mem_cons.mp hr with rfl | hr
      · exact ⟨by simpa using hc, ih.1⟩
      · exact ih.2 r hr

theorem splitRuns_append (t : List Char) (hc : plain c = false) : (splitRuns plain (s ++ c :: t)).2 =
      (splitRuns plain s).2 ++ (c, (splitRuns plain t).1) :: (splitRuns plain t).2 ∧
    (splitRuns plain (s ++ c :: t)).1 = (splitRuns plain s).1 := by
  induction s with
  | nil => simp [splitRuns, hc]
  | cons a s ih =>
    rw [cons_append, splitRuns, splitRuns, ih.1, ih.2]
    split <;> simp

end

end Collector.Lib
