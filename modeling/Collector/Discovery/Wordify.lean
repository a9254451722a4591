import Collector.Lib.Hex
import Collector.Lib.Template
import Collector.Value
import Mathlib.Data.List.TakeWhile

/-!
# Texts as words

`wordify` and `unwordify` of `internal/confmapprovider/discovery/properties/property.go`. NUL has no digits left and
cannot be read back.
-/

namespace Collector.Discovery

open Lib List

variable {s : Str} {c : Char}

/-! ## The code -/

def escaped (c : Char) : Bool :=
  (c != '_' && c < '0') || (c > '9' && c < 'A') || (c > 'Z' && c < 'a') || c > 'z'

/-- Strips leading zeros, unless evenness is at stake. -/
def stripZeros : Str → Str
  | [] => []
  | c :: s =>
    if c = '0' then
      if s ≠ [] ∧ s.head? ≠ some '0' ∧ (c :: s).length % 2 = 0 then c :: s else stripZeros s
    else c :: s

def hexEncoded (c : Char) : Str := stripZeros (hexEncode 8 c.toNat)

def wordifyRune (c : Char) : Str := if escaped c then '_' :: 'x' :: hexEncoded c ++ ['_'] else [c]

def wordify (text : Str) : Str := text.flatMap wordifyRune

def hexMatch : Str → Option Str
  | [] => none
  | c :: s =>
    let ds := s.takeWhile isHex
    if c = 'x' ∧ ds ≠ [] ∧ (s.drop ds.length).head? = some '_' then some ds else none

/-- The first four bytes, padded on the left. A number that is no character prints as U+FFFD. -/
def decodeRune (ds : Str) : Char :=
  let n := hexValue ((List.replicate (8 - ds.length) '0' ++ ds).take 8)
  if n.isValidChar then Char.ofNat n else Char.ofNat 0xFFFD

def expandMatch (s : Str) : Str × Nat :=
  match hexMatch s with
  | none => (['_'], 0)
  | some ds => ([decodeRune ds], ds.length + 2)

def badMatches (text : Str) : List Str :=
  ((markedTails '_' (fun s => (expandMatch s).2) 0 text).filterMap hexMatch).filter fun ds =>
    ds.length % 2 = 1

def unwordify (text : Str) : Except (List Str) Str :=
  if badMatches text = [] then .ok (render '_' expandMatch 0 text) else .error (badMatches text)

/-! ## The digits of a character -/

theorem stripZeros_suffix (s : Str) : stripZeros s <:+ s := by
  induction s with
  | nil => exact suffix_rfl
  | cons c s ih =>
    unfold stripZeros
    split
    · split
      · exact suffix_rfl
      · exact ih.trans (suffix_cons c s)
    · exact suffix_rfl

theorem hexValue_stripZeros (s : Str) : hexValue (stripZeros s) = hexValue s := by
  induction s with
  | nil => rfl
  | cons c s ih =>
    unfold stripZeros
    split
    · rename_i hc
      subst hc
      split
      · rfl
      · exact ih
    · rfl

theorem even_stripZeros (h : s.length % 2 = 0 ∨ s.head? = some '0') : (stripZeros s).length % 2 = 0 := by
  induction s with
  | nil => rfl
  | cons c s ih =>
    unfold stripZeros
    split
    · rename_i hc
      split
      · rename_i hst
        exact hst.2.2
      · rename_i hgo
        refine ih ?_
        rw [length_cons] at hgo
        by_cases hs : s.length % 2 = 0
        · exact Or.inl hs
        · -- An odd rest is not empty, and it starts with a zero or the loop had ended.
          refine Or.inr (by_contra fun hh => hgo ⟨?_, hh, by omega⟩)
          rintro rfl
          exact hs rfl
    · rename_i hc
      rcases h with h | h
      · exact h
      · exact absurd (by simpa using h) hc

theorem length_hexEncoded (c : Char) : (hexEncoded c).length ≤ 8 := by
  have h := (stripZeros_suffix (hexEncode 8 c.toNat)).length_le
  rwa [length_hexEncode] at h

theorem even_hexEncoded (c : Char) : (hexEncoded c).length % 2 = 0 :=
  even_stripZeros (Or.inl (by rw [length_hexEncode]))

theorem isHex_hexEncoded : ∀ d ∈ hexEncoded c, isHex d = true := fun d hd =>
  isHex_of_mem_hexEncode 8 c.toNat d ((stripZeros_suffix _).subset hd)

theorem hexValue_hexEncoded (c : Char) : hexValue (hexEncoded c) = c.toNat := by
  have hv : c.toNat.isValidChar := c.valid
  have hlt : c.toNat < 16 ^ 8 := by
    rcases hv with h | h <;> omega
  rw [hexEncoded, hexValue_stripZeros, hexValue_hexEncode, Nat.mod_eq_of_lt hlt]

theorem hexEncoded_ne_nil (hc : c ≠ '\x00') : hexEncoded c ≠ [] := by
  intro hnil
  have hv := hexValue_hexEncoded c
  rw [hnil] at hv
  exact hc (Char.toNat_inj.mp hv.symm)

theorem decodeRune_hexEncoded (c : Char) : decodeRune (hexEncoded c) = c := by
  have hlen := length_hexEncoded c
  have ht : (List.replicate (8 - (hexEncoded c).length) '0' ++ hexEncoded c).take 8 =
      List.replicate (8 - (hexEncoded c).length) '0' ++ hexEncoded c := by
    apply take_of_length_le
    simp
    omega
  have hv : c.toNat.isValidChar := c.valid
  unfold decodeRune
  dsimp only
  rw [ht, hexValue_zeros, hexValue_hexEncoded, if_pos hv, Char.ofNat_toNat]

/-! ## Reading back -/

theorem hexMatch_hexEncoded (hc : c ≠ '\x00') (t : Str) :
    hexMatch ('x' :: (hexEncoded c ++ '_' :: t)) = some (hexEncoded c) := by
  have hd : (hexEncoded c ++ '_' :: t).takeWhile isHex = hexEncoded c := by
    rw [takeWhile_append_of_pos (isHex_hexEncoded)]
    simp [show isHex '_' = false from rfl]
  unfold hexMatch
  dsimp only
  rw [hd, if_pos ⟨rfl, hexEncoded_ne_nil hc, by simp⟩]

variable {ds : Str}

theorem hexMatch_open (h : ∀ d ∈ ds, isHex d = true) : hexMatch ('x' :: ds) = none := by
  have hd : ds.takeWhile isHex = ds := takeWhile_eq_self_iff.mpr h
  unfold hexMatch
  dsimp only
  rw [hd, drop_length, if_neg (by simp)]

theorem hexMatch_nul (t : Str) : hexMatch ('x' :: '_' :: t) = none := rfl

theorem wordify_append (s t : Str) : wordify (s ++ t) = wordify s ++ wordify t := by
  simp [wordify]

theorem wordify_nul (s t : Str) : wordify (s ++ '\x00' :: t) = wordify s ++ '_' :: 'x' :: '_' :: wordify t := by
  have hc : wordify ('\x00' :: t) = wordifyRune '\x00' ++ wordify t := rfl
  have hnul : wordifyRune '\x00' = ['_', 'x', '_'] := by decide +kernel
  rw [wordify_append, hc, hnul]
  rfl

theorem underscore_escaped : escaped '_' = true := by decide

theorem unwordify_plain (hc : c ≠ '_') (t : Str) : unwordify (c :: t) = (unwordify t).map (c :: ·) := by
  have hr : render '_' expandMatch 0 (c :: t) = c :: render '_' expandMatch 0 t := by
    rw [render, if_neg (by simp [hc])]
  have hbad : badMatches (c :: t) = badMatches t := by
    unfold badMatches
    rw [markedTails, if_neg (by simp [hc])]
  unfold unwordify
  rw [hr, hbad]
  split <;> rfl

theorem unwordify_noMatch (hs : hexMatch s = none) : unwordify ('_' :: s) = (unwordify s).map ('_' :: ·) := by
  have he : expandMatch s = (['_'], 0) := by rw [expandMatch, hs]
  have hr : render '_' expandMatch 0 ('_' :: s) = '_' :: render '_' expandMatch 0 s := by
    rw [render, he]
    split <;> rfl
  have hbad : badMatches ('_' :: s) = badMatches s := by
    unfold badMatches
    rw [markedTails, he]
    split
    · rw [filterMap_cons, hs]
    · rfl
  unfold unwordify
  rw [hr, hbad]
  split <;> rfl

theorem unwordify_match (hs : hexMatch s = some ds) (hev : ds.length % 2 = 0) :
    unwordify ('_' :: s) = (unwordify (s.drop (ds.length + 2))).map (decodeRune ds :: ·) := by
  have hne : s ≠ [] := by
    rintro rfl
    cases hs
  have he : expandMatch s = ([decodeRune ds], ds.length + 2) := by rw [expandMatch, hs]
  have hr : render '_' expandMatch 0 ('_' :: s) =
      decodeRune ds :: render '_' expandMatch 0 (s.drop (ds.length + 2)) := by
    rw [render, if_pos ⟨rfl, hne⟩, he, render_skip]
    rfl
  have hbad : badMatches ('_' :: s) = badMatches (s.drop (ds.length + 2)) := by
    unfold badMatches
    rw [markedTails, if_pos ⟨rfl, hne⟩, he, markedTails_skip, filterMap_cons, hs, filter_cons_of_neg (by simp [hev])]
  unfold unwordify
  rw [hr, hbad]
  split <;> rfl

theorem unwordify_rune (hc : c ≠ '\x00') (t : Str) : unwordify (wordifyRune c ++ t) = (unwordify t).map (c :: ·) := by
  unfold wordifyRune
  split_ifs with hp
  · have hm := hexMatch_hexEncoded hc t
    have hr := unwordify_match hm (even_hexEncoded c)
    rw [decodeRune_hexEncoded] at hr
    have hd : ('x' :: (hexEncoded c ++ '_' :: t)).drop ((hexEncoded c).length + 2) = t := by
      simp [drop_append]
    rw [hd] at hr
    simpa using hr
  · refine unwordify_plain ?_ t
    rintro rfl
    exact hp underscore_escaped

theorem unwordify_wordify_append (s t : Str) (hs : '\x00' ∉ s) :
    unwordify (wordify s ++ t) = (unwordify t).map (s ++ ·) := by
  induction s with
  | nil => cases h : unwordify t <;> simp [wordify, h, Except.map]
  | cons c s ih =>
    simp only [mem_cons, not_or] at hs
    have hc : wordify (c :: s) ++ t = wordifyRune c ++ (wordify s ++ t) := by simp [wordify]
    rw [hc, unwordify_rune (Ne.symm hs.1), ih hs.2]
    cases unwordify t <;> rfl

theorem unwordify_wordify (hs : '\x00' ∉ s) : unwordify (wordify s) = .ok s := by
  have h := unwordify_wordify_append s [] hs
  rw [append_nil] at h
  rw [h]
  simp [unwordify, badMatches, markedTails, render, Except.map]

theorem unwordify_broken {v text : Str} (hs : '\x00' ∉ s) (hv : hexMatch ('x' :: v) = none)
    (h : unwordify (wordify s ++ '_' :: 'x' :: v) = .ok text) :
    ∃ z, text = s ++ '_' :: 'x' :: z := by
  rw [unwordify_wordify_append s _ hs, unwordify_noMatch hv, unwordify_plain (by decide)] at h
  cases hz : unwordify v with
  | error e =>
    rw [hz] at h
    cases h
  | ok z =>
    rw [hz] at h
    cases h
    exact ⟨z, rfl⟩

/-! ## The characters of a word -/

/-- `\w` of Go's regular expressions. -/
def isWord (c : Char) : Bool :=
  c = '_' || ('0' ≤ c && c ≤ '9') || ('a' ≤ c && c ≤ 'z') || ('A' ≤ c && c ≤ 'Z')

theorem isWord_of_not_escaped (h : escaped c = false) : isWord c = true := by
  unfold escaped at h
  unfold isWord
  simp only [Bool.or_eq_false_iff, Bool.and_eq_false_iff, bne_eq_false_iff_eq, decide_eq_false_iff_not,
    Char.not_lt, Bool.or_eq_true, Bool.and_eq_true, decide_eq_true_eq] at h ⊢
  obtain ⟨⟨⟨hlow, hd⟩, hu⟩, hh⟩ := h
  -- From below: an underscore or a digit, then a capital letter, then a small one.
  rcases hd with hd | hd
  · rcases hlow with hlow | hlow
    · exact .inl (.inl (.inl hlow))
    · exact .inl (.inl (.inr ⟨hlow, hd⟩))
  · rcases hu with hu | hu
    · exact .inr ⟨hd, hu⟩
    · exact .inl (.inr ⟨hu, hh⟩)

theorem isWord_of_isHex (h : isHex c = true) : isWord c = true := by
  unfold isHex at h
  unfold isWord
  simp only [Bool.or_eq_true, Bool.and_eq_true, decide_eq_true_eq] at h ⊢
  rcases h with (hd | hl) | hu
  · exact .inl (.inl (.inr hd))
  · exact .inl (.inr ⟨hl.1, Char.le_trans hl.2 (show 'f' ≤ 'z' by decide)⟩)
  · exact .inr ⟨hu.1, Char.le_trans hu.2 (show 'F' ≤ 'Z' by decide)⟩

theorem isWord_wordifyRune : ∀ d ∈ wordifyRune c, isWord d = true := by
  intro d hd
  unfold wordifyRune at hd
  split_ifs at hd with hp
  · simp only [cons_append, mem_cons, mem_append, not_mem_nil, or_false] at hd
    rcases hd with rfl | rfl | hd | rfl
    · decide
    · decide
    · exact isWord_of_isHex (isHex_hexEncoded d hd)
    · decide
  · rw [mem_singleton.mp hd]
    exact isWord_of_not_escaped (by simpa using hp)

theorem isWord_wordify : ∀ d ∈ wordify s, isWord d = true := by
  intro d hd
  obtain ⟨c, -, hc⟩ := mem_flatMap.mp hd
  exact isWord_wordifyRune d hc

/-- A text without NUL becomes a word, and the word is read back as the text. -/
theorem wordify_word_and_back (s : Str) (hs : '\x00' ∉ s) :
    (∀ d ∈ wordify s, isWord d = true) ∧ unwordify (wordify s) = .ok s :=
  ⟨isWord_wordify, unwordify_wordify hs⟩

theorem wordify_word_and_back_path : '\x00' ∉ "a_x2f_/€".toList ∧ (∀ d ∈ wordify "a_x2f_/€".toList, isWord d = true) ∧
      unwordify (wordify "a_x2f_/€") = .ok "a_x2f_/€" := by
  have hs : '\x00' ∉ "a_x2f_/€".toList := by decide
  exact ⟨hs, wordify_word_and_back _ hs⟩

end Collector.Discovery
