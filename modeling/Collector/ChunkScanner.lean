import Collector.Value
import Mathlib.Data.List.TakeWhile

/-!
# The scanner of the subprocess logs

`ChunkScanner` makes one token of a line and the indented lines after it.
-/

namespace Collector.ChunkScanner

open List

def lines (data : Str) : List Str := splitOn '\n' data

def indented (line : Str) : Bool := line.head? = some ' ' || line.head? = some '\t'

/-- `bytes.Join`. The copy that it makes of a single empty slice is nil. -/
def join (entry : List Str) : Option Str :=
  if entry = [[]] then none else some (intercalate ['\n'] entry)

/-- The split function: the advance and the token. -/
def split (data : Str) (atEOF : Bool) : Nat × Option Str :=
  if atEOF ∧ data = [] then (0, none)
  else if (lines data).length = 1 ∧ ¬ atEOF then (0, none)
  else
    let entry := join ((lines data).take 1 ++ ((lines data).drop 1).takeWhile indented)
    ((entry.getD []).length + 1, entry)

inductive End where
  | eof
  | advanceTooFar
deriving DecidableEq

/-- Calls of `Scan` until one returns false. `data` is held, and `reads` is what the reader returns before `io.EOF`. -/
def scan : Nat → Str → List Str → Bool → Option (List Str × End)
  | 0, _, _, _ => none
  | fuel + 1, data, reads, atEOF =>
    let (n, token) := split data atEOF
    if data.length < n then some ([], .advanceTooFar)
    else
      match token, atEOF, reads with
      | some token, _, _ => (scan fuel (data.drop n) reads atEOF).map fun r => (token :: r.1, r.2)
      | none, true, _ => some ([], .eof)
      | none, false, [] => scan fuel (data.drop n) [] true
      | none, false, r :: reads => scan fuel (data.drop n ++ r) reads false

/-! ## What is kept -/

def lastLine (data : Str) : Str := (lines data).getLastD []

/-- An empty line has an indented line after it, and after a newline the last line is not indented. -/
def Fits (data : Str) : Prop :=
  (lines data).IsChain (fun line next => line = [] → indented next = true) ∧
    ('\n' ∈ data → indented (lastLine data) = false)

/-- Each read fits with the part of a line before it, and there is a newline at the end. -/
def Kept (data : Str) (reads : List Str) : Prop :=
  Fits data ∧ (∀ k (h : k < reads.length), Fits (lastLine (data ++ (reads.take k).flatten) ++ reads[k])) ∧
    lastLine (data ++ reads.flatten) = []

variable {a b data : Str} {atEOF : Bool}

theorem lines_ne_nil (data : Str) : lines data ≠ [] := splitOn_ne_nil '\n' data

theorem lines_newline (a b : Str) : lines (a ++ '\n' :: b) = lines a ++ lines b := splitOn_append_cons_self ..

theorem lastLine_newline (a b : Str) : lastLine (a ++ '\n' :: b) = lastLine b := by
  rw [lastLine, lines_newline, getLastD_eq_getLast?, getLast?_append_of_ne_nil _ (lines_ne_nil b), lastLine,
    getLastD_eq_getLast?]

theorem lines_single (h : '\n' ∉ data) : lines data = [data] := splitOn_eq_singleton h

theorem Fits.single (h : '\n' ∉ data) : Fits data := by
  simp [Fits, lines_single h, h]

theorem intercalate_append {xs ys : List Str} (hx : xs ≠ []) (hy : ys ≠ []) :
    intercalate ['\n'] (xs ++ ys) = intercalate ['\n'] xs ++ '\n' :: intercalate ['\n'] ys := by
  induction xs with
  | nil => exact absurd rfl hx
  | cons x xs ih =>
    cases xs with
    | nil => simp [intercalate_cons_of_ne_nil hy]
    | cons x' xs => simp [intercalate_cons_cons, ← ih]

theorem newline_notMem_lines : ∀ l ∈ lines data, '\n' ∉ l := by
  induction data with
  | nil => simp [lines]
  | cons c data ih =>
    obtain ⟨l, ls, hl⟩ := exists_cons_of_ne_nil (lines_ne_nil data)
    rw [hl, forall_mem_cons] at ih
    unfold lines at hl ⊢
    rw [splitOn_cons_eq_if_modifyHead, hl]
    split_ifs with hc
    · simpa using ih
    · refine forall_mem_cons.mpr ⟨?_, ih.2⟩
      rw [mem_cons, not_or]
      exact ⟨fun h => hc (by simp [← h]), ih.1⟩

theorem isChain_front {l d : Str} {front ds : List Str} (hin : ∀ line ∈ front, indented line = true)
    (hd : indented d = false) : (l :: (front ++ d :: ds)).IsChain (fun line next => line = [] → indented next = true) ↔
      ¬ (l = [] ∧ front = []) ∧ (d :: ds).IsChain fun line next => line = [] → indented next = true := by
  induction front generalizing l with
  | nil => simp [hd]
  | cons f front ih =>
    rw [forall_mem_cons] at hin
    have hf : f ≠ [] := by
      rintro rfl
      cases hin.1
    rw [cons_append, isChain_cons_cons, ih hin.2]
    simp [hf, hin.1]

theorem exists_lines_cons (hn : '\n' ∈ data) : ∃ l ls, lines data = l :: ls ∧ ls ≠ [] := by
  obtain ⟨a, b, rfl⟩ := append_of_mem hn
  obtain ⟨l, ls, ha⟩ := exists_cons_of_ne_nil (lines_ne_nil a)
  exact ⟨l, ls ++ lines b, by rw [lines_newline, ha, cons_append], by simp [lines_ne_nil]⟩

/-- Data with a newline is all indented after its first line, or a line that is not indented comes after the token. -/
theorem split_newline (hn : '\n' ∈ data) (atEOF : Bool) :
    split data atEOF = (data.length + 1, some data) ∧ ¬ Fits data ∨
    ∃ entry rest, data = entry ++ '\n' :: rest ∧ (Fits data ↔ entry ≠ [] ∧ Fits rest) ∧
      split data atEOF = (entry.length + 1, if entry = [] then none else some entry) := by
  obtain ⟨l, ls, hls, hne⟩ := exists_lines_cons hn
  have hi : intercalate ['\n'] (lines data) = data := intercalate_splitOn _
  have hin : ∀ line ∈ ls.takeWhile indented, indented line = true := fun line => mem_takeWhile_imp
  have hs : split data atEOF = (((join (l :: ls.takeWhile indented)).getD []).length + 1,
      join (l :: ls.takeWhile indented)) := by
    simp [split, hls, hne, ne_nil_of_mem hn]
  have hlast : lastLine data = ls.getLast hne := by
    rw [lastLine, hls, getLastD_cons, getLastD_eq_getLast?, getLast?_eq_some_getLast hne, Option.getD_some]
  have hls' := takeWhile_append_dropWhile (p := indented) (l := ls)
  rw [hls] at hi
  generalize ls.takeWhile indented = front at *
  cases hrest : ls.dropWhile indented with
  | nil =>
    rw [hrest, append_nil] at hls'
    subst hls'
    refine .inl ⟨?_, fun hf => ?_⟩
    · rw [hs, join, if_neg (by simp [hne]), hi]
      rfl
    · have := hf.2 hn
      rw [hlast, hin _ (getLast_mem hne)] at this
      cases this
  | cons d ds =>
    have hd : indented d = false := by
      simpa [hrest] using head?_dropWhile_not indented ls
    rw [hrest] at hls'
    have hlines : lines (intercalate ['\n'] (d :: ds)) = d :: ds := by
      refine splitOn_intercalate _ (fun line hl => @newline_notMem_lines data _ ?_) (by simp)
      rw [hls, ← hls']
      exact mem_cons_of_mem _ (mem_append_right _ hl)
    have heq : data = intercalate ['\n'] (l :: front) ++ '\n' :: intercalate ['\n'] (d :: ds) := by
      rw [← hi, ← hls', ← cons_append, intercalate_append (by simp) (by simp)]
    have hnil : intercalate ['\n'] (l :: front) = [] ↔ l = [] ∧ front = [] := by
      cases front <;> simp [intercalate_cons_cons]
    refine .inr ⟨_, _, heq, ?_, ?_⟩
    · have hla : lastLine data = lastLine (intercalate ['\n'] (d :: ds)) := by rw [heq, lastLine_newline]
      have hlast' : '\n' ∉ intercalate ['\n'] (d :: ds) → indented (lastLine data) = false := by
        intro hnot
        rw [lines_single hnot, cons_eq_cons] at hlines
        rwa [hla, lastLine, lines_single hnot, hlines.1]
      rw [Fits, Fits, hls, ← hls', isChain_front hin hd, hlines, ne_eq, hnil, ← hla]
      tauto
    · rw [hs, join]
      split_ifs <;> simp_all

section
variable {reads tokens : List Str} {fuel : Nat}

theorem length_tokens_le {e : End} (h : scan fuel data reads atEOF = some (tokens, e)) :
    (tokens.flatMap (· ++ ['\n'])).length ≤ data.length + reads.flatten.length := by
  induction fuel generalizing data reads atEOF tokens with
  | zero => cases h
  | succ fuel ih =>
    rw [scan] at h
    rcases hs : split data atEOF with ⟨n, token⟩
    simp only [hs] at h
    split_ifs at h with hlt
    · cases h
      simp
    · split at h
      · rename_i token
        obtain ⟨r, hr, heq⟩ := Option.map_eq_some_iff.mp h
        cases heq
        have hn : n = token.length + 1 := by
          unfold split at hs
          split_ifs at hs
          · cases hs
          · cases hs
          · obtain ⟨rfl, hj⟩ := Prod.mk.inj hs
            rw [hj, Option.getD_some]
        have := ih hr
        simp only [flatMap_cons, length_append, length_drop, length_singleton] at this ⊢
        omega
      · cases h
        simp
      · have := ih h
        rw [length_drop] at this
        omega
      · have := ih h
        simp only [flatten_cons, length_append, length_drop] at this ⊢
        omega

theorem kept_newline (h : Fits (a ++ '\n' :: b) ↔ a ≠ [] ∧ Fits b) :
    Kept (a ++ '\n' :: b) reads ↔ a ≠ [] ∧ Kept b reads := by
  simp only [Kept, h, append_assoc, cons_append, lastLine_newline, and_assoc]

theorem kept_cons {r : Str} (h : '\n' ∉ data) : Kept data (r :: reads) ↔ Kept (data ++ r) reads := by
  have hl : lastLine data = data := by simp [lastLine, lines_single h]
  unfold Kept
  rw [flatten_cons, append_assoc]
  constructor
  · rintro ⟨-, hr, he⟩
    refine ⟨by simpa [hl] using hr 0 (Nat.succ_pos _), fun k hk => ?_, he⟩
    simpa using hr (k + 1) (Nat.succ_lt_succ hk)
  · rintro ⟨hf, hr, he⟩
    refine ⟨.single h, fun k hk => ?_, he⟩
    cases k with
    | zero => simpa [hl] using hf
    | succ k => simpa using hr k (Nat.lt_of_succ_lt_succ hk)

theorem scan_flatMap_iff (atEOF : Bool) (he : atEOF = true → reads = [])
    (hf : data.length + reads.flatten.length + reads.length + (!atEOF).toNat < fuel) :
    (∃ tokens, scan fuel data reads atEOF = some (tokens, .eof) ∧
      tokens.flatMap (· ++ ['\n']) = data ++ reads.flatten) ↔ Kept data reads := by
  induction fuel generalizing data reads atEOF with
  | zero => cases hf
  | succ fuel ih =>
    by_cases hn : '\n' ∈ data
    · obtain ⟨hs, hnot⟩ | ⟨entry, rest, rfl, hfit, hs⟩ := split_newline hn atEOF
      · simp [scan, hs, Kept, hnot]
      · rw [kept_newline hfit]
        by_cases hentry : entry = []
        · -- the newline is passed over
          refine iff_of_false ?_ fun h => h.1 hentry
          rintro ⟨tokens, hsc, htok⟩
          subst hentry
          have hlen := congrArg length htok
          rw [scan, hs] at hsc
          cases atEOF with
          | true => simp_all
          | false =>
            cases reads <;> have := length_tokens_le hsc <;> simp_all <;> omega
        · simp only [length_append, length_cons] at hf
          rw [← ih atEOF he (by omega)]
          simp [scan, hs, hentry]
    · have hl := lines_single hn
      cases atEOF with
      | true =>
        obtain rfl := he rfl
        by_cases hd : data = []
        · simp [hd, scan, split, Kept, Fits.single, lastLine, lines]
        · simp [scan, split, hl, hd, join, Kept, lastLine]
      | false =>
        have hs : split data false = (0, none) := by simp [split, hl]
        cases reads with
        | nil =>
          rw [← ih true (fun _ => rfl) (by simpa using hf)]
          simp [scan, hs]
        | cons r reads =>
          simp only [flatten_cons, length_append, length_cons] at hf
          rw [kept_cons hn, ← ih false (by simp) (by rw [length_append]; omega)]
          simp [scan, hs]

theorem scan_newline (he : atEOF = true → reads = [])
    (hf : data.length + reads.flatten.length + reads.length + (!atEOF).toNat < fuel)
    (hl : data.length + reads.flatten.length ≤ 1) (hc : ∀ c ∈ data ++ reads.flatten, c = '\n') :
    scan fuel data reads atEOF = some ([], .eof) := by
  induction fuel generalizing data reads atEOF with
  | zero => cases hf
  | succ fuel ih =>
    have hs : split data atEOF = (data.length, none) := by
      match data with
      | [] => cases atEOF <;> rfl
      | [c] =>
        obtain rfl := hc c (by simp)
        cases atEOF <;> rfl
      | _ :: _ :: _ =>
        simp only [length_cons] at hl
        omega
    rw [scan, hs]
    cases atEOF with
    | true => simp
    | false =>
      cases reads with
      | nil => simpa using @ih [] true [] (fun _ => rfl) (by simp at hf ⊢; omega) (by simp) (by simp)
      | cons r reads =>
        simp only [flatten_cons, length_append, length_cons] at hf hl
        simpa using @ih r false reads (by simp) (by omega) (by omega) fun c h => hc c (by simp_all)

theorem intercalate_newline (h : tokens ≠ []) :
    intercalate ['\n'] tokens ++ ['\n'] = tokens.flatMap (· ++ ['\n']) := by
  induction tokens with
  | nil => exact absurd rfl h
  | cons token tokens ih => cases tokens <;> simp_all [intercalate_cons_cons]

end

/-- Nothing is lost just if each read fits with the part of a line before it and there is a newline at the end, or if a
newline is all there is. -/
theorem scan_lossless_iff (reads : List Str) (fuel : Nat) (hfuel : reads.flatten.length + reads.length + 1 < fuel) :
    (∃ tokens, scan fuel [] reads false = some (tokens, .eof) ∧
      (reads.flatten = intercalate ['\n'] tokens ∨ reads.flatten = intercalate ['\n'] tokens ++ ['\n'])) ↔
    Kept [] reads ∨ reads.flatten = ['\n'] := by
  have hf : ([] : Str).length + reads.flatten.length + reads.length + (!false).toNat < fuel := by simpa using hfuel
  rw [← scan_flatMap_iff false nofun hf]
  constructor
  · rintro ⟨tokens, hs, h⟩
    by_cases ht : tokens = []
    · subst ht
      rcases h with h | h
      · exact .inl ⟨[], hs, by simp [h]⟩
      · exact .inr h
    · rw [intercalate_newline ht] at h
      refine .inl ⟨tokens, hs, (h.resolve_left fun h => ?_).symm⟩
      have hlen := length_tokens_le hs
      rw [← intercalate_newline ht, h, length_append, length_nil, length_singleton] at hlen
      omega
  · rintro (⟨tokens, hs, htok⟩ | h)
    · refine ⟨tokens, hs, ?_⟩
      by_cases ht : tokens = []
      · exact .inl (by simpa [ht] using htok.symm)
      · exact .inr (by rw [intercalate_newline ht, htok, nil_append])
    · exact ⟨[], scan_newline nofun hf (by simp [h]) (by simp [h]), .inr h⟩

theorem scan_indented : ∃ tokens, scan 30 [] [" a", "\n\n b\nc", "d\n"] false = some (tokens, .eof) ∧
    ([" a".toList, "\n\n b\nc", "d\n"].flatten = intercalate ['\n'] tokens ∨
      [" a".toList, "\n\n b\nc", "d\n"].flatten = intercalate ['\n'] tokens ++ ['\n']) := by
  refine (scan_lossless_iff [" a", "\n\n b\nc", "d\n"] 30 (by decide)).mpr (.inl ?_)
  unfold Kept Fits
  decide

-- A read ends in an indented line, the stream ends without a newline, and two lines are empty.
theorem scan_divided : scan 20 [] ["a\n b", "c\nd\n"] false = some ([], .advanceTooFar) ∧
    scan 20 [] ["a"] false = some ([], .advanceTooFar) ∧
    scan 20 [] ["a\n\n\nb\n"] false = some (["a".toList], .eof) := by
  decide

end Collector.ChunkScanner
