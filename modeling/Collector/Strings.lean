import Mathlib.Data.Char
import Mathlib.Data.List.DropRight
import Mathlib.Data.List.Lex
import Collector.Value

/-! # The functions of Go's `strings` package that the model uses -/

namespace Collector.Strings

open List Option

variable {c : Char} {p : Char → Bool} (a field : Str) (sep : Char)

variable {s : Str}

theorem mem_of_mem_rdropWhile (h : c ∈ s.rdropWhile p) : c ∈ s := by
  have hp := rdropWhile_prefix p s
  exact hp.subset h

def trim (s : Str) : Str := (s.dropWhile (· = ' ')).rdropWhile (· = ' ')

theorem trim_eq_self_iff (s : Str) : trim s = s ↔ s.head? ≠ some ' ' ∧ s.getLast? ≠ some ' ' := by
  cases s with
  | nil => simp [trim]
  | cons c s =>
    unfold trim
    by_cases hc : c = ' '
    · -- The result is shorter than the text.
      subst hc
      have hp := rdropWhile_prefix (· = ' ') (s.dropWhile (· = ' '))
      have hle := hp.length_le
      have hle' := (s.dropWhile_suffix (· = ' ')).length_le
      simp only [dropWhile_cons, decide_true, if_true, head?_cons, ne_eq, not_true_eq_false, false_and,
        iff_false]
      intro heq
      rw [heq, length_cons] at hle
      omega
    · rw [dropWhile_cons_of_neg (by simpa using hc), rdropWhile_eq_self_iff]
      simp [hc, getLast?_eq_some_getLast]

theorem trim_of_noSpace (s : Str) (h : ' ' ∉ s) : trim s = s :=
  (trim_eq_self_iff s).mpr ⟨fun he => h (mem_of_mem_head? he), fun he => h (mem_of_mem_getLast? he)⟩

theorem head?_trim (s : Str) : (trim s).head? ≠ some ' ' := by
  obtain ⟨r, hr⟩ := rdropWhile_prefix (· = ' ') (s.dropWhile (· = ' '))
  have hh := head?_dropWhile_not (fun c : Char => decide (c = ' ')) s
  rw [← hr] at hh
  unfold trim
  intro h
  cases ht : (s.dropWhile (· = ' ')).rdropWhile (· = ' ') with
  | nil => simp [ht] at h
  | cons c t =>
    rw [ht, head?_cons, some.injEq] at h
    rw [ht, cons_append, head?_cons] at hh
    simp [h] at hh

theorem rdropWhile_append_cons (hc : p c = false) (r : Str) :
    (a ++ c :: r).rdropWhile p = a ++ c :: r.rdropWhile p := by
  induction r using reverseRecOn with
  | nil => rw [rdropWhile_concat_neg _ _ _ (by simp [hc]), rdropWhile_nil]
  | append_singleton r d ih =>
    rw [← cons_append, ← append_assoc]
    by_cases hd : p d = true
    · rw [rdropWhile_concat_pos _ _ _ hd, rdropWhile_concat_pos _ _ _ hd, ih]
    · rw [rdropWhile_concat_neg _ _ _ hd, rdropWhile_concat_neg _ _ _ hd, append_assoc, cons_append]

theorem mem_of_mem_trim (h : c ∈ trim s) : c ∈ s := by
  unfold trim at h
  have hf := mem_of_mem_rdropWhile h
  exact (dropWhile_suffix _).subset hf

theorem mem_trim (hc : c ≠ ' ') (h : c ∈ s) : c ∈ trim s := by
  have hd {l : Str} (hmem : c ∈ l) : c ∈ l.dropWhile (· = ' ') := by
    rw [← takeWhile_append_dropWhile (p := (· = ' ')) (l := l), mem_append] at hmem
    apply hmem.resolve_left
    intro hs
    exact hc (by simpa using mem_takeWhile_imp hs)
  unfold trim rdropWhile
  rw [mem_reverse]
  exact hd (mem_reverse.mpr (hd h))

theorem trim_rdropWhile (s : Str) : trim (s.rdropWhile (· = ' ')) = trim s := by
  by_cases hs : ∀ c ∈ s, c = ' '
  · have hdr : s.dropWhile (· = ' ') = [] := dropWhile_eq_nil_iff.mpr (by simpa using hs)
    have hr : s.rdropWhile (· = ' ') = [] := rdropWhile_eq_nil_iff.mpr (by simpa using hs)
    unfold trim
    rw [hr, hdr, dropWhile_nil]
  · have hne : s.dropWhile (· = ' ') ≠ [] := fun hnil => hs (by simpa using dropWhile_eq_nil_iff.mp hnil)
    obtain ⟨c, r, hcr⟩ := exists_cons_of_ne_nil hne
    have hc : decide (c = ' ') = false := by
      have hh := head?_dropWhile_not (fun c : Char => decide (c = ' ')) s
      rw [hcr] at hh
      exact hh
    have hsp : ∀ d ∈ s.takeWhile (· = ' '), decide (d = ' ') = true := by
      intro d hd
      exact mem_takeWhile_imp (p := (· = ' ')) hd
    have hspl : s = s.takeWhile (· = ' ') ++ c :: r := by rw [← hcr, takeWhile_append_dropWhile]
    have hl : s.rdropWhile (· = ' ') = s.takeWhile (· = ' ') ++ c :: r.rdropWhile (· = ' ') := by
      rw [← rdropWhile_append_cons _ hc, ← hspl]
    have hi := rdropWhile_idempotent (fun c : Char => decide (c = ' ')) r
    have hco (t : Str) : (c :: t).rdropWhile (· = ' ') = c :: t.rdropWhile (· = ' ') := rdropWhile_append_cons [] hc t
    unfold trim
    rw [hcr, hl, dropWhile_append_of_pos hsp, dropWhile_cons_of_neg (by simp [hc]), hco, hco, hi]

def isSpace (c : Char) : Bool :=
  c.toNat ∈ [0x20, 0x85, 0xA0, 0x1680, 0x2028, 0x2029, 0x202f, 0x205f, 0x3000] ||
    (0x09 ≤ c.toNat && c.toNat ≤ 0x0d) || (0x2000 ≤ c.toNat && c.toNat ≤ 0x200a)

def trimSpace (s : Str) : Str := (s.dropWhile isSpace).rdropWhile isSpace

/-- `strings.SplitN(s, sep, 2)` for a separator of one character. -/
def cut (sep : Char) : Str → Option (Str × Str)
  | [] => none
  | c :: s => if c = sep then some ([], s) else (cut sep s).map fun p => (c :: p.1, p.2)

theorem cut_eq (s a b : Str) (h : cut sep s = some (a, b)) : s = a ++ sep :: b ∧ sep ∉ a := by
  induction s generalizing a with
  | nil => simp [cut] at h
  | cons c s ih =>
    rw [cut] at h
    split_ifs at h with hc
    · simp only [some.injEq, Prod.mk.injEq] at h
      obtain ⟨rfl, rfl⟩ := h
      simp [hc]
    · simp only [map_eq_some_iff] at h
      obtain ⟨⟨a', b'⟩, hcut, he⟩ := h
      simp only [Prod.mk.injEq] at he
      obtain ⟨rfl, rfl⟩ := he
      obtain ⟨rfl, hn⟩ := ih a' hcut
      exact ⟨rfl, by simp [hn, Ne.symm hc]⟩

theorem cut_append {sep : Char} {a : Str} (h : sep ∉ a) (b : Str) : cut sep (a ++ sep :: b) = some (a, b) := by
  induction a with
  | nil => simp [cut]
  | cons c a ih =>
    rw [mem_cons, not_or] at h
    rw [cons_append, cut, if_neg (Ne.symm h.1), ih h.2]
    rfl

theorem cut_none (s : Str) : cut sep s = none ↔ sep ∉ s := by
  induction s with
  | nil => simp [cut]
  | cons c s ih =>
    rw [cut]
    split
    · rename_i hc; simp [hc]
    · rename_i hc; simp [ih, Ne.symm hc]

def contains (s sub : Str) : Bool :=
  sub.isPrefixOf s || match s with
    | [] => false
    | _ :: s => contains s sub

/-- The fields of a text, after the part of a field that was read. -/
def fieldsFrom : Str → Str → List Str
  | field, [] => if field = [] then [] else [field]
  | field, c :: s =>
    if isSpace c then
      if field = [] then fieldsFrom [] s else field :: fieldsFrom [] s
    else fieldsFrom (field ++ [c]) s

def fields (s : Str) : List Str := fieldsFrom [] s

theorem fieldsFrom_append_space (a : Str) (hc : isSpace c) (s : Str) :
    fieldsFrom field (a ++ c :: s) = fieldsFrom field a ++ fields s := by
  induction a generalizing field with
  | nil =>
    simp only [nil_append, fieldsFrom, hc, if_true, fields]
    split <;> rfl
  | cons b a ih =>
    rw [cons_append, fieldsFrom, fieldsFrom, ih, ih]
    split
    · split <;> rfl
    · rfl

theorem fields_append_space (hc : isSpace c) (s : Str) :
    fields (a ++ c :: s) = fields a ++ fields s := fieldsFrom_append_space [] a hc s

theorem fieldsFrom_noSpace (hs : ∀ c ∈ s, isSpace c = false) (hne : field ++ s ≠ []) :
    fieldsFrom field s = [field ++ s] := by
  induction s generalizing field with
  | nil =>
    rw [append_nil] at hne ⊢
    rw [fieldsFrom, if_neg hne]
  | cons c s ih =>
    rw [forall_mem_cons] at hs
    rw [fieldsFrom, if_neg (by simp [hs.1]), ih (field ++ [c]) hs.2 (by simp), append_assoc]
    rfl

theorem fields_blank (hs : ∀ c ∈ s, isSpace c) : fields s = [] := by
  unfold fields
  induction s with
  | nil => rfl
  | cons c s ih =>
    rw [forall_mem_cons] at hs
    rw [fieldsFrom, if_pos hs.1, if_pos rfl]
    exact ih hs.2

theorem mem_fieldsFrom {field s f : Str} (hf : ∀ c ∈ field, isSpace c = false) (h : f ∈ fieldsFrom field s) :
    f ≠ [] ∧ ∀ c ∈ f, isSpace c = false := by
  induction s generalizing field with
  | nil =>
    rw [fieldsFrom] at h
    split at h
    · cases h
    · rename_i hne
      rw [mem_singleton.mp h]
      exact ⟨hne, hf⟩
  | cons c s ih =>
    rw [fieldsFrom] at h
    split at h
    · split at h
      · exact ih (by simp) h
      · rename_i hne
        rcases mem_cons.mp h with rfl | h
        · exact ⟨hne, hf⟩
        · exact ih (by simp) h
    · rename_i hc
      refine ih (fun d hd => ?_) h
      rcases mem_append.mp hd with hd | hd
      · exact hf d hd
      · rw [mem_singleton.mp hd]
        simpa using hc

theorem fields_eq_self_iff (s : Str) : fields s = [s] ↔ s ≠ [] ∧ ∀ c ∈ s, isSpace c = false := by
  constructor
  · intro h
    have hmem : s ∈ fieldsFrom [] s := by
      change s ∈ fields s
      rw [h]
      exact mem_singleton_self s
    exact mem_fieldsFrom (by simp) hmem
  · intro h
    exact fieldsFrom_noSpace [] h.2 h.1

theorem fields_of_mem {s f : Str} (h : f ∈ fields s) : fields f = [f] :=
  (fields_eq_self_iff f).mpr (mem_fieldsFrom (by simp) h)

def sortStrings (l : List Str) : List Str := l.mergeSort fun a b => decide (a ≤ b)

end Collector.Strings
