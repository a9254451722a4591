import Collector.StatsD.Datagrams

/-!
# The parts of a line
-/

namespace Collector.StatsD

open Lib Strings List

variable {tags : List (Str × Str)}

/-- The line `name:value|type|@rate|#k1:v1,...,kn:vn`, with its last two parts optional. -/
structure Line where
  name : Str
  value : Str
  type : Str
  rate : Option Str
  tags : List (Str × Str)
  nonempty : name ≠ [] ∧ value ≠ [] ∧ type ≠ [] ∧ rate ≠ some []
  plain : ∀ s ∈ name :: value :: type :: rate.toList, ':' ∉ s ∧ '|' ∉ s ∧ '\n' ∉ s
  plainTags : ∀ t ∈ tags, (':' ∉ t.1 ∧ ',' ∉ t.1 ∧ '|' ∉ t.1) ∧ ',' ∉ t.2 ∧ '|' ∉ t.2

namespace Line

def tagText (t : Str × Str) : Str := t.1 ++ ':' :: t.2

def rateText (l : Line) : Str := l.rate.elim [] fun rate => '|' :: '@' :: rate

def text (l : Line) : Str :=
  l.name ++ ':' :: l.value ++ '|' :: (l.type ++ l.rateText) ++
    if l.tags = [] then [] else '|' :: '#' :: [','].intercalate (l.tags.map tagText)

def dimensions (l : Line) : Option Dims := if l.tags = [] then none else some (putAll l.tags [])

end Line

section
variable {c d : Char} {a b s : Str}

theorem lastIndexOf_append_none (h : c ∉ a) (hs : lastIndexOf [c, d] s = none) :
    lastIndexOf [c, d] (a ++ s) = none := by
  induction a with
  | nil => exact hs
  | cons e a ih =>
    rw [mem_cons, not_or] at h
    simp [lastIndexOf, ih h.2, h.1]

theorem lastIndexOf_of_notMem (h : c ∉ s) : lastIndexOf [c, d] s = none := by
  simpa using lastIndexOf_append_none (s := []) h rfl

theorem lastIndexOf_append_self (hs : lastIndexOf [c, d] s = none) (hd : c ≠ d) :
    lastIndexOf [c, d] (a ++ c :: d :: s) = some a.length := by
  induction a with
  | nil => simp [lastIndexOf, hs, hd]
  | cons e a ih => simp [lastIndexOf, ih]

theorem slice_append (a b c : Str) {lo hi : Int} (hlo : lo = a.length) (hhi : hi = a.length + b.length) :
    slice (a ++ (b ++ c)) lo hi = .ok b := by
  have : 0 ≤ lo ∧ lo ≤ hi ∧ hi ≤ (a ++ (b ++ c)).length := by
    simp only [length_append]
    omega
  have hlo : lo.toNat = a.length := by omega
  have hhi : hi.toNat = (a ++ b).length := by
    rw [length_append]
    omega
  rw [slice, if_pos this, hlo, hhi, ← append_assoc, take_left, drop_left]

theorem parseTags_eq (h : ∀ t ∈ tags, ':' ∉ t.1) (dims : Dims) :
    (tags.map Line.tagText).foldlM parseTag (some dims) = .ok (some (putAll tags dims)) := by
  induction tags generalizing dims with
  | nil => rfl
  | cons t tags ih =>
    rw [forall_mem_cons] at h
    rw [map_cons, foldlM_cons, parseTag, Line.tagText, cut_append h.1]
    exact ih h.2 _

theorem notMem_intercalate {ls : List Str} (hc : c ≠ d) (h : ∀ s ∈ ls, c ∉ s) : c ∉ [d].intercalate ls := by
  induction ls with
  | nil => simp
  | cons s ls ih => cases ls <;> simp_all [intercalate]

/-- The tags are cut off at the last `|#`. -/
theorem parseDogstatsdTags_append (hne : tags ≠ [])
    (h : ∀ t ∈ tags, (':' ∉ t.1 ∧ ',' ∉ t.1 ∧ '|' ∉ t.1) ∧ ',' ∉ t.2 ∧ '|' ∉ t.2) :
    parseDogstatsdTags (a ++ '|' :: '#' :: [','].intercalate (tags.map Line.tagText)) =
      .ok (a, some (putAll tags [])) := by
  have hbar : '|' ∉ [','].intercalate (tags.map Line.tagText) := by
    refine notMem_intercalate (by decide) fun s hs => ?_
    obtain ⟨t, ht, rfl⟩ := mem_map.mp hs
    simp [Line.tagText, h t ht]
  have hsplit : ([','].intercalate (tags.map Line.tagText)).splitOn ',' = tags.map Line.tagText := by
    refine splitOn_intercalate _ (fun s hs => ?_) (by simpa using hne)
    obtain ⟨t, ht, rfl⟩ := mem_map.mp hs
    simp [Line.tagText, h t ht]
  generalize [','].intercalate (tags.map Line.tagText) = raw at *
  have hraw : slice (a ++ '|' :: '#' :: raw) (a.length + 2) (a ++ '|' :: '#' :: raw).length = .ok raw := by
    simpa using slice_append (a ++ ['|', '#']) raw [] (by simp) (by simp; omega)
  have ha : slice (a ++ '|' :: '#' :: raw) 0 a.length = .ok a := slice_append [] a _ rfl (by simp)
  have hpos : position (some a.length) = a.length := rfl
  rw [parseDogstatsdTags, lastIndexOf_append_self (lastIndexOf_of_notMem hbar) (by decide), hpos, if_pos (by omega),
    hraw, ha]
  simp only [bind, Except.bind, hsplit, parseTags_eq fun t ht => (h t ht).1.1]

theorem parseType_append (a type : Str) (hne : type ≠ []) (ht : '|' ∉ type) :
    parseType (a ++ '|' :: type) a.length = .ok type ∧
      parseType (a ++ '|' :: (type ++ '|' :: b)) a.length = .ok type.dropLast := by
  have hs (rest : Str) : slice (a ++ '|' :: rest) (a.length + 1) (a ++ '|' :: rest).length = .ok rest := by
    simpa using slice_append (a ++ ['|']) rest [] (by simp) (by simp; omega)
  have hpos := length_pos_iff.mpr hne
  constructor
  · simp only [parseType, hs, bind, Except.bind, indexOf_of_notMem ht, position]
    rw [if_neg (by omega)]
  · -- the second `|` is looked for behind the first one, and its place is counted from it
    simp only [parseType, hs, bind, Except.bind, indexOf_append ht, position]
    rw [if_pos (by omega)]
    have := @slice_append (a ++ ['|']) type.dropLast ([type.getLast hne] ++ '|' :: b) (a.length + 1)
      (a.length + type.length) (by simp) (by simp; omega)
    rwa [← append_assoc type.dropLast, dropLast_append_getLast, append_assoc] at this

theorem parseMetric_of_tags {V : Type} {parseFloat : Str → Option V} {v : V} {line name value rest type : Str}
    {dims : Option Dims} (hn : ':' ∉ name) (hp : '|' ∉ name ++ ':' :: value) (hne : rest ≠ [])
    (ht : parseType (name ++ ':' :: value ++ '|' :: rest) (name ++ ':' :: value).length = .ok type)
    (hd : parseDogstatsdTags line = .ok (name ++ ':' :: value ++ '|' :: rest, dims)) (hl : line ≠ [])
    (hv : parseFloat value = some v) :
    parseMetric parseFloat [] [] line = .ok (some ⟨name, name, type, v, dims⟩) := by
  have hcolon : indexOf [':'] (name ++ ':' :: value ++ '|' :: rest) = some name.length := by
    rw [append_assoc]
    exact indexOf_append hn _
  have hname : slice (name ++ ':' :: value ++ '|' :: rest) 0 name.length = .ok name := by
    rw [append_assoc]
    exact slice_append [] name _ rfl (by simp)
  have hvalue : slice (name ++ ':' :: value ++ '|' :: rest) (name.length + 1) (name ++ ':' :: value).length =
      .ok value := by
    simpa using slice_append (name ++ [':']) value ('|' :: rest) (by simp) (by simp; omega)
  have hpipe := indexOf_append hp rest
  have hle : name.length ≤ (name ++ ':' :: value).length := by simp
  generalize name ++ ':' :: value = a at *
  have hlen : (a ++ '|' :: rest).length = a.length + rest.length + 1 := by simp [Nat.add_assoc]
  have := length_pos_iff.mpr hne
  rw [parseMetric, if_neg hl, hd]
  simp only [bind, Except.bind, hcolon, hpipe, position]
  rw [if_neg (by omega), hname, ht, hvalue]
  simp [parseName, hv]

end

section
variable (l : Line)

theorem Line.lastIndexOf_type : lastIndexOf ['|', '#'] (l.type ++ l.rateText) = none := by
  obtain ⟨-, -, ht, hr⟩ : _ ∧ _ ∧ _ ∧ _ := by simpa only [forall_mem_cons] using l.plain
  refine lastIndexOf_append_none ht.2.1 ?_
  unfold rateText
  cases hrate : l.rate with
  | none => rfl
  | some rate =>
    have hlast : lastIndexOf ['|', '#'] rate = none := lastIndexOf_of_notMem (hr rate (by simp [hrate])).2.1
    simp [lastIndexOf, hlast]

theorem Line.bar_notMem_front : '|' ∉ l.name ++ ':' :: l.value := by
  simp [l.plain l.name (by simp), l.plain l.value (by simp)]

theorem parseDogstatsdTags_text (ht : l.tags = [] → l.type.head? ≠ some '#') : parseDogstatsdTags l.text =
    .ok (l.name ++ ':' :: l.value ++ '|' :: (l.type ++ l.rateText), l.dimensions) := by
  unfold Line.text Line.dimensions
  split_ifs with htags
  · have hhead : ¬['|', '#'] <+: '|' :: (l.type ++ l.rateText) := by
      rintro ⟨s, hs⟩
      obtain ⟨c, type, htype⟩ := exists_cons_of_ne_nil l.nonempty.2.2.1
      rw [htype] at hs
      exact ht htags (by simp [htype, ← (cons_eq_cons.mp (cons_eq_cons.mp hs).2).1])
    have hbar : lastIndexOf ['|', '#'] ('|' :: (l.type ++ l.rateText)) = none := by
      simp only [lastIndexOf, l.lastIndexOf_type, if_neg hhead]
    rw [append_nil, parseDogstatsdTags, lastIndexOf_append_none l.bar_notMem_front hbar]
    rfl
  · exact parseDogstatsdTags_append htags l.plainTags

/-- The type is then the text of the tags, and there is no `|` in what is left. -/
theorem untagged_text (htags : l.tags = []) (ht : l.type.head? = some '#') :
    untagged l.text = l.name ++ ':' :: l.value := by
  obtain ⟨type, htype⟩ := head?_eq_some_iff.mp ht
  have hlast : lastIndexOf ['|', '#'] (type ++ l.rateText) = none := by
    have := l.lastIndexOf_type
    rw [htype, cons_append, lastIndexOf] at this
    split at this <;> trivial
  have heq : l.text = l.name ++ ':' :: l.value ++ '|' :: '#' :: (type ++ l.rateText) := by
    simp [Line.text, htags, htype]
  rw [untagged, heq, lastIndexOf_append_self hlast (by decide)]
  exact take_left

/-- A rate takes the last character of the type with it. -/
theorem parseMetrics_line {V : Type} (parseFloat : Str → Option V) {v : V} (hv : parseFloat l.value = some v) :
    parseMetrics parseFloat [] [] [l.text] = .ok [⟨l.name, l.name, l.type, v, l.dimensions⟩] ↔
      l.rate = none ∧ (l.tags = [] → l.type.head? ≠ some '#') := by
  have hl : l.text ≠ [] := by simp [Line.text]
  have hone : parseMetrics parseFloat [] [] [l.text] = (parseMetric parseFloat [] [] l.text).map Option.toList := by
    cases h : parseMetric parseFloat [] [] l.text <;>
      simp [parseMetrics, h, bind, Except.bind, pure, Except.pure, Except.map]
  rw [hone]
  by_cases ht : l.tags = [] → l.type.head? ≠ some '#'
  · have hne := l.nonempty.2.2.1
    have htype (b : Str) :=
      parseType_append (b := b) (l.name ++ ':' :: l.value) l.type hne (l.plain l.type (by simp)).2.1
    have hm (type : Str) (h : parseType _ _ = .ok type) := parseMetric_of_tags (l.plain l.name (by simp)).1
      l.bar_notMem_front (by simp [hne]) h (parseDogstatsdTags_text l ht) hl hv
    cases hrate : l.rate with
    | none =>
      rw [hm l.type (by simpa [Line.rateText, hrate] using (htype []).1)]
      simpa [Except.map] using ht
    | some rate =>
      rw [hm l.type.dropLast (by simpa [Line.rateText, hrate] using (htype ('@' :: rate)).2)]
      have hlen : l.type.dropLast ≠ l.type := fun h => by
        have := congrArg length h
        have := length_pos_iff.mpr hne
        rw [length_dropLast] at *
        omega
      simp [Except.map, hlen]
  · push Not at ht
    have hs := untagged_text l ht.1 ht.2
    rw [parseMetric_skips parseFloat [] [] hl (.inr (.inl ?_))]
    · simp [Except.map, ht]
    · rw [hs, indexOf_of_notMem l.bar_notMem_front, position]
      decide

end

/-- `a:1|c` with the tag `k:v`. -/
def taggedLine : Line :=
  ⟨['a'], ['1'], ['c'], none, [(['k'], ['v'])], by decide, by decide, by decide⟩

theorem parseMetrics_taggedLine : parseMetrics (fun s => some s) [] [] ["a:1|c|#k:v".toList] =
    .ok [⟨['a'], ['a'], ['c'], ['1'], some [(['k'], ['v'])]⟩] :=
  (parseMetrics_line taggedLine (fun s => some s) rfl).mpr ⟨rfl, by decide⟩

theorem parseMetrics_rate : parseMetrics (fun s => some s) [] [] ["a:1|ms|@5".toList] =
    .ok [⟨['a'], ['a'], ['m'], ['1'], none⟩] :=
  rfl

end Collector.StatsD
