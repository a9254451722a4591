import Collector.StatsD.Patterns

/-!
# The names that converters make

A field of a pattern stands for the text up to the next literal, and a field at the end for the rest of the name.
-/

namespace Collector.StatsD

open Lib Strings List

variable {pattern : FieldPattern} {inputs : List ConverterInput} {s : Str} (name : Str)

def FieldPattern.Started (pattern : FieldPattern) : Prop :=
  pattern.startWithField = true ∨ pattern.substrs ≠ []

theorem started_of_parseFields {p : Str} (hp : p ≠ []) (h : parseFields p = some pattern) : pattern.Started := by
  refine .inr fun hs => hp ?_
  rw [← print_of_parseFields h, hs, print]

theorem pattern_ne_of_validate (h : validate inputs = .ok ()) : ∀ ci ∈ inputs, ci.pattern ≠ [] := by
  induction inputs with
  | nil => simp
  | cons ci inputs ih =>
    unfold validate at h
    rw [forM_eq_forM, forM_cons] at h
    by_cases hci : ci.pattern = []
    · rw [if_pos hci] at h
      cases h
    · rw [if_neg hci] at h
      split at h
      · cases h
      · exact forall_mem_cons.mpr ⟨hci, ih h⟩

theorem started_of_validate (h : validate inputs = .ok ()) : ∀ c ∈ converters inputs, c.pattern.Started := by
  intro c hc
  obtain ⟨ci, hci, hnew⟩ := mem_filterMap.mp hc
  unfold newConverter at hnew
  split at hnew
  · rename_i pattern metric hp _
    cases hnew
    exact started_of_parseFields (pattern_ne_of_validate h ci hci) hp
  · cases hnew

/-! ## Matching -/

/-- The fields, and what is left if all literals were found. -/
def captures : List Str → Str → Dims × Option Str
  | [], s => ([], some s)
  | [field], s => ([(field, s)], some [])
  | field :: literal :: parts, s =>
    match indexOf literal s with
    | none => ([], none)
    | some next =>
      let (fields, rest) := captures parts (s.drop (next + literal.length))
      ((field, s.take next) :: fields, rest)

def FieldPattern.captures (pattern : FieldPattern) (name : Str) : Dims × Option Str :=
  if pattern.startWithField then StatsD.captures pattern.substrs name
  else match pattern.substrs with
    | [] => ([], none)
    | first :: parts => if first <+: name then StatsD.captures parts (name.drop first.length) else ([], none)

def nonEmpty (fields : Dims) : Dims := fields.filter fun field => field.1 ≠ []

def converted (name : Str) (tags : Option Dims) : List Converter → Str × Option Dims
  | [] => (name, tags)
  | c :: converters =>
    let (fields, rest) := c.pattern.captures name
    if rest = some [] then
      let dims := some (putAll (nonEmpty fields) (tags.getD []))
      (composeName dims c.metric.startWithField c.metric.substrs, dims)
    else converted name tags converters

/-- The name and the dimensions are the same. -/
def Same (r r' : Str × Option Dims) : Prop := r.1 = r'.1 ∧ ∀ k, find k (r.2.getD []) = find k (r'.2.getD [])

/-- `left` has the tags and the fields that converters have left. At the first converter that matches the whole name,
such a field is one of its own or has the value of a tag. Where a part of the name matches before, the converter happens
to give what is expected of the later ones. If nothing matches, there are no tags to lose. -/
def Unspoilt (name : Str) (tags : Option Dims) : Dims → List Converter → Prop
  | _, [] => ∀ k, find k (tags.getD []) = none
  | left, c :: converters =>
    let fields := nonEmpty (c.pattern.captures name).1
    let dims := some (putAll fields left)
    match (c.pattern.captures name).2 with
    | none => Unspoilt name tags (putAll fields left) converters
    | some [] => ∀ k, k ∉ keys fields → find k left = find k (tags.getD [])
    | some (_ :: _) =>
      Same (composeName dims c.metric.startWithField c.metric.substrs, dims) (converted name tags converters)

theorem setField_eq (dims : Dims) (field v : Str) :
    setField (some dims) field (.ok v) = .ok (some (putAll (nonEmpty [(field, v)]) dims)) := by
  cases field with
  | nil => rfl
  | cons => rfl

theorem putAll_nonEmpty_cons (e : Str × Str) (fields dims : Dims) :
    putAll (nonEmpty (e :: fields)) dims = putAll (nonEmpty fields) (putAll (nonEmpty [e]) dims) := by
  obtain ⟨field, v⟩ := e
  cases field <;> rfl

theorem slice_eq {lo hi : Nat} (hlo : lo ≤ hi) (hhi : hi ≤ s.length) : slice s lo hi = .ok ((s.take hi).drop lo) :=
  if_pos (by omega)

theorem slice_drop {lo : Nat} (h : lo ≤ s.length) : slice s lo s.length = .ok (s.drop lo) := by
  rw [slice_eq h (Nat.le_refl _), take_length]

section
variable {substrs parts : List Str} {i : Nat} {part : Str} (h : substrs.drop i = part :: parts)
include h

theorem index_drop : index substrs i = .ok part := by
  have hget := congrArg head? h
  rw [head?_drop] at hget
  simp [index, hget]

theorem length_drop_cons : substrs.length = i + (parts.length + 1) := by
  have hlen := congrArg length h
  rw [length_drop, length_cons] at hlen
  omega

theorem drop_succ_of_drop : substrs.drop (i + 1) = parts := by
  rw [← tail_drop, h, tail_cons]

end

/-- The loop comes to the end of the pattern just if all literals are found. -/
theorem matchFields_eq (substrs : List Str) (w i : Nat) (dims : Dims) (hw : w ≤ name.length) :
    ∃ j, matchFields name substrs w i (some dims) =
        .ok (j, some (putAll (nonEmpty (captures (substrs.drop i) (name.drop w)).1) dims)) ∧
      (j < substrs.length ↔ (captures (substrs.drop i) (name.drop w)).2 = none) := by
  generalize hl : substrs.drop i = l
  generalize hs : name.drop w = s
  fun_induction captures l s generalizing w i dims with
  | case1 s =>
    have hi : substrs.length ≤ i := drop_eq_nil_iff.mp hl
    rw [matchFields, if_neg (by omega)]
    exact ⟨i, rfl, by simpa using hi⟩
  | case2 field s =>
    have hlen : substrs.length = i + (0 + 1) := length_drop_cons hl
    rw [matchFields, if_pos (by omega), if_pos (by omega), index_drop hl, slice_drop hw, hs]
    refine ⟨i + 1, ?_, ?_⟩
    · simp only [bind, Except.bind, setField_eq]
    · simp only [reduceCtorEq, iff_false]
      omega
  | case3 field literal parts s hn =>
    have hlen := length_drop_cons hl
    rw [length_cons] at hlen
    rw [matchFields, if_pos (by omega), if_neg (by omega), slice_drop hw, index_drop (drop_succ_of_drop hl), hs]
    refine ⟨i, ?_, by simp only [iff_true]; omega⟩
    simp only [bind, Except.bind, hn]
    rfl
  | case4 field literal parts s next hn fields rest hr ih =>
    have hlen := length_drop_cons hl
    rw [length_cons] at hlen
    have hle := indexOf_le hn
    rw [← hs, length_drop] at hle
    have hslice : slice name w (w + next : Nat) = .ok (s.take next) := by
      rw [slice_eq (by omega) (by omega), ← hs, take_drop]
    obtain ⟨j, hj, hlt⟩ := ih (w + next + literal.length) (i + 2) (putAll (nonEmpty [(field, s.take next)]) dims)
      (by omega) (drop_succ_of_drop (drop_succ_of_drop hl)) (by rw [← hs, drop_drop, Nat.add_assoc])
    rw [hr] at hj hlt
    rw [matchFields, if_pos (by omega), if_neg (by omega), slice_drop hw, index_drop (drop_succ_of_drop hl), hs]
    refine ⟨j, ?_, hlt⟩
    simp only [bind, Except.bind, hn, index_drop hl, hslice, setField_eq, hj]
    rw [putAll_nonEmpty_cons _ fields]

theorem matchStart_eq (h : pattern.Started) :
    (matchStart name pattern = .ok none ∧ pattern.captures name = ([], none)) ∨
      ∃ w i, matchStart name pattern = .ok (some (w, i)) ∧ w ≤ name.length ∧
        pattern.captures name = captures (pattern.substrs.drop i) (name.drop w) := by
  unfold matchStart FieldPattern.captures
  split_ifs with hs
  · exact .inr ⟨0, 0, rfl, Nat.zero_le _, rfl⟩
  · obtain ⟨first, parts, hp⟩ := exists_cons_of_ne_nil (h.resolve_left hs)
    simp only [hp, index_drop (i := 0) rfl, bind, Except.bind]
    by_cases hlen : name.length < first.length
    · exact .inl ⟨if_pos hlen, if_neg fun hf => absurd hf.length_le (by omega)⟩
    · have hslice : slice name 0 first.length = .ok (name.take first.length) :=
        slice_eq (Nat.zero_le _) (by omega)
      rw [if_neg hlen, hslice]
      by_cases hf : name.take first.length = first
      · have hpre : first <+: name := prefix_iff_eq_take.mpr hf.symm
        exact .inr ⟨first.length, 1, if_neg (not_not.mpr hf), by omega, if_pos hpre⟩
      · exact .inl ⟨if_pos hf, if_neg fun hpre => hf (prefix_iff_eq_take.mp hpre).symm⟩

/-- The fields of a converter that does not match are kept for the next one. -/
theorem convertMetric_cons {c : Converter} (hc : c.pattern.Started) (converters : List Converter)
    (tags : Option Dims) : convertMetric name (c :: converters) tags =
      let dims := some (putAll (nonEmpty (c.pattern.captures name).1) (tags.getD []))
      if (c.pattern.captures name).2 = none then convertMetric name converters dims
      else .ok (composeName dims c.metric.startWithField c.metric.substrs, dims) := by
  rw [convertMetric]
  obtain ⟨hn, hcap⟩ | ⟨w, i, hs, hw, hcap⟩ := matchStart_eq name hc
  · rw [hn, hcap]
    rfl
  · obtain ⟨j, hj, hlt⟩ := matchFields_eq name c.pattern.substrs w i (tags.getD []) hw
    simp only [hs, hj, bind, Except.bind, hlt, hcap]

theorem convertMetric_ok {converters : List Converter} (h : ∀ c ∈ converters, c.pattern.Started)
    (fields : Option Dims) : ∃ r, convertMetric name converters fields = .ok r := by
  induction converters generalizing fields with
  | nil => exact ⟨_, rfl⟩
  | cons c converters ih =>
    rw [forall_mem_cons] at h
    rw [convertMetric_cons name h.1]
    dsimp only
    split
    · exact ih h.2 _
    · exact ⟨_, rfl⟩

end Collector.StatsD
