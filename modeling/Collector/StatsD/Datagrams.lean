import Collector.StatsD.Converters

/-!
# Datagrams that stop the listener

The value of a metric stands between its first `:` and its first `|`, whatever their order is.
-/

namespace Collector.StatsD

open Lib Strings List

variable {V : Type}

theorem slice_ok (s : Str) (lo hi : Int) (h : 0 ≤ lo ∧ lo ≤ hi ∧ hi ≤ s.length) : ∃ t, slice s lo hi = .ok t :=
  ⟨_, if_pos h⟩

/-! ## Tags -/

def untagged (line : Str) : Str :=
  match lastIndexOf ['|', '#'] line with
  | some i => line.take i
  | none => line

theorem parseTags_ok (tags : List Str) (dims : Dims) :
    ∃ dims', tags.foldlM parseTag (some dims) = .ok (some dims') := by
  induction tags generalizing dims with
  | nil => exact ⟨dims, rfl⟩
  | cons t tags ih =>
    rw [foldlM_cons, parseTag]
    cases cut ':' t with
    | none => exact ih dims
    | some assigned => exact ih (put assigned.1 assigned.2 dims)

theorem parseDogstatsdTags_ok (line : Str) : ∃ dims, parseDogstatsdTags line = .ok (untagged line, dims) := by
  unfold parseDogstatsdTags untagged
  cases h : lastIndexOf ['|', '#'] line with
  | none => exact ⟨none, rfl⟩
  | some i =>
    have hle : i + 2 ≤ line.length := lastIndexOf_le h
    have hidx : position (some i) = (i : Int) := rfl
    simp only [hidx, Int.natCast_nonneg, if_true]
    obtain ⟨tagsRaw, ht⟩ := slice_ok line (i + 2) line.length (by omega)
    have hte : slice line 0 i = .ok (line.take i) := slice_eq (Nat.zero_le i) (by omega)
    obtain ⟨dims, hd⟩ := parseTags_ok (tagsRaw.splitOn ',') []
    exact ⟨some dims, by rw [ht, hte]; simp only [bind, Except.bind, hd]⟩

/-! ## Lines -/

def Ordered (text : Str) : Prop :=
  ∀ a b, text = a ++ '|' :: b → '|' ∉ a → ':' ∉ a → ':' ∉ b

section
variable (parseFloat : Str → Option V) (metricPrefix : Str) {converters : List Converter} {line : Str}

theorem position_indexOf_lt {c : Char} {s : Str} : position (indexOf [c] s) < s.length := by
  cases h : indexOf [c] s with
  | none => simp only [position]; omega
  | some i =>
    have := indexOf_le h
    simp only [position, length_singleton] at this ⊢
    omega

theorem parseMetric_skips (converters : List Converter) (hl : line ≠ [])
    (h : position (indexOf ['|'] (untagged line)) ≥ (untagged line).length - 1 ∨
      position (indexOf ['|'] (untagged line)) < 0 ∨ position (indexOf [':'] (untagged line)) < 0) :
    parseMetric parseFloat metricPrefix converters line = .ok none := by
  obtain ⟨dims, ht⟩ := parseDogstatsdTags_ok line
  rw [parseMetric, if_neg hl, ht]
  simp only [bind, Except.bind]
  rw [if_pos]
  rcases h with h | h | h
  · exact .inl h
  · exact .inr (.inl h)
  · exact .inr (.inr (.inr h))

theorem parseType_ok {m : Str} {j : Nat} (hj : j < m.length) : ∃ t, parseType m j = .ok t := by
  have hr : slice m (j + 1) m.length = .ok (m.drop (j + 1)) := slice_drop hj
  have hs := position_indexOf_lt (c := '|') (s := m.drop (j + 1))
  rw [length_drop] at hs
  simp only [parseType, hr, bind, Except.bind]
  split
  · exact slice_ok _ _ _ (by omega)
  · exact ⟨_, rfl⟩

theorem parseName_ok (hc : ∀ c ∈ converters, c.pattern.Started) (rawMetricName : Str) (dims : Option Dims) :
    ∃ r, parseName metricPrefix converters rawMetricName dims = .ok r := by
  unfold parseName
  dsimp only
  split
  · exact convertMetric_ok _ hc dims
  · exact ⟨_, rfl⟩

theorem parseMetric_value (hl : line ≠ []) (hco : ∀ c ∈ converters, c.pattern.Started) {i j : Nat}
    (hc : indexOf [':'] (untagged line) = some i) (hp : indexOf ['|'] (untagged line) = some j)
    (hj : j + 1 < (untagged line).length) :
    ∃ f : Str → Option (StatsDMetric V), parseMetric parseFloat metricPrefix converters line =
      slice (untagged line) (i + 1) j >>= fun strValue => .ok (f strValue) := by
  obtain ⟨dims, ht⟩ := parseDogstatsdTags_ok line
  have hi := indexOf_le hc
  rw [length_singleton] at hi
  obtain ⟨rawMetricName, hraw⟩ := slice_ok (untagged line) 0 i (by omega)
  obtain ⟨metricType, hty⟩ := parseType_ok (m := untagged line) (j := j) (by omega)
  obtain ⟨r, hn⟩ := parseName_ok metricPrefix hco rawMetricName dims
  rw [parseMetric, if_neg hl, ht]
  simp only [bind, Except.bind, hc, hp, position]
  rw [if_neg (by omega)]
  simp only [hraw, hty, hn]
  exact ⟨_, rfl⟩

theorem ordered_iff {a b : Str} (ha : '|' ∉ a) : Ordered (a ++ '|' :: b) ↔ (':' ∉ a → ':' ∉ b) := by
  constructor
  · exact fun h => h a b rfl ha
  · intro h a' b' heq ha'
    have hcut := cut_append ha b
    rw [heq, cut_append ha'] at hcut
    cases hcut
    exact h

theorem parseMetric_cases (hcon : ∀ c ∈ converters, c.pattern.Started) (hl : line ≠ []) :
    (Ordered (untagged line) ∧ ∃ r, parseMetric parseFloat metricPrefix converters line = .ok r) ∨
      (¬ Ordered (untagged line) ∧ ∃ p, parseMetric parseFloat metricPrefix converters line = .error (.panic p)) := by
  have hs := parseMetric_skips parseFloat metricPrefix converters hl
  have hv := fun {i j} => parseMetric_value (i := i) (j := j) parseFloat metricPrefix hl hcon
  generalize hm : untagged line = m at hs hv ⊢
  cases hp : cut '|' m with
  | none =>
    have hnot := (cut_none _ _).mp hp
    refine .inl ⟨?_, none, hs (by simp [indexOf_of_notMem hnot, position])⟩
    rintro a b rfl
    simp at hnot
  | some part =>
    obtain ⟨a, b⟩ := part
    obtain ⟨rfl, ha⟩ := cut_eq _ _ _ _ hp
    have hj := indexOf_append ha b
    rw [ordered_iff ha]
    by_cases hco : ':' ∈ a
    · -- the value ends before the `|`, or the line ends with it
      refine .inl ⟨fun hnot => absurd hco hnot, ?_⟩
      cases b with
      | nil => exact ⟨none, hs (by simp [hj, position])⟩
      | cons e b =>
        cases hcut : cut ':' a with
        | none => exact absurd hco ((cut_none _ _).mp hcut)
        | some part =>
          obtain ⟨c, d⟩ := part
          obtain ⟨rfl, hc⟩ := cut_eq _ _ _ _ hcut
          have hi : indexOf [':'] (c ++ ':' :: d ++ '|' :: e :: b) = some c.length := by
            rw [append_assoc, cons_append]
            exact indexOf_append hc _
          obtain ⟨f, hf⟩ := hv hi hj (by simp; omega)
          obtain ⟨t, ht⟩ := slice_ok (c ++ ':' :: d ++ '|' :: e :: b) (c.length + 1) ((c ++ ':' :: d).length : Nat)
            (by simp; omega)
          rw [hf, ht]
          exact ⟨f t, rfl⟩
    · cases hcut : cut ':' b with
      | none =>
        have hb := (cut_none _ _).mp hcut
        have hi : indexOf [':'] (a ++ '|' :: b) = none := indexOf_of_notMem (by simp [hco, hb])
        exact .inl ⟨fun _ => hb, none, hs (by simp [hi, position])⟩
      | some part =>
        obtain ⟨c, d⟩ := part
        obtain ⟨rfl, hc⟩ := cut_eq _ _ _ _ hcut
        have hi : indexOf [':'] (a ++ '|' :: (c ++ ':' :: d)) = some (a ++ '|' :: c).length := by
          rw [← indexOf_append (c := ':') (a := a ++ '|' :: c) (by simp [hco, hc]) d]
          simp
        obtain ⟨f, hf⟩ := hv hi hj (by simp only [length_append, length_cons]; omega)
        refine .inr ⟨fun h => h hco (by simp), ?_⟩
        rw [hf, slice, if_neg (by simp only [length_append, length_cons]; omega)]
        exact ⟨_, rfl⟩

end

theorem returns_iff_safe {α : Type} (x : Result α) : (∃ a, x = .ok a) ↔ x.Safe := by
  match x with
  | .ok a => exact iff_of_true ⟨a, rfl⟩ (Outcome.safe_ok a)
  | .error (.panic p) => exact iff_of_false nofun (Outcome.not_safe_panic p)

/-- The listener goes on just if no line has its first `:` after its first `|`. -/
theorem parseMetrics_returns_iff (parseFloat : Str → Option V) (metricPrefix : Str) (inputs : List ConverterInput)
    (hvalid : validate inputs = .ok ()) (raw : List Str) :
    (∃ metrics, parseMetrics parseFloat metricPrefix (converters inputs) raw = .ok metrics) ↔
      ∀ line ∈ raw, line ≠ [] → Ordered (untagged line) := by
  have hc := started_of_validate hvalid
  rw [returns_iff_safe]
  refine Outcome.safe_foldlM (fun _ _ => True) ?_ ?_ trivial
  · intro line _ metrics _ ho
    by_cases hl : line = []
    · exact ⟨metrics, by simp [parseMetric, hl, bind, Except.bind], trivial⟩
    · obtain ⟨-, r, hr⟩ | ⟨hnot, -⟩ := parseMetric_cases parseFloat metricPrefix hc hl
      · exact ⟨metrics ++ r.toList, by rw [hr]; rfl, trivial⟩
      · exact absurd (ho hl) hnot
  · intro line _ metrics _ hs hl
    obtain ⟨ho, -⟩ | ⟨-, p, hp⟩ := parseMetric_cases parseFloat metricPrefix hc hl
    · exact ho
    · rw [hp] at hs
      exact absurd hs (Outcome.not_safe_panic p)

def hostConverter : ConverterInput :=
  ⟨"\x7bhost\x7d.requests", "requests"⟩

theorem parseMetrics_hostConverter : ∃ metrics,
    parseMetrics (fun _ => some ()) [] (converters [hostConverter]) ["web1.requests:1|c|#env:prod"] =
      .ok metrics := by
  refine (parseMetrics_returns_iff _ [] [hostConverter] rfl _).mpr ?_
  intro line hl _
  rw [mem_singleton] at hl
  subst hl
  have hs : untagged "web1.requests:1|c|#env:prod" = "web1.requests:1" ++ '|' :: "c" := by
    decide +kernel
  rw [hs, ordered_iff (by decide +kernel)]
  exact fun _ => by decide

theorem parseMetrics_pipeFirst : parseMetrics (fun _ => some ()) [] (converters []) ["a|b:1"] =
    .error (.panic (.slice "a|b:1" 4 1)) := by
  rfl

end Collector.StatsD
