import Collector.Filter.StringFilter

/-!
# What the filters match
-/

namespace Collector.Filter

open Lib Strings List

variable {e : Str × List Str} {ok : List Str}

namespace OverridableStringFilter

def isPattern (m : Str) : Bool := isRegex m || isGlobbed m

def test (pats : Patterns) (m : Str) : Except Str (Str → Bool) :=
  if isRegex m then pats.regexp (stripSlashes m) else if isGlobbed m then pats.glob m else .ok fun s => s = m

def Selects (pats : Patterns) (m s : Str) : Prop := ∃ t, test pats m = .ok t ∧ t s = true

def Chosen (pats : Patterns) (items : List (Str × Bool)) (s : Str) : Prop :=
  (∃ m, (m, false) ∈ items ∧ Selects pats m s) ∧ ¬∃ m, (m, true) ∈ items ∧ Selects pats m s

def Caught (pats : Patterns) (items : List (Str × Bool)) (n : Bool) (s : Str) : Prop :=
  ∃ m, (m, n) ∈ items ∧ isPattern m = true ∧ Selects pats m s

section
variable {pats : Patterns} {items : List (Str × Bool)} {f f' : BasicStringFilter} {i m s : Str} {n k : Bool}
  {t : Str → Bool}

theorem selects_literal (h : isPattern m = false) : Selects pats m s ↔ s = m := by
  simp only [isPattern, Bool.or_eq_false_iff] at h
  simp [Selects, test, h.1, h.2]

theorem exists_selects_iff : (∃ m, (m, n) ∈ items ∧ Selects pats m s) ↔
    ((s, n) ∈ items ∧ isPattern s = false) ∨ Caught pats items n s := by
  constructor
  · rintro ⟨m, hm, hs⟩
    cases hp : isPattern m with
    | true => exact .inr ⟨m, hm, hp, hs⟩
    | false =>
      obtain rfl := (selects_literal hp).mp hs
      exact .inl ⟨hm, hp⟩
  · rintro (⟨hm, hp⟩ | ⟨m, hm, -, hs⟩)
    · exact ⟨s, hm, (selects_literal hp).mpr rfl⟩
    · exact ⟨m, hm, hs⟩

theorem caught_concat (ht : test pats m = .ok t) :
    Caught pats (items ++ [(m, n)]) k s ↔ Caught pats items k s ∨ isPattern m = true ∧ n = k ∧ t s = true := by
  have hs : Selects pats m s ↔ t s = true := by simp [Selects, ht]
  simp only [Caught, mem_append, mem_singleton, Prod.mk.injEq, or_and_right, exists_or, ← hs]
  grind

theorem add_ok (hi : stripNegation i = (m, n)) (h : f.add pats i = .ok f') : ∃ t, test pats m = .ok t ∧
    (isPattern m = true ∧ f'.staticSet = f.staticSet ∧
        (∀ x, x ∈ f'.regexps ++ f'.globs ↔ x ∈ f.regexps ++ f.globs ∨ x = ⟨t, n⟩) ∨
      isPattern m = false ∧ f'.staticSet = put m n f.staticSet ∧ f'.regexps ++ f'.globs = f.regexps ++ f.globs) := by
  simp only [BasicStringFilter.add, hi] at h
  unfold isPattern test
  split_ifs at h with hr hg
  · split at h
    · cases h
    · rename_i t ht
      cases h
      exact ⟨t, by simp [hr, ht], .inl ⟨by simp [hr], rfl, by grind⟩⟩
  · split at h
    · cases h
    · rename_i t ht
      cases h
      exact ⟨t, by simp [hr, hg, ht], .inl ⟨by simp [hg], rfl, by grind⟩⟩
  · cases h
    exact ⟨fun s => s = m, by simp [hr, hg], .inr ⟨by simp [hr, hg], rfl, rfl⟩⟩

theorem exists_add_ok (ht : test pats (stripNegation i).1 = .ok t) : ∃ f', f.add pats i = .ok f' := by
  unfold test at ht
  unfold BasicStringFilter.add
  split_ifs at ht with hr hg
  · simp [hr, ht]
  · simp [hr, hg, ht]
  · simp [hr, hg]

theorem exists_new_ok {items : List Str} (h : ∀ i ∈ items, ∃ t, test pats (stripNegation i).1 = .ok t) :
    ∃ f, BasicStringFilter.new pats items = .ok f := by
  induction items using reverseRecOn with
  | nil => exact ⟨_, rfl⟩
  | append_singleton items i ih =>
    obtain ⟨g, hg⟩ := ih fun j hj => h j (mem_append_left _ hj)
    obtain ⟨t, ht⟩ := h i (by simp)
    obtain ⟨f, hf⟩ := exists_add_ok (f := g) ht
    exact ⟨f, foldlM_ok_concat.mpr ⟨g, hg, hf⟩⟩

structure Built (pats : Patterns) (items : List (Str × Bool)) (f : BasicStringFilter) : Prop where
  static : ∀ s n, find s f.staticSet = some n → (s, n) ∈ items ∧ isPattern s = false
  known : ∀ s n, (s, n) ∈ items → isPattern s = false → find s f.staticSet ≠ none
  patterns : ∀ s n, (∃ x ∈ f.regexps ++ f.globs, x.test s = true ∧ x.negated = n) ↔ Caught pats items n s

theorem Built.add (h : Built pats items f) (hi : stripNegation i = (m, n)) (ha : f.add pats i = .ok f') :
    Built pats (items ++ [(m, n)]) f' := by
  obtain ⟨t, ht, ⟨hp, hs, hx⟩ | ⟨hp, hs, hx⟩⟩ := add_ok hi ha
  all_goals refine ⟨fun s k hk => ?_, fun s k hk hl => ?_, fun s k => ?_⟩
  · grind [h.static s k]
  · grind [h.known s k]
  · rw [caught_concat ht, ← h.patterns]
    simp [hx, or_and_right, exists_or, hp, and_comm]
  · rw [hs, find_put] at hk
    grind [h.static s k]
  · rw [hs, find_put]
    grind [h.known s k]
  · rw [caught_concat ht, ← h.patterns, hx]
    simp [hp]

theorem built_new {items : List Str} (h : BasicStringFilter.new pats items = .ok f) :
    Built pats (items.map stripNegation) f := by
  induction items using reverseRecOn generalizing f with
  | nil =>
    cases h
    exact ⟨nofun, nofun, by simp [BasicStringFilter.empty, Caught]⟩
  | append_singleton items i ih =>
    obtain ⟨g, hg, ha⟩ := foldlM_ok_concat.mp h
    rw [map_append]
    exact (ih hg).add rfl ha

theorem matchAll_eq_true {ms : List Matcher} {b : Bool} : matchAll s ms b = true ↔
    (b = true ∨ ∃ x ∈ ms, x.test s = true ∧ x.negated = false) ∧ ¬∃ x ∈ ms, x.test s = true ∧ x.negated = true := by
  induction ms generalizing b with
  | nil => simp [matchAll]
  | cons x ms ih =>
    rw [matchAll]
    grind

/-- A text that is given goes by the polarity the filter keeps for it. -/
theorem Built.matchesText (h : Built pats items f) : (OverridableStringFilter.mk f).matchesText s = true ↔
    find s f.staticSet ≠ some true ∧ (find s f.staticSet = some false ∨ Caught pats items false s) ∧
      ¬Caught pats items true s := by
  simp only [← h.patterns]
  unfold OverridableStringFilter.matchesText
  rcases hs : find s f.staticSet with - | - | -
  all_goals simp [matchAll_eq_true]

theorem Built.chosen (h : Built pats items f) (hb : isPattern s = false → (s, false) ∈ items → (s, true) ∈ items →
      Caught pats items true s) :
    (OverridableStringFilter.mk f).matchesText s = true ↔ Chosen pats items s := by
  have hk := h.known s
  have hs := h.static s
  rw [h.matchesText, Chosen, exists_selects_iff, exists_selects_iff]
  generalize find s f.staticSet = kept at hk hs ⊢
  rcases kept with - | - | -
  · grind
  · grind [hs false rfl]
  · grind [hs true rfl]

end

/-- The order of the items does not matter just if a text that is given both ways is excluded by a pattern too. -/
theorem matches_perm_iff (pats : Patterns) (items : List Str)
    (h : ∀ i ∈ items, ∃ t, test pats (stripNegation i).1 = .ok t) :
    (∀ items', items'.Perm items → ∃ f, new pats items' = .ok f ∧
      ∀ s, f.matchesText s = true ↔ Chosen pats (items.map stripNegation) s) ↔
    ∀ s, isPattern s = false → (s, false) ∈ items.map stripNegation → (s, true) ∈ items.map stripNegation →
      Caught pats (items.map stripNegation) true s := by
  have hmem {items' : List Str} (hp : items'.Perm items) (e : Str × Bool) :
      e ∈ items'.map stripNegation ↔ e ∈ items.map stripNegation := (hp.map _).mem_iff
  constructor
  · intro hall s hs hf ht
    obtain ⟨i, hi, his⟩ := mem_map.mp hf
    -- with the positive item in the last place, the filter keeps its polarity
    have hp : (items.erase i ++ [i]).Perm items :=
      perm_append_comm.trans (perm_cons_erase hi).symm
    obtain ⟨b, hb⟩ := exists_new_ok fun j hj => h j (hp.mem_iff.mp hj)
    obtain ⟨f, hf, hm⟩ := hall _ hp
    obtain rfl : OverridableStringFilter.mk b = f := by simpa [new, hb, Except.map] using hf
    obtain ⟨g, -, ha⟩ := foldlM_ok_concat.mp hb
    have hkept : find s b.staticSet = some false := by
      obtain ⟨t, -, ⟨hpat, -⟩ | ⟨-, hst, -⟩⟩ := add_ok his ha
      · simp [hs] at hpat
      · simp [hst]
    have hno : ¬Chosen pats (items.map stripNegation) s :=
      fun hc => hc.2 ⟨s, ht, (selects_literal hs).mpr rfl⟩
    rw [← hm, (built_new hb).matchesText, hkept] at hno
    simpa only [Caught, hmem hp, ne_eq, Option.some.injEq, Bool.false_eq_true, not_false_eq_true, true_or, true_and,
      not_not] using hno
  · intro hb items' hp
    obtain ⟨f, hf⟩ := exists_new_ok fun i hi => h i (hp.mem_iff.mp hi)
    refine ⟨⟨f⟩, by simp [new, hf, Except.map], fun s => ?_⟩
    have hc := (built_new hf).chosen (s := s) (by simpa only [hmem hp, Caught] using hb s)
    simpa only [Chosen, hmem hp] using hc

def noPatterns : Patterns := ⟨fun _ => .error [], fun _ => .error []⟩

theorem matches_perm_ab : ∃ f, new noPatterns [['b'], ['!', 'a']] = .ok f ∧
    ∀ s, f.matchesText s = true ↔ Chosen noPatterns ([['!', 'a'], ['b']].map stripNegation) s :=
  (matches_perm_iff noPatterns [['!', 'a'], ['b']] (by simp [test, stripNegation, isRegex, isGlobbed])).mpr
    (by simp [stripNegation]; grind) _ (.swap ..)

theorem new_ne_swapped : (new noPatterns [['a'], ['!', 'a']]).toOption.map (·.matchesText ['a']) = some false ∧
    (new noPatterns [['!', 'a'], ['a']]).toOption.map (·.matchesText ['a']) = some true := by
  decide

end OverridableStringFilter

namespace StringMapFilter

def Meets (pats : Patterns) (m : List (Str × Str)) (e : Str × List Str) : Prop :=
  match find (trimQuestion e.1) m with
  | some v => ∃ filter, OverridableStringFilter.new pats e.2 = .ok filter ∧ filter.matchesText v = true
  | none => e.1.getLast? = some '?'

section
variable {pats : Patterns} {spec : List (Str × List Str)} {f f' : StringMapFilter} {m : List (Str × Str)}

structure Built (pats : Patterns) (spec : List (Str × List Str)) (f : StringMapFilter) : Prop where
  filters : ∀ k g, (k, g) ∈ f.filterMap ↔
    ∃ e ∈ spec, trimQuestion e.1 = k ∧ OverridableStringFilter.new pats e.2 = .ok g
  missing : ∀ k, k ∈ f.okMissing ↔ ∃ e ∈ spec, trimQuestion e.1 = k ∧ e.1.getLast? = some '?'
  ok : ∀ e ∈ spec, ∃ g, OverridableStringFilter.new pats e.2 = .ok g

theorem Built.add (h : Built pats spec f) (hk : trimQuestion e.1 ∉ spec.map (trimQuestion ·.1))
    (ha : f.add pats e = .ok f') : Built pats (spec ++ [e]) f' := by
  have hl := trimQuestion_length e.1
  unfold StringMapFilter.add at ha
  split_ifs at ha
  split at ha
  · cases ha
  · rename_i g hg
    cases ha
    have hnew : trimQuestion e.1 ∉ keys f.filterMap := by
      rintro hm
      obtain ⟨⟨k, g'⟩, hm, rfl⟩ := mem_map.mp hm
      obtain ⟨d, hd, hdk, -⟩ := (h.filters _ _).mp hm
      exact hk (mem_map.mpr ⟨d, hd, hdk⟩)
    refine ⟨fun k g' => ?_, fun k => ?_, fun d hd => ?_⟩
    · rw [put_of_notMem _ _ _ hnew, mem_append, h.filters]
      simp [or_and_right, exists_or, hg, eq_comm]
    · have := h.missing k
      simp only [mem_append, mem_singleton, or_and_right, exists_or, ← this, exists_eq_left, ← hl]
      split_ifs with hq
      · simp [hq, eq_comm, or_comm]
      · simp [hq]
    · rcases mem_append.mp hd with hd | hd
      · exact h.ok d hd
      · obtain rfl := mem_singleton.mp hd
        exact ⟨g, hg⟩

theorem built_new (hk : (spec.map (trimQuestion ·.1)).Nodup) (h : new pats spec = .ok f) : Built pats spec f := by
  induction spec using reverseRecOn generalizing f with
  | nil =>
    cases h
    exact ⟨by simp, by simp, by simp⟩
  | append_singleton spec e ih =>
    obtain ⟨g, hg, ha⟩ := foldlM_ok_concat.mp h
    rw [map_append, nodup_append] at hk
    exact (ih hk.1 hg).add (fun hm => hk.2.2 _ hm _ (by simp) rfl) ha

def Passes (ok : List Str) (m : List (Str × Str)) (e : Str × OverridableStringFilter) : Prop :=
  match find e.1 m with
  | some v => e.2.matchesText v = true
  | none => e.1 ∈ ok

theorem Built.optional (h : Built pats spec f) (hk : (spec.map (trimQuestion ·.1)).Nodup)
    (he : e ∈ spec) : trimQuestion e.1 ∈ f.okMissing ↔ e.1.getLast? = some '?' := by
  rw [h.missing]
  constructor
  · rintro ⟨d, hd, hde, hq⟩
    rwa [← inj_on_of_nodup_map hk hd he hde]
  · exact fun hq => ⟨e, he, rfl, hq⟩

theorem Built.meets_iff (h : Built pats spec f) (hk : (spec.map (trimQuestion ·.1)).Nodup) :
    (∀ e ∈ spec, Meets pats m e) ↔ ∀ e ∈ f.filterMap, Passes f.okMissing m e := by
  constructor
  · rintro hs ⟨k, g⟩ hm
    obtain ⟨e, he, rfl, hg⟩ := (h.filters k g).mp hm
    have := hs e he
    unfold Meets at this
    unfold Passes
    cases hv : find (trimQuestion e.1) m with
    | none => simpa [hv, h.optional hk he] using this
    | some v => simpa [hv, hg] using this
  · intro hf e he
    obtain ⟨g, hg⟩ := h.ok e he
    have := hf _ ((h.filters _ g).mpr ⟨e, he, rfl, hg⟩)
    unfold Passes at this
    unfold Meets
    cases hv : find (trimQuestion e.1) m with
    | none => simpa [hv, h.optional hk he] using this
    | some v => simpa [hv, hg] using this

variable {order : List (Str × OverridableStringFilter)}

theorem matchesFrom_of_passes (h : ∀ e ∈ order, Passes ok m e) : matchesFrom ok m order = true := by
  induction order with
  | nil => rfl
  | cons e order ih =>
    have he := h e mem_cons_self
    have hr := ih fun e he => h e (.tail _ he)
    unfold Passes at he
    unfold matchesFrom
    grind

theorem passes_of_matchesFrom (hn : ∀ e ∈ order, find e.1 m = none → e.1 ∉ ok) (h : matchesFrom ok m order = true) :
    ∀ e ∈ order, Passes ok m e := by
  induction order with
  | nil => nofun
  | cons e order ih =>
    have hr := ih fun e he => hn e (.tail _ he)
    unfold matchesFrom at h
    unfold Passes at hr ⊢
    grind

end

/-- Every key is checked just if no optional key is missing where another key is not met. -/
theorem matches_iff_meets_iff (pats : Patterns) (spec : List (Str × List Str)) (f : StringMapFilter)
    (m : List (Str × Str)) (hk : (spec.map (trimQuestion ·.1)).Nodup) (h : new pats spec = .ok f) (hm : m ≠ []) :
    (∀ b, f.Matches m b ↔ (b = true ↔ ∀ e ∈ spec, Meets pats m e)) ↔
      ((∃ e ∈ spec, find (trimQuestion e.1) m = none ∧ e.1.getLast? = some '?') → ∀ e ∈ spec, Meets pats m e) := by
  have hb := built_new hk h
  have hin (order : List (Str × OverridableStringFilter)) : f.matchesIn order m = matchesFrom f.okMissing m order :=
    if_neg fun h => hm h.1
  constructor
  · rintro hall ⟨e, he, hv, hq⟩
    obtain ⟨g, hg⟩ := hb.ok e he
    obtain ⟨front, rest, hs⟩ := append_of_mem ((hb.filters _ g).mpr ⟨e, he, rfl, hg⟩)
    -- the missing key is visited first
    have hp : ((trimQuestion e.1, g) :: (front ++ rest)).Perm f.filterMap := by
      rw [hs]
      exact perm_middle.symm
    refine ((hall true).mp ⟨_, hp, ?_⟩).mp rfl
    rw [hin, matchesFrom, hv]
    exact decide_eq_true ((hb.optional hk he).mpr hq)
  · intro hs
    have hd (order : List (Str × OverridableStringFilter)) (hp : order.Perm f.filterMap) :
        f.matchesIn order m = true ↔ ∀ e ∈ spec, Meets pats m e := by
      rw [hin]
      constructor
      · intro ht
        by_contra hno
        refine hno ((hb.meets_iff hk).mpr fun e he => ?_)
        refine passes_of_matchesFrom (fun d hd hv hq => hno (hs ?_)) ht e (hp.mem_iff.mpr he)
        obtain ⟨c, hc, hcd, hq⟩ := (hb.missing _).mp hq
        exact ⟨c, hc, hcd ▸ hv, hq⟩
      · intro hmeets
        exact matchesFrom_of_passes fun e he => (hb.meets_iff hk).mp hmeets e (hp.mem_iff.mp he)
    intro b
    constructor
    · rintro ⟨order, hp, rfl⟩
      exact hd order hp
    · intro hbm
      refine ⟨f.filterMap, .refl _, ?_⟩
      rw [Bool.eq_iff_iff, hd _ (.refl _), hbm]

def optionalAndNot : List (Str × List Str) := [(['a', '?'], [['x']]), (['b'], [['y']])]

theorem matches_optionalAndNot : ∃ f, new OverridableStringFilter.noPatterns optionalAndNot = .ok f ∧
    ∀ b, f.Matches [(['b'], ['y'])] b ↔
      (b = true ↔ ∀ e ∈ optionalAndNot, Meets OverridableStringFilter.noPatterns [(['b'], ['y'])] e) := by
  refine ⟨_, rfl, (matches_iff_meets_iff _ optionalAndNot _ _ (by decide) rfl (by decide)).mpr fun _ => ?_⟩
  rintro e he
  simp only [optionalAndNot, mem_cons, not_mem_nil, or_false] at he
  rcases he with rfl | rfl
  · rfl
  · exact ⟨_, rfl, by decide⟩

theorem matches_hidden : ∃ f, new OverridableStringFilter.noPatterns optionalAndNot = .ok f ∧
    f.Matches [(['b'], ['z'])] true ∧ f.Matches [(['b'], ['z'])] false ∧
      ¬Meets OverridableStringFilter.noPatterns [(['b'], ['z'])] (['b'], [['y']]) := by
  refine ⟨_, rfl, ⟨_, .refl _, by decide⟩, ⟨_, .swap .., by decide⟩, ?_⟩
  rintro ⟨g, hg, hz⟩
  cases hg
  exact absurd hz (by decide)

end StringMapFilter

end Collector.Filter
