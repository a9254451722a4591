import Collector.Lib.Runs
import Collector.Strings

/-!
# Filters of strings and of maps

`pkg/utils/filter` of the agent. Each item of a filter may be negated.
-/

namespace Collector.Filter

open Lib Strings List

variable {m : List (Str × List Str)}

/-- `regexp.Compile` and `glob.Compile`, with `MatchString` and `Match` of what they give. -/
structure Patterns where
  regexp : Str → Except Str (Str → Bool)
  glob : Str → Except Str (Str → Bool)

inductive Err where
  | regexp (text : Str)
  | glob (text : Str)
  | emptyValue
  | noMetricOrDimension
  | negatedFilter
  | notStringOrList (v : Value)
  | emptyMetricName
  | emptyGroup
  | filterItems (items : List Str) (e : Err)
  | extraMetrics (e : Err)

structure Matcher where
  test : Str → Bool
  negated : Bool

def isGlobbed (s : Str) : Bool := s.any fun c => c ∈ ['*', '?', '[', ']', '{', '}', '!']

def isRegex (s : Str) : Bool := 2 < s.length && s.head? = some '/' && s.getLast? = some '/'

def stripSlashes (s : Str) : Str := if s.length < 2 then s else s.tail.dropLast

def stripNegation : Str → Str × Bool
  | '!' :: value => (value, true)
  | value => (value, false)

/-! ## `BasicStringFilter` -/

structure BasicStringFilter where
  staticSet : List (Str × Bool)
  regexps : List Matcher
  globs : List Matcher
  anyStaticNegated : Bool

namespace BasicStringFilter

def empty : BasicStringFilter := ⟨[], [], [], false⟩

def add (pats : Patterns) (f : BasicStringFilter) (item : Str) : Except Err BasicStringFilter :=
  match stripNegation item with
  | (m, negated) =>
    if isRegex m then
      match pats.regexp (stripSlashes m) with
      | .error e => .error (.regexp e)
      | .ok re => .ok { f with regexps := f.regexps ++ [⟨re, negated⟩] }
    else if isGlobbed m then
      match pats.glob m with
      | .error e => .error (.glob e)
      | .ok g => .ok { f with globs := f.globs ++ [⟨g, negated⟩] }
    else .ok { f with staticSet := put m negated f.staticSet, anyStaticNegated := f.anyStaticNegated || negated }

def new (pats : Patterns) (items : List Str) : Except Err BasicStringFilter := items.foldlM (add pats) empty

def matchesText (f : BasicStringFilter) (s : Str) : Bool :=
  match find s f.staticSet with
  | some negated => !negated
  | none =>
    f.anyStaticNegated || f.regexps.any (fun m => m.test s != m.negated) || f.globs.any fun m => m.test s != m.negated

end BasicStringFilter

/-! ## `OverridableStringFilter` -/

structure OverridableStringFilter extends BasicStringFilter

namespace OverridableStringFilter

def new (pats : Patterns) (items : List Str) : Except Err OverridableStringFilter :=
  (BasicStringFilter.new pats items).map OverridableStringFilter.mk

def matchAll (s : Str) : List Matcher → Bool → Bool
  | [], matched => matched
  | m :: ms, matched => if m.test s && m.negated then false else matchAll s ms (matched || m.test s)

def matchesText (f : OverridableStringFilter) (s : Str) : Bool :=
  match find s f.staticSet with
  | some true => false
  | static => matchAll s (f.regexps ++ f.globs) static.isSome

end OverridableStringFilter

/-! ## `fullStringMapFilter` -/

structure StringMapFilter where
  filterMap : List (Str × OverridableStringFilter)
  okMissing : List Str

variable {f : StringMapFilter}

namespace StringMapFilter

def trimQuestion (k : Str) : Str := if k.getLast? = some '?' then k.dropLast else k

def add (pats : Patterns) (f : StringMapFilter) (e : Str × List Str) : Except Err StringMapFilter :=
  if e.2 = [] then .error .emptyValue
  else
    match OverridableStringFilter.new pats e.2 with
    | .error err => .error err
    | .ok filter =>
      let realKey := trimQuestion e.1
      .ok ⟨put realKey filter f.filterMap, if realKey.length ≠ e.1.length then realKey :: f.okMissing else f.okMissing⟩

def new (pats : Patterns) (m : List (Str × List Str)) : Except Err StringMapFilter := m.foldlM (add pats) ⟨[], []⟩

/-- A key that is missing decides, before the keys that are not visited yet. -/
def matchesFrom (okMissing : List Str) (m : List (Str × Str)) : List (Str × OverridableStringFilter) → Bool
  | [] => true
  | (k, filter) :: rest =>
    match find k m with
    | some v => if filter.matchesText v then matchesFrom okMissing m rest else false
    | none => k ∈ okMissing

def matchesIn (f : StringMapFilter) (order : List (Str × OverridableStringFilter)) (m : List (Str × Str)) : Bool :=
  if m = [] ∧ f.okMissing = [] then false else matchesFrom f.okMissing m order

/-- What `Matches` may return. The filters are visited in any order. -/
def Matches (f : StringMapFilter) (m : List (Str × Str)) (b : Bool) : Prop :=
  ∃ order, order.Perm f.filterMap ∧ f.matchesIn order m = b

theorem exists_matches (f : StringMapFilter) (m : List (Str × Str)) : ∃ b, f.Matches m b :=
  ⟨_, f.filterMap, .refl _, rfl⟩

/-! ## Without dimensions -/

theorem trimQuestion_length (k : Str) : (trimQuestion k).length ≠ k.length ↔ k.getLast? = some '?' := by
  unfold trimQuestion
  split_ifs with h
  · have hne : k ≠ [] := by
      rintro rfl
      cases h
    have hpos := length_pos_iff.mpr hne
    rw [length_dropLast]
    exact ⟨fun _ => h, fun _ => by omega⟩
  · simp [h]

structure Added (ks : List Str) (f : StringMapFilter) : Prop where
  known : ∀ k ∈ f.okMissing, k ∈ keys f.filterMap
  optional : f.okMissing ≠ [] ↔ ∃ k ∈ ks, k.getLast? = some '?'

variable {pats : Patterns}

theorem Added.add {ks : List Str} {f' : StringMapFilter} (h : Added ks f) {e : Str × List Str}
    (hadd : f.add pats e = .ok f') : Added (e.1 :: ks) f' := by
  unfold StringMapFilter.add at hadd
  split at hadd
  · cases hadd
  · split at hadd
    · cases hadd
    · rename_i filter _
      cases hadd
      have hlen := trimQuestion_length e.1
      refine ⟨fun k hk => ?_, ?_⟩
      · dsimp only at hk ⊢
        rw [mem_keys_put]
        split at hk
        · rcases mem_cons.mp hk with rfl | hk
          · exact .inl rfl
          · exact .inr (h.known k hk)
        · exact .inr (h.known k hk)
      · dsimp only
        rw [exists_mem_cons_iff, ← h.optional, ← hlen]
        split_ifs with hopt
        · exact ⟨fun _ => .inl hopt, fun _ => cons_ne_nil _ _⟩
        · exact ⟨.inr, fun hor => hor.resolve_left hopt⟩

theorem added_new (h : new pats m = .ok f) : Added (keys m).reverse f := by
  induction m using List.reverseRecOn generalizing f with
  | nil =>
    cases h
    exact ⟨by simp, by simp [Lib.keys]⟩
  | append_singleton m e ih =>
    obtain ⟨g, hg, ha⟩ := foldlM_ok_concat.mp h
    rw [Lib.keys_append, reverse_append]
    exact (ih hg).add ha

theorem matches_nil_iff (h : new pats m = .ok f) : f.Matches [] true ↔ ∃ k ∈ keys m, k.getLast? = some '?' := by
  have ha := added_new h
  have hke : (∃ k ∈ keys m, k.getLast? = some '?') ↔ f.okMissing ≠ [] := by
    rw [ha.optional]
    simp
  rw [hke]
  constructor
  · rintro ⟨order, -, hm⟩ hnil
    unfold matchesIn at hm
    rw [if_pos ⟨rfl, hnil⟩] at hm
    cases hm
  · intro hne
    obtain ⟨k, hk⟩ := exists_mem_of_ne_nil _ hne
    obtain ⟨e, he, rfl⟩ := mem_map.mp (ha.known k hk)
    obtain ⟨front, rest, hs⟩ := append_of_mem he
    refine ⟨e :: (front ++ rest), ?_, ?_⟩
    · rw [hs]
      exact perm_middle.symm
    · unfold matchesIn
      rw [if_neg fun h => hne h.2]
      exact decide_eq_true hk

end StringMapFilter

end Collector.Filter
