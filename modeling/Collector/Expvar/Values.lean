import Collector.Lib.Json
import Collector.Value

/-!
# The values at a path of the expvar monitor

`getValuesInPath` of `expvar.go` with `joinWords` of `common.go` and `utils.SplitString`. The members of an object stand
in the order of the loop over them.
-/

namespace Collector.Expvar

open Lib List
open Relation (ReflTransGen)

/-- The characters with a meaning of their own in a regular expression. -/
def metacharacters : Str := "\\.+*?()|[]\x7b\x7d^$"

variable {N : Type}

/-- The value of a datapoint. -/
inductive MetricValue (N : Type) where
  | int (i : Int)
  | float (n : N)
deriving DecidableEq

/-- What a number or a boolean is as the value of a datapoint. -/
def numeric : Json N → Option (MetricValue N)
  | .bool b => some (.int (if b then 1 else 0))
  | .num n => some (.float n)
  | _ => none

/-- `regexp.Compile` with `MatchString` of what it gives, `snakeCaseSlice` of one word, and `CastMetricValueWithBool`
with nil where it gives an error. -/
structure Words (N : Type) where
  compile : Str → Option (Str → Bool)
  snakeCase : Str → Str
  castMetricValue : Json N → Option (MetricValue N)
  literal : ∀ s : Str, (∀ c ∈ s, c ∉ metacharacters) → compile s = some fun t => decide (s <:+: t)
  cast_numeric : ∀ j v, numeric j = some v → castMetricValue j = some v

/-- Words without a letter are left out. -/
def joinWords (slice : List Str) (sep : Str) : Str := sep.intercalate (slice.filter (·.any Char.isAlpha))

/-- `runes` is the component so far. `none` is the error of an escape at the end. -/
def splitString (sep escape : Char) : (inEscape : Bool) → (runes : Str) → Str → Option (List Str)
  | inEscape, runes, [] => if inEscape then none else some [runes]
  | true, runes, r :: s => splitString sep escape false (runes ++ [r]) s
  | false, runes, r :: s =>
    if r = escape then splitString sep escape true runes s
    else if r = sep then (splitString sep escape false [] s).map (runes :: ·)
    else splitString sep escape false (runes ++ [r]) s

/-- A value with the keys and the index on the way to it. -/
structure MetricVal (N : Type) where
  value : Option (MetricValue N)
  keys : List Str
  arrayIndexDimension : List (Str × Str)
deriving DecidableEq

/-- A value found below the key of an object. -/
def MetricVal.underKey (words : Words N) (key : Str) (v : MetricVal N) : MetricVal N :=
  { v with
    keys := key :: v.keys
    arrayIndexDimension :=
      putAll (v.arrayIndexDimension.map fun e => (joinWords [words.snakeCase key, e.1] "_", e.2)) [] }

/-- A value found in an array. An index from further down is lost. -/
def MetricVal.atIndex (index : Str) (v : MetricVal N) : MetricVal N :=
  { v with arrayIndexDimension := [("array_index", index)] }

/-- The loop over the entries. -/
def collect (pathComp : Str → Bool) (label : Str → MetricVal N → MetricVal N)
    (helper : Json N → Option (List (MetricVal N))) : List (Str × Json N) → Option (List (MetricVal N))
  | [] => some []
  | e :: es =>
    if pathComp e.1 then
      (helper e.2).bind fun newValues => (collect pathComp label helper es).map (newValues.map (label e.1) ++ ·)
    else collect pathComp label helper es

/-- The elements under their indexes. -/
def elements (js : List (Json N)) : List (Str × Json N) := js.zipIdx.map fun e => (Nat.toDigits 10 e.2, e.1)

/-- `none` is the panic at `pathComps[0]`, which only the case of an array does not avoid. -/
def getValuesInPathHelper (words : Words N) : List Str → Json N → Option (List (MetricVal N))
  | [], .obj _ => some []
  | [], .arr _ => none
  | pathComp :: next, .obj es =>
    (words.compile pathComp).elim (some []) fun pathComp =>
      collect pathComp (.underKey words) (getValuesInPathHelper words next) es
  | pathComp :: next, .arr js =>
    (words.compile pathComp).elim (some []) fun pathComp =>
      collect pathComp .atIndex (getValuesInPathHelper words next) (elements js)
  | _, j => some [⟨words.castMetricValue j, [], []⟩]

def getValuesInPath (words : Words N) (obj : List (Str × Json N)) (path : Str) (pathSeparator : Char) :
    Option (List (MetricVal N)) :=
  (splitString pathSeparator '\\' false [] path).elim (some []) fun pathComps =>
    getValuesInPathHelper words pathComps (.obj obj)

/-! ## The nodes that are visited -/

/-- What an object has under its keys, and an array under its indexes. -/
def entries : Json N → Option (List (Str × Json N))
  | .obj es => some es
  | .arr js => some (elements js)
  | _ => none

@[simp] theorem entries_obj (es : List (Str × Json N)) : entries (.obj es) = some es := rfl

@[simp] theorem entries_arr (js : List (Json N)) : entries (.arr js) = some (elements js) := rfl

@[simp] theorem entries_num (n : N) : entries (.num n) = none := rfl

def isArray : Json N → Bool
  | .arr _ => true
  | _ => false

/-- From a node to an entry that matches the first component of the path. -/
inductive Step (words : Words N) : List Str × Json N → List Str × Json N → Prop
  | down {comp : Str} {next : List Str} {j : Json N} {pathComp : Str → Bool} {es : List (Str × Json N)}
      {e : Str × Json N} (hc : words.compile comp = some pathComp) (hj : entries j = some es) (he : e ∈ es)
      (hm : pathComp e.1 = true) : Step words (comp :: next, j) (next, e.2)

abbrev Reached (words : Words N) (path : List Str) (j : Json N) (s : List Str × Json N) : Prop :=
  ReflTransGen (Step words) (path, j) s

section
variable {words : Words N} {comp : Str} {next path : List Str} {j : Json N} {s : List Str × Json N}
variable {pathComp : Str → Bool} {es : List (Str × Json N)} {helper : Json N → Option (List (MetricVal N))}

theorem reached_nil : Reached words [] j s ↔ s = ([], j) := by
  rw [Reached, ReflTransGen.cases_head_iff, eq_comm, or_iff_left]
  rintro ⟨_, ⟨⟩, -⟩

theorem reached_cons : Reached words (comp :: next) j s ↔ s = (comp :: next, j) ∨ ∃ pathComp es e,
    words.compile comp = some pathComp ∧ entries j = some es ∧ e ∈ es ∧ pathComp e.1 = true ∧
      Reached words next e.2 s := by
  rw [Reached, ReflTransGen.cases_head_iff, eq_comm]
  refine or_congr_right ⟨?_, ?_⟩
  · rintro ⟨_, ⟨hc, hj, he, hm⟩, h⟩
    exact ⟨_, _, _, hc, hj, he, hm, h⟩
  · rintro ⟨_, _, _, hc, hj, he, hm, h⟩
    exact ⟨_, .down hc hj he hm, h⟩

variable {label : Str → MetricVal N → MetricVal N}

theorem collect_eq_none_iff :
    collect pathComp label helper es = none ↔ ∃ e ∈ es, pathComp e.1 = true ∧ helper e.2 = none := by
  induction es with
  | nil => simp [collect]
  | cons e es ih =>
    rw [collect]
    split_ifs with hm
    · cases hh : helper e.2 <;> simp [hh, hm, ih]
    · simp [hm, ih]

/-- What the loop returns, and that no entry in it panics. -/
theorem collect_eq_some {vals : List (MetricVal N)} (h : collect pathComp label helper es = some vals) :
    vals = (es.filter fun e => pathComp e.1).flatMap (fun e => ((helper e.2).getD []).map (label e.1)) ∧
      ∀ e ∈ es, pathComp e.1 = true → helper e.2 = some ((helper e.2).getD []) := by
  induction es generalizing vals with
  | nil =>
    cases h
    exact ⟨rfl, nofun⟩
  | cons e es ih =>
    rw [collect] at h
    rw [filter_cons, forall_mem_cons]
    split_ifs at h ⊢ with hm
    · obtain ⟨newValues, hh, h⟩ := Option.bind_eq_some_iff.mp h
      obtain ⟨vals, hv, rfl⟩ := Option.map_eq_some_iff.mp h
      obtain ⟨hi, hs⟩ := ih hv
      rw [flatMap_cons, hh, ← hi]
      exact ⟨rfl, fun _ => rfl, hs⟩
    · exact ⟨(ih h).1, fun h => absurd h hm, (ih h).2⟩

/-- What the loop over a node does to the values of an entry. -/
def labelOf (words : Words N) (j : Json N) : Str → MetricVal N → MetricVal N :=
  if isArray j then .atIndex else .underKey words

theorem helper_cons (hc : words.compile comp = some pathComp) (hj : entries j = some es) :
    getValuesInPathHelper words (comp :: next) j =
      collect pathComp (labelOf words j) (getValuesInPathHelper words next) es := by
  cases j <;> cases hj <;> simp [getValuesInPathHelper, hc, labelOf, isArray]

theorem helper_leaf (hj : entries j = none) (path : List Str) :
    getValuesInPathHelper words path j = some [⟨words.castMetricValue j, [], []⟩] := by
  cases j <;> cases hj <;> cases path <;> rfl

theorem helper_of_compile (hc : words.compile comp = none) {es : List (Str × Json N)} (hj : entries j = some es) :
    getValuesInPathHelper words (comp :: next) j = some [] := by
  cases j <;> cases hj <;> simp [getValuesInPathHelper, hc]

/-! ## Paths that end on an array -/

theorem helper_eq_none_iff :
    getValuesInPathHelper words path j = none ↔ ∃ js, Reached words path j ([], .arr js) := by
  induction path generalizing j with
  | nil =>
    simp only [reached_nil]
    cases j <;> simp [getValuesInPathHelper]
  | cons comp next ih =>
    simp only [reached_cons, Prod.mk.injEq, reduceCtorEq, false_and, false_or]
    cases hj : entries j with
    | none => simp [helper_leaf hj]
    | some es =>
      cases hc : words.compile comp with
      | none => simp [helper_of_compile hc hj]
      | some pathComp =>
        rw [helper_cons hc hj, collect_eq_none_iff]
        simp only [ih]
        constructor
        · rintro ⟨e, he, hm, js, h⟩
          exact ⟨js, _, _, e, rfl, rfl, he, hm, h⟩
        · rintro ⟨js, _, _, e, hc, hj, he, hm, h⟩
          cases hc
          cases hj
          exact ⟨e, he, hm, js, h⟩

/-! ## Values of different leaves -/

/-- The keys of every object that is visited are distinct, as those of a Go map are. -/
def Maps (words : Words N) (path : List Str) (j : Json N) : Prop :=
  ∀ rest es, Reached words path j (rest, .obj es) → (es.map Prod.fst).Nodup

theorem nodup_elements (js : List (Json N)) : ((elements js).map Prod.fst).Nodup := by
  have hinj : Function.Injective (Nat.toDigits 10) := fun m n h => by
    rw [← Nat.ofDigitChars_ten_toDigits (n := m), h, Nat.ofDigitChars_ten_toDigits]
  have hi : (elements js).map Prod.fst = (js.zipIdx.map Prod.snd).map (Nat.toDigits 10) := by
    rw [elements, map_map, map_map]
    rfl
  rw [hi, zipIdx_map_snd]
  exact (nodup_range' ..).map hinj

theorem nodup_entries (hm : Maps words path j) (hj : entries j = some es) : (es.map Prod.fst).Nodup := by
  cases j with
  | obj es' =>
    cases hj
    exact hm path es .refl
  | arr js =>
    cases hj
    exact nodup_elements js
  | _ => cases hj

theorem Maps.of_step (hm : Maps words path j) (hs : Step words (path, j) s) : Maps words s.1 s.2 :=
  fun rest es h => hm rest es (.head hs h)

/-- The keys of the objects above each leaf. -/
def leafKeys (words : Words N) : List Str → Json N → List (List Str)
  | [], j => (entries j).elim [[]] fun _ => []
  | comp :: next, j => (entries j).elim [[]] fun es => (words.compile comp).elim [] fun pathComp =>
    (es.filter fun e => pathComp e.1).flatMap fun e =>
      (leafKeys words next e.2).map fun ks => if isArray j then ks else e.1 :: ks

/-- No two leaves below one element of an outermost array have the same keys. -/
def Flat (words : Words N) : List Str → Json N → Prop
  | [], _ => True
  | comp :: next, j => ∀ es ∈ entries j, ∀ pathComp ∈ words.compile comp, ∀ e ∈ es, pathComp e.1 = true →
    if isArray j then (leafKeys words next e.2).Nodup else Flat words next e.2

def MetricVal.labels (v : MetricVal N) : List Str × List (Str × Str) := (v.keys, v.arrayIndexDimension)

/-- The labels without the names of the dimensions. -/
def MetricVal.identity (v : MetricVal N) : List Str × List Str := (v.keys, v.arrayIndexDimension.map Prod.snd)

/-- The walk comes to a leaf, stops at an object or an array, or goes on in the entries that match. -/
theorem helper_induction {P : List Str → Json N → List (MetricVal N) → Prop}
    (leaf : ∀ path j, entries j = none → P path j [⟨words.castMetricValue j, [], []⟩])
    (stop : ∀ path j es, entries j = some es → (∀ comp ∈ path.head?, words.compile comp = none) → P path j [])
    (loop : ∀ comp next j pathComp es, words.compile comp = some pathComp → entries j = some es →
      (∀ e ∈ es, pathComp e.1 = true → ∃ vals, getValuesInPathHelper words next e.2 = some vals ∧ P next e.2 vals) →
      P (comp :: next) j ((es.filter fun e => pathComp e.1).flatMap fun e =>
        ((getValuesInPathHelper words next e.2).getD []).map (labelOf words j e.1)))
    {vals : List (MetricVal N)} (h : getValuesInPathHelper words path j = some vals) : P path j vals := by
  induction path generalizing j vals with
  | nil => cases j <;> cases h <;> first | exact leaf _ _ rfl | exact stop _ _ _ rfl nofun
  | cons comp next ih =>
    cases hj : entries j with
    | none =>
      cases (helper_leaf hj _).symm.trans h
      exact leaf _ _ hj
    | some es =>
      cases hc : words.compile comp with
      | none =>
        cases (helper_of_compile hc hj).symm.trans h
        exact stop _ _ _ hj fun _ h => Option.some.inj h ▸ hc
      | some pathComp =>
        obtain ⟨rfl, hsome⟩ := collect_eq_some ((helper_cons hc hj).symm.trans h)
        exact loop _ _ _ _ _ hc hj fun e he hin => ⟨_, hsome e he hin, ih (hsome e he hin)⟩

theorem keys_eq {vals : List (MetricVal N)} (h : getValuesInPathHelper words path j = some vals) :
    vals.map MetricVal.keys = leafKeys words path j := by
  refine helper_induction (P := fun path j vals => vals.map MetricVal.keys = leafKeys words path j) ?_ ?_ ?_ h
  · intro path j hj
    cases path <;> simp [leafKeys, hj]
  · intro path j es hj hc
    cases path <;> simp_all [leafKeys]
  · intro comp next j pathComp es hc hj ih
    simp only [leafKeys, hj, hc, Option.elim_some, map_flatMap, map_map]
    refine flatMap_congr fun e he => ?_
    obtain ⟨vals, hv, hk⟩ := ih e (mem_filter.mp he).1 (mem_filter.mp he).2
    rw [hv, Option.getD_some, ← hk, map_map]
    refine map_congr_left fun v _ => ?_
    simp only [Function.comp_apply, labelOf]
    split <;> rfl

theorem nodup_flatMap_label (tag : List Str × List Str → Option Str)
    (hk : (es.map Prod.fst).Nodup)
    (ht : ∀ e ∈ es, ∀ v ∈ (helper e.2).getD [], tag (label e.1 v).identity = some e.1)
    (hn : ∀ e ∈ es, (((helper e.2).getD []).map fun v => (label e.1 v).identity).Nodup) :
    ((es.flatMap fun e => ((helper e.2).getD []).map (label e.1)).map MetricVal.identity).Nodup := by
  rw [map_flatMap, nodup_flatMap]
  simp only [map_map]
  refine ⟨hn, (pairwise_map.mp hk).imp_of_mem ?_⟩
  intro e e' he he' hne i hi hi'
  obtain ⟨v, hv, rfl⟩ := mem_map.mp hi
  obtain ⟨w, hw, hi'⟩ := mem_map.mp hi'
  have htag := ht e' he' w hw
  rw [show (label e'.1 w).identity = (label e.1 v).identity from hi', ht e he v hv] at htag
  exact hne (Option.some.inj htag)

theorem identity_underKey {v : MetricVal N} (key : Str) (h : v.arrayIndexDimension.length ≤ 1) :
    (v.underKey words key).identity = (key :: v.identity.1, v.identity.2) ∧
      (v.underKey words key).arrayIndexDimension.length = v.arrayIndexDimension.length := by
  obtain ⟨value, ks, dims⟩ := v
  match dims, h with
  | [], _ => exact ⟨rfl, rfl⟩
  | [d], _ => exact ⟨rfl, rfl⟩

theorem single_helper {vals : List (MetricVal N)} (h : getValuesInPathHelper words path j = some vals) :
    ∀ v ∈ vals, v.arrayIndexDimension.length ≤ 1 := by
  refine helper_induction (P := fun _ _ vals => ∀ v ∈ vals, v.arrayIndexDimension.length ≤ 1) (by simp) (by simp) ?_ h
  intro comp next j pathComp es hc hj ih
  simp only [mem_flatMap, mem_map]
  rintro _ ⟨e, he, v, hv, rfl⟩
  obtain ⟨vals, hvals, hle⟩ := ih e (mem_filter.mp he).1 (mem_filter.mp he).2
  have hle := hle v (by simpa [hvals] using hv)
  rw [labelOf]
  split
  · exact Nat.le_refl 1
  · exact (identity_underKey e.1 hle).2.trans_le hle

/-- The identities are distinct even without the names of the dimensions. -/
theorem nodup_identity {vals : List (MetricVal N)} (h : getValuesInPathHelper words path j = some vals)
    (hm : Maps words path j) (hf : Flat words path j) : (vals.map MetricVal.identity).Nodup := by
  revert hm hf
  refine helper_induction (P := fun path j vals => Maps words path j → Flat words path j →
    (vals.map MetricVal.identity).Nodup) (by simp) (by simp) ?_ h
  intro comp next j pathComp es hc hj ih hm hf
  have hk : ((es.filter fun e => pathComp e.1).map Prod.fst).Nodup :=
    (nodup_entries hm hj).sublist (filter_sublist.map _)
  have hflat := hf es hj pathComp hc
  rw [labelOf]
  split_ifs at hflat ⊢
  · refine nodup_flatMap_label (fun i => i.2.head?) hk (fun _ _ _ _ => rfl) fun e he => ?_
    obtain ⟨he, hin⟩ := mem_filter.mp he
    obtain ⟨vals, hvals, -⟩ := ih e he hin
    have hkeys := hflat e he hin
    rw [← keys_eq hvals] at hkeys
    refine .of_map Prod.fst ?_
    rwa [hvals, map_map]
  · refine nodup_flatMap_label (fun i => i.1.head?) hk (fun _ _ _ _ => rfl) fun e he => ?_
    obtain ⟨he, hin⟩ := mem_filter.mp he
    obtain ⟨vals, hvals, hnd⟩ := ih e he hin
    have hnd := hnd (hm.of_step (.down hc hj he hin)) (hflat e he hin)
    rw [hvals]
    refine pairwise_map.mpr ((pairwise_map.mp hnd).imp_of_mem fun hv hw hne heq => hne ?_)
    have hle := single_helper hvals
    rw [(identity_underKey e.1 (hle _ hv)).1, (identity_underKey e.1 (hle _ hw)).1] at heq
    obtain ⟨hks, hi⟩ := Prod.mk.inj heq
    exact Prod.ext (cons.inj hks).2 hi

theorem flat_of_nodup {vals : List (MetricVal N)} (h : getValuesInPathHelper words path j = some vals)
    (hn : (vals.map MetricVal.labels).Nodup) : Flat words path j := by
  induction path generalizing j vals with
  | nil => trivial
  | cons comp next ih =>
    intro es hj pathComp hc e he hin
    obtain ⟨rfl, hsome⟩ := collect_eq_some ((helper_cons hc hj).symm.trans h)
    rw [map_flatMap, nodup_flatMap] at hn
    have hnd := hn.1 e (mem_filter.mpr ⟨he, hin⟩)
    rw [map_map] at hnd
    rw [labelOf] at hnd
    split_ifs at hnd ⊢
    · -- below an array the labels are a function of the keys
      rw [← keys_eq (hsome e he hin)]
      refine .of_map (fun ks => ((ks, [("array_index", e.1)]) : List Str × List (Str × Str))) ?_
      rwa [map_map]
    · refine ih (hsome e he hin) ?_
      refine .of_map (fun i => (MetricVal.mk (N := N) none i.1 i.2).underKey words e.1 |>.labels) ?_
      rwa [map_map]

/-! ## Paths without metacharacters -/

/-- The node that the path names if its components are taken as they are. -/
def follow : List Str → Json N → Option (Json N)
  | [], j => some j
  | comp :: next, j => ((entries j).bind (find comp)).bind (follow next)

/-- The value of the number or boolean that the path names. -/
def selected (path : List Str) (j : Json N) : List (Option (MetricValue N)) :=
  ((follow path j).bind numeric).toList.map some

/-- Only objects are visited, and arrays before the path ends. -/
def Silent (words : Words N) : List Str → Json N → Prop
  | [], j => entries j ≠ none ∧ isArray j = false
  | comp :: next, j => ∃ es, entries j = some es ∧ ∀ pathComp ∈ words.compile comp, ∀ e ∈ es, pathComp e.1 = true →
    Silent words next e.2

/-- The path ends on an object, a number or a boolean, not before. Below an entry that only contains the component there
is nothing. -/
def Exact (words : Words N) : List Str → Json N → Prop
  | [], j => isArray j = false ∧ (entries j = none → numeric j ≠ none)
  | comp :: next, j => ∃ es, entries j = some es ∧ ∀ e ∈ es, comp <:+: e.1 →
    if e.1 = comp then Exact words next e.2 else Silent words next e.2

theorem collect_eq_nil_iff :
    collect pathComp label helper es = some [] ↔ ∀ e ∈ es, pathComp e.1 = true → helper e.2 = some [] := by
  induction es with
  | nil => simp [collect]
  | cons e es ih =>
    rw [collect, forall_mem_cons, ← ih]
    split_ifs with hm
    · cases hh : helper e.2 <;> cases hcol : collect pathComp label helper es <;> simp [hm]
    · simp [hm]

theorem helper_eq_nil_iff : getValuesInPathHelper words path j = some [] ↔ Silent words path j := by
  induction path generalizing j with
  | nil => cases j <;> simp [Silent, getValuesInPathHelper, entries, isArray]
  | cons comp next ih =>
    cases hj : entries j with
    | none => simp [Silent, helper_leaf hj, hj]
    | some es =>
      cases hc : words.compile comp with
      | none => simp [Silent, helper_of_compile hc hj, hj, hc]
      | some pathComp =>
        rw [helper_cons hc hj, collect_eq_nil_iff]
        simp [Silent, hj, hc, ih]

theorem append_eq_iff {α : Type} {a b l : List α} (h : l.length ≤ a.length) : a ++ b = l ↔ a = l ∧ b = [] := by
  cases b <;> grind

theorem append_eq_iff' {α : Type} {a b l : List α} (h : l.length ≤ b.length) : a ++ b = l ↔ a = [] ∧ b = l := by
  cases a <;> grind

section
variable {spec : Json N → List (Option (MetricValue N))}

/-- The entry under the component gives what it should, and the others nothing. -/
theorem collect_iff (pathComp : Str → Bool) (hl : ∀ k v, (label k v).value = v.value) (hp : pathComp comp = true)
    (hk : (es.map Prod.fst).Nodup)
    (hlen : ∀ e ∈ es, pathComp e.1 = true → ∀ vals, helper e.2 = some vals → (spec e.2).length ≤ vals.length) :
    ((collect pathComp label helper es).map (·.map MetricVal.value) = some ((find comp es).elim [] spec) ↔
      ∀ e ∈ es, pathComp e.1 = true →
        if e.1 = comp then (helper e.2).map (·.map MetricVal.value) = some (spec e.2) else helper e.2 = some []) ∧
    ∀ vals, collect pathComp label helper es = some vals → ((find comp es).elim [] spec).length ≤ vals.length := by
  induction es with
  | nil => simp [collect]
  | cons e es ih =>
    rw [map_cons, nodup_cons] at hk
    rw [forall_mem_cons] at hlen ⊢
    obtain ⟨ih, hle⟩ := ih hk.2 hlen.2
    rw [collect, find, ← ih]
    by_cases hm : pathComp e.1 = true
    · cases hh : helper e.2 with
      | none => simp [hm]
      | some vals =>
        cases hcol : collect pathComp label helper es with
        | none => simp [hm]
        | some rest =>
          have hv := hlen.1 hm vals hh
          have hr := hle rest hcol
          by_cases he : e.1 = comp
          · have hf : find comp es = none := (find_none _ _).mpr (he ▸ hk.1)
            have happ := append_eq_iff (b := rest.map MetricVal.value) (hv.trans_eq (length_map MetricVal.value).symm)
            refine ⟨?_, ?_⟩
            · simpa [hp, he, hf, Function.comp_def, hl] using happ
            · simp [hp, he]
              omega
          · have happ := append_eq_iff' (a := vals.map MetricVal.value) (hr.trans_eq (length_map MetricVal.value).symm)
            refine ⟨?_, ?_⟩
            · simpa [hm, he, Function.comp_def, hl] using happ
            · simp [hm, he]
              omega
    · have he : e.1 ≠ comp := fun he => hm (he ▸ hp)
      simpa [hm, he] using hle

end

theorem values_iff (hw : ∀ comp ∈ path, ∀ c ∈ comp, c ∉ metacharacters) (hm : Maps words path j) :
    ((getValuesInPathHelper words path j).map (·.map MetricVal.value) = some (selected path j) ↔ Exact words path j) ∧
    ∀ vals, getValuesInPathHelper words path j = some vals → (selected path j).length ≤ vals.length := by
  induction path generalizing j with
  | nil =>
    cases j <;>
      simp [getValuesInPathHelper, selected, follow, numeric, Exact, isArray, entries, words.cast_numeric]
  | cons comp next ih =>
    rw [forall_mem_cons] at hw
    cases hj : entries j with
    | none => simp [helper_leaf hj, selected, follow, hj, Exact]
    | some es =>
      have hc := words.literal comp hw.1
      have hi (e) (he : e ∈ es) (hin : decide (comp <:+: e.1) = true) := ih hw.2 (hm.of_step (.down hc hj he hin))
      have hs : selected (comp :: next) j = (find comp es).elim [] (selected next) := by
        rw [selected, follow, hj, Option.bind_some]
        cases find comp es <;> rfl
      have hl (k) (v : MetricVal N) : (labelOf words j k v).value = v.value := by
        rw [labelOf]
        split <;> rfl
      obtain ⟨hiff, hle⟩ := collect_iff (fun key => decide (comp <:+: key)) hl (decide_eq_true (infix_refl comp))
        (nodup_entries hm hj) fun e he hin => (hi e he hin).2
      rw [helper_cons hc hj, hs, hiff, Exact]
      refine ⟨?_, hle⟩
      simp only [hj, Option.some.injEq, exists_eq_left', decide_eq_true_eq]
      refine forall₃_congr fun e he hin => ?_
      split_ifs
      · exact (hi e he (decide_eq_true hin)).1
      · exact helper_eq_nil_iff

end

/-! ## `getValuesInPath` -/

section
variable (words : Words N) (obj : List (Str × Json N)) (path : Str) (pathSeparator : Char) (pathComps : List Str)

/-- A path without metacharacters selects the number or boolean that it names, and nothing else. -/
theorem getValuesInPath_exact (hpath : splitString pathSeparator '\\' false [] path = some pathComps)
    (hplain : ∀ comp ∈ pathComps, ∀ c ∈ comp, c ∉ metacharacters) (hmaps : Maps words pathComps (.obj obj)) :
    (getValuesInPath words obj path pathSeparator).map (·.map MetricVal.value) = some (selected pathComps (.obj obj)) ↔
      Exact words pathComps (.obj obj) := by
  rw [getValuesInPath, hpath]
  exact (values_iff hplain hmaps).1

theorem getValuesInPath_panics_iff (hpath : splitString pathSeparator '\\' false [] path = some pathComps) :
    getValuesInPath words obj path pathSeparator = none ↔
      ∃ js, Reached words pathComps (.obj obj) ([], .arr js) := by
  rw [getValuesInPath, hpath]
  exact helper_eq_none_iff

theorem getValuesInPath_distinct (hpath : splitString pathSeparator '\\' false [] path = some pathComps)
    (hmaps : Maps words pathComps (.obj obj)) {vals : List (MetricVal N)}
    (hvals : getValuesInPath words obj path pathSeparator = some vals) :
    (vals.map fun v => (v.keys, v.arrayIndexDimension)).Nodup ↔ Flat words pathComps (.obj obj) := by
  rw [getValuesInPath, hpath] at hvals
  refine ⟨flat_of_nodup hvals, fun hflat => ?_⟩
  refine .of_map (fun i => (i.1, i.2.map Prod.snd)) ?_
  rw [map_map]
  exact nodup_identity hvals hmaps hflat

end

def literals : Words Nat where
  compile s := some fun t => decide (s <:+: t)
  snakeCase := id
  castMetricValue := numeric
  literal _ _ := rfl
  cast_numeric _ _ h := h

theorem reached_literals {comp : Str} {next : List Str} {j : Json Nat} {s : List Str × Json Nat} :
    Reached literals (comp :: next) j s ↔ s = (comp :: next, j) ∨
      ∃ e ∈ (entries j).getD [], comp <:+: e.1 ∧ Reached literals next e.2 s := by
  rw [reached_cons]
  cases entries j <;> simp [literals]

/-- Arrays in an array, and a key that only contains another one. -/
def sample : List (Str × Json Nat) :=
  [("ab", .obj [("c", .num 1)]),
    ("a", .arr [.arr [.obj [("x", .num 2), ("y", .num 3)]], .arr [.obj [("x", .num 4)]]])]

theorem maps_sample (a b c d : Str) : Maps literals [a, b, c, d] (.obj sample) := by
  intro rest es h
  simp [-Prod.exists, reached_literals, reached_nil, sample, elements] at h
  rcases h with ⟨-, rfl⟩ | ⟨-, -, rfl⟩ | ⟨-, ⟨-, -, -, rfl⟩ | ⟨-, -, -, rfl⟩⟩ <;> simp

theorem getValuesInPath_oneNumber :
    (getValuesInPath literals sample "a.0.0.x" '.').map (·.map MetricVal.value) = some [some (.float 2)] := by
  have hpath : splitString '.' '\\' false [] "a.0.0.x" = some [['a'], ['0'], ['0'], ['x']] := by decide +kernel
  have hs : selected [['a'], ['0'], ['0'], ['x']] (.obj sample) = [some (.float 2)] := by decide +kernel
  rw [← hs]
  refine (getValuesInPath_exact literals sample _ _ _ hpath ?_ (maps_sample _ _ _ _)).mpr ?_
  · have hplain : [['a'], ['0'], ['0'], ['x']].all (·.all (· ∉ metacharacters)) = true := by decide +kernel
    exact fun comp hcomp c hc => of_decide_eq_true (all_eq_true.mp (all_eq_true.mp hplain comp hcomp) c hc)
  · refine ⟨_, rfl, ?_⟩
    simp only [sample, forall_mem_cons]
    refine ⟨fun _ => helper_eq_nil_iff.mp (by decide +kernel), fun _ => ⟨_, rfl, ?_⟩, nofun⟩
    simp [-Prod.forall, elements, Exact, isArray, numeric]
    exact fun h => absurd h (by decide)

/-- The key `ab` contains the component. -/
theorem getValuesInPath_otherKey :
    (getValuesInPath literals [("ab", .num 1)] "a" '.').map (·.map MetricVal.value) = some [some (.float 1)] := by
  decide +kernel

theorem getValuesInPath_returns : getValuesInPath literals sample "a..." '.' ≠ none := by
  rw [Ne, getValuesInPath_panics_iff literals sample "a..." '.' [['a'], [], [], []] rfl]
  simp [-Prod.exists, reached_literals, reached_nil, sample, elements]

theorem getValuesInPath_array : getValuesInPath literals [("a", .arr [.num 1])] "a" '.' = none := by
  decide +kernel

/-- The leaves below the first element have different keys. -/
theorem getValuesInPath_fourLeaves : ∃ vals, getValuesInPath literals sample "a..." '.' = some vals ∧
    vals.length = 4 ∧ (vals.map fun v => (v.keys, v.arrayIndexDimension)).Nodup := by
  refine ⟨_, rfl, rfl,
    (getValuesInPath_distinct literals sample "a..." '.' [['a'], [], [], []] rfl (maps_sample _ _ _ _) rfl).mpr ?_⟩
  simp [-Prod.forall, Flat, sample, elements, leafKeys, isArray, literals]

/-- The index in the inner array is overwritten. -/
theorem getValuesInPath_nested :
    getValuesInPath literals [("a", .arr [.arr [.num 1, .num 2]])] "a.." '.' =
      some [⟨some (.float 1), ["a".toList], [("a_array_index".toList, "0".toList)]⟩,
        ⟨some (.float 2), ["a".toList], [("a_array_index".toList, "0".toList)]⟩] := by
  decide +kernel

end Collector.Expvar
