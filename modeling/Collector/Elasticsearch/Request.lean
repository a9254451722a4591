import Collector.Elasticsearch.Response

/-!
# The metadata of an Elasticsearch request

Only the keyword `aggs` is followed into the sub-aggregations.
-/

namespace Collector.Elasticsearch

open Lib List

variable {N : Type}

inductive AggregationInfo where
  | mk (aggregationProps : List Str) (subAggregations : List (Str × AggregationInfo))

def aggsName : Str := ['a', 'g', 'g', 's']
def metaName : Str := ['m', 'e', 't', 'a']

section
variable (nums : Json.Numbers N)

def isBody (v : Json N) : Bool :=
  match v with
  | .null => true
  | .obj _ => (Json.toInterface nums v).isSome
  | _ => false

mutual
def infoOf : Json N → Option AggregationInfo
  | .null => some (.mk [] [])
  | .obj es =>
    if es.all fun e => isBody nums e.2 then (subInfosOf es []).map fun subs =>
      .mk ((es.map Prod.fst).filter fun k => k ≠ aggsName ∧ k ≠ metaName ∧ k ≠ aggregationsName) subs
    else none
  | _ => none

/-- The members that are decoded into the field for `aggs`. -/
def subInfosOf : List (Str × Json N) → List (Str × AggregationInfo) → Option (List (Str × AggregationInfo))
  | [], subs => some subs
  | (k, v) :: es, subs =>
    if k.map Json.foldRune = aggsName.map Json.foldRune then
      match v with
      | .null => subInfosOf es []
      | .obj aggs => (infosOf aggs subs).bind (subInfosOf es)
      | _ => none
    else subInfosOf es subs

def infosOf : List (Str × Json N) → List (Str × AggregationInfo) → Option (List (Str × AggregationInfo))
  | [], subs => some subs
  | (k, v) :: aggs, subs => (infoOf v).bind fun info => infosOf aggs (put k info subs)
end

def unmarshalRequest : Json N → Option (List (Str × AggregationInfo))
  | .null => some []
  | .obj es => subInfosOf nums es []
  | _ => none

end

/-! ## The metadata -/

section
variable (pick : List Str → Str)

mutual
/-- `getAggregationsWithType`. The type is the key that the loop over the properties comes to first. -/
def withType (aggName : Str) : AggregationInfo → List (Str × Str) → Option (List (Str × Str))
  | .mk props subs, out => if props = [] then none else subsWithType subs (put aggName (pick props) out)

def subsWithType : List (Str × AggregationInfo) → List (Str × Str) → Option (List (Str × Str))
  | [], out => some out
  | (k, info) :: subs, out => (withType k info out).bind (subsWithType subs)
end

def getAggregationsMeta (aggs : List (Str × AggregationInfo)) : Option (List (Str × Str)) := subsWithType pick aggs []

inductive Named : List (Str × AggregationInfo) → Str → Prop where
  | top {aggs : List (Str × AggregationInfo)} {k : Str} {info : AggregationInfo} (h : (k, info) ∈ aggs) : Named aggs k
  | sub {aggs subs : List (Str × AggregationInfo)} {k k' : Str} {props : List Str}
    (h : (k', .mk props subs) ∈ aggs) (hk : Named subs k) : Named aggs k

theorem not_named_nil (k : Str) : ¬ Named [] k := by
  rintro (h | ⟨h, -⟩) <;> simp at h

theorem named_cons {k k' : Str} {props : List Str} {subs aggs : List (Str × AggregationInfo)} :
    Named ((k', .mk props subs) :: aggs) k ↔ k = k' ∨ Named subs k ∨ Named aggs k := by
  constructor
  · rintro (h | ⟨h, hk⟩)
    · rcases mem_cons.mp h with h | h
      · cases h
        exact .inl rfl
      · exact .inr (.inr (.top h))
    · rcases mem_cons.mp h with h | h
      · cases h
        exact .inr (.inl hk)
      · exact .inr (.inr (.sub h hk))
  · rintro (rfl | hk | hk)
    · exact .top mem_cons_self
    · exact .sub mem_cons_self hk
    · cases hk with
      | top h => exact .top (mem_cons_of_mem _ h)
      | sub h hk => exact .sub (mem_cons_of_mem _ h) hk

variable {pick}

mutual
theorem mem_keys_withType {aggName : Str} : ∀ {info : AggregationInfo} {out aggsMeta : List (Str × Str)},
    withType pick aggName info out = some aggsMeta → ∀ k, k ∈ keys aggsMeta ↔ k ∈ keys out ∨ Named [(aggName, info)] k
  | .mk props subs, out, aggsMeta, h, k => by
    rw [withType, Option.ite_none_left_eq_some] at h
    rw [mem_keys_subsWithType h.2 k, mem_keys_put, named_cons]
    simp only [not_named_nil, or_false]
    tauto

theorem mem_keys_subsWithType : ∀ {aggs : List (Str × AggregationInfo)} {out aggsMeta : List (Str × Str)},
    subsWithType pick aggs out = some aggsMeta → ∀ k, k ∈ keys aggsMeta ↔ k ∈ keys out ∨ Named aggs k
  | [], out, aggsMeta, h, k => by
    rw [subsWithType] at h
    cases h
    simp only [not_named_nil, or_false]
  | (k', .mk props subs) :: aggs, out, aggsMeta, h, k => by
    rw [subsWithType, Option.bind_eq_some_iff] at h
    obtain ⟨out', hout', h⟩ := h
    rw [mem_keys_subsWithType h k, mem_keys_withType hout' k, named_cons, named_cons]
    simp only [not_named_nil, or_false]
    tauto
end

theorem mem_keys_getAggregationsMeta {aggs : List (Str × AggregationInfo)} {aggsMeta : List (Str × Str)}
    (h : getAggregationsMeta pick aggs = some aggsMeta) (k : Str) : k ∈ keys aggsMeta ↔ Named aggs k := by
  rw [mem_keys_subsWithType h k]
  simp [Lib.keys]

end

end Collector.Elasticsearch
