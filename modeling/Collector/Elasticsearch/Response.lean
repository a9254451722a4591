import Collector.Lib.Json
import Collector.Lib.Panic
import Collector.Value

/-!
# Decoding the response of an Elasticsearch query

The decoders of an aggregation and of a bucket call each other. They encode the values that they have decoded and decode
them again, which gives the values back.
-/

namespace Collector.Elasticsearch

open Lib Outcome List

variable {other : Bool} {docCount : Option (Option Int)}

inductive Panic where
  /-- A name without an entry in the metadata. -/
  | nilMeta
  | nilAggregation
  | unhashableKey
deriving DecidableEq

/-- The texts of the errors are left out: a response with an error is logged and dropped. -/
abbrev Result (α : Type) := Outcome Unit Panic α

variable {N : Type}
variable {m : List (Str × Json N)}

inductive BucketKey (N : Type) where
  | null
  | bool (b : Bool)
  | num (n : N)
  | str (s : Str)
deriving DecidableEq

def bucketKey : Json N → Option (BucketKey N)
  | .null => some .null
  | .bool b => some (.bool b)
  | .num n => some (.num n)
  | .str s => some (.str s)
  | .arr _ | .obj _ => none

mutual
inductive AggregationResponse (N : Type) where
  | mk (docCount : Option Int) (value values : Json N) (subAggregations : List (Str × AggregationResponse N))
    (buckets : List (BucketKey N × BucketResponse N)) (otherValues : List (Str × Json N))

/-- The key of a bucket is that of its entry in the buckets. -/
inductive BucketResponse (N : Type) where
  | mk (docCount : Option Int) (subAggregations : List (Str × AggregationResponse N))
end

def docCountName : Str := ['d', 'o', 'c', '_', 'c', 'o', 'u', 'n', 't']
def valueName : Str := ['v', 'a', 'l', 'u', 'e']
def valuesName : Str := ['v', 'a', 'l', 'u', 'e', 's']
def bucketsName : Str := ['b', 'u', 'c', 'k', 'e', 't', 's']
def keyName : Str := ['k', 'e', 'y']
def aggregationsName : Str := ['a', 'g', 'g', 'r', 'e', 'g', 'a', 't', 'i', 'o', 'n', 's']

def isNil (name : Str) (m : List (Str × Json N)) : Bool :=
  match find name m with
  | none | some .null => true
  | some _ => false

def isOther (m : List (Str × Json N)) : Bool :=
  isNil docCountName m && isNil bucketsName m && isNil valueName m && isNil valuesName m

inductive Member (N : Type) where
  | skip
  | other (k : Str) (v : Json N)
  | buckets (buckets : List (BucketKey N × BucketResponse N))
  | subAggregation (k : Str) (agg : AggregationResponse N)

section
variable [DecidableEq N] (order : Order Unit Panic) (nums : Json.Numbers N)

def aggregationFrom (docCount : Option (Option Int)) (value values : Json N) (members : List (Result (Member N))) :
    Result (AggregationResponse N) :=
  match docCount with
  | none => .error (.error ())
  | some docCount => (order.range members).map fun members => .mk docCount value values
      (members.filterMap fun | .subAggregation k agg => some (k, agg) | _ => none)
      (members.flatMap fun | .buckets buckets => buckets | _ => [])
      (members.filterMap fun | .other k v => some (k, v) | _ => none)

mutual
/-- `getAgrgeagtionResponseFromInterface`. -/
def aggregationOf : Json N → Result (AggregationResponse N)
  | .obj m => aggregationFrom order (Json.int64Field nums docCountName m) (Json.lastField valueName m)
      (Json.lastField valuesName m) (membersOf (isOther m) m)
  | _ => .error (.error ())

def membersOf (other : Bool) : List (Str × Json N) → List (Result (Member N))
  | [] => []
  | (k, v) :: m =>
    (if k = valueName ∨ k = valuesName then .ok .skip
      else if k = bucketsName then (bucketsOf v).map .buckets
      else if other then .ok (.other k v)
      else if v.isObject then (aggregationOf v).map (.subAggregation k)
      else .ok .skip) :: membersOf other m

def bucketsOf : Json N → Result (List (BucketKey N × BucketResponse N))
  | .obj bs => order.range (bucketsOfMap bs)
  | .arr bs => bucketsOfList bs []
  | _ => .ok []

def bucketsOfMap : List (Str × Json N) → List (Result (BucketKey N × BucketResponse N))
  | [] => []
  | (bk, bv) :: bs => (bucketOf bv).map (fun bucket => (.str bk, bucket.2)) :: bucketsOfMap bs

def bucketsOfList : List (Json N) → List (BucketKey N × BucketResponse N) →
    Result (List (BucketKey N × BucketResponse N))
  | [], buckets => .ok buckets
  | bv :: bs, buckets =>
    bucketOf bv >>= fun bucket => match bucketKey bucket.1 with
      | none => .error (.panic .unhashableKey)
      | some key => bucketsOfList bs (put key bucket.2 buckets)

/-- `getBucketResponseFromInterface`, with the key. -/
def bucketOf : Json N → Result (Json N × BucketResponse N)
  | .obj m => match Json.int64Field nums docCountName m with
    | none => .error (.error ())
    | some docCount => (order.range (subAggregationsOf m)).map fun subs => (Json.lastField keyName m, .mk docCount subs)
  | .null => .ok (.null, .mk none [])
  | _ => .error (.error ())

def subAggregationsOf : List (Str × Json N) → List (Result (Str × AggregationResponse N))
  | [] => []
  | (k, v) :: m => if v.isObject then (aggregationOf v).map (k, ·) :: subAggregationsOf m else subAggregationsOf m
end

def unmarshalAggregation : Json N → Result (AggregationResponse N)
  | .obj es => match Json.toInterface nums (.obj es) with
    | some (.obj m) => aggregationFrom order (Json.int64Field nums docCountName es)
        ((Json.toInterface nums (Json.lastField valueName es)).getD .null)
        ((Json.toInterface nums (Json.lastField valuesName es)).getD .null) (membersOf order nums (isOther m) m)
    | _ => .error (.error ())
  | _ => .error (.error ())

/-- A member of an object that is decoded into an `aggregationsMap`. -/
def addAggregation (aggs : List (Str × Option (AggregationResponse N))) (e : Str × Json N) :
    Result (List (Str × Option (AggregationResponse N))) :=
  match e.2 with
  | .null => .ok (put e.1 none aggs)
  | v => (unmarshalAggregation order nums v).map fun agg => put e.1 (some agg) aggs

def addMember (s : List (Str × Option (AggregationResponse N)) × Bool) (e : Str × Json N) :
    Result (List (Str × Option (AggregationResponse N)) × Bool) :=
  if e.1.map Json.foldRune = aggregationsName.map Json.foldRune then
    match e.2 with
    | .null => .ok ([], s.2)
    | .obj aggs => (aggs.foldlM (addAggregation order nums) s.1).map fun aggs => (aggs, s.2)
    | _ => .ok (s.1, false)
  else .ok s

/-- `Unmarshal` into an `HTTPResponse`, in the order of the text. -/
def unmarshalResponse : Json N → Result (List (Str × Option (AggregationResponse N)))
  | .obj es => es.foldlM (addMember order nums) ([], true) >>= fun s => if s.2 then .ok s.1 else .error (.error ())
  | .null => .ok []
  | _ => .error (.error ())

/-! ## The bodies of the loops -/

def memberOf (other : Bool) (e : Str × Json N) : Result (Member N) :=
  if e.1 = valueName ∨ e.1 = valuesName then .ok .skip
  else if e.1 = bucketsName then (bucketsOf order nums e.2).map .buckets
  else if other then .ok (.other e.1 e.2)
  else if e.2.isObject then (aggregationOf order nums e.2).map (.subAggregation e.1)
  else .ok .skip

theorem membersOf_eq (other : Bool) (m : List (Str × Json N)) :
    membersOf order nums other m = m.map (memberOf order nums other) := by
  induction m with
  | nil => rw [membersOf, map_nil]
  | cons e m ih =>
    rw [membersOf, ih, map_cons]
    rfl

theorem bucketsOfMap_eq (bs : List (Str × Json N)) :
    bucketsOfMap order nums bs = bs.map fun e => (bucketOf order nums e.2).map fun bucket => (.str e.1, bucket.2) := by
  induction bs with
  | nil => rw [bucketsOfMap, map_nil]
  | cons e bs ih => rw [bucketsOfMap, ih, map_cons]

theorem subAggregationsOf_eq (m : List (Str × Json N)) : subAggregationsOf order nums m =
      (m.filter fun e => e.2.isObject).map fun e => (aggregationOf order nums e.2).map (e.1, ·) := by
  induction m with
  | nil => rw [subAggregationsOf]; rfl
  | cons e m ih =>
    rw [subAggregationsOf, ih, filter_cons]
    split <;> rfl

def addBucket (buckets : List (BucketKey N × BucketResponse N))
    (b : Json N) : Result (List (BucketKey N × BucketResponse N)) :=
  bucketOf order nums b >>= fun bucket => match bucketKey bucket.1 with
    | none => .error (.panic .unhashableKey)
    | some key => .ok (put key bucket.2 buckets)

theorem bucketsOfList_eq (bs : List (Json N)) (buckets : List (BucketKey N × BucketResponse N)) :
    bucketsOfList order nums bs buckets = bs.foldlM (addBucket order nums) buckets := by
  induction bs generalizing buckets with
  | nil =>
    rw [bucketsOfList]
    rfl
  | cons b bs ih =>
    rw [bucketsOfList, foldlM_cons, addBucket, bind_assoc]
    congr 1
    funext bucket
    cases bucketKey bucket.1 with
    | none => rfl
    | some key => exact ih _

structure IsSub (other : Bool) (e : Str × Json N) : Prop where
  notValue : ¬ (e.1 = valueName ∨ e.1 = valuesName)
  notBuckets : e.1 ≠ bucketsName
  notOther : other = false
  isObject : e.2.isObject = true

theorem memberOf_cases (other : Bool) (e : Str × Json N) :
    (e.1 = bucketsName ∧ ∀ order, memberOf order nums other e = (bucketsOf order nums e.2).map .buckets) ∨
    (IsSub other e ∧ ∀ order, memberOf order nums other e = (aggregationOf order nums e.2).map (.subAggregation e.1)) ∨
    ((e.1 ≠ bucketsName ∧ ¬ IsSub other e) ∧ ∃ r, ∀ order, memberOf order nums other e = .ok r) := by
  unfold memberOf
  by_cases hv : e.1 = valueName ∨ e.1 = valuesName
  · have hne : e.1 ≠ bucketsName := by
      rcases hv with h | h <;> rw [h] <;> decide
    simp only [if_pos hv]
    exact .inr (.inr ⟨⟨hne, fun h => h.notValue hv⟩, _, fun _ => rfl⟩)
  · by_cases hb : e.1 = bucketsName
    · simp only [if_neg hv, if_pos hb]
      exact .inl ⟨hb, by simp⟩
    · simp only [if_neg hv, if_neg hb]
      by_cases ho : other = true
      · simp only [if_pos ho]
        exact .inr (.inr ⟨⟨hb, fun h => by simp [h.notOther] at ho⟩, _, fun _ => rfl⟩)
      · by_cases hob : e.2.isObject = true
        · simp only [if_neg ho, if_pos hob]
          exact .inr (.inl ⟨⟨hv, hb, by simpa using ho, hob⟩, by simp⟩)
        · simp only [if_neg ho, if_neg hob]
          exact .inr (.inr ⟨⟨hb, fun h => hob h.isObject⟩, _, fun _ => rfl⟩)

end

/-! ## What is decoded does not depend on the order -/

section
variable [DecidableEq N] {nums : Json.Numbers N} {order order' : Order Unit Panic}

variable {e : Str × Json N}

theorem steady_memberOf (hagg : Steady (aggregationOf · nums e.2))
    (hbu : Steady (bucketsOf · nums e.2)) : Steady (memberOf · nums other e) := by
  rcases memberOf_cases nums other e with ⟨-, heq⟩ | ⟨-, heq⟩ | ⟨-, r, heq⟩ <;> simp only [heq]
  · exact hbu.map _
  · exact hagg.map _
  · exact .const _

theorem steady_aggregationFrom {value values : Json N}
    (hm : ∀ e ∈ m, Steady (aggregationOf · nums e.2) ∧ Steady (bucketsOf · nums e.2)) :
    Steady fun order => aggregationFrom order docCount value values (membersOf order nums other m) := by
  cases docCount with
  | none => exact .const _
  | some docCount =>
    simp only [aggregationFrom, membersOf_eq]
    exact (Steady.range fun e he => steady_memberOf (hm e he).1 (hm e he).2).map _

variable (c : Json N)

theorem steady_decode : Steady (aggregationOf · nums c) ∧ Steady (bucketsOf · nums c) ∧
    Steady (bucketOf · nums c) := by
  induction c using Json.induct with
  | null | bool | num | str => simp only [aggregationOf, bucketsOf, bucketOf, Steady.const, and_self]
  | arr js ih =>
    simp only [aggregationOf, bucketsOf, bucketOf, Steady.const, true_and, and_true, bucketsOfList_eq]
    exact .foldlM fun b hb _ => (ih b hb).2.2.bind _
  | obj es ih =>
    simp only [aggregationOf, bucketsOf, bucketOf, bucketsOfMap_eq, subAggregationsOf_eq]
    refine ⟨steady_aggregationFrom fun e he => ⟨(ih e he).1, (ih e he).2.1⟩,
      .range fun e he => (ih e he).2.2.map _, ?_⟩
    cases Json.int64Field nums docCountName es with
    | none => exact .const _
    | some docCount => exact (Steady.range fun e he => (ih e (mem_filter.mp he).1).1.map _).map _

/-!
## Where decoding panics

A loop over a map can begin with any of its entries, so one that panics is enough.
-/

def BucketFits (nums : Json.Numbers N) (b : Json N) : Prop :=
  ∃ bucket, bucketOf .asListed nums b = .ok bucket ∧ bucketKey bucket.1 ≠ none

def KeyUnhashable (nums : Json.Numbers N) (b : Json N) : Prop :=
  ∃ bucket, bucketOf .asListed nums b = .ok bucket ∧ bucketKey bucket.1 = none

def docCountOk (nums : Json.Numbers N) (m : List (Str × Json N)) : Prop := Json.int64Field nums docCountName m ≠ none

mutual
inductive AggPanics (nums : Json.Numbers N) : List (Str × Json N) → Prop where
  | sub {m m' : List (Str × Json N)} {k : Str} (hmem : (k, .obj m') ∈ m) (hsub : IsSub (isOther m) (k, .obj m'))
    (hdoc : docCountOk nums m') (h : AggPanics nums m') : AggPanics nums m
  | buckets {m : List (Str × Json N)} {v : Json N} (hmem : (bucketsName, v) ∈ m) (h : BucketsPanic nums v) :
    AggPanics nums m

inductive BucketsPanic (nums : Json.Numbers N) : Json N → Prop where
  | map {bs : List (Str × Json N)} {bk : Str} {b : Json N} (hmem : (bk, b) ∈ bs) (h : BucketPanics nums b) :
    BucketsPanic nums (.obj bs)
  | list {bs front rest : List (Json N)} {b : Json N} (hbs : bs = front ++ b :: rest)
    (hfront : ∀ b' ∈ front, BucketFits nums b') (h : BucketPanics nums b) : BucketsPanic nums (.arr bs)
  | key {bs front rest : List (Json N)} {b : Json N} (hbs : bs = front ++ b :: rest)
    (hfront : ∀ b' ∈ front, BucketFits nums b') (hkey : KeyUnhashable nums b) : BucketsPanic nums (.arr bs)

inductive BucketPanics (nums : Json.Numbers N) : Json N → Prop where
  | sub {m m' : List (Str × Json N)} {k : Str} (hdoc : docCountOk nums m) (hmem : (k, .obj m') ∈ m)
    (hdoc' : docCountOk nums m') (h : AggPanics nums m') : BucketPanics nums (.obj m)
end

variable {bs : List (Json N)}

theorem not_safe_bucketsOfList {acc : List (BucketKey N × BucketResponse N)} :
    ¬ Safe (bucketsOfList order nums bs acc) ↔
      Hits (BucketFits nums) (fun b => ¬ Safe (bucketOf order nums b) ∨ KeyUnhashable nums b) bs := by
  have hany (b : Json N) (bucket) : bucketOf order nums b = .ok bucket ↔ bucketOf .asListed nums b = .ok bucket :=
    (steady_decode b).2.2.eq_ok_iff order .asListed
  rw [bucketsOfList_eq]
  apply not_safe_foldlM
  · intro buckets b
    unfold addBucket BucketFits
    simp only [exists_bind_eq_ok, hany]
    refine exists_congr fun bucket => and_congr_right fun _ => ?_
    cases bucketKey bucket.1 <;> simp
  · intro buckets b
    unfold addBucket KeyUnhashable
    rw [safe_bind, not_and_or, not_forall]
    simp only [hany, not_forall]
    refine or_congr_right (exists_congr fun bucket => ?_)
    cases bucketKey bucket.1 <;> simp

def ValuePanics (nums : Json.Numbers N) (c : Json N) : Prop := ∃ m, c = .obj m ∧ docCountOk nums m ∧ AggPanics nums m

theorem aggPanics_iff : AggPanics nums m ↔
      ∃ e ∈ m, (e.1 = bucketsName ∧ BucketsPanic nums e.2) ∨ (IsSub (isOther m) e ∧ ValuePanics nums e.2) := by
  constructor
  · rintro (⟨hmem, hsub, hdoc, h⟩ | ⟨hmem, h⟩)
    · exact ⟨_, hmem, .inr ⟨hsub, _, rfl, hdoc, h⟩⟩
    · exact ⟨_, hmem, .inl ⟨rfl, h⟩⟩
  · rintro ⟨⟨k, v⟩, hmem, ⟨rfl, h⟩ | ⟨hsub, m', rfl, hdoc, h⟩⟩
    · exact .buckets hmem h
    · exact .sub hmem hsub hdoc h

theorem panicsIff_memberOf (hagg : PanicsIff (fun order => aggregationOf order nums e.2) (ValuePanics nums e.2))
    (hb : PanicsIff (fun order => bucketsOf order nums e.2) (BucketsPanic nums e.2)) :
    PanicsIff (fun order => memberOf order nums other e)
      ((e.1 = bucketsName ∧ BucketsPanic nums e.2) ∨ (IsSub other e ∧ ValuePanics nums e.2)) := by
  rcases memberOf_cases nums other e with ⟨hn, heq⟩ | ⟨hsub, heq⟩ | ⟨⟨hn, hsub⟩, r, heq⟩
  · simp only [heq]
    refine (hb.map _).congr ?_
    simp only [hn, true_and, or_iff_left_iff_imp]
    exact fun h => absurd hn h.1.notBuckets
  · simp only [heq]
    refine (hagg.map _).congr ?_
    simp [hsub.notBuckets, hsub]
  · simp only [heq]
    exact .of_safe (fun _ => safe_ok r) (by simp [hn, hsub])

theorem panicsIff_aggregationFrom {value values : Json N}
    (h : ∀ e ∈ m, PanicsIff (fun order => aggregationOf order nums e.2) (ValuePanics nums e.2) ∧
      PanicsIff (fun order => bucketsOf order nums e.2) (BucketsPanic nums e.2)) :
    PanicsIff (fun order => aggregationFrom order docCount value values (membersOf order nums (isOther m) m))
      (docCount ≠ none ∧ AggPanics nums m) := by
  cases docCount with
  | none => exact .of_safe (fun _ => safe_error ()) (by simp)
  | some docCount =>
    simp only [aggregationFrom, membersOf_eq]
    refine ((PanicsIff.range fun e he => panicsIff_memberOf (h e he).1 (h e he).2).map _).congr ?_
    simp [aggPanics_iff]

theorem panicsIff_bucketsOf_arr
    (ih : ∀ b ∈ bs, PanicsIff (fun order => bucketOf order nums b) (BucketPanics nums b)) :
    PanicsIff (fun order => bucketsOf order nums (.arr bs)) (BucketsPanic nums (.arr bs)) := by
  constructor
  · intro h
    rw [bucketsOf, not_safe_bucketsOfList, hits_iff]
    cases h with
    | list hbs hf h => exact ⟨_, _, _, hbs, hf, .inl ((ih _ (by simp [hbs])).panics h)⟩
    | key hbs hf hkey => exact ⟨_, _, _, hbs, hf, .inr hkey⟩
  · intro h order
    rw [bucketsOf]
    by_contra hp
    obtain ⟨front, b, rest, hbs, hf, hb | hkey⟩ := hits_iff.mp (not_safe_bucketsOfList.mp hp)
    · exact hb ((ih b (by simp [hbs])).safe (fun hb' => h (.list hbs hf hb')) order)
    · exact h (.key hbs hf hkey)

theorem panicsIff_bucketsOf_obj {bs : List (Str × Json N)}
    (ih : ∀ e ∈ bs, PanicsIff (fun order => bucketOf order nums e.2) (BucketPanics nums e.2)) :
    PanicsIff (fun order => bucketsOf order nums (.obj bs)) (BucketsPanic nums (.obj bs)) := by
  simp only [bucketsOf, bucketsOfMap_eq]
  refine (PanicsIff.range fun e he => (ih e he).map _).congr ?_
  constructor
  · rintro ⟨hmem, h⟩
    exact ⟨_, hmem, h⟩
  · rintro ⟨e, hmem, h⟩
    exact .map hmem h

theorem panicsIff_bucketOf_obj
    (ih : ∀ e ∈ m, PanicsIff (fun order => aggregationOf order nums e.2) (ValuePanics nums e.2)) :
    PanicsIff (fun order => bucketOf order nums (.obj m)) (BucketPanics nums (.obj m)) := by
  simp only [bucketOf]
  cases hdoc : Json.int64Field nums docCountName m with
  | none =>
    refine .of_safe (fun _ => safe_error ()) ?_
    rintro ⟨hdoc', -⟩
    exact hdoc' hdoc
  | some docCount =>
    simp only [subAggregationsOf_eq]
    refine ((PanicsIff.range fun e he => (ih e (mem_filter.mp he).1).map _).map _).congr ?_
    constructor
    · rintro ⟨-, hmem, hdoc', h⟩
      exact ⟨_, mem_filter.mpr ⟨hmem, rfl⟩, _, rfl, hdoc', h⟩
    · rintro ⟨⟨k, v⟩, hmem, m', rfl, hdoc', h⟩
      exact .sub (by simp [docCountOk, hdoc]) (mem_filter.mp hmem).1 hdoc' h

theorem panicsIff_decode : PanicsIff (fun order => aggregationOf order nums c) (ValuePanics nums c) ∧
    PanicsIff (fun order => bucketsOf order nums c) (BucketsPanic nums c) ∧
    PanicsIff (fun order => bucketOf order nums c) (BucketPanics nums c) := by
  induction c using Json.induct with
  | null | bool | num | str =>
    refine ⟨.of_safe (by simp [aggregationOf]) (by simp [ValuePanics]), .of_safe (by simp [bucketsOf]) ?_,
      .of_safe (by simp [bucketOf]) ?_⟩
    · rintro ⟨⟩
    · rintro ⟨⟩
  | arr js ih =>
    refine ⟨.of_safe (by simp [aggregationOf]) (by simp [ValuePanics]),
      panicsIff_bucketsOf_arr fun b hb => (ih b hb).2.2, .of_safe (by simp [bucketOf]) ?_⟩
    rintro ⟨⟩
  | obj es ih =>
    refine ⟨?_, panicsIff_bucketsOf_obj fun e he => (ih e he).2.2, panicsIff_bucketOf_obj fun e he => (ih e he).1⟩
    simp only [aggregationOf]
    refine (panicsIff_aggregationFrom fun e he => ⟨(ih e he).1, (ih e he).2.1⟩).congr ?_
    simp [ValuePanics, docCountOk]

/-! ## The whole response -/

def TextPanics (nums : Json.Numbers N) (j : Json N) : Prop :=
  ∃ es m, j = .obj es ∧ Json.toInterface nums (.obj es) = some (.obj m) ∧ docCountOk nums es ∧ AggPanics nums m

def TextDecodes (nums : Json.Numbers N) (j : Json N) : Prop :=
  j = .null ∨ ∃ agg, unmarshalAggregation .asListed nums j = .ok agg

def IsAggregations (e : Str × Json N) (aggs : List (Str × Json N)) : Prop :=
  e.1.map Json.foldRune = aggregationsName.map Json.foldRune ∧ e.2 = .obj aggs

def MemberDecodes (nums : Json.Numbers N) (e : Str × Json N) : Prop :=
  ∀ aggs, IsAggregations e aggs → ∀ agg ∈ aggs, TextDecodes nums agg.2

def MemberPanics (nums : Json.Numbers N) (e : Str × Json N) : Prop :=
  ∃ aggs, IsAggregations e aggs ∧ Hits (fun agg => TextDecodes nums agg.2) (fun agg => TextPanics nums agg.2) aggs

def ResponsePanics (nums : Json.Numbers N) (j : Json N) : Prop :=
  ∃ es, j = .obj es ∧ Hits (MemberDecodes nums) (MemberPanics nums) es

variable (j : Json N)

theorem panicsIff_unmarshalAggregation :
    PanicsIff (fun order => unmarshalAggregation order nums j) (TextPanics nums j) := by
  cases j with
  | obj es =>
    simp only [unmarshalAggregation]
    cases hm : Json.toInterface nums (.obj es) with
    | none => exact .of_safe (fun _ => safe_error ()) (by simp [TextPanics, hm])
    | some c =>
      cases c with
      | obj m =>
        refine (panicsIff_aggregationFrom fun e _ => ⟨(panicsIff_decode e.2).1, (panicsIff_decode e.2).2.1⟩).congr ?_
        simp [TextPanics, hm, docCountOk]
      | null | bool | num | str | arr => exact .of_safe (fun _ => safe_error ()) (by simp [TextPanics, hm])
  | null | bool | num | str | arr => exact .of_safe (fun _ => safe_error ()) (by simp [TextPanics])

theorem steady_unmarshalAggregation : Steady (unmarshalAggregation · nums j) := by
  unfold unmarshalAggregation
  split
  · split
    · exact steady_aggregationFrom fun e _ => ⟨(steady_decode e.2).1, (steady_decode e.2).2.1⟩
    · exact .const _
  · exact .const _

theorem exists_addAggregation_eq_ok (aggs : List (Str × Option (AggregationResponse N))) (e : Str × Json N) :
    (∃ aggs', addAggregation order nums aggs e = .ok aggs') ↔ TextDecodes nums e.2 := by
  have hany : (∃ agg, unmarshalAggregation order nums e.2 = .ok agg) ↔
      ∃ agg, unmarshalAggregation .asListed nums e.2 = .ok agg :=
    exists_congr fun _ => (steady_unmarshalAggregation e.2).eq_ok_iff order .asListed
  unfold addAggregation TextDecodes
  rw [← hany]
  cases e.2 <;> simp [map_eq_ok]

theorem not_safe_addAggregation (aggs : List (Str × Option (AggregationResponse N))) (e : Str × Json N) :
    ¬ Safe (addAggregation order nums aggs e) ↔ ¬ Safe (unmarshalAggregation order nums e.2) := by
  unfold addAggregation
  cases e.2 <;> simp [unmarshalAggregation]

theorem addMember_cases (nums : Json.Numbers N) (s : List (Str × Option (AggregationResponse N)) × Bool)
    (e : Str × Json N) :
    (∃ aggs, IsAggregations e aggs ∧ ∀ order, addMember order nums s e =
      (aggs.foldlM (addAggregation order nums) s.1).map fun aggs => (aggs, s.2)) ∨
    (¬ ∃ aggs, IsAggregations e aggs) ∧ ∃ s', ∀ order, addMember order nums s e = .ok s' := by
  unfold addMember IsAggregations
  by_cases hn : e.1.map Json.foldRune = aggregationsName.map Json.foldRune
  · simp only [hn, if_true, true_and]
    cases e.2 with
    | obj aggs => exact .inl ⟨aggs, rfl, fun _ => rfl⟩
    | null | bool | num | str | arr => exact .inr ⟨by simp, _, fun _ => rfl⟩
  · simp only [hn, if_false, false_and]
    exact .inr ⟨by simp, s, fun _ => rfl⟩

omit [DecidableEq N] in
theorem IsAggregations.eq {aggs aggs' : List (Str × Json N)} (h : IsAggregations e aggs)
    (h' : IsAggregations e aggs') : aggs' = aggs := by
  have heq := h'.2
  rw [h.2] at heq
  cases heq
  rfl

variable (s : List (Str × Option (AggregationResponse N)) × Bool)

theorem exists_addMember_eq_ok (e : Str × Json N) :
    (∃ s', addMember order nums s e = .ok s') ↔ MemberDecodes nums e := by
  have hl (aggs : List (Str × Json N)) : (∃ t, aggs.foldlM (addAggregation order nums) s.1 = .ok t) ↔
      ∀ agg ∈ aggs, TextDecodes nums agg.2 :=
    exists_foldlM_eq_ok exists_addAggregation_eq_ok
  rcases addMember_cases nums s e with ⟨aggs, ha, heq⟩ | ⟨hn, s', heq⟩
  · simp only [heq, map_eq_ok]
    constructor
    · rintro ⟨-, t, ht, -⟩ aggs' ha'
      rw [ha.eq ha']
      exact (hl aggs).mp ⟨t, ht⟩
    · intro h
      obtain ⟨t, ht⟩ := (hl aggs).mpr (h aggs ha)
      exact ⟨_, t, ht, rfl⟩
  · simp only [heq]
    exact ⟨fun _ aggs ha => absurd ⟨aggs, ha⟩ hn, fun _ => ⟨s', rfl⟩⟩

theorem not_safe_addMember (e : Str × Json N) :
    ¬ Safe (addMember order nums s e) ↔ ∃ aggs, IsAggregations e aggs ∧ Hits (fun agg => TextDecodes nums agg.2)
      (fun agg => ¬ Safe (unmarshalAggregation order nums agg.2)) aggs := by
  have hl (aggs : List (Str × Json N)) : ¬ Safe (aggs.foldlM (addAggregation order nums) s.1) ↔
      Hits (fun agg => TextDecodes nums agg.2) (fun agg => ¬ Safe (unmarshalAggregation order nums agg.2)) aggs :=
    not_safe_foldlM exists_addAggregation_eq_ok not_safe_addAggregation
  rcases addMember_cases nums s e with ⟨aggs, ha, heq⟩ | ⟨hn, s', heq⟩
  · rw [heq, safe_map, hl]
    constructor
    · exact fun h => ⟨aggs, ha, h⟩
    · rintro ⟨aggs', ha', h⟩
      rwa [ha.eq ha'] at h
  · rw [heq]
    simp only [safe_ok, not_true_eq_false, false_iff]
    rintro ⟨aggs, ha, -⟩
    exact hn ⟨aggs, ha⟩

theorem not_safe_unmarshalResponse {es : List (Str × Json N)} :
    ¬ Safe (unmarshalResponse order nums (.obj es)) ↔ Hits (MemberDecodes nums)
      (fun e => ∃ aggs, IsAggregations e aggs ∧ Hits (fun agg => TextDecodes nums agg.2)
        (fun agg => ¬ Safe (unmarshalAggregation order nums agg.2)) aggs) es := by
  rw [← not_safe_foldlM exists_addMember_eq_ok not_safe_addMember (s := ([], true)), unmarshalResponse, safe_bind]
  refine not_congr (and_iff_left fun s _ => ?_)
  split <;> simp

theorem panicsIff_unmarshalResponse :
    PanicsIff (fun order => unmarshalResponse order nums j) (ResponsePanics nums j) := by
  cases j with
  | obj es =>
    constructor
    · rintro ⟨es', hes, h⟩
      cases hes
      rw [not_safe_unmarshalResponse]
      refine h.mono ?_
      rintro e - ⟨aggs, ha, h⟩
      exact ⟨aggs, ha, h.mono fun agg _ hp => (panicsIff_unmarshalAggregation agg.2).panics hp⟩
    · intro h order
      by_contra hp
      refine h ⟨es, rfl, (not_safe_unmarshalResponse.mp hp).mono ?_⟩
      rintro e - ⟨aggs, ha, h⟩
      refine ⟨aggs, ha, h.mono fun agg _ hs => ?_⟩
      by_contra hnot
      exact hs ((panicsIff_unmarshalAggregation agg.2).safe hnot order)
  | null | bool | num | str | arr =>
    exact .of_safe (by simp [unmarshalResponse]) (by simp [ResponsePanics])

variable {aggs : List (Str × Option (AggregationResponse N))}

theorem steady_addAggregation (aggs : List (Str × Option (AggregationResponse N))) (e : Str × Json N) :
    Steady (addAggregation · nums aggs e) := by
  unfold addAggregation
  split
  · exact .const _
  · exact (steady_unmarshalAggregation _).map _

theorem steady_unmarshalResponse : Steady (unmarshalResponse · nums j) := by
  cases j with
  | obj es =>
    refine (Steady.foldlM fun e _ s => ?_).bind _
    rcases addMember_cases nums s e with ⟨aggs, -, heq⟩ | ⟨-, s', heq⟩ <;> simp only [heq]
    · exact (Steady.foldlM fun e _ aggs => steady_addAggregation aggs e).map _
    · exact .const _
  | null | bool | num | str | arr => exact .const _

theorem not_responsePanics_of_ok {j : Json N}
    (h : unmarshalResponse .asListed nums j = .ok aggs) : ¬ ResponsePanics nums j := by
  rw [← (panicsIff_unmarshalResponse j).forall_safe]
  intro order
  have ha : unmarshalResponse order nums j = .ok aggs := steady_unmarshalResponse j .asListed order aggs h
  rw [ha]
  exact safe_ok aggs

end

end Collector.Elasticsearch
