import Collector.ConfigConverter.DeprecatedKeys
import Collector.ConfigConverter.LogLevel

/-!
# The detectors for Google Cloud

The detectors `gce` and `gke` became `gcp`. A `gcp` that is already in the list is not noticed.
-/

namespace Collector.ConfigConverter.NormalizeGcp

open Lib Lib.Regex Confmap

variable (found : Bool) {v v' : Value} (vs : List Value) (k : Str)

def gce : Str := "gce"

def gke : Str := "gke"

def gcp : Str := "gcp"

def resourcedetection : Str := "resourcedetection"

def detectors : Str := "detectors"

/-- What `convert` gives, for any order of the entries that it collects in a map. -/
def Converts (conf conf' : Fields) : Prop :=
  ∃ out : Fields, out.Perm (rewriteKeys rule conf) ∧ conf' = merge conf (newFromStringMap out)

/-! ## The list -/

def isText (s : Str) : Value → Bool
  | .str t => t = s
  | _ => false

def isGoogle (v : Value) : Bool := isText gce v || isText gke v || isText gcp v

def isOld (v : Value) : Bool := isText gce v || isText gke v

def isNull : Value → Bool
  | .null => true
  | _ => false

structure Normalised (vs vs' : List Value) : Prop where
  old : ∀ v ∈ vs', isOld v = false
  gcp : vs'.countP (isText gcp) = if vs.any isGoogle then 1 else 0
  others : (vs'.filter fun v => !isText NormalizeGcp.gcp v) = vs.filter fun v => !isGoogle v && !isNull v

def added (found : Bool) (v : Value) : List Value :=
  if isOld v then (if found then [] else [.str gcp]) else if isNull v then [] else [v]

theorem normalize_cons (v : Value) (vs : List Value) :
    normalize found (v :: vs) = added found v ++ normalize (found || isOld v) vs := by
  cases v with
  | str item =>
    have hold : isOld (.str item) = decide (item = gce ∨ item = gke) := by simp [isOld, isText]
    rw [added, hold]
    by_cases hi : item = gce ∨ item = gke
    · rw [decide_eq_true hi, Bool.or_true]
      cases found with
      | true => exact if_pos hi
      | false => exact if_pos hi
    · rw [decide_eq_false hi, Bool.or_false]
      exact if_neg hi
  | null => cases found <;> rfl
  | _ => cases found <;> rfl

variable {w : Value}

theorem mem_added {found : Bool} (hw : w ∈ added found v) : isOld w = false ∧ isNull w = false := by
  unfold added at hw
  split_ifs at hw with hold hf hn
  · cases hw
  · rw [List.mem_singleton.mp hw]
    exact ⟨by decide, rfl⟩
  · cases hw
  · rw [List.mem_singleton.mp hw]
    exact ⟨by simpa using hold, by simpa using hn⟩

theorem mem_normalize {found : Bool} {vs : List Value} (hw : w ∈ normalize found vs) :
    isOld w = false ∧ isNull w = false := by
  induction vs generalizing found with
  | nil => cases hw
  | cons v vs ih =>
    rw [normalize_cons] at hw
    rcases List.mem_append.mp hw with hw | hw
    · exact mem_added hw
    · exact ih hw

theorem gcp_of_isOld (h : isOld v = true) : isText gcp v = false := by
  cases v with
  | str s =>
    simp only [isOld, isText, Bool.or_eq_true, decide_eq_true_eq] at h
    rcases h with rfl | rfl <;> decide
  | _ => cases h

theorem countP_normalize (vs : List Value) :
    (normalize found vs).countP (isText gcp) =
      vs.countP (isText gcp) + if !found && vs.any isOld then 1 else 0 := by
  induction vs generalizing found with
  | nil => simp [normalize]
  | cons v vs ih =>
    rw [normalize_cons, List.countP_append, ih, List.countP_cons, List.any_cons]
    unfold added
    cases hold : isOld v with
    | true =>
      have hgcp : isText gcp (.str gcp) = true := by decide
      cases found <;> simp [gcp_of_isOld hold, hgcp, Nat.add_comm]
    | false =>
      cases hn : isNull v with
      | true =>
        have hgcp : isText gcp v = false := by
          cases v with
          | null => rfl
          | _ => cases hn
        simp [hgcp]
      | false =>
        simp only [List.countP_cons, List.countP_nil, Bool.false_eq_true, if_false, Bool.or_false, Bool.false_or]
        omega

theorem others_normalize (vs : List Value) :
    ((normalize found vs).filter fun v => !isText gcp v) = vs.filter fun v => !isGoogle v && !isNull v := by
  induction vs generalizing found with
  | nil => rfl
  | cons v vs ih =>
    have hgo : isGoogle v = (isOld v || isText gcp v) := rfl
    rw [normalize_cons, List.filter_append, ih, List.filter_cons, hgo]
    unfold added
    cases hold : isOld v with
    | true =>
      have hgcp : isText gcp (.str gcp) = true := by decide
      cases found <;> simp [hgcp]
    | false => cases hn : isNull v <;> cases hg : isText gcp v <;> simp [hg]

def GcpOnce (vs : List Value) : Prop :=
  vs.countP (isText gcp) ≤ 1 ∧ (vs.any (isText gcp) = true → vs.any isOld = false)

instance (vs : List Value) : Decidable (GcpOnce vs) := inferInstanceAs (Decidable (_ ∧ _))

theorem normalised_iff : Normalised vs (normalize false vs) ↔ GcpOnce vs := by
  have hany : vs.any isGoogle = (vs.any isOld || vs.any (isText gcp)) := by
    rw [Bool.eq_iff_iff]
    simp only [List.any_eq_true, Bool.or_eq_true, isGoogle, isOld, and_or_left, exists_or]
  have hpos : vs.any (isText gcp) = true ↔ 0 < vs.countP (isText gcp) := by
    rw [List.countP_pos_iff, List.any_eq_true]
  have hc := countP_normalize false vs
  constructor
  · intro h
    have hgcp := h.gcp
    rw [hc, hany] at hgcp
    refine ⟨?_, fun hs => ?_⟩
    · calc vs.countP (isText gcp) ≤ _ := Nat.le_add_right _ _
        _ = _ := hgcp
        _ ≤ 1 := by split <;> omega
    · rw [hpos] at hs
      by_contra hold
      rw [Bool.not_eq_false] at hold
      rw [if_pos (by simp [hold]), if_pos (by simp [hold])] at hgcp
      omega
  · rintro ⟨hle, hnot⟩
    refine ⟨?_, ?_, ?_⟩
    · exact fun v hv => (mem_normalize hv).1
    · rw [hc, hany]
      cases hgcp : vs.any (isText gcp) with
      | true =>
        rw [hnot hgcp]
        rw [hpos] at hgcp
        simp
        omega
      | false =>
        have hz : vs.countP (isText gcp) = 0 := by
          by_contra hne
          rw [hpos.mpr (Nat.pos_of_ne_zero hne)] at hgcp
          cases hgcp
        simp [hz]
    · exact others_normalize false vs

theorem normalize_self {vs : List Value} (hold : ∀ v ∈ vs, isOld v = false)
    (hn : ∀ v ∈ vs, isNull v = false) : normalize found vs = vs := by
  induction vs generalizing found with
  | nil => rfl
  | cons v vs ih =>
    rw [List.forall_mem_cons] at hold hn
    rw [normalize_cons, added, hold.1, hn.1, ih _ hold.2 hn.2]
    rfl

theorem normalize_normalize : normalize false (normalize false vs) = normalize false vs :=
  normalize_self _ (fun _ hv => (mem_normalize hv).1) fun _ hv => (mem_normalize hv).2

/-! ## The key -/

def nameChar : Pattern Char := alt (one (· != ':')) (seq (lit [':']) (one (· != ':')))

theorem mem_times_nameChar (name rest : Str) (hne : name ≠ []) (hno : NoDouble ':' name)
    (hl : name.getLast? ≠ some ':') (n : Nat) (hn : name.length ≤ n) :
    ⟨name, [], rest⟩ ∈ times nameChar n (name ++ rest) := by
  induction n generalizing name with
  | zero =>
    have hnil := List.length_eq_zero_iff.mp (Nat.le_zero.mp hn)
    exact absurd hnil hne
  | succ n ih =>
    -- The tail is empty, or it is a name again.
    have hta (t : Str) (hno : NoDouble ':' t) (hl : t ≠ [] → t.getLast? ≠ some ':') (ht : t.length ≤ n) :
        ⟨t, [], rest⟩ ∈ opt (times nameChar n) (t ++ rest) := by
      rw [mem_opt]
      by_cases hnil : t = []
      · exact .inr (by simp [hnil])
      · exact .inl (ih t hnil hno (hl hnil) ht)
    rw [times, mem_seq]
    cases name with
    | nil => exact absurd rfl hne
    | cons c t =>
      rw [List.length_cons] at hn
      by_cases hc : c = ':'
      · subst hc
        cases t with
        | nil => exact absurd rfl hl
        | cons d t =>
          have hd : d ≠ ':' := fun hd => hno.1 ⟨rfl, hd⟩
          have hno' : NoDouble ':' t := by
            cases t with
            | nil => trivial
            | cons e t => exact hno.2.2
          rw [List.length_cons] at hn
          refine ⟨[':', d], [], t ++ rest, t, [], ?_, hta t hno' (fun hne => ?_) (by omega), rfl, rfl⟩
          · refine List.mem_append_right _ (mem_seq.mpr ⟨[':'], [], d :: (t ++ rest), [d], [], ?_, ?_, rfl, rfl⟩)
            · exact mem_lit.mpr ⟨rfl, rfl, rfl⟩
            · exact mem_one (by simpa using hd) _
          · obtain ⟨e, t, rfl⟩ := List.exists_cons_of_ne_nil hne
            simpa using hl
      · have hno' : NoDouble ':' t := by
          cases t with
          | nil => trivial
          | cons e t => exact hno.2
        refine ⟨[c], [], t ++ rest, t, [], ?_, hta t hno' (fun hne => ?_) (by omega), rfl, rfl⟩
        · exact List.mem_append_left _ (mem_one (by simpa using hc) _)
        · obtain ⟨e, t, rfl⟩ := List.exists_cons_of_ne_nil hne
          simpa using hl

def IsDetection (proc : Str) : Prop :=
  proc = resourcedetection ∨ ∃ name, name ≠ [] ∧ proc = resourcedetection ++ '/' :: name

def detectorsPath (proc : Str) : List Str := [processors, proc, detectors]

theorem search_detectors {proc : Str} (hp : IsDetection proc) (hno : NoDouble ':' proc)
    (hl : proc.getLast? ≠ some ':') :
    (search resourceDetectorRE (joinKey (detectorsPath proc))).isSome = true := by
  have hend : ⟨':' :: ':' :: detectors, [], []⟩ ∈ lit (':' :: ':' :: detectors) (':' :: ':' :: detectors) :=
    mem_lit.mpr ⟨rfl, rfl, by simp⟩
  suffices ∃ m, m ∈ resourceDetectorRE (joinKey (detectorsPath proc)) by
    obtain ⟨m, hm⟩ := this
    exact exists_mem_of_search.mpr ⟨[], _, m, rfl, hm⟩
  rcases hp with rfl | ⟨name, hne, rfl⟩
  · have hn : ⟨[], [], ':' :: ':' :: detectors⟩ ∈
        opt (group 1 (seq (lit ['/']) (some1 nameChar))) (':' :: ':' :: detectors) := mem_opt.mpr (.inr rfl)
    have ht := mem_seq.mpr ⟨_, _, _, _, _, hn, hend, rfl, rfl⟩
    exact ⟨_, mem_seq_lit _ ht⟩
  · have hno' : NoDouble ':' name := by
      have hs : resourcedetection ++ '/' :: name = (resourcedetection ++ ['/']) ++ name := by simp
      rw [hs] at hno
      exact hno.of_append
    have hl' : name.getLast? ≠ some ':' := by
      obtain ⟨c, t, rfl⟩ := List.exists_cons_of_ne_nil hne
      simpa using hl
    have hna : ⟨name, [], ':' :: ':' :: detectors⟩ ∈ some1 nameChar (name ++ ':' :: ':' :: detectors) :=
      mem_times_nameChar name _ hne hno' hl' _ (by simp)
    have hg : ⟨'/' :: name, [(1, '/' :: name)], ':' :: ':' :: detectors⟩ ∈
        group 1 (seq (lit ['/']) (some1 nameChar)) (['/'] ++ (name ++ ':' :: ':' :: detectors)) :=
      mem_group.mpr ⟨[], mem_seq_lit ['/'] hna, rfl⟩
    have ht := mem_seq.mpr ⟨_, _, _, _, _, mem_opt.mpr (.inl hg), hend, rfl, rfl⟩
    have hj : joinKey (detectorsPath (resourcedetection ++ '/' :: name)) =
        (processors ++ ':' :: ':' :: resourcedetection) ++ (['/'] ++ (name ++ ':' :: ':' :: detectors)) := by
      simp [detectorsPath, joinKey, joinDouble]
    rw [hj]
    exact ⟨_, mem_seq_lit _ ht⟩

/-! ## The leaves -/

theorem rule_list (vs : List Value) :
    rule k (.list vs) =
      if (search resourceDetectorRE k).isSome then some (k, .list (normalize false vs)) else none := by
  unfold rule
  cases search resourceDetectorRE k <;> rfl

theorem rule_eq_some {k k' : Str} (h : rule k v = some (k', v')) :
    k' = k ∧ ∃ vs, v = .list vs ∧ v' = .list (normalize false vs) := by
  unfold rule at h
  split at h
  · cases h
    exact ⟨rfl, _, rfl, rfl⟩
  · cases h

def renewed (k : Str) (v : Value) : Value := ((rule k v).map Prod.snd).getD v

section
variable {conf conf' out : Fields} (hconf : Clean conf)
include hconf

theorem leaf_of_mem_out {k : Str} (h : (k, v') ∈ rewriteKeys rule conf) :
    ∃ v, leafAt conf (splitKey k) = some v ∧ rule k v = some (k, v') := by
  obtain ⟨j, v, hl, hr⟩ := mem_rewriteKeys hconf h
  obtain rfl := (rule_eq_some hr).1
  exact ⟨v, hl, hr⟩

theorem prefixFree_out : PrefixFree (rewriteKeys rule conf) := by
  intro e he e' he' hpre
  obtain ⟨v, hl, -⟩ := leaf_of_mem_out hconf he
  obtain ⟨v', hl', -⟩ := leaf_of_mem_out hconf he'
  rw [← joinKey_splitKey e.1, leafAt_front hl hl' hpre, joinKey_splitKey]

theorem find_out {q : List Str} (hl : leafAt conf q = some v) :
    find (joinKey q) (rewriteKeys rule conf) = (rule (joinKey q) v).map Prod.snd := by
  have hs := splitKey_joinKey hconf hl
  cases hr : rule (joinKey q) v with
  | none =>
    rw [Option.map_none, find_none]
    intro hmem
    obtain ⟨⟨_, v'⟩, he, rfl⟩ := List.mem_map.mp hmem
    obtain ⟨w, hw, hr'⟩ := leaf_of_mem_out hconf he
    rw [hs, hl] at hw
    cases hw
    rw [hr] at hr'
    cases hr'
  | some e =>
    obtain ⟨k', v'⟩ := e
    obtain rfl := (rule_eq_some hr).1
    refine find_rewriteKeys hconf (by rw [hs]; exact hl) hr fun j w w' _ hj => ?_
    rw [(rule_eq_some hj).1]

theorem rewriteKeys_list : ∀ e ∈ rewriteKeys rule conf, ∃ vs, e.2 = .list vs := by
  rintro ⟨k, v'⟩ he
  obtain ⟨v, -, hr⟩ := leaf_of_mem_out hconf he
  obtain ⟨-, vs, -, hvs⟩ := rule_eq_some hr
  exact ⟨normalize false vs, hvs⟩

theorem leafAt_converts (h : Converts conf conf') (q : List Str) :
    leafAt conf' q = (leafAt conf q).map (renewed (joinKey q)) := by
  obtain ⟨out, hp, rfl⟩ := h
  have hli (e : Str × Value) (he : e ∈ out) : ∃ vs, e.2 = .list vs :=
    rewriteKeys_list hconf e (hp.mem_iff.mp he)
  have hl (e : Str × Value) (he : e ∈ out) : isNode e.2 = false := by
    obtain ⟨vs, hvs⟩ := hli e he
    rw [hvs]
    rfl
  have hn : (keys out).Nodup := (hp.map Prod.fst).nodup_iff.mpr nodup_keys_rewriteKeys
  have hf : PrefixFree out := fun e he e' he' =>
    prefixFree_out hconf e (hp.mem_iff.mp he) e' (hp.mem_iff.mp he')
  have hnew (q : List Str) (v' : Value) (hq : leafAt (unflatten out) q = some v') :
      (∀ m, v' ≠ .map m) ∧ (leafAt conf q).isSome = true := by
    obtain ⟨k, rfl, hmem⟩ := mem_of_leafAt_unflatten hl hf.longFirst hq
    obtain ⟨vs, rfl⟩ := hli _ hmem
    obtain ⟨v, hv, -⟩ := leaf_of_mem_out hconf (hp.mem_iff.mp hmem)
    refine ⟨fun m hm => ?_, by rw [hv]; rfl⟩
    cases hm
  rw [merge, newFromStringMap, leafAt_mergeInto (clean_unflatten hl) hnew]
  cases hle : leafAt conf q with
  | none =>
    have hno : leafAt (unflatten out) q = none := by
      by_contra hne
      obtain ⟨v', hv'⟩ := Option.ne_none_iff_exists'.mp hne
      have hso := (hnew q v' hv').2
      rw [hle] at hso
      cases hso
    rw [hno]
    rfl
  | some v =>
    have hs := splitKey_joinKey hconf hle
    have hout : leafAt (unflatten out) q = (rule (joinKey q) v).map Prod.snd := by
      rw [← hs, leafAt_unflatten hl hn hf, find_perm hp hn, hs, find_out hconf hle]
    rw [hout, Option.map_some, renewed]
    cases rule (joinKey q) v <;> rfl

theorem clean_converts (h : Converts conf conf') : Clean conf' := by
  obtain ⟨out, hp, rfl⟩ := h
  refine (clean_unflatten fun e he => ?_).mergeInto hconf
  obtain ⟨vs, hvs⟩ := rewriteKeys_list hconf e (hp.mem_iff.mp he)
  rw [hvs]
  rfl

end

theorem renewed_renewed (v : Value) : renewed k (renewed k v) = renewed k v := by
  cases hr : rule k v with
  | none =>
    have hs : renewed k v = v := by simp [renewed, hr]
    rw [hs, hs]
  | some e =>
    obtain ⟨k', v'⟩ := e
    obtain ⟨-, vs, rfl, rfl⟩ := rule_eq_some hr
    have hnew : renewed k (.list vs) = .list (normalize false vs) := by simp [renewed, hr]
    rw [hnew, renewed, rule_list]
    split
    · rw [normalize_normalize]
      rfl
    · rfl

/-- The detectors of the instance are in normal form, and a second pass changes nothing. -/
def NormalisesInstance (conf' : Fields) (proc : Str) (vs : List Value) : Prop :=
  (∃ vs', leafAt conf' (detectorsPath proc) = some (.list vs') ∧ Normalised vs vs') ∧
    ∀ conf'', Converts conf' conf'' → ∀ q, leafAt conf'' q = leafAt conf' q

/-- The detectors end up as one `gcp` and the others just if `gcp` was not there, or was there alone and once. -/
theorem normalisesInstance_iff {conf conf' : Fields} (hconf : Clean conf) (h : Converts conf conf') {proc : Str}
    (hproc : IsDetection proc) {vs : List Value} (hvs : leafAt conf (detectorsPath proc) = some (.list vs)) :
    NormalisesInstance conf' proc vs ↔ GcpOnce vs := by
  have hg := leafAt_good hconf hvs
  have hs := search_detectors hproc hg.2.2.1 hg.2.2.2.1
  have hr : renewed (joinKey (detectorsPath proc)) (.list vs) = .list (normalize false vs) := by
    simp [renewed, rule_list, hs]
  have hl : leafAt conf' (detectorsPath proc) = some (.list (normalize false vs)) := by
    rw [leafAt_converts hconf h, hvs, Option.map_some, hr]
  constructor
  · rintro ⟨⟨vs', hvs', hn⟩, -⟩
    rw [hl] at hvs'
    cases hvs'
    exact (normalised_iff vs).mp hn
  · intro ho
    refine ⟨⟨_, hl, (normalised_iff vs).mpr ho⟩, fun conf'' h' q => ?_⟩
    rw [leafAt_converts (clean_converts hconf h) h', leafAt_converts hconf h, Option.map_map]
    congr 1
    funext v
    exact renewed_renewed _ v

def detecting (vs : List Value) : Fields :=
  [(processors, .map [(resourcedetection, .map [(detectors, .list vs)])])]

theorem clean_detecting : Clean (detecting vs) := clean_of_plain (by rfl)

theorem exists_converts (conf : Fields) : ∃ conf', Converts conf conf' := ⟨_, _, List.Perm.refl _, rfl⟩

theorem normalisesInstance_gke : ∃ conf', Converts (detecting [.str gke, .str gce]) conf' ∧
    NormalisesInstance conf' resourcedetection [.str gke, .str gce] := by
  obtain ⟨conf', h⟩ := exists_converts (detecting [.str gke, .str gce])
  exact ⟨conf', h, (normalisesInstance_iff (clean_detecting _) h (.inl rfl) rfl).mpr (by decide)⟩

/-- `gcp` and `gce` become `gcp` twice. -/
theorem not_normalisesInstance_gcp : ∃ conf', Converts (detecting [.str gcp, .str gce]) conf' ∧
    leafAt conf' (detectorsPath resourcedetection) = some (.list [.str gcp, .str gcp]) ∧
    ¬ NormalisesInstance conf' resourcedetection [.str gcp, .str gce] := by
  obtain ⟨conf', h⟩ := exists_converts (detecting [.str gcp, .str gce])
  have hl : leafAt conf' (detectorsPath resourcedetection) = some (.list [.str gcp, .str gcp]) := by
    have hb : leafAt (detecting [.str gcp, .str gce]) (detectorsPath resourcedetection) =
        some (.list [.str gcp, .str gce]) := by rfl
    rw [leafAt_converts (clean_detecting _) h, hb]
    rfl
  refine ⟨conf', h, hl, ?_⟩
  rintro ⟨⟨vs', hvs', hn⟩, -⟩
  rw [hl] at hvs'
  cases hvs'
  exact absurd hn.gcp (by decide)

end Collector.ConfigConverter.NormalizeGcp
