import Collector.Confmap.Merge

/-!
# The leaves of a configuration

What hangs at a path that ends there, also an empty map. The order of the entries in `maps.Unflatten` is not fixed.
-/

namespace Collector.Confmap

open Lib List Option

variable {m : Fields} {k : Str} {p : List Str} {v w u : Value} {q : List Str} {d : Fields}

def leafOf : List Str → Value → Option Value
  | [], v => if isNode v then none else some v
  | k :: p, .map m => (find k m).bind (leafOf p)
  | _ :: _, _ => none

def leafAt (m : Fields) : List Str → Option Value
  | [] => none
  | k :: p => (find k m).bind (leafOf p)

theorem leafOf_map (m : Fields) (k : Str) (p : List Str) : leafOf (k :: p) (.map m) = leafAt m (k :: p) := by
  rw [leafOf, leafAt]

theorem leafOf_leaf (hv : isNode v = false) (p : List Str) : leafOf p v = if p = [] then some v else none := by
  cases p with
  | nil => simp [leafOf, hv]
  | cons k p =>
    cases v with
    | map m =>
      cases m with
      | nil => simp [leafOf]
      | cons e m => cases hv
    | _ => simp [leafOf]

theorem leafOf_isNode (h : leafOf p v = some w) : isNode w = false := by
  induction p generalizing v with
  | nil =>
    rw [leafOf] at h
    split at h
    · cases h
    · rename_i hv
      cases h
      simpa using hv
  | cons k p ih =>
    cases v with
    | map m =>
      obtain ⟨u, -, hu⟩ := bind_eq_some_iff.mp h
      exact ih hu
    | _ => cases h

theorem leafAt_isNode (h : leafAt m p = some v) : isNode v = false := by
  cases p with
  | nil => cases h
  | cons k p => exact leafOf_isNode ((leafOf_map m k p).trans h)

theorem leafAt_cons (k j : Str) (v : Value) (m : Fields) (p : List Str) :
    leafAt ((k, v) :: m) (j :: p) = if k = j then leafOf p v else leafAt m (j :: p) := by
  rw [leafAt, find]
  split
  · rfl
  · rw [leafAt]

theorem leafOf_front (h : leafOf p v = some w) (h' : leafOf q v = some u) (hpq : p <+: q) : p = q := by
  induction p generalizing q v with
  | nil =>
    rw [leafOf] at h
    split at h
    · cases h
    · rename_i hv
      rw [leafOf_leaf (by simpa using hv)] at h'
      exact (ite_none_right_eq_some.mp h').1.symm
  | cons k p ih =>
    obtain ⟨r, rfl⟩ := hpq
    cases v with
    | map m =>
      rw [leafOf] at h
      obtain ⟨x, hx, hl⟩ := bind_eq_some_iff.mp h
      rw [cons_append, leafOf, hx] at h'
      exact congrArg (k :: ·) (ih hl h' (prefix_append p r))
    | _ => cases h

/-- No leaf is below another. -/
theorem leafAt_front (h : leafAt m p = some w) (h' : leafAt m q = some u) (hpq : p <+: q) : p = q := by
  cases p with
  | nil => cases h
  | cons k p =>
    obtain ⟨r, rfl⟩ := hpq
    rw [← leafOf_map] at h
    rw [cons_append, ← leafOf_map] at h'
    exact leafOf_front h h' (prefix_append (k :: p) r)

/-! ## Leaves and flat keys -/

theorem mem_flattenFields_cons {x : Value} (hk : k ∉ keys m)
    (hx : ∀ q v, (q, v) ∈ flattenValue x ↔ leafOf q x = some v)
    (hm : ∀ p v, (p, v) ∈ flattenFields m ↔ leafAt m p = some v) (p : List Str) (v : Value) :
    (p, v) ∈ flattenFields ((k, x) :: m) ↔ leafAt ((k, x) :: m) p = some v := by
  rw [flattenFields, mem_append, hm]
  cases p with
  | nil => simp [leafAt]
  | cons j p =>
    rw [leafAt_cons]
    by_cases hj : k = j
    · subst hj
      have hn : leafAt m (k :: p) = none := by rw [leafAt, (find_none k m).mpr hk]; rfl
      simp [hn, hx]
    · simp [hj]

theorem mem_flattenFields {m : Fields} (hk : (keys m).Nodup) (hd : DistinctFields m) (p : List Str) (v : Value) :
    (p, v) ∈ flattenFields m ↔ leafAt m p = some v := by
  induction m using fields_induct generalizing p v with
  | nil => cases p <;> simp [flattenFields, leafAt]
  | leaf k w m hw ih =>
    rw [DistinctFields] at hd
    rw [Lib.keys, map_cons, nodup_cons] at hk
    refine mem_flattenFields_cons hk.1 (fun q v => ?_) (ih hk.2 hd.2) p v
    rw [flattenValue_leaf hw, leafOf_leaf hw]
    by_cases hq : q = [] <;> simp [hq, eq_comm]
  | node k sub m hs ihs ih =>
    rw [DistinctFields, DistinctKeys] at hd
    rw [Lib.keys, map_cons, nodup_cons] at hk
    refine mem_flattenFields_cons hk.1 (fun q v => ?_) (ih hk.2 hd.2) p v
    obtain ⟨e, sub, rfl⟩ := exists_cons_of_ne_nil hs
    rw [flattenValue, isEmpty_cons, if_neg Bool.false_ne_true, ihs hd.1.1 hd.1.2]
    cases q with
    | nil => simp [leafAt, leafOf, isNode]
    | cons j q => rw [leafOf_map]

section

variable (hm : Clean m)
include hm

theorem leafAt_good (h : leafAt m p = some v) : GoodParts ':' p :=
  flattenFields_good m hm.good (p, v) ((mem_flattenFields hm.nodup hm.distinct p v).mpr h)

theorem splitKey_joinKey (h : leafAt m p = some v) :
    splitKey (joinKey p) = p := splitDouble_joinDouble (leafAt_good hm h)

omit hm in
theorem joinKey_splitKey (k : Str) : joinKey (splitKey k) = k := joinDouble_splitDouble ':' k

theorem mem_flatten (k : Str) (v : Value) : (k, v) ∈ flatten m ↔ leafAt m (splitKey k) = some v := by
  rw [flatten_eq hm.nodup hm.distinct hm.good, List.mem_map]
  constructor
  · rintro ⟨⟨p, w⟩, he, heq⟩
    cases heq
    have hl := (mem_flattenFields hm.nodup hm.distinct p w).mp he
    rwa [splitKey_joinKey hm hl]
  · intro h
    refine ⟨(splitKey k, v), (mem_flattenFields hm.nodup hm.distinct _ v).mpr h, ?_⟩
    rw [joinKey_splitKey]

theorem find_flatten (k : Str) : find k (flatten m) = leafAt m (splitKey k) := by
  refine ext fun v => ?_
  rw [← mem_flatten hm]
  exact ⟨find_mem k v _, find_of_mem (nodup_keys_flatten m)⟩

theorem mem_allKeys (k : Str) : k ∈ allKeys m ↔ ∃ v, leafAt m (splitKey k) = some v := by
  rw [← find_flatten hm, allKeys, ← not_iff_not, ← find_none]
  simp [eq_none_iff_forall_not_mem]

theorem get_eq (h : leafAt m (splitKey k) = some v) : get m k = v := by
  rw [get, find_flatten hm, h, getD_some]

theorem exists_leafAt (hne : m ≠ []) : ∃ j q v, leafAt m (j :: q) = some v := by
  obtain ⟨⟨q, v⟩, hmem⟩ := exists_mem_of_ne_nil _ (flattenFields_ne_nil m hne)
  have hl := (mem_flattenFields hm.nodup hm.distinct q v).mp hmem
  cases q with
  | nil => cases hl
  | cons j q => exact ⟨j, q, v, hl⟩

end

/-! ## Merges at the leaves -/

theorem leafAt_of_map (h : find k m = some (.map d)) (j : Str) (q : List Str) :
    leafAt m (k :: j :: q) = leafAt d (j :: q) := by
  rw [leafAt, h, bind_some, leafOf_map]

theorem leafAt_single_of_map (h : find k m = some (.map d)) (hd : d ≠ []) : leafAt m [k] = none := by
  obtain ⟨e, d, rfl⟩ := exists_cons_of_ne_nil hd
  rw [leafAt, h]
  rfl

theorem exists_map_of_leafAt {j : Str} (h : (leafAt m (k :: j :: q)).isSome = true) :
    ∃ d, d ≠ [] ∧ find k m = some (.map d) := by
  rw [leafAt] at h
  cases hk : find k m with
  | none => simp [hk] at h
  | some w =>
    rw [hk, bind_some] at h
    cases w with
    | map d =>
      refine ⟨d, ?_, rfl⟩
      rintro rfl
      rw [leafOf_map] at h
      cases h
    | _ => cases h

theorem leafAt_mergeInto {src dst : Fields} (hsrc : Clean src)
    (h : ∀ q v, leafAt src q = some v → (∀ m, v ≠ .map m) ∧ (leafAt dst q).isSome = true) (q : List Str) :
    leafAt (mergeInto src dst) q = (leafAt src q).or (leafAt dst q) := by
  induction q generalizing src dst with
  | nil => rfl
  | cons k p ih =>
    have hme := find_mergeInto k src dst hsrc.nodup
    cases hf : find k src with
    | none =>
      rw [hf, map_none, none_or] at hme
      simp [leafAt, hme, hf]
    | some v =>
      rw [hf, map_some, some_or] at hme
      by_cases hmap : ∃ sub, v = .map sub
      · obtain ⟨sub, rfl⟩ := hmap
        have hsub : Clean sub := (hsrc.find hf).sub
        have hne : sub ≠ [] := by
          rintro rfl
          exact (h [k] (.map []) (by simp [leafAt, hf, leafOf, isNode])).1 [] rfl
        -- The leaf below `k` makes the other one have a map there.
        obtain ⟨j, r, v, hjr⟩ := exists_leafAt hsub hne
        obtain ⟨d, hdne, hd⟩ := exists_map_of_leafAt (h (k :: j :: r) v ((leafAt_of_map hf j r).trans hjr)).2
        rw [hd, mergeValue] at hme
        cases p with
        | nil =>
          rw [leafAt_single_of_map hme (mergeInto_ne_nil hne d), leafAt_single_of_map hf hne,
            leafAt_single_of_map hd hdne]
          rfl
        | cons i p =>
          rw [leafAt_of_map hme, leafAt_of_map hf, leafAt_of_map hd]
          refine ih hsub fun q v hq => ?_
          cases q with
          | nil => cases hq
          | cons i q =>
            rw [← leafAt_of_map hd]
            exact h (k :: i :: q) v ((leafAt_of_map hf i q).trans hq)
      · have hl : ∀ m, v ≠ .map m := fun m hm => hmap ⟨m, hm⟩
        have hv : isNode v = false := by
          cases v with
          | map sub => exact absurd rfl (hl sub)
          | _ => rfl
        have hat : leafAt src [k] = some v := by simp [leafAt, hf, leafOf, hv]
        rw [mergeValue_leaf hl] at hme
        rw [leafAt, hme, leafAt, hf, bind_some, leafOf_leaf hv]
        by_cases hp : p = []
        · simp [hp]
        · obtain ⟨w, hw⟩ := isSome_iff_exists.mp (h [k] v hat).2
          rw [if_neg hp, none_or]
          symm
          rw [eq_none_iff_forall_not_mem]
          exact fun u hu => hp (by simpa using leafAt_front hw hu (prefix_append [k] p))

/-! ## One path is inserted -/

theorem leafAt_put (k j : Str) (v : Value) (m : Fields) (p : List Str) :
    leafAt (put k v m) (j :: p) = if j = k then leafOf p v else leafAt m (j :: p) := by
  rw [leafAt]
  by_cases hj : j = k
  · rw [if_pos hj, hj, find_put_self]
    rfl
  · rw [if_neg hj, find_put_ne _ _ hj, leafAt]

def Open (m : Fields) (p : List Str) : Prop := ∀ q, q <+: p → q ≠ p → leafAt m q = none

theorem isNode_insertPath (p : List Str) (hp : p ≠ []) (v : Value) (m : Fields) :
    isNode (.map (insertPath p v m)) = true := by
  have hput (k : Str) (w : Value) (m : Fields) : isNode (.map (put k w m)) = true := by
    cases m with
    | nil => rfl
    | cons e m =>
      obtain ⟨j, u⟩ := e
      rw [put]
      split <;> rfl
  fun_induction insertPath p v m with
  | case1 => exact absurd rfl hp
  | case2 => exact hput _ _ _
  | case3 => exact hput _ _ _
  | case4 => exact hput _ _ _
  | case5 k k' ks v m w hf hw ih => exact ih (by simp)

theorem leafAt_put_insertPath {sub : Fields} {k' : Str} {ks : List Str}
    (hsub : ∀ j q, leafAt m (k :: j :: q) = leafAt sub (j :: q)) (hk : leafAt m [k] = none)
    (ih : ∀ q, leafAt (insertPath (k' :: ks) v sub) q =
      if q = k' :: ks then some v else if k' :: ks <+: q then none else leafAt sub q) (q : List Str) :
    leafAt (put k (.map (insertPath (k' :: ks) v sub)) m) q =
      if q = k :: k' :: ks then some v else if k :: k' :: ks <+: q then none else leafAt m q := by
  cases q with
  | nil => simp [leafAt]
  | cons j q =>
    rw [leafAt_put]
    by_cases hj : j = k
    · subst hj
      rw [if_pos rfl]
      cases q with
      | nil => simp [leafOf, isNode_insertPath, hk]
      | cons j' q => simp [leafOf_map, ih, hsub, cons_prefix_cons]
    · simp [hj, cons_prefix_cons, Ne.symm hj]

theorem leafAt_insertPath (hv : isNode v = false) (ho : Open m p) (hp : p ≠ []) (q : List Str) :
    leafAt (insertPath p v m) q = if q = p then some v else if p <+: q then none else leafAt m q := by
  fun_induction insertPath p v m generalizing q with
  | case1 => exact absurd rfl hp
  | case2 k v m =>
    cases q with
    | nil => simp [leafAt]
    | cons j q =>
      rw [leafAt_put, leafOf_leaf hv]
      by_cases hj : j = k
      · subst hj
        by_cases hq : q = [] <;> simp [hq, cons_prefix_cons]
      · simp [hj, cons_prefix_cons, Ne.symm hj]
  | case3 k k' ks v m hf ih =>
    refine leafAt_put_insertPath ?_ ?_ (ih hv (fun q _ _ => ?_) (by simp)) q
    · intro j q
      simp [leafAt, hf]
    · simp [leafAt, hf]
    · cases q <;> simp [leafAt]
  | case4 k k' ks v m sub hf ih =>
    have hsub (j : Str) (q : List Str) : leafAt m (k :: j :: q) = leafAt sub (j :: q) := by
      simp [leafAt, hf, leafOf]
    refine leafAt_put_insertPath hsub (ho [k] (by simp) (by simp)) (ih hv (fun q hq hne => ?_) (by simp)) q
    cases q with
    | nil => rfl
    | cons j q =>
      rw [← hsub]
      exact ho (k :: j :: q) (cons_prefix_cons.mpr ⟨rfl, hq⟩) (by simpa using hne)
  | case5 k k' ks v m w hmap hf ih =>
    -- a value that is no map would be a leaf on the way
    have hn : isNode w = false := by
      cases w with
      | map sub => exact (hmap sub rfl).elim
      | _ => rfl
    have hl : leafAt m [k] = some w := by
      rw [leafAt, hf]
      exact leafOf_leaf hn []
    rw [ho [k] (by simp) (by simp)] at hl
    cases hl

theorem cleanEntry_leaf (hk : NoDouble ':' k) (hv : isNode v = false) : CleanEntry k v := by
  refine ⟨hk, fun h => absurd h (by simp [hv]), ?_, ?_⟩
  all_goals
    cases v with
    | map m =>
      cases m with
      | nil => simp [DistinctKeys, GoodKeys, DistinctFields, GoodFields, Lib.keys]
      | cons e m => cases hv
    | _ => simp [DistinctKeys, GoodKeys]

theorem Clean.insertPath (hm : Clean m) (hp : GoodParts ':' p)
    (hv : isNode v = false) : Clean (insertPath p v m) := by
  fun_induction Confmap.insertPath p v m with
  | case1 => exact hm
  | case2 k v m =>
    exact hm.put (cleanEntry_leaf hp hv)
  | case3 k k' ks v m hf ih =>
    exact hm.put (cleanEntry_map hp.1 (fun _ => hp.2.1) (ih clean_nil hp.2.2 hv))
  | case4 k k' ks v m sub hf ih =>
    exact hm.put (cleanEntry_map hp.1 (fun _ => hp.2.1) (ih (hm.find hf).sub hp.2.2 hv))
  | case5 k k' ks v m w hmap hf ih => exact ih hm hp.2.2 hv

/-! ## All entries are inserted -/

section
variable {l : Fields}

theorem unflatten_concat (l : Fields) (e : Str × Value) :
    unflatten (l ++ [e]) = insertPath (splitKey e.1) e.2 (unflatten l) := by
  rw [unflatten, foldl_append]
  rfl

theorem clean_unflatten (hl : ∀ e ∈ l, isNode e.2 = false) : Clean (unflatten l) := by
  induction l using reverseRecOn with
  | nil => exact clean_nil
  | append_singleton l e ih =>
    rw [unflatten_concat]
    exact (ih fun e he => hl e (mem_append_left _ he)).insertPath (splitDouble_good ':' e.1) (hl e (by simp))

def LongFirst (l : Fields) : Prop :=
  l.Pairwise fun e e' => splitKey e.1 <+: splitKey e'.1 → splitKey e.1 = splitKey e'.1

theorem open_unflatten {e : Str × Value} (hlo : LongFirst (l ++ [e]))
    (hl : ∀ p v, leafAt (unflatten l) p = some v → ∃ k, splitKey k = p ∧ (k, v) ∈ l) :
    Open (unflatten l) (splitKey e.1) := by
  intro q hq hne
  by_contra hs
  obtain ⟨v, hv⟩ := ne_none_iff_exists'.mp hs
  obtain ⟨k, rfl, hk⟩ := hl q v hv
  exact hne ((pairwise_append.mp hlo).2.2 (k, v) hk e (by simp) hq)

theorem mem_of_leafAt_unflatten (hl : ∀ e ∈ l, isNode e.2 = false) (hlo : LongFirst l)
    (h : leafAt (unflatten l) p = some v) : ∃ k, splitKey k = p ∧ (k, v) ∈ l := by
  induction l using reverseRecOn generalizing p v with
  | nil => cases p <;> cases h
  | append_singleton l e ih =>
    have ih := fun p v => @ih p v (fun e he => hl e (mem_append_left _ he)) (pairwise_append.mp hlo).1
    rw [unflatten_concat, leafAt_insertPath (hl e (by simp)) (open_unflatten hlo ih)
      (splitDouble_ne_nil ':' e.1)] at h
    split at h
    · rename_i hp
      cases h
      exact ⟨e.1, hp.symm, by simp⟩
    · split at h
      · cases h
      · obtain ⟨k, hk, hmem⟩ := ih p v h
        exact ⟨k, hk, mem_append_left _ hmem⟩

def Covered (l : Fields) (k : Str) : Prop := ∃ e ∈ l, splitKey e.1 <+: splitKey k ∧ e.1 ≠ k

/-- An entry is lost only where another one stands on its path. -/
theorem leafAt_unflatten_longFirst (hl : ∀ e ∈ l, isNode e.2 = false) (hk : (keys l).Nodup) (hlo : LongFirst l)
    (k : Str) : (Covered l k → leafAt (unflatten l) (splitKey k) = none) ∧
      (¬ Covered l k → leafAt (unflatten l) (splitKey k) = find k l) := by
  have hinj {k k' : Str} (h : splitKey k = splitKey k') : k = k' := by
    rw [← joinKey_splitKey k, h, joinKey_splitKey]
  induction l using reverseRecOn with
  | nil =>
    obtain ⟨a, p, hp⟩ := exists_cons_of_ne_nil (splitDouble_ne_nil ':' k)
    rw [splitKey, hp]
    simp [unflatten, leafAt]
  | append_singleton l e ih =>
    have hl' := fun e he => hl e (mem_append_left _ he)
    obtain ⟨hlo', -, hla⟩ := pairwise_append.mp hlo
    have hf : find e.1 (l ++ [e]) = some e.2 := find_of_mem hk (by simp)
    have hf' (hne : e.1 ≠ k) : find k (l ++ [e]) = find k l := find_append_of_ne l hne
    rw [unflatten_concat, leafAt_insertPath (hl e (by simp))
      (open_unflatten hlo fun p v => mem_of_leafAt_unflatten hl' hlo') (splitDouble_ne_nil ':' e.1)]
    by_cases hp : splitKey k = splitKey e.1
    · obtain rfl := hinj hp
      rw [if_pos rfl, hf]
      refine ⟨?_, fun _ => rfl⟩
      rintro ⟨e', he', hpre, hne⟩
      rcases mem_append.mp he' with he' | he'
      · exact absurd (hinj (hla e' he' e (by simp) hpre)) hne
      · exact absurd (congrArg Prod.fst (mem_singleton.mp he')) hne
    · have hne : e.1 ≠ k := fun h => hp (congrArg splitKey h.symm)
      rw [if_neg hp]
      by_cases hpre : splitKey e.1 <+: splitKey k
      · rw [if_pos hpre]
        exact ⟨fun _ => rfl, fun h => absurd ⟨e, by simp, hpre, hne⟩ h⟩
      · have hc : Covered (l ++ [e]) k ↔ Covered l k := by
          simp [Covered, or_and_right, exists_or, hpre]
        rw [if_neg hpre, hf' hne, hc]
        rw [Lib.keys_append, nodup_append] at hk
        exact ih hl' hk.1 hlo'

def PrefixFree (l : Fields) : Prop := ∀ e ∈ l, ∀ e' ∈ l, splitKey e.1 <+: splitKey e'.1 → e.1 = e'.1

theorem PrefixFree.longFirst (h : PrefixFree l) : LongFirst l :=
  pairwise_of_forall_mem_list fun e he e' he' hpre => congrArg splitKey (h e he e' he' hpre)

theorem leafAt_unflatten (hl : ∀ e ∈ l, isNode e.2 = false) (hk : (keys l).Nodup) (hf : PrefixFree l) (k : Str) :
    leafAt (unflatten l) (splitKey k) = find k l := by
  obtain ⟨hlo, hke⟩ := leafAt_unflatten_longFirst hl hk hf.longFirst k
  by_cases hc : Covered l k
  · obtain ⟨e, he, hpre, hne⟩ := id hc
    rw [hlo hc]
    refine ((find_none k l).mpr fun hmem => ?_).symm
    obtain ⟨e', he', rfl⟩ := mem_map.mp hmem
    exact hne (hf e he e' he' hpre)
  · exact hke hc

def longer (e e' : Str × Value) : Bool := decide ((splitKey e'.1).length ≤ (splitKey e.1).length)

theorem exists_longFirst (l : Fields) : ∃ l', l'.Perm l ∧ LongFirst l' := by
  have ht (a b c : Str × Value) (hab : longer a b) (hbc : longer b c) : longer a c := by
    simp only [longer, decide_eq_true_eq] at hab hbc ⊢
    exact hbc.trans hab
  have hto (a b : Str × Value) : longer a b || longer b a := by
    simpa [longer] using le_total _ _
  refine ⟨l.mergeSort longer, mergeSort_perm l _, ?_⟩
  refine (pairwise_mergeSort ht hto l).imp fun {e e'} hlen hpre => ?_
  simp only [longer, decide_eq_true_eq] at hlen
  exact hpre.eq_of_length_le hlen

end

/-! ## Keys without a colon -/

mutual
def plain : Value → Bool
  | .map m => decide (keys m).Nodup && plainFields m
  | _ => true

def plainFields : Fields → Bool
  | [] => true
  | (k, v) :: m => decide (':' ∉ k) && plain v && plainFields m
end

theorem clean_of_plain (h : plain (.map m) = true) : Clean m := by
  rw [plain, Bool.and_eq_true, decide_eq_true_eq] at h
  obtain ⟨hk, hm⟩ := h
  induction m using fields_induct with
  | nil => exact clean_nil
  | leaf k v m hv ih =>
    rw [plainFields, Bool.and_eq_true, Bool.and_eq_true, decide_eq_true_eq] at hm
    rw [Lib.keys, map_cons, nodup_cons] at hk
    exact clean_cons.mpr ⟨hk.1, cleanEntry_leaf (noDouble_of_notMem hm.1.1) hv, ih hk.2 hm.2⟩
  | node k sub m hs ihs ih =>
    rw [plainFields, plain, Bool.and_eq_true, Bool.and_eq_true, Bool.and_eq_true, decide_eq_true_eq,
      decide_eq_true_eq] at hm
    rw [Lib.keys, map_cons, nodup_cons] at hk
    refine clean_cons.mpr ⟨hk.1, cleanEntry_map (noDouble_of_notMem hm.1.1) (fun _ hl => ?_)
      (ihs hm.1.2.1 hm.1.2.2), ih hk.2 hm.2⟩
    exact hm.1.1 (mem_of_getLast? hl)

end Collector.Confmap
