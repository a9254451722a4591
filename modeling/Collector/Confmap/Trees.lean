import Collector.Confmap.Sections

/-!
# A configuration from its leaves

The tree of a map is the merge of its leaves. What `MergeMaps` leaves has no key with the delimiter.
-/

namespace Collector.Confmap

open Lib MapTree List Function

variable (k : Str) {v : Value} {sub : Fields} {p : List Str} {a : Str}

theorem tree_single (v : Value) : (Value.map [(k, v)]).tree = single k v.tree := by
  rw [tree_map]
  refine congrArg node (funext fun j => ?_)
  rw [fieldsTree, fieldsTree]
  by_cases hj : k = j
  · rw [if_pos hj, if_pos hj.symm]
  · rw [if_neg hj, if_neg (Ne.symm hj)]

def leafTrees (m : Fields) : List (MapTree Str Value) := (flattenFields m).map fun e => path e.1 e.2.tree

theorem leafTrees_isNode {m : Fields} : ∀ t ∈ leafTrees m, ∃ f, t = node f := by
  intro t ht
  obtain ⟨e, he, rfl⟩ := mem_map.mp ht
  obtain ⟨k, p, hp, -⟩ := flattenFields_head e he
  rw [hp, path_cons]
  exact ⟨_, rfl⟩

variable {m : Fields}

theorem leafTrees_ne_nil (h : m ≠ []) : leafTrees m ≠ [] := by
  rw [leafTrees, ne_eq, map_eq_nil_iff]
  exact flattenFields_ne_nil m h

theorem leafTrees_leaf (hv : isNode v = false) (m : Fields) :
    leafTrees ((k, v) :: m) = single k v.tree :: leafTrees m := by
  rw [leafTrees, flattenFields_leaf k v m hv]
  rfl

theorem leafTrees_node (hs : sub ≠ []) (m : Fields) :
    leafTrees ((k, .map sub) :: m) = (leafTrees sub).map (single k) ++ leafTrees m := by
  rw [leafTrees, flattenFields_node k sub m hs, map_append, map_map, leafTrees, leafTrees, map_map]
  rfl

theorem update_fieldsTree {k : Str} (hk : k ∉ keys m) (v : Value) (f : Str → MapTree Str Value) :
    (fun j => if j ∈ keys m then fieldsTree m j else update f k v.tree j) =
      fun j => if j ∈ keys ((k, v) :: m) then fieldsTree ((k, v) :: m) j else f j := by
  funext j
  rw [fieldsTree]
  by_cases hj : j = k
  · subst hj
    have hmem : j ∈ keys ((j, v) :: m) := mem_cons_self
    rw [if_neg hk, if_pos hmem, if_pos rfl, update_self]
  · have hmem : j ∈ Lib.keys ((k, v) :: m) ↔ j ∈ Lib.keys m := by simp [Lib.keys, hj]
    simp [hmem, hj, Ne.symm hj]

theorem node_fieldsTree (m : Fields) :
    (node fun j => if j ∈ keys m then fieldsTree m j else absent) = (Value.map m).tree := by
  rw [tree_map]
  refine congrArg node (funext fun j => ?_)
  split_ifs with hj
  · rfl
  · exact (fieldsTree_of_notMem hj).symm

theorem foldl_merge_leafTrees (hm : Clean m) {f : Str → MapTree Str Value} (hf : ∀ k ∈ keys m, f k = absent) :
    (leafTrees m).foldl MapTree.merge (node f) = node fun k => if k ∈ keys m then fieldsTree m k else f k := by
  have hu : ∀ {k : Str} {v : Value} {m : Fields} {f : Str → MapTree Str Value}, k ∉ keys m →
      (∀ j ∈ keys ((k, v) :: m), f j = absent) → ∀ j ∈ keys m, update f k v.tree j = absent := by
    intro k v m f hk hf j hj
    have hne : j ≠ k := by
      rintro rfl
      exact hk hj
    rw [update_of_ne hne]
    exact hf j (mem_cons_of_mem k hj)
  induction m using fields_induct generalizing f with
  | nil => simp [leafTrees, flattenFields, Lib.keys]
  | leaf k v m hv ih =>
    obtain ⟨hk, -, hr⟩ := clean_cons.mp hm
    rw [leafTrees_leaf k hv, foldl_cons, node_merge_single, hf k mem_cons_self, absent_merge,
      ih hr (hu hk hf), update_fieldsTree hk]
  | node k sub m hs ihs ih =>
    obtain ⟨hk, he, hr⟩ := clean_cons.mp hm
    have hsub : (leafTrees sub).foldl MapTree.merge absent = (Value.map sub).tree := by
      rw [foldl_merge_absent (leafTrees_ne_nil hs) (leafTrees_isNode), ihs he.sub fun _ _ => rfl, node_fieldsTree]
    rw [leafTrees_node k hs, foldl_append, foldl_merge_single, hf k mem_cons_self, hsub,
      ih hr (hu hk hf), update_fieldsTree hk]

theorem tree_eq_foldl_leafTrees (hm : Clean m) (hne : m ≠ []) :
    (leafTrees m).foldl MapTree.merge absent = (Value.map m).tree := by
  rw [foldl_merge_absent (leafTrees_ne_nil hne) (leafTrees_isNode), foldl_merge_leafTrees hm fun _ _ => rfl,
    node_fieldsTree]

theorem flattenFields_insertPath (hp : p ≠ []) (hv : isNode v = false) :
    flattenFields (insertPath p v []) = [(p, v)] := by
  induction p with
  | nil => exact absurd rfl hp
  | cons k p ih =>
    cases p with
    | nil => exact flattenFields_leaf k v [] hv
    | cons k' p =>
      have hsub : flattenFields (insertPath (k' :: p) v []) = [(k' :: p, v)] := ih (by simp)
      have hne : insertPath (k' :: p) v [] ≠ [] := by
        intro hnil
        rw [hnil, flattenFields] at hsub
        cases hsub
      show flattenFields [(k, .map (insertPath (k' :: p) v []))] = _
      rw [flattenFields_node k _ [] hne, hsub]
      rfl

theorem tree_insertPath (hp : GoodParts ':' p) (hv : isNode v = false) :
    (Value.map (insertPath p v [])).tree = path p v.tree := by
  have hpne : p ≠ [] := by
    rintro rfl
    exact hp
  have hf := flattenFields_insertPath hpne hv
  have hne : insertPath p v [] ≠ [] := by
    intro hnil
    rw [hnil, flattenFields] at hf
    cases hf
  rw [← tree_eq_foldl_leafTrees (clean_nil.insertPath hp hv) hne, leafTrees, hf]
  exact absent_merge _

theorem Clean.mergeMaps {dst src : Fields} (hdst : Clean dst) (hsrc : Clean src) : Clean (mergeMaps dst src) := by
  have hm := hsrc.mergeInto hdst
  have hput : ∀ (l dst : Fields), Clean l → Clean dst → Clean (l.foldl (fun dst e => Lib.put e.1 e.2 dst) dst) := by
    intro l
    induction l with
    | nil => exact fun dst _ hdst => hdst
    | cons e l ih =>
      intro dst hl hdst
      obtain ⟨-, he, hr⟩ := clean_cons.mp hl
      exact ih _ hr (hdst.put he)
  rw [Confmap.mergeMaps, newFromStringMap_eq hsrc, newFromStringMap_eq hdst,
    toStringMap_eq hm.nodup hm.distinct hm.good]
  exact hput _ _ hm hdst

/-! ## Keys with the delimiter -/

theorem unflatten_branch {b : Str} {l : Fields} (hl : ∀ e ∈ l, ∃ c r, splitKey e.1 = a :: b :: c :: r) :
    unflatten l = [] ∨ ∃ m, unflatten l = [(a, .map [(b, .map m)])] := by
  induction l using List.reverseRecOn with
  | nil => exact .inl rfl
  | append_singleton l e ih =>
    obtain ⟨c, r, he⟩ := hl e (by simp)
    refine .inr ?_
    rw [unflatten_concat, he]
    rcases ih fun e' he' => hl e' (mem_append_left _ he') with hnil | ⟨m, hm⟩
    · rw [hnil]
      exact ⟨_, rfl⟩
    · rw [hm]
      exact ⟨insertPath (c :: r) e.2 m, by simp [insertPath, find, put]⟩

theorem newFromStringMap_entry (ha : ':' ∉ a) (v : Value) : newFromStringMap [(a, v)] = [(a, v)] := by
  have hs : splitKey a = [a] := splitDouble_of_noDouble (noDouble_of_notMem ha)
  rw [newFromStringMap, unflatten, foldl_cons, hs]
  rfl

theorem mergeMaps_branch (ha : ':' ∉ a) (b : Str) (hsub : sub ≠ []) :
    ∃ c, c <+: b ∧ (mergeMaps [] [(a, .map [(b, .map sub)])] = [] ∨
      ∃ m, mergeMaps [] [(a, .map [(b, .map sub)])] = [(a, .map [(c, .map m)])]) := by
  obtain ⟨c, hc, hs⟩ := exists_splitDouble_head ':' b
  refine ⟨c, hc, ?_⟩
  have hk : ∀ e ∈ flatten [(a, .map [(b, .map sub)])], ∃ c' r, splitKey e.1 = a :: c :: c' :: r := by
    intro e he
    obtain ⟨e', he', rfl⟩ := exists_of_mem_flatten he
    rw [flattenFields_node a _ [] (by simp), flattenFields_node b sub [] hsub] at he'
    obtain ⟨x, hx, rfl⟩ : ∃ x ∈ flattenFields sub, (a :: b :: x.1, x.2) = e' := by
      simpa [flattenFields] using he'
    obtain ⟨k, p, hp, -⟩ := flattenFields_head x hx
    obtain ⟨ps, hps, hcut⟩ := hs (joinKey (k :: p))
    obtain ⟨c', r, rfl⟩ := exists_cons_of_ne_nil hps
    have hkey : splitKey (joinKey (a :: b :: k :: p)) = a :: splitDouble ':' (b ++ ':' :: ':' :: joinKey (k :: p)) :=
      splitDouble_cons ha _
    exact ⟨c', r, by rw [hp, hkey, hcut]⟩
  have hnil : newFromStringMap [] = [] := rfl
  have hi : ∀ v, mergeInto [(a, v)] [] = [(a, v)] := by
    intro v
    cases v <;> rfl
  rw [mergeMaps, newFromStringMap_entry ha, hnil, hi, toStringMap]
  rcases unflatten_branch hk with hn | ⟨m, hm⟩
  · exact .inl (by rw [hn]; rfl)
  · exact .inr ⟨m, by rw [hm]; rfl⟩

end Collector.Confmap
