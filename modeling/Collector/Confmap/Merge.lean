import Collector.Confmap.Flatten

/-!
# Merges of maps

On maps without the delimiter in a key, `maps.Merge` and `MergeMaps` are the deep merge of the trees.
-/

namespace Collector.Confmap

open Lib List Function

variable {m : Fields} {v : Value} {k : Str} {src dst : Fields}

theorem fieldsTree_put (k : Str) (v : Value) (m : Fields) :
    fieldsTree (put k v m) = update (fieldsTree m) k v.tree := by
  funext j
  rw [fieldsTree_eq]
  by_cases hj : j = k
  · rw [hj, find_put_self, update_self]
  · rw [find_put_ne _ _ hj, update_of_ne hj, fieldsTree_eq]

theorem fieldsTree_of_notMem {k : Str} {m : Fields} (h : k ∉ keys m) : fieldsTree m k = .absent := by
  rw [fieldsTree_eq, (find_none k m).mpr h]

/-! ## `maps.Merge` -/

def entryTree : Option Value → MapTree Str Value
  | none => .absent
  | some v => v.tree

theorem entryTree_find (k : Str) (m : Fields) : entryTree (find k m) = fieldsTree m k := by
  rw [fieldsTree_eq]
  rfl

theorem tree_mergeValue {v : Value} (o : Option Value) (hsub : ∀ src dst k, v = .map src →
      fieldsTree (mergeInto src dst) k = (fieldsTree dst k).merge (fieldsTree src k)) :
    (mergeValue v o).tree = (entryTree o).merge v.tree := by
  cases v with
  | map src =>
    cases o with
    | none => simp [mergeValue, entryTree]
    | some w =>
      cases w with
      | map dst =>
        rw [mergeValue, entryTree, tree_map, tree_map, tree_map, MapTree.node_merge_node]
        exact congrArg MapTree.node (funext fun k => hsub src dst k rfl)
      | _ => simp [mergeValue, entryTree, Value.tree]
  | _ => simp [mergeValue, Value.tree]

theorem fieldsTree_mergeInto_cons {k : Str} {v : Value} (hk : k ∉ keys src)
    (hv : (mergeValue v (find k dst)).tree = (fieldsTree dst k).merge v.tree)
    (ih : ∀ dst j, fieldsTree (mergeInto src dst) j = (fieldsTree dst j).merge (fieldsTree src j)) (j : Str) :
    fieldsTree (mergeInto ((k, v) :: src) dst) j = (fieldsTree dst j).merge (fieldsTree ((k, v) :: src) j) := by
  rw [mergeInto, ih, fieldsTree_put, fieldsTree]
  by_cases hj : k = j
  · rw [← hj, update_self, if_pos rfl, fieldsTree_of_notMem hk, MapTree.merge_absent, hv]
  · rw [update_of_ne (Ne.symm hj), if_neg hj]

theorem fieldsTree_mergeInto (src dst : Fields) (hk : (keys src).Nodup) (hd : DistinctFields src) (k : Str) :
    fieldsTree (mergeInto src dst) k = (fieldsTree dst k).merge (fieldsTree src k) := by
  induction src using maps_induct generalizing dst k with
  | nil => rw [mergeInto, fieldsTree, MapTree.merge_absent]
  | cons j v src ihs ih =>
    rw [DistinctFields] at hd
    simp only [Lib.keys, map_cons, nodup_cons] at hk
    refine fieldsTree_mergeInto_cons hk.1 ?_ (fun dst k => ih dst hk.2 hd.2 k) k
    rw [← entryTree_find]
    refine tree_mergeValue _ ?_
    rintro sub dst k rfl
    rw [DistinctKeys] at hd
    exact ihs sub rfl dst hd.1.1 hd.1.2 k

/-! ## Maps without the delimiter -/

structure Clean (m : Fields) : Prop where
  nodup : (keys m).Nodup
  distinct : DistinctFields m
  good : GoodFields m

structure CleanEntry (k : Str) (v : Value) : Prop where
  key : NoDouble ':' k
  last : isNode v → k.getLast? ≠ some ':'
  distinct : DistinctKeys v
  good : GoodKeys v

theorem clean_nil : Clean [] := ⟨nodup_nil, by rw [DistinctFields]; trivial, by rw [GoodFields]; trivial⟩

theorem clean_cons : Clean ((k, v) :: m) ↔ k ∉ keys m ∧ CleanEntry k v ∧ Clean m := by
  constructor
  · rintro ⟨hk, hd, hg⟩
    rw [DistinctFields] at hd
    rw [GoodFields] at hg
    rw [Lib.keys, map_cons, nodup_cons] at hk
    exact ⟨hk.1, ⟨hg.1, hg.2.1, hd.1, hg.2.2.1⟩, hk.2, hd.2, hg.2.2.2⟩
  · rintro ⟨hmem, ⟨hkey, hl, hdv, hgv⟩, hk, hd, hg⟩
    refine ⟨nodup_cons.mpr ⟨hmem, hk⟩, ?_, ?_⟩
    · rw [DistinctFields]
      exact ⟨hdv, hd⟩
    · rw [GoodFields]
      exact ⟨hkey, hl, hgv, hg⟩

theorem cleanEntry_map (hkey : NoDouble ':' k)
    (hl : isNode (.map m) → k.getLast? ≠ some ':') (hm : Clean m) : CleanEntry k (.map m) :=
  ⟨hkey, hl, by rw [DistinctKeys]; exact ⟨hm.nodup, hm.distinct⟩, by rw [GoodKeys]; exact hm.good⟩

theorem CleanEntry.sub (h : CleanEntry k (.map m)) : Clean m := by
  have hd := h.distinct
  have hg := h.good
  rw [DistinctKeys] at hd
  rw [GoodKeys] at hg
  exact ⟨hd.1, hd.2, hg⟩

theorem Clean.put (hm : Clean m) (hv : CleanEntry k v) : Clean (put k v m) := by
  induction m with
  | nil => exact clean_cons.mpr ⟨by simp [Lib.keys], hv, clean_nil⟩
  | cons e m ih =>
    obtain ⟨j, w⟩ := e
    obtain ⟨hmem, he, hr⟩ := clean_cons.mp hm
    rw [Lib.put]
    by_cases hj : j = k
    · rw [if_pos hj]
      exact clean_cons.mpr ⟨hj ▸ hmem, hv, hr⟩
    · rw [if_neg hj]
      refine clean_cons.mpr ⟨?_, he, ih hr⟩
      rw [mem_keys_put]
      rintro (h | h)
      · exact hj h
      · exact hmem h

theorem Clean.find (hm : Clean m) (h : find k m = some v) : CleanEntry k v := by
  induction m with
  | nil => cases h
  | cons e m ih =>
    obtain ⟨j, w⟩ := e
    obtain ⟨-, he, hr⟩ := clean_cons.mp hm
    rw [Lib.find] at h
    by_cases hj : j = k
    · rw [if_pos hj] at h
      cases h
      exact hj ▸ he
    · rw [if_neg hj] at h
      exact ih hr h

theorem cleanEntry_mergeValue (hv : CleanEntry k v) (hdst : Clean dst)
    (hsub : ∀ src dst, v = .map src → Clean dst → Clean (mergeInto src dst)) :
    CleanEntry k (mergeValue v (find k dst)) := by
  cases v with
  | map src =>
    cases hf : find k dst with
    | none => exact hv
    | some w =>
      have hw := hdst.find hf
      cases w with
      | map sub =>
        refine cleanEntry_map hv.key ?_ (hsub src sub rfl hw.sub)
        -- The merged map has entries only if one of the two has.
        intro hn
        cases src with
        | nil => exact hw.last hn
        | cons e src => exact hv.last rfl
      | _ => exact hv
  | _ => exact hv

theorem Clean.mergeInto (hsrc : Clean src) (hdst : Clean dst) : Clean (mergeInto src dst) := by
  induction src using maps_induct generalizing dst with
  | nil => exact hdst
  | cons k v src ihs ih =>
    obtain ⟨-, he, hr⟩ := clean_cons.mp hsrc
    rw [Confmap.mergeInto]
    refine ih hr (hdst.put (cleanEntry_mergeValue he hdst ?_))
    rintro sub dst rfl hdst
    exact ihs sub rfl he.sub hdst

theorem mem_keys_mergeInto (k : Str) (src dst : Fields) :
    k ∈ keys (mergeInto src dst) ↔ k ∈ keys src ∨ k ∈ keys dst := by
  induction src generalizing dst with
  | nil => simp [mergeInto, Lib.keys]
  | cons e src ih =>
    obtain ⟨j, v⟩ := e
    rw [mergeInto, ih, mem_keys_put]
    simp only [Lib.keys, map_cons, mem_cons]
    exact or_left_comm.trans or_assoc.symm

theorem find_mergeInto (k : Str) (src dst : Fields) (hk : (keys src).Nodup) :
    find k (mergeInto src dst) = ((find k src).map fun v => mergeValue v (find k dst)).or (find k dst) := by
  induction src generalizing dst with
  | nil => rw [mergeInto, find_nil, Option.map_none, Option.none_or]
  | cons e src ih =>
    obtain ⟨j, v⟩ := e
    rw [Lib.keys, map_cons, nodup_cons] at hk
    rw [mergeInto, ih _ hk.2, find]
    by_cases hj : j = k
    · subst hj
      rw [(find_none j src).mpr hk.1, find_put_self, if_pos rfl]
      rfl
    · rw [if_neg hj, find_put_ne _ _ (Ne.symm hj)]

theorem mergeInto_ne_nil (hne : src ≠ []) (dst : Fields) : mergeInto src dst ≠ [] := by
  obtain ⟨e, src, rfl⟩ := exists_cons_of_ne_nil hne
  intro hnil
  have hmem : e.1 ∈ keys (mergeInto (e :: src) dst) := (mem_keys_mergeInto e.1 _ dst).mpr (.inl (by simp [Lib.keys]))
  rw [hnil] at hmem
  cases hmem

theorem mergeValue_leaf (hv : ∀ m, v ≠ .map m) (o : Option Value) : mergeValue v o = v := by
  cases v with
  | map m => exact absurd rfl (hv m)
  | _ => simp [mergeValue]

/-! ## `MergeMaps` -/

theorem newFromStringMap_eq (hm : Clean m) : newFromStringMap m = m := by
  have hs : ∀ e ∈ m, splitKey e.1 = [e.1] := by
    intro e he
    exact splitDouble_of_noDouble (hm.find (find_of_mem hm.nodup he)).key
  have hput : m.foldl (fun out e => insertPath (splitKey e.1) e.2 out) [] =
      m.foldl (fun out e => put e.1 e.2 out) [] := by
    refine foldl_ext _ _ _ fun out e he => ?_
    rw [hs e he, insertPath]
  rw [newFromStringMap, unflatten, hput, foldl_put_fresh Prod.fst Prod.snd m [] hm.nodup (by simp [Lib.keys])]
  simp

theorem fieldsTree_foldl_put (m dst : Fields) (hm : (keys m).Nodup) (k : Str) :
    fieldsTree (m.foldl (fun dst e => put e.1 e.2 dst) dst) k =
      if k ∈ keys m then fieldsTree m k else fieldsTree dst k := by
  induction m generalizing dst with
  | nil => rfl
  | cons e m ih =>
    obtain ⟨j, v⟩ := e
    simp only [Lib.keys, map_cons, nodup_cons] at hm
    rw [foldl_cons, ih _ hm.2, fieldsTree_put, fieldsTree]
    by_cases hj : j = k
    · subst hj
      have hmem : j ∉ keys m := hm.1
      rw [if_neg hmem, update_self, if_pos (by simp [Lib.keys]), if_pos rfl]
    · rw [update_of_ne (Ne.symm hj), if_neg hj]
      have hiff : k ∈ keys ((j, v) :: m) ↔ k ∈ keys m := by simp [Lib.keys, Ne.symm hj]
      simp only [hiff]

theorem tree_mergeMaps (hdst : Clean dst) (hsrc : Clean src) :
    (Value.map (mergeMaps dst src)).tree = (Value.map dst).tree.merge (Value.map src).tree := by
  have hm := hsrc.mergeInto hdst
  rw [mergeMaps, newFromStringMap_eq hsrc, newFromStringMap_eq hdst,
    toStringMap_eq hm.nodup hm.distinct hm.good, tree_map, tree_map, tree_map,
    MapTree.node_merge_node]
  refine congrArg MapTree.node (funext fun k => ?_)
  rw [fieldsTree_foldl_put _ _ hm.nodup, ← fieldsTree_mergeInto src dst hsrc.nodup hsrc.distinct]
  by_cases hk : k ∈ keys (mergeInto src dst)
  · rw [if_pos hk]
  · have hk' : k ∉ keys dst := fun h => hk ((mem_keys_mergeInto k src dst).mpr (Or.inr h))
    rw [if_neg hk, fieldsTree_of_notMem hk', fieldsTree_of_notMem hk]

end Collector.Confmap
