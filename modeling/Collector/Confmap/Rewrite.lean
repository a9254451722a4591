import Collector.Confmap.Leaves
import Collector.Strings

/-!
# Converters that go through the flat keys

Such a converter visits `AllKeys` in order and makes a new `Conf` of the keys under their new names.
-/

namespace Collector.Confmap

open Lib Strings List

variable {k' : Str} {v' : Value} {conf' : Fields}

abbrev KeyRule := Str → Value → Option (Str × Value)

def rewriteKeys (rule : KeyRule) (conf : Fields) : Fields :=
  putAll ((sortStrings (allKeys conf)).filterMap fun k => rule k (get conf k)) []

/-- `NewFromStringMap(out)`, whatever the order of the entries of `out`. -/
def Rewrites (rule : KeyRule) (conf conf' : Fields) : Prop :=
  ∃ l : Fields, l.Perm (rewriteKeys rule conf) ∧ conf' = newFromStringMap l

theorem sortStrings_sorted (l : List Str) : (sortStrings l).Pairwise (· ≤ ·) := by
  have ht (a b c : Str) (hab : decide (a ≤ b) = true) (hbc : decide (b ≤ c) = true) : decide (a ≤ c) = true := by
    simp only [decide_eq_true_eq] at hab hbc ⊢
    exact hab.trans hbc
  have hto (a b : Str) : (decide (a ≤ b) || decide (b ≤ a)) = true := by
    simpa using le_total a b
  exact (pairwise_mergeSort ht hto l).imp fun h => by simpa using h

theorem sortStrings_of_sorted {l : List Str} (h : l.Pairwise (· ≤ ·)) : sortStrings l = l :=
  mergeSort_of_pairwise (h.imp fun hle => decide_eq_true hle)

theorem mem_sortStrings (k : Str) (l : List Str) : k ∈ sortStrings l ↔ k ∈ l := mem_mergeSort

section
variable {rule : KeyRule} {conf : Fields}

theorem nodup_keys_rewriteKeys : (keys (rewriteKeys rule conf)).Nodup := nodup_keys_putAll _ nodup_nil

theorem mem_rewriteKeys (hc : Clean conf) (h : (k', v') ∈ rewriteKeys rule conf) :
    ∃ k v, leafAt conf (splitKey k) = some v ∧ rule k v = some (k', v') := by
  rcases mem_putAll h with h | h
  · obtain ⟨k, hk, hr⟩ := mem_filterMap.mp h
    obtain ⟨v, hv⟩ := (mem_allKeys hc k).mp ((mem_sortStrings k _).mp hk)
    rw [get_eq hc hv] at hr
    exact ⟨k, v, hv, hr⟩
  · cases h

variable {k : Str} {v : Value}

/-- The greatest of the keys that get one name counts. -/
theorem find_rewriteKeys (hc : Clean conf) (hl : leafAt conf (splitKey k) = some v) (hru : rule k v = some (k', v'))
    (hla : ∀ j w w', leafAt conf (splitKey j) = some w → rule j w = some (k', w') → j ≤ k) :
    find k' (rewriteKeys rule conf) = some v' := by
  have hmem : k ∈ sortStrings (allKeys conf) := (mem_sortStrings k _).mpr ((mem_allKeys hc k).mpr ⟨v, hl⟩)
  have hn : (sortStrings (allKeys conf)).Nodup :=
    (mergeSort_perm _ _).nodup_iff.mpr (nodup_keys_flatten conf)
  have hs := sortStrings_sorted (allKeys conf)
  have hk (j : Str) (hj : j ∈ sortStrings (allKeys conf)) := (mem_allKeys hc j).mp ((mem_sortStrings j _).mp hj)
  rw [rewriteKeys]
  obtain ⟨before, after, heq⟩ := append_of_mem hmem
  rw [heq] at hn hs hk ⊢
  have hget : rule k (get conf k) = some (k', v') := by rw [get_eq hc hl, hru]
  simp only [filterMap_append, filterMap_cons, hget]
  refine find_putAll_of_last fun ha => ?_
  obtain ⟨⟨_, w'⟩, he, rfl⟩ := mem_map.mp ha
  obtain ⟨j, hj, hr⟩ := mem_filterMap.mp he
  obtain ⟨w, hw⟩ := hk j (by simp [hj])
  rw [get_eq hc hw] at hr
  have hle : k ≤ j := rel_of_pairwise_cons (pairwise_append.mp hs).2.1 hj
  have heq : j = k := le_antisymm (hla j w w' hw hr) hle
  exact (nodup_cons.mp (nodup_append.mp hn).2.1).1 (heq ▸ hj)

theorem mem_keys_rewriteKeys (hc : Clean conf) (hl : leafAt conf (splitKey k) = some v)
    (hr : rule k v = some (k', v')) : ∃ w, (k', w) ∈ rewriteKeys rule conf := by
  have hk : k ∈ sortStrings (allKeys conf) := (mem_sortStrings k _).mpr ((mem_allKeys hc k).mpr ⟨v, hl⟩)
  have hmem : k' ∈ keys (rewriteKeys rule conf) := by
    refine (mem_keys_putAll k').mpr (.inl (mem_map.mpr ⟨(k', v'), mem_filterMap.mpr ⟨k, hk, ?_⟩, rfl⟩))
    rw [get_eq hc hl, hr]
  obtain ⟨⟨_, w⟩, hw, rfl⟩ := mem_map.mp hmem
  exact ⟨w, hw⟩

def KeepsLeaves (rule : KeyRule) : Prop :=
  ∀ k v k' v', isNode v = false → rule k v = some (k', v') → isNode v' = false

theorem rewriteKeys_leaf (hr : KeepsLeaves rule) (hc : Clean conf) :
    ∀ e ∈ rewriteKeys rule conf, isNode e.2 = false := by
  rintro ⟨k', v'⟩ he
  obtain ⟨k, v, hv, he⟩ := mem_rewriteKeys hc he
  exact hr k v k' v' (leafAt_isNode hv) he

theorem Rewrites.clean (hr : KeepsLeaves rule) (hc : Clean conf) (h : Rewrites rule conf conf') : Clean conf' := by
  obtain ⟨l, hp, rfl⟩ := h
  exact clean_unflatten fun e he => rewriteKeys_leaf hr hc e (hp.mem_iff.mp he)

theorem Rewrites.leafAt (hr : KeepsLeaves rule) (hc : Clean conf)
    (h : Rewrites rule conf conf') (hf : PrefixFree (rewriteKeys rule conf)) (k : Str) :
    leafAt conf' (splitKey k) = find k (rewriteKeys rule conf) := by
  obtain ⟨l, hp, rfl⟩ := h
  have hn : (keys l).Nodup := (hp.map Prod.fst).nodup_iff.mpr nodup_keys_rewriteKeys
  rw [newFromStringMap, leafAt_unflatten (fun e he => rewriteKeys_leaf hr hc e (hp.mem_iff.mp he)) hn
    (fun e he e' he' => hf e (hp.mem_iff.mp he) e' (hp.mem_iff.mp he')), find_perm hp hn]

/-- A result in which a new key is a leaf, unless another one stands on its path. -/
structure LongFirstResult (rule : KeyRule) (conf conf' : Fields) : Prop where
  rewrites : Rewrites rule conf conf'
  lost : ∀ k, Covered (rewriteKeys rule conf) k → leafAt conf' (splitKey k) = none
  kept : ∀ k, ¬ Covered (rewriteKeys rule conf) k → leafAt conf' (splitKey k) = find k (rewriteKeys rule conf)

theorem exists_longFirstResult (hr : KeepsLeaves rule) (hco : Clean conf) :
    ∃ conf', LongFirstResult rule conf conf' := by
  obtain ⟨l, hp, hlo⟩ := exists_longFirst (rewriteKeys rule conf)
  have hn : (keys l).Nodup := (hp.map Prod.fst).nodup_iff.mpr nodup_keys_rewriteKeys
  have hl := leafAt_unflatten_longFirst (fun e he => rewriteKeys_leaf hr hco e (hp.mem_iff.mp he)) hn hlo
  have hc (k : Str) : Covered (rewriteKeys rule conf) k ↔ Covered l k := by
    simp only [Covered, hp.mem_iff]
  refine ⟨newFromStringMap l, ⟨l, hp, rfl⟩, fun k hk => ?_, fun k hk => ?_⟩
  · exact (hl k).1 ((hc k).mp hk)
  · exact ((hl k).2 fun h => hk ((hc k).mpr h)).trans (find_perm hp hn k)

theorem LongFirstResult.written (hr : LongFirstResult rule conf conf') (hru : KeepsLeaves rule)
    (hco : Clean conf) {p' : List Str} (h : leafAt conf' p' = some v') :
    ∃ p v k', leafAt conf p = some v ∧ rule (joinKey p) v = some (k', v') ∧ splitKey k' = p' := by
  have hs := splitKey_joinKey (hr.rewrites.clean hru hco) h
  rw [← hs] at h
  by_cases hc : Covered (rewriteKeys rule conf) (joinKey p')
  · rw [hr.lost _ hc] at h
    cases h
  · rw [hr.kept _ hc] at h
    obtain ⟨k, v, hv, hk⟩ := mem_rewriteKeys hco (find_mem _ _ _ h)
    exact ⟨splitKey k, v, joinKey p', hv, by rwa [joinKey_splitKey], hs⟩

end

end Collector.Confmap
