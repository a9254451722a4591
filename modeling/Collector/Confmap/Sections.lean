import Collector.Confmap.Leaves

/-!
# The sections of a configuration

What stands at the top of a configuration that is put together from flat keys.
-/

namespace Collector.Confmap

open Lib List

variable {m : Fields} {k : Str}

theorem mem_keys_insertPath (h : k ∈ keys m) (p : List Str) (v : Value) : k ∈ keys (insertPath p v m) := by
  have hput (j : Str) (w : Value) {m : Fields} (h : k ∈ keys m) : k ∈ keys (put j w m) :=
    (mem_keys_put j k w m).mpr (.inr h)
  fun_induction insertPath p v m with
  | case1 => exact h
  | case2 => exact hput _ _ h
  | case3 => exact hput _ _ h
  | case4 => exact hput _ _ h
  | case5 k k' ks v m w hf hw ih => exact ih h

theorem head_mem_keys_insertPath (k : Str) (q : List Str) (v : Value) (m : Fields) :
    k ∈ keys (insertPath (k :: q) v m) := by
  have hput (w : Value) : k ∈ keys (put k w m) := (mem_keys_put k k w m).mpr (.inl rfl)
  cases q with
  | nil => exact hput v
  | cons k' q =>
    rw [insertPath]
    split
    · exact hput _
    · exact hput _
    · rename_i w _ hf
      apply mem_keys_insertPath
      by_contra hmem
      rw [(find_none k m).mpr hmem] at hf
      cases hf

section
variable {l : Fields}

theorem PrefixFree.of_keys {l l' : Fields} (h : PrefixFree l) (hl : ∀ k ∈ keys l', k ∈ keys l) : PrefixFree l' := by
  have hmem (e : Str × Value) (he : e ∈ l') : ∃ f ∈ l, f.1 = e.1 := mem_map.mp (hl e.1 (mem_map_of_mem he))
  intro e he e' he' hpre
  obtain ⟨f, hf, hfe⟩ := hmem e he
  obtain ⟨f', hf', hfe'⟩ := hmem e' he'
  rw [← hfe, ← hfe'] at hpre ⊢
  exact h f hf f' hf' hpre

theorem mem_keys_unflatten (h : ∃ e ∈ l, ∃ q, splitKey e.1 = k :: q) : k ∈ keys (unflatten l) := by
  induction l using List.reverseRecOn with
  | nil => simp at h
  | append_singleton l e ih =>
    rw [unflatten_concat]
    obtain ⟨e', he', q, hq⟩ := h
    rcases mem_append.mp he' with he' | he'
    · exact mem_keys_insertPath (ih ⟨e', he', q, hq⟩) _ _
    · rw [mem_singleton.mp he'] at hq
      rw [hq]
      exact head_mem_keys_insertPath _ _ _ _

theorem exists_flattenFields (h : k ∈ keys m) : ∃ p v, (k :: p, v) ∈ flattenFields m := by
  induction m using fields_induct with
  | nil => cases h
  | leaf j w m hw ih =>
    rw [flattenFields_leaf j w m hw]
    rcases mem_cons.mp h with rfl | h
    · exact ⟨[], w, mem_cons_self⟩
    · obtain ⟨p, v, hp⟩ := ih h
      exact ⟨p, v, mem_cons_of_mem _ hp⟩
  | node j sub m hs ihs ih =>
    rw [flattenFields_node j sub m hs]
    rcases mem_cons.mp h with rfl | h
    · obtain ⟨e, he⟩ := exists_mem_of_ne_nil _ (flattenFields_ne_nil sub hs)
      exact ⟨e.1, e.2, mem_append_left _ (mem_map.mpr ⟨e, he, rfl⟩)⟩
    · obtain ⟨p, v, hp⟩ := ih h
      exact ⟨p, v, mem_append_right _ hp⟩

theorem flattenFields_not_isNode {m : Fields} (e : List Str × Value) (he : e ∈ flattenFields m) :
    isNode e.2 = false :=
  flattenFields_induct (motive := fun _ e => isNode e.2 = false) (fun _ _ _ hv => hv) (fun _ _ _ _ _ ih => ih)
    (fun _ _ _ ih => ih) he

theorem flatten_not_isNode {m : Fields} : ∀ e ∈ flatten m, isNode e.2 = false := by
  intro e he
  obtain ⟨e', he', rfl⟩ := exists_of_mem_flatten he
  exact flattenFields_not_isNode e' he'

theorem mem_keys_toStringMap (h : k ∈ keys m) (hk : NoDouble ':' k)
    (hl : k.getLast? ≠ some ':') : k ∈ keys (toStringMap m) := by
  obtain ⟨p, v, hp⟩ := exists_flattenFields h
  have hs : ∃ q, splitKey (joinKey (k :: p)) = k :: q := by
    cases p with
    | nil => exact ⟨[], splitDouble_of_noDouble hk⟩
    | cons j p => exact ⟨_, splitDouble_append _ hk hl⟩
  have hmem : joinKey (k :: p) ∈ keys (flatten m) := by
    rw [flatten_eq_putAll, mem_keys_putAll]
    exact .inl (mem_map.mpr ⟨_, mem_map.mpr ⟨_, hp, rfl⟩, rfl⟩)
  obtain ⟨e, he, heq⟩ := mem_map.mp hmem
  apply mem_keys_unflatten
  rw [← heq] at hs
  exact ⟨e, he, hs⟩

/-! ## Below a section -/

structure Sections (ps : List (List Str)) (m : Fields) : Prop where
  leaf : ∀ a w, find a m = some w → (∀ sub, w ≠ .map sub) → [a] ∈ ps
  within : ∀ a c q, a :: c :: q ∈ ps → ∃ sub, find a m = some (.map sub) ∧ c ∈ keys sub

section
variable {ps : List (List Str)} {m : Fields} (h : Sections ps m)
include h

theorem Sections.put_leaf (hfr : ∀ q ∈ ps, ¬ [k] <+: q) (v : Value) : Sections ([k] :: ps) (put k v m) := by
  refine ⟨fun a w hf hw => ?_, fun a c q hq => ?_⟩
  · by_cases ha : a = k
    · exact ha ▸ mem_cons_self
    · rw [find_put_ne _ _ ha] at hf
      exact mem_cons_of_mem _ (h.leaf a w hf hw)
  · replace hq : a :: c :: q ∈ ps := mem_of_ne_of_mem (by simp) hq
    have ha : a ≠ k := by
      rintro rfl
      exact hfr _ hq (by simp)
    rw [find_put_ne _ _ ha]
    exact h.within a c q hq

theorem Sections.put_node {k' : Str} {ks : List Str} {v : Value} {sub : Fields}
    (hsub : ∀ w, find k m = some w → w = .map sub) :
    Sections ((k :: k' :: ks) :: ps) (put k (.map (insertPath (k' :: ks) v sub)) m) := by
  refine ⟨fun a w hf hw => ?_, fun a c q hq => ?_⟩
  · have ha : a ≠ k := by
      rintro rfl
      rw [find_put_self] at hf
      exact hw _ (Option.some.inj hf).symm
    rw [find_put_ne _ _ ha] at hf
    exact mem_cons_of_mem _ (h.leaf a w hf hw)
  · by_cases ha : a = k
    · subst ha
      refine ⟨_, find_put_self _ _ _, ?_⟩
      rcases mem_cons.mp hq with hq | hq
      · cases hq
        exact head_mem_keys_insertPath _ _ _ _
      · obtain ⟨sub', hf, hc⟩ := h.within a c q hq
        cases hsub _ hf
        exact mem_keys_insertPath hc _ _
    · rw [find_put_ne _ _ ha]
      refine h.within a c q (mem_of_ne_of_mem ?_ hq)
      simp [ha]

theorem Sections.insertPath {p : List Str} (hp : p ≠ []) (hfr : ∀ q ∈ ps, ¬ p <+: q ∧ ¬ q <+: p) (v : Value) :
    Sections (p :: ps) (insertPath p v m) := by
  match p, hp with
  | [k], _ => exact h.put_leaf (fun q hq => (hfr q hq).1) v
  | k :: k' :: ks, _ =>
    rw [Confmap.insertPath]
    split
    · rename_i hf
      exact h.put_node (by simp [hf])
    · rename_i sub hf
      exact h.put_node (by simp [hf])
    · -- Nothing but a map stands at the first key, as no path ends there.
      rename_i w hw hf
      exact absurd (by simp) (hfr _ (h.leaf k w hf hw)).2

end

theorem sections_unflatten (hk : (keys l).Nodup) (hf : PrefixFree l) :
    Sections (l.map fun e => splitKey e.1) (unflatten l) := by
  induction l using List.reverseRecOn with
  | nil =>
    refine ⟨fun a w hfi _ => ?_, fun a c q hq => ?_⟩
    · cases hfi
    · cases hq
  | append_singleton l e ih =>
    rw [Lib.keys_append, nodup_append] at hk
    have ih := ih hk.1 fun e₁ h₁ e₂ h₂ => hf e₁ (mem_append_left _ h₁) e₂ (mem_append_left _ h₂)
    have hl : e ∈ l ++ [e] := by simp
    have hne : ∀ e' ∈ l, e'.1 ≠ e.1 := fun e' he' => hk.2.2 _ (mem_map_of_mem he') _ (by simp [Lib.keys])
    have hs := ih.insertPath (splitDouble_ne_nil ':' e.1) (fun q hq => ?_) e.2
    · rw [unflatten_concat, map_append]
      refine ⟨fun a w hfi hw => ?_, fun a c q hq => hs.within a c q ?_⟩
      · have hmem := hs.leaf a w hfi hw
        simpa [or_comm, splitKey] using hmem
      · simpa [or_comm, splitKey] using hq
    · obtain ⟨e', he', rfl⟩ := mem_map.mp hq
      have he'' := mem_append_left [e] he'
      refine ⟨fun hpre => ?_, fun hpre => ?_⟩
      · exact hne e' he' (hf e hl e' he'' hpre).symm
      · exact hne e' he' (hf e' he'' e hl hpre)

end

end Collector.Confmap
