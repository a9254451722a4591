import Mathlib.Data.List.Nodup

/-!
# Maps as lists of entries

`put` overwrites the entry of a key in place, or adds one at the end.
-/

namespace Collector.Lib

open List Option

variable {K V : Type} [DecidableEq K] {W : Type}
variable {k : K} {m es : List (K × V)} {v : V}

def find (k : K) : List (K × V) → Option V
  | [] => none
  | (k', v) :: m => if k' = k then some v else find k m

def put (k : K) (v : V) : List (K × V) → List (K × V)
  | [] => [(k, v)]
  | (k', v') :: m => if k' = k then (k, v) :: m else (k', v') :: put k v m

def keys (m : List (K × V)) : List K := m.map Prod.fst

@[simp] theorem find_nil (k : K) : find k ([] : List (K × V)) = none := rfl

@[simp] theorem find_put_self (k : K) (v : V) (m : List (K × V)) : find k (put k v m) = some v := by
  induction m with
  | nil => simp [put, find]
  | cons e m ih =>
    obtain ⟨k', v'⟩ := e
    by_cases h : k' = k <;> simp [put, find, h, ih]

theorem find_put_ne {k k' : K} (v : V) (m : List (K × V)) (h : k' ≠ k) : find k' (put k v m) = find k' m := by
  induction m with
  | nil => simp [put, find, h.symm]
  | cons e m ih =>
    obtain ⟨j, w⟩ := e
    by_cases hj : j = k
    · subst hj; simp [put, find, h.symm]
    · rw [put, if_neg hj, find, find, ih]

theorem find_put (k k' : K) (v : V) (m : List (K × V)) :
    find k' (put k v m) = if k' = k then some v else find k' m := by
  split_ifs with h
  · rw [h, find_put_self]
  · exact find_put_ne _ _ ‹_›

theorem find_none (k : K) (m : List (K × V)) : find k m = none ↔ k ∉ keys m := by
  induction m with
  | nil => simp [keys]
  | cons e m ih =>
    obtain ⟨k', v⟩ := e
    by_cases h : k' = k
    · simp [find, keys, h]
    · rw [find, if_neg h, ih]; simp [keys, Ne.symm h]

theorem find_mem (k : K) (v : V) (m : List (K × V)) (h : find k m = some v) : (k, v) ∈ m := by
  induction m with
  | nil => simp at h
  | cons e m ih =>
    obtain ⟨k', v'⟩ := e
    rw [find] at h
    split at h
    · rename_i hk; subst hk; simp_all
    · exact mem_cons_of_mem _ (ih h)

theorem find_of_mem {k : K} {v : V} {m : List (K × V)} (hn : (keys m).Nodup) (h : (k, v) ∈ m) :
    find k m = some v := by
  induction m with
  | nil => simp at h
  | cons e m ih =>
    obtain ⟨k', v'⟩ := e
    simp only [keys, map_cons, nodup_cons] at hn
    rcases mem_cons.mp h with he | hm
    · simp only [Prod.mk.injEq] at he; simp [find, he.1, he.2]
    · have hne : k' ≠ k := by
        rintro rfl
        exact hn.1 (mem_map.mpr ⟨_, hm, rfl⟩)
      rw [find, if_neg hne]
      exact ih hn.2 hm

theorem find_filter (p : K → Bool) (k : K) (m : List (K × V)) :
    find k (m.filter fun e => p e.1) = if p k then find k m else none := by
  induction m with
  | nil => simp
  | cons e m ih =>
    obtain ⟨k', v⟩ := e
    by_cases hk : k' = k
    · subst hk
      by_cases hp : p k' <;> simp_all [find]
    · by_cases hp : p k' <;> simp [hp, find, hk, ih]

def remove (k : K) (m : List (K × V)) : List (K × V) := m.filter fun e => e.1 ≠ k

theorem find_remove (k j : K) (m : List (K × V)) : find j (remove k m) = if j = k then none else find j m := by
  have h := find_filter (fun j => decide (j ≠ k)) j m
  by_cases hj : j = k <;> simp_all [remove]

theorem find_remove_ne {j : K} (h : j ≠ k) (m : List (K × V)) : find j (remove k m) = find j m := by
  rw [find_remove, if_neg h]

theorem remove_of_notMem (h : k ∉ keys m) : remove k m = m := by
  refine filter_eq_self.mpr fun e he => ?_
  have hne : e.1 ≠ k := fun heq => h (heq ▸ mem_map_of_mem he)
  simpa using hne

omit [DecidableEq K] in
theorem nodup_keys_filter (p : K × V → Bool) (h : (keys m).Nodup) : (keys (m.filter p)).Nodup :=
  h.sublist (filter_sublist.map _)

theorem filter_key (h : (keys m).Nodup) (k : K) : (m.filter fun e => e.1 = k) = (find k m).toList.map (k, ·) := by
  induction m with
  | nil => rfl
  | cons e m ih =>
    obtain ⟨hnm, hn⟩ := nodup_cons.mp h
    by_cases he : e.1 = k
    · subst he
      have hr : find e.1 m = none := (find_none e.1 m).mpr hnm
      simp [find, ih hn, hr]
    · simp [he, find, ih hn]

variable (f : V → W)

theorem find_map_snd (k : K) (m : List (K × V)) : find k (m.map fun e => (e.1, f e.2)) = (find k m).map f := by
  induction m with
  | nil => rfl
  | cons e m ih =>
    rw [map_cons, find, find, ih]
    split <;> rfl

theorem find_append (k : K) (m m' : List (K × V)) : find k (m ++ m') = (find k m).or (find k m') := by
  induction m with
  | nil => rfl
  | cons e m ih =>
    obtain ⟨k', v⟩ := e
    by_cases h : k' = k <;> simp [find, h, ih]

variable {e : K × V}

theorem find_append_of_ne {k : K} (m : List (K × V)) (h : e.1 ≠ k) : find k (m ++ [e]) = find k m := by
  induction m with
  | nil => simp [find, h]
  | cons x m ih => rw [cons_append, find, find, ih]

variable {m' : List (K × V)}

theorem find_perm (h : m.Perm m') (hm : (keys m).Nodup) (k : K) : find k m = find k m' := by
  have hm' : (keys m').Nodup := (h.map Prod.fst).nodup_iff.mp hm
  refine ext fun v => ⟨fun hv => ?_, fun hv => ?_⟩
  · exact find_of_mem hm' (h.mem_iff.mp (find_mem _ _ _ hv))
  · exact find_of_mem hm (h.mem_iff.mpr (find_mem _ _ _ hv))

theorem find_table (f : K → V) (ks : List K) (k : K) :
    find k (ks.map fun k => (k, f k)) = if k ∈ ks then some (f k) else none := by
  induction ks with
  | nil => rfl
  | cons k' ks ih =>
    rw [map_cons, find]
    by_cases h : k' = k
    · simp [h]
    · rw [if_neg h, ih]
      simp [Ne.symm h]

/-- The map holds what `F` gives, for the keys that are done. -/
def Tabulates (F : K → Option V) (ks : List K) (m : List (K × V)) : Prop :=
  ∀ k, find k m = if k ∈ ks then F k else none

theorem Tabulates.nil (F : K → Option V) : Tabulates F [] [] := fun _ => rfl

variable {F : K → Option V} {ks : List K}

theorem Tabulates.put (h : Tabulates F ks m) (hk : F k = some v) : Tabulates F (ks ++ [k]) (put k v m) := by
  intro j
  by_cases hj : j = k
  · subst hj
    simp [hk]
  · rw [find_put_ne _ _ hj, h j]
    simp [hj]

theorem Tabulates.skip (h : Tabulates F ks m) (hk : F k = none) : Tabulates F (ks ++ [k]) m := by
  intro j
  by_cases hj : j = k
  · subst hj
    simp [h j, hk]
  · rw [h j]
    simp [hj]

theorem Tabulates.step (h : Tabulates F ks m) {c : Bool} (hm : m' = if c then Lib.put k v m else m)
    (hk : F k = if c then some v else none) : Tabulates F (ks ++ [k]) m' := by
  cases c with
  | true => exact hm ▸ h.put hk
  | false => exact hm ▸ h.skip hk

theorem put_of_notMem (k : K) (v : V) (m : List (K × V)) (h : k ∉ keys m) : put k v m = m ++ [(k, v)] := by
  induction m with
  | nil => rfl
  | cons e m ih =>
    obtain ⟨k', v'⟩ := e
    simp only [keys, map_cons, mem_cons, not_or] at h
    rw [put, if_neg (Ne.symm h.1), ih h.2]; rfl

theorem put_put (k : K) (v w : V) (m : List (K × V)) : put k w (put k v m) = put k w m := by
  induction m with
  | nil => simp [put]
  | cons e m ih =>
    obtain ⟨k', v'⟩ := e
    by_cases h : k' = k <;> simp [put, h, ih]

theorem put_of_find (h : find k m = some v) : put k v m = m := by
  induction m with
  | nil => cases h
  | cons e m ih =>
    rw [find] at h
    rw [put]
    split_ifs at h with hk
    · rw [if_pos hk, ← hk, ← some.inj h]
    · rw [if_neg hk, ih h]

theorem put_map_snd (k : K) (v : V) (m : List (K × V)) :
    put k (f v) (m.map fun e => (e.1, f e.2)) = (put k v m).map fun e => (e.1, f e.2) := by
  induction m with
  | nil => rfl
  | cons e m ih =>
    obtain ⟨k', w⟩ := e
    rw [map_cons, put, put]
    split
    · rfl
    · exact congrArg _ ih

theorem mem_put {k : K} {v : V} {m : List (K × V)} (h : e ∈ put k v m) : e = (k, v) ∨ e ∈ m := by
  induction m with
  | nil => simpa [put] using h
  | cons x m ih =>
    rw [put] at h
    split at h
    · rcases mem_cons.mp h with h | h
      · exact Or.inl h
      · exact Or.inr (mem_cons_of_mem _ h)
    · rcases mem_cons.mp h with h | h
      · exact Or.inr (h ▸ mem_cons_self)
      · exact (ih h).imp_right (mem_cons_of_mem _)

omit [DecidableEq K] in
theorem keys_map_snd (m : List (K × V)) : keys (m.map fun e => (e.1, f e.2)) = keys m := by
  simp [keys, Function.comp_def]

omit [DecidableEq K] in
@[simp] theorem keys_append (m m' : List (K × V)) : keys (m ++ m') = keys m ++ keys m' := by
  simp [keys]

omit [DecidableEq K] in
theorem notMem_keys_concat {acc : List (K × V)} {w : V} (hk : k ∉ keys m)
    (hacc : ∀ j ∈ keys ((k, v) :: m), j ∉ keys acc) :
    ∀ j ∈ keys m, j ∉ keys (acc ++ [(k, w)]) := by
  intro j hj hmem
  rw [keys_append, mem_append] at hmem
  rcases hmem with hmem | hmem
  · exact hacc j (mem_cons_of_mem _ hj) hmem
  · rw [show j = k from mem_singleton.mp hmem] at hj
    exact hk hj

theorem mem_keys_put (k j : K) (v : V) (m : List (K × V)) : j ∈ keys (put k v m) ↔ j = k ∨ j ∈ keys m := by
  induction m with
  | nil => simp [put, keys]
  | cons e m ih =>
    obtain ⟨k', v'⟩ := e
    by_cases h : k' = k
    · simp [put, keys, h]
    · rw [put, if_neg h]
      simp only [keys, map_cons, mem_cons] at ih ⊢
      rw [ih]
      exact or_left_comm

theorem nodup_keys_put (k : K) (v : V) {m : List (K × V)} (h : (keys m).Nodup) : (keys (put k v m)).Nodup := by
  induction m with
  | nil => simp [put, keys]
  | cons e m ih =>
    obtain ⟨k', v'⟩ := e
    by_cases hk : k' = k
    · subst hk; simpa [put, keys] using h
    · rw [put, if_neg hk]
      simp only [keys, map_cons, nodup_cons] at h ih ⊢
      refine ⟨fun hmem => ?_, ih h.2⟩
      rcases (mem_keys_put k k' v m).mp hmem with he | he
      · exact hk he
      · exact h.1 he

theorem foldl_put_fresh {E : Type} (f : E → K) (g : E → V) (l : List E) (acc : List (K × V))
    (hl : (l.map f).Nodup) (hacc : ∀ e ∈ l, f e ∉ keys acc) :
    l.foldl (fun out e => put (f e) (g e) out) acc = acc ++ l.map fun e => (f e, g e) := by
  induction l generalizing acc with
  | nil => simp
  | cons e l ih =>
    simp only [map_cons, nodup_cons] at hl
    rw [foldl_cons, put_of_notMem _ _ _ (hacc e mem_cons_self), ih _ hl.2]
    · simp
    · intro x hx hmem
      rw [keys_append, mem_append] at hmem
      rcases hmem with hmem | hmem
      · exact hacc x (mem_cons_of_mem _ hx) hmem
      · refine hl.1 (mem_map.mpr ⟨x, hx, ?_⟩)
        simpa [keys] using hmem

/-! ## Entries that are put one after the other -/

/-- The map of a list of entries. The last entry of a key counts. -/
def putAll (es m : List (K × V)) : List (K × V) := es.foldl (fun m e => put e.1 e.2 m) m

theorem mem_putAll (h : e ∈ putAll es m) : e ∈ es ∨ e ∈ m := by
  induction es generalizing m with
  | nil => exact .inr h
  | cons x es ih =>
    rcases ih h with h | h
    · exact .inl (.tail _ h)
    · rcases mem_put h with rfl | h
      · exact .inl (.head _)
      · exact .inr h

theorem nodup_keys_putAll (es : List (K × V)) (h : (keys m).Nodup) : (keys (putAll es m)).Nodup := by
  induction es generalizing m with
  | nil => exact h
  | cons e es ih => exact ih (nodup_keys_put _ _ h)

theorem mem_keys_putAll (k : K) : k ∈ keys (putAll es m) ↔ k ∈ keys es ∨ k ∈ keys m := by
  induction es generalizing m with
  | nil => simp [putAll, keys]
  | cons e es ih =>
    refine (ih (m := put e.1 e.2 m)).trans ?_
    rw [mem_keys_put]
    simp only [keys, map_cons, mem_cons]
    tauto

theorem find_putAll_of_notMem (h : k ∉ keys es) : find k (putAll es m) = find k m := by
  induction es generalizing m with
  | nil => rfl
  | cons e es ih =>
    simp only [keys, map_cons, mem_cons, not_or] at h
    exact (ih h.2).trans (find_put_ne _ _ h.1)

theorem find_putAll_of_last {es' : List (K × V)} (h : k ∉ keys es') :
    find k (putAll (es ++ (k, v) :: es') m) = some v := by
  rw [putAll, foldl_append, foldl_cons]
  exact (find_putAll_of_notMem h).trans (find_put_self k v _)

theorem perm_filterMap_of_find {m' : List (K × W)} {f : W → Option V}
    (hm : (keys m).Nodup) (hm' : (keys m').Nodup) (h : ∀ k, find k m = (find k m').bind f) :
    m.Perm (m'.filterMap fun e => (f e.2).map (e.1, ·)) := by
  have hk : (keys (m'.filterMap fun e => (f e.2).map (e.1, ·))).Sublist (keys m') := by
    clear h hm'
    induction m' with
    | nil => exact .slnil
    | cons e m' ih =>
      cases hf : f e.2 with
      | none => simpa [hf, keys] using ih.cons e.1
      | some v => simpa [hf, keys] using ih.cons_cons e.1
  apply (perm_ext_iff_of_nodup hm.of_map (hm'.sublist hk).of_map).mpr
  rintro ⟨k, v⟩
  have hfi : (k, v) ∈ m ↔ find k m = some v := ⟨find_of_mem hm, find_mem k v m⟩
  rw [hfi, h, bind_eq_some_iff, mem_filterMap]
  constructor
  · rintro ⟨w, hw, hv⟩
    exact ⟨(k, w), find_mem _ _ _ hw, by simp [hv]⟩
  · rintro ⟨⟨j, w⟩, hmem, hv⟩
    obtain ⟨v', hv', heq⟩ := map_eq_some_iff.mp hv
    cases heq
    exact ⟨w, find_of_mem hm' hmem, hv'⟩

end Collector.Lib
