import Collector.Confmap

/-!
# Flat keys and back

`toStringMap` gives a tree back, unless a key holds the delimiter `::`.
-/

namespace Collector.Confmap

open Lib List

variable (k : Str) {m : Fields}

/-! ## Trees of Go maps -/

mutual
def DistinctKeys : Value → Prop
  | .map m => (keys m).Nodup ∧ DistinctFields m
  | _ => True

def DistinctFields : Fields → Prop
  | [] => True
  | (_, v) :: m => DistinctKeys v ∧ DistinctFields m
end

def isNode : Value → Bool
  | .map (_ :: _) => true
  | _ => false

mutual
/-- No key holds `::`, and no key of a map with entries ends in `:`. -/
def GoodKeys : Value → Prop
  | .map m => GoodFields m
  | _ => True

def GoodFields : Fields → Prop
  | [] => True
  | (k, v) :: m =>
    NoDouble ':' k ∧ (isNode v → k.getLast? ≠ some ':') ∧ GoodKeys v ∧ GoodFields m
end

/-- Induction over the maps of a tree. Other values and empty maps are its leaves. -/
theorem fields_induct {motive : Fields → Prop} (nil : motive [])
    (leaf : ∀ k v m, isNode v = false → motive m → motive ((k, v) :: m))
    (node : ∀ k sub m, sub ≠ [] → motive sub → motive m → motive ((k, .map sub) :: m)) (m : Fields) :
    motive m := by
  match m with
  | [] => exact nil
  | (k, v) :: m =>
    have hm := fields_induct nil leaf node m
    match v with
    | .map (e :: sub) => exact node k (e :: sub) m (by simp) (fields_induct nil leaf node (e :: sub)) hm
    | .map [] => exact leaf k _ m rfl hm
    | .null | .bool _ | .int _ | .float _ | .str _ | .bytes _ | .list _ | .imap _ =>
      exact leaf k _ m rfl hm

theorem maps_induct {motive : Fields → Prop} (nil : motive [])
    (cons : ∀ k v m, (∀ sub, v = .map sub → motive sub) → motive m → motive ((k, v) :: m)) (m : Fields) :
    motive m := by
  induction m using fields_induct with
  | nil => exact nil
  | leaf k v m hv ih =>
    refine cons k v m ?_ ih
    rintro (- | ⟨e, sub⟩) rfl
    · exact nil
    · cases hv
  | node k sub m _ ihs ih =>
    refine cons k _ m ?_ ih
    rintro _ ⟨⟩
    exact ihs

theorem flattenValue_leaf {v : Value} (hv : isNode v = false) : flattenValue v = [([], v)] := by
  match v with
  | .map [] => simp [flattenValue]
  | .map (_ :: _) => simp [isNode] at hv
  | .null | .bool _ | .int _ | .float _ | .str _ | .bytes _ | .list _ | .imap _ => rw [flattenValue]; simp

theorem flattenFields_leaf (v : Value) (m : Fields) (hv : isNode v = false) :
    flattenFields ((k, v) :: m) = ([k], v) :: flattenFields m := by
  rw [flattenFields, flattenValue_leaf hv]
  rfl

theorem flattenFields_node (sub m : Fields) (hs : sub ≠ []) : flattenFields ((k, .map sub) :: m) =
      (flattenFields sub).map (fun e => (k :: e.1, e.2)) ++ flattenFields m := by
  rw [flattenFields, flattenValue]
  simp [hs]

/-! ## Leaf paths -/

/-- Induction along the path to a leaf. -/
theorem flattenFields_induct {motive : Fields → List Str × Value → Prop}
    (leaf : ∀ k v m, isNode v = false → motive ((k, v) :: m) ([k], v))
    (node : ∀ k sub m e, isNode (.map sub) → motive sub e → motive ((k, .map sub) :: m) (k :: e.1, e.2))
    (rest : ∀ x m e, motive m e → motive (x :: m) e) {e : List Str × Value} (h : e ∈ flattenFields m) :
    motive m e := by
  induction m using fields_induct generalizing e with
  | nil => simp [flattenFields] at h
  | leaf k v m hv ih =>
    rw [flattenFields_leaf k v m hv] at h
    rcases mem_cons.mp h with rfl | h
    · exact leaf k v m hv
    · exact rest _ m e (ih h)
  | node k sub m hs ihs ih =>
    rw [flattenFields_node k sub m hs] at h
    rcases mem_append.mp h with h | h
    · obtain ⟨e, he, rfl⟩ := mem_map.mp h
      obtain ⟨x, sub, rfl⟩ := exists_cons_of_ne_nil hs
      exact node k _ m e rfl (ihs he)
    · exact rest _ m e (ih h)

theorem flattenFields_ne_nil (m : Fields) (h : m ≠ []) : flattenFields m ≠ [] := by
  induction m using fields_induct with
  | nil => exact absurd rfl h
  | leaf k v m hv _ => simp [flattenFields_leaf k v m hv]
  | node k sub m hs ih _ => simp [flattenFields_node k sub m hs, ih hs]

theorem flattenFields_head (e : List Str × Value) (he : e ∈ flattenFields m) :
    ∃ k p, e.1 = k :: p ∧ k ∈ keys m := by
  refine flattenFields_induct (motive := fun m e => ∃ k p, e.1 = k :: p ∧ k ∈ keys m) ?_ ?_ ?_ he
  · exact fun k v m _ => ⟨k, [], rfl, mem_cons_self⟩
  · exact fun k sub m e _ _ => ⟨k, e.1, rfl, mem_cons_self⟩
  · rintro x m e ⟨k, p, hp, hk⟩
    exact ⟨k, p, hp, mem_cons_of_mem _ hk⟩

theorem flattenFields_path_ne_nil (m : Fields) (e : List Str × Value) (he : e ∈ flattenFields m) : e.1 ≠ [] := by
  obtain ⟨k, p, hp, -⟩ := flattenFields_head e he
  simp [hp]

theorem flattenFields_nodup (hk : (keys m).Nodup) (hd : DistinctFields m) :
    ((flattenFields m).map Prod.fst).Nodup := by
  induction m using fields_induct with
  | nil => simp [flattenFields]
  | leaf k v m hv ih =>
    rw [DistinctFields] at hd
    simp only [Lib.keys, map_cons, nodup_cons] at hk
    rw [flattenFields_leaf k v m hv, map_cons, nodup_cons]
    refine ⟨?_, ih hk.2 hd.2⟩
    intro hmem
    obtain ⟨e, he, hp⟩ := mem_map.mp hmem
    obtain ⟨k', p, hp', hk'⟩ := flattenFields_head e he
    rw [hp'] at hp
    simp only [List.cons.injEq] at hp
    exact hk.1 (hp.1 ▸ hk')
  | node k sub m hs ihs ih =>
    rw [DistinctFields, DistinctKeys] at hd
    simp only [Lib.keys, map_cons, nodup_cons] at hk
    rw [flattenFields_node k sub m hs, map_append, nodup_append]
    refine ⟨?_, ih hk.2 hd.2, ?_⟩
    · rw [map_map]
      have := ihs hd.1.1 hd.1.2
      rw [show (Prod.fst ∘ fun e : List Str × Value => (k :: e.1, e.2)) = (k :: ·) ∘ Prod.fst from rfl, ← map_map]
      exact this.map (cons_injective)
    · intro a ha b hb hab
      simp only [map_map, mem_map] at ha hb
      obtain ⟨e, _, rfl⟩ := ha
      obtain ⟨e', he', rfl⟩ := hb
      obtain ⟨k', p, hp', hk'⟩ := flattenFields_head e' he'
      rw [hp'] at hab
      simp only [Function.comp, List.cons.injEq] at hab
      exact hk.1 (hab.1 ▸ hk')

theorem goodParts_cons {k : Str} {p : List Str} (hk : NoDouble ':' k) (hl : k.getLast? ≠ some ':')
    (hp : GoodParts ':' p) : GoodParts ':' (k :: p) := by
  cases p with
  | nil => exact hp.elim
  | cons q p => exact ⟨hk, hl, hp⟩

theorem flattenFields_good (m : Fields) (h : GoodFields m) (e : List Str × Value) (he : e ∈ flattenFields m) :
    GoodParts ':' e.1 := by
  refine flattenFields_induct (motive := fun m e => GoodFields m → GoodParts ':' e.1) ?_ ?_ ?_ he h
  · intro k v m _ h
    rw [GoodFields] at h
    exact h.1
  · intro k sub m e hn ih h
    rw [GoodFields, GoodKeys] at h
    exact goodParts_cons h.1 (h.2.1 hn) (ih h.2.2.1)
  · intro x m e ih h
    rw [GoodFields] at h
    exact ih h.2.2.2

theorem flatten_eq_putAll (m : Fields) :
    flatten m = putAll ((flattenFields m).map fun e => (joinKey e.1, e.2)) [] := by
  rw [flatten, putAll, foldl_map]

theorem nodup_keys_flatten (m : Fields) : (keys (flatten m)).Nodup := by
  rw [flatten_eq_putAll]
  exact nodup_keys_putAll _ nodup_nil

theorem exists_of_mem_flatten {e : Str × Value} (he : e ∈ flatten m) :
    ∃ e' ∈ flattenFields m, (joinKey e'.1, e'.2) = e := by
  rw [flatten_eq_putAll] at he
  rcases mem_putAll he with he | he
  · exact mem_map.mp he
  · cases he

/-! ## The round trip -/

theorem flatten_eq (hk : (keys m).Nodup) (hd : DistinctFields m) (hg : GoodFields m) :
    flatten m = (flattenFields m).map fun e => (joinKey e.1, e.2) := by
  rw [flatten, foldl_put_fresh]
  · simp
  · -- The paths come back from their keys, so distinct paths have distinct keys.
    rw [show (flattenFields m).map (fun e => joinKey e.1) = ((flattenFields m).map Prod.fst).map joinKey by simp]
    refine (flattenFields_nodup hk hd).map_on ?_
    intro p hp q hq hpq
    obtain ⟨e, he, rfl⟩ := mem_map.mp hp
    obtain ⟨e', he', rfl⟩ := mem_map.mp hq
    rw [← splitDouble_joinDouble (flattenFields_good m hg e he),
      ← splitDouble_joinDouble (flattenFields_good m hg e' he')]
    exact congrArg _ hpq
  · simp [Lib.keys]

variable (l : List (List Str × Value))

theorem foldl_insertPath_below (acc sub : Fields) (hl : ∀ e ∈ l, e.1 ≠ []) (hk : k ∉ keys acc) :
    l.foldl (fun out e => insertPath (k :: e.1) e.2 out) (acc ++ [(k, .map sub)]) =
      acc ++ [(k, .map (l.foldl (fun out e => insertPath e.1 e.2 out) sub))] := by
  have hf : ∀ s, find k (acc ++ [(k, Value.map s)]) = some (.map s) := by
    intro s
    rw [← put_of_notMem k (.map s) acc hk, find_put_self]
  have hput : ∀ s t, put k (Value.map t) (acc ++ [(k, Value.map s)]) = acc ++ [(k, .map t)] := by
    intro s t
    rw [← put_of_notMem k (.map s) acc hk, put_put, put_of_notMem k (.map t) acc hk]
  induction l generalizing sub with
  | nil => rfl
  | cons e l ih =>
    obtain ⟨p, v⟩ := e
    obtain ⟨k', p, rfl⟩ := exists_cons_of_ne_nil (hl (p, v) mem_cons_self)
    rw [foldl_cons, foldl_cons, insertPath, hf]
    simp only [hput]
    exact ih _ fun e he => hl e (mem_cons_of_mem _ he)

theorem foldl_insertPath_node (acc : Fields) (hne : l ≠ []) (hl : ∀ e ∈ l, e.1 ≠ []) (hk : k ∉ keys acc) :
    l.foldl (fun out e => insertPath (k :: e.1) e.2 out) acc =
      acc ++ [(k, .map (l.foldl (fun out e => insertPath e.1 e.2 out) []))] := by
  obtain ⟨e, l, rfl⟩ := exists_cons_of_ne_nil hne
  obtain ⟨p, v⟩ := e
  obtain ⟨k', p, rfl⟩ := exists_cons_of_ne_nil (hl (p, v) mem_cons_self)
  rw [foldl_cons, foldl_cons, insertPath, (find_none k acc).mpr hk]
  simp only [put_of_notMem k _ acc hk]
  exact foldl_insertPath_below k l acc _ (fun e he => hl e (mem_cons_of_mem _ he)) hk

theorem foldl_insertPath_flattenFields (m acc : Fields) (hk : (keys m).Nodup) (hd : DistinctFields m)
    (hacc : ∀ k ∈ keys m, k ∉ keys acc) :
    (flattenFields m).foldl (fun out e => insertPath e.1 e.2 out) acc = acc ++ m := by
  induction m using fields_induct generalizing acc with
  | nil => simp [flattenFields]
  | leaf k v m hv ih =>
    rw [DistinctFields] at hd
    simp only [Lib.keys, map_cons, nodup_cons] at hk
    rw [flattenFields_leaf k v m hv, foldl_cons, insertPath,
      put_of_notMem k v acc (hacc k (by simp [Lib.keys])), ih _ hk.2 hd.2]
    · simp
    · exact notMem_keys_concat hk.1 hacc
  | node k sub m hs ihs ih =>
    rw [DistinctFields, DistinctKeys] at hd
    simp only [Lib.keys, map_cons, nodup_cons] at hk
    rw [flattenFields_node k sub m hs, foldl_append, foldl_map,
      foldl_insertPath_node k _ acc (flattenFields_ne_nil sub hs) (flattenFields_path_ne_nil sub)
        (hacc k (by simp [Lib.keys])),
      ihs [] hd.1.1 hd.1.2 (by simp [Lib.keys]), ih _ hk.2 hd.2]
    · simp
    · exact notMem_keys_concat hk.1 hacc

/-- `ToStringMap` gives back the tree of a `Conf` whose keys do not hold the delimiter. -/
theorem toStringMap_eq (hk : (keys m).Nodup) (hd : DistinctFields m) (hg : GoodFields m) : toStringMap m = m := by
  rw [toStringMap, unflatten, flatten_eq hk hd hg, foldl_map]
  have hs : ∀ (l : List (List Str × Value)) (acc : Fields), (∀ e ∈ l, GoodParts ':' e.1) →
      l.foldl (fun out e => insertPath (splitKey (joinKey e.1)) e.2 out) acc =
        l.foldl (fun out e => insertPath e.1 e.2 out) acc := by
    intro l acc hl
    refine foldl_ext _ _ _ fun out e he => ?_
    rw [splitKey, joinKey, splitDouble_joinDouble (hl e he)]
  rw [hs _ _ (flattenFields_good m hg)]
  simpa using foldl_insertPath_flattenFields m [] hk hd (by simp [Lib.keys])

end Collector.Confmap
