import Collector.Lib.Assoc
import Collector.Lib.MapTree

/-!
# Layers of nested maps

Where no map has a leaf on the way to a leaf of another one, each leaf of the result is that of the last map that was
merged over, or else of the first one that was merged under.
-/

namespace Collector.Lib.MapTree

open List Option

variable {K L : Type}
variable {t u : MapTree K L} {l : L} {p : List K}

def leafAt (p : List K) (t : MapTree K L) : Option L :=
  match t.at_ p with
  | .leaf l => some l
  | _ => none

theorem leafAt_eq_some : leafAt p t = some l ↔ t.at_ p = leaf l := by
  unfold leafAt
  cases t.at_ p <;> simp

theorem leafAt_eq_none : leafAt p t = none ↔ ∀ l, t.at_ p ≠ leaf l := by
  unfold leafAt
  cases t.at_ p <;> simp

/-! ## What a merge has at a path -/

theorem leafAt_merge (hu : ¬ u.Avoids p) : leafAt p (t.merge u) = leafAt p u := by
  induction p generalizing t u with
  | nil => cases u <;> cases t <;> simp_all [leafAt]
  | cons k p ih =>
    cases u with
    | absent => exact absurd (avoids_absent _) hu
    | leaf l => rw [merge_leaf]
    | node m' =>
      cases t with
      | absent => rw [absent_merge]
      | leaf l => rw [leaf_merge_node]
      | node m => exact ih hu

variable {ts : List (MapTree K L)}

theorem at_foldl_merge (h : ∀ u ∈ ts, u.Avoids p) (t : MapTree K L) : (ts.foldl merge t).at_ p = t.at_ p := by
  induction ts generalizing t with
  | nil => rfl
  | cons u ts ih =>
    rw [forall_mem_cons] at h
    rw [foldl_cons, ih h.2, at_merge_left h.1]

theorem leafAt_foldl_merge (h : ∃ u ∈ ts, ¬ u.Avoids p) (t t' : MapTree K L) :
    leafAt p (ts.foldl merge t) = leafAt p (ts.foldl merge t') := by
  induction ts using reverseRecOn with
  | nil => obtain ⟨u, hu, -⟩ := h; cases hu
  | append_singleton ts u ih =>
    rw [foldl_concat, foldl_concat]
    by_cases hu : u.Avoids p
    · have hb : ∃ u ∈ ts, ¬ u.Avoids p := by
        obtain ⟨w, hw, hnot⟩ := h
        rcases mem_append.mp hw with hw | hw
        · exact ⟨w, hw, hnot⟩
        · exact absurd (mem_singleton.mp hw ▸ hu) hnot
      have hl : ∀ t : MapTree K L, leafAt p (t.merge u) = leafAt p t := by
        intro t
        rw [leafAt, at_merge_left hu, ← leafAt]
      rw [hl, hl, ih hb]
    · rw [leafAt_merge hu, leafAt_merge hu]

def branches [DecidableEq K] (l : List (K × List (MapTree K L))) : List (MapTree K L) :=
  l.flatMap fun e => e.2.map (single e.1)

theorem at_foldl_merge_branches [DecidableEq K] {l : List (K × List (MapTree K L))} (hl : (keys l).Nodup)
    (t : MapTree K L) (k : K) (q : List K) :
    ((branches l).foldl merge t).at_ (k :: q) = (((find k l).getD []).foldl merge (t.at_ [k])).at_ q := by
  have he : ∀ (j : K) (ts : List (MapTree K L)) (t : MapTree K L), ((ts.map (single j)).foldl merge t).at_ [k] =
      if j = k then ts.foldl merge (t.at_ [k]) else t.at_ [k] := by
    intro j ts
    induction ts with
    | nil => simp
    | cons u ts ih =>
      intro t
      rw [map_cons, foldl_cons, ih, at_merge_single, foldl_cons]
      by_cases hj : j = k <;> simp [hj]
  rw [← singleton_append, at_append]
  congr 1
  induction l generalizing t with
  | nil => rfl
  | cons e l ih =>
    obtain ⟨hmem, hr⟩ := nodup_cons.mp hl
    rw [branches, flatMap_cons, ← branches, foldl_append, ih hr, he, find]
    by_cases hk : e.1 = k
    · have hn : find k l = none := (find_none k l).mpr (hk ▸ hmem)
      rw [if_pos hk, if_pos hk, hn]
      rfl
    · rw [if_neg hk, if_neg hk]

theorem at_merge_leaf (h : (t.merge u).at_ p = leaf l) :
    u.at_ p = leaf l ∨ (u.at_ p = absent ∧ t.at_ p = leaf l) := by
  induction p generalizing t u with
  | nil => cases u <;> cases t <;> simp_all
  | cons k p ih =>
    match t, u with
    | t, .absent =>
      rw [merge_absent] at h
      exact Or.inr ⟨at_absent _, h⟩
    | t, .leaf l' =>
      rw [merge_leaf] at h
      cases h
    | .absent, .node m => exact Or.inl h
    | .leaf l', .node m => exact Or.inl h
    | .node m, .node m' => exact ih h

variable {m : K → MapTree K L}

theorem at_merge_isNode (h : (t.merge u).at_ p = node m) : (∃ m, t.at_ p = node m) ∨ ∃ m, u.at_ p = node m := by
  induction p generalizing t u with
  | nil => cases u <;> cases t <;> simp_all
  | cons k p ih =>
    match t, u with
    | t, .absent =>
      rw [merge_absent] at h
      exact Or.inl ⟨m, h⟩
    | t, .leaf l' =>
      rw [merge_leaf] at h
      cases h
    | .absent, .node m' => exact Or.inr ⟨m, h⟩
    | .leaf l', .node m' => exact Or.inr ⟨m, h⟩
    | .node m', .node m'' => exact ih h

/-- No leaf in front of the end of the path. -/
def Clear (p : List K) (t : MapTree K L) : Prop := ∀ x y, p = x ++ y → y ≠ [] → ∀ l, t.at_ x ≠ leaf l

theorem at_merge_ne_absent (hu : Clear p u)
    (h : t.at_ p ≠ absent ∨ u.at_ p ≠ absent) : (t.merge u).at_ p ≠ absent := by
  induction p generalizing t u with
  | nil => cases u <;> cases t <;> simp_all
  | cons k p ih =>
    match t, u with
    | t, .absent => simpa using h
    | t, .leaf l => exact absurd rfl (hu [] (k :: p) rfl (by simp) l)
    | .absent, .node m => simpa using h
    | .leaf l, .node m => simpa using h
    | .node m, .node m' =>
      exact ih (fun x y hxy hy => hu (k :: x) y (by rw [hxy]; rfl) hy) h

/-! ## Layers -/

inductive Layer (K L : Type) where
  | upper (t : MapTree K L)
  | lower (t : MapTree K L)

def Layer.tree : Layer K L → MapTree K L
  | .upper t => t
  | .lower t => t

def Layer.apply (conf : MapTree K L) : Layer K L → MapTree K L
  | .upper t => conf.merge t
  | .lower t => t.merge conf

variable {layers : List (Layer K L)}

def uppers (layers : List (Layer K L)) : List (MapTree K L) := layers.filterMap fun layer =>
  match layer with
  | .upper t => some t
  | .lower _ => none

def lowers (layers : List (Layer K L)) : List (MapTree K L) := layers.filterMap fun layer =>
  match layer with
  | .upper _ => none
  | .lower t => some t

theorem mem_uppers_or_lowers {layer : Layer K L} (h : layer ∈ layers) :
    layer.tree ∈ uppers layers ∨ layer.tree ∈ lowers layers := by
  cases layer with
  | upper t => exact Or.inl (mem_filterMap.mpr ⟨_, h, rfl⟩)
  | lower t => exact Or.inr (mem_filterMap.mpr ⟨_, h, rfl⟩)

theorem mem_of_mem_uppers (h : t ∈ uppers layers) : Layer.upper t ∈ layers := by
  obtain ⟨layer, hl, heq⟩ := mem_filterMap.mp h
  cases layer with
  | upper u =>
    cases heq
    exact hl
  | lower u => cases heq

theorem mem_of_mem_lowers (h : t ∈ lowers layers) : Layer.lower t ∈ layers := by
  obtain ⟨layer, hl, heq⟩ := mem_filterMap.mp h
  cases layer with
  | upper u => cases heq
  | lower u =>
    cases heq
    exact hl

theorem uppers_map_upper (ts : List (MapTree K L)) (layers : List (Layer K L)) :
    uppers (ts.map Layer.upper ++ layers) = ts ++ uppers layers := by
  induction ts with
  | nil => rfl
  | cons t ts ih => exact congrArg (t :: ·) ih

theorem lowers_map_upper (ts : List (MapTree K L)) (layers : List (Layer K L)) :
    lowers (ts.map Layer.upper ++ layers) = lowers layers := by
  induction ts with
  | nil => rfl
  | cons t ts ih => exact ih

def emptyNode : MapTree K L := node fun _ => absent

theorem at_emptyNode_ne_leaf (p : List K) (l : L) : (emptyNode : MapTree K L).at_ p ≠ leaf l := by
  unfold emptyNode
  cases p <;> simp

def layered (layers : List (Layer K L)) : MapTree K L := layers.foldl Layer.apply emptyNode

theorem layered_upper (layers : List (Layer K L)) (t : MapTree K L) :
    layered (layers ++ [.upper t]) = (layered layers).merge t := by
  unfold layered
  rw [foldl_concat]
  rfl

theorem layered_lower (layers : List (Layer K L)) (t : MapTree K L) :
    layered (layers ++ [.lower t]) = t.merge (layered layers) := by
  unfold layered
  rw [foldl_concat]
  rfl

def topLeaf (p : List K) (layers : List (Layer K L)) : Option L :=
  ((uppers layers).reverse.findSome? (leafAt p)).or ((lowers layers).findSome? (leafAt p))

theorem topLeaf_upper (p : List K) (layers : List (Layer K L)) (t : MapTree K L) :
    topLeaf p (layers ++ [.upper t]) = (leafAt p t).or (topLeaf p layers) := by
  unfold topLeaf uppers lowers
  rw [filterMap_append, filterMap_append]
  cases h : leafAt p t <;> simp [h]

theorem topLeaf_lower (p : List K) (layers : List (Layer K L)) (t : MapTree K L) :
    topLeaf p (layers ++ [.lower t]) = (topLeaf p layers).or (leafAt p t) := by
  unfold topLeaf uppers lowers
  rw [filterMap_append, filterMap_append]
  simp [Option.or_assoc]

theorem exists_of_topLeaf (h : topLeaf p layers = some l) : ∃ layer ∈ layers, layer.tree.at_ p = leaf l := by
  unfold topLeaf at h
  rw [or_eq_some_iff] at h
  rcases h with h | ⟨-, h⟩
  · obtain ⟨t, ht, hl⟩ := exists_of_findSome?_eq_some h
    exact ⟨.upper t, mem_of_mem_uppers (mem_reverse.mp ht), leafAt_eq_some.mp hl⟩
  · obtain ⟨t, ht, hl⟩ := exists_of_findSome?_eq_some h
    exact ⟨.lower t, mem_of_mem_lowers ht, leafAt_eq_some.mp hl⟩

/-! ## The leaves of the result -/

theorem exists_of_layered (P : MapTree K L → Prop) (he : ¬ P emptyNode)
    (hm : ∀ t u, P (t.merge u) → P t ∨ P u) (h : P (layered layers)) :
    ∃ layer ∈ layers, P layer.tree := by
  induction layers using reverseRecOn with
  | nil => exact absurd h he
  | append_singleton layers layer ih =>
    have hs : P (layered layers) ∨ P layer.tree := by
      cases layer with
      | upper t =>
        rw [layered_upper] at h
        exact hm _ _ h
      | lower t =>
        rw [layered_lower] at h
        exact (hm _ _ h).symm
    rcases hs with hl | hla
    · obtain ⟨layer', hmem, hP⟩ := ih hl
      exact ⟨layer', mem_append_left _ hmem, hP⟩
    · exact ⟨layer, by simp, hla⟩

theorem exists_leaf_of_layered
    (h : (layered layers).at_ p = leaf l) : ∃ layer ∈ layers, layer.tree.at_ p = leaf l := by
  refine exists_of_layered (fun t => t.at_ p = leaf l) (at_emptyNode_ne_leaf p l) ?_ h
  intro t u hl
  rcases at_merge_leaf hl with hu | ⟨-, ht⟩
  · exact Or.inr hu
  · exact Or.inl ht

section

variable (hc : ∀ layer ∈ layers, Clear p layer.tree)
include hc

theorem clear_layered : Clear p (layered layers) := by
  intro x y hxy hy l hle
  obtain ⟨layer, hla, hl⟩ := exists_leaf_of_layered hle
  exact hc layer hla x y hxy hy l hl

theorem layered_ne_absent (h : ∃ layer ∈ layers, layer.tree.at_ p ≠ absent) : (layered layers).at_ p ≠ absent := by
  induction layers using reverseRecOn with
  | nil =>
    obtain ⟨layer, hl, -⟩ := h
    cases hl
  | append_singleton layers layer ih =>
    have hb : ∀ layer ∈ layers, Clear p layer.tree :=
      fun layer' h' => hc layer' (mem_append_left _ h')
    have hp : layer.tree.at_ p ≠ absent ∨ (layered layers).at_ p ≠ absent := by
      obtain ⟨layer', hl', hne⟩ := h
      rcases mem_append.mp hl' with hl' | hl'
      · exact Or.inr (ih hb ⟨layer', hl', hne⟩)
      · rw [mem_singleton.mp hl'] at hne
        exact Or.inl hne
    cases layer with
    | upper t =>
      rw [layered_upper]
      exact at_merge_ne_absent (hc (.upper t) (by simp)) hp.symm
    | lower t =>
      rw [layered_lower]
      exact at_merge_ne_absent (clear_layered hb) hp

theorem topLeaf_of_layered (h : (layered layers).at_ p = leaf l) : topLeaf p layers = some l := by
  induction layers using reverseRecOn with
  | nil => exact absurd h (at_emptyNode_ne_leaf p l)
  | append_singleton layers layer ih =>
    have hb : ∀ layer ∈ layers, Clear p layer.tree :=
      fun layer' h' => hc layer' (mem_append_left _ h')
    cases layer with
    | upper t =>
      rw [layered_upper] at h
      rw [topLeaf_upper]
      rcases at_merge_leaf h with ht | ⟨ht, hla⟩
      · rw [leafAt_eq_some.mpr ht, some_or]
      · rw [ih hb hla, leafAt_eq_none.mpr (by simp [ht]), none_or]
    | lower t =>
      rw [layered_lower] at h
      rw [topLeaf_lower]
      rcases at_merge_leaf h with hla | ⟨ha, ht⟩
      · rw [ih hb hla, some_or]
      · -- Nothing is there before this layer, so no layer before it has a leaf there.
        cases htop : topLeaf p layers with
        | none => rw [leafAt_eq_some.mpr ht, none_or]
        | some l' =>
          obtain ⟨layer', hlay', hl'⟩ := exists_of_topLeaf htop
          exact absurd ha (layered_ne_absent hb ⟨layer', hlay', by simp [hl']⟩)

end

theorem exists_node_of_layered (hp : p ≠ []) (h : (layered layers).at_ p = node m) :
    ∃ layer ∈ layers, ∃ m, layer.tree.at_ p = node m := by
  refine exists_of_layered (fun t => ∃ m, t.at_ p = node m) ?_ ?_ ⟨m, h⟩
  · rintro ⟨m, hn⟩
    cases p with
    | nil => exact absurd rfl hp
    | cons k p => simp [emptyNode] at hn
  · rintro t u ⟨m, hn⟩
    exact at_merge_isNode hn

/-! ## Layers without conflicts -/

/-- No map has a leaf at a proper prefix of the path of another leaf. -/
def ConflictFree (inputs : List (MapTree K L)) : Prop :=
  ∀ t ∈ inputs, ∀ u ∈ inputs, ∀ p q l l', t.at_ p = leaf l → u.at_ (p ++ q) = leaf l' → q = []

theorem ConflictFree.clear {inputs : List (MapTree K L)} (hf : ConflictFree inputs)
    (ht : t ∈ inputs) (hu : u ∈ inputs) (hl : u.at_ p = leaf l) :
    Clear p t := by
  intro x y hxy hy l' hl'
  rw [hxy] at hl
  exact hy (hf t ht u hu x y l' l hl' hl)

section
variable {inputs : List (MapTree K L)} {layers : List (Layer K L)}

theorem ConflictFree.topLeaf (hf : ConflictFree inputs) (hin : ∀ layer ∈ layers, layer.tree ∈ inputs)
    (h : (layered layers).at_ p = leaf l) : topLeaf p layers = some l := by
  obtain ⟨layer, hla, hl⟩ := exists_leaf_of_layered h
  exact topLeaf_of_layered (fun layer' h' => hf.clear (hin layer' h') (hin layer hla) hl) h

theorem ConflictFree.leafAt_layered (hf : ConflictFree inputs)
    (hin : ∀ layer ∈ layers, layer.tree ∈ inputs) (hp : p ≠ [])
    (hn : ∀ layer ∈ layers, ∀ m, layer.tree.at_ p ≠ node m) :
    leafAt p (layered layers) = MapTree.topLeaf p layers := by
  cases htop : MapTree.topLeaf p layers with
  | none =>
    rw [leafAt_eq_none]
    intro l hl
    rw [hf.topLeaf hin hl] at htop
    cases htop
  | some l =>
    obtain ⟨layer, hla, hl⟩ := exists_of_topLeaf htop
    have hne := layered_ne_absent (fun layer' h' => hf.clear (hin layer' h') (hin layer hla) hl)
      ⟨layer, hla, by simp [hl]⟩
    cases hat : (layered layers).at_ p with
    | absent => exact absurd hat hne
    | leaf l' => rw [leafAt_eq_some.mpr hat, ← hf.topLeaf hin hat, htop]
    | node m =>
      obtain ⟨layer', hla', m', hm'⟩ := exists_node_of_layered hp hat
      exact absurd hm' (hn layer' hla' m')

end

end Collector.Lib.MapTree
