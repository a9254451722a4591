import Mathlib.Logic.Function.Basic
import Mathlib.Data.List.Infix

/-!
# Nested maps

A map is a function on all keys, so two maps with the same entries are equal. `merge` is biased to its right argument.
-/

namespace Collector.Lib

open List Function

inductive MapTree (K L : Type) where
  | absent
  | leaf (l : L)
  | node (children : K → MapTree K L)

namespace MapTree

variable {K L : Type}
variable {p : List K} {t : MapTree K L}

def at_ : MapTree K L → List K → MapTree K L
  | t, [] => t
  | .node m, k :: p => (m k).at_ p
  | _, _ :: _ => .absent

@[simp] theorem at_nil (t : MapTree K L) : t.at_ [] = t := by cases t <;> rfl

variable (m : K → MapTree K L)

@[simp] theorem at_node (k : K) (p : List K) :
    (node m).at_ (k :: p) = (m k).at_ p := rfl

@[simp] theorem at_leaf (l : L) (k : K) (p : List K) : (leaf l : MapTree K L).at_ (k :: p) = absent := rfl

@[simp] theorem at_absent (p : List K) : (absent : MapTree K L).at_ p = absent := by
  cases p <;> rfl

theorem at_append (t : MapTree K L) (p q : List K) : t.at_ (p ++ q) = (t.at_ p).at_ q := by
  induction p generalizing t with
  | nil => simp
  | cons k p ih => cases t <;> simp [ih]

/-! ## The deep merge -/

def merge : MapTree K L → MapTree K L → MapTree K L
  | .node m, .node m' => .node fun k => (m k).merge (m' k)
  | t, .absent => t
  | _, t => t

@[simp] theorem merge_absent (t : MapTree K L) : t.merge absent = t := by cases t <;> rfl

@[simp] theorem absent_merge (t : MapTree K L) : absent.merge t = t := by cases t <;> rfl

@[simp] theorem merge_leaf (t : MapTree K L) (l : L) : t.merge (leaf l) = leaf l := by cases t <;> rfl

@[simp] theorem leaf_merge_node (l : L) (m : K → MapTree K L) :
    (leaf l).merge (node m) = node m := rfl

@[simp] theorem node_merge_node (m' : K → MapTree K L) :
    (node m).merge (node m') = node fun k => (m k).merge (m' k) := rfl

theorem merge_self (t : MapTree K L) : t.merge t = t := by
  induction t with
  | absent => rfl
  | leaf l => rfl
  | node m ih => simp [ih]

theorem merge_merge_self (t u : MapTree K L) : (t.merge u).merge u = t.merge u := by
  induction t generalizing u with
  | absent => simp [merge_self]
  | leaf l => cases u <;> simp [merge_self]
  | node m ih => cases u <;> simp [ih]

theorem foldl_merge_absent {ts : List (MapTree K L)} (hne : ts ≠ []) (hn : ∀ t ∈ ts, ∃ m, t = node m) :
    ts.foldl merge absent = ts.foldl merge (node fun _ => absent) := by
  cases ts with
  | nil => exact absurd rfl hne
  | cons t ts =>
    obtain ⟨m, rfl⟩ := hn t mem_cons_self
    simp

/-! ## Paths that a tree does not touch -/

def Avoids : MapTree K L → List K → Prop
  | .absent, _ => True
  | .node m, k :: p => (m k).Avoids p
  | _, _ => False

@[simp] theorem avoids_absent (p : List K) : (absent : MapTree K L).Avoids p := by cases p <;> trivial

@[simp] theorem avoids_node (k : K) (p : List K) :
    (node m).Avoids (k :: p) ↔ (m k).Avoids p := Iff.rfl

theorem Avoids.at_ (h : t.Avoids p) : t.at_ p = absent := by
  induction p generalizing t with
  | nil => cases t <;> first | rfl | exact h.elim
  | cons k p ih =>
    cases t with
    | absent => rfl
    | leaf l => exact h.elim
    | node m => exact ih h

theorem avoids_iff : t.Avoids p ↔ t.at_ p = absent ∧ ∀ q l, q <+: p → t.at_ q ≠ leaf l := by
  induction p generalizing t with
  | nil => cases t <;> simp [Avoids]
  | cons k p ih =>
    cases t with
    | absent => simp
    | leaf l => exact iff_of_false id fun h => h.2 [] l nil_prefix rfl
    | node m =>
      rw [avoids_node, ih, at_node]
      refine and_congr_right fun _ => ⟨fun h q l hq => ?_, fun h q l hq => ?_⟩
      · cases q with
        | nil => simp
        | cons j q =>
          obtain ⟨rfl, hb⟩ := cons_prefix_cons.mp hq
          exact h q l hb
      · exact h (k :: q) l (cons_prefix_cons.mpr ⟨rfl, hq⟩)

theorem Avoids.append (h : t.Avoids p) (q : List K) : t.Avoids (p ++ q) := by
  induction p generalizing t with
  | nil => cases t <;> first | exact avoids_absent _ | exact h.elim
  | cons k p ih =>
    cases t with
    | absent => exact avoids_absent _
    | leaf l => exact h.elim
    | node m => exact ih h

variable {u : MapTree K L}

theorem Avoids.merge (ht : t.Avoids p) (hu : u.Avoids p) : (t.merge u).Avoids p := by
  induction p generalizing t u with
  | nil =>
    cases t <;> cases u <;> first | exact avoids_absent _ | exact ht.elim | exact hu.elim
  | cons k p ih =>
    cases t with
    | absent => simpa using hu
    | leaf l => exact ht.elim
    | node m =>
      cases u with
      | absent => simpa using ht
      | leaf l => exact hu.elim
      | node m' => exact ih ht hu

theorem at_merge_left (hu : u.Avoids p) : (t.merge u).at_ p = t.at_ p := by
  induction p generalizing t u with
  | nil => cases u <;> first | exact hu.elim | simp
  | cons k p ih =>
    cases u with
    | absent => simp
    | leaf l => exact hu.elim
    | node m' =>
      cases t with
      | absent => simpa using Avoids.at_ hu
      | leaf l => simpa using Avoids.at_ hu
      | node m => exact ih hu

theorem at_merge_right (ht : t.Avoids p) : (t.merge u).at_ p = u.at_ p := by
  induction p generalizing t u with
  | nil => cases t <;> first | exact ht.elim | simp
  | cons k p ih =>
    cases t with
    | absent => simp
    | leaf l => exact ht.elim
    | node m =>
      cases u with
      | absent => simpa using Avoids.at_ ht
      | leaf l => rfl
      | node m' => exact ih ht

/-! ## Updates at a key -/

section
variable [DecidableEq K]

def single (k : K) (t : MapTree K L) : MapTree K L := node fun k' => if k' = k then t else absent

def set (u : MapTree K L) (k : K) (t : MapTree K L) : MapTree K L :=
  match u with
  | .node m => .node (Function.update m k t)
  | _ => single k t

variable (k : K)

@[simp] theorem at_single_self (t : MapTree K L) (p : List K) :
    (single k t).at_ (k :: p) = t.at_ p := by simp [single]

theorem at_single_ne {k k' : K} (t : MapTree K L) (p : List K) (h : k' ≠ k) :
    (single k t).at_ (k' :: p) = absent := by simp [single, h]

@[simp] theorem avoids_single_self (t : MapTree K L) (p : List K) :
    (single k t).Avoids (k :: p) ↔ t.Avoids p := by simp [single]

theorem at_merge_single (t u : MapTree K L) (k j : K) :
    (t.merge (single k u)).at_ [j] = if k = j then (t.at_ [j]).merge u else t.at_ [j] := by
  by_cases hk : k = j
  · subst hk
    cases t <;> simp [single]
  · cases t <;> simp [single, hk, Ne.symm hk]

theorem node_merge_single (m : K → MapTree K L) (k : K) (t : MapTree K L) :
    (node m).merge (single k t) = node (update m k ((m k).merge t)) := by
  refine congrArg node (funext fun j => ?_)
  by_cases hj : j = k
  · subst hj
    simp
  · simp [hj]

theorem foldl_merge_single (m : K → MapTree K L) (k : K) (ts : List (MapTree K L)) :
    (ts.map (single k)).foldl merge (node m) = node (update m k (ts.foldl merge (m k))) := by
  induction ts generalizing m with
  | nil => simp
  | cons t ts ih => rw [map_cons, foldl_cons, node_merge_single, ih]; simp

def path (p : List K) (t : MapTree K L) : MapTree K L := p.foldr single t

@[simp] theorem path_cons (p : List K) (t : MapTree K L) : path (k :: p) t = single k (path p t) := rfl

theorem avoids_single_ne (k' : K) (t : MapTree K L) (p : List K) (h : k' ≠ k) :
    (single k t).Avoids (k' :: p) := by simp [single, h]

@[simp] theorem at_set_self (u : MapTree K L) (k : K) (t : MapTree K L) (p : List K) :
    (u.set k t).at_ (k :: p) = t.at_ p := by
  cases u <;> simp [set]

theorem at_set_ne (u : MapTree K L) {k k' : K} (t : MapTree K L) (p : List K) (h : k' ≠ k) :
    (u.set k t).at_ (k' :: p) = u.at_ (k' :: p) := by
  cases u <;> simp [set, at_single_ne _ _ h, update_of_ne h]

end

end MapTree

end Collector.Lib
