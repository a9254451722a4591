import Collector.Confmap

/-!
# `Conf.Get`, `Conf.Sub` and `Conf.Merge`

`Get` also finds the maps on the way to the leaves.
-/

namespace Collector.Confmap

open Lib

variable (k : Str)

def valueAt (m : Fields) : List Str → Option Value
  | [] => none
  | [k] => find k m
  | k :: k' :: p =>
    match find k m with
    | some (.map sub) => valueAt sub (k' :: p)
    | _ => none

def lookup (conf : Fields) (key : Str) : Value := (valueAt conf (splitKey key)).getD .null

def sub (conf : Fields) (key : Str) : Option Fields :=
  match lookup conf key with
  | .null => some []
  | .map m => some (newFromStringMap m)
  | _ => none

def merge (conf other : Fields) : Fields := mergeInto other conf

theorem valueAt_congr {m m' : Fields} {k : Str} (h : find k m = find k m') (p : List Str) :
    valueAt m (k :: p) = valueAt m' (k :: p) := by
  cases p with
  | nil => exact h
  | cons k' p => rw [valueAt, valueAt, h]

def parted : List Str → List Str → Bool
  | a :: p, b :: q => a ≠ b || parted p q
  | _, _ => false

theorem mergeInto_single (w : Value) (m : Fields) : mergeInto [(k, w)] m = put k (mergeValue w (find k m)) m := by
  rw [mergeInto, mergeInto]

variable (p : List Str)

theorem insertPath_single (v : Value) : ∃ w, insertPath (k :: p) v [] = [(k, w)] := by
  cases p with
  | nil => exact ⟨v, rfl⟩
  | cons j p => exact ⟨_, rfl⟩

theorem mergeInto_insertPath_nil (v : Value) :
    mergeInto (insertPath (k :: p) v []) [] = insertPath (k :: p) v [] := by
  obtain ⟨w, hw⟩ := insertPath_single k p v
  rw [hw, mergeInto_single, find_nil, mergeValue.eq_def]
  cases w <;> rfl

theorem valueAt_nil : valueAt [] p = none := by
  match p with
  | [] | [_] | _ :: _ :: _ => rfl

theorem valueAt_mergeInto_insertPath {p q : List Str} (h : parted p q = true) (v : Value) (m : Fields) :
    valueAt (mergeInto (insertPath p v []) m) q = valueAt m q := by
  induction p generalizing q m with
  | nil => cases h
  | cons k p ih =>
    cases q with
    | nil => cases h
    | cons k' q =>
      rw [parted, Bool.or_eq_true, decide_eq_true_eq] at h
      by_cases hk : k = k'
      · have hp := h.resolve_left (not_not.mpr hk)
        subst hk
        match p, q, hp with
        | j :: p, i :: q, hp =>
          have ih := @ih (i :: q) hp
          -- where no map stands at `k`, the new one holds the one path only
          have hnew : valueAt (insertPath (j :: p) v []) (i :: q) = none := by
            rw [← mergeInto_insertPath_nil, ih, valueAt_nil]
          have hi : insertPath (k :: j :: p) v [] = [(k, .map (insertPath (j :: p) v []))] := rfl
          rw [hi, mergeInto_single, valueAt, valueAt, find_put_self]
          cases hk : find k m with
          | none => exact hnew
          | some w =>
            cases w with
            | map sub =>
              rw [mergeValue]
              exact ih sub
            | null | bool _ | int _ | float _ | str _ | bytes _ | list _ | imap _ => exact hnew
      · obtain ⟨w, hw⟩ := insertPath_single k p v
        rw [hw, mergeInto_single]
        exact valueAt_congr (find_put_ne _ m (Ne.symm hk)) q

theorem lookup_merge {key key' : Str} (h : parted (splitKey key) (splitKey key') = true) (v : Value) (conf : Fields) :
    lookup (merge conf (newFromStringMap [(key, v)])) key' = lookup conf key' := by
  rw [lookup, lookup, merge, newFromStringMap, unflatten, List.foldl_cons, List.foldl_nil,
    valueAt_mergeInto_insertPath h]

end Collector.Confmap
