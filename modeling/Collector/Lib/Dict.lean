import Collector.Lib.Assoc

/-!
# Maps with distinct keys

A loop over one map that writes the same key of another map changes each key once.
-/

namespace Collector.Lib

open List Option

structure Dict (K V : Type) where
  entries : List (K × V)
  nodup : (keys entries).Nodup

namespace Dict

variable {K V W : Type}

def empty : Dict K V := ⟨[], List.nodup_nil⟩

variable [DecidableEq K]

def get (m : Dict K V) (k : K) : Option V := find k m.entries

def set (m : Dict K V) (k : K) (v : V) : Dict K V := ⟨put k v m.entries, nodup_keys_put k v m.nodup⟩

theorem forall_get {P : K → V → Prop} {m : Dict K V} (h : ∀ e ∈ m.entries, P e.1 e.2) :
    ∀ k v, m.get k = some v → P k v :=
  fun k v hv => h (k, v) (find_mem k v m.entries hv)

theorem get_set (m : Dict K V) (k j : K) (v : V) : (m.set k v).get j = if j = k then some v else m.get j :=
  find_put k j v m.entries

def rangeSet (f : W → Option V → Option V) (src : Dict K W) (dst : Dict K V) : Option (Dict K V) :=
  src.entries.foldlM (fun dst e => (f e.2 (dst.get e.1)).map (dst.set e.1)) dst

theorem exists_foldlM_set {f : W → Option V → Option V} {l : List (K × W)} (hl : (keys l).Nodup) {dst : Dict K V}
    (hf : ∀ e ∈ l, (f e.2 (dst.get e.1)).isSome = true) :
    ∃ m, l.foldlM (fun dst e => (f e.2 (dst.get e.1)).map (dst.set e.1)) dst = some m ∧
      ∀ k, m.get k = (find k l).elim (dst.get k) fun w => f w (dst.get k) := by
  induction l generalizing dst with
  | nil => exact ⟨dst, rfl, fun _ => rfl⟩
  | cons e l ih =>
    obtain ⟨hnm, hre⟩ := nodup_cons.mp hl
    obtain ⟨v, hv⟩ := isSome_iff_exists.mp (hf e mem_cons_self)
    -- the keys that come later still have the values that they had
    have hla : ∀ k ∈ keys l, (dst.set e.1 v).get k = dst.get k := by
      intro k hk
      rw [get_set, if_neg]
      rintro rfl
      exact hnm hk
    have hr : ∀ e' ∈ l, (f e'.2 ((dst.set e.1 v).get e'.1)).isSome = true := by
      intro e' he'
      rw [hla e'.1 (mem_map_of_mem he')]
      exact hf e' (mem_cons_of_mem e he')
    obtain ⟨m, hm, hget⟩ := ih hre hr
    refine ⟨m, ?_, fun k => ?_⟩
    · rw [foldlM_cons, hv]
      exact hm
    · rw [hget, find]
      by_cases hk : e.1 = k
      · subst hk
        rw [(find_none _ _).mpr hnm, if_pos rfl, elim_none, get_set, if_pos rfl, elim_some, hv]
      · rw [if_neg hk, get_set, if_neg (Ne.symm hk)]

theorem exists_rangeSet (f : W → Option V → Option V) (src : Dict K W) (dst : Dict K V)
    (hf : ∀ k w, src.get k = some w → (f w (dst.get k)).isSome = true) :
    ∃ m, src.rangeSet f dst = some m ∧ ∀ k, m.get k = (src.get k).elim (dst.get k) fun w => f w (dst.get k) :=
  exists_foldlM_set src.nodup fun e he => hf e.1 e.2 (find_of_mem src.nodup he)

end Dict

end Collector.Lib
