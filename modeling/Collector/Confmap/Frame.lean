import Collector.Confmap.Leaves
import Collector.Confmap.Lookup

/-!
# What a change leaves alone

A change of a configuration at some paths, and the leaves of all others.
-/

namespace Collector.Confmap

open Lib List

variable {k : Str}

def SameOff (ps : List (List Str)) (m m' : Fields) : Prop :=
  ∀ p, (∀ q ∈ ps, parted q p = true) → leafAt m' p = leafAt m p

section
variable {ps qs : List (List Str)} {m m' m'' : Fields}

theorem SameOff.rfl : SameOff ps m m := fun _ _ => Eq.refl _

theorem SameOff.trans (h : SameOff ps m m') (h' : SameOff qs m' m'') : SameOff (ps ++ qs) m m'' := by
  intro p hp
  rw [forall_mem_append] at hp
  rw [h' p hp.2, h p hp.1]

theorem sameOff_of_find (h : ∀ j ≠ k, find j m' = find j m) : SameOff [[k]] m m' := by
  intro p hp
  have hpa := hp [k] mem_cons_self
  cases p with
  | nil => cases hpa
  | cons j p =>
    have hj : j ≠ k := by
      rintro rfl
      simp [parted] at hpa
    rw [leafAt, leafAt, h j hj]

theorem sameOff_put (k : Str) (v : Value) (m : Fields) : SameOff [[k]] m (put k v m) :=
  sameOff_of_find fun _ hj => find_put_ne v m hj

theorem sameOff_remove (k : Str) (m : Fields) : SameOff [[k]] m (remove k m) :=
  sameOff_of_find fun _ hj => find_remove_ne hj m

theorem SameOff.put_map {sub sub' : Fields} (h : SameOff ps sub sub') (hne : ps ≠ [])
    (hsub : ∀ j q, leafAt m (k :: j :: q) = leafAt sub (j :: q)) :
    SameOff (ps.map (k :: ·)) m (put k (.map sub') m) := by
  intro p hp
  rw [forall_mem_map] at hp
  obtain ⟨q₀, hq₀⟩ := exists_mem_of_ne_nil ps hne
  cases p with
  | nil => cases hp q₀ hq₀
  | cons j p =>
    rw [leafAt_put]
    by_cases hj : j = k
    · subst hj
      have hb : ∀ q ∈ ps, parted q p = true := by
        intro q hq
        simpa [parted] using hp q hq
      cases p with
      | nil =>
        have := hb q₀ hq₀
        cases q₀ <;> cases this
      | cons j' p => rw [if_pos (Eq.refl j), leafOf_map, h _ hb, hsub]
    · rw [if_neg hj]

end

theorem Clean.remove {m : Fields} (hm : Clean m) (k : Str) : Clean (remove k m) := by
  induction m with
  | nil => exact hm
  | cons e m ih =>
    obtain ⟨j, v⟩ := e
    obtain ⟨hmem, he, hr⟩ := clean_cons.mp hm
    unfold Lib.remove at ih ⊢
    by_cases hj : j = k
    · simpa [hj] using ih hr
    · have hmem' : j ∉ keys (m.filter fun e => e.1 ≠ k) :=
        fun h => hmem (map_subset _ (filter_subset_self _) h)
      simpa [hj] using clean_cons.mpr ⟨hmem', he, ih hr⟩

theorem Clean.put_section {m sub : Fields} (hm : Clean m) (hk : ':' ∉ k) (hsub : Clean sub) :
    Clean (Lib.put k (.map sub) m) :=
  hm.put (cleanEntry_map (noDouble_of_notMem hk) (fun _ hl => hk (mem_of_getLast? hl)) hsub)

theorem Clean.put_leaf {m : Fields} (hm : Clean m) (hk : ':' ∉ k) {v : Value} (hv : isNode v = false) :
    Clean (Lib.put k v m) :=
  hm.put (cleanEntry_leaf (noDouble_of_notMem hk) hv)

end Collector.Confmap
