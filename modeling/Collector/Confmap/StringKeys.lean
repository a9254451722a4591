import Collector.Confmap.Merge

/-!
# Maps that have been converted

`maps.IntfaceKeysToStrings` changes nothing in what it has converted, or in merges of it.
-/

namespace Collector.Confmap

open Lib List

variable {sprint : Value → Str} (k : Str) {m : Fields} {v : Value}

theorem intfaceKeysToStrings_put (v : Value) (m : Fields) :
    intfaceKeysToStrings sprint (put k v m) = put k (intfaceValue sprint v) (intfaceKeysToStrings sprint m) := by
  rw [intfaceKeysToStrings_eq, intfaceKeysToStrings_eq, put_map_snd]

theorem intface_fields_idem (h : ∀ e ∈ m, intfaceValue sprint (intfaceValue sprint e.2) = intfaceValue sprint e.2) :
    intfaceKeysToStrings sprint (intfaceKeysToStrings sprint m) = intfaceKeysToStrings sprint m := by
  rw [intfaceKeysToStrings_eq, intfaceKeysToStrings_eq, map_map]
  exact map_congr_left fun e he => congrArg (Prod.mk e.1) (h e he)

theorem intface_entries_idem {m : List (Value × Value)}
    (h : ∀ e ∈ m, intfaceValue sprint (intfaceValue sprint e.2) = intfaceValue sprint e.2) {x : Fields}
    (hx : intfaceKeysToStrings sprint x = x) :
    intfaceKeysToStrings sprint (intfaceEntries sprint m x) = intfaceEntries sprint m x := by
  induction m generalizing x with
  | nil => simpa only [intfaceEntries] using hx
  | cons e m ih =>
    obtain ⟨k, v⟩ := e
    rw [forall_mem_cons] at h
    rw [intfaceEntries]
    refine ih h.2 ?_
    rw [intfaceKeysToStrings_put, h.1, hx]

theorem intfaceValue_idem (v : Value) : intfaceValue sprint (intfaceValue sprint v) = intfaceValue sprint v ∧
      intfaceElem sprint (intfaceElem sprint v) = intfaceElem sprint v := by
  induction v using Value.induct with
  | null | bool _ | int _ | float _ | str _ | bytes _ => simp only [intfaceValue, intfaceElem, and_self]
  | list vs ih =>
    have hel : intfaceElems sprint (intfaceElems sprint vs) = intfaceElems sprint vs := by
      rw [intfaceElems_eq, intfaceElems_eq, map_map]
      exact map_congr_left fun v hv => (ih v hv).2
    simp only [intfaceValue, intfaceElem, hel, and_self]
  | map m ih =>
    have hm := intface_fields_idem fun e he => (ih e he).1
    simp only [intfaceValue, intfaceElem, hm, and_self]
  | imap m ih =>
    have hm := intface_entries_idem (fun e he => (ih e he).1) (x := []) (by rw [intfaceKeysToStrings])
    simp only [intfaceValue, intfaceElem, hm, and_self]

def Converted (sprint : Value → Str) (m : Fields) : Prop := intfaceKeysToStrings sprint m = m

theorem converted_intfaceKeysToStrings (m : Fields) : Converted sprint (intfaceKeysToStrings sprint m) :=
  intface_fields_idem fun e _ => (intfaceValue_idem e.2).1

theorem converted_of_map (h : intfaceValue sprint (.map m) = .map m) : Converted sprint m := by
  rw [intfaceValue] at h
  exact Value.map.inj h

theorem Converted.find (hm : Converted sprint m) {k : Str} (hv : find k m = some v) : intfaceValue sprint v = v := by
  have hf := find_map_snd (intfaceValue sprint) k m
  rw [← intfaceKeysToStrings_eq, hm, hv, Option.map_some, Option.some.injEq] at hf
  exact hf.symm

theorem intfaceValue_mergeValue {o : Option Value} (hv : intfaceValue sprint v = v)
    (ho : ∀ w, o = some w → intfaceValue sprint w = w)
    (hsub : ∀ src dst, v = .map src → Converted sprint src → Converted sprint dst →
      Converted sprint (mergeInto src dst)) :
    intfaceValue sprint (mergeValue v o) = mergeValue v o := by
  cases v with
  | map src =>
    cases o with
    | none => simpa only [mergeValue] using hv
    | some w =>
      cases w with
      | map dst =>
        have hm := hsub src dst rfl (converted_of_map hv) (converted_of_map (ho _ rfl))
        rw [mergeValue, intfaceValue, hm]
      | _ => simpa only [mergeValue] using hv
  | _ => simpa only [mergeValue] using hv

theorem Converted.mergeInto {src dst : Fields} (hsrc : Converted sprint src) (hdst : Converted sprint dst) :
    Converted sprint (mergeInto src dst) := by
  induction src using maps_induct generalizing dst with
  | nil => simpa only [Confmap.mergeInto] using hdst
  | cons k v m ihs ih =>
    rw [Converted, intfaceKeysToStrings, cons.injEq, Prod.mk.injEq] at hsrc
    obtain ⟨⟨-, hv⟩, hm⟩ := hsrc
    rw [Confmap.mergeInto]
    refine ih hm ?_
    rw [Converted, intfaceKeysToStrings_put, hdst,
      intfaceValue_mergeValue hv (fun w hw => hdst.find hw) fun src dst hv hs hd => ihs src hv hs hd]

end Collector.Confmap
