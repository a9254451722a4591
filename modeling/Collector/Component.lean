import Collector.Strings

/-! # Component IDs

The IDs of the collector's `component` package: a type, and a name that may be empty. -/

namespace Collector

open Strings List

variable {type : Str}

structure ComponentID where
  type : Str
  name : Str
  deriving DecidableEq

inductive IDErr where
  | empty
  | emptyType (id : Str)
  | emptyName (id : Str)
  | invalidType (id type : Str)
  deriving DecidableEq

def isLetter (c : Char) : Bool := ('a' ≤ c && c ≤ 'z') || ('A' ≤ c && c ≤ 'Z')

def isDigit (c : Char) : Bool := '0' ≤ c && c ≤ '9'

/-- The type matches `^[a-zA-Z][0-9a-zA-Z_]*$`. -/
def validType : Str → Bool
  | [] => false
  | c :: s => isLetter c && s.all fun c => isLetter c || isDigit c || c = '_'

namespace ComponentID

def unmarshalText (text : Str) : Except IDErr ComponentID :=
  match cut '/' text with
  | none =>
    let type := trimSpace text
    if type = [] then .error .empty
    else if validType type then .ok ⟨type, []⟩
    else .error (.invalidType text type)
  | some (a, b) =>
    let type := trimSpace a
    let name := trimSpace b
    if type = [] then .error (.emptyType text)
    else if name = [] then .error (.emptyName text)
    else if validType type then .ok ⟨type, name⟩
    else .error (.invalidType text type)

def string (id : ComponentID) : Str := if id.name = [] then id.type else id.type ++ '/' :: id.name

theorem slash_notMem_of_validType (h : validType type) : '/' ∉ type := by
  cases type with
  | nil => simp
  | cons c s =>
    simp only [validType, Bool.and_eq_true, all_eq_true] at h
    intro hmem
    rcases mem_cons.mp hmem with hc | hs
    · rw [← hc] at h
      exact absurd h.1 (by decide)
    · exact absurd (h.2 _ hs) (by decide)

theorem string_injective (a b : ComponentID) (ha : validType a.type) (hb : validType b.type)
    (h : a.string = b.string) : a = b := by
  have hsa := slash_notMem_of_validType ha
  have hsb := slash_notMem_of_validType hb
  obtain ⟨ta, na⟩ := a
  obtain ⟨tb, nb⟩ := b
  simp only at hsa hsb
  unfold string at h
  simp only at h
  split at h <;> split at h
  · simp_all
  · exact absurd (h ▸ by simp) hsa
  · exact absurd (h ▸ by simp) hsb
  · have hta : ∀ t n : Str, '/' ∉ t → (t ++ '/' :: n).takeWhile (· ≠ '/') = t := by
      intro t n ht
      have hall : ∀ c ∈ t, decide (c ≠ '/') = true := by
        intro c hc
        have : c ≠ '/' := by rintro rfl; exact ht hc
        simpa using this
      rw [takeWhile_append_of_pos hall]
      simp
    have ht : ta = tb := by rw [← hta ta na hsa, ← hta tb nb hsb, h]
    subst ht
    simpa using h

end ComponentID

end Collector
