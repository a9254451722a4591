import Collector.Confmap.Lookup
import Collector.Confmap.Rewrite
import Collector.ConfigConverter.Discovery
import Collector.Lib.Regex

/-!
# Levels and detectors

`loglevel_to_verbosity.go` and `normalize_gcp.go` of `internal/configconverter`, which look at the values of matching
flat keys.
-/

namespace Collector.ConfigConverter

open Lib Lib.Outcome Lib.Regex Confmap Strings

variable {conf : Fields} {k : Str}

namespace LogLevelToVerbosity

inductive Level where
  | debug
  | info
  | warn
  | error
  | dpanic
  | panic
  | fatal
  | other (n : Int)

inductive Verbosity where
  | none
  | basic
  | normal
  | detailed

def Verbosity.string : Verbosity → Str
  | .none => "None"
  | .basic => "Basic"
  | .normal => "Normal"
  | .detailed => "Detailed"

def mapLevel : Level → Option Verbosity
  | .debug => some .detailed
  | .info => some .normal
  | .warn | .error | .dpanic | .panic | .fatal => some .basic
  | .other _ => none

def logging : Str := "exporters::logging"

/-- The expression `exporters::logging(/.+)?::loglevel`. -/
def re : Pattern Char :=
  seq (lit logging) (seq (opt (group 1 (seq (lit ['/']) (plus dot)))) (lit "::loglevel"))

def verbosityKey (m : Match Char) : Str := logging ++ m.group 1 ++ "::verbosity"

variable (unmarshalText : Str → Option Level)

def translate (verbosityKey k : Str) (v : Value) (out : Fields) : Result Fields := do
  let level ← asString v
  match (unmarshalText level).bind mapLevel with
  | none => return put k v out
  | some verbosityLevel => return put verbosityKey (.str verbosityLevel.string) out

def step (conf out : Fields) (k : Str) : Result Fields :=
  match search re k with
  | none => .ok (put k (get conf k) out)
  | some m =>
    match lookup conf (verbosityKey m) with
    | .null => translate unmarshalText (verbosityKey m) k (get conf k) out
    | _ => .ok out

def convert (conf : Fields) : Result Fields := do
  let out ← (sortStrings (allKeys conf)).foldlM (step unmarshalText conf) []
  return newFromStringMap out

def WellFormed (conf : Fields) (k : Str) : Prop :=
  ∀ m, search re k = some m → lookup conf (verbosityKey m) = .null → ∃ s, get conf k = .str s

theorem safe_asString (v : Value) : Safe (asString v) ↔ ∃ s, v = .str s := by
  cases v <;> simp [asString]

theorem translate_eq (key k s : Str) (out : Fields) :
    ∃ out', translate unmarshalText key k (.str s) out = .ok out' := by
  simp only [translate, asString, bind, Except.bind]
  split
  · exact ⟨_, rfl⟩
  · exact ⟨_, rfl⟩

theorem step_eq (h : WellFormed conf k) (out : Fields) : ∃ out', step unmarshalText conf out k = .ok out' := by
  rw [step]
  split
  · exact ⟨_, rfl⟩
  · rename_i m hm
    split
    · rename_i hv
      obtain ⟨s, hs⟩ := h m hm hv
      rw [hs]
      exact translate_eq unmarshalText _ k s out
    · exact ⟨_, rfl⟩

theorem wellFormed_of_safe {out : Fields} (h : Safe (step unmarshalText conf out k)) : WellFormed conf k := by
  intro m hm hv
  rw [step, hm] at h
  simp only [hv] at h
  exact (safe_asString _).mp ((safe_bind _ _).mp h).1

theorem safe_convert (conf : Fields) : Safe (convert unmarshalText conf) ↔ ∀ k ∈ allKeys conf, WellFormed conf k := by
  have hl : Safe ((sortStrings (allKeys conf)).foldlM (step unmarshalText conf) []) ↔
      ∀ k ∈ sortStrings (allKeys conf), WellFormed conf k := by
    refine safe_foldlM (fun _ _ => True) ?_ ?_ trivial
    · intro k l out _ h
      obtain ⟨out', hout'⟩ := step_eq unmarshalText h out
      exact ⟨out', hout', trivial⟩
    · exact fun k l out _ => wellFormed_of_safe unmarshalText
  simp only [mem_sortStrings] at hl
  rw [convert, safe_bind, hl]
  exact and_iff_left fun out _ => safe_ok (newFromStringMap out)

end LogLevelToVerbosity

namespace NormalizeGcp

/-- The expression `processors::resourcedetection(?P<processor_name>/(?:[^:]|:[^:])+)?::detectors`. -/
def resourceDetectorRE : Pattern Char :=
  seq (lit "processors::resourcedetection")
    (seq (opt (group 1 (seq (lit ['/']) (some1 (alt (one (· != ':')) (seq (lit [':']) (one (· != ':'))))))))
      (lit "::detectors"))

/-- The loop over the detectors. The first of the old names becomes `gcp`, and nil goes. -/
def normalize : Bool → List Value → List Value
  | _, [] => []
  | found, .str s :: vs =>
    if s = "gce" ∨ s = "gke" then
      if found then normalize true vs else .str "gcp" :: normalize true vs
    else .str s :: normalize found vs
  | found, .null :: vs => normalize found vs
  | found, v :: vs => v :: normalize found vs

def rule : KeyRule := fun k v =>
  match search resourceDetectorRE k, v with
  | some _, .list vs => some (k, .list (normalize false vs))
  | _, _ => none

def convert (conf : Fields) : Result Fields := .ok (merge conf (newFromStringMap (rewriteKeys rule conf)))

end NormalizeGcp

end Collector.ConfigConverter
