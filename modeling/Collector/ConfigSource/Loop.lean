import Collector.ConfigSource.Resolve

/-!
# The loop over a string

How it passes over consumed characters, plain text and a reference.
-/

namespace Collector.ConfigSource

open Lib Strings List

/-- Induction along a string as the loop reads it. -/
theorem scan_induct (dd : Bool) {motive : Nat → Str → Prop} (nil : ∀ n, motive n [])
    (skip : ∀ n c rest, motive n rest → motive (n + 1) (c :: rest))
    (text : ∀ c rest, ¬ (c = '$' ∧ rest ≠ []) → motive 0 rest → motive 0 (c :: rest))
    (env : ∀ rest e, rest ≠ [] → expandableAt dd rest = e → e.cfgSrcName = [] → motive e.consumed rest →
      motive 0 ('$' :: rest))
    (invocation : ∀ rest e, rest ≠ [] → expandableAt dd rest = e → e.cfgSrcName ≠ [] → motive e.consumed rest →
      motive 0 ('$' :: rest)) (n : Nat) (rest : Str) : motive n rest := by
  induction rest generalizing n with
  | nil => exact nil n
  | cons c rest ih =>
    cases n with
    | succ n => exact skip n c rest (ih n)
    | zero =>
      by_cases hc : c = '$' ∧ rest ≠ []
      · obtain ⟨rfl, hr⟩ := hc
        by_cases hn : (expandableAt dd rest).cfgSrcName = []
        · exact env rest _ hr rfl hn (ih _)
        · exact invocation rest _ hr rfl hn (ih _)
      · exact text c rest hc (ih 0)

variable {ext : Externals} {retrieve : Str → Str → History → Res Value × History} {pending : Str} {buf : Option Str}
  {closeFuncs : List (Option CloseFunc)} {h : History}

theorem resolveStringLoop_skip (skip : Nat) (rest : Str) :
    resolveStringLoop ext retrieve skip pending buf closeFuncs rest h =
      resolveStringLoop ext retrieve 0 pending buf closeFuncs (rest.drop skip) h := by
  induction rest generalizing skip with
  | nil =>
    rw [drop_nil]
    cases buf <;> simp [resolveStringLoop]
  | cons c rest ih =>
    cases skip with
    | zero => rfl
    | succ skip => rw [resolveStringLoop, drop_succ_cons, ih]

variable {text : Str}

theorem resolveStringLoop_text (ht : '$' ∉ text) (rest : Str) :
    resolveStringLoop ext retrieve 0 pending buf closeFuncs (text ++ rest) h =
      resolveStringLoop ext retrieve 0 (pending ++ text) buf closeFuncs rest h := by
  induction text generalizing pending with
  | nil => simp
  | cons c text ih =>
    simp only [mem_cons, not_or] at ht
    rw [cons_append, resolveStringLoop, if_neg (fun hc => ht.1 hc.1.symm), ih ht.2, append_assoc,
      singleton_append]

theorem resolveStringLoop_nil : resolveStringLoop ext retrieve 0 pending buf closeFuncs [] h =
      (⟨.str (buf.getD [] ++ pending), mergeCloseFuncs closeFuncs, none⟩, h) := by
  cases buf <;> simp [resolveStringLoop]

theorem resolveStringLoop_end (ht : '$' ∉ text) : resolveStringLoop ext retrieve 0 pending buf closeFuncs text h =
      (⟨.str (buf.getD [] ++ (pending ++ text)), mergeCloseFuncs closeFuncs, none⟩, h) := by
  have hl : resolveStringLoop ext retrieve 0 pending buf closeFuncs (text ++ []) h = _ := resolveStringLoop_text ht []
  rwa [append_nil, resolveStringLoop_nil] at hl

section
variable {rest : Str} {e : Expandable} (hr : rest ≠ []) (he : expandableAt ext.ddBackwardCompatible rest = e)
include hr he

theorem resolveStringLoop_env (hn : e.cfgSrcName = []) :
    resolveStringLoop ext retrieve 0 pending buf closeFuncs ('$' :: rest) h =
      resolveStringLoop ext retrieve e.consumed []
        (some (buf.getD [] ++ pending ++ osExpandEnv ext.env e.content e.consumed)) closeFuncs rest h := by
  rw [resolveStringLoop, if_pos ⟨rfl, hr⟩]
  simp only [he, hn, if_true]

variable {r : Res Value} {h' : History} (hn : e.cfgSrcName ≠ [])
  (hret : retrieve e.cfgSrcName e.content h = (r, h'))
include hn hret

theorem resolveStringLoop_fail {err : Err} (herr : r.err = some err) :
    resolveStringLoop ext retrieve 0 pending buf closeFuncs ('$' :: rest) h = (.fail .null err, h') := by
  rw [resolveStringLoop, if_pos ⟨rfl, hr⟩]
  simp only [he, if_neg hn, hret, herr]

theorem resolveStringLoop_whole (herr : r.err = none) (hall : e.consumed = rest.length)
    (hbuf : buf.getD [] ++ pending = []) : resolveStringLoop ext retrieve 0 pending buf closeFuncs ('$' :: rest) h =
      (⟨wholeValue ext r.value, mergeCloseFuncs (appendClose closeFuncs r.close), none⟩, h') := by
  rw [resolveStringLoop, if_pos ⟨rfl, hr⟩]
  simp only [he, if_neg hn, hret, herr, hall, hbuf, and_self, if_true]

theorem resolveStringLoop_splice (herr : r.err = none)
    (hp : ¬ (e.consumed = rest.length ∧ buf.getD [] ++ pending = [])) :
    resolveStringLoop ext retrieve 0 pending buf closeFuncs ('$' :: rest) h =
      resolveStringLoop ext retrieve e.consumed []
        (some (buf.getD [] ++ pending ++ spliced ext r.value)) (appendClose closeFuncs r.close) rest h' := by
  rw [resolveStringLoop, if_pos ⟨rfl, hr⟩]
  simp only [he, if_neg hn, hret, herr, if_neg hp]

end

end Collector.ConfigSource
