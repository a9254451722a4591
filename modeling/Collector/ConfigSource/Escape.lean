import Collector.ConfigSource.Loop

/-!
# Escaped text

`$$` stands for `$`. Only the compatibility switch can take a doubled `$` for the start of an invocation, which has a
`:`.
-/

namespace Collector.ConfigSource

open Lib Strings List

variable (t : Str) {c : Char} {s : Str}

def esc (t : Str) : Str := t.flatMap fun c => if c = '$' then ['$', '$'] else [c]

@[simp] theorem esc_nil : esc [] = [] := rfl

@[simp] theorem esc_dollar : esc ('$' :: t) = '$' :: '$' :: esc t := rfl

theorem esc_cons (hc : c ≠ '$') (t : Str) : esc (c :: t) = c :: esc t := by
  simp [esc, hc]

theorem colon_mem_esc : ':' ∈ esc t ↔ ':' ∈ t := by
  induction t with
  | nil => rfl
  | cons c t ih =>
    by_cases hc : c = '$'
    · subst hc
      simp [ih]
    · simp [esc_cons hc, ih]

/-! ## Without a `:` there is no invocation -/

theorem mem_of_mem_scanToClosingBracket (h : c ∈ (scanToClosingBracket s).1) : c ∈ s := by
  unfold scanToClosingBracket at h
  split at h
  · cases h
  · cases h
  · rename_i name rest _ hcut
    obtain ⟨hs, -⟩ := cut_eq '}' _ name rest hcut
    apply mem_of_mem_drop (i := 1)
    rw [hs]
    exact mem_append_left _ h

theorem getBracketedExpandableContent_noColon (h : ':' ∉ s) : (getBracketedExpandableContent s).cfgSrcName = [] := by
  have hcut : cut ':' (trim (scanToClosingBracket s).1) = none := by
    rw [cut_none]
    exact fun hmem => h (mem_of_mem_scanToClosingBracket (mem_of_mem_trim hmem))
  unfold getBracketedExpandableContent
  simp only [hcut]

theorem getBareExpandableContent_noColon (h : ':' ∉ s) : (getBareExpandableContent s).cfgSrcName = [] := by
  unfold getBareExpandableContent
  dsimp only
  split_ifs with hc
  · exact absurd (mem_of_getElem? hc) h
  · rfl

theorem expandableAt_escaped {dd : Bool} {t : Str} (h : dd = true → ':' ∉ t) :
    expandableAt dd ('$' :: t) = ⟨['$'], 1, []⟩ := by
  have hn (hdd : dd = true) :
      (if t.head? = some '{' then getBracketedExpandableContent t else getBareExpandableContent t).cfgSrcName = [] := by
    split
    · exact getBracketedExpandableContent_noColon (h hdd)
    · exact getBareExpandableContent_noColon (h hdd)
  unfold expandableAt
  cases dd with
  | false => rfl
  | true => simp [hn rfl]

/-! ## The loop -/

theorem resolveStringLoop_esc {ext : Externals} (retrieve : Str → Str → History → Res Value × History) (pending : Str)
    (buf : Option Str) {t : Str} (h : History) (ht : ext.ddBackwardCompatible = true → ':' ∉ t) :
    resolveStringLoop ext retrieve 0 pending buf [] (esc t) h =
      (⟨.str (buf.getD [] ++ pending ++ t), none, none⟩, h) := by
  induction t generalizing pending buf with
  | nil =>
    rw [esc_nil, resolveStringLoop_nil, append_nil]
    rfl
  | cons c t ih =>
    have hta : ext.ddBackwardCompatible = true → ':' ∉ t := fun hdd hmem => ht hdd (mem_cons_of_mem c hmem)
    by_cases hc : c = '$'
    · subst hc
      have he : expandableAt ext.ddBackwardCompatible ('$' :: esc t) = ⟨['$'], 1, []⟩ := by
        apply expandableAt_escaped
        rw [colon_mem_esc]
        exact hta
      have hd : osExpandEnv ext.env ['$'] 1 = ['$'] := rfl
      rw [esc_dollar, resolveStringLoop_env (cons_ne_nil _ _) he rfl, hd, resolveStringLoop_skip, drop_one,
        tail_cons, ih _ _ hta]
      simp
    · have hte : '$' ∉ [c] := by simpa using Ne.symm hc
      rw [esc_cons hc, ← singleton_append, resolveStringLoop_text hte, ih _ _ hta]
      simp

/-- Escaped text comes out as it was, and nothing is retrieved: with the switch on, for every text without a `:`. -/
theorem resolveStringValue_esc (ext : Externals) (srcs : Sources) (fuel : Nat) (t : Str) (h : History)
    (ht : ext.ddBackwardCompatible = true → ':' ∉ t) :
    resolveStringValue ext srcs fuel (esc t) h = (⟨.str t, none, none⟩, h) := by
  cases fuel with
  | zero =>
    unfold resolveStringValue
    exact resolveStringLoop_esc _ [] none h ht
  | succ fuel =>
    unfold resolveStringValue
    exact resolveStringLoop_esc _ [] none h ht

theorem resolveStringValue_esc_home : ':' ∉ "$$\x7bHOME\x7d$PATH$".toList ∧
    resolveStringValue { plainExternals with ddBackwardCompatible := true } noSources 0
        (esc "$$\x7bHOME\x7d$PATH$") [] = (⟨.str "$$\x7bHOME\x7d$PATH$", none, none⟩, []) := by
  have hc : ':' ∉ "$$\x7bHOME\x7d$PATH$".toList := by decide
  exact ⟨hc, resolveStringValue_esc _ noSources 0 _ [] fun _ => hc⟩

end Collector.ConfigSource
