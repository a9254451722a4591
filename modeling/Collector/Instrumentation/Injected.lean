import Collector.Instrumentation.Enter
import Collector.Strings

/-!
# What the injection library sets

The loop looks for the `=` and for the newline in the whole buffer, with what earlier lines have left there.
-/

namespace Collector.Instrumentation

open Lib Strings List Option

variable {file buffer : Str} {line : Str} (beyond : Str)

/-! ## What the file says -/

def terminated : Str → List Str × Str
  | [] => ([], [])
  | c :: file =>
    match c == '\n', terminated file with
    | true, (lines, rest) => ([] :: lines, rest)
    | false, ([], rest) => ([], c :: rest)
    | false, (line :: lines, rest) => ((c :: line) :: lines, rest)

def fileLines (file : Str) : List Str :=
  ((terminated file).1.takeWhile (·.length < maxLineLength)).take maxLines

def assignment (line : Str) : Option (Str × Str) :=
  if line.head? = some '#' then none else (cut '=' line).filter (' ' ∉ ·.1)

def injected (file : Str) (env : Env) : Env := fun key =>
  (env key).or (if key ∈ allowedEnvVars then find key ((fileLines file).filterMap assignment) else none)

theorem terminated_line (h : '\n' ∉ line) (rest : Str) :
    terminated (line ++ '\n' :: rest) = (line :: (terminated rest).1, (terminated rest).2) := by
  induction line with
  | nil => simp [terminated]
  | cons c line ih =>
    rw [mem_cons, not_or] at h
    have hc : (c == '\n') = false := by simpa using Ne.symm h.1
    simp [terminated, hc, ih h.2]

theorem terminated_open (h : '\n' ∉ file) : terminated file = ([], file) := by
  induction file with
  | nil => rfl
  | cons c file ih =>
    rw [mem_cons, not_or] at h
    have hc : (c == '\n') = false := by simpa using Ne.symm h.1
    simp [terminated, hc, ih h.2]

/-! ## One line -/

def Skipped (line : Str) : Prop :=
  line = [] ∨ line.head? = some '#'

instance (line : Str) : Decidable (Skipped line) :=
  inferInstanceAs (Decidable (_ ∨ _))

def seen (beyond line tail : Str) : Option (Str × Str) :=
  if Skipped line then none
  else
    match cut '=' line with
    | some assigned => some assigned
    | none => (cut '=' tail).map fun left => (line, CString.string nul (left.2 ++ beyond))

def left (line tail : Str) : Str :=
  if Skipped line then line ++ nul :: tail
  else
    match cut '=' line, cut '=' tail with
    | some (key, value), _ => key ++ nul :: (value ++ nul :: tail)
    | none, some (front, value) => line ++ nul :: (front ++ nul :: value)
    | none, none => line ++ nul :: tail

def inject (env : Env) (assigned : Str × Str) : Env :=
  if ' ' ∈ assigned.1 then env
  else if assigned.1 ∈ allowedEnvVars then setenv env assigned.1 assigned.2
  else env

theorem drop_past (s rest : Str) (c : Char) : (s ++ c :: rest).drop (s.length + 1) = rest := by
  simp

theorem inject_eq (buffer key value : Str) (env : Env) : (if ' ' ∈ key then (buffer, env)
      else if key ∈ allowedEnvVars then (buffer, setenv env key value) else (buffer, env)) =
      (buffer, inject env (key, value)) := by
  unfold inject
  split
  · rfl
  · split <;> rfl

theorem injectLine_eq (h : nul ∉ line) (beyond tail : Str) (env : Env) : injectLine beyond (line ++ nul :: tail) env =
      (left line tail, (seen beyond line tail).elim env (inject env)) := by
  have hst : CString.string nul (line ++ nul :: tail) = line := CString.string_append h tail
  unfold injectLine left seen
  rw [hst]
  by_cases he : line = []
  · simp [he, Skipped]
  have hhe : (line ++ nul :: tail).head? = line.head? := by
    cases line with
    | nil => exact absurd rfl he
    | cons c line => rfl
  rw [if_neg (by simpa using he), hhe]
  by_cases hh : line.head? = some '#'
  · simp [hh, Skipped]
  have hsk : ¬ Skipped line := fun hs => hs.elim he hh
  rw [if_neg hh, if_neg hsk, if_neg hsk]
  cases hl : cut '=' line with
  | some assigned =>
    obtain ⟨key, value⟩ := assigned
    obtain ⟨rfl, hkey⟩ := cut_eq '=' line key value hl
    rw [mem_append, mem_cons, not_or, not_or] at h
    rw [append_assoc, cons_append, CString.memchr_append hkey]
    simp only [inject_eq, set_append_right _ _ (Nat.le_refl _), Nat.sub_self, set_cons_zero, drop_past,
      append_assoc, cons_append, CString.string_append h.1, CString.string_append h.2.2, elim_some]
  | none =>
    have hequ : '=' ∉ line := (cut_none '=' line).mp hl
    cases ht : cut '=' tail with
    | some part =>
      obtain ⟨front, value⟩ := part
      obtain ⟨rfl, hf⟩ := cut_eq '=' tail front value ht
      have hnot : '=' ∉ line ++ nul :: front := by simp [hequ, hf, nul]
      have hb : line ++ nul :: (front ++ '=' :: value) = (line ++ nul :: front) ++ '=' :: value := by simp
      have hset : line ++ nul :: front ++ nul :: value = line ++ nul :: (front ++ nul :: value) := by simp
      rw [hb, CString.memchr_append hnot]
      simp only [inject_eq, set_append_right _ _ (Nat.le_refl _), Nat.sub_self, set_cons_zero, drop_past]
      rw [hset, CString.string_append h]
      rfl
    | none =>
      have hn : '=' ∉ line ++ nul :: tail := by simp [hequ, (cut_none '=' tail).mp ht, nul]
      simp [CString.memchr_eq_none.mpr hn]

/-! ## The loop -/

/-- A key and a value that the loop takes, and whether a line of the file gives them. -/
structure Event where
  key : Str
  value : Str
  given : Bool
  deriving DecidableEq

def event (beyond : Str) (ended : Bool) (line tail : Str) : Option Event :=
  (seen beyond line tail).map fun assigned => ⟨assigned.1, assigned.2, ended && '=' ∈ line⟩

def events (beyond : Str) : Nat → Str → List Str → Str → List Event
  | 0, _, _, _ => []
  | _ + 1, buffer, [], rest =>
    if rest = [] then []
    else
      match cut '\n' (buffer.drop (rest.length + 1)) with
      | none => []
      | some (front, back) => (event beyond false rest (front ++ nul :: back)).toList
  | n + 1, buffer, line :: lines, rest =>
    if line.length < maxLineLength then
      let tail := nul :: buffer.drop (line.length + 2)
      (event beyond true line tail).toList ++ events beyond n (left line tail) lines rest
    else []

theorem length_left (line tail : Str) : (left line tail).length = line.length + 1 + tail.length := by
  unfold left
  split
  · simp; omega
  cases hl : cut '=' line with
  | some assigned =>
    obtain ⟨key, value⟩ := assigned
    obtain ⟨rfl, -⟩ := cut_eq '=' line key value hl
    simp; omega
  | none =>
    cases ht : cut '=' tail with
    | some part =>
      obtain ⟨front, value⟩ := part
      obtain ⟨rfl, -⟩ := cut_eq '=' tail front value ht
      simp; omega
    | none => simp; omega

theorem readLines_line (hnl : '\n' ∉ line) (hnul : nul ∉ line) (hlen : line.length < maxLineLength)
    (hb : buffer.length = bufferSize) (beyond rest : Str) (n : Nat) (env : Env) :
    readLines beyond (n + 1) buffer (line ++ '\n' :: rest) env =
      readLines beyond n (left line (nul :: buffer.drop (line.length + 2))) rest
        ((seen beyond line (nul :: buffer.drop (line.length + 2))).elim env (inject env)) := by
  have hf : CString.fgets nul '\n' buffer (line ++ '\n' :: rest) =
      some (line ++ '\n' :: nul :: buffer.drop (line.length + 2), rest) := by
    unfold CString.fgets
    rw [CString.readLine_line hnl (by rw [hb]; exact hlen)]
    simp
  rw [readLines, hf]
  simp only [CString.memchr_append hnl, set_append_right _ _ (Nat.le_refl _), Nat.sub_self, set_cons_zero,
    injectLine_eq hnul]

theorem fgets_open (hnl : '\n' ∉ file.take maxLineLength) (hne : file ≠ [])
    (hb : buffer.length = bufferSize) : CString.fgets nul '\n' buffer file =
      some (file.take maxLineLength ++ nul :: buffer.drop ((file.take maxLineLength).length + 1),
        file.drop maxLineLength) := by
  have hs : buffer.length - 1 = maxLineLength := by rw [hb]; rfl
  unfold CString.fgets
  rw [if_neg (by simpa using hne), hs, CString.readLine_open hnl]

theorem readLines_long (hnl : '\n' ∉ file.take maxLineLength) (hlen : maxLineLength ≤ file.length)
    (hb : buffer.length = bufferSize) (beyond : Str) (n : Nat) (env : Env) :
    readLines beyond n buffer file env = env := by
  have hne : file ≠ [] := by
    rintro rfl
    exact absurd hlen (by decide)
  have hd : buffer.drop ((file.take maxLineLength).length + 1) = [] := by
    rw [length_take_of_le hlen, drop_eq_nil_iff, hb]
    exact Nat.le_refl _
  have hn : CString.memchr (file.take maxLineLength ++ [nul]) '\n' = none := by
    rw [CString.memchr_eq_none]
    simp [hnl, nul]
  rw [readLines, fgets_open hnl hne hb, hd]
  cases n with
  | zero => rfl
  | succ n => simp only [hn]

theorem readLines_open (hnl : '\n' ∉ file) (hnul : nul ∉ file) (hne : file ≠ [])
    (hb : buffer.length = bufferSize) (beyond : Str) (n : Nat) (env : Env) :
    readLines beyond (n + 1) buffer file env =
      match cut '\n' (buffer.drop (file.length + 1)) with
      | none => env
      | some (front, back) => (seen beyond file (front ++ nul :: back)).elim env (inject env) := by
  have ht : '\n' ∉ file.take maxLineLength := fun h => hnl (mem_of_mem_take h)
  by_cases hlen : maxLineLength ≤ file.length
  · have hd : buffer.drop (file.length + 1) = [] := by
      rw [drop_eq_nil_iff, hb]
      exact Nat.succ_le_succ hlen
    rw [readLines_long ht hlen hb, hd]
    rfl
  have hall : file.take maxLineLength = file := take_of_length_le (Nat.le_of_not_le hlen)
  rw [readLines, fgets_open ht hne hb, hall]
  cases hcut : cut '\n' (buffer.drop (file.length + 1)) with
  | none =>
    have hn : CString.memchr (file ++ nul :: buffer.drop (file.length + 1)) '\n' = none := by
      rw [CString.memchr_eq_none]
      simp [hnl, (cut_none _ _).mp hcut, nul]
    simp only [hn]
  | some part =>
    obtain ⟨front, back⟩ := part
    obtain ⟨hta, hf⟩ := cut_eq _ _ _ _ hcut
    have hnot : '\n' ∉ file ++ nul :: front := by simp [hnl, hf, nul]
    have hset : file ++ nul :: front ++ nul :: back = file ++ nul :: (front ++ nul :: back) := by simp
    have hr : file.drop maxLineLength = [] := drop_eq_nil_iff.mpr (Nat.le_of_not_le hlen)
    rw [hta, show file ++ nul :: (front ++ '\n' :: back) = file ++ nul :: front ++ '\n' :: back by simp, hr]
    simp only [CString.memchr_append hnot, set_append_right _ _ (Nat.le_refl _), Nat.sub_self, set_cons_zero]
    rw [hset, injectLine_eq hnul]
    cases n <;> rfl

theorem readLines_eq (n : Nat) (hb : buffer.length = bufferSize)
    (hnul : nul ∉ file) (env : Env) : readLines beyond n buffer file env =
      (events beyond n buffer (terminated file).1 (terminated file).2).foldl
        (fun env e => inject env (e.key, e.value)) env := by
  induction n generalizing buffer file env with
  | zero =>
    rw [readLines, events]
    cases CString.fgets nul '\n' buffer file <;> rfl
  | succ n ih =>
    cases hcut : cut '\n' file with
    | none =>
      have hnl := (cut_none _ _).mp hcut
      rw [terminated_open hnl]
      by_cases hne : file = []
      · subst hne
        rfl
      rw [readLines_open hnl hnul hne hb, events, if_neg hne]
      cases cut '\n' (buffer.drop (file.length + 1)) with
      | none => rfl
      | some part => cases hs : seen beyond file (part.1 ++ nul :: part.2) <;> simp [event, hs]
    | some part =>
      obtain ⟨line, rest⟩ := part
      obtain ⟨rfl, hl⟩ := cut_eq _ _ _ _ hcut
      rw [mem_append, mem_cons, not_or, not_or] at hnul
      rw [terminated_line hl, events]
      split_ifs with hlen
      · rw [readLines_line hl hnul.1 hlen hb, ih ?_ hnul.2.2, foldl_append]
        · cases hs : seen beyond line (nul :: buffer.drop (line.length + 2)) <;> simp [event, hs]
        · rw [length_left, length_cons, length_drop, hb]
          have : line.length + 2 ≤ bufferSize := Nat.succ_le_succ hlen
          omega
      · have hlen := Nat.le_of_not_lt hlen
        refine readLines_long ?_ ?_ hb beyond (n + 1) env
        · rw [take_append_of_le_length hlen]
          exact fun h => hl (mem_of_mem_take h)
        · simp only [length_append]
          omega

/-! ## The environment -/

def first (key : Str) (events : List Event) : Option Event :=
  events.find? (·.key = key)

theorem noSpace_of_allowed : ∀ key ∈ allowedEnvVars, ' ' ∉ key := by
  decide +kernel

theorem inject_apply (env : Env) (assigned : Str × Str) (key : Str) : inject env assigned key =
    (env key).or (if key ∈ allowedEnvVars ∧ assigned.1 = key then some assigned.2 else none) := by
  unfold inject
  split
  · rename_i hs
    have hnot : ¬ (key ∈ allowedEnvVars ∧ assigned.1 = key) := by
      rintro ⟨ha, rfl⟩
      exact noSpace_of_allowed _ ha hs
    rw [if_neg hnot, or_none]
  split
  · rename_i ha
    unfold setenv
    by_cases hkey : assigned.1 = key
    · subst hkey
      cases henv : env assigned.1 <;> simp [henv, ha]
    · cases env assigned.1 <;> simp [hkey, Ne.symm hkey]
  · rename_i ha
    have hnot : ¬ (key ∈ allowedEnvVars ∧ assigned.1 = key) := by
      rintro ⟨hkey, rfl⟩
      exact ha hkey
    rw [if_neg hnot, or_none]

theorem foldl_inject (events : List Event) (env : Env) (key : Str) :
    (events.foldl (fun env e => inject env (e.key, e.value)) env) key =
      (env key).or (if key ∈ allowedEnvVars then (first key events).map (·.value) else none) := by
  induction events generalizing env with
  | nil => simp [first]
  | cons e events ih =>
    rw [foldl_cons, ih, inject_apply, Option.or_assoc]
    congr 1
    by_cases ha : key ∈ allowedEnvVars
    · by_cases hkey : e.key = key <;> simp [ha, hkey, first]
    · simp [ha]

theorem first_event (line tail key : Str) (hkey : ' ' ∉ key) :
    (first key ((event beyond true line tail).toList.filter (·.given))).map (·.value) =
      find key (assignment line).toList := by
  unfold event seen assignment
  by_cases hh : line.head? = some '#'
  · simp [Skipped, hh, first]
  by_cases hem : line = []
  · subst hem
    simp [Skipped, cut, first]
  rw [if_neg fun h : Skipped line => h.elim hem hh, if_neg hh]
  cases hcut : cut '=' line with
  | none =>
    have he := (cut_none '=' line).mp hcut
    cases cut '=' tail <;> simp [first, he]
  | some assigned =>
    have he : '=' ∈ line := by
      by_contra h
      rw [(cut_none '=' line).mpr h] at hcut
      cases hcut
    by_cases ha : assigned.1 = key
    · simp [first, he, ha, find, Option.filter, hkey]
    · by_cases hs : ' ' ∈ assigned.1 <;> simp [first, he, ha, find, Option.filter, hs]

theorem first_given (key : Str) (hkey : ' ' ∉ key) (n : Nat) (buffer : Str) (lines : List Str) (rest : Str) :
    (first key ((events beyond n buffer lines rest).filter (·.given))).map (·.value) =
      find key (((lines.takeWhile (·.length < maxLineLength)).take n).filterMap assignment) := by
  induction n generalizing buffer lines with
  | zero => simp [events, first]
  | succ n ih =>
    cases lines with
    | nil =>
      rw [events]
      split
      · rfl
      · split
        · rfl
        · rename_i front back _
          cases hse : seen beyond rest (front ++ nul :: back) <;> simp [event, hse, first]
    | cons line lines =>
      rw [events]
      split_ifs with hlen
      · have hl := first_event beyond line (nul :: buffer.drop (line.length + 2)) key hkey
        have hs (lines : List Str) : (line :: lines).filterMap assignment =
            (assignment line).toList ++ lines.filterMap assignment := by
          cases h : assignment line <;> simp [h]
        rw [takeWhile_cons_of_pos (by simpa using hlen), take_succ_cons, hs, find_append, ← hl,
          ← ih (left line (nul :: buffer.drop (line.length + 2))), first, filter_append, find?_append,
          map_or]
        rfl
      · simp [takeWhile_cons_of_neg, hlen, first]

def Unspoilt (beyond : Str) (buffer : Buffer) (file : Str) : Prop :=
  ∀ key ∈ allowedEnvVars, ∀ e,
    first key (events beyond maxLines buffer.bytes (terminated file).1 (terminated file).2) = some e →
    e.given = false → find key ((fileLines file).filterMap assignment) = some e.value

theorem first_filter {key : Str} {events : List Event} {e : Event} (h : first key events = some e)
    (hg : e.given = true) : first key (events.filter (·.given)) = some e := by
  induction events with
  | nil => cases h
  | cons d events ih =>
    rw [first, find?_cons] at h
    split at h
    · rename_i hkey
      cases h
      simp [first, hg, hkey]
    · rename_i hkey
      cases hd : d.given
      · simp only [filter_cons, hd]
        exact ih h
      · simp only [filter_cons, hd, if_true, first, find?_cons, hkey]
        exact ih h

theorem readLines_eq_injected_iff (buffer : Buffer) (hnul : nul ∉ file) :
    (∀ env, readLines beyond maxLines buffer.bytes file env = injected file env) ↔ Unspoilt beyond buffer file := by
  have hr := fun env => readLines_eq beyond maxLines buffer.size hnul env
  have hg := fun key hkey => first_given beyond key hkey maxLines buffer.bytes (terminated file).1 (terminated file).2
  constructor
  · intro h key ha e he _
    have hset := congrFun (h fun _ => none) key
    rw [hr, foldl_inject] at hset
    simpa [injected, ha, he] using hset.symm
  · intro h env
    funext key
    rw [hr, foldl_inject]
    unfold injected
    congr 1
    by_cases ha : key ∈ allowedEnvVars
    · rw [if_pos ha, if_pos ha]
      cases hf : first key (events beyond maxLines buffer.bytes (terminated file).1 (terminated file).2) with
      | none =>
        have hn : first key ((events beyond maxLines buffer.bytes (terminated file).1 (terminated file).2).filter
            (·.given)) = none := by
          rw [first, find?_eq_none] at hf ⊢
          exact fun e he => hf e (mem_filter.mp he).1
        rw [fileLines, ← hg key (noSpace_of_allowed key ha), hn]
      | some e =>
        cases he : e.given with
        | false => exact (h key ha e hf he).symm
        | true =>
          rw [fileLines, ← hg key (noSpace_of_allowed key ha), first_filter hf he]
    · simp [ha]

/-! ## The library -/

def expected (programInvocationShortName : Str) (files : Str → Option Str) (env : Env) : Env :=
  match (envVarFile programInvocationShortName).bind files with
  | none => env
  | some file => injected file env

/-- The library sets what the file says just when the buffer spoils nothing. -/
theorem enter_eq_expected_iff (programInvocationShortName : Str) (files : Str → Option Str)
    (hnul : ∀ path file, files path = some file → nul ∉ file) (buffer : Buffer) (beyond : Str) :
    (∀ env, enter programInvocationShortName files buffer beyond env = expected programInvocationShortName files env) ↔
      ∀ path file, envVarFile programInvocationShortName = some path → files path = some file →
        Unspoilt beyond buffer file := by
  unfold enter expected
  cases hp : envVarFile programInvocationShortName with
  | none => simp
  | some path =>
    cases hf : files path with
    | none =>
      refine iff_of_true (fun _ => by simp [hf]) ?_
      rintro _ file ⟨⟩ hs
      exact nomatch hf.symm.trans hs
    | some file =>
      simp only [bind_some, hf, readLines_eq_injected_iff beyond buffer (hnul path file hf)]
      constructor
      · rintro h _ other ⟨⟩ ho
        cases hf.symm.trans ho
        exact h
      · exact fun h => h path file rfl hf

def zeros : Buffer :=
  ⟨List.replicate bufferSize nul, length_replicate⟩

def serviceFile : Str :=
  "OTEL_SERVICE_NAME=checkout\n# comment\n"

theorem enter_serviceFile : enter "java" (fun _ => some serviceFile) zeros [] (fun _ => none) =
    expected "java" (fun _ => some serviceFile) (fun _ => none) := by
  have hnul : ∀ path file, (fun _ : Str => some serviceFile) path = some file → nul ∉ file := by
    rintro path file ⟨⟩
    decide +kernel
  refine (enter_eq_expected_iff _ _ hnul zeros []).mpr ?_ _
  rintro path file - ⟨⟩ key - e he hg
  have hev : events [] maxLines zeros.bytes (terminated serviceFile).1 (terminated serviceFile).2 =
      [⟨"OTEL_SERVICE_NAME", "checkout", true⟩] := by
    decide +kernel
  rw [hev] at he
  have hmem := mem_of_find?_eq_some he
  simp only [mem_singleton] at hmem
  rw [hmem] at hg
  cases hg

def bareFile : Str :=
  "# OTEL_SERVICE_NAME=old\nNODE_OPTIONS\n"

theorem enter_bareFile : enter "node".toList (fun _ => some bareFile) zeros [] (fun _ => none) "NODE_OPTIONS".toList =
      some "old".toList ∧
    expected "node".toList (fun _ => some bareFile) (fun _ => none) "NODE_OPTIONS".toList = none := by
  decide +kernel

end Collector.Instrumentation
