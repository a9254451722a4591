import Mathlib.Data.List.TakeWhile

/-!
# Strings in a buffer

The functions of the C library, with `nul` for the end of a string and `nl` for the end of a line.
-/

namespace Collector.Lib.CString

open List

variable {α : Type} [DecidableEq α]

def string (nul : α) (bytes : List α) : List α :=
  bytes.takeWhile (· ≠ nul)

def memchr (buffer : List α) (c : α) : Option Nat :=
  buffer.idxOf? c

/-- At most `n` characters, up to the end of the line, and what is left. -/
def readLine (nl : α) : Nat → List α → List α × List α
  | 0, file => ([], file)
  | _ + 1, [] => ([], [])
  | n + 1, c :: file =>
    if c = nl then ([c], file)
    else
      let (line, rest) := readLine nl n file
      (c :: line, rest)

def fgets (nul nl : α) (buffer file : List α) : Option (List α × List α) :=
  if file.isEmpty then none
  else
    let (line, rest) := readLine nl (buffer.length - 1) file
    some (line ++ nul :: buffer.drop (line.length + 1), rest)

/-! ## Strings and positions -/

variable {s : List α}

theorem string_append {nul : α} (h : nul ∉ s) (rest : List α) : string nul (s ++ nul :: rest) = s := by
  unfold string
  rw [takeWhile_append_of_pos]
  · simp
  · intro c hc
    simpa using fun hcn : c = nul => h (hcn ▸ hc)

variable {c : α}

theorem memchr_append (h : c ∉ s) (rest : List α) : memchr (s ++ c :: rest) c = some s.length := by
  induction s with
  | nil => simp [memchr, idxOf?_cons]
  | cons d s ih =>
    rw [mem_cons, not_or] at h
    rw [memchr] at ih
    simp [memchr, idxOf?_cons, Ne.symm h.1, ih h.2]

theorem memchr_eq_none {buffer : List α} : memchr buffer c = none ↔ c ∉ buffer :=
  idxOf?_eq_none_iff

/-! ## Lines -/

variable {nl : α} {n : Nat}

theorem readLine_line {line : List α} (h : nl ∉ line) (hn : line.length < n) (rest : List α) :
    readLine nl n (line ++ nl :: rest) = (line ++ [nl], rest) := by
  induction line generalizing n with
  | nil =>
    obtain ⟨n, rfl⟩ := Nat.exists_eq_succ_of_ne_zero (Nat.ne_of_gt hn)
    simp [readLine]
  | cons c line ih =>
    rw [mem_cons, not_or] at h
    obtain ⟨n, rfl⟩ := Nat.exists_eq_succ_of_ne_zero (Nat.ne_of_gt (Nat.zero_lt_of_lt hn))
    simp [readLine, Ne.symm h.1, ih h.2 (Nat.lt_of_succ_lt_succ hn)]

theorem readLine_open {file : List α} (h : nl ∉ file.take n) : readLine nl n file = (file.take n, file.drop n) := by
  induction n generalizing file with
  | zero => simp [readLine]
  | succ n ih =>
    cases file with
    | nil => rfl
    | cons c file =>
      rw [take_succ_cons, mem_cons, not_or] at h
      simp [readLine, Ne.symm h.1, ih h.2]

end Collector.Lib.CString
