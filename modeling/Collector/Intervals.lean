import Collector.Lib.Runs

/-!
# Schedules

`RunOnArrayOfIntervals` of `pkg/utils/time.go`. The arrays of the run time are written out, as the caller keeps a
slice of one of them.
-/

namespace Collector.Intervals

open Lib List

variable {D : Type}

structure Slice where
  array : Nat
  start : Nat
  len : Nat
  cap : Nat

abbrev Heap (D : Type) := List (List D)

def read (heap : Heap D) (s : Slice) : List D := ((heap[s.array]?.getD []).drop s.start).take s.len

/-- `append` writes to the array if it has the capacity, and to a new one otherwise. -/
def append (heap : Heap D) (s : Slice) (elems : List D) : Heap D × Slice :=
  let len := s.len + elems.length
  if len ≤ s.cap then
    (heap.modify s.array fun a => a.take (s.start + s.len) ++ elems ++ a.drop (s.start + len), { s with len })
  else (heap ++ [read heap s ++ elems], ⟨heap.length, 0, len, len⟩)

inductive RepeatPolicy where
  | repeatAll
  | repeatLast
  | repeatNone
  deriving DecidableEq

/-- The next index, if there is one. -/
def advance (policy : RepeatPolicy) (lastIndex index : Nat) : Option Nat :=
  if index < lastIndex then some (index + 1)
  else match policy with
    | .repeatNone => none
    | .repeatAll => some 0
    | .repeatLast => some index

structure Run (D : Type) where
  heap : Heap D
  /-- The slice of the caller. -/
  intervals : Slice
  intvs : Slice
  index : Nat
  /-- What the timer was set to, one after the other. -/
  waits : List D
  calls : Nat
  returned : Bool

def runOnArrayOfIntervals (heap : Heap D) (intervals : Slice) : Option (Run D) :=
  let (heap', intvs) := append heap { intervals with len := 0, cap := 0 } (read heap intervals)
  ((read heap' intvs)[0]?).map fun wait => ⟨heap', intervals, intvs, 0, [wait], 0, false⟩

inductive Event (D : Type) where
  | done
  | timer
  | write (i : Nat) (d : D)

def step (policy : RepeatPolicy) (s : Run D) : Event D → Option (Run D)
  | .write i d =>
    if i < s.intervals.len then
      some { s with heap := s.heap.modify s.intervals.array fun a => a.set (s.intervals.start + i) d }
    else none
  | .done => if s.returned then none else some { s with returned := true }
  | .timer =>
    if s.returned then none
    else match advance policy (s.intvs.len - 1) s.index with
      | none => some { s with calls := s.calls + 1, returned := true }
      | some index => ((read s.heap s.intvs)[index]?).map fun wait =>
        { s with index, waits := s.waits ++ [wait], calls := s.calls + 1 }

/-! ## The policies -/

/-- The interval of a wait. -/
def intervalOf (policy : RepeatPolicy) (n k : Nat) : Nat :=
  if k < n then k else match policy with
    | .repeatAll => k % n
    | _ => n - 1

theorem intervalOf_lt (policy : RepeatPolicy) {n : Nat} (hn : 0 < n) (k : Nat) : intervalOf policy n k < n := by
  have := Nat.mod_lt k hn
  unfold intervalOf
  grind

theorem advance_intervalOf {policy : RepeatPolicy} {n k : Nat} (hn : 0 < n) (hk : policy = .repeatNone → k < n) :
    advance policy (n - 1) (intervalOf policy n k) =
      if policy = .repeatNone ∧ k + 1 = n then none else some (intervalOf policy n (k + 1)) := by
  cases policy with
  | repeatAll =>
    have hmod (k : Nat) : intervalOf .repeatAll n k = k % n := by
      unfold intervalOf
      split_ifs with hk
      · exact (Nat.mod_eq_of_lt hk).symm
      · rfl
    have hlt := Nat.mod_lt k hn
    have hall : ¬ (RepeatPolicy.repeatAll = .repeatNone ∧ k + 1 = n) := nofun
    rw [hmod, hmod, advance, if_neg hall, ← Nat.mod_add_mod]
    by_cases hk : k % n + 1 = n
    · rw [if_neg (by omega), hk, Nat.mod_self]
    · rw [if_pos (by omega), Nat.mod_eq_of_lt (show k % n + 1 < n by omega)]
  | repeatLast | repeatNone =>
    unfold advance intervalOf
    grind

/-! ## Runs -/

/-- After `m` waits. -/
structure After (policy : RepeatPolicy) (l : List D) (m : Nat) (s : Run D) : Prop where
  copy : read s.heap s.intvs = l
  len : s.intvs.len = l.length
  own : s.intvs.array ≠ s.intervals.array
  calls : s.calls = m
  waits : ∀ k < s.waits.length, s.waits[k]? = l[intervalOf policy l.length k]?
  length : s.waits.length = m + if s.returned then 0 else 1
  index : s.returned = false → s.index = intervalOf policy l.length m
  returned : s.returned = true ↔ policy = .repeatNone ∧ m = l.length
  none : policy = .repeatNone → m ≤ l.length

variable {policy : RepeatPolicy} {l : List D} {m : Nat} {s s' : Run D}

theorem After.write (h : After policy l m s) {i : Nat} {d : D} (hs : step policy s (.write i d) = some s') :
    After policy l m s' := by
  obtain ⟨-, heq⟩ := Option.ite_none_right_eq_some.mp hs
  cases heq
  refine { h with copy := ?_ }
  have hown : s.intervals.array ≠ s.intvs.array := h.own.symm
  simpa [read, getElem?_modify, hown] using h.copy

theorem After.timer (h : After policy l m s) (hn : 0 < l.length) (hr : s.returned = false) :
    ∃ s', step policy s .timer = some s' ∧ After policy l (m + 1) s' := by
  have hlen : s.waits.length = m + 1 := by simpa [hr] using h.length
  have hne : ¬ (policy = .repeatNone ∧ m = l.length) := by simp [← h.returned, hr]
  have hm : policy = .repeatNone → m < l.length := fun hp =>
    lt_of_le_of_ne (h.none hp) fun hm => hne ⟨hp, hm⟩
  have hadv := advance_intervalOf hn hm
  simp only [step, hr, Bool.false_eq_true, if_false, h.len, h.index hr, hadv]
  split_ifs with hend
  · exact ⟨_, rfl, h.copy, h.len, h.own, by simp [h.calls], h.waits, by simp [hlen], nofun, by simp [hend],
      fun _ => hend.2.le⟩
  · have hlt := intervalOf_lt policy hn (m + 1)
    simp only [h.copy, getElem?_eq_getElem hlt]
    refine ⟨_, rfl, h.copy, h.len, h.own, by simp [h.calls], fun k hk => ?_, by simp [hlen], fun _ => rfl,
      by simpa [hr] using hend, hm⟩
    obtain hk | rfl := Nat.lt_succ_iff_lt_or_eq.mp (by simpa [hlen] using hk)
    · rw [getElem?_append_left (by omega)]
      exact h.waits k (by omega)
    · simp [← hlen]

/-- The schedule of a run that is not cancelled, whatever the caller writes to its slice. -/
theorem runOnArrayOfIntervals_schedule (policy : RepeatPolicy) (heap : Heap D) (intervals : Slice)
    (hne : read heap intervals ≠ []) : ∃ s₀, runOnArrayOfIntervals heap intervals = some s₀ ∧
      ∀ (events : List (Event D)) (s : Run D), (∀ e ∈ events, ¬ e matches .done) →
        events.foldlM (step policy) s₀ = some s →
      s.calls = events.countP (· matches .timer) ∧
      s.waits.length = s.calls + (if s.returned then 0 else 1) ∧
      (∀ k < s.waits.length, s.waits[k]? =
        (read heap intervals)[intervalOf policy (read heap intervals).length k]?) ∧
      (s.returned = true ↔ policy = .repeatNone ∧ s.calls = (read heap intervals).length) ∧
      (policy = .repeatNone → s.calls ≤ (read heap intervals).length) ∧
      (s.returned = false → (step policy s .timer).isSome) := by
  generalize hl : read heap intervals = l at hne ⊢
  have hn : 0 < l.length := length_pos_iff.mpr hne
  have hown : heap.length ≠ intervals.array := fun ha => hne (by simp [← hl, read, ← ha])
  have happ : append heap { intervals with len := 0, cap := 0 } l =
      (heap ++ [l], ⟨heap.length, 0, l.length, l.length⟩) := by
    simp [append, read, hne]
  have hcopy : read (heap ++ [l]) ⟨heap.length, 0, l.length, l.length⟩ = l := by simp [read]
  unfold runOnArrayOfIntervals
  simp only [hl, happ, hcopy, getElem?_eq_getElem hn, Option.map_some]
  refine ⟨_, rfl, fun events s hd hrun => ?_⟩
  have h := foldlM_inv (step policy) (fun es s => After policy l (es.countP (· matches .timer)) s) _ events
    ⟨hcopy, rfl, hown, rfl, ?_, rfl, ?_, ?_, ?_⟩ ?_ s hrun
  · refine ⟨h.calls, h.calls ▸ h.length, h.waits, h.calls ▸ h.returned, h.calls ▸ h.none, fun hr => ?_⟩
    obtain ⟨s', hs', -⟩ := h.timer hn hr
    rw [hs', Option.isSome_some]
  · intro k hk
    obtain rfl : k = 0 := by simpa using hk
    simp [intervalOf, hn]
  · simp [intervalOf, hn]
  · simp [hn.ne]
  · simp
  · intro es e s s' he h hs
    rw [countP_append]
    cases e with
    | done => exact absurd rfl (hd _ he)
    | write i d => exact h.write hs
    | timer =>
      have hr : s.returned = false := by
        rw [step, Option.ite_none_left_eq_some] at hs
        simpa using hs.1
      obtain ⟨s'', hs'', h'⟩ := h.timer hn hr
      rw [hs] at hs''
      cases hs''
      exact h'

theorem runOnArrayOfIntervals_twice : ∃ s₀ s, runOnArrayOfIntervals [[5, 7]] ⟨0, 0, 2, 2⟩ = some s₀ ∧
    [.timer, .write 1 9, .timer].foldlM (step .repeatNone) s₀ = some s ∧ s.waits.length = s.calls := by
  obtain ⟨s₀, h₀, h⟩ := runOnArrayOfIntervals_schedule .repeatNone [[5, 7]] ⟨0, 0, 2, 2⟩ (by decide)
  cases h₀
  exact ⟨_, _, rfl, rfl, (h [.timer, .write 1 9, .timer] _ (by simp) rfl).2.1⟩

end Collector.Intervals
