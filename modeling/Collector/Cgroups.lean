import Mathlib.Algebra.Order.BigOperators.Group.List
import Mathlib.Algebra.Order.Ring.Nat
import Collector.Value

/-!
# Walking the cgroups

`walkControllerHierarchy` of the `cgroups` monitor. A path is the list of the names below the root.
-/

namespace Collector.Cgroups

open List

abbrev Path := List Str

/-- A directory, with whether `os.Open` and `Readdir` succeed, and the files and directories that it lists. -/
inductive Dir where
  | mk (opens lists : Bool) (files : List Str) (dirs : List (Str × Dir))

mutual
def Dir.size : Dir → Nat
  | .mk _ _ _ dirs => 1 + sizes dirs

def sizes : List (Str × Dir) → Nat
  | [] => 0
  | (_, d) :: ds => d.size + sizes ds
end

def entry (name : Str) : Bool := name ≠ "." && name ≠ ".."

def join (path : Path) : Str := ['/'].intercalate path

/-- `filepath.Rel` to the root. -/
def rel (path : Path) : Str := if path = [] then "." else join path

def trimPrefix (p : Char) (s : Str) : Str := if s.head? = some p then s.tail else s

def cgroupName (path : Path) : Str := '/' :: trimPrefix '/' (trimPrefix '.' (rel path))

structure State where
  calls : List (Str × List Path) := []
  openHandles : Nat := 0

def below (path : Path) (dirs : List (Str × Dir)) : List (Path × Dir) :=
  (dirs.filter (entry ·.1)).map fun d => (path ++ [d.1], d.2)

def filesIn (path : Path) (files : List Str) : List Path := (files.filter entry).map fun name => path ++ [name]

theorem size_below (path : Path) (dirs : List (Str × Dir)) :
    ((below path dirs).map (·.2.size)).sum ≤ sizes dirs := by
  induction dirs with
  | nil => rfl
  | cons d dirs ih =>
    simp only [below, map_map, filter_cons, sizes] at ih ⊢
    split_ifs
    · simpa using ih
    · omega

/-- The loop. A handle is closed when the function returns. -/
def walk (s : State) (queue : List (Path × Dir)) : State :=
  match queue with
  | [] => s
  | (path, .mk opens lists files dirs) :: queue =>
    if !opens then walk s queue
    else if !lists then walk { s with openHandles := s.openHandles + 1 } queue
    else
      walk { calls := s.calls ++ [(cgroupName path, filesIn path files)], openHandles := s.openHandles + 1 }
        (queue ++ below path dirs)
termination_by (queue.map (·.2.size)).sum
decreasing_by
  all_goals simp only [List.map_cons, List.sum_cons, Dir.size, List.map_append, List.sum_append]
  · omega
  · omega
  · have := size_below path dirs
    omega

def walkControllerHierarchy (root : Dir) : State := walk {} [([], root)]

/-! ## The directories of a tree -/

/-- What is opened below a directory, with whether it can be listed. -/
structure Opened where
  path : Path
  lists : Bool
  files : List Path

mutual
def Dir.opened (path : Path) : Dir → List Opened
  | .mk opens lists files dirs =>
    if opens then ⟨path, lists, filesIn path files⟩ :: if lists then openedIn path dirs else [] else []

def openedIn (path : Path) : List (Str × Dir) → List Opened
  | [] => []
  | (name, d) :: ds => (if entry name then d.opened (path ++ [name]) else []) ++ openedIn path ds
end

/-- The readable directories that are reached through readable ones, with their files. -/
def Dir.readable (root : Dir) : List (Path × List Path) :=
  ((root.opened []).filter Opened.lists).map fun o => (o.path, o.files)

theorem openedIn_eq (path : Path) (dirs : List (Str × Dir)) :
    openedIn path dirs = (below path dirs).flatMap fun d => d.2.opened d.1 := by
  induction dirs with
  | nil => rw [openedIn]; rfl
  | cons d dirs ih =>
    obtain ⟨name, d⟩ := d
    rw [openedIn, ih]
    unfold below
    by_cases h : entry name <;> simp [h]

def callsOf (os : List Opened) : List (Str × List Path) :=
  (os.filter Opened.lists).map fun o => (cgroupName o.path, o.files)

/-- The directories below one are visited after those that wait already. -/
theorem walk_spec (s : State) (queue : List (Path × Dir)) :
    (walk s queue).openHandles = s.openHandles + (queue.flatMap fun d => d.2.opened d.1).length ∧
    (walk s queue).calls.Perm (s.calls ++ callsOf (queue.flatMap fun d => d.2.opened d.1)) := by
  fun_induction walk s queue with
  | case1 s => simp [callsOf]
  | case2 s path opens lists files dirs queue ho ih =>
    have hz : (Dir.mk opens lists files dirs).opened path = [] := by simp_all [Dir.opened]
    rw [flatMap_cons, hz]
    exact ih
  | case3 s path opens lists files dirs queue ho hl ih =>
    have hz : (Dir.mk opens lists files dirs).opened path = [⟨path, false, filesIn path files⟩] := by
      simp_all [Dir.opened]
    rw [flatMap_cons, hz]
    refine ⟨?_, by simpa [callsOf] using ih.2⟩
    rw [ih.1, length_append, length_singleton, Nat.add_assoc]
  | case4 s path opens lists files dirs queue ho hl ih =>
    have hz : (Dir.mk opens lists files dirs).opened path =
        ⟨path, true, filesIn path files⟩ :: (below path dirs).flatMap fun d => d.2.opened d.1 := by
      simp_all [Dir.opened, openedIn_eq]
    rw [flatMap_append] at ih
    rw [flatMap_cons, hz]
    constructor
    · rw [ih.1]
      simp only [length_append, length_cons]
      omega
    · refine ih.2.trans ?_
      simp only [callsOf, filter_append, filter_cons_of_pos, map_append, map_cons, cons_append,
        append_assoc, nil_append]
      exact (perm_append_comm.cons _).append_left _

/-- The path does not start with a character that is cut off: its first name with no dot. -/
def Plain (path : Path) : Prop := ∀ c ∈ (join path).head?, c ≠ '.' ∧ c ≠ '/'

theorem length_trimPrefix_le (p : Char) (s : Str) : (trimPrefix p s).length ≤ s.length := by
  unfold trimPrefix
  split_ifs <;> simp

/-- Whatever is cut off makes the name shorter. -/
theorem cgroupName_spec (path : Path) : (cgroupName path).length ≤ (join path).length + 1 ∧
    ((cgroupName path).length = (join path).length + 1 → Plain path) ∧
    (Plain path → cgroupName path = '/' :: join path) := by
  cases path with
  | nil => exact ⟨by decide, fun _ => nofun, fun _ => rfl⟩
  | cons name rest =>
    rw [cgroupName, rel, if_neg (cons_ne_nil _ _)]
    cases hj : join (name :: rest) with
    | nil => simp [trimPrefix, Plain, hj]
    | cons c cs =>
      have hle := length_trimPrefix_le '/' cs
      by_cases hdot : c = '.'
      · simp [trimPrefix, Plain, hj, hdot] at hle ⊢
        omega
      · by_cases hslash : c = '/' <;> simp [trimPrefix, Plain, hj, hdot, hslash]

/-- Each directory is visited once under its path, and its handle stays open. -/
theorem walkControllerHierarchy_visits_iff (root : Dir) (bound : Nat) :
    (walkControllerHierarchy root).calls.Perm (root.readable.map fun d => ('/' :: join d.1, d.2)) ∧
      (walkControllerHierarchy root).openHandles ≤ bound ↔
    (∀ d ∈ root.readable, Plain d.1) ∧ (root.opened []).length ≤ bound := by
  obtain ⟨hh, hc⟩ := walk_spec {} [([], root)]
  rw [flatMap_singleton] at hh hc
  rw [walkControllerHierarchy, hh, Nat.zero_add]
  refine and_congr_left fun _ => ?_
  have hr : callsOf (root.opened []) = root.readable.map fun d => (cgroupName d.1, d.2) := by
    simp [callsOf, Dir.readable]
  rw [nil_append, hr] at hc
  constructor
  · intro h d hd
    have hs := ((hc.symm.trans h).map (·.1.length)).sum_nat
    simp only [map_map, Function.comp_def, length_cons] at hs
    by_contra hno
    have hlt := (cgroupName_spec d.1).1.lt_of_ne (mt (cgroupName_spec d.1).2.1 hno)
    exact (sum_lt_sum _ _ (fun d _ => (cgroupName_spec d.1).1) ⟨d, hd, hlt⟩).ne hs
  · intro h
    exact hc.trans (.of_eq (map_congr_left fun d hd => by rw [(cgroupName_spec d.1).2.2 (h d hd)]))

/-- A directory that cannot be opened, one that cannot be listed, and one with a file and a directory. -/
def nested : Dir :=
  .mk true true [] [("b", .mk false true [] []), ("c", .mk true false [] []),
    ("d", .mk true true ["f"] [("e", .mk true true [] [])])]

theorem walkControllerHierarchy_nested :
    (walkControllerHierarchy nested).calls.Perm [("/", []), ("/d", [["d", "f"]]), ("/d/e", [])] ∧
      (walkControllerHierarchy nested).openHandles ≤ 4 := by
  have hr : nested.readable = [([], []), ([['d']], [[['d'], ['f']]]), ([['d'], ['e']], [])] := by
    simp [nested, Dir.readable, Dir.opened, openedIn, entry, filesIn]
  have hplain : ∀ d ∈ nested.readable, Plain d.1 := by simp [hr, Plain, join]
  have h := (walkControllerHierarchy_visits_iff nested 4).mpr
    ⟨hplain, by simp [nested, Dir.opened, openedIn, entry]⟩
  rwa [hr] at h

/-- A directory with others below it that have nothing in them. -/
def flat (n : Nat) : Dir := .mk true true [] (List.replicate n ("d", .mk true true [] []))

theorem length_opened_flat (n : Nat) : ((flat n).opened []).length = n + 1 := by
  rw [flat, Dir.opened]
  induction n with
  | zero => simp [openedIn]
  | succ n ih => simpa [replicate_succ, openedIn, Dir.opened, entry] using ih

/-- No number of handles is enough for all trees. -/
theorem openHandles_unbounded : ¬ ∃ bound, ∀ root, (walkControllerHierarchy root).openHandles ≤ bound := by
  rintro ⟨bound, h⟩
  have hh := (walk_spec {} [([], flat bound)]).1
  rw [flatMap_singleton, length_opened_flat] at hh
  have hle := h (flat bound)
  rw [walkControllerHierarchy, hh] at hle
  omega

end Collector.Cgroups
