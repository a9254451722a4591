import Collector.Lib.Assoc
import Collector.Lib.Panic
import Collector.Lib.Runs
import Collector.MigrateCheckpoint.Positions

/-!
# The checkpoints of custom and journald files
-/

namespace Collector.MigrateCheckpoint

open Lib Strings List

structure Migrator where
  customLogPathOtel : Str
  journaldLogPathOtel : Str
  customLogCapture : Str → List Str
  journaldLogCapture : Str → List Str

structure Host where
  fs : FileSystem
  readLines : Str → Except Str (List Str)
  journaldCursor : Str → Except Str Str

/-- A file that the glob found, and what goes wrong with its database. -/
structure Match where
  path : Str
  newClient : Option Str
  set : Option Str

/-- The file of a database and a key in its bucket, and the value. -/
abbrev Write := (Str × Str) × Str

def knownFiles : Str := "file_input.knownFiles"

def lastReadCursor : Str := "journald_input.lastReadCursor"

inductive Crash where
  | index (p : Panic)
  | readLines (err : Str)
  | nilClient

def capturedName (captured : List Str) : Except Crash Str :=
  match captured[1]? with
  | none => .error (.index ⟨1, captured.length⟩)
  | some name => .ok name

def customWrite (m : Migrator) (host : Host) (path : Str) : Except Crash (Option Write) :=
  if m.customLogCapture path = [] then .ok none
  else
    match host.readLines path with
    | .error e => .error (.readLines e)
    | .ok lines =>
      match convertFilePos host.fs lines with
      | .error p => .error (.index p)
      | .ok (readers, buf) =>
        if readers = [] then .ok none
        else (capturedName (m.customLogCapture path)).map fun name =>
          some ((m.customLogPathOtel ++ name, knownFiles), buf)

def journaldWrite (m : Migrator) (host : Host) (path : Str) : Except Crash (Option Write) :=
  if m.journaldLogCapture path = [] then .ok none
  else
    match host.journaldCursor path with
    | .error _ => .ok none
    | .ok cursor => (capturedName (m.journaldLogCapture path)).map fun name =>
      some ((m.journaldLogPathOtel ++ name, lastReadCursor), cursor)

/-- `Set` of a client that is nil panics. -/
def storeWrite (dbs : List Write) (file : Match) : Option Write → Except Crash (List Write)
  | none => .ok dbs
  | some w =>
    if file.newClient.isSome then .error .nilClient else .ok (if file.set.isSome then dbs else put w.1 w.2 dbs)

def migrateFile (plan : Str → Except Crash (Option Write)) (dbs : List Write) (file : Match) :
    Except Crash (List Write) := do
  storeWrite dbs file (← plan file.path)

def migrateCustomPos (m : Migrator) (host : Host) (matchList : List Match) (dbs : List Write) :
    Except Crash (List Write) :=
  matchList.foldlM (migrateFile (customWrite m host)) dbs

def migrateJournaldPos (m : Migrator) (host : Host) (matchList : List Match) (dbs : List Write) :
    Except Crash (List Write) :=
  matchList.foldlM (migrateFile (journaldWrite m host)) dbs

/-! ## What is to be stored -/

def lineReader (fs : FileSystem) (line : Str) : Option Reader :=
  match fields line with
  | filePath :: hexPos :: _ => (convertToOtel fs filePath hexPos).toOption
  | _ => none

/-- The readers of a custom file that can be read and has a path and a position in every line. -/
def customReaders (host : Host) (path : Str) : Option (List Reader) :=
  match host.readLines path with
  | .error _ => none
  | .ok lines =>
    if ∀ line ∈ lines, 2 ≤ (fields line).length then some (lines.filterMap (lineReader host.fs)) else none

def customCheckpoint (m : Migrator) (host : Host) (path : Str) : Option Write := do
  let readers ← customReaders host path
  let name ← (m.customLogCapture path)[1]?
  if readers = [] then none else some ((m.customLogPathOtel ++ name, knownFiles), bufferOf readers)

def journaldCheckpoint (m : Migrator) (host : Host) (path : Str) : Option Write := do
  let cursor ← (host.journaldCursor path).toOption
  let name ← (m.journaldLogCapture path)[1]?
  some ((m.journaldLogPathOtel ++ name, lastReadCursor), cursor)

/-- A file with something to store has a group in its name, and its database opens. -/
def Match.Prepared (file : Match) (captured : List Str) : Prop := 2 ≤ captured.length ∧ file.newClient = none

def CustomHandled (m : Migrator) (host : Host) (file : Match) : Prop :=
  m.customLogCapture file.path ≠ [] → ∃ readers, customReaders host file.path = some readers ∧
    (readers ≠ [] → file.Prepared (m.customLogCapture file.path))

def JournaldHandled (m : Migrator) (host : Host) (file : Match) : Prop :=
  m.journaldLogCapture file.path ≠ [] → ∀ cursor, host.journaldCursor file.path = .ok cursor →
    file.Prepared (m.journaldLogCapture file.path)

section
variable (checkpoint : Str → Option Write) (files : List Match)

/-- The checkpoints that a database takes. -/
def taken : List Write :=
  files.flatMap fun file => if file.newClient = none ∧ file.set = none then (checkpoint file.path).toList else []

/-- There is no panic, and the checkpoints are there. -/
def Migrated (result : Except Crash (List Write)) : Prop :=
  ∃ dbs, result = .ok dbs ∧ ∀ w ∈ taken checkpoint files, find w.1 dbs = some w.2

/-- No two checkpoints for one place are different. -/
def Apart : Prop := ∀ w ∈ taken checkpoint files, ∀ w' ∈ taken checkpoint files, w.1 = w'.1 → w.2 = w'.2

end

/-! ## What is stored -/

theorem toOption_convertFilePos (fs : FileSystem) (lines : List Str) : (convertFilePos fs lines).toOption =
    if ∀ line ∈ lines, 2 ≤ (fields line).length then
      some (lines.filterMap (lineReader fs), bufferOf (lines.filterMap (lineReader fs))) else none := by
  have hl (readers : List Reader) : (lines.foldlM (convertLine fs) readers).toOption =
      if ∀ line ∈ lines, 2 ≤ (fields line).length then some (readers ++ lines.filterMap (lineReader fs)) else none := by
    induction lines generalizing readers with
    | nil => simp [pure, Except.pure, Except.toOption]
    | cons line lines ih =>
      rw [foldlM_cons, filterMap_cons, convertLine, lineReader]
      rcases hf : fields line with _ | ⟨filePath, _ | ⟨hexPos, rest⟩⟩
      · simp [hf, bind, Except.bind, Except.toOption]
      · simp [hf, bind, Except.bind, Except.toOption]
      · cases hc : convertToOtel fs filePath hexPos <;>
          simp [hf, hc, bind, Except.bind, Except.toOption] at ih ⊢ <;> simp [ih]
  have h := hl []
  unfold convertFilePos
  rw [← syncLastPollFiles_eq]
  split_ifs at h ⊢ with hall <;> cases hr : lines.foldlM (convertLine fs) [] <;>
    simp_all [bind, Except.bind, Except.toOption]

/-- The last of the writes to a place stays. -/
theorem find_putAll_iff (ws dbs : List Write) : (∀ w ∈ ws, find w.1 (putAll ws dbs) = some w.2) ↔
    ∀ w ∈ ws, ∀ w' ∈ ws, w.1 = w'.1 → w.2 = w'.2 := by
  constructor
  · intro h w hw w' hw' heq
    exact Option.some.inj ((h w hw).symm.trans (heq ▸ h w' hw'))
  · intro h
    induction ws using reverseRecOn with
    | nil => nofun
    | append_singleton ws e ih =>
      intro w hw
      rw [putAll, foldl_concat, find_put]
      split_ifs with heq
      · rw [h e (by simp) w hw heq.symm]
      · refine ih (fun w hw w' hw' => h w (mem_append_left _ hw) w' (mem_append_left _ hw')) w ?_
        exact (mem_append.mp hw).resolve_right fun hmem => heq (by rw [mem_singleton.mp hmem])

/-- A file is passed over, or its checkpoint is stored, or there is a panic. -/
theorem foldlM_migrateFile {plan : Str → Except Crash (Option Write)} {checkpoint : Str → Option Write}
    {Handled : Match → Prop}
    (h : ∀ file, (∃ r, plan file.path = .ok r ∧ (r ≠ none → file.newClient = none)) ↔ Handled file)
    (hc : ∀ path r, plan path = .ok r → r = checkpoint path) (files : List Match) (dbs : List Write) :
    Migrated checkpoint files (files.foldlM (migrateFile plan) dbs) ↔
      (∀ file ∈ files, Handled file) ∧ Apart checkpoint files := by
  have hm (dbs : List Write) (file : Match) (dbs' : List Write) : migrateFile plan dbs file = .ok dbs' ↔
      Handled file ∧ dbs' = putAll (taken checkpoint [file]) dbs := by
    rw [← h]
    unfold migrateFile taken
    cases hp : plan file.path with
    | error e => simp [bind, Except.bind]
    | ok r =>
      have := hc _ _ hp
      cases r <;> cases hn : file.newClient <;> cases hs : file.set <;>
        simp [bind, Except.bind, storeWrite, hn, hs, putAll, eq_comm, ← this]
  have hf : files.foldl (fun dbs file => putAll (taken checkpoint [file]) dbs) dbs =
      putAll (taken checkpoint files) dbs := by
    simp [taken, putAll, foldl_flatMap]
  unfold Migrated Apart
  simp only [foldlM_eq_ok_iff hm, hf, ← find_putAll_iff _ dbs]
  constructor
  · rintro ⟨_, ⟨hh, rfl⟩, hw⟩
    exact ⟨hh, hw⟩
  · rintro ⟨hh, hw⟩
    exact ⟨_, ⟨hh, rfl⟩, hw⟩

theorem eq_ok_iff {ε α : Type} {x : Except ε α} {a : α} : x = .ok a ↔ x.toOption = some a := by
  cases x <;> simp [Except.toOption]

section
variable (m : Migrator) (host : Host)

theorem toOption_customWrite (path : Str) : (customWrite m host path).toOption =
    if m.customLogCapture path = [] then some none else (customReaders host path).bind fun readers =>
      if readers = [] then some none else (m.customLogCapture path)[1]?.map fun name =>
        some ((m.customLogPathOtel ++ name, knownFiles), bufferOf readers) := by
  unfold customWrite customReaders capturedName
  split_ifs
  · rfl
  · cases host.readLines path with
    | error e => rfl
    | ok lines =>
      have h := toOption_convertFilePos host.fs lines
      by_cases hall : ∀ line ∈ lines, 2 ≤ (fields line).length
      · rw [if_pos hall, ← eq_ok_iff] at h
        simp only [h, if_pos hall, Option.bind_some]
        split_ifs
        · rfl
        · cases (m.customLogCapture path)[1]? <;> rfl
      · rw [if_neg hall] at h
        cases hc : convertFilePos host.fs lines with
        | error p => simp only [hc, if_neg hall, Except.toOption, Option.bind_none]
        | ok p => simp [hc, Except.toOption] at h

theorem migrated_iff (custom journald : List Match) (dbs dbs' : List Write) :
    Migrated (customCheckpoint m host) custom (migrateCustomPos m host custom dbs) ∧
      Migrated (journaldCheckpoint m host) journald (migrateJournaldPos m host journald dbs') ↔
    ((∀ file ∈ custom, CustomHandled m host file) ∧ Apart (customCheckpoint m host) custom) ∧
      (∀ file ∈ journald, JournaldHandled m host file) ∧ Apart (journaldCheckpoint m host) journald := by
  refine and_congr (foldlM_migrateFile (fun file => ?_) (fun path r hr => ?_) custom dbs)
    (foldlM_migrateFile (fun file => ?_) (fun path r hr => ?_) journald dbs')
  · simp only [eq_ok_iff, toOption_customWrite, CustomHandled, Match.Prepared]
    rcases m.customLogCapture file.path with _ | ⟨whole, _ | ⟨name, groups⟩⟩ <;>
      rcases customReaders host file.path with _ | _ | _ <;> simp
  · rw [eq_ok_iff, toOption_customWrite] at hr
    unfold customCheckpoint
    generalize m.customLogCapture path = captured at hr ⊢
    rcases captured with _ | ⟨whole, _ | ⟨name, groups⟩⟩ <;>
      rcases h : customReaders host path with _ | _ | _ <;> simp_all
  · simp only [journaldWrite, capturedName, JournaldHandled, Match.Prepared]
    rcases m.journaldLogCapture file.path with _ | ⟨whole, _ | ⟨name, groups⟩⟩ <;>
      cases host.journaldCursor file.path <;> simp [Except.map]
  · unfold journaldWrite capturedName at hr
    unfold journaldCheckpoint
    generalize m.journaldLogCapture path = captured at hr ⊢
    rcases captured with _ | ⟨whole, _ | ⟨name, groups⟩⟩ <;>
      cases h : host.journaldCursor path <;> simp_all [Except.map, Except.toOption]

end

def anyFile : Migrator := ⟨[], [], fun path => [path, path], fun path => [path, path]⟩

def everyCursor : Host := ⟨⟨fun _ => .error [], [], rfl⟩, fun _ => .ok [], fun path => .ok path⟩

/-- The second file is never looked at. -/
theorem migrateJournaldPos_stops :
    migrateJournaldPos anyFile everyCursor [⟨['a'], some [], none⟩, ⟨['b'], none, none⟩] [] = .error .nilClient :=
  rfl

end Collector.MigrateCheckpoint
