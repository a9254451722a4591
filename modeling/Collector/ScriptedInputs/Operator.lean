import Collector.Lib.Runs

/-!
# The scripted-inputs operator

`operator.go` and `commander.go` of `internal/receiver/scriptedinputsreceiver`, with `os/exec`, `io.Pipe` and
`bufio.Scanner` as they use them. Each position is named after the operation that comes next.
-/

namespace Collector.ScriptedInputs

open Option Function

variable {β E : Type}

/-! ## The command -/

inductive Process where
  | running
  | exited (success : Bool)
  deriving DecidableEq

/-- What the script does. A process that it left behind can write after the script has exited. -/
inductive Script (β : Type) where
  | output (bytes : List β)
  | closeOutput
  | exit (success : Bool)

/-- The goroutine of `os/exec` that copies the output to the pipe. -/
inductive Copier (β : Type) where
  | read
  | write (byte : β) (rest : List β)
  | returned (failed : Bool)

def Copier.writing : List β → Copier β
  | [] => .read
  | byte :: rest => .write byte rest

/-- The goroutine of `os/exec` that kills the process when the context is done. -/
inductive WatchCtx where
  | select
  | result (failed : Bool)
  | returned
  deriving DecidableEq

/-- `commander.watch`, which runs `cmd.Wait`. -/
inductive Waiter where
  | processWait
  | ctxResult (success : Bool)
  | awaitGoroutines (success : Bool)
  | sendDone
  | closeWait
  | returned
  deriving DecidableEq

structure Cmd (β : Type) where
  process : Process
  output : List β
  outputClosed : Bool
  copier : Copier β
  watchCtx : WatchCtx
  waiter : Waiter
  doneCh : Bool

def Cmd.started : Cmd β :=
  ⟨.running, [], false, .read, .select, .processWait, false⟩

/-- `Process.Wait` has returned, so a signal gives an error. -/
def Cmd.reaped (cmd : Cmd β) : Bool :=
  cmd.waiter != .processWait

def Cmd.script (cmd : Cmd β) : Script β → Option (Cmd β)
  | .output bytes => if cmd.outputClosed then none else some { cmd with output := cmd.output ++ bytes }
  | .closeOutput => if cmd.outputClosed then none else some { cmd with outputClosed := true }
  | .exit success => if cmd.process = .running then some { cmd with process := .exited success } else none

inductive CmdMove where
  | copyRead (n : Nat)
  | copyEOF
  | copyClosed
  | kill
  | processWait
  | ctxResult
  | awaitGoroutines
  | sendDone
  | closeWait

/-- A signal changes nothing here: the script exits in a step of its own. -/
def Cmd.step (ctxDone writerClosed : Bool) (cmd : Cmd β) : CmdMove → Option (Cmd β)
  | .copyRead n =>
    match cmd.copier with
    | .read =>
      if 0 < n ∧ n ≤ cmd.output.length then
        some { cmd with copier := .writing (cmd.output.take n), output := cmd.output.drop n }
      else none
    | _ => none
  | .copyEOF =>
    match cmd.copier with
    | .read => if cmd.outputClosed ∧ cmd.output.isEmpty then some { cmd with copier := .returned false } else none
    | _ => none
  | .copyClosed =>
    match cmd.copier with
    | .write _ _ => if writerClosed then some { cmd with copier := .returned true } else none
    | _ => none
  | .kill =>
    -- `Process.Kill` of a process that is waited for already is not an error of the command
    if cmd.watchCtx = .select ∧ ctxDone then some { cmd with watchCtx := .result !cmd.reaped } else none
  | .processWait =>
    match cmd.waiter, cmd.process with
    | .processWait, .exited success => some { cmd with waiter := .ctxResult success }
    | _, _ => none
  | .ctxResult =>
    match cmd.waiter, cmd.watchCtx with
    | .ctxResult success, .select => some { cmd with waiter := .awaitGoroutines success, watchCtx := .returned }
    | .ctxResult success, .result failed =>
      some { cmd with waiter := .awaitGoroutines (success && !failed), watchCtx := .returned }
    | _, _ => none
  | .awaitGoroutines =>
    match cmd.waiter, cmd.copier with
    | .awaitGoroutines success, .returned failed =>
      some { cmd with waiter := if success && !failed then .sendDone else .closeWait }
    | _, _ => none
  | .sendDone =>
    if cmd.waiter = .sendDone then some { cmd with waiter := .closeWait, doneCh := true } else none
  | .closeWait =>
    if cmd.waiter = .closeWait then some { cmd with waiter := .returned } else none

/-! ## The goroutine that waits for the command -/

inductive Watching where
  | notStarted
  | select
  | sigterm
  | waitCh
  | closeWriter
  | returned
  deriving DecidableEq

/-- The goroutine of `commander.Stop` that sends the second signal. -/
inductive Killer where
  | notStarted
  | select
  | returned
  deriving DecidableEq

structure Watch where
  pos : Watching
  killer : Killer
  innerErr : Bool
  finished : Bool
  writerClosed : Bool

def Watch.initial : Watch :=
  ⟨.notStarted, .notStarted, false, false, false⟩

inductive WatchMove where
  | done
  | ctxDone
  | sigterm
  | waitCh
  | closeWriter
  | timeout
  | finished

def Watch.step (ctxDone : Bool) (cmd : Cmd β) (watch : Watch) : WatchMove → Option Watch
  | .done => if watch.pos = .select ∧ cmd.doneCh then some { watch with pos := .closeWriter } else none
  | .ctxDone => if watch.pos = .select ∧ ctxDone then some { watch with pos := .sigterm } else none
  | .sigterm =>
    if watch.pos = .sigterm then
      if cmd.reaped then some { watch with pos := .returned }
      else some { watch with pos := .waitCh, killer := .select, innerErr := false, finished := false }
    else none
  | .waitCh =>
    if watch.pos = .waitCh ∧ cmd.waiter = .returned then
      some { watch with pos := if watch.innerErr then .returned else .closeWriter, finished := true }
    else none
  | .closeWriter =>
    if watch.pos = .closeWriter then some { watch with pos := .returned, writerClosed := true } else none
  | .timeout =>
    if watch.killer = .select then some { watch with killer := .returned, innerErr := cmd.reaped } else none
  | .finished =>
    if watch.killer = .select ∧ watch.finished then some { watch with killer := .returned } else none

/-! ## The goroutine that reads the output -/

inductive Split (β : Type) where
  | more (advance : Nat)
  | token (advance : Nat) (token : List β)
  | failed

/-- The split function, and what becomes of a token: none if it cannot be decoded. -/
structure Config (β E : Type) where
  maxLogSize : Nat
  splitFunc : List β → Bool → Split β
  newEntry : List β → Option E

def noSplitFunc (maxLogSize : Nat) (data : List β) (atEOF : Bool) : Split β :=
  if maxLogSize ≤ data.length then .token maxLogSize (data.take maxLogSize)
  else if !atEOF ∨ data.isEmpty then .more 0
  else .token data.length data

def defaultConfig : Config Char (List Char) :=
  ⟨1024 * 1024, noSplitFunc (1024 * 1024), some⟩

/-- One turn of `Scanner.Scan`, with the bytes that are left. -/
inductive Scan (β : Type) where
  | token (token rest : List β)
  | read (rest : List β)
  | stop

def Config.scanMore (cfg : Config β E) (pending : List β) (eof : Bool) : Scan β :=
  if eof ∨ cfg.maxLogSize ≤ pending.length then .stop else .read pending

def Config.scan (cfg : Config β E) (pending : List β) (eof : Bool) : Scan β :=
  if pending.isEmpty ∧ eof = false then cfg.scanMore pending eof
  else
    match cfg.splitFunc pending eof with
    | .failed => .stop
    | .more advance => if pending.length < advance then .stop else cfg.scanMore (pending.drop advance) eof
    | .token advance token => if pending.length < advance then .stop else .token token (pending.drop advance)

inductive Reading (E : Type) where
  | notStarted
  | scan
  | read
  | write (entry : E)
  | returned

structure Reader (β E : Type) where
  pos : Reading E
  pending : List β
  eof : Bool

def Reader.initial : Reader β E :=
  ⟨.notStarted, [], false⟩

inductive ReadMove where
  | scan
  | readEOF
  | write

def Reader.readOutput (cfg : Config β E) (writerClosed : Bool) (reader : Reader β E) : ReadMove → Option (Reader β E)
  | .scan =>
    match reader.pos with
    | .scan =>
      match cfg.scan reader.pending reader.eof with
      | .token token rest =>
        some { reader with pos := (cfg.newEntry token).elim .scan .write, pending := rest }
      | .read rest => some { reader with pos := .read, pending := rest }
      | .stop => some { reader with pos := .returned }
    | _ => none
  | .readEOF =>
    match reader.pos with
    | .read => if writerClosed then some { reader with pos := .scan, eof := true } else none
    | _ => none
  | .write =>
    match reader.pos with
    | .write _ => some { reader with pos := .scan }
    | _ => none

/-! ## Cycles -/

structure Cycle (β E : Type) where
  cmd : Cmd β
  watch : Watch
  reader : Reader β E
  cancelled : Bool

inductive Move where
  | cmd (move : CmdMove)
  | watch (move : WatchMove)
  | read (move : ReadMove)
  | transfer (n : Nat)

def Cycle.started : Cycle β E :=
  ⟨.started, .initial, .initial, false⟩

def Cycle.launch (cycle : Cycle β E) : Cycle β E :=
  { cycle with
    watch := { cycle.watch with pos := .select }
    reader := { cycle.reader with pos := .scan } }

/-- In the `io.Pipe` a read takes bytes of the write that waits for it. -/
def Cycle.transfer (cfg : Config β E) (cycle : Cycle β E) (n : Nat) : Option (Cycle β E) :=
  match cycle.cmd.copier, cycle.reader.pos with
  | .write byte rest, .read =>
    if 0 < n ∧ n ≤ (byte :: rest).length ∧ cycle.reader.pending.length + n ≤ cfg.maxLogSize ∧
        cycle.watch.writerClosed = false then
      some { cycle with
        cmd := { cycle.cmd with copier := .writing ((byte :: rest).drop n) }
        reader := { cycle.reader with pos := .scan, pending := cycle.reader.pending ++ (byte :: rest).take n } }
    else none
  | _, _ => none

def Cycle.step (cfg : Config β E) (ctxDone : Bool) (cycle : Cycle β E) : Move → Option (Cycle β E)
  | .cmd move => (cycle.cmd.step ctxDone cycle.watch.writerClosed move).map fun cmd => { cycle with cmd }
  | .watch move => (cycle.watch.step ctxDone cycle.cmd move).map fun watch => { cycle with watch }
  | .read move =>
    (cycle.reader.readOutput cfg cycle.watch.writerClosed move).map fun reader => { cycle with reader }
  | .transfer n => cycle.transfer cfg n

def Cycle.written (cycle : Cycle β E) : Move → List E
  | .read .write =>
    match cycle.reader.pos with
    | .write entry => [entry]
    | _ => []
  | _ => []

def Watching.active : Watching → Nat
  | .notStarted | .returned => 0
  | _ => 1

def Reading.active : Reading E → Nat
  | .notStarted | .returned => 0
  | _ => 1

/-- How many goroutines of the cycle are still to call `wg.Done`. -/
def Cycle.active (cycle : Cycle β E) : Nat :=
  cycle.watch.pos.active + cycle.reader.pos.active

/-! ## The operator -/

inductive Loop where
  | cmdStart
  | startProcess
  | wgAdd
  | select
  | wgWait
  | returned
  deriving DecidableEq

inductive Stop where
  | notCalled
  | wgWait
  | returned
  deriving DecidableEq

structure Operator (β E : Type) where
  cancelled : Bool
  loop : Loop
  stop : Stop
  wg : Nat
  current : Nat
  /-- There is none where the process did not start. -/
  cycles : Nat → Option (Cycle β E)
  log : List E

def start : Operator β E :=
  ⟨false, .cmdStart, .notCalled, 0, 0, fun _ => none, []⟩

inductive Action (β : Type) where
  | cmdStart
  | startProcess (failed : Bool)
  | wgAdd
  | ctxDone
  | tick
  | wgWait
  | cancelAll
  | stopReturns
  | script (c : Nat) (event : Script β)
  | move (c : Nat) (move : Move)

namespace Operator

def ctxDone (i : Operator β E) (cycle : Cycle β E) : Bool :=
  i.cancelled || cycle.cancelled

def setCycle (i : Operator β E) (c : Nat) (cycle : Cycle β E) : Operator β E :=
  { i with cycles := Function.update i.cycles c (some cycle) }

theorem setCycle_cycles (i : Operator β E) (c d : Nat) (cycle : Cycle β E) :
    (i.setCycle c cycle).cycles d = if d = c then some cycle else i.cycles d :=
  update_apply ..

theorem setCycle_current (i : Operator β E) (c : Nat) (cycle : Cycle β E) :
    (i.setCycle c cycle).current = i.current := rfl

theorem setCycle_loop (i : Operator β E) (c : Nat) (cycle : Cycle β E) : (i.setCycle c cycle).loop = i.loop := rfl

def cancelCycle (i : Operator β E) : Operator β E :=
  match i.cycles i.current with
  | none => i
  | some cycle => i.setCycle i.current { cycle with cancelled := true }

def launch (i : Operator β E) : Operator β E :=
  match i.cycles i.current with
  | none => i
  | some cycle => { i.setCycle i.current cycle.launch with wg := i.wg + 2 }

def step (cfg : Config β E) (i : Operator β E) : Action β → Option (Operator β E)
  | .cmdStart =>
    if i.loop = .cmdStart then some { i with loop := if i.cancelled then .select else .startProcess } else none
  | .startProcess failed =>
    if i.loop = .startProcess then
      if failed then some { i with loop := .select }
      else some { i.setCycle i.current .started with loop := .wgAdd }
    else none
  | .wgAdd => if i.loop = .wgAdd then some { i.launch with loop := .select } else none
  | .ctxDone => if i.loop = .select ∧ i.cancelled then some { i.cancelCycle with loop := .returned } else none
  | .tick => if i.loop = .select then some { i.cancelCycle with loop := .wgWait } else none
  | .wgWait =>
    if i.loop = .wgWait ∧ i.wg = 0 then some { i with loop := .cmdStart, current := i.current + 1 } else none
  | .cancelAll => if i.stop = .notCalled then some { i with cancelled := true, stop := .wgWait } else none
  | .stopReturns => if i.stop = .wgWait ∧ i.wg = 0 then some { i with stop := .returned } else none
  | .script c event =>
    match i.cycles c with
    | none => none
    | some cycle => (cycle.cmd.script event).map fun cmd => i.setCycle c { cycle with cmd }
  | .move c move =>
    match i.cycles c with
    | none => none
    | some cycle =>
      (cycle.step cfg (i.ctxDone cycle) move).map fun cycle' =>
        { i.setCycle c cycle' with
          wg := i.wg - (cycle.active - cycle'.active), log := i.log ++ cycle.written move }

/-! ## What a step does to the cycles -/

inductive Change (cfg : Config β E) (i : Operator β E) (a : Action β) (c : Nat) : Cycle β E → Prop
  | started : i.loop = .startProcess → c = i.current → Change cfg i a c .started
  | launch (cycle : Cycle β E) : i.loop = .wgAdd → c = i.current → i.cycles c = some cycle →
      Change cfg i a c cycle.launch
  | cancel (cycle : Cycle β E) : i.cycles c = some cycle → Change cfg i a c { cycle with cancelled := true }
  | script (cycle : Cycle β E) (event : Script β) (cmd : Cmd β) : i.cycles c = some cycle →
      cycle.cmd.script event = some cmd → Change cfg i a c { cycle with cmd }
  | move (cycle : Cycle β E) (move : Move) (cycle' : Cycle β E) : a = .move c move → i.cycles c = some cycle →
      cycle.step cfg (i.ctxDone cycle) move = some cycle' → Change cfg i a c cycle'

section
variable {cfg : Config β E} {i i' : Operator β E} {a : Action β} {c : Nat}

theorem script_eq_some {event : Script β} (h : i.step cfg (.script c event) = some i') :
    ∃ cycle cmd, i.cycles c = some cycle ∧ cycle.cmd.script event = some cmd ∧
      i' = i.setCycle c { cycle with cmd } := by
  simp only [step] at h
  split at h
  · cases h
  · rename_i cycle hc
    obtain ⟨cmd, hcmd, rfl⟩ := map_eq_some_iff.mp h
    exact ⟨cycle, cmd, hc, hcmd, rfl⟩

theorem move_eq_some {move : Move} (h : i.step cfg (.move c move) = some i') :
    ∃ cycle cycle', i.cycles c = some cycle ∧ cycle.step cfg (i.ctxDone cycle) move = some cycle' ∧
      i' = { i.setCycle c cycle' with
        wg := i.wg - (cycle.active - cycle'.active), log := i.log ++ cycle.written move } := by
  simp only [step] at h
  split at h
  · cases h
  · rename_i cycle hc
    obtain ⟨cycle', hm, rfl⟩ := map_eq_some_iff.mp h
    exact ⟨cycle, cycle', hc, hm, rfl⟩

theorem cancelCycle_cycles : i.cancelCycle.cycles = i.cycles ∨
    ∃ c cycle, Change cfg i a c cycle ∧ i.cancelCycle.cycles = update i.cycles c (some cycle) := by
  unfold cancelCycle
  split
  · exact .inl rfl
  · rename_i cycle h
    exact .inr ⟨_, _, .cancel cycle h, rfl⟩

theorem step_cycles (h : i.step cfg a = some i') : i'.cycles = i.cycles ∨
    ∃ c cycle, Change cfg i a c cycle ∧ i'.cycles = update i.cycles c (some cycle) := by
  cases a with
  | cmdStart | wgWait | cancelAll | stopReturns =>
    simp only [step, ite_some_none_eq_some] at h
    obtain ⟨-, rfl⟩ := h
    exact .inl rfl
  | startProcess failed =>
    simp only [step, ite_none_right_eq_some] at h
    obtain ⟨hl, h⟩ := h
    split at h <;> cases h
    · exact .inl rfl
    · exact .inr ⟨_, _, .started hl rfl, rfl⟩
  | wgAdd =>
    simp only [step, ite_some_none_eq_some] at h
    obtain ⟨hl, rfl⟩ := h
    simp only [launch]
    split
    · exact .inl rfl
    · rename_i cycle hc
      exact .inr ⟨_, _, .launch cycle hl rfl hc, rfl⟩
  | ctxDone | tick =>
    simp only [step, ite_some_none_eq_some] at h
    obtain ⟨-, rfl⟩ := h
    exact cancelCycle_cycles
  | script c event =>
    obtain ⟨cycle, cmd, hc, hcmd, rfl⟩ := script_eq_some h
    exact .inr ⟨c, _, .script cycle event cmd hc hcmd, rfl⟩
  | move c move =>
    obtain ⟨cycle, cycle', hc, hm, rfl⟩ := move_eq_some h
    exact .inr ⟨c, cycle', .move cycle move cycle' rfl hc hm, rfl⟩

def Each (P : Cycle β E → Prop) (i : Operator β E) : Prop :=
  ∀ c cycle, i.cycles c = some cycle → P cycle

theorem Each.step {P : Cycle β E → Prop} (hP : Each P i) (h : i.step cfg a = some i')
    (keep : ∀ c cycle, Change cfg i a c cycle → P cycle) : Each P i' := by
  intro c cycle hc
  obtain heq | ⟨d, cycle', hch, heq⟩ := step_cycles h
  · exact hP c cycle (heq ▸ hc)
  · rw [heq, update_apply] at hc
    split at hc
    · cases hc
      exact keep d _ hch
    · exact hP c cycle hc

end

end Operator

end Collector.ScriptedInputs
