import Collector.ScriptedInputs.Operator

/-!
# A script does not block the receiver

The wait group holds the loop and `Stop` back until the goroutines of a cycle return. `commander.Stop` returns before
the pipe is closed if the process is waited for already, and then the reader waits for ever.
-/

namespace Collector.ScriptedInputs

open Lib Option

variable {β E : Type}

/-! ## One cycle -/

/-- The split function gets on with these bytes: it finds a token or there is room for more. -/
def Config.Fits (cfg : Config β E) (pending : List β) : Prop :=
  if pending.isEmpty then 0 < cfg.maxLogSize
  else
    match cfg.splitFunc pending false with
    | .failed => False
    | .more advance => advance ≤ pending.length ∧ pending.length - advance < cfg.maxLogSize
    | .token advance _ => advance ≤ pending.length

variable {pending : List β}

theorem Config.Fits.scan_ne {cfg : Config β E} (h : cfg.Fits pending) : cfg.scan pending false ≠ .stop := by
  unfold Fits at h
  unfold Config.scan
  split_ifs at h with he
  · simp only [List.isEmpty_iff] at he
    subst he
    simp only [scanMore, List.isEmpty_nil]
    grind
  · grind [Config.scanMore]

theorem Config.scan_read {cfg : Config β E} {rest : List β} {eof : Bool}
    (h : cfg.scan pending eof = .read rest) : rest.length < cfg.maxLogSize := by
  grind [Config.scan, Config.scanMore]

namespace Cycle

/-- The signals reach the process, and the scanner does not give up before the pipe is closed. -/
def InTime (cfg : Config β E) (cycle : Cycle β E) : Move → Prop
  | .watch .sigterm => cycle.cmd.reaped = false
  | .watch .timeout => cycle.watch.pos = .waitCh → cycle.cmd.reaped = false
  | .read .scan => cycle.watch.writerClosed = false → cfg.Fits cycle.reader.pending
  | _ => True

/-- Nobody has left while the pipe was open. -/
structure Sound (cfg : Config β E) (cycle : Cycle β E) : Prop where
  watchCtx : cycle.cmd.watchCtx = .returned →
    cycle.cmd.waiter ≠ .processWait ∧ ∀ success, cycle.cmd.waiter ≠ .ctxResult success
  watch : cycle.watch.pos = .returned → cycle.watch.writerClosed
  innerErr : cycle.watch.pos = .waitCh → cycle.watch.innerErr = false
  reader : cycle.reader.pos = .returned → cycle.watch.writerClosed
  eof : cycle.reader.eof → cycle.watch.writerClosed
  room : cycle.reader.pos = .read → cycle.reader.pending.length < cfg.maxLogSize
  launched : cycle.watch.pos = .notStarted ↔ cycle.reader.pos = .notStarted

variable {cfg : Config β E} {cycle cycle' : Cycle β E} {ctxDone : Bool}

theorem sound_started : (started : Cycle β E).Sound cfg := by
  constructor <;> simp [started, Cmd.started, Watch.initial, Reader.initial]

variable (h : cycle.Sound cfg)
include h

theorem Sound.launch : cycle.launch.Sound cfg :=
  { h with watch := nofun, innerErr := nofun, reader := nofun, room := nofun, launched := by simp [Cycle.launch] }

theorem Sound.cmd {cmd : Cmd β} (hcmd : cmd.watchCtx = .returned →
    cmd.waiter ≠ .processWait ∧ ∀ success, cmd.waiter ≠ .ctxResult success) : { cycle with cmd }.Sound cfg :=
  { h with watchCtx := hcmd }

theorem Sound.step_cmd {move : CmdMove} {cmd : Cmd β} {writerClosed : Bool}
    (hs : cycle.cmd.step ctxDone writerClosed move = some cmd) : { cycle with cmd }.Sound cfg := by
  refine h.cmd fun hctx => ?_
  have hr := h.watchCtx
  cases move <;> grind [Cmd.step]

variable {watch : Watch}

theorem Sound.set_watch (hpos : watch.pos = .notStarted ↔ cycle.watch.pos = .notStarted)
    (hc : cycle.watch.writerClosed → watch.writerClosed) (hr : watch.pos = .returned → watch.writerClosed)
    (hi : watch.pos = .waitCh → watch.innerErr = false) : { cycle with watch }.Sound cfg :=
  { h with
    watch := hr
    innerErr := hi
    reader := fun hre => hc (h.reader hre)
    eof := fun heof => hc (h.eof heof)
    launched := hpos.trans h.launched }

theorem Sound.step_watch {move : WatchMove} (hok : cycle.InTime cfg (.watch move))
    (hs : cycle.watch.step ctxDone cycle.cmd move = some watch) :
    { cycle with watch }.Sound cfg := by
  cases move with
  | done | ctxDone =>
    obtain ⟨⟨hse, -⟩, rfl⟩ := ite_some_none_eq_some.mp hs
    exact h.set_watch (by simp [hse]) id nofun nofun
  | sigterm =>
    have hr : cycle.cmd.reaped = false := hok
    obtain ⟨hsi, heq⟩ := ite_none_right_eq_some.mp hs
    rw [if_neg (by simp [hr])] at heq
    cases heq
    exact h.set_watch (by simp [hsi]) id nofun fun _ => rfl
  | waitCh =>
    obtain ⟨⟨hwc, -⟩, heq⟩ := ite_none_right_eq_some.mp hs
    rw [h.innerErr hwc] at heq
    cases heq
    exact h.set_watch (by simp [hwc]) id nofun nofun
  | closeWriter =>
    obtain ⟨hcw, rfl⟩ := ite_some_none_eq_some.mp hs
    exact h.set_watch (by simp [hcw]) (fun _ => rfl) (fun _ => rfl) nofun
  | timeout =>
    obtain ⟨-, rfl⟩ := ite_some_none_eq_some.mp hs
    exact h.set_watch .rfl id h.watch hok
  | finished =>
    obtain ⟨-, rfl⟩ := ite_some_none_eq_some.mp hs
    exact h.set_watch .rfl id h.watch h.innerErr

theorem Sound.step_read {move : ReadMove} {reader : Reader β E} (hok : cycle.InTime cfg (.read move))
    (hs : cycle.reader.readOutput cfg cycle.watch.writerClosed move = some reader) :
    { cycle with reader }.Sound cfg := by
  obtain ⟨hctx, hwa, hi, hre, heof, hro, hl⟩ := h
  cases move with
  | scan =>
    simp only [Reader.readOutput] at hs
    split at hs
    case h_2 => cases hs
    rename_i hpos
    have hst : cycle.watch.pos ≠ .notStarted := fun hw => by simp [hpos] at hl; exact hl hw
    split at hs <;> cases hs
    · refine ⟨hctx, hwa, hi, ?_, heof, ?_, ?_⟩ <;> cases cfg.newEntry _ <;> simp_all
    · rename_i hr
      exact ⟨hctx, hwa, hi, nofun, heof, fun _ => Config.scan_read hr, by simpa using hst⟩
    · rename_i hsto
      refine ⟨hctx, hwa, hi, fun _ => ?_, heof, nofun, by simpa using hst⟩
      -- the scanner stops at the end of the input only
      by_contra ho
      simp only [Bool.not_eq_true] at ho
      have hf : cycle.reader.eof = false := by
        cases he : cycle.reader.eof
        · rfl
        · exact absurd (heof he) (by simp [ho])
      rw [hf] at hsto
      exact (hok ho).scan_ne hsto
  | readEOF =>
    simp only [Reader.readOutput] at hs
    split at hs
    case h_2 => cases hs
    rename_i hpos
    obtain ⟨hc, rfl⟩ := ite_some_none_eq_some.mp hs
    exact ⟨hctx, hwa, hi, nofun, fun _ => hc, nofun, by simp_all⟩
  | write =>
    simp only [Reader.readOutput] at hs
    split at hs <;> cases hs
    exact ⟨hctx, hwa, hi, nofun, heof, nofun, by simp_all⟩

variable {n : Nat}

omit h in
theorem transfer_eq (h : cycle.transfer cfg n = some cycle') : ∃ copier pending,
    cycle.reader.pos = .read ∧ cycle' = { cycle with
      cmd := { cycle.cmd with copier }, reader := { cycle.reader with pos := .scan, pending } } := by
  unfold Cycle.transfer at h
  split at h
  case h_2 => cases h
  rename_i hpos
  obtain ⟨-, rfl⟩ := ite_some_none_eq_some.mp h
  exact ⟨_, _, hpos, rfl⟩

theorem Sound.transfer (hs : cycle.transfer cfg n = some cycle') : cycle'.Sound cfg := by
  obtain ⟨copier, pending, hpos, rfl⟩ := transfer_eq hs
  exact { h with reader := nofun, room := nofun, launched := by simpa [hpos] using h.launched }

theorem Sound.step {move : Move} (hok : cycle.InTime cfg move) (hs : cycle.step cfg ctxDone move = some cycle') :
    cycle'.Sound cfg := by
  cases move with
  | cmd move =>
    obtain ⟨cmd, hcmd, rfl⟩ := map_eq_some_iff.mp hs
    exact h.step_cmd hcmd
  | watch move =>
    obtain ⟨watch, hw, rfl⟩ := map_eq_some_iff.mp hs
    exact h.step_watch hok hw
  | read move =>
    obtain ⟨reader, hr, rfl⟩ := map_eq_some_iff.mp hs
    exact h.step_read hok hr
  | transfer n => exact h.transfer hs

theorem Sound.script {event : Script β} {cmd : Cmd β} (hs : cycle.cmd.script event = some cmd) :
    { cycle with cmd }.Sound cfg := by
  refine h.cmd ?_
  have hctx := h.watchCtx
  cases event <;> grind [Cmd.script]

/-! ## There is a next step -/

theorem Sound.cmd_progress (ctxDone : Bool) (he : cycle.cmd.process ≠ .running) (hcl : cycle.cmd.outputClosed)
    (hwa : cycle.cmd.waiter ≠ .returned) :
    (∃ move, (cycle.step cfg ctxDone (.cmd move)).isSome) ∨ ∃ byte rest, cycle.cmd.copier = .write byte rest := by
  have hctx := h.watchCtx
  simp only [Cycle.step, isSome_map]
  cases hw : cycle.cmd.waiter with
  | processWait =>
    cases hp : cycle.cmd.process with
    | running => exact absurd hp he
    | exited success => exact .inl ⟨.processWait, by simp [Cmd.step, hw, hp]⟩
  | ctxResult success =>
    cases hr : cycle.cmd.watchCtx with
    | select => exact .inl ⟨.ctxResult, by simp [Cmd.step, hw, hr]⟩
    | result failed => exact .inl ⟨.ctxResult, by simp [Cmd.step, hw, hr]⟩
    | returned => exact absurd hw ((hctx hr).2 success)
  | awaitGoroutines success =>
    cases hc : cycle.cmd.copier with
    | read =>
      cases ho : cycle.cmd.output with
      | nil => exact .inl ⟨.copyEOF, by simp [Cmd.step, hc, ho, hcl]⟩
      | cons byte rest => exact .inl ⟨.copyRead 1, by simp [Cmd.step, hc, ho]⟩
    | write byte rest => exact .inr ⟨byte, rest, rfl⟩
    | returned failed => exact .inl ⟨.awaitGoroutines, by simp [Cmd.step, hw, hc]⟩
  | sendDone => exact .inl ⟨.sendDone, by simp [Cmd.step, hw]⟩
  | closeWait => exact .inl ⟨.closeWait, by simp [Cmd.step, hw]⟩
  | returned => exact absurd hw hwa

omit h in
theorem read_progress (cfg : Config β E) (ctxDone : Bool) (ha : cycle.reader.pos.active ≠ 0) :
    (∃ move, (cycle.step cfg ctxDone (.read move)).isSome) ∨
      cycle.reader.pos = .read ∧ cycle.watch.writerClosed = false := by
  simp only [Cycle.step, isSome_map]
  cases hpos : cycle.reader.pos with
  | notStarted | returned => simp [hpos, Reading.active] at ha
  | scan =>
    refine .inl ⟨.scan, ?_⟩
    simp only [Reader.readOutput, hpos]
    split <;> rfl
  | read =>
    cases hw : cycle.watch.writerClosed with
    | true => exact .inl ⟨.readEOF, by simp [Reader.readOutput, hpos]⟩
    | false => exact .inr ⟨rfl, rfl⟩
  | write entry => exact .inl ⟨.write, by simp [Reader.readOutput, hpos]⟩

theorem Sound.transfer_isSome {byte : β} {rest : List β} (hc : cycle.cmd.copier = .write byte rest)
    (hpos : cycle.reader.pos = .read)
    (ho : cycle.watch.writerClosed = false) : (cycle.step cfg ctxDone (.transfer 1)).isSome := by
  have hr := h.room hpos
  simp only [Cycle.step, Cycle.transfer, hc, hpos]
  rw [if_pos ⟨Nat.one_pos, by simp, by omega, ho⟩]
  rfl

theorem Sound.waitCh_progress (he : cycle.cmd.process ≠ .running) (hcl : cycle.cmd.outputClosed)
    (hpos : cycle.watch.pos = .waitCh) :
    ∃ move, (cycle.step cfg ctxDone move).isSome := by
  by_cases hw : cycle.cmd.waiter = .returned
  · exact ⟨.watch .waitCh, by simp [Cycle.step, Watch.step, hpos, hw]⟩
  obtain ⟨move, hm⟩ | ⟨byte, rest, hc⟩ := h.cmd_progress ctxDone he hcl hw
  · exact ⟨.cmd move, hm⟩
  cases ho : cycle.watch.writerClosed with
  | true => exact ⟨.cmd .copyClosed, by simp [Cycle.step, Cmd.step, hc, ho]⟩
  | false =>
    have ha : cycle.reader.pos.active ≠ 0 := by
      have hl := h.launched
      have hrea := h.reader
      cases hr : cycle.reader.pos <;> simp_all [Reading.active]
    obtain ⟨move, hm⟩ | ⟨hre, -⟩ := read_progress cfg ctxDone ha
    · exact ⟨.read move, hm⟩
    · exact ⟨.transfer 1, h.transfer_isSome hc hre ho⟩

theorem Sound.progress (he : cycle.cmd.process ≠ .running) (hc : cycle.cmd.outputClosed) (ha : cycle.active ≠ 0) :
    ∃ move, (cycle.step cfg true move).isSome := by
  cases hpos : cycle.watch.pos with
  | notStarted =>
    have hr := h.launched.mp hpos
    simp [active, hpos, hr, Watching.active, Reading.active] at ha
  | select => exact ⟨.watch .ctxDone, by simp [Cycle.step, Watch.step, hpos]⟩
  | sigterm =>
    refine ⟨.watch .sigterm, ?_⟩
    simp only [Cycle.step, Watch.step, hpos, if_true]
    split <;> rfl
  | waitCh => exact h.waitCh_progress he hc hpos
  | closeWriter => exact ⟨.watch .closeWriter, by simp [Cycle.step, Watch.step, hpos]⟩
  | returned =>
    have hre : cycle.reader.pos.active ≠ 0 := by simpa [active, hpos, Watching.active] using ha
    obtain ⟨move, hm⟩ | ⟨-, ho⟩ := read_progress cfg true hre
    · exact ⟨.read move, hm⟩
    · exact absurd (h.watch hpos) (by simp [ho])

end Cycle

/-! ## The operator -/

namespace Operator

def BlockedForever (cfg : Config β E) (i : Operator β E) (c : Nat) : Prop :=
  ∀ (actions : List (Action β)) (i' : Operator β E), actions.foldlM (step cfg) i = some i' →
    ∀ move, i'.step cfg (.move c move) = none

/-- The loop or `Stop` waits for a cancelled cycle that is blocked though its script is gone. -/
def Stuck (cfg : Config β E) (i : Operator β E) : Prop :=
  (i.loop = .wgWait ∨ i.stop = .wgWait) ∧ i.wg ≠ 0 ∧
    ∃ c cycle, i.cycles c = some cycle ∧ i.ctxDone cycle ∧ cycle.cmd.process ≠ .running ∧ cycle.active ≠ 0 ∧
      BlockedForever cfg i c

def InTime (cfg : Config β E) (i : Operator β E) : Action β → Prop
  | .move c move => ∀ cycle, i.cycles c = some cycle → cycle.InTime cfg move
  | _ => True

variable {cfg : Config β E} {i i' : Operator β E} {a : Action β}

theorem sound_step (h : Each (Cycle.Sound cfg) i) (hok : i.InTime cfg a) (hst : i.step cfg a = some i') :
    Each (Cycle.Sound cfg) i' := by
  refine h.step hst fun c cycle hch => ?_
  cases hch with
  | started => exact Cycle.sound_started
  | launch cycle _ _ hc => exact (h c cycle hc).launch
  | cancel cycle hc => exact { h c cycle hc with }
  | script cycle event cmd hc hs => exact (h c cycle hc).script hs
  | move cycle move _ ha hc hm =>
    subst ha
    exact (h c cycle hc).step (hok cycle hc) hm

variable {c : Nat}

theorem move_isSome {cycle : Cycle β E} (hc : i.cycles c = some cycle) (hctx : i.ctxDone cycle)
    {move : Move} (h : (cycle.step cfg true move).isSome) : (i.step cfg (.move c move)).isSome := by
  simpa [step, hc, hctx] using h

theorem not_blockedForever (h : Each (Cycle.Sound cfg) i) {cycle : Cycle β E}
    (hc : i.cycles c = some cycle) (hctx : i.ctxDone cycle) (he : cycle.cmd.process ≠ .running)
    (ha : cycle.active ≠ 0) : ¬ BlockedForever cfg i c := by
  intro hb
  have hso := h c cycle hc
  cases hcl : cycle.cmd.outputClosed with
  | true =>
    obtain ⟨move, hm⟩ := hso.progress he hcl ha
    have hs := move_isSome hc hctx hm
    rw [hb [] i rfl move] at hs
    cases hs
  | false =>
    let closed : Cycle β E := { cycle with cmd := { cycle.cmd with outputClosed := true } }
    have hsc : cycle.cmd.script .closeOutput = some closed.cmd := by simp [Cmd.script, hcl, closed]
    have hst : i.step cfg (.script c .closeOutput) = some (i.setCycle c closed) := by
      simp [step, hc, hsc, closed]
    obtain ⟨move, hm⟩ := (hso.script hsc).progress he rfl ha
    have hs := move_isSome (i := i.setCycle c closed) (Function.update_self ..) hctx hm
    rw [hb [.script c .closeOutput] (i.setCycle c closed) (by simp [hst]) move] at hs
    cases hs

theorem not_stuck (cfg : Config β E) (actions : List (Action β)) (i : Operator β E)
    (hgood : GoodRun (step cfg) (InTime cfg) start actions) (hrun : actions.foldlM (step cfg) start = some i) :
    ¬ i.Stuck cfg := by
  have hs : Each (Cycle.Sound cfg) i :=
    hgood.inv (fun _ _ _ => sound_step) (fun c cycle hc => by cases hc) hrun
  rintro ⟨-, -, c, cycle, hc, hctx, he, ha, hb⟩
  exact not_blockedForever hs hc hctx he ha hb

def overrun : List (Action Char) :=
  [.cmdStart, .startProcess false, .wgAdd, .script 0 (.output ['o', 'k']), .move 0 (.cmd (.copyRead 2)),
    .move 0 (.read .scan), .tick, .move 0 (.watch .ctxDone), .move 0 (.watch .sigterm), .script 0 (.exit false)]

theorem not_stuck_overrun : ∃ i, overrun.foldlM (step defaultConfig) start = some i ∧ i.loop = .wgWait ∧
    i.wg = 2 ∧ ¬ i.Stuck defaultConfig := by
  have hg : GoodRun (step defaultConfig) (InTime defaultConfig) start overrun := by
    -- every step is evaluated; the scanner reads from an empty buffer
    repeat
      refine ⟨?_, fun _ hs => ?_⟩
      · first
        | trivial
        | rintro _ ⟨⟩
          first
          | trivial
          | exact fun _ => Nat.zero_lt_succ _
      cases hs
    trivial
  have hend : (overrun.foldlM (step defaultConfig) start).any (fun i => i.loop = .wgWait ∧ i.wg = 2) = true := by
    decide +kernel
  obtain ⟨i, hrun, hl, hwg⟩ : ∃ i, overrun.foldlM (step defaultConfig) start = some i ∧ i.loop = .wgWait ∧
      i.wg = 2 := by simpa [any_eq_true] using hend
  exact ⟨i, hrun, hl, hwg, not_stuck defaultConfig overrun i hg hrun⟩

/-! ## A script that fails -/

structure Ended (cfg : Config β E) (cycle : Cycle β E) : Prop where
  cancelled : cycle.cancelled = true
  exited : cycle.cmd.process ≠ .running
  outputClosed : cycle.cmd.outputClosed = true
  blocked : ∀ move, cycle.step cfg true move = none

def Deadlock (cfg : Config β E) (i : Operator β E) : Prop :=
  i.loop = .wgWait ∧ i.wg ≠ 0 ∧ Each (Ended cfg) i

theorem Deadlock.move (h : i.Deadlock cfg) (c : Nat) (move : Move) : i.step cfg (.move c move) = none := by
  obtain ⟨-, -, he⟩ := h
  cases hc : i.cycles c with
  | none => simp [step, hc]
  | some cycle =>
    have hc' := he c cycle hc
    simp [step, hc, ctxDone, hc'.cancelled, hc'.blocked move]

theorem Deadlock.step (h : i.Deadlock cfg) (hs : i.step cfg a = some i') : i'.Deadlock cfg := by
  have hm := h.move
  obtain ⟨hl, hwg, he⟩ := h
  cases a with
  | move c move =>
    rw [hm c move] at hs
    cases hs
  | cancelAll =>
    obtain ⟨-, rfl⟩ := ite_some_none_eq_some.mp hs
    exact ⟨hl, hwg, he⟩
  | script c event =>
    obtain ⟨cycle, cmd, hc, hsc, -⟩ := script_eq_some hs
    have hc := he c cycle hc
    cases event <;> simp [Cmd.script, hc.outputClosed, hc.exited] at hsc
  | _ => simp [Operator.step, hl, hwg] at hs

theorem Deadlock.blockedForever (h : i.Deadlock cfg) (c : Nat) : BlockedForever cfg i c := by
  intro actions i' hrun move
  have hend : i'.Deadlock cfg :=
    foldlM_inv (Operator.step cfg) (fun _ i => i.Deadlock cfg) i actions h (fun _ _ _ _ _ h => h.step) i' hrun
  exact hend.move c move

def failure : List (Action Char) :=
  [.cmdStart, .startProcess false, .wgAdd, .move 0 (.read .scan), .script 0 (.exit false), .script 0 .closeOutput,
    .move 0 (.cmd .copyEOF), .move 0 (.cmd .processWait), .move 0 (.cmd .ctxResult),
    .move 0 (.cmd .awaitGoroutines), .move 0 (.cmd .closeWait), .tick, .move 0 (.watch .ctxDone),
    .move 0 (.watch .sigterm)]

def failedCycle : Cycle Char (List Char) where
  cmd := ⟨.exited false, [], true, .returned false, .returned, .returned, false⟩
  watch := ⟨.returned, .notStarted, false, false, false⟩
  reader := ⟨.read, [], false⟩
  cancelled := true

theorem ended_failedCycle : Ended defaultConfig failedCycle := by
  refine ⟨rfl, nofun, rfl, fun move => ?_⟩
  cases move with
  | cmd move => cases move <;> rfl
  | watch move => cases move <;> rfl
  | read move => cases move <;> rfl
  | transfer n => rfl

theorem failure_stuck : ∃ i, failure.foldlM (step defaultConfig) start = some i ∧ i.Stuck defaultConfig := by
  have hc : ∀ c, (failure.foldlM (step defaultConfig) start).map (fun i => i.cycles c) =
      some (if c = 0 then some failedCycle else none) := by
    rintro (_ | c)
    · rfl
    · rfl
  have hw : (failure.foldlM (step defaultConfig) start).any (fun i => i.loop = .wgWait ∧ i.wg = 1) = true := by
    decide +kernel
  obtain ⟨i, hrun, hl, hwg⟩ : ∃ i, failure.foldlM (step defaultConfig) start = some i ∧ i.loop = .wgWait ∧
      i.wg = 1 := by simpa [any_eq_true] using hw
  simp only [hrun, map_some, some.injEq] at hc
  have hd : i.Deadlock defaultConfig := by
    refine ⟨hl, by simp [hwg], fun c cycle hcy => ?_⟩
    rw [hc c] at hcy
    split at hcy <;> cases hcy
    exact ended_failedCycle
  refine ⟨i, hrun, .inl hl, by simp [hwg], 0, failedCycle, hc 0, ?_, nofun, nofun, hd.blockedForever 0⟩
  simp [ctxDone, failedCycle]

end Operator

end Collector.ScriptedInputs
