import Collector.ScriptedInputs.Progress

/-!
# After `Stop`

The wait group counts the goroutines of the current cycle. A script that is started but not counted yet escapes `Stop`.
-/

namespace Collector.ScriptedInputs

open Lib Option

variable {β E : Type} {move : Move}

/-! ## One cycle -/

namespace Cycle

structure Tracked (cycle : Cycle β E) : Prop where
  exited : cycle.cmd.reaped → cycle.cmd.process ≠ .running
  doneCh : cycle.cmd.doneCh → cycle.cmd.reaped
  watch : cycle.watch.pos = .closeWriter ∨ cycle.watch.pos = .returned → cycle.cmd.reaped
  launched : cycle.watch.pos = .notStarted ↔ cycle.reader.pos = .notStarted

variable {cfg : Config β E} {cycle cycle' : Cycle β E} {ctxDone : Bool}

theorem tracked_started : (started : Cycle β E).Tracked := by
  constructor <;> simp [started, Cmd.started, Cmd.reaped, Watch.initial, Reader.initial]

variable (h : cycle.Tracked)
include h

theorem Tracked.launch : cycle.launch.Tracked :=
  { h with watch := by simp [Cycle.launch], launched := by simp [Cycle.launch] }

variable {cmd : Cmd β}

theorem Tracked.script {event : Script β} (hs : cycle.cmd.script event = some cmd) : { cycle with cmd }.Tracked := by
  obtain ⟨he, hd, hw, hl⟩ := h
  constructor <;> cases event <;> grind [Cmd.script, Cmd.reaped]

variable {writerClosed : Bool}

theorem Tracked.step_cmd {move : CmdMove} (hs : cycle.cmd.step ctxDone writerClosed move = some cmd) :
    { cycle with cmd }.Tracked := by
  obtain ⟨he, hd, hw, hl⟩ := h
  constructor <;> cases move <;> grind [Cmd.step, Cmd.reaped]

theorem Tracked.step_watch {move : WatchMove} {watch : Watch}
    (hs : cycle.watch.step ctxDone cycle.cmd move = some watch) : { cycle with watch }.Tracked := by
  obtain ⟨he, hd, hw, hl⟩ := h
  constructor <;> cases move <;> grind [Watch.step, Cmd.reaped]

omit h in
theorem readOutput_pos {reader reader' : Reader β E} {move : ReadMove}
    (h : reader.readOutput cfg writerClosed move = some reader') :
    reader.pos.active = 1 ∧ reader.pos ≠ .notStarted ∧ reader'.pos ≠ .notStarted := by
  cases move with
  | scan =>
    simp only [Reader.readOutput] at h
    split at h
    case h_2 => cases h
    rename_i hpos
    refine ⟨by simp [hpos, Reading.active], by simp [hpos], ?_⟩
    split at h <;> cases h
    · cases cfg.newEntry _ <;> simp
    · simp
    · simp
  | readEOF | write => grind [Reader.readOutput, Reading.active]

omit h in
theorem Reading.active_le (pos : Reading E) : pos.active ≤ 1 := by
  cases pos <;> simp [Reading.active]

theorem Tracked.step (hs : cycle.step cfg ctxDone move = some cycle') : cycle'.Tracked := by
  cases move with
  | cmd move =>
    obtain ⟨cmd, hcmd, rfl⟩ := map_eq_some_iff.mp hs
    exact h.step_cmd hcmd
  | watch move =>
    obtain ⟨watch, hw, rfl⟩ := map_eq_some_iff.mp hs
    exact h.step_watch hw
  | read move =>
    obtain ⟨reader, hr, rfl⟩ := map_eq_some_iff.mp hs
    obtain ⟨-, hpos, hpos'⟩ := readOutput_pos hr
    exact { h with launched := iff_of_false (h.launched.not.mpr hpos) hpos' }
  | transfer n =>
    obtain ⟨copier, pending, hpos, rfl⟩ := transfer_eq hs
    exact { h with launched := iff_of_false (h.launched.not.mpr (by simp [hpos])) nofun }

omit h in
theorem step_active (hs : cycle.step cfg ctxDone move = some cycle') :
    cycle'.active ≤ cycle.active ∧ (cycle'.watch.pos = .notStarted ↔ cycle.watch.pos = .notStarted) := by
  cases move with
  | cmd move =>
    obtain ⟨cmd, -, rfl⟩ := map_eq_some_iff.mp hs
    exact ⟨le_rfl, .rfl⟩
  | watch move =>
    obtain ⟨watch, hw, rfl⟩ := map_eq_some_iff.mp hs
    unfold active
    cases move <;> grind [Watch.step, Watching.active]
  | read move =>
    obtain ⟨reader, hr, rfl⟩ := map_eq_some_iff.mp hs
    obtain ⟨ha, -, -⟩ := readOutput_pos hr
    have hle := Reading.active_le reader.pos
    exact ⟨by simp only [active]; omega, .rfl⟩
  | transfer n =>
    obtain ⟨copier, pending, hpos, rfl⟩ := transfer_eq hs
    exact ⟨by simp [active, hpos, Reading.active], .rfl⟩

theorem Tracked.active_eq_zero (hpos : cycle.watch.pos = .notStarted) : cycle.active = 0 := by
  simp [active, hpos, h.launched.mp hpos, Watching.active, Reading.active]

end Cycle

/-! ## The wait group -/

namespace Operator

structure Counted (i : Operator β E) : Prop where
  wg : i.wg = (i.cycles i.current).elim 0 Cycle.active
  earlier : ∀ c cycle, i.cycles c = some cycle → c ≠ i.current → cycle.active = 0
  later : ∀ c, i.current < c → i.cycles c = none
  fresh : i.loop = .cmdStart ∨ i.loop = .startProcess → i.cycles i.current = none
  unlaunched : ∀ c cycle, i.cycles c = some cycle → (cycle.watch.pos = .notStarted ↔ c = i.current ∧ i.loop = .wgAdd)

variable {cfg : Config β E} {i i' : Operator β E} {a : Action β}

theorem counted_start : (start : Operator β E).Counted := by
  constructor <;> simp [start]

theorem tracked_step (h : Each Cycle.Tracked i) (hst : i.step cfg a = some i') : Each Cycle.Tracked i' := by
  refine h.step hst fun c cycle hch => ?_
  cases hch with
  | started => exact Cycle.tracked_started
  | launch cycle _ _ hc => exact (h c cycle hc).launch
  | cancel cycle hc => exact { h c cycle hc with }
  | script cycle event cmd hc hs => exact (h c cycle hc).script hs
  | move cycle move _ _ hc hm => exact (h c cycle hc).step hm

section

variable (h : i.Counted)
include h

theorem Counted.setCycle {c : Nat} {cycle : Cycle β E} (cycle' : Cycle β E) (hcy : i.cycles c = some cycle)
    (ha : cycle'.active ≤ cycle.active)
    (hpos : cycle'.watch.pos = .notStarted ↔ cycle.watch.pos = .notStarted) (log : List E) :
    { i.setCycle c cycle' with wg := i.wg - (cycle.active - cycle'.active), log }.Counted := by
  constructor <;> simp only [setCycle_cycles, setCycle_current, setCycle_loop]
  case wg =>
    have hwg := h.wg
    by_cases hc : i.current = c
    · rw [hc, hcy] at hwg
      simp only [hc, if_true, elim_some] at hwg ⊢
      omega
    · have hz := h.earlier c cycle hcy (Ne.symm hc)
      simp only [hc, if_false]
      omega
  case earlier =>
    intro d other ho hd
    split_ifs at ho with hdc
    · cases ho
      have hz := h.earlier c cycle hcy (hdc ▸ hd)
      omega
    · exact h.earlier d other ho hd
  case later =>
    intro d hd
    have hn := h.later d hd
    rw [if_neg, hn]
    rintro rfl
    exact nomatch hcy.symm.trans hn
  case fresh =>
    intro hl
    have hn := h.fresh hl
    rw [if_neg]
    · exact hn
    · rintro rfl
      exact nomatch hcy.symm.trans hn
  case unlaunched =>
    intro d other ho
    split_ifs at ho with hdc
    · cases ho
      rw [hpos, hdc]
      exact h.unlaunched c cycle hcy
    · exact h.unlaunched d other ho

theorem Counted.cancelCycle : i.cancelCycle.Counted := by
  unfold Operator.cancelCycle
  split
  · exact h
  · rename_i cycle hc
    have hset := h.setCycle { cycle with cancelled := true } hc le_rfl .rfl i.log
    simpa [Cycle.active, Operator.setCycle] using hset

theorem Counted.setLoop (hl : i.loop ≠ .wgAdd) {loop : Loop} (hadd : loop ≠ .wgAdd)
    (hf : loop = .cmdStart ∨ loop = .startProcess → i.cycles i.current = none) : { i with loop }.Counted := by
  refine { h with fresh := hf, unlaunched := fun c cycle hc => ?_ }
  simpa [hl, hadd] using h.unlaunched c cycle hc

theorem Counted.startProcess (hl : i.loop = .startProcess) :
    { i.setCycle i.current .started with loop := .wgAdd }.Counted := by
  constructor <;> simp only [setCycle_cycles, setCycle_current]
  case wg =>
    have hwg := h.wg
    rw [h.fresh (.inr hl)] at hwg
    rw [if_pos trivial]
    exact hwg
  case earlier =>
    intro c cycle hcy hc
    rw [if_neg hc] at hcy
    exact h.earlier c cycle hcy hc
  case later =>
    intro c hc
    rw [if_neg (Nat.ne_of_gt hc)]
    exact h.later c hc
  case fresh => exact nofun
  case unlaunched =>
    intro c cycle hcy
    split_ifs at hcy with hc
    · cases hcy
      exact iff_of_true rfl ⟨hc, trivial⟩
    · have hpos := h.unlaunched c cycle hcy
      simp only [hl, reduceCtorEq, and_false, iff_false] at hpos
      exact iff_of_false hpos fun hcur => hc hcur.1

theorem Counted.launch (ht : Each Cycle.Tracked i) (hl : i.loop = .wgAdd) :
    { i.launch with loop := .select }.Counted := by
  unfold Operator.launch
  split
  · rename_i hn
    refine { h with fresh := nofun, unlaunched := fun c cycle hcy => ?_ }
    have hpos := h.unlaunched c cycle hcy
    have hc : c ≠ i.current := by
      rintro rfl
      exact nomatch hcy.symm.trans hn
    simpa [hc] using hpos
  · rename_i cycle hcy
    have hpos := (h.unlaunched _ cycle hcy).mpr ⟨rfl, hl⟩
    have hwg : i.wg = 0 := by
      rw [h.wg, hcy]
      exact (ht _ cycle hcy).active_eq_zero hpos
    constructor <;> simp only [setCycle_cycles, setCycle_current]
    case wg =>
      rw [if_pos trivial, hwg]
      rfl
    case earlier =>
      intro c other ho hc
      rw [if_neg hc] at ho
      exact h.earlier c other ho hc
    case later =>
      intro c hc
      rw [if_neg (Nat.ne_of_gt hc)]
      exact h.later c hc
    case fresh => exact nofun
    case unlaunched =>
      intro c other ho
      refine iff_of_false ?_ nofun
      split at ho
      · cases ho
        exact nofun
      · rename_i hc
        exact fun ho' => hc ((h.unlaunched c other ho).mp ho').1

theorem Counted.next (hl : i.loop ≠ .wgAdd) (hwg : i.wg = 0) :
    { i with loop := .cmdStart, current := i.current + 1 }.Counted where
  wg := by
    rw [show i.cycles (i.current + 1) = none from h.later _ (Nat.lt_succ_self _)]
    exact hwg
  earlier := by
    intro c cycle hcy _
    by_cases hc : c = i.current
    · have hz := h.wg
      rw [← hc, hcy] at hz
      exact hz.symm.trans hwg
    · exact h.earlier c cycle hcy hc
  later := fun c hc => h.later c (Nat.lt_of_succ_lt hc)
  fresh := fun _ => h.later _ (Nat.lt_succ_self _)
  unlaunched := by
    intro c cycle hcy
    simpa [hl] using h.unlaunched c cycle hcy

omit h in
theorem cancelCycle_loop : i.cancelCycle.loop = i.loop := by
  unfold Operator.cancelCycle
  split <;> rfl

theorem Counted.step (ht : Each Cycle.Tracked i) (hs : i.step cfg a = some i') : i'.Counted := by
  cases a with
  | cmdStart =>
    obtain ⟨hl, rfl⟩ := ite_some_none_eq_some.mp hs
    exact h.setLoop (by simp [hl]) (by split <;> simp) fun _ => h.fresh (.inl hl)
  | startProcess failed =>
    obtain ⟨hl, heq⟩ := ite_none_right_eq_some.mp hs
    split at heq <;> cases heq
    · exact h.setLoop (by simp [hl]) nofun nofun
    · exact h.startProcess hl
  | wgAdd =>
    obtain ⟨hl, rfl⟩ := ite_some_none_eq_some.mp hs
    exact h.launch ht hl
  | ctxDone =>
    obtain ⟨⟨hl, -⟩, rfl⟩ := ite_some_none_eq_some.mp hs
    exact h.cancelCycle.setLoop (by simp [cancelCycle_loop, hl]) nofun nofun
  | tick =>
    obtain ⟨hl, rfl⟩ := ite_some_none_eq_some.mp hs
    exact h.cancelCycle.setLoop (by simp [cancelCycle_loop, hl]) nofun nofun
  | wgWait =>
    obtain ⟨⟨hl, hwg⟩, rfl⟩ := ite_some_none_eq_some.mp hs
    exact h.next (by simp [hl]) hwg
  | cancelAll | stopReturns =>
    obtain ⟨-, rfl⟩ := ite_some_none_eq_some.mp hs
    exact { h with }
  | script c event =>
    obtain ⟨cycle, cmd, hc, -, rfl⟩ := script_eq_some hs
    have hset := h.setCycle { cycle with cmd } hc le_rfl .rfl i.log
    simpa [Cycle.active, Operator.setCycle] using hset
  | move c move =>
    obtain ⟨cycle, cycle', hc, hm, rfl⟩ := move_eq_some hs
    obtain ⟨ha, hpos⟩ := Cycle.step_active hm
    exact h.setCycle cycle' hc ha hpos _

end

/-- The scripts of two cycles never run at the same time. -/
theorem running_current (cfg : Config β E) (actions : List (Action β)) (i : Operator β E)
    (hrun : actions.foldlM (step cfg) start = some i) (c : Nat) (cycle : Cycle β E) (hc : i.cycles c = some cycle)
    (hprocess : cycle.cmd.process = .running) : c = i.current := by
  have h : Each Cycle.Tracked i ∧ i.Counted :=
    foldlM_inv (step cfg) (fun _ i => Each Cycle.Tracked i ∧ i.Counted) start actions
      ⟨fun _ _ => nofun, counted_start⟩
      (fun _ _ _ _ _ h hs => ⟨tracked_step h.1 hs, h.2.step h.1 hs⟩) i hrun
  by_contra hne
  have ht := h.1 c cycle hc
  have hwa : cycle.watch.pos ≠ .notStarted := fun hpos => hne ((h.2.unlaunched c cycle hc).mp hpos).1
  have ha := (Nat.add_eq_zero_iff.mp (h.2.earlier c cycle hc hne)).1
  have hre : cycle.watch.pos = .returned := by
    cases hpos : cycle.watch.pos <;> simp_all [Watching.active]
  exact ht.exited (ht.watch (.inr hre)) hprocess

/-- The first script has exited, and the next tick starts the second one. -/
def secondCycle : List (Action Char) :=
  [.cmdStart, .startProcess false, .wgAdd, .move 0 (.read .scan), .script 0 .closeOutput, .script 0 (.exit true),
    .move 0 (.cmd .copyEOF), .move 0 (.cmd .processWait), .move 0 (.cmd .ctxResult),
    .move 0 (.cmd .awaitGoroutines), .move 0 (.cmd .sendDone), .move 0 (.watch .done),
    .move 0 (.watch .closeWriter), .move 0 (.read .readEOF), .move 0 (.read .scan), .tick, .wgWait, .cmdStart,
    .startProcess false]

theorem running_current_secondCycle : ∃ i, secondCycle.foldlM (step defaultConfig) start = some i ∧
    (i.cycles 0).map (·.cmd.process) = some (.exited true) ∧ 1 = i.current :=
  ⟨_, rfl, rfl, running_current defaultConfig secondCycle _ rfl 1 .started rfl rfl⟩

/-! ## `Stop` -/

structure Gone (cycle : Cycle β E) : Prop where
  exited : cycle.cmd.process ≠ .running
  watch : cycle.watch.pos = .returned
  reader : cycle.reader.pos = .returned

theorem Gone.script {cycle : Cycle β E} (h : Gone cycle) {event : Script β} {cmd : Cmd β}
    (hs : cycle.cmd.script event = some cmd) : Gone { cycle with cmd } := by
  refine ⟨?_, h.watch, h.reader⟩
  have he := h.exited
  cases event <;> grind [Cmd.script]

theorem Gone.step {cycle cycle' : Cycle β E} {ctxDone : Bool} (h : Gone cycle)
    (hs : cycle.step cfg ctxDone move = some cycle') : Gone cycle' ∧ cycle.written move = [] := by
  have hr := h.reader
  cases move with
  | cmd move =>
    obtain ⟨cmd, hcmd, rfl⟩ := map_eq_some_iff.mp hs
    have he := h.exited
    refine ⟨⟨?_, h.watch, hr⟩, rfl⟩
    cases move <;> grind [Cmd.step]
  | watch move =>
    obtain ⟨watch, hw, rfl⟩ := map_eq_some_iff.mp hs
    have hpos := h.watch
    refine ⟨⟨h.exited, ?_, hr⟩, rfl⟩
    cases move <;> grind [Watch.step]
  | read move =>
    obtain ⟨reader, hre, -⟩ := map_eq_some_iff.mp hs
    have ha := (Cycle.readOutput_pos hre).1
    simp [hr, Reading.active] at ha
  | transfer n =>
    obtain ⟨_, _, hpos, -⟩ := Cycle.transfer_eq hs
    simp [hr] at hpos

structure Quiet (i : Operator β E) : Prop where
  cancelled : i.cancelled = true
  loop : i.loop ≠ .startProcess ∧ i.loop ≠ .wgAdd
  gone : Each Gone i

theorem Quiet.loop_step (h : i.Quiet) (hst : i.step cfg a = some i') :
    i'.cancelled = true ∧ i'.loop ≠ .startProcess ∧ i'.loop ≠ .wgAdd := by
  have hc := h.cancelled
  obtain ⟨hs, hadd⟩ := h.loop
  cases a with
  | script c event =>
    obtain ⟨cycle, cmd, -, -, rfl⟩ := script_eq_some hst
    exact ⟨hc, hs, hadd⟩
  | move c move =>
    obtain ⟨cycle, cycle', -, -, rfl⟩ := move_eq_some hst
    exact ⟨hc, hs, hadd⟩
  | _ => grind [Operator.step, Operator.cancelCycle, Operator.setCycle]

theorem Quiet.log_step (h : i.Quiet) (hs : i.step cfg a = some i') : i'.log = i.log := by
  cases a with
  | move c move =>
    obtain ⟨cycle, cycle', hc, hm, rfl⟩ := move_eq_some hs
    simp [((h.gone c cycle hc).step hm).2]
  | script c event =>
    obtain ⟨cycle, cmd, -, -, rfl⟩ := script_eq_some hs
    rfl
  | _ => grind [Operator.step, Operator.cancelCycle, Operator.setCycle, Operator.launch]

theorem Quiet.step (h : i.Quiet) (hs : i.step cfg a = some i') : i'.Quiet := by
  obtain ⟨hca, hl⟩ := h.loop_step hs
  refine ⟨hca, hl, h.gone.step hs fun c cycle hch => ?_⟩
  cases hch with
  | started hst => exact absurd hst h.loop.1
  | launch _ hadd => exact absurd hadd h.loop.2
  | cancel cycle hc => exact { h.gone c cycle hc with }
  | script cycle event cmd hc hsc => exact (h.gone c cycle hc).script hsc
  | move cycle move _ _ hc hm => exact ((h.gone c cycle hc).step hm).1

/-- `Stop` does not return between the start of a script and `wg.Add`. -/
def NotStarting (i : Operator β E) (a : Action β) : Prop :=
  a = .stopReturns → i.loop ≠ .startProcess ∧ i.loop ≠ .wgAdd

structure Stopping (i : Operator β E) : Prop where
  tracked : Each Cycle.Tracked i
  counted : i.Counted
  cancelled : i.stop ≠ .notCalled → i.cancelled = true
  quiet : i.stop = .returned → i.Quiet

theorem gone_of_wg (h : Each Cycle.Tracked i) (hc : i.Counted) (hwg : i.wg = 0) (hl : i.loop ≠ .wgAdd) :
    Each Gone i := by
  intro c cycle hcy
  have ht := h c cycle hcy
  have hwa : cycle.watch.pos ≠ .notStarted := fun hpos => hl ((hc.unlaunched c cycle hcy).mp hpos).2
  have hrea : cycle.reader.pos ≠ .notStarted := fun hpos => hwa (ht.launched.mpr hpos)
  have ha : cycle.active = 0 := by
    by_cases hcur : c = i.current
    · have hco := hc.wg
      rw [← hcur, hcy, hwg] at hco
      exact hco.symm
    · exact hc.earlier c cycle hcy hcur
  obtain ⟨hw, hr⟩ := Nat.add_eq_zero_iff.mp ha
  have hre : cycle.watch.pos = .returned := by
    cases hpos : cycle.watch.pos <;> simp_all [Watching.active]
  refine ⟨ht.exited (ht.watch (.inr hre)), hre, ?_⟩
  cases hpos : cycle.reader.pos <;> simp_all [Reading.active]

theorem stop_step (hne : a ≠ .cancelAll) (hne' : a ≠ .stopReturns) (hs : i.step cfg a = some i') :
    i'.stop = i.stop ∧ i'.cancelled = i.cancelled := by
  cases a with
  | script c event =>
    obtain ⟨cycle, cmd, -, -, rfl⟩ := script_eq_some hs
    exact ⟨rfl, rfl⟩
  | move c move =>
    obtain ⟨cycle, cycle', -, -, rfl⟩ := move_eq_some hs
    exact ⟨rfl, rfl⟩
  | cancelAll => exact absurd rfl hne
  | stopReturns => exact absurd rfl hne'
  | _ => grind [Operator.step, Operator.cancelCycle, Operator.setCycle, Operator.launch]

theorem Stopping.step (h : i.Stopping) (hok : i.NotStarting a) (hs : i.step cfg a = some i') : i'.Stopping := by
  have ht := tracked_step h.tracked hs
  have hco := h.counted.step h.tracked hs
  by_cases hc : a = .cancelAll
  · subst hc
    obtain ⟨-, rfl⟩ := ite_some_none_eq_some.mp hs
    exact ⟨ht, hco, fun _ => rfl, nofun⟩
  by_cases hr : a = .stopReturns
  · have hl := hok hr
    subst hr
    obtain ⟨⟨hw, hwg⟩, heq⟩ := ite_none_right_eq_some.mp hs
    have hca := h.cancelled (by simp [hw])
    have hg := gone_of_wg h.tracked h.counted hwg hl.2
    cases heq
    exact ⟨ht, hco, fun _ => hca, fun _ => ⟨hca, hl, hg⟩⟩
  obtain ⟨hst, hca⟩ := stop_step hc hr hs
  refine ⟨ht, hco, ?_, fun hre => ?_⟩
  · rw [hst, hca]
    exact h.cancelled
  · rw [hst] at hre
    exact (h.quiet hre).step hs

def NoneRunning (i : Operator β E) : Prop :=
  ∀ c cycle, i.cycles c = some cycle → cycle.cmd.process ≠ .running

/-- After `Stop` no script runs and no entry is written, if no script is being started while it returns. -/
theorem quiet_after_stop (cfg : Config β E) (actions : List (Action β)) (i : Operator β E)
    (hgood : GoodRun (step cfg) NotStarting start actions) (hrun : actions.foldlM (step cfg) start = some i)
    (hstop : i.stop = .returned) (later : List (Action β)) (i' : Operator β E)
    (hlater : later.foldlM (step cfg) i = some i') : i.NoneRunning ∧ i'.NoneRunning ∧ i'.log = i.log := by
  have hst : (start : Operator β E).Stopping :=
    ⟨fun c cycle hc => (by cases hc), counted_start, fun h => absurd rfl h, nofun⟩
  have hq : i.Quiet := (hgood.inv (fun _ _ _ => Stopping.step) hst hrun).quiet hstop
  have hlater : i'.Quiet ∧ i'.log = i.log :=
    foldlM_inv (Operator.step cfg) (fun _ j => j.Quiet ∧ j.log = i.log) i later ⟨hq, rfl⟩
      (fun _ _ _ _ _ h hs => ⟨h.1.step hs, (h.1.log_step hs).trans h.2⟩) i' hlater
  exact ⟨fun c cycle hc => (hq.gone c cycle hc).exited, fun c cycle hc => (hlater.1.gone c cycle hc).exited, hlater.2⟩

def stopRunning : List (Action Char) :=
  [.cmdStart, .startProcess false, .wgAdd, .move 0 (.read .scan), .cancelAll, .move 0 (.watch .ctxDone),
    .move 0 (.watch .sigterm), .script 0 (.exit false), .script 0 .closeOutput, .move 0 (.cmd .copyEOF),
    .move 0 (.cmd .processWait), .move 0 (.cmd .ctxResult), .move 0 (.cmd .awaitGoroutines), .ctxDone,
    .move 0 (.cmd .closeWait), .move 0 (.watch .waitCh), .move 0 (.watch .closeWriter), .move 0 (.read .readEOF),
    .move 0 (.read .scan)]

def stopped : List (Action Char) :=
  stopRunning ++ [.stopReturns]

theorem quiet_after_stopped : ∃ i, stopped.foldlM (step defaultConfig) start = some i ∧ i.stop = .returned ∧
    i.NoneRunning := by
  have hg : GoodRun (step defaultConfig) NotStarting start stopped := by
    repeat
      refine ⟨?_, fun _ hs => ?_⟩
      · rintro ⟨⟩ <;> exact ⟨nofun, nofun⟩
      cases hs
    trivial
  have hend : (stopped.foldlM (step defaultConfig) start).any (fun i => i.stop = .returned) = true := by
    decide +kernel
  obtain ⟨i, hrun, hs⟩ : ∃ i, stopped.foldlM (step defaultConfig) start = some i ∧ i.stop = .returned := by
    simpa [any_eq_true] using hend
  exact ⟨i, hrun, hs, (quiet_after_stop defaultConfig _ i hg hrun hs [] i rfl).1⟩

def stopStarting : List (Action Char) :=
  [.cmdStart, .startProcess false, .cancelAll, .stopReturns]

def afterStop : List (Action Char) :=
  [.wgAdd, .move 0 (.read .scan), .script 0 (.output ['x']), .move 0 (.cmd (.copyRead 1)), .move 0 (.transfer 1),
    .move 0 (.read .scan), .script 0 .closeOutput, .script 0 (.exit true), .move 0 (.cmd .copyEOF),
    .move 0 (.cmd .processWait), .move 0 (.cmd .ctxResult), .move 0 (.cmd .awaitGoroutines),
    .move 0 (.cmd .sendDone), .move 0 (.watch .done), .move 0 (.watch .closeWriter), .move 0 (.read .readEOF),
    .move 0 (.read .scan), .move 0 (.read .write)]

theorem stopStarting_not_quiet : ∃ i i', stopStarting.foldlM (step defaultConfig) start = some i ∧
    i.stop = .returned ∧ ¬ i.NoneRunning ∧ afterStop.foldlM (step defaultConfig) i = some i' ∧
    i.log = [] ∧ i'.log = [['x']] := by
  have hs : (stopStarting.foldlM (step defaultConfig) start).any (fun i => i.stop = .returned ∧ i.log = [] ∧
      (i.cycles 0).any (fun cycle => cycle.cmd.process = .running) ∧
      (afterStop.foldlM (step defaultConfig) i).any (fun i' => i'.log = [['x']])) = true := by
    decide +kernel
  simp only [any_eq_true, decide_eq_true_iff] at hs
  obtain ⟨i, hrun, hr, hlog, ⟨cycle, hc, hru⟩, i', hl, hlog'⟩ := hs
  exact ⟨i, i', hrun, hr, fun hn => hn 0 cycle hc hru, hl, hlog, hlog'⟩

end Operator

end Collector.ScriptedInputs
