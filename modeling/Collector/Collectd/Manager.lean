import Collector.Value

/-!
# The collectd manager

`internal/signalfx-agent/pkg/monitors/collectd/collectd.go` and `Debounce0` of `pkg/utils/time.go`. Each start of
`manageCollectd` is an incarnation with a debouncer, a forwarder and child processes of its own. They share the mutex
and the channel `requestRestart`.
-/

namespace Collector.Collectd

open List Option

/-! ## One incarnation -/

inductive Position where
  | init
  | errored
  /-- `Uninitialized`, before the debouncer and the forwarder are made. -/
  | entering
  | uninitialized
  | starting
  | running
  | restarting
  | shuttingDown
  | stopped
  /-- `restartDebouncedStop` is closed. -/
  | stopping
  | returned
  deriving DecidableEq

inductive Debouncer where
  | absent
  | select
  /-- It holds its lock and sends to `restart`. -/
  | sending
  | returned
  deriving DecidableEq

inductive Forwarder where
  | absent
  | select
  /-- It has a request and waits for the lock of the debouncer. -/
  | received
  | returned
  deriving DecidableEq

inductive Child where
  | alive
  /-- `Wait` is over, and the goroutine sends to `procDied`. -/
  | exited
  | reaped
  deriving DecidableEq

structure Incarnation where
  pos : Position
  initClosed : Bool
  stop : Bool
  terminated : Bool
  debouncer : Debouncer
  callRequested : Bool
  debounceStop : Bool
  forwarder : Forwarder
  children : List Child
  deriving DecidableEq

namespace Incarnation

inductive Start where
  | renderFailed
  | startFailed
  | started
  deriving DecidableEq

inductive Action where
  | startWriteServer (ok : Bool)
  | makeForwarder
  | takeStop
  | takeRestart
  | takeProcDied (k : Nat)
  | start (outcome : Start)
  | closeDebouncer
  | closeTerminated
  | tick
  | stopDebouncer
  | passOn
  | stopForwarder
  | childExits (k : Nat)
  deriving DecidableEq

def fresh : Incarnation :=
  ⟨.init, false, false, false, .absent, false, false, .absent, []⟩

/-- A killed child exits in a step of its own, and the sleeps are left out. -/
def step (m : Incarnation) : Action → Option Incarnation
  | .startWriteServer ok =>
    if m.pos = .init then some { m with pos := if ok then .entering else .errored, initClosed := true } else none
  | .makeForwarder =>
    if m.pos = .entering then some { m with pos := .uninitialized, debouncer := .select, forwarder := .select }
    else none
  | .takeStop =>
    match m.stop, m.pos with
    | true, .uninitialized => some { m with pos := .stopped }
    | true, .running => some { m with pos := .shuttingDown }
    | _, _ => none
  | .takeRestart =>
    match m.debouncer, m.pos with
    | .sending, .uninitialized => some { m with pos := .starting, debouncer := .select, callRequested := false }
    | .sending, .running => some { m with pos := .restarting, debouncer := .select, callRequested := false }
    | _, _ => none
  | .takeProcDied k =>
    match m.children[k]?, m.pos with
    | some .exited, .running => some { m with pos := .starting, children := m.children.set k .reaped }
    | some .exited, .restarting => some { m with pos := .starting, children := m.children.set k .reaped }
    | some .exited, .shuttingDown => some { m with pos := .stopped, children := m.children.set k .reaped }
    | _, _ => none
  | .start outcome =>
    if m.pos = .starting then
      match outcome with
      | .renderFailed => some { m with pos := .stopped }
      | .startFailed => some m
      | .started => some { m with pos := .running, children := m.children ++ [.alive] }
    else none
  | .closeDebouncer => if m.pos = .stopped then some { m with pos := .stopping, debounceStop := true } else none
  | .closeTerminated => if m.pos = .stopping then some { m with pos := .returned, terminated := true } else none
  | .tick =>
    if m.debouncer = .select then
      if m.callRequested then
        -- the function of the debouncer looks at the state before it sends
        if m.pos = .shuttingDown then some { m with callRequested := false } else some { m with debouncer := .sending }
      else some m
    else none
  | .stopDebouncer => if m.debouncer = .select ∧ m.debounceStop then some { m with debouncer := .returned } else none
  | .passOn =>
    if m.forwarder = .received ∧ m.debouncer ≠ .sending then
      some { m with forwarder := .select, callRequested := true }
    else none
  | .stopForwarder => if m.forwarder = .select ∧ m.terminated then some { m with forwarder := .returned } else none
  | .childExits k =>
    if m.children[k]? = some .alive then some { m with children := m.children.set k .exited } else none

variable {m m' : Incarnation} {a : Action}

inductive Moved (m : Incarnation) : Action → Incarnation → Prop where
  | startWriteServer (ok : Bool) (hpos : m.pos = .init) : Moved m (.startWriteServer ok)
      { m with pos := if ok then .entering else .errored, initClosed := true }
  | makeForwarder (hpos : m.pos = .entering) : Moved m .makeForwarder
      { m with pos := .uninitialized, debouncer := .select, forwarder := .select }
  | stopUninitialized (hstop : m.stop = true) (hpos : m.pos = .uninitialized) : Moved m .takeStop
      { m with pos := .stopped }
  | stopRunning (hstop : m.stop = true) (hpos : m.pos = .running) : Moved m .takeStop
      { m with pos := .shuttingDown }
  | restartUninitialized (hsending : m.debouncer = .sending) (hpos : m.pos = .uninitialized) : Moved m .takeRestart
      { m with pos := .starting, debouncer := .select, callRequested := false }
  | restartRunning (hsending : m.debouncer = .sending) (hpos : m.pos = .running) : Moved m .takeRestart
      { m with pos := .restarting, debouncer := .select, callRequested := false }
  | diedRunning (k : Nat) (hk : m.children[k]? = some .exited) (hpos : m.pos = .running) : Moved m (.takeProcDied k)
      { m with pos := .starting, children := m.children.set k .reaped }
  | diedRestarting (k : Nat) (hk : m.children[k]? = some .exited) (hpos : m.pos = .restarting) :
      Moved m (.takeProcDied k) { m with pos := .starting, children := m.children.set k .reaped }
  | diedShuttingDown (k : Nat) (hk : m.children[k]? = some .exited) (hpos : m.pos = .shuttingDown) :
      Moved m (.takeProcDied k) { m with pos := .stopped, children := m.children.set k .reaped }
  | renderFailed (hpos : m.pos = .starting) : Moved m (.start .renderFailed) { m with pos := .stopped }
  | startFailed (hpos : m.pos = .starting) : Moved m (.start .startFailed) m
  | started (hpos : m.pos = .starting) : Moved m (.start .started)
      { m with pos := .running, children := m.children ++ [.alive] }
  | closeDebouncer (hpos : m.pos = .stopped) : Moved m .closeDebouncer { m with pos := .stopping, debounceStop := true }
  | closeTerminated (hpos : m.pos = .stopping) :
    Moved m .closeTerminated { m with pos := .returned, terminated := true }
  | tickShuttingDown (hselect : m.debouncer = .select) (hcall : m.callRequested = true) (hpos : m.pos = .shuttingDown) :
      Moved m .tick { m with callRequested := false }
  | tickSending (hselect : m.debouncer = .select) (hcall : m.callRequested = true) (hpos : m.pos ≠ .shuttingDown) :
      Moved m .tick { m with debouncer := .sending }
  | tickIdle (hselect : m.debouncer = .select) (hcall : m.callRequested = false) : Moved m .tick m
  | stopDebouncer (hselect : m.debouncer = .select) (hstop : m.debounceStop = true) : Moved m .stopDebouncer
      { m with debouncer := .returned }
  | passOn (hreceived : m.forwarder = .received) (hdebouncer : m.debouncer ≠ .sending) : Moved m .passOn
      { m with forwarder := .select, callRequested := true }
  | stopForwarder (hselect : m.forwarder = .select) (hterminated : m.terminated = true) : Moved m .stopForwarder
      { m with forwarder := .returned }
  | childExits (k : Nat) (hk : m.children[k]? = some .alive) : Moved m (.childExits k)
      { m with children := m.children.set k .exited }

variable (hs : m.step a = some m')
include hs

theorem step_moved : m.Moved a m' := by
  cases a with
  | startWriteServer ok =>
    obtain ⟨hpos, rfl⟩ := ite_some_none_eq_some.mp hs
    exact .startWriteServer ok hpos
  | makeForwarder =>
    obtain ⟨hpos, rfl⟩ := ite_some_none_eq_some.mp hs
    exact .makeForwarder hpos
  | takeStop =>
    simp only [step] at hs
    split at hs <;> cases hs
    · exact .stopUninitialized ‹_› ‹_›
    · exact .stopRunning ‹_› ‹_›
  | takeRestart =>
    simp only [step] at hs
    split at hs <;> cases hs
    · exact .restartUninitialized ‹_› ‹_›
    · exact .restartRunning ‹_› ‹_›
  | takeProcDied k =>
    simp only [step] at hs
    split at hs <;> cases hs
    · exact .diedRunning k ‹_› ‹_›
    · exact .diedRestarting k ‹_› ‹_›
    · exact .diedShuttingDown k ‹_› ‹_›
  | start outcome =>
    obtain ⟨hpos, heq⟩ := ite_none_right_eq_some.mp hs
    cases outcome <;> cases heq
    · exact .renderFailed hpos
    · exact .startFailed hpos
    · exact .started hpos
  | closeDebouncer =>
    obtain ⟨hpos, rfl⟩ := ite_some_none_eq_some.mp hs
    exact .closeDebouncer hpos
  | closeTerminated =>
    obtain ⟨hpos, rfl⟩ := ite_some_none_eq_some.mp hs
    exact .closeTerminated hpos
  | tick =>
    obtain ⟨hse, heq⟩ := ite_none_right_eq_some.mp hs
    split at heq
    · split at heq <;> cases heq
      · exact .tickShuttingDown hse ‹_› ‹_›
      · exact .tickSending hse ‹_› ‹_›
    · rename_i hc
      cases heq
      exact .tickIdle hse (Bool.not_eq_true _ ▸ hc)
  | stopDebouncer =>
    obtain ⟨⟨hse, hst⟩, rfl⟩ := ite_some_none_eq_some.mp hs
    exact .stopDebouncer hse hst
  | passOn =>
    obtain ⟨⟨hr, hd⟩, rfl⟩ := ite_some_none_eq_some.mp hs
    exact .passOn hr hd
  | stopForwarder =>
    obtain ⟨⟨hse, ht⟩, rfl⟩ := ite_some_none_eq_some.mp hs
    exact .stopForwarder hse ht
  | childExits k =>
    obtain ⟨hk, rfl⟩ := ite_some_none_eq_some.mp hs
    exact .childExits k hk

theorem terminated_eq (ha : a ≠ .closeTerminated) : m'.terminated = m.terminated := by
  cases step_moved hs with
  | closeTerminated => exact absurd rfl ha
  | _ => rfl

theorem terminated_step (h : m.terminated = true) : m'.terminated = true := by
  cases step_moved hs with
  | closeTerminated => rfl
  | _ => exact h

theorem forwarder_step : m'.forwarder = m.forwarder ∨ m.pos = .entering ∨
    m.forwarder = .received ∨ m'.forwarder = .returned := by
  cases step_moved hs with
  | makeForwarder hpos => exact .inr (.inl hpos)
  | passOn hr => exact .inr (.inr (.inl hr))
  | stopForwarder => exact .inr (.inr (.inr rfl))
  | _ => exact .inl rfl

end Incarnation

/-! ## The manager and its callers -/

inductive Request where
  /-- Where `changed` says that the manager was created or its configuration is another one. -/
  | configureMainCollectd (changed : Bool)
  | configureFromMonitor (monitorID : Str)
  | monitorDidShutdown (monitorID : Str)
  deriving DecidableEq

inductive CallPosition where
  | lock
  | body
  | requestRestart
  | waitInit
  | send
  | waitTerminated
  | returned
  deriving DecidableEq

structure Call where
  request : Request
  pos : CallPosition
  deriving DecidableEq

structure Manager where
  /-- The number of the call that holds `configMutex`. -/
  configMutex : Option Nat
  activeMonitors : List Str
  incarnations : List Incarnation
  calls : List Call
  /-- The incarnations whose forwarder got a request after they had terminated. -/
  late : List Nat
  deriving DecidableEq

namespace Manager

inductive Action where
  | call (request : Request)
  | lock (c : Nat)
  | body (c : Nat)
  | requestRestart (c : Nat)
  | waitInit (c : Nat)
  | receive (c i : Nat)
  | waitTerminated (c : Nat)
  | inner (i : Nat) (action : Incarnation.Action)
  deriving DecidableEq

def initial : Manager :=
  ⟨none, [], [], [], []⟩

def latest (s : Manager) : Option Incarnation :=
  s.incarnations.getLast?

def callPos (s : Manager) (c : Nat) : Option CallPosition :=
  (s.calls[c]?).map Call.pos

def setPos (s : Manager) (c : Nat) (pos : CallPosition) : Manager :=
  { s with calls := s.calls.modify c fun call => { call with pos } }

def ret (s : Manager) (c : Nat) : Manager :=
  { s.setPos c .returned with configMutex := none }

def setIncarnation (s : Manager) (i : Nat) (m : Incarnation) : Manager :=
  { s with incarnations := s.incarnations.set i m }

def closeStop (s : Manager) : Manager :=
  match s.latest with
  | some m => s.setIncarnation (s.incarnations.length - 1) { m with stop := true }
  | none => s

def spawn (s : Manager) : Manager :=
  { s with incarnations := s.incarnations ++ [.fresh] }

def runBody (s : Manager) (c : Nat) : Request → Manager
  | .configureMainCollectd changed => if changed then s.setPos c .requestRestart else s.ret c
  | .configureFromMonitor monitorID =>
    { s with activeMonitors := s.activeMonitors.insert monitorID }.setPos c .requestRestart
  | .monitorDidShutdown monitorID =>
    if monitorID ∉ s.activeMonitors then s.ret c
    else if s.activeMonitors.length = 1 then s.closeStop.setPos c .waitTerminated
    else { s with activeMonitors := s.activeMonitors.erase monitorID }.setPos c .requestRestart

def step (s : Manager) : Action → Option Manager
  | .call request => some { s with calls := s.calls ++ [⟨request, .lock⟩] }
  | .lock c =>
    if s.configMutex = none ∧ s.callPos c = some .lock then some { s.setPos c .body with configMutex := some c }
    else none
  | .body c =>
    match s.calls[c]? with
    | some ⟨request, .body⟩ => some (s.runBody c request)
    | _ => none
  | .requestRestart c =>
    if s.callPos c = some .requestRestart then
      if s.latest.all (·.terminated) then some (s.spawn.setPos c .waitInit) else some (s.setPos c .send)
    else none
  | .waitInit c =>
    if s.callPos c = some .waitInit ∧ s.latest.any (·.initClosed) then some (s.setPos c .send) else none
  | .receive c i =>
    match s.callPos c, s.incarnations[i]? with
    | some .send, some m =>
      if m.forwarder = .select then
        let s := { s with late := if m.terminated then s.late ++ [i] else s.late }
        some ((s.setIncarnation i { m with forwarder := .received }).ret c)
      else none
    | _, _ => none
  | .waitTerminated c =>
    match s.calls[c]? with
    | some ⟨.monitorDidShutdown monitorID, .waitTerminated⟩ =>
      if s.latest.any (·.terminated) then
        let s := { s with activeMonitors := s.activeMonitors.erase monitorID }
        some (if s.activeMonitors = [] then s.ret c else s.setPos c .requestRestart)
      else none
    | _ => none
  | .inner i action =>
    match s.incarnations[i]? with
    | some m => (m.step action).map (s.setIncarnation i)
    | none => none

/-! ## What a step does -/

theorem callPos_setPos (s : Manager) (c d : Nat) (pos : CallPosition) :
    (s.setPos c pos).callPos d = if d = c then (s.callPos c).map fun _ => pos else s.callPos d := by
  unfold callPos setPos
  by_cases hd : d = c
  · subst hd
    simp [Function.comp_def]
  · simp [hd, Ne.symm hd]

theorem callPos_call (s : Manager) (request : Request) (d : Nat) :
    callPos { s with calls := s.calls ++ [⟨request, .lock⟩] } d =
      if d = s.calls.length then some .lock else s.callPos d := by
  unfold callPos
  split_ifs with heq
  · simp [heq]
  · rw [getElem?_append]
    split
    · rfl
    · rw [getElem?_eq_none (by simp; omega), getElem?_eq_none (by omega)]

variable {s s' : Manager} {a : Action}

theorem latest_of_last {i : Nat} {m : Incarnation} (hm : s.incarnations[i]? = some m)
    (hl : i + 1 = s.incarnations.length) : s.latest = some m := by
  rw [latest, getLast?_eq_getElem?, ← hl, Nat.add_sub_cancel, hm]

theorem getElem?_latest {m : Incarnation} (h : s.latest = some m) :
    s.incarnations[s.incarnations.length - 1]? = some m := by
  rw [← getLast?_eq_getElem?]
  exact h

inductive Moved (s : Manager) : Action → Manager → Prop where
  | call (request : Request) : Moved s (.call request) { s with calls := s.calls ++ [⟨request, .lock⟩] }
  | lock (c : Nat) (hmutex : s.configMutex = none) (hc : s.callPos c = some .lock) :
      Moved s (.lock c) { s.setPos c .body with configMutex := some c }
  | body (c : Nat) (request : Request) (hget : s.calls[c]? = some ⟨request, .body⟩) :
      Moved s (.body c) (s.runBody c request)
  | spawned (c : Nat) (hc : s.callPos c = some .requestRestart) (hlatest : s.latest.all (·.terminated) = true) :
      Moved s (.requestRestart c) (s.spawn.setPos c .waitInit)
  | sends (c : Nat) (hc : s.callPos c = some .requestRestart) (hlatest : ¬s.latest.all (·.terminated) = true) :
      Moved s (.requestRestart c) (s.setPos c .send)
  | waitInit (c : Nat) (hc : s.callPos c = some .waitInit) (hinit : s.latest.any (·.initClosed) = true) :
      Moved s (.waitInit c) (s.setPos c .send)
  | receive (c i : Nat) (m : Incarnation) (hc : s.callPos c = some .send) (hm : s.incarnations[i]? = some m)
      (hselect : m.forwarder = .select) :
      Moved s (.receive c i) (({ s with late := if m.terminated then s.late ++ [i] else s.late }.setIncarnation i
        { m with forwarder := .received }).ret c)
  | waitTerminated (c : Nat) (monitorID : Str)
      (hget : s.calls[c]? = some ⟨.monitorDidShutdown monitorID, .waitTerminated⟩)
      (hterminated : s.latest.any (·.terminated) = true) :
      Moved s (.waitTerminated c) (if s.activeMonitors.erase monitorID = [] then
          { s with activeMonitors := s.activeMonitors.erase monitorID }.ret c
        else { s with activeMonitors := s.activeMonitors.erase monitorID }.setPos c .requestRestart)
  | inner (i : Nat) (action : Incarnation.Action) (m m' : Incarnation) (hm : s.incarnations[i]? = some m)
      (hstep : m.step action = some m') : Moved s (.inner i action) (s.setIncarnation i m')

theorem step_moved (hs : s.step a = some s') : s.Moved a s' := by
  cases a with
  | call request =>
    cases hs
    exact .call request
  | lock c =>
    obtain ⟨⟨hmu, hc⟩, rfl⟩ := ite_some_none_eq_some.mp hs
    exact .lock c hmu hc
  | body c =>
    simp only [step] at hs
    split at hs <;> cases hs
    exact .body c _ ‹_›
  | requestRestart c =>
    obtain ⟨hc, heq⟩ := ite_none_right_eq_some.mp hs
    split at heq <;> cases heq
    · exact .spawned c hc ‹_›
    · exact .sends c hc ‹_›
  | waitInit c =>
    obtain ⟨⟨hc, hi⟩, rfl⟩ := ite_some_none_eq_some.mp hs
    exact .waitInit c hc hi
  | receive c i =>
    simp only [step] at hs
    split at hs
    case h_2 => cases hs
    rename_i m hc hm
    obtain ⟨hse, rfl⟩ := ite_some_none_eq_some.mp hs
    exact .receive c i m hc hm hse
  | waitTerminated c =>
    simp only [step] at hs
    split at hs
    case h_2 => cases hs
    rename_i monitorID hget
    obtain ⟨ht, rfl⟩ := ite_some_none_eq_some.mp hs
    exact .waitTerminated c monitorID hget ht
  | inner i action =>
    simp only [step] at hs
    split at hs
    case h_2 => cases hs
    rename_i m hm
    obtain ⟨m', hm', rfl⟩ := map_eq_some_iff.mp hs
    exact .inner i action m m' hm hm'

inductive Change (s s' : Manager) : Prop where
  | same (h : s'.incarnations = s.incarnations)
  | spawned (hlatest : s.latest.all (·.terminated) = true) (h : s'.incarnations = s.incarnations ++ [.fresh])
  | closedStop (m : Incarnation) (hm : s.incarnations[s.incarnations.length - 1]? = some m)
      (h : s'.incarnations = s.incarnations.set (s.incarnations.length - 1) { m with stop := true })
  | received (i : Nat) (m : Incarnation) (hm : s.incarnations[i]? = some m) (hselect : m.forwarder = .select)
      (h : s'.incarnations = s.incarnations.set i { m with forwarder := .received })
  | stepped (i : Nat) (m m' : Incarnation) (action : Incarnation.Action) (hm : s.incarnations[i]? = some m)
      (hstep : m.step action = some m') (h : s'.incarnations = s.incarnations.set i m')

theorem runBody_change (c : Nat) (request : Request) : Change s (s.runBody c request) := by
  cases request with
  | configureMainCollectd changed => cases changed <;> exact .same rfl
  | configureFromMonitor monitorID => exact .same rfl
  | monitorDidShutdown monitorID =>
    simp only [runBody]
    split
    · exact .same rfl
    · split
      · cases hl : s.latest with
        | none => exact .same (by simp [setPos, closeStop, hl])
        | some m =>
          exact .closedStop m (getElem?_latest hl) (by simp [setPos, closeStop, hl, setIncarnation])
      · exact .same rfl

theorem step_change (hst : s.step a = some s') : Change s s' := by
  cases step_moved hst with
  | call | lock | sends | waitInit => exact .same rfl
  | body c request => exact runBody_change c request
  | spawned _ _ hl => exact .spawned hl rfl
  | receive _ i m _ hm hs => exact .received i m hm hs rfl
  | waitTerminated => split <;> exact .same rfl
  | inner i action m m' hm hm' => exact .stepped i m m' action hm hm' rfl

end Manager

end Collector.Collectd
