import Collector.Kubernetes.Leadership

/-!
# The events monitor

`start` of `internal/signalfx-agent/pkg/monitors/kubernetes/events/events.go`. The stop channel of a watch is known by
its number.
-/

namespace Collector.Kubernetes

open Lib List Option

inductive Position where
  | notStarted
  | select
  | unregister
  | closeStopper
  | returned
  | panicked
  deriving DecidableEq

structure EventsMonitor where
  pos : Position
  leaderCh : Option Nat
  stopper : Bool
  syncStopper : Option Nat
  made : Nat
  watches : List Nat

variable {m : EventsMonitor}

namespace EventsMonitor

def initial : EventsMonitor :=
  ⟨.notStarted, none, false, none, 0, []⟩

def runSync (m : EventsMonitor) : EventsMonitor :=
  { m with syncStopper := some m.made, made := m.made + 1, watches := m.watches ++ [m.made] }

def closeSync (m : EventsMonitor) : Option EventsMonitor :=
  match m.syncStopper with
  | none => none
  | some stop => if stop ∈ m.watches then some { m with watches := m.watches.erase stop } else none

def notice (m : EventsMonitor) (isLeader : Bool) : EventsMonitor :=
  if isLeader then m.runSync
  else
    match m.closeSync with
    | none => { m with pos := .panicked }
    | some m => { m with syncStopper := none }

def closeLast (m : EventsMonitor) : EventsMonitor :=
  if m.syncStopper.isNone then { m with pos := .returned }
  else
    match m.closeSync with
    | none => { m with pos := .panicked }
    | some m => { m with pos := .returned }

end EventsMonitor

structure Cluster where
  notifier : Notifier
  monitor : EventsMonitor

namespace Cluster

inductive Action where
  | other (action : Notifier.Action)
  | start (alwaysReport electorOk : Bool)
  | notice
  | shutdown
  | stop
  | unregister
  | closeStopper

def initial : Cluster :=
  ⟨.initial, .initial⟩

def reserved (s : Cluster) : Notifier.Action → Bool
  | .unsubscribe ch | .receive ch => s.monitor.leaderCh = some ch
  | _ => false

def step (env : Settings) (s : Cluster) : Action → Option Cluster
  | .other action =>
    if s.reserved action then none
    else (s.notifier.step env action).map fun notifier => { s with notifier }
  | .start alwaysReport electorOk =>
    if s.monitor.pos ≠ .notStarted then none
    else if alwaysReport then some { s with monitor := { s.monitor.runSync with pos := .select } }
    else
      (s.notifier.step env (.requestLeaderNotification electorOk)).map fun notifier =>
        -- the call gives an error where nothing was made
        if notifier.made = s.notifier.made then { s with notifier }
        else ⟨notifier, { s.monitor with pos := .select, leaderCh := some s.notifier.made }⟩
  | .notice =>
    match s.monitor.pos, s.monitor.leaderCh with
    | .select, some ch =>
      (s.notifier.chans ch).recv.map fun e =>
        ⟨{ s.notifier with chans := Function.update s.notifier.chans ch e.2 }, s.monitor.notice e.1⟩
    | _, _ => none
  | .shutdown => if s.monitor.stopper then none else some { s with monitor := { s.monitor with stopper := true } }
  | .stop =>
    if s.monitor.pos = .select ∧ s.monitor.stopper then
      some { s with monitor := { s.monitor with pos := .unregister } }
    else none
  | .unregister =>
    if s.monitor.pos = .unregister then
      match s.monitor.leaderCh with
      | none => some { s with monitor := { s.monitor with pos := .closeStopper } }
      | some ch =>
        (s.notifier.step env (.unsubscribe ch)).map fun notifier =>
          ⟨notifier, { s.monitor with pos := .closeStopper }⟩
    else none
  | .closeStopper =>
    if s.monitor.pos = .closeStopper then some { s with monitor := s.monitor.closeLast } else none

/-! ## The monitor follows the notices -/

def InTouch (env : Settings) (s : Cluster) : Action → Prop
  | .other action => s.notifier.InTouch env action
  | .start alwaysReport _ => alwaysReport = false → s.notifier.Current env
  | _ => True

structure Watching (m : EventsMonitor) : Prop where
  pos : m.pos ≠ .panicked
  fresh : m.pos = .notStarted → m.leaderCh = none ∧ m.syncStopper = none
  watches : m.pos ≠ .returned → m.watches = m.syncStopper.toList
  stopped : m.pos = .returned → m.watches = []

structure Following (env : Settings) (s : Cluster) : Prop where
  truthful : s.notifier.Truthful env
  watching : Watching s.monitor
  made : ∀ ch, s.monitor.leaderCh = some ch → ch < s.notifier.made
  subscribed : ∀ ch, s.monitor.leaderCh = some ch → s.monitor.pos = .select ∨ s.monitor.pos = .unregister →
    ch ∈ s.notifier.noticeChans
  received : ∀ ch, s.monitor.leaderCh = some ch → s.monitor.pos = .select →
    Notifier.lastNotice (s.notifier.chans ch).received = s.monitor.syncStopper.isSome

variable {env : Settings} {s s' : Cluster}

theorem following_initial : initial.Following env :=
  ⟨Notifier.truthful_initial, ⟨nofun, fun _ => ⟨rfl, rfl⟩, fun _ => rfl, nofun⟩, nofun, nofun, nofun⟩

theorem step_other {n n' : Notifier} {a : Notifier.Action} {ch : Nat} (hs : n.step env a = some n')
    (hm : ch < n.made) (hu : a ≠ .unsubscribe ch) (hr : a ≠ .receive ch) :
    ch < n'.made ∧ (ch ∈ n.noticeChans → ch ∈ n'.noticeChans) ∧ (n'.chans ch).received = (n.chans ch).received := by
  cases a with
  | requestLeaderNotification electorOk =>
    simp only [Notifier.step] at hs
    split at hs
    · cases hs
    split at hs <;> cases hs
    · have hne : ch ≠ n.made := Nat.ne_of_lt hm
      refine ⟨Nat.lt_succ_of_lt hm, mem_append_left _, ?_⟩
      simp [Notifier.subscribe, hne]
    · exact ⟨hm, id, rfl⟩
  | unsubscribe d =>
    obtain ⟨-, heq⟩ := ite_none_left_eq_some.mp hs
    cases heq
    have hne : ch ≠ d := fun heq => hu (heq ▸ rfl)
    exact ⟨hm, fun hmem => (mem_erase_of_ne hne).mpr hmem, rfl⟩
  | onNewLeader identity =>
    simp only [Notifier.step] at hs
    split at hs
    · cases hs
    split at hs
    · cases hs
      exact ⟨hm, id, rfl⟩
    split at hs <;> cases hs <;> exact ⟨hm, id, rfl⟩
  | send =>
    simp only [Notifier.step] at hs
    split at hs
    · cases hs
    · cases hs
      exact ⟨hm, id, rfl⟩
    · rename_i value d rest _
      obtain ⟨c, hse, rfl⟩ := map_eq_some_iff.mp hs
      refine ⟨hm, id, ?_⟩
      by_cases hd : ch = d
      · subst hd
        simp [(Chan.send_eq_some hse).2.1]
      · simp [hd]
  | receive d =>
    obtain ⟨e, -, rfl⟩ := map_eq_some_iff.mp hs
    have hne : ch ≠ d := fun heq => hr (heq ▸ rfl)
    exact ⟨hm, id, by simp [hne]⟩

theorem notice_watching (h : Watching m) (hpos : m.pos = .select) {isLeader : Bool}
    (hv : isLeader = !m.syncStopper.isSome) :
    Watching (m.notice isLeader) ∧ (m.notice isLeader).pos = .select ∧ (m.notice isLeader).leaderCh = m.leaderCh ∧
      (m.notice isLeader).syncStopper.isSome = isLeader := by
  have hw := h.watches (by simp [hpos])
  subst hv
  cases hs : m.syncStopper with
  | none =>
    rw [hs] at hw
    have hrun : m.notice true = m.runSync := rfl
    simp only [isSome_none, Bool.not_false, hrun]
    have hpos' : m.runSync.pos = .select := hpos
    refine ⟨⟨by simp [hpos'], by simp [hpos'], fun _ => ?_, by simp [hpos']⟩, hpos, rfl, rfl⟩
    simp [EventsMonitor.runSync, hw]
  | some stop =>
    rw [hs] at hw
    have hc : m.notice false = { m with watches := [], syncStopper := none } := by
      simp [EventsMonitor.notice, EventsMonitor.closeSync, hs, hw]
    simp only [isSome_some, Bool.not_true, hc]
    exact ⟨⟨by simp [hpos], by simp [hpos], fun _ => rfl, fun _ => rfl⟩, hpos, trivial, rfl⟩

theorem closeLast_watching (h : Watching m) (hpos : m.pos = .closeStopper) :
    Watching m.closeLast ∧ m.closeLast.pos = .returned ∧ m.closeLast.leaderCh = m.leaderCh := by
  have hw := h.watches (by simp [hpos])
  cases hs : m.syncStopper with
  | none =>
    rw [hs] at hw
    have hc : m.closeLast = { m with pos := .returned } := by simp [EventsMonitor.closeLast, hs]
    rw [hc]
    exact ⟨⟨nofun, nofun, fun hne => absurd rfl hne, fun _ => hw⟩, rfl, rfl⟩
  | some stop =>
    rw [hs] at hw
    have hc : m.closeLast = { m with pos := .returned, watches := [] } := by
      simp [EventsMonitor.closeLast, EventsMonitor.closeSync, hs, hw]
    rw [hc]
    exact ⟨⟨nofun, nofun, fun hne => absurd rfl hne, fun _ => rfl⟩, rfl, rfl⟩

theorem Following.notice (h : s.Following env) (hs : s.step env .notice = some s') : s'.Following env := by
  simp only [step] at hs
  split at hs
  case h_2 => cases hs
  rename_i ch hpos hch
  obtain ⟨⟨isLeader, c⟩, hre, rfl⟩ := map_eq_some_iff.mp hs
  obtain ⟨-, hr, -⟩ := Chan.recv_eq_some hre
  have hn : isLeader = !s.monitor.syncStopper.isSome := by
    have ha := h.truthful.alternates ch
    rw [← (Chan.recv_eq_some hre).1, c.conserved, hr, append_assoc] at ha
    rw [ha.next, h.received ch hch hpos]
  obtain ⟨hw, hpos', hch', hso⟩ := notice_watching h.watching hpos hn
  refine ⟨h.truthful.receive ch ?_, hw, ?_, ?_, ?_⟩
  · simp [Notifier.step, hre]
  · intro d hd
    exact h.made d (hch' ▸ hd)
  · intro d hd _
    exact h.subscribed d (hch' ▸ hd) (.inl hpos)
  · intro d hd _
    rw [hch', hch] at hd
    cases hd
    simp [hr, hso]

theorem received_primed (isLeader : Bool) : (Notifier.primed isLeader).received = [] := by
  cases isLeader <;> rfl

theorem Following.start (h : s.Following env) {alwaysReport electorOk : Bool}
    (hok : alwaysReport = false → s.notifier.Current env)
    (hs : s.step env (.start alwaysReport electorOk) = some s') : s'.Following env := by
  obtain ⟨hpos, hs⟩ := ite_none_left_eq_some.mp hs
  obtain ⟨hch, hst⟩ := h.watching.fresh (not_not.mp hpos)
  have hw := h.watching.watches (by simp [not_not.mp hpos])
  rw [hst] at hw
  split_ifs at hs with ha
  · cases hs
    have hch' : s.monitor.runSync.leaderCh = none := hch
    refine ⟨h.truthful, ⟨by simp, by simp, fun _ => ?_, by simp⟩, ?_, ?_, ?_⟩
    · simp [EventsMonitor.runSync, hw]
    all_goals simp [hch']
  · obtain ⟨n, hn, rfl⟩ := map_eq_some_iff.mp hs
    have ht := h.truthful.step (a := .requestLeaderNotification electorOk) (hok (by simpa using ha)) hn
    split_ifs with hm
    · refine ⟨ht, h.watching, ?_, ?_, ?_⟩ <;> simp [hch]
    · simp only [Notifier.step] at hn
      split at hn
      · cases hn
      split at hn <;> cases hn
      · refine ⟨ht, ⟨by simp, by simp, fun _ => by simpa [hst] using hw, by simp⟩, ?_, ?_, ?_⟩
        · rintro ch ⟨⟩
          exact Nat.lt_succ_self _
        · rintro ch ⟨⟩ _
          simp [Notifier.subscribe]
        · rintro ch ⟨⟩ _
          simp [Notifier.subscribe, received_primed, hst, Notifier.lastNotice]
      · exact absurd rfl hm

theorem Following.step (h : s.Following env) {a : Action} (hok : s.InTouch env a)
    (hs : s.step env a = some s') : s'.Following env := by
  cases a with
  | other action =>
    obtain ⟨hr, hs⟩ := ite_none_left_eq_some.mp hs
    obtain ⟨n, hn, rfl⟩ := map_eq_some_iff.mp hs
    have ho : ∀ ch, s.monitor.leaderCh = some ch → ch < n.made ∧ (ch ∈ s.notifier.noticeChans → ch ∈ n.noticeChans) ∧
        (n.chans ch).received = (s.notifier.chans ch).received := by
      intro ch hch
      refine step_other hn (h.made ch hch) ?_ ?_ <;> rintro rfl <;> simp [reserved, hch] at hr
    refine ⟨h.truthful.step hok hn, h.watching, fun ch hch => (ho ch hch).1, fun ch hch hpos => ?_,
      fun ch hch hpos => ?_⟩
    · exact (ho ch hch).2.1 (h.subscribed ch hch hpos)
    · rw [(ho ch hch).2.2]
      exact h.received ch hch hpos
  | start alwaysReport electorOk => exact h.start hok hs
  | notice => exact h.notice hs
  | shutdown =>
    obtain ⟨-, heq⟩ := ite_none_left_eq_some.mp hs
    cases heq
    obtain ⟨hpos, hf, hw, hst⟩ := h.watching
    exact ⟨h.truthful, ⟨hpos, hf, hw, hst⟩, h.made, h.subscribed, h.received⟩
  | stop =>
    obtain ⟨⟨hpos, -⟩, rfl⟩ := ite_some_none_eq_some.mp hs
    refine ⟨h.truthful, ⟨nofun, nofun, fun _ => h.watching.watches (by simp [hpos]), nofun⟩, h.made, ?_, nofun⟩
    exact fun ch hch _ => h.subscribed ch hch (.inl hpos)
  | unregister =>
    obtain ⟨hpos, hs⟩ := ite_none_right_eq_some.mp hs
    have hw := h.watching.watches (by simp [hpos])
    split at hs
    · cases hs
      exact ⟨h.truthful, ⟨nofun, nofun, fun _ => hw, nofun⟩, h.made, by simp, nofun⟩
    · rename_i ch hch
      obtain ⟨n, hn, rfl⟩ := map_eq_some_iff.mp hs
      refine ⟨h.truthful.step (a := .unsubscribe ch) trivial hn, ⟨nofun, nofun, fun _ => hw, nofun⟩, ?_, by simp,
        nofun⟩
      obtain ⟨-, heq⟩ := ite_none_left_eq_some.mp hn
      cases heq
      exact h.made
  | closeStopper =>
    obtain ⟨hpos, rfl⟩ := ite_some_none_eq_some.mp hs
    obtain ⟨hwa, hpos', hch'⟩ := closeLast_watching h.watching hpos
    refine ⟨h.truthful, hwa, fun d hd => h.made d (hch' ▸ hd), ?_, ?_⟩ <;> simp [hpos']

/-- While the notices are true the monitor does not panic and watches as long as this node leads. -/
theorem events_follow (env : Settings) (actions : List Action) (s : Cluster)
    (hgood : GoodRun (step env) (InTouch env) initial actions) (hrun : actions.foldlM (step env) initial = some s) :
    s.monitor.pos ≠ .panicked ∧ s.monitor.watches.length ≤ 1 ∧ (s.monitor.pos = .returned → s.monitor.watches = []) ∧
      ∀ ch, s.monitor.leaderCh = some ch → s.monitor.pos = .select → s.notifier.callback = none →
        (s.notifier.chans ch).queue = [] → (s.monitor.watches.length = 1 ↔ s.notifier.leads env = true) := by
  have h : s.Following env := hgood.inv (fun _ _ _ h hok hs => h.step hok hs) following_initial hrun
  refine ⟨h.watching.pos, ?_, h.watching.stopped, ?_⟩
  · by_cases hpos : s.monitor.pos = .returned
    · simp [h.watching.stopped hpos]
    · rw [h.watching.watches hpos]
      cases s.monitor.syncStopper <;> simp
  · intro ch hch hpos hn hq
    have hc := (s.notifier.chans ch).conserved
    rw [hq, append_nil] at hc
    have hl := h.truthful.idle hn ch (h.subscribed ch hch (.inl hpos))
    rw [hc, h.received ch hch hpos] at hl
    rw [h.watching.watches (by simp [hpos]), ← hl]
    cases s.monitor.syncStopper <;> simp

instance (env : Settings) (s : Cluster) : (a : Action) → Decidable (s.InTouch env a)
  | .other action => inferInstanceAs (Decidable (s.notifier.InTouch env action))
  | .start _ _ => inferInstanceAs (Decidable (_ → _))
  | .notice | .shutdown | .stop | .unregister | .closeStopper => .isTrue trivial

def watchOnce : List Action :=
  [.start false true, .other (.onNewLeader "node1"), .other .send, .other .send, .notice,
    .other (.onNewLeader "node2"), .other .send, .other .send, .notice]

theorem events_watchOnce : ∃ s, watchOnce.foldlM (step Notifier.twoNodes) initial = some s ∧
    s.monitor.made = 1 ∧ s.monitor.pos ≠ .panicked := by
  have hg : GoodRun (step Notifier.twoNodes) (InTouch Notifier.twoNodes) initial watchOnce := by
    decide +kernel
  have hend : (watchOnce.foldlM (step Notifier.twoNodes) initial).any (fun s => s.monitor.made = 1) = true := by
    decide +kernel
  obtain ⟨s, hrun, hm⟩ : ∃ s, watchOnce.foldlM (step Notifier.twoNodes) initial = some s ∧ s.monitor.made = 1 := by
    simpa [Option.any_eq_true] using hend
  exact ⟨s, hrun, hm, (events_follow Notifier.twoNodes watchOnce s hg hrun).1⟩

def otherLeaders : List Action :=
  watchOnce ++ [.other (.onNewLeader "node3"), .other .send, .other .send, .notice]

theorem events_otherLeaders : ∃ s, otherLeaders.foldlM (step Notifier.twoNodes) initial = some s ∧
    s.monitor.pos = .panicked := by
  have hend : (otherLeaders.foldlM (step Notifier.twoNodes) initial).any
      (fun s => s.monitor.pos = .panicked) = true := by
    decide +kernel
  simpa [Option.any_eq_true] using hend

end Cluster

end Collector.Kubernetes
