import Collector.Collectd.Manager
import Collector.Lib.Runs

/-!
# At most one child

The end of a child is taken before the next one is started or the manager terminates.
-/

namespace Collector.Collectd

open Lib List

/-! ## One incarnation -/

def Position.busy : Position → Bool
  | .running | .restarting | .shuttingDown => true
  | _ => false

namespace Incarnation

def pending (m : Incarnation) : Nat :=
  m.children.countP (· ≠ .reaped)

structure Sound (m : Incarnation) : Prop where
  pending : m.pending = if m.pos.busy then 1 else 0
  terminated : m.terminated = true ↔ m.pos = .returned

theorem sound_fresh : fresh.Sound :=
  ⟨rfl, by decide⟩

variable {m m' : Incarnation} {a : Action}

variable (h : m.Sound)
include h

theorem Sound.of_pos (hc : m'.pending = m.pending) (hb : m'.pos.busy = m.pos.busy) (ht : m'.terminated = m.terminated)
    (hr : m'.pos = .returned ↔ m.pos = .returned) : m'.Sound := by
  refine ⟨?_, ?_⟩
  · rw [hc, hb]
    exact h.pending
  · rw [ht, hr]
    exact h.terminated

theorem Sound.reap {k : Nat} (hk : m.children[k]? = some .exited) (hb : m.pos.busy = true) :
    (m.children.set k .reaped).countP (· ≠ .reaped) = 0 := by
  obtain ⟨hlt, hget⟩ := List.getElem?_eq_some_iff.mp hk
  have hp := h.pending
  rw [if_pos hb] at hp
  rw [countP_set hlt, hget, ← Incarnation.pending, hp]
  rfl

theorem Sound.step (hs : m.step a = some m') : m'.Sound := by
  cases step_moved hs with
  | startWriteServer ok hpos => cases ok <;> exact h.of_pos rfl (by rw [hpos]; rfl) rfl (by simp [hpos])
  | makeForwarder hpos | stopUninitialized _ hpos | stopRunning _ hpos | restartUninitialized _ hpos
  | restartRunning _ hpos | renderFailed hpos | closeDebouncer hpos =>
    exact h.of_pos rfl (by rw [hpos]; rfl) rfl (by simp [hpos])
  | diedRunning k hk hpos | diedRestarting k hk hpos | diedShuttingDown k hk hpos =>
    exact ⟨h.reap hk (by rw [hpos]; rfl), by simpa [hpos] using h.terminated⟩
  | startFailed | tickIdle => exact h
  | started hpos =>
    have hp := h.pending
    refine ⟨?_, by simpa [hpos] using h.terminated⟩
    simp only [hpos, Position.busy, Bool.false_eq_true, if_false, Incarnation.pending] at hp
    simp only [Incarnation.pending, countP_append, hp]
    rfl
  | closeTerminated hpos =>
    have hp := h.pending
    rw [hpos] at hp
    exact ⟨hp, by simp⟩
  | tickShuttingDown | tickSending | stopDebouncer | passOn | stopForwarder => exact h.of_pos rfl rfl rfl .rfl
  | childExits k hk =>
    refine h.of_pos ?_ rfl rfl .rfl
    obtain ⟨hlt, hget⟩ := List.getElem?_eq_some_iff.mp hk
    have hpos : 0 < m.pending := countP_pos_iff.mpr ⟨.alive, mem_of_getElem? hk, by decide⟩
    rw [Incarnation.pending, countP_set hlt, hget, ← Incarnation.pending]
    exact Nat.sub_add_cancel hpos

theorem Sound.alive_le : m.children.count .alive ≤ if m.pos.busy then 1 else 0 := by
  rw [← h.pending]
  apply countP_mono_left
  intro c _ hc
  simp only [beq_iff_eq] at hc
  simp [hc]

theorem Sound.alive_of_terminated (ht : m.terminated = true) : m.children.count .alive = 0 := by
  have ha := h.alive_le
  rw [h.terminated.mp ht] at ha
  exact Nat.le_zero.mp ha

theorem Sound.alive_le_one : m.children.count .alive ≤ 1 := by
  have ha := h.alive_le
  split at ha <;> omega

end Incarnation

/-! ## All incarnations -/

namespace Manager

def alive (s : Manager) : Nat :=
  (s.incarnations.flatMap Incarnation.children).count .alive

structure Succeeding (s : Manager) : Prop where
  sound : ∀ m ∈ s.incarnations, m.Sound
  earlier : ∀ i m, s.incarnations[i]? = some m → i + 1 < s.incarnations.length → m.terminated = true

variable {s s' : Manager} {a : Action}

theorem succeeding_initial : initial.Succeeding :=
  ⟨by simp [initial], by simp [initial]⟩

theorem Succeeding.set (h : s.Succeeding) {i : Nat} {m m' : Incarnation} (hm : s.incarnations[i]? = some m)
    (hso : m.Sound → m'.Sound) (ht : m.terminated = true → m'.terminated = true)
    (hs' : s'.incarnations = s.incarnations.set i m') : s'.Succeeding := by
  constructor
  · intro x hx
    rw [hs'] at hx
    rcases mem_or_eq_of_mem_set hx with hx | rfl
    · exact h.sound x hx
    · exact hso (h.sound m (mem_of_getElem? hm))
  · intro j x hx hj
    rw [hs', length_set] at hj
    rw [hs', getElem?_set] at hx
    split at hx
    · rename_i hij
      subst hij
      split at hx
      · cases hx
        exact ht (h.earlier i m hm hj)
      · cases hx
    · exact h.earlier j x hx hj

theorem Succeeding.step (h : s.Succeeding) (hst : s.step a = some s') : s'.Succeeding := by
  cases step_change hst with
  | same hs' => exact ⟨hs' ▸ h.sound, hs' ▸ h.earlier⟩
  | spawned hl hs' =>
    constructor
    · intro m hm
      rw [hs', mem_append, mem_singleton] at hm
      rcases hm with hm | rfl
      · exact h.sound m hm
      · exact Incarnation.sound_fresh
    · intro i m hm hi
      rw [hs', length_append, length_singleton] at hi
      have hi : i < s.incarnations.length := by omega
      rw [hs', getElem?_append_left hi] at hm
      by_cases hla : i + 1 < s.incarnations.length
      · exact h.earlier i m hm hla
      · have hget : s.latest = some m := latest_of_last hm (by omega)
        simpa [hget] using hl
  | closedStop m hm hs' =>
    refine h.set hm ?_ ?_ hs'
    · exact fun hm => ⟨hm.pending, hm.terminated⟩
    · exact fun ht => ht
  | received i m hm _ hs' =>
    refine h.set hm ?_ ?_ hs'
    · exact fun hm => ⟨hm.pending, hm.terminated⟩
    · exact fun ht => ht
  | stepped i m m' action hm hm' hs' =>
    exact h.set hm (fun h => h.step hm') (Incarnation.terminated_step hm') hs'

theorem Succeeding.alive_le (h : s.Succeeding) :
    s.alive ≤ 1 ∧ (s.latest.any (·.terminated) = true → s.alive = 0) := by
  obtain hnil | ⟨earlier, m, heq⟩ := eq_nil_or_concat' s.incarnations
  · simp [alive, hnil]
  · have hl : m.Sound := h.sound m (by simp [heq])
    have he : (earlier.flatMap Incarnation.children).count .alive = 0 := by
      apply count_eq_zero.mpr
      intro hmem
      obtain ⟨x, hx, ha⟩ := mem_flatMap.mp hmem
      obtain ⟨i, hi⟩ := mem_iff_getElem?.mp hx
      have hlt : i < earlier.length := (List.getElem?_eq_some_iff.mp hi).1
      have hget : s.incarnations[i]? = some x := by rw [heq, getElem?_append_left hlt, hi]
      have ht := h.earlier i x hget (by simp [heq]; omega)
      exact count_eq_zero.mp ((h.sound x (by simp [heq, hx])).alive_of_terminated ht) ha
    have hsum : s.alive = m.children.count .alive := by
      simp [alive, heq, count_append, he]
    refine ⟨hsum ▸ hl.alive_le_one, fun ht => ?_⟩
    have ht : m.terminated = true := by simpa [latest, heq] using ht
    rw [hsum, hl.alive_of_terminated ht]

/-- At most one child is alive, and none once the latest incarnation has terminated. -/
theorem one_child (actions : List Action) (s : Manager) (hrun : actions.foldlM step initial = some s) :
    s.alive ≤ 1 ∧ (s.latest.any (·.terminated) = true → s.alive = 0) := by
  have h : s.Succeeding := foldlM_inv step (fun _ s => s.Succeeding) initial actions succeeding_initial
    (fun _ _ _ _ _ h hs => h.step hs) s hrun
  exact h.alive_le

/-- A child dies, a second one is started, the monitor shuts down and another one is configured. -/
def twoIncarnations : List Action :=
  [.call (.configureFromMonitor ['m', '1']), .lock 0, .body 0, .requestRestart 0, .inner 0 (.startWriteServer true),
    .inner 0 .makeForwarder, .waitInit 0, .receive 0 0, .inner 0 .passOn, .inner 0 .tick, .inner 0 .takeRestart,
    .inner 0 (.start .started), .inner 0 (.childExits 0), .inner 0 (.takeProcDied 0), .inner 0 (.start .started),
    .call (.monitorDidShutdown ['m', '1']), .lock 1, .body 1, .inner 0 .takeStop, .inner 0 (.childExits 1),
    .inner 0 (.takeProcDied 1), .inner 0 .closeDebouncer, .inner 0 .closeTerminated, .waitTerminated 1,
    .call (.configureFromMonitor ['m', '2']), .lock 2, .body 2, .requestRestart 2]

theorem one_child_twoIncarnations : ∃ s, twoIncarnations.foldlM step initial = some s ∧
    s.incarnations.length = 2 ∧ s.alive ≤ 1 := by
  have hend : (twoIncarnations.foldlM step initial).any (fun s => s.incarnations.length = 2) = true := by
    decide +kernel
  obtain ⟨s, hrun, hl⟩ := (Option.any_eq_true _ _).mp hend
  exact ⟨s, hrun, of_decide_eq_true hl, (one_child twoIncarnations s hrun).1⟩

end Manager

end Collector.Collectd
