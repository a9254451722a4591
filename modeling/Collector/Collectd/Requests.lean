import Collector.Collectd.Children

/-!
# Who gets a restart request

The forwarders of all incarnations receive from one channel, also those of incarnations that have terminated.
-/

namespace Collector.Collectd

open Lib List

namespace Manager

/-- The call has looked at `terminated` and waits to hand its request over. -/
def Waiting (s : Manager) (c : Nat) : Prop :=
  s.callPos c = some .send ∨ s.callPos c = some .waitInit

def Gone (m : Incarnation) : Prop :=
  m.forwarder = .absent ∨ m.forwarder = .returned

/-- An incarnation starts when the earlier forwarders have returned, and terminates when no call waits to hand its
request over. -/
def Orderly (s : Manager) : Action → Prop
  | .requestRestart _ => s.latest.all (·.terminated) = true → ∀ m ∈ s.incarnations, Gone m
  | .inner _ .closeTerminated => ∀ call ∈ s.calls, call.pos ≠ .send ∧ call.pos ≠ .waitInit
  | _ => True

structure Prompt (s : Manager) : Prop where
  succeeding : s.Succeeding
  earlier : ∀ i m, s.incarnations[i]? = some m → i + 1 < s.incarnations.length → Gone m
  waiting : ∀ c, s.Waiting c → ∀ i m, s.incarnations[i]? = some m → i + 1 = s.incarnations.length →
    m.terminated = false
  late : s.late = []

variable {s s' : Manager} {a : Action} {c : Nat}

theorem waiting_of_calls {d : Nat} {pos : CallPosition}
    (hca : s'.calls = s.calls.modify c fun call => { call with pos }) (hs : pos ≠ .send)
    (hi : pos ≠ .waitInit) (h : s'.Waiting d) : s.Waiting d := by
  have hpos : s'.callPos d = (s.setPos c pos).callPos d := by simp only [callPos, setPos, hca]
  unfold Waiting at h ⊢
  rw [hpos, callPos_setPos] at h
  split at h
  · cases hc : s.callPos c <;> simp_all
  · exact h

section

variable (h : s.Prompt)
include h

theorem Prompt.same (hi : s'.incarnations = s.incarnations) (hl : s'.late = s.late)
    (hw : ∀ c, s'.Waiting c → s.Waiting c) : s'.Prompt := by
  obtain ⟨hs, he, hca, hn⟩ := h
  refine ⟨⟨hi ▸ hs.sound, hi ▸ hs.earlier⟩, hi ▸ he, ?_, hl.trans hn⟩
  intro c hc
  rw [hi]
  exact hca c (hw c hc)

variable {m m' : Incarnation} {i : Nat}

theorem Prompt.set (hsu : s'.Succeeding) (hm : s.incarnations[i]? = some m)
    (hs' : s'.incarnations = s.incarnations.set i m')
    (hg : i + 1 < s.incarnations.length → Gone m → Gone m')
    (ht : ∀ c, s'.Waiting c → m.terminated = false → m'.terminated = false)
    (hw : ∀ c, s'.Waiting c → s.Waiting c) (hl : s'.late = []) : s'.Prompt := by
  have hi : i < s.incarnations.length := (List.getElem?_eq_some_iff.mp hm).1
  refine ⟨hsu, fun j x hx hj => ?_, fun c hc j x hx hj => ?_, hl⟩
  · rw [hs', length_set] at hj
    by_cases hij : i = j
    · subst hij
      rw [hs', getElem?_set_self hi] at hx
      cases hx
      exact hg hj (h.earlier i m hm hj)
    · rw [hs', getElem?_set_ne hij] at hx
      exact h.earlier j x hx hj
  · rw [hs', length_set] at hj
    by_cases hij : i = j
    · subst hij
      rw [hs', getElem?_set_self hi] at hx
      cases hx
      exact ht c hc (h.waiting c (hw c hc) i m hm hj)
    · rw [hs', getElem?_set_ne hij] at hx
      exact h.waiting c (hw c hc) j x hx hj

variable {action : Incarnation.Action}

omit h in
theorem gone_step (h : Gone m) (hpos : m.pos ≠ .entering) (hs : m.step action = some m') : Gone m' := by
  rcases Incarnation.forwarder_step hs with heq | he | hr | hre
  · unfold Gone
    rw [heq]
    exact h
  · exact absurd he hpos
  · rcases h with h | h <;> simp [h] at hr
  · exact .inr hre

theorem Prompt.inner (hok : s.Orderly (.inner i action)) (hm : s.incarnations[i]? = some m)
    (hm' : m.step action = some m')
    (hs : (s.setIncarnation i m').Succeeding) : (s.setIncarnation i m').Prompt := by
  refine h.set hs hm rfl (fun hi hg => ?_) (fun c hc ht => ?_) (fun _ hc => hc) h.late
  · apply gone_step hg _ hm'
    have hso := h.succeeding.sound m (mem_of_getElem? hm)
    rw [hso.terminated.mp (h.succeeding.earlier i m hm hi)]
    simp
  · by_cases ha : action = .closeTerminated
    · subst ha
      -- no call waits when an incarnation terminates
      have hc : s.Waiting c := hc
      unfold Waiting callPos at hc
      cases hget : s.calls[c]? with
      | none => simp [hget] at hc
      | some call =>
        have hne := hok call (mem_of_getElem? hget)
        simp [hget, hne.1, hne.2] at hc
    · rw [Incarnation.terminated_eq hm' ha]
      exact ht

theorem Prompt.spawn (hg : ∀ m ∈ s.incarnations, Gone m) (hs : (s.spawn.setPos c .waitInit).Succeeding) :
    (s.spawn.setPos c .waitInit).Prompt := by
  have hin : (s.spawn.setPos c .waitInit).incarnations = s.incarnations ++ [.fresh] := rfl
  refine ⟨hs, fun i m hm hi => ?_, fun d _ i m hm hi => ?_, h.late⟩
  · rw [hin, length_append, length_singleton] at hi
    rw [hin, getElem?_append_left (by omega)] at hm
    exact hg m (mem_of_getElem? hm)
  · rw [hin, length_append, length_singleton] at hi
    obtain rfl : i = s.incarnations.length := by omega
    rw [hin, getElem?_concat_length] at hm
    cases hm
    rfl

theorem Prompt.send (hl : ¬s.latest.all (·.terminated) = true) (hs : (s.setPos c .send).Succeeding) :
    (s.setPos c .send).Prompt := by
  refine ⟨hs, h.earlier, fun d _ i m hm hi => ?_, h.late⟩
  have hget : s.latest = some m := latest_of_last hm hi
  simpa [hget] using hl

theorem Prompt.receive {m : Incarnation} (hc : s.callPos c = some .send) (hm : s.incarnations[i]? = some m)
    (hse : m.forwarder = .select) (hs' : s'.Succeeding)
    (hin : s'.incarnations = s.incarnations.set i { m with forwarder := .received })
    (hla : s'.late = if m.terminated then s.late ++ [i] else s.late)
    (hw : ∀ d, s'.Waiting d → s.Waiting d) : s'.Prompt := by
  -- only the latest incarnation has a forwarder that takes requests
  have hl : i + 1 = s.incarnations.length := by
    have hi := (List.getElem?_eq_some_iff.mp hm).1
    by_contra hne
    rcases h.earlier i m hm (by omega) with hg | hg <;> simp [hse] at hg
  have ht := h.waiting c (.inl hc) i m hm hl
  refine h.set hs' hm hin (fun hi => absurd hl (by omega)) (fun _ _ _ => ht) hw ?_
  simpa [ht, h.late] using hla

theorem Prompt.body {request : Request} (hs : (s.runBody c request).Succeeding) : (s.runBody c request).Prompt := by
  cases request with
  | configureMainCollectd changed =>
    cases changed <;> exact h.same rfl rfl fun d hd => waiting_of_calls rfl (by decide) (by decide) hd
  | configureFromMonitor monitorID =>
    exact h.same rfl rfl fun d hd => waiting_of_calls rfl (by decide) (by decide) hd
  | monitorDidShutdown monitorID =>
    simp only [runBody] at hs ⊢
    split
    · exact h.same rfl rfl fun d hd => waiting_of_calls rfl (by decide) (by decide) hd
    · split
      · cases hl : s.latest with
        | none =>
          have hc : s.closeStop = s := by simp [closeStop, hl]
          rw [hc]
          exact h.same rfl rfl fun d hd => waiting_of_calls rfl (by decide) (by decide) hd
        | some m =>
          have hc : s.closeStop = s.setIncarnation (s.incarnations.length - 1) { m with stop := true } := by
            simp [closeStop, hl]
          have hm := getElem?_latest hl
          rw [if_neg ‹_›, if_pos ‹_›] at hs
          refine h.set hs hm (by rw [hc]; rfl) ?_ ?_ ?_ ?_
          · exact fun _ hg => hg
          · exact fun _ _ ht => ht
          · rw [hc]
            exact fun d hd => waiting_of_calls rfl (by decide) (by decide) hd
          · rw [hc]
            exact h.late
      · exact h.same rfl rfl fun d hd => waiting_of_calls rfl (by decide) (by decide) hd

theorem Prompt.step (hok : s.Orderly a) (hst : s.step a = some s') : s'.Prompt := by
  have hs := h.succeeding.step hst
  cases step_moved hst with
  | call request =>
    refine h.same rfl rfl fun d hd => ?_
    unfold Waiting at hd ⊢
    rw [callPos_call] at hd
    split at hd
    · simp at hd
    · exact hd
  | lock c => exact h.same rfl rfl fun d hd => waiting_of_calls rfl (by decide) (by decide) hd
  | body => exact h.body hs
  | spawned _ _ hl => exact h.spawn (hok hl) hs
  | sends _ _ hl => exact h.send hl hs
  | waitInit c hc =>
    refine h.same rfl rfl fun d hd => ?_
    unfold Waiting at hd ⊢
    rw [callPos_setPos] at hd
    split_ifs at hd with heq
    · rw [heq]
      exact .inr hc
    · exact hd
  | receive c i m hc hm hse =>
    exact h.receive hc hm hse hs rfl rfl fun d hd => waiting_of_calls rfl (by decide) (by decide) hd
  | waitTerminated c =>
    split <;> exact h.same rfl rfl fun d hd => waiting_of_calls rfl (by decide) (by decide) hd
  | inner i action m m' hm hm' => exact h.inner hok hm hm' hs

end

instance (m : Incarnation) : Decidable (Gone m) :=
  inferInstanceAs (Decidable (_ ∨ _))

instance (s : Manager) : (a : Action) → Decidable (s.Orderly a)
  | .requestRestart _ => inferInstanceAs (Decidable (_ → _))
  | .inner _ .closeTerminated => inferInstanceAs (Decidable (∀ _ ∈ _, _))
  | .call _ | .lock _ | .body _ | .waitInit _ | .receive _ _ | .waitTerminated _ => .isTrue trivial
  | .inner _ (.startWriteServer _) | .inner _ .makeForwarder | .inner _ .takeStop | .inner _ .takeRestart
  | .inner _ (.takeProcDied _) | .inner _ (.start _) | .inner _ .closeDebouncer | .inner _ .tick
  | .inner _ .stopDebouncer | .inner _ .passOn | .inner _ .stopForwarder | .inner _ (.childExits _) => .isTrue trivial

end Manager

end Collector.Collectd
