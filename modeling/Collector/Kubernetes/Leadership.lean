import Collector.Lib.Channel
import Collector.Lib.Runs
import Collector.Value

/-!
# Leadership notices

`internal/signalfx-agent/pkg/monitors/kubernetes/leadership/leadership.go`. `OnNewLeader` holds the lock while it sends,
and does not take back `isLeader` when this node has lost the leadership.
-/

namespace Collector.Kubernetes

open Lib List Option Function

variable {values : List Bool}

/-- `MY_NAMESPACE` and `MY_NODE_NAME`. -/
structure Settings where
  namespaceName : Str
  nodeName : Str

/-- `startLeaderElection`, where `electorOk` says that the lock and the elector can be made. -/
def Settings.startLeaderElection (env : Settings) (electorOk : Bool) : Bool :=
  env.namespaceName ≠ [] && env.nodeName ≠ [] && electorOk

structure Notifier where
  started : Bool
  isLeader : Bool
  leaderIdentity : Str
  noticeChans : List Nat
  made : Nat
  chans : Nat → Chan Bool
  /-- What `OnNewLeader` sends while it holds the lock, and the channels that are left. -/
  callback : Option (Bool × List Nat)

namespace Notifier

inductive Action where
  | requestLeaderNotification (electorOk : Bool)
  | unsubscribe (ch : Nat)
  | onNewLeader (identity : Str)
  | send
  | receive (ch : Nat)

def initial : Notifier :=
  ⟨false, false, [], [], 0, fun _ => .make 1, none⟩

def primed (isLeader : Bool) : Chan Bool :=
  if isLeader then ((Chan.make 1).send true).getD (.make 1) else .make 1

def subscribe (s : Notifier) : Notifier :=
  { s with
    started := true
    noticeChans := s.noticeChans ++ [s.made]
    made := s.made + 1
    chans := Function.update s.chans s.made (primed s.isLeader) }

def step (env : Settings) (s : Notifier) : Action → Option Notifier
  | .requestLeaderNotification electorOk =>
    if s.callback.isSome then none
    else if s.started || env.startLeaderElection electorOk then some s.subscribe
    else some s
  | .unsubscribe ch =>
    if s.callback.isSome then none else some { s with noticeChans := s.noticeChans.erase ch }
  | .onNewLeader identity =>
    if s.callback.isSome || !s.started then none
    else if identity = env.nodeName ∧ s.isLeader = false then
      some { s with leaderIdentity := identity, callback := some (true, s.noticeChans) }
    else if identity ≠ env.nodeName ∧ s.isLeader = true then
      some { s with leaderIdentity := identity, callback := some (false, s.noticeChans) }
    else some { s with leaderIdentity := identity }
  | .send =>
    match s.callback with
    | none => none
    | some (value, []) => some { s with callback := none, isLeader := s.isLeader || value }
    | some (value, ch :: rest) =>
      ((s.chans ch).send value).map fun c =>
        { s with chans := Function.update s.chans ch c, callback := some (value, rest) }
  | .receive ch => (s.chans ch).recv.map fun e => { s with chans := Function.update s.chans ch e.2 }

def leads (env : Settings) (s : Notifier) : Bool :=
  s.started && s.leaderIdentity == env.nodeName

/-! ## Notices in turn -/

def Alternates : Bool → List Bool → Prop
  | _, [] => True
  | first, value :: values => value = first ∧ Alternates (!first) values

def lastNotice (values : List Bool) : Bool :=
  values.getLast?.getD false

theorem alternates_append (first : Bool) (values : List Bool) (value : Bool) :
    Alternates first (values ++ [value]) ↔ Alternates first values ∧ value = !values.getLast?.getD (!first) := by
  induction values generalizing first with
  | nil => simp [Alternates]
  | cons v values ih =>
    rw [cons_append, Alternates, Alternates, ih, getLast?_cons]
    constructor
    · rintro ⟨rfl, h, hv⟩
      exact ⟨⟨rfl, h⟩, by simpa using hv⟩
    · rintro ⟨⟨rfl, h⟩, hv⟩
      exact ⟨rfl, h, by simpa using hv⟩

variable {rest : List Bool}

theorem Alternates.front {first : Bool} (h : Alternates first (values ++ rest)) : Alternates first values := by
  induction values generalizing first with
  | nil => trivial
  | cons v values ih => exact ⟨h.1, ih h.2⟩

theorem Alternates.next {value : Bool} (h : Alternates true (values ++ value :: rest)) :
    value = !lastNotice values := by
  rw [← singleton_append, ← append_assoc] at h
  exact ((alternates_append true values value).mp h.front).2

theorem alternates_concat (h : Alternates true values) : Alternates true (values ++ [!lastNotice values]) :=
  (alternates_append true values _).mpr ⟨h, rfl⟩

@[simp] theorem lastNotice_concat (values : List Bool) (value : Bool) : lastNotice (values ++ [value]) = value := by
  simp [lastNotice]

/-! ## The invariant -/

/-- `isLeader` was not left over from an earlier time. -/
def Current (env : Settings) (s : Notifier) : Prop :=
  s.isLeader = true → s.leads env = true

/-- Nobody is told anything, and nobody subscribes, after this node has lost the leadership. -/
def InTouch (env : Settings) (s : Notifier) : Action → Prop
  | .requestLeaderNotification _ => s.Current env
  | .onNewLeader _ => s.Current env ∨ s.noticeChans = []
  | _ => True

/-- Every subscriber knows who leads, but for those that `OnNewLeader` is about to tell. -/
structure Truthful (env : Settings) (s : Notifier) : Prop where
  subscribers : ∀ ch ∈ s.noticeChans, ch < s.made
  nodup : s.noticeChans.Nodup
  named : s.started = true → env.nodeName ≠ []
  fresh : s.started = false → s.leaderIdentity = [] ∧ s.isLeader = false ∧ s.noticeChans = [] ∧ s.callback = none
  alternates : ∀ ch, Alternates true (s.chans ch).sent
  flag : s.callback = none → s.leads env = true → s.isLeader = true
  idle : s.callback = none → ∀ ch ∈ s.noticeChans, lastNotice (s.chans ch).sent = s.leads env
  busy : ∀ value rest, s.callback = some (value, rest) → s.leads env = value ∧ rest.Nodup ∧ rest ⊆ s.noticeChans ∧
    ∀ ch ∈ s.noticeChans, lastNotice (s.chans ch).sent = if ch ∈ rest then !value else value

variable {env : Settings} {s s' : Notifier}

theorem truthful_initial : initial.Truthful env := by
  constructor <;> simp [initial, Chan.make, Alternates, leads]

theorem sent_primed (isLeader : Bool) : (primed isLeader).sent = if isLeader then [true] else [] := by
  cases isLeader <;> rfl

section

variable (h : s.Truthful env)
include h

theorem Truthful.subscribe (hn : s.callback = none) (hc : s.Current env) (hna : env.nodeName ≠ []) :
    s.subscribe.Truthful env := by
  have hle : s.isLeader = s.leads env := by
    have hf := h.flag hn
    unfold Current at hc
    cases hl : s.leads env <;> cases hi : s.isLeader <;> simp_all
  have hle' : s.subscribe.leads env = s.leads env := by
    cases hs : s.started with
    | true => simp [leads, Notifier.subscribe, hs]
    | false => simp [leads, Notifier.subscribe, hs, (h.fresh hs).1, hna]
  have hnew : s.made ∉ s.noticeChans := fun hmem => Nat.lt_irrefl _ (h.subscribers _ hmem)
  have ho : ∀ ch ∈ s.noticeChans, s.subscribe.chans ch = s.chans ch := by
    intro ch hch
    have hne : ch ≠ s.made := fun heq => hnew (heq ▸ hch)
    exact update_of_ne hne ..
  have hp : (s.subscribe.chans s.made).sent = if s.isLeader then [true] else [] := by
    rw [← sent_primed]
    exact congrArg Chan.sent (update_self ..)
  refine ⟨?_, ?_, fun _ => hna, nofun, ?_, ?_, ?_, ?_⟩
  · intro ch hch
    rcases mem_append.mp hch with hch | hch
    · exact Nat.lt_succ_of_lt (h.subscribers ch hch)
    · rw [mem_singleton.mp hch]
      exact Nat.lt_succ_self _
  · exact nodup_append.mpr ⟨h.nodup, nodup_singleton _, by
      rintro ch hch _ hm rfl
      exact hnew (mem_singleton.mp hm ▸ hch)⟩
  · intro ch
    by_cases hch : ch = s.made
    · rw [hch, hp]
      cases s.isLeader <;> simp [Alternates]
    · rw [show s.subscribe.chans ch = s.chans ch from update_of_ne hch ..]
      exact h.alternates ch
  · intro _ hl
    rw [hle', ← hle] at hl
    exact hl
  · intro _ ch hch
    rw [hle']
    rcases mem_append.mp hch with hch | hch
    · rw [ho ch hch]
      exact h.idle hn ch hch
    · rw [mem_singleton.mp hch, hp, ← hle]
      cases s.isLeader <;> rfl
  · intro value rest hb
    exact nomatch hn.symm.trans hb

theorem Truthful.onNewLeader {identity : Str} (hok : s.InTouch env (.onNewLeader identity))
    (hste : s.step env (.onNewLeader identity) = some s') : s'.Truthful env := by
  simp only [step] at hste
  split at hste
  · cases hste
  rename_i hf
  simp only [Bool.or_eq_true, Bool.not_eq_true', not_or, not_isSome_iff_eq_none, Bool.not_eq_false] at hf
  obtain ⟨hno, hst⟩ := hf
  have hfl := h.flag hno
  have hidl := h.idle hno
  split at hste
  · -- the leadership is won
    rename_i hwon
    cases hste
    refine ⟨h.subscribers, h.nodup, h.named, (fun hs => nomatch hst.symm.trans hs), h.alternates, nofun, nofun, ?_⟩
    rintro value rest ⟨⟩
    refine ⟨by simp [leads, hst, hwon.1], h.nodup, fun _ => id, fun ch hch => ?_⟩
    rw [if_pos hch, hidl ch hch]
    exact Bool.eq_false_iff.mpr fun hl => nomatch hwon.2.symm.trans (hfl hl)
  split at hste
  · -- the leadership is lost
    rename_i hlo
    cases hste
    refine ⟨h.subscribers, h.nodup, h.named, (fun hs => nomatch hst.symm.trans hs), h.alternates, nofun, nofun, ?_⟩
    rintro value rest ⟨⟩
    refine ⟨by simp [leads, hlo.1], h.nodup, fun _ => id, fun ch hch => ?_⟩
    rw [if_pos hch, hidl ch hch]
    rcases hok with hc | hn
    · exact hc hlo.2
    · rw [hn] at hch
      cases hch
  · rename_i hwon hlo
    cases hste
    have hle : { s with leaderIdentity := identity }.leads env = s.isLeader := by
      by_cases hid : identity = env.nodeName
      · have hi : s.isLeader = true := by
          by_contra hi
          exact hwon ⟨hid, by simpa using hi⟩
        simp [leads, hst, hid, hi]
      · have hi : s.isLeader = false := by
          by_contra hi
          exact hlo ⟨hid, by simpa using hi⟩
        simp [leads, hid, hi]
    refine ⟨h.subscribers, h.nodup, h.named, (fun hs => nomatch hst.symm.trans hs), h.alternates, ?_, ?_, ?_⟩
    · intro _ hl
      exact hle ▸ hl
    · intro _ ch hch
      rw [hle, hidl ch hch]
      rcases hok with hc | hn
      · exact Bool.eq_iff_iff.mpr ⟨hfl, hc⟩
      · rw [hn] at hch
        cases hch
    · intro value rest hb
      exact nomatch hno.symm.trans hb

theorem Truthful.send (hst : s.step env .send = some s') : s'.Truthful env := by
  simp only [step] at hst
  split at hst
  · cases hst
  · rename_i value hb
    cases hst
    obtain ⟨hle, -, -, hla⟩ := h.busy value [] hb
    refine ⟨h.subscribers, h.nodup, h.named, ?_, h.alternates, ?_, ?_, nofun⟩
    · intro hs
      exact nomatch hb.symm.trans (h.fresh hs).2.2.2
    · intro _ hl
      have hv : value = true := hle ▸ hl
      simp [hv]
    · intro _ ch hch
      exact (hla ch hch).trans hle.symm
  · rename_i value ch rest hb
    obtain ⟨c, hsen, rfl⟩ := map_eq_some_iff.mp hst
    obtain ⟨hse, -, -⟩ := Chan.send_eq_some hsen
    obtain ⟨hle, hn, hsub, hla⟩ := h.busy value (ch :: rest) hb
    rw [nodup_cons] at hn
    have hch : lastNotice (s.chans ch).sent = !value := by
      rw [hla ch (hsub mem_cons_self), if_pos mem_cons_self]
    refine ⟨h.subscribers, h.nodup, h.named, ?_, ?_, nofun, nofun, ?_⟩
    · intro hs
      exact nomatch hb.symm.trans (h.fresh hs).2.2.2
    · intro d
      by_cases hd : d = ch
      · subst hd
        have hv : value = !lastNotice (s.chans d).sent := by simp [hch]
        simp only [update_self, hse]
        rw [hv]
        exact alternates_concat (h.alternates d)
      · simpa [hd] using h.alternates d
    · rintro _ _ ⟨⟩
      refine ⟨hle, hn.2, (cons_subset.mp hsub).2, fun d hd => ?_⟩
      by_cases hdc : d = ch
      · subst hdc
        simp [hse, hn.1]
      · simpa [hdc] using hla d hd

theorem Truthful.receive (ch : Nat) (hst : s.step env (.receive ch) = some s') : s'.Truthful env := by
  obtain ⟨⟨value, c⟩, hr, rfl⟩ := map_eq_some_iff.mp hst
  obtain ⟨hse, -, -⟩ := Chan.recv_eq_some hr
  have hs : ∀ d, (update s.chans ch c d).sent = (s.chans d).sent := by
    intro d
    by_cases hd : d = ch
    · subst hd
      simp [hse]
    · simp [hd]
  refine ⟨h.subscribers, h.nodup, h.named, h.fresh, fun d => ?_, h.flag, fun hno d hd => ?_, fun value rest hb => ?_⟩
  · rw [hs]
    exact h.alternates d
  · rw [hs]
    exact h.idle hno d hd
  · obtain ⟨hl, hn, hsub, hla⟩ := h.busy value rest hb
    refine ⟨hl, hn, hsub, fun d hd => ?_⟩
    rw [hs]
    exact hla d hd

theorem Truthful.step {a : Action} (hok : s.InTouch env a) (hst : s.step env a = some s') : s'.Truthful env := by
  cases a with
  | requestLeaderNotification electorOk =>
    simp only [Notifier.step] at hst
    split at hst
    · cases hst
    rename_i hf
    have hn := not_isSome_iff_eq_none.mp hf
    split at hst <;> cases hst
    · rename_i hsr
      refine h.subscribe hn hok ?_
      rcases (Bool.or_eq_true _ _).mp hsr with hsta | he
      · exact h.named hsta
      · simp only [Settings.startLeaderElection, Bool.and_eq_true, decide_eq_true_eq] at he
        exact he.1.2
    · exact h
  | unsubscribe ch =>
    obtain ⟨hf, heq⟩ := ite_none_left_eq_some.mp hst
    cases heq
    have hn := not_isSome_iff_eq_none.mp hf
    have hsub : ∀ d ∈ s.noticeChans.erase ch, d ∈ s.noticeChans := fun d hd => mem_of_mem_erase hd
    refine ⟨fun d hd => h.subscribers d (hsub d hd), h.nodup.erase ch, h.named, fun hs => ?_, h.alternates, h.flag,
      fun _ d hd => h.idle hn d (hsub d hd), fun _ _ hb => nomatch hn.symm.trans hb⟩
    obtain ⟨hi, hl, hch, hc⟩ := h.fresh hs
    exact ⟨hi, hl, by simp [hch], hc⟩
  | onNewLeader identity => exact h.onNewLeader hok hst
  | send => exact h.send hst
  | receive ch => exact h.receive ch hst

end

/-- While nobody is told of a later leader than the loss, the notices alternate and the last one is true. -/
theorem notices_truthful (env : Settings) (actions : List Action) (s : Notifier)
    (hgood : GoodRun (step env) (InTouch env) initial actions) (hrun : actions.foldlM (step env) initial = some s) :
    (∀ ch, Alternates true (s.chans ch).sent) ∧
      (s.callback = none → ∀ ch ∈ s.noticeChans, lastNotice (s.chans ch).sent = s.leads env) := by
  have h : s.Truthful env := hgood.inv (fun _ _ _ h hok hs => h.step hok hs) truthful_initial hrun
  exact ⟨h.alternates, h.idle⟩

instance (env : Settings) (s : Notifier) : Decidable (s.Current env) :=
  inferInstanceAs (Decidable (_ → _))

instance (env : Settings) (s : Notifier) : (a : Action) → Decidable (s.InTouch env a)
  | .requestLeaderNotification _ => inferInstanceAs (Decidable (s.Current env))
  | .onNewLeader _ => inferInstanceAs (Decidable (_ ∨ _))
  | .unsubscribe _ | .send | .receive _ => .isTrue trivial

def twoNodes : Settings :=
  ⟨"default", "node1"⟩

def wonAndLost : List Action :=
  [.requestLeaderNotification true, .onNewLeader "node1", .send, .send, .receive 0,
    .onNewLeader "node2", .send, .send]

theorem notices_wonAndLost : ∃ s, wonAndLost.foldlM (step twoNodes) initial = some s ∧
    (s.chans 0).sent = [true, false] ∧ Alternates true (s.chans 0).sent := by
  have hg : GoodRun (step twoNodes) (InTouch twoNodes) initial wonAndLost := by
    decide +kernel
  have hend : (wonAndLost.foldlM (step twoNodes) initial).any (fun s => (s.chans 0).sent = [true, false]) = true := by
    decide +kernel
  obtain ⟨s, hrun, hs⟩ : ∃ s, wonAndLost.foldlM (step twoNodes) initial = some s ∧
      (s.chans 0).sent = [true, false] := by simpa [Option.any_eq_true] using hend
  exact ⟨s, hrun, hs, (notices_truthful twoNodes wonAndLost s hg hrun).1 0⟩

def lostTwice : List Action :=
  wonAndLost ++ [.receive 0, .onNewLeader "node3", .send, .send]

theorem notices_lostTwice : ∃ s, lostTwice.foldlM (step twoNodes) initial = some s ∧
    (s.chans 0).sent = [true, false, false] ∧ ¬ Alternates true (s.chans 0).sent := by
  have hend : (lostTwice.foldlM (step twoNodes) initial).any
      (fun s => (s.chans 0).sent = [true, false, false]) = true := by
    decide +kernel
  obtain ⟨s, hrun, hs⟩ : ∃ s, lostTwice.foldlM (step twoNodes) initial = some s ∧
      (s.chans 0).sent = [true, false, false] := by simpa [Option.any_eq_true] using hend
  exact ⟨s, hrun, hs, by simp [hs, Alternates]⟩

end Notifier

end Collector.Kubernetes
