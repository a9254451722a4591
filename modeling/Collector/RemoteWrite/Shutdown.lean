import Collector.RemoteWrite.Delivery

/-!
# Closing the metrics channel

`Server.Close` does not wait for the handlers that run, and the channel is closed right after it.
-/

namespace Collector.RemoteWrite

open Lib Option

variable {M : Type} {pc : Caller} {t' : Nat} {d : Closing}
variable {h t : Nat} {prw' prw : Server M} {failed : Bool} {a : Action M}

def Handler.pending : Handler M → Bool
  | .decode | .convert | .send _ => true
  | _ => false

theorem newHandler_pending {mc mc' : Chan (Batch M)} {pc pc' : Handler M} {move : HandlerMove M}
    (hs : newHandler h mc pc move = some (pc', mc')) :
    (pc'.pending = true → pc.pending = true) ∧ (pc' = .panicked → pc.pending = true ∧ mc.closed = true) := by
  unfold newHandler at hs
  split at hs
  case h_6 results =>
    split_ifs at hs with hc
    · cases hs
      exact ⟨nofun, fun _ => ⟨rfl, hc⟩⟩
    · obtain ⟨c, -, heq⟩ := map_eq_some_iff.mp hs
      cases heq
      exact ⟨nofun, nofun⟩
  case h_8 => cases hs
  all_goals
    cases hs
    exact ⟨by simp [Handler.pending], nofun⟩

/-! ## One close

The `sync.Once` is held by the caller that closes the channel. -/

def Closing.Holds (t : Nat) (prw : Server M) : Closing → Prop
  | .closeMc _ => prw.closeChannel = .busy t ∧ prw.mc.closed = false ∧ prw.closes = 0
  | .onceDone _ => prw.closeChannel = .busy t
  | .panicked => False
  | .serverClose | .onceDo _ | .returned _ => True

structure Server.ClosedOnce (prw : Server M) : Prop where
  fresh : prw.closeChannel = .fresh → prw.mc.closed = false ∧ prw.closes = 0
  once : prw.closes ≤ 1

theorem Closing.Holds.of_busy (hb : prw.closeChannel = .busy t)
    (hne : t' ≠ t) (hd : d.Holds t' prw) : d.Holds t' prw' := by
  cases d with
  | closeMc => exact absurd (hd.1.symm.trans hb) (by simpa using hne)
  | onceDone => exact absurd (Eq.trans (Eq.symm hd) hb) (by simpa using hne)
  | panicked => exact hd.elim
  | serverClose | onceDo | returned => trivial

theorem Closing.Holds.of_fresh (hf : prw.closeChannel = .fresh) (hd : d.Holds t' prw) : d.Holds t' prw' := by
  cases d with
  | closeMc => cases hd.1.symm.trans hf
  | onceDone => cases Eq.trans (Eq.symm hd) hf
  | panicked => exact hd.elim
  | serverClose | onceDo | returned => trivial

theorem close_closedOnce {c c' : Closing}
    (hs : close t failed prw c = some (c', prw')) (hprw : prw.ClosedOnce) (hc : c.Holds t prw) :
    prw'.ClosedOnce ∧ c'.Holds t prw' ∧ ∀ t' ≠ t, ∀ d : Closing, d.Holds t' prw → d.Holds t' prw' := by
  unfold close at hs
  split at hs
  · cases hs
    exact ⟨⟨hprw.fresh, hprw.once⟩, trivial, fun t' _ d hd => by cases d <;> exact hd⟩
  · split at hs <;> cases hs
    · rename_i hf
      obtain ⟨ho, hcl⟩ := hprw.fresh hf
      exact ⟨⟨nofun, hprw.once⟩, ⟨rfl, ho, hcl⟩, fun t' _ d hd => hd.of_fresh hf⟩
    · exact ⟨hprw, trivial, fun _ _ _ hd => hd⟩
  · obtain ⟨hb, ho, hcl⟩ := hc
    rw [if_neg (by simp [ho])] at hs
    cases hs
    refine ⟨⟨fun hf => ?_, by simp [hcl]⟩, hb, fun t' hne d hd => hd.of_busy hb hne⟩
    cases hb.symm.trans hf
  · cases hs
    exact ⟨⟨nofun, hprw.once⟩, trivial, fun t' hne d hd => hd.of_busy hc hne⟩
  · cases hs
  · cases hs

structure Server.Unclosed (v v' : Server M) : Prop where
  closed : v'.mc.closed = v.mc.closed
  closes : v'.closes = v.closes
  once : v'.closeChannel = v.closeChannel
  http : v.http = .closed → v'.http = .closed

theorem Server.Unclosed.rfl {v : Server M} : v.Unclosed v := ⟨.refl _, .refl _, .refl _, id⟩

def Caller.Outside (pc : Caller) : Prop := ∀ g rest c, pc = .close g rest c → c = .serverClose

namespace Receiver

variable {s s' : Receiver M}

structure Unclosed (s s' : Receiver M) : Prop where
  servers : ∀ g, (s.servers g).Unclosed (s'.servers g)
  callers : ∀ t, s'.callers t = s.callers t ∨ (s'.callers t).Outside

def CloseStep (s : Receiver M) (a : Action M) (s' : Receiver M) : Prop :=
  ∃ t failed g rest c c' prw, a = .call t failed ∧ s.callers t = .close g rest c ∧
    close t failed (s.servers g) c = some (c', prw) ∧ s' = (s.setServer g prw).goto t (.close g rest c')

theorem unclosed_setServer {g : Nat} {v : Server M} (hv : (s.servers g).Unclosed v) (g' : Nat) :
    (s.servers g').Unclosed ((s.setServer g v).servers g') := by
  rw [servers_setServer]
  split_ifs with hg
  · rwa [hg]
  · exact .rfl

theorem outside_goto (hpc : pc.Outside) (t' : Nat) :
    (s.goto t pc).callers t' = s.callers t' ∨ ((s.goto t pc).callers t').Outside := by
  rw [callers_goto]
  split
  · exact .inr hpc
  · exact .inl rfl

theorem Unclosed.goto (hs : ∀ g, (s.servers g).Unclosed (s'.servers g)) (hc : s'.callers = s.callers)
    (hpc : pc.Outside) : s.Unclosed (s'.goto t pc) := by
  refine ⟨hs, fun t' => ?_⟩
  rw [← hc]
  exact outside_goto hpc t'

theorem callStep_unclosed (hs : s.callStep t failed = some s') : s.Unclosed s' ∨ s.CloseStep (.call t failed) s' := by
  unfold callStep at hs
  split at hs
  · cases hs
  · rename_i failed _
    cases hs
    cases failed <;> exact .inl (.goto (fun _ => .rfl) rfl nofun)
  · cases hs
    exact .inl (.goto (fun _ => .rfl) rfl nofun)
  · rename_i hpc
    obtain ⟨⟨c, prw⟩, hc, rfl⟩ := map_eq_some_iff.mp hs
    exact .inr ⟨t, failed, _, _, _, c, prw, rfl, hpc, hc, rfl⟩
  · split at hs
    · cases hs
      exact .inl (.goto (fun _ => .rfl) rfl nofun)
    · cases hs
      refine .inl (.goto ?_ ?_ ?_)
      exacts [unclosed_setServer ⟨rfl, rfl, rfl, id⟩, rfl, nofun]
  · cases hs
    refine .inl (.goto ?_ ?_ ?_)
    exacts [fun _ => .rfl, rfl, nofun]
  · cases hs
    cases failed <;> exact .inl (.goto (fun _ => .rfl) rfl nofun)
  · cases hs
    refine .inl (.goto ?_ ?_ ?_)
    exacts [fun _ => .rfl, rfl, nofun]
  · cases hs
    refine .inl (.goto ?_ ?_ ?_)
    exacts [unclosed_setServer ⟨rfl, rfl, rfl, id⟩, rfl, nofun]
  · cases hs
    refine .inl (.goto ?_ ?_ ?_)
    exacts [unclosed_setServer ⟨rfl, rfl, rfl, id⟩, rfl, nofun]

theorem step_unclosed (hs : s.step a = some s') : s.Unclosed s' ∨ s.CloseStep a s' := by
  have hsc {g : Nat} {rest : Rest} : (Caller.close g rest .serverClose).Outside := by
    rintro _ _ _ ⟨⟩
    rfl
  cases a <;> rw [step] at hs
  case start =>
    split at hs <;> cases hs
    · refine .inl (.goto ?_ ?_ ?_)
      exacts [fun _ => .rfl, rfl, by rintro _ _ _ ⟨⟩]
    · refine .inl (.goto ?_ ?_ ?_)
      exacts [fun _ => .rfl, rfl, hsc]
  case shutdown =>
    split at hs <;> cases hs
    · exact .inl ⟨fun _ => .rfl, fun _ => .inl rfl⟩
    · exact .inl (.goto (fun _ => .rfl) rfl (by rintro _ _ _ ⟨⟩))
    · exact .inl (.goto (fun _ => .rfl) rfl hsc)
  case call => exact callStep_unclosed hs
  case startServer =>
    split at hs
    · split at hs <;> cases hs
      · exact .inl ⟨fun _ => .rfl, fun _ => .inl rfl⟩
      · rename_i hc
        simp only [Bool.or_eq_true, decide_eq_true_eq, not_or] at hc
        exact .inl ⟨unclosed_setServer ⟨rfl, rfl, rfl, fun h => absurd h hc.2⟩, fun _ => .inl rfl⟩
    · cases hs
  case serveError =>
    split at hs <;> cases hs
    rename_i hse
    exact .inl ⟨unclosed_setServer ⟨rfl, rfl, rfl, fun h => by rw [hse] at h; cases h⟩, fun _ => .inl rfl⟩
  case cancelContext =>
    cases hs
    exact .inl ⟨unclosed_setServer ⟨rfl, rfl, rfl, id⟩, fun _ => .inl rfl⟩
  case accept =>
    split at hs <;> cases hs
    exact .inl ⟨fun _ => .rfl, fun _ => .inl rfl⟩
  case handler h move =>
    obtain ⟨⟨pc, mc⟩, hm, rfl⟩ := map_eq_some_iff.mp hs
    exact .inl ⟨unclosed_setServer ⟨(newHandler_spec hm).1, rfl, rfl, id⟩, fun _ => .inl rfl⟩
  case loop g move =>
    obtain ⟨⟨l, mc⟩, hm, rfl⟩ := map_eq_some_iff.mp hs
    exact .inl ⟨unclosed_setServer ⟨(manageServerLifecycle_spec hm).2, rfl, rfl, id⟩, fun _ => .inl rfl⟩
  case handoff =>
    split at hs
    · split at hs
      · obtain ⟨mc, hmc, rfl⟩ := map_eq_some_iff.mp hs
        exact .inl ⟨unclosed_setServer ⟨(Chan.handoff_eq_some hmc).2.2, rfl, rfl, id⟩, fun _ => .inl rfl⟩
      · cases hs
    · cases hs

inductive Moved (s : Receiver M) (a : Action M) (h : Nat) : Request M → Prop where
  | same : Moved s a h (s.handlers h)
  | accepted (g : Nat) (ha : a = .accept h g) (hserving : (s.servers g).http = .serving) : Moved s a h ⟨g, .decode⟩
  | moved (move : HandlerMove M) (pc : Handler M) (mc : Chan (Batch M))
    (hmove : newHandler h (s.servers (s.handlers h).server).mc (s.handlers h).pc move = some (pc, mc)) :
    Moved s a h ⟨(s.handlers h).server, pc⟩
  | handed (metrics : M) (hsend : (s.handlers h).pc = .send metrics) :
    Moved s a h ⟨(s.handlers h).server, .respond metrics⟩

theorem moved_handle {g : Nat} {pc : Handler M} (hm : s.Moved a h ⟨g, pc⟩) (h' : Nat) :
    s.Moved a h' ((s.handle h g pc).handlers h') := by
  rw [handlers_handle]
  split_ifs with hh
  · rwa [hh]
  · exact .same

theorem step_moved (hs : s.step a = some s') (h : Nat) : s.Moved a h (s'.handlers h) := by
  cases a <;> rw [step] at hs
  case start => split at hs <;> cases hs <;> exact .same
  case shutdown => split at hs <;> cases hs <;> exact .same
  case call =>
    rw [(callStep_spec hs).1]
    exact .same
  case startServer =>
    split at hs
    · split at hs <;> cases hs <;> exact .same
    · cases hs
  case serveError =>
    split at hs <;> cases hs
    exact .same
  case cancelContext =>
    cases hs
    exact .same
  case accept h g =>
    split at hs <;> cases hs
    exact moved_handle (.accepted g rfl ‹_›) _
  case handler h move =>
    obtain ⟨⟨pc, mc⟩, hmo, rfl⟩ := map_eq_some_iff.mp hs
    exact moved_handle (.moved move pc mc hmo) _
  case loop =>
    obtain ⟨e, -, rfl⟩ := map_eq_some_iff.mp hs
    exact .same
  case handoff g h =>
    split at hs
    · rename_i g' metrics _ hh
      split at hs
      · rename_i hg
        obtain ⟨mc, -, rfl⟩ := map_eq_some_iff.mp hs
        have hm : s.Moved (.handoff g h) h ⟨(s.handlers h).server, .respond metrics⟩ :=
          .handed metrics (by rw [hh])
        rw [hh, hg.1] at hm
        exact moved_handle hm _
      · cases hs
    · cases hs

/-! ## No handler sends on a closed channel -/

structure Settled (s : Receiver M) : Prop where
  closing : ∀ t g rest c, s.callers t = .close g rest c → c ≠ .serverClose → (s.servers g).http = .closed
  closed : ∀ g, (s.servers g).mc.closed = true → (s.servers g).http = .closed
  pending : ∀ h, (s.servers (s.handlers h).server).mc.closed = true → (s.handlers h).pc.pending = false
  running : ∀ h, (s.handlers h).pc ≠ .panicked

/-- The channel is closed only when no handler of its server may still send. -/
def QuietClose (s : Receiver M) (a : Action M) : Prop :=
  ∀ t failed g rest failed', a = .call t failed → s.callers t = .close g rest (.closeMc failed') →
    ∀ h, (s.handlers h).server = g → (s.handlers h).pc.pending = false

theorem Settled.unclosed (hs : s.Settled) (hu : s.Unclosed s')
    (hmo : ∀ h, s.Moved a h (s'.handlers h)) : s'.Settled := by
  have hht (g : Nat) := (hu.servers g).http
  have hcl (g : Nat) (h : (s'.servers g).mc.closed = true) : (s.servers g).mc.closed = true :=
    (hu.servers g).closed ▸ h
  refine ⟨?_, ?_, ?_, ?_⟩
  · intro t g rest c hc hne
    rcases hu.callers t with hsa | ho
    · exact hht g (hs.closing t g rest c (hsa ▸ hc) hne)
    · exact absurd (ho g rest c hc) hne
  · exact fun g h => hht g (hs.closed g (hcl g h))
  · intro h hh
    have hh := hcl _ hh
    generalize s'.handlers h = r, hmo h = hr at hh
    cases hr with
    | same => exact hs.pending h hh
    | accepted g _ hse =>
      rw [hs.closed g hh] at hse
      cases hse
    | moved move pc mc hm =>
      have hp := hs.pending h hh
      by_contra hpc
      rw [(newHandler_pending hm).1 (by simpa using hpc)] at hp
      cases hp
    | handed => rfl
  · intro h
    generalize s'.handlers h = r, hmo h = hr
    cases hr with
    | same => exact hs.running h
    | accepted => exact nofun
    | moved move pc mc hm =>
      intro hpc
      obtain ⟨hp, hcl⟩ := (newHandler_pending hm).2 hpc
      rw [hs.pending h hcl] at hp
      cases hp
    | handed => exact nofun

theorem Settled.close (hs : s.Settled) (hclo : s.CloseStep a s') (hq : QuietClose s a) : s'.Settled := by
  obtain ⟨t, failed, g, rest, c, c', prw, rfl, hc, hst, rfl⟩ := hclo
  have hprw : prw.http = .closed := (close_spec hst).2.2 (hs.closing t g rest c hc)
  refine ⟨?_, ?_, ?_, hs.running⟩
  · intro t' g' rest' d hd hne
    rw [servers_goto, servers_setServer]
    split_ifs with hg
    · exact hprw
    · rw [callers_goto] at hd
      split at hd
      · cases hd
        exact absurd rfl hg
      · exact hs.closing t' g' rest' d hd hne
  · intro g' hcl
    rw [servers_goto, servers_setServer] at hcl ⊢
    split_ifs at hcl with hg
    · rwa [if_pos hg]
    · rw [if_neg hg]
      exact hs.closed g' hcl
  · intro h hcl
    rw [servers_goto, servers_setServer, handlers_goto, handlers_setServer] at hcl
    split_ifs at hcl with hg
    · rcases (close_spec hst).2.1 with hsa | ⟨failed', rfl⟩
      · exact hs.pending h (by rw [hg, ← hsa, hcl])
      · exact hq t failed g rest failed' rfl hc h hg
    · exact hs.pending h hcl

theorem Settled.step (hs : s.Settled) (hq : QuietClose s a) (hst : s.step a = some s') : s'.Settled := by
  rcases step_unclosed hst with hu | hc
  · exact hs.unclosed hu (step_moved hst)
  · exact hs.close hc hq

/-! ## The channel is closed once -/

structure ClosedOnce (s : Receiver M) : Prop where
  servers : ∀ g, (s.servers g).ClosedOnce
  callers : ∀ t g rest c, s.callers t = .close g rest c → c.Holds t (s.servers g)

theorem ClosedOnce.step (hs : s.ClosedOnce) (hst : s.step a = some s') : s'.ClosedOnce := by
  rcases step_unclosed hst with hu | ⟨t, failed, g, rest, c, c', prw, rfl, hc, hcs, rfl⟩
  · constructor
    · intro g
      obtain ⟨hclo, hcl, ho, -⟩ := hu.servers g
      exact ⟨by rw [ho, hclo, hcl]; exact (hs.servers g).fresh, by rw [hcl]; exact (hs.servers g).once⟩
    · intro t g rest c hc
      obtain ⟨hclo, hcl, ho, -⟩ := hu.servers g
      rcases hu.callers t with hsa | hou
      · have hh := hs.callers t g rest c (hsa ▸ hc)
        cases c with
        | closeMc =>
          rw [Closing.Holds, hclo, hcl, ho]
          exact hh
        | onceDone =>
          rw [Closing.Holds, ho]
          exact hh
        | panicked => exact hh
        | serverClose | onceDo | returned => trivial
      · rw [hou g rest c hc]
        trivial
  · obtain ⟨hprw, hh, hot⟩ := close_closedOnce hcs (hs.servers g) (hs.callers t g rest c hc)
    constructor
    · intro g'
      rw [servers_goto, servers_setServer]
      split
      · exact hprw
      · exact hs.servers g'
    · intro t' g' rest' d hd
      rw [callers_goto] at hd
      rw [servers_goto, servers_setServer]
      split_ifs at hd with ht
      · cases hd
        rw [if_pos rfl, ht]
        exact hh
      · split_ifs with hg
        · subst hg
          exact hot t' ht d (hs.callers t' _ rest' d hd)
        · exact hs.callers t' g' rest' d hd

/-! ## Runs -/

/-- The handler can come to send on a closed channel. -/
def CanPanic (s : Receiver M) (h : Nat) : Prop :=
  ∃ (actions : List (Action M)) (s' : Receiver M), actions.foldlM step s = some s' ∧ (s'.handlers h).pc = .panicked

theorem CanPanic.of_step (hst : s.step a = some s') (hs' : s'.CanPanic h) : s.CanPanic h := by
  obtain ⟨actions, s'', hrun, hp⟩ := hs'
  exact ⟨a :: actions, s'', by rw [List.foldlM_cons, hst]; exact hrun, hp⟩

theorem step_newHandler (h : Nat) (move : HandlerMove M) (pc : Handler M)
    (hm : newHandler h (s.servers (s.handlers h).server).mc (s.handlers h).pc move =
      some (pc, (s.servers (s.handlers h).server).mc)) :
    ∃ s', s.step (.handler h move) = some s' ∧ s'.handlers h = ⟨(s.handlers h).server, pc⟩ ∧
      ∀ g, (s'.servers g).mc.closed = (s.servers g).mc.closed := by
  refine ⟨_, by rw [step, hm]; rfl, by simp, fun g => ?_⟩
  rw [servers_handle, servers_setServer]
  split_ifs with hg
  · rw [hg]
  · rfl

theorem canPanic_of_send {results : M} (hpc : (s.handlers h).pc = .send results)
    (hc : (s.servers (s.handlers h).server).mc.closed = true) : s.CanPanic h := by
  obtain ⟨s', hs, hh, -⟩ := s.step_newHandler h .send .panicked (by simp [newHandler, hpc, hc])
  exact .of_step hs ⟨[], s', rfl, by rw [hh]⟩

theorem canPanic_of_convert (metrics : M) (hpc : (s.handlers h).pc = .convert)
    (hc : (s.servers (s.handlers h).server).mc.closed = true) : s.CanPanic h := by
  obtain ⟨s', hs, hh, hmc⟩ := s.step_newHandler h (.convert (some metrics)) (.send metrics) (by rw [hpc]; rfl)
  refine .of_step hs (canPanic_of_send (by rw [hh]) ?_)
  rw [hh, hmc, hc]

theorem canPanic_of_pending (metrics : M) (hp : (s.handlers h).pc.pending = true)
    (hc : (s.servers (s.handlers h).server).mc.closed = true) : s.CanPanic h := by
  cases hpc : (s.handlers h).pc with
  | send results => exact canPanic_of_send hpc hc
  | convert => exact canPanic_of_convert metrics hpc hc
  | decode =>
    obtain ⟨s', hs, hh, hmc⟩ := s.step_newHandler h (.decode .request) .convert (by rw [hpc]; rfl)
    refine .of_step hs (canPanic_of_convert metrics (by rw [hh]) ?_)
    rw [hh, hmc, hc]
  | idle | respond | badRequest | noContent | accepted | panicked =>
    rw [hpc] at hp
    cases hp

theorem canPanic_of_close {g : Nat} {rest : Rest} (metrics : M)
    (hc : s.callers t = .close g rest (.closeMc failed)) (hs : (s.handlers h).server = g)
    (hp : (s.handlers h).pc.pending = true) : s.CanPanic h := by
  subst hs
  by_cases hcl : (s.servers (s.handlers h).server).mc.closed = true
  · exact canPanic_of_pending metrics hp hcl
  · have hst : s.step (.call t false) = some (((s.setServer (s.handlers h).server
        { s.servers (s.handlers h).server with
          mc := (s.servers (s.handlers h).server).mc.close
          closes := (s.servers (s.handlers h).server).closes + 1 }).goto t
        (.close (s.handlers h).server rest (.onceDone failed)))) := by
      simp only [step, callStep, hc, close, hcl]
      rfl
    refine .of_step hst (canPanic_of_pending metrics hp ?_)
    simp [Chan.close]

/-- The channel of each server is closed at most once. A handler sends on it afterwards just if it is closed while one
may still send. -/
theorem closes_once_and_settled (bufferSize : Nat) (actions : List (Action M)) (s : Receiver M)
    (hrun : actions.foldlM step (newReceiver bufferSize) = some s) :
    (∀ g, (s.servers g).closes ≤ 1) ∧
      (GoodRun step QuietClose (newReceiver bufferSize) actions → ∀ h, (s.handlers h).pc ≠ .panicked) ∧
      (Nonempty M → ∀ t failed, ¬ QuietClose s (.call t failed) → ∃ h, s.CanPanic h) := by
  refine ⟨?_, ?_, ?_⟩
  · have hst : (newReceiver bufferSize : Receiver M).ClosedOnce :=
      ⟨fun _ => ⟨fun _ => ⟨rfl, rfl⟩, Nat.zero_le 1⟩, nofun⟩
    have hinv := foldlM_inv step (fun _ s => s.ClosedOnce) _ actions hst (fun _ _ _ _ _ hs => hs.step) s hrun
    exact fun g => (hinv.servers g).once
  · intro hg
    have hst : (newReceiver bufferSize : Receiver M).Settled := ⟨nofun, nofun, nofun, fun _ => nofun⟩
    exact (hg.inv (fun _ _ _ hs => hs.step) hst hrun).running
  · rintro ⟨metrics⟩ t failed hq
    simp only [QuietClose, not_forall, Bool.not_eq_false] at hq
    obtain ⟨t', _, g, rest, failed', -, hc, h, hse, hp⟩ := hq
    exact ⟨h, canPanic_of_close metrics hc hse hp⟩

section Example

def startCall : List (Action Nat) := .start 0 :: List.replicate 5 (.call 0 false)

def shutdownInFlight : List (Action Nat) :=
  startCall ++ [.startServer false, .accept 0 0, .handler 0 (.decode .request), .handler 0 (.convert (some 7)),
    .shutdown 0] ++ List.replicate 3 (.call 0 false) ++ [.handler 0 .send]

theorem shutdownInFlight_panics : ∃ s, shutdownInFlight.foldlM step (newReceiver 1) = some s ∧
    s.handlers 0 = ⟨0, .panicked⟩ := by
  have hend : (shutdownInFlight.foldlM step (newReceiver 1)).any (fun s => s.handlers 0 = ⟨0, .panicked⟩) = true := by
    decide +kernel
  simpa [any_eq_true] using hend

def servedRequest : List (Action Nat) := .startServer false :: request 0 7

def shutdownCall : List (Action Nat) := .shutdown 0 :: List.replicate 6 (.call 0 false)

theorem shutdown_after_request : ∃ s,
    (startCall ++ servedRequest ++ shutdownCall).foldlM step (newReceiver 1) = some s ∧
    (s.servers 0).closes ≤ 1 ∧ (s.handlers 0).pc ≠ .panicked := by
  obtain ⟨s, hs⟩ := isSome_iff_exists.mp
    (show ((startCall ++ servedRequest ++ shutdownCall).foldlM step (newReceiver 1)).isSome from by decide +kernel)
  have hg : GoodRun step QuietClose (newReceiver 1) (startCall ++ servedRequest ++ shutdownCall) := by
    -- every step is evaluated; the only handler has answered when the channel is closed
    repeat
      refine ⟨?_, fun _ hs => ?_⟩
      · rintro _ _ _ _ _ ⟨⟩ ⟨⟩ (_ | _) _ <;> rfl
      cases hs
    trivial
  have h := closes_once_and_settled 1 _ s hs
  exact ⟨s, hs, h.1 0, h.2.1 hg 0⟩

/-- Whatever is started and shut down meanwhile, a request that a server answers has gone through its channel once,
and nothing else has. -/
theorem sent_exactly_once (bufferSize : Nat) (actions : List (Action M)) (s : Receiver M)
    (hrun : actions.foldlM step (newReceiver bufferSize) = some s) (g h : Nat) :
    ((s.servers g).mc.received ++ (s.servers g).mc.queue).filter (·.handler = h) = (s.handlers h).sentTo h g := by
  have hs : s.Ledger :=
    foldlM_inv step (fun _ s => s.Ledger) _ actions (ledger_newReceiver bufferSize)
      (fun _ _ _ _ _ hs hst => hs.step hst) s hrun
  rw [← (s.servers g).mc.conserved, hs]

theorem sent_exactly_once_served : ∃ s, (startCall ++ servedRequest).foldlM step (newReceiver 1) = some s ∧
    ((s.servers 0).mc.received ++ (s.servers 0).mc.queue).filter (·.handler = 0) = [⟨0, 7⟩] :=
  ⟨_, rfl, sent_exactly_once 1 (startCall ++ servedRequest) _ rfl 0 0⟩

end Example

end Receiver

end Collector.RemoteWrite
