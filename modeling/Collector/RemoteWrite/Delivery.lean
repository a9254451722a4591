import Collector.RemoteWrite.Receiver

/-!
# Accepted batches

The loop does not outlive a failed flush.
-/

namespace Collector.RemoteWrite

open Lib List Option

variable {M : Type} {ctxDone failed : Bool} {move : LoopMove} {t : Nat} (bufferSize : Nat)

def Handler.sentBy (h : Nat) : Handler M → List (Batch M)
  | .respond metrics | .accepted metrics => [⟨h, metrics⟩]
  | _ => []

def Request.sentTo (r : Request M) (h g : Nat) : List (Batch M) := if r.server = g then r.pc.sentBy h else []

variable {mc mc' : Chan (Batch M)}

theorem newHandler_spec {h : Nat} {pc pc' : Handler M} {move : HandlerMove M}
    (hs : newHandler h mc pc move = some (pc', mc')) :
    mc'.closed = mc.closed ∧
      ∃ new, mc'.sent = mc.sent ++ new ∧ pc'.sentBy h = pc.sentBy h ++ new ∧ ∀ b ∈ new, b.handler = h := by
  unfold newHandler at hs
  split at hs
  case h_6 results =>
    split at hs
    · cases hs
      exact ⟨rfl, [], by simp [Handler.sentBy]⟩
    · obtain ⟨c, hse, heq⟩ := map_eq_some_iff.mp hs
      cases heq
      exact ⟨(Chan.send_eq_some hse).2.2, [⟨h, results⟩], (Chan.send_eq_some hse).1, rfl, by simp⟩
  case h_8 => cases hs
  all_goals
    cases hs
    exact ⟨rfl, [], by simp [Handler.sentBy]⟩

theorem manageServerLifecycle_spec {l l' : Loop M} (hs : manageServerLifecycle ctxDone mc l move = some (l', mc')) :
    mc'.sent = mc.sent ∧ mc'.closed = mc.closed := by
  unfold manageServerLifecycle at hs
  split at hs
  · obtain ⟨⟨b, c⟩, hr, heq⟩ := map_eq_some_iff.mp hs
    cases heq
    exact ⟨(Chan.recv_eq_some hr).1, (Chan.recv_eq_some hr).2.2⟩
  · split at hs <;> cases hs
    exact ⟨rfl, rfl⟩
  · split at hs <;> cases hs
    exact ⟨rfl, rfl⟩
  · cases hs
    exact ⟨rfl, rfl⟩
  · cases hs

theorem close_spec {prw prw' : Server M} {c c' : Closing} (hs : close t failed prw c = some (c', prw')) :
    prw'.mc.sent = prw.mc.sent ∧ (prw'.mc.closed = prw.mc.closed ∨ ∃ failed, c = .closeMc failed) ∧
      ((c ≠ .serverClose → prw.http = .closed) → prw'.http = .closed) := by
  unfold close at hs
  split at hs
  · cases hs
    exact ⟨rfl, .inl rfl, fun _ => rfl⟩
  · split at hs <;> cases hs <;> exact ⟨rfl, .inl rfl, fun hc => hc nofun⟩
  · split at hs <;> cases hs <;> exact ⟨rfl, .inr ⟨_, rfl⟩, fun hc => hc nofun⟩
  · cases hs
    exact ⟨rfl, .inl rfl, fun hc => hc nofun⟩
  · cases hs
  · cases hs

namespace Receiver

variable {s s' : Receiver M}

def Ledger (s : Receiver M) : Prop :=
  ∀ g h, (s.servers g).mc.sent.filter (·.handler = h) = (s.handlers h).sentTo h g

theorem Ledger.same (hs : s.Ledger) (hse : ∀ g, (s'.servers g).mc.sent = (s.servers g).mc.sent)
    (hh : s'.handlers = s.handlers) : s'.Ledger := by
  intro g h
  rw [hse, hh, hs]

theorem Ledger.extend (hs : s.Ledger) {h : Nat} {pc : Handler M} {new : List (Batch M)}
    (hse : ∀ g, (s'.servers g).mc.sent = (s.servers g).mc.sent ++ if g = (s.handlers h).server then new else [])
    (hha : ∀ h', s'.handlers h' = if h' = h then ⟨(s.handlers h).server, pc⟩ else s.handlers h')
    (hpc : pc.sentBy h = (s.handlers h).pc.sentBy h ++ new) (hnew : ∀ b ∈ new, b.handler = h) : s'.Ledger := by
  intro g h'
  rw [hse, hha, filter_append, hs]
  by_cases hh : h' = h
  · subst hh
    have hall : new.filter (·.handler = h') = new := filter_eq_self.mpr fun b hb => by simpa using hnew b hb
    rw [if_pos rfl]
    by_cases hg : (s.handlers h').server = g
    · simp [Request.sentTo, hg, hpc, hall]
    · simp [Request.sentTo, hg, Ne.symm hg]
  · have hn : new.filter (·.handler = h') = [] := by
      refine filter_eq_nil_iff.mpr fun b hb => ?_
      simpa [hnew b hb] using Ne.symm hh
    rw [if_neg hh]
    split
    · rw [hn, append_nil]
    · rw [filter_nil, append_nil]

theorem sent_setServer {g : Nat} {v : Server M} (hv : v.mc.sent = (s.servers g).mc.sent) (g' : Nat) :
    ((s.setServer g v).servers g').mc.sent = (s.servers g').mc.sent := by
  rw [servers_setServer]
  split_ifs with hg
  · rw [hv, hg]
  · rfl

theorem callStep_spec (hst : s.callStep t failed = some s') :
    s'.handlers = s.handlers ∧ ∀ g, (s'.servers g).mc.sent = (s.servers g).mc.sent := by
  unfold Receiver.callStep at hst
  split at hst
  · cases hst
  · cases hst
    exact ⟨rfl, fun _ => rfl⟩
  · cases hst
    exact ⟨rfl, fun _ => rfl⟩
  · obtain ⟨⟨c, prw⟩, hc, rfl⟩ := map_eq_some_iff.mp hst
    exact ⟨rfl, sent_setServer (close_spec hc).1⟩
  · split at hst
    · cases hst
      exact ⟨rfl, fun _ => rfl⟩
    · cases hst
      exact ⟨rfl, sent_setServer rfl⟩
  · cases hst
    exact ⟨rfl, fun _ => rfl⟩
  · cases hst
    exact ⟨rfl, fun _ => rfl⟩
  · cases hst
    exact ⟨rfl, fun _ => rfl⟩
  · cases hst
    exact ⟨rfl, sent_setServer rfl⟩
  · cases hst
    exact ⟨rfl, sent_setServer rfl⟩

theorem Ledger.step (hs : s.Ledger) {a : Action M} (hst : s.step a = some s') : s'.Ledger := by
  cases a <;> rw [Receiver.step] at hst
  case start =>
    split at hst <;> cases hst <;> exact hs.same (fun _ => rfl) rfl
  case shutdown =>
    split at hst <;> cases hst <;> exact hs.same (fun _ => rfl) rfl
  case call => exact hs.same (callStep_spec hst).2 (callStep_spec hst).1
  case startServer =>
    split at hst
    · split at hst <;> cases hst
      · exact hs.same (fun _ => rfl) rfl
      · exact hs.same (sent_setServer rfl) rfl
    · cases hst
  case serveError =>
    split at hst <;> cases hst
    exact hs.same (sent_setServer rfl) rfl
  case cancelContext =>
    cases hst
    exact hs.same (sent_setServer rfl) rfl
  case accept h g =>
    split at hst <;> cases hst
    rename_i hi _
    -- a handler that starts has sent nothing, wherever it was
    intro g' h'
    rw [servers_handle, hs, handlers_handle]
    split
    · rename_i hh
      simp [hh, Request.sentTo, hi, Handler.sentBy]
    · rfl
  case handler h move =>
    obtain ⟨⟨pc, mc⟩, hm, rfl⟩ := map_eq_some_iff.mp hst
    obtain ⟨-, new, hsen, hpc, hnew⟩ := newHandler_spec hm
    refine hs.extend (fun g => ?_) (fun h' => handlers_handle ..) hpc hnew
    rw [servers_handle, servers_setServer]
    split
    · rename_i hg
      rw [hg, hsen]
    · rw [append_nil]
  case loop g move =>
    obtain ⟨⟨l, mc⟩, hm, rfl⟩ := map_eq_some_iff.mp hst
    exact hs.same (sent_setServer (manageServerLifecycle_spec hm).1) rfl
  case handoff g h =>
    split at hst
    · rename_i g' metrics _ hh
      split at hst
      · rename_i hg
        obtain ⟨mc, hmc, rfl⟩ := map_eq_some_iff.mp hst
        obtain rfl := hg.1
        have hse : (s.handlers h).server = g' := by rw [hh]
        have hpc : (Handler.respond metrics).sentBy h = (s.handlers h).pc.sentBy h ++ [⟨h, metrics⟩] := by
          simp [hh, Handler.sentBy]
        refine hs.extend (fun g => ?_) (fun h' => ?_) hpc (by simp)
        · rw [servers_handle, servers_setServer, hse]
          split
          · rename_i hg
            rw [hg, (Chan.handoff_eq_some hmc).1]
          · rw [append_nil]
        · rw [handlers_handle, hse]
          rfl
      · cases hst
    · cases hst

theorem ledger_newReceiver : (newReceiver bufferSize : Receiver M).Ledger := by
  intro g h
  unfold Request.sentTo
  split <;> rfl

def Delivers (s : Receiver M) (g : Nat) : Prop :=
  ∀ h metrics, s.handlers h = ⟨g, .accepted metrics⟩ →
    ((s.servers g).mc.received ++ (s.servers g).mc.queue).filter (·.handler = h) = [⟨h, metrics⟩]

theorem Ledger.delivers (hs : s.Ledger) (g : Nat) : s.Delivers g := by
  intro h metrics hh
  rw [← (s.servers g).mc.conserved, hs, hh, Request.sentTo, if_pos rfl, Handler.sentBy]

/-! ## The loop -/

end Receiver

def Loop.receiving : Loop M → Bool
  | .select | .flush _ => true
  | .notStarted | .returned => false

def LoopMove.stops : LoopMove → Bool
  | .ctxDone => true
  | .flushed failed => failed
  | .receive | .receiveClosed => false

theorem manageServerLifecycle_receiving {l l' : Loop M}
    (ho : mc.closed = false) (hs : manageServerLifecycle ctxDone mc l move = some (l', mc')) :
    mc'.closed = false ∧ l.receiving = true ∧ (l'.receiving = true ↔ move.stops = false) := by
  unfold manageServerLifecycle at hs
  split at hs
  · obtain ⟨⟨b, c⟩, hr, heq⟩ := map_eq_some_iff.mp hs
    cases heq
    exact ⟨(Chan.recv_eq_some hr).2.2.trans ho, rfl, by simp [Loop.receiving, LoopMove.stops]⟩
  · simp [ho] at hs
  · split at hs <;> cases hs
    exact ⟨ho, rfl, by simp [Loop.receiving, LoopMove.stops]⟩
  · rename_i failed
    cases hs
    cases failed <;> exact ⟨ho, rfl, by simp [Loop.receiving, LoopMove.stops]⟩
  · cases hs

def Action.isCall : Action M → Bool
  | .start _ | .shutdown _ => true
  | _ => false

def Action.stopsLoop (g : Nat) : Action M → Bool
  | .loop g' move => g' = g && move.stops
  | _ => false

namespace Receiver

variable {s s' : Receiver M}

structure Undisturbed (s : Receiver M) : Prop where
  callers : ∀ t, s.callers t = .idle
  isOpen : ∀ g, (s.servers g).mc.closed = false

variable {g : Nat} {v : Server M}

theorem Undisturbed.setServer (hs : s.Undisturbed) (hv : v.mc.closed = false) (g' : Nat) :
    ((s.setServer g v).servers g').mc.closed = false := by
  rw [servers_setServer]
  split
  · exact hv
  · exact hs.isOpen g'

theorem receiving_setServer (hv : v.loop.receiving = (s.servers g).loop.receiving) (g' : Nat) :
    ((s.setServer g v).servers g').loop.receiving = (s.servers g').loop.receiving := by
  rw [servers_setServer]
  split_ifs with hg
  · rw [hv, hg]
  · rfl

theorem Undisturbed.step (hs : s.Undisturbed) {a : Action M} (hc : a.isCall = false) (hst : s.step a = some s') :
    s'.Undisturbed ∧ ∀ g, (s'.servers g).loop.receiving = true ↔
      (s.servers g).loop.receiving = true ∧ a.stopsLoop g = false := by
  have hsa {s' : Receiver M} (hlo : ∀ g, (s'.servers g).loop.receiving = (s.servers g).loop.receiving) (g : Nat) :
      (s'.servers g).loop.receiving = true ↔ (s.servers g).loop.receiving = true ∧ false = false := by
    rw [hlo]
    exact ⟨fun h => ⟨h, rfl⟩, fun h => h.1⟩
  cases a <;> rw [Receiver.step] at hst
  case start => cases hc
  case shutdown => cases hc
  case call t failed =>
    rw [callStep, hs.callers] at hst
    cases hst
  case startServer =>
    split at hst
    · split at hst <;> cases hst
      · exact ⟨⟨hs.callers, hs.isOpen⟩, hsa fun _ => rfl⟩
      · exact ⟨⟨hs.callers, hs.setServer (hs.isOpen _)⟩, hsa (receiving_setServer rfl)⟩
    · cases hst
  case serveError g =>
    split at hst <;> cases hst
    exact ⟨⟨hs.callers, hs.setServer (hs.isOpen g)⟩, hsa (receiving_setServer rfl)⟩
  case cancelContext g =>
    cases hst
    exact ⟨⟨hs.callers, hs.setServer (hs.isOpen g)⟩, hsa (receiving_setServer rfl)⟩
  case accept =>
    split at hst <;> cases hst
    exact ⟨⟨hs.callers, hs.isOpen⟩, hsa fun _ => rfl⟩
  case handler h move =>
    obtain ⟨⟨pc, mc⟩, hm, rfl⟩ := map_eq_some_iff.mp hst
    have hmc := (newHandler_spec hm).1.trans (hs.isOpen _)
    exact ⟨⟨hs.callers, hs.setServer hmc⟩, hsa (receiving_setServer rfl)⟩
  case loop g move =>
    obtain ⟨⟨l, mc⟩, hm, rfl⟩ := map_eq_some_iff.mp hst
    obtain ⟨hmc, hl, hiff⟩ := manageServerLifecycle_receiving (hs.isOpen g) hm
    refine ⟨⟨hs.callers, hs.setServer hmc⟩, fun g' => ?_⟩
    rw [servers_setServer]
    by_cases hg : g' = g
    · subst hg
      simp [Action.stopsLoop, hiff, hl]
    · simp [Action.stopsLoop, hg, Ne.symm hg]
  case handoff g h =>
    split at hst
    · rename_i hl hh
      split at hst
      · rename_i hg
        obtain ⟨mc, hmc, rfl⟩ := map_eq_some_iff.mp hst
        have hcl := (Chan.handoff_eq_some hmc).2.2.trans hg.2
        exact ⟨⟨hs.callers, hs.setServer hcl⟩, hsa (receiving_setServer (by rw [hl]; rfl))⟩
      · cases hst
    · cases hst

def started (bufferSize : Nat) : Receiver M :=
  let s := newReceiver bufferSize
  { s.setServer 0 { s.servers 0 with loop := .select } with
    server := some 0, cancel := some 0, nextServer := 1, starting := 1 }

theorem undisturbed_started : (started bufferSize : Receiver M).Undisturbed := by
  have hnew : (newReceiver bufferSize : Receiver M).Undisturbed := ⟨fun _ => rfl, fun _ => rfl⟩
  exact ⟨hnew.callers, hnew.setServer rfl⟩

theorem ledger_started : (started bufferSize : Receiver M).Ledger :=
  (ledger_newReceiver bufferSize).same (sent_setServer rfl) rfl

/-- As long as the receiver is neither shut down nor restarted, accepted batches are handed on in their order, and the
loop keeps receiving exactly if no flush fails and its context is not cancelled. -/
theorem delivers_iff (bufferSize : Nat) (actions : List (Action M)) (hcalls : ∀ a ∈ actions, a.isCall = false)
    (s : Receiver M) (hrun : actions.foldlM step (started bufferSize) = some s) :
    ((s.servers 0).loop.receiving = true ∧ s.Delivers 0 ∧
      (s.servers 0).mc.sent = (s.servers 0).mc.received ++ (s.servers 0).mc.queue) ↔
      ∀ a ∈ actions, a.stopsLoop 0 = false := by
  -- the three parts of the invariant: what is sent, that nobody interferes, and which steps were taken
  have hinv := foldlM_inv step (fun es s => s.Ledger ∧ s.Undisturbed ∧
      ((s.servers 0).loop.receiving = true ↔ ∀ a ∈ es, a.stopsLoop 0 = false)) (started bufferSize) actions
    ⟨ledger_started bufferSize, undisturbed_started bufferSize, by simp [started, Loop.receiving]⟩ ?_ s hrun
  · obtain ⟨hle, -, hl⟩ := hinv
    exact ⟨fun h => hl.mp h.1, fun h => ⟨hl.mpr h, hle.delivers 0, (s.servers 0).mc.conserved⟩⟩
  · rintro es a s s' ha ⟨hle, hu, hl⟩ hs
    obtain ⟨hu', hl'⟩ := hu.step (hcalls a ha) hs
    refine ⟨hle.step hs, hu', ?_⟩
    rw [hl' 0, hl, forall_mem_append, forall_mem_singleton]

section Example

def request (h : Nat) (metrics : M) : List (Action M) :=
  [.accept h 0, .handler h (.decode .request), .handler h (.convert (some metrics)), .handler h .send,
    .handler h .respond]

def flushThenRequest (failed : Bool) : List (Action Nat) :=
  .startServer false :: request 0 7 ++ [.loop 0 .receive, .loop 0 (.flushed failed)] ++ request 1 8

theorem flush_failed_stops : ∃ s, (flushThenRequest true).foldlM step (started 1) = some s ∧
    (s.servers 0).loop = .returned ∧ s.handlers 1 = ⟨0, .accepted 8⟩ ∧ (s.servers 0).mc.queue = [⟨1, 8⟩] := by
  have hend : ((flushThenRequest true).foldlM step (started 1)).any (fun s => (s.servers 0).loop = .returned ∧
      s.handlers 1 = ⟨0, .accepted 8⟩ ∧ (s.servers 0).mc.queue = [⟨1, 8⟩]) = true := by decide +kernel
  simpa [Option.any_eq_true] using hend

theorem delivers_two : ∃ s, (flushThenRequest false).foldlM step (started 1) = some s ∧
    (s.servers 0).loop.receiving = true ∧ s.Delivers 0 := by
  obtain ⟨s, hs⟩ := isSome_iff_exists.mp
    (show ((flushThenRequest false).foldlM step (started 1)).isSome from by decide +kernel)
  have h := (delivers_iff 1 (flushThenRequest false) (by decide) s hs).mpr (by decide)
  exact ⟨s, hs, h.1, h.2.1⟩

end Example

end Receiver

end Collector.RemoteWrite
