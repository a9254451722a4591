import Collector.Lib.Runs
import Collector.Value

/-!
# Configuring a monitor in its subprocess

`ConfigureInSubproc` waits once on a condition that two goroutines broadcast: the one that configures the subprocess,
and the one that runs it. Each position is named after the operation that comes next.
-/

namespace Collector.Subproc

open Lib List Option

variable {i : Nat}

/-! ## The goroutines -/

inductive ConfigError where
  | marshal
  | sendMessage
  | recvMessage
  | decode
  | reported (text : Str)
  | unexpected (code : Nat)
deriving DecidableEq

/-- What one round of `waitForConfigure` gets. A result that cannot be decoded is `none`. -/
inductive Received where
  | failed
  | configureResult (result : Option (Option Str))
  | log
  | other (code : Nat)
deriving DecidableEq

inductive Caller where
  | marshal
  | lock
  | spawn
  /-- `Wait` adds the caller to the list of the condition. -/
  | register
  /-- `Wait` unlocks. The caller may have been notified already. -/
  | unlock (notified : Bool)
  | asleep
  | relock
  | result
  | returned (err : Option ConfigError)
deriving DecidableEq

inductive Configurer where
  | lock
  | sendMessage
  | recvMessage
  | store (err : Option ConfigError)
  | unlock
  | broadcast
  | check
  | shutdown
  | processMessages
  | returned
deriving DecidableEq

variable {c c' : Configurer}

inductive RunLoop where
  | idle
  | makePipes
  | spawn
  | run
  | broadcast
  | closePipes
  | check
  | sleep
  | returned
deriving DecidableEq

inductive Holder where
  | caller
  | configurer (i : Nat)
deriving DecidableEq

structure MonitorCore where
  caller : Caller
  loop : RunLoop
  configurers : List Configurer
  lock : Option Holder
  configResult : Option ConfigError
  shutdownCalled : Bool
  configured : Bool
deriving DecidableEq

namespace MonitorCore

inductive Action where
  | marshal (ok : Bool)
  | caller
  | makePipes (ok : Bool)
  | runReturns
  | loop
  | send (i : Nat) (ok : Bool)
  | receive (i : Nat) (received : Received)
  | configurer (i : Nat)
  | shutdown
deriving DecidableEq

def initial : MonitorCore := ⟨.marshal, .idle, [], none, none, false, false⟩

def broadcast (mc : MonitorCore) : MonitorCore :=
  match mc.caller with
  | .unlock _ => { mc with caller := .unlock true }
  | .asleep => { mc with caller := .relock }
  | _ => mc

def stepCaller (mc : MonitorCore) : Option MonitorCore :=
  match mc.caller with
  | .lock => if mc.lock = none then some { mc with caller := .spawn, lock := some .caller } else none
  | .spawn => some { mc with caller := .register, loop := .makePipes }
  | .register => some { mc with caller := .unlock false }
  | .unlock notified => some { mc with caller := if notified then .relock else .asleep, lock := none }
  | .relock => if mc.lock = none then some { mc with caller := .result, lock := some .caller } else none
  | .result => some { mc with caller := .returned mc.configResult, lock := none }
  | .marshal | .asleep | .returned _ => none

def stepLoop (mc : MonitorCore) : Option MonitorCore :=
  match mc.loop with
  | .spawn => some { mc with loop := .run, configurers := mc.configurers ++ [.lock] }
  | .broadcast => some { mc.broadcast with loop := .closePipes }
  | .closePipes => some { mc with loop := .check }
  | .check => some { mc with loop := if mc.shutdownCalled then .returned else .sleep }
  | .sleep => some { mc with loop := .makePipes }
  | .idle | .makePipes | .run | .returned => none

def setConfigurer (mc : MonitorCore) (i : Nat) (pos : Configurer) : MonitorCore :=
  { mc with configurers := mc.configurers.set i pos }

def stepConfigurer (mc : MonitorCore) (i : Nat) : Option MonitorCore :=
  match mc.configurers[i]? with
  | some .lock =>
    if mc.lock = none then some { mc.setConfigurer i .sendMessage with lock := some (.configurer i) } else none
  | some (.store err) => some { mc.setConfigurer i .unlock with configResult := err }
  | some .unlock => some { mc.setConfigurer i .broadcast with lock := none }
  | some .broadcast => some (mc.broadcast.setConfigurer i .check)
  | some .check => some (mc.setConfigurer i (if mc.configResult = none then .processMessages else .shutdown))
  | some .shutdown => some { mc.setConfigurer i .returned with shutdownCalled := true }
  | some .processMessages => some (mc.setConfigurer i .returned)
  | _ => none

def receive (mc : MonitorCore) (i : Nat) : Received → MonitorCore
  | .failed => mc.setConfigurer i (.store (some .recvMessage))
  | .configureResult none => mc.setConfigurer i (.store (some .decode))
  | .configureResult (some (some text)) => mc.setConfigurer i (.store (some (.reported text)))
  | .configureResult (some none) => { mc.setConfigurer i (.store none) with configured := true }
  | .log => mc
  | .other code => mc.setConfigurer i (.store (some (.unexpected code)))

def step (mc : MonitorCore) : Action → Option MonitorCore
  | .marshal ok =>
    if mc.caller = .marshal then some { mc with caller := if ok then .lock else .returned (some .marshal) } else none
  | .caller => mc.stepCaller
  | .makePipes ok =>
    if mc.loop = .makePipes then some { mc with loop := if ok then .spawn else .returned } else none
  | .runReturns => if mc.loop = .run then some { mc with loop := .broadcast } else none
  | .loop => mc.stepLoop
  | .send i ok =>
    if mc.configurers[i]? = some .sendMessage then
      some (mc.setConfigurer i (if ok then .recvMessage else .store (some .sendMessage)))
    else none
  | .receive i received =>
    if mc.configurers[i]? = some .recvMessage then some (mc.receive i received) else none
  | .configurer i => mc.stepConfigurer i
  | .shutdown => some { mc with shutdownCalled := true }

end MonitorCore

/-! ## Who has been in the critical section -/

def Configurer.busy : Configurer → Bool
  | .sendMessage | .recvMessage | .store _ => true
  | _ => false

def Configurer.holds : Configurer → Bool
  | .unlock => true
  | c => c.busy

def Configurer.out : Configurer → Bool
  | .broadcast | .check | .shutdown | .processMessages | .returned => true
  | _ => false

def Caller.holds : Caller → Bool
  | .spawn | .register | .unlock _ | .result => true
  | _ => false

def Caller.waits : Caller → Bool
  | .unlock _ | .asleep => true
  | _ => false

def Caller.notified : Caller → Bool
  | .unlock true | .relock | .result => true
  | _ => false

namespace MonitorCore

def Entered (mc : MonitorCore) : Prop := ∃ (i : Nat) (c : Configurer), mc.configurers[i]? = some c ∧ c ≠ .lock

theorem entered_iff (mc : MonitorCore) : mc.Entered ↔ ∃ c ∈ mc.configurers, c ≠ .lock := by
  constructor
  · rintro ⟨i, c, hi, hc⟩
    exact ⟨c, mem_of_getElem? hi, hc⟩
  · rintro ⟨c, hmem, hc⟩
    obtain ⟨i, hi⟩ := mem_iff_getElem?.mp hmem
    exact ⟨i, c, hi, hc⟩

instance (mc : MonitorCore) : Decidable mc.Entered := decidable_of_iff _ mc.entered_iff.symm

structure Inv (mc : MonitorCore) : Prop where
  configurerHolds : ∀ (i : Nat) (c : Configurer), mc.configurers[i]? = some c → c.holds = true →
    mc.lock = some (.configurer i)
  callerHolds : mc.caller.holds = true → mc.lock = some .caller
  received : ∀ i : Nat, mc.configurers[i]? = some (.store none) → mc.configured = true
  stored : mc.Entered → (∀ (i : Nat) (c : Configurer), mc.configurers[i]? = some c → c.busy = false) →
    mc.configResult = none → mc.configured = true
  notified : mc.caller.notified = true → mc.Entered
  returned : mc.caller = .returned none → mc.configured = true

theorem inv_initial : Inv initial where
  configurerHolds := by simp [initial]
  callerHolds := by simp [initial, Caller.holds]
  received := by simp [initial]
  stored := by simp [initial, Entered]
  notified := by simp [initial, Caller.notified]
  returned := by simp [initial]

variable {mc mc' : MonitorCore}

theorem holds_of_busy (h : c.busy = true) : c.holds = true := by
  unfold Configurer.holds
  split <;> simp_all

theorem configurers_broadcast (mc : MonitorCore) : mc.broadcast.configurers = mc.configurers := by
  unfold MonitorCore.broadcast
  split <;> rfl

/-- An exit is broadcast to the caller only after some goroutine has got the lock. -/
def BroadcastsLate (mc : MonitorCore) (a : Action) : Prop :=
  a = .loop → mc.loop = .broadcast → mc.caller.waits = true → mc.Entered

instance (mc : MonitorCore) (a : Action) : Decidable (BroadcastsLate mc a) :=
  inferInstanceAs (Decidable (a = .loop → mc.loop = .broadcast → mc.caller.waits = true → mc.Entered))

section
variable {lock : Option Holder} {result : Option ConfigError} {shutdownCalled configured : Bool} (h : Inv mc)
include h

/-- Configurer `i` goes from `c` to `c'`, whatever else it writes. -/
theorem Inv.set (hi : mc.configurers[i]? = some c) (hne : c' ≠ .lock)
    (hl : lock = mc.lock ∨ mc.lock = none ∨ mc.lock = some (.configurer i))
    (hh : c'.holds = true → lock = some (.configurer i)) (hr : c' = .store none → configured = true)
    (hco : mc.configured = true → configured = true)
    (hs : c'.busy = false → result = none → configured = true ∨ c ≠ .lock ∧ c.busy = false ∧ mc.configResult = none) :
    Inv ⟨mc.caller, mc.loop, mc.configurers.set i c', lock, result, shutdownCalled, configured⟩ := by
  have hget (j : Nat) : (mc.configurers.set i c')[j]? = if i = j then some c' else mc.configurers[j]? := by
    rw [List.getElem?_set, if_pos (List.getElem?_eq_some_iff.mp hi).1]
  refine ⟨?_, ?_, ?_, ?_, fun _ => ⟨i, c', by simp [hget], hne⟩, fun hre => hco (h.returned hre)⟩
  · intro j d hj hd
    rw [hget] at hj
    split_ifs at hj with hij
    · cases hj
      rw [hh hd, hij]
    · have hlo := h.configurerHolds j d hj hd
      rcases hl with hl | hl | hl <;> simp_all
  · intro hd
    have hlo := h.callerHolds hd
    rcases hl with hl | hl | hl <;> simp_all
  · intro j hj
    rw [hget] at hj
    split at hj
    · exact hr (some.inj hj)
    · exact hco (h.received j hj)
  · intro _ hall hn
    rcases hs (hall i c' (by simp [hget])) hn with hd | ⟨hc, hb, hold⟩
    · exact hd
    · refine hco (h.stored ⟨i, c, hi, hc⟩ (fun j d hj => ?_) hold)
      by_cases hij : i = j
      · subst hij
        cases hi.symm.trans hj
        exact hb
      · exact hall j d (by simp [hget, hij, hj])

theorem Inv.set_busy (hi : mc.configurers[i]? = some c) (hb : c.busy = true) (hb' : c'.busy = true)
    (hr : c' = .store none → configured = true) (hco : mc.configured = true → configured = true) :
    Inv ⟨mc.caller, mc.loop, mc.configurers.set i c', mc.lock, mc.configResult, mc.shutdownCalled, configured⟩ := by
  have hl := h.configurerHolds i c hi (holds_of_busy hb)
  refine h.set hi ?_ (.inl rfl) (fun _ => hl) hr hco (by simp [hb'])
  rintro rfl
  cases hb'

theorem Inv.set_out (hi : mc.configurers[i]? = some c) (hc : c.out = true) (hc' : c'.out = true) :
    Inv ⟨mc.caller, mc.loop, mc.configurers.set i c', mc.lock, mc.configResult, shutdownCalled, mc.configured⟩ := by
  refine h.set hi ?_ (.inl rfl) ?_ ?_ id fun _ hn => .inr ⟨?_, ?_, hn⟩
  · rintro rfl
    cases hc'
  · cases c' <;> simp_all [Configurer.out, Configurer.holds, Configurer.busy]
  · rintro rfl
    cases hc'
  · rintro rfl
    cases hc
  · cases c <;> simp_all [Configurer.out, Configurer.busy]

theorem Inv.set_caller {pos : Caller} {loop : RunLoop}
    (hl : mc.lock = none ∨ mc.lock = some .caller ∨ lock = mc.lock) (hh : pos.holds = true → lock = some .caller)
    (hn : pos.notified = true → mc.Entered) (hr : pos = .returned none → mc.configured = true) :
    Inv ⟨pos, loop, mc.configurers, lock, mc.configResult, mc.shutdownCalled, mc.configured⟩ := by
  refine { h with configurerHolds := ?_, callerHolds := hh, notified := hn, returned := hr }
  intro i c hi hc
  have hlo := h.configurerHolds i c hi hc
  rcases hl with hl | hl | hl <;> simp_all

theorem Inv.not_busy (hc : mc.caller.holds = true) :
    ∀ (i : Nat) (c : Configurer), mc.configurers[i]? = some c → c.busy = false := by
  intro i c hi
  cases hb : c.busy with
  | false => rfl
  | true =>
    have hl := h.configurerHolds i c hi (holds_of_busy hb)
    rw [h.callerHolds hc] at hl
    cases hl

theorem Inv.stepCaller (hs : mc.stepCaller = some mc') : Inv mc' := by
  have hl := h.callerHolds
  have he := h.notified
  have hb := h.not_busy
  unfold MonitorCore.stepCaller at hs
  generalize mc.caller = pos at hs hl he hb
  cases pos with
  | lock =>
    obtain ⟨hf, rfl⟩ := ite_some_none_eq_some.mp hs
    exact h.set_caller (.inl hf) (by simp) (by simp [Caller.notified]) (by simp)
  | spawn | register =>
    cases hs
    exact h.set_caller (.inr (.inl (hl rfl))) (by simp [hl rfl]) (by simp [Caller.notified]) (by simp)
  | unlock notified =>
    cases hs
    refine h.set_caller (.inr (.inl (hl rfl))) ?_ ?_ ?_
    · cases notified <;> simp [Caller.holds]
    · cases notified with
      | true => exact fun _ => he rfl
      | false => simp [Caller.notified]
    · cases notified <;> simp
  | relock =>
    obtain ⟨hf, rfl⟩ := ite_some_none_eq_some.mp hs
    exact h.set_caller (.inl hf) (by simp) (fun _ => he rfl) (by simp)
  | result =>
    cases hs
    refine h.set_caller (.inr (.inl (hl rfl))) (by simp [Caller.holds]) (by simp [Caller.notified]) ?_
    intro hr
    exact h.stored (he rfl) (hb rfl) (by simpa using hr)
  | marshal | asleep | returned _ => cases hs

theorem Inv.broadcast (he : mc.caller.waits = true → mc.Entered) : Inv mc.broadcast := by
  unfold MonitorCore.broadcast
  split
  · rename_i notified hc
    have hl := h.callerHolds (by simp [hc, Caller.holds])
    have hn := he (by simp [hc, Caller.waits])
    exact h.set_caller (.inr (.inl hl)) (by simp [hl]) (fun _ => hn) (by simp)
  · rename_i hc
    have hn := he (by simp [hc, Caller.waits])
    exact h.set_caller (.inr (.inr rfl)) (by simp [Caller.holds]) (fun _ => hn) (by simp)
  · exact h

theorem Inv.loop (loop : RunLoop) : Inv { mc with loop := loop } := { h with }

theorem Inv.shutdown : Inv { mc with shutdownCalled := true } := { h with }

theorem Inv.spawn : Inv { mc with configurers := mc.configurers ++ [.lock] } := by
  have hget (i : Nat) (c : Configurer) (hi : (mc.configurers ++ [.lock])[i]? = some c) :
      mc.configurers[i]? = some c ∨ c = .lock := by
    rw [List.getElem?_append] at hi
    split at hi
    · exact .inl hi
    · right
      simpa using (List.mem_of_getElem? hi)
  have hold (i : Nat) (c : Configurer) (hi : mc.configurers[i]? = some c) :
      (mc.configurers ++ [.lock])[i]? = some c := by
    rw [List.getElem?_append_left (List.getElem?_eq_some_iff.mp hi).1, hi]
  refine ⟨?_, h.callerHolds, ?_, ?_, ?_, h.returned⟩
  · intro i c hi hc
    rcases hget i c hi with hi | rfl
    · exact h.configurerHolds i c hi hc
    · simp [Configurer.holds, Configurer.busy] at hc
  · intro i hi
    rcases hget i _ hi with hi | heq
    · exact h.received i hi
    · cases heq
  · rintro ⟨i, c, hi, hc⟩ hb hno
    rcases hget i c hi with hi | rfl
    · exact h.stored ⟨i, c, hi, hc⟩ (fun j d hj => hb j d (hold j d hj)) hno
    · exact absurd rfl hc
  · intro hn
    obtain ⟨i, c, hi, hc⟩ := h.notified hn
    exact ⟨i, c, hold i c hi, hc⟩

/-! ## Steps -/

theorem Inv.stepLoop (hla : BroadcastsLate mc .loop) (hs : mc.stepLoop = some mc') : Inv mc' := by
  unfold MonitorCore.stepLoop at hs
  generalize hl : mc.loop = pos at hs
  cases pos with
  | spawn =>
    cases hs
    exact h.spawn.loop _
  | broadcast =>
    cases hs
    exact (h.broadcast (hla rfl hl)).loop _
  | closePipes | check | sleep =>
    cases hs
    exact h.loop _
  | idle | makePipes | run | returned => cases hs

theorem Inv.stepConfigurer (hs : mc.stepConfigurer i = some mc') : Inv mc' := by
  unfold MonitorCore.stepConfigurer at hs
  split at hs
  · rename_i hi
    obtain ⟨hl, rfl⟩ := ite_some_none_eq_some.mp hs
    exact h.set hi (by simp) (.inr (.inl hl)) (fun _ => rfl) (by simp) id (by simp [Configurer.busy])
  · rename_i err hi
    cases hs
    have hl := h.configurerHolds i _ hi rfl
    refine h.set hi (by simp) (.inl rfl) (fun _ => hl) (by simp) id ?_
    rintro - rfl
    exact .inl (h.received i hi)
  · rename_i hi
    cases hs
    have hl := h.configurerHolds i _ hi rfl
    exact h.set hi (by simp) (.inr (.inr hl)) (by simp [Configurer.holds, Configurer.busy]) (by simp) id
      fun _ hn => .inr ⟨by simp, rfl, hn⟩
  · rename_i hi
    cases hs
    have hb := h.broadcast fun _ => ⟨i, _, hi, by simp⟩
    rw [← mc.configurers_broadcast] at hi
    exact hb.set_out hi rfl rfl
  · rename_i hi
    cases hs
    refine h.set_out hi rfl ?_
    split <;> rfl
  · rename_i hi
    cases hs
    exact h.set_out hi rfl rfl
  · rename_i hi
    cases hs
    exact h.set_out hi rfl rfl
  · cases hs

theorem Inv.receive (hi : mc.configurers[i]? = some .recvMessage) (received : Received) :
    Inv (mc.receive i received) := by
  unfold MonitorCore.receive
  split
  · exact h.set_busy hi rfl rfl (by simp) id
  · exact h.set_busy hi rfl rfl (by simp) id
  · exact h.set_busy hi rfl rfl (by simp) id
  · exact h.set_busy hi rfl rfl (fun _ => rfl) (fun _ => rfl)
  · exact h
  · exact h.set_busy hi rfl rfl (by simp) id

theorem Inv.step {a : Action} (hla : BroadcastsLate mc a) (hs : mc.step a = some mc') : Inv mc' := by
  unfold MonitorCore.step at hs
  cases a with
  | marshal ok =>
    obtain ⟨hc, rfl⟩ := ite_some_none_eq_some.mp hs
    refine h.set_caller (.inr (.inr rfl)) ?_ ?_ ?_
    · cases ok <;> simp [Caller.holds]
    · cases ok <;> simp [Caller.notified]
    · cases ok <;> simp
  | caller => exact h.stepCaller hs
  | makePipes ok =>
    obtain ⟨-, rfl⟩ := ite_some_none_eq_some.mp hs
    exact h.loop _
  | runReturns =>
    obtain ⟨-, rfl⟩ := ite_some_none_eq_some.mp hs
    exact h.loop _
  | loop => exact h.stepLoop hla hs
  | send i ok =>
    obtain ⟨hi, rfl⟩ := ite_some_none_eq_some.mp hs
    cases ok <;> exact h.set_busy hi rfl rfl (by simp) id
  | receive i received =>
    obtain ⟨hi, rfl⟩ := ite_some_none_eq_some.mp hs
    exact h.receive hi received
  | configurer i => exact h.stepConfigurer hs
  | shutdown =>
    cases hs
    exact h.shutdown

end

theorem configured_of_broadcastsLate (actions : List Action) (mc : MonitorCore)
    (hlate : GoodRun MonitorCore.step BroadcastsLate initial actions)
    (hrun : actions.foldlM MonitorCore.step initial = some mc) (hreturned : mc.caller = .returned none) :
    mc.configured = true := by
  have hinv := hlate.inv (fun _ _ _ h hok hs => Inv.step h hok hs) inv_initial hrun
  exact hinv.returned hreturned

def configuresFirst : List Action :=
  [.marshal true, .caller, .caller, .caller, .makePipes true, .loop, .caller, .configurer 0, .send 0 true,
    .receive 0 .log, .receive 0 (.configureResult (some none)), .configurer 0, .configurer 0, .runReturns, .loop,
    .configurer 0, .caller, .caller]

theorem configured_configuresFirst : ∃ mc, configuresFirst.foldlM MonitorCore.step initial = some mc ∧
    mc.caller = .returned none ∧ mc.configured = true := by
  have hend : (configuresFirst.foldlM MonitorCore.step initial).any (fun mc => mc.caller = .returned none) = true := by
    decide +kernel
  obtain ⟨mc, hrun, h⟩ := (any_eq_true _ _).mp hend
  have hr := of_decide_eq_true h
  have hl : GoodRun MonitorCore.step BroadcastsLate initial configuresFirst := by decide +kernel
  exact ⟨mc, hrun, hr, configured_of_broadcastsLate configuresFirst mc hl hrun hr⟩

/-! ## A broadcast that comes too early -/

/-- The caller wakes up before the other goroutine gets the lock. -/
def startFails : List Action :=
  [.marshal true, .caller, .caller, .caller, .caller, .makePipes true, .loop, .runReturns, .loop, .caller, .caller]

theorem not_configured_startFails : ∃ mc, startFails.foldlM MonitorCore.step initial = some mc ∧
    mc.caller = .returned none ∧ mc.configured = false := by
  have hend : (startFails.foldlM MonitorCore.step initial).any (fun mc => mc.caller = .returned none ∧
      mc.configured = false) = true := by
    decide +kernel
  obtain ⟨mc, hrun, h⟩ := (any_eq_true _ _).mp hend
  exact ⟨mc, hrun, of_decide_eq_true h⟩

end MonitorCore

end Collector.Subproc
