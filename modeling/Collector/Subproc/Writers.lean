import Collector.Lib.Runs
import Collector.Subproc.Messages

/-!
# What the threads of the Python runner write

`send_msg` writes the three parts of a message while it holds the writer's lock.
-/

namespace Collector.Subproc

open Lib List Option

variable {m : Message} {i : Nat} {parts : List (Option Bytes)}

/-! ## `send_msg` -/

def structPack (n : Nat) : Option Bytes := if n < 2 ^ 31 then some (putUint32 n) else none

def sendMsg (m : Message) : List (Option Bytes) :=
  [structPack m.type, structPack m.payload.length, some m.payload]

inductive Position where
  | idle
  | lock (m : Message)
  | write (parts : List (Option Bytes))
deriving DecidableEq

variable {old : Position}

def Position.message : Position → List Message
  | .lock m => [m]
  | _ => []

structure PipeMessageWriter where
  threads : List Position
  lock : Option Nat
  written : Bytes
  /-- The messages in the order in which `send_msg` got the lock for them. -/
  order : List Message
deriving DecidableEq

variable {s : PipeMessageWriter}

namespace PipeMessageWriter

inductive Action where
  | call (i : Nat) (m : Message)
  | acquire (i : Nat)
  | write (i : Nat)
  | release (i : Nat)
deriving DecidableEq

def initial (n : Nat) : PipeMessageWriter := ⟨List.replicate n .idle, none, [], []⟩

def setThread (s : PipeMessageWriter) (i : Nat) (pos : Position) : PipeMessageWriter :=
  { s with threads := s.threads.set i pos }

def step (s : PipeMessageWriter) : Action → Option PipeMessageWriter
  | .call i m => if s.threads[i]? = some .idle then some (s.setThread i (.lock m)) else none
  | .acquire i =>
    match s.threads[i]?, s.lock with
    | some (.lock m), none =>
      some { s.setThread i (.write (sendMsg m)) with lock := some i, order := s.order ++ [m] }
    | _, _ => none
  | .write i =>
    match s.threads[i]? with
    | some (.write (some part :: parts)) =>
      some { s.setThread i (.write parts) with written := s.written ++ part }
    -- The error leaves the block, which releases the lock.
    | some (.write (none :: _)) => some { s.setThread i .idle with lock := none }
    | _ => none
  | .release i =>
    if s.threads[i]? = some (.write []) then some { s.setThread i .idle with lock := none } else none

def pending (s : PipeMessageWriter) : List (Option Bytes) :=
  match s.lock with
  | none => []
  | some i =>
    match s.threads[i]? with
    | some (.write parts) => parts
    | _ => []

def waiting (s : PipeMessageWriter) : List Message := s.threads.flatMap Position.message

def completed (s : PipeMessageWriter) : List Message :=
  if s.pending.flatMap (·.getD []) = [] then s.order else s.order.dropLast

def called (actions : List Action) : List Message :=
  actions.filterMap fun
    | .call _ m => some m
    | _ => none

end PipeMessageWriter

/-- The type and the length are signed numbers of four bytes. -/
def Message.Small (m : Message) : Prop := m.type < 2 ^ 31 ∧ m.payload.length < 2 ^ 31

theorem Message.Small.fits (h : m.Small) : m.Fits := by
  unfold Small at h
  unfold Fits
  omega

theorem sendMsg_eq (h : m.Small) : sendMsg m = (sendMessage m).map some := by
  unfold sendMsg structPack
  rw [if_pos h.1, if_pos h.2]
  rfl

theorem flatMap_sendMsg (h : m.Small) : (sendMsg m).flatMap (·.getD []) = frame m := by
  simp [sendMsg_eq h, frame, sendMessage]

namespace PipeMessageWriter

/-! ## What is in the pipe -/

structure Inv (actions : List Action) (s : PipeMessageWriter) : Prop where
  small : ∀ m ∈ called actions, m.Small
  called : (called actions).Perm (s.order ++ s.waiting)
  exclusive : ∀ i parts, s.threads[i]? = some (.write parts) → s.lock = some i
  last : s.pending ≠ [] → ∃ m, s.order.getLast? = some m ∧ s.pending <:+ sendMsg m
  stream : s.written ++ s.pending.flatMap (·.getD []) = s.order.flatMap frame

theorem pending_of_write (hl : s.lock = some i) (hi : s.threads[i]? = some (.write parts)) : s.pending = parts := by
  simp [pending, hl, hi]

theorem pending_of_unlocked (hl : s.lock = none) : s.pending = [] := by
  simp [pending, hl]

theorem getElem?_setThread (hi : s.threads[i]? = some old)
    (pos : Position) (j : Nat) : (s.setThread i pos).threads[j]? = if i = j then some pos else s.threads[j]? := by
  have hlt : i < s.threads.length := (List.getElem?_eq_some_iff.mp hi).1
  rw [setThread, getElem?_set]
  simp [hlt]

theorem waiting_setThread (hi : s.threads[i]? = some old)
    (pos : Position) : (old.message ++ (s.setThread i pos).waiting).Perm (pos.message ++ s.waiting) := by
  obtain ⟨hlt, rfl⟩ := List.getElem?_eq_some_iff.mp hi
  have hold : s.waiting = (s.threads.take i).flatMap Position.message ++ (s.threads[i].message ++
      (s.threads.drop (i + 1)).flatMap Position.message) := by
    rw [waiting, ← flatMap_cons, ← flatMap_append, cons_getElem_drop_succ, take_append_drop]
  have hnew : (s.setThread i pos).waiting = (s.threads.take i).flatMap Position.message ++ (pos.message ++
      (s.threads.drop (i + 1)).flatMap Position.message) := by
    rw [waiting, setThread, set_eq_take_append_cons_drop, if_pos hlt, flatMap_append, flatMap_cons]
  apply perm_iff_count.mpr
  intro m
  rw [hold, hnew]
  simp only [count_append]
  omega

theorem inv_initial (n : Nat) : Inv [] (initial n) where
  small := by simp [PipeMessageWriter.called]
  called := by simp [PipeMessageWriter.called, initial, waiting, Position.message]
  exclusive := by simp [initial, getElem?_replicate]
  last := by simp [initial, pending]
  stream := by simp [initial, pending]

variable {actions : List Action} {s s' : PipeMessageWriter} {a : Action}

theorem called_concat (actions : List Action) (a : Action) :
    PipeMessageWriter.called (actions ++ [a]) = PipeMessageWriter.called actions ++ PipeMessageWriter.called [a] :=
  filterMap_append

theorem pending_call (hi : s.threads[i]? = some .idle) (m : Message) :
    (s.setThread i (.lock m)).pending = s.pending := by
  have hl : (s.setThread i (.lock m)).lock = s.lock := rfl
  unfold pending
  rw [hl]
  cases s.lock with
  | none => rfl
  | some j =>
    simp only [getElem?_setThread hi]
    by_cases hij : i = j
    · simp [← hij, hi]
    · simp [hij]

section

variable (h : Inv actions s)
include h

theorem Inv.step_call (hm : m.Small) (hs : s.step (.call i m) = some s') : Inv (actions ++ [.call i m]) s' := by
  simp only [step, ite_some_none_eq_some] at hs
  obtain ⟨hi, rfl⟩ := hs
  have hp := pending_call hi m
  have hw := waiting_setThread hi (.lock m)
  refine ⟨?_, ?_, ?_, ?_, ?_⟩
  · rw [called_concat]
    simpa [PipeMessageWriter.called, hm, or_imp, forall_and] using h.small
  · rw [called_concat]
    apply perm_iff_count.mpr
    intro a
    have hca := h.called.count_eq a
    have hc := hw.count_eq a
    simp only [PipeMessageWriter.called, filterMap_cons, filterMap_nil, count_append, Position.message,
      nil_append] at hca hc ⊢
    simp only [setThread] at hc ⊢
    omega
  · intro j parts hj
    rw [getElem?_setThread hi] at hj
    split at hj
    · cases hj
    · exact h.exclusive j parts hj
  · rw [hp]
    exact h.last
  · rw [hp]
    exact h.stream

theorem Inv.step_acquire (hs : s.step (.acquire i) = some s') : Inv (actions ++ [.acquire i]) s' := by
  simp only [step] at hs
  split at hs
  · rename_i m hi hlo
    cases hs
    have hw := waiting_setThread hi (.write (sendMsg m))
    have hwr : s.written = s.order.flatMap frame := by
      simpa [pending_of_unlocked hlo] using h.stream
    have hmem : m ∈ PipeMessageWriter.called actions := by
      apply h.called.mem_iff.mpr
      apply mem_append_right
      exact mem_flatMap.mpr ⟨_, mem_of_getElem? hi, by simp [Position.message]⟩
    have hp : pending { s.setThread i (.write (sendMsg m)) with lock := some i, order := s.order ++ [m] } =
        sendMsg m := by
      apply pending_of_write rfl
      exact (getElem?_setThread hi _ i).trans (if_pos rfl)
    refine ⟨?_, ?_, ?_, ?_, ?_⟩
    · rw [called_concat]
      simpa [PipeMessageWriter.called] using h.small
    · rw [called_concat]
      apply perm_iff_count.mpr
      intro a
      have hc := h.called.count_eq a
      have hco := hw.count_eq a
      simp only [PipeMessageWriter.called, filterMap_cons, filterMap_nil, count_append, Position.message,
        nil_append, append_nil, setThread, waiting] at hc hco ⊢
      omega
    · intro j parts hj
      have hj := (getElem?_setThread hi _ j).symm.trans hj
      split_ifs at hj with hij
      · rw [← hij]
      · have hl := h.exclusive j parts hj
        rw [hlo] at hl
        cases hl
    · intro _
      refine ⟨m, by simp, ?_⟩
      rw [hp]
    · rw [hp, flatMap_sendMsg (h.small m hmem)]
      simp [setThread, hwr]
  · cases hs

theorem Inv.pending_eq_some : none ∉ s.pending := by
  intro hn
  obtain ⟨m, hl, hs⟩ := h.last (ne_nil_of_mem hn)
  have hmem : m ∈ PipeMessageWriter.called actions :=
    h.called.mem_iff.mpr (mem_append_left _ (mem_of_getLast? hl))
  have hp := hs.subset hn
  simp [sendMsg_eq (h.small m hmem)] at hp

theorem Inv.called_setThread (ha : PipeMessageWriter.called [a] = []) (hi : s.threads[i]? = some (.write parts))
    {pos : Position}
    (hpos : pos.message = []) :
    (PipeMessageWriter.called (actions ++ [a])).Perm (s.order ++ (s.setThread i pos).waiting) := by
  have hw := waiting_setThread hi pos
  rw [hpos] at hw
  rw [called_concat, ha, append_nil]
  exact h.called.trans (hw.symm.append_left s.order)

theorem Inv.step_write (hs : s.step (.write i) = some s') : Inv (actions ++ [.write i]) s' := by
  simp only [step] at hs
  split at hs
  · rename_i part parts hi
    cases hs
    have hl := h.exclusive i _ hi
    have hp := pending_of_write hl hi
    have hp' : pending { s.setThread i (.write parts) with written := s.written ++ part } = parts := by
      apply pending_of_write
      · exact hl
      · exact (getElem?_setThread hi _ i).trans (if_pos rfl)
    refine ⟨?_, ?_, ?_, ?_, ?_⟩
    · rw [called_concat]
      simpa [PipeMessageWriter.called] using h.small
    · exact h.called_setThread (a := .write i) rfl hi rfl
    · intro j parts' hj
      have hj := (getElem?_setThread hi _ j).symm.trans hj
      split_ifs at hj with hij
      · exact hij ▸ hl
      · exact h.exclusive j parts' hj
    · intro _
      obtain ⟨m, hla, hsu⟩ := h.last (by simp [hp])
      refine ⟨m, hla, ?_⟩
      rw [hp] at hsu
      rw [hp']
      exact (suffix_cons _ _).trans hsu
    · have hst := h.stream
      rw [hp] at hst
      rw [hp']
      simpa [setThread] using hst
  · rename_i parts hi
    have hp := pending_of_write (h.exclusive i _ hi) hi
    have hso := h.pending_eq_some
    simp [hp] at hso
  · cases hs

theorem Inv.step_release (hst : s.step (.release i) = some s') : Inv (actions ++ [.release i]) s' := by
  simp only [step, ite_some_none_eq_some] at hst
  obtain ⟨hi, rfl⟩ := hst
  have hl := h.exclusive i _ hi
  refine ⟨?_, ?_, ?_, ?_, ?_⟩
  · rw [called_concat]
    simpa [PipeMessageWriter.called] using h.small
  · exact h.called_setThread (a := .release i) rfl hi rfl
  · intro j parts' hj
    have hj := (getElem?_setThread hi _ j).symm.trans hj
    split_ifs at hj with hij
    · cases hj
    · have hl' := h.exclusive j parts' hj
      rw [hl] at hl'
      cases hl'
      exact absurd rfl hij
  · simp [pending]
  · have hs := h.stream
    rw [pending_of_write hl hi] at hs
    simpa [pending, setThread] using hs

theorem Inv.step (ha : ∀ i m, a = .call i m → m.Small) (hs : s.step a = some s') : Inv (actions ++ [a]) s' := by
  cases a with
  | call i m => exact h.step_call (ha i m rfl) hs
  | acquire i => exact h.step_acquire hs
  | write i => exact h.step_write hs
  | release i => exact h.step_release hs

end

theorem inv_run {n : Nat} (hc : ∀ m ∈ PipeMessageWriter.called actions, m.Small)
    (hrun : actions.foldlM PipeMessageWriter.step (initial n) = some s) : Inv actions s := by
  apply foldlM_inv PipeMessageWriter.step Inv (initial n) actions (inv_initial n) _ s hrun
  intro es a t t' ha hinv hs
  apply hinv.step _ hs
  rintro i m rfl
  exact hc m (mem_filterMap.mpr ⟨_, ha, rfl⟩)

end PipeMessageWriter

/-! ## What the agent receives -/

/-- One call of `RecvMessage` with its payload read to the end. A call that finds too few bytes waits for them. -/
def receive (m : MessageReadWriter) : Option (Message × MessageReadWriter) :=
  match recvMessage m with
  | .error _ => none
  | .ok (msgType, m) =>
    let (payload, m') := readAllPayload m
    if m'.lastPayloadReader = 0 then some (⟨msgType, payload⟩, m') else none

def receiveAll : Nat → MessageReadWriter → List Message
  | 0, _ => []
  | n + 1, m =>
    match receive m with
    | none => []
    | some (msg, m') => msg :: receiveAll n m'

def Incomplete (front : Bytes) : Prop := ∃ m : Message, m.Fits ∧ front <+: frame m ∧ front ≠ frame m

variable {reader : Pipe UInt8}

theorem receive_frame (hm : m.Fits) {rest : Bytes} (h : reader.bytes = frame m ++ rest) :
    ∃ reader', receive ⟨reader, 0⟩ = some (m, ⟨reader', 0⟩) ∧ reader'.bytes = rest := by
  rw [frame_eq, append_assoc, append_assoc] at h
  obtain ⟨hr, hb⟩ := recvMessage_frame hm h
  refine ⟨((reader.skip 8).readUpTo m.payload.length).2, ?_, by simp [hb]⟩
  simp [receive, hr, readAllPayload, hb]

theorem receive_incomplete (h : Incomplete reader.bytes) : receive ⟨reader, 0⟩ = none := by
  obtain ⟨m, hm, ⟨missing, ha⟩, hne⟩ := h
  by_cases hlen : reader.bytes.length < 8
  · obtain ⟨e, he⟩ := recvMessage_short hlen
    simp [receive, he]
  · rw [frame_eq, ← append_assoc] at ha
    have hh : putUint32 m.type ++ putUint32 m.payload.length <+: reader.bytes := by
      apply prefix_of_prefix_length_le (prefix_append _ m.payload) ⟨missing, ha⟩
      simp only [length_append, length_putUint32]
      omega
    obtain ⟨got, hgot⟩ := hh
    rw [← hgot, append_assoc] at ha
    have hp : got ++ missing = m.payload := append_cancel_left ha
    have hmi : missing ≠ [] := by
      rintro rfl
      apply hne
      rw [frame_eq, ← hgot, ← hp]
      simp
    have hs : got.length < m.payload.length := by
      rw [← hp, length_append]
      have := length_pos_iff.mpr hmi
      omega
    rw [append_assoc] at hgot
    obtain ⟨hr, hb⟩ := recvMessage_frame hm hgot.symm
    have hl : m.payload.length - got.length ≠ 0 := by omega
    simp [receive, hr, readAllPayload, hb, take_of_length_le (Nat.le_of_lt hs), hl]

theorem receiveAll_eq {ms : List Message} (hms : ∀ m ∈ ms, m.Fits) {front : Bytes} (hf : Incomplete front)
    (h : reader.bytes = ms.flatMap frame ++ front) (n : Nat) :
    receiveAll n ⟨reader, 0⟩ = ms.take n := by
  induction ms generalizing n reader with
  | nil =>
    cases n with
    | zero => rfl
    | succ n =>
      have hf' : Incomplete reader.bytes := by simpa [h] using hf
      simp [receiveAll, receive_incomplete hf']
  | cons m ms ih =>
    cases n with
    | zero => rfl
    | succ n =>
      rw [forall_mem_cons] at hms
      rw [flatMap_cons, append_assoc] at h
      obtain ⟨reader', hr, hb⟩ := receive_frame hms.1 h
      simp [receiveAll, hr, ih hms.2 hb n]

namespace PipeMessageWriter

variable {actions : List Action} {s : PipeMessageWriter}

theorem Inv.written_eq (h : Inv actions s) :
    ∃ front, Incomplete front ∧ s.written = s.completed.flatMap frame ++ front := by
  have hs := h.stream
  unfold completed
  split_ifs with hp
  · refine ⟨[], ⟨⟨0, []⟩, by simp [Message.Fits], by simp, by decide⟩, ?_⟩
    simpa [hp] using hs
  · obtain ⟨m, hl, front, hpa⟩ := h.last (by rintro heq; simp [heq] at hp)
    have hmem : m ∈ PipeMessageWriter.called actions :=
      h.called.mem_iff.mpr (mem_append_left _ (mem_of_getLast? hl))
    have hsm := h.small m hmem
    have hf := flatMap_sendMsg hsm
    rw [← hpa, flatMap_append] at hf
    have ho : s.order = s.order.dropLast ++ [m] := (dropLast_append_getLast? m hl).symm
    refine ⟨front.flatMap (·.getD []), ⟨m, hsm.fits, ⟨_, hf⟩, ?_⟩, ?_⟩
    · intro heq
      rw [← hf, self_eq_append_right] at heq
      exact hp heq
    · rw [ho, flatMap_append, flatMap_singleton, ← hf, ← append_assoc] at hs
      simpa using append_cancel_right hs

/-- The calls of the agent return the messages in the order of the lock, up to one that is not yet written. -/
theorem receiveAll_eq_completed (n : Nat) (actions : List Action) (s : PipeMessageWriter)
    (hcalls : ∀ m ∈ PipeMessageWriter.called actions, m.Small)
    (hrun : actions.foldlM PipeMessageWriter.step (initial n) = some s) (reader : Pipe UInt8)
    (hreader : reader.bytes = s.written) :
    (∀ k, receiveAll k ⟨reader, 0⟩ = s.completed.take k) ∧ s.completed <+: s.order ∧
      (s.lock = none → s.completed = s.order) ∧ (PipeMessageWriter.called actions).Perm (s.order ++ s.waiting) := by
  have hinv := inv_run hcalls hrun
  obtain ⟨front, hf, hw⟩ := hinv.written_eq
  have ho : s.completed <+: s.order := by
    unfold completed
    split
    · exact prefix_rfl
    · exact dropLast_prefix _
  refine ⟨fun k => ?_, ho, fun hl => ?_, hinv.called⟩
  · apply receiveAll_eq _ hf (hreader.trans hw)
    intro m hm
    have hmem : m ∈ PipeMessageWriter.called actions :=
      hinv.called.mem_iff.mpr (mem_append_left _ (ho.subset hm))
    exact (hcalls m hmem).fits
  · simp [completed, pending_of_unlocked hl]

def twoThreads : List Action :=
  [.call 0 ⟨200, [91, 93]⟩, .call 1 ⟨4, [123, 125]⟩, .acquire 1, .write 1, .write 1, .write 1, .release 1, .acquire 0,
    .write 0, .write 0]

def twoThreadsReader : Pipe UInt8 where
  chunks := [[0, 0, 0], [4, 0, 0, 0, 2, 123], [125, 0, 0, 0, 200, 0, 0, 0, 2]]
  nonempty := by decide

theorem receiveAll_twoThreads : ∃ s, twoThreads.foldlM PipeMessageWriter.step (initial 2) = some s ∧
    twoThreadsReader.bytes = s.written ∧ receiveAll 5 ⟨twoThreadsReader, 0⟩ = [⟨4, [123, 125]⟩] := by
  have hend : (twoThreads.foldlM PipeMessageWriter.step (initial 2)).any (fun s =>
      twoThreadsReader.bytes = s.written ∧ s.completed.take 5 = [⟨4, [123, 125]⟩]) = true := by
    decide +kernel
  obtain ⟨s, hrun, h⟩ := (any_eq_true _ _).mp hend
  obtain ⟨hr, hc⟩ := of_decide_eq_true h
  have hca : ∀ m ∈ PipeMessageWriter.called twoThreads, m.Small := by
    simp [PipeMessageWriter.called, twoThreads, Message.Small]
  have hre := (receiveAll_eq_completed 2 twoThreads s hca hrun twoThreadsReader hr).1 5
  exact ⟨s, hrun, hr, hre.trans hc⟩

end PipeMessageWriter

end Collector.Subproc
