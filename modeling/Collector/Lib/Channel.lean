import Mathlib.Data.List.Basic

/-!
# Channels

A Go channel with a buffer, and the history of what went through it.
-/

namespace Collector.Lib

variable {α : Type}

structure Chan (α : Type) where
  capacity : Nat
  queue : List α
  closed : Bool
  sent : List α
  received : List α
  bounded : queue.length ≤ capacity
  /-- What was sent has been received or waits in the buffer, in its order. -/
  conserved : sent = received ++ queue

namespace Chan

def make (capacity : Nat) : Chan α where
  capacity := capacity
  queue := []
  closed := false
  sent := []
  received := []
  bounded := Nat.zero_le capacity
  conserved := rfl

def send (c : Chan α) (a : α) : Option (Chan α) :=
  if h : c.queue.length < c.capacity then
    some { c with
      queue := c.queue ++ [a]
      sent := c.sent ++ [a]
      bounded := by rw [List.length_append]; exact h
      conserved := by rw [c.conserved, List.append_assoc] }
  else none

def handoff (c : Chan α) (a : α) : Option (Chan α) :=
  if h : c.queue = [] then
    some { c with
      sent := c.sent ++ [a]
      received := c.received ++ [a]
      conserved := by rw [c.conserved, h, List.append_nil, List.append_nil] }
  else none

def recv (c : Chan α) : Option (α × Chan α) :=
  match h : c.queue with
  | [] => none
  | a :: queue =>
    some (a, { c with
      queue := queue
      received := c.received ++ [a]
      bounded := Nat.le_of_succ_le (by simpa [h] using c.bounded)
      conserved := by rw [c.conserved, h, List.append_assoc, List.singleton_append] })

def close (c : Chan α) : Chan α := { c with closed := true }

variable {c c' : Chan α} {a : α}

theorem send_eq_some (h : c.send a = some c') :
    c'.sent = c.sent ++ [a] ∧ c'.received = c.received ∧ c'.closed = c.closed := by
  unfold send at h
  split at h
  · cases h
    exact ⟨rfl, rfl, rfl⟩
  · cases h

theorem handoff_eq_some (h : c.handoff a = some c') :
    c'.sent = c.sent ++ [a] ∧ c'.received = c.received ++ [a] ∧ c'.closed = c.closed := by
  unfold handoff at h
  split at h
  · cases h
    exact ⟨rfl, rfl, rfl⟩
  · cases h

theorem recv_eq_some (h : c.recv = some (a, c')) :
    c'.sent = c.sent ∧ c'.received = c.received ++ [a] ∧ c'.closed = c.closed := by
  unfold recv at h
  split at h
  · cases h
  · cases h
    exact ⟨rfl, rfl, rfl⟩

end Chan

end Collector.Lib
