import Collector.Lib.Pipe

/-!
# Messages between the agent and a subprocess

A message is its type and the length of its payload, four bytes each, and then the payload.
-/

namespace Collector.Subproc

open Lib List

variable {n : Nat}

structure Message where
  type : Nat
  payload : Bytes
deriving DecidableEq

variable (m : Message)

def sendMessage (m : Message) : List Bytes := [putUint32 m.type, putUint32 m.payload.length, m.payload]

def frame (m : Message) : Bytes := (sendMessage m).flatten

theorem frame_eq : frame m = putUint32 m.type ++ (putUint32 m.payload.length ++ m.payload) := by
  simp [frame, sendMessage]

theorem length_frame : (frame m).length = 8 + m.payload.length := by
  simp [frame_eq]
  omega

def Message.Fits (m : Message) : Prop := m.type < 2 ^ 32 ∧ m.payload.length < 2 ^ 32

/-! ## `RecvMessage` -/

inductive RecvError where
  | notFullyRead
  | eof
  | unexpectedEOF
deriving DecidableEq

/-- `lastPayloadReader` is the number of bytes that the reader of the last payload has still to read. -/
structure MessageReadWriter where
  reader : Pipe UInt8
  lastPayloadReader : Nat
deriving DecidableEq

def readFull (n : Nat) (reader : Pipe UInt8) : Except RecvError (Bytes × Pipe UInt8) :=
  let buf := (reader.readUpTo n).1
  if buf.length = n then .ok (reader.readUpTo n)
  else if buf = [] then .error .eof
  else .error .unexpectedEOF

def recvMessage (m : MessageReadWriter) : Except RecvError (Nat × MessageReadWriter) := do
  if 0 < m.lastPayloadReader then
    throw .notFullyRead
  let (msgType, reader) ← readFull 4 m.reader
  let (size, reader) ← readFull 4 reader
  return (uint32 msgType, ⟨reader, uint32 size⟩)

def readPayload (n : Nat) (m : MessageReadWriter) : Bytes × MessageReadWriter :=
  let got := m.reader.read (min n m.lastPayloadReader)
  (got.1, ⟨got.2, m.lastPayloadReader - got.1.length⟩)

/-- `io.ReadAll` of the payload reader. A read with a smaller buffer counts as a smaller piece of the pipe. -/
def readAllPayload (m : MessageReadWriter) : Bytes × MessageReadWriter :=
  let got := m.reader.readUpTo m.lastPayloadReader
  (got.1, ⟨got.2, m.lastPayloadReader - got.1.length⟩)

variable {reader : Pipe UInt8}

theorem readFull_eq_ok (h : n ≤ reader.bytes.length) :
    readFull n reader = .ok (reader.bytes.take n, reader.skip n) := by
  unfold readFull Pipe.skip
  rw [if_pos (by simp [h]), ← Pipe.readUpTo_fst]

theorem readFull_eq_error (h : reader.bytes.length < n) : ∃ e, readFull n reader = .error e := by
  have hlen : ¬ (reader.readUpTo n).1.length = n := by
    simp only [Pipe.readUpTo_fst, length_take]
    omega
  unfold readFull
  simp only [if_neg hlen]
  split
  · exact ⟨.eof, rfl⟩
  · exact ⟨.unexpectedEOF, rfl⟩

theorem recvMessage_frame {m : Message} (hm : m.Fits) {rest : Bytes}
    (h : reader.bytes = putUint32 m.type ++ (putUint32 m.payload.length ++ rest)) :
    recvMessage ⟨reader, 0⟩ = .ok (m.type, ⟨reader.skip 8, m.payload.length⟩) ∧ (reader.skip 8).bytes = rest := by
  have hlen : 4 ≤ reader.bytes.length := by simp [h]
  have ht : reader.bytes.take 4 = putUint32 m.type := by rw [h, take_left' (length_putUint32 _)]
  have hr : (reader.skip 4).bytes = putUint32 m.payload.length ++ rest := by
    rw [Pipe.bytes_skip, h, drop_left' (length_putUint32 _)]
  have hlen' : 4 ≤ (reader.skip 4).bytes.length := by simp [hr]
  have hs : (reader.skip 4).bytes.take 4 = putUint32 m.payload.length := by
    rw [hr, take_left' (length_putUint32 _)]
  rw [← Pipe.skip_skip 4 4]
  constructor
  · unfold recvMessage
    rw [if_neg (Nat.lt_irrefl 0), readFull_eq_ok hlen]
    simp only [bind, Except.bind, pure, Except.pure, readFull_eq_ok hlen', ht, hs, uint32_putUint32 hm.1,
      uint32_putUint32 hm.2]
  · rw [Pipe.bytes_skip, hr, drop_left' (length_putUint32 _)]

theorem recvMessage_short (h : reader.bytes.length < 8) : ∃ e, recvMessage ⟨reader, 0⟩ = .error e := by
  unfold recvMessage
  rw [if_neg (Nat.lt_irrefl 0)]
  by_cases hlen : 4 ≤ reader.bytes.length
  · have hlen' : (reader.skip 4).bytes.length < 4 := by
      rw [Pipe.bytes_skip, length_drop]
      omega
    obtain ⟨e, he⟩ := readFull_eq_error hlen'
    rw [readFull_eq_ok hlen]
    simp only [bind, Except.bind, he]
    exact ⟨e, rfl⟩
  · obtain ⟨e, he⟩ := readFull_eq_error (Nat.lt_of_not_le hlen)
    rw [he]
    exact ⟨e, rfl⟩

end Collector.Subproc
