import Collector.Subproc.Messages

/-!
# What the Python runner reads

`recv_msg` takes what one read returns for the whole of what it asked for.
-/

namespace Collector.Subproc

open Lib List

/-! ## `recv_msg` -/

inductive RunnerError where
  | structError
  | valueError
deriving DecidableEq

def unpack (buf : Bytes) : Except RunnerError Int :=
  if buf.length = 4 then .ok (if uint32 buf < 2 ^ 31 then uint32 buf else uint32 buf - 2 ^ 32)
  else .error .structError

structure Control (J : Type) where
  type : Int
  size : Int
  payload : J
deriving DecidableEq

def fileRead (size : Int) (file : Pipe UInt8) : Bytes × Pipe UInt8 :=
  if size < 0 then file.readUpTo file.bytes.length else file.read size.toNat

variable {J : Type}

/-- `loads` stands for `ujson.loads`, which raises a `ValueError` where it gives nothing. -/
def recvMsg (loads : Bytes → Option J) (file : Pipe UInt8) : Except RunnerError (Control J × Pipe UInt8) := do
  let (buf, file) := file.read 4
  let msgType ← unpack buf
  let (buf, file) := file.read 4
  let size ← unpack buf
  let (msg, file) := fileRead size file
  match loads msg with
  | some payload => return (⟨msgType, size, payload⟩, file)
  | none => throw .valueError

def recvMsgs (loads : Bytes → Option J) : Nat → Pipe UInt8 → Except RunnerError (List (Control J))
  | 0, _ => return []
  | n + 1, file => do
    let (msg, file) ← recvMsg loads file
    return msg :: (← recvMsgs loads n file)

/-! ## Messages of the agent -/

structure JsonMessage (loads : Bytes → Option J) extends Message where
  value : J
  type_lt : type < 2 ^ 31
  length_lt : payload.length < 2 ^ 31
  json : loads payload = some value

variable {loads : Bytes → Option J}

def JsonMessage.received (m : JsonMessage loads) : Control J := ⟨m.type, m.payload.length, m.value⟩

def writes (ms : List (JsonMessage loads)) : List Bytes := ms.flatMap fun m => sendMessage m.toMessage

/-- No part of the text from its front has the value of the whole. -/
def Compact (loads : Bytes → Option J) (text : Bytes) : Prop :=
  ∀ front, front <+: text → loads front = loads text → front = text

variable {n : Nat}

theorem unpack_putUint32 (h : n < 2 ^ 31) : unpack (putUint32 n) = .ok (n : Int) := by
  have hn : uint32 (putUint32 n) = n := uint32_putUint32 (by omega)
  unfold unpack
  rw [hn, if_pos h, if_pos (length_putUint32 n)]

variable {file : Pipe UInt8}

theorem read_eq_of_unpack {rest : Bytes} {v : Int}
    (h : file.bytes = putUint32 n ++ rest) (hv : unpack (file.read 4).1 = .ok v) :
    (file.read 4).1 = putUint32 n := by
  have hlen : (file.read 4).1.length = 4 := by
    by_contra hne
    simp [unpack, hne] at hv
  have ha := file.read_append 4
  rw [h] at ha
  exact (append_inj ha (by simpa using hlen)).1

/-! ## Whole reads -/

variable {m : JsonMessage loads} {parts : List Bytes}

theorem recvMsg_of_aligned (h : file.bytes = (sendMessage m.toMessage ++ parts).flatten)
    (ha : Pipe.Aligned (sendMessage m.toMessage ++ parts) file) :
    ∃ file', recvMsg loads file = .ok (m.received, file') ∧ file'.bytes = parts.flatten ∧
      Pipe.Aligned parts file' := by
  obtain ⟨ht, ha⟩ := (Pipe.aligned_cons h).mp ha
  have h := Pipe.bytes_read h ht
  obtain ⟨hs, ha⟩ := (Pipe.aligned_cons h).mp ha
  have h := Pipe.bytes_read h hs
  obtain ⟨hp, ha⟩ := (Pipe.aligned_cons h).mp ha
  refine ⟨_, ?_, Pipe.bytes_read h hp, ha⟩
  simp only [length_putUint32] at ht hs hp ⊢
  have hneg : ¬ (m.payload.length : Int) < 0 := by omega
  simp only [recvMsg, bind, Except.bind, pure, Except.pure, ht, hs, unpack_putUint32 m.type_lt,
    unpack_putUint32 m.length_lt, fileRead, if_neg hneg, Int.toNat_natCast, hp, m.json, JsonMessage.received]

theorem recvMsg_eq_ok (hc : Compact loads m.payload)
    {file file' : Pipe UInt8} (h : file.bytes = (sendMessage m.toMessage ++ parts).flatten)
    (hre : recvMsg loads file = .ok (m.received, file')) :
    file'.bytes = parts.flatten ∧
      (Pipe.Aligned parts file' → Pipe.Aligned (sendMessage m.toMessage ++ parts) file) := by
  simp only [recvMsg, bind, Except.bind, pure, Except.pure] at hre
  cases ht : unpack (file.read 4).1 with
  | error e => simp [ht] at hre
  | ok msgType =>
    have hr : (file.read 4).1 = putUint32 m.type := read_eq_of_unpack h ht
    have h₁ := Pipe.bytes_read h hr
    cases hs : unpack ((file.read 4).2.read 4).1 with
    | error e => simp [ht, hs] at hre
    | ok size =>
      have hr₁ : ((file.read 4).2.read 4).1 = putUint32 m.payload.length := read_eq_of_unpack h₁ hs
      have h₂ := Pipe.bytes_read h₁ hr₁
      rw [hr₁, unpack_putUint32 m.length_lt] at hs
      cases hs
      have hneg : ¬ (m.payload.length : Int) < 0 := by omega
      simp only [ht, hr₁, unpack_putUint32 m.length_lt, fileRead, if_neg hneg, Int.toNat_natCast] at hre
      cases hv : loads (((file.read 4).2.read 4).2.read m.payload.length).1 with
      | none => simp [hv] at hre
      | some value =>
        simp only [hv, Except.ok.injEq, Prod.mk.injEq, JsonMessage.received, Control.mk.injEq] at hre
        obtain ⟨⟨-, -, rfl⟩, rfl⟩ := hre
        have hr₂ := hc _ (Pipe.read_isPrefix h₂ (Nat.le_refl _)) (hv.trans m.json.symm)
        refine ⟨Pipe.bytes_read h₂ hr₂, fun ha => ?_⟩
        apply (Pipe.aligned_cons h).mpr
        refine ⟨hr, (Pipe.aligned_cons h₁).mpr ⟨hr₁, ?_⟩⟩
        exact (Pipe.aligned_cons h₂).mpr ⟨hr₂, ha⟩

variable {ms : List (JsonMessage loads)}

theorem recvMsgs_of_aligned (h : file.bytes = (writes ms).flatten)
    (ha : Pipe.Aligned (writes ms) file) : recvMsgs loads ms.length file = .ok (ms.map (·.received)) := by
  induction ms generalizing file with
  | nil => rfl
  | cons m ms ih =>
    obtain ⟨file', hr, h', ha'⟩ := recvMsg_of_aligned h ha
    simp only [length_cons, recvMsgs, hr, bind, Except.bind, ih h' ha', pure, Except.pure, map_cons]

theorem aligned_of_recvMsgs (hc : ∀ m ∈ ms, Compact loads m.payload) (h : file.bytes = (writes ms).flatten)
    (hr : recvMsgs loads ms.length file = .ok (ms.map (·.received))) : Pipe.Aligned (writes ms) file := by
  induction ms generalizing file with
  | nil => exact Pipe.aligned_of_bytes_eq_nil h
  | cons m ms ih =>
    rw [forall_mem_cons] at hc
    simp only [length_cons, recvMsgs, bind, Except.bind, pure, Except.pure, map_cons] at hr
    cases hf : recvMsg loads file with
    | error e => simp [hf] at hr
    | ok first =>
      obtain ⟨msg, file'⟩ := first
      cases hre : recvMsgs loads ms.length file' with
      | error e => simp [hf, hre] at hr
      | ok rest =>
        simp only [hf, hre, Except.ok.injEq, cons.injEq] at hr
        obtain ⟨rfl, rfl⟩ := hr
        obtain ⟨h', ha⟩ := recvMsg_eq_ok hc.1 h hf
        exact ha (ih hc.2 h' hre)

/-- The calls return the messages where no piece of the pipe ends inside a part, and only there if a cut payload has
another value. -/
theorem recvMsgs_iff_aligned (ms : List (JsonMessage loads)) (file : Pipe UInt8)
    (h : file.bytes = (writes ms).flatten) :
    (Pipe.Aligned (writes ms) file → recvMsgs loads ms.length file = .ok (ms.map (·.received))) ∧
      ((∀ m ∈ ms, Compact loads m.payload) → recvMsgs loads ms.length file = .ok (ms.map (·.received)) →
        Pipe.Aligned (writes ms) file) :=
  ⟨recvMsgs_of_aligned h, fun hcompact => aligned_of_recvMsgs hcompact h⟩

def loadsBraces (text : Bytes) : Option Unit := if text = [123, 125] then some () else none

def configure : JsonMessage loadsBraces where
  type := 1
  payload := [123, 125]
  value := ()
  type_lt := by decide
  length_lt := by decide
  json := rfl

theorem compact_configure : Compact loadsBraces configure.payload := by
  intro front _ hl
  simpa [loadsBraces, configure] using hl

def wholeMessages : Pipe UInt8 where
  chunks := [[0, 0, 0, 1, 0, 0, 0, 2, 123, 125], [0, 0, 0, 1, 0, 0, 0, 2, 123, 125]]
  nonempty := by decide

theorem recvMsgs_wholeMessages : recvMsgs loadsBraces 2 wholeMessages = .ok [configure.received, configure.received] ∧
      Pipe.Aligned (writes [configure, configure]) wholeMessages := by
  have hb : wholeMessages.bytes = (writes [configure, configure]).flatten := by decide
  have ha : Pipe.Aligned (writes [configure, configure]) wholeMessages := by
    unfold Pipe.Aligned
    decide
  obtain ⟨he, hn⟩ := recvMsgs_iff_aligned [configure, configure] wholeMessages hb
  have hr := he ha
  exact ⟨hr, hn (by simp [compact_configure]) hr⟩

def splitType : Pipe UInt8 where
  chunks := [[0, 0], [0, 1, 0, 0, 0, 2, 123, 125]]
  nonempty := by decide

theorem recvMsgs_splitType :
    splitType.bytes = (writes [configure]).flatten ∧ recvMsgs loadsBraces 1 splitType = .error .structError := by
  decide

end Collector.Subproc
