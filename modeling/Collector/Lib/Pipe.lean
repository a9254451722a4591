import Mathlib.Algebra.Order.Ring.Int
import Mathlib.Data.List.Basic

/-!
# Pipes

A read returns bytes of one piece, so a list of pieces says how every read comes out.
-/

namespace Collector.Lib

open List

abbrev Bytes := List UInt8

/-! ## Big-endian numbers -/

def putUint32 (n : Nat) : Bytes :=
  [UInt8.ofNat (n / 2 ^ 24), UInt8.ofNat (n / 2 ^ 16), UInt8.ofNat (n / 2 ^ 8), UInt8.ofNat n]

def uint32 (bs : Bytes) : Nat := bs.foldl (fun n b => 256 * n + b.toNat) 0

@[simp] theorem length_putUint32 (n : Nat) : (putUint32 n).length = 4 := rfl

variable {n : Nat}

theorem uint32_putUint32 (h : n < 2 ^ 32) : uint32 (putUint32 n) = n := by
  simp only [putUint32, uint32, foldl_cons, foldl_nil, UInt8.toNat_ofNat']
  omega

/-! ## Reads -/

variable {α : Type}

structure Pipe (α : Type) where
  chunks : List (List α)
  /-- A read that returns has at least one byte. -/
  nonempty : ∀ c ∈ chunks, c ≠ []
deriving DecidableEq

namespace Pipe

def bytes (p : Pipe α) : List α := p.chunks.flatten

def readChunk (n : Nat) : List (List α) → List α × List (List α)
  | [] => ([], [])
  | c :: cs => if n < c.length then (c.take n, c.drop n :: cs) else (c, cs)

/-- Reads one after the other until `n` bytes are there or the pipe has ended. -/
def readChunks (n : Nat) : List (List α) → List α × List (List α)
  | [] => ([], [])
  | c :: cs =>
    if n < c.length then (c.take n, c.drop n :: cs)
    else (c ++ (readChunks (n - c.length) cs).1, (readChunks (n - c.length) cs).2)

theorem nonempty_readChunk (n : Nat) (cs : List (List α)) (h : ∀ c ∈ cs, c ≠ []) :
    ∀ c ∈ (readChunk n cs).2, c ≠ [] := by
  cases cs with
  | nil => simp [readChunk]
  | cons c cs =>
    rw [readChunk]
    split
    · simp_all
    · simp_all

theorem nonempty_readChunks {n : Nat} {cs : List (List α)} (h : ∀ c ∈ cs, c ≠ []) :
    ∀ c ∈ (readChunks n cs).2, c ≠ [] := by
  induction cs generalizing n with
  | nil => simp [readChunks]
  | cons c cs ih =>
    unfold readChunks
    split
    · simp_all
    · apply ih
      simp_all

def read (n : Nat) (p : Pipe α) : List α × Pipe α :=
  ((readChunk n p.chunks).1, ⟨(readChunk n p.chunks).2, nonempty_readChunk n p.chunks p.nonempty⟩)

/-- `io.ReadFull`, or `io.ReadAll` on a reader that is limited to `n` bytes. -/
def readUpTo (n : Nat) (p : Pipe α) : List α × Pipe α :=
  ((readChunks n p.chunks).1, ⟨(readChunks n p.chunks).2, nonempty_readChunks p.nonempty⟩)

theorem readChunk_append (n : Nat) (cs : List (List α)) :
    (readChunk n cs).1 ++ (readChunk n cs).2.flatten = cs.flatten := by
  cases cs with
  | nil => rfl
  | cons c cs =>
    rw [readChunk]
    split
    · rw [flatten_cons, flatten_cons, ← append_assoc, take_append_drop]
    · rfl

theorem readChunks_eq (n : Nat) (cs : List (List α)) :
    (readChunks n cs).1 = cs.flatten.take n ∧ (readChunks n cs).2.flatten = cs.flatten.drop n := by
  induction cs generalizing n with
  | nil => simp [readChunks]
  | cons c cs ih =>
    unfold readChunks
    split_ifs with hn
    · have hle : n ≤ c.length := Nat.le_of_lt hn
      simp [take_append_of_le_length hle, drop_append_of_le_length hle]
    · have hle : c.length ≤ n := Nat.le_of_not_lt hn
      obtain ⟨hfst, hsnd⟩ := ih (n - c.length)
      simp only [hfst, hsnd, flatten_cons, take_append, drop_append, take_of_length_le hle,
        drop_eq_nil_of_le hle, nil_append, and_self]

theorem length_readChunk_le (n : Nat) (cs : List (List α)) : (readChunk n cs).1.length ≤ n := by
  cases cs with
  | nil => simp [readChunk]
  | cons c cs =>
    rw [readChunk]
    split
    · exact length_take_le n c
    · simp_all

variable {p : Pipe α}

theorem read_append (n : Nat) (p : Pipe α) : (p.read n).1 ++ (p.read n).2.bytes = p.bytes :=
  readChunk_append n p.chunks

variable {part : List α}

theorem bytes_read {rest : List α} (h : p.bytes = part ++ rest)
    (hp : (p.read n).1 = part) : (p.read n).2.bytes = rest := by
  have ha := p.read_append n
  rw [h, hp] at ha
  exact append_cancel_left ha

theorem read_isPrefix {rest : List α} (h : p.bytes = part ++ rest)
    (hn : n ≤ part.length) : (p.read n).1 <+: part := by
  have ha := p.read_append n
  rw [h] at ha
  have hle : (p.read n).1.length ≤ part.length := (length_readChunk_le n p.chunks).trans hn
  exact prefix_of_prefix_length_le ⟨_, ha⟩ (prefix_append _ _) hle

@[simp] theorem readUpTo_fst (n : Nat) (p : Pipe α) : (p.readUpTo n).1 = p.bytes.take n :=
  (readChunks_eq n p.chunks).1

@[simp] theorem bytes_readUpTo (n : Nat) (p : Pipe α) : (p.readUpTo n).2.bytes = p.bytes.drop n :=
  (readChunks_eq n p.chunks).2

/-! ## What is left -/

def skip (n : Nat) (p : Pipe α) : Pipe α := (p.readUpTo n).2

theorem bytes_skip (n : Nat) (p : Pipe α) : (p.skip n).bytes = p.bytes.drop n := bytes_readUpTo n p

variable {cs : List (List α)}

theorem readChunks_zero (h : ∀ c ∈ cs, c ≠ []) : (readChunks 0 cs).2 = cs := by
  cases cs with
  | nil => rfl
  | cons c cs =>
    have hpos : 0 < c.length := length_pos_iff.mpr (h c mem_cons_self)
    simp [readChunks, hpos]

theorem readChunks_add (n k : Nat) (h : ∀ c ∈ cs, c ≠ []) :
    (readChunks k (readChunks n cs).2).2 = (readChunks (n + k) cs).2 := by
  induction cs generalizing n with
  | nil => simp [readChunks]
  | cons c cs ih =>
    rw [forall_mem_cons] at h
    by_cases hn : n < c.length
    · by_cases hk : n + k < c.length
      · have hk' : k < c.length - n := by omega
        simp [readChunks, hn, hk, hk']
      · have hk' : ¬ k < c.length - n := by omega
        have hsub : k - (c.length - n) = n + k - c.length := by omega
        simp [readChunks, hn, hk, hk', hsub]
    · have hk : ¬ n + k < c.length := by omega
      have hsub : n - c.length + k = n + k - c.length := by omega
      rw [readChunks, if_neg hn, ih (n - c.length) h.2, hsub, readChunks, if_neg hk]

theorem readChunk_snd (n : Nat) (h : ∀ c ∈ cs, c ≠ []) :
    (readChunk n cs).2 = (readChunks (readChunk n cs).1.length cs).2 := by
  cases cs with
  | nil => rfl
  | cons c cs =>
    rw [forall_mem_cons] at h
    rw [readChunk]
    split_ifs with hn
    · have hlen : (c.take n).length = n := length_take_of_le (Nat.le_of_lt hn)
      simp only [hlen]
      rw [readChunks, if_pos hn]
    · rw [readChunks, if_neg (Nat.lt_irrefl _), Nat.sub_self, readChunks_zero h.2]

theorem skip_zero (p : Pipe α) : p.skip 0 = p := by
  obtain ⟨chunks, hne⟩ := p
  simp [skip, readUpTo, readChunks_zero hne]

theorem skip_skip (n k : Nat) (p : Pipe α) : (p.skip n).skip k = p.skip (n + k) := by
  simp [skip, readUpTo, readChunks_add n k p.nonempty]

theorem read_snd (n : Nat) (p : Pipe α) : (p.read n).2 = p.skip (p.read n).1.length := by
  simp [skip, readUpTo, read, ← readChunk_snd n p.nonempty]

/-! ## Where the pieces end -/

def cuts : List (List α) → List Nat
  | [] => []
  | c :: cs => c.length :: (cuts cs).map (c.length + ·)

theorem pos_of_mem_cuts (h : ∀ c ∈ cs, c ≠ []) (hn : n ∈ cuts cs) : 0 < n := by
  cases cs with
  | nil => simp [cuts] at hn
  | cons c cs =>
    have hc : 0 < c.length := length_pos_iff.mpr (h c mem_cons_self)
    simp only [cuts, mem_cons, mem_map] at hn
    rcases hn with rfl | ⟨m, -, rfl⟩ <;> omega

variable {c : List α}

theorem le_of_mem_cuts (hn : n ∈ cuts (c :: cs)) : c.length ≤ n := by
  simp only [cuts, mem_cons, mem_map] at hn
  rcases hn with rfl | ⟨m, -, rfl⟩ <;> omega

theorem add_mem_cuts (hn : 0 < n) : c.length + n ∈ cuts (c :: cs) ↔ n ∈ cuts cs := by
  have hne : n ≠ 0 := by omega
  simp [cuts, hne]

theorem mem_cuts_readChunk {k n : Nat} (hk : k ≤ c.length) (hn : 0 < n) :
    n ∈ cuts (readChunk k (c :: cs)).2 ↔ k + n ∈ cuts (c :: cs) := by
  rw [readChunk]
  split
  · simp only [cuts, length_drop, mem_cons, mem_map]
    apply or_congr
    · omega
    · apply exists_congr
      intro m
      apply and_congr_right
      intro
      omega
  · have hlen : k = c.length := by omega
    rw [hlen, add_mem_cuts hn]

/-- No piece of the pipe ends inside a part. -/
def Aligned (parts : List (List α)) (p : Pipe α) : Prop := ∀ n ∈ cuts p.chunks, n ∈ cuts parts

variable {parts : List (List α)}

theorem aligned_of_bytes_eq_nil (h : p.bytes = []) : Aligned parts p := by
  have hch : p.chunks = [] := by
    apply eq_nil_iff_forall_not_mem.mpr
    intro c hc
    exact p.nonempty c hc (flatten_eq_nil_iff.mp h c hc)
  simp [Aligned, hch, cuts]

theorem readChunk_fst_of_le {k : Nat} (hk : k ≤ c.length) : (readChunk k (c :: cs)).1 = (c :: cs).flatten.take k := by
  rw [readChunk, flatten_cons, take_append_of_le_length hk]
  split
  · rfl
  · rw [take_of_length_le (by omega)]

theorem aligned_cons (h : p.bytes = (part :: parts).flatten) :
    Aligned (part :: parts) p ↔ (p.read part.length).1 = part ∧ Aligned parts (p.read part.length).2 := by
  obtain ⟨chunks, hne⟩ := p
  cases chunks with
  | nil =>
    have hp : part = [] := by simp_all [bytes]
    simp [Aligned, cuts, read, readChunk, hp]
  | cons c cs =>
    have hfst (hk : part.length ≤ c.length) : (readChunk part.length (c :: cs)).1 = part := by
      rw [readChunk_fst_of_le hk, show (c :: cs).flatten = part ++ parts.flatten from h, take_left]
    have hr := nonempty_readChunk part.length (c :: cs) hne
    constructor
    · intro ha
      have hk : part.length ≤ c.length := le_of_mem_cuts (ha c.length (by simp [cuts]))
      refine ⟨hfst hk, fun n hn => ?_⟩
      have hpos : 0 < n := pos_of_mem_cuts hr hn
      exact (add_mem_cuts hpos).mp (ha _ ((mem_cuts_readChunk hk hpos).mp hn))
    · rintro ⟨hgot, ha⟩ m hm
      have hk : part.length ≤ c.length := by
        by_contra hlt
        have hgot' : c = part := by
          simpa [read, readChunk, show ¬ part.length < c.length by omega] using hgot
        simp [hgot'] at hlt
      have hle : c.length ≤ m := le_of_mem_cuts hm
      by_cases hm' : m = part.length
      · simp [cuts, hm']
      · obtain ⟨n, rfl⟩ := Nat.exists_eq_add_of_le (Nat.le_trans hk hle)
        have hpos : 0 < n := by omega
        exact (add_mem_cuts hpos).mpr (ha n ((mem_cuts_readChunk hk hpos).mpr hm))

end Pipe

end Collector.Lib
