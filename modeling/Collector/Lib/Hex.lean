import Mathlib.Data.List.Basic
import Mathlib.Data.Nat.ModEq
import Mathlib.Tactic.IntervalCases

/-! # Hexadecimal digits -/

namespace Collector.Lib

def hexDigit (d : Nat) : Char := Char.ofNat (if d < 10 then 48 + d else 87 + d)

def isHex (c : Char) : Bool := ('0' ≤ c && c ≤ '9') || ('a' ≤ c && c ≤ 'f') || ('A' ≤ c && c ≤ 'F')

def digitValue (c : Char) : Nat :=
  if c ≤ '9' then c.toNat - 48 else if c ≤ 'F' then c.toNat - 55 else c.toNat - 87

def hexEncode : Nat → Nat → List Char
  | 0, _ => []
  | k + 1, n => hexEncode k (n / 16) ++ [hexDigit (n % 16)]

def hexValue (ds : List Char) : Nat := ds.foldl (fun n d => 16 * n + digitValue d) 0

theorem hexDigit_spec (d : Nat) (h : d < 16) : digitValue (hexDigit d) = d ∧ isHex (hexDigit d) = true := by
  interval_cases d <;> decide

theorem hexValue_hexEncode (k n : Nat) : hexValue (hexEncode k n) = n % 16 ^ k := by
  induction k generalizing n with
  | zero => simp [hexEncode, hexValue, Nat.mod_one]
  | succ k ih =>
    have hd := (hexDigit_spec (n % 16) (Nat.mod_lt _ (by omega))).1
    have hs : hexValue (hexEncode (k + 1) n) = 16 * hexValue (hexEncode k (n / 16)) + n % 16 := by
      unfold hexValue
      rw [hexEncode, List.foldl_concat, hd]
    rw [hs, ih, pow_succ', Nat.mod_mul]
    omega

theorem isHex_of_mem_hexEncode (k n : Nat) : ∀ c ∈ hexEncode k n, isHex c = true := by
  induction k generalizing n with
  | zero => simp [hexEncode]
  | succ k ih =>
    intro c hc
    rcases List.mem_append.mp hc with hc | hc
    · exact ih _ c hc
    · rw [List.mem_singleton.mp hc]
      exact (hexDigit_spec (n % 16) (Nat.mod_lt _ (by omega))).2

theorem length_hexEncode (k n : Nat) : (hexEncode k n).length = k := by
  induction k generalizing n with
  | zero => rfl
  | succ k ih => simp [hexEncode, ih]

theorem digitValue_lt {c : Char} (h : isHex c = true) : digitValue c < 16 := by
  simp only [isHex, Bool.or_eq_true, Bool.and_eq_true, decide_eq_true_eq, Char.le_def, UInt32.le_iff_toNat_le] at h
  simp only [digitValue, Char.le_def, UInt32.le_iff_toNat_le]
  change ((48 ≤ c.toNat ∧ c.toNat ≤ 57) ∨ (97 ≤ c.toNat ∧ c.toNat ≤ 102)) ∨ (65 ≤ c.toNat ∧ c.toNat ≤ 70) at h
  change (if c.toNat ≤ 57 then _ else if c.toNat ≤ 70 then _ else _) < 16
  split
  · omega
  · split <;> omega

theorem hexValue_zeros (k : Nat) (ds : List Char) : hexValue (List.replicate k '0' ++ ds) = hexValue ds := by
  induction k with
  | zero => rfl
  | succ k ih => exact ih

end Collector.Lib
