import Mathlib.Algebra.Group.Nat.Defs
import Mathlib.Data.Nat.Log
import Mathlib.Tactic.SplitIfs

namespace IbverbsRs.Math

/-- `u128::next_power_of_two`, `none` when the result does not fit. -/
def next_power_of_two (n : Nat) : Option Nat :=
  if 2 ^ Nat.clog 2 n < 2 ^ 128 then some (2 ^ Nat.clog 2 n) else none

/-- `u128::ilog2`, `none` on zero. -/
def ilog2 (n : Nat) : Option Nat := if n = 0 then none else some (Nat.log 2 n)

theorem ilog2_next_power_of_two {n : Nat} (h : n ≤ 2 ^ 127) :
    (next_power_of_two n).bind ilog2 = some (Nat.clog 2 n) := by
  have hclog : Nat.clog 2 n ≤ 127 := Nat.clog_le_of_le_pow h
  have hfits : 2 ^ Nat.clog 2 n < 2 ^ 128 := Nat.pow_lt_pow_right Nat.one_lt_two (by omega)
  have hpos : 2 ^ Nat.clog 2 n ≠ 0 := (Nat.two_pow_pos _).ne'
  rw [next_power_of_two, if_pos hfits, Option.bind_some, ilog2, if_neg hpos,
    Nat.log_pow Nat.one_lt_two]

theorem clog_two_pow (k : Nat) : Nat.clog 2 (2 ^ k) = k := Nat.clog_pow 2 k Nat.one_lt_two

theorem clog_two_pow_succ (k : Nat) : Nat.clog 2 (2 ^ k + 1) = k + 1 := by
  apply Nat.le_antisymm
  · apply Nat.clog_le_of_le_pow
    have hpos := Nat.two_pow_pos k
    rw [Nat.pow_succ]
    omega
  · apply Nat.succ_le_of_lt
    rw [Nat.lt_clog_iff_pow_lt Nat.one_lt_two]
    exact Nat.lt_succ_self _

/-- One more needs one more digit only behind a power of two. -/
theorem clog_succ_of_ne {n : Nat} (h : ∀ k, n ≠ 2 ^ k) :
    Nat.clog 2 (n + 1) = Nat.clog 2 n := by
  apply Nat.le_antisymm
  · apply Nat.clog_le_of_le_pow
    apply Nat.succ_le_of_lt
    apply Nat.lt_of_le_of_ne (Nat.le_pow_clog Nat.one_lt_two n) (h _)
  · exact Nat.clog_mono_right 2 (Nat.le_succ n)

end IbverbsRs.Math
