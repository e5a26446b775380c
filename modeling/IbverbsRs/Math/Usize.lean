import Mathlib.Algebra.Group.Nat.Defs
import Mathlib.Data.Nat.Basic
import Mathlib.Tactic.SplitIfs

namespace IbverbsRs.Math

/-- `usize::try_from`: a number, if 64 bits hold it. -/
def try_from (n : Nat) : Option UInt64 := if n < 2 ^ 64 then some (UInt64.ofNat n) else none

def checked_add (a b : UInt64) : Option UInt64 := try_from (a.toNat + b.toNat)

def checked_mul (a b : UInt64) : Option UInt64 := try_from (a.toNat * b.toNat)

def checked_sub (a b : UInt64) : Option UInt64 := if b ≤ a then some (a - b) else none

def saturating_sub (a b : UInt64) : UInt64 := if b ≤ a then a - b else 0

theorem try_from_eq_some {n : Nat} {x : UInt64} : try_from n = some x ↔ x.toNat = n := by
  unfold try_from
  split_ifs with h
  · rw [Option.some_inj, ← UInt64.toNat_inj, UInt64.toNat_ofNat', Nat.mod_eq_of_lt h]
    exact eq_comm
  · have hlt : x.toNat < 2 ^ 64 := x.toNat_lt
    constructor
    · intro hx
      cases hx
    · intro hx
      omega

theorem try_from_toNat (x : UInt64) : try_from x.toNat = some x := try_from_eq_some.mpr rfl

theorem exists_try_from {n : Nat} (h : n < 2 ^ 64) : ∃ x, try_from n = some x :=
  ⟨_, if_pos h⟩

theorem try_from_eq_none {n : Nat} : try_from n = none ↔ 2 ^ 64 ≤ n := by
  unfold try_from
  split_ifs with h
  · simp only [false_iff]
    omega
  · simp only [true_iff]
    omega

theorem checked_add_eq_some {a b c : UInt64} :
    checked_add a b = some c ↔ c.toNat = a.toNat + b.toNat := try_from_eq_some

theorem checked_mul_eq_some {a b c : UInt64} :
    checked_mul a b = some c ↔ c.toNat = a.toNat * b.toNat := try_from_eq_some

/-- A product and then a sum are checked together. -/
theorem checked_mul_add (a b c : UInt64) :
    (checked_mul a b).bind (fun o => checked_add o c) = try_from (a.toNat * b.toNat + c.toNat) := by
  cases hmul : checked_mul a b with
  | none =>
    have hle := try_from_eq_none.mp hmul
    rw [Option.bind_none, eq_comm, try_from_eq_none]
    omega
  | some o => rw [Option.bind_some, checked_add, checked_mul_eq_some.mp hmul]

theorem checked_sub_of_le {a b : UInt64} (h : b ≤ a) : checked_sub a b = some (a - b) := if_pos h

theorem toNat_saturating_sub (a b : UInt64) :
    (saturating_sub a b).toNat = a.toNat - b.toNat := by
  unfold saturating_sub
  split_ifs with h
  · exact UInt64.toNat_sub_of_le a b h
  · rw [UInt64.le_iff_toNat_le] at h
    rw [UInt64.toNat_zero]
    omega

end IbverbsRs.Math
