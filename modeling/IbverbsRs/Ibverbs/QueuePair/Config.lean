import IbverbsRs.Math.PowerOfTwo
import Mathlib.Algebra.Group.Nat.Defs
import Mathlib.Order.Bounds.Basic
import Mathlib.Tactic.Common

namespace IbverbsRs.Ibverbs

open Math

/-- `std::time::Duration`. -/
structure Duration where
  secs : UInt64
  nanos : Nat
  subsecond : nanos < 1000000000

namespace Duration

def as_nanos (self : Duration) : Nat := self.secs.toNat * 1000000000 + self.nanos

def from_nanos (nanos : UInt64) : Duration :=
  ⟨nanos / 1000000000, nanos.toNat % 1000000000, Nat.mod_lt _ (by decide)⟩

theorem as_nanos_from_nanos (nanos : UInt64) : (from_nanos nanos).as_nanos = nanos.toNat := by
  rw [as_nanos, from_nanos, UInt64.toNat_div]
  exact Nat.div_add_mod' nanos.toNat 1000000000

theorem as_nanos_lt (self : Duration) : self.as_nanos < 2 ^ 94 := by
  have hsecs : self.secs.toNat < 2 ^ 64 := self.secs.toNat_lt
  have hnanos := self.subsecond
  rw [as_nanos]
  omega

end Duration

/-- A 24-bit sequence number. -/
structure PacketSequenceNumber where
  code : UInt32
  valid : code.toNat < 2 ^ 24

inductive MaximumTransferUnit
  | MTU256
  | MTU512
  | MTU1024
  | MTU2048
  | MTU4096
  deriving DecidableEq, Repr

def MaximumTransferUnit.code : MaximumTransferUnit → UInt8
  | MTU256 => 1
  | MTU512 => 2
  | MTU1024 => 3
  | MTU2048 => 4
  | MTU4096 => 5

/-- A five-bit code. -/
structure MinRnrTimer where
  code : UInt8
  valid : code < 32

inductive MaxRnrRetries
  | Limited (retries : UInt8)
  | Unlimited
  deriving DecidableEq, Repr

def MaxRnrRetries.code : MaxRnrRetries → UInt8
  | Limited retries => retries
  | Unlimited => 7

inductive AckTimeout
  | Limited (code : UInt8)
  | Unlimited
  deriving DecidableEq, Repr

structure MaxAckRetries where
  retries : UInt8
  valid : retries ≤ 7

namespace AckTimeout

def limited (code : UInt8) : Option AckTimeout :=
  if 0 < code ∧ code < 32 then some (.Limited code) else none

/-- The outer `none` is an arithmetic panic. -/
def min_duration_greater_than (timeout : Duration) : Option (Option AckTimeout) :=
  ((next_power_of_two (timeout.as_nanos / 4096)).bind ilog2).map (fun code =>
    if 0 < code ∧ code < 32 then some (.Limited (UInt8.ofNat code)) else none)

/-- The outer `none` is the panic of a shift by 64 bits or more. -/
def duration : AckTimeout → Option (Option Duration)
  | Limited code =>
    if code < 64 then some (some (.from_nanos (4096 <<< code.toUInt64))) else none
  | Unlimited => some none

def code : AckTimeout → UInt8
  | Limited code => code
  | Unlimited => 0

theorem duration_limited {c : UInt8} (hc : c.toNat ≤ 31) :
    ∃ d, duration (.Limited c) = some (some d) ∧ d.as_nanos = 4096 * 2 ^ c.toNat := by
  have hlt : c < 64 := by
    rw [UInt8.lt_iff_toNat_lt]
    exact Nat.lt_of_le_of_lt hc (by decide)
  refine ⟨_, if_pos hlt, ?_⟩
  rw [Duration.as_nanos_from_nanos, UInt64.toNat_shiftLeft]
  have hpow : 2 ^ c.toNat ≤ 2 ^ 31 := Nat.pow_le_pow_right (by decide) hc
  have hmod : c.toUInt64.toNat % 64 = c.toNat := by
    rw [UInt8.toNat_toUInt64]
    omega
  rw [hmod, Nat.shiftLeft_eq]
  change 4096 * 2 ^ c.toNat % 2 ^ 64 = _
  exact Nat.mod_eq_of_lt (by omega)

theorem min_duration_greater_than_eq (timeout : Duration) :
    min_duration_greater_than timeout =
      some (if 0 < Nat.clog 2 (timeout.as_nanos / 4096) ∧
          Nat.clog 2 (timeout.as_nanos / 4096) < 32 then
        some (.Limited (UInt8.ofNat (Nat.clog 2 (timeout.as_nanos / 4096)))) else none) := by
  have hlt := timeout.as_nanos_lt
  rw [min_duration_greater_than, ilog2_next_power_of_two (by omega), Option.map_some]

/-- A timeout of code `c` lasts at least as long as `nanos`. -/
theorem covers_iff {nanos c : Nat} : nanos ≤ 4096 * 2 ^ c ↔ Nat.clog 2 ((nanos + 4095) / 4096) ≤ c := by
  rw [Nat.clog_le_iff_le_pow Nat.one_lt_two]
  omega

/-- The answer is the least code whose timeout covers the duration, and there is none only when
the longest timeout is too short. -/
def Tight (timeout : Duration) : Prop :=
  ∃ answer, min_duration_greater_than timeout = some answer ∧
    (∀ selected, answer = some selected ↔ ∃ c : UInt8, selected = .Limited c ∧
      IsLeast {c : UInt8 | 1 ≤ c ∧ c ≤ 31 ∧ timeout.as_nanos ≤ 4096 * 2 ^ c.toNat} c) ∧
    (answer = none ↔ 4096 * 2 ^ 31 < timeout.as_nanos)

theorem isLeast_covering_iff {nanos : Nat} {c : UInt8} :
    IsLeast {c : UInt8 | 1 ≤ c ∧ c ≤ 31 ∧ nanos ≤ 4096 * 2 ^ c.toNat} c ↔
      Nat.clog 2 ((nanos + 4095) / 4096) ≤ 31 ∧
        c.toNat = max 1 (Nat.clog 2 ((nanos + 4095) / 4096)) := by
  have hmem (c : UInt8) : c ∈ {c : UInt8 | 1 ≤ c ∧ c ≤ 31 ∧ nanos ≤ 4096 * 2 ^ c.toNat} ↔
      1 ≤ c.toNat ∧ c.toNat ≤ 31 ∧ Nat.clog 2 ((nanos + 4095) / 4096) ≤ c.toNat := by
    rw [Set.mem_ofPred_eq, covers_iff, UInt8.le_iff_toNat_le, UInt8.le_iff_toNat_le]
    rfl
  generalize Nat.clog 2 ((nanos + 4095) / 4096) = g at hmem ⊢
  constructor
  · intro hleast
    obtain ⟨hone, hmax, hcovers⟩ := (hmem c).mp hleast.1
    refine ⟨hcovers.trans hmax, ?_⟩
    have hnat : (UInt8.ofNat (max 1 g)).toNat = max 1 g := by
      rw [UInt8.toNat_ofNat']
      omega
    have hle := hleast.2 ((hmem (UInt8.ofNat (max 1 g))).mpr (by omega))
    rw [UInt8.le_iff_toNat_le, hnat] at hle
    omega
  · intro h
    refine ⟨(hmem c).mpr (by omega), ?_⟩
    intro c' hc'
    have hcovers := (hmem c').mp hc'
    rw [UInt8.le_iff_toNat_le]
    omega

/-- Rounding the quotient down loses the timeout exactly when it loses a digit. -/
theorem tight_iff_clog (timeout : Duration) :
    Tight timeout ↔ 32 ≤ Nat.clog 2 (timeout.as_nanos / 4096) ∨
      0 < Nat.clog 2 (timeout.as_nanos / 4096) ∧
        Nat.clog 2 ((timeout.as_nanos + 4095) / 4096) = Nat.clog 2 (timeout.as_nanos / 4096) := by
  have hmono : Nat.clog 2 (timeout.as_nanos / 4096) ≤
      Nat.clog 2 ((timeout.as_nanos + 4095) / 4096) := Nat.clog_mono_right 2 (by omega)
  have hstep : Nat.clog 2 ((timeout.as_nanos + 4095) / 4096) ≤
      Nat.clog 2 (timeout.as_nanos / 4096) + 1 := by
    apply Nat.clog_le_of_le_pow
    have hle := Nat.le_pow_clog Nat.one_lt_two (timeout.as_nanos / 4096)
    have hpos := Nat.two_pow_pos (Nat.clog 2 (timeout.as_nanos / 4096))
    rw [Nat.pow_succ]
    omega
  have hlong : 4096 * 2 ^ 31 < timeout.as_nanos ↔
      31 < Nat.clog 2 ((timeout.as_nanos + 4095) / 4096) := by
    rw [← Nat.not_le, covers_iff, Nat.not_le]
  rw [Tight, hlong]
  simp only [min_duration_greater_than_eq, Option.some.injEq, exists_eq_left', isLeast_covering_iff]
  generalize Nat.clog 2 (timeout.as_nanos / 4096) = f at hmono hstep ⊢
  generalize Nat.clog 2 ((timeout.as_nanos + 4095) / 4096) = g at hmono hstep ⊢
  constructor
  · intro h
    obtain ⟨hsome, hnone⟩ := h
    split_ifs at hsome hnone with hf
    · obtain ⟨c, hc, hg, hmax⟩ := (hsome _).mp rfl
      have hnat := congrArg UInt8.toNat (AckTimeout.Limited.inj hc)
      rw [UInt8.toNat_ofNat'] at hnat
      omega
    · have hg := hnone.mp rfl
      omega
  · intro h
    split_ifs with hf
    · have hnat : (UInt8.ofNat f).toNat = f := by
        rw [UInt8.toNat_ofNat']
        omega
      refine ⟨?_, by simp only [false_iff]; omega⟩
      intro selected
      constructor
      · intro hselected
        refine ⟨_, (Option.some.inj hselected).symm, ?_⟩
        omega
      · intro hleast
        obtain ⟨c, rfl, hg, hc⟩ := hleast
        congr 2
        apply UInt8.toNat_inj.mp
        omega
    · refine ⟨?_, by simp only [true_iff]; omega⟩
      intro selected
      simp only [false_iff, not_exists, not_and]
      intro c _ hg
      omega

/-- The selection is right exactly from two units on, unless the duration lies just above a power
of two of them. -/
theorem tight_iff (timeout : Duration) :
    Tight timeout ↔ 8192 ≤ timeout.as_nanos ∧
      ∀ k ≤ 31, timeout.as_nanos / 4096 = 2 ^ k → timeout.as_nanos % 4096 = 0 := by
  rw [tight_iff_clog]
  generalize timeout.as_nanos = t
  have hzero : Nat.clog 2 (t / 4096) = 0 ↔ t / 4096 ≤ 1 := by
    rw [← Nat.le_zero, Nat.clog_le_iff_le_pow Nat.one_lt_two, Nat.pow_zero]
  by_cases hpower : ∃ k, t / 4096 = 2 ^ k
  · obtain ⟨k, hk⟩ := hpower
    have hfloor : Nat.clog 2 (t / 4096) = k := by rw [hk, clog_two_pow]
    by_cases hmul : t % 4096 = 0
    · have hceil : (t + 4095) / 4096 = t / 4096 := by omega
      rw [hceil]
      constructor
      · intro h
        exact ⟨by omega, fun _ _ _ => hmul⟩
      · intro h
        exact Or.inr ⟨by omega, rfl⟩
    · have hceil : (t + 4095) / 4096 = 2 ^ k + 1 := by omega
      rw [hceil, clog_two_pow_succ, hfloor]
      constructor
      · intro h
        have hk32 : 32 ≤ k := by omega
        refine ⟨by omega, ?_⟩
        intro l hl heq
        have hkl : k = l := Nat.pow_right_injective (le_refl 2) (hk.symm.trans heq)
        omega
      · intro h
        by_contra hshort
        exact hmul (h.2 k (by omega) hk)
  · have hne : ∀ k, t / 4096 ≠ 2 ^ k := fun k hk => hpower ⟨k, hk⟩
    have hceil : Nat.clog 2 ((t + 4095) / 4096) = Nat.clog 2 (t / 4096) := by
      by_cases hmul : t % 4096 = 0
      · rw [show (t + 4095) / 4096 = t / 4096 by omega]
      · rw [show (t + 4095) / 4096 = t / 4096 + 1 by omega, clog_succ_of_ne hne]
    have hone := hne 0
    constructor
    · intro h
      exact ⟨by omega, fun k _ hk => (hne k hk).elim⟩
    · intro h
      exact Or.inr ⟨by omega, hceil⟩

/-- Ten microseconds get a timeout of 8192 ns, and one microsecond gets none. -/
theorem ten_microseconds_cut_short :
    min_duration_greater_than ⟨0, 10000, by decide⟩ = some (some (.Limited 1)) ∧
    min_duration_greater_than ⟨0, 1000, by decide⟩ = some none ∧
    ¬ Tight ⟨0, 10000, by decide⟩ ∧ ¬ Tight ⟨0, 1000, by decide⟩ := by
  have htwo : Nat.clog 2 2 = 1 := clog_two_pow 1
  have hthree : Nat.clog 2 3 = 2 := clog_two_pow_succ 1
  refine ⟨?_, ?_, ?_, ?_⟩
  · rw [min_duration_greater_than_eq]
    simp [Duration.as_nanos, htwo]
  · rw [min_duration_greater_than_eq]
    simp [Duration.as_nanos]
  · simp [tight_iff_clog, Duration.as_nanos, htwo, hthree]
  · simp [tight_iff_clog, Duration.as_nanos]

end AckTimeout

end IbverbsRs.Ibverbs
