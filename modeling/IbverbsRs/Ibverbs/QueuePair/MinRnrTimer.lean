import IbverbsRs.Ibverbs.QueuePair.Config
import IbverbsRs.Math.BinarySearch
import Mathlib.Order.Basic

namespace IbverbsRs.Ibverbs

open Math

namespace Duration

def from_micros (micros : UInt64) : Duration :=
  ⟨micros / 1000000, micros.toNat % 1000000 * 1000, by omega⟩

theorem as_nanos_from_micros (micros : UInt64) :
    (from_micros micros).as_nanos = micros.toNat * 1000 := by
  have hdiv : (micros / 1000000).toNat = micros.toNat / 1000000 := UInt64.toNat_div _ _
  change (micros / 1000000).toNat * 1000000000 + micros.toNat % 1000000 * 1000 = _
  omega

theorem as_nanos_injective : Function.Injective as_nanos := by
  intro a b h
  obtain ⟨secs, nanos, hnanos⟩ := a
  obtain ⟨secs', nanos', hnanos'⟩ := b
  simp only [as_nanos] at h
  have hsecs : secs = secs' := by
    rw [← UInt64.toNat_inj]
    omega
  subst hsecs
  congr 1
  omega

/-- Seconds first, then nanoseconds: the order of the lengths. -/
instance : LinearOrder Duration := LinearOrder.lift' as_nanos as_nanos_injective

theorem lt_iff {a b : Duration} : a < b ↔ a.as_nanos < b.as_nanos := Iff.rfl

theorem le_iff {a b : Duration} : a ≤ b ↔ a.as_nanos ≤ b.as_nanos := Iff.rfl

end Duration

namespace MinRnrTimer

/-- Code 0 encodes the maximum. -/
def DURATION_ZERO : Duration := .from_micros 655360

/-- The durations of the codes from 1 on. -/
def DURATION_TABLE : List Duration :=
  [10, 20, 30, 40, 60, 80, 120, 160, 240, 320, 480, 640, 960, 1280, 1920, 2560, 3840, 5120, 7680,
    10240, 15360, 20480, 30720, 40960, 61440, 81920, 122880, 163840, 245760, 327680, 491520].map
    Duration.from_micros

def limited (code : UInt8) : Option MinRnrTimer :=
  if h : code < 32 then some ⟨code, h⟩ else none

/-- The code for an answer of the search in the table. -/
def code_at : Except Nat Nat → UInt8
  | .ok idx => UInt8.ofNat (idx + 1)
  | .error idx => if idx < DURATION_TABLE.length then UInt8.ofNat (idx + 1) else 0

def selected_code (timeout : Duration) : UInt8 := code_at (binary_search DURATION_TABLE timeout)

/-- `none` is the panic of the `expect`. -/
def duration (self : MinRnrTimer) : Option Duration :=
  if self.code > 0 then DURATION_TABLE[self.code.toNat - 1]? else some DURATION_ZERO

theorem length_table : DURATION_TABLE.length = 31 := rfl

/-- The table is strictly ascending, and code 0 lasts longer than all of it. -/
theorem durations_ascending : (DURATION_TABLE ++ [DURATION_ZERO]).Pairwise (· < ·) := by
  rw [DURATION_TABLE, DURATION_ZERO, ← List.map_singleton (f := Duration.from_micros),
    ← List.map_append, List.pairwise_map]
  simp only [Duration.lt_iff, Duration.as_nanos_from_micros]
  decide

theorem table_ascending : DURATION_TABLE.Pairwise (· < ·) :=
  (List.pairwise_append.mp durations_ascending).1

theorem table_lt_zero : ∀ d ∈ DURATION_TABLE, d < DURATION_ZERO := by
  intro d hd
  exact (List.pairwise_append.mp durations_ascending).2.2 d hd _ List.mem_cons_self

theorem lt_of_getElem? {i : Nat} {d : Duration} (h : DURATION_TABLE[i]? = some d) : i < 31 := by
  rw [← length_table]
  exact (List.getElem?_eq_some_iff.mp h).1

theorem exists_getElem? {i : Nat} (h : i < 31) : ∃ d, DURATION_TABLE[i]? = some d := by
  rw [← length_table] at h
  exact ⟨_, List.getElem?_eq_getElem h⟩

theorem toNat_ofNat_succ {i : Nat} (h : i < 31) : (UInt8.ofNat (i + 1)).toNat = i + 1 := by
  rw [UInt8.toNat_ofNat']
  omega

/-- Later entries are longer. -/
theorem table_le {i j : Nat} {d d' : Duration} (hi : DURATION_TABLE[i]? = some d)
    (hj : DURATION_TABLE[j]? = some d') (hij : i ≤ j) : d ≤ d' := by
  obtain ⟨hil, rfl⟩ := List.getElem?_eq_some_iff.mp hi
  obtain ⟨hjl, rfl⟩ := List.getElem?_eq_some_iff.mp hj
  rcases Nat.eq_or_lt_of_le hij with rfl | hlt
  · exact le_refl _
  · exact (List.pairwise_iff_getElem.mp table_ascending i j hil hjl hlt).le

/-- The code is one more than the number of shorter durations in the table, and 0 when there is no
longer one in it. -/
theorem selected_code_spec (timeout : Duration) : ∃ p ≤ 31,
    (selected_code timeout).toNat = (if p < 31 then p + 1 else 0) ∧
    ∀ i d, DURATION_TABLE[i]? = some d → (d < timeout ↔ i < p) := by
  obtain ⟨p, hp, hsearch, hsplit⟩ := binary_search_position table_ascending timeout
  rw [length_table] at hp
  refine ⟨p, hp, ?_, hsplit⟩
  rw [selected_code]
  rcases hsearch with hok | herror
  · have hlt : p < 31 := lt_of_getElem? (binary_search_sound hok)
    rw [hok, if_pos hlt]
    exact toNat_ofNat_succ hlt
  · rw [herror, code_at, length_table]
    split_ifs with hlt
    · exact toNat_ofNat_succ hlt
    · rfl

theorem selected_code_lt (timeout : Duration) : selected_code timeout < 32 := by
  obtain ⟨p, hp, hcode, _⟩ := selected_code_spec timeout
  rw [UInt8.lt_iff_toNat_lt, hcode]
  change (if p < 31 then p + 1 else 0) < 32
  split_ifs <;> omega

def min_duration_greater_than (timeout : Duration) : MinRnrTimer :=
  ⟨selected_code timeout, selected_code_lt timeout⟩

theorem code_min_duration_greater_than (timeout : Duration) :
    (min_duration_greater_than timeout).code = selected_code timeout := by
  rw [min_duration_greater_than]

/-- The durations that the 32 codes stand for. -/
def Represented : Set Duration := {d | ∃ timer : MinRnrTimer, timer.duration = some d}

theorem duration_zero {self : MinRnrTimer} (h : self.code.toNat = 0) :
    self.duration = some DURATION_ZERO := by
  rw [duration, if_neg]
  rw [gt_iff_lt, UInt8.lt_iff_toNat_lt, h]
  decide

theorem duration_succ {self : MinRnrTimer} {i : Nat} (h : self.code.toNat = i + 1) :
    self.duration = DURATION_TABLE[i]? := by
  rw [duration, if_pos, h]
  · rfl
  · rw [gt_iff_lt, UInt8.lt_iff_toNat_lt, h]
    exact Nat.succ_pos i

theorem mem_represented {d : Duration} :
    d ∈ Represented ↔ d = DURATION_ZERO ∨ d ∈ DURATION_TABLE := by
  constructor
  · intro h
    obtain ⟨timer, htimer⟩ := h
    rcases hcode : timer.code.toNat with _ | i
    · rw [duration_zero hcode] at htimer
      exact Or.inl (Option.some.inj htimer).symm
    · rw [duration_succ hcode] at htimer
      exact Or.inr (List.mem_of_getElem? htimer)
  · intro h
    rcases h with rfl | hmem
    · exact ⟨⟨0, by decide⟩, duration_zero rfl⟩
    · obtain ⟨i, hi⟩ := List.mem_iff_getElem?.mp hmem
      have hlt := lt_of_getElem? hi
      have hcode := toNat_ofNat_succ hlt
      refine ⟨⟨UInt8.ofNat (i + 1), ?_⟩, (duration_succ hcode).trans hi⟩
      rw [UInt8.lt_iff_toNat_lt, hcode]
      exact Nat.succ_lt_succ hlt

theorem isGreatest_zero : IsGreatest Represented DURATION_ZERO := by
  refine ⟨mem_represented.mpr (Or.inl rfl), ?_⟩
  intro d hd
  rcases mem_represented.mp hd with rfl | hmem
  · exact le_refl _
  · exact (table_lt_zero d hmem).le

/-- The selected duration, by whether the table has one that is long enough. -/
theorem selected_cases (timeout : Duration) :
    (∃ d, (min_duration_greater_than timeout).duration = some d ∧
      IsLeast {d | d ∈ Represented ∧ timeout ≤ d} d) ∨
    ((min_duration_greater_than timeout).code = 0 ∧
      (min_duration_greater_than timeout).duration = some DURATION_ZERO ∧
      DURATION_ZERO < timeout) := by
  obtain ⟨p, hp, hcode, hsplit⟩ := selected_code_spec timeout
  rw [← code_min_duration_greater_than] at hcode
  rcases Nat.lt_or_ge p 31 with hlt | hge
  · rw [if_pos hlt] at hcode
    obtain ⟨selected, hget⟩ := exists_getElem? hlt
    refine Or.inl ⟨selected, (duration_succ hcode).trans hget, ?_, ?_⟩
    · refine ⟨mem_represented.mpr (Or.inr (List.mem_of_getElem? hget)), ?_⟩
      exact not_lt.mp (fun h => Nat.lt_irrefl p ((hsplit p _ hget).mp h))
    · rintro d ⟨hrep, hd⟩
      rcases mem_represented.mp hrep with rfl | hmem
      · exact (table_lt_zero _ (List.mem_of_getElem? hget)).le
      · obtain ⟨i, hi⟩ := List.mem_iff_getElem?.mp hmem
        have hpi : p ≤ i := Nat.le_of_not_lt (fun h => not_lt.mpr hd ((hsplit i d hi).mpr h))
        exact table_le hget hi hpi
  · rw [if_neg (by omega)] at hcode
    have htable : ∀ d ∈ DURATION_TABLE, d < timeout := by
      intro d hmem
      obtain ⟨i, hi⟩ := List.mem_iff_getElem?.mp hmem
      have hil := lt_of_getElem? hi
      exact (hsplit i d hi).mpr (by omega)
    rcases lt_or_ge DURATION_ZERO timeout with hlong | hcovers
    · exact Or.inr ⟨UInt8.toNat_inj.mp hcode, duration_zero hcode, hlong⟩
    · refine Or.inl ⟨_, duration_zero hcode, ⟨isGreatest_zero.1, hcovers⟩, ?_⟩
      rintro d ⟨hrep, hd⟩
      rcases mem_represented.mp hrep with rfl | hmem
      · exact le_refl _
      · exact absurd (htable d hmem) (not_lt.mpr hd)

/-- The selected duration is the least one that is long enough, else the longest, so it grows with
the timeout. -/
theorem min_duration_greater_than_least :
    IsGreatest Represented DURATION_ZERO ∧
    (∀ timeout, (min_duration_greater_than timeout).code < 32 ∧
      ∃ d, (min_duration_greater_than timeout).duration = some d ∧
        ((∃ d' ∈ Represented, timeout ≤ d') →
          IsLeast {d | d ∈ Represented ∧ timeout ≤ d} d) ∧
        ((∀ d' ∈ Represented, d' < timeout) → (min_duration_greater_than timeout).code = 0)) ∧
    ∀ t t' d d', t ≤ t' → (min_duration_greater_than t).duration = some d →
      (min_duration_greater_than t').duration = some d' → d ≤ d' := by
  refine ⟨isGreatest_zero, ?_, ?_⟩
  · intro timeout
    refine ⟨(min_duration_greater_than timeout).valid, ?_⟩
    rcases selected_cases timeout with ⟨d, hd, hleast⟩ | ⟨hcode, hd, hlong⟩
    · exact ⟨d, hd, fun _ => hleast, fun h => absurd (h d hleast.1.1) (not_lt.mpr hleast.1.2)⟩
    · refine ⟨_, hd, ?_, fun _ => hcode⟩
      rintro ⟨d', hrep, hd'⟩
      exact absurd (isGreatest_zero.2 hrep) (not_le.mpr (lt_of_lt_of_le hlong hd'))
  · intro t t' d d' hle hd hd'
    rcases selected_cases t' with ⟨_, heq, hleast'⟩ | ⟨_, heq, hlong⟩
    · obtain rfl := Option.some.inj (heq.symm.trans hd')
      rcases selected_cases t with ⟨_, heq, hleast⟩ | ⟨_, _, hlong⟩
      · obtain rfl := Option.some.inj (heq.symm.trans hd)
        exact hleast.2 ⟨hleast'.1.1, hle.trans hleast'.1.2⟩
      · exact absurd (isGreatest_zero.2 hleast'.1.1)
          (not_le.mpr (lt_of_lt_of_le hlong (hle.trans hleast'.1.2)))
    · obtain rfl := Option.some.inj (heq.symm.trans hd')
      exact isGreatest_zero.2 ⟨_, hd⟩

end MinRnrTimer

end IbverbsRs.Ibverbs
