import IbverbsRs.Ibverbs.Memory.MemoryRegion

namespace IbverbsRs.Ibverbs

open Math

/-- What both kinds of elements are to the NIC. -/
structure IbvSge where
  addr : UInt64
  length : UInt32
  lkey : UInt32
  deriving DecidableEq, Repr

/-- A slice of local memory that the NIC writes to. -/
structure ScatterElement where
  addr : UInt64
  length : UInt32
  lkey : UInt32
  deriving DecidableEq, Repr

def GatherElement.sge (self : GatherElement) : IbvSge := ⟨self.addr, self.length, self.lkey⟩

def ScatterElement.sge (self : ScatterElement) : IbvSge := ⟨self.addr, self.length, self.lkey⟩

inductive ScatterGatherElementError
  | SliceTooBig
  | SliceNotWithinBounds
  deriving DecidableEq, Repr

namespace MemoryRegion

def encloses (self : MemoryRegion) (address length : UInt64) : Bool :=
  let mr_start := self.address
  let data_start := address
  if data_start < mr_start then false
  else
    let offset := data_start - mr_start
    let remaining := saturating_sub self.length offset
    length ≤ remaining

def encloses_slice (self : MemoryRegion) (slice : Slice) : Bool := self.encloses slice.addr slice.len

/-- `encloses_slice` in a build that panics (`none`) when arithmetic overflows. -/
def encloses_slice_debug (self : MemoryRegion) (slice : Slice) : Option Bool :=
  if slice.addr < self.address then some false
  else (checked_sub slice.addr self.address).map (fun offset =>
    decide (slice.len ≤ saturating_sub self.length offset))

/-- The slice lies between the first byte of the region and the end. -/
def Contains (self : MemoryRegion) (slice : Slice) : Prop :=
  self.address.toNat ≤ slice.addr.toNat ∧
    slice.addr.toNat + slice.len.toNat ≤ self.address.toNat + self.length.toNat

theorem encloses_slice_debug_eq (self : MemoryRegion) (slice : Slice) :
    self.encloses_slice_debug slice = some (self.encloses_slice slice) := by
  unfold encloses_slice_debug encloses_slice encloses
  by_cases h : slice.addr < self.address
  · rw [if_pos h]
    simp only [h, if_true]
  · rw [if_neg h, checked_sub_of_le (UInt64.not_lt.mp h)]
    simp only [h, if_false, Option.map_some]

/-- An empty slice behind the end is let through, because the remaining length is cut off at
zero. -/
theorem encloses_slice_iff (self : MemoryRegion) (slice : Slice) :
    self.encloses_slice slice = true ↔ self.Contains slice ∨
      slice.len = 0 ∧ self.address.toNat + self.length.toNat < slice.addr.toNat := by
  have hempty : slice.len = 0 ↔ slice.len.toNat = 0 := UInt64.toNat_inj.symm
  rw [hempty]
  unfold encloses_slice encloses Contains
  by_cases h : slice.addr < self.address
  · simp only [h, if_true, Bool.false_eq_true, false_iff]
    rw [UInt64.lt_iff_toNat_lt] at h
    omega
  · have hle : self.address ≤ slice.addr := UInt64.not_lt.mp h
    simp only [h, if_false, decide_eq_true_eq]
    rw [UInt64.le_iff_toNat_le, toNat_saturating_sub, UInt64.toNat_sub_of_le _ _ hle]
    rw [UInt64.le_iff_toNat_le] at hle
    omega

end MemoryRegion

namespace ScatterGatherElement

section Family

variable {E : Type} (new_unchecked : MemoryRegion → Slice → E) (mr : MemoryRegion) (data : Slice)

/-- The common `new_checked`. -/
def new_checked : Except ScatterGatherElementError E :=
  if data.len > 4294967295 then .error .SliceTooBig
  else if mr.encloses_slice data then .ok (new_unchecked mr data)
  else .error .SliceNotWithinBounds

def new_checked_debug : Option (Except ScatterGatherElementError E) :=
  if data.len > 4294967295 then some (.error .SliceTooBig)
  else (mr.encloses_slice_debug data).map (fun enclosed =>
    if enclosed then .ok (new_unchecked mr data) else .error .SliceNotWithinBounds)

theorem new_checked_debug_eq :
    new_checked_debug new_unchecked mr data = some (new_checked new_unchecked mr data) := by
  unfold new_checked_debug new_checked
  rw [MemoryRegion.encloses_slice_debug_eq]
  by_cases h : data.len > 4294967295
  · rw [if_pos h, if_pos h]
  · rw [if_neg h, if_neg h, Option.map_some]

end Family

end ScatterGatherElement

def GatherElement.new_unchecked (mr : MemoryRegion) (data : Slice) : GatherElement :=
  ⟨data.addr, data.len.toUInt32, mr.lkey⟩

def ScatterElement.new_unchecked (mr : MemoryRegion) (data : Slice) : ScatterElement :=
  ⟨data.addr, data.len.toUInt32, mr.lkey⟩

def GatherElement.new_checked := ScatterGatherElement.new_checked GatherElement.new_unchecked

def ScatterElement.new_checked := ScatterGatherElement.new_checked ScatterElement.new_unchecked

def GatherElement.new_checked_debug :=
  ScatterGatherElement.new_checked_debug GatherElement.new_unchecked

def ScatterElement.new_checked_debug :=
  ScatterGatherElement.new_checked_debug ScatterElement.new_unchecked

/-- The answer says what of a slice the region contains: an element denotes it exactly. -/
structure Exact {E : Type} (sge : E → IbvSge) (mr : MemoryRegion) (data : Slice)
    (answer : Except ScatterGatherElementError E) : Prop where
  too_big : answer = .error .SliceTooBig ↔ 2 ^ 32 ≤ data.len.toNat
  outside : answer = .error .SliceNotWithinBounds ↔
    data.len.toNat < 2 ^ 32 ∧ ¬ mr.Contains data
  inside : data.len.toNat < 2 ^ 32 → mr.Contains data → ∃ e, answer = .ok e ∧
    (sge e).addr = data.addr ∧ (sge e).length.toNat = data.len.toNat ∧ (sge e).lkey = mr.lkey

section Answers

variable {E : Type} {sge : E → IbvSge} {mr : MemoryRegion} {data : Slice}

theorem exact_too_big (h : 2 ^ 32 ≤ data.len.toNat) : Exact sge mr data (.error .SliceTooBig) := by
  refine ⟨iff_of_true rfl h, ?_, ?_⟩
  · exact iff_of_false (fun he => nomatch he) (fun hout => Nat.not_lt.mpr h hout.1)
  · intro hsmall
    exact absurd h (Nat.not_le.mpr hsmall)

theorem exact_not_within_bounds (hsmall : data.len.toNat < 2 ^ 32) (hout : ¬ mr.Contains data) :
    Exact sge mr data (.error .SliceNotWithinBounds) := by
  refine ⟨?_, iff_of_true rfl ⟨hsmall, hout⟩, fun _ h => absurd h hout⟩
  exact iff_of_false (fun he => nomatch he) (Nat.not_le.mpr hsmall)

theorem exact_ok_iff {new_unchecked : MemoryRegion → Slice → E}
    (hsge : sge (new_unchecked mr data) = ⟨data.addr, data.len.toUInt32, mr.lkey⟩)
    (hsmall : data.len.toNat < 2 ^ 32) :
    Exact sge mr data (.ok (new_unchecked mr data)) ↔ mr.Contains data := by
  constructor
  · intro h
    by_contra hout
    cases h.outside.mpr ⟨hsmall, hout⟩
  · intro h
    refine ⟨?_, ?_, ?_⟩
    · exact iff_of_false (fun he => nomatch he) (Nat.not_le.mpr hsmall)
    · exact iff_of_false (fun he => nomatch he) (fun hout => hout.2 h)
    · intro _ _
      refine ⟨_, rfl, by rw [hsge], ?_, by rw [hsge]⟩
      rw [hsge]
      exact (UInt64.toNat_toUInt32 data.len).trans (Nat.mod_eq_of_lt hsmall)

theorem exact_iff {new_unchecked : MemoryRegion → Slice → E}
    (hsge : sge (new_unchecked mr data) = ⟨data.addr, data.len.toUInt32, mr.lkey⟩) :
    Exact sge mr data (ScatterGatherElement.new_checked new_unchecked mr data) ↔
      data.len ≠ 0 ∨ data.addr.toNat ≤ mr.address.toNat + mr.length.toNat := by
  have hbig : data.len > 4294967295 ↔ 2 ^ 32 ≤ data.len.toNat := UInt64.lt_iff_toNat_lt
  have hencloses := mr.encloses_slice_iff data
  unfold ScatterGatherElement.new_checked
  split_ifs with hlen henclosed
  · have hne : data.len ≠ 0 := by
      intro h
      rw [h] at hlen
      contradiction
    exact iff_of_true (exact_too_big (hbig.mp hlen)) (Or.inl hne)
  · have hsmall : data.len.toNat < 2 ^ 32 := Nat.lt_of_not_le (mt hbig.mpr hlen)
    rw [exact_ok_iff hsge hsmall]
    constructor
    · intro h
      exact Or.inr (by unfold MemoryRegion.Contains at h; omega)
    · intro h
      rcases hencloses.mp henclosed with hin | ⟨hempty, hbehind⟩
      · exact hin
      · rcases h with hne | hle
        · exact absurd hempty hne
        · omega
  · have hsmall : data.len.toNat < 2 ^ 32 := Nat.lt_of_not_le (mt hbig.mpr hlen)
    have hout : ¬ mr.Contains data := fun h => henclosed (hencloses.mpr (Or.inl h))
    refine iff_of_true (exact_not_within_bounds hsmall hout) ?_
    by_contra h
    rw [not_or, not_not, Nat.not_le] at h
    exact henclosed (hencloses.mpr (Or.inr h))

end Answers

/-- Without overflow, both constructors give exactly what the region contains, unless the slice is
empty and starts behind the end. -/
theorem new_checked_exact (mr : MemoryRegion) (data : Slice) :
    (Exact GatherElement.sge mr data (GatherElement.new_checked mr data) ∧
      Exact ScatterElement.sge mr data (ScatterElement.new_checked mr data) ∧
      GatherElement.new_checked_debug mr data = some (GatherElement.new_checked mr data) ∧
      ScatterElement.new_checked_debug mr data = some (ScatterElement.new_checked mr data)) ↔
    data.len ≠ 0 ∨ data.addr.toNat ≤ mr.address.toNat + mr.length.toNat := by
  constructor
  · intro h
    exact (exact_iff rfl).mp h.1
  · intro h
    exact ⟨(exact_iff rfl).mpr h, (exact_iff rfl).mpr h,
      ScatterGatherElement.new_checked_debug_eq _ mr data,
      ScatterGatherElement.new_checked_debug_eq _ mr data⟩

/-- An empty slice one page behind the region is taken for a part of it. -/
theorem new_checked_behind_end :
    GatherElement.new_checked ⟨0x1000, 80, 1, 2⟩ ⟨0x2000, 0⟩ = .ok ⟨0x2000, 0, 1⟩ ∧
    ScatterElement.new_checked ⟨0x1000, 80, 1, 2⟩ ⟨0x2000, 0⟩ = .ok ⟨0x2000, 0, 1⟩ ∧
    ¬ MemoryRegion.Contains ⟨0x1000, 80, 1, 2⟩ ⟨0x2000, 0⟩ ∧
    ¬ Exact GatherElement.sge ⟨0x1000, 80, 1, 2⟩ ⟨0x2000, 0⟩
      (GatherElement.new_checked ⟨0x1000, 80, 1, 2⟩ ⟨0x2000, 0⟩) := by
  have hout : ¬ MemoryRegion.Contains ⟨0x1000, 80, 1, 2⟩ ⟨0x2000, 0⟩ := by
    intro h
    have hend : 0x2000 + 0 ≤ 0x1000 + 80 := h.2
    omega
  refine ⟨rfl, rfl, hout, ?_⟩
  intro h
  cases h.outside.mpr ⟨by decide, hout⟩

end IbverbsRs.Ibverbs
