import IbverbsRs.Math.Usize
import Mathlib.Algebra.Ring.Nat
import Mathlib.Tactic.Common

namespace IbverbsRs.Ibverbs

open Math

/-- Where a one-sided operation can reach into the memory of a peer. -/
structure RemoteMemoryRegion where
  addr : UInt64
  length : UInt64
  rkey : UInt32
  deriving DecidableEq, Repr

namespace RemoteMemoryRegion

/-- A handle on the bytes from `offset` on. -/
def sub_region (self : RemoteMemoryRegion) (offset : UInt64) : Option RemoteMemoryRegion :=
  if offset > self.length then none
  else (checked_add self.addr offset).map (fun addr => ⟨addr, self.length - offset, self.rkey⟩)

/-- A handle on the bytes from `offset` on. Nothing is checked, and arithmetic wraps. -/
def sub_region_unchecked (self : RemoteMemoryRegion) (offset : UInt64) : RemoteMemoryRegion :=
  ⟨self.addr + offset, self.length - offset, self.rkey⟩

/-- `sub_region` in a build that panics when arithmetic overflows (the outer `none`). -/
def sub_region_debug (self : RemoteMemoryRegion) (offset : UInt64) :
    OptionT Option RemoteMemoryRegion :=
  if offset > self.length then OptionT.mk (some none)
  else
    match checked_add self.addr offset with
    | none => OptionT.mk (some none)
    | some addr =>
      OptionT.lift ((checked_sub self.length offset).map (fun length => ⟨addr, length, self.rkey⟩))

/-- `sub_region` at an offset of any size, which no handle can start at unless it fits. -/
def sub_region_at (self : RemoteMemoryRegion) (offset : Nat) : Option RemoteMemoryRegion :=
  (try_from offset).bind self.sub_region

/-- The end of the region, which may lie beyond the last address. -/
def stop (self : RemoteMemoryRegion) : Nat := self.addr.toNat + self.length.toNat

/-- A part of the region up to its very end. -/
structure Tail (self part : RemoteMemoryRegion) : Prop where
  rkey : part.rkey = self.rkey
  start : self.addr.toNat ≤ part.addr.toNat
  stop : part.stop = self.stop

theorem sub_region_eq_some {self part : RemoteMemoryRegion} {offset : UInt64} :
    self.sub_region offset = some part ↔ part.rkey = self.rkey ∧
      part.addr.toNat = self.addr.toNat + offset.toNat ∧
      part.length.toNat + offset.toNat = self.length.toNat := by
  unfold sub_region
  split_ifs with h
  · rw [gt_iff_lt, UInt64.lt_iff_toNat_lt] at h
    simp only [false_iff]
    omega
  · have hle : offset ≤ self.length := UInt64.not_lt.mp h
    have hsub := UInt64.toNat_sub_of_le _ _ hle
    rw [UInt64.le_iff_toNat_le] at hle
    rw [Option.map_eq_some_iff]
    constructor
    · intro hpart
      obtain ⟨addr, haddr, rfl⟩ := hpart
      refine ⟨rfl, checked_add_eq_some.mp haddr, ?_⟩
      change (self.length - offset).toNat + offset.toNat = self.length.toNat
      omega
    · intro hpart
      obtain ⟨hrkey, haddr, hlength⟩ := hpart
      have hlen : self.length - offset = part.length := by
        rw [← UInt64.toNat_inj]
        omega
      exact ⟨part.addr, checked_add_eq_some.mpr haddr, by rw [hlen, ← hrkey]⟩

theorem sub_region_at_toNat (self : RemoteMemoryRegion) (offset : UInt64) :
    self.sub_region_at offset.toNat = self.sub_region offset := by
  rw [sub_region_at, try_from_toNat, Option.bind_some]

theorem sub_region_at_eq_some {self part : RemoteMemoryRegion} {offset : Nat} :
    self.sub_region_at offset = some part ↔ part.rkey = self.rkey ∧
      part.addr.toNat = self.addr.toNat + offset ∧
      part.length.toNat + offset = self.length.toNat := by
  rcases Nat.lt_or_ge offset (2 ^ 64) with h | h
  · obtain ⟨x, hx⟩ := exists_try_from h
    rw [sub_region_at, hx, Option.bind_some, sub_region_eq_some, try_from_eq_some.mp hx]
  · rw [sub_region_at, try_from_eq_none.mpr h, Option.bind_none]
    have hlt : self.length.toNat < 2 ^ 64 := self.length.toNat_lt
    simp only [reduceCtorEq, false_iff]
    omega

theorem isSome_sub_region_at (self : RemoteMemoryRegion) (offset : Nat) :
    (self.sub_region_at offset).isSome ↔
      offset ≤ self.length.toNat ∧ self.addr.toNat + offset < 2 ^ 64 := by
  rw [Option.isSome_iff_exists]
  constructor
  · intro h
    obtain ⟨part, hpart⟩ := h
    obtain ⟨_, haddr, hlength⟩ := sub_region_at_eq_some.mp hpart
    have hlt : part.addr.toNat < 2 ^ 64 := part.addr.toNat_lt
    omega
  · intro h
    have hlengths : self.length.toNat < 2 ^ 64 := self.length.toNat_lt
    obtain ⟨addr, haddr⟩ := exists_try_from h.2
    obtain ⟨length, hlength⟩ := exists_try_from (n := self.length.toNat - offset) (by omega)
    have hlength := try_from_eq_some.mp hlength
    refine ⟨⟨addr, length, self.rkey⟩, sub_region_at_eq_some.mpr
      ⟨rfl, try_from_eq_some.mp haddr, ?_⟩⟩
    change length.toNat + offset = self.length.toNat
    omega

theorem sub_region_at_zero (self : RemoteMemoryRegion) : self.sub_region_at 0 = some self :=
  sub_region_at_eq_some.mpr ⟨rfl, rfl, rfl⟩

/-- Two offsets in a row are their sum, also where the sum or an address does not fit. -/
theorem sub_region_at_bind (self : RemoteMemoryRegion) (a b : Nat) :
    (self.sub_region_at a).bind (fun part => part.sub_region_at b) = self.sub_region_at (a + b) := by
  apply Option.ext
  intro part
  rw [Option.bind_eq_some_iff, sub_region_at_eq_some]
  constructor
  · intro h
    obtain ⟨mid, hmid, hpart⟩ := h
    obtain ⟨hrkey, haddr, hlength⟩ := sub_region_at_eq_some.mp hmid
    obtain ⟨hrkey', haddr', hlength'⟩ := sub_region_at_eq_some.mp hpart
    exact ⟨hrkey'.trans hrkey, by omega, by omega⟩
  · intro h
    obtain ⟨hrkey, haddr, hlength⟩ := h
    have hlt : part.addr.toNat < 2 ^ 64 := part.addr.toNat_lt
    obtain ⟨mid, hmid⟩ := Option.isSome_iff_exists.mp
      ((isSome_sub_region_at self a).mpr ⟨by omega, by omega⟩)
    obtain ⟨hrkey', haddr', hlength'⟩ := sub_region_at_eq_some.mp hmid
    exact ⟨mid, hmid, sub_region_at_eq_some.mpr ⟨hrkey.trans hrkey'.symm, by omega, by omega⟩⟩

theorem foldlM_sub_region (self : RemoteMemoryRegion) (offsets : List UInt64) :
    offsets.foldlM sub_region self = self.sub_region_at (offsets.map UInt64.toNat).sum := by
  induction offsets generalizing self with
  | nil => exact (sub_region_at_zero self).symm
  | cons offset rest ih =>
    rw [List.foldlM_cons, List.map_cons, List.sum_cons, ← sub_region_at_bind, sub_region_at_toNat]
    exact congrArg _ (funext ih)

theorem tail_of_sub_region_at {self part : RemoteMemoryRegion} {offset : Nat}
    (h : self.sub_region_at offset = some part) : self.Tail part := by
  obtain ⟨hrkey, haddr, hlength⟩ := sub_region_at_eq_some.mp h
  refine ⟨hrkey, by omega, ?_⟩
  rw [stop, stop]
  omega

/-- No subtraction overflows behind the check of the length. -/
theorem sub_region_debug_eq (self : RemoteMemoryRegion) (offset : UInt64) :
    self.sub_region_debug offset = OptionT.mk (some (self.sub_region offset)) := by
  unfold sub_region_debug sub_region
  split_ifs with h
  · rfl
  · rw [checked_sub_of_le (UInt64.not_lt.mp h)]
    cases checked_add self.addr offset <;> rfl

end RemoteMemoryRegion

end IbverbsRs.Ibverbs
