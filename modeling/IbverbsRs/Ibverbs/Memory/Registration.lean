import IbverbsRs.Framework.Segments
import IbverbsRs.Ibverbs.Memory.ScatterGatherElement

namespace IbverbsRs.Ibverbs

open Framework

/-- A bitmask of `ibv_access_flags`. -/
structure AccessFlags where
  bits : UInt32
  deriving DecidableEq, Repr

namespace AccessFlags

def IBV_ACCESS_LOCAL_WRITE : UInt32 := 1
def IBV_ACCESS_REMOTE_WRITE : UInt32 := 2
def IBV_ACCESS_REMOTE_READ : UInt32 := 4

def new : AccessFlags := ⟨0⟩

def with_local_write (self : AccessFlags) : AccessFlags := ⟨self.bits ||| IBV_ACCESS_LOCAL_WRITE⟩

def with_remote_read (self : AccessFlags) : AccessFlags := ⟨self.bits ||| IBV_ACCESS_REMOTE_READ⟩

def with_remote_write (self : AccessFlags) : AccessFlags := ⟨self.bits ||| IBV_ACCESS_REMOTE_WRITE⟩

def code (self : AccessFlags) : UInt32 := self.bits

def allows (self : AccessFlags) (flag : UInt32) : Bool := self.code &&& flag == flag

end AccessFlags

open AccessFlags

def MemoryRegion.segment (self : MemoryRegion) : Segment := ⟨self.address.toNat, self.length.toNat⟩

def Slice.segment (self : Slice) : Segment := ⟨self.addr.toNat, self.len.toNat⟩

def IbvSge.segment (self : IbvSge) : Segment := ⟨self.addr.toNat, self.length.toNat⟩

/-- A registration as the device knows it, until the `MemoryRegion` is dropped. -/
structure Registration where
  mr : MemoryRegion
  access : AccessFlags
  alive : Bool
  deriving DecidableEq, Repr

namespace Registration

/-- `mr` holds the keys that the driver has chosen. -/
def register_mr_with_access (mr : MemoryRegion) (access_flags : AccessFlags) : Registration :=
  ⟨mr, access_flags, true⟩

def register_local_mr (mr : MemoryRegion) : Registration :=
  register_mr_with_access mr AccessFlags.new.with_local_write

def register_shared_mr (mr : MemoryRegion) : Registration :=
  register_mr_with_access mr AccessFlags.new.with_local_write.with_remote_read.with_remote_write

/-- The device's check of a local element. -/
def admits (self : Registration) (flag : UInt32) (sge : IbvSge) : Bool :=
  self.alive && sge.lkey == self.mr.lkey && self.access.allows flag &&
    decide (sge.segment.Within self.mr.segment)

/-- The device's check of a one-sided operation of a peer. -/
def reaches (self : Registration) (flag rkey : UInt32) (target : Segment) : Bool :=
  self.alive && rkey == self.mr.rkey && self.access.allows flag &&
    decide (target.Within self.mr.segment)

/-- Peers may write to the cells, now or once in the past. -/
def exposes (self : Registration) (x : Nat) : Prop :=
  self.access.allows IBV_ACCESS_REMOTE_WRITE = true ∧ self.mr.segment.Covers x

instance (self : Registration) (x : Nat) : Decidable (self.exposes x) :=
  inferInstanceAs (Decidable (_ ∧ _))

/-- What was registered with `register_local_mr` is never exposed. -/
theorem register_local_mr_private (mr : MemoryRegion) (x : Nat) :
    ¬ (register_local_mr mr).exposes x := by
  have hlocal : AccessFlags.new.with_local_write.allows IBV_ACCESS_REMOTE_WRITE = false := by decide
  intro h
  cases h.1.symm.trans hlocal

/-- What was registered with `register_shared_mr` is exposed as a whole. -/
theorem register_shared_mr_exposes (mr : MemoryRegion) (x : Nat) :
    (register_shared_mr mr).exposes x ↔ mr.segment.Covers x := by
  have hshared : AccessFlags.new.with_local_write.with_remote_read.with_remote_write.allows
      IBV_ACCESS_REMOTE_WRITE = true := by decide
  exact and_iff_right hshared

end Registration

/-- An element made of a slice denotes a part of the slice, from its start on. -/
theorem new_unchecked_opens (mr : MemoryRegion) (data : Slice) :
    (GatherElement.new_unchecked mr data).sge.segment.Opens data.segment :=
  ⟨rfl, Nat.le_trans (Nat.le_of_eq (UInt64.toNat_toUInt32 data.len)) (Nat.mod_le _ _)⟩

end IbverbsRs.Ibverbs
