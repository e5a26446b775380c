import IbverbsRs.Ibverbs.Memory.RemoteMemoryRegion

namespace IbverbsRs.Ibverbs

/-- Registered local memory. -/
structure MemoryRegion where
  address : UInt64
  length : UInt64
  lkey : UInt32
  rkey : UInt32
  deriving DecidableEq, Repr

/-- A slice of local memory that the NIC reads from. -/
structure GatherElement where
  addr : UInt64
  length : UInt32
  lkey : UInt32
  deriving DecidableEq, Repr

/-- `as_ptr` and `len` of a byte slice. -/
structure Slice where
  addr : UInt64
  len : UInt64
  deriving DecidableEq, Repr

namespace MemoryRegion

def remote (self : MemoryRegion) : RemoteMemoryRegion := ⟨self.address, self.length, self.rkey⟩

def gather_element_unchecked (self : MemoryRegion) (data : Slice) : GatherElement :=
  ⟨data.addr, data.len.toUInt32, self.lkey⟩

end MemoryRegion

end IbverbsRs.Ibverbs
