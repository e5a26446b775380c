import IbverbsRs.Ibverbs.Memory.MemoryRegion
import Mathlib.Tactic.SplitIfs

namespace IbverbsRs

open Ibverbs

namespace Ibverbs

structure WriteWorkRequest where
  gather_elements : List GatherElement
  remote_mr : RemoteMemoryRegion
  imm_data : Option UInt32
  deriving DecidableEq, Repr

/-- `none` is the panic on a list of more than `i32::MAX` elements. -/
def WriteWorkRequest.new (gather_elements : List GatherElement) (remote_slice : RemoteMemoryRegion) :
    Option WriteWorkRequest :=
  if gather_elements.length ≤ 2147483647 then some ⟨gather_elements, remote_slice, none⟩ else none

end Ibverbs

/-- Remote memory together with the peer it belongs to. -/
structure PeerRemoteMemoryRegion where
  peer : Nat
  remote_mr : RemoteMemoryRegion
  deriving DecidableEq, Repr

def PeerRemoteMemoryRegion.sub_region_unchecked (self : PeerRemoteMemoryRegion)
    (offset : UInt64) : PeerRemoteMemoryRegion :=
  ⟨self.peer, self.remote_mr.sub_region_unchecked offset⟩

/-- `remote_struct_array_field_unchecked!` for structs of `struct_size` bytes with the field at
`field_offset`. -/
def remote_struct_array_field_unchecked (mr : PeerRemoteMemoryRegion)
    (struct_size field_offset index : UInt64) : PeerRemoteMemoryRegion :=
  let total_offset := index * struct_size + field_offset
  mr.sub_region_unchecked total_offset

structure PeerWriteWorkRequest where
  peer : Nat
  wr : WriteWorkRequest
  deriving DecidableEq, Repr

/-- The request goes to the peer of the memory it writes. -/
def PeerWriteWorkRequest.new (gather_elements : List GatherElement)
    (peer_remote_mr : PeerRemoteMemoryRegion) : Option PeerWriteWorkRequest :=
  (WriteWorkRequest.new gather_elements peer_remote_mr.remote_mr).map
    (fun wr => ⟨peer_remote_mr.peer, wr⟩)

theorem PeerWriteWorkRequest.new_spec {gather_elements : List GatherElement}
    {peer_remote_mr : PeerRemoteMemoryRegion} {wr : PeerWriteWorkRequest}
    (h : PeerWriteWorkRequest.new gather_elements peer_remote_mr = some wr) :
    wr = ⟨peer_remote_mr.peer, ⟨gather_elements, peer_remote_mr.remote_mr, none⟩⟩ := by
  obtain ⟨inner, hinner, rfl⟩ := Option.map_eq_some_iff.mp h
  unfold WriteWorkRequest.new at hinner
  split_ifs at hinner
  rw [← Option.some.inj hinner]

end IbverbsRs
