import IbverbsRs.MultiChannel.Builder
import IbverbsRs.MultiChannel.WorkRequest
import IbverbsRs.Network.Barrier.Call

namespace IbverbsRs.Network

open Ibverbs Framework

/-- `size_of::<BarrierPeerFlags>()` and `offset_of!` of its fields: three `#[repr(C)]` words of
eight bytes. -/
def BarrierPeerFlags.size : Nat := 24
def BarrierPeerFlags.offset_expected_in_epoch : Nat := 0
def BarrierPeerFlags.offset_out_epoch : Nat := 8
def BarrierPeerFlags.offset_in_epoch : Nat := 16

/-- The flag array with its place in memory and its registration. -/
structure PreparedBarrierMr extends BarrierMr where
  memory_addr : UInt64
  mr : MemoryRegion
  deriving DecidableEq, Repr

structure LinkedBarrierMr extends PreparedBarrierMr where
  remote_mrs : List PeerRemoteMemoryRegion
  deriving DecidableEq, Repr

namespace PreparedBarrierMr

/-- `memory_addr` is where the allocator puts the array. -/
def new (pd : ProtectionDomain) (memory_addr : UInt64) (rank world_size : Nat) :
    Except IbvError PreparedBarrierMr := do
  let memory_bytes : Slice := ⟨memory_addr, UInt64.ofNat (world_size * BarrierPeerFlags.size)⟩
  let (lkey, rkey) ← pd.register_shared_mr memory_bytes
  .ok ⟨BarrierMr.new rank world_size, memory_addr, ⟨memory_bytes.addr, memory_bytes.len, lkey, rkey⟩⟩

def remote (self : PreparedBarrierMr) : PeerRemoteMemoryRegion := ⟨self.rank, self.mr.remote⟩

def link_remote (self : PreparedBarrierMr) (remote_mrs : List PeerRemoteMemoryRegion) :
    LinkedBarrierMr := ⟨self, remote_mrs⟩

end PreparedBarrierMr

structure PreparedBarrier where
  algorithm : BarrierAlgorithm
  rank : Nat
  barrier_mr : PreparedBarrierMr
  deriving DecidableEq, Repr

structure LinkedBarrier where
  algorithm : BarrierAlgorithm
  rank : Nat
  barrier_mr : LinkedBarrierMr
  poisoned : Bool
  deriving DecidableEq, Repr

/-- The barrier without its addresses. -/
def LinkedBarrier.toBarrier (self : LinkedBarrier) : Barrier :=
  ⟨self.algorithm, self.rank, self.barrier_mr.toBarrierMr, self.poisoned⟩

def BarrierAlgorithm.instance (self : BarrierAlgorithm) (pd : ProtectionDomain)
    (memory_addr : UInt64) (rank world_size : Nat) : Except IbvError PreparedBarrier :=
  (PreparedBarrierMr.new pd memory_addr rank world_size).map (PreparedBarrier.mk self rank)

namespace PreparedBarrier

def remote_mr (self : PreparedBarrier) : PeerRemoteMemoryRegion := self.barrier_mr.remote

def link_remote (self : PreparedBarrier) (remote_mrs : List PeerRemoteMemoryRegion) :
    LinkedBarrier := ⟨self.algorithm, self.rank, self.barrier_mr.link_remote remote_mrs, false⟩

end PreparedBarrier

/-- A new barrier has the rank it was built for, and all counters at zero. -/
theorem BarrierAlgorithm.instance_spec {algorithm : BarrierAlgorithm} {pd : ProtectionDomain}
    {memory_addr : UInt64} {rank world_size : Nat} {self : PreparedBarrier}
    (h : algorithm.instance pd memory_addr rank world_size = .ok self) :
    self.rank = rank ∧ self.barrier_mr.toBarrierMr = BarrierMr.new rank world_size ∧
    self.barrier_mr.mr.address = memory_addr ∧
    self.barrier_mr.mr.length = UInt64.ofNat (world_size * BarrierPeerFlags.size) ∧
    self.barrier_mr.memory_addr = memory_addr ∧
    ∀ remote_mrs, (self.link_remote remote_mrs).toBarrier =
      Barrier.new algorithm rank world_size := by
  obtain ⟨barrier_mr, hmr, rfl⟩ := ok_map_cases h
  obtain ⟨⟨lkey, rkey⟩, _, hnew⟩ := ok_bind_cases hmr
  obtain rfl := Except.ok.inj hnew
  exact ⟨rfl, rfl, rfl, rfl, rfl, fun _ => rfl⟩

end IbverbsRs.Network
