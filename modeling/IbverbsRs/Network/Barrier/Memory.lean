import Mathlib.Data.List.Basic
import Mathlib.Data.List.Count
import IbverbsRs.Ibverbs.Error

namespace IbverbsRs.Network

/-- The three epoch counters kept for one peer. They are `u64` in memory; a counter moves
at most once in a call (`WorldInv.epochs_le_calls`), so naturals are exact below `2^64` calls. -/
structure BarrierPeerFlags where
  expected_in_epoch : Nat
  out_epoch : Nat
  in_epoch : Nat
  deriving DecidableEq, Repr

def BarrierPeerFlags.new : BarrierPeerFlags := ⟨0, 0, 0⟩

/-- The flag array of one node, one slot for each rank of the world. -/
structure BarrierMr where
  rank : Nat
  memory : List BarrierPeerFlags
  deriving DecidableEq, Repr

namespace BarrierMr

def new (rank world_size : Nat) : BarrierMr :=
  ⟨rank, List.replicate world_size BarrierPeerFlags.new⟩

/-- Writes through `self.memory[peer]`; an index out of range panics (`none`). -/
def update (mr : BarrierMr) (peer : Nat) (f : BarrierPeerFlags → BarrierPeerFlags) :
    Option BarrierMr :=
  if peer < mr.memory.length then some { mr with memory := mr.memory.modify peer f } else none

def increase_out_epoch (mr : BarrierMr) (peer : Nat) : Option BarrierMr :=
  mr.update peer (fun flags => { flags with out_epoch := flags.out_epoch + 1 })

def increase_peer_expected_epoch (mr : BarrierMr) (peer : Nat) : Option BarrierMr :=
  mr.update peer (fun flags => { flags with expected_in_epoch := flags.expected_in_epoch + 1 })

/-- A remote write of eight bytes into the `in_epoch` field of slot `source`. -/
def place_in_epoch (mr : BarrierMr) (source value : Nat) : Option BarrierMr :=
  mr.update source (fun flags => { flags with in_epoch := value })

/-- The bytes the NIC gathers for a notification of `peer`. -/
def out_epoch (mr : BarrierMr) (peer : Nat) : Option Nat :=
  (mr.memory[peer]?).map (·.out_epoch)

def is_peer_epoch_expected (mr : BarrierMr) (peer : Nat) : Option Bool :=
  (mr.memory[peer]?).map (fun flags => decide (flags.in_epoch ≥ flags.expected_in_epoch))

/-- The counters of a peer, as the specification reads them. -/
def flags (mr : BarrierMr) (peer : Nat) : BarrierPeerFlags :=
  mr.memory.getD peer BarrierPeerFlags.new

theorem update_eq_some {mr mr' : BarrierMr} {peer : Nat}
    {f : BarrierPeerFlags → BarrierPeerFlags} (h : mr.update peer f = some mr') :
    peer < mr.memory.length ∧ mr' = { mr with memory := mr.memory.modify peer f } := by
  unfold update at h
  split_ifs at h with hp
  exact ⟨hp, (Option.some.inj h).symm⟩

theorem update_isSome {mr : BarrierMr} {peer : Nat} (f : BarrierPeerFlags → BarrierPeerFlags)
    (hp : peer < mr.memory.length) : ∃ mr', mr.update peer f = some mr' := by
  exact ⟨_, if_pos hp⟩

theorem update_length {mr mr' : BarrierMr} {peer : Nat}
    {f : BarrierPeerFlags → BarrierPeerFlags} (h : mr.update peer f = some mr') :
    mr'.memory.length = mr.memory.length := by
  obtain ⟨_, rfl⟩ := update_eq_some h
  simp

/-- A write through one slot changes that slot by `f` and no other. -/
theorem update_flags {mr mr' : BarrierMr} {peer : Nat}
    {f : BarrierPeerFlags → BarrierPeerFlags} (h : mr.update peer f = some mr') (q : Nat) :
    mr'.flags q = if q = peer then f (mr.flags q) else mr.flags q := by
  obtain ⟨hp, rfl⟩ := update_eq_some h
  simp only [flags, List.getD_eq_getElem?_getD, List.getElem?_modify]
  by_cases hq : q = peer
  · subst hq
    simp [List.getElem?_eq_getElem hp]
  · simp [hq, Ne.symm hq]

theorem flags_new (rank world_size q : Nat) :
    (new rank world_size).flags q = BarrierPeerFlags.new := by
  simp only [flags, new, List.getD_eq_getElem?_getD, List.getElem?_replicate]
  split_ifs <;> rfl

theorem out_epoch_eq_some {mr : BarrierMr} {peer value : Nat}
    (h : mr.out_epoch peer = some value) : (mr.flags peer).out_epoch = value := by
  obtain ⟨fl, hf, rfl⟩ := Option.map_eq_some_iff.mp h
  simp [flags, List.getD_eq_getElem?_getD, hf]

theorem out_epoch_isSome {mr : BarrierMr} {peer : Nat} (hp : peer < mr.memory.length) :
    ∃ value, mr.out_epoch peer = some value :=
  ⟨_, by rw [out_epoch, List.getElem?_eq_getElem hp, Option.map_some]⟩

theorem is_peer_epoch_expected_iff {mr : BarrierMr} {peer : Nat}
    (hp : peer < mr.memory.length) :
    mr.is_peer_epoch_expected peer = some true ↔
      (mr.flags peer).expected_in_epoch ≤ (mr.flags peer).in_epoch := by
  simp [is_peer_epoch_expected, flags, List.getD_eq_getElem?_getD,
    List.getElem?_eq_getElem hp]

end BarrierMr

/-- One step of a synchronization that other nodes or the NIC can interleave with. A
notification raises the counter, posts the write of its new value and spins on the
completion; a wait raises the expected value and spins on the incoming one. -/
inductive BarrierOp
  | increaseOut (peer : Nat)
  | postWrite (peer : Nat)
  | awaitWrite (peer : Nat)
  | increaseExpected (peer : Nat)
  | spinPoll (peer : Nat)
  deriving DecidableEq, Repr

def BarrierOp.peer : BarrierOp → Nat
  | .increaseOut p | .postWrite p | .awaitWrite p | .increaseExpected p | .spinPoll p => p

/-- `MultiChannel::write` posts one request and spins until it completes. -/
def notify_peer (peer : Nat) : List BarrierOp :=
  [.increaseOut peer, .postWrite peer, .awaitWrite peer]

/-- All counters are raised first, then `MultiChannel::scatter_write` posts the requests in
order and polls them in order, stopping at the first failure. -/
def scatter_notify_peers (peers : List Nat) : List BarrierOp :=
  peers.map .increaseOut ++ peers.map .postWrite ++ peers.map .awaitWrite

/-- `increase_peer_expected_epoch` followed by `spin_poll_peer_epoch_expected`. -/
def wait_peer (peer : Nat) : List BarrierOp := [.increaseExpected peer, .spinPoll peer]

end IbverbsRs.Network
