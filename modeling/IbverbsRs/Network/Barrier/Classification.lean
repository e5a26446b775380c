import IbverbsRs.Network.Barrier.Call

namespace IbverbsRs.Network

open Math

/-- The error that the contract of the peer list asks for, `none` for a list it accepts. -/
def contract (rank : Nat) (peers : List Nat) : Option BarrierError :=
  if ¬ peers.Pairwise (· ≤ ·) then some .UnorderedPeers
  else if ¬ peers.Nodup then some .DuplicatePeers
  else if rank ∉ peers then some .SelfNotInGroup
  else none

/-- The verdict of a call on its peer list. -/
def Start.verdict : Start → Option BarrierError
  | refused error | failed error => some error
  | running _ => none

/-- The call treats the list as the contract says, and runs the synchronization on an accepted
one. -/
def Barrier.FollowsContract (b : Barrier) (peers : List Nat) : Prop :=
  (b.start ⟨true, peers⟩).verdict = contract b.rank peers ∧
    (contract b.rank peers = none →
      b.start ⟨true, peers⟩ = .running (program b.algorithm b.rank peers))

theorem contract_of_ascending {rank : Nat} {peers : List Nat} (h : peers.Pairwise (· < ·)) :
    contract rank peers = if rank ∉ peers then some .SelfNotInGroup else none := by
  have hnodup : peers.Nodup := h.imp ne_of_lt
  rw [contract, if_neg (not_not.mpr (h.imp le_of_lt)), if_neg (not_not.mpr hnodup)]

/-- A list that is not strictly ascending is refused alike by all algorithms. -/
theorem Barrier.start_of_not_ascending (b : Barrier) {peers : List Nat}
    (h : ¬ peers.Pairwise (· < ·)) :
    ∃ e, b.start ⟨true, peers⟩ = .refused e ∧ contract b.rank peers = some e := by
  have hrefused {e : BarrierError} (he : validate_peer_list peers = .error e) :
      b.start ⟨true, peers⟩ = .refused e := by
    obtain ⟨alg, rank, mr, poisoned⟩ := b
    cases alg <;> simp [start, barrier, LinearBarrier.barrier, BinaryTreeBarrier.barrier,
      DisseminationBarrier.barrier, validated, he]
  rcases validate_peer_list_cases peers with ⟨hv, hn⟩ | ⟨hv, hs, hn⟩ | ⟨_, hs⟩
  · exact ⟨_, hrefused hv, by rw [contract, if_pos hn]⟩
  · exact ⟨_, hrefused hv, by rw [contract, if_neg (not_not.mpr hs), if_pos hn]⟩
  · exact absurd hs h

/-- A member of an ascending list gets its program, whatever the algorithm. -/
theorem Barrier.start_of_member {b : Barrier} (hfresh : b.poisoned = false) {peers : List Nat}
    (h : peers.Pairwise (· < ·)) (hmem : b.rank ∈ peers) :
    b.start ⟨true, peers⟩ = .running (program b.algorithm b.rank peers) := by
  rw [b.start_of_accepts (fun _ => ⟨h, fun _ => hmem⟩), unchecked, hfresh,
    (run_barrier_of_mem h hmem).1]
  rfl

/-- A stranger is found out, unless the tree or the dissemination sees fewer than two ranks. -/
theorem Barrier.start_of_stranger {b : Barrier} (hfresh : b.poisoned = false) {peers : List Nat}
    (h : peers.Pairwise (· < ·)) (hmem : b.rank ∉ peers) :
    (b.start ⟨true, peers⟩).verdict =
      if b.algorithm = .Centralized ∨ 2 ≤ peers.length then some .SelfNotInGroup else none := by
  obtain ⟨alg, rank, mr, poisoned⟩ := b
  obtain rfl : poisoned = false := hfresh
  obtain ⟨k, hk⟩ := binary_search_absent hmem
  have hvalid := (validate_peer_list_ok_iff peers).mpr h
  cases alg with
  | Centralized =>
    simp [start, barrier, LinearBarrier.barrier, hvalid, hk, Start.verdict]
  | BinaryTree =>
    by_cases hlen : peers.length < 2
    · simp [start, barrier, BinaryTreeBarrier.barrier, validated, hvalid, unchecked,
        BinaryTreeBarrier.run_barrier, hlen, Nat.not_le.mpr hlen, Start.verdict]
    · simp [start, barrier, BinaryTreeBarrier.barrier, validated, hvalid, unchecked,
        BinaryTreeBarrier.run_barrier, hlen, Nat.not_lt.mp hlen, hk, Start.verdict]
  | Dissemination =>
    by_cases hlen : peers.length < 2
    · simp [start, barrier, DisseminationBarrier.barrier, validated, hvalid, unchecked,
        DisseminationBarrier.run_barrier, hlen, Nat.not_le.mpr hlen, Start.verdict]
    · simp [start, barrier, DisseminationBarrier.barrier, validated, hvalid, unchecked,
        DisseminationBarrier.run_barrier, hlen, Nat.not_lt.mp hlen, hk, Start.verdict]

theorem ascending_of_short {peers : List Nat} (h : peers.length < 2) : peers.Pairwise (· < ·) := by
  rcases peers with _ | ⟨a, _ | ⟨b, rest⟩⟩
  · exact .nil
  · exact List.pairwise_singleton _ a
  · simp only [List.length_cons] at h
    omega

/-- The three algorithms follow the contract on every list of two ranks or more, and on a shorter
one unless the node's own rank is missing and the algorithm looks for it too late. -/
theorem Barrier.followsContract_iff (algorithm : BarrierAlgorithm) (rank : Nat) (mr : BarrierMr)
    (peers : List Nat) :
    (Barrier.mk algorithm rank mr false).FollowsContract peers ↔
      algorithm = .Centralized ∨ 2 ≤ peers.length ∨ rank ∈ peers := by
  by_cases hasc : peers.Pairwise (· < ·)
  · by_cases hmem : rank ∈ peers
    · have hrun := start_of_member (b := ⟨algorithm, rank, mr, false⟩) rfl hasc hmem
      have hcontract : contract rank peers = none := by
        rw [contract_of_ascending hasc, if_neg (not_not.mpr hmem)]
      simp [FollowsContract, hrun, hcontract, hmem, Start.verdict]
    · have hstart := start_of_stranger (b := ⟨algorithm, rank, mr, false⟩) rfl hasc hmem
      have hcontract : contract rank peers = some .SelfNotInGroup := by
        rw [contract_of_ascending hasc, if_pos hmem]
      simp only [FollowsContract, hstart, hcontract, hmem, or_false]
      by_cases hlate : algorithm = .Centralized ∨ 2 ≤ peers.length
      · simp [hlate]
      · simp [hlate]
  · obtain ⟨e, hstart, hcontract⟩ :=
      (Barrier.mk algorithm rank mr false).start_of_not_ascending hasc
    have hlong : 2 ≤ peers.length := by
      by_contra hshort
      exact hasc (ascending_of_short (Nat.not_le.mp hshort))
    simp [FollowsContract, hstart, hcontract, hlong, Start.verdict]

/-- A node of rank 0 that asks for a barrier of rank 1 alone. -/
theorem Barrier.lone_stranger_synchronizes :
    (Barrier.new .BinaryTree 0 2).start ⟨true, [1]⟩ = .running [] ∧
    (Barrier.new .Dissemination 0 2).start ⟨true, [1]⟩ = .running [] ∧
    (Barrier.new .Centralized 0 2).start ⟨true, [1]⟩ = .refused .SelfNotInGroup ∧
    contract 0 [1] = some .SelfNotInGroup ∧
    ¬ (Barrier.new .BinaryTree 0 2).FollowsContract [1] ∧
    ¬ (Barrier.new .Dissemination 0 2).FollowsContract [1] := by
  refine ⟨rfl, rfl, rfl, rfl, ?_, ?_⟩
  · intro h
    cases h.1
  · intro h
    cases h.1

end IbverbsRs.Network
