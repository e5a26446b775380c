import IbverbsRs.Network.Barrier.BinaryTree
import IbverbsRs.Network.Barrier.Dissemination
import IbverbsRs.Network.Barrier.Linear

namespace IbverbsRs.Network

open Framework Math SignalOp

inductive BarrierAlgorithm
  | Centralized
  | BinaryTree
  | Dissemination
  deriving DecidableEq, Repr

/-- What a call does before its first operation: it returns an error, which the poison flag
records only if it comes from the synchronization itself, or it starts a program. -/
inductive Start
  | refused (error : BarrierError)
  | failed (error : BarrierError)
  | running (ops : List BarrierOp)

/-- The common `barrier_unchecked`: the poison check in front of `run_barrier`. -/
def unchecked (run_barrier : Nat → List Nat → Except BarrierError (List BarrierOp))
    (rank : Nat) (poisoned : Bool) (peers : List Nat) : Start :=
  if poisoned then .refused .Poisoned
  else
    match run_barrier rank peers with
    | .error e => .failed e
    | .ok ops => .running ops

/-- The common `barrier`: the list is validated before the poison check. -/
def validated (run_barrier : Nat → List Nat → Except BarrierError (List BarrierOp))
    (rank : Nat) (poisoned : Bool) (peers : List Nat) : Start :=
  match validate_peer_list peers with
  | .error e => .refused e
  | .ok () => unchecked run_barrier rank poisoned peers

def LinearBarrier.barrier_unchecked := unchecked LinearBarrier.run_barrier

/-- The only barrier that looks for its own rank before the poison check. -/
def LinearBarrier.barrier (rank : Nat) (poisoned : Bool) (peers : List Nat) : Start :=
  match validate_peer_list peers with
  | .error e => .refused e
  | .ok () =>
    match binary_search peers rank with
    | .error _ => .refused .SelfNotInGroup
    | .ok _ => LinearBarrier.barrier_unchecked rank poisoned peers

def BinaryTreeBarrier.barrier_unchecked := unchecked BinaryTreeBarrier.run_barrier

def BinaryTreeBarrier.barrier := validated BinaryTreeBarrier.run_barrier

def DisseminationBarrier.barrier_unchecked := unchecked DisseminationBarrier.run_barrier

def DisseminationBarrier.barrier := validated DisseminationBarrier.run_barrier

/-- A barrier of one of the three algorithms, linked to its peers. -/
structure Barrier where
  algorithm : BarrierAlgorithm
  rank : Nat
  barrier_mr : BarrierMr
  poisoned : Bool
  deriving DecidableEq, Repr

namespace Barrier

/-- `BarrierAlgorithm::instance` followed by `link_remote`. -/
def new (algorithm : BarrierAlgorithm) (rank world_size : Nat) : Barrier :=
  ⟨algorithm, rank, BarrierMr.new rank world_size, false⟩

def barrier (b : Barrier) (peers : List Nat) : Start :=
  match b.algorithm with
  | .Centralized => LinearBarrier.barrier b.rank b.poisoned peers
  | .BinaryTree => BinaryTreeBarrier.barrier b.rank b.poisoned peers
  | .Dissemination => DisseminationBarrier.barrier b.rank b.poisoned peers

def barrier_unchecked (b : Barrier) (peers : List Nat) : Start :=
  match b.algorithm with
  | .Centralized => LinearBarrier.barrier_unchecked b.rank b.poisoned peers
  | .BinaryTree => BinaryTreeBarrier.barrier_unchecked b.rank b.poisoned peers
  | .Dissemination => DisseminationBarrier.barrier_unchecked b.rank b.poisoned peers

end Barrier

/-- A call of a user: `barrier` when `checked`, `barrier_unchecked` otherwise. -/
structure Call where
  checked : Bool
  peers : List Nat
  deriving DecidableEq, Repr

def Barrier.start (b : Barrier) (call : Call) : Start :=
  if call.checked then b.barrier call.peers else b.barrier_unchecked call.peers

section Program

variable (alg : BarrierAlgorithm)

def BarrierAlgorithm.run_barrier : Nat → List Nat → Except BarrierError (List BarrierOp) :=
  match alg with
  | .Centralized => LinearBarrier.run_barrier
  | .BinaryTree => BinaryTreeBarrier.run_barrier
  | .Dissemination => DisseminationBarrier.run_barrier

/-- The operations of a call whose list is accepted. -/
def program (rank : Nat) (peers : List Nat) : List BarrierOp :=
  (alg.run_barrier rank peers).toOption.getD []

/-- The front of `barrier` lets the list through to the poison check. -/
def Accepts (rank : Nat) (peers : List Nat) : Prop :=
  peers.Pairwise (· < ·) ∧ (alg = .Centralized → rank ∈ peers)

def plan : Nat → Nat → List (SignalOp Nat) :=
  match alg with
  | .Centralized => linearPlan
  | .BinaryTree => treePlan
  | .Dissemination => disseminationPlan

theorem plan_discipline (n : Nat) : Discipline (List.range n) (plan alg n) := by
  cases alg with
  | Centralized => exact linearPlan_discipline n
  | BinaryTree => exact treePlan_discipline n
  | Dissemination => exact disseminationPlan_discipline n

theorem run_barrier_spec {G : List Nat} (hs : G.Pairwise (· < ·)) {p : Nat}
    (hp : p < G.length) : ∃ ops, alg.run_barrier G[p] G = .ok ops ∧ Blocks ops ∧
      signals ops = (plan alg G.length p).map (SignalOp.map (fun q => G.getD q 0)) := by
  cases alg with
  | Centralized => exact LinearBarrier.run_barrier_spec hs hp
  | BinaryTree => exact BinaryTreeBarrier.run_barrier_spec hs hp
  | Dissemination => exact DisseminationBarrier.run_barrier_spec hs hp

variable {alg}

/-- A member of a strictly ascending list always gets a program, made of whole blocks. -/
theorem run_barrier_of_mem {G : List Nat} (hs : G.Pairwise (· < ·)) {i : Nat} (hi : i ∈ G) :
    alg.run_barrier i G = .ok (program alg i G) ∧ Blocks (program alg i G) := by
  obtain ⟨p, hp, rfl⟩ := List.mem_iff_getElem.mp hi
  obtain ⟨ops, hops, hblocks, _⟩ := run_barrier_spec alg hs hp
  have hprog : program alg G[p] G = ops := by simp [program, hops, Except.toOption]
  rw [hprog]
  exact ⟨hops, hblocks⟩

/-- The programs of the members of one call form a synchronization. -/
theorem program_discipline {G : List Nat} (hs : G.Pairwise (· < ·)) :
    Discipline G (fun i => signals (program alg i G)) := by
  have hG : G = (List.range G.length).map (fun q => G.getD q 0) := by
    refine List.ext_getElem (by simp) (fun p hp _ => ?_)
    simp [List.getD_eq_getElem?_getD, List.getElem?_eq_getElem hp]
  have hget {p : Nat} (hp : p < G.length) : G.getD p 0 = G[p] := by
    simp [List.getD_eq_getElem?_getD, List.getElem?_eq_getElem hp]
  have himage : Discipline ((List.range G.length).map (fun q => G.getD q 0))
      (fun i => signals (program alg i G)) :=
    Discipline.image (plan_discipline alg G.length) ?_ ?_
  · rwa [← hG] at himage
  · intro p hp q hq hpq
    simp only [hget hp, hget hq] at hpq
    exact (List.Nodup.getElem_inj_iff (hs.imp ne_of_lt)).mp hpq
  · intro p hp
    obtain ⟨ops, hops, _, hsig⟩ := run_barrier_spec alg hs hp
    simp only [hget hp, program, hops, Except.toOption, Option.getD_some]
    exact hsig

/-- Every operation of a program concerns another member of the group. -/
theorem program_peer {G : List Nat} (hs : G.Pairwise (· < ·)) {i : Nat} (hi : i ∈ G)
    {op : BarrierOp} (hop : op ∈ program alg i G) : op.peer ∈ G ∧ op.peer ≠ i := by
  have hd : Discipline G (fun i => signals (program alg i G)) := program_discipline hs
  have hblocks : Blocks (program alg i G) := (run_barrier_of_mem hs hi).2
  obtain ⟨s, hmem, hpeer⟩ := hblocks.settled.exists_signal hop
  rw [← hpeer]
  exact hd.peers i hi s hmem

end Program

/-- The verdict in front of `barrier`, for all three algorithms at once. -/
theorem Barrier.start_checked (b : Barrier) (peers : List Nat) :
    (Accepts b.algorithm b.rank peers ∧
      b.start ⟨true, peers⟩ = b.start ⟨false, peers⟩) ∨
    (¬ Accepts b.algorithm b.rank peers ∧
      ∃ e, e ≠ .Poisoned ∧ b.start ⟨true, peers⟩ = .refused e) := by
  obtain ⟨alg, rank, mr, poisoned⟩ := b
  rcases validate_peer_list_cases peers with ⟨h, hn⟩ | ⟨h, _, hn⟩ | ⟨h, hs⟩
  · right
    refine ⟨fun ha => hn (ha.1.imp le_of_lt), .UnorderedPeers, by simp, ?_⟩
    cases alg <;> simp [start, barrier, LinearBarrier.barrier, BinaryTreeBarrier.barrier,
      DisseminationBarrier.barrier, validated, h]
  · right
    refine ⟨fun ha => hn (ha.1.imp ne_of_lt), .DuplicatePeers, by simp, ?_⟩
    cases alg <;> simp [start, barrier, LinearBarrier.barrier, BinaryTreeBarrier.barrier,
      DisseminationBarrier.barrier, validated, h]
  · cases alg with
    | BinaryTree =>
      exact Or.inl ⟨⟨hs, by simp⟩, by simp [start, barrier, barrier_unchecked,
        BinaryTreeBarrier.barrier, BinaryTreeBarrier.barrier_unchecked, validated, h]⟩
    | Dissemination =>
      exact Or.inl ⟨⟨hs, by simp⟩, by simp [start, barrier, barrier_unchecked,
        DisseminationBarrier.barrier, DisseminationBarrier.barrier_unchecked, validated, h]⟩
    | Centralized =>
      by_cases hmem : rank ∈ peers
      · obtain ⟨p, hp, rfl⟩ := List.mem_iff_getElem.mp hmem
        have hidx := binary_search_eq_ok hs (List.getElem?_eq_getElem hp)
        exact Or.inl ⟨⟨hs, fun _ => hmem⟩, by simp [start, barrier, barrier_unchecked,
          LinearBarrier.barrier, h, hidx]⟩
      · obtain ⟨k, hk⟩ := binary_search_absent hmem
        exact Or.inr ⟨fun ha => hmem (ha.2 rfl), .SelfNotInGroup, by simp, by
          simp [start, barrier, LinearBarrier.barrier, h, hk]⟩

/-- Past the front, both entry points check the flag and then run the algorithm. -/
theorem Barrier.start_unchecked (b : Barrier) (peers : List Nat) :
    b.start ⟨false, peers⟩ =
      unchecked b.algorithm.run_barrier b.rank b.poisoned peers := by
  obtain ⟨alg, rank, mr, poisoned⟩ := b
  cases alg <;> rfl

/-- A call that the front lets through only meets the poison check and the algorithm. -/
theorem Barrier.start_of_accepts (b : Barrier) {call : Call}
    (h : call.checked = true → Accepts b.algorithm b.rank call.peers) :
    b.start call = unchecked b.algorithm.run_barrier b.rank b.poisoned call.peers := by
  obtain ⟨checked, peers⟩ := call
  cases checked with
  | false => exact b.start_unchecked peers
  | true =>
    rcases b.start_checked peers with ⟨_, hs⟩ | ⟨hn, _⟩
    · rw [hs, b.start_unchecked]
    · exact absurd (h rfl) hn

end IbverbsRs.Network
