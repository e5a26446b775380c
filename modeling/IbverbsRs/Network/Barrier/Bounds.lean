import IbverbsRs.Network.Barrier.Classification
import IbverbsRs.Network.Barrier.History

namespace IbverbsRs.Network

open Framework Math SignalOp

/-- The pairs of `round_pairs`, each looked up in the list; `none` is a panic. -/
def DisseminationBarrier.rounds (peers : List Nat) :
    List (Nat × Nat) → Option (List BarrierOp)
  | [] => some []
  | (right_idx, left_idx) :: rest => do
    let right_rank ← peers[right_idx]?
    let left_rank ← peers[left_idx]?
    let ops ← rounds peers rest
    some (notify_peer right_rank ++ wait_peer left_rank ++ ops)

/-- The loop over `child_indices` that fills the buffer; a position outside the list or the
buffer panics. -/
def BinaryTreeBarrier.store_children (peers : List Nat) :
    List Nat → List Nat → Nat → Option (List Nat)
  | [], children_ranks_buffer, count => some (children_ranks_buffer.take count)
  | ci :: rest, children_ranks_buffer, count => do
    let child_rank ← peers[ci]?
    if count < children_ranks_buffer.length then
      store_children peers rest (children_ranks_buffer.set count child_rank) (count + 1)
    else none

/-- `run_barrier` with the bounds checks of the list and of the buffer: `none` is a panic. -/
def LinearBarrier.run_checked (rank : Nat) (peers : List Nat) :
    Option (Except BarrierError (List BarrierOp)) :=
  if peers.length < 2 then some (.ok [])
  else do
    let leader ← peers[0]?
    if rank = leader then
      some (.ok ((peers.drop 1).flatMap wait_peer ++ scatter_notify_peers (peers.drop 1)))
    else some (.ok (notify_peer leader ++ wait_peer leader))

def BinaryTreeBarrier.run_checked (rank : Nat) (peers : List Nat) :
    Option (Except BarrierError (List BarrierOp)) :=
  if peers.length < 2 then some (.ok [])
  else
    match binary_search peers rank with
    | .error _ => some (.error .SelfNotInGroup)
    | .ok idx => do
      let parent_rank ← match parent_index idx with
        | none => some none
        | some pi => (peers[pi]?).map some
      let children_ranks ← store_children peers (child_indices idx peers.length) [0, 0] 0
      some (.ok (children_ranks.flatMap wait_peer ++ parent_rank.toList.flatMap notify_peer ++
        parent_rank.toList.flatMap wait_peer ++ scatter_notify_peers children_ranks))

def DisseminationBarrier.run_checked (rank : Nat) (peers : List Nat) :
    Option (Except BarrierError (List BarrierOp)) :=
  if peers.length < 2 then some (.ok [])
  else
    match binary_search peers rank with
    | .error _ => some (.error .SelfNotInGroup)
    | .ok idx => (rounds peers (round_pairs idx peers.length)).map .ok

def BarrierAlgorithm.run_checked (alg : BarrierAlgorithm) :
    Nat → List Nat → Option (Except BarrierError (List BarrierOp)) :=
  match alg with
  | .Centralized => LinearBarrier.run_checked
  | .BinaryTree => BinaryTreeBarrier.run_checked
  | .Dissemination => DisseminationBarrier.run_checked

section ListAccess

variable {peers : List Nat}

theorem getElem?_eq_getD {i : Nat} (h : i < peers.length) : peers[i]? = some (peers.getD i 0) := by
  rw [List.getD_eq_getElem?_getD, List.getElem?_eq_getElem h, Option.getD_some]

theorem LinearBarrier.run_checked_eq (rank : Nat) (peers : List Nat) :
    run_checked rank peers = some (run_barrier rank peers) := by
  match peers with
  | [] | [_] => rfl
  | leader :: second :: rest =>
    have hlong : ¬ (leader :: second :: rest).length < 2 := by simp
    rw [run_checked, if_neg hlong]
    by_cases hleader : rank = leader <;> simp [run_barrier, hleader]

/-- The two elements of the buffer are enough for the children of any position. -/
theorem BinaryTreeBarrier.store_children_eq (idx : Nat) :
    store_children peers (child_indices idx peers.length) [0, 0] 0 =
      some ((child_indices idx peers.length).map (fun ci => peers.getD ci 0)) := by
  by_cases hleft : 2 * idx + 1 < peers.length
  · by_cases hright : 2 * idx + 2 < peers.length
    · simp [child_indices, hleft, hright, store_children]
    · simp [child_indices, hleft, hright, store_children]
  · have hright : ¬ 2 * idx + 2 < peers.length := by omega
    simp [child_indices, hleft, hright, store_children]

theorem BinaryTreeBarrier.run_checked_eq (rank : Nat) (peers : List Nat) :
    run_checked rank peers = some (run_barrier rank peers) := by
  rw [run_checked, run_barrier]
  split_ifs with hshort
  · rfl
  · cases hidx : binary_search peers rank with
    | error _ => rfl
    | ok idx =>
      have hlt := (List.getElem?_eq_some_iff.mp (binary_search_sound hidx)).1
      cases hparent : parent_index idx with
      | none => simp only [hparent, store_children_eq, Option.bind_eq_bind, Option.bind_some,
          Option.map_none]
      | some pi =>
        have hpi := Nat.lt_trans (parent_index_lt hparent) hlt
        simp only [hparent, store_children_eq, getElem?_eq_getD hpi, Option.bind_eq_bind,
          Option.bind_some, Option.map_some]

theorem DisseminationBarrier.rounds_eq {pairs : List (Nat × Nat)}
    (h : ∀ round ∈ pairs, round.1 < peers.length ∧ round.2 < peers.length) :
    rounds peers pairs = some (pairs.flatMap (fun round =>
      notify_peer (peers.getD round.1 0) ++ wait_peer (peers.getD round.2 0))) := by
  induction pairs with
  | nil => rfl
  | cons round pairs ih =>
    obtain ⟨hright, hleft⟩ := h round List.mem_cons_self
    have hrest := ih (fun other hother => h other (List.mem_cons_of_mem _ hother))
    simp only [rounds, getElem?_eq_getD hright, getElem?_eq_getD hleft, hrest,
      Option.bind_eq_bind, Option.bind_some, List.flatMap_cons]

theorem round_pairs_lt {idx len : Nat} (hpos : 0 < len) :
    ∀ round ∈ round_pairs idx len, round.1 < len ∧ round.2 < len := by
  intro round hround
  obtain ⟨d, _, rfl⟩ := List.mem_map.mp hround
  exact ⟨Nat.mod_lt _ hpos, Nat.mod_lt _ hpos⟩

theorem DisseminationBarrier.run_checked_eq (rank : Nat) (peers : List Nat) :
    run_checked rank peers = some (run_barrier rank peers) := by
  rw [run_checked, run_barrier]
  split_ifs with hshort
  · rfl
  · cases hidx : binary_search peers rank with
    | error _ => rfl
    | ok idx =>
      have hpos : 0 < peers.length := by omega
      simp only [rounds_eq (round_pairs_lt hpos), Option.map_some]

/-- Whatever the list, no algorithm looks outside it. -/
theorem run_checked_eq (alg : BarrierAlgorithm) (rank : Nat) (peers : List Nat) :
    alg.run_checked rank peers = some (alg.run_barrier rank peers) := by
  cases alg with
  | Centralized => exact LinearBarrier.run_checked_eq rank peers
  | BinaryTree => exact BinaryTreeBarrier.run_checked_eq rank peers
  | Dissemination => exact DisseminationBarrier.run_checked_eq rank peers

end ListAccess

/-- The ranks with which the member at position `idx` exchanges counters exist. Those of a leader
it follows or of its parent are lower than its own and always do. -/
def StaysInWorld (alg : BarrierAlgorithm) (world_size idx : Nat) (peers : List Nat) : Prop :=
  match alg with
  | .Centralized => idx = 0 → ∀ peer ∈ peers, peer < world_size
  | .BinaryTree => ∀ ci ∈ child_indices idx peers.length, peers.getD ci 0 < world_size
  | .Dissemination => ∀ round ∈ round_pairs idx peers.length,
      peers.getD round.1 0 < world_size ∧ peers.getD round.2 0 < world_size

instance (alg : BarrierAlgorithm) (world_size idx : Nat) (peers : List Nat) :
    Decidable (StaysInWorld alg world_size idx peers) :=
  match alg with
  | .Centralized => inferInstanceAs (Decidable (idx = 0 → ∀ peer ∈ peers, peer < world_size))
  | .BinaryTree =>
    inferInstanceAs (Decidable (∀ ci ∈ child_indices idx peers.length, peers.getD ci 0 < world_size))
  | .Dissemination =>
    inferInstanceAs (Decidable (∀ round ∈ round_pairs idx peers.length,
      peers.getD round.1 0 < world_size ∧ peers.getD round.2 0 < world_size))

section Partners

variable {G : List Nat} {world_size p : Nat}

theorem getD_lt_getD (hs : G.Pairwise (· < ·)) {q : Nat} (hqp : q < p) (hp : p < G.length) :
    G.getD q 0 < G.getD p 0 := by
  have hq := Nat.lt_trans hqp hp
  rw [List.getD_eq_getElem?_getD, List.getD_eq_getElem?_getD, List.getElem?_eq_getElem hq,
    List.getElem?_eq_getElem hp]
  exact List.pairwise_iff_getElem.mp hs q p hq hp hqp

theorem linearPlan_peers_iff (hs : G.Pairwise (· < ·)) (hp : p < G.length)
    (hrank : G.getD p 0 < world_size) :
    (∀ s ∈ linearPlan G.length p, G.getD s.peer 0 < world_size) ↔
      StaysInWorld .Centralized world_size p G := by
  have hlookup {q : Nat} (hq : q < G.length) : G.getD q 0 ∈ G := by
    rw [List.getD_eq_getElem?_getD, List.getElem?_eq_getElem hq]
    exact List.getElem_mem hq
  constructor
  · intro hplan hzero peer hpeer
    subst hzero
    obtain ⟨q, hq, rfl⟩ := List.mem_iff_getElem.mp hpeer
    have hget : G.getD q 0 = G[q] := by
      rw [List.getD_eq_getElem?_getD, List.getElem?_eq_getElem hq, Option.getD_some]
    rw [← hget]
    by_cases hq0 : q = 0
    · rwa [hq0]
    · have hlong : ¬ G.length < 2 := by omega
      have hmem : q ∈ List.range' 1 (G.length - 1) := by
        rw [List.mem_range'_1]
        omega
      have hwait : wait q ∈ linearPlan G.length 0 := by
        rw [linearPlan, if_neg hlong, if_pos rfl]
        exact List.mem_append_left _ (List.mem_map_of_mem hmem)
      exact hplan _ hwait
  · intro hstays s hs'
    unfold linearPlan at hs'
    split_ifs at hs' with hshort hzero
    · cases hs'
    · have hmem : s.peer ∈ List.range' 1 (G.length - 1) := by
        rcases List.mem_append.mp hs' with hs' | hs'
        · obtain ⟨q, hq, rfl⟩ := List.mem_map.mp hs'
          exact hq
        · obtain ⟨q, hq, rfl⟩ := List.mem_map.mp hs'
          exact hq
      rw [List.mem_range'_1] at hmem
      exact hstays hzero _ (hlookup (by omega))
    · have hpeer : s.peer = 0 := by
        rcases List.mem_pair.mp hs' with rfl | rfl <;> rfl
      rw [hpeer]
      exact Nat.lt_trans (getD_lt_getD hs (Nat.pos_of_ne_zero hzero) hp) hrank

theorem treePlan_peers_iff (hs : G.Pairwise (· < ·)) (hp : p < G.length)
    (hrank : G.getD p 0 < world_size) :
    (∀ s ∈ treePlan G.length p, G.getD s.peer 0 < world_size) ↔
      StaysInWorld .BinaryTree world_size p G := by
  constructor
  · intro hplan ci hci
    have hwait : wait ci ∈ treePlan G.length p :=
      List.mem_append_left _ (List.mem_append_left _ (List.mem_map_of_mem hci))
    exact hplan _ hwait
  · intro hstays s hs'
    have hparent {q : Nat} (hq : q ∈ (parent_index p).toList) : G.getD q 0 < world_size :=
      Nat.lt_trans (getD_lt_getD hs (parent_index_lt (Option.mem_toList.mp hq)) hp) hrank
    rcases List.mem_append.mp hs' with hs' | hs'
    · rcases List.mem_append.mp hs' with hs' | hs'
      · obtain ⟨ci, hci, rfl⟩ := List.mem_map.mp hs'
        exact hstays ci hci
      · obtain ⟨q, hq, rfl⟩ := List.mem_map.mp hs'
        exact hparent hq
    · rcases List.mem_append.mp hs' with hs' | hs'
      · obtain ⟨q, hq, rfl⟩ := List.mem_map.mp hs'
        exact hparent hq
      · obtain ⟨ci, hci, rfl⟩ := List.mem_map.mp hs'
        exact hstays ci hci

theorem disseminationPlan_peers_iff :
    (∀ s ∈ disseminationPlan G.length p, G.getD s.peer 0 < world_size) ↔
      StaysInWorld .Dissemination world_size p G := by
  constructor
  · intro hplan round hround
    have hmem (s : SignalOp Nat) (h : s ∈ [signal round.1, wait round.2]) :
        s ∈ disseminationPlan G.length p := List.mem_flatMap.mpr ⟨round, hround, h⟩
    exact ⟨hplan _ (hmem (signal round.1) (by simp)), hplan _ (hmem (wait round.2) (by simp))⟩
  · intro hstays s hs'
    obtain ⟨round, hround, hs'⟩ := List.mem_flatMap.mp hs'
    rcases List.mem_pair.mp hs' with rfl | rfl
    · exact (hstays round hround).1
    · exact (hstays round hround).2

/-- Every rank that a member of an ascending list works with is below the world size, or some
operation of its program is not. -/
theorem program_peers_iff {alg : BarrierAlgorithm} (hs : G.Pairwise (· < ·)) {rank : Nat}
    (hidx : G[p]? = some rank) (hrank : rank < world_size) :
    (∀ op ∈ program alg rank G, op.peer < world_size) ↔ StaysInWorld alg world_size p G := by
  obtain ⟨hp, rfl⟩ := List.getElem?_eq_some_iff.mp hidx
  have hget : G.getD p 0 = G[p] := by
    rw [List.getD_eq_getElem?_getD, hidx, Option.getD_some]
  have hplan : (∀ s ∈ plan alg G.length p, G.getD s.peer 0 < world_size) ↔
      StaysInWorld alg world_size p G := by
    rw [← hget] at hrank
    cases alg with
    | Centralized => exact linearPlan_peers_iff hs hp hrank
    | BinaryTree => exact treePlan_peers_iff hs hp hrank
    | Dissemination => exact disseminationPlan_peers_iff
  obtain ⟨ops, hops, hblocks, hsignals⟩ := run_barrier_spec alg hs hp
  have hprogram : program alg G[p] G = ops := by simp [program, hops, Except.toOption]
  rw [hprogram, ← hplan]
  constructor
  · intro hall s hs'
    have hmem : s.map (fun q => G.getD q 0) ∈ signals ops := by
      rw [hsignals]
      exact List.mem_map_of_mem hs'
    obtain ⟨op, hop, hpeer⟩ := peer_of_signal hmem
    have hlt := hall op hop
    rwa [hpeer, peer_map] at hlt
  · intro hall op hop
    obtain ⟨s, hs', hpeer⟩ := hblocks.settled.exists_signal hop
    rw [hsignals] at hs'
    obtain ⟨t, ht, rfl⟩ := List.mem_map.mp hs'
    rw [← hpeer, peer_map]
    exact hall t ht

end Partners

/-- The call has got past the checks in front of it, and works on `ops`. -/
def Admitted (alg : BarrierAlgorithm) (rank : Nat) (call : Call) (ops : List BarrierOp) : Prop :=
  (call.checked = true → Accepts alg rank call.peers) ∧ alg.run_barrier rank call.peers = .ok ops

theorem admitted_of_running {b : Barrier} {call : Call} {ops : List BarrierOp}
    (h : b.start call = .running ops) : Admitted b.algorithm b.rank call ops := by
  have haccepts : call.checked = true → Accepts b.algorithm b.rank call.peers := by
    intro hchecked
    obtain ⟨checked, peers⟩ := call
    obtain rfl : checked = true := hchecked
    rcases b.start_checked peers with ⟨hacc, _⟩ | ⟨_, e, _, hrefused⟩
    · exact hacc
    · cases hrefused.symm.trans h
  refine ⟨haccepts, ?_⟩
  rw [b.start_of_accepts haccepts, unchecked] at h
  split_ifs at h
  split at h
  · cases h
  · rename_i ops' hops
    rwa [← Start.running.inj h]

/-- An admitted call of `barrier` that does any work is made by a member of an ascending list. -/
theorem Admitted.member {alg : BarrierAlgorithm} {rank : Nat} {peers : List Nat}
    {ops : List BarrierOp} (h : Admitted alg rank ⟨true, peers⟩ ops) {op : BarrierOp}
    (hop : op ∈ ops) : peers.Pairwise (· < ·) ∧ rank ∈ peers ∧ program alg rank peers = ops := by
  obtain ⟨haccepts, hops⟩ := h
  obtain ⟨hasc, hcentral⟩ := haccepts rfl
  have hprogram : program alg rank peers = ops := by simp [program, hops, Except.toOption]
  refine ⟨hasc, ?_, hprogram⟩
  by_contra hmem
  obtain ⟨k, hk⟩ := binary_search_absent hmem
  cases alg with
  | Centralized => exact hmem (hcentral rfl)
  | BinaryTree =>
    simp only [BarrierAlgorithm.run_barrier, BinaryTreeBarrier.run_barrier, hk] at hops
    split_ifs at hops
    obtain rfl := Except.ok.inj hops
    cases hop
  | Dissemination =>
    simp only [BarrierAlgorithm.run_barrier, DisseminationBarrier.run_barrier, hk] at hops
    split_ifs at hops
    obtain rfl := Except.ok.inj hops
    cases hop

namespace Node

variable {alg : BarrierAlgorithm} {rank world_size : Nat}

/-- A running call works on its own program, and a call has panicked only on an operation that
leads out of the world. -/
structure BoundsInv (alg : BarrierAlgorithm) (rank world_size : Nat) (n : Node) : Prop where
  algorithm : n.barrier.algorithm = alg
  own : n.barrier.rank = rank
  size : n.barrier.barrier_mr.memory.length = world_size
  running : ∀ r, n.current = some r → Admitted alg rank r.call (r.executed ++ r.rest)
  panicked : ∀ c ∈ n.past, c.result = .panicked →
    ∃ ops, Admitted alg rank c.call ops ∧ ∃ op ∈ ops, ¬ op.peer < world_size

theorem BoundsInv.record {n : Node} (h : BoundsInv alg rank world_size n) {call : Call}
    {executed : List BarrierOp} {result : CallResult}
    (hpanic : result = .panicked →
      ∃ ops, Admitted alg rank call ops ∧ ∃ op ∈ ops, ¬ op.peer < world_size) :
    BoundsInv alg rank world_size (n.record call executed result) := by
  refine ⟨h.algorithm, h.own, h.size, ?_, ?_⟩
  · intro r hr
    cases hr
  · intro c hc hpanicked
    rcases List.mem_append.mp hc with hc | hc
    · exact h.panicked c hc hpanicked
    · obtain rfl := List.mem_singleton.mp hc
      exact hpanic hpanicked

theorem BoundsInv.fail {n : Node} (h : BoundsInv alg rank world_size n) {call : Call}
    {executed : List BarrierOp} {e : BarrierError} :
    BoundsInv alg rank world_size (n.fail call executed e) := by
  have hr : BoundsInv alg rank world_size (n.record call executed (.error e)) := h.record (by simp)
  exact ⟨hr.algorithm, hr.own, hr.size, hr.running, hr.panicked⟩

theorem boundsInv_step {n n' : Node} {ev : NodeEvent} (h : BoundsInv alg rank world_size n)
    (hs : n.step ev = some n') : BoundsInv alg rank world_size n' := by
  cases step_spec hs with
  | refused _ _ => exact h.record (by simp)
  | failed _ _ => exact h.fail
  | @started call ops _ start =>
    refine ⟨h.algorithm, h.own, h.size, ?_, h.panicked⟩
    intro r hr
    obtain rfl := Option.some.inj hr
    have hadmitted := admitted_of_running start
    rwa [h.algorithm, h.own] at hadmitted
  | @advanced call executed rest op mr busy performed =>
    refine ⟨h.algorithm, h.own, (perform_length performed).trans h.size, ?_, h.panicked⟩
    intro r hr
    obtain rfl := Option.some.inj hr
    have hadmitted := h.running _ busy
    rwa [List.append_cons] at hadmitted
  | returned _ => exact h.record (by simp)
  | writeFailed _ => exact h.fail
  | timedOut _ => exact h.fail
  | @unwound call executed rest op busy outside =>
    rw [h.size] at outside
    apply h.record
    intro _
    exact ⟨_, h.running _ busy, op, by simp, outside⟩
  | placed performed =>
    exact ⟨h.algorithm, h.own, (BarrierMr.update_length performed).trans h.size, h.running,
      h.panicked⟩

theorem boundsInv_run {es : List NodeEvent} {n : Node}
    (h : (system alg rank world_size).run es = some n) : BoundsInv alg rank world_size n := by
  apply (system alg rank world_size).invariant ?_ (fun _ _ _ => boundsInv_step) h
  refine ⟨rfl, rfl, List.length_replicate, ?_, ?_⟩
  · intro r hr
    cases hr
  · intro c hc
    cases hc

/-- Peers that let every wait pass bring a call to any operation with only existing ranks in front
of it. -/
theorem reaches (call : Call) (rest : List BarrierOp) {pre : List BarrierOp} (n : Node)
    (executed : List BarrierOp)
    (hbusy : n.current = some ⟨call, executed, pre ++ rest⟩)
    (hpre : ∀ op ∈ pre, op.peer < n.barrier.barrier_mr.memory.length) :
    ∃ es n', (system alg rank world_size).runFrom n es = some n' ∧
      n'.current = some ⟨call, executed ++ pre, rest⟩ ∧
      n'.barrier.barrier_mr.memory.length = n.barrier.barrier_mr.memory.length := by
  induction pre generalizing n executed with
  | nil => exact ⟨[], n, rfl, by simpa using hbusy, rfl⟩
  | cons op pre ih =>
    have hop := hpre op List.mem_cons_self
    obtain ⟨mr, hmr⟩ : ∃ mr, n.barrier.barrier_mr.place_in_epoch op.peer
        (n.barrier.barrier_mr.flags op.peer).expected_in_epoch = some mr :=
      BarrierMr.update_isSome _ hop
    have hlen : mr.memory.length = n.barrier.barrier_mr.memory.length :=
      BarrierMr.update_length hmr
    obtain ⟨mr', hmr'⟩ : ∃ mr', mr.perform op = some mr' := by
      apply perform_isSome (by rwa [hlen])
      intro p hp
      subst hp
      have hflags := BarrierMr.update_flags hmr p
      rw [BarrierOp.peer, if_pos rfl] at hflags
      rw [hflags]
    have hlen' := perform_length hmr'
    have hpre' : ∀ op ∈ pre, op.peer < mr'.memory.length := by
      intro other hother
      have hlt := hpre other (List.mem_cons_of_mem _ hother)
      rwa [← hlen, ← hlen'] at hlt
    obtain ⟨es, n', hrun, hcurrent, hsize⟩ := ih
      { n with
        barrier := { n.barrier with barrier_mr := mr' }
        current := some ⟨call, executed ++ [op], pre ++ rest⟩ }
      (executed ++ [op]) rfl hpre'
    refine ⟨.place op.peer (n.barrier.barrier_mr.flags op.peer).expected_in_epoch :: .advance :: es,
      n', ?_, ?_, ?_⟩
    · rw [TransitionSystem.runFrom_cons]
      simp only [system, step, hmr, Option.map_some, Option.bind_some]
      rw [TransitionSystem.runFrom_cons]
      simp only [step, hbusy, List.cons_append, hmr', Option.map_some, Option.bind_some]
      exact hrun
    · rw [hcurrent, List.append_assoc, List.singleton_append]
    · exact hsize.trans (hlen'.trans hlen)

/-- No access to the list or to the buffer is out of range, and in no run of the node does a call
of `barrier` with this list panic. -/
def NeverPanics (alg : BarrierAlgorithm) (rank world_size : Nat) (peers : List Nat) : Prop :=
  alg.run_checked rank peers ≠ none ∧
  ∀ es n, (system alg rank world_size).run es = some n →
    ∀ c ∈ n.past, c.call = ⟨true, peers⟩ → c.result ≠ .panicked

theorem can_panic {peers : List Nat} {ops : List BarrierOp}
    (hstart : (Barrier.new alg rank world_size).start ⟨true, peers⟩ = .running ops)
    (hout : ¬ ∀ op ∈ ops, op.peer < world_size) :
    ∃ es n, (system alg rank world_size).run es = some n ∧
      ∃ c ∈ n.past, c.call = ⟨true, peers⟩ ∧ c.result = .panicked := by
  -- the operations in front of the first one that leads out
  obtain ⟨pre, op, rest, rfl, hpre, hop⟩ : ∃ pre op rest, ops = pre ++ op :: rest ∧
      (∀ op ∈ pre, op.peer < world_size) ∧ ¬ op.peer < world_size := by
    clear hstart
    induction ops with
    | nil => exact absurd (fun op hop => by cases hop) hout
    | cons op ops ih =>
      by_cases hop : op.peer < world_size
      · have hrest : ¬ ∀ op ∈ ops, op.peer < world_size := by
          intro hall
          exact hout (List.forall_mem_cons.mpr ⟨hop, hall⟩)
        obtain ⟨pre, bad, rest, rfl, hpre, hbad⟩ := ih hrest
        exact ⟨op :: pre, bad, rest, rfl, List.forall_mem_cons.mpr ⟨hop, hpre⟩, hbad⟩
      · exact ⟨[], op, ops, rfl, by simp, hop⟩
  have hsize : (Barrier.new alg rank world_size).barrier_mr.memory.length = world_size :=
    List.length_replicate
  let n₀ : Node :=
    ⟨Barrier.new alg rank world_size, some ⟨⟨true, peers⟩, [], pre ++ op :: rest⟩, []⟩
  obtain ⟨es, n', hrun, hcurrent, hlen⟩ : ∃ es n',
      (system alg rank world_size).runFrom n₀ es = some n' ∧
      n'.current = some ⟨⟨true, peers⟩, [] ++ pre, op :: rest⟩ ∧
      n'.barrier.barrier_mr.memory.length = n₀.barrier.barrier_mr.memory.length :=
    reaches _ _ n₀ [] rfl (by rwa [hsize])
  have henter : (system alg rank world_size).run (.enter ⟨true, peers⟩ :: es) = some n' := by
    rw [TransitionSystem.run, TransitionSystem.runFrom_cons]
    simp only [system, step, new, if_pos, Option.bind_some, enter, hstart]
    exact hrun
  have hunwind : (system alg rank world_size).step n' .unwind =
      some (n'.record ⟨true, peers⟩ ([] ++ pre) .panicked) := by
    simp only [system, step, hcurrent]
    rw [if_neg]
    rwa [hlen, hsize]
  refine ⟨_, _, TransitionSystem.run_snoc _ henter hunwind,
    ⟨⟨true, peers⟩, [] ++ pre, .panicked⟩, ?_, rfl, rfl⟩
  exact List.mem_append_right _ (List.mem_singleton_self _)

/-- A call panics exactly when a member of an ascending list has a partner outside the world. -/
theorem never_panics_iff {peers : List Nat} (hrank : rank < world_size) :
    NeverPanics alg rank world_size peers ↔
      (peers.Pairwise (· < ·) → ∀ idx, peers[idx]? = some rank →
        StaysInWorld alg world_size idx peers) := by
  constructor
  · intro hsafe hasc idx hidx
    rw [← program_peers_iff hasc hidx hrank]
    by_contra hout
    have hmem : (Barrier.new alg rank world_size).rank ∈ peers := List.mem_of_getElem? hidx
    have hstart := Barrier.start_of_member (b := Barrier.new alg rank world_size) rfl hasc hmem
    obtain ⟨es, n, hrun, c, hc, hcall, hpanicked⟩ := can_panic hstart hout
    exact hsafe.2 es n hrun c hc hcall hpanicked
  · intro hstays
    refine ⟨by rw [run_checked_eq]; simp, ?_⟩
    intro es n hrun c hc hcall hpanicked
    obtain ⟨ops, hadmitted, op, hop, hout⟩ := (boundsInv_run hrun).panicked c hc hpanicked
    rw [hcall] at hadmitted
    obtain ⟨hasc, hmem, hprogram⟩ := hadmitted.member hop
    obtain ⟨idx, hidx⟩ := List.mem_iff_getElem?.mp hmem
    rw [← hprogram] at hop
    exact hout ((program_peers_iff hasc hidx hrank).mpr (hstays hasc idx hidx) op hop)

theorem never_panics_two : NeverPanics .BinaryTree 0 2 [0, 1] ∧ ¬ NeverPanics .BinaryTree 0 2 [0, 5] := by
  have hidx {a idx : Nat} (h : [0, a + 1][idx]? = some 0) : idx = 0 := by
    rcases idx with _ | _ | idx <;> simp at h ⊢
  constructor
  · rw [never_panics_iff (by decide)]
    intro _ idx h
    obtain rfl := hidx h
    decide
  · rw [never_panics_iff (by decide)]
    intro hstays
    have hlt := hstays (by decide) 0 rfl 1 (by decide)
    exact absurd hlt (by decide)

/-- Node 0 of three asks for a barrier with node 1 and the missing node 5: it notifies node 1 and
panics, and its barrier is not poisoned. -/
theorem panics_on_missing_node : ∃ n,
    (system .Dissemination 0 3).run [.enter ⟨true, [0, 1, 5]⟩, .advance, .advance, .advance,
      .unwind] = some n ∧
    n.past = [⟨⟨true, [0, 1, 5]⟩, notify_peer 1, .panicked⟩] ∧
    (n.barrier.barrier_mr.flags 1).out_epoch = 1 ∧ n.barrier.poisoned = false ∧
    ¬ NeverPanics .Dissemination 0 3 [0, 1, 5] := by
  refine ⟨_, rfl, rfl, rfl, rfl, ?_⟩
  intro h
  exact h.2 [.enter ⟨true, [0, 1, 5]⟩, .advance, .advance, .advance, .unwind] _ rfl
    ⟨⟨true, [0, 1, 5]⟩, notify_peer 1, .panicked⟩ (List.mem_singleton_self _) rfl rfl

end Node

end IbverbsRs.Network
