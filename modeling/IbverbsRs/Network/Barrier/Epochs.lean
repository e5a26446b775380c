import IbverbsRs.Network.Barrier.Safety

namespace IbverbsRs.Network

open Framework SignalOp

/-- Every call with `j` that the node has made so far has returned `Ok`. -/
def Node.DoneWith (n : Node) (j : Nat) : Prop :=
  (∀ x ∈ n.past, j ∈ x.call.peers → x.result = .ok) ∧
    ∀ r, n.current = some r → j ∉ r.call.peers

/-- The lists of the calls with `j` that a node has made so far. -/
def Node.callsWith (n : Node) (j : Nat) : List (List Nat) :=
  Framework.callsWith j (n.calls.map Call.peers)

namespace NodeInv

variable {alg : BarrierAlgorithm} {world_size i : Nat} {n : Node}

private theorem count_outside (h : NodeInv alg world_size i n) {call : Call} (hc : call ∈ n.calls)
    {executed : List BarrierOp} (hex : executed <+: program alg i call.peers) {op : BarrierOp}
    (hop : op.peer ∉ call.peers) : executed.count op = 0 := by
  have hp := h.proper call hc
  exact List.count_eq_zero_of_not_mem (fun hm =>
    hop (program_peer hp.ascending hp.self (hex.subset hm)).1)

private theorem count_past {alg : BarrierAlgorithm} {i : Nat} {past : List Completed}
    {op : BarrierOp} (hin : ∀ x ∈ past, op.peer ∈ x.call.peers →
      x.executed = program alg i x.call.peers)
    (hout : ∀ x ∈ past, op.peer ∉ x.call.peers → x.executed.count op = 0) :
    (past.flatMap (·.executed)).count op =
      ((Framework.callsWith op.peer (past.map (·.call.peers))).flatMap (program alg i)).count op := by
  induction past with
  | nil => rfl
  | cons x past ih =>
    have htail := ih (fun y hy => hin y (by simp [hy])) (fun y hy => hout y (by simp [hy]))
    rw [List.map_cons, List.flatMap_cons, List.count_append, htail]
    by_cases hx : op.peer ∈ x.call.peers
    · rw [callsWith_cons_of_mem hx, List.flatMap_cons, List.count_append, hin x (by simp) hx]
    · rw [hout x (by simp) hx, Nat.zero_add]
      simp [Framework.callsWith, hx]

/-- When all calls with `j` are done, what the node did with `j` is what these calls say. -/
theorem count_of_done (h : NodeInv alg world_size i n) {op : BarrierOp}
    (hdone : n.DoneWith op.peer) :
    n.trace.count op = ((n.callsWith op.peer).flatMap (program alg i)).count op := by
  have hcur : (n.current.toList.flatMap (·.executed)).count op = 0 ∧
      Framework.callsWith op.peer ((n.current.toList.map (·.call)).map Call.peers) = [] := by
    cases hc : n.current with
    | none => exact ⟨rfl, rfl⟩
    | some r =>
      have hr := hdone.2 r hc
      have hprog := (h.running r hc).2
      have hmem : r.call ∈ n.calls := by simp [Node.calls, hc]
      refine ⟨?_, by simp [Framework.callsWith, hr]⟩
      simpa using h.count_outside hmem (hprog ▸ List.prefix_append _ _) hr
  have hmem {x : Completed} (hx : x ∈ n.past) : x.call ∈ n.calls :=
    List.mem_append_left _ (List.mem_map_of_mem hx)
  rw [Node.trace, List.count_append, hcur.1, count_past
    (fun x hx hj => (h.history.executed_of_mem x hx).2 (hdone.1 x hx hj))
    (fun x hx hj => h.count_outside (hmem hx) (h.history.executed_of_mem x hx).1 hj),
    Node.callsWith, Node.calls, List.map_append, callsWith_append, hcur.2, List.append_nil,
    List.map_map]
  rfl

end NodeInv

namespace WorldInv

variable {alg : BarrierAlgorithm} {world_size : Nat} {calls : Nat → List Call} {w : World}

private theorem callsWith_isPrefix (h : WorldInv alg world_size calls w) (i j : Nat) :
    (w.node i).callsWith j <+: callsWith j (peerLists calls i) := by
  rw [peerLists, ← h.script i, List.map_append, callsWith_append]
  exact List.prefix_append _ _

/-- A node that is done with `j` has not made more common calls than `j`. -/
private theorem callsWith_length_le (h : WorldInv alg world_size calls w)
    (hagreed : Agreed world_size calls) {i j : Nat} (hdone : (w.node i).DoneWith j) :
    ((w.node i).callsWith j).length ≤ ((w.node j).callsWith i).length := by
  have hpast : (w.node i).callsWith j = callsWith j ((w.node i).past.map (·.call.peers)) := by
    cases hc : (w.node i).current with
    | none => simp [Node.callsWith, Node.calls, hc, Function.comp_def]
    | some r =>
      have hr := hdone.2 r hc
      simp [Node.callsWith, Node.calls, hc, Framework.callsWith, hr, Function.comp_def]
  by_cases hnone : (w.node i).callsWith j = []
  · simp [hnone]
  · rw [hpast] at hnone ⊢
    obtain ⟨A, G, B, hsplit, hjG, hB⟩ := exists_last_call hnone
    obtain ⟨before, rest, hp, rfl, hrest⟩ := List.map_eq_append_iff.mp hsplit
    obtain ⟨x, after, rfl, rfl, rfl⟩ := List.map_eq_cons_iff.mp hrest
    have hok := hdone.1 x (by simp [hp]) hjG
    obtain ⟨earlier, later, hentered, hearlier⟩ := h.entered_of_returned hagreed hp hok hjG
    have hself : i ∈ x.call.peers :=
      ((h.nodes i).proper x.call (by simp [Node.calls, hp])).self
    have hle : (callsWith i ((w.node j).entered.map Call.peers)).length ≤
        ((w.node j).callsWith i).length :=
      (((h.nodes j).entered_isPrefix.map Call.peers).filter _).length_le
    rw [hentered, callsWith_append, callsWith_cons_of_mem hself, hearlier] at hle
    rw [hsplit, callsWith_append, callsWith_cons_of_mem hjG, hB]
    simp only [List.length_append, List.length_cons, List.length_nil] at hle ⊢
    omega

/-- Two nodes that are done with each other have made the same common calls. -/
theorem callsWith_eq (h : WorldInv alg world_size calls w) (hagreed : Agreed world_size calls)
    {i j : Nat} (hi : (w.node i).DoneWith j) (hj : (w.node j).DoneWith i) :
    (w.node i).callsWith j = (w.node j).callsWith i := by
  have hlen := Nat.le_antisymm (h.callsWith_length_le hagreed hi) (h.callsWith_length_le hagreed hj)
  have hpi := h.callsWith_isPrefix i j
  have hpj := h.callsWith_isPrefix j i
  have hcommon : callsWith j (peerLists calls i) = callsWith i (peerLists calls j) :=
    hagreed.common i j
  rw [hcommon] at hpi
  exact (List.prefix_of_prefix_length_le hpi hpj hlen.le).eq_of_length hlen

private theorem callsWith_proper (h : WorldInv alg world_size calls w) {i j : Nat}
    {G : List Nat} (hG : G ∈ (w.node i).callsWith j) : G.Pairwise (· < ·) ∧ i ∈ G ∧ j ∈ G := by
  obtain ⟨hmem, hj⟩ := List.mem_filter.mp hG
  obtain ⟨call, hcall, rfl⟩ := List.mem_map.mp hmem
  have hp := (h.nodes i).proper call hcall
  exact ⟨hp.ascending, hp.self, by simpa using hj⟩

/-- Over finished common calls every notification has been confirmed and answered. -/
private theorem settled_of_done (h : WorldInv alg world_size calls w)
    (hagreed : Agreed world_size calls) {i j : Nat} (hi : (w.node i).DoneWith j)
    (hj : (w.node j).DoneWith i) :
    (w.node i).posted j = (w.node i).raised j ∧ (w.node i).confirmed j = (w.node i).raised j ∧
      (w.node j).trace.count (.increaseExpected i) = (w.node i).raised j := by
  have heq := h.callsWith_eq hagreed hi hj
  have hsettled (k l : Nat) : Settled (((w.node k).callsWith l).flatMap (program alg k)) := by
    refine (Blocks.flatMap (fun G hG => ?_)).settled
    obtain ⟨hs, hk, _⟩ := h.callsWith_proper hG
    exact (run_barrier_of_mem hs hk).2
  have hmatch : (((w.node i).callsWith j).flatMap (program alg i)).count (.increaseOut j) =
      (((w.node j).callsWith i).flatMap (program alg j)).count (.spinPoll i) := by
    rw [← heq, List.count_flatMap, List.count_flatMap]
    congr 1
    refine List.map_congr_left (fun G hG => ?_)
    obtain ⟨hs, hiG, hjG⟩ := h.callsWith_proper hG
    have hd : Discipline G (fun k => signals (program alg k G)) := program_discipline hs
    have hm := hd.matched i hiG j hjG
    rwa [count_signals_signal, count_signals_wait] at hm
  have hraised : (w.node i).trace.count (.increaseOut j) = _ := (h.nodes i).count_of_done hi
  have hposted : (w.node i).trace.count (.postWrite j) = _ := (h.nodes i).count_of_done hi
  have hconfirmed : (w.node i).trace.count (.awaitWrite j) = _ := (h.nodes i).count_of_done hi
  have hexpected : (w.node j).trace.count (.increaseExpected i) = _ :=
    (h.nodes j).count_of_done hj
  have h₁ := hsettled i j j
  have h₂ := hsettled j i i
  simp only [BarrierOp.peer] at hraised hposted hconfirmed hexpected
  simp only [Node.posted, Node.raised, Node.confirmed]
  omega

/-- A counter moves at most once in each call, so `u64` holds it for `2^64 - 1` calls. -/
theorem epochs_le_calls (h : WorldInv alg world_size calls w) (hagreed : Agreed world_size calls)
    (i j : Nat) : ((w.node i).flags j).out_epoch ≤ (calls i).length ∧
      ((w.node j).flags i).in_epoch ≤ (calls i).length := by
  have hout := (h.countedTraces hagreed).count_signal_le_length i j
  rw [count_signals_signal, peerLists, List.length_map] at hout
  have hin := (h.links i j).incoming_le.trans (h.inStep i j).posted_le
  have hcounter := ((h.nodes i).counters j).1
  simp only [Node.raised] at hin
  omega

/-- The sender is at most two calls ahead of what the receiver waits for, and never behind it. -/
theorem epochs_within (h : WorldInv alg world_size calls w) (hagreed : Agreed world_size calls)
    (i j : Nat) : ((w.node j).flags i).in_epoch ≤ ((w.node i).flags j).out_epoch ∧
      ((w.node i).flags j).out_epoch ≤ ((w.node j).flags i).expected_in_epoch + 2 ∧
      ((w.node j).flags i).expected_in_epoch ≤ ((w.node i).flags j).out_epoch + 1 := by
  have hdrift := (h.countedTraces hagreed).drift i j
  rw [count_signals_signal, count_signals_wait] at hdrift
  have hin := (h.links i j).incoming_le
  have hposted := (h.inStep i j).posted_le
  have hheard := h.heard i j
  have hspin := (h.inStep j i).spin_le
  have hexp := (h.inStep j i).expected_le
  have hout := ((h.nodes i).counters j).1
  have hexpected := ((h.nodes j).counters i).2
  simp only [Node.raised] at hposted
  exact ⟨by omega, by omega, by omega⟩

theorem epochs_settled (h : WorldInv alg world_size calls w) (hagreed : Agreed world_size calls)
    {i j : Nat} (hi : (w.node i).DoneWith j) (hj : (w.node j).DoneWith i) :
    ((w.node j).flags i).in_epoch = ((w.node i).flags j).out_epoch ∧
      ((w.node j).flags i).expected_in_epoch = ((w.node i).flags j).out_epoch := by
  obtain ⟨hp, hc, he⟩ := h.settled_of_done hagreed hi hj
  have hlink := (h.links i j).incoming_eq (by omega)
  have hout := ((h.nodes i).counters j).1
  have hexpected := ((h.nodes j).counters i).2
  simp only [Node.raised] at hp hc he
  omega

end WorldInv

/-- The epoch counters of a pair of nodes in every reachable state: they stay within fixed
distances, and they agree whenever the common calls made so far have all returned `Ok`. -/
theorem World.epochs_do_not_drift {alg : BarrierAlgorithm} {world_size : Nat}
    {calls : Nat → List Call} (hagreed : Agreed world_size calls) {es : List WorldEvent}
    {w : World} (hrun : (World.system alg world_size calls).run es = some w) (i j : Nat) :
    ((w.node j).flags i).in_epoch ≤ ((w.node i).flags j).out_epoch ∧
    ((w.node i).flags j).out_epoch ≤ ((w.node j).flags i).expected_in_epoch + 2 ∧
    ((w.node j).flags i).expected_in_epoch ≤ ((w.node i).flags j).out_epoch + 1 ∧
    ((w.node i).DoneWith j → (w.node j).DoneWith i →
      ((w.node j).flags i).in_epoch = ((w.node i).flags j).out_epoch ∧
      ((w.node j).flags i).expected_in_epoch = ((w.node i).flags j).out_epoch) := by
  have h := WorldInv.run hagreed hrun
  obtain ⟨hin, hout, hexpected⟩ := h.epochs_within hagreed i j
  exact ⟨hin, hout, hexpected, fun hi hj => h.epochs_settled hagreed hi hj⟩

/-- When both nodes have returned, both have notified and heard the other once. -/
theorem World.epochs_do_not_drift_two :
    ∃ w, (World.system .Dissemination 2 twoNodes).run
        (mutualRun ++ [.advance 1, .advance 1, .advance 1, .ret 1]) = some w ∧
      ((w.node 1).flags 0).in_epoch = 1 ∧ ((w.node 1).flags 0).expected_in_epoch = 1 := by
  refine ⟨_, rfl, ?_⟩
  have hdone := (@World.epochs_do_not_drift .Dissemination 2 twoNodes twoNodes_agreed
    (mutualRun ++ [.advance 1, .advance 1, .advance 1, .ret 1]) _ rfl 0 1).2.2.2
    ⟨by decide, by decide⟩ ⟨by decide, by decide⟩
  exact ⟨hdone.1.trans (by decide), hdone.2.trans (by decide)⟩

end IbverbsRs.Network
