import IbverbsRs.Network.Barrier.World

namespace IbverbsRs.Network

open Framework SignalOp

def peerLists (calls : Nat → List Call) (i : Nat) : List (List Nat) := (calls i).map Call.peers

def signalProgram (alg : BarrierAlgorithm) (i : Nat) (peers : List Nat) : List (SignalOp Nat) :=
  signals (program alg i peers)

theorem signals_flatMap_program (alg : BarrierAlgorithm) (i : Nat) (cs : List Call) :
    signals (cs.flatMap (fun call => program alg i call.peers)) =
      (cs.map Call.peers).flatMap (signalProgram alg i) := by
  rw [signals_flatMap, List.flatMap_map]
  rfl

/-- Node `j` has entered its own counterpart of the call that `i` made after the calls
`before`: the same list, preceded by the same calls with `i`. -/
def World.EnteredMatching (w : World) (i j : Nat) (before : List Completed) (peers : List Nat) :
    Prop :=
  ∃ earlier later, (w.node j).entered.map Call.peers = earlier ++ peers :: later ∧
    callsWith i earlier = callsWith j (before.map (·.call.peers))

namespace WorldInv

variable {alg : BarrierAlgorithm} {world_size : Nat} {calls : Nat → List Call} {w : World}

/-- The traces of a reachable world are those of counted group calls. -/
theorem countedTraces (h : WorldInv alg world_size calls w) (hagreed : Agreed world_size calls) :
    CountedTraces (peerLists calls) (signalProgram alg) (fun i => signals (w.node i).trace) where
  valid i G hG := by
    obtain ⟨call, hcall, rfl⟩ := List.mem_map.mp hG
    have hp := hagreed.proper i call hcall
    exact ⟨hp.self, program_discipline hp.ascending⟩
  common := hagreed.common
  isPrefix i := by
    have hi := h.nodes i
    have hentered : (w.node i).entered <+: calls i := by
      rw [← h.script i]
      exact hi.entered_isPrefix.trans (List.prefix_append _ _)
    have htrace := (hi.trace_isPrefix.filterMap BarrierOp.toSignal)
    change signals _ <+: signals _ at htrace
    rw [signals_flatMap_program] at htrace
    refine htrace.trans ?_
    obtain ⟨rest, hrest⟩ := hentered
    rw [peerLists, ← hrest, List.map_append, List.flatMap_append]
    exact List.prefix_append _ _
  counted i j _ := by
    rw [count_signals_wait, count_signals_signal]
    exact (h.heard i j).trans ((h.links i j).incoming_le.trans (h.inStep i j).posted_le)

theorem entered_isPrefix_calls (h : WorldInv alg world_size calls w) (j : Nat) :
    (w.node j).entered.map Call.peers <+: peerLists calls j := by
  rw [peerLists, ← h.script j]
  exact ((h.nodes j).entered_isPrefix.trans (List.prefix_append _ _)).map _

theorem signals_trace_isPrefix (h : WorldInv alg world_size calls w) (j : Nat) :
    signals (w.node j).trace <+:
      ((w.node j).entered.map Call.peers).flatMap (signalProgram alg j) := by
  rw [← signals_flatMap_program]
  exact (h.nodes j).trace_isPrefix.filterMap BarrierOp.toSignal

/-- A node that has executed part of a call has entered it. -/
private theorem entered_of_part (h : WorldInv alg world_size calls w) {j : Nat}
    {A B : List (List Nat)} {G : List Nat} (hj : peerLists calls j = A ++ G :: B)
    (hpart : CountedTraces.part (signalProgram alg) (fun i => signals (w.node i).trace) j A G ≠ []) :
    ∃ later, (w.node j).entered.map Call.peers = A ++ G :: later := by
  have hlong : ¬ (w.node j).entered.map Call.peers <+: A := by
    rintro ⟨rest, rfl⟩
    refine hpart ?_
    have hlen := (h.signals_trace_isPrefix j).length_le
    rw [CountedTraces.part, List.drop_eq_nil_of_le, List.take_nil]
    rw [List.flatMap_append, List.length_append]
    omega
  have hpre := h.entered_isPrefix_calls j
  rw [hj] at hpre
  rcases prefix_append_cases hpre with hshort | ⟨t, ht, htB⟩
  · exact absurd hshort hlong
  · cases t with
    | nil => exact absurd ⟨[], by rw [ht, List.append_nil, List.append_nil]⟩ hlong
    | cons H later =>
      obtain ⟨rfl, _⟩ := List.cons_prefix_cons.mp htB
      exact ⟨later, ht⟩

/-- Up to a call that has returned `Ok`, a node has entered every call and run it whole. -/
private theorem returned_spec (h : WorldInv alg world_size calls w) {i : Nat}
    {before after : List Completed} {x : Completed}
    (hpast : (w.node i).past = before ++ x :: after) (hok : x.result = .ok) :
    (∃ later, (w.node i).entered.map Call.peers =
      before.map (·.call.peers) ++ x.call.peers :: later) ∧
    ∃ rest, signals (w.node i).trace = (before.map (·.call.peers)).flatMap (signalProgram alg i) ++
      signalProgram alg i x.call.peers ++ rest := by
  have hbefore := (h.nodes i).history.before_ok hpast hok
  have hall := hbefore.all_ok
  constructor
  · have hkeep : (before ++ [x]).filter (fun x => decide (x.result ≠ .error .Poisoned)) =
        before ++ [x] := List.filter_eq_self.mpr (fun y hy => by simp [(hall y hy).1])
    have hpast' : (w.node i).past = (before ++ [x]) ++ after := by simp [hpast]
    simp only [Node.entered, enteredPast, hpast', List.filter_append (before ++ [x]), hkeep]
    refine ⟨(enteredPast after ++ (w.node i).current.toList.map (·.call)).map Call.peers, ?_⟩
    simp [enteredPast, Function.comp_def]
  · have hexec := hbefore.executed_eq
    refine ⟨signals (after.flatMap (·.executed) ++
      (w.node i).current.toList.flatMap (·.executed)), ?_⟩
    have htrace : (w.node i).trace = (before ++ [x]).flatMap (·.executed) ++
        (after.flatMap (·.executed) ++ (w.node i).current.toList.flatMap (·.executed)) := by
      simp [Node.trace, hpast]
    rw [htrace, hexec, signals_append, signals_flatMap_program]
    simp [Function.comp_def]

/-- Safety of every barrier: a call that has returned `Ok` has been entered by all. -/
theorem entered_of_returned (h : WorldInv alg world_size calls w)
    (hagreed : Agreed world_size calls) {i j : Nat} {before after : List Completed}
    {x : Completed} (hpast : (w.node i).past = before ++ x :: after) (hok : x.result = .ok)
    (hj : j ∈ x.call.peers) : w.EnteredMatching i j before x.call.peers := by
  obtain ⟨⟨later, hentered⟩, rest, htrace⟩ := h.returned_spec hpast hok
  rcases eq_or_ne j i with rfl | hne
  · exact ⟨_, later, hentered, rfl⟩
  · have hct := h.countedTraces hagreed
    obtain ⟨B, hcalls⟩ : ∃ B, peerLists calls i = before.map (·.call.peers) ++ x.call.peers :: B := by
      obtain ⟨r, hr⟩ := h.entered_isPrefix_calls i
      exact ⟨later ++ r, by rw [← hr, hentered]; simp⟩
    obtain ⟨A', B', hcj, hA'⟩ := hct.exists_counterpart hcalls hj
    have hbegun := hct.part_ne_nil_of_finished hcalls
      (CountedTraces.part_eq_of_whole htrace) hj hne hcj hA'
    obtain ⟨later', hlater'⟩ := h.entered_of_part hcj hbegun
    exact ⟨A', later', hlater', hA'⟩

end WorldInv

section Algorithms

variable {world_size : Nat} {calls : Nat → List Call} (hagreed : Agreed world_size calls)
include hagreed

/-- Dissemination barrier, with failures of any kind: `Ok` means everybody has entered. -/
theorem DisseminationBarrier.dissemination_safe {es : List WorldEvent} {w : World}
    (hrun : (World.system .Dissemination world_size calls).run es = some w) {i j : Nat}
    {before after : List Completed} {x : Completed}
    (hpast : (w.node i).past = before ++ x :: after) (hok : x.result = .ok)
    (hj : j ∈ x.call.peers) : w.EnteredMatching i j before x.call.peers :=
  (WorldInv.run hagreed hrun).entered_of_returned hagreed hpast hok hj

/-- Binary tree barrier: at the root, an inner node or a leaf. -/
theorem BinaryTreeBarrier.binary_tree_safe {es : List WorldEvent} {w : World}
    (hrun : (World.system .BinaryTree world_size calls).run es = some w) {i j : Nat}
    {before after : List Completed} {x : Completed}
    (hpast : (w.node i).past = before ++ x :: after) (hok : x.result = .ok)
    (hj : j ∈ x.call.peers) : w.EnteredMatching i j before x.call.peers :=
  (WorldInv.run hagreed hrun).entered_of_returned hagreed hpast hok hj

/-- Centralized barrier: at the leader or a follower, whoever leads the next group. -/
theorem LinearBarrier.linear_safe {es : List WorldEvent} {w : World}
    (hrun : (World.system .Centralized world_size calls).run es = some w) {i j : Nat}
    {before after : List Completed} {x : Completed}
    (hpast : (w.node i).past = before ++ x :: after) (hok : x.result = .ok)
    (hj : j ∈ x.call.peers) : w.EnteredMatching i j before x.call.peers :=
  (WorldInv.run hagreed hrun).entered_of_returned hagreed hpast hok hj

end Algorithms

/-- Two nodes with one common call. -/
def twoNodes (i : Nat) : List Call := if i < 2 then [⟨true, [0, 1]⟩] else []

theorem twoNodes_agreed : Agreed 2 twoNodes where
  proper i call hcall := by
    unfold twoNodes at hcall
    split_ifs at hcall with hi
    · obtain rfl := List.mem_singleton.mp hcall
      exact ⟨by simp, by simp; omega, by simp⟩
    · simp at hcall
  common i j := by
    unfold twoNodes
    split_ifs with hi hj hj
    · have hmem : i ∈ [0, 1] ∧ j ∈ [0, 1] := by simp; omega
      simp [callsWith, hmem]
    · have hmem : j ∉ [0, 1] := by simp; omega
      simp [callsWith, hmem]
    · have hmem : i ∉ [0, 1] := by simp; omega
      simp [callsWith, hmem]
    · rfl

/-- The record of the common call at a node of `twoNodes` for which it returned `Ok`. -/
def returnedCall (alg : BarrierAlgorithm) (i : Nat) : Completed :=
  ⟨⟨true, [0, 1]⟩, program alg i [0, 1], .ok⟩

/-- Both nodes notify each other, then node 0 waits and returns. -/
def mutualRun : List WorldEvent :=
  [.enter 0, .enter 1, .advance 0, .advance 1, .advance 0, .advance 1, .deliver 0 1,
    .deliver 1 0, .advance 0, .advance 0, .advance 0, .ret 0]

/-- Node 0 waits for node 1, answers it and returns. -/
def leaderRun : List WorldEvent :=
  [.enter 0, .enter 1, .advance 1, .advance 1, .deliver 1 0, .advance 0, .advance 0,
    .advance 0, .advance 0, .deliver 0 1, .advance 0, .ret 0]

theorem DisseminationBarrier.dissemination_safe_two :
    ∃ w, (World.system .Dissemination 2 twoNodes).run mutualRun = some w ∧
      w.EnteredMatching 0 1 [] [0, 1] :=
  ⟨_, rfl, @DisseminationBarrier.dissemination_safe 2 twoNodes twoNodes_agreed mutualRun _ rfl
    0 1 [] [] (returnedCall .Dissemination 0) rfl rfl (by decide)⟩

theorem BinaryTreeBarrier.binary_tree_safe_two :
    ∃ w, (World.system .BinaryTree 2 twoNodes).run leaderRun = some w ∧
      w.EnteredMatching 0 1 [] [0, 1] :=
  ⟨_, rfl, @BinaryTreeBarrier.binary_tree_safe 2 twoNodes twoNodes_agreed leaderRun _ rfl
    0 1 [] [] (returnedCall .BinaryTree 0) rfl rfl (by decide)⟩

theorem LinearBarrier.linear_safe_two :
    ∃ w, (World.system .Centralized 2 twoNodes).run leaderRun = some w ∧
      w.EnteredMatching 0 1 [] [0, 1] :=
  ⟨_, rfl, @LinearBarrier.linear_safe 2 twoNodes twoNodes_agreed leaderRun _ rfl
    0 1 [] [] (returnedCall .Centralized 0) rfl rfl (by decide)⟩

end IbverbsRs.Network
