import IbverbsRs.Framework.GlobalOrder
import IbverbsRs.Network.Barrier.Safety
import Mathlib.Algebra.BigOperators.Group.Finset.Piecewise
import Mathlib.Algebra.Order.BigOperators.Group.Finset
import Mathlib.Algebra.Ring.Nat

namespace IbverbsRs.Network

open Framework SignalOp

/-- The events of a run in which no write fails and no deadline passes. -/
def WorldEvent.NoFailure : WorldEvent → Prop
  | .enter _ | .advance _ | .ret _ | .deliver _ _ => True
  | .refuse _ _ | .expire _ | .unwind _ | .lose _ _ => False

instance (ev : WorldEvent) : Decidable ev.NoFailure :=
  match ev with
  | .enter _ | .advance _ | .ret _ | .deliver _ _ => isTrue trivial
  | .refuse _ _ | .expire _ | .unwind _ | .lose _ _ => isFalse id

/-- Every node makes the instances it is a member of, in their global order. -/
structure GlobalOrder (world_size : Nat) (insts : List (List Nat)) (calls : Nat → List Call) :
    Prop where
  ascending : ∀ G ∈ insts, G.Pairwise (· < ·)
  inRange : ∀ G ∈ insts, ∀ r ∈ G, r < world_size
  calls_eq : ∀ i, (calls i).map Call.peers = callsWith i insts

theorem GlobalOrder.agreed {world_size : Nat} {insts : List (List Nat)} {calls : Nat → List Call}
    (h : GlobalOrder world_size insts calls) : Agreed world_size calls where
  proper i call hcall := by
    have hmem : call.peers ∈ callsWith i insts := by
      rw [← h.calls_eq i]
      exact List.mem_map_of_mem hcall
    obtain ⟨hG, hi⟩ := List.mem_filter.mp hmem
    exact ⟨h.ascending _ hG, by simpa using hi, h.inRange _ hG⟩
  common i j := by
    rw [h.calls_eq i, h.calls_eq j, callsWith_comm]

/-- Every call of every node has returned. -/
def World.Finished (w : World) : Prop := ∀ i, (w.node i).current = none ∧ w.todo i = []

/-- A reachable world in which nothing has failed. -/
structure Healthy (alg : BarrierAlgorithm) (world_size : Nat) (calls : Nat → List Call)
    (w : World) : Prop where
  inv : WorldInv alg world_size calls w
  fine : ∀ i, (w.node i).barrier.poisoned = false

namespace Healthy

variable {alg : BarrierAlgorithm} {world_size : Nat} {calls : Nat → List Call} {w w' : World}

/-- Without failures a call that is entered starts its program. -/
theorem enter_eq (h : Healthy alg world_size calls w) (hagreed : Agreed world_size calls) {i : Nat}
    {call : Call} {rest : List Call} (hscript : w.todo i = call :: rest) :
    (w.node i).enter call =
      { w.node i with current := some ⟨call, [], program alg i call.peers⟩ } := by
  have hcall : call ∈ calls i := by
    rw [← h.inv.script i, hscript]
    simp
  have hstart := (h.inv.nodes i).start_eq (hagreed.proper i call hcall)
  rw [h.fine i, if_neg (by simp)] at hstart
  rw [Node.enter, hstart]

/-- What a step without failures does. -/
inductive Move (alg : BarrierAlgorithm) (w : World) : WorldEvent → World → Prop
  | enter {i : Nat} {call : Call} {rest : List Call} (idle : (w.node i).current = none)
      (script : w.todo i = call :: rest) :
      Move alg w (.enter i) { w.setNode i
        { w.node i with current := some ⟨call, [], program alg i call.peers⟩ } with
        todo := Function.update w.todo i rest }
  | post {i p value : Nat} {n : Node} {call : Call} {executed rest : List BarrierOp}
      (busy : (w.node i).current = some ⟨call, executed, .postWrite p :: rest⟩)
      (after : n.current = some ⟨call, executed ++ [.postWrite p], rest⟩)
      (poisoned : n.barrier.poisoned = (w.node i).barrier.poisoned) :
      Move alg w (.advance i) ((w.setNode i n).setWire i p (w.wire i p ++ [value]))
  | advance {i : Nat} {n : Node} {call : Call} {op : BarrierOp} {executed rest : List BarrierOp}
      (busy : (w.node i).current = some ⟨call, executed, op :: rest⟩)
      (after : n.current = some ⟨call, executed ++ [op], rest⟩)
      (poisoned : n.barrier.poisoned = (w.node i).barrier.poisoned) :
      Move alg w (.advance i) (w.setNode i n)
  | ret {i : Nat} {n : Node} {call : Call} {executed : List BarrierOp}
      (busy : (w.node i).current = some ⟨call, executed, []⟩) (after : n.current = none)
      (poisoned : n.barrier.poisoned = (w.node i).barrier.poisoned) :
      Move alg w (.ret i) (w.setNode i n)
  | deliver {i j value : Nat} {rest : List Nat} {n : Node} (queued : w.wire i j = value :: rest)
      (after : n.current = (w.node j).current)
      (poisoned : n.barrier.poisoned = (w.node j).barrier.poisoned) :
      Move alg w (.deliver i j) ((w.setNode j n).setWire i j rest)

theorem move (h : Healthy alg world_size calls w) (hagreed : Agreed world_size calls)
    {ev : WorldEvent} (hev : ev.NoFailure) (hs : w.step ev = some w') : Move alg w ev w' := by
  cases World.step_spec hs with
  | @entered i call rest n script moved =>
    simp only [Node.step] at moved
    split_ifs at moved with hidle
    obtain rfl := Option.some.inj moved
    rw [h.enter_eq hagreed script]
    exact .enter hidle script
  | @posted i p value n next gathered moved =>
    cases Node.step_spec moved with
    | @advanced call executed rest op mr busy performed =>
      obtain rfl : op = .postWrite p := by simpa [Node.next, busy] using next
      exact .post busy rfl rfl
  | @acted ev i e n own moved noEnter noPlace noPost confirmed =>
    cases ev with
    | advance k =>
      obtain ⟨rfl, rfl⟩ : k = i ∧ .advance = e := by simpa [WorldEvent.own] using own
      cases Node.step_spec moved with
      | advanced busy performed => exact .advance busy rfl rfl
    | ret k =>
      obtain ⟨rfl, rfl⟩ : k = i ∧ .ret = e := by simpa [WorldEvent.own] using own
      cases Node.step_spec moved with
      | returned busy => exact .ret busy rfl rfl
    | refuse | expire | unwind | lose => exact absurd hev (by simp [WorldEvent.NoFailure])
    | enter | deliver => simp [WorldEvent.own] at own
  | @delivered i j value rest n queued moved =>
    cases Node.step_spec moved with
    | placed performed => exact .deliver queued rfl rfl
  | lost => exact absurd hev (by simp [WorldEvent.NoFailure])

theorem step (h : Healthy alg world_size calls w) (hagreed : Agreed world_size calls)
    {ev : WorldEvent} (hev : ev.NoFailure) (hs : w.step ev = some w') :
    Healthy alg world_size calls w' := by
  refine ⟨h.inv.step hagreed hs, fun k => ?_⟩
  have hk := h.fine k
  cases h.move hagreed hev hs with
  | @enter i call rest idle script =>
    simp only [World.setNode_node]
    split_ifs with hki
    · subst hki
      exact hk
    · exact hk
  | post busy after poisoned | advance busy after poisoned | ret busy after poisoned
  | deliver queued after poisoned =>
    simp only [World.setWire_node, World.setNode_node]
    split_ifs with hki
    · subst hki
      rw [poisoned, hk]
    · exact hk

theorem start (alg : BarrierAlgorithm) (world_size : Nat) (calls : Nat → List Call) :
    Healthy alg world_size calls (World.start alg world_size calls) :=
  ⟨WorldInv.start alg world_size calls, fun _ => rfl⟩

/-- Whatever a node has done was done in a call whose members are ranks of the world. -/
theorem peer_lt_of_mem_trace (h : Healthy alg world_size calls w) {i : Nat} {op : BarrierOp}
    (hop : op ∈ (w.node i).trace) : i < world_size ∧ op.peer < world_size := by
  have hi := h.inv.nodes i
  obtain ⟨call, hcall, hmem⟩ := List.mem_flatMap.mp (hi.trace_isPrefix.subset hop)
  have hp := hi.proper call (hi.entered_isPrefix.subset hcall)
  exact ⟨hp.inRange i hp.self, hp.inRange _ (program_peer hp.ascending hp.self hmem).1⟩

theorem lt_of_wire (h : Healthy alg world_size calls w) {i j value : Nat} {rest : List Nat}
    (hq : w.wire i j = value :: rest) : i < world_size ∧ j < world_size := by
  have hlink := h.inv.links i j
  rw [hq] at hlink
  have hpos := hlink.posted_pos
  exact h.peer_lt_of_mem_trace (List.count_pos_iff.mp hpos)

theorem lt_of_busy (h : Healthy alg world_size calls w) {i : Nat} {r : Running}
    (hr : (w.node i).current = some r) : i < world_size := by
  have hp := (h.inv.nodes i).proper r.call (by simp [Node.calls, hr])
  exact hp.inRange i hp.self

end Healthy

section Work

variable (alg : BarrierAlgorithm) (world_size : Nat)

/-- Steps a node still has to make in the call it is in; posting a write costs one step
more, its delivery. -/
def Node.remaining (n : Node) : Nat :=
  match n.current with
  | none => 0
  | some r => 2 * r.rest.length + 1

def World.load (w : World) (i : Nat) : Nat :=
  ((w.todo i).map (fun call => 2 * (program alg i call.peers).length + 2)).sum +
    (w.node i).remaining + ∑ j ∈ Finset.range world_size, (w.wire i j).length

/-- A bound on the steps that are left. -/
def World.work (w : World) : Nat := ∑ i ∈ Finset.range world_size, w.load alg world_size i

end Work

namespace Healthy

variable {alg : BarrierAlgorithm} {world_size : Nat} {calls : Nat → List Call} {w w' : World}

private theorem load_lt (h : Healthy alg world_size calls w) (hagreed : Agreed world_size calls)
    {ev : WorldEvent} (hev : ev.NoFailure) (hs : w.step ev = some w') :
    ∃ i < world_size, w'.load alg world_size i < w.load alg world_size i ∧
      ∀ k, k ≠ i → w'.load alg world_size k = w.load alg world_size k := by
  cases h.move hagreed hev hs with
  | @enter i call rest idle script =>
    have hi : i < world_size := by
      have hp := hagreed.proper i call (by rw [← h.inv.script i, script]; simp)
      exact hp.inRange i hp.self
    refine ⟨i, hi, ?_, fun k hk => ?_⟩
    · simp only [World.load, World.setNode_node, World.setNode_wire, Function.update_self, script,
        List.map_cons, List.sum_cons, Node.remaining, idle, if_true]
      omega
    · simp [World.load, hk]
  | @post i p value n call executed rest busy after poisoned =>
    refine ⟨i, h.lt_of_busy busy, ?_, fun k hk => ?_⟩
    · have hwire : ∑ j ∈ Finset.range world_size,
          (((w.setNode i n).setWire i p (w.wire i p ++ [value])).wire i j).length ≤
          ∑ j ∈ Finset.range world_size, (w.wire i j).length + 1 := by
        have hsum : ∀ j, (((w.setNode i n).setWire i p (w.wire i p ++ [value])).wire i j).length =
            (w.wire i j).length + if j = p then 1 else 0 := by
          intro j
          rw [World.setWire_wire]
          by_cases hj : j = p <;> simp [hj]
        simp only [hsum, Finset.sum_add_distrib, Finset.sum_ite_eq']
        split_ifs <;> omega
      simp only [World.load, World.setWire_node, World.setNode_node, World.setWire_todo,
        World.setNode_todo, Node.remaining, after, busy, if_true, List.length_cons] at hwire ⊢
      omega
    · simp [World.load, hk]
  | @advance i n call op executed rest busy after poisoned =>
    refine ⟨i, h.lt_of_busy busy, ?_, fun k hk => ?_⟩
    · simp only [World.load, World.setNode_node, World.setNode_todo, World.setNode_wire,
        Node.remaining, after, busy, if_true, List.length_cons]
      omega
    · simp [World.load, hk]
  | @ret i n call executed busy after poisoned =>
    refine ⟨i, h.lt_of_busy busy, ?_, fun k hk => ?_⟩
    · simp only [World.load, World.setNode_node, World.setNode_todo, World.setNode_wire,
        Node.remaining, after, busy, if_true]
      omega
    · simp [World.load, hk]
  | @deliver i j value rest n queued after poisoned =>
    obtain ⟨hi, hj⟩ := h.lt_of_wire queued
    have hnode (k : Nat) : ((w.setNode j n).node k).remaining = (w.node k).remaining := by
      rw [World.setNode_node]
      split_ifs with hk
      · subst hk
        simp [Node.remaining, after]
      · rfl
    refine ⟨i, hi, ?_, fun k hk => ?_⟩
    · have hwire : ∑ l ∈ Finset.range world_size, (w.wire i l).length =
          ∑ l ∈ Finset.range world_size,
            (((w.setNode j n).setWire i j rest).wire i l).length + 1 := by
        have hsum : ∀ l, (w.wire i l).length =
            (((w.setNode j n).setWire i j rest).wire i l).length + if l = j then 1 else 0 := by
          intro l
          rw [World.setWire_wire]
          by_cases hl : l = j <;> simp [hl, queued]
        simp only [hsum, Finset.sum_add_distrib, Finset.sum_ite_eq', Finset.mem_range, hj, if_true]
      simp only [World.load, World.setWire_node, World.setWire_todo, World.setNode_todo, hnode]
      omega
    · have hk' := hnode k
      rw [World.setNode_node] at hk'
      simp [World.load, hk, hk']

/-- Every step of a run without failures uses up some of the work. -/
theorem work_lt (h : Healthy alg world_size calls w) (hagreed : Agreed world_size calls)
    {ev : WorldEvent} (hev : ev.NoFailure) (hs : w.step ev = some w') :
    w'.work alg world_size < w.work alg world_size := by
  obtain ⟨i, hi, hlt, heq⟩ := h.load_lt hagreed hev hs
  refine Finset.sum_lt_sum (fun k _ => ?_) ⟨i, Finset.mem_range.mpr hi, hlt⟩
  rcases eq_or_ne k i with rfl | hk
  · exact hlt.le
  · exact (heq k hk).le

/-- No step of a run without failures is possible. -/
def Stuck (w : World) : Prop := ∀ ev : WorldEvent, ev.NoFailure → w.step ev = none

private theorem wire_of_stuck (h : Healthy alg world_size calls w) (hstuck : Stuck w) (i j : Nat) :
    w.wire i j = [] := by
  cases hq : w.wire i j with
  | nil => rfl
  | cons value rest =>
    have hi : i < (w.node j).barrier.barrier_mr.memory.length := by
      rw [(h.inv.nodes j).size]
      exact (h.lt_of_wire hq).1
    obtain ⟨mr, hmr⟩ := BarrierMr.update_isSome (fun flags => { flags with in_epoch := value }) hi
    have hnone := hstuck (.deliver i j) trivial
    simp only [World.step, hq, World.act, Node.step, BarrierMr.place_in_epoch] at hnone
    rw [hmr] at hnone
    cases hnone

private theorem todo_of_stuck (hstuck : Stuck w) {i : Nat} (hidle : (w.node i).current = none) :
    w.todo i = [] := by
  cases hq : w.todo i with
  | nil => rfl
  | cons call rest =>
    have hnone := hstuck (.enter i) trivial
    simp [World.step, hq, World.act, Node.step, hidle] at hnone

/-- Only a wait whose counter has not arrived can hold a node up. -/
private theorem spin_of_stuck (h : Healthy alg world_size calls w) (hstuck : Stuck w) {i : Nat}
    {r : Running} (hr : (w.node i).current = some r) :
    ∃ p rest, r.rest = .spinPoll p :: rest ∧
      ((w.node i).flags p).in_epoch < ((w.node i).flags p).expected_in_epoch := by
  obtain ⟨call, executed, rest⟩ := r
  cases rest with
  | nil =>
    have hnone := hstuck (.ret i) trivial
    simp [World.step, World.act, Node.step, hr] at hnone
  | cons op rest =>
    have hpeer := (h.inv.nodes i).peer_lt ((h.inv.nodes i).running _ hr).2 (by simp [Node.calls, hr])
    by_contra hfree
    have hspin : ∀ p, op = .spinPoll p →
        ((w.node i).flags p).expected_in_epoch ≤ ((w.node i).flags p).in_epoch := by
      rintro p rfl
      by_contra hlt
      exact hfree ⟨p, rest, rfl, not_le.mp hlt⟩
    obtain ⟨mr, hmr⟩ := Node.perform_isSome hpeer hspin
    have hnone := hstuck (.advance i) trivial
    have hnext : (w.node i).next = some op := by simp [Node.next, hr]
    cases op with
    | postWrite p =>
      obtain ⟨value, hv⟩ : ∃ value, (w.node i).barrier.barrier_mr.out_epoch p = some value :=
        BarrierMr.out_epoch_isSome hpeer
      simp [World.step, hnext, World.act, Node.step, hr, hmr, hv] at hnone
    | awaitWrite p =>
      simp [World.step, hnext, World.act, Node.step, hr, hmr, h.wire_of_stuck hstuck i p] at hnone
    | increaseOut p | increaseExpected p | spinPoll p =>
      simp [World.step, hnext, World.act, Node.step, hr, hmr] at hnone

/-- While nothing moves, every notification that was started has been placed. -/
private theorem placed_of_stuck (h : Healthy alg world_size calls w) (hstuck : Stuck w)
    (p i : Nat) : ((w.node i).flags p).in_epoch = (w.node p).raised i := by
  have hsettled : (w.node p).posted i = (w.node p).raised i ∧
      (w.node p).confirmed i = (w.node p).raised i := by
    cases hc : (w.node p).current with
    | none =>
      have hpast := (h.inv.nodes p).settled_past (h.fine p) i
      have htrace : (w.node p).trace = (w.node p).past.flatMap (·.executed) := by
        simp [Node.trace, hc]
      simp only [Node.posted, Node.confirmed, Node.raised, htrace]
      exact ⟨hpast.1, hpast.2.1⟩
    | some r =>
      obtain ⟨q, rest, hrest, _⟩ := h.spin_of_stuck hstuck hc
      have hnext : (w.node p).next = some (.spinPoll q) := by simp [Node.next, hc, hrest]
      exact ((h.inv.nodes p).pace hnext).1.2 i
  have hin := (h.inv.links p i).incoming_eq (by omega)
  omega

private theorem blocked_of_stuck (h : Healthy alg world_size calls w)
    {insts : List (List Nat)} (horder : GlobalOrder world_size insts calls) (hstuck : Stuck w)
    {i : Nat} {r : Running} (hr : (w.node i).current = some r) :
    ∃ A G B executed, insts = A ++ G :: B ∧
      Blocked (signalProgram alg) (fun i => signals (w.node i).trace) i A G executed := by
  have hi := h.inv.nodes i
  obtain ⟨hp, hprog⟩ := hi.running r hr
  obtain ⟨p, rest, hrest, hlt⟩ := h.spin_of_stuck hstuck hr
  have hhist := hi.history
  rw [hp] at hhist
  have hcalls : callsWith i insts = (w.node i).past.map (·.call.peers) ++ r.call.peers ::
      (w.todo i).map Call.peers := by
    rw [← horder.calls_eq i, ← h.inv.script i]
    simp [Node.calls, hr, Function.comp_def]
  obtain ⟨A, B, hinsts, hA⟩ := exists_split_of_callsWith hcalls
  refine ⟨A, r.call.peers, B, signals r.executed, hinsts, ?_, ?_, p, signals rest, ?_, ?_⟩
  · exact (hi.proper r.call (by simp [Node.calls, hr])).self
  · simp only [Node.trace, hr, hhist.executed_eq, hA, signals_append, signals_flatMap_program]
    simp [Function.comp_def]
  · rw [signalProgram, ← hprog, hrest, signals_append]
    rfl
  · have hpace := (hi.pace (show (w.node i).next = some (.spinPoll p) by simp [Node.next, hr, hrest])).1.1
    have hplaced := h.placed_of_stuck hstuck p i
    have hexp := (hi.counters p).2
    simp only [Node.raised] at hplaced
    rw [count_signals_signal, count_signals_wait]
    omega

/-- Absence of deadlock: a world that cannot move has finished. -/
theorem finished_of_stuck (h : Healthy alg world_size calls w) {insts : List (List Nat)}
    (horder : GlobalOrder world_size insts calls) (hstuck : Stuck w) : w.Finished := by
  have hd : ∀ G ∈ insts, Discipline G (fun i => signalProgram alg i G) :=
    fun G hG => program_discipline (horder.ascending G hG)
  have hall : ∀ i, signals (w.node i).trace =
      (callsWith i insts).flatMap (signalProgram alg i) ∨
      ∃ A G B executed, insts = A ++ G :: B ∧
        Blocked (signalProgram alg) (fun i => signals (w.node i).trace) i A G executed := by
    intro i
    cases hc : (w.node i).current with
    | none =>
      left
      have hhist := (h.inv.nodes i).history
      rw [h.fine i] at hhist
      have hscript := h.inv.script i
      rw [todo_of_stuck hstuck hc, List.append_nil] at hscript
      rw [← horder.calls_eq i, ← hscript, ← signals_flatMap_program]
      simp [Node.trace, Node.calls, hc, hhist.executed_eq]
    | some r => exact Or.inr (h.blocked_of_stuck horder hstuck hc)
  intro i
  have hidle : (w.node i).current = none := by
    cases hc : (w.node i).current with
    | none => rfl
    | some r =>
      obtain ⟨A, G, B, executed, hinsts, hblocked⟩ := h.blocked_of_stuck horder hstuck hc
      exact absurd hblocked (no_circular_wait hd hall hinsts i executed)
  exact ⟨hidle, todo_of_stuck hstuck hidle⟩

/-- At the end every call of the node has returned `Ok`. -/
theorem all_ok_of_finished (h : Healthy alg world_size calls w) (hfin : w.Finished) (i : Nat) :
    (w.node i).past.map (·.call) = calls i ∧ ∀ x ∈ (w.node i).past, x.result = .ok := by
  have hhist := (h.inv.nodes i).history
  rw [h.fine i] at hhist
  refine ⟨?_, fun x hx => (hhist.all_ok x hx).1⟩
  have hscript := h.inv.script i
  simpa [Node.calls, (hfin i).1, (hfin i).2] using hscript

end Healthy

/-- Barriers do not deadlock: without failures every run is at most as long as the work of
the start, a run that is not over can be continued, and one that is has only `Ok`s. -/
theorem World.barriers_terminate {alg : BarrierAlgorithm} {world_size : Nat}
    {insts : List (List Nat)} {calls : Nat → List Call}
    (horder : GlobalOrder world_size insts calls) {es : List WorldEvent}
    (hes : ∀ ev ∈ es, ev.NoFailure) {w : World}
    (hrun : (World.system alg world_size calls).run es = some w) :
    (¬ w.Finished → ∃ ev, ev.NoFailure ∧ (w.step ev).isSome) ∧
    es.length + w.work alg world_size ≤
      (World.start alg world_size calls).work alg world_size ∧
    (w.Finished → ∀ i, (w.node i).past.map (·.call) = calls i ∧
      ∀ x ∈ (w.node i).past, x.result = .ok) := by
  have hhealthy : Healthy alg world_size calls w :=
    (World.system alg world_size calls).invariant_on (Healthy.start alg world_size calls)
      (fun _ _ _ hev hi hs => hi.step horder.agreed hev hs) hes hrun
  refine ⟨fun hfin => ?_, ?_, hhealthy.all_ok_of_finished⟩
  · by_contra hnone
    refine hfin (hhealthy.finished_of_stuck horder (fun ev hev => ?_))
    by_contra hs
    exact hnone ⟨ev, hev, Option.isSome_iff_ne_none.mpr hs⟩
  · exact (World.system alg world_size calls).length_add_measure_le
      (fun w => w.work alg world_size) (fun _ _ _ hev hi hs =>
        ⟨hi.step horder.agreed hev hs, hi.work_lt horder.agreed hev hs⟩)
      (Healthy.start alg world_size calls) hes hrun

theorem twoNodes_order : GlobalOrder 2 [[0, 1]] twoNodes where
  ascending := by simp
  inRange := by simp
  calls_eq i := by
    unfold twoNodes
    split_ifs with hi
    · have hmem : i ∈ [0, 1] := by simp; omega
      simp [callsWith, hmem]
    · have hmem : i ∉ [0, 1] := by simp; omega
      simp [callsWith, hmem]

/-- After node 0 has returned from its only call, node 1 can still move. -/
theorem World.barriers_terminate_two :
    ∃ w, (World.system .BinaryTree 2 twoNodes).run leaderRun = some w ∧
      ∃ ev, WorldEvent.NoFailure ev ∧ (w.step ev).isSome :=
  ⟨_, rfl, (@World.barriers_terminate .BinaryTree 2 [[0, 1]] twoNodes twoNodes_order leaderRun
    (by decide) _ rfl).1 (fun hfin => absurd (hfin 1).1 (by decide))⟩

end IbverbsRs.Network
