import IbverbsRs.Network.Barrier.ByteRefinement
import IbverbsRs.Network.Barrier.Progress

namespace IbverbsRs.Network

open Ibverbs Framework

/-- The events of a run in which no write fails and no deadline passes. -/
def ByteEvent.NoFailure : ByteEvent → Prop
  | .enter _ | .advance _ | .control _ .ret | .write _ _ | .complete _ _ => True
  | .control _ _ | .lose _ _ => False

/-- The NIC writes a request, for the first time or again. -/
def ByteEvent.isWrite : ByteEvent → Bool
  | .write _ _ => true
  | _ => false

namespace ByteWorld

/-- Every call of every node has returned. -/
def Finished (world_size : Nat) (c : ByteWorld) : Prop :=
  ∀ i < world_size, (c.calling i).current = none ∧ c.todo i = []

section Work

variable (alg : BarrierAlgorithm) (world_size : Nat) (mrs : Nat → LinkedBarrierMr)

/-- The steps that are left to the nodes, as `World.work` counts them. -/
def pending (c : ByteWorld) : Nat :=
  ∑ i ∈ Finset.range world_size,
    (((c.todo i).map (fun call => 2 * (program alg i call.peers).length + 2)).sum +
      (c.node alg mrs i).remaining +
      ∑ j ∈ Finset.range world_size, (c.wire i j).countP (fun posted => !posted.written))

/-- The requests that are not completed. -/
def requests (c : ByteWorld) : Nat :=
  ∑ pair ∈ Finset.range world_size ×ˢ Finset.range world_size, (c.wire pair.1 pair.2).length

/-- A bound on the steps that are left, but for writing a request again. -/
def work (c : ByteWorld) : Nat := 2 * c.pending alg world_size mrs + c.requests world_size

end Work

variable {world_size : Nat} {c c' : ByteWorld}

theorem requests_congr (hwire : c'.wire = c.wire) :
    c'.requests world_size = c.requests world_size := by
  rw [requests, requests, hwire]

theorem requests_setWire {i j : Nat} {queue : List Posted} (hi : i < world_size)
    (hj : j < world_size) (hwire : c'.wire = (c.setWire i j queue).wire) :
    c'.requests world_size + (c.wire i j).length = c.requests world_size + queue.length := by
  have hmem : (i, j) ∈ Finset.range world_size ×ˢ Finset.range world_size :=
    Finset.mem_product.mpr ⟨Finset.mem_range.mpr hi, Finset.mem_range.mpr hj⟩
  have hsplit (d : ByteWorld) : (d.wire i j).length +
      ∑ pair ∈ (Finset.range world_size ×ˢ Finset.range world_size).erase (i, j),
        (d.wire pair.1 pair.2).length = d.requests world_size :=
    Finset.add_sum_erase _ (fun pair : Nat × Nat => (d.wire pair.1 pair.2).length) hmem
  have hrest : ∑ pair ∈ (Finset.range world_size ×ˢ Finset.range world_size).erase (i, j),
      (c'.wire pair.1 pair.2).length =
      ∑ pair ∈ (Finset.range world_size ×ˢ Finset.range world_size).erase (i, j),
        (c.wire pair.1 pair.2).length := by
    refine Finset.sum_congr rfl (fun pair hpair => ?_)
    obtain ⟨hne, _⟩ := Finset.mem_erase.mp hpair
    rw [hwire, setWire_wire, if_neg (fun heq => hne (Prod.ext heq.1 heq.2))]
  have hself : (c'.wire i j).length = queue.length := by
    rw [hwire, setWire_wire, if_pos ⟨rfl, rfl⟩]
  have hc := hsplit c
  have hc' := hsplit c'
  omega

section Wires

variable {alg : BarrierAlgorithm} {mrs : Nat → LinkedBarrierMr} {i : Nat}

theorem wire_act {e : NodeEvent} (h : c.act alg mrs i e = some c') : c'.wire = c.wire := by
  obtain ⟨n, hn, rfl⟩ := Option.map_eq_some_iff.mp h
  rfl

theorem wire_enter (hs : c.step alg world_size mrs (.enter i) = some c') : c'.wire = c.wire := by
  simp only [step] at hs
  split_ifs at hs
  split at hs
  · cases hs
  · obtain ⟨next, hact, rfl⟩ := Option.map_eq_some_iff.mp hs
    have hwire := wire_act hact
    exact hwire

theorem wire_control {e : NodeEvent} (hs : c.step alg world_size mrs (.control i e) = some c') :
    c'.wire = c.wire := by
  simp only [step] at hs
  split_ifs at hs
  exact wire_act hs

end Wires

end ByteWorld

/-- Requests that are not written yet are the values that are on the way. -/
theorem Carries.countP_eq {world_size : Nat} {mrs : Nat → LinkedBarrierMr} {a : World} {i j : Nat}
    {queue : List Posted} {values : List Nat} (h : Carries world_size mrs a i j queue values) :
    queue.countP (fun posted => !posted.written) = values.length := by
  cases h <;> rfl

/-- Requests are under way between ranks of the world only. -/
theorem Carries.lt_of_ne_nil {world_size : Nat} {mrs : Nat → LinkedBarrierMr} {a : World}
    {i j : Nat} {queue : List Posted} {values : List Nat}
    (h : Carries world_size mrs a i j queue values) (hne : queue ≠ []) :
    i < world_size ∧ j < world_size := by
  cases h with
  | idle => exact absurd rfl hne
  | waiting notifies peer outstanding => exact ⟨notifies.sender, peer ▸ notifies.peer⟩
  | written notifies peer outstanding arrived => exact ⟨notifies.sender, peer ▸ notifies.peer⟩

namespace Shows

variable {alg : BarrierAlgorithm} {world_size : Nat} {mrs : Nat → LinkedBarrierMr}
  {calls : Nat → List Call} {c c' : ByteWorld} {a a' : World}

theorem pending_eq (h : Shows alg world_size mrs calls c a) :
    c.pending alg world_size mrs = a.work alg world_size := by
  refine Finset.sum_congr rfl (fun i hi => ?_)
  have hwires : ∑ j ∈ Finset.range world_size,
      (c.wire i j).countP (fun posted => !posted.written) =
      ∑ j ∈ Finset.range world_size, (a.wire i j).length :=
    Finset.sum_congr rfl (fun j _ => (h.wires i j).countP_eq)
  rw [hwires, World.load, h.todo, h.nodes i (Finset.mem_range.mp hi)]

/-- A step of the nodes leaves less work, even if it posts a request. -/
theorem work_lt (h : Shows alg world_size mrs calls c a) (h' : Shows alg world_size mrs calls c' a')
    (hhealthy : Healthy alg world_size calls a) (hagreed : Agreed world_size calls)
    {ev : WorldEvent} (hev : ev.NoFailure) (ha : a.step ev = some a')
    (hrequests : c'.requests world_size ≤ c.requests world_size + 1) :
    c'.work alg world_size mrs < c.work alg world_size mrs := by
  have hless := hhealthy.work_lt hagreed hev ha
  rw [ByteWorld.work, ByteWorld.work, h.pending_eq, h'.pending_eq]
  omega

/-- A node hands at most one request to the channels with each operation. -/
theorem requests_advance (h : Shows alg world_size mrs calls c a) {i : Nat}
    (hs : c.step alg world_size mrs (.advance i) = some c') :
    c'.requests world_size ≤ c.requests world_size + 1 := by
  simp only [ByteWorld.step] at hs
  split_ifs at hs with hi
  unfold ByteWorld.advance at hs
  split at hs
  · rename_i call executed op rest hcur
    have hkept (hwire : c'.wire = c.wire) :
        c'.requests world_size ≤ c.requests world_size + 1 := by
      rw [ByteWorld.requests_congr hwire]
      exact Nat.le_succ _
    cases op with
    | increaseOut p | increaseExpected p =>
      obtain ⟨mem, hmem, rfl⟩ := Option.map_eq_some_iff.mp hs
      exact hkept rfl
    | postWrite p =>
      obtain ⟨wr, hwr, rfl⟩ := Option.map_eq_some_iff.mp hs
      have hp : p < world_size := (h.current hi hcur).2.2
      have hwire : ((c.setCalling i { c.calling i with
          current := some ⟨call, executed ++ [.postWrite p], rest⟩ }).setWire i p
            (c.wire i p ++ [⟨wr, false⟩])).wire =
          (c.setWire i p (c.wire i p ++ [⟨wr, false⟩])).wire := rfl
      have hrequests := ByteWorld.requests_setWire hi hp hwire
      rw [List.length_append, List.length_singleton] at hrequests
      omega
    | awaitWrite p | spinPoll p =>
      simp only at hs
      split_ifs at hs
      obtain rfl := Option.some.inj hs
      exact hkept rfl
  · cases hs

theorem requests_write (h : Shows alg world_size mrs calls c a) {i j : Nat}
    (hs : c.step alg world_size mrs (.write i j) = some c') :
    c'.requests world_size = c.requests world_size := by
  simp only [ByteWorld.step] at hs
  split at hs
  · cases hs
  · rename_i wr was rest hqueue
    obtain ⟨src, hsrc, rfl⟩ := Option.map_eq_some_iff.mp hs
    obtain ⟨hi, hj⟩ := (h.wires i j).lt_of_ne_nil (by rw [hqueue]; simp)
    have hwire : ((c.transfer wr i src).setWire i j (⟨wr, true⟩ :: rest)).wire =
        (c.setWire i j (⟨wr, true⟩ :: rest)).wire := rfl
    have hrequests := ByteWorld.requests_setWire hi hj hwire
    rw [hqueue, List.length_cons, List.length_cons] at hrequests
    omega

theorem requests_complete (h : Shows alg world_size mrs calls c a) {i j : Nat}
    (hs : c.step alg world_size mrs (.complete i j) = some c') :
    c'.requests world_size + 1 = c.requests world_size := by
  simp only [ByteWorld.step] at hs
  split at hs
  · rename_i wr rest hqueue
    obtain rfl := Option.some.inj hs
    obtain ⟨hi, hj⟩ := (h.wires i j).lt_of_ne_nil (by rw [hqueue]; simp)
    have hrequests := ByteWorld.requests_setWire hi hj
      (rfl : (c.setWire i j rest).wire = (c.setWire i j rest).wire)
    rw [hqueue, List.length_cons] at hrequests
    omega
  · cases hs

/-- No step without failures raises the work, and only writing a request may leave it as it is. -/
theorem work_step (h : Shows alg world_size mrs calls c a)
    (hhealthy : Healthy alg world_size calls a) (hl : Linked world_size mrs)
    (hagreed : Agreed world_size calls) (hcalls : ∀ i, (calls i).length + 1 < 256 ^ 8)
    {e : ByteEvent} (he : e.NoFailure) (hs : c.step alg world_size mrs e = some c') :
    (∃ a', Shows alg world_size mrs calls c' a' ∧ Healthy alg world_size calls a') ∧
      c'.work alg world_size mrs + (if e.isWrite then 0 else 1) ≤ c.work alg world_size mrs := by
  have hshown (ev : WorldEvent) {a' : World} (hev : ev.NoFailure) (ha : a.step ev = some a')
      (h' : Shows alg world_size mrs calls c' a')
      (hrequests : c'.requests world_size ≤ c.requests world_size + 1) :
      (∃ a', Shows alg world_size mrs calls c' a' ∧ Healthy alg world_size calls a') ∧
        c'.work alg world_size mrs + 1 ≤ c.work alg world_size mrs :=
    ⟨⟨a', h', hhealthy.step hagreed hev ha⟩, h.work_lt h' hhealthy hagreed hev ha hrequests⟩
  have hhidden (h' : Shows alg world_size mrs calls c' a) :
      c'.pending alg world_size mrs = c.pending alg world_size mrs :=
    h'.pending_eq.trans h.pending_eq.symm
  cases e with
  | enter i =>
    obtain ⟨a', ha, h'⟩ := h.entered hagreed hs
    refine hshown (.enter i) trivial ha h' ?_
    rw [ByteWorld.requests_congr (ByteWorld.wire_enter hs)]
    exact Nat.le_succ _
  | advance i =>
    obtain ⟨a', ha, h'⟩ := h.advanced hl hagreed hcalls hs
    exact hshown (.advance i) trivial ha h' (h.requests_advance hs)
  | control i e =>
    obtain ⟨ev, a', hev, ha, h'⟩ := h.controlled hagreed hs
    cases e with
    | ret =>
      cases hev
      refine hshown (.ret i) trivial ha h' ?_
      rw [ByteWorld.requests_congr (ByteWorld.wire_control hs)]
      exact Nat.le_succ _
    | enter _ | advance | refuse _ | expire | unwind | place _ _ => exact absurd he id
  | write i j =>
    have hrequests := h.requests_write hs
    rcases h.wrote hl hagreed hs with h' | ⟨a', ha, h'⟩
    · refine ⟨⟨a, h', hhealthy⟩, ?_⟩
      rw [ByteWorld.work, ByteWorld.work, hhidden h', hrequests]
      exact Nat.le_refl _
    · obtain ⟨hnext, hless⟩ := hshown (.deliver i j) trivial ha h' (by omega)
      exact ⟨hnext, Nat.le_of_succ_le hless⟩
  | complete i j =>
    have hrequests := h.requests_complete hs
    have h' := h.completed hs
    refine ⟨⟨a, h', hhealthy⟩, ?_⟩
    rw [ByteWorld.work, ByteWorld.work, hhidden h', ← hrequests]
    exact Nat.le_refl _
  | lose i j => exact absurd he id

/-- A request that is under way can be written, and completed when it is. -/
theorem moves_of_wire (h : Shows alg world_size mrs calls c a)
    (hhealthy : Healthy alg world_size calls a) (hl : Linked world_size mrs)
    (hagreed : Agreed world_size calls) (hcalls : ∀ i, (calls i).length + 1 < 256 ^ 8) {i j : Nat}
    (hwire : c.wire i j ≠ []) : ∃ e c', e.NoFailure ∧ c.step alg world_size mrs e = some c' ∧
      c'.work alg world_size mrs < c.work alg world_size mrs := by
  have hcarries := h.wires i j
  generalize hqueue : c.wire i j = queue at hcarries hwire
  generalize hvalues : a.wire i j = values at hcarries
  cases hcarries with
  | idle => exact absurd rfl hwire
  | @waiting wr notifies peer outstanding =>
    subst peer
    obtain ⟨src, hsrc⟩ : ∃ src, gathered_from wr.wr.gather_elements 0 8 = some src := by
      rw [notifies.gather]
      exact ⟨_, rfl⟩
    have hs : c.step alg world_size mrs (.write i wr.peer) =
        some ((c.transfer wr i src).setWire i wr.peer [⟨wr, true⟩]) := by
      simp only [ByteWorld.step, hqueue, hsrc, Option.map_some]
    obtain ⟨a', ha, h'⟩ := h.delivered hl hagreed notifies hsrc hvalues outstanding
    have hdeliver : (WorldEvent.deliver i wr.peer).NoFailure := trivial
    refine ⟨.write i wr.peer, _, trivial, hs, h.work_lt h' hhealthy hagreed hdeliver ha ?_⟩
    rw [h.requests_write hs]
    exact Nat.le_succ _
  | @written wr notifies peer outstanding arrived =>
    have hs : c.step alg world_size mrs (.complete i j) = some (c.setWire i j []) := by
      simp only [ByteWorld.step, hqueue]
    have hcomplete : (ByteEvent.complete i j).NoFailure := trivial
    exact ⟨.complete i j, _, trivial, hs, (h.work_step hhealthy hl hagreed hcalls hcomplete hs).2⟩

/-- What the nodes can do with their counters they can do with the bytes. -/
theorem advance_isSome (h : Shows alg world_size mrs calls c a) (hl : Linked world_size mrs)
    (hempty : ∀ i j, c.wire i j = []) {i : Nat} (hi : i < world_size) {call : Call}
    {executed rest : List BarrierOp} {op : BarrierOp} {mr : BarrierMr}
    (hbusy : (a.node i).current = some ⟨call, executed, op :: rest⟩)
    (hperform : (a.node i).barrier.barrier_mr.perform op = some mr) :
    (c.advance mrs i).isSome := by
  have hcur : (c.calling i).current = some ⟨call, executed, op :: rest⟩ := by
    rw [h.nodes i hi] at hbusy
    exact hbusy
  have hpeer := (h.current hi hcur).2.2
  simp only [ByteWorld.advance, hcur]
  cases op with
  | increaseOut p =>
    have hp : p < world_size := hpeer
    obtain ⟨mem, hmem⟩ := hl.exists_increase hi hp .out_epoch (c.memory i)
    simp only [LinkedBarrierMr.increase_out_epoch, hmem, Option.map_some, Option.isSome_some]
  | increaseExpected p =>
    have hp : p < world_size := hpeer
    obtain ⟨mem, hmem⟩ := hl.exists_increase hi hp .expected_in_epoch (c.memory i)
    simp only [LinkedBarrierMr.increase_peer_expected_epoch, hmem, Option.map_some,
      Option.isSome_some]
  | postWrite p =>
    have hp : p < world_size := hpeer
    obtain ⟨wr, hwr, _⟩ := hl.exists_notification hi hp
    simp only [hwr, Option.map_some, Option.isSome_some]
  | awaitWrite p => simp only [hempty, if_true, Option.isSome_some]
  | spinPoll p =>
    have hp : p < (mrs i).memory.length := by
      rw [hl.slots i hi]
      exact hpeer
    have hlt : p < ((mrs i).view (c.memory i)).memory.length := by
      rwa [LinkedBarrierMr.view_length]
    have hexpected : ((mrs i).view (c.memory i)).is_peer_epoch_expected p = some true := by
      rw [h.nodes i hi] at hperform
      by_contra hnot
      cases (if_neg hnot).symm.trans hperform
    rw [BarrierMr.is_peer_epoch_expected_iff hlt, LinkedBarrierMr.view_flags _ _ hp] at hexpected
    have harrived : (mrs i).get (c.memory i) p .in_epoch ≥
        (mrs i).get (c.memory i) p .expected_in_epoch := hexpected
    simp only [hp, harrived, and_self, if_true, Option.isSome_some]

/-- While nothing is under way, the nodes can go on if their counters let them. -/
theorem moves_of_move (h : Shows alg world_size mrs calls c a)
    (hhealthy : Healthy alg world_size calls a) (hl : Linked world_size mrs)
    (hagreed : Agreed world_size calls) (hempty : ∀ i j, c.wire i j = []) {ev : WorldEvent}
    (hev : ev.NoFailure) (ha : a.step ev = some a') :
    ∃ e : ByteEvent, e.NoFailure ∧ e.isWrite = false ∧
      (c.step alg world_size mrs e).isSome := by
  have hadvance {i : Nat} {n : Node} (moved : (a.node i).step .advance = some n) :
      ∃ e : ByteEvent, e.NoFailure ∧ e.isWrite = false ∧
        (c.step alg world_size mrs e).isSome := by
    refine ⟨.advance i, trivial, rfl, ?_⟩
    cases Node.step_spec moved with
    | advanced busy performed =>
      have hi := hhealthy.lt_of_busy busy
      rw [ByteWorld.step, if_pos hi]
      exact h.advance_isSome hl hempty hi busy performed
  cases World.step_spec ha with
  | @entered i call rest n script moved =>
    have hi : i < world_size := by
      have hproper := hagreed.proper i call (by rw [← hhealthy.inv.script i, script]; simp)
      exact hproper.inRange i hproper.self
    rw [h.todo] at script
    rw [h.nodes i hi] at moved
    refine ⟨.enter i, trivial, rfl, ?_⟩
    simp only [ByteWorld.step, if_pos hi, script, ByteWorld.act, moved, Option.map_some,
      Option.isSome_some]
  | posted next gathered moved => exact hadvance moved
  | @acted ev i e n own moved noEnter noPlace noPost confirmed =>
    cases ev with
    | advance k =>
      obtain ⟨rfl, rfl⟩ : k = i ∧ .advance = e := by simpa [WorldEvent.own] using own
      exact hadvance moved
    | ret k =>
      obtain ⟨rfl, rfl⟩ : k = i ∧ .ret = e := by simpa [WorldEvent.own] using own
      have hi : k < world_size := by
        cases Node.step_spec moved with
        | returned busy => exact hhealthy.lt_of_busy busy
      rw [h.nodes k hi] at moved
      refine ⟨.control k .ret, trivial, rfl, ?_⟩
      simp only [ByteWorld.step, hi, NodeEvent.isControl, and_self, if_true, ByteWorld.act, moved,
        Option.map_some, Option.isSome_some]
    | refuse | expire | unwind | lose => exact absurd hev id
    | enter | deliver => simp [WorldEvent.own] at own
  | @delivered i j value rest n queued moved =>
    have hcount := (h.wires i j).countP_eq
    rw [hempty, queued] at hcount
    cases hcount
  | lost => exact absurd hev id

theorem finished (h : Shows alg world_size mrs calls c a) (hagreed : Agreed world_size calls)
    (hhealthy : Healthy alg world_size calls a) (hfin : c.Finished world_size) : a.Finished := by
  intro i
  by_cases hi : i < world_size
  · obtain ⟨hidle, htodo⟩ := hfin i hi
    rw [h.nodes i hi, h.todo]
    exact ⟨hidle, htodo⟩
  · constructor
    · cases hcurrent : (a.node i).current with
      | none => rfl
      | some r => exact absurd (hhealthy.lt_of_busy hcurrent) hi
    · cases hscript : a.todo i with
      | nil => rfl
      | cons call rest =>
        have hproper := hagreed.proper i call (by rw [← h.inv.script i, hscript]; simp)
        exact absurd (hproper.inRange i hproper.self) hi

/-- A world of bytes in which a call has not returned yet has a step that brings it closer to the
end. -/
theorem exists_progress (h : Shows alg world_size mrs calls c a)
    (hhealthy : Healthy alg world_size calls a) (hl : Linked world_size mrs)
    {insts : List (List Nat)} (horder : GlobalOrder world_size insts calls)
    (hcalls : ∀ i, (calls i).length + 1 < 256 ^ 8) (hfin : ¬ c.Finished world_size) :
    ∃ e c', e.NoFailure ∧ c.step alg world_size mrs e = some c' ∧
      c'.work alg world_size mrs < c.work alg world_size mrs := by
  by_cases hempty : ∀ i j, c.wire i j = []
  · have hopen : ¬ a.Finished := by
      refine fun hdone => hfin (fun i hi => ?_)
      obtain ⟨hidle, htodo⟩ := hdone i
      rw [h.nodes i hi] at hidle
      rw [h.todo] at htodo
      exact ⟨hidle, htodo⟩
    obtain ⟨ev, hev, a', ha⟩ : ∃ ev : WorldEvent, ev.NoFailure ∧ ∃ a', a.step ev = some a' := by
      by_contra hnone
      refine hopen (hhealthy.finished_of_stuck horder (fun ev hev => ?_))
      by_contra hs
      exact hnone ⟨ev, hev, Option.ne_none_iff_exists'.mp hs⟩
    obtain ⟨e, he, hwrite, hsome⟩ := h.moves_of_move hhealthy hl horder.agreed hempty hev ha
    obtain ⟨c', hs⟩ := Option.isSome_iff_exists.mp hsome
    have hless := (h.work_step hhealthy hl horder.agreed hcalls he hs).2
    rw [hwrite] at hless
    exact ⟨e, c', he, hs, hless⟩
  · obtain ⟨i, hi⟩ := not_forall.mp hempty
    obtain ⟨j, hij⟩ := not_forall.mp hi
    exact h.moves_of_wire hhealthy hl horder.agreed hcalls hij

end Shows

section Corollaries

variable {alg : BarrierAlgorithm} {world_size : Nat} {mrs : Nat → LinkedBarrierMr}
  {memory : Nat → ByteMemory} {calls : Nat → List Call} {es : List ByteEvent} {c : ByteWorld}
  (hl : Linked world_size mrs) (hcalls : ∀ i, (calls i).length + 1 < 256 ^ 8)
  (hzero : ∀ i < world_size, ∀ q < world_size, ∀ field, (mrs i).get (memory i) q field = 0)

include hl hcalls hzero

/-- What the runs of the barriers on memory lead to is what runs on counters lead to. -/
theorem ByteWorld.shows_of_run (hagreed : Agreed world_size calls)
    (hrun : (ByteWorld.system alg world_size mrs memory calls).run es = some c) :
    ∃ a, Shows alg world_size mrs calls c a := by
  obtain ⟨_, a, _, h, _⟩ := (ByteWorld.refines hl hagreed hcalls hzero).run hrun
  exact ⟨a, h⟩

/-- On memory, with 64-bit counters that could wrap: a dissemination barrier that returns `Ok` has
been entered by everybody. -/
theorem DisseminationBarrier.safe_in_memory (hagreed : Agreed world_size calls)
    (hrun : (ByteWorld.system .Dissemination world_size mrs memory calls).run es = some c)
    {i j : Nat} (hi : i < world_size) {before after : List Completed} {x : Completed}
    (hpast : (c.calling i).past = before ++ x :: after) (hok : x.result = .ok)
    (hj : j ∈ x.call.peers) : c.EnteredMatching .Dissemination mrs i j before x.call.peers := by
  obtain ⟨a, h⟩ := ByteWorld.shows_of_run hl hcalls hzero hagreed hrun
  exact h.entered_of_returned hagreed hi hpast hok hj

theorem BinaryTreeBarrier.safe_in_memory (hagreed : Agreed world_size calls)
    (hrun : (ByteWorld.system .BinaryTree world_size mrs memory calls).run es = some c)
    {i j : Nat} (hi : i < world_size) {before after : List Completed} {x : Completed}
    (hpast : (c.calling i).past = before ++ x :: after) (hok : x.result = .ok)
    (hj : j ∈ x.call.peers) : c.EnteredMatching .BinaryTree mrs i j before x.call.peers := by
  obtain ⟨a, h⟩ := ByteWorld.shows_of_run hl hcalls hzero hagreed hrun
  exact h.entered_of_returned hagreed hi hpast hok hj

theorem LinearBarrier.safe_in_memory (hagreed : Agreed world_size calls)
    (hrun : (ByteWorld.system .Centralized world_size mrs memory calls).run es = some c)
    {i j : Nat} (hi : i < world_size) {before after : List Completed} {x : Completed}
    (hpast : (c.calling i).past = before ++ x :: after) (hok : x.result = .ok)
    (hj : j ∈ x.call.peers) : c.EnteredMatching .Centralized mrs i j before x.call.peers := by
  obtain ⟨a, h⟩ := ByteWorld.shows_of_run hl hcalls hzero hagreed hrun
  exact h.entered_of_returned hagreed hi hpast hok hj

/-- The counters that the nodes read from their arrays do not drift apart. -/
theorem ByteWorld.epochs_in_memory (hagreed : Agreed world_size calls)
    (hrun : (ByteWorld.system alg world_size mrs memory calls).run es = some c) {i j : Nat}
    (hi : i < world_size) (hj : j < world_size) :
    (mrs j).get (c.memory j) i .in_epoch ≤ (mrs i).get (c.memory i) j .out_epoch ∧
    (mrs i).get (c.memory i) j .out_epoch ≤ (mrs j).get (c.memory j) i .expected_in_epoch + 2 ∧
    (mrs j).get (c.memory j) i .expected_in_epoch ≤ (mrs i).get (c.memory i) j .out_epoch + 1 ∧
    ((c.node alg mrs i).DoneWith j → (c.node alg mrs j).DoneWith i →
      (mrs j).get (c.memory j) i .in_epoch = (mrs i).get (c.memory i) j .out_epoch ∧
      (mrs j).get (c.memory j) i .expected_in_epoch = (mrs i).get (c.memory i) j .out_epoch) := by
  obtain ⟨a, h⟩ := ByteWorld.shows_of_run hl hcalls hzero hagreed hrun
  obtain ⟨hin, hout, hexpected⟩ := h.inv.epochs_within hagreed i j
  have hsettled := h.inv.epochs_settled hagreed (i := i) (j := j)
  rw [h.flags hl hi hj, h.flags hl hj hi] at hin hout hexpected hsettled
  rw [h.nodes i hi, h.nodes j hj] at hsettled
  exact ⟨hin, hout, hexpected, fun hdone hdone' => hsettled hdone hdone'⟩

/-- Barriers on memory do not deadlock: without failures a run that is not over can be continued
by a step that leaves less work, a run consists of at most as many steps as there is work at the
start, the writes of the NICs apart, and a run that is over has only `Ok`s. -/
theorem ByteWorld.terminates_in_memory {insts : List (List Nat)}
    (horder : GlobalOrder world_size insts calls) (hes : ∀ e ∈ es, e.NoFailure)
    (hrun : (ByteWorld.system alg world_size mrs memory calls).run es = some c) :
    (¬ c.Finished world_size → ∃ e c', e.NoFailure ∧ c.step alg world_size mrs e = some c' ∧
      c'.work alg world_size mrs < c.work alg world_size mrs) ∧
    es.countP (fun e => !e.isWrite) + c.work alg world_size mrs ≤
      (ByteWorld.start memory calls).work alg world_size mrs ∧
    (c.Finished world_size → ∀ i < world_size, (c.calling i).past.map (·.call) = calls i ∧
      ∀ x ∈ (c.calling i).past, x.result = .ok) := by
  have hagreed := horder.agreed
  have hstart : ∃ a, Shows alg world_size mrs calls (ByteWorld.start memory calls) a ∧
      Healthy alg world_size calls a := ⟨_, Shows.start hl hzero, Healthy.start ..⟩
  have hstep : ∀ c e c', e.NoFailure → (∃ a, Shows alg world_size mrs calls c a ∧
      Healthy alg world_size calls a) → c.step alg world_size mrs e = some c' →
      (∃ a', Shows alg world_size mrs calls c' a' ∧ Healthy alg world_size calls a') ∧
        c'.work alg world_size mrs + (if !e.isWrite then 1 else 0) ≤
          c.work alg world_size mrs := by
    rintro c e c' he ⟨a, h, hhealthy⟩ hs
    obtain ⟨hnext, hless⟩ := h.work_step hhealthy hl hagreed hcalls he hs
    exact ⟨hnext, by cases hwrite : e.isWrite <;> simpa [hwrite] using hless⟩
  obtain ⟨a, h, hhealthy⟩ := (ByteWorld.system alg world_size mrs memory calls).invariant_on hstart
    (fun c e c' he hc hs => (hstep c e c' he hc hs).1) hes hrun
  refine ⟨h.exists_progress hhealthy hl horder hcalls, ?_, fun hfin i hi => ?_⟩
  · exact (ByteWorld.system alg world_size mrs memory calls).countP_add_measure_le
      (fun c => c.work alg world_size mrs) hstep hstart hes hrun
  · have hok := hhealthy.all_ok_of_finished (h.finished hagreed hhealthy hfin) i
    rwa [h.nodes i hi] at hok

end Corollaries

/-- Node 1 has not returned yet, although a request to it was written twice. -/
example : ∃ c, (ByteWorld.system .Dissemination 2 linkedPair (fun _ _ => 0) twoNodes).run
    mutualByteRun = some c ∧ ∃ e c', e.NoFailure ∧ c.step .Dissemination 2 linkedPair e = some c' ∧
      c'.work .Dissemination 2 linkedPair < c.work .Dissemination 2 linkedPair :=
  ⟨_, rfl, (@ByteWorld.terminates_in_memory .Dissemination 2 linkedPair (fun _ _ => 0) twoNodes
    mutualByteRun _ linkedPair_linked twoNodes_room linkedPair_zero [[0, 1]] twoNodes_order
    (by simp [mutualByteRun, ByteEvent.NoFailure]) rfl).1
    (fun hfin => absurd (hfin 1 (by decide)).1 (by decide))⟩

end IbverbsRs.Network
