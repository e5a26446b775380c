import IbverbsRs.Framework.Refinement
import IbverbsRs.Network.Barrier.ByteWorld
import IbverbsRs.Network.Barrier.Epochs

namespace IbverbsRs.Network

open Ibverbs Framework

namespace LinkedBarrierMr

theorem view_length (self : LinkedBarrierMr) (mem : ByteMemory) :
    (self.view mem).memory.length = self.memory.length := by
  simp [view]

theorem view_getElem? (self : LinkedBarrierMr) (mem : ByteMemory) {p : Nat}
    (hp : p < self.memory.length) : (self.view mem).memory[p]? = some (self.slot mem p) := by
  rw [view, List.getElem?_map, List.getElem?_range hp]
  rfl

theorem view_flags (self : LinkedBarrierMr) (mem : ByteMemory) {p : Nat}
    (hp : p < self.memory.length) : (self.view mem).flags p = self.slot mem p := by
  rw [BarrierMr.flags, List.getD_eq_getElem?_getD, self.view_getElem? mem hp]
  rfl

/-- An array of zeros. -/
theorem view_zero {self : LinkedBarrierMr} {mem : ByteMemory} {world_size : Nat}
    (hlength : self.memory.length = world_size)
    (hzero : ∀ q < world_size, ∀ field, self.get mem q field = 0) :
    self.view mem = BarrierMr.new self.rank world_size := by
  rw [view, hlength, BarrierMr.new]
  congr 1
  apply List.ext_getElem
  · simp
  · intro q hq _
    rw [List.length_map, List.length_range] at hq
    rw [List.getElem_map, List.getElem_range, List.getElem_replicate]
    simp only [slot, hzero q hq, BarrierPeerFlags.new]

end LinkedBarrierMr

/-- Writing the value that is there. -/
theorem BarrierMr.place_in_epoch_self {mr mr' : BarrierMr} {source value : Nat}
    (h : mr.place_in_epoch source value = some mr') (hvalue : (mr.flags source).in_epoch = value) :
    mr' = mr := by
  obtain ⟨hlt, rfl⟩ := BarrierMr.update_eq_some h
  have hslot : mr.memory[source]? = some (mr.flags source) := by
    rw [flags, List.getD_eq_getElem?_getD, List.getElem?_eq_getElem hlt]
    rfl
  have hmemory : mr.memory.modify source (fun flags => { flags with in_epoch := value }) =
      mr.memory := by
    apply List.ext_getElem?
    intro q
    rw [List.getElem?_modify]
    by_cases hq : source = q
    · subst hq
      rw [hslot, ← hvalue]
      simp
    · simp [hq]
  rw [hmemory]

/-- Only the poison flag of a barrier changes in a step that is neither an operation nor a write of
the NIC. -/
theorem Node.control_step {n n' : Node} {e : NodeEvent} (h : n.step e = some n')
    (hadvance : e ≠ .advance) (hplace : ∀ source value, e ≠ .place source value) :
    n'.barrier = { n.barrier with poisoned := n'.barrier.poisoned } ∧ n'.trace = n.trace := by
  constructor
  · cases Node.step_spec h with
    | advanced => exact absurd rfl hadvance
    | placed => exact absurd rfl (hplace _ _)
    | _ => rfl
  · rcases Node.trace_step h with ⟨he, _⟩ | ⟨_, htrace⟩
    · exact absurd he hadvance
    · exact htrace

/-- What an event on the bytes is for the nodes. A request that is written again, and one that is
completed, do not show. -/
def ByteEvent.shown : ByteEvent → Option WorldEvent
  | .enter i => some (.enter i)
  | .advance i => some (.advance i)
  | .control i .ret => some (.ret i)
  | .control i (.refuse e) => some (.refuse i e)
  | .control i .expire => some (.expire i)
  | .control i .unwind => some (.unwind i)
  | .control _ _ => none
  | .write i j => some (.deliver i j)
  | .complete _ _ => none
  | .lose i j => some (.lose i j)

section Relation

variable (world_size : Nat) (mrs : Nat → LinkedBarrierMr)

/-- The requests of node `i` to node `j` and the values that they are going to place. A node leaves
the counter that its NIC reads alone until the request is completed. -/
inductive Carries (a : World) (i j : Nat) : List Posted → List Nat → Prop
  | idle : Carries a i j [] []
  | waiting {wr : PeerWriteWorkRequest} (notifies : Notifies world_size mrs i wr)
      (peer : wr.peer = j) (outstanding : (a.node i).posted j = (a.node i).confirmed j + 1) :
      Carries a i j [⟨wr, false⟩] [((a.node i).flags j).out_epoch]
  | written {wr : PeerWriteWorkRequest} (notifies : Notifies world_size mrs i wr)
      (peer : wr.peer = j) (outstanding : (a.node i).posted j = (a.node i).confirmed j + 1)
      (arrived : ((a.node j).flags i).in_epoch = ((a.node i).flags j).out_epoch) :
      Carries a i j [⟨wr, true⟩] []

variable {world_size mrs}

theorem Carries.congr {a a' : World} {i j : Nat} {queue : List Posted} {values : List Nat}
    (h : Carries world_size mrs a i j queue values)
    (hposted : (a'.node i).posted j = (a.node i).posted j)
    (hconfirmed : (a'.node i).confirmed j = (a.node i).confirmed j)
    (hout : ((a'.node i).flags j).out_epoch = ((a.node i).flags j).out_epoch)
    (hin : ((a'.node j).flags i).in_epoch = ((a.node j).flags i).in_epoch) :
    Carries world_size mrs a' i j queue values := by
  cases h with
  | idle => exact .idle
  | waiting notifies peer outstanding =>
    rw [← hout]
    exact .waiting notifies peer (by omega)
  | written notifies peer outstanding arrived =>
    exact .written notifies peer (by omega) (by omega)

theorem Carries.of_node {a a' : World} {i j : Nat} {queue : List Posted} {values : List Nat}
    (h : Carries world_size mrs a i j queue values) (hnode : a'.node = a.node) :
    Carries world_size mrs a' i j queue values :=
  h.congr (by rw [hnode]) (by rw [hnode]) (by rw [hnode]) (by rw [hnode])

/-- Nothing is on the way while every posted write is confirmed. -/
theorem Carries.eq_nil {a : World} {i j : Nat} {queue : List Posted} {values : List Nat}
    (h : Carries world_size mrs a i j queue values)
    (hsettled : (a.node i).posted j = (a.node i).confirmed j) : queue = [] ∧ values = [] := by
  cases h with
  | idle => exact ⟨rfl, rfl⟩
  | waiting _ _ outstanding => omega
  | written _ _ outstanding _ => omega

/-- A node raises its counter and posts only while nothing is on the way to the peer. -/
theorem Carries.eq_nil_of_next {alg : BarrierAlgorithm} {a : World} {i j : Nat}
    {queue : List Posted} {values : List Nat} (h : Carries world_size mrs a i j queue values)
    (hi : NodeInv alg world_size i (a.node i)) {op : BarrierOp}
    (hnext : (a.node i).next = some op) (hop : op = .increaseOut j ∨ op = .postWrite j) :
    queue = [] ∧ values = [] := by
  have hpace := (hi.pace hnext).1
  apply h.eq_nil
  rcases hop with rfl | rfl
  · obtain ⟨hposted, hconfirmed⟩ := hpace
    simp only [Node.posted, Node.confirmed]
    omega
  · obtain ⟨hposted, hconfirmed⟩ := hpace
    simp only [Node.posted, Node.confirmed]
    omega

/-- A step of a node, when what it does to the counters of a notification meets empty wires. -/
theorem Carries.setNode {alg : BarrierAlgorithm} {a : World} {i k l : Nat} {n : Node}
    {e : NodeEvent} {queue : List Posted} {values : List Nat}
    (h : Carries world_size mrs a k l queue values) (hi : NodeInv alg world_size i (a.node i))
    (hi' : NodeInv alg world_size i n) (hs : (a.node i).step e = some n)
    (hplace : ∀ source value, e ≠ .place source value)
    (hempty : k = i → ∀ op, (a.node i).next = some op →
      op ∈ [BarrierOp.increaseOut l, .postWrite l, .awaitWrite l] → e = .advance → queue = []) :
    Carries world_size mrs (a.setNode i n) k l queue values := by
  have hin : (((a.setNode i n).node l).flags k).in_epoch = ((a.node l).flags k).in_epoch := by
    rw [World.setNode_node]
    split_ifs with hl
    · rw [hl, Node.in_epoch_step hs hplace]
    · rfl
  by_cases hk : k = i
  · subst hk
    have hself : (a.setNode k n).node k = n := by rw [World.setNode_node, if_pos rfl]
    have hsame (htrace : ∀ op ∈ [BarrierOp.increaseOut l, .postWrite l, .awaitWrite l],
        n.trace.count op = (a.node k).trace.count op) :
        Carries world_size mrs (a.setNode k n) k l queue values := by
      have hout : (n.flags l).out_epoch = ((a.node k).flags l).out_epoch := by
        rw [(hi'.counters l).1, (hi.counters l).1, htrace _ (by simp)]
      have hposted := htrace (.postWrite l) (by simp)
      have hconfirmed := htrace (.awaitWrite l) (by simp)
      exact h.congr (by rw [hself]; exact hposted) (by rw [hself]; exact hconfirmed)
        (by rw [hself]; exact hout) hin
    rcases Node.trace_step hs with ⟨rfl, op, hnext, htr⟩ | ⟨_, htr⟩
    · by_cases hop : op ∈ [BarrierOp.increaseOut l, .postWrite l, .awaitWrite l]
      · have hnil := hempty rfl op hnext hop rfl
        subst hnil
        cases h
        exact .idle
      · apply hsame
        intro op' hop'
        have hne : op' ≠ op := fun heq => hop (heq ▸ hop')
        have hnone : [op].count op' = 0 := List.count_eq_zero_of_not_mem (by simpa using hne)
        rw [htr, List.count_append, hnone, Nat.add_zero]
    · exact hsame (fun op _ => by rw [htr])
  · have hother : (a.setNode i n).node k = a.node k := by rw [World.setNode_node, if_neg hk]
    exact h.congr (by rw [hother]) (by rw [hother]) (by rw [hother]) hin

/-- The posted write is going to place the counter as it stands. -/
theorem Carries.post {alg : BarrierAlgorithm} {a : World} {i p value : Nat} {n : Node}
    {queue : List Posted} {values : List Nat} (h : Carries world_size mrs a i p queue values)
    (hi : NodeInv alg world_size i (a.node i)) (hi' : NodeInv alg world_size i n)
    (hs : (a.node i).step .advance = some n) (hnext : (a.node i).next = some (.postWrite p))
    (hvalue : (a.node i).barrier.barrier_mr.out_epoch p = some value)
    {wr : PeerWriteWorkRequest} (hnotifies : Notifies world_size mrs i wr) (hpeer : wr.peer = p) :
    Carries world_size mrs (a.setNode i n) i p (queue ++ [⟨wr, false⟩]) (values ++ [value]) := by
  obtain ⟨rfl, rfl⟩ := h.eq_nil_of_next hi hnext (Or.inr rfl)
  have hself : (a.setNode i n).node i = n := by rw [World.setNode_node, if_pos rfl]
  obtain ⟨hposted, hconfirmed⟩ : Pace (a.node i).trace (.postWrite p) := (hi.pace hnext).1
  rcases Node.trace_step hs with ⟨_, op, hop, htr⟩ | ⟨hne, _⟩
  · obtain rfl : .postWrite p = op := Option.some.inj (hnext.symm.trans hop)
    have hout : ((a.setNode i n).node i).flags p = n.flags p := by rw [hself]
    have hraised : (n.flags p).out_epoch = value := by
      have hcounter := (hi.counters p).1
      rw [Node.flags, BarrierMr.out_epoch_eq_some hvalue] at hcounter
      rw [(hi'.counters p).1, htr, List.count_append, hcounter]
      simp
    rw [List.nil_append, List.nil_append, ← hraised, ← hout]
    apply Carries.waiting hnotifies hpeer
    rw [hself, Node.posted, Node.confirmed, htr, List.count_append, List.count_append]
    simp
    omega
  · exact absurd rfl hne

end Relation

/-- The world of counters that a world of bytes is an implementation of. -/
structure Shows (alg : BarrierAlgorithm) (world_size : Nat) (mrs : Nat → LinkedBarrierMr)
    (calls : Nat → List Call) (c : ByteWorld) (a : World) : Prop where
  inv : WorldInv alg world_size calls a
  nodes : ∀ i < world_size, a.node i = c.node alg mrs i
  todo : a.todo = c.todo
  wires : ∀ i j, Carries world_size mrs a i j (c.wire i j) (a.wire i j)


namespace ByteWorld

variable {alg : BarrierAlgorithm} {mrs : Nat → LinkedBarrierMr} {c c' : ByteWorld} {i : Nat}

theorem node_congr {k : Nat} (hmemory : c'.memory k = c.memory k)
    (hcalling : c'.calling k = c.calling k) : c'.node alg mrs k = c.node alg mrs k := by
  rw [node, node, hmemory, hcalling]

@[simp] theorem setWire_node (j : Nat) (queue : List Posted) :
    (c.setWire i j queue).node alg mrs = c.node alg mrs := rfl

@[simp] theorem setWire_wire {j : Nat} {queue : List Posted} (k l : Nat) :
    (c.setWire i j queue).wire k l = if k = i ∧ l = j then queue else c.wire k l := by
  by_cases hk : k = i
  · subst hk
    by_cases hl : l = j <;> simp [setWire, hl]
  · simp [setWire, hk]

theorem setCalling_node_self (calling : Calling) : (c.setCalling i calling).node alg mrs i =
    ⟨⟨alg, (mrs i).rank, (mrs i).view (c.memory i), calling.poisoned⟩, calling.current,
      calling.past⟩ := by
  have hcalling : (c.setCalling i calling).calling i = calling := Function.update_self ..
  rw [node, hcalling]
  rfl

theorem setCalling_node_of_ne {k : Nat} (hk : k ≠ i) (calling : Calling) :
    (c.setCalling i calling).node alg mrs k = c.node alg mrs k :=
  node_congr rfl (Function.update_of_ne hk ..)

theorem transfer_node_of_ne {k : Nat} {wr : PeerWriteWorkRequest} (hk : k ≠ wr.peer)
    (src : UInt64) : (c.transfer wr i src).node alg mrs k = c.node alg mrs k :=
  node_congr (Function.update_of_ne hk ..) rfl

theorem setCalling_setMemory (c : ByteWorld) (i : Nat) (calling : Calling) :
    (c.setCalling i calling).setMemory i (c.memory i) = c.setCalling i calling := by
  simp only [setMemory, setCalling, Function.update_eq_self]

/-- What a step without operations does, seen from the nodes. -/
theorem act_spec {e : NodeEvent} (h : c.act alg mrs i e = some c') (hadvance : e ≠ .advance)
    (hplace : ∀ source value, e ≠ .place source value) :
    (∃ n, (c.node alg mrs i).step e = some n ∧ c'.node alg mrs i = n) ∧
    (∀ k, k ≠ i → c'.node alg mrs k = c.node alg mrs k) ∧
    c'.todo = c.todo ∧ c'.wire = c.wire := by
  obtain ⟨n, hn, rfl⟩ := Option.map_eq_some_iff.mp h
  refine ⟨⟨n, hn, ?_⟩, ?_, rfl, rfl⟩
  · have hbarrier := (Node.control_step hn hadvance hplace).1
    obtain ⟨barrier, current, past⟩ := n
    rw [setCalling_node_self]
    simp only [Node.mk.injEq, and_true]
    exact hbarrier.symm
  · intro k hk
    exact setCalling_node_of_ne hk _

end ByteWorld

section Steps

variable {alg : BarrierAlgorithm} {world_size : Nat} {mrs : Nat → LinkedBarrierMr}
  {calls : Nat → List Call} {c c' : ByteWorld} {a a' : World}

theorem Shows.flags (h : Shows alg world_size mrs calls c a) (hl : Linked world_size mrs)
    {i p : Nat} (hi : i < world_size) (hp : p < world_size) :
    (a.node i).flags p = (mrs i).slot (c.memory i) p := by
  rw [h.nodes i hi]
  exact (mrs i).view_flags _ (by rw [hl.slots i hi]; exact hp)

/-- A step of a node that posts nothing, on both levels. -/
theorem Shows.own (h : Shows alg world_size mrs calls c a) (hagreed : Agreed world_size calls)
    {i : Nat} {ev : WorldEvent} {e : NodeEvent} {n : Node} (ha : a.step ev = some a')
    (hn : (a.node i).step e = some n) (hnodes : a'.node = (a.setNode i n).node)
    (hwire : a'.wire = a.wire) (hplace : ∀ source value, e ≠ .place source value)
    (hempty : e = .advance → ∀ op, (a.node i).next = some op →
      (∀ p, op ≠ .postWrite p) ∧ ∀ p, op = .awaitWrite p → c.wire i p = [])
    (hself : c'.node alg mrs i = n) (hother : ∀ k, k ≠ i → c'.node alg mrs k = c.node alg mrs k)
    (htodo : a'.todo = c'.todo) (hwires : c'.wire = c.wire) :
    Shows alg world_size mrs calls c' a' := by
  have hinv := h.inv.step hagreed ha
  have hi' := hinv.nodes i
  rw [hnodes, World.setNode_node, if_pos rfl] at hi'
  refine ⟨hinv, fun k hk => ?_, htodo, fun k l => ?_⟩
  · rw [hnodes, World.setNode_node]
    split_ifs with hki
    · rw [hki, hself]
    · rw [hother k hki, h.nodes k hk]
  · have hcarries := h.wires k l
    rw [hwires, hwire]
    have hset : Carries world_size mrs (a.setNode i n) k l (c.wire k l) (a.wire k l) := by
      apply hcarries.setNode (h.inv.nodes i) hi' hn hplace
      intro hki op hnext hop he
      subst hki
      obtain ⟨hpost, hawait⟩ := hempty he op hnext
      simp only [List.mem_cons, List.not_mem_nil, or_false] at hop
      rcases hop with rfl | rfl | rfl
      · exact (hcarries.eq_nil_of_next (h.inv.nodes k) hnext (Or.inl rfl)).1
      · exact absurd rfl (hpost l)
      · exact hawait l rfl
    exact hset.of_node hnodes

/-- Entering a call. -/
theorem Shows.entered (h : Shows alg world_size mrs calls c a) (hagreed : Agreed world_size calls)
    {i : Nat} (hs : c.step alg world_size mrs (.enter i) = some c') :
    ∃ a', a.step (.enter i) = some a' ∧ Shows alg world_size mrs calls c' a' := by
  simp only [ByteWorld.step] at hs
  split_ifs at hs with hi
  split at hs
  · cases hs
  · rename_i call rest hscript
    obtain ⟨next, hact, rfl⟩ := Option.map_eq_some_iff.mp hs
    obtain ⟨⟨n, hn, hself⟩, hother, htodo, hwires⟩ :=
      ByteWorld.act_spec hact (by simp) (by simp)
    rw [← h.nodes i hi] at hn
    have ha : a.step (.enter i) =
        some { a.setNode i n with todo := Function.update a.todo i rest } := by
      simp only [World.step, h.todo, hscript, World.act, hn, Option.map_some]
    refine ⟨_, ha, h.own hagreed ha hn rfl rfl (by simp) (by simp) hself hother ?_ hwires⟩
    rw [h.todo]

/-- Returning, failing and unwinding. -/
theorem Shows.controlled (h : Shows alg world_size mrs calls c a)
    (hagreed : Agreed world_size calls) {i : Nat} {e : NodeEvent}
    (hs : c.step alg world_size mrs (.control i e) = some c') :
    ∃ ev a', (ByteEvent.control i e).shown = some ev ∧ a.step ev = some a' ∧
      Shows alg world_size mrs calls c' a' := by
  simp only [ByteWorld.step] at hs
  split_ifs at hs with hi
  obtain ⟨hi, hcontrol⟩ := hi
  have hkind : ∃ ev, (ByteEvent.control i e).shown = some ev ∧ a.step ev = a.act i e := by
    cases e with
    | ret => exact ⟨.ret i, rfl, rfl⟩
    | refuse error => exact ⟨.refuse i error, rfl, rfl⟩
    | expire => exact ⟨.expire i, rfl, rfl⟩
    | unwind => exact ⟨.unwind i, rfl, rfl⟩
    | enter _ | advance | place _ _ => cases hcontrol
  obtain ⟨ev, hshown, hev⟩ := hkind
  have hadvance : e ≠ .advance := by
    rintro rfl
    cases hcontrol
  have hplace : ∀ source value, e ≠ .place source value := by
    rintro source value rfl
    cases hcontrol
  obtain ⟨⟨n, hn, hself⟩, hother, htodo, hwires⟩ := ByteWorld.act_spec hs hadvance hplace
  rw [← h.nodes i hi] at hn
  have ha : a.step ev = some (a.setNode i n) := by
    rw [hev, World.act, hn, Option.map_some]
  exact ⟨ev, _, hshown, ha, h.own hagreed ha hn rfl rfl hplace (fun he => absurd he hadvance) hself
    hother (h.todo.trans htodo.symm) hwires⟩

/-- Where a node stands when the bytes of its next operation are worked on. -/
theorem Shows.current (h : Shows alg world_size mrs calls c a) {i : Nat} (hi : i < world_size)
    {call : Call} {executed rest : List BarrierOp} {op : BarrierOp}
    (hcur : (c.calling i).current = some ⟨call, executed, op :: rest⟩) :
    (a.node i).current = some ⟨call, executed, op :: rest⟩ ∧ (a.node i).next = some op ∧
      op.peer < world_size := by
  have hbusy : (a.node i).current = some ⟨call, executed, op :: rest⟩ := by
    rw [h.nodes i hi]
    exact hcur
  have hnode := h.inv.nodes i
  refine ⟨hbusy, by rw [Node.next, hbusy]; rfl, ?_⟩
  have hlt := hnode.peer_lt (hnode.running _ hbusy).2 (by simp [Node.calls, hbusy])
  rwa [hnode.size] at hlt

theorem Node.step_advance {n : Node} {call : Call} {executed rest : List BarrierOp}
    {op : BarrierOp} {mr : BarrierMr} (hcur : n.current = some ⟨call, executed, op :: rest⟩)
    (hmr : n.barrier.barrier_mr.perform op = some mr) :
    n.step .advance = some { n with
      barrier := { n.barrier with barrier_mr := mr }
      current := some ⟨call, executed ++ [op], rest⟩ } := by
  simp only [Node.step, hcur, hmr, Option.map_some]

/-- An operation that posts nothing, when the bytes show what it does to the counters. -/
theorem Shows.operated (h : Shows alg world_size mrs calls c a)
    (hagreed : Agreed world_size calls) {i : Nat} (hi : i < world_size) {call : Call}
    {executed rest : List BarrierOp} {op : BarrierOp} {mem : ByteMemory}
    (hcur : (c.calling i).current = some ⟨call, executed, op :: rest⟩)
    (hperform : ((mrs i).view (c.memory i)).perform op = some ((mrs i).view mem))
    (hpost : ∀ p, op ≠ .postWrite p) (hawait : ∀ p, op = .awaitWrite p → c.wire i p = []) :
    ∃ a', a.step (.advance i) = some a' ∧ Shows alg world_size mrs calls
      ((c.setCalling i { c.calling i with
        current := some ⟨call, executed ++ [op], rest⟩ }).setMemory i mem) a' := by
  obtain ⟨hbusy, hnext, _⟩ := h.current hi hcur
  have hmr : (a.node i).barrier.barrier_mr = (mrs i).view (c.memory i) := by
    rw [h.nodes i hi]
    rfl
  have hn := Node.step_advance hbusy (hmr ▸ hperform)
  have hawait' : ∀ p, op = .awaitWrite p → a.wire i p = [] := by
    intro p hop
    have hcarries := h.wires i p
    rw [hawait p hop] at hcarries
    generalize a.wire i p = values at hcarries
    cases hcarries
    rfl
  have ha := World.step_advanced hnext hpost hawait' hn
  refine ⟨_, ha, h.own hagreed ha hn rfl rfl (by simp) ?_ ?_ ?_ h.todo rfl⟩
  · intro _ op' hop'
    obtain rfl : op = op' := Option.some.inj (hnext.symm.trans hop')
    exact ⟨hpost, hawait⟩
  · rw [h.nodes i hi]
    simp only [ByteWorld.node, ByteWorld.setMemory, ByteWorld.setCalling, Function.update_self]
  · intro k hk
    exact ByteWorld.node_congr (Function.update_of_ne hk ..) (Function.update_of_ne hk ..)

theorem Shows.looked (h : Shows alg world_size mrs calls c a)
    (hagreed : Agreed world_size calls) {i : Nat} (hi : i < world_size) {call : Call}
    {executed rest : List BarrierOp} {op : BarrierOp}
    (hcur : (c.calling i).current = some ⟨call, executed, op :: rest⟩)
    (hperform : ((mrs i).view (c.memory i)).perform op = some ((mrs i).view (c.memory i)))
    (hpost : ∀ p, op ≠ .postWrite p) (hawait : ∀ p, op = .awaitWrite p → c.wire i p = []) :
    ∃ a', a.step (.advance i) = some a' ∧ Shows alg world_size mrs calls
      (c.setCalling i { c.calling i with
        current := some ⟨call, executed ++ [op], rest⟩ }) a' := by
  have hdone := h.operated hagreed hi hcur hperform hpost hawait
  rwa [ByteWorld.setCalling_setMemory] at hdone

/-- A counter in memory has room for the next call. -/
theorem Shows.out_epoch_fits (h : Shows alg world_size mrs calls c a)
    (hl : Linked world_size mrs) (hagreed : Agreed world_size calls)
    (hcalls : ∀ i, (calls i).length + 1 < 256 ^ 8) {i p : Nat} (hi : i < world_size)
    (hp : p < world_size) : (mrs i).get (c.memory i) p .out_epoch + 1 < 256 ^ 8 := by
  have hle := (h.inv.epochs_le_calls hagreed i p).1
  rw [h.flags hl hi hp] at hle
  exact Nat.lt_of_le_of_lt (Nat.add_le_add_right hle 1) (hcalls i)

theorem Shows.expected_in_epoch_fits (h : Shows alg world_size mrs calls c a)
    (hl : Linked world_size mrs) (hagreed : Agreed world_size calls)
    (hcalls : ∀ i, (calls i).length + 1 < 256 ^ 8) {i p : Nat} (hi : i < world_size)
    (hp : p < world_size) (hnext : (a.node i).next = some (.increaseExpected p)) :
    (mrs i).get (c.memory i) p .expected_in_epoch + 1 < 256 ^ 8 := by
  have hle := (h.inv.epochs_le_calls hagreed p i).2
  have hheard := h.inv.heard p i
  have hpace : (a.node i).trace.count (.increaseExpected p) = (a.node i).trace.count (.spinPoll p) :=
    ((h.inv.nodes i).pace hnext).1
  have hexpected := ((h.inv.nodes i).counters p).2
  rw [h.flags hl hi hp] at hexpected hheard hle
  have hroom := hcalls p
  have hget : ((mrs i).slot (c.memory i) p).expected_in_epoch =
      (mrs i).get (c.memory i) p .expected_in_epoch := rfl
  omega

/-- The write of a notification is handed to the channel of the peer. -/
theorem Shows.posted (h : Shows alg world_size mrs calls c a) (hl : Linked world_size mrs)
    (hagreed : Agreed world_size calls) {i p : Nat} (hi : i < world_size) {call : Call}
    {executed rest : List BarrierOp}
    (hcur : (c.calling i).current = some ⟨call, executed, .postWrite p :: rest⟩)
    {wr : PeerWriteWorkRequest} (hwr : (mrs i).notification p = some wr) :
    ∃ a', a.step (.advance i) = some a' ∧ Shows alg world_size mrs calls
      ((c.setCalling i { c.calling i with
        current := some ⟨call, executed ++ [.postWrite p], rest⟩ }).setWire i p
          (c.wire i p ++ [⟨wr, false⟩])) a' := by
  obtain ⟨hbusy, hnext, hp⟩ := h.current hi hcur
  have hnode := h.inv.nodes i
  have hlt : p < (a.node i).barrier.barrier_mr.memory.length := by rw [hnode.size]; exact hp
  obtain ⟨value, hvalue⟩ : ∃ value, (a.node i).barrier.barrier_mr.out_epoch p = some value :=
    BarrierMr.out_epoch_isSome hlt
  have hperform : (a.node i).barrier.barrier_mr.perform (.postWrite p) =
      some (a.node i).barrier.barrier_mr := by
    rw [BarrierMr.perform, hvalue, Option.map_some]
  have hn := Node.step_advance hbusy hperform
  have ha := World.step_posted hnext hvalue hn
  have hinv := h.inv.step hagreed ha
  have hcarries := h.wires i p
  obtain ⟨hpeer, hnotifies⟩ := hl.notifies hi hwr
  refine ⟨_, ha, hinv, fun k hk => ?_, h.todo, fun k l => ?_⟩
  · rw [World.setWire_node, World.setNode_node, ByteWorld.setWire_node]
    split_ifs with hki
    · subst hki
      rw [h.nodes k hk, ByteWorld.setCalling_node_self]
      rfl
    · rw [h.nodes k hk, ByteWorld.setCalling_node_of_ne hki]
  · have hi' := hinv.nodes i
    rw [World.setWire_node, World.setNode_node, if_pos rfl] at hi'
    rw [ByteWorld.setWire_wire, World.setWire_wire]
    split_ifs with hkl
    · obtain ⟨rfl, rfl⟩ := hkl
      exact (hcarries.post hnode hi' hn hnext hvalue hnotifies hpeer).of_node rfl
    · refine ((h.wires k l).setNode hnode hi' hn (by simp) ?_).of_node rfl
      intro hki op hop hmem _
      obtain rfl : .postWrite p = op := Option.some.inj (hnext.symm.trans hop)
      simp only [List.mem_cons, List.not_mem_nil, or_false, BarrierOp.postWrite.injEq,
        reduceCtorEq, false_or] at hmem
      exact absurd ⟨hki, hmem.symm⟩ hkl

/-- The next operation of a call. -/
theorem Shows.advanced (h : Shows alg world_size mrs calls c a) (hl : Linked world_size mrs)
    (hagreed : Agreed world_size calls) (hcalls : ∀ i, (calls i).length + 1 < 256 ^ 8) {i : Nat}
    (hs : c.step alg world_size mrs (.advance i) = some c') :
    ∃ a', a.step (.advance i) = some a' ∧ Shows alg world_size mrs calls c' a' := by
  simp only [ByteWorld.step] at hs
  split_ifs at hs with hi
  unfold ByteWorld.advance at hs
  split at hs
  · rename_i call executed op rest hcur
    obtain ⟨_, hnext, hp⟩ := h.current hi hcur
    cases op with
    | increaseOut p =>
      obtain ⟨mem, hmem, rfl⟩ := Option.map_eq_some_iff.mp hs
      have hview := hl.view_increase_out_epoch hi hmem (h.out_epoch_fits hl hagreed hcalls hi hp)
      exact h.operated hagreed hi hcur hview (by simp) (by simp)
    | increaseExpected p =>
      obtain ⟨mem, hmem, rfl⟩ := Option.map_eq_some_iff.mp hs
      have hview := hl.view_increase_peer_expected_epoch hi hmem
        (h.expected_in_epoch_fits hl hagreed hcalls hi hp hnext)
      exact h.operated hagreed hi hcur hview (by simp) (by simp)
    | postWrite p =>
      obtain ⟨wr, hwr, rfl⟩ := Option.map_eq_some_iff.mp hs
      exact h.posted hl hagreed hi hcur hwr
    | awaitWrite p =>
      simp only at hs
      split_ifs at hs with hwire
      obtain rfl := Option.some.inj hs
      exact h.looked hagreed hi hcur rfl (by simp)
        (fun q hq => BarrierOp.awaitWrite.inj hq ▸ hwire)
    | spinPoll p =>
      simp only at hs
      split_ifs at hs with harrived
      obtain rfl := Option.some.inj hs
      have hlt : p < ((mrs i).view (c.memory i)).memory.length := by
        rw [LinkedBarrierMr.view_length]
        exact harrived.1
      have hexpected : ((mrs i).view (c.memory i)).is_peer_epoch_expected p = some true := by
        rw [BarrierMr.is_peer_epoch_expected_iff hlt, LinkedBarrierMr.view_flags _ _ harrived.1]
        exact harrived.2
      exact h.looked hagreed hi hcur (if_pos hexpected) (by simp) (by simp)
  · cases hs

/-- The first time that the NIC writes a notification. -/
theorem Shows.delivered (h : Shows alg world_size mrs calls c a) (hl : Linked world_size mrs)
    (hagreed : Agreed world_size calls) {i : Nat} {wr : PeerWriteWorkRequest} {src : UInt64}
    (hnotifies : Notifies world_size mrs i wr)
    (hsrc : gathered_from wr.wr.gather_elements 0 8 = some src)
    (hvalues : a.wire i wr.peer = [((a.node i).flags wr.peer).out_epoch])
    (outstanding : (a.node i).posted wr.peer = (a.node i).confirmed wr.peer + 1) :
    ∃ a', a.step (.deliver i wr.peer) = some a' ∧ Shows alg world_size mrs calls
      ((c.transfer wr i src).setWire i wr.peer [⟨wr, true⟩]) a' := by
  have hi := hnotifies.sender
  have hj := hnotifies.peer
  have hview := hl.view_transfer hnotifies hsrc ⟨c.memory, []⟩
  have hout : ((a.node i).flags wr.peer).out_epoch =
      (mrs i).get (c.memory i) wr.peer .out_epoch := by
    rw [h.flags hl hi hj]
    rfl
  obtain ⟨n, hn, hself⟩ : ∃ n, (a.node wr.peer).step
      (.place i ((a.node i).flags wr.peer).out_epoch) = some n ∧
        n = (c.transfer wr i src).node alg mrs wr.peer := by
    rw [hout, h.nodes wr.peer hj, Node.step]
    exact ⟨_, by rw [Option.map_eq_some_iff]; exact ⟨_, hview, rfl⟩, rfl⟩
  have ha : a.step (.deliver i wr.peer) = some ((a.setNode wr.peer n).setWire i wr.peer []) := by
    simp only [World.step, hvalues, World.act, hn, Option.map_some]
  have hinv := h.inv.step hagreed ha
  obtain ⟨htr, _, hin⟩ := Node.place_step hn
  have htrace (k : Nat) : ((a.setNode wr.peer n).node k).trace = (a.node k).trace := by
    rw [World.setNode_node]
    split_ifs with hk
    · rw [hk, htr]
    · rfl
  have hraised (k l : Nat) : (((a.setNode wr.peer n).node k).flags l).out_epoch =
      ((a.node k).flags l).out_epoch := by
    have hcounter := ((hinv.nodes k).counters l).1
    rw [World.setWire_node, htrace] at hcounter
    rw [hcounter, ((h.inv.nodes k).counters l).1]
  refine ⟨_, ha, hinv, fun k hk => ?_, h.todo, fun k l => ?_⟩
  · rw [World.setWire_node, World.setNode_node, ByteWorld.setWire_node]
    split_ifs with hkj
    · rw [hkj, hself]
    · rw [ByteWorld.transfer_node_of_ne hkj, h.nodes k hk]
  · rw [ByteWorld.setWire_wire, World.setWire_wire]
    have hposted : ((a.setNode wr.peer n).node k).posted l = (a.node k).posted l := by
      rw [Node.posted, Node.posted, htrace]
    have hconfirmed : ((a.setNode wr.peer n).node k).confirmed l = (a.node k).confirmed l := by
      rw [Node.confirmed, Node.confirmed, htrace]
    split_ifs with hkl
    · obtain ⟨rfl, rfl⟩ := hkl
      refine .written hnotifies rfl (by rw [World.setWire_node]; omega) ?_
      rw [World.setWire_node, hraised, World.setNode_node, if_pos rfl, hin, if_pos rfl]
    · have hkept : (((a.setNode wr.peer n).node l).flags k).in_epoch =
          ((a.node l).flags k).in_epoch := by
        rw [World.setNode_node]
        split_ifs with hlj
        · rw [hin k, if_neg (fun hki => hkl ⟨hki, hlj⟩), hlj]
        · rfl
      exact ((h.wires k l).congr hposted hconfirmed (hraised k l) hkept).of_node rfl

/-- Writing a notification again. -/
theorem Shows.rewritten (h : Shows alg world_size mrs calls c a) (hl : Linked world_size mrs)
    {i : Nat} {wr : PeerWriteWorkRequest} {src : UInt64}
    (hnotifies : Notifies world_size mrs i wr)
    (hsrc : gathered_from wr.wr.gather_elements 0 8 = some src)
    (arrived : ((a.node wr.peer).flags i).in_epoch = ((a.node i).flags wr.peer).out_epoch)
    (hqueue : c.wire i wr.peer = [⟨wr, true⟩]) :
    Shows alg world_size mrs calls ((c.transfer wr i src).setWire i wr.peer [⟨wr, true⟩]) a := by
  have hi := hnotifies.sender
  have hj := hnotifies.peer
  have hview := hl.view_transfer hnotifies hsrc ⟨c.memory, []⟩
  rw [h.flags hl hi hj, h.nodes wr.peer hj] at arrived
  have hsame := BarrierMr.place_in_epoch_self hview arrived
  refine ⟨h.inv, fun k hk => ?_, h.todo, fun k l => ?_⟩
  · rw [h.nodes k hk, ByteWorld.setWire_node]
    by_cases hkj : k = wr.peer
    · rw [hkj, ByteWorld.node, ByteWorld.node, ← hsame]
      rfl
    · rw [ByteWorld.transfer_node_of_ne hkj]
  · rw [ByteWorld.setWire_wire]
    split_ifs with hkl
    · obtain ⟨rfl, rfl⟩ := hkl
      rw [← hqueue]
      exact h.wires k wr.peer
    · exact h.wires k l

/-- Bytes that the NIC moves for one notification. -/
theorem Shows.wrote (h : Shows alg world_size mrs calls c a) (hl : Linked world_size mrs)
    (hagreed : Agreed world_size calls) {i j : Nat}
    (hs : c.step alg world_size mrs (.write i j) = some c') :
    Shows alg world_size mrs calls c' a ∨
      ∃ a', a.step (.deliver i j) = some a' ∧ Shows alg world_size mrs calls c' a' := by
  simp only [ByteWorld.step] at hs
  split at hs
  · cases hs
  · rename_i wr was rest hqueue
    obtain ⟨src, hsrc, rfl⟩ := Option.map_eq_some_iff.mp hs
    have hcarries := h.wires i j
    rw [hqueue] at hcarries
    generalize hvalues : a.wire i j = values at hcarries
    cases hcarries with
    | waiting hnotifies hpeer outstanding =>
      subst hpeer
      exact Or.inr (h.delivered hl hagreed hnotifies hsrc hvalues outstanding)
    | written hnotifies hpeer outstanding arrived =>
      subst hpeer
      exact Or.inl (h.rewritten hl hnotifies hsrc arrived hqueue)

/-- A request leaves its wire, after it was written. -/
theorem Shows.forgotten (h : Shows alg world_size mrs calls c a) {i j : Nat}
    (hnil : a.wire i j = []) : Shows alg world_size mrs calls (c.setWire i j []) a := by
  refine ⟨h.inv, fun k hk => ?_, h.todo, fun k l => ?_⟩
  · rw [h.nodes k hk, ByteWorld.setWire_node]
  · rw [ByteWorld.setWire_wire]
    split_ifs with hkl
    · obtain ⟨rfl, rfl⟩ := hkl
      rw [hnil]
      exact .idle
    · exact h.wires k l

theorem Shows.completed (h : Shows alg world_size mrs calls c a) {i j : Nat}
    (hs : c.step alg world_size mrs (.complete i j) = some c') :
    Shows alg world_size mrs calls c' a := by
  simp only [ByteWorld.step] at hs
  split at hs
  · rename_i wr rest hqueue
    obtain rfl := Option.some.inj hs
    have hcarries := h.wires i j
    rw [hqueue] at hcarries
    generalize hvalues : a.wire i j = values at hcarries
    cases hcarries
    exact h.forgotten hvalues
  · cases hs

/-- A request of a failed barrier that gets lost, before it was written or after that. -/
theorem Shows.lost (h : Shows alg world_size mrs calls c a) (hagreed : Agreed world_size calls)
    {i j : Nat} (hs : c.step alg world_size mrs (.lose i j) = some c') :
    Shows alg world_size mrs calls c' a ∨
      ∃ a', a.step (.lose i j) = some a' ∧ Shows alg world_size mrs calls c' a' := by
  simp only [ByteWorld.step] at hs
  split at hs
  · cases hs
  · rename_i posted rest hqueue
    split_ifs at hs with hpoisoned
    obtain rfl := Option.some.inj hs
    have hcarries := h.wires i j
    rw [hqueue] at hcarries
    generalize hvalues : a.wire i j = values at hcarries
    cases hcarries with
    | waiting hnotifies hpeer outstanding =>
      have hfailed : (a.node i).barrier.poisoned = true := by
        rw [h.nodes i hnotifies.sender]
        exact hpoisoned
      have ha : a.step (.lose i j) = some (a.setWire i j []) := by
        simp only [World.step, hvalues, if_pos hfailed]
      refine Or.inr ⟨_, ha, h.inv.step hagreed ha, fun k hk => ?_, h.todo,
        fun k l => ?_⟩
      · rw [World.setWire_node, h.nodes k hk, ByteWorld.setWire_node]
      · rw [ByteWorld.setWire_wire, World.setWire_wire]
        split_ifs with hkl
        · exact .idle
        · exact (h.wires k l).of_node rfl
    | written => exact Or.inl (h.forgotten hvalues)

/-- Every step on the bytes is one of the nodes, or it does not show. -/
theorem Shows.step (h : Shows alg world_size mrs calls c a) (hl : Linked world_size mrs)
    (hagreed : Agreed world_size calls) (hcalls : ∀ i, (calls i).length + 1 < 256 ^ 8)
    {e : ByteEvent} (hs : c.step alg world_size mrs e = some c') :
    Shows alg world_size mrs calls c' a ∨
      ∃ ev a', e.shown = some ev ∧ a.step ev = some a' ∧
        Shows alg world_size mrs calls c' a' := by
  cases e with
  | enter i =>
    obtain ⟨a', ha, h'⟩ := h.entered hagreed hs
    exact Or.inr ⟨.enter i, a', rfl, ha, h'⟩
  | advance i =>
    obtain ⟨a', ha, h'⟩ := h.advanced hl hagreed hcalls hs
    exact Or.inr ⟨.advance i, a', rfl, ha, h'⟩
  | control i e => exact Or.inr (h.controlled hagreed hs)
  | write i j =>
    rcases h.wrote hl hagreed hs with h' | ⟨a', ha, h'⟩
    · exact Or.inl h'
    · exact Or.inr ⟨.deliver i j, a', rfl, ha, h'⟩
  | complete i j => exact Or.inl (h.completed hs)
  | lose i j =>
    rcases h.lost hagreed hs with h' | ⟨a', ha, h'⟩
    · exact Or.inl h'
    · exact Or.inr ⟨.lose i j, a', rfl, ha, h'⟩

end Steps

section System

variable {alg : BarrierAlgorithm} {world_size : Nat} {mrs : Nat → LinkedBarrierMr}
  {memory : Nat → ByteMemory} {calls : Nat → List Call}

theorem Shows.start (hl : Linked world_size mrs)
    (hzero : ∀ i < world_size, ∀ q < world_size, ∀ field, (mrs i).get (memory i) q field = 0) :
    Shows alg world_size mrs calls (ByteWorld.start memory calls)
      (World.start alg world_size calls) := by
  refine ⟨.start alg world_size calls, fun i hi => ?_, rfl, fun _ _ => .idle⟩
  have hview := LinkedBarrierMr.view_zero (hl.slots i hi) (hzero i hi)
  rw [hl.rank i hi] at hview
  simp only [World.start, ByteWorld.start, ByteWorld.node, Node.new, Barrier.new, hview,
    hl.rank i hi]

/-- The barriers on registered memory implement the barriers on counters, for as many calls as
the counters have room for. -/
theorem ByteWorld.refines (hl : Linked world_size mrs) (hagreed : Agreed world_size calls)
    (hcalls : ∀ i, (calls i).length + 1 < 256 ^ 8)
    (hzero : ∀ i < world_size, ∀ q < world_size, ∀ field, (mrs i).get (memory i) q field = 0) :
    Refines (ByteWorld.system alg world_size mrs memory calls) (World.system alg world_size calls)
      (Shows alg world_size mrs calls) where
  init := Shows.start hl hzero
  step c a e c' h hs := by
    rcases h.step hl hagreed hcalls hs with h' | ⟨ev, a', _, ha, h'⟩
    · exact Or.inl h'
    · exact Or.inr ⟨ev, a', ha, h'⟩

/-- Node `j` has entered its counterpart of a call of node `i`, as in `World.EnteredMatching`. -/
def ByteWorld.EnteredMatching (alg : BarrierAlgorithm) (mrs : Nat → LinkedBarrierMr)
    (c : ByteWorld) (i j : Nat) (before : List Completed) (peers : List Nat) : Prop :=
  ∃ earlier later, (c.node alg mrs j).entered.map Call.peers = earlier ++ peers :: later ∧
    callsWith i earlier = callsWith j (before.map (·.call.peers))

theorem Shows.entered_of_returned {c : ByteWorld} {a : World}
    (h : Shows alg world_size mrs calls c a) (hagreed : Agreed world_size calls) {i : Nat}
    (hi : i < world_size) {before after : List Completed} {x : Completed}
    (hpast : (c.calling i).past = before ++ x :: after) (hok : x.result = .ok) {j : Nat}
    (hj : j ∈ x.call.peers) : c.EnteredMatching alg mrs i j before x.call.peers := by
  have hpast' : (a.node i).past = before ++ x :: after := by
    rw [h.nodes i hi]
    exact hpast
  have hcall : x.call ∈ (a.node i).calls := by simp [Node.calls, hpast']
  have hlt := ((h.inv.nodes i).proper x.call hcall).inRange j hj
  have hentered := h.inv.entered_of_returned hagreed hpast' hok hj
  rwa [World.EnteredMatching, h.nodes j hlt] at hentered

/-- In every run on registered memory a barrier that returns `Ok` has been entered by all of its
peers, and what the nodes have done is what they do in a run on unbounded counters. -/
theorem ByteWorld.barriers_safe (hl : Linked world_size mrs) (hagreed : Agreed world_size calls)
    (hcalls : ∀ i, (calls i).length + 1 < 256 ^ 8)
    (hzero : ∀ i < world_size, ∀ q < world_size, ∀ field, (mrs i).get (memory i) q field = 0)
    {es : List ByteEvent} {c : ByteWorld}
    (hrun : (ByteWorld.system alg world_size mrs memory calls).run es = some c) :
    (∃ ds a, (World.system alg world_size calls).run ds = some a ∧ ds.length ≤ es.length ∧
      Shows alg world_size mrs calls c a) ∧
    ∀ i < world_size, ∀ before x after, (c.calling i).past = before ++ x :: after →
      x.result = .ok → ∀ j ∈ x.call.peers, c.EnteredMatching alg mrs i j before x.call.peers := by
  obtain ⟨ds, a, hds, hshows, hle⟩ := (ByteWorld.refines hl hagreed hcalls hzero).run hrun
  refine ⟨⟨ds, a, hds, hle, hshows⟩, ?_⟩
  intro i hi before x after hpast hok j hj
  exact hshows.entered_of_returned hagreed hi hpast hok hj

end System

/-- Both nodes notify each other on registered memory; one of the writes is made twice. -/
def mutualByteRun : List ByteEvent :=
  [.enter 0, .enter 1, .advance 0, .advance 1, .advance 0, .advance 1, .write 0 1, .write 1 0,
    .write 0 1, .complete 0 1, .advance 0, .advance 0, .advance 0, .control 0 .ret]

theorem twoNodes_room (i : Nat) : (twoNodes i).length + 1 < 256 ^ 8 := by
  unfold twoNodes
  split_ifs <;> decide

theorem linkedPair_zero : ∀ i < 2, ∀ q < 2, ∀ field, (linkedPair i).get (fun _ => 0) q field = 0 :=
  fun _ _ _ _ _ => ByteMemory.load_zero ..

theorem ByteWorld.barriers_safe_two : ∃ c,
    (ByteWorld.system .Dissemination 2 linkedPair (fun _ _ => 0) twoNodes).run mutualByteRun =
      some c ∧ c.EnteredMatching .Dissemination linkedPair 0 1 [] [0, 1] :=
  ⟨_, rfl, (@ByteWorld.barriers_safe .Dissemination 2 linkedPair (fun _ _ => 0) twoNodes
    linkedPair_linked twoNodes_agreed twoNodes_room linkedPair_zero mutualByteRun _ rfl).2 0
    (by decide) [] (returnedCall .Dissemination 0) [] rfl rfl 1 (by decide)⟩

end IbverbsRs.Network
