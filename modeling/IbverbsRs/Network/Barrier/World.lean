import IbverbsRs.Framework.GroupCalls
import IbverbsRs.Network.Barrier.History
import Mathlib.Logic.Function.Basic

namespace IbverbsRs.Network

open Framework SignalOp

/-- All nodes, the calls each still has to make, and for every ordered pair the epoch
writes that are posted and not yet placed. -/
structure World where
  node : Nat → Node
  todo : Nat → List Call
  wire : Nat → Nat → List Nat

inductive WorldEvent
  | enter (i : Nat)
  | advance (i : Nat)
  | ret (i : Nat)
  | refuse (i : Nat) (error : TransportError)
  | expire (i : Nat)
  | unwind (i : Nat)
  | deliver (i j : Nat)
  | lose (i j : Nat)

/-- The events that are a node's own steps inside a call. -/
def WorldEvent.own : WorldEvent → Option (Nat × NodeEvent)
  | .advance i => some (i, .advance)
  | .ret i => some (i, .ret)
  | .refuse i e => some (i, .refuse e)
  | .expire i => some (i, .expire)
  | .unwind i => some (i, .unwind)
  | _ => none

namespace World

def setNode (w : World) (i : Nat) (n : Node) : World :=
  { w with node := Function.update w.node i n }

def setWire (w : World) (i j : Nat) (queue : List Nat) : World :=
  { w with wire := Function.update w.wire i (Function.update (w.wire i) j queue) }

def act (w : World) (i : Nat) (e : NodeEvent) : Option World :=
  ((w.node i).step e).map (w.setNode i)

/-- Writes between two nodes are placed in order, a completed write has been placed, and
only the writes of a node whose barrier has failed can get lost. -/
def step (w : World) : WorldEvent → Option World
  | .enter i =>
    match w.todo i with
    | [] => none
    | call :: rest =>
      (w.act i (.enter call)).map (fun w' => { w' with todo := Function.update w.todo i rest })
  | .advance i =>
    match (w.node i).next with
    | some (.postWrite p) =>
      ((w.node i).barrier.barrier_mr.out_epoch p).bind (fun value =>
        (w.act i .advance).map (fun w' => w'.setWire i p (w.wire i p ++ [value])))
    | some (.awaitWrite p) => if w.wire i p = [] then w.act i .advance else none
    | _ => w.act i .advance
  | .ret i => w.act i .ret
  | .refuse i e => w.act i (.refuse e)
  | .expire i => w.act i .expire
  | .unwind i => w.act i .unwind
  | .deliver i j =>
    match w.wire i j with
    | [] => none
    | value :: rest => (w.act j (.place i value)).map (fun w' => w'.setWire i j rest)
  | .lose i j =>
    match w.wire i j with
    | [] => none
    | _ :: rest => if (w.node i).barrier.poisoned then some (w.setWire i j rest) else none

def start (alg : BarrierAlgorithm) (world_size : Nat) (calls : Nat → List Call) : World where
  node i := Node.new alg i world_size
  todo := calls
  wire _ _ := []

def system (alg : BarrierAlgorithm) (world_size : Nat) (calls : Nat → List Call) :
    TransitionSystem World WorldEvent := ⟨start alg world_size calls, step⟩

/-- Everything a step of the world can do. -/
inductive Step (w : World) : WorldEvent → World → Prop
  | entered {i : Nat} {call : Call} {rest : List Call} {n : Node}
      (script : w.todo i = call :: rest) (moved : (w.node i).step (.enter call) = some n) :
      Step w (.enter i) { w.setNode i n with todo := Function.update w.todo i rest }
  | posted {i p value : Nat} {n : Node} (next : (w.node i).next = some (.postWrite p))
      (gathered : (w.node i).barrier.barrier_mr.out_epoch p = some value)
      (moved : (w.node i).step .advance = some n) :
      Step w (.advance i) ((w.setNode i n).setWire i p (w.wire i p ++ [value]))
  | acted {ev : WorldEvent} {i : Nat} {e : NodeEvent} {n : Node} (own : ev.own = some (i, e))
      (moved : (w.node i).step e = some n)
      (noEnter : ∀ call, e ≠ .enter call) (noPlace : ∀ source value, e ≠ .place source value)
      (noPost : e = .advance → ∀ p, (w.node i).next ≠ some (.postWrite p))
      (confirmed : e = .advance → ∀ p, (w.node i).next = some (.awaitWrite p) →
        w.wire i p = []) : Step w ev (w.setNode i n)
  | delivered {i j value : Nat} {rest : List Nat} {n : Node} (queued : w.wire i j = value :: rest)
      (moved : (w.node j).step (.place i value) = some n) :
      Step w (.deliver i j) ((w.setNode j n).setWire i j rest)
  | lost {i j value : Nat} {rest : List Nat} (queued : w.wire i j = value :: rest)
      (poisoned : (w.node i).barrier.poisoned = true) : Step w (.lose i j) (w.setWire i j rest)

theorem act_eq_some {w w' : World} {i : Nat} {e : NodeEvent} (h : w.act i e = some w') :
    ∃ n, (w.node i).step e = some n ∧ w' = w.setNode i n := by
  obtain ⟨n, hn, rfl⟩ := Option.map_eq_some_iff.mp h
  exact ⟨n, hn, rfl⟩

theorem step_spec {w w' : World} {ev : WorldEvent} (h : w.step ev = some w') :
    Step w ev w' := by
  have hact {i : Nat} {e : NodeEvent} (ha : w.act i e = some w') (hev : ev.own = some (i, e))
      (he : (∀ call, e ≠ .enter call) ∧ (∀ source value, e ≠ .place source value) ∧
        e ≠ .advance) : Step w ev w' := by
    obtain ⟨n, hn, rfl⟩ := act_eq_some ha
    exact .acted hev hn he.1 he.2.1 (fun h => absurd h he.2.2) (fun h => absurd h he.2.2)
  cases ev with
  | enter i =>
    simp only [step] at h
    split at h
    · cases h
    · obtain ⟨_, hw, rfl⟩ := Option.map_eq_some_iff.mp h
      obtain ⟨n, hn, rfl⟩ := act_eq_some hw
      exact .entered ‹_› hn
  | advance i =>
    simp only [step] at h
    split at h
    · rename_i p hp
      obtain ⟨value, hv, hmap⟩ := Option.bind_eq_some_iff.mp h
      obtain ⟨_, hw, rfl⟩ := Option.map_eq_some_iff.mp hmap
      obtain ⟨n, hn, rfl⟩ := act_eq_some hw
      exact .posted hp hv hn
    · rename_i p hp
      split_ifs at h with hwire
      obtain ⟨n, hn, rfl⟩ := act_eq_some h
      refine .acted rfl hn (by simp) (by simp) (fun _ q hq => by simp [hp] at hq) (fun _ q hq => ?_)
      obtain rfl : p = q := by simpa [hp] using hq
      exact hwire
    · rename_i hpost hawait
      obtain ⟨n, hn, rfl⟩ := act_eq_some h
      exact .acted rfl hn (by simp) (by simp) (fun _ q hq => hpost q hq)
        (fun _ q hq => absurd hq (hawait q))
  | ret i | refuse i e | expire i | unwind i => exact hact h rfl (by simp)
  | deliver i j =>
    simp only [step] at h
    split at h
    · cases h
    · obtain ⟨_, hw, rfl⟩ := Option.map_eq_some_iff.mp h
      obtain ⟨n, hn, rfl⟩ := act_eq_some hw
      exact .delivered ‹_› hn
  | lose i j =>
    simp only [step] at h
    split at h
    · cases h
    · split_ifs at h with hp
      obtain rfl := Option.some.inj h
      exact .lost ‹_› hp

theorem step_posted {a : World} {i p value : Nat} {n : Node}
    (hnext : (a.node i).next = some (.postWrite p))
    (hvalue : (a.node i).barrier.barrier_mr.out_epoch p = some value)
    (hn : (a.node i).step .advance = some n) :
    a.step (.advance i) = some ((a.setNode i n).setWire i p (a.wire i p ++ [value])) := by
  simp only [World.step, hnext, hvalue, World.act, hn, Option.bind_some, Option.map_some]

theorem step_advanced {a : World} {i : Nat} {n : Node} {op : BarrierOp}
    (hnext : (a.node i).next = some op) (hpost : ∀ p, op ≠ .postWrite p)
    (hawait : ∀ p, op = .awaitWrite p → a.wire i p = [])
    (hn : (a.node i).step .advance = some n) : a.step (.advance i) = some (a.setNode i n) := by
  cases op with
  | postWrite p => exact absurd rfl (hpost p)
  | awaitWrite p =>
    simp only [World.step, hnext, World.act, hn, Option.map_some, if_pos (hawait p rfl)]
  | increaseOut p | increaseExpected p | spinPoll p =>
    simp only [World.step, hnext, World.act, hn, Option.map_some]

end World

/-- The calls the nodes are going to make: proper lists, and every two nodes agree on the
sequence of the lists that contain both of them. -/
structure Agreed (world_size : Nat) (calls : Nat → List Call) : Prop where
  proper : ∀ i, ∀ call ∈ calls i, Proper world_size i call.peers
  common : ∀ i j, callsWith j ((calls i).map Call.peers) = callsWith i ((calls j).map Call.peers)

/-- How often a node has raised its counter for `j`, posted the write, seen it complete. -/
def Node.raised (n : Node) (j : Nat) : Nat := n.trace.count (.increaseOut j)

def Node.posted (n : Node) (j : Nat) : Nat := n.trace.count (.postWrite j)

def Node.confirmed (n : Node) (j : Nat) : Nat := n.trace.count (.awaitWrite j)

/-- The counts of a notification and of a wait never get out of step. -/
structure Node.InStep (n : Node) (j : Nat) : Prop where
  posted_le : n.posted j ≤ n.raised j
  spin_le : n.trace.count (.spinPoll j) ≤ n.trace.count (.increaseExpected j)
  expected_le : n.trace.count (.increaseExpected j) ≤ n.trace.count (.spinPoll j) + 1

/-- The last write of `n` to `j`: at most one is not yet confirmed. -/
inductive Link (n : Node) (j incoming : Nat) : List Nat → Prop
  | idle : n.posted j = n.confirmed j → incoming = n.confirmed j → Link n j incoming []
  | inFlight : n.posted j = n.confirmed j + 1 → incoming = n.confirmed j →
      Link n j incoming [n.posted j]
  | placed : n.posted j = n.confirmed j + 1 → incoming = n.posted j → Link n j incoming []
  | lost : n.posted j = n.confirmed j + 1 → n.barrier.poisoned = true →
      incoming = n.confirmed j → Link n j incoming []

namespace Link

variable {n n' : Node} {j incoming : Nat} {queue : List Nat}

theorem congr (h : Link n j incoming queue) (hp : n'.posted j = n.posted j)
    (hc : n'.confirmed j = n.confirmed j)
    (hpoison : n.barrier.poisoned = true → n'.barrier.poisoned = true) :
    Link n' j incoming queue := by
  cases h with
  | idle h₁ h₂ => exact .idle (by omega) (by omega)
  | inFlight h₁ h₂ =>
    rw [← hp]
    exact .inFlight (by omega) (by omega)
  | placed h₁ h₂ => exact .placed (by omega) (by omega)
  | lost h₁ h₂ h₃ => exact .lost (by omega) (hpoison h₂) (by omega)

/-- A sender that sees its write complete finds it placed. -/
theorem confirm (h : Link n j incoming []) (hop : n'.trace = n.trace ++ [.awaitWrite j])
    (hpace : Pace n.trace (.awaitWrite j)) (hp : n.barrier.poisoned = false) :
    Link n' j incoming [] := by
  have hposted : n'.posted j = n.posted j := by simp [Node.posted, hop]
  have hconfirmed : n'.confirmed j = n.confirmed j + 1 := by simp [Node.confirmed, hop]
  have h₁ : n.posted j = n.raised j := hpace.1
  have h₂ : n.confirmed j + 1 = n.raised j := hpace.2
  cases h with
  | idle => omega
  | placed => exact .idle (by omega) (by omega)
  | lost _ hlost _ =>
    rw [hp] at hlost
    cases hlost

/-- A sender posts only while nothing of it is under way. -/
theorem post (h : Link n j incoming queue) (hop : n'.trace = n.trace ++ [.postWrite j])
    (hpace : Pace n.trace (.postWrite j)) {value : Nat} (hvalue : value = n.raised j) :
    Link n' j incoming (queue ++ [value]) := by
  have hposted : n'.posted j = n.posted j + 1 := by simp [Node.posted, hop]
  have hconfirmed : n'.confirmed j = n.confirmed j := by simp [Node.confirmed, hop]
  have h₁ : n.posted j + 1 = n.raised j := hpace.1
  have h₂ : n.confirmed j + 1 = n.raised j := hpace.2
  cases h with
  | idle _ hin =>
    have hv : value = n'.posted j := by omega
    rw [hv]
    exact .inFlight (by omega) (by omega)
  | inFlight | placed | lost => omega

theorem deliver {value : Nat} {rest : List Nat} (h : Link n j incoming (value :: rest)) :
    Link n j value rest ∧ incoming ≤ value := by
  cases h with
  | inFlight h₁ h₂ => exact ⟨.placed h₁ rfl, by omega⟩

theorem drop {value : Nat} {rest : List Nat} (h : Link n j incoming (value :: rest))
    (hp : n.barrier.poisoned = true) : Link n j incoming rest := by
  cases h with
  | inFlight h₁ h₂ => exact .lost h₁ hp h₂

theorem incoming_le (h : Link n j incoming queue) : incoming ≤ n.posted j := by
  cases h <;> omega

theorem posted_pos {value : Nat} {rest : List Nat} (h : Link n j incoming (value :: rest)) :
    0 < n.posted j := by
  cases h with
  | inFlight h₁ _ => omega

theorem incoming_eq (h : Link n j incoming queue) (hp : n.posted j = n.confirmed j) :
    incoming = n.confirmed j := by
  cases h <;> omega

end Link

/-- What holds in every reachable state, whatever fails. -/
structure WorldInv (alg : BarrierAlgorithm) (world_size : Nat) (calls : Nat → List Call)
    (w : World) : Prop where
  nodes : ∀ i, NodeInv alg world_size i (w.node i)
  script : ∀ i, (w.node i).calls ++ w.todo i = calls i
  inStep : ∀ i j, (w.node i).InStep j
  links : ∀ i j, Link (w.node i) j ((w.node j).flags i).in_epoch (w.wire i j)
  heard : ∀ i j, (w.node j).trace.count (.spinPoll i) ≤ ((w.node j).flags i).in_epoch

namespace World

variable {w : World} {i j : Nat} {n : Node}

@[simp] theorem setNode_node (k : Nat) :
    (w.setNode i n).node k = if k = i then n else w.node k := Function.update_apply ..

@[simp] theorem setNode_wire : (w.setNode i n).wire = w.wire := rfl

@[simp] theorem setNode_todo : (w.setNode i n).todo = w.todo := rfl

@[simp] theorem setWire_node {queue : List Nat} : (w.setWire i j queue).node = w.node := rfl

@[simp] theorem setWire_todo {queue : List Nat} : (w.setWire i j queue).todo = w.todo := rfl

@[simp] theorem setWire_wire {queue : List Nat} (a b : Nat) :
    (w.setWire i j queue).wire a b = if a = i ∧ b = j then queue else w.wire a b := by
  by_cases ha : a = i
  · subst ha
    by_cases hb : b = j <;> simp [setWire, hb]
  · simp [setWire, ha]

end World

namespace WorldInv

variable {alg : BarrierAlgorithm} {world_size : Nat} {calls : Nat → List Call} {w : World}

theorem start (alg : BarrierAlgorithm) (world_size : Nat) (calls : Nat → List Call) :
    WorldInv alg world_size calls (World.start alg world_size calls) where
  nodes i := NodeInv.new alg world_size i
  script i := by simp [World.start, Node.calls, Node.new]
  inStep i j := by
    constructor <;> simp [World.start, Node.posted, Node.raised, Node.trace, Node.new]
  links i j := .idle rfl (by
    simp [World.start, Node.flags, Node.new, Barrier.new, BarrierMr.flags_new,
      BarrierPeerFlags.new, Node.confirmed, Node.trace])
  heard i j := by simp [World.start, Node.trace, Node.new]

section NodeStep

variable {i : Nat} {n n' : Node} {e : NodeEvent}

private theorem inStep_step (hi : NodeInv alg world_size i n) (hs : n.step e = some n') (j : Nat)
    (h : n.InStep j) : n'.InStep j := by
  obtain ⟨h₁, h₂, h₃⟩ := h
  rcases Node.trace_step hs with ⟨_, op, hnext, htr⟩ | ⟨_, htr⟩
  · have hpace := (hi.pace hnext).1
    by_cases hop : op.peer = j
    · subst hop
      constructor <;> cases op <;>
        simp_all [Node.posted, Node.raised, BarrierOp.peer, Pace]
    · have hother : ∀ op' : BarrierOp, op'.peer = j → [op].count op' = 0 := by
        intro op' hp
        refine List.count_eq_zero_of_not_mem (fun hm => hop ?_)
        rw [← List.mem_singleton.mp hm, hp]
      simp only [Node.posted, Node.raised] at h₁
      constructor <;> simp only [Node.posted, Node.raised, htr, List.count_append,
        hother (.postWrite j) rfl, hother (.increaseOut j) rfl, hother (.spinPoll j) rfl,
        hother (.increaseExpected j) rfl] <;> omega
  · constructor <;> simpa only [Node.posted, Node.raised, htr]

/-- A spin ends only when the incoming counter covers it. -/
private theorem heard_step (hi : NodeInv alg world_size i n) (hs : n.step e = some n')
    (hplace : ∀ source value, e ≠ .place source value) (j : Nat)
    (h : n.trace.count (.spinPoll j) ≤ (n.flags j).in_epoch) :
    n'.trace.count (.spinPoll j) ≤ (n'.flags j).in_epoch := by
  rw [Node.in_epoch_step hs hplace]
  rcases Node.trace_step hs with ⟨rfl, op, hnext, htr⟩ | ⟨_, htr⟩
  · rw [htr, List.count_append]
    by_cases hop : op = .spinPoll j
    · subst hop
      obtain ⟨hpace, _⟩ := (hi.pace hnext).1
      have hexp := (hi.counters j).2
      cases Node.step_spec hs with
      | @advanced call executed rest op' mr busy performed =>
        obtain rfl : op' = .spinPoll j := by simpa [Node.next, busy] using hnext
        have hj : j < n.barrier.barrier_mr.memory.length :=
          hi.peer_lt (hi.running _ busy).2 (by simp [Node.calls, busy])
        simp only [BarrierMr.perform] at performed
        split_ifs at performed with hin
        have hle := (BarrierMr.is_peer_epoch_expected_iff hj).mp hin
        simp only [Node.flags, List.count_singleton_self] at hexp hle ⊢
        omega
    · rw [List.count_eq_zero_of_not_mem (l := [op]) (by simpa using Ne.symm hop)]
      omega
  · rw [htr]
    exact h

/-- Steps other than a post keep the link to every peer. -/
private theorem link_step (hi : NodeInv alg world_size i n) (hs : n.step e = some n')
    {j incoming : Nat} {queue : List Nat} (h : Link n j incoming queue)
    (hpost : e = .advance → n.next ≠ some (.postWrite j))
    (hconf : e = .advance → n.next = some (.awaitWrite j) → queue = []) :
    Link n' j incoming queue := by
  rcases Node.trace_step hs with ⟨rfl, op, hnext, htr⟩ | ⟨_, htr⟩
  · by_cases hop : op = .awaitWrite j
    · subst hop
      obtain rfl := hconf rfl hnext
      obtain ⟨hpace, hp⟩ := hi.pace hnext
      exact h.confirm htr hpace hp
    · have hop' : op ≠ .postWrite j := fun he => hpost rfl (by rw [hnext, he])
      refine h.congr ?_ ?_ (Node.poisoned_step hs) <;>
        simp [Node.posted, Node.confirmed, htr, hop, hop']
  · exact h.congr (by simp [Node.posted, htr]) (by simp [Node.confirmed, htr])
      (Node.poisoned_step hs)

end NodeStep

private theorem nodes_setNode (h : WorldInv alg world_size calls w) {i : Nat} {e : NodeEvent}
    {n : Node} (hn : (w.node i).step e = some n)
    (he : ∀ call, e = .enter call → Proper world_size i call.peers) (k : Nat) :
    NodeInv alg world_size k ((w.setNode i n).node k) := by
  rw [World.setNode_node]
  split_ifs with hk
  · subst hk
    exact (h.nodes k).step hn he
  · exact h.nodes k

/-- A step other than entering a call keeps the script of its node. -/
private theorem script_setNode (h : WorldInv alg world_size calls w) {i : Nat} {e : NodeEvent}
    {n : Node} (hn : (w.node i).step e = some n) (he : ∀ call, e ≠ .enter call) (k : Nat) :
    ((w.setNode i n).node k).calls ++ w.todo k = calls k := by
  rw [World.setNode_node]
  split_ifs with hk
  · subst hk
    rcases Node.calls_step hn with ⟨call, hc, _⟩ | ⟨_, hcalls⟩
    · exact absurd hc (he call)
    · rw [hcalls, h.script k]
  · exact h.script k

private theorem inStep_setNode (h : WorldInv alg world_size calls w) {i : Nat} {e : NodeEvent}
    {n : Node} (hn : (w.node i).step e = some n) (a b : Nat) :
    ((w.setNode i n).node a).InStep b := by
  rw [World.setNode_node]
  split_ifs with ha
  · subst ha
    exact inStep_step (h.nodes a) hn b (h.inStep a b)
  · exact h.inStep a b

private theorem heard_setNode (h : WorldInv alg world_size calls w) {i : Nat} {e : NodeEvent}
    {n : Node} (hn : (w.node i).step e = some n) (he : ∀ source value, e ≠ .place source value)
    (a b : Nat) : ((w.setNode i n).node b).trace.count (.spinPoll a) ≤
      (((w.setNode i n).node b).flags a).in_epoch := by
  rw [World.setNode_node]
  split_ifs with hb
  · subst hb
    exact heard_step (h.nodes b) hn he a (h.heard a b)
  · exact h.heard a b

/-- Only a delivery changes what has come in. -/
private theorem in_epoch_setNode {i : Nat} {e : NodeEvent} {n : Node}
    (hn : (w.node i).step e = some n) (he : ∀ source value, e ≠ .place source value) (a b : Nat) :
    (((w.setNode i n).node b).flags a).in_epoch = ((w.node b).flags a).in_epoch := by
  rw [World.setNode_node]
  split_ifs with hb
  · subst hb
    exact Node.in_epoch_step hn he a
  · rfl

private theorem links_setNode (h : WorldInv alg world_size calls w) {i : Nat} {e : NodeEvent}
    {n : Node} (hn : (w.node i).step e = some n) (he : ∀ source value, e ≠ .place source value)
    (a b : Nat) (hpost : a = i → e = .advance → (w.node i).next ≠ some (.postWrite b))
    (hconf : a = i → e = .advance → (w.node i).next = some (.awaitWrite b) → w.wire i b = []) :
    Link ((w.setNode i n).node a) b (((w.setNode i n).node b).flags a).in_epoch (w.wire a b) := by
  rw [in_epoch_setNode hn he, World.setNode_node]
  split_ifs with ha
  · subst ha
    exact link_step (h.nodes a) hn (h.links a b) (hpost rfl) (hconf rfl)
  · exact h.links a b

/-- No step of the world leaves the invariant. -/
theorem step (h : WorldInv alg world_size calls w) (hagreed : Agreed world_size calls)
    {w' : World} {ev : WorldEvent} (hs : w.step ev = some w') :
    WorldInv alg world_size calls w' := by
  cases World.step_spec hs with
  | @entered i call rest n script moved =>
    have hcall : call ∈ calls i := by
      rw [← h.script i, script]
      simp
    refine ⟨h.nodes_setNode moved (fun c hc => ?_), fun k => ?_, h.inStep_setNode moved,
      fun a b => h.links_setNode moved (by simp) a b (by simp) (by simp),
      h.heard_setNode moved (by simp)⟩
    · obtain rfl := NodeEvent.enter.inj hc
      exact hagreed.proper i call hcall
    · have hk := h.script k
      simp only [World.setNode_node, Function.update_apply]
      split_ifs with hki
      · subst hki
        rcases Node.calls_step moved with ⟨c, hc, hcalls⟩ | ⟨hc, _⟩
        · obtain rfl := NodeEvent.enter.inj hc
          rw [hcalls, List.append_assoc, List.singleton_append, ← script, hk]
        · exact absurd rfl (hc call)
      · exact hk
  | @posted i p value n next gathered moved =>
    obtain ⟨hpace, _⟩ := (h.nodes i).pace next
    have hvalue : value = (w.node i).raised p := by
      rw [← BarrierMr.out_epoch_eq_some gathered]
      exact ((h.nodes i).counters p).1
    refine ⟨h.nodes_setNode moved (by simp), h.script_setNode moved (by simp),
      h.inStep_setNode moved, fun a b => ?_, h.heard_setNode moved (by simp)⟩
    rw [World.setWire_wire, World.setWire_node]
    split_ifs with hab
    · obtain ⟨rfl, rfl⟩ := hab
      rw [in_epoch_setNode moved (by simp), World.setNode_node, if_pos rfl]
      rcases Node.trace_step moved with ⟨_, op, hnext, htr⟩ | ⟨hne, _⟩
      · obtain rfl : op = .postWrite b := by simpa [next] using hnext.symm
        exact (h.links a b).post htr hpace hvalue
      · exact absurd rfl hne
    · refine h.links_setNode moved (by simp) a b (fun ha _ hb => hab ⟨ha, ?_⟩) (fun _ _ hb => ?_)
      · simpa [next] using hb.symm
      · simp [next] at hb
  | @acted _ i e n _ moved noEnter noPlace noPost confirmed =>
    exact ⟨h.nodes_setNode moved (fun c hc => absurd hc (noEnter c)),
      h.script_setNode moved noEnter, h.inStep_setNode moved,
      fun a b => h.links_setNode moved noPlace a b (fun _ he => noPost he b)
        (fun _ he => confirmed he b), h.heard_setNode moved noPlace⟩
  | @delivered i j value rest n queued moved =>
    obtain ⟨htr, hp, hin⟩ := Node.place_step moved
    have hlink := h.links i j
    rw [queued] at hlink
    obtain ⟨hlink', hle⟩ := hlink.deliver
    have hnode (a : Nat) : ((w.setNode j n).node a).trace = (w.node a).trace ∧
        ((w.setNode j n).node a).barrier.poisoned = (w.node a).barrier.poisoned := by
      rw [World.setNode_node]
      split_ifs with ha
      · subst ha
        exact ⟨htr, hp⟩
      · exact ⟨rfl, rfl⟩
    have hflags (a b : Nat) : (((w.setNode j n).node b).flags a).in_epoch =
        if a = i ∧ b = j then value else ((w.node b).flags a).in_epoch := by
      rw [World.setNode_node]
      by_cases hb : b = j
      · subst hb
        rw [if_pos rfl, hin a]
        simp
      · simp [hb]
    refine ⟨h.nodes_setNode moved (by simp), h.script_setNode moved (by simp),
      h.inStep_setNode moved, fun a b => ?_, fun a b => ?_⟩
    · rw [World.setWire_wire, World.setWire_node, hflags]
      have hcongr {incoming : Nat} {queue : List Nat} (hl : Link (w.node a) b incoming queue) :
          Link ((w.setNode j n).node a) b incoming queue :=
        hl.congr (by simp only [Node.posted, (hnode a).1])
          (by simp only [Node.confirmed, (hnode a).1]) (fun hpa => by rw [(hnode a).2, hpa])
      split_ifs with hab
      · obtain ⟨rfl, rfl⟩ := hab
        exact hcongr hlink'
      · exact hcongr (h.links a b)
    · have hab := h.heard a b
      rw [World.setWire_node, (hnode b).1, hflags]
      split_ifs with hc
      · obtain ⟨rfl, rfl⟩ := hc
        omega
      · exact hab
  | @lost i j value rest queued poisoned =>
    refine ⟨h.nodes, h.script, h.inStep, fun a b => ?_, h.heard⟩
    rw [World.setWire_wire]
    split_ifs with hab
    · obtain ⟨rfl, rfl⟩ := hab
      have hlink := h.links a b
      rw [queued] at hlink
      exact hlink.drop poisoned
    · exact h.links a b

theorem run (hagreed : Agreed world_size calls) {es : List WorldEvent}
    (hrun : (World.system alg world_size calls).run es = some w) :
    WorldInv alg world_size calls w :=
  (World.system alg world_size calls).invariant (start alg world_size calls)
    (fun _ _ _ hi hs => hi.step hagreed hs) hrun

end WorldInv

end IbverbsRs.Network
