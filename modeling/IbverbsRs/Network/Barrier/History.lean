import IbverbsRs.Network.Barrier.Node

namespace IbverbsRs.Network

open Framework SignalOp

/-- A list that a member of rank `rank` may hand to every barrier of the world. -/
structure Proper (world_size rank : Nat) (peers : List Nat) : Prop where
  ascending : peers.Pairwise (· < ·)
  self : rank ∈ peers
  inRange : ∀ r ∈ peers, r < world_size

/-- What the calls of a node look like once they are over: successes that ran their whole
program, then one failure that got some way, then calls refused as poisoned. -/
inductive History (alg : BarrierAlgorithm) (rank : Nat) : Bool → List Completed → Prop
  | nil : History alg rank false []
  | ok {past : List Completed} {x : Completed} : History alg rank false past →
      x.result = .ok → x.executed = program alg rank x.call.peers →
      History alg rank false (past ++ [x])
  | failed {past : List Completed} {x : Completed} {e : BarrierError} :
      History alg rank false past → x.result = .error e → e ≠ .Poisoned →
      x.executed <+: program alg rank x.call.peers → History alg rank true (past ++ [x])
  | refused {past : List Completed} {x : Completed} : History alg rank true past →
      x.result = .error .Poisoned → x.executed = [] → History alg rank true (past ++ [x])

/-- A call turned away by the poison flag does not count as entered. -/
def enteredPast (past : List Completed) : List Call :=
  (past.filter (fun x => decide (x.result ≠ .error .Poisoned))).map (·.call)

namespace History

variable {alg : BarrierAlgorithm} {rank : Nat} {poisoned : Bool} {past : List Completed}

theorem all_ok (h : History alg rank false past) : ∀ x ∈ past,
    x.result = .ok ∧ x.executed = program alg rank x.call.peers := by
  generalize hb : false = b at h
  induction h with
  | nil => simp
  | ok _ hres hex ih =>
    intro y hy
    rcases List.mem_append.mp hy with hy | hy
    · exact ih hb y hy
    · obtain rfl := List.mem_singleton.mp hy
      exact ⟨hres, hex⟩
  | failed | refused => cases hb

theorem entered_eq (h : History alg rank false past) : enteredPast past = past.map (·.call) := by
  have hkeep : past.filter (fun x => decide (x.result ≠ .error .Poisoned)) = past :=
    List.filter_eq_self.mpr (fun x hx => by simp [(h.all_ok x hx).1])
  rw [enteredPast, hkeep]

theorem executed_eq (h : History alg rank false past) : past.flatMap (·.executed) =
    (past.map (·.call)).flatMap (fun call => program alg rank call.peers) := by
  rw [List.flatMap_map]
  exact List.flatMap_congr (fun x hx => (h.all_ok x hx).2)

private theorem entered_snoc (past : List Completed) (x : Completed) :
    enteredPast (past ++ [x]) =
      enteredPast past ++ if x.result = .error .Poisoned then [] else [x.call] := by
  split_ifs with hx <;> simp [enteredPast, hx]

theorem entered_isPrefix (h : History alg rank poisoned past) :
    enteredPast past <+: past.map (·.call) := by
  induction h with
  | nil => simp [enteredPast]
  | ok h hres _ _ =>
    rw [entered_snoc, h.entered_eq, hres]
    simp
  | failed h hres hne _ _ =>
    rw [entered_snoc, h.entered_eq, hres, if_neg (by simpa using hne)]
    simp
  | refused _ hres _ ih =>
    rw [entered_snoc, hres, if_pos rfl, List.append_nil, List.map_append]
    exact ih.trans (List.prefix_append _ _)

theorem executed_isPrefix (h : History alg rank poisoned past) : past.flatMap (·.executed) <+:
    (enteredPast past).flatMap (fun call => program alg rank call.peers) := by
  induction h with
  | nil => simp
  | ok h hres hex _ =>
    rw [entered_snoc, h.entered_eq, hres, if_neg (by simp), List.flatMap_append, h.executed_eq,
      List.flatMap_append]
    simp [hex]
  | failed h hres hne hpre _ =>
    rw [entered_snoc, h.entered_eq, hres, if_neg (by simpa using hne), List.flatMap_append,
      h.executed_eq, List.flatMap_append]
    simpa using hpre
  | refused _ hres hex ih =>
    rw [entered_snoc, hres, if_pos rfl]
    simpa [hex] using ih

theorem executed_of_mem (h : History alg rank poisoned past) : ∀ x ∈ past,
    x.executed <+: program alg rank x.call.peers ∧
      (x.result = .ok → x.executed = program alg rank x.call.peers) := by
  induction h with
  | nil => simp
  | ok _ _ hex ih =>
    intro y hy
    rcases List.mem_append.mp hy with hy | hy
    · exact ih y hy
    · obtain rfl := List.mem_singleton.mp hy
      exact ⟨hex ▸ List.prefix_rfl, fun _ => hex⟩
  | failed _ hres _ hpre ih =>
    intro y hy
    rcases List.mem_append.mp hy with hy | hy
    · exact ih y hy
    · obtain rfl := List.mem_singleton.mp hy
      exact ⟨hpre, by simp [hres]⟩
  | refused _ hres hex ih =>
    intro y hy
    rcases List.mem_append.mp hy with hy | hy
    · exact ih y hy
    · obtain rfl := List.mem_singleton.mp hy
      exact ⟨by simp [hex], by simp [hres]⟩

/-- Up to a call that succeeded, every call has run its whole program. -/
theorem before_ok (h : History alg rank poisoned past) {A B : List Completed} {x : Completed}
    (hp : past = A ++ x :: B) (hx : x.result = .ok) : History alg rank false (A ++ [x]) := by
  induction h generalizing B with
  | nil => simp at hp
  | @ok past y h hres hex ih =>
    rcases List.eq_nil_or_concat B with rfl | ⟨B', z, rfl⟩
    · rw [← hp]
      exact .ok h hres hex
    · rw [List.concat_eq_append, ← List.cons_append, ← List.append_assoc] at hp
      exact ih (List.append_inj_left' hp rfl)
  | @failed past y e h hres _ _ ih | @refused past y h hres _ ih =>
    rcases List.eq_nil_or_concat B with rfl | ⟨B', z, rfl⟩
    · obtain ⟨_, hy⟩ := List.append_inj' hp rfl
      obtain rfl := List.singleton_inj.mp hy
      rw [hres] at hx
      cases hx
    · rw [List.concat_eq_append, ← List.cons_append, ← List.append_assoc] at hp
      exact ih (List.append_inj_left' hp rfl)

end History

namespace Node

def calls (n : Node) : List Call := n.past.map (·.call) ++ n.current.toList.map (·.call)

/-- The calls that got past the poison check, the one in progress included. -/
def entered (n : Node) : List Call := enteredPast n.past ++ n.current.toList.map (·.call)

/-- Every operation the node has completed, in order. -/
def trace (n : Node) : List BarrierOp :=
  n.past.flatMap (·.executed) ++ n.current.toList.flatMap (·.executed)

def next (n : Node) : Option BarrierOp := n.current.bind (fun r => r.rest.head?)

def flags (n : Node) (peer : Nat) : BarrierPeerFlags := n.barrier.barrier_mr.flags peer

/-- A step extends the trace by the operation it completes, or leaves it alone. -/
theorem trace_step {n n' : Node} {e : NodeEvent} (h : n.step e = some n') :
    (e = .advance ∧ ∃ op, n.next = some op ∧ n'.trace = n.trace ++ [op]) ∨
      (e ≠ .advance ∧ n'.trace = n.trace) := by
  cases step_spec h with
  | @advanced call executed rest op mr busy performed =>
    refine Or.inl ⟨rfl, op, by simp [next, busy], ?_⟩
    simp [trace, busy]
  | refused idle _ | failed idle _ | started idle _ =>
    exact Or.inr ⟨by simp, by simp [trace, record, fail, idle]⟩
  | returned busy | writeFailed busy | timedOut busy | unwound busy _ =>
    exact Or.inr ⟨by simp, by simp [trace, record, fail, busy]⟩
  | placed _ => exact Or.inr ⟨by simp, rfl⟩

theorem calls_step {n n' : Node} {e : NodeEvent} (h : n.step e = some n') :
    (∃ call, e = .enter call ∧ n'.calls = n.calls ++ [call]) ∨
      ((∀ call, e ≠ .enter call) ∧ n'.calls = n.calls) := by
  cases step_spec h with
  | refused idle _ | failed idle _ | started idle _ =>
    exact Or.inl ⟨_, rfl, by simp [calls, record, fail, idle]⟩
  | advanced busy _ | returned busy | writeFailed busy | timedOut busy | unwound busy _ =>
    exact Or.inr ⟨by simp, by simp [calls, record, fail, busy]⟩
  | placed _ => exact Or.inr ⟨by simp, rfl⟩

theorem poisoned_step {n n' : Node} {e : NodeEvent} (h : n.step e = some n')
    (hp : n.barrier.poisoned = true) : n'.barrier.poisoned = true := by
  cases step_spec h <;> first | exact hp | rfl

/-- How each operation moves the counters of a peer. -/
theorem perform_flags {mr mr' : BarrierMr} {op : BarrierOp} (h : mr.perform op = some mr')
    (q : Nat) :
    (mr'.flags q).out_epoch = (mr.flags q).out_epoch + [op].count (.increaseOut q) ∧
    (mr'.flags q).expected_in_epoch =
      (mr.flags q).expected_in_epoch + [op].count (.increaseExpected q) ∧
    (mr'.flags q).in_epoch = (mr.flags q).in_epoch := by
  cases op with
  | increaseOut p | increaseExpected p =>
    rw [BarrierMr.update_flags h q]
    split_ifs with hq
    · simp [hq]
    · simp [Ne.symm hq]
  | postWrite p =>
    obtain ⟨_, _, rfl⟩ := Option.map_eq_some_iff.mp h
    simp
  | awaitWrite p =>
    obtain rfl := Option.some.inj h
    simp
  | spinPoll p =>
    simp only [BarrierMr.perform] at h
    split_ifs at h
    obtain rfl := Option.some.inj h
    simp

/-- Within range only a spin whose counter has not arrived cannot go on. -/
theorem perform_isSome {mr : BarrierMr} {op : BarrierOp} (hp : op.peer < mr.memory.length)
    (hspin : ∀ p, op = .spinPoll p → (mr.flags p).expected_in_epoch ≤ (mr.flags p).in_epoch) :
    ∃ mr', mr.perform op = some mr' := by
  cases op with
  | increaseOut p | increaseExpected p => exact BarrierMr.update_isSome _ hp
  | postWrite p =>
    obtain ⟨value, hv⟩ : ∃ value, mr.out_epoch p = some value := BarrierMr.out_epoch_isSome hp
    exact ⟨mr, by rw [BarrierMr.perform, hv, Option.map_some]⟩
  | awaitWrite p => exact ⟨mr, rfl⟩
  | spinPoll p =>
    exact ⟨mr, if_pos ((BarrierMr.is_peer_epoch_expected_iff hp).mpr (hspin p rfl))⟩

theorem perform_length {mr mr' : BarrierMr} {op : BarrierOp} (h : mr.perform op = some mr') :
    mr'.memory.length = mr.memory.length := by
  cases op with
  | increaseOut p | increaseExpected p => exact BarrierMr.update_length h
  | postWrite p =>
    obtain ⟨_, _, rfl⟩ := Option.map_eq_some_iff.mp h
    rfl
  | awaitWrite p =>
    obtain rfl := Option.some.inj h
    rfl
  | spinPoll p =>
    simp only [BarrierMr.perform] at h
    split_ifs at h
    obtain rfl := Option.some.inj h
    rfl

/-- Only the placement of a peer's write changes an incoming counter. -/
theorem in_epoch_step {n n' : Node} {e : NodeEvent} (h : n.step e = some n')
    (hplace : ∀ source value, e ≠ .place source value) (q : Nat) :
    (n'.flags q).in_epoch = (n.flags q).in_epoch := by
  cases step_spec h with
  | advanced _ performed => exact (perform_flags performed q).2.2
  | placed _ => exact absurd rfl (hplace _ _)
  | _ => rfl

theorem place_step {n n' : Node} {source value : Nat} (h : n.step (.place source value) = some n') :
    n'.trace = n.trace ∧ n'.barrier.poisoned = n.barrier.poisoned ∧
      ∀ q, (n'.flags q).in_epoch = if q = source then value else (n.flags q).in_epoch := by
  cases step_spec h with
  | placed performed =>
    refine ⟨rfl, rfl, fun q => ?_⟩
    simp only [flags]
    rw [BarrierMr.update_flags performed q]
    split_ifs <;> rfl

end Node

/-- What holds at a node whose calls carry proper lists, whatever its environment does. -/
structure NodeInv (alg : BarrierAlgorithm) (world_size i : Nat) (n : Node) : Prop where
  algorithm : n.barrier.algorithm = alg
  rank : n.barrier.rank = i
  size : n.barrier.barrier_mr.memory.length = world_size
  proper : ∀ call ∈ n.calls, Proper world_size i call.peers
  history : History alg i n.barrier.poisoned n.past
  running : ∀ r, n.current = some r → n.barrier.poisoned = false ∧
    r.executed ++ r.rest = program alg i r.call.peers
  counters : ∀ q, (n.flags q).out_epoch = n.trace.count (.increaseOut q) ∧
    (n.flags q).expected_in_epoch = n.trace.count (.increaseExpected q)

namespace NodeInv

variable {alg : BarrierAlgorithm} {world_size i : Nat} {n n' : Node}

/-- A proper call either meets the poison flag or starts its program. -/
theorem start_eq (h : NodeInv alg world_size i n) {call : Call}
    (hc : Proper world_size i call.peers) : n.barrier.start call =
      if n.barrier.poisoned then .refused .Poisoned else .running (program alg i call.peers) := by
  rw [n.barrier.start_of_accepts (fun _ => by
    rw [h.rank]
    exact ⟨hc.ascending, fun _ => hc.self⟩), unchecked, h.algorithm, h.rank,
    (run_barrier_of_mem hc.ascending hc.self).1]

theorem new (alg : BarrierAlgorithm) (world_size i : Nat) :
    NodeInv alg world_size i (Node.new alg i world_size) where
  algorithm := rfl
  rank := rfl
  size := List.length_replicate
  proper := by simp [Node.calls, Node.new]
  history := .nil
  running := by simp [Node.new]
  counters q := by simp [Node.flags, Node.new, Barrier.new, BarrierMr.flags_new, Node.trace,
    BarrierPeerFlags.new]

private theorem proper_step (h : NodeInv alg world_size i n) {e : NodeEvent}
    (hs : n.step e = some n') (he : ∀ call, e = .enter call → Proper world_size i call.peers) :
    ∀ call ∈ n'.calls, Proper world_size i call.peers := by
  intro call hcall
  rcases Node.calls_step hs with ⟨c, hc, hcalls⟩ | ⟨_, hcalls⟩
  · rw [hcalls] at hcall
    rcases List.mem_append.mp hcall with hcall | hcall
    · exact h.proper call hcall
    · rw [List.mem_singleton.mp hcall]
      exact he c hc
  · rw [hcalls] at hcall
    exact h.proper call hcall

private theorem counters_step (h : NodeInv alg world_size i n) {e : NodeEvent}
    (hs : n.step e = some n') (q : Nat) :
    (n'.flags q).out_epoch = n'.trace.count (.increaseOut q) ∧
      (n'.flags q).expected_in_epoch = n'.trace.count (.increaseExpected q) := by
  have hq := h.counters q
  rcases Node.trace_step hs with ⟨rfl, op, hnext, htr⟩ | ⟨hne, htr⟩
  · cases Node.step_spec hs with
    | @advanced call executed rest op' mr busy performed =>
      obtain rfl : op' = op := by simpa [Node.next, busy] using hnext
      have hf := Node.perform_flags performed q
      simp only [htr, List.count_append]
      simp only [Node.flags] at hq ⊢
      omega
  · rw [htr]
    cases Node.step_spec hs with
    | advanced _ _ => exact absurd rfl hne
    | placed performed =>
      simp only [Node.flags] at hq ⊢
      rw [BarrierMr.update_flags performed q]
      split_ifs <;> exact hq
    | _ => exact hq

/-- No operation of a proper call indexes out of range. -/
theorem peer_lt (h : NodeInv alg world_size i n) {call : Call} {executed rest : List BarrierOp}
    {op : BarrierOp} (hprog : executed ++ op :: rest = program alg i call.peers)
    (hc : call ∈ n.calls) : op.peer < n.barrier.barrier_mr.memory.length := by
  have hproper := h.proper _ hc
  have hop : op ∈ program alg i call.peers := hprog ▸ (by simp)
  rw [h.size]
  exact hproper.inRange _ (program_peer hproper.ascending hproper.self hop).1

/-- Every step of a node keeps the invariant, as long as it enters proper calls. -/
theorem step (h : NodeInv alg world_size i n) {e : NodeEvent} (hs : n.step e = some n')
    (he : ∀ call, e = .enter call → Proper world_size i call.peers) :
    NodeInv alg world_size i n' := by
  have hproper := h.proper_step hs he
  have hcounters := h.counters_step hs
  cases Node.step_spec hs with
  | refused idle start =>
    rw [h.start_eq (he _ rfl)] at start
    split_ifs at start with hp
    cases start
    refine ⟨h.algorithm, h.rank, h.size, hproper, ?_, by simp [Node.record], hcounters⟩
    have hh := h.history
    rw [hp] at hh
    simp only [Node.record, hp]
    exact .refused hh rfl rfl
  | failed idle start =>
    rw [h.start_eq (he _ rfl)] at start
    split_ifs at start
  | started idle start =>
    rw [h.start_eq (he _ rfl)] at start
    split_ifs at start with hp
    cases start
    refine ⟨h.algorithm, h.rank, h.size, hproper, h.history, ?_, hcounters⟩
    intro r hr
    obtain rfl := Option.some.inj hr
    exact ⟨by simpa using hp, rfl⟩
  | advanced busy performed =>
    obtain ⟨hp, hprog⟩ := h.running _ busy
    refine ⟨h.algorithm, h.rank, (Node.perform_length performed).trans h.size, hproper,
      h.history, ?_, hcounters⟩
    intro r hr
    obtain rfl := Option.some.inj hr
    exact ⟨hp, by simpa using hprog⟩
  | returned busy =>
    obtain ⟨hp, hprog⟩ := h.running _ busy
    refine ⟨h.algorithm, h.rank, h.size, hproper, ?_, by simp [Node.record], hcounters⟩
    have hh := h.history
    rw [hp] at hh
    simp only [Node.record, hp]
    exact .ok hh rfl (by simpa using hprog)
  | writeFailed busy | timedOut busy =>
    obtain ⟨hp, hprog⟩ := h.running _ busy
    refine ⟨h.algorithm, h.rank, h.size, hproper, ?_, by simp [Node.fail, Node.record],
      hcounters⟩
    have hh := h.history
    rw [hp] at hh
    simp only [Node.fail, Node.record]
    exact .failed hh rfl (by simp) (hprog ▸ List.prefix_append _ _)
  | unwound busy outside =>
    exact absurd (h.peer_lt (h.running _ busy).2 (by simp [Node.calls, busy])) outside
  | placed performed =>
    exact ⟨h.algorithm, h.rank, (BarrierMr.update_length performed).trans h.size, hproper,
      h.history, h.running, hcounters⟩

theorem entered_isPrefix (h : NodeInv alg world_size i n) : n.entered <+: n.calls := by
  cases hc : n.current with
  | none => simpa [Node.entered, Node.calls, hc] using h.history.entered_isPrefix
  | some r =>
    have hh := h.history
    rw [(h.running r hc).1] at hh
    simp [Node.entered, Node.calls, hc, hh.entered_eq]

/-- What a node has executed is a prefix of the programs of the calls it has entered. -/
theorem trace_isPrefix (h : NodeInv alg world_size i n) :
    n.trace <+: n.entered.flatMap (fun call => program alg i call.peers) := by
  cases hc : n.current with
  | none => simpa [Node.entered, Node.trace, hc] using h.history.executed_isPrefix
  | some r =>
    obtain ⟨hp, hprog⟩ := h.running r hc
    have hh := h.history
    rw [hp] at hh
    simp only [Node.entered, Node.trace, hc, hh.entered_eq, hh.executed_eq, Option.toList_some,
      List.flatMap_append, List.flatMap_cons, List.flatMap_nil, List.append_nil,
      List.map_cons, List.map_nil]
    refine (List.prefix_append_right_inj _).mpr ?_
    rw [← hprog]
    exact List.prefix_append _ _

/-- Between its calls a node that has not failed has nothing half done. -/
theorem settled_past (h : NodeInv alg world_size i n) (hp : n.barrier.poisoned = false) :
    Settled (n.past.flatMap (·.executed)) := by
  have hh := h.history
  rw [hp] at hh
  rw [hh.executed_eq]
  refine (Blocks.flatMap (fun call hc => ?_)).settled
  have hproper := h.proper call (List.mem_append_left _ hc)
  exact (run_barrier_of_mem hproper.ascending hproper.self).2

/-- The operation a node comes to is in step with all it has executed before, in this call
and in earlier ones. -/
theorem pace (h : NodeInv alg world_size i n) {op : BarrierOp} (hnext : n.next = some op) :
    Pace n.trace op ∧ n.barrier.poisoned = false := by
  obtain ⟨r, hr, hop⟩ := Option.bind_eq_some_iff.mp hnext
  obtain ⟨rest, hrest⟩ : ∃ rest, r.rest = op :: rest := by
    cases hl : r.rest with
    | nil => simp [hl] at hop
    | cons a l => exact ⟨l, by simpa [hl] using hop⟩
  obtain ⟨hp, hprog⟩ := h.running r hr
  have hproper := h.proper r.call (by simp [Node.calls, hr])
  have hcur : Blocks (program alg i r.call.peers) :=
    (run_barrier_of_mem hproper.ascending hproper.self).2
  rw [hrest] at hprog
  have hpace : Pace r.executed op := hcur.pace hprog.symm
  refine ⟨?_, hp⟩
  simpa [Node.trace, hr] using Pace.prepend (h.settled_past hp) hpace

end NodeInv

end IbverbsRs.Network
