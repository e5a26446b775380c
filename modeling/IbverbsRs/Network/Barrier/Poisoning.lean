import IbverbsRs.Network.Barrier.Node

namespace IbverbsRs.Network

open Framework

def NodeEvent.call? : NodeEvent → Option Call
  | .enter call => some call
  | _ => none

/-- Every checked call of the event passes the front of `barrier`. -/
def NodeEvent.Accepted (alg : BarrierAlgorithm) (rank : Nat) (e : NodeEvent) : Prop :=
  ∀ call, e = .enter call → call.checked = true → Accepts alg rank call.peers

namespace Node

variable {alg : BarrierAlgorithm} {rank world_size : Nat}

/-- A poisoned barrier refuses a call that gets past the front with `Poisoned`. -/
theorem start_poisoned {b : Barrier} {call : Call} (hp : b.poisoned = true)
    (hacc : call.checked = true → Accepts b.algorithm b.rank call.peers) :
    b.start call = .refused .Poisoned := by
  rw [b.start_of_accepts hacc, unchecked, hp, if_pos rfl]

theorem start_refused {b : Barrier} {call : Call} {e : BarrierError}
    (hacc : call.checked = true → Accepts b.algorithm b.rank call.peers)
    (h : b.start call = .refused e) : b.poisoned = true := by
  rw [b.start_of_accepts hacc, unchecked] at h
  split_ifs at h with hp
  · exact hp
  · split at h <;> cases h

/-- An error has poisoned the barrier, and a poisoned barrier is idle. -/
structure PoisonInv (alg : BarrierAlgorithm) (rank : Nat) (n : Node) : Prop where
  algorithm : n.barrier.algorithm = alg
  rank : n.barrier.rank = rank
  poisons : ∀ x ∈ n.past, ∀ e, x.result = .error e → n.barrier.poisoned = true
  idle : n.barrier.poisoned = true → n.current = none

theorem poisonInv_step {n n' : Node} {e : NodeEvent} (hacc : e.Accepted alg rank)
    (hi : PoisonInv alg rank n) (h : n.step e = some n') : PoisonInv alg rank n' := by
  have hfresh : n.current ≠ none → n.barrier.poisoned = false := fun hc => by
    by_contra hp
    exact hc (hi.idle (by simpa using hp))
  cases step_spec h with
  | refused idle start =>
    have hp := start_refused (fun hc => by
      rw [hi.algorithm, hi.rank]
      exact hacc _ rfl hc) start
    exact ⟨hi.algorithm, hi.rank, fun _ _ _ _ => hp, fun _ => rfl⟩
  | failed idle start => exact ⟨hi.algorithm, hi.rank, fun _ _ _ _ => rfl, fun _ => rfl⟩
  | started idle start =>
    refine ⟨hi.algorithm, hi.rank, hi.poisons, fun hp => ?_⟩
    rw [start_poisoned hp (fun hc => by
      rw [hi.algorithm, hi.rank]
      exact hacc _ rfl hc)] at start
    cases start
  | advanced busy performed =>
    refine ⟨hi.algorithm, hi.rank, hi.poisons, fun hp => ?_⟩
    rw [hi.idle hp] at busy
    cases busy
  | returned busy | unwound busy _ =>
    refine ⟨hi.algorithm, hi.rank, fun x hx e he => ?_, fun _ => rfl⟩
    rcases List.mem_append.mp hx with hx | hx
    · exact hi.poisons x hx e he
    · rw [List.mem_singleton.mp hx] at he
      cases he
  | writeFailed busy | timedOut busy =>
    exact ⟨hi.algorithm, hi.rank, fun _ _ _ _ => rfl, fun _ => rfl⟩
  | placed performed => exact ⟨hi.algorithm, hi.rank, hi.poisons, hi.idle⟩

theorem poisonInv_run {es : List NodeEvent} {s : Node} (hacc : ∀ e ∈ es, e.Accepted alg rank)
    (h : (system alg rank world_size).run es = some s) : PoisonInv alg rank s := by
  refine (system alg rank world_size).invariant_on ?_ (fun s e t => ?_) hacc h
  · exact ⟨rfl, rfl, by simp [system, new], by simp [system, new, Barrier.new]⟩
  · exact poisonInv_step

/-- The record of a call that found the barrier poisoned. -/
def poisonedCall (call : Call) : Completed := ⟨call, [], .error .Poisoned⟩

/-- Only a placement of a peer, and no step of the owner, touches a poisoned barrier. -/
theorem step_of_poisoned {n n' : Node} {e : NodeEvent} (hacc : e.Accepted alg rank)
    (hi : PoisonInv alg rank n) (hp : n.barrier.poisoned = true) (h : n.step e = some n') :
    n'.past = n.past ++ (e.call?.map poisonedCall).toList ∧
      (∀ q, (n'.barrier.barrier_mr.flags q).out_epoch = (n.barrier.barrier_mr.flags q).out_epoch ∧
        (n'.barrier.barrier_mr.flags q).expected_in_epoch =
          (n.barrier.barrier_mr.flags q).expected_in_epoch) ∧
      n'.barrier.poisoned = true ∧
      ((∀ source value, e ≠ .place source value) → n'.barrier = n.barrier) := by
  have hidle := hi.idle hp
  have hstart {call : Call} (he : e = .enter call) :
      n.barrier.start call = .refused .Poisoned := start_poisoned hp (fun hc => by
    rw [hi.algorithm, hi.rank]
    exact hacc _ he hc)
  cases step_spec h with
  | refused idle start =>
    rw [hstart rfl] at start
    cases start
    exact ⟨rfl, fun _ => ⟨rfl, rfl⟩, hp, fun _ => rfl⟩
  | failed idle start | started idle start =>
    rw [hstart rfl] at start
    cases start
  | advanced busy _ | returned busy | writeFailed busy | timedOut busy | unwound busy _ =>
    rw [hidle] at busy
    cases busy
  | placed performed =>
    refine ⟨by simp [NodeEvent.call?], fun q => ?_, hp, fun hne => absurd rfl (hne _ _)⟩
    rw [BarrierMr.update_flags performed q]
    split_ifs <;> exact ⟨rfl, rfl⟩

/-- The poisoning contract, for calls that get past the front of `barrier`: after an error
every later call returns `Poisoned` having executed nothing, and the counters kept by the
node stay as they are; the incoming ones change only when a peer's write is placed. -/
theorem poisoned_after_error {before later : List NodeEvent} {s t : Node}
    (hacc : ∀ e ∈ before ++ later, e.Accepted alg rank)
    (hs : (system alg rank world_size).run before = some s)
    {x : Completed} (hx : x ∈ s.past) {e : BarrierError} (he : x.result = .error e)
    (ht : (system alg rank world_size).runFrom s later = some t) :
    t.current = none ∧
      t.past = s.past ++ (later.filterMap NodeEvent.call?).map
        (fun call => ⟨call, [], .error .Poisoned⟩) ∧
      (∀ q, (t.barrier.barrier_mr.flags q).out_epoch = (s.barrier.barrier_mr.flags q).out_epoch ∧
        (t.barrier.barrier_mr.flags q).expected_in_epoch =
          (s.barrier.barrier_mr.flags q).expected_in_epoch) ∧
      ((∀ source value, .place source value ∉ later) → t.barrier = s.barrier) := by
  have hinv := poisonInv_run (fun e he => hacc e (by simp [he])) hs
  have hp := hinv.poisons x hx e he
  clear hs hx he
  have hlater : ∀ e ∈ later, e.Accepted alg rank := fun e he => hacc e (by simp [he])
  clear hacc
  induction later generalizing s with
  | nil =>
    obtain rfl := Option.some.inj ht
    exact ⟨hinv.idle hp, by simp, fun _ => ⟨rfl, rfl⟩, fun _ => rfl⟩
  | cons ev later ih =>
    obtain ⟨u, hu, hrest⟩ := Option.bind_eq_some_iff.mp ht
    have hev := hlater ev (by simp)
    obtain ⟨hpast, hflags, hpu, hsame⟩ := step_of_poisoned hev hinv hp hu
    obtain ⟨hidle, hpast', hflags', hsame'⟩ := ih hrest (poisonInv_step hev hinv hu) hpu
      (fun f hf => hlater f (by simp [hf]))
    refine ⟨hidle, ?_, fun q => ?_, fun hplace => ?_⟩
    · rw [hpast', hpast]
      cases hc : ev.call? <;> simp [hc, poisonedCall]
    · exact ⟨(hflags' q).1.trans (hflags q).1, (hflags' q).2.trans (hflags q).2⟩
    · rw [hsame' (fun source value hm => hplace source value (by simp [hm])),
        hsame (fun source value he => hplace source value (by simp [he]))]

/-- A write that fails, then a call of each kind. -/
theorem poisoned_after_failed_write :
    ∃ s t : Node, (system .BinaryTree 1 2).run
        [.enter ⟨true, [0, 1]⟩, .advance, .refuse (.IbvError (.Driver 5))] = some s ∧
      (system .BinaryTree 1 2).runFrom s [.enter ⟨true, [0, 1]⟩, .enter ⟨false, [1]⟩] = some t ∧
      t.past = s.past ++ [⟨⟨true, [0, 1]⟩, [], .error .Poisoned⟩,
        ⟨⟨false, [1]⟩, [], .error .Poisoned⟩] := by
  refine ⟨_, _, rfl, rfl, ?_⟩
  have hacc : ∀ e ∈ [NodeEvent.enter ⟨true, [0, 1]⟩, .advance, .refuse (.IbvError (.Driver 5))] ++
      [NodeEvent.enter ⟨true, [0, 1]⟩, .enter ⟨false, [1]⟩], e.Accepted .BinaryTree 1 := ?_
  · exact (@poisoned_after_error .BinaryTree 1 2 _ _ _ _ hacc rfl _ (List.mem_singleton.mpr rfl)
      _ rfl rfl).2.1
  intro e he call hcall hchecked
  subst hcall
  have hpeers : call.peers = [0, 1] ∨ call.peers = [1] := by
    simp only [List.cons_append, List.nil_append, List.mem_cons, NodeEvent.enter.injEq,
      reduceCtorEq, List.not_mem_nil, or_false, false_or] at he
    rcases he with rfl | rfl | rfl <;> simp
  rcases hpeers with h | h <;> exact ⟨by simp [h], by simp⟩

/-- A list refused by the validation returns an error and leaves the barrier usable: the
next call raises an epoch counter and writes to the peer. -/
theorem usable_after_refused_list :
    ∃ s t : Node, (system .BinaryTree 1 2).run [.enter ⟨true, [1, 0]⟩] = some s ∧
      s.past = [⟨⟨true, [1, 0]⟩, [], .error .UnorderedPeers⟩] ∧
      (system .BinaryTree 1 2).runFrom s [.enter ⟨true, [0, 1]⟩, .advance, .advance] = some t ∧
      t.current = some ⟨⟨true, [0, 1]⟩, [.increaseOut 0, .postWrite 0],
        [.awaitWrite 0, .increaseExpected 0, .spinPoll 0]⟩ ∧
      (s.barrier.barrier_mr.flags 0).out_epoch = 0 ∧
      (t.barrier.barrier_mr.flags 0).out_epoch = 1 :=
  ⟨_, _, rfl, by decide, rfl, by decide, by decide, by decide⟩

end Node

end IbverbsRs.Network
