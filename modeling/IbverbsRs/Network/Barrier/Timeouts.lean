import IbverbsRs.Framework.Lists
import IbverbsRs.Network.Barrier.Classification
import IbverbsRs.Network.Barrier.Deadline
import IbverbsRs.Network.Barrier.Safety

namespace IbverbsRs.Network

open Framework Math

theorem BarrierAlgorithm.run_barrier_error {alg : BarrierAlgorithm} {rank : Nat}
    {peers : List Nat} {e : BarrierError} (h : alg.run_barrier rank peers = .error e) :
    e = .SelfNotInGroup := by
  cases alg with
  | Centralized =>
    simp only [run_barrier, LinearBarrier.run_barrier] at h
    split at h
    · split_ifs at h
    · cases h
  | BinaryTree =>
    simp only [run_barrier, BinaryTreeBarrier.run_barrier] at h
    split_ifs at h
    split at h
    · exact (Except.error.inj h).symm
    · cases h
  | Dissemination =>
    simp only [run_barrier, DisseminationBarrier.run_barrier] at h
    split_ifs at h
    split at h
    · exact (Except.error.inj h).symm
    · cases h

theorem Barrier.unchecked_verdict (b : Barrier) (peers : List Nat) :
    (b.start ⟨false, peers⟩).verdict ≠ some .Timeout := by
  rw [b.start_unchecked]
  unfold unchecked
  split_ifs
  · simp [Start.verdict]
  · split
    · rename_i e he
      rw [BarrierAlgorithm.run_barrier_error he]
      simp [Start.verdict]
    · simp [Start.verdict]

/-- A call that does not get to its first operation has not timed out. -/
theorem Barrier.start_verdict (b : Barrier) (call : Call) :
    (b.start call).verdict ≠ some .Timeout := by
  obtain ⟨checked, peers⟩ := call
  cases checked with
  | false => exact b.unchecked_verdict peers
  | true =>
    have hrefused {e : BarrierError} (he : validate_peer_list peers = .error e) :
        b.start ⟨true, peers⟩ = .refused e := by
      obtain ⟨alg, rank, mr, poisoned⟩ := b
      cases alg <;> simp [start, barrier, LinearBarrier.barrier, BinaryTreeBarrier.barrier,
        DisseminationBarrier.barrier, validated, he]
    rcases validate_peer_list_cases peers with ⟨hv, _⟩ | ⟨hv, _⟩ | ⟨hv, hasc⟩
    · simp [hrefused hv, Start.verdict]
    · simp [hrefused hv, Start.verdict]
    · rcases b.start_checked peers with ⟨_, hsame⟩ | ⟨hnot, _⟩
      · rw [hsame]
        exact b.unchecked_verdict peers
      · obtain ⟨hcentral, hmem⟩ : b.algorithm = .Centralized ∧ b.rank ∉ peers := by
          simpa [Accepts, hasc] using hnot
        obtain ⟨k, hk⟩ := binary_search_absent hmem
        simp [start, barrier, hcentral, LinearBarrier.barrier, hv, hk, Start.verdict]

namespace Node

variable {n n' : Node}

/-- Only the end of a wait records that a call timed out. -/
theorem past_step {e : NodeEvent} (hs : n.step e = some n') : n'.past = n.past ∨
    ∃ x, n'.past = n.past ++ [x] ∧ (x.result = .error .Timeout → e = .expire) := by
  cases step_spec hs with
  | @refused call error idle start | @failed call error idle start =>
    refine Or.inr ⟨_, rfl, fun hresult => ?_⟩
    have hverdict := n.barrier.start_verdict call
    rw [start] at hverdict
    cases hresult
    exact absurd rfl hverdict
  | started | advanced | placed => exact Or.inl rfl
  | returned | writeFailed | unwound => exact Or.inr ⟨_, rfl, by simp⟩
  | timedOut => exact Or.inr ⟨_, rfl, fun _ => rfl⟩

/-- A call starts to run when it is entered, and is recorded when it stops. -/
theorem busy_step {e : NodeEvent} (hs : n.step e = some n') (hbusy : n'.current ≠ none) :
    n'.past = n.past ∧ ((∀ call, e ≠ .enter call) → n.current ≠ none) := by
  cases step_spec hs with
  | refused | failed => exact absurd rfl hbusy
  | started => exact ⟨rfl, fun henter => absurd rfl (henter _)⟩
  | advanced busy => exact ⟨rfl, fun _ => by simp [busy]⟩
  | returned | writeFailed | timedOut | unwound => exact absurd rfl hbusy
  | placed => exact ⟨rfl, fun _ => hbusy⟩

/-- How many steps a call can have before it when its deadline has passed: a wait takes at most one
round of the loop and a look at the clock. -/
def left (n : Node) : Nat :=
  match n.current with
  | none => 0
  | some r => 1 + r.rest.length * 65537

theorem left_step {e : NodeEvent} (hs : n.step e = some n') (henter : ∀ call, e ≠ .enter call)
    (hplace : ∀ source value, e ≠ .place source value) :
    (n'.current = none ∧ 1 ≤ n.left) ∨ (n'.left + 65537 = n.left ∧ n'.past = n.past) := by
  have hbusy {r : Running} (hr : n.current = some r) : 1 ≤ n.left := by
    simp only [left, hr]
    omega
  cases step_spec hs with
  | refused | failed | started => exact absurd rfl (henter _)
  | placed => exact absurd rfl (hplace _ _)
  | returned busy | writeFailed busy | timedOut busy | unwound busy _ =>
    exact Or.inl ⟨rfl, hbusy busy⟩
  | advanced busy _ =>
    refine Or.inr ⟨?_, rfl⟩
    simp only [left, busy, List.length_cons]
    omega

theorem left_of_current {n' : Node} (h : n'.current = n.current) : n'.left = n.left := by
  unfold left
  rw [h]

theorem SpinsOn.le_left {p : Nat} (h : n.SpinsOn p) : 65538 ≤ n.left := by
  obtain ⟨call, executed, rest, hcurrent⟩ := h.current
  simp only [left, hcurrent, List.length_cons]
  omega

end Node

/-- The steps of the current wait that are behind a node. -/
def Polling.spent : Polling → Nat
  | .outside => 0
  | .looping iter => iter.toNat
  | .checking => 65536

/-- The code of node `i` gets on. -/
def DeadlineEvent.isOwn (i : Nat) : DeadlineEvent → Bool
  | .act ev => ev.own.map Prod.fst = some i
  | .poll j | .check j => j = i
  | .tick _ _ => false

namespace DeadlineWorld

variable {w w' : DeadlineWorld} {timeout : Nat → Nat → Nat}

/-- The time of the call in progress is up. -/
def Late (timeout : Nat → Nat → Nat) (i : Nat) (w : DeadlineWorld) : Prop :=
  (w.world.node i).current ≠ none → w.elapsed i > w.limit timeout i

def work (i : Nat) (w : DeadlineWorld) : Nat := (w.world.node i).left - (w.polling i).spent

theorem Late.congr {i : Nat} (h : Late timeout i w)
    (hcurrent : (w'.world.node i).current = (w.world.node i).current)
    (hpast : (w'.world.node i).past = (w.world.node i).past)
    (helapsed : w.elapsed i ≤ w'.elapsed i) : Late timeout i w' := by
  unfold Late limit at h ⊢
  rw [hcurrent, hpast]
  intro hbusy
  exact Nat.lt_of_lt_of_le (h hbusy) helapsed

theorem LoopInv.spent_le (h : LoopInv w) (i : Nat) : (w.polling i).spent ≤ 65536 := by
  cases hpolling : w.polling i with
  | outside => exact Nat.zero_le _
  | looping iter => exact Nat.le_of_lt (UInt32.lt_iff_toNat_lt.mp (h.iters i iter hpolling))
  | checking => exact Nat.le_refl _

/-- A step with which the node leaves the loop, or that it takes outside of it. -/
theorem Late.own_step {i : Nat} (h : Late timeout i w) (hloop : LoopInv w) {e : NodeEvent}
    {n : Node} (hs : (w.world.node i).step e = some n) (henter : ∀ call, e ≠ .enter call)
    (hplace : ∀ source value, e ≠ .place source value) (hnode : w'.world.node i = n)
    (hpolling : w'.polling i = .outside) (helapsed : w'.elapsed i = w.elapsed i) :
    Late timeout i w' ∧ work i w' + 1 ≤ work i w := by
  subst hnode
  have hspent := hloop.spent_le i
  have hspins : (w.polling i).spent = 0 ∨ 65538 ≤ (w.world.node i).left := by
    by_cases hin : w.polling i = .outside
    · exact Or.inl (by rw [hin]; rfl)
    · obtain ⟨p, hp⟩ := hloop.spins i hin
      exact Or.inr hp.le_left
  have hzero : (w'.polling i).spent = 0 := by
    rw [hpolling]
    rfl
  unfold work
  rcases Node.left_step hs henter hplace with ⟨hidle, hpos⟩ | ⟨hleft, hpast⟩
  · have hnone : (w'.world.node i).left = 0 := by
      unfold Node.left
      rw [hidle]
    refine ⟨fun hbusy => absurd hidle hbusy, ?_⟩
    omega
  · refine ⟨?_, ?_⟩
    · intro _
      have hbusy : (w.world.node i).current ≠ none := by
        intro hidle
        have hnone : (w.world.node i).left = 0 := by
          unfold Node.left
          rw [hidle]
        omega
      have hlimit : w'.limit timeout i = w.limit timeout i := by
        unfold limit
        rw [hpast]
      rw [hlimit, helapsed]
      exact h hbusy
    · omega

/-- A step after which the call stands where it stood. -/
theorem Late.kept {i : Nat} (h : Late timeout i w)
    (hcurrent : (w'.world.node i).current = (w.world.node i).current)
    (hpast : (w'.world.node i).past = (w.world.node i).past)
    (hpolling : w'.polling i = w.polling i) (helapsed : w.elapsed i ≤ w'.elapsed i) :
    Late timeout i w' ∧ work i w' + 0 ≤ work i w := by
  refine ⟨h.congr hcurrent hpast helapsed, ?_⟩
  unfold work
  rw [Node.left_of_current hcurrent, hpolling]
  exact Nat.le_refl _

theorem LoopInv.spent_missed (h : LoopInv w) {i : Nat} (hloops : w.polling i ≠ .checking) :
    ((w.polling i).missed).spent = (w.polling i).spent + 1 ∧ (w.polling i).spent < 65536 := by
  have hiter : (w.polling i).spent = (w.polling i).iter.toNat := by
    cases hpolling : w.polling i with
    | outside | looping _ => rfl
    | checking => exact absurd hpolling hloops
  rw [hiter]
  rcases missed_cases (h.iters i) with ⟨iter, hmissed, hlt, hnext⟩ | ⟨hmissed, hfull⟩
  · rw [hmissed]
    have hlt' := UInt32.lt_iff_toNat_lt.mp hlt
    have hbound : TIMEOUT_CHECK_ITERS.toNat = 65536 := rfl
    exact ⟨hnext, by omega⟩
  · rw [hmissed]
    exact ⟨hfull.symm, by omega⟩

theorem Late.acted {i : Nat} (h : Late timeout i w) (hloop : LoopInv w) {ev : WorldEvent}
    {world : World} (henter : ev ≠ .enter i) (houtside : w.outsideLoop ev = true)
    (hs : w.world.step ev = some world) :
    Late timeout i ((w.clockOf ev).setWorld world) ∧
      work i ((w.clockOf ev).setWorld world) +
        (if (DeadlineEvent.act ev).isOwn i then 1 else 0) ≤ work i w := by
  have hclock : (w.clockOf ev).elapsed i = w.elapsed i := by
    cases ev with
    | enter j => exact Function.update_of_ne (fun hij => henter (congrArg _ hij.symm)) ..
    | _ => rfl
  have hkept (hcurrent : (world.node i).current = (w.world.node i).current)
      (hpast : (world.node i).past = (w.world.node i).past) :
      Late timeout i ((w.clockOf ev).setWorld world) ∧
        work i ((w.clockOf ev).setWorld world) + 0 ≤ work i w :=
    h.kept hcurrent hpast (by simp) (Nat.le_of_eq hclock.symm)
  have hother {j : Nat} {e : NodeEvent} {n : Node} (hown : ev.own = some (j, e))
      (hnode : world.node = (w.world.setNode j n).node)
      (hn : (w.world.node j).step e = some n) (hnoEnter : ∀ call, e ≠ .enter call)
      (hnoPlace : ∀ source value, e ≠ .place source value) :
      Late timeout i ((w.clockOf ev).setWorld world) ∧
        work i ((w.clockOf ev).setWorld world) +
          (if (DeadlineEvent.act ev).isOwn i then 1 else 0) ≤ work i w := by
    simp only [DeadlineEvent.isOwn, hown, Option.map_some, Option.some.injEq, decide_eq_true_eq]
    split_ifs with hj
    · subst hj
      have hi := hloop.outside_of_own houtside hown hn
      exact h.own_step hloop hn hnoEnter hnoPlace (by simp [hnode]) (by simpa using hi) hclock
    · apply hkept <;> rw [hnode, World.setNode_node, if_neg (Ne.symm hj)]
  cases World.step_spec hs with
  | @entered j call rest n script moved =>
    have hij : i ≠ j := fun hij => henter (congrArg _ hij.symm)
    apply hkept
    · exact congrArg Node.current (Function.update_of_ne hij ..)
    · exact congrArg Node.past (Function.update_of_ne hij ..)
  | @posted j p value n next gathered moved =>
    exact hother rfl rfl moved (by simp) (by simp)
  | @acted _ j e n own moved noEnter noPlace noPost confirmed =>
    exact hother own rfl moved noEnter noPlace
  | @delivered k j value rest n queued moved =>
    obtain ⟨mr, _, rfl⟩ := Option.map_eq_some_iff.mp moved
    apply hkept
    · rw [World.setWire_node, World.setNode_node]
      split_ifs with hij
      · subst hij
        rfl
      · rfl
    · rw [World.setWire_node, World.setNode_node]
      split_ifs with hij
      · subst hij
        rfl
      · rfl
  | lost queued poisoned => exact hkept rfl rfl

/-- The time that the clock of node `i` moves on. -/
def ticks (i : Nat) : DeadlineEvent → Nat
  | .tick j d => if j = i then d else 0
  | _ => 0

/-- Node `i` reads a flag. -/
def polls (i : Nat) : DeadlineEvent → Nat
  | .poll j => if j = i then 1 else 0
  | _ => 0

/-- What a step of the world is for a node. -/
theorem node_step {world world' : World} {ev : WorldEvent} (hs : world.step ev = some world')
    (i : Nat) : world'.node i = world.node i ∨
    ∃ e, (world.node i).step e = some (world'.node i) ∧
      (e = .expire → ev = .expire i) ∧ ∀ call, e = .enter call → ev = .enter i := by
  have hmoved {j : Nat} {e : NodeEvent} {n : Node} (hn : (world.node j).step e = some n)
      (hnode : world'.node = (world.setNode j n).node) (hexpire : e = .expire → ev = .expire j)
      (henter : ∀ call, e = .enter call → ev = .enter j) : world'.node i = world.node i ∨
      ∃ e, (world.node i).step e = some (world'.node i) ∧
        (e = .expire → ev = .expire i) ∧ ∀ call, e = .enter call → ev = .enter i := by
    rw [hnode, World.setNode_node]
    split_ifs with hij
    · subst hij
      exact Or.inr ⟨e, hn, hexpire, henter⟩
    · exact Or.inl rfl
  cases World.step_spec hs with
  | entered script moved => exact hmoved moved rfl (by simp) (by simp)
  | posted next gathered moved => exact hmoved moved rfl (by simp) (by simp)
  | @acted _ j e n own moved noEnter noPlace noPost confirmed =>
    refine hmoved moved rfl ?_ (fun call he => absurd he (noEnter call))
    rintro rfl
    cases ev <;> simp_all [WorldEvent.own]
  | delivered queued moved => exact hmoved moved rfl (by simp) (by simp)
  | lost queued poisoned => exact Or.inl rfl

/-- A call that times out has come to its clock, and the clock showed more than the timeout. -/
theorem LoopInv.past_step (h : LoopInv w) {e : DeadlineEvent} (hs : w.step timeout e = some w')
    (i : Nat) : (w'.world.node i).past = (w.world.node i).past ∨
    ∃ x, (w'.world.node i).past = (w.world.node i).past ++ [x] ∧
      (x.result = .error .Timeout → e = .check i ∧ w.polling i = .checking ∧
        w.limit timeout i < w.elapsed i ∧ (w.world.node i).current ≠ none) := by
  have hmoved {ev : WorldEvent} {world : World} (hworld : w.world.step ev = some world)
      (hexpire : ev ≠ .expire i) : (world.node i).past = (w.world.node i).past ∨
      ∃ x, (world.node i).past = (w.world.node i).past ++ [x] ∧
        (x.result = .error .Timeout → e = .check i ∧ w.polling i = .checking ∧
          w.limit timeout i < w.elapsed i ∧ (w.world.node i).current ≠ none) := by
    rcases node_step hworld i with hsame | ⟨ne, hne, hend, _⟩
    · exact Or.inl (by rw [hsame])
    · rcases Node.past_step hne with hkept | ⟨x, hx, htimeout⟩
      · exact Or.inl hkept
      · exact Or.inr ⟨x, hx, fun hresult => absurd (hend (htimeout hresult)) hexpire⟩
  cases step_spec timeout hs with
  | @acted ev world outside moved =>
    refine hmoved moved ?_
    rintro rfl
    cases outside
  | arrived next flag moved loops => exact hmoved moved (by simp)
  | missed | resumed | ticked => exact Or.inl rfl
  | @expired j checking late =>
    by_cases hij : i = j
    · subst hij
      obtain ⟨p, hspins⟩ := h.spins i (by rw [checking]; simp)
      obtain ⟨call, executed, rest, hcurrent⟩ := hspins.current
      refine Or.inr ⟨⟨call, executed, .error .Timeout⟩, ?_, fun _ => ⟨rfl, checking, late, ?_⟩⟩
      · rw [setWorld_world, World.setNode_node, if_pos rfl, Node.expired, hcurrent]
        rfl
      · rw [hcurrent]
        simp
    · left
      rw [setWorld_world, World.setNode_node, if_neg hij]

theorem busy_step {e : DeadlineEvent} (hs : w.step timeout e = some w') {i : Nat}
    (hbusy : (w'.world.node i).current ≠ none) :
    (w'.world.node i).past = (w.world.node i).past ∧
      (e ≠ .act (.enter i) → (w.world.node i).current ≠ none) := by
  have hmoved {ev : WorldEvent} {world : World} (hworld : w.world.step ev = some world)
      (hbusy : (world.node i).current ≠ none) :
      (world.node i).past = (w.world.node i).past ∧
        (ev ≠ .enter i → (w.world.node i).current ≠ none) := by
    rcases node_step hworld i with hsame | ⟨ne, hne, _, henters⟩
    · exact ⟨by rw [hsame], fun _ => by rwa [hsame] at hbusy⟩
    · obtain ⟨hpast, hwas⟩ := Node.busy_step hne hbusy
      exact ⟨hpast, fun henter => hwas (fun call hcall => henter (henters call hcall))⟩
  cases step_spec timeout hs with
  | @acted ev world outside moved =>
    obtain ⟨hpast, hwas⟩ := hmoved moved hbusy
    exact ⟨hpast, fun henter => hwas (fun hev => henter (congrArg _ hev))⟩
  | arrived next flag moved loops =>
    obtain ⟨hpast, hwas⟩ := hmoved moved hbusy
    exact ⟨hpast, fun _ => hwas (by simp)⟩
  | missed | resumed | ticked => exact ⟨rfl, fun _ => hbusy⟩
  | @expired j checking late =>
    rw [setWorld_world, World.setNode_node] at hbusy ⊢
    split_ifs at hbusy ⊢ with hij
    · subst hij
      unfold Node.expired at hbusy
      split at hbusy
      · exact absurd rfl hbusy
      · exact absurd ‹_› hbusy
    · exact ⟨rfl, fun _ => hbusy⟩

/-- A clock shows the time since the call was entered. -/
theorem elapsed_step {e : DeadlineEvent} (hs : w.step timeout e = some w') {i : Nat}
    (henter : e ≠ .act (.enter i)) : w'.elapsed i = w.elapsed i + ticks i e := by
  cases step_spec timeout hs with
  | @acted ev world outside moved =>
    cases ev with
    | enter j => exact Function.update_of_ne (fun hij => henter (by rw [hij])) ..
    | _ => rfl
  | arrived | missed | expired | resumed => rfl
  | @ticked j d =>
    change Function.update w.elapsed j (w.elapsed j + d) i = _
    rw [Function.update_apply, ticks]
    by_cases hij : i = j
    · rw [if_pos hij, if_pos hij.symm, hij]
    · rw [if_neg hij, if_neg (Ne.symm hij), Nat.add_zero]

theorem elapsed_enter {i : Nat} (hs : w.step timeout (.act (.enter i)) = some w') :
    w'.elapsed i = 0 := by
  cases step_spec timeout hs with
  | acted => exact Function.update_self ..

theorem LoopInv.spent_step (h : LoopInv w) {e : DeadlineEvent} (hs : w.step timeout e = some w')
    (i : Nat) : (w'.polling i).spent ≤ (w.polling i).spent + polls i e := by
  have hover {j : Nat} {polling : Polling} (hzero : polling.spent = 0) :
      ((w.setPolling j polling).polling i).spent ≤ (w.polling i).spent + polls i e := by
    rw [setPolling_polling]
    split_ifs with hij
    · omega
    · exact Nat.le_add_right ..
  cases step_spec timeout hs with
  | acted outside moved =>
    rw [setWorld_polling, clockOf_polling]
    exact Nat.le_add_right ..
  | arrived next flag moved loops => exact hover rfl
  | @missed j p next flag loops =>
    rw [setPolling_polling]
    split_ifs with hij
    · subst hij
      rw [(h.spent_missed loops).1, polls, if_pos rfl]
    · exact Nat.le_add_right ..
  | expired checking late => exact hover rfl
  | resumed checking early => exact hover rfl
  | ticked => exact Nat.le_add_right ..

section History

variable {es before during : List DeadlineEvent} {i k : Nat} {x : Completed}

/-- The call in progress of node `i`: it was entered behind `before`, and `during` has happened
since. -/
structure Ongoing (M : TransitionSystem DeadlineWorld DeadlineEvent) (w : DeadlineWorld) (i : Nat)
    (before during : List DeadlineEvent) : Prop where
  once : ∀ e ∈ during, e ≠ .act (.enter i)
  entered : ∃ u, M.run before = some u ∧
    (u.world.node i).past.length = (w.world.node i).past.length
  elapsed : w.elapsed i = (during.map (ticks i)).sum
  spent : (w.polling i).spent ≤ (during.map (polls i)).sum

/-- The `k`-th call of node `i` was entered behind `before` and has timed out behind `during`, where
a look at the clock recorded `x`. Meanwhile the node has read flags for at least one round of the
loop, and more than the timeout of the call has passed. -/
structure TimedOut (M : TransitionSystem DeadlineWorld DeadlineEvent) (timeout : Nat → Nat → Nat)
    (i k : Nat) (x : Completed) (before during : List DeadlineEvent) : Prop where
  once : ∀ e ∈ during, e ≠ .act (.enter i)
  entered : ∃ u, M.run before = some u ∧ (u.world.node i).past.length = k
  ended : ∃ v v', M.run (before ++ .act (.enter i) :: during) = some v ∧
    (v.world.node i).past.length = k ∧ M.step v (.check i) = some v' ∧
    (v'.world.node i).past = (v.world.node i).past ++ [x]
  reads : TIMEOUT_CHECK_ITERS.toNat ≤ (during.map (polls i)).sum
  time : timeout i k < (during.map (ticks i)).sum

/-- What a run has led to, seen from its end. -/
structure HistoryInv (M : TransitionSystem DeadlineWorld DeadlineEvent)
    (timeout : Nat → Nat → Nat) (es : List DeadlineEvent) (w : DeadlineWorld) : Prop where
  loop : LoopInv w
  ongoing : ∀ i, (w.world.node i).current ≠ none → ∃ before during,
    es = before ++ .act (.enter i) :: during ∧ Ongoing M w i before during
  timeouts : ∀ i k x, (w.world.node i).past[k]? = some x → x.result = .error .Timeout →
    ∃ before during after, es = before ++ .act (.enter i) :: (during ++ .check i :: after) ∧
      TimedOut M timeout i k x before during

variable {M : TransitionSystem DeadlineWorld DeadlineEvent}

/-- The call goes on, or has just been entered. -/
theorem HistoryInv.ongoing_step (h : HistoryInv M timeout es w) (hes : M.run es = some w)
    {e : DeadlineEvent} (hs : w.step timeout e = some w')
    (hbusy : (w'.world.node i).current ≠ none) : ∃ before during,
    es ++ [e] = before ++ .act (.enter i) :: during ∧ Ongoing M w' i before during := by
  obtain ⟨hpast, hwas⟩ := busy_step hs hbusy
  by_cases henter : e = .act (.enter i)
  · subst henter
    refine ⟨es, [], rfl, by simp, ⟨w, hes, by rw [hpast]⟩, elapsed_enter hs, ?_⟩
    cases step_spec timeout hs with
    | acted outside moved =>
      have houtside : w.polling i = .outside := by
        cases World.step_spec moved with
        | entered _ hmoved => exact h.loop.outside_of_enter hmoved
        | acted own => cases own
      rw [setWorld_polling, clockOf_polling, houtside]
      exact Nat.le_refl _
  · obtain ⟨before, during, rfl, hongoing⟩ := h.ongoing i (hwas henter)
    refine ⟨before, during ++ [e], by simp, ?_, ?_, ?_, ?_⟩
    · intro f hf
      rcases List.mem_append.mp hf with hf | hf
      · exact hongoing.once f hf
      · rwa [List.mem_singleton.mp hf]
    · rw [hpast]
      exact hongoing.entered
    · rw [elapsed_step hs henter, hongoing.elapsed]
      simp
    · have hspent := h.loop.spent_step hs i
      have hreads := hongoing.spent
      rw [List.map_append, List.sum_append, List.map_singleton, List.sum_singleton]
      omega

/-- A look at the clock that ends the call in progress. -/
theorem Ongoing.timedOut (h : Ongoing M w i before during)
    (hes : M.run (before ++ .act (.enter i) :: during) = some w)
    (hchecking : w.polling i = .checking) (hlate : w.limit timeout i < w.elapsed i)
    (hs : M.step w (.check i) = some w')
    (hpast : (w'.world.node i).past = (w.world.node i).past ++ [x]) :
    TimedOut M timeout i (w.world.node i).past.length x before during := by
  refine ⟨h.once, h.entered, ⟨w, w', hes, rfl, hs, hpast⟩, ?_, ?_⟩
  · have hreads := h.spent
    rw [hchecking] at hreads
    exact hreads
  · rw [← h.elapsed]
    exact hlate

theorem HistoryInv.step {alg : BarrierAlgorithm} {world_size : Nat} {calls : Nat → List Call}
    (h : HistoryInv (system timeout alg world_size calls) timeout es w)
    (hes : (system timeout alg world_size calls).run es = some w) {e : DeadlineEvent}
    (hs : w.step timeout e = some w') :
    HistoryInv (system timeout alg world_size calls) timeout (es ++ [e]) w' := by
  refine ⟨h.loop.step hs, fun i hbusy => h.ongoing_step hes hs hbusy, fun i k x hx hresult => ?_⟩
  have hold (hx : (w.world.node i).past[k]? = some x) : ∃ before during after,
      es ++ [e] = before ++ .act (.enter i) :: (during ++ .check i :: after) ∧
        TimedOut (system timeout alg world_size calls) timeout i k x before during := by
    obtain ⟨before, during, after, rfl, htimedOut⟩ := h.timeouts i k x hx hresult
    exact ⟨before, during, after ++ [e], by simp, htimedOut⟩
  rcases h.loop.past_step hs i with hsame | ⟨y, hy, hend⟩
  · exact hold (hsame ▸ hx)
  · rw [hy] at hx
    rcases getElem?_snoc_cases hx with hx | ⟨rfl, rfl⟩
    · exact hold hx
    · obtain ⟨rfl, hchecking, hlate, hbusy⟩ := hend hresult
      obtain ⟨before, during, rfl, hongoing⟩ := h.ongoing i hbusy
      exact ⟨before, during, [], by simp, hongoing.timedOut hes hchecking hlate hs hy⟩

theorem HistoryInv.run {alg : BarrierAlgorithm} {world_size : Nat} {calls : Nat → List Call}
    (hrun : (system timeout alg world_size calls).run es = some w) :
    HistoryInv (system timeout alg world_size calls) timeout es w := by
  refine (system timeout alg world_size calls).history_invariant ?_
    (fun _ _ _ _ hes h hs => h.step hes hs) hrun
  refine ⟨LoopInv.start alg world_size calls, fun i hbusy => absurd rfl hbusy, ?_⟩
  intro i k x hx
  cases hx

end History

section Expiring

variable {i p : Nat} (hnext : (w.world.node i).next = some (.spinPoll p))
  (hflag : (w.world.node i).barrier.barrier_mr.is_peer_epoch_expected p = some false)

include hnext hflag

end Expiring

end DeadlineWorld

end IbverbsRs.Network
