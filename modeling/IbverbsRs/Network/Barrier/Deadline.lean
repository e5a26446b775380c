import IbverbsRs.Framework.Refinement
import IbverbsRs.Network.Barrier.World

namespace IbverbsRs.Network

open Framework

def TIMEOUT_CHECK_ITERS : UInt32 := 65536

/-- Where a node is in `spin_poll_peer_epoch_expected`: at the top of its loop, or behind a flag
that was not set and before the clock. -/
inductive Polling
  | outside
  | looping (iter : UInt32)
  | checking
  deriving DecidableEq, Repr

/-- `let mut iter = 0u32` in front of the loop. -/
def Polling.iter : Polling → UInt32
  | .looping iter => iter
  | _ => 0

/-- Where the loop goes from a flag that was not set. -/
def Polling.missed (polling : Polling) : Polling :=
  let iter := polling.iter + 1
  if iter ≥ TIMEOUT_CHECK_ITERS then .checking else .looping iter

/-- The nodes with their places in the loop, and the time since the `start_time` of their calls. -/
structure DeadlineWorld where
  world : World
  polling : Nat → Polling
  elapsed : Nat → Nat

/-- `poll` reads the flag once, `check` compares the clock with the timeout. -/
inductive DeadlineEvent
  | act (ev : WorldEvent)
  | poll (i : Nat)
  | check (i : Nat)
  | tick (i d : Nat)

/-- The call in progress returns `Timeout`. -/
def Node.expired (n : Node) : Node :=
  match n.current with
  | some ⟨call, executed, _⟩ => n.fail call executed .Timeout
  | none => n

namespace DeadlineWorld

def setPolling (w : DeadlineWorld) (i : Nat) (polling : Polling) : DeadlineWorld :=
  { w with polling := Function.update w.polling i polling }

def setElapsed (w : DeadlineWorld) (i elapsed : Nat) : DeadlineWorld :=
  { w with elapsed := Function.update w.elapsed i elapsed }

def setWorld (w : DeadlineWorld) (world : World) : DeadlineWorld := { w with world := world }

/-- What is not part of the loop. -/
def outsideLoop (w : DeadlineWorld) : WorldEvent → Bool
  | .expire _ => false
  | .advance i =>
    match (w.world.node i).next with
    | some (.spinPoll _) => false
    | _ => true
  | _ => true

/-- `start_time` is taken when a call starts to run. -/
def clockOf (w : DeadlineWorld) : WorldEvent → DeadlineWorld
  | .enter i => w.setElapsed i 0
  | _ => w

section Code

variable (timeout : Nat → Nat → Nat)

/-- `timeout i k` is the timeout of the `k`-th call of node `i`. -/
def limit (w : DeadlineWorld) (i : Nat) : Nat := timeout i (w.world.node i).past.length

def step (w : DeadlineWorld) : DeadlineEvent → Option DeadlineWorld
  | .act ev =>
    if w.outsideLoop ev then (w.world.step ev).map (w.clockOf ev).setWorld else none
  | .poll i =>
    match (w.world.node i).next with
    | some (.spinPoll p) =>
      if w.polling i = .checking then none
      else
        match (w.world.node i).barrier.barrier_mr.is_peer_epoch_expected p with
        | none => none
        | some true =>
          (w.world.step (.advance i)).map (w.setPolling i .outside).setWorld
        | some false => some (w.setPolling i (w.polling i).missed)
    | _ => none
  | .check i =>
    if w.polling i = .checking then
      if w.elapsed i > w.limit timeout i then
        some ((w.setPolling i .outside).setWorld
          (w.world.setNode i (w.world.node i).expired))
      else some (w.setPolling i (.looping 0))
    else none
  | .tick i d => some (w.setElapsed i (w.elapsed i + d))

def start (alg : BarrierAlgorithm) (world_size : Nat) (calls : Nat → List Call) :
    DeadlineWorld where
  world := World.start alg world_size calls
  polling _ := .outside
  elapsed _ := 0

def system (alg : BarrierAlgorithm) (world_size : Nat) (calls : Nat → List Call) :
    TransitionSystem DeadlineWorld DeadlineEvent :=
  ⟨start alg world_size calls, step timeout⟩

/-- Everything a step can do. -/
inductive Step (w : DeadlineWorld) : DeadlineEvent → DeadlineWorld → Prop
  | acted {ev : WorldEvent} {world : World} (outside : w.outsideLoop ev = true)
      (moved : w.world.step ev = some world) : Step w (.act ev) ((w.clockOf ev).setWorld world)
  | arrived {i p : Nat} {world : World} (next : (w.world.node i).next = some (.spinPoll p))
      (flag : (w.world.node i).barrier.barrier_mr.is_peer_epoch_expected p = some true)
      (moved : w.world.step (.advance i) = some world) (loops : w.polling i ≠ .checking) :
      Step w (.poll i) ((w.setPolling i .outside).setWorld world)
  | missed {i p : Nat} (next : (w.world.node i).next = some (.spinPoll p))
      (flag : (w.world.node i).barrier.barrier_mr.is_peer_epoch_expected p = some false)
      (loops : w.polling i ≠ .checking) :
      Step w (.poll i) (w.setPolling i (w.polling i).missed)
  | expired {i : Nat} (checking : w.polling i = .checking)
      (late : w.elapsed i > w.limit timeout i) :
      Step w (.check i)
        ((w.setPolling i .outside).setWorld (w.world.setNode i (w.world.node i).expired))
  | resumed {i : Nat} (checking : w.polling i = .checking)
      (early : ¬ w.elapsed i > w.limit timeout i) :
      Step w (.check i) (w.setPolling i (.looping 0))
  | ticked {i d : Nat} : Step w (.tick i d) (w.setElapsed i (w.elapsed i + d))

theorem step_spec {w w' : DeadlineWorld} {e : DeadlineEvent} (h : w.step timeout e = some w') :
    w.Step timeout e w' := by
  cases e with
  | act ev =>
    simp only [step] at h
    split_ifs at h with houtside
    obtain ⟨world, hworld, rfl⟩ := Option.map_eq_some_iff.mp h
    exact .acted houtside hworld
  | poll i =>
    simp only [step] at h
    split at h
    · rename_i p hnext
      split_ifs at h with hchecking
      split at h
      · cases h
      · obtain ⟨world, hworld, rfl⟩ := Option.map_eq_some_iff.mp h
        exact .arrived hnext ‹_› hworld hchecking
      · obtain rfl := Option.some.inj h
        exact .missed hnext ‹_› hchecking
    · cases h
  | check i =>
    simp only [step] at h
    split_ifs at h with hchecking hlate
    · obtain rfl := Option.some.inj h
      exact .expired hchecking hlate
    · obtain rfl := Option.some.inj h
      exact .resumed hchecking hlate
  | tick i d =>
    obtain rfl := Option.some.inj h
    exact .ticked

end Code

end DeadlineWorld

namespace Node

/-- The node waits for the flag of `p`, which is in its array. -/
def SpinsOn (n : Node) (p : Nat) : Prop :=
  n.next = some (.spinPoll p) ∧ p < n.barrier.barrier_mr.memory.length

variable {n n' : Node} {p : Nat}

theorem SpinsOn.current (h : n.SpinsOn p) :
    ∃ call executed rest, n.current = some ⟨call, executed, .spinPoll p :: rest⟩ := by
  obtain ⟨⟨call, executed, rest⟩, hcurrent, hhead⟩ := Option.bind_eq_some_iff.mp h.1
  obtain ⟨tail, rfl⟩ := List.head?_eq_some_iff.mp hhead
  exact ⟨call, executed, tail, hcurrent⟩

/-- Nothing but the end of the wait happens to it, and values are placed in its array. -/
theorem SpinsOn.step (h : n.SpinsOn p) {e : NodeEvent} (hs : n.step e = some n') :
    e = .advance ∨ e = .expire ∨ ∃ source value, e = .place source value := by
  obtain ⟨call, executed, rest, hcurrent⟩ := h.current
  cases e with
  | advance => exact Or.inl rfl
  | expire => exact Or.inr (Or.inl rfl)
  | place source value => exact Or.inr (Or.inr ⟨source, value, rfl⟩)
  | unwind =>
    simp [Node.step, hcurrent, BarrierOp.peer, h.2] at hs
  | enter _ | ret | refuse _ =>
    simp [Node.step, hcurrent] at hs

theorem SpinsOn.place (h : n.SpinsOn p) {source value : Nat}
    (hs : n.step (.place source value) = some n') : n'.SpinsOn p := by
  obtain ⟨mr, hmr, rfl⟩ := Option.map_eq_some_iff.mp hs
  refine ⟨h.1, ?_⟩
  change p < mr.memory.length
  rw [BarrierMr.update_length hmr]
  exact h.2

/-- A value that is placed does not depend on whether the call has returned. -/
theorem expired_place {source value : Nat} (hs : n.step (.place source value) = some n') :
    n.expired.step (.place source value) = some n'.expired := by
  obtain ⟨mr, hmr, rfl⟩ := Option.map_eq_some_iff.mp hs
  unfold expired
  cases hcurrent : n.current with
  | none => simp only [Node.step, hmr, hcurrent, Option.map_some]
  | some r => simp only [Node.step, fail, record, hmr, Option.map_some]

theorem expire_eq (h : n.SpinsOn p)
    (hflag : n.barrier.barrier_mr.is_peer_epoch_expected p = some false) :
    n.step .expire = some n.expired := by
  obtain ⟨call, executed, rest, hcurrent⟩ := h.current
  simp only [Node.step, expired, hcurrent, if_pos hflag]

theorem expired_poisoned (h : n.barrier.poisoned = true) : n.expired.barrier.poisoned = true := by
  unfold expired
  split
  · rfl
  · exact h

end Node

namespace DeadlineWorld

/-- Whoever is in the loop waits, and has counted fewer rounds than it takes to look at the
clock. -/
structure LoopInv (w : DeadlineWorld) : Prop where
  spins : ∀ i, w.polling i ≠ .outside → ∃ p, (w.world.node i).SpinsOn p
  iters : ∀ i iter, w.polling i = .looping iter → iter < TIMEOUT_CHECK_ITERS

section Frames

variable {w : DeadlineWorld} {i : Nat}

@[simp] theorem setPolling_polling (polling : Polling) (k : Nat) :
    (w.setPolling i polling).polling k = if k = i then polling else w.polling k := by
  simp [setPolling, Function.update_apply]

@[simp] theorem setWorld_polling (world : World) : (w.setWorld world).polling = w.polling := rfl

@[simp] theorem setWorld_world (world : World) : (w.setWorld world).world = world := rfl

@[simp] theorem setWorld_elapsed (world : World) : (w.setWorld world).elapsed = w.elapsed := rfl

@[simp] theorem clockOf_polling (ev : WorldEvent) : (w.clockOf ev).polling = w.polling := by
  cases ev <;> rfl

@[simp] theorem clockOf_world (ev : WorldEvent) : (w.clockOf ev).world = w.world := by
  cases ev <;> rfl

end Frames

variable {w w' : DeadlineWorld} {timeout : Nat → Nat → Nat}

theorem LoopInv.outside_of_enter (h : LoopInv w) {i : Nat} {call : Call} {n : Node}
    (hs : (w.world.node i).step (.enter call) = some n) : w.polling i = .outside := by
  by_contra hin
  obtain ⟨p, hspins⟩ := h.spins i hin
  rcases hspins.step hs with heq | heq | ⟨_, _, heq⟩ <;> cases heq

/-- A node takes no other step of its own while it is in the loop. -/
theorem LoopInv.outside_of_own (h : LoopInv w) {ev : WorldEvent} {i : Nat} {e : NodeEvent}
    {n : Node} (houtside : w.outsideLoop ev = true) (hown : ev.own = some (i, e))
    (hs : (w.world.node i).step e = some n) : w.polling i = .outside := by
  by_contra hin
  obtain ⟨p, hspins⟩ := h.spins i hin
  cases ev with
  | advance j =>
    obtain ⟨rfl, rfl⟩ := Prod.mk.inj (Option.some.inj hown)
    simp only [outsideLoop, hspins.1] at houtside
    cases houtside
  | expire j => cases houtside
  | ret j | refuse j e | unwind j =>
    obtain ⟨rfl, rfl⟩ := Prod.mk.inj (Option.some.inj hown)
    rcases hspins.step hs with heq | heq | ⟨_, _, heq⟩ <;> cases heq
  | enter _ | deliver _ _ | lose _ _ => cases hown

/-- A node in the loop goes on waiting, whatever the others do. -/
theorem LoopInv.acted (h : LoopInv w) {ev : WorldEvent} {world : World}
    (houtside : w.outsideLoop ev = true) (hs : w.world.step ev = some world) {i p : Nat}
    (hin : w.polling i ≠ .outside) (hspins : (w.world.node i).SpinsOn p) :
    (world.node i).SpinsOn p ∧ (world.node i).past = (w.world.node i).past := by
  have hsame (hnode : world.node i = w.world.node i) : (world.node i).SpinsOn p ∧
      (world.node i).past = (w.world.node i).past := by
    rw [hnode]
    exact ⟨hspins, rfl⟩
  have hother {j : Nat} {n : Node} (hj : w.polling j = .outside) :
      (w.world.setNode j n).node i = w.world.node i := by
    rw [World.setNode_node, if_neg]
    rintro rfl
    exact hin hj
  cases World.step_spec hs with
  | entered _ moved => exact hsame (hother (h.outside_of_enter moved))
  | posted _ _ moved => exact hsame (hother (h.outside_of_own houtside rfl moved))
  | acted own moved _ _ _ _ => exact hsame (hother (h.outside_of_own houtside own moved))
  | lost _ _ => exact hsame rfl
  | @delivered j k value rest n queued moved =>
    by_cases hik : i = k
    · subst hik
      have hnode : (((w.world.setNode i n).setWire j i rest).node i) = n := by
        rw [World.setWire_node, World.setNode_node, if_pos rfl]
      rw [hnode]
      refine ⟨hspins.place moved, ?_⟩
      obtain ⟨mr, _, rfl⟩ := Option.map_eq_some_iff.mp moved
      rfl
    · apply hsame
      rw [World.setWire_node, World.setNode_node, if_neg hik]

theorem LoopInv.start (alg : BarrierAlgorithm) (world_size : Nat) (calls : Nat → List Call) :
    LoopInv (DeadlineWorld.start alg world_size calls) :=
  ⟨fun _ hin => absurd rfl hin, fun _ _ hlooping => by cases hlooping⟩

theorem missed_cases {polling : Polling} (h : ∀ iter, polling = .looping iter →
    iter < TIMEOUT_CHECK_ITERS) : (∃ iter, polling.missed = .looping iter ∧
      iter < TIMEOUT_CHECK_ITERS ∧ iter.toNat = polling.iter.toNat + 1) ∨
    (polling.missed = .checking ∧ polling.iter.toNat + 1 = 65536) := by
  have hlt : polling.iter.toNat < 65536 := by
    cases polling with
    | looping iter => exact UInt32.lt_iff_toNat_lt.mp (h iter rfl)
    | outside | checking => decide
  have hnext : (polling.iter + 1).toNat = polling.iter.toNat + 1 := by
    rw [UInt32.toNat_add]
    exact Nat.mod_eq_of_lt (by have hone : (1 : UInt32).toNat = 1 := rfl; omega)
  unfold Polling.missed
  dsimp only
  split_ifs with hdone
  · right
    have hge := UInt32.le_iff_toNat_le.mp hdone
    rw [hnext] at hge
    refine ⟨rfl, ?_⟩
    have hbound : TIMEOUT_CHECK_ITERS.toNat = 65536 := rfl
    omega
  · exact Or.inl ⟨_, rfl, UInt32.not_le.mp hdone, hnext⟩

theorem spinsOn_of_flag {n : Node} {p : Nat} {flag : Bool} (hnext : n.next = some (.spinPoll p))
    (hflag : n.barrier.barrier_mr.is_peer_epoch_expected p = some flag) : n.SpinsOn p := by
  obtain ⟨flags, hflags, _⟩ := Option.map_eq_some_iff.mp hflag
  exact ⟨hnext, (List.getElem?_eq_some_iff.mp hflags).1⟩

theorem advance_of_spin {world world' : World} {i p : Nat}
    (hnext : (world.node i).next = some (.spinPoll p)) (hs : world.step (.advance i) = some world') :
    ∃ n, (world.node i).step .advance = some n ∧ world' = world.setNode i n := by
  simp only [World.step, hnext] at hs
  exact World.act_eq_some hs

/-- A wait comes to its end. -/
theorem LoopInv.leave (h : LoopInv w) (i : Nat) (n : Node) :
    LoopInv ((w.setPolling i .outside).setWorld (w.world.setNode i n)) := by
  refine ⟨?_, ?_⟩
  · intro k hin
    rw [setWorld_polling, setPolling_polling] at hin
    split_ifs at hin with hk
    · exact absurd rfl hin
    · rw [setWorld_world, World.setNode_node, if_neg hk]
      exact h.spins k hin
  · intro k iter hlooping
    rw [setWorld_polling, setPolling_polling] at hlooping
    split_ifs at hlooping
    exact h.iters k iter hlooping

/-- A wait goes on. -/
theorem LoopInv.turn (h : LoopInv w) {i p : Nat} (hspins : (w.world.node i).SpinsOn p)
    {polling : Polling} (hiter : ∀ iter, polling = .looping iter → iter < TIMEOUT_CHECK_ITERS) :
    LoopInv (w.setPolling i polling) := by
  refine ⟨?_, ?_⟩
  · intro k hin
    by_cases hk : k = i
    · subst hk
      exact ⟨p, hspins⟩
    · rw [setPolling_polling, if_neg hk] at hin
      exact h.spins k hin
  · intro k iter hlooping
    rw [setPolling_polling] at hlooping
    split_ifs at hlooping
    · exact hiter iter hlooping
    · exact h.iters k iter hlooping

theorem LoopInv.step (h : LoopInv w) {e : DeadlineEvent} (hs : w.step timeout e = some w') :
    LoopInv w' := by
  cases step_spec timeout hs with
  | acted outside moved =>
    refine ⟨?_, ?_⟩
    · intro i hin
      rw [setWorld_polling, clockOf_polling] at hin
      obtain ⟨p, hspins⟩ := h.spins i hin
      exact ⟨p, (h.acted outside moved hin hspins).1⟩
    · intro i iter hlooping
      rw [setWorld_polling, clockOf_polling] at hlooping
      exact h.iters i iter hlooping
  | arrived next flag moved loops =>
    obtain ⟨n, _, rfl⟩ := advance_of_spin next moved
    exact h.leave _ n
  | @missed i p next flag loops =>
    apply h.turn (spinsOn_of_flag next flag)
    intro iter hlooping
    rcases missed_cases (h.iters i) with ⟨iter', hmissed, hlt, _⟩ | ⟨hmissed, _⟩
    · obtain rfl := Polling.looping.inj (hmissed.symm.trans hlooping)
      exact hlt
    · cases hmissed.symm.trans hlooping
  | expired checking late => exact h.leave _ _
  | @resumed i checking early =>
    obtain ⟨p, hspins⟩ := h.spins i (by rw [checking]; simp)
    apply h.turn hspins
    intro iter hlooping
    obtain rfl := Polling.looping.inj hlooping
    decide
  | ticked => exact ⟨h.spins, h.iters⟩

/-- Whether the next look of node `i` at its clock, which shows `elapsed` now, ends the wait. -/
def expires (limit i : Nat) : List DeadlineEvent → Nat → Bool
  | [], _ => false
  | .check j :: es, elapsed => if j = i then elapsed > limit else expires limit i es elapsed
  | .tick j d :: es, elapsed => expires limit i es (if j = i then elapsed + d else elapsed)
  | .act _ :: es, elapsed | .poll _ :: es, elapsed => expires limit i es elapsed

/-- The flag was not set and the call is going to return `Timeout`. -/
def Doomed (timeout : Nat → Nat → Nat) (es : List DeadlineEvent) (w : DeadlineWorld) (i : Nat) :
    Prop := w.polling i = .checking ∧ expires (w.limit timeout i) i es (w.elapsed i) = true

/-- Calls that are going to return `Timeout` return it, in `a`, with the last flag they read. -/
structure Foresees (timeout : Nat → Nat → Nat) (es : List DeadlineEvent) (w : DeadlineWorld)
    (a : World) : Prop where
  loop : LoopInv w
  doomed : ∀ i, Doomed timeout es w i → a.node i = (w.world.node i).expired
  others : ∀ i, ¬ Doomed timeout es w i → a.node i = w.world.node i
  todo : a.todo = w.world.todo
  wire : a.wire = w.world.wire

/-- The clock of a node in the loop is not set back. -/
theorem LoopInv.elapsed (h : LoopInv w) {ev : WorldEvent} {world : World}
    (hs : w.world.step ev = some world) {i : Nat} (hin : w.polling i ≠ .outside) :
    (w.clockOf ev).elapsed i = w.elapsed i := by
  cases ev with
  | enter j =>
    cases World.step_spec hs with
    | entered _ moved =>
      have hne : i ≠ j := by
        rintro rfl
        exact hin (h.outside_of_enter moved)
      exact Function.update_of_ne hne ..
    | acted own => cases own
  | _ => rfl

variable {es : List DeadlineEvent} {a a' : World}

theorem LoopInv.doomed_acted (h : LoopInv w) {ev : WorldEvent} {world : World}
    (houtside : w.outsideLoop ev = true) (hs : w.world.step ev = some world) (i : Nat) :
    Doomed timeout es ((w.clockOf ev).setWorld world) i ↔ Doomed timeout (.act ev :: es) w i := by
  unfold Doomed limit
  rw [setWorld_polling, clockOf_polling, setWorld_elapsed, setWorld_world, expires]
  refine and_congr_right (fun hchecking => ?_)
  have hin : w.polling i ≠ .outside := by rw [hchecking]; simp
  obtain ⟨p, hspins⟩ := h.spins i hin
  rw [(h.acted houtside hs hin hspins).2, h.elapsed hs hin]

namespace Foresees

variable {e : DeadlineEvent} (h : Foresees timeout (e :: es) w a)

include h

/-- One node takes a step on both levels. -/
theorem moved {i : Nat} {na nw : Node} (hloop : LoopInv w')
    (hdoomed : Doomed timeout es w' i → na = nw.expired)
    (hgoing : ¬ Doomed timeout es w' i → na = nw)
    (hother : ∀ k, k ≠ i → (Doomed timeout es w' k ↔ Doomed timeout (e :: es) w k))
    (hnodes : a'.node = (a.setNode i na).node)
    (hnodes' : w'.world.node = (w.world.setNode i nw).node)
    (htodo : a'.todo = w'.world.todo) (hwire : a'.wire = w'.world.wire) :
    Foresees timeout es w' a' := by
  refine ⟨hloop, ?_, ?_, htodo, hwire⟩
  · intro k hk
    rw [hnodes, hnodes', World.setNode_node, World.setNode_node]
    split_ifs with hki
    · exact hdoomed (hki ▸ hk)
    · exact h.doomed k ((hother k hki).mp hk)
  · intro k hk
    rw [hnodes, hnodes', World.setNode_node, World.setNode_node]
    split_ifs with hki
    · exact hgoing (hki ▸ hk)
    · exact h.others k (fun hd => hk ((hother k hki).mpr hd))

/-- No node takes a step. -/
theorem kept (hloop : LoopInv w') (hworld : w'.world = w.world)
    (hdoomed : ∀ k, Doomed timeout es w' k ↔ Doomed timeout (e :: es) w k) :
    Foresees timeout es w' a := by
  refine ⟨hloop, ?_, ?_, by rw [hworld, h.todo], by rw [hworld, h.wire]⟩
  · intro k hk
    rw [hworld]
    exact h.doomed k ((hdoomed k).mp hk)
  · intro k hk
    rw [hworld]
    exact h.others k (fun hd => hk ((hdoomed k).mpr hd))

theorem node_of_outside {i : Nat} (hi : w.polling i = .outside) : a.node i = w.world.node i := by
  apply h.others
  rintro ⟨hchecking, _⟩
  rw [hi] at hchecking
  cases hchecking

end Foresees

/-- What happens outside the loops. -/
theorem Foresees.acted {ev : WorldEvent} (h : Foresees timeout (.act ev :: es) w a) {world : World}
    (houtside : w.outsideLoop ev = true) (hs : w.world.step ev = some world) :
    ∃ a', a.step ev = some a' ∧
      Foresees timeout es ((w.clockOf ev).setWorld world) a' := by
  have hstep : w.step timeout (.act ev) = some ((w.clockOf ev).setWorld world) := by
    simp only [step, if_pos houtside, hs, Option.map_some]
  have hloop := h.loop.step hstep
  have hdoomed (k : Nat) : Doomed timeout es ((w.clockOf ev).setWorld world) k ↔
      Doomed timeout (.act ev :: es) w k := h.loop.doomed_acted houtside hs k
  have hnot {i : Nat} (hi : w.polling i = .outside) :
      ¬ Doomed timeout es ((w.clockOf ev).setWorld world) i := by
    rw [hdoomed]
    rintro ⟨hchecking, _⟩
    rw [hi] at hchecking
    cases hchecking
  cases World.step_spec hs with
  | @entered i call rest n script moved =>
    have hi := h.loop.outside_of_enter moved
    have hnode := h.node_of_outside hi
    refine ⟨{ a.setNode i n with todo := Function.update a.todo i rest }, ?_, ?_⟩
    · simp only [World.step, h.todo, script, World.act, hnode, moved, Option.map_some]
    · refine h.moved hloop (fun hd => absurd hd (hnot hi)) (fun _ => rfl) (fun k _ => hdoomed k)
        rfl rfl ?_ h.wire
      rw [h.todo]
      rfl
  | @posted i p value n next gathered moved =>
    have hi := h.loop.outside_of_own houtside rfl moved
    have hnode := h.node_of_outside hi
    rw [← hnode] at next gathered moved
    refine ⟨_, World.step_posted next gathered moved, ?_⟩
    refine h.moved hloop (fun hd => absurd hd (hnot hi)) (fun _ => rfl) (fun k _ => hdoomed k)
      rfl rfl h.todo ?_
    change Function.update a.wire i (Function.update (a.wire i) p (a.wire i p ++ [value])) = _
    rw [h.wire]
    rfl
  | @acted _ i e n own moved noEnter noPlace noPost confirmed =>
    have hi := h.loop.outside_of_own houtside own moved
    have hnode := h.node_of_outside hi
    have hmoved : Foresees timeout es ((w.clockOf ev).setWorld (w.world.setNode i n))
        (a.setNode i n) :=
      h.moved hloop (fun hd => absurd hd (hnot hi)) (fun _ => rfl) (fun k _ => hdoomed k) rfl rfl
        h.todo h.wire
    refine ⟨a.setNode i n, ?_, hmoved⟩
    cases ev with
    | advance j =>
      obtain ⟨rfl, rfl⟩ := Prod.mk.inj (Option.some.inj own)
      rw [← hnode] at moved noPost confirmed
      obtain ⟨op, hnext⟩ : ∃ op, (a.node j).next = some op := by
        rcases Node.trace_step moved with ⟨_, op, hnext, _⟩ | ⟨hne, _⟩
        · exact ⟨op, hnext⟩
        · exact absurd rfl hne
      apply World.step_advanced hnext ?_ ?_ moved
      · rintro p rfl
        exact noPost rfl p hnext
      · rintro p rfl
        rw [h.wire]
        exact confirmed rfl p hnext
    | ret j | refuse j e' | expire j | unwind j =>
      obtain ⟨rfl, rfl⟩ := Prod.mk.inj (Option.some.inj own)
      simp only [World.step, World.act, hnode, moved, Option.map_some]
    | enter _ | deliver _ _ | lose _ _ => cases own
  | @delivered i j value rest n queued moved =>
    have hna : ∃ na, (a.node j).step (.place i value) = some na ∧
        (Doomed timeout es ((w.clockOf (.deliver i j)).setWorld
          ((w.world.setNode j n).setWire i j rest)) j → na = n.expired) ∧
        (¬ Doomed timeout es ((w.clockOf (.deliver i j)).setWorld
          ((w.world.setNode j n).setWire i j rest)) j → na = n) := by
      rw [hdoomed]
      by_cases hd : Doomed timeout (.act (.deliver i j) :: es) w j
      · refine ⟨n.expired, ?_, fun _ => rfl, fun hnot => absurd hd hnot⟩
        rw [h.doomed j hd]
        exact Node.expired_place moved
      · refine ⟨n, ?_, fun hd' => absurd hd' hd, fun _ => rfl⟩
        rw [h.others j hd, moved]
    obtain ⟨na, hplaced, hself, hself'⟩ := hna
    refine ⟨(a.setNode j na).setWire i j rest, ?_, ?_⟩
    · simp only [World.step, h.wire, queued, World.act, hplaced, Option.map_some]
    · refine h.moved hloop hself hself' (fun k _ => hdoomed k) rfl rfl h.todo ?_
      change Function.update a.wire i (Function.update (a.wire i) j rest) = _
      rw [h.wire]
      rfl
  | @lost i j value rest queued poisoned =>
    have hpoisoned : (a.node i).barrier.poisoned = true := by
      by_cases hd : Doomed timeout (.act (.lose i j) :: es) w i
      · rw [h.doomed i hd]
        exact Node.expired_poisoned poisoned
      · rw [h.others i hd]
        exact poisoned
    refine ⟨a.setWire i j rest, ?_, hloop, ?_, ?_, h.todo, ?_⟩
    · simp only [World.step, h.wire, queued, if_pos hpoisoned]
    · intro k hk
      exact h.doomed k ((hdoomed k).mp hk)
    · intro k hk
      exact h.others k (fun hd => hk ((hdoomed k).mpr hd))
    · change Function.update a.wire i (Function.update (a.wire i) j rest) = _
      rw [h.wire]
      rfl

theorem doomed_congr {k : Nat} (hpolling : w'.polling k = w.polling k)
    (helapsed : w'.elapsed k = w.elapsed k) (hnode : w'.world.node k = w.world.node k) :
    Doomed timeout es w' k ↔ Doomed timeout es w k := by
  unfold Doomed limit
  rw [hpolling, helapsed, hnode]

theorem not_doomed {i : Nat} (hi : w.polling i ≠ .checking) : ¬ Doomed timeout es w i :=
  fun hd => hi hd.1

/-- Another node looks at its clock. -/
theorem doomed_check {i k : Nat} (hk : k ≠ i) :
    Doomed timeout (.check i :: es) w k ↔ Doomed timeout es w k := by
  unfold Doomed
  rw [expires, if_neg (Ne.symm hk)]

theorem setNode_self (world : World) (i : Nat) :
    (world.setNode i (world.node i)).node = world.node := Function.update_eq_self ..

/-- The flag is set: the wait is over. -/
theorem Foresees.arrived {i p : Nat} {n : Node} (h : Foresees timeout (.poll i :: es) w a)
    (hnext : (w.world.node i).next = some (.spinPoll p)) (hloops : w.polling i ≠ .checking)
    (hs : (w.world.node i).step .advance = some n) :
    ∃ a', a.step (.advance i) = some a' ∧
      Foresees timeout es ((w.setPolling i .outside).setWorld (w.world.setNode i n)) a' := by
  have hnode := h.others i (not_doomed hloops)
  refine ⟨a.setNode i n, ?_, ?_⟩
  · rw [← hnode] at hnext hs
    exact World.step_advanced hnext (by simp) (by simp) hs
  · refine h.moved (h.loop.leave i n) (fun hd => absurd hd (not_doomed (by simp))) (fun _ => rfl)
      ?_ rfl rfl h.todo h.wire
    intro k hk
    exact doomed_congr (by simp [hk]) rfl (by simp [hk])

/-- The flag is not set. This is the last time that it is read if the clock is going to show more
than the timeout. -/
theorem Foresees.missed {i p : Nat} (h : Foresees timeout (.poll i :: es) w a)
    (hnext : (w.world.node i).next = some (.spinPoll p)) (hloops : w.polling i ≠ .checking)
    (hflag : (w.world.node i).barrier.barrier_mr.is_peer_epoch_expected p = some false)
    (hloop : LoopInv (w.setPolling i (w.polling i).missed)) :
    Foresees timeout es (w.setPolling i (w.polling i).missed) a ∨
      ∃ d a', a.step d = some a' ∧
        Foresees timeout es (w.setPolling i (w.polling i).missed) a' := by
  have hnode := h.others i (not_doomed hloops)
  have hother (k : Nat) (hk : k ≠ i) : Doomed timeout es (w.setPolling i (w.polling i).missed) k ↔
      Doomed timeout (.poll i :: es) w k := doomed_congr (by simp [hk]) rfl rfl
  have hsame := (setNode_self w.world i).symm
  by_cases hd : Doomed timeout es (w.setPolling i (w.polling i).missed) i
  · right
    have hexpire := Node.expire_eq (spinsOn_of_flag hnext hflag) hflag
    refine ⟨.expire i, a.setNode i (w.world.node i).expired, ?_, ?_⟩
    · simp only [World.step, World.act, hnode, hexpire, Option.map_some]
    · exact h.moved hloop (fun _ => rfl) (fun hnot => absurd hd hnot) hother rfl hsame h.todo h.wire
  · left
    exact h.moved hloop (fun hd' => absurd hd' hd) (fun _ => hnode) hother (setNode_self a i).symm
      hsame h.todo h.wire

theorem Foresees.expired {i : Nat} (h : Foresees timeout (.check i :: es) w a)
    (hchecking : w.polling i = .checking) (hlate : w.elapsed i > w.limit timeout i) :
    Foresees timeout es
      ((w.setPolling i .outside).setWorld (w.world.setNode i (w.world.node i).expired)) a := by
  have hdoomed : Doomed timeout (.check i :: es) w i := by
    refine ⟨hchecking, ?_⟩
    rw [expires, if_pos rfl]
    simpa using hlate
  refine h.moved (h.loop.leave i _) (fun hd => absurd hd (not_doomed (by simp)))
    (fun _ => h.doomed i hdoomed) ?_ (setNode_self a i).symm rfl h.todo h.wire
  intro k hk
  rw [doomed_check hk]
  exact doomed_congr (by simp [hk]) rfl (by simp [hk])

theorem Foresees.resumed {i : Nat} (h : Foresees timeout (.check i :: es) w a)
    (hearly : ¬ w.elapsed i > w.limit timeout i)
    (hloop : LoopInv (w.setPolling i (.looping 0))) :
    Foresees timeout es (w.setPolling i (.looping 0)) a := by
  have hgoing : ¬ Doomed timeout (.check i :: es) w i := by
    rintro ⟨_, hexpires⟩
    rw [expires, if_pos rfl, decide_eq_true_eq] at hexpires
    exact hearly hexpires
  refine h.moved hloop (fun hd => absurd hd (not_doomed (by simp))) (fun _ => h.others i hgoing) ?_
    (setNode_self a i).symm (setNode_self w.world i).symm h.todo h.wire
  intro k hk
  rw [doomed_check hk]
  exact doomed_congr (by simp [hk]) rfl rfl

theorem Foresees.ticked {i d : Nat} (h : Foresees timeout (.tick i d :: es) w a) :
    Foresees timeout es (w.setElapsed i (w.elapsed i + d)) a := by
  refine h.kept ⟨h.loop.spins, h.loop.iters⟩ rfl ?_
  intro k
  have helapsed : (w.setElapsed i (w.elapsed i + d)).elapsed k =
      if i = k then w.elapsed k + d else w.elapsed k := by
    change Function.update w.elapsed i (w.elapsed i + d) k = _
    rw [Function.update_apply]
    by_cases hk : i = k
    · simp [hk]
    · simp [hk, Ne.symm hk]
  unfold Doomed
  rw [expires, helapsed]
  rfl

/-- The loop of the code, which reads the flag and the clock one after the other, does what the
single step of a wait does. -/
theorem refines (alg : BarrierAlgorithm) (world_size : Nat) (calls : Nat → List Call)
    (timeout : Nat → Nat → Nat) : RefinesAhead (system timeout alg world_size calls)
      (World.system alg world_size calls) (Foresees timeout) where
  init es := by
    refine ⟨.start alg world_size calls, ?_, fun _ _ => rfl, rfl, rfl⟩
    rintro i ⟨hchecking, _⟩
    cases hchecking
  step w a e es w' h hs := by
    have hloop := h.loop.step hs
    cases step_spec timeout hs with
    | acted outside moved =>
      obtain ⟨a', ha, h'⟩ := h.acted outside moved
      exact Or.inr ⟨_, a', ha, h'⟩
    | arrived next flag moved loops =>
      obtain ⟨n, hn, rfl⟩ := advance_of_spin next moved
      obtain ⟨a', ha, h'⟩ := h.arrived next loops hn
      exact Or.inr ⟨.advance _, a', ha, h'⟩
    | missed next flag loops => exact h.missed next loops flag hloop
    | expired checking late => exact Or.inl (h.expired checking late)
    | resumed checking early => exact Or.inl (h.resumed early hloop)
    | ticked => exact Or.inl h.ticked

end DeadlineWorld

end IbverbsRs.Network
