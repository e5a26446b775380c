import IbverbsRs.Framework.Signalling
import IbverbsRs.Network.Barrier.Memory

namespace IbverbsRs.Network

open Framework SignalOp

/-- The synchronization content of an operation: raising the outgoing counter is the signal,
passing the spin loop is the wait. -/
def BarrierOp.toSignal : BarrierOp → Option (SignalOp Nat)
  | .increaseOut peer => some (signal peer)
  | .spinPoll peer => some (wait peer)
  | _ => none

def signals (ops : List BarrierOp) : List (SignalOp Nat) := ops.filterMap BarrierOp.toSignal

@[simp] theorem signals_nil : signals [] = [] := rfl

@[simp] theorem signals_append (xs ys : List BarrierOp) :
    signals (xs ++ ys) = signals xs ++ signals ys := List.filterMap_append ..

@[simp] theorem signals_wait_peer (p : Nat) : signals (wait_peer p) = [wait p] := rfl

@[simp] theorem signals_notify_peer (p : Nat) : signals (notify_peer p) = [signal p] := rfl

@[simp] theorem signals_scatter (ps : List Nat) :
    signals (scatter_notify_peers ps) = ps.map signal := by
  simp [signals, scatter_notify_peers, List.filterMap_map, Function.comp_def,
    BarrierOp.toSignal]

theorem signals_flatMap {α : Type} (xs : List α) (f : α → List BarrierOp) :
    signals (xs.flatMap f) = xs.flatMap (fun x => signals (f x)) := by
  induction xs with
  | nil => rfl
  | cons x xs ih => simp [List.flatMap_cons, ih]

/-- Counting the one operation that has this synchronization content. -/
theorem count_signals {s : SignalOp Nat} {b : BarrierOp} (h : ∀ op, op.toSignal = some s ↔ op = b)
    (ops : List BarrierOp) : (signals ops).count s = ops.count b := by
  rw [signals, List.count_filterMap, List.count_eq_countP]
  apply List.countP_congr
  intro op _
  rw [beq_iff_eq, beq_iff_eq]
  exact h op

theorem count_signals_signal (ops : List BarrierOp) (p : Nat) :
    (signals ops).count (signal p) = ops.count (.increaseOut p) := by
  apply count_signals
  intro op
  cases op <;> simp [BarrierOp.toSignal]

theorem count_signals_wait (ops : List BarrierOp) (p : Nat) :
    (signals ops).count (wait p) = ops.count (.spinPoll p) := by
  apply count_signals
  intro op
  cases op <;> simp [BarrierOp.toSignal]

/-- Programs composed of whole notifications and whole waits. -/
inductive Blocks : List BarrierOp → Prop
  | nil : Blocks []
  | wait (p : Nat) {rest : List BarrierOp} : Blocks rest → Blocks (wait_peer p ++ rest)
  | scatter {ps : List Nat} {rest : List BarrierOp} :
      ps.Nodup → Blocks rest → Blocks (scatter_notify_peers ps ++ rest)

namespace Blocks

theorem append {xs ys : List BarrierOp} (hx : Blocks xs) (hy : Blocks ys) :
    Blocks (xs ++ ys) := by
  induction hx with
  | nil => exact hy
  | wait p _ ih =>
    rw [List.append_assoc]
    exact .wait p ih
  | scatter hps _ ih =>
    rw [List.append_assoc]
    exact .scatter hps ih

theorem wait_peer (p : Nat) : Blocks (wait_peer p) := .wait p .nil

theorem scatter_notify_peers {ps : List Nat} (hps : ps.Nodup) :
    Blocks (scatter_notify_peers ps) := by
  simpa using Blocks.scatter hps .nil

theorem notify_peer (p : Nat) : Blocks (notify_peer p) :=
  scatter_notify_peers (List.nodup_singleton p)

theorem flatMap {α : Type} {xs : List α} {f : α → List BarrierOp}
    (h : ∀ x ∈ xs, Blocks (f x)) : Blocks (xs.flatMap f) := by
  induction xs with
  | nil => exact .nil
  | cons x xs ih =>
    rw [List.flatMap_cons]
    exact (h x (by simp)).append (ih (fun y hy => h y (by simp [hy])))

end Blocks

/-- No notification and no wait is half done. -/
def Settled (ops : List BarrierOp) : Prop :=
  ∀ p, ops.count (.postWrite p) = ops.count (.increaseOut p) ∧
    ops.count (.awaitWrite p) = ops.count (.increaseOut p) ∧
    ops.count (.increaseExpected p) = ops.count (.spinPoll p)

/-- How far the notifications and waits of a peer have got when an operation on it is next;
a spin moreover never starts while a notification is half done. -/
def Pace (done : List BarrierOp) : BarrierOp → Prop
  | .increaseOut p => done.count (.postWrite p) = done.count (.increaseOut p) ∧
      done.count (.awaitWrite p) = done.count (.increaseOut p)
  | .postWrite p => done.count (.postWrite p) + 1 = done.count (.increaseOut p) ∧
      done.count (.awaitWrite p) + 1 = done.count (.increaseOut p)
  | .awaitWrite p => done.count (.postWrite p) = done.count (.increaseOut p) ∧
      done.count (.awaitWrite p) + 1 = done.count (.increaseOut p)
  | .increaseExpected p => done.count (.increaseExpected p) = done.count (.spinPoll p)
  | .spinPoll p => done.count (.increaseExpected p) = done.count (.spinPoll p) + 1 ∧
      ∀ q, done.count (.postWrite q) = done.count (.increaseOut q) ∧
        done.count (.awaitWrite q) = done.count (.increaseOut q)

theorem Settled.append {xs ys : List BarrierOp} (hx : Settled xs) (hy : Settled ys) :
    Settled (xs ++ ys) := by
  intro p
  have h₁ := hx p
  have h₂ := hy p
  simp only [List.count_append]
  omega

theorem Pace.prepend {xs ys : List BarrierOp} {op : BarrierOp} (hx : Settled xs)
    (hy : Pace ys op) : Pace (xs ++ ys) op := by
  cases op with
  | spinPoll p =>
    refine ⟨?_, fun q => ?_⟩
    · have h₁ := hx p
      have h₂ := hy.1
      simp only [List.count_append]
      omega
    · have h₁ := hx q
      have h₂ := hy.2 q
      simp only [List.count_append]
      omega
  | increaseOut p | postWrite p | awaitWrite p | increaseExpected p =>
    have h₁ := hx p
    simp only [Pace, List.count_append] at hy ⊢
    omega

theorem settled_wait_peer (p : Nat) : Settled (wait_peer p) := by
  intro q
  simp [wait_peer, List.count_cons]

private theorem count_map_op (c : Nat → BarrierOp) (hc : Function.Injective c) (ps : List Nat)
    (p : Nat) : (ps.map c).count (c p) = ps.count p := List.count_map_of_injective ps c hc p

private theorem count_map_other {c d : Nat → BarrierOp} (h : ∀ a b, c a ≠ d b) (ps : List Nat)
    (p : Nat) : (ps.map c).count (d p) = 0 :=
  List.count_eq_zero_of_not_mem (by
    intro hm
    obtain ⟨a, _, ha⟩ := List.mem_map.mp hm
    exact h a p ha)

private theorem increaseOut_injective : Function.Injective BarrierOp.increaseOut :=
  fun _ _ h => BarrierOp.increaseOut.inj h

private theorem postWrite_injective : Function.Injective BarrierOp.postWrite :=
  fun _ _ h => BarrierOp.postWrite.inj h

private theorem awaitWrite_injective : Function.Injective BarrierOp.awaitWrite :=
  fun _ _ h => BarrierOp.awaitWrite.inj h

theorem settled_scatter (ps : List Nat) : Settled (scatter_notify_peers ps) := by
  intro q
  simp [scatter_notify_peers, count_map_op _ increaseOut_injective,
    count_map_op _ postWrite_injective, count_map_op _ awaitWrite_injective, count_map_other]

theorem Blocks.settled {ops : List BarrierOp} (h : Blocks ops) : Settled ops := by
  induction h with
  | nil => exact fun _ => ⟨rfl, rfl, rfl⟩
  | wait p _ ih => exact (settled_wait_peer p).append ih
  | scatter _ _ ih => exact (settled_scatter _).append ih

/-- Every operation belongs to a signal or to a wait on the same peer. -/
theorem Settled.exists_signal {ops : List BarrierOp} (h : Settled ops) {op : BarrierOp}
    (hop : op ∈ ops) : ∃ s ∈ signals ops, s.peer = op.peer := by
  have hpos := List.count_pos_iff.mpr hop
  have hsettled := h op.peer
  have hsignal (h : 0 < ops.count (.increaseOut op.peer)) :
      ∃ s ∈ signals ops, s.peer = op.peer := by
    rw [← count_signals_signal] at h
    exact ⟨_, List.count_pos_iff.mp h, rfl⟩
  have hwait (h : 0 < ops.count (.spinPoll op.peer)) : ∃ s ∈ signals ops, s.peer = op.peer := by
    rw [← count_signals_wait] at h
    exact ⟨_, List.count_pos_iff.mp h, rfl⟩
  cases op with
  | increaseOut p => exact hsignal hpos
  | postWrite p => exact hsignal (hsettled.1 ▸ hpos)
  | awaitWrite p => exact hsignal (hsettled.2.1 ▸ hpos)
  | increaseExpected p => exact hwait (hsettled.2.2 ▸ hpos)
  | spinPoll p => exact hwait hpos

theorem peer_of_signal {ops : List BarrierOp} {s : SignalOp Nat} (h : s ∈ signals ops) :
    ∃ op ∈ ops, op.peer = s.peer := by
  obtain ⟨op, hop, hs⟩ := List.mem_filterMap.mp h
  refine ⟨op, hop, ?_⟩
  cases op with
  | increaseOut p | spinPoll p =>
    obtain rfl := Option.some.inj hs
    rfl
  | postWrite p | awaitWrite p | increaseExpected p => cases hs

theorem pace_wait_peer {p : Nat} {done rest : List BarrierOp} {op : BarrierOp}
    (h : wait_peer p = done ++ op :: rest) : Pace done op := by
  rcases List.append_eq_cons_iff.mp h.symm with ⟨rfl, hcons⟩ | ⟨done', rfl, hcons⟩
  · obtain ⟨rfl, _⟩ := List.cons.inj hcons
    simp [Pace]
  · rcases List.append_eq_cons_iff.mp hcons.symm with ⟨rfl, hcons'⟩ | ⟨_, rfl, hcons'⟩
    · obtain ⟨rfl, _⟩ := List.cons.inj hcons'
      simp [Pace]
    · simp at hcons'

private theorem split_map {c : Nat → BarrierOp} {ps : List Nat} {done rest : List BarrierOp}
    {op : BarrierOp} (h : ps.map c = done ++ op :: rest) :
    ∃ xs p ys, ps = xs ++ p :: ys ∧ done = xs.map c ∧ op = c p := by
  obtain ⟨xs, zs, rfl, rfl, hzs⟩ := List.map_eq_append_iff.mp h
  obtain ⟨p, ys, rfl, rfl, _⟩ := List.map_eq_cons_iff.mp hzs
  exact ⟨xs, p, ys, rfl, rfl, rfl⟩

/-- In a scatter every counter is raised before the first write is posted, and every write
is posted before the first completion is awaited. -/
theorem pace_scatter {ps : List Nat} (hps : ps.Nodup) {done rest : List BarrierOp}
    {op : BarrierOp} (h : scatter_notify_peers ps = done ++ op :: rest) : Pace done op := by
  have hfresh {xs ys : List Nat} {p : Nat} (he : ps = xs ++ p :: ys) : xs.count p = 0 ∧
      ps.count p = 1 := by
    have hn := hps
    rw [he, List.nodup_append] at hn
    refine ⟨List.count_eq_zero_of_not_mem (fun hp => hn.2.2 p hp p (by simp) rfl), ?_⟩
    exact List.count_eq_one_of_mem hps (by simp [he])
  unfold scatter_notify_peers at h
  rcases List.append_eq_append_iff.mp h with ⟨d, hd, hr⟩ | ⟨d, hd, hr⟩
  · -- the awaiting phase
    obtain ⟨xs, p, ys, he, rfl, rfl⟩ := split_map hr
    obtain ⟨h0, h1⟩ := hfresh he
    subst hd
    simp [Pace, count_map_op _ increaseOut_injective, count_map_op _ postWrite_injective,
      count_map_op _ awaitWrite_injective, count_map_other, h0, h1]
  cases d with
  | nil =>
    rw [List.nil_append] at hr
    obtain ⟨xs, p, ys, he, hxs, rfl⟩ := split_map (hr.symm.trans (List.nil_append _).symm)
    obtain rfl : xs = [] := by simpa using hxs.symm
    obtain ⟨h0, h1⟩ := hfresh he
    rw [List.append_nil] at hd
    subst hd
    simp [Pace, count_map_op _ increaseOut_injective, count_map_op _ postWrite_injective,
      count_map_other, h1]
  | cons x d =>
    obtain ⟨rfl, _⟩ := List.cons.inj hr
    rcases List.append_eq_append_iff.mp hd with ⟨d', hd', hr'⟩ | ⟨d', hd', hr'⟩
    · -- the posting phase
      obtain ⟨xs, p, ys, he, rfl, rfl⟩ := split_map hr'
      obtain ⟨h0, h1⟩ := hfresh he
      subst hd'
      simp [Pace, count_map_op _ increaseOut_injective, count_map_op _ postWrite_injective,
        count_map_other, h0, h1]
    cases d' with
    | nil =>
      rw [List.nil_append] at hr'
      obtain ⟨xs, p, ys, he, hxs, rfl⟩ := split_map (hr'.symm.trans (List.nil_append _).symm)
      obtain rfl : xs = [] := by simpa using hxs.symm
      obtain ⟨h0, h1⟩ := hfresh he
      rw [List.append_nil] at hd'
      subst hd'
      simp [Pace, count_map_op _ increaseOut_injective, count_map_other, h1]
    | cons y d' =>
      obtain ⟨rfl, _⟩ := List.cons.inj hr'
      obtain ⟨xs, p, ys, he, rfl, rfl⟩ := split_map hd'
      obtain ⟨h0, _⟩ := hfresh he
      simp [Pace, count_map_op _ increaseOut_injective, count_map_other, h0]

/-- Wherever a program of whole blocks is cut, the operation that comes next is in step. -/
theorem Blocks.pace {ops : List BarrierOp} (h : Blocks ops) {done rest : List BarrierOp}
    {op : BarrierOp} (he : ops = done ++ op :: rest) : Pace done op := by
  have hcut {block more : List BarrierOp} (hb : Settled block)
      (hblock : ∀ {d r}, block = d ++ op :: r → Pace d op)
      (hmore : ∀ {d r}, more = d ++ op :: r → Pace d op)
      {d r : List BarrierOp} (hdr : block ++ more = d ++ op :: r) : Pace d op := by
    rcases List.append_eq_append_iff.mp hdr with ⟨t, rfl, ht⟩ | ⟨t, ht, htr⟩
    · exact Pace.prepend hb (hmore ht)
    · cases t with
      | nil =>
        rw [List.append_nil] at ht
        subst ht
        simpa using Pace.prepend hb (hmore (d := []) htr.symm)
      | cons x t =>
        obtain ⟨rfl, _⟩ := List.cons.inj htr
        exact hblock ht
  induction h generalizing done rest with
  | nil => simp at he
  | wait p _ ih =>
    exact hcut (settled_wait_peer p) (fun h => pace_wait_peer h) (fun h => ih h) he
  | scatter hps _ ih =>
    exact hcut (settled_scatter _) (fun h => pace_scatter hps h) (fun h => ih h) he

end IbverbsRs.Network
