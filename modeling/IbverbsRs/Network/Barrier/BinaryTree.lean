import IbverbsRs.Math.BinarySearch
import IbverbsRs.Network.Barrier.Error
import IbverbsRs.Network.Barrier.Program

namespace IbverbsRs.Network

open Framework Math SignalOp

/-- The parent in a zero-indexed binary tree, `none` for the root. -/
def parent_index (idx : Nat) : Option Nat := if idx > 0 then some ((idx - 1) / 2) else none

/-- The children that exist within a tree of `len` nodes. -/
def child_indices (idx len : Nat) : List Nat := [2 * idx + 1, 2 * idx + 2].filter (· < len)

/-- Reduce towards the root, then broadcast back: wait for the children, notify the parent,
wait for the parent, notify the children. -/
def BinaryTreeBarrier.run_barrier (rank : Nat) (peers : List Nat) :
    Except BarrierError (List BarrierOp) :=
  if peers.length < 2 then .ok []
  else
    match binary_search peers rank with
    | .error _ => .error .SelfNotInGroup
    | .ok idx =>
      let parent_rank := (parent_index idx).map (fun pi => peers.getD pi 0)
      let children_ranks := (child_indices idx peers.length).map (fun ci => peers.getD ci 0)
      .ok (children_ranks.flatMap wait_peer ++ parent_rank.toList.flatMap notify_peer ++
        parent_rank.toList.flatMap wait_peer ++ scatter_notify_peers children_ranks)

/-- The same program by position in the list. -/
def treePlan (n p : Nat) : List (SignalOp Nat) :=
  (child_indices p n).map wait ++ (parent_index p).toList.map signal ++
    ((parent_index p).toList.map wait ++ (child_indices p n).map signal)

theorem mem_child_indices {i c n : Nat} :
    c ∈ child_indices i n ↔ c < n ∧ (c = 2 * i + 1 ∨ c = 2 * i + 2) := by
  simp [child_indices, and_comm]

theorem parent_index_eq_some {i c : Nat} : parent_index c = some i ↔ 0 < c ∧ (c - 1) / 2 = i := by
  simp [parent_index]

theorem parent_index_lt {i c : Nat} (h : parent_index c = some i) : i < c := by
  obtain ⟨hc, rfl⟩ := parent_index_eq_some.mp h
  omega

theorem parent_index_zero : parent_index 0 = none := rfl

theorem parent_index_succ (c : Nat) : parent_index (c + 1) = some (c / 2) :=
  parent_index_eq_some.mpr ⟨Nat.succ_pos c, rfl⟩

/-- From the root down, every node after its parent. -/
theorem parent_induction {P : Nat → Prop} (root : P 0)
    (step : ∀ c i, parent_index c = some i → P i → P c) (c : Nat) : P c := by
  induction c using Nat.strong_induction_on with
  | _ c ih =>
    cases c with
    | zero => exact root
    | succ c =>
      have hparent := parent_index_succ c
      exact step _ _ hparent (ih _ (parent_index_lt hparent))

theorem child_indices_gt {i c n : Nat} (h : c ∈ child_indices i n) : i < c := by
  obtain ⟨_, rfl | rfl⟩ := mem_child_indices.mp h <;> omega

/-- Children and parents are inverse to each other. -/
theorem mem_child_indices_iff_parent {i c n : Nat} (hc : c < n) :
    c ∈ child_indices i n ↔ parent_index c = some i := by
  rw [mem_child_indices, parent_index_eq_some]
  omega

theorem child_indices_nodup (i n : Nat) : (child_indices i n).Nodup := by
  refine List.Nodup.filter _ ?_
  simp

private theorem mem_parents {i c : Nat} : i ∈ (parent_index c).toList ↔ parent_index c = some i := by
  simp

private theorem count_parents (c i : Nat) :
    (parent_index c).toList.count i = if parent_index c = some i then 1 else 0 := by
  cases h : parent_index c with
  | none => simp
  | some j => simp [List.count_cons]

private theorem count_children (i n c : Nat) :
    (child_indices i n).count c = if c ∈ child_indices i n then 1 else 0 := by
  split_ifs with h
  · exact List.count_eq_one_of_mem (child_indices_nodup i n) h
  · exact List.count_eq_zero_of_not_mem h

section Spreads

variable {n : Nat} {cut : Nat → List (SignalOp Nat)}

/-- Every child has been waited for. -/
private def Reduced (n : Nat) (cut : Nat → List (SignalOp Nat)) (q : Nat) : Prop :=
  ∀ c ∈ child_indices q n, wait c ∈ cut q

private def Released (n : Nat) (cut : Nat → List (SignalOp Nat)) (q : Nat) : Prop :=
  Reduced n cut q ∧ ∀ a, parent_index q = some a → wait a ∈ cut q

/-- Downwards: a node is released only by a parent that has been released itself. -/
private theorem released_parent (hcut : ConsistentCut (List.range n) (treePlan n) cut) {q a : Nat}
    (hq : q < n) (ha : parent_index q = some a) (h : Released n cut q) : Released n cut a := by
  have haq := parent_index_lt ha
  have hsig := hcut.answered a (by simp; omega) q (by simpa using hq) (h.2 a ha)
  have hpre := hcut.isPrefix a (by simp; omega)
  have hplan : treePlan n a = ((child_indices a n).map wait ++ (parent_index a).toList.map signal ++
      (parent_index a).toList.map wait) ++ (child_indices a n).map signal := by
    simp [treePlan]
  rw [hplan] at hpre
  have hnot : signal q ∉ (child_indices a n).map wait ++ (parent_index a).toList.map signal ++
      (parent_index a).toList.map wait := by
    simp only [List.mem_append, List.mem_map, reduceCtorEq, and_false, exists_false, or_false,
      false_or, signal.injEq, exists_eq_right, mem_parents]
    intro hp
    have := parent_index_lt hp
    omega
  have hall := fun y hy => mem_prefix_of_mem_append hpre hsig hnot (y := y) hy
  refine ⟨fun c hc => hall _ ?_, fun b hb => hall _ ?_⟩
  · exact List.mem_append_left _ (List.mem_append_left _ (List.mem_map_of_mem hc))
  · exact List.mem_append_right _ (List.mem_map_of_mem (mem_parents.mpr hb))

/-- Upwards: a child that has notified its parent has waited for its own children. -/
private theorem reduced_child (hcut : ConsistentCut (List.range n) (treePlan n) cut) {q c : Nat}
    (hq : q < n) (hc : c ∈ child_indices q n) (h : Reduced n cut q) :
    Reduced n cut c ∧ cut c ≠ [] := by
  have hcn := (mem_child_indices.mp hc).1
  have hsig := hcut.answered c (by simpa using hcn) q (by simpa using hq) (h c hc)
  refine ⟨fun d hd => ?_, List.ne_nil_of_mem hsig⟩
  have hpre := hcut.isPrefix c (by simpa using hcn)
  rw [treePlan, List.append_assoc] at hpre
  exact mem_prefix_of_mem_append hpre hsig (by simp) (List.mem_map_of_mem hd)

private theorem released_root (hcut : ConsistentCut (List.range n) (treePlan n) cut) (q : Nat)
    (hq : q < n) (h : Released n cut q) : Released n cut 0 := by
  induction q using parent_induction with
  | root => exact h
  | step q a ha ih =>
    have haq := parent_index_lt ha
    exact ih (by omega) (released_parent hcut hq ha h)

private theorem reduced_all (hcut : ConsistentCut (List.range n) (treePlan n) cut)
    (hroot : Reduced n cut 0) (q : Nat) (hq : q < n) : Reduced n cut q := by
  induction q using parent_induction with
  | root => exact hroot
  | step q a ha ih =>
    have haq := parent_index_lt ha
    have hc := (mem_child_indices_iff_parent hq).mpr ha
    exact (reduced_child hcut (by omega) hc (ih (by omega))).1

private theorem treePlan_spreads (hcut : ConsistentCut (List.range n) (treePlan n) cut) {p : Nat}
    (hp : p < n) (hfull : cut p = treePlan n p) {q : Nat} (hq : q < n) (hne : q ≠ p) :
    cut q ≠ [] := by
  have hreleased : Released n cut p := by
    refine ⟨fun c hc => ?_, fun a ha => ?_⟩
    · rw [hfull]
      exact List.mem_append_left _ (List.mem_append_left _ (List.mem_map_of_mem hc))
    · rw [hfull]
      exact List.mem_append_right _ (List.mem_append_left _
        (List.mem_map_of_mem (mem_parents.mpr ha)))
  have hroot := (released_root hcut p hp hreleased).1
  cases q with
  | zero => exact List.ne_nil_of_mem (hroot 1 (mem_child_indices.mpr ⟨by omega, Or.inl rfl⟩))
  | succ q =>
    have ha := parent_index_succ q
    have haq := parent_index_lt ha
    have hc := (mem_child_indices_iff_parent hq).mpr ha
    exact (reduced_child hcut (by omega) hc (reduced_all hcut hroot _ (by omega))).2

end Spreads

section Clock

/-- The reduction runs from deep to shallow positions, the broadcast back from shallow to
deep ones. -/
private def treeClock (n p a : Nat) : Nat :=
  let c := (child_indices p n).length
  let u := (parent_index p).toList.length
  if a < c then 2 * (n - p)
  else if a < c + u then 2 * (n - p) + 1
  else if a < c + 2 * u then 2 * n + 2 * p
  else 2 * n + 2 * p + 1

private theorem fourPhases_signal {A B : List Nat} {a q : Nat}
    (h : (A.map wait ++ B.map signal ++ (B.map wait ++ A.map signal))[a]? = some (signal q)) :
    (A.length ≤ a ∧ a < A.length + B.length ∧ q ∈ B) ∨
      (A.length + 2 * B.length ≤ a ∧ q ∈ A) := by
  simp only [List.getElem?_append, List.length_append, List.length_map] at h
  split_ifs at h with h₁ h₂ h₃
  · simpa using List.mem_of_getElem? h
  · exact Or.inl ⟨by omega, h₁, by simpa using List.mem_of_getElem? h⟩
  · simpa using List.mem_of_getElem? h
  · exact Or.inr ⟨by omega, by simpa using List.mem_of_getElem? h⟩

private theorem fourPhases_wait {A B : List Nat} {a q : Nat}
    (h : (A.map wait ++ B.map signal ++ (B.map wait ++ A.map signal))[a]? = some (wait q)) :
    (a < A.length ∧ q ∈ A) ∨
      (A.length + B.length ≤ a ∧ a < A.length + 2 * B.length ∧ q ∈ B) := by
  simp only [List.getElem?_append, List.length_append, List.length_map] at h
  split_ifs at h with h₁ h₂ h₃
  · exact Or.inl ⟨h₂, by simpa using List.mem_of_getElem? h⟩
  · simpa using List.mem_of_getElem? h
  · exact Or.inr ⟨by omega, by omega, by simpa using List.mem_of_getElem? h⟩
  · simpa using List.mem_of_getElem? h

private theorem treeClock_mono (n p : Nat) {a b : Nat} (hab : a ≤ b) :
    treeClock n p a ≤ treeClock n p b := by
  have hu : (parent_index p).toList.length = if 0 < p then 1 else 0 := by
    unfold parent_index
    split_ifs <;> simp_all
  simp only [treeClock]
  rw [hu]
  split_ifs <;> omega

private theorem treeClock_matched {n p q a b : Nat} (hp : p < n) (hq : q < n)
    (ha : (treePlan n p)[a]? = some (signal q)) (hb : (treePlan n q)[b]? = some (wait p)) :
    treeClock n p a < treeClock n q b := by
  rcases fourPhases_signal ha with ⟨h₁, h₂, hpq⟩ | ⟨h₁, hpq⟩ <;>
    rcases fourPhases_wait hb with ⟨h₃, hqp⟩ | ⟨h₃, h₄, hqp⟩
  · have hlt := parent_index_lt (mem_parents.mp hpq)
    simp only [treeClock, if_pos h₃,
      if_neg (show ¬ a < (child_indices p n).length by omega), if_pos h₂]
    omega
  · have h₅ := parent_index_lt (mem_parents.mp hpq)
    have h₆ := parent_index_lt (mem_parents.mp hqp)
    omega
  · have h₅ := child_indices_gt hpq
    have h₆ := child_indices_gt hqp
    omega
  · have hlt := child_indices_gt hpq
    simp only [treeClock, if_neg (show ¬ a < (child_indices p n).length by omega),
      if_neg (show ¬ a < (child_indices p n).length + (parent_index p).toList.length by omega),
      if_neg (show ¬ a < (child_indices p n).length + 2 * (parent_index p).toList.length by omega),
      if_neg (show ¬ b < (child_indices q n).length by omega),
      if_neg (show ¬ b < (child_indices q n).length + (parent_index q).toList.length by omega),
      if_pos h₄]
    omega

end Clock

private theorem treePlan_count_signal (n p q : Nat) : (treePlan n p).count (signal q) =
    (if parent_index p = some q then 1 else 0) + (if q ∈ child_indices p n then 1 else 0) := by
  simp only [treePlan, List.count_append, count_signal_map_wait, count_map_signal, count_parents,
    count_children]
  omega

private theorem treePlan_count_wait (n p q : Nat) : (treePlan n p).count (wait q) =
    (if q ∈ child_indices p n then 1 else 0) + (if parent_index p = some q then 1 else 0) := by
  simp only [treePlan, List.count_append, count_wait_map_signal, count_map_wait, count_parents,
    count_children]
  omega

theorem treePlan_discipline (n : Nat) : Discipline (List.range n) (treePlan n) := by
  refine ⟨?_, ?_, ?_, ?_, treeClock n, fun p a b hab => treeClock_mono n p hab, ?_⟩
  · intro p hp op hop
    rw [List.mem_range] at hp ⊢
    have hcase : op.peer ∈ child_indices p n ∨ parent_index p = some op.peer := by
      simp only [treePlan, List.mem_append, List.mem_map, mem_parents] at hop
      rcases hop with (⟨c, hc, rfl⟩ | ⟨a, ha, rfl⟩) | ⟨a, ha, rfl⟩ | ⟨c, hc, rfl⟩
      · exact Or.inl hc
      · exact Or.inr ha
      · exact Or.inr ha
      · exact Or.inl hc
    rcases hcase with hc | ha
    · have := child_indices_gt hc
      exact ⟨(mem_child_indices.mp hc).1, by omega⟩
    · have := parent_index_lt ha
      exact ⟨by omega, by omega⟩
  · intro p hp q hq
    rw [List.mem_range] at hp hq
    rw [treePlan_count_signal, treePlan_count_wait]
    congr 1
    · simp only [mem_child_indices_iff_parent hp]
    · simp only [mem_child_indices_iff_parent hq]
  · intro p _ q
    rw [treePlan_count_signal]
    split_ifs with h₁ h₂
    · have := parent_index_lt h₁
      have := child_indices_gt h₂
      omega
    all_goals omega
  · intro cut hcut p hp hfull q hq hne
    exact treePlan_spreads hcut (List.mem_range.mp hp) hfull (List.mem_range.mp hq) hne
  · intro p hp q hq a b ha hb
    exact treeClock_matched (List.mem_range.mp hp) (List.mem_range.mp hq) ha hb

/-- On a strictly ascending list the code runs the plan of its position. -/
theorem BinaryTreeBarrier.run_barrier_spec {G : List Nat} (hs : G.Pairwise (· < ·)) {p : Nat}
    (hp : p < G.length) : ∃ ops, BinaryTreeBarrier.run_barrier G[p] G = .ok ops ∧ Blocks ops ∧
      signals ops = (treePlan G.length p).map (SignalOp.map (fun q => G.getD q 0)) := by
  by_cases hn : G.length < 2
  · obtain rfl : p = 0 := by omega
    have hnil : child_indices 0 G.length = [] := by
      rw [List.eq_nil_iff_forall_not_mem]
      intro c hc
      have := mem_child_indices.mp hc
      omega
    exact ⟨[], if_pos hn, .nil, by simp [treePlan, hnil, parent_index]⟩
  · have hidx := binary_search_eq_ok hs (List.getElem?_eq_getElem hp)
    have hnodup : ((child_indices p G.length).map (fun ci => G.getD ci 0)).Nodup := by
      refine List.Nodup.map_on ?_ (child_indices_nodup p G.length)
      intro x hx y hy hxy
      have hxl := (mem_child_indices.mp hx).1
      have hyl := (mem_child_indices.mp hy).1
      simp only [List.getD_eq_getElem?_getD, List.getElem?_eq_getElem hxl,
        List.getElem?_eq_getElem hyl, Option.getD_some] at hxy
      exact (List.Nodup.getElem_inj_iff (hs.imp ne_of_lt)).mp hxy
    refine ⟨_, by rw [BinaryTreeBarrier.run_barrier, if_neg hn, hidx], ?_, ?_⟩
    · exact (((Blocks.flatMap fun q _ => .wait_peer q).append
        (Blocks.flatMap fun q _ => .notify_peer q)).append
        (Blocks.flatMap fun q _ => .wait_peer q)).append (.scatter_notify_peers hnodup)
    · simp only [signals_append, signals_flatMap, signals_wait_peer, signals_notify_peer,
        signals_scatter, ← List.map_eq_flatMap, treePlan]
      cases parent_index p <;> simp [Function.comp_def]

end IbverbsRs.Network
