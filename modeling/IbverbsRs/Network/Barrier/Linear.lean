import IbverbsRs.Network.Barrier.Error
import IbverbsRs.Network.Barrier.Program

namespace IbverbsRs.Network

open Framework SignalOp

/-- The leader waits for every follower and then notifies all of them at once; a follower
notifies the leader and waits for it. Lists of fewer than two ranks return at once. -/
def LinearBarrier.run_barrier (rank : Nat) (peers : List Nat) :
    Except BarrierError (List BarrierOp) :=
  match peers with
  | leader :: second :: rest =>
    let followers := second :: rest
    if rank = leader then
      .ok (followers.flatMap wait_peer ++ scatter_notify_peers followers)
    else
      .ok (notify_peer leader ++ wait_peer leader)
  | _ => .ok []

/-- The same program by position in the list. -/
def linearPlan (n p : Nat) : List (SignalOp Nat) :=
  if n < 2 then []
  else if p = 0 then
    (List.range' 1 (n - 1)).map wait ++ (List.range' 1 (n - 1)).map signal
  else [signal 0, wait 0]

private theorem mem_range'_one {n q : Nat} : q ∈ List.range' 1 (n - 1) ↔ 0 < q ∧ q < n := by
  rw [List.mem_range'_1]
  omega

private theorem count_range'_one (n q : Nat) :
    (List.range' 1 (n - 1)).count q = if 0 < q ∧ q < n then 1 else 0 := by
  split_ifs with h
  · exact List.count_eq_one_of_mem List.nodup_range' (mem_range'_one.mpr h)
  · exact List.count_eq_zero_of_not_mem (fun hq => h (mem_range'_one.mp hq))

private theorem linearPlan_follower {n p : Nat} (hn : 2 ≤ n) (hp : 0 < p) :
    linearPlan n p = [signal 0, wait 0] := by
  rw [linearPlan, if_neg (by omega), if_neg (by omega)]

private theorem linearPlan_leader {n : Nat} (hn : 2 ≤ n) : linearPlan n 0 =
    (List.range' 1 (n - 1)).map wait ++ (List.range' 1 (n - 1)).map signal := by
  rw [linearPlan, if_neg (by omega), if_pos rfl]

/-- A finished leader or follower has heard from everybody: the leader notifies nobody
before it has waited for all followers. -/
private theorem linearPlan_spreads {n : Nat} {cut : Nat → List (SignalOp Nat)} (hn : 2 ≤ n)
    (hcut : ConsistentCut (List.range n) (linearPlan n) cut) {p : Nat} (hp : p < n)
    (hfull : cut p = linearPlan n p) {q : Nat} (hq : q < n) (hne : q ≠ p) : cut q ≠ [] := by
  have hleader : ∀ r, 0 < r → r < n → wait r ∈ cut 0 := by
    intro r hr hrn
    have hmem : wait r ∈ (List.range' 1 (n - 1)).map (wait : Nat → SignalOp Nat) :=
      List.mem_map_of_mem (mem_range'_one.mpr ⟨hr, hrn⟩)
    rcases Nat.eq_zero_or_pos p with rfl | hpos
    · rw [hfull, linearPlan_leader hn]
      exact List.mem_append_left _ hmem
    · have hwait : wait 0 ∈ cut p := by rw [hfull, linearPlan_follower hn hpos]; simp
      have hsig := hcut.answered 0 (by simp; omega) p (by simpa using hp) hwait
      have hpre := hcut.isPrefix 0 (by simp; omega)
      rw [linearPlan_leader hn] at hpre
      exact mem_prefix_of_mem_append hpre hsig (by simp) hmem
  rcases Nat.eq_zero_or_pos q with rfl | hqpos
  · exact List.ne_nil_of_mem (hleader p (by omega) hp)
  · exact List.ne_nil_of_mem (hcut.answered q (by simpa using hq) 0 (by simp; omega)
      (hleader q hqpos hq))

/-- Followers notify, then the leader waits, then it notifies, then the followers wait. -/
private def linearClock (n p a : Nat) : Nat :=
  if p = 0 then (if a < n - 1 then 1 else 2) else (if a = 0 then 0 else 3)

private theorem linearClock_matched {n p q a b : Nat} (hn : 2 ≤ n)
    (ha : (linearPlan n p)[a]? = some (signal q)) (hb : (linearPlan n q)[b]? = some (wait p))
    (hpq : p ≠ q) : linearClock n p a < linearClock n q b := by
  rcases Nat.eq_zero_or_pos p with rfl | hp
  · have hq : 0 < q := by omega
    rw [linearPlan_follower hn hq] at hb
    have hb1 : b = 1 := by
      rcases b with _ | _ | b <;> simp at hb ⊢
    have hq0 : q ≠ 0 := by omega
    simp only [linearClock, if_true, hb1, if_neg hq0, Nat.one_ne_zero, if_false]
    split_ifs <;> omega
  · rw [linearPlan_follower hn hp] at ha
    have ha0 : a = 0 := by
      rcases a with _ | _ | a <;> simp at ha ⊢
    obtain rfl : q = 0 := by
      subst ha0
      simpa using ha.symm
    rw [linearPlan_leader hn] at hb
    have hlt : b < n - 1 := by
      by_contra hge
      rw [List.getElem?_append_right (by simpa using hge)] at hb
      simpa using List.mem_of_getElem? hb
    have hp0 : p ≠ 0 := by omega
    simp [linearClock, hp0, ha0, hlt]

theorem linearPlan_discipline (n : Nat) : Discipline (List.range n) (linearPlan n) := by
  rcases Nat.lt_or_ge n 2 with hn | hn
  · have hnil : ∀ p, linearPlan n p = [] := fun p => by rw [linearPlan, if_pos hn]
    refine ⟨by simp [hnil], by simp [hnil], by simp [hnil], ?_, ⟨fun _ _ => 0, by simp, by
      simp [hnil]⟩⟩
    intro cut _ p hp _ q hq hne
    rw [List.mem_range] at hp hq
    omega
  refine ⟨?_, ?_, ?_, ?_, linearClock n, ?_, ?_⟩
  · intro p hp op hop
    rw [List.mem_range] at hp ⊢
    rcases Nat.eq_zero_or_pos p with rfl | hpos
    · rw [linearPlan_leader hn] at hop
      rcases List.mem_append.mp hop with h | h
      · obtain ⟨q, hq, rfl⟩ := List.mem_map.mp h
        have := mem_range'_one.mp hq
        exact ⟨this.2, by simp only [SignalOp.peer]; omega⟩
      · obtain ⟨q, hq, rfl⟩ := List.mem_map.mp h
        have := mem_range'_one.mp hq
        exact ⟨this.2, by simp only [SignalOp.peer]; omega⟩
    · rw [linearPlan_follower hn hpos] at hop
      have h0 : op.peer = 0 := by
        simp only [List.mem_cons, List.not_mem_nil, or_false] at hop
        rcases hop with rfl | rfl <;> rfl
      omega
  · intro p hp q hq
    rw [List.mem_range] at hp hq
    rcases Nat.eq_zero_or_pos p with rfl | hpos <;> rcases Nat.eq_zero_or_pos q with rfl | hqpos
    · simp [linearPlan_leader hn, count_map_signal, count_map_wait, count_signal_map_wait,
        count_wait_map_signal]
    · simp only [linearPlan_leader hn, linearPlan_follower hn hqpos, List.count_append,
        count_map_signal, count_signal_map_wait, count_range'_one, if_pos (And.intro hqpos hq)]
      simp
    · simp only [linearPlan_leader hn, linearPlan_follower hn hpos, List.count_append,
        count_map_wait, count_wait_map_signal, count_range'_one, if_pos (And.intro hpos hp)]
      simp
    · have hp0 : p ≠ 0 := by omega
      have hq0 : q ≠ 0 := by omega
      simp [linearPlan_follower hn hpos, linearPlan_follower hn hqpos, Ne.symm hp0, Ne.symm hq0]
  · intro p hp q
    rcases Nat.eq_zero_or_pos p with rfl | hpos
    · simp only [linearPlan_leader hn, List.count_append, count_signal_map_wait,
        count_map_signal, count_range'_one]
      split_ifs <;> omega
    · simp only [linearPlan_follower hn hpos, List.count_cons, List.count_nil]
      split_ifs <;> simp_all
  · intro cut hcut p hp hfull q hq hne
    exact linearPlan_spreads hn hcut (List.mem_range.mp hp) hfull (List.mem_range.mp hq) hne
  · intro p a b hab
    simp only [linearClock]
    split_ifs <;> omega
  · intro p hp q hq a b ha hb
    refine linearClock_matched hn ha hb ?_
    rintro rfl
    rcases Nat.eq_zero_or_pos p with rfl | hpos
    · have := List.mem_of_getElem? ha
      rw [linearPlan_leader hn] at this
      simp at this
    · have := List.mem_of_getElem? ha
      rw [linearPlan_follower hn hpos] at this
      simp at this
      omega

private theorem tail_eq_map_getD (leader : Nat) (followers : List Nat) :
    followers = (List.range' 1 followers.length).map (fun q => (leader :: followers).getD q 0) := by
  refine List.ext_getElem (by simp) (fun k hk _ => ?_)
  simp [List.getD_eq_getElem?_getD, Nat.add_comm 1 k, List.getElem?_eq_getElem hk]

/-- On a strictly ascending list the code runs the plan of its position. -/
theorem LinearBarrier.run_barrier_spec {G : List Nat} (hs : G.Pairwise (· < ·)) {p : Nat}
    (hp : p < G.length) : ∃ ops, LinearBarrier.run_barrier G[p] G = .ok ops ∧ Blocks ops ∧
      signals ops = (linearPlan G.length p).map (SignalOp.map (fun q => G.getD q 0)) := by
  match G, hs, hp with
  | [a], _, _ => exact ⟨[], rfl, .nil, by simp [linearPlan]⟩
  | leader :: second :: rest, hs, hp =>
    have hnodup : (second :: rest).Nodup := ((List.pairwise_cons.mp hs).2).imp ne_of_lt
    have hmem := (List.pairwise_cons.mp hs).1
    have htail := tail_eq_map_getD leader (second :: rest)
    cases p with
    | zero =>
      refine ⟨_, if_pos rfl, (Blocks.flatMap fun q _ => .wait_peer q).append
        (.scatter_notify_peers hnodup), ?_⟩
      have hwaits : (second :: rest).flatMap (fun q => signals (wait_peer q)) =
          (second :: rest).map wait := by
        simp only [signals_wait_peer, List.map_eq_flatMap]
      rw [signals_append, signals_flatMap, hwaits, signals_scatter, linearPlan_leader (by simp)]
      conv_lhs => rw [htail]
      simp [Function.comp_def]
    | succ k =>
      have hk : k < (second :: rest).length := by simpa using hp
      have hlt := hmem _ (List.getElem_mem hk)
      have hne : (leader :: second :: rest)[k + 1] ≠ leader := by
        rw [List.getElem_cons_succ]
        omega
      refine ⟨_, if_neg hne, (Blocks.notify_peer leader).append (.wait_peer leader), ?_⟩
      rw [linearPlan_follower (by simp) (by omega)]
      simp

end IbverbsRs.Network
