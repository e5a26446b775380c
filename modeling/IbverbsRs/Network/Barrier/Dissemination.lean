import IbverbsRs.Math.BinarySearch
import IbverbsRs.Network.Barrier.Error
import IbverbsRs.Network.Barrier.Program
import Mathlib.Data.Nat.Log

namespace IbverbsRs.Network

open Framework Math SignalOp

/-- `successors(Some(1), |d| d.checked_mul(2)).take_while(|d| d < len)`. A slice has fewer
than `2^63` elements, so the doubling ends before `checked_mul` can fail. -/
def distances (len : Nat) : List Nat := ((List.range len).map (2 ^ ·)).takeWhile (· < len)

/-- The `(notify_right_idx, wait_left_idx)` pairs of each round. -/
def round_pairs (idx len : Nat) : List (Nat × Nat) :=
  (distances len).map (fun d => ((idx + d) % len, (idx + len - d) % len))

def DisseminationBarrier.run_barrier (rank : Nat) (peers : List Nat) :
    Except BarrierError (List BarrierOp) :=
  if peers.length < 2 then .ok []
  else
    match binary_search peers rank with
    | .error _ => .error .SelfNotInGroup
    | .ok idx =>
      .ok ((round_pairs idx peers.length).flatMap (fun round =>
        notify_peer (peers.getD round.1 0) ++ wait_peer (peers.getD round.2 0)))

/-- The same program by position in the list. -/
def disseminationPlan (n p : Nat) : List (SignalOp Nat) :=
  (round_pairs p n).flatMap (fun round => [signal round.1, wait round.2])

/-- The doublings below `n`, from however long a list they are taken. -/
theorem takeWhile_two_pow {m n : Nat} (hm : Nat.clog 2 n ≤ m) :
    ((List.range m).map (2 ^ ·)).takeWhile (· < n) = (List.range (Nat.clog 2 n)).map (2 ^ ·) := by
  have hlt (k : Nat) : 2 ^ k < n ↔ k < Nat.clog 2 n := (Nat.lt_clog_iff_pow_lt Nat.one_lt_two).symm
  rw [List.takeWhile_map]
  congr 1
  obtain ⟨rest, hrest⟩ := Nat.exists_eq_add_of_le hm
  have hsplit : List.range m =
      List.range (Nat.clog 2 n) ++ (List.range rest).map (Nat.clog 2 n + ·) := by
    rw [← List.range_add, ← hrest]
  rw [hsplit, List.takeWhile_append_of_pos]
  · cases rest with
    | zero => simp
    | succ rest =>
      rw [List.range_succ_eq_map]
      simp [hlt]
  · intro k hk
    simpa [hlt] using hk

/-- There are `⌈log₂ n⌉` rounds, at distances `1, 2, 4, …`. -/
theorem distances_eq (n : Nat) : distances n = (List.range (Nat.clog 2 n)).map (2 ^ ·) :=
  takeWhile_two_pow (Nat.clog_le_of_le_pow (Nat.lt_two_pow_self).le)

def notifyIdx (n p r : Nat) : Nat := (p + 2 ^ r) % n

def waitIdx (n p r : Nat) : Nat := (p + n - 2 ^ r) % n

theorem round_pairs_eq (n p : Nat) : round_pairs p n =
    (List.range (Nat.clog 2 n)).map (fun r => (notifyIdx n p r, waitIdx n p r)) := by
  rw [round_pairs, distances_eq, List.map_map]
  rfl

theorem disseminationPlan_eq (n p : Nat) : disseminationPlan n p =
    (List.range (Nat.clog 2 n)).flatMap
      (fun r => [signal (notifyIdx n p r), wait (waitIdx n p r)]) := by
  rw [disseminationPlan, round_pairs_eq, List.flatMap_map]

section Rounds

variable {n p q r : Nat}

theorem two_pow_lt (hr : r < Nat.clog 2 n) : 2 ^ r < n :=
  (Nat.lt_clog_iff_pow_lt Nat.one_lt_two).mp hr

theorem mod_of_lt_two_mul {x : Nat} (hx : x < 2 * n) :
    x % n = if x < n then x else x - n := by
  split_ifs with h
  · exact Nat.mod_eq_of_lt h
  · rw [Nat.mod_eq_sub_mod (by omega), Nat.mod_eq_of_lt (by omega)]

theorem notifyIdx_eq (hp : p < n) (hr : r < Nat.clog 2 n) :
    notifyIdx n p r = if p + 2 ^ r < n then p + 2 ^ r else p + 2 ^ r - n := by
  have := two_pow_lt hr
  exact mod_of_lt_two_mul (by omega)

theorem waitIdx_eq (hp : p < n) (hr : r < Nat.clog 2 n) :
    waitIdx n p r = if p + n - 2 ^ r < n then p + n - 2 ^ r else p - 2 ^ r := by
  have := two_pow_lt hr
  have hpos := Nat.two_pow_pos r
  rw [waitIdx, mod_of_lt_two_mul (by omega)]
  split_ifs <;> omega

/-- In each round `p` notifies `q` if and only if `q` waits for `p`. -/
theorem notifyIdx_eq_iff (hp : p < n) (hq : q < n) (hr : r < Nat.clog 2 n) :
    notifyIdx n p r = q ↔ waitIdx n q r = p := by
  have := two_pow_lt hr
  rw [notifyIdx_eq hp hr, waitIdx_eq hq hr]
  split_ifs <;> omega

theorem notifyIdx_lt (hp : p < n) : notifyIdx n p r < n := Nat.mod_lt _ (by omega)

theorem waitIdx_lt (hp : p < n) : waitIdx n p r < n := Nat.mod_lt _ (by omega)

theorem notifyIdx_ne (hp : p < n) (hr : r < Nat.clog 2 n) : notifyIdx n p r ≠ p := by
  have := two_pow_lt hr
  have hpos := Nat.two_pow_pos r
  rw [notifyIdx_eq hp hr]
  split_ifs <;> omega

theorem notifyIdx_waitIdx (hp : p < n) (hr : r < Nat.clog 2 n) :
    notifyIdx n (waitIdx n p r) r = p := (notifyIdx_eq_iff (waitIdx_lt hp) hp hr).mpr rfl

theorem waitIdx_ne (hp : p < n) (hr : r < Nat.clog 2 n) : waitIdx n p r ≠ p := by
  intro h
  exact notifyIdx_ne hp hr ((notifyIdx_eq_iff hp hp hr).mpr h)

/-- No partner is notified in two rounds. -/
theorem notifyIdx_injective {r' : Nat} (hp : p < n) (hr : r < Nat.clog 2 n)
    (hr' : r' < Nat.clog 2 n) (h : notifyIdx n p r = notifyIdx n p r') : r = r' := by
  have h₁ := two_pow_lt hr
  have h₂ := two_pow_lt hr'
  have hpos := Nat.two_pow_pos r
  have hpos' := Nat.two_pow_pos r'
  rw [notifyIdx_eq hp hr, notifyIdx_eq hp hr'] at h
  refine Nat.pow_right_injective (le_refl 2) ?_
  show 2 ^ r = 2 ^ r'
  split_ifs at h <;> omega

end Rounds

section Pairs

variable (f g : Nat → Nat) (R : Nat)

private def pairs : List (SignalOp Nat) :=
  (List.range R).flatMap (fun r => [signal (f r), wait (g r)])

private theorem pairs_succ : pairs f g (R + 1) = pairs f g R ++ [signal (f R), wait (g R)] := by
  simp [pairs, List.range_succ]

private theorem pairs_length : (pairs f g R).length = 2 * R := by
  induction R with
  | zero => rfl
  | succ R ih =>
    rw [pairs_succ, List.length_append, ih]
    simp
    omega

/-- Round `r` stands at the places `2 r` and `2 r + 1`. -/
private theorem pairs_getElem? (a : Nat) : (pairs f g R)[a]? =
    if a < 2 * R then some (if a % 2 = 0 then signal (f (a / 2)) else wait (g (a / 2)))
    else none := by
  induction R with
  | zero => simp [pairs]
  | succ R ih =>
    rw [pairs_succ]
    rcases Nat.lt_or_ge a (2 * R) with hlt | hge
    · rw [List.getElem?_append_left (by rw [pairs_length]; exact hlt), ih, if_pos hlt,
        if_pos (show a < 2 * (R + 1) by omega)]
    · rw [List.getElem?_append_right (by rw [pairs_length]; exact hge), pairs_length]
      obtain ⟨k, rfl⟩ := Nat.exists_eq_add_of_le hge
      rw [Nat.add_sub_cancel_left]
      rcases k with _ | _ | k
      · have hd : (2 * R + 0) / 2 = R := by omega
        simp
      · have hd : (2 * R + (0 + 1)) / 2 = R := by omega
        have hm : (2 * R + (0 + 1)) % 2 ≠ 0 := by omega
        rw [if_pos (by omega), if_neg hm, hd]
        rfl
      · rw [if_neg (by omega)]
        rfl

private theorem pairs_count_signal (q : Nat) :
    (pairs f g R).count (signal q) = ((List.range R).map f).count q := by
  induction R with
  | zero => rfl
  | succ R ih =>
    rw [pairs_succ, List.range_succ, List.map_append, List.count_append, List.count_append, ih]
    simp [List.count_cons]

private theorem pairs_count_wait (q : Nat) :
    (pairs f g R).count (wait q) = ((List.range R).map g).count q := by
  induction R with
  | zero => rfl
  | succ R ih =>
    rw [pairs_succ, List.range_succ, List.map_append, List.count_append, List.count_append, ih]
    simp [List.count_cons]

end Pairs

private theorem plan_eq_pairs (n p : Nat) :
    disseminationPlan n p = pairs (notifyIdx n p) (waitIdx n p) (Nat.clog 2 n) :=
  disseminationPlan_eq n p

private theorem plan_signal_at {n p q a : Nat}
    (h : (disseminationPlan n p)[a]? = some (signal q)) :
    ∃ r < Nat.clog 2 n, a = 2 * r ∧ notifyIdx n p r = q := by
  rw [plan_eq_pairs, pairs_getElem?] at h
  split_ifs at h with hlt hm
  · exact ⟨a / 2, by omega, by omega, by simpa using h⟩
  · simp at h

private theorem plan_wait_at {n p q a : Nat}
    (h : (disseminationPlan n p)[a]? = some (wait q)) :
    ∃ r < Nat.clog 2 n, a = 2 * r + 1 ∧ waitIdx n p r = q := by
  rw [plan_eq_pairs, pairs_getElem?] at h
  split_ifs at h with hlt hm
  · simp at h
  · exact ⟨a / 2, by omega, by omega, by simpa using h⟩

private theorem plan_at_prefix {α : Type} {cut plan : List α} (h : cut <+: plan) {a : Nat}
    (ha : a < cut.length) : cut[a]? = plan[a]? := by
  obtain ⟨t, rfl⟩ := h
  rw [List.getElem?_append_left ha]

private theorem cut_length_of_signal {n : Nat} {cut : Nat → List (SignalOp Nat)}
    (hcut : ConsistentCut (List.range n) (disseminationPlan n) cut) {p q r : Nat} (hp : p < n)
    (hr : r < Nat.clog 2 n) (hq : notifyIdx n p r = q) (hs : signal q ∈ cut p) :
    2 * r + 1 ≤ (cut p).length := by
  obtain ⟨a, ha, hget⟩ := List.mem_iff_getElem.mp hs
  have hat := plan_at_prefix (hcut.isPrefix p (List.mem_range.mpr hp)) ha
  rw [List.getElem?_eq_getElem ha, hget] at hat
  obtain ⟨r', hr', rfl, hr'q⟩ := plan_signal_at hat.symm
  have := notifyIdx_injective hp hr hr' (hq.trans hr'q.symm)
  omega

/-- Who has finished `r` rounds has heard, directly or through others, from every position
less than `2^r` to its left: the induction over rounds behind the safety of the barrier. -/
theorem dissemination_heard {n : Nat} {cut : Nat → List (SignalOp Nat)}
    (hcut : ConsistentCut (List.range n) (disseminationPlan n) cut) (r : Nat) {p : Nat}
    (hp : p < n) (hr : 2 * r ≤ (cut p).length) {δ : Nat} (hδ : 0 < δ) (hδr : δ < 2 ^ r)
    (hδn : δ < n) : cut ((p + n - δ) % n) ≠ [] := by
  induction r generalizing p δ with
  | zero =>
    rw [Nat.pow_zero] at hδr
    omega
  | succ r ih =>
    rcases Nat.lt_or_ge δ (2 ^ r) with hlt | hge
    · exact ih hp (by omega) hδ hlt hδn
    have hpre := hcut.isPrefix p (List.mem_range.mpr hp)
    have hlen := hpre.length_le
    rw [plan_eq_pairs, pairs_length] at hlen
    have hrR : r < Nat.clog 2 n := by omega
    have hdist := two_pow_lt hrR
    -- the wait of round `r` has been passed, so the left neighbour has sent its signal
    have hwait : wait (waitIdx n p r) ∈ cut p := by
      have hget := plan_at_prefix hpre (a := 2 * r + 1) (by omega)
      rw [plan_eq_pairs, pairs_getElem?, if_pos (by omega), if_neg (by omega)] at hget
      have hdiv : (2 * r + 1) / 2 = r := by omega
      rw [hdiv] at hget
      exact List.mem_of_getElem? hget
    have hl := waitIdx_lt (r := r) hp
    have hsig := hcut.answered _ (List.mem_range.mpr hl) p (List.mem_range.mpr hp) hwait
    have hlcut := cut_length_of_signal hcut hl hrR (notifyIdx_waitIdx hp hrR) hsig
    rcases Nat.eq_or_lt_of_le hge with rfl | hgt
    · have hne := List.ne_nil_of_mem hsig
      simpa [waitIdx] using hne
    · have hrec := ih hl (by omega) (δ := δ - 2 ^ r) (by omega)
        (by rw [Nat.pow_succ] at hδr; omega) (by omega)
      have heq : (waitIdx n p r + n - (δ - 2 ^ r)) % n = (p + n - δ) % n := by
        rw [waitIdx_eq hp hrR]
        rw [mod_of_lt_two_mul (x := p + n - δ) (by omega)]
        split_ifs
        · rw [mod_of_lt_two_mul (by omega)]
          split_ifs <;> omega
        · rw [mod_of_lt_two_mul (by omega)]
          split_ifs <;> omega
        · rw [mod_of_lt_two_mul (by omega)]
          split_ifs <;> omega
        · rw [mod_of_lt_two_mul (by omega)]
          split_ifs <;> omega
      rwa [heq] at hrec

private theorem count_once {n p : Nat} (hp : p < n) (q : Nat) :
    ((List.range (Nat.clog 2 n)).map (notifyIdx n p)).count q ≤ 1 := by
  refine List.nodup_iff_count_le_one.mp (List.Nodup.map_on ?_ List.nodup_range) q
  intro r hr r' hr' h
  exact notifyIdx_injective hp (List.mem_range.mp hr) (List.mem_range.mp hr') h

theorem disseminationPlan_discipline (n : Nat) :
    Discipline (List.range n) (disseminationPlan n) := by
  refine ⟨?_, ?_, ?_, ?_, fun _ a => a, fun _ _ _ hab => hab, ?_⟩
  · intro p hp op hop
    rw [List.mem_range] at hp
    rw [disseminationPlan_eq] at hop
    obtain ⟨r, hr, hop⟩ := List.mem_flatMap.mp hop
    rw [List.mem_range] at hr
    simp only [List.mem_cons, List.not_mem_nil, or_false] at hop
    rcases hop with rfl | rfl
    · exact ⟨List.mem_range.mpr (notifyIdx_lt hp), notifyIdx_ne hp hr⟩
    · exact ⟨List.mem_range.mpr (waitIdx_lt hp), waitIdx_ne hp hr⟩
  · intro p hp q hq
    rw [List.mem_range] at hp hq
    rw [plan_eq_pairs, plan_eq_pairs, pairs_count_signal, pairs_count_wait, List.count_eq_countP,
      List.count_eq_countP, List.countP_map, List.countP_map]
    apply List.countP_congr
    intro r hr
    simpa using notifyIdx_eq_iff hp hq (List.mem_range.mp hr)
  · intro p hp q
    rw [plan_eq_pairs, pairs_count_signal]
    exact count_once (List.mem_range.mp hp) q
  · intro cut hcut p hp hfull q hq hne
    rw [List.mem_range] at hp hq
    have hlen : 2 * Nat.clog 2 n ≤ (cut p).length := by
      rw [hfull, plan_eq_pairs, pairs_length]
    have hle := Nat.le_pow_clog Nat.one_lt_two n
    -- `q` lies at distance `δ` to the left of `p`
    rcases Nat.lt_or_ge q p with hlt | hge
    · have h := dissemination_heard hcut _ hp hlen (δ := p - q) (by omega) (by omega) (by omega)
      have he : (p + n - (p - q)) % n = q := by
        rw [mod_of_lt_two_mul (by omega)]
        split_ifs <;> omega
      rwa [he] at h
    · have h := dissemination_heard hcut _ hp hlen (δ := p + n - q) (by omega) (by omega)
        (by omega)
      have he : (p + n - (p + n - q)) % n = q := by
        rw [mod_of_lt_two_mul (by omega)]
        split_ifs <;> omega
      rwa [he] at h
  · intro p hp q hq a b ha hb
    rw [List.mem_range] at hp hq
    obtain ⟨r, hr, rfl, hrq⟩ := plan_signal_at ha
    obtain ⟨r', hr', rfl, hrp⟩ := plan_wait_at hb
    have hq' := (notifyIdx_eq_iff hp hq hr').mpr hrp
    obtain rfl := notifyIdx_injective hp hr hr' (hrq.trans hq'.symm)
    exact Nat.lt_succ_self (2 * r)

/-- On a strictly ascending list the code runs the plan of its position. -/
theorem DisseminationBarrier.run_barrier_spec {G : List Nat} (hs : G.Pairwise (· < ·)) {p : Nat}
    (hp : p < G.length) : ∃ ops, DisseminationBarrier.run_barrier G[p] G = .ok ops ∧ Blocks ops ∧
      signals ops = (disseminationPlan G.length p).map (SignalOp.map (fun q => G.getD q 0)) := by
  by_cases hn : G.length < 2
  · refine ⟨[], if_pos hn, .nil, ?_⟩
    have h0 : Nat.clog 2 G.length = 0 := Nat.clog_of_right_le_one (by omega) 2
    simp [disseminationPlan_eq, h0]
  · have hidx := binary_search_eq_ok hs (List.getElem?_eq_getElem hp)
    refine ⟨_, by rw [DisseminationBarrier.run_barrier, if_neg hn, hidx], ?_, ?_⟩
    · exact Blocks.flatMap (fun round _ => (Blocks.notify_peer _).append (.wait_peer _))
    · rw [signals_flatMap, disseminationPlan, List.map_flatMap]
      rfl

end IbverbsRs.Network
