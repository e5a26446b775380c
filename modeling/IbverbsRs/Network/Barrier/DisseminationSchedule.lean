import IbverbsRs.Framework.Results
import IbverbsRs.Math.Usize
import IbverbsRs.Network.Barrier.Dissemination

namespace IbverbsRs.Network

open Framework Math

section Rounds

variable {n idx : Nat}

theorem length_round_pairs (n idx : Nat) : (round_pairs idx n).length = Nat.clog 2 n := by
  rw [round_pairs_eq, List.length_map, List.length_range]

theorem getElem?_round_pairs (n idx r : Nat) : (round_pairs idx n)[r]? =
    if r < Nat.clog 2 n then some (notifyIdx n idx r, waitIdx n idx r) else none := by
  rw [round_pairs_eq, List.getElem?_map]
  split_ifs with h
  · rw [List.getElem?_range h, Option.map_some]
  · rw [List.getElem?_eq_none (by simpa using h), Option.map_none]

theorem getElem?_round_pairs_eq_some {r : Nat} {pair : Nat × Nat} :
    (round_pairs idx n)[r]? = some pair ↔
      r < Nat.clog 2 n ∧ pair = (notifyIdx n idx r, waitIdx n idx r) := by
  rw [getElem?_round_pairs]
  split_ifs with h
  · simp [h, eq_comm]
  · simp [h]

/-- No position is waited for in two rounds. -/
theorem waitIdx_injective {r r' : Nat} (hidx : idx < n) (hr : r < Nat.clog 2 n)
    (hr' : r' < Nat.clog 2 n) (h : waitIdx n idx r = waitIdx n idx r') : r = r' := by
  apply notifyIdx_injective (waitIdx_lt hidx) hr hr'
  rw [notifyIdx_waitIdx hidx hr, h, notifyIdx_waitIdx hidx hr']

theorem partners_ne (hidx : idx < n) : ∀ pair ∈ round_pairs idx n,
    pair.1 < n ∧ pair.1 ≠ idx ∧ pair.2 < n ∧ pair.2 ≠ idx := by
  rw [round_pairs_eq, List.forall_mem_map]
  intro r hr
  rw [List.mem_range] at hr
  exact ⟨notifyIdx_lt hidx, notifyIdx_ne hidx hr, waitIdx_lt hidx, waitIdx_ne hidx hr⟩

/-- What tells two rounds apart by their partners does not repeat. -/
theorem map_round_pairs_nodup {partner : Nat × Nat → Nat}
    (h : ∀ r < Nat.clog 2 n, ∀ r' < Nat.clog 2 n, partner (notifyIdx n idx r, waitIdx n idx r) =
      partner (notifyIdx n idx r', waitIdx n idx r') → r = r') :
    ((round_pairs idx n).map partner).Nodup := by
  rw [round_pairs_eq, List.map_map]
  refine List.Nodup.map_on ?_ List.nodup_range
  intro r hr r' hr' heq
  exact h r (List.mem_range.mp hr) r' (List.mem_range.mp hr') heq

theorem notifies_iff_waits {b : Nat} (hidx : idx < n) (hb : b < n) (r : Nat) :
    (∃ c, (round_pairs idx n)[r]? = some (b, c)) ↔
      ∃ c, (round_pairs b n)[r]? = some (c, idx) := by
  constructor
  · rintro ⟨c, hc⟩
    obtain ⟨hr, hpair⟩ := getElem?_round_pairs_eq_some.mp hc
    have hwait := (notifyIdx_eq_iff hidx hb hr).mp (Prod.mk.inj hpair).1.symm
    exact ⟨_, getElem?_round_pairs_eq_some.mpr ⟨hr, by rw [hwait]⟩⟩
  · rintro ⟨c, hc⟩
    obtain ⟨hr, hpair⟩ := getElem?_round_pairs_eq_some.mp hc
    have hnotify := (notifyIdx_eq_iff hidx hb hr).mpr (Prod.mk.inj hpair).2.symm
    exact ⟨_, getElem?_round_pairs_eq_some.mpr ⟨hr, by rw [hnotify]⟩⟩

/-- The position at a distance to the left. -/
def leftOf (n idx δ : Nat) : Nat := (idx + n - δ) % n

/-- A distance to the left of a distance to the left, where the two may go around. -/
theorem leftOf_leftOf {d δ : Nat} (hidx : idx < n) (hd : d < n) (hδ : δ < n) :
    leftOf n (leftOf n idx d) δ = leftOf n idx (if d + δ < n then d + δ else d + δ - n) := by
  unfold leftOf
  rw [mod_of_lt_two_mul (x := idx + n - d) (by omega)]
  split_ifs <;> rw [mod_of_lt_two_mul (by omega), mod_of_lt_two_mul (by omega)] <;>
    split_ifs <;> omega

theorem exists_leftOf {q : Nat} (hidx : idx < n) (hq : q < n) :
    ∃ δ < n, q = leftOf n idx δ := by
  refine ⟨if q ≤ idx then idx - q else idx + n - q, by split_ifs <;> omega, ?_⟩
  unfold leftOf
  rw [mod_of_lt_two_mul (by split_ifs <;> omega)]
  split_ifs <;> omega

end Rounds

/-- Position `idx` has heard of `q` after some rounds: it had before the last one, or hears of it
there from a position that notifies it and that it waits for. -/
def Heard (n : Nat) : Nat → Nat → Nat → Prop
  | 0, idx, q => q = idx
  | r + 1, idx, q => Heard n r idx q ∨ ∃ a b c, a < n ∧
      (round_pairs a n)[r]? = some (idx, b) ∧ (round_pairs idx n)[r]? = some (c, a) ∧ Heard n r a q

theorem heard_succ_iff {n idx r : Nat} (hidx : idx < n) (hr : r < Nat.clog 2 n) (q : Nat) :
    Heard n (r + 1) idx q ↔ Heard n r idx q ∨ Heard n r (waitIdx n idx r) q := by
  rw [Heard]
  constructor
  · rintro (hold | ⟨a, b, c, _, _, hwait, hnew⟩)
    · exact Or.inl hold
    · obtain ⟨_, hpair⟩ := getElem?_round_pairs_eq_some.mp hwait
      rw [(Prod.mk.inj hpair).2] at hnew
      exact Or.inr hnew
  · rintro (hold | hnew)
    · exact Or.inl hold
    · have hsends : (round_pairs (waitIdx n idx r) n)[r]? =
          some (idx, waitIdx n (waitIdx n idx r) r) :=
        getElem?_round_pairs_eq_some.mpr ⟨hr, by rw [notifyIdx_waitIdx hidx hr]⟩
      exact Or.inr ⟨_, _, _, waitIdx_lt hidx, hsends,
        getElem?_round_pairs_eq_some.mpr ⟨hr, rfl⟩, hnew⟩

/-- After `r` rounds a position has heard of itself and of those less than `2^r` to its left: each
round doubles the distance. -/
theorem heard_iff {n idx : Nat} (hidx : idx < n) (r q : Nat) :
    Heard n r idx q ↔ ∃ δ < min (2 ^ r) n, q = leftOf n idx δ := by
  induction r generalizing idx with
  | zero =>
    have hself : leftOf n idx 0 = idx := by
      rw [leftOf, Nat.sub_zero, Nat.add_mod_right, Nat.mod_eq_of_lt hidx]
    rw [Heard, Nat.pow_zero]
    constructor
    · intro h
      exact ⟨0, by omega, h.trans hself.symm⟩
    · rintro ⟨δ, hδ, h⟩
      obtain rfl : δ = 0 := by omega
      exact h.trans hself
  | succ r ih =>
    rcases Nat.lt_or_ge r (Nat.clog 2 n) with hr | hover
    · have hdist := two_pow_lt hr
      have hpos := Nat.two_pow_pos r
      rw [heard_succ_iff hidx hr, ih hidx, ih (waitIdx_lt hidx), Nat.pow_succ]
      constructor
      · rintro (⟨δ, hδ, rfl⟩ | ⟨δ, hδ, rfl⟩)
        · exact ⟨δ, by omega, rfl⟩
        · refine ⟨if 2 ^ r + δ < n then 2 ^ r + δ else 2 ^ r + δ - n, by split_ifs <;> omega, ?_⟩
          exact leftOf_leftOf hidx hdist (by omega)
      · rintro ⟨δ, hδ, rfl⟩
        rcases Nat.lt_or_ge δ (2 ^ r) with hnear | hfar
        · exact Or.inl ⟨δ, by omega, rfl⟩
        · refine Or.inr ⟨δ - 2 ^ r, by omega, ?_⟩
          have hback := leftOf_leftOf (δ := δ - 2 ^ r) hidx hdist (by omega)
          rw [if_pos (by omega), Nat.add_sub_cancel' hfar] at hback
          exact hback.symm
    · -- the schedule is over, and everybody has been heard of
      have hfull : n ≤ 2 ^ r :=
        (Nat.le_pow_clog Nat.one_lt_two n).trans (Nat.pow_le_pow_right (by decide) hover)
      have hnone : Heard n (r + 1) idx q ↔ Heard n r idx q := by
        rw [Heard, or_iff_left]
        rintro ⟨a, b, c, _, _, hwait, _⟩
        exact Nat.not_lt.mpr hover (getElem?_round_pairs_eq_some.mp hwait).1
      rw [hnone, ih hidx, Nat.pow_succ, Nat.min_eq_right hfull, Nat.min_eq_right (by omega)]

theorem heard_all {n idx : Nat} (hidx : idx < n) (q : Nat) :
    Heard n (round_pairs idx n).length idx q ↔ q < n := by
  have hall := Nat.le_pow_clog Nat.one_lt_two n
  rw [length_round_pairs, heard_iff hidx, Nat.min_eq_right hall]
  constructor
  · rintro ⟨δ, _, rfl⟩
    exact Nat.mod_lt _ (by omega)
  · exact exists_leftOf hidx

section Overflow

/-- `std::iter::successors`, with more fuel than there are elements. -/
def successors {α : Type} (next : α → Option α) : Nat → α → List α
  | 0, _ => []
  | fuel + 1, a => a :: (next a).elim [] (successors next fuel)

/-- `round_pairs` on 64 bits; `none` is the panic of an addition or subtraction that overflows. -/
def round_pairs_debug (idx len : UInt64) : Option (List (UInt64 × UInt64)) :=
  ((successors (checked_mul · 2) 65 1).takeWhile (· < len)).mapM (fun d =>
    (checked_add idx d).bind (fun right =>
      ((checked_add idx len).bind (checked_sub · d)).map (fun left => (right % len, left % len))))

/-- `checked_mul` ends the doubling behind `2^63`. -/
theorem map_successors {k m : Nat} (hkm : k + m = 63) {x : UInt64} (hx : x.toNat = 2 ^ k) :
    (successors (checked_mul · 2) (m + 2) x).map UInt64.toNat =
      (List.range (m + 1)).map (fun j => 2 ^ (k + j)) := by
  induction m generalizing k x with
  | zero =>
    obtain rfl : k = 63 := hkm
    have hend : checked_mul x 2 = none := by
      rw [checked_mul, try_from_eq_none]
      change 2 ^ 64 ≤ x.toNat * 2
      omega
    simp [successors, hend, hx]
  | succ m ih =>
    have hdouble : x.toNat * (2 : UInt64).toNat = 2 ^ (k + 1) := by
      rw [hx, Nat.pow_succ]
      rfl
    have hfits : 2 ^ (k + 1) < 2 ^ 64 := Nat.pow_lt_pow_right (by decide) (by omega)
    obtain ⟨y, hy⟩ := exists_try_from (hdouble ▸ hfits)
    have hnext : checked_mul x 2 = some y := hy
    have hrest := ih (by omega) ((checked_mul_eq_some.mp hnext).trans hdouble)
    rw [successors, hnext, Option.elim_some, List.map_cons, hrest, hx,
      List.range_succ_eq_map (n := m + 1), List.map_cons, List.map_map]
    congr 1
    apply List.map_congr_left
    intro j _
    change 2 ^ (k + 1 + j) = 2 ^ (k + (j + 1))
    congr 1
    omega

theorem map_takeWhile_successors {len : UInt64} (hlen : len.toNat ≤ 2 ^ 63) :
    ((successors (checked_mul · 2) 65 1).takeWhile (· < len)).map UInt64.toNat =
      distances len.toNat := by
  have hall := map_successors (k := 0) (m := 63) rfl (x := 1) rfl
  simp only [Nat.zero_add] at hall
  have hclog : Nat.clog 2 len.toNat ≤ 64 := Nat.clog_le_of_le_pow (by omega)
  have hless : (fun d : UInt64 => decide (d < len)) =
      (fun d => decide (d < len.toNat)) ∘ UInt64.toNat := by
    funext d
    simp [UInt64.lt_iff_toNat_lt]
  rw [distances_eq, ← takeWhile_two_pow hclog, ← hall, List.takeWhile_map, hless]

/-- For as many positions as a slice of ranks has, no addition overflows. -/
theorem round_pairs_debug_eq {idx len : UInt64} (hidx : idx.toNat < len.toNat)
    (hlen : len.toNat ≤ (2 ^ 63 - 1) / 8) : ∃ pairs, round_pairs_debug idx len = some pairs ∧
      pairs.map (Prod.map UInt64.toNat UInt64.toNat) = round_pairs idx.toNat len.toNat := by
  rw [round_pairs, ← map_takeWhile_successors (by omega), List.map_map]
  apply exists_mapM_eq_some
  intro d hd
  have hless : d < len := of_decide_eq_true (List.all_eq_true.mp List.all_takeWhile d hd)
  rw [UInt64.lt_iff_toNat_lt] at hless
  obtain ⟨right, hright⟩ := exists_try_from (n := idx.toNat + d.toNat) (by omega)
  obtain ⟨sum, hsum⟩ := exists_try_from (n := idx.toNat + len.toNat) (by omega)
  have hright' := try_from_eq_some.mp hright
  have hsum' := try_from_eq_some.mp hsum
  have hle : d ≤ sum := by
    rw [UInt64.le_iff_toNat_le]
    omega
  have hadd : checked_add idx d = some right := hright
  have hadd' : checked_add idx len = some sum := hsum
  refine ⟨(right % len, (sum - d) % len), ?_, ?_⟩
  · rw [hadd, Option.bind_some, hadd', Option.bind_some, checked_sub_of_le hle, Option.map_some]
  · rw [Prod.map_apply, UInt64.toNat_mod, UInt64.toNat_mod, UInt64.toNat_sub_of_le _ _ hle, hright',
      hsum']
    rfl

end Overflow

/-- The schedule of one position: its rounds and partners, who it has heard of after each round, and
that computing it does not overflow. -/
theorem dissemination_schedule (n idx : Nat) (hidx : idx < n) :
    (round_pairs idx n).length = Nat.clog 2 n ∧
    (∀ pair ∈ round_pairs idx n, pair.1 < n ∧ pair.1 ≠ idx ∧ pair.2 < n ∧ pair.2 ≠ idx) ∧
    ((round_pairs idx n).map Prod.fst).Nodup ∧ ((round_pairs idx n).map Prod.snd).Nodup ∧
    (∀ r b : Nat, b < n → ((∃ c, (round_pairs idx n)[r]? = some (b, c)) ↔
      ∃ c, (round_pairs b n)[r]? = some (c, idx))) ∧
    (∀ r q, Heard n r idx q ↔ ∃ δ < min (2 ^ r) n, q = leftOf n idx δ) ∧
    (∀ q, Heard n (round_pairs idx n).length idx q ↔ q < n) ∧
    ∀ idx' len : UInt64, idx'.toNat = idx → len.toNat = n → n ≤ (2 ^ 63 - 1) / 8 →
      ∃ pairs, round_pairs_debug idx' len = some pairs ∧
        pairs.map (Prod.map UInt64.toNat UInt64.toNat) = round_pairs idx n := by
  refine ⟨length_round_pairs n idx, partners_ne hidx, ?_, ?_,
    fun r b hb => notifies_iff_waits hidx hb r, heard_iff hidx, heard_all hidx, ?_⟩
  · exact map_round_pairs_nodup (fun r hr r' hr' => notifyIdx_injective hidx hr hr')
  · exact map_round_pairs_nodup (fun r hr r' hr' => waitIdx_injective hidx hr hr')
  · intro idx' len hidx' hlen hsmall
    subst hidx' hlen
    exact round_pairs_debug_eq hidx hsmall

theorem dissemination_schedule_five :
    Heard 5 (round_pairs 3 5).length 3 4 ∧ ¬ Heard 5 (round_pairs 3 5).length 3 5 := by
  have hall := (dissemination_schedule 5 3 (by decide)).2.2.2.2.2.2.1
  exact ⟨(hall 4).mpr (by decide), fun h => absurd ((hall 5).mp h) (by decide)⟩

end IbverbsRs.Network
