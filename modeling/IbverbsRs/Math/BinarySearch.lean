import Mathlib.Data.List.Basic
import Mathlib.Data.List.Nodup
import Mathlib.Data.List.Pairwise
import Mathlib.Order.Lattice
import Mathlib.Tactic.Common

namespace IbverbsRs.Math

variable {α : Type} [LinearOrder α]

/-- The loop of the branchless slice search: `base` moves to the probed middle
unless the element there is greater than the target. -/
def searchBase (xs : List α) (x : α) : Nat → Nat → Nat → Nat
  | 0, _, base => base
  | fuel + 1, size, base =>
    if size ≤ 1 then base
    else
      let half := size / 2
      let mid := base + half
      let next := if (xs[mid]?).any (fun y => decide (x < y)) then base else mid
      searchBase xs x fuel (size - half) next

/-- `slice::binary_search`: the position of a match, or the insertion point. -/
def binary_search (xs : List α) (x : α) : Except Nat Nat :=
  match xs[searchBase xs x xs.length xs.length 0]? with
  | none => .error 0
  | some y =>
    let base := searchBase xs x xs.length xs.length 0
    if y = x then .ok base else .error (if y < x then base + 1 else base)

/-- Whatever the list, a reported position holds the target. -/
theorem binary_search_sound {xs : List α} {x : α} {i : Nat}
    (h : binary_search xs x = .ok i) : xs[i]? = some x := by
  unfold binary_search at h
  cases hb : xs[searchBase xs x xs.length xs.length 0]? with
  | none => simp [hb] at h
  | some y =>
    simp only [hb] at h
    split_ifs at h with hy
    obtain rfl := Except.ok.inj h
    rw [hb, hy]

/-- Loop invariant: everything from `base + size` on is greater than the target, and
`base` is the start or holds an element at most the target. -/
private theorem searchBase_spec {xs : List α} {x : α} (hsorted : xs.Pairwise (· ≤ ·))
    (fuel size base : Nat) (hfuel : size ≤ fuel + 1) (hsize : 0 < size)
    (hlen : base + size ≤ xs.length)
    (hright : ∀ k y, base + size ≤ k → xs[k]? = some y → x < y)
    (hleft : base = 0 ∨ ∃ y, xs[base]? = some y ∧ y ≤ x) :
    let r := searchBase xs x fuel size base
    r < xs.length ∧ (∀ k y, r < k → xs[k]? = some y → x < y) ∧
      (r = 0 ∨ ∃ y, xs[r]? = some y ∧ y ≤ x) := by
  induction fuel generalizing size base with
  | zero =>
    obtain rfl : size = 1 := by omega
    exact ⟨by simp only [searchBase]; omega, hright, hleft⟩
  | succ fuel ih =>
    by_cases hle : size ≤ 1
    · obtain rfl : size = 1 := by omega
      rw [searchBase, if_pos hle]
      exact ⟨by omega, hright, hleft⟩
    have hmid : base + size / 2 < xs.length := by omega
    simp only [searchBase, if_neg hle, List.getElem?_eq_getElem hmid, Option.any_some,
      decide_eq_true_eq]
    by_cases hgt : x < xs[base + size / 2]
    · rw [if_pos hgt]
      refine ih (size - size / 2) base (by omega) (by omega) (by omega) ?_ hleft
      -- the middle element is greater, so by order everything after it is
      intro k y hk hy
      obtain ⟨hki, rfl⟩ := List.getElem?_eq_some_iff.mp hy
      rcases Nat.lt_or_ge (base + size / 2) k with hlt | hge
      · exact lt_of_lt_of_le hgt (List.pairwise_iff_getElem.mp hsorted _ _ hmid hki hlt)
      · obtain rfl : k = base + size / 2 := by omega
        exact hgt
    · rw [if_neg hgt]
      refine ih (size - size / 2) (base + size / 2) (by omega) (by omega) (by omega) ?_ ?_
      · intro k y hk hy
        exact hright k y (by omega) hy
      · exact Or.inr ⟨_, List.getElem?_eq_getElem hmid, not_lt.mp hgt⟩

/-- Where the loop stops when it starts with the whole list. -/
private theorem searchBase_stops {xs : List α} (hsorted : xs.Pairwise (· ≤ ·))
    (hpos : 0 < xs.length) (x : α) :
    let r := searchBase xs x xs.length xs.length 0
    r < xs.length ∧ (∀ k y, r < k → xs[k]? = some y → x < y) ∧
      (r = 0 ∨ ∃ y, xs[r]? = some y ∧ y ≤ x) := by
  refine searchBase_spec hsorted xs.length xs.length 0 (by omega) hpos (by omega) ?_ (Or.inl rfl)
  intro k y hk hy
  exact absurd (List.getElem?_eq_some_iff.mp hy).1 (by omega)

/-- On a sorted list the search finds every element that is there. -/
theorem binary_search_complete {xs : List α} {x : α} (hsorted : xs.Pairwise (· ≤ ·))
    (hx : x ∈ xs) : ∃ i, binary_search xs x = .ok i := by
  have hpos : 0 < xs.length := List.length_pos_of_mem hx
  obtain ⟨hr, hright, hleft⟩ := searchBase_stops hsorted hpos x
  refine ⟨searchBase xs x xs.length xs.length 0, ?_⟩
  simp only [binary_search]
  generalize searchBase xs x xs.length xs.length 0 = r at hr hright hleft ⊢
  rw [List.getElem?_eq_getElem hr]
  obtain ⟨k, hk, hkx⟩ := List.mem_iff_getElem.mp hx
  have hkr : k ≤ r := by
    by_contra hlt
    exact lt_irrefl x (hright k x (by omega) (by rw [List.getElem?_eq_getElem hk, hkx]))
  have heq : xs[r] = x := by
    rcases Nat.eq_or_lt_of_le hkr with rfl | hlt
    · exact hkx
    have hxr : x ≤ xs[r] := hkx ▸ List.pairwise_iff_getElem.mp hsorted _ _ hk hr hlt
    rcases hleft with h0 | ⟨y, hy, hyx⟩
    · omega
    · obtain ⟨_, rfl⟩ := List.getElem?_eq_some_iff.mp hy
      exact le_antisymm hyx hxr
  simp [heq]

/-- On a strictly ascending list the search returns the one position of the target. -/
theorem binary_search_eq_ok {xs : List α} {x : α} {i : Nat} (hsorted : xs.Pairwise (· < ·))
    (hi : xs[i]? = some x) : binary_search xs x = .ok i := by
  obtain ⟨r, hr⟩ := binary_search_complete (hsorted.imp le_of_lt) (List.mem_of_getElem? hi)
  have hnodup : xs.Nodup := hsorted.imp ne_of_lt
  obtain ⟨hil, hix⟩ := List.getElem?_eq_some_iff.mp hi
  obtain ⟨hrl, hrx⟩ := List.getElem?_eq_some_iff.mp (binary_search_sound hr)
  have he : r = i := (List.Nodup.getElem_inj_iff hnodup).mp (hrx.trans hix.symm)
  rw [hr, he]

private theorem getElem?_ascending {xs : List α} (hsorted : xs.Pairwise (· < ·)) {i j : Nat}
    {y z : α} (hi : xs[i]? = some y) (hj : xs[j]? = some z) (hij : i < j) : y < z := by
  obtain ⟨hil, rfl⟩ := List.getElem?_eq_some_iff.mp hi
  obtain ⟨hjl, rfl⟩ := List.getElem?_eq_some_iff.mp hj
  exact List.pairwise_iff_getElem.mp hsorted i j hil hjl hij

/-- A position with only smaller elements before it and none from it on. -/
private theorem lt_iff_lt_position {xs : List α} {x : α} {p : Nat}
    (hsmall : ∀ i y, xs[i]? = some y → i < p → y < x)
    (hlarge : ∀ i y, xs[i]? = some y → p ≤ i → x ≤ y) (i : Nat) (y : α) (hi : xs[i]? = some y) :
    y < x ↔ i < p := by
  constructor
  · intro hy
    by_contra hge
    exact not_lt.mpr (hlarge i y hi (Nat.le_of_not_lt hge)) hy
  · exact hsmall i y hi

/-- On a strictly ascending list the position that is returned, found or not, has exactly the
smaller elements before it. -/
theorem binary_search_position {xs : List α} (hsorted : xs.Pairwise (· < ·)) (x : α) :
    ∃ p ≤ xs.length, (binary_search xs x = .ok p ∨ binary_search xs x = .error p) ∧
      ∀ i y, xs[i]? = some y → (y < x ↔ i < p) := by
  rcases List.eq_nil_or_concat xs with rfl | ⟨init, last, hxs⟩
  · exact ⟨0, Nat.le_refl 0, Or.inr rfl, by simp⟩
  have hpos : 0 < xs.length := by simp [hxs]
  obtain ⟨hr, hright, hleft⟩ := searchBase_stops (hsorted.imp le_of_lt) hpos x
  simp only [binary_search]
  generalize searchBase xs x xs.length xs.length 0 = r at hr hright hleft ⊢
  have hget : xs[r]? = some xs[r] := List.getElem?_eq_getElem hr
  rw [hget]
  have hfrom {i : Nat} {y : α} (hi : xs[i]? = some y) (hri : r ≤ i) (hx : x ≤ xs[r]) : x ≤ y := by
    rcases Nat.eq_or_lt_of_le hri with rfl | hmore
    · obtain rfl := Option.some.inj (hi.symm.trans hget)
      exact hx
    · exact (hright i y hmore hi).le
  -- the element the loop stops at is before the position, at it, or the first of all
  rcases lt_trichotomy xs[r] x with hbelow | hfound | habove
  · refine ⟨r + 1, hr, Or.inr ?_, lt_iff_lt_position ?_ ?_⟩
    · simp only [hbelow.ne, hbelow, if_true, if_false]
    · intro i y hi hir
      rcases Nat.eq_or_lt_of_le (Nat.le_of_lt_succ hir) with rfl | hless
      · obtain rfl := Option.some.inj (hi.symm.trans hget)
        exact hbelow
      · exact lt_trans (getElem?_ascending hsorted hi hget hless) hbelow
    · intro i y hi hri
      exact (hright i y hri hi).le
  · refine ⟨r, hr.le, Or.inl ?_, lt_iff_lt_position ?_ ?_⟩
    · simp only [hfound, if_true]
    · intro i y hi hir
      exact hfound ▸ getElem?_ascending hsorted hi hget hir
    · intro i y hi hri
      exact hfrom hi hri hfound.ge
  · obtain rfl : r = 0 := by
      rcases hleft with h0 | ⟨y, hy, hyx⟩
      · exact h0
      · obtain rfl := Option.some.inj (hy.symm.trans hget)
        exact absurd habove (not_lt.mpr hyx)
    refine ⟨0, hr.le, Or.inr ?_, lt_iff_lt_position ?_ ?_⟩
    · simp only [habove.ne', habove.not_gt, if_false]
    · intro i y _ hi0
      exact absurd hi0 (Nat.not_lt_zero i)
    · intro i y hi hri
      exact hfrom hi hri habove.le

/-- A search for an absent element fails on every list. -/
theorem binary_search_absent {xs : List α} {x : α} (hx : x ∉ xs) :
    ∃ k, binary_search xs x = .error k := by
  cases h : binary_search xs x with
  | ok i => exact absurd (List.mem_of_getElem? (binary_search_sound h)) hx
  | error k => exact ⟨k, rfl⟩

end IbverbsRs.Math
