import IbverbsRs.Framework.RootedTree
import IbverbsRs.Math.Usize
import IbverbsRs.Network.Barrier.BinaryTree
import Mathlib.Data.Nat.Log

namespace IbverbsRs.Network

open Framework Math

theorem rootedTree {len : Nat} (h : 0 < len) :
    RootedTree parent_index (fun i c => c ∈ child_indices i len) 0 (· < len) id where
  root_mem := h
  root_parent := parent_index_zero
  child_iff i c := by
    constructor
    · intro hc
      have hlt := (mem_child_indices.mp hc).1
      exact ⟨hlt, (mem_child_indices_iff_parent hlt).mp hc⟩
    · rintro ⟨hlt, hc⟩
      exact (mem_child_indices_iff_parent hlt).mpr hc
  parent_mem c hc hne := by
    obtain ⟨c, rfl⟩ := Nat.exists_eq_succ_of_ne_zero hne
    have hparent := parent_index_succ c
    have hlt := parent_index_lt hparent
    exact ⟨_, hparent, Nat.lt_trans hlt hc, hlt⟩

/-- Every step up halves `i + 1`. -/
theorem climb_eq_root_iff (k i : Nat) :
    climb parent_index k i = some 0 ↔ k = Nat.log 2 (i + 1) := by
  induction k generalizing i with
  | zero =>
    rw [climb, Option.some_inj, eq_comm (a := 0), Nat.log_eq_zero_iff]
    omega
  | succ k ih =>
    rw [climb]
    rcases i with _ | i
    · rw [parent_index_zero, Option.bind_none]
      simp
    · have hhalf : (i + 1 + 1) / 2 = i / 2 + 1 := by omega
      have hlog : Nat.log 2 (i + 1 + 1) = Nat.log 2 (i / 2 + 1) + 1 := by
        rw [Nat.log_of_one_lt_of_le Nat.one_lt_two (by omega), hhalf]
      rw [parent_index_succ, Option.bind_some, ih, hlog]
      exact Nat.succ_inj.symm

section Overflow

/-- `parent_index` on 64 bits; the outer `none` is the panic of a subtraction that overflows. -/
def parent_index_debug (idx : UInt64) : Option (Option UInt64) :=
  if idx > 0 then (checked_sub idx 1).map (fun less => some (less / 2)) else some none

/-- `child_indices` on 64 bits; `none` is the panic of a doubling or an addition that overflows. -/
def child_indices_debug (idx len : UInt64) : Option (List UInt64) :=
  (checked_mul 2 idx).bind (fun double => (checked_add double 1).bind (fun left =>
    (checked_add double 2).map (fun right => [left, right].filter (· < len))))

theorem parent_index_debug_eq (idx : UInt64) : ∃ parent, parent_index_debug idx = some parent ∧
    parent.map UInt64.toNat = parent_index idx.toNat := by
  have hiff : idx > 0 ↔ idx.toNat > 0 := UInt64.lt_iff_toNat_lt
  rw [parent_index_debug, parent_index]
  by_cases hpos : idx > 0
  · have hle : 1 ≤ idx := by
      rw [UInt64.le_iff_toNat_le]
      exact hiff.mp hpos
    refine ⟨some ((idx - 1) / 2), by rw [if_pos hpos, checked_sub_of_le hle]; rfl, ?_⟩
    rw [if_pos (hiff.mp hpos), Option.map_some, UInt64.toNat_div, UInt64.toNat_sub_of_le _ _ hle]
    rfl
  · refine ⟨none, if_neg hpos, ?_⟩
    rw [if_neg (mt hiff.mpr hpos), Option.map_none]

/-- For as many positions as a slice of ranks has, no child overflows. -/
theorem child_indices_debug_eq {idx len : UInt64} (hidx : idx.toNat < len.toNat)
    (hlen : len.toNat ≤ (2 ^ 63 - 1) / 8) : ∃ children, child_indices_debug idx len = some children ∧
      children.map UInt64.toNat = child_indices idx.toNat len.toNat := by
  obtain ⟨double, hdouble⟩ := exists_try_from (n := (2 : UInt64).toNat * idx.toNat)
    (by change 2 * idx.toNat < 2 ^ 64; omega)
  have hdouble' : double.toNat = 2 * idx.toNat := try_from_eq_some.mp hdouble
  obtain ⟨left, hleft⟩ := exists_try_from (n := double.toNat + (1 : UInt64).toNat)
    (by change double.toNat + 1 < 2 ^ 64; omega)
  obtain ⟨right, hright⟩ := exists_try_from (n := double.toNat + (2 : UInt64).toNat)
    (by change double.toNat + 2 < 2 ^ 64; omega)
  have hleft' : left.toNat = double.toNat + 1 := try_from_eq_some.mp hleft
  have hright' : right.toNat = double.toNat + 2 := try_from_eq_some.mp hright
  have hmul : checked_mul 2 idx = some double := hdouble
  have hadd : checked_add double 1 = some left := hleft
  have hadd' : checked_add double 2 = some right := hright
  refine ⟨[left, right].filter (· < len), ?_, ?_⟩
  · rw [child_indices_debug, hmul, Option.bind_some, hadd, Option.bind_some, hadd', Option.map_some]
  · have hless : (fun c : UInt64 => decide (c < len)) =
        (fun c => decide (c < len.toNat)) ∘ UInt64.toNat := by
      funext c
      simp [UInt64.lt_iff_toNat_lt]
    rw [hless, ← List.filter_map, List.map_cons, List.map_cons, List.map_nil, hleft', hright',
      hdouble']
    rfl

end Overflow

/-- The positions of a group form one tree of logarithmic depth below position 0, and computing it
does not overflow. -/
theorem spanning_tree (len : Nat) :
    (∀ i c, i < len → c < len → (c ∈ child_indices i len ↔ parent_index c = some i)) ∧
    (∀ c, 0 < c → c < len → ∃ i, parent_index c = some i ∧ i < c ∧
      ∀ j, c ∈ child_indices j len ↔ j = i) ∧
    (∀ i, i < len → (∀ k, climb parent_index k i = some 0 ↔ k = Nat.log 2 (i + 1)) ∧
      Nat.log 2 (i + 1) ≤ Nat.log 2 len) ∧
    (∀ c, (c < len → ∃! path, Path (fun i c => c ∈ child_indices i len) 0 path c) ∧
      (0 < len → ∀ path, Path (fun i c => c ∈ child_indices i len) 0 path c → c < len)) ∧
    ∀ idx' len' : UInt64, idx'.toNat < len → len'.toNat = len → len ≤ (2 ^ 63 - 1) / 8 →
      (∃ children, child_indices_debug idx' len' = some children ∧
        children.map UInt64.toNat = child_indices idx'.toNat len) ∧
      ∃ parent, parent_index_debug idx' = some parent ∧
        parent.map UInt64.toNat = parent_index idx'.toNat := by
  refine ⟨?_, ?_, ?_, ?_, ?_⟩
  · intro i c _ hc
    exact mem_child_indices_iff_parent hc
  · intro c hpos hc
    obtain ⟨i, hi, _, hlt⟩ := (rootedTree (Nat.zero_lt_of_lt hc)).parent_mem c hc hpos.ne'
    refine ⟨i, hi, hlt, ?_⟩
    intro j
    rw [mem_child_indices_iff_parent hc, hi, Option.some_inj]
    exact eq_comm
  · intro i hi
    exact ⟨fun k => climb_eq_root_iff k i, Nat.log_mono_right hi⟩
  · intro c
    refine ⟨?_, ?_⟩
    · intro hc
      exact (rootedTree (Nat.zero_lt_of_lt hc)).existsUnique_path hc
    · intro hlen path hpath
      exact (rootedTree hlen).path_mem hpath
  · intro idx' len' hidx hlen hsmall
    subst hlen
    exact ⟨child_indices_debug_eq hidx hsmall, parent_index_debug_eq idx'⟩

end IbverbsRs.Network
