import IbverbsRs.Ibverbs.Error
import Mathlib.Data.List.Basic
import Mathlib.Data.List.Pairwise
import Mathlib.Algebra.Order.Group.Nat
import Mathlib.Tactic.Common

namespace IbverbsRs.Network

inductive BarrierError
  | Poisoned
  | SelfNotInGroup
  | UnorderedPeers
  | DuplicatePeers
  | Timeout
  | TransportError (error : TransportError)
  deriving DecidableEq, Repr

/-- `slice::windows(2)`. -/
def windows2 (peers : List Nat) : List (Nat × Nat) := peers.zip peers.tail

def is_sorted (peers : List Nat) : Bool := (windows2 peers).all (fun w => decide (w.1 ≤ w.2))

def validate_peer_list (peers : List Nat) : Except BarrierError Unit :=
  if !is_sorted peers then .error .UnorderedPeers
  else if (windows2 peers).any (fun w => w.1 == w.2) then .error .DuplicatePeers
  else .ok ()

theorem is_sorted_iff (peers : List Nat) : is_sorted peers = true ↔ peers.Pairwise (· ≤ ·) := by
  induction peers with
  | nil => simp [is_sorted, windows2]
  | cons a rest ih =>
    cases rest with
    | nil => simp [is_sorted, windows2]
    | cons b rest =>
      have hstep : is_sorted (a :: b :: rest) = (decide (a ≤ b) && is_sorted (b :: rest)) := rfl
      rw [hstep, Bool.and_eq_true, ih, decide_eq_true_eq, List.pairwise_cons (a := a)]
      refine and_congr_left (fun hrest => ?_)
      constructor
      · intro hab c hc
        rcases List.mem_cons.mp hc with rfl | hc
        · exact hab
        · exact hab.trans ((List.pairwise_cons.mp hrest).1 c hc)
      · intro h
        exact h b (by simp)

/-- On an ascending list equal elements are neighbours. -/
theorem no_equal_windows_iff {peers : List Nat} (hs : peers.Pairwise (· ≤ ·)) :
    (windows2 peers).any (fun w => w.1 == w.2) = false ↔ peers.Nodup := by
  induction peers with
  | nil => simp [windows2]
  | cons a rest ih =>
    cases rest with
    | nil => simp [windows2]
    | cons b rest =>
      have hstep : (windows2 (a :: b :: rest)).any (fun w => w.1 == w.2) =
        (a == b || (windows2 (b :: rest)).any (fun w => w.1 == w.2)) := rfl
      have htail := List.pairwise_cons.mp hs
      rw [hstep, Bool.or_eq_false_iff, ih htail.2, List.nodup_cons (a := a)]
      refine and_congr_left (fun _ => ?_)
      constructor
      · intro hab hmem
        have hne : a ≠ b := by simpa using hab
        rcases List.mem_cons.mp hmem with rfl | hmem
        · exact hne rfl
        · have hle := (List.pairwise_cons.mp htail.2).1 a hmem
          have hle' := htail.1 b (by simp)
          omega
      · intro hmem
        simpa using fun he : a = b => hmem (by simp [he])

/-- The three verdicts of the validation in front of `barrier`. -/
theorem validate_peer_list_cases (peers : List Nat) :
    (validate_peer_list peers = .error .UnorderedPeers ∧ ¬ peers.Pairwise (· ≤ ·)) ∨
    (validate_peer_list peers = .error .DuplicatePeers ∧ peers.Pairwise (· ≤ ·) ∧ ¬ peers.Nodup) ∨
    (validate_peer_list peers = .ok () ∧ peers.Pairwise (· < ·)) := by
  by_cases hs : is_sorted peers = true
  · have hsorted := (is_sorted_iff peers).mp hs
    by_cases hd : (windows2 peers).any (fun w => w.1 == w.2) = false
    · right; right
      have hnodup := (no_equal_windows_iff hsorted).mp hd
      refine ⟨by simp [validate_peer_list, hs, hd], ?_⟩
      exact (hsorted.and hnodup).imp (fun h => lt_of_le_of_ne h.1 h.2)
    · right; left
      refine ⟨?_, hsorted, fun h => hd ((no_equal_windows_iff hsorted).mpr h)⟩
      rw [Bool.not_eq_false] at hd
      simp [validate_peer_list, hs, hd]
  · left
    refine ⟨?_, fun h => hs ((is_sorted_iff peers).mpr h)⟩
    simp [validate_peer_list, hs]

/-- A list passes the validation exactly when it is strictly ascending. -/
theorem validate_peer_list_ok_iff (peers : List Nat) :
    validate_peer_list peers = .ok () ↔ peers.Pairwise (· < ·) := by
  rcases validate_peer_list_cases peers with ⟨h, hn⟩ | ⟨h, _, hn⟩ | ⟨h, hs⟩
  · simp only [h, reduceCtorEq, false_iff]
    exact fun hlt => hn (hlt.imp le_of_lt)
  · simp only [h, reduceCtorEq, false_iff]
    exact fun hlt => hn (hlt.imp ne_of_lt)
  · simp [h, hs]

end IbverbsRs.Network
