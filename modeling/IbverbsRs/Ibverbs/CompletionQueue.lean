import IbverbsRs.Ibverbs.Error
import Mathlib.Data.List.Count
import Mathlib.Logic.Function.Basic
import Mathlib.Tactic.Common

namespace IbverbsRs.Ibverbs

/-- The completions the NIC has written and nobody has polled, oldest first. -/
structure CompletionQueue where
  entries : List WorkCompletion

/-- One call of `ibv_poll_cq` with a buffer of `completions` slots. The driver answers
`num_polled`, negative for an error that consumes nothing; other answers than these
do not occur (`none`). -/
def CompletionQueue.poll (cq : CompletionQueue) (completions : Nat) (num_polled : Int) :
    Option (Except IbvError (List WorkCompletion) × CompletionQueue) :=
  let ne := min completions 2147483647
  if num_polled < 0 then
    some (.error (.from_errno_with_msg num_polled.natAbs "Failed to poll completion queue"), cq)
  else if num_polled.toNat ≤ ne ∧ num_polled.toNat ≤ cq.entries.length then
    some (.ok (cq.entries.take num_polled.toNat), ⟨cq.entries.drop num_polled.toNat⟩)
  else none

/-- A failed poll leaves the queue, a successful one takes its oldest entries. -/
theorem CompletionQueue.poll_spec {cq cq' : CompletionQueue} {completions : Nat}
    {num_polled : Int} {r : Except IbvError (List WorkCompletion)}
    (h : cq.poll completions num_polled = some (r, cq')) :
    (num_polled < 0 ∧ (∃ e, r = .error e) ∧ cq' = cq) ∨
      (¬ num_polled < 0 ∧ ∃ wcs, r = .ok wcs ∧ cq.entries = wcs ++ cq'.entries) := by
  unfold poll at h
  by_cases hneg : num_polled < 0
  · rw [if_pos hneg] at h
    obtain ⟨rfl, rfl⟩ := Prod.mk.inj (Option.some.inj h)
    exact Or.inl ⟨hneg, ⟨_, rfl⟩, rfl⟩
  · rw [if_neg hneg] at h
    split_ifs at h with hn
    obtain ⟨rfl, rfl⟩ := Prod.mk.inj (Option.some.inj h)
    exact Or.inr ⟨hneg, _, rfl, (List.take_append_drop _ _).symm⟩

end IbverbsRs.Ibverbs
