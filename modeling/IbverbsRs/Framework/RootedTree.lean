import Mathlib.Data.List.Basic
import Mathlib.Tactic.Common

namespace IbverbsRs.Framework

variable {α : Type}

/-- The ancestor that lies `k` steps up. -/
def climb (parent : α → Option α) : Nat → α → Option α
  | 0, a => some a
  | k + 1, a => (parent a).bind (climb parent k)

/-- The ways down from the root, each with the node it leads to. -/
inductive Path (child : α → α → Prop) (root : α) : List α → α → Prop
  | root : Path child root [root] root
  | child {path : List α} {a b : α} (above : Path child root path a) (step : child a b) :
      Path child root (path ++ [b]) b

/-- Children and parents agree on the nodes, and every node but the root has a parent of smaller
rank. -/
structure RootedTree (parent : α → Option α) (child : α → α → Prop) (root : α) (nodes : α → Prop)
    (rank : α → Nat) : Prop where
  root_mem : nodes root
  root_parent : parent root = none
  child_iff : ∀ a b, child a b ↔ nodes b ∧ parent b = some a
  parent_mem : ∀ b, nodes b → b ≠ root → ∃ a, parent b = some a ∧ nodes a ∧ rank a < rank b

namespace RootedTree

variable {parent : α → Option α} {child : α → α → Prop} {root : α} {nodes : α → Prop}
  {rank : α → Nat}

theorem path_mem (T : RootedTree parent child root nodes rank) {path : List α} {a : α}
    (h : Path child root path a) : nodes a := by
  cases h with
  | root => exact T.root_mem
  | child _ step => exact ((T.child_iff _ _).mp step).1

theorem path_unique (T : RootedTree parent child root nodes rank) {path path' : List α} {a : α}
    (h : Path child root path a) (h' : Path child root path' a) : path = path' := by
  have hroot {a : α} : ¬ child a root := by
    intro step
    have hparent := ((T.child_iff _ _).mp step).2
    rw [T.root_parent] at hparent
    cases hparent
  induction h generalizing path' with
  | root =>
    cases h' with
    | root => rfl
    | child _ step => exact absurd step hroot
  | child _ step ih =>
    cases h' with
    | root => exact absurd step hroot
    | child above' step' =>
      have hparent := ((T.child_iff _ _).mp step).2
      have hparent' := ((T.child_iff _ _).mp step').2
      obtain rfl := Option.some.inj (hparent.symm.trans hparent')
      rw [ih above']

/-- By induction on the rank, every node can be reached. -/
theorem exists_path (T : RootedTree parent child root nodes rank) {a : α} (h : nodes a) :
    ∃ path, Path child root path a := by
  induction hr : rank a using Nat.strongRecOn generalizing a with
  | _ r ih =>
    by_cases hroot : a = root
    · rw [hroot]
      exact ⟨[root], .root⟩
    · obtain ⟨b, hb, hnode, hlt⟩ := T.parent_mem a h hroot
      obtain ⟨path, hpath⟩ := ih (rank b) (hr ▸ hlt) hnode rfl
      exact ⟨path ++ [a], .child hpath ((T.child_iff b a).mpr ⟨h, hb⟩)⟩

theorem existsUnique_path (T : RootedTree parent child root nodes rank) {a : α} (h : nodes a) :
    ∃! path, Path child root path a := by
  obtain ⟨path, hpath⟩ := T.exists_path h
  exact ⟨path, hpath, fun _ h' => T.path_unique h' hpath⟩

end RootedTree

end IbverbsRs.Framework
