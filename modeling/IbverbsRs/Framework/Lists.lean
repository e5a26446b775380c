import Mathlib.Data.List.Basic
import Mathlib.Data.List.Count
import Mathlib.Data.List.Perm.Basic
import Mathlib.Tactic.Common

namespace IbverbsRs.Framework

/-- Looking into a list after one entry was replaced. -/
theorem getElem?_set_cases {α : Type} {xs : List α} {i j : Nat} {a b : α}
    (h : (xs.set i a)[j]? = some b) : (i = j ∧ a = b) ∨ (i ≠ j ∧ xs[j]? = some b) := by
  by_cases hij : i = j
  · subst hij
    obtain ⟨hlt, heq⟩ := List.getElem?_eq_some_iff.mp h
    left
    exact ⟨rfl, by simpa using heq⟩
  · rw [List.getElem?_set_ne hij] at h
    exact Or.inr ⟨hij, h⟩

/-- Looking into a list after one entry was appended. -/
theorem getElem?_snoc_cases {α : Type} {xs : List α} {a b : α} {i : Nat}
    (h : (xs ++ [a])[i]? = some b) : xs[i]? = some b ∨ (i = xs.length ∧ a = b) := by
  by_cases hi : i < xs.length
  · rw [List.getElem?_append_left hi] at h
    exact Or.inl h
  · rw [List.getElem?_append_right (Nat.le_of_not_lt hi)] at h
    obtain ⟨hlt, heq⟩ := List.getElem?_eq_some_iff.mp h
    simp only [List.length_singleton] at hlt
    right
    exact ⟨by omega, by simpa using heq⟩

/-- Replacing an entry by one with the same image keeps the images. -/
theorem map_set_eq {α β : Type} {f : α → β} {xs : List α} {i : Nat} {a b : α}
    (h : xs[i]? = some a) (hf : f b = f a) : (xs.set i b).map f = xs.map f := by
  obtain ⟨hlt, rfl⟩ := List.getElem?_eq_some_iff.mp h
  rw [List.map_set, hf, ← List.getElem_map f (h := by simpa using hlt)]
  exact List.set_getElem_self _

/-- Looking into a list after one entry was changed. -/
theorem getElem?_modify_cases {α : Type} {xs : List α} {f : α → α} {i j : Nat} {b : α}
    (h : (xs.modify i f)[j]? = some b) :
    (i = j ∧ ∃ a, xs[j]? = some a ∧ b = f a) ∨ (i ≠ j ∧ xs[j]? = some b) := by
  rw [List.getElem?_modify] at h
  obtain ⟨a, ha, rfl⟩ := Option.map_eq_some_iff.mp h
  by_cases hij : i = j
  · exact Or.inl ⟨hij, a, ha, by simp [hij]⟩
  · exact Or.inr ⟨hij, by simpa [hij] using ha⟩

/-- A change that keeps the image of every entry keeps the images. -/
theorem map_modify_eq {α β : Type} {f : α → β} {g : α → α} (hfg : ∀ a, f (g a) = f a)
    (xs : List α) (i : Nat) : (xs.modify i g).map f = xs.map f := by
  apply List.ext_getElem?
  intro j
  rw [List.getElem?_map, List.getElem?_map, List.getElem?_modify]
  cases xs[j]? with
  | none => rfl
  | some a =>
    by_cases hij : i = j
    · simp [hij, hfg]
    · simp [hij]

/-- Changing one entry exchanges what it contributes. -/
theorem count_flatMap_modify {α β : Type} [BEq β] {f : α → List β} {g : α → α} {xs : List α}
    {i : Nat} {a : α} (h : xs[i]? = some a) (b : β) :
    ((xs.modify i g).flatMap f).count b + (f a).count b =
      (xs.flatMap f).count b + (f (g a)).count b := by
  induction xs generalizing i with
  | nil => cases h
  | cons x xs ih =>
    cases i with
    | zero =>
      obtain rfl := Option.some.inj h
      simp only [List.modify_zero_cons, List.flatMap_cons, List.count_append]
      omega
    | succ i =>
      have hrest := ih (i := i) (by simpa using h)
      simp only [List.modify_succ_cons, List.flatMap_cons, List.count_append]
      omega

/-- An entry is counted in the list that is left without it, once less. -/
theorem count_eraseIdx {α : Type} [BEq α] [LawfulBEq α] {xs : List α} {i : Nat} {a : α}
    (h : xs[i]? = some a) (b : α) :
    xs.count b = (xs.eraseIdx i).count b + if a == b then 1 else 0 := by
  obtain ⟨hlt, rfl⟩ := List.getElem?_eq_some_iff.mp h
  rw [← (List.getElem_cons_eraseIdx_perm hlt).count_eq b, List.count_cons]

end IbverbsRs.Framework
