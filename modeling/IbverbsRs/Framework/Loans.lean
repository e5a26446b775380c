import IbverbsRs.Framework.Lists
import IbverbsRs.Framework.Segments

namespace IbverbsRs.Framework

/-- Things that stand for a segment of cells. -/
class Extent (κ : Type) where
  segment : κ → Segment

/-- A borrow of the cells of `borrowed`. -/
structure Loan (κ : Type) where
  exclusive : Bool
  borrowed : κ

def Loan.segment {κ : Type} [Extent κ] (l : Loan κ) : Segment := Extent.segment l.borrowed

/-- The borrows ever taken, `none` once they have ended. A borrow is named by its position. -/
abbrev Loans (κ : Type) := List (Option (Loan κ))

namespace Loans

open Segment

variable {κ : Type}

def lent (loans : Loans κ) (i : Nat) : Option (Loan κ) := loans[i]?.join

variable {loans loans' : Loans κ} {l l' : Loan κ} {i j x : Nat}

theorem lent_eq_some : loans.lent i = some l ↔ loans[i]? = some (some l) := by
  unfold lent
  exact Option.join_eq_some_iff

theorem lt_of_lent (h : loans.lent i = some l) : i < loans.length :=
  (List.getElem?_eq_some_iff.mp (lent_eq_some.mp h)).1

theorem mem_of_lent (h : loans.lent i = some l) : some l ∈ loans :=
  List.mem_of_getElem? (lent_eq_some.mp h)

theorem lent_snoc_cases (h : lent (loans ++ [some l]) i = some l') :
    loans.lent i = some l' ∨ i = loans.length ∧ l' = l := by
  rcases getElem?_snoc_cases (lent_eq_some.mp h) with hold | ⟨rfl, hnew⟩
  · exact Or.inl (lent_eq_some.mpr hold)
  · exact Or.inr ⟨rfl, (Option.some.inj hnew).symm⟩

theorem lent_snoc (h : loans.lent i = some l') : lent (loans ++ [some l]) i = some l' := by
  rw [lent_eq_some, List.getElem?_append_left (lt_of_lent h)]
  exact lent_eq_some.mp h

theorem lent_set_none (h : lent (loans.set j none) i = some l) :
    i ≠ j ∧ loans.lent i = some l := by
  rcases getElem?_set_cases (lent_eq_some.mp h) with ⟨_, hnone⟩ | ⟨hne, hold⟩
  · cases hnone
  · exact ⟨Ne.symm hne, lent_eq_some.mpr hold⟩

theorem lent_set_none_of_ne (hne : i ≠ j) (h : loans.lent i = some l) :
    lent (loans.set j none) i = some l := by
  rw [lent_eq_some, List.getElem?_set_ne (Ne.symm hne)]
  exact lent_eq_some.mp h

variable [Extent κ]

/-- An exclusive borrow shares no cell with another one. -/
def Compatible (l l' : Loan κ) : Prop :=
  l.exclusive = true ∨ l'.exclusive = true → l.segment.Disjoint l'.segment

instance (l l' : Loan κ) : Decidable (Compatible l l') := inferInstanceAs (Decidable (_ → _))

/-- The cells may be borrowed beside all borrows that have not ended. -/
def Grants (loans : Loans κ) (l : Loan κ) : Prop := ∀ o ∈ loans, ∀ l' ∈ o, Compatible l l'

instance (loans : Loans κ) (l : Loan κ) : Decidable (loans.Grants l) :=
  inferInstanceAs (Decidable (∀ o ∈ loans, _))

/-- No borrow that has not ended covers the cell. -/
def Free (loans : Loans κ) (x : Nat) : Prop := ∀ o ∈ loans, ∀ l ∈ o, ¬ l.segment.Covers x

instance (loans : Loans κ) (x : Nat) : Decidable (loans.Free x) :=
  inferInstanceAs (Decidable (∀ o ∈ loans, _))

def Separate (loans : Loans κ) : Prop := ∀ i j l l', i ≠ j → loans.lent i = some l →
  loans.lent j = some l' → Compatible l l'

/-- The segments lie within borrows of the given names and kind, in this order. -/
def Backs (loans : Loans κ) (exclusive : Bool) (names : List Nat) (segs : List Segment) : Prop :=
  List.Forall₂ (fun i s => ∃ l, loans.lent i = some l ∧ l.exclusive = exclusive ∧
    s.Opens l.segment) names segs

variable {names names' : List Nat} {segs segs' : List Segment} {exclusive : Bool}

theorem Compatible.symm (h : Compatible l l') : Compatible l' l :=
  fun hexclusive => (h hexclusive.symm).symm

theorem Free.not_covers (h : loans.Free x) (hlent : loans.lent i = some l) :
    ¬ l.segment.Covers x :=
  h _ (mem_of_lent hlent) l rfl

theorem Separate.borrow (h : loans.Separate) (hgrants : loans.Grants l) :
    Separate (loans ++ [some l]) := by
  intro i j l₁ l₂ hne h₁ h₂
  rcases lent_snoc_cases h₁ with hold₁ | ⟨rfl, rfl⟩
  · rcases lent_snoc_cases h₂ with hold₂ | ⟨rfl, rfl⟩
    · exact h i j l₁ l₂ hne hold₁ hold₂
    · exact (hgrants _ (mem_of_lent hold₁) l₁ rfl).symm
  · rcases lent_snoc_cases h₂ with hold₂ | ⟨rfl, _⟩
    · exact hgrants _ (mem_of_lent hold₂) l₂ rfl
    · exact absurd rfl hne

theorem Separate.give_back (h : loans.Separate) (j : Nat) : Separate (loans.set j none) :=
  fun i k l₁ l₂ hne h₁ h₂ => h i k l₁ l₂ hne (lent_set_none h₁).2 (lent_set_none h₂).2

theorem Backs.mono (h : loans.Backs exclusive names segs)
    (hkept : ∀ i ∈ names, ∀ l, loans.lent i = some l → loans'.lent i = some l) :
    loans'.Backs exclusive names segs := by
  induction h with
  | nil => exact .nil
  | cons hhead _ ih =>
    obtain ⟨l, hlent, hkind, hopens⟩ := hhead
    exact .cons ⟨l, hkept _ List.mem_cons_self l hlent, hkind, hopens⟩
      (ih (fun i hi => hkept i (List.mem_cons_of_mem _ hi)))

theorem Backs.of_segment {s : Segment} (h : loans.Backs exclusive names segs) (hs : s ∈ segs) :
    ∃ i ∈ names, ∃ l, loans.lent i = some l ∧ l.exclusive = exclusive ∧ s.Opens l.segment := by
  induction h with
  | nil => cases hs
  | @cons i t names segs hhead _ ih =>
    rcases List.mem_cons.mp hs with rfl | htail
    · exact ⟨i, List.mem_cons_self, hhead⟩
    · obtain ⟨j, hj, hlent⟩ := ih htail
      exact ⟨j, List.mem_cons_of_mem _ hj, hlent⟩

theorem Backs.of_name (h : loans.Backs exclusive names segs) (hi : i ∈ names) :
    ∃ l, loans.lent i = some l ∧ l.exclusive = exclusive := by
  induction h with
  | nil => cases hi
  | cons hhead _ ih =>
    rcases List.mem_cons.mp hi with rfl | htail
    · obtain ⟨l, hlent, hkind, _⟩ := hhead
      exact ⟨l, hlent, hkind⟩
    · exact ih htail

/-- A cell of the segments is a cell of a borrow. -/
theorem Backs.covers (h : loans.Backs exclusive names segs) (hx : CoveredBy segs x) :
    ∃ i ∈ names, ∃ l, loans.lent i = some l ∧ l.exclusive = exclusive ∧ l.segment.Covers x := by
  obtain ⟨s, hs, hcovers⟩ := hx
  obtain ⟨i, hi, l, hlent, hkind, hopens⟩ := h.of_segment hs
  exact ⟨i, hi, l, hlent, hkind, hopens.covers hcovers⟩

/-- What is borrowed exclusively under other names has no cell in common. -/
theorem Separate.apart (h : loans.Separate) (hexclusive : loans.Backs true names segs)
    (hother : loans.Backs exclusive names' segs') (hnames : ∀ i ∈ names, i ∉ names')
    (hx : CoveredBy segs x) : ¬ CoveredBy segs' x := by
  intro hx'
  obtain ⟨i, hi, l, hl, hkind, hcovers⟩ := hexclusive.covers hx
  obtain ⟨j, hj, l', hl', _, hcovers'⟩ := hother.covers hx'
  have hne : i ≠ j := fun heq => hnames i hi (heq ▸ hj)
  exact (h i j l l' hne hl hl' (Or.inl hkind)).not_covers hcovers hcovers'

theorem Backs.names_apart (h : loans.Backs true names segs) (h' : loans.Backs false names' segs') :
    ∀ i ∈ names, i ∉ names' := by
  intro i hi hi'
  obtain ⟨l, hl, hkind⟩ := h.of_name hi
  obtain ⟨l', hl', hkind'⟩ := h'.of_name hi'
  obtain rfl := Option.some.inj (hl.symm.trans hl')
  cases hkind.symm.trans hkind'

theorem Separate.pairwise (h : loans.Separate) (hbacks : loans.Backs true names segs)
    (hnodup : names.Nodup) : segs.Pairwise Segment.Disjoint := by
  induction hbacks with
  | nil => exact .nil
  | @cons i s names segs hhead htail ih =>
    obtain ⟨hfresh, hnodup⟩ := List.nodup_cons.mp hnodup
    refine List.pairwise_cons.mpr ⟨?_, ih hnodup⟩
    intro t ht
    obtain ⟨l, hl, hkind, hopens⟩ := hhead
    obtain ⟨j, hj, l', hl', _, hopens'⟩ := Backs.of_segment htail ht
    have hne : i ≠ j := fun heq => hfresh (heq ▸ hj)
    exact Opens.disjoint (h i j l l' hne hl hl' (Or.inl hkind)) hopens hopens'

end Loans

end IbverbsRs.Framework
