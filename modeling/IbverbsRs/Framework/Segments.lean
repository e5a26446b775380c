import Mathlib.Algebra.Ring.Nat
import Mathlib.Data.List.Basic
import Mathlib.Tactic.Common

namespace IbverbsRs.Framework

/-- A run of cells that starts at `start`. -/
structure Segment where
  start : Nat
  length : Nat
  deriving DecidableEq, Repr

namespace Segment

def stop (s : Segment) : Nat := s.start + s.length

def Covers (s : Segment) (x : Nat) : Prop := s.start ≤ x ∧ x < s.stop

instance (s : Segment) (x : Nat) : Decidable (s.Covers x) :=
  inferInstanceAs (Decidable (_ ∧ _))

/-- No cell lies in both; an empty segment is disjoint from every other one. -/
def Disjoint (s t : Segment) : Prop :=
  s.length = 0 ∨ t.length = 0 ∨ s.stop ≤ t.start ∨ t.stop ≤ s.start

instance (s t : Segment) : Decidable (s.Disjoint t) :=
  inferInstanceAs (Decidable (_ ∨ _))

variable {s t : Segment} {x : Nat}

theorem Disjoint.symm (h : s.Disjoint t) : t.Disjoint s := by
  unfold Disjoint at h ⊢
  omega

theorem Disjoint.not_covers (h : s.Disjoint t) (hx : s.Covers x) : ¬ t.Covers x := by
  unfold Disjoint at h
  unfold Covers stop at *
  omega

/-- All cells of `s` are cells of `t`. -/
def Within (s t : Segment) : Prop := s.length = 0 ∨ t.start ≤ s.start ∧ s.stop ≤ t.stop

instance (s t : Segment) : Decidable (s.Within t) := inferInstanceAs (Decidable (_ ∨ _))

theorem Within.covers (h : s.Within t) (hx : s.Covers x) : t.Covers x := by
  unfold Within at h
  unfold Covers stop at *
  omega

/-- `s` starts where `t` starts and is no longer. -/
structure Opens (s t : Segment) : Prop where
  start : s.start = t.start
  length : s.length ≤ t.length

theorem Opens.covers (h : s.Opens t) (hx : s.Covers x) : t.Covers x := by
  have hstart := h.start
  have hlength := h.length
  unfold Covers stop at *
  omega

theorem Opens.disjoint {s' t' : Segment} (h : t.Disjoint t') (hs : s.Opens t)
    (hs' : s'.Opens t') : s.Disjoint s' := by
  have hstart := hs.start
  have hlength := hs.length
  have hstart' := hs'.start
  have hlength' := hs'.length
  unfold Disjoint stop at *
  omega

/-- The cells of a list of segments. -/
def span (segs : List Segment) : Nat := (segs.map Segment.length).sum

def CoveredBy (segs : List Segment) (x : Nat) : Prop := ∃ s ∈ segs, s.Covers x

instance (segs : List Segment) (x : Nat) : Decidable (CoveredBy segs x) :=
  inferInstanceAs (Decidable (∃ s ∈ segs, _))

@[simp] theorem span_nil : span [] = 0 := rfl

@[simp] theorem span_cons (s : Segment) (segs : List Segment) :
    span (s :: segs) = s.length + span segs := List.sum_cons

end Segment

namespace Cells

open Segment

variable {B : Type}

def read (m : Nat → B) (s : Segment) : List B := (List.range s.length).map (fun k => m (s.start + k))

/-- The values `bs` from `start` on; the rest stays. -/
def write (m : Nat → B) (start : Nat) (bs : List B) : Nat → B :=
  fun x => if start ≤ x then (bs[x - start]?).getD (m x) else m x

/-- The values of the segments, one behind the other. -/
def gather (m : Nat → B) (segs : List Segment) : List B := segs.flatMap (read m)

/-- Fills one segment after the other until the values are used up. -/
def scatter (m : Nat → B) : List Segment → List B → Nat → B
  | [], _ => m
  | s :: segs, bs => scatter (write m s.start (bs.take s.length)) segs (bs.drop s.length)

variable {m m' : Nat → B} {s : Segment} {segs : List Segment} {bs : List B} {start x : Nat}

@[simp] theorem length_read (m : Nat → B) (s : Segment) : (read m s).length = s.length := by
  simp [read]

theorem getElem?_read {k : Nat} (hk : k < s.length) : (read m s)[k]? = some (m (s.start + k)) := by
  simp [read, List.getElem?_range hk]

theorem gather_cons (m : Nat → B) (s : Segment) (segs : List Segment) :
    gather m (s :: segs) = read m s ++ gather m segs := List.flatMap_cons

theorem read_congr (h : ∀ x, s.Covers x → m' x = m x) : read m' s = read m s := by
  apply List.map_congr_left
  intro k hk
  have hlt := List.mem_range.mp hk
  exact h _ ⟨Nat.le_add_right _ _, Nat.add_lt_add_left hlt _⟩

/-- What is gathered depends on the cells of the segments only. -/
theorem gather_congr (h : ∀ x, CoveredBy segs x → m' x = m x) : gather m' segs = gather m segs := by
  induction segs with
  | nil => rfl
  | cons s segs ih =>
    rw [gather_cons, gather_cons, read_congr (fun x hx => h x ⟨s, List.mem_cons_self, hx⟩),
      ih (fun x ⟨t, ht, hx⟩ => h x ⟨t, List.mem_cons_of_mem _ ht, hx⟩)]

theorem write_outside (h : ¬ Covers ⟨start, bs.length⟩ x) : write m start bs x = m x := by
  unfold write
  by_cases hle : start ≤ x
  · have hbeyond : bs.length ≤ x - start := by
      by_contra hlt
      exact h ⟨hle, show x < start + bs.length by omega⟩
    rw [if_pos hle, List.getElem?_eq_none hbeyond]
    rfl
  · exact if_neg hle

theorem write_inside {k : Nat} {b : B} (h : bs[k]? = some b) : write m start bs (start + k) = b := by
  unfold write
  rw [if_pos (Nat.le_add_right _ _), Nat.add_sub_cancel_left, h]
  rfl

/-- What was written is read, as far as the segment goes beyond it. -/
theorem take_read_write (hle : bs.length ≤ s.length) :
    (read (write m s.start bs) s).take bs.length = bs := by
  apply List.ext_getElem?
  intro k
  by_cases hk : k < bs.length
  · rw [List.getElem?_take_of_lt hk, getElem?_read (Nat.lt_of_lt_of_le hk hle),
      write_inside (List.getElem?_eq_getElem hk), List.getElem?_eq_getElem hk]
  · rw [List.getElem?_eq_none (by rw [List.length_take]; omega),
      List.getElem?_eq_none (Nat.le_of_not_lt hk)]

theorem read_write (h : bs.length = s.length) : read (write m s.start bs) s = bs := by
  have htake := take_read_write (m := m) (Nat.le_of_eq h)
  rwa [h, List.take_of_length_le (Nat.le_of_eq (length_read _ s))] at htake

theorem scatter_outside (h : ¬ CoveredBy segs x) : scatter m segs bs x = m x := by
  induction segs generalizing m bs with
  | nil => rfl
  | cons s segs ih =>
    rw [scatter, ih (fun ⟨t, ht, hx⟩ => h ⟨t, List.mem_cons_of_mem _ ht, hx⟩)]
    apply write_outside
    intro hx
    refine h ⟨s, List.mem_cons_self, hx.1, Nat.lt_of_lt_of_le hx.2 ?_⟩
    rw [stop, List.length_take]
    exact Nat.add_le_add_left (Nat.min_le_left _ _) _

theorem write_nil (m : Nat → B) (start : Nat) : write m start [] = m := by
  funext x
  exact write_outside (fun hx => Nat.lt_irrefl _ (Nat.lt_of_le_of_lt hx.1 hx.2))

theorem scatter_nil (m : Nat → B) (segs : List Segment) : scatter m segs [] = m := by
  induction segs generalizing m with
  | nil => rfl
  | cons s segs ih => rw [scatter, List.take_nil, List.drop_nil, write_nil, ih]

theorem read_scatter_cons (h : ∀ t ∈ segs, s.Disjoint t) :
    read (scatter m (s :: segs) bs) s = read (write m s.start (bs.take s.length)) s := by
  apply read_congr
  intro x hx
  exact scatter_outside (fun ⟨t, ht, hcovers⟩ => (h t ht).not_covers hx hcovers)

/-- What was scattered over disjoint segments is gathered from them in the same order, however the
values had been cut before. -/
theorem take_gather_scatter (hdisjoint : segs.Pairwise Segment.Disjoint)
    (hfits : bs.length ≤ span segs) : (gather (scatter m segs bs) segs).take bs.length = bs := by
  induction segs generalizing m bs with
  | nil =>
    rw [span_nil, Nat.le_zero, List.length_eq_zero_iff] at hfits
    rw [hfits]
    rfl
  | cons s segs ih =>
    obtain ⟨hs, htail⟩ := List.pairwise_cons.mp hdisjoint
    rw [span_cons] at hfits
    rw [gather_cons, read_scatter_cons hs, List.take_append, length_read]
    by_cases hlong : s.length ≤ bs.length
    · have hhead : read (write m s.start (bs.take s.length)) s = bs.take s.length :=
        read_write (List.length_take_of_le hlong)
      have hfits' : (bs.drop s.length).length ≤ span segs := by
        rw [List.length_drop]
        omega
      have hrest : (gather (scatter (write m s.start (bs.take s.length)) segs (bs.drop s.length))
          segs).take (bs.drop s.length).length = bs.drop s.length := ih htail hfits'
      rw [List.length_drop] at hrest
      rw [hhead, scatter, hrest, List.take_of_length_le, List.take_append_drop]
      rw [List.length_take]
      omega
    · have hshort : bs.length ≤ s.length := Nat.le_of_not_le hlong
      rw [List.take_of_length_le hshort, take_read_write hshort, Nat.sub_eq_zero_of_le hshort,
        List.take_zero, List.append_nil]

end Cells

end IbverbsRs.Framework
