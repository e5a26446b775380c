import Mathlib.Data.List.Count
import Mathlib.Data.List.Infix
import Mathlib.Data.List.Nodup
import Mathlib.Data.List.Range
import Mathlib.Tactic.Common

namespace IbverbsRs.Framework

/-- One operation of a straight-line program that synchronizes by counted signals. -/
inductive SignalOp (ι : Type)
  | signal (target : ι)
  | wait (source : ι)
  deriving DecidableEq

namespace SignalOp

variable {ι κ : Type}

def peer : SignalOp ι → ι
  | signal target => target
  | wait source => source

def map (f : ι → κ) : SignalOp ι → SignalOp κ
  | signal target => signal (f target)
  | wait source => wait (f source)

@[simp] theorem map_signal (f : ι → κ) (i : ι) : (signal i).map f = signal (f i) := rfl

@[simp] theorem map_wait (f : ι → κ) (i : ι) : (wait i).map f = wait (f i) := rfl

@[simp] theorem peer_map (f : ι → κ) (op : SignalOp ι) : (op.map f).peer = f op.peer := by
  cases op <;> rfl

theorem map_inj {f : ι → κ} {a b : SignalOp ι} (hf : f a.peer = f b.peer → a.peer = b.peer)
    (h : a.map f = b.map f) : a = b := by
  cases a <;> cases b <;> simp_all [map, peer]

end SignalOp

open SignalOp

variable {ι κ : Type} [DecidableEq ι] [DecidableEq κ]

/-- A cut assigns to every process the part of its program it has executed. It is
consistent when no executed wait is ahead of the signal that answers it. -/
structure ConsistentCut (members : List ι) (prog cut : ι → List (SignalOp ι)) : Prop where
  isPrefix : ∀ i ∈ members, cut i <+: prog i
  answered : ∀ i ∈ members, ∀ j ∈ members, wait i ∈ cut j → signal j ∈ cut i

/-- What makes the programs of a group a synchronization: signals and waits match one to
one, a finished program has heard from every member, and no wait is circular. -/
structure Discipline (members : List ι) (prog : ι → List (SignalOp ι)) : Prop where
  peers : ∀ i ∈ members, ∀ op ∈ prog i, op.peer ∈ members ∧ op.peer ≠ i
  matched : ∀ i ∈ members, ∀ j ∈ members,
    (prog i).count (signal j) = (prog j).count (wait i)
  once : ∀ i ∈ members, ∀ j, (prog i).count (signal j) ≤ 1
  spreads : ∀ cut, ConsistentCut members prog cut →
    ∀ i ∈ members, cut i = prog i → ∀ j ∈ members, j ≠ i → cut j ≠ []
  timed : ∃ clock : ι → Nat → Nat, (∀ i a b, a ≤ b → clock i a ≤ clock i b) ∧
    ∀ i ∈ members, ∀ j ∈ members, ∀ a b, (prog i)[a]? = some (signal j) →
      (prog j)[b]? = some (wait i) → clock i a < clock j b

theorem count_map_of_injOn {α β : Type} [DecidableEq α] [DecidableEq β] (f : α → β)
    (xs : List α) (a : α) (hf : ∀ x ∈ xs, f x = f a → x = a) :
    (xs.map f).count (f a) = xs.count a := by
  induction xs with
  | nil => rfl
  | cons x xs ih =>
    have htail := ih (fun y hy => hf y (by simp [hy]))
    by_cases hx : x = a
    · subst hx
      simp [htail]
    · have hne : f x ≠ f a := fun h => hx (hf x (by simp) h)
      simp [htail, hx, hne]

omit [DecidableEq ι] in
theorem signal_injective : Function.Injective (signal : ι → SignalOp ι) :=
  fun _ _ h => SignalOp.signal.inj h

omit [DecidableEq ι] in
theorem wait_injective : Function.Injective (wait : ι → SignalOp ι) :=
  fun _ _ h => SignalOp.wait.inj h

theorem count_map_signal (ps : List ι) (q : ι) :
    (ps.map signal).count (signal q) = ps.count q :=
  List.count_map_of_injective ps signal signal_injective q

theorem count_map_wait (ps : List ι) (q : ι) :
    (ps.map wait).count (wait q) = ps.count q :=
  List.count_map_of_injective ps wait wait_injective q

theorem count_signal_map_wait (ps : List ι) (q : ι) :
    (ps.map wait).count (signal q) = 0 :=
  List.count_eq_zero_of_not_mem (by simp)

theorem count_wait_map_signal (ps : List ι) (q : ι) :
    (ps.map signal).count (wait q) = 0 :=
  List.count_eq_zero_of_not_mem (by simp)

/-- If an executed prefix contains something of the second half, it contains the first. -/
theorem mem_prefix_of_mem_append {α : Type} {cut A B : List α} {x y : α}
    (hcut : cut <+: A ++ B) (hx : x ∈ cut) (hxA : x ∉ A) (hy : y ∈ A) : y ∈ cut := by
  rcases Nat.le_total cut.length A.length with hle | hle
  · have hA := (List.isPrefix_append_of_length hle).mp hcut
    exact absurd (hA.subset hx) hxA
  · exact (List.prefix_of_prefix_length_le (List.prefix_append A B) hcut hle).subset hy

section Image

variable {n : Nat} {plan : Nat → List (SignalOp Nat)} {f : Nat → ι}
  {prog : ι → List (SignalOp ι)}

/-- The members of a cut read back through an injective naming of the positions. -/
private def pullback (plan : Nat → List (SignalOp Nat)) (f : Nat → ι)
    (cut : ι → List (SignalOp ι)) (p : Nat) : List (SignalOp Nat) :=
  (plan p).take (cut (f p)).length

omit [DecidableEq ι] in
private theorem map_pullback (hprog : ∀ p < n, prog (f p) = (plan p).map (SignalOp.map f))
    {cut : ι → List (SignalOp ι)} {p : Nat} (hp : p < n) (hcut : cut (f p) <+: prog (f p)) :
    (pullback plan f cut p).map (SignalOp.map f) = cut (f p) := by
  rw [List.prefix_iff_eq_take, hprog p hp] at hcut
  rw [pullback, List.map_take]
  exact hcut.symm

omit [DecidableEq ι] in
/-- Nothing in the plan of a position is named like another operation of the group. -/
private theorem Discipline.eq_of_map_eq (h : Discipline (List.range n) plan)
    (hf : ∀ p < n, ∀ q < n, f p = f q → p = q) {p : Nat} (hp : p < n) {a b : SignalOp Nat}
    (ha : a ∈ plan p) (hb : b.peer < n) (hab : a.map f = b.map f) : a = b := by
  have hpeer : a.peer < n := List.mem_range.mp (h.peers p (List.mem_range.mpr hp) a ha).1
  exact SignalOp.map_inj (hf _ hpeer _ hb) hab

omit [DecidableEq ι] in
private theorem Discipline.pullback_consistent (h : Discipline (List.range n) plan)
    (hf : ∀ p < n, ∀ q < n, f p = f q → p = q)
    (hprog : ∀ p < n, prog (f p) = (plan p).map (SignalOp.map f)) {cut : ι → List (SignalOp ι)}
    (hcut : ConsistentCut ((List.range n).map f) prog cut) :
    ConsistentCut (List.range n) plan (pullback plan f cut) := by
  have hpull {r : Nat} (hr : r < n) := map_pullback hprog hr
    (hcut.isPrefix (f r) (List.mem_map_of_mem (List.mem_range.mpr hr)))
  refine ⟨fun r _ => List.take_prefix _ _, ?_⟩
  intro r hr t ht hw
  rw [List.mem_range] at hr ht
  have hw' : wait (f r) ∈ cut (f t) := by
    rw [← hpull ht]
    exact List.mem_map_of_mem (f := SignalOp.map f) hw
  have hs := hcut.answered (f r) (List.mem_map_of_mem (List.mem_range.mpr hr)) (f t)
    (List.mem_map_of_mem (List.mem_range.mpr ht)) hw'
  rw [← hpull hr] at hs
  obtain ⟨x, hx, hxs⟩ := List.mem_map.mp hs
  rwa [h.eq_of_map_eq hf (b := signal t) hr (List.mem_of_mem_take hx) ht hxs] at hx

private theorem idxOf_image (hf : ∀ p < n, ∀ q < n, f p = f q → p = q) {p : Nat} (hp : p < n) :
    ((List.range n).map f).idxOf (f p) = p := by
  have hnodup : ((List.range n).map f).Nodup :=
    List.Nodup.map_on (fun x hx y hy => hf x (List.mem_range.mp hx) y (List.mem_range.mp hy))
      List.nodup_range
  have hidx := hnodup.idxOf_getElem p (by simpa using hp)
  simpa using hidx

/-- A discipline on positions `0 .. n - 1` is one on any named group of `n` members. -/
theorem Discipline.image (h : Discipline (List.range n) plan)
    (hf : ∀ p < n, ∀ q < n, f p = f q → p = q)
    (hprog : ∀ p < n, prog (f p) = (plan p).map (SignalOp.map f)) :
    Discipline ((List.range n).map f) prog := by
  have hlt {p : Nat} (hp : p < n) {op : SignalOp Nat} (hop : op ∈ plan p) : op.peer < n :=
    List.mem_range.mp (h.peers p (List.mem_range.mpr hp) op hop).1
  have hcount {p : Nat} (hp : p < n) {op : SignalOp Nat} (hop : op.peer < n) :
      (prog (f p)).count (op.map f) = (plan p).count op := by
    rw [hprog p hp]
    exact count_map_of_injOn _ _ _ (fun x hx => h.eq_of_map_eq hf hp hx hop)
  have hmem {i : ι} (hi : i ∈ (List.range n).map f) : ∃ p < n, f p = i := by
    simpa [List.mem_map] using hi
  refine ⟨?_, ?_, ?_, ?_, ?_⟩
  · intro i hi op hop
    obtain ⟨p, hp, rfl⟩ := hmem hi
    rw [hprog p hp] at hop
    obtain ⟨x, hx, rfl⟩ := List.mem_map.mp hop
    obtain ⟨hxm, hxne⟩ := h.peers p (List.mem_range.mpr hp) x hx
    refine ⟨?_, ?_⟩
    · rw [peer_map]
      exact List.mem_map_of_mem hxm
    · rw [peer_map]
      exact fun heq => hxne (hf _ (hlt hp hx) _ hp heq)
  · intro i hi j hj
    obtain ⟨p, hp, rfl⟩ := hmem hi
    obtain ⟨q, hq, rfl⟩ := hmem hj
    have hs : (prog (f p)).count ((signal q).map f) = (plan p).count (signal q) := hcount hp hq
    have hw : (prog (f q)).count ((wait p).map f) = (plan q).count (wait p) := hcount hq hp
    have hpq := h.matched p (List.mem_range.mpr hp) q (List.mem_range.mpr hq)
    simp only [map_signal, map_wait] at hs hw
    rw [hs, hw, hpq]
  · intro i hi j
    obtain ⟨p, hp, rfl⟩ := hmem hi
    by_cases hj : signal j ∈ prog (f p)
    · rw [hprog p hp] at hj
      obtain ⟨x, hx, hxj⟩ := List.mem_map.mp hj
      have hx1 := h.once p (List.mem_range.mpr hp) x.peer
      have hxs : x = signal x.peer := by cases x <;> simp_all [SignalOp.map, SignalOp.peer]
      have hc := hcount hp (hlt hp hx)
      rw [hxj] at hc
      rw [hc, hxs]
      exact hx1
    · rw [List.count_eq_zero_of_not_mem hj]
      exact Nat.zero_le 1
  · intro cut hcut i hi hfull j hj hne
    obtain ⟨p, hp, rfl⟩ := hmem hi
    obtain ⟨q, hq, rfl⟩ := hmem hj
    have hpull := map_pullback hprog hq
      (hcut.isPrefix (f q) (List.mem_map_of_mem (List.mem_range.mpr hq)))
    have hfull' : pullback plan f cut p = plan p := by
      rw [pullback, hfull, hprog p hp, List.length_map, List.take_length]
    have hq' := h.spreads _ (h.pullback_consistent hf hprog hcut) p (List.mem_range.mpr hp) hfull' q
      (List.mem_range.mpr hq) (fun he => hne (by rw [he]))
    rw [← hpull]
    simpa using hq'
  · obtain ⟨clock, hmono, hless⟩ := h.timed
    refine ⟨fun i a => clock (((List.range n).map f).idxOf i) a, fun i a b hab => hmono _ a b hab,
      ?_⟩
    intro i hi j hj a b ha hb
    obtain ⟨p, hp, rfl⟩ := hmem hi
    obtain ⟨q, hq, rfl⟩ := hmem hj
    rw [hprog p hp, List.getElem?_map] at ha
    rw [hprog q hq, List.getElem?_map] at hb
    obtain ⟨x, hx, hxs⟩ := Option.map_eq_some_iff.mp ha
    obtain ⟨y, hy, hyw⟩ := Option.map_eq_some_iff.mp hb
    obtain rfl : x = signal q :=
      h.eq_of_map_eq hf (b := signal q) hp (List.mem_of_getElem? hx) hq hxs
    obtain rfl : y = wait p := h.eq_of_map_eq hf (b := wait p) hq (List.mem_of_getElem? hy) hp hyw
    simp only [idxOf_image hf hp, idxOf_image hf hq]
    exact hless p (List.mem_range.mpr hp) q (List.mem_range.mpr hq) a b hx hy

end Image

end IbverbsRs.Framework
