import IbverbsRs.Framework.Signalling
import Mathlib.Algebra.BigOperators.Group.List.Basic

namespace IbverbsRs.Framework

open SignalOp

variable {ι : Type} [DecidableEq ι]

/-- A sequence split at an element is determined by the occurrences before it. -/
theorem split_unique {α : Type} [BEq α] [LawfulBEq α] {a : α} {X Y X' Y' : List α}
    (h : X ++ a :: Y = X' ++ a :: Y') (hc : X.count a = X'.count a) : X = X' := by
  induction X generalizing X' with
  | nil =>
    cases X' with
    | nil => rfl
    | cons b X' =>
      obtain ⟨rfl, _⟩ := List.cons.inj h
      simp at hc
  | cons b X ih =>
    cases X' with
    | nil =>
      obtain ⟨rfl, _⟩ := List.cons.inj h
      simp at hc
    | cons c X' =>
      obtain ⟨rfl, htail⟩ := List.cons.inj h
      rw [ih htail (by simpa [List.count_cons] using hc)]

theorem prefix_append_cases {α : Type} {l a b : List α} (h : l <+: a ++ b) :
    l <+: a ∨ ∃ t, l = a ++ t ∧ t <+: b := by
  rcases Nat.le_total l.length a.length with hle | hle
  · exact Or.inl ((List.isPrefix_append_of_length hle).mp h)
  · obtain ⟨t, rfl⟩ := List.prefix_of_prefix_length_le (List.prefix_append a b) h hle
    exact Or.inr ⟨t, rfl, (List.prefix_append_right_inj a).mp h⟩

/-- The calls of a process that involve `j`. -/
def callsWith (j : ι) (calls : List (List ι)) : List (List ι) :=
  calls.filter (fun G => decide (j ∈ G))

@[simp] theorem callsWith_append (j : ι) (xs ys : List (List ι)) :
    callsWith j (xs ++ ys) = callsWith j xs ++ callsWith j ys := by
  simp [callsWith]

theorem callsWith_cons_of_mem {j : ι} {G : List ι} (hj : j ∈ G) (xs : List (List ι)) :
    callsWith j (G :: xs) = G :: callsWith j xs := by
  simp [callsWith, hj]

theorem count_callsWith {j : ι} {G : List ι} (hj : j ∈ G) (xs : List (List ι)) :
    (callsWith j xs).count G = xs.count G := by
  rw [callsWith, List.count_filter]
  simpa using hj

theorem exists_split_of_callsWith {i : ι} {P T : List (List ι)} {G : List ι}
    {calls : List (List ι)} (h : callsWith i calls = P ++ G :: T) :
    ∃ A B, calls = A ++ G :: B ∧ callsWith i A = P := by
  obtain ⟨A₁, C, rfl, hA₁, hC⟩ := List.filter_eq_append_iff.mp h
  obtain ⟨A₂, B, rfl, hA₂, hG, hB⟩ := List.filter_eq_cons_iff.mp hC
  refine ⟨A₁ ++ A₂, B, by simp, ?_⟩
  rw [callsWith_append]
  have hnil : callsWith i A₂ = [] := List.filter_eq_nil_iff.mpr hA₂
  rw [hnil, List.append_nil]
  exact hA₁

/-- A common call of two processes splits both their sequences at the same place. -/
theorem exists_matching_split {i j : ι} {A B : List (List ι)} {G : List ι}
    {calls : List (List ι)} (hj : j ∈ G)
    (hcommon : callsWith j (A ++ G :: B) = callsWith i calls) :
    ∃ A' B', calls = A' ++ G :: B' ∧ callsWith i A' = callsWith j A := by
  rw [callsWith_append, callsWith_cons_of_mem hj] at hcommon
  exact exists_split_of_callsWith hcommon.symm

/-- The last call of a process that involves `j`. -/
theorem exists_last_call {j : ι} {calls : List (List ι)} (h : callsWith j calls ≠ []) :
    ∃ A G B, calls = A ++ G :: B ∧ j ∈ G ∧ callsWith j B = [] := by
  induction calls with
  | nil => exact absurd rfl h
  | cons H calls ih =>
    by_cases hrest : callsWith j calls = []
    · have hj : j ∈ H := by
        by_contra hj
        exact h (by simpa [callsWith, hj] using hrest)
      exact ⟨[], H, calls, rfl, hj, hrest⟩
    · obtain ⟨A, G, B, rfl, hG, hB⟩ := ih hrest
      exact ⟨H :: A, G, B, rfl, hG, hB⟩

/-- A prefix of a concatenation consists of whole pieces and a part of the next one. -/
theorem exists_whole_pieces {α β : Type} (f : α → List β) {xs : List α} {l : List β}
    (h : l <+: xs.flatMap f) : ∃ A B part, xs = A ++ B ∧ l = A.flatMap f ++ part ∧
      (part = [] ∨ ∃ x B', B = x :: B' ∧ part <+: f x) := by
  induction xs generalizing l with
  | nil => exact ⟨[], [], [], rfl, by simpa using h, Or.inl rfl⟩
  | cons x xs ih =>
    rw [List.flatMap_cons] at h
    rcases prefix_append_cases h with hin | ⟨t, rfl, ht⟩
    · exact ⟨[], x :: xs, l, rfl, rfl, Or.inr ⟨x, xs, rfl, hin⟩⟩
    · obtain ⟨A, B, part, rfl, rfl, hpart⟩ := ih ht
      exact ⟨x :: A, B, part, rfl, by simp, hpart⟩

section Matching

variable {prog : ι → List ι → List (SignalOp ι)}

theorem count_signal_outside {i j : ι} {G : List ι} (hd : Discipline G (fun i => prog i G))
    (hi : i ∈ G) (hj : j ∉ G) : (prog i G).count (signal j) = 0 :=
  List.count_eq_zero_of_not_mem (fun h => hj (hd.peers i hi _ h).1)

theorem count_wait_outside {i j : ι} {G : List ι} (hd : Discipline G (fun i => prog i G))
    (hj : j ∈ G) (hi : i ∉ G) : (prog j G).count (wait i) = 0 :=
  List.count_eq_zero_of_not_mem (fun h => hi (hd.peers j hj _ h).1)

/-- Only the calls that involve `j` contribute operations on `j`. -/
theorem count_flatMap_callsWith {i j : ι} {x : SignalOp ι} {A : List (List ι)}
    (hzero : ∀ G ∈ A, j ∉ G → (prog i G).count x = 0) :
    (A.flatMap (prog i)).count x = ((callsWith j A).flatMap (prog i)).count x := by
  induction A with
  | nil => rfl
  | cons G A ih =>
    have htail := ih (fun H hH => hzero H (by simp [hH]))
    by_cases hj : j ∈ G
    · rw [callsWith_cons_of_mem hj]
      simp [htail]
    · have hG := hzero G (by simp) hj
      simp [callsWith, hj, hG] at htail ⊢
      exact htail

/-- Over the same common calls, `i` signals `j` exactly as often as `j` waits for `i`. -/
theorem count_signal_eq_count_wait {i j : ι} {A A' : List (List ι)}
    (hA : ∀ G ∈ A, i ∈ G ∧ Discipline G (fun i => prog i G))
    (hA' : ∀ G ∈ A', j ∈ G ∧ Discipline G (fun i => prog i G))
    (hcommon : callsWith j A = callsWith i A') :
    (A.flatMap (prog i)).count (signal j) = (A'.flatMap (prog j)).count (wait i) := by
  rw [count_flatMap_callsWith (j := j)
      (fun G hG hj => count_signal_outside (hA G hG).2 (hA G hG).1 hj),
    count_flatMap_callsWith (j := i)
      (fun G hG hi => count_wait_outside (hA' G hG).2 (hA' G hG).1 hi), ← hcommon,
    List.count_flatMap, List.count_flatMap]
  congr 1
  apply List.map_congr_left
  intro G hG
  obtain ⟨hGA, hjG⟩ := List.mem_filter.mp hG
  obtain ⟨hiG, hd⟩ := hA G hGA
  exact hd.matched i hiG j (by simpa using hjG)

end Matching

/-- What a run of all processes leaves behind: every trace is a prefix of the process's own
program, and no process has passed more waits than the other side has sent signals. -/
structure CountedTraces (calls : ι → List (List ι)) (prog : ι → List ι → List (SignalOp ι))
    (trace : ι → List (SignalOp ι)) : Prop where
  valid : ∀ i, ∀ G ∈ calls i, i ∈ G ∧ Discipline G (fun i => prog i G)
  common : ∀ i j, callsWith j (calls i) = callsWith i (calls j)
  isPrefix : ∀ i, trace i <+: (calls i).flatMap (prog i)
  counted : ∀ i j, i ≠ j → (trace j).count (wait i) ≤ (trace i).count (signal j)

namespace CountedTraces

variable {calls : ι → List (List ι)} {prog : ι → List ι → List (SignalOp ι)}
  {trace : ι → List (SignalOp ι)}

/-- The part of a trace that belongs to the call after the calls `A`. -/
def part (prog : ι → List ι → List (SignalOp ι)) (trace : ι → List (SignalOp ι)) (i : ι)
    (A : List (List ι)) (G : List ι) : List (SignalOp ι) :=
  ((trace i).drop (A.flatMap (prog i)).length).take (prog i G).length

/-- A trace either ends before a call, or runs through everything before it. -/
theorem trace_cases (h : CountedTraces calls prog trace) {i : ι} {A B : List (List ι)}
    {G : List ι} (hi : calls i = A ++ G :: B) :
    trace i <+: A.flatMap (prog i) ∧ part prog trace i A G = [] ∨
      ∃ rest, trace i = A.flatMap (prog i) ++ part prog trace i A G ++ rest ∧
        part prog trace i A G <+: prog i G ∧
        (rest = [] ∨ part prog trace i A G = prog i G) := by
  have hp := h.isPrefix i
  rw [hi, List.flatMap_append, List.flatMap_cons] at hp
  rcases prefix_append_cases hp with hshort | ⟨tail, htail, hrest⟩
  · left
    refine ⟨hshort, ?_⟩
    rw [part, List.drop_eq_nil_of_le hshort.length_le, List.take_nil]
  · right
    have hpart : part prog trace i A G = tail.take (prog i G).length := by
      simp [part, htail]
    rw [hpart, htail]
    rcases prefix_append_cases hrest with hin | ⟨more, hmore, _⟩
    · have htake : tail.take (prog i G).length = tail := List.take_of_length_le hin.length_le
      exact ⟨[], by simp [htake], by rw [htake]; exact hin, Or.inl rfl⟩
    · have htake : tail.take (prog i G).length = prog i G := by simp [hmore]
      exact ⟨more, by simp [hmore], by rw [htake], Or.inr htake⟩

/-- The counting argument: a wait passed inside a common call is answered by the signal
sent inside the same call, because all earlier common calls are balanced. -/
theorem answered (h : CountedTraces calls prog trace) {i j : ι} (hne : i ≠ j)
    {A B A' B' : List (List ι)} {G : List ι} (hi : calls i = A ++ G :: B)
    (hj : calls j = A' ++ G :: B') (hA : callsWith j A = callsWith i A')
    (hw : wait i ∈ part prog trace j A' G) : signal j ∈ part prog trace i A G := by
  have hvi : ∀ H ∈ A, i ∈ H ∧ Discipline H (fun i => prog i H) :=
    fun H hH => h.valid i H (by simp [hi, hH])
  have hvj : ∀ H ∈ A', j ∈ H ∧ Discipline H (fun i => prog i H) :=
    fun H hH => h.valid j H (by simp [hj, hH])
  have hbal := count_signal_eq_count_wait hvi hvj hA
  have hcount := h.counted i j hne
  -- `j` has passed all waits of the earlier calls and one more
  have hlow : (A'.flatMap (prog j)).count (wait i) + 1 ≤ (trace j).count (wait i) := by
    rcases h.trace_cases hj with ⟨_, hnil⟩ | ⟨rest, htr, _, _⟩
    · simp [hnil] at hw
    · rw [htr]
      have hpos := List.count_pos_iff.mpr hw
      simp only [List.count_append]
      omega
  rcases h.trace_cases hi with ⟨hshort, _⟩ | ⟨rest, htr, hpre, hend⟩
  · have hle := hshort.sublist.count_le (signal j)
    omega
  · rcases hend with rfl | hfull
    · rw [htr] at hcount
      simp only [List.append_nil, List.count_append] at hcount
      exact List.count_pos_iff.mp (by omega)
    · rw [hfull]
      obtain ⟨hiG, hd⟩ := h.valid i G (by simp [hi])
      obtain ⟨hjG, _⟩ := h.valid j G (by simp [hj])
      have hwprog : wait i ∈ prog j G := by
        rcases h.trace_cases hj with ⟨_, hnil⟩ | ⟨_, _, hprej, _⟩
        · simp [hnil] at hw
        · exact hprej.subset hw
      have hm := hd.matched i hiG j hjG
      exact List.count_pos_iff.mp (by rw [hm]; exact List.count_pos_iff.mpr hwprog)

/-- The calls of `j` up to its counterpart of the call of `i` after `A`. -/
theorem exists_counterpart (h : CountedTraces calls prog trace) {i : ι} {A B : List (List ι)}
    {G : List ι} (hi : calls i = A ++ G :: B) {j : ι} (hj : j ∈ G) :
    ∃ A' B', calls j = A' ++ G :: B' ∧ callsWith i A' = callsWith j A := by
  have hc := h.common i j
  rw [hi] at hc
  exact exists_matching_split hj hc

/-- Safety of a sequence of group calls: once `i` has executed its whole call, every other
member has executed some operation of its own counterpart of that call. -/
theorem part_ne_nil_of_finished (h : CountedTraces calls prog trace) {i : ι}
    {A B : List (List ι)} {G : List ι} (hi : calls i = A ++ G :: B)
    (hdone : part prog trace i A G = prog i G) {j : ι} (hj : j ∈ G) (hne : j ≠ i)
    {A' B' : List (List ι)} (hcj : calls j = A' ++ G :: B')
    (hA' : callsWith i A' = callsWith j A) : part prog trace j A' G ≠ [] := by
  obtain ⟨hiG, hd⟩ := h.valid i G (by simp [hi])
  -- every member's sequence splits at the same occurrence of `G`
  have hsplit : ∀ k ∈ G, ∃ X Y, calls k = X ++ G :: Y ∧ X.count G = A.count G := by
    intro k hk
    obtain ⟨X, Y, hX, hXA⟩ := h.exists_counterpart hi hk
    refine ⟨X, Y, hX, ?_⟩
    rw [← count_callsWith hiG X, hXA, count_callsWith hk]
  choose! X Y hX hXc using hsplit
  have hmatch : ∀ k ∈ G, ∀ l ∈ G, callsWith l (X k) = callsWith k (X l) := by
    intro k hk l hl
    obtain ⟨X', Y', hX', hXX'⟩ := h.exists_counterpart (hX k hk) hl
    have hcount : X'.count G = (X l).count G := by
      rw [← count_callsWith hk X', hXX', count_callsWith hl, hXc k hk, hXc l hl]
    have heq : X' = X l := split_unique (hX'.symm.trans (hX l hl)) hcount
    rw [← heq, hXX']
  have hXi : X i = A := split_unique ((hX i hiG).symm.trans hi) (hXc i hiG)
  have hXj : X j = A' := by
    refine split_unique ((hX j hj).symm.trans hcj) ?_
    rw [hXc j hj, ← count_callsWith hiG A', hA', count_callsWith hj]
  have hcut : ConsistentCut G (fun k => prog k G) (fun k => part prog trace k (X k) G) := by
    refine ⟨fun k hk => ?_, fun k hk l hl hw => ?_⟩
    · rcases h.trace_cases (hX k hk) with ⟨_, hnil⟩ | ⟨_, _, hpre, _⟩
      · rw [hnil]
        exact List.nil_prefix
      · exact hpre
    · have hkl : k ≠ l := by
        rintro rfl
        have hmem : wait k ∈ prog k G := by
          rcases h.trace_cases (hX k hk) with ⟨_, hnil⟩ | ⟨_, _, hpre, _⟩
          · simp [hnil] at hw
          · exact hpre.subset hw
        exact (hd.peers k hk _ hmem).2 rfl
      exact h.answered hkl (hX k hk) (hX l hl) (hmatch k hk l hl) hw
  have hfin : part prog trace i (X i) G = prog i G := by rw [hXi, hdone]
  have hheard := hd.spreads _ hcut i hiG hfin j hj hne
  rwa [hXj] at hheard

omit [DecidableEq ι] in
theorem part_eq_of_whole {i : ι} {A : List (List ι)} {G : List ι} {rest : List (SignalOp ι)}
    (htr : trace i = A.flatMap (prog i) ++ prog i G ++ rest) :
    part prog trace i A G = prog i G := by
  simp [part, htr, List.append_assoc]

theorem count_self (h : CountedTraces calls prog trace) {i : ι} {op : SignalOp ι}
    (hop : op.peer = i) : (trace i).count op = 0 := by
  refine List.count_eq_zero_of_not_mem (fun hm => ?_)
  obtain ⟨G, hG, hmem⟩ := List.mem_flatMap.mp ((h.isPrefix i).subset hm)
  obtain ⟨hiG, hd⟩ := h.valid i G hG
  exact (hd.peers i hiG op hmem).2 hop

/-- Signals are at most two ahead of the waits that answer them: one sent in the call in
progress, one in the last finished call, which the other side has begun. -/
theorem drift (h : CountedTraces calls prog trace) (i j : ι) :
    (trace i).count (signal j) ≤ (trace j).count (wait i) + 2 := by
  rcases eq_or_ne j i with rfl | hij
  · have hself : (trace j).count (signal j) = 0 := h.count_self rfl
    omega
  obtain ⟨A, R, piece, hcalls, htrace, hpiece⟩ := exists_whole_pieces _ (h.isPrefix i)
  have hpiece_le : piece.count (signal j) ≤ 1 := by
    rcases hpiece with rfl | ⟨G, R', rfl, hpre⟩
    · simp
    · obtain ⟨hiG, hd⟩ := h.valid i G (by simp [hcalls])
      exact (hpre.sublist.count_le _).trans (hd.once i hiG j)
  have hwhole : ∀ H ∈ A, i ∈ H ∧ Discipline H (fun i => prog i H) :=
    fun H hH => h.valid i H (by simp [hcalls, hH])
  have houtside : ∀ A', (∀ H ∈ A', H ∈ A) → callsWith j A' = [] →
      (A'.flatMap (prog i)).count (signal j) = 0 := by
    intro A' hA' hnone
    rw [count_flatMap_callsWith (fun H hH hj =>
      count_signal_outside (hwhole H (hA' H hH)).2 (hwhole H (hA' H hH)).1 hj), hnone]
    rfl
  have hcount : (trace i).count (signal j) =
      (A.flatMap (prog i)).count (signal j) + piece.count (signal j) := by
    rw [htrace, List.count_append]
  by_cases hnone : callsWith j A = []
  · have hA := houtside A (fun H hH => hH) hnone
    omega
  · obtain ⟨A₁, G, A₂, rfl, hjG, hA₂⟩ := exists_last_call hnone
    obtain ⟨hiG, hd⟩ := hwhole G (by simp)
    have hlast := hd.once i hiG j
    have hrest := houtside A₂ (fun H hH => by simp [hH]) hA₂
    have hsplit : calls i = A₁ ++ G :: (A₂ ++ R) := by simp [hcalls]
    have hwholeG : trace i =
        A₁.flatMap (prog i) ++ prog i G ++ (A₂.flatMap (prog i) ++ piece) := by
      simp [htrace]
    have hfin : part prog trace i A₁ G = prog i G := part_eq_of_whole hwholeG
    obtain ⟨A', B', hcj, hA'⟩ := h.exists_counterpart hsplit hjG
    have hbal := count_signal_eq_count_wait (i := i) (j := j)
      (fun H hH => hwhole H (by simp [hH]))
      (fun H hH => h.valid j H (by simp [hcj, hH])) hA'.symm
    have hbegun := h.part_ne_nil_of_finished hsplit hfin hjG hij hcj hA'
    rcases h.trace_cases hcj with ⟨_, hnil⟩ | ⟨rest, htr, _, _⟩
    · exact absurd hnil hbegun
    · simp only [List.flatMap_append, List.flatMap_cons, List.count_append] at hcount
      rw [htr]
      simp only [List.count_append]
      omega

/-- A process signals another one at most once in each of its calls. -/
theorem count_signal_le_length (h : CountedTraces calls prog trace) (i j : ι) :
    (trace i).count (signal j) ≤ (calls i).length := by
  have hsum : ∀ xs : List (List ι), (∀ G ∈ xs, G ∈ calls i) →
      (xs.flatMap (prog i)).count (signal j) ≤ xs.length := by
    intro xs hxs
    induction xs with
    | nil => simp
    | cons G xs ih =>
      obtain ⟨hiG, hd⟩ := h.valid i G (hxs G (by simp))
      have honce := hd.once i hiG j
      have htail := ih (fun H hH => hxs H (by simp [hH]))
      simp only [List.flatMap_cons, List.count_append, List.length_cons]
      omega
  exact ((h.isPrefix i).sublist.count_le _).trans (hsum _ (fun _ hG => hG))

end CountedTraces

end IbverbsRs.Framework
