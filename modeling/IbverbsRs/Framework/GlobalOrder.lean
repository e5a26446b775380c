import IbverbsRs.Framework.GroupCalls

namespace IbverbsRs.Framework

open SignalOp

variable {ι : Type} [DecidableEq ι]

/-- Process `i` stands at a wait inside the call after `A`, and the awaited process has not
sent one signal more than `i` has already consumed. -/
structure Blocked (prog : ι → List ι → List (SignalOp ι)) (trace : ι → List (SignalOp ι))
    (i : ι) (A : List (List ι)) (G : List ι) (executed : List (SignalOp ι)) : Prop where
  member : i ∈ G
  trace_eq : trace i = (callsWith i A).flatMap (prog i) ++ executed
  unanswered : ∃ p rest, prog i G = executed ++ wait p :: rest ∧
    (trace p).count (signal i) ≤ (trace i).count (wait p)

theorem callsWith_comm (i j : ι) (calls : List (List ι)) :
    callsWith i (callsWith j calls) = callsWith j (callsWith i calls) := by
  simp only [callsWith, List.filter_filter]
  exact List.filter_congr (fun G _ => Bool.and_comm _ _)

section NoCircularWait

variable {insts : List (List ι)} {prog : ι → List ι → List (SignalOp ι)}
  {trace : ι → List (SignalOp ι)}

theorem count_signal_callsWith (hd : ∀ G ∈ insts, Discipline G (fun i => prog i G))
    {A B : List (List ι)} (hA : insts = A ++ B) (i p : ι) :
    ((callsWith p A).flatMap (prog p)).count (signal i) =
      ((callsWith i A).flatMap (prog i)).count (wait p) := by
  have hmem : ∀ k, ∀ G ∈ callsWith k A, k ∈ G ∧ Discipline G (fun i => prog i G) := by
    intro k G hG
    obtain ⟨hGA, hk⟩ := List.mem_filter.mp hG
    exact ⟨by simpa using hk, hd G (by simp [hA, hGA])⟩
  exact count_signal_eq_count_wait (hmem p) (hmem i) (callsWith_comm i p A)

/-- A process that has sent the signal of the call in which it is awaited has answered. -/
private theorem answered_of_sent (hd : ∀ G ∈ insts, Discipline G (fun i => prog i G))
    {A B : List (List ι)} {G : List ι} (hA : insts = A ++ G :: B) {i p : ι} (hi : i ∈ G)
    {executed rest : List (SignalOp ι)} (hprog : prog i G = executed ++ wait p :: rest)
    {sent : List (SignalOp ι)} (hsent : signal i ∈ sent)
    (hp : (callsWith p A).flatMap (prog p) ++ sent <+: trace p)
    (hi' : trace i = (callsWith i A).flatMap (prog i) ++ executed) :
    (trace i).count (wait p) < (trace p).count (signal i) := by
  have hG := hd G (by simp [hA])
  have hpG : p ∈ G := (hG.peers i hi (wait p) (by simp [hprog])).1
  have hbal := count_signal_callsWith hd hA i p
  have hm := hG.matched p hpG i hi
  have honce := hG.once p hpG i
  have hpos := List.count_pos_iff.mpr hsent
  have hle := hp.sublist.count_le (signal i)
  rw [hprog, List.count_append, List.count_cons_self] at hm
  rw [hi', List.count_append]
  rw [List.count_append] at hle
  omega

/-- With a global order on the calls and a clock inside each call nobody waits for ever:
if every process has finished or stands at an unanswered wait, all have finished. The
earliest call, and in it the earliest clock, would have a wait that is answered. -/
theorem no_circular_wait (hd : ∀ G ∈ insts, Discipline G (fun i => prog i G))
    (hall : ∀ i, trace i = (callsWith i insts).flatMap (prog i) ∨
      ∃ A G B executed, insts = A ++ G :: B ∧ Blocked prog trace i A G executed)
    {A B : List (List ι)} {G : List ι} (hA : insts = A ++ G :: B) (i : ι)
    (executed : List (SignalOp ι)) : ¬ Blocked prog trace i A G executed := by
  induction hk : A.length using Nat.strong_induction_on generalizing A B G i executed with
  | _ k ih =>
    have hG := hd G (by simp [hA])
    obtain ⟨clock, hmono, hless⟩ := hG.timed
    induction hc : clock i executed.length using Nat.strong_induction_on
      generalizing i executed with
    | _ c ihc =>
      rintro ⟨hi, hti, p, rest, hprog, hle⟩
      have hp : p ∈ G := (hG.peers i hi (wait p) (by simp [hprog])).1
      have hsignal : signal i ∈ prog p G := by
        have hm := hG.matched p hp i hi
        refine List.count_pos_iff.mp ?_
        rw [hm]
        exact List.count_pos_iff.mpr (by simp [hprog])
      have hnot {sent : List (SignalOp ι)} (hsent : signal i ∈ sent)
          (hpre : (callsWith p A).flatMap (prog p) ++ sent <+: trace p) : False :=
        (answered_of_sent hd hA hi hprog hsent hpre hti).not_ge hle
      have hcons (X : List (List ι)) : (callsWith p (A ++ G :: X)).flatMap (prog p) =
          (callsWith p A).flatMap (prog p) ++ prog p G ++ (callsWith p X).flatMap (prog p) := by
        rw [callsWith_append, callsWith_cons_of_mem hp]
        simp
      rcases hall p with hfin | ⟨A', G', B', executed', hA', hblocked⟩
      · refine hnot hsignal ?_
        rw [hfin, hA, hcons]
        exact List.prefix_append _ _
      · rw [hA] at hA'
        rcases Nat.lt_or_ge A'.length A.length with hlt | hge
        · exact ih _ (hk ▸ hlt) (hA.trans hA') p executed' rfl hblocked
        obtain ⟨D, rfl⟩ := List.prefix_of_prefix_length_le ⟨_, rfl⟩ ⟨_, hA'.symm⟩ hge
        rw [List.append_assoc, List.append_cancel_left_eq] at hA'
        cases D with
        | nil =>
          -- both stand in the same call
          obtain ⟨rfl, rfl⟩ := List.cons.inj hA'
          rw [List.append_nil] at hblocked
          have htp := hblocked.trace_eq
          obtain ⟨q, rest', hprog', _⟩ := hblocked.unanswered
          by_cases hsent : signal i ∈ executed'
          · exact hnot hsent (by rw [htp])
          · obtain ⟨a, ha⟩ := List.getElem?_of_mem hsignal
            have hlt : executed'.length ≤ a := by
              by_contra hlt
              rw [hprog', List.getElem?_append_left (by omega)] at ha
              exact hsent (List.mem_of_getElem? ha)
            have hclock := hless p hp i hi a executed.length ha (by simp [hprog])
            exact ihc _ (hc ▸ (hmono p _ _ hlt).trans_lt hclock) p executed' rfl hblocked
        | cons H D =>
          -- `p` has come to a later call
          obtain ⟨rfl, _⟩ := List.cons.inj hA'
          refine hnot hsignal ?_
          rw [hblocked.trace_eq, hcons, List.append_assoc]
          exact List.prefix_append _ _

end NoCircularWait

end IbverbsRs.Framework
