import IbverbsRs.MultiChannel.UnpolledOutcome

namespace IbverbsRs

open Ibverbs Framework

namespace UnpolledCall

open Machine Call TransitionSystem

variable {W : Type} {channels : List Channel} {m₀ : Machine} {kind : OpKind}
  {requests : List (PeerRequest W)} {answers : Nat → Option Nat} {m : Machine}
  {posted tried : List (PeerRequest W)}

theorem Posted.roomy (h : Posted channels m₀ kind answers m posted tried)
    (hroom : Room m₀ requests) (htried : tried.length ≤ requests.length) : m.Roomy := by
  apply roomy_of h.buffs (fun ch hch => (hroom ch hch).2)
  intro c n hn
  rw [h.exact.posts c] at hn
  obtain ⟨n₀, hn₀, rfl⟩ := Option.map_eq_some_iff.mp hn
  obtain ⟨ch, hch, rfl⟩ := Option.map_eq_some_iff.mp hn₀
  have hcount := List.count_le_length (a := c) (l := tried.map PeerRequest.peer)
  rw [List.length_map] at hcount
  have hbound := (hroom ch (List.mem_of_getElem? hch)).1
  omega

/-- How far an unpolled operation is from its end. -/
def weight (c : UnpolledCall W) : Nat :=
  match c.phase with
  | .posting todo wrs => 3 * todo.length + 2 * wrs.length + 2
  | .failing wrs _ => 2 * wrs.length + if c.machine.control = .user then 1 else 2
  | .returned _ => 0

variable (results : Nat → UInt64 → WorkResult)

/-- The operation can go on, and gets closer to its end. -/
def Advances (kind : OpKind) (requests : List (PeerRequest W)) (answers : Nat → Option Nat)
    (m₀ : Machine) (results : Nat → UInt64 → WorkResult) : UnpolledCall W → Prop :=
  (unpolled kind requests answers m₀).Nearer (CallEvent.proceeds results) weight

theorem advances_of_go {c c' : UnpolledCall W} (hstep : go kind answers c 1 = some c')
    (hless : weight c' < weight c) : Advances kind requests answers m₀ results c :=
  Nearer.of_step (e := .go 1) rfl hstep hless

theorem posting_advances {todo : List (PeerRequest W)} {wrs : List Nat} (idle : m.control = .user) :
    Advances kind requests answers m₀ results ⟨m, .posting todo wrs⟩ := by
  cases todo with
  | nil =>
    apply advances_of_go
    · rfl
    · simp [weight]
  | cons request todo =>
    have hstep : m.step (.post kind request.peer none (answers wrs.length)) =
        some (m.post kind request.peer none (answers wrs.length)) := if_pos ⟨idle, rfl⟩
    cases hpost : m.channel_post kind request.peer (answers wrs.length) with
    | error e =>
      apply advances_of_go
      · simp only [go, hstep, Option.map_some, hpost]
        rfl
      · simp only [weight, List.length_cons]
        split <;> omega
    | ok w =>
      apply advances_of_go
      · simp only [go, hstep, Option.map_some, hpost]
        rfl
      · simp only [weight, List.length_append, List.length_cons, List.length_nil]
        omega

theorem failing_advances {wrs : List Nat} {e : IbvError} (idle : m.control = .user)
    (soles : ∀ h ∈ wrs, m.Sole h) :
    Advances kind requests answers m₀ results ⟨m, .failing wrs e⟩ := by
  cases wrs with
  | nil =>
    apply advances_of_go
    · simp only [go, if_pos idle]
      rfl
    · simp [weight, idle]
  | cons wr wrs =>
    obtain ⟨m', hdrop, hcontrol, _⟩ := drop_sole (soles wr List.mem_cons_self) idle
    apply advances_of_go
    · simp only [go, if_pos idle, hdrop]
      rfl
    · simp [weight, idle, hcontrol]
      omega

/-- The spin loop in `Drop` is one of the operation, until it answers. -/
theorem dropping_follows {m₁ m₂ : Machine} {wr : Nat} {wrs : List Nat} {e : IbvError}
    {r : TransportResult} {fs : List Event} (spin : m.control = .userDrop wr)
    (hfs : ∀ ev ∈ fs, ev.proceeds results) (hrun : (system channels).runFrom m fs = some m₁)
    (hcontrol : m₁.control = m.control) (hanswer : m₁.pollWork wr 1 = some (some r, m₂)) :
    Advances kind requests answers m₀ results ⟨m, .failing wrs e⟩ := by
  have hbusy {m : Machine} (spin : m.control = .userDrop wr) : m.control ≠ .user := by
    rw [spin]
    exact Control.noConfusion
  have hlast {m m₂ : Machine} {r : TransportResult} (spin : m.control = .userDrop wr)
      (hanswer : m.pollWork wr 1 = some (some r, m₂)) :
      Advances kind requests answers m₀ results ⟨m, .failing wrs e⟩ := by
    have hstep : m.step (.iterate 1) =
        some { m₂.modify wr (fun x => { x with released := true }) with control := .user } := by
      simp only [Machine.step, iterate, spin, hanswer]
      rfl
    apply advances_of_go
    · simp only [go, if_neg (hbusy spin), hstep]
      rfl
    · simp [weight, spin]
  induction fs generalizing m with
  | nil =>
    obtain rfl := Option.some.inj hrun
    exact hlast spin hanswer
  | cons ev fs ih =>
    obtain ⟨m', hfirst, hrest⟩ := Option.bind_eq_some_iff.mp hrun
    have hev := hfs ev List.mem_cons_self
    have hfs' : ∀ ev ∈ fs, ev.proceeds results := fun ev hmem => hfs ev (List.mem_cons_of_mem _ hmem)
    have hweight (hsame : m'.control = m.control) : weight (⟨m', .failing wrs e⟩ : UnpolledCall W) ≤
        weight (⟨m, .failing wrs e⟩ : UnpolledCall W) := by
      simp [weight, hsame]
    cases ev with
    | complete k wc =>
      have hsame : m'.control = m.control := (alike_complete hfirst).2.1
      have hmore := ih (hsame.trans spin) hfs' hrest (hcontrol.trans hsame.symm)
      exact hmore.after (e := .complete k wc) hev
        (Option.map_eq_some_iff.mpr ⟨m', hfirst, rfl⟩) (hweight hsame)
    | iterate num_polled =>
      obtain rfl : num_polled = 1 := hev
      have hround : m.iterate 1 = some m' := hfirst
      simp only [iterate, spin] at hround
      obtain ⟨⟨poll, m₃⟩, hpoll, heq⟩ := Option.map_eq_some_iff.mp hround
      cases poll with
      | none =>
        obtain rfl : m₃ = m' := heq
        have hsame : m₃.control = m.control := (pollWork_frame hpoll).1
        have hmore := ih (hsame.trans spin) hfs' hrest (hcontrol.trans hsame.symm)
        refine hmore.after (e := .go 1) rfl ?_ (hweight hsame)
        have hstep : m.step (.iterate 1) = some m₃ := hfirst
        change go kind answers ⟨m, .failing wrs e⟩ 1 = _
        simp only [go, if_neg (hbusy spin), hstep]
        rfl
      | some r' => exact hlast spin hpoll
    | next =>
      have hnext : m.next = some m' := hfirst
      simp only [next, spin] at hnext
      cases hnext
    | post _ _ _ _ | poll _ _ | spin _ | clone _ | drop _ | forget _ | openScope _
    | closeScope _ => exact hev.elim

theorem dropping_advances {request : PeerRequest W} {e : IbvError} {done wrs : List Nat} {wr : Nat}
    (hnew : ∀ ch ∈ channels, ∃ n, ch = Channel.new n) (hroom : Room m₀ requests)
    (dropping : m.control = .userDrop wr)
    (refused : Refused m₀ kind requests answers posted request e)
    (inside : Posted channels m₀ kind answers m posted (posted ++ [request]))
    (order : handlesOf m₀ posted = done ++ wr :: wrs) :
    Advances kind requests answers m₀ results ⟨m, .failing wrs e⟩ := by
  have hmem : wr ∈ handlesOf m₀ posted := by
    rw [order]
    exact List.mem_append_right _ List.mem_cons_self
  have hlt : wr < m.handles.length := inside.length ▸ (mem_handlesOf.mp hmem).2
  have htried : (posted ++ [request]).length ≤ requests.length := by
    obtain ⟨todo, split⟩ := refused.split
    rw [split]
    simp
  obtain ⟨es, _, hrun⟩ := inside.reached
  obtain ⟨fs, m₁, r, m₂, hfs, hspun, hcontrol, _, hanswer⟩ := spin_ends results hnew hrun
    (inside.roomy hroom htried) (List.getElem?_eq_getElem hlt) (by rw [dropping]; rfl)
  exact dropping_follows results dropping hfs hspun hcontrol hanswer

/-- An unpolled operation returns, whatever results the device has for its requests. -/
theorem Inv.returns {c : UnpolledCall W} (hnew : ∀ ch ∈ channels, ∃ n, ch = Channel.new n)
    (hroom : Room m₀ requests) (hinv : Inv channels m₀ kind requests answers c) :
    ∃ es c' r, (∀ ev ∈ es, ev.proceeds results) ∧
      (unpolled kind requests answers m₀).runFrom c es = some c' ∧ c'.phase = .returned r := by
  have hends := (unpolled kind requests answers m₀).reaches_of_measure
    (I := Inv channels m₀ kind requests answers) (P := CallEvent.proceeds results)
    (D := fun c => ∃ r, c.phase = .returned r) weight ?_ hinv
  · obtain ⟨es, c', hes, hrun, _, r, hphase⟩ := hends
    exact ⟨es, c', r, hes, hrun, hphase⟩
  · intro c hc
    have hadvances : (∃ r, c.phase = .returned r) ∨
        Advances kind requests answers m₀ results c := by
      cases hc with
      | posting idle _ _ _ => exact Or.inr (posting_advances results idle)
      | failing idle _ _ _ _ soles => exact Or.inr (failing_advances results idle soles)
      | dropping spinning refused inside order _ _ _ =>
        exact Or.inr (dropping_advances results hnew hroom spinning refused inside order)
      | failed _ _ _ _ => exact Or.inl ⟨_, rfl⟩
      | succeeded _ _ _ => exact Or.inl ⟨_, rfl⟩
    rcases hadvances with hdone | ⟨es, c', hes, hrun, hless⟩
    · exact Or.inl hdone
    · refine Or.inr ⟨es, c', hes, hrun, ?_, hless⟩
      exact (unpolled kind requests answers m₀).invariant_from
        (fun _ _ _ hev hinv hstep => hinv.step (CallEvent.proceeds_good hev) hstep) hc hes hrun

theorem refused_unique {f : Nat → Option IbvError} {n k : Nat} {e e' : IbvError}
    (hbefore : ∀ i < n, f i = none) (hn : f n = some e') (hk : f k = some e)
    (hfirst : ∀ i < k, f i = none) : k = n ∧ e = e' := by
  rcases Nat.lt_trichotomy k n with hless | rfl | hmore
  · cases (hbefore k hless).symm.trans hk
  · exact ⟨rfl, Option.some.inj (hk.symm.trans hn)⟩
  · cases (hfirst n hmore).symm.trans hn

/-- An unpolled operation returns. It posts everything before the first request that is refused. If
there is none, it hands out one fresh handle for each request, in their order, and polls nothing.
Otherwise it returns the error of that request, after it has waited for all requests posted before
it. What was posted before the operation keeps its handles. -/
theorem unpolled_operations (op : UnpolledOp W) (answers : Nat → Option Nat)
    {channels : List Channel} {pre : List Event} {m₀ : Machine} {es : List CallEvent}
    {c : UnpolledCall W} (hnew : ∀ ch ∈ channels, ∃ n, ch = Channel.new n)
    (hok : ∀ ev ∈ pre, ev.reportsError = false) (hpre : (system channels).run pre = some m₀)
    (idle : m₀.control = .user) (hes : ∀ ev ∈ es, ev.reportsError = false)
    (hrun : (op.call answers m₀).run es = some c) :
    (Room m₀ op.requests → ∀ results, ∃ fin c' r, (∀ ev ∈ fin, ev.proceeds results) ∧
      (op.call answers m₀).runFrom c fin = some c' ∧ c'.phase = .returned r) ∧
    (∀ r, c.phase = .returned r →
      let first := m₀.handles.length
      let refused := refusedWith m₀ op.kind op.requests answers
      c.machine.control = .user ∧ c.machine.scopes = m₀.scopes ∧
      (∀ h < first, c.machine.handles[h]? = m₀.handles[h]?) ∧
      (∀ k e, refused k = some e → (∀ i < k, refused i = none) → r = .error e ∧
        PostedExactly m₀ c.machine (op.requests.take k) (op.requests.take (k + 1)) ∧
        ∀ h, first ≤ h → h < c.machine.handles.length →
          c.machine.HasCompleted h ∧ c.machine.usable h = false) ∧
      ((∀ i, refused i = none) →
        r = .ok (List.range' first op.requests.length) ∧
        PostedExactly m₀ c.machine op.requests op.requests ∧ Fresh m₀ c.machine op.requests)) := by
  rw [op.call_eq] at hrun ⊢
  have hinv := inv_run ⟨pre, hok, hpre⟩ idle hes hrun
  refine ⟨fun hroom results => hinv.returns results hnew hroom, ?_⟩
  intro r hphase first refused
  cases hinv with
  | posting | failing | dropping => cases hphase
  | @failed m posted request e idle hrefused inside dropped =>
    obtain rfl : .error e = r := UnpolledPhase.returned.inj hphase
    obtain ⟨hbefore, hat⟩ := refused_index inside hrefused
    refine ⟨idle, inside.scopes, inside.others, ?_, ?_⟩
    · intro k e' hk hfirst
      obtain ⟨rfl, rfl⟩ := refused_unique hbefore hat hk hfirst
      obtain ⟨todo, split⟩ := hrefused.split
      have hexact := inside.exact
      refine ⟨rfl, ?_, ?_⟩
      · rw [split, List.take_left, List.append_cons, List.take_left' (by simp)]
        exact hexact
      · intro h hge hlt
        have hmem := mem_handlesOf.mpr ⟨hge, inside.length ▸ hlt⟩
        exact ⟨inside.reached.hasCompleted hnew (dropped h hmem).1, (dropped h hmem).2⟩
    · intro hnone
      cases (hnone _).symm.trans hat
  | @succeeded m idle inside fresh =>
    obtain rfl : .ok (handlesOf m₀ op.requests) = r := UnpolledPhase.returned.inj hphase
    refine ⟨idle, inside.scopes, inside.others, ?_, fun _ => ⟨rfl, inside.exact, fresh⟩⟩
    intro k e hk _
    obtain ⟨request, hrequest, herror⟩ := Option.bind_eq_some_iff.mp hk
    cases (inside.accepted k request hrequest).symm.trans herror

/-- The third of four requests names a peer that does not exist. Its error is returned once the two
requests before it have finished, one of them with an error of its own. -/
theorem unpolled_operations_missing_peer : ∃ c,
    ((UnpolledOp.scatter_send_unpolled [⟨1, ()⟩, ⟨0, ()⟩, ⟨7, ()⟩, ⟨0, ()⟩]).call (fun _ => none)
      (Machine.new [Channel.new 16, Channel.new 16])).run
        (List.replicate 4 (.go 0) ++ [.complete 0 ⟨0, .ok ⟨none, 4⟩⟩,
          .complete 1 ⟨0, .error ⟨5, 0⟩⟩] ++ List.replicate 4 (.go 1)) = some c ∧
    c.phase = .returned (.error (.NotFound "Peer 7 not found")) ∧
    ∀ h < 2, c.machine.HasCompleted h ∧ c.machine.usable h = false := by
  obtain ⟨c, hrun, hsum⟩ := Option.map_eq_some_iff.mp (show
    (((UnpolledOp.scatter_send_unpolled [⟨1, ()⟩, ⟨0, ()⟩, ⟨7, ()⟩, ⟨0, ()⟩]).call (fun _ => none)
      (Machine.new [Channel.new 16, Channel.new 16])).run
        (List.replicate 4 (.go 0) ++ [.complete 0 ⟨0, .ok ⟨none, 4⟩⟩,
          .complete 1 ⟨0, .error ⟨5, 0⟩⟩] ++ List.replicate 4 (.go 1))).map
            (fun c => (c.phase, c.machine.handles.length)) =
      some (.returned (.error (.NotFound "Peer 7 not found")), 2) by rfl)
  obtain ⟨hphase, hlen⟩ := Prod.mk.inj hsum
  have hall := unpolled_operations
    (.scatter_send_unpolled [⟨1, ()⟩, ⟨0, ()⟩, ⟨7, ()⟩, ⟨0, ()⟩]) (fun _ => none)
    (by simp) (by simp)
    (show (system [Channel.new 16, Channel.new 16]).run [] = some (Machine.new _) from rfl) rfl
    (by decide) hrun
  have hrefused := ((hall.2 _ hphase).2.2.2.1 2 _ rfl (by decide)).2.2
  exact ⟨c, hrun, hphase, fun h hlt => hrefused h (Nat.zero_le h) (hlen ▸ hlt)⟩

end UnpolledCall

end IbverbsRs
