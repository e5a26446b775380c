import IbverbsRs.MultiChannel.CallInvariant

namespace IbverbsRs

open Ibverbs Framework

/-- The thread goes on, and the device finishes its requests with `results`. -/
def CallEvent.proceeds (results : Nat → UInt64 → WorkResult) : CallEvent → Prop
  | .complete c wc => wc.result = results c wc.wr_id
  | .go num_polled => num_polled = 1

theorem CallEvent.proceeds_good {results : Nat → UInt64 → WorkResult} {ev : CallEvent}
    (h : ev.proceeds results) : ev.reportsError = false := by
  cases ev with
  | complete _ _ => rfl
  | go n =>
    obtain rfl : n = 1 := h
    rfl

theorem Machine.roomy_of {m m' : Machine}
    (hbuffs : m'.channels.map Channel.poll_buff = m.channels.map Channel.poll_buff)
    (hbuff : ∀ ch ∈ m.channels, 0 < ch.poll_buff)
    (hposts : ∀ c n, m'.postsOn c = some n → n < 2 ^ 64) : m'.Roomy := by
  intro ch hch
  obtain ⟨c, hc⟩ := List.mem_iff_getElem?.mp hch
  have hmem : ch.poll_buff ∈ m'.channels.map Channel.poll_buff := List.mem_map_of_mem hch
  rw [hbuffs] at hmem
  obtain ⟨ch₀, hch₀, heq⟩ := List.mem_map.mp hmem
  constructor
  · apply hposts c
    rw [postsOn, hc]
    rfl
  · rw [← heq]
    exact hbuff ch₀ hch₀

theorem Machine.Roomy.alike {m m' : Machine} (hm : m.Roomy) (halike : m.Alike m') : m'.Roomy := by
  apply roomy_of halike.buffs (fun ch hch => (hm ch hch).2)
  intro c n hn
  rw [halike.posts] at hn
  obtain ⟨ch, hch, rfl⟩ := Option.map_eq_some_iff.mp hn
  exact (hm ch (List.mem_of_getElem? hch)).1

namespace Call

open Machine

variable {W : Type} {channels : List Channel} {m₀ : Machine} {kind : OpKind}
  {requests : List (PeerRequest W)} {answers : Nat → Option Nat}
  (results : Nat → UInt64 → WorkResult)

/-- The ids of no channel run out even if all requests go to it, and it can poll. -/
def Room (m₀ : Machine) (requests : List (PeerRequest W)) : Prop :=
  ∀ ch ∈ m₀.channels, ch.qp.posts + requests.length < 2 ^ 64 ∧ 0 < ch.poll_buff

theorem Inside.roomy {m : Machine} {posted tried : List (PeerRequest W)} {owned : List Nat}
    (hin : Inside channels m₀ kind answers m posted tried owned) (hroom : Room m₀ requests)
    (htried : tried.length ≤ requests.length) : m.Roomy := by
  apply roomy_of hin.buffs (fun ch hch => (hroom ch hch).2)
  intro c n hn
  rw [hin.posts c] at hn
  obtain ⟨n₀, hn₀, rfl⟩ := Option.map_eq_some_iff.mp hn
  obtain ⟨ch, hch, rfl⟩ := Option.map_eq_some_iff.mp hn₀
  have hcount := List.count_le_length (a := c) (l := tried.map PeerRequest.peer)
  rw [List.length_map] at hcount
  have hbound := (hroom ch (List.mem_of_getElem? hch)).1
  omega

theorem Outcome.tried_le {m : Machine} {posted tried : List (PeerRequest W)} {result : CallResult}
    (h : Outcome m₀ kind requests answers m posted tried result) :
    tried.length ≤ requests.length := by
  cases h with
  | refused split _ =>
    rw [split]
    simp
  | failed _ _ _ => exact Nat.le_refl _
  | succeeded _ => exact Nat.le_refl _

/-- How far an operation is from its end. -/
def weight (requests : List (PeerRequest W)) : Phase W → Nat
  | .called => 4 * requests.length + 5
  | .posting todo wrs => 4 * todo.length + 3 * wrs.length + 4
  | .polling wrs _ => 3 * wrs.length + 3
  | .spinning _ wrs _ => 3 * wrs.length + 5
  | .polled _ _ wrs _ => 3 * wrs.length + 4
  | .leaving wrs _ => wrs.length + 2
  | .closing _ => 1
  | .returned _ => 0

/-- The operation can go on, and gets closer to its end. -/
def Advances (kind : OpKind) (requests : List (PeerRequest W)) (answers : Nat → Option Nat)
    (m₀ : Machine) (results : Nat → UInt64 → WorkResult) (c : Call W) : Prop :=
  ∃ es c', (∀ ev ∈ es, ev.proceeds results) ∧
    (blocking kind requests answers m₀).runFrom c es = some c' ∧
    weight requests c'.phase < weight requests c.phase

theorem advances_of_go {c c' : Call W} (hstep : Call.go kind requests answers c 1 = some c')
    (hless : weight requests c'.phase < weight requests c.phase) :
    Advances kind requests answers m₀ results c := by
  refine ⟨[.go 1], c', ?_, (blocking kind requests answers m₀).runFrom_singleton hstep, hless⟩
  intro ev hev
  obtain rfl := List.mem_singleton.mp hev
  rfl

theorem Advances.after {c c₁ : Call W} (h : Advances kind requests answers m₀ results c₁)
    (ev : CallEvent) (hev : ev.proceeds results)
    (hstep : Call.step kind requests answers c ev = some c₁) (hphase : c₁.phase = c.phase) :
    Advances kind requests answers m₀ results c := by
  obtain ⟨es, c', hes, hrun, hless⟩ := h
  have hfirst : ∀ ev' ∈ [ev], ev'.proceeds results := by
    intro ev' hmem
    rwa [List.mem_singleton.mp hmem]
  obtain ⟨hall, hreach⟩ := (blocking kind requests answers m₀).runFrom_trans hfirst
    ((blocking kind requests answers m₀).runFrom_singleton hstep) hes hrun
  exact ⟨[ev] ++ es, c', hall, hreach, hphase ▸ hless⟩

theorem Advances.after_complete {m m' : Machine} {scope k : Nat} {posted : List (PeerRequest W)}
    {phase : Phase W} {wc : WorkCompletion}
    (h : Advances kind requests answers m₀ results ⟨m', scope, posted, phase⟩)
    (hev : (Event.complete k wc).proceeds results) (hstep : m.step (.complete k wc) = some m') :
    Advances kind requests answers m₀ results ⟨m, scope, posted, phase⟩ := by
  refine h.after results (.complete k wc) hev ?_ rfl
  exact Option.map_eq_some_iff.mpr ⟨m', hstep, rfl⟩

theorem called_advances {m : Machine} (idle : m.control = .user) :
    Advances kind requests answers m₀ results (⟨m, 0, [], .called⟩ : Call W) := by
  have hstep : m.step (.openScope true) = some { m with
      scopes := ⟨m.opened, true, []⟩ :: m.scopes
      opened := m.opened + 1 } := if_pos idle
  apply advances_of_go
  · simp only [Call.go, hstep]
    rfl
  · simp [weight]

theorem posting_advances {m : Machine} {posted todo : List (PeerRequest W)} {owned : List Nat}
    (idle : m.control = .user)
    (inside : Inside channels m₀ kind answers m posted posted owned) (wrs : List Nat) :
    Advances kind requests answers m₀ results ⟨m, m₀.opened, posted, .posting todo wrs⟩ := by
  cases todo with
  | nil =>
    apply advances_of_go
    · rfl
    · simp [weight]
  | cons request todo =>
    have hopen : (some m₀.opened).all (fun id => m.scopes.any (fun s => s.id == id)) = true := by
      rw [inside.scopes]
      simp
    have hstep : m.step (.post kind request.peer (some m₀.opened) (answers wrs.length)) =
        some (m.post kind request.peer (some m₀.opened) (answers wrs.length)) :=
      if_pos ⟨idle, hopen⟩
    cases hpost : m.channel_post kind request.peer (answers wrs.length) with
    | error e =>
      apply advances_of_go
      · simp only [Call.go, hstep, Option.map_some, hpost]
        rfl
      · simp only [weight, List.length_cons]
        omega
    | ok w =>
      apply advances_of_go
      · simp only [Call.go, hstep, Option.map_some, hpost]
        rfl
      · simp only [weight, List.length_append, List.length_cons, List.length_nil]
        omega

theorem Inside.owned {m : Machine} {posted tried : List (PeerRequest W)} {owned : List Nat}
    (hin : Inside channels m₀ kind answers m posted tried owned) {h : Nat}
    (hmem : h ∈ handlesOf m₀ posted) (howned : h ∈ owned) :
    ∃ x, m.handles[h]? = some x ∧ x.held = 1 := by
  obtain ⟨x, hx, hheld, _⟩ := hin.counts hmem
  exact ⟨x, hx, hheld.trans (if_pos howned)⟩

theorem Inside.can_drop {m : Machine} {posted tried : List (PeerRequest W)} {owned : List Nat}
    (hin : Inside channels m₀ kind answers m posted tried owned) (idle : m.control = .user)
    {h : Nat} (hmem : h ∈ handlesOf m₀ posted) (howned : h ∈ owned) :
    ∃ m', m.step (.drop h) = some m' := by
  obtain ⟨x, hx, hheld⟩ := hin.owned hmem howned
  simp only [Machine.step, if_pos idle, dropRef, hx, hheld]
  exact ⟨_, rfl⟩

theorem Inside.can_close {m : Machine} {posted tried : List (PeerRequest W)}
    (hin : Inside channels m₀ kind answers m posted tried []) (idle : m.control = .user)
    (closure : ClosureEnd) : ∃ m', m.step (.closeScope closure) = some m' := by
  have hdropped : (handlesOf m₀ posted).all (fun h => (m.handles[h]?).all (fun x => x.held == 0)) =
      true := by
    rw [List.all_eq_true]
    intro h hmem
    obtain ⟨x, hx, hheld, _⟩ := hin.counts hmem
    rw [hx]
    exact beq_iff_eq.mpr hheld
  simp only [Machine.step, hin.scopes, idle, hdropped]
  exact ⟨_, rfl⟩

theorem polling_advances {m : Machine} {done wrs : List Nat} {outputs : List WorkSuccess}
    (idle : m.control = .user) (order : handlesOf m₀ requests = done ++ wrs)
    (inside : Inside channels m₀ kind answers m requests requests wrs) :
    Advances kind requests answers m₀ results ⟨m, m₀.opened, requests, .polling wrs outputs⟩ := by
  cases wrs with
  | nil =>
    apply advances_of_go
    · rfl
    · simp [weight]
  | cons wr wrs =>
    have hmem : wr ∈ handlesOf m₀ requests := (sublist_of_order order).subset List.mem_cons_self
    obtain ⟨x, hx, hheld⟩ := inside.owned hmem List.mem_cons_self
    have husable : m.usable wr = true := by
      rw [usable, hx, Option.any_some, hheld]
      exact decide_eq_true (by omega)
    have hstep : m.step (.spin wr) = some { m with control := .userSpin wr } :=
      if_pos ⟨idle, husable⟩
    apply advances_of_go
    · simp only [Call.go, hstep]
      rfl
    · simp only [weight, List.length_cons]
      omega

theorem polled_advances {m : Machine} {done wrs : List Nat} {wr : Nat} {outputs : List WorkSuccess}
    {poll : TransportResult} (idle : m.control = .user)
    (order : handlesOf m₀ requests = done ++ wr :: wrs)
    (inside : Inside channels m₀ kind answers m requests requests (wr :: wrs)) :
    Advances kind requests answers m₀ results
      ⟨m, m₀.opened, requests, .polled wr poll wrs outputs⟩ := by
  have hmem : wr ∈ handlesOf m₀ requests := (sublist_of_order order).subset List.mem_cons_self
  obtain ⟨m', hstep⟩ := inside.can_drop idle hmem List.mem_cons_self
  cases poll with
  | ok output =>
    apply advances_of_go
    · simp only [Call.go, hstep]
      rfl
    · exact Nat.lt_succ_self _
  | error e =>
    apply advances_of_go
    · simp only [Call.go, hstep]
      rfl
    · simp only [weight]
      omega

theorem leaving_advances {m : Machine} {posted tried : List (PeerRequest W)} {wrs : List Nat}
    {result : CallResult} (idle : m.control = .user) (owned : wrs.Sublist (handlesOf m₀ posted))
    (inside : Inside channels m₀ kind answers m posted tried wrs) :
    Advances kind requests answers m₀ results ⟨m, m₀.opened, posted, .leaving wrs result⟩ := by
  cases wrs with
  | nil =>
    obtain ⟨m', hstep⟩ := inside.can_close idle (.of (.ok result : Except Empty CallResult))
    apply advances_of_go
    · simp only [Call.go, hstep]
      rfl
    · exact Nat.lt_succ_self _
  | cons wr wrs =>
    obtain ⟨m', hstep⟩ :=
      inside.can_drop idle (owned.subset List.mem_cons_self) List.mem_cons_self
    apply advances_of_go
    · simp only [Call.go, hstep]
      rfl
    · exact Nat.lt_succ_self _

/-- A spin loop of the thread is one of the operation, until it answers. -/
theorem spinning_follows {m m₁ m₂ : Machine} {wr : Nat} {wrs : List Nat}
    {outputs : List WorkSuccess} {posted : List (PeerRequest W)} {r : TransportResult}
    {fs : List Event} (spin : m.control = .userSpin wr) (hfs : ∀ ev ∈ fs, ev.proceeds results)
    (hrun : (system channels).runFrom m fs = some m₁) (hcontrol : m₁.control = m.control)
    (hanswer : m₁.pollWork wr 1 = some (some r, m₂)) :
    Advances kind requests answers m₀ results
      ⟨m, m₀.opened, posted, .spinning wr wrs outputs⟩ := by
  induction fs generalizing m with
  | nil =>
    obtain rfl := Option.some.inj hrun
    have hstep : m.step (.iterate 1) =
        some { m₂.modify wr userPolled with control := .user } := by
      simp only [Machine.step, iterate, spin, hanswer]
      rfl
    apply advances_of_go
    · simp only [Call.go, hstep, hanswer]
      rfl
    · exact Nat.lt_succ_self _
  | cons ev fs ih =>
    obtain ⟨m', hfirst, hrest⟩ := Option.bind_eq_some_iff.mp hrun
    have hev := hfs ev List.mem_cons_self
    have hfs' : ∀ ev ∈ fs, ev.proceeds results := fun ev hmem => hfs ev (List.mem_cons_of_mem _ hmem)
    cases ev with
    | complete k wc =>
      have hsame : m'.control = m.control := (alike_complete hfirst).2.1
      have hmore := ih (hsame.trans spin) hfs' hrest (hcontrol.trans hsame.symm)
      exact hmore.after_complete results hev hfirst
    | iterate num_polled =>
      obtain rfl : num_polled = 1 := hev
      have hround : m.iterate 1 = some m' := hfirst
      simp only [iterate, spin] at hround
      obtain ⟨⟨poll, m₃⟩, hpoll, heq⟩ := Option.map_eq_some_iff.mp hround
      cases poll with
      | none =>
        obtain rfl : m₃ = m' := heq
        have hsame : m₃.control = m.control := (pollWork_frame hpoll).1
        have hmore := ih (hsame.trans spin) hfs' hrest (hcontrol.trans hsame.symm)
        refine hmore.after results (.go 1) rfl ?_ rfl
        have hstep : m.step (.iterate 1) = some m₃ := hfirst
        simp only [Call.step, Call.go, hpoll, hstep]
        rfl
      | some r' =>
        have hstep : m.step (.iterate 1) = some m' := hfirst
        apply advances_of_go
        · simp only [Call.go, hpoll, hstep]
          rfl
        · exact Nat.lt_succ_self _
    | next =>
      have hnext : m.next = some m' := hfirst
      simp only [next, spin] at hnext
      cases hnext
    | post _ _ _ _ | poll _ _ | spin _ | clone _ | drop _ | forget _ | openScope _
    | closeScope _ => exact hev.elim

theorem spinning_advances {m : Machine} {done wrs : List Nat} {wr : Nat}
    {outputs : List WorkSuccess} (hnew : ∀ ch ∈ channels, ∃ n, ch = Channel.new n)
    (hroom : Room m₀ requests) (spin : m.control = .userSpin wr)
    (order : handlesOf m₀ requests = done ++ wr :: wrs)
    (inside : Inside channels m₀ kind answers m requests requests (wr :: wrs)) :
    Advances kind requests answers m₀ results
      ⟨m, m₀.opened, requests, .spinning wr wrs outputs⟩ := by
  have hmem : wr ∈ handlesOf m₀ requests := (sublist_of_order order).subset List.mem_cons_self
  obtain ⟨x, hx, _⟩ := inside.owned hmem List.mem_cons_self
  obtain ⟨es, _, hrun⟩ := inside.reached
  obtain ⟨fs, m₁, r, m₂, hfs, hspun, hcontrol, _, hanswer⟩ := spin_ends results hnew hrun
    (inside.roomy hroom (Nat.le_refl _)) hx (by rw [spin]; rfl)
  exact spinning_follows results spin hfs hspun hcontrol hanswer

theorem autoPoll_iterate {m m' : Machine} {num_polled : Int} (hbusy : m.control.autoPoll.isSome)
    (hstep : m.step (.iterate num_polled) = some m') :
    m'.control.autoPoll.isSome ∧ ∀ a, m.control ≠ .auto a := by
  refine ⟨?_, ?_⟩
  · cases step_spec hstep with
    | spinPending _ polled => rwa [(pollWork_frame polled).1]
    | userSpinReady spinning _ | userDropReady spinning _ =>
      rw [spinning] at hbusy
      cases hbusy
    | autoSpinReady _ _ =>
      rw [release_autoPoll]
      rfl
    | autoDropReady _ _ => rfl
    | counted idle _ =>
      rw [idle] at hbusy
      cases hbusy
  · intro a hauto
    simp only [Machine.step, iterate, hauto] at hstep
    cases hstep

/-- The end of a scope is the end of the operation. -/
theorem closing_follows {m m₁ : Machine} {posted : List (PeerRequest W)} {result : CallResult}
    {a : AutoPoll} {fs : List Event} (hbusy : m.control.autoPoll.isSome)
    (hfs : ∀ ev ∈ fs, ev.proceeds results) (hrun : (system channels).runFrom m fs = some m₁)
    (hauto : m₁.control = .auto a) (hrest : a.rest = []) (hopen : m₁.scopes ≠ []) :
    Advances kind requests answers m₀ results ⟨m, m₀.opened, posted, .closing result⟩ := by
  have hgo {m m' : Machine} {a : AutoPoll} (hcontrol : m.control = .auto a)
      (hstep : m.step .next = some m') :
      Call.go kind requests answers ⟨m, m₀.opened, posted, .closing result⟩ 1 = some ⟨m', m₀.opened,
        posted, if a.rest.isEmpty then .returned (PollingScope.run_manual_match (.ok result) a.result)
          else .closing result⟩ := by
    simp only [Call.go, hcontrol, hstep]
    rfl
  have hreturns {m m' : Machine} {a : AutoPoll} (hcontrol : m.control = .auto a)
      (hrest : a.rest = []) (hstep : m.step .next = some m') :
      Advances kind requests answers m₀ results ⟨m, m₀.opened, posted, .closing result⟩ := by
    refine advances_of_go results (hgo hcontrol hstep) ?_
    rw [hrest]
    exact Nat.lt_succ_self _
  induction fs generalizing m with
  | nil =>
    obtain rfl := Option.some.inj hrun
    obtain ⟨s, scopes, htop⟩ := List.exists_cons_of_ne_nil hopen
    obtain ⟨m', hstep⟩ : ∃ m', m.step .next = some m' := by
      simp only [Machine.step, next, hauto, hrest, htop]
      exact ⟨_, rfl⟩
    exact hreturns hauto hrest hstep
  | cons ev fs ih =>
    obtain ⟨m', hfirst, htail⟩ := Option.bind_eq_some_iff.mp hrun
    have hev := hfs ev List.mem_cons_self
    have hfs' : ∀ ev ∈ fs, ev.proceeds results := fun ev hmem => hfs ev (List.mem_cons_of_mem _ hmem)
    cases ev with
    | complete k wc =>
      have hsame : m'.control = m.control := (alike_complete hfirst).2.1
      have hmore := ih (by rwa [hsame]) hfs' htail
      exact hmore.after_complete results hev hfirst
    | iterate num_polled =>
      obtain rfl : num_polled = 1 := hev
      obtain ⟨hbusy', hspins⟩ := autoPoll_iterate hbusy hfirst
      refine (ih hbusy' hfs' htail).after results (.go 1) rfl ?_ rfl
      have hstep : m.step (.iterate 1) = some m' := hfirst
      cases hcontrol : m.control with
      | auto a' => exact absurd hcontrol (hspins a')
      | user | userSpin _ | userDrop _ | autoSpin _ _ | autoDrop _ _ =>
        simp only [Call.step, Call.go, hcontrol, hstep]
        rfl
    | next =>
      obtain ⟨a', hcontrol, ⟨h, rest, x, hmore, _, hcase⟩ | ⟨hnone, _⟩⟩ := next_spec hfirst
      · have hbusy' : m'.control.autoPoll.isSome := by
          rcases hcase with ⟨_, rfl⟩ | ⟨_, rfl⟩
          · rw [release_autoPoll]
            rfl
          · rfl
        refine (ih hbusy' hfs' htail).after results (.go 1) rfl ?_ rfl
        have hstep := hgo hcontrol hfirst
        rw [hmore] at hstep
        exact hstep
      · exact hreturns hcontrol hnone hfirst
    | post _ _ _ _ | poll _ _ | spin _ | clone _ | drop _ | forget _ | openScope _
    | closeScope _ => exact hev.elim

theorem closing_advances {m m₁ : Machine} {posted tried : List (PeerRequest W)}
    {result : CallResult} {waited current : List Nat} {a : AutoPoll}
    (hnew : ∀ ch ∈ channels, ∃ n, ch = Channel.new n) (hroom : Room m₀ requests)
    (reached : Reached channels m) (inside : Inside channels m₀ kind answers m₁ posted tried [])
    (alike : m₁.Alike m)
    (ending : Closing m₁ ⟨m₀.opened, true, handlesOf m₀ posted⟩
      (.of (.ok result : Except Empty CallResult)) m waited current a)
    (outcome : Outcome m₀ kind requests answers m₁ posted tried result) :
    Advances kind requests answers m₀ results ⟨m, m₀.opened, posted, .closing result⟩ := by
  have hroomy := (inside.roomy hroom outcome.tried_le).alike alike
  have hbusy : m.control.autoPoll.isSome := by
    rw [ending.control]
    rfl
  obtain ⟨es, _, hrun⟩ := reached
  obtain ⟨fs, m', a', hfs, hreturn, hauto, hrest, hscopes⟩ :=
    can_return results hnew hrun hroomy hbusy
  have hopen : m'.scopes ≠ [] := by
    rw [hscopes, alike.scopes, inside.scopes]
    exact List.cons_ne_nil _ _
  exact closing_follows results hbusy hfs hreturn hauto hrest hopen

theorem Inv.advances {c : Call W} (hnew : ∀ ch ∈ channels, ∃ n, ch = Channel.new n)
    (hroom : Room m₀ requests) (hinv : Inv channels m₀ kind requests answers c) :
    (∃ result, c.phase = .returned (.returned result)) ∨
      Advances kind requests answers m₀ results c := by
  cases hinv with
  | called reached idle alike => exact Or.inr (called_advances results idle)
  | posting idle split inside => exact Or.inr (posting_advances results idle inside _)
  | polling idle order inside collected => exact Or.inr (polling_advances results idle order inside)
  | spinning spin order inside collected =>
    exact Or.inr (spinning_advances results hnew hroom spin order inside)
  | polled idle order inside collected result flag =>
    exact Or.inr (polled_advances results idle order inside)
  | leaving idle owned inside outcome => exact Or.inr (leaving_advances results idle owned inside)
  | closing reached inside alike ending outcome =>
    exact Or.inr (closing_advances results hnew hroom reached inside alike ending outcome)
  | @returned _ _ _ _ result _ _ _ _ _ _ _ _ => exact Or.inl ⟨result, rfl⟩

/-- A blocking operation returns, whatever results the device has for its requests. -/
theorem Inv.returns {c : Call W} (hnew : ∀ ch ∈ channels, ∃ n, ch = Channel.new n)
    (hroom : Room m₀ requests) (hinv : Inv channels m₀ kind requests answers c) :
    ∃ es c' r, (∀ ev ∈ es, ev.proceeds results) ∧
      (blocking kind requests answers m₀).runFrom c es = some c' ∧ c'.phase = .returned r := by
  have hends := (blocking kind requests answers m₀).reaches_of_measure
    (I := Inv channels m₀ kind requests answers) (P := CallEvent.proceeds results)
    (D := fun c => ∃ result, c.phase = .returned (.returned result))
    (fun c => weight requests c.phase) ?_ hinv
  · obtain ⟨es, c', hes, hrun, _, result, hphase⟩ := hends
    exact ⟨es, c', .returned result, hes, hrun, hphase⟩
  · intro c hc
    rcases hc.advances results hnew hroom with hdone | ⟨es, c', hes, hrun, hless⟩
    · exact Or.inl hdone
    · refine Or.inr ⟨es, c', hes, hrun, ?_, hless⟩
      exact (blocking kind requests answers m₀).invariant_from
        (fun _ _ _ hev hinv hstep => hinv.step (CallEvent.proceeds_good hev) hstep) hc hes hrun

end Call

end IbverbsRs
