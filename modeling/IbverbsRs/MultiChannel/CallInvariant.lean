import IbverbsRs.MultiChannel.CallSteps

namespace IbverbsRs

open Ibverbs Framework

namespace Machine

/-- A state that a thread can be in if no call of `ibv_poll_cq` has failed. -/
def Reached (channels : List Channel) (m : Machine) : Prop :=
  ∃ es : List Event, (∀ ev ∈ es, ev.reportsError = false) ∧ (system channels).run es = some m

theorem Reached.step {channels : List Channel} {m m' : Machine} {ev : Event}
    (h : Reached channels m) (hgood : ev.reportsError = false) (hstep : m.step ev = some m') :
    Reached channels m' := by
  obtain ⟨es, hes, hrun⟩ := h
  refine ⟨es ++ [ev], ?_, (system channels).run_snoc hrun hstep⟩
  intro ev' hev
  rcases List.mem_append.mp hev with hev | hev
  · exact hes ev' hev
  · rwa [List.mem_singleton.mp hev]

theorem Reached.tracked {channels : List Channel} {m : Machine} (h : Reached channels m) :
    m.Tracked := by
  obtain ⟨es, hes, hrun⟩ := h
  exact Machine.tracked (along_of_no_error channels es hes) hrun

theorem Reached.kept {channels : List Channel} {m : Machine} (h : Reached channels m) :
    m.registry.Kept := by
  obtain ⟨es, _, hrun⟩ := h
  exact Machine.kept hrun

end Machine

namespace Call

open Machine

variable {W : Type} (channels : List Channel) (m₀ : Machine) (kind : OpKind)
  (requests : List (PeerRequest W)) (answers : Nat → Option Nat)

/-- The handles of the requests posted so far. -/
def handlesOf (posted : List (PeerRequest W)) : List Nat :=
  List.range' m₀.handles.length posted.length

/-- The innermost scope holds exactly the requests `posted`, each on the channel of its peer;
the driver was asked to take those `tried`, and the user has the handles `owned`. -/
structure Inside (m : Machine) (posted tried : List (PeerRequest W)) (owned : List Nat) : Prop where
  reached : Reached channels m
  accepted : ∀ i request, posted[i]? = some request →
    m₀.refusal kind request.peer (answers i) = none
  scopes : m.scopes = ⟨m₀.opened, true, handlesOf m₀ posted⟩ :: m₀.scopes
  channels : m.handles.map Handle.channel =
    m₀.handles.map Handle.channel ++ posted.map PeerRequest.peer
  posts : ∀ c, m.postsOn c = (m₀.postsOn c).map (· + (tried.map PeerRequest.peer).count c)
  buffs : m.channels.map Channel.poll_buff = m₀.channels.map Channel.poll_buff
  refs : ∀ h ∈ handlesOf m₀ posted, m.refs h = some (if h ∈ owned then 1 else 0, 0)

/-- The user has polled the requests `done` to completion, and they have succeeded. -/
def Collected (m : Machine) (done : List Nat) (outputs : List WorkSuccess) : Prop :=
  List.Forall₂ (fun h output => m.result h = some (.ok output) ∧ m.flags.getD h false = true)
    done outputs

/-- With which result the closure is left. -/
inductive Outcome (m : Machine) :
    List (PeerRequest W) → List (PeerRequest W) → CallResult → Prop
  | refused {posted todo : List (PeerRequest W)} {request : PeerRequest W} {e : IbvError}
      (split : requests = posted ++ request :: todo)
      (error : m₀.refusal kind request.peer (answers posted.length) = some e) :
      Outcome m posted (posted ++ [request]) (.error (.IbvError e))
  | failed {done rest : List Nat} {h : Nat} {outputs : List WorkSuccess} {e : TransportError}
      (order : handlesOf m₀ requests = done ++ h :: rest) (collected : Collected m done outputs)
      (error : m.result h = some (.error e)) : Outcome m requests requests (.error e)
  | succeeded {outputs : List WorkSuccess}
      (collected : Collected m (handlesOf m₀ requests) outputs) :
      Outcome m requests requests (.ok outputs)

/-- What holds in each phase of a blocking operation. -/
inductive Inv : Call W → Prop
  | called {m : Machine} (reached : Reached channels m) (idle : m.control = .user)
      (alike : m₀.Alike m) : Inv ⟨m, 0, [], .called⟩
  | posting {m : Machine} {posted todo : List (PeerRequest W)} (idle : m.control = .user)
      (split : requests = posted ++ todo)
      (inside : Inside channels m₀ kind answers m posted posted (handlesOf m₀ posted)) :
      Inv ⟨m, m₀.opened, posted, .posting todo (handlesOf m₀ posted)⟩
  | polling {m : Machine} {done wrs : List Nat} {outputs : List WorkSuccess}
      (idle : m.control = .user) (order : handlesOf m₀ requests = done ++ wrs)
      (inside : Inside channels m₀ kind answers m requests requests wrs)
      (collected : Collected m done outputs) : Inv ⟨m, m₀.opened, requests, .polling wrs outputs⟩
  | spinning {m : Machine} {done wrs : List Nat} {wr : Nat} {outputs : List WorkSuccess}
      (spin : m.control = .userSpin wr) (order : handlesOf m₀ requests = done ++ wr :: wrs)
      (inside : Inside channels m₀ kind answers m requests requests (wr :: wrs))
      (collected : Collected m done outputs) :
      Inv ⟨m, m₀.opened, requests, .spinning wr wrs outputs⟩
  | polled {m : Machine} {done wrs : List Nat} {wr : Nat} {outputs : List WorkSuccess}
      {poll : TransportResult} (idle : m.control = .user)
      (order : handlesOf m₀ requests = done ++ wr :: wrs)
      (inside : Inside channels m₀ kind answers m requests requests (wr :: wrs))
      (collected : Collected m done outputs) (result : m.result wr = some poll)
      (flag : m.flags.getD wr false = true) :
      Inv ⟨m, m₀.opened, requests, .polled wr poll wrs outputs⟩
  | leaving {m : Machine} {posted tried : List (PeerRequest W)} {wrs : List Nat}
      {result : CallResult} (idle : m.control = .user) (owned : wrs.Sublist (handlesOf m₀ posted))
      (inside : Inside channels m₀ kind answers m posted tried wrs)
      (outcome : Outcome m₀ kind requests answers m posted tried result) :
      Inv ⟨m, m₀.opened, posted, .leaving wrs result⟩
  | closing {m m₁ : Machine} {posted tried : List (PeerRequest W)} {result : CallResult}
      {waited current : List Nat} {a : AutoPoll} (reached : Reached channels m)
      (inside : Inside channels m₀ kind answers m₁ posted tried []) (alike : m₁.Alike m)
      (ending : Closing m₁ ⟨m₀.opened, true, handlesOf m₀ posted⟩
        (.of (.ok result : Except Empty CallResult)) m waited current a)
      (outcome : Outcome m₀ kind requests answers m₁ posted tried result) :
      Inv ⟨m, m₀.opened, posted, .closing result⟩
  | returned {m m₁ : Machine} {posted tried : List (PeerRequest W)} {result : CallResult}
      (reached : Reached channels m) (inside : Inside channels m₀ kind answers m₁ posted tried [])
      (channels : m.handles.map Handle.channel = m₁.handles.map Handle.channel)
      (posts : m.postsOn = m₁.postsOn)
      (buffs : m.channels.map Channel.poll_buff = m₁.channels.map Channel.poll_buff)
      (retains : m₁.Retains m)
      (results : ∀ h ∈ handlesOf m₀ posted, (m.result h).isSome)
      (outcome : Outcome m₀ kind requests answers m₁ posted tried result) :
      Inv ⟨m, m₀.opened, posted, .returned (.returned result)⟩

variable {channels m₀ kind requests answers}

theorem Collected.alike {m m' : Machine} {done : List Nat} {outputs : List WorkSuccess}
    (h : Collected m done outputs) (halike : m.Alike m') : Collected m' done outputs :=
  List.Forall₂.imp (fun _ _ ⟨hresult, hflag⟩ =>
    ⟨halike.results _ _ hresult, halike.flags _ hflag⟩) h

theorem Outcome.alike {m m' : Machine} {posted tried : List (PeerRequest W)} {result : CallResult}
    (h : Outcome m₀ kind requests answers m posted tried result) (halike : m.Alike m') :
    Outcome m₀ kind requests answers m' posted tried result := by
  cases h with
  | refused split error => exact .refused split error
  | failed order collected error =>
    exact .failed order (collected.alike halike) (halike.results _ _ error)
  | succeeded collected => exact .succeeded (collected.alike halike)

theorem Inside.alike {m m' : Machine} {posted tried : List (PeerRequest W)} {owned : List Nat}
    (h : Inside channels m₀ kind answers m posted tried owned) (halike : m.Alike m')
    (hrefs : m'.refs = m.refs) (hreached : Reached channels m') :
    Inside channels m₀ kind answers m' posted tried owned where
  reached := hreached
  accepted := h.accepted
  scopes := halike.scopes.trans h.scopes
  channels := halike.channels.trans h.channels
  posts c := (congrFun halike.posts c).trans (h.posts c)
  buffs := halike.buffs.trans h.buffs
  refs k hk := (congrFun hrefs k).trans (h.refs k hk)

theorem Inside.length {m : Machine} {posted tried : List (PeerRequest W)} {owned : List Nat}
    (h : Inside channels m₀ kind answers m posted tried owned) :
    m.handles.length = m₀.handles.length + posted.length := by
  have hlen := congrArg List.length h.channels
  simpa using hlen

theorem handlesOf_snoc (posted : List (PeerRequest W)) (request : PeerRequest W) :
    handlesOf m₀ (posted ++ [request]) =
      handlesOf m₀ posted ++ [m₀.handles.length + posted.length] := by
  rw [handlesOf, handlesOf, List.length_append, List.length_singleton, List.range'_1_concat]

/-- The peers that exist are the same all the time. -/
theorem Inside.refusal {m : Machine} {posted tried : List (PeerRequest W)} {owned : List Nat}
    (h : Inside channels m₀ kind answers m posted tried owned) (peer : Nat) (errno : Option Nat) :
    m.refusal kind peer errno = m₀.refusal kind peer errno := by
  have hposts := h.posts peer
  unfold postsOn at hposts
  unfold Machine.refusal
  cases hch : m.channels[peer]? with
  | none =>
    cases hch₀ : m₀.channels[peer]? with
    | none => rfl
    | some ch => simp [hch, hch₀] at hposts
  | some ch =>
    cases hch₀ : m₀.channels[peer]? with
    | none => simp [hch, hch₀] at hposts
    | some ch => rfl

/-- While its closure runs, the scope has its clone of every handle. -/
theorem Inside.handle {m : Machine} {posted tried : List (PeerRequest W)} {owned : List Nat}
    (hin : Inside channels m₀ kind answers m posted tried owned) (idle : m.control.remaining = none)
    {h : Nat} (hmem : h ∈ handlesOf m₀ posted) :
    ∃ x, m.handles[h]? = some x ∧ x.scope.isSome ∧ x.scopeRef = true := by
  have hkept := hin.reached.kept
  have htop : ⟨m₀.opened, true, handlesOf m₀ posted⟩ ∈ m.registry.scopes := by
    change _ ∈ m.scopes
    rw [hin.scopes]
    exact List.mem_cons_self
  have hmark := (hkept.members _ htop h).mp hmem
  obtain ⟨y, hy, hscope⟩ := Option.map_eq_some_iff.mp ((List.getElem?_map ..).symm.trans hmark)
  have hrunning := Registry.running_of_idle (r := m.registry) idle
  have href := hkept.referenced _ (by rwa [hrunning]) h hmem y hy
  obtain ⟨x, hx, rfl⟩ := Option.map_eq_some_iff.mp ((List.getElem?_map ..).symm.trans hy)
  refine ⟨x, hx, ?_, href⟩
  change x.scope = _ at hscope
  rw [hscope]
  rfl

theorem remaining_of_user {m : Machine} (idle : m.control = .user) :
    m.control.remaining = none := by
  rw [idle]
  rfl

theorem post_step {m m' : Machine} {peer : Nat} {scope errno : Option Nat}
    (hstep : m.step (.post kind peer scope errno) = some m') :
    m' = m.post kind peer scope errno := by
  simp only [Machine.step] at hstep
  split_ifs at hstep
  exact (Option.some.inj hstep).symm

theorem Inside.posts_snoc {m : Machine} {posted tried : List (PeerRequest W)} {owned : List Nat}
    (hin : Inside channels m₀ kind answers m posted tried owned) (request : PeerRequest W)
    (scope errno : Option Nat) (c : Nat) :
    (m.post kind request.peer scope errno).postsOn c =
      (m₀.postsOn c).map (· + ((tried ++ [request]).map PeerRequest.peer).count c) := by
  rw [postsOn_post, hin.posts c, Option.map_map, List.map_append, List.map_singleton]
  congr 1
  funext n
  rw [Function.comp_apply, List.count_append, Nat.add_assoc]

/-- A refused request leaves no handle. -/
theorem Inside.refused {m m' : Machine} {posted : List (PeerRequest W)} {owned : List Nat}
    {request : PeerRequest W} {errno : Option Nat} {e : IbvError}
    (hin : Inside channels m₀ kind answers m posted posted owned) (idle : m.control = .user)
    (hrefused : m₀.refusal kind request.peer errno = some e)
    (hstep : m.step (.post kind request.peer (some m₀.opened) errno) = some m') :
    m.channel_post kind request.peer errno = .error e ∧ m'.control = .user ∧
      Inside channels m₀ kind answers m' posted (posted ++ [request]) owned := by
  rw [← hin.refusal] at hrefused
  obtain ⟨herror, chans, hpost⟩ := post_refused hrefused (some m₀.opened)
  have hreached := hin.reached.step rfl hstep
  have hposts := hin.posts_snoc request (some m₀.opened) errno
  have hbuffs := (m.buffs_post kind request.peer (some m₀.opened) errno).trans hin.buffs
  obtain rfl := post_step hstep
  rw [hpost] at hreached hposts hbuffs ⊢
  exact ⟨herror, idle,
    ⟨hreached, hin.accepted, hin.scopes, hin.channels, hposts, hbuffs, hin.refs⟩⟩

theorem Inside.pushed {m : Machine} {posted tried : List (PeerRequest W)} {owned : List Nat}
    (hin : Inside channels m₀ kind answers m posted tried owned) (request : PeerRequest W) :
    pushWork m.scopes (some m₀.opened) m.handles.length =
      ⟨m₀.opened, true, handlesOf m₀ (posted ++ [request])⟩ :: m₀.scopes := by
  have hnodup := hin.reached.kept.nodup
  change (m.scopes.map PollingScope.id).Nodup at hnodup
  rw [hin.scopes, List.map_cons, List.nodup_cons] at hnodup
  have hothers : pushWork m₀.scopes (some m₀.opened) m.handles.length = m₀.scopes := by
    unfold pushWork
    conv_rhs => rw [← List.map_id m₀.scopes]
    apply List.map_congr_left
    intro s hs
    refine if_neg ?_
    intro hid
    exact hnodup.1 (List.mem_map.mpr ⟨s, hs, Option.some.inj hid⟩)
  rw [hin.scopes, handlesOf_snoc, ← hin.length]
  exact congrArg₂ List.cons (if_pos rfl) hothers

theorem Inside.accepts {m m' : Machine} {posted : List (PeerRequest W)} {request : PeerRequest W}
    (hin : Inside channels m₀ kind answers m posted posted (handlesOf m₀ posted))
    (idle : m.control = .user)
    (haccepted : m₀.refusal kind request.peer (answers posted.length) = none)
    (hstep : m.step (.post kind request.peer (some m₀.opened) (answers posted.length)) = some m') :
    (∃ w, m.channel_post kind request.peer (answers posted.length) = .ok w) ∧ m'.control = .user ∧
      Inside channels m₀ kind answers m' (posted ++ [request]) (posted ++ [request])
        (handlesOf m₀ (posted ++ [request])) := by
  have haccepted' := haccepted
  rw [← hin.refusal] at haccepted'
  obtain ⟨w, chans, hok, hpost⟩ := post_accepted haccepted' (some m₀.opened)
  have hreached := hin.reached.step rfl hstep
  have hposts := hin.posts_snoc request (some m₀.opened) (answers posted.length)
  have hbuffs := (m.buffs_post kind request.peer (some m₀.opened) (answers posted.length)).trans
    hin.buffs
  have hpushed := hin.pushed request
  obtain rfl := post_step hstep
  rw [hpost] at hreached hposts hbuffs ⊢
  refine ⟨⟨w, hok⟩, idle, ⟨hreached, ?_, hpushed, ?_, hposts, hbuffs, ?_⟩⟩
  · intro i r hr
    rcases getElem?_snoc_cases hr with hold | ⟨rfl, rfl⟩
    · exact hin.accepted i r hold
    · exact haccepted
  · rw [List.map_append, hin.channels, List.append_assoc, List.map_append]
    rfl
  · intro h hmem
    rw [if_pos hmem]
    rw [handlesOf_snoc, List.mem_append, List.mem_singleton] at hmem
    rcases hmem with hold | hnew
    · have hrefs := hin.refs h hold
      rw [if_pos hold] at hrefs
      unfold Machine.refs at hrefs ⊢
      obtain ⟨x, hx, hcounts⟩ := Option.map_eq_some_iff.mp hrefs
      have hlt := (List.getElem?_eq_some_iff.mp hx).1
      rw [List.getElem?_append_left hlt, hx, Option.map_some, hcounts]
    · rw [hnew, ← hin.length]
      simp [Machine.refs]

theorem nodup_handlesOf (posted : List (PeerRequest W)) : (handlesOf m₀ posted).Nodup :=
  List.nodup_range'

theorem Inside.counts {m : Machine} {posted tried : List (PeerRequest W)} {owned : List Nat}
    (hin : Inside channels m₀ kind answers m posted tried owned) {h : Nat}
    (hmem : h ∈ handlesOf m₀ posted) :
    ∃ x, m.handles[h]? = some x ∧ x.held = (if h ∈ owned then 1 else 0) ∧ x.leaked = 0 := by
  obtain ⟨x, hx, heq⟩ := Option.map_eq_some_iff.mp (hin.refs h hmem)
  obtain ⟨hheld, hleaked⟩ := Prod.mk.inj heq
  exact ⟨x, hx, hheld, hleaked⟩

/-- The user lets go of a handle, which its scope keeps. -/
theorem Inside.drops {m m' : Machine} {posted tried : List (PeerRequest W)} {wr : Nat}
    {wrs : List Nat} (hin : Inside channels m₀ kind answers m posted tried (wr :: wrs))
    (idle : m.control = .user) (howned : (wr :: wrs).Sublist (handlesOf m₀ posted))
    (hstep : m.step (.drop wr) = some m') :
    m.Alike m' ∧ m'.control = .user ∧ Inside channels m₀ kind answers m' posted tried wrs := by
  have hmem : wr ∈ handlesOf m₀ posted := howned.subset List.mem_cons_self
  have hfresh : wr ∉ wrs := (List.nodup_cons.mp ((nodup_handlesOf posted).sublist howned)).1
  obtain ⟨x, hx, _, href⟩ := hin.handle (remaining_of_user idle) hmem
  obtain ⟨y, hy, hheld, hleaked⟩ := hin.counts hmem
  obtain rfl := Option.some.inj (hx.symm.trans hy)
  rw [if_pos List.mem_cons_self] at hheld
  obtain ⟨halike, hidle, hdropped, hothers⟩ := alike_drop hx href hstep
  refine ⟨halike, hidle, ⟨hin.reached.step rfl hstep, hin.accepted, halike.scopes.trans hin.scopes,
    halike.channels.trans hin.channels, ?_, halike.buffs.trans hin.buffs, ?_⟩⟩
  · intro c
    exact (congrFun halike.posts c).trans (hin.posts c)
  · intro h hh
    by_cases hwr : h = wr
    · rw [hwr, hdropped, if_neg hfresh, hheld, hleaked]
    · rw [hothers h hwr, hin.refs h hh]
      simp [hwr]

theorem Collected.snoc {m : Machine} {done : List Nat} {outputs : List WorkSuccess} {wr : Nat}
    {output : WorkSuccess} (h : Collected m done outputs) (hresult : m.result wr = some (.ok output))
    (hflag : m.flags.getD wr false = true) : Collected m (done ++ [wr]) (outputs ++ [output]) :=
  List.rel_append h (.cons ⟨hresult, hflag⟩ .nil)

theorem sublist_of_order {posted : List (PeerRequest W)} {done wrs : List Nat}
    (order : handlesOf m₀ posted = done ++ wrs) : wrs.Sublist (handlesOf m₀ posted) := by
  rw [order]
  exact List.sublist_append_right _ _

/-- One round of `spin_poll` in the closure. -/
theorem Inside.spins {m m₁ m' : Machine} {posted tried : List (PeerRequest W)} {owned : List Nat}
    {wr : Nat} {num_polled : Int} {poll : Option TransportResult}
    (hin : Inside channels m₀ kind answers m posted tried owned) (spin : m.control = .userSpin wr)
    (hmem : wr ∈ handlesOf m₀ posted) (hgood : 0 ≤ num_polled)
    (hpoll : m.pollWork wr num_polled = some (poll, m₁))
    (hstep : m.step (.iterate num_polled) = some m') :
    m.Alike m' ∧ Inside channels m₀ kind answers m' posted tried owned ∧
      ((poll = none ∧ m'.control = m.control) ∨ ∃ r, poll = some r ∧ m'.control = .user ∧
        m'.result wr = some r ∧ m'.flags.getD wr false = true) := by
  obtain ⟨halike, hrefs, hcase⟩ := alike_userSpin spin hpoll hstep
  have hev : (Event.iterate num_polled).reportsError = false :=
    decide_eq_false (Int.not_lt.mpr hgood)
  refine ⟨halike, hin.alike halike hrefs (hin.reached.step hev hstep), ?_⟩
  rcases hcase with hpending | ⟨r, rfl, hidle, rfl⟩
  · exact Or.inl hpending
  · obtain ⟨x, hx, hscope, _⟩ := hin.handle (by rw [spin]; rfl) hmem
    have hready := userSpin_ready hpoll (fun hfail => Int.not_lt.mpr hgood hfail.1) hx hscope
    exact Or.inr ⟨r, rfl, hidle, hready.1, hready.2⟩

theorem Inv.complete {c c' : Call W} {k : Nat} {wc : WorkCompletion}
    (hinv : Inv channels m₀ kind requests answers c)
    (hstep : Call.step kind requests answers c (.complete k wc) = some c') :
    Inv channels m₀ kind requests answers c' := by
  obtain ⟨m', hdevice, rfl⟩ := Option.map_eq_some_iff.mp hstep
  obtain ⟨halike, hcontrol, hhandles⟩ := alike_complete hdevice
  have hrefs : m'.refs = c.machine.refs := by
    funext h
    rw [Machine.refs, Machine.refs, hhandles]
  cases hinv with
  | called reached idle alike =>
    exact .called (reached.step rfl hdevice) (hcontrol.trans idle) (alike.trans halike)
  | posting idle split inside =>
    have hin := inside.alike halike hrefs (inside.reached.step rfl hdevice)
    exact .posting (hcontrol.trans idle) split hin
  | polling idle order inside collected =>
    have hin := inside.alike halike hrefs (inside.reached.step rfl hdevice)
    exact .polling (hcontrol.trans idle) order hin (collected.alike halike)
  | spinning spin order inside collected =>
    have hin := inside.alike halike hrefs (inside.reached.step rfl hdevice)
    exact .spinning (hcontrol.trans spin) order hin (collected.alike halike)
  | polled idle order inside collected result flag =>
    have hin := inside.alike halike hrefs (inside.reached.step rfl hdevice)
    exact .polled (hcontrol.trans idle) order hin (collected.alike halike)
      (halike.results _ _ result) (halike.flags _ flag)
  | leaving idle owned inside outcome =>
    have hin := inside.alike halike hrefs (inside.reached.step rfl hdevice)
    exact .leaving (hcontrol.trans idle) owned hin (outcome.alike halike)
  | closing reached inside alike ending outcome =>
    have hflags : m'.flags = _ := congrArg (List.map Handle.user_polled_to_completion) hhandles
    exact .closing (reached.step rfl hdevice) inside (alike.trans halike)
      (ending.frame (by rw [hcontrol]) hflags halike.results) outcome
  | returned reached inside channels posts buffs retains results outcome =>
    exact .returned (reached.step rfl hdevice) inside (halike.channels.trans channels)
      (halike.posts.trans posts) (halike.buffs.trans buffs) (retains.trans halike.results)
      (fun h hmem => halike.results.isSome (results h hmem)) outcome

theorem go_called {m : Machine} {c' : Call W} {num_polled : Int} (reached : Reached channels m)
    (alike : m₀.Alike m)
    (hstep : Call.go kind requests answers ⟨m, 0, [], .called⟩ num_polled = some c') :
    Inv channels m₀ kind requests answers c' := by
  obtain ⟨m', hopen, rfl⟩ := Option.map_eq_some_iff.mp hstep
  have hreached := reached.step rfl hopen
  simp only [Machine.step] at hopen
  split_ifs at hopen with hidle
  obtain rfl := Option.some.inj hopen
  have hposted : handlesOf m₀ ([] : List (PeerRequest W)) = [] := rfl
  have hin : Inside channels m₀ kind answers (W := W) { m with
      scopes := ⟨m.opened, true, []⟩ :: m.scopes
      opened := m.opened + 1 } [] [] [] := by
    refine ⟨hreached, ?_, ?_, ?_, ?_, alike.buffs, ?_⟩
    · intro i request hi
      cases hi
    · rw [alike.scopes, alike.opened]
      rfl
    · exact alike.channels.trans (List.append_nil _).symm
    · intro c
      exact (congrFun alike.posts c).trans (by simp)
    · intro h hmem
      cases hmem
  have hopened := alike.opened
  change Inv channels m₀ kind requests answers ⟨_, m.opened, [], .posting requests []⟩
  rw [hopened] at hin ⊢
  exact .posting hidle rfl hin

theorem go_posting {m : Machine} {posted todo : List (PeerRequest W)} {c' : Call W}
    {num_polled : Int} (idle : m.control = .user) (split : requests = posted ++ todo)
    (inside : Inside channels m₀ kind answers m posted posted (handlesOf m₀ posted))
    (hstep : Call.go kind requests answers
      ⟨m, m₀.opened, posted, .posting todo (handlesOf m₀ posted)⟩ num_polled = some c') :
    Inv channels m₀ kind requests answers c' := by
  cases todo with
  | nil =>
    obtain rfl := Option.some.inj hstep
    obtain rfl : requests = posted := by rw [split, List.append_nil]
    have order : handlesOf m₀ requests = [] ++ handlesOf m₀ requests := rfl
    exact .polling idle order inside .nil
  | cons request todo =>
    have hindex : (handlesOf m₀ posted).length = posted.length := List.length_range'
    obtain ⟨m', hpost, rfl⟩ := Option.map_eq_some_iff.mp hstep
    rw [hindex] at hpost ⊢
    cases hrefusal : m₀.refusal kind request.peer (answers posted.length) with
    | some e =>
      obtain ⟨herror, hidle, hin⟩ := inside.refused idle hrefusal hpost
      rw [herror]
      exact .leaving hidle (List.Sublist.refl _) hin (.refused split hrefusal)
    | none =>
      obtain ⟨⟨w, hok⟩, hidle, hin⟩ := inside.accepts idle hrefusal hpost
      have hwrs : handlesOf m₀ posted ++ [m.handles.length] = handlesOf m₀ (posted ++ [request]) := by
        rw [handlesOf_snoc, inside.length]
      rw [hok]
      dsimp only
      rw [hwrs]
      exact .posting hidle (by rw [split, List.append_assoc]; rfl) hin

theorem go_polling {m : Machine} {done wrs : List Nat} {outputs : List WorkSuccess} {c' : Call W}
    {num_polled : Int} (idle : m.control = .user) (order : handlesOf m₀ requests = done ++ wrs)
    (inside : Inside channels m₀ kind answers m requests requests wrs)
    (collected : Collected m done outputs)
    (hstep : Call.go kind requests answers ⟨m, m₀.opened, requests, .polling wrs outputs⟩
      num_polled = some c') : Inv channels m₀ kind requests answers c' := by
  cases wrs with
  | nil =>
    obtain rfl := Option.some.inj hstep
    rw [List.append_nil] at order
    rw [← order] at collected
    exact .leaving idle (List.nil_sublist _) inside (.succeeded collected)
  | cons wr wrs =>
    obtain ⟨m', hspin, rfl⟩ := Option.map_eq_some_iff.mp hstep
    have hreached := inside.reached.step rfl hspin
    simp only [Machine.step] at hspin
    split_ifs at hspin
    obtain rfl := Option.some.inj hspin
    have halike := alike_control m (.userSpin wr)
    exact .spinning rfl order (inside.alike halike rfl hreached) (collected.alike halike)

theorem go_spinning {m : Machine} {done wrs : List Nat} {wr : Nat} {outputs : List WorkSuccess}
    {c' : Call W} {num_polled : Int} (hgood : 0 ≤ num_polled) (spin : m.control = .userSpin wr)
    (order : handlesOf m₀ requests = done ++ wr :: wrs)
    (inside : Inside channels m₀ kind answers m requests requests (wr :: wrs))
    (collected : Collected m done outputs)
    (hstep : Call.go kind requests answers ⟨m, m₀.opened, requests, .spinning wr wrs outputs⟩
      num_polled = some c') : Inv channels m₀ kind requests answers c' := by
  obtain ⟨⟨poll, m₁⟩, hpoll, hround⟩ := Option.bind_eq_some_iff.mp hstep
  obtain ⟨m', hiterate, rfl⟩ := Option.map_eq_some_iff.mp hround
  have hmem : wr ∈ handlesOf m₀ requests := (sublist_of_order order).subset List.mem_cons_self
  obtain ⟨halike, hin, ⟨rfl, hcontrol⟩ | ⟨r, rfl, hidle, hresult, hflag⟩⟩ :=
    inside.spins spin hmem hgood hpoll hiterate
  · exact .spinning (hcontrol.trans spin) order hin (collected.alike halike)
  · exact .polled hidle order hin (collected.alike halike) hresult hflag

theorem go_polled {m : Machine} {done wrs : List Nat} {wr : Nat} {outputs : List WorkSuccess}
    {poll : TransportResult} {c' : Call W} {num_polled : Int} (idle : m.control = .user)
    (order : handlesOf m₀ requests = done ++ wr :: wrs)
    (inside : Inside channels m₀ kind answers m requests requests (wr :: wrs))
    (collected : Collected m done outputs) (result : m.result wr = some poll)
    (flag : m.flags.getD wr false = true)
    (hstep : Call.go kind requests answers ⟨m, m₀.opened, requests, .polled wr poll wrs outputs⟩
      num_polled = some c') : Inv channels m₀ kind requests answers c' := by
  obtain ⟨m', hdrop, rfl⟩ := Option.map_eq_some_iff.mp hstep
  have howned := sublist_of_order order
  obtain ⟨halike, hidle, hin⟩ := inside.drops idle howned hdrop
  have hresult := halike.results _ _ result
  have hcollected := collected.alike halike
  cases poll with
  | ok output =>
    refine .polling hidle ?_ hin (hcollected.snoc hresult (halike.flags _ flag))
    rw [order, List.append_assoc]
    rfl
  | error e =>
    exact .leaving hidle ((List.sublist_cons_self wr wrs).trans howned) hin
      (.failed order hcollected hresult)

theorem go_leaving {m : Machine} {posted tried : List (PeerRequest W)} {wrs : List Nat}
    {result : CallResult} {c' : Call W} {num_polled : Int} (idle : m.control = .user)
    (owned : wrs.Sublist (handlesOf m₀ posted))
    (inside : Inside channels m₀ kind answers m posted tried wrs)
    (outcome : Outcome m₀ kind requests answers m posted tried result)
    (hstep : Call.go kind requests answers ⟨m, m₀.opened, posted, .leaving wrs result⟩
      num_polled = some c') : Inv channels m₀ kind requests answers c' := by
  cases wrs with
  | nil =>
    obtain ⟨m', hclose, rfl⟩ := Option.map_eq_some_iff.mp hstep
    have hreached := inside.reached.step rfl hclose
    obtain ⟨_, s, scopes, htop, rfl⟩ := closeScope_spec hclose
    obtain ⟨rfl, _⟩ := List.cons.inj (htop.symm.trans inside.scopes)
    exact .closing hreached inside (alike_control _ _) (closing_begin m _ _) outcome
  | cons wr wrs =>
    obtain ⟨m', hdrop, rfl⟩ := Option.map_eq_some_iff.mp hstep
    obtain ⟨halike, hidle, hin⟩ := inside.drops idle owned hdrop
    exact .leaving hidle ((List.sublist_cons_self wr wrs).trans owned) hin (outcome.alike halike)

theorem Collected.flagged {m : Machine} {done : List Nat} {outputs : List WorkSuccess}
    (hc : Collected m done outputs) {h : Nat} (hmem : h ∈ done) :
    m.flags.getD h false = true := by
  induction hc with
  | nil => cases hmem
  | cons hhead _ ih =>
    rcases List.mem_cons.mp hmem with rfl | hmem
    · exact hhead.2
    · exact ih hmem

/-- A closure that succeeds has polled everything, so nothing is left to complain about. -/
theorem Outcome.returns {m₁ m : Machine} {posted tried : List (PeerRequest W)}
    {result : CallResult} {waited : List Nat} {a : AutoPoll}
    (outcome : Outcome m₀ kind requests answers m₁ posted tried result)
    (ending : Closing m₁ ⟨m₀.opened, true, handlesOf m₀ posted⟩
      (.of (.ok result : Except Empty CallResult)) m waited [] a) (hrest : a.rest = []) :
    PollingScope.run_manual_match (.ok result : Except Empty CallResult) a.result =
      .returned result := by
  cases outcome with
  | refused _ _ => rfl
  | failed _ _ _ => rfl
  | @succeeded outputs collected =>
    have hnone : m₁.unflagged (handlesOf m₀ requests) = [] := by
      rw [unflagged, List.filter_eq_nil_iff]
      intro h hmem
      rw [collected.flagged hmem]
      decide
    obtain ⟨hpolled, _, _⟩ := ending.autoPoll_result hrest
    have hmatch := run_manual_match_ok (E := TransportError) (P := Empty) outputs hpolled
    rw [hmatch]
    exact if_pos hnone

theorem go_closing {m m₁ : Machine} {posted tried : List (PeerRequest W)} {result : CallResult}
    {waited current : List Nat} {a : AutoPoll} {c' : Call W} {num_polled : Int}
    (hgood : 0 ≤ num_polled) (reached : Reached channels m)
    (inside : Inside channels m₀ kind answers m₁ posted tried []) (alike : m₁.Alike m)
    (ending : Closing m₁ ⟨m₀.opened, true, handlesOf m₀ posted⟩
      (.of (.ok result : Except Empty CallResult)) m waited current a)
    (outcome : Outcome m₀ kind requests answers m₁ posted tried result)
    (hstep : Call.go kind requests answers ⟨m, m₀.opened, posted, .closing result⟩
      num_polled = some c') : Inv channels m₀ kind requests answers c' := by
  have hhonest := reached.tracked.honest
  have hiterates (hround : (m.step (.iterate num_polled)).map (fun m' =>
      (⟨m', m₀.opened, posted, .closing result⟩ : Call W)) = some c')
      (hbusy : ∀ a, m.control ≠ .auto a) : Inv channels m₀ kind requests answers c' := by
    obtain ⟨m', hiterate, rfl⟩ := Option.map_eq_some_iff.mp hround
    have hev : (Event.iterate num_polled).reportsError = false :=
      decide_eq_false (Int.not_lt.mpr hgood)
    rcases ending.step hhonest (not_driverFails hev m) hiterate with
      ⟨waited', current', a', hending, _, _⟩ | ⟨hauto, _⟩
    · exact .closing (reached.step hev hiterate) inside (alike.trans (alike_iterate hiterate))
        hending outcome
    · exact absurd hauto (hbusy a)
  unfold Call.go at hstep
  dsimp only at hstep
  cases hcontrol : m.control with
  | auto a' =>
    rw [hcontrol] at hstep
    obtain ⟨m', hnext, rfl⟩ := Option.map_eq_some_iff.mp hstep
    have hreached := reached.step rfl hnext
    have hplace := ending.control
    rw [hcontrol] at hplace
    obtain ⟨rfl, rfl⟩ := Prod.mk.inj (Option.some.inj hplace)
    cases hrest : a'.rest with
    | nil =>
      obtain ⟨a₁, hauto, ⟨_, _, _, hmore, _⟩ | ⟨_, s, scopes, htop, rfl⟩⟩ := next_spec hnext
      · obtain rfl : a' = a₁ := by simpa [hcontrol] using hauto
        cases hrest.symm.trans hmore
      · obtain ⟨_, _, hresults⟩ := ending.autoPoll_result hrest
        rw [outcome.returns ending hrest]
        exact .returned hreached inside alike.channels alike.posts alike.buffs alike.results
          hresults outcome
    | cons h rest =>
      have hmore : a'.rest ≠ [] := by
        rw [hrest]
        exact List.cons_ne_nil h rest
      rcases ending.step hhonest (not_driverFails rfl m) hnext with
        ⟨waited', current', a₁, hending, _, _⟩ | ⟨_, hnone, _⟩
      · exact .closing hreached inside (alike.trans (alike_next hnext hcontrol hmore)) hending
          outcome
      · exact absurd hnone hmore
  | user | userSpin _ | userDrop _ =>
    have hplace := ending.control
    rw [hcontrol] at hplace
    cases hplace
  | autoSpin h a' | autoDrop h a' =>
    rw [hcontrol] at hstep
    exact hiterates hstep (fun a => by rw [hcontrol]; exact Control.noConfusion)

theorem Inv.step {c c' : Call W} {ev : CallEvent} (hinv : Inv channels m₀ kind requests answers c)
    (hgood : ev.reportsError = false) (hstep : Call.step kind requests answers c ev = some c') :
    Inv channels m₀ kind requests answers c' := by
  cases ev with
  | complete k wc => exact hinv.complete hstep
  | go num_polled =>
    have hpos : 0 ≤ num_polled := Int.not_lt.mp (of_decide_eq_false hgood)
    change Call.go kind requests answers c num_polled = some c' at hstep
    cases hinv with
    | called reached _ alike => exact go_called reached alike hstep
    | posting idle split inside => exact go_posting idle split inside hstep
    | polling idle order inside collected => exact go_polling idle order inside collected hstep
    | spinning spin order inside collected =>
      exact go_spinning hpos spin order inside collected hstep
    | polled idle order inside collected result flag =>
      exact go_polled idle order inside collected result flag hstep
    | leaving idle owned inside outcome => exact go_leaving idle owned inside outcome hstep
    | closing reached inside alike ending outcome =>
      exact go_closing hpos reached inside alike ending outcome hstep
    | returned _ _ _ _ _ _ _ _ => cases hstep

theorem inv_run {es : List CallEvent} {c : Call W} (hm₀ : Reached channels m₀)
    (idle : m₀.control = .user) (hes : ∀ ev ∈ es, ev.reportsError = false)
    (hrun : (blocking kind requests answers m₀).run es = some c) :
    Inv channels m₀ kind requests answers c :=
  (blocking kind requests answers m₀).invariant_on (.called hm₀ idle (.refl m₀))
    (fun _ _ _ hgood hinv hstep => hinv.step hgood hstep) hes hrun

end Call

end IbverbsRs
