import IbverbsRs.MultiChannel.UnpolledOps

namespace IbverbsRs

open Ibverbs Framework

namespace UnpolledCall

open Machine Call

variable {W : Type} (channels : List Channel) (m₀ : Machine) (kind : OpKind)
  (requests : List (PeerRequest W)) (answers : Nat → Option Nat)

/-- Exactly the requests `posted` have got handles, each on the channel of its peer, and the driver
was asked to take those `tried`. -/
structure Posted (m : Machine) (posted tried : List (PeerRequest W)) : Prop where
  reached : Reached channels m
  accepted : ∀ i request, posted[i]? = some request →
    m₀.refusal kind request.peer (answers i) = none
  scopes : m.scopes = m₀.scopes
  exact : PostedExactly m₀ m posted tried
  buffs : m.channels.map Channel.poll_buff = m₀.channels.map Channel.poll_buff
  others : ∀ h < m₀.handles.length, m.handles[h]? = m₀.handles[h]?

/-- The handle of a request that nobody has polled. -/
def freshHandle (request : PeerRequest W) (wr_id : UInt64) : Handle :=
  ⟨request.peer, .new wr_id, false, none, 1, 0, false, false⟩

/-- The handles are those of before and a fresh one for each request. -/
def Fresh (m : Machine) (posted : List (PeerRequest W)) : Prop :=
  m.polls = m₀.polls ∧ ∃ wr_ids : List UInt64, wr_ids.length = posted.length ∧
    m.handles = m₀.handles ++ List.zipWith freshHandle posted wr_ids

/-- The request that is refused, behind those that were posted. -/
structure Refused (posted : List (PeerRequest W)) (request : PeerRequest W) (e : IbvError) :
    Prop where
  split : ∃ todo, requests = posted ++ request :: todo
  error : m₀.refusal kind request.peer (answers posted.length) = some e

/-- The handles `done` are gone, and their requests have finished. -/
def Dropped (m : Machine) (done : List Nat) : Prop :=
  ∀ h ∈ done, (m.result h).isSome ∧ m.usable h = false

/-- What holds in each phase of an unpolled operation. -/
inductive Inv : UnpolledCall W → Prop
  | posting {m : Machine} {posted todo : List (PeerRequest W)} (idle : m.control = .user)
      (split : requests = posted ++ todo) (inside : Posted channels m₀ kind answers m posted posted)
      (fresh : Fresh m₀ m posted) : Inv ⟨m, .posting todo (handlesOf m₀ posted)⟩
  | failing {m : Machine} {posted : List (PeerRequest W)} {request : PeerRequest W} {e : IbvError}
      {done wrs : List Nat} (idle : m.control = .user)
      (refused : Refused m₀ kind requests answers posted request e)
      (inside : Posted channels m₀ kind answers m posted (posted ++ [request]))
      (order : handlesOf m₀ posted = done ++ wrs) (dropped : Dropped m done)
      (soles : ∀ h ∈ wrs, m.Sole h) : Inv ⟨m, .failing wrs e⟩
  | dropping {m : Machine} {posted : List (PeerRequest W)} {request : PeerRequest W} {e : IbvError}
      {done wrs : List Nat} {wr : Nat} (dropping : m.control = .userDrop wr)
      (refused : Refused m₀ kind requests answers posted request e)
      (inside : Posted channels m₀ kind answers m posted (posted ++ [request]))
      (order : handlesOf m₀ posted = done ++ wr :: wrs) (dropped : Dropped m done)
      (gone : m.usable wr = false) (soles : ∀ h ∈ wrs, m.Sole h) : Inv ⟨m, .failing wrs e⟩
  | failed {m : Machine} {posted : List (PeerRequest W)} {request : PeerRequest W} {e : IbvError}
      (idle : m.control = .user) (refused : Refused m₀ kind requests answers posted request e)
      (inside : Posted channels m₀ kind answers m posted (posted ++ [request]))
      (dropped : Dropped m (handlesOf m₀ posted)) : Inv ⟨m, .returned (.error e)⟩
  | succeeded {m : Machine} (idle : m.control = .user)
      (inside : Posted channels m₀ kind answers m requests requests)
      (fresh : Fresh m₀ m requests) : Inv ⟨m, .returned (.ok (handlesOf m₀ requests))⟩

variable {channels m₀ kind requests answers} {m m' : Machine}
  {posted tried : List (PeerRequest W)}

theorem Posted.alike (h : Posted channels m₀ kind answers m posted tried) (halike : m.Alike m')
    (hothers : ∀ k < m₀.handles.length, m'.handles[k]? = m.handles[k]?)
    (hreached : Reached channels m') : Posted channels m₀ kind answers m' posted tried where
  reached := hreached
  accepted := h.accepted
  scopes := halike.scopes.trans h.scopes
  exact := ⟨halike.channels.trans h.exact.channels,
    fun c => (congrFun halike.posts c).trans (h.exact.posts c)⟩
  buffs := halike.buffs.trans h.buffs
  others k hk := (hothers k hk).trans (h.others k hk)

theorem Posted.length (h : Posted channels m₀ kind answers m posted tried) :
    m.handles.length = m₀.handles.length + posted.length := by
  simpa using congrArg List.length h.exact.channels

/-- The peers that exist are the same all the time. -/
theorem Posted.refusal (h : Posted channels m₀ kind answers m posted tried) (peer : Nat)
    (errno : Option Nat) : m.refusal kind peer errno = m₀.refusal kind peer errno := by
  have hposts := h.exact.posts peer
  unfold postsOn at hposts
  unfold Machine.refusal
  cases hch : m.channels[peer]? with
  | none =>
    cases hch₀ : m₀.channels[peer]? with
    | none => rfl
    | some ch => simp [hch, hch₀] at hposts
  | some ch =>
    cases hch₀ : m₀.channels[peer]? with
    | none => simp [hch, hch₀] at hposts
    | some ch => rfl

theorem Posted.posts_snoc (h : Posted channels m₀ kind answers m posted tried)
    (request : PeerRequest W) (errno : Option Nat) (c : Nat) :
    (m.post kind request.peer none errno).postsOn c =
      (m₀.postsOn c).map (· + ((tried ++ [request]).map PeerRequest.peer).count c) := by
  rw [postsOn_post, h.exact.posts c, Option.map_map, List.map_append, List.map_singleton]
  congr 1
  funext n
  rw [Function.comp_apply, List.count_append, Nat.add_assoc]

/-- A refused request leaves no handle. -/
theorem Posted.refuses (h : Posted channels m₀ kind answers m posted tried)
    {request : PeerRequest W} {errno : Option Nat} {e : IbvError} (idle : m.control = .user)
    (hrefused : m₀.refusal kind request.peer errno = some e)
    (hstep : m.step (.post kind request.peer none errno) = some m') :
    m.channel_post kind request.peer errno = .error e ∧ m'.control = .user ∧
      m'.handles = m.handles ∧
      Posted channels m₀ kind answers m' posted (tried ++ [request]) := by
  rw [← h.refusal] at hrefused
  obtain ⟨herror, chans, hpost⟩ := post_refused hrefused none
  have hreached := h.reached.step rfl hstep
  have hposts := h.posts_snoc request errno
  have hbuffs := (m.buffs_post kind request.peer none errno).trans h.buffs
  obtain rfl := post_step hstep
  rw [hpost] at hreached hposts hbuffs ⊢
  exact ⟨herror, idle, rfl,
    ⟨hreached, h.accepted, h.scopes, ⟨h.exact.channels, hposts⟩, hbuffs, h.others⟩⟩

theorem Fresh.snoc (h : Fresh m₀ m posted) {request : PeerRequest W} {wr_id : UInt64}
    {chans : List Channel} : Fresh m₀ { m with
      channels := chans
      handles := m.handles ++ [freshHandle request wr_id] } (posted ++ [request]) := by
  obtain ⟨hpolls, wr_ids, hlen, hhandles⟩ := h
  refine ⟨hpolls, wr_ids ++ [wr_id], by simp [hlen], ?_⟩
  rw [List.zipWith_append hlen.symm, ← List.append_assoc, ← hhandles]
  rfl

theorem Posted.accepts (h : Posted channels m₀ kind answers m posted posted)
    (hfresh : Fresh m₀ m posted) {request : PeerRequest W} (idle : m.control = .user)
    (haccepted : m₀.refusal kind request.peer (answers posted.length) = none)
    (hstep : m.step (.post kind request.peer none (answers posted.length)) = some m') :
    (∃ w, m.channel_post kind request.peer (answers posted.length) = .ok w) ∧ m'.control = .user ∧
      Posted channels m₀ kind answers m' (posted ++ [request]) (posted ++ [request]) ∧
      Fresh m₀ m' (posted ++ [request]) := by
  have haccepted' := haccepted
  rw [← h.refusal] at haccepted'
  obtain ⟨wr_id, chans, hok, hpost⟩ := post_fresh haccepted'
  have hreached := h.reached.step rfl hstep
  have hposts := h.posts_snoc request (answers posted.length)
  have hbuffs := (m.buffs_post kind request.peer none (answers posted.length)).trans h.buffs
  obtain rfl := post_step hstep
  rw [hpost] at hreached hposts hbuffs ⊢
  refine ⟨⟨_, hok⟩, idle, ⟨hreached, ?_, h.scopes, ⟨?_, hposts⟩, hbuffs, ?_⟩, hfresh.snoc⟩
  · intro i r hr
    rcases getElem?_snoc_cases hr with hold | ⟨rfl, rfl⟩
    · exact h.accepted i r hold
    · exact haccepted
  · rw [List.map_append, h.exact.channels, List.append_assoc, List.map_append]
    rfl
  · intro k hk
    have hlen := h.length
    rw [← h.others k hk]
    exact List.getElem?_append_left (by omega)

/-- A handle that nobody has polled is the only reference to its request. -/
theorem Fresh.sole (h : Fresh m₀ m posted) {k : Nat} (hk : k ∈ handlesOf m₀ posted) : m.Sole k := by
  obtain ⟨_, wr_ids, hlen, hhandles⟩ := h
  obtain ⟨hge, hlt⟩ := mem_handlesOf.mp hk
  have hindex : k - m₀.handles.length < (List.zipWith freshHandle posted wr_ids).length := by
    rw [List.length_zipWith, hlen]
    omega
  have hentry : m.handles[k]? = some (List.zipWith freshHandle posted wr_ids)[k - _] := by
    rw [hhandles, List.getElem?_append_right hge, List.getElem?_eq_getElem hindex]
  rw [List.getElem_zipWith] at hentry
  exact ⟨_, hentry, rfl, rfl, rfl⟩

theorem Dropped.alike {done : List Nat} (h : Dropped m done) (halike : m.Alike m')
    (husable : ∀ k ∈ done, m'.usable k = m.usable k) : Dropped m' done := by
  intro k hk
  exact ⟨halike.results.isSome (h k hk).1, (husable k hk).trans (h k hk).2⟩

theorem usable_congr {k : Nat} (hsame : m'.handles[k]? = m.handles[k]?) :
    m'.usable k = m.usable k := by
  rw [usable, hsame]
  rfl

theorem refused_index (h : Posted channels m₀ kind answers m posted tried)
    {request : PeerRequest W} {e : IbvError}
    (hrefused : Refused m₀ kind requests answers posted request e) :
    (∀ i < posted.length, refusedWith m₀ kind requests answers i = none) ∧
      refusedWith m₀ kind requests answers posted.length = some e := by
  obtain ⟨todo, split⟩ := hrefused.split
  refine ⟨?_, (refused_split split).trans hrefused.error⟩
  intro i hi
  unfold refusedWith
  rw [split, List.getElem?_append_left hi, List.getElem?_eq_getElem hi]
  exact h.accepted i _ (List.getElem?_eq_getElem hi)

/-- The handle that is dropped next is neither one of those before nor one of those behind. -/
theorem order_spec {done wrs : List Nat} {wr : Nat}
    (order : handlesOf m₀ posted = done ++ wr :: wrs) :
    wr ∉ done ∧ wr ∉ wrs ∧ m₀.handles.length ≤ wr := by
  have hnodup : (handlesOf m₀ posted).Nodup := nodup_handlesOf posted
  rw [order, List.nodup_append] at hnodup
  obtain ⟨_, htail, hdisjoint⟩ := hnodup
  have hmem : wr ∈ handlesOf m₀ posted := by
    rw [order]
    exact List.mem_append_right _ List.mem_cons_self
  refine ⟨fun hdone => ?_, (List.nodup_cons.mp htail).1, (mem_handlesOf.mp hmem).1⟩
  exact hdisjoint _ hdone _ List.mem_cons_self rfl

theorem Inv.complete {c c' : UnpolledCall W} {k : Nat} {wc : WorkCompletion}
    (hinv : Inv channels m₀ kind requests answers c)
    (hstep : UnpolledCall.step kind answers c (.complete k wc) = some c') :
    Inv channels m₀ kind requests answers c' := by
  obtain ⟨m', hdevice, rfl⟩ := Option.map_eq_some_iff.mp hstep
  obtain ⟨halike, hcontrol, hhandles⟩ := alike_complete hdevice
  have hpolls := polls_complete hdevice
  have hinside {posted tried : List (PeerRequest W)}
      (h : Posted channels m₀ kind answers c.machine posted tried) :
      Posted channels m₀ kind answers m' posted tried :=
    h.alike halike (fun _ _ => by rw [hhandles]) (h.reached.step rfl hdevice)
  have hfresh {posted : List (PeerRequest W)} (h : Fresh m₀ c.machine posted) :
      Fresh m₀ m' posted := by
    unfold Fresh
    rwa [hpolls, hhandles]
  have hdropped {done : List Nat} (h : Dropped c.machine done) : Dropped m' done :=
    h.alike halike (fun _ _ => usable_congr (by rw [hhandles]))
  have hsoles {wrs : List Nat} (h : ∀ k ∈ wrs, c.machine.Sole k) : ∀ k ∈ wrs, m'.Sole k :=
    fun k hk => (h k hk).congr (by rw [hhandles])
  cases hinv with
  | posting idle split inside fresh =>
    exact .posting (hcontrol.trans idle) split (hinside inside) (hfresh fresh)
  | failing idle refused inside order dropped soles =>
    exact .failing (hcontrol.trans idle) refused (hinside inside) order (hdropped dropped)
      (hsoles soles)
  | dropping spinning refused inside order dropped gone soles =>
    exact .dropping (hcontrol.trans spinning) refused (hinside inside) order (hdropped dropped)
      ((usable_congr (by rw [hhandles])).trans gone) (hsoles soles)
  | failed idle refused inside dropped =>
    exact .failed (hcontrol.trans idle) refused (hinside inside) (hdropped dropped)
  | succeeded idle inside fresh =>
    exact .succeeded (hcontrol.trans idle) (hinside inside) (hfresh fresh)

theorem go_posting {todo : List (PeerRequest W)} {c' : UnpolledCall W} {num_polled : Int}
    (idle : m.control = .user) (split : requests = posted ++ todo)
    (inside : Posted channels m₀ kind answers m posted posted) (fresh : Fresh m₀ m posted)
    (hstep : go kind answers ⟨m, .posting todo (handlesOf m₀ posted)⟩ num_polled = some c') :
    Inv channels m₀ kind requests answers c' := by
  cases todo with
  | nil =>
    obtain rfl := Option.some.inj hstep
    obtain rfl : requests = posted := by rw [split, List.append_nil]
    exact .succeeded idle inside fresh
  | cons request todo =>
    have hindex : (handlesOf m₀ posted).length = posted.length := List.length_range'
    obtain ⟨m', hpost, rfl⟩ := Option.map_eq_some_iff.mp hstep
    rw [hindex] at hpost ⊢
    cases hrefusal : m₀.refusal kind request.peer (answers posted.length) with
    | some e =>
      obtain ⟨herror, hidle, hhandles, hinside⟩ := inside.refuses idle hrefusal hpost
      rw [herror]
      refine .failing hidle ⟨⟨todo, split⟩, hrefusal⟩ hinside (List.nil_append _).symm ?_ ?_
      · intro k hk
        cases hk
      · intro k hk
        exact (fresh.sole hk).congr (by rw [hhandles])
    | none =>
      obtain ⟨⟨w, hok⟩, hidle, hinside, hfresh⟩ := inside.accepts fresh idle hrefusal hpost
      have hwrs : handlesOf m₀ posted ++ [m.handles.length] = handlesOf m₀ (posted ++ [request]) := by
        rw [handlesOf_snoc, inside.length]
      rw [hok]
      dsimp only
      rw [hwrs]
      exact .posting hidle (by rw [split, List.append_assoc]; rfl) hinside hfresh

theorem go_failing {request : PeerRequest W} {e : IbvError} {done wrs : List Nat}
    {c' : UnpolledCall W} {num_polled : Int} (idle : m.control = .user)
    (refused : Refused m₀ kind requests answers posted request e)
    (inside : Posted channels m₀ kind answers m posted (posted ++ [request]))
    (order : handlesOf m₀ posted = done ++ wrs) (dropped : Dropped m done)
    (soles : ∀ h ∈ wrs, m.Sole h)
    (hstep : go kind answers ⟨m, .failing wrs e⟩ num_polled = some c') :
    Inv channels m₀ kind requests answers c' := by
  simp only [go, if_pos idle] at hstep
  cases wrs with
  | nil =>
    obtain rfl := Option.some.inj hstep
    rw [List.append_nil] at order
    exact .failed idle refused inside (order ▸ dropped)
  | cons wr wrs =>
    obtain ⟨m', hdrop, rfl⟩ := Option.map_eq_some_iff.mp hstep
    obtain ⟨m₁, hdrop', hcontrol, halike, hgone, hothers⟩ :=
      drop_sole (soles wr List.mem_cons_self) idle
    obtain rfl := Option.some.inj (hdrop'.symm.trans hdrop)
    obtain ⟨hdone, hwrs, hge⟩ := order_spec order
    refine .dropping hcontrol refused ?_ order ?_ hgone ?_
    · refine inside.alike halike (fun k hk => hothers k ?_) (inside.reached.step rfl hdrop)
      omega
    · refine dropped.alike halike (fun k hk => usable_congr (hothers k ?_))
      rintro rfl
      exact hdone hk
    · intro k hk
      refine (soles k (List.mem_cons_of_mem _ hk)).congr (hothers k ?_)
      rintro rfl
      exact hwrs hk

theorem go_dropping {request : PeerRequest W} {e : IbvError} {done wrs : List Nat} {wr : Nat}
    {c' : UnpolledCall W} {num_polled : Int} (hgood : 0 ≤ num_polled)
    (dropping : m.control = .userDrop wr)
    (refused : Refused m₀ kind requests answers posted request e)
    (inside : Posted channels m₀ kind answers m posted (posted ++ [request]))
    (order : handlesOf m₀ posted = done ++ wr :: wrs) (dropped : Dropped m done)
    (gone : m.usable wr = false) (soles : ∀ h ∈ wrs, m.Sole h)
    (hstep : go kind answers ⟨m, .failing wrs e⟩ num_polled = some c') :
    Inv channels m₀ kind requests answers c' := by
  have hbusy : m.control ≠ .user := by
    rw [dropping]
    exact Control.noConfusion
  simp only [go, if_neg hbusy] at hstep
  obtain ⟨m', hround, rfl⟩ := Option.map_eq_some_iff.mp hstep
  obtain ⟨halike, husable, hothers, hcase⟩ := userDrop_step dropping hgood hround
  obtain ⟨hdone, hwrs, hge⟩ := order_spec order
  have hev : (Event.iterate num_polled).reportsError = false :=
    decide_eq_false (Int.not_lt.mpr hgood)
  have hinside := inside.alike halike (fun k hk => hothers k (by omega))
    (inside.reached.step hev hround)
  have hdropped : Dropped m' done := by
    refine dropped.alike halike (fun k hk => usable_congr (hothers k ?_))
    rintro rfl
    exact hdone hk
  have hsoles : ∀ k ∈ wrs, m'.Sole k := by
    intro k hk
    refine (soles k hk).congr (hothers k ?_)
    rintro rfl
    exact hwrs hk
  rcases hcase with hspinning | ⟨hidle, hresult⟩
  · exact .dropping hspinning refused hinside order hdropped (husable.trans gone) hsoles
  · refine .failing hidle refused hinside (order.trans (List.append_cons done wr wrs)) ?_ hsoles
    intro k hk
    rcases List.mem_append.mp hk with hold | hnew
    · exact hdropped k hold
    · obtain rfl := List.mem_singleton.mp hnew
      exact ⟨hresult, husable.trans gone⟩

theorem Inv.step {c c' : UnpolledCall W} {ev : CallEvent}
    (hinv : Inv channels m₀ kind requests answers c) (hgood : ev.reportsError = false)
    (hstep : UnpolledCall.step kind answers c ev = some c') :
    Inv channels m₀ kind requests answers c' := by
  cases ev with
  | complete k wc => exact hinv.complete hstep
  | go num_polled =>
    have hpos : 0 ≤ num_polled := Int.not_lt.mp (of_decide_eq_false hgood)
    change go kind answers c num_polled = some c' at hstep
    cases hinv with
    | posting idle split inside fresh => exact go_posting idle split inside fresh hstep
    | failing idle refused inside order dropped soles =>
      exact go_failing idle refused inside order dropped soles hstep
    | dropping spinning refused inside order dropped gone soles =>
      exact go_dropping hpos spinning refused inside order dropped gone soles hstep
    | failed _ _ _ _ => cases hstep
    | succeeded _ _ _ => cases hstep

theorem inv_run {es : List CallEvent} {c : UnpolledCall W} (hm₀ : Reached channels m₀)
    (idle : m₀.control = .user) (hes : ∀ ev ∈ es, ev.reportsError = false)
    (hrun : (unpolled kind requests answers m₀).run es = some c) :
    Inv channels m₀ kind requests answers c := by
  have hstart : Posted channels m₀ kind answers m₀ ([] : List (PeerRequest W)) [] := by
    refine ⟨hm₀, ?_, rfl, ⟨(List.append_nil _).symm, fun c => by simp⟩, rfl, fun _ _ => rfl⟩
    intro i request hi
    cases hi
  refine (unpolled kind requests answers m₀).invariant_on ?_
    (fun _ _ _ hgood hinv hstep => hinv.step hgood hstep) hes hrun
  exact .posting idle rfl hstart ⟨rfl, [], rfl, (List.append_nil _).symm⟩

end UnpolledCall

end IbverbsRs
