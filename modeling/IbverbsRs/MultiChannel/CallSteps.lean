import IbverbsRs.MultiChannel.PolledOps

namespace IbverbsRs

open Ibverbs Framework

/-- The text of the error if the driver rejects a request. -/
def OpKind.msg : OpKind → String
  | .send => "Failed to post send work request"
  | .receive => "Failed to post receive work request"
  | .write => "Failed to post write work request"
  | .read => "Failed to post read work request"

theorem Channel.unpolled_eq (kind : OpKind) (self : Channel) (errno : Option Nat) :
    self.unpolled kind errno = self.post_unpolled kind.msg errno := by
  cases kind <;> rfl

namespace Machine

/-- How often a channel was asked to take a request. -/
def postsOn (m : Machine) (c : Nat) : Option Nat := (m.channels[c]?).map (fun ch => ch.qp.posts)

/-- How many clones of a handle the user can still drop, and how many were forgotten. -/
def refs (m : Machine) (h : Nat) : Option (Nat × Nat) :=
  (m.handles[h]?).map (fun x => (x.held, x.leaked))

/-- The error a request is refused with: its peer does not exist, or the driver rejects it. -/
def refusal (m : Machine) (kind : OpKind) (peer : Nat) (errno : Option Nat) : Option IbvError :=
  match m.channels[peer]? with
  | none => some (.NotFound s!"Peer {peer} not found")
  | some _ => errno.map (fun errno => .from_errno_with_msg errno kind.msg)

/-- The two states differ only in what has been polled and who holds which handle. -/
structure Alike (m m' : Machine) : Prop where
  scopes : m'.scopes = m.scopes
  opened : m'.opened = m.opened
  channels : m'.handles.map Handle.channel = m.handles.map Handle.channel
  posts : m'.postsOn = m.postsOn
  buffs : m'.channels.map Channel.poll_buff = m.channels.map Channel.poll_buff
  results : m.Retains m'
  flags : ∀ h, m.flags.getD h false = true → m'.flags.getD h false = true

theorem Alike.refl (m : Machine) : m.Alike m :=
  ⟨rfl, rfl, rfl, rfl, rfl, .refl m, fun _ h => h⟩

theorem Retains.trans {m m₁ m₂ : Machine} (h₁ : m.Retains m₁) (h₂ : m₁.Retains m₂) :
    m.Retains m₂ := fun h r hr => h₂ h r (h₁ h r hr)

theorem Alike.trans {m m₁ m₂ : Machine} (h₁ : m.Alike m₁) (h₂ : m₁.Alike m₂) : m.Alike m₂ where
  scopes := h₂.scopes.trans h₁.scopes
  opened := h₂.opened.trans h₁.opened
  channels := h₂.channels.trans h₁.channels
  posts := h₂.posts.trans h₁.posts
  buffs := h₂.buffs.trans h₁.buffs
  results := h₁.results.trans h₂.results
  flags h hflag := h₂.flags h (h₁.flags h hflag)

theorem postsOn_set {m : Machine} {c : Nat} {ch ch' : Channel} (hch : m.channels[c]? = some ch)
    (hposts : ch'.qp.posts = ch.qp.posts) :
    (fun k => ((m.channels.set c ch')[k]?).map (fun ch => ch.qp.posts)) = m.postsOn := by
  funext k
  have hmap := map_set_eq (f := fun ch : Channel => ch.qp.posts) hch hposts
  have hentry := congrArg (fun xs => xs[k]?) hmap
  simp only [List.getElem?_map] at hentry
  exact hentry

theorem alike_complete {m m' : Machine} {c : Nat} {wc : WorkCompletion}
    (h : m.step (.complete c wc) = some m') :
    m.Alike m' ∧ m'.control = m.control ∧ m'.handles = m.handles := by
  simp only [step] at h
  split at h
  · cases h
  · rename_i ch hch
    obtain ⟨ch', hcomplete, rfl⟩ := Option.map_eq_some_iff.mp h
    unfold Channel.complete at hcomplete
    split_ifs at hcomplete
    obtain rfl := Option.some.inj hcomplete
    exact ⟨⟨rfl, rfl, rfl, postsOn_set hch rfl, map_set_eq hch rfl, .refl m, fun _ hflag => hflag⟩,
      rfl, rfl⟩

theorem alike_pollWork {m m' : Machine} {h : Nat} {num_polled : Int} {r : Option TransportResult}
    (hpoll : m.pollWork h num_polled = some (r, m')) : m.Alike m' ∧ m'.refs = m.refs := by
  have hflags := flags_pollWork hpoll
  have hret := retains_pollWork hpoll
  obtain ⟨_, hscopes, hopened, _⟩ := pollWork_frame hpoll
  obtain ⟨x, ch, w', cq', hx, hch, hp, rfl⟩ := pollWork_spec hpoll
  have hchannels := map_set_eq (f := Handle.channel) (b := { x with work := w' }) hx rfl
  have hrefs := map_set_eq (f := fun x : Handle => (x.held, x.leaked))
    (b := { x with work := w' }) hx rfl
  have hbuffs := map_set_eq (f := Channel.poll_buff) (b := { ch with cq := cq' }) hch rfl
  refine ⟨⟨hscopes, hopened, hchannels, postsOn_set hch rfl, hbuffs, hret, ?_⟩, ?_⟩
  · intro k hk
    rwa [hflags]
  · funext k
    have hentry := congrArg (fun xs => xs[k]?) hrefs
    simp only [List.getElem?_map] at hentry
    exact hentry

theorem alike_modify {m : Machine} {h : Nat} {f : Handle → Handle}
    (hchannel : ∀ x, (f x).channel = x.channel) (hwork : ∀ x, (f x).work = x.work)
    (hflag : ∀ x, x.user_polled_to_completion = true → (f x).user_polled_to_completion = true) :
    m.Alike (m.modify h f) := by
  refine ⟨rfl, rfl, map_modify_eq hchannel m.handles h, rfl, rfl, ?_, ?_⟩
  · intro k r hr
    rwa [result_modify hwork]
  · intro k hk
    rw [flags, List.getD_eq_getElem?_getD, List.getElem?_map] at hk ⊢
    simp only [modify, List.getElem?_modify]
    cases hx : m.handles[k]? with
    | none => simp [hx] at hk
    | some x =>
      simp only [hx, Option.map_some, Option.getD_some] at hk
      by_cases hne : h = k
      · simp [hne, hflag x hk]
      · simp [hne, hk]

theorem alike_control (m : Machine) (c : Control) : m.Alike { m with control := c } :=
  ⟨rfl, rfl, rfl, rfl, rfl, .refl m, fun _ hflag => hflag⟩

/-- Dropping a handle its scope still has only counts it down. -/
theorem alike_drop {m m' : Machine} {h : Nat} {x : Handle} (hx : m.handles[h]? = some x)
    (href : x.scopeRef = true) (hstep : m.step (.drop h) = some m') :
    m.Alike m' ∧ m'.control = .user ∧ m'.refs h = some (x.held - 1, x.leaked) ∧
      ∀ k, k ≠ h → m'.refs k = m.refs k := by
  simp only [step] at hstep
  split_ifs at hstep with hidle
  simp only [dropRef, hx, href] at hstep
  split_ifs at hstep with hheld hlast
  · cases hlast.2
  · obtain rfl := Option.some.inj hstep
    refine ⟨alike_modify (fun _ => rfl) (fun _ => rfl) (fun _ hflag => hflag), hidle, ?_, ?_⟩
    · simp [refs, modify, hx]
    · intro k hk
      simp [refs, modify, Ne.symm hk]

theorem refs_userPolled (m : Machine) (h : Nat) : (m.modify h userPolled).refs = m.refs := by
  funext k
  simp only [refs, modify, List.getElem?_modify]
  cases m.handles[k]? with
  | none => rfl
  | some x =>
    by_cases hk : h = k
    · simp [hk, userPolled]
    · simp [hk]

/-- One round of a `spin_poll` of the user. -/
theorem alike_userSpin {m m₁ m' : Machine} {h : Nat} {num_polled : Int}
    {poll : Option TransportResult} (hspin : m.control = .userSpin h)
    (hpoll : m.pollWork h num_polled = some (poll, m₁))
    (hstep : m.step (.iterate num_polled) = some m') :
    m.Alike m' ∧ m'.refs = m.refs ∧ ((poll = none ∧ m'.control = m.control) ∨
      ∃ r, poll = some r ∧ m'.control = .user ∧
        m' = { m₁.modify h userPolled with control := .user }) := by
  obtain ⟨halike, hrefs⟩ := alike_pollWork hpoll
  have hround : m.iterate num_polled = some m' := hstep
  simp only [iterate, hspin, hpoll] at hround
  cases poll with
  | none =>
    obtain rfl := Option.some.inj hround
    exact ⟨halike, hrefs, Or.inl ⟨rfl, (pollWork_frame hpoll).1⟩⟩
  | some r =>
    obtain rfl := Option.some.inj hround
    have hmodify : m₁.Alike (m₁.modify h userPolled) :=
      alike_modify (fun _ => rfl) (fun _ => rfl) (fun x hflag => by simp [userPolled, hflag])
    exact ⟨(halike.trans hmodify).trans (alike_control _ _), (refs_userPolled m₁ h).trans hrefs,
      Or.inr ⟨r, rfl, rfl, rfl⟩⟩

/-- What the user has waited for with `spin_poll` is flagged, and its answer is the result. -/
theorem userSpin_ready {m m₁ : Machine} {h : Nat} {num_polled : Int} {r : TransportResult}
    {x : Handle} (hpoll : m.pollWork h num_polled = some (some r, m₁))
    (hok : ¬ (num_polled < 0 ∧ m.asksDriver h)) (hx : m.handles[h]? = some x)
    (hscope : x.scope.isSome) :
    ({ m₁.modify h userPolled with control := .user } : Machine).result h = some r ∧
      ({ m₁.modify h userPolled with control := .user } : Machine).flags.getD h false = true := by
  have hresult := result_pollWork hpoll hok
  constructor
  · have hkeep : (m₁.modify h userPolled).result = m₁.result := result_modify (fun _ => rfl)
    exact (congrFun hkeep h).trans hresult
  · obtain ⟨x₀, ch, w', cq', hx₀, hch, hp, rfl⟩ := pollWork_spec hpoll
    obtain rfl := Option.some.inj (hx.symm.trans hx₀)
    have hlt := (List.getElem?_eq_some_iff.mp hx).1
    simp [flags, modify, userPolled, hscope, List.getElem?_set_self hlt]

theorem postsOn_post (m : Machine) (kind : OpKind) (peer : Nat) (scope errno : Option Nat)
    (c : Nat) :
    (m.post kind peer scope errno).postsOn c = (m.postsOn c).map (· + [peer].count c) := by
  have hset {ch ch' : Channel} (hch : m.channels[peer]? = some ch)
      (hposts : ch'.qp.posts = ch.qp.posts + 1) :
      ((m.channels.set peer ch')[c]?).map (fun ch => ch.qp.posts) =
        (m.postsOn c).map (· + [peer].count c) := by
    have hlt := (List.getElem?_eq_some_iff.mp hch).1
    by_cases hc : peer = c
    · subst hc
      simp [postsOn, List.getElem?_set_self hlt, hch, hposts]
    · simp [postsOn, List.getElem?_set_ne hc, hc, Function.comp_def]
  rcases m.post_spec kind peer scope errno with ⟨hnone, hpost⟩ | ⟨ch, hch, hpost | hpost⟩
  · rw [hpost]
    by_cases hc : peer = c
    · subst hc
      simp [postsOn, hnone]
    · simp [hc]
  · rw [hpost]
    exact hset hch rfl
  · rw [hpost]
    exact hset hch rfl

theorem buffs_post (m : Machine) (kind : OpKind) (peer : Nat) (scope errno : Option Nat) :
    (m.post kind peer scope errno).channels.map Channel.poll_buff =
      m.channels.map Channel.poll_buff := by
  rcases m.post_spec kind peer scope errno with ⟨_, hpost⟩ | ⟨ch, hch, hpost | hpost⟩
  · rw [hpost]
  · rw [hpost]
    exact map_set_eq hch rfl
  · rw [hpost]
    exact map_set_eq hch rfl

theorem post_refused {m : Machine} {kind : OpKind} {peer : Nat} {errno : Option Nat} {e : IbvError}
    (hrefused : m.refusal kind peer errno = some e) (scope : Option Nat) :
    m.channel_post kind peer errno = .error e ∧
      ∃ channels, m.post kind peer scope errno = { m with channels := channels } := by
  unfold refusal at hrefused
  unfold channel_post channel post
  cases hch : m.channels[peer]? with
  | none =>
    rw [hch] at hrefused
    obtain rfl := Option.some.inj hrefused
    exact ⟨rfl, m.channels, rfl⟩
  | some ch =>
    rw [hch] at hrefused
    obtain ⟨errno, rfl, rfl⟩ := Option.map_eq_some_iff.mp hrefused
    simp only [Channel.unpolled_eq]
    exact ⟨rfl, _, rfl⟩

theorem post_accepted {m : Machine} {kind : OpKind} {peer : Nat} {errno : Option Nat}
    (haccepted : m.refusal kind peer errno = none) (scope : Option Nat) :
    ∃ w channels, m.channel_post kind peer errno = .ok w ∧
      m.post kind peer scope errno = { m with
        channels := channels
        handles := m.handles ++ [⟨peer, w, false, scope, 1, 0, scope.isSome, false⟩]
        scopes := pushWork m.scopes scope m.handles.length } := by
  unfold refusal at haccepted
  unfold channel_post channel post
  cases hch : m.channels[peer]? with
  | none =>
    rw [hch] at haccepted
    cases haccepted
  | some ch =>
    rw [hch] at haccepted
    obtain rfl := Option.map_eq_none_iff.mp haccepted
    simp only [Channel.unpolled_eq]
    exact ⟨_, _, rfl, rfl⟩

theorem alike_release (m : Machine) (h : Nat) (a : AutoPoll) : m.Alike (m.release h a) := by
  have hmodify : m.Alike (m.modify h (fun x => { x with scopeRef := false, released := true })) :=
    alike_modify (fun _ => rfl) (fun _ => rfl) (fun _ hflag => hflag)
  exact hmodify.trans (alike_control _ _)

theorem alike_iterate {m m' : Machine} {num_polled : Int}
    (hstep : m.step (.iterate num_polled) = some m') : m.Alike m' := by
  cases step_spec hstep with
  | spinPending _ polled => exact (alike_pollWork polled).1
  | @userSpinReady h _ _ m₁ _ polled =>
    have hmodify : m₁.Alike (m₁.modify h userPolled) :=
      alike_modify (fun _ => rfl) (fun _ => rfl) (fun x hflag => by simp [userPolled, hflag])
    exact ((alike_pollWork polled).1.trans hmodify).trans (alike_control _ _)
  | @userDropReady h _ _ m₁ _ polled =>
    have hmodify : m₁.Alike (m₁.modify h (fun x => { x with released := true })) :=
      alike_modify (fun _ => rfl) (fun _ => rfl) (fun _ hflag => hflag)
    exact ((alike_pollWork polled).1.trans hmodify).trans (alike_control _ _)
  | autoSpinReady _ polled => exact (alike_pollWork polled).1.trans (alike_release _ _ _)
  | autoDropReady _ polled => exact (alike_pollWork polled).1.trans (alike_control _ _)
  | counted _ keeps =>
    apply alike_modify
    · intro x
      rw [keeps x]
    · intro x
      rw [keeps x]
    · intro x hflag
      rwa [keeps x]

/-- A round of `auto_poll` changes nothing but what has been polled; its end closes the scope. -/
theorem alike_next {m m' : Machine} (hstep : m.step .next = some m') {a : AutoPoll}
    (hauto : m.control = .auto a) (hmore : a.rest ≠ []) : m.Alike m' := by
  obtain ⟨a', hauto', ⟨h, rest, x, hrest, hx, ⟨_, rfl⟩ | ⟨_, rfl⟩⟩ | ⟨hrest, _⟩⟩ := next_spec hstep
  · exact alike_release _ _ _
  · exact alike_control _ _
  · obtain rfl : a = a' := by simpa [hauto] using hauto'
    exact absurd hrest hmore

end Machine

/-- The answer the event has in store for `ibv_poll_cq` is an error. -/
def CallEvent.reportsError : CallEvent → Bool
  | .complete _ _ => false
  | .go num_polled => decide (num_polled < 0)

end IbverbsRs
