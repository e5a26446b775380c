import IbverbsRs.Channel.Delivery
import IbverbsRs.Channel.Evolution

namespace IbverbsRs

open Ibverbs Framework

/-- The handles the ending scope still has to wait for. -/
def Control.remaining : Control → Option (List Nat)
  | .auto a | .autoDrop _ a => some a.rest
  | .autoSpin h a => some (h :: a.rest)
  | .user | .userSpin _ | .userDrop _ => none

/-- The open scopes, with the innermost reduced to what it still has to wait for. -/
def PollingScope.watched (control : Control) (scopes : List PollingScope) : List PollingScope :=
  match control.remaining, scopes with
  | some wrs, s :: scopes => { s with wrs := wrs } :: scopes
  | _, scopes => scopes

namespace Machine

def watched (m : Machine) : List PollingScope := PollingScope.watched m.control m.scopes

/-- Whatever a scope waits for before the step it waits for afterwards, or is settled. -/
def Covers (m m' : Machine) : Prop :=
  ∀ s ∈ m.watched, ∀ k ∈ s.wrs, (∃ s' ∈ m'.watched, s'.id = s.id ∧ k ∈ s'.wrs) ∨ m'.settled k

theorem covers_of_eq {m m' : Machine} (h : m'.watched = m.watched) : m.Covers m' := by
  intro s hs k hk
  rw [← h] at hs
  exact Or.inl ⟨s, hs, rfl, hk⟩

/-- Nothing to wait for goes when what is left of the ending scope stays. -/
theorem covers_of_remaining {m m' : Machine}
    (hremaining : m'.control.remaining = m.control.remaining) (hscopes : m'.scopes = m.scopes) :
    m.Covers m' := by
  apply covers_of_eq
  unfold watched PollingScope.watched
  rw [hremaining, hscopes]

theorem covers_of_head {m m' : Machine} (h : Nat) (rest : List Nat)
    (hrest : m.control.remaining = some (h :: rest)) (hrest' : m'.control.remaining = some rest)
    (hscopes : m'.scopes = m.scopes) (hset : m'.settled h) : m.Covers m' := by
  intro s hs k hk
  unfold watched PollingScope.watched at hs ⊢
  rw [hrest', hscopes]
  rw [hrest] at hs
  cases htop : m.scopes with
  | nil => simp [htop] at hs
  | cons top scopes =>
    rw [htop] at hs
    rcases List.mem_cons.mp hs with rfl | hs
    · rcases List.mem_cons.mp hk with rfl | hk
      · exact Or.inr hset
      · exact Or.inl ⟨_, List.mem_cons_self, rfl, hk⟩
    · exact Or.inl ⟨s, List.mem_cons_of_mem _ hs, rfl, hk⟩

theorem release_remaining (m : Machine) (h : Nat) (a : AutoPoll) :
    (m.release h a).control.remaining = some a.rest := by
  unfold release
  dsimp only
  split <;> rfl

theorem note_rest (a : AutoPoll) (r : TransportResult) : (a.note r).rest = a.rest := by
  cases r <;> rfl

/-- A poll touches neither the scopes nor what the thread is doing. -/
theorem pollWork_frame {m m' : Machine} {h : Nat} {num_polled : Int}
    {r : Option TransportResult} (hpoll : m.pollWork h num_polled = some (r, m')) :
    m'.control = m.control ∧ m'.scopes = m.scopes ∧ m'.opened = m.opened ∧
      m'.finished = m.finished := by
  obtain ⟨x, ch, w', cq', hx, hch, hp, rfl⟩ := pollWork_spec hpoll
  exact ⟨rfl, rfl, rfl, rfl⟩

theorem pollWork_polls {m m' : Machine} {h : Nat} {num_polled : Int}
    {r : Option TransportResult} (hpoll : m.pollWork h num_polled = some (r, m')) :
    m'.polls = m.polls ++ [(h, r)] := by
  obtain ⟨x, ch, w', cq', hx, hch, hp, rfl⟩ := pollWork_spec hpoll
  rfl

/-- Nobody takes a request for finished before its completion has been retrieved. -/
def Honest (m : Machine) : Prop :=
  ∀ (h : Nat) (x : Handle), m.handles[h]? = some x →
    x.user_polled_to_completion = true ∨ x.released = true → x.work.status.isSome

theorem settled_iterate {m m' : Machine} {h : Nat} {num_polled : Int} {r : TransportResult}
    (hok : ¬ m.driverFails (.iterate num_polled)) (hspin : m.control.spinning = some h)
    (hpoll : m.pollWork h num_polled = some (some r, m')) : m'.settled h :=
  settled_pollWork hpoll (fun hfail => hok ⟨hfail.1, h, hspin, hfail.2⟩)

theorem Step.tracks {m m' : Machine} {ev : Event} (h : Step m ev m') (hok : ¬ m.driverFails ev)
    (hm : m.Honest) :
    (m.control = .user ∧ ∃ kind c scope errno, m' = m.post kind c scope errno ∧
      ∀ id, scope = some id → ∃ s ∈ m.scopes, s.id = id) ∨ m.Evolves m' ∧ m.Covers m' := by
  cases h with
  | @posted kind c scope errno idle isOpen =>
    exact Or.inl ⟨idle, kind, c, scope, errno, rfl, isOpen⟩
  | completed _ _ => exact Or.inr ⟨.refl m, covers_of_eq rfl⟩
  | pollPending _ polled | spinPending _ polled =>
    obtain ⟨hc, hs, _⟩ := pollWork_frame polled
    exact Or.inr ⟨evolves_pollWork polled, covers_of_remaining (congrArg _ hc) hs⟩
  | @pollReady k _ _ m₁ _ polled =>
    obtain ⟨hc, hs, _⟩ := pollWork_frame polled
    have hset := settled_pollWork polled hok
    have hev := (evolves_pollWork polled).trans (evolves_userPolled hset)
    exact Or.inr ⟨hev, covers_of_remaining (congrArg Control.remaining hc) hs⟩
  | @userSpinReady k num_polled _ m₁ spinning polled =>
    obtain ⟨_, hs, _⟩ := pollWork_frame polled
    have hset := settled_iterate hok (by rw [spinning]; rfl) polled
    have hev := (evolves_pollWork polled).trans (evolves_userPolled hset)
    refine Or.inr ⟨hev, covers_of_remaining ?_ hs⟩
    rw [spinning]
    rfl
  | @userDropReady k num_polled _ m₁ spinning polled =>
    obtain ⟨_, hs, _⟩ := pollWork_frame polled
    have hset := settled_iterate hok (by rw [spinning]; rfl) polled
    have hev := (evolves_pollWork polled).trans (evolves_released hset)
    refine Or.inr ⟨hev, covers_of_remaining ?_ hs⟩
    rw [spinning]
    rfl
  | @autoSpinReady k a num_polled r m₁ spinning polled =>
    obtain ⟨_, hs, _⟩ := pollWork_frame polled
    have hset := settled_iterate hok (by rw [spinning]; rfl) polled
    have hrelease := evolves_release hset (a.note r)
    refine Or.inr ⟨(evolves_pollWork polled).trans hrelease, ?_⟩
    apply covers_of_head k a.rest
    · rw [spinning]
      rfl
    · rw [release_remaining, note_rest]
    · exact hs
    · exact hrelease.settled hset
  | @autoDropReady k a num_polled _ m₁ spinning polled =>
    obtain ⟨_, hs, _⟩ := pollWork_frame polled
    have hev : m.Evolves m₁ := evolves_pollWork polled
    refine Or.inr ⟨hev, covers_of_remaining ?_ hs⟩
    rw [spinning]
    rfl
  | spun idle =>
    refine Or.inr ⟨.refl m, covers_of_remaining ?_ rfl⟩
    rw [idle]
    rfl
  | opened idle =>
    refine Or.inr ⟨.refl m, ?_⟩
    intro s hs k hk
    rw [watched, idle] at hs
    exact Or.inl ⟨s, by rw [watched, idle]; exact List.mem_cons_of_mem _ hs, rfl, hk⟩
  | counted _ keeps =>
    refine Or.inr ⟨evolves_modify (fun x _ => ?_), covers_of_eq rfl⟩
    rw [keeps x]
    exact .counted x _ _
  | @dropped k _ idle _ _ =>
    have hev : m.Evolves (m.modify k (fun x => { x with held := x.held - 1 })) :=
      evolves_modify (fun x _ => .counted x _ _)
    refine Or.inr ⟨hev, covers_of_remaining ?_ rfl⟩
    rw [idle]
    rfl
  | @closed closure s scopes idle top =>
    refine Or.inr ⟨.refl m, covers_of_eq ?_⟩
    rw [watched, watched, idle, top]
    rfl
  | @skipped k rest a x ending more found done =>
    have hset : m.settled k := by
      intro y hy
      obtain rfl := Option.some.inj (found.symm.trans hy)
      exact hm k x found (Or.inl done)
    have hrelease := evolves_release hset { a with rest := rest }
    refine Or.inr ⟨hrelease, ?_⟩
    apply covers_of_head k rest
    · rw [ending, ← more]
      rfl
    · rw [release_remaining]
    · rfl
    · exact hrelease.settled hset
  | waiting ending more =>
    refine Or.inr ⟨.refl m, covers_of_remaining ?_ rfl⟩
    rw [ending]
    simp only [Control.remaining, more]
  | returned ending done top =>
    refine Or.inr ⟨.refl m, ?_⟩
    intro s hs k hk
    rw [watched, ending, top] at hs
    rcases List.mem_cons.mp hs with rfl | hs
    · rw [done] at hk
      cases hk
    · exact Or.inl ⟨s, hs, rfl, hk⟩

theorem watched_user {m : Machine} (h : m.control = .user) : m.watched = m.scopes := by
  rw [watched, h]
  rfl

theorem pushWork_id (scopes : List PollingScope) (scope : Option Nat) (h : Nat) :
    (pushWork scopes scope h).map PollingScope.id = scopes.map PollingScope.id := by
  simp only [pushWork, List.map_map]
  apply List.map_congr_left
  intro s _
  simp only [Function.comp_apply]
  split <;> rfl

theorem pushWork_keeps {scopes : List PollingScope} {s : PollingScope} (hs : s ∈ scopes)
    (scope : Option Nat) (h : Nat) {k : Nat} (hk : k ∈ s.wrs) :
    ∃ s' ∈ pushWork scopes scope h, s'.id = s.id ∧ k ∈ s'.wrs := by
  refine ⟨_, List.mem_map_of_mem hs, ?_⟩
  split
  · exact ⟨rfl, List.mem_append_left _ hk⟩
  · exact ⟨rfl, hk⟩

theorem pushWork_adds {scopes : List PollingScope} {s : PollingScope} (hs : s ∈ scopes) (h : Nat) :
    ∃ s' ∈ pushWork scopes (some s.id) h, s'.id = s.id ∧ h ∈ s'.wrs := by
  refine ⟨_, List.mem_map_of_mem hs, ?_⟩
  rw [if_pos rfl]
  exact ⟨rfl, List.mem_append_right _ List.mem_cons_self⟩

theorem honest_step {m m' : Machine} {ev : Event} (h : Step m ev m') (hok : ¬ m.driverFails ev)
    (hm : m.Honest) : m'.Honest := by
  rcases h.tracks hok hm with ⟨_, kind, c, scope, errno, rfl, _⟩ | ⟨hev, _⟩
  · rcases m.post_spec kind c scope errno with ⟨_, hpost⟩ | ⟨ch, hch, hpost | hpost⟩
    · rw [hpost]
      exact hm
    · rw [hpost]
      exact hm
    · rw [hpost]
      intro k x hx hfin
      rcases getElem?_snoc_cases hx with hold | ⟨_, rfl⟩
      · exact hm k x hold hfin
      · simp at hfin
  · intro k x' hx' hfin
    obtain ⟨x, hx, hxx'⟩ := hev k x' hx'
    rcases hxx'.finished hfin with hflag | hreleased | hsome
    · exact hxx'.isSome (hm k x hx (Or.inl hflag))
    · exact hxx'.isSome (hm k x hx (Or.inr hreleased))
    · exact hsome

/-- Every request of a scope is settled, or the scope is open and still waits for it. -/
def Waited (m : Machine) : Prop :=
  ∀ (h : Nat) (x : Handle) (id : Nat), m.handles[h]? = some x → x.scope = some id →
    x.work.status.isSome ∨ ∃ s ∈ m.watched, s.id = id ∧ h ∈ s.wrs

theorem waited_step {m m' : Machine} {ev : Event} (h : Step m ev m') (hok : ¬ m.driverFails ev)
    (hm : m.Honest) (hw : m.Waited) : m'.Waited := by
  rcases h.tracks hok hm with ⟨idle, kind, c, scope, errno, rfl, isOpen⟩ | ⟨hev, hcov⟩
  · rcases m.post_spec kind c scope errno with ⟨_, hpost⟩ | ⟨ch, hch, hpost | hpost⟩
    · rw [hpost]
      exact hw
    · rw [hpost]
      exact hw
    · rw [hpost]
      intro k x id hx hscope
      change _ ∨ ∃ s ∈ PollingScope.watched m.control (pushWork m.scopes scope m.handles.length), _
      rw [idle]
      rcases getElem?_snoc_cases hx with hold | ⟨rfl, rfl⟩
      · rcases hw k x id hold hscope with hsome | ⟨s, hs, rfl, hk⟩
        · exact Or.inl hsome
        · rw [watched_user idle] at hs
          exact Or.inr (pushWork_keeps hs scope _ hk)
      · obtain ⟨s, hs, rfl⟩ := isOpen id hscope
        obtain rfl : scope = some s.id := hscope
        exact Or.inr (pushWork_adds hs _)
  · intro k x' id hx' hscope
    obtain ⟨x, hx, hxx'⟩ := hev k x' hx'
    rcases hw k x id hx (hxx'.scope.symm.trans hscope) with hsome | ⟨s, hs, rfl, hk⟩
    · exact Or.inl (hxx'.isSome hsome)
    · rcases hcov s hs k hk with hstill | hset
      · exact Or.inr hstill
      · exact Or.inl (hset x' hx')

/-- The ids of all scopes that are open or have returned. -/
def ids (m : Machine) : List Nat :=
  m.scopes.map PollingScope.id ++ m.finished.map (fun f => f.1.id)

structure Named (m : Machine) : Prop where
  nodup : m.ids.Nodup
  opened : ∀ id ∈ m.ids, id < m.opened

theorem ids_of_eq {m m' : Machine} (hscopes : m'.scopes = m.scopes)
    (hfinished : m'.finished = m.finished) : m'.ids = m.ids := by
  rw [ids, ids, hscopes, hfinished]

theorem Step.ids_cases {m m' : Machine} {ev : Event} (h : Step m ev m') :
    (m'.ids.Perm m.ids ∧ m'.opened = m.opened) ∨
      (m'.ids = m.opened :: m.ids ∧ m'.opened = m.opened + 1) := by
  have hpoll {k : Nat} {num_polled : Int} {r : Option TransportResult} {m₁ : Machine}
      (polled : m.pollWork k num_polled = some (r, m₁)) :
      m₁.ids.Perm m.ids ∧ m₁.opened = m.opened := by
    obtain ⟨_, hs, ho, hf⟩ := pollWork_frame polled
    rw [ids_of_eq hs hf]
    exact ⟨List.Perm.refl _, ho⟩
  cases h with
  | completed _ _ | spun _ | counted _ _ | dropped _ _ _ | closed _ _ | skipped _ _ _ _
  | waiting _ _ => exact Or.inl ⟨List.Perm.refl _, rfl⟩
  | pollPending _ polled =>
    have hids := hpoll polled
    exact Or.inl hids
  | spinPending _ polled =>
    have hids := hpoll polled
    exact Or.inl hids
  | pollReady _ polled =>
    have hids := hpoll polled
    exact Or.inl hids
  | userSpinReady _ polled =>
    have hids := hpoll polled
    exact Or.inl hids
  | userDropReady _ polled =>
    have hids := hpoll polled
    exact Or.inl hids
  | autoSpinReady _ polled =>
    have hids := hpoll polled
    exact Or.inl hids
  | autoDropReady _ polled =>
    have hids := hpoll polled
    exact Or.inl hids
  | opened _ => exact Or.inr ⟨rfl, rfl⟩
  | @posted kind c scope errno _ _ =>
    left
    rcases m.post_spec kind c scope errno with ⟨_, hpost⟩ | ⟨ch, hch, hpost | hpost⟩
    · rw [hpost]
      exact ⟨List.Perm.refl _, rfl⟩
    · rw [hpost]
      exact ⟨List.Perm.refl _, rfl⟩
    · rw [hpost]
      refine ⟨?_, rfl⟩
      simp only [ids, pushWork_id]
      exact List.Perm.refl _
  | returned _ _ top =>
    left
    refine ⟨?_, rfl⟩
    simp only [ids, top, List.map_append, List.map_cons, List.map_nil]
    rw [← List.append_assoc]
    exact (List.perm_append_singleton _ _)

theorem named_step {m m' : Machine} {ev : Event} (h : Step m ev m') (hn : m.Named) :
    m'.Named := by
  rcases h.ids_cases with ⟨hperm, hopened⟩ | ⟨hids, hopened⟩
  · refine ⟨hperm.nodup_iff.mpr hn.nodup, ?_⟩
    intro id hid
    rw [hopened]
    exact hn.opened id (hperm.mem_iff.mp hid)
  · have hfresh : m.opened ∉ m.ids := fun hmem => Nat.lt_irrefl _ (hn.opened _ hmem)
    constructor
    · rw [hids]
      exact List.nodup_cons.mpr ⟨hfresh, hn.nodup⟩
    · intro id hid
      rw [hids] at hid
      rw [hopened]
      rcases List.mem_cons.mp hid with rfl | hid
      · exact Nat.lt_succ_self _
      · exact Nat.lt_succ_of_lt (hn.opened id hid)

/-- Every poll has answered with a result the handle kept, and later polls agree. -/
structure Steady (m : Machine) : Prop where
  clean : ∀ h r, (h, some r) ∈ m.polls → ∃ res, r = intoTransport res
  stable : m.polls.Pairwise (fun p q => p.1 = q.1 → p.2.isSome → q.2 = p.2)

theorem Step.polls_cases {m m' : Machine} {ev : Event} (h : Step m ev m')
    (hok : ¬ m.driverFails ev) : m'.polls = m.polls ∨ ∃ k num_polled r m₁,
      m.pollWork k num_polled = some (r, m₁) ∧ ¬ (num_polled < 0 ∧ m.asksDriver k) ∧
        m'.polls = m.polls ++ [(k, r)] := by
  have hspin {k : Nat} {num_polled : Int} (hev : ev = .iterate num_polled)
      (spinning : m.control.spinning = some k) : ¬ (num_polled < 0 ∧ m.asksDriver k) := by
    subst hev
    intro hfail
    exact hok ⟨hfail.1, k, spinning, hfail.2⟩
  cases h with
  | completed _ _ | spun _ | counted _ _ | dropped _ _ _ | closed _ _ | skipped _ _ _ _
  | waiting _ _ | opened _ | returned _ _ _ => exact Or.inl rfl
  | @posted kind c scope errno _ _ =>
    left
    rcases m.post_spec kind c scope errno with ⟨_, hpost⟩ | ⟨ch, hch, hpost | hpost⟩ <;> rw [hpost]
  | pollPending _ polled => exact Or.inr ⟨_, _, _, _, polled, hok, pollWork_polls polled⟩
  | pollReady _ polled =>
    have hpolls := pollWork_polls polled
    exact Or.inr ⟨_, _, _, _, polled, hok, hpolls⟩
  | spinPending spinning polled =>
    exact Or.inr ⟨_, _, _, _, polled, hspin rfl spinning, pollWork_polls polled⟩
  | userSpinReady spinning polled =>
    have hpolls := pollWork_polls polled
    exact Or.inr ⟨_, _, _, _, polled, hspin rfl (by rw [spinning]; rfl), hpolls⟩
  | userDropReady spinning polled =>
    have hpolls := pollWork_polls polled
    exact Or.inr ⟨_, _, _, _, polled, hspin rfl (by rw [spinning]; rfl), hpolls⟩
  | autoSpinReady spinning polled =>
    have hpolls := pollWork_polls polled
    exact Or.inr ⟨_, _, _, _, polled, hspin rfl (by rw [spinning]; rfl), hpolls⟩
  | autoDropReady spinning polled =>
    have hpolls := pollWork_polls polled
    exact Or.inr ⟨_, _, _, _, polled, hspin rfl (by rw [spinning]; rfl), hpolls⟩

theorem steady_step {m m' : Machine} {ev : Event} (h : Step m ev m') (hok : ¬ m.driverFails ev)
    (hr : m.ledger.Reported) (hs : m.Steady) : m'.Steady := by
  rcases h.polls_cases hok with hpolls | ⟨k, num_polled, r, m₁, hpoll, hasked, hpolls⟩
  · constructor
    · rw [hpolls]
      exact hs.clean
    · rw [hpolls]
      exact hs.stable
  · obtain ⟨x, ch, w', cq', hx, hch, hp, _⟩ := pollWork_spec hpoll
    constructor
    · intro k' r' hmem
      rw [hpolls] at hmem
      rcases List.mem_append.mp hmem with hold | hnew
      · exact hs.clean k' r' hold
      · obtain ⟨rfl, rfl⟩ := Prod.mk.inj (List.mem_singleton.mp hnew)
        cases hp with
        | known _ => exact ⟨_, rfl⟩
        | found _ _ _ => exact ⟨_, rfl⟩
        | failed status uncached negative =>
          exact absurd ⟨negative, x, ch, hx, hch, status, uncached⟩ hasked
    · rw [hpolls, List.pairwise_append]
      refine ⟨hs.stable, List.pairwise_singleton _ _, ?_⟩
      intro p hmem q hq hkey hsome
      obtain rfl := List.mem_singleton.mp hq
      obtain ⟨k', r'⟩ := p
      obtain ⟨rp, rfl⟩ := Option.isSome_iff_exists.mp hsome
      obtain rfl : k' = k := hkey
      -- an earlier answer leaves a status, and this poll reads it
      obtain ⟨res, rfl⟩ := hs.clean k' rp hmem
      rcases hr k' _ hmem with ⟨e, he⟩ | ⟨c, w, res', hw, hstatus, heq⟩
      · cases res <;> simp [intoTransport] at he
      · rw [← ledger_work hw hx] at hstatus
        rw [heq]
        exact hp.stable hstatus

/-- What holds in every run in which no call of `ibv_poll_cq` fails. -/
structure Tracked (m : Machine) : Prop where
  honest : m.Honest
  waited : m.Waited
  named : m.Named
  steady : m.Steady
  reported : m.ledger.Reported

theorem Tracked.step {m m' : Machine} {ev : Event} (hm : m.Tracked) (hok : ¬ m.driverFails ev)
    (hstep : m.step ev = some m') : m'.Tracked := by
  have hspec := step_spec hstep
  exact ⟨honest_step hspec hok hm.honest, waited_step hspec hok hm.honest hm.waited,
    named_step hspec hm.named, steady_step hspec hok hm.reported hm.steady,
    (step_ledger hstep).reported hm.reported⟩

theorem tracked {channels : List Channel} {es : List Event} {m : Machine}
    (hok : (system channels).Along (fun m ev => ¬ m.driverFails ev) (new channels) es)
    (hrun : (system channels).run es = some m) : m.Tracked := by
  refine (system channels).invariant_along (I := Tracked) ?_ ?_ hok hrun
  · intro m ev m' hok hm hstep
    exact hm.step hok hstep
  · refine ⟨?_, ?_, ⟨List.nodup_nil, ?_⟩, ⟨?_, List.Pairwise.nil⟩, ?_⟩
    · intro h x hx
      simp [new] at hx
    · intro h x id hx
      simp [new] at hx
    · intro id hid
      simp [ids, new] at hid
    · intro h r hmem
      simp [new] at hmem
    · intro h r hmem
      simp [ledger, new] at hmem

end Machine

end IbverbsRs
