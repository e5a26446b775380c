import IbverbsRs.Channel.Closing

namespace IbverbsRs

open Ibverbs Framework

theorem CachedCompletionQueue.update_one {self : CachedCompletionQueue} {completions : Nat}
    (hroom : 0 < completions) {wc : WorkCompletion} {rest : List WorkCompletion}
    (hentries : self.cq.entries = wc :: rest) :
    self.update completions 1 = some (.ok 1, ⟨⟨rest⟩, insert self.cache wc⟩) := by
  have hthere : 1 ≤ self.cq.entries.length := by
    rw [hentries]
    exact Nat.succ_pos rest.length
  have hone : self.update completions 1 = some (.ok 1,
      ⟨⟨self.cq.entries.drop 1⟩, (self.cq.entries.take 1).foldl insert self.cache⟩) :=
    update_ok hroom (by decide) hthere
  rwa [hentries] at hone

/-- One poll of a request whose completion is there answers, or brings it closer. -/
theorem PendingWork.poll_one {self : PendingWork} {cq : CachedCompletionQueue} {poll_buff : Nat}
    (hroom : 0 < poll_buff) (hhere : self.status.isSome ∨ (cq.cache self.wr_id).isSome ∨
      self.wr_id ∈ cq.cq.entries.map WorkCompletion.wr_id) :
    (∃ r self' cq', self.poll cq poll_buff 1 = some (some r, self', cq')) ∨
      ∃ cq', self.poll cq poll_buff 1 = some (none, self, cq') ∧
        cq'.cq.entries.length < cq.cq.entries.length ∧
        self.wr_id ∈ cq'.cq.entries.map WorkCompletion.wr_id := by
  unfold poll
  cases hstatus : self.status with
  | some res => exact Or.inl ⟨_, _, _, rfl⟩
  | none =>
    cases hcache : cq.cache self.wr_id with
    | some wc =>
      left
      simp [CachedCompletionQueue.consume, hcache]
    | none =>
      have hmem : self.wr_id ∈ cq.cq.entries.map WorkCompletion.wr_id := by
        simpa [hstatus, hcache] using hhere
      cases hentries : cq.cq.entries with
      | nil => simp [hentries] at hmem
      | cons wc rest =>
        simp only [CachedCompletionQueue.consume, hcache,
          CachedCompletionQueue.update_one hroom hentries, CachedCompletionQueue.insert]
        by_cases hid : self.wr_id = wc.wr_id
        · left
          simp [hid]
        · right
          rw [hentries, List.map_cons, List.mem_cons] at hmem
          refine ⟨⟨⟨rest⟩, Function.update cq.cache wc.wr_id (some wc)⟩, ?_, ?_, ?_⟩
          · simp [Function.update_of_ne hid, hcache]
          · exact Nat.lt_succ_self _
          · exact hmem.resolve_left hid

/-- How far `auto_poll` is from its end. -/
def Control.weight : Control → Nat
  | .auto a => 3 * a.rest.length
  | .autoSpin _ a => 3 * a.rest.length + 2
  | .autoDrop _ a => 3 * a.rest.length + 1
  | .user | .userSpin _ | .userDrop _ => 0

/-- The thread goes on, and the device finishes its requests with `results`. -/
def Event.proceeds (results : Nat → UInt64 → WorkResult) : Event → Prop
  | .complete c wc => wc.result = results c wc.wr_id
  | .iterate num_polled => num_polled = 1
  | .next => True
  | _ => False

theorem Event.proceeds_good {results : Nat → UInt64 → WorkResult} {ev : Event}
    (h : ev.proceeds results) : ev.reportsError = false := by
  cases ev with
  | iterate n =>
    obtain rfl : n = 1 := h
    rfl
  | complete _ _ | next => rfl
  | post _ _ _ _ | poll _ _ | spin _ | clone _ | drop _ | forget _ | openScope _ | closeScope _ =>
    exact h.elim

namespace Machine

/-- No channel has run out of ids, and each of them can poll a completion. -/
def Roomy (m : Machine) : Prop := ∀ ch ∈ m.channels, ch.qp.posts < 2 ^ 64 ∧ 0 < ch.poll_buff

theorem roomy_set {m : Machine} {c : Nat} {ch ch' : Channel} (hm : m.Roomy)
    (hch : m.channels[c]? = some ch) (hposts : ch'.qp.posts = ch.qp.posts)
    (hbuff : ch'.poll_buff = ch.poll_buff) :
    ∀ y ∈ m.channels.set c ch', y.qp.posts < 2 ^ 64 ∧ 0 < y.poll_buff := by
  intro y hy
  rcases List.mem_or_eq_of_mem_set hy with hold | rfl
  · exact hm y hold
  · rw [hposts, hbuff]
    exact hm ch (List.mem_of_getElem? hch)

theorem roomy_pollWork {m m' : Machine} {h : Nat} {num_polled : Int} {r : Option TransportResult}
    (hm : m.Roomy) (hpoll : m.pollWork h num_polled = some (r, m')) : m'.Roomy := by
  obtain ⟨x, ch, w', cq', hx, hch, hp, rfl⟩ := pollWork_spec hpoll
  exact roomy_set hm hch rfl rfl

theorem roomy_step {m m' : Machine} {ev : Event} {results : Nat → UInt64 → WorkResult}
    (hm : m.Roomy) (hev : ev.proceeds results) (h : m.step ev = some m') : m'.Roomy := by
  cases step_spec h with
  | @completed c ch ch' wc found completed =>
    unfold Channel.complete at completed
    split_ifs at completed
    obtain rfl := Option.some.inj completed
    exact roomy_set hm found rfl rfl
  | spinPending _ polled => exact roomy_pollWork hm polled
  | userSpinReady _ polled | userDropReady _ polled | autoSpinReady _ polled
  | autoDropReady _ polled =>
    have hroomy := roomy_pollWork hm polled
    exact hroomy
  | skipped _ _ _ _ | waiting _ _ | returned _ _ _ | counted _ _ => exact hm
  | posted _ _ | pollPending _ _ | pollReady _ _ | spun _ | dropped _ _ _ | opened _ | closed _ _ =>
    exact hev.elim

/-- The completion of the request is in its queue, in the cache or in its status. -/
def arrived (m : Machine) (h : Nat) : Prop := ∃ x ch, m.handles[h]? = some x ∧
  m.channels[x.channel]? = some ch ∧ 0 < ch.poll_buff ∧ (x.work.status.isSome ∨
    (ch.cq.cache x.work.wr_id).isSome ∨
      x.work.wr_id ∈ ch.cq.cq.entries.map WorkCompletion.wr_id)

theorem iterate_pending {m m' : Machine} {h : Nat} {num_polled : Int}
    (hspin : m.control.spinning = some h) (hpoll : m.pollWork h num_polled = some (none, m')) :
    m.step (.iterate num_polled) = some m' := by
  cases hc : m.control with
  | user | auto _ =>
    rw [hc] at hspin
    cases hspin
  | userSpin k | userDrop k | autoSpin k a | autoDrop k a =>
    rw [hc] at hspin
    obtain rfl := Option.some.inj hspin
    simp only [step, iterate, hc, hpoll]
    rfl

/-- A spin loop ends once the completion is there: every round that does not answer takes
another completion out of the queue. -/
theorem spin_answered (channels : List Channel) (results : Nat → UInt64 → WorkResult) {m : Machine}
    {h : Nat} (hspin : m.control.spinning = some h) (hhere : m.arrived h) :
    ∃ es m₁ r m₂, (∀ ev ∈ es, ev.proceeds results) ∧
      (system channels).runFrom m es = some m₁ ∧ m₁.control = m.control ∧
      m₁.scopes = m.scopes ∧ m₁.pollWork h 1 = some (some r, m₂) := by
  obtain ⟨x, ch, hx, hch, hbuff, hhere⟩ := hhere
  induction hn : ch.cq.cq.entries.length using Nat.strongRecOn generalizing m ch with
  | ind n ih =>
    rcases x.work.poll_one hbuff hhere with ⟨r, w', cq', hpoll⟩ | ⟨cq', hpoll, hless, hmem⟩
    · obtain ⟨m₂, hanswer⟩ : ∃ m₂, m.pollWork h 1 = some (some r, m₂) := by
        simp only [pollWork, hx, hch, hpoll]
        exact ⟨_, rfl⟩
      exact ⟨[], m, r, m₂, by simp, rfl, rfl, rfl, hanswer⟩
    · have hlt := (List.getElem?_eq_some_iff.mp hx).1
      have hclt := (List.getElem?_eq_some_iff.mp hch).1
      let m' : Machine := { m with
        channels := m.channels.set x.channel { ch with cq := cq' }
        handles := m.handles.set h x
        polls := m.polls ++ [(h, none)] }
      have hround : m.pollWork h 1 = some (none, m') := by
        simp only [pollWork, hx, hch, hpoll]
        rfl
      obtain ⟨es, m₁, r, m₂, hes, hrun, hcontrol, hscopes, hanswer⟩ :=
        ih cq'.cq.entries.length (hn ▸ hless) (show m'.control.spinning = some h from hspin)
          { ch with cq := cq' } (List.getElem?_set_self hlt) (List.getElem?_set_self hclt) hbuff
          (Or.inr (Or.inr hmem)) rfl
      refine ⟨.iterate 1 :: es, m₁, r, m₂, ?_, ?_, hcontrol, hscopes, hanswer⟩
      · intro ev hev
        rcases List.mem_cons.mp hev with rfl | hev
        · exact rfl
        · exact hes ev hev
      · have hstep : (system channels).step m (.iterate 1) = some m' := iterate_pending hspin hround
        rw [TransitionSystem.runFrom_cons, hstep]
        exact hrun

theorem run_append {channels : List Channel} {es fs : List Event} {m m' : Machine}
    (hrun : (system channels).run es = some m) (hrest : (system channels).runFrom m fs = some m') :
    (system channels).run (es ++ fs) = some m' := by
  rw [TransitionSystem.run, TransitionSystem.runFrom_append]
  exact Option.bind_eq_some_iff.mpr ⟨m, hrun, hrest⟩

/-- Whatever result the device has for a request, it can report it. -/
theorem can_arrive {channels : List Channel} {es : List Event} {m : Machine}
    (results : Nat → UInt64 → WorkResult) (hnew : ∀ ch ∈ channels, ∃ n, ch = Channel.new n)
    (hrun : (system channels).run es = some m) (hroom : m.Roomy) {h : Nat} {x : Handle}
    (hx : m.handles[h]? = some x) :
    ∃ fs m₁, (∀ ev ∈ fs, ev.proceeds results) ∧ (system channels).runFrom m fs = some m₁ ∧
      m₁.control = m.control ∧ m₁.scopes = m.scopes ∧ m₁.handles = m.handles ∧ m₁.arrived h := by
  obtain ⟨ch, hch⟩ := channel_exists hrun (List.mem_of_getElem? hx)
  obtain ⟨hposts, hbuff⟩ := hroom ch (List.mem_of_getElem? hch)
  have hb := balanced hnew hrun hch hposts
  have hmem : x.work ∈ (m.account x.channel ch).works :=
    mem_account.mpr ⟨x, List.mem_of_getElem? hx, rfl, rfl⟩
  have howner : 0 < (m.account x.channel ch).owners x.work.wr_id :=
    List.count_pos_iff.mpr (List.mem_map_of_mem hmem)
  have hplaces := hb.places x.work.wr_id
  have hclt := (List.getElem?_eq_some_iff.mp hch).1
  by_cases hout : x.work.wr_id ∈ ch.qp.outstanding
  · let wc : WorkCompletion := ⟨x.work.wr_id, results x.channel x.work.wr_id⟩
    let ch' : Channel := { ch with
      qp := { ch.qp with
        outstanding := ch.qp.outstanding.erase wc.wr_id
        produced := ch.qp.produced ++ [wc] }
      cq := { ch.cq with cq := ⟨ch.cq.cq.entries ++ [wc]⟩ } }
    let m₁ : Machine := { m with channels := m.channels.set x.channel ch' }
    have hstep : (system channels).step m (.complete x.channel wc) = some m₁ := by
      change m.step (.complete x.channel wc) = _
      have hcomplete : ch.complete wc = some ch' := if_pos hout
      simp only [step, hch, hcomplete]
      rfl
    refine ⟨[.complete x.channel wc], m₁, ?_, ?_, rfl, rfl, rfl, ?_⟩
    · intro ev hev
      obtain rfl := List.mem_singleton.mp hev
      rfl
    · rw [TransitionSystem.runFrom_cons, hstep]
      rfl
    · refine ⟨x, ch', hx, List.getElem?_set_self hclt, hbuff, Or.inr (Or.inr ?_)⟩
      simp [ch', wc]
  · refine ⟨[], m, by simp, rfl, rfl, rfl, rfl, x, ch, hx, hch, hbuff, ?_⟩
    by_contra hnone
    simp only [not_or] at hnone
    obtain ⟨hstatus, hcache, hqueue⟩ := hnone
    -- then its completion went to another request of the same id
    have hout₀ : ch.qp.outstanding.count x.work.wr_id = 0 := List.count_eq_zero.mpr hout
    have hqueue₀ : ch.cq.queued x.work.wr_id = 0 := List.count_eq_zero.mpr hqueue
    have hcache₀ : ch.cq.cached x.work.wr_id = 0 := if_neg hcache
    change ch.qp.outstanding.count _ + ch.cq.queued _ + ch.cq.cached _ + _ = _ at hplaces
    rw [hout₀, hqueue₀, hcache₀, Nat.zero_add] at hplaces
    rw [← hplaces] at howner
    obtain ⟨w, hw, hid⟩ := List.mem_map.mp (List.count_pos_iff.mp howner)
    obtain ⟨hw, hsome⟩ := List.mem_filter.mp hw
    obtain ⟨y, hy, hchannel, rfl⟩ := mem_account.mp hw
    obtain ⟨k, hk⟩ := List.mem_iff_getElem?.mp hy
    obtain rfl := index_eq hb hk hx hchannel rfl hid
    obtain rfl := Option.some.inj (hk.symm.trans hx)
    exact hstatus hsome

/-- A spin loop on a posted request ends, whatever result the device has for it. -/
theorem spin_ends {channels : List Channel} {es : List Event} {m : Machine}
    (results : Nat → UInt64 → WorkResult) (hnew : ∀ ch ∈ channels, ∃ n, ch = Channel.new n)
    (hrun : (system channels).run es = some m) (hroom : m.Roomy) {h : Nat} {x : Handle}
    (hx : m.handles[h]? = some x) (hspin : m.control.spinning = some h) :
    ∃ fs m₁ r m₂, (∀ ev ∈ fs, ev.proceeds results) ∧ (system channels).runFrom m fs = some m₁ ∧
      m₁.control = m.control ∧ m₁.scopes = m.scopes ∧ m₁.pollWork h 1 = some (some r, m₂) := by
  obtain ⟨fs, m₁, hfs, hreach, hcontrol, hscopes, _, harrived⟩ :=
    can_arrive results hnew hrun hroom hx
  obtain ⟨gs, m₂, r, m₃, hgs, hspun, hcontrol₂, hscopes₂, hanswer⟩ :=
    spin_answered channels results (hcontrol ▸ hspin) harrived
  obtain ⟨hall, hrun₂⟩ := (system channels).runFrom_trans hfs hreach hgs hspun
  exact ⟨fs ++ gs, m₂, r, m₃, hall, hrun₂, hcontrol₂.trans hcontrol, hscopes₂.trans hscopes, hanswer⟩

theorem roomy_run {channels : List Channel} {results : Nat → UInt64 → WorkResult}
    {m m' : Machine} {es : List Event} (hroom : m.Roomy) (hes : ∀ ev ∈ es, ev.proceeds results)
    (hrun : (system channels).runFrom m es = some m') : m'.Roomy :=
  (system channels).invariant_from (fun _ _ _ hev hm hstep => roomy_step hm hev hstep) hroom hes hrun

theorem release_weight (m : Machine) (h : Nat) (a : AutoPoll) :
    (m.release h a).control.weight ≤ 3 * a.rest.length + 1 := by
  unfold release
  dsimp only
  split
  · exact Nat.le_succ _
  · exact Nat.le_refl _

/-- The request `auto_poll` is at has been posted. -/
theorem handle_of_remaining {m : Machine} (hm : m.registry.Kept) {h : Nat} {rest : List Nat}
    (hending : m.control.remaining = some (h :: rest)) : ∃ x, m.handles[h]? = some x := by
  obtain ⟨s, scopes, htop, hsuffix⟩ := hm.ending _ hending
  have hmem : s ∈ m.registry.scopes := by
    rw [htop]
    exact List.mem_cons_self
  have hlt := hm.lt_length hmem (hsuffix.subset List.mem_cons_self)
  rw [registry, List.length_map] at hlt
  exact ⟨_, List.getElem?_eq_getElem hlt⟩

theorem handle_of_dropping {m : Machine} (hm : m.registry.Kept) {h : Nat}
    (hdropping : m.control.dropping = some h) : ∃ x, m.handles[h]? = some x := by
  obtain ⟨y, hy, _⟩ := hm.dropping h hdropping
  obtain ⟨x, hx, _⟩ := Option.map_eq_some_iff.mp ((List.getElem?_map ..).symm.trans hy)
  exact ⟨x, hx⟩

/-- `auto_poll` always gets closer to its end. -/
theorem autoPoll_advances {channels : List Channel} {es : List Event} {m : Machine}
    (results : Nat → UInt64 → WorkResult) (hnew : ∀ ch ∈ channels, ∃ n, ch = Channel.new n)
    (hrun : (system channels).run es = some m) (hroom : m.Roomy)
    (hbusy : m.control.autoPoll.isSome) (hmore : m.control.weight ≠ 0) :
    ∃ fs m', (∀ ev ∈ fs, ev.proceeds results) ∧ (system channels).runFrom m fs = some m' ∧
      m'.control.autoPoll.isSome ∧ m'.scopes = m.scopes ∧ m'.control.weight < m.control.weight := by
  have hm := kept hrun
  have now {m' : Machine} (hstep : m.next = some m') : (∀ ev ∈ [Event.next], ev.proceeds results) ∧
      (system channels).runFrom m [.next] = some m' := by
    refine ⟨?_, (system channels).runFrom_singleton hstep⟩
    intro ev hev
    obtain rfl := List.mem_singleton.mp hev
    trivial
  have later {m₁ m' : Machine} {fs : List Event} (hfs : ∀ ev ∈ fs, ev.proceeds results)
      (hreach : (system channels).runFrom m fs = some m₁) (hstep : m₁.iterate 1 = some m') :
      (∀ ev ∈ fs ++ [.iterate 1], ev.proceeds results) ∧
        (system channels).runFrom m (fs ++ [.iterate 1]) = some m' := by
    constructor
    · intro ev hev
      rcases List.mem_append.mp hev with hev | hev
      · exact hfs ev hev
      · obtain rfl := List.mem_singleton.mp hev
        rfl
    · rw [TransitionSystem.runFrom_append, hreach]
      exact (system channels).runFrom_singleton hstep
  cases hcontrol : m.control with
  | user | userSpin _ | userDrop _ =>
    rw [hcontrol] at hbusy
    cases hbusy
  | auto a =>
    cases hrest : a.rest with
    | nil =>
      rw [hcontrol, Control.weight, hrest] at hmore
      exact absurd rfl hmore
    | cons h rest =>
      have hending : m.control.remaining = some (h :: rest) := by
        rw [hcontrol, ← hrest]
        rfl
      obtain ⟨x, hx⟩ := handle_of_remaining hm hending
      by_cases hflag : x.user_polled_to_completion = true
      · have hstep : m.next = some (m.release h { a with rest := rest }) := by
          simp only [next, hcontrol, hrest, hx, hflag, if_true]
        obtain ⟨hproceeds, hreach⟩ := now hstep
        refine ⟨_, _, hproceeds, hreach, by rw [release_autoPoll]; rfl, rfl, ?_⟩
        have hweight := release_weight m h { a with rest := rest }
        simp only [Control.weight, hrest, List.length_cons] at hweight ⊢
        omega
      · have hstep : m.next = some { m with
            control := .autoSpin h { a with rest := rest, auto_polled := true } } := by
          simp only [next, hcontrol, hrest, hx, hflag]
          rfl
        obtain ⟨hproceeds, hreach⟩ := now hstep
        refine ⟨_, _, hproceeds, hreach, rfl, rfl, ?_⟩
        simp only [Control.weight, hrest, List.length_cons]
        omega
  | autoSpin h a =>
    have hending : m.control.remaining = some (h :: a.rest) := by
      rw [hcontrol]
      rfl
    obtain ⟨x, hx⟩ := handle_of_remaining hm hending
    obtain ⟨fs, m₁, r, m₂, hfs, hreach, hcontrol₁, hscopes, hanswer⟩ :=
      spin_ends results hnew hrun hroom hx (by rw [hcontrol]; rfl)
    have hstep : m₁.iterate 1 = some (m₂.release h (a.note r)) := by
      simp only [iterate, hcontrol₁, hcontrol, hanswer]
      rfl
    obtain ⟨hproceeds, hreach'⟩ := later hfs hreach hstep
    refine ⟨_, _, hproceeds, hreach', by rw [release_autoPoll]; rfl, ?_, ?_⟩
    · exact (pollWork_frame hanswer).2.1.trans hscopes
    · have hweight := release_weight m₂ h (a.note r)
      rw [note_rest] at hweight
      exact Nat.lt_succ_of_le hweight
  | autoDrop h a =>
    obtain ⟨x, hx⟩ := handle_of_dropping (h := h) hm (by rw [hcontrol]; rfl)
    obtain ⟨fs, m₁, r, m₂, hfs, hreach, hcontrol₁, hscopes, hanswer⟩ :=
      spin_ends results hnew hrun hroom hx (by rw [hcontrol]; rfl)
    have hstep : m₁.iterate 1 = some { m₂ with control := .auto a } := by
      simp only [iterate, hcontrol₁, hcontrol, hanswer]
      rfl
    obtain ⟨hproceeds, hreach'⟩ := later hfs hreach hstep
    refine ⟨_, _, hproceeds, hreach', rfl, ?_, ?_⟩
    · exact (pollWork_frame hanswer).2.1.trans hscopes
    · exact Nat.lt_succ_self _

/-- A scope that is ending returns, whatever results the device has for its requests. -/
theorem can_return {channels : List Channel} {es : List Event} {m : Machine}
    (results : Nat → UInt64 → WorkResult) (hnew : ∀ ch ∈ channels, ∃ n, ch = Channel.new n)
    (hrun : (system channels).run es = some m) (hroom : m.Roomy)
    (hbusy : m.control.autoPoll.isSome) :
    ∃ fs m' a, (∀ ev ∈ fs, ev.proceeds results) ∧ (system channels).runFrom m fs = some m' ∧
      m'.control = .auto a ∧ a.rest = [] ∧ m'.scopes = m.scopes := by
  have hends := (system channels).reaches_of_measure
    (I := fun m' => (∃ es, (system channels).run es = some m') ∧ m'.Roomy ∧
      m'.scopes = m.scopes ∧ m'.control.autoPoll.isSome)
    (P := Event.proceeds results) (D := fun m' => m'.control.weight = 0)
    (fun m' => m'.control.weight) ?_ ⟨⟨es, hrun⟩, hroom, rfl, hbusy⟩
  · obtain ⟨fs, m', hfs, hreach, ⟨_, _, hscopes, hbusy'⟩, hdone⟩ := hends
    cases hcontrol : m'.control with
    | user | userSpin _ | userDrop _ =>
      rw [hcontrol] at hbusy'
      cases hbusy'
    | auto a =>
      rw [hcontrol, Control.weight] at hdone
      have hrest : a.rest.length = 0 := by omega
      exact ⟨fs, m', a, hfs, hreach, hcontrol, List.length_eq_zero_iff.mp hrest, hscopes⟩
    | autoSpin h a | autoDrop h a =>
      rw [hcontrol] at hdone
      cases hdone
  · rintro m₁ ⟨⟨es₁, hrun₁⟩, hroom₁, hscopes₁, hbusy₁⟩
    by_cases hmore : m₁.control.weight = 0
    · exact Or.inl hmore
    · obtain ⟨gs, m₂, hgs, hreach₂, hbusy₂, hscopes₂, hless⟩ :=
        autoPoll_advances results hnew hrun₁ hroom₁ hbusy₁ hmore
      exact Or.inr ⟨gs, m₂, hgs, hreach₂, ⟨⟨es₁ ++ gs, run_append hrun₁ hreach₂⟩,
        roomy_run hroom₁ hgs hreach₂, hscopes₂.trans hscopes₁, hbusy₂⟩, hless⟩

end Machine

end IbverbsRs
