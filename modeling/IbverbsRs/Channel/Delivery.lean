import IbverbsRs.Channel.Account

namespace IbverbsRs

open Ibverbs Framework

namespace Ledger

def account (l : Ledger) (c : Nat) (ch : Channel) : Account :=
  ⟨ch, l.works.filterMap (fun x => if x.1 = c then some x.2 else none)⟩

theorem mem_account {l : Ledger} {c : Nat} {ch : Channel} {w : PendingWork} :
    w ∈ (l.account c ch).works ↔ (c, w) ∈ l.works := by
  simp only [account, List.mem_filterMap, Option.ite_none_right_eq_some, Option.some.injEq]
  constructor
  · rintro ⟨⟨c', w'⟩, hmem, rfl, rfl⟩
    exact hmem
  · intro hmem
    exact ⟨(c, w), hmem, rfl, rfl⟩

/-- Each channel of a thread only sees its own steps. -/
theorem Step.onChannel {l l' : Ledger} (h : Step l l') {c : Nat} {ch' : Channel}
    (hch' : l'.channels[c]? = some ch') :
    ∃ ch, l.channels[c]? = some ch ∧ Account.Step (l.account c ch) (l'.account c ch') := by
  cases h with
  | unchanged => exact ⟨ch', hch', .elsewhere⟩
  | @completed c₀ ch₀ ch₁ wc found completed =>
    rcases getElem?_set_cases hch' with ⟨rfl, rfl⟩ | ⟨_, hold⟩
    · exact ⟨ch₀, found, .completed completed⟩
    · exact ⟨ch', hold, .elsewhere⟩
  | @rejected c₀ ch₀ found =>
    rcases getElem?_set_cases hch' with ⟨rfl, rfl⟩ | ⟨_, hold⟩
    · exact ⟨ch₀, found, .rejected⟩
    · exact ⟨ch', hold, .elsewhere⟩
  | @accepted c₀ ch₀ found =>
    rcases getElem?_set_cases hch' with ⟨rfl, rfl⟩ | ⟨hne, hold⟩
    · refine ⟨ch₀, found, ?_⟩
      have hstep := Account.Step.accepted (a := l.account c₀ ch₀)
      simpa [account] using hstep
    · refine ⟨ch', hold, ?_⟩
      have hstep := Account.Step.elsewhere (a := l.account c ch')
      simpa [account, hne] using hstep
  | @polled k c₀ w w' ch₀ cq' num_polled r posted found poll =>
    obtain ⟨hlt, hget⟩ := List.getElem?_eq_some_iff.mp posted
    obtain ⟨older, newer, hworks, _, hset⟩ :
        ∃ older newer, l.works = older ++ l.works[k] :: newer ∧ older.length = k ∧
          l.works.set k (c₀, w') = older ++ (c₀, w') :: newer := List.exists_of_set hlt
    rw [hget] at hworks
    rw [hworks] at hset
    rcases getElem?_set_cases hch' with ⟨rfl, rfl⟩ | ⟨hne, hold⟩
    · refine ⟨ch₀, found, ?_⟩
      have hsplit : (l.account c₀ ch₀).works =
          older.filterMap (fun x => if x.1 = c₀ then some x.2 else none) ++
            w :: newer.filterMap (fun x => if x.1 = c₀ then some x.2 else none) := by
        simp [account, hworks]
      have hstep := Account.Step.polled hsplit poll
      simpa [account, hworks, hset] using hstep
    · refine ⟨ch', hold, ?_⟩
      have hstep := Account.Step.elsewhere (a := l.account c ch')
      simpa [account, hworks, hset, hne] using hstep

theorem Step.posted {l l' : Ledger} (h : Step l l')
    (hp : ∀ x ∈ l.works, x.1 < l.channels.length) :
    ∀ x ∈ l'.works, x.1 < l'.channels.length := by
  cases h with
  | unchanged => exact hp
  | completed _ _ | rejected _ =>
    intro x hx
    rw [List.length_set]
    exact hp x hx
  | accepted found =>
    intro x hx
    rw [List.length_set]
    rcases List.mem_append.mp hx with hx | hx
    · exact hp x hx
    · obtain rfl := List.mem_singleton.mp hx
      exact (List.getElem?_eq_some_iff.mp found).1
  | polled _ found _ =>
    intro x hx
    rw [List.length_set]
    rcases List.mem_or_eq_of_mem_set hx with hx | rfl
    · exact hp x hx
    · exact (List.getElem?_eq_some_iff.mp found).1

/-- What a poll answers is an error of the driver, or the result the handle has kept. -/
def Reported (l : Ledger) : Prop :=
  ∀ h r, (h, some r) ∈ l.polls → (∃ e, r = .error (.IbvError e)) ∨
    ∃ c w res, l.works[h]? = some (c, w) ∧ w.status = some res ∧ r = intoTransport res

theorem Step.reported {l l' : Ledger} (h : Step l l') (hr : l.Reported) : l'.Reported := by
  cases h with
  | unchanged | completed _ _ | rejected _ => exact hr
  | accepted found =>
    intro k r hmem
    rcases hr k r hmem with he | ⟨c, w, res, hw, hrest⟩
    · exact Or.inl he
    · refine Or.inr ⟨c, w, res, ?_, hrest⟩
      rw [List.getElem?_append_left (List.getElem?_eq_some_iff.mp hw).1]
      exact hw
  | @polled k c₀ w w' ch cq' num_polled r posted found poll =>
    obtain ⟨hlt, hget⟩ := List.getElem?_eq_some_iff.mp posted
    intro k' r' hmem
    rcases List.mem_append.mp hmem with hold | hnew
    · rcases hr k' r' hold with he | ⟨c, v, res, hv, hstatus, hres⟩
      · exact Or.inl he
      · right
        by_cases hk : k = k'
        · subst hk
          obtain ⟨rfl, rfl⟩ := Prod.mk.inj (Option.some.inj (posted.symm.trans hv))
          refine ⟨c₀, w', res, ?_, poll.keeps hstatus, hres⟩
          simp [List.getElem?_set_self hlt]
        · exact ⟨c, v, res, by simpa [List.getElem?_set_ne hk] using hv, hstatus, hres⟩
    · obtain ⟨rfl, rfl⟩ := Prod.mk.inj (List.mem_singleton.mp hnew)
      rcases poll.answer with he | ⟨res, hstatus, hres⟩
      · exact Or.inl he
      · right
        refine ⟨c₀, w', res, ?_, hstatus, hres⟩
        simp [List.getElem?_set_self hlt]

end Ledger

/-- Where the completion of a request can be once the device has produced it. -/
inductive Place
  | queue
  | cache
  | handle

namespace Account

def holds (a : Account) (wc : WorkCompletion) : Place → Prop
  | .queue => wc ∈ a.channel.cq.cq.entries
  | .cache => a.channel.cq.cache wc.wr_id = some wc
  | .handle => ∃ x ∈ a.works, x.wr_id = wc.wr_id ∧ x.status = some wc.result

/-- How many completions of the request `w` there are in a place. -/
def amount (a : Account) (w : UInt64) : Place → Nat
  | .queue => a.channel.cq.queued w
  | .cache => a.channel.cq.cached w
  | .handle => a.delivered w

theorem Balanced.produced_nodup {a : Account} (hb : a.Balanced) :
    (a.channel.qp.produced.map WorkCompletion.wr_id).Nodup := by
  apply List.nodup_iff_count_le_one.mpr
  intro w
  have hmade := hb.made w
  have hunique := hb.unique w
  rw [produced] at hmade
  omega

theorem Balanced.produced_eq {a : Account} (hb : a.Balanced) {wc wc' : WorkCompletion}
    (h : wc ∈ a.channel.qp.produced) (h' : wc' ∈ a.channel.qp.produced)
    (hid : wc'.wr_id = wc.wr_id) : wc' = wc :=
  List.inj_on_of_nodup_map hb.produced_nodup h' h hid

theorem Balanced.amount_eq_one {a : Account} (hb : a.Balanced) {wc : WorkCompletion}
    (h : wc ∈ a.channel.qp.produced) : a.channel.qp.outstanding.count wc.wr_id = 0 ∧
      a.amount wc.wr_id .queue + a.amount wc.wr_id .cache + a.amount wc.wr_id .handle = 1 := by
  have hpos : 0 < a.produced wc.wr_id :=
    List.count_pos_iff.mpr (List.mem_map_of_mem h)
  have hmade := hb.made wc.wr_id
  have hunique := hb.unique wc.wr_id
  have hplaces := hb.places wc.wr_id
  simp only [amount]
  omega

/-- In its place a completion is whole: id and result are what the device produced. -/
theorem Genuine.holds_iff {a : Account} (hg : a.Genuine) (hb : a.Balanced) {wc : WorkCompletion}
    (h : wc ∈ a.channel.qp.produced) (place : Place) :
    a.holds wc place ↔ 0 < a.amount wc.wr_id place := by
  cases place with
  | queue =>
    simp only [holds, amount, CachedCompletionQueue.queued, List.count_pos_iff, List.mem_map]
    constructor
    · intro hmem
      exact ⟨wc, hmem, rfl⟩
    · rintro ⟨wc', hmem, hid⟩
      rw [← hb.produced_eq h (hg.queued wc' hmem) hid]
      exact hmem
  | cache =>
    simp only [holds, amount, CachedCompletionQueue.cached]
    constructor
    · intro hcache
      simp [hcache]
    · intro hpos
      cases hcache : a.channel.cq.cache wc.wr_id with
      | none => simp [hcache] at hpos
      | some wc' =>
        obtain ⟨hid, hmade⟩ := hg.cached _ _ hcache
        rw [hb.produced_eq h hmade hid]
  | handle =>
    simp only [holds, amount, delivered, List.count_pos_iff, List.mem_map, List.mem_filter]
    constructor
    · rintro ⟨x, hx, hid, hstatus⟩
      exact ⟨x, ⟨hx, by simp [hstatus]⟩, hid⟩
    · rintro ⟨x, ⟨hx, hsome⟩, hid⟩
      obtain ⟨res, hres⟩ := Option.isSome_iff_exists.mp hsome
      have heq := hb.produced_eq h (hg.status x hx res hres) hid
      refine ⟨x, hx, hid, ?_⟩
      rw [← heq]
      exact hres

theorem exactly_one_place {a : Account} (hg : a.Genuine) (hb : a.Balanced) {wc : WorkCompletion}
    (h : wc ∈ a.channel.qp.produced) : ∃! place, a.holds wc place := by
  have hone := (hb.amount_eq_one h).2
  have hsome : ∃ place, 0 < a.amount wc.wr_id place := by
    by_contra hnone
    simp only [not_exists, Nat.not_lt, Nat.le_zero] at hnone
    rw [hnone, hnone, hnone] at hone
    omega
  obtain ⟨place, hplace⟩ := hsome
  refine ⟨place, (hg.holds_iff hb h place).mpr hplace, ?_⟩
  intro other hother
  have hpos := (hg.holds_iff hb h other).mp hother
  cases place <;> cases other <;> first | rfl | omega

end Account

namespace Machine

def holds (m : Machine) (c : Nat) (wc : WorkCompletion) : Place → Prop
  | .queue => ∃ ch, m.channels[c]? = some ch ∧ wc ∈ ch.cq.cq.entries
  | .cache => ∃ ch, m.channels[c]? = some ch ∧ ch.cq.cache wc.wr_id = some wc
  | .handle => ∃ (h : Nat) (x : Handle), m.handles[h]? = some x ∧ x.channel = c ∧
      x.work.wr_id = wc.wr_id ∧ x.work.status = some wc.result

def account (m : Machine) (c : Nat) (ch : Channel) : Account := m.ledger.account c ch

theorem mem_account {m : Machine} {c : Nat} {ch : Channel} {w : PendingWork} :
    w ∈ (m.account c ch).works ↔ ∃ x : Handle, x ∈ m.handles ∧ x.channel = c ∧ x.work = w := by
  rw [account, Ledger.mem_account]
  simp [ledger]

theorem genuine {channels : List Channel} {es : List Event} {m : Machine}
    (hnew : ∀ ch ∈ channels, ∃ n, ch = Channel.new n)
    (hrun : (system channels).run es = some m) {c : Nat} {ch : Channel}
    (hch : m.channels[c]? = some ch) : (m.account c ch).Genuine := by
  refine (system channels).invariant
    (I := fun m => ∀ c ch, m.channels[c]? = some ch → (m.account c ch).Genuine) ?_ ?_ hrun c ch hch
  · intro c ch hch
    obtain ⟨n, rfl⟩ := hnew ch (List.mem_of_getElem? hch)
    refine ⟨by simp [account, Ledger.account, Channel.new, CachedCompletionQueue.wrap_cq],
      by simp [account, Ledger.account, Channel.new, CachedCompletionQueue.wrap_cq], ?_⟩
    intro x hx
    simp [account, Ledger.account, ledger, system, new] at hx
  · intro m ev m' hI hstep c ch' hch'
    obtain ⟨ch, hch, hlocal⟩ := (step_ledger hstep).onChannel hch'
    exact hlocal.genuine (hI c ch hch)

theorem balanced {channels : List Channel} {es : List Event} {m : Machine}
    (hnew : ∀ ch ∈ channels, ∃ n, ch = Channel.new n)
    (hrun : (system channels).run es = some m) {c : Nat} {ch : Channel}
    (hch : m.channels[c]? = some ch) (hposts : ch.qp.posts < 2 ^ 64) :
    (m.account c ch).Balanced := by
  refine (system channels).invariant
    (I := fun m => ∀ c ch, m.channels[c]? = some ch → ch.qp.posts < 2 ^ 64 →
      (m.account c ch).Balanced) ?_ ?_ hrun c ch hch hposts
  · intro c ch hch _
    obtain ⟨n, rfl⟩ := hnew ch (List.mem_of_getElem? hch)
    exact ⟨rfl, fun w _ => rfl, fun w => Nat.zero_le 1, fun w => rfl, fun w => rfl⟩
  · intro m ev m' hI hstep c ch' hch' hposts
    obtain ⟨ch, hch, hlocal⟩ := (step_ledger hstep).onChannel hch'
    have hold : ch.qp.posts < 2 ^ 64 := Nat.lt_of_le_of_lt hlocal.posts_le hposts
    exact hlocal.balanced hposts (hI c ch hch hold)

theorem channel_exists {channels : List Channel} {es : List Event} {m : Machine}
    (hrun : (system channels).run es = some m) {x : Handle} (hx : x ∈ m.handles) :
    ∃ ch, m.channels[x.channel]? = some ch := by
  have hposted : ∀ y ∈ m.ledger.works, y.1 < m.ledger.channels.length := by
    refine (system channels).invariant
      (I := fun m => ∀ y ∈ m.ledger.works, y.1 < m.ledger.channels.length) ?_ ?_ hrun
    · intro y hy
      simp [ledger, system, new] at hy
    · intro m ev m' hI hstep
      exact (step_ledger hstep).posted hI
  have hlt := hposted (x.channel, x.work) (List.mem_map_of_mem hx)
  exact ⟨_, List.getElem?_eq_getElem hlt⟩

theorem reported {channels : List Channel} {es : List Event} {m : Machine}
    (hrun : (system channels).run es = some m) : m.ledger.Reported := by
  refine (system channels).invariant (I := fun m => m.ledger.Reported) ?_ ?_ hrun
  · intro h r hmem
    simp [ledger, system, new] at hmem
  · intro m ev m' hI hstep
    exact (step_ledger hstep).reported hI

theorem holds_iff {m : Machine} {c : Nat} {ch : Channel} (hch : m.channels[c]? = some ch)
    (wc : WorkCompletion) (place : Place) :
    m.holds c wc place ↔ (m.account c ch).holds wc place := by
  cases place with
  | queue | cache => simp [holds, Account.holds, account, Ledger.account, hch]
  | handle =>
    simp only [holds, Account.holds, mem_account]
    constructor
    · rintro ⟨h, x, hx, hc, hid, hstatus⟩
      exact ⟨x.work, ⟨x, List.mem_of_getElem? hx, hc, rfl⟩, hid, hstatus⟩
    · rintro ⟨_, ⟨x, hx, hc, rfl⟩, hid, hstatus⟩
      obtain ⟨h, hh⟩ := List.mem_iff_getElem?.mp hx
      exact ⟨h, x, hh, hc, hid, hstatus⟩

/-- Two requests on one channel never share an id. -/
theorem index_eq {m : Machine} {c : Nat} {ch : Channel} (hb : (m.account c ch).Balanced)
    {h h' : Nat} {x x' : Handle} (hx : m.handles[h]? = some x) (hx' : m.handles[h']? = some x')
    (hc : x.channel = c) (hc' : x'.channel = c) (hid : x.work.wr_id = x'.work.wr_id) : h = h' := by
  have hnodup : ((m.account c ch).works.map PendingWork.wr_id).Nodup :=
    List.nodup_iff_count_le_one.mpr hb.unique
  have hmap : (m.account c ch).works.map PendingWork.wr_id =
      m.handles.filterMap (fun x => if x.channel = c then some x.work.wr_id else none) := by
    simp only [account, Ledger.account, ledger, List.map_filterMap, List.filterMap_map]
    congr 1
    funext x
    by_cases hx : x.channel = c <;> simp [hx]
  rw [hmap, List.Nodup, List.pairwise_filterMap] at hnodup
  have hsep {i j : Nat} {y z : Handle} (hlt : i < j) (hy : m.handles[i]? = some y)
      (hz : m.handles[j]? = some z) (hyc : y.channel = c) (hzc : z.channel = c) :
      y.work.wr_id ≠ z.work.wr_id := by
    obtain ⟨hi, rfl⟩ := List.getElem?_eq_some_iff.mp hy
    obtain ⟨hj, rfl⟩ := List.getElem?_eq_some_iff.mp hz
    apply List.pairwise_iff_getElem.mp hnodup i j hi hj hlt
    · simp [hyc]
    · simp [hzc]
  rcases Nat.lt_trichotomy h h' with hlt | heq | hgt
  · exact absurd hid (hsep hlt hx hx' hc hc')
  · exact heq
  · exact absurd hid.symm (hsep hgt hx' hx hc' hc)

/-- Every completion reaches the handle of its own request, exactly once. -/
theorem completions_reach_their_handle {channels : List Channel} {es : List Event} {m : Machine}
    (hnew : ∀ ch ∈ channels, ∃ n, ch = Channel.new n)
    (hrun : (system channels).run es = some m) {c : Nat} {ch : Channel}
    (hch : m.channels[c]? = some ch) (hposts : ch.qp.posts < 2 ^ 64) :
    (∀ (h h' : Nat) (x x' : Handle), m.handles[h]? = some x → m.handles[h']? = some x' →
      x.channel = c → x'.channel = c → x.work.wr_id = x'.work.wr_id → h = h') ∧
    (ch.qp.produced.map WorkCompletion.wr_id).Nodup ∧
    (ch.cq.cq.entries.map WorkCompletion.wr_id).Nodup ∧
    (∀ wc ∈ ch.qp.produced, ∃! place, m.holds c wc place) ∧
    (∀ (h : Nat) (x : Handle) r, m.handles[h]? = some x → x.channel = c → (h, some r) ∈ m.polls →
      (∃ e, r = .error (.IbvError e)) ∨
        ∃ res, ⟨x.work.wr_id, res⟩ ∈ ch.qp.produced ∧ r = intoTransport res) := by
  have hb := balanced hnew hrun hch hposts
  have hg := genuine hnew hrun hch
  refine ⟨?_, hb.produced_nodup, ?_, ?_, ?_⟩
  · intro h h' x x' hx hx' hc hc' hid
    exact index_eq hb hx hx' hc hc' hid
  · apply List.nodup_iff_count_le_one.mpr
    intro w
    have hplaces := hb.places w
    have hunique := hb.unique w
    change ch.cq.queued w ≤ 1
    change _ + ch.cq.queued w + _ + _ = _ at hplaces
    omega
  · intro wc hwc
    simp only [holds_iff hch]
    exact Account.exactly_one_place hg hb hwc
  · intro h x r hx hc hpoll
    rcases reported hrun h r hpoll with he | ⟨c', w, res, hw, hstatus, hr⟩
    · exact Or.inl he
    · have hwork := ledger_work hw hx
      have hmem : x.work ∈ (m.account c ch).works :=
        mem_account.mpr ⟨x, List.mem_of_getElem? hx, hc, rfl⟩
      rw [← hwork] at hstatus
      exact Or.inr ⟨res, hg.status _ hmem res hstatus, hr⟩

/-- Two requests and a rejected one; polling the second takes the completions of both, and one
is left in the cache for the first. -/
theorem completions_reach_their_handle_two : ∃ m ch,
    (system [Channel.new 16]).run [.openScope false, .post .write 0 (some 0) none,
      .post .send 0 (some 0) (some 12), .post .read 0 none none,
      .complete 0 ⟨2, .error ⟨5, 0⟩⟩, .complete 0 ⟨0, .ok ⟨none, 8⟩⟩, .poll 1 2] = some m ∧
    m.channels[0]? = some ch ∧ ch.qp.produced.map WorkCompletion.wr_id = [2, 0] ∧
    (∀ wc ∈ ch.qp.produced, ∃! place, m.holds 0 wc place) := by
  obtain ⟨ch, hbind, hsum⟩ := Option.map_eq_some_iff.mp (show
    (((system [Channel.new 16]).run [.openScope false, .post .write 0 (some 0) none,
      .post .send 0 (some 0) (some 12), .post .read 0 none none,
      .complete 0 ⟨2, .error ⟨5, 0⟩⟩, .complete 0 ⟨0, .ok ⟨none, 8⟩⟩, .poll 1 2]).bind
      (fun m => m.channels[0]?)).map (fun ch =>
        (ch.qp.posts, ch.qp.produced.map WorkCompletion.wr_id)) = some (3, [2, 0]) by rfl)
  obtain ⟨m, hrun, hch⟩ := Option.bind_eq_some_iff.mp hbind
  obtain ⟨hposts, hids⟩ := Prod.mk.inj hsum
  have hall := completions_reach_their_handle (by simp) hrun hch (by rw [hposts]; decide)
  exact ⟨m, ch, hrun, hch, hids, hall.2.2.2.1⟩

end Machine

end IbverbsRs
