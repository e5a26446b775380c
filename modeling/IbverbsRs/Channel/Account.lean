import IbverbsRs.Channel.Ledger
import Mathlib.Algebra.Group.Nat.Defs

namespace IbverbsRs

open Ibverbs Framework

/-- One channel with the requests posted on it, oldest first. -/
structure Account where
  channel : Channel
  works : List PendingWork

namespace Account

/-- How many requests have the id `w`, and how many of these have a status. -/
def owners (a : Account) (w : UInt64) : Nat := (a.works.map PendingWork.wr_id).count w

def delivered (a : Account) (w : UInt64) : Nat :=
  ((a.works.filter (fun x => x.status.isSome)).map PendingWork.wr_id).count w

def produced (a : Account) (w : UInt64) : Nat :=
  (a.channel.qp.produced.map WorkCompletion.wr_id).count w

/-- Everything a thread can do to one of its channels. -/
inductive Step (a : Account) : Account → Prop
  | elsewhere : Step a a
  | completed {ch' : Channel} {wc : WorkCompletion} (completed : a.channel.complete wc = some ch') :
      Step a { a with channel := ch' }
  | rejected : Step a { a with channel := a.channel.spent }
  | accepted : Step a ⟨a.channel.accepted, a.works ++ [⟨a.channel.next_wr_id, none⟩]⟩
  | polled {older newer : List PendingWork} {w w' : PendingWork} {cq' : CachedCompletionQueue}
      {num_polled : Int} {r : Option TransportResult} (split : a.works = older ++ w :: newer)
      (poll : PendingWork.Poll w a.channel.cq a.channel.poll_buff num_polled r w' cq') :
      Step a ⟨{ a.channel with cq := cq' }, older ++ w' :: newer⟩

/-- Nothing is made up: what is in the queue, in the cache or in a status was produced by the
device for that id. -/
structure Genuine (a : Account) : Prop where
  queued : ∀ wc ∈ a.channel.cq.cq.entries, wc ∈ a.channel.qp.produced
  cached : ∀ w wc, a.channel.cq.cache w = some wc → wc.wr_id = w ∧ wc ∈ a.channel.qp.produced
  status : ∀ x ∈ a.works, ∀ res, x.status = some res → ⟨x.wr_id, res⟩ ∈ a.channel.qp.produced

/-- As long as the ids do not wrap around, every id belongs to at most one request, and the
request is in flight or its one completion is in one place. -/
structure Balanced (a : Account) : Prop where
  next : a.channel.next_wr_id.toNat = a.channel.qp.posts
  fresh : ∀ w : UInt64, a.channel.qp.posts ≤ w.toNat → a.owners w = 0
  unique : ∀ w, a.owners w ≤ 1
  places : ∀ w, a.channel.qp.outstanding.count w + a.channel.cq.queued w +
    a.channel.cq.cached w + a.delivered w = a.owners w
  made : ∀ w, a.channel.qp.outstanding.count w + a.produced w = a.owners w

theorem genuine_polled {cq cq' : CachedCompletionQueue} {made : List WorkCompletion}
    {w w' : PendingWork} {poll_buff : Nat} {num_polled : Int} {r : Option TransportResult}
    (hpoll : PendingWork.Poll w cq poll_buff num_polled r w' cq')
    (hqueued : ∀ wc ∈ cq.cq.entries, wc ∈ made)
    (hcached : ∀ v wc, cq.cache v = some wc → wc.wr_id = v ∧ wc ∈ made) :
    (∀ wc ∈ cq'.cq.entries, wc ∈ made) ∧
      (∀ v wc, cq'.cache v = some wc → wc.wr_id = v ∧ wc ∈ made) ∧
      (∀ res, w'.status = some res → w.status = some res ∨ ⟨w.wr_id, res⟩ ∈ made) := by
  have hrefill {cq₁ : CachedCompletionQueue} {n : Nat}
      (hupdate : cq.update poll_buff num_polled = some (.ok n, cq₁)) :
      (∀ wc ∈ cq₁.cq.entries, wc ∈ made) ∧
        (∀ v wc, cq₁.cache v = some wc → wc.wr_id = v ∧ wc ∈ made) := by
    rcases CachedCompletionQueue.update_spec hupdate with ⟨_, ⟨e, he⟩, _⟩ | ⟨_, wcs, _, hentries, hcache⟩
    · cases he
    · rw [hentries] at hqueued
      constructor
      · intro wc hwc
        exact hqueued wc (List.mem_append_right _ hwc)
      · intro v wc hwc
        rw [hcache] at hwc
        rcases CachedCompletionQueue.foldl_insert_eq_some hwc with ⟨hmem, hid⟩ | hold
        · exact ⟨hid, hqueued wc (List.mem_append_left _ hmem)⟩
        · exact hcached v wc hold
  cases hpoll with
  | known status => exact ⟨hqueued, hcached, fun res hres => Or.inl hres⟩
  | failed _ _ _ => exact ⟨hqueued, hcached, fun res hres => Or.inl hres⟩
  | pending status refill =>
    obtain ⟨hq, hc⟩ := hrefill refill
    exact ⟨hq, hc, fun res hres => Or.inl hres⟩
  | @found wc cq₁ status refill cached =>
    have hboth : (∀ wc ∈ cq₁.cq.entries, wc ∈ made) ∧
        (∀ v wc, cq₁.cache v = some wc → wc.wr_id = v ∧ wc ∈ made) := by
      rcases refill with rfl | ⟨n, hupdate⟩
      · exact ⟨hqueued, hcached⟩
      · exact hrefill hupdate
    refine ⟨hboth.1, ?_, ?_⟩
    · intro v wc' hwc'
      by_cases hv : v = w.wr_id
      · simp [CachedCompletionQueue.consume, hv] at hwc'
      · apply hboth.2 v wc'
        simpa [CachedCompletionQueue.consume, Function.update_of_ne hv] using hwc'
    · intro res hres
      obtain rfl := Option.some.inj hres
      obtain ⟨hid, hmade⟩ := hboth.2 _ _ cached
      rw [← hid]
      exact Or.inr hmade

theorem Step.genuine {a a' : Account} (h : Step a a') (hg : a.Genuine) : a'.Genuine := by
  cases h with
  | elsewhere => exact hg
  | rejected => exact ⟨hg.queued, hg.cached, hg.status⟩
  | @completed ch' wc completed =>
    unfold Channel.complete at completed
    split_ifs at completed
    obtain rfl := Option.some.inj completed
    refine ⟨?_, ?_, ?_⟩
    · intro wc' hwc'
      rcases List.mem_append.mp hwc' with hold | hnew
      · exact List.mem_append_left _ (hg.queued wc' hold)
      · exact List.mem_append_right _ hnew
    · intro w wc' hwc'
      obtain ⟨hid, hmade⟩ := hg.cached w wc' hwc'
      exact ⟨hid, List.mem_append_left _ hmade⟩
    · intro x hx res hres
      exact List.mem_append_left _ (hg.status x hx res hres)
  | accepted =>
    refine ⟨hg.queued, hg.cached, ?_⟩
    intro x hx res hres
    rcases List.mem_append.mp hx with hold | hnew
    · exact hg.status x hold res hres
    · obtain rfl := List.mem_singleton.mp hnew
      cases hres
  | @polled older newer w w' cq' _ _ split poll =>
    obtain ⟨hq, hc, hs⟩ := genuine_polled poll hg.queued hg.cached
    refine ⟨hq, hc, ?_⟩
    intro x hx res hres
    have hold := hg.status
    rw [split] at hold
    rcases List.mem_append.mp hx with hx | hx
    · exact hold x (List.mem_append_left _ hx) res hres
    · rcases List.mem_cons.mp hx with rfl | hx
      · rw [poll.wr_id]
        rcases hs res hres with hstatus | hmade
        · exact hold w (by simp) res hstatus
        · exact hmade
      · exact hold x (by simp [hx]) res hres

theorem owners_append (ch : Channel) (xs ys : List PendingWork) (v : UInt64) :
    owners ⟨ch, xs ++ ys⟩ v = owners ⟨ch, xs⟩ v + owners ⟨ch, ys⟩ v := by
  simp [owners]

theorem delivered_append (ch : Channel) (xs ys : List PendingWork) (v : UInt64) :
    delivered ⟨ch, xs ++ ys⟩ v = delivered ⟨ch, xs⟩ v + delivered ⟨ch, ys⟩ v := by
  simp [delivered]

theorem owners_cons (ch : Channel) (x : PendingWork) (xs : List PendingWork) (v : UInt64) :
    owners ⟨ch, x :: xs⟩ v = (if x.wr_id = v then 1 else 0) + owners ⟨ch, xs⟩ v := by
  simp only [owners, List.map_cons, List.count_cons, beq_iff_eq]
  omega

theorem delivered_cons (ch : Channel) (x : PendingWork) (xs : List PendingWork) (v : UInt64) :
    delivered ⟨ch, x :: xs⟩ v = x.done v + delivered ⟨ch, xs⟩ v := by
  cases hx : x.status with
  | none => simp [delivered, PendingWork.done, hx]
  | some res =>
    simp only [delivered, PendingWork.done, hx, List.filter_cons, Option.isSome_some, if_true,
      List.map_cons, List.count_cons, beq_iff_eq, true_and]
    omega

theorem Step.posts_le {a a' : Account} (h : Step a a') :
    a.channel.qp.posts ≤ a'.channel.qp.posts := by
  cases h with
  | elsewhere => exact Nat.le_refl _
  | rejected => exact Nat.le_succ _
  | accepted => exact Nat.le_succ _
  | polled _ _ => exact Nat.le_refl _
  | completed completed =>
    unfold Channel.complete at completed
    split_ifs at completed
    obtain rfl := Option.some.inj completed
    exact Nat.le_refl _

theorem next_succ {a : Account} (hb : a.Balanced) (hposts : a.channel.qp.posts + 1 < 2 ^ 64) :
    (a.channel.next_wr_id + 1).toNat = a.channel.qp.posts + 1 := by
  rw [UInt64.toNat_add, hb.next]
  exact Nat.mod_eq_of_lt hposts

theorem balanced_accepted {a : Account} (hb : a.Balanced)
    (hposts : a.channel.qp.posts + 1 < 2 ^ 64) :
    Balanced ⟨a.channel.accepted, a.works ++ [⟨a.channel.next_wr_id, none⟩]⟩ := by
  have howners (w : UInt64) :
      owners ⟨a.channel.accepted, a.works ++ [⟨a.channel.next_wr_id, none⟩]⟩ w =
        a.owners w + if a.channel.next_wr_id = w then 1 else 0 := by
    rw [owners_append, owners_cons]
    rfl
  have hdelivered (w : UInt64) :
      delivered ⟨a.channel.accepted, a.works ++ [⟨a.channel.next_wr_id, none⟩]⟩ w =
        a.delivered w := by
    rw [delivered_append, delivered_cons]
    simp [delivered, PendingWork.done]
  have houtstanding (w : UInt64) : a.channel.accepted.qp.outstanding.count w =
      a.channel.qp.outstanding.count w + if a.channel.next_wr_id = w then 1 else 0 := by
    simp [Channel.accepted, List.count_append, List.count_singleton]
  have hfresh : a.owners a.channel.next_wr_id = 0 := hb.fresh _ (Nat.le_of_eq hb.next.symm)
  refine ⟨next_succ hb hposts, ?_, ?_, ?_, ?_⟩
  · intro w hw
    have hlt : a.channel.qp.posts + 1 ≤ w.toNat := hw
    have hne : a.channel.next_wr_id ≠ w := by
      intro heq
      rw [← heq, hb.next] at hlt
      omega
    rw [howners, hb.fresh w (by omega), if_neg hne]
  · intro w
    rw [howners]
    by_cases hw : a.channel.next_wr_id = w
    · rw [← hw, if_pos rfl]
      omega
    · rw [if_neg hw]
      exact hb.unique w
  · intro w
    have hplaces := hb.places w
    rw [howners, hdelivered, houtstanding]
    change _ + a.channel.cq.queued w + a.channel.cq.cached w + _ = _
    omega
  · intro w
    have hmade := hb.made w
    rw [howners, houtstanding]
    change _ + a.produced w = _
    omega

theorem balanced_completed {a : Account} {ch' : Channel} {wc : WorkCompletion} (hb : a.Balanced)
    (completed : a.channel.complete wc = some ch') : Balanced { a with channel := ch' } := by
  unfold Channel.complete at completed
  split_ifs at completed with hmem
  obtain rfl := Option.some.inj completed
  have hout (w : UInt64) : (a.channel.qp.outstanding.erase wc.wr_id).count w +
      (if wc.wr_id = w then 1 else 0) = a.channel.qp.outstanding.count w := by
    have hpos := List.count_pos_iff.mpr hmem
    rw [List.count_erase]
    by_cases hw : wc.wr_id = w
    · subst hw
      simp only [beq_self_eq_true, if_true]
      omega
    · simp [hw]
  refine ⟨hb.next, hb.fresh, hb.unique, ?_, ?_⟩
  · intro w
    have hplaces := hb.places w
    have houtstanding := hout w
    simp only [CachedCompletionQueue.queued, CachedCompletionQueue.cached, delivered, owners,
      List.map_append, List.map_cons, List.map_nil, List.count_append, List.count_singleton,
      beq_iff_eq] at hplaces ⊢
    omega
  · intro w
    have hmade := hb.made w
    have houtstanding := hout w
    simp only [produced, owners, List.map_append, List.map_cons, List.map_nil, List.count_append,
      List.count_singleton, beq_iff_eq] at hmade ⊢
    omega

theorem balanced_polled {a : Account} {older newer : List PendingWork} {w w' : PendingWork}
    {cq' : CachedCompletionQueue} {num_polled : Int} {r : Option TransportResult}
    (hb : a.Balanced) (split : a.works = older ++ w :: newer)
    (poll : PendingWork.Poll w a.channel.cq a.channel.poll_buff num_polled r w' cq') :
    Balanced ⟨{ a.channel with cq := cq' }, older ++ w' :: newer⟩ := by
  obtain ⟨ch, works⟩ := a
  obtain rfl : works = older ++ w :: newer := split
  have howners (v : UInt64) : owners ⟨{ ch with cq := cq' }, older ++ w' :: newer⟩ v =
      owners ⟨ch, older ++ w :: newer⟩ v := by
    simp [owners, poll.wr_id]
  have hone (v : UInt64) : ch.cq.queued v + ch.cq.cached v ≤ 1 := by
    have hplaces := hb.places v
    have hunique := hb.unique v
    dsimp only at hplaces
    omega
  refine ⟨hb.next, ?_, ?_, ?_, ?_⟩
  · intro v hv
    rw [howners]
    exact hb.fresh v hv
  · intro v
    rw [howners]
    exact hb.unique v
  · intro v
    have hplaces := hb.places v
    have hmoved := poll.total hone v
    dsimp only at hmoved
    rw [howners, delivered_append, delivered_cons]
    rw [delivered_append, delivered_cons] at hplaces
    simp only [delivered] at hplaces ⊢
    omega
  · intro v
    rw [howners]
    exact hb.made v

theorem Step.balanced {a a' : Account} (h : Step a a') (hposts : a'.channel.qp.posts < 2 ^ 64)
    (hb : a.Balanced) : a'.Balanced := by
  cases h with
  | elsewhere => exact hb
  | completed completed => exact balanced_completed hb completed
  | rejected =>
    refine ⟨next_succ hb hposts, ?_, hb.unique, hb.places, hb.made⟩
    intro w hw
    exact hb.fresh w (Nat.le_of_succ_le hw)
  | accepted => exact balanced_accepted hb hposts
  | polled split poll => exact balanced_polled hb split poll

end Account

end IbverbsRs
