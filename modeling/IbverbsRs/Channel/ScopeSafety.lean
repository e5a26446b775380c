import IbverbsRs.Channel.Tracking

namespace IbverbsRs

open Ibverbs Framework

/-- The answer the event has in store for `ibv_poll_cq` is an error. -/
def Event.reportsError : Event → Bool
  | .poll _ num_polled | .iterate num_polled => decide (num_polled < 0)
  | _ => false

namespace Machine

/-- A request is taken for finished, by its handle, by `Drop` and `auto_poll` or by the return
of its scope, only when its completion has been retrieved; its polls then always agree. -/
structure Sound (m : Machine) : Prop where
  finished : ∀ (h : Nat) (x : Handle), m.handles[h]? = some x →
    x.user_polled_to_completion = true ∨ x.released = true → x.work.status.isSome
  returned : ∀ s outcome, (s, outcome) ∈ m.finished → ∀ (h : Nat) (x : Handle),
    m.handles[h]? = some x → x.scope = some s.id → x.work.status.isSome
  stable : m.polls.Pairwise (fun p q => p.1 = q.1 → p.2.isSome → q.2 = p.2)

theorem returned_settled {m : Machine} (hm : m.Tracked) {s : PollingScope}
    {outcome : ScopeOutcome} (hfin : (s, outcome) ∈ m.finished) {h : Nat} {x : Handle}
    (hx : m.handles[h]? = some x) (hscope : x.scope = some s.id) : x.work.status.isSome := by
  rcases hm.waited h x s.id hx hscope with hsome | ⟨s', hs', hid, _⟩
  · exact hsome
  · -- the id of a scope that has returned is not the id of an open one
    have hopen : s.id ∈ m.scopes.map PollingScope.id := by
      have hwatched : m.watched.map PollingScope.id = m.scopes.map PollingScope.id := by
        unfold watched PollingScope.watched
        split
        · rename_i hscopes
          simp [hscopes]
        · rfl
      rw [← hwatched, ← hid]
      exact List.mem_map_of_mem hs'
    have hclosed : s.id ∈ m.finished.map (fun f => f.1.id) :=
      List.mem_map_of_mem (f := fun f : PollingScope × ScopeOutcome => f.1.id) hfin
    have hdisjoint := List.disjoint_of_nodup_append hm.named.nodup
    exact absurd hclosed (hdisjoint hopen)

theorem not_driverFails {ev : Event} (hgood : ev.reportsError = false) (m : Machine) :
    ¬ m.driverFails ev := by
  intro hfail
  cases ev with
  | poll k n => exact of_decide_eq_false hgood hfail.1
  | iterate n => exact of_decide_eq_false hgood hfail.1
  | _ => exact hfail

theorem along_of_no_error (channels : List Channel) (es : List Event)
    (hok : ∀ ev ∈ es, ev.reportsError = false) :
    (system channels).Along (fun m ev => ¬ m.driverFails ev) (new channels) es := by
  apply (system channels).along_of_forall
  intro ev hev m
  exact not_driverFails (hok ev hev) m

/-- Without failing calls of `ibv_poll_cq` nothing is mistaken for a completion. -/
theorem sound_without_poll_errors {channels : List Channel} {es : List Event} {m : Machine}
    (hok : (system channels).Along (fun m ev => ¬ m.driverFails ev) (new channels) es)
    (hrun : (system channels).run es = some m) : m.Sound := by
  have hm := tracked hok hrun
  refine ⟨hm.honest, ?_, hm.steady.stable⟩
  intro s outcome hfin h x hx hscope
  exact returned_settled hm hfin hx hscope

/-- A write that is polled too early, and again after its completion. -/
theorem sound_without_poll_errors_two : ∃ m,
    (system [Channel.new 16]).run [.openScope false, .post .write 0 (some 0) none, .poll 0 0,
      .complete 0 ⟨0, .ok ⟨none, 8⟩⟩, .poll 0 1, .forget 0, .closeScope .ok, .next, .next] = some m ∧
    m.finished.length = 1 ∧ m.Sound := by
  obtain ⟨m, hrun, hlen⟩ := Option.map_eq_some_iff.mp (show ((system [Channel.new 16]).run
    [.openScope false, .post .write 0 (some 0) none, .poll 0 0, .complete 0 ⟨0, .ok ⟨none, 8⟩⟩,
      .poll 0 1, .forget 0, .closeScope .ok, .next, .next]).map (fun m => m.finished.length) =
        some 1 by rfl)
  have hok := along_of_no_error [Channel.new 16] [.openScope false,
    .post .write 0 (some 0) none, .poll 0 0, .complete 0 ⟨0, .ok ⟨none, 8⟩⟩, .poll 0 1, .forget 0,
    .closeScope .ok, .next, .next] (by decide)
  exact ⟨m, hrun, hlen, sound_without_poll_errors hok hrun⟩

/-- One failing call of `ibv_poll_cq`: the poll of the user returns its error as if the write
had finished, and the scope returns while the device still works on the buffer. -/
theorem error_mistaken_for_completion : ∃ m x ch,
    (system [Channel.new 16]).run [.openScope false, .post .write 0 (some 0) none, .poll 0 (-5),
      .forget 0, .closeScope .ok, .next, .next] = some m ∧
    m.handles[0]? = some x ∧ m.channels[0]? = some ch ∧
    x.user_polled_to_completion = true ∧ x.released = true ∧ x.work.status = none ∧
    m.finished.map Prod.snd = [.ok] ∧ ch.qp.outstanding = [0] ∧ ¬ m.Sound := by
  obtain ⟨⟨m, x, ch⟩, hbind, hsum⟩ := Option.map_eq_some_iff.mp (show
    (((system [Channel.new 16]).run [.openScope false, .post .write 0 (some 0) none, .poll 0 (-5),
      .forget 0, .closeScope .ok, .next, .next]).bind (fun m => (m.handles[0]?).bind (fun x =>
        (m.channels[0]?).map (fun ch => (m, x, ch))))).map (fun (m, x, ch) =>
          (x.user_polled_to_completion, x.released, x.work.status.isSome,
            m.finished.map Prod.snd, ch.qp.outstanding)) =
      some (true, true, false, [.ok], [0]) by rfl)
  obtain ⟨m, hrun, hm⟩ := Option.bind_eq_some_iff.mp hbind
  obtain ⟨x, hx, hmap⟩ := Option.bind_eq_some_iff.mp hm
  obtain ⟨ch, hch, heq⟩ := Option.map_eq_some_iff.mp hmap
  obtain ⟨rfl, rfl, rfl⟩ := by simpa using heq
  obtain ⟨hflag, hreleased, hstatus, hfin, hout⟩ := by simpa using hsum
  refine ⟨_, _, _, hrun, hx, hch, hflag, hreleased, hstatus, ?_, hout, ?_⟩
  · simp [hfin]
  · intro hsound
    have hsome := hsound.finished 0 _ hx (Or.inl hflag)
    rw [hstatus] at hsome
    cases hsome

/-- A scope returns only after the completion of every request posted through it has been
retrieved, whatever the closure did with the handles and however it ended. -/
theorem scope_returns_after_completion {channels : List Channel} {es : List Event} {m : Machine}
    (hnew : ∀ ch ∈ channels, ∃ n, ch = Channel.new n) (hok : ∀ ev ∈ es, ev.reportsError = false)
    (hrun : (system channels).run es = some m) {s : PollingScope} {outcome : ScopeOutcome}
    (hfin : (s, outcome) ∈ m.finished) {h : Nat} {x : Handle} (hx : m.handles[h]? = some x)
    (hscope : x.scope = some s.id) :
    ∃ ch res, m.channels[x.channel]? = some ch ∧ x.work.status = some res ∧
      ⟨x.work.wr_id, res⟩ ∈ ch.qp.produced ∧
      (ch.qp.posts < 2 ^ 64 → x.work.wr_id ∉ ch.qp.outstanding ∧ ch.cq.queued x.work.wr_id = 0) := by
  have halong := along_of_no_error channels _ hok
  have hsome := returned_settled (tracked halong hrun) hfin hx hscope
  obtain ⟨res, hres⟩ := Option.isSome_iff_exists.mp hsome
  obtain ⟨ch, hch⟩ := channel_exists hrun (List.mem_of_getElem? hx)
  have hmem : x.work ∈ (m.account x.channel ch).works :=
    mem_account.mpr ⟨x, List.mem_of_getElem? hx, rfl, rfl⟩
  have hmade := (genuine hnew hrun hch).status _ hmem res hres
  refine ⟨ch, res, hch, hres, hmade, ?_⟩
  intro hposts
  have hb := balanced hnew hrun hch hposts
  obtain ⟨hout, hone⟩ := hb.amount_eq_one hmade
  have hhandle : 0 < (m.account x.channel ch).amount x.work.wr_id .handle :=
    ((genuine hnew hrun hch).holds_iff hb hmade .handle).mp ⟨x.work, hmem, rfl, hres⟩
  refine ⟨List.count_eq_zero.mp hout, ?_⟩
  change ch.cq.queued _ + _ + _ = 1 at hone
  dsimp only at hone hhandle
  omega

/-- A closure that leaks one handle, drops the other and panics. -/
theorem scope_returns_after_completion_two : ∃ m s x ch res,
    (system [Channel.new 16]).run [.openScope false, .post .write 0 (some 0) none,
      .post .receive 0 (some 0) none, .forget 0, .drop 1, .complete 0 ⟨1, .ok ⟨none, 4⟩⟩,
      .closeScope .panic, .next, .iterate 1, .complete 0 ⟨0, .error ⟨5, 0⟩⟩, .iterate 1, .next,
      .iterate 0, .iterate 0, .next] = some m ∧
    m.finished = [(s, .resumedPanic)] ∧ m.handles[0]? = some x ∧ m.channels[0]? = some ch ∧
    x.work.status = some res ∧ ⟨x.work.wr_id, res⟩ ∈ ch.qp.produced := by
  obtain ⟨⟨m, x⟩, hbind, hsum⟩ := Option.map_eq_some_iff.mp (show
    (((system [Channel.new 16]).run [.openScope false, .post .write 0 (some 0) none,
      .post .receive 0 (some 0) none, .forget 0, .drop 1, .complete 0 ⟨1, .ok ⟨none, 4⟩⟩,
      .closeScope .panic, .next, .iterate 1, .complete 0 ⟨0, .error ⟨5, 0⟩⟩, .iterate 1, .next,
      .iterate 0, .iterate 0, .next]).bind (fun m => (m.handles[0]?).map (fun x => (m, x)))).map
        (fun (m, x) => (m.finished, x.scope, x.channel)) =
      some ([(⟨0, false, [0, 1]⟩, .resumedPanic)], some 0, 0) by rfl)
  obtain ⟨m, hrun, hm⟩ := Option.bind_eq_some_iff.mp hbind
  obtain ⟨x, hx, heq⟩ := Option.map_eq_some_iff.mp hm
  obtain ⟨rfl, rfl⟩ := by simpa using heq
  obtain ⟨hfin, hscope, hchannel⟩ := by simpa using hsum
  have hreturned : (⟨0, false, [0, 1]⟩, .resumedPanic) ∈ m.finished := by simp [hfin]
  obtain ⟨ch, res, hch, hres, hmade, _⟩ :=
    scope_returns_after_completion (by simp) (by decide) hrun hreturned hx hscope
  rw [hchannel] at hch
  exact ⟨_, _, _, ch, res, hrun, hfin, hx, hch, hres, hmade⟩

end Machine

end IbverbsRs
