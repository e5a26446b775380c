import IbverbsRs.Channel.PollingScope
import IbverbsRs.Framework.Lists
import Mathlib.Data.List.Nodup

namespace IbverbsRs

open Ibverbs Framework

/-- What of a thread decides where completions are: its channels, the requests with the
channel each was posted on, and the answers of all polls. -/
structure Ledger where
  channels : List Channel
  works : List (Nat × PendingWork)
  polls : List (Nat × Option TransportResult)

namespace Ledger

/-- One step of a thread, as far as its completions are concerned. -/
inductive Step (l : Ledger) : Ledger → Prop
  | unchanged : Step l l
  | completed {c : Nat} {ch ch' : Channel} {wc : WorkCompletion} (found : l.channels[c]? = some ch)
      (completed : ch.complete wc = some ch') : Step l { l with channels := l.channels.set c ch' }
  | rejected {c : Nat} {ch : Channel} (found : l.channels[c]? = some ch) :
      Step l { l with channels := l.channels.set c ch.spent }
  | accepted {c : Nat} {ch : Channel} (found : l.channels[c]? = some ch) :
      Step l { l with
        channels := l.channels.set c ch.accepted
        works := l.works ++ [(c, ⟨ch.next_wr_id, none⟩)] }
  | polled {h c : Nat} {w w' : PendingWork} {ch : Channel} {cq' : CachedCompletionQueue}
      {num_polled : Int} {r : Option TransportResult} (posted : l.works[h]? = some (c, w))
      (found : l.channels[c]? = some ch)
      (poll : PendingWork.Poll w ch.cq ch.poll_buff num_polled r w' cq') :
      Step l {
        channels := l.channels.set c { ch with cq := cq' }
        works := l.works.set h (c, w')
        polls := l.polls ++ [(h, r)] }

end Ledger

namespace Machine

def ledger (m : Machine) : Ledger :=
  ⟨m.channels, m.handles.map (fun x => (x.channel, x.work)), m.polls⟩

theorem ledger_work {m : Machine} {h c : Nat} {w : PendingWork} {x : Handle}
    (hw : m.ledger.works[h]? = some (c, w)) (hx : m.handles[h]? = some x) : x.work = w := by
  simp only [ledger, List.getElem?_map, hx, Option.map_some, Option.some.injEq,
    Prod.mk.injEq] at hw
  exact hw.2

theorem pollWork_spec {m m' : Machine} {h : Nat} {num_polled : Int} {r : Option TransportResult}
    (hpoll : m.pollWork h num_polled = some (r, m')) :
    ∃ x ch w' cq', m.handles[h]? = some x ∧ m.channels[x.channel]? = some ch ∧
      PendingWork.Poll x.work ch.cq ch.poll_buff num_polled r w' cq' ∧
      m' = { m with
        channels := m.channels.set x.channel { ch with cq := cq' }
        handles := m.handles.set h { x with work := w' }
        polls := m.polls ++ [(h, r)] } := by
  unfold pollWork at hpoll
  cases hx : m.handles[h]? with
  | none => simp [hx] at hpoll
  | some x =>
    cases hch : m.channels[x.channel]? with
    | none => simp [hx, hch] at hpoll
    | some ch =>
      simp only [hx, hch] at hpoll
      obtain ⟨⟨r', w', cq'⟩, hp, heq⟩ := Option.map_eq_some_iff.mp hpoll
      obtain ⟨rfl, rfl⟩ := Prod.mk.inj heq
      exact ⟨x, ch, w', cq', rfl, hch, PendingWork.poll_spec hp, rfl⟩

theorem post_spec (m : Machine) (kind : OpKind) (c : Nat) (scope errno : Option Nat) :
    (m.channels[c]? = none ∧ m.post kind c scope errno = m) ∨
      ∃ ch, m.channels[c]? = some ch ∧
        (m.post kind c scope errno = { m with channels := m.channels.set c ch.spent } ∨
          m.post kind c scope errno = { m with
            channels := m.channels.set c ch.accepted
            handles := m.handles ++
              [⟨c, ⟨ch.next_wr_id, none⟩, false, scope, 1, 0, scope.isSome, false⟩]
            scopes := pushWork m.scopes scope m.handles.length }) := by
  unfold post
  cases hch : m.channels[c]? with
  | none => exact Or.inl ⟨rfl, rfl⟩
  | some ch =>
    refine Or.inr ⟨ch, rfl, ?_⟩
    rcases ch.unpolled_spec kind errno with ⟨e, hpost⟩ | hpost
    · left
      simp only [hpost]
    · right
      simp only [hpost]

theorem ledger_modify {m : Machine} {h : Nat} {f : Handle → Handle}
    (keeps : ∀ x, (f x).channel = x.channel ∧ (f x).work = x.work) :
    (m.modify h f).ledger = m.ledger := by
  have hworks : (m.handles.modify h f).map (fun x => (x.channel, x.work)) =
      m.handles.map (fun x => (x.channel, x.work)) :=
    map_modify_eq (fun x => by rw [(keeps x).1, (keeps x).2]) m.handles h
  simp only [ledger, modify, hworks]

theorem ledger_release (m : Machine) (h : Nat) (a : AutoPoll) :
    (m.release h a).ledger = m.ledger := by
  have hmodify := ledger_modify (m := m) (h := h)
    (f := fun x => { x with scopeRef := false, released := true }) (fun x => ⟨rfl, rfl⟩)
  rw [← hmodify]
  rfl

theorem ledger_pollWork {m m' : Machine} {h : Nat} {num_polled : Int} {r : Option TransportResult}
    (hpoll : m.pollWork h num_polled = some (r, m')) : Ledger.Step m.ledger m'.ledger := by
  obtain ⟨x, ch, w', cq', hx, hch, hp, rfl⟩ := pollWork_spec hpoll
  have hposted : m.ledger.works[h]? = some (x.channel, x.work) := by
    simp [ledger, hx]
  have hstep := Ledger.Step.polled hposted hch hp
  have hset : (m.handles.set h { x with work := w' }).map (fun x => (x.channel, x.work)) =
      m.ledger.works.set h (x.channel, w') := List.map_set
  simpa only [ledger, hset] using hstep

theorem ledger_polled_modify {m m' : Machine} {h : Nat} {num_polled : Int}
    {r : Option TransportResult} {f : Handle → Handle}
    (hpoll : m.pollWork h num_polled = some (r, m'))
    (keeps : ∀ x, (f x).channel = x.channel ∧ (f x).work = x.work) :
    Ledger.Step m.ledger (m'.modify h f).ledger := by
  rw [ledger_modify keeps]
  exact ledger_pollWork hpoll

/-- Scopes, flags and references do not matter for where completions are. -/
theorem step_ledger {m m' : Machine} {ev : Event} (h : m.step ev = some m') :
    Ledger.Step m.ledger m'.ledger := by
  cases step_spec h with
  | completed found completed => exact .completed found completed
  | @posted kind c scope errno _ _ =>
    rcases m.post_spec kind c scope errno with ⟨_, hpost⟩ | ⟨ch, hch, hpost | hpost⟩
    · rw [hpost]
      exact .unchanged
    · rw [hpost]
      exact .rejected hch
    · rw [hpost]
      have hstep := Ledger.Step.accepted (l := m.ledger) hch
      simpa only [ledger, List.map_append, List.map_cons, List.map_nil] using hstep
  | pollPending _ polled => exact ledger_pollWork polled
  | spinPending _ polled => exact ledger_pollWork polled
  | autoDropReady _ polled =>
    have hstep := ledger_pollWork polled
    exact hstep
  | pollReady _ polled => exact ledger_polled_modify polled (fun x => ⟨rfl, rfl⟩)
  | userSpinReady _ polled =>
    have hstep := ledger_polled_modify polled (f := userPolled) (fun x => ⟨rfl, rfl⟩)
    exact hstep
  | userDropReady _ polled =>
    have hstep := ledger_polled_modify polled (f := fun x => { x with released := true })
      (fun x => ⟨rfl, rfl⟩)
    exact hstep
  | autoSpinReady _ polled =>
    rw [ledger_release]
    exact ledger_pollWork polled
  | counted _ keeps =>
    rw [ledger_modify (fun x => by rw [keeps x]; exact ⟨rfl, rfl⟩)]
    exact .unchanged
  | @dropped k x _ _ _ =>
    have hmodify := ledger_modify (m := m) (h := k)
      (f := fun x => { x with held := x.held - 1 }) (fun x => ⟨rfl, rfl⟩)
    have hstep := Ledger.Step.unchanged (l := m.ledger)
    nth_rewrite 2 [← hmodify] at hstep
    exact hstep
  | skipped _ _ _ _ =>
    rw [ledger_release]
    exact .unchanged
  | spun _ | opened _ | closed _ _ | waiting _ _ | returned _ _ _ => exact .unchanged

end Machine

end IbverbsRs
