import IbverbsRs.Channel.Ledger

namespace IbverbsRs

open Ibverbs Framework

/-- How a handle can change over one step in which `ibv_poll_cq` does not fail: it is taken
for finished only with a status or because it was so before, and a status never changes. -/
structure Handle.Evolves (x x' : Handle) : Prop where
  channel : x'.channel = x.channel
  scope : x'.scope = x.scope
  status : ∀ res, x.work.status = some res → x'.work.status = some res
  finished : x'.user_polled_to_completion = true ∨ x'.released = true →
    x.user_polled_to_completion = true ∨ x.released = true ∨ x'.work.status.isSome

namespace Machine

/-- `ibv_poll_cq` is called for the handle. -/
def asksDriver (m : Machine) (h : Nat) : Prop :=
  ∃ x ch, m.handles[h]? = some x ∧ m.channels[x.channel]? = some ch ∧ x.work.status = none ∧
    ch.cq.cache x.work.wr_id = none

/-- The event calls `ibv_poll_cq` and gets an error. -/
def driverFails (m : Machine) : Event → Prop
  | .poll h num_polled => num_polled < 0 ∧ m.asksDriver h
  | .iterate num_polled => num_polled < 0 ∧ ∃ h, m.control.spinning = some h ∧ m.asksDriver h
  | _ => False

def Evolves (m m' : Machine) : Prop :=
  ∀ (h : Nat) (x' : Handle), m'.handles[h]? = some x' →
    ∃ x : Handle, m.handles[h]? = some x ∧ x.Evolves x'

/-- The completion of the request has been retrieved. -/
def settled (m : Machine) (h : Nat) : Prop :=
  ∀ x : Handle, m.handles[h]? = some x → x.work.status.isSome

end Machine

theorem Handle.Evolves.counted (x : Handle) (held leaked : Nat) :
    x.Evolves { x with held := held, leaked := leaked } :=
  ⟨rfl, rfl, fun _ h => h, fun h => h.elim Or.inl (fun h => Or.inr (Or.inl h))⟩

theorem Handle.Evolves.refl (x : Handle) : x.Evolves x := .counted x x.held x.leaked

theorem Handle.Evolves.isSome {x x' : Handle} (h : x.Evolves x')
    (hx : x.work.status.isSome) : x'.work.status.isSome := by
  obtain ⟨res, hres⟩ := Option.isSome_iff_exists.mp hx
  rw [h.status res hres]
  rfl

theorem Handle.Evolves.trans {x y z : Handle} (hxy : x.Evolves y) (hyz : y.Evolves z) :
    x.Evolves z where
  channel := hyz.channel.trans hxy.channel
  scope := hyz.scope.trans hxy.scope
  status res hres := hyz.status res (hxy.status res hres)
  finished hz := by
    rcases hyz.finished hz with hy | hy | hsome
    · rcases hxy.finished (Or.inl hy) with hx | hx | hsome
      · exact Or.inl hx
      · exact Or.inr (Or.inl hx)
      · exact Or.inr (Or.inr (hyz.isSome hsome))
    · rcases hxy.finished (Or.inr hy) with hx | hx | hsome
      · exact Or.inl hx
      · exact Or.inr (Or.inl hx)
      · exact Or.inr (Or.inr (hyz.isSome hsome))
    · exact Or.inr (Or.inr hsome)

namespace Machine

theorem Evolves.refl (m : Machine) : m.Evolves m := fun _ x hx => ⟨x, hx, .refl x⟩

theorem Evolves.trans {m m₁ m₂ : Machine} (h₁ : m.Evolves m₁) (h₂ : m₁.Evolves m₂) :
    m.Evolves m₂ := by
  intro h z hz
  obtain ⟨y, hy, hyz⟩ := h₂ h z hz
  obtain ⟨x, hx, hxy⟩ := h₁ h y hy
  exact ⟨x, hx, hxy.trans hyz⟩

theorem Evolves.settled {m m' : Machine} (h : m.Evolves m') {k : Nat} (hk : m.settled k) :
    m'.settled k := by
  intro x' hx'
  obtain ⟨x, hx, hev⟩ := h k x' hx'
  exact hev.isSome (hk x hx)

theorem evolves_modify {m : Machine} {h : Nat} {f : Handle → Handle}
    (hf : ∀ x, m.handles[h]? = some x → x.Evolves (f x)) : m.Evolves (m.modify h f) := by
  intro k y hy
  rcases getElem?_modify_cases hy with ⟨rfl, x, hx, rfl⟩ | ⟨_, hold⟩
  · exact ⟨x, hx, hf x hx⟩
  · exact ⟨y, hold, .refl y⟩

/-- A settled handle may be taken for finished. -/
theorem evolves_finished {m : Machine} {h : Nat} {f : Handle → Handle} (hs : m.settled h)
    (hchannel : ∀ x, (f x).channel = x.channel) (hscope : ∀ x, (f x).scope = x.scope)
    (hwork : ∀ x, (f x).work = x.work) : m.Evolves (m.modify h f) := by
  apply evolves_modify
  intro x hx
  refine ⟨hchannel x, hscope x, ?_, ?_⟩
  · intro res hres
    rwa [hwork x]
  · intro _
    rw [hwork x]
    exact Or.inr (Or.inr (hs x hx))

theorem evolves_pollWork {m m' : Machine} {h : Nat} {num_polled : Int}
    {r : Option TransportResult} (hpoll : m.pollWork h num_polled = some (r, m')) :
    m.Evolves m' := by
  obtain ⟨x, ch, w', cq', hx, hch, hp, rfl⟩ := pollWork_spec hpoll
  intro k y hy
  rcases getElem?_set_cases hy with ⟨rfl, rfl⟩ | ⟨_, hold⟩
  · refine ⟨x, hx, rfl, rfl, fun res hres => hp.keeps hres, ?_⟩
    intro hfin
    exact hfin.elim Or.inl (fun h => Or.inr (Or.inl h))
  · exact ⟨y, hold, .refl y⟩

/-- An answer that is not an error of the driver has a status behind it. -/
theorem settled_pollWork {m m' : Machine} {h : Nat} {num_polled : Int} {r : TransportResult}
    (hpoll : m.pollWork h num_polled = some (some r, m'))
    (hok : ¬ (num_polled < 0 ∧ m.asksDriver h)) : m'.settled h := by
  obtain ⟨x, ch, w', cq', hx, hch, hp, rfl⟩ := pollWork_spec hpoll
  intro y hy
  have hlt := (List.getElem?_eq_some_iff.mp hx).1
  have hy' : { x with work := w' } = y := by simpa [List.getElem?_set_self hlt] using hy
  rw [← hy']
  cases hp with
  | known status => simp [status]
  | found status refill cached => rfl
  | failed status uncached negative => exact absurd ⟨negative, x, ch, hx, hch, status, uncached⟩ hok

theorem evolves_userPolled {m : Machine} {h : Nat} (hs : m.settled h) :
    m.Evolves (m.modify h userPolled) :=
  evolves_finished hs (fun _ => rfl) (fun _ => rfl) (fun _ => rfl)

theorem evolves_released {m : Machine} {h : Nat} (hs : m.settled h) :
    m.Evolves (m.modify h (fun x => { x with released := true })) :=
  evolves_finished hs (fun _ => rfl) (fun _ => rfl) (fun _ => rfl)

theorem evolves_release {m : Machine} {h : Nat} (hs : m.settled h) (a : AutoPoll) :
    m.Evolves (m.release h a) := by
  have hmodify : m.Evolves (m.modify h (fun x => { x with scopeRef := false, released := true })) :=
    evolves_finished hs (fun _ => rfl) (fun _ => rfl) (fun _ => rfl)
  exact hmodify

end Machine

end IbverbsRs
