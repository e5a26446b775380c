import IbverbsRs.Channel.Registry
import IbverbsRs.Channel.ScopeSafety

namespace IbverbsRs

open Ibverbs Framework

/-- The error a request has failed with. -/
def errorOf : TransportResult → Option TransportError
  | .ok _ => none
  | .error e => some e

/-- Where `auto_poll` is: the handle it waits for, if any, and its local state. -/
def Control.autoPoll : Control → Option (List Nat × AutoPoll)
  | .auto a | .autoDrop _ a => some ([], a)
  | .autoSpin h a => some ([h], a)
  | .user | .userSpin _ | .userDrop _ => none

namespace Machine

/-- How a request has ended, once its completion has been retrieved. -/
def result (m : Machine) (h : Nat) : Option TransportResult :=
  (m.handles[h]?).bind (fun x => x.work.status.map intoTransport)

/-- The errors of the failed ones among some requests. -/
def failures (m : Machine) (hs : List Nat) : List TransportError :=
  hs.filterMap (fun h => (m.result h).bind errorOf)

def flags (m : Machine) : List Bool := m.handles.map Handle.user_polled_to_completion

/-- The requests the user has not polled to completion, as `auto_poll` sees it. -/
def unflagged (m : Machine) (hs : List Nat) : List Nat := hs.filter (fun h => !m.flags.getD h false)

/-- The innermost scope is ending: it has waited for the first of its requests. -/
structure Closing (m₀ : Machine) (s : PollingScope) (closure : ClosureEnd) (m : Machine)
    (waited current : List Nat) (a : AutoPoll) : Prop where
  control : m.control.autoPoll = some (current, a)
  flags : m.flags = m₀.flags
  closure : a.closure = closure
  order : s.wrs = waited ++ (current ++ a.rest)
  results : ∀ h ∈ waited, (m.result h).isSome
  unflagged : m₀.unflagged current = current
  auto_polled : a.auto_polled = !(m₀.unflagged (waited ++ current)).isEmpty
  errors : a.transport_errors = m.failures (m₀.unflagged waited)

theorem flags_pollWork {m m' : Machine} {h : Nat} {num_polled : Int} {r : Option TransportResult}
    (hpoll : m.pollWork h num_polled = some (r, m')) : m'.flags = m.flags := by
  obtain ⟨x, ch, w', cq', hx, hch, hp, rfl⟩ := pollWork_spec hpoll
  exact map_set_eq hx (f := Handle.user_polled_to_completion) (b := { x with work := w' }) rfl

theorem flags_release (m : Machine) (h : Nat) (a : AutoPoll) : (m.release h a).flags = m.flags :=
  map_modify_eq (f := Handle.user_polled_to_completion)
    (g := fun x => { x with scopeRef := false, released := true }) (fun _ => rfl) m.handles h

/-- No result is lost or changed. -/
def Retains (m m' : Machine) : Prop := ∀ h r, m.result h = some r → m'.result h = some r

theorem Retains.refl (m : Machine) : m.Retains m := fun _ _ h => h

theorem retains_pollWork {m m' : Machine} {h : Nat} {num_polled : Int}
    {r : Option TransportResult} (hpoll : m.pollWork h num_polled = some (r, m')) :
    m.Retains m' := by
  obtain ⟨x, ch, w', cq', hx, hch, hp, rfl⟩ := pollWork_spec hpoll
  intro k res hres
  have hlt := (List.getElem?_eq_some_iff.mp hx).1
  by_cases hk : h = k
  · subst hk
    simp only [result, hx, Option.bind_some, Option.map_eq_some_iff] at hres
    obtain ⟨status, hstatus, rfl⟩ := hres
    simp [result, List.getElem?_set_self hlt, hp.keeps hstatus]
  · simpa [result, List.getElem?_set_ne hk] using hres

theorem result_modify {m : Machine} {h : Nat} {f : Handle → Handle}
    (keeps : ∀ x, (f x).work = x.work) : (m.modify h f).result = m.result := by
  funext k
  simp only [result, modify, List.getElem?_modify]
  cases m.handles[k]? with
  | none => rfl
  | some x =>
    by_cases hk : h = k
    · simp [hk, keeps]
    · simp [hk]

theorem result_release (m : Machine) (h : Nat) (a : AutoPoll) : (m.release h a).result = m.result :=
  result_modify (m := m) (h := h) (f := fun x => { x with scopeRef := false, released := true })
    (fun _ => rfl)

/-- An answer that is not an error of the driver is the result of the request. -/
theorem result_pollWork {m m' : Machine} {h : Nat} {num_polled : Int} {r : TransportResult}
    (hpoll : m.pollWork h num_polled = some (some r, m'))
    (hok : ¬ (num_polled < 0 ∧ m.asksDriver h)) : m'.result h = some r := by
  obtain ⟨x, ch, w', cq', hx, hch, hp, rfl⟩ := pollWork_spec hpoll
  have hlt := (List.getElem?_eq_some_iff.mp hx).1
  cases hp with
  | known status => simp [result, List.getElem?_set_self hlt, status]
  | found status refill cached => simp [result, List.getElem?_set_self hlt]
  | failed status uncached negative => exact absurd ⟨negative, x, ch, hx, hch, status, uncached⟩ hok

theorem Retains.isSome {m m' : Machine} (hret : m.Retains m') {h : Nat}
    (hsome : (m.result h).isSome) : (m'.result h).isSome := by
  obtain ⟨r, hr⟩ := Option.isSome_iff_exists.mp hsome
  rw [hret h r hr]
  rfl

theorem Retains.failures {m m' : Machine} (hret : m.Retains m') {hs : List Nat}
    (hsome : ∀ h ∈ hs, (m.result h).isSome) : m'.failures hs = m.failures hs := by
  apply List.filterMap_congr
  intro h hmem
  obtain ⟨r, hr⟩ := Option.isSome_iff_exists.mp (hsome h hmem)
  rw [hret h r hr, hr]

theorem unflagged_append (m : Machine) (hs ks : List Nat) :
    m.unflagged (hs ++ ks) = m.unflagged hs ++ m.unflagged ks := List.filter_append _ _

theorem failures_append (m : Machine) (hs ks : List Nat) :
    m.failures (hs ++ ks) = m.failures hs ++ m.failures ks := List.filterMap_append

theorem unflagged_subset (m : Machine) (hs : List Nat) : m.unflagged hs ⊆ hs := by
  intro h hmem
  exact (List.mem_filter.mp hmem).1

theorem unflagged_flagged {m : Machine} {h : Nat} (hflag : m.flags.getD h false = true) :
    m.unflagged [h] = [] := by
  simp only [unflagged, List.filter_singleton, hflag]
  rfl

theorem unflagged_pending {m : Machine} {h : Nat} (hflag : m.flags.getD h false = false) :
    m.unflagged [h] = [h] := by
  simp only [unflagged, List.filter_singleton, hflag]
  rfl

theorem failures_singleton {m : Machine} {h : Nat} {r : TransportResult}
    (hresult : m.result h = some r) : m.failures [h] = (errorOf r).toList := by
  cases r with
  | ok success => simp [failures, hresult, errorOf]
  | error e => simp [failures, hresult, errorOf]

/-- Closing does not depend on what happens elsewhere. -/
theorem Closing.frame {m₀ m m' : Machine} {s : PollingScope} {closure : ClosureEnd}
    {waited current : List Nat} {a : AutoPoll} (hc : Closing m₀ s closure m waited current a)
    (hcontrol : m'.control.autoPoll = m.control.autoPoll) (hflags : m'.flags = m.flags)
    (hret : m.Retains m') : Closing m₀ s closure m' waited current a where
  control := hcontrol.trans hc.control
  flags := hflags.trans hc.flags
  closure := hc.closure
  order := hc.order
  results h hmem := hret.isSome (hc.results h hmem)
  unflagged := hc.unflagged
  auto_polled := hc.auto_polled
  errors := by
    rw [hc.errors]
    exact (hret.failures (fun h hmem => hc.results h (m₀.unflagged_subset waited hmem))).symm

theorem note_errors (a : AutoPoll) (r : TransportResult) :
    (a.note r).transport_errors = a.transport_errors ++ (errorOf r).toList := by
  cases r with
  | ok success => exact (List.append_nil _).symm
  | error e => rfl

theorem note_closure (a : AutoPoll) (r : TransportResult) : (a.note r).closure = a.closure := by
  cases r <;> rfl

theorem note_auto_polled (a : AutoPoll) (r : TransportResult) :
    (a.note r).auto_polled = a.auto_polled := by
  cases r <;> rfl

/-- The completion `auto_poll` spins for has arrived. -/
theorem Closing.arrived {m₀ m m' : Machine} {s : PollingScope} {closure : ClosureEnd}
    {waited : List Nat} {h : Nat} {a : AutoPoll} {r : TransportResult}
    (hc : Closing m₀ s closure m waited [h] a)
    (hcontrol : m'.control.autoPoll = some ([], a.note r)) (hflags : m'.flags = m.flags)
    (hret : m.Retains m') (hresult : m'.result h = some r) :
    Closing m₀ s closure m' (waited ++ [h]) [] (a.note r) where
  control := hcontrol
  flags := hflags.trans hc.flags
  closure := (note_closure a r).trans hc.closure
  order := by
    rw [hc.order, note_rest, List.nil_append, List.append_assoc]
  results k hk := by
    rcases List.mem_append.mp hk with hk | hk
    · exact hret.isSome (hc.results k hk)
    · rw [List.mem_singleton.mp hk, hresult]
      rfl
  unflagged := rfl
  auto_polled := by
    rw [note_auto_polled, hc.auto_polled, List.append_nil]
  errors := by
    have hold := hret.failures (fun k hk => hc.results k (m₀.unflagged_subset waited hk))
    rw [note_errors, hc.errors, unflagged_append, failures_append, hc.unflagged, hold]
    rw [failures_singleton hresult]

/-- The user has polled the next request to completion. -/
theorem Closing.skipped {m₀ m m' : Machine} {s : PollingScope} {closure : ClosureEnd}
    {waited rest : List Nat} {h : Nat} {a : AutoPoll} (hc : Closing m₀ s closure m waited [] a)
    (more : a.rest = h :: rest) (hflag : m.flags.getD h false = true)
    (hresult : (m.result h).isSome)
    (hcontrol : m'.control.autoPoll = some ([], { a with rest := rest }))
    (hflags : m'.flags = m.flags) (hret : m.Retains m') :
    Closing m₀ s closure m' (waited ++ [h]) [] { a with rest := rest } := by
  have hskip : m₀.unflagged (waited ++ [h]) = m₀.unflagged waited := by
    rw [unflagged_append, unflagged_flagged (by rwa [← hc.flags]), List.append_nil]
  have hold := hret.failures (fun k hk => hc.results k (m₀.unflagged_subset waited hk))
  refine ⟨hcontrol, hflags.trans hc.flags, hc.closure, ?_, ?_, rfl, ?_, ?_⟩
  · rw [hc.order, more, List.append_assoc]
    rfl
  · intro k hk
    rcases List.mem_append.mp hk with hk | hk
    · exact hret.isSome (hc.results k hk)
    · rw [List.mem_singleton.mp hk]
      exact hret.isSome hresult
  · rw [List.append_nil, hskip, hc.auto_polled, List.append_nil]
  · rw [hskip, hold]
    exact hc.errors

/-- The user has left the next request to `auto_poll`. -/
theorem Closing.waiting {m₀ m m' : Machine} {s : PollingScope} {closure : ClosureEnd}
    {waited rest : List Nat} {h : Nat} {a : AutoPoll} (hc : Closing m₀ s closure m waited [] a)
    (more : a.rest = h :: rest) (hflag : m.flags.getD h false = false)
    (hcontrol : m'.control.autoPoll = some ([h], { a with rest := rest, auto_polled := true }))
    (hflags : m'.flags = m.flags) (hret : m.Retains m') :
    Closing m₀ s closure m' waited [h] { a with rest := rest, auto_polled := true } := by
  have hpending : m₀.unflagged [h] = [h] := unflagged_pending (by rwa [← hc.flags])
  have hold := hret.failures (fun k hk => hc.results k (m₀.unflagged_subset waited hk))
  refine ⟨hcontrol, hflags.trans hc.flags, hc.closure, ?_, ?_, hpending, ?_, ?_⟩
  · rw [hc.order, more]
    rfl
  · exact fun k hk => hret.isSome (hc.results k hk)
  · rw [unflagged_append, hpending]
    simp
  · rw [hold]
    exact hc.errors

theorem release_autoPoll (m : Machine) (h : Nat) (a : AutoPoll) :
    (m.release h a).control.autoPoll = some ([], a) := by
  unfold release
  dsimp only
  split <;> rfl

/-- One round of the loop of `auto_poll`, or its end. -/
theorem next_spec {m m' : Machine} (h : m.next = some m') : ∃ a, m.control = .auto a ∧
    ((∃ h rest x, a.rest = h :: rest ∧ m.handles[h]? = some x ∧
        (x.user_polled_to_completion = true ∧ m' = m.release h { a with rest := rest } ∨
          x.user_polled_to_completion = false ∧
            m' = { m with control := .autoSpin h { a with rest := rest, auto_polled := true } })) ∨
      (a.rest = [] ∧ ∃ s scopes, m.scopes = s :: scopes ∧ m' = { m with
        scopes := scopes
        control := .user
        finished := m.finished ++
          [(s, if s.manual then PollingScope.run_manual a else PollingScope.run a)] })) := by
  unfold next at h
  split at h
  · rename_i a hc
    refine ⟨a, hc, ?_⟩
    split at h
    · rename_i k rest hrest
      split at h
      · cases h
      · rename_i x hx
        split_ifs at h with hflag
        · exact Or.inl ⟨k, rest, x, hrest, hx, Or.inl ⟨hflag, (Option.some.inj h).symm⟩⟩
        · exact Or.inl ⟨k, rest, x, hrest, hx,
            Or.inr ⟨eq_false_of_ne_true hflag, (Option.some.inj h).symm⟩⟩
    · rename_i hrest
      split at h
      · cases h
      · rename_i s scopes htop
        exact Or.inr ⟨hrest, s, scopes, htop, (Option.some.inj h).symm⟩
  · cases h

/-- While a scope is ending, the thread only goes on with `auto_poll`, until it returns. -/
theorem Closing.step {m₀ m m' : Machine} {s : PollingScope} {closure : ClosureEnd}
    {waited current : List Nat} {a : AutoPoll} {ev : Event}
    (hc : Closing m₀ s closure m waited current a) (hm : m.Honest) (hok : ¬ m.driverFails ev)
    (hstep : m.step ev = some m') :
    (∃ waited' current' a', Closing m₀ s closure m' waited' current' a' ∧ m'.scopes = m.scopes ∧
      m'.finished = m.finished) ∨
    (m.control = .auto a ∧ a.rest = [] ∧ ∃ s' scopes, m.scopes = s' :: scopes ∧ m' = { m with
      scopes := scopes
      control := .user
      finished := m.finished ++
        [(s', if s'.manual then PollingScope.run_manual a else PollingScope.run a)] }) := by
  have hbusy : m.control ≠ .user := by
    intro hidle
    have hcontrol := hc.control
    rw [hidle] at hcontrol
    cases hcontrol
  by_cases hnext : ev = .next
  · subst hnext
    have hcontrol := hc.control
    obtain ⟨a', hauto, ⟨h, rest, x, hrest, hx, hcase⟩ | ⟨hrest, hreturn⟩⟩ := next_spec hstep
    · rw [hauto] at hcontrol
      obtain ⟨rfl, rfl⟩ := Prod.mk.inj (Option.some.inj hcontrol)
      have hflag : m.flags.getD h false = x.user_polled_to_completion := by
        rw [Machine.flags, List.getD_eq_getElem?_getD, List.getElem?_map, hx]
        rfl
      left
      rcases hcase with ⟨hpolled, rfl⟩ | ⟨hpending, rfl⟩
      · have hsome : (m.result h).isSome := by
          simpa [result, hx] using hm h x hx (Or.inl hpolled)
        have hskipped := hc.skipped hrest (hflag.trans hpolled) hsome (release_autoPoll m h _)
          (flags_release m h _) (fun k r hr => by rwa [result_release])
        exact ⟨_, _, _, hskipped, rfl, rfl⟩
      · let a' := { a' with rest := rest, auto_polled := true }
        exact ⟨waited, [h], a', hc.waiting hrest (hflag.trans hpending) rfl rfl (Retains.refl m),
          rfl, rfl⟩
    · rw [hauto] at hcontrol
      obtain ⟨rfl, rfl⟩ := Prod.mk.inj (Option.some.inj hcontrol)
      exact Or.inr ⟨hauto, hrest, hreturn⟩
  · left
    cases step_spec hstep with
    | completed _ _ => exact ⟨_, _, _, hc.frame rfl rfl (Retains.refl m), rfl, rfl⟩
    | spinPending _ polled =>
      obtain ⟨hcontrol, hscopes, _, hfinished⟩ := pollWork_frame polled
      have hframe := hc.frame (by rw [hcontrol]) (flags_pollWork polled) (retains_pollWork polled)
      exact ⟨_, _, _, hframe, hscopes, hfinished⟩
    | @autoSpinReady h a' num_polled r m₁ spinning polled =>
      obtain ⟨_, hscopes, _, hfinished⟩ := pollWork_frame polled
      have hcontrol := hc.control
      rw [spinning] at hcontrol
      obtain ⟨rfl, rfl⟩ := Prod.mk.inj (Option.some.inj hcontrol)
      have hresult := result_pollWork polled
        (fun hfail => hok ⟨hfail.1, h, by rw [spinning]; rfl, hfail.2⟩)
      have harrived := hc.arrived (release_autoPoll m₁ h _)
        ((flags_release m₁ h _).trans (flags_pollWork polled))
        (fun k res hres => by rw [result_release]; exact retains_pollWork polled k res hres)
        (by rw [result_release]; exact hresult)
      exact ⟨_, _, _, harrived, hscopes, hfinished⟩
    | @autoDropReady h a' num_polled r m₁ spinning polled =>
      obtain ⟨_, hscopes, _, hfinished⟩ := pollWork_frame polled
      have hcontrol : (Control.auto a').autoPoll = m.control.autoPoll := by
        rw [spinning]
        rfl
      have hflags := flags_pollWork polled
      have hret := retains_pollWork polled
      exact ⟨_, _, _, hc.frame hcontrol hflags hret, hscopes, hfinished⟩
    | skipped _ _ _ _ | waiting _ _ | returned _ _ _ => exact absurd rfl hnext
    | posted idle _ | pollPending idle _ | pollReady idle _ | spun idle | counted idle _
    | dropped idle _ _ | opened idle | closed idle _ => exact absurd idle hbusy
    | userSpinReady spinning _ | userDropReady spinning _ =>
      have hcontrol := hc.control
      rw [spinning] at hcontrol
      cases hcontrol

theorem closing_begin (m₀ : Machine) (s : PollingScope) (closure : ClosureEnd) :
    Closing m₀ s closure { m₀ with control := .auto ⟨closure, s.wrs, false, []⟩ } [] []
      ⟨closure, s.wrs, false, []⟩ :=
  ⟨rfl, rfl, rfl, rfl, fun _ hmem => absurd hmem List.not_mem_nil, rfl, rfl, rfl⟩

theorem closeScope_spec {m m' : Machine} {closure : ClosureEnd}
    (h : m.step (.closeScope closure) = some m') : m.control = .user ∧
      ∃ s scopes, m.scopes = s :: scopes ∧
        m' = { m with control := .auto ⟨closure, s.wrs, false, []⟩ } := by
  simp only [step] at h
  split at h
  · cases h
  · rename_i s scopes htop
    split_ifs at h with hg
    exact ⟨hg.1, s, scopes, htop, (Option.some.inj h).symm⟩

/-- No scope returns twice, and none is forgotten. -/
theorem step_finished {m m' : Machine} {ev : Event} (h : m.step ev = some m') :
    m.finished <+: m'.finished := by
  have hpoll {k : Nat} {num_polled : Int} {r : Option TransportResult} {m₁ : Machine}
      (polled : m.pollWork k num_polled = some (r, m₁)) : m.finished <+: m₁.finished := by
    simp [(pollWork_frame polled).2.2.2]
  cases step_spec h with
  | completed _ _ | spun _ | counted _ _ | dropped _ _ _ | opened _ | closed _ _ | skipped _ _ _ _
  | waiting _ _ => exact List.prefix_rfl
  | @posted kind c scope errno _ _ =>
    rcases m.post_spec kind c scope errno with ⟨_, hpost⟩ | ⟨ch, hch, hpost | hpost⟩ <;> simp [hpost]
  | returned _ _ _ => exact List.prefix_append _ _
  | pollPending _ polled | spinPending _ polled => exact hpoll polled
  | pollReady _ polled | userSpinReady _ polled | userDropReady _ polled | autoSpinReady _ polled
  | autoDropReady _ polled =>
    have hprefix := hpoll polled
    exact hprefix

/-- From the end of its closure until a scope has returned, it is closing. -/
theorem closing_run {channels : List Channel} {m₀ m : Machine} {s : PollingScope}
    {scopes : List PollingScope} {closure : ClosureEnd} {es : List Event} (hm₀ : m₀.Tracked)
    (htop : m₀.scopes = s :: scopes) (hok : ∀ ev ∈ es, ev.reportsError = false)
    (hrun : (system channels).runFrom m₀ (.closeScope closure :: es) = some m)
    (hopen : s ∈ m.scopes) : m.Tracked ∧ ∃ waited current a,
      Closing m₀ s closure m waited current a ∧ m.scopes = s :: scopes := by
  obtain ⟨m₁, hclose, hrest⟩ := Option.bind_eq_some_iff.mp hrun
  have hok₁ : ¬ m₀.driverFails (.closeScope closure) := fun hfail => hfail
  have hm₁ := hm₀.step hok₁ hclose
  obtain ⟨_, s₁, scopes₁, htop₁, rfl⟩ := closeScope_spec hclose
  obtain ⟨rfl, rfl⟩ := List.cons.inj (htop₁.symm.trans htop)
  have hinv := (system channels).invariant_from (I := fun m => m.Tracked ∧
      ((∃ waited current a, Closing m₀ s₁ closure m waited current a ∧ m.scopes = s₁ :: scopes₁) ∨
        s₁.id ∈ m.finished.map (fun f => f.1.id))) ?_
    ⟨hm₁, Or.inl ⟨_, _, _, closing_begin m₀ s₁ closure, htop⟩⟩ hok hrest
  · obtain ⟨hm, hclosing | hfinished⟩ := hinv
    · exact ⟨hm, hclosing⟩
    · have hdisjoint := List.disjoint_of_nodup_append hm.named.nodup
      exact absurd hfinished (hdisjoint (List.mem_map_of_mem hopen))
  · rintro m ev m' hgood ⟨hm, hphase⟩ hstep
    have hok := not_driverFails hgood m
    refine ⟨hm.step hok hstep, ?_⟩
    rcases hphase with ⟨waited, current, a, hc, hscopes⟩ | hfinished
    · rcases hc.step hm.honest hok hstep with
        ⟨waited', current', a', hc', hscopes', _⟩ | ⟨_, _, s', scopes', htop', rfl⟩
      · exact Or.inl ⟨waited', current', a', hc', hscopes'.trans hscopes⟩
      · obtain ⟨rfl, rfl⟩ := List.cons.inj (htop'.symm.trans hscopes)
        right
        simp
    · right
      exact (List.map_subset _ (step_finished hstep).subset) hfinished

end Machine

end IbverbsRs
