import IbverbsRs.Channel.Spinning

namespace IbverbsRs

open Ibverbs Framework

variable {T E P : Type}

/-- What `scope` returns if the closure or a request nobody has polled fails. -/
inductive ScopeError (E : Type)
  | ClosureError (error : E)
  | AutoPollError (errors : List TransportError)
  deriving DecidableEq, Repr

/-- How a call ends: it returns, goes on with a panic it has caught, or panics itself. -/
inductive CallEnd (P α : Type)
  | returned (value : α)
  | resumed (panic : P)
  | panicked (msg : String)
  deriving DecidableEq, Repr

/-- The final `match` of `PollingScope::run`, with the values it moves. -/
def PollingScope.run_match (scope_result : Except P (Except E T))
    (auto_poll_result : Except (List TransportError) AutoPollSuccess) :
    CallEnd P (Except (ScopeError E) T) :=
  match scope_result with
  | .ok closure_result =>
    match closure_result with
    | .error closure_error => .returned (.error (.ClosureError closure_error))
    | .ok closure_output =>
      match auto_poll_result with
      | .ok _ => .returned (.ok closure_output)
      | .error error => .returned (.error (.AutoPollError error))
  | .error panic => .resumed panic

/-- The final `match` of `PollingScope::run_manual`, with the values it moves. -/
def PollingScope.run_manual_match (scope_result : Except P (Except E T))
    (auto_poll_result : Except (List TransportError) AutoPollSuccess) :
    CallEnd P (Except E T) :=
  match scope_result with
  | .ok closure_result =>
    match closure_result with
    | .error closure_error => .returned (.error closure_error)
    | .ok closure_output =>
      match auto_poll_result with
      | .ok .NoPendingWorks => .returned (.ok closure_output)
      | .ok .PendingWorksSucceeded | .error _ =>
        .panicked "Unpolled wrs in PollingScope::run_manual"
  | .error panic => .resumed panic

/-- The end of a closure without the values it carries. -/
def ClosureEnd.of : Except P (Except E T) → ClosureEnd
  | .ok (.ok _) => .ok
  | .ok (.error _) => .err
  | .error _ => .panic

def ScopeOutcome.ofRun : CallEnd P (Except (ScopeError E) T) → ScopeOutcome
  | .returned (.ok _) => .ok
  | .returned (.error (.ClosureError _)) => .closureError
  | .returned (.error (.AutoPollError errors)) => .autoPollError errors
  | .resumed _ => .resumedPanic
  | .panicked _ => .unpolledPanic

def ScopeOutcome.ofRunManual : CallEnd P (Except E T) → ScopeOutcome
  | .returned (.ok _) => .ok
  | .returned (.error _) => .closureError
  | .resumed _ => .resumedPanic
  | .panicked _ => .unpolledPanic

theorem PollingScope.run_eq (scope_result : Except P (Except E T)) {a : AutoPoll}
    (hclosure : a.closure = .of scope_result) :
    PollingScope.run a = .ofRun (PollingScope.run_match scope_result a.result) := by
  unfold PollingScope.run
  rw [hclosure]
  rcases scope_result with panic | (e | t)
  · rfl
  · rfl
  · cases a.result <;> rfl

theorem PollingScope.run_manual_eq (scope_result : Except P (Except E T)) {a : AutoPoll}
    (hclosure : a.closure = .of scope_result) :
    PollingScope.run_manual a = .ofRunManual (PollingScope.run_manual_match scope_result a.result) := by
  unfold PollingScope.run_manual
  rw [hclosure]
  rcases scope_result with panic | (e | t)
  · rfl
  · rfl
  · rcases a.result with errors | (_ | _) <;> rfl

namespace Machine

/-- The requests of a scope that no poll of the user has found completed, in posting order. -/
def unpolled (m : Machine) (s : PollingScope) : List Nat := s.wrs.filter (fun h => !m.answered h)

/-- While the closure of a scope runs, its flags tell which requests have been answered. -/
theorem unflagged_eq_unpolled {m : Machine} (hm : m.registry.Kept) (idle : m.control = .user)
    {s : PollingScope} (hs : s ∈ m.scopes) : m.unflagged s.wrs = m.unpolled s := by
  apply List.filter_congr
  intro h hmem
  have hrunning : s ∈ m.registry.running := by
    rw [Registry.running_of_idle (by change m.control.remaining = none; rw [idle]; rfl)]
    exact hs
  have hmark := (hm.members s hs h).mp hmem
  obtain ⟨y, hy, _⟩ := Option.map_eq_some_iff.mp ((List.getElem?_map ..).symm.trans hmark)
  have hagree := (hm.agree h y hy (hm.referenced s hrunning h hmem y hy)).2
  obtain ⟨x, hx, rfl⟩ := Option.map_eq_some_iff.mp ((List.getElem?_map ..).symm.trans hy)
  have hflag : m.flags.getD h false = x.user_polled_to_completion := by
    rw [flags, List.getD_eq_getElem?_getD, List.getElem?_map, hx]
    rfl
  rw [hflag]
  exact congrArg _ hagree

/-- What `auto_poll` answers, from the requests it has waited for and their errors. -/
theorem Closing.autoPoll_result {m₀ m : Machine} {s : PollingScope} {closure : ClosureEnd}
    {waited : List Nat} {a : AutoPoll} (hc : Closing m₀ s closure m waited [] a)
    (hrest : a.rest = []) : a.auto_polled = !(m₀.unflagged s.wrs).isEmpty ∧
      a.transport_errors = m.failures (m₀.unflagged s.wrs) ∧ ∀ h ∈ s.wrs, (m.result h).isSome := by
  have horder : s.wrs = waited := by
    rw [hc.order, hrest, List.append_nil, List.append_nil]
  rw [horder]
  have hpolled := hc.auto_polled
  rw [List.append_nil] at hpolled
  exact ⟨hpolled, hc.errors, hc.results⟩

theorem failures_eq_nil {m : Machine} {hs : List Nat} (hsome : ∀ h ∈ hs, (m.result h).isSome) :
    m.failures hs = [] ↔ ∀ h ∈ hs, ∃ success, m.result h = some (.ok success) := by
  rw [failures, List.filterMap_eq_nil_iff]
  refine forall₂_congr ?_
  intro h hmem
  obtain ⟨r, hr⟩ := Option.isSome_iff_exists.mp (hsome h hmem)
  rw [hr]
  cases r with
  | ok success => simp [errorOf]
  | error e => simp [errorOf]

theorem run_match_ok (t : T) {a : AutoPoll} {unpolled : List Nat} {failed : List TransportError}
    (hpolled : a.auto_polled = !unpolled.isEmpty) (herrors : a.transport_errors = failed)
    (hnone : unpolled = [] → failed = []) :
    PollingScope.run_match (E := E) (P := P) (.ok (.ok t)) a.result =
      if failed = [] then .returned (.ok t) else .returned (.error (.AutoPollError failed)) := by
  unfold AutoPoll.result
  rw [hpolled, herrors]
  cases unpolled with
  | nil =>
    rw [if_pos (hnone rfl)]
    rfl
  | cons h hs =>
    cases failed with
    | nil => rfl
    | cons e es => rfl

theorem run_manual_match_ok (t : T) {a : AutoPoll} {unpolled : List Nat}
    (hpolled : a.auto_polled = !unpolled.isEmpty) :
    PollingScope.run_manual_match (E := E) (P := P) (.ok (.ok t)) a.result =
      if unpolled = [] then .returned (.ok t)
      else .panicked "Unpolled wrs in PollingScope::run_manual" := by
  unfold AutoPoll.result
  rw [hpolled]
  cases unpolled with
  | nil => rfl
  | cons h hs =>
    cases a.transport_errors with
    | nil => rfl
    | cons e es => rfl

/-- Whatever the closure did, and however it ended, its scope comes to its end, and what it then
returns depends only on how the closure ended, on the requests the user has left unpolled, and on
how these have ended. -/
theorem scope_outcome (scope_result : Except P (Except E T)) {channels : List Channel}
    {pre mid : List Event} {m₀ m : Machine} {s : PollingScope} {scopes : List PollingScope}
    (hnew : ∀ ch ∈ channels, ∃ n, ch = Channel.new n)
    (hok : ∀ ev ∈ pre ++ mid, ev.reportsError = false)
    (hpre : (system channels).run pre = some m₀) (htop : m₀.scopes = s :: scopes)
    (hmid : (system channels).runFrom m₀ (.closeScope (.of scope_result) :: mid) = some m)
    (hopen : s ∈ m.scopes) :
    (m.Roomy → ∀ results, ∃ fin m' a, (∀ ev ∈ fin, ev.proceeds results) ∧
      (system channels).runFrom m fin = some m' ∧ s ∈ m'.scopes ∧ m'.control = .auto a ∧
      a.rest = []) ∧
    (∀ a, m.control = .auto a → a.rest = [] →
      let unpolled := m₀.unpolled s
      let failed := m.failures unpolled
      let run := PollingScope.run_match scope_result a.result
      let run_manual := PollingScope.run_manual_match scope_result a.result
      m.step .next = some { m with
        scopes := scopes
        control := .user
        finished := m.finished ++
          [(s, if s.manual then .ofRunManual run_manual else .ofRun run)] } ∧
      (∀ h, h ∈ s.wrs ↔ ∃ x, m.handles[h]? = some x ∧ x.scope = some s.id) ∧
      s.wrs.Pairwise (· < ·) ∧ (∀ h ∈ s.wrs, (m.result h).isSome) ∧
      (failed = [] ↔ ∀ h ∈ unpolled, ∃ success, m.result h = some (.ok success)) ∧
      (∀ panic, scope_result = .error panic →
        run = .resumed panic ∧ run_manual = .resumed panic) ∧
      (∀ e, scope_result = .ok (.error e) →
        run = .returned (.error (.ClosureError e)) ∧ run_manual = .returned (.error e)) ∧
      (∀ t, scope_result = .ok (.ok t) →
        run = (if failed = [] then .returned (.ok t)
          else .returned (.error (.AutoPollError failed))) ∧
        run_manual = if unpolled = [] then .returned (.ok t)
          else .panicked "Unpolled wrs in PollingScope::run_manual")) := by
  have hm₀ := tracked (along_of_no_error channels pre (fun ev hev => hok ev (by simp [hev]))) hpre
  obtain ⟨hm, waited, current, a', hc, hscopes⟩ := closing_run hm₀ htop
    (fun ev hev => hok ev (by simp [hev])) hmid hopen
  have hrun := run_append hpre hmid
  have hkept := kept hrun
  refine ⟨?_, ?_⟩
  · intro hroom results
    obtain ⟨fin, m', a, hfin, hreturn, hauto, hrest, hscopes'⟩ :=
      can_return results hnew hrun hroom (by rw [hc.control]; rfl)
    exact ⟨fin, m', a, hfin, hreturn, by rwa [hscopes'], hauto, hrest⟩
  · intro a hauto hrest unpolled failed run run_manual
    have hcontrol := hc.control
    rw [hauto] at hcontrol
    obtain ⟨rfl, rfl⟩ := Prod.mk.inj (Option.some.inj hcontrol)
    obtain ⟨hpolled, herrors, hresults⟩ := hc.autoPoll_result hrest
    have hidle : m₀.control = .user := by
      obtain ⟨m₁, hclose, _⟩ := Option.bind_eq_some_iff.mp hmid
      exact (closeScope_spec hclose).1
    have hunpolled : m₀.unflagged s.wrs = unpolled :=
      unflagged_eq_unpolled (kept hpre) hidle (by rw [htop]; exact List.mem_cons_self)
    rw [hunpolled] at hpolled herrors
    have hsub : ∀ h ∈ unpolled, (m.result h).isSome :=
      fun h hmem => hresults h (List.mem_filter.mp hmem).1
    have hnext : m.step .next = some { m with
        scopes := scopes
        control := .user
        finished := m.finished ++
          [(s, if s.manual then .ofRunManual run_manual else .ofRun run)] } := by
      change m.next = _
      simp only [next, hauto, hrest, hscopes, PollingScope.run_eq scope_result hc.closure,
        PollingScope.run_manual_eq scope_result hc.closure]
      rfl
    have hmembers : ∀ h, h ∈ s.wrs ↔ ∃ x, m.handles[h]? = some x ∧ x.scope = some s.id := by
      intro h
      rw [hkept.members s hopen h]
      simp [registry, Handle.mark]
    refine ⟨hnext, hmembers, hkept.ascending s hopen, hresults, failures_eq_nil hsub, ?_, ?_, ?_⟩
    · rintro panic rfl
      exact ⟨rfl, rfl⟩
    · rintro e rfl
      exact ⟨rfl, rfl⟩
    · rintro t rfl
      refine ⟨run_match_ok t hpolled herrors ?_, run_manual_match_ok t hpolled⟩
      intro hnone
      change m.failures unpolled = []
      rw [hnone]
      rfl

/-- Two failed requests, of which the user has polled the first: only the error of the second is
reported. -/
theorem scope_outcome_two : ∃ m a,
    (system [Channel.new 16]).run [.openScope false, .post .write 0 (some 0) none,
      .post .read 0 (some 0) none, .complete 0 ⟨1, .error ⟨9, 0⟩⟩, .complete 0 ⟨0, .error ⟨5, 0⟩⟩,
      .poll 0 2, .drop 0, .forget 1, .closeScope .ok, .next, .iterate 0, .next, .iterate 0] =
        some m ∧
    m.control = .auto a ∧
    PollingScope.run_match (.ok (.ok 7) : Except Unit (Except Unit Nat)) a.result =
      .returned (.error (.AutoPollError [.WorkError ⟨9, 0⟩])) := by
  obtain ⟨m₀, hpre, hrest⟩ := Option.bind_eq_some_iff.mp (show
    ((system [Channel.new 16]).run [.openScope false, .post .write 0 (some 0) none,
      .post .read 0 (some 0) none, .complete 0 ⟨1, .error ⟨9, 0⟩⟩, .complete 0 ⟨0, .error ⟨5, 0⟩⟩,
      .poll 0 2, .drop 0, .forget 1]).bind (fun m₀ => ((system [Channel.new 16]).runFrom m₀
        [.closeScope .ok, .next, .iterate 0, .next, .iterate 0]).map (fun m =>
          (m₀.scopes, m₀.unpolled ⟨0, false, [0, 1]⟩, m.scopes, m.control, m.failures [1]))) =
      some ([⟨0, false, [0, 1]⟩], [1], [⟨0, false, [0, 1]⟩],
        .auto ⟨.ok, [], true, [.WorkError ⟨9, 0⟩]⟩, [.WorkError ⟨9, 0⟩]) by rfl)
  obtain ⟨m, hmid, hsum⟩ := Option.map_eq_some_iff.mp hrest
  obtain ⟨hscopes₀, hunpolled, hscopes, hauto, hfailed⟩ := by simpa using hsum
  have hall := scope_outcome (.ok (.ok 7) : Except Unit (Except Unit Nat)) (by simp) (by decide)
    hpre hscopes₀ hmid (by simp [hscopes])
  have hok := ((hall.2 _ hauto rfl).2.2.2.2.2.2.2 7 rfl).1
  rw [hunpolled, hfailed] at hok
  exact ⟨m, _, run_append hpre hmid, hauto, hok⟩

end Machine

end IbverbsRs
