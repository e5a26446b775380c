import IbverbsRs.Channel.PendingWork
import IbverbsRs.Framework.TransitionSystem

namespace IbverbsRs

open Ibverbs Framework

/-- A posted request as its owner sees it. A `ScopedPendingWork` is shared: `held` clones
can still be dropped, `leaked` ones were forgotten, and its scope keeps one of its own. An
unpolled operation (`scope = none`) has a single owner. `released` records for the
specification that `Drop` or `auto_poll` no longer waits for the request. -/
structure Handle where
  channel : Nat
  work : PendingWork
  user_polled_to_completion : Bool
  scope : Option Nat
  held : Nat
  leaked : Nat
  scopeRef : Bool
  released : Bool

/-- An open `PollingScope`, with the handles it keeps in posting order. -/
structure PollingScope where
  id : Nat
  manual : Bool
  wrs : List Nat

/-- How the closure of a scope ends. -/
inductive ClosureEnd
  | ok
  | err
  | panic
  deriving DecidableEq, Repr

/-- The local state of `auto_poll`, with the way the closure has ended. -/
structure AutoPoll where
  closure : ClosureEnd
  rest : List Nat
  auto_polled : Bool
  transport_errors : List TransportError
  deriving DecidableEq, Repr

/-- What the thread is doing: running user code, spinning on a handle for the user or in
`Drop`, or ending the innermost scope. -/
inductive Control
  | user
  | userSpin (h : Nat)
  | userDrop (h : Nat)
  | auto (a : AutoPoll)
  | autoSpin (h : Nat) (a : AutoPoll)
  | autoDrop (h : Nat) (a : AutoPoll)
  deriving DecidableEq, Repr

/-- `if let Err(transport_error) = wr.wr.spin_poll() { transport_errors.push(..) }` -/
def AutoPoll.note (a : AutoPoll) : TransportResult → AutoPoll
  | .ok _ => a
  | .error e => { a with transport_errors := a.transport_errors ++ [e] }

/-- The handle a spin loop is polling. -/
def Control.spinning : Control → Option Nat
  | .userSpin h | .userDrop h | .autoSpin h _ | .autoDrop h _ => some h
  | .user | .auto _ => none

inductive AutoPollSuccess
  | NoPendingWorks
  | PendingWorksSucceeded

def AutoPoll.result (a : AutoPoll) : Except (List TransportError) AutoPollSuccess :=
  if !a.auto_polled then .ok .NoPendingWorks
  else if a.transport_errors.isEmpty then .ok .PendingWorksSucceeded
  else .error a.transport_errors

/-- What the caller of `scope` or `manual_scope` sees. -/
inductive ScopeOutcome
  | ok
  | closureError
  | autoPollError (errors : List TransportError)
  | unpolledPanic
  | resumedPanic
  deriving DecidableEq, Repr

/-- The final `match` of `PollingScope::run`. -/
def PollingScope.run (a : AutoPoll) : ScopeOutcome :=
  match a.closure, a.result with
  | .err, _ => .closureError
  | .ok, .ok _ => .ok
  | .ok, .error errors => .autoPollError errors
  | .panic, _ => .resumedPanic

/-- The final `match` of `PollingScope::run_manual`. -/
def PollingScope.run_manual (a : AutoPoll) : ScopeOutcome :=
  match a.closure, a.result with
  | .err, _ => .closureError
  | .ok, .ok .NoPendingWorks => .ok
  | .ok, .ok .PendingWorksSucceeded => .unpolledPanic
  | .ok, .error _ => .unpolledPanic
  | .panic, _ => .resumedPanic

/-- A thread with its channels, the handles of all requests ever posted, the open scopes
(innermost first), the scopes that have returned, and every answer of `PendingWork::poll`. -/
structure Machine where
  channels : List Channel
  handles : List Handle
  scopes : List PollingScope
  opened : Nat
  control : Control
  finished : List (PollingScope × ScopeOutcome)
  polls : List (Nat × Option TransportResult)

inductive Event
  | complete (c : Nat) (wc : WorkCompletion)
  | post (kind : OpKind) (c : Nat) (scope : Option Nat) (errno : Option Nat)
  | poll (h : Nat) (num_polled : Int)
  | spin (h : Nat)
  | clone (h : Nat)
  | drop (h : Nat)
  | forget (h : Nat)
  | openScope (manual : Bool)
  | closeScope (closure : ClosureEnd)
  | iterate (num_polled : Int)
  | next

namespace Machine

def new (channels : List Channel) : Machine := ⟨channels, [], [], 0, .user, [], []⟩

def modify (m : Machine) (h : Nat) (f : Handle → Handle) : Machine :=
  { m with handles := m.handles.modify h f }

/-- `PendingWork::poll` on a handle, through the queue of its own channel. -/
def pollWork (m : Machine) (h : Nat) (num_polled : Int) :
    Option (Option TransportResult × Machine) :=
  match m.handles[h]? with
  | none => none
  | some x =>
    match m.channels[x.channel]? with
    | none => none
    | some ch =>
      (x.work.poll ch.cq ch.poll_buff num_polled).map (fun (r, work, cq) =>
        (r, { m with
          channels := m.channels.set x.channel { ch with cq := cq }
          handles := m.handles.set h { x with work := work }
          polls := m.polls ++ [(h, r)] }))

/-- `wr.user_polled_to_completion = true`; an unpolled operation has no such flag. -/
def userPolled (x : Handle) : Handle :=
  { x with user_polled_to_completion := x.user_polled_to_completion || x.scope.isSome }

/-- The user still has a reference to the handle. -/
def usable (m : Machine) (h : Nat) : Bool :=
  (m.handles[h]?).any (fun x => decide (0 < x.held + x.leaked))

/-- `self.wrs.push(wr.clone())` in the open scope `id`, if there is one. -/
def pushWork (scopes : List PollingScope) (scope : Option Nat) (h : Nat) : List PollingScope :=
  scopes.map (fun s => if some s.id = scope then { s with wrs := s.wrs ++ [h] } else s)

/-- The common `channel_post_*` of an open scope, and with `scope = none` the `*_unpolled`
operations. A peer without a channel and a rejected request leave no handle. -/
def post (m : Machine) (kind : OpKind) (c : Nat) (scope : Option Nat) (errno : Option Nat) :
    Machine :=
  match m.channels[c]? with
  | none => m
  | some ch =>
    match ch.unpolled kind errno with
    | (.error _, ch) => { m with channels := m.channels.set c ch }
    | (.ok work, ch) => { m with
        channels := m.channels.set c ch
        handles := m.handles ++ [⟨c, work, false, scope, 1, 0, scope.isSome, false⟩]
        scopes := pushWork m.scopes scope m.handles.length }

/-- The end of one round of `auto_poll`: the scope's clone goes, and with it the last
reference unless a clone has been leaked. -/
def release (m : Machine) (h : Nat) (a : AutoPoll) : Machine :=
  let kept := m.usable h
  let m := m.modify h (fun x => { x with scopeRef := false, released := true })
  { m with control := if kept then .auto a else .autoDrop h a }

/-- One round of the loop in `spin_poll`. -/
def iterate (m : Machine) (num_polled : Int) : Option Machine :=
  match m.control with
  | .userSpin h => (m.pollWork h num_polled).map (fun
    | (none, m) => m
    | (some _, m) => { m.modify h userPolled with control := .user })
  | .userDrop h => (m.pollWork h num_polled).map (fun
    | (none, m) => m
    | (some _, m) => { m.modify h (fun x => { x with released := true }) with control := .user })
  | .autoSpin h a => (m.pollWork h num_polled).map (fun
    | (none, m) => m
    | (some r, m) => m.release h (a.note r))
  | .autoDrop h a => (m.pollWork h num_polled).map (fun
    | (none, m) => m
    | (some _, m) => { m with control := .auto a })
  | .user | .auto _ => none

/-- The loop of `auto_poll`, and its end. -/
def next (m : Machine) : Option Machine :=
  match m.control with
  | .auto a =>
    match a.rest with
    | h :: rest =>
      match m.handles[h]? with
      | none => none
      | some x =>
        if x.user_polled_to_completion then some (m.release h { a with rest := rest })
        else some { m with control := .autoSpin h { a with rest := rest, auto_polled := true } }
    | [] =>
      match m.scopes with
      | [] => none
      | s :: scopes => some { m with
          scopes := scopes
          control := .user
          finished := m.finished ++
            [(s, if s.manual then PollingScope.run_manual a else PollingScope.run a)] }
  | _ => none

/-- `drop` of a reference; the last one runs `Drop for PendingWork`. -/
def dropRef (m : Machine) (h : Nat) : Option Machine :=
  match m.handles[h]? with
  | none => none
  | some x =>
    if x.held = 0 then none
    else
      let m := m.modify h (fun x => { x with held := x.held - 1 })
      some (if x.held - 1 + x.leaked = 0 ∧ x.scopeRef = false then
        { m with control := .userDrop h } else m)

/-- User code runs only while nothing spins and no scope is ending. The device completes
requests at any time. -/
def step (m : Machine) : Event → Option Machine
  | .complete c wc =>
    match m.channels[c]? with
    | none => none
    | some ch => (ch.complete wc).map (fun ch => { m with channels := m.channels.set c ch })
  | .iterate num_polled => m.iterate num_polled
  | .next => m.next
  | .post kind c scope errno =>
    if m.control = .user ∧ scope.all (fun id => m.scopes.any (fun s => s.id == id)) then
      some (m.post kind c scope errno)
    else none
  | .poll h num_polled =>
    if m.control = .user ∧ m.usable h then
      (m.pollWork h num_polled).map (fun
        | (none, m) => m
        | (some _, m) => m.modify h userPolled)
    else none
  | .spin h =>
    if m.control = .user ∧ m.usable h then some { m with control := .userSpin h } else none
  | .clone h =>
    if m.control = .user ∧ m.usable h ∧ (m.handles[h]?).any (fun x => x.scope.isSome) then
      some (m.modify h (fun x => { x with held := x.held + 1 }))
    else none
  | .drop h => if m.control = .user then m.dropRef h else none
  | .forget h =>
    if m.control = .user ∧ (m.handles[h]?).any (fun x => decide (0 < x.held)) then
      some (m.modify h (fun x => { x with held := x.held - 1, leaked := x.leaked + 1 }))
    else none
  | .openScope manual =>
    if m.control = .user then
      some { m with scopes := ⟨m.opened, manual, []⟩ :: m.scopes, opened := m.opened + 1 }
    else none
  | .closeScope closure =>
    match m.scopes with
    | [] => none
    | s :: _ =>
      if m.control = .user ∧ s.wrs.all (fun h => (m.handles[h]?).all (fun x => x.held == 0)) then
        some { m with control := .auto ⟨closure, s.wrs, false, []⟩ }
      else none

def system (channels : List Channel) : TransitionSystem Machine Event := ⟨new channels, step⟩

/-- Everything a step can do. -/
inductive Step (m : Machine) : Event → Machine → Prop
  | completed {c : Nat} {ch ch' : Channel} {wc : WorkCompletion}
      (found : m.channels[c]? = some ch) (completed : ch.complete wc = some ch') :
      Step m (.complete c wc) { m with channels := m.channels.set c ch' }
  | posted {kind : OpKind} {c : Nat} {scope errno : Option Nat} (idle : m.control = .user)
      (isOpen : ∀ id, scope = some id → ∃ s ∈ m.scopes, s.id = id) :
      Step m (.post kind c scope errno) (m.post kind c scope errno)
  | pollPending {h : Nat} {num_polled : Int} {m' : Machine} (idle : m.control = .user)
      (polled : m.pollWork h num_polled = some (none, m')) : Step m (.poll h num_polled) m'
  | pollReady {h : Nat} {num_polled : Int} {r : TransportResult} {m' : Machine}
      (idle : m.control = .user) (polled : m.pollWork h num_polled = some (some r, m')) :
      Step m (.poll h num_polled) (m'.modify h userPolled)
  | spun {h : Nat} (idle : m.control = .user) :
      Step m (.spin h) { m with control := .userSpin h }
  | counted {ev : Event} {h : Nat} {f : Handle → Handle} (idle : m.control = .user)
      (keeps : ∀ x, f x = { x with held := (f x).held, leaked := (f x).leaked }) :
      Step m ev (m.modify h f)
  | dropped {h : Nat} {x : Handle} (idle : m.control = .user) (found : m.handles[h]? = some x)
      (last : x.scopeRef = false) : Step m (.drop h)
      { m.modify h (fun x => { x with held := x.held - 1 }) with control := .userDrop h }
  | opened {manual : Bool} (idle : m.control = .user) : Step m (.openScope manual)
      { m with scopes := ⟨m.opened, manual, []⟩ :: m.scopes, opened := m.opened + 1 }
  | closed {closure : ClosureEnd} {s : PollingScope} {scopes : List PollingScope}
      (idle : m.control = .user) (top : m.scopes = s :: scopes) :
      Step m (.closeScope closure) { m with control := .auto ⟨closure, s.wrs, false, []⟩ }
  | spinPending {h : Nat} {num_polled : Int} {m' : Machine}
      (spinning : m.control.spinning = some h)
      (polled : m.pollWork h num_polled = some (none, m')) : Step m (.iterate num_polled) m'
  | userSpinReady {h : Nat} {num_polled : Int} {r : TransportResult} {m' : Machine}
      (spinning : m.control = .userSpin h) (polled : m.pollWork h num_polled = some (some r, m')) :
      Step m (.iterate num_polled) { m'.modify h userPolled with control := .user }
  | userDropReady {h : Nat} {num_polled : Int} {r : TransportResult} {m' : Machine}
      (spinning : m.control = .userDrop h) (polled : m.pollWork h num_polled = some (some r, m')) :
      Step m (.iterate num_polled)
        { m'.modify h (fun x => { x with released := true }) with control := .user }
  | autoSpinReady {h : Nat} {a : AutoPoll} {num_polled : Int} {r : TransportResult} {m' : Machine}
      (spinning : m.control = .autoSpin h a)
      (polled : m.pollWork h num_polled = some (some r, m')) :
      Step m (.iterate num_polled) (m'.release h (a.note r))
  | autoDropReady {h : Nat} {a : AutoPoll} {num_polled : Int} {r : TransportResult} {m' : Machine}
      (spinning : m.control = .autoDrop h a)
      (polled : m.pollWork h num_polled = some (some r, m')) :
      Step m (.iterate num_polled) { m' with control := .auto a }
  | skipped {h : Nat} {rest : List Nat} {a : AutoPoll} {x : Handle} (ending : m.control = .auto a)
      (more : a.rest = h :: rest) (found : m.handles[h]? = some x)
      (done : x.user_polled_to_completion = true) :
      Step m .next (m.release h { a with rest := rest })
  | waiting {h : Nat} {rest : List Nat} {a : AutoPoll} (ending : m.control = .auto a)
      (more : a.rest = h :: rest) :
      Step m .next { m with control := .autoSpin h { a with rest := rest, auto_polled := true } }
  | returned {a : AutoPoll} {s : PollingScope} {scopes : List PollingScope}
      {outcome : ScopeOutcome} (ending : m.control = .auto a) (done : a.rest = [])
      (top : m.scopes = s :: scopes) :
      Step m .next { m with
        scopes := scopes
        control := .user
        finished := m.finished ++ [(s, outcome)] }

theorem step_spec {m m' : Machine} {ev : Event} (h : m.step ev = some m') : Step m ev m' := by
  cases ev with
  | complete c wc =>
    simp only [step] at h
    split at h
    · cases h
    · obtain ⟨ch', hch, rfl⟩ := Option.map_eq_some_iff.mp h
      exact .completed ‹_› hch
  | post kind c scope errno =>
    simp only [step] at h
    split_ifs at h with hg
    obtain rfl := Option.some.inj h
    refine .posted hg.1 (fun id hid => ?_)
    obtain ⟨s, hs, hsid⟩ : ∃ s ∈ m.scopes, s.id = id := by simpa [hid] using hg.2
    exact ⟨s, hs, hsid⟩
  | poll k num_polled =>
    simp only [step] at h
    split_ifs at h with hg
    obtain ⟨⟨r, m₁⟩, hp, rfl⟩ := Option.map_eq_some_iff.mp h
    cases r with
    | none => exact .pollPending hg.1 hp
    | some r => exact .pollReady hg.1 hp
  | spin k =>
    simp only [step] at h
    split_ifs at h with hg
    obtain rfl := Option.some.inj h
    exact .spun hg.1
  | clone k | forget k =>
    simp only [step] at h
    split_ifs at h with hg
    obtain rfl := Option.some.inj h
    exact .counted hg.1 (fun x => rfl)
  | drop k =>
    simp only [step, dropRef] at h
    split_ifs at h with hg
    split at h
    · cases h
    · split_ifs at h with hheld hlast
      · obtain rfl := Option.some.inj h
        exact .dropped hg ‹_› hlast.2
      · obtain rfl := Option.some.inj h
        exact .counted hg (fun x => rfl)
  | openScope manual =>
    simp only [step] at h
    split_ifs at h with hg
    obtain rfl := Option.some.inj h
    exact .opened hg
  | closeScope closure =>
    simp only [step] at h
    split at h
    · cases h
    · split_ifs at h with hg
      obtain rfl := Option.some.inj h
      exact .closed hg.1 ‹_›
  | iterate num_polled =>
    simp only [step, iterate] at h
    split at h
    · rename_i k hc
      obtain ⟨⟨r, m₁⟩, hp, rfl⟩ := Option.map_eq_some_iff.mp h
      cases r with
      | none => exact .spinPending (by rw [hc]; rfl) hp
      | some r => exact .userSpinReady hc hp
    · rename_i k hc
      obtain ⟨⟨r, m₁⟩, hp, rfl⟩ := Option.map_eq_some_iff.mp h
      cases r with
      | none => exact .spinPending (by rw [hc]; rfl) hp
      | some r => exact .userDropReady hc hp
    · rename_i k a hc
      obtain ⟨⟨r, m₁⟩, hp, rfl⟩ := Option.map_eq_some_iff.mp h
      cases r with
      | none => exact .spinPending (by rw [hc]; rfl) hp
      | some r => exact .autoSpinReady hc hp
    · rename_i k a hc
      obtain ⟨⟨r, m₁⟩, hp, rfl⟩ := Option.map_eq_some_iff.mp h
      cases r with
      | none => exact .spinPending (by rw [hc]; rfl) hp
      | some r => exact .autoDropReady hc hp
    · cases h
    · cases h
  | next =>
    simp only [step, next] at h
    split at h
    · rename_i a hc
      split at h
      · rename_i k rest hrest
        split at h
        · cases h
        · split_ifs at h with hdone
          · obtain rfl := Option.some.inj h
            exact .skipped hc hrest ‹_› hdone
          · obtain rfl := Option.some.inj h
            exact .waiting hc hrest
      · rename_i hrest
        split at h
        · cases h
        · obtain rfl := Option.some.inj h
          exact .returned hc hrest ‹_›
    · cases h

end Machine

end IbverbsRs
