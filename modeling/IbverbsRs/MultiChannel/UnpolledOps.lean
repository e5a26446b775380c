import IbverbsRs.MultiChannel.CallOutcome

namespace IbverbsRs

open Ibverbs Framework

variable {W : Type}

/-- Where an unpolled operation is. It posts the requests that are left and collects their
handles; if a request is refused, it drops the handles it has. -/
inductive UnpolledPhase (W : Type)
  | posting (todo : List (PeerRequest W)) (wrs : List Nat)
  | failing (wrs : List Nat) (error : IbvError)
  | returned (result : Except IbvError (List Nat))

/-- A thread in an unpolled operation. -/
structure UnpolledCall (W : Type) where
  machine : Machine
  phase : UnpolledPhase W

namespace UnpolledCall

/-- `wrs.into_iter().map(|wr| self.*_unpolled(wr)).collect()`. The driver answers `answers i` to
request `i`. -/
def go (kind : OpKind) (answers : Nat → Option Nat) (self : UnpolledCall W) (num_polled : Int) :
    Option (UnpolledCall W) :=
  let m := self.machine
  match self.phase with
  | .posting [] wrs => some { self with phase := .returned (.ok wrs) }
  | .posting (request :: todo) wrs =>
    (m.step (.post kind request.peer none (answers wrs.length))).map (fun m' =>
      match m.channel_post kind request.peer (answers wrs.length) with
      | .error e => ⟨m', .failing wrs e⟩
      | .ok _ => ⟨m', .posting todo (wrs ++ [m.handles.length])⟩)
  | .failing wrs e =>
    if m.control = .user then
      match wrs with
      | [] => some { self with phase := .returned (.error e) }
      | wr :: wrs => (m.step (.drop wr)).map (fun m' => ⟨m', .failing wrs e⟩)
    else (m.step (.iterate num_polled)).map (fun m' => ⟨m', .failing wrs e⟩)
  | .returned _ => none

def step (kind : OpKind) (answers : Nat → Option Nat) (self : UnpolledCall W) :
    CallEvent → Option (UnpolledCall W)
  | .complete c wc =>
    (self.machine.step (.complete c wc)).map (fun m' => { self with machine := m' })
  | .go num_polled => self.go kind answers num_polled

end UnpolledCall

/-- The five unpolled operations differ only in the verb and in where their requests come
from. -/
def unpolled (kind : OpKind) (requests : List (PeerRequest W)) (answers : Nat → Option Nat)
    (m₀ : Machine) : TransitionSystem (UnpolledCall W) CallEvent :=
  ⟨⟨m₀, .posting requests []⟩, UnpolledCall.step kind answers⟩

namespace MultiChannel

def scatter_send_unpolled (wrs : List (PeerRequest W)) := unpolled .send wrs

def scatter_write_unpolled (wrs : List (PeerRequest W)) := unpolled .write wrs

def gather_receive_unpolled (wrs : List (PeerRequest W)) := unpolled .receive wrs

def gather_read_unpolled (wrs : List (PeerRequest W)) := unpolled .read wrs

def multicast_send_unpolled (peers : List Nat) (wr : W) :=
  unpolled .send (peers.map (.from_wr · wr))

end MultiChannel

/-- A call of one of the unpolled operations. -/
inductive UnpolledOp (W : Type)
  | scatter_send_unpolled (wrs : List (PeerRequest W))
  | scatter_write_unpolled (wrs : List (PeerRequest W))
  | gather_receive_unpolled (wrs : List (PeerRequest W))
  | gather_read_unpolled (wrs : List (PeerRequest W))
  | multicast_send_unpolled (peers : List Nat) (wr : W)

namespace UnpolledOp

def call : UnpolledOp W → (Nat → Option Nat) → Machine →
    TransitionSystem (UnpolledCall W) CallEvent
  | .scatter_send_unpolled wrs => MultiChannel.scatter_send_unpolled wrs
  | .scatter_write_unpolled wrs => MultiChannel.scatter_write_unpolled wrs
  | .gather_receive_unpolled wrs => MultiChannel.gather_receive_unpolled wrs
  | .gather_read_unpolled wrs => MultiChannel.gather_read_unpolled wrs
  | .multicast_send_unpolled peers wr => MultiChannel.multicast_send_unpolled peers wr

def kind : UnpolledOp W → OpKind
  | .scatter_send_unpolled _ | .multicast_send_unpolled _ _ => .send
  | .scatter_write_unpolled _ => .write
  | .gather_receive_unpolled _ => .receive
  | .gather_read_unpolled _ => .read

def requests : UnpolledOp W → List (PeerRequest W)
  | .scatter_send_unpolled wrs | .scatter_write_unpolled wrs | .gather_receive_unpolled wrs
  | .gather_read_unpolled wrs => wrs
  | .multicast_send_unpolled peers wr => peers.map (.from_wr · wr)

theorem call_eq (op : UnpolledOp W) : op.call = unpolled op.kind op.requests := by
  cases op <;> rfl

end UnpolledOp

namespace Machine

/-- The user has the only reference to the handle. -/
def Sole (m : Machine) (h : Nat) : Prop :=
  ∃ x, m.handles[h]? = some x ∧ x.held = 1 ∧ x.leaked = 0 ∧ x.scopeRef = false

variable {m m' : Machine}

theorem Sole.congr {h : Nat} (hs : m.Sole h) (hsame : m'.handles[h]? = m.handles[h]?) :
    m'.Sole h := by
  unfold Sole
  rwa [hsame]

theorem usable_eq (m : Machine) (h : Nat) :
    m.usable h = (m.refs h).any (fun n => decide (0 < n.1 + n.2)) := by
  unfold usable refs
  rw [Option.any_map]

theorem polls_complete {c : Nat} {wc : WorkCompletion} (h : m.step (.complete c wc) = some m') :
    m'.polls = m.polls := by
  simp only [step] at h
  split at h
  · cases h
  · obtain ⟨_, _, rfl⟩ := Option.map_eq_some_iff.mp h
    rfl

theorem pushWork_none (scopes : List PollingScope) (h : Nat) :
    pushWork scopes none h = scopes := by
  unfold pushWork
  conv_rhs => rw [← List.map_id scopes]
  apply List.map_congr_left
  intro s _
  exact if_neg (Option.some_ne_none _)

/-- A request that is accepted gets a handle of its own. -/
theorem post_fresh {kind : OpKind} {peer : Nat} {errno : Option Nat}
    (haccepted : m.refusal kind peer errno = none) :
    ∃ wr_id channels, m.channel_post kind peer errno = .ok (.new wr_id) ∧
      m.post kind peer none errno = { m with
        channels := channels
        handles := m.handles ++ [⟨peer, .new wr_id, false, none, 1, 0, false, false⟩] } := by
  unfold refusal at haccepted
  unfold channel_post channel post
  cases hch : m.channels[peer]? with
  | none =>
    rw [hch] at haccepted
    cases haccepted
  | some ch =>
    rw [hch] at haccepted
    obtain rfl := Option.map_eq_none_iff.mp haccepted
    simp only [Channel.unpolled_eq, pushWork_none]
    exact ⟨_, _, rfl, rfl⟩

/-- The last reference goes, and `Drop` waits for the request. -/
theorem drop_sole {h : Nat} (hs : m.Sole h) (idle : m.control = .user) :
    ∃ m', m.step (.drop h) = some m' ∧ m'.control = .userDrop h ∧ m.Alike m' ∧
      m'.usable h = false ∧ ∀ k, k ≠ h → m'.handles[k]? = m.handles[k]? := by
  obtain ⟨x, hx, hheld, hleaked, hscope⟩ := hs
  have hstep : m.step (.drop h) =
      some { m.modify h (fun x => { x with held := x.held - 1 }) with control := .userDrop h } := by
    simp only [step, if_pos idle, dropRef, hx, hheld, hleaked, hscope]
    rfl
  have hmodify : m.Alike (m.modify h (fun x => { x with held := x.held - 1 })) :=
    alike_modify (fun _ => rfl) (fun _ => rfl) (fun _ hflag => hflag)
  refine ⟨_, hstep, rfl, hmodify.trans (alike_control _ _), ?_, ?_⟩
  · simp [usable, modify, hx, hheld, hleaked]
  · intro k hk
    simp [modify, Ne.symm hk]

theorem handles_pollWork {h : Nat} {num_polled : Int} {r : Option TransportResult}
    (hpoll : m.pollWork h num_polled = some (r, m')) {k : Nat} (hk : k ≠ h) :
    m'.handles[k]? = m.handles[k]? := by
  obtain ⟨x, ch, w', cq', _, _, _, rfl⟩ := pollWork_spec hpoll
  exact List.getElem?_set_ne (Ne.symm hk)

/-- One round of the spin loop in `Drop`. -/
theorem userDrop_step {h : Nat} {num_polled : Int} (dropping : m.control = .userDrop h)
    (hgood : 0 ≤ num_polled) (hstep : m.step (.iterate num_polled) = some m') :
    m.Alike m' ∧ m'.usable h = m.usable h ∧ (∀ k, k ≠ h → m'.handles[k]? = m.handles[k]?) ∧
      (m'.control = .userDrop h ∨ m'.control = .user ∧ (m'.result h).isSome) := by
  have halike := alike_iterate hstep
  have hround : m.iterate num_polled = some m' := hstep
  simp only [iterate, dropping] at hround
  obtain ⟨⟨poll, m₁⟩, hpoll, heq⟩ := Option.map_eq_some_iff.mp hround
  have hrefs := (alike_pollWork hpoll).2
  cases poll with
  | none =>
    obtain rfl : m₁ = m' := heq
    refine ⟨halike, ?_, fun k hk => handles_pollWork hpoll hk, Or.inl ?_⟩
    · rw [usable_eq, hrefs, ← usable_eq]
    · exact (pollWork_frame hpoll).1.trans dropping
  | some r =>
    obtain rfl := heq
    refine ⟨halike, ?_, ?_, Or.inr ⟨rfl, ?_⟩⟩
    · have hsame : ({ m₁.modify h (fun x => { x with released := true }) with
          control := .user } : Machine).refs h = m₁.refs h := by
        simp only [refs, modify, List.getElem?_modify]
        cases m₁.handles[h]? with
        | none => rfl
        | some x => simp
      rw [usable_eq, hsame, hrefs, ← usable_eq]
    · intro k hk
      simp [modify, Ne.symm hk, handles_pollWork hpoll hk]
    · have hresult := result_pollWork hpoll (fun hfail => Int.not_lt.mpr hgood hfail.1)
      have hkeep : (m₁.modify h (fun x => { x with released := true })).result = m₁.result :=
        result_modify (fun _ => rfl)
      have hsome : (m₁.modify h (fun x => { x with released := true })).result h = some r := by
        rw [hkeep, hresult]
      exact Option.isSome_iff_exists.mpr ⟨r, hsome⟩

end Machine

end IbverbsRs
