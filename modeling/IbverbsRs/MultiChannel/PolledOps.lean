import IbverbsRs.Channel.ScopeOutcome
import IbverbsRs.MultiChannel.Builder

namespace IbverbsRs

open Ibverbs Framework

variable {W : Type}

/-- A work request with the peer whose channel it goes to. -/
structure PeerRequest (W : Type) where
  peer : Nat
  wr : W

def PeerRequest.from_wr (peer : Nat) (wr : W) : PeerRequest W := ⟨peer, wr⟩

namespace Machine

/-- `MultiChannel::channel`, on the channels of the thread. -/
def channel (m : Machine) (peer : Nat) : Except IbvError Channel :=
  match m.channels[peer]? with
  | none => .error (.NotFound s!"Peer {peer} not found")
  | some channel => .ok channel

/-- What `channel_post_*` returns; its effect is `post`. -/
def channel_post (m : Machine) (kind : OpKind) (peer : Nat) (errno : Option Nat) :
    Except IbvError PendingWork := do
  let channel ← m.channel peer
  (channel.unpolled kind errno).1

end Machine

theorem MultiChannel.channel_eq (self : MultiChannel) (peer : Nat) :
    (self.channel peer).map ConnectedChannel.channel =
      (Machine.new (self.channels.map ConnectedChannel.channel)).channel peer := by
  unfold MultiChannel.channel Machine.channel Machine.new
  rw [List.getElem?_map]
  cases self.channels[peer]? <;> rfl

/-- What the closure of a blocking operation, and the operation itself, results in. -/
abbrev CallResult := Except TransportError (List WorkSuccess)

/-- Where a blocking operation is. Its closure posts the requests that are left, polls the
handles it has collected one after the other, and leaves, dropping the handles it still has. -/
inductive Phase (W : Type)
  | called
  | posting (todo : List (PeerRequest W)) (wrs : List Nat)
  | polling (wrs : List Nat) (outputs : List WorkSuccess)
  | spinning (wr : Nat) (wrs : List Nat) (outputs : List WorkSuccess)
  | polled (wr : Nat) (poll : TransportResult) (wrs : List Nat) (outputs : List WorkSuccess)
  | leaving (wrs : List Nat) (result : CallResult)
  | closing (result : CallResult)
  | returned (result : CallEnd Empty CallResult)

/-- A thread in a blocking operation, with the scope it has opened; `posted` records for the
specification the requests the driver has accepted. -/
structure Call (W : Type) where
  machine : Machine
  scope : Nat
  posted : List (PeerRequest W)
  phase : Phase W

/-- The device completes a request, or the thread makes its next step; `ibv_poll_cq` answers
`num_polled` if that step calls it. -/
inductive CallEvent
  | complete (c : Nat) (wc : WorkCompletion)
  | go (num_polled : Int)

namespace Call

/-- `manual_scope` with a closure that posts all requests under `?` and collects the results of
their `spin_poll`. The driver answers `answers i` to request `i`. -/
def go (kind : OpKind) (requests : List (PeerRequest W)) (answers : Nat → Option Nat)
    (self : Call W) (num_polled : Int) : Option (Call W) :=
  let m := self.machine
  match self.phase with
  | .called => (m.step (.openScope true)).map (fun m' =>
      { self with machine := m', scope := m.opened, phase := .posting requests [] })
  | .posting [] wrs => some { self with phase := .polling wrs [] }
  | .posting (request :: todo) wrs =>
    (m.step (.post kind request.peer (some self.scope) (answers wrs.length))).map (fun m' =>
      match m.channel_post kind request.peer (answers wrs.length) with
      | .error e => { self with machine := m', phase := .leaving wrs (.error (.IbvError e)) }
      | .ok _ => { self with
          machine := m'
          posted := self.posted ++ [request]
          phase := .posting todo (wrs ++ [m.handles.length]) })
  | .polling [] outputs => some { self with phase := .leaving [] (.ok outputs) }
  | .polling (wr :: wrs) outputs => (m.step (.spin wr)).map (fun m' =>
      { self with machine := m', phase := .spinning wr wrs outputs })
  | .spinning wr wrs outputs =>
    (m.pollWork wr num_polled).bind (fun (poll, _) =>
      (m.step (.iterate num_polled)).map (fun m' =>
        match poll with
        | none => { self with machine := m' }
        | some poll => { self with machine := m', phase := .polled wr poll wrs outputs }))
  | .polled wr poll wrs outputs => (m.step (.drop wr)).map (fun m' =>
      match poll with
      | .ok output => { self with machine := m', phase := .polling wrs (outputs ++ [output]) }
      | .error e => { self with machine := m', phase := .leaving wrs (.error e) })
  | .leaving (wr :: wrs) result => (m.step (.drop wr)).map (fun m' =>
      { self with machine := m', phase := .leaving wrs result })
  | .leaving [] result =>
    (m.step (.closeScope (.of (.ok result : Except Empty CallResult)))).map (fun m' =>
      { self with machine := m', phase := .closing result })
  | .closing result =>
    match m.control with
    | .auto a => (m.step .next).map (fun m' => { self with
        machine := m'
        phase :=
          if a.rest.isEmpty then .returned (PollingScope.run_manual_match (.ok result) a.result)
          else .closing result })
    | _ => (m.step (.iterate num_polled)).map (fun m' => { self with machine := m' })
  | .returned _ => none

def step (kind : OpKind) (requests : List (PeerRequest W)) (answers : Nat → Option Nat)
    (self : Call W) : CallEvent → Option (Call W)
  | .complete c wc =>
    (self.machine.step (.complete c wc)).map (fun m' => { self with machine := m' })
  | .go num_polled => self.go kind requests answers num_polled

end Call

/-- The five blocking operations differ only in the verb and in where their requests come
from. -/
def blocking (kind : OpKind) (requests : List (PeerRequest W)) (answers : Nat → Option Nat)
    (m₀ : Machine) : TransitionSystem (Call W) CallEvent :=
  ⟨⟨m₀, 0, [], .called⟩, Call.step kind requests answers⟩

namespace MultiChannel

def scatter_send (wrs : List (PeerRequest W)) := blocking .send wrs

def scatter_write (wrs : List (PeerRequest W)) := blocking .write wrs

def gather_receive (wrs : List (PeerRequest W)) := blocking .receive wrs

def gather_read (wrs : List (PeerRequest W)) := blocking .read wrs

def multicast_send (peers : List Nat) (wr : W) := blocking .send (peers.map (.from_wr · wr))

end MultiChannel

/-- A call of one of the blocking operations. -/
inductive BlockingOp (W : Type)
  | scatter_send (wrs : List (PeerRequest W))
  | scatter_write (wrs : List (PeerRequest W))
  | gather_receive (wrs : List (PeerRequest W))
  | gather_read (wrs : List (PeerRequest W))
  | multicast_send (peers : List Nat) (wr : W)

namespace BlockingOp

def call : BlockingOp W → (Nat → Option Nat) → Machine → TransitionSystem (Call W) CallEvent
  | .scatter_send wrs => MultiChannel.scatter_send wrs
  | .scatter_write wrs => MultiChannel.scatter_write wrs
  | .gather_receive wrs => MultiChannel.gather_receive wrs
  | .gather_read wrs => MultiChannel.gather_read wrs
  | .multicast_send peers wr => MultiChannel.multicast_send peers wr

def kind : BlockingOp W → OpKind
  | .scatter_send _ | .multicast_send _ _ => .send
  | .scatter_write _ => .write
  | .gather_receive _ => .receive
  | .gather_read _ => .read

def requests : BlockingOp W → List (PeerRequest W)
  | .scatter_send wrs | .scatter_write wrs | .gather_receive wrs | .gather_read wrs => wrs
  | .multicast_send peers wr => peers.map (.from_wr · wr)

theorem call_eq (op : BlockingOp W) : op.call = blocking op.kind op.requests := by
  cases op <;> rfl

end BlockingOp

end IbverbsRs
