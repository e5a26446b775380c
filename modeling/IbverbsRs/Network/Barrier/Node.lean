import IbverbsRs.Framework.TransitionSystem
import IbverbsRs.Network.Barrier.Call

namespace IbverbsRs.Network

open Framework SignalOp

inductive CallResult
  | ok
  | error (error : BarrierError)
  | panicked
  deriving DecidableEq, Repr

/-- A call that is over, with the operations it completed. -/
structure Completed where
  call : Call
  executed : List BarrierOp
  result : CallResult
  deriving DecidableEq, Repr

structure Running where
  call : Call
  executed : List BarrierOp
  rest : List BarrierOp
  deriving DecidableEq, Repr

/-- The owner of a barrier: at most one call is in progress (`&mut self`). -/
structure Node where
  barrier : Barrier
  current : Option Running
  past : List Completed
  deriving DecidableEq, Repr

/-- What can happen at a node. The environment decides whether a write is refused, when
the deadline passes and which values other nodes place in the incoming counters. -/
inductive NodeEvent
  | enter (call : Call)
  | advance
  | ret
  | refuse (error : TransportError)
  | expire
  | unwind
  | place (source value : Nat)

/-- An operation that succeeds. A spin ends here only when the counter has arrived. -/
def BarrierMr.perform (mr : BarrierMr) : BarrierOp → Option BarrierMr
  | .increaseOut p => mr.increase_out_epoch p
  | .postWrite p => (mr.out_epoch p).map (fun _ => mr)
  | .awaitWrite _ => some mr
  | .increaseExpected p => mr.increase_peer_expected_epoch p
  | .spinPoll p => if mr.is_peer_epoch_expected p = some true then some mr else none

namespace Node

def new (algorithm : BarrierAlgorithm) (rank world_size : Nat) : Node :=
  ⟨Barrier.new algorithm rank world_size, none, []⟩

def record (n : Node) (call : Call) (executed : List BarrierOp) (result : CallResult) : Node :=
  { n with current := none, past := n.past ++ [⟨call, executed, result⟩] }

/-- `if result.is_err() { self.poisoned = true; }` -/
def fail (n : Node) (call : Call) (executed : List BarrierOp) (e : BarrierError) : Node :=
  { n.record call executed (.error e) with barrier := { n.barrier with poisoned := true } }

def enter (n : Node) (call : Call) : Node :=
  match n.barrier.start call with
  | .refused e => n.record call [] (.error e)
  | .failed e => n.fail call [] e
  | .running ops => { n with current := some ⟨call, [], ops⟩ }

def step (n : Node) : NodeEvent → Option Node
  | .enter call => if n.current = none then some (n.enter call) else none
  | .advance =>
    match n.current with
    | some ⟨call, executed, op :: rest⟩ =>
      (n.barrier.barrier_mr.perform op).map (fun mr =>
        { n with
          barrier := { n.barrier with barrier_mr := mr }
          current := some ⟨call, executed ++ [op], rest⟩ })
    | _ => none
  | .ret =>
    match n.current with
    | some ⟨call, executed, []⟩ => some (n.record call executed .ok)
    | _ => none
  | .refuse e =>
    match n.current with
    | some ⟨call, executed, .postWrite _ :: _⟩ | some ⟨call, executed, .awaitWrite _ :: _⟩ =>
      some (n.fail call executed (.TransportError e))
    | _ => none
  | .expire =>
    match n.current with
    | some ⟨call, executed, .spinPoll p :: _⟩ =>
      if n.barrier.barrier_mr.is_peer_epoch_expected p = some false then
        some (n.fail call executed .Timeout)
      else none
    | _ => none
  | .unwind =>
    match n.current with
    | some ⟨call, executed, op :: _⟩ =>
      if op.peer < n.barrier.barrier_mr.memory.length then none
      else some (n.record call executed .panicked)
    | _ => none
  | .place source value =>
    (n.barrier.barrier_mr.place_in_epoch source value).map (fun mr =>
      { n with barrier := { n.barrier with barrier_mr := mr } })

def system (algorithm : BarrierAlgorithm) (rank world_size : Nat) :
    TransitionSystem Node NodeEvent := ⟨new algorithm rank world_size, step⟩

/-- Everything a step can do. -/
inductive Step (n : Node) : NodeEvent → Node → Prop
  | refused {call : Call} {e : BarrierError} (idle : n.current = none)
      (start : n.barrier.start call = .refused e) :
      Step n (.enter call) (n.record call [] (.error e))
  | failed {call : Call} {e : BarrierError} (idle : n.current = none)
      (start : n.barrier.start call = .failed e) : Step n (.enter call) (n.fail call [] e)
  | started {call : Call} {ops : List BarrierOp} (idle : n.current = none)
      (start : n.barrier.start call = .running ops) :
      Step n (.enter call) { n with current := some ⟨call, [], ops⟩ }
  | advanced {call : Call} {executed rest : List BarrierOp} {op : BarrierOp} {mr : BarrierMr}
      (busy : n.current = some ⟨call, executed, op :: rest⟩)
      (performed : n.barrier.barrier_mr.perform op = some mr) :
      Step n .advance
        { n with
          barrier := { n.barrier with barrier_mr := mr }
          current := some ⟨call, executed ++ [op], rest⟩ }
  | returned {call : Call} {executed : List BarrierOp}
      (busy : n.current = some ⟨call, executed, []⟩) : Step n .ret (n.record call executed .ok)
  | writeFailed {call : Call} {executed rest : List BarrierOp} {op : BarrierOp}
      {e : TransportError} (busy : n.current = some ⟨call, executed, op :: rest⟩) :
      Step n (.refuse e) (n.fail call executed (.TransportError e))
  | timedOut {call : Call} {executed rest : List BarrierOp} {op : BarrierOp}
      (busy : n.current = some ⟨call, executed, op :: rest⟩) :
      Step n .expire (n.fail call executed .Timeout)
  | unwound {call : Call} {executed rest : List BarrierOp} {op : BarrierOp}
      (busy : n.current = some ⟨call, executed, op :: rest⟩)
      (outside : ¬ op.peer < n.barrier.barrier_mr.memory.length) :
      Step n .unwind (n.record call executed .panicked)
  | placed {source value : Nat} {mr : BarrierMr}
      (performed : n.barrier.barrier_mr.place_in_epoch source value = some mr) :
      Step n (.place source value) { n with barrier := { n.barrier with barrier_mr := mr } }

theorem step_spec {n n' : Node} {e : NodeEvent} (h : n.step e = some n') : Step n e n' := by
  cases e with
  | enter call =>
    simp only [step] at h
    split_ifs at h with hidle
    obtain rfl := Option.some.inj h
    unfold Node.enter
    split
    · exact .refused hidle ‹_›
    · exact .failed hidle ‹_›
    · exact .started hidle ‹_›
  | advance =>
    simp only [step] at h
    split at h
    · obtain ⟨mr, hmr, rfl⟩ := Option.map_eq_some_iff.mp h
      exact .advanced ‹_› hmr
    · cases h
  | ret =>
    simp only [step] at h
    split at h
    · obtain rfl := Option.some.inj h
      exact .returned ‹_›
    · cases h
  | refuse e =>
    simp only [step] at h
    split at h
    · obtain rfl := Option.some.inj h
      exact .writeFailed ‹_›
    · obtain rfl := Option.some.inj h
      exact .writeFailed ‹_›
    · cases h
  | expire =>
    simp only [step] at h
    split at h
    · split_ifs at h
      obtain rfl := Option.some.inj h
      exact .timedOut ‹_›
    · cases h
  | unwind =>
    simp only [step] at h
    split at h
    · split_ifs at h with hp
      obtain rfl := Option.some.inj h
      exact .unwound ‹_› hp
    · cases h
  | place source value =>
    obtain ⟨mr, hmr, rfl⟩ := Option.map_eq_some_iff.mp h
    exact .placed hmr

end Node

end IbverbsRs.Network
