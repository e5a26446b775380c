import IbverbsRs.Network.Barrier.SlotOwnership
import IbverbsRs.Network.Barrier.World

namespace IbverbsRs.Network

open Ibverbs Framework

/-- What a barrier keeps beside its flag array. -/
structure Calling where
  poisoned : Bool
  current : Option Running
  past : List Completed

/-- A notification on a channel, and whether the NIC has written it yet. -/
structure Posted where
  wr : PeerWriteWorkRequest
  written : Bool

/-- The nodes with their flag arrays as bytes, and for every ordered pair the requests that the
sender's NIC has not completed. -/
structure ByteWorld where
  memory : Nat → ByteMemory
  calling : Nat → Calling
  todo : Nat → List Call
  wire : Nat → Nat → List Posted

/-- `control` is what a node does without touching its array. The NIC may write a request several
times before it completes it; only the requests of a node whose barrier has failed can get lost. -/
inductive ByteEvent
  | enter (i : Nat)
  | advance (i : Nat)
  | control (i : Nat) (e : NodeEvent)
  | write (i j : Nat)
  | complete (i j : Nat)
  | lose (i j : Nat)

/-- Events inside a call other than the operations of its program. -/
def NodeEvent.isControl : NodeEvent → Bool
  | .ret | .refuse _ | .expire | .unwind => true
  | _ => false

namespace ByteWorld

def setMemory (w : ByteWorld) (i : Nat) (mem : ByteMemory) : ByteWorld :=
  { w with memory := Function.update w.memory i mem }

def setCalling (w : ByteWorld) (i : Nat) (calling : Calling) : ByteWorld :=
  { w with calling := Function.update w.calling i calling }

def setWire (w : ByteWorld) (i j : Nat) (queue : List Posted) : ByteWorld :=
  { w with wire := Function.update w.wire i (Function.update (w.wire i) j queue) }

section Code

variable (alg : BarrierAlgorithm) (world_size : Nat) (mrs : Nat → LinkedBarrierMr)

/-- The node as its own code sees it, with the counters it reads from its memory. -/
def node (w : ByteWorld) (i : Nat) : Node :=
  ⟨⟨alg, (mrs i).rank, (mrs i).view (w.memory i), (w.calling i).poisoned⟩, (w.calling i).current,
    (w.calling i).past⟩

/-- A step that leaves the memory alone. -/
def act (w : ByteWorld) (i : Nat) (e : NodeEvent) : Option ByteWorld :=
  ((w.node alg mrs i).step e).map
    (fun n => w.setCalling i ⟨n.barrier.poisoned, n.current, n.past⟩)

/-- The next operation of the call in progress, on the bytes of the array. -/
def advance (w : ByteWorld) (i : Nat) : Option ByteWorld :=
  match (w.calling i).current with
  | some ⟨call, executed, op :: rest⟩ =>
    let next := w.setCalling i
      { w.calling i with current := some ⟨call, executed ++ [op], rest⟩ }
    match op with
    | .increaseOut p => ((mrs i).increase_out_epoch (w.memory i) p).map (next.setMemory i)
    | .postWrite p =>
      ((mrs i).notification p).map (fun wr => next.setWire i p (w.wire i p ++ [⟨wr, false⟩]))
    | .awaitWrite p => if w.wire i p = [] then some next else none
    | .increaseExpected p =>
      ((mrs i).increase_peer_expected_epoch (w.memory i) p).map (next.setMemory i)
    | .spinPoll p =>
      if p < (mrs i).memory.length ∧
          (mrs i).get (w.memory i) p .in_epoch ≥ (mrs i).get (w.memory i) p .expected_in_epoch then
        some next
      else none
  | _ => none

/-- The eight bytes of a request, gathered at the sender and placed at the peer in one go. -/
def transfer (w : ByteWorld) (wr : PeerWriteWorkRequest) (i : Nat) (src : UInt64) : ByteWorld :=
  { w with memory := ((⟨w.memory, []⟩ : NotifyWorld).transfer wr i src 0 8).memory }

def step (w : ByteWorld) : ByteEvent → Option ByteWorld
  | .enter i =>
    if i < world_size then
      match w.todo i with
      | [] => none
      | call :: rest =>
        (w.act alg mrs i (.enter call)).map
          (fun w' => { w' with todo := Function.update w.todo i rest })
    else none
  | .advance i => if i < world_size then w.advance mrs i else none
  | .control i e => if i < world_size ∧ e.isControl then w.act alg mrs i e else none
  | .write i j =>
    match w.wire i j with
    | [] => none
    | ⟨wr, _⟩ :: rest =>
      (gathered_from wr.wr.gather_elements 0 8).map
        (fun src => (w.transfer wr i src).setWire i j (⟨wr, true⟩ :: rest))
  | .complete i j =>
    match w.wire i j with
    | ⟨_, true⟩ :: rest => some (w.setWire i j rest)
    | _ => none
  | .lose i j =>
    match w.wire i j with
    | [] => none
    | _ :: rest => if (w.calling i).poisoned then some (w.setWire i j rest) else none

def start (memory : Nat → ByteMemory) (calls : Nat → List Call) : ByteWorld where
  memory := memory
  calling _ := ⟨false, none, []⟩
  todo := calls
  wire _ _ := []

def system (memory : Nat → ByteMemory) (calls : Nat → List Call) :
    TransitionSystem ByteWorld ByteEvent := ⟨start memory calls, step alg world_size mrs⟩

end Code

end ByteWorld

end IbverbsRs.Network
