import IbverbsRs.Framework.Ownership
import IbverbsRs.Ibverbs.Error

namespace IbverbsRs.Ibverbs

open Framework

inductive ObjectKind
  | Context
  | ProtectionDomain
  | CompletionQueue
  | QueuePair
  | MemoryRegion
  deriving DecidableEq, Repr

/-- The calls by which the driver makes an object, those that return one, and unmakes it. -/
inductive DriverCall
  | ibv_open_device (ctx : Nat)
  | ibv_alloc_pd (pd ctx : Nat)
  | ibv_create_cq (cq ctx : Nat)
  | ibv_create_qp (qp pd send_cq recv_cq : Nat)
  | ibv_reg_mr (mr pd : Nat)
  | ibv_close_device (ctx : Nat)
  | ibv_dealloc_pd (pd : Nat)
  | ibv_destroy_cq (cq : Nat)
  | ibv_destroy_qp (qp : Nat)
  | ibv_dereg_mr (mr : Nat)
  deriving DecidableEq, Repr

inductive DriverEffect
  | make (id : Nat) (parents : List Nat)
  | unmake (id : Nat)
  deriving DecidableEq, Repr

def DriverCall.effect : DriverCall → DriverEffect
  | ibv_open_device ctx => .make ctx []
  | ibv_alloc_pd pd ctx => .make pd [ctx]
  | ibv_create_cq cq ctx => .make cq [ctx]
  | ibv_create_qp qp pd send_cq recv_cq => .make qp [pd, send_cq, recv_cq]
  | ibv_reg_mr mr pd => .make mr [pd]
  | ibv_close_device ctx => .unmake ctx
  | ibv_dealloc_pd pd => .unmake pd
  | ibv_destroy_cq cq => .unmake cq
  | ibv_destroy_qp qp => .unmake qp
  | ibv_dereg_mr mr => .unmake mr

def DriverCall.unmade (call : DriverCall) : Option Nat :=
  match call.effect with
  | .make _ _ => none
  | .unmake id => some id

/-- The call in the `Drop` of the object. -/
def ObjectKind.unmake : ObjectKind → Nat → DriverCall
  | Context => .ibv_close_device
  | ProtectionDomain => .ibv_dealloc_pd
  | CompletionQueue => .ibv_destroy_cq
  | QueuePair => .ibv_destroy_qp
  | MemoryRegion => .ibv_dereg_mr

@[simp] theorem ObjectKind.effect_unmake (kind : ObjectKind) (id : Nat) :
    (kind.unmake id).effect = .unmake id := by
  cases kind <;> rfl

/-- What the driver has, each object with those it was made from. -/
abbrev Driver := List (Nat × List Nat)

/-- The rules of the verbs: an object is made from existing ones, and is unmade only while
nothing that was made from it is left. -/
def Driver.step (d : Driver) (call : DriverCall) : Option Driver :=
  match call.effect with
  | .make id parents =>
    if (∀ parent ∈ parents, parent ∈ d.map Prod.fst) ∧ id ∉ d.map Prod.fst then
      some (d ++ [(id, parents)])
    else none
  | .unmake id =>
    if id ∈ d.map Prod.fst ∧ ∀ x ∈ d, id ∉ x.2 then some (d.filter (fun x => x.1 ≠ id)) else none

def Driver.rules : TransitionSystem Driver DriverCall := ⟨[], Driver.step⟩

/-- The state of the port as `ibv_query_port` answers. -/
structure PortAnswer where
  errno : Nat
  state : UInt32
  lid : UInt16
  deriving DecidableEq, Repr

def IBV_PORT_ARMED : UInt32 := 3
def IBV_PORT_ACTIVE : UInt32 := 4

/-- `ContextInner::query_port`, as far as its callers read the attributes. -/
def query_port (port : PortAnswer) : Except IbvError UInt16 :=
  if port.errno ≠ 0 then .error (.from_errno_with_msg port.errno "Failed to query port")
  else if port.state = IBV_PORT_ACTIVE ∨ port.state = IBV_PORT_ARMED then .ok port.lid
  else .error (.Resource s!"Port is in state {port.state} (expected ACTIVE or ARMED)")

/-- The objects of the program with their owners, the driver calls so far, and the queue pairs that
no `QueuePair` was built for. -/
structure Resources where
  heap : Heap ObjectKind
  calls : List DriverCall
  leaked : List (Nat × List Nat)
  deriving DecidableEq, Repr

namespace Resources

def empty : Resources := ⟨.empty, [], []⟩

def make (r : Resources) (kind : ObjectKind) (call : Nat → DriverCall) (fields : List Nat) :
    Resources :=
  { r with heap := r.heap.create kind fields, calls := r.calls ++ [call r.heap.cells.length] }

/-- A new object of the driver's that nobody will unmake. -/
def leak (r : Resources) (kind : ObjectKind) (call : Nat → DriverCall) (parents : List Nat) :
    Resources :=
  { heap := r.heap.reserve kind
    calls := r.calls ++ [call r.heap.cells.length]
    leaked := r.leaked ++ [(r.heap.cells.length, parents)] }

def drop (r : Resources) (id : Nat) : Resources := { r with heap := r.heap.drop id }

/-- `errno` is what the driver sets when it returns a null pointer. A new object is named by the
next free number, which the result carries. -/
def Context.from_device (r : Resources) (errno : Option Nat) (port : PortAnswer) :
    Except IbvError Nat × Resources :=
  match errno with
  | some errno => (.error (.from_errno_with_msg errno "Failed to open device context"), r)
  | none =>
    let context := r.heap.cells.length
    let r := r.make .Context .ibv_open_device []
    match query_port port with
    | .error e => (.error e, r.drop context)
    | .ok _ => (.ok context, r)

def ProtectionDomain.allocate (r : Resources) (context : Nat) (errno : Option Nat) :
    Except IbvError Nat × Resources :=
  match errno with
  | some errno => (.error (.from_errno_with_msg errno "Failed to allocate protection domain"), r)
  | none =>
    (.ok r.heap.cells.length, r.make .ProtectionDomain (.ibv_alloc_pd · context) [context])

def CompletionQueue.create (r : Resources) (context : Nat) (min_capacity : UInt32)
    (errno : Option Nat) : Except IbvError Nat × Resources :=
  if 2147483647 < min_capacity.toNat then
    (.error (.InvalidInput "Completion queue min_cq_entries must fit in an i32"), r)
  else
    match errno with
    | some errno =>
      (.error (.from_errno_with_msg errno
        s!"Failed to create completion queue with size {min_capacity}"), r)
    | none =>
      (.ok r.heap.cells.length, r.make .CompletionQueue (.ibv_create_cq · context) [context])

/-- The port is queried after the driver has made the queue pair and before a `QueuePair` owns it:
if the query fails the queue pair is lost, and the domain and the queues have not been cloned. -/
def QueuePair.builder (r : Resources) (pd send_cq recv_cq : Nat) (errno : Option Nat)
    (port : PortAnswer) : Except IbvError Nat × Resources :=
  match errno with
  | some errno => (.error (.from_errno_with_msg errno "Failed to create queue pair"), r)
  | none =>
    let qp := r.heap.cells.length
    match query_port port with
    | .error e =>
      (.error e, r.leak .QueuePair (.ibv_create_qp · pd send_cq recv_cq) [pd, send_cq, recv_cq])
    | .ok _ =>
      (.ok qp, r.make .QueuePair (.ibv_create_qp · pd send_cq recv_cq) [pd, send_cq, recv_cq])

def MemoryRegion.register_mr_with_access (r : Resources) (pd : Nat) (errno : Option Nat) :
    Except IbvError Nat × Resources :=
  match errno with
  | some errno => (.error (.from_errno_with_msg errno "Failed to register memory region"), r)
  | none => (.ok r.heap.cells.length, r.make .MemoryRegion (.ibv_reg_mr · pd) [pd])

def kind (r : Resources) (id : Nat) : Option ObjectKind := (r.heap.cells[id]?).map Cell.value

/-- The object of the given type that a borrow leads to. -/
def borrow (r : Resources) (kind : ObjectKind) (p : Location) : Option Nat :=
  (r.heap.borrow p).filter (fun id => r.kind id = some kind)

/-- A piece of drop glue; a destructor calls the driver. -/
def run (r : Resources) (k : Nat) : Option Resources :=
  (r.heap.run k).map (fun heap =>
    match r.heap.glue[k]? with
    | some (.destroy id) =>
      { r with heap := heap, calls := r.calls ++ ((r.kind id).map (·.unmake id)).toList }
    | _ => { r with heap := heap })

end Resources

/-- What the threads of a program can do with its resources. `run` lets some thread get on with
dropping what it has started to drop. -/
inductive ResourceEvent
  | from_device (errno : Option Nat) (port : PortAnswer)
  | allocate (context : Location) (errno : Option Nat)
  | create_cq (context : Location) (min_capacity : UInt32) (errno : Option Nat)
  | build_qp (pd send_cq recv_cq : Location) (errno : Option Nat) (port : PortAnswer)
  | register_mr (pd : Location) (errno : Option Nat)
  | clone (kind : ObjectKind) (p : Location)
  | drop (id : Nat)
  | run (k : Nat)

/-- `?` returns from `QueuePair::builder` between `ibv_create_qp` and the `QueuePair`. -/
def ResourceEvent.leaks : ResourceEvent → Bool
  | .build_qp _ _ _ none port => (query_port port).toOption.isNone
  | _ => false

namespace Resources

/-- Only the types that derive `Clone` can be cloned, and only a handle in hand dropped. -/
def step (r : Resources) : ResourceEvent → Option Resources
  | .from_device errno port => some (Context.from_device r errno port).2
  | .allocate context errno =>
    (r.borrow .Context context).map (fun context => (ProtectionDomain.allocate r context errno).2)
  | .create_cq context min_capacity errno =>
    (r.borrow .Context context).map
      (fun context => (CompletionQueue.create r context min_capacity errno).2)
  | .build_qp pd send_cq recv_cq errno port => do
    let pd ← r.borrow .ProtectionDomain pd
    let send_cq ← r.borrow .CompletionQueue send_cq
    let recv_cq ← r.borrow .CompletionQueue recv_cq
    some (QueuePair.builder r pd send_cq recv_cq errno port).2
  | .register_mr pd errno =>
    (r.borrow .ProtectionDomain pd).map
      (fun pd => (MemoryRegion.register_mr_with_access r pd errno).2)
  | .clone kind p =>
    match kind with
    | .Context | .ProtectionDomain | .CompletionQueue =>
      (r.borrow kind p).map (fun id => { r with heap := r.heap.clone id })
    | .QueuePair | .MemoryRegion => none
  | .drop id => if id ∈ r.heap.handles then some (r.drop id) else none
  | .run k => r.run k

def system : TransitionSystem Resources ResourceEvent := ⟨empty, step⟩

end Resources

end IbverbsRs.Ibverbs
