import IbverbsRs.Framework.Loans
import IbverbsRs.Framework.TransitionSystem
import IbverbsRs.Ibverbs.Memory.Registration
import IbverbsRs.Ibverbs.QueuePair.Ops
import Mathlib.Data.Fintype.Basic

namespace IbverbsRs.Ibverbs

open Framework Segment Cells AccessFlags

/-- A slice as an element borrows it, with the registration that the element names. -/
structure Borrowed where
  registration : Nat
  mr : MemoryRegion
  data : Slice

instance : Extent Borrowed := ⟨fun borrowed => borrowed.data.segment⟩

namespace Borrowed

/-- The release build of `gather_element`, which is `gather_element_unchecked`; what
`gather_element_checked` returns is the same element. -/
def gather_element (self : Borrowed) : GatherElement := .new_unchecked self.mr self.data

def scatter_element (self : Borrowed) : ScatterElement := .new_unchecked self.mr self.data

def sge (self : Borrowed) : IbvSge := self.gather_element.sge

end Borrowed

/-- What a program asks for, apart from the elements. -/
inductive Verb
  | send (imm_data : Option UInt32)
  | receive
  | write (remote_mr : RemoteMemoryRegion) (imm_data : Option UInt32)
  | read (remote_mr : RemoteMemoryRegion)

inductive WorkQueue
  | send
  | receive
  deriving DecidableEq

instance : Fintype WorkQueue := ⟨{.send, .receive}, fun side => by cases side <;> decide⟩

namespace Verb

def scatters : Verb → Bool
  | send _ | write _ _ => false
  | receive | read _ => true

def queue : Verb → WorkQueue
  | receive => .receive
  | _ => .send

def request : Verb → List Borrowed → Option WorkRequest
  | send imm_data, elements =>
    (SendWorkRequest.new (elements.map Borrowed.gather_element)).map
      (fun wr => .Send (imm_data.elim wr wr.with_immediate))
  | receive, elements =>
    (ReceiveWorkRequest.new (elements.map Borrowed.scatter_element)).map .Receive
  | write remote_mr imm_data, elements =>
    (WriteWorkRequest.new (elements.map Borrowed.gather_element) remote_mr).map
      (fun wr => .Write (imm_data.elim wr wr.with_immediate))
  | read remote_mr, elements =>
    (ReadWorkRequest.new (elements.map Borrowed.scatter_element) remote_mr).map .Read

end Verb

/-- A request that a device has taken, with the names of the borrows its elements are made of. For
the specification, `held` is what the elements held when it was posted. -/
structure Request where
  wr : WorkRequest
  posted : Posted
  elements : List Nat
  held : List UInt8

namespace Request

def segments (self : Request) : List Segment := self.posted.sges.map IbvSge.segment

def scatters (self : Request) : Bool := self.posted.scatters

end Request

/-- A completed request. For the specification, `moved` is what the device has read from the
elements or written to them. -/
structure Finished where
  request : Request
  wc : IbvWc
  moved : List UInt8
  polled : Bool

/-- One of the two queues of a queue pair, with all requests ever posted to it. -/
structure Queue where
  finished : List Finished
  waiting : List Request

namespace Queue

def empty : Queue := ⟨[], []⟩

def requests (self : Queue) : List Request := self.finished.map Finished.request ++ self.waiting

/-- The requests whose `PendingWork` still waits for the completion. -/
def unpolled (self : Queue) : List Request :=
  (self.finished.filter (fun f => !f.polled)).map Finished.request ++ self.waiting

def append (self : Queue) (r : Request) : Queue := { self with waiting := self.waiting ++ [r] }

/-- The oldest request completes. -/
def finish (self : Queue) (wc : IbvWc) (moved : List UInt8) : Queue :=
  match self.waiting with
  | [] => self
  | r :: rest => ⟨self.finished ++ [⟨r, wc, moved, false⟩], rest⟩

def poll (self : Queue) (k : Nat) : Queue :=
  { self with finished := self.finished.modify k (fun f => { f with polled := true }) }

end Queue

/-- The queues of a host for one of its peers. -/
abbrev QueueId (N : Type) := N × N × WorkQueue

/-- The memory of a host, its registrations, all in the protection domain of its queue pairs, and the
borrows its programs have taken. -/
structure Host where
  memory : Nat → UInt8
  registrations : List Registration
  loans : Loans Borrowed

/-- Hosts with a queue pair to each other host, which lets the peer do what `access` says. -/
structure Fabric (N : Type) where
  access : N × N → AccessFlags
  hosts : N → Host
  queues : QueueId N → Queue
  broken : N × N → Bool

/-- Why a device writes to a byte: as a part of a request it has not completed, or of a peer's. -/
inductive DmaCause (N : Type)
  | element (b : N) (side : WorkQueue) (k : Nat)
  | remote (k : Nat)

inductive FabricEvent (N : Type)
  | register (a : N) (mr : MemoryRegion) (access_flags : AccessFlags)
  | deregister (a : N) (k : Nat)
  | borrow (a : N) (exclusive : Bool) (k : Nat) (data : Slice)
  | give_back (a : N) (i : Nat)
  | store (a : N) (x : Nat) (v : UInt8)
  | post (a b : N) (verb : Verb) (elements : List Nat) (wr_id : UInt64) (errno : Option Nat)
  | poll (a b : N) (side : WorkQueue) (k : Nat)
  | transfer (a b : N)
  | dma (a : N) (cause : DmaCause N) (x : Nat) (v : UInt8)
  | fail (a b : N) (side : WorkQueue) (status vendor_err : UInt32)

/-- `WorkErrorCode::LocalProtectionError` -/
def IBV_WC_LOC_PROT_ERR : UInt32 := 4

namespace Host

/-- The device's check of the elements it uses for `n` bytes. -/
def admitted (self : Host) (flag : UInt32) : List IbvSge → Nat → Bool
  | [], _ => true
  | sge :: sges, n => n == 0 || (self.registrations.any (·.admits flag sge) &&
      self.admitted flag sges (n - sge.length.toNat))

/-- The device's check of the target of a one-sided operation that comes in on a queue pair with
these flags. The key of an operation on no bytes is not looked at. -/
def reached (self : Host) (access : AccessFlags) (flag rkey : UInt32) (target : Segment) : Bool :=
  access.allows flag &&
    (target.length == 0 || self.registrations.any (·.reaches flag rkey target))

/-- The device admits `r` for `n` bytes, which go into its elements or come out of them. -/
def admits (self : Host) (r : Request) (n : Nat) : Bool :=
  self.admitted (if r.scatters then IBV_ACCESS_LOCAL_WRITE else 0) r.posted.sges n

/-- The elements are gathered into one stream of bytes. -/
def fetch (self : Host) (r : Request) : Option (List UInt8) :=
  if self.admits r (span r.segments) then some (gather self.memory r.segments) else none

/-- The stream fills one element after the other. -/
def fill (self : Host) (r : Request) (payload : List UInt8) : Option Host :=
  if payload.length ≤ span r.segments ∧ self.admits r payload.length then
    some { self with memory := scatter self.memory r.segments payload }
  else none

/-- A one-sided write, at the target. -/
def deposit (self : Host) (access : AccessFlags) (wr : IbvSendWr) (payload : List UInt8) :
    Option Host :=
  if self.reached access IBV_ACCESS_REMOTE_WRITE wr.rkey
      ⟨wr.remote_addr.toNat, payload.length⟩ then
    some { self with memory := write self.memory wr.remote_addr.toNat payload }
  else none

/-- A one-sided read of `n` bytes, at the source. -/
def extract (self : Host) (access : AccessFlags) (wr : IbvSendWr) (n : Nat) :
    Option (List UInt8) :=
  if self.reached access IBV_ACCESS_REMOTE_READ wr.rkey ⟨wr.remote_addr.toNat, n⟩ then
    some (read self.memory ⟨wr.remote_addr.toNat, n⟩)
  else none

def poke (self : Host) (x : Nat) (v : UInt8) : Host :=
  { self with memory := Function.update self.memory x v }

/-- The request that safe code can make of elements whose borrows have not ended. -/
def request (self : Host) (verb : Verb) (elements : List Nat) : Option WorkRequest := do
  let loans ← elements.mapM self.loans.lent
  if ∀ l ∈ loans, l.exclusive = verb.scatters then verb.request (loans.map Loan.borrowed) else none

def register (self : Host) (mr : MemoryRegion) (access_flags : AccessFlags) : Host :=
  { self with registrations := self.registrations ++ [.register_mr_with_access mr access_flags] }

/-- A region outlives the elements made with it. -/
def deregister (self : Host) (k : Nat) : Option Host :=
  if ∀ o ∈ self.loans, ∀ l ∈ o, l.borrowed.registration ≠ k then
    some { self with registrations :=
      self.registrations.modify k (fun registration => { registration with alive := false }) }
  else none

def borrow (self : Host) (exclusive : Bool) (k : Nat) (data : Slice) : Option Host := do
  let registration ← self.registrations[k]?
  let l : Loan Borrowed := ⟨exclusive, ⟨k, registration.mr, data⟩⟩
  if registration.alive ∧ self.loans.Grants l then
    some { self with loans := self.loans ++ [some l] }
  else none

def give_back (self : Host) (i : Nat) : Host := { self with loans := self.loans.set i none }

def store (self : Host) (x : Nat) (v : UInt8) : Option Host :=
  if self.loans.Free x then some (self.poke x v) else none

end Host

namespace Fabric

variable {N : Type} [DecidableEq N]

def setHost (w : Fabric N) (a : N) (host : Host) : Fabric N :=
  { w with hosts := Function.update w.hosts a host }

def setQueue (w : Fabric N) (id : QueueId N) (q : Queue) : Fabric N :=
  { w with queues := Function.update w.queues id q }

/-- The queue pair of `a` for `b` goes into the error state. -/
def disconnect (w : Fabric N) (a b : N) : Fabric N :=
  { w with broken := Function.update w.broken (a, b) true }

def finish (w : Fabric N) (id : QueueId N) (wc : IbvWc) (moved : List UInt8) : Fabric N :=
  w.setQueue id ((w.queues id).finish wc moved)

section Device

/-- The oldest receive request of `b` for `a` takes the stream and completes. -/
def arrive (w : Fabric N) (order : ByteOrder) (a b : N) (payload : List UInt8) (len : Nat)
    (imm_data : Option (List UInt8)) : Option (Fabric N) :=
  match (w.queues (b, a, .receive)).waiting with
  | [] => none
  | r :: _ => ((w.hosts b).fill r payload).map (fun host =>
      (w.setHost b host).finish (b, a, .receive)
        ⟨r.posted.wr_id, none, imm_data.map order.ofBytes, len⟩ payload)

/-- The bytes of the immediate data on the wire, as the sender has them in memory. -/
def immediate (order : ByteOrder) (wr : IbvSendWr) : Option (List UInt8) :=
  match wr.opcode with
  | .IBV_WR_SEND_WITH_IMM | .IBV_WR_RDMA_WRITE_WITH_IMM => some (order.toBytes wr.imm_data)
  | _ => none

/-- The devices carry out the oldest request of `a` for `b`. -/
def execute (order : N → ByteOrder) (w : Fabric N) (a b : N) (r : Request) (wr : IbvSendWr) :
    Option (Fabric N) :=
  let imm_data := immediate (order a) wr
  match wr.opcode with
  | .IBV_WR_SEND | .IBV_WR_SEND_WITH_IMM => do
    let payload ← (w.hosts a).fetch r
    let w ← w.arrive (order b) a b payload payload.length imm_data
    some (w.finish (a, b, .send) ⟨wr.wr_id, none, none, 0⟩ payload)
  | .IBV_WR_RDMA_WRITE => do
    let payload ← (w.hosts a).fetch r
    let host ← (w.hosts b).deposit (w.access (b, a)) wr payload
    some ((w.setHost b host).finish (a, b, .send) ⟨wr.wr_id, none, none, 0⟩ payload)
  | .IBV_WR_RDMA_WRITE_WITH_IMM => do
    let payload ← (w.hosts a).fetch r
    let host ← (w.hosts b).deposit (w.access (b, a)) wr payload
    let w ← (w.setHost b host).arrive (order b) a b [] payload.length imm_data
    some (w.finish (a, b, .send) ⟨wr.wr_id, none, none, 0⟩ payload)
  | .IBV_WR_RDMA_READ => do
    let payload ← (w.hosts b).extract (w.access (b, a)) wr (span r.segments)
    let host ← (w.hosts a).fill r payload
    some ((w.setHost a host).finish (a, b, .send) ⟨wr.wr_id, none, none, payload.length⟩ payload)

def transfer (order : N → ByteOrder) (w : Fabric N) (a b : N) : Option (Fabric N) :=
  if w.broken (a, b) || w.broken (b, a) then none
  else
    match (w.queues (a, b, .send)).waiting with
    | [] => none
    | r :: _ =>
      match r.posted with
      | .receive _ => none
      | .send wr => w.execute order a b r wr

/-- Where a device may write at any time, before the request that asks for it completes. -/
def Writes (w : Fabric N) (a : N) (x : Nat) : DmaCause N → Prop
  | .element b side k => ∃ r ∈ (w.queues (a, b, side)).waiting[k]?,
      r.scatters = true ∧ CoveredBy r.segments x
  | .remote k => ∃ registration ∈ (w.hosts a).registrations[k]?,
      registration.alive = true ∧ registration.exposes x

instance (w : Fabric N) (a : N) (x : Nat) : (cause : DmaCause N) → Decidable (w.Writes a x cause)
  | .element b side k => inferInstanceAs (Decidable (∃ r ∈ (w.queues (a, b, side)).waiting[k]?, _))
  | .remote k => inferInstanceAs (Decidable (∃ registration ∈ (w.hosts a).registrations[k]?, _))

/-- The oldest request completes with an error. A device reports a local protection error only when
its check has failed. -/
def fail (w : Fabric N) (a b : N) (side : WorkQueue) (status vendor_err : UInt32) :
    Option (Fabric N) :=
  match (w.queues (a, b, side)).waiting with
  | [] => none
  | r :: _ =>
    if status ≠ 0 ∧ (status = IBV_WC_LOC_PROT_ERR →
        (w.hosts a).admits r (span r.segments) = false) then
      some ((w.finish (a, b, side) ⟨r.posted.wr_id, some (status, vendor_err), none, 0⟩
        []).disconnect a b)
    else none

end Device

section Program

variable [Fintype N]

/-- The borrow of no `PendingWork` needs the element any more. -/
def Unused (w : Fabric N) (a : N) (i : Nat) : Prop :=
  ∀ b side, ∀ r ∈ (w.queues (a, b, side)).unpolled, i ∉ r.elements

instance (w : Fabric N) (a : N) (i : Nat) : Decidable (w.Unused a i) :=
  inferInstanceAs (Decidable (∀ b side, ∀ r ∈ (w.queues (a, b, side)).unpolled, i ∉ r.elements))

def Unposted (w : Fabric N) (a : N) (i : Nat) : Prop :=
  ∀ b side, ∀ r ∈ (w.queues (a, b, side)).requests, i ∉ r.elements

instance (w : Fabric N) (a : N) (i : Nat) : Decidable (w.Unposted a i) :=
  inferInstanceAs (Decidable (∀ b side, ∀ r ∈ (w.queues (a, b, side)).requests, i ∉ r.elements))

/-- A list of scatter elements holds each of them once, since they cannot be copied. With `once`,
they are not posted a second time either, which no type forbids. -/
def post (once : Bool) (order : N → ByteOrder) (w : Fabric N) (a b : N) (verb : Verb)
    (elements : List Nat) (wr_id : UInt64) (errno : Option Nat) : Option (Fabric N) := do
  let wr ← (w.hosts a).request verb elements
  if verb.scatters → elements.Nodup ∧ (once → ∀ i ∈ elements, w.Unposted a i) then
    match QueuePair.post (order a) errno wr wr_id with
    | .error _ => some w
    | .ok posted =>
      let held := gather (w.hosts a).memory (posted.sges.map IbvSge.segment)
      some (w.setQueue (a, b, verb.queue)
        ((w.queues (a, b, verb.queue)).append ⟨wr, posted, elements, held⟩))
  else none

/-- One step of a program, which the borrow checker has let through, or of a device. -/
def step (once : Bool) (order : N → ByteOrder) (w : Fabric N) : FabricEvent N → Option (Fabric N)
  | .register a mr access_flags => some (w.setHost a ((w.hosts a).register mr access_flags))
  | .deregister a k => ((w.hosts a).deregister k).map (w.setHost a)
  | .borrow a exclusive k data => ((w.hosts a).borrow exclusive k data).map (w.setHost a)
  | .give_back a i => if w.Unused a i then some (w.setHost a ((w.hosts a).give_back i)) else none
  | .store a x v => ((w.hosts a).store x v).map (w.setHost a)
  | .post a b verb elements wr_id errno => w.post once order a b verb elements wr_id errno
  | .poll a b side k => some (w.setQueue (a, b, side) ((w.queues (a, b, side)).poll k))
  | .transfer a b => w.transfer order a b
  | .dma a cause x v =>
    if w.Writes a x cause then some (w.setHost a ((w.hosts a).poke x v)) else none
  | .fail a b side status vendor_err => w.fail a b side status vendor_err

end Program

end Fabric

/-- No registrations, no borrows and no requests, over any memory. The queue pair of `a` for `b` is
built with the flags `access (a, b)`. -/
def fabric {N : Type} [DecidableEq N] [Fintype N] (once : Bool) (order : N → ByteOrder)
    (access : N × N → AccessFlags) (memory : N → Nat → UInt8) :
    TransitionSystem (Fabric N) (FabricEvent N) where
  init := ⟨access, fun a => ⟨memory a, [], []⟩, fun _ => Queue.empty, fun _ => false⟩
  step := Fabric.step once order

end IbverbsRs.Ibverbs
