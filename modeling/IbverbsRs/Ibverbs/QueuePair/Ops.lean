import IbverbsRs.Framework.ByteOrder
import IbverbsRs.Framework.Results
import IbverbsRs.Framework.Segments
import IbverbsRs.Ibverbs.Error
import IbverbsRs.Ibverbs.Memory.ScatterGatherElement
import IbverbsRs.MultiChannel.WorkRequest

namespace IbverbsRs.Ibverbs

open Framework

structure SendWorkRequest where
  gather_elements : List GatherElement
  imm_data : Option UInt32
  deriving DecidableEq, Repr

structure ReceiveWorkRequest where
  scatter_elements : List ScatterElement
  deriving DecidableEq, Repr

structure ReadWorkRequest where
  scatter_elements : List ScatterElement
  remote_mr : RemoteMemoryRegion
  deriving DecidableEq, Repr

/-- `none` is the panic on a list of more than `i32::MAX` elements, here and below. -/
def SendWorkRequest.new (gather_elements : List GatherElement) : Option SendWorkRequest :=
  if gather_elements.length ≤ 2147483647 then some ⟨gather_elements, none⟩ else none

def SendWorkRequest.with_immediate (self : SendWorkRequest) (imm_data : UInt32) : SendWorkRequest :=
  { self with imm_data := some imm_data }

def SendWorkRequest.only_immediate (imm_data : UInt32) : SendWorkRequest := ⟨[], some imm_data⟩

def ReceiveWorkRequest.new (scatter_elements : List ScatterElement) : Option ReceiveWorkRequest :=
  if scatter_elements.length ≤ 2147483647 then some ⟨scatter_elements⟩ else none

def ReceiveWorkRequest.only_immediate : ReceiveWorkRequest := ⟨[]⟩

def WriteWorkRequest.with_immediate (self : WriteWorkRequest) (imm_data : UInt32) :
    WriteWorkRequest :=
  { self with imm_data := some imm_data }

def ReadWorkRequest.new (scatter_elements : List ScatterElement) (remote_mr : RemoteMemoryRegion) :
    Option ReadWorkRequest :=
  if scatter_elements.length ≤ 2147483647 then some ⟨scatter_elements, remote_mr⟩ else none

/-- The types that implement the trait `WorkRequest`. -/
inductive WorkRequest
  | Send (wr : SendWorkRequest)
  | Receive (wr : ReceiveWorkRequest)
  | Write (wr : WriteWorkRequest)
  | Read (wr : ReadWorkRequest)
  deriving DecidableEq, Repr

/-- `ibv_wr_opcode`, as far as it is used. -/
inductive IbvWrOpcode
  | IBV_WR_RDMA_WRITE
  | IBV_WR_RDMA_WRITE_WITH_IMM
  | IBV_WR_SEND
  | IBV_WR_SEND_WITH_IMM
  | IBV_WR_RDMA_READ
  deriving DecidableEq, Repr

def IBV_SEND_SIGNALED : UInt32 := 2

/-- `len() as i32`, which wraps around. -/
def as_i32 (len : Nat) : Int := (len : Int).bmod (2 ^ 32)

/-- `ibv_send_wr` without the fields that are always zero. The device reads `num_sge` elements
from `sg_list`, and `imm_data` as the four bytes it has in memory. -/
structure IbvSendWr where
  wr_id : UInt64
  sg_list : List IbvSge
  num_sge : Int
  opcode : IbvWrOpcode
  send_flags : UInt32
  remote_addr : UInt64
  rkey : UInt32
  imm_data : UInt32
  deriving DecidableEq, Repr

structure IbvRecvWr where
  wr_id : UInt64
  sg_list : List IbvSge
  num_sge : Int
  deriving DecidableEq, Repr

namespace QueuePair

/-- The driver takes the descriptor, or answers with an `errno`. -/
def post_send_wr (errno : Option Nat) (wr : IbvSendWr) : Except Nat IbvSendWr :=
  match errno with
  | some errno => .error errno
  | none => .ok wr

def post_receive_wr (errno : Option Nat) (wr : IbvRecvWr) : Except Nat IbvRecvWr :=
  match errno with
  | some errno => .error errno
  | none => .ok wr

def post_send (order : ByteOrder) (errno : Option Nat) (wr : SendWorkRequest) (wr_id : UInt64) :
    Except IbvError IbvSendWr :=
  let (opcode, imm_data) := match wr.imm_data with
    | none => (IbvWrOpcode.IBV_WR_SEND, 0)
    | some imm_data => (.IBV_WR_SEND_WITH_IMM, order.to_be imm_data)
  (post_send_wr errno {
    wr_id
    sg_list := wr.gather_elements.map GatherElement.sge
    num_sge := as_i32 wr.gather_elements.length
    opcode
    send_flags := IBV_SEND_SIGNALED
    remote_addr := 0
    rkey := 0
    imm_data }).mapError
      (fun errno => .from_errno_with_msg errno "Failed to post send work request")

def post_receive (errno : Option Nat) (wr : ReceiveWorkRequest) (wr_id : UInt64) :
    Except IbvError IbvRecvWr :=
  (post_receive_wr errno {
    wr_id
    sg_list := wr.scatter_elements.map ScatterElement.sge
    num_sge := as_i32 wr.scatter_elements.length }).mapError
      (fun errno => .from_errno_with_msg errno "Failed to post receive work request")

def post_write (order : ByteOrder) (errno : Option Nat) (wr : WriteWorkRequest) (wr_id : UInt64) :
    Except IbvError IbvSendWr :=
  let (opcode, imm_data) := match wr.imm_data with
    | none => (IbvWrOpcode.IBV_WR_RDMA_WRITE, 0)
    | some imm_data => (.IBV_WR_RDMA_WRITE_WITH_IMM, order.to_be imm_data)
  (post_send_wr errno {
    wr_id
    sg_list := wr.gather_elements.map GatherElement.sge
    num_sge := as_i32 wr.gather_elements.length
    opcode
    send_flags := IBV_SEND_SIGNALED
    remote_addr := wr.remote_mr.addr
    rkey := wr.remote_mr.rkey
    imm_data }).mapError
      (fun errno => .from_errno_with_msg errno "Failed to post write work request")

def post_read (errno : Option Nat) (wr : ReadWorkRequest) (wr_id : UInt64) :
    Except IbvError IbvSendWr :=
  (post_send_wr errno {
    wr_id
    sg_list := wr.scatter_elements.map ScatterElement.sge
    num_sge := as_i32 wr.scatter_elements.length
    opcode := .IBV_WR_RDMA_READ
    send_flags := IBV_SEND_SIGNALED
    remote_addr := wr.remote_mr.addr
    rkey := wr.remote_mr.rkey
    imm_data := 0 }).mapError
      (fun errno => .from_errno_with_msg errno "Failed to post read work request")

end QueuePair

/-- A descriptor that a device has taken. -/
inductive Posted
  | send (wr : IbvSendWr)
  | receive (wr : IbvRecvWr)
  deriving DecidableEq, Repr

/-- `QueuePair::post`, which selects the verb from the type of the request. -/
def QueuePair.post (order : ByteOrder) (errno : Option Nat) (wr : WorkRequest) (wr_id : UInt64) :
    Except IbvError Posted :=
  match wr with
  | .Send wr => (post_send order errno wr wr_id).map .send
  | .Receive wr => (post_receive errno wr wr_id).map .receive
  | .Write wr => (post_write order errno wr wr_id).map .send
  | .Read wr => (post_read errno wr wr_id).map .send

namespace Posted

def wr_id : Posted → UInt64
  | send wr => wr.wr_id
  | receive wr => wr.wr_id

/-- The elements as the device reads them. -/
def sges : Posted → List IbvSge
  | send wr => wr.sg_list.take wr.num_sge.toNat
  | receive wr => wr.sg_list.take wr.num_sge.toNat

/-- The device writes to the elements. -/
def scatters : Posted → Bool
  | send wr => wr.opcode = .IBV_WR_RDMA_READ
  | receive _ => true

end Posted

namespace WorkRequest

def sges : WorkRequest → List IbvSge
  | Send wr => wr.gather_elements.map GatherElement.sge
  | Receive wr => wr.scatter_elements.map ScatterElement.sge
  | Write wr => wr.gather_elements.map GatherElement.sge
  | Read wr => wr.scatter_elements.map ScatterElement.sge

def scatters : WorkRequest → Bool
  | Send _ | Write _ => false
  | Receive _ | Read _ => true

end WorkRequest

/-- A completion as the device writes it, in terms of the accessors of `ibv_wc`. -/
structure IbvWc where
  wr_id : UInt64
  error : Option (UInt32 × UInt32)
  imm_data : Option UInt32
  len : Nat
  deriving DecidableEq, Repr

def WorkCompletion.new (wc : IbvWc) : WorkCompletion where
  wr_id := wc.wr_id
  result := match wc.error with
    | some (error_code, vendor_code) => .error ⟨error_code, vendor_code⟩
    | none => .ok ⟨wc.imm_data, wc.len⟩

/-- `immediate_data()` on a machine of this byte order. -/
def WorkSuccess.immediate_data (order : ByteOrder) (self : WorkSuccess) : Option UInt32 :=
  self.imm_data.map order.from_be

/-- The cast of a length within the limit loses nothing. -/
theorem as_i32_of_le {len : Nat} (h : len ≤ 2147483647) : as_i32 len = len := by
  unfold as_i32
  exact Int.bmod_eq_of_le (by omega) (by omega)

theorem take_as_i32 {E : Type} {elements : List E} (sge : E → IbvSge)
    (h : elements.length ≤ 2147483647) :
    (elements.map sge).take (as_i32 elements.length).toNat = elements.map sge := by
  rw [as_i32_of_le h, Int.toNat_natCast]
  exact List.take_of_length_le (Nat.le_of_eq (List.length_map sge))

namespace WorkRequest

/-- What every constructor checks. -/
def InLimit : WorkRequest → Prop
  | Send wr => wr.gather_elements.length ≤ 2147483647
  | Receive wr => wr.scatter_elements.length ≤ 2147483647
  | Write wr => wr.gather_elements.length ≤ 2147483647
  | Read wr => wr.scatter_elements.length ≤ 2147483647

end WorkRequest

/-- Of a request within the limit the device reads exactly the elements, and it completes the
request under the id it was posted with. -/
theorem QueuePair.post_spec {order : ByteOrder} {errno : Option Nat} {wr : WorkRequest}
    {wr_id : UInt64} {posted : Posted} (hlimit : wr.InLimit)
    (h : QueuePair.post order errno wr wr_id = .ok posted) :
    posted.wr_id = wr_id ∧ posted.sges = wr.sges ∧ posted.scatters = wr.scatters := by
  cases errno with
  | some errno => cases wr <;> cases h
  | none =>
    cases wr with
    | Send wr =>
      have hsges := take_as_i32 GatherElement.sge hlimit
      obtain ⟨elements, imm_data⟩ := wr
      cases imm_data <;> cases h <;>
        exact ⟨rfl, by simpa only [Posted.sges, WorkRequest.sges] using hsges, rfl⟩
    | Receive wr =>
      have hsges := take_as_i32 ScatterElement.sge hlimit
      cases h
      exact ⟨rfl, by simpa only [Posted.sges, WorkRequest.sges] using hsges, rfl⟩
    | Write wr =>
      have hsges := take_as_i32 GatherElement.sge hlimit
      obtain ⟨elements, remote_mr, imm_data⟩ := wr
      cases imm_data <;> cases h <;>
        exact ⟨rfl, by simpa only [Posted.sges, WorkRequest.sges] using hsges, rfl⟩
    | Read wr =>
      have hsges := take_as_i32 ScatterElement.sge hlimit
      cases h
      exact ⟨rfl, by simpa only [Posted.sges, WorkRequest.sges] using hsges, rfl⟩

end IbverbsRs.Ibverbs
