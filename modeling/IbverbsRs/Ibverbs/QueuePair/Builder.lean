import IbverbsRs.Framework.Results
import IbverbsRs.Ibverbs.Error
import IbverbsRs.Ibverbs.QueuePair.Config

namespace IbverbsRs.Ibverbs

open Framework

/-- The number of a queue pair on its device, and the address of the device's port. -/
structure QueuePairEndpoint where
  num : UInt32
  lid : UInt16
  deriving DecidableEq, Repr

def IB_PORT : UInt8 := 1

/-- The attributes of the three calls of `ibv_modify_qp`, named by the state they lead to. -/
inductive QpAttr
  | IBV_QPS_INIT (pkey_index : UInt16) (port_num : UInt8) (qp_access_flags : UInt32)
  | IBV_QPS_RTR (path_mtu : UInt8) (dest_qp_num rq_psn : UInt32)
      (max_dest_rd_atomic min_rnr_timer : UInt8) (dlid : UInt16) (port_num : UInt8)
  | IBV_QPS_RTS (timeout retry_cnt rnr_retry max_rd_atomic : UInt8) (sq_psn : UInt32)
  deriving DecidableEq, Repr

/-- A queue pair of the device and the changes the driver has made to it, oldest first. -/
structure ConnectedQueuePair where
  endpoint : QueuePairEndpoint
  modified : List QpAttr
  deriving DecidableEq, Repr

/-- The answers of `ibv_modify_qp`: an `errno`, zero for success. -/
abbrev ModifyQp := QueuePairEndpoint → QpAttr → Nat

structure PreparedQueuePair where
  endpoint : QueuePairEndpoint
  access : UInt32
  max_rnr_retries : MaxRnrRetries
  max_ack_retries : MaxAckRetries
  min_rnr_timer : MinRnrTimer
  ack_timeout : AckTimeout
  mtu : MaximumTransferUnit
  send_psn : PacketSequenceNumber
  recv_psn : PacketSequenceNumber

namespace ConnectedQueuePair

def modify (self : ConnectedQueuePair) (driver : ModifyQp) (attr : QpAttr) (msg : String) :
    Except IbvError ConnectedQueuePair :=
  if driver self.endpoint attr ≠ 0 then
    .error (.from_errno_with_msg (driver self.endpoint attr) msg)
  else .ok { self with modified := self.modified ++ [attr] }

/-- The queue pair whose packets this one accepts and to which it sends. -/
def remote (self : ConnectedQueuePair) : Option QueuePairEndpoint :=
  (self.modified.findSome? (fun
    | .IBV_QPS_RTR _ dest_qp_num _ _ _ dlid _ => some ⟨dest_qp_num, dlid⟩
    | _ => none))

theorem modify_eq_ok {self qp : ConnectedQueuePair} {driver : ModifyQp} {attr : QpAttr}
    {msg : String} (h : self.modify driver attr msg = .ok qp) :
    qp = { self with modified := self.modified ++ [attr] } := by
  unfold modify at h
  split_ifs at h
  exact (Except.ok.inj h).symm

theorem modify_eq_error {self : ConnectedQueuePair} {driver : ModifyQp} {attr : QpAttr}
    {msg : String} {error : IbvError} (h : self.modify driver attr msg = .error error) :
    driver self.endpoint attr ≠ 0 := by
  unfold modify at h
  split_ifs at h with hrefused
  exact hrefused

end ConnectedQueuePair

namespace PreparedQueuePair

/-- Init, ready to receive from `remote`, ready to send. -/
def handshake (self : PreparedQueuePair) (driver : ModifyQp) (remote : QueuePairEndpoint) :
    Except IbvError ConnectedQueuePair := do
  let qp : ConnectedQueuePair := ⟨self.endpoint, []⟩
  let qp ← qp.modify driver (.IBV_QPS_INIT 0 IB_PORT self.access)
    "Failed to set queue pair to Init state"
  let qp ← qp.modify driver (.IBV_QPS_RTR self.mtu.code remote.num self.recv_psn.code 1
    self.min_rnr_timer.code remote.lid IB_PORT)
    "Failed to set queue pair to Ready to Receive state"
  qp.modify driver (.IBV_QPS_RTS self.ack_timeout.code self.max_ack_retries.retries
    self.max_rnr_retries.code 1 self.send_psn.code)
    "Failed to set queue pair to Ready to Send state"

/-- A handshake that succeeds connects the queue pair to the endpoint it was given. -/
theorem handshake_spec {self : PreparedQueuePair} {driver : ModifyQp}
    {remote : QueuePairEndpoint} {qp : ConnectedQueuePair}
    (h : self.handshake driver remote = .ok qp) :
    qp.endpoint = self.endpoint ∧ qp.remote = some remote := by
  obtain ⟨init, hinit, h⟩ := ok_bind_cases h
  obtain ⟨rtr, hrtr, h⟩ := ok_bind_cases h
  obtain rfl := ConnectedQueuePair.modify_eq_ok hinit
  obtain rfl := ConnectedQueuePair.modify_eq_ok hrtr
  obtain rfl := ConnectedQueuePair.modify_eq_ok h
  exact ⟨rfl, rfl⟩

/-- Only the driver refuses a handshake. -/
theorem handshake_eq_error {self : PreparedQueuePair} {driver : ModifyQp}
    {remote : QueuePairEndpoint} {error : IbvError}
    (h : self.handshake driver remote = .error error) :
    ∃ attr, driver self.endpoint attr ≠ 0 := by
  rcases error_bind_cases h with h | ⟨init, hinit, h⟩
  · exact ⟨_, ConnectedQueuePair.modify_eq_error h⟩
  · obtain rfl := ConnectedQueuePair.modify_eq_ok hinit
    rcases error_bind_cases h with h | ⟨rtr, hrtr, h⟩
    · exact ⟨_, ConnectedQueuePair.modify_eq_error h⟩
    · obtain rfl := ConnectedQueuePair.modify_eq_ok hrtr
      exact ⟨_, ConnectedQueuePair.modify_eq_error h⟩

end PreparedQueuePair

end IbverbsRs.Ibverbs
