import IbverbsRs.Channel.PendingWork
import IbverbsRs.Ibverbs.Memory.MemoryRegion
import IbverbsRs.Ibverbs.QueuePair.Builder

namespace IbverbsRs

open Ibverbs Framework

/-- The settings of `Channel::builder`, with its defaults. -/
structure ChannelConfig where
  access : UInt32 := 7
  min_cq_entries : UInt32 := 32
  max_send_wr : UInt32 := 16
  max_recv_wr : UInt32 := 16
  max_send_sge : UInt32 := 16
  max_recv_sge : UInt32 := 16
  max_rnr_retries : MaxRnrRetries := .Limited 6
  max_ack_retries : MaxAckRetries := ⟨6, by decide⟩
  min_rnr_timer : MinRnrTimer := ⟨16, by decide⟩
  ack_timeout : AckTimeout := .Limited 4
  mtu : MaximumTransferUnit := .MTU4096
  send_psn : PacketSequenceNumber := ⟨0, by decide⟩
  recv_psn : PacketSequenceNumber := ⟨0, by decide⟩

/-- What the driver answers to the calls that build one node: the `k`-th `ibv_create_cq`, the
`k`-th `ibv_create_qp` with the query of its port, and the keys of a registered
slice. -/
structure ProtectionDomain where
  create_cq : Nat → UInt32 → Except IbvError Unit
  create_qp : Nat → ChannelConfig → Except IbvError QueuePairEndpoint
  register_shared_mr : Slice → Except IbvError (UInt32 × UInt32)

structure PreparedChannel where
  cq_min_capacity : Nat
  qp : PreparedQueuePair

/-- A connected channel: the queue pair it was given, and its state as a work queue. -/
structure ConnectedChannel where
  qp : ConnectedQueuePair
  channel : Channel

namespace PreparedChannel

/-- `Channel::builder`, as the `k`-th of its protection domain. -/
def build (pd : ProtectionDomain) (config : ChannelConfig) (k : Nat) :
    Except IbvError PreparedChannel := do
  let _ ← pd.create_cq k config.min_cq_entries
  let endpoint ← pd.create_qp k config
  .ok ⟨config.min_cq_entries.toNat, ⟨endpoint, config.access, config.max_rnr_retries,
    config.max_ack_retries, config.min_rnr_timer, config.ack_timeout, config.mtu,
    config.send_psn, config.recv_psn⟩⟩

def endpoint (self : PreparedChannel) : QueuePairEndpoint := self.qp.endpoint

def handshake (self : PreparedChannel) (driver : ModifyQp) (endpoint : QueuePairEndpoint) :
    Except IbvError ConnectedChannel := do
  let qp ← self.qp.handshake driver endpoint
  .ok ⟨qp, Channel.new self.cq_min_capacity⟩

end PreparedChannel

structure PreparedMultiChannel where
  channels : List PreparedChannel

structure MultiChannel where
  channels : List ConnectedChannel

namespace PreparedMultiChannel

/-- `MultiChannel::builder` -/
def build (num_channels : Nat) (pd : ProtectionDomain) (config : ChannelConfig) :
    Except IbvError PreparedMultiChannel :=
  (collectResults ((List.range num_channels).map (PreparedChannel.build pd config))).map
    PreparedMultiChannel.mk

def endpoints (self : PreparedMultiChannel) : List QueuePairEndpoint :=
  self.channels.map PreparedChannel.endpoint

def handshake (self : PreparedMultiChannel) (driver : ModifyQp)
    (endpoints : List QueuePairEndpoint) : Except IbvError MultiChannel :=
  if self.channels.length ≠ endpoints.length then
    .error (.InvalidInput
      s!"Expected {self.channels.length} endpoints but got {endpoints.length}")
  else
    (collectResults ((self.channels.zip endpoints).map
      (fun (channel, endpoint) => channel.handshake driver endpoint))).map MultiChannel.mk

theorem build_length {num_channels : Nat} {pd : ProtectionDomain} {config : ChannelConfig}
    {self : PreparedMultiChannel} (h : build num_channels pd config = .ok self) :
    self.channels.length = num_channels := by
  obtain ⟨channels, hchannels, rfl⟩ := ok_map_cases h
  rw [collectResults_length hchannels, List.length_range]

/-- The queue pair of channel `j` is the local one, connected to the `j`-th endpoint. -/
theorem handshake_spec {self : PreparedMultiChannel} {driver : ModifyQp}
    {endpoints : List QueuePairEndpoint} {mc : MultiChannel}
    (h : self.handshake driver endpoints = .ok mc) :
    mc.channels.length = self.channels.length ∧ self.channels.length = endpoints.length ∧
    ∀ (j : Nat) (local_channel : PreparedChannel) (endpoint : QueuePairEndpoint),
      self.channels[j]? = some local_channel → endpoints[j]? = some endpoint →
      ∃ ch, mc.channels[j]? = some ch ∧ ch.qp.endpoint = local_channel.endpoint ∧
        ch.qp.remote = some endpoint := by
  unfold handshake at h
  split_ifs at h with hlen
  rw [not_not] at hlen
  obtain ⟨channels, hrs, rfl⟩ := ok_map_cases h
  refine ⟨?_, hlen, ?_⟩
  · rw [collectResults_length hrs, List.length_zip, ← hlen, Nat.min_self]
  · intro j local_channel endpoint hlocal hendpoint
    have hzip : (self.channels.zip endpoints)[j]? = some (local_channel, endpoint) :=
      List.getElem?_zip_eq_some.mpr ⟨hlocal, hendpoint⟩
    obtain ⟨ch, hch, hshake⟩ := collectResults_map_getElem? hrs hzip
    obtain ⟨qp, hqp, hch'⟩ := ok_bind_cases hshake
    obtain rfl := Except.ok.inj hch'
    have hspec := PreparedQueuePair.handshake_spec hqp
    exact ⟨_, hch, hspec.1, hspec.2⟩

/-- With an endpoint for every channel only the driver refuses a handshake. -/
theorem handshake_eq_error {self : PreparedMultiChannel} {driver : ModifyQp}
    {endpoints : List QueuePairEndpoint} {error : IbvError}
    (hlength : self.channels.length = endpoints.length)
    (h : self.handshake driver endpoints = .error error) :
    ∃ channel ∈ self.channels, ∃ attr, driver channel.endpoint attr ≠ 0 := by
  rw [handshake, if_neg (not_not.mpr hlength)] at h
  obtain ⟨⟨channel, endpoint⟩, hmem, hrefused⟩ :=
    List.mem_map.mp (collectResults_eq_error (error_map_cases h))
  refine ⟨channel, (List.of_mem_zip hmem).1, ?_⟩
  rcases error_bind_cases hrefused with hrefused | ⟨_, _, hok⟩
  · exact PreparedQueuePair.handshake_eq_error hrefused
  · cases hok

end PreparedMultiChannel

/-- The channel to a peer. -/
def MultiChannel.channel (self : MultiChannel) (peer : Nat) : Except IbvError ConnectedChannel :=
  match self.channels[peer]? with
  | none => .error (.NotFound s!"Peer {peer} not found")
  | some channel => .ok channel

end IbverbsRs
