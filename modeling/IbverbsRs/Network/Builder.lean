import IbverbsRs.Framework.Slots
import IbverbsRs.Network.Barrier.Region
import Mathlib.Tactic.IntervalCases

namespace IbverbsRs.Network

open Ibverbs Framework

/-- What one node tells one peer: a queue pair, and its barrier memory. -/
structure NetworkChannelEndpoint where
  single_channel_endpoint : QueuePairEndpoint
  barrier_mr_remote : PeerRemoteMemoryRegion
  deriving DecidableEq, Repr

structure LocalEndpoint where
  rank : Nat
  endpoints : List NetworkChannelEndpoint
  deriving DecidableEq, Repr

structure RemoteEndpoints where
  endpoints : List NetworkChannelEndpoint
  deriving DecidableEq, Repr

/-- `std::io::ErrorKind`, as far as it is used. -/
inductive ErrorKind
  | InvalidInput
  | InvalidData
  deriving DecidableEq, Repr

/-- `std::io::Error` -/
structure IoError where
  kind : ErrorKind
  message : String
  deriving DecidableEq, Repr

structure PreparedNode where
  rank : Nat
  world_size : Nat
  multi_channel : PreparedMultiChannel
  barrier : PreparedBarrier

/-- A node that is connected to its peers. -/
structure ConnectedNode where
  rank : Nat
  world_size : Nat
  multi_channel : MultiChannel
  barrier : LinkedBarrier

namespace PreparedNode

/-- `Node::builder` -/
def build (rank world_size : Nat) (pd : ProtectionDomain) (memory_addr : UInt64)
    (barrier : BarrierAlgorithm) (config : ChannelConfig) : Except IbvError PreparedNode := do
  let multi_channel ← PreparedMultiChannel.build world_size pd config
  let barrier ← barrier.instance pd memory_addr rank world_size
  .ok ⟨rank, world_size, multi_channel, barrier⟩

def endpoint (self : PreparedNode) : LocalEndpoint :=
  ⟨self.rank, self.multi_channel.endpoints.map
    (fun single_channel_endpoint => ⟨single_channel_endpoint, self.barrier.remote_mr⟩)⟩

/-- The loop of `gather_endpoints` over the slots `tmp`. -/
def fill (self : PreparedNode) :
    List (Option NetworkChannelEndpoint) → List LocalEndpoint →
    Except IoError (List (Option NetworkChannelEndpoint))
  | tmp, [] => .ok tmp
  | tmp, endpoint :: endpoints =>
    match tmp[endpoint.rank]? with
    | none => .error ⟨.InvalidInput,
        s!"Input endpoint rank {endpoint.rank} out of bounds (0..{self.world_size})"⟩
    | some in_slot =>
      if in_slot.isSome then
        .error ⟨.InvalidInput, s!"Duplicate endpoint for rank {endpoint.rank}"⟩
      else
        match endpoint.endpoints[self.rank]? with
        | none => .error ⟨.InvalidInput,
            s!"Input endpoint for rank {endpoint.rank} missing rechannel for local rank {self.rank}"⟩
        | some qp_endpoint => fill self (tmp.set endpoint.rank (some qp_endpoint)) endpoints

/-- The sweep behind the loop: slot `i` and those after it are all filled. -/
def sweep : Nat → List (Option NetworkChannelEndpoint) →
    Except IoError (List NetworkChannelEndpoint)
  | _, [] => .ok []
  | i, none :: _ => .error ⟨.InvalidData, s!"Missing endpoint from rank {i}"⟩
  | i, some qp_endpoint :: rest => (sweep (i + 1) rest).map (qp_endpoint :: ·)

def gather_endpoints (self : PreparedNode) (endpoints : List LocalEndpoint) :
    Except IoError RemoteEndpoints := do
  let tmp ← self.fill (List.replicate self.world_size none) endpoints
  let in_endpoints ← sweep 0 tmp
  .ok ⟨in_endpoints⟩

def handshake (self : PreparedNode) (driver : ModifyQp) (endpoints : RemoteEndpoints) :
    Except IbvError ConnectedNode := do
  let multi_channel ← self.multi_channel.handshake driver
    (endpoints.endpoints.map NetworkChannelEndpoint.single_channel_endpoint)
  let barrier := self.barrier.link_remote
    (endpoints.endpoints.map NetworkChannelEndpoint.barrier_mr_remote)
  .ok ⟨self.rank, self.world_size, multi_channel, barrier⟩

/-- The entry of an endpoint that concerns this node, under the rank the endpoint claims. -/
def entry (self : PreparedNode) (endpoint : LocalEndpoint) : Option (Nat × NetworkChannelEndpoint) :=
  (endpoint.endpoints[self.rank]?).map (fun qp_endpoint => (endpoint.rank, qp_endpoint))

theorem entry_eq_some {self : PreparedNode} {endpoint : LocalEndpoint} {k : Nat}
    {qp_endpoint : NetworkChannelEndpoint} (h : self.entry endpoint = some (k, qp_endpoint)) :
    k = endpoint.rank ∧ endpoint.endpoints[self.rank]? = some qp_endpoint := by
  obtain ⟨qp_endpoint', hfound, heq⟩ := Option.map_eq_some_iff.mp h
  obtain ⟨rfl, rfl⟩ := Prod.mk.inj heq
  exact ⟨rfl, hfound⟩

/-- The claimed ranks are the keys of the entries. -/
theorem keys_of_entries {self : PreparedNode} {endpoints : List LocalEndpoint}
    {entries : List (Nat × NetworkChannelEndpoint)}
    (h : endpoints.map self.entry = entries.map some) :
    entries.map Prod.fst = endpoints.map LocalEndpoint.rank := by
  induction endpoints generalizing entries with
  | nil =>
    obtain rfl := List.map_eq_nil_iff.mp h.symm
    rfl
  | cons endpoint endpoints ih =>
    cases entries with
    | nil => cases h
    | cons e entries =>
      obtain ⟨hhead, htail⟩ := List.cons.inj h
      rw [List.map_cons, List.map_cons, ih htail, (entry_eq_some hhead).1]

/-- What the loop has accepted fills the slots it claims. -/
theorem fill_spec {self : PreparedNode} {tmp tmp' : List (Option NetworkChannelEndpoint)}
    {entries : List (Nat × NetworkChannelEndpoint)} {endpoints : List LocalEndpoint}
    (hfilled : Filled self.world_size tmp entries) (h : self.fill tmp endpoints = .ok tmp') :
    ∃ accepted, endpoints.map self.entry = accepted.map some ∧
      Filled self.world_size tmp' (entries ++ accepted) := by
  induction endpoints generalizing tmp entries with
  | nil =>
    obtain rfl := Except.ok.inj h
    refine ⟨[], rfl, ?_⟩
    rwa [List.append_nil]
  | cons endpoint endpoints ih =>
    simp only [fill] at h
    split at h
    · cases h
    · rename_i in_slot hslot
      split_ifs at h with hsome
      rw [Bool.not_eq_true, Option.isSome_eq_false_iff, Option.isNone_iff_eq_none] at hsome
      subst hsome
      split at h
      · cases h
      · rename_i qp_endpoint hentry
        obtain ⟨accepted, hmap, hrest⟩ := ih (hfilled.place hslot qp_endpoint) h
        refine ⟨(endpoint.rank, qp_endpoint) :: accepted, ?_, ?_⟩
        · rw [List.map_cons, hmap, entry, hentry]
          rfl
        · rwa [List.append_assoc] at hrest

/-- The loop refuses nothing else. -/
theorem fill_complete {self : PreparedNode} {tmp : List (Option NetworkChannelEndpoint)}
    {entries accepted : List (Nat × NetworkChannelEndpoint)} {endpoints : List LocalEndpoint}
    (hfilled : Filled self.world_size tmp entries)
    (hmap : endpoints.map self.entry = accepted.map some)
    (hnodup : ((entries ++ accepted).map Prod.fst).Nodup)
    (hlt : ∀ k ∈ accepted.map Prod.fst, k < self.world_size) :
    ∃ tmp', self.fill tmp endpoints = .ok tmp' := by
  induction endpoints generalizing tmp entries accepted with
  | nil => exact ⟨tmp, rfl⟩
  | cons endpoint endpoints ih =>
    cases accepted with
    | nil => cases hmap
    | cons e accepted =>
      obtain ⟨k, qp_endpoint⟩ := e
      obtain ⟨hhead, htail⟩ := List.cons.inj hmap
      obtain ⟨rfl, hentry⟩ := entry_eq_some hhead
      have hbound := hlt endpoint.rank (by simp)
      rw [← hfilled.length] at hbound
      obtain ⟨in_slot, hslot⟩ : ∃ in_slot, tmp[endpoint.rank]? = some in_slot :=
        ⟨_, List.getElem?_eq_getElem hbound⟩
      have hfree : endpoint.rank ∉ entries.map Prod.fst := by
        intro hmem
        rw [List.map_append, List.nodup_append] at hnodup
        exact hnodup.2.2 _ hmem _ (by simp) rfl
      have hnone : in_slot = none := by
        rw [← hfilled.claimed hslot] at hfree
        simpa using hfree
      subst hnone
      rw [List.append_cons] at hnodup
      obtain ⟨tmp', htmp'⟩ := ih (hfilled.place hslot qp_endpoint) htail hnodup
        (fun k hk => hlt k (List.mem_cons_of_mem _ hk))
      refine ⟨tmp', ?_⟩
      simp only [fill, hslot, hentry]
      exact htmp'

theorem sweep_eq_ok_iff {i : Nat} {tmp : List (Option NetworkChannelEndpoint)}
    {in_endpoints : List NetworkChannelEndpoint} :
    sweep i tmp = .ok in_endpoints ↔ tmp = in_endpoints.map some := by
  induction tmp generalizing i in_endpoints with
  | nil =>
    cases in_endpoints with
    | nil => simp [sweep]
    | cons _ _ => simp [sweep]
  | cons in_slot tmp ih =>
    cases in_slot with
    | none =>
      cases in_endpoints with
      | nil => simp [sweep]
      | cons _ _ => simp [sweep]
    | some qp_endpoint =>
      constructor
      · intro h
        obtain ⟨rest, hrest, rfl⟩ := ok_map_cases h
        rw [ih.mp hrest, List.map_cons]
      · intro h
        cases in_endpoints with
        | nil => cases h
        | cons e rest =>
          obtain ⟨hhead, htail⟩ := List.cons.inj h
          rw [sweep, ih.mpr htail, Option.some.inj hhead]
          rfl

/-- Every endpoint has an entry for this node, or the entries do not cover the endpoints. -/
theorem map_entry_iff {self : PreparedNode} {endpoints : List LocalEndpoint}
    {entries : List (Nat × NetworkChannelEndpoint)} :
    endpoints.map self.entry = entries.map some ↔
      (∀ endpoint ∈ endpoints, self.rank < endpoint.endpoints.length) ∧
        endpoints.filterMap self.entry = entries := by
  induction endpoints generalizing entries with
  | nil => cases entries <;> simp
  | cons endpoint endpoints ih =>
    by_cases hshort : self.rank < endpoint.endpoints.length
    · have hentry : self.entry endpoint =
          some (endpoint.rank, endpoint.endpoints[self.rank]) := by
        rw [entry, List.getElem?_eq_getElem hshort, Option.map_some]
      cases entries with
      | nil => simp [hentry]
      | cons e entries => simp [hentry, ih, hshort, and_left_comm]
    · have hentry : self.entry endpoint = none := by
        rw [entry, List.getElem?_eq_none (Nat.le_of_not_lt hshort), Option.map_none]
      cases entries with
      | nil => simp [hshort]
      | cons e entries => simp [hentry, hshort]

/-- What is gathered is exactly one entry for each rank. -/
theorem gather_endpoints_eq_ok_iff {self : PreparedNode} {endpoints : List LocalEndpoint}
    {remote : RemoteEndpoints} : self.gather_endpoints endpoints = .ok remote ↔
      (∀ endpoint ∈ endpoints, self.rank < endpoint.endpoints.length) ∧
        Filled self.world_size (remote.endpoints.map some) (endpoints.filterMap self.entry) := by
  have hsplit : ((∀ endpoint ∈ endpoints, self.rank < endpoint.endpoints.length) ∧
        Filled self.world_size (remote.endpoints.map some) (endpoints.filterMap self.entry)) ↔
      ∃ entries, endpoints.map self.entry = entries.map some ∧
        Filled self.world_size (remote.endpoints.map some) entries := by
    simp only [map_entry_iff, and_assoc, exists_and_left, exists_eq_left']
  rw [hsplit]
  constructor
  · intro h
    obtain ⟨tmp, hfill, hrest⟩ := ok_bind_cases h
    obtain ⟨in_endpoints, hsweep, hremote⟩ := ok_bind_cases hrest
    obtain rfl := Except.ok.inj hremote
    obtain rfl := sweep_eq_ok_iff.mp hsweep
    exact fill_spec (Filled.empty self.world_size) hfill
  · intro h
    obtain ⟨entries, hmap, hfilled⟩ := h
    obtain ⟨tmp, htmp⟩ := fill_complete (Filled.empty self.world_size) hmap hfilled.nodup
      (fun k hk => hfilled.lt hk)
    obtain ⟨entries', hmap', hfilled'⟩ := fill_spec (Filled.empty self.world_size) htmp
    obtain rfl := List.map_injective_iff.mpr (Option.some_injective _) (hmap'.symm.trans hmap)
    obtain rfl := hfilled'.unique hfilled
    simp only [gather_endpoints, htmp, bind, Except.bind, sweep_eq_ok_iff.mpr rfl]

theorem keys_of_filterMap {self : PreparedNode} {endpoints : List LocalEndpoint}
    (h : ∀ endpoint ∈ endpoints, self.rank < endpoint.endpoints.length) :
    (endpoints.filterMap self.entry).map Prod.fst = endpoints.map LocalEndpoint.rank :=
  keys_of_entries (map_entry_iff.mpr ⟨h, rfl⟩)

theorem gather_endpoints_isOk_iff (self : PreparedNode) (endpoints : List LocalEndpoint) :
    (∃ remote, self.gather_endpoints endpoints = .ok remote) ↔
      (endpoints.map LocalEndpoint.rank).Perm (List.range self.world_size) ∧
        ∀ endpoint ∈ endpoints, self.rank < endpoint.endpoints.length := by
  constructor
  · intro h
    obtain ⟨remote, hremote⟩ := h
    obtain ⟨hall, hfilled⟩ := gather_endpoints_eq_ok_iff.mp hremote
    rw [← keys_of_filterMap hall]
    exact ⟨hfilled.full_iff.mp ⟨_, rfl⟩, hall⟩
  · intro h
    obtain ⟨hperm, hall⟩ := h
    have hmap := map_entry_iff.mpr ⟨hall, rfl⟩
    rw [← keys_of_filterMap hall] at hperm
    obtain ⟨tmp, htmp⟩ := fill_complete (Filled.empty self.world_size) hmap
      (hperm.nodup_iff.mpr List.nodup_range) (fun k hk => List.mem_range.mp (hperm.mem_iff.mp hk))
    obtain ⟨entries, hentries, hfilled⟩ := fill_spec (Filled.empty self.world_size) htmp
    obtain rfl := (map_entry_iff.mp hentries).2
    obtain ⟨in_endpoints, rfl⟩ := hfilled.full_iff.mpr hperm
    exact ⟨⟨in_endpoints⟩, gather_endpoints_eq_ok_iff.mpr ⟨hall, hfilled⟩⟩

/-- Entry `r` of the result is what the endpoint of rank `r` has for this node. -/
theorem gather_endpoints_getElem? {self : PreparedNode} {endpoints : List LocalEndpoint}
    {remote : RemoteEndpoints} (h : self.gather_endpoints endpoints = .ok remote)
    {endpoint : LocalEndpoint} (hmem : endpoint ∈ endpoints) :
    remote.endpoints[endpoint.rank]? = endpoint.endpoints[self.rank]? := by
  obtain ⟨hall, hfilled⟩ := gather_endpoints_eq_ok_iff.mp h
  obtain ⟨qp_endpoint, hfound⟩ : ∃ qp_endpoint, endpoint.endpoints[self.rank]? = some qp_endpoint :=
    ⟨_, List.getElem?_eq_getElem (hall endpoint hmem)⟩
  have hentry : self.entry endpoint = some (endpoint.rank, qp_endpoint) := by
    rw [entry, hfound, Option.map_some]
  have hslot := (hfilled.slots _ _).mpr (List.mem_filterMap.mpr ⟨endpoint, hmem, hentry⟩)
  rw [List.getElem?_map] at hslot
  obtain ⟨e, he, heq⟩ := Option.map_eq_some_iff.mp hslot
  rw [he, heq, hfound]

theorem gather_endpoints_length {self : PreparedNode} {endpoints : List LocalEndpoint}
    {remote : RemoteEndpoints} (h : self.gather_endpoints endpoints = .ok remote) :
    remote.endpoints.length = self.world_size := by
  have hlen := (gather_endpoints_eq_ok_iff.mp h).2.length
  rwa [List.length_map] at hlen

theorem gather_endpoints_perm {self : PreparedNode} {endpoints reordered : List LocalEndpoint}
    (hperm : reordered.Perm endpoints) {remote : RemoteEndpoints}
    (h : self.gather_endpoints endpoints = .ok remote) :
    self.gather_endpoints reordered = .ok remote := by
  obtain ⟨hall, hfilled⟩ := gather_endpoints_eq_ok_iff.mp h
  apply gather_endpoints_eq_ok_iff.mpr
  refine ⟨?_, hfilled.perm (hperm.symm.filterMap _)⟩
  intro endpoint hmem
  exact hall endpoint (hperm.mem_iff.mp hmem)

/-- Exactly the complete sets of endpoints are gathered, in whatever order they come. -/
theorem gather_endpoints_exact (self : PreparedNode) (endpoints : List LocalEndpoint) :
    ((∃ remote, self.gather_endpoints endpoints = .ok remote) ↔
      (endpoints.map LocalEndpoint.rank).Perm (List.range self.world_size) ∧
        ∀ endpoint ∈ endpoints, self.rank < endpoint.endpoints.length) ∧
    (∀ remote, self.gather_endpoints endpoints = .ok remote →
      remote.endpoints.length = self.world_size ∧ ∀ endpoint ∈ endpoints,
        remote.endpoints[endpoint.rank]? = endpoint.endpoints[self.rank]?) ∧
    (∀ reordered, reordered.Perm endpoints → ∀ remote,
      self.gather_endpoints reordered = .ok remote ↔ self.gather_endpoints endpoints = .ok remote) ∧
    ((∃ endpoint ∈ endpoints, self.world_size ≤ endpoint.rank) ∨
      ¬ (endpoints.map LocalEndpoint.rank).Nodup ∨
      (∃ r < self.world_size, r ∉ endpoints.map LocalEndpoint.rank) ∨
      (∃ endpoint ∈ endpoints, endpoint.endpoints.length ≤ self.rank) →
        ∃ error, self.gather_endpoints endpoints = .error error) := by
  refine ⟨self.gather_endpoints_isOk_iff endpoints, ?_, ?_, ?_⟩
  · intro remote h
    exact ⟨gather_endpoints_length h, fun _ hmem => gather_endpoints_getElem? h hmem⟩
  · intro reordered hperm remote
    exact ⟨gather_endpoints_perm hperm.symm, gather_endpoints_perm hperm⟩
  · intro hbad
    cases hresult : self.gather_endpoints endpoints with
    | error error => exact ⟨error, rfl⟩
    | ok remote =>
      obtain ⟨hperm, hall⟩ := (self.gather_endpoints_isOk_iff endpoints).mp ⟨remote, hresult⟩
      rcases hbad with ⟨endpoint, hmem, hout⟩ | hdup | ⟨r, hr, hmissing⟩ | ⟨endpoint, hmem, hshort⟩
      · have hlt := List.mem_range.mp (hperm.mem_iff.mp (List.mem_map_of_mem hmem))
        exact absurd hlt (Nat.not_lt.mpr hout)
      · exact absurd (hperm.nodup_iff.mpr List.nodup_range) hdup
      · exact absurd (hperm.mem_iff.mpr (List.mem_range.mpr hr)) hmissing
      · exact absurd (hall endpoint hmem) (Nat.not_lt.mpr hshort)

/-- A built node has a channel for every rank, and its barrier memory is registered whole. -/
theorem build_spec {rank world_size : Nat} {pd : ProtectionDomain} {memory_addr : UInt64}
    {algorithm : BarrierAlgorithm} {config : ChannelConfig} {self : PreparedNode}
    (h : build rank world_size pd memory_addr algorithm config = .ok self) :
    self.rank = rank ∧ self.world_size = world_size ∧
    self.multi_channel.channels.length = world_size ∧
    self.barrier.remote_mr.peer = rank ∧
    self.barrier.barrier_mr.mr.address = memory_addr ∧
    self.barrier.barrier_mr.mr.length = UInt64.ofNat (world_size * BarrierPeerFlags.size) := by
  obtain ⟨multi_channel, hchannels, h⟩ := ok_bind_cases h
  obtain ⟨barrier, hbarrier, h⟩ := ok_bind_cases h
  obtain rfl := Except.ok.inj h
  obtain ⟨_, hmemory, haddr, hlen, _⟩ := BarrierAlgorithm.instance_spec hbarrier
  refine ⟨rfl, rfl, PreparedMultiChannel.build_length hchannels, ?_, haddr, hlen⟩
  exact congrArg BarrierMr.rank hmemory

/-- The barrier of a built node is a new one, registered at the address of its array. -/
theorem build_barrier {rank world_size : Nat} {pd : ProtectionDomain} {memory_addr : UInt64}
    {algorithm : BarrierAlgorithm} {config : ChannelConfig} {self : PreparedNode}
    (h : build rank world_size pd memory_addr algorithm config = .ok self) :
    PreparedBarrierMr.new pd memory_addr rank world_size = .ok self.barrier.barrier_mr ∧
      ∀ remote_mrs, (self.barrier.link_remote remote_mrs).toBarrier =
        Barrier.new algorithm rank world_size := by
  obtain ⟨multi_channel, _, h⟩ := ok_bind_cases h
  obtain ⟨barrier, hbarrier, h⟩ := ok_bind_cases h
  obtain rfl := Except.ok.inj h
  refine ⟨?_, (BarrierAlgorithm.instance_spec hbarrier).2.2.2.2.2⟩
  obtain ⟨barrier_mr, hmr, rfl⟩ := ok_map_cases hbarrier
  exact hmr

/-- What node `self` has for node `i`. -/
theorem endpoint_getElem? {self : PreparedNode} {i : Nat} {channel : PreparedChannel}
    (h : self.multi_channel.channels[i]? = some channel) :
    self.endpoint.endpoints[i]? = some ⟨channel.endpoint, self.barrier.remote_mr⟩ := by
  rw [endpoint, PreparedMultiChannel.endpoints, List.getElem?_map, List.getElem?_map, h]
  rfl

theorem handshake_spec {self : PreparedNode} {driver : ModifyQp} {remote : RemoteEndpoints}
    {node : ConnectedNode} (h : self.handshake driver remote = .ok node) {j : Nat}
    {channel : PreparedChannel} {endpoint : NetworkChannelEndpoint}
    (hchannel : self.multi_channel.channels[j]? = some channel)
    (hendpoint : remote.endpoints[j]? = some endpoint) :
    (∃ ch, node.multi_channel.channels[j]? = some ch ∧ ch.qp.endpoint = channel.endpoint ∧
      ch.qp.remote = some endpoint.single_channel_endpoint) ∧
    node.barrier.barrier_mr.remote_mrs[j]? = some endpoint.barrier_mr_remote ∧
    node.barrier.barrier_mr.mr = self.barrier.barrier_mr.mr := by
  obtain ⟨multi_channel, hchannels, h⟩ := ok_bind_cases h
  obtain rfl := Except.ok.inj h
  refine ⟨?_, ?_, rfl⟩
  · apply (PreparedMultiChannel.handshake_spec hchannels).2.2 j channel _ hchannel
    rw [List.getElem?_map, hendpoint, Option.map_some]
  · change (remote.endpoints.map NetworkChannelEndpoint.barrier_mr_remote)[j]? = _
    rw [List.getElem?_map, hendpoint, Option.map_some]

theorem handshake_barrier {self : PreparedNode} {driver : ModifyQp} {remote : RemoteEndpoints}
    {node : ConnectedNode} (h : self.handshake driver remote = .ok node) :
    node.barrier = self.barrier.link_remote
      (remote.endpoints.map NetworkChannelEndpoint.barrier_mr_remote) := by
  obtain ⟨multi_channel, _, h⟩ := ok_bind_cases h
  obtain rfl := Except.ok.inj h
  rfl

/-- A handshake of a built node with endpoints for the whole world fails only in the driver. -/
theorem handshake_eq_error {self : PreparedNode} {driver : ModifyQp} {remote : RemoteEndpoints}
    {error : IbvError} (hchannels : self.multi_channel.channels.length = self.world_size)
    (hremote : remote.endpoints.length = self.world_size)
    (h : self.handshake driver remote = .error error) :
    ∃ channel ∈ self.multi_channel.channels, ∃ attr, driver channel.endpoint attr ≠ 0 := by
  rcases error_bind_cases h with h | ⟨_, _, hok⟩
  · refine PreparedMultiChannel.handshake_eq_error ?_ h
    rw [List.length_map, hchannels, hremote]
  · cases hok

end PreparedNode

section Wiring

open PreparedNode

variable {N : Nat} {pd : Nat → ProtectionDomain} {memory_addr : Nat → UInt64}
  {algorithm : Nat → BarrierAlgorithm} {config : Nat → ChannelConfig} {driver : Nat → ModifyQp}
  {prepared : Nat → PreparedNode} {endpoints : Nat → List LocalEndpoint}
  {remote : Nat → RemoteEndpoints} {node : Nat → ConnectedNode}

/-- Different queue pairs of the network have different endpoints: the numbers are unique on a
device and the port addresses in a subnet. -/
def DistinctQueuePairs (N : Nat) (prepared : Nat → PreparedNode) : Prop :=
  ∀ (i j i' j' : Nat) (channel channel' : PreparedChannel), i < N → i' < N →
    (prepared i).multi_channel.channels[j]? = some channel →
    (prepared i').multi_channel.channels[j']? = some channel' →
    channel.endpoint = channel'.endpoint → i = i' ∧ j = j'

/-- Channel `j` of node `i` is the prepared queue pair `j` of node `i`, connected to the prepared
queue pair `i` of node `j`. -/
theorem channel_connected
    (hbuild : ∀ i < N, build i N (pd i) (memory_addr i) (algorithm i) (config i) = .ok (prepared i))
    (hall : ∀ i < N, (endpoints i).Perm ((List.range N).map (fun j => (prepared j).endpoint)))
    (hgather : ∀ i < N, (prepared i).gather_endpoints (endpoints i) = .ok (remote i))
    (hshake : ∀ i < N, (prepared i).handshake (driver i) (remote i) = .ok (node i))
    {i j : Nat} (hi : i < N) (hj : j < N) :
    ∃ channel back ch, (prepared i).multi_channel.channels[j]? = some channel ∧
      (prepared j).multi_channel.channels[i]? = some back ∧
      (node i).multi_channel.channels[j]? = some ch ∧
      ch.qp.endpoint = channel.endpoint ∧ ch.qp.remote = some back.endpoint ∧
      (node i).barrier.barrier_mr.remote_mrs[j]? = some (prepared j).barrier.remote_mr ∧
      (node i).barrier.barrier_mr.mr = (prepared i).barrier.barrier_mr.mr := by
  have hchannel {i j : Nat} (hi : i < N) (hj : j < N) :
      ∃ channel, (prepared i).multi_channel.channels[j]? = some channel := by
    have hlen := (build_spec (hbuild i hi)).2.2.1
    exact ⟨_, List.getElem?_eq_getElem (by rwa [hlen])⟩
  obtain ⟨channel, hij⟩ := hchannel hi hj
  obtain ⟨back, hji⟩ := hchannel hj hi
  have hmem : (prepared j).endpoint ∈ endpoints i :=
    (hall i hi).mem_iff.mpr (List.mem_map_of_mem (List.mem_range.mpr hj))
  have hentry := gather_endpoints_getElem? (hgather i hi) hmem
  rw [(build_spec (hbuild i hi)).1, endpoint_getElem? hji] at hentry
  have hrank : (prepared j).endpoint.rank = j := (build_spec (hbuild j hj)).1
  rw [hrank] at hentry
  obtain ⟨⟨ch, hch, hown, hremote⟩, hregion, hmr⟩ := handshake_spec (hshake i hi) hij hentry
  exact ⟨channel, back, ch, hij, hji, hch, hown, hremote, hregion, hmr⟩

/-- The channels pair up all nodes, and a write to the barrier memory of a node takes the channel
to that node. -/
theorem wiring_is_a_perfect_pairing
    (hbuild : ∀ i < N, build i N (pd i) (memory_addr i) (algorithm i) (config i) = .ok (prepared i))
    (hall : ∀ i < N, (endpoints i).Perm ((List.range N).map (fun j => (prepared j).endpoint)))
    (hgather : ∀ i < N, (prepared i).gather_endpoints (endpoints i) = .ok (remote i))
    (hshake : ∀ i < N, (prepared i).handshake (driver i) (remote i) = .ok (node i))
    (hdistinct : DistinctQueuePairs N prepared) :
    (∀ i < N, ∀ j < N, ∃ ch back, (node i).multi_channel.channels[j]? = some ch ∧
      (node j).multi_channel.channels[i]? = some back ∧
      ch.qp.remote = some back.qp.endpoint ∧ back.qp.remote = some ch.qp.endpoint ∧
      ∃ rmr, (node i).barrier.barrier_mr.remote_mrs[j]? = some rmr ∧ rmr.peer = j ∧
        rmr.remote_mr = (node j).barrier.barrier_mr.mr.remote ∧
        rmr.remote_mr.addr = memory_addr j ∧
        rmr.remote_mr.length = UInt64.ofNat (N * BarrierPeerFlags.size) ∧
        ∀ gather_elements wr, PeerWriteWorkRequest.new gather_elements rmr = some wr →
          (node i).multi_channel.channel wr.peer = .ok ch) ∧
    ∀ i < N, ∀ j < N, ∀ i' < N, ∀ j' < N, ∀ ch ch',
      (node i).multi_channel.channels[j]? = some ch →
      (node i').multi_channel.channels[j']? = some ch' →
      (ch.qp.remote = ch'.qp.remote ∨ ch.qp.endpoint = ch'.qp.endpoint → i = i' ∧ j = j') ∧
      (ch.qp.remote = some ch'.qp.endpoint → i = j' ∧ j = i') := by
  constructor
  · intro i hi j hj
    obtain ⟨channel, back, ch, hij, hji, hch, hown, hremote, hregion, _⟩ :=
      channel_connected hbuild hall hgather hshake hi hj
    obtain ⟨back', channel', ch', hji', hij', hch', hown', hremote', _, hmr⟩ :=
      channel_connected hbuild hall hgather hshake hj hi
    obtain rfl := Option.some.inj (hji.symm.trans hji')
    obtain rfl := Option.some.inj (hij.symm.trans hij')
    obtain ⟨_, _, _, hpeer, haddr, hlen⟩ := build_spec (hbuild j hj)
    refine ⟨ch, ch', hch, hch', by rw [hremote, hown'], by rw [hremote', hown], _, hregion, hpeer,
      by rw [hmr]; rfl, haddr, hlen, ?_⟩
    intro gather_elements wr hwr
    rw [PeerWriteWorkRequest.new_spec hwr, MultiChannel.channel]
    simp only [hpeer, hch]
  · intro i hi j hj i' hi' j' hj' ch ch' hch hch'
    obtain ⟨channel, back, _, hij, hji, hfound, hown, hremote, _⟩ :=
      channel_connected hbuild hall hgather hshake hi hj
    obtain rfl := Option.some.inj (hch.symm.trans hfound)
    obtain ⟨channel', back', _, hij', hji', hfound', hown', hremote', _⟩ :=
      channel_connected hbuild hall hgather hshake hi' hj'
    obtain rfl := Option.some.inj (hch'.symm.trans hfound')
    refine ⟨?_, ?_⟩
    · intro hsame
      rcases hsame with hsame | hsame
      · rw [hremote, hremote', Option.some.injEq] at hsame
        exact (hdistinct j i j' i' back back' hj hj' hji hji' hsame).symm
      · rw [hown, hown'] at hsame
        exact hdistinct i j i' j' channel channel' hi hi' hij hij' hsame
    · intro hsame
      rw [hremote, hown', Option.some.injEq] at hsame
      exact (hdistinct j i i' j' back channel' hj hi' hji hij' hsame).symm

end Wiring

/-- A device on port `lid` that numbers its queue pairs from 7. -/
def device (lid : Nat) : ProtectionDomain where
  create_cq _ _ := .ok ()
  create_qp k _ := .ok ⟨UInt32.ofNat (7 + k), UInt16.ofNat lid⟩
  register_shared_mr slice := .ok (slice.len.toUInt32, 9)

def preparedPair (i : Nat) : PreparedNode where
  rank := i
  world_size := 2
  multi_channel := ⟨[0, 1].map (fun k => ⟨32, ⟨⟨UInt32.ofNat (7 + k), UInt16.ofNat i⟩, 7,
    .Limited 6, ⟨6, by decide⟩, ⟨16, by decide⟩, .Limited 4, .MTU4096, ⟨0, by decide⟩,
    ⟨0, by decide⟩⟩⟩)⟩
  barrier := ⟨.BinaryTree, i, ⟨BarrierMr.new i 2, 4096, ⟨4096, 48, 48, 9⟩⟩⟩

theorem preparedPair_endpoint {i j : Nat} {channel : PreparedChannel}
    (h : (preparedPair i).multi_channel.channels[j]? = some channel) :
    j < 2 ∧ channel.endpoint = ⟨UInt32.ofNat (7 + j), UInt16.ofNat i⟩ := by
  rcases j with _ | _ | j
  · obtain rfl := Option.some.inj h
    exact ⟨by decide, rfl⟩
  · obtain rfl := Option.some.inj h
    exact ⟨by decide, rfl⟩
  · cases h

theorem preparedPair_distinct : DistinctQueuePairs 2 preparedPair := by
  intro i j i' j' channel channel' hi hi' hchannel hchannel' hsame
  obtain ⟨hj, hendpoint⟩ := preparedPair_endpoint hchannel
  obtain ⟨hj', hendpoint'⟩ := preparedPair_endpoint hchannel'
  rw [hendpoint, hendpoint'] at hsame
  interval_cases i <;> interval_cases i' <;> interval_cases j <;> interval_cases j' <;>
    first | decide | exact absurd hsame (by decide)

def remotePair (i : Nat) : RemoteEndpoints :=
  ⟨[0, 1].map (fun j =>
    ⟨⟨UInt32.ofNat (7 + i), UInt16.ofNat j⟩, (preparedPair j).barrier.remote_mr⟩)⟩

/-- Two nodes on two devices; each receives the endpoints in another order. -/
theorem wiring_of_two_nodes : ∃ node : Nat → ConnectedNode,
    (∀ i < 2, (preparedPair i).handshake (fun _ _ => 0) (remotePair i) = .ok (node i)) ∧
    ∀ i < 2, ∀ j < 2, ∃ ch back, (node i).multi_channel.channels[j]? = some ch ∧
      (node j).multi_channel.channels[i]? = some back ∧
      ch.qp.remote = some back.qp.endpoint ∧ back.qp.remote = some ch.qp.endpoint := by
  have hbuild : ∀ i < 2, PreparedNode.build i 2 (device i) 4096 .BinaryTree {} =
      .ok (preparedPair i) := by
    intro i hi
    interval_cases i <;> rfl
  have hall : ∀ i < 2, [(preparedPair (1 - i)).endpoint, (preparedPair i).endpoint].Perm
      ((List.range 2).map (fun j => (preparedPair j).endpoint)) := by
    intro i hi
    interval_cases i <;> decide
  have hgather : ∀ i < 2, (preparedPair i).gather_endpoints
      [(preparedPair (1 - i)).endpoint, (preparedPair i).endpoint] = .ok (remotePair i) := by
    intro i hi
    interval_cases i <;> rfl
  have hconnect : ∀ i < 2, ∃ node,
      (preparedPair i).handshake (fun _ _ => 0) (remotePair i) = .ok node := by
    intro i hi
    interval_cases i <;> exact ⟨_, rfl⟩
  have hnode : Nonempty ConnectedNode := ⟨(hconnect 0 (by decide)).choose⟩
  choose! node hshake using hconnect
  refine ⟨node, hshake, ?_⟩
  intro i hi j hj
  obtain ⟨ch, back, hch, hback, hforth, hagain, _⟩ :=
    (wiring_is_a_perfect_pairing hbuild hall hgather hshake preparedPair_distinct).1 i hi j hj
  exact ⟨ch, back, hch, hback, hforth, hagain⟩

end IbverbsRs.Network
