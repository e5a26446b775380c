import IbverbsRs.Network.Barrier.ByteRefinement
import IbverbsRs.Network.Builder
import IbverbsRs.Network.TcpExchanger.Await

namespace IbverbsRs.Network

open Ibverbs Framework

/-- Where the start of a node can fail after `Node::builder`. -/
inductive StartupError
  | Exchange (error : ExchangeError)
  | Gather (error : IoError)
  | Handshake (error : IbvError)

/-- `gather_endpoints` on what `await_exchange_all` returned, then `handshake`. -/
def PreparedNode.startup (self : PreparedNode) (driver : ModifyQp)
    (exchanged : Except ExchangeError (List LocalEndpoint)) :
    Except StartupError ConnectedNode := do
  let remote_endpoints ← exchanged.mapError .Exchange
  let remote_endpoints ← (self.gather_endpoints remote_endpoints).mapError .Gather
  (self.handshake driver remote_endpoints).mapError .Handshake

namespace PreparedNode

variable {self : PreparedNode} {driver : ModifyQp} {endpoints : List LocalEndpoint}
  {remote : RemoteEndpoints}

theorem startup_error (error : ExchangeError) :
    self.startup driver (.error error) = .error (.Exchange error) := rfl

theorem startup_ok (h : self.gather_endpoints endpoints = .ok remote) :
    self.startup driver (.ok endpoints) = (self.handshake driver remote).mapError .Handshake := by
  simp only [startup, Except.mapError, bind, Except.bind, h]

/-- A node that starts up has gone through all three calls. -/
theorem startup_cases {exchanged : Except ExchangeError (List LocalEndpoint)}
    {node : ConnectedNode} (h : self.startup driver exchanged = .ok node) :
    ∃ endpoints remote, exchanged = .ok endpoints ∧ self.gather_endpoints endpoints = .ok remote ∧
      self.handshake driver remote = .ok node := by
  obtain ⟨endpoints, hexchanged, h⟩ := ok_bind_cases h
  obtain ⟨remote, hgather, h⟩ := ok_bind_cases h
  exact ⟨endpoints, remote, ok_mapError_cases hexchanged, ok_mapError_cases hgather,
    ok_mapError_cases h⟩

end PreparedNode

section Bootstrap

variable {A : Type}

/-- Every node of the network is built for its rank, and offers the others its endpoint. -/
structure Bootstraps (x : Exchange LocalEndpoint A) (pd : Nat → ProtectionDomain)
    (memory_addr : Nat → UInt64) (algorithm : BarrierAlgorithm) (config : Nat → ChannelConfig)
    (prepared : Nat → PreparedNode) : Prop where
  built : ∀ i < x.config.world_size, PreparedNode.build i x.config.world_size (pd i) (memory_addr i)
    algorithm (config i) = .ok (prepared i)
  data : ∀ i < x.config.world_size, x.data i = (prepared i).endpoint
  transmissible : ∀ i < x.config.world_size,
    Exchanger.Transmissible x.serde ⟨i, (prepared i).endpoint⟩
  addresses : x.Distinct

variable {x : Exchange LocalEndpoint A} {pd : Nat → ProtectionDomain}
  {memory_addr : Nat → UInt64} {algorithm : BarrierAlgorithm} {config : Nat → ChannelConfig}
  {prepared : Nat → PreparedNode} {driver : Nat → ModifyQp} {node : Nat → ConnectedNode}

theorem startup_handshakes (hstarted : ∀ i < x.config.world_size,
      (prepared i).startup (driver i) (.ok ((List.range x.config.world_size).map x.data)) =
        .ok (node i)) :
    ∃ remote : Nat → RemoteEndpoints, ∀ i < x.config.world_size,
    (prepared i).gather_endpoints ((List.range x.config.world_size).map x.data) = .ok (remote i) ∧
      (prepared i).handshake (driver i) (remote i) = .ok (node i) := by
  have hremote : ∀ i < x.config.world_size, ∃ remote,
      (prepared i).gather_endpoints ((List.range x.config.world_size).map x.data) = .ok remote ∧
        (prepared i).handshake (driver i) remote = .ok (node i) := by
    intro i hi
    obtain ⟨_, remote, hexchanged, hgather, hshake⟩ := PreparedNode.startup_cases (hstarted i hi)
    obtain rfl := Except.ok.inj hexchanged
    exact ⟨remote, hgather, hshake⟩
  have hnonempty : Nonempty RemoteEndpoints := ⟨⟨[]⟩⟩
  choose! remote hremote using hremote
  exact ⟨remote, hremote⟩

namespace Bootstraps

variable (h : Bootstraps x pd memory_addr algorithm config prepared)

include h

theorem transmits : x.Transmits := by
  intro i hi
  have hserde := h.transmissible i hi
  rw [← h.data i hi] at hserde
  exact hserde.write_stream

theorem endpoints : (List.range x.config.world_size).map x.data =
    (List.range x.config.world_size).map (fun j => (prepared j).endpoint) := by
  apply List.map_congr_left
  intro j hj
  exact h.data j (List.mem_range.mp hj)

/-- The endpoints of all nodes are complete for each of them. -/
theorem gathers {i : Nat} (hi : i < x.config.world_size) : ∃ remote, (prepared i).gather_endpoints
    ((List.range x.config.world_size).map x.data) = .ok remote := by
  obtain ⟨hrank, hsize, _⟩ := PreparedNode.build_spec (h.built i hi)
  rw [PreparedNode.gather_endpoints_isOk_iff, h.endpoints, hrank, hsize]
  constructor
  · have hranks : ∀ j ∈ List.range x.config.world_size,
        (LocalEndpoint.rank ∘ fun j => (prepared j).endpoint) j = id j :=
      fun j hj => (PreparedNode.build_spec (h.built j (List.mem_range.mp hj))).1
    rw [List.map_map, List.map_congr_left hranks, List.map_id]
  · intro endpoint hendpoint
    obtain ⟨j, hj, rfl⟩ := List.mem_map.mp hendpoint
    obtain ⟨_, _, hlength, _⟩ := PreparedNode.build_spec (h.built j (List.mem_range.mp hj))
    rw [PreparedNode.endpoint, PreparedMultiChannel.endpoints, List.length_map, List.length_map,
      hlength]
    exact hi

/-- A node starts up when it has heard from all and its driver connects its queue pairs. -/
theorem startup_result [DecidableEq A] {w : AwaitWorld LocalEndpoint} {es : List AwaitEvent}
    (hrun : x.awaitSystem.run es = some w) {i : Nat} (hi : i < x.config.world_size)
    {exchanged : Except ExchangeError (List LocalEndpoint)}
    (hresult : w.result i = some exchanged) (driver : ModifyQp) :
    (∃ error, Exchange.GivesUp error ∧
      (prepared i).startup driver exchanged = .error (.Exchange error)) ∨
    (∃ error, (prepared i).startup driver exchanged = .error (.Handshake error) ∧
      ∃ channel ∈ (prepared i).multi_channel.channels, ∃ attr, driver channel.endpoint attr ≠ 0) ∨
    ∃ node, (prepared i).startup driver exchanged = .ok node := by
  have hinv := Exchange.await_inv h.transmits h.addresses hrun
  rcases Exchange.result_cases hinv hrun hi hresult with rfl | ⟨error, rfl, herror⟩
  · right
    obtain ⟨remote, hgather⟩ := h.gathers hi
    obtain ⟨_, hsize, hchannels, _⟩ := PreparedNode.build_spec (h.built i hi)
    have hremote := PreparedNode.gather_endpoints_length hgather
    rw [PreparedNode.startup_ok hgather]
    cases hshake : (prepared i).handshake driver remote with
    | error error =>
      rw [← hsize] at hchannels
      exact Or.inl ⟨error, rfl, PreparedNode.handshake_eq_error hchannels hremote hshake⟩
    | ok node => exact Or.inr ⟨node, rfl⟩
  · exact Or.inl ⟨error, herror, PreparedNode.startup_error error⟩

section Started

variable (hstarted : ∀ i < x.config.world_size, (prepared i).startup (driver i)
  (.ok ((List.range x.config.world_size).map x.data)) = .ok (node i))

include hstarted

/-- Channel `j` of node `i` and channel `i` of node `j` are connected, and node `i` has got the
barrier memory of node `j`. -/
theorem connected {i j : Nat} (hi : i < x.config.world_size) (hj : j < x.config.world_size) :
    (∃ ch back, (node i).multi_channel.channels[j]? = some ch ∧
      (node j).multi_channel.channels[i]? = some back ∧
      ch.qp.remote = some back.qp.endpoint ∧ back.qp.remote = some ch.qp.endpoint) ∧
    (node i).barrier.barrier_mr.remote_mrs[j]? = some (prepared j).barrier.remote_mr := by
  obtain ⟨remote, hremote⟩ := startup_handshakes hstarted
  have hall : ∀ i < x.config.world_size, ((List.range x.config.world_size).map x.data).Perm
      ((List.range x.config.world_size).map (fun j => (prepared j).endpoint)) :=
    fun _ _ => .of_eq h.endpoints
  obtain ⟨channel, back, ch, hij, hji, hch, hown, hpeer, hregion, _⟩ := channel_connected h.built
    hall (fun i hi => (hremote i hi).1) (fun i hi => (hremote i hi).2) hi hj
  obtain ⟨back', channel', ch', hji', hij', hch', hown', hpeer', _⟩ := channel_connected h.built
    hall (fun i hi => (hremote i hi).1) (fun i hi => (hremote i hi).2) hj hi
  obtain rfl := Option.some.inj (hji.symm.trans hji')
  obtain rfl := Option.some.inj (hij.symm.trans hij')
  exact ⟨⟨ch, ch', hch, hch', by rw [hpeer, hown'], by rw [hpeer', hown]⟩, hregion⟩

/-- The barrier of a node is a new one, with the regions of all nodes. -/
theorem barrier_eq {i : Nat} (hi : i < x.config.world_size) :
    (node i).barrier = (prepared i).barrier.link_remote
      ((List.range x.config.world_size).map (fun j => (prepared j).barrier.remote_mr)) := by
  obtain ⟨remote, hremote⟩ := startup_handshakes hstarted
  obtain ⟨hgather, hshake⟩ := hremote i hi
  rw [PreparedNode.handshake_barrier hshake]
  congr 1
  have hlength := PreparedNode.gather_endpoints_length hgather
  rw [(PreparedNode.build_spec (h.built i hi)).2.1] at hlength
  apply List.ext_getElem?
  intro j
  rcases Nat.lt_or_ge j x.config.world_size with hj | hj
  · have hregion := (h.connected hstarted hi hj).2
    rw [PreparedNode.handshake_barrier hshake] at hregion
    have hentry : ((List.range x.config.world_size).map
        (fun j => (prepared j).barrier.remote_mr))[j]? = some (prepared j).barrier.remote_mr := by
      rw [List.getElem?_map, List.getElem?_range hj]
      rfl
    rw [hentry, ← hregion]
    rfl
  · rw [List.getElem?_eq_none (by simpa [hlength] using hj),
      List.getElem?_eq_none (by simpa using hj)]

theorem toBarrier {i : Nat} (hi : i < x.config.world_size) :
    (node i).barrier.toBarrier = Barrier.new algorithm i x.config.world_size := by
  rw [h.barrier_eq hstarted hi]
  exact (PreparedNode.build_barrier (h.built i hi)).2 _

theorem linked (hfits : ∀ i < x.config.world_size,
      (memory_addr i).toNat + x.config.world_size * BarrierPeerFlags.size ≤ 2 ^ 64) :
    Linked x.config.world_size (fun i => (node i).barrier.barrier_mr) := by
  have hlinked := linked_of_new
    (fun i hi => (PreparedNode.build_barrier (h.built i hi)).1) hfits
  apply hlinked.congr
  intro i hi
  simp only [h.barrier_eq hstarted hi]
  rfl

/-- A memory that holds the array of a started node is zero there. -/
theorem get_eq_zero (hfits : ∀ i < x.config.world_size,
      (memory_addr i).toNat + x.config.world_size * BarrierPeerFlags.size ≤ 2 ^ 64)
    {i q : Nat} (hi : i < x.config.world_size) (hq : q < x.config.world_size) {mem : ByteMemory}
    (hholds : (node i).barrier.barrier_mr.view mem = (node i).barrier.barrier_mr.toBarrierMr)
    (field : EpochField) : (node i).barrier.barrier_mr.get mem q field = 0 := by
  have hnew : (node i).barrier.barrier_mr.toBarrierMr = BarrierMr.new i x.config.world_size :=
    congrArg Barrier.barrier_mr (h.toBarrier hstarted hi)
  have hslots := (h.linked hstarted hfits).slots i hi
  have hslot := (node i).barrier.barrier_mr.view_flags mem (by rw [hslots]; exact hq)
  rw [hholds, hnew, BarrierMr.flags_new] at hslot
  cases field with
  | expected_in_epoch => exact (congrArg BarrierPeerFlags.expected_in_epoch hslot).symm
  | out_epoch => exact (congrArg BarrierPeerFlags.out_epoch hslot).symm
  | in_epoch => exact (congrArg BarrierPeerFlags.in_epoch hslot).symm

end Started

end Bootstraps

/-- The start of a node fails in the exchange or in the driver, and nowhere else. If all nodes
start up, their channels are connected in pairs, a notification takes the channel to its peer, and
from the memory they start with every run of their barriers is safe. -/
theorem network_starts_up [DecidableEq A]
    (h : Bootstraps x pd memory_addr algorithm config prepared)
    (hfits : ∀ i < x.config.world_size,
      (memory_addr i).toNat + x.config.world_size * BarrierPeerFlags.size ≤ 2 ^ 64)
    {w : AwaitWorld LocalEndpoint} {es : List AwaitEvent} (hrun : x.awaitSystem.run es = some w) :
    (∀ i < x.config.world_size, ∀ exchanged, w.result i = some exchanged → ∀ driver,
      (∃ error, Exchange.GivesUp error ∧
        (prepared i).startup driver exchanged = .error (.Exchange error)) ∨
      (∃ error, (prepared i).startup driver exchanged = .error (.Handshake error) ∧
        ∃ channel ∈ (prepared i).multi_channel.channels, ∃ attr,
          driver channel.endpoint attr ≠ 0) ∨
      ∃ node, (prepared i).startup driver exchanged = .ok node) ∧
    ∀ (driver : Nat → ModifyQp) (node : Nat → ConnectedNode),
      (∀ i < x.config.world_size, ∃ exchanged, w.result i = some exchanged ∧
        (prepared i).startup (driver i) exchanged = .ok (node i)) →
      (∀ i < x.config.world_size, ∀ j < x.config.world_size, ∃ ch back,
        (node i).multi_channel.channels[j]? = some ch ∧
        (node j).multi_channel.channels[i]? = some back ∧
        ch.qp.remote = some back.qp.endpoint ∧ back.qp.remote = some ch.qp.endpoint ∧
        ∀ wr, (node i).barrier.barrier_mr.notification j = some wr →
          (node i).multi_channel.channel wr.peer = .ok ch) ∧
      ∀ memory calls, (∀ i < x.config.world_size, (node i).barrier.barrier_mr.view (memory i) =
          (node i).barrier.barrier_mr.toBarrierMr) →
        Agreed x.config.world_size calls → (∀ i, (calls i).length + 1 < 256 ^ 8) →
        (∀ i < x.config.world_size,
          (ByteWorld.start memory calls).node algorithm (fun i => (node i).barrier.barrier_mr) i =
            ⟨(node i).barrier.toBarrier, none, []⟩) ∧
        ∀ fs c, (ByteWorld.system algorithm x.config.world_size
            (fun i => (node i).barrier.barrier_mr) memory calls).run fs = some c →
          ∀ i < x.config.world_size, ∀ before y after, (c.calling i).past = before ++ y :: after →
            y.result = .ok → ∀ j ∈ y.call.peers, c.EnteredMatching algorithm
              (fun i => (node i).barrier.barrier_mr) i j before y.call.peers := by
  constructor
  · intro i hi exchanged hresult driver
    exact h.startup_result hrun hi hresult driver
  · intro driver node hnodes
    have hinv := Exchange.await_inv h.transmits h.addresses hrun
    have hstarted : ∀ i < x.config.world_size, (prepared i).startup (driver i)
        (.ok ((List.range x.config.world_size).map x.data)) = .ok (node i) := by
      intro i hi
      obtain ⟨exchanged, hresult, hstarted⟩ := hnodes i hi
      rcases Exchange.result_cases hinv hrun hi hresult with rfl | ⟨error, rfl, _⟩
      · exact hstarted
      · cases hstarted
    have hlinked := h.linked hstarted hfits
    refine ⟨?_, ?_⟩
    · intro i hi j hj
      obtain ⟨ch, back, hch, hback, hforth, hagain⟩ := (h.connected hstarted hi hj).1
      refine ⟨ch, back, hch, hback, hforth, hagain, ?_⟩
      intro wr hwr
      rw [(hlinked.notifies hi hwr).1, MultiChannel.channel]
      simp only [hch]
    · intro memory calls hholds hagreed hcalls
      refine ⟨?_, ?_⟩
      · intro i hi
        have hnew : (node i).barrier.barrier_mr.toBarrierMr =
            BarrierMr.new i x.config.world_size :=
          congrArg Barrier.barrier_mr (h.toBarrier hstarted hi)
        rw [h.toBarrier hstarted hi, ByteWorld.node]
        simp only [ByteWorld.start, hholds i hi, hnew]
        rfl
      · intro fs c hbytes i hi before y after hpast hok j hj
        have hzero : ∀ i < x.config.world_size, ∀ q < x.config.world_size, ∀ field,
            (node i).barrier.barrier_mr.get (memory i) q field = 0 :=
          fun i hi q hq field => h.get_eq_zero hstarted hfits hi hq (hholds i hi) field
        obtain ⟨ds, a, _, hshows, _⟩ := (ByteWorld.refines hlinked hagreed hcalls hzero).run hbytes
        exact hshows.entered_of_returned hagreed hi hpast hok hj

end Bootstrap

section TwoNodes

open Json

def text (s : String) : List UInt8 := s.toList.map (fun c => UInt8.ofNat c.toNat)

def natural (n : Nat) : List UInt8 := number (n + 1) n

def channelJson (endpoint : NetworkChannelEndpoint) : List UInt8 :=
  text "\x7b\"single_channel_endpoint\":\x7b\"num\":" ++
    natural endpoint.single_channel_endpoint.num.toNat ++
  text ",\"lid\":" ++ natural endpoint.single_channel_endpoint.lid.toNat ++
  text "\x7d,\"barrier_mr_remote\":\x7b\"peer\":" ++ natural endpoint.barrier_mr_remote.peer ++
  text ",\"remote_mr\":\x7b\"addr\":" ++
    natural endpoint.barrier_mr_remote.remote_mr.addr.toNat ++
  text ",\"length\":" ++ natural endpoint.barrier_mr_remote.remote_mr.length.toNat ++
  text ",\"rkey\":" ++ natural endpoint.barrier_mr_remote.remote_mr.rkey.toNat ++
  text "\x7d\x7d\x7d"

/-- The endpoint of a node in JSON. -/
def endpointJson (endpoint : LocalEndpoint) : List UInt8 :=
  text "\x7b\"rank\":" ++ natural endpoint.rank ++ text ",\"endpoints\":[" ++
    [44].intercalate (endpoint.endpoints.map channelJson) ++ text "]\x7d"

def endpointOfJson (bytes : List UInt8) : Option LocalEndpoint :=
  ([0, 1].map (fun i => (preparedPair i).endpoint)).find?
    (fun endpoint => endpointJson endpoint = bytes)

def endpointSerde : Serde LocalEndpoint := jsonSerde endpointJson endpointOfJson

def endpointExchange : Exchange LocalEndpoint String where
  serde := endpointSerde
  resolve := id
  config := Exchange.pair.config
  data i := (preparedPair i).endpoint

theorem preparedPair_bootstraps : Bootstraps endpointExchange device (fun _ => 4096) .BinaryTree
    (fun _ => {}) preparedPair where
  built i hi := by
    change i < 2 at hi
    interval_cases i <;> rfl
  data _ _ := rfl
  transmissible i hi := by
    change i < 2 at hi
    have hdecodes : endpointOfJson (endpointJson (preparedPair i).endpoint) =
        some (preparedPair i).endpoint := by
      interval_cases i <;> decide +kernel
    obtain ⟨encoded, henc, hdec⟩ := @jsonSerde_decodes _ endpointJson endpointOfJson
      ⟨i, (preparedPair i).endpoint⟩ hdecodes
    refine ⟨encoded, henc, hdec, ?_⟩
    obtain rfl := Except.ok.inj henc
    interval_cases i <;> decide +kernel
  addresses := Exchange.pair_distinct

def startedPair (i : Nat) : ConnectedNode where
  rank := i
  world_size := 2
  multi_channel :=
    (((preparedPair i).multi_channel.handshake (fun _ _ => 0) ((remotePair i).endpoints.map
      NetworkChannelEndpoint.single_channel_endpoint)).toOption).getD ⟨[]⟩
  barrier := (preparedPair i).barrier.link_remote
    ((remotePair i).endpoints.map NetworkChannelEndpoint.barrier_mr_remote)

/-- Node 0 hears from its child and answers it on registered memory. -/
def leaderByteRun : List ByteEvent :=
  [.enter 0, .enter 1, .advance 1, .advance 1, .write 1 0, .advance 0, .advance 0, .advance 0,
    .advance 0, .write 0 1, .complete 0 1, .advance 0, .control 0 .ret]

theorem network_starts_up_two : ∃ w c, endpointExchange.awaitSystem.run ([.bind 0, .close 0,
      .bind 1, .connect 0 1, .accept 1, .write 1, .deliver 0 false 294, .read 0, .write 0,
      .deliver 0 true 294, .read 1, .close 1, .finish 1, .finish 0].map .act) = some w ∧
    (∀ i < 2, ∃ exchanged, w.result i = some exchanged ∧
      (preparedPair i).startup (fun _ _ => 0) exchanged = .ok (startedPair i)) ∧
    (ByteWorld.system .BinaryTree 2 (fun i => (startedPair i).barrier.barrier_mr) (fun _ _ => 0)
      twoNodes).run leaderByteRun = some c ∧
    c.EnteredMatching .BinaryTree (fun i => (startedPair i).barrier.barrier_mr) 0 1 [] [0, 1] := by
  obtain ⟨w, hrun, hstate⟩ := Option.map_eq_some_iff.mp (show (endpointExchange.awaitSystem.run
    ([.bind 0, .close 0, .bind 1, .connect 0 1, .accept 1, .write 1, .deliver 0 false 294, .read 0,
      .write 0, .deliver 0 true 294, .read 1, .close 1, .finish 1, .finish 0].map .act)).map
      (fun w => [0, 1].map (fun i => ((w.result i).isSome, (w.failed i).isNone))) =
        some [(true, true), (true, true)] by decide +kernel)
  have hinv := Exchange.await_inv preparedPair_bootstraps.transmits
    preparedPair_bootstraps.addresses hrun
  have hnodes : ∀ i < 2, ∃ exchanged, w.result i = some exchanged ∧
      (preparedPair i).startup (fun _ _ => 0) exchanged = .ok (startedPair i) := by
    intro i hi
    have hdone : (w.result i).isSome = true ∧ (w.failed i).isNone = true := by
      simp only [List.map_cons, List.map_nil, List.cons.injEq, Prod.mk.injEq] at hstate
      interval_cases i
      · exact hstate.1
      · exact hstate.2.1
    obtain ⟨exchanged, hresult⟩ := Option.isSome_iff_exists.mp hdone.1
    refine ⟨exchanged, hresult, ?_⟩
    rw [(Exchange.result_of_inv hinv hi hresult (Option.isNone_iff_eq_none.mp hdone.2)).1]
    interval_cases i <;> rfl
  have hfits : ∀ i < 2, (4096 : UInt64).toNat + 2 * BarrierPeerFlags.size ≤ 2 ^ 64 :=
    fun _ _ => by decide
  have hholds : ∀ i < 2, (startedPair i).barrier.barrier_mr.view (fun _ => 0) =
      (startedPair i).barrier.barrier_mr.toBarrierMr := by
    intro i hi
    interval_cases i <;> rfl
  have hcalls : ∀ i, (twoNodes i).length + 1 < 256 ^ 8 := by
    intro i
    unfold twoNodes
    split_ifs <;> decide
  obtain ⟨c, hbytes, hpast⟩ : ∃ c, (ByteWorld.system .BinaryTree 2
      (fun i => (startedPair i).barrier.barrier_mr) (fun _ _ => 0) twoNodes).run leaderByteRun =
        some c ∧ (c.calling 0).past = [returnedCall .BinaryTree 0] := ⟨_, rfl, rfl⟩
  refine ⟨w, c, hrun, hnodes, hbytes, ?_⟩
  exact (((network_starts_up preparedPair_bootstraps hfits hrun).2 _ startedPair hnodes).2
    (fun _ _ => 0) twoNodes hholds twoNodes_agreed hcalls).2 leaderByteRun c hbytes 0 (by decide) []
      (returnedCall .BinaryTree 0) [] hpast rfl 1 (by decide)

end TwoNodes

end IbverbsRs.Network
