import IbverbsRs.Network.Config
import IbverbsRs.Network.TcpExchanger.Serving

namespace IbverbsRs.Network

open Framework

namespace Exchanger

variable {T : Type}

def exchange_connect (serde : Serde T) (data : T) (self_rank start stop : Nat) (stream : TcpStream)
    (received : Received T) : Option (Except ExchangeError (Received T)) :=
  match read_from serde stream with
  | none => none
  | some (.error e) => some (.error e)
  | some (.ok incoming_data) =>
    match write_to serde self_rank data stream with
    | .error e => some (.error e)
    | .ok _ => some (.ok (insert_if_valid incoming_data received start stop).2)

/-- The loop of `exchange_all_connect`. `dial` is the connection to the node of a rank with which
the retries end, `none` when they never do. -/
def connect_loop (serde : Serde T) (data : T) (self_rank start stop : Nat)
    (network : NetworkConfig) (dial : Nat → Option TcpStream) :
    List Nat → Received T → Option (Except ExchangeError (Received T))
  | [], received => some (.ok received)
  | remote_rank :: later, received =>
    match network.get remote_rank with
    | none => some (.error (.InvalidRank remote_rank))
    | some _ =>
      match dial remote_rank with
      | none => none
      | some stream =>
        match exchange_connect serde data self_rank start stop stream received with
        | none => none
        | some (.error e) => some (.error e)
        | some (.ok received) =>
          connect_loop serde data self_rank start stop network dial later received

def exchange_all_connect (serde : Serde T) (data : T) (self_rank start stop : Nat)
    (network : NetworkConfig) (dial : Nat → Option TcpStream) : ExchangeCall (List T) :=
  collect_all start stop
    (connect_loop serde data self_rank start stop network dial (ranks start stop) ∅)

/-- A dialled host that answers with a well-formed message. -/
structure Answer (serde : Serde T) where
  stream : TcpStream
  message : ExchangeMessage T
  delivered : read_from serde stream = some (.ok message)

def Answer.entry {serde : Serde T} (answer : Answer serde) : Nat × T :=
  (answer.message.rank, answer.message.data)

/-- An incomplete map makes the `expect` panic. -/
theorem collect_all_of_not_complete {start stop : Nat} {heard : List (Nat × T)}
    {received : Received T} (h : Gathered (ranks start stop) heard received)
    (hmissing : ¬ Complete (ranks start stop) heard) :
    collect_all start stop (some (.ok received)) = .panicked := by
  cases hcollect : collect (ranks start stop) received with
  | none => simp only [collect_all, hcollect]
  | some vs =>
    exfalso
    apply hmissing
    rw [complete_iff_isSome]
    intro rank hrank
    have hmem : received.lookup rank ∈ vs.map some := by
      rw [(collect_eq_some_iff (ranks_nodup start stop)).mp hcollect]
      exact List.mem_map_of_mem hrank
    obtain ⟨v, _, hv⟩ := List.mem_map.mp hmem
    rw [h rank, if_pos hrank] at hv
    rw [← hv, Option.isSome_some]

section Connecting

variable {serde : Serde T} {data : T} {self_rank start stop : Nat} {network : NetworkConfig}

theorem exchange_connect_answer (answer : Answer serde) (received : Received T) :
    exchange_connect serde data self_rank start stop answer.stream received =
      match write_to serde self_rank data answer.stream with
      | .error e => some (.error e)
      | .ok _ => some (.ok (insert_if_valid answer.message received start stop).2) := by
  simp only [exchange_connect, answer.delivered]

/-- Without an error of writing every answer gets into the map or is dropped. -/
theorem connect_loop_gathers {answers : Nat → Answer serde} {remote_ranks : List Nat}
    (hknown : ∀ rank ∈ remote_ranks, rank < network.world_size)
    (hwritten : ∀ rank ∈ remote_ranks, write_to serde self_rank data (answers rank).stream = .ok ())
    {heard : List (Nat × T)} {received : Received T}
    (h : Gathered (ranks start stop) heard received) :
    ∃ received',
      connect_loop serde data self_rank start stop network (fun rank => some (answers rank).stream)
        remote_ranks received = some (.ok received') ∧
      Gathered (ranks start stop) (heard ++ remote_ranks.map (fun rank => (answers rank).entry))
        received' := by
  induction remote_ranks generalizing heard received with
  | nil => exact ⟨received, rfl, by rwa [List.map_nil, List.append_nil]⟩
  | cons rank later ih =>
    obtain ⟨hrank, hknown⟩ := List.forall_mem_cons.mp hknown
    obtain ⟨hrankWritten, hwritten⟩ := List.forall_mem_cons.mp hwritten
    obtain ⟨node, hnode, _⟩ := network.get_of_lt hrank
    obtain ⟨received', hloop, hgathered⟩ :=
      ih hknown hwritten (insert_if_valid_gathered h (answers rank).message)
    refine ⟨received', ?_, ?_⟩
    · simp only [connect_loop, hnode, exchange_connect_answer, hrankWritten]
      exact hloop
    · rw [List.map_cons, List.append_cons]
      exact hgathered

/-- The first error of writing ends the loop. -/
theorem connect_loop_fails (start stop : Nat) {answers : Nat → Answer serde}
    {remote_ranks : List Nat}
    (hknown : ∀ rank ∈ remote_ranks, rank < network.world_size)
    (hfails : ∃ rank ∈ remote_ranks,
      write_to serde self_rank data (answers rank).stream ≠ .ok ()) (received : Received T) :
    ∃ e, connect_loop serde data self_rank start stop network
      (fun rank => some (answers rank).stream) remote_ranks received = some (.error e) := by
  induction remote_ranks generalizing received with
  | nil =>
    obtain ⟨rank, hrank, _⟩ := hfails
    cases hrank
  | cons rank later ih =>
    obtain ⟨hrank, hknown⟩ := List.forall_mem_cons.mp hknown
    obtain ⟨node, hnode, _⟩ := network.get_of_lt hrank
    cases hwrite : write_to serde self_rank data (answers rank).stream with
    | error e =>
      exact ⟨e, by simp only [connect_loop, hnode, exchange_connect_answer, hwrite]⟩
    | ok _ =>
      have hlater : ∃ other ∈ later,
          write_to serde self_rank data (answers other).stream ≠ .ok () := by
        obtain ⟨other, hother, hbad⟩ := hfails
        rcases List.mem_cons.mp hother with rfl | hother
        · exact absurd hwrite hbad
        · exact ⟨other, hother, hbad⟩
      obtain ⟨e, he⟩ := ih hknown hlater (insert_if_valid (answers rank).message received start stop).2
      refine ⟨e, ?_⟩
      simp only [connect_loop, hnode, exchange_connect_answer, hwrite]
      exact he

/-- The call of `exchange_all` to the nodes of greater rank, whose hosts give these answers. -/
def connected (serde : Serde T) (data : T) (self_rank : Nat) (network : NetworkConfig)
    (answers : Nat → Answer serde) : ExchangeCall (List T) :=
  exchange_all_connect serde data self_rank (self_rank + 1) network.world_size network
    (fun rank => some (answers rank).stream)

/-- What the greater nodes answer, in the order in which they are dialled. -/
def heardFrom (self_rank : Nat) (network : NetworkConfig) (answers : Nat → Answer serde) :
    List (Nat × T) :=
  (ranks (self_rank + 1) network.world_size).map (fun rank => (answers rank).entry)

/-- An error, or one entry for each greater rank in rank order, and never a panic. -/
def ConnectsSafely (serde : Serde T) (data : T) (self_rank : Nat) (network : NetworkConfig)
    (answers : Nat → Answer serde) : Prop :=
  (∃ e, connected serde data self_rank network answers = .returned (.error e)) ∨
  ∃ vs, connected serde data self_rank network answers = .returned (.ok vs) ∧
    vs.map some = (ranks (self_rank + 1) network.world_size).map
      (lastFor (heardFrom self_rank network answers))

/-- The connecting node is safe exactly when its own message cannot be written to some host, or the
answers together claim every greater rank. -/
theorem connects_safely_iff (answers : Nat → Answer serde) :
    ConnectsSafely serde data self_rank network answers ↔
      (∃ rank ∈ ranks (self_rank + 1) network.world_size,
        write_to serde self_rank data (answers rank).stream ≠ .ok ()) ∨
      Complete (ranks (self_rank + 1) network.world_size)
        (heardFrom self_rank network answers) := by
  have hknown : ∀ rank ∈ ranks (self_rank + 1) network.world_size, rank < network.world_size :=
    fun rank hrank => (mem_ranks.mp hrank).2
  by_cases hfails : ∃ rank ∈ ranks (self_rank + 1) network.world_size,
      write_to serde self_rank data (answers rank).stream ≠ .ok ()
  · obtain ⟨e, he⟩ :=
      connect_loop_fails (self_rank + 1) network.world_size hknown hfails ∅
    have hsafe : ConnectsSafely serde data self_rank network answers :=
      Or.inl ⟨e, by simp only [connected, exchange_all_connect, he, collect_all]⟩
    exact iff_of_true hsafe (Or.inl hfails)
  · have hwritten : ∀ rank ∈ ranks (self_rank + 1) network.world_size,
        write_to serde self_rank data (answers rank).stream = .ok () := by
      intro rank hrank
      by_contra hbad
      exact hfails ⟨rank, hrank, hbad⟩
    obtain ⟨received, hloop, hgathered⟩ := connect_loop_gathers hknown hwritten
      (Gathered.empty (ranks (self_rank + 1) network.world_size))
    rw [List.nil_append] at hgathered
    rw [or_iff_right hfails]
    by_cases hcomplete : Complete (ranks (self_rank + 1) network.world_size)
        (heardFrom self_rank network answers)
    · obtain ⟨vs, hcollect, hlast⟩ := collect_all_of_complete hgathered hcomplete
      have hsafe : ConnectsSafely serde data self_rank network answers :=
        Or.inr ⟨vs, by rw [connected, exchange_all_connect, hloop, hcollect], hlast⟩
      exact iff_of_true hsafe hcomplete
    · have hpanic : connected serde data self_rank network answers = .panicked := by
        rw [connected, exchange_all_connect, hloop, collect_all_of_not_complete hgathered hcomplete]
      have hunsafe : ¬ ConnectsSafely serde data self_rank network answers := by
        rw [ConnectsSafely, hpanic]
        intro h
        rcases h with ⟨e, he⟩ | ⟨vs, hvs, _⟩
        · cases he
        · cases hvs
      exact iff_of_false hunsafe hcomplete

end Connecting

def twoHosts : List NodeConfig := [⟨"a", 1, "mlx5_0", 0, ""⟩, ⟨"b", 1, "mlx5_0", 1, ""⟩]

theorem validate_twoHosts : RawNetworkConfig.validate twoHosts = none := rfl

def twoNodes : NetworkConfig :=
  ⟨twoHosts, (RawNetworkConfig.validate_none validate_twoHosts).1,
    (RawNetworkConfig.validate_none validate_twoHosts).2⟩

/-- A host that answers with the rank of the node that dialled it makes that node panic. -/
theorem panics_on_false_rank :
    RawNetworkConfig.build ⟨twoNodes.hosts⟩ = .ok twoNodes ∧
    ∃ answer : Answer boolSerde, answer.message = ⟨0, true⟩ ∧
      write_to boolSerde 0 true answer.stream = .ok () ∧
      connected boolSerde true 0 twoNodes (fun _ => answer) = .panicked ∧
      ¬ ConnectsSafely boolSerde true 0 twoNodes (fun _ => answer) := by
  have hpanic : exchange_all_connect boolSerde true 0 1 2 twoNodes
      (fun _ => some (sending 0 true)) = .panicked := by rfl
  refine ⟨rfl, ⟨sending 0 true, ⟨0, true⟩, by rfl⟩, rfl, rfl, hpanic, ?_⟩
  intro h
  rcases h with ⟨e, he⟩ | ⟨vs, hvs, _⟩
  · cases hpanic.symm.trans he
  · cases hpanic.symm.trans hvs

end Exchanger

end IbverbsRs.Network
