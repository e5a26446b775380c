import IbverbsRs.Framework.Gathering
import IbverbsRs.Network.TcpExchanger.Json
import Mathlib.Data.Nat.Find
import Mathlib.Tactic.IntervalCases

namespace IbverbsRs.Network

open Framework

/-- A connection as one end sees it: the bytes its peer sends, the error that ends them, and the
error of writing to it. -/
structure TcpStream where
  incoming : List UInt8
  read_error : Option String
  write_error : Option String

/-- A call waits for a connection or for bytes, or has come to an end. -/
inductive ExchangeCall (α : Type)
  | waiting
  | returned (result : Except ExchangeError α)
  | panicked

namespace Exchanger

variable {T : Type}

/-- `write_stream` on a connection. -/
def write_to (serde : Serde T) (self_rank : Nat) (data : T) (stream : TcpStream) :
    Except ExchangeError Unit :=
  match write_stream serde self_rank data, stream.write_error with
  | .error e, _ => .error e
  | .ok _, some e => .error (.IoError e)
  | .ok _, none => .ok ()

/-- `read_stream` on a connection, `none` while it waits for bytes. -/
def read_from (serde : Serde T) (stream : TcpStream) :
    Option (Except ExchangeError (ExchangeMessage T)) :=
  match read_stream serde stream.incoming with
  | some (incoming_data, _) => some incoming_data
  | none => stream.read_error.map (fun e => .error (.IoError e))

def exchange_serve (serde : Serde T) (data : T) (self_rank start stop : Nat) (stream : TcpStream)
    (received : Received T) : Option (Except ExchangeError (Received T)) :=
  match write_to serde self_rank data stream with
  | .error e => some (.error e)
  | .ok _ =>
    match read_from serde stream with
    | none => none
    | some (.error e) => some (.error e)
    | some (.ok incoming_data) => some (.ok (insert_if_valid incoming_data received start stop).2)

/-- The ranks of a `Range<usize>`. -/
def ranks (start stop : Nat) : List Nat := List.range' start (stop - start)

/-- The loop of `exchange_all_serve`, and the connections it leaves to be accepted. -/
def serve_loop (serde : Serde T) (data : T) (self_rank start stop : Nat) :
    List (Except String TcpStream) → Received T →
      Option (Except ExchangeError (Received T)) × List (Except String TcpStream)
  | [], received =>
    if received.keys.length < (ranks start stop).length then (none, []) else (some (.ok received), [])
  | connection :: later, received =>
    if received.keys.length < (ranks start stop).length then
      match connection with
      | .error e => (some (.error (.IoError e)), later)
      | .ok stream =>
        match exchange_serve serde data self_rank start stop stream received with
        | none => (none, later)
        | some (.error e) => (some (.error e), later)
        | some (.ok received) => serve_loop serde data self_rank start stop later received
    else (some (.ok received), connection :: later)

/-- What comes behind both loops: the data in rank order, or the panic of the `expect`. -/
def collect_all (start stop : Nat) :
    Option (Except ExchangeError (Received T)) → ExchangeCall (List T)
  | none => .waiting
  | some (.error e) => .returned (.error e)
  | some (.ok received) =>
    match collect (ranks start stop) received with
    | none => .panicked
    | some data => .returned (.ok data)

/-- `server` is the error of `TcpListener::bind`, or what each `accept` gives. -/
def exchange_all_serve (serde : Serde T) (data : T) (self_rank start stop : Nat)
    (server : Except String (List (Except String TcpStream))) :
    ExchangeCall (List T) × List (Except String TcpStream) :=
  match server with
  | .error e => (.returned (.error (.IoError e)), [])
  | .ok connections =>
    let (received, later) := serve_loop serde data self_rank start stop connections ∅
    (collect_all start stop received, later)

/-- A connection to which the node's own message can be written, and which delivers a well-formed
one. -/
structure Conversation (serde : Serde T) (self_rank : Nat) (data : T) where
  stream : TcpStream
  message : ExchangeMessage T
  written : write_to serde self_rank data stream = .ok ()
  delivered : read_from serde stream = some (.ok message)

section Gathering

variable {start stop : Nat} {heard : List (Nat × T)} {received : Received T}

theorem mem_ranks {rank : Nat} : rank ∈ ranks start stop ↔ start ≤ rank ∧ rank < stop := by
  rw [ranks, List.mem_range'_1]
  omega

theorem ranks_nodup (start stop : Nat) : (ranks start stop).Nodup := List.nodup_range'

theorem insert_if_valid_gathered (h : Gathered (ranks start stop) heard received)
    (msg : ExchangeMessage T) : Gathered (ranks start stop) (heard ++ [(msg.rank, msg.data)])
      (insert_if_valid msg received start stop).2 := by
  rw [insert_if_valid]
  split_ifs with hvalid
  · exact h.insert (mem_ranks.mpr hvalid)
  · exact h.skip (fun hmem => hvalid (mem_ranks.mp hmem))

theorem length_lt_iff (h : Gathered (ranks start stop) heard received) :
    received.keys.length < (ranks start stop).length ↔ ¬ Complete (ranks start stop) heard := by
  rw [← h.length_le_iff (ranks_nodup start stop), Nat.not_le]

/-- A complete map is collected in rank order. -/
theorem collect_all_of_complete (h : Gathered (ranks start stop) heard received)
    (hcomplete : Complete (ranks start stop) heard) :
    ∃ vs, collect_all start stop (some (.ok received)) = .returned (.ok vs) ∧
      vs.map some = (ranks start stop).map (lastFor heard) := by
  obtain ⟨vs, hlookup, hlast⟩ := h.values hcomplete
  have hcollect := (collect_eq_some_iff (ranks_nodup start stop)).mpr hlookup
  exact ⟨vs, by simp only [collect_all, hcollect], hlast⟩

end Gathering

section Serving

variable {serde : Serde T} {self_rank : Nat} {data : T}

namespace Conversation

def entry (c : Conversation serde self_rank data) : Nat × T := (c.message.rank, c.message.data)

def accepted (c : Conversation serde self_rank data) : Except String TcpStream := .ok c.stream

end Conversation

theorem exchange_serve_conversation (c : Conversation serde self_rank data) (start stop : Nat)
    (received : Received T) : exchange_serve serde data self_rank start stop c.stream received =
      some (.ok (insert_if_valid c.message received start stop).2) := by
  simp only [exchange_serve, c.written, c.delivered]

theorem serve_loop_conversation {start stop : Nat} {received : Received T}
    (hmore : received.keys.length < (ranks start stop).length)
    (c : Conversation serde self_rank data) (later : List (Except String TcpStream)) :
    serve_loop serde data self_rank start stop (c.accepted :: later) received =
      serve_loop serde data self_rank start stop later
        (insert_if_valid c.message received start stop).2 := by
  simp only [serve_loop, Conversation.accepted, if_pos hmore, exchange_serve_conversation]

theorem serve_loop_full {start stop : Nat} {received : Received T}
    (hfull : ¬ received.keys.length < (ranks start stop).length)
    (connections : List (Except String TcpStream)) :
    serve_loop serde data self_rank start stop connections received =
      (some (.ok received), connections) := by
  cases connections with
  | nil => simp only [serve_loop, if_neg hfull]
  | cons connection later =>
    cases connection with
    | error e => simp only [serve_loop, if_neg hfull]
    | ok stream => simp only [serve_loop, if_neg hfull]

variable {start stop : Nat}

/-- As long as a rank is missing the loop accepts. -/
theorem serve_loop_waits {heard : List (Nat × T)} {received : Received T}
    (h : Gathered (ranks start stop) heard received)
    {conversations : List (Conversation serde self_rank data)}
    (hmissing : ¬ Complete (ranks start stop) (heard ++ conversations.map Conversation.entry)) :
    serve_loop serde data self_rank start stop (conversations.map Conversation.accepted) received =
      (none, []) := by
  have hmore := (length_lt_iff h).mpr (fun hcomplete => hmissing (hcomplete.append _))
  induction conversations generalizing heard received with
  | nil => simp only [List.map_nil, serve_loop, if_pos hmore]
  | cons c later ih =>
    rw [List.map_cons, List.append_cons] at hmissing
    have hnext := insert_if_valid_gathered h c.message
    rw [List.map_cons, serve_loop_conversation hmore]
    exact ih hnext hmissing ((length_lt_iff hnext).mpr (fun hcomplete => hmissing (hcomplete.append _)))

/-- With the last missing rank the loop ends. -/
theorem serve_loop_ends (later : List (Conversation serde self_rank data))
    {heard : List (Nat × T)} {received : Received T}
    (h : Gathered (ranks start stop) heard received)
    {conversations : List (Conversation serde self_rank data)}
    (hcomplete : Complete (ranks start stop) (heard ++ conversations.map Conversation.entry))
    (hfirst : ∀ k < conversations.length,
      ¬ Complete (ranks start stop) (heard ++ (conversations.take k).map Conversation.entry)) :
    ∃ received', Gathered (ranks start stop) (heard ++ conversations.map Conversation.entry) received' ∧
      serve_loop serde data self_rank start stop
        ((conversations ++ later).map Conversation.accepted) received =
          (some (.ok received'), later.map Conversation.accepted) := by
  induction conversations generalizing heard received with
  | nil =>
    rw [List.map_nil, List.append_nil] at hcomplete ⊢
    have hfull : ¬ received.keys.length < (ranks start stop).length :=
      fun hmore => (length_lt_iff h).mp hmore hcomplete
    exact ⟨received, h, serve_loop_full hfull _⟩
  | cons c conversations ih =>
    have hmissing := hfirst 0 (Nat.succ_pos _)
    rw [List.take_zero, List.map_nil, List.append_nil] at hmissing
    rw [List.map_cons, List.append_cons] at hcomplete ⊢
    rw [List.cons_append, List.map_cons, serve_loop_conversation ((length_lt_iff h).mpr hmissing)]
    apply ih (insert_if_valid_gathered h c.message) hcomplete
    intro k hk
    have hlater := hfirst (k + 1) (Nat.succ_lt_succ hk)
    rwa [List.take_succ_cons, List.map_cons, List.append_cons] at hlater

/-- The connections that claim a rank of the range. -/
def Conversation.valid (start stop : Nat) (c : Conversation serde self_rank data) : Bool :=
  decide (start ≤ c.message.rank ∧ c.message.rank < stop)

theorem serve_loop_strangers (conversations : List (Conversation serde self_rank data))
    (received : Received T) :
    (serve_loop serde data self_rank start stop
      ((conversations.filter (Conversation.valid start stop)).map Conversation.accepted) received).1 =
    (serve_loop serde data self_rank start stop
      (conversations.map Conversation.accepted) received).1 := by
  induction conversations generalizing received with
  | nil => rfl
  | cons c later ih =>
    by_cases hmore : received.keys.length < (ranks start stop).length
    · by_cases hvalid : start ≤ c.message.rank ∧ c.message.rank < stop
      · have hkept : c.valid start stop = true := decide_eq_true hvalid
        rw [List.filter_cons_of_pos hkept, List.map_cons, List.map_cons,
          serve_loop_conversation hmore, serve_loop_conversation hmore]
        exact ih _
      · have hdropped : ¬ c.valid start stop = true := by simpa [Conversation.valid] using hvalid
        have hsame : (insert_if_valid c.message received start stop).2 = received := by
          rw [insert_if_valid, if_neg hvalid]
        rw [List.filter_cons_of_neg hdropped, List.map_cons, serve_loop_conversation hmore, hsame]
        exact ih received
    · rw [serve_loop_full hmore, serve_loop_full hmore]

/-- `exchange_all_serve` on connections that all deliver a message. -/
def served (start stop : Nat) (conversations : List (Conversation serde self_rank data)) :
    ExchangeCall (List T) × List (Except String TcpStream) :=
  exchange_all_serve serde data self_rank start stop (.ok (conversations.map Conversation.accepted))

theorem served_waits {conversations : List (Conversation serde self_rank data)}
    (hmissing : ¬ Complete (ranks start stop) (conversations.map Conversation.entry)) :
    served start stop conversations = (.waiting, []) := by
  have hwaits := serve_loop_waits (Gathered.empty (ranks start stop)) hmissing
  simp only [served, exchange_all_serve, hwaits, collect_all]

theorem served_returns {conversations : List (Conversation serde self_rank data)} {n : Nat}
    (hcomplete : Complete (ranks start stop) ((conversations.take n).map Conversation.entry))
    (hfirst : ∀ k < n,
      ¬ Complete (ranks start stop) ((conversations.take k).map Conversation.entry)) :
    ∃ vs, served start stop conversations =
        (.returned (.ok vs), (conversations.drop n).map Conversation.accepted) ∧
      vs.map some =
        (ranks start stop).map (lastFor ((conversations.take n).map Conversation.entry)) := by
  have hfirst' : ∀ k < (conversations.take n).length, ¬ Complete (ranks start stop)
      ([] ++ (((conversations.take n).take k).map Conversation.entry)) := by
    intro k hk
    rw [List.length_take] at hk
    rw [List.take_take, Nat.min_eq_left (by omega)]
    exact hfirst k (by omega)
  obtain ⟨received, hgathered, hloop⟩ := serve_loop_ends (conversations.drop n)
    (Gathered.empty (ranks start stop)) hcomplete hfirst'
  rw [List.take_append_drop] at hloop
  obtain ⟨vs, hcollect, hlast⟩ := collect_all_of_complete hgathered hcomplete
  exact ⟨vs, by simp only [served, exchange_all_serve, hloop, hcollect], hlast⟩

/-- The serving node accepts until every rank of the range has been heard, returns what was heard
last from each, and does not care about strangers. -/
theorem serve_tolerates_any_rank (start stop : Nat)
    (conversations : List (Conversation serde self_rank data)) :
    (∀ n, Complete (ranks start stop) ((conversations.take n).map Conversation.entry) →
      (∀ k < n, ¬ Complete (ranks start stop) ((conversations.take k).map Conversation.entry)) →
      ∃ vs, served start stop conversations =
          (.returned (.ok vs), (conversations.drop n).map Conversation.accepted) ∧
        vs.map some =
          (ranks start stop).map (lastFor ((conversations.take n).map Conversation.entry))) ∧
    (¬ Complete (ranks start stop) (conversations.map Conversation.entry) →
      served start stop conversations = (.waiting, [])) ∧
    (served start stop conversations).1 ≠ .panicked ∧
    (served start stop (conversations.filter (Conversation.valid start stop))).1 =
      (served start stop conversations).1 := by
  refine ⟨fun n => served_returns, served_waits, ?_, ?_⟩
  · by_cases hall : Complete (ranks start stop) (conversations.map Conversation.entry)
    · obtain ⟨n, hcomplete, hfirst⟩ : ∃ n,
          Complete (ranks start stop) ((conversations.take n).map Conversation.entry) ∧
          ∀ k < n, ¬ Complete (ranks start stop) ((conversations.take k).map Conversation.entry) := by
        classical
        have hexists : ∃ n,
            Complete (ranks start stop) ((conversations.take n).map Conversation.entry) :=
          ⟨conversations.length, by rwa [List.take_length]⟩
        exact ⟨Nat.find hexists, Nat.find_spec hexists, fun k hk => Nat.find_min hexists hk⟩
      obtain ⟨vs, hserved, _⟩ := served_returns hcomplete hfirst
      rw [hserved]
      intro hpanic
      cases hpanic
    · rw [served_waits hall]
      intro hpanic
      cases hpanic
  · simp only [served, exchange_all_serve, serve_loop_strangers]

end Serving

/-- A connection whose peer sends one message. -/
def sending (rank : Nat) (data : Bool) : TcpStream :=
  ⟨((write_stream boolSerde rank data).toOption).getD [], none, none⟩

/-- What node 2 accepts: rank 1 twice, a stranger in between, rank 0, and rank 1 once more. -/
def callers : List (Conversation boolSerde 2 true) :=
  [⟨sending 1 false, ⟨1, false⟩, rfl, rfl⟩, ⟨sending 7 true, ⟨7, true⟩, rfl, rfl⟩,
    ⟨sending 1 true, ⟨1, true⟩, rfl, rfl⟩, ⟨sending 0 false, ⟨0, false⟩, rfl, rfl⟩,
    ⟨sending 1 false, ⟨1, false⟩, rfl, rfl⟩]

/-- The second message of rank 1 counts, the stranger does not, and the fifth caller is not
accepted; without rank 0 the node waits. -/
theorem serve_tolerates_any_rank_callers :
    served 0 2 callers = (.returned (.ok [false, true]), [.ok (sending 1 false)]) ∧
    served 0 2 (callers.take 3) = (.waiting, []) ∧
    (served 0 2 (callers.filter (Conversation.valid 0 2))).1 = .returned (.ok [false, true]) := by
  obtain ⟨hreturns, _, _, hstrangers⟩ := serve_tolerates_any_rank 0 2 callers
  have hfirst : ∀ k < 4, ¬ Complete (ranks 0 2) ((callers.take k).map Conversation.entry) := by
    intro k hk hcomplete
    obtain ⟨data, hdata⟩ := hcomplete 0 (by decide)
    interval_cases k <;> revert hdata <;> cases data <;> decide
  have hcomplete : Complete (ranks 0 2) ((callers.take 4).map Conversation.entry) := by
    intro rank hrank
    obtain rfl | rfl : rank = 0 ∨ rank = 1 := by
      have := mem_ranks.mp hrank
      omega
    · exact ⟨false, by decide⟩
    · exact ⟨true, by decide⟩
  obtain ⟨vs, hserved, hlast⟩ := hreturns 4 hcomplete hfirst
  obtain rfl : vs = [false, true] :=
    List.map_injective_iff.mpr (Option.some_injective Bool) (hlast.trans rfl)
  refine ⟨hserved, ?_, ?_⟩
  · exact (serve_tolerates_any_rank 0 2 (callers.take 3)).2.1 (hfirst 3 (by decide))
  · rw [hstrangers, hserved]

end Exchanger

end IbverbsRs.Network
