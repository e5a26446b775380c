import IbverbsRs.Framework.TransitionSystem
import IbverbsRs.Network.Config
import IbverbsRs.Network.TcpExchanger.Stream
import Mathlib.Logic.Function.Basic
import Mathlib.Tactic.SplitIfs

namespace IbverbsRs.Network

open Framework Exchanger

/-- Where a node stands in `exchange_all`: in the loop of `exchange_all_serve`, or behind it
with the data of the lower ranks in the loop of `exchange_all_connect`. -/
inductive ExchangePc (T : Type)
  | bind
  | accept (received : Received T)
  | serveWrite (received : Received T) (stream : Nat)
  | serveRead (received : Received T) (stream : Nat)
  | dial (lower : List T) (remote_rank : Nat) (received : Received T)
  | connectRead (lower : List T) (remote_rank : Nat) (received : Received T) (stream : Nat)
  | connectWrite (lower : List T) (remote_rank : Nat) (received : Received T) (stream : Nat)
  | done (result : Except ExchangeError (List T))
  | panicked

/-- The `TcpListener` is alive. -/
def ExchangePc.listening {T : Type} : ExchangePc T → Bool
  | accept _ | serveWrite _ _ | serveRead _ _ => true
  | _ => false

/-- One direction of a connection. -/
structure ByteStream where
  arrived : List UInt8
  underway : List UInt8

structure Connection where
  client : Nat
  server : Nat
  toServer : ByteStream
  toClient : ByteStream

/-- The nodes, the connections each listener has not accepted yet, and all connections ever
made. -/
structure ExchangeWorld (T : Type) where
  pc : Nat → ExchangePc T
  backlog : Nat → List Nat
  connections : List Connection

inductive ExchangeEvent
  | bind (i : Nat)
  | accept (i : Nat)
  | close (i : Nat)
  | connect (i j : Nat)
  | retry (i : Nat)
  | write (i : Nat)
  | read (i : Nat)
  | deliver (c : Nat) (toServer : Bool) (n : Nat)
  | finish (i : Nat)

/-- A network whose node `i` calls `exchange_all` with `data i`; `resolve` is the host behind a
hostname. -/
structure Exchange (T A : Type) where
  serde : Serde T
  resolve : String → A
  config : NetworkConfig
  data : Nat → T

namespace ByteStream

def empty : ByteStream := ⟨[], []⟩

def push (s : ByteStream) (bytes : List UInt8) : ByteStream :=
  { s with underway := s.underway ++ bytes }

def deliver (s : ByteStream) (n : Nat) : ByteStream :=
  ⟨s.arrived ++ s.underway.take n, s.underway.drop n⟩

end ByteStream

/-- TCP brings the next `n` bytes of one direction to their reader. -/
def Connection.deliver (conn : Connection) (toServer : Bool) (n : Nat) : Connection :=
  if toServer then { conn with toServer := conn.toServer.deliver n }
  else { conn with toClient := conn.toClient.deliver n }

def Connection.underway (conn : Connection) (toServer : Bool) : List UInt8 :=
  if toServer then conn.toServer.underway else conn.toClient.underway

namespace ExchangeWorld

variable {T : Type}

def setPc (w : ExchangeWorld T) (i : Nat) (pc : ExchangePc T) : ExchangeWorld T :=
  { w with pc := Function.update w.pc i pc }

def setBacklog (w : ExchangeWorld T) (i : Nat) (backlog : List Nat) : ExchangeWorld T :=
  { w with backlog := Function.update w.backlog i backlog }

def setConnection (w : ExchangeWorld T) (c : Nat) (conn : Connection) : ExchangeWorld T :=
  { w with connections := w.connections.set c conn }

@[simp] theorem setPc_self (w : ExchangeWorld T) (i : Nat) (pc : ExchangePc T) :
    (w.setPc i pc).pc i = pc := Function.update_self ..

theorem setPc_of_ne (w : ExchangeWorld T) {i k : Nat} (pc : ExchangePc T) (h : k ≠ i) :
    (w.setPc i pc).pc k = w.pc k := Function.update_of_ne h ..

@[simp] theorem setPc_backlog (w : ExchangeWorld T) (i : Nat) (pc : ExchangePc T) :
    (w.setPc i pc).backlog = w.backlog := rfl

@[simp] theorem setPc_connections (w : ExchangeWorld T) (i : Nat) (pc : ExchangePc T) :
    (w.setPc i pc).connections = w.connections := rfl

@[simp] theorem setBacklog_self (w : ExchangeWorld T) (i : Nat) (backlog : List Nat) :
    (w.setBacklog i backlog).backlog i = backlog := Function.update_self ..

@[simp] theorem setBacklog_pc (w : ExchangeWorld T) (i : Nat) (backlog : List Nat) :
    (w.setBacklog i backlog).pc = w.pc := rfl

@[simp] theorem setBacklog_connections (w : ExchangeWorld T) (i : Nat) (backlog : List Nat) :
    (w.setBacklog i backlog).connections = w.connections := rfl

@[simp] theorem setConnection_pc (w : ExchangeWorld T) (c : Nat) (conn : Connection) :
    (w.setConnection c conn).pc = w.pc := rfl

@[simp] theorem setConnection_backlog (w : ExchangeWorld T) (c : Nat) (conn : Connection) :
    (w.setConnection c conn).backlog = w.backlog := rfl

/-- A client is connected to a server, which has not accepted it yet. -/
def addConnection (w : ExchangeWorld T) (client server : Nat) : ExchangeWorld T :=
  { w with
    connections := w.connections ++ [Connection.mk client server .empty .empty]
    backlog := Function.update w.backlog server (w.backlog server ++ [w.connections.length]) }

def deliver (w : ExchangeWorld T) (c : Nat) (toServer : Bool) (n : Nat) :
    Option (ExchangeWorld T) :=
  match w.connections[c]? with
  | none => none
  | some conn =>
    if 0 < n ∧ n ≤ (conn.underway toServer).length then
      some (w.setConnection c (conn.deliver toServer n))
    else none

end ExchangeWorld

namespace Exchange

variable {T A : Type} [DecidableEq A] (x : Exchange T A)

/-- `self_node.rankid` -/
def rankid (i : Nat) : Nat := ((x.config.get i).map NodeConfig.rankid).getD i

def address (i : Nat) : Option (A × UInt16) :=
  (x.config.get i).map (fun node => (x.resolve node.hostname, node.port))

/-- Some live listener is bound to the address. -/
def bound (w : ExchangeWorld T) (address : Option (A × UInt16)) : Bool :=
  (List.range x.config.world_size).any (fun j => (w.pc j).listening && x.address j == address)

/-- Binding an address in use is an I/O error, and left out. -/
def bind (w : ExchangeWorld T) (i : Nat) : Option (ExchangeWorld T) :=
  match w.pc i with
  | .bind =>
    match x.config.get i with
    | none => some (w.setPc i (.done (.error (.InvalidRank i))))
    | some _ =>
      if x.bound w (x.address i) then none else some ((w.setPc i (.accept ∅)).setBacklog i [])
  | _ => none

def accept (w : ExchangeWorld T) (i : Nat) : Option (ExchangeWorld T) :=
  match w.pc i with
  | .accept received =>
    if received.keys.length < x.rankid i then
      match w.backlog i with
      | [] => none
      | c :: rest => some ((w.setPc i (.serveWrite received c)).setBacklog i rest)
    else none
  | _ => none

/-- The end of `exchange_all_serve`. -/
def close (w : ExchangeWorld T) (i : Nat) : Option (ExchangeWorld T) :=
  match w.pc i with
  | .accept received =>
    if received.keys.length < x.rankid i then none
    else
      match collect (List.range (x.rankid i)) received with
      | none => some ((w.setPc i .panicked).setBacklog i [])
      | some lower => some ((w.setPc i (.dial lower (x.rankid i + 1) ∅)).setBacklog i [])
  | _ => none

/-- `TcpStream::connect` reaches the listener of node `j` if that is bound to the address. -/
def connect (w : ExchangeWorld T) (i j : Nat) : Option (ExchangeWorld T) :=
  match w.pc i with
  | .dial lower remote_rank received =>
    if remote_rank < x.config.world_size then
      match x.config.get remote_rank with
      | none => some (w.setPc i (.done (.error (.InvalidRank remote_rank))))
      | some _ =>
        if j < x.config.world_size ∧ (w.pc j).listening ∧ x.address j = x.address remote_rank then
          some ((w.addConnection i j).setPc i
            (.connectRead lower remote_rank received w.connections.length))
        else none
    else none
  | _ => none

def retry (w : ExchangeWorld T) (i : Nat) : Option (ExchangeWorld T) :=
  match w.pc i with
  | .dial _ remote_rank _ =>
    if remote_rank < x.config.world_size ∧ !x.bound w (x.address remote_rank) then some w else none
  | _ => none

def write (w : ExchangeWorld T) (i : Nat) : Option (ExchangeWorld T) :=
  match w.pc i with
  | .serveWrite received c =>
    match w.connections[c]?, write_stream x.serde (x.rankid i) (x.data i) with
    | none, _ => none
    | _, .error e => some (w.setPc i (.done (.error e)))
    | some conn, .ok bytes => some ((w.setPc i (.serveRead received c)).setConnection c
        { conn with toClient := conn.toClient.push bytes })
  | .connectWrite lower remote_rank received c =>
    match w.connections[c]?, write_stream x.serde (x.rankid i) (x.data i) with
    | none, _ => none
    | _, .error e => some (w.setPc i (.done (.error e)))
    | some conn, .ok bytes => some ((w.setPc i (.dial lower (remote_rank + 1) received)).setConnection c
        { conn with toServer := conn.toServer.push bytes })
  | _ => none

def read (w : ExchangeWorld T) (i : Nat) : Option (ExchangeWorld T) :=
  match w.pc i with
  | .serveRead received c =>
    (w.connections[c]?).bind (fun conn =>
      match read_stream x.serde conn.toServer.arrived with
      | none => none
      | some (.error e, _) => some (w.setPc i (.done (.error e)))
      | some (.ok msg, rest) => some ((w.setPc i
          (.accept (insert_if_valid msg received 0 (x.rankid i)).2)).setConnection c
          { conn with toServer := { conn.toServer with arrived := rest } }))
  | .connectRead lower remote_rank received c =>
    (w.connections[c]?).bind (fun conn =>
      match read_stream x.serde conn.toClient.arrived with
      | none => none
      | some (.error e, _) => some (w.setPc i (.done (.error e)))
      | some (.ok msg, rest) => some ((w.setPc i (.connectWrite lower remote_rank
          (insert_if_valid msg received (x.rankid i + 1) x.config.world_size).2 c)).setConnection c
          { conn with toClient := { conn.toClient with arrived := rest } }))
  | _ => none

/-- The end of `exchange_all_connect` and of `exchange_all`. -/
def finish (w : ExchangeWorld T) (i : Nat) : Option (ExchangeWorld T) :=
  match w.pc i with
  | .dial lower remote_rank received =>
    if remote_rank < x.config.world_size then none
    else
      match collect (List.range' (x.rankid i + 1) (x.config.world_size - (x.rankid i + 1)))
          received with
      | none => some (w.setPc i .panicked)
      | some greater => some (w.setPc i (.done (.ok (lower ++ [x.data i] ++ greater))))
  | _ => none

def step (w : ExchangeWorld T) : ExchangeEvent → Option (ExchangeWorld T)
  | .bind i => x.bind w i
  | .accept i => x.accept w i
  | .close i => x.close w i
  | .connect i j => x.connect w i j
  | .retry i => x.retry w i
  | .write i => x.write w i
  | .read i => x.read w i
  | .deliver c toServer n => w.deliver c toServer n
  | .finish i => x.finish w i

def start : ExchangeWorld T := ⟨fun _ => .bind, fun _ => [], []⟩

def system : TransitionSystem (ExchangeWorld T) ExchangeEvent := ⟨start, x.step⟩

/-- Everything a step can do. -/
inductive Step (w : ExchangeWorld T) : ExchangeEvent → ExchangeWorld T → Prop
  | unknown {i : Nat} (pc : w.pc i = .bind) (missing : x.config.get i = none) :
      Step w (.bind i) (w.setPc i (.done (.error (.InvalidRank i))))
  | bound {i : Nat} (pc : w.pc i = .bind) (known : i < x.config.world_size) :
      Step w (.bind i) ((w.setPc i (.accept ∅)).setBacklog i [])
  | accepted {i c : Nat} {received : Received T} {rest : List Nat} (pc : w.pc i = .accept received)
      (queued : w.backlog i = c :: rest) :
      Step w (.accept i) ((w.setPc i (.serveWrite received c)).setBacklog i rest)
  | closed {i : Nat} {received : Received T} {lower : List T} (pc : w.pc i = .accept received)
      (full : x.rankid i ≤ received.keys.length)
      (collected : collect (List.range (x.rankid i)) received = some lower) :
      Step w (.close i) ((w.setPc i (.dial lower (x.rankid i + 1) ∅)).setBacklog i [])
  | closePanicked {i : Nat} {received : Received T} (pc : w.pc i = .accept received)
      (full : x.rankid i ≤ received.keys.length)
      (lost : collect (List.range (x.rankid i)) received = none) :
      Step w (.close i) ((w.setPc i .panicked).setBacklog i [])
  | connected {i j remote_rank : Nat} {lower : List T} {received : Received T}
      (pc : w.pc i = .dial lower remote_rank received) (known : remote_rank < x.config.world_size)
      (server : j < x.config.world_size) (listening : (w.pc j).listening = true)
      (reached : x.address j = x.address remote_rank) :
      Step w (.connect i j) ((w.addConnection i j).setPc i
        (.connectRead lower remote_rank received w.connections.length))
  | retried {i : Nat} : Step w (.retry i) w
  | serveWritten {i c : Nat} {received : Received T} {conn : Connection} {bytes : List UInt8}
      (pc : w.pc i = .serveWrite received c) (found : w.connections[c]? = some conn)
      (written : write_stream x.serde (x.rankid i) (x.data i) = .ok bytes) :
      Step w (.write i) ((w.setPc i (.serveRead received c)).setConnection c
        { conn with toClient := conn.toClient.push bytes })
  | connectWritten {i c remote_rank : Nat} {lower : List T} {received : Received T}
      {conn : Connection} {bytes : List UInt8}
      (pc : w.pc i = .connectWrite lower remote_rank received c)
      (found : w.connections[c]? = some conn)
      (written : write_stream x.serde (x.rankid i) (x.data i) = .ok bytes) :
      Step w (.write i) ((w.setPc i (.dial lower (remote_rank + 1) received)).setConnection c
        { conn with toServer := conn.toServer.push bytes })
  | writeFailed {i : Nat} {e : ExchangeError}
      (busy : (∃ received c, w.pc i = .serveWrite received c) ∨
        ∃ lower remote_rank received c, w.pc i = .connectWrite lower remote_rank received c)
      (failed : write_stream x.serde (x.rankid i) (x.data i) = .error e) :
      Step w (.write i) (w.setPc i (.done (.error e)))
  | served {i c : Nat} {received : Received T} {conn : Connection} {msg : ExchangeMessage T}
      {rest : List UInt8} (pc : w.pc i = .serveRead received c)
      (found : w.connections[c]? = some conn)
      (message : read_stream x.serde conn.toServer.arrived = some (.ok msg, rest)) :
      Step w (.read i) ((w.setPc i
        (.accept (insert_if_valid msg received 0 (x.rankid i)).2)).setConnection c
        { conn with toServer := { conn.toServer with arrived := rest } })
  | answered {i c remote_rank : Nat} {lower : List T} {received : Received T} {conn : Connection}
      {msg : ExchangeMessage T} {rest : List UInt8}
      (pc : w.pc i = .connectRead lower remote_rank received c)
      (found : w.connections[c]? = some conn)
      (message : read_stream x.serde conn.toClient.arrived = some (.ok msg, rest)) :
      Step w (.read i) ((w.setPc i (.connectWrite lower remote_rank
        (insert_if_valid msg received (x.rankid i + 1) x.config.world_size).2 c)).setConnection c
        { conn with toClient := { conn.toClient with arrived := rest } })
  | readFailed {i c : Nat} {conn : Connection} {e : ExchangeError} {rest : List UInt8}
      (found : w.connections[c]? = some conn)
      (failed : ((∃ received, w.pc i = .serveRead received c) ∧
          read_stream x.serde conn.toServer.arrived = some (.error e, rest)) ∨
        (∃ lower remote_rank received, w.pc i = .connectRead lower remote_rank received c) ∧
          read_stream x.serde conn.toClient.arrived = some (.error e, rest)) :
      Step w (.read i) (w.setPc i (.done (.error e)))
  | delivered {c n : Nat} {conn : Connection} {toServer : Bool}
      (found : w.connections[c]? = some conn) :
      Step w (.deliver c toServer n) (w.setConnection c (conn.deliver toServer n))
  | finished {i remote_rank : Nat} {lower greater : List T} {received : Received T}
      (pc : w.pc i = .dial lower remote_rank received) (last : x.config.world_size ≤ remote_rank)
      (collected : collect (List.range' (x.rankid i + 1)
        (x.config.world_size - (x.rankid i + 1))) received = some greater) :
      Step w (.finish i) (w.setPc i (.done (.ok (lower ++ [x.data i] ++ greater))))
  | finishPanicked {i remote_rank : Nat} {lower : List T} {received : Received T}
      (pc : w.pc i = .dial lower remote_rank received) (last : x.config.world_size ≤ remote_rank)
      (lost : collect (List.range' (x.rankid i + 1)
        (x.config.world_size - (x.rankid i + 1))) received = none) :
      Step w (.finish i) (w.setPc i .panicked)

theorem step_spec {w w' : ExchangeWorld T} {ev : ExchangeEvent} (h : x.step w ev = some w') :
    x.Step w ev w' := by
  cases ev with
  | bind i =>
    simp only [step, bind] at h
    split at h
    · split at h
      · obtain rfl := Option.some.inj h
        exact .unknown ‹_› ‹_›
      · rename_i node hget
        split_ifs at h
        obtain rfl := Option.some.inj h
        exact .bound ‹_› (List.getElem?_eq_some_iff.mp hget).1
    · cases h
  | accept i =>
    simp only [step, accept] at h
    split at h
    · split_ifs at h
      split at h
      · cases h
      · obtain rfl := Option.some.inj h
        exact .accepted ‹_› ‹_›
    · cases h
  | close i =>
    simp only [step, close] at h
    split at h
    · split_ifs at h with hfull
      split at h
      · obtain rfl := Option.some.inj h
        exact .closePanicked ‹_› (Nat.le_of_not_lt hfull) ‹_›
      · obtain rfl := Option.some.inj h
        exact .closed ‹_› (Nat.le_of_not_lt hfull) ‹_›
    · cases h
  | connect i j =>
    simp only [step, connect] at h
    split at h
    · rename_i lower remote_rank received hpc
      by_cases hknown : remote_rank < x.config.world_size
      · obtain ⟨node, hnode, _⟩ := x.config.get_of_lt hknown
        simp only [hknown, if_true, hnode] at h
        split_ifs at h with hreach
        obtain rfl := Option.some.inj h
        exact .connected hpc hknown hreach.1 hreach.2.1 hreach.2.2
      · simp [hknown] at h
    · cases h
  | retry i =>
    simp only [step, retry] at h
    split at h
    · split_ifs at h
      obtain rfl := Option.some.inj h
      exact .retried
    · cases h
  | write i =>
    simp only [step, write] at h
    split at h
    · split at h
      · cases h
      · obtain rfl := Option.some.inj h
        exact .writeFailed (Or.inl ⟨_, _, ‹_›⟩) ‹_›
      · obtain rfl := Option.some.inj h
        exact .serveWritten ‹_› ‹_› ‹_›
    · split at h
      · cases h
      · obtain rfl := Option.some.inj h
        exact .writeFailed (Or.inr ⟨_, _, _, _, ‹_›⟩) ‹_›
      · obtain rfl := Option.some.inj h
        exact .connectWritten ‹_› ‹_› ‹_›
    · cases h
  | read i =>
    simp only [step, read] at h
    split at h
    · obtain ⟨conn, hfound, hread⟩ := Option.bind_eq_some_iff.mp h
      split at hread
      · cases hread
      · obtain rfl := Option.some.inj hread
        exact .readFailed hfound (Or.inl ⟨⟨_, ‹_›⟩, ‹_›⟩)
      · obtain rfl := Option.some.inj hread
        exact .served ‹_› hfound ‹_›
    · obtain ⟨conn, hfound, hread⟩ := Option.bind_eq_some_iff.mp h
      split at hread
      · cases hread
      · obtain rfl := Option.some.inj hread
        exact .readFailed hfound (Or.inr ⟨⟨_, _, _, ‹_›⟩, ‹_›⟩)
      · obtain rfl := Option.some.inj hread
        exact .answered ‹_› hfound ‹_›
    · cases h
  | deliver c toServer n =>
    simp only [step, ExchangeWorld.deliver] at h
    split at h
    · cases h
    · rename_i conn hfound
      split_ifs at h
      obtain rfl := Option.some.inj h
      exact .delivered hfound
  | finish i =>
    simp only [step, finish] at h
    split at h
    · split_ifs at h with hlast
      split at h
      · obtain rfl := Option.some.inj h
        exact .finishPanicked ‹_› (Nat.le_of_not_lt hlast) ‹_›
      · obtain rfl := Option.some.inj h
        exact .finished ‹_› (Nat.le_of_not_lt hlast) ‹_›
    · cases h

end Exchange

end IbverbsRs.Network
