import IbverbsRs.Network.TcpExchanger.Exchange

namespace IbverbsRs.Network

open Framework Exchanger

namespace ExchangePc

variable {T : Type}

/-- What a node with a live listener has received. -/
def serving : ExchangePc T → Option (Received T)
  | accept received | serveWrite received _ | serveRead received _ => some received
  | _ => none

/-- The node needs no exchange with the lower rank `j` any more. -/
def served (j : Nat) : ExchangePc T → Prop
  | bind | panicked => False
  | accept received | serveWrite received _ | serveRead received _ => j ∈ received
  | dial _ _ _ | connectRead _ _ _ _ | connectWrite _ _ _ _ | done _ => True

/-- The rank up to which node `i` of `n` has exchanged with the greater ones. -/
def dialed (i n : Nat) : ExchangePc T → Nat
  | bind | accept _ | serveWrite _ _ | serveRead _ _ => i + 1
  | dial _ k _ | connectRead _ k _ _ | connectWrite _ k _ _ => k
  | done _ | panicked => n

end ExchangePc

/-- Where the server of a connection stands in its exchange, and where the client. -/
inductive ServerTurn
  | queued
  | writing
  | reading
  | complete

inductive ClientTurn
  | reading
  | writing
  | complete

def ByteStream.total (s : ByteStream) : List UInt8 := s.arrived ++ s.underway

namespace Exchange

variable {T A : Type} (x : Exchange T A)

/-- The turn of server `i` in its exchange with client `j` over connection `c`. -/
inductive ServerAt (w : ExchangeWorld T) (c j i : Nat) : ServerTurn → Prop
  | queued {received : Received T} (pc : (w.pc i).serving = some received) (new : j ∉ received)
      (waits : c ∈ w.backlog i) : ServerAt w c j i .queued
  | writing {received : Received T} (pc : w.pc i = .serveWrite received c) (new : j ∉ received)
      (gone : c ∉ w.backlog i) : ServerAt w c j i .writing
  | reading {received : Received T} (pc : w.pc i = .serveRead received c) (new : j ∉ received)
      (gone : c ∉ w.backlog i) : ServerAt w c j i .reading
  | complete (pc : (w.pc i).served j) (gone : c ∉ w.backlog i) : ServerAt w c j i .complete

inductive ClientAt (w : ExchangeWorld T) (c j i : Nat) : ClientTurn → Prop
  | reading {lower : List T} {received : Received T} (pc : w.pc j = .connectRead lower i received c) :
      ClientAt w c j i .reading
  | writing {lower : List T} {received : Received T} (pc : w.pc j = .connectWrite lower i received c) :
      ClientAt w c j i .writing
  | complete (passed : i < (w.pc j).dialed j x.config.world_size) : ClientAt w c j i .complete

/-- The six phases of an exchange, with the bytes each has on the connection. -/
inductive Streams (conn : Connection) : ServerTurn → ClientTurn → Prop
  | queued (toServer : conn.toServer.total = []) (toClient : conn.toClient.total = []) :
      Streams conn .queued .reading
  | accepted (toServer : conn.toServer.total = []) (toClient : conn.toClient.total = []) :
      Streams conn .writing .reading
  | offered (toServer : conn.toServer.total = [])
      (toClient : write_stream x.serde conn.server (x.data conn.server) = .ok conn.toClient.total) :
      Streams conn .reading .reading
  | taken (toServer : conn.toServer.total = []) (toClient : conn.toClient.total = []) :
      Streams conn .reading .writing
  | sent (toServer : write_stream x.serde conn.client (x.data conn.client) = .ok conn.toServer.total)
      (toClient : conn.toClient.total = []) : Streams conn .reading .complete
  | complete : Streams conn .complete .complete

def Link (w : ExchangeWorld T) (c : Nat) (conn : Connection) : Prop :=
  ∃ s k, ServerAt w c conn.client conn.server s ∧ x.ClientAt w c conn.client conn.server k ∧
    x.Streams conn s k

/-- A server has the data of the ranks it has heard from, and these are lower. -/
def HasLower (received : Received T) (i : Nat) : Prop :=
  ∀ j ∈ received, j < i ∧ received.lookup j = some (x.data j)

/-- A client has the data of the ranks between its own and `k`. -/
def HasGreater (received : Received T) (i k : Nat) : Prop :=
  ∀ m, i < m → m < k → received.lookup m = some (x.data m)

/-- Node `i` serves over connection `c` a client it has not heard from. -/
def Serves (w : ExchangeWorld T) (received : Received T) (c i : Nat) : Prop :=
  ∃ conn, w.connections[c]? = some conn ∧ conn.server = i ∧ conn.client ∉ received ∧
    c ∉ w.backlog i

def Dials (w : ExchangeWorld T) (c i k : Nat) : Prop :=
  ∃ conn, w.connections[c]? = some conn ∧ conn.client = i ∧ conn.server = k

def NodeOk (w : ExchangeWorld T) (i : Nat) : Prop :=
  match w.pc i with
  | .bind => True
  | .accept received => i < x.config.world_size ∧ x.HasLower received i
  | .serveWrite received c | .serveRead received c =>
    i < x.config.world_size ∧ x.HasLower received i ∧ Serves w received c i
  | .dial lower k received => lower = (List.range i).map x.data ∧ i < k ∧
      k ≤ x.config.world_size ∧ x.HasGreater received i k
  | .connectRead lower k received c => lower = (List.range i).map x.data ∧ i < k ∧
      k < x.config.world_size ∧ x.HasGreater received i k ∧ Dials w c i k
  | .connectWrite lower k received c => lower = (List.range i).map x.data ∧ i < k ∧
      k < x.config.world_size ∧ x.HasGreater received i (k + 1) ∧ Dials w c i k
  | .done result => x.config.world_size ≤ i ∨
      result = .ok ((List.range x.config.world_size).map x.data)
  | .panicked => False

/-- The message of every node goes through: it is read when its last byte has arrived. -/
def Transmits : Prop :=
  ∀ r < x.config.world_size, ∃ bytes, write_stream x.serde r (x.data r) = .ok bytes ∧
    read_stream x.serde bytes = some (.ok ⟨r, x.data r⟩, []) ∧
    ∀ arrived missing, arrived ++ missing = bytes → missing ≠ [] →
      read_stream x.serde arrived = none

/-- Every connection is in one of its phases, every pair of nodes has at most one connection,
and it has one exactly when the lower node has got that far. -/
structure Inv (w : ExchangeWorld T) : Prop where
  node : ∀ i, x.NodeOk w i
  link : ∀ c conn, w.connections[c]? = some conn →
    conn.client < conn.server ∧ conn.server < x.config.world_size ∧ x.Link w c conn
  pair : ∀ (c c' : Nat) (conn conn' : Connection), w.connections[c]? = some conn →
    w.connections[c']? = some conn' → conn.client = conn'.client → conn.server = conn'.server → c = c'
  nodup : ∀ i, (w.backlog i).Nodup
  queue : ∀ i, ∀ c ∈ w.backlog i, ∃ conn, w.connections[c]? = some conn ∧ conn.server = i
  served : ∀ j i, j < i → i < x.config.world_size → (w.pc i).served j →
    i < (w.pc j).dialed j x.config.world_size
  dialed : ∀ j i, j < i → i < x.config.world_size → i < (w.pc j).dialed j x.config.world_size →
    ∃ c, Dials w c j i

theorem total_push {s : ByteStream} (h : s.total = []) (bytes : List UInt8) :
    (s.push bytes).total = bytes := by
  have htotal : (s.push bytes).total = s.total ++ bytes := by
    simp [ByteStream.total, ByteStream.push]
  rw [htotal, h, List.nil_append]

theorem total_deliver (s : ByteStream) (n : Nat) : (s.deliver n).total = s.total := by
  simp [ByteStream.total, ByteStream.deliver]

theorem read_stream_empty {s : ByteStream} (h : s.total = []) :
    read_stream x.serde s.arrived = none := by
  rw [(List.append_eq_nil_iff.mp h).1]
  rfl

/-- What is read from a stream with one whole message on it. -/
theorem Transmits.read (ht : x.Transmits) {r : Nat} (hr : r < x.config.world_size)
    {s : ByteStream} (hwritten : write_stream x.serde r (x.data r) = .ok s.total)
    {result : Except ExchangeError (ExchangeMessage T)} {rest : List UInt8}
    (hread : read_stream x.serde s.arrived = some (result, rest)) :
    result = .ok ⟨r, x.data r⟩ ∧ rest = [] ∧ s.underway = [] := by
  obtain ⟨bytes, hbytes, hwhole, hpart⟩ := ht r hr
  obtain rfl : bytes = s.total := Except.ok.inj (hbytes.symm.trans hwritten)
  have hall : s.underway = [] := by
    by_contra hmissing
    rw [hpart s.arrived s.underway rfl hmissing] at hread
    cases hread
  rw [ByteStream.total, hall, List.append_nil, hread] at hwhole
  obtain ⟨hresult, hrest⟩ := Prod.mk.inj (Option.some.inj hwhole)
  exact ⟨hresult, hrest, hall⟩

@[simp] theorem rankid_eq (i : Nat) : x.rankid i = i := by
  unfold rankid
  cases h : x.config.get i with
  | none => rfl
  | some node => exact x.config.ranked i node h

theorem ServerAt.congr {w w' : ExchangeWorld T} {c j i : Nat} {s : ServerTurn}
    (h : ServerAt w c j i s) (hpc : w'.pc i = w.pc i)
    (hbacklog : c ∈ w'.backlog i ↔ c ∈ w.backlog i) : ServerAt w' c j i s := by
  cases h with
  | queued pc new waits => exact .queued (hpc ▸ pc) new (hbacklog.mpr waits)
  | writing pc new gone => exact .writing (hpc ▸ pc) new (fun hmem => gone (hbacklog.mp hmem))
  | reading pc new gone => exact .reading (hpc ▸ pc) new (fun hmem => gone (hbacklog.mp hmem))
  | complete pc gone => exact .complete (hpc ▸ pc) (fun hmem => gone (hbacklog.mp hmem))

theorem ClientAt.congr {w w' : ExchangeWorld T} {c j i : Nat} {k : ClientTurn}
    (h : x.ClientAt w c j i k) (hpc : w'.pc j = w.pc j) : x.ClientAt w' c j i k := by
  cases h with
  | reading pc => exact .reading (hpc ▸ pc)
  | writing pc => exact .writing (hpc ▸ pc)
  | complete passed => exact .complete (hpc ▸ passed)

/-- The exchange a serving node is in the middle of. -/
theorem Inv.serveWrite {w : ExchangeWorld T} (hi : x.Inv w) {i c : Nat} {received : Received T}
    (hpc : w.pc i = .serveWrite received c) : ∃ conn, w.connections[c]? = some conn ∧
      conn.server = i ∧ conn.client ∉ received ∧ c ∉ w.backlog i ∧
      x.ClientAt w c conn.client i .reading ∧ conn.toServer.total = [] ∧ conn.toClient.total = [] := by
  have hnode := hi.node i
  rw [NodeOk, hpc] at hnode
  obtain ⟨_, _, conn, hfound, rfl, hnew, hgone⟩ := hnode
  obtain ⟨_, _, s, k, hs, hk, hstreams⟩ := hi.link c conn hfound
  refine ⟨conn, hfound, rfl, hnew, hgone, ?_⟩
  cases hs with
  | queued pc new waits => exact absurd waits hgone
  | reading pc _ _ => simp [hpc] at pc
  | complete pc _ => exact absurd (by simpa [ExchangePc.served, hpc] using pc) hnew
  | writing _ _ _ =>
    cases hstreams with
    | accepted toServer toClient => exact ⟨hk, toServer, toClient⟩

theorem Inv.serveRead {w : ExchangeWorld T} (hi : x.Inv w) {i c : Nat} {received : Received T}
    (hpc : w.pc i = .serveRead received c) : ∃ conn k, w.connections[c]? = some conn ∧
      conn.server = i ∧ conn.client ∉ received ∧ c ∉ w.backlog i ∧
      x.ClientAt w c conn.client i k ∧ x.Streams conn .reading k := by
  have hnode := hi.node i
  rw [NodeOk, hpc] at hnode
  obtain ⟨_, _, conn, hfound, rfl, hnew, hgone⟩ := hnode
  obtain ⟨_, _, s, k, hs, hk, hstreams⟩ := hi.link c conn hfound
  refine ⟨conn, k, hfound, rfl, hnew, hgone, ?_⟩
  cases hs with
  | queued pc new waits => exact absurd waits hgone
  | writing pc _ _ => simp [hpc] at pc
  | complete pc _ => exact absurd (by simpa [ExchangePc.served, hpc] using pc) hnew
  | reading _ _ _ => exact ⟨hk, hstreams⟩

theorem Inv.connectRead {w : ExchangeWorld T} (hi : x.Inv w) {j i c : Nat} {lower : List T}
    {received : Received T} (hpc : w.pc j = .connectRead lower i received c) :
    ∃ conn s, w.connections[c]? = some conn ∧ conn.client = j ∧ conn.server = i ∧
      ServerAt w c j i s ∧ x.Streams conn s .reading := by
  have hnode := hi.node j
  rw [NodeOk, hpc] at hnode
  obtain ⟨_, _, _, _, conn, hfound, rfl, rfl⟩ := hnode
  obtain ⟨_, _, s, k, hs, hk, hstreams⟩ := hi.link c conn hfound
  refine ⟨conn, s, hfound, rfl, rfl, hs, ?_⟩
  cases hk with
  | reading _ => exact hstreams
  | writing pc => simp [hpc] at pc
  | complete passed =>
    rw [hpc] at passed
    exact absurd passed (Nat.lt_irrefl _)

theorem Inv.connectWrite {w : ExchangeWorld T} (hi : x.Inv w) {j i c : Nat} {lower : List T}
    {received : Received T} (hpc : w.pc j = .connectWrite lower i received c) :
    ∃ conn, w.connections[c]? = some conn ∧ conn.client = j ∧ conn.server = i ∧
      ServerAt w c j i .reading ∧ conn.toServer.total = [] ∧ conn.toClient.total = [] := by
  have hnode := hi.node j
  rw [NodeOk, hpc] at hnode
  obtain ⟨_, _, _, _, conn, hfound, rfl, rfl⟩ := hnode
  obtain ⟨_, _, s, k, hs, hk, hstreams⟩ := hi.link c conn hfound
  refine ⟨conn, hfound, rfl, rfl, ?_⟩
  cases hk with
  | reading pc => simp [hpc] at pc
  | complete passed =>
    rw [hpc] at passed
    exact absurd passed (Nat.lt_irrefl _)
  | writing _ =>
    cases hstreams with
    | taken toServer toClient => exact ⟨hs, toServer, toClient⟩

end Exchange

end IbverbsRs.Network
