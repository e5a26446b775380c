import IbverbsRs.Network.TcpExchanger.Dialing
import IbverbsRs.Network.TcpExchanger.Json
import Mathlib.Algebra.BigOperators.Intervals
import Mathlib.Data.Finset.Sigma
import Mathlib.Tactic.IntervalCases

namespace IbverbsRs.Network

open Framework Exchanger

/-- The step only repeats a refused connection. -/
def ExchangeEvent.isRetry : ExchangeEvent → Bool
  | retry _ => true
  | _ => false

namespace Exchange

section Results

variable {T A : Type} (x : Exchange T A) {w w' : ExchangeWorld T}

/-- No two nodes listen on the same address. -/
def Distinct : Prop :=
  ∀ i j, i < x.config.world_size → j < x.config.world_size → x.address i = x.address j → i = j

theorem collect_lower {received : Received T} {i : Nat} (h : x.HasLower received i)
    (hfull : i ≤ received.keys.length) :
    collect (List.range i) received = some ((List.range i).map x.data) := by
  apply collect_eq List.nodup_range
  intro j hj
  have hheard := h.full x hfull (List.mem_range.mp hj)
  exact (h j hheard).2

theorem collect_greater {received : Received T} {i n : Nat} (h : x.HasGreater received i n) :
    collect (List.range' (i + 1) (n - (i + 1))) received =
      some ((List.range' (i + 1) (n - (i + 1))).map x.data) := by
  apply collect_eq List.nodup_range'
  intro m hm
  obtain ⟨h1, h2⟩ := List.mem_range'_1.mp hm
  exact h m h1 (by omega)

/-- The data of the lower ranks, the own data and the data of the greater ranks. -/
theorem assemble (data : Nat → T) {i n : Nat} (h : i < n) :
    (List.range i).map data ++ [data i] ++ (List.range' (i + 1) (n - (i + 1))).map data =
      (List.range n).map data := by
  have hsplit : List.range n = List.range i ++ [i] ++ List.range' (i + 1) (n - (i + 1)) := by
    rw [← List.range_succ, List.range_eq_range', List.range_eq_range']
    have happend := List.range'_append_1 (s := 0) (m := i + 1) (n := n - (i + 1))
    rw [Nat.zero_add] at happend
    rw [happend]
    congr 1
    omega
  rw [hsplit]
  simp only [List.map_append, List.map_cons, List.map_nil]

theorem start_inv : x.Inv start := by
  refine ⟨?_, ?_, ?_, ?_, ?_, ?_, ?_⟩
  · intro i
    trivial
  · intro c conn hc
    simp [start] at hc
  · intro c c' conn conn' hc
    simp [start] at hc
  · intro i
    exact List.nodup_nil
  · intro i c hc
    simp [start] at hc
  · intro j i _ _ hs
    simp [start, ExchangePc.served] at hs
  · intro j i hji _ hd
    change i < j + 1 at hd
    omega

theorem Inv.unknown (hi : x.Inv w) {i : Nat} (hmissing : x.config.get i = none)
    (hpc : w.pc i = .bind) (e : ExchangeError) : x.Inv (w.setPc i (.done (.error e))) := by
  have hn : x.config.world_size ≤ i := List.getElem?_eq_none_iff.mp hmissing
  apply hi.move x (i := i) (.done (.error e))
  · rfl
  · intro k _
    rfl
  · exact List.Sublist.refl _
  · rfl
  · simp only [NodeOk, ExchangeWorld.setPc_self]
    exact Or.inl hn
  · intro c conn hc
    obtain ⟨hlt, hserver, hlink⟩ := hi.link c conn hc
    refine hlink.move x rfl (fun k _ => rfl) ?_ ?_
    · intro hs
      omega
    · intro hclient k hk
      exact (hk.serving x (hclient ▸ hlt) (Or.inl hpc)).elim
  · intro j _ hlt
    omega
  · intro k hik hk
    omega

theorem Step.inv {ev : ExchangeEvent} (h : x.Step w ev w') (ht : x.Transmits) (hd : x.Distinct)
    (hi : x.Inv w) : x.Inv w' := by
  have hwrites {i : Nat} {e : ExchangeError} (hn : i < x.config.world_size)
      (hfail : write_stream x.serde (x.rankid i) (x.data i) = .error e) : False := by
    obtain ⟨bytes, hbytes, _⟩ := ht i hn
    rw [rankid_eq, hbytes] at hfail
    cases hfail
  cases h with
  | unknown pc missing => exact hi.unknown x missing pc _
  | bound pc known => exact hi.bound x pc known
  | accepted pc queued => exact hi.accepted x pc queued
  | @closed i received lower pc full collected =>
    rw [rankid_eq] at full collected ⊢
    have hnode := hi.node i
    rw [NodeOk, pc] at hnode
    rw [x.collect_lower hnode.2 full] at collected
    exact hi.closed x pc full (Option.some.inj collected).symm
  | @closePanicked i received pc full lost =>
    rw [rankid_eq] at full lost
    have hnode := hi.node i
    rw [NodeOk, pc] at hnode
    rw [x.collect_lower hnode.2 full] at lost
    cases lost
  | connected pc known server listening reached =>
    obtain rfl := hd _ _ server known reached
    exact hi.connected x pc known listening
  | retried => exact hi
  | serveWritten pc found written =>
    rw [rankid_eq] at written
    exact hi.serveWritten x pc found written
  | connectWritten pc found written =>
    rw [rankid_eq] at written
    exact hi.connectWritten x pc found written
  | @writeFailed i e busy failed =>
    have hnode := hi.node i
    rcases busy with ⟨received, c, pc⟩ | ⟨lower, k, received, c, pc⟩
    · rw [NodeOk, pc] at hnode
      exact (hwrites hnode.1 failed).elim
    · rw [NodeOk, pc] at hnode
      exact (hwrites (Nat.lt_trans hnode.2.1 hnode.2.2.1) failed).elim
  | served pc found message =>
    rw [rankid_eq]
    obtain ⟨msg, hmsg, hinv⟩ := hi.served_step x ht pc found message
    obtain rfl := Except.ok.inj hmsg
    exact hinv
  | answered pc found message =>
    rw [rankid_eq]
    obtain ⟨msg, hmsg, hinv⟩ := hi.answered_step x ht pc found message
    obtain rfl := Except.ok.inj hmsg
    exact hinv
  | readFailed found failed =>
    rcases failed with ⟨⟨received, pc⟩, message⟩ | ⟨⟨lower, k, received, pc⟩, message⟩
    · obtain ⟨msg, hmsg, _⟩ := hi.served_step x ht pc found message
      cases hmsg
    · obtain ⟨msg, hmsg, _⟩ := hi.answered_step x ht pc found message
      cases hmsg
  | delivered found => exact hi.delivered x found
  | @finished i k lower greater received pc last collected =>
    rw [rankid_eq] at collected
    have hnode := hi.node i
    rw [NodeOk, pc] at hnode
    obtain ⟨hlower, hik, hk, hgreater⟩ := hnode
    obtain rfl : k = x.config.world_size := Nat.le_antisymm hk last
    rw [x.collect_greater hgreater] at collected
    apply hi.finished x pc last
    rw [hlower, ← Option.some.inj collected]
    exact assemble x.data hik
  | @finishPanicked i k lower received pc last lost =>
    rw [rankid_eq] at lost
    have hnode := hi.node i
    rw [NodeOk, pc] at hnode
    obtain ⟨hlower, hik, hk, hgreater⟩ := hnode
    obtain rfl : k = x.config.world_size := Nat.le_antisymm hk last
    rw [x.collect_greater hgreater] at lost
    cases lost

/-- A listener whose lower nodes are all done has heard from each of them. -/
theorem heard_of_done (hi : x.Inv w) {i : Nat} {received : Received T}
    (hn : i < x.config.world_size) (hpc : w.pc i = .accept received) {j : Nat} (hji : j < i)
    {result : Except ExchangeError (List T)} (hdone : w.pc j = .done result) : j ∈ received := by
  have hpassed : i < (w.pc j).dialed j x.config.world_size := by
    rw [hdone]
    exact hn
  obtain ⟨c, conn, hfound, rfl, rfl⟩ := hi.dialed j i hji hn hpassed
  obtain ⟨_, _, s, k, hs, hk, hstreams⟩ := hi.link c conn hfound
  cases hk with
  | reading pc => simp [hdone] at pc
  | writing pc => simp [hdone] at pc
  | complete _ =>
    cases hs with
    | queued _ _ _ => cases hstreams
    | writing _ _ _ => cases hstreams
    | reading pc _ _ => simp [hpc] at pc
    | complete pc _ => simpa [ExchangePc.served, hpc] using pc

/-- Every pair of nodes has at most one connection. -/
theorem connections_le (hi : x.Inv w) :
    w.connections.length ≤ x.config.world_size * (x.config.world_size - 1) / 2 := by
  let ends (c : Nat) : Sigma (fun _ : Nat => Nat) :=
    (w.connections[c]?).elim ⟨0, 0⟩ (fun conn => ⟨conn.server, conn.client⟩)
  have hends {c : Nat} (hc : c < w.connections.length) :
      ends c = ⟨w.connections[c].server, w.connections[c].client⟩ := by
    simp [ends, List.getElem?_eq_getElem hc]
  have hmaps : ∀ c ∈ Finset.range w.connections.length,
      ends c ∈ (Finset.range x.config.world_size).sigma (fun i => Finset.range i) := by
    intro c hc
    have hlt := Finset.mem_range.mp hc
    obtain ⟨hclient, hserver, _⟩ := hi.link c _ (List.getElem?_eq_getElem hlt)
    rw [hends hlt]
    exact Finset.mem_sigma.mpr ⟨Finset.mem_range.mpr hserver, Finset.mem_range.mpr hclient⟩
  have hinj : Set.InjOn ends (Finset.range w.connections.length) := by
    intro c hc c' hc' heq
    have hlt := Finset.mem_range.mp hc
    have hlt' := Finset.mem_range.mp hc'
    rw [hends hlt, hends hlt'] at heq
    injection heq with hserver hclient
    exact hi.pair c c' _ _ (List.getElem?_eq_getElem hlt) (List.getElem?_eq_getElem hlt')
      hclient hserver
  have hcard := Finset.card_le_card_of_injOn ends hmaps hinj
  rw [Finset.card_range, Finset.card_sigma] at hcard
  simp only [Finset.card_range] at hcard
  rw [Finset.sum_range_id] at hcard
  exact hcard

end Results

section Agreement

variable {T A : Type} [DecidableEq A] (x : Exchange T A) {w : ExchangeWorld T}

theorem run_inv (ht : x.Transmits) (hd : x.Distinct) {es : List ExchangeEvent}
    (hrun : x.system.run es = some w) : x.Inv w :=
  x.system.invariant x.start_inv
    (fun _ _ _ hi hstep => Step.inv x (x.step_spec hstep) ht hd hi) hrun

/-- Some node gets further, or some bytes arrive. -/
def CanMove (w : ExchangeWorld T) : Prop :=
  ∃ ev w', ev.isRetry = false ∧ x.step w ev = some w'

theorem canMove_of_isSome (ev : ExchangeEvent) (hev : ev.isRetry = false)
    (h : (x.step w ev).isSome) : x.CanMove w := by
  obtain ⟨w', hw'⟩ := Option.isSome_iff_exists.mp h
  exact ⟨ev, w', hev, hw'⟩

/-- A reader whose message has been written is not stuck. -/
theorem canMove_read (ht : x.Transmits) {r c i : Nat} {conn : Connection} {s : ByteStream}
    (toServer : Bool) (hr : r < x.config.world_size) (hfound : w.connections[c]? = some conn)
    (hunderway : conn.underway toServer = s.underway)
    (hwritten : write_stream x.serde r (x.data r) = .ok s.total)
    (hreads : ∀ msg rest, read_stream x.serde s.arrived = some (.ok msg, rest) →
      (x.read w i).isSome) : x.CanMove w := by
  by_cases hall : s.underway = []
  · -- the whole message has arrived
    obtain ⟨bytes, hbytes, hwhole, _⟩ := ht r hr
    obtain rfl := Except.ok.inj (hbytes.symm.trans hwritten)
    rw [ByteStream.total, hall, List.append_nil] at hwhole
    exact x.canMove_of_isSome (.read i) rfl (hreads _ _ hwhole)
  · apply x.canMove_of_isSome (.deliver c toServer 1) rfl
    simp only [step, ExchangeWorld.deliver, hfound]
    rw [hunderway, if_pos ⟨Nat.one_pos, List.length_pos_iff.mpr hall⟩]
    rfl

theorem canMove_bind (hd : x.Distinct) {i : Nat} (hn : i < x.config.world_size)
    (hpc : w.pc i = .bind) : x.CanMove w := by
  obtain ⟨node, hnode, _⟩ := x.config.get_of_lt hn
  have hfree : x.bound w (x.address i) = false := by
    by_contra hbound
    rw [Bool.not_eq_false, bound, List.any_eq_true] at hbound
    obtain ⟨j, hj, hlistens⟩ := hbound
    rw [Bool.and_eq_true, beq_iff_eq] at hlistens
    obtain rfl := hd _ _ (List.mem_range.mp hj) hn hlistens.2
    rw [hpc] at hlistens
    exact Bool.noConfusion hlistens.1
  apply x.canMove_of_isSome (.bind i) rfl
  simp [step, bind, hpc, hnode, hfree]

theorem canMove_close {i : Nat} {received : Received T} (hpc : w.pc i = .accept received)
    (hfull : i ≤ received.keys.length) : x.CanMove w := by
  apply x.canMove_of_isSome (.close i) rfl
  simp only [step, close, hpc, rankid_eq, Nat.not_lt.mpr hfull, if_false]
  split <;> rfl

theorem canMove_accept {i c : Nat} {received : Received T} (hpc : w.pc i = .accept received)
    (hmore : received.keys.length < i) (hc : c ∈ w.backlog i) : x.CanMove w := by
  apply x.canMove_of_isSome (.accept i) rfl
  simp only [step, accept, hpc, rankid_eq, hmore, if_true]
  cases hb : w.backlog i with
  | nil => simp [hb] at hc
  | cons c rest => rfl

theorem canMove_serveWrite (hi : x.Inv w) (ht : x.Transmits) {i c : Nat} {received : Received T}
    (hpc : w.pc i = .serveWrite received c) : x.CanMove w := by
  have hnode := hi.node i
  rw [NodeOk, hpc] at hnode
  obtain ⟨conn, hfound, _⟩ := hi.serveWrite x hpc
  obtain ⟨bytes, hbytes, _⟩ := ht i hnode.1
  apply x.canMove_of_isSome (.write i) rfl
  simp [step, write, hpc, hfound, hbytes]

theorem canMove_connectWrite (hi : x.Inv w) (ht : x.Transmits) {i k c : Nat} {lower : List T}
    {received : Received T} (hpc : w.pc i = .connectWrite lower k received c) : x.CanMove w := by
  have hnode := hi.node i
  rw [NodeOk, hpc] at hnode
  obtain ⟨conn, hfound, _⟩ := hi.connectWrite x hpc
  obtain ⟨bytes, hbytes, _⟩ := ht i (Nat.lt_trans hnode.2.1 hnode.2.2.1)
  apply x.canMove_of_isSome (.write i) rfl
  simp [step, write, hpc, hfound, hbytes]

/-- The server has written, and its client reads. -/
theorem canMove_offered (hi : x.Inv w) (ht : x.Transmits) {j i c : Nat} {lower : List T}
    {received : Received T} {conn : Connection} (hpc : w.pc j = .connectRead lower i received c)
    (hfound : w.connections[c]? = some conn)
    (hwritten : write_stream x.serde i (x.data i) = .ok conn.toClient.total) : x.CanMove w := by
  have hnode := hi.node j
  rw [NodeOk, hpc] at hnode
  apply x.canMove_read ht false hnode.2.2.1 hfound rfl hwritten (i := j)
  intro msg rest hread
  simp [read, hpc, hfound, hread]

theorem canMove_serveRead (hi : x.Inv w) (ht : x.Transmits) {i c : Nat} {received : Received T}
    (hpc : w.pc i = .serveRead received c) : x.CanMove w := by
  obtain ⟨conn, k, hfound, hserver, _, _, hclient, hstreams⟩ := hi.serveRead x hpc
  obtain ⟨hlt, hn, _⟩ := hi.link c conn hfound
  cases hstreams with
  | offered _ toClient =>
    rw [hserver] at toClient
    cases hclient with
    | reading pc => exact x.canMove_offered hi ht pc hfound toClient
  | taken _ _ =>
    cases hclient with
    | writing pc => exact x.canMove_connectWrite hi ht pc
  | sent toServer _ =>
    apply x.canMove_read ht true (Nat.lt_trans hlt hn) hfound rfl toServer (i := i)
    intro msg rest hread
    simp [read, hpc, hfound, hread]

theorem canMove_connectRead (hi : x.Inv w) (ht : x.Transmits) {j i c : Nat} {lower : List T}
    {received : Received T} (hpc : w.pc j = .connectRead lower i received c) : x.CanMove w := by
  obtain ⟨conn, s, hfound, _, hserver, hs, hstreams⟩ := hi.connectRead x hpc
  cases hs with
  | writing pc _ _ => exact x.canMove_serveWrite hi ht pc
  | reading pc _ _ => exact x.canMove_serveRead hi ht pc
  | complete _ _ => cases hstreams
  | queued pc _ waits =>
    cases hk : w.pc i with
    | accept heard =>
      rcases Nat.lt_or_ge heard.keys.length i with hmore | hfull
      · exact x.canMove_accept hk hmore waits
      · exact x.canMove_close hk hfull
    | serveWrite heard c' => exact x.canMove_serveWrite hi ht hk
    | serveRead heard c' => exact x.canMove_serveRead hi ht hk
    | _ => simp [hk, ExchangePc.serving] at pc

/-- A node that dials gets through, or the node it dials has not bound its address yet. -/
theorem canMove_dial (hi : x.Inv w) (hd : x.Distinct) {j k : Nat} {lower : List T}
    {received : Received T} (hpc : w.pc j = .dial lower k received) : x.CanMove w := by
  have hnode := hi.node j
  rw [NodeOk, hpc] at hnode
  obtain ⟨_, hjk, _, _⟩ := hnode
  by_cases hk : k < x.config.world_size
  · have hserved (h : (w.pc k).served j) : False := by
      have hpassed := hi.served j k hjk hk h
      rw [hpc] at hpassed
      exact Nat.lt_irrefl _ hpassed
    have hreach (hlistening : (w.pc k).listening = true) : x.CanMove w := by
      obtain ⟨node, hget, _⟩ := x.config.get_of_lt hk
      apply x.canMove_of_isSome (.connect j k) rfl
      simp [step, connect, hpc, hk, hget, hlistening]
    cases hq : w.pc k with
    | bind => exact x.canMove_bind hd hk hq
    | accept _ | serveWrite _ _ | serveRead _ _ => exact hreach (by rw [hq]; rfl)
    | dial _ _ _ | connectRead _ _ _ _ | connectWrite _ _ _ _ | done _ =>
      exact (hserved (by rw [hq]; trivial)).elim
    | panicked =>
      have hpanic := hi.node k
      rw [NodeOk, hq] at hpanic
      exact hpanic.elim
  · apply x.canMove_of_isSome (.finish j) rfl
    simp only [step, finish, hpc, hk, if_false]
    split <;> rfl

/-- Only the lowest listener matters: the nodes below it are done, and one of them is missing. -/
theorem not_stuck (hi : x.Inv w) (ht : x.Transmits) (hd : x.Distinct) {i : Nat}
    (hn : i < x.config.world_size) (hundone : ∀ result, w.pc i ≠ .done result) : x.CanMove w := by
  induction i using Nat.strong_induction_on with
  | _ i ih =>
    cases hpc : w.pc i with
    | bind => exact x.canMove_bind hd hn hpc
    | serveWrite _ _ => exact x.canMove_serveWrite hi ht hpc
    | serveRead _ _ => exact x.canMove_serveRead hi ht hpc
    | dial _ _ _ => exact x.canMove_dial hi hd hpc
    | connectRead _ _ _ _ => exact x.canMove_connectRead hi ht hpc
    | connectWrite _ _ _ _ => exact x.canMove_connectWrite hi ht hpc
    | done result => exact (hundone result hpc).elim
    | panicked =>
      have hpanic := hi.node i
      rw [NodeOk, hpc] at hpanic
      exact hpanic.elim
    | accept received =>
      rcases Nat.lt_or_ge received.keys.length i with hmore | hfull
      · by_cases hlower : ∃ j, j < i ∧ ∀ result, w.pc j ≠ .done result
        · obtain ⟨j, hji, hj⟩ := hlower
          exact ih j hji (Nat.lt_trans hji hn) hj
        · have hall : List.range i ⊆ received.keys := by
            intro j hj
            have hji := List.mem_range.mp hj
            have hdone : ∃ result, w.pc j = .done result := by
              by_contra hnot
              exact hlower ⟨j, hji, fun result hr => hnot ⟨result, hr⟩⟩
            obtain ⟨result, hr⟩ := hdone
            exact AList.mem_keys.mp (x.heard_of_done hi hn hpc hji hr)
          have hlen := (List.subperm_of_subset List.nodup_range hall).length_le
          rw [List.length_range] at hlen
          omega
      · exact x.canMove_close hpc hfull

/-- With distinct addresses and messages that fit a frame the exchange never gets stuck, makes
at most one exchange per pair, and gives every node the data of all. -/
theorem exchange_all_agrees (hinverts : x.serde.Inverts)
    (hfits : ∀ r < x.config.world_size, ∀ encoded, x.serde.to_vec ⟨r, x.data r⟩ = .ok encoded →
      encoded.length ≤ 4294967295) (hdistinct : x.Distinct) {es : List ExchangeEvent}
    (hrun : x.system.run es = some w) :
    ((∃ i < x.config.world_size, ∀ result, w.pc i ≠ .done result) → x.CanMove w) ∧
    w.connections.length ≤ x.config.world_size * (x.config.world_size - 1) / 2 ∧
    ∀ i < x.config.world_size, w.pc i ≠ .panicked ∧ ∀ result, w.pc i = .done result →
      result = .ok ((List.range x.config.world_size).map x.data) := by
  have ht : x.Transmits := fun r hr => write_stream_spec hinverts (hfits r hr)
  have hi := x.run_inv ht hdistinct hrun
  refine ⟨?_, x.connections_le hi, ?_⟩
  · intro hundone
    obtain ⟨i, hn, hi'⟩ := hundone
    exact x.not_stuck hi ht hdistinct hn hi'
  · intro i hn
    have hnode := hi.node i
    constructor
    · intro hpanic
      rw [NodeOk, hpanic] at hnode
      exact hnode
    · intro result hdone
      rw [NodeOk, hdone] at hnode
      exact hnode.resolve_left (Nat.not_le.mpr hn)

end Agreement

def pair : Exchange Bool String where
  serde := boolSerde
  resolve := id
  config := ⟨[⟨"a", 1, "mlx5_0", 0, ""⟩, ⟨"b", 1, "mlx5_0", 1, ""⟩], by simp, by
    intro i n hn
    rcases i with _ | _ | i <;> simp at hn <;> rw [← hn]⟩
  data r := r == 0

theorem pair_distinct : pair.Distinct := by
  intro i j hi hj
  change i < 2 at hi
  change j < 2 at hj
  interval_cases i <;> interval_cases j <;> decide

theorem exchange_all_agrees_two : ∃ w,
    pair.system.run [.bind 0, .close 0, .retry 0, .bind 1, .connect 0 1, .accept 1, .write 1,
      .deliver 0 false 20, .deliver 0 false 7, .read 0, .write 0, .deliver 0 true 26, .read 1,
      .close 1, .finish 1, .finish 0] = some w ∧
    w.connections.length = 1 ∧ w.pc 1 ≠ .panicked ∧
    ∀ result, w.pc 1 = .done result → result = .ok [true, false] := by
  obtain ⟨w, hrun, hlen⟩ := Option.map_eq_some_iff.mp (show (pair.system.run [.bind 0, .close 0,
    .retry 0, .bind 1, .connect 0 1, .accept 1, .write 1, .deliver 0 false 20, .deliver 0 false 7,
    .read 0, .write 0, .deliver 0 true 26, .read 1, .close 1, .finish 1, .finish 0]).map
      (fun w => w.connections.length) = some 1 by decide +kernel)
  have hfits : ∀ r < 2, ∀ encoded, boolSerde.to_vec ⟨r, r == 0⟩ = .ok encoded →
      encoded.length ≤ 4294967295 := by
    intro r hr encoded h
    obtain rfl := Except.ok.inj h
    interval_cases r <;> decide
  obtain ⟨_, _, hall⟩ := pair.exchange_all_agrees boolSerde_inverts hfits pair_distinct hrun
  obtain ⟨hsafe, hdone⟩ := hall 1 (by decide)
  exact ⟨w, hrun, hlen, hsafe, hdone⟩

/-- The second and the third node share a host and a port. -/
def crowded : Exchange Bool String where
  serde := boolSerde
  resolve := id
  config := ⟨[⟨"a", 1, "mlx5_0", 0, ""⟩, ⟨"b", 1, "mlx5_0", 1, ""⟩, ⟨"b", 1, "mlx5_1", 2, ""⟩],
    by simp, by
      intro i n hn
      rcases i with _ | _ | _ | i <;> simp at hn <;> rw [← hn]⟩
  data r := r == 0

/-- The letter `a`, written `n` times between quotes. -/
def longSerde : Serde Nat :=
  jsonSerde (fun n => 34 :: (List.replicate n 97 ++ [34])) (fun bytes => some (bytes.length - 2))

theorem longSerde_inverts : longSerde.Inverts := by
  apply jsonSerde_inverts
  intro n
  simp

theorem longSerde_too_large {n : Nat} (h : 4294967276 ≤ n) :
    write_stream longSerde 1 n = .error (.MessageTooLarge (n + 20)) := by
  have hbig : ¬ n + 20 ≤ 4294967295 := by omega
  simp [write_stream, longSerde, jsonSerde, Json.head, Json.middle, Json.number, hbig]

def long : Exchange Nat String where
  serde := longSerde
  resolve := id
  config := pair.config
  data _ := 4294967296

/-- Two nodes that share an address make a third one panic, and a message too large to be framed
ends a node with an error. -/
theorem exchange_can_fail :
    (∃ w, RawNetworkConfig.build ⟨crowded.config.hosts⟩ = .ok crowded.config ∧
      crowded.serde.Inverts ∧
      crowded.system.run [.bind 0, .close 0, .bind 2, .connect 0 2, .accept 2, .write 2,
        .deliver 0 false 27, .read 0, .write 0, .deliver 0 true 26, .read 2, .connect 0 2, .accept 2,
        .write 2, .deliver 1 false 27, .read 0, .write 0, .deliver 1 true 26, .read 2, .finish 0] =
          some w ∧
      w.pc 0 = .panicked) ∧
    ∃ w, RawNetworkConfig.build ⟨long.config.hosts⟩ = .ok long.config ∧
      long.serde.Inverts ∧ long.Distinct ∧
      long.system.run [.bind 0, .close 0, .bind 1, .connect 0 1, .accept 1, .write 1] = some w ∧
      w.pc 1 = .done (.error (.MessageTooLarge 4294967316)) := by
  constructor
  · obtain ⟨w, hrun, hpc⟩ := Option.map_eq_some_iff.mp (show (crowded.system.run [.bind 0,
      .close 0, .bind 2, .connect 0 2, .accept 2, .write 2, .deliver 0 false 27, .read 0, .write 0,
      .deliver 0 true 26, .read 2, .connect 0 2, .accept 2, .write 2, .deliver 1 false 27, .read 0,
      .write 0, .deliver 1 true 26, .read 2, .finish 0]).map
        (fun w => match w.pc 0 with | .panicked => true | _ => false) = some true by decide +kernel)
    refine ⟨w, rfl, boolSerde_inverts, hrun, ?_⟩
    split at hpc
    · assumption
    · cases hpc
  · obtain ⟨w, hrun, hstate⟩ := Option.map_eq_some_iff.mp (show (long.system.run [.bind 0,
      .close 0, .bind 1, .connect 0 1, .accept 1]).map (fun w =>
        (w.connections.length, match w.pc 1 with | .serveWrite _ c => c == 0 | _ => false)) =
      some (1, true) by decide +kernel)
    obtain ⟨hlen, hpc⟩ := Prod.mk.inj hstate
    split at hpc
    · rename_i received c hserve
      rw [eq_of_beq hpc] at hserve
      obtain ⟨conn, hconn⟩ : ∃ conn, w.connections[0]? = some conn :=
        ⟨w.connections[0], List.getElem?_eq_getElem (by omega)⟩
      have hfail : write_stream longSerde (long.rankid 1) (long.data 1) =
          .error (.MessageTooLarge 4294967316) :=
        longSerde_too_large (show 4294967276 ≤ 4294967296 by omega)
      have hstep : long.system.step w (.write 1) =
          some (w.setPc 1 (.done (.error (.MessageTooLarge 4294967316)))) := by
        simp only [system, step, write, hserve, hconn]
        rw [show long.serde = longSerde from rfl, hfail]
      have hrun' := long.system.run_snoc hrun hstep
      refine ⟨_, rfl, longSerde_inverts, pair_distinct, hrun', ?_⟩
      exact ExchangeWorld.setPc_self w 1 _
    · cases hpc

end Exchange

end IbverbsRs.Network
