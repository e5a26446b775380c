import IbverbsRs.Network.TcpExchanger.Invariant

namespace IbverbsRs.Network

open Framework Exchanger

namespace Exchange

section Dialing

variable {T A : Type} (x : Exchange T A) {w w' : ExchangeWorld T}

/-- The other connections of a client in the middle of an exchange. -/
theorem ClientAt.busy {c c' j i : Nat} {k : ClientTurn} (h : x.ClientAt w c' j i k) (hc : c' ≠ c)
    (hpc : (∃ lower k received, w.pc j = .connectRead lower k received c) ∨
      ∃ lower k received, w.pc j = .connectWrite lower k received c)
    (hmono : (w.pc j).dialed j x.config.world_size ≤ (w'.pc j).dialed j x.config.world_size) :
    x.ClientAt w' c' j i k := by
  cases h with
  | complete passed => exact .complete (Nat.lt_of_lt_of_le passed hmono)
  | reading pc =>
    rcases hpc with ⟨_, _, _, hpc⟩ | ⟨_, _, _, hpc⟩ <;> rw [hpc] at pc
    · injection pc with _ _ _ hcc
      exact absurd hcc.symm hc
    · cases pc
  | writing pc =>
    rcases hpc with ⟨_, _, _, hpc⟩ | ⟨_, _, _, hpc⟩ <;> rw [hpc] at pc
    · cases pc
    · injection pc with _ _ _ hcc
      exact absurd hcc.symm hc

/-- Both ends of such a connection, when the client goes on with its exchange. -/
theorem Link.elsewhere {c c' j : Nat} {conn conn' : Connection} {pc : ExchangePc T}
    (h : x.Link w c' conn') (hc : c' ≠ c)
    (hpc : (∃ lower k received, w.pc j = .connectRead lower k received c) ∨
      ∃ lower k received, w.pc j = .connectWrite lower k received c)
    (hserved : ∀ m, pc.served m)
    (hmono : (w.pc j).dialed j x.config.world_size ≤ pc.dialed j x.config.world_size) :
    x.Link ((w.setPc j pc).setConnection c conn) c' conn' := by
  have hserving : (w.pc j).serving = none := by
    rcases hpc with ⟨_, _, _, hpc⟩ | ⟨_, _, _, hpc⟩ <;> rw [hpc] <;> rfl
  refine h.move x rfl (fun k _ => rfl) ?_ ?_
  · intro _ s hs
    exact hs.dialing hserving (by simp [hserved]) (List.Sublist.refl _)
  · intro _ k hk
    exact hk.busy x hc hpc (by simpa using hmono)

/-- The connections of a client between two exchanges. -/
theorem ClientAt.idle {c j i k : Nat} {turn : ClientTurn} {lower : List T}
    {received : Received T} (h : x.ClientAt w c j i turn) (hpc : w.pc j = .dial lower k received)
    (hmono : k ≤ (w'.pc j).dialed j x.config.world_size) : x.ClientAt w' c j i turn := by
  cases h with
  | reading pc => simp [hpc] at pc
  | writing pc => simp [hpc] at pc
  | complete passed =>
    rw [hpc] at passed
    exact .complete (Nat.lt_of_lt_of_le passed hmono)

theorem Inv.answered_step (hi : x.Inv w) (ht : x.Transmits) {j i c : Nat} {lower : List T}
    {received : Received T} {conn : Connection}
    {result : Except ExchangeError (ExchangeMessage T)} {rest : List UInt8}
    (hpc : w.pc j = .connectRead lower i received c) (hfound : w.connections[c]? = some conn)
    (hread : read_stream x.serde conn.toClient.arrived = some (result, rest)) :
    ∃ msg, result = .ok msg ∧
      x.Inv ((w.setPc j (.connectWrite lower i
        (insert_if_valid msg received (j + 1) x.config.world_size).2 c)).setConnection c
        { conn with toClient := { conn.toClient with arrived := rest } }) := by
  have hnode := hi.node j
  rw [NodeOk, hpc] at hnode
  obtain ⟨hlower, hji, hn, hgreater, _⟩ := hnode
  obtain ⟨conn₀, s, hfound₀, hclient, hserver, hs, hstreams⟩ := hi.connectRead x hpc
  obtain rfl : conn₀ = conn := Option.some.inj (hfound₀.symm.trans hfound)
  -- a message has arrived only if the server has sent it
  obtain ⟨hwritten, hempty, hturn⟩ : write_stream x.serde conn₀.server (x.data conn₀.server) =
      .ok conn₀.toClient.total ∧ conn₀.toServer.total = [] ∧ ServerAt w c j i .reading := by
    cases hstreams with
    | queued _ toClient => simp [x.read_stream_empty toClient] at hread
    | accepted _ toClient => simp [x.read_stream_empty toClient] at hread
    | offered toServer toClient => exact ⟨toClient, toServer, hs⟩
  rw [hserver] at hwritten
  obtain ⟨rfl, rfl, hall⟩ := ht.read x hn hwritten hread
  have hinsert : (insert_if_valid ⟨i, x.data i⟩ received (j + 1) x.config.world_size).2 =
      received.insert i (x.data i) := by
    rw [insert_if_valid, if_pos ⟨hji, hn⟩]
  refine ⟨_, rfl, ?_⟩
  rw [hinsert]
  apply hi.exchange x (.connectWrite lower i (received.insert i (x.data i)) c) hfound
  · rfl
  · simp only [NodeOk, ExchangeWorld.setConnection_pc, ExchangeWorld.setPc_self]
    refine ⟨hlower, hji, hn, ?_, _, found_setConnection (w := w.setPc j _) _ hfound, hclient,
      hserver⟩
    intro m h1 h2
    by_cases hm : m = i
    · rw [hm]
      exact AList.lookup_insert _
    · rw [AList.lookup_insert_ne hm]
      exact hgreater m h1 (by omega)
  · refine ⟨.reading, .writing, ?_, ?_, .taken hempty ?_⟩
    · dsimp only
      rw [hclient, hserver]
      exact hturn.congr (ExchangeWorld.setPc_of_ne _ _ (Nat.ne_of_gt hji)) Iff.rfl
    · dsimp only
      rw [hclient, hserver]
      exact .writing (ExchangeWorld.setPc_self ..)
    · simp [ByteStream.total, hall]
  · intro c' conn' hne hold
    refine (hi.link c' conn' hold).2.2.elsewhere x hne (Or.inl ⟨_, _, _, hpc⟩) (fun m => trivial) ?_
    rw [hpc]
    simp [ExchangePc.dialed]
  · intro k hk hn _
    apply hi.served k j hk hn
    rw [hpc]
    trivial
  · exact x.dialsOn_of_eq (by rw [hpc]; rfl)

theorem Inv.connectWritten (hi : x.Inv w) {j i c : Nat} {lower : List T} {received : Received T}
    {conn : Connection} {bytes : List UInt8} (hpc : w.pc j = .connectWrite lower i received c)
    (hfound : w.connections[c]? = some conn)
    (hbytes : write_stream x.serde j (x.data j) = .ok bytes) :
    x.Inv ((w.setPc j (.dial lower (i + 1) received)).setConnection c
      { conn with toServer := conn.toServer.push bytes }) := by
  have hnode := hi.node j
  rw [NodeOk, hpc] at hnode
  obtain ⟨hlower, hji, hn, hgreater, hdials⟩ := hnode
  obtain ⟨conn₀, hfound₀, hclient, hserver, hturn, hstreams⟩ := hi.connectWrite x hpc
  obtain rfl : conn₀ = conn := Option.some.inj (hfound₀.symm.trans hfound)
  apply hi.exchange x (.dial lower (i + 1) received) hfound
  · rfl
  · simp only [NodeOk, ExchangeWorld.setConnection_pc, ExchangeWorld.setPc_self]
    exact ⟨hlower, Nat.lt_succ_of_lt hji, hn, hgreater⟩
  · refine ⟨.reading, .complete, ?_, .complete ?_, .sent ?_ hstreams.2⟩
    · dsimp only
      rw [hclient, hserver]
      exact hturn.congr (ExchangeWorld.setPc_of_ne _ _ (Nat.ne_of_gt hji)) Iff.rfl
    · dsimp only
      rw [hclient, hserver]
      simp [ExchangePc.dialed]
    · dsimp only
      rw [hclient, hbytes, total_push hstreams.1]
  · intro c' conn' hne hold
    refine (hi.link c' conn' hold).2.2.elsewhere x hne (Or.inr ⟨_, _, _, hpc⟩) (fun m => trivial) ?_
    rw [hpc]
    simp [ExchangePc.dialed]
  · intro k hk hn _
    apply hi.served k j hk hn
    rw [hpc]
    trivial
  · intro k _ _
    rw [hpc]
    refine ⟨Nat.lt_succ_of_lt, ?_⟩
    intro hk
    rcases Nat.lt_succ_iff_lt_or_eq.mp hk with hk | rfl
    · exact Or.inl hk
    · exact Or.inr ⟨c, hdials⟩

theorem Inv.finished (hi : x.Inv w) {j k : Nat} {lower : List T} {received : Received T}
    (hpc : w.pc j = .dial lower k received) (hlast : x.config.world_size ≤ k)
    {result : List T} (hresult : result = (List.range x.config.world_size).map x.data) :
    x.Inv (w.setPc j (.done (.ok result))) := by
  have hnode := hi.node j
  rw [NodeOk, hpc] at hnode
  apply hi.move x (i := j) (.done (.ok result))
  · rfl
  · intro k _
    rfl
  · exact List.Sublist.refl _
  · rfl
  · simp only [NodeOk, ExchangeWorld.setPc_self]
    exact Or.inr (by rw [hresult])
  · intro c' conn' hold
    refine ((hi.link c' conn' hold).2.2).move x rfl (fun k _ => rfl) ?_ ?_
    · intro _ s hs
      exact hs.dialing (by rw [hpc]; rfl) (by simp [ExchangePc.served]) (List.Sublist.refl _)
    · intro _ turn hturn
      apply hturn.idle x hpc
      simpa [ExchangePc.dialed] using hnode.2.2.1
  · intro i hi' hn _
    apply hi.served i j hi' hn
    rw [hpc]
    trivial
  · intro i _ hn
    rw [hpc]
    exact ⟨fun _ => hn, fun _ => Or.inl (Nat.lt_of_lt_of_le hn hlast)⟩

theorem Inv.delivered (hi : x.Inv w) {c n : Nat} {conn : Connection} {toServer : Bool}
    (hfound : w.connections[c]? = some conn) :
    x.Inv (w.setConnection c (conn.deliver toServer n)) := by
  have hclient : (conn.deliver toServer n).client = conn.client := by cases toServer <;> rfl
  have hserver : (conn.deliver toServer n).server = conn.server := by cases toServer <;> rfl
  have htoServer : (conn.deliver toServer n).toServer.total = conn.toServer.total := by
    cases toServer
    · rfl
    · exact total_deliver _ _
  have htoClient : (conn.deliver toServer n).toClient.total = conn.toClient.total := by
    cases toServer
    · exact total_deliver _ _
    · rfl
  have hends : (w.setConnection c (conn.deliver toServer n)).connections.map Connection.ends =
      w.connections.map Connection.ends := by
    apply ends_setConnection hfound
    rw [Connection.ends, hclient, hserver]
    rfl
  apply hi.move x (i := 0) (w.pc 0)
  · exact (Function.update_eq_self 0 w.pc).symm
  · intro k _
    rfl
  · exact List.Sublist.refl _
  · exact hends
  · refine NodeOk.congr x (hi.node 0) rfl ?_ ?_
    · intro c' _ hc'
      exact hc'
    · intro c' conn' hc'
      exact found_of_ends hends hc'
  · intro c' conn' hc'
    rcases getElem?_set_cases hc' with ⟨rfl, rfl⟩ | ⟨_, hold⟩
    · obtain ⟨s, k, hs, hk, hstreams⟩ := (hi.link c conn hfound).2.2
      rw [← hclient, ← hserver] at hs hk
      refine ⟨s, k, hs.congr rfl Iff.rfl, hk.congr x rfl, ?_⟩
      cases hstreams with
      | queued h1 h2 => exact .queued (htoServer.trans h1) (htoClient.trans h2)
      | accepted h1 h2 => exact .accepted (htoServer.trans h1) (htoClient.trans h2)
      | offered h1 h2 => exact .offered (htoServer.trans h1) (by rw [hserver, htoClient, h2])
      | taken h1 h2 => exact .taken (htoServer.trans h1) (htoClient.trans h2)
      | sent h1 h2 => exact .sent (by rw [hclient, htoServer, h1]) (htoClient.trans h2)
      | complete => exact .complete
    · obtain ⟨s, k, hs, hk, hstreams⟩ := (hi.link c' conn' hold).2.2
      exact ⟨s, k, hs.congr rfl Iff.rfl, hk.congr x rfl, hstreams⟩
  · intro j hj hn hs
    exact hi.served j 0 hj hn hs
  · exact x.dialsOn_of_eq rfl

/-- Node `j` has made a connection to `i`, which waits in the backlog of `i`. -/
structure Connected (w w' : ExchangeWorld T) (j i : Nat) (pc : ExchangePc T) : Prop where
  self : w'.pc j = pc
  other : ∀ k, k ≠ j → w'.pc k = w.pc k
  connections : w'.connections = w.connections ++ [⟨j, i, .empty, .empty⟩]
  backlog : w'.backlog i = w.backlog i ++ [w.connections.length]
  others : ∀ k, k ≠ i → w'.backlog k = w.backlog k

theorem connected_addConnection (w : ExchangeWorld T) (j i : Nat) (pc : ExchangePc T) :
    Connected w ((w.addConnection j i).setPc j pc) j i pc where
  self := ExchangeWorld.setPc_self ..
  other _ hk := ExchangeWorld.setPc_of_ne _ _ hk
  connections := rfl
  backlog := Function.update_self ..
  others _ hk := Function.update_of_ne hk ..

namespace Connected

variable {i j : Nat} {pc : ExchangePc T}

theorem old (h : Connected w w' j i pc) {c : Nat} {conn : Connection}
    (hc : w.connections[c]? = some conn) : w'.connections[c]? = some conn := by
  rw [h.connections, List.getElem?_append_left (List.getElem?_eq_some_iff.mp hc).1]
  exact hc

theorem added (h : Connected w w' j i pc) :
    w'.connections[w.connections.length]? = some ⟨j, i, .empty, .empty⟩ := by
  rw [h.connections]
  exact List.getElem?_concat_length

theorem cases (h : Connected w w' j i pc) {c : Nat} {conn : Connection}
    (hc : w'.connections[c]? = some conn) :
    w.connections[c]? = some conn ∨
      (c = w.connections.length ∧ ⟨j, i, .empty, .empty⟩ = conn) := by
  rw [h.connections] at hc
  exact getElem?_snoc_cases hc

/-- The connections that were there wait where they waited. -/
theorem waits (h : Connected w w' j i pc) {c k : Nat} (hc : c < w.connections.length) :
    c ∈ w'.backlog k ↔ c ∈ w.backlog k := by
  by_cases hk : k = i
  · rw [hk, h.backlog, List.mem_append, List.mem_singleton]
    constructor
    · intro hmem
      exact hmem.resolve_right (Nat.ne_of_lt hc)
    · exact Or.inl
  · rw [h.others k hk]

theorem nodup (h : Connected w w' j i pc) (hi : x.Inv w) (k : Nat) : (w'.backlog k).Nodup := by
  by_cases hk : k = i
  · rw [hk, h.backlog]
    refine List.nodup_append.mpr ⟨hi.nodup i, List.nodup_singleton _, ?_⟩
    intro c hc c' hc' heq
    rw [heq, List.mem_singleton.mp hc'] at hc
    obtain ⟨conn, hfound, _⟩ := hi.queue i _ hc
    exact Nat.lt_irrefl _ (List.getElem?_eq_some_iff.mp hfound).1
  · rw [h.others k hk]
    exact hi.nodup k

theorem queue (h : Connected w w' j i pc) (hi : x.Inv w) (k c : Nat) (hc : c ∈ w'.backlog k) :
    ∃ conn, w'.connections[c]? = some conn ∧ conn.server = k := by
  by_cases hk : k = i
  · rw [hk, h.backlog] at hc
    rcases List.mem_append.mp hc with hc | hc
    · obtain ⟨conn, hfound, hserver⟩ := hi.queue i c hc
      exact ⟨conn, h.old hfound, by rw [hk, hserver]⟩
    · rw [List.mem_singleton.mp hc]
      exact ⟨_, h.added, hk.symm⟩
  · rw [h.others k hk] at hc
    obtain ⟨conn, hfound, hserver⟩ := hi.queue k c hc
    exact ⟨conn, h.old hfound, hserver⟩

end Connected

/-- A node that is about to connect to `i` has no connection to it. -/
theorem Inv.unconnected (hi : x.Inv w) {j i c : Nat} {lower : List T} {received : Received T}
    {conn : Connection} (hpc : w.pc j = .dial lower i received)
    (hc : w.connections[c]? = some conn) (hclient : conn.client = j) (hserver : conn.server = i) :
    False := by
  obtain ⟨_, _, s, k, _, hk, _⟩ := hi.link c conn hc
  rw [hclient, hserver] at hk
  cases hk with
  | reading pc => simp [hpc] at pc
  | writing pc => simp [hpc] at pc
  | complete passed =>
    rw [hpc] at passed
    exact Nat.lt_irrefl _ passed

theorem Inv.connected (hi : x.Inv w) {j i : Nat} {lower : List T} {received : Received T}
    (hpc : w.pc j = .dial lower i received) (hn : i < x.config.world_size)
    (hlistening : (w.pc i).listening = true) :
    x.Inv ((w.addConnection j i).setPc j (.connectRead lower i received w.connections.length)) := by
  have hnode := hi.node j
  rw [NodeOk, hpc] at hnode
  obtain ⟨hlower, hji, _, hgreater⟩ := hnode
  obtain ⟨heard, hserving⟩ : ∃ heard, (w.pc i).serving = some heard := by
    cases hk : w.pc i <;> simp_all [ExchangePc.listening, ExchangePc.serving]
  have hnew : j ∉ heard := by
    intro hmem
    have hpassed := hi.served j i hji hn ((served_of_serving hserving).mpr hmem)
    rw [hpc] at hpassed
    exact Nat.lt_irrefl _ hpassed
  have hw' := connected_addConnection w j i (.connectRead lower i received w.connections.length)
  generalize (w.addConnection j i).setPc j
    (.connectRead lower i received w.connections.length) = w' at hw' ⊢
  have hdialed (k : Nat) : (w'.pc k).dialed k x.config.world_size =
      (w.pc k).dialed k x.config.world_size := by
    by_cases hk : k = j
    · rw [hk, hw'.self, hpc]
      rfl
    · rw [hw'.other k hk]
  refine ⟨?_, ?_, ?_, hw'.nodup x hi, hw'.queue x hi, ?_, ?_⟩
  · intro k
    by_cases hk : k = j
    · rw [NodeOk, hk, hw'.self]
      exact ⟨hlower, hji, hn, hgreater, _, hw'.added, rfl, rfl⟩
    · refine NodeOk.congr x (hi.node k) (hw'.other k hk) ?_ ?_
      · intro c hc hmem
        exact (hw'.waits hc).mp hmem
      · intro c conn hc
        exact ⟨conn, hw'.old hc, rfl, rfl⟩
  · intro c conn hc
    rcases hw'.cases hc with hc | ⟨rfl, rfl⟩
    · obtain ⟨hlt, hn', s, k, hs, hk, hstreams⟩ := hi.link c conn hc
      have hlen := (List.getElem?_eq_some_iff.mp hc).1
      refine ⟨hlt, hn', s, k, ?_, ?_, hstreams⟩
      · by_cases hsj : conn.server = j
        · rw [hsj] at hs ⊢
          apply hs.dialing (by rw [hpc]; rfl) (by rw [hw'.self]; trivial)
          rw [hw'.others j (Nat.ne_of_lt hji)]
        · exact hs.congr (hw'.other _ hsj) (hw'.waits hlen)
      · by_cases hcj : conn.client = j
        · rw [hcj] at hk ⊢
          apply hk.idle x hpc
          rw [hw'.self]
          exact Nat.le_refl _
        · exact hk.congr x (hw'.other _ hcj)
    · refine ⟨hji, hn, .queued, .reading, ?_, .reading hw'.self, .queued rfl rfl⟩
      refine .queued ?_ hnew (by rw [hw'.backlog]; simp)
      rw [hw'.other i (Nat.ne_of_gt hji)]
      exact hserving
  · intro c c' conn conn' hc hc' hclient hserver
    rcases hw'.cases hc with hc | ⟨rfl, rfl⟩ <;> rcases hw'.cases hc' with hc' | ⟨rfl, rfl⟩
    · exact hi.pair c c' conn conn' hc hc' hclient hserver
    · exact (hi.unconnected x hpc hc hclient hserver).elim
    · exact (hi.unconnected x hpc hc' hclient.symm hserver.symm).elim
    · rfl
  · intro a b hab hb hs
    rw [hdialed]
    apply hi.served a b hab hb
    by_cases hbj : b = j
    · rw [hbj, hpc]
      trivial
    · rw [← hw'.other b hbj]
      exact hs
  · intro a b hab hb hd
    rw [hdialed] at hd
    obtain ⟨c, conn, hfound, hclient, hserver⟩ := hi.dialed a b hab hb hd
    exact ⟨c, conn, hw'.old hfound, hclient, hserver⟩

end Dialing

end Exchange

end IbverbsRs.Network
