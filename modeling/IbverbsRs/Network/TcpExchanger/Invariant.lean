import IbverbsRs.Framework.Lists
import IbverbsRs.Network.TcpExchanger.Links

namespace IbverbsRs.Network

open Framework Exchanger

/-- The ranks of the two nodes of a connection, which never change. -/
def Connection.ends (conn : Connection) : Nat × Nat := (conn.client, conn.server)

namespace Exchange

section Moves

variable {T A : Type} (x : Exchange T A) {w w' : ExchangeWorld T}

theorem found_of_ends (hends : w'.connections.map Connection.ends = w.connections.map Connection.ends)
    {c : Nat} {conn : Connection} (hfound : w.connections[c]? = some conn) :
    ∃ conn', w'.connections[c]? = some conn' ∧ conn'.client = conn.client ∧
      conn'.server = conn.server := by
  have hget := congrArg (fun xs => xs[c]?) hends
  simp only [List.getElem?_map, hfound, Option.map_some] at hget
  obtain ⟨conn', hfound', heq⟩ := Option.map_eq_some_iff.mp hget
  exact ⟨conn', hfound', congrArg Prod.fst heq, congrArg Prod.snd heq⟩

theorem NodeOk.congr {k : Nat} (h : x.NodeOk w k) (hpc : w'.pc k = w.pc k)
    (hbacklog : ∀ c < w.connections.length, c ∈ w'.backlog k → c ∈ w.backlog k)
    (hfound : ∀ (c : Nat) (conn : Connection), w.connections[c]? = some conn →
      ∃ conn', w'.connections[c]? = some conn' ∧ conn'.client = conn.client ∧
        conn'.server = conn.server) : x.NodeOk w' k := by
  have hserves {received : Received T} {c : Nat} (hs : Serves w received c k) :
      Serves w' received c k := by
    obtain ⟨conn, hc, hserver, hnew, hgone⟩ := hs
    obtain ⟨conn', hc', hclient', hserver'⟩ := hfound c conn hc
    refine ⟨conn', hc', hserver'.trans hserver, by rwa [hclient'], ?_⟩
    intro hmem
    exact hgone (hbacklog c (List.getElem?_eq_some_iff.mp hc).1 hmem)
  have hdials {c m : Nat} (hd : Dials w c k m) : Dials w' c k m := by
    obtain ⟨conn, hc, hclient, hserver⟩ := hd
    obtain ⟨conn', hc', hclient', hserver'⟩ := hfound c conn hc
    exact ⟨conn', hc', hclient'.trans hclient, hserver'.trans hserver⟩
  unfold NodeOk at h ⊢
  rw [hpc]
  cases hk : w.pc k with
  | bind | accept _ | dial _ _ _ | done _ | panicked =>
    rw [hk] at h
    exact h
  | serveWrite _ _ | serveRead _ _ =>
    rw [hk] at h
    exact ⟨h.1, h.2.1, hserves h.2.2⟩
  | connectRead _ _ _ _ | connectWrite _ _ _ _ =>
    rw [hk] at h
    exact ⟨h.1, h.2.1, h.2.2.1, h.2.2.2.1, hdials h.2.2.2.2⟩

/-- A move after which the node has connected to the nodes it had connected to, and to those it
has a connection to. -/
def DialsOn (w : ExchangeWorld T) (i : Nat) (pc : ExchangePc T) : Prop :=
  ∀ k, i < k → k < x.config.world_size →
    (k < (w.pc i).dialed i x.config.world_size → k < pc.dialed i x.config.world_size) ∧
    (k < pc.dialed i x.config.world_size →
      k < (w.pc i).dialed i x.config.world_size ∨ ∃ c, Dials w c i k)

theorem dialsOn_of_eq {i : Nat} {pc : ExchangePc T}
    (h : pc.dialed i x.config.world_size = (w.pc i).dialed i x.config.world_size) :
    x.DialsOn w i pc := by
  intro k _ _
  rw [h]
  exact ⟨id, Or.inl⟩

/-- One node moves: it may take connections from its own backlog, and bytes may move, but no
connection is made. -/
theorem Inv.move (hi : x.Inv w) {i : Nat} (pc : ExchangePc T)
    (hpc : w'.pc = Function.update w.pc i pc) (hbacklog : ∀ k, k ≠ i → w'.backlog k = w.backlog k)
    (hsub : (w'.backlog i).Sublist (w.backlog i))
    (hends : w'.connections.map Connection.ends = w.connections.map Connection.ends)
    (hnode : x.NodeOk w' i)
    (hlink : ∀ (c : Nat) (conn : Connection), w'.connections[c]? = some conn → x.Link w' c conn)
    (hserved : ∀ j, j < i → i < x.config.world_size → pc.served j →
      i < (w.pc j).dialed j x.config.world_size)
    (hdialed : x.DialsOn w i pc) : x.Inv w' := by
  have hself : w'.pc i = pc := by rw [hpc, Function.update_self]
  have hother {k : Nat} (hk : k ≠ i) : w'.pc k = w.pc k := by rw [hpc, Function.update_of_ne hk]
  have hfound {c : Nat} {conn : Connection} (h : w.connections[c]? = some conn) :=
    found_of_ends hends h
  have hfound' {c : Nat} {conn : Connection} (h : w'.connections[c]? = some conn) :=
    found_of_ends hends.symm h
  have hdials {c j k : Nat} (h : Dials w c j k) : Dials w' c j k := by
    obtain ⟨conn, hc, rfl, rfl⟩ := h
    exact hfound hc
  have hwait (k : Nat) : (w'.backlog k).Sublist (w.backlog k) := by
    by_cases hk : k = i
    · rw [hk]
      exact hsub
    · rw [hbacklog k hk]
  refine ⟨?_, ?_, ?_, ?_, ?_, ?_, ?_⟩
  · intro k
    by_cases hk : k = i
    · rw [hk]
      exact hnode
    · apply NodeOk.congr x (hi.node k) (hother hk)
      · intro c _ hc
        exact (hwait k).subset hc
      · intro c conn hc
        exact hfound hc
  · intro c conn' hc'
    obtain ⟨conn, hc, hclient, hserver⟩ := hfound' hc'
    obtain ⟨hlt, hn, _⟩ := hi.link c conn hc
    rw [hclient, hserver] at hlt
    rw [hserver] at hn
    exact ⟨hlt, hn, hlink c conn' hc'⟩
  · intro c c' conn₁ conn₁' hc hc' hclient hserver
    obtain ⟨conn, hold, h1, h2⟩ := hfound' hc
    obtain ⟨conn', hold', h1', h2'⟩ := hfound' hc'
    exact hi.pair c c' conn conn' hold hold' (by rw [h1, h1', hclient]) (by rw [h2, h2', hserver])
  · intro k
    exact (hi.nodup k).sublist (hwait k)
  · intro k c hc
    obtain ⟨conn, hold, hserver⟩ := hi.queue k c ((hwait k).subset hc)
    obtain ⟨conn', hnew, _, hserver'⟩ := hfound hold
    exact ⟨conn', hnew, hserver'.trans hserver⟩
  · intro j k hjk hk hs
    have hold : k < (w.pc j).dialed j x.config.world_size := by
      by_cases hki : k = i
      · subst hki
        rw [hself] at hs
        exact hserved j hjk hk hs
      · rw [hother hki] at hs
        exact hi.served j k hjk hk hs
    by_cases hj : j = i
    · subst hj
      rw [hself]
      exact (hdialed k hjk hk).1 hold
    · rw [hother hj]
      exact hold
  · intro j k hjk hk hd
    by_cases hj : j = i
    · subst hj
      rw [hself] at hd
      rcases (hdialed k hjk hk).2 hd with hold | ⟨c, hc⟩
      · obtain ⟨c, hc⟩ := hi.dialed j k hjk hk hold
        exact ⟨c, hdials hc⟩
      · exact ⟨c, hdials hc⟩
    · rw [hother hj] at hd
      obtain ⟨c, hc⟩ := hi.dialed j k hjk hk hd
      exact ⟨c, hdials hc⟩

/-- A connection keeps its phase if its two ends keep theirs. -/
theorem Link.move {c i : Nat} {conn : Connection} {pc : ExchangePc T}
    (h : x.Link w c conn) (hpc : w'.pc = Function.update w.pc i pc)
    (hbacklog : ∀ k, k ≠ i → w'.backlog k = w.backlog k)
    (hserver : conn.server = i → ∀ s, ServerAt w c conn.client i s → ServerAt w' c conn.client i s)
    (hclient : conn.client = i → ∀ k, x.ClientAt w c i conn.server k →
      x.ClientAt w' c i conn.server k) : x.Link w' c conn := by
  obtain ⟨s, k, hs, hk, hstreams⟩ := h
  refine ⟨s, k, ?_, ?_, hstreams⟩
  · by_cases hi : conn.server = i
    · subst hi
      exact hserver rfl s hs
    · exact hs.congr (by rw [hpc, Function.update_of_ne hi]) (by rw [hbacklog _ hi])
  · by_cases hi : conn.client = i
    · subst hi
      exact hclient rfl k hk
    · exact hk.congr x (by rw [hpc, Function.update_of_ne hi])

/-- A node that has closed its listener stays served as long as it does not bind again. -/
theorem ServerAt.dialing {c j i : Nat} {s : ServerTurn} (h : ServerAt w c j i s)
    (hserving : (w.pc i).serving = none) (hserved : (w'.pc i).served j)
    (hsub : (w'.backlog i).Sublist (w.backlog i)) : ServerAt w' c j i s := by
  cases h with
  | queued pc _ _ => simp [hserving] at pc
  | writing pc _ _ => simp [pc, ExchangePc.serving] at hserving
  | reading pc _ _ => simp [pc, ExchangePc.serving] at hserving
  | complete _ gone => exact .complete hserved (fun hmem => gone (hsub.subset hmem))

/-- A node that has not closed its listener is nobody's client. -/
theorem ClientAt.serving {c j i : Nat} {k : ClientTurn} (h : x.ClientAt w c j i k) (hlt : j < i)
    (hpc : w.pc j = .bind ∨ (w.pc j).serving.isSome) : False := by
  have hdialed : (w.pc j).dialed j x.config.world_size = j + 1 := by
    rcases hpc with hbind | hsome
    · rw [hbind]
      rfl
    · cases hj : w.pc j <;> simp_all [ExchangePc.serving, ExchangePc.dialed]
  cases h with
  | reading pc => simp_all [ExchangePc.serving]
  | writing pc => simp_all [ExchangePc.serving]
  | complete passed => omega

theorem setBacklog_of_ne (w : ExchangeWorld T) {i k : Nat} (backlog : List Nat) (h : k ≠ i) :
    (w.setBacklog i backlog).backlog k = w.backlog k := Function.update_of_ne h ..

/-- A server with `i` received entries has them from all lower ranks. -/
theorem HasLower.full {received : Received T} {i : Nat} (h : x.HasLower received i)
    (hfull : i ≤ received.keys.length) {j : Nat} (hj : j < i) : j ∈ received := by
  have hsubset : received.keys ⊆ List.range i := by
    intro k hk
    exact List.mem_range.mpr (h k (AList.mem_keys.mpr hk)).1
  have hperm := (List.subperm_of_subset received.keys_nodup hsubset).perm_of_length_le
    (by rw [List.length_range]; exact hfull)
  exact AList.mem_keys.mp (hperm.mem_iff.mpr (List.mem_range.mpr hj))

/-- The connection a listener takes next from its backlog. -/
theorem Inv.waiting (hi : x.Inv w) {i c : Nat} {received : Received T}
    (hpc : w.pc i = .accept received) (hc : c ∈ w.backlog i) :
    ∃ conn, w.connections[c]? = some conn ∧ conn.server = i ∧ conn.client ∉ received ∧
      x.ClientAt w c conn.client i .reading ∧ conn.toServer.total = [] ∧ conn.toClient.total = [] := by
  obtain ⟨conn, hfound, rfl⟩ := hi.queue i c hc
  obtain ⟨_, _, s, k, hs, hk, hstreams⟩ := hi.link c conn hfound
  refine ⟨conn, hfound, rfl, ?_⟩
  cases hs with
  | writing _ _ gone => exact absurd hc gone
  | reading _ _ gone => exact absurd hc gone
  | complete _ gone => exact absurd hc gone
  | queued pc new waits =>
    cases hstreams with
    | queued toServer toClient =>
      rw [hpc] at pc
      obtain rfl := Option.some.inj pc
      exact ⟨new, hk, toServer, toClient⟩

theorem Inv.bound (hi : x.Inv w) {i : Nat} (hpc : w.pc i = .bind) (hn : i < x.config.world_size) :
    x.Inv ((w.setPc i (.accept ∅)).setBacklog i []) := by
  apply hi.move x (i := i) (.accept ∅)
  · rfl
  · intro k hk
    exact setBacklog_of_ne _ _ hk
  · simp
  · rfl
  · simp [NodeOk, HasLower, hn]
  · intro c conn hc
    obtain ⟨hlt, _, hlink⟩ := hi.link c conn hc
    refine hlink.move x rfl (fun k hk => Function.update_of_ne hk ..) ?_ ?_
    · intro _ s hs
      cases hs <;> simp_all [ExchangePc.serving, ExchangePc.served]
    · intro hclient k hk
      exact (hk.serving x (hclient ▸ hlt) (Or.inl hpc)).elim
  · intro j _ _ hs
    simp [ExchangePc.served] at hs
  · exact x.dialsOn_of_eq (by rw [hpc]; rfl)

theorem Inv.accepted (hi : x.Inv w) {i c : Nat} {received : Received T} {rest : List Nat}
    (hpc : w.pc i = .accept received) (hq : w.backlog i = c :: rest) :
    x.Inv ((w.setPc i (.serveWrite received c)).setBacklog i rest) := by
  have hnode := hi.node i
  rw [NodeOk, hpc] at hnode
  have hnodup := hi.nodup i
  rw [hq] at hnodup
  obtain ⟨hnew, hnodup⟩ := List.nodup_cons.mp hnodup
  obtain ⟨conn, hfound, hserver, hclient, hreading, hstreams⟩ :=
    hi.waiting x hpc (hq ▸ List.mem_cons_self)
  apply hi.move x (i := i) (.serveWrite received c)
  · rfl
  · intro k hk
    exact setBacklog_of_ne _ _ hk
  · rw [hq]
    simp
  · rfl
  · simp only [NodeOk, ExchangeWorld.setBacklog_pc, ExchangeWorld.setPc_self]
    refine ⟨hnode.1, hnode.2, conn, hfound, hserver, hclient, ?_⟩
    simpa using hnew
  · intro c' conn' hc'
    obtain ⟨hlt, _, hlink⟩ := hi.link c' conn' hc'
    by_cases hcc : c' = c
    · subst hcc
      obtain rfl : conn = conn' := Option.some.inj (hfound.symm.trans hc')
      subst hserver
      refine ⟨.writing, .reading, ?_, ?_, .accepted hstreams.1 hstreams.2⟩
      · exact .writing (by simp) hclient (by simpa using hnew)
      · exact hreading.congr x (ExchangeWorld.setPc_of_ne _ _ (Nat.ne_of_lt hlt))
    · refine hlink.move x rfl (fun k hk => Function.update_of_ne hk ..) ?_ ?_
      · intro _ s hs
        cases hs with
        | queued pc new waits =>
          rw [hpc] at pc
          rw [hq] at waits
          refine .queued (by simpa [ExchangePc.serving] using pc) new ?_
          simpa [hcc] using waits
        | writing pc _ _ => simp [hpc] at pc
        | reading pc _ _ => simp [hpc] at pc
        | complete pc gone =>
          rw [hpc] at pc
          rw [hq] at gone
          refine .complete (by simpa [ExchangePc.served] using pc) ?_
          simp only [List.mem_cons, not_or] at gone
          simpa using gone.2
      · intro hcl k hk
        exact (hk.serving x (hcl ▸ hlt) (Or.inr (by rw [hpc]; rfl))).elim
  · intro j hj hn hs
    apply hi.served j i hj hn
    rw [hpc]
    exact hs
  · exact x.dialsOn_of_eq (by rw [hpc]; rfl)

theorem Inv.closed (hi : x.Inv w) {i : Nat} {received : Received T} {lower : List T}
    (hpc : w.pc i = .accept received) (hfull : i ≤ received.keys.length)
    (hlower : lower = (List.range i).map x.data) :
    x.Inv ((w.setPc i (.dial lower (i + 1) ∅)).setBacklog i []) := by
  have hnode := hi.node i
  rw [NodeOk, hpc] at hnode
  apply hi.move x (i := i) (.dial lower (i + 1) ∅)
  · rfl
  · intro k hk
    exact setBacklog_of_ne _ _ hk
  · simp
  · rfl
  · simp only [NodeOk, ExchangeWorld.setBacklog_pc, ExchangeWorld.setPc_self]
    refine ⟨hlower, Nat.lt_succ_self i, hnode.1, ?_⟩
    intro m h1 h2
    omega
  · intro c conn hc
    obtain ⟨hlt, _, hlink⟩ := hi.link c conn hc
    refine hlink.move x rfl (fun k hk => Function.update_of_ne hk ..) ?_ ?_
    · intro hserver s hs
      have hheard := hnode.2.full x hfull (hserver ▸ hlt)
      cases hs with
      | queued pc new _ =>
        rw [hpc] at pc
        obtain rfl := Option.some.inj pc
        exact absurd hheard new
      | writing pc _ _ => simp [hpc] at pc
      | reading pc _ _ => simp [hpc] at pc
      | complete _ _ => exact .complete (by simp [ExchangePc.served]) (by simp)
    · intro hclient k hk
      exact (hk.serving x (hclient ▸ hlt) (Or.inr (by rw [hpc]; rfl))).elim
  · intro j hj hn _
    apply hi.served j i hj hn
    rw [hpc]
    exact hnode.2.full x hfull hj
  · exact x.dialsOn_of_eq (by rw [hpc]; rfl)

theorem served_of_serving {pc : ExchangePc T} {received : Received T} {j : Nat}
    (h : pc.serving = some received) : pc.served j ↔ j ∈ received := by
  cases pc <;> simp_all [ExchangePc.serving, ExchangePc.served]

/-- The other connections of a server in the middle of an exchange. -/
theorem ServerAt.busy {c c' j i : Nat} {s : ServerTurn} {received : Received T}
    (received' : Received T) (h : ServerAt w c' j i s) (hc : c' ≠ c)
    (hpc : w.pc i = .serveWrite received c ∨ w.pc i = .serveRead received c)
    (hserving : (w'.pc i).serving = some received')
    (hsame : j ∈ received' ↔ j ∈ received) (hbacklog : w'.backlog i = w.backlog i) :
    ServerAt w' c' j i s := by
  have hold : (w.pc i).serving = some received := by
    rcases hpc with hpc | hpc <;> rw [hpc] <;> rfl
  cases h with
  | queued pc new waits =>
    obtain rfl := Option.some.inj (hold.symm.trans pc)
    exact .queued hserving (fun hj => new (hsame.mp hj)) (hbacklog ▸ waits)
  | writing pc _ _ =>
    rcases hpc with hpc | hpc <;> rw [hpc] at pc
    · injection pc with _ hcc
      exact absurd hcc.symm hc
    · cases pc
  | reading pc _ _ =>
    rcases hpc with hpc | hpc <;> rw [hpc] at pc
    · cases pc
    · injection pc with _ hcc
      exact absurd hcc.symm hc
  | complete pc gone =>
    refine .complete ?_ (hbacklog ▸ gone)
    rw [served_of_serving hserving, hsame]
    exact (served_of_serving hold).mp pc

theorem ends_setConnection {c : Nat} {conn conn' : Connection}
    (hfound : w.connections[c]? = some conn) (hends : conn'.ends = conn.ends) :
    (w.setConnection c conn').connections.map Connection.ends =
      w.connections.map Connection.ends := map_set_eq hfound hends

theorem found_setConnection {c : Nat} {conn : Connection} (conn' : Connection)
    (hfound : w.connections[c]? = some conn) :
    (w.setConnection c conn').connections[c]? = some conn' :=
  List.getElem?_set_self (List.getElem?_eq_some_iff.mp hfound).1

/-- One node makes a step of its exchange over a connection. -/
theorem Inv.exchange (hi : x.Inv w) {i c : Nat} {conn conn' : Connection} (pc : ExchangePc T)
    (hfound : w.connections[c]? = some conn) (hends : conn'.ends = conn.ends)
    (hnode : x.NodeOk ((w.setPc i pc).setConnection c conn') i)
    (hlink : x.Link ((w.setPc i pc).setConnection c conn') c conn')
    (hothers : ∀ c₁ conn₁, c₁ ≠ c → w.connections[c₁]? = some conn₁ →
      x.Link ((w.setPc i pc).setConnection c conn') c₁ conn₁)
    (hserved : ∀ j, j < i → i < x.config.world_size → pc.served j →
      i < (w.pc j).dialed j x.config.world_size)
    (hdialed : x.DialsOn w i pc) : x.Inv ((w.setPc i pc).setConnection c conn') := by
  apply hi.move x (i := i) pc
  · rfl
  · intro k _
    rfl
  · exact List.Sublist.refl _
  · exact ends_setConnection (w := w.setPc i _) hfound hends
  · exact hnode
  · intro c₁ conn₁ hc
    rcases getElem?_set_cases hc with ⟨rfl, rfl⟩ | ⟨hne, hold⟩
    · exact hlink
    · exact hothers c₁ conn₁ (Ne.symm hne) hold
  · exact hserved
  · exact hdialed

theorem Inv.serveWritten (hi : x.Inv w) {i c : Nat} {received : Received T} {conn : Connection}
    {bytes : List UInt8} (hpc : w.pc i = .serveWrite received c)
    (hfound : w.connections[c]? = some conn)
    (hbytes : write_stream x.serde i (x.data i) = .ok bytes) :
    x.Inv ((w.setPc i (.serveRead received c)).setConnection c
      { conn with toClient := conn.toClient.push bytes }) := by
  have hnode := hi.node i
  rw [NodeOk, hpc] at hnode
  obtain ⟨conn₀, hfound₀, hserver, hnew, hgone, hreading, hstreams⟩ := hi.serveWrite x hpc
  obtain rfl : conn₀ = conn := Option.some.inj (hfound₀.symm.trans hfound)
  obtain ⟨hlt, _, _⟩ := hi.link c conn₀ hfound
  apply hi.exchange x (.serveRead received c) hfound
  · rfl
  · simp only [NodeOk, ExchangeWorld.setConnection_pc, ExchangeWorld.setPc_self]
    exact ⟨hnode.1, hnode.2.1, _, found_setConnection (w := w.setPc i _) _ hfound, hserver, hnew,
      hgone⟩
  · refine ⟨.reading, .reading, ?_, ?_, ?_⟩
    · dsimp only
      rw [hserver]
      exact .reading (by simp) hnew hgone
    · dsimp only
      rw [hserver]
      exact hreading.congr x (ExchangeWorld.setPc_of_ne _ _ (Nat.ne_of_lt (hserver ▸ hlt)))
    · refine .offered hstreams.1 ?_
      dsimp only
      rw [hserver, hbytes, total_push hstreams.2]
  · intro c' conn' hne hold
    obtain ⟨hlt', _, hlink⟩ := hi.link c' conn' hold
    refine hlink.move x rfl (fun k _ => rfl) ?_ ?_
    · intro _ s hs
      exact hs.busy received hne (Or.inl hpc) (by simp [ExchangePc.serving]) Iff.rfl rfl
    · intro hcl k hk
      exact (hk.serving x (hcl ▸ hlt') (Or.inr (by rw [hpc]; rfl))).elim
  · intro j hj hn hs
    apply hi.served j i hj hn
    rw [hpc]
    exact hs
  · exact x.dialsOn_of_eq (by rw [hpc]; rfl)

theorem Inv.served_step (hi : x.Inv w) (ht : x.Transmits) {i c : Nat} {received : Received T}
    {conn : Connection} {result : Except ExchangeError (ExchangeMessage T)} {rest : List UInt8}
    (hpc : w.pc i = .serveRead received c) (hfound : w.connections[c]? = some conn)
    (hread : read_stream x.serde conn.toServer.arrived = some (result, rest)) :
    ∃ msg, result = .ok msg ∧
      x.Inv ((w.setPc i (.accept (insert_if_valid msg received 0 i).2)).setConnection c
        { conn with toServer := { conn.toServer with arrived := rest } }) := by
  have hnode := hi.node i
  rw [NodeOk, hpc] at hnode
  obtain ⟨conn₀, k, hfound₀, hserver, hnew, hgone, hclient, hstreams⟩ := hi.serveRead x hpc
  obtain rfl : conn₀ = conn := Option.some.inj (hfound₀.symm.trans hfound)
  obtain ⟨hlt, hn, _⟩ := hi.link c conn₀ hfound
  -- a message has arrived only if the client has sent its own
  obtain ⟨hwritten, hempty, hpassed⟩ : write_stream x.serde conn₀.client (x.data conn₀.client) =
      .ok conn₀.toServer.total ∧ conn₀.toClient.total = [] ∧
      i < (w.pc conn₀.client).dialed conn₀.client x.config.world_size := by
    cases hstreams with
    | offered toServer _ => simp [x.read_stream_empty toServer] at hread
    | taken toServer _ => simp [x.read_stream_empty toServer] at hread
    | sent toServer toClient =>
      cases hclient with
      | complete passed => exact ⟨toServer, toClient, passed⟩
  obtain ⟨rfl, rfl, hall⟩ := ht.read x (Nat.lt_trans hlt hn) hwritten hread
  rw [hserver] at hlt
  have hinsert : (insert_if_valid ⟨conn₀.client, x.data conn₀.client⟩ received 0 i).2 =
      received.insert conn₀.client (x.data conn₀.client) := by
    rw [insert_if_valid, if_pos ⟨Nat.zero_le _, hlt⟩]
  refine ⟨_, rfl, ?_⟩
  rw [hinsert]
  apply hi.exchange x (.accept (received.insert conn₀.client (x.data conn₀.client))) hfound
  · rfl
  · simp only [NodeOk, ExchangeWorld.setConnection_pc, ExchangeWorld.setPc_self]
    refine ⟨hnode.1, ?_⟩
    intro j hj
    rcases (AList.mem_insert received).mp hj with rfl | hj
    · exact ⟨hlt, AList.lookup_insert _⟩
    · have hne : j ≠ conn₀.client := fun heq => hnew (heq ▸ hj)
      rw [AList.lookup_insert_ne hne]
      exact hnode.2.1 j hj
  · refine ⟨.complete, .complete, ?_, ?_, .complete⟩
    · dsimp only
      rw [hserver]
      exact .complete (by simp [ExchangePc.served]) hgone
    · refine .complete ?_
      dsimp only [ExchangeWorld.setConnection_pc]
      rw [hserver, ExchangeWorld.setPc_of_ne _ _ (Nat.ne_of_lt hlt)]
      exact hpassed
  · intro c' conn' hne hold
    obtain ⟨hlt', _, hlink⟩ := hi.link c' conn' hold
    refine hlink.move x rfl (fun k _ => rfl) ?_ ?_
    · intro hs' s hs
      have hne' : conn'.client ≠ conn₀.client := by
        intro heq
        exact hne (hi.pair c' c conn' conn₀ hold hfound heq (hs'.trans hserver.symm))
      apply hs.busy (received.insert conn₀.client (x.data conn₀.client)) hne (Or.inr hpc)
      · simp [ExchangePc.serving]
      · simp [AList.mem_insert, hne']
      · rfl
    · intro hcl k hk
      exact (hk.serving x (hcl ▸ hlt') (Or.inr (by rw [hpc]; rfl))).elim
  · intro j hj hn hs
    rcases (AList.mem_insert received).mp hs with rfl | hs
    · exact hpassed
    · apply hi.served j i hj hn
      rw [hpc]
      exact hs
  · exact x.dialsOn_of_eq (by rw [hpc]; rfl)

end Moves

end Exchange

end IbverbsRs.Network
