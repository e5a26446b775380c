import IbverbsRs.Ibverbs.QueuePair.QueueInvariant

namespace IbverbsRs.Ibverbs

open Framework Segment Cells Loans

/-- The descriptor names the memory that the handle stands for. -/
structure IbvSendWr.Targets (wr : IbvSendWr) (remote_mr : RemoteMemoryRegion) : Prop where
  remote_addr : wr.remote_addr = remote_mr.addr
  rkey : wr.rkey = remote_mr.rkey

variable {N : Type} [DecidableEq N]

namespace Fabric

/-- No scatter element of a host is in two requests. A request is named by its queue and its
position. -/
def Sole (w : Fabric N) : Prop := ∀ a (p p' : N × WorkQueue) (k k' : Nat) (r r' : Request),
  (p, k) ≠ (p', k') → (w.queues (a, p)).requests[k]? = some r →
  (w.queues (a, p')).requests[k']? = some r' → r.scatters = true → r'.scatters = true →
  ∀ i ∈ r.elements, i ∉ r'.elements

/-- The invariant of borrows and buffers. -/
structure Inv (once : Bool) (order : N → ByteOrder) (w : Fabric N) : Prop where
  sound : ∀ a, (w.hosts a).Sound
  queues : ∀ id, (w.queues id).Inv once (order id.1) id.2.2 (w.hosts id.1)
  sole : once = true → w.Sole

/-- The wire form of the immediate data. -/
def wire (order : ByteOrder) (imm_data : UInt32) : List UInt8 :=
  order.toBytes (order.to_be imm_data)

/-- What a transfer does with a request of each kind. -/
inductive Carries (order : N → ByteOrder) (w : Fabric N) (a b : N) (r : Request) : Fabric N → Prop
  | send (wr : SendWorkRequest) (send_wr : IbvSendWr) {payload : List UInt8} {w' : Fabric N}
      (posted : r.posted = .send send_wr) (kind : r.wr = .Send wr)
      (fetched : (w.hosts a).fetch r = some payload)
      (arrived : w.arrive (order b) a b payload payload.length
        (wr.imm_data.map (wire (order a))) = some w') :
      Carries order w a b r (w'.finish (a, b, .send) ⟨send_wr.wr_id, none, none, 0⟩ payload)
  | write (wr : WriteWorkRequest) (send_wr : IbvSendWr) {payload : List UInt8} {host : Host}
      (posted : r.posted = .send send_wr) (kind : r.wr = .Write wr)
      (targets : send_wr.Targets wr.remote_mr)
      (unannounced : wr.imm_data = none)
      (fetched : (w.hosts a).fetch r = some payload)
      (deposited : (w.hosts b).deposit (w.access (b, a)) send_wr payload = some host) :
      Carries order w a b r
        ((w.setHost b host).finish (a, b, .send) ⟨send_wr.wr_id, none, none, 0⟩ payload)
  | announce (wr : WriteWorkRequest) (imm_data : UInt32) (send_wr : IbvSendWr)
      {payload : List UInt8} {host : Host} {w' : Fabric N}
      (posted : r.posted = .send send_wr) (kind : r.wr = .Write wr)
      (targets : send_wr.Targets wr.remote_mr)
      (announced : wr.imm_data = some imm_data) (fetched : (w.hosts a).fetch r = some payload)
      (deposited : (w.hosts b).deposit (w.access (b, a)) send_wr payload = some host)
      (arrived : (w.setHost b host).arrive (order b) a b [] payload.length
        (some (wire (order a) imm_data)) = some w') :
      Carries order w a b r (w'.finish (a, b, .send) ⟨send_wr.wr_id, none, none, 0⟩ payload)
  | read (wr : ReadWorkRequest) (send_wr : IbvSendWr) {payload : List UInt8} {host : Host}
      (posted : r.posted = .send send_wr) (kind : r.wr = .Read wr)
      (targets : send_wr.Targets wr.remote_mr)
      (scatters : r.scatters = true)
      (extracted : (w.hosts b).extract (w.access (b, a)) send_wr (span r.segments) = some payload)
      (filled : (w.hosts a).fill r payload = some host) :
      Carries order w a b r
        ((w.setHost a host).finish (a, b, .send) ⟨send_wr.wr_id, none, none, payload.length⟩
          payload)

/-- The byte may change: programs own it, or a device may write to it. -/
def Touches (w : Fabric N) (a : N) (x : Nat) : Prop :=
  (w.hosts a).loans.Free x ∨ ∃ cause, w.Writes a x cause

omit [DecidableEq N] in
theorem send_ne_receive (a b c d : N) : ((a, b, .send) : QueueId N) ≠ (c, d, .receive) := by
  intro heq
  cases congrArg (fun id : QueueId N => id.2.2) heq

@[simp] theorem hosts_setHost_self (w : Fabric N) (a : N) (host : Host) :
    (w.setHost a host).hosts a = host := Function.update_self ..

theorem hosts_setHost_of_ne {a b : N} (h : b ≠ a) (w : Fabric N) (host : Host) :
    (w.setHost a host).hosts b = w.hosts b := Function.update_of_ne h ..

@[simp] theorem queues_setQueue_self (w : Fabric N) (id : QueueId N) (q : Queue) :
    (w.setQueue id q).queues id = q := Function.update_self ..

theorem queues_setQueue_of_ne {id id' : QueueId N} (h : id' ≠ id) (w : Fabric N) (q : Queue) :
    (w.setQueue id q).queues id' = w.queues id' := Function.update_of_ne h ..

@[simp] theorem queues_setHost (w : Fabric N) (a : N) (host : Host) :
    (w.setHost a host).queues = w.queues := rfl

@[simp] theorem hosts_setQueue (w : Fabric N) (id : QueueId N) (q : Queue) :
    (w.setQueue id q).hosts = w.hosts := rfl

omit [DecidableEq N] in
/-- A one-sided write changes bytes that its target exposes. -/
theorem deposit_spec {w : Fabric N} {b : N} {host : Host} {access : AccessFlags} {wr : IbvSendWr}
    {payload : List UInt8} (hdeposit : (w.hosts b).deposit access wr payload = some host) :
    host.loans = (w.hosts b).loans ∧ host.registrations = (w.hosts b).registrations ∧
      ∀ x, host.memory x ≠ (w.hosts b).memory x → ∃ k, w.Writes b x (.remote k) := by
  unfold Host.deposit at hdeposit
  split_ifs at hdeposit with hreached
  obtain rfl := Option.some.inj hdeposit
  refine ⟨rfl, rfl, fun x hx => ?_⟩
  have hcovers : Covers ⟨wr.remote_addr.toNat, payload.length⟩ x := by
    by_contra hout
    exact hx (write_outside hout)
  rcases (Host.reached_iff.mp hreached).2 with
    hempty | ⟨registration, hmem, halive, _, hallows, hwithin⟩
  · obtain rfl := List.length_eq_zero_iff.mp hempty
    exact absurd (Nat.lt_of_le_of_lt hcovers.1 hcovers.2) (Nat.lt_irrefl _)
  · obtain ⟨k, hk⟩ := List.mem_iff_getElem?.mp hmem
    exact ⟨k, registration, hk, halive, hallows, hwithin.covers hcovers⟩

namespace Inv

variable {once : Bool} {order : N → ByteOrder} {w w' : Fabric N} {a b : N} {side : WorkQueue}
  {r : Request} {rest : List Request} {host host' : Host} {payload : List UInt8}

theorem setHost (h : w.Inv once order) (hsound : host.Sound)
    (hqueues : ∀ b side, (w.queues (a, b, side)).Inv once (order a) side host) :
    (w.setHost a host).Inv once order := by
  refine ⟨fun b => ?_, ?_, h.sole⟩
  · by_cases hb : b = a
    · subst hb
      rwa [hosts_setHost_self]
    · rw [hosts_setHost_of_ne hb]
      exact h.sound b
  · rintro ⟨b, c, side⟩
    by_cases hb : b = a
    · subst hb
      rw [hosts_setHost_self]
      exact hqueues c side
    · rw [hosts_setHost_of_ne hb]
      exact h.queues (b, c, side)

theorem setQueue (h : w.Inv once order) {id : QueueId N} {q : Queue}
    (hqueue : q.Inv once (order id.1) id.2.2 (w.hosts id.1))
    (hsole : once = true → (w.setQueue id q).Sole) : (w.setQueue id q).Inv once order := by
  refine ⟨h.sound, fun id' => ?_, hsole⟩
  by_cases hid : id' = id
  · subst hid
    rwa [queues_setQueue_self]
  · rw [queues_setQueue_of_ne hid]
    exact h.queues id'

/-- A queue that keeps its requests keeps `Sole`. -/
theorem sole_setQueue (h : w.Inv once order) {id : QueueId N} {q : Queue}
    (hrequests : q.requests = (w.queues id).requests) (honce : once = true) :
    (w.setQueue id q).Sole := by
  have hsame : ∀ id', ((w.setQueue id q).queues id').requests = (w.queues id').requests := by
    intro id'
    by_cases hid : id' = id
    · subst hid
      rw [queues_setQueue_self, hrequests]
    · rw [queues_setQueue_of_ne hid]
  intro a p p' k k' r r' hne hr hr'
  rw [hsame] at hr hr'
  exact h.sole honce a p p' k k' r r' hne hr hr'

omit [DecidableEq N] in
theorem scatters_of_waiting (h : w.Inv once order)
    (hr : r ∈ (w.queues (a, b, .receive)).waiting) : r.scatters = true := by
  have hformed := (h.queues (a, b, .receive)).formed r (Queue.mem_requests_of_waiting hr)
  obtain ⟨wr_id, hposted⟩ := hformed.posted
  have hscatters := (QueuePair.post_spec hformed.limit hposted).2.2
  have hside := hformed.side
  unfold Request.scatters
  rw [hscatters]
  cases hwr : r.wr with
  | Receive wr => rfl
  | Send wr => rw [hwr] at hside; cases hside
  | Write wr => rw [hwr] at hside; cases hside
  | Read wr => rw [hwr] at hside; cases hside

omit [DecidableEq N] in
/-- What a device writes to for a waiting request is no cell of a borrow of another name. -/
theorem apart_of_waiting (h : w.Inv once order) {k : Nat} {r' : Request}
    (hr' : (w.queues (a, b, side)).waiting[k]? = some r') (hkind : r'.scatters = true)
    {exclusive : Bool} {names : List Nat} {segs : List Segment}
    (hbacks : (w.hosts a).loans.Backs exclusive names segs)
    (hnames : ∀ i ∈ r'.elements, i ∉ names) {x : Nat} (hx : CoveredBy r'.segments x) :
    ¬ CoveredBy segs x := by
  have hbacks' := (h.queues (a, b, side)).backs
    (Queue.mem_unpolled_of_waiting (List.mem_of_getElem? hr'))
  rw [hkind] at hbacks'
  exact (h.sound a).separate.apart hbacks' hbacks hnames hx

/-- The memory rule: bytes that may change may change. -/
theorem setMemory (h : w.Inv once order) {m : Nat → UInt8}
    (hm : ∀ x, m x ≠ (w.hosts a).memory x → w.Touches a x) :
    (w.setHost a { w.hosts a with memory := m }).Inv once order := by
  have hunchanged : ∀ {exclusive names segs}, (w.hosts a).loans.Backs exclusive names segs →
      (w.hosts a).Private segs →
      (∀ (b : N) (side : WorkQueue) (k : Nat) (r' : Request),
        (w.queues (a, b, side)).waiting[k]? = some r' → r'.scatters = true →
        ∀ i ∈ r'.elements, i ∉ names) →
      gather m segs = gather (w.hosts a).memory segs := by
    intro exclusive names segs hbacks hprivate hnames
    apply gather_congr
    intro x hx
    by_contra hne
    rcases hm x hne with hfree | ⟨cause, hwrites⟩
    · obtain ⟨i, _, l, hl, _, hcovers⟩ := hbacks.covers hx
      exact hfree.not_covers hl hcovers
    · cases cause with
      | element b side k =>
        obtain ⟨r', hr', hkind, hcovers⟩ := hwrites
        exact h.apart_of_waiting hr' hkind hbacks (hnames b side k r' hr' hkind) hcovers hx
      | remote k =>
        obtain ⟨registration, hregistration, _, hexposes⟩ := hwrites
        exact hprivate x hx ⟨registration, List.mem_of_getElem? hregistration, hexposes⟩
  refine h.setHost ((h.sound a).setMemory m) (fun b side => ?_)
  refine (h.queues (a, b, side)).of_host (Nat.le_refl _) (fun _ _ _ _ _ => id)
    (fun _ _ _ _ _ => id) (fun _ => id) ?_ ?_
  · intro r hr hgathers hprivate
    have hbacks := (h.queues (a, b, side)).backs (Queue.mem_unpolled_of_waiting hr)
    rw [hgathers] at hbacks
    refine hunchanged hbacks hprivate (fun b' side' k r' hr' hkind => ?_)
    have hbacks' := (h.queues (a, b', side')).backs
      (Queue.mem_unpolled_of_waiting (List.mem_of_getElem? hr'))
    rw [hkind] at hbacks'
    exact hbacks'.names_apart hbacks
  · intro honce f hf hscatters hborrows hprivate
    have hmade := (h.queues (a, b, side)).made _ (Queue.mem_requests_of_finished hf)
    refine hunchanged (hmade.backs hborrows) hprivate (fun b' side' k r' hr' hkind => ?_)
    obtain ⟨j, hj⟩ := List.mem_iff_getElem?.mp hf
    have hlt : j < (w.queues (a, b, side)).finished.length :=
      (List.getElem?_eq_some_iff.mp hj).1
    refine h.sole honce a (b', side') (b, side)
      ((w.queues (a, b', side')).finished.length + k) j r' f.request ?_ ?_ ?_ hkind hscatters
    · intro heq
      obtain ⟨hp, hk⟩ := Prod.mk.inj heq
      rw [hp] at hk
      omega
    · unfold Queue.requests
      rw [List.getElem?_append_right (by rw [List.length_map]; omega), List.length_map,
        Nat.add_sub_cancel_left]
      exact hr'
    · unfold Queue.requests
      rw [List.getElem?_append_left (by rw [List.length_map]; exact hlt), List.getElem?_map, hj]
      rfl

theorem finish (h : w.Inv once order) (hwaiting : (w.queues (a, b, side)).waiting = r :: rest)
    {wc : IbvWc} {moved : List UInt8}
    (hgathers : wc.error.isNone = true → r.scatters = false → (w.hosts a).Private r.segments →
      moved = r.held)
    (hscatters : once = true → wc.error.isNone = true → r.scatters = true →
      (gather (w.hosts a).memory r.segments).take moved.length = moved) :
    (w.finish (a, b, side) wc moved).Inv once order :=
  h.setQueue ((h.queues (a, b, side)).finish hwaiting hgathers hscatters)
    (h.sole_setQueue (Queue.requests_finish hwaiting))

/-- The oldest request takes a stream of bytes and completes: the bytes are found in its elements
in the order of the stream. -/
theorem fill_finish (h : w.Inv once order) (hkind : r.scatters = true)
    (hwaiting : (w.queues (a, b, side)).waiting = r :: rest)
    (hfill : (w.hosts a).fill r payload = some host) (wc : IbvWc) :
    ((w.setHost a host).finish (a, b, side) wc payload).Inv once order := by
  obtain ⟨hfits, rfl⟩ := Host.fill_spec hfill
  have hmem : r ∈ (w.queues (a, b, side)).waiting := hwaiting ▸ List.mem_cons_self
  have hfilled : (w.setHost a { w.hosts a with
      memory := scatter (w.hosts a).memory r.segments payload }).Inv once order := by
    refine h.setMemory (fun x hx => Or.inr ⟨.element b side 0, r, ?_, hkind, ?_⟩)
    · rw [hwaiting]
      rfl
    · by_contra hout
      exact hx (scatter_outside hout)
  refine hfilled.finish hwaiting (fun _ hgathers => ?_) (fun _ _ _ => ?_)
  · cases hkind.symm.trans hgathers
  · have hbacks := (h.queues (a, b, side)).backs (Queue.mem_unpolled_of_waiting hmem)
    rw [hkind] at hbacks
    have hformed := (h.queues (a, b, side)).formed r (Queue.mem_requests_of_waiting hmem)
    rw [hosts_setHost_self]
    exact take_gather_scatter ((h.sound a).separate.pairwise hbacks (hformed.nodup hkind)) hfits

theorem deposit (h : w.Inv once order) {access : AccessFlags} {wr : IbvSendWr}
    (hdeposit : (w.hosts b).deposit access wr payload = some host) :
    (w.setHost b host).Inv once order := by
  obtain ⟨hloans, hregistrations, hchanges⟩ := deposit_spec hdeposit
  have hhost : host = { w.hosts b with memory := host.memory } := by
    cases host
    cases hloans
    cases hregistrations
    rfl
  rw [hhost]
  exact h.setMemory (fun x hx => Or.inr ((hchanges x hx).imp' DmaCause.remote (fun _ => id)))

end Inv

section Frame

variable {w w' : Fabric N} {a b : N} {r : Request} {host : Host} {payload : List UInt8}

/-- What an arrival does: the oldest receive request is filled and completes. -/
theorem arrive_spec {bytes : ByteOrder} {len : Nat} {imm_data : Option (List UInt8)}
    (h : w.arrive bytes a b payload len imm_data = some w') :
    ∃ r rest host, (w.queues (b, a, .receive)).waiting = r :: rest ∧
      (w.hosts b).fill r payload = some host ∧ w' = (w.setHost b host).finish (b, a, .receive)
        ⟨r.posted.wr_id, none, imm_data.map bytes.ofBytes, len⟩ payload := by
  unfold arrive at h
  split at h
  · cases h
  · rename_i r rest hwaiting
    obtain ⟨host, hfill, hfinish⟩ := Option.map_eq_some_iff.mp h
    exact ⟨r, rest, host, hwaiting, hfill, hfinish.symm⟩

theorem registrations_setHost (hsame : host.registrations = (w.hosts b).registrations) (c : N) :
    ((w.setHost b host).hosts c).registrations = (w.hosts c).registrations := by
  by_cases hc : c = b
  · subst hc
    rw [hosts_setHost_self, hsame]
  · rw [hosts_setHost_of_ne hc]

/-- An arrival leaves the registrations and the other queues. -/
theorem arrive_frame {bytes : ByteOrder} {len : Nat} {imm_data : Option (List UInt8)}
    (h : w.arrive bytes a b payload len imm_data = some w') :
    (∀ c, (w'.hosts c).registrations = (w.hosts c).registrations) ∧
      ∀ id, id ≠ (b, a, .receive) → w'.queues id = w.queues id := by
  obtain ⟨r, _, host, _, hfill, rfl⟩ := arrive_spec h
  obtain ⟨_, rfl⟩ := Host.fill_spec hfill
  exact ⟨registrations_setHost rfl, fun id hid => queues_setQueue_of_ne hid _ _⟩

/-- The code a request is posted under decides what the devices do with it. -/
theorem execute_carries {order : N → ByteOrder} (hformed : r.Formed (order a) .send)
    {wr : IbvSendWr} (hsend : r.posted = .send wr) (h : execute order w a b r wr = some w') :
    Carries order w a b r w' := by
  obtain ⟨wr_id, hposted⟩ := hformed.posted
  have hscatters := (QueuePair.post_spec hformed.limit hposted).2.2
  obtain ⟨request, posted, elements, held⟩ := r
  cases request with
  | Send swr =>
    obtain ⟨gather_elements, imm_data⟩ := swr
    cases imm_data with
    | none =>
      cases hposted
      cases hsend
      simp only [execute] at h
      obtain ⟨payload, hfetched, h⟩ := Option.bind_eq_some_iff.mp h
      obtain ⟨w₁, harrived, h⟩ := Option.bind_eq_some_iff.mp h
      obtain rfl := Option.some.inj h
      exact .send _ _ rfl rfl hfetched harrived
    | some imm_data =>
      cases hposted
      cases hsend
      simp only [execute] at h
      obtain ⟨payload, hfetched, h⟩ := Option.bind_eq_some_iff.mp h
      obtain ⟨w₁, harrived, h⟩ := Option.bind_eq_some_iff.mp h
      obtain rfl := Option.some.inj h
      exact .send _ _ rfl rfl hfetched harrived
  | Receive rwr => exact absurd hformed.side (by simp [WorkRequest.queue])
  | Write wwr =>
    obtain ⟨gather_elements, remote_mr, imm_data⟩ := wwr
    cases imm_data with
    | none =>
      cases hposted
      cases hsend
      simp only [execute] at h
      obtain ⟨payload, hfetched, h⟩ := Option.bind_eq_some_iff.mp h
      obtain ⟨host, hdeposited, h⟩ := Option.bind_eq_some_iff.mp h
      obtain rfl := Option.some.inj h
      exact .write _ _ rfl rfl ⟨rfl, rfl⟩ rfl hfetched hdeposited
    | some imm_data =>
      cases hposted
      cases hsend
      simp only [execute] at h
      obtain ⟨payload, hfetched, h⟩ := Option.bind_eq_some_iff.mp h
      obtain ⟨host, hdeposited, h⟩ := Option.bind_eq_some_iff.mp h
      obtain ⟨w₁, harrived, h⟩ := Option.bind_eq_some_iff.mp h
      obtain rfl := Option.some.inj h
      exact .announce _ _ _ rfl rfl ⟨rfl, rfl⟩ rfl hfetched hdeposited harrived
  | Read rwr =>
    cases hposted
    cases hsend
    simp only [execute] at h
    obtain ⟨payload, hextracted, h⟩ := Option.bind_eq_some_iff.mp h
    obtain ⟨host, hfilled, h⟩ := Option.bind_eq_some_iff.mp h
    obtain rfl := Option.some.inj h
    exact .read _ _ rfl rfl ⟨rfl, rfl⟩ hscatters hextracted hfilled

/-- A transfer needs both ends of the connection. -/
theorem transfer_spec {order : N → ByteOrder}
    (hformed : ∀ r ∈ (w.queues (a, b, .send)).waiting, r.Formed (order a) .send)
    (h : w.transfer order a b = some w') :
    w.broken (a, b) = false ∧ w.broken (b, a) = false ∧
      ∃ r rest, (w.queues (a, b, .send)).waiting = r :: rest ∧ Carries order w a b r w' := by
  unfold transfer at h
  split_ifs at h with hbroken
  rw [Bool.or_eq_true, not_or, Bool.not_eq_true, Bool.not_eq_true] at hbroken
  split at h
  · cases h
  · rename_i r rest hwaiting
    split at h
    · cases h
    · rename_i wr hsend
      have hmem : r ∈ (w.queues (a, b, .send)).waiting := hwaiting ▸ List.mem_cons_self
      exact ⟨hbroken.1, hbroken.2, r, rest, hwaiting, execute_carries (hformed r hmem) hsend h⟩

end Frame

namespace Inv

variable {once : Bool} {order : N → ByteOrder} {w w' : Fabric N} {a b : N} {r : Request}
  {rest : List Request} {payload : List UInt8}

theorem arrive (h : w.Inv once order) {bytes : ByteOrder} {len : Nat}
    {imm_data : Option (List UInt8)} (harrive : w.arrive bytes a b payload len imm_data = some w') :
    w'.Inv once order := by
  obtain ⟨r, rest, host, hwaiting, hfill, rfl⟩ := arrive_spec harrive
  have hkind := h.scatters_of_waiting (a := b) (b := a) (hwaiting ▸ List.mem_cons_self)
  exact h.fill_finish hkind hwaiting hfill _

omit [DecidableEq N] in
/-- What the device has fetched is what the buffers held when the request was posted. -/
theorem fetched (h : w.Inv once order) (hmem : r ∈ (w.queues (a, b, .send)).waiting)
    (hfetch : (w.hosts a).fetch r = some payload) (hkind : r.scatters = false)
    (hprivate : (w.hosts a).Private r.segments) : payload = r.held := by
  rw [Host.fetch_spec hfetch]
  exact (h.queues (a, b, .send)).frozen r hmem hkind hprivate

omit [DecidableEq N] in
theorem gathers (h : w.Inv once order) (hmem : r ∈ (w.queues (a, b, .send)).waiting)
    (hkind : r.wr.scatters = false) : r.scatters = false := by
  have hformed := (h.queues (a, b, .send)).formed r (Queue.mem_requests_of_waiting hmem)
  obtain ⟨wr_id, hposted⟩ := hformed.posted
  exact (QueuePair.post_spec hformed.limit hposted).2.2.trans hkind

/-- The sender's request completes after what has been done at the receiver. -/
theorem finish_sent {w₁ : Fabric N} {wc : IbvWc} (h : w.Inv once order) (h₁ : w₁.Inv once order)
    (hwaiting : (w.queues (a, b, .send)).waiting = r :: rest)
    (hqueue : w₁.queues (a, b, .send) = w.queues (a, b, .send))
    (hregistrations : (w₁.hosts a).registrations = (w.hosts a).registrations)
    (hkind : r.wr.scatters = false) (hfetch : (w.hosts a).fetch r = some payload) :
    (w₁.finish (a, b, .send) wc payload).Inv once order := by
  have hmem : r ∈ (w.queues (a, b, .send)).waiting := hwaiting ▸ List.mem_cons_self
  have hgathers := h.gathers hmem hkind
  refine h₁.finish (hqueue ▸ hwaiting) (fun _ _ hprivate => ?_) (fun _ _ hscatters => ?_)
  · exact h.fetched hmem hfetch hgathers (hprivate.of_registrations hregistrations)
  · cases hgathers.symm.trans hscatters

theorem carries (h : w.Inv once order) (hwaiting : (w.queues (a, b, .send)).waiting = r :: rest)
    (hcarries : Carries order w a b r w') : w'.Inv once order := by
  have hother := send_ne_receive a b b a
  cases hcarries with
  | send wr send_wr _ hkind hfetch harrive =>
    obtain ⟨hregistrations, hqueues⟩ := arrive_frame harrive
    exact h.finish_sent (h.arrive harrive) hwaiting (hqueues _ hother) (hregistrations a)
      (by rw [hkind]; rfl) hfetch
  | write wr send_wr _ hkind _ _ hfetch hdeposit =>
    have hregistrations := (deposit_spec hdeposit).2.1
    exact h.finish_sent (h.deposit hdeposit) hwaiting rfl (registrations_setHost hregistrations a)
      (by rw [hkind]; rfl) hfetch
  | announce wr imm_data send_wr _ hkind _ _ hfetch hdeposit harrive =>
    have hregistrations := (deposit_spec hdeposit).2.1
    obtain ⟨hkept, hqueues⟩ := arrive_frame harrive
    exact h.finish_sent ((h.deposit hdeposit).arrive harrive) hwaiting (hqueues _ hother)
      ((hkept a).trans (registrations_setHost hregistrations a)) (by rw [hkind]; rfl) hfetch
  | read wr send_wr _ _ _ hscatters _ hfill => exact h.fill_finish hscatters hwaiting hfill _

theorem transfer (h : w.Inv once order) (htransfer : w.transfer order a b = some w') :
    w'.Inv once order := by
  have hformed : ∀ r ∈ (w.queues (a, b, .send)).waiting, r.Formed (order a) .send :=
    fun r hr => (h.queues (a, b, .send)).formed r (Queue.mem_requests_of_waiting hr)
  obtain ⟨_, _, r, rest, hwaiting, hcarries⟩ := transfer_spec hformed htransfer
  exact h.carries hwaiting hcarries

end Inv

end Fabric

/-- The constructors without elements make no other requests. -/
theorem Verb.request_only_immediate (imm_data : UInt32) :
    (Verb.send (some imm_data)).request [] = some (.Send (.only_immediate imm_data)) ∧
      Verb.receive.request [] = some (.Receive .only_immediate) := ⟨rfl, rfl⟩

/-- What a request of safe code holds of the borrowed slices. -/
theorem Verb.request_spec {verb : Verb} {borrowed : List Borrowed} {wr : WorkRequest}
    (h : verb.request borrowed = some wr) : wr.InLimit ∧ wr.sges = borrowed.map Borrowed.sge ∧
      wr.scatters = verb.scatters ∧ wr.queue = verb.queue := by
  cases verb with
  | send imm_data =>
    obtain ⟨wr', hnew, rfl⟩ := Option.map_eq_some_iff.mp h
    unfold SendWorkRequest.new at hnew
    split_ifs at hnew with hlimit
    obtain rfl := Option.some.inj hnew
    cases imm_data <;> exact ⟨hlimit, List.map_map, rfl, rfl⟩
  | receive =>
    obtain ⟨wr', hnew, rfl⟩ := Option.map_eq_some_iff.mp h
    unfold ReceiveWorkRequest.new at hnew
    split_ifs at hnew with hlimit
    obtain rfl := Option.some.inj hnew
    exact ⟨hlimit, List.map_map, rfl, rfl⟩
  | write remote_mr imm_data =>
    obtain ⟨wr', hnew, rfl⟩ := Option.map_eq_some_iff.mp h
    unfold WriteWorkRequest.new at hnew
    split_ifs at hnew with hlimit
    obtain rfl := Option.some.inj hnew
    cases imm_data <;> exact ⟨hlimit, List.map_map, rfl, rfl⟩
  | read remote_mr =>
    obtain ⟨wr', hnew, rfl⟩ := Option.map_eq_some_iff.mp h
    unfold ReadWorkRequest.new at hnew
    split_ifs at hnew with hlimit
    obtain rfl := Option.some.inj hnew
    exact ⟨hlimit, List.map_map, rfl, rfl⟩

theorem Host.request_spec {host : Host} {verb : Verb} {elements : List Nat} {wr : WorkRequest}
    (h : host.request verb elements = some wr) : wr.InLimit ∧ wr.scatters = verb.scatters ∧
      wr.queue = verb.queue ∧ List.Forall₂ (fun i sge => ∃ l, host.loans.lent i = some l ∧
        l.exclusive = verb.scatters ∧ l.borrowed.sge = sge) elements wr.sges := by
  obtain ⟨loans, hlent, hcheck⟩ := Option.bind_eq_some_iff.mp h
  split_ifs at hcheck with hkinds
  obtain ⟨hlimit, hsges, hscatters, hqueue⟩ := Verb.request_spec hcheck
  refine ⟨hlimit, hscatters, hqueue, ?_⟩
  rw [hsges, List.map_map, List.forall₂_map_right_iff]
  have hforall := forall₂_of_mapM hlent
  clear h hcheck hsges hlent
  induction hforall with
  | nil => exact .nil
  | @cons i l elements loans hl _ ih =>
    exact .cons ⟨l, hl, hkinds l List.mem_cons_self, rfl⟩
      (ih (fun l' hl' => hkinds l' (List.mem_cons_of_mem _ hl')))

namespace Fabric

section Program

variable [Fintype N] {once : Bool} {order : N → ByteOrder} {w w' : Fabric N} {a b : N}

/-- A request that is taken goes to the end of its queue; one that is refused leaves no trace. -/
theorem post_spec {verb : Verb} {elements : List Nat} {wr_id : UInt64} {errno : Option Nat}
    (h : w.post once order a b verb elements wr_id errno = some w') :
    w' = w ∨ ∃ r, r.Formed (order a) verb.queue ∧ (w.hosts a).Made r ∧ (w.hosts a).Borrows r ∧
      r.held = gather (w.hosts a).memory r.segments ∧
      (once = true → r.scatters = true → ∀ i ∈ r.elements, w.Unposted a i) ∧
      w' = w.setQueue (a, b, verb.queue) ((w.queues (a, b, verb.queue)).append r) := by
  obtain ⟨wr, hrequest, hcheck⟩ := Option.bind_eq_some_iff.mp h
  obtain ⟨hlimit, hkind, hqueue, hmade⟩ := Host.request_spec hrequest
  dsimp only at hcheck
  split_ifs at hcheck with hfresh
  cases hposted : QueuePair.post (order a) errno wr wr_id with
  | error error =>
    rw [hposted] at hcheck
    exact Or.inl (Option.some.inj hcheck).symm
  | ok posted =>
    rw [hposted] at hcheck
    obtain ⟨_, hsges, hscatters⟩ := QueuePair.post_spec hlimit hposted
    have hverb : posted.scatters = verb.scatters := hscatters.trans hkind
    have hnone : errno = none := by
      cases errno with
      | none => rfl
      | some errno => cases wr <;> cases hposted
    subst hnone
    refine Or.inr ⟨⟨wr, posted, elements, _⟩, ?_, ?_, ?_, rfl, ?_, (Option.some.inj hcheck).symm⟩
    · exact ⟨hlimit, ⟨wr_id, hposted⟩, hqueue, fun hs => (hfresh (hverb.symm.trans hs)).1⟩
    · unfold Host.Made
      rw [hsges]
      refine hmade.imp (fun i sge hi l hl => ?_)
      obtain ⟨l', hl', hexclusive, hsge⟩ := hi
      obtain rfl := Option.some.inj (hl.symm.trans hl')
      exact ⟨hexclusive.trans hverb.symm, hsge⟩
    · intro i hi
      obtain ⟨_, _, l, hl, _⟩ := exists_of_forall₂ hmade hi
      exact ⟨l, hl⟩
    · exact fun honce hs => (hfresh (hverb.symm.trans hs)).2 honce

omit [Fintype N] in
/-- Requests whose scatter elements have never been posted may be posted. -/
theorem append_sole {side : WorkQueue} {r : Request} (h : w.Sole)
    (hfresh : r.scatters = true → ∀ i ∈ r.elements, w.Unposted a i) :
    (w.setQueue (a, b, side) ((w.queues (a, b, side)).append r)).Sole := by
  -- What is at a position afterwards was there before, or is `r`.
  have hcases : ∀ (c : N) (p : N × WorkQueue) (k : Nat) (r' : Request),
      ((w.setQueue (a, b, side) ((w.queues (a, b, side)).append r)).queues (c, p)).requests[k]? =
        some r' →
      (w.queues (c, p)).requests[k]? = some r' ∨ c = a ∧ r' = r ∧ p = (b, side) ∧
        k = (w.queues (a, b, side)).requests.length := by
    intro c p k r' hr'
    by_cases hid : (c, p) = (a, b, side)
    · obtain ⟨rfl, rfl⟩ := Prod.mk.inj hid
      rw [queues_setQueue_self, Queue.requests_append] at hr'
      rcases getElem?_snoc_cases hr' with hold | ⟨hk, hnew⟩
      · exact Or.inl hold
      · exact Or.inr ⟨rfl, hnew.symm, rfl, hk⟩
    · rw [queues_setQueue_of_ne hid] at hr'
      exact Or.inl hr'
  intro c p p' k k' r₁ r₂ hne h₁ h₂ hs₁ hs₂ i hi₁ hi₂
  rcases hcases c p k r₁ h₁ with hold₁ | ⟨rfl, rfl, rfl, rfl⟩
  · rcases hcases c p' k' r₂ h₂ with hold₂ | ⟨rfl, rfl, rfl, rfl⟩
    · exact h c p p' k k' r₁ r₂ hne hold₁ hold₂ hs₁ hs₂ i hi₁ hi₂
    · exact hfresh hs₂ i hi₂ p.1 p.2 r₁ (List.mem_of_getElem? hold₁) hi₁
  · rcases hcases c p' k' r₂ h₂ with hold₂ | ⟨_, rfl, rfl, rfl⟩
    · exact hfresh hs₁ i hi₁ p'.1 p'.2 r₂ (List.mem_of_getElem? hold₂) hi₂
    · exact hne rfl

omit [Fintype N] in
theorem fail_spec {side : WorkQueue} {status vendor_err : UInt32}
    (h : w.fail a b side status vendor_err = some w') : ∃ r rest,
      (w.queues (a, b, side)).waiting = r :: rest ∧
      (status = IBV_WC_LOC_PROT_ERR → (w.hosts a).admits r (span r.segments) = false) ∧
      w' = (w.finish (a, b, side) ⟨r.posted.wr_id, some (status, vendor_err), none, 0⟩
        []).disconnect a b := by
  unfold fail at h
  split at h
  · cases h
  · rename_i r rest hwaiting
    split_ifs at h with hif
    exact ⟨r, rest, hwaiting, hif.2, (Option.some.inj h).symm⟩

/-- Every step of programs and devices keeps the invariant. -/
theorem Inv.step (h : w.Inv once order) {e : FabricEvent N}
    (hstep : step once order w e = some w') : w'.Inv once order := by
  cases e with
  | register a mr access_flags =>
    obtain rfl := Option.some.inj hstep
    exact h.setHost ((h.sound a).register mr access_flags)
      (fun b side => (h.queues (a, b, side)).register mr access_flags)
  | deregister a k =>
    obtain ⟨host, hhost, rfl⟩ := Option.map_eq_some_iff.mp hstep
    exact h.setHost ((h.sound a).deregister hhost)
      (fun b side => (h.queues (a, b, side)).deregister hhost)
  | borrow a exclusive k data =>
    obtain ⟨host, hhost, rfl⟩ := Option.map_eq_some_iff.mp hstep
    exact h.setHost ((h.sound a).borrow hhost) (fun b side => (h.queues (a, b, side)).borrow hhost)
  | give_back a i =>
    unfold Fabric.step at hstep
    dsimp only at hstep
    split_ifs at hstep with hunused
    obtain rfl := Option.some.inj hstep
    exact h.setHost ((h.sound a).give_back i)
      (fun b side => (h.queues (a, b, side)).give_back (hunused b side))
  | store a x v =>
    obtain ⟨host, hhost, rfl⟩ := Option.map_eq_some_iff.mp hstep
    unfold Host.store at hhost
    split_ifs at hhost with hfree
    obtain rfl := Option.some.inj hhost
    refine h.setMemory (fun y hy => Or.inl ?_)
    by_cases hyx : y = x
    · exact hyx ▸ hfree
    · exact absurd (Function.update_of_ne hyx _ _) hy
  | post a b verb elements wr_id errno =>
    rcases post_spec hstep with rfl | ⟨r, hformed, hmade, hborrows, hheld, hfresh, rfl⟩
    · exact h
    · exact h.setQueue ((h.queues (a, b, verb.queue)).append hformed hmade hborrows hheld)
        (fun honce => append_sole (h.sole honce) (hfresh honce))
  | poll a b side k =>
    obtain rfl := Option.some.inj hstep
    exact h.setQueue ((h.queues (a, b, side)).poll k) (h.sole_setQueue (Queue.requests_poll _ k))
  | transfer a b => exact h.transfer hstep
  | dma a cause x v =>
    unfold Fabric.step at hstep
    dsimp only at hstep
    split_ifs at hstep with hwrites
    obtain rfl := Option.some.inj hstep
    refine h.setMemory (fun y hy => Or.inr ⟨cause, ?_⟩)
    by_cases hyx : y = x
    · exact hyx ▸ hwrites
    · exact absurd (Function.update_of_ne hyx _ _) hy
  | fail a b side status vendor_err =>
    obtain ⟨r, rest, hwaiting, _, rfl⟩ := fail_spec hstep
    have hfinish : (w.finish (a, b, side) ⟨r.posted.wr_id, some (status, vendor_err), none, 0⟩
        []).Inv once order :=
      h.finish hwaiting (fun hok => by cases hok) (fun _ hok => by cases hok)
    exact ⟨hfinish.sound, hfinish.queues, hfinish.sole⟩

theorem run_inv {access : N × N → AccessFlags} {memory : N → Nat → UInt8}
    {es : List (FabricEvent N)} (h : (fabric once order access memory).run es = some w) :
    w.Inv once order := by
  refine TransitionSystem.invariant _ (I := Inv once order) ?_ (fun _ _ _ hinv => hinv.step) h
  refine ⟨fun a => ⟨?_, ?_⟩, fun id => Queue.Inv.empty once _ _ _, ?_⟩
  · intro i j l l' _ hl
    cases hl
  · intro i l hl
    cases hl
  · intro _ a p p' k k' r r' _ hr
    cases hr

end Program

end Fabric

end IbverbsRs.Ibverbs
