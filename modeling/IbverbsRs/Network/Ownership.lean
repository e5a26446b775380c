import IbverbsRs.Ibverbs.Typing

namespace IbverbsRs.Ibverbs

open Framework

/-- What the driver answers while one channel is built. -/
structure ChannelAnswers where
  create_cq : Option Nat
  create_qp : Option Nat
  port : PortAnswer
  deriving DecidableEq, Repr

/-- The objects a channel owns, in the order in which they are dropped. -/
structure ChannelObjects where
  cq : Nat
  qp : Nat
  deriving DecidableEq, Repr

structure MultiChannelObjects where
  channels : List ChannelObjects
  pd : Nat
  deriving DecidableEq, Repr

structure NodeObjects where
  multi_channel : MultiChannelObjects
  barrier_mr : Nat
  deriving DecidableEq, Repr

def ChannelObjects.handles (self : ChannelObjects) : List Nat := [self.cq, self.qp]

def MultiChannelObjects.handles (self : MultiChannelObjects) : List Nat :=
  self.channels.flatMap ChannelObjects.handles ++ [self.pd]

def NodeObjects.handles (self : NodeObjects) : List Nat :=
  self.multi_channel.handles ++ [self.barrier_mr]

/-- Every call succeeds. -/
def ChannelAnswers.accepted (self : ChannelAnswers) (min_cq_entries : UInt32) : Bool :=
  min_cq_entries.toNat ≤ 2147483647 && self.create_cq.isNone && self.create_qp.isNone &&
    (query_port self.port).toOption.isSome

/-- The driver has made the queue pair when the query of its port fails. -/
def ChannelAnswers.interrupted (self : ChannelAnswers) (min_cq_entries : UInt32) : Bool :=
  min_cq_entries.toNat ≤ 2147483647 && self.create_cq.isNone && self.create_qp.isNone &&
    (query_port self.port).toOption.isNone

namespace Resources

/-- `ProtectionDomain::context` -/
def context (r : Resources) (pd : Nat) : Nat := (r.heap.fields pd).headD 0

/-- Values that go out of scope start to drop their handles; the glue runs after that. -/
def dropAll (r : Resources) (ids : List Nat) : Resources := ids.foldl drop r

def Channel.builder (r : Resources) (pd : Nat) (min_cq_entries : UInt32)
    (answers : ChannelAnswers) : Except IbvError ChannelObjects × Resources :=
  match CompletionQueue.create r (r.context pd) min_cq_entries answers.create_cq with
  | (.error e, r) => (.error e, r)
  | (.ok cq, r) =>
    match QueuePair.builder r pd cq cq answers.create_qp answers.port with
    | (.error e, r) => (.error e, r.drop cq)
    | (.ok qp, r) => (.ok ⟨cq, qp⟩, r)

/-- The channels from the `k`-th on; those built so far are dropped when one fails. -/
def buildChannels (pd : Nat) (min_cq_entries : UInt32) (answers : Nat → ChannelAnswers) :
    Nat → Nat → List ChannelObjects → Resources → Except IbvError (List ChannelObjects) × Resources
  | 0, _, channels, r => (.ok channels, r)
  | n + 1, k, channels, r =>
    match Channel.builder r pd min_cq_entries (answers k) with
    | (.error e, r) => (.error e, r.dropAll (channels.flatMap ChannelObjects.handles))
    | (.ok channel, r) =>
      buildChannels pd min_cq_entries answers n (k + 1) (channels ++ [channel]) r

def MultiChannel.builder (r : Resources) (num_channels pd : Nat) (min_cq_entries : UInt32)
    (answers : Nat → ChannelAnswers) : Except IbvError MultiChannelObjects × Resources :=
  match buildChannels pd min_cq_entries answers num_channels 0 [] r with
  | (.error e, r) => (.error e, r)
  | (.ok channels, r) => (.ok ⟨channels, pd⟩, { r with heap := r.heap.clone pd })

/-- `register` is the answer to the registration of the barrier memory. -/
def Node.builder (r : Resources) (world_size pd : Nat) (min_cq_entries : UInt32)
    (answers : Nat → ChannelAnswers) (register : Option Nat) :
    Except IbvError NodeObjects × Resources :=
  match MultiChannel.builder r world_size pd min_cq_entries answers with
  | (.error e, r) => (.error e, r)
  | (.ok multi_channel, r) =>
    match MemoryRegion.register_mr_with_access r pd register with
    | (.error e, r) => (.error e, r.dropAll multi_channel.handles)
    | (.ok barrier_mr, r) => (.ok ⟨multi_channel, barrier_mr⟩, r)

/-- A call that adds the handles `owned` and loses the queue pairs `lost`. -/
structure Transacts (r r' : Resources) (owned : List Nat) (lost : List (Nat × List Nat)) :
    Prop where
  run : ∃ fs, system.runFrom r fs = some r'
  extends_heap : r.heap.Extends r'.heap
  handles : r'.heap.handles.Perm (r.heap.handles ++ owned)
  leaked : r'.leaked = r.leaked ++ lost

namespace Transacts

variable {r r' r'' : Resources} {owned owned' : List Nat} {lost lost' : List (Nat × List Nat)}

theorem refl (r : Resources) : Transacts r r [] [] :=
  ⟨⟨[], rfl⟩, .refl _, by rw [List.append_nil], by rw [List.append_nil]⟩

theorem trans (h : Transacts r r' owned lost) (h' : Transacts r' r'' owned' lost') :
    Transacts r r'' (owned ++ owned') (lost ++ lost') := by
  obtain ⟨fs, hfs⟩ := h.run
  obtain ⟨gs, hgs⟩ := h'.run
  refine ⟨⟨fs ++ gs, ?_⟩, h.extends_heap.trans h'.extends_heap, ?_, ?_⟩
  · rw [TransitionSystem.runFrom_append, hfs, Option.bind_some, hgs]
  · rw [← List.append_assoc]
    exact h'.handles.trans (h.handles.append_right owned')
  · rw [h'.leaked, h.leaked, List.append_assoc]

theorem perm (h : Transacts r r' owned lost) (hperm : owned.Perm owned') :
    Transacts r r' owned' lost :=
  ⟨h.run, h.extends_heap, h.handles.trans (hperm.append_left _), h.leaked⟩

theorem drop {id : Nat} (h : Transacts r r' (id :: owned) lost) :
    Transacts r (r'.drop id) owned lost := by
  have hmem : id ∈ r'.heap.handles := h.handles.mem_iff.mpr (by simp)
  obtain ⟨fs, hfs⟩ := h.run
  refine ⟨⟨fs ++ [.drop id], ?_⟩, h.extends_heap, ?_, h.leaked⟩
  · rw [TransitionSystem.runFrom_append, hfs, Option.bind_some]
    apply system.runFrom_singleton
    exact if_pos hmem
  · have herase := (h.handles.trans List.perm_middle).erase id
    rwa [List.erase_cons_head] at herase

theorem dropAll {ids : List Nat} (h : Transacts r r' owned lost)
    (hperm : owned.Perm (ids ++ owned')) : Transacts r (r'.dropAll ids) owned' lost := by
  induction ids generalizing r' owned with
  | nil => exact h.perm hperm
  | cons id ids ih => exact ih (h.perm hperm).drop (.refl _)

theorem inv (h : Transacts r r' owned lost) (hr : Inv r) : Inv r' := by
  obtain ⟨fs, hfs⟩ := h.run
  exact system.invariant_from (P := fun _ => True) (fun _ _ _ _ hr hs => hr.step hs) hr
    (fun _ _ => trivial) hfs

theorem typed (h : Transacts r r' owned lost) (hr : Inv r) (ht : Typed r) : Typed r' := by
  obtain ⟨fs, hfs⟩ := h.run
  exact (system.invariant_from (P := fun _ => True) (I := fun r => Inv r ∧ Typed r)
    (fun _ _ _ _ hI hs => ⟨hI.1.step hs, hI.2.step hI.1 hs⟩) ⟨hr, ht⟩ (fun _ _ => trivial) hfs).2

theorem borrow (h : Transacts r r' owned lost) (hr : Inv r) {kind : ObjectKind} {p : Location}
    {id : Nat} (hp : r.borrow kind p = some id) : r'.borrow kind p = some id := by
  apply borrow_of_extends h.extends_heap hr hp
  have hroot : p.root ∈ r.heap.handles := by
    have hheap := (Option.filter_eq_some_iff.mp hp).1
    unfold Heap.borrow at hheap
    split_ifs at hheap with hroot
    exact hroot
  exact h.handles.mem_iff.mpr (List.mem_append_left _ hroot)

theorem make {ev : ResourceEvent} {kind : ObjectKind} {call : Nat → DriverCall} {fields : List Nat}
    (hs : r.step ev = some (r.make kind call fields)) :
    Transacts r (r.make kind call fields) [r.heap.cells.length] [] := by
  refine ⟨⟨[ev], system.runFrom_singleton hs⟩, Heap.Extends.create r.heap kind fields, ?_,
    (List.append_nil _).symm⟩
  exact .of_eq (Heap.handles_create r.heap fields kind)

theorem leak {ev : ResourceEvent} {kind : ObjectKind} {call : Nat → DriverCall}
    {parents : List Nat} (hs : r.step ev = some (r.leak kind call parents)) :
    Transacts r (r.leak kind call parents) [] [(r.heap.cells.length, parents)] :=
  ⟨⟨[ev], system.runFrom_singleton hs⟩, Heap.Extends.reserve r.heap kind,
    .of_eq (List.append_nil _).symm, rfl⟩

theorem glue {k : Nat} (hs : r.step (.run k) = some r') : Transacts r r' [] [] := by
  have hheap := glue_run hs
  refine ⟨⟨[.run k], system.runFrom_singleton hs⟩, Heap.Extends.run hheap, ?_, ?_⟩
  · rw [Heap.handles_run hheap, List.append_nil]
  · obtain ⟨heap, _, heq⟩ := Option.map_eq_some_iff.mp hs
    rw [← heq, List.append_nil]
    split <;> rfl

theorem glues {gs : List ResourceEvent} (hgs : ∀ e ∈ gs, ∃ k, e = .run k)
    (hrun : system.runFrom r gs = some r') : Transacts r r' [] [] := by
  apply system.invariant_from (I := fun s => Transacts r s [] []) ?_ (refl r) hgs hrun
  rintro s e t ⟨k, rfl⟩ h hs
  exact h.trans (glue hs)

/-- Whoever owns the handles drops them, and the glue runs. -/
theorem dropped (h : Transacts r r' owned lost) {ids : List Nat} (hids : ids.Perm owned)
    {gs : List ResourceEvent} (hgs : ∀ e ∈ gs, ∃ k, e = .run k)
    (hrun : system.runFrom (r'.dropAll ids) gs = some r'') : Transacts r r'' [] lost := by
  have hdropped : Transacts r (r'.dropAll ids) [] lost := by
    apply h.dropAll
    rw [List.append_nil]
    exact hids.symm
  simpa only [List.append_nil] using hdropped.trans (glues hgs hrun)

/-- When the glue has run the borrower finds what it found before. -/
theorem settled (h : Transacts r r' [] lost) (hr : Inv r) (hglue : r'.heap.glue = []) (id : Nat) :
    r'.heap.alive id = true ↔ ∃ q, r.heap.borrow q = some id := by
  have hperm := h.handles
  rw [List.append_nil] at hperm
  have hsame := h.extends_heap.borrow hr.counted hperm
  constructor
  · intro halive
    obtain ⟨q, hq⟩ := (h.inv hr).counted.exists_borrow hglue halive
    exact ⟨q, (hsame q).symm.trans hq⟩
  · rintro ⟨q, hq⟩
    exact (h.inv hr).alive_of_borrow ((hsame q).trans hq)

/-- The completion queue of a lost queue pair is destroyed under it. -/
theorem refused {qp pd cq : Nat} (h : Transacts r r' [] [(qp, [pd, cq, cq])]) (hr : Inv r)
    (hfresh : r.heap.cells.length ≤ cq) (hglue : r'.heap.glue = []) :
    Driver.rules.run r'.calls = none := by
  have hr' := h.inv hr
  have hlost : (qp, [pd, cq, cq]) ∈ r'.leaked := by rw [h.leaked]; simp
  obtain ⟨hlt, hnot⟩ := hr'.parents _ hlost cq (by simp)
  have hdead : r'.heap.alive cq = false := by
    rw [Bool.eq_false_iff]
    intro halive
    obtain ⟨q, hq⟩ := (h.settled hr hglue cq).mp halive
    have hold := hr.counted.lt_length (hr.counted.mem_of_borrow hq)
    omega
  have hunmade : cq ∈ r'.unmade := by
    rw [← List.count_pos_iff, hr'.unmade, if_pos ⟨hlt, hdead, hnot⟩]
    exact Nat.one_pos
  rcases hr'.rules with ⟨_, _, _, hclear⟩ | ⟨hnone, _⟩
  · exact absurd ⟨_, hlost, cq, by simp, hunmade⟩ hclear
  · exact hnone

end Transacts

theorem borrow_make (r : Resources) (kind : ObjectKind) (call : Nat → DriverCall)
    (fields : List Nat) : (r.make kind call fields).borrow kind ⟨r.heap.cells.length, []⟩ =
      some r.heap.cells.length := by
  have hmem : r.heap.cells.length ∈ (r.heap.create kind fields).handles := by
    rw [Heap.handles_create]
    exact List.mem_append_right _ (List.mem_singleton_self _)
  have hkind : (r.make kind call fields).kind r.heap.cells.length = some kind := by
    rw [kind_eq_shape, shape_make]
    rfl
  refine Option.filter_eq_some_iff.mpr ⟨if_pos hmem, by simpa using hkind⟩

/-- A channel's queue pair keeps the domain and, twice, the channel's completion queue. -/
structure Wired (r : Resources) (pd : Nat) (channel : ChannelObjects) : Prop where
  qp_kind : r.kind channel.qp = some .QueuePair
  cq_kind : r.kind channel.cq = some .CompletionQueue
  qp_fields : r.heap.fields channel.qp = [pd, channel.cq, channel.cq]
  cq_fields : r.heap.fields channel.cq = [r.context pd]

theorem Wired.of_extends {r r' : Resources} {pd : Nat} {channel : ChannelObjects}
    (h : Wired r pd channel) (he : r.heap.Extends r'.heap) (hpd : pd < r.heap.cells.length) :
    Wired r' pd channel := by
  have hqp := lt_of_kind h.qp_kind
  have hcq := lt_of_kind h.cq_kind
  refine ⟨?_, ?_, ?_, ?_⟩
  · rw [kind_of_extends he hqp, h.qp_kind]
  · rw [kind_of_extends he hcq, h.cq_kind]
  · rw [he.fields hqp, h.qp_fields]
  · rw [he.fields hcq, h.cq_fields, context, context, he.fields hpd]

section Builders

variable {r : Resources} {p : Location} {pd : Nat} {min_cq_entries : UInt32}

theorem CompletionQueue.create_spec {context : Nat} (hcontext : r.borrow .Context p = some context)
    (errno : Option Nat) :
    (min_cq_entries.toNat ≤ 2147483647 ∧ errno = none ∧
      CompletionQueue.create r context min_cq_entries errno = (.ok r.heap.cells.length,
        r.make .CompletionQueue (.ibv_create_cq · context) [context]) ∧
      Transacts r (r.make .CompletionQueue (.ibv_create_cq · context) [context])
        [r.heap.cells.length] []) ∨
    (¬ (min_cq_entries.toNat ≤ 2147483647 ∧ errno = none) ∧
      ∃ e, CompletionQueue.create r context min_cq_entries errno = (.error e, r)) := by
  have hstep : r.step (.create_cq p min_cq_entries errno) =
      some (CompletionQueue.create r context min_cq_entries errno).2 := by
    simp only [Resources.step, hcontext, Option.map_some]
  by_cases hlarge : 2147483647 < min_cq_entries.toNat
  · right
    refine ⟨fun h => absurd h.1 (Nat.not_le.mpr hlarge), ?_⟩
    unfold CompletionQueue.create
    rw [if_pos hlarge]
    exact ⟨_, rfl⟩
  · unfold CompletionQueue.create at hstep ⊢
    rw [if_neg hlarge] at hstep ⊢
    cases errno with
    | some errno => exact Or.inr ⟨fun h => Option.some_ne_none _ h.2, _, rfl⟩
    | none => exact Or.inl ⟨Nat.not_lt.mp hlarge, rfl, rfl, .make hstep⟩

theorem QueuePair.builder_spec {q : Location} {cq : Nat} (hpd : r.borrow .ProtectionDomain p = some pd)
    (hcq : r.borrow .CompletionQueue q = some cq) (errno : Option Nat) (port : PortAnswer) :
    (errno = none ∧ (query_port port).toOption.isSome ∧
      QueuePair.builder r pd cq cq errno port = (.ok r.heap.cells.length,
        r.make .QueuePair (.ibv_create_qp · pd cq cq) [pd, cq, cq]) ∧
      Transacts r (r.make .QueuePair (.ibv_create_qp · pd cq cq) [pd, cq, cq])
        [r.heap.cells.length] []) ∨
    (∃ e, QueuePair.builder r pd cq cq errno port = (.error e,
        r.leak .QueuePair (.ibv_create_qp · pd cq cq) [pd, cq, cq]) ∧
      errno = none ∧ (query_port port).toOption.isNone ∧
      Transacts r (r.leak .QueuePair (.ibv_create_qp · pd cq cq) [pd, cq, cq]) []
        [(r.heap.cells.length, [pd, cq, cq])]) ∨
    (errno ≠ none ∧ ∃ e, QueuePair.builder r pd cq cq errno port = (.error e, r)) := by
  have hstep : r.step (.build_qp p q q errno port) =
      some (QueuePair.builder r pd cq cq errno port).2 := by
    simp only [Resources.step, hpd, hcq, bind, Option.bind_some]
  unfold QueuePair.builder at hstep ⊢
  cases errno with
  | some errno => exact Or.inr (Or.inr ⟨by simp, _, rfl⟩)
  | none =>
    cases hport : query_port port with
    | error e =>
      rw [hport] at hstep
      exact Or.inr (Or.inl ⟨e, rfl, rfl, rfl, .leak hstep⟩)
    | ok lid =>
      rw [hport] at hstep
      exact Or.inl ⟨rfl, rfl, rfl, .make hstep⟩

/-- One channel: both objects, or none and at most a lost queue pair. -/
theorem Channel.builder_spec (hr : Inv r) (ht : Typed r)
    (hpd : r.borrow .ProtectionDomain p = some pd) (answers : ChannelAnswers) :
    (∃ channel r', Channel.builder r pd min_cq_entries answers = (.ok channel, r') ∧
      answers.accepted min_cq_entries = true ∧ Transacts r r' channel.handles [] ∧
      Wired r' pd channel) ∨
    ∃ e r', Channel.builder r pd min_cq_entries answers = (.error e, r') ∧
      answers.accepted min_cq_entries = false ∧
      ((answers.interrupted min_cq_entries = false ∧ Transacts r r' [] []) ∨
        (answers.interrupted min_cq_entries = true ∧ ∃ cq qp, r.heap.cells.length ≤ cq ∧
          Transacts r r' [] [(qp, [pd, cq, cq])])) := by
  obtain ⟨context, hfields, hcontext⟩ := ht.context hr hpd
  have hname : r.context pd = context := by rw [Resources.context, hfields]; rfl
  unfold Channel.builder ChannelAnswers.accepted ChannelAnswers.interrupted
  rw [hname]
  rcases CompletionQueue.create_spec hcontext answers.create_cq with
    ⟨hmin, herrno, hcreate, hcq⟩ | ⟨hfail, e, hcreate⟩
  · have hborrow := borrow_make r .CompletionQueue (.ibv_create_cq · context) [context]
    rw [hcreate]
    dsimp only
    rcases QueuePair.builder_spec (hcq.borrow hr hpd) hborrow answers.create_qp answers.port with
      ⟨hqp, hport, hbuild, hmade⟩ | ⟨e, hbuild, hqp, hport, hlost⟩ | ⟨hqp, e, hbuild⟩
    · left
      rw [hbuild]
      refine ⟨_, _, rfl, ?_, hcq.trans hmade, ?_⟩
      · simp [hmin, herrno, hqp, hport]
      · have hlt := hr.counted.lt_length (hr.mem_of_borrow hpd)
        have hcq_kind := kind_of_borrow hborrow
        have hkept := lt_of_kind hcq_kind
        refine ⟨?_, ?_, ?_, ?_⟩
        · rw [kind_eq_shape, shape_make]
          rfl
        · rw [kind_of_extends hmade.extends_heap hkept, hcq_kind]
        · rw [Heap.fields_eq, shape_make]
          rfl
        · rw [hmade.extends_heap.fields hkept, Heap.fields_eq, shape_make, Resources.context,
            (hcq.trans hmade).extends_heap.fields hlt, hfields]
          rfl
    · right
      rw [hbuild]
      refine ⟨_, _, rfl, ?_, Or.inr ⟨?_, r.heap.cells.length, _, Nat.le_refl _,
        (hcq.trans hlost).drop⟩⟩
      · rw [Option.isNone_iff_eq_none] at hport
        simp [hport]
      · simp [hmin, herrno, hqp, hport]
    · right
      rw [hbuild]
      refine ⟨_, _, rfl, ?_, Or.inl ⟨?_, hcq.drop⟩⟩
      · simp [hqp]
      · simp [hqp]
  · right
    rw [hcreate]
    have hrefused : (decide (min_cq_entries.toNat ≤ 2147483647) && answers.create_cq.isNone) =
        false := by
      rw [Bool.eq_false_iff]
      simpa using hfail
    refine ⟨_, _, rfl, ?_, Or.inl ⟨?_, .refl r⟩⟩
    · simp [hrefused]
    · simp [hrefused]

section Loop

variable {start : Resources} (hstart : Inv start) (htyped : Typed start)
  (hpd : start.borrow .ProtectionDomain p = some pd) (answers : Nat → ChannelAnswers)

include hstart htyped hpd

/-- The loop stops at the first channel that is refused and drops those before it. -/
theorem buildChannels_spec (n k : Nat) {channels : List ChannelObjects}
    (h : Transacts start r (channels.flatMap ChannelObjects.handles) [])
    (hwired : ∀ channel ∈ channels, Wired r pd channel) :
    (∃ built r', buildChannels pd min_cq_entries answers n k channels r = (.ok built, r') ∧
      (∀ j < n, (answers (k + j)).accepted min_cq_entries = true) ∧
      Transacts start r' (built.flatMap ChannelObjects.handles) [] ∧
      built.length = channels.length + n ∧ ∀ channel ∈ built, Wired r' pd channel) ∨
    ∃ e r', buildChannels pd min_cq_entries answers n k channels r = (.error e, r') ∧
      ∃ j < n, (∀ i < j, (answers (k + i)).accepted min_cq_entries = true) ∧
        (answers (k + j)).accepted min_cq_entries = false ∧
        (((answers (k + j)).interrupted min_cq_entries = false ∧ Transacts start r' [] []) ∨
          ((answers (k + j)).interrupted min_cq_entries = true ∧ ∃ cq qp,
            start.heap.cells.length ≤ cq ∧ Transacts start r' [] [(qp, [pd, cq, cq])])) := by
  induction n generalizing k channels r with
  | zero => exact Or.inl ⟨channels, r, rfl, by simp, h, rfl, hwired⟩
  | succ n ih =>
    have hr := h.inv hstart
    have hborrow := h.borrow hstart hpd
    have hdrop {r' : Resources} {lost : List (Nat × List Nat)} (h' : Transacts r r' [] lost) :
        Transacts start (r'.dropAll (channels.flatMap ChannelObjects.handles)) [] lost :=
      (h.trans h').dropAll (.refl _)
    rw [buildChannels]
    rcases Channel.builder_spec hr (h.typed hstart htyped) hborrow (answers k) with
      ⟨channel, r', hbuild, haccepted, hmade, hnew⟩ | ⟨e, r', hbuild, hrefused, hlost⟩
    · rw [hbuild]
      have hpd' := hr.counted.lt_length (hr.mem_of_borrow hborrow)
      have hnext :
          Transacts start r' ((channels ++ [channel]).flatMap ChannelObjects.handles) [] := by
        rw [List.flatMap_append, List.flatMap_singleton]
        exact h.trans hmade
      have hwired' : ∀ other ∈ channels ++ [channel], Wired r' pd other := by
        intro other hother
        rcases List.mem_append.mp hother with hother | hother
        · exact (hwired other hother).of_extends hmade.extends_heap hpd'
        · rw [List.mem_singleton.mp hother]
          exact hnew
      have hshift (P : Nat → Prop) (hzero : P k) (m : Nat) (hrest : ∀ i < m, P (k + 1 + i)) :
          ∀ i < m + 1, P (k + i) := by
        intro i hi
        cases i with
        | zero => exact hzero
        | succ i =>
          have hi' := hrest i (by omega)
          rwa [Nat.add_assoc, Nat.add_comm 1 i] at hi'
      rcases ih (k + 1) hnext hwired' with
        ⟨built, r'', hrest, hall, htransacts, hlength, hbuilt⟩ |
          ⟨e, r'', hrest, j, hj, hbefore, hat⟩
      · refine Or.inl ⟨built, r'', hrest, ?_, htransacts, ?_, hbuilt⟩
        · exact hshift (fun i => (answers i).accepted min_cq_entries = true) haccepted n hall
        · rw [hlength, List.length_append, List.length_singleton]
          omega
      · rw [Nat.add_assoc, Nat.add_comm 1 j] at hat
        refine Or.inr ⟨e, r'', hrest, j + 1, by omega, ?_, hat⟩
        exact hshift (fun i => (answers i).accepted min_cq_entries = true) haccepted j hbefore
    · rw [hbuild]
      refine Or.inr ⟨e, _, rfl, 0, by omega, by simp, hrefused, ?_⟩
      rcases hlost with ⟨hport, hnone⟩ | ⟨hport, cq, qp, hfresh, hlost⟩
      · exact Or.inl ⟨hport, hdrop hnone⟩
      · exact Or.inr ⟨hport, cq, qp, Nat.le_trans h.extends_heap.length_le hfresh, hdrop hlost⟩

end Loop

end Builders

/-- The first channel that is not accepted loses its queue pair. -/
def Interrupted (answers : Nat → ChannelAnswers) (min_cq_entries : UInt32) (n : Nat) : Prop :=
  ∃ k < n, (∀ i < k, (answers i).accepted min_cq_entries = true) ∧
    (answers k).interrupted min_cq_entries = true

theorem not_accepted_of_interrupted {answers : ChannelAnswers} {min_cq_entries : UInt32}
    (h : answers.interrupted min_cq_entries = true) : answers.accepted min_cq_entries = false := by
  unfold ChannelAnswers.interrupted at h
  unfold ChannelAnswers.accepted
  cases hport : (query_port answers.port).toOption with
  | none => simp
  | some lid => simp [hport] at h

theorem not_interrupted {answers : Nat → ChannelAnswers} {min_cq_entries : UInt32} {n j : Nat}
    (hbefore : ∀ i < j, (answers i).accepted min_cq_entries = true)
    (hat : j = n ∨ (answers j).accepted min_cq_entries = false ∧
      (answers j).interrupted min_cq_entries = false) :
    ¬ Interrupted answers min_cq_entries n := by
  rintro ⟨k, hk, haccepted, hinterrupted⟩
  have hrefused := not_accepted_of_interrupted hinterrupted
  rcases Nat.lt_trichotomy k j with hlt | rfl | hlt
  · rw [hbefore k hlt] at hrefused
    cases hrefused
  · rcases hat with rfl | ⟨_, hnot⟩
    · exact Nat.lt_irrefl _ hk
    · rw [hinterrupted] at hnot
      cases hnot
  · rcases hat with rfl | ⟨hnot, _⟩
    · exact Nat.lt_asymm hk hlt
    · rw [haccepted j hlt] at hnot
      cases hnot

section Builders

variable {r : Resources} {p : Location} {pd : Nat} {min_cq_entries : UInt32}

/-- The handles that a builder hands over. -/
def owned {α : Type} (handles : α → List Nat) : Except IbvError α → List Nat
  | .ok a => handles a
  | .error _ => []

theorem MultiChannel.builder_spec (hr : Inv r) (ht : Typed r)
    (hpd : r.borrow .ProtectionDomain p = some pd) (answers : Nat → ChannelAnswers) (n : Nat) :
    (∃ multi_channel r', MultiChannel.builder r n pd min_cq_entries answers =
        (.ok multi_channel, r') ∧
      (∀ k < n, (answers k).accepted min_cq_entries = true) ∧
      Transacts r r' multi_channel.handles [] ∧ multi_channel.channels.length = n ∧
      ∀ channel ∈ multi_channel.channels, Wired r' pd channel) ∨
    ∃ e r', MultiChannel.builder r n pd min_cq_entries answers = (.error e, r') ∧
      (¬ ∀ k < n, (answers k).accepted min_cq_entries = true) ∧
      ((¬ Interrupted answers min_cq_entries n ∧ Transacts r r' [] []) ∨
        (Interrupted answers min_cq_entries n ∧ ∃ cq qp, r.heap.cells.length ≤ cq ∧
          Transacts r r' [] [(qp, [pd, cq, cq])])) := by
  have hloop := @buildChannels_spec r p pd min_cq_entries r hr ht hpd answers n 0 [] (.refl r)
    (fun _ hchannel => by cases hchannel)
  simp only [Nat.zero_add] at hloop
  unfold MultiChannel.builder
  rcases hloop with ⟨channels, r', hbuild, hall, htransacts, hlength, hwired⟩ |
    ⟨e, r', hbuild, j, hj, hbefore, hrefused, hlost⟩
  · left
    have hpd' := htransacts.borrow hr hpd
    have hlt := (htransacts.inv hr).counted.lt_length ((htransacts.inv hr).mem_of_borrow hpd')
    have hclone : system.step r' (.clone .ProtectionDomain p) =
        some { r' with heap := r'.heap.clone pd } := by
      simp only [system, Resources.step, hpd', Option.map_some]
    have hcloned : Transacts r' { r' with heap := r'.heap.clone pd } [pd] [] :=
      ⟨⟨_, system.runFrom_singleton hclone⟩, Heap.Extends.retain r'.heap pd, .refl _,
        (List.append_nil _).symm⟩
    rw [hbuild]
    refine ⟨_, _, rfl, hall, htransacts.trans hcloned, ?_, ?_⟩
    · rw [hlength, List.length_nil, Nat.zero_add]
    · intro channel hchannel
      exact (hwired channel hchannel).of_extends hcloned.extends_heap hlt
  · right
    rw [hbuild]
    refine ⟨_, _, rfl, ?_, ?_⟩
    · intro hall
      rw [hall j hj] at hrefused
      cases hrefused
    · rcases hlost with ⟨hport, hnone⟩ | ⟨hport, hlost⟩
      · exact Or.inl ⟨not_interrupted hbefore (Or.inr ⟨hrefused, hport⟩), hnone⟩
      · exact Or.inr ⟨⟨j, hj, hbefore, hport⟩, hlost⟩

/-- A node is built when everything is accepted, and otherwise not at all. -/
theorem Node.builder_spec (hr : Inv r) (ht : Typed r)
    (hpd : r.borrow .ProtectionDomain p = some pd) (answers : Nat → ChannelAnswers) (n : Nat)
    (register : Option Nat) :
    (∃ node r', Node.builder r n pd min_cq_entries answers register = (.ok node, r') ∧
      (∀ k < n, (answers k).accepted min_cq_entries = true) ∧ register = none ∧
      Transacts r r' node.handles [] ∧ node.multi_channel.channels.length = n ∧
      (∀ channel ∈ node.multi_channel.channels, Wired r' pd channel) ∧
      r'.heap.fields node.barrier_mr = [pd]) ∨
    ∃ e r', Node.builder r n pd min_cq_entries answers register = (.error e, r') ∧
      ¬ ((∀ k < n, (answers k).accepted min_cq_entries = true) ∧ register = none) ∧
      ((¬ Interrupted answers min_cq_entries n ∧ Transacts r r' [] []) ∨
        (Interrupted answers min_cq_entries n ∧ ∃ cq qp, r.heap.cells.length ≤ cq ∧
          Transacts r r' [] [(qp, [pd, cq, cq])])) := by
  unfold Node.builder
  rcases MultiChannel.builder_spec hr ht hpd answers n with
    ⟨multi_channel, r', hbuild, hall, htransacts, hlength, hwired⟩ |
      ⟨e, r', hbuild, hrefused, hlost⟩
  · have hpd' := htransacts.borrow hr hpd
    have hlt := (htransacts.inv hr).counted.lt_length ((htransacts.inv hr).mem_of_borrow hpd')
    rw [hbuild]
    dsimp only
    cases register with
    | none =>
      have hstep : r'.step (.register_mr p none) =
          some (r'.make .MemoryRegion (.ibv_reg_mr · pd) [pd]) := by
        simp only [Resources.step, hpd', Option.map_some, MemoryRegion.register_mr_with_access]
      have hmade := Transacts.make hstep
      left
      refine ⟨_, _, rfl, hall, rfl, htransacts.trans hmade, hlength, ?_, ?_⟩
      · intro channel hchannel
        exact (hwired channel hchannel).of_extends hmade.extends_heap hlt
      · rw [Heap.fields_eq, shape_make]
        rfl
    | some errno =>
      right
      refine ⟨_, _, rfl, fun h => Option.some_ne_none _ h.2, Or.inl ⟨not_interrupted hall (Or.inl rfl), ?_⟩⟩
      apply htransacts.dropAll
      rw [List.append_nil]
  · rw [hbuild]
    exact Or.inr ⟨_, _, rfl, fun h => hrefused h.1, hlost⟩

end Builders

end Resources

end IbverbsRs.Ibverbs
