import IbverbsRs.Ibverbs.ResourceSafety

namespace IbverbsRs.Ibverbs

open Framework

/-- The types of the fields through which an object keeps others. -/
def ObjectKind.parts : ObjectKind → List ObjectKind
  | Context => []
  | ProtectionDomain | CompletionQueue => [Context]
  | QueuePair => [ProtectionDomain, CompletionQueue, CompletionQueue]
  | MemoryRegion => [ProtectionDomain]

namespace Resources

/-- Whatever is alive keeps objects of the types it has fields for. -/
def Typed (r : Resources) : Prop := ∀ id kind, r.heap.alive id = true → r.kind id = some kind →
  (r.heap.fields id).map r.kind = kind.parts.map some

theorem kind_eq_shape (r : Resources) (id : Nat) : r.kind id = (r.heap.shape id).map Prod.fst := by
  rw [kind, Heap.shape, Option.map_map]
  rfl

theorem shape_make (r : Resources) (kind : ObjectKind) (call : Nat → DriverCall)
    (fields : List Nat) :
    (r.make kind call fields).heap.shape r.heap.cells.length = some (kind, fields) := by
  simp [Resources.make, Heap.create, Heap.shape]

theorem lt_of_kind {r : Resources} {id : Nat} {kind : ObjectKind} (h : r.kind id = some kind) :
    id < r.heap.cells.length := by
  obtain ⟨c, hcell, _⟩ := Option.map_eq_some_iff.mp h
  exact (List.getElem?_eq_some_iff.mp hcell).1

theorem kind_of_borrow {r : Resources} {kind : ObjectKind} {p : Location} {id : Nat}
    (h : r.borrow kind p = some id) : r.kind id = some kind := by
  have hkind := (Option.filter_eq_some_iff.mp h).2
  simpa using hkind

section Extends

variable {r r' : Resources} (he : r.heap.Extends r'.heap)

include he

theorem kind_of_extends {id : Nat} (hid : id < r.heap.cells.length) : r'.kind id = r.kind id := by
  rw [kind_eq_shape, kind_eq_shape, he id hid]

theorem borrow_of_extends (hr : Inv r) {kind : ObjectKind} {p : Location} {id : Nat}
    (hp : r.borrow kind p = some id) (hroot : p.root ∈ r'.heap.handles) :
    r'.borrow kind p = some id := by
  have hlt := hr.counted.lt_length (hr.mem_of_borrow hp)
  unfold borrow at hp ⊢
  obtain ⟨hborrow, hkind⟩ := Option.filter_eq_some_iff.mp hp
  refine Option.filter_eq_some_iff.mpr ⟨he.borrow_of_mem hr.counted hborrow hroot, ?_⟩
  rwa [kind_of_extends he hlt]

/-- What was there before keeps its typing while it is alive. -/
theorem typed_of_extends (hr : Inv r) (ht : Typed r) {id : Nat} {kind : ObjectKind}
    (hid : id < r.heap.cells.length) (halive : r.heap.alive id = true)
    (hkind : r'.kind id = some kind) : (r'.heap.fields id).map r'.kind = kind.parts.map some := by
  rw [kind_of_extends he hid] at hkind
  rw [← ht id kind halive hkind, he.fields hid]
  apply List.map_congr_left
  intro field hfield
  exact kind_of_extends he (Nat.lt_trans (hr.counted.older id field hfield) hid)

theorem Typed.congr (hr : Inv r) (ht : Typed r)
    (halive : ∀ id, r'.heap.alive id = true → r.heap.alive id = true) : Typed r' := by
  intro id kind hid hkind
  exact typed_of_extends he hr ht (Heap.Counted.lt_length_of_alive (halive id hid)) (halive id hid)
    hkind

end Extends

namespace Typed

variable {r : Resources}

theorem make (hr : Inv r) (ht : Typed r) {kind : ObjectKind} (call : Nat → DriverCall)
    {fields : List Nat} (hfields : fields.map r.kind = kind.parts.map some) :
    Typed (r.make kind call fields) := by
  have he : r.heap.Extends (r.make kind call fields).heap :=
    Heap.Extends.create r.heap kind fields
  intro id kind' hid hkind
  have halive : (r.make kind call fields).heap.alive id =
      if id = r.heap.cells.length then true else r.heap.alive id := Heap.alive_create ..
  rw [halive] at hid
  split_ifs at hid with hnew
  · subst hnew
    rw [kind_eq_shape, shape_make] at hkind
    obtain rfl := Option.some.inj hkind
    rw [Heap.fields_eq, shape_make, ← hfields]
    apply List.map_congr_left
    intro field hfield
    have hsome : r.kind field ∈ kind.parts.map some := by
      rw [← hfields]
      exact List.mem_map_of_mem hfield
    obtain ⟨part, _, hpart⟩ := List.mem_map.mp hsome
    exact kind_of_extends he (lt_of_kind hpart.symm)
  · exact typed_of_extends he hr ht (Heap.Counted.lt_length_of_alive hid) hid hkind

theorem leak (hr : Inv r) (ht : Typed r) (kind : ObjectKind) (call : Nat → DriverCall)
    (parents : List Nat) : Typed (r.leak kind call parents) := by
  apply ht.congr (Heap.Extends.reserve r.heap kind) hr
  intro id hid
  rwa [← Heap.alive_reserve r.heap id kind]

theorem drop (hr : Inv r) (ht : Typed r) (id : Nat) : Typed (r.drop id) :=
  ht.congr (.refl r.heap) hr (fun _ hid => hid)

theorem step (hr : Inv r) (ht : Typed r) {ev : ResourceEvent} {r' : Resources}
    (hs : r.step ev = some r') : Typed r' := by
  cases ev with
  | from_device errno port =>
    obtain rfl := Option.some.inj hs
    unfold Context.from_device
    cases errno with
    | some errno => exact ht
    | none =>
      have hmade : Typed (r.make .Context .ibv_open_device []) := ht.make hr _ rfl
      have hinv : Inv (r.make .Context .ibv_open_device []) :=
        hr.make .Context (fun _ => rfl) (fun _ hfield => by cases hfield)
      dsimp only
      split
      · exact hmade.drop hinv _
      · exact hmade
  | allocate context errno =>
    obtain ⟨context, hcontext, rfl⟩ := Option.map_eq_some_iff.mp hs
    cases errno with
    | some errno => exact ht
    | none =>
      apply ht.make hr
      rw [List.map_singleton, kind_of_borrow hcontext]
      rfl
  | create_cq context min_capacity errno =>
    obtain ⟨context, hcontext, rfl⟩ := Option.map_eq_some_iff.mp hs
    unfold CompletionQueue.create
    split_ifs
    · exact ht
    · cases errno with
      | some errno => exact ht
      | none =>
        apply ht.make hr
        rw [List.map_singleton, kind_of_borrow hcontext]
        rfl
  | build_qp pd send_cq recv_cq errno port =>
    obtain ⟨pd, hpd, hs⟩ := Option.bind_eq_some_iff.mp hs
    obtain ⟨send_cq, hsend, hs⟩ := Option.bind_eq_some_iff.mp hs
    obtain ⟨recv_cq, hrecv, hs⟩ := Option.bind_eq_some_iff.mp hs
    obtain rfl := Option.some.inj hs
    unfold QueuePair.builder
    cases errno with
    | some errno => exact ht
    | none =>
      dsimp only
      split
      · exact ht.leak hr _ _ _
      · apply ht.make hr
        simp only [List.map_cons, List.map_nil, kind_of_borrow hpd, kind_of_borrow hsend,
          kind_of_borrow hrecv, ObjectKind.parts]
  | register_mr pd errno =>
    obtain ⟨pd, hpd, rfl⟩ := Option.map_eq_some_iff.mp hs
    cases errno with
    | some errno => exact ht
    | none =>
      apply ht.make hr
      rw [List.map_singleton, kind_of_borrow hpd]
      rfl
  | clone kind p =>
    cases kind with
    | Context | ProtectionDomain | CompletionQueue =>
      obtain ⟨id, _, rfl⟩ := Option.map_eq_some_iff.mp hs
      apply ht.congr (Heap.Extends.retain r.heap id) hr
      intro j hj
      exact (Heap.alive_retain r.heap id j).symm.trans hj
    | QueuePair | MemoryRegion => cases hs
  | drop id =>
    simp only [Resources.step] at hs
    split_ifs at hs
    obtain rfl := Option.some.inj hs
    exact ht.drop hr id
  | run k =>
    have hheap := glue_run hs
    apply ht.congr (Heap.Extends.run hheap) hr
    intro id hid
    rw [Heap.alive_run hheap, Bool.and_eq_true] at hid
    exact hid.1

theorem run_system {es : List ResourceEvent} (hrun : system.run es = some r) : Typed r := by
  refine (system.invariant (I := fun r => Inv r ∧ Typed r) ?_ ?_ hrun).2
  · refine ⟨Inv.empty, ?_⟩
    intro id kind hid
    cases hid
  · intro r ev r' h hs
    exact ⟨h.1.step hs, h.2.step h.1 hs⟩

end Typed

/-- A domain that is borrowed keeps its context. -/
theorem Typed.context {r : Resources} (ht : Typed r) (hr : Inv r) {p : Location} {pd : Nat}
    (hpd : r.borrow .ProtectionDomain p = some pd) : ∃ context, r.heap.fields pd = [context] ∧
      r.borrow .Context ⟨p.root, p.path ++ [0]⟩ = some context := by
  have halive := hr.counted.alive_of_mem (hr.mem_of_borrow hpd)
  have hparts := ht pd _ halive (kind_of_borrow hpd)
  obtain ⟨context, hfields⟩ : ∃ context, r.heap.fields pd = [context] := by
    apply List.length_eq_one_iff.mp
    simpa [ObjectKind.parts] using congrArg List.length hparts
  refine ⟨context, hfields, ?_⟩
  rw [hfields] at hparts
  have hkind : r.kind context = some .Context := by simpa [ObjectKind.parts] using hparts
  have hheap := (Option.filter_eq_some_iff.mp hpd).1
  unfold Heap.borrow at hheap
  split_ifs at hheap with hroot
  refine Option.filter_eq_some_iff.mpr ⟨?_, by simpa using hkind⟩
  rw [Heap.borrow, if_pos hroot, Heap.resolve_snoc, hheap, Option.bind_some, hfields]
  rfl

end Resources

end IbverbsRs.Ibverbs
