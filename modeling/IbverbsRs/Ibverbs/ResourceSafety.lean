import IbverbsRs.Ibverbs.Resources
import Mathlib.Data.List.Nodup

namespace IbverbsRs.Ibverbs

open Framework

namespace Resources

/-- The objects that the driver was told to unmake. -/
def unmade (r : Resources) : List Nat := r.calls.filterMap DriverCall.unmade

/-- An object was unmade under a lost queue pair. -/
def Undercut (r : Resources) : Prop := ∃ qp ∈ r.leaked, ∃ parent ∈ qp.2, parent ∈ r.unmade

/-- The driver has what is alive and what is lost. -/
def Mirrors (r : Resources) (d : Driver) : Prop :=
  ∀ x : Nat × List Nat,
    x ∈ d ↔ (r.heap.alive x.1 = true ∧ r.heap.fields x.1 = x.2) ∨ x ∈ r.leaked

structure Inv (r : Resources) : Prop where
  counted : r.heap.Counted
  lost : ∀ qp ∈ r.leaked, qp.1 < r.heap.cells.length ∧ r.heap.alive qp.1 = false
  parents : ∀ qp ∈ r.leaked, ∀ parent ∈ qp.2,
    parent < r.heap.cells.length ∧ parent ∉ r.leaked.map Prod.fst
  unmade : ∀ id, r.unmade.count id =
    if id < r.heap.cells.length ∧ r.heap.alive id = false ∧ id ∉ r.leaked.map Prod.fst then 1 else 0
  made : ∀ call ∈ r.calls, ∀ id ps, call.effect = .make id ps →
    id < r.heap.cells.length ∧ (id ∈ r.leaked.map Prod.fst → (id, ps) ∈ r.leaked)
  rules : (∃ d, Driver.rules.run r.calls = some d ∧ r.Mirrors d ∧ ¬ r.Undercut) ∨
    (Driver.rules.run r.calls = none ∧ r.Undercut)

theorem run_rules_snoc (calls : List DriverCall) (call : DriverCall) :
    Driver.rules.run (calls ++ [call]) =
      (Driver.rules.run calls).bind (fun d => d.step call) := by
  unfold TransitionSystem.run
  rw [TransitionSystem.runFrom_append]
  refine Option.bind_congr (fun d _ => ?_)
  rw [TransitionSystem.runFrom_cons]
  exact Option.bind_fun_some _

theorem unmade_snoc_make {r : Resources} {calls : List DriverCall} {call : DriverCall} {id : Nat}
    {ps : List Nat} (hcall : call.effect = .make id ps) (hcalls : r.calls = calls ++ [call]) :
    r.unmade = calls.filterMap DriverCall.unmade := by
  rw [unmade, hcalls, List.filterMap_append]
  simp [DriverCall.unmade, hcall]

namespace Inv

variable {r : Resources}

theorem empty : Inv Resources.empty where
  counted := Heap.Counted.empty
  lost _ h := by cases h
  parents _ h := by cases h
  unmade id := by simp [Resources.unmade, Resources.empty, Heap.empty]
  made _ h := by cases h
  rules := by
    refine Or.inl ⟨[], rfl, ?_, ?_⟩
    · intro x
      simp [Resources.empty, Heap.empty, Heap.alive]
    · rintro ⟨qp, hqp, _⟩
      cases hqp

/-- What changes only who has handles to what keeps the invariant. -/
theorem congr (hr : Inv r) {heap : Heap ObjectKind} (hc : heap.Counted)
    (hlength : heap.cells.length = r.heap.cells.length)
    (halive : ∀ j, heap.alive j = r.heap.alive j) (hfields : ∀ j, heap.fields j = r.heap.fields j) :
    Inv { r with heap := heap } := by
  refine ⟨hc, ?_, ?_, ?_, ?_, ?_⟩
  · simpa only [hlength, halive] using hr.lost
  · simpa only [hlength] using hr.parents
  · intro id
    rw [hlength, halive]
    exact hr.unmade id
  · simpa only [hlength] using hr.made
  · rcases hr.rules with ⟨d, hd, hmirror, hcut⟩ | hnone
    · refine Or.inl ⟨d, hd, ?_, hcut⟩
      intro x
      simpa only [halive, hfields] using hmirror x
    · exact Or.inr hnone

theorem lt_of_mirrors (hr : Inv r) {d : Driver} (hd : r.Mirrors d) {x : Nat × List Nat}
    (hx : x ∈ d) : x.1 < r.heap.cells.length := by
  rcases (hd x).mp hx with ⟨halive, _⟩ | hlost
  · exact Heap.Counted.lt_length_of_alive halive
  · exact (hr.lost x hlost).1

theorem mem_of_mirrors {d : Driver} (hd : r.Mirrors d) {id : Nat}
    (halive : r.heap.alive id = true) : id ∈ d.map Prod.fst :=
  List.mem_map.mpr ⟨(id, r.heap.fields id), (hd _).mpr (Or.inl ⟨halive, rfl⟩), rfl⟩

/-- The driver makes an object from parents that the program has handles to. -/
theorem step_make (hr : Inv r) {d : Driver} (hd : r.Mirrors d) {call : DriverCall}
    {ps : List Nat} (hcall : call.effect = .make r.heap.cells.length ps)
    (hps : ∀ parent ∈ ps, parent ∈ r.heap.references) :
    d.step call = some (d ++ [(r.heap.cells.length, ps)]) := by
  unfold Driver.step
  rw [hcall]
  refine if_pos ⟨?_, ?_⟩
  · intro parent hparent
    exact mem_of_mirrors hd (hr.counted.alive_of_mem (hps parent hparent))
  · intro hmem
    obtain ⟨x, hx, heq⟩ := List.mem_map.mp hmem
    have hlt := hr.lt_of_mirrors hd hx
    omega

theorem make (hr : Inv r) (kind : ObjectKind) {call : Nat → DriverCall} {fields : List Nat}
    (hcall : ∀ id, (call id).effect = .make id fields)
    (hfields : ∀ field ∈ fields, field ∈ r.heap.references) : Inv (r.make kind call fields) := by
  have hlength : (r.make kind call fields).heap.cells.length = r.heap.cells.length + 1 :=
    Heap.length_create r.heap fields kind
  have halive (j : Nat) : (r.make kind call fields).heap.alive j =
      if j = r.heap.cells.length then true else r.heap.alive j :=
    Heap.alive_create r.heap fields j kind
  have hkept (j : Nat) : (r.make kind call fields).heap.fields j =
      if j = r.heap.cells.length then fields else r.heap.fields j :=
    Heap.fields_create r.heap fields j kind
  have hunmade : (r.make kind call fields).unmade = r.unmade := unmade_snoc_make (hcall _) rfl
  have hcut : (r.make kind call fields).Undercut ↔ r.Undercut := by
    unfold Undercut
    rw [hunmade]
    exact Iff.rfl
  refine ⟨hr.counted.create kind hfields, ?_, ?_, ?_, ?_, ?_⟩
  · intro qp hqp
    obtain ⟨hlt, hdead⟩ := hr.lost qp hqp
    rw [hlength, halive, if_neg (Nat.ne_of_lt hlt)]
    exact ⟨Nat.lt_succ_of_lt hlt, hdead⟩
  · intro qp hqp parent hparent
    obtain ⟨hlt, hnot⟩ := hr.parents qp hqp parent hparent
    rw [hlength]
    exact ⟨Nat.lt_succ_of_lt hlt, hnot⟩
  · intro id
    rw [hunmade, hr.unmade, hlength, halive]
    by_cases hid : id = r.heap.cells.length
    · simp [hid]
    · have hlt : id < r.heap.cells.length + 1 ↔ id < r.heap.cells.length := by omega
      rw [if_neg hid]
      exact if_congr (and_congr_left' hlt.symm) rfl rfl
  · intro c hc id ps heffect
    rw [hlength]
    rcases List.mem_append.mp hc with hc | hc
    · obtain ⟨hlt, hlost⟩ := hr.made c hc id ps heffect
      exact ⟨Nat.lt_succ_of_lt hlt, hlost⟩
    · obtain rfl := List.mem_singleton.mp hc
      rw [hcall] at heffect
      obtain ⟨rfl, rfl⟩ := DriverEffect.make.inj heffect
      refine ⟨Nat.lt_succ_self _, ?_⟩
      intro hmem
      obtain ⟨qp, hqp, heq⟩ := List.mem_map.mp hmem
      have hlt := (hr.lost qp hqp).1
      omega
  · have hcalls : (r.make kind call fields).calls = r.calls ++ [call r.heap.cells.length] := rfl
    rw [hcalls, run_rules_snoc, hcut]
    rcases hr.rules with ⟨d, hd, hmirror, hclear⟩ | ⟨hnone, hundercut⟩
    · rw [hd, Option.bind_some, hr.step_make hmirror (hcall _) hfields]
      refine Or.inl ⟨_, rfl, ?_, hclear⟩
      intro x
      rw [List.mem_append, List.mem_singleton, hmirror x, halive, hkept]
      have hleaked : (r.make kind call fields).leaked = r.leaked := rfl
      rw [hleaked]
      by_cases hx : x.1 = r.heap.cells.length
      · have hnot : x ∉ r.leaked := fun hmem => by
          have hlt := (hr.lost x hmem).1
          omega
        have hfresh := Heap.alive_length r.heap
        rw [← hx] at hfresh
        rw [if_pos hx, if_pos hx, ← hx]
        simp [hfresh, hnot, Prod.ext_iff, eq_comm]
      · rw [if_neg hx, if_neg hx]
        have hne : x ≠ (r.heap.cells.length, fields) := fun heq => hx (congrArg Prod.fst heq)
        simp [hne]
    · rw [hnone]
      exact Or.inr ⟨rfl, hundercut⟩

/-- A lost queue pair keeps its name, and keeps the driver from unmaking its parents. -/
theorem leak (hr : Inv r) (kind : ObjectKind) {call : Nat → DriverCall} {ps : List Nat}
    (hcall : ∀ id, (call id).effect = .make id ps)
    (hps : ∀ parent ∈ ps, parent ∈ r.heap.references) : Inv (r.leak kind call ps) := by
  have hlength : (r.leak kind call ps).heap.cells.length = r.heap.cells.length + 1 := by
    simp [Resources.leak, Heap.reserve]
  have halive (j : Nat) : (r.leak kind call ps).heap.alive j = r.heap.alive j :=
    Heap.alive_reserve r.heap j kind
  have hkept (j : Nat) : (r.leak kind call ps).heap.fields j = r.heap.fields j :=
    Heap.fields_reserve r.heap j kind
  have hunmade : (r.leak kind call ps).unmade = r.unmade := unmade_snoc_make (hcall _) rfl
  have hleaked : (r.leak kind call ps).leaked = r.leaked ++ [(r.heap.cells.length, ps)] := rfl
  have hparent : ∀ parent ∈ ps, parent < r.heap.cells.length ∧
      parent ∉ r.leaked.map Prod.fst ∧ parent ∉ r.unmade := by
    intro parent hparent
    have hpalive := hr.counted.alive_of_mem (hps parent hparent)
    refine ⟨Heap.Counted.lt_length_of_alive hpalive, ?_, ?_⟩
    · intro hmem
      obtain ⟨qp, hqp, rfl⟩ := List.mem_map.mp hmem
      rw [(hr.lost qp hqp).2] at hpalive
      cases hpalive
    · rw [← List.count_eq_zero, hr.unmade, hpalive]
      simp
  have hcut : (r.leak kind call ps).Undercut ↔ r.Undercut := by
    unfold Undercut
    rw [hunmade, hleaked]
    constructor
    · rintro ⟨qp, hqp, parent, hin, hdone⟩
      rcases List.mem_append.mp hqp with hqp | hqp
      · exact ⟨qp, hqp, parent, hin, hdone⟩
      · obtain rfl := List.mem_singleton.mp hqp
        exact absurd hdone (hparent parent hin).2.2
    · rintro ⟨qp, hqp, hrest⟩
      exact ⟨qp, List.mem_append_left _ hqp, hrest⟩
  refine ⟨hr.counted.reserve kind, ?_, ?_, ?_, ?_, ?_⟩
  · intro qp hqp
    rw [hlength, halive]
    rcases List.mem_append.mp hqp with hqp | hqp
    · exact ⟨Nat.lt_succ_of_lt (hr.lost qp hqp).1, (hr.lost qp hqp).2⟩
    · obtain rfl := List.mem_singleton.mp hqp
      exact ⟨Nat.lt_succ_self _, Heap.alive_length r.heap⟩
  · intro qp hqp parent hin
    have hold : parent < r.heap.cells.length ∧ parent ∉ r.leaked.map Prod.fst := by
      rcases List.mem_append.mp hqp with hqp | hqp
      · exact hr.parents qp hqp parent hin
      · obtain rfl := List.mem_singleton.mp hqp
        exact ⟨(hparent parent hin).1, (hparent parent hin).2.1⟩
    rw [hlength, hleaked, List.map_append, List.mem_append, List.map_singleton,
      List.mem_singleton]
    exact ⟨Nat.lt_succ_of_lt hold.1, fun hmem => hmem.elim hold.2 (Nat.ne_of_lt hold.1)⟩
  · intro id
    rw [hunmade, hr.unmade, hlength, halive, hleaked, List.map_append]
    refine if_congr ?_ rfl rfl
    rw [List.mem_append, List.map_singleton, List.mem_singleton, not_or]
    constructor
    · rintro ⟨hlt, hdead, hnot⟩
      exact ⟨Nat.lt_succ_of_lt hlt, hdead, hnot, Nat.ne_of_lt hlt⟩
    · rintro ⟨hlt, hdead, hnot, hne⟩
      exact ⟨by omega, hdead, hnot⟩
  · intro c hc id qs heffect
    rw [hlength, hleaked, List.map_append, List.mem_append, List.mem_append, List.map_singleton,
      List.mem_singleton, List.mem_singleton]
    rcases List.mem_append.mp hc with hc | hc
    · obtain ⟨hlt, hlost⟩ := hr.made c hc id qs heffect
      refine ⟨Nat.lt_succ_of_lt hlt, ?_⟩
      intro hmem
      exact Or.inl (hlost (hmem.resolve_right (Nat.ne_of_lt hlt)))
    · obtain rfl := List.mem_singleton.mp hc
      rw [hcall] at heffect
      obtain ⟨rfl, rfl⟩ := DriverEffect.make.inj heffect
      exact ⟨Nat.lt_succ_self _, fun _ => Or.inr rfl⟩
  · have hcalls : (r.leak kind call ps).calls = r.calls ++ [call r.heap.cells.length] := rfl
    rw [hcalls, run_rules_snoc, hcut]
    rcases hr.rules with ⟨d, hd, hmirror, hclear⟩ | ⟨hnone, hundercut⟩
    · rw [hd, Option.bind_some, hr.step_make hmirror (hcall _) hps]
      refine Or.inl ⟨_, rfl, ?_, hclear⟩
      intro x
      rw [List.mem_append, hmirror x, halive, hkept, hleaked, List.mem_append, or_assoc]
    · rw [hnone]
      exact Or.inr ⟨rfl, hundercut⟩

theorem clone (hr : Inv r) {id : Nat} (hid : id ∈ r.heap.references) :
    Inv { r with heap := r.heap.clone id } :=
  hr.congr (hr.counted.clone hid) (Heap.length_retain r.heap id) (Heap.alive_retain r.heap id)
    (Heap.fields_retain r.heap id)

theorem drop (hr : Inv r) {id : Nat} (hid : id ∈ r.heap.handles) : Inv (r.drop id) :=
  hr.congr (hr.counted.drop hid) rfl (fun _ => rfl) (fun _ => rfl)

/-- The driver unmakes what is alive and what nothing alive rests on; only a lost queue pair can be
in the way. -/
theorem step_unmake (hr : Inv r) {d : Driver} (hd : r.Mirrors d) {call : DriverCall} {id : Nat}
    (hcall : call.effect = .unmake id) (hid : .destroy id ∈ r.heap.glue) :
    d.step call = if ∃ qp ∈ r.leaked, id ∈ qp.2 then none
      else some (d.filter (fun x => x.1 ≠ id)) := by
  obtain ⟨halive, hzero⟩ := hr.counted.doomed_spec hid
  have hfree (x : Nat × List Nat) (hx : x ∈ d) (hin : id ∈ x.2) : x ∈ r.leaked := by
    rcases (hd x).mp hx with ⟨howner, hfields⟩ | hlost
    · rw [← hfields] at hin
      have hpos := hr.counted.strong_pos (Heap.Counted.mem_of_field howner hin)
      omega
    · exact hlost
  unfold Driver.step
  rw [hcall]
  by_cases hlost : ∃ qp ∈ r.leaked, id ∈ qp.2
  · obtain ⟨qp, hqp, hin⟩ := hlost
    rw [if_pos ⟨qp, hqp, hin⟩]
    exact if_neg (fun hboth => hboth.2 qp ((hd qp).mpr (Or.inr hqp)) hin)
  · rw [if_neg hlost]
    exact if_pos ⟨mem_of_mirrors hd halive, fun x hx hin => hlost ⟨x, hfree x hx hin, hin⟩⟩

theorem destroy (hr : Inv r) {k id : Nat} {heap : Heap ObjectKind}
    (hglue : r.heap.glue[k]? = some (.destroy id)) (hrun : r.heap.run k = some heap)
    {call : DriverCall} (hcall : call.effect = .unmake id) :
    Inv { r with heap := heap, calls := r.calls ++ [call] } := by
  have hmem := List.mem_of_getElem? hglue
  obtain ⟨halive, _⟩ := hr.counted.doomed_spec hmem
  have hlength := Heap.length_run hrun
  have hfields := Heap.fields_run hrun
  have hkept (j : Nat) : heap.alive j = (r.heap.alive j && decide (j ≠ id)) := by
    rw [Heap.alive_run hrun, hglue]
    simp [bne, beq_eq_decide, eq_comm]
  have hunmade : (r.calls ++ [call]).filterMap DriverCall.unmade = r.unmade ++ [id] := by
    rw [List.filterMap_append]
    simp [DriverCall.unmade, hcall, Resources.unmade]
  have hlost (qp : Nat × List Nat) (hqp : qp ∈ r.leaked) : qp.1 ≠ id := by
    rintro rfl
    rw [(hr.lost qp hqp).2] at halive
    cases halive
  have hnew : Resources.unmade { r with heap := heap, calls := r.calls ++ [call] } =
      r.unmade ++ [id] := hunmade
  have hcut : Undercut { r with heap := heap, calls := r.calls ++ [call] } ↔
      r.Undercut ∨ ∃ qp ∈ r.leaked, id ∈ qp.2 := by
    unfold Undercut
    rw [hnew]
    constructor
    · rintro ⟨qp, hqp, parent, hin, hdone⟩
      rcases List.mem_append.mp hdone with hdone | hdone
      · exact Or.inl ⟨qp, hqp, parent, hin, hdone⟩
      · obtain rfl := List.mem_singleton.mp hdone
        exact Or.inr ⟨qp, hqp, hin⟩
    · rintro (⟨qp, hqp, parent, hin, hdone⟩ | ⟨qp, hqp, hin⟩)
      · exact ⟨qp, hqp, parent, hin, List.mem_append_left _ hdone⟩
      · exact ⟨qp, hqp, id, hin, List.mem_append_right _ (List.mem_singleton_self id)⟩
  refine ⟨hr.counted.run hrun, ?_, ?_, ?_, ?_, ?_⟩
  · intro qp hqp
    rw [hlength, hkept, (hr.lost qp hqp).2, Bool.false_and]
    exact ⟨(hr.lost qp hqp).1, rfl⟩
  · intro qp hqp parent hin
    rw [hlength]
    exact hr.parents qp hqp parent hin
  · intro j
    rw [hnew, List.count_append, hr.unmade, hlength, hkept, List.count_singleton]
    by_cases hj : id = j
    · subst hj
      have hlt := Heap.Counted.lt_length_of_alive halive
      have hnot : id ∉ r.leaked.map Prod.fst := by
        intro hmem
        obtain ⟨qp, hqp, heq⟩ := List.mem_map.mp hmem
        exact hlost qp hqp heq
      rw [halive, if_neg (fun hall => Bool.noConfusion hall.2.1), if_pos (beq_self_eq_true id),
        if_pos ⟨hlt, by simp, hnot⟩]
    · have hne : j ≠ id := fun heq => hj heq.symm
      have hother : (if (id == j) = true then 1 else 0) = 0 := if_neg (by simpa using hj)
      rw [hother, Nat.add_zero, decide_eq_true hne, Bool.and_true]
  · intro c hc j ps heffect
    rw [hlength]
    rcases List.mem_append.mp hc with hc | hc
    · exact hr.made c hc j ps heffect
    · obtain rfl := List.mem_singleton.mp hc
      rw [hcall] at heffect
      cases heffect
  · rw [run_rules_snoc, hcut]
    rcases hr.rules with ⟨d, hd, hmirror, hclear⟩ | ⟨hnone, hundercut⟩
    · rw [hd, Option.bind_some, hr.step_unmake hmirror hcall hmem]
      by_cases hin : ∃ qp ∈ r.leaked, id ∈ qp.2
      · rw [if_pos hin]
        exact Or.inr ⟨rfl, Or.inr hin⟩
      · rw [if_neg hin]
        refine Or.inl ⟨_, rfl, ?_, fun hor => hor.elim hclear hin⟩
        intro x
        rw [List.mem_filter, hmirror x, hkept, hfields]
        have hleaked : x ∈ r.leaked → x.1 ≠ id := hlost x
        simp only [decide_not, Bool.not_eq_true', decide_eq_false_iff_not, Bool.and_eq_true]
        tauto
    · rw [hnone]
      exact Or.inr ⟨rfl, Or.inl hundercut⟩

theorem run (hr : Inv r) {k : Nat} {r' : Resources} (hrun : r.run k = some r') : Inv r' := by
  obtain ⟨heap, hheap, heq⟩ := Option.map_eq_some_iff.mp hrun
  have halive := Heap.alive_run hheap
  split at heq
  · rename_i id hglue
    obtain ⟨hid, _⟩ := hr.counted.doomed_spec (List.mem_of_getElem? hglue)
    obtain ⟨c, hcell, _⟩ := Heap.Counted.exists_cell hid
    have hkind : r.kind id = some c.value := by rw [kind, hcell, Option.map_some]
    rw [hkind] at heq
    rw [← heq]
    exact hr.destroy hglue hheap (c.value.effect_unmake id)
  · rename_i hother
    rw [← heq]
    apply hr.congr (hr.counted.run hheap) (Heap.length_run hheap) ?_ (Heap.fields_run hheap)
    intro j
    have hne : r.heap.glue[k]? ≠ some (.destroy j) := hother j
    rw [halive, bne_iff_ne.mpr hne, Bool.and_true]

theorem mem_of_borrow (hr : Inv r) {kind : ObjectKind} {p : Location} {id : Nat}
    (hp : r.borrow kind p = some id) : id ∈ r.heap.references := by
  unfold Resources.borrow at hp
  exact hr.counted.mem_of_borrow (Option.filter_eq_some_iff.mp hp).1

theorem from_device (hr : Inv r) (errno : Option Nat) (port : PortAnswer) :
    Inv (Context.from_device r errno port).2 := by
  unfold Context.from_device
  cases errno with
  | some errno => exact hr
  | none =>
    have hmade : Inv (r.make .Context .ibv_open_device []) :=
      hr.make .Context (fun _ => rfl) (fun _ hfield => by cases hfield)
    dsimp only
    split
    · apply hmade.drop
      rw [Resources.make, Heap.handles_create]
      exact List.mem_append_right _ (List.mem_singleton_self _)
    · exact hmade

theorem allocate (hr : Inv r) {context : Nat} (hcontext : context ∈ r.heap.references)
    (errno : Option Nat) : Inv (ProtectionDomain.allocate r context errno).2 := by
  unfold ProtectionDomain.allocate
  cases errno with
  | some errno => exact hr
  | none =>
    have hmade : Inv (r.make .ProtectionDomain (.ibv_alloc_pd · context) [context]) :=
      hr.make _ (fun _ => rfl) (by simpa using hcontext)
    exact hmade

theorem create_cq (hr : Inv r) {context : Nat} (hcontext : context ∈ r.heap.references)
    (min_capacity : UInt32) (errno : Option Nat) :
    Inv (CompletionQueue.create r context min_capacity errno).2 := by
  unfold CompletionQueue.create
  split_ifs
  · exact hr
  · cases errno with
    | some errno => exact hr
    | none =>
      have hmade : Inv (r.make .CompletionQueue (.ibv_create_cq · context) [context]) :=
        hr.make _ (fun _ => rfl) (by simpa using hcontext)
      exact hmade

theorem build_qp (hr : Inv r) {pd send_cq recv_cq : Nat} (hpd : pd ∈ r.heap.references)
    (hsend : send_cq ∈ r.heap.references) (hrecv : recv_cq ∈ r.heap.references)
    (errno : Option Nat) (port : PortAnswer) :
    Inv (QueuePair.builder r pd send_cq recv_cq errno port).2 := by
  have hparents : ∀ parent ∈ [pd, send_cq, recv_cq], parent ∈ r.heap.references := by
    simp [hpd, hsend, hrecv]
  unfold QueuePair.builder
  cases errno with
  | some errno => exact hr
  | none =>
    have hlost : Inv (r.leak .QueuePair (.ibv_create_qp · pd send_cq recv_cq)
        [pd, send_cq, recv_cq]) := hr.leak _ (fun _ => rfl) hparents
    have hmade : Inv (r.make .QueuePair (.ibv_create_qp · pd send_cq recv_cq)
        [pd, send_cq, recv_cq]) := hr.make _ (fun _ => rfl) hparents
    dsimp only
    split
    · exact hlost
    · exact hmade

theorem register_mr (hr : Inv r) {pd : Nat} (hpd : pd ∈ r.heap.references) (errno : Option Nat) :
    Inv (MemoryRegion.register_mr_with_access r pd errno).2 := by
  unfold MemoryRegion.register_mr_with_access
  cases errno with
  | some errno => exact hr
  | none =>
    have hmade : Inv (r.make .MemoryRegion (.ibv_reg_mr · pd) [pd]) :=
      hr.make _ (fun _ => rfl) (by simpa using hpd)
    exact hmade

theorem step (hr : Inv r) {ev : ResourceEvent} {r' : Resources} (hs : r.step ev = some r') :
    Inv r' := by
  cases ev with
  | from_device errno port =>
    obtain rfl := Option.some.inj hs
    exact hr.from_device errno port
  | allocate context errno =>
    obtain ⟨context, hcontext, rfl⟩ := Option.map_eq_some_iff.mp hs
    exact hr.allocate (hr.mem_of_borrow hcontext) errno
  | create_cq context min_capacity errno =>
    obtain ⟨context, hcontext, rfl⟩ := Option.map_eq_some_iff.mp hs
    exact hr.create_cq (hr.mem_of_borrow hcontext) min_capacity errno
  | build_qp pd send_cq recv_cq errno port =>
    obtain ⟨pd, hpd, hs⟩ := Option.bind_eq_some_iff.mp hs
    obtain ⟨send_cq, hsend, hs⟩ := Option.bind_eq_some_iff.mp hs
    obtain ⟨recv_cq, hrecv, hs⟩ := Option.bind_eq_some_iff.mp hs
    obtain rfl := Option.some.inj hs
    exact hr.build_qp (hr.mem_of_borrow hpd) (hr.mem_of_borrow hsend) (hr.mem_of_borrow hrecv)
      errno port
  | register_mr pd errno =>
    obtain ⟨pd, hpd, rfl⟩ := Option.map_eq_some_iff.mp hs
    exact hr.register_mr (hr.mem_of_borrow hpd) errno
  | clone kind p =>
    cases kind with
    | Context | ProtectionDomain | CompletionQueue =>
      obtain ⟨id, hid, rfl⟩ := Option.map_eq_some_iff.mp hs
      exact hr.clone (hr.mem_of_borrow hid)
    | QueuePair | MemoryRegion => cases hs
  | drop id =>
    simp only [Resources.step] at hs
    split_ifs at hs with hid
    obtain rfl := Option.some.inj hs
    exact hr.drop hid
  | run k => exact hr.run hs

theorem run_system {es : List ResourceEvent} (hrun : system.run es = some r) : Inv r :=
  system.invariant Inv.empty (fun _ _ _ hr hs => hr.step hs) hrun

end Inv

/-- Only an interrupted `QueuePair::builder` loses something. -/
theorem leaked_step {r r' : Resources} {ev : ResourceEvent} (hs : r.step ev = some r') :
    r'.leaked.length = r.leaked.length + if ev.leaks then 1 else 0 := by
  cases ev with
  | from_device errno port =>
    obtain rfl := Option.some.inj hs
    unfold Context.from_device
    cases errno with
    | some errno => rfl
    | none =>
      dsimp only
      split <;> rfl
  | allocate context errno =>
    obtain ⟨context, _, rfl⟩ := Option.map_eq_some_iff.mp hs
    cases errno <;> rfl
  | create_cq context min_capacity errno =>
    obtain ⟨context, _, rfl⟩ := Option.map_eq_some_iff.mp hs
    unfold CompletionQueue.create
    by_cases hmin : 2147483647 < min_capacity.toNat
    · rw [if_pos hmin]
      rfl
    · rw [if_neg hmin]
      cases errno <;> rfl
  | build_qp pd send_cq recv_cq errno port =>
    obtain ⟨pd, _, hs⟩ := Option.bind_eq_some_iff.mp hs
    obtain ⟨send_cq, _, hs⟩ := Option.bind_eq_some_iff.mp hs
    obtain ⟨recv_cq, _, hs⟩ := Option.bind_eq_some_iff.mp hs
    obtain rfl := Option.some.inj hs
    unfold QueuePair.builder
    cases errno with
    | some errno => rfl
    | none =>
      cases hport : query_port port with
      | error e => simp [ResourceEvent.leaks, hport, Except.toOption, leak]
      | ok lid => simp [ResourceEvent.leaks, hport, Except.toOption, make]
  | register_mr pd errno =>
    obtain ⟨pd, _, rfl⟩ := Option.map_eq_some_iff.mp hs
    cases errno <;> rfl
  | clone kind p =>
    cases kind with
    | Context | ProtectionDomain | CompletionQueue =>
      obtain ⟨id, _, rfl⟩ := Option.map_eq_some_iff.mp hs
      rfl
    | QueuePair | MemoryRegion => cases hs
  | drop id =>
    simp only [step] at hs
    split_ifs at hs
    obtain rfl := Option.some.inj hs
    rfl
  | run k =>
    obtain ⟨heap, _, heq⟩ := Option.map_eq_some_iff.mp hs
    rw [← heq]
    split <;> rfl

theorem Inv.alive_of_borrow {r : Resources} (hr : Inv r) {p : Location} {id : Nat}
    (hp : r.heap.borrow p = some id) : r.heap.alive id = true :=
  hr.counted.alive_of_mem (hr.counted.mem_of_borrow hp)

theorem Inv.not_unmade {r : Resources} (hr : Inv r) {id : Nat} (hid : r.heap.alive id = true) :
    id ∉ r.unmade := by
  rw [← List.count_eq_zero, hr.unmade, if_neg]
  rintro ⟨_, hdead, _⟩
  rw [hid] at hdead
  cases hdead

/-- Whatever the threads do and in whatever order their drops run: a handle always leads to an
object of the driver's that exists, no object is unmade twice, and the driver is called by its
rules except over the parents of a queue pair that an interrupted build has lost. Without such a
build nothing outlives the last handle. -/
theorem driver_rules_hold {es : List ResourceEvent} {r : Resources}
    (hrun : system.run es = some r) :
    (∀ p id, r.heap.borrow p = some id → r.heap.alive id = true ∧ id ∉ r.unmade) ∧
    r.unmade.Nodup ∧
    ((Driver.rules.run r.calls).isSome ↔
      ∀ qp ∈ r.leaked, ∀ parent ∈ qp.2, parent ∉ r.unmade) ∧
    r.leaked.length = es.countP ResourceEvent.leaks ∧
    (r.heap.handles = [] → r.heap.glue = [] → ∀ call ∈ r.calls, ∀ id parents,
      call.effect = .make id parents → id ∈ r.unmade ∨ (id, parents) ∈ r.leaked) := by
  have hr := Inv.run_system hrun
  refine ⟨?_, ?_, ?_, ?_, ?_⟩
  · intro p id hp
    have halive := hr.alive_of_borrow hp
    exact ⟨halive, hr.not_unmade halive⟩
  · rw [List.nodup_iff_count_le_one]
    intro id
    rw [hr.unmade]
    split_ifs
    · exact Nat.le_refl 1
    · exact Nat.zero_le 1
  · rcases hr.rules with ⟨d, hd, _, hclear⟩ | ⟨hnone, qp, hqp, parent, hin, hdone⟩
    · rw [hd]
      refine ⟨fun _ qp hqp parent hin hdone => hclear ⟨qp, hqp, parent, hin, hdone⟩, fun _ => rfl⟩
    · rw [hnone]
      refine ⟨fun hsome => Bool.noConfusion hsome, fun hall => ?_⟩
      exact absurd hdone (hall qp hqp parent hin)
  · have hcount := system.runFrom_countP (f := fun r => r.leaked.length)
      (p := ResourceEvent.leaks) (fun _ _ _ hs => leaked_step hs) hrun
    rw [hcount]
    exact Nat.zero_add _
  · intro hhandles hglue call hcall id parents heffect
    obtain ⟨hlt, hlost⟩ := hr.made call hcall id parents heffect
    by_cases hid : id ∈ r.leaked.map Prod.fst
    · exact Or.inr (hlost hid)
    · have hdead : r.heap.alive id = false := by
        by_contra halive
        obtain ⟨p, hp⟩ := hr.counted.exists_borrow hglue (by simpa using halive)
        unfold Heap.borrow at hp
        rw [hhandles, if_neg List.not_mem_nil] at hp
        cases hp
      left
      rw [← List.count_pos_iff, hr.unmade, if_pos ⟨hlt, hdead, hid⟩]
      exact Nat.one_pos

/-- A build whose port is down loses the queue pair; the domain is then unmade under it. -/
theorem driver_rules_hold_lost : ∃ r,
    system.run [.from_device none ⟨0, 4, 1⟩, .allocate ⟨0, []⟩ none, .create_cq ⟨1, [0]⟩ 32 none,
      .build_qp ⟨1, []⟩ ⟨2, []⟩ ⟨2, []⟩ none ⟨0, 1, 1⟩, .drop 1, .run 0, .run 0] = some r ∧
    r.leaked = [(3, [1, 2, 2])] ∧ (Driver.rules.run r.calls).isSome = false := by
  obtain ⟨r, hrun, hleaked, hunmade⟩ : ∃ r,
      system.run [.from_device none ⟨0, 4, 1⟩, .allocate ⟨0, []⟩ none,
        .create_cq ⟨1, [0]⟩ 32 none, .build_qp ⟨1, []⟩ ⟨2, []⟩ ⟨2, []⟩ none ⟨0, 1, 1⟩,
        .drop 1, .run 0, .run 0] = some r ∧
      r.leaked = [(3, [1, 2, 2])] ∧ r.unmade = [1] := ⟨_, rfl, rfl, rfl⟩
  refine ⟨r, hrun, hleaked, ?_⟩
  obtain ⟨_, _, hrules, _⟩ := driver_rules_hold hrun
  rw [Bool.eq_false_iff]
  intro hsome
  exact hrules.mp hsome (3, [1, 2, 2]) (by simp [hleaked]) 1 (by simp) (by simp [hunmade])

theorem glue_run {r r' : Resources} {k : Nat} (hs : r.step (.run k) = some r') :
    r.heap.run k = some r'.heap := by
  obtain ⟨heap, hheap, heq⟩ := Option.map_eq_some_iff.mp hs
  rw [hheap, ← heq]
  split <;> rfl

end Resources

end IbverbsRs.Ibverbs
