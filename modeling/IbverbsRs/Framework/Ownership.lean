import IbverbsRs.Framework.Lists
import IbverbsRs.Framework.TransitionSystem
import Mathlib.Data.List.Count
import Mathlib.Data.List.Perm.Basic

namespace IbverbsRs.Framework

/-- A shared object: the handles among its fields, how many handles to it there are, and whether
its destructor has yet to run. -/
structure Cell (α : Type) where
  value : α
  fields : List Nat
  strong : Nat
  alive : Bool
  deriving DecidableEq, Repr

/-- The handles it keeps; its destructor passes them on to the drop glue. -/
def Cell.held {α : Type} (c : Cell α) : List Nat := if c.alive then c.fields else []

/-- Drop glue still to be run: a handle to give up, or a destructor to call. -/
inductive Glue
  | release (id : Nat)
  | destroy (id : Nat)
  deriving DecidableEq, Repr

def Glue.released : Glue → Option Nat
  | .release id => some id
  | .destroy _ => none

/-- A handle in hand, and the fields through which a borrow goes on from it. -/
structure Location where
  root : Nat
  path : List Nat
  deriving DecidableEq, Repr

/-- Objects are named by their position. The threads of the program hold `handles`, and have `glue`
left to run. -/
structure Heap (α : Type) where
  cells : List (Cell α)
  handles : List Nat
  glue : List Glue
  deriving DecidableEq, Repr

namespace Heap

variable {α : Type}

def empty : Heap α := ⟨[], [], []⟩

def strong (h : Heap α) (id : Nat) : Nat := ((h.cells[id]?).map Cell.strong).getD 0

def alive (h : Heap α) (id : Nat) : Bool := ((h.cells[id]?).map Cell.alive).getD false

def fields (h : Heap α) (id : Nat) : List Nat := ((h.cells[id]?).map Cell.fields).getD []

/-- Every handle there is. -/
def references (h : Heap α) : List Nat :=
  h.handles ++ (h.glue.filterMap Glue.released ++ h.cells.flatMap Cell.held)

def retain (h : Heap α) (id : Nat) : Heap α :=
  { h with cells := h.cells.modify id (fun c => { c with strong := c.strong + 1 }) }

/-- A new object that keeps clones of the given handles. -/
def create (h : Heap α) (value : α) (fields : List Nat) : Heap α :=
  let rest := fields.foldl retain h
  { rest with
    cells := rest.cells ++ [⟨value, fields, 1, true⟩]
    handles := rest.handles ++ [rest.cells.length] }

/-- A name that no object answers to. -/
def reserve (h : Heap α) (value : α) : Heap α :=
  { h with cells := h.cells ++ [⟨value, [], 0, false⟩] }

def resolve (h : Heap α) (id : Nat) : List Nat → Option Nat
  | [] => some id
  | field :: path => (h.fields id)[field]?.bind (fun next => h.resolve next path)

/-- The object that a borrow leads to. -/
def borrow (h : Heap α) (p : Location) : Option Nat :=
  if p.root ∈ h.handles then h.resolve p.root p.path else none

def clone (h : Heap α) (id : Nat) : Heap α :=
  { h.retain id with handles := h.handles ++ [id] }

/-- A thread starts to drop one of its handles. -/
def drop (h : Heap α) (id : Nat) : Heap α :=
  { h with handles := h.handles.erase id, glue := h.glue ++ [.release id] }

/-- A handle is given up: the last one has the destructor called. -/
def release (h : Heap α) (id : Nat) : Heap α :=
  { h with
    cells := h.cells.modify id (fun c => { c with strong := c.strong - 1 })
    glue := if h.strong id = 1 then h.glue ++ [.destroy id] else h.glue }

/-- A destructor runs; the fields are dropped after it. -/
def destroy (h : Heap α) (id : Nat) : Heap α :=
  { h with
    cells := h.cells.modify id (fun c => { c with alive := false })
    glue := h.glue ++ (h.fields id).map .release }

/-- Some thread runs the `k`-th piece of glue. -/
def run (h : Heap α) (k : Nat) : Option (Heap α) :=
  let rest := { h with glue := h.glue.eraseIdx k }
  match h.glue[k]? with
  | none => none
  | some (.release id) => some (rest.release id)
  | some (.destroy id) => some (rest.destroy id)

section Fields

variable (h : Heap α) (id j : Nat)

/-- Reading the `j`-th cell after the `id`-th was changed. -/
private theorem read_modify {β : Type} (f : Cell α → β) (d : β) (g : Cell α → Cell α)
    (cells : List (Cell α)) : (((cells.modify id g)[j]?).map f).getD d =
      if id = j then ((cells[j]?).map (fun c => f (g c))).getD d
      else ((cells[j]?).map f).getD d := by
  rw [List.getElem?_modify]
  by_cases hid : id = j <;> cases cells[j]? <;> simp [hid]

private theorem read_snoc {β : Type} (f : Cell α → β) (d : β) (c : Cell α)
    (cells : List (Cell α)) : (((cells ++ [c])[j]?).map f).getD d =
      if j = cells.length then f c else ((cells[j]?).map f).getD d := by
  by_cases hj : j < cells.length
  · rw [List.getElem?_append_left hj, if_neg (Nat.ne_of_lt hj)]
  · by_cases heq : j = cells.length
    · simp [heq]
    · rw [if_neg heq, List.getElem?_eq_none (by simp; omega),
        List.getElem?_eq_none (Nat.le_of_not_lt hj)]

@[simp] theorem length_retain : (h.retain id).cells.length = h.cells.length :=
  List.length_modify ..

@[simp] theorem strong_retain (hid : id < h.cells.length) :
    (h.retain id).strong j = h.strong j + if id = j then 1 else 0 := by
  unfold retain strong
  rw [read_modify]
  by_cases hj : id = j
  · subst hj
    simp [List.getElem?_eq_getElem hid]
  · simp [hj]

@[simp] theorem alive_retain : (h.retain id).alive j = h.alive j := by
  unfold retain alive
  rw [read_modify, ite_self]

@[simp] theorem fields_retain : (h.retain id).fields j = h.fields j := by
  unfold retain fields
  rw [read_modify, ite_self]

@[simp] theorem held_retain :
    (h.retain id).cells.flatMap Cell.held = h.cells.flatMap Cell.held := by
  have hheld (c : Cell α) : Cell.held { c with strong := c.strong + 1 } = c.held := rfl
  exact congrArg List.flatten (map_modify_eq hheld h.cells id)

@[simp] theorem strong_release : (h.release id).strong j =
    h.strong j - if id = j then 1 else 0 := by
  unfold release strong
  rw [read_modify]
  by_cases hj : id = j
  · cases h.cells[j]? <;> simp [hj]
  · simp [hj]

@[simp] theorem alive_release : (h.release id).alive j = h.alive j := by
  unfold release alive
  rw [read_modify, ite_self]

@[simp] theorem fields_release : (h.release id).fields j = h.fields j := by
  unfold release fields
  rw [read_modify, ite_self]

@[simp] theorem held_release :
    (h.release id).cells.flatMap Cell.held = h.cells.flatMap Cell.held := by
  have hheld (c : Cell α) : Cell.held { c with strong := c.strong - 1 } = c.held := rfl
  exact congrArg List.flatten (map_modify_eq hheld h.cells id)

@[simp] theorem strong_destroy : (h.destroy id).strong j = h.strong j := by
  unfold destroy strong
  rw [read_modify, ite_self]

@[simp] theorem alive_destroy : (h.destroy id).alive j = (h.alive j && id != j) := by
  unfold destroy alive
  rw [read_modify]
  by_cases hj : id = j
  · cases h.cells[j]? <;> simp [hj]
  · simp [hj]

@[simp] theorem fields_destroy : (h.destroy id).fields j = h.fields j := by
  unfold destroy fields
  rw [read_modify, ite_self]

end Fields

section Retained

variable (h : Heap α) (ids : List Nat) (j : Nat)

@[simp] theorem length_foldl_retain : (ids.foldl retain h).cells.length = h.cells.length := by
  induction ids generalizing h with
  | nil => rfl
  | cons id ids ih => rw [List.foldl_cons, ih, length_retain]

theorem strong_foldl_retain (hids : ∀ id ∈ ids, id < h.cells.length) :
    (ids.foldl retain h).strong j = h.strong j + ids.count j := by
  induction ids generalizing h with
  | nil => rfl
  | cons id ids ih =>
    rw [List.forall_mem_cons] at hids
    rw [List.foldl_cons, ih, strong_retain h id j hids.1, List.count_cons, beq_eq_decide]
    · simp only [decide_eq_true_eq]
      omega
    · simpa using hids.2

@[simp] theorem alive_foldl_retain : (ids.foldl retain h).alive j = h.alive j := by
  induction ids generalizing h with
  | nil => rfl
  | cons id ids ih => rw [List.foldl_cons, ih, alive_retain]

@[simp] theorem fields_foldl_retain : (ids.foldl retain h).fields j = h.fields j := by
  induction ids generalizing h with
  | nil => rfl
  | cons id ids ih => rw [List.foldl_cons, ih, fields_retain]

@[simp] theorem held_foldl_retain :
    (ids.foldl retain h).cells.flatMap Cell.held = h.cells.flatMap Cell.held := by
  induction ids generalizing h with
  | nil => rfl
  | cons id ids ih => rw [List.foldl_cons, ih, held_retain]

@[simp] theorem handles_foldl_retain : (ids.foldl retain h).handles = h.handles := by
  induction ids generalizing h with
  | nil => rfl
  | cons id ids ih => exact ih (h.retain id)

@[simp] theorem glue_foldl_retain : (ids.foldl retain h).glue = h.glue := by
  induction ids generalizing h with
  | nil => rfl
  | cons id ids ih => exact ih (h.retain id)

@[simp] theorem length_create (value : α) :
    (h.create value ids).cells.length = h.cells.length + 1 := by
  simp [create]

theorem alive_create (value : α) : (h.create value ids).alive j =
    if j = h.cells.length then true else h.alive j := by
  rw [create, alive, read_snoc, length_foldl_retain]
  congr 1
  exact alive_foldl_retain h ids j

theorem fields_create (value : α) : (h.create value ids).fields j =
    if j = h.cells.length then ids else h.fields j := by
  rw [create, fields, read_snoc, length_foldl_retain]
  congr 1
  exact fields_foldl_retain h ids j

theorem handles_create (value : α) :
    (h.create value ids).handles = h.handles ++ [h.cells.length] := by
  rw [create, handles_foldl_retain, length_foldl_retain]

/-- Names that are not taken yet. -/
@[simp] theorem strong_length : h.strong h.cells.length = 0 := by
  simp [strong]

@[simp] theorem alive_length : h.alive h.cells.length = false := by
  simp [alive]

@[simp] theorem fields_length : h.fields h.cells.length = [] := by
  simp [fields]

theorem strong_reserve (value : α) : (h.reserve value).strong j = h.strong j := by
  rw [reserve, strong, read_snoc]
  split_ifs with hj
  · rw [hj, strong_length]
  · rfl

theorem alive_reserve (value : α) : (h.reserve value).alive j = h.alive j := by
  rw [reserve, alive, read_snoc]
  split_ifs with hj
  · rw [hj, alive_length]
  · rfl

theorem fields_reserve (value : α) : (h.reserve value).fields j = h.fields j := by
  rw [reserve, fields, read_snoc]
  split_ifs with hj
  · rw [hj, fields_length]
  · rfl

end Retained

section Run

variable {h h' : Heap α} {k : Nat} (hrun : h.run k = some h')

include hrun

theorem length_run : h'.cells.length = h.cells.length := by
  unfold run at hrun
  split at hrun
  · cases hrun
  · obtain rfl := Option.some.inj hrun
    exact List.length_modify ..
  · obtain rfl := Option.some.inj hrun
    exact List.length_modify ..

theorem handles_run : h'.handles = h.handles := by
  unfold run at hrun
  split at hrun
  · cases hrun
  · obtain rfl := Option.some.inj hrun
    rfl
  · obtain rfl := Option.some.inj hrun
    rfl

theorem fields_run (j : Nat) : h'.fields j = h.fields j := by
  unfold run at hrun
  split at hrun
  · cases hrun
  · obtain rfl := Option.some.inj hrun
    exact fields_release _ _ j
  · obtain rfl := Option.some.inj hrun
    exact fields_destroy _ _ j

/-- Only a destructor ends an object. -/
theorem alive_run (j : Nat) :
    h'.alive j = (h.alive j && h.glue[k]? != some (.destroy j)) := by
  unfold run at hrun
  split at hrun
  · cases hrun
  · rename_i id hg
    obtain rfl := Option.some.inj hrun
    rw [alive_release, hg]
    simp [alive]
  · rename_i id hg
    obtain rfl := Option.some.inj hrun
    rw [alive_destroy, hg]
    simp [alive, bne, beq_eq_decide]

end Run

/-- The counts are exact. An object without handles has its destructor called, once; a handle kept
in a field leads to an older object. -/
structure Counted (h : Heap α) : Prop where
  strong : ∀ id, h.strong id = h.references.count id
  doomed : ∀ id, h.glue.count (.destroy id) = if h.alive id ∧ h.strong id = 0 then 1 else 0
  dead : ∀ id, h.alive id = false → h.strong id = 0
  older : ∀ id, ∀ field ∈ h.fields id, field < id

namespace Counted

variable {h : Heap α} {id : Nat}

theorem empty : Counted (Heap.empty : Heap α) where
  strong _ := rfl
  doomed _ := rfl
  dead _ _ := rfl
  older _ := by simp [Heap.fields, Heap.empty]

theorem strong_pos (hc : Counted h) (hid : id ∈ h.references) : 0 < h.strong id := by
  rw [hc.strong]
  exact List.count_pos_iff.mpr hid

theorem lt_length_of_alive (hid : h.alive id = true) : id < h.cells.length := by
  unfold Heap.alive at hid
  cases hcell : h.cells[id]? with
  | none => simp [hcell] at hid
  | some c => exact (List.getElem?_eq_some_iff.mp hcell).1

/-- Whoever has a handle finds the object alive. -/
theorem alive_of_mem (hc : Counted h) (hid : id ∈ h.references) : h.alive id = true := by
  have hpos := hc.strong_pos hid
  by_contra halive
  have hzero := hc.dead id (by simpa using halive)
  omega

theorem lt_length (hc : Counted h) (hid : id ∈ h.references) : id < h.cells.length :=
  lt_length_of_alive (hc.alive_of_mem hid)

theorem exists_cell (halive : h.alive id = true) :
    ∃ c, h.cells[id]? = some c ∧ c.alive = true ∧ h.fields id = c.fields := by
  unfold Heap.alive at halive
  unfold Heap.fields
  cases hcell : h.cells[id]? with
  | none => simp [hcell] at halive
  | some c => exact ⟨c, rfl, by simpa [hcell] using halive, rfl⟩

theorem mem_of_field (halive : h.alive id = true) {field : Nat} (hfield : field ∈ h.fields id) :
    field ∈ h.references := by
  obtain ⟨c, hcell, hcalive, hfields⟩ := exists_cell halive
  rw [hfields] at hfield
  rw [Heap.references, List.mem_append, List.mem_append, List.mem_flatMap]
  refine Or.inr (Or.inr ⟨c, List.mem_of_getElem? hcell, ?_⟩)
  rwa [Cell.held, if_pos hcalive]

theorem mem_of_resolve (hc : Counted h) {path : List Nat} {target : Nat} (hid : id ∈ h.references)
    (h' : h.resolve id path = some target) : target ∈ h.references := by
  induction path generalizing id with
  | nil =>
    obtain rfl := Option.some.inj h'
    exact hid
  | cons field path ih =>
    obtain ⟨next, hnext, hrest⟩ := Option.bind_eq_some_iff.mp h'
    have halive := hc.alive_of_mem hid
    exact ih (mem_of_field halive (List.mem_of_getElem? hnext)) hrest

theorem mem_of_borrow (hc : Counted h) {p : Location} (hp : h.borrow p = some id) :
    id ∈ h.references := by
  unfold Heap.borrow at hp
  split_ifs at hp with hroot
  exact hc.mem_of_resolve (List.mem_append_left _ hroot) hp

theorem create (hc : Counted h) (value : α) {fields : List Nat}
    (hfields : ∀ field ∈ fields, field ∈ h.references) : Counted (h.create value fields) := by
  have hlt : ∀ field ∈ fields, field < h.cells.length := fun f hf => hc.lt_length (hfields f hf)
  have hnew : fields.count h.cells.length = 0 := by
    rw [List.count_eq_zero]
    intro hmem
    exact absurd (hlt _ hmem) (Nat.lt_irrefl _)
  have hstrong (j : Nat) : (h.create value fields).strong j =
      if j = h.cells.length then 1 else h.strong j + fields.count j := by
    rw [Heap.create, Heap.strong, read_snoc, length_foldl_retain]
    congr 1
    exact strong_foldl_retain h fields j hlt
  have hglue : (h.create value fields).glue = h.glue := glue_foldl_retain h fields
  have hrefs (j : Nat) : (h.create value fields).references.count j =
      h.references.count j + fields.count j + if j = h.cells.length then 1 else 0 := by
    simp only [Heap.references, Heap.create, handles_foldl_retain, glue_foldl_retain,
      length_foldl_retain, List.count_append, List.flatMap_append, held_foldl_retain,
      List.flatMap_cons, List.flatMap_nil, Cell.held, if_true, List.append_nil,
      List.count_singleton, beq_iff_eq, eq_comm (a := h.cells.length)]
    omega
  have hcloned (j : Nat) : 0 < fields.count j → h.alive j = true ∧ 0 < h.strong j := by
    intro hj
    have hmem := hfields j (List.count_pos_iff.mp hj)
    exact ⟨hc.alive_of_mem hmem, hc.strong_pos hmem⟩
  refine ⟨?_, ?_, ?_, ?_⟩
  · intro j
    rw [hstrong, hrefs, ← hc.strong]
    split_ifs with hj
    · rw [hj, hnew, strong_length]
    · rfl
  · intro j
    rw [hglue, hc.doomed, hstrong, alive_create]
    by_cases hj : j = h.cells.length
    · simp [hj, alive_length]
    · have hj' := hcloned j
      rw [if_neg hj, if_neg hj]
      congr 2
      rw [eq_iff_iff]
      omega
  · intro j hj
    rw [alive_create] at hj
    split_ifs at hj with heq
    have hdead := hc.dead j hj
    have hj' := hcloned j
    rw [hj] at hj'
    rw [hstrong, if_neg heq]
    by_contra hne
    exact absurd (hj' (by omega)).1 (by decide)
  · intro j field hmem
    rw [fields_create] at hmem
    split_ifs at hmem with heq
    · rw [heq]
      exact hlt field hmem
    · exact hc.older j field hmem

theorem reserve (hc : Counted h) (value : α) : Counted (h.reserve value) := by
  have hrefs : (h.reserve value).references = h.references := by
    simp [Heap.references, Heap.reserve, Cell.held]
  refine ⟨?_, ?_, ?_, ?_⟩
  · intro j
    rw [strong_reserve, hrefs, hc.strong]
  · intro j
    rw [strong_reserve, alive_reserve]
    exact hc.doomed j
  · intro j hj
    rw [strong_reserve]
    exact hc.dead j ((alive_reserve h j value).symm.trans hj)
  · intro j field hmem
    rw [fields_reserve] at hmem
    exact hc.older j field hmem

theorem clone (hc : Counted h) (hid : id ∈ h.references) : Counted (h.clone id) := by
  have hpos := hc.strong_pos hid
  have hstrong (j : Nat) : (h.clone id).strong j = h.strong j + if id = j then 1 else 0 :=
    strong_retain h id j (hc.lt_length hid)
  have halive (j : Nat) : (h.clone id).alive j = h.alive j := alive_retain h id j
  have hfield (j : Nat) : (h.clone id).fields j = h.fields j := fields_retain h id j
  have hrefs (j : Nat) : (h.clone id).references.count j =
      h.references.count j + if id = j then 1 else 0 := by
    simp only [Heap.references, Heap.clone, held_retain, List.count_append,
      List.count_singleton, beq_iff_eq]
    have hglue : (h.retain id).glue = h.glue := rfl
    rw [hglue]
    omega
  refine ⟨?_, ?_, ?_, ?_⟩
  · intro j
    rw [hstrong, hrefs, hc.strong]
  · intro j
    have hglue : (h.clone id).glue = h.glue := rfl
    rw [hglue, hc.doomed, hstrong, halive]
    by_cases hj : id = j
    · subst hj
      rw [if_neg (fun hboth => by omega), if_neg (fun hboth => by omega)]
    · rw [if_neg hj, Nat.add_zero]
  · intro j hj
    rw [halive] at hj
    have hne : id ≠ j := by
      rintro rfl
      rw [hc.alive_of_mem hid] at hj
      cases hj
    rw [hstrong, if_neg hne, hc.dead j hj]
  · intro j field hmem
    exact hc.older j field (hfield j ▸ hmem)

theorem drop (hc : Counted h) (hid : id ∈ h.handles) : Counted (h.drop id) := by
  have hrefs (j : Nat) : (h.drop id).references.count j = h.references.count j := by
    have hpos : 0 < h.handles.count id := List.count_pos_iff.mpr hid
    simp only [Heap.references, Heap.drop, List.count_append, List.filterMap_append,
      List.filterMap_cons, Glue.released, List.filterMap_nil, List.count_erase,
      List.count_singleton, beq_iff_eq]
    split_ifs with hj
    · subst hj
      omega
    · omega
  refine ⟨?_, ?_, hc.dead, hc.older⟩
  · intro j
    rw [hrefs]
    exact hc.strong j
  · intro j
    have hglue : (h.drop id).glue.count (.destroy j) = h.glue.count (.destroy j) := by
      simp [Heap.drop]
    rw [hglue]
    exact hc.doomed j

/-- A destructor is called on an object that is alive and that nobody has a handle to. -/
theorem doomed_spec (hc : Counted h) (hid : .destroy id ∈ h.glue) :
    h.alive id = true ∧ h.strong id = 0 := by
  have hpos : 0 < h.glue.count (.destroy id) := List.count_pos_iff.mpr hid
  rw [hc.doomed] at hpos
  by_contra hnot
  rw [if_neg hnot] at hpos
  exact Nat.lt_irrefl _ hpos

theorem mem_of_release (hid : .release id ∈ h.glue) : id ∈ h.references := by
  rw [Heap.references, List.mem_append, List.mem_append]
  exact Or.inr (Or.inl (List.mem_filterMap.mpr ⟨_, hid, rfl⟩))

private theorem glue_perm {glue : List Glue} {k : Nat} {g : Glue} (hg : glue[k]? = some g) :
    glue.Perm (g :: glue.eraseIdx k) := by
  obtain ⟨hlt, rfl⟩ := List.getElem?_eq_some_iff.mp hg
  exact (List.getElem_cons_eraseIdx_perm hlt).symm

/-- A release takes one handle out of the world. -/
theorem references_release {k : Nat} (hg : h.glue[k]? = some (.release id)) :
    h.references.Perm (id :: ({ h with glue := h.glue.eraseIdx k }.release id).references) := by
  have hglue : ((if h.strong id = 1 then h.glue.eraseIdx k ++ [.destroy id]
      else h.glue.eraseIdx k).filterMap Glue.released) =
        (h.glue.eraseIdx k).filterMap Glue.released := by
    split_ifs
    · simp [Glue.released]
    · rfl
  have hafter : ({ h with glue := h.glue.eraseIdx k }.release id).references =
      h.handles ++ ((h.glue.eraseIdx k).filterMap Glue.released ++
        h.cells.flatMap Cell.held) := by
    rw [← hglue, ← held_release h id]
    rfl
  have hbefore : (h.glue.filterMap Glue.released).Perm
      (id :: (h.glue.eraseIdx k).filterMap Glue.released) :=
    (glue_perm hg).filterMap Glue.released
  rw [hafter, Heap.references]
  exact ((hbefore.append_right _).append_left h.handles).trans List.perm_middle

/-- A destructor passes its handles on. -/
theorem references_destroy (halive : h.alive id = true) {k : Nat}
    (hg : h.glue[k]? = some (.destroy id)) :
    h.references.Perm ({ h with glue := h.glue.eraseIdx k }.destroy id).references := by
  rw [List.perm_iff_count]
  intro j
  obtain ⟨c, hcell, hcalive, hfields⟩ := exists_cell halive
  have hheld := count_flatMap_modify (f := Cell.held)
    (g := fun c => { c with alive := false }) hcell j
  have hbefore : c.held = h.fields id := by rw [Cell.held, if_pos hcalive, hfields]
  have hafter : Cell.held { c with alive := false } = [] := rfl
  have hglue := ((glue_perm hg).filterMap Glue.released).count_eq j
  have hpassed : ((h.fields id).map Glue.release).filterMap Glue.released = h.fields id := by
    rw [List.filterMap_map]
    exact List.filterMap_some
  have hrest : ({ h with glue := h.glue.eraseIdx k }.destroy id).references =
      h.handles ++ ((h.glue.eraseIdx k ++ (h.fields id).map Glue.release).filterMap Glue.released ++
        (h.cells.modify id (fun c => { c with alive := false })).flatMap Cell.held) := rfl
  rw [hbefore, hafter, List.count_nil] at hheld
  rw [hrest, List.filterMap_append, hpassed]
  simp only [Heap.references, List.count_append, List.filterMap_cons, Glue.released] at hglue ⊢
  omega

private theorem run_release (hc : Counted h) {k : Nat} (hg : h.glue[k]? = some (.release id)) :
    Counted ({ h with glue := h.glue.eraseIdx k }.release id) := by
  have hmem := mem_of_release (List.mem_of_getElem? hg)
  have hpos := hc.strong_pos hmem
  have halive := hc.alive_of_mem hmem
  have hstrong (j : Nat) : ({ h with glue := h.glue.eraseIdx k }.release id).strong j =
      h.strong j - if id = j then 1 else 0 := strong_release _ id j
  have hkept (j : Nat) : ({ h with glue := h.glue.eraseIdx k }.release id).alive j = h.alive j :=
    alive_release _ id j
  have hglue : ({ h with glue := h.glue.eraseIdx k }.release id).glue =
      if h.strong id = 1 then h.glue.eraseIdx k ++ [.destroy id] else h.glue.eraseIdx k := rfl
  have hdoomed (j : Nat) : (h.glue.eraseIdx k).count (.destroy j) = h.glue.count (.destroy j) := by
    rw [count_eraseIdx hg]
    simp
  refine ⟨?_, ?_, ?_, ?_⟩
  · intro j
    have hcount := (references_release hg).count_eq j
    rw [List.count_cons, beq_eq_decide] at hcount
    simp only [decide_eq_true_eq] at hcount
    rw [hstrong, hc.strong]
    omega
  · intro j
    rw [hglue, hkept, hstrong]
    have hbefore := hc.doomed j
    by_cases hj : id = j
    · subst hj
      rw [if_neg (fun hboth => by omega)] at hbefore
      by_cases hone : h.strong id = 1
      · simp [hone, halive, hdoomed, hbefore]
      · rw [if_neg hone, if_neg (fun hboth => by simp at hboth; omega), hdoomed, hbefore]
    · have hne : Glue.destroy id ≠ .destroy j := fun heq => hj (Glue.destroy.inj heq)
      rw [if_neg hj, Nat.sub_zero, ← hbefore, ← hdoomed j]
      split_ifs <;> simp [hne]
  · intro j hj
    rw [hstrong, hc.dead j ((hkept j).symm.trans hj), Nat.zero_sub]
  · intro j field hfield
    rw [fields_release] at hfield
    exact hc.older j field hfield

private theorem run_destroy (hc : Counted h) {k : Nat} (hg : h.glue[k]? = some (.destroy id)) :
    Counted ({ h with glue := h.glue.eraseIdx k }.destroy id) := by
  obtain ⟨halive, hzero⟩ := hc.doomed_spec (List.mem_of_getElem? hg)
  have hstrong (j : Nat) :
      ({ h with glue := h.glue.eraseIdx k }.destroy id).strong j = h.strong j :=
    strong_destroy _ id j
  have hkept (j : Nat) : ({ h with glue := h.glue.eraseIdx k }.destroy id).alive j =
      (h.alive j && id != j) := alive_destroy _ id j
  refine ⟨?_, ?_, ?_, ?_⟩
  · intro j
    rw [hstrong, hc.strong, (references_destroy halive hg).count_eq]
  · intro j
    have hbefore := hc.doomed j
    rw [count_eraseIdx hg] at hbefore
    have hglue : ({ h with glue := h.glue.eraseIdx k }.destroy id).glue =
        h.glue.eraseIdx k ++ (h.fields id).map .release := rfl
    have hno : ((h.fields id).map Glue.release).count (.destroy j) = 0 := by
      simp [List.count_eq_zero]
    rw [hglue, List.count_append, hno, hkept, hstrong]
    by_cases hj : id = j
    · subst hj
      rw [if_pos (beq_self_eq_true _), if_pos ⟨halive, hzero⟩] at hbefore
      rw [if_neg (by simp)]
      omega
    · simpa [hj] using hbefore
  · intro j hj
    rw [hkept, Bool.and_eq_false_iff] at hj
    rw [hstrong]
    rcases hj with hj | hj
    · exact hc.dead j hj
    · obtain rfl : id = j := by simpa using hj
      exact hzero
  · intro j field hfield
    rw [fields_destroy] at hfield
    exact hc.older j field hfield

theorem run (hc : Counted h) {k : Nat} {h' : Heap α} (hrun : h.run k = some h') : Counted h' := by
  unfold Heap.run at hrun
  split at hrun
  · cases hrun
  · obtain rfl := Option.some.inj hrun
    exact hc.run_release ‹_›
  · obtain rfl := Option.some.inj hrun
    exact hc.run_destroy ‹_›

end Counted

/-- Bounds the glue that there is to run while no handle is dropped and no object created. -/
def pending (h : Heap α) : Nat :=
  2 * h.references.length + h.glue.countP (fun g => g.released = none)

theorem resolve_snoc (h : Heap α) (id : Nat) (path : List Nat) (field : Nat) :
    h.resolve id (path ++ [field]) =
      (h.resolve id path).bind (fun target => (h.fields target)[field]?) := by
  induction path generalizing id with
  | nil =>
    rw [List.nil_append, resolve, resolve, Option.bind_some]
    cases (h.fields id)[field]? with
    | none => rfl
    | some next => rfl
  | cons first path ih =>
    rw [List.cons_append, resolve, resolve, Option.bind_assoc]
    exact Option.bind_congr (fun next _ => ih next)

/-- Once the glue has run, whatever is alive can still be borrowed: nothing is left over. -/
theorem Counted.exists_borrow {h : Heap α} (hc : Counted h) (hglue : h.glue = []) {id : Nat}
    (hid : h.alive id = true) : ∃ p, h.borrow p = some id := by
  induction hn : h.cells.length - id using Nat.strongRecOn generalizing id with
  | ind n ih =>
    have hdoomed := hc.doomed id
    rw [hglue, List.count_nil] at hdoomed
    have hpos : 0 < h.strong id := by
      by_contra hzero
      rw [if_pos ⟨hid, by omega⟩] at hdoomed
      cases hdoomed
    rw [hc.strong, List.count_pos_iff, references, hglue, List.filterMap_nil, List.nil_append,
      List.mem_append] at hpos
    rcases hpos with hhand | hheld
    · exact ⟨⟨id, []⟩, by rw [borrow, if_pos hhand, resolve]⟩
    · obtain ⟨c, hc', hfield⟩ := List.mem_flatMap.mp hheld
      obtain ⟨owner, howner⟩ := List.mem_iff_getElem?.mp hc'
      have hlt := (List.getElem?_eq_some_iff.mp howner).1
      have hcalive : c.alive = true := by
        by_contra hdead
        rw [Cell.held, if_neg hdead] at hfield
        cases hfield
      rw [Cell.held, if_pos hcalive] at hfield
      have hfields : h.fields owner = c.fields := by rw [fields, howner]; rfl
      have halive : h.alive owner = true := by
        rw [alive, howner]
        exact hcalive
      have holder := hc.older owner id (hfields ▸ hfield)
      obtain ⟨⟨root, path⟩, hborrow⟩ := ih (h.cells.length - owner) (by omega) halive rfl
      obtain ⟨field, hget⟩ := List.mem_iff_getElem?.mp hfield
      refine ⟨⟨root, path ++ [field]⟩, ?_⟩
      unfold borrow at hborrow ⊢
      split_ifs at hborrow with hroot
      rw [if_pos hroot, resolve_snoc, hborrow, Option.bind_some, hfields, hget]

/-- What an object is and which fields it has. -/
def shape (h : Heap α) (id : Nat) : Option (α × List Nat) :=
  (h.cells[id]?).map (fun c => (c.value, c.fields))

/-- Objects are only added, and those there were keep their fields. -/
def Extends (h h' : Heap α) : Prop := ∀ id < h.cells.length, h'.shape id = h.shape id

theorem shape_modify {h : Heap α} {id : Nat} {g : Cell α → Cell α}
    (hg : ∀ c, ((g c).value, (g c).fields) = (c.value, c.fields)) (j : Nat) :
    ((h.cells.modify id g)[j]?).map (fun c => (c.value, c.fields)) = h.shape j := by
  rw [shape, List.getElem?_modify]
  by_cases hid : id = j <;> cases h.cells[j]? <;> simp [hid, hg]

theorem fields_eq (h : Heap α) (id : Nat) : h.fields id = ((h.shape id).map Prod.snd).getD [] := by
  rw [fields, shape, Option.map_map]
  rfl

namespace Extends

variable {h h' h'' : Heap α}

theorem refl (h : Heap α) : Extends h h := fun _ _ => rfl

theorem of_shape (hshape : ∀ j, h'.shape j = h.shape j) : Extends h h' := fun j _ => hshape j

theorem length_le (he : Extends h h') : h.cells.length ≤ h'.cells.length := by
  by_contra hlt
  have hlast := he h'.cells.length (by omega)
  rw [shape, shape, List.getElem?_eq_none (Nat.le_refl _),
    List.getElem?_eq_getElem (Nat.lt_of_not_le hlt)] at hlast
  cases hlast

theorem trans (he : Extends h h') (he' : Extends h' h'') : Extends h h'' := by
  intro id hid
  rw [he' id (Nat.lt_of_lt_of_le hid he.length_le), he id hid]

theorem fields (he : Extends h h') {id : Nat} (hid : id < h.cells.length) :
    h'.fields id = h.fields id := by
  rw [fields_eq, fields_eq, he id hid]

theorem retain (h : Heap α) (id : Nat) : Extends h (h.retain id) :=
  of_shape (shape_modify (fun _ => rfl))

theorem foldl_retain (h : Heap α) (ids : List Nat) : Extends h (ids.foldl Heap.retain h) := by
  induction ids generalizing h with
  | nil => exact refl h
  | cons id ids ih => exact (retain h id).trans (ih (h.retain id))

theorem snoc {c : Cell α} (hcells : h'.cells = h.cells ++ [c]) : Extends h h' := by
  intro id hid
  rw [shape, shape, hcells, List.getElem?_append_left hid]

theorem create (h : Heap α) (value : α) (ids : List Nat) : Extends h (h.create value ids) :=
  (foldl_retain h ids).trans (snoc rfl)

theorem reserve (h : Heap α) (value : α) : Extends h (h.reserve value) := snoc rfl

theorem run {k : Nat} (hrun : h.run k = some h') : Extends h h' := by
  unfold Heap.run at hrun
  split at hrun
  · cases hrun
  · obtain rfl := Option.some.inj hrun
    exact of_shape (shape_modify (fun _ => rfl))
  · obtain rfl := Option.some.inj hrun
    exact of_shape (shape_modify (fun _ => rfl))

/-- A path from an object there was leads where it led. -/
theorem resolve (he : Extends h h') (hc : Counted h) {id : Nat} (hid : id < h.cells.length)
    (path : List Nat) : h'.resolve id path = h.resolve id path := by
  induction path generalizing id with
  | nil => rfl
  | cons field path ih =>
    rw [Heap.resolve, Heap.resolve, he.fields hid]
    refine Option.bind_congr (fun next hnext => ih ?_)
    exact Nat.lt_trans (hc.older id next (List.mem_of_getElem? hnext)) hid

theorem borrow_of_mem (he : Extends h h') (hc : Counted h) {p : Location} {id : Nat}
    (hp : h.borrow p = some id) (hroot : p.root ∈ h'.handles) : h'.borrow p = some id := by
  unfold Heap.borrow at hp ⊢
  split_ifs at hp with hmem
  rw [if_pos hroot, he.resolve hc (hc.lt_length (List.mem_append_left _ hmem)), hp]

/-- With the same handles the same objects can be borrowed. -/
theorem borrow (he : Extends h h') (hc : Counted h) (hperm : h'.handles.Perm h.handles)
    (p : Location) : h'.borrow p = h.borrow p := by
  unfold Heap.borrow
  by_cases hroot : p.root ∈ h.handles
  · rw [if_pos (hperm.mem_iff.mpr hroot), if_pos hroot,
      he.resolve hc (hc.lt_length (List.mem_append_left _ hroot))]
  · rw [if_neg (fun hmem => hroot (hperm.mem_iff.mp hmem)), if_neg hroot]

end Extends

end Heap

end IbverbsRs.Framework
