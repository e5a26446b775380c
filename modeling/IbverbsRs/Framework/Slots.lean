import IbverbsRs.Framework.Lists
import Mathlib.Data.List.Nodup
import Mathlib.Data.List.Perm.Subperm

namespace IbverbsRs.Framework

variable {α : Type}

/-- An array of `n` slots that holds exactly the listed entries, each in the slot it claims. -/
structure Filled (n : Nat) (tmp : List (Option α)) (entries : List (Nat × α)) : Prop where
  length : tmp.length = n
  nodup : (entries.map Prod.fst).Nodup
  slots : ∀ k v, tmp[k]? = some (some v) ↔ (k, v) ∈ entries

namespace Filled

variable {n k : Nat} {v : α} {tmp : List (Option α)} {entries : List (Nat × α)}

theorem empty (n : Nat) : Filled n (List.replicate n (none : Option α)) [] := by
  refine ⟨List.length_replicate, List.nodup_nil, ?_⟩
  intro k v
  simp [List.getElem?_replicate]

theorem claimed (h : Filled n tmp entries) {in_slot : Option α} (hslot : tmp[k]? = some in_slot) :
    in_slot.isSome ↔ k ∈ entries.map Prod.fst := by
  rw [List.mem_map]
  constructor
  · intro hsome
    obtain ⟨v, rfl⟩ := Option.isSome_iff_exists.mp hsome
    exact ⟨(k, v), (h.slots k v).mp hslot, rfl⟩
  · intro hmem
    obtain ⟨⟨k', v⟩, hmem, rfl⟩ := hmem
    have hv := (h.slots k' v).mpr hmem
    rw [hslot] at hv
    rw [Option.some.inj hv]
    rfl

theorem lt (h : Filled n tmp entries) (hk : k ∈ entries.map Prod.fst) : k < n := by
  obtain ⟨⟨k', v⟩, hmem, rfl⟩ := List.mem_map.mp hk
  rw [← h.length]
  exact (List.getElem?_eq_some_iff.mp ((h.slots k' v).mpr hmem)).1

/-- An empty slot takes one entry. -/
theorem place (h : Filled n tmp entries) (hslot : tmp[k]? = some none) (v : α) :
    Filled n (tmp.set k (some v)) (entries ++ [(k, v)]) := by
  have hfree : k ∉ entries.map Prod.fst := fun hk => by simpa using (h.claimed hslot).mpr hk
  refine ⟨by rw [List.length_set, h.length], ?_, ?_⟩
  · rw [List.map_append]
    apply h.nodup.append (List.nodup_singleton _)
    intro k' hk' hk
    obtain rfl := List.mem_singleton.mp hk
    exact hfree hk'
  · intro k' v'
    rw [List.mem_append, List.mem_singleton, Prod.mk.injEq]
    by_cases hk : k = k'
    · subst hk
      have hlt := (List.getElem?_eq_some_iff.mp hslot).1
      have hold : (k, v') ∉ entries := fun hmem => hfree (List.mem_map_of_mem hmem)
      rw [List.getElem?_set_self hlt, Option.some.injEq, Option.some.injEq]
      constructor
      · intro heq
        exact Or.inr ⟨rfl, heq.symm⟩
      · intro hmem
        exact (hmem.resolve_left hold).2.symm
    · rw [List.getElem?_set_ne hk, h.slots k' v']
      constructor
      · exact Or.inl
      · intro hmem
        exact hmem.resolve_right (fun heq => hk heq.1.symm)

/-- The entries determine the slots. -/
theorem unique {tmp' : List (Option α)} (h : Filled n tmp entries) (h' : Filled n tmp' entries) :
    tmp = tmp' := by
  apply List.ext_getElem (h.length.trans h'.length.symm)
  intro k hk hk'
  have hslot := List.getElem?_eq_getElem hk
  have hslot' := List.getElem?_eq_getElem hk'
  have hsame : tmp[k].isSome ↔ tmp'[k].isSome := (h.claimed hslot).trans (h'.claimed hslot').symm
  cases hv : tmp[k] with
  | none =>
    rw [hv] at hsame
    exact (Option.not_isSome_iff_eq_none.mp (fun hs => by simpa using hsame.mpr hs)).symm
  | some v =>
    rw [hv] at hslot
    have hmem := (h'.slots k v).mpr ((h.slots k v).mp hslot)
    rw [hslot'] at hmem
    exact (Option.some.inj hmem).symm

theorem perm {entries' : List (Nat × α)} (h : Filled n tmp entries) (hp : entries.Perm entries') :
    Filled n tmp entries' := by
  refine ⟨h.length, (hp.map Prod.fst).nodup_iff.mp h.nodup, ?_⟩
  intro k v
  rw [h.slots k v]
  exact hp.mem_iff

/-- No slot is empty exactly when the claimed keys are all keys, in some order. -/
theorem full_iff (h : Filled n tmp entries) :
    (∃ vs : List α, tmp = vs.map some) ↔ (entries.map Prod.fst).Perm (List.range n) := by
  have hmem (k : Nat) : k ∈ entries.map Prod.fst → k ∈ List.range n :=
    fun hk => List.mem_range.mpr (h.lt hk)
  constructor
  · intro hfull
    obtain ⟨vs, hvs⟩ := hfull
    rw [List.perm_ext_iff_of_nodup h.nodup List.nodup_range]
    intro k
    refine ⟨hmem k, ?_⟩
    intro hk
    have hlt : k < vs.length := by
      rw [← List.length_map (f := some), ← hvs, h.length]
      exact List.mem_range.mp hk
    have hslot : tmp[k]? = some (some vs[k]) := by
      rw [hvs, List.getElem?_map, List.getElem?_eq_getElem hlt]
      rfl
    exact (h.claimed hslot).mp rfl
  · intro hperm
    have hsome : ∀ o ∈ tmp, o.isSome := by
      intro o ho
      obtain ⟨k, hk⟩ := List.mem_iff_getElem?.mp ho
      have hlt := (List.getElem?_eq_some_iff.mp hk).1
      rw [h.claimed hk]
      apply hperm.mem_iff.mpr
      rwa [List.mem_range, ← h.length]
    refine ⟨tmp.filterMap id, ?_⟩
    clear h hmem hperm
    induction tmp with
    | nil => rfl
    | cons o tmp ih =>
      obtain ⟨v, rfl⟩ := Option.isSome_iff_exists.mp (hsome o List.mem_cons_self)
      have hrest := ih (fun o ho => hsome o (List.mem_cons_of_mem _ ho))
      rw [List.filterMap_cons, id, List.map_cons, ← hrest]

end Filled

end IbverbsRs.Framework
