import Mathlib.Data.List.AList
import Mathlib.Data.List.Induction
import Mathlib.Data.List.Perm.Subperm
import Mathlib.Tactic.Common

namespace IbverbsRs.Framework

variable {κ α : Type} [DecidableEq κ]

/-- The value heard last under a key. -/
def lastFor (heard : List (κ × α)) (k : κ) : Option α := heard.reverse.lookup k

theorem lastFor_nil (k : κ) : lastFor ([] : List (κ × α)) k = none := rfl

theorem lastFor_snoc (heard : List (κ × α)) (e : κ × α) (k : κ) :
    lastFor (heard ++ [e]) k = if k = e.1 then some e.2 else lastFor heard k := by
  rw [lastFor, List.reverse_append, List.reverse_singleton, List.singleton_append, List.lookup_cons]
  by_cases hk : k = e.1
  · rw [if_pos hk, beq_iff_eq.mpr hk]
  · rw [if_neg hk, beq_eq_false_iff_ne.mpr hk]
    rfl

theorem lastFor_isSome_iff {heard : List (κ × α)} {k : κ} :
    (lastFor heard k).isSome ↔ ∃ v, (k, v) ∈ heard := by
  induction heard using List.reverseRecOn with
  | nil => simp [lastFor_nil]
  | append_singleton heard e ih =>
    rw [lastFor_snoc]
    by_cases hk : k = e.1
    · subst hk
      simp only [if_pos, Option.isSome_some, true_iff]
      exact ⟨e.2, List.mem_append_right _ (List.mem_singleton_self _)⟩
    · rw [if_neg hk, ih]
      constructor
      · intro h
        obtain ⟨v, hv⟩ := h
        exact ⟨v, List.mem_append_left _ hv⟩
      · intro h
        obtain ⟨v, hv⟩ := h
        rcases List.mem_append.mp hv with hv | hv
        · exact ⟨v, hv⟩
        · obtain rfl := List.mem_singleton.mp hv
          exact absurd rfl hk

/-- Every wanted key has been heard. -/
def Complete (wanted : List κ) (heard : List (κ × α)) : Prop := ∀ k ∈ wanted, ∃ v, (k, v) ∈ heard

omit [DecidableEq κ] in
theorem Complete.append {wanted : List κ} {heard : List (κ × α)} (h : Complete wanted heard)
    (more : List (κ × α)) : Complete wanted (heard ++ more) := by
  intro k hk
  obtain ⟨v, hv⟩ := h k hk
  exact ⟨v, List.mem_append_left _ hv⟩

theorem complete_iff_isSome {wanted : List κ} {heard : List (κ × α)} :
    Complete wanted heard ↔ ∀ k ∈ wanted, (lastFor heard k).isSome := by
  simp only [Complete, lastFor_isSome_iff]

omit [DecidableEq κ] in
theorem exists_map_some_eq {wanted : List κ} {f : κ → Option α} (h : ∀ k ∈ wanted, (f k).isSome) :
    ∃ vs : List α, vs.map some = wanted.map f := by
  induction wanted with
  | nil => exact ⟨[], rfl⟩
  | cons k wanted ih =>
    obtain ⟨hk, hrest⟩ := List.forall_mem_cons.mp h
    obtain ⟨v, hv⟩ := Option.isSome_iff_exists.mp hk
    obtain ⟨vs, hvs⟩ := ih hrest
    exact ⟨v :: vs, by rw [List.map_cons, List.map_cons, hvs, hv]⟩

/-- A map that holds what was heard last under each wanted key, and nothing else. -/
def Gathered (wanted : List κ) (heard : List (κ × α)) (received : AList (fun _ : κ => α)) : Prop :=
  ∀ k, received.lookup k = if k ∈ wanted then lastFor heard k else none

namespace Gathered

variable {wanted : List κ} {heard : List (κ × α)} {received : AList (fun _ : κ => α)}

theorem empty (wanted : List κ) : Gathered wanted ([] : List (κ × α)) ∅ := by
  intro k
  rw [AList.lookup_empty, lastFor_nil, ite_self]

theorem insert (h : Gathered wanted heard received) {e : κ × α} (he : e.1 ∈ wanted) :
    Gathered wanted (heard ++ [e]) (received.insert e.1 e.2) := by
  intro k
  rw [lastFor_snoc]
  by_cases hk : k = e.1
  · subst hk
    rw [AList.lookup_insert, if_pos he, if_pos rfl]
  · rw [AList.lookup_insert_ne hk, if_neg hk]
    exact h k

theorem skip (h : Gathered wanted heard received) {e : κ × α} (he : e.1 ∉ wanted) :
    Gathered wanted (heard ++ [e]) received := by
  intro k
  rw [h k, lastFor_snoc]
  by_cases hk : k = e.1
  · subst hk
    rw [if_neg he, if_neg he]
  · rw [if_neg hk]

theorem mem_keys_iff (h : Gathered wanted heard received) {k : κ} :
    k ∈ received.keys ↔ k ∈ wanted ∧ ∃ v, (k, v) ∈ heard := by
  rw [← AList.mem_keys, ← AList.lookup_isSome, h k, ← lastFor_isSome_iff]
  by_cases hk : k ∈ wanted
  · rw [if_pos hk, and_iff_right hk]
  · rw [if_neg hk]
    simp [hk]

/-- The keys are counted only: as many as are wanted means all of them. -/
theorem length_le_iff (h : Gathered wanted heard received) (hnodup : wanted.Nodup) :
    wanted.length ≤ received.keys.length ↔ Complete wanted heard := by
  constructor
  · intro hlen k hk
    have hsub : received.keys ⊆ wanted := fun k hk => (h.mem_keys_iff.mp hk).1
    have hperm := (List.subperm_of_subset received.nodupKeys hsub).perm_of_length_le hlen
    exact (h.mem_keys_iff.mp (hperm.mem_iff.mpr hk)).2
  · intro hcomplete
    have hsub : wanted ⊆ received.keys := fun k hk => h.mem_keys_iff.mpr ⟨hk, hcomplete k hk⟩
    exact (List.subperm_of_subset hnodup hsub).length_le

/-- What a complete map holds for the wanted keys, in their order. -/
theorem values (h : Gathered wanted heard received) (hcomplete : Complete wanted heard) :
    ∃ vs : List α, vs.map some = wanted.map received.lookup ∧
      vs.map some = wanted.map (lastFor heard) := by
  have hsame : wanted.map received.lookup = wanted.map (lastFor heard) := by
    apply List.map_congr_left
    intro k hk
    rw [h k, if_pos hk]
  obtain ⟨vs, hvs⟩ := exists_map_some_eq (complete_iff_isSome.mp hcomplete)
  exact ⟨vs, hvs.trans hsame.symm, hvs⟩

end Gathered

end IbverbsRs.Framework
