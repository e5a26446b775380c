import IbverbsRs.Framework.TransitionSystem

namespace IbverbsRs.Framework

variable {σ ε τ δ : Type}

/-- A forward simulation: a concrete step is one step of the abstract system, or it does not show
there. -/
structure Refines (C : TransitionSystem σ ε) (A : TransitionSystem τ δ) (R : σ → τ → Prop) :
    Prop where
  init : R C.init A.init
  step : ∀ s a e s', R s a → C.step s e = some s' →
    R s' a ∨ ∃ d a', A.step a d = some a' ∧ R s' a'

/-- A simulation in which the abstract system may act on what the rest of the run is going to do. -/
structure RefinesAhead (C : TransitionSystem σ ε) (A : TransitionSystem τ δ)
    (R : List ε → σ → τ → Prop) : Prop where
  init : ∀ es, R es C.init A.init
  step : ∀ s a e es s', R (e :: es) s a → C.step s e = some s' →
    R es s' a ∨ ∃ d a', A.step a d = some a' ∧ R es s' a'

/-- Every concrete run is one of the abstract system, with the invisible steps left out. -/
theorem RefinesAhead.run {C : TransitionSystem σ ε} {A : TransitionSystem τ δ}
    {R : List ε → σ → τ → Prop} (h : RefinesAhead C A R) {es : List ε} {s : σ}
    (hrun : C.run es = some s) :
    ∃ ds a, A.run ds = some a ∧ R [] s a ∧ ds.length ≤ es.length := by
  have hfrom : ∀ (es : List ε) (s₀ : σ) (ds₀ : List δ) (a₀ : τ), A.run ds₀ = some a₀ →
      R es s₀ a₀ → C.runFrom s₀ es = some s →
      ∃ ds a, A.run ds = some a ∧ R [] s a ∧ ds.length ≤ ds₀.length + es.length := by
    intro es
    induction es with
    | nil =>
      intro s₀ ds₀ a₀ hds hR hes
      obtain rfl := Option.some.inj hes
      exact ⟨ds₀, a₀, hds, hR, Nat.le_refl _⟩
    | cons e es ih =>
      intro s₀ ds₀ a₀ hds hR hes
      obtain ⟨s₁, hs₁, hrest⟩ := Option.bind_eq_some_iff.mp hes
      rcases h.step s₀ a₀ e es s₁ hR hs₁ with hR₁ | ⟨d, a₁, ha₁, hR₁⟩
      · obtain ⟨ds, a, hrun', hRa, hlen⟩ := ih s₁ ds₀ a₀ hds hR₁ hrest
        refine ⟨ds, a, hrun', hRa, ?_⟩
        rw [List.length_cons]
        omega
      · obtain ⟨ds, a, hrun', hRa, hlen⟩ := ih s₁ (ds₀ ++ [d]) a₁ (A.run_snoc hds ha₁) hR₁ hrest
        refine ⟨ds, a, hrun', hRa, ?_⟩
        rw [List.length_append, List.length_singleton] at hlen
        rw [List.length_cons]
        omega
  obtain ⟨ds, a, hds, hR, hlen⟩ := hfrom es C.init [] A.init rfl (h.init es) hrun
  exact ⟨ds, a, hds, hR, by simpa using hlen⟩

namespace Refines

variable {C : TransitionSystem σ ε} {A : TransitionSystem τ δ} {R : σ → τ → Prop}

theorem ahead (h : Refines C A R) : RefinesAhead C A (fun _ => R) where
  init _ := h.init
  step s a e _ s' := h.step s a e s'

theorem run (h : Refines C A R) {es : List ε} {s : σ} (hrun : C.run es = some s) :
    ∃ ds a, A.run ds = some a ∧ R s a ∧ ds.length ≤ es.length :=
  h.ahead.run hrun

end Refines

end IbverbsRs.Framework
