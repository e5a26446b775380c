import Mathlib.Algebra.Ring.Nat
import Mathlib.Data.List.Basic
import Mathlib.Tactic.Basic

namespace IbverbsRs.Framework

/-- A labelled transition system: one start state and a partial step per event. -/
structure TransitionSystem (σ ε : Type) where
  init : σ
  step : σ → ε → Option σ

namespace TransitionSystem

variable {σ ε : Type} (M : TransitionSystem σ ε)

/-- Runs a list of events; a disabled event makes the whole list impossible. -/
def runFrom (s : σ) : List ε → Option σ
  | [] => some s
  | e :: es => (M.step s e).bind (fun t => runFrom t es)

def run (es : List ε) : Option σ := M.runFrom M.init es

@[simp] theorem runFrom_nil (s : σ) : M.runFrom s [] = some s := rfl

theorem runFrom_cons (s : σ) (e : ε) (es : List ε) :
    M.runFrom s (e :: es) = (M.step s e).bind (fun t => M.runFrom t es) := rfl

theorem runFrom_singleton {s t : σ} {e : ε} (h : M.step s e = some t) :
    M.runFrom s [e] = some t := by
  rw [runFrom_cons, h]
  rfl

theorem runFrom_append (s : σ) (es fs : List ε) :
    M.runFrom s (es ++ fs) = (M.runFrom s es).bind (fun t => M.runFrom t fs) := by
  induction es generalizing s with
  | nil => rfl
  | cons e es ih =>
    rw [List.cons_append, runFrom_cons, runFrom_cons, Option.bind_assoc]
    exact Option.bind_congr (fun t _ => ih t)

/-- A run that ends in `t` can be continued by any event enabled in `t`. -/
theorem run_snoc {es : List ε} {e : ε} {s t : σ} (hs : M.run es = some s)
    (ht : M.step s e = some t) : M.run (es ++ [e]) = some t := by
  unfold run at hs ⊢
  rw [runFrom_append, hs]
  simp [runFrom, ht]

/-- Every step of the run, taken in the state it starts from, meets `P`. -/
def Along (P : σ → ε → Prop) (s : σ) : List ε → Prop
  | [] => True
  | e :: es => P s e ∧ ∀ t, M.step s e = some t → Along P t es

theorem along_of_forall {P : σ → ε → Prop} {es : List ε} (h : ∀ e ∈ es, ∀ s, P s e) (s : σ) :
    M.Along P s es := by
  induction es generalizing s with
  | nil => trivial
  | cons e es ih =>
    refine ⟨h e (by simp) s, ?_⟩
    intro t _
    exact ih (fun f hf => h f (by simp [hf])) t

/-- The invariant rule for runs whose steps all meet `P`. -/
theorem invariant_along {I : σ → Prop} {P : σ → ε → Prop}
    (hstep : ∀ s e t, P s e → I s → M.step s e = some t → I t)
    {s : σ} (hs : I s) {es : List ε} (hes : M.Along P s es) {t : σ}
    (hrun : M.runFrom s es = some t) : I t := by
  induction es generalizing s with
  | nil =>
    obtain rfl := Option.some.inj hrun
    exact hs
  | cons e es ih =>
    obtain ⟨u, hu, hrest⟩ := Option.bind_eq_some_iff.mp hrun
    exact ih (hstep s e u hes.1 hs hu) (hes.2 u hu) hrest

/-- Run induction: what holds at the start and is kept by every allowed step
holds after every run of allowed events. -/
theorem invariant_from {I : σ → Prop} {P : ε → Prop}
    (hstep : ∀ s e t, P e → I s → M.step s e = some t → I t)
    {s : σ} (hs : I s) {es : List ε} (hes : ∀ e ∈ es, P e) {t : σ}
    (hrun : M.runFrom s es = some t) : I t :=
  M.invariant_along (P := fun _ e => P e) hstep hs
    (M.along_of_forall (fun e he _ => hes e he) s) hrun

/-- The unrestricted form of the invariant rule. -/
theorem invariant {I : σ → Prop} (hinit : I M.init)
    (hstep : ∀ s e t, I s → M.step s e = some t → I t)
    {es : List ε} {t : σ} (hrun : M.run es = some t) : I t :=
  M.invariant_from (P := fun _ => True) (fun s e t _ => hstep s e t) hinit
    (fun _ _ => trivial) hrun

/-- The invariant rule for runs whose events all satisfy `P`. -/
theorem invariant_on {I : σ → Prop} {P : ε → Prop} (hinit : I M.init)
    (hstep : ∀ s e t, P e → I s → M.step s e = some t → I t)
    {es : List ε} (hes : ∀ e ∈ es, P e) {t : σ} (hrun : M.run es = some t) : I t :=
  M.invariant_from hstep hinit hes hrun

/-- A measure that some steps lower and no step raises bounds how often those are taken. -/
theorem countP_add_measure_le {I : σ → Prop} {P : ε → Prop} {p : ε → Bool} (μ : σ → Nat)
    (hstep : ∀ s e t, P e → I s → M.step s e = some t →
      I t ∧ μ t + (if p e then 1 else 0) ≤ μ s)
    {s : σ} (hs : I s) {es : List ε} (hes : ∀ e ∈ es, P e) {t : σ}
    (hrun : M.runFrom s es = some t) : es.countP p + μ t ≤ μ s := by
  induction es generalizing s with
  | nil =>
    obtain rfl := Option.some.inj hrun
    simp
  | cons e es ih =>
    obtain ⟨u, hu, hrest⟩ := Option.bind_eq_some_iff.mp hrun
    obtain ⟨hI, hle⟩ := hstep s e u (hes e (by simp)) hs hu
    have hcount := ih hI (fun f hf => hes f (by simp [hf])) hrest
    rw [List.countP_cons]
    omega

/-- A measure that every allowed step lowers bounds the length of every run. -/
theorem length_add_measure_le {I : σ → Prop} {P : ε → Prop} (μ : σ → Nat)
    (hstep : ∀ s e t, P e → I s → M.step s e = some t → I t ∧ μ t < μ s)
    {s : σ} (hs : I s) {es : List ε} (hes : ∀ e ∈ es, P e) {t : σ}
    (hrun : M.runFrom s es = some t) : es.length + μ t ≤ μ s := by
  have hcount := M.countP_add_measure_le (p := fun _ => true) μ
    (fun s e t he hI ht => (hstep s e t he hI ht).imp_right Nat.succ_le_of_lt) hs hes hrun
  rwa [List.countP_true] at hcount

/-- A quantity that grows by one with every event of a kind counts these events. -/
theorem runFrom_countP {f : σ → Nat} {p : ε → Bool}
    (hstep : ∀ s e t, M.step s e = some t → f t = f s + if p e then 1 else 0)
    {s : σ} {es : List ε} {t : σ} (hrun : M.runFrom s es = some t) : f t = f s + es.countP p := by
  induction es generalizing s with
  | nil =>
    obtain rfl := Option.some.inj hrun
    simp
  | cons e es ih =>
    obtain ⟨u, hu, hrest⟩ := Option.bind_eq_some_iff.mp hrun
    rw [ih hrest, hstep s e u hu, List.countP_cons]
    omega

/-- The invariant rule for what also speaks of the events of the run at hand. -/
theorem history_invariant {I : List ε → σ → Prop} (hinit : I [] M.init)
    (hstep : ∀ es s e t, M.run es = some s → I es s → M.step s e = some t → I (es ++ [e]) t)
    {es : List ε} {t : σ} (hrun : M.run es = some t) : I es t := by
  have hfrom : ∀ (fs : List ε) (es : List ε) (s : σ), M.run es = some s → I es s →
      M.runFrom s fs = some t → I (es ++ fs) t := by
    intro fs
    induction fs with
    | nil =>
      intro es s _ hs hrest
      obtain rfl := Option.some.inj hrest
      rwa [List.append_nil]
    | cons e fs ih =>
      intro es s hes hs hrest
      obtain ⟨u, hu, hrest⟩ := Option.bind_eq_some_iff.mp hrest
      rw [List.append_cons]
      exact ih (es ++ [e]) u (M.run_snoc hes hu) (hstep es s e u hes hs hu) hrest
  exact hfrom es [] M.init rfl hinit hrun

/-- Two runs, each of allowed events, one after the other. -/
theorem runFrom_trans {P : ε → Prop} {s t u : σ} {es fs : List ε} (hes : ∀ e ∈ es, P e)
    (hs : M.runFrom s es = some t) (hfs : ∀ e ∈ fs, P e) (ht : M.runFrom t fs = some u) :
    (∀ e ∈ es ++ fs, P e) ∧ M.runFrom s (es ++ fs) = some u := by
  constructor
  · intro e he
    rcases List.mem_append.mp he with he | he
    · exact hes e he
    · exact hfs e he
  · rw [runFrom_append, hs]
    exact ht

/-- Some run of allowed events leads to a state of a smaller measure. -/
def Nearer (P : ε → Prop) (μ : σ → Nat) (s : σ) : Prop :=
  ∃ es t, (∀ e ∈ es, P e) ∧ M.runFrom s es = some t ∧ μ t < μ s

variable {M} in
theorem Nearer.of_step {P : ε → Prop} {μ : σ → Nat} {s t : σ} {e : ε} (he : P e)
    (hs : M.step s e = some t) (hless : μ t < μ s) : M.Nearer P μ s := by
  refine ⟨[e], t, ?_, M.runFrom_singleton hs, hless⟩
  intro f hf
  rwa [List.mem_singleton.mp hf]

variable {M} in
theorem Nearer.after {P : ε → Prop} {μ : σ → Nat} {s t : σ} {e : ε} (h : M.Nearer P μ t) (he : P e)
    (hs : M.step s e = some t) (hle : μ t ≤ μ s) : M.Nearer P μ s := by
  obtain ⟨es, u, hes, hrun, hless⟩ := h
  have hfirst : ∀ f ∈ [e], P f := by
    intro f hf
    rwa [List.mem_singleton.mp hf]
  obtain ⟨hall, hreach⟩ := M.runFrom_trans hfirst (M.runFrom_singleton hs) hes hrun
  exact ⟨[e] ++ es, u, hall, hreach, Nat.lt_of_lt_of_le hless hle⟩

/-- If every state that is not yet done can be left for one that is closer, some run of
allowed events ends in one that is. -/
theorem reaches_of_measure {I D : σ → Prop} {P : ε → Prop} (μ : σ → Nat)
    (hstep : ∀ s, I s → D s ∨ ∃ es t, (∀ e ∈ es, P e) ∧ M.runFrom s es = some t ∧ I t ∧ μ t < μ s)
    {s : σ} (hs : I s) :
    ∃ es t, (∀ e ∈ es, P e) ∧ M.runFrom s es = some t ∧ I t ∧ D t := by
  induction hn : μ s using Nat.strongRecOn generalizing s with
  | ind n ih =>
    rcases hstep s hs with hdone | ⟨es, t, hes, hrun, ht, hless⟩
    · exact ⟨[], s, by simp, rfl, hs, hdone⟩
    · obtain ⟨fs, u, hfs, hrest, hu, hdone⟩ := ih (μ t) (hn ▸ hless) ht rfl
      obtain ⟨hall, hreach⟩ := M.runFrom_trans hes hrun hfs hrest
      exact ⟨es ++ fs, u, hall, hreach, hu, hdone⟩

end TransitionSystem

end IbverbsRs.Framework
