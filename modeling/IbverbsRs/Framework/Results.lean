import Mathlib.Data.List.Basic
import Mathlib.Tactic.Common

namespace IbverbsRs.Framework

variable {ε α β : Type}

/-- A chain of calls under `?` succeeds only if its first call does. -/
theorem ok_bind_cases {x : Except ε α} {f : α → Except ε β} {b : β} (h : x >>= f = .ok b) :
    ∃ a, x = .ok a ∧ f a = .ok b := by
  cases x with
  | error e => cases h
  | ok a => exact ⟨a, rfl, h⟩

/-- Such a chain fails at its first call or behind it. -/
theorem error_bind_cases {x : Except ε α} {f : α → Except ε β} {e : ε} (h : x >>= f = .error e) :
    x = .error e ∨ ∃ a, x = .ok a ∧ f a = .error e := by
  cases x with
  | error e' => exact Or.inl (congrArg Except.error (Except.error.inj h))
  | ok a => exact Or.inr ⟨a, rfl, h⟩

theorem error_map_cases {x : Except ε α} {f : α → β} {e : ε} (h : x.map f = .error e) :
    x = .error e := by
  cases x with
  | error e' => exact congrArg Except.error (Except.error.inj h)
  | ok a => cases h

theorem ok_map_cases {x : Except ε α} {f : α → β} {b : β} (h : x.map f = .ok b) :
    ∃ a, x = .ok a ∧ f a = b := by
  cases x with
  | error e => cases h
  | ok a => exact ⟨a, rfl, Except.ok.inj h⟩

theorem ok_mapError_cases {ε' : Type} {x : Except ε α} {f : ε → ε'} {a : α}
    (h : x.mapError f = .ok a) : x = .ok a := by
  cases x with
  | error e => cases h
  | ok a' => exact congrArg Except.ok (Except.ok.inj h)

/-- `Iterator::collect` into a `Result`: the first error ends it. -/
def collectResults : List (Except ε α) → Except ε (List α)
  | [] => .ok []
  | .error e :: _ => .error e
  | .ok a :: rest => (collectResults rest).map (a :: ·)

/-- All succeed, or a first one fails. -/
theorem collectResults_cases (rs : List (Except ε α)) :
    (∃ vs : List α, rs = vs.map .ok ∧ collectResults rs = .ok vs) ∨
      ∃ (vs : List α) (e : ε) (rest : List (Except ε α)),
        rs = vs.map .ok ++ .error e :: rest ∧ collectResults rs = .error e := by
  induction rs with
  | nil => exact Or.inl ⟨[], rfl, rfl⟩
  | cons r rs ih =>
    cases r with
    | error e => exact Or.inr ⟨[], e, rs, rfl, rfl⟩
    | ok a =>
      rcases ih with ⟨vs, rfl, hvs⟩ | ⟨vs, e, rest, rfl, he⟩
      · left
        refine ⟨a :: vs, rfl, ?_⟩
        rw [collectResults, hvs]
        rfl
      · right
        refine ⟨a :: vs, e, rest, rfl, ?_⟩
        rw [collectResults, he]
        rfl

theorem collectResults_eq_ok {rs : List (Except ε α)} {vs : List α}
    (h : collectResults rs = .ok vs) : rs = vs.map .ok := by
  rcases collectResults_cases rs with ⟨vs', hrs, hok⟩ | ⟨_, e, _, _, herror⟩
  · obtain rfl := Except.ok.inj (hok.symm.trans h)
    exact hrs
  · cases herror.symm.trans h

theorem collectResults_eq_error {rs : List (Except ε α)} {e : ε}
    (h : collectResults rs = .error e) : .error e ∈ rs := by
  rcases collectResults_cases rs with ⟨_, _, hok⟩ | ⟨vs, e', rest, rfl, herror⟩
  · cases hok.symm.trans h
  · obtain rfl := Except.error.inj (herror.symm.trans h)
    simp

theorem collectResults_map_ok (vs : List α) :
    collectResults (vs.map (Except.ok (ε := ε))) = .ok vs := by
  induction vs with
  | nil => rfl
  | cons a vs ih =>
    rw [List.map_cons, collectResults, ih]
    rfl

theorem collectResults_first_error (vs : List α) (e : ε) (rest : List (Except ε α)) :
    collectResults (vs.map .ok ++ .error e :: rest) = .error e := by
  induction vs with
  | nil => rfl
  | cons a vs ih =>
    rw [List.map_cons, List.cons_append, collectResults, ih]
    rfl

/-- Entry by entry, a collected map answers what the function answers. -/
theorem collectResults_map_getElem? {f : β → Except ε α} {xs : List β} {vs : List α}
    (h : collectResults (xs.map f) = .ok vs) {i : Nat} {x : β} (hx : xs[i]? = some x) :
    ∃ v, vs[i]? = some v ∧ f x = .ok v := by
  have hentry := congrArg (fun rs => rs[i]?) (collectResults_eq_ok h)
  simp only [List.getElem?_map, hx, Option.map_some] at hentry
  obtain ⟨v, hv, heq⟩ := Option.map_eq_some_iff.mp hentry.symm
  exact ⟨v, hv, heq.symm⟩

theorem collectResults_length {f : β → Except ε α} {xs : List β} {vs : List α}
    (h : collectResults (xs.map f) = .ok vs) : vs.length = xs.length := by
  have hlen := congrArg List.length (collectResults_eq_ok h)
  simpa using hlen.symm

/-- A chain of operations that never fail on the outside is the chain of their insides. -/
theorem foldlM_run_of_total {σ : Type} {f : σ → α → Option σ} {g : σ → α → OptionT Option σ}
    (h : ∀ s a, g s a = OptionT.mk (some (f s a))) (s : σ) (xs : List α) :
    (xs.foldlM g s).run = some (xs.foldlM f s) := by
  induction xs generalizing s with
  | nil => rfl
  | cons a xs ih =>
    rw [List.foldlM_cons, List.foldlM_cons, OptionT.run_bind, h, OptionT.run_mk]
    cases f s a with
    | none => rfl
    | some s' => exact ih s'

/-- A map of partial operations that all answer gives their answers, seen through `g`. -/
theorem exists_mapM_eq_some {γ : Type} {f : α → Option β} {g : β → γ} {h : α → γ} {xs : List α}
    (hf : ∀ x ∈ xs, ∃ y, f x = some y ∧ g y = h x) :
    ∃ ys, xs.mapM f = some ys ∧ ys.map g = xs.map h := by
  induction xs with
  | nil => exact ⟨[], rfl, rfl⟩
  | cons x xs ih =>
    obtain ⟨y, hy, hgy⟩ := hf x List.mem_cons_self
    obtain ⟨ys, hys, hgys⟩ := ih (fun x' hx' => hf x' (List.mem_cons_of_mem x hx'))
    refine ⟨y :: ys, ?_, ?_⟩
    · rw [List.mapM_cons, hy, hys]
      rfl
    · rw [List.map_cons, List.map_cons, hgy, hgys]

theorem exists_foldlM_eq_some {f : β → α → Option β} {xs : List α}
    (hf : ∀ y, ∀ x ∈ xs, ∃ y', f y x = some y') (y : β) : ∃ y', xs.foldlM f y = some y' := by
  induction xs generalizing y with
  | nil => exact ⟨y, rfl⟩
  | cons x xs ih =>
    obtain ⟨y', hy'⟩ := hf y x List.mem_cons_self
    obtain ⟨y'', hy''⟩ := ih (fun y x hx => hf y x (List.mem_cons_of_mem _ hx)) y'
    refine ⟨y'', ?_⟩
    rw [List.foldlM_cons, hy']
    exact hy''

theorem forall₂_of_mapM {f : α → Option β} {xs : List α} {ys : List β} (h : xs.mapM f = some ys) :
    List.Forall₂ (fun x y => f x = some y) xs ys := by
  induction xs generalizing ys with
  | nil =>
    obtain rfl := Option.some.inj h
    exact .nil
  | cons x xs ih =>
    rw [List.mapM_cons] at h
    obtain ⟨y, hy, hlater⟩ := Option.bind_eq_some_iff.mp h
    obtain ⟨rest, hrest, hys⟩ := Option.bind_eq_some_iff.mp hlater
    obtain rfl := Option.some.inj hys
    exact .cons hy (ih hrest)

theorem exists_of_forall₂ {R : α → β → Prop} {xs : List α} {ys : List β} (h : List.Forall₂ R xs ys)
    {x : α} (hx : x ∈ xs) : ∃ y ∈ ys, R x y := by
  induction h with
  | nil => cases hx
  | @cons _ y _ _ hhead _ ih =>
    rcases List.mem_cons.mp hx with rfl | htail
    · exact ⟨y, List.mem_cons_self, hhead⟩
    · obtain ⟨y', hy', hrelated⟩ := ih htail
      exact ⟨y', List.mem_cons_of_mem _ hy', hrelated⟩

end IbverbsRs.Framework
