import IbverbsRs.Framework.Refinement
import IbverbsRs.Network.TcpExchanger.Agreement

namespace IbverbsRs.Network

open Framework Exchanger

/-- The nodes of an exchange, and the errors with which some of them have given up. -/
structure AwaitWorld (T : Type) where
  world : ExchangeWorld T
  failed : Nat → Option ExchangeError

/-- A step of `exchange_all`, a failed attempt to connect, the end of the time a node has for the
whole exchange, or an I/O error on one of its sockets. -/
inductive AwaitEvent
  | act (ev : ExchangeEvent)
  | refused (i : Nat)
  | timeout (i : Nat)
  | io_error (i : Nat) (error : String)

/-- The nodes whose code or whose listener takes part in the event. -/
def ExchangeEvent.nodes : ExchangeEvent → List Nat
  | .bind i | .accept i | .close i | .retry i | .write i | .read i | .finish i => [i]
  | .connect i j => [i, j]
  | .deliver _ _ _ => []

/-- `exchange_all` has come to its end. -/
def ExchangePc.over {T : Type} : ExchangePc T → Bool
  | done _ | panicked => true
  | _ => false

namespace AwaitWorld

variable {T : Type}

/-- What `await_exchange_all` has returned at node `i`. -/
def result (w : AwaitWorld T) (i : Nat) : Option (Except ExchangeError (List T)) :=
  match w.failed i, w.world.pc i with
  | some e, _ => some (.error e)
  | none, .done result => some result
  | none, _ => none

def running (w : AwaitWorld T) (i : Nat) : Bool := (w.failed i).isNone && !(w.world.pc i).over

/-- The future is dropped, and with it the listener and the streams of the node. -/
def fail (w : AwaitWorld T) (i : Nat) (e : ExchangeError) : AwaitWorld T :=
  { w with failed := Function.update w.failed i (some e) }

end AwaitWorld

namespace Exchange

variable {T A : Type} [DecidableEq A] (x : Exchange T A)

def awaitStep (w : AwaitWorld T) : AwaitEvent → Option (AwaitWorld T)
  | .act ev =>
    if ∀ i ∈ ev.nodes, w.failed i = none then
      (x.step w.world ev).map (fun world => { w with world := world })
    else none
  | .refused i =>
    match w.failed i, w.world.pc i with
    | none, .dial _ _ _ => some w
    | _, _ => none
  | .timeout i => if w.running i then some (w.fail i .Timeout) else none
  | .io_error i error => if w.running i then some (w.fail i (.IoError error)) else none

def awaitSystem : TransitionSystem (AwaitWorld T) AwaitEvent :=
  ⟨⟨start, fun _ => none⟩, x.awaitStep⟩

/-- A node that gives up takes no further part: what the others do is still a run of the
exchange. -/
theorem await_refines : Refines x.awaitSystem x.system (fun c a => c.world = a) where
  init := rfl
  step c a e c' h hs := by
    subst h
    cases e with
    | act ev =>
      simp only [awaitSystem, awaitStep] at hs
      split_ifs at hs
      obtain ⟨world, hworld, rfl⟩ := Option.map_eq_some_iff.mp hs
      exact Or.inr ⟨ev, world, hworld, rfl⟩
    | refused i =>
      simp only [awaitSystem, awaitStep] at hs
      split at hs
      · obtain rfl := Option.some.inj hs
        exact Or.inl rfl
      · cases hs
    | timeout i | io_error i error =>
      simp only [awaitSystem, awaitStep] at hs
      split_ifs at hs
      obtain rfl := Option.some.inj hs
      exact Or.inl rfl

/-- The errors a node gives up with. -/
def GivesUp (e : ExchangeError) : Prop := e = .Timeout ∨ ∃ error, e = .IoError error

theorem failed_step {w w' : AwaitWorld T} {ev : AwaitEvent}
    (h : ∀ i e, w.failed i = some e → GivesUp e) (hs : x.awaitSystem.step w ev = some w') :
    ∀ i e, w'.failed i = some e → GivesUp e := by
  have hfail {i : Nat} {error : ExchangeError} (herror : GivesUp error) :
      ∀ j e, (w.fail i error).failed j = some e → GivesUp e := by
    intro j e he
    simp only [AwaitWorld.fail, Function.update_apply] at he
    split_ifs at he
    · rw [← Option.some.inj he]
      exact herror
    · exact h j e he
  cases ev with
  | act ev =>
    simp only [awaitSystem, awaitStep] at hs
    split_ifs at hs
    obtain ⟨world, _, rfl⟩ := Option.map_eq_some_iff.mp hs
    exact h
  | refused i =>
    simp only [awaitSystem, awaitStep] at hs
    split at hs
    · obtain rfl := Option.some.inj hs
      exact h
    · cases hs
  | timeout i =>
    simp only [awaitSystem, awaitStep] at hs
    split_ifs at hs
    obtain rfl := Option.some.inj hs
    exact hfail (Or.inl rfl)
  | io_error i error =>
    simp only [awaitSystem, awaitStep] at hs
    split_ifs at hs
    obtain rfl := Option.some.inj hs
    exact hfail (Or.inr ⟨error, rfl⟩)

omit [DecidableEq A] in
/-- A node that takes no part in a step stays where it is. -/
theorem Step.pc_frame {w w' : ExchangeWorld T} {ev : ExchangeEvent} (h : x.Step w ev w') {j : Nat}
    (hj : j ∉ ev.nodes) : w'.pc j = w.pc j := by
  cases h <;> simp only [ExchangeEvent.nodes, List.mem_cons, List.not_mem_nil, or_false,
    not_or] at hj
  case retried | delivered => rfl
  case connected => exact ExchangeWorld.setPc_of_ne _ _ hj.1
  all_goals exact ExchangeWorld.setPc_of_ne _ _ hj

omit [DecidableEq A] in
/-- Only `connect` connects two nodes. -/
theorem Step.ends_frame {w w' : ExchangeWorld T} {ev : ExchangeEvent} (h : x.Step w ev w') :
    w'.connections.map Connection.ends = w.connections.map Connection.ends ∨
      ∃ i j, ev = .connect i j ∧ w'.connections.map Connection.ends =
        w.connections.map Connection.ends ++ [(i, j)] := by
  cases h
  case connected i j _ _ _ _ _ _ _ _ =>
    refine Or.inr ⟨i, j, rfl, ?_⟩
    simp [ExchangeWorld.addConnection, Connection.ends]
  case serveWritten found _ | connectWritten found _ | served found _ | answered found _ =>
    exact Or.inl (ends_setConnection (w := w.setPc _ _) found rfl)
  case delivered conn toServer found =>
    refine Or.inl (ends_setConnection found ?_)
    unfold Connection.deliver
    split_ifs <;> rfl
  all_goals exact Or.inl rfl

/-- There is a connection that node `i` has made to node `k`. -/
def Met (w : ExchangeWorld T) (i k : Nat) : Prop := (i, k) ∈ w.connections.map Connection.ends

theorem met_iff {w : ExchangeWorld T} {i k : Nat} : Met w i k ↔ ∃ c, Dials w c i k := by
  unfold Met
  rw [List.mem_map]
  constructor
  · rintro ⟨conn, hconn, hends⟩
    obtain ⟨c, hc, hfound⟩ := List.mem_iff_getElem.mp hconn
    obtain ⟨hclient, hserver⟩ := Prod.mk.inj hends
    exact ⟨c, conn, by rw [List.getElem?_eq_getElem hc, hfound], hclient, hserver⟩
  · rintro ⟨c, conn, hfound, rfl, rfl⟩
    exact ⟨conn, List.mem_of_getElem? hfound, rfl⟩

/-- Node `j` has given up before it got to the exchange with node `i`. -/
def Deserted (w : AwaitWorld T) (j i : Nat) : Prop :=
  w.failed j ≠ none ∧ (j < i ∧ (w.world.pc j).dialed j x.config.world_size ≤ i ∨
    i < j ∧ ¬ Met w.world i j)

/-- Nobody takes up the exchange for a node that has given up. -/
theorem deserted_step {w w' : AwaitWorld T} {ev : AwaitEvent} {j i : Nat}
    (h : x.Deserted w j i) (hs : x.awaitSystem.step w ev = some w') : x.Deserted w' j i := by
  have hfail {k : Nat} {e : ExchangeError} (hrunning : w.running k = true) :
      x.Deserted (w.fail k e) j i := by
    have hne : j ≠ k := by
      rintro rfl
      simp only [AwaitWorld.running, Bool.and_eq_true, Option.isNone_iff_eq_none] at hrunning
      exact h.1 hrunning.1
    have hkept : (w.fail k e).failed j = w.failed j := Function.update_of_ne hne ..
    refine ⟨?_, h.2⟩
    rw [hkept]
    exact h.1
  cases ev with
  | act ev =>
    simp only [awaitSystem, awaitStep] at hs
    split_ifs at hs with halive
    obtain ⟨world, hworld, rfl⟩ := Option.map_eq_some_iff.mp hs
    have hspec := x.step_spec hworld
    have hout : j ∉ ev.nodes := fun hmem => h.1 (halive j hmem)
    refine ⟨h.1, ?_⟩
    rcases h.2 with ⟨hlt, hdialed⟩ | ⟨hlt, hmet⟩
    · left
      rw [hspec.pc_frame x hout]
      exact ⟨hlt, hdialed⟩
    · refine Or.inr ⟨hlt, ?_⟩
      unfold Met
      rcases hspec.ends_frame x with hends | ⟨i', j', rfl, hends⟩
      · rw [hends]
        exact hmet
      · rw [hends, List.mem_append, List.mem_singleton, not_or]
        refine ⟨hmet, ?_⟩
        intro heq
        obtain ⟨_, rfl⟩ := Prod.mk.inj heq
        exact hout (by simp [ExchangeEvent.nodes])
  | refused k =>
    simp only [awaitSystem, awaitStep] at hs
    split at hs
    · obtain rfl := Option.some.inj hs
      exact h
    · cases hs
  | timeout k | io_error k error =>
    simp only [awaitSystem, awaitStep] at hs
    split_ifs at hs with hrunning
    obtain rfl := Option.some.inj hs
    exact hfail hrunning

section Runs

variable {x} {w : AwaitWorld T} {es : List AwaitEvent}

theorem await_inv (ht : x.Transmits) (hd : x.Distinct) (hrun : x.awaitSystem.run es = some w) :
    x.Inv w.world := by
  obtain ⟨ds, world, hds, hworld, _⟩ := x.await_refines.run hrun
  rw [hworld]
  exact x.run_inv ht hd hds

theorem await_failed (hrun : x.awaitSystem.run es = some w) {i : Nat} {e : ExchangeError}
    (he : w.failed i = some e) : GivesUp e :=
  x.awaitSystem.invariant (fun _ _ he => by cases he) (fun _ _ _ h hs => x.failed_step h hs) hrun
    i e he

theorem error_of_failed (hrun : x.awaitSystem.run es = some w) {i : Nat} {e : ExchangeError}
    {result : Except ExchangeError (List T)} (hresult : w.result i = some result)
    (he : w.failed i = some e) : ∃ e, result = .error e ∧ GivesUp e := by
  have hfailed : w.result i = some (.error e) := by
    unfold AwaitWorld.result
    rw [he]
  rw [hresult] at hfailed
  exact ⟨e, Option.some.inj hfailed, await_failed hrun he⟩

omit [DecidableEq A] in
/-- A node that has not given up returns the data of all, after the exchange with each of them. -/
theorem result_of_inv (hi : x.Inv w.world) {i : Nat} (hn : i < x.config.world_size)
    {result : Except ExchangeError (List T)} (hresult : w.result i = some result)
    (hfailed : w.failed i = none) :
    result = .ok ((List.range x.config.world_size).map x.data) ∧
      ∀ j < x.config.world_size, ¬ x.Deserted w j i := by
  have hdone : w.world.pc i = .done result := by
    unfold AwaitWorld.result at hresult
    rw [hfailed] at hresult
    split at hresult
    · cases ‹none = some _›
    · rw [← Option.some.inj hresult]
      assumption
    · cases hresult
  have hnode := hi.node i
  rw [NodeOk, hdone] at hnode
  refine ⟨hnode.resolve_left (Nat.not_le.mpr hn), ?_⟩
  rintro j hj ⟨_, ⟨hlt, hdialed⟩ | ⟨hlt, hmet⟩⟩
  · have hpassed := hi.served j i hlt hn (by rw [hdone]; trivial)
    omega
  · exact hmet (met_iff.mpr (hi.dialed i j hlt hj (by rw [hdone]; exact hj)))

/-- A node returns the data of all, or the error it gave up with. -/
theorem result_cases (hi : x.Inv w.world) (hrun : x.awaitSystem.run es = some w) {i : Nat}
    (hn : i < x.config.world_size) {result : Except ExchangeError (List T)}
    (hresult : w.result i = some result) :
    result = .ok ((List.range x.config.world_size).map x.data) ∨
      ∃ e, result = .error e ∧ GivesUp e := by
  cases hfailed : w.failed i with
  | none => exact Or.inl (result_of_inv hi hn hresult hfailed).1
  | some e => exact Or.inr (error_of_failed hrun hresult hfailed)

/-- Whatever nodes run out of time or lose their sockets: a node that returns `Ok` has the data of
all, another gives up with a timeout or an I/O error, and none panics. While nobody has given up
the exchange goes on, and a node that gives up before it has got to another takes that one with
it. -/
theorem await_exchange_all_agrees (hinverts : x.serde.Inverts)
    (hfits : ∀ r < x.config.world_size, ∀ encoded, x.serde.to_vec ⟨r, x.data r⟩ = .ok encoded →
      encoded.length ≤ 4294967295) (hdistinct : x.Distinct)
    (hrun : x.awaitSystem.run es = some w) :
    (∀ i < x.config.world_size, w.world.pc i ≠ .panicked ∧ ∀ result, w.result i = some result →
      result = .ok ((List.range x.config.world_size).map x.data) ∨
        ∃ e, result = .error e ∧ GivesUp e) ∧
    ((∀ i, w.failed i = none) → ∀ i < x.config.world_size, w.result i = none →
      ∃ ev w', ev.isRetry = false ∧ x.awaitStep w (.act ev) = some w') ∧
    ∀ i < x.config.world_size, ∀ j < x.config.world_size, x.Deserted w j i →
      ∀ fs w', x.awaitSystem.runFrom w fs = some w' → ∀ result, w'.result i = some result →
        ∃ e, result = .error e ∧ GivesUp e := by
  have ht : x.Transmits := fun r hr => write_stream_spec hinverts (hfits r hr)
  have hi := await_inv ht hdistinct hrun
  refine ⟨?_, ?_, ?_⟩
  · intro i hn
    have hnode := hi.node i
    constructor
    · intro hpanic
      rw [NodeOk, hpanic] at hnode
      exact hnode
    · intro result hresult
      exact result_cases hi hrun hn hresult
  · intro halive i hn hresult
    have hundone : ∀ result, w.world.pc i ≠ .done result := by
      intro result hdone
      unfold AwaitWorld.result at hresult
      rw [halive i, hdone] at hresult
      cases hresult
    obtain ⟨ev, world, hretry, hstep⟩ := x.not_stuck hi ht hdistinct hn hundone
    refine ⟨ev, { w with world := world }, hretry, ?_⟩
    simp only [awaitStep, if_pos (fun k (_ : k ∈ ev.nodes) => halive k), hstep, Option.map_some]
  · intro i hn j hj hdeserted fs w' hrest result hresult
    have hdeserted' : x.Deserted w' j i :=
      x.awaitSystem.invariant_from (P := fun _ => True)
        (fun _ _ _ _ hd hs => x.deserted_step hd hs) hdeserted (fun _ _ => trivial) hrest
    have hrun' : x.awaitSystem.run (es ++ fs) = some w' := by
      unfold TransitionSystem.run at hrun ⊢
      rw [TransitionSystem.runFrom_append, hrun, Option.bind_some, hrest]
    cases hfailed : w'.failed i with
    | none =>
      have hi' := await_inv ht hdistinct hrun'
      exact absurd hdeserted' ((result_of_inv hi' hn hresult hfailed).2 j hj)
    | some e => exact error_of_failed hrun' hresult hfailed

end Runs

/-- Node 0 is through when node 1 runs out of time. -/
theorem await_exchange_all_agrees_late : ∃ w,
    pair.awaitSystem.run ([.bind 0, .close 0, .bind 1, .connect 0 1, .accept 1, .write 1,
      .deliver 0 false 27, .read 0, .write 0, .finish 0].map .act ++ [.timeout 1]) = some w ∧
    (w.result 1).isSome ∧ (w.failed 1).isSome ∧ ∀ result, w.result 0 = some result →
      result = .ok [true, false] ∨ ∃ e, result = .error e ∧ GivesUp e := by
  obtain ⟨w, hrun, hlate⟩ := Option.map_eq_some_iff.mp (show (pair.awaitSystem.run
    ([.bind 0, .close 0, .bind 1, .connect 0 1, .accept 1, .write 1,
      .deliver 0 false 27, .read 0, .write 0, .finish 0].map .act ++ [.timeout 1])).map
      (fun w => ((w.result 1).isSome, (w.failed 1).isSome)) = some (true, true) by decide +kernel)
  obtain ⟨hresult, hfailed⟩ := Prod.mk.inj hlate
  have hfits : ∀ r < 2, ∀ encoded, boolSerde.to_vec ⟨r, r == 0⟩ = .ok encoded →
      encoded.length ≤ 4294967295 := by
    intro r hr encoded h
    obtain rfl := Except.ok.inj h
    interval_cases r <;> decide
  obtain ⟨hall, _⟩ := await_exchange_all_agrees (x := pair) boolSerde_inverts hfits pair_distinct
    hrun
  exact ⟨w, hrun, hresult, hfailed, (hall 0 (by decide)).2⟩

end Exchange

end IbverbsRs.Network
