import IbverbsRs.Framework.Gathering
import IbverbsRs.MultiChannel.CallReturn

namespace IbverbsRs

open Ibverbs Framework

namespace Machine

/-- The device has completed the request: its handle has a result that the device produced for
its id, and as long as the ids do not wrap around, it is not in flight any more. -/
def HasCompleted (m : Machine) (h : Nat) : Prop :=
  ∃ x ch result, m.handles[h]? = some x ∧ m.channels[x.channel]? = some ch ∧
    x.work.status = some result ∧ ⟨x.work.wr_id, result⟩ ∈ ch.qp.produced ∧
    (ch.qp.posts < 2 ^ 64 → x.work.wr_id ∉ ch.qp.outstanding)

theorem Reached.hasCompleted {channels : List Channel} {m : Machine}
    (hnew : ∀ ch ∈ channels, ∃ n, ch = Channel.new n) (h : Reached channels m) {k : Nat}
    (hresult : (m.result k).isSome) : m.HasCompleted k := by
  obtain ⟨es, _, hrun⟩ := h
  obtain ⟨r, hr⟩ := Option.isSome_iff_exists.mp hresult
  obtain ⟨x, hx, hmap⟩ := Option.bind_eq_some_iff.mp hr
  obtain ⟨res, hstatus, _⟩ := Option.map_eq_some_iff.mp hmap
  have hmem := List.mem_of_getElem? hx
  obtain ⟨ch, hch⟩ := channel_exists hrun hmem
  have hmade := (genuine hnew hrun hch).status x.work (mem_account.mpr ⟨x, hmem, rfl, rfl⟩)
    res hstatus
  refine ⟨x, ch, res, hx, hch, hstatus, hmade, ?_⟩
  intro hposts
  have hbalanced := balanced hnew hrun hch hposts
  exact List.count_eq_zero.mp (hbalanced.amount_eq_one hmade).1

end Machine

namespace Call

open Machine

variable {W : Type} {channels : List Channel} {m₀ : Machine} {kind : OpKind}
  {requests : List (PeerRequest W)} {answers : Nat → Option Nat}

/-- The error request `i` is refused with, if there is such a request and it is refused. -/
def refusedWith (m₀ : Machine) (kind : OpKind) (requests : List (PeerRequest W))
    (answers : Nat → Option Nat) (i : Nat) : Option IbvError :=
  (requests[i]?).bind (fun request => m₀.refusal kind request.peer (answers i))

/-- All requests posted have been accepted. -/
theorem Inside.not_refused {m : Machine} {posted tried todo : List (PeerRequest W)}
    {owned : List Nat} (hin : Inside channels m₀ kind answers m posted tried owned)
    (split : requests = posted ++ todo) {i : Nat} (hi : i < posted.length) :
    refusedWith m₀ kind requests answers i = none := by
  unfold refusedWith
  rw [split, List.getElem?_append_left hi, List.getElem?_eq_getElem hi]
  exact hin.accepted i _ (List.getElem?_eq_getElem hi)

theorem refused_split {posted todo : List (PeerRequest W)} {request : PeerRequest W}
    (split : requests = posted ++ request :: todo) :
    refusedWith m₀ kind requests answers posted.length =
      m₀.refusal kind request.peer (answers posted.length) := by
  unfold refusedWith
  rw [split, List.getElem?_append_right (Nat.le_refl _), Nat.sub_self]
  rfl

theorem refused_bound {k : Nat} {e : IbvError} (h : refusedWith m₀ kind requests answers k = some e) :
    k < requests.length := by
  obtain ⟨request, hrequest, _⟩ := Option.bind_eq_some_iff.mp h
  exact (List.getElem?_eq_some_iff.mp hrequest).1

theorem Collected.results {m₁ m : Machine} {done : List Nat} {outputs : List WorkSuccess}
    (h : Collected m₁ done outputs) (hretains : m₁.Retains m) :
    done.map m.result = (outputs.map Except.ok).map some := by
  induction h with
  | nil => rfl
  | cons hhead _ ih =>
    rw [List.map_cons, List.map_cons, List.map_cons, ih, hretains _ _ hhead.1]

/-- The closure returns what collecting the results in request order gives. -/
theorem Outcome.collects {m₁ m : Machine} {tried : List (PeerRequest W)} {result : CallResult}
    {results : List TransportResult}
    (h : Outcome m₀ kind requests answers m₁ requests tried result) (hretains : m₁.Retains m)
    (hresults : (handlesOf m₀ requests).map m.result = results.map some) :
    result = collectResults results ∧ tried = requests := by
  have hinj : Function.Injective (List.map (some : TransportResult → Option TransportResult)) :=
    List.map_injective_iff.mpr (Option.some_injective _)
  cases h with
  | refused split error =>
    have hlen := congrArg List.length split
    simp at hlen
  | @failed done rest h outputs e order collected error =>
    refine ⟨?_, rfl⟩
    rw [order, List.map_append, collected.results hretains, List.map_cons,
      hretains _ _ error] at hresults
    obtain ⟨xs, ys, hsplit, hxs, hys⟩ := List.map_eq_append_iff.mp hresults.symm
    obtain ⟨y, zs, rfl, hy, _⟩ := List.map_eq_cons_iff.mp hys
    obtain rfl := hinj hxs
    obtain rfl := Option.some.inj hy
    rw [hsplit, collectResults_first_error]
  | succeeded collected =>
    refine ⟨?_, rfl⟩
    rw [collected.results hretains] at hresults
    rw [← hinj hresults, collectResults_map_ok]

/-- If a request is refused, the first of these is the last one tried, and its error is the
result. -/
theorem Outcome.refuses {m : Machine} {posted tried : List (PeerRequest W)} {result : CallResult}
    {owned : List Nat} (h : Outcome m₀ kind requests answers m posted tried result)
    (hin : Inside channels m₀ kind answers m posted tried owned) {k : Nat} {e : IbvError}
    (hk : refusedWith m₀ kind requests answers k = some e)
    (hfirst : ∀ i < k, refusedWith m₀ kind requests answers i = none) :
    posted = requests.take k ∧ tried = requests.take (k + 1) ∧ result = .error (.IbvError e) := by
  have hall : posted = requests → False := by
    rintro rfl
    rw [hin.not_refused (List.append_nil posted).symm (refused_bound hk)] at hk
    cases hk
  cases h with
  | @refused posted todo request e' split error =>
    have hlast := (refused_split split).trans error
    have hlen : k = posted.length := by
      rcases Nat.lt_trichotomy k posted.length with hless | heq | hmore
      · rw [hin.not_refused split hless] at hk
        cases hk
      · exact heq
      · rw [hfirst _ hmore] at hlast
        cases hlast
    subst hlen
    obtain rfl := Option.some.inj (hk.symm.trans hlast)
    refine ⟨?_, ?_, rfl⟩
    · rw [split, List.take_left]
    · rw [split.trans (List.append_cons posted request todo), List.take_left' (by simp)]
  | failed _ _ _ => exact (hall rfl).elim
  | succeeded _ => exact (hall rfl).elim

/-- If no request is refused, all are posted. -/
theorem Outcome.accepts {m : Machine} {posted tried : List (PeerRequest W)} {result : CallResult}
    (h : Outcome m₀ kind requests answers m posted tried result)
    (hnone : ∀ i, refusedWith m₀ kind requests answers i = none) : posted = requests := by
  cases h with
  | @refused posted _ _ _ split error =>
    have hlast := (refused_split split).trans error
    rw [hnone] at hlast
    cases hlast
  | failed _ _ _ => rfl
  | succeeded _ => rfl

/-- The requests posted since `m₀` are these, in this order and each on the channel of its peer,
and the driver was asked to take those `tried`. -/
structure PostedExactly (m₀ m : Machine) (posted tried : List (PeerRequest W)) : Prop where
  channels : m.handles.map Handle.channel =
    m₀.handles.map Handle.channel ++ posted.map PeerRequest.peer
  posts : ∀ c, m.postsOn c = (m₀.postsOn c).map (· + (tried.map PeerRequest.peer).count c)

theorem mem_handlesOf {posted : List (PeerRequest W)} {h : Nat} :
    h ∈ handlesOf m₀ posted ↔
      m₀.handles.length ≤ h ∧ h < m₀.handles.length + posted.length := by
  rw [handlesOf, List.mem_range'_1]

theorem result_of_collected {m : Machine} {results : List TransportResult}
    (h : results.map some = (handlesOf m₀ requests).map m.result) {i : Nat}
    (hi : i < requests.length) : m.result (m₀.handles.length + i) = results[i]? := by
  have hentry := congrArg (fun rs => rs[i]?) h
  simp only [List.getElem?_map, handlesOf, List.getElem?_range' hi, Nat.one_mul,
    Option.map_some] at hentry
  obtain ⟨r, hr, heq⟩ := Option.map_eq_some_iff.mp hentry
  exact heq.symm.trans hr.symm

/-- A blocking operation returns. It has posted everything before the first request that is
refused, and waited for it; the error is that of the first request refused or, if there is none,
of the first one failed. -/
theorem blocking_operations (op : BlockingOp W) (answers : Nat → Option Nat)
    {channels : List Channel} {pre : List Event} {m₀ : Machine} {es : List CallEvent} {c : Call W}
    (hnew : ∀ ch ∈ channels, ∃ n, ch = Channel.new n)
    (hok : ∀ ev ∈ pre, ev.reportsError = false) (hpre : (system channels).run pre = some m₀)
    (idle : m₀.control = .user) (hes : ∀ ev ∈ es, ev.reportsError = false)
    (hrun : (op.call answers m₀).run es = some c) :
    (Room m₀ op.requests → ∀ results, ∃ fin c' r, (∀ ev ∈ fin, ev.proceeds results) ∧
      (op.call answers m₀).runFrom c fin = some c' ∧ c'.phase = .returned r) ∧
    (∀ r, c.phase = .returned r →
      let first := m₀.handles.length
      let refused := refusedWith m₀ op.kind op.requests answers
      (∃ result, r = .returned result) ∧
      (∀ h, first ≤ h → h < c.machine.handles.length → c.machine.HasCompleted h) ∧
      (∀ k e, refused k = some e → (∀ i < k, refused i = none) →
        c.posted = op.requests.take k ∧
        PostedExactly m₀ c.machine (op.requests.take k) (op.requests.take (k + 1)) ∧
        r = .returned (.error (.IbvError e))) ∧
      ((∀ i, refused i = none) →
        c.posted = op.requests ∧ PostedExactly m₀ c.machine op.requests op.requests ∧
        ∃ results : List TransportResult, results.length = op.requests.length ∧
          (∀ i < op.requests.length, c.machine.result (first + i) = results[i]?) ∧
          (∀ outputs : List WorkSuccess, results = outputs.map .ok → r = .returned (.ok outputs)) ∧
          (∀ (outputs : List WorkSuccess) e rest, results = outputs.map .ok ++ .error e :: rest →
            r = .returned (.error e)))) := by
  rw [op.call_eq] at hrun ⊢
  have hinv := inv_run ⟨pre, hok, hpre⟩ idle hes hrun
  refine ⟨fun hroom results => hinv.returns results hnew hroom, ?_⟩
  intro r hphase first refused
  cases hinv with
  | called | posting | polling | spinning | polled | leaving | closing => cases hphase
  | @returned m m₁ posted tried result reached inside hchannels posts buffs retains results
      outcome =>
    obtain rfl : CallEnd.returned result = r := Phase.returned.inj hphase
    have hlen := congrArg List.length (hchannels.trans inside.channels)
    simp only [List.length_map, List.length_append] at hlen
    have hposted : PostedExactly m₀ m posted tried :=
      ⟨hchannels.trans inside.channels, fun c => (congrFun posts c).trans (inside.posts c)⟩
    refine ⟨⟨result, rfl⟩, ?_, ?_, ?_⟩
    · intro h hge hlt
      exact reached.hasCompleted hnew (results h (mem_handlesOf.mpr ⟨hge, hlen ▸ hlt⟩))
    · intro k e hk hbefore
      obtain ⟨rfl, rfl, rfl⟩ := outcome.refuses inside hk hbefore
      exact ⟨rfl, hposted, rfl⟩
    · intro hnone
      obtain rfl := outcome.accepts hnone
      obtain ⟨rs, hrs⟩ := exists_map_some_eq results
      obtain ⟨rfl, rfl⟩ := outcome.collects retains hrs.symm
      have hcount := congrArg List.length hrs
      rw [List.length_map, List.length_map, handlesOf, List.length_range'] at hcount
      refine ⟨rfl, hposted, rs, hcount, ?_, ?_, ?_⟩
      · intro i hi
        exact result_of_collected hrs hi
      · rintro outputs rfl
        rw [collectResults_map_ok]
      · rintro outputs e rest rfl
        rw [collectResults_first_error]

/-- Three requests to two peers, completed in another order than posted; the last two fail, and
the error of the second is returned once all have completed. -/
theorem blocking_operations_three : ∃ c,
    ((BlockingOp.gather_read [⟨1, ()⟩, ⟨0, ()⟩, ⟨1, ()⟩]).call (fun _ => none)
      (Machine.new [Channel.new 16, Channel.new 16])).run
        (List.replicate 5 (.go 0) ++ [.complete 1 ⟨1, .error ⟨9, 0⟩⟩,
          .complete 0 ⟨0, .error ⟨5, 0⟩⟩, .complete 1 ⟨0, .ok ⟨none, 4⟩⟩] ++
            List.replicate 17 (.go 1)) = some c ∧
    c.phase = .returned (.returned (.error (.WorkError ⟨5, 0⟩))) ∧
    ∀ h < 3, c.machine.HasCompleted h := by
  obtain ⟨c, hrun, hsum⟩ := Option.map_eq_some_iff.mp (show
    (((BlockingOp.gather_read [⟨1, ()⟩, ⟨0, ()⟩, ⟨1, ()⟩]).call (fun _ => none)
      (Machine.new [Channel.new 16, Channel.new 16])).run
        (List.replicate 5 (.go 0) ++ [.complete 1 ⟨1, .error ⟨9, 0⟩⟩,
          .complete 0 ⟨0, .error ⟨5, 0⟩⟩, .complete 1 ⟨0, .ok ⟨none, 4⟩⟩] ++
            List.replicate 17 (.go 1))).map (fun c => (c.phase, c.machine.handles.length)) =
      some (.returned (.returned (.error (.WorkError ⟨5, 0⟩))), 3) by rfl)
  obtain ⟨hphase, hlen⟩ := Prod.mk.inj hsum
  have hall := blocking_operations (.gather_read [⟨1, ()⟩, ⟨0, ()⟩, ⟨1, ()⟩]) (fun _ => none)
    (by simp) (by simp)
    (show (system [Channel.new 16, Channel.new 16]).run [] = some (Machine.new _) from rfl) rfl
    (by decide) hrun
  obtain ⟨_, hcompleted, _⟩ := hall.2 _ hphase
  exact ⟨c, hrun, hphase, fun h hlt => hcompleted h (Nat.zero_le h) (hlen ▸ hlt)⟩

end Call

end IbverbsRs
