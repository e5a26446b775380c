import IbverbsRs.Framework.Results
import IbverbsRs.Ibverbs.QueuePair.FabricInvariant

namespace IbverbsRs.Ibverbs

open Framework Segment Cells AccessFlags

/-- A message as one of the two programs knows it. -/
structure Message where
  bytes : List UInt8
  scattered_bytes : Nat
  imm_data : Option UInt32
  deriving DecidableEq

/-- The message of a request that takes a receive request of the peer, if it moves `bytes`. -/
def WorkRequest.message (bytes : List UInt8) : WorkRequest → Option Message
  | .Send wr => some ⟨bytes, bytes.length, wr.imm_data⟩
  | .Write wr => wr.imm_data.map (fun imm_data => ⟨[], bytes.length, some imm_data⟩)
  | _ => none

/-- The message as it was when the request was posted. -/
def Request.message (self : Request) : Option Message := self.wr.message self.held

namespace Finished

def sent (self : Finished) : Option Message :=
  if self.ok then self.request.wr.message self.moved else none

/-- What the program learns from the completion, with the bytes it finds in its buffers. -/
def received (order : ByteOrder) (self : Finished) : Option Message :=
  match (WorkCompletion.new self.wc).result with
  | .ok wc => some ⟨self.moved, wc.scattered_bytes, wc.immediate_data order⟩
  | .error _ => none

def Named (f : Finished) : Prop := f.wc.wr_id = f.request.posted.wr_id

theorem sent_of_not_ok {f : Finished} (h : f.ok = false) : f.sent = none := by
  unfold sent
  rw [h]
  rfl

theorem received_of_not_ok {f : Finished} (h : f.ok = false) (order : ByteOrder) :
    f.received order = none := by
  unfold received WorkCompletion.new
  unfold ok at h
  cases herror : f.wc.error with
  | none =>
    rw [herror] at h
    cases h
  | some error => rfl

end Finished

namespace Queue

variable {q : Queue} {r : Request} {rest : List Request}

/-- Which of the completed requests have succeeded. -/
def outcomes (self : Queue) : List Bool := self.finished.map Finished.ok

theorem finished_finish (h : q.waiting = r :: rest) (wc : IbvWc) (moved : List UInt8) :
    (q.finish wc moved).finished = q.finished ++ [⟨r, wc, moved, false⟩] := by
  rw [finish_eq h]

theorem outcomes_poll (q : Queue) (k : Nat) : (q.poll k).outcomes = q.outcomes :=
  map_modify_eq (g := fun f : Finished => { f with polled := true }) (fun _ => rfl) _ _

theorem filterMap_poll {β : Type} {g : Finished → Option β}
    (hg : ∀ f : Finished, g { f with polled := true } = g f) (q : Queue) (k : Nat) :
    (q.poll k).finished.filterMap g = q.finished.filterMap g := by
  have hviews : (q.poll k).finished.map g = q.finished.map g :=
    map_modify_eq (g := fun f : Finished => { f with polled := true }) hg _ _
  have hfilter : ∀ fs : List Finished, fs.filterMap g = (fs.map g).filterMap id := by
    intro fs
    rw [List.filterMap_map]
    rfl
  rw [hfilter, hfilter, hviews]

end Queue

/-- Behind a failure nothing succeeds. -/
def Ordered (outcomes : List Bool) : Prop :=
  outcomes.Pairwise (fun ok ok' => ok' = true → ok = true)

theorem Ordered.append {outcomes last : List Bool} (h : Ordered outcomes) (hone : last.length ≤ 1)
    (hlast : true ∈ last → false ∉ outcomes) : Ordered (outcomes ++ last) := by
  refine List.pairwise_append.mpr ⟨h, ?_, ?_⟩
  · match last, hone with
    | [], _ => exact .nil
    | [ok], _ => exact List.pairwise_singleton _ _
  · intro ok' hok' ok hmem hok
    subst hok
    cases ok' with
    | true => rfl
    | false => exact absurd hok' (hlast hmem)

namespace Fabric

variable {N : Type} [DecidableEq N] {once : Bool} {order : N → ByteOrder} {w w' : Fabric N}
  {a b : N}

def sent (w : Fabric N) (a b : N) : List Message :=
  (w.queues (a, b, .send)).finished.filterMap Finished.sent

/-- What `a` has received from `b`. -/
def received (order : N → ByteOrder) (w : Fabric N) (a b : N) : List Message :=
  (w.queues (a, b, .receive)).finished.filterMap (Finished.received (order a))

theorem finished_finish_self {id : QueueId N} {r : Request} {rest : List Request} {wc : IbvWc}
    {moved : List UInt8} (h : (w.queues id).waiting = r :: rest) :
    ((w.finish id wc moved).queues id).finished =
      (w.queues id).finished ++ [⟨r, wc, moved, false⟩] :=
  (congrArg Queue.finished (queues_setQueue_self ..)).trans (Queue.finished_finish h wc moved)

theorem queues_finish_of_ne {id id' : QueueId N} {wc : IbvWc} {moved : List UInt8}
    (h : id' ≠ id) : (w.finish id wc moved).queues id' = w.queues id' :=
  queues_setQueue_of_ne h ..

/-- A request of the sender completes, and with it those of the receiver. -/
def completions (a b : N) (f : Finished) (fs : List Finished) : QueueId N → List Finished :=
  Function.update (Function.update (fun _ => []) (b, a, .receive) fs) (a, b, .send) [f]

theorem completions_send (a b : N) (f : Finished) (fs : List Finished) :
    completions a b f fs (a, b, .send) = [f] := Function.update_self ..

theorem completions_receive (a b : N) (f : Finished) (fs : List Finished) :
    completions a b f fs (b, a, .receive) = fs :=
  (Function.update_of_ne (send_ne_receive a b b a).symm _ _).trans (Function.update_self ..)

theorem completions_of_ne {id : QueueId N} (hsend : id ≠ (a, b, .send))
    (hreceive : id ≠ (b, a, .receive)) (f : Finished) (fs : List Finished) :
    completions a b f fs id = [] :=
  (Function.update_of_ne hsend _ _).trans (Function.update_of_ne hreceive _ _)

omit [DecidableEq N] in
theorem queue_cases (a b : N) (id : QueueId N) : id = (a, b, .send) ∨ id = (b, a, .receive) ∨
    id ≠ (a, b, .send) ∧ id ≠ (b, a, .receive) := by
  by_cases hsend : id = (a, b, .send)
  · exact Or.inl hsend
  · by_cases hreceive : id = (b, a, .receive)
    · exact Or.inr (Or.inl hreceive)
    · exact Or.inr (Or.inr ⟨hsend, hreceive⟩)

/-- One request completes. -/
def completion (id : QueueId N) (f : Finished) : QueueId N → List Finished :=
  Function.update (fun _ => []) id [f]

theorem completion_self (id : QueueId N) (f : Finished) : completion id f id = [f] :=
  Function.update_self ..

theorem completion_of_ne {id id' : QueueId N} (h : id' ≠ id) (f : Finished) :
    completion id f id' = [] := Function.update_of_ne h ..

theorem mem_completion {id id' : QueueId N} {f f' : Finished} (h : f' ∈ completion id f id') :
    id' = id ∧ f' = f := by
  by_cases hid : id' = id
  · subst hid
    rw [completion_self] at h
    exact ⟨rfl, List.mem_singleton.mp h⟩
  · rw [completion_of_ne hid] at h
    cases h

/-- The two ends of each connection know of the same messages, a request fails only once its queue
pair is broken, and a completion has the id of its request. -/
structure Linked (order : N → ByteOrder) (w : Fabric N) : Prop where
  delivered : ∀ a b, w.received order b a = w.sent a b
  clean : ∀ a b, w.broken (a, b) = false → ∀ side, false ∉ (w.queues (a, b, side)).outcomes
  ordered : ∀ id, Ordered (w.queues id).outcomes
  named : ∀ id, ∀ f ∈ (w.queues id).finished, f.Named

namespace Linked

variable {r : Request} {rest : List Request} {payload : List UInt8}

omit [DecidableEq N] in
/-- Steps that complete no request. -/
theorem of_outcomes (h : w.Linked order) (hbroken : w'.broken = w.broken)
    (houtcomes : ∀ id, (w'.queues id).outcomes = (w.queues id).outcomes)
    (hsent : ∀ a b, w'.sent a b = w.sent a b)
    (hreceived : ∀ a b, w'.received order a b = w.received order a b)
    (hnamed : ∀ id, ∀ f ∈ (w'.queues id).finished, f.Named) : w'.Linked order := by
  refine ⟨fun a b => ?_, fun a b hab side => ?_, fun id => ?_, hnamed⟩
  · rw [hreceived, hsent]
    exact h.delivered a b
  · rw [houtcomes]
    exact h.clean a b (hbroken ▸ hab) side
  · rw [houtcomes]
    exact h.ordered id

omit [DecidableEq N] in
theorem of_queues (h : w.Linked order) (hbroken : w'.broken = w.broken)
    (hfinished : ∀ id, (w'.queues id).finished = (w.queues id).finished) : w'.Linked order := by
  refine h.of_outcomes hbroken (fun id => ?_) (fun a b => ?_) (fun a b => ?_) (fun id => ?_)
  · exact congrArg (List.map Finished.ok) (hfinished id)
  · exact congrArg (List.filterMap Finished.sent) (hfinished _)
  · exact congrArg (List.filterMap (Finished.received (order a))) (hfinished _)
  · rw [hfinished]
    exact h.named id

theorem poll (h : w.Linked order) (id : QueueId N) (k : Nat) :
    (w.setQueue id ((w.queues id).poll k)).Linked order := by
  have hqueue : ∀ id', ((w.setQueue id ((w.queues id).poll k)).queues id') = w.queues id' ∨
      ((w.setQueue id ((w.queues id).poll k)).queues id') = (w.queues id').poll k := by
    intro id'
    by_cases hid : id' = id
    · subst hid
      exact Or.inr (queues_setQueue_self ..)
    · exact Or.inl (queues_setQueue_of_ne hid ..)
  refine h.of_outcomes rfl (fun id' => ?_) (fun a b => ?_) (fun a b => ?_) (fun id' f hf => ?_)
  · rcases hqueue id' with hsame | hpolled
    · rw [hsame]
    · rw [hpolled, Queue.outcomes_poll]
  · unfold sent
    rcases hqueue (a, b, .send) with hsame | hpolled
    · rw [hsame]
    · rw [hpolled, Queue.filterMap_poll (fun _ => rfl)]
  · unfold received
    rcases hqueue (a, b, .receive) with hsame | hpolled
    · rw [hsame]
    · rw [hpolled, Queue.filterMap_poll (fun _ => rfl)]
  · rcases hqueue id' with hsame | hpolled
    · exact h.named id' f (hsame ▸ hf)
    · rw [hpolled] at hf
      obtain ⟨f', hf', hrequest, hwc, _⟩ := Queue.mem_poll hf
      unfold Finished.Named
      rw [hrequest, hwc]
      exact h.named id' f' hf'

omit [DecidableEq N] in
/-- The rule for steps that complete requests, at most one in each queue. -/
theorem extend (h : w.Linked order) (new : QueueId N → List Finished)
    (hfinished : ∀ id, (w'.queues id).finished = (w.queues id).finished ++ new id)
    (hone : ∀ id, (new id).length ≤ 1)
    (hmatch : ∀ a b, (new (b, a, .receive)).filterMap (Finished.received (order b)) =
      (new (a, b, .send)).filterMap Finished.sent)
    (hbroken : ∀ a b, w'.broken (a, b) = false → w.broken (a, b) = false ∧
      ∀ side, ∀ f ∈ new (a, b, side), f.ok = true)
    (hok : ∀ a b side, ∀ f ∈ new (a, b, side), f.ok = true → w.broken (a, b) = false)
    (hnamed : ∀ id, ∀ f ∈ new id, f.Named) : w'.Linked order := by
  have houtcomes : ∀ id, (w'.queues id).outcomes =
      (w.queues id).outcomes ++ (new id).map Finished.ok := by
    intro id
    unfold Queue.outcomes
    rw [hfinished, List.map_append]
  refine ⟨fun a b => ?_, fun a b hab side hmem => ?_, ?_, fun id f hf => ?_⟩
  · have hdelivered := h.delivered a b
    unfold received sent at hdelivered ⊢
    rw [hfinished, hfinished, List.filterMap_append, List.filterMap_append, hmatch, hdelivered]
  · obtain ⟨hbefore, hnew⟩ := hbroken a b hab
    rw [houtcomes] at hmem
    rcases List.mem_append.mp hmem with hold | hlast
    · exact h.clean a b hbefore side hold
    · obtain ⟨f, hf, hfailed⟩ := List.mem_map.mp hlast
      cases (hnew side f hf).symm.trans hfailed
  · rintro ⟨a, b, side⟩
    rw [houtcomes]
    refine (h.ordered _).append ?_ (fun hmem => ?_)
    · rw [List.length_map]
      exact hone _
    · obtain ⟨f, hf, hsucceeded⟩ := List.mem_map.mp hmem
      exact h.clean a b (hok a b side f hf hsucceeded) side
  · rw [hfinished] at hf
    rcases List.mem_append.mp hf with hold | hlast
    · exact h.named id f hold
    · exact hnamed id f hlast

/-- A transfer completes a request of the sender, and one of the receiver if it carries a
message. -/
theorem transfer (h : w.Linked order) (f : Finished) (fs : List Finished)
    (hab : w.broken (a, b) = false) (hba : w.broken (b, a) = false)
    (hbroken : w'.broken = w.broken)
    (hsend : (w'.queues (a, b, .send)).finished = (w.queues (a, b, .send)).finished ++ [f])
    (hreceive : (w'.queues (b, a, .receive)).finished =
      (w.queues (b, a, .receive)).finished ++ fs)
    (hothers : ∀ id, id ≠ (a, b, .send) → id ≠ (b, a, .receive) → w'.queues id = w.queues id)
    (hone : fs.length ≤ 1) (hok : f.ok = true ∧ f.Named)
    (hoks : ∀ f' ∈ fs, f'.ok = true ∧ f'.Named)
    (hmatch : fs.filterMap (Finished.received (order b)) = [f].filterMap Finished.sent) :
    w'.Linked order := by
  have hnew : ∀ id, ∀ f' ∈ completions a b f fs id,
      (f'.ok = true ∧ f'.Named) ∧ w.broken (id.1, id.2.1) = false := by
    intro id f' hf'
    rcases queue_cases a b id with rfl | rfl | ⟨hid, hid'⟩
    · rw [completions_send] at hf'
      exact ⟨List.mem_singleton.mp hf' ▸ hok, hab⟩
    · rw [completions_receive] at hf'
      exact ⟨hoks f' hf', hba⟩
    · rw [completions_of_ne hid hid'] at hf'
      cases hf'
  refine h.extend (completions a b f fs) (fun id => ?_) (fun id => ?_) (fun c d => ?_) ?_ ?_ ?_
  · rcases queue_cases a b id with rfl | rfl | ⟨hid, hid'⟩
    · rw [hsend, completions_send]
    · rw [hreceive, completions_receive]
    · rw [hothers id hid hid', completions_of_ne hid hid', List.append_nil]
  · rcases queue_cases a b id with rfl | rfl | ⟨hid, hid'⟩
    · rw [completions_send]
      rfl
    · rw [completions_receive]
      exact hone
    · rw [completions_of_ne hid hid']
      exact Nat.zero_le _
  · by_cases hpair : (c, d) = (a, b)
    · obtain ⟨rfl, rfl⟩ := Prod.mk.inj hpair
      rw [completions_send, completions_receive]
      exact hmatch
    · have hc : ((c, d, .send) : QueueId N) ≠ (a, b, .send) := by
        rintro ⟨⟩
        exact hpair rfl
      have hd : ((d, c, .receive) : QueueId N) ≠ (b, a, .receive) := by
        rintro ⟨⟩
        exact hpair rfl
      rw [completions_of_ne hc (send_ne_receive c d b a),
        completions_of_ne (send_ne_receive a b d c).symm hd]
      rfl
  · intro c d hcd
    exact ⟨hbroken ▸ hcd, fun side f' hf' => (hnew _ f' hf').1.1⟩
  · exact fun c d side f' hf' _ => (hnew _ f' hf').2
  · exact fun id f' hf' => (hnew id f' hf').1.2

/-- A failure breaks the queue pair. -/
theorem fail (h : w.Linked order) {side : WorkQueue}
    (hwaiting : (w.queues (a, b, side)).waiting = r :: rest) {wc : IbvWc} {moved : List UInt8}
    (hfailed : wc.error.isNone = false) (hnamed : wc.wr_id = r.posted.wr_id) :
    ((w.finish (a, b, side) wc moved).disconnect a b).Linked order := by
  have hfails : ∀ id, ∀ f ∈ completion (a, b, side) ⟨r, wc, moved, false⟩ id, f.ok = false :=
    fun id f hf => (mem_completion hf).2 ▸ hfailed
  have hnone : ∀ {β : Type} {g : Finished → Option β}, (∀ f, f.ok = false → g f = none) →
      ∀ id, (completion (a, b, side) ⟨r, wc, moved, false⟩ id).filterMap g = [] :=
    fun hg id => List.filterMap_eq_nil_iff.mpr (fun f hf => hg f (hfails id f hf))
  refine h.extend (completion (a, b, side) ⟨r, wc, moved, false⟩) (fun id => ?_) (fun id => ?_)
    (fun c d => ?_) ?_ ?_ (fun id f hf => (mem_completion hf).2 ▸ hnamed)
  · by_cases hid : id = (a, b, side)
    · subst hid
      rw [completion_self]
      exact finished_finish_self hwaiting
    · rw [completion_of_ne hid, List.append_nil]
      exact congrArg Queue.finished (queues_finish_of_ne hid)
  · by_cases hid : id = (a, b, side)
    · rw [hid, completion_self]
      rfl
    · rw [completion_of_ne hid]
      exact Nat.zero_le _
  · rw [hnone (fun f hf => Finished.received_of_not_ok hf _),
      hnone (fun f hf => Finished.sent_of_not_ok hf)]
  · intro c d hcd
    change Function.update w.broken (a, b) true (c, d) = false at hcd
    have hne : (c, d) ≠ (a, b) := by
      intro heq
      rw [heq, Function.update_self] at hcd
      cases hcd
    rw [Function.update_of_ne hne] at hcd
    refine ⟨hcd, fun side' f hf => ?_⟩
    obtain ⟨⟨⟩, _⟩ := mem_completion hf
    exact absurd rfl hne
  · intro c d side' f hf hsucceeded
    cases (hfails _ f hf).symm.trans hsucceeded

/-- A message arrives, and the request that has carried it completes. -/
theorem message (h : w.Linked order) (w₀ : Fabric N) {w₁ : Fabric N} {bytes : List UInt8}
    {len : Nat} {imm_data : Option UInt32} {wc : IbvWc} (hab : w.broken (a, b) = false)
    (hba : w.broken (b, a) = false) (hwaiting : (w.queues (a, b, .send)).waiting = r :: rest)
    (hqueues : w₀.queues = w.queues) (hbroken : w₀.broken = w.broken)
    (harrive : w₀.arrive (order b) a b bytes len (imm_data.map (wire (order a))) = some w₁)
    (hok : wc.error = none) (hnamed : wc.wr_id = r.posted.wr_id)
    (hmessage : r.wr.message payload = some ⟨bytes, len, imm_data⟩) :
    (w₁.finish (a, b, .send) wc payload).Linked order := by
  obtain ⟨r₂, rest₂, host, hreceiver, _, rfl⟩ := arrive_spec harrive
  have hsides := send_ne_receive a b b a
  have hothers : ∀ (wc' : IbvWc) (id : QueueId N), id ≠ (b, a, .receive) →
      ((w₀.setHost b host).finish (b, a, .receive) wc' bytes).queues id = w.queues id := by
    intro wc' id hid
    rw [queues_finish_of_ne hid, queues_setHost, hqueues]
  let taken : Finished :=
    ⟨r₂, ⟨r₂.posted.wr_id, none, (imm_data.map (wire (order a))).map (order b).ofBytes, len⟩, bytes,
      false⟩
  have htaken : taken.received (order b) = some ⟨bytes, len, imm_data⟩ := by
    cases imm_data with
    | none => rfl
    | some imm_data =>
      exact congrArg (fun imm_data => some (Message.mk bytes len (some imm_data)))
        (ByteOrder.from_be_to_be (order a) (order b) imm_data)
  have hsent : Finished.sent ⟨r, wc, payload, false⟩ = some ⟨bytes, len, imm_data⟩ :=
    (if_pos (congrArg Option.isNone hok)).trans hmessage
  refine h.transfer ⟨r, wc, payload, false⟩ [taken] hab hba hbroken ?_ ?_ ?_ (Nat.le_refl 1)
    ⟨congrArg Option.isNone hok, hnamed⟩ (fun f hf => List.mem_singleton.mp hf ▸ ⟨rfl, rfl⟩) ?_
  · rw [finished_finish_self (by rw [hothers _ _ hsides]; exact hwaiting), hothers _ _ hsides]
  · have hfilled : ((w₀.setHost b host).queues (b, a, .receive)).waiting = r₂ :: rest₂ :=
      hreceiver
    rw [queues_finish_of_ne hsides.symm, finished_finish_self hfilled, queues_setHost, hqueues]
  · intro id hid hid'
    rw [queues_finish_of_ne hid, hothers _ _ hid']
  · rw [List.filterMap_cons_some htaken, List.filterMap_cons_some hsent]
    rfl

/-- A request that needs none of the receiver completes. -/
theorem silent (h : w.Linked order) {host : Host} {wc : IbvWc} (c : N)
    (hab : w.broken (a, b) = false) (hba : w.broken (b, a) = false)
    (hwaiting : (w.queues (a, b, .send)).waiting = r :: rest) (hok : wc.error = none)
    (hnamed : wc.wr_id = r.posted.wr_id) (hmessage : r.wr.message payload = none) :
    ((w.setHost c host).finish (a, b, .send) wc payload).Linked order := by
  have hsent : Finished.sent ⟨r, wc, payload, false⟩ = none :=
    (if_pos (congrArg Option.isNone hok)).trans hmessage
  refine h.transfer ⟨r, wc, payload, false⟩ [] hab hba rfl (finished_finish_self hwaiting) ?_
    (fun id hid _ => queues_finish_of_ne hid) (Nat.zero_le 1) ⟨congrArg Option.isNone hok, hnamed⟩
    (fun f hf => by cases hf) ?_
  · rw [queues_finish_of_ne (send_ne_receive a b b a).symm, List.append_nil]
    rfl
  · rw [List.filterMap_cons_none hsent]
    rfl

theorem carries (h : w.Linked order) (hab : w.broken (a, b) = false)
    (hba : w.broken (b, a) = false) (hwaiting : (w.queues (a, b, .send)).waiting = r :: rest)
    (hcarries : Carries order w a b r w') : w'.Linked order := by
  cases hcarries with
  | send wr send_wr hposted hkind _ harrive =>
    exact h.message w hab hba hwaiting rfl rfl harrive rfl (by rw [hposted]; rfl)
      (by rw [hkind]; rfl)
  | write wr send_wr hposted hkind _ hunannounced _ _ =>
    exact h.silent b hab hba hwaiting rfl (by rw [hposted]; rfl)
      (by rw [hkind, WorkRequest.message, hunannounced]; rfl)
  | @announce wr imm_data send_wr payload host w₁ hposted hkind _ hannounced _ _ harrive =>
    have hmessage : r.wr.message payload = some ⟨[], payload.length, some imm_data⟩ := by
      rw [hkind, WorkRequest.message, hannounced]
      rfl
    exact h.message (w.setHost b host) hab hba hwaiting rfl rfl harrive rfl
      (by rw [hposted]; rfl) hmessage
  | read wr send_wr hposted hkind _ _ _ _ =>
    exact h.silent a hab hba hwaiting rfl (by rw [hposted]; rfl) (by rw [hkind]; rfl)

section Program

variable [Fintype N]

theorem step (hinv : w.Inv once order) (h : w.Linked order) {e : FabricEvent N}
    (hstep : step once order w e = some w') : w'.Linked order := by
  cases e with
  | register a mr access_flags =>
    obtain rfl := Option.some.inj hstep
    exact h.of_queues rfl (fun _ => rfl)
  | deregister a k =>
    obtain ⟨host, _, rfl⟩ := Option.map_eq_some_iff.mp hstep
    exact h.of_queues rfl (fun _ => rfl)
  | borrow a exclusive k data =>
    obtain ⟨host, _, rfl⟩ := Option.map_eq_some_iff.mp hstep
    exact h.of_queues rfl (fun _ => rfl)
  | give_back a i =>
    unfold Fabric.step at hstep
    dsimp only at hstep
    split_ifs at hstep
    obtain rfl := Option.some.inj hstep
    exact h.of_queues rfl (fun _ => rfl)
  | store a x v =>
    obtain ⟨host, _, rfl⟩ := Option.map_eq_some_iff.mp hstep
    exact h.of_queues rfl (fun _ => rfl)
  | post a b verb elements wr_id errno =>
    rcases post_spec hstep with rfl | ⟨r, _, _, _, _, _, rfl⟩
    · exact h
    · refine h.of_queues rfl (fun id => ?_)
      by_cases hid : id = (a, b, verb.queue)
      · subst hid
        rw [queues_setQueue_self]
        rfl
      · rw [queues_setQueue_of_ne hid]
  | poll a b side k =>
    obtain rfl := Option.some.inj hstep
    exact h.poll (a, b, side) k
  | transfer a b =>
    have hformed : ∀ r ∈ (w.queues (a, b, .send)).waiting, r.Formed (order a) .send :=
      fun r hr => (hinv.queues (a, b, .send)).formed r (Queue.mem_requests_of_waiting hr)
    obtain ⟨hab, hba, r, rest, hwaiting, hcarries⟩ := transfer_spec hformed hstep
    exact h.carries hab hba hwaiting hcarries
  | dma a cause x v =>
    unfold Fabric.step at hstep
    dsimp only at hstep
    split_ifs at hstep
    obtain rfl := Option.some.inj hstep
    exact h.of_queues rfl (fun _ => rfl)
  | fail a b side status vendor_err =>
    obtain ⟨r, rest, hwaiting, _, rfl⟩ := fail_spec hstep
    exact h.fail hwaiting rfl rfl

end Program

end Linked

section Runs

variable [Fintype N] {access : N × N → AccessFlags} {memory : N → Nat → UInt8}
  {es : List (FabricEvent N)}

end Runs

end Fabric

end IbverbsRs.Ibverbs
