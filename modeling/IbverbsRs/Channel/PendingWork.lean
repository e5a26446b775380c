import IbverbsRs.Channel.CachedCompletionQueue

namespace IbverbsRs

open Ibverbs

/-- The handle of a posted request; `status` is filled when its completion is retrieved. -/
structure PendingWork where
  wr_id : UInt64
  status : Option WorkResult

namespace PendingWork

def new (wr_id : UInt64) : PendingWork := ⟨wr_id, none⟩

/-- One poll: the status, else the cache, else the driver and the cache again. The answer
`num_polled` of the driver matters only if the driver is asked. -/
def poll (self : PendingWork) (cq : CachedCompletionQueue) (poll_buff : Nat) (num_polled : Int) :
    Option (Option TransportResult × PendingWork × CachedCompletionQueue) :=
  match self.status with
  | some res => some (some (intoTransport res), self, cq)
  | none =>
    match cq.consume self.wr_id with
    | (some wc, cq) => some (some (intoTransport wc.result), ⟨self.wr_id, some wc.result⟩, cq)
    | (none, _) =>
      match cq.update poll_buff num_polled with
      | none => none
      | some (.error e, cq) => some (some (.error (.IbvError e)), self, cq)
      | some (.ok polled_num, cq) =>
        if polled_num > 0 then
          match cq.consume self.wr_id with
          | (some wc, cq) => some (some (intoTransport wc.result), ⟨self.wr_id, some wc.result⟩, cq)
          | (none, _) => some (none, self, cq)
        else some (none, self, cq)

/-- Whether the request `v` is this one and its completion has been retrieved. -/
def done (self : PendingWork) (v : UInt64) : Nat :=
  if self.status.isSome ∧ self.wr_id = v then 1 else 0

/-- Everything a poll can do. Only the last case asks for a driver that fails. -/
inductive Poll (self : PendingWork) (cq : CachedCompletionQueue) (poll_buff : Nat)
    (num_polled : Int) : Option TransportResult → PendingWork → CachedCompletionQueue → Prop
  | known {res : WorkResult} (status : self.status = some res) :
      Poll self cq poll_buff num_polled (some (intoTransport res)) self cq
  | found {wc : WorkCompletion} {cq' : CachedCompletionQueue} (status : self.status = none)
      (refill : cq' = cq ∨ ∃ n, cq.update poll_buff num_polled = some (.ok n, cq'))
      (cached : cq'.cache self.wr_id = some wc) :
      Poll self cq poll_buff num_polled (some (intoTransport wc.result))
        ⟨self.wr_id, some wc.result⟩ (cq'.consume self.wr_id).2
  | pending {n : Nat} {cq' : CachedCompletionQueue} (status : self.status = none)
      (refill : cq.update poll_buff num_polled = some (.ok n, cq')) :
      Poll self cq poll_buff num_polled none self cq'
  | failed {e : IbvError} (status : self.status = none) (uncached : cq.cache self.wr_id = none)
      (negative : num_polled < 0) :
      Poll self cq poll_buff num_polled (some (.error (.IbvError e))) self cq

theorem Poll.wr_id {self self' : PendingWork} {cq cq' : CachedCompletionQueue} {poll_buff : Nat}
    {num_polled : Int} {r : Option TransportResult}
    (h : Poll self cq poll_buff num_polled r self' cq') : self'.wr_id = self.wr_id := by
  cases h <;> rfl

theorem Poll.keeps {self self' : PendingWork} {cq cq' : CachedCompletionQueue} {poll_buff : Nat}
    {num_polled : Int} {r : Option TransportResult} {res : WorkResult}
    (h : Poll self cq poll_buff num_polled r self' cq') (hres : self.status = some res) :
    self'.status = some res := by
  cases h with
  | known _ => exact hres
  | found status _ _ => simp [status] at hres
  | pending _ _ => exact hres
  | failed _ _ _ => exact hres

theorem Poll.stable {self self' : PendingWork} {cq cq' : CachedCompletionQueue} {poll_buff : Nat}
    {num_polled : Int} {r : Option TransportResult} {res : WorkResult}
    (h : Poll self cq poll_buff num_polled r self' cq') (hres : self.status = some res) :
    r = some (intoTransport res) := by
  cases h with
  | known status =>
    obtain rfl := Option.some.inj (status.symm.trans hres)
    rfl
  | found status _ _ => simp [status] at hres
  | pending status _ => simp [status] at hres
  | failed status _ _ => simp [status] at hres

theorem Poll.answer {self self' : PendingWork} {cq cq' : CachedCompletionQueue} {poll_buff : Nat}
    {num_polled : Int} {r : TransportResult}
    (h : Poll self cq poll_buff num_polled (some r) self' cq') :
    (∃ e, r = .error (.IbvError e)) ∨
      ∃ res, self'.status = some res ∧ r = intoTransport res := by
  cases h with
  | known status => exact Or.inr ⟨_, status, rfl⟩
  | found _ _ _ => exact Or.inr ⟨_, rfl, rfl⟩
  | failed _ _ _ => exact Or.inl ⟨_, rfl⟩

/-- A poll moves completions from the queue to the cache and from there to the status, and
loses none. -/
theorem Poll.total {self self' : PendingWork} {cq cq' : CachedCompletionQueue} {poll_buff : Nat}
    {num_polled : Int} {r : Option TransportResult}
    (h : Poll self cq poll_buff num_polled r self' cq')
    (hone : ∀ v, cq.queued v + cq.cached v ≤ 1) (v : UInt64) :
    cq'.queued v + cq'.cached v + self'.done v = cq.queued v + cq.cached v + self.done v := by
  cases h with
  | known status => rfl
  | failed _ _ _ => rfl
  | pending status refill => rw [CachedCompletionQueue.update_total refill (hone v)]
  | @found wc cq₁ status refill cached =>
    have htotal : cq₁.queued v + cq₁.cached v = cq.queued v + cq.cached v := by
      rcases refill with rfl | ⟨n, hupdate⟩
      · rfl
      · exact CachedCompletionQueue.update_total hupdate (hone v)
    rw [CachedCompletionQueue.queued_consume, CachedCompletionQueue.cached_consume, ← htotal]
    by_cases hv : v = self.wr_id
    · subst hv
      simp [done, status, CachedCompletionQueue.cached, cached]
    · simp [done, status, hv, Ne.symm hv]

theorem poll_spec {self self' : PendingWork} {cq cq' : CachedCompletionQueue} {poll_buff : Nat}
    {num_polled : Int} {r : Option TransportResult}
    (h : self.poll cq poll_buff num_polled = some (r, self', cq')) :
    Poll self cq poll_buff num_polled r self' cq' := by
  unfold poll at h
  cases hstatus : self.status with
  | some res =>
    rw [hstatus] at h
    obtain ⟨rfl, rfl, rfl⟩ : some (intoTransport res) = r ∧ self = self' ∧ cq = cq' := by
      simpa using h
    exact .known hstatus
  | none =>
    rw [hstatus] at h
    cases hcache : cq.cache self.wr_id with
    | some wc =>
      simp only [CachedCompletionQueue.consume, hcache] at h
      obtain ⟨rfl, rfl, rfl⟩ := by simpa using h
      exact .found hstatus (Or.inl rfl) hcache
    | none =>
      simp only [CachedCompletionQueue.consume, hcache] at h
      split at h
      · cases h
      · rename_i e cq₁ hupdate
        obtain ⟨rfl, rfl, rfl⟩ := by simpa using h
        rcases CachedCompletionQueue.update_spec hupdate with ⟨hneg, _, rfl⟩ | ⟨_, _, hr, _⟩
        · exact .failed hstatus hcache hneg
        · cases hr
      · rename_i n cq₁ hupdate
        by_cases hn : n > 0
        · rw [if_pos hn] at h
          cases hcache' : cq₁.cache self.wr_id with
          | some wc =>
            simp only [hcache'] at h
            obtain ⟨rfl, rfl, rfl⟩ := by simpa using h
            exact .found hstatus (Or.inr ⟨n, hupdate⟩) hcache'
          | none =>
            simp only [hcache'] at h
            obtain ⟨rfl, rfl, rfl⟩ := by simpa using h
            exact .pending hstatus hupdate
        · rw [if_neg hn] at h
          obtain ⟨rfl, rfl, rfl⟩ := by simpa using h
          exact .pending hstatus hupdate

end PendingWork

/-- The device's side of a channel: the requests in flight, and for the specification
everything it has completed and how often it was asked to take a request. -/
structure QueuePair where
  outstanding : List UInt64
  produced : List WorkCompletion
  posts : Nat

/-- A connected channel; `poll_buff` is the length of its shared poll buffer. -/
structure Channel where
  qp : QueuePair
  cq : CachedCompletionQueue
  poll_buff : Nat
  next_wr_id : UInt64

/-- The verbs `post_*` can be called with; they differ in the text of their error. -/
inductive OpKind
  | send
  | receive
  | write
  | read
  deriving DecidableEq, Repr

namespace Channel

/-- `PreparedChannel::handshake`. -/
def new (min_cq_entries : Nat) : Channel :=
  ⟨⟨[], [], 0⟩, CachedCompletionQueue.wrap_cq ⟨[]⟩, min_cq_entries, 0⟩

def get_and_advance_wr_id (self : Channel) : UInt64 × Channel :=
  (self.next_wr_id, { self with next_wr_id := self.next_wr_id + 1 })

/-- The common `*_unpolled`: the id is spent whether or not the driver, which answers
`errno`, accepts the request. -/
def post_unpolled (msg : String) (self : Channel) (errno : Option Nat) :
    Except IbvError PendingWork × Channel :=
  let (wr_id, self) := self.get_and_advance_wr_id
  match errno with
  | some errno => (.error (.from_errno_with_msg errno msg),
      { self with qp := { self.qp with posts := self.qp.posts + 1 } })
  | none => (.ok (PendingWork.new wr_id),
      { self with qp := { self.qp with
          outstanding := self.qp.outstanding ++ [wr_id]
          posts := self.qp.posts + 1 } })

def send_unpolled := post_unpolled "Failed to post send work request"

def receive_unpolled := post_unpolled "Failed to post receive work request"

def write_unpolled := post_unpolled "Failed to post write work request"

def read_unpolled := post_unpolled "Failed to post read work request"

def unpolled : OpKind → Channel → Option Nat → Except IbvError PendingWork × Channel
  | .send => send_unpolled
  | .receive => receive_unpolled
  | .write => write_unpolled
  | .read => read_unpolled

/-- The device finishes a request it has in flight and reports it in the queue. -/
def complete (self : Channel) (wc : WorkCompletion) : Option Channel :=
  if wc.wr_id ∈ self.qp.outstanding then
    some { self with
      qp := { self.qp with
        outstanding := self.qp.outstanding.erase wc.wr_id
        produced := self.qp.produced ++ [wc] }
      cq := { self.cq with cq := ⟨self.cq.cq.entries ++ [wc]⟩ } }
  else none

/-- The channel after a request was rejected, and after one was accepted. -/
def spent (self : Channel) : Channel :=
  { self with
    qp := { self.qp with posts := self.qp.posts + 1 }
    next_wr_id := self.next_wr_id + 1 }

def accepted (self : Channel) : Channel :=
  { self.spent with
    qp := { self.spent.qp with outstanding := self.qp.outstanding ++ [self.next_wr_id] } }

/-- The four verbs differ only in the error they return. -/
theorem unpolled_spec (kind : OpKind) (self : Channel) (errno : Option Nat) :
    (∃ e, self.unpolled kind errno = (.error e, self.spent)) ∨
      self.unpolled kind errno = (.ok ⟨self.next_wr_id, none⟩, self.accepted) := by
  cases errno with
  | some errno => cases kind <;> exact Or.inl ⟨_, rfl⟩
  | none => cases kind <;> exact Or.inr rfl

end Channel

end IbverbsRs
