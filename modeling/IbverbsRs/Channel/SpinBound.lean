import IbverbsRs.Channel.PendingWork

namespace IbverbsRs

open Ibverbs

/-- The poll buffer of a channel: `CompletionQueue::create` refuses more entries than an `i32`
counts, and `handshake` allocates a slot for each entry. -/
structure PollBuffer where
  slots : Nat
  fits : slots ≤ 2147483647

def PollBuffer.handshake (min_capacity : UInt32) : Option PollBuffer :=
  if h : min_capacity.toNat ≤ 2147483647 then some ⟨min_capacity.toNat, h⟩ else none

/-- A queue with room for a completion gives a buffer with room for one. -/
theorem PollBuffer.handshake_pos {min_capacity : UInt32} {B : PollBuffer}
    (h : PollBuffer.handshake min_capacity = some B) (hpos : 0 < min_capacity.toNat) :
    0 < B.slots := by
  unfold PollBuffer.handshake at h
  split_ifs at h
  rwa [← Option.some.inj h]

namespace CachedCompletionQueue

/-- The device appends completions to the queue. -/
def append (self : CachedCompletionQueue) (wcs : List WorkCompletion) : CachedCompletionQueue :=
  { self with cq := ⟨self.cq.entries ++ wcs⟩ }

/-- The answer of a driver that always moves as many completions as fit and are there. -/
def prompt (self : CachedCompletionQueue) (B : PollBuffer) : Nat :=
  min B.slots self.cq.entries.length

/-- The queue and the cache after such an answer. -/
def refilled (self : CachedCompletionQueue) (B : PollBuffer) : CachedCompletionQueue :=
  ⟨⟨self.cq.entries.drop (self.prompt B)⟩,
    (self.cq.entries.take (self.prompt B)).foldl insert self.cache⟩

/-- Nothing is lost between the queue and the batch that is moved. -/
theorem batch_append_refilled (self : CachedCompletionQueue) (B : PollBuffer) :
    self.cq.entries.take (self.prompt B) ++ (self.refilled B).cq.entries = self.cq.entries :=
  List.take_append_drop _ _

theorem update_prompt (self : CachedCompletionQueue) (B : PollBuffer) :
    self.update B.slots (self.prompt B) = some (.ok (self.prompt B), self.refilled B) := by
  have hslots : self.prompt B ≤ B.slots := Nat.min_le_left _ _
  exact update_ok hslots (Nat.le_trans hslots B.fits) (Nat.min_le_right _ _)

end CachedCompletionQueue

namespace PendingWork

/-- The loop of `spin_poll`, with the number of its calls to `poll`. Before each call the device
appends the completions of one round; `none` is a loop that is still running after the last. -/
def spin_poll (B : PollBuffer) : List (List WorkCompletion) → PendingWork → CachedCompletionQueue →
    Option (Nat × TransportResult × PendingWork × CachedCompletionQueue)
  | [], _, _ => none
  | appended :: rounds, self, cq =>
    let cq := cq.append appended
    match self.poll cq B.slots (cq.prompt B) with
    | none => none
    | some (none, self, cq) =>
      (spin_poll B rounds self cq).map (fun (calls, out) => (calls + 1, out))
    | some (some res, self, cq) => some (1, res, self, cq)

/-- `Drop` spins and only logs an error. -/
def drop (B : PollBuffer) (rounds : List (List WorkCompletion)) (self : PendingWork)
    (cq : CachedCompletionQueue) : Option (Nat × CachedCompletionQueue) :=
  (spin_poll B rounds self cq).map (fun (calls, _, _, cq) => (calls, cq))

theorem poll_cached {cq : CachedCompletionQueue} {w : UInt64} {wc : WorkCompletion}
    (h : cq.cache w = some wc) (poll_buff : Nat) (num_polled : Int) :
    (new w).poll cq poll_buff num_polled =
      some (some (intoTransport wc.result), ⟨w, some wc.result⟩, (cq.consume w).2) := by
  unfold poll new
  simp only [CachedCompletionQueue.consume, h]

/-- A poll of a prompt driver either finds the completion among those it moved, or goes on. -/
theorem poll_prompt {cq : CachedCompletionQueue} {w : UInt64} (h : cq.cache w = none)
    {B : PollBuffer} (hpos : 0 < cq.prompt B) :
    (new w).poll cq B.slots (cq.prompt B) =
      match (cq.refilled B).cache w with
      | some wc => some (some (intoTransport wc.result), ⟨w, some wc.result⟩,
          ((cq.refilled B).consume w).2)
      | none => some (none, new w, cq.refilled B) := by
  unfold poll new
  simp only [CachedCompletionQueue.consume, h, CachedCompletionQueue.update_prompt, gt_iff_lt, hpos,
    if_true]
  cases (cq.refilled B).cache w <;> rfl

/-- The completion `wc` stands at position `p` of the queue. It is the only one of its request, now
and among those that are still appended. -/
structure Awaits (cq : CachedCompletionQueue) (rounds : List (List WorkCompletion))
    (wc : WorkCompletion) (p : Nat) : Prop where
  uncached : cq.cache wc.wr_id = none
  here : cq.cq.entries[p]? = some wc
  once : ∀ (j : Nat) (other : WorkCompletion),
    (cq.cq.entries ++ rounds.flatten)[j]? = some other → other.wr_id = wc.wr_id → j = p

namespace Awaits

variable {cq : CachedCompletionQueue} {appended : List WorkCompletion}
  {rounds : List (List WorkCompletion)} {wc : WorkCompletion} {p : Nat} {B : PollBuffer}

theorem entry_at (h : Awaits cq (appended :: rounds) wc p) :
    (cq.append appended).cq.entries[p]? = some wc := by
  have hlt := (List.getElem?_eq_some_iff.mp h.here).1
  rw [CachedCompletionQueue.append, List.getElem?_append_left hlt]
  exact h.here

theorem only_at (h : Awaits cq (appended :: rounds) wc p) {j : Nat} {other : WorkCompletion}
    (hj : (cq.append appended).cq.entries[j]? = some other) (hid : other.wr_id = wc.wr_id) :
    j = p := by
  refine h.once j other ?_ hid
  rw [List.flatten_cons, ← List.append_assoc]
  exact (List.getElem?_append_left (List.getElem?_eq_some_iff.mp hj).1).trans hj

theorem prompt_pos (h : Awaits cq (appended :: rounds) wc p) (hroom : 0 < B.slots) :
    0 < (cq.append appended).prompt B := by
  have hlt := (List.getElem?_eq_some_iff.mp h.entry_at).1
  unfold CachedCompletionQueue.prompt
  omega

/-- A completion within the first batch is in the cache after the refill. -/
theorem found (h : Awaits cq (appended :: rounds) wc p) (hp : p < B.slots) :
    wc ∈ (cq.append appended).cq.entries.take ((cq.append appended).prompt B) ∧
      ((cq.append appended).refilled B).cache wc.wr_id = some wc := by
  have hlt := (List.getElem?_eq_some_iff.mp h.entry_at).1
  have hbatch : p < (cq.append appended).prompt B := by
    unfold CachedCompletionQueue.prompt
    omega
  have hmem : wc ∈ (cq.append appended).cq.entries.take ((cq.append appended).prompt B) := by
    refine List.mem_iff_getElem?.mpr ⟨p, ?_⟩
    rw [List.getElem?_take_of_lt hbatch]
    exact h.entry_at
  refine ⟨hmem, CachedCompletionQueue.foldl_insert_eq hmem ?_⟩
  intro other hother hid
  obtain ⟨j, hj⟩ := List.mem_iff_getElem?.mp (List.mem_of_mem_take hother)
  obtain rfl := h.only_at hj hid
  exact Option.some.inj (hj.symm.trans h.entry_at)

/-- A full batch that does not reach the completion brings it closer by its size. -/
theorem next (h : Awaits cq (appended :: rounds) wc p) (hp : B.slots ≤ p) :
    Awaits ((cq.append appended).refilled B) rounds wc (p - B.slots) := by
  have hlt := (List.getElem?_eq_some_iff.mp h.entry_at).1
  have hfull : (cq.append appended).prompt B = B.slots := by
    unfold CachedCompletionQueue.prompt
    omega
  refine ⟨?_, ?_, ?_⟩
  · refine (CachedCompletionQueue.foldl_insert_of_not_mem ?_).trans h.uncached
    intro hmem
    obtain ⟨other, hother, hid⟩ := List.mem_map.mp hmem
    obtain ⟨j, hj⟩ := List.mem_iff_getElem?.mp hother
    rw [hfull] at hj
    have hjB : j < B.slots := by
      have hlen := (List.getElem?_eq_some_iff.mp hj).1
      rw [List.length_take] at hlen
      omega
    rw [List.getElem?_take_of_lt hjB] at hj
    have hjp := h.only_at hj hid
    omega
  · rw [CachedCompletionQueue.refilled, hfull, List.getElem?_drop, Nat.add_sub_cancel' hp]
    exact h.entry_at
  · intro j other hj hid
    rw [CachedCompletionQueue.refilled, hfull, ← List.drop_append_of_le_length (by omega),
      List.getElem?_drop] at hj
    have hjp := h.once (B.slots + j) other (by
      rw [List.flatten_cons, ← List.append_assoc]
      exact hj) hid
    omega

end Awaits

/-- After one call for each batch up to the completion the spin returns it. What the calls moved is
what stood at the head of the queue, and all of it but the own completion is in the cache. -/
theorem spin_poll_spec {B : PollBuffer} (hroom : 0 < B.slots) {wc : WorkCompletion}
    {rounds : List (List WorkCompletion)} {cq : CachedCompletionQueue} {p : Nat}
    (h : Awaits cq rounds wc p) (hrounds : p / B.slots < rounds.length) :
    ∃ cq' moved, spin_poll B rounds (new wc.wr_id) cq =
        some (p / B.slots + 1, intoTransport wc.result, ⟨wc.wr_id, some wc.result⟩, cq') ∧
      cq.cq.entries ++ (rounds.take (p / B.slots + 1)).flatten = moved ++ cq'.cq.entries ∧
      wc ∈ moved ∧ cq'.cache =
        Function.update (moved.foldl CachedCompletionQueue.insert cq.cache) wc.wr_id none := by
  induction rounds generalizing cq p with
  | nil => exact absurd hrounds (Nat.not_lt_zero _)
  | cons appended rounds ih =>
    have hpoll := poll_prompt (show (cq.append appended).cache wc.wr_id = none from h.uncached)
      (h.prompt_pos hroom)
    rw [spin_poll]
    dsimp only
    rw [hpoll]
    rcases Nat.lt_or_ge p B.slots with hnear | hfar
    · obtain ⟨hmem, hcache⟩ := h.found hnear
      rw [hcache, Nat.div_eq_of_lt hnear]
      refine ⟨_, (cq.append appended).cq.entries.take ((cq.append appended).prompt B), rfl, ?_,
        hmem, rfl⟩
      rw [List.take_succ_cons, List.take_zero, List.flatten_cons, List.flatten_nil, List.append_nil]
      exact ((cq.append appended).batch_append_refilled B).symm
    · have hnext := h.next hfar
      have hdiv : p / B.slots = (p - B.slots) / B.slots + 1 := Nat.div_eq_sub_div hroom hfar
      rw [List.length_cons, hdiv] at hrounds
      obtain ⟨cq', moved, hspin, hqueue, hmem, hcache⟩ := ih hnext (by omega)
      rw [hnext.uncached, hdiv]
      refine ⟨cq', (cq.append appended).cq.entries.take ((cq.append appended).prompt B) ++ moved,
        ?_, ?_, List.mem_append_right _ hmem, ?_⟩
      · dsimp only
        rw [hspin]
        rfl
      · have hsplit := (cq.append appended).batch_append_refilled B
        rw [List.take_succ_cons, List.flatten_cons, List.append_assoc (List.take _ _), ← hqueue,
          ← List.append_assoc, ← List.append_assoc, hsplit]
        rfl
      · rw [hcache, List.foldl_append]
        rfl

/-- What a spin moved is there for its own handle, without another look at the queue. -/
theorem poll_moved {cq' : CachedCompletionQueue} {cache : UInt64 → Option WorkCompletion}
    {moved : List WorkCompletion} {w : UInt64}
    (hcache : cq'.cache = Function.update (moved.foldl CachedCompletionQueue.insert cache) w none)
    {other : WorkCompletion} (hmem : other ∈ moved) (hother : other.wr_id ≠ w)
    (hone : ∀ o ∈ moved, o.wr_id = other.wr_id → o = other) (poll_buff : Nat) (num_polled : Int) :
    ∃ cq'', (new other.wr_id).poll cq' poll_buff num_polled =
      some (some (intoTransport other.result), ⟨other.wr_id, some other.result⟩, cq'') ∧
      cq''.cq = cq'.cq := by
  have hcached : cq'.cache other.wr_id = some other := by
    rw [hcache, Function.update_of_ne hother]
    exact CachedCompletionQueue.foldl_insert_eq hmem hone
  exact ⟨_, poll_cached hcached poll_buff num_polled, rfl⟩

/-- A spin on a cached completion takes one call, and one on a completion in the queue a call for
each batch up to it, whatever else is there or is appended; dropping the handle does the same. -/
theorem spin_gets_through {B : PollBuffer} (hroom : 0 < B.slots) (cq : CachedCompletionQueue) :
    (∀ w wc appended rounds, cq.cache w = some wc →
      ∃ cq', spin_poll B (appended :: rounds) (new w) cq =
          some (1, intoTransport wc.result, ⟨w, some wc.result⟩, cq') ∧
        drop B (appended :: rounds) (new w) cq = some (1, cq') ∧
        cq'.cq.entries = cq.cq.entries ++ appended) ∧
    ∀ wc p rounds, Awaits cq rounds wc p → p / B.slots < rounds.length →
      ∃ calls cq' moved, calls ≤ p / B.slots + 1 ∧
        spin_poll B rounds (new wc.wr_id) cq =
          some (calls, intoTransport wc.result, ⟨wc.wr_id, some wc.result⟩, cq') ∧
        drop B rounds (new wc.wr_id) cq = some (calls, cq') ∧
        cq.cq.entries ++ (rounds.take calls).flatten = moved ++ cq'.cq.entries ∧ wc ∈ moved ∧
        ∀ other ∈ moved, other.wr_id ≠ wc.wr_id →
          (∀ o ∈ moved, o.wr_id = other.wr_id → o = other) → ∀ num_polled,
          ∃ cq'', (new other.wr_id).poll cq' B.slots num_polled =
            some (some (intoTransport other.result), ⟨other.wr_id, some other.result⟩, cq'') ∧
            cq''.cq = cq'.cq := by
  constructor
  · intro w wc appended rounds h
    have hspin : spin_poll B (appended :: rounds) (new w) cq =
        some (1, intoTransport wc.result, ⟨w, some wc.result⟩,
          ((cq.append appended).consume w).2) := by
      rw [spin_poll]
      dsimp only
      rw [poll_cached (show (cq.append appended).cache w = some wc from h)]
    refine ⟨_, hspin, ?_, rfl⟩
    rw [drop, hspin]
    rfl
  · intro wc p rounds h hrounds
    obtain ⟨cq', moved, hspin, hqueue, hmem, hcache⟩ := spin_poll_spec hroom h hrounds
    refine ⟨_, cq', moved, Nat.le_refl _, hspin, ?_, hqueue, hmem, ?_⟩
    · rw [drop, hspin]
      rfl
    · intro other hother hne hone num_polled
      exact poll_moved hcache hother hne hone B.slots num_polled

/-- On a channel built for two completions, the third one in the queue is reached by the second
call. -/
theorem spin_gets_through_third : ∃ B calls cq', PollBuffer.handshake 2 = some B ∧ calls ≤ 2 ∧
    spin_poll B [[], [⟨8, .ok ⟨none, 0⟩⟩]] (new 7)
      ⟨⟨[⟨5, .ok ⟨none, 0⟩⟩, ⟨6, .ok ⟨none, 0⟩⟩, ⟨7, .ok ⟨none, 16⟩⟩]⟩, fun _ => none⟩ =
        some (calls, .ok ⟨none, 16⟩, ⟨7, some (.ok ⟨none, 16⟩)⟩, cq') := by
  have hawaits : Awaits
      ⟨⟨[⟨5, .ok ⟨none, 0⟩⟩, ⟨6, .ok ⟨none, 0⟩⟩, ⟨7, .ok ⟨none, 16⟩⟩]⟩, fun _ => none⟩
      [[], [⟨8, .ok ⟨none, 0⟩⟩]] ⟨7, .ok ⟨none, 16⟩⟩ 2 := by
    refine ⟨rfl, rfl, ?_⟩
    intro j other hj hid
    rcases j with _ | _ | _ | _ | j
    all_goals simp at hj
    all_goals subst hj
    all_goals simp_all
  have hbuilt : PollBuffer.handshake 2 = some ⟨2, by decide⟩ := rfl
  obtain ⟨calls, cq', _, hcalls, hspin, _⟩ :=
    (spin_gets_through (PollBuffer.handshake_pos hbuilt (by decide)) _).2 _ 2 _ hawaits (by decide)
  exact ⟨_, calls, cq', hbuilt, hcalls, hspin⟩

end PendingWork

end IbverbsRs
