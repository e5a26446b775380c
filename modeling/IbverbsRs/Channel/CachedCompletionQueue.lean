import IbverbsRs.Ibverbs.CompletionQueue

namespace IbverbsRs

open Ibverbs

/-- A completion queue with a cache for completions that were polled by somebody else. -/
structure CachedCompletionQueue where
  cq : CompletionQueue
  cache : UInt64 → Option WorkCompletion

namespace CachedCompletionQueue

def wrap_cq (cq : CompletionQueue) : CachedCompletionQueue := ⟨cq, fun _ => none⟩

def insert (cache : UInt64 → Option WorkCompletion) (wc : WorkCompletion) :
    UInt64 → Option WorkCompletion := Function.update cache wc.wr_id (some wc)

/-- Moves what the driver hands out into the cache and returns how many these were. -/
def update (self : CachedCompletionQueue) (completions : Nat) (num_polled : Int) :
    Option (Except IbvError Nat × CachedCompletionQueue) :=
  match self.cq.poll completions num_polled with
  | none => none
  | some (.error e, cq) => some (.error e, { self with cq := cq })
  | some (.ok polled_wcs, cq) =>
    some (.ok polled_wcs.length, ⟨cq, polled_wcs.foldl insert self.cache⟩)

/-- Takes the completion of a request out of the cache. -/
def consume (self : CachedCompletionQueue) (wr_id : UInt64) :
    Option WorkCompletion × CachedCompletionQueue :=
  (self.cache wr_id, { self with cache := Function.update self.cache wr_id none })

/-- How many completions of a request wait in the queue. -/
def queued (self : CachedCompletionQueue) (w : UInt64) : Nat :=
  (self.cq.entries.map WorkCompletion.wr_id).count w

def cached (self : CachedCompletionQueue) (w : UInt64) : Nat :=
  if (self.cache w).isSome then 1 else 0

theorem queued_consume (self : CachedCompletionQueue) (w v : UInt64) :
    (self.consume w).2.queued v = self.queued v := rfl

theorem cached_consume (self : CachedCompletionQueue) (w v : UInt64) :
    (self.consume w).2.cached v = if v = w then 0 else self.cached v := by
  by_cases hv : v = w
  · simp [consume, cached, hv]
  · simp [consume, cached, hv]

theorem foldl_insert_of_not_mem {wcs : List WorkCompletion}
    {cache : UInt64 → Option WorkCompletion} {w : UInt64}
    (h : w ∉ wcs.map WorkCompletion.wr_id) : wcs.foldl insert cache w = cache w := by
  induction wcs generalizing cache with
  | nil => rfl
  | cons wc wcs ih =>
    simp only [List.map_cons, List.mem_cons, not_or] at h
    rw [List.foldl_cons, ih h.2, insert, Function.update_of_ne h.1]

/-- What a refill puts into the cache comes from the polled completions. -/
theorem foldl_insert_eq_some {wcs : List WorkCompletion}
    {cache : UInt64 → Option WorkCompletion} {w : UInt64} {wc : WorkCompletion}
    (h : wcs.foldl insert cache w = some wc) :
    (wc ∈ wcs ∧ wc.wr_id = w) ∨ cache w = some wc := by
  induction wcs generalizing cache with
  | nil => exact Or.inr h
  | cons wc' wcs ih =>
    rcases ih h with ⟨hmem, hid⟩ | hcache
    · exact Or.inl ⟨List.mem_cons_of_mem _ hmem, hid⟩
    · by_cases hw : w = wc'.wr_id
      · subst hw
        rw [insert, Function.update_self] at hcache
        obtain rfl := Option.some.inj hcache
        exact Or.inl ⟨List.mem_cons_self, rfl⟩
      · rw [insert, Function.update_of_ne hw] at hcache
        exact Or.inr hcache

theorem foldl_insert_isSome {wcs : List WorkCompletion}
    {cache : UInt64 → Option WorkCompletion} {w : UInt64}
    (h : w ∈ wcs.map WorkCompletion.wr_id ∨ (cache w).isSome) :
    (wcs.foldl insert cache w).isSome := by
  induction wcs generalizing cache with
  | nil => simpa using h
  | cons wc wcs ih =>
    apply ih
    by_cases hw : w = wc.wr_id
    · right
      rw [hw, insert, Function.update_self]
      rfl
    · simp only [List.map_cons, List.mem_cons, hw, false_or] at h
      rwa [insert, Function.update_of_ne hw]

/-- A completion that is the only one of its request is found after the refill. -/
theorem foldl_insert_eq {wcs : List WorkCompletion} {cache : UInt64 → Option WorkCompletion}
    {wc : WorkCompletion} (hmem : wc ∈ wcs)
    (hone : ∀ other ∈ wcs, other.wr_id = wc.wr_id → other = wc) :
    wcs.foldl insert cache wc.wr_id = some wc := by
  induction wcs generalizing cache with
  | nil => cases hmem
  | cons first wcs ih =>
    rw [List.foldl_cons]
    by_cases hlater : wc ∈ wcs
    · exact ih hlater (fun other hother => hone other (List.mem_cons_of_mem _ hother))
    · obtain rfl := (List.mem_cons.mp hmem).resolve_right hlater
      have habsent : wc.wr_id ∉ wcs.map WorkCompletion.wr_id := by
        intro hid
        obtain ⟨other, hother, hsame⟩ := List.mem_map.mp hid
        exact hlater (hone other (List.mem_cons_of_mem _ hother) hsame ▸ hother)
      rw [foldl_insert_of_not_mem habsent, insert, Function.update_self]

/-- The driver hands out the `n` oldest completions. -/
theorem update_ok {self : CachedCompletionQueue} {completions n : Nat} (hslots : n ≤ completions)
    (hint : n ≤ 2147483647) (hthere : n ≤ self.cq.entries.length) :
    self.update completions n = some (.ok n,
      ⟨⟨self.cq.entries.drop n⟩, (self.cq.entries.take n).foldl insert self.cache⟩) := by
  have hpoll : self.cq.poll completions n =
      some (.ok (self.cq.entries.take n), ⟨self.cq.entries.drop n⟩) := by
    unfold CompletionQueue.poll
    rw [if_neg (by omega), if_pos (by rw [Int.toNat_natCast]; omega), Int.toNat_natCast]
  unfold update
  rw [hpoll]
  simp only [List.length_take, Nat.min_eq_left hthere]

/-- As long as no request has two completions, an update loses and duplicates none. -/
theorem update_spec {self self' : CachedCompletionQueue} {completions : Nat} {num_polled : Int}
    {r : Except IbvError Nat} (h : self.update completions num_polled = some (r, self')) :
    (num_polled < 0 ∧ (∃ e, r = .error e) ∧ self' = self) ∨
      (¬ num_polled < 0 ∧ ∃ wcs, r = .ok wcs.length ∧ self.cq.entries = wcs ++ self'.cq.entries ∧
        self'.cache = wcs.foldl insert self.cache) := by
  unfold update at h
  split at h
  · cases h
  · rename_i e cq hpoll
    obtain ⟨rfl, rfl⟩ := Prod.mk.inj (Option.some.inj h)
    rcases CompletionQueue.poll_spec hpoll with ⟨hneg, _, rfl⟩ | ⟨_, wcs, hr, _⟩
    · exact Or.inl ⟨hneg, ⟨e, rfl⟩, rfl⟩
    · cases hr
  · rename_i wcs cq hpoll
    obtain ⟨rfl, rfl⟩ := Prod.mk.inj (Option.some.inj h)
    rcases CompletionQueue.poll_spec hpoll with ⟨_, ⟨e, he⟩, _⟩ | ⟨hneg, wcs', hr, hentries⟩
    · cases he
    · obtain rfl := Except.ok.inj hr
      exact Or.inr ⟨hneg, wcs, rfl, hentries, rfl⟩

theorem update_total {self self' : CachedCompletionQueue} {completions : Nat} {num_polled : Int}
    {r : Except IbvError Nat} (h : self.update completions num_polled = some (r, self'))
    {w : UInt64} (hone : self.queued w + self.cached w ≤ 1) :
    self'.queued w + self'.cached w = self.queued w + self.cached w := by
  rcases update_spec h with ⟨_, _, rfl⟩ | ⟨_, wcs, _, hentries, hcache⟩
  · rfl
  · simp only [queued, cached, hentries, hcache, List.map_append, List.count_append] at hone ⊢
    by_cases hw : w ∈ wcs.map WorkCompletion.wr_id
    · have hpos := List.count_pos_iff.mpr hw
      rw [if_pos (foldl_insert_isSome (Or.inl hw))]
      split_ifs at hone ⊢ <;> omega
    · rw [foldl_insert_of_not_mem hw, List.count_eq_zero_of_not_mem hw]
      omega

end CachedCompletionQueue

end IbverbsRs
