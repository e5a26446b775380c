import IbverbsRs.Ibverbs.QueuePair.Transfer

namespace IbverbsRs.Ibverbs

open Framework Segment Cells Loans

namespace Host

/-- Peers may write to the byte, by a registration of now or of the past. -/
def Exposed (self : Host) (x : Nat) : Prop :=
  ∃ registration ∈ self.registrations, registration.exposes x

/-- No peer can write to the segments. -/
def Private (self : Host) (segs : List Segment) : Prop :=
  ∀ x, CoveredBy segs x → ¬ self.Exposed x

/-- The borrows of the elements of `r` have not ended. -/
def Borrows (self : Host) (r : Request) : Prop :=
  ∀ i ∈ r.elements, ∃ l, self.loans.lent i = some l

/-- The queue pair lets the peer in, and a registration lets it use the segment with this key,
unless there is nothing to use. -/
def Granted (self : Host) (access : AccessFlags) (flag rkey : UInt32) (target : Segment) : Prop :=
  access.allows flag = true ∧
    (target.length = 0 ∨ ∃ registration ∈ self.registrations, registration.alive = true ∧
      registration.mr.rkey = rkey ∧ registration.access.allows flag = true ∧
      target.Within registration.mr.segment)

/-- Borrows are separate, and the registration of each of them is alive. -/
structure Sound (host : Host) : Prop where
  separate : host.loans.Separate
  registered : ∀ i l, host.loans.lent i = some l →
    ∃ registration, host.registrations[l.borrowed.registration]? = some registration ∧
      registration.alive = true ∧ registration.mr = l.borrowed.mr

/-- Where a borrow has not ended, it is the one the element was made of. -/
def Made (self : Host) (r : Request) : Prop :=
  List.Forall₂ (fun i sge => ∀ l, self.loans.lent i = some l →
    l.exclusive = r.scatters ∧ l.borrowed.sge = sge) r.elements r.posted.sges

end Host

def Finished.ok (self : Finished) : Bool := self.wc.error.isNone

def WorkRequest.queue : WorkRequest → WorkQueue
  | .Receive _ => .receive
  | _ => .send

/-- The request has been posted as the source posts it. -/
structure Request.Formed (order : ByteOrder) (side : WorkQueue) (r : Request) : Prop where
  limit : r.wr.InLimit
  posted : ∃ wr_id, QueuePair.post order none r.wr wr_id = .ok r.posted
  side : r.wr.queue = side
  nodup : r.scatters = true → r.elements.Nodup

/-- What holds of one queue of a host. The last three say what the buffers hold, of requests that
wait, of sent ones and of received ones. -/
structure Queue.Inv (once : Bool) (order : ByteOrder) (side : WorkQueue) (host : Host)
    (q : Queue) : Prop where
  formed : ∀ r ∈ q.requests, r.Formed order side
  known : ∀ r ∈ q.requests, ∀ i ∈ r.elements, i < host.loans.length
  made : ∀ r ∈ q.requests, host.Made r
  borrowed : ∀ r ∈ q.unpolled, host.Borrows r
  frozen : ∀ r ∈ q.waiting, r.scatters = false → host.Private r.segments →
    gather host.memory r.segments = r.held
  carried : ∀ f ∈ q.finished, f.ok = true → f.request.scatters = false →
    host.Private f.request.segments → f.moved = f.request.held
  kept : once = true → ∀ f ∈ q.finished, f.ok = true → f.request.scatters = true →
    host.Borrows f.request → host.Private f.request.segments →
    (gather host.memory f.request.segments).take f.moved.length = f.moved

namespace Host

variable {host host' : Host} {r : Request} {names : List Nat} {x : Nat}

theorem Made.lends (h : host.Made r) (hborrows : host.Borrows r) :
    List.Forall₂ (fun i sge => ∃ l, host.loans.lent i = some l ∧ l.exclusive = r.scatters ∧
      l.borrowed.sge = sge) r.elements r.posted.sges := by
  unfold Made at h
  unfold Borrows at hborrows
  generalize r.posted.sges = sges at h ⊢
  generalize r.elements = elements at h hborrows ⊢
  induction h with
  | nil => exact .nil
  | cons hhead _ ih =>
    obtain ⟨l, hl⟩ := hborrows _ List.mem_cons_self
    exact .cons ⟨l, hl, hhead l hl⟩ (ih (fun i hi => hborrows i (List.mem_cons_of_mem _ hi)))

theorem Made.backs (h : host.Made r) (hborrows : host.Borrows r) :
    host.loans.Backs r.scatters r.elements r.segments := by
  unfold Backs Request.segments
  rw [List.forall₂_map_right_iff]
  refine (h.lends hborrows).imp (fun i sge hlent => ?_)
  obtain ⟨l, hl, hkind, hsge⟩ := hlent
  refine ⟨l, hl, hkind, ?_⟩
  rw [← hsge]
  exact new_unchecked_opens l.borrowed.mr l.borrowed.data

theorem Made.mono (h : host.Made r)
    (hkept : ∀ i ∈ r.elements, ∀ l, host'.loans.lent i = some l → host.loans.lent i = some l) :
    host'.Made r := by
  unfold Made at h ⊢
  generalize r.posted.sges = sges at h ⊢
  generalize r.elements = elements at h hkept
  induction h with
  | nil => exact .nil
  | cons hhead _ ih =>
    exact .cons (fun l hl => hhead l (hkept _ List.mem_cons_self l hl))
      (ih (fun i hi => hkept i (List.mem_cons_of_mem _ hi)))

theorem borrow_spec {exclusive : Bool} {k : Nat} {data : Slice}
    (h : host.borrow exclusive k data = some host') :
    ∃ registration l, host.registrations[k]? = some registration ∧ registration.alive = true ∧
      l.borrowed.registration = k ∧ l.borrowed.mr = registration.mr ∧ host.loans.Grants l ∧
      host' = { host with loans := host.loans ++ [some l] } := by
  obtain ⟨registration, hregistration, hgrant⟩ := Option.bind_eq_some_iff.mp h
  dsimp only at hgrant
  split_ifs at hgrant with hif
  exact ⟨registration, _, hregistration, hif.1, rfl, rfl, hif.2, (Option.some.inj hgrant).symm⟩

theorem fetch_spec {payload : List UInt8} (h : host.fetch r = some payload) :
    payload = gather host.memory r.segments := by
  unfold fetch at h
  split_ifs at h
  exact (Option.some.inj h).symm

theorem fill_spec {payload : List UInt8} (h : host.fill r payload = some host') :
    payload.length ≤ span r.segments ∧
      host' = { host with memory := scatter host.memory r.segments payload } := by
  unfold fill at h
  split_ifs at h with hif
  exact ⟨hif.1, (Option.some.inj h).symm⟩

theorem reached_iff {access : AccessFlags} {flag rkey : UInt32} {target : Segment} :
    host.reached access flag rkey target = true ↔ host.Granted access flag rkey target := by
  have hreaches : ∀ registration : Registration, registration.reaches flag rkey target = true ↔
      registration.alive = true ∧ registration.mr.rkey = rkey ∧
        registration.access.allows flag = true ∧ target.Within registration.mr.segment := by
    intro registration
    unfold Registration.reaches
    simp only [Bool.and_eq_true, beq_iff_eq, decide_eq_true_eq, and_assoc, eq_comm (a := rkey)]
  unfold reached Granted
  simp only [Bool.and_eq_true, Bool.or_eq_true, beq_iff_eq, List.any_eq_true, hreaches]

theorem Private.of_registrations {segs : List Segment} (h : host'.Private segs)
    (hsame : host'.registrations = host.registrations) : host.Private segs := by
  unfold Private Exposed at *
  rwa [hsame] at h

/-- Dropping a region leaves the others, and what it has exposed is still known. -/
theorem deregister_spec {k : Nat} (h : host.deregister k = some host') :
    host'.memory = host.memory ∧ host'.loans = host.loans ∧
      (∀ i l, host.loans.lent i = some l → l.borrowed.registration ≠ k) ∧
      (∀ j registration, host.registrations[j]? = some registration → j ≠ k →
        host'.registrations[j]? = some registration) ∧
      ∀ x, host.Exposed x → host'.Exposed x := by
  unfold deregister at h
  split_ifs at h with hunnamed
  obtain rfl := Option.some.inj h
  refine ⟨rfl, rfl, fun i l hl => hunnamed _ (mem_of_lent hl) l rfl, ?_, ?_⟩
  · intro j registration hj hne
    rw [List.getElem?_modify, hj]
    exact congrArg some (if_neg (Ne.symm hne))
  · rintro x ⟨registration, hmem, hexposes⟩
    obtain ⟨j, hj⟩ := List.mem_iff_getElem?.mp hmem
    by_cases hk : k = j
    · refine ⟨{ registration with alive := false }, List.mem_of_getElem? (i := j) ?_, hexposes⟩
      rw [List.getElem?_modify, hj]
      exact congrArg some (if_pos hk)
    · refine ⟨registration, List.mem_of_getElem? (i := j) ?_, hexposes⟩
      rw [List.getElem?_modify, hj]
      exact congrArg some (if_neg hk)

end Host

namespace Queue

variable {q : Queue} {r : Request} {rest : List Request} {f : Finished} {wc : IbvWc}
  {moved : List UInt8}

theorem mem_requests_of_finished (h : f ∈ q.finished) : f.request ∈ q.requests :=
  List.mem_append_left _ (List.mem_map_of_mem h)

theorem mem_requests_of_unpolled (h : r ∈ q.unpolled) : r ∈ q.requests := by
  rcases List.mem_append.mp h with hfinished | hwaiting
  · obtain ⟨f, hf, rfl⟩ := List.mem_map.mp hfinished
    exact mem_requests_of_finished (List.mem_filter.mp hf).1
  · exact List.mem_append_right _ hwaiting

theorem mem_unpolled_of_waiting (h : r ∈ q.waiting) : r ∈ q.unpolled := List.mem_append_right _ h

theorem mem_requests_of_waiting (h : r ∈ q.waiting) : r ∈ q.requests := List.mem_append_right _ h

theorem finish_eq (h : q.waiting = r :: rest) (wc : IbvWc) (moved : List UInt8) :
    q.finish wc moved = ⟨q.finished ++ [⟨r, wc, moved, false⟩], rest⟩ := by
  unfold finish
  rw [h]

theorem requests_finish (h : q.waiting = r :: rest) : (q.finish wc moved).requests = q.requests := by
  rw [finish_eq h]
  unfold requests
  rw [h, List.map_append, List.append_assoc]
  rfl

theorem unpolled_finish (h : q.waiting = r :: rest) : (q.finish wc moved).unpolled = q.unpolled := by
  rw [finish_eq h]
  unfold unpolled
  rw [h, List.filter_append, List.map_append, List.append_assoc]
  rfl

theorem requests_append (q : Queue) (r : Request) : (q.append r).requests = q.requests ++ [r] :=
  (List.append_assoc _ _ _).symm

theorem unpolled_append (q : Queue) (r : Request) : (q.append r).unpolled = q.unpolled ++ [r] :=
  (List.append_assoc _ _ _).symm

/-- A poll changes no finished request but for the mark. -/
theorem mem_poll {k : Nat} (h : f ∈ (q.poll k).finished) : ∃ f' ∈ q.finished,
    f.request = f'.request ∧ f.wc = f'.wc ∧ f.moved = f'.moved ∧
      (f.polled = false → f'.polled = false) := by
  obtain ⟨j, hj⟩ := List.mem_iff_getElem?.mp h
  rcases getElem?_modify_cases hj with ⟨_, f', hf', rfl⟩ | ⟨_, hf'⟩
  · exact ⟨f', List.mem_of_getElem? hf', rfl, rfl, rfl, fun hpolled => by cases hpolled⟩
  · exact ⟨f, List.mem_of_getElem? hf', rfl, rfl, rfl, id⟩

theorem requests_poll (q : Queue) (k : Nat) : (q.poll k).requests = q.requests := by
  have hrequests : (q.poll k).finished.map Finished.request = q.finished.map Finished.request :=
    map_modify_eq (g := fun f : Finished => { f with polled := true }) (fun _ => rfl) _ _
  unfold requests
  rw [hrequests]
  rfl

theorem mem_unpolled_poll {k : Nat} (h : r ∈ (q.poll k).unpolled) : r ∈ q.unpolled := by
  rcases List.mem_append.mp h with hfinished | hwaiting
  · obtain ⟨f, hf, rfl⟩ := List.mem_map.mp hfinished
    obtain ⟨hmem, hpolled⟩ := List.mem_filter.mp hf
    obtain ⟨f', hf', hrequest, _, _, hunpolled⟩ := mem_poll hmem
    have hpolled' : f'.polled = false := hunpolled (by simpa using hpolled)
    refine List.mem_append_left _ (List.mem_map.mpr ⟨f', ?_, hrequest.symm⟩)
    exact List.mem_filter.mpr ⟨hf', by rw [hpolled']; rfl⟩
  · exact List.mem_append_right _ hwaiting

end Queue

namespace Queue.Inv

variable {once : Bool} {order : ByteOrder} {side : WorkQueue} {host host' : Host} {q : Queue}
  {r : Request} {rest : List Request}

/-- The rule for a host that changes: names of borrows keep their meaning, what has been exposed
remains so, and the buffers that matter keep their bytes. -/
theorem of_host (h : q.Inv once order side host)
    (hlength : host.loans.length ≤ host'.loans.length)
    (hforward : ∀ r ∈ q.unpolled, ∀ i ∈ r.elements, ∀ l,
      host.loans.lent i = some l → host'.loans.lent i = some l)
    (hback : ∀ r ∈ q.requests, ∀ i ∈ r.elements, ∀ l,
      host'.loans.lent i = some l → host.loans.lent i = some l)
    (hexposed : ∀ x, host.Exposed x → host'.Exposed x)
    (hwaiting : ∀ r ∈ q.waiting, r.scatters = false → host.Private r.segments →
      gather host'.memory r.segments = gather host.memory r.segments)
    (hfinished : once = true → ∀ f ∈ q.finished, f.request.scatters = true →
      host.Borrows f.request → host.Private f.request.segments →
      gather host'.memory f.request.segments = gather host.memory f.request.segments) :
    q.Inv once order side host' := by
  have hprivate : ∀ segs, host'.Private segs → host.Private segs :=
    fun segs hp x hx hex => hp x hx (hexposed x hex)
  refine ⟨h.formed, ?_, ?_, ?_, ?_, ?_, ?_⟩
  · intro r hr i hi
    exact Nat.lt_of_lt_of_le (h.known r hr i hi) hlength
  · intro r hr
    exact (h.made r hr).mono (hback r hr)
  · intro r hr i hi
    obtain ⟨l, hl⟩ := h.borrowed r hr i hi
    exact ⟨l, hforward r hr i hi l hl⟩
  · intro r hr hgathers hp
    rw [hwaiting r hr hgathers (hprivate _ hp)]
    exact h.frozen r hr hgathers (hprivate _ hp)
  · intro f hf hok hgathers hp
    exact h.carried f hf hok hgathers (hprivate _ hp)
  · intro honce f hf hok hscatters hborrows hp
    have hborrows' : host.Borrows f.request := by
      intro i hi
      obtain ⟨l, hl⟩ := hborrows i hi
      exact ⟨l, hback _ (mem_requests_of_finished hf) i hi l hl⟩
    rw [hfinished honce f hf hscatters hborrows' (hprivate _ hp)]
    exact h.kept honce f hf hok hscatters hborrows' (hprivate _ hp)

theorem backs (h : q.Inv once order side host) (hr : r ∈ q.unpolled) :
    host.loans.Backs r.scatters r.elements r.segments :=
  (h.made r (mem_requests_of_unpolled hr)).backs (h.borrowed r hr)

theorem register (h : q.Inv once order side host) (mr : MemoryRegion)
    (access_flags : AccessFlags) : q.Inv once order side (host.register mr access_flags) := by
  refine h.of_host (Nat.le_refl _) (fun _ _ _ _ _ => id) (fun _ _ _ _ _ => id) ?_
    (fun _ _ _ _ => rfl) (fun _ _ _ _ _ _ => rfl)
  rintro x ⟨registration, hmem, hexposes⟩
  exact ⟨registration, List.mem_append_left _ hmem, hexposes⟩

theorem deregister (h : q.Inv once order side host) {k : Nat}
    (hhost : host.deregister k = some host') : q.Inv once order side host' := by
  obtain ⟨hmemory, hloans, _, _, hexposed⟩ := Host.deregister_spec hhost
  refine h.of_host (by rw [hloans]) ?_ ?_ hexposed (fun _ _ _ _ => by rw [hmemory])
    (fun _ _ _ _ _ _ => by rw [hmemory])
  · intro _ _ _ _ l hl
    rwa [hloans]
  · intro _ _ _ _ l hl
    rwa [hloans] at hl

theorem borrow (h : q.Inv once order side host) {exclusive : Bool} {k : Nat} {data : Slice}
    (hhost : host.borrow exclusive k data = some host') : q.Inv once order side host' := by
  obtain ⟨_, l, _, _, _, _, _, rfl⟩ := Host.borrow_spec hhost
  refine h.of_host ?_ ?_ ?_ (fun _ => id) (fun _ _ _ _ => rfl) (fun _ _ _ _ _ _ => rfl)
  · rw [List.length_append]
    exact Nat.le_add_right _ _
  · intro r _ i _ l hl
    exact lent_snoc hl
  · intro r hr i hi l hl
    rcases lent_snoc_cases hl with hold | ⟨rfl, _⟩
    · exact hold
    · exact absurd (h.known r hr _ hi) (Nat.lt_irrefl _)

theorem give_back (h : q.Inv once order side host) {i : Nat}
    (hunused : ∀ r ∈ q.unpolled, i ∉ r.elements) : q.Inv once order side (host.give_back i) := by
  refine h.of_host ?_ ?_ ?_ (fun _ => id) (fun _ _ _ _ => rfl) (fun _ _ _ _ _ _ => rfl)
  · exact Nat.le_of_eq (List.length_set).symm
  · intro r hr j hj l hl
    exact lent_set_none_of_ne (fun heq => hunused r hr (heq ▸ hj)) hl
  · intro r _ j _ l hl
    exact (lent_set_none hl).2

theorem empty (once : Bool) (order : ByteOrder) (side : WorkQueue) (host : Host) :
    Queue.empty.Inv once order side host := by
  refine ⟨?_, ?_, ?_, ?_, ?_, ?_, ?_⟩
  all_goals
    intros
    contradiction

/-- The oldest request completes, with the right bytes if it succeeds. -/
theorem finish (h : q.Inv once order side host) (hwaiting : q.waiting = r :: rest) {wc : IbvWc}
    {moved : List UInt8}
    (hgathers : wc.error.isNone = true → r.scatters = false → host.Private r.segments →
      moved = r.held)
    (hscatters : once = true → wc.error.isNone = true → r.scatters = true →
      (gather host.memory r.segments).take moved.length = moved) :
    (q.finish wc moved).Inv once order side host := by
  refine ⟨?_, ?_, ?_, ?_, ?_, ?_, ?_⟩
  · rw [requests_finish hwaiting]
    exact h.formed
  · rw [requests_finish hwaiting]
    exact h.known
  · rw [requests_finish hwaiting]
    exact h.made
  · rw [unpolled_finish hwaiting]
    exact h.borrowed
  · rw [finish_eq hwaiting]
    intro r' hr'
    exact h.frozen r' (hwaiting ▸ List.mem_cons_of_mem _ hr')
  · rw [finish_eq hwaiting]
    intro f hf
    rcases List.mem_append.mp hf with hold | hnew
    · exact h.carried f hold
    · obtain rfl := List.mem_singleton.mp hnew
      exact hgathers
  · rw [finish_eq hwaiting]
    intro honce f hf
    rcases List.mem_append.mp hf with hold | hnew
    · exact h.kept honce f hold
    · obtain rfl := List.mem_singleton.mp hnew
      exact fun hok hkind _ _ => hscatters honce hok hkind

theorem poll (h : q.Inv once order side host) (k : Nat) : (q.poll k).Inv once order side host := by
  refine ⟨?_, ?_, ?_, fun r hr => h.borrowed r (mem_unpolled_poll hr), h.frozen, ?_, ?_⟩
  · rw [requests_poll]
    exact h.formed
  · rw [requests_poll]
    exact h.known
  · rw [requests_poll]
    exact h.made
  · intro f hf hok
    obtain ⟨f', hf', hrequest, hwc, hmoved, _⟩ := mem_poll hf
    rw [Finished.ok, hwc] at hok
    rw [hrequest, hmoved]
    exact h.carried f' hf' hok
  · intro honce f hf hok
    obtain ⟨f', hf', hrequest, hwc, hmoved, _⟩ := mem_poll hf
    rw [Finished.ok, hwc] at hok
    rw [hrequest, hmoved]
    exact h.kept honce f' hf' hok

theorem append (h : q.Inv once order side host) (hformed : r.Formed order side)
    (hmade : host.Made r) (hborrows : host.Borrows r)
    (hheld : r.held = gather host.memory r.segments) :
    (q.append r).Inv once order side host := by
  have hone : ∀ {P : Request → Prop} {rs : List Request}, (∀ r' ∈ rs, P r') → P r →
      ∀ r' ∈ rs ++ [r], P r' := by
    intro P rs hold hnew r' hr'
    rcases List.mem_append.mp hr' with hmem | hmem
    · exact hold r' hmem
    · exact List.mem_singleton.mp hmem ▸ hnew
  refine ⟨?_, ?_, ?_, ?_, ?_, h.carried, h.kept⟩
  · rw [requests_append]
    exact hone h.formed hformed
  · rw [requests_append]
    refine hone h.known (fun i hi => ?_)
    obtain ⟨l, hl⟩ := hborrows i hi
    exact lt_of_lent hl
  · rw [requests_append]
    exact hone h.made hmade
  · rw [unpolled_append]
    exact hone h.borrowed hborrows
  · exact hone h.frozen (fun _ _ => hheld.symm)

end Queue.Inv

namespace Host

variable {host host' : Host}

theorem Sound.register (h : host.Sound) (mr : MemoryRegion) (access_flags : AccessFlags) :
    (host.register mr access_flags).Sound := by
  refine ⟨h.separate, fun i l hl => ?_⟩
  obtain ⟨registration, hfound, hrest⟩ := h.registered i l hl
  refine ⟨registration, ?_, hrest⟩
  exact (List.getElem?_append_left (List.getElem?_eq_some_iff.mp hfound).1).trans hfound

theorem Sound.deregister (h : host.Sound) {k : Nat} (hhost : host.deregister k = some host') :
    host'.Sound := by
  obtain ⟨_, hloans, hunnamed, hothers, _⟩ := deregister_spec hhost
  refine ⟨hloans ▸ h.separate, fun i l hl => ?_⟩
  rw [hloans] at hl
  obtain ⟨registration, hfound, hrest⟩ := h.registered i l hl
  exact ⟨registration, hothers _ _ hfound (hunnamed i l hl), hrest⟩

theorem Sound.borrow (h : host.Sound) {exclusive : Bool} {k : Nat} {data : Slice}
    (hhost : host.borrow exclusive k data = some host') : host'.Sound := by
  obtain ⟨registration, l, hfound, halive, hk, hmr, hgrants, rfl⟩ := borrow_spec hhost
  refine ⟨h.separate.borrow hgrants, fun i l' hl' => ?_⟩
  rcases lent_snoc_cases hl' with hold | ⟨_, rfl⟩
  · exact h.registered i l' hold
  · exact ⟨registration, hk.symm ▸ hfound, halive, hmr.symm⟩

theorem Sound.give_back (h : host.Sound) (i : Nat) : (host.give_back i).Sound :=
  ⟨h.separate.give_back i, fun j l hl => h.registered j l (lent_set_none hl).2⟩

/-- Only the memory changes. -/
theorem Sound.setMemory (h : host.Sound) (m : Nat → UInt8) : Sound { host with memory := m } :=
  ⟨h.separate, h.registered⟩

end Host

end IbverbsRs.Ibverbs
