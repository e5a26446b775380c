import IbverbsRs.Network.Barrier.Notify

namespace IbverbsRs.Network

open Ibverbs Framework

/-- The node that may change a field of slot `q` in the array of node `j`. -/
def EpochField.writer (field : EpochField) (j q : Nat) : Nat :=
  match field with
  | .in_epoch => q
  | _ => j

namespace LinkedBarrierMr

/-- A memory that the node's own code reaches by raising counters other than `in_epoch`. -/
inductive Increased (self : LinkedBarrierMr) : ByteMemory → ByteMemory → Prop
  | refl (mem : ByteMemory) : Increased self mem mem
  | head {mem mem' mem'' : ByteMemory} {field : EpochField} {peer : Nat} (own : field ≠ .in_epoch)
      (increase : self.increase field mem peer = some mem') (rest : Increased self mem' mem'') :
      Increased self mem mem''

theorem increased_of_foldlM {self : LinkedBarrierMr} {peers : List Nat} {mem mem' : ByteMemory}
    (h : peers.foldlM self.increase_out_epoch mem = some mem') : self.Increased mem mem' := by
  induction peers generalizing mem with
  | nil =>
    obtain rfl := Option.some.inj h
    exact .refl mem
  | cons peer peers ih =>
    rw [List.foldlM_cons] at h
    obtain ⟨next, hnext, hrest⟩ := Option.bind_eq_some_iff.mp h
    exact .head (by decide) hnext (ih hrest)

end LinkedBarrierMr

section Steps

variable {world_size : Nat} {mrs : Nat → LinkedBarrierMr}

/-- Everything a step can do: a node works on its own counters and posts notifications, its NIC
transfers bytes of one, or it is done with one. -/
inductive NotifyWorld.Step (world_size : Nat) (mrs : Nat → LinkedBarrierMr) (w : NotifyWorld) :
    NotifyEvent → NotifyWorld → Prop
  | worked {ev : NotifyEvent} {i : Nat} {mem : ByteMemory} {wrs : List PeerWriteWorkRequest}
      (node : i < world_size) (actor : w.actor ev = some i)
      (increased : (mrs i).Increased (w.memory i) mem)
      (requests : ∀ wr ∈ wrs, ∃ peer, (mrs i).notification peer = some wr) :
      Step world_size mrs w ev ((w.setMemory i mem).post i wrs)
  | transferred {k first count i : Nat} {wr : PeerWriteWorkRequest} {src : UInt64}
      (found : w.underway[k]? = some (i, wr))
      (source : gathered_from wr.wr.gather_elements first count = some src) :
      Step world_size mrs w (.transfer k first count) (w.transfer wr i src first count)
  | completed {k : Nat} :
      Step world_size mrs w (.complete k) { w with underway := w.underway.eraseIdx k }

theorem NotifyWorld.step_spec {w w' : NotifyWorld} {ev : NotifyEvent}
    (h : w.step world_size mrs ev = some w') : w.Step world_size mrs ev w' := by
  cases ev with
  | notify_peer i peer posted =>
    simp only [step] at h
    split_ifs at h with hi
    obtain ⟨⟨mem, wrs⟩, hcall, rfl⟩ := Option.map_eq_some_iff.mp h
    obtain ⟨mem, hmem, hcall⟩ := Option.bind_eq_some_iff.mp hcall
    obtain ⟨wr, hwr, hcall⟩ := Option.bind_eq_some_iff.mp hcall
    obtain ⟨rfl, rfl⟩ := Prod.mk.inj (Option.some.inj hcall)
    refine .worked hi rfl (.head (by decide) hmem (.refl _)) ?_
    intro other hother
    obtain rfl := List.mem_singleton.mp (List.mem_of_mem_take hother)
    exact ⟨peer, hwr⟩
  | scatter_notify_peers i peers posted =>
    simp only [step] at h
    split_ifs at h with hi
    obtain ⟨⟨mem, wrs⟩, hcall, rfl⟩ := Option.map_eq_some_iff.mp h
    obtain ⟨mem, hmem, hcall⟩ := Option.bind_eq_some_iff.mp hcall
    obtain ⟨wrs, hwrs, hcall⟩ := Option.bind_eq_some_iff.mp hcall
    obtain ⟨rfl, rfl⟩ := Prod.mk.inj (Option.some.inj hcall)
    refine .worked hi rfl (LinkedBarrierMr.increased_of_foldlM hmem) ?_
    intro other hother
    exact LinkedBarrierMr.mem_mapM hwrs (List.mem_of_mem_take hother)
  | increase_peer_expected_epoch i peer =>
    simp only [step] at h
    split_ifs at h with hi
    obtain ⟨mem, hmem, rfl⟩ := Option.map_eq_some_iff.mp h
    have hworked : w.Step world_size mrs (.increase_peer_expected_epoch i peer)
        ((w.setMemory i mem).post i []) :=
      .worked hi rfl (.head (by decide) hmem (.refl _)) (by simp)
    rwa [post, List.map_nil, List.append_nil] at hworked
  | transfer k first count =>
    simp only [step] at h
    split at h
    · cases h
    · rename_i i wr hfound
      obtain ⟨src, hsrc, rfl⟩ := Option.map_eq_some_iff.mp h
      exact .transferred hfound hsrc
  | complete k =>
    simp only [step] at h
    split_ifs at h
    obtain rfl := Option.some.inj h
    exact .completed

end Steps

section Frame

variable {world_size : Nat} {mrs : Nat → LinkedBarrierMr} (hl : Linked world_size mrs)
  {j q : Nat} {field : EpochField}

include hl

/-- A write into one field leaves the others of the array alone. -/
theorem Linked.get_increase (hj : j < world_size) (hq : q < world_size) (field : EpochField)
    {peer : Nat} {raised : EpochField} {mem mem' : ByteMemory}
    (h : (mrs j).increase raised mem peer = some mem') (hne : ¬ (q = peer ∧ field = raised)) :
    (mrs j).get mem' q field = (mrs j).get mem q field := by
  unfold LinkedBarrierMr.increase at h
  split_ifs at h with hpeer
  rw [hl.slots j hj] at hpeer
  obtain rfl := Option.some.inj h
  apply ByteMemory.load_store_disjoint (hl.field_fits hj hpeer _) (hl.field_fits hj hq _)
  have hapart := EpochField.apart hne
  rw [hl.field_addr_toNat hj hpeer, hl.field_addr_toNat hj hq]
  omega

theorem Linked.get_increased (hj : j < world_size) (hq : q < world_size) {mem mem' : ByteMemory}
    (h : (mrs j).Increased mem mem') :
    (mrs j).get mem' q .in_epoch = (mrs j).get mem q .in_epoch := by
  induction h with
  | refl mem => rfl
  | head own increase _ ih =>
    rw [ih]
    exact hl.get_increase hj hq _ increase (fun heq => own heq.2.symm)

/-- The NIC moves bytes of a notification only into the `in_epoch` of the sender's slot. -/
theorem Linked.get_transfer {i : Nat} {wr : PeerWriteWorkRequest}
    (hwr : Notifies world_size mrs i wr) {first count : Nat} {src : UInt64}
    (hsrc : gathered_from wr.wr.gather_elements first count = some src) (hq : q < world_size)
    (hne : ¬ (q = i ∧ field = .in_epoch)) (mem from_mem : ByteMemory) :
    (mrs wr.peer).get (mem.copy (wr.wr.remote_mr.addr + UInt64.ofNat first) count from_mem src) q
      field = (mrs wr.peer).get mem q field := by
  have hcount : first + count ≤ 8 := by
    rw [hwr.gather] at hsrc
    unfold gathered_from at hsrc
    split_ifs at hsrc with hle
    · exact hle
    · cases hsrc
  rcases Nat.eq_zero_or_pos count with rfl | hpos
  · exact ByteMemory.load_congr (fun k _ => if_neg (Nat.not_lt_zero _))
  · have hfits := hl.field_fits hwr.peer hwr.sender .in_epoch
    have hfirst :=
      @ByteMemory.toNat_add_ofNat ((mrs wr.peer).field_addr i .in_epoch) first (by omega)
    have hapart := EpochField.apart hne
    have hfield := hl.field_addr_toNat hwr.peer hwr.sender .in_epoch
    have hother := hl.field_addr_toNat hwr.peer hq field
    rw [hwr.target]
    apply ByteMemory.load_copy_disjoint
    · omega
    · exact hl.field_fits hwr.peer hq field
    · omega

/-- What is under way at any time are notifications. -/
theorem Linked.underway_notifies {memory : Nat → ByteMemory} {es : List NotifyEvent}
    {w : NotifyWorld} (hrun : (notifySystem world_size mrs memory).run es = some w) :
    ∀ x ∈ w.underway, Notifies world_size mrs x.1 x.2 := by
  apply (notifySystem world_size mrs memory).invariant ?_ ?_ hrun
  · intro x hx
    cases hx
  · intro w ev w' hw hs
    cases NotifyWorld.step_spec hs with
    | worked node _ _ requests =>
      intro x hx
      rcases List.mem_append.mp hx with hx | hx
      · exact hw x hx
      · obtain ⟨wr, hwr, rfl⟩ := List.mem_map.mp hx
        obtain ⟨peer, hpeer⟩ := requests wr hwr
        exact (hl.notifies node hpeer).2
    | transferred _ _ => exact hw
    | completed =>
      intro x hx
      exact hw x (List.mem_of_mem_eraseIdx hx)

/-- A step changes a field only on behalf of its writer. -/
theorem Linked.step_frame {w w' : NotifyWorld} {ev : NotifyEvent}
    (hw : ∀ x ∈ w.underway, Notifies world_size mrs x.1 x.2)
    (hs : w.step world_size mrs ev = some w') (hj : j < world_size) (hq : q < world_size)
    (hchange : (mrs j).get (w'.memory j) q field ≠ (mrs j).get (w.memory j) q field) :
    w.actor ev = some (field.writer j q) := by
  cases NotifyWorld.step_spec hs with
  | @worked _ i mem wrs node actor increased requests =>
    by_cases hij : j = i
    · subst hij
      have hown : field ≠ .in_epoch := by
        intro heq
        subst heq
        apply hchange
        rw [NotifyWorld.post_memory, NotifyWorld.setMemory_self]
        exact hl.get_increased hj hq increased
      rw [actor]
      cases field with
      | in_epoch => exact absurd rfl hown
      | expected_in_epoch | out_epoch => rfl
    · apply absurd _ hchange
      rw [NotifyWorld.post_memory, w.setMemory_of_ne _ hij]
  | @transferred k first count i wr src found source =>
    have hwr := hw _ (List.mem_of_getElem? found)
    by_cases hpeer : j = wr.peer
    · subst hpeer
      by_cases hslot : q = i ∧ field = .in_epoch
      · obtain ⟨rfl, rfl⟩ := hslot
        rw [NotifyWorld.actor, found]
        rfl
      · apply absurd _ hchange
        rw [NotifyWorld.transfer, NotifyWorld.setMemory_self]
        exact hl.get_transfer hwr source hq hslot _ _
    · apply absurd _ hchange
      rw [NotifyWorld.transfer, w.setMemory_of_ne _ hpeer]
  | completed => exact absurd rfl hchange

end Frame

section View

namespace LinkedBarrierMr

/-- The counters of a slot as they stand in memory. -/
def slot (self : LinkedBarrierMr) (mem : ByteMemory) (peer : Nat) : BarrierPeerFlags :=
  ⟨self.get mem peer .expected_in_epoch, self.get mem peer .out_epoch, self.get mem peer .in_epoch⟩

/-- The array without its bytes. -/
def view (self : LinkedBarrierMr) (mem : ByteMemory) : BarrierMr :=
  ⟨self.rank, (List.range self.memory.length).map (self.slot mem)⟩

theorem increase_spec {self : LinkedBarrierMr} {mem mem' : ByteMemory} {peer : Nat}
    {field : EpochField} (h : self.increase field mem peer = some mem') :
    peer < self.memory.length ∧
      self.get mem' peer field = (self.get mem peer field + 1) % 256 ^ 8 := by
  unfold increase at h
  split_ifs at h with hpeer
  obtain rfl := Option.some.inj h
  exact ⟨hpeer, ByteMemory.load_store (Nat.le_refl 8) (by decide)⟩

theorem view_update {self : LinkedBarrierMr} {mem mem' : ByteMemory} {peer : Nat}
    {f : BarrierPeerFlags → BarrierPeerFlags} (hpeer : peer < self.memory.length)
    (hslot : f (self.slot mem peer) = self.slot mem' peer)
    (hother : ∀ q < self.memory.length, q ≠ peer → self.slot mem q = self.slot mem' q) :
    (self.view mem).update peer f = some (self.view mem') := by
  rw [BarrierMr.update, if_pos (by simpa [view] using hpeer), view, view]
  congr 2
  apply List.ext_getElem
  · simp
  · intro q hq hq'
    simp only [List.length_modify, List.length_map, List.length_range] at hq
    rw [List.getElem_modify, List.getElem_map, List.getElem_map, List.getElem_range]
    by_cases heq : peer = q
    · rw [if_pos heq, ← heq, hslot]
    · rw [if_neg heq, hother q hq (Ne.symm heq)]

end LinkedBarrierMr

variable {world_size : Nat} {mrs : Nat → LinkedBarrierMr} (hl : Linked world_size mrs) {j : Nat}

include hl

theorem Linked.slot_increase (hj : j < world_size) {mem mem' : ByteMemory} {peer q : Nat}
    {field : EpochField} (h : (mrs j).increase field mem peer = some mem') (hq : q < world_size)
    (hne : q ≠ peer) : (mrs j).slot mem q = (mrs j).slot mem' q := by
  have hkept (other : EpochField) : (mrs j).get mem' q other = (mrs j).get mem q other :=
    hl.get_increase hj hq other h (fun heq => hne heq.1)
  rw [LinkedBarrierMr.slot, LinkedBarrierMr.slot, hkept, hkept, hkept]

/-- Raising a counter in memory raises it in the view, as long as it fits its eight bytes. -/
theorem Linked.view_increase_out_epoch (hj : j < world_size) {mem mem' : ByteMemory} {peer : Nat}
    (h : (mrs j).increase_out_epoch mem peer = some mem')
    (hfits : (mrs j).get mem peer .out_epoch + 1 < 256 ^ 8) :
    ((mrs j).view mem).increase_out_epoch peer = some ((mrs j).view mem') := by
  obtain ⟨hpeer, hraised⟩ := LinkedBarrierMr.increase_spec h
  have hpeer' := hpeer
  rw [hl.slots j hj] at hpeer'
  have hexpected := hl.get_increase hj hpeer' .expected_in_epoch h (by simp)
  have hin := hl.get_increase hj hpeer' .in_epoch h (by simp)
  apply LinkedBarrierMr.view_update hpeer
  · rw [Nat.mod_eq_of_lt hfits] at hraised
    simp only [LinkedBarrierMr.slot, hexpected, hin, hraised]
  · intro q hq hne
    rw [hl.slots j hj] at hq
    exact hl.slot_increase hj h hq hne

theorem Linked.view_increase_peer_expected_epoch (hj : j < world_size) {mem mem' : ByteMemory}
    {peer : Nat} (h : (mrs j).increase_peer_expected_epoch mem peer = some mem')
    (hfits : (mrs j).get mem peer .expected_in_epoch + 1 < 256 ^ 8) :
    ((mrs j).view mem).increase_peer_expected_epoch peer = some ((mrs j).view mem') := by
  obtain ⟨hpeer, hraised⟩ := LinkedBarrierMr.increase_spec h
  have hpeer' := hpeer
  rw [hl.slots j hj] at hpeer'
  have hout := hl.get_increase hj hpeer' .out_epoch h (by simp)
  have hin := hl.get_increase hj hpeer' .in_epoch h (by simp)
  apply LinkedBarrierMr.view_update hpeer
  · rw [Nat.mod_eq_of_lt hfits] at hraised
    simp only [LinkedBarrierMr.slot, hout, hin, hraised]
  · intro q hq hne
    rw [hl.slots j hj] at hq
    exact hl.slot_increase hj h hq hne

/-- Transferred as a whole, a notification places the sender's counter in its slot at the peer. -/
theorem Linked.view_transfer {i : Nat} {wr : PeerWriteWorkRequest}
    (hwr : Notifies world_size mrs i wr) {src : UInt64}
    (hsrc : gathered_from wr.wr.gather_elements 0 8 = some src) (w : NotifyWorld) :
    ((mrs wr.peer).view (w.memory wr.peer)).place_in_epoch i
        ((mrs i).get (w.memory i) wr.peer .out_epoch) =
      some ((mrs wr.peer).view ((w.transfer wr i src 0 8).memory wr.peer)) := by
  have hslots := hl.slots wr.peer hwr.peer
  have hplaced : (mrs wr.peer).get ((w.transfer wr i src 0 8).memory wr.peer) i .in_epoch =
      (mrs i).get (w.memory i) wr.peer .out_epoch := by
    rw [hwr.gather] at hsrc
    obtain rfl := Option.some.inj hsrc
    rw [NotifyWorld.transfer, NotifyWorld.setMemory_self, hwr.target, LinkedBarrierMr.get,
      LinkedBarrierMr.get]
    rw [ByteMemory.add_ofNat_zero, ByteMemory.add_ofNat_zero]
    exact ByteMemory.load_copy (Nat.le_refl 8) (by decide)
  have hkept (q : Nat) (field : EpochField) (hq : q < world_size)
      (hne : ¬ (q = i ∧ field = .in_epoch)) :
      (mrs wr.peer).get ((w.transfer wr i src 0 8).memory wr.peer) q field =
        (mrs wr.peer).get (w.memory wr.peer) q field := by
    rw [NotifyWorld.transfer, NotifyWorld.setMemory_self]
    exact hl.get_transfer hwr hsrc hq hne _ _
  apply LinkedBarrierMr.view_update (by rw [hslots]; exact hwr.sender)
  · have hexpected := hkept i .expected_in_epoch hwr.sender (by simp)
    have hout := hkept i .out_epoch hwr.sender (by simp)
    rw [LinkedBarrierMr.slot, LinkedBarrierMr.slot, hplaced, hexpected, hout]
  · intro q hq hne
    rw [hslots] at hq
    have hother (field : EpochField) := hkept q field hq (fun heq => hne heq.1)
    rw [LinkedBarrierMr.slot, LinkedBarrierMr.slot, hother, hother, hother]

end View

/-- In every run each request under way reads and writes exactly the bytes of its notification,
inside the registered array and clear of every other field, and a field is changed only by its
writer: `in_epoch` by the peer of the slot, the other two by the node itself. And a notification is
posted for each peer that is named. -/
theorem notifications_stay_in_their_slot {world_size : Nat} {mrs : Nat → LinkedBarrierMr}
    (hl : Linked world_size mrs) {memory : Nat → ByteMemory} {es : List NotifyEvent}
    {w : NotifyWorld} (hrun : (notifySystem world_size mrs memory).run es = some w) :
    (∀ i wr, (i, wr) ∈ w.underway →
      Notifies world_size mrs i wr ∧
      bytesAt wr.wr.remote_mr.addr 8 ⊆
        bytesAt (mrs wr.peer).mr.address (mrs wr.peer).mr.length.toNat ∧
      (∀ s, s ≠ i →
        Disjoint (bytesAt wr.wr.remote_mr.addr 8) (fieldBytes mrs wr.peer s .in_epoch)) ∧
      ∀ q field, field ≠ .in_epoch →
        Disjoint (bytesAt wr.wr.remote_mr.addr 8) (fieldBytes mrs wr.peer q field)) ∧
    (∀ ev w', w.step world_size mrs ev = some w' → ∀ j < world_size, ∀ q < world_size, ∀ field,
      (mrs j).get (w'.memory j) q field ≠ (mrs j).get (w.memory j) q field →
        w.actor ev = some (field.writer j q)) ∧
    ∀ i < world_size, ∀ posted,
      (∀ peer < world_size, ∃ mem wr,
        w.step world_size mrs (.notify_peer i peer posted) =
          some ((w.setMemory i mem).post i ([wr].take posted)) ∧
        wr.peer = peer ∧ Notifies world_size mrs i wr) ∧
      ∀ peers, (∀ peer ∈ peers, peer < world_size) →
        ∃ mem, ∃ wrs : List PeerWriteWorkRequest,
        w.step world_size mrs (.scatter_notify_peers i peers posted) =
          some ((w.setMemory i mem).post i (wrs.take posted)) ∧
        wrs.map PeerWriteWorkRequest.peer = peers ∧ ∀ wr ∈ wrs, Notifies world_size mrs i wr := by
  have hunderway := hl.underway_notifies hrun
  refine ⟨?_, ?_, ?_⟩
  · intro i wr hmem
    have hwr := hunderway _ hmem
    rw [hwr.writes]
    refine ⟨hwr, hl.field_subset_region hwr.peer hwr.sender _, ?_, ?_⟩
    · intro s hs
      exact disjoint_fieldBytes (fun heq => hs heq.1)
    · intro q field hfield
      exact disjoint_fieldBytes (fun heq => hfield heq.2)
  · intro ev w' hs j hj q hq field
    exact hl.step_frame hunderway hs hj hq
  · intro i hi posted
    constructor
    · intro peer hpeer
      obtain ⟨mem, hmem⟩ := hl.exists_increase hi hpeer .out_epoch (w.memory i)
      obtain ⟨wr, hwr, hnamed⟩ := hl.exists_notification hi hpeer
      refine ⟨mem, wr, ?_, hnamed, (hl.notifies hi hwr).2⟩
      simp only [NotifyWorld.step, if_pos hi, LinkedBarrierMr.notify_peer,
        LinkedBarrierMr.increase_out_epoch, hmem, hwr,
        Option.bind_eq_bind, Option.bind_some, Option.map_some]
    · intro peers hpeers
      obtain ⟨mem, wrs, hscatters, hnamed, hnotifies⟩ := hl.scatters hi hpeers (w.memory i)
      refine ⟨mem, wrs, ?_, hnamed, hnotifies⟩
      rw [NotifyWorld.step, if_pos hi, hscatters, Option.map_some]

/-- The arrays of two nodes, at the top of memory and at address 96. -/
def preparedArray (i : Nat) : PreparedBarrierMr :=
  let memory_addr : UInt64 := if i = 0 then 18446744073709551568 else 96
  ⟨BarrierMr.new i 2, memory_addr, ⟨memory_addr, 48, 7, UInt32.ofNat (8 + i)⟩⟩

def linkedPair (i : Nat) : LinkedBarrierMr :=
  (preparedArray i).link_remote ((List.range 2).map (fun j => (preparedArray j).remote))

theorem linkedPair_linked : Linked 2 linkedPair := by
  have hnew : ∀ i < 2, PreparedBarrierMr.new
      ⟨fun _ _ => .ok (), fun _ _ => .ok ⟨0, 0⟩, fun _ => .ok (7, UInt32.ofNat (8 + i))⟩
      (if i = 0 then 18446744073709551568 else 96) i 2 = .ok (preparedArray i) := fun i _ => rfl
  apply linked_of_new hnew
  intro i _
  split_ifs <;> decide

theorem notifications_stay_in_their_slot_two : ∃ w,
    (notifySystem 2 linkedPair (fun _ _ => 0)).run [.notify_peer 0 1 1, .transfer 0 0 3,
      .scatter_notify_peers 1 [0] 1, .transfer 0 3 5] = some w ∧
    (0, ⟨1, ⟨[⟨18446744073709551600, 8, 7⟩], ⟨112, 32, 9⟩, none⟩⟩) ∈ w.underway ∧
    (1, ⟨0, ⟨[⟨104, 8, 7⟩], ⟨18446744073709551608, 8, 8⟩, none⟩⟩) ∈ w.underway ∧
    (linkedPair 1).get (w.memory 1) 0 .in_epoch = 1 ∧
    Disjoint (bytesAt 112 8) (fieldBytes linkedPair 1 1 .in_epoch) ∧
    ∃ mem wr, w.step 2 linkedPair (.scatter_notify_peers 0 [1] 1) =
      some ((w.setMemory 0 mem).post 0 [wr]) ∧ wr.peer = 1 := by
  obtain ⟨w, hrun, hunderway, hscattered, hplaced⟩ : ∃ w,
      (notifySystem 2 linkedPair (fun _ _ => 0)).run [.notify_peer 0 1 1, .transfer 0 0 3,
        .scatter_notify_peers 1 [0] 1, .transfer 0 3 5] = some w ∧
      w.underway[0]? = some (0, ⟨1, ⟨[⟨18446744073709551600, 8, 7⟩], ⟨112, 32, 9⟩, none⟩⟩) ∧
      w.underway[1]? = some (1, ⟨0, ⟨[⟨104, 8, 7⟩], ⟨18446744073709551608, 8, 8⟩, none⟩⟩) ∧
      (linkedPair 1).get (w.memory 1) 0 .in_epoch = 1 := ⟨_, rfl, rfl, rfl, rfl⟩
  have hmem := List.mem_of_getElem? hunderway
  obtain ⟨hslots, _, hposts⟩ := notifications_stay_in_their_slot linkedPair_linked hrun
  obtain ⟨mem, wrs, hstep, hnamed, _⟩ := (hposts 0 (by decide) 1).2 [1] (by decide)
  obtain ⟨wr, rfl, hpeer⟩ := List.map_eq_singleton_iff.mp hnamed
  exact ⟨w, hrun, hmem, List.mem_of_getElem? hscattered, hplaced,
    (hslots _ _ hmem).2.2.1 1 (by decide), mem, wr, hstep, hpeer⟩

end IbverbsRs.Network
