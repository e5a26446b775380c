import IbverbsRs.Framework.ByteMemory
import IbverbsRs.Framework.TransitionSystem
import IbverbsRs.Network.Barrier.Region
import Mathlib.Logic.Function.Basic
import Mathlib.Order.Interval.Set.Defs
import Mathlib.Data.Set.Lattice
import Mathlib.Order.CompletePartialOrder

namespace IbverbsRs.Network

open Ibverbs Framework

/-- The fields of a slot of the flag array. -/
inductive EpochField
  | expected_in_epoch
  | out_epoch
  | in_epoch
  deriving DecidableEq, Repr

def EpochField.offset : EpochField → Nat
  | .expected_in_epoch => BarrierPeerFlags.offset_expected_in_epoch
  | .out_epoch => BarrierPeerFlags.offset_out_epoch
  | .in_epoch => BarrierPeerFlags.offset_in_epoch

namespace LinkedBarrierMr

/-- Where a field of `self.memory[peer]` lies. -/
def field_addr (self : LinkedBarrierMr) (peer : Nat) (field : EpochField) : UInt64 :=
  self.memory_addr + UInt64.ofNat (peer * BarrierPeerFlags.size + field.offset)

def get (self : LinkedBarrierMr) (mem : ByteMemory) (peer : Nat) (field : EpochField) : Nat :=
  mem.load (self.field_addr peer field) 8

/-- `none` is the panic of `self.memory[peer]`. -/
def increase (self : LinkedBarrierMr) (field : EpochField) (mem : ByteMemory) (peer : Nat) :
    Option ByteMemory :=
  if peer < self.memory.length then
    some (mem.store (self.field_addr peer field) 8 (self.get mem peer field + 1))
  else none

def increase_out_epoch (self : LinkedBarrierMr) : ByteMemory → Nat → Option ByteMemory :=
  self.increase .out_epoch

def increase_peer_expected_epoch (self : LinkedBarrierMr) : ByteMemory → Nat → Option ByteMemory :=
  self.increase .expected_in_epoch

/-- The write of `out_epoch` into the slot that `peer` keeps for this node. -/
def notification (self : LinkedBarrierMr) (peer : Nat) : Option PeerWriteWorkRequest :=
  if peer < self.memory.length then do
    let local_out_epoch_bytes : Slice := ⟨self.field_addr peer .out_epoch, 8⟩
    let local_out_epoch_sges := [self.mr.gather_element_unchecked local_out_epoch_bytes]
    let remote_mr ← self.remote_mrs[peer]?
    let peer_in_epoch_remote_mr := remote_struct_array_field_unchecked remote_mr
      (UInt64.ofNat BarrierPeerFlags.size) (UInt64.ofNat BarrierPeerFlags.offset_in_epoch)
      (UInt64.ofNat self.rank)
    PeerWriteWorkRequest.new local_out_epoch_sges peer_in_epoch_remote_mr
  else none

/-- The requests of a call, and the memory it leaves; they are then handed to the channels. -/
def notify_peer (self : LinkedBarrierMr) (mem : ByteMemory) (peer : Nat) :
    Option (ByteMemory × List PeerWriteWorkRequest) := do
  let mem ← self.increase_out_epoch mem peer
  let wr ← self.notification peer
  some (mem, [wr])

def scatter_notify_peers (self : LinkedBarrierMr) (mem : ByteMemory) (peers : List Nat) :
    Option (ByteMemory × List PeerWriteWorkRequest) := do
  let mem ← peers.foldlM self.increase_out_epoch mem
  let wrs ← peers.mapM self.notification
  some (mem, wrs)

theorem mem_mapM {self : LinkedBarrierMr} {peers : List Nat} {wrs : List PeerWriteWorkRequest}
    (h : peers.mapM self.notification = some wrs) {wr : PeerWriteWorkRequest} (hwr : wr ∈ wrs) :
    ∃ peer, self.notification peer = some wr := by
  induction peers generalizing wrs with
  | nil =>
    obtain rfl := Option.some.inj h
    cases hwr
  | cons peer peers ih =>
    rw [List.mapM_cons] at h
    obtain ⟨first, hfirst, hlater⟩ := Option.bind_eq_some_iff.mp h
    obtain ⟨rest, hrest, hwrs⟩ := Option.bind_eq_some_iff.mp hlater
    rw [← Option.some.inj hwrs] at hwr
    rcases List.mem_cons.mp hwr with rfl | hwr
    · exact ⟨peer, hfirst⟩
    · exact ih hrest hwr

end LinkedBarrierMr

/-- The memories of the nodes, and the requests whose sender's NIC has not completed them. -/
structure NotifyWorld where
  memory : Nat → ByteMemory
  underway : List (Nat × PeerWriteWorkRequest)

/-- The channels take the first `posted` requests of a notification. The NIC transfers a request in
pieces, in any order and any number of times, until it completes it. -/
inductive NotifyEvent
  | notify_peer (i peer posted : Nat)
  | scatter_notify_peers (i : Nat) (peers : List Nat) (posted : Nat)
  | increase_peer_expected_epoch (i peer : Nat)
  | transfer (k first count : Nat)
  | complete (k : Nat)

/-- Where `count` bytes from byte `first` of a gather list on are read, if they are in one
element. -/
def gathered_from : List GatherElement → Nat → Nat → Option UInt64
  | [], _, _ => none
  | element :: rest, first, count =>
    if first + count ≤ element.length.toNat then some (element.addr + UInt64.ofNat first)
    else if element.length.toNat ≤ first then gathered_from rest (first - element.length.toNat) count
    else none

namespace NotifyWorld

def setMemory (w : NotifyWorld) (i : Nat) (mem : ByteMemory) : NotifyWorld :=
  { w with memory := Function.update w.memory i mem }

def post (w : NotifyWorld) (i : Nat) (wrs : List PeerWriteWorkRequest) : NotifyWorld :=
  { w with underway := w.underway ++ wrs.map (fun wr => (i, wr)) }

def transfer (w : NotifyWorld) (wr : PeerWriteWorkRequest) (i : Nat) (src : UInt64)
    (first count : Nat) : NotifyWorld :=
  w.setMemory wr.peer ((w.memory wr.peer).copy (wr.wr.remote_mr.addr + UInt64.ofNat first) count
    (w.memory i) src)

@[simp] theorem setMemory_self (w : NotifyWorld) (i : Nat) (mem : ByteMemory) :
    (w.setMemory i mem).memory i = mem := Function.update_self ..

theorem setMemory_of_ne (w : NotifyWorld) {i j : Nat} (mem : ByteMemory) (h : j ≠ i) :
    (w.setMemory i mem).memory j = w.memory j := Function.update_of_ne h ..

@[simp] theorem post_memory (w : NotifyWorld) (i : Nat) (wrs : List PeerWriteWorkRequest) :
    (w.post i wrs).memory = w.memory := rfl

end NotifyWorld

section World

variable (world_size : Nat) (mrs : Nat → LinkedBarrierMr)

def NotifyWorld.step (w : NotifyWorld) : NotifyEvent → Option NotifyWorld
  | .notify_peer i peer posted =>
    if i < world_size then
      ((mrs i).notify_peer (w.memory i) peer).map (fun (mem, wrs) =>
        (w.setMemory i mem).post i (wrs.take posted))
    else none
  | .scatter_notify_peers i peers posted =>
    if i < world_size then
      ((mrs i).scatter_notify_peers (w.memory i) peers).map (fun (mem, wrs) =>
        (w.setMemory i mem).post i (wrs.take posted))
    else none
  | .increase_peer_expected_epoch i peer =>
    if i < world_size then
      ((mrs i).increase_peer_expected_epoch (w.memory i) peer).map (w.setMemory i)
    else none
  | .transfer k first count =>
    match w.underway[k]? with
    | none => none
    | some (i, wr) =>
      (gathered_from wr.wr.gather_elements first count).map (fun src => w.transfer wr i src first count)
  | .complete k => if k < w.underway.length then some { w with underway := w.underway.eraseIdx k } else none

/-- The node whose notification or whose own code the event carries out. -/
def NotifyWorld.actor (w : NotifyWorld) : NotifyEvent → Option Nat
  | .notify_peer i _ _ | .scatter_notify_peers i _ _ | .increase_peer_expected_epoch i _ => some i
  | .transfer k _ _ | .complete k => (w.underway[k]?).map Prod.fst

def notifySystem (memory : Nat → ByteMemory) : TransitionSystem NotifyWorld NotifyEvent :=
  ⟨⟨memory, []⟩, NotifyWorld.step world_size mrs⟩

/-- The flag arrays of a network: that of node `i` has its rank and one slot per node, lies below
the top of memory, is registered as a whole, and knows the region of each node. -/
structure Linked : Prop where
  rank : ∀ i < world_size, (mrs i).rank = i
  slots : ∀ i < world_size, (mrs i).memory.length = world_size
  fits : ∀ i < world_size,
    (mrs i).memory_addr.toNat + world_size * BarrierPeerFlags.size ≤ 2 ^ 64
  address : ∀ i < world_size, (mrs i).mr.address = (mrs i).memory_addr
  length : ∀ i < world_size,
    (mrs i).mr.length = UInt64.ofNat (world_size * BarrierPeerFlags.size)
  remotes : ∀ i < world_size,
    (mrs i).remote_mrs = (List.range world_size).map (fun j => (mrs j).remote)

end World

/-- Only the arrays of the network matter. -/
theorem Linked.congr {world_size : Nat} {mrs mrs' : Nat → LinkedBarrierMr}
    (h : Linked world_size mrs) (heq : ∀ i < world_size, mrs' i = mrs i) :
    Linked world_size mrs' := by
  refine ⟨?_, ?_, ?_, ?_, ?_, ?_⟩
  · intro i hi
    rw [heq i hi, h.rank i hi]
  · intro i hi
    rw [heq i hi, h.slots i hi]
  · intro i hi
    rw [heq i hi]
    exact h.fits i hi
  · intro i hi
    rw [heq i hi, h.address i hi]
  · intro i hi
    rw [heq i hi, h.length i hi]
  · intro i hi
    rw [heq i hi, h.remotes i hi]
    apply List.map_congr_left
    intro j hj
    rw [heq j (List.mem_range.mp hj)]

/-- What `PreparedBarrierMr::new` and `link_remote` build is linked, wherever the allocators put the
arrays. -/
theorem linked_of_new {world_size : Nat} {pd : Nat → ProtectionDomain} {memory_addr : Nat → UInt64}
    {prepared : Nat → PreparedBarrierMr}
    (hnew : ∀ i < world_size,
      PreparedBarrierMr.new (pd i) (memory_addr i) i world_size = .ok (prepared i))
    (hfits : ∀ i < world_size,
      (memory_addr i).toNat + world_size * BarrierPeerFlags.size ≤ 2 ^ 64) :
    Linked world_size (fun i => (prepared i).link_remote
      ((List.range world_size).map (fun j => (prepared j).remote))) := by
  have hspec : ∀ i < world_size, (prepared i).toBarrierMr = BarrierMr.new i world_size ∧
      (prepared i).memory_addr = memory_addr i ∧ (prepared i).mr.address = memory_addr i ∧
      (prepared i).mr.length = UInt64.ofNat (world_size * BarrierPeerFlags.size) := by
    intro i hi
    obtain ⟨⟨lkey, rkey⟩, _, hok⟩ := ok_bind_cases (hnew i hi)
    rw [← Except.ok.inj hok]
    exact ⟨rfl, rfl, rfl, rfl⟩
  have hlink (i : Nat) (remote_mrs : List PeerRemoteMemoryRegion) :
      ((prepared i).link_remote remote_mrs).toPreparedBarrierMr = prepared i := rfl
  refine ⟨?_, ?_, ?_, ?_, ?_, ?_⟩
  · intro i hi
    rw [hlink, (hspec i hi).1, BarrierMr.new]
  · intro i hi
    rw [hlink, (hspec i hi).1, BarrierMr.new, List.length_replicate]
  · intro i hi
    rw [hlink, (hspec i hi).2.1]
    exact hfits i hi
  · intro i hi
    rw [hlink, (hspec i hi).2.2.1, (hspec i hi).2.1]
  · intro i hi
    rw [hlink, (hspec i hi).2.2.2]
  · intro i _
    rfl

/-- The `width` bytes from an address on. -/
def bytesAt (addr : UInt64) (width : Nat) : Set Nat := Set.Ico addr.toNat (addr.toNat + width)

/-- The eight bytes of a field in the array of node `j`, in unbounded arithmetic. -/
def fieldBytes (mrs : Nat → LinkedBarrierMr) (j q : Nat) (field : EpochField) : Set Nat :=
  Set.Ico ((mrs j).memory_addr.toNat + (q * BarrierPeerFlags.size + field.offset))
    ((mrs j).memory_addr.toNat + (q * BarrierPeerFlags.size + field.offset) + 8)

/-- A request by which node `i` notifies its peer: it reads the `out_epoch` kept for the peer, it
writes the `in_epoch` of its own slot there, and no arithmetic on the way wraps. -/
structure Notifies (world_size : Nat) (mrs : Nat → LinkedBarrierMr) (i : Nat)
    (wr : PeerWriteWorkRequest) : Prop where
  sender : i < world_size
  peer : wr.peer < world_size
  gather : wr.wr.gather_elements =
    [⟨(mrs i).field_addr wr.peer .out_epoch, 8, (mrs i).mr.lkey⟩]
  reads : bytesAt ((mrs i).field_addr wr.peer .out_epoch) 8 = fieldBytes mrs i wr.peer .out_epoch
  target : wr.wr.remote_mr.addr = (mrs wr.peer).field_addr i .in_epoch
  rkey : wr.wr.remote_mr.rkey = (mrs wr.peer).mr.rkey
  writes : bytesAt wr.wr.remote_mr.addr 8 = fieldBytes mrs wr.peer i .in_epoch
  offset : (UInt64.ofNat i * UInt64.ofNat BarrierPeerFlags.size +
    UInt64.ofNat BarrierPeerFlags.offset_in_epoch).toNat =
      i * BarrierPeerFlags.size + BarrierPeerFlags.offset_in_epoch
  length : wr.wr.remote_mr.length.toNat = world_size * BarrierPeerFlags.size -
    (i * BarrierPeerFlags.size + BarrierPeerFlags.offset_in_epoch)

section Geometry

variable {world_size : Nat} {mrs : Nat → LinkedBarrierMr} {i j q : Nat} {field : EpochField}

theorem EpochField.offset_lt (field : EpochField) : field.offset + 8 ≤ BarrierPeerFlags.size := by
  cases field <;> decide

theorem EpochField.offset_apart {field field' : EpochField} (h : field' ≠ field) :
    field'.offset + 8 ≤ field.offset ∨ field.offset + 8 ≤ field'.offset := by
  revert h
  cases field <;> cases field' <;> decide

/-- Two fields of an array are the same or eight bytes apart. -/
theorem EpochField.apart {q' : Nat} {field' : EpochField} (h : ¬ (q' = q ∧ field' = field)) :
    q' * BarrierPeerFlags.size + field'.offset + 8 ≤ q * BarrierPeerFlags.size + field.offset ∨
    q * BarrierPeerFlags.size + field.offset + 8 ≤ q' * BarrierPeerFlags.size + field'.offset := by
  by_cases hq : q' = q
  · have hfield := offset_apart (fun heq : field' = field => h ⟨hq, heq⟩)
    subst hq
    omega
  · have hlt := field.offset_lt
    have hlt' := field'.offset_lt
    unfold BarrierPeerFlags.size at hlt hlt' ⊢
    omega

theorem disjoint_fieldBytes {q' : Nat} {field' : EpochField} (h : ¬ (q' = q ∧ field' = field)) :
    Disjoint (fieldBytes mrs j q field) (fieldBytes mrs j q' field') := by
  rw [fieldBytes, fieldBytes, Set.disjoint_left]
  intro x hx hx'
  rw [Set.mem_Ico] at hx hx'
  have hapart := EpochField.apart h
  omega

/-- A field ends inside the array. -/
theorem field_end_le (hq : q < world_size) (field : EpochField) :
    q * BarrierPeerFlags.size + field.offset + 8 ≤ world_size * BarrierPeerFlags.size := by
  have hlt := field.offset_lt
  unfold BarrierPeerFlags.size at hlt ⊢
  omega

variable (hl : Linked world_size mrs)

include hl

theorem Linked.field_addr_toNat (hj : j < world_size) (hq : q < world_size) (field : EpochField) :
    ((mrs j).field_addr q field).toNat =
      (mrs j).memory_addr.toNat + (q * BarrierPeerFlags.size + field.offset) := by
  have hfits := hl.fits j hj
  have hend := field_end_le hq field
  exact ByteMemory.toNat_add_ofNat (by omega)

theorem Linked.field_fits (hj : j < world_size) (hq : q < world_size) (field : EpochField) :
    ((mrs j).field_addr q field).toNat + 8 ≤ 2 ^ 64 := by
  have hfits := hl.fits j hj
  have hend := field_end_le hq field
  rw [hl.field_addr_toNat hj hq]
  omega

theorem Linked.bytesAt_field (hj : j < world_size) (hq : q < world_size) (field : EpochField) :
    bytesAt ((mrs j).field_addr q field) 8 = fieldBytes mrs j q field := by
  rw [bytesAt, fieldBytes, hl.field_addr_toNat hj hq]

theorem Linked.length_toNat (hj : j < world_size) :
    (mrs j).mr.length.toNat = world_size * BarrierPeerFlags.size := by
  have hfits := hl.fits j hj
  rw [hl.length j hj, UInt64.toNat_ofNat_of_lt']
  unfold BarrierPeerFlags.size UInt64.size at *
  omega

theorem Linked.field_subset_region (hj : j < world_size) (hq : q < world_size)
    (field : EpochField) :
    fieldBytes mrs j q field ⊆ bytesAt (mrs j).mr.address (mrs j).mr.length.toNat := by
  have hend := field_end_le hq field
  intro x hx
  rw [fieldBytes, Set.mem_Ico] at hx
  rw [bytesAt, Set.mem_Ico, hl.address j hj, hl.length_toNat hj]
  omega

/-- A request that the code builds in a linked array is the notification it should be. -/
theorem Linked.notifies (hi : i < world_size) {peer : Nat} {wr : PeerWriteWorkRequest}
    (h : (mrs i).notification peer = some wr) :
    wr.peer = peer ∧ Notifies world_size mrs i wr := by
  unfold LinkedBarrierMr.notification at h
  split_ifs at h with hpeer
  rw [hl.slots i hi] at hpeer
  obtain ⟨remote_mr, hremote, hnew⟩ := Option.bind_eq_some_iff.mp h
  rw [hl.remotes i hi, List.getElem?_map, List.getElem?_range hpeer] at hremote
  obtain rfl := Option.some.inj hremote
  obtain rfl := PeerWriteWorkRequest.new_spec hnew
  have hoffset : UInt64.ofNat i * UInt64.ofNat BarrierPeerFlags.size +
      UInt64.ofNat BarrierPeerFlags.offset_in_epoch =
        UInt64.ofNat (i * BarrierPeerFlags.size + EpochField.in_epoch.offset) := by
    rw [UInt64.ofNat_add, UInt64.ofNat_mul]
    rfl
  have hregion : remote_struct_array_field_unchecked (mrs peer).remote
      (UInt64.ofNat BarrierPeerFlags.size) (UInt64.ofNat BarrierPeerFlags.offset_in_epoch)
      (UInt64.ofNat (mrs i).rank) =
        ⟨peer, ⟨(mrs peer).field_addr i .in_epoch, (mrs peer).mr.length -
          UInt64.ofNat (i * BarrierPeerFlags.size + EpochField.in_epoch.offset),
          (mrs peer).mr.rkey⟩⟩ := by
    rw [hl.rank i hi]
    simp only [remote_struct_array_field_unchecked, hoffset,
      PeerRemoteMemoryRegion.sub_region_unchecked, RemoteMemoryRegion.sub_region_unchecked,
      PreparedBarrierMr.remote, MemoryRegion.remote, hl.rank peer hpeer, hl.address peer hpeer,
      LinkedBarrierMr.field_addr]
  have hend := field_end_le hi EpochField.in_epoch
  have hlength := hl.length_toNat hpeer
  have hsmall : i * BarrierPeerFlags.size + EpochField.in_epoch.offset < UInt64.size := by
    have hlt := (mrs peer).mr.length.toNat_lt
    unfold UInt64.size
    omega
  have hoffset_nat := UInt64.toNat_ofNat_of_lt' hsmall
  rw [hregion]
  refine ⟨rfl, hi, hpeer, rfl, hl.bytesAt_field hi hpeer _, rfl, rfl,
    hl.bytesAt_field hpeer hi _, ?_, ?_⟩
  · rw [hoffset, hoffset_nat]
    rfl
  · have hle : UInt64.ofNat (i * BarrierPeerFlags.size + EpochField.in_epoch.offset) ≤
        (mrs peer).mr.length := by
      rw [UInt64.le_iff_toNat_le, hoffset_nat, hlength]
      omega
    rw [UInt64.toNat_sub_of_le _ _ hle, hoffset_nat, hlength]
    rfl

/-- In a linked array every peer can be notified. -/
theorem Linked.exists_notification (hi : i < world_size) {peer : Nat} (hpeer : peer < world_size) :
    ∃ wr, (mrs i).notification peer = some wr ∧ wr.peer = peer := by
  have hslot : peer < (mrs i).memory.length := by rwa [hl.slots i hi]
  have hremote : (mrs i).remote_mrs[peer]? = some (mrs peer).remote := by
    rw [hl.remotes i hi, List.getElem?_map, List.getElem?_range hpeer]
    rfl
  have hsome : ((mrs i).notification peer).isSome := by
    simp only [LinkedBarrierMr.notification, if_pos hslot, hremote, Option.bind_eq_bind,
      Option.bind_some]
    rfl
  obtain ⟨wr, hwr⟩ := Option.isSome_iff_exists.mp hsome
  exact ⟨wr, hwr, (hl.notifies hi hwr).1⟩

theorem Linked.exists_increase (hi : i < world_size) {peer : Nat} (hpeer : peer < world_size)
    (field : EpochField) (mem : ByteMemory) :
    ∃ mem', (mrs i).increase field mem peer = some mem' := by
  have hslot : peer < (mrs i).memory.length := by rwa [hl.slots i hi]
  exact ⟨_, if_pos hslot⟩

/-- A scatter builds one notification for each peer, in the order of the list. -/
theorem Linked.scatters (hi : i < world_size) {peers : List Nat}
    (hpeers : ∀ peer ∈ peers, peer < world_size) (mem : ByteMemory) :
    ∃ mem' wrs, (mrs i).scatter_notify_peers mem peers = some (mem', wrs) ∧
      wrs.map PeerWriteWorkRequest.peer = peers ∧ ∀ wr ∈ wrs, Notifies world_size mrs i wr := by
  obtain ⟨mem', hmem⟩ : ∃ mem', peers.foldlM (mrs i).increase_out_epoch mem = some mem' :=
    exists_foldlM_eq_some
      (fun mem peer hpeer => hl.exists_increase hi (hpeers peer hpeer) .out_epoch mem) mem
  obtain ⟨wrs, hwrs, hnamed⟩ : ∃ wrs, peers.mapM (mrs i).notification = some wrs ∧
      wrs.map PeerWriteWorkRequest.peer = peers.map id :=
    exists_mapM_eq_some (fun peer hpeer => hl.exists_notification hi (hpeers peer hpeer))
  refine ⟨mem', wrs, ?_, by rwa [List.map_id] at hnamed, ?_⟩
  · rw [LinkedBarrierMr.scatter_notify_peers, hmem, hwrs]
    rfl
  · intro wr hwr
    obtain ⟨peer, hpeer⟩ := LinkedBarrierMr.mem_mapM hwrs hwr
    exact (hl.notifies hi hpeer).2

end Geometry

end IbverbsRs.Network
