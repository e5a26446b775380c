import IbverbsRs.Framework.Results
import IbverbsRs.MultiChannel.WorkRequest

namespace IbverbsRs

open Framework Ibverbs

namespace PeerRemoteMemoryRegion

def sub_region (self : PeerRemoteMemoryRegion) (offset : UInt64) : Option PeerRemoteMemoryRegion :=
  (self.remote_mr.sub_region offset).map (fun remote_mr => ⟨self.peer, remote_mr⟩)

def sub_region_debug (self : PeerRemoteMemoryRegion) (offset : UInt64) :
    OptionT Option PeerRemoteMemoryRegion :=
  (fun remote_mr => ⟨self.peer, remote_mr⟩) <$> self.remote_mr.sub_region_debug offset

def sub_region_at (self : PeerRemoteMemoryRegion) (offset : Nat) : Option PeerRemoteMemoryRegion :=
  (self.remote_mr.sub_region_at offset).map (fun remote_mr => ⟨self.peer, remote_mr⟩)

theorem foldlM_sub_region (self : PeerRemoteMemoryRegion) (offsets : List UInt64) :
    offsets.foldlM sub_region self =
      (offsets.foldlM RemoteMemoryRegion.sub_region self.remote_mr).map
        (fun remote_mr => ⟨self.peer, remote_mr⟩) := by
  induction offsets generalizing self with
  | nil => rfl
  | cons offset rest ih =>
    rw [List.foldlM_cons, List.foldlM_cons, sub_region]
    cases self.remote_mr.sub_region offset with
    | none => rfl
    | some part => exact ih ⟨self.peer, part⟩

theorem sub_region_debug_eq (self : PeerRemoteMemoryRegion) (offset : UInt64) :
    self.sub_region_debug offset = OptionT.mk (some (self.sub_region offset)) := by
  rw [sub_region_debug, RemoteMemoryRegion.sub_region_debug_eq, sub_region]
  cases self.remote_mr.sub_region offset <;> rfl

end PeerRemoteMemoryRegion

/-- What a chain of offsets gives: the rest of the region behind their unbounded sum. -/
theorem sub_region_chains (r : RemoteMemoryRegion) (peer : Nat) :
    (∀ a b : UInt64, (r.sub_region a).bind (fun part => part.sub_region b) =
      r.sub_region_at (a.toNat + b.toNat)) ∧
    (∀ offsets : List UInt64,
      offsets.foldlM RemoteMemoryRegion.sub_region r =
        r.sub_region_at (offsets.map UInt64.toNat).sum ∧
      (offsets.foldlM RemoteMemoryRegion.sub_region_debug r).run =
        some (offsets.foldlM RemoteMemoryRegion.sub_region r) ∧
      ∀ part, offsets.foldlM RemoteMemoryRegion.sub_region r = some part → r.Tail part) ∧
    (∀ a b : UInt64,
      ((⟨peer, r⟩ : PeerRemoteMemoryRegion).sub_region a).bind (fun part => part.sub_region b) =
        (⟨peer, r⟩ : PeerRemoteMemoryRegion).sub_region_at (a.toNat + b.toNat)) ∧
    ∀ offsets : List UInt64,
      offsets.foldlM PeerRemoteMemoryRegion.sub_region ⟨peer, r⟩ =
        (⟨peer, r⟩ : PeerRemoteMemoryRegion).sub_region_at (offsets.map UInt64.toNat).sum ∧
      (offsets.foldlM PeerRemoteMemoryRegion.sub_region_debug ⟨peer, r⟩).run =
        some (offsets.foldlM PeerRemoteMemoryRegion.sub_region ⟨peer, r⟩) ∧
      ∀ part, offsets.foldlM PeerRemoteMemoryRegion.sub_region ⟨peer, r⟩ = some part →
        part.peer = peer ∧ r.Tail part.remote_mr := by
  have hpair (a b : UInt64) : (r.sub_region a).bind (fun part => part.sub_region b) =
      r.sub_region_at (a.toNat + b.toNat) := by
    rw [← RemoteMemoryRegion.sub_region_at_bind, RemoteMemoryRegion.sub_region_at_toNat]
    simp only [RemoteMemoryRegion.sub_region_at_toNat]
  have htail (offsets : List UInt64) (part : RemoteMemoryRegion)
      (h : offsets.foldlM RemoteMemoryRegion.sub_region r = some part) : r.Tail part := by
    rw [RemoteMemoryRegion.foldlM_sub_region] at h
    exact RemoteMemoryRegion.tail_of_sub_region_at h
  refine ⟨hpair, ?_, ?_, ?_⟩
  · intro offsets
    exact ⟨r.foldlM_sub_region offsets,
      foldlM_run_of_total RemoteMemoryRegion.sub_region_debug_eq r offsets, htail offsets⟩
  · intro a b
    rw [PeerRemoteMemoryRegion.sub_region_at, ← hpair, PeerRemoteMemoryRegion.sub_region]
    cases r.sub_region a <;> rfl
  · intro offsets
    refine ⟨?_, foldlM_run_of_total PeerRemoteMemoryRegion.sub_region_debug_eq _ offsets, ?_⟩
    · rw [PeerRemoteMemoryRegion.foldlM_sub_region, RemoteMemoryRegion.foldlM_sub_region]
      rfl
    · intro part h
      rw [PeerRemoteMemoryRegion.foldlM_sub_region] at h
      obtain ⟨remote_mr, hremote, rfl⟩ := Option.map_eq_some_iff.mp h
      exact ⟨rfl, htail offsets remote_mr hremote⟩

end IbverbsRs
