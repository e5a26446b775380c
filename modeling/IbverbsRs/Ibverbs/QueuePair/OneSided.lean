import IbverbsRs.Ibverbs.QueuePair.UsageSafety

namespace IbverbsRs.Ibverbs

open Framework Segment Cells AccessFlags

namespace Host

variable {host : Host}

end Host

namespace Fabric

variable {N : Type} [DecidableEq N] {once : Bool} {order : N → ByteOrder} {w w' : Fabric N}
  {a b c : N} {r : Request} {rest : List Request}

section Access

end Access

/-- What a write has done to the memory of the peer: it holds `bytes` at the target and is otherwise
the same, and the peer lets it do so. -/
structure Written (access : AccessFlags) (w w' : Fabric N) (b : N) (remote_mr : RemoteMemoryRegion)
    (bytes : List UInt8) : Prop where
  granted : (w.hosts b).Granted access IBV_ACCESS_REMOTE_WRITE remote_mr.rkey
    ⟨remote_mr.addr.toNat, bytes.length⟩
  holds : read (w'.hosts b).memory ⟨remote_mr.addr.toNat, bytes.length⟩ = bytes
  outside : ∀ x, ¬ Covers ⟨remote_mr.addr.toNat, bytes.length⟩ x →
    (w'.hosts b).memory x = (w.hosts b).memory x
  others : ∀ c, c ≠ b → w'.hosts c = w.hosts c

theorem written_of_deposit {access : AccessFlags} {wr : IbvSendWr}
    {remote_mr : RemoteMemoryRegion} {host : Host} {payload : List UInt8}
    (htargets : wr.Targets remote_mr) (h : (w.hosts b).deposit access wr payload = some host) :
    Written access w (w.setHost b host) b remote_mr payload := by
  unfold Host.deposit at h
  rw [htargets.remote_addr, htargets.rkey] at h
  split_ifs at h with hreached
  obtain rfl := Option.some.inj h
  refine ⟨Host.reached_iff.mp hreached, ?_, fun x hx => ?_, fun c hc => hosts_setHost_of_ne hc _ _⟩
  · rw [hosts_setHost_self]
    exact read_write (s := ⟨remote_mr.addr.toNat, payload.length⟩) rfl
  · rw [hosts_setHost_self]
    exact write_outside hx

/-- The notice of a write takes a receive request without touching its buffers. -/
theorem hosts_arrive_nil {bytes : ByteOrder} {len : Nat} {imm_data : Option (List UInt8)}
    (h : w.arrive bytes a b [] len imm_data = some w') : w'.hosts = w.hosts := by
  obtain ⟨r, _, host, _, hfill, rfl⟩ := arrive_spec h
  obtain ⟨_, rfl⟩ := Host.fill_spec hfill
  rw [scatter_nil]
  exact Function.update_eq_self b w.hosts

omit [DecidableEq N] in
theorem Written.of_hosts {access : AccessFlags} {w₁ : Fabric N} {remote_mr : RemoteMemoryRegion}
    {bytes : List UInt8} (h : Written access w w₁ b remote_mr bytes)
    (hsame : w'.hosts = w₁.hosts) : Written access w w' b remote_mr bytes := by
  refine ⟨h.granted, ?_, fun x hx => ?_, fun c hc => ?_⟩
  · rw [hsame]
    exact h.holds
  · rw [hsame]
    exact h.outside x hx
  · rw [hsame]
    exact h.others c hc

namespace Inv

/-- A write leaves what its buffers held when it was posted. -/
theorem written (h : w.Inv once order) (hwaiting : (w.queues (a, b, .send)).waiting = r :: rest)
    (hcarries : Carries order w a b r w') {wr : WriteWorkRequest} (hwr : r.wr = .Write wr)
    (hprivate : (w.hosts a).Private r.segments) :
    Written (w.access (b, a)) w w' b wr.remote_mr r.held := by
  have hmem : r ∈ (w.queues (a, b, .send)).waiting := hwaiting ▸ List.mem_cons_self
  have hgathers := h.gathers hmem (by rw [hwr]; rfl)
  cases hcarries with
  | send wr' _ _ hkind => cases hwr.symm.trans hkind
  | read wr' _ _ hkind => cases hwr.symm.trans hkind
  | @write wr' send_wr payload host _ hkind htargets _ hfetch hdeposit =>
    obtain rfl : wr' = wr := WorkRequest.Write.inj (hkind.symm.trans hwr)
    rw [← h.fetched hmem hfetch hgathers hprivate]
    exact (written_of_deposit htargets hdeposit).of_hosts rfl
  | @announce wr' imm_data send_wr payload host w₁ _ hkind htargets _ hfetch hdeposit harrive =>
    obtain rfl : wr' = wr := WorkRequest.Write.inj (hkind.symm.trans hwr)
    rw [← h.fetched hmem hfetch hgathers hprivate]
    have hsame : w₁.hosts = (w.setHost b host).hosts := hosts_arrive_nil harrive
    exact (written_of_deposit htargets hdeposit).of_hosts hsame

end Inv

section Runs

variable [Fintype N] {access : N × N → AccessFlags} {memory : N → Nat → UInt8}
  {es : List (FabricEvent N)}

end Runs

end Fabric

end IbverbsRs.Ibverbs
