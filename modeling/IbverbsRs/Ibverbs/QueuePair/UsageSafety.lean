import IbverbsRs.Ibverbs.QueuePair.Delivery

namespace IbverbsRs.Ibverbs

open Framework Segment Cells AccessFlags

namespace Host

variable {host : Host} {r : Request}

/-- The byte is borrowed, of a region that is still registered. -/
def Lends (self : Host) (exclusive : Bool) (x : Nat) : Prop :=
  ∃ i l registration, self.loans.lent i = some l ∧ l.exclusive = exclusive ∧ l.segment.Covers x ∧
    self.registrations[l.borrowed.registration]? = some registration ∧
    registration.alive = true ∧ registration.mr = l.borrowed.mr

/-- What has only been registered with `register_local_mr` is private. -/
theorem private_of_local (h : ∀ registration ∈ host.registrations,
      registration.access = AccessFlags.new.with_local_write) (segs : List Segment) :
    host.Private segs := by
  rintro x _ ⟨registration, hmem, hallows, hcovers⟩
  rw [h registration hmem] at hallows
  exact Registration.register_local_mr_private registration.mr x ⟨hallows, hcovers⟩

end Host

namespace Fabric

variable {N : Type} [DecidableEq N] {once : Bool} {order : N → ByteOrder} {w w' : Fabric N}
  {a b c : N}

section Changes

variable {r : Request} {rest : List Request} {host : Host} {payload : List UInt8} {x : Nat}

omit [DecidableEq N] in
theorem Inv.lends (h : w.Inv once order) {side : WorkQueue}
    (hr : r ∈ (w.queues (a, b, side)).unpolled) (hx : CoveredBy r.segments x) :
    (w.hosts a).Lends r.scatters x := by
  obtain ⟨i, _, l, hl, hkind, hcovers⟩ := ((h.queues (a, b, side)).backs hr).covers hx
  obtain ⟨registration, hfound, halive, hmr⟩ := (h.sound a).registered i l hl
  exact ⟨i, l, registration, hl, hkind, hcovers, hfound, halive, hmr⟩

end Changes

variable [Fintype N] {access : N × N → AccessFlags} {memory : N → Nat → UInt8}
  {es : List (FabricEvent N)}

/-- Two hosts of different byte orders: twelve bytes leave in three elements and arrive in two. -/
def byteOrders (a : Bool) : ByteOrder := if a then .big else .little

/-- The queue pairs of the first host let the peer do nothing, those of the second everything. -/
def openPeer (id : Bool × Bool) : AccessFlags :=
  if id.1 then AccessFlags.new.with_remote_read.with_remote_write else AccessFlags.new

def firstBytes (a : Bool) (x : Nat) : UInt8 := if a then 0 else UInt8.ofNat x

def exchange : List (FabricEvent Bool) :=
  [.register false ⟨256, 12, 1, 2⟩ AccessFlags.new.with_local_write,
    .register true ⟨512, 12, 3, 4⟩ AccessFlags.new.with_local_write,
    .borrow false false 0 ⟨256, 4⟩, .borrow false false 0 ⟨260, 6⟩, .borrow false false 0 ⟨266, 2⟩,
    .borrow true true 0 ⟨512, 5⟩, .borrow true true 0 ⟨517, 7⟩,
    .post true false .receive [0, 1] 7 none,
    .post false true (.send (some 0xdeadbeef)) [0, 1, 2] 9 none,
    .transfer false true]

/-- The types let a program post its scatter elements again while they wait for the first poll, and
the message that came first is gone when it is polled. -/
theorem reposted_message_lost : ∃ w, (fabric false byteOrders openPeer firstBytes).run (exchange ++
      [.post true false .receive [0, 1] 8 none, .post false true (.send none) [1] 10 none,
        .transfer false true]) = some w ∧
    (∀ segs, (w.hosts true).Private segs) ∧
    ∃ f ∈ (w.queues (true, false, .receive)).finished, f.ok = true ∧ f.polled = false ∧
      (gather (w.hosts true).memory f.request.segments).take f.moved.length ≠ f.moved := by
  have hfacts : ((fabric false byteOrders openPeer firstBytes).run (exchange ++
      [.post true false .receive [0, 1] 8 none, .post false true (.send none) [1] 10 none,
        .transfer false true])).any (fun w => decide (
      (∀ registration ∈ (w.hosts true).registrations,
        registration.access = AccessFlags.new.with_local_write) ∧
      ∃ f ∈ (w.queues (true, false, .receive)).finished, f.ok = true ∧ f.polled = false ∧
        (gather (w.hosts true).memory f.request.segments).take f.moved.length ≠ f.moved)) =
      true := by rfl
  obtain ⟨w, hrun, hfacts⟩ := (Option.any_eq_true _ _).mp hfacts
  obtain ⟨hlocal, hlost⟩ := of_decide_eq_true hfacts
  exact ⟨w, hrun, Host.private_of_local hlocal, hlost⟩

end Fabric

end IbverbsRs.Ibverbs
