import Mathlib.Algebra.Group.Nat.Defs
import Mathlib.Tactic.Common

namespace IbverbsRs.Framework

/-- The bytes of a 64-bit address space. -/
abbrev ByteMemory := UInt64 → UInt8

namespace ByteMemory

/-- The little-endian number in the `width` bytes from `addr` on. -/
def load (m : ByteMemory) (addr : UInt64) : Nat → Nat
  | 0 => 0
  | width + 1 => load m addr width + (m (addr + UInt64.ofNat width)).toNat * 256 ^ width

def store (m : ByteMemory) (addr : UInt64) (width value : Nat) : ByteMemory :=
  fun x => if (x - addr).toNat < width then UInt8.ofNat (value / 256 ^ (x - addr).toNat) else m x

/-- Brings `width` bytes of another memory. -/
def copy (m : ByteMemory) (addr : UInt64) (width : Nat) (src : ByteMemory) (src_addr : UInt64) :
    ByteMemory :=
  fun x => if (x - addr).toNat < width then src (src_addr + (x - addr)) else m x

variable {m m' : ByteMemory} {addr : UInt64} {width : Nat}

theorem add_ofNat_sub (addr : UInt64) (k : Nat) : addr + UInt64.ofNat k - addr = UInt64.ofNat k := by
  rw [UInt64.add_comm, UInt64.add_sub_cancel]

theorem toNat_offset {k : Nat} (hk : k < 2 ^ 64) : (addr + UInt64.ofNat k - addr).toNat = k := by
  rw [add_ofNat_sub, UInt64.toNat_ofNat_of_lt' hk]

theorem add_ofNat_zero (addr : UInt64) : addr + UInt64.ofNat 0 = addr := UInt64.add_zero addr

theorem toNat_add_ofNat {k : Nat} (h : addr.toNat + k < 2 ^ 64) :
    (addr + UInt64.ofNat k).toNat = addr.toNat + k := by
  have hk : k < UInt64.size := Nat.lt_of_le_of_lt (Nat.le_add_left _ _) h
  rw [UInt64.toNat_add, UInt64.toNat_ofNat_of_lt' hk, Nat.mod_eq_of_lt h]

theorem load_congr (h : ∀ k < width, m (addr + UInt64.ofNat k) = m' (addr + UInt64.ofNat k)) :
    m.load addr width = m'.load addr width := by
  induction width with
  | zero => rfl
  | succ width ih =>
    rw [load, load, h width (Nat.lt_succ_self _), ih (fun k hk => h k (Nat.lt_succ_of_lt hk))]

theorem load_zero (addr : UInt64) (width : Nat) : load (fun _ => 0) addr width = 0 := by
  induction width with
  | zero => rfl
  | succ width ih =>
    rw [load, ih, UInt8.toNat_zero, Nat.zero_mul]

/-- What was stored is loaded, as far as it fits. -/
theorem load_store {stored value : Nat} (hle : width ≤ stored) (hfits : stored ≤ 2 ^ 64) :
    (m.store addr stored value).load addr width = value % 256 ^ width := by
  induction width with
  | zero => simp [load, Nat.mod_one]
  | succ width ih =>
    have hbyte : m.store addr stored value (addr + UInt64.ofNat width) =
        UInt8.ofNat (value / 256 ^ width) := by
      rw [store, toNat_offset (by omega), if_pos (by omega)]
    have hdigit : value % 256 ^ (width + 1) =
        value % 256 ^ width + 256 ^ width * (value / 256 ^ width % 256) := Nat.mod_pow_succ
    rw [load, ih (by omega), hbyte, UInt8.toNat_ofNat', hdigit, Nat.mul_comm]

theorem load_copy {copied : Nat} {src : ByteMemory} {src_addr : UInt64} (hle : width ≤ copied)
    (hfits : copied ≤ 2 ^ 64) :
    (m.copy addr copied src src_addr).load addr width = src.load src_addr width := by
  induction width with
  | zero => rfl
  | succ width ih =>
    have hbyte : m.copy addr copied src src_addr (addr + UInt64.ofNat width) =
        src (src_addr + UInt64.ofNat width) := by
      rw [copy, toNat_offset (by omega), if_pos (by omega), add_ofNat_sub]
    rw [load, load, ih (by omega), hbyte]

section Disjoint

variable {addr' : UInt64} {width' : Nat}

theorem outside_of_disjoint (hfits : addr.toNat + width ≤ 2 ^ 64)
    (hfits' : addr'.toNat + width' ≤ 2 ^ 64)
    (h : addr'.toNat + width' ≤ addr.toNat ∨ addr.toNat + width ≤ addr'.toNat) {k : Nat}
    (hk : k < width') : ¬ (addr' + UInt64.ofNat k - addr).toNat < width := by
  have hx := @toNat_add_ofNat addr' k (by omega)
  have hlt := addr.toNat_lt
  rw [UInt64.toNat_sub, hx]
  omega

theorem load_store_disjoint {value : Nat} (hfits : addr.toNat + width ≤ 2 ^ 64)
    (hfits' : addr'.toNat + width' ≤ 2 ^ 64)
    (h : addr'.toNat + width' ≤ addr.toNat ∨ addr.toNat + width ≤ addr'.toNat) :
    (m.store addr width value).load addr' width' = m.load addr' width' := by
  apply load_congr
  intro k hk
  exact if_neg (outside_of_disjoint hfits hfits' h hk)

theorem load_copy_disjoint {src : ByteMemory} {src_addr : UInt64}
    (hfits : addr.toNat + width ≤ 2 ^ 64) (hfits' : addr'.toNat + width' ≤ 2 ^ 64)
    (h : addr'.toNat + width' ≤ addr.toNat ∨ addr.toNat + width ≤ addr'.toNat) :
    (m.copy addr width src src_addr).load addr' width' = m.load addr' width' := by
  apply load_congr
  intro k hk
  exact if_neg (outside_of_disjoint hfits hfits' h hk)

end Disjoint

end ByteMemory

end IbverbsRs.Framework
