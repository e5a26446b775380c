import Mathlib.Algebra.Group.Nat.Defs
import Mathlib.Data.List.Basic
import Mathlib.Tactic.Common

namespace IbverbsRs.Framework

namespace BigEndian

/-- The last `width` base-256 digits of a number, most significant first. -/
def toBytes : Nat → Nat → List UInt8
  | 0, _ => []
  | width + 1, n => toBytes width (n / 256) ++ [UInt8.ofNat n]

def ofBytes (bytes : List UInt8) : Nat := bytes.foldl (fun n b => n * 256 + b.toNat) 0

theorem length_toBytes (width n : Nat) : (toBytes width n).length = width := by
  induction width generalizing n with
  | zero => rfl
  | succ width ih => simp [toBytes, ih]

theorem ofBytes_toBytes {width n : Nat} (h : n < 256 ^ width) :
    ofBytes (toBytes width n) = n := by
  induction width generalizing n with
  | zero =>
    have hzero : n = 0 := by simpa using h
    rw [hzero]
    rfl
  | succ width ih =>
    have hdiv : n / 256 < 256 ^ width := by
      rw [Nat.pow_succ] at h
      omega
    have hdigits := ih hdiv
    unfold ofBytes at hdigits ⊢
    rw [toBytes, List.foldl_append, hdigits]
    simp only [List.foldl_cons, List.foldl_nil, UInt8.toNat_ofNat']
    omega

end BigEndian

/-- Reads exactly `n` bytes, or waits for more (`none`). -/
def read_exact (n : Nat) (buf : List UInt8) : Option (List UInt8 × List UInt8) :=
  if buf.length < n then none else some (buf.take n, buf.drop n)

theorem read_exact_append {bytes rest : List UInt8} {n : Nat} (h : bytes.length = n) :
    read_exact n (bytes ++ rest) = some (bytes, rest) := by
  subst h
  simp [read_exact]

/-- A payload behind its length in `width` bytes. -/
def frame (width : Nat) (payload : List UInt8) : List UInt8 :=
  BigEndian.toBytes width payload.length ++ payload

def readFrame (width : Nat) (buf : List UInt8) : Option (List UInt8 × List UInt8) :=
  (read_exact width buf).bind (fun (size, buf) => read_exact (BigEndian.ofBytes size) buf)

theorem length_frame (width : Nat) (payload : List UInt8) :
    (frame width payload).length = width + payload.length := by
  simp [frame, BigEndian.length_toBytes]

theorem readFrame_frame {width : Nat} {payload : List UInt8} (h : payload.length < 256 ^ width)
    (rest : List UInt8) : readFrame width (frame width payload ++ rest) = some (payload, rest) := by
  have hsize : read_exact width (frame width payload ++ rest) =
      some (BigEndian.toBytes width payload.length, payload ++ rest) := by
    rw [frame, List.append_assoc]
    exact read_exact_append (BigEndian.length_toBytes _ _)
  rw [readFrame, hsize, Option.bind_some]
  dsimp only
  rw [BigEndian.ofBytes_toBytes h]
  exact read_exact_append rfl

/-- A reader of a frame waits until the frame has arrived to its last byte. -/
theorem readFrame_part {width : Nat} {payload arrived missing : List UInt8}
    (h : payload.length < 256 ^ width) (hpart : arrived ++ missing = frame width payload)
    (hmissing : missing ≠ []) : readFrame width arrived = none := by
  by_cases hwidth : arrived.length < width
  · simp [readFrame, read_exact, hwidth]
  · -- the length is there, the payload is not
    have hlen : arrived.length + missing.length = width + payload.length := by
      rw [← List.length_append, hpart, length_frame]
    have hpos := List.length_pos_iff.mpr hmissing
    have hsize : arrived.take width = BigEndian.toBytes width payload.length := by
      have htake := congrArg (List.take width) hpart
      rw [List.take_append_of_le_length (Nat.le_of_not_lt hwidth), frame,
        List.take_append_of_le_length (Nat.le_of_eq (BigEndian.length_toBytes _ _).symm)] at htake
      rw [htake]
      exact List.take_of_length_le (Nat.le_of_eq (BigEndian.length_toBytes _ _))
    have hshort : (arrived.drop width).length < payload.length := by
      rw [List.length_drop]
      omega
    simp only [readFrame, read_exact, hwidth, if_false, Option.bind_some, hsize,
      BigEndian.ofBytes_toBytes h, hshort, if_true]

end IbverbsRs.Framework
