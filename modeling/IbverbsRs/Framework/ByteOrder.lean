import IbverbsRs.Framework.Framing
import Mathlib.Data.List.Induction

namespace IbverbsRs.Framework

namespace BigEndian

theorem ofBytes_append_singleton (bytes : List UInt8) (b : UInt8) :
    ofBytes (bytes ++ [b]) = ofBytes bytes * 256 + b.toNat := by
  unfold ofBytes
  rw [List.foldl_append]
  rfl

theorem ofBytes_lt (bytes : List UInt8) : ofBytes bytes < 256 ^ bytes.length := by
  induction bytes using List.reverseRecOn with
  | nil => exact Nat.zero_lt_one
  | append_singleton bytes b ih =>
    have hlt := b.toNat_lt
    rw [ofBytes_append_singleton, List.length_append, List.length_singleton, Nat.pow_succ]
    omega

theorem toBytes_ofBytes (bytes : List UInt8) : toBytes bytes.length (ofBytes bytes) = bytes := by
  induction bytes using List.reverseRecOn with
  | nil => rfl
  | append_singleton bytes b ih =>
    have hlt := b.toNat_lt
    have hhead : (ofBytes bytes * 256 + b.toNat) / 256 = ofBytes bytes := by omega
    have hlast : UInt8.ofNat (ofBytes bytes * 256 + b.toNat) = b := by
      apply UInt8.toNat_inj.mp
      rw [UInt8.toNat_ofNat']
      omega
    rw [List.length_append, List.length_singleton, toBytes, ofBytes_append_singleton, hhead, ih,
      hlast]

end BigEndian

/-- How a machine lays the bytes of a word out in memory. -/
inductive ByteOrder
  | little
  | big
  deriving DecidableEq, Repr

namespace ByteOrder

open BigEndian

/-- The four bytes of a word as the machine has them in memory. -/
def toBytes (order : ByteOrder) (x : UInt32) : List UInt8 :=
  let digits := BigEndian.toBytes 4 x.toNat
  match order with
  | little => digits.reverse
  | big => digits

def ofBytes (order : ByteOrder) (bytes : List UInt8) : UInt32 :=
  match order with
  | little => UInt32.ofNat (BigEndian.ofBytes bytes.reverse)
  | big => UInt32.ofNat (BigEndian.ofBytes bytes)

theorem toBytes_little (x : UInt32) : little.toBytes x = (big.toBytes x).reverse := rfl

theorem ofBytes_little (bytes : List UInt8) : little.ofBytes bytes = big.ofBytes bytes.reverse :=
  rfl

theorem length_toBytes (order : ByteOrder) (x : UInt32) : (order.toBytes x).length = 4 := by
  have hbig : (big.toBytes x).length = 4 := BigEndian.length_toBytes 4 _
  cases order with
  | little => rw [toBytes_little, List.length_reverse, hbig]
  | big => exact hbig

theorem ofBytes_toBytes (order : ByteOrder) (x : UInt32) : order.ofBytes (order.toBytes x) = x := by
  have hbig : big.ofBytes (big.toBytes x) = x := by
    have hvalue : BigEndian.ofBytes (BigEndian.toBytes 4 x.toNat) = x.toNat :=
      BigEndian.ofBytes_toBytes x.toNat_lt
    exact (congrArg UInt32.ofNat hvalue).trans UInt32.ofNat_toNat
  cases order with
  | little => rw [toBytes_little, ofBytes_little, List.reverse_reverse, hbig]
  | big => exact hbig

theorem toBytes_ofBytes (order : ByteOrder) {bytes : List UInt8} (h : bytes.length = 4) :
    order.toBytes (order.ofBytes bytes) = bytes := by
  have hbig : ∀ bytes : List UInt8, bytes.length = 4 → big.toBytes (big.ofBytes bytes) = bytes := by
    intro bytes h
    have hlt : BigEndian.ofBytes bytes < UInt32.size := by
      have hdigits := BigEndian.ofBytes_lt bytes
      rwa [h] at hdigits
    have hword : (big.ofBytes bytes).toNat = BigEndian.ofBytes bytes :=
      UInt32.toNat_ofNat_of_lt' hlt
    have hdigits := BigEndian.toBytes_ofBytes bytes
    rw [h] at hdigits
    exact (congrArg (BigEndian.toBytes 4) hword).trans hdigits
  cases order with
  | little =>
    rw [toBytes_little, ofBytes_little, hbig _ (by rw [List.length_reverse, h]),
      List.reverse_reverse]
  | big => exact hbig _ h

/-- `u32::swap_bytes` -/
def swap_bytes (x : UInt32) : UInt32 := little.ofBytes (big.toBytes x)

/-- `u32::to_be` on a machine of this order. -/
def to_be : ByteOrder → UInt32 → UInt32
  | big, x => x
  | little, x => swap_bytes x

/-- `u32::from_be` on a machine of this order. -/
def from_be : ByteOrder → UInt32 → UInt32
  | big, x => x
  | little, x => swap_bytes x

/-- Whatever the machine, the bytes of the converted word are the big-endian ones. -/
theorem toBytes_to_be (order : ByteOrder) (x : UInt32) :
    order.toBytes (order.to_be x) = big.toBytes x := by
  cases order with
  | little => exact toBytes_ofBytes little (length_toBytes big x)
  | big => rfl

theorem from_be_ofBytes (order : ByteOrder) (x : UInt32) :
    order.from_be (order.ofBytes (big.toBytes x)) = x := by
  cases order with
  | little =>
    have hbytes : big.toBytes (little.ofBytes (big.toBytes x)) = (big.toBytes x).reverse := by
      rw [ofBytes_little, toBytes_ofBytes]
      rw [List.length_reverse, length_toBytes]
    rw [from_be, swap_bytes, hbytes, ofBytes_little, List.reverse_reverse, ofBytes_toBytes]
  | big => exact ofBytes_toBytes big x

/-- A word that one machine converts and another one converts back has crossed the wire. -/
theorem from_be_to_be (sender receiver : ByteOrder) (x : UInt32) :
    receiver.from_be (receiver.ofBytes (sender.toBytes (sender.to_be x))) = x := by
  rw [toBytes_to_be, from_be_ofBytes]

end ByteOrder

end IbverbsRs.Framework
