import Xul.Data.BitConverter

/-!
# Byte orders

`byte_order` converts unsigned integers between the order of the host, which is little-endian,
and its own.  It reverses their bytes by masks and shifts, and those of an integer of 64 bits
by halves; in memory the bytes of a converted integer are in the order of the converter
(`bytesOf_convertWord`, `bytesOf_convertDword`, `bytesOf_convertQword`).
-/

set_option autoImplicit false

namespace Xul

open Foundation

namespace BitConverter

/-- The integer with these halves. -/
def makeQword (high low : UInt32) : UInt64 := high.toUInt64 <<< 32 ||| low.toUInt64

def highDword (x : UInt64) : UInt32 := (x >>> 32).toUInt32

def lowDword (x : UInt64) : UInt32 := x.toUInt32

end BitConverter

/-- `byte_order`; the order of the host is little-endian. -/
structure ByteOrder where
  bigEndian : Bool
deriving DecidableEq

namespace ByteOrder

/-- The two bytes change places. -/
def reverseWord (val : UInt16) : UInt16 := (val &&& 0xff) <<< 8 ||| (val &&& 0xff00) >>> 8

/-- Each byte is masked and shifted to its place. -/
def reverseDword (n : UInt32) : UInt32 :=
  (n &&& 0xff) <<< 24 ||| (n &&& 0xff00) <<< 8 ||| (n &&& 0xff0000) >>> 8 |||
    (n &&& 0xff000000) >>> 24

/-- The halves are reversed, and change places. -/
def reverseQword (x : UInt64) : UInt64 :=
  let low := reverseDword (BitConverter.highDword x)
  let high := reverseDword (BitConverter.lowDword x)
  BitConverter.makeQword high low

/-- From the order of the host to this one, or back. -/
def convertWord (order : ByteOrder) (val : UInt16) : UInt16 :=
  if order.bigEndian then reverseWord val else val

def convertDword (order : ByteOrder) (val : UInt32) : UInt32 :=
  if order.bigEndian then reverseDword val else val

def convertQword (order : ByteOrder) (val : UInt64) : UInt64 :=
  if order.bigEndian then reverseQword val else val

/-! ## Masks and shifts -/

/-- The two parts have no bit in common, so that `|||` adds them. -/
theorem toNat_reverseWord (val : UInt16) :
    (reverseWord val).toNat = 2 ^ 8 * (val.toNat % 256) + val.toNat / 256 := by
  have bound := val.toNat_lt
  have first : ((val &&& 0xff) <<< 8).toNat = 2 ^ 8 * (val.toNat % 256) := by
    have mask : val.toNat &&& 255 = val.toNat % 256 := Nat.and_two_pow_sub_one_eq_mod _ 8
    rw [UInt16.toNat_shiftLeft, UInt16.toNat_and]
    show (val.toNat &&& 255) <<< 8 % 2 ^ 16 = _
    rw [mask, Nat.shiftLeft_eq]
    omega
  have second : ((val &&& 0xff00) >>> 8).toNat = val.toNat / 256 := by
    have mask := and_shiftLeft_byte val.toNat 8
    rw [UInt16.toNat_shiftRight, UInt16.toNat_and]
    show (val.toNat &&& 255 <<< 8) >>> 8 = _
    rw [mask, Nat.shiftRight_eq_div_pow]
    omega
  rw [reverseWord, UInt16.toNat_or, first, second]
  exact (Nat.two_pow_add_eq_or_of_lt (by omega) _).symm

/-- The four parts are added up from the lowest bytes. -/
theorem toNat_reverseDword (n : UInt32) :
    (reverseDword n).toNat = 2 ^ 24 * (n.toNat % 256) + 2 ^ 16 * (n.toNat / 256 % 256) +
      2 ^ 8 * (n.toNat / 2 ^ 16 % 256) + n.toNat / 2 ^ 24 := by
  have bound := n.toNat_lt
  have first : ((n &&& 0xff) <<< 24).toNat = 2 ^ 24 * (n.toNat % 256) := by
    have mask : n.toNat &&& 255 = n.toNat % 256 := Nat.and_two_pow_sub_one_eq_mod _ 8
    rw [UInt32.toNat_shiftLeft, UInt32.toNat_and]
    show (n.toNat &&& 255) <<< 24 % 2 ^ 32 = _
    rw [mask, Nat.shiftLeft_eq]
    omega
  have second : ((n &&& 0xff00) <<< 8).toNat = 2 ^ 16 * (n.toNat / 256 % 256) := by
    have mask := and_shiftLeft_byte n.toNat 8
    rw [UInt32.toNat_shiftLeft, UInt32.toNat_and]
    show (n.toNat &&& 255 <<< 8) <<< 8 % 2 ^ 32 = _
    rw [mask, Nat.shiftLeft_eq]
    omega
  have third : ((n &&& 0xff0000) >>> 8).toNat = 2 ^ 8 * (n.toNat / 2 ^ 16 % 256) := by
    have mask := and_shiftLeft_byte n.toNat 16
    rw [UInt32.toNat_shiftRight, UInt32.toNat_and]
    show (n.toNat &&& 255 <<< 16) >>> 8 = _
    rw [mask, Nat.shiftRight_eq_div_pow]
    omega
  have fourth : ((n &&& 0xff000000) >>> 24).toNat = n.toNat / 2 ^ 24 := by
    have mask := and_shiftLeft_byte n.toNat 24
    rw [UInt32.toNat_shiftRight, UInt32.toNat_and]
    show (n.toNat &&& 255 <<< 24) >>> 24 = _
    rw [mask, Nat.shiftRight_eq_div_pow]
    omega
  rw [reverseDword, UInt32.toNat_or, UInt32.toNat_or, UInt32.toNat_or, first, second, third,
    fourth, ← Nat.two_pow_add_eq_or_of_lt (by omega : 2 ^ 16 * (n.toNat / 256 % 256) < 2 ^ 24)]
  have high : 2 ^ 24 * (n.toNat % 256) + 2 ^ 16 * (n.toNat / 256 % 256) =
      2 ^ 16 * (2 ^ 8 * (n.toNat % 256) + n.toNat / 256 % 256) := by ring
  have middle : 2 ^ 16 * (2 ^ 8 * (n.toNat % 256) + n.toNat / 256 % 256) +
        2 ^ 8 * (n.toNat / 2 ^ 16 % 256) =
      2 ^ 8 * (2 ^ 8 * (2 ^ 8 * (n.toNat % 256) + n.toNat / 256 % 256) +
        n.toNat / 2 ^ 16 % 256) := by ring
  rw [high, ← Nat.two_pow_add_eq_or_of_lt (by omega), middle,
    ← Nat.two_pow_add_eq_or_of_lt (by omega)]

theorem toNat_makeQword (high low : UInt32) :
    (BitConverter.makeQword high low).toNat = 2 ^ 32 * high.toNat + low.toNat := by
  have above := high.toNat_lt
  have below := low.toNat_lt
  have shifted : (high.toUInt64 <<< 32).toNat = 2 ^ 32 * high.toNat := by
    rw [UInt64.toNat_shiftLeft]
    show high.toNat <<< 32 % 2 ^ 64 = _
    rw [Nat.shiftLeft_eq]
    omega
  rw [BitConverter.makeQword, UInt64.toNat_or, shifted, UInt32.toNat_toUInt64]
  exact (Nat.two_pow_add_eq_or_of_lt below _).symm

/-! ## The bytes in memory -/

/-- Reversing an integer reverses its bytes in memory. -/
theorem bytesOf_reverseWord (val : UInt16) :
    bytesOf 2 (reverseWord val).toNat = (bytesOf 2 val.toNat).reverse := by
  have bound := val.toNat_lt
  have value : (reverseWord val).toNat = littleEndian (bytesOf 2 val.toNat).reverse := by
    rw [toNat_reverseWord]
    simp only [bytesOf, List.reverse_cons, List.reverse_nil, List.nil_append, List.cons_append,
      littleEndian_cons, littleEndian_nil, UInt8.toNat_ofNat']
    omega
  have back := bytesOf_littleEndian (bytesOf 2 val.toNat).reverse
  rwa [List.length_reverse, length_bytesOf, ← value] at back

theorem bytesOf_reverseDword (n : UInt32) :
    bytesOf 4 (reverseDword n).toNat = (bytesOf 4 n.toNat).reverse := by
  have bound := n.toNat_lt
  have value : (reverseDword n).toNat = littleEndian (bytesOf 4 n.toNat).reverse := by
    rw [toNat_reverseDword]
    simp only [bytesOf, List.reverse_cons, List.reverse_nil, List.nil_append, List.cons_append,
      littleEndian_cons, littleEndian_nil, UInt8.toNat_ofNat', Nat.div_div_eq_div_mul,
      Nat.reduceMul, Nat.reducePow]
    omega
  have back := bytesOf_littleEndian (bytesOf 4 n.toNat).reverse
  rwa [List.length_reverse, length_bytesOf, ← value] at back

/-- **An integer of 64 bits is reversed by halves**: the bytes of each are reversed, and the
halves change places. -/
theorem bytesOf_reverseQword (x : UInt64) :
    bytesOf 8 (reverseQword x).toNat = (bytesOf 8 x.toNat).reverse := by
  have halves : ∀ high low : UInt32,
      bytesOf 8 (BitConverter.makeQword high low).toNat =
        bytesOf 4 low.toNat ++ bytesOf 4 high.toNat := by
    intro high low
    have below : low.toNat < 256 ^ 4 := low.toNat_lt
    rw [toNat_makeQword, Nat.add_comm]
    exact @bytesOf_add_mul low.toNat 4 below high.toNat 4
  have whole : BitConverter.makeQword (BitConverter.highDword x) (BitConverter.lowDword x) = x := by
    have bound := x.toNat_lt
    apply UInt64.toNat.inj
    rw [toNat_makeQword, BitConverter.highDword, BitConverter.lowDword, UInt64.toNat_toUInt32,
      UInt64.toNat_toUInt32, UInt64.toNat_shiftRight]
    show 2 ^ 32 * (x.toNat >>> 32 % 2 ^ 32) + x.toNat % 2 ^ 32 = x.toNat
    rw [Nat.shiftRight_eq_div_pow]
    omega
  have before := halves (BitConverter.highDword x) (BitConverter.lowDword x)
  rw [whole] at before
  rw [reverseQword, halves, bytesOf_reverseDword, bytesOf_reverseDword, before,
    List.reverse_append]

/-! ## Conversions -/

section Conversion

variable (order : ByteOrder)

/-- The bytes in memory are in the order that is converted to. -/
theorem bytesOf_convertWord (val : UInt16) :
    bytesOf 2 (order.convertWord val).toNat =
      if order.bigEndian then (bytesOf 2 val.toNat).reverse else bytesOf 2 val.toNat := by
  rw [convertWord]
  split
  · exact bytesOf_reverseWord val
  · rfl

theorem bytesOf_convertDword (val : UInt32) :
    bytesOf 4 (order.convertDword val).toNat =
      if order.bigEndian then (bytesOf 4 val.toNat).reverse else bytesOf 4 val.toNat := by
  rw [convertDword]
  split
  · exact bytesOf_reverseDword val
  · rfl

theorem bytesOf_convertQword (val : UInt64) :
    bytesOf 8 (order.convertQword val).toNat =
      if order.bigEndian then (bytesOf 8 val.toNat).reverse else bytesOf 8 val.toNat := by
  rw [convertQword]
  split
  · exact bytesOf_reverseQword val
  · rfl

/-- Converting back gives the integer again. -/
@[simp] theorem convertWord_convertWord (val : UInt16) :
    order.convertWord (order.convertWord val) = val := by
  apply UInt16.toNat.inj
  refine @eq_of_bytesOf 2 _ _ (UInt16.toNat_lt _) val.toNat_lt ?_
  rw [bytesOf_convertWord, bytesOf_convertWord]
  split
  · exact List.reverse_reverse _
  · rfl

@[simp] theorem convertDword_convertDword (val : UInt32) :
    order.convertDword (order.convertDword val) = val := by
  apply UInt32.toNat.inj
  refine @eq_of_bytesOf 4 _ _ (UInt32.toNat_lt _) val.toNat_lt ?_
  rw [bytesOf_convertDword, bytesOf_convertDword]
  split
  · exact List.reverse_reverse _
  · rfl

@[simp] theorem convertQword_convertQword (val : UInt64) :
    order.convertQword (order.convertQword val) = val := by
  apply UInt64.toNat.inj
  refine @eq_of_bytesOf 8 _ _ (UInt64.toNat_lt _) val.toNat_lt ?_
  rw [bytesOf_convertQword, bytesOf_convertQword]
  split
  · exact List.reverse_reverse _
  · rfl

end Conversion

end ByteOrder

end Xul
