import Xul.Foundation.LittleEndian
import Xul.Std.Bytes

/-!
# Integers in either byte order

`bit_converter` reads and writes unsigned integers of two, four and eight bytes.
-/

set_option autoImplicit false

namespace Xul

open Foundation

/-- `bit_converter`: its byte order. -/
structure BitConverter where
  bigEndian : Bool
deriving DecidableEq

namespace BitConverter

/-- Bytes in the order of the converter, or back. -/
def order (converter : BitConverter) (bytes : Bytes) : Bytes :=
  if converter.bigEndian then bytes.reverse else bytes

/-- What the first bytes of the data are as an integer. -/
def toInteger (size : Nat) (converter : BitConverter) (data : Bytes) : Nat :=
  littleEndian (converter.order (data.take size))

/-- The bytes of an integer. -/
def fromInteger (size : Nat) (converter : BitConverter) (value : Nat) : Bytes :=
  converter.order (bytesOf size value)

def toWord : BitConverter → Bytes → Nat := toInteger 2

def toDword : BitConverter → Bytes → Nat := toInteger 4

def toQword : BitConverter → Bytes → Nat := toInteger 8

def fromWord : BitConverter → Nat → Bytes := fromInteger 2

def fromDword : BitConverter → Nat → Bytes := fromInteger 4

def fromQword : BitConverter → Nat → Bytes := fromInteger 8

@[simp] theorem length_order (converter : BitConverter) (bytes : Bytes) :
    (converter.order bytes).length = bytes.length := by
  rw [order]
  split
  · exact List.length_reverse
  · rfl

@[simp] theorem order_order (converter : BitConverter) (bytes : Bytes) :
    converter.order (converter.order bytes) = bytes := by
  simp only [order]
  split
  · exact List.reverse_reverse bytes
  · rfl

@[simp] theorem length_fromInteger (size : Nat) (converter : BitConverter) (value : Nat) :
    (fromInteger size converter value).length = size := by
  rw [fromInteger, length_order, length_bytesOf]

/-- An integer that is written is read back, whatever follows it. -/
theorem toInteger_fromInteger_append {size value : Nat} (converter : BitConverter)
    (fits : value < 256 ^ size) (rest : Bytes) :
    toInteger size converter (fromInteger size converter value ++ rest) = value := by
  have first : (fromInteger size converter value ++ rest).take size =
      fromInteger size converter value := by
    apply List.take_left'
    exact length_fromInteger size converter value
  rw [toInteger, first, fromInteger, order_order, littleEndian_bytesOf_of_lt fits]

/-- What follows an integer does not matter to what it is read as. -/
theorem toInteger_append {size : Nat} (converter : BitConverter) {data : Bytes}
    (enough : size ≤ data.length) (more : Bytes) :
    toInteger size converter (data ++ more) = toInteger size converter data := by
  rw [toInteger, List.take_append_of_le_length enough, toInteger]

example : toDword ⟨true⟩ [0x12, 0x34, 0x56, 0x78] = 0x12345678 := by decide

end BitConverter

end Xul
