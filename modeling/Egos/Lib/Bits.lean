import Egos.Lib.Words
import Mathlib.Data.Nat.Bitwise

/-! Sets of small numbers stored as single bits of a byte buffer. -/

namespace Egos

section Bits

variable {size : Nat} (buffer : Buffer size)

/-- Whether a bit of the buffer is set. -/
def Buffer.testBit (i : Nat) : Bool := buffer.byte (i / 8) &&& 1 <<< (i % 8) ≠ 0

/-- Sets a bit of the buffer. -/
def Buffer.setBit (i : Nat) : Buffer size :=
  buffer.setIfInBounds (i / 8) (UInt8.ofNat (buffer.byte (i / 8) ||| 1 <<< (i % 8)))

/-- Clears a bit of the buffer. -/
def Buffer.clearBit (i : Nat) : Buffer size :=
  buffer.setIfInBounds (i / 8) (UInt8.ofNat (buffer.byte (i / 8) &&& (255 ^^^ 1 <<< (i % 8))))

/-- A bit of the buffer is a bit of one of its bytes. -/
theorem Buffer.testBit_eq (i : Nat) :
    buffer.testBit i = (buffer.byte (i / 8)).testBit (i % 8) := by
  simp only [Buffer.testBit, Nat.shiftLeft_eq, Nat.one_mul]
  cases bit : (buffer.byte (i / 8)).testBit (i % 8) with
  | false => simp [Nat.and_two_pow, bit]
  | true => simp [Nat.and_two_pow, bit]

/-- Storing a byte replaces that byte and no other. -/
theorem Buffer.byte_setIfInBounds (at_ other : Nat) (value : UInt8) (inside : at_ < size) :
    Buffer.byte (buffer.setIfInBounds at_ value) other =
      if at_ = other then value.toNat else buffer.byte other := by
  simp only [Buffer.byte, Vector.getElem?_setIfInBounds]
  split
  · simp
  · rfl

/-- Setting a bit adds it to the set and changes no other. -/
theorem Buffer.testBit_setBit {i : Nat} (inside : i / 8 < size) (other : Nat) :
    (buffer.setBit i).testBit other = (decide (i = other) || buffer.testBit other) := by
  rw [Buffer.testBit_eq, Buffer.testBit_eq, Buffer.setBit, buffer.byte_setIfInBounds _ _ _ inside]
  split
  · -- Both bits are in the same byte.
    rename_i same
    have low : other % 8 < 8 := Nat.mod_lt _ (by decide)
    have bit : i % 8 = other % 8 ↔ i = other := by omega
    rw [UInt8.toNat_ofNat', Nat.testBit_mod_two_pow, Nat.testBit_or, Nat.shiftLeft_eq, Nat.one_mul,
      Nat.testBit_two_pow, same, Bool.or_comm]
    simp [low, bit]
  · rename_i different
    have apart : i ≠ other := by
      rintro rfl
      exact different rfl
    simp [apart]

/-- Clearing a bit removes it from the set and changes no other. -/
theorem Buffer.testBit_clearBit {i : Nat} (inside : i / 8 < size) (other : Nat) :
    (buffer.clearBit i).testBit other = (decide (i ≠ other) && buffer.testBit other) := by
  -- Bits of other bytes are not touched; within the byte only bit `i % 8` is cleared.
  rw [Buffer.testBit_eq, Buffer.testBit_eq, Buffer.clearBit,
    buffer.byte_setIfInBounds _ _ _ inside]
  split
  · rename_i same
    have low : other % 8 < 8 := Nat.mod_lt _ (by decide)
    have bit : i % 8 = other % 8 ↔ i = other := by omega
    have ones : Nat.testBit 255 (other % 8) = true := by
      rw [show 255 = 2 ^ 8 - 1 from rfl, Nat.testBit_two_pow_sub_one]
      simpa using low
    rw [UInt8.toNat_ofNat', Nat.testBit_mod_two_pow, Nat.testBit_and, Nat.testBit_xor,
      Nat.shiftLeft_eq, Nat.one_mul, Nat.testBit_two_pow, same, Bool.and_comm, ones]
    by_cases equal : i = other
    · simp [equal]
    · simp [low, bit, equal]
  · rename_i different
    have apart : i ≠ other := by
      rintro rfl
      exact different rfl
    simp [apart]

/-- The zero buffer has no bit set. -/
@[simp] theorem Buffer.testBit_zero (i : Nat) : (Buffer.zero size).testBit i = false := by
  simp [Buffer.testBit]

end Bits

end Egos
