import Mathlib.Algebra.Group.Int.Defs
import Mathlib.Algebra.Group.Nat.Defs
import Mathlib.Tactic.Common

/-! Little-endian 32-bit words stored in fixed-size byte buffers. -/

namespace Egos

/-- A buffer of exactly `size` bytes. -/
abbrev Buffer (size : Nat) := Vector UInt8 size

/-- The byte at a position, reading zero past the end of the buffer. -/
def Buffer.byte {size : Nat} (buffer : Buffer size) (at_ : Nat) : Nat :=
  (buffer[at_]?.getD 0).toNat

/-- The 32-bit word at a word index, least significant byte first. -/
def Buffer.word {size : Nat} (buffer : Buffer size) (index : Nat) : Nat :=
  buffer.byte (4 * index) + 256 * buffer.byte (4 * index + 1) +
    65536 * buffer.byte (4 * index + 2) + 16777216 * buffer.byte (4 * index + 3)

/-- Stores the low 32 bits of a value at a word index and leaves every other byte alone. -/
def Buffer.setWord {size : Nat} (buffer : Buffer size) (index value : Nat) : Buffer size :=
  Vector.ofFn fun k : Fin size =>
    if k.val / 4 = index then UInt8.ofNat (value / 256 ^ (k.val % 4)) else buffer[k]

/-- A buffer whose bytes are all zero. -/
def Buffer.zero (size : Nat) : Buffer size := Vector.replicate size 0

/-- Every byte of the zero buffer reads zero, also past its end. -/
@[simp] theorem Buffer.byte_zero (size at_ : Nat) : (Buffer.zero size).byte at_ = 0 := by
  simp only [Buffer.byte, Buffer.zero, Vector.getElem?_replicate]
  split <;> rfl

/-- Every word of the zero buffer is zero. -/
@[simp] theorem Buffer.word_zero (size index : Nat) : (Buffer.zero size).word index = 0 := by
  simp [Buffer.word]

/-- A byte read from a buffer fits in eight bits. -/
theorem Buffer.byte_lt {size : Nat} (buffer : Buffer size) (at_ : Nat) :
    buffer.byte at_ < 256 := by
  simpa [Buffer.byte] using (buffer[at_]?.getD 0).toNat_lt

/-- A word read from a buffer fits in 32 bits. -/
theorem Buffer.word_lt {size : Nat} (buffer : Buffer size) (index : Nat) :
    buffer.word index < 2 ^ 32 := by
  have first := buffer.byte_lt (4 * index)
  have second := buffer.byte_lt (4 * index + 1)
  have third := buffer.byte_lt (4 * index + 2)
  have fourth := buffer.byte_lt (4 * index + 3)
  simp only [Buffer.word]
  omega

/-- After a word store a byte belongs either to the stored word or to the old buffer. -/
theorem Buffer.byte_setWord {size : Nat} (buffer : Buffer size) (index value at_ : Nat)
    (inside : at_ < size) :
    (buffer.setWord index value).byte at_ =
      if at_ / 4 = index then value / 256 ^ (at_ % 4) % 256 else buffer.byte at_ := by
  simp only [Buffer.byte, Buffer.setWord, Vector.getElem?_eq_getElem inside, Option.getD_some,
    Vector.getElem_ofFn]
  split
  · simp
  · rfl

/-- A stored word reads back as its low 32 bits. -/
theorem Buffer.word_setWord_same {size : Nat} (buffer : Buffer size) {index : Nat} (value : Nat)
    (inside : 4 * index + 4 ≤ size) :
    (buffer.setWord index value).word index = value % 2 ^ 32 := by
  -- The four bytes are the base-256 digits of the value.
  simp only [Buffer.word]
  rw [Buffer.byte_setWord _ _ _ _ (by omega), Buffer.byte_setWord _ _ _ _ (by omega),
    Buffer.byte_setWord _ _ _ _ (by omega), Buffer.byte_setWord _ _ _ _ (by omega)]
  have zero : 4 * index / 4 = index ∧ 4 * index % 4 = 0 := by omega
  have one : (4 * index + 1) / 4 = index ∧ (4 * index + 1) % 4 = 1 := by omega
  have two : (4 * index + 2) / 4 = index ∧ (4 * index + 2) % 4 = 2 := by omega
  have three : (4 * index + 3) / 4 = index ∧ (4 * index + 3) % 4 = 3 := by omega
  rw [zero.1, zero.2, one.1, one.2, two.1, two.2, three.1, three.2]
  simp only [if_true, Nat.pow_zero, Nat.reducePow, Nat.pow_one]
  omega

/-- A word store leaves every other word alone. -/
theorem Buffer.word_setWord_ne {size : Nat} (buffer : Buffer size) {index other : Nat}
    (value : Nat) (inside : 4 * other + 4 ≤ size) (different : other ≠ index) :
    (buffer.setWord index value).word other = buffer.word other := by
  simp only [Buffer.word]
  rw [Buffer.byte_setWord _ _ _ _ (by omega), Buffer.byte_setWord _ _ _ _ (by omega),
    Buffer.byte_setWord _ _ _ _ (by omega), Buffer.byte_setWord _ _ _ _ (by omega)]
  rw [if_neg (by omega), if_neg (by omega), if_neg (by omega), if_neg (by omega)]

/-- Copies bytes into the buffer from a position on, as far as they fit. -/
def Buffer.splice {size : Nat} (buffer : Buffer size) (at_ : Nat) (bytes : List UInt8) :
    Buffer size :=
  Vector.ofFn fun k : Fin size =>
    if at_ ≤ k.val then bytes[k.val - at_]?.getD buffer[k] else buffer[k]

/-- A byte inside the copied range is the copied one. -/
theorem Buffer.byte_splice_inside {size : Nat} (buffer : Buffer size) {at_ k : Nat}
    {bytes : List UInt8} (copied : k < bytes.length) (fits : at_ + k < size) :
    (buffer.splice at_ bytes).byte (at_ + k) = bytes[k].toNat := by
  simp [Buffer.byte, Buffer.splice, Vector.getElem?_eq_getElem fits, copied]

/-- A byte outside the copied range stays. -/
theorem Buffer.byte_splice_outside {size : Nat} (buffer : Buffer size) {at_ other : Nat}
    {bytes : List UInt8} (outside : other < at_ ∨ at_ + bytes.length ≤ other) :
    (buffer.splice at_ bytes).byte other = buffer.byte other := by
  unfold Buffer.byte
  rcases Nat.lt_or_ge other size with inside | past
  · rw [Vector.getElem?_eq_getElem inside, Vector.getElem?_eq_getElem inside]
    simp only [Buffer.splice, Vector.getElem_ofFn]
    split
    · rename_i behind
      rw [List.getElem?_eq_none (by omega)]
      rfl
    · rfl
  · rw [Vector.getElem?_eq_none past, Vector.getElem?_eq_none past]

end Egos
