import Mathlib.Algebra.Group.Nat.Defs
import Mathlib.Data.Nat.ModEq
import Mathlib.Tactic.Common

/-! Sums whose carry is brought around, as checksums use them. -/

namespace Egos.Ones

/-- What is left of a number after its carries have been brought around: zero only for zero. -/
def residue (modulus n : Nat) : Nat := if n = 0 then 0 else (n - 1) % modulus + 1

section Residues

variable {modulus m n : Nat}

/-- Nothing is left of zero. -/
@[simp] theorem residue_zero : residue modulus 0 = 0 := rfl

/-- A positive number leaves something. -/
theorem residue_pos (positive : 0 < n) : residue modulus n = (n - 1) % modulus + 1 :=
  if_neg (by omega)

/-- What is left is zero for zero only. -/
theorem residue_eq_zero : residue modulus n = 0 ↔ n = 0 := by
  unfold residue
  split <;> omega

/-- What is left does not exceed the modulus. -/
theorem residue_le (positive : 0 < modulus) : residue modulus n ≤ modulus := by
  unfold residue
  have below : (n - 1) % modulus < modulus := Nat.mod_lt _ positive
  split <;> omega

/-- A small number has no carry. -/
theorem residue_of_le (small : n ≤ modulus) : residue modulus n = n := by
  rcases Nat.eq_zero_or_pos n with rfl | positive
  · rfl
  · rw [residue_pos positive, Nat.mod_eq_of_lt (by omega)]
    omega

/-- What is left has the same remainder. -/
theorem residue_mod : residue modulus n % modulus = n % modulus := by
  rcases Nat.eq_zero_or_pos n with rfl | positive
  · rfl
  · rw [residue_pos positive, Nat.mod_add_mod]
    congr 1
    omega

/-- Two numbers leave the same if they have the same remainder and both are positive or zero. -/
theorem residue_congr (same : m % modulus = n % modulus) (zero : m = 0 ↔ n = 0) :
    residue modulus m = residue modulus n := by
  rcases Nat.eq_zero_or_pos m with rfl | positive
  · rw [zero.mp rfl]
  · have other : 0 < n := by omega
    rw [residue_pos positive, residue_pos other]
    -- The remainders stay the same one below.
    have below : (m - 1) % modulus = (n - 1) % modulus := by
      have lifted : (m - 1 + 1) % modulus = (n - 1 + 1) % modulus := by
        rw [Nat.sub_add_cancel positive, Nat.sub_add_cancel other]
        exact same
      exact Nat.ModEq.add_right_cancel' 1 lifted
    rw [below]

/-- Carries may be brought around after each step of a sum. -/
theorem residue_residue_add :
    residue modulus (residue modulus m + n) = residue modulus (m + n) := by
  apply residue_congr
  · rw [Nat.add_mod, residue_mod, ← Nat.add_mod]
  · have left : residue modulus m = 0 ↔ m = 0 := residue_eq_zero
    omega

/-- All digits of what is left are equal exactly for the multiples of the modulus. -/
theorem residue_iff_dvd (positive : 0 < modulus) :
    residue modulus n = 0 ∨ residue modulus n = modulus ↔ modulus ∣ n := by
  rw [Nat.dvd_iff_mod_eq_zero, ← residue_mod]
  have bound := residue_le (n := n) positive
  constructor
  · rintro (zero | whole)
    · rw [zero, Nat.zero_mod]
    · rw [whole, Nat.mod_self]
  · intro none
    rcases Nat.lt_or_ge (residue modulus n) modulus with small | large
    · rw [Nat.mod_eq_of_lt small] at none
      exact Or.inl none
    · exact Or.inr (by omega)

/-- Two small numbers that complete the same sum are equal, or they are the two zeros. -/
theorem eq_of_completes {base : Nat} (small : m ≤ modulus) (small' : n ≤ modulus)
    (completes : modulus ∣ base + m) (completes' : modulus ∣ base + n) :
    m = n ∨ m = 0 ∧ n = modulus ∨ m = modulus ∧ n = 0 := by
  -- The difference is a multiple, and it does not exceed the modulus.
  rcases Nat.le_total m n with less | less
  · have difference : modulus ∣ n - m := by
      have whole := Nat.dvd_sub completes' completes
      rwa [Nat.add_sub_add_left] at whole
    rcases Nat.eq_zero_or_pos (n - m) with none | some
    · omega
    · have large := Nat.le_of_dvd some difference
      omega
  · have difference : modulus ∣ m - n := by
      have whole := Nat.dvd_sub completes completes'
      rwa [Nat.add_sub_add_left] at whole
    rcases Nat.eq_zero_or_pos (m - n) with none | some
    · omega
    · have large := Nat.le_of_dvd some difference
      omega

end Residues

/-- Adds two numbers of sixteen bits and brings the carry around. -/
def add (sum t : UInt16) : UInt16 :=
  if sum + t < t then sum + t + 1 else sum + t

/-- A sum with its carry brought around is what is left of the sum. -/
theorem toNat_add (sum t : UInt16) :
    (add sum t).toNat = residue 65535 (sum.toNat + t.toNat) := by
  have first := sum.toNat_lt
  have second := t.toNat_lt
  unfold add
  simp only [UInt16.lt_iff_toNat_lt, UInt16.toNat_add]
  split
  · -- There is a carry, since the sum has become smaller.
    rename_i carry
    rw [residue_pos (by omega)]
    simp only [UInt16.toNat_add, UInt16.toNat_one]
    omega
  · rcases Nat.eq_zero_or_pos (sum.toNat + t.toNat) with none | positive
    · rw [none]
      simp only [UInt16.toNat_add, none, residue_zero]
    · rw [residue_of_le (by omega)]
      simp only [UInt16.toNat_add]
      omega

end Egos.Ones
