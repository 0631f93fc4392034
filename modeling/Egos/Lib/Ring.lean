import Mathlib.Data.Fin.Basic
import Mathlib.Tactic.Common

/-! Places around a ring. -/

namespace Egos

variable {n : Nat}

/-- The place some steps ahead, around the ring. -/
def ahead (i : Fin n) (j : Nat) : Fin n :=
  ⟨(i.val + j) % n, Nat.mod_lt _ (Nat.lt_of_le_of_lt (Nat.zero_le _) i.isLt)⟩

/-- No step ahead is the place itself. -/
@[simp] theorem ahead_zero (i : Fin n) : ahead i 0 = i := Fin.ext (Nat.mod_eq_of_lt i.isLt)

/-- Steps after other steps. -/
theorem ahead_ahead (i : Fin n) (j k : Nat) : ahead (ahead i j) k = ahead i (j + k) := by
  apply Fin.ext
  simp only [ahead, Nat.mod_add_mod, Nat.add_assoc]

/-- Going around the ring once. -/
theorem ahead_add_size (i : Fin n) (j : Nat) : ahead i (j + n) = ahead i j := by
  apply Fin.ext
  simp only [ahead, ← Nat.add_assoc, Nat.add_mod_right]

/-- Fewer steps than there are places lead to different places. -/
theorem ahead_inj {i : Fin n} {j k : Nat} (first : j < n) (second : k < n) :
    ahead i j = ahead i k ↔ j = k := by
  constructor
  · intro same
    have bound := i.isLt
    have equal : (i.val + j) % n = (i.val + k) % n := congrArg Fin.val same
    -- Each of the two walks comes around the ring or does not.
    rcases Nat.lt_or_ge (i.val + j) n with low | high
    · rcases Nat.lt_or_ge (i.val + k) n with below | above
      · rw [Nat.mod_eq_of_lt low, Nat.mod_eq_of_lt below] at equal
        omega
      · rw [Nat.mod_eq_of_lt low, Nat.mod_eq_sub_mod above, Nat.mod_eq_of_lt (by omega)] at equal
        omega
    · rcases Nat.lt_or_ge (i.val + k) n with below | above
      · rw [Nat.mod_eq_sub_mod high, Nat.mod_eq_of_lt (by omega), Nat.mod_eq_of_lt below] at equal
        omega
      · rw [Nat.mod_eq_sub_mod high, Nat.mod_eq_of_lt (by omega), Nat.mod_eq_sub_mod above,
          Nat.mod_eq_of_lt (by omega)] at equal
        omega
  · intro same
    rw [same]

end Egos
