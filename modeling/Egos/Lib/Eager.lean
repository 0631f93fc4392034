import Mathlib.Data.Fin.Tuple.Basic

/-! Values that are evaluated before they are passed on. -/

namespace Egos

variable {α β : Type}

/-- Passes on the first of some literals that equals a value, or else the value as it is. -/
def passOn [DecidableEq α] (value : α) (rest : α → β) : List α → β
  | [] => rest value
  | literal :: literals => if value = literal then rest literal else passOn value rest literals

/-- A value that is passed on is the same value. -/
@[simp] theorem passOn_eq [DecidableEq α] (value : α) (rest : α → β) (literals : List α) :
    passOn value rest literals = rest value := by
  induction literals with
  | nil => rfl
  | cons literal literals ih =>
    unfold passOn
    split
    · rename_i same
      rw [same]
    · exact ih

/-- Passes on a table once each of its entries has been passed on. -/
def passTable (pass : α → (α → β) → β) : (n : Nat) → (Fin n → α) → ((Fin n → α) → β) → β
  | 0, table, rest => rest table
  | n + 1, table, rest =>
    pass (table 0) fun first =>
      passTable pass n (fun i => table i.succ) fun others => rest (Fin.cons first others)

/-- A table that is passed on is the same table. -/
theorem passTable_eq {pass : α → (α → β) → β} (exact : ∀ value rest, pass value rest = rest value)
    {n : Nat} (table : Fin n → α) (rest : (Fin n → α) → β) :
    passTable pass n table rest = rest table := by
  induction n with
  | zero => rfl
  | succ n ih =>
    rw [passTable, exact, ih]
    exact congrArg rest (Fin.cons_self_tail table)

end Egos
