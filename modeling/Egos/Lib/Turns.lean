import Mathlib.Data.Fin.Basic
import Mathlib.Tactic.Common

/-! Turns around a table: whoever always comes first after the last one is not overtaken twice. -/

namespace Egos

variable {n : Nat}

/-- How many places lie between two places of a table, going around it. -/
def gap (start target : Fin n) : Nat :=
  if start.val < target.val then target.val - start.val - 1 else target.val + n - start.val - 1

/-- No gap is as long as the table. -/
theorem gap_lt_size (start target : Fin n) : gap start target < n := by
  have first := start.isLt
  have second := target.isLt
  unfold gap
  split <;> omega

/-- Going over the gap leads to the place behind it. -/
theorem place_of_gap (start target : Fin n) :
    (start.val + (1 + gap start target)) % n = target.val := by
  have first := start.isLt
  have second := target.isLt
  unfold gap
  split
  · rw [Nat.mod_eq_of_lt (by omega)]
    omega
  · -- The walk has gone around the table once.
    have around : start.val + (1 + (target.val + n - start.val - 1)) = target.val + n := by omega
    rw [around, Nat.add_mod_right, Nat.mod_eq_of_lt second]

/-- The gap to the place to which some steps lead. -/
theorem gap_of_place {start target : Fin n} {i : Nat} (inside : i < n)
    (place : target.val = (start.val + (1 + i)) % n) : gap start target = i := by
  have first := start.isLt
  unfold gap
  rw [place]
  by_cases wraps : start.val + (1 + i) < n
  · rw [Nat.mod_eq_of_lt wraps, if_pos (by omega)]
    omega
  · have around : (start.val + (1 + i)) % n = start.val + (1 + i) - n := by
      rw [Nat.mod_eq_sub_mod (by omega), Nat.mod_eq_of_lt (by omega)]
    rw [around, if_neg (by omega)]
    omega

/-- A turn: who had the last one, who could take it and who takes it. -/
structure Turn (n : Nat) where
  current : Fin n
  runnable : Fin n → Bool
  selected : Fin n

/-- The turn goes to the first one around the table who could take it. -/
def Turn.Fair (turn : Turn n) : Prop :=
  ∀ q, turn.runnable q → gap turn.current turn.selected ≤ gap turn.current q

/-- Who had the last turn. -/
def lastTurn (start : Fin n) (turns : List (Turn n)) : Fin n :=
  turns.foldl (fun _ turn => turn.selected) start

/-- Fair turns, each of which starts where the one before it has ended. -/
def Linked : Fin n → List (Turn n) → Prop
  | _, [] => True
  | start, turn :: turns => turn.current = start ∧ turn.Fair ∧ Linked turn.selected turns

/-- Turns that go on behind others. -/
theorem linked_append {first second : List (Turn n)} : ∀ {start : Fin n},
    Linked start (first ++ second) ↔ Linked start first ∧ Linked (lastTurn start first) second := by
  -- The second turns start where the first ones end.
  induction first with
  | nil => simp [Linked, lastTurn]
  | cons turn turns ih =>
    intro start
    simp only [List.cons_append, Linked, ih, and_assoc]
    rfl

/-- Coming closer to a place without passing it. -/
theorem gap_lt {start middle target : Fin n} (other : middle ≠ target)
    (before : gap start middle ≤ gap start target) : gap middle target < gap start target := by
  have apart : middle.val ≠ target.val := fun same => other (Fin.ext same)
  have first := start.isLt
  have second := middle.isLt
  have third := target.isLt
  unfold gap at before ⊢
  split at before <;> split at before <;> split <;> omega

/-- Turns that pass over a runnable one come closer to it, one by one. -/
theorem gap_lastTurn {q : Fin n} {turns : List (Turn n)} : ∀ {start : Fin n},
    Linked start turns → (∀ turn ∈ turns, turn.runnable q) → (∀ turn ∈ turns, turn.selected ≠ q) →
    gap (lastTurn start turns) q + turns.length ≤ gap start q := by
  -- Every turn starts at the place to which the one before it has come.
  induction turns with
  | nil => simp [lastTurn]
  | cons turn turns ih =>
    intro start linked runnable passed
    obtain ⟨rfl, fair, rest⟩ := linked
    have closer := gap_lt (passed turn (by simp)) (fair q (runnable turn (by simp)))
    have later := ih rest (fun other member => runnable other (by simp [member]))
      fun other member => passed other (by simp [member])
    rw [List.length_cons]
    change gap (lastTurn turn.selected turns) q + (turns.length + 1) ≤ _
    omega

/-- Whoever could take every turn gets one between two turns of anyone else. -/
theorem selected_between {start q : Fin n} {before between after : List (Turn n)}
    {first second : Turn n}
    (linked : Linked start (before ++ first :: between ++ second :: after))
    (runnable : ∀ turn ∈ between ++ [second], turn.runnable q) (other : first.selected ≠ q)
    (again : second.selected = first.selected) : ∃ turn ∈ between, turn.selected = q := by
  by_contra none
  have passed : ∀ turn ∈ between ++ [second], turn.selected ≠ q := by
    intro turn member
    rcases List.mem_append.mp member with inner | last
    · exact fun same => none ⟨turn, inner, same⟩
    · rw [List.mem_singleton.mp last, again]
      exact other
  -- Between the two turns the gap would get smaller and come back to what it was.
  have split : before ++ first :: between ++ second :: after =
      (before ++ [first]) ++ ((between ++ [second]) ++ after) := by simp
  rw [split, linked_append] at linked
  obtain ⟨-, inner⟩ := linked
  rw [linked_append] at inner
  have closer := gap_lastTurn inner.1 runnable passed
  have same : lastTurn (lastTurn start (before ++ [first])) (between ++ [second]) =
      lastTurn start (before ++ [first]) := by
    simp [lastTurn, again]
  rw [same, List.length_append, List.length_singleton] at closer
  omega

end Egos
