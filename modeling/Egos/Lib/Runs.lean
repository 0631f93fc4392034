import Mathlib.Logic.Relation
import Mathlib.Tactic.Common

/-! Runs of labelled transition systems whose steps show events, and cycles of relations. -/

namespace Egos

/-- What no element of a list changes is not changed by all of them. -/
theorem foldl_of_fixed {α β : Type} {f : β → α → β} {b : β} {l : List α}
    (fixed : ∀ a ∈ l, f b a = b) : l.foldl f b = b := by
  induction l with
  | nil => rfl
  | cons a l ih =>
    rw [List.foldl_cons, fixed a List.mem_cons_self]
    apply ih
    intro a member
    exact fixed a (List.mem_cons_of_mem _ member)

section Runs

variable {State Label Event : Type}

/-- The states that a run can reach from a start state, with everything it has shown so far. -/
inductive Run (step : State → Label → State → List Event → Prop) (start : State) :
    State → List Event → Prop
  | start : Run step start start []
  | step {state next : State} {label : Label} {history events : List Event}
      (earlier : Run step start state history) (taken : step state label next events) :
      Run step start next (history ++ events)

variable {step : State → Label → State → List Event → Prop} {start state : State}
variable {history : List Event}

/-- What holds at the start and is preserved by every step holds after every run. -/
theorem Run.invariant (holds : State → List Event → Prop) (initially : holds start [])
    (preserved : ∀ state label next history events, holds state history →
      step state label next events → holds next (history ++ events))
    (run : Run step start state history) : holds state history := by
  induction run with
  | start => exact initially
  | step earlier taken ih => exact preserved _ _ _ _ _ ih taken

/-- A run with fewer permitted steps is a run. -/
theorem Run.mono {larger : State → Label → State → List Event → Prop}
    (included : ∀ state label next events, step state label next events →
      larger state label next events)
    (run : Run step start state history) : Run larger start state history := by
  induction run with
  | start => exact .start
  | step earlier taken ih => exact .step ih (included _ _ _ _ taken)

end Runs

section Follow

variable {State Label Event Error : Type} {permits : State → Label → Prop}
variable [∀ state label, Decidable (permits state label)]
variable {next : State → Label → Except Error (State × List Event)}

/-- Follows a list of labels as long as each of them is permitted and succeeds. -/
def follow (permits : State → Label → Prop) [∀ state label, Decidable (permits state label)]
    (next : State → Label → Except Error (State × List Event)) (state : State) :
    List Label → Option (State × List Event)
  | [] => some (state, [])
  | label :: labels =>
    if permits state label then
      match next state label with
      | .ok (after, events) =>
        (follow permits next after labels).map fun (final, rest) => (final, events ++ rest)
      | .error _ => none
    else none

/-- Followed labels are a run of the permitted steps. -/
theorem run_of_follow {start state final : State} {history rest : List Event}
    {labels : List Label}
    (earlier : Run (fun state label after events =>
      permits state label ∧ next state label = .ok (after, events)) start state history)
    (followed : follow permits next state labels = some (final, rest)) :
    Run (fun state label after events =>
      permits state label ∧ next state label = .ok (after, events)) start final
      (history ++ rest) := by
  -- Each label extends the run by one step.
  induction labels generalizing state history rest with
  | nil =>
    simp only [follow, Option.some.injEq, Prod.mk.injEq] at followed
    obtain ⟨rfl, rfl⟩ := followed
    rw [List.append_nil]
    exact earlier
  | cons label labels ih =>
    simp only [follow] at followed
    split at followed
    · rename_i permitted
      split at followed
      · rename_i after events stepped
        simp only [Option.map_eq_some_iff] at followed
        obtain ⟨⟨last, shown⟩, tail, same⟩ := followed
        obtain ⟨rfl, rfl⟩ := Prod.mk.inj same
        rw [← List.append_assoc]
        exact ih (.step earlier ⟨permitted, stepped⟩) tail
      · cases followed
    · cases followed

/-- The last of the followed labels is a step from where the others lead. -/
theorem follow_concat {start final : State} {history : List Event} {label : Label}
    {labels : List Label} :
    follow permits next start (labels ++ [label]) = some (final, history) ↔
      ∃ state earlier events, follow permits next start labels = some (state, earlier) ∧
        permits state label ∧ next state label = .ok (final, events) ∧
        history = earlier ++ events := by
  -- The first label is followed on both sides, and the rest by induction.
  induction labels generalizing start history with
  | nil =>
    simp only [List.nil_append, follow]
    split
    · rename_i permitted
      split
      · rename_i after events stepped
        simp only [Option.map_some, List.append_nil, Option.some.injEq, Prod.mk.injEq]
        constructor
        · rintro ⟨rfl, rfl⟩
          exact ⟨start, [], events, ⟨rfl, rfl⟩, permitted, stepped, rfl⟩
        · rintro ⟨state, earlier, shown, ⟨rfl, rfl⟩, -, same, rfl⟩
          rw [stepped, Except.ok.injEq, Prod.mk.injEq] at same
          exact ⟨same.1, same.2⟩
      · rename_i failed
        simp only [Option.some.injEq, Prod.mk.injEq, reduceCtorEq, false_iff]
        rintro ⟨state, earlier, shown, ⟨rfl, rfl⟩, -, same, -⟩
        rw [failed] at same
        cases same
    · rename_i refused
      simp only [Option.some.injEq, Prod.mk.injEq, reduceCtorEq, false_iff]
      rintro ⟨state, earlier, shown, ⟨rfl, rfl⟩, permitted, -⟩
      exact refused permitted
  | cons first labels ih =>
    simp only [List.cons_append, follow]
    split
    · split
      · rename_i after events stepped
        simp only [Option.map_eq_some_iff, Prod.exists, Prod.mk.injEq]
        constructor
        · rintro ⟨last, rest, tail, rfl, rfl⟩
          obtain ⟨state, earlier, shown, before, permitted, taken, rfl⟩ := ih.mp tail
          exact ⟨state, events ++ earlier, shown, ⟨state, earlier, before, rfl, rfl⟩, permitted,
            taken, (List.append_assoc _ _ _).symm⟩
        · rintro ⟨state, _, shown, ⟨_, earlier, before, rfl, rfl⟩, permitted, taken, rfl⟩
          exact ⟨final, earlier ++ shown, ih.mpr ⟨_, earlier, shown, before, permitted, taken, rfl⟩,
            rfl, (List.append_assoc _ _ _).symm⟩
      · simp
    · simp

end Follow

section Steps

variable {State Label Event : Type} {next : State → Label → Option (State × List Event)}

/-- Takes one step for each label, as long as there is one. -/
def takeSteps (next : State → Label → Option (State × List Event)) (state : State) :
    List Label → Option (State × List Event)
  | [] => some (state, [])
  | label :: labels =>
    match next state label with
    | none => none
    | some (after, events) =>
      (takeSteps next after labels).map fun (final, rest) => (final, events ++ rest)

/-- The steps for labels that are permitted are a run. -/
theorem run_of_takeSteps {permits : State → Label → Prop} {start state final : State}
    {history rest : List Event} {labels : List Label}
    (permitted : ∀ label ∈ labels, ∀ state, permits state label)
    (earlier : Run (fun state label after events =>
      permits state label ∧ next state label = some (after, events)) start state history)
    (taken : takeSteps next state labels = some (final, rest)) :
    Run (fun state label after events =>
      permits state label ∧ next state label = some (after, events)) start final
      (history ++ rest) := by
  -- The first label extends the run so far, and the others extend what that gives.
  induction labels generalizing state history rest with
  | nil =>
    simp only [takeSteps, Option.some.injEq, Prod.mk.injEq] at taken
    obtain ⟨rfl, rfl⟩ := taken
    rw [List.append_nil]
    exact earlier
  | cons label labels ih =>
    simp only [takeSteps] at taken
    split at taken
    · cases taken
    · rename_i after events stepped
      obtain ⟨⟨last, shown⟩, tail, same⟩ := Option.map_eq_some_iff.mp taken
      obtain ⟨rfl, rfl⟩ := Prod.mk.inj same
      rw [← List.append_assoc]
      apply ih _ _ tail
      · intro other member
        exact permitted other (List.mem_cons_of_mem _ member)
      · exact .step earlier ⟨permitted label List.mem_cons_self state, stepped⟩

end Steps

section Cycles

open Relation

variable {α : Type} {relation : α → α → Prop}

/-- A relation has no cycles if each of its edges raises a rank or leads to a dead end. -/
theorem not_transGen_self (rank : α → Nat)
    (rises : ∀ a b, relation a b → rank a < rank b ∨ ∀ c, ¬ relation b c) (a : α) :
    ¬ TransGen relation a a := by
  intro cycle
  -- A path raises the rank until it leads to a dead end, where it cannot go on.
  have climbs : ∀ b, TransGen relation a b → rank a < rank b ∨ ∀ c, ¬ relation b c := by
    intro b path
    induction path with
    | single edge => exact rises _ _ edge
    | tail path edge ih =>
      rcases ih with raised | stuck
      · rcases rises _ _ edge with again | stuck
        · exact Or.inl (Nat.lt_trans raised again)
        · exact Or.inr stuck
      · exact absurd edge (stuck _)
  rcases climbs a cycle with raised | stuck
  · exact Nat.lt_irrefl _ raised
  · obtain ⟨next, edge, -⟩ := TransGen.head'_iff.mp cycle
    exact stuck next edge

end Cycles

end Egos
