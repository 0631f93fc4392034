import Mathlib.Tactic.Common

/-! Postconditions of stateful programs that either return or stop with an error. -/

namespace Egos

section Outcome

variable {ε σ α β : Type}

/-- How a run ends: `returns` holds of a normal return and `stops` of the state left by an error. -/
def Ends (program : EStateM ε σ α) (returns : α → σ → Prop) (stops : ε → σ → Prop)
    (start : σ) : Prop :=
  match program start with
  | .ok value final => returns value final
  | .error error final => stops error final

variable {returns weaker : α → σ → Prop} {stops : ε → σ → Prop} {start : σ}

/-- A program that returns at once ends in the state it started in. -/
@[simp] theorem ends_pure (value : α) :
    Ends (pure value : EStateM ε σ α) returns stops start ↔ returns value start := Iff.rfl

/-- An error leaves the state it was raised in. -/
@[simp] theorem ends_throw (error : ε) :
    Ends (throw error : EStateM ε σ α) returns stops start ↔ stops error start := Iff.rfl

/-- Reading the state returns it unchanged. -/
@[simp] theorem ends_get {returns : σ → σ → Prop} :
    Ends (get : EStateM ε σ σ) returns stops start ↔ returns start start := Iff.rfl

/-- Replacing the state returns in the new one. -/
@[simp] theorem ends_set {returns : PUnit → σ → Prop} (state : σ) :
    Ends (set state : EStateM ε σ PUnit) returns stops start ↔ returns ⟨⟩ state := Iff.rfl

/-- Changing the state returns in the changed one. -/
@[simp] theorem ends_modify {returns : PUnit → σ → Prop} (change : σ → σ) :
    Ends (modify change : EStateM ε σ PUnit) returns stops start ↔ returns ⟨⟩ (change start) :=
  Iff.rfl

/-- A sequence ends as its second part does from wherever the first part returned. -/
@[simp] theorem ends_bind (first : EStateM ε σ β) (second : β → EStateM ε σ α) :
    Ends (first >>= second) returns stops start ↔
      Ends first (fun value middle => Ends (second value) returns stops middle) stops start := by
  simp only [Ends, bind, EStateM.bind]
  cases first start <;> rfl

/-- A program that reads the state first goes on with it. -/
theorem get_bind (next : σ → EStateM ε σ α) : (get >>= next) start = next start start := rfl

/-- A normal return satisfies what the program promises of its returns. -/
theorem Ends.ok {program : EStateM ε σ α} (ends : Ends program returns stops start)
    {value : α} {final : σ} (run : program start = .ok value final) : returns value final := by
  simpa [Ends, run] using ends

/-- An error satisfies what the program promises of its errors. -/
theorem Ends.error {program : EStateM ε σ α} (ends : Ends program returns stops start)
    {error : ε} {final : σ} (run : program start = .error error final) : stops error final := by
  simpa [Ends, run] using ends

/-- A program that never stops with an error returns something. -/
theorem Ends.returned {program : EStateM ε σ α}
    (ends : Ends program returns (fun _ _ => False) start) :
    ∃ value final, program start = .ok value final ∧ returns value final := by
  cases run : program start with
  | ok value final => exact ⟨value, final, rfl, ends.ok run⟩
  | error error final => exact (ends.error run).elim

/-- A weaker promise follows from a stronger one. -/
theorem Ends.imp {program : EStateM ε σ α} {laxer : ε → σ → Prop}
    (ends : Ends program returns stops start)
    (onReturn : ∀ value final, returns value final → weaker value final)
    (onStop : ∀ error final, stops error final → laxer error final) :
    Ends program weaker laxer start := by
  unfold Ends at ends ⊢
  cases run : program start with
  | ok value final => rw [run] at ends; exact onReturn value final ends
  | error error final => rw [run] at ends; exact onStop error final ends

/-- Promises that mean the same hold of the same programs. -/
theorem ends_congr {program : EStateM ε σ α}
    (same : ∀ value final, returns value final ↔ weaker value final) :
    Ends program returns stops start ↔ Ends program weaker stops start :=
  ⟨fun ends => ends.imp (fun value final => (same value final).mp) fun _ _ => id,
    fun ends => ends.imp (fun value final => (same value final).mpr) fun _ _ => id⟩

/-- A program that never returns is not one that never stops with an error. -/
theorem Ends.absurd {program : EStateM ε σ α}
    (never : Ends program (fun _ _ => False) stops start) :
    ¬ Ends program returns (fun _ _ => False) start := by
  intro ends
  obtain ⟨value, final, run, -⟩ := ends.returned
  exact never.ok run

/-- Two promises of one program hold together. -/
theorem Ends.and {program : EStateM ε σ α} {further : α → σ → Prop} {halts : ε → σ → Prop}
    (left : Ends program returns stops start) (right : Ends program further halts start) :
    Ends program (fun value final => returns value final ∧ further value final)
      (fun error final => stops error final ∧ halts error final) start := by
  unfold Ends at left right ⊢
  cases run : program start with
  | ok value final => rw [run] at left right; exact ⟨left, right⟩
  | error error final => rw [run] at left right; exact ⟨left, right⟩

/-- A loop keeps what each of its rounds extends by one item. -/
theorem Ends.forM {items : List β} {program : β → EStateM ε σ PUnit}
    (holds : List β → σ → Prop) (initially : holds [] start)
    (round : ∀ done item rest state, items = done ++ item :: rest → holds done state →
      Ends (program item) (fun _ after => holds (done ++ [item]) after) stops state) :
    Ends (items.forM program) (fun _ final => holds items final) stops start := by
  -- The items that are still to come are a suffix of the whole list.
  have general : ∀ rest done state, items = done ++ rest → holds done state →
      Ends (rest.forM program) (fun _ final => holds items final) stops state := by
    intro rest
    induction rest with
    | nil =>
      intro done state split held
      rw [List.append_nil] at split
      rw [List.forM, ends_pure, split]
      exact held
    | cons item rest ih =>
      intro done state split held
      rw [List.forM, ends_bind]
      refine (round done item rest state split held).imp (fun _ after next => ?_) (fun _ _ => id)
      exact ih (done ++ [item]) after (by rw [split, List.append_assoc]; rfl) next
  exact general items [] start rfl initially

end Outcome

end Egos
