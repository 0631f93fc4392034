import Egos.Grass.Failures
import Egos.Lib.Runs
import Egos.Lib.Turns

/-! The scheduler is fair: no process that could run is overtaken twice by another one. -/

namespace Egos.Grass

/-- A yield, or any change of the process table between two yields. -/
inductive Move where
  | yield
  | change (procSet : Slot → Process)

/-- What a yield of a kernel is about. -/
def Kernel.turn (kernel : Kernel) (selected : Slot) : Turn maxNprocess where
  current := kernel.procCurrIdx
  runnable := fun i => (kernel.procSet i).status.active
  selected := selected

/-- A move, and the turn that it gives to a process. -/
def Kernel.move (kernel : Kernel) : Move → Fallible (Kernel × List (Turn maxNprocess))
  | .yield => do
    let after ← procYield kernel
    return (after, [kernel.turn after.procCurrIdx])
  | .change procSet => return ({ kernel with procSet }, [])

/-- The kernels that moves lead to. -/
abbrev Kernel.Moves (start : Kernel) : Kernel → List (Turn maxNprocess) → Prop :=
  Run (fun kernel move after turns => kernel.move move = .ok (after, turns)) start

section Fairness

variable {kernel after : Kernel}

/-- The slots are looked at in the order of the table, going around it. -/
theorem gap_slotAfter {i : Nat} (inside : i < maxNprocess) :
    gap kernel.procCurrIdx (kernel.slotAfter (1 + i)) = i :=
  gap_of_place inside rfl

/-- Every slot is looked at. -/
theorem slotAfter_gap (kernel : Kernel) (q : Slot) :
    kernel.slotAfter (1 + gap kernel.procCurrIdx q) = q :=
  Fin.ext (place_of_gap kernel.procCurrIdx q)

/-- The next process is the first active one around the table. -/
theorem nextIdx_fair {selected : Slot} (next : kernel.nextIdx = some selected) :
    (kernel.turn selected).Fair := by
  intro q runnable
  obtain ⟨-, place, inside, here, earlier⟩ := List.find?_eq_some_iff_getElem.mp next
  simp only [List.length_map, List.length_range'] at inside
  simp only [List.getElem_map, List.getElem_range', Nat.one_mul] at here earlier
  have bound := gap_lt_size kernel.procCurrIdx q
  have at_ : gap kernel.procCurrIdx selected = place := by
    rw [← here]
    exact gap_slotAfter inside
  change gap kernel.procCurrIdx selected ≤ gap kernel.procCurrIdx q
  rw [at_]
  by_contra later
  have inactive := earlier (gap kernel.procCurrIdx q) (by omega)
  rw [slotAfter_gap] at inactive
  have active : (kernel.procSet q).status.active = true := runnable
  simp [active] at inactive

/-- A yield goes on with the next process. -/
theorem procYield_next (yielded : procYield kernel = .ok after) :
    kernel.nextIdx = some after.procCurrIdx := by
  unfold procYield at yielded
  cases next : kernel.nextIdx with
  | none => simp [next, throw_ne_ok] at yielded
  | some idx =>
    simp only [next, bind_eq_ok, assert_eq_ok] at yielded
    obtain ⟨middle, -, -, -, running⟩ := yielded
    obtain ⟨chosen, -, -, rfl⟩ := procSetStatus_eq_ok.mp running
    rfl

/-- The turns of a run are fair and linked to each other. -/
theorem Kernel.Moves.linked {start : Kernel} {history : List (Turn maxNprocess)}
    (moves : Kernel.Moves start kernel history) :
    Linked start.procCurrIdx history ∧
      lastTurn start.procCurrIdx history = kernel.procCurrIdx := by
  -- The scheduler turns from the slot where the last switch has ended.
  refine moves.invariant (fun kernel history => Linked start.procCurrIdx history ∧
    lastTurn start.procCurrIdx history = kernel.procCurrIdx) ⟨trivial, rfl⟩ ?_
  intro kernel move after history turns held moved
  obtain ⟨linked, last⟩ := held
  cases move with
  | yield =>
    simp only [Kernel.move, bind_eq_ok, pure_eq_ok] at moved
    obtain ⟨next, yielded, same⟩ := moved
    obtain ⟨rfl, rfl⟩ := Prod.mk.inj same
    rw [linked_append, last]
    refine ⟨⟨linked, rfl, nextIdx_fair (procYield_next yielded), trivial⟩, ?_⟩
    simp [lastTurn, Kernel.turn]
  | change procSet =>
    simp only [Kernel.move, pure_eq_ok] at moved
    obtain ⟨rfl, rfl⟩ := Prod.mk.inj moved
    rw [List.append_nil]
    exact ⟨linked, last⟩

/-- Setting a status does not halt the machine with the scheduler's own message. -/
theorem procSetStatus_error {pid : Int} {status : Status} :
    procSetStatus kernel pid status ≠ .error "proc_yield: no runnable process" := by
  intro failed
  simp only [procSetStatus, bind_eq_error, assert_eq_error] at failed
  rcases failed with failed | ⟨_, -, ⟨-, other⟩ | ⟨_, -, failed⟩⟩
  · exact absurd (pid2idx_eq_error failed).1 (by decide)
  · exact absurd other (by decide)
  · exact pure_ne_error failed

/-- The scheduler's own fatal error says that the walk has found nothing. -/
theorem nextIdx_none (failed : procYield kernel = .error "proc_yield: no runnable process") :
    kernel.nextIdx = none := by
  unfold procYield at failed
  cases next : kernel.nextIdx with
  | none => rfl
  | some idx =>
    exfalso
    simp only [next, bind_eq_error, assert_eq_error] at failed
    rcases failed with paused | ⟨middle, -, ⟨-, other⟩ | ⟨_, -, running⟩⟩
    · unfold Kernel.pause at paused
      split at paused
      · exact procSetStatus_error paused
      · exact pure_ne_error paused
    · exact absurd other (by decide)
    · exact procSetStatus_error running

/-- Between two turns of one process, every other one that could always run has a turn, and the
scheduler gives up only when no process at all could run. -/
theorem scheduler_never_overtakes_twice :
    (∀ (start kernel : Kernel) (before between later : List (Turn maxNprocess))
      (first second : Turn maxNprocess) (p q : Slot),
      Kernel.Moves start kernel (before ++ first :: between ++ second :: later) →
      (∀ turn ∈ first :: between ++ [second], turn.runnable q) →
      first.selected = p → second.selected = p → p ≠ q →
      ∃ turn ∈ between, turn.selected = q) ∧
    ∀ kernel : Kernel, procYield kernel = .error "proc_yield: no runnable process" →
      ∀ q, ¬ (kernel.procSet q).status.active := by
  constructor
  · intro start kernel before between later first second p q moves runnable once again other
    refine selected_between moves.linked.1 ?_ (once ▸ other) (again.trans once.symm)
    intro turn member
    exact runnable turn (List.mem_cons_of_mem _ member)
  · intro kernel failed q active
    have none := List.find?_eq_none.mp (nextIdx_none failed)
    -- The walk around the table has looked at this slot, too.
    refine none q (List.mem_map.mpr ⟨1 + gap kernel.procCurrIdx q, ?_, slotAfter_gap kernel q⟩) active
    have bound := gap_lt_size kernel.procCurrIdx q
    rw [List.mem_range'_1]
    omega

end Fairness

/-- A kernel with some processes that can run, the first of which is running. -/
def activeKernel (count : Nat) : Kernel where
  procSet := fun i =>
    ⟨idx2pid i, if i.val < count then if i = 0 then .running else .runnable else .unused, 0, 0⟩
  procCurrIdx := 0
  page := fun _ => .zero
  context := fun _ => .user

/-- The kernel behind a yield, if it goes well. -/
def Kernel.resumed (kernel : Kernel) : Kernel := (procYield kernel).toOption.getD kernel

/-- A yield that goes well gives a turn to a process. -/
theorem move_yield {kernel : Kernel} (passed : (procYield kernel).toBool) :
    kernel.move .yield =
      .ok (kernel.resumed, [kernel.turn kernel.resumed.procCurrIdx]) := by
  cases yielded : procYield kernel with
  | error message => simp [yielded, Except.toBool] at passed
  | ok after => simp [Kernel.move, Kernel.resumed, yielded, Except.toOption, Bind.bind,
      Except.bind, pure, Except.pure]

/-- In a run of four yields the third process has a turn between two turns of the second one, and
where the scheduler gives up no process can run. -/
theorem scheduler_visits_third :
    (∃ kernel first between second,
      (activeKernel 3).Moves kernel ([] ++ first :: between ++ second :: []) ∧
      first.selected = 1 ∧ second.selected = 1 ∧ ∃ turn ∈ between, turn.selected = 2) ∧
    procYield (activeKernel 0) = .error "proc_yield: no runnable process" ∧
    ¬ ((activeKernel 0).procSet 5).status.active := by
  -- The four yields run the second, the third, the first and again the second process.
  have one := move_yield (show (procYield (activeKernel 3)).toBool by decide +kernel)
  have two := move_yield (show (procYield (activeKernel 3).resumed).toBool by decide +kernel)
  have three := move_yield
    (show (procYield (activeKernel 3).resumed.resumed).toBool by decide +kernel)
  have four := move_yield
    (show (procYield (activeKernel 3).resumed.resumed.resumed).toBool by decide +kernel)
  have moves : (activeKernel 3).Moves (activeKernel 3).resumed.resumed.resumed.resumed _ :=
    .step (.step (.step (.step .start one) two) three) four
  refine ⟨⟨_, (activeKernel 3).turn 1,
    [(activeKernel 3).resumed.turn 2, (activeKernel 3).resumed.resumed.turn 0],
    (activeKernel 3).resumed.resumed.resumed.turn 1, moves, rfl, rfl, ?_⟩, rfl, ?_⟩
  · exact scheduler_never_overtakes_twice.1 (activeKernel 3) _ [] _ []
      ((activeKernel 3).turn 1) ((activeKernel 3).resumed.resumed.resumed.turn 1) 1 2 moves
      (by decide +kernel) rfl rfl (by decide)
  · exact scheduler_never_overtakes_twice.2 (activeKernel 0) rfl 5

end Egos.Grass
