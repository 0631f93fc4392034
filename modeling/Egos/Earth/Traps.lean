import Egos.Earth.Machine
import Egos.Grass.Failures

/-! What traps do to statuses, and which processes they switch to. -/

namespace Egos.Grass

section Statuses

variable {kernel after : Kernel} {label : Label} {events : List Event} {idx i : Slot}

/-- The labels of system calls and timer interrupts. -/
def Label.traps : Label → Bool
  | .send _ _ | .recv _ | .yield | .timer _ => true
  | _ => false

/-- Statuses that a trap neither gives to a process nor takes from it. -/
def Status.settled : Status → Bool
  | .unused | .loading | .sleeping => true
  | _ => false

/-- Replacing one status by another keeps the settled ones if neither of the two is. -/
theorem settled_update {table : Slot → Process} {process : Process} {status : Status}
    (settled : status.settled) (old : (table idx).status.settled = false)
    (new : process.status.settled = false) :
    (Function.update table idx process i).status = status ↔ (table i).status = status := by
  by_cases same : i = idx
  · subst same
    rw [Function.update_self]
    constructor
    · intro equal
      rw [equal, settled] at new
      cases new
    · intro equal
      rw [equal, settled] at old
      cases old
  · rw [Function.update_of_ne same]

/-- A switch keeps the settled statuses. -/
theorem Switched.settled_iff (switched : Switched kernel after events) {status : Status}
    (settled : status.settled) (i : Slot) :
    (after.procSet i).status = status ↔ (kernel.procSet i).status = status := by
  refine switched.idle_iff i ?_
  cases status <;> first | rfl | cases settled

/-- The current process is not settled. -/
theorem WellFormed.not_settled (formed : WellFormed kernel) :
    (kernel.procSet kernel.procCurrIdx).status.settled = false := by
  have active := formed.active
  unfold Kernel.curr at active
  cases status : (kernel.procSet kernel.procCurrIdx).status <;> rw [status] at active <;>
    first | rfl | cases active

/-- Traps keep the settled statuses. -/
theorem Outcome.settled_iff (outcome : Outcome kernel label after events)
    (formed : WellFormed kernel) (traps : label.traps) {status : Status} (settled : status.settled)
    (i : Slot) : (after.procSet i).status = status ↔ (kernel.procSet i).status = status := by
  -- A trap changes statuses of active and of blocked processes only.
  have curr := formed.not_settled
  cases outcome with
  | sendRefused long => exact Iff.rfl
  | sendBlocked known busy switched =>
    exact (switched.settled_iff settled i).trans (settled_update settled curr rfl)
  | sendDelivered awaits switched =>
    refine (switched.settled_iff settled i).trans (settled_update settled ?_ rfl)
    have waits : (kernel.procSet _).status = .waitToRecv := awaits.1
    exact congrArg Status.settled waits
  | @recvBlocked _ expected _ _ named nobody switched =>
    refine (switched.settled_iff settled i).trans ?_
    refine (settled_update settled ?_ rfl).trans (settled_update settled curr curr)
    have same : ((kernel.recvIssued expected).procSet kernel.procCurrIdx).status =
        (kernel.procSet kernel.procCurrIdx).status := by
      simp only [Kernel.recvIssued, Kernel.setProc_procSet, Function.update_self]
      rfl
    exact (congrArg Status.settled same).trans curr
  | @recvTaken _ expected idx _ _ named offers matching switched =>
    refine (switched.settled_iff settled i).trans ?_
    refine (settled_update settled ?_ rfl).trans (settled_update settled curr curr)
    have other := formed.offers_ne offers
    simp only [Kernel.offers, decide_eq_true_eq] at offers
    have waits : ((kernel.recvIssued expected).procSet idx).status = .waitToSend := by
      simp only [Kernel.recvIssued, Kernel.setProc_procSet]
      rw [Function.update_of_ne other]
      exact offers.1
    exact congrArg Status.settled waits
  | yielded switched => exact switched.settled_iff settled i
  | timerIgnored low => exact Iff.rfl
  | timerKilled high => exact Iff.rfl
  | timerYielded high switched => exact switched.settled_iff settled i
  | allocated free => cases traps
  | madeReady known => cases traps
  | freed known => cases traps
  | freedAll => cases traps

/-- Exactly the current process is marked as running. -/
def Kernel.Alone (kernel : Kernel) : Prop :=
  ∀ i, (kernel.procSet i).status = .running ↔ i = kernel.procCurrIdx

/-- After a switch only the chosen process runs, whatever the call has done before. -/
theorem Switched.leaves_alone {before : Kernel} (switched : Switched before after events)
    (alone : kernel.Alone) (same : before.procCurrIdx = kernel.procCurrIdx)
    (stays : ∀ i, i ≠ kernel.procCurrIdx → (before.procSet i).status = .running →
      (kernel.procSet i).status = .running) : after.Alone := by
  intro i
  constructor
  · intro runs
    rcases switched.alone i runs with chosen | ⟨ran, other⟩
    · exact chosen
    · rw [same] at other
      exact absurd ((alone i).mp (stays i other ran)) other
  · rintro rfl
    exact switched.runs

/-- Traps leave exactly one process running. -/
theorem Outcome.alone (outcome : Outcome kernel label after events) (traps : label.traps)
    (alone : kernel.Alone) : after.Alone := by
  -- Before the switch a call changes the current process and wakes at most one other process.
  have kept : ∀ {process : Process} (i : Slot), i ≠ kernel.procCurrIdx →
      (Function.update kernel.procSet kernel.procCurrIdx process i).status = .running →
      (kernel.procSet i).status = .running := by
    intro process i other runs
    rwa [Function.update_of_ne other] at runs
  have woken : ∀ {table : Slot → Process} {process : Process} {idx : Slot} (i : Slot),
      process.status = .runnable → (Function.update table idx process i).status = .running →
      (table i).status = .running := by
    intro table process idx i wakes runs
    by_cases same : i = idx
    · subst same
      rw [Function.update_self, wakes] at runs
      cases runs
    · rwa [Function.update_of_ne same] at runs
  cases outcome with
  | sendRefused long => exact alone
  | sendBlocked known busy switched => exact switched.leaves_alone alone rfl kept
  | sendDelivered awaits switched =>
    exact switched.leaves_alone alone rfl fun i _ runs => woken i rfl runs
  | recvBlocked named nobody switched =>
    refine switched.leaves_alone alone rfl fun i other runs => ?_
    simp only [Kernel.recvBlocked, Kernel.setStatus, Kernel.setProc_procSet] at runs
    rw [Function.update_of_ne other] at runs
    exact kept i other runs
  | recvTaken named offers matching switched =>
    exact switched.leaves_alone alone rfl fun i other runs => kept i other (woken i rfl runs)
  | yielded switched => exact switched.leaves_alone alone rfl fun _ _ runs => runs
  | timerIgnored low => exact alone
  | timerKilled high => exact alone
  | timerYielded high switched => exact switched.leaves_alone alone rfl fun _ _ runs => runs
  | allocated free => cases traps
  | madeReady known => cases traps
  | freed known => cases traps
  | freedAll => cases traps

end Statuses

section Targets

variable {kernel after : Kernel} {label : Label} {events : List Event}

/-- A slot is in use. -/
abbrev Kernel.live (kernel : Kernel) (idx : Slot) : Prop :=
  (kernel.procSet idx).status ≠ .unused

/-- The current process is in use. -/
theorem WellFormed.live_curr (formed : WellFormed kernel) : kernel.live kernel.procCurrIdx := by
  intro unused
  exact formed.curr_ne unused rfl

/-- Messages are copied between the pages of processes in use. -/
theorem copiedBetween_live (formed : WellFormed kernel) :
    ∀ pid ∈ Earth.copiedBetween kernel label, ∃ idx, pid = idx2pid idx ∧ kernel.live idx := by
  -- The two sides of a message are the current process and one that waits.
  intro pid member
  have current : ∃ idx, kernel.currPid = idx2pid idx ∧ kernel.live idx :=
    ⟨kernel.procCurrIdx, formed.curr, formed.live_curr⟩
  cases label with
  | send receiver msg =>
    simp only [Earth.copiedBetween] at member
    split at member
    · rename_i idx named
      split at member
      · rename_i awaits
        simp only [List.mem_cons, List.not_mem_nil, or_false] at member
        rcases member with rfl | rfl
        · exact current
        · exact ⟨idx, pid2idx_eq_ok.mp named, by rw [Kernel.live, awaits.1]; decide⟩
      · cases member
    · cases member
  | recv sender =>
    simp only [Earth.copiedBetween] at member
    split at member
    · rename_i found search
      rcases findSender_cases (fun i offers => formed.offers_pid offers) search with
        ⟨rfl, -⟩ | ⟨idx, offers, rfl, -⟩
      · rw [if_pos rfl] at member
        cases member
      · split at member
        · cases member
        · simp only [List.mem_cons, List.not_mem_nil, or_false] at member
          simp only [Kernel.offers, decide_eq_true_eq] at offers
          rcases member with rfl | rfl
          · exact ⟨idx, rfl, by rw [Kernel.live, offers.1]; decide⟩
          · exact current
    · cases member
  | _ => cases member

/-- Every process that a trap switches to is in use. -/
theorem switches_live (formed : WellFormed kernel) (arrived : WellFormed after)
    (kept : ∀ i, (after.procSet i).status = .unused ↔ (kernel.procSet i).status = .unused) :
    ∀ pid ∈ Earth.switches kernel after label, ∃ idx, pid = idx2pid idx ∧ kernel.live idx := by
  intro pid member
  unfold Earth.switches at member
  split at member
  · cases member
  · rcases List.mem_append.mp member with copied | last
    · exact copiedBetween_live formed pid copied
    · rw [List.mem_singleton.mp last]
      exact ⟨after.procCurrIdx, arrived.curr, fun unused =>
        arrived.live_curr ((kept _).mpr unused)⟩

/-- The last process that a trap switches to is the one that goes on. -/
theorem switches_last (outcome : Outcome kernel label after events) :
    (Earth.switches kernel after label).getLast?.getD kernel.currPid = after.currPid := by
  unfold Earth.switches
  split
  · rename_i nothing
    -- An ignored interrupt leaves the kernel alone.
    cases outcome with
    | timerIgnored low => rfl
    | timerKilled high => rfl
    | timerYielded high switched spared =>
      simp only [Earth.ignored, decide_eq_true_eq] at nothing
      rcases nothing with low | killed
      · exact absurd low (Int.not_lt.mpr high)
      · exact absurd killed spared
    | _ => cases nothing
  · simp

end Targets

end Egos.Grass
