import Egos.Apps.Moves

/-! The order that every step of the whole machine keeps, and the runs that take such steps. -/

namespace Egos.Apps

open Egos.Grass

namespace System

variable {system final : System} {act : Act} {shown : List Exchange}

section Standing

variable {next : System} {idx : Slot}

/-- The machine is in order: the table is well formed, messages carry the pids of their senders and
the system processes are loaded. -/
structure Standing (system : System) : Prop where
  formed : WellFormed system.kernel
  stamped : system.Stamped
  permanents : ∀ idx, permanent idx → system.status idx ≠ .unused ∧ system.status idx ≠ .loading

/-- System processes are alive. -/
theorem Standing.used (standing : system.Standing) (idx : Slot) (stays : permanent idx) :
    system.status idx ≠ .unused := (standing.permanents idx stays).1

/-- Servers are system processes. -/
theorem permanent_of_serves (server : serves idx) : permanent idx := by
  -- The three servers have slots below that of the shell.
  simp only [serves, decide_eq_true_eq] at server
  rcases server with rfl | rfl | rfl <;> rfl

/-- The slots of user applications come after those of the system processes. -/
theorem not_permanent_iff : ¬ permanent idx ↔ gpidUserStart ≤ idx2pid idx := by
  simp only [permanent, idx2pid, gpidUserStart, decide_eq_true_eq]
  omega

/-- A system process keeps its entry when all user applications are freed. -/
theorem killedAll_permanent {kernel : Kernel} (placed : kernel.Placed) (stays : permanent idx) :
    kernel.killedAll.procSet idx = kernel.procSet idx := by
  refine if_neg ?_
  intro high
  have own := placed idx high.2
  rw [own] at high
  exact absurd stays (not_permanent_iff.mpr high.1)

/-- A process that is left after all user applications have been freed keeps its entry. -/
theorem killedAll_used {kernel : Kernel}
    (used : (kernel.killedAll.procSet idx).status ≠ .unused) :
    kernel.killedAll.procSet idx = kernel.procSet idx := by
  simp only [Kernel.killedAll] at used ⊢
  split at used
  · exact absurd rfl used
  · rename_i low
    exact if_neg low

/-- A process that keeps its entry is untouched when all user applications are freed. -/
theorem untouched_killedAll (same : system.kernel.killedAll.procSet idx =
    system.kernel.procSet idx) :
    Untouched system { system with kernel := system.kernel.killedAll } idx :=
  ⟨congrArg Process.status same, congrArg Process.toReceiverPid same,
    congrArg Process.fromSenderPid same, rfl, rfl, rfl, rfl⟩

/-- What one program or its entry goes through leaves the machine in order. -/
theorem Standing.step (standing : system.Standing)
    (senders : ∀ idx, next.status idx = .waitToSend →
      (next.status idx = system.status idx ∧
        (next.kernel.page idx).msg = (system.kernel.page idx).msg) ∨
      (next.kernel.page idx).msg.sender = idx2pid idx)
    (permanents : ∀ idx, permanent idx → next.status idx = system.status idx ∨
      next.status idx ≠ .unused ∧ next.status idx ≠ .loading) :
    next.Stamped ∧ ∀ idx, permanent idx →
      next.status idx ≠ .unused ∧ next.status idx ≠ .loading := by
  -- A blocked sender is one from before, or has just been stamped.
  refine ⟨fun idx waits => ?_, fun idx stays => ?_⟩
  · rcases senders idx waits with ⟨status, msg⟩ | stamp
    · rw [msg]
      exact standing.stamped idx (status ▸ waits)
    · exact stamp
  · rcases permanents idx stays with same | loaded
    · rw [same]
      exact standing.permanents idx stays
    · exact loaded

/-- Every move leaves the machine in order. -/
theorem Move.standing {middle : System} (move : Move system act middle)
    (standing : system.Standing) (allowed : system.Allowed act) :
    middle.Stamped ∧ ∀ idx, permanent idx →
      middle.status idx ≠ .unused ∧ middle.status idx ≠ .loading := by
  have formed := standing.formed
  cases move with
  | ended => exact ⟨standing.stamped, standing.permanents⟩
  | interrupted => exact ⟨standing.stamped, standing.permanents⟩
  | killed high => exact ⟨standing.stamped, standing.permanents⟩
  | yielded =>
    exact standing.step (fun idx _ => Or.inl ⟨rfl, (untouched_yielded idx).msg⟩)
      fun idx _ => Or.inl rfl
  | sendBlocked calls known busy =>
    refine standing.step (fun idx _ => ?_) fun idx _ => ?_
    · by_cases same : idx = system.curr
      · subst same
        exact Or.inr (by simp [Kernel.outgoing, formed.curr])
      · exact Or.inl ⟨(untouched_sendBlocked same).status, (untouched_sendBlocked same).msg⟩
    · by_cases same : idx = system.curr
      · subst same
        exact Or.inr (by simp)
      · exact Or.inl (untouched_sendBlocked same).status
  | @sendDelivered _ target _ calls awaits =>
    have apart : target ≠ system.curr := by
      intro same
      subst same
      exact formed.not_waitToRecv awaits.1
    refine standing.step (fun idx waits => ?_) fun idx _ => ?_
    · by_cases same : idx = target
      · subst same
        simp at waits
      · by_cases here : idx = system.curr
        · subst here
          rw [sendDelivered_status apart] at waits
          exact absurd waits formed.not_waitToSend
        · exact Or.inl ⟨(untouched_sendDelivered here same).status,
            (untouched_sendDelivered here same).msg⟩
    · by_cases same : idx = target
      · subst same
        exact Or.inr (by simp)
      · by_cases here : idx = system.curr
        · subst here
          exact Or.inl (sendDelivered_status apart)
        · exact Or.inl (untouched_sendDelivered here same).status
  | recvBlocked calls nobody =>
    refine standing.step (fun idx waits => ?_) fun idx _ => ?_
    · by_cases same : idx = system.curr
      · subst same
        simp at waits
      · exact Or.inl ⟨(untouched_recvBlocked same).status, (untouched_recvBlocked same).msg⟩
    · by_cases same : idx = system.curr
      · subst same
        exact Or.inr (by simp)
      · exact Or.inl (untouched_recvBlocked same).status
  | @recvTaken _ _ target calls offers named =>
    have apart : target ≠ system.curr := formed.offers_ne offers
    refine standing.step (fun idx waits => ?_) fun idx _ => ?_
    · by_cases same : idx = target
      · subst same
        simp at waits
      · by_cases here : idx = system.curr
        · subst here
          rw [recvTaken_status apart] at waits
          exact absurd waits formed.not_waitToSend
        · exact Or.inl ⟨(untouched_recvTaken here same).status,
            (untouched_recvTaken here same).msg⟩
    · by_cases same : idx = target
      · subst same
        exact Or.inr (by simp)
      · by_cases here : idx = system.curr
        · subst here
          exact Or.inl (recvTaken_status apart)
        · exact Or.inl (untouched_recvTaken here same).status
  | @allocated target free =>
    refine standing.step (fun idx waits => ?_) fun idx stays => ?_
    · by_cases same : idx = target
      · subst same
        simp [System.status, System.allocated, Kernel.allocated] at waits
      · exact Or.inl ⟨(untouched_allocated same).status, (untouched_allocated same).msg⟩
    · by_cases same : idx = target
      · subst same
        exact absurd free (standing.permanents idx stays).1
      · exact Or.inl (untouched_allocated same).status
  | @madeReady target known =>
    refine standing.step (fun idx waits => ?_) fun idx _ => ?_
    · by_cases same : idx = target
      · subst same
        simp [System.status, Kernel.setStatus] at waits
      · exact Or.inl ⟨(untouched_setStatus same).status, rfl⟩
    · by_cases same : idx = target
      · subst same
        exact Or.inr (by simp [System.status, Kernel.setStatus])
      · exact Or.inl (untouched_setStatus same).status
  | @freed target known =>
    refine standing.step (fun idx waits => ?_) fun idx stays => ?_
    · by_cases same : idx = target
      · subst same
        simp [System.status, Kernel.setStatus] at waits
      · exact Or.inl ⟨(untouched_setStatus same).status, rfl⟩
    · by_cases same : idx = target
      · -- Only user applications are freed.
        subst same
        rcases allowed.2 with wildcard | high
        · have := idx2pid_bounds idx
          omega
        · exact absurd stays (not_permanent_iff.mpr high)
      · exact Or.inl (untouched_setStatus same).status
  | freedAll =>
    refine standing.step (fun idx waits => ?_) fun idx stays => ?_
    · have used : (system.kernel.killedAll.procSet idx).status ≠ .unused := by
        intro free
        have waits : (system.kernel.killedAll.procSet idx).status = .waitToSend := waits
        rw [free] at waits
        cases waits
      exact Or.inl ⟨(untouched_killedAll (killedAll_used used)).status, rfl⟩
    · exact Or.inl (untouched_killedAll (killedAll_permanent formed.pids stays)).status

/-- Every step leaves the machine in order, and is a move after which one process is resumed. -/
theorem Standing.moves (standing : system.Standing) (allowed : system.Allowed act)
    (stepped : system.step act = .ok (final, shown)) :
    final.Standing ∧ ∃ middle, Move system act middle ∧
      (∀ idx, permanent idx → middle.status idx ≠ .unused) ∧
      (final = middle ∧ shown = system.announces act ∨
        ∃ after events, Switched middle.kernel after events ∧
          final = middle.resumed after events ∧ shown = system.announces act ++
            (({ middle with kernel := after } : System).observeAll events).2) := by
  -- The switch that may follow only makes active processes of active ones.
  have formed := step_wellFormed standing.formed allowed stepped
  obtain ⟨middle, move, ended⟩ := step_moves standing.formed standing.stamped allowed stepped
  obtain ⟨stamped, permanents⟩ := move.standing standing allowed
  refine ⟨?_, middle, move, fun idx stays => (permanents idx stays).1, ended⟩
  rcases ended with ⟨rfl, -⟩ | ⟨after, events, switched, rfl, -⟩
  · exact ⟨formed, stamped, permanents⟩
  · obtain ⟨kernel, -⟩ := resumed_fields switched
    refine ⟨formed, fun idx waits => ?_, fun idx stays => ?_⟩
    · have untouched := untouched_resumed switched waits rfl
      rw [untouched.msg]
      exact stamped idx (untouched.status ▸ waits)
    · rw [System.status, kernel]
      obtain ⟨used, loaded⟩ := permanents idx stays
      exact ⟨fun free => used ((switched.idle_iff idx rfl).mp free),
        fun loading => loaded ((switched.idle_iff idx rfl).mp loading)⟩

/-- The machine starts in order. -/
theorem booted_standing : booted.Standing := by
  have status : ∀ idx, booted.status idx ≠ .waitToSend := by decide
  refine ⟨⟨?_, rfl, rfl, rfl⟩, fun idx waits => absurd waits (status idx), ?_⟩
  · unfold Kernel.Placed
    decide
  · decide

end Standing

/-- Steps in which the programs do what they are allowed to do. -/
def Steps (permits : System → Act → Prop) (system : System) (act : Act) (next : System)
    (shown : List Exchange) : Prop :=
  (system.Allowed act ∧ permits system act) ∧ system.step act = .ok (next, shown)

/-- The states that the machine reaches once its servers have started. -/
abbrev Reaches (permits : System → Act → Prop) : System → List Exchange → Prop :=
  Run (Steps permits) booted

end System

end Egos.Apps
