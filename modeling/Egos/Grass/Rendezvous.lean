import Egos.Grass.Effects
import Egos.Lib.Runs

/-! Senders and receivers never miss each other, in every run of the kernel. -/

namespace Egos.Grass

/-- The kernel as it enters the process server, the first process. -/
def Kernel.initial : Kernel where
  procSet i := if i = 0 then ⟨gpidProcess, .running, 0, 0⟩ else ⟨0, .unused, 0, 0⟩
  procCurrIdx := 0
  page _ := .zero
  context _ := .user

/-- The first process is alone in its table. -/
theorem initial_wellFormed : WellFormed .initial := by
  refine ⟨fun i live => ?_, rfl, rfl, rfl⟩
  simp only [Kernel.initial] at live ⊢
  split
  · rename_i first
    subst first
    rfl
  · rename_i later
    rw [if_neg later] at live
    exact absurd rfl live

/-- The steps of the kernel, restricted to those that a condition permits. -/
def Steps (permits : Kernel → Label → Prop) (kernel : Kernel) (label : Label) (after : Kernel)
    (events : List Event) : Prop :=
  permits kernel label ∧ step kernel label = .ok (after, events)

/-- The states that the kernel reaches from its start through permitted steps. -/
abbrev Reaches (permits : Kernel → Label → Prop) : Kernel → List Event → Prop :=
  Run (Steps permits) .initial

/-- Whether a step spares the current process can be decided. -/
instance (kernel : Kernel) : (label : Label) → Decidable (Spares kernel label)
  | .free pid => inferInstanceAs
    (Decidable (pid ≠ kernel.currPid ∧ (pid = -1 → kernel.currPid < gpidUserStart)))
  | .send _ _ | .recv _ | .yield | .timer _ | .alloc | .setReady _ => isTrue trivial

/-- No sender is blocked on a receiver that waits for it. -/
def Kernel.NoMissed (kernel : Kernel) : Prop :=
  ∀ s r, kernel.offers s (idx2pid r) → ¬ kernel.awaits r (idx2pid s)

section Waiting

variable {kernel before after : Kernel} {idx i : Slot} {pid : Int} {events : List Event}

/-- A switch blocks no sender and frees none. -/
theorem Switched.offers (switched : Switched before after events) :
    after.offers i pid = before.offers i pid := by
  simp only [Kernel.offers, switched.idle_iff i (show Status.waitToSend.active = false from rfl),
    switched.toReceiver]

/-- A switch blocks no receiver and frees none. -/
theorem Switched.awaits (switched : Switched before after events) :
    after.awaits i pid ↔ before.awaits i pid := by
  simp only [Kernel.awaits, switched.idle_iff i (show Status.waitToRecv.active = false from rfl),
    switched.fromSender]

/-- Only the table decides who is blocked on sending. -/
theorem offers_congr (same : after.procSet i = before.procSet i) :
    after.offers i pid = before.offers i pid := by
  simp only [Kernel.offers, same]

/-- Only the table decides who is blocked on receiving. -/
theorem awaits_congr (same : after.procSet i = before.procSet i) :
    after.awaits i pid ↔ before.awaits i pid := by
  simp only [Kernel.awaits, same]

/-- A process that is put in another state than sending is not a blocked sender. -/
theorem offers_of_setProc {process : Process} (idle : process.status ≠ .waitToSend)
    (offers : (kernel.setProc idx process).offers i pid) : kernel.offers i pid := by
  by_cases same : i = idx
  · subst same
    simp [Kernel.offers, idle] at offers
  · rwa [offers_congr (Function.update_of_ne same _ _)] at offers

/-- A process that is put in another state than receiving is not a blocked receiver. -/
theorem awaits_of_setProc {process : Process} (idle : process.status ≠ .waitToRecv)
    (awaits : (kernel.setProc idx process).awaits i pid) : kernel.awaits i pid := by
  by_cases same : i = idx
  · subst same
    simp [Kernel.awaits, idle] at awaits
  · rwa [awaits_congr (Function.update_of_ne same _ _)] at awaits

/-- The current process does not wait for a receiver. -/
theorem WellFormed.not_waitToSend (formed : WellFormed kernel) :
    kernel.curr.status ≠ .waitToSend := by
  intro waits
  have active := formed.active
  rw [waits] at active
  cases active

/-- The current process does not wait for a message. -/
theorem WellFormed.not_waitToRecv (formed : WellFormed kernel) :
    kernel.curr.status ≠ .waitToRecv := by
  intro waits
  have active := formed.active
  rw [waits] at active
  cases active

/-- With fewer blocked processes, still none are missed. -/
theorem Kernel.NoMissed.mono (none : before.NoMissed)
    (offers : ∀ i pid, after.offers i pid → before.offers i pid)
    (awaits : ∀ i pid, after.awaits i pid → before.awaits i pid) : after.NoMissed :=
  fun s r offered awaited => none s r (offers s _ offered) (awaits r _ awaited)

/-- A switch makes nobody miss anybody. -/
theorem Kernel.NoMissed.switched (none : before.NoMissed)
    (switched : Switched before after events) : after.NoMissed :=
  none.mono (fun _ _ offers => switched.offers ▸ offers) fun _ _ => switched.awaits.mp

/-- Only the table decides whether anybody misses anybody. -/
theorem Kernel.NoMissed.congr (none : before.NoMissed) (same : after.procSet = before.procSet) :
    after.NoMissed := by
  refine none.mono (fun i pid offers => ?_) fun i pid awaits => ?_
  · rwa [offers_congr (congrFun same i)] at offers
  · rwa [awaits_congr (congrFun same i)] at awaits

/-- Marking a process with a status that is not a waiting one makes nobody miss anybody. -/
theorem Kernel.NoMissed.setProc (none : kernel.NoMissed) {process : Process}
    (sends : process.status ≠ .waitToSend) (receives : process.status ≠ .waitToRecv) :
    (kernel.setProc idx process).NoMissed :=
  none.mono (fun _ _ => offers_of_setProc sends) fun _ _ => awaits_of_setProc receives

/-- A sender only blocks on a receiver that does not wait for it. -/
theorem Kernel.NoMissed.sendBlocked (none : kernel.NoMissed) (formed : WellFormed kernel)
    {msg : List UInt8} (busy : ¬ kernel.awaits idx kernel.currPid) :
    (kernel.sendBlocked (idx2pid idx) msg).NoMissed := by
  intro s r offers awaits
  have waiting := awaits_of_setProc (by simp) awaits
  by_cases same : s = kernel.procCurrIdx
  · -- The new sender names the receiver that was found not to wait for it.
    subst same
    have named : idx = r := by simpa [Kernel.offers, Kernel.sendBlocked] using offers
    subst named
    rw [formed.curr] at busy
    exact busy waiting
  · rw [offers_congr (Function.update_of_ne same _ _)] at offers
    exact none s r offers waiting

/-- A receiver only blocks when no sender that it would accept is blocked on it. -/
theorem Kernel.NoMissed.recvBlocked (none : kernel.NoMissed) (formed : WellFormed kernel)
    {expected : Int}
    (nobody : ∀ i, kernel.offers i kernel.currPid → expected ≠ 0 ∧ expected ≠ idx2pid i) :
    (kernel.recvBlocked expected).NoMissed := by
  intro s r offers awaits
  have offers : kernel.offers s (idx2pid r) := by
    have issued := offers_of_setProc (by simp) offers
    by_cases same : s = kernel.procCurrIdx
    · subst same
      simpa [Kernel.offers, Kernel.recvIssued, Kernel.curr] using issued
    · rwa [offers_congr (Function.update_of_ne same _ _)] at issued
  by_cases same : r = kernel.procCurrIdx
  · -- The new receiver would have found this sender.
    subst same
    rw [← formed.curr] at offers
    obtain ⟨wildcard, named⟩ := nobody s offers
    have waits : expected = idx2pid s ∨ expected = 0 := by
      simpa [Kernel.awaits, Kernel.recvBlocked, Kernel.recvIssued, Kernel.setStatus] using awaits
    exact waits.elim named wildcard
  · refine none s r offers ?_
    have issued := (awaits_congr (Function.update_of_ne same _ _)).mp awaits
    exact (awaits_congr (Function.update_of_ne same _ _)).mp issued

/-- Taking a message makes nobody miss anybody. -/
theorem Kernel.NoMissed.recvTaken (none : kernel.NoMissed) (formed : WellFormed kernel)
    {expected : Int} : (kernel.recvTaken expected idx).NoMissed := by
  -- The receiver stays active, whatever sender it has named.
  have issued : (kernel.recvIssued expected).NoMissed := by
    refine none.mono (fun i pid offers => ?_) fun i pid awaits => ?_
    · by_cases same : i = kernel.procCurrIdx
      · subst same
        simpa [Kernel.offers, Kernel.recvIssued, Kernel.curr] using offers
      · rwa [offers_congr (Function.update_of_ne same _ _)] at offers
    · by_cases same : i = kernel.procCurrIdx
      · subst same
        have waits : kernel.curr.status = .waitToRecv := by
          simpa [Kernel.recvIssued] using awaits.1
        exact absurd waits formed.not_waitToRecv
      · exact (awaits_congr (Function.update_of_ne same _ _)).mp awaits
  have taken : ((kernel.recvIssued expected).setMsg kernel.procCurrIdx
      (kernel.page idx).msg).NoMissed := issued.congr rfl
  exact taken.setProc (by simp) (by simp)

/-- No step makes a sender and a receiver miss each other. -/
theorem Outcome.noMissed {label : Label} (outcome : Outcome kernel label after events)
    (formed : WellFormed kernel) (none : kernel.NoMissed) : after.NoMissed := by
  -- A process that blocks has just looked for its partner and found none.
  cases outcome with
  | sendRefused long => exact none
  | sendBlocked known busy switched => exact (none.sendBlocked formed busy).switched switched
  | @sendDelivered msg idx _ _ awaits switched =>
    have issued : ((kernel.issued .sending (kernel.outgoing (idx2pid idx) msg)).setMsg idx
      (kernel.outgoing (idx2pid idx) msg)).NoMissed := none.congr rfl
    have delivered : (kernel.sendDelivered idx msg).NoMissed :=
      issued.setProc (by simp) (by simp)
    exact delivered.switched switched
  | recvBlocked named nobody switched => exact (none.recvBlocked formed nobody).switched switched
  | recvTaken named offers matching switched => exact (none.recvTaken formed).switched switched
  | yielded switched =>
    have issued : (kernel.issued .user (kernel.page kernel.procCurrIdx).msg).NoMissed :=
      none.congr rfl
    exact issued.switched switched
  | timerIgnored low => exact none
  | timerKilled high => exact none
  | timerYielded high switched => exact none.switched switched
  | @allocated idx free =>
    have loading : (kernel.setProc idx { kernel.procSet idx with
      pid := idx2pid idx, status := .loading }).NoMissed := none.setProc (by simp) (by simp)
    exact loading.congr rfl
  | madeReady known => exact none.setProc (by simp) (by simp)
  | freed known => exact none.setProc (by simp) (by simp)
  | freedAll =>
    refine none.mono (fun i pid offers => ?_) fun i pid awaits => ?_
    · simp only [Kernel.killedAll, Kernel.offers] at offers
      split at offers
      · simp at offers
      · exact offers
    · simp only [Kernel.killedAll, Kernel.awaits] at awaits
      split at awaits
      · simp at awaits
      · exact awaits

end Waiting

/-- Every reached table is well formed and nobody misses anybody in it. -/
theorem reaches_noMissed {kernel : Kernel} {history : List Event}
    (reached : Reaches Spares kernel history) : WellFormed kernel ∧ kernel.NoMissed := by
  refine reached.invariant (fun kernel _ => WellFormed kernel ∧ kernel.NoMissed)
    ⟨initial_wellFormed, ?_⟩ ?_
  · intro s r offers
    simp only [Kernel.offers, Kernel.initial] at offers
    split at offers <;> simp at offers
  · rintro state label next _ events ⟨formed, none⟩ ⟨spares, stepped⟩
    have outcome := step_outcome formed stepped
    exact ⟨outcome.wellFormed formed spares, outcome.noMissed formed none⟩

/-- In no reachable state is a sender blocked on a receiver that waits for any sender or for it. -/
theorem no_missed_rendezvous {kernel : Kernel} {history : List Event}
    (reached : Reaches Spares kernel history) (s r : Slot) :
    ¬ ((kernel.procSet s).status = .waitToSend ∧
      (kernel.procSet s).toReceiverPid = (kernel.procSet r).pid ∧
      (kernel.procSet r).status = .waitToRecv ∧
      ((kernel.procSet r).fromSenderPid = 0 ∨
        (kernel.procSet r).fromSenderPid = (kernel.procSet s).pid)) := by
  rintro ⟨sends, receiver, receives, sender⟩
  obtain ⟨formed, none⟩ := reaches_noMissed reached
  -- Both processes are live, so they sit in the slots of their pids.
  rw [formed.pids r (by rw [receives]; decide)] at receiver
  rw [formed.pids s (by rw [sends]; decide)] at sender
  exact none s r (by simp [Kernel.offers, sends, receiver]) ⟨receives, sender.symm⟩

/-- The file server starts and blocks on the process server, which is busy. -/
def blockedStart : List Label := [.alloc, .setReady 2, .yield, .send 1 [104]]

/-- The file server is blocked on the process server, which does not wait for it. -/
theorem no_missed_rendezvous_start :
    ∃ kernel history, Reaches Spares kernel history ∧
      (kernel.procSet 1).status = .waitToSend ∧ (kernel.procSet 1).toReceiverPid = 1 ∧
      ¬ ((kernel.procSet 1).status = .waitToSend ∧
        (kernel.procSet 1).toReceiverPid = (kernel.procSet 0).pid ∧
        (kernel.procSet 0).status = .waitToRecv ∧
        ((kernel.procSet 0).fromSenderPid = 0 ∨
          (kernel.procSet 0).fromSenderPid = (kernel.procSet 1).pid)) := by
  have blocked : (follow Spares step .initial blockedStart).map (fun reached =>
      ((reached.1.procSet 1).status, (reached.1.procSet 1).toReceiverPid)) =
      some (.waitToSend, 1) := by decide +kernel
  obtain ⟨⟨kernel, history⟩, followed, facts⟩ := Option.map_eq_some_iff.mp blocked
  have reached : Reaches Spares kernel history := run_of_follow .start followed
  obtain ⟨status, receiver⟩ := Prod.mk.inj facts
  exact ⟨kernel, history, reached, status, receiver, no_missed_rendezvous reached 1 0⟩

end Egos.Grass
