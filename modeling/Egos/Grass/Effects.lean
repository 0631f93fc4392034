import Egos.Grass.Step
import Mathlib.Data.List.Induction
import Mathlib.Tactic.Common

/-! Everything that a step can do, said once for all proofs about runs of the machine. -/

namespace Egos.Grass

/-- A sequence succeeds exactly when both of its parts do. -/
theorem bind_eq_ok {α β : Type} {first : Fallible α} {second : α → Fallible β} {result : β} :
    (first >>= second) = .ok result ↔ ∃ value, first = .ok value ∧ second value = .ok result := by
  cases first with
  | error message => simp [Bind.bind, Except.bind]
  | ok value => simp [Bind.bind, Except.bind]

/-- Returning a value succeeds with that value. -/
theorem pure_eq_ok {α : Type} {value result : α} :
    (pure value : Fallible α) = .ok result ↔ value = result := by
  simp [pure, Except.pure]

/-- A fatal error never succeeds. -/
theorem throw_ne_ok {α : Type} {message : String} {result : α} :
    (throw message : Fallible α) ≠ .ok result := by
  simp [throw, throwThe, MonadExceptOf.throw]

/-- An assertion succeeds exactly when its condition holds. -/
theorem assert_eq_ok {condition : Prop} [Decidable condition] {message : String} {result : Unit} :
    assert condition message = .ok result ↔ condition := by
  unfold assert
  split
  · simp [pure, Except.pure, *]
  · simp [throw, throwThe, MonadExceptOf.throw, *]

/-- A pid names exactly the slot it is the pid of. -/
theorem pid2idx_eq_ok {pid : Int} {idx : Slot} : pid2idx pid = .ok idx ↔ pid = idx2pid idx := by
  unfold pid2idx idx2pid
  split
  · rename_i inside
    simp only [pure_eq_ok, Fin.ext_iff]
    simp only [maxNprocess] at inside
    omega
  · rename_i outside
    have := idx.isLt
    simp only [maxNprocess] at outside this
    refine iff_of_false throw_ne_ok (by omega)

/-- The pid of a slot names that slot. -/
@[simp] theorem pid2idx_idx2pid (idx : Slot) : pid2idx (idx2pid idx) = .ok idx :=
  pid2idx_eq_ok.mpr rfl

/-- Different slots have different pids. -/
@[simp] theorem idx2pid_inj {first second : Slot} :
    idx2pid first = idx2pid second ↔ first = second := by
  simp only [idx2pid, Fin.ext_iff]
  omega

/-- The pids of slots are positive and at most the size of the table. -/
theorem idx2pid_bounds (idx : Slot) : 0 < idx2pid idx ∧ idx2pid idx ≤ 16 := by
  have := idx.isLt
  simp only [maxNprocess] at this
  simp only [idx2pid]
  omega

section Fields

variable (kernel : Kernel) (idx other : Slot) (process : Process) (page : Syscall)
variable (msg : SysMsg) (context : Context) (status : Status)

@[simp] theorem Kernel.setProc_procSet :
    (kernel.setProc idx process).procSet = Function.update kernel.procSet idx process := rfl
@[simp] theorem Kernel.setProc_page : (kernel.setProc idx process).page = kernel.page := rfl
@[simp] theorem Kernel.setProc_context :
    (kernel.setProc idx process).context = kernel.context := rfl
@[simp] theorem Kernel.setProc_procCurrIdx :
    (kernel.setProc idx process).procCurrIdx = kernel.procCurrIdx := rfl

@[simp] theorem Kernel.setPage_procSet : (kernel.setPage idx page).procSet = kernel.procSet := rfl
@[simp] theorem Kernel.setPage_page :
    (kernel.setPage idx page).page = Function.update kernel.page idx page := rfl
@[simp] theorem Kernel.setPage_context : (kernel.setPage idx page).context = kernel.context := rfl
@[simp] theorem Kernel.setPage_procCurrIdx :
    (kernel.setPage idx page).procCurrIdx = kernel.procCurrIdx := rfl

@[simp] theorem Kernel.setContext_procSet :
    (kernel.setContext idx context).procSet = kernel.procSet := rfl
@[simp] theorem Kernel.setContext_page :
    (kernel.setContext idx context).page = kernel.page := rfl
@[simp] theorem Kernel.setContext_context :
    (kernel.setContext idx context).context = Function.update kernel.context idx context := rfl
@[simp] theorem Kernel.setContext_procCurrIdx :
    (kernel.setContext idx context).procCurrIdx = kernel.procCurrIdx := rfl

end Fields

/-- Setting a status succeeds for the pid of a slot that carries that pid. -/
theorem procSetStatus_eq_ok {kernel after : Kernel} {pid : Int} {status : Status} :
    procSetStatus kernel pid status = .ok after ↔
      ∃ idx, pid = idx2pid idx ∧ (kernel.procSet idx).pid = pid ∧
        after = kernel.setStatus idx status := by
  simp only [procSetStatus, bind_eq_ok, pid2idx_eq_ok, assert_eq_ok, pure_eq_ok]
  constructor
  · rintro ⟨idx, named, _, carried, rfl⟩
    exact ⟨idx, named, carried.symm, rfl⟩
  · rintro ⟨idx, named, carried, rfl⟩
    exact ⟨idx, named, (), carried.symm, rfl⟩

/-- Live processes sit in the slots of their pids. -/
def Kernel.Placed (kernel : Kernel) : Prop :=
  ∀ i, (kernel.procSet i).status ≠ .unused → (kernel.procSet i).pid = idx2pid i

/-- Replacing an entry keeps the processes in place if the new one is. -/
theorem Kernel.Placed.setProc {kernel : Kernel} (placed : kernel.Placed) {idx : Slot}
    {process : Process} (own : process.pid = idx2pid idx) :
    (kernel.setProc idx process).Placed := by
  intro i live
  by_cases same : i = idx
  · subst same
    simpa using own
  · rw [Kernel.setProc_procSet, Function.update_of_ne same] at live ⊢
    exact placed i live

/-- Setting the status of a slot that carries its pid keeps the processes in place. -/
theorem Kernel.Placed.setStatus {kernel : Kernel} (placed : kernel.Placed) {idx : Slot}
    {status : Status} (carried : (kernel.procSet idx).pid = idx2pid idx) :
    (kernel.setStatus idx status).Placed :=
  placed.setProc carried

/-- Only the table decides whether the processes are in place. -/
theorem Kernel.Placed.congr {kernel other : Kernel} (placed : kernel.Placed)
    (same : other.procSet = kernel.procSet) : other.Placed := by
  unfold Kernel.Placed
  rw [same]
  exact placed

/-- A table in which the current process is active and about to continue in user space. -/
structure WellFormed (kernel : Kernel) : Prop where
  pids : kernel.Placed
  curr : kernel.currPid = idx2pid kernel.procCurrIdx
  active : kernel.curr.status.active
  user : kernel.context kernel.procCurrIdx = .user

/-- What switching to another process and resuming it does. -/
structure Switched (before after : Kernel) (events : List Event) : Prop where
  page : after.page = before.page
  pid : ∀ i, (after.procSet i).pid = (before.procSet i).pid
  fromSender : ∀ i, (after.procSet i).fromSenderPid = (before.procSet i).fromSenderPid
  toReceiver : ∀ i, (after.procSet i).toReceiverPid = (before.procSet i).toReceiverPid
  -- Only active processes change their status, and they stay active.
  status : ∀ i, (after.procSet i).status = (before.procSet i).status ∨
    (before.procSet i).status.active ∧ (after.procSet i).status.active
  chosen : (before.procSet after.procCurrIdx).status.active
  runs : (after.procSet after.procCurrIdx).status = .running
  -- The process that ran before has been paused.
  alone : ∀ i, (after.procSet i).status = .running →
    i = after.procCurrIdx ∨ (before.procSet i).status = .running ∧ i ≠ before.procCurrIdx
  named : after.currPid = idx2pid after.procCurrIdx
  context : after.context = Function.update before.context after.procCurrIdx .user
  events : events = match before.context after.procCurrIdx with
    | .receiving expected =>
      [.received after.currPid expected (before.page after.procCurrIdx).msg]
    | _ => []

section Switches

variable {before after : Kernel} {events : List Event}

/-- Processes that are not active keep their status across a switch. -/
theorem Switched.idle_iff (switched : Switched before after events) (i : Slot)
    {status : Status} (idle : status.active = false) :
    (after.procSet i).status = status ↔ (before.procSet i).status = status := by
  rcases switched.status i with same | ⟨first, second⟩
  · rw [same]
  · constructor
    · intro waits
      rw [waits, idle] at second
      cases second
    · intro waits
      rw [waits, idle] at first
      cases first

/-- A process that is not active is not the one that is switched to. -/
theorem Switched.idle_ne (switched : Switched before after events) {i : Slot}
    (idle : (before.procSet i).status.active = false) : i ≠ after.procCurrIdx := by
  rintro rfl
  rw [switched.chosen] at idle
  cases idle

/-- A process that is not switched to continues where it would have. -/
theorem Switched.context_of_ne (switched : Switched before after events)
    {i : Slot} (different : i ≠ after.procCurrIdx) : after.context i = before.context i := by
  rw [switched.context, Function.update_of_ne different]

end Switches

/-- The scheduler only picks active processes. -/
theorem active_of_nextIdx {kernel : Kernel} {idx : Slot} (next : kernel.nextIdx = some idx) :
    (kernel.procSet idx).status.active := by
  simpa using List.find?_some next

/-- Resuming a process returns it to user space. -/
theorem resume_fst (kernel : Kernel) :
    (resume kernel).1 = kernel.setContext kernel.procCurrIdx .user := by
  cases context : kernel.context kernel.procCurrIdx <;> simp [resume, context]

/-- Resuming a process shows the message of a receive that returns. -/
theorem resume_snd (kernel : Kernel) :
    (resume kernel).2 = match kernel.context kernel.procCurrIdx with
      | .receiving expected =>
        [.received kernel.currPid expected (kernel.page kernel.procCurrIdx).msg]
      | _ => [] := by
  cases context : kernel.context kernel.procCurrIdx <;> simp [resume, context]

/-- Pausing the current process leaves an active process active. -/
theorem pause_eq_ok {kernel middle : Kernel}
    (pids : kernel.Placed)
    (paused : kernel.pause = .ok middle) :
    kernel.curr.status ≠ .running ∧ middle = kernel ∨ kernel.curr.status = .running ∧
      middle = kernel.setStatus kernel.procCurrIdx .runnable := by
  unfold Kernel.pause at paused
  split at paused
  · rename_i running
    -- The current process runs, so its pid names its own slot.
    obtain ⟨idx, named, -, rfl⟩ := procSetStatus_eq_ok.mp paused
    have own := pids kernel.procCurrIdx (by rw [← Kernel.curr, running]; decide)
    rw [Kernel.currPid, Kernel.curr, own, idx2pid_inj] at named
    exact Or.inr ⟨running, by rw [named]⟩
  · rename_i idle
    exact Or.inl ⟨idle, (pure_eq_ok.mp paused).symm⟩

/-- A successful yield, followed by the return of the chosen process, is a switch. -/
theorem switched_of_yield {kernel after : Kernel}
    (pids : kernel.Placed)
    (yielded : procYield kernel = .ok after) :
    Switched kernel (resume after).1 (resume after).2 := by
  unfold procYield at yielded
  -- Without an active process the scheduler halts the machine.
  cases next : kernel.nextIdx with
  | none => simp [next, throw_ne_ok] at yielded
  | some idx =>
    have active := active_of_nextIdx next
    simp only [next, bind_eq_ok, assert_eq_ok] at yielded
    obtain ⟨middle, paused, _, bounded, running⟩ := yielded
    obtain ⟨chosen, named, carried, rfl⟩ := procSetStatus_eq_ok.mp running
    have live : (kernel.procSet idx).status ≠ .unused := fun bad => by
      rw [bad] at active
      cases active
    -- Pausing changes no field but the status of the current process, and keeps it active.
    obtain ⟨page, context, fields, status, alone⟩ : middle.page = kernel.page ∧
        middle.context = kernel.context ∧
        (∀ i, (middle.procSet i).pid = (kernel.procSet i).pid ∧
          (middle.procSet i).fromSenderPid = (kernel.procSet i).fromSenderPid ∧
          (middle.procSet i).toReceiverPid = (kernel.procSet i).toReceiverPid) ∧
        (∀ i, (middle.procSet i).status = (kernel.procSet i).status ∨
          (kernel.procSet i).status.active ∧ (middle.procSet i).status.active) ∧
        ∀ i, (middle.procSet i).status = .running →
          (kernel.procSet i).status = .running ∧ i ≠ kernel.procCurrIdx := by
      rcases pause_eq_ok pids paused with ⟨idle, rfl⟩ | ⟨ran, rfl⟩
      · refine ⟨rfl, rfl, fun i => ⟨rfl, rfl, rfl⟩, fun i => Or.inl rfl, fun i runs => ⟨runs, ?_⟩⟩
        rintro rfl
        exact idle runs
      · refine ⟨rfl, rfl, fun i => ?_, fun i => ?_, fun i runs => ?_⟩
        · by_cases same : i = kernel.procCurrIdx
          · subst same
            simp [Kernel.setStatus]
          · simp [Kernel.setStatus, Function.update_of_ne same]
        · by_cases same : i = kernel.procCurrIdx
          · subst same
            have active : (kernel.procSet kernel.procCurrIdx).status = .running := ran
            simp [Kernel.setStatus, active, Status.active]
          · simp [Kernel.setStatus, Function.update_of_ne same]
        · by_cases same : i = kernel.procCurrIdx
          · subst same
            simp [Kernel.setStatus] at runs
          · simp only [Kernel.setStatus, Kernel.setProc_procSet,
              Function.update_of_ne same] at runs
            exact ⟨runs, same⟩
    have target : chosen = idx := by
      have own : (middle.procSet idx).pid = idx2pid chosen := named
      rw [(fields idx).1, pids idx live, idx2pid_inj] at own
      exact own.symm
    subst target
    have pid : ∀ i, (({ middle with procCurrIdx := chosen } : Kernel).setStatus chosen
        .running).procSet i = { middle.procSet i with
          status := if i = chosen then .running else (middle.procSet i).status } := by
      intro i
      by_cases same : i = chosen
      · subst same
        simp [Kernel.setStatus]
      · simp [Kernel.setStatus, same]
    rw [resume_fst, resume_snd]
    refine ⟨page, fun i => ?_, fun i => ?_, fun i => ?_, fun i => ?_, active, ?_, fun i runs => ?_,
      ?_, ?_, ?_⟩
    · rw [Kernel.setContext_procSet, pid]
      exact (fields i).1
    · rw [Kernel.setContext_procSet, pid]
      exact (fields i).2.1
    · rw [Kernel.setContext_procSet, pid]
      exact (fields i).2.2
    · rw [Kernel.setContext_procSet, pid]
      by_cases same : i = chosen
      · subst same
        exact Or.inr ⟨active, by simp [Status.active]⟩
      · simp only [same, if_false]
        exact status i
    · simp [Kernel.setStatus]
    · rw [Kernel.setContext_procSet, pid] at runs
      by_cases same : i = chosen
      · exact Or.inl same
      · simp only [same, if_false] at runs
        exact Or.inr (alone i runs)
    · simp only [Kernel.currPid, Kernel.curr, Kernel.setContext_procSet, pid]
      exact named
    · simp [Kernel.setStatus, context]
    · simp only [Kernel.setStatus, Kernel.setProc_context, Kernel.setProc_page, context, page]
      rfl

section Outcomes

variable (kernel : Kernel)

/-- The message that a send of the current process puts into its page. -/
def Kernel.outgoing (receiver : Int) (msg : List UInt8) : SysMsg where
  sender := kernel.currPid
  receiver := receiver
  content := Content.load (kernel.page kernel.procCurrIdx).msg.content msg

/-- The kernel once a system call of the current process has been taken from its page. -/
def Kernel.issued (context : Context) (msg : SysMsg) : Kernel :=
  (kernel.setPage kernel.procCurrIdx ⟨.unused, msg, 0⟩).setContext kernel.procCurrIdx context

/-- The kernel once a send has blocked the current process. -/
def Kernel.sendBlocked (receiver : Int) (msg : List UInt8) : Kernel :=
  (kernel.issued .sending (kernel.outgoing receiver msg)).setProc kernel.procCurrIdx
    { kernel.curr with status := .waitToSend, toReceiverPid := receiver }

/-- The kernel once a send has delivered its message to a waiting slot. -/
def Kernel.sendDelivered (idx : Slot) (msg : List UInt8) : Kernel :=
  ((kernel.issued .sending (kernel.outgoing (idx2pid idx) msg)).setMsg idx
    (kernel.outgoing (idx2pid idx) msg)).setStatus idx .runnable

/-- The message area of the current process once a receive has named an expected sender. -/
def Kernel.asking (expected : Int) : SysMsg :=
  { (kernel.page kernel.procCurrIdx).msg with sender := expected }

/-- The kernel once a receive of the current process has been recorded in the table. -/
def Kernel.recvIssued (expected : Int) : Kernel :=
  (kernel.issued (.receiving expected) (kernel.asking expected)).setProc kernel.procCurrIdx
    { kernel.curr with fromSenderPid := expected }

/-- The kernel once a receive has blocked the current process. -/
def Kernel.recvBlocked (expected : Int) : Kernel :=
  (kernel.recvIssued expected).setStatus kernel.procCurrIdx .waitToRecv

/-- The kernel once a receive has taken the message of a blocked sender. -/
def Kernel.recvTaken (expected : Int) (idx : Slot) : Kernel :=
  ((kernel.recvIssued expected).setMsg kernel.procCurrIdx (kernel.page idx).msg).setStatus idx
    .runnable

/-- The kernel once a slot has been allocated. -/
def Kernel.allocated (idx : Slot) : Kernel :=
  ((kernel.setProc idx { kernel.procSet idx with pid := idx2pid idx, status := .loading }).setPage
    idx .zero).setContext idx .user

/-- The kernel once all user applications have been freed. -/
def Kernel.killedAll : Kernel :=
  { kernel with procSet := fun i =>
    if (kernel.procSet i).pid ≥ gpidUserStart ∧ (kernel.procSet i).status ≠ .unused
    then { kernel.procSet i with status := .unused } else kernel.procSet i }

/-- A slot's process waits for a message that a pid may send. -/
def Kernel.awaits (idx : Slot) (sender : Int) : Prop :=
  (kernel.procSet idx).status = .waitToRecv ∧
    ((kernel.procSet idx).fromSenderPid = sender ∨ (kernel.procSet idx).fromSenderPid = 0)

/-- Everything that a successful step can do. -/
inductive Outcome : Label → Kernel → List Event → Prop
  | sendRefused {receiver : Int} {msg : List UInt8} (long : syscallMsgLen < msg.length) :
      Outcome (.send receiver msg) kernel []
  | sendBlocked {msg : List UInt8} {idx : Slot} {after : Kernel} {events : List Event}
      (known : (kernel.procSet idx).pid = idx2pid idx)
      (busy : ¬ kernel.awaits idx kernel.currPid)
      (switched : Switched (kernel.sendBlocked (idx2pid idx) msg) after events) :
      Outcome (.send (idx2pid idx) msg) after
        (.sent kernel.currPid (kernel.outgoing (idx2pid idx) msg) :: events)
  | sendDelivered {msg : List UInt8} {idx : Slot} {after : Kernel} {events : List Event}
      (awaits : kernel.awaits idx kernel.currPid)
      (switched : Switched (kernel.sendDelivered idx msg) after events) :
      Outcome (.send (idx2pid idx) msg) after
        (.sent kernel.currPid (kernel.outgoing (idx2pid idx) msg) :: events)
  | recvBlocked {sender expected : Int} {after : Kernel} {events : List Event}
      (named : expected = max sender 0)
      (nobody : ∀ i, kernel.offers i kernel.currPid → expected ≠ 0 ∧ expected ≠ idx2pid i)
      (switched : Switched (kernel.recvBlocked expected) after events) :
      Outcome (.recv sender) after events
  | recvTaken {sender expected : Int} {idx : Slot} {after : Kernel} {events : List Event}
      (named : expected = max sender 0)
      (offers : kernel.offers idx kernel.currPid)
      (matches_ : expected = 0 ∨ expected = idx2pid idx)
      (switched : Switched (kernel.recvTaken expected idx) after events) :
      Outcome (.recv sender) after events
  | yielded {after : Kernel} {events : List Event}
      (switched : Switched (kernel.issued .user (kernel.page kernel.procCurrIdx).msg) after
        events) : Outcome .yield after events
  | timerIgnored {ttyIntr : Bool} (low : kernel.currPid < gpidShell) :
      Outcome (.timer ttyIntr) kernel []
  | timerKilled (high : kernel.currPid ≥ gpidUserStart) :
      Outcome (.timer true) kernel [.killed kernel.currPid]
  | timerYielded {ttyIntr : Bool} {after : Kernel} {events : List Event}
      (high : kernel.currPid ≥ gpidShell) (switched : Switched kernel after events)
      (spared : ¬ (kernel.currPid ≥ gpidUserStart ∧ ttyIntr = true)) :
      Outcome (.timer ttyIntr) after events
  | allocated {idx : Slot} (free : (kernel.procSet idx).status = .unused) :
      Outcome .alloc (kernel.allocated idx) []
  | madeReady {idx : Slot} (known : (kernel.procSet idx).pid = idx2pid idx) :
      Outcome (.setReady (idx2pid idx)) (kernel.setStatus idx .ready) []
  | freed {idx : Slot} (known : (kernel.procSet idx).pid = idx2pid idx) :
      Outcome (.free (idx2pid idx)) (kernel.setStatus idx .unused) []
  | freedAll : Outcome (.free (-1)) kernel.killedAll []

end Outcomes

/-- The private pages of a pid are those of its slot. -/
theorem mmuSlot_eq_ok {pid : Int} {idx : Slot} : mmuSlot pid = .ok idx ↔ pid = idx2pid idx := by
  simp only [mmuSlot, bind_eq_ok, assert_eq_ok, pid2idx_eq_ok]
  constructor
  · rintro ⟨_, _, named⟩
    exact named
  · intro named
    have := idx2pid_bounds idx
    exact ⟨(), by simp only [maxNprocess]; omega, named⟩

/-- A copy between two processes replaces the message of the second one. -/
theorem msgcpy_eq_ok {kernel after : Kernel} {srcPid dstPid : Int} {src dst : Slot}
    (srcNamed : srcPid = idx2pid src) (dstNamed : dstPid = idx2pid dst)
    (copied : msgcpy kernel srcPid dstPid = .ok after) :
    after = kernel.setMsg dst (kernel.page src).msg := by
  simp only [msgcpy, bind_eq_ok, mmuSlot_eq_ok, pure_eq_ok, srcNamed, dstNamed,
    idx2pid_inj] at copied
  obtain ⟨_, rfl, _, rfl, rfl⟩ := copied
  rfl

/-- The search for any sender finds one exactly when there is one. -/
theorem anySender_cases (kernel : Kernel) (receiver : Int) :
    (kernel.anySender receiver = -1 ∧ ∀ i, ¬ kernel.offers i receiver) ∨
      ∃ i, kernel.offers i receiver ∧ kernel.anySender receiver = (kernel.procSet i).pid := by
  -- The loop keeps the last match, so the induction looks at the table from its end.
  have general : ∀ slots : List Slot,
      let found := slots.foldl (fun sender i =>
        if kernel.offers i receiver then (kernel.procSet i).pid else sender) (-1)
      (found = -1 ∧ ∀ i ∈ slots, ¬ kernel.offers i receiver) ∨
        ∃ i, kernel.offers i receiver ∧ found = (kernel.procSet i).pid := by
    intro slots
    induction slots using List.reverseRecOn with
    | nil => exact Or.inl ⟨rfl, by simp⟩
    | append_singleton slots last ih =>
      simp only [List.foldl_append, List.foldl_cons, List.foldl_nil]
      by_cases offers : kernel.offers last receiver
      · exact Or.inr ⟨last, offers, if_pos offers⟩
      · rw [if_neg offers]
        rcases ih with ⟨nothing, nobody⟩ | found
        · refine Or.inl ⟨nothing, fun i member => ?_⟩
          rcases List.mem_append.mp member with earlier | same
          · exact nobody i earlier
          · rw [List.mem_singleton.mp same]
            exact offers
        · exact Or.inr found
  rcases general (List.finRange maxNprocess) with ⟨nothing, nobody⟩ | found
  · exact Or.inl ⟨nothing, fun i => nobody i (List.mem_finRange i)⟩
  · exact Or.inr found

/-- A process that offers a message is live. -/
theorem WellFormed.offers_pid {kernel : Kernel} (formed : WellFormed kernel) {idx : Slot}
    {receiver : Int} (offers : kernel.offers idx receiver) :
    (kernel.procSet idx).pid = idx2pid idx := by
  simp only [Kernel.offers, decide_eq_true_eq] at offers
  exact formed.pids idx (by rw [offers.1]; decide)

/-- The current process is not blocked, so it offers no message. -/
theorem WellFormed.offers_ne {kernel : Kernel} (formed : WellFormed kernel) {idx : Slot}
    {receiver : Int} (offers : kernel.offers idx receiver) : idx ≠ kernel.procCurrIdx := by
  rintro rfl
  have active := formed.active
  simp only [Kernel.offers, decide_eq_true_eq] at offers
  rw [Kernel.curr, offers.1] at active
  cases active

/-- Blocking a sender keeps the processes in place. -/
theorem WellFormed.placed_sendBlocked {kernel : Kernel} (formed : WellFormed kernel)
    (receiver : Int) (msg : List UInt8) : (kernel.sendBlocked receiver msg).Placed := by
  have table : (kernel.issued .sending (kernel.outgoing receiver msg)).Placed :=
    formed.pids.congr rfl
  exact table.setProc formed.curr

/-- Delivering a message keeps the processes in place. -/
theorem WellFormed.placed_sendDelivered {kernel : Kernel} (formed : WellFormed kernel) {idx : Slot}
    (carried : (kernel.procSet idx).pid = idx2pid idx) (msg : List UInt8) :
    (kernel.sendDelivered idx msg).Placed := by
  have table : ((kernel.issued .sending (kernel.outgoing (idx2pid idx) msg)).setMsg idx
      (kernel.outgoing (idx2pid idx) msg)).Placed := formed.pids.congr rfl
  exact table.setProc carried

/-- Recording a receive keeps the processes in place. -/
theorem WellFormed.placed_recvIssued {kernel : Kernel} (formed : WellFormed kernel)
    (expected : Int) : (kernel.recvIssued expected).Placed := by
  have table : (kernel.issued (.receiving expected) (kernel.asking expected)).Placed :=
    formed.pids.congr rfl
  exact table.setProc formed.curr

/-- Blocking a receiver keeps the processes in place. -/
theorem WellFormed.placed_recvBlocked {kernel : Kernel} (formed : WellFormed kernel)
    (expected : Int) : (kernel.recvBlocked expected).Placed := by
  refine (formed.placed_recvIssued expected).setProc ?_
  simp only [Kernel.recvIssued, Kernel.setProc_procSet, Function.update_self]
  exact formed.curr

/-- Taking a message keeps the processes in place. -/
theorem WellFormed.placed_recvTaken {kernel : Kernel} (formed : WellFormed kernel)
    (expected : Int) {idx : Slot} {receiver : Int} (offers : kernel.offers idx receiver) :
    (kernel.recvTaken expected idx).Placed := by
  have table : ((kernel.recvIssued expected).setMsg kernel.procCurrIdx
      (kernel.page idx).msg).Placed := (formed.placed_recvIssued expected).congr rfl
  refine table.setProc ?_
  have same : (kernel.recvIssued expected).procSet idx = kernel.procSet idx :=
    Function.update_of_ne (formed.offers_ne offers) _ _
  show ((kernel.recvIssued expected).procSet idx).pid = idx2pid idx
  rw [same]
  exact formed.offers_pid offers

/-- A search for a sender finds a matching one or reports that there is none. -/
theorem findSender_cases {kernel : Kernel} {expected receiver sender : Int}
    (carried : ∀ i, kernel.offers i receiver → (kernel.procSet i).pid = idx2pid i)
    (found : kernel.findSender expected receiver = .ok sender) :
    (sender = -1 ∧ ∀ i, kernel.offers i receiver → expected ≠ 0 ∧ expected ≠ idx2pid i) ∨
      ∃ i, kernel.offers i receiver ∧ sender = idx2pid i ∧
        (expected = 0 ∨ expected = idx2pid i) := by
  -- The loop finds the first process that offers a message, or none.
  unfold Kernel.findSender at found
  split at found
  · rename_i any
    rw [pure_eq_ok] at found
    rcases anySender_cases kernel receiver with ⟨nothing, nobody⟩ | ⟨i, offers, named⟩
    · exact Or.inl ⟨found ▸ nothing, fun i offers => absurd offers (nobody i)⟩
    · exact Or.inr ⟨i, offers, by rw [← found, named, carried i offers], Or.inl any⟩
  · rename_i targeted
    simp only [bind_eq_ok, pid2idx_eq_ok, pure_eq_ok] at found
    obtain ⟨idx, named, rfl⟩ := found
    by_cases offers : kernel.offers idx receiver
    · rw [if_pos offers]
      exact Or.inr ⟨idx, offers, named, Or.inr named⟩
    · rw [if_neg offers]
      refine Or.inl ⟨rfl, fun i other => ⟨targeted, fun same => offers ?_⟩⟩
      rw [named, idx2pid_inj] at same
      exact same ▸ other

/-- Taking a call from the page leaves the call's message behind. -/
theorem procSyscall_issued (kernel : Kernel) (page : Syscall) (context : Context) :
    procSyscall ((kernel.setPage kernel.procCurrIdx page).setContext kernel.procCurrIdx context) =
      match page.type with
      | .recv => procRecv (kernel.issued context page.msg)
      | .send => procSend (kernel.issued context page.msg)
      | .yield => procYield (kernel.issued context page.msg)
      | .unused => throw "proc_syscall: got unknown syscall type=0" := by
  cases kind : page.type <;>
    simp [procSyscall, Kernel.issued, Kernel.setPage, Kernel.setContext, kind]

/-- A trap handles the call and resumes the process that it switches to. -/
theorem trap_eq_ok {kernel after : Kernel} {page : Syscall} {context : Context}
    {events : List Event} (trapped : trap kernel page context = .ok (after, events)) :
    ∃ middle, procSyscall ((kernel.setPage kernel.procCurrIdx page).setContext
      kernel.procCurrIdx context) = .ok middle ∧ resume middle = (after, events) := by
  simp only [trap, intrEntry, bind_eq_ok, reduceCtorEq, false_and, if_false, Bool.false_eq_true,
    and_false, pure_eq_ok] at trapped
  obtain ⟨_, ⟨middle, handled, rfl⟩, resumed⟩ := trapped
  exact ⟨middle, handled, resumed⟩

/-- Taking a call from a page keeps the table. -/
@[simp] theorem Kernel.issued_procSet (kernel : Kernel) (context : Context) (msg : SysMsg) :
    (kernel.issued context msg).procSet = kernel.procSet := rfl

@[simp] theorem Kernel.issued_procCurrIdx (kernel : Kernel) (context : Context) (msg : SysMsg) :
    (kernel.issued context msg).procCurrIdx = kernel.procCurrIdx := rfl

@[simp] theorem Kernel.issued_curr (kernel : Kernel) (context : Context) (msg : SysMsg) :
    (kernel.issued context msg).curr = kernel.curr := rfl

@[simp] theorem Kernel.issued_currPid (kernel : Kernel) (context : Context) (msg : SysMsg) :
    (kernel.issued context msg).currPid = kernel.currPid := rfl

/-- Replacing the message of a call that has just been taken is taking the other call. -/
@[simp] theorem Kernel.issued_setMsg (kernel : Kernel) (context : Context) (msg other : SysMsg) :
    (kernel.issued context msg).setMsg kernel.procCurrIdx other = kernel.issued context other := by
  simp [Kernel.issued, Kernel.setMsg, Kernel.setPage, Kernel.setContext]

/-- The page of the current process holds the message of the call it has issued. -/
@[simp] theorem Kernel.issued_page_self (kernel : Kernel) (context : Context) (msg : SysMsg) :
    ((kernel.issued context msg).page kernel.procCurrIdx) = ⟨.unused, msg, 0⟩ := by
  simp [Kernel.issued]

/-- The kernel's half of a send. -/
theorem procSend_cases {kernel middle : Kernel} (formed : WellFormed kernel) {msg : SysMsg}
    (sent : procSend (kernel.issued .sending msg) = .ok middle) :
    ∃ idx, msg.receiver = idx2pid idx ∧ (kernel.procSet idx).pid = idx2pid idx ∧
      (¬ kernel.awaits idx kernel.currPid ∧
        procYield ((kernel.issued .sending { msg with sender := kernel.currPid }).setProc
          kernel.procCurrIdx
          { kernel.curr with status := .waitToSend, toReceiverPid := idx2pid idx }) = .ok middle ∨
      kernel.awaits idx kernel.currPid ∧
        procYield (((kernel.issued .sending { msg with sender := kernel.currPid }).setMsg idx
          { msg with sender := kernel.currPid }).setStatus idx .runnable) = .ok middle) := by
  simp only [procSend, Kernel.issued_procCurrIdx, Kernel.issued_currPid, Kernel.issued_setMsg,
    Kernel.issued_page_self, Kernel.issued_procSet, Kernel.issued_curr, bind_eq_ok, pid2idx_eq_ok,
    assert_eq_ok] at sent
  obtain ⟨idx, named, _, carried, sent⟩ := sent
  obtain ⟨sender, receiver, content⟩ := msg
  simp only at named carried sent
  subst named
  refine ⟨idx, rfl, carried, ?_⟩
  split at sent
  · -- The receiver does not wait for this sender.
    rename_i busy
    refine Or.inl ⟨fun awaits => ?_, sent⟩
    rcases busy with other | ⟨named, any⟩
    · exact other awaits.1
    · exact awaits.2.elim named any
  · rename_i waiting
    simp only [not_or, not_and_or, not_not, ne_eq] at waiting
    refine Or.inr ⟨waiting, ?_⟩
    simp only [bind_eq_ok] at sent
    obtain ⟨copied, copy, marked, mark, yielded⟩ := sent
    rw [msgcpy_eq_ok formed.curr rfl copy, Kernel.issued_page_self] at mark
    obtain ⟨other, same, -, rfl⟩ := procSetStatus_eq_ok.mp mark
    rw [idx2pid_inj] at same
    subst same
    exact yielded

/-- A successful send blocks the sender or delivers its message to a waiting receiver. -/
theorem send_outcome {kernel after : Kernel} (formed : WellFormed kernel) {receiver : Int}
    {msg : List UInt8} {events : List Event}
    (stepped : step kernel (.send receiver msg) = .ok (after, events)) :
    Outcome kernel (.send receiver msg) after events := by
  simp only [step, sysSend] at stepped
  by_cases long : msg.length > syscallMsgLen
  · -- The user-space half refuses the message without a trap.
    simp only [if_pos long, pure_eq_ok, Prod.mk.injEq] at stepped
    obtain ⟨rfl, rfl⟩ := stepped
    exact .sendRefused long
  · simp only [if_neg long, bind_eq_ok, pure_eq_ok] at stepped
    obtain ⟨⟨last, rest⟩, trapped, ended⟩ := stepped
    obtain ⟨rfl, rfl⟩ := Prod.mk.inj ended
    obtain ⟨middle, handled, resumed⟩ := trap_eq_ok trapped
    rw [procSyscall_issued] at handled
    obtain ⟨idx, named, carried, cases⟩ := procSend_cases formed handled
    have named : receiver = idx2pid idx := named
    subst named
    rcases cases with ⟨busy, yielded⟩ | ⟨awaits, yielded⟩
    · have yielded : procYield (kernel.sendBlocked (idx2pid idx) msg) = .ok middle := yielded
      have switched := switched_of_yield (formed.placed_sendBlocked _ _) yielded
      rw [resumed] at switched
      exact .sendBlocked carried busy switched
    · have yielded : procYield (kernel.sendDelivered idx msg) = .ok middle := yielded
      have switched := switched_of_yield (formed.placed_sendDelivered carried _) yielded
      rw [resumed] at switched
      exact .sendDelivered awaits switched

/-- The kernel's half of a receive. -/
theorem procRecv_cases {kernel middle : Kernel} (formed : WellFormed kernel) {context : Context}
    {msg : SysMsg} (received : procRecv (kernel.issued context msg) = .ok middle) :
    ((∀ i, kernel.offers i kernel.currPid → msg.sender ≠ 0 ∧ msg.sender ≠ idx2pid i) ∧
      procYield (((kernel.issued context msg).setProc kernel.procCurrIdx
        { kernel.curr with fromSenderPid := msg.sender }).setStatus kernel.procCurrIdx
          .waitToRecv) = .ok middle) ∨
    ∃ idx, kernel.offers idx kernel.currPid ∧ (msg.sender = 0 ∨ msg.sender = idx2pid idx) ∧
      procYield ((((kernel.issued context msg).setProc kernel.procCurrIdx
        { kernel.curr with fromSenderPid := msg.sender }).setMsg kernel.procCurrIdx
          (kernel.page idx).msg).setStatus idx .runnable) = .ok middle := by
  simp only [procRecv, Kernel.issued_procCurrIdx, Kernel.issued_currPid,
    Kernel.issued_page_self, Kernel.issued_curr, bind_eq_ok, assert_eq_ok] at received
  obtain ⟨_, bounded, sender, found, received⟩ := received
  -- Recording the expected sender changes neither statuses nor pids.
  have same : ∀ i, ((kernel.issued context msg).setProc kernel.procCurrIdx
      { kernel.curr with fromSenderPid := msg.sender }).offers i kernel.currPid =
      kernel.offers i kernel.currPid := by
    intro i
    by_cases current : i = kernel.procCurrIdx
    · subst current
      simp [Kernel.offers, Kernel.curr]
    · simp [Kernel.offers, Function.update_of_ne current]
  have carried : ∀ i, kernel.offers i kernel.currPid →
      (((kernel.issued context msg).setProc kernel.procCurrIdx
        { kernel.curr with fromSenderPid := msg.sender }).procSet i).pid = idx2pid i := by
    intro i offers
    rw [Kernel.setProc_procSet, Function.update_of_ne (formed.offers_ne offers)]
    exact formed.offers_pid offers
  rcases findSender_cases (fun i offers => carried i (same i ▸ offers)) found with
    ⟨rfl, nobody⟩ | ⟨idx, offers, rfl, matching⟩
  · rw [if_pos rfl] at received
    exact Or.inl ⟨fun i offers => nobody i (same i ▸ offers), received⟩
  · rw [same] at offers
    have present : idx2pid idx ≠ -1 := by
      have := idx2pid_bounds idx
      omega
    simp only [if_neg present, bind_eq_ok] at received
    obtain ⟨copied, copy, marked, mark, yielded⟩ := received
    rw [msgcpy_eq_ok rfl formed.curr copy] at mark
    obtain ⟨other, named, -, rfl⟩ := procSetStatus_eq_ok.mp mark
    rw [idx2pid_inj] at named
    subst named
    have page : ((kernel.issued context msg).setProc kernel.procCurrIdx
        { kernel.curr with fromSenderPid := msg.sender }).page idx = kernel.page idx :=
      Function.update_of_ne (formed.offers_ne offers) _ _
    rw [page] at yielded
    exact Or.inr ⟨idx, offers, matching, yielded⟩

/-- A successful receive blocks the receiver or takes the message of a blocked sender. -/
theorem recv_outcome {kernel after : Kernel} (formed : WellFormed kernel) {sender : Int}
    {events : List Event} (stepped : step kernel (.recv sender) = .ok (after, events)) :
    Outcome kernel (.recv sender) after events := by
  simp only [step, bind_eq_ok] at stepped
  obtain ⟨page, filled, trapped⟩ := stepped
  -- A sender that is not positive stands for any sender.
  have filled : page = { kernel.page kernel.procCurrIdx with
      type := .recv, msg := kernel.asking (max sender 0) } := by
    unfold sysRecv at filled
    split at filled
    · simp only [bind_eq_ok, assert_eq_ok, pure_eq_ok] at filled
      obtain ⟨_, _, rfl⟩ := filled
      rw [max_eq_left (by omega)]
      rfl
    · rw [pure_eq_ok] at filled
      subst filled
      rw [max_eq_right (by omega)]
      rfl
  subst filled
  obtain ⟨middle, handled, resumed⟩ := trap_eq_ok trapped
  rw [procSyscall_issued] at handled
  rcases procRecv_cases formed handled with ⟨nobody, yielded⟩ | ⟨idx, offers, matching, yielded⟩
  · have yielded : procYield (kernel.recvBlocked (max sender 0)) = .ok middle := yielded
    have switched := switched_of_yield (formed.placed_recvBlocked _) yielded
    rw [resumed] at switched
    exact .recvBlocked rfl nobody switched
  · have yielded : procYield (kernel.recvTaken (max sender 0) idx) = .ok middle := yielded
    have switched := switched_of_yield (formed.placed_recvTaken _ offers) yielded
    rw [resumed] at switched
    exact .recvTaken rfl offers matching switched

/-- A timer interrupt is ignored, kills a user application or yields. -/
theorem timer_outcome {kernel after : Kernel} (formed : WellFormed kernel) {ttyIntr : Bool}
    {events : List Event} (stepped : step kernel (.timer ttyIntr) = .ok (after, events)) :
    Outcome kernel (.timer ttyIntr) after events := by
  simp only [step, intrEntry, true_and] at stepped
  by_cases low : kernel.currPid < gpidShell
  · -- The process was in user space and stays there.
    have stays : resume kernel = (kernel, []) := by
      refine Prod.ext ?_ ?_
      · rw [resume_fst, ← formed.user, Kernel.setContext, Function.update_eq_self]
      · rw [resume_snd, formed.user]
    simp only [if_pos low, bind_eq_ok, pure_eq_ok] at stepped
    obtain ⟨_, rfl, ended⟩ := stepped
    simp only [Bool.false_eq_true, if_false, pure_eq_ok, stays, Prod.mk.injEq] at ended
    obtain ⟨rfl, rfl⟩ := ended
    exact .timerIgnored low
  · rw [if_neg low] at stepped
    by_cases killed : kernel.currPid ≥ gpidUserStart ∧ ttyIntr = true
    · simp only [if_pos killed, bind_eq_ok, pure_eq_ok] at stepped
      obtain ⟨_, rfl, ended⟩ := stepped
      simp only [if_true, pure_eq_ok, Prod.mk.injEq] at ended
      obtain ⟨rfl, rfl⟩ := ended
      rw [killed.2]
      exact .timerKilled killed.1
    · simp only [if_neg killed, bind_eq_ok, pure_eq_ok] at stepped
      obtain ⟨_, ⟨middle, yielded, rfl⟩, ended⟩ := stepped
      simp only [Bool.false_eq_true, if_false, pure_eq_ok] at ended
      have switched := switched_of_yield formed.pids yielded
      rw [ended] at switched
      exact .timerYielded (Int.not_lt.mp low) switched killed

/-- A successful step does one of the things that a step can do. -/
theorem step_outcome {kernel after : Kernel} (formed : WellFormed kernel) {label : Label}
    {events : List Event} (stepped : step kernel label = .ok (after, events)) :
    Outcome kernel label after events := by
  -- Each system call ends with a message passed, a process blocked, or a switch only.
  cases label with
  | send receiver msg => exact send_outcome formed stepped
  | recv sender => exact recv_outcome formed stepped
  | yield =>
    obtain ⟨middle, handled, resumed⟩ := trap_eq_ok stepped
    rw [procSyscall_issued] at handled
    have yielded : procYield (kernel.issued .user (kernel.page kernel.procCurrIdx).msg) =
      .ok middle := handled
    have placed : (kernel.issued .user (kernel.page kernel.procCurrIdx).msg).Placed :=
      formed.pids.congr rfl
    have switched := switched_of_yield placed yielded
    rw [resumed] at switched
    exact .yielded switched
  | timer ttyIntr => exact timer_outcome formed stepped
  | alloc =>
    simp only [step, procAlloc, bind_eq_ok] at stepped
    obtain ⟨⟨pid, middle⟩, allocated, ended⟩ := stepped
    split at allocated
    · rename_i idx found
      simp only [pure_eq_ok, Prod.mk.injEq] at allocated ended
      obtain ⟨-, rfl⟩ := allocated
      obtain ⟨rfl, rfl⟩ := ended
      exact .allocated (by simpa using List.find?_some found)
    · exact absurd allocated throw_ne_ok
  | setReady pid =>
    simp only [step, bind_eq_ok, pure_eq_ok, Prod.mk.injEq] at stepped
    obtain ⟨middle, marked, rfl, rfl⟩ := stepped
    obtain ⟨idx, rfl, carried, rfl⟩ := procSetStatus_eq_ok.mp marked
    exact .madeReady carried
  | free pid =>
    simp only [step, procFree, bind_eq_ok, pure_eq_ok, Prod.mk.injEq] at stepped
    obtain ⟨middle, freed, rfl, rfl⟩ := stepped
    split at freed
    · obtain ⟨idx, rfl, carried, rfl⟩ := procSetStatus_eq_ok.mp freed
      exact .freed carried
    · rename_i all
      simp only [ne_eq, not_not] at all
      rw [pure_eq_ok] at freed
      rw [all, ← freed]
      exact .freedAll

/-- A process does not free itself: only the process server frees, and only other processes. -/
def Spares (kernel : Kernel) : Label → Prop
  | .free pid => pid ≠ kernel.currPid ∧ (pid = -1 → kernel.currPid < gpidUserStart)
  | _ => True

/-- After a switch the table is well formed again. -/
theorem Switched.wellFormed {before after : Kernel} {events : List Event}
    (switched : Switched before after events) (placed : before.Placed) : WellFormed after := by
  refine ⟨fun i live => ?_, switched.named, ?_, ?_⟩
  · rw [switched.pid]
    refine placed i fun free => live ?_
    rcases switched.status i with same | ⟨active, -⟩
    · rw [same, free]
    · rw [free] at active
      cases active
  · rw [Kernel.curr, switched.runs]
    rfl
  · rw [switched.context, Function.update_self]

/-- Replacing the entry of a process other than the current one keeps the table well formed. -/
theorem WellFormed.setProc {kernel : Kernel} (formed : WellFormed kernel) {idx : Slot}
    {process : Process} (own : process.pid = idx2pid idx) (other : idx ≠ kernel.procCurrIdx) :
    WellFormed (kernel.setProc idx process) := by
  have same : (kernel.setProc idx process).curr = kernel.curr :=
    Function.update_of_ne (Ne.symm other) _ _
  refine ⟨formed.pids.setProc own, ?_, ?_, formed.user⟩
  · rw [Kernel.currPid, same]
    exact formed.curr
  · rw [same]
    exact formed.active

/-- The current process is not in an unused slot. -/
theorem WellFormed.curr_ne {kernel : Kernel} (formed : WellFormed kernel) {idx : Slot}
    (free : (kernel.procSet idx).status = .unused) : idx ≠ kernel.procCurrIdx := by
  rintro rfl
  have active := formed.active
  rw [Kernel.curr, free] at active
  cases active

/-- Steps keep the table well formed. -/
theorem Outcome.wellFormed {kernel after : Kernel} {label : Label} {events : List Event}
    (outcome : Outcome kernel label after events) (formed : WellFormed kernel)
    (spares : Spares kernel label) : WellFormed after := by
  cases outcome with
  | sendRefused long => exact formed
  | sendBlocked known busy switched =>
    exact switched.wellFormed (formed.placed_sendBlocked _ _)
  | sendDelivered awaits switched =>
    refine switched.wellFormed (formed.placed_sendDelivered (formed.pids _ ?_) _)
    rw [awaits.1]
    decide
  | recvBlocked named nobody switched =>
    exact switched.wellFormed (formed.placed_recvBlocked _)
  | recvTaken named offers matching switched =>
    exact switched.wellFormed (formed.placed_recvTaken _ offers)
  | yielded switched => exact switched.wellFormed (formed.pids.congr rfl)
  | timerIgnored low => exact formed
  | timerKilled high => exact formed
  | timerYielded high switched => exact switched.wellFormed formed.pids
  | @allocated idx free =>
    have other := formed.curr_ne free
    have own : ({ kernel.procSet idx with pid := idx2pid idx, status := .loading } :
      Process).pid = idx2pid idx := rfl
    obtain ⟨pids, curr, active, user⟩ := formed.setProc own other
    refine ⟨pids, curr, active, ?_⟩
    have same : (kernel.allocated idx).context kernel.procCurrIdx =
        kernel.context kernel.procCurrIdx := Function.update_of_ne (Ne.symm other) _ _
    exact same.trans formed.user
  | @madeReady idx known =>
    by_cases same : idx = kernel.procCurrIdx
    · -- The current process stays active when it is marked as ready.
      subst same
      refine ⟨formed.pids.setProc known, ?_, ?_, formed.user⟩
      · simpa [Kernel.currPid, Kernel.curr, Kernel.setStatus] using known
      · simp [Kernel.curr, Kernel.setStatus, Status.active]
    · exact formed.setProc known same
  | freed known =>
    refine formed.setProc known ?_
    rintro rfl
    exact spares.1 formed.curr.symm
  | freedAll =>
    have low : kernel.currPid < gpidUserStart := spares.2 rfl
    have same : kernel.killedAll.curr = kernel.curr :=
      if_neg fun high => Int.not_lt.mpr high.1 low
    refine ⟨fun i live => ?_, ?_, ?_, formed.user⟩
    · simp only [Kernel.killedAll] at live ⊢
      split
      · rename_i high
        exact formed.pids i high.2
      · rename_i low
        rw [if_neg low] at live
        exact formed.pids i live
    · rw [Kernel.currPid, same]
      exact formed.curr
    · rw [same]
      exact formed.active

end Egos.Grass
