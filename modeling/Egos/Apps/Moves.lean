import Egos.Apps.System

/-! Everything that a step of the whole machine can do. -/

namespace Egos.Apps

open Egos.Grass

namespace System

variable {system final : System} {act : Act} {shown : List Exchange}

/-- A step is the end of a program, or a step of the kernel that the programs then observe. -/
theorem step_cases (formed : WellFormed system.kernel)
    (stepped : system.step act = .ok (final, shown)) :
    (act = .exit ∧ shown = [] ∧ final =
      { system with thread := Function.update system.thread system.curr (system.issue act) }) ∨
    ∃ label after events, system.label act = some label ∧
      Outcome system.kernel label after events ∧
      final = ((system.issued act label after).observeAll events).1 ∧
      shown = system.announces act ++ ((system.issued act label after).observeAll events).2 := by
  -- A program that ends makes no call; any other act is a call of the kernel or none.
  by_cases ends : act = .exit
  · subst ends
    simp only [step, pure_eq_ok, Prod.mk.injEq] at stepped
    exact Or.inl ⟨rfl, stepped.2.symm, stepped.1.symm⟩
  · refine Or.inr ?_
    cases named : system.label act with
    | none =>
      have halted : system.step act = throw "the program has no such call to make" := by
        cases act with
        | exit => exact absurd rfl ends
        | _ => simp only [step, named]
      rw [halted] at stepped
      exact absurd stepped throw_ne_ok
    | some label =>
      have moved : system.step act = (do
          let result ← Grass.step system.kernel label
          let seen := (system.issued act label result.1).observeAll result.2
          return (seen.1, system.announces act ++ seen.2)) := by
        cases act with
        | exit => exact absurd rfl ends
        | _ => simp only [step, named]
      simp only [moved, bind_eq_ok, pure_eq_ok] at stepped
      obtain ⟨⟨after, events⟩, kernelStep, result⟩ := stepped
      obtain ⟨rfl, rfl⟩ := Prod.mk.inj result
      exact ⟨label, after, events, rfl, step_outcome formed kernelStep, rfl, rfl⟩

/-- Without a new process, issuing a call changes only what belongs to the current one. -/
theorem issued_eq {label : Label} {after : Kernel}
    (nobody : ∀ idx, system.status idx = .unused → (after.procSet idx).status = .unused) :
    system.issued act label after =
      { kernel := after
        thread := Function.update system.thread system.curr (system.issue act)
        birth := system.birth
        mail := (system.issued act label after).mail
        aim := Function.update system.aim system.curr (system.aimOf act) } := by
  have none : ∀ idx, ¬ (system.status idx = .unused ∧ (after.procSet idx).status ≠ .unused) :=
    fun idx born => born.2 (nobody idx born.1)
  simp only [issued, none, if_false]
  congr 1
  funext idx
  simp only [Function.update_apply]

/-- A switch after the call leaves the programs as the call left them. -/
theorem issued_switched {label : Label} {middle after : Kernel} {events : List Event}
    (switched : Switched middle after events) :
    system.issued act label after = { system.issued act label middle with kernel := after } := by
  have unused : ∀ idx, ((after.procSet idx).status = .unused ↔
      (middle.procSet idx).status = .unused) := fun idx => switched.idle_iff idx rfl
  have waiting : ((after.procSet system.curr).status = .waitToRecv ↔
      (middle.procSet system.curr).status = .waitToRecv) := switched.idle_iff _ rfl
  have copied : system.copiedTo after label = system.copiedTo middle label := by
    cases label <;> simp only [copiedTo, waiting]
  simp only [issued, ne_eq, unused, copied, switched.page]

/-- The part of a program that the return of its receive changes. -/
def resumed (system : System) (after : Kernel) (events : List Event) : System :=
  (({ system with kernel := after } : System).observeAll events).1

/-- The sends that the kernel shows mean nothing new to the programs. -/
theorem observeAll_sent (process : Int) (message : SysMsg) (events : List Event) :
    system.observeAll (.sent process message :: events) = system.observeAll events := by
  simp [observeAll, observe]

/-- Across a switch, only the program of the process switched to may change. -/
theorem resumed_fields {after : Kernel} {events : List Event}
    (switched : Switched system.kernel after events) :
    (system.resumed after events).kernel = after ∧
    (system.resumed after events).birth = system.birth ∧
    (system.resumed after events).mail = system.mail ∧
    (system.resumed after events).aim = system.aim ∧
    (∀ idx, idx ≠ after.procCurrIdx →
      (system.resumed after events).thread idx = system.thread idx) ∧
    ((system.resumed after events).thread after.procCurrIdx =
          system.thread after.procCurrIdx ∧
        (({ system with kernel := after } : System).observeAll events).2 = [] ∨
      (system.resumed after events).thread after.procCurrIdx =
          system.deliver after.procCurrIdx (system.kernel.page after.procCurrIdx).msg ∧
        (({ system with kernel := after } : System).observeAll events).2 =
          system.shows after.procCurrIdx (system.kernel.page after.procCurrIdx).msg) := by
  -- The only event of a switch is the return of a receive.
  have shown := switched.events
  split at shown
  · subst shown
    refine ⟨rfl, rfl, rfl, rfl, fun idx other => Function.update_of_ne other _ _, Or.inr ⟨?_, ?_⟩⟩
    · simp only [resumed, observeAll, observe, Function.update_self]
      rfl
    · simp only [observeAll, observe, List.append_nil]
      rfl
  · subst shown
    exact ⟨rfl, rfl, rfl, rfl, fun _ _ => rfl, Or.inl ⟨rfl, rfl⟩⟩

/-- Blocked senders have put their own pids into their messages. -/
def Stamped (system : System) : Prop :=
  ∀ idx, system.status idx = .waitToSend → (system.kernel.page idx).msg.sender = idx2pid idx

/-- The machine once the current program has blocked on a send. -/
def sendBlocked (system : System) (act : Act) (idx : Slot) (msg : List UInt8) : System :=
  { system with
    kernel := system.kernel.sendBlocked (idx2pid idx) msg
    thread := Function.update system.thread system.curr (system.issue act)
    aim := Function.update system.aim system.curr (system.aimOf act) }

/-- The machine once the current program has delivered a message to a waiting one. -/
def sendDelivered (system : System) (act : Act) (idx : Slot) (msg : List UInt8) : System :=
  { system with
    kernel := system.kernel.sendDelivered idx msg
    thread := Function.update system.thread system.curr (system.issue act)
    mail := Function.update system.mail idx (system.birth system.curr)
    aim := Function.update system.aim system.curr (system.aimOf act) }

/-- The machine once the current program has blocked on a receive. -/
def recvBlocked (system : System) (act : Act) (expected : Int) : System :=
  { system with
    kernel := system.kernel.recvBlocked expected
    thread := Function.update system.thread system.curr (system.issue act) }

/-- The machine once the current program has taken the message of a blocked one. -/
def recvTaken (system : System) (act : Act) (expected : Int) (idx : Slot) : System :=
  { system with
    kernel := system.kernel.recvTaken expected idx
    thread := Function.update system.thread system.curr (system.issue act)
    mail := Function.update system.mail system.curr (system.birth idx) }

/-- The machine once a slot has been allocated. -/
def allocated (system : System) (idx : Slot) : System :=
  { system with
    kernel := system.kernel.allocated idx
    thread := Function.update system.thread idx .fresh
    birth := Function.update system.birth idx (system.birth idx + 1) }

/-- Everything that the program of the current process can do before anybody is resumed. -/
inductive Move (system : System) : Act → System → Prop
  | ended : Move system .exit
      { system with thread := Function.update system.thread system.curr (system.issue .exit) }
  | sendBlocked {act : Act} {idx : Slot} {msg : List UInt8}
      (calls : system.label act = some (.send (idx2pid idx) msg))
      (known : (system.kernel.procSet idx).pid = idx2pid idx)
      (busy : ¬ system.kernel.awaits idx system.kernel.currPid) :
      Move system act (system.sendBlocked act idx msg)
  | sendDelivered {act : Act} {idx : Slot} {msg : List UInt8}
      (calls : system.label act = some (.send (idx2pid idx) msg))
      (awaits : system.kernel.awaits idx system.kernel.currPid) :
      Move system act (system.sendDelivered act idx msg)
  | recvBlocked {act : Act} {sender : Int}
      (calls : system.label act = some (.recv sender))
      (nobody : ∀ i, system.kernel.offers i system.kernel.currPid →
        max sender 0 ≠ 0 ∧ max sender 0 ≠ idx2pid i) :
      Move system act (system.recvBlocked act (max sender 0))
  | recvTaken {act : Act} {sender : Int} {idx : Slot}
      (calls : system.label act = some (.recv sender))
      (offers : system.kernel.offers idx system.kernel.currPid)
      (named : max sender 0 = 0 ∨ max sender 0 = idx2pid idx) :
      Move system act (system.recvTaken act (max sender 0) idx)
  | yielded : Move system .yield { system with
      kernel := system.kernel.issued .user (system.kernel.page system.curr).msg }
  | interrupted {ttyIntr : Bool} : Move system (.timer ttyIntr) system
  | killed (high : system.kernel.currPid ≥ gpidUserStart) : Move system (.timer true)
      { system with thread :=
        Function.update system.thread system.curr ⟨system.currThread.hold, .leaving⟩ }
  | allocated {idx : Slot} (free : system.status idx = .unused) :
      Move system .alloc (system.allocated idx)
  | madeReady {idx : Slot} (known : (system.kernel.procSet idx).pid = idx2pid idx) :
      Move system (.setReady (idx2pid idx))
        { system with kernel := system.kernel.setStatus idx .ready }
  | freed {idx : Slot} (known : (system.kernel.procSet idx).pid = idx2pid idx) :
      Move system (.free (idx2pid idx))
        { system with kernel := system.kernel.setStatus idx .unused }
  | freedAll : Move system (.free (-1)) { system with kernel := system.kernel.killedAll }

section Issued

variable {idx : Slot} {msg : List UInt8} {label : Label}

/-- Acts that issue no system call leave the program where it was. -/
theorem issued_unsaid (after : Kernel) (keeps : system.issue act = system.currThread)
    (aims : system.aimOf act = system.aim system.curr)
    (copied : system.copiedTo after label = none)
    (nobody : ∀ idx, system.status idx = .unused → (after.procSet idx).status = .unused) :
    system.issued act label after = { system with kernel := after } := by
  rw [issued_eq nobody, keeps, aims, Function.update_eq_self, Function.update_eq_self]
  simp only [issued, copied]

/-- A slot that changes its entry but stays in use leaves all unused slots unused. -/
theorem unused_setProc {kernel : Kernel} {process : Process} {other : Slot}
    (live : (kernel.procSet idx).status ≠ .unused)
    (free : (kernel.procSet other).status = .unused) :
    ((kernel.setProc idx process).procSet other).status = .unused := by
  have different : other ≠ idx := by
    intro same
    subst same
    exact live free
  rw [Kernel.setProc_procSet, Function.update_of_ne different]
  exact free

/-- The current process is not in an unused slot. -/
theorem curr_used (formed : WellFormed system.kernel) :
    (system.kernel.procSet system.curr).status ≠ .unused :=
  fun free => formed.curr_ne free rfl

/-- A send that blocks changes only what belongs to the sender. -/
theorem issued_sendBlocked (formed : WellFormed system.kernel)
    (busy : ¬ system.kernel.awaits idx system.kernel.currPid) :
    system.issued act (.send (idx2pid idx) msg) (system.kernel.sendBlocked (idx2pid idx) msg) =
      system.sendBlocked act idx msg := by
  have copied : system.copiedTo (system.kernel.sendBlocked (idx2pid idx) msg)
      (.send (idx2pid idx) msg) = none := by
    simp only [copiedTo, pid2idx_idx2pid]
    exact if_neg busy
  have nobody : ∀ other, system.status other = .unused →
      ((system.kernel.sendBlocked (idx2pid idx) msg).procSet other).status = .unused :=
    fun other free => unused_setProc (curr_used formed) free
  rw [issued_eq nobody]
  simp only [issued, copied]
  rfl

/-- A send that delivers notes at the receiver which process the message is from. -/
theorem issued_sendDelivered (formed : WellFormed system.kernel)
    (awaits : system.kernel.awaits idx system.kernel.currPid) :
    system.issued act (.send (idx2pid idx) msg) (system.kernel.sendDelivered idx msg) =
      system.sendDelivered act idx msg := by
  -- The receiver waits, so it is in use, and its page now carries the sender.
  have copied : system.copiedTo (system.kernel.sendDelivered idx msg)
      (.send (idx2pid idx) msg) = some idx := by
    simp only [copiedTo, pid2idx_idx2pid]
    exact if_pos awaits
  have live : (system.kernel.procSet idx).status ≠ .unused := by
    rw [awaits.1]
    decide
  have sender : ((system.kernel.sendDelivered idx msg).page idx).msg.sender =
      idx2pid system.curr := by
    simp [Kernel.sendDelivered, Kernel.setStatus, Kernel.setMsg, Kernel.outgoing, formed.curr]
  have nobody : ∀ other, system.status other = .unused →
      ((system.kernel.sendDelivered idx msg).procSet other).status = .unused :=
    fun other free => unused_setProc live free
  rw [issued_eq nobody]
  simp only [issued, copied, sender, birthOf, pid2idx_idx2pid]
  rfl

/-- A receive that blocks changes only what belongs to the receiver. -/
theorem issued_recvBlocked (formed : WellFormed system.kernel) {sender expected : Int}
    (aims : system.aimOf act = system.aim system.curr) :
    system.issued act (.recv sender) (system.kernel.recvBlocked expected) =
      system.recvBlocked act expected := by
  have copied : system.copiedTo (system.kernel.recvBlocked expected) (.recv sender) = none := by
    simp only [copiedTo]
    refine if_pos ?_
    simp [Kernel.recvBlocked, Kernel.setStatus]
  have live : ((system.kernel.recvIssued expected).procSet system.curr).status ≠ .unused := by
    simpa [Kernel.recvIssued, Kernel.curr] using curr_used formed
  have nobody : ∀ other, system.status other = .unused →
      ((system.kernel.recvBlocked expected).procSet other).status = .unused :=
    fun other free => unused_setProc live (unused_setProc (curr_used formed) free)
  rw [issued_eq nobody, aims, Function.update_eq_self]
  simp only [issued, copied]
  rfl

/-- A receive that takes a message notes which process the message is from. -/
theorem issued_recvTaken (formed : WellFormed system.kernel) (stamped : system.Stamped)
    {sender expected : Int} (aims : system.aimOf act = system.aim system.curr)
    (offers : system.kernel.offers idx system.kernel.currPid) :
    system.issued act (.recv sender) (system.kernel.recvTaken expected idx) =
      system.recvTaken act expected idx := by
  have waits : (system.kernel.procSet idx).status = .waitToSend := (of_decide_eq_true offers).1
  have other : idx ≠ system.curr := formed.offers_ne offers
  have copied : system.copiedTo (system.kernel.recvTaken expected idx) (.recv sender) =
      some system.curr := by
    simp only [copiedTo]
    refine if_neg ?_
    -- The receiver keeps the active status with which it made the call.
    have same : ((system.kernel.recvTaken expected idx).procSet system.curr).status =
        system.kernel.curr.status := by
      simp [Kernel.recvTaken, Kernel.setStatus, Kernel.setMsg, Kernel.recvIssued,
        Function.update_of_ne (Ne.symm other)]
    rw [same]
    exact formed.not_waitToRecv
  have page : ((system.kernel.recvTaken expected idx).page system.curr).msg.sender =
      idx2pid idx := by
    simpa [Kernel.recvTaken, Kernel.setStatus, Kernel.setMsg] using stamped idx waits
  have live : ((system.kernel.recvIssued expected).procSet idx).status ≠ .unused := by
    have entry : (system.kernel.recvIssued expected).procSet idx = system.kernel.procSet idx :=
      Function.update_of_ne other _ _
    rw [entry, waits]
    decide
  have nobody : ∀ other, system.status other = .unused →
      ((system.kernel.recvTaken expected idx).procSet other).status = .unused :=
    fun other free => unused_setProc live (unused_setProc (curr_used formed) free)
  rw [issued_eq nobody, aims, Function.update_eq_self]
  simp only [issued, copied, page, birthOf, pid2idx_idx2pid]
  rfl

/-- A slot that is allocated starts a new life with a new program. -/
theorem issued_allocated (formed : WellFormed system.kernel) (free : system.status idx = .unused) :
    system.issued .alloc .alloc (system.kernel.allocated idx) = system.allocated idx := by
  -- Only the slot that is allocated differs.
  have other : idx ≠ system.curr := formed.curr_ne free
  have born : ∀ i, (system.status i = .unused ∧
      ((system.kernel.allocated idx).procSet i).status ≠ .unused) ↔ i = idx := by
    intro i
    by_cases same : i = idx
    · subst same
      simp [Kernel.allocated, free]
    · simp [Kernel.allocated, same]
  simp only [issued, born, copiedTo, aimOf, issue, Function.update_eq_self, allocated]
  congr 1
  · funext i
    by_cases same : i = idx
    · subst same
      simp
    · by_cases current : i = system.curr
      · subst current
        simp [same]
      · simp [same, current]
  · funext i
    by_cases same : i = idx
    · subst same
      simp
    · simp [same]

end Issued

/-- What the call behind an act says about the act. -/
def Calls (system : System) (act : Act) : Label → Prop
  | .send _ msg => msg.length > syscallMsgLen → ¬ system.Allowed act
  | .recv _ => system.aimOf act = system.aim system.curr
  | .yield => act = .yield
  | .timer ttyIntr => act = .timer ttyIntr
  | .alloc => act = .alloc
  | .setReady pid => act = .setReady pid
  | .free pid => act = .free pid

/-- Only the acts that send or receive share their calls with others. -/
theorem calls_of_label {label : Label} (calls : system.label act = some label) :
    system.Calls act label := by
  -- Each act fixes its label, so that the label gives back all that the calls depend on.
  cases act with
  | query server msg =>
    obtain rfl := Option.some.inj calls
    intro long allowed
    exact Nat.not_lt.mpr allowed.2.1 long
  | await =>
    simp only [System.label] at calls
    split at calls
    · obtain rfl := Option.some.inj calls
      rfl
    · cases calls
  | listen =>
    obtain rfl := Option.some.inj calls
    rfl
  | reply msg =>
    obtain ⟨accepted, -, rfl⟩ := Option.map_eq_some_iff.mp calls
    intro long allowed
    exact Nat.not_lt.mpr allowed.2.1 long
  | tell receiver msg =>
    obtain rfl := Option.some.inj calls
    intro long allowed
    exact Nat.not_lt.mpr allowed.1 long
  | heed sender =>
    obtain rfl := Option.some.inj calls
    rfl
  | exit => cases calls
  | _ =>
    obtain rfl := Option.some.inj calls
    rfl

/-- Freeing a slot makes no unused slot live. -/
theorem unused_killedAll {kernel : Kernel} {idx : Slot}
    (free : (kernel.procSet idx).status = .unused) :
    (kernel.killedAll.procSet idx).status = .unused := by
  simp only [Kernel.killedAll]
  split
  · rfl
  · exact free

/-- A step is a move of the current program, after which at most one process is resumed. -/
theorem step_moves (formed : WellFormed system.kernel) (stamped : system.Stamped)
    (allowed : system.Allowed act) (stepped : system.step act = .ok (final, shown)) :
    ∃ middle, Move system act middle ∧
      (final = middle ∧ shown = system.announces act ∨
        ∃ after events, Switched middle.kernel after events ∧
          final = middle.resumed after events ∧ shown = system.announces act ++
            (({ middle with kernel := after } : System).observeAll events).2) := by
  rcases step_cases formed stepped with
    ⟨rfl, rfl, rfl⟩ | ⟨label, after, events, calls, outcome, rfl, rfl⟩
  · exact ⟨_, .ended, Or.inl ⟨rfl, rfl⟩⟩
  · have act_of := calls_of_label calls
    cases outcome with
    | sendRefused long => exact absurd allowed (act_of long)
    | sendBlocked known busy switched =>
      refine ⟨_, .sendBlocked calls known busy, Or.inr ⟨_, _, switched, ?_⟩⟩
      rw [observeAll_sent, issued_switched switched, issued_sendBlocked formed busy]
      exact ⟨rfl, rfl⟩
    | sendDelivered awaits switched =>
      refine ⟨_, .sendDelivered calls awaits, Or.inr ⟨_, _, switched, ?_⟩⟩
      rw [observeAll_sent, issued_switched switched, issued_sendDelivered formed awaits]
      exact ⟨rfl, rfl⟩
    | recvBlocked named nobody switched =>
      subst named
      refine ⟨_, .recvBlocked calls nobody, Or.inr ⟨_, _, switched, ?_⟩⟩
      rw [issued_switched switched, issued_recvBlocked formed act_of]
      exact ⟨rfl, rfl⟩
    | recvTaken named offers matching switched =>
      subst named
      refine ⟨_, .recvTaken calls offers matching, Or.inr ⟨_, _, switched, ?_⟩⟩
      rw [issued_switched switched, issued_recvTaken formed stamped act_of offers]
      exact ⟨rfl, rfl⟩
    | yielded switched =>
      obtain rfl := act_of
      refine ⟨_, .yielded, Or.inr ⟨_, _, switched, ?_⟩⟩
      have nobody : ∀ idx, system.status idx = .unused → ((system.kernel.issued .user
          (system.kernel.page system.curr).msg).procSet idx).status = .unused :=
        fun idx free => free
      rw [issued_switched switched, issued_unsaid _ rfl rfl rfl nobody]
      exact ⟨rfl, rfl⟩
    | timerIgnored low =>
      obtain rfl := act_of
      refine ⟨_, .interrupted, Or.inl ?_⟩
      rw [issued_unsaid _ rfl rfl rfl fun idx free => free]
      exact ⟨rfl, rfl⟩
    | timerKilled high =>
      obtain rfl := act_of
      refine ⟨_, .killed high, Or.inl ?_⟩
      rw [issued_unsaid _ rfl rfl rfl fun idx free => free]
      exact ⟨rfl, rfl⟩
    | timerYielded high switched =>
      obtain rfl := act_of
      refine ⟨_, .interrupted, Or.inr ⟨_, _, switched, ?_⟩⟩
      rw [issued_switched switched, issued_unsaid _ rfl rfl rfl fun idx free => free]
      exact ⟨rfl, rfl⟩
    | allocated free =>
      obtain rfl := act_of
      refine ⟨_, .allocated free, Or.inl ?_⟩
      rw [issued_allocated formed free]
      exact ⟨rfl, rfl⟩
    | @madeReady idx known =>
      obtain rfl := act_of
      refine ⟨_, .madeReady known, Or.inl ?_⟩
      -- Only a process that has been loaded is made ready.
      have loading : (system.kernel.procSet idx).status = .loading := allowed.2 idx rfl
      have live : (system.kernel.procSet idx).status ≠ .unused := by
        rw [loading]
        decide
      have nobody : ∀ other, system.status other = .unused →
          ((system.kernel.setStatus idx .ready).procSet other).status = .unused :=
        fun other free => unused_setProc live free
      rw [issued_unsaid _ rfl rfl rfl nobody]
      exact ⟨rfl, List.append_nil _⟩
    | @freed idx known =>
      obtain rfl := act_of
      refine ⟨_, .freed known, Or.inl ?_⟩
      have nobody : ∀ other, system.status other = .unused →
          ((system.kernel.setStatus idx .unused).procSet other).status = .unused := by
        intro other free
        by_cases same : other = idx
        · subst same
          simp [Kernel.setStatus]
        · simpa [Kernel.setStatus, Function.update_of_ne same] using free
      rw [issued_unsaid _ rfl rfl rfl nobody]
      exact ⟨rfl, rfl⟩
    | freedAll =>
      obtain rfl := act_of
      refine ⟨_, .freedAll, Or.inl ?_⟩
      rw [issued_unsaid _ rfl rfl rfl fun idx free => unused_killedAll free]
      exact ⟨rfl, rfl⟩

/-- What the programs see of a step leaves the kernel alone. -/
theorem observeAll_kernel (events : List Event) :
    (system.observeAll events).1.kernel = system.kernel := by
  induction events generalizing system with
  | nil => rfl
  | cons event events ih =>
    simp only [observeAll, ih]
    cases event with
    | sent process message => rfl
    | received process expected message => rfl
    | killed process => rfl

/-- Steps of the whole machine keep the process table well formed. -/
theorem step_wellFormed (formed : WellFormed system.kernel) (allowed : system.Allowed act)
    (stepped : system.step act = .ok (final, shown)) : WellFormed final.kernel := by
  rcases step_cases formed stepped with
    ⟨rfl, rfl, rfl⟩ | ⟨label, after, events, calls, outcome, rfl, -⟩
  · exact formed
  · rw [observeAll_kernel]
    refine outcome.wellFormed formed ?_
    have act_of := calls_of_label calls
    cases label with
    | free pid =>
      -- Only the process server frees, and only user applications.
      obtain rfl := act_of
      obtain ⟨isProcess, target⟩ := allowed
      have isProcess : system.kernel.procCurrIdx = processSlot := isProcess
      have own : system.kernel.currPid = 1 := by
        rw [formed.curr, isProcess]
        rfl
      simp only [Grass.Spares, own, gpidUserStart] at target ⊢
      omega
    | _ => trivial

section Acts

variable {idx : Slot} {msg : List UInt8} {sender : Int}

/-- A send is a request of a client, the reply of a server or a message to a system process. -/
theorem send_acts (allowed : system.Allowed act)
    (calls : system.label act = some (.send (idx2pid idx) msg)) :
    (act = .query idx msg ∧ serves idx ∧ system.isQuiet) ∨
    (∃ accepted, act = .reply msg ∧ serves system.curr ∧ system.isQuiet ∧
      system.currThread.hold = some accepted ∧ accepted.client = idx2pid idx) ∨
    (act = .tell idx msg ∧ ¬ serves system.curr ∧ (idx = processSlot ∨ idx = shellSlot) ∧
      (system.isQuiet ∨ system.currThread.talk = .leaving)) := by
  -- The pid in the label is that of the slot that the act names.
  cases act with
  | query server request =>
    obtain ⟨named, rfl⟩ := Label.send.inj (Option.some.inj calls)
    rw [idx2pid_inj] at named
    subst named
    exact Or.inl ⟨rfl, allowed.2.2.1, allowed.1⟩
  | reply answer =>
    obtain ⟨accepted, held, label⟩ := Option.map_eq_some_iff.mp calls
    obtain ⟨named, rfl⟩ := Label.send.inj label
    exact Or.inr (Or.inl ⟨accepted, rfl, allowed.2.2.1, allowed.1, held, named⟩)
  | tell receiver message =>
    obtain ⟨named, rfl⟩ := Label.send.inj (Option.some.inj calls)
    rw [idx2pid_inj] at named
    subst named
    obtain ⟨-, client, target, talk⟩ := allowed
    exact Or.inr (Or.inr ⟨rfl, client, target, talk⟩)
  | await =>
    simp only [System.label] at calls
    split at calls <;> simp at calls
  | exit => cases calls
  | _ => simp [System.label] at calls

/-- A receive is that of a reply, of a request or of an announcement. -/
theorem recv_acts (allowed : system.Allowed act)
    (calls : system.label act = some (.recv sender)) :
    (∃ server request, act = .await ∧ sender = idx2pid server ∧
      system.currThread.talk = .asked server request) ∨
    (act = .listen ∧ sender = 0) ∨
    (act = .heed processSlot ∧ sender = idx2pid processSlot ∧ system.curr = shellSlot ∧
      system.isQuiet) := by
  -- Only three acts are receives: for each, the label is that of its receive.
  cases act with
  | await =>
    simp only [System.label] at calls
    split at calls
    · rename_i server request talk
      obtain rfl := Label.recv.inj (Option.some.inj calls)
      exact Or.inl ⟨server, request, rfl, rfl, talk⟩
    · cases calls
  | listen =>
    obtain rfl := Label.recv.inj (Option.some.inj calls)
    exact Or.inr (Or.inl ⟨rfl, rfl⟩)
  | heed other =>
    obtain rfl := Label.recv.inj (Option.some.inj calls)
    obtain ⟨shell, rfl, quiet⟩ := allowed
    exact Or.inr (Or.inr ⟨rfl, rfl, shell, quiet⟩)
  | reply answer =>
    obtain ⟨accepted, -, label⟩ := Option.map_eq_some_iff.mp calls
    cases label
  | exit => cases calls
  | _ => simp [System.label] at calls

end Acts

/-- The request that a server has taken and whose reply has not been taken yet. -/
def engaged (system : System) (idx : Slot) : Option Accepted :=
  match (system.thread idx).talk with
  -- The request has been copied into the page of a server that has yet to return.
  | .listening =>
    if (system.status idx).active then
      some ⟨(system.kernel.page idx).msg.sender, (system.kernel.page idx).msg.content,
        system.mail idx⟩
    else none
  -- The reply is still with a server that is blocked on sending it.
  | .replied => if system.status idx = .waitToSend then (system.thread idx).hold else none
  | .quiet | .asked _ _ | .waiting _ _ | .heeding _ => (system.thread idx).hold
  | .leaving => none

/-- A quiet program is engaged in the request that it holds. -/
theorem engaged_quiet {idx : Slot} (quiet : (system.thread idx).talk = .quiet) :
    system.engaged idx = (system.thread idx).hold := by
  simp [engaged, quiet]

/-- A switch takes no server's request away and gives it no other. -/
theorem engaged_resumed {after : Kernel} {events : List Event}
    (switched : Switched system.kernel after events) (idx : Slot) :
    (system.resumed after events).engaged idx = system.engaged idx := by
  obtain ⟨kernel, -, mail, -, others, current⟩ := resumed_fields switched
  have active : ((after.procSet idx).status.active = (system.status idx).active) := by
    rcases switched.status idx with same | ⟨first, second⟩
    · rw [same]
    · rw [first, second]
  have sending : ((after.procSet idx).status = .waitToSend ↔ system.status idx = .waitToSend) :=
    switched.idle_iff idx rfl
  have status : (system.resumed after events).status idx = (after.procSet idx).status := by
    rw [System.status, kernel]
  have same : (system.resumed after events).thread idx = system.thread idx →
      (system.resumed after events).engaged idx = system.engaged idx := by
    intro thread
    simp only [engaged, thread, kernel, status, active, sending, switched.page, mail]
  by_cases here : idx = after.procCurrIdx
  · subst here
    rcases current with ⟨unchanged, -⟩ | ⟨delivered, -⟩
    · exact same unchanged
    · -- A receive that returns moves the request from the page to the program.
      have chosen : (system.status after.procCurrIdx).active = true := switched.chosen
      cases talk : (system.thread after.procCurrIdx).talk with
      | listening => simp [engaged, delivered, deliver, talk, chosen]
      | waiting server request => simp [engaged, delivered, deliver, talk]
      | heeding sender => simp [engaged, delivered, deliver, talk]
      | quiet => exact same (by simp [delivered, deliver, talk])
      | asked server request => exact same (by simp [delivered, deliver, talk])
      | replied => exact same (by simp [delivered, deliver, talk])
      | leaving => exact same (by simp [delivered, deliver, talk])
  · exact same (others idx here)

section Fields

variable {idx : Slot} {msg : List UInt8} {expected : Int}

@[simp] theorem sendBlocked_status :
    (system.sendBlocked act idx msg).status system.curr = .waitToSend := by
  simp [System.status, System.sendBlocked, Kernel.sendBlocked]

@[simp] theorem sendBlocked_thread :
    (system.sendBlocked act idx msg).thread system.curr = system.issue act := by
  simp [System.sendBlocked]

@[simp] theorem sendBlocked_aim :
    (system.sendBlocked act idx msg).aim system.curr = system.aimOf act := by
  simp [System.sendBlocked]

@[simp] theorem sendBlocked_receiver :
    ((system.sendBlocked act idx msg).kernel.procSet system.curr).toReceiverPid = idx2pid idx := by
  simp [System.sendBlocked, Kernel.sendBlocked]

@[simp] theorem sendBlocked_msg :
    ((system.sendBlocked act idx msg).kernel.page system.curr).msg =
      system.kernel.outgoing (idx2pid idx) msg := by
  simp [System.sendBlocked, Kernel.sendBlocked, Kernel.issued]

@[simp] theorem sendDelivered_status_idx :
    (system.sendDelivered act idx msg).status idx = .runnable := by
  simp [System.status, System.sendDelivered, Kernel.sendDelivered, Kernel.setStatus]

@[simp] theorem sendDelivered_thread :
    (system.sendDelivered act idx msg).thread system.curr = system.issue act := by
  simp [System.sendDelivered]

@[simp] theorem sendDelivered_mail :
    (system.sendDelivered act idx msg).mail idx = system.birth system.curr := by
  simp [System.sendDelivered]

@[simp] theorem sendDelivered_msg :
    ((system.sendDelivered act idx msg).kernel.page idx).msg =
      system.kernel.outgoing (idx2pid idx) msg := by
  simp [System.sendDelivered, Kernel.sendDelivered, Kernel.setStatus, Kernel.setMsg]

/-- A sender that delivers its message goes on as it was. -/
theorem sendDelivered_status (apart : idx ≠ system.curr) :
    (system.sendDelivered act idx msg).status system.curr = system.status system.curr := by
  simp [System.status, System.sendDelivered, Kernel.sendDelivered, Kernel.setStatus,
    Kernel.setMsg, Kernel.issued, Function.update_of_ne (Ne.symm apart)]

/-- The program that gets a message has not returned yet. -/
theorem sendDelivered_thread_idx (apart : idx ≠ system.curr) :
    (system.sendDelivered act idx msg).thread idx = system.thread idx := by
  simp [System.sendDelivered, Function.update_of_ne apart]

@[simp] theorem recvBlocked_status :
    (system.recvBlocked act expected).status system.curr = .waitToRecv := by
  simp [System.status, System.recvBlocked, Kernel.recvBlocked, Kernel.setStatus]

@[simp] theorem recvBlocked_thread :
    (system.recvBlocked act expected).thread system.curr = system.issue act := by
  simp [System.recvBlocked]

@[simp] theorem recvBlocked_expected :
    ((system.recvBlocked act expected).kernel.procSet system.curr).fromSenderPid = expected := by
  simp [System.recvBlocked, Kernel.recvBlocked, Kernel.recvIssued, Kernel.setStatus]

@[simp] theorem recvTaken_status_idx :
    (system.recvTaken act expected idx).status idx = .runnable := by
  simp [System.status, System.recvTaken, Kernel.recvTaken, Kernel.setStatus]

@[simp] theorem recvTaken_thread :
    (system.recvTaken act expected idx).thread system.curr = system.issue act := by
  simp [System.recvTaken]

@[simp] theorem recvTaken_mail :
    (system.recvTaken act expected idx).mail system.curr = system.birth idx := by
  simp [System.recvTaken]

@[simp] theorem recvTaken_msg :
    ((system.recvTaken act expected idx).kernel.page system.curr).msg =
      (system.kernel.page idx).msg := by
  simp [System.recvTaken, Kernel.recvTaken, Kernel.setStatus, Kernel.setMsg]

/-- A receiver that takes a message goes on as it was. -/
theorem recvTaken_status (apart : idx ≠ system.curr) :
    (system.recvTaken act expected idx).status system.curr = system.status system.curr := by
  simp [System.status, System.recvTaken, Kernel.recvTaken, Kernel.recvIssued, Kernel.setStatus,
    Kernel.setMsg, Kernel.issued, Kernel.curr, Function.update_of_ne (Ne.symm apart)]

/-- The program whose message is taken has not returned yet. -/
theorem recvTaken_thread_idx (apart : idx ≠ system.curr) :
    (system.recvTaken act expected idx).thread idx = system.thread idx := by
  simp [System.recvTaken, Function.update_of_ne apart]

end Fields

section Untouched

variable {next : System} {idx : Slot} {msg : List UInt8} {expected : Int}

/-- Nothing has happened to what a process says and is told. -/
structure Untouched (system next : System) (idx : Slot) : Prop where
  status : next.status idx = system.status idx
  receiver : (next.kernel.procSet idx).toReceiverPid = (system.kernel.procSet idx).toReceiverPid
  expected : (next.kernel.procSet idx).fromSenderPid = (system.kernel.procSet idx).fromSenderPid
  msg : (next.kernel.page idx).msg = (system.kernel.page idx).msg
  thread : next.thread idx = system.thread idx
  mail : next.mail idx = system.mail idx
  aim : next.aim idx = system.aim idx

/-- An untouched process is engaged in what it was engaged in. -/
theorem Untouched.engaged (untouched : Untouched system next idx) :
    next.engaged idx = system.engaged idx := by
  -- What a server is engaged in depends on its own slot only.
  simp only [System.engaged, untouched.thread, untouched.status, untouched.msg, untouched.mail]

/-- A blocked send touches only the sender. -/
theorem untouched_sendBlocked {other : Slot} (different : other ≠ system.curr) :
    Untouched system (system.sendBlocked act idx msg) other := by
  -- Every update is at the slot of the current process.
  constructor <;>
    simp [System.status, System.sendBlocked, Kernel.sendBlocked, Kernel.issued,
      Function.update_of_ne different]

/-- A delivered send touches only the sender and the receiver. -/
theorem untouched_sendDelivered {other : Slot} (different : other ≠ system.curr)
    (apart : other ≠ idx) : Untouched system (system.sendDelivered act idx msg) other := by
  constructor <;>
    simp [System.status, System.sendDelivered, Kernel.sendDelivered, Kernel.issued, Kernel.setStatus,
      Kernel.setMsg, Function.update_of_ne different, Function.update_of_ne apart]

/-- A blocked receive touches only the receiver. -/
theorem untouched_recvBlocked {other : Slot} (different : other ≠ system.curr) :
    Untouched system (system.recvBlocked act expected) other := by
  constructor <;>
    simp [System.status, System.recvBlocked, Kernel.recvBlocked, Kernel.recvIssued, Kernel.issued,
      Kernel.setStatus, Function.update_of_ne different]

/-- Taking a message touches only the receiver and the sender. -/
theorem untouched_recvTaken {other : Slot} (different : other ≠ system.curr)
    (apart : other ≠ idx) : Untouched system (system.recvTaken act expected idx) other := by
  constructor <;>
    simp [System.status, System.recvTaken, Kernel.recvTaken, Kernel.recvIssued, Kernel.issued,
      Kernel.setStatus, Kernel.setMsg, Function.update_of_ne different,
      Function.update_of_ne apart]

/-- A yield leaves the message in the page of the process that yields. -/
theorem untouched_yielded (other : Slot) : Untouched system { system with
    kernel := system.kernel.issued .user (system.kernel.page system.curr).msg } other := by
  by_cases same : other = system.curr
  · subst same
    constructor <;> simp [System.status, Kernel.issued]
  · constructor <;> simp [System.status, Kernel.issued, Function.update_of_ne same]

/-- Allocating a slot touches nobody else. -/
theorem untouched_allocated {other : Slot} (different : other ≠ idx) :
    Untouched system (system.allocated idx) other := by
  constructor <;>
    simp [System.status, System.allocated, Kernel.allocated, Function.update_of_ne different]

/-- Changing the status of one process touches nobody else. -/
theorem untouched_setStatus {status : Status} {other : Slot} (different : other ≠ idx) :
    Untouched system { system with kernel := system.kernel.setStatus idx status } other := by
  constructor <;> simp [System.status, Kernel.setStatus, Function.update_of_ne different]

/-- A switch touches no process that waits. -/
theorem untouched_resumed {after : Kernel} {events : List Event}
    (switched : Switched system.kernel after events) {status : Status}
    (waits : (system.resumed after events).status idx = status) (idle : status.active = false) :
    Untouched system (system.resumed after events) idx := by
  obtain ⟨kernel, -, mail, aim, others, -⟩ := resumed_fields switched
  rw [System.status, kernel] at waits
  have waited : (system.kernel.procSet idx).status = status := (switched.idle_iff idx idle).mp waits
  -- A process that waits is not the one that is resumed.
  have different : idx ≠ after.procCurrIdx := switched.idle_ne (by rw [waited, idle])
  refine ⟨?_, ?_, ?_, ?_, others idx different, ?_, ?_⟩
  · rw [System.status, System.status, kernel, waits, waited]
  · rw [kernel, switched.toReceiver]
  · rw [kernel, switched.fromSender]
  · rw [kernel, switched.page]
  · rw [mail]
  · rw [aim]

end Untouched

end System

end Egos.Apps
