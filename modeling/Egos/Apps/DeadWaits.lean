import Egos.Apps.Standing

/-! When every blocked sender has a living receiver, and how a kill can leave one without. -/

namespace Egos.Apps

open Egos.Grass

namespace System

/-- A blocked sender's receiver is alive and still the process that the message was meant for. -/
def Faces (system : System) (idx : Slot) : Prop :=
  ∃ receiver, (system.kernel.procSet idx).toReceiverPid = idx2pid receiver ∧
    system.status receiver ≠ .unused ∧ system.birth receiver = system.aim idx

/-- A server keeps a request of a client that is alive and still the one that made it. -/
def Serves (system : System) (accepted : Accepted) : Prop :=
  ∃ client, accepted.client = idx2pid client ∧
    system.status client ≠ .unused ∧ system.birth client = accepted.life

/-- What a blocked sender has said, and to whom. -/
structure Sender (system : System) (idx : Slot) : Prop where
  talk : (system.thread idx).talk ≠ .listening
  -- Clients send to processes that never end, and servers to the clients they serve.
  target : (∃ receiver, permanent receiver ∧
      (system.kernel.procSet idx).toReceiverPid = idx2pid receiver ∧
      system.birth receiver = system.aim idx) ∨
    serves idx ∧ ∃ accepted, system.engaged idx = some accepted ∧
      (system.kernel.procSet idx).toReceiverPid = accepted.client ∧
      accepted.life = system.aim idx

/-- The receivers of all messages that are on their way or will be sent in reply are alive. -/
structure Living (system : System) : Prop where
  senders : ∀ idx, system.status idx = .waitToSend → system.Sender idx
  accepted : ∀ server accepted, serves server → system.engaged server = some accepted →
    system.Serves accepted

/-- A process that the others rely on: it never ends, or a server works for it. -/
def Needed (system : System) (idx : Slot) : Prop :=
  permanent idx ∨ ∃ server accepted, serves server ∧ system.engaged server = some accepted ∧
    accepted.client = idx2pid idx

variable {system next : System} {idx : Slot} {act : Act}

/-- Invariant senders face living receivers. -/
theorem Living.faces (living : system.Living) (standing : system.Standing)
    (waits : system.status idx = .waitToSend) :
    system.Faces idx := by
  -- Either the receiver never ends, or it is the client that the server works for.
  rcases (living.senders idx waits).target with
    ⟨receiver, stays, named, life⟩ | ⟨server, accepted, engaged, named, life⟩
  · exact ⟨receiver, named, (standing.permanents receiver stays).1, life⟩
  · obtain ⟨client, isClient, alive, same⟩ := living.accepted idx accepted server engaged
    exact ⟨client, named.trans isClient, alive, same.trans life⟩

/-- A step keeps the receivers alive if it keeps those alive that are needed. -/
theorem Living.step (living : system.Living)
    (permanents : ∀ idx, permanent idx → system.status idx ≠ .unused)
    (alive : ∀ idx, system.Needed idx → system.status idx ≠ .unused →
      next.status idx ≠ .unused ∧ next.birth idx = system.birth idx)
    (senders : ∀ idx, next.status idx = .waitToSend →
      Untouched system next idx ∨ next.Sender idx)
    (accepted : ∀ server accepted, serves server → next.engaged server = some accepted →
      system.engaged server = some accepted ∨ next.Serves accepted) : next.Living := by
  refine ⟨fun idx waits => ?_, fun server taken isServer engaged => ?_⟩
  · rcases senders idx waits with untouched | sender
    · -- The sender's receiver is needed, so it is still the same process.
      have before := living.senders idx (untouched.status ▸ waits)
      refine ⟨untouched.thread ▸ before.talk, ?_⟩
      rw [untouched.receiver, untouched.engaged, untouched.aim]
      rcases before.target with ⟨receiver, stays, named, life⟩ | reply
      · have used := permanents receiver stays
        have same := (alive receiver (Or.inl stays) used).2
        exact Or.inl ⟨receiver, stays, named, same.trans life⟩
      · exact Or.inr reply
    · exact sender
  · rcases accepted server taken isServer engaged with before | new
    · obtain ⟨client, isClient, used, life⟩ := living.accepted server taken isServer before
      have needed : system.Needed client := Or.inr ⟨server, taken, isServer, before, isClient⟩
      obtain ⟨still, same⟩ := alive client needed used
      exact ⟨client, isClient, still, same.trans life⟩
    · exact new

section Moves

variable {msg : List UInt8} {expected : Int}

/-- A step that leaves all slots but some alone keeps their processes as they are. -/
theorem alive_of_untouched (untouched : Untouched system next idx)
    (used : system.status idx ≠ .unused) (birth : next.birth = system.birth) :
    next.status idx ≠ .unused ∧ next.birth idx = system.birth idx :=
  ⟨untouched.status ▸ used, congrFun birth idx⟩

/-- A blocked send is addressed to a process that never ends or to a client. -/
theorem Living.sendBlocked (living : system.Living) (standing : system.Standing)
    (allowed : system.Allowed act) (calls : system.label act = some (.send (idx2pid idx) msg)) :
    (system.sendBlocked act idx msg).Living := by
  refine living.step standing.used (fun other _ used => ?_) (fun other waits => ?_)
    fun server taken isServer engaged => ?_
  · by_cases same : other = system.curr
    · subst same
      rw [sendBlocked_status]
      exact ⟨by decide, rfl⟩
    · exact alive_of_untouched (untouched_sendBlocked same) used rfl
  · by_cases same : other = system.curr
    · subst same
      refine Or.inr ⟨?_, ?_⟩
      · -- Only a receive makes a program listen.
        rw [sendBlocked_thread]
        rcases send_acts allowed calls with
          ⟨rfl, -, -⟩ | ⟨-, rfl, -⟩ | ⟨rfl, -, -, quiet | leaving⟩
        · simp [issue]
        · simp [issue]
        · simp [issue, quiet]
        · simp [issue, leaving]
      · rw [sendBlocked_receiver, sendBlocked_aim]
        rcases send_acts allowed calls with
          ⟨rfl, server, -⟩ | ⟨accepted, rfl, server, -, held, named⟩ | ⟨rfl, -, target, -⟩
        · exact Or.inl ⟨idx, permanent_of_serves server, rfl, rfl⟩
        · refine Or.inr ⟨server, accepted, ?_, named.symm, ?_⟩
          · simp [System.engaged, issue, held]
          · simp [aimOf, held]
        · have stays : permanent idx := by
            rcases target with rfl | rfl <;> rfl
          exact Or.inl ⟨idx, stays, rfl, rfl⟩
    · exact Or.inl (untouched_sendBlocked same)
  · refine Or.inl ?_
    by_cases same : server = system.curr
    · -- A server that sends still works for the same client.
      subst same
      rcases send_acts allowed calls with
        ⟨rfl, -, quiet⟩ | ⟨accepted, rfl, -, quiet, held, -⟩ | ⟨rfl, client, -⟩
      · rw [engaged_quiet quiet]
        simpa [System.engaged, issue] using engaged
      · rw [engaged_quiet quiet]
        simpa [System.engaged, issue] using engaged
      · exact absurd isServer client
    · rwa [(untouched_sendBlocked same).engaged] at engaged

/-- A delivered send makes the receiver, if it is a server, work for a living client. -/
theorem Living.sendDelivered (living : system.Living) (standing : system.Standing)
    (allowed : system.Allowed act) (calls : system.label act = some (.send (idx2pid idx) msg))
    (awaits : system.kernel.awaits idx system.kernel.currPid) :
    (system.sendDelivered act idx msg).Living := by
  have apart : idx ≠ system.curr := by
    intro same
    subst same
    exact standing.formed.not_waitToRecv awaits.1
  have sender : (system.sendDelivered act idx msg).status system.curr =
      system.status system.curr := sendDelivered_status apart
  have receiving : (system.sendDelivered act idx msg).thread idx = system.thread idx :=
    sendDelivered_thread_idx apart
  have message : ((system.sendDelivered act idx msg).kernel.page idx).msg.sender =
      idx2pid system.curr := by
    simp [Kernel.outgoing, standing.formed.curr]
  have used : system.status system.curr ≠ .unused := curr_used standing.formed
  refine living.step standing.used (fun other _ used => ?_) (fun other waits => ?_)
    fun server taken isServer engaged => ?_
  · refine ⟨?_, rfl⟩
    by_cases same : other = idx
    · subst same
      rw [sendDelivered_status_idx]
      decide
    · by_cases current : other = system.curr
      · subst current
        rwa [sender]
      · rwa [(untouched_sendDelivered current same).status]
  · by_cases same : other = idx
    · subst same
      rw [sendDelivered_status_idx] at waits
      cases waits
    · by_cases current : other = system.curr
      · subst current
        rw [sender] at waits
        exact absurd waits standing.formed.not_waitToSend
      · exact Or.inl (untouched_sendDelivered current same)
  · by_cases same : server = idx
    · subst same
      cases talk : (system.thread server).talk with
      | listening =>
        -- The server takes the request of the current process.
        refine Or.inr ⟨system.curr, ?_, ?_, ?_⟩
        · simp only [System.engaged, receiving, talk, sendDelivered_status_idx, Status.active, if_true,
            Option.some.injEq] at engaged
          rw [← engaged]
          exact message
        · rwa [sender]
        · simp only [System.engaged, receiving, talk, sendDelivered_status_idx, Status.active, if_true,
            Option.some.injEq] at engaged
          rw [← engaged]
          simp only [sendDelivered_mail]
          rfl
      | replied => simp [System.engaged, receiving, talk] at engaged
      | leaving => simp [System.engaged, receiving, talk] at engaged
      | quiet => exact Or.inl (by simpa [System.engaged, receiving, talk] using engaged)
      | asked other request =>
        exact Or.inl (by simpa [System.engaged, receiving, talk] using engaged)
      | waiting other request =>
        exact Or.inl (by simpa [System.engaged, receiving, talk] using engaged)
      | heeding other => exact Or.inl (by simpa [System.engaged, receiving, talk] using engaged)
    · refine Or.inl ?_
      by_cases current : server = system.curr
      · subst current
        rcases send_acts allowed calls with
          ⟨rfl, -, quiet⟩ | ⟨accepted, rfl, -, quiet, held, -⟩ | ⟨rfl, client, -⟩
        · rw [engaged_quiet quiet]
          simpa [System.engaged, issue] using engaged
        · -- The reply has been taken, so the server is free again.
          have waits : system.status system.curr ≠ .waitToSend := standing.formed.not_waitToSend
          simp [System.engaged, issue, sender, waits] at engaged
        · exact absurd isServer client
      · rwa [(untouched_sendDelivered current same).engaged] at engaged

/-- A blocked receive blocks nobody's message. -/
theorem Living.recvBlocked (living : system.Living) (standing : system.Standing)
    {sender : Int} (allowed : system.Allowed act) (calls : system.label act = some (.recv sender)) :
    (system.recvBlocked act expected).Living := by
  refine living.step standing.used (fun other _ used => ?_) (fun other waits => ?_)
    fun server taken isServer engaged => ?_
  · by_cases same : other = system.curr
    · subst same
      rw [recvBlocked_status]
      exact ⟨by decide, rfl⟩
    · exact alive_of_untouched (untouched_recvBlocked same) used rfl
  · by_cases same : other = system.curr
    · subst same
      rw [recvBlocked_status] at waits
      cases waits
    · exact Or.inl (untouched_recvBlocked same)
  · refine Or.inl ?_
    by_cases same : server = system.curr
    · subst same
      rcases recv_acts allowed calls with
        ⟨other, request, rfl, -, talk⟩ | ⟨rfl, -⟩ | ⟨-, -, shell, -⟩
      · simpa [System.engaged, issue, talk] using engaged
      · -- A server that waits for its next request works for nobody.
        simp [System.engaged, issue, Status.active] at engaged
      · rw [shell] at isServer
        cases isServer
    · rwa [(untouched_recvBlocked same).engaged] at engaged

/-- Taking a message makes the receiver, if it is a server, work for a living client. -/
theorem Living.recvTaken (living : system.Living) (standing : system.Standing)
    {sender : Int} (allowed : system.Allowed act)
    (calls : system.label act = some (.recv sender))
    (offers : system.kernel.offers idx system.kernel.currPid) :
    (system.recvTaken act expected idx).Living := by
  have waited : system.status idx = .waitToSend := (of_decide_eq_true offers).1
  have apart : idx ≠ system.curr := standing.formed.offers_ne offers
  have receiver : (system.recvTaken act expected idx).status system.curr =
      system.status system.curr := recvTaken_status apart
  have sending : (system.recvTaken act expected idx).thread idx = system.thread idx :=
    recvTaken_thread_idx apart
  have message : ((system.recvTaken act expected idx).kernel.page system.curr).msg.sender =
      idx2pid idx := by
    simpa using standing.stamped idx waited
  refine living.step standing.used (fun other _ used => ?_) (fun other waits => ?_)
    fun server taken isServer engaged => ?_
  · refine ⟨?_, rfl⟩
    by_cases same : other = idx
    · subst same
      rw [recvTaken_status_idx]
      decide
    · by_cases current : other = system.curr
      · subst current
        rwa [receiver]
      · rwa [(untouched_recvTaken current same).status]
  · by_cases same : other = idx
    · subst same
      rw [recvTaken_status_idx] at waits
      cases waits
    · by_cases current : other = system.curr
      · subst current
        rw [receiver] at waits
        exact absurd waits standing.formed.not_waitToSend
      · exact Or.inl (untouched_recvTaken current same)
  · by_cases current : server = system.curr
    · subst current
      rcases recv_acts allowed calls with
        ⟨other, request, rfl, -, talk⟩ | ⟨rfl, -⟩ | ⟨-, -, shell, -⟩
      · exact Or.inl (by simpa [System.engaged, issue, talk] using engaged)
      · -- The server takes the request of the process that was blocked on it.
        have active : (system.status system.curr).active = true := standing.formed.active
        simp only [System.engaged, recvTaken_thread, issue, receiver, active, if_true,
          Option.some.injEq] at engaged
        rw [← engaged]
        refine Or.inr ⟨idx, message, ?_, ?_⟩
        · rw [recvTaken_status_idx]
          decide
        · simp only [recvTaken_mail]
          rfl
      · rw [shell] at isServer
        cases isServer
    · by_cases same : server = idx
      · subst same
        have talking := (living.senders server waited).talk
        cases talk : (system.thread server).talk with
        | listening => exact absurd talk talking
        | replied => simp [System.engaged, sending, talk] at engaged
        | leaving => simp [System.engaged, sending, talk] at engaged
        | quiet => exact Or.inl (by simpa [System.engaged, sending, talk] using engaged)
        | asked other request =>
          exact Or.inl (by simpa [System.engaged, sending, talk] using engaged)
        | waiting other request =>
          exact Or.inl (by simpa [System.engaged, sending, talk] using engaged)
        | heeding other => exact Or.inl (by simpa [System.engaged, sending, talk] using engaged)
      · exact Or.inl (by rwa [(untouched_recvTaken current same).engaged] at engaged)

/-- What a program does with itself concerns nobody if it is neither blocked nor a server. -/
theorem Living.rethread (living : system.Living) (standing : system.Standing)
    (mortal : ¬ permanent system.curr) (thread : Thread) :
    ({ system with thread := Function.update system.thread system.curr thread } :
      System).Living := by
  -- All other processes are untouched, and the current one is neither blocked nor a server.
  have untouched : ∀ other, other ≠ system.curr → Untouched system
      { system with thread := Function.update system.thread system.curr thread } other :=
    fun other different => ⟨rfl, rfl, rfl, rfl, Function.update_of_ne different _ _, rfl, rfl⟩
  refine living.step standing.used (fun _ _ used => ⟨used, rfl⟩) (fun other waits => ?_)
    fun server taken isServer engaged => ?_
  · refine Or.inl (untouched other ?_)
    intro same
    subst same
    exact standing.formed.not_waitToSend waits
  · refine Or.inl ?_
    have different : server ≠ system.curr := by
      intro same
      subst same
      exact mortal (permanent_of_serves isServer)
    rwa [(untouched server different).engaged] at engaged

/-- A change of the table that touches one mortal process and blocks it on no send. -/
theorem Living.retable (living : system.Living) (standing : system.Standing)
    (mortal : ¬ permanent idx)
    (needless : ∀ other, system.Needed other → system.status other ≠ .unused →
      other ≠ idx ∨ next.status idx ≠ .unused ∧ next.birth idx = system.birth idx)
    (birth : ∀ other, other ≠ idx → next.birth other = system.birth other)
    (waits : next.status idx ≠ .waitToSend)
    (untouched : ∀ other, other ≠ idx → Untouched system next other) : next.Living := by
  refine living.step standing.used (fun other needed used => ?_) (fun other blocked => ?_)
    fun server taken isServer engaged => ?_
  · by_cases same : other = idx
    · subst same
      exact (needless other needed used).resolve_left fun different => different rfl
    · exact ⟨(untouched other same).status ▸ used, birth other same⟩
  · have different : other ≠ idx := fun same => waits (same ▸ blocked)
    exact Or.inl (untouched other different)
  · have different : server ≠ idx := fun same => mortal (same ▸ permanent_of_serves isServer)
    exact Or.inl (by rwa [(untouched server different).engaged] at engaged)

/-- A slot that is allocated was nobody's receiver. -/
theorem Living.allocated (living : system.Living) (standing : system.Standing)
    (free : system.status idx = .unused) :
    (system.allocated idx).Living := by
  have mortal : ¬ permanent idx := fun stays => (standing.permanents idx stays).1 free
  refine living.retable standing mortal (fun other _ used => Or.inl ?_)
    (fun other different => ?_) ?_
    fun other different => untouched_allocated different
  · intro same
    subst same
    exact used free
  · simp [System.allocated, Function.update_of_ne different]
  · simp [System.status, System.allocated, Kernel.allocated]

/-- A process that starts to run was nobody's sender. -/
theorem Living.madeReady (living : system.Living) (standing : system.Standing)
    (loading : system.status idx = .loading) :
    ({ system with kernel := system.kernel.setStatus idx .ready } : System).Living := by
  have mortal : ¬ permanent idx := fun stays => (standing.permanents idx stays).2 loading
  refine living.retable standing mortal (fun other _ used => Or.inr ?_) (fun _ _ => rfl) ?_
    fun other different => untouched_setStatus different
  · simp [System.status, Kernel.setStatus]
  · simp [System.status, Kernel.setStatus]

/-- Freeing a process that nobody needs leaves no sender without its receiver. -/
theorem Living.freed (living : system.Living) (standing : system.Standing)
    (needless : ¬ system.Needed idx) :
    ({ system with kernel := system.kernel.setStatus idx .unused } : System).Living := by
  have mortal : ¬ permanent idx := fun stays => needless (Or.inl stays)
  refine living.retable standing mortal (fun other needed _ => Or.inl ?_) (fun _ _ => rfl) ?_
    fun other different => untouched_setStatus different
  · intro same
    subst same
    exact needless needed
  · simp [System.status, Kernel.setStatus]

/-- Freeing all user applications leaves no sender without its receiver if nobody needs them. -/
theorem Living.freedAll (living : system.Living) (standing : system.Standing)
    (needless : ∀ idx, system.Needed idx → permanent idx) :
    ({ system with kernel := system.kernel.killedAll } : System).Living := by
  refine living.step standing.used (fun other needed used => ?_) (fun other waits => ?_)
    fun server taken isServer engaged => ?_
  · have same := killedAll_permanent standing.formed.pids (needless other needed)
    exact ⟨(untouched_killedAll same).status ▸ used, rfl⟩
  · -- A process that waits has not been freed.
    refine Or.inl (untouched_killedAll (killedAll_used ?_))
    intro free
    have waits : (system.kernel.killedAll.procSet other).status = .waitToSend := waits
    rw [free] at waits
    cases waits
  · have same := killedAll_permanent standing.formed.pids (permanent_of_serves isServer)
    exact Or.inl (by rwa [(untouched_killedAll same).engaged] at engaged)

end Moves

/-- No server works for a process that a step frees. -/
def Spares (system : System) : Act → Prop
  | .free pid => ∀ server, serves server → ∀ accepted ∈ system.engaged server,
      accepted.client ≠ pid ∧ (pid = -1 → accepted.client < gpidUserStart)
  | _ => True

/-- Whether a step frees a process that a server works for can be decided. -/
instance (system : System) : (act : Act) → Decidable (system.Spares act)
  | .free _ => by unfold Spares; infer_instance
  | .query _ _ | .await | .listen | .reply _ | .tell _ _ | .heed _ | .exit | .yield | .timer _
  | .alloc | .setReady _ => isTrue trivial

/-- Moves that spare the clients of servers keep all receivers alive. -/
theorem Move.living {middle : System} (move : Move system act middle) (living : system.Living)
    (standing : system.Standing) (allowed : system.Allowed act)
    (spares : system.Spares act) : middle.Living := by
  cases move with
  | ended => exact living.rethread standing allowed.1 _
  | sendBlocked calls known busy => exact living.sendBlocked standing allowed calls
  | sendDelivered calls awaits => exact living.sendDelivered standing allowed calls awaits
  | recvBlocked calls nobody => exact living.recvBlocked standing allowed calls
  | recvTaken calls offers named => exact living.recvTaken standing allowed calls offers
  | yielded =>
    refine living.step standing.used (fun _ _ used => ⟨used, rfl⟩)
      (fun other _ => Or.inl (untouched_yielded other)) fun server _ _ engaged => Or.inl ?_
    rwa [(untouched_yielded server).engaged] at engaged
  | interrupted => exact living
  | killed high =>
    refine living.rethread standing (not_permanent_iff.mpr ?_) _
    rw [← standing.formed.curr]
    exact high
  | allocated free => exact living.allocated standing free
  | madeReady known => exact living.madeReady standing (allowed.2 _ rfl)
  | @freed idx known =>
    refine living.freed standing ?_
    intro needed
    rcases needed with stays | ⟨server, accepted, isServer, engaged, client⟩
    · -- The pid is that of a user application.
      rcases allowed.2 with wildcard | high
      · have := idx2pid_bounds idx
        omega
      · exact absurd stays (not_permanent_iff.mpr high)
    · exact (spares server isServer accepted engaged).1 client
  | freedAll =>
    refine living.freedAll standing ?_
    intro idx needed
    rcases needed with stays | ⟨server, accepted, isServer, engaged, client⟩
    · exact stays
    · have low := (spares server isServer accepted engaged).2 rfl
      rw [client] at low
      by_contra mortal
      exact absurd (not_permanent_iff.mp mortal) (Int.not_le.mpr low)

/-- Resuming a process keeps all receivers alive. -/
theorem Living.resumed (living : system.Living)
    (permanents : ∀ idx, permanent idx → system.status idx ≠ .unused) {after : Kernel}
    {events : List Event} (switched : Switched system.kernel after events) :
    (system.resumed after events).Living := by
  obtain ⟨kernel, birth, -⟩ := resumed_fields switched
  refine living.step permanents (fun other _ used => ?_) (fun other waits => ?_)
    fun server _ _ engaged => Or.inl ?_
  · rw [System.status, kernel, birth]
    exact ⟨fun free => used ((switched.idle_iff other rfl).mp free), rfl⟩
  · exact Or.inl (untouched_resumed switched waits rfl)
  · rwa [engaged_resumed switched] at engaged

/-- The machine starts without any messages. -/
theorem booted_living : booted.Living := by
  have status : ∀ idx, booted.status idx = .waitToSend → False := by decide
  have engaged : ∀ idx, booted.engaged idx = none := fun _ => rfl
  refine ⟨fun idx waits => (status idx waits).elim, ?_⟩
  intro server accepted _ taken
  rw [engaged] at taken
  cases taken

/-- All receivers stay alive in runs that spare the clients of servers. -/
theorem reaches_living {history : List Exchange} (reached : Reaches Spares system history) :
    system.Standing ∧ system.Living := by
  refine reached.invariant (fun system _ => system.Standing ∧ system.Living)
    ⟨booted_standing, booted_living⟩ ?_
  intro state act next _ shown holds taken
  obtain ⟨standing, living⟩ := holds
  obtain ⟨⟨allowed, spares⟩, stepped⟩ := taken
  obtain ⟨still, middle, move, used, ended⟩ := standing.moves allowed stepped
  have kept := move.living living standing allowed spares
  refine ⟨still, ?_⟩
  rcases ended with ⟨rfl, -⟩ | ⟨after, events, switched, rfl, -⟩
  · exact kept
  · exact kept.resumed used switched

/-- No process waits on a dead one in any run that never frees a client of a busy server. -/
theorem no_wait_on_dead {history : List Exchange} (reached : Reaches Spares system history)
    (idx : Slot) (waits : system.status idx = .waitToSend) : system.Faces idx :=
  (reaches_living reached).2.faces (reaches_living reached).1 waits

/-- An application asks the file server, which blocks on its reply. -/
def replyBlocked : List Act :=
  [.alloc, .setReady 6, .listen, .listen, .listen, .listen, .timer false,
    .query fileSlot [0], .reply [0]]

/-- The file server is blocked on an application that is alive. -/
theorem no_wait_on_dead_reply : ∃ system history, Reaches Spares system history ∧
    system.status fileSlot = .waitToSend ∧ system.Faces fileSlot := by
  have blocked : (follow (fun system act => system.Allowed act ∧ system.Spares act) step booted
      replyBlocked).map (fun reached => reached.1.status fileSlot) = some .waitToSend := by
    decide +kernel
  obtain ⟨⟨system, history⟩, followed, waits⟩ := Option.map_eq_some_iff.mp blocked
  have reached : Reaches Spares system history := run_of_follow .start followed
  exact ⟨system, history, reached, waits, no_wait_on_dead reached fileSlot waits⟩

/-- Ctrl+C reaches the application before it asks for the reply, and it leaves. -/
def replyStranded : List Act :=
  replyBlocked ++ [.timer false, .timer true, .tell processSlot [1], .free 6]

/-- A process can wait on a dead one. -/
theorem wait_on_dead : ¬ ∀ system history, Reaches (fun _ _ => True) system history →
    ∀ idx, system.status idx = .waitToSend → system.Faces idx := by
  intro always
  have stranded : (follow (fun system act => system.Allowed act ∧ True) step booted
      replyStranded).map (fun reached => (reached.1.status fileSlot,
        (reached.1.kernel.procSet fileSlot).toReceiverPid, reached.1.status 5)) =
      some (.waitToSend, 6, .unused) := by
    decide +kernel
  obtain ⟨⟨system, history⟩, followed, facts⟩ := Option.map_eq_some_iff.mp stranded
  simp only [Prod.mk.injEq] at facts
  obtain ⟨waits, named, dead⟩ := facts
  obtain ⟨receiver, receives, alive, -⟩ :=
    always system history (run_of_follow .start followed) fileSlot waits
  rw [named] at receives
  have slot : receiver = 5 := idx2pid_inj.mp (receives.symm.trans (by decide))
  subst slot
  exact alive dead

end System

end Egos.Apps
