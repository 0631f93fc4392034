import Egos.Apps.Replies
import Egos.Apps.Service

/-! What the deeds of the process server, of the shell and of all others do to the machine. -/

namespace Egos.Apps

open Egos.Grass

namespace System

variable {system middle : System} {act : Act} {idx target : Slot} {msg : List UInt8}

/-- Everything that programs are allowed to do is gentle to the system processes. -/
theorem gentle_of_allowed (formed : WellFormed system.kernel) (allowed : system.Allowed act) :
    system.Gentle (fun idx => permanent idx) True act := by
  -- Only releases and the timer can free, and neither reaches a permanent slot.
  cases act with
  | tell receiver msg => exact trivial
  | heed sender => exact trivial
  | exit => exact allowed.1
  | timer ttyIntr =>
    intro _ high
    rw [formed.curr] at high
    exact not_permanent_iff.mpr high
  | free pid =>
    intro idx freed
    rcases freed with rfl | ⟨-, high⟩
    · rcases allowed.2 with wildcard | high
      · have := idx2pid_bounds idx
        omega
      · exact not_permanent_iff.mpr high
    · exact not_permanent_iff.mpr high
  | _ => trivial

/-- A move of a program that sends either blocks it or delivers its message. -/
theorem Move.of_send (move : Move system act middle)
    (calls : system.label act = some (.send (idx2pid idx) msg)) :
    (¬ system.kernel.awaits idx system.kernel.currPid ∧ middle = system.sendBlocked act idx msg) ∨
    (system.kernel.awaits idx system.kernel.currPid ∧
      middle = system.sendDelivered act idx msg) := by
  -- The label of a move names its receiver and its message.
  cases move with
  | sendBlocked own known busy =>
    rw [calls, Option.some.injEq, Label.send.injEq, idx2pid_inj] at own
    obtain ⟨rfl, rfl⟩ := own
    exact Or.inl ⟨busy, rfl⟩
  | sendDelivered own awaits =>
    rw [calls, Option.some.injEq, Label.send.injEq, idx2pid_inj] at own
    obtain ⟨rfl, rfl⟩ := own
    exact Or.inr ⟨awaits, rfl⟩
  | recvBlocked own nobody =>
    rw [calls] at own
    cases own
  | recvTaken own offers named =>
    rw [calls] at own
    cases own
  | _ => simp [System.label] at calls

/-- A move of a program that receives either blocks it or takes the message of a blocked one. -/
theorem Move.of_recv {sender : Int} (move : Move system act middle)
    (calls : system.label act = some (.recv sender)) (known : 0 ≤ sender) :
    ((∀ i, system.kernel.offers i system.kernel.currPid → sender ≠ 0 ∧ sender ≠ idx2pid i) ∧
      middle = system.recvBlocked act sender) ∨
    (∃ target, system.kernel.offers target system.kernel.currPid ∧
      (sender = 0 ∨ sender = idx2pid target) ∧ middle = system.recvTaken act sender target) := by
  -- The label of a move names the sender that is waited for.
  have positive : max sender 0 = sender := max_eq_left known
  cases move with
  | sendBlocked own known busy =>
    rw [calls] at own
    cases own
  | sendDelivered own awaits =>
    rw [calls] at own
    cases own
  | recvBlocked own nobody =>
    rw [calls, Option.some.injEq, Label.recv.injEq] at own
    subst own
    rw [positive] at nobody ⊢
    exact Or.inl ⟨nobody, rfl⟩
  | recvTaken own offers named =>
    rw [calls, Option.some.injEq, Label.recv.injEq] at own
    subst own
    rw [positive] at named ⊢
    exact Or.inr ⟨_, offers, named, rfl⟩
  | _ => simp [System.label] at calls

/-- A timer interrupt does nothing to a system process by itself. -/
theorem Move.of_timer {ttyIntr : Bool} (move : Move system (.timer ttyIntr) middle)
    (formed : WellFormed system.kernel) (stays : permanent system.curr) : middle = system := by
  cases move with
  | interrupted => rfl
  | killed high =>
    rw [formed.curr] at high
    exact absurd stays (not_permanent_iff.mpr high)
  | sendBlocked calls known busy => simp [System.label] at calls
  | sendDelivered calls awaits => simp [System.label] at calls
  | recvBlocked calls nobody => simp [System.label] at calls
  | recvTaken calls offers named => simp [System.label] at calls

/-- The receive of a reply comes after the request. -/
theorem Move.of_await (move : Move system .await middle) : ∃ server request,
    system.currThread.talk = .asked server request ∧
      system.label .await = some (.recv (idx2pid server)) := by
  have called : system.label .await ≠ none := by
    intro nothing
    cases move with
    | sendBlocked calls known busy => simp [nothing] at calls
    | sendDelivered calls awaits => simp [nothing] at calls
    | recvBlocked calls nobody => simp [nothing] at calls
    | recvTaken calls offers named => simp [nothing] at calls
  cases talk : system.currThread.talk with
  | asked server request => exact ⟨server, request, rfl, by simp only [label, talk]⟩
  | _ => exact absurd (by simp only [label, talk]) called

/-- An allocation takes an unused slot. -/
theorem Move.of_alloc (move : Move system .alloc middle) :
    ∃ target, system.status target = .unused ∧ middle = system.allocated target := by
  cases move with
  | allocated free => exact ⟨_, free, rfl⟩
  | sendBlocked calls known busy => simp [System.label] at calls
  | sendDelivered calls awaits => simp [System.label] at calls
  | recvBlocked calls nobody => simp [System.label] at calls
  | recvTaken calls offers named => simp [System.label] at calls

/-- A process is made ready at its own slot. -/
theorem Move.of_setReady {pid : Int} (move : Move system (.setReady pid) middle) :
    ∃ target, pid = idx2pid target ∧
      middle = { system with kernel := system.kernel.setStatus target .ready } := by
  cases move with
  | madeReady known => exact ⟨_, rfl, rfl⟩
  | sendBlocked calls known busy => simp [System.label] at calls
  | sendDelivered calls awaits => simp [System.label] at calls
  | recvBlocked calls nobody => simp [System.label] at calls
  | recvTaken calls offers named => simp [System.label] at calls

/-- A process is freed at its own slot, or all user applications are. -/
theorem Move.of_free {pid : Int} (move : Move system (.free pid) middle) :
    (∃ target, pid = idx2pid target ∧
      middle = { system with kernel := system.kernel.setStatus target .unused }) ∨
    pid = -1 ∧ middle = { system with kernel := system.kernel.killedAll } := by
  cases move with
  | freed known => exact Or.inl ⟨_, rfl, rfl⟩
  | freedAll => exact Or.inr ⟨rfl, rfl⟩
  | sendBlocked calls known busy => simp [System.label] at calls
  | sendDelivered calls awaits => simp [System.label] at calls
  | recvBlocked calls nobody => simp [System.label] at calls
  | recvTaken calls offers named => simp [System.label] at calls

/-- Nothing that messages depend on has changed in a slot, except that it may have been resumed. -/
structure Steady (system next : System) (idx : Slot) : Prop where
  status : next.status idx = system.status idx ∨
    (system.status idx).active ∧ (next.status idx).active
  receiver : (next.kernel.procSet idx).toReceiverPid = (system.kernel.procSet idx).toReceiverPid
  expected : (next.kernel.procSet idx).fromSenderPid = (system.kernel.procSet idx).fromSenderPid
  content : (next.kernel.page idx).msg.content = (system.kernel.page idx).msg.content

/-- An untouched slot is steady. -/
theorem Untouched.steady (untouched : Untouched system middle idx) : Steady system middle idx :=
  ⟨Or.inl untouched.status, untouched.receiver, untouched.expected,
    congrArg SysMsg.content untouched.msg⟩

/-- All slots are steady when a process is resumed. -/
theorem steady_resumed {after : Kernel} {events : List Event}
    (switched : Switched system.kernel after events) (idx : Slot) :
    Steady system (system.resumed after events) idx := by
  obtain ⟨kernel, -⟩ := resumed_fields switched
  refine ⟨?_, ?_, ?_, ?_⟩
  · rw [System.status, kernel]
    exact switched.status idx
  · rw [kernel, switched.toReceiver]
  · rw [kernel, switched.fromSender]
  · rw [kernel, switched.page]

/-- A steady process has an idle status after a step if and only if it had it before. -/
theorem Steady.idle_iff (steady : Steady system middle idx) {status : Status}
    (idle : status.active = false) : middle.status idx = status ↔ system.status idx = status := by
  rcases steady.status with same | ⟨before, after⟩
  · rw [same]
  · refine iff_of_false (fun here => ?_) fun here => ?_
    · rw [here, idle] at after
      cases after
    · rw [here, idle] at before
      cases before

/-- A steady process stays active. -/
theorem Steady.active (steady : Steady system middle idx) (active : (system.status idx).active) :
    (middle.status idx).active := by
  rcases steady.status with same | ⟨-, after⟩
  · rwa [same]
  · exact after

/-- An unused slot comes to life only by being allocated. -/
theorem Move.unused (move : Move system act middle) (formed : WellFormed system.kernel)
    (allowed : system.Allowed act) (other : act ≠ .alloc) (free : system.status idx = .unused) :
    middle.status idx = .unused := by
  -- In every other move the slot is neither the current one nor one that is waited for.
  have apart : idx ≠ system.curr := formed.curr_ne free
  cases move with
  | ended => exact free
  | sendBlocked calls known busy => rwa [(untouched_sendBlocked apart).status]
  | @sendDelivered _ target _ calls awaits =>
    have different : idx ≠ target := by
      rintro rfl
      have waits : system.status idx = .waitToRecv := awaits.1
      rw [free] at waits
      cases waits
    rwa [(untouched_sendDelivered apart different).status]
  | recvBlocked calls nobody => rwa [(untouched_recvBlocked apart).status]
  | @recvTaken _ _ target calls offers named =>
    have different : idx ≠ target := by
      rintro rfl
      have waits : system.status idx = .waitToSend := (of_decide_eq_true offers).1
      rw [free] at waits
      cases waits
    rwa [(untouched_recvTaken apart different).status]
  | yielded => rwa [(untouched_yielded idx).status]
  | interrupted => exact free
  | killed high => exact free
  | allocated target => exact absurd rfl other
  | @madeReady target known =>
    have different : idx ≠ target := by
      rintro rfl
      have loading := allowed.2 idx rfl
      rw [free] at loading
      cases loading
    rwa [(untouched_setStatus different).status]
  | @freed target known =>
    by_cases same : idx = target
    · subst same
      simp [System.status, Kernel.setStatus]
    · rwa [(untouched_setStatus same).status]
  | freedAll => exact unused_killedAll free

/-- A process that waits to send after a move did so before, or has just been blocked. -/
theorem Move.sender_cases (move : Move system act middle) (formed : WellFormed system.kernel)
    (waits : middle.status idx = .waitToSend) :
    Untouched system middle idx ∨ idx = system.curr ∧ ∃ target msg,
      system.label act = some (.send (idx2pid target) msg) ∧
        middle = system.sendBlocked act target msg := by
  -- The current process was not blocked before.
  have active : system.status system.curr ≠ .waitToSend := formed.not_waitToSend
  cases move with
  | ended =>
    have apart : idx ≠ system.curr := by
      rintro rfl
      exact active waits
    exact Or.inl ⟨rfl, rfl, rfl, rfl, Function.update_of_ne apart _ _, rfl, rfl⟩
  | @sendBlocked _ target msg calls known busy =>
    by_cases here : idx = system.curr
    · exact Or.inr ⟨here, target, msg, calls, rfl⟩
    · exact Or.inl (untouched_sendBlocked here)
  | @sendDelivered _ target _ calls awaits =>
    have different : idx ≠ target := by
      rintro rfl
      simp at waits
    have apart : idx ≠ system.curr := by
      rintro rfl
      rw [sendDelivered_status (Ne.symm different)] at waits
      exact active waits
    exact Or.inl (untouched_sendDelivered apart different)
  | recvBlocked calls nobody =>
    have apart : idx ≠ system.curr := by
      rintro rfl
      simp at waits
    exact Or.inl (untouched_recvBlocked apart)
  | @recvTaken _ _ target calls offers named =>
    have different : idx ≠ target := by
      rintro rfl
      simp at waits
    have apart : idx ≠ system.curr := by
      rintro rfl
      rw [recvTaken_status (Ne.symm different)] at waits
      exact active waits
    exact Or.inl (untouched_recvTaken apart different)
  | yielded => exact Or.inl (untouched_yielded idx)
  | interrupted => exact Or.inl ⟨rfl, rfl, rfl, rfl, rfl, rfl, rfl⟩
  | killed high =>
    have apart : idx ≠ system.curr := by
      rintro rfl
      exact active waits
    exact Or.inl ⟨rfl, rfl, rfl, rfl, Function.update_of_ne apart _ _, rfl, rfl⟩
  | @allocated target free =>
    have different : idx ≠ target := by
      rintro rfl
      simp [System.status, System.allocated, Kernel.allocated] at waits
    exact Or.inl (untouched_allocated different)
  | @madeReady target known =>
    have different : idx ≠ target := by
      rintro rfl
      simp [System.status, Kernel.setStatus] at waits
    exact Or.inl (untouched_setStatus different)
  | @freed target known =>
    have different : idx ≠ target := by
      rintro rfl
      simp [System.status, Kernel.setStatus] at waits
    exact Or.inl (untouched_setStatus different)
  | freedAll =>
    refine Or.inl (untouched_killedAll (killedAll_used ?_))
    intro free
    have sends : (system.kernel.killedAll.procSet idx).status = .waitToSend := waits
    rw [free] at sends
    cases sends

/-- A message is only copied to another process if that one waits for its sender. -/
theorem copiedTo_eq_some {after : Kernel}
    (copied : (system.label act).bind (system.copiedTo after) = some idx) (apart : idx ≠ system.curr) :
    ∃ msg, system.label act = some (.send (idx2pid idx) msg) ∧
      system.kernel.awaits idx system.kernel.currPid := by
  -- Only a delivery copies at once; a taken message is copied to the current process.
  obtain ⟨label, calls, copied⟩ := Option.bind_eq_some_iff.mp copied
  cases label with
  | send receiver msg =>
    simp only [copiedTo] at copied
    split at copied
    · rename_i target named
      obtain ⟨awaits, result⟩ := Option.ite_none_right_eq_some.mp copied
      obtain rfl := Option.some.inj result
      rw [pid2idx_eq_ok] at named
      exact ⟨msg, named ▸ calls, awaits⟩
    · cases copied
  | recv sender =>
    simp only [copiedTo] at copied
    obtain ⟨-, result⟩ := Option.ite_none_left_eq_some.mp copied
    exact absurd (Option.some.inj result).symm apart
  | _ => cases copied

section Beside

variable {history : List Exchange}

/-- What others do does not touch a shell that only talks to the process server. -/
theorem Move.shell_untouched (move : Move system act middle) (standing : system.Standing)
    (allowed : system.Allowed act) (notServer : system.curr ≠ processSlot)
    (notShell : system.curr ≠ shellSlot)
    (hears : system.status shellSlot = .waitToRecv →
      (system.kernel.procSet shellSlot).fromSenderPid = idx2pid processSlot)
    (tells : system.status shellSlot = .waitToSend →
      (system.kernel.procSet shellSlot).toReceiverPid = idx2pid processSlot) :
    Untouched system middle shellSlot := by
  -- A move that reaches another slot needs that slot to wait for the mover, or is the service's.
  have apart := Ne.symm notShell
  cases move with
  | ended =>
    exact ⟨rfl, rfl, rfl, rfl, Function.update_of_ne apart _ _, rfl, rfl⟩
  | sendBlocked calls known busy => exact untouched_sendBlocked apart
  | @sendDelivered _ target _ calls awaits =>
    refine untouched_sendDelivered apart ?_
    rintro rfl
    have expected := hears awaits.1
    rcases awaits.2 with named | any
    · rw [expected, standing.formed.curr, idx2pid_inj] at named
      exact notServer named.symm
    · rw [expected] at any
      cases any
  | recvBlocked calls nobody => exact untouched_recvBlocked apart
  | @recvTaken _ _ target calls offers named =>
    refine untouched_recvTaken apart ?_
    rintro rfl
    obtain ⟨sends, receiver⟩ := of_decide_eq_true offers
    rw [tells sends, standing.formed.curr, idx2pid_inj] at receiver
    exact notServer receiver.symm
  | yielded => exact untouched_yielded shellSlot
  | interrupted => exact ⟨rfl, rfl, rfl, rfl, rfl, rfl, rfl⟩
  | killed high => exact ⟨rfl, rfl, rfl, rfl, Function.update_of_ne apart _ _, rfl, rfl⟩
  | allocated free => exact absurd allowed notServer
  | madeReady known => exact absurd allowed.1 notServer
  | freed known => exact absurd allowed.1 notServer
  | freedAll => exact absurd allowed.1 notServer

/-- A process server that takes a message of a client is at the top of its main loop. -/
theorem listens_of_awaits
    (conversing : system.Conversing (fun idx => permanent idx) True history)
    (formed : WellFormed system.kernel) (isClient : ¬ serves system.curr)
    (awaits : system.kernel.awaits processSlot system.kernel.currPid) :
    (system.thread processSlot).talk = .listening := by
  have receives : system.status processSlot = .waitToRecv := awaits.1
  rcases conversing.receivers processSlot rfl receives with
    ⟨listens, -⟩ | ⟨server, request, waiting⟩ | ⟨-, isShell, -⟩
  · exact listens
  · -- A process server that waits for a server does not take messages of others.
    obtain ⟨isServer, -, round⟩ :=
      conversing.clients processSlot server request rfl (Or.inr waiting)
    have inactive : ¬ (system.status processSlot).active := by
      rw [receives]
      decide
    cases round with
    | sent asked _ _ _ _ _ =>
      rw [waiting] at asked
      cases asked
    | replied _ _ active _ _ _ _ _ => exact absurd active inactive
    | delivered _ active _ _ _ => exact absurd active inactive
    | served _ _ served _ =>
      rcases served with ⟨-, active⟩ | ⟨-, -, expected⟩
      · exact absurd active inactive
      · rcases awaits.2 with named | any
        · rw [expected, formed.curr, idx2pid_inj] at named
          have acting : server = system.curr := named
          exact absurd (acting ▸ isServer) isClient
        · rw [expected] at any
          have := idx2pid_bounds server
          omega
  · cases isShell

/-- A process that waits for the reply to a query, or for its server to take it. -/
structure Querier (system middle : System) (idx : Slot) : Prop where
  querying : ∃ server request, system.Querying idx server request
  thread : middle.thread idx = system.thread idx
  before : system.status idx = .waitToRecv ∨ system.status idx = .waitToSend ∧
    (system.kernel.procSet idx).toReceiverPid ≠ idx2pid shellSlot
  after : middle.status idx = .runnable

/-- What others do to the process server is to tell it something or to go on with its queries. -/
theorem Move.process_beside (move : Move system act middle) (standing : system.Standing)
    (conversing : system.Conversing (fun idx => permanent idx) True history)
    (allowed : system.Allowed act) (notServer : system.curr ≠ processSlot)
    (notShell : system.curr ≠ shellSlot) :
    Untouched system middle processSlot ∨
    (∃ msg, act = .tell processSlot msg ∧
      (system.thread processSlot).talk = .listening ∧
      system.status processSlot = .waitToRecv ∧
      middle = system.sendDelivered act processSlot msg) ∨
    Querier system middle processSlot := by
  -- Only a delivery to the process server or a message that it takes concerns its slot.
  have apart := Ne.symm notServer
  have formed := standing.formed
  cases move with
  | ended => exact Or.inl ⟨rfl, rfl, rfl, rfl, Function.update_of_ne apart _ _, rfl, rfl⟩
  | sendBlocked calls known busy => exact Or.inl (untouched_sendBlocked apart)
  | @sendDelivered _ target _ calls awaits =>
    by_cases here : processSlot = target
    · subst here
      refine Or.inr ?_
      have receives : system.status processSlot = .waitToRecv := awaits.1
      rcases send_acts allowed calls with
        ⟨-, isServer, -⟩ | ⟨accepted, rfl, isServer, quiet, held, named⟩ | ⟨rfl, isClient, -, talk⟩
      · cases isServer
      · obtain ⟨-, -, waits⟩ := conversing.client_of_reply allowed rfl held named
        have querying : system.Querying processSlot system.curr accepted.request :=
          waits.imp And.left And.left
        exact Or.inr ⟨⟨_, _, querying⟩, sendDelivered_thread_idx apart, Or.inl receives, by simp⟩
      · exact Or.inl ⟨_, rfl, listens_of_awaits conversing formed isClient awaits, receives, rfl⟩
    · exact Or.inl (untouched_sendDelivered apart here)
  | recvBlocked calls nobody => exact Or.inl (untouched_recvBlocked apart)
  | @recvTaken _ _ target calls offers named =>
    by_cases here : processSlot = target
    · subst here
      refine Or.inr (Or.inr ?_)
      obtain ⟨sends, receiver⟩ := of_decide_eq_true offers
      rw [formed.curr] at offers receiver
      rcases conversing.offers_cases offers with
        ⟨request, asked, -⟩ | ⟨accepted, isServer, -⟩ | ⟨-, -, -, target⟩
      · refine ⟨⟨_, _, Or.inl asked⟩, recvTaken_thread_idx apart, Or.inr ⟨sends, ?_⟩, by simp⟩
        rw [receiver]
        exact fun same => notShell (idx2pid_inj.mp same)
      · cases isServer
      · rcases target with isProcess | isShell
        · exact absurd isProcess notServer
        · exact absurd isShell notShell
    · exact Or.inl (untouched_recvTaken apart here)
  | yielded => exact Or.inl (untouched_yielded processSlot)
  | interrupted => exact Or.inl ⟨rfl, rfl, rfl, rfl, rfl, rfl, rfl⟩
  | killed high => exact Or.inl ⟨rfl, rfl, rfl, rfl, Function.update_of_ne apart _ _, rfl, rfl⟩
  | allocated free => exact absurd allowed notServer
  | madeReady known => exact absurd allowed.1 notServer
  | freed known => exact absurd allowed.1 notServer
  | freedAll => exact absurd allowed.1 notServer

/-- A program that makes no use of the kernel's functions frees no process. -/
theorem Move.used (move : Move system act middle) (calls : ∀ pid, act ≠ .free pid)
    (used : system.status idx ≠ .unused) : middle.status idx ≠ .unused := by
  -- Of all moves only the one that frees takes a slot out of use.
  cases move with
  | ended => exact used
  | sendBlocked calls known busy =>
    by_cases here : idx = system.curr
    · subst here
      simp
    · rwa [(untouched_sendBlocked here).status]
  | @sendDelivered _ target _ calls awaits =>
    by_cases here : idx = target
    · subst here
      simp
    · by_cases current : idx = system.curr
      · subst current
        rwa [sendDelivered_status (Ne.symm here)]
      · rwa [(untouched_sendDelivered current here).status]
  | recvBlocked calls nobody =>
    by_cases here : idx = system.curr
    · subst here
      simp
    · rwa [(untouched_recvBlocked here).status]
  | @recvTaken _ _ target calls offers named =>
    by_cases here : idx = target
    · subst here
      simp
    · by_cases current : idx = system.curr
      · subst current
        rwa [recvTaken_status (Ne.symm here)]
      · rwa [(untouched_recvTaken current here).status]
  | yielded => rwa [(untouched_yielded idx).status]
  | interrupted => exact used
  | killed high => exact used
  | @allocated target free =>
    by_cases here : idx = target
    · subst here
      simp [System.status, System.allocated, Kernel.allocated]
    · rwa [(untouched_allocated here).status]
  | @madeReady target known =>
    by_cases here : idx = target
    · subst here
      simp [System.status, Kernel.setStatus]
    · rwa [(untouched_setStatus here).status]
  | freed known => exact absurd rfl (calls _)
  | freedAll => exact absurd rfl (calls _)

end Beside

end System

section Contents

variable {content : Content} {msg : List UInt8}

/-- The first word of a message is the number that the message starts with. -/
theorem load_word_zero {type : Nat} (small : type < 256) (starts : msg.take 4 = littleEndian type) :
    (Content.load content msg).word 0 = type := by
  have bytes : ∀ k < 4, (Content.load content msg).byte k = type / 256 ^ k % 256 := by
    intro k low
    have here : msg[k]? = some (UInt8.ofNat (type / 256 ^ k)) := by
      rw [← List.getElem?_take_of_lt low, starts]
      simp [littleEndian, low]
    have fits : k < syscallMsgLen := by
      simp only [syscallMsgLen]
      omega
    rw [Buffer.byte, Vector.getElem?_eq_getElem fits]
    simp [Content.load, here]
  simp only [Buffer.word]
  rw [bytes 0 (by omega), bytes 1 (by omega), bytes 2 (by omega), bytes 3 (by omega)]
  omega

/-- The message for a command is a request for a program. -/
theorem spawn_word (cmd : List UInt8) :
    (Content.load content (Service.message cmd)).word 0 = procSpawn := by
  refine load_word_zero (by decide) ?_
  have length : (littleEndian procSpawn).length = 4 := by simp [littleEndian]
  rw [Service.message, requestBytes, List.append_assoc, ← length, List.take_left]

/-- Both the shell and the process server find the byte that decides where a command runs in its
last argument, as long as there is one. -/
theorem foreground_command {cmd : List UInt8} (accepted : (parseRequest cmd).2.isSome)
    (worded : (parseRequest cmd).2 ≠ some 0) (first second : UInt8) :
    foreground (Content.load content (Service.message cmd)) first =
      foreground (Content.load content (Service.message cmd)) second := by
  obtain ⟨argc, parsed⟩ := Option.isSome_iff_exists.mp accepted
  have few : argc ≤ cmdNargs := by
    have fits := parseRequest_parsed parsed
    rw [fits.count]
    exact fits.few
  have some_ : argc ≠ 0 := by
    rintro rfl
    exact worded parsed
  have message : Service.message cmd = requestBytes procSpawn argc (parseRequest cmd).1 := by
    simp [Service.message, parsed]
  have inside : 0 ≤ (argc : Int) - 1 ∧ (argc : Int) - 1 < (cmdNargs : Int) := by omega
  rw [foreground, foreground, message, reqArgc_load procSpawn few, argvByte, argvByte,
    if_pos inside, if_pos inside]

/-- User applications ask for no programs. -/
theorem Modest.not_spawn {type : Nat} (modest : Modest type) : type ≠ procSpawn := by
  rcases modest with rfl | rfl <;> decide

/-- User applications do not end other programs. -/
theorem Modest.not_killall {type : Nat} (modest : Modest type) : type ≠ procKillall := by
  rcases modest with rfl | rfl <;> decide

end Contents

namespace Service

variable {service planned : Service} {deed : Deed}

section Carry

variable {after : Kernel} {idx : Slot} {msg : List UInt8} {sender : Int}

/-- A message that blocks its sender stays where it is. -/
theorem carry_sendBlocked
    (calls : service.system.label (service.actOf deed) = some (.send (idx2pid idx) msg))
    (busy : ¬ service.system.kernel.awaits idx service.system.kernel.currPid) :
    service.carry deed after =
      Function.update service.letter service.system.curr (service.letterOf deed) := by
  have copied : service.system.copiedTo after (.send (idx2pid idx) msg) = none := by
    simp only [System.copiedTo, pid2idx_idx2pid]
    exact if_neg busy
  simp only [carry, calls, Option.bind_some, copied]

/-- A message that is delivered is about the same at both ends. -/
theorem carry_sendDelivered
    (calls : service.system.label (service.actOf deed) = some (.send (idx2pid idx) msg))
    (awaits : service.system.kernel.awaits idx service.system.kernel.currPid)
    (stamp : (after.page idx).msg.sender = idx2pid service.system.curr) :
    service.carry deed after =
      Function.update (Function.update service.letter service.system.curr (service.letterOf deed))
        idx (service.letterOf deed) := by
  have copied : service.system.copiedTo after (.send (idx2pid idx) msg) = some idx := by
    simp only [System.copiedTo, pid2idx_idx2pid]
    exact if_pos awaits
  simp only [carry, calls, Option.bind_some, copied, stamp, pid2idx_idx2pid,
    Function.update_self]

/-- A receive that blocks carries no message. -/
theorem carry_recvBlocked
    (calls : service.system.label (service.actOf deed) = some (.recv sender))
    (waits : (after.procSet service.system.curr).status = .waitToRecv) :
    service.carry deed after =
      Function.update service.letter service.system.curr (service.letterOf deed) := by
  simp only [carry, calls, Option.bind_some, System.copiedTo, waits, if_true]

/-- A receive that takes a message learns what it is about. -/
theorem carry_recvTaken
    (calls : service.system.label (service.actOf deed) = some (.recv sender))
    (awake : (after.procSet service.system.curr).status ≠ .waitToRecv)
    (stamp : (after.page service.system.curr).msg.sender = idx2pid idx)
    (apart : idx ≠ service.system.curr) :
    service.carry deed after = Function.update (Function.update service.letter
      service.system.curr (service.letterOf deed)) service.system.curr (service.letter idx) := by
  simp only [carry, calls, Option.bind_some, System.copiedTo, awake, if_false, stamp,
    pid2idx_idx2pid, Function.update_of_ne apart]

/-- A message that has not been copied to another process is about what it was about. -/
theorem carry_of_ne (apart : idx ≠ service.system.curr)
    (missed : (service.system.label (service.actOf deed)).bind (service.system.copiedTo after) ≠
      some idx) : service.carry deed after idx = service.letter idx := by
  cases copied : (service.system.label (service.actOf deed)).bind
      (service.system.copiedTo after) with
  | none => simp only [carry, copied, Function.update_of_ne apart]
  | some target =>
    have different : idx ≠ target := by
      rintro rfl
      exact missed copied
    simp only [carry, copied]
    cases pid2idx (after.page target).msg.sender with
    | ok sender => simp only [Function.update_of_ne different, Function.update_of_ne apart]
    | error message => simp only [Function.update_of_ne apart]

/-- Without a send or a receive all messages stay where they are. -/
theorem carry_silent (nothing : (service.system.label (service.actOf deed)).bind
    (service.system.copiedTo after) = none) : service.carry deed after =
      Function.update service.letter service.system.curr (service.letterOf deed) := by
  simp only [carry, nothing]

end Carry

/-- A switch after the call carries no message. -/
theorem carry_switched {middle after : Kernel} {events : List Event}
    (switched : Switched middle after events) :
    service.carry deed after = service.carry deed middle := by
  have waiting : ((after.procSet service.system.curr).status = .waitToRecv ↔
      (middle.procSet service.system.curr).status = .waitToRecv) := switched.idle_iff _ rfl
  have copied : service.system.copiedTo after = service.system.copiedTo middle := by
    funext label
    cases label <;> simp only [System.copiedTo, waiting]
  simp only [carry, copied, switched.page]

/-- A step is that of the machine, with the variables that the current program has planned. -/
theorem step_eq_ok {next : Service} {shown : List Note}
    (stepped : service.step deed = .ok (next, shown)) :
    ∃ planned system exchanges, service.program deed = some planned ∧
      service.system.step (service.actOf deed) = .ok (system, exchanges) ∧
      next = { planned with system := system, letter := service.carry deed system.kernel } ∧
      shown = service.notes deed := by
  unfold step at stepped
  split at stepped
  · exact absurd stepped throw_ne_ok
  · rename_i planned program
    simp only [bind_eq_ok, pure_eq_ok, Prod.mk.injEq] at stepped
    obtain ⟨⟨system, exchanges⟩, moved, rfl, rfl⟩ := stepped
    exact ⟨planned, system, exchanges, program, moved, rfl, rfl⟩

/-- The new process has been allocated and the reply that it runs has not been sent. -/
def Stage.launched : Stage → Bool
  | .loading | .started => true
  | _ => false

/-- Everything that the process server does. -/
inductive Serves (service : Service) : Deed → Service → Prop
  | interrupted {ttyIntr : Bool} : Serves service (.act (.timer ttyIntr)) service
  -- A round of the main loop begins, after the end of the last one in any branch.
  | listens (done : service.desk = .top ∨
      (∃ accepted, service.desk = .handling ∧
        service.system.currThread = ⟨some accepted, .quiet⟩ ∧
        accepted.request.word 0 = procSleep) ∨
      ∃ pid, service.desk = .freed pid ∧ service.notifies pid = false) :
      Serves service (.act .listen) { service with desk := .handling }
  | begins {accepted : Accepted} {msg : List UInt8} (desk : service.desk = .handling)
      (thread : service.system.currThread = ⟨some accepted, .quiet⟩)
      (type : accepted.request.word 0 = procSpawn) :
      Serves service (.act (.query dirSlot msg))
        { service with desk := .spawning service.number .askedBin }
  | asks {number : Nat} {stage next : Stage} {server : Slot} {msg : List UInt8}
      (desk : service.desk = .spawning number stage) (isServer : serves server)
      (same : Stage.launched next = Stage.launched stage) :
      Serves service (.act (.query server msg)) { service with desk := .spawning number next }
  | awaits {number : Nat} {stage next : Stage} (desk : service.desk = .spawning number stage)
      (same : Stage.launched next = Stage.launched stage) :
      Serves service (.act .await) { service with desk := .spawning number next }
  | allocates {number : Nat} {pid : Int} {kernel : Kernel}
      (desk : service.desk = .spawning number .gotApp)
      (found : procAlloc service.system.kernel = .ok (pid, kernel)) :
      Serves service (.act .alloc)
        { service with desk := .spawning number .loading, appPid := pid }
  | readies {number : Nat} {pid : Int} (desk : service.desk = .spawning number .loading) :
      Serves service (.act (.setReady pid)) { service with desk := .spawning number .started }
  | answers {number : Nat} {stage : Stage} {accepted : Accepted} {stale : UInt8}
      (desk : service.desk = .spawning number stage) (ends : stage = .gotApp ∨ stage = .started)
      (held : service.system.currThread.hold = some accepted) :
      Serves service (.answer stale)
        { service with desk := .top, shellWaiting := foreground accepted.request stale }
  | frees {accepted : Accepted} (desk : service.desk = .handling)
      (thread : service.system.currThread = ⟨some accepted, .quiet⟩)
      (type : accepted.request.word 0 = procExit) :
      Serves service (.act (.free accepted.client)) { service with desk := .freed accepted.client }
  | freesAll {accepted : Accepted} (desk : service.desk = .handling)
      (thread : service.system.currThread = ⟨some accepted, .quiet⟩)
      (type : accepted.request.word 0 = procKillall) :
      Serves service (.act (.free (-1))) { service with desk := .top }
  | notifies {pid : Int} (desk : service.desk = .freed pid)
      (notifies : service.notifies pid = true) :
      Serves service .notify { service with desk := .top }

/-- A reply ends the handling of a request. -/
theorem serves_reply {number : Nat} {stage : Stage} {stale : UInt8}
    (desk : service.desk = .spawning number stage) (ends : stage = .gotApp ∨ stage = .started)
    (replied : service.reply stale = some planned) : Serves service (.answer stale) planned := by
  obtain ⟨accepted, held, rfl⟩ := Option.map_eq_some_iff.mp replied
  exact .answers desk ends held

/-- Spawning a program leads through its stages to the reply. -/
theorem serves_spawn {number : Nat} {stage : Stage} (desk : service.desk = .spawning number stage)
    (spawned : service.spawn number stage deed = some planned) : Serves service deed planned := by
  -- The stages come one after the other, and each makes one call of its own.
  have stays : { service with desk := .spawning number stage } = service := by rw [← desk]
  unfold spawn at spawned
  split at spawned
  · obtain rfl := Option.some.inj spawned
    exact .awaits desk rfl
  · obtain ⟨isDir, result⟩ := Option.ite_none_right_eq_some.mp spawned
    obtain rfl := Option.some.inj result
    exact .asks desk (by rw [isDir]; rfl) rfl
  · obtain rfl := Option.some.inj spawned
    exact .awaits desk rfl
  · obtain ⟨-, replied⟩ := Option.ite_none_right_eq_some.mp spawned
    exact serves_reply desk (Or.inl rfl) replied
  · obtain ⟨-, allocated⟩ := Option.ite_none_left_eq_some.mp spawned
    split at allocated
    · rename_i found
      obtain rfl := Option.some.inj allocated
      exact .allocates desk found
    · cases allocated
  · obtain ⟨isFile, result⟩ := Option.ite_none_right_eq_some.mp spawned
    obtain rfl := Option.some.inj result
    subst isFile
    have asks : ∀ msg, Serves service (.act (.query fileSlot msg))
        { service with desk := .spawning number .loading } := fun msg => .asks desk rfl rfl
    rw [stays] at asks
    exact asks _
  · obtain rfl := Option.some.inj spawned
    have awaits : Serves service (.act .await)
        { service with desk := .spawning number .loading } := .awaits desk rfl
    rw [stays] at awaits
    exact awaits
  · obtain ⟨-, result⟩ := Option.ite_none_right_eq_some.mp spawned
    obtain rfl := Option.some.inj result
    exact .readies desk
  · exact serves_reply desk (Or.inr rfl) spawned
  · cases spawned

/-- A request that has been received is handled by its type. -/
theorem serves_dispatch {accepted : Accepted} {act : Act} (desk : service.desk = .handling)
    (thread : service.system.currThread = ⟨some accepted, .quiet⟩)
    (handled : service.dispatch accepted act = some planned) :
    Serves service (.act act) planned := by
  -- The type of the request decides what is done.
  unfold dispatch at handled
  split at handled
  · obtain ⟨⟨type, isDir⟩, result⟩ := Option.ite_none_right_eq_some.mp handled
    obtain rfl := Option.some.inj result
    subst isDir
    exact .begins desk thread type
  · split at handled
    · rename_i exits
      obtain ⟨type, sender⟩ := exits
      obtain rfl := Option.some.inj handled
      subst sender
      exact .frees desk thread type
    · obtain ⟨⟨type, all⟩, result⟩ := Option.ite_none_right_eq_some.mp handled
      obtain rfl := Option.some.inj result
      subst all
      exact .freesAll desk thread type
  · obtain ⟨⟨type, -⟩, result⟩ := Option.ite_none_right_eq_some.mp handled
    obtain rfl := Option.some.inj result
    exact .listens (Or.inr (Or.inl ⟨accepted, desk, thread, type⟩))
  · cases handled

/-- The program of the process server does nothing else. -/
theorem serves_of_serve (served : service.serve deed = some planned) :
    Serves service deed planned := by
  -- Each stage of the server plans one deed.
  unfold serve at served
  split at served
  · obtain rfl := Option.some.inj served
    exact .interrupted
  · rename_i desk
    obtain rfl := Option.some.inj served
    exact .listens (Or.inl desk)
  · rename_i _ desk
    split at served
    · rename_i accepted thread
      exact serves_dispatch desk thread served
    · cases served
  · rename_i number stage deed desk _
    exact serves_spawn desk served
  · rename_i pid desk
    obtain ⟨notifies, served⟩ := Option.ite_none_right_eq_some.mp served
    obtain rfl := Option.some.inj served
    exact .notifies desk notifies
  · rename_i pid desk
    obtain ⟨silent, served⟩ := Option.ite_none_left_eq_some.mp served
    obtain rfl := Option.some.inj served
    exact .listens (Or.inr (Or.inr ⟨pid, desk, Bool.eq_false_iff.mpr silent⟩))
  · cases served

/-- Everything that the shell does. -/
inductive Works (service : Service) : Deed → Service → Prop
  | interrupted {ttyIntr : Bool} : Works service (.act (.timer ttyIntr)) service
  | commands {cmd : List UInt8} {stale : UInt8} (prompts : service.prompts)
      (accepted : (parseRequest cmd).2.isSome) :
      Works service (.command cmd stale) { service with
        shell := .asked (foreground (service.system.content (message cmd)) stale)
        requests := service.requests + 1 }
  | kills {rest : List UInt8} (prompts : service.prompts) :
      Works service (.killall rest) { service with shell := .prompt }
  | hears {sender : Slot} {foreground : Bool} (asked : service.shell = .asked foreground) :
      Works service (.act (.heed sender)) { service with shell := .answered foreground }
  | waits {sender : Slot} {foreground : Bool} (answered : service.shell = .answered foreground)
      (more : service.prompts = false) :
      Works service (.act (.heed sender)) { service with shell := .waiting }

/-- The program of the shell does nothing else. -/
theorem works_of_runShell (worked : service.runShell deed = some planned) :
    Works service deed planned := by
  -- The deed of the shell is read off from the stage that it is in.
  unfold runShell at worked
  split at worked
  · obtain ⟨⟨prompts, accepted⟩, result⟩ := Option.ite_none_right_eq_some.mp worked
    obtain rfl := Option.some.inj result
    exact .commands prompts accepted
  · obtain ⟨prompts, result⟩ := Option.ite_none_right_eq_some.mp worked
    obtain rfl := Option.some.inj result
    exact .kills prompts
  · split at worked
    · rename_i asked
      obtain rfl := Option.some.inj worked
      exact .hears asked
    · rename_i answered
      obtain ⟨more, result⟩ := Option.ite_none_left_eq_some.mp worked
      obtain rfl := Option.some.inj result
      exact .waits answered (Bool.eq_false_iff.mpr more)
    · cases worked
  · obtain rfl := Option.some.inj worked
    exact .interrupted
  · cases worked

/-- All other programs change no variables of the process server and of the shell, and ask the
process server for nothing but to end or to sleep. -/
theorem of_runOther (ran : service.runOther deed = some planned) :
    planned = service ∧ ∃ act, deed = .act act ∧ ∀ receiver msg, act = .tell receiver msg →
      ∀ content, Modest ((Content.load content msg).word 0) := by
  unfold runOther at ran
  split at ran
  · rename_i receiver msg
    obtain ⟨⟨-, starts⟩, result⟩ := Option.ite_none_right_eq_some.mp ran
    obtain rfl := Option.some.inj result
    refine ⟨rfl, _, rfl, fun other said same content => ?_⟩
    obtain ⟨-, rfl⟩ := Act.tell.inj same
    rcases starts with exits | sleeps
    · exact Or.inl (load_word_zero (by decide) exits)
    · exact Or.inr (load_word_zero (by decide) sleeps)
  · rename_i act silent
    obtain rfl := Option.some.inj ran
    exact ⟨rfl, act, rfl, fun receiver msg same => absurd same (silent receiver msg)⟩
  · cases ran

end Service

end Egos.Apps
