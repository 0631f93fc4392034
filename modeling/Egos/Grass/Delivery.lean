import Egos.Grass.Rendezvous

/-! The book of all messages: who has a message that was sent, and where it goes from there. -/

namespace Egos.Grass

/-- What the process server may do: it starts what it has loaded and never frees itself. -/
def Permitted (kernel : Kernel) : Label → Prop
  | .alloc => kernel.currPid = gpidProcess
  | .setReady pid => kernel.currPid = gpidProcess ∧
    ∀ i, pid = idx2pid i → (kernel.procSet i).status = .loading
  | .free pid => kernel.currPid = gpidProcess ∧ pid ≠ gpidProcess
  | _ => True

/-- What the process server may do spares the current process. -/
theorem Permitted.spares {kernel : Kernel} {label : Label} (permitted : Permitted kernel label) :
    Spares kernel label := by
  cases label with
  | free pid =>
    obtain ⟨server, other⟩ := permitted
    exact ⟨by rw [server]; exact other, fun _ => by rw [server]; decide⟩
  | _ => trivial

/-- Whether the process server may take a step can be decided. -/
instance (kernel : Kernel) : (label : Label) → Decidable (Permitted kernel label)
  | .alloc => inferInstanceAs (Decidable (kernel.currPid = gpidProcess))
  | .setReady pid => inferInstanceAs (Decidable (kernel.currPid = gpidProcess ∧
    ∀ i, pid = idx2pid i → (kernel.procSet i).status = .loading))
  | .free pid => inferInstanceAs (Decidable (kernel.currPid = gpidProcess ∧ pid ≠ gpidProcess))
  | .send _ _ | .recv _ | .yield | .timer _ => isTrue trivial

/-- Who is in charge of a message that has been sent. -/
inductive Holder where
  -- The blocked sender still has it.
  | waiting (idx : Slot)
  -- The receiver has it in its page, and its receive has not returned yet.
  | delivered (idx : Slot)
  -- The receive at this position of the history has returned it.
  | matched (position : Nat)
  deriving DecidableEq

/-- The book is right about the message that a slot's process sends or receives. -/
structure Booked (kernel : Kernel) (history : List Event) (owner : Nat → Option Holder)
    (i : Slot) : Prop where
  sending : (kernel.procSet i).status = .waitToSend → kernel.context i = .sending
  receiving : (kernel.procSet i).status = .waitToRecv →
    kernel.context i = .receiving (kernel.procSet i).fromSenderPid
  waiting : (kernel.procSet i).status = .waitToSend →
    ∃ n, owner n = some (.waiting i) ∧
      history[n]? = some (.sent (kernel.page i).msg.sender (kernel.page i).msg) ∧
      (kernel.page i).msg.sender = idx2pid i ∧
      (kernel.page i).msg.receiver = (kernel.procSet i).toReceiverPid
  delivered : ∀ expected, kernel.context i = .receiving expected →
    (kernel.procSet i).status ≠ .unused → (kernel.procSet i).status ≠ .waitToRecv →
    ∃ n, owner n = some (.delivered i) ∧
      history[n]? = some (.sent (kernel.page i).msg.sender (kernel.page i).msg) ∧
      (kernel.page i).msg.receiver = idx2pid i ∧
      (expected = 0 ∨ expected = (kernel.page i).msg.sender)

/-- The book of all messages: every send of the history has at most one holder. -/
structure Ledger (kernel : Kernel) (history : List Event) (owner : Nat → Option Holder) : Prop where
  booked : ∀ i, Booked kernel history owner i
  matched : ∀ k process expected message,
    history[k]? = some (.received process expected message) →
    ∃ n < k, owner n = some (.matched k) ∧ history[n]? = some (.sent message.sender message) ∧
      message.receiver = process ∧ (expected = 0 ∨ expected = message.sender)

section Ledgers

variable {kernel after : Kernel} {history events : List Event} {owner : Nat → Option Holder}

/-- An entry of a history stays where it is when the history grows. -/
theorem getElem?_grow {n : Nat} {event : Event} (entry : history[n]? = some event) :
    (history ++ events)[n]? = some event := by
  have inside := (List.getElem?_eq_some_iff.mp entry).1
  rw [List.getElem?_append_left inside, entry]

/-- A new event is received only if it is the last one shown. -/
theorem received_of_grow {k : Nat} {process expected : Int} {message : SysMsg} {event : Event}
    (entry : (history ++ [event])[k]? = some (.received process expected message)) :
    history[k]? = some (.received process expected message) ∨
      k = history.length ∧ event = .received process expected message := by
  rcases Nat.lt_or_ge k history.length with inside | past
  · rw [List.getElem?_append_left inside] at entry
    exact Or.inl entry
  · rw [List.getElem?_append_right past] at entry
    obtain ⟨bounded, same⟩ := List.getElem?_eq_some_iff.mp entry
    simp only [List.length_singleton] at bounded
    have position : k = history.length := by omega
    subst position
    simp only [Nat.sub_self, List.getElem_cons_zero] at same
    exact Or.inr ⟨rfl, same⟩

/-- A switch keeps the book if the new owners keep all messages but that of a returning receive. -/
theorem Ledger.switched_owner {before : Kernel} (ledger : Ledger before history owner)
    (switched : Switched before after events) {next : Nat → Option Holder}
    (kept : ∀ n holder, owner n = some holder → holder ≠ .delivered after.procCurrIdx →
      next n = some holder)
    (returned : ∀ k process expected message,
      (history ++ events)[k]? = some (.received process expected message) →
      history[k]? = some (.received process expected message) ∨
      ∃ n < k, next n = some (.matched k) ∧
        (history ++ events)[n]? = some (.sent message.sender message) ∧
        message.receiver = process ∧ (expected = 0 ∨ expected = message.sender)) :
    Ledger after (history ++ events) next := by
  -- Blocked processes keep their status, page and context across a switch.
  have waits : ∀ i {status : Status}, status.active = false →
      (after.procSet i).status = status →
      (before.procSet i).status = status ∧ after.context i = before.context i := by
    intro i status idle same
    have earlier := (switched.idle_iff i idle).mp same
    exact ⟨earlier, switched.context_of_ne (switched.idle_ne (earlier ▸ idle))⟩
  refine ⟨fun i => ⟨?_, ?_, ?_, ?_⟩, ?_⟩
  · intro status
    obtain ⟨earlier, same⟩ := waits i rfl status
    rw [same]
    exact (ledger.booked i).sending earlier
  · intro status
    obtain ⟨earlier, same⟩ := waits i rfl status
    rw [same, switched.fromSender]
    exact (ledger.booked i).receiving earlier
  · intro status
    obtain ⟨earlier, -⟩ := waits i rfl status
    obtain ⟨n, owned, entry, sender, receiver⟩ := (ledger.booked i).waiting earlier
    rw [switched.page, switched.toReceiver]
    exact ⟨n, kept n _ owned (by simp), getElem?_grow entry, sender, receiver⟩
  · intro expected receives used waiting
    -- A process that is still inside a receive was not the one switched to.
    have different : i ≠ after.procCurrIdx := by
      rintro rfl
      rw [switched.context, Function.update_self] at receives
      cases receives
    rw [switched.context_of_ne different] at receives
    obtain ⟨n, owned, entry, receiver, expects⟩ := (ledger.booked i).delivered expected receives
      (fun same => used ((switched.idle_iff i rfl).mpr same))
      (fun same => waiting ((switched.idle_iff i rfl).mpr same))
    rw [switched.page]
    exact ⟨n, kept n _ owned (by simp [different]), getElem?_grow entry, receiver, expects⟩
  · intro k process expected message found
    rcases returned k process expected message found with earlier | now
    · obtain ⟨n, before, owned, entry, receiver, expects⟩ :=
        ledger.matched k process expected message earlier
      exact ⟨n, before, kept n _ owned (by simp), getElem?_grow entry, receiver, expects⟩
    · exact now

/-- The return of a receive moves its message from the page to the history, and a switch to any
other process moves none. -/
theorem Ledger.switched {before : Kernel} (ledger : Ledger before history owner)
    (switched : Switched before after events) :
    ((∀ expected, before.context after.procCurrIdx ≠ .receiving expected) ∧ events = [] ∧
      Ledger after (history ++ events) owner) ∨
    ∃ n expected, owner n = some (.delivered after.procCurrIdx) ∧
      history[n]? = some (.sent (before.page after.procCurrIdx).msg.sender
        (before.page after.procCurrIdx).msg) ∧
      (before.page after.procCurrIdx).msg.receiver = idx2pid after.procCurrIdx ∧
      events = [.received (idx2pid after.procCurrIdx) expected
        (before.page after.procCurrIdx).msg] ∧
      Ledger after (history ++ events)
        (Function.update owner n (some (.matched history.length))) := by
  have shown := switched.events
  split at shown
  · rename_i expected resumed
    subst shown
    -- The process switched to is active, so its receive has been given a message.
    have active : ∀ status : Status, status.active = false →
        (before.procSet after.procCurrIdx).status ≠ status := by
      intro status idle same
      exact switched.idle_ne (by rw [same]; exact idle) rfl
    obtain ⟨n, held, entry, addressed, expects⟩ := (ledger.booked _).delivered _ resumed
      (active _ rfl) (active _ rfl)
    refine Or.inr ⟨n, expected, held, entry, addressed, by rw [switched.named],
      ledger.switched_owner switched ?_ ?_⟩
    · intro m holder owned different
      rw [Function.update_of_ne, owned]
      rintro rfl
      rw [held] at owned
      exact different (Option.some.inj owned).symm
    · intro k process other message found
      rcases received_of_grow found with earlier | ⟨rfl, same⟩
      · exact Or.inl earlier
      · obtain ⟨rfl, rfl, rfl⟩ := Event.received.inj same
        rw [switched.named]
        exact Or.inr ⟨n, (List.getElem?_eq_some_iff.mp entry).1, Function.update_self ..,
          getElem?_grow entry, addressed, expects⟩
  · rename_i resumed
    subst shown
    refine Or.inl ⟨resumed, rfl, ledger.switched_owner switched (fun _ _ owned _ => owned) ?_⟩
    intro k process expected message found
    rw [List.append_nil] at found
    exact Or.inl found

/-- A process that is neither blocked nor inside a receive is not in the book. -/
theorem Booked.of_idle {i : Slot} (sends : (kernel.procSet i).status ≠ .waitToSend)
    (receives : (kernel.procSet i).status ≠ .waitToRecv)
    (outside : ∀ expected, kernel.context i ≠ .receiving expected) :
    Booked kernel history owner i :=
  ⟨fun status => absurd status sends, fun status => absurd status receives,
    fun status => absurd status sends, fun expected inside => absurd inside (outside expected)⟩

/-- An unused slot is not in the book. -/
theorem Booked.of_unused {i : Slot} (free : (kernel.procSet i).status = .unused) :
    Booked kernel history owner i := by
  refine ⟨fun status => ?_, fun status => ?_, fun status => ?_, fun _ _ used => absurd free used⟩
  all_goals
    rw [free] at status
    cases status

/-- The book stays right about a slot that does not change. -/
theorem Booked.congr {i : Slot} {next : Nat → Option Holder}
    (booked : Booked kernel history owner i) (process : after.procSet i = kernel.procSet i)
    (page : after.page i = kernel.page i) (context : after.context i = kernel.context i)
    (kept : ∀ n < history.length, owner n = some (.waiting i) ∨ owner n = some (.delivered i) →
      next n = owner n) : Booked after (history ++ events) next i := by
  -- The history only grows, so that the numbers of the entries stay the same.
  refine ⟨?_, ?_, ?_, ?_⟩
  · rw [process, context]
    exact booked.sending
  · rw [process, context]
    exact booked.receiving
  · rw [process, page]
    intro status
    obtain ⟨n, owned, entry, rest⟩ := booked.waiting status
    have old := (List.getElem?_eq_some_iff.mp entry).1
    exact ⟨n, by rw [kept n old (Or.inl owned), owned], getElem?_grow entry, rest⟩
  · rw [process, page, context]
    intro expected inside used waiting
    obtain ⟨n, owned, entry, rest⟩ := booked.delivered expected inside used waiting
    have old := (List.getElem?_eq_some_iff.mp entry).1
    exact ⟨n, by rw [kept n old (Or.inr owned), owned], getElem?_grow entry, rest⟩

/-- The book stays right about returned receives when it gives a new send a holder. -/
theorem Ledger.matched_sent (ledger : Ledger kernel history owner) (holder : Holder)
    (process : Int) (message : SysMsg) : ∀ k receiver expected received,
    (history ++ [.sent process message])[k]? = some (.received receiver expected received) →
    ∃ n < k, Function.update owner history.length (some holder) n = some (.matched k) ∧
      (history ++ [.sent process message])[n]? = some (.sent received.sender received) ∧
      received.receiver = receiver ∧ (expected = 0 ∨ expected = received.sender) := by
  intro k receiver expected received found
  rcases received_of_grow found with earlier | ⟨-, different⟩
  · obtain ⟨n, before, owned, entry, rest⟩ := ledger.matched k receiver expected received earlier
    have old : n < history.length := (List.getElem?_eq_some_iff.mp entry).1
    exact ⟨n, before, by rw [Function.update_of_ne old.ne, owned], getElem?_grow entry, rest⟩
  · cases different

/-- A blocked send stays with its sender. -/
theorem Ledger.sendBlocked (ledger : Ledger kernel history owner) (formed : WellFormed kernel)
    (receiver : Int) (msg : List UInt8) :
    Ledger (kernel.sendBlocked receiver msg)
      (history ++ [.sent kernel.currPid (kernel.outgoing receiver msg)])
      (Function.update owner history.length (some (.waiting kernel.procCurrIdx))) := by
  -- The message is under way and has not been received.
  refine ⟨fun i => ?_, ledger.matched_sent _ _ _⟩
  by_cases same : i = kernel.procCurrIdx
  · subst same
    have page : ((kernel.sendBlocked receiver msg).page kernel.procCurrIdx).msg =
        kernel.outgoing receiver msg := by simp [Kernel.sendBlocked]
    have context : (kernel.sendBlocked receiver msg).context kernel.procCurrIdx = .sending := by
      simp [Kernel.sendBlocked, Kernel.issued]
    have process : (kernel.sendBlocked receiver msg).procSet kernel.procCurrIdx =
        { kernel.curr with status := .waitToSend, toReceiverPid := receiver } := by
      simp [Kernel.sendBlocked]
    refine ⟨fun _ => context, fun status => ?_, fun _ => ?_, fun expected inside => ?_⟩
    · rw [process] at status
      cases status
    · rw [page, process]
      exact ⟨history.length, Function.update_self .., by simp [Kernel.outgoing], formed.curr, rfl⟩
    · rw [context] at inside
      cases inside
  · exact (ledger.booked i).congr (Function.update_of_ne same _ _)
      (Function.update_of_ne same _ _) (Function.update_of_ne same _ _)
      fun n old _ => Function.update_of_ne old.ne _ _

/-- A receiver that waits is not the current process. -/
theorem WellFormed.awaits_ne (formed : WellFormed kernel) {idx : Slot} {pid : Int}
    (awaits : kernel.awaits idx pid) : idx ≠ kernel.procCurrIdx := by
  rintro rfl
  exact formed.not_waitToRecv awaits.1

/-- A delivered send moves to the page of its receiver. -/
theorem Ledger.sendDelivered (ledger : Ledger kernel history owner) (formed : WellFormed kernel)
    {idx : Slot} (awaits : kernel.awaits idx kernel.currPid) (msg : List UInt8) :
    Ledger (kernel.sendDelivered idx msg)
      (history ++ [.sent kernel.currPid (kernel.outgoing (idx2pid idx) msg)])
      (Function.update owner history.length (some (.delivered idx))) := by
  have other := formed.awaits_ne awaits
  refine ⟨fun i => ?_, ledger.matched_sent _ _ _⟩
  by_cases same : i = idx
  · subst same
    have page : ((kernel.sendDelivered i msg).page i).msg = kernel.outgoing (idx2pid i) msg := by
      simp [Kernel.sendDelivered, Kernel.setMsg, Kernel.setStatus]
    have context : (kernel.sendDelivered i msg).context i =
        .receiving (kernel.procSet i).fromSenderPid := by
      have waited := (ledger.booked i).receiving awaits.1
      simpa [Kernel.sendDelivered, Kernel.setMsg, Kernel.setStatus, Kernel.issued,
        Function.update_of_ne other] using waited
    have status : ((kernel.sendDelivered i msg).procSet i).status = .runnable := by
      simp [Kernel.sendDelivered, Kernel.setStatus]
    refine ⟨fun waits => ?_, fun waits => ?_, fun waits => ?_, fun expected inside _ _ => ?_⟩
    · rw [status] at waits
      cases waits
    · rw [status] at waits
      cases waits
    · rw [status] at waits
      cases waits
    · rw [context] at inside
      obtain rfl := Context.receiving.inj inside
      rw [page]
      exact ⟨history.length, Function.update_self .., by simp [Kernel.outgoing], rfl,
        awaits.2.symm⟩
  · by_cases current : i = kernel.procCurrIdx
    · -- The sender itself stays active and is not inside a receive.
      subst current
      have process : (kernel.sendDelivered idx msg).procSet kernel.procCurrIdx = kernel.curr :=
        Function.update_of_ne same _ _
      refine Booked.of_idle ?_ ?_ ?_
      · rw [process]
        exact formed.not_waitToSend
      · rw [process]
        exact formed.not_waitToRecv
      · intro expected inside
        simp [Kernel.sendDelivered, Kernel.setStatus, Kernel.setMsg, Kernel.issued] at inside
    · refine (ledger.booked i).congr ?_ ?_ ?_ fun n old _ => Function.update_of_ne old.ne _ _
      · simp [Kernel.sendDelivered, Kernel.setStatus, Kernel.setMsg, Function.update_of_ne same]
      · simp [Kernel.sendDelivered, Kernel.setStatus, Kernel.setMsg, Kernel.issued,
          Function.update_of_ne same, Function.update_of_ne current]
      · simp [Kernel.sendDelivered, Kernel.setStatus, Kernel.setMsg, Kernel.issued,
          Function.update_of_ne current]

/-- A growing book without new events is the book of the same history. -/
theorem Booked.same {i : Slot} {next : Nat → Option Holder}
    (booked : Booked kernel history owner i) (process : after.procSet i = kernel.procSet i)
    (page : after.page i = kernel.page i) (context : after.context i = kernel.context i)
    (kept : ∀ n < history.length, owner n = some (.waiting i) ∨ owner n = some (.delivered i) →
      next n = owner n) : Booked after history next i := by
  have grown : Booked after (history ++ []) next i := booked.congr process page context kept
  rwa [List.append_nil] at grown

/-- A blocked receive waits for its message. -/
theorem Ledger.recvBlocked (ledger : Ledger kernel history owner) (expected : Int) :
    Ledger (kernel.recvBlocked expected) history owner := by
  -- No message moves when a receiver blocks.
  refine ⟨fun i => ?_, ledger.matched⟩
  by_cases same : i = kernel.procCurrIdx
  · subst same
    have context : (kernel.recvBlocked expected).context kernel.procCurrIdx =
        .receiving expected := by
      simp [Kernel.recvBlocked, Kernel.recvIssued, Kernel.issued, Kernel.setStatus]
    have process : (kernel.recvBlocked expected).procSet kernel.procCurrIdx =
        { kernel.curr with fromSenderPid := expected, status := .waitToRecv } := by
      simp [Kernel.recvBlocked, Kernel.recvIssued, Kernel.setStatus]
    refine ⟨fun status => ?_, fun _ => ?_, fun status => ?_, fun _ _ _ waits => ?_⟩
    · rw [process] at status
      cases status
    · rw [context, process]
    · rw [process] at status
      cases status
    · rw [process] at waits
      exact absurd rfl waits
  · refine (ledger.booked i).same ?_ ?_ ?_ fun _ _ _ => rfl
    · simp [Kernel.recvBlocked, Kernel.recvIssued, Kernel.setStatus, Function.update_of_ne same]
    · exact Function.update_of_ne same _ _
    · exact Function.update_of_ne same _ _

/-- A receive that finds a blocked sender takes over its message. -/
theorem Ledger.recvTaken (ledger : Ledger kernel history owner) (formed : WellFormed kernel)
    {expected : Int} {idx : Slot} (offers : kernel.offers idx kernel.currPid)
    (matching : expected = 0 ∨ expected = idx2pid idx) :
    ∃ n, owner n = some (.waiting idx) ∧ Ledger (kernel.recvTaken expected idx) history
      (Function.update owner n (some (.delivered kernel.procCurrIdx))) := by
  have other := formed.offers_ne offers
  simp only [Kernel.offers, decide_eq_true_eq] at offers
  obtain ⟨n, held, entry, sender, receiver⟩ := (ledger.booked idx).waiting offers.1
  -- Everybody but the sender keeps its message.
  have kept : ∀ m holder, owner m = some holder → holder ≠ .waiting idx →
      Function.update owner n (some (.delivered kernel.procCurrIdx)) m = owner m := by
    intro m holder owned different
    refine Function.update_of_ne ?_ _ _
    rintro rfl
    rw [held] at owned
    exact different (Option.some.inj owned).symm
  refine ⟨n, held, fun i => ?_, ?_⟩
  · by_cases sends : i = idx
    · -- The sender is runnable and will return from its send.
      subst sends
      have status : ((kernel.recvTaken expected i).procSet i).status = .runnable := by
        simp [Kernel.recvTaken, Kernel.setStatus]
      refine Booked.of_idle (by rw [status]; decide) (by rw [status]; decide) ?_
      intro named inside
      have context := (ledger.booked i).sending offers.1
      simp [Kernel.recvTaken, Kernel.recvIssued, Kernel.issued, Kernel.setStatus, Kernel.setMsg,
        Function.update_of_ne other, context] at inside
    · by_cases current : i = kernel.procCurrIdx
      · subst current
        have page : ((kernel.recvTaken expected idx).page kernel.procCurrIdx).msg =
            (kernel.page idx).msg := by
          simp [Kernel.recvTaken, Kernel.setStatus, Kernel.setMsg]
        have context : (kernel.recvTaken expected idx).context kernel.procCurrIdx =
            .receiving expected := by
          simp [Kernel.recvTaken, Kernel.recvIssued, Kernel.issued, Kernel.setStatus, Kernel.setMsg]
        have status : ((kernel.recvTaken expected idx).procSet kernel.procCurrIdx).status =
            kernel.curr.status := by
          simp [Kernel.recvTaken, Kernel.recvIssued, Kernel.setStatus, Kernel.setMsg,
            Function.update_of_ne sends]
        refine ⟨fun waits => ?_, fun waits => ?_, fun waits => ?_, fun named inside _ _ => ?_⟩
        · rw [status] at waits
          exact absurd waits formed.not_waitToSend
        · rw [status] at waits
          exact absurd waits formed.not_waitToRecv
        · rw [status] at waits
          exact absurd waits formed.not_waitToSend
        · rw [context] at inside
          obtain rfl := Context.receiving.inj inside
          rw [page]
          refine ⟨n, Function.update_self .., entry, ?_, ?_⟩
          · rw [receiver, offers.2, formed.curr]
          · rw [sender]
            exact matching
      · refine (ledger.booked i).same ?_ ?_ ?_ fun m _ owned => ?_
        · simp [Kernel.recvTaken, Kernel.recvIssued, Kernel.setStatus, Kernel.setMsg,
            Function.update_of_ne sends, Function.update_of_ne current]
        · simp [Kernel.recvTaken, Kernel.recvIssued, Kernel.setStatus, Kernel.setMsg,
            Kernel.issued, Function.update_of_ne current]
        · simp [Kernel.recvTaken, Kernel.recvIssued, Kernel.setStatus, Kernel.setMsg,
            Kernel.issued, Function.update_of_ne current]
        · rcases owned with owned | owned
          · exact kept m _ owned (by simp [sends])
          · exact kept m _ owned (by simp)
  · intro k process named message found
    obtain ⟨m, before, owned, rest⟩ := ledger.matched k process named message found
    exact ⟨m, before, by rw [kept m _ owned (by simp), owned], rest⟩

/-- Changing a slot that is then not in the book keeps the book. -/
theorem Ledger.setSlot (ledger : Ledger kernel history owner) (idx : Slot)
    (process : ∀ i, i ≠ idx → after.procSet i = kernel.procSet i)
    (page : ∀ i, i ≠ idx → after.page i = kernel.page i)
    (context : ∀ i, i ≠ idx → after.context i = kernel.context i)
    (booked : Booked after history owner idx) : Ledger after history owner := by
  refine ⟨fun i => ?_, ledger.matched⟩
  by_cases same : i = idx
  · exact same ▸ booked
  · exact (ledger.booked i).same (process i same) (page i same) (context i same)
      fun _ _ _ => rfl

/-- A blocked sender is released only by the receiver that copies its message, or freed. -/
theorem Outcome.sender_released {label : Label} (outcome : Outcome kernel label after events)
    (formed : WellFormed kernel) (permitted : Permitted kernel label) {i : Slot}
    (waits : (kernel.procSet i).status = .waitToSend)
    (released : (after.procSet i).status ≠ .waitToSend) :
    ((∃ pid, label = .free pid) ∧ (after.procSet i).status = .unused) ∨
      (∃ sender, label = .recv sender) ∧
        (kernel.procSet i).toReceiverPid = kernel.currPid ∧
        (after.page kernel.procCurrIdx).msg = (kernel.page i).msg := by
  -- A switch keeps blocked senders blocked, so only what came before it counts.
  have stays : ∀ middle events, Switched middle after events →
      (middle.procSet i).status ≠ .waitToSend := by
    intro middle events switched same
    exact released ((switched.idle_iff i rfl).mpr same)
  have current : i ≠ kernel.procCurrIdx := by
    rintro rfl
    exact formed.not_waitToSend waits
  cases outcome with
  | sendRefused long => exact absurd waits released
  | sendBlocked known busy switched =>
    refine absurd ?_ (stays _ _ switched)
    simp [Kernel.sendBlocked, Function.update_of_ne current, waits]
  | @sendDelivered _ idx _ _ awaits switched =>
    refine absurd ?_ (stays _ _ switched)
    have different : i ≠ idx := by
      rintro rfl
      rw [awaits.1] at waits
      cases waits
    simp [Kernel.sendDelivered, Kernel.setStatus, Kernel.setMsg, Function.update_of_ne different,
      waits]
  | recvBlocked named nobody switched =>
    refine absurd ?_ (stays _ _ switched)
    simp [Kernel.recvBlocked, Kernel.recvIssued, Kernel.setStatus,
      Function.update_of_ne current, waits]
  | @recvTaken _ _ idx _ _ named offers matching switched =>
    simp only [Kernel.offers, decide_eq_true_eq] at offers
    by_cases taken : i = idx
    · subst taken
      refine Or.inr ⟨⟨_, rfl⟩, offers.2, ?_⟩
      rw [switched.page]
      simp [Kernel.recvTaken, Kernel.setStatus, Kernel.setMsg]
    · refine absurd ?_ (stays _ _ switched)
      simp [Kernel.recvTaken, Kernel.recvIssued, Kernel.setStatus, Kernel.setMsg,
        Function.update_of_ne taken, Function.update_of_ne current, waits]
  | yielded switched =>
    have middle : ((kernel.issued .user (kernel.page kernel.procCurrIdx).msg).procSet i).status =
      .waitToSend := waits
    exact absurd middle (stays _ _ switched)
  | timerIgnored low => exact absurd waits released
  | timerKilled high => exact absurd waits released
  | timerYielded high switched => exact absurd waits (stays _ _ switched)
  | @allocated idx free =>
    have different : i ≠ idx := by
      rintro rfl
      rw [free] at waits
      cases waits
    refine absurd ?_ released
    simp [Kernel.allocated, Function.update_of_ne different, waits]
  | @madeReady idx known =>
    have different : i ≠ idx := by
      rintro rfl
      rw [permitted.2 i rfl] at waits
      cases waits
    refine absurd ?_ released
    simp [Kernel.setStatus, Function.update_of_ne different, waits]
  | @freed idx known =>
    by_cases same : i = idx
    · subst same
      exact Or.inl ⟨⟨_, rfl⟩, by simp [Kernel.setStatus]⟩
    · refine absurd ?_ released
      simp [Kernel.setStatus, Function.update_of_ne same, waits]
  | freedAll =>
    by_cases killed : (kernel.procSet i).pid ≥ gpidUserStart ∧ (kernel.procSet i).status ≠ .unused
    · exact Or.inl ⟨⟨_, rfl⟩, by simp only [Kernel.killedAll, if_pos killed]⟩
    · have same : kernel.killedAll.procSet i = kernel.procSet i := if_neg killed
      exact absurd (by rw [same, waits]) released

end Ledgers

end Egos.Grass
