import Egos.Grass.Delivery

/-! Every message is received once, by the process that it was sent to, or lost with a freed slot. -/

namespace Egos.Grass

/-- The slot whose process has a message in its page. -/
def Holder.slot : Holder → Option Slot
  | .waiting idx | .delivered idx => some idx
  | .matched _ => none

/-- A message is where its holder says. -/
def Kernel.Keeps (kernel : Kernel) (history : List Event) (message : SysMsg) : Holder → Prop
  | .waiting i => (kernel.procSet i).status = .waitToSend ∧ message.sender = idx2pid i ∧
    (kernel.procSet i).toReceiverPid = message.receiver ∧ (kernel.page i).msg = message
  | .delivered i => (∃ expected, kernel.context i = .receiving expected) ∧
    (kernel.procSet i).status ≠ .unused ∧ (kernel.procSet i).status ≠ .waitToRecv ∧
    message.receiver = idx2pid i ∧ (kernel.page i).msg = message
  | .matched k => ∃ expected, history[k]? = some (.received message.receiver expected message)

/-- A slot that had the message of a send was freed later in the run that these labels give. -/
def Lost (labels : List Label) (n : Nat) : Prop :=
  ∃ earlier pid later kernel history after events holder idx process message,
    labels = earlier ++ .free pid :: later ∧
    follow Permitted step .initial earlier = some (kernel, history) ∧
    history[n]? = some (.sent process message) ∧ kernel.Keeps history message holder ∧
    holder.slot = some idx ∧ step kernel (.free pid) = .ok (after, events) ∧
    (after.procSet idx).status = .unused

/-- The holders whose slots have not been freed. -/
def Kernel.surviving (kernel : Kernel) (owner : Nat → Option Holder) (n : Nat) : Option Holder :=
  (owner n).filter fun holder => holder.slot.all fun i => (kernel.procSet i).status ≠ .unused

/-- A right book in which every send that is not lost has a holder of its own. -/
structure Account (kernel : Kernel) (history : List Event) (owner : Nat → Option Holder)
    (lost : Nat → Prop) : Prop where
  ledger : Ledger kernel history owner
  real : ∀ n holder, owner n = some holder → ∃ process message,
    history[n]? = some (.sent process message) ∧ kernel.Keeps history message holder
  unique : ∀ n m holder, owner n = some holder → owner m = some holder → n = m
  held : ∀ n process message, history[n]? = some (.sent process message) →
    lost n ∨ ∃ holder, owner n = some holder

section Accounts

variable {kernel after : Kernel} {history events : List Event} {owner : Nat → Option Holder}
variable {lost : Nat → Prop}

/-- A message stays where it is while the slot that has it stays as it is. -/
theorem Kernel.Keeps.congr {message : SysMsg} {holder : Holder}
    (keeps : kernel.Keeps history message holder)
    (same : ∀ i, holder.slot = some i → after.procSet i = kernel.procSet i ∧
      after.page i = kernel.page i ∧ after.context i = kernel.context i) :
    after.Keeps (history ++ events) message holder := by
  cases holder with
  | waiting i =>
    obtain ⟨process, page, -⟩ := same i rfl
    simp only [Kernel.Keeps, process, page]
    exact keeps
  | delivered i =>
    obtain ⟨process, page, context⟩ := same i rfl
    simp only [Kernel.Keeps, process, page, context]
    exact keeps
  | matched k =>
    obtain ⟨expected, entry⟩ := keeps
    exact ⟨expected, getElem?_grow entry⟩

/-- The process that runs has no message that is still under way. -/
theorem Account.away (account : Account kernel history owner lost) (formed : WellFormed kernel)
    {n : Nat} {holder : Holder} (owned : owner n = some holder) :
    holder.slot ≠ some kernel.procCurrIdx := by
  obtain ⟨process, message, -, keeps⟩ := account.real n holder owned
  intro same
  cases holder with
  | waiting i =>
    obtain rfl := Option.some.inj same
    exact formed.not_waitToSend keeps.1
  | delivered i =>
    obtain rfl := Option.some.inj same
    obtain ⟨⟨expected, inside⟩, -⟩ := keeps
    rw [formed.user] at inside
    cases inside
  | matched k => cases same

/-- An account whose holders all keep their messages stays one when nothing is sent. -/
theorem Account.keep (account : Account kernel history owner lost)
    (ledger : Ledger after (history ++ events) owner)
    (frame : ∀ n holder message, owner n = some holder → kernel.Keeps history message holder →
      after.Keeps (history ++ events) message holder)
    (quiet : ∀ (n : Nat) (process : Int) (message : SysMsg),
      (history ++ events)[n]? = some (.sent process message) →
      history[n]? = some (.sent process message)) :
    Account after (history ++ events) owner lost := by
  refine ⟨ledger, fun n holder owned => ?_, account.unique, fun n process message entry =>
    account.held n process message (quiet n process message entry)⟩
  obtain ⟨process, message, entry, keeps⟩ := account.real n holder owned
  exact ⟨process, message, getElem?_grow entry, frame n holder message owned keeps⟩

/-- One message may move to a new holder, also one that is just being sent. -/
theorem Account.move (account : Account kernel history owner lost) {n : Nat} {holder : Holder}
    {process : Int} {message : SysMsg}
    (ledger : Ledger after (history ++ events) (Function.update owner n (some holder)))
    (entry : (history ++ events)[n]? = some (.sent process message))
    (keeps : after.Keeps (history ++ events) message holder)
    (fresh : ∀ m, owner m ≠ some holder)
    (frame : ∀ m other message, m ≠ n → owner m = some other →
      kernel.Keeps history message other → after.Keeps (history ++ events) message other)
    (quiet : ∀ (m : Nat) (process : Int) (message : SysMsg), m ≠ n →
      (history ++ events)[m]? = some (.sent process message) →
      history[m]? = some (.sent process message)) :
    Account after (history ++ events) (Function.update owner n (some holder)) lost := by
  -- Only the holder of the message that moves is a different one.
  refine ⟨ledger, ?_, ?_, ?_⟩
  · intro m other owned
    by_cases moved : m = n
    · subst moved
      rw [Function.update_self, Option.some.injEq] at owned
      exact ⟨process, message, entry, owned ▸ keeps⟩
    · rw [Function.update_of_ne moved] at owned
      obtain ⟨sender, sent, earlier, kept⟩ := account.real m other owned
      exact ⟨sender, sent, getElem?_grow earlier, frame m other sent moved owned kept⟩
  · intro m l other first second
    by_cases left : m = n
    · by_cases right : l = n
      · rw [left, right]
      · rw [left, Function.update_self] at first
        rw [Function.update_of_ne right, ← first] at second
        exact absurd second (fresh l)
    · by_cases right : l = n
      · rw [right, Function.update_self] at second
        rw [Function.update_of_ne left, ← second] at first
        exact absurd first (fresh m)
      · rw [Function.update_of_ne left] at first
        rw [Function.update_of_ne right] at second
        exact account.unique m l other first second
  · intro m sender sent found
    by_cases moved : m = n
    · exact Or.inr ⟨holder, by rw [moved, Function.update_self]⟩
    · rw [Function.update_of_ne moved]
      exact account.held m sender sent (quiet m sender sent moved found)

/-- More sends may count as lost. -/
theorem Account.imp (account : Account kernel history owner lost) {more : Nat → Prop}
    (larger : ∀ n, lost n → more n) : Account kernel history owner more :=
  ⟨account.ledger, account.real, account.unique, fun n process message entry =>
    (account.held n process message entry).imp (larger n) id⟩

/-- Without new events no entry of the history is new. -/
theorem quiet_nil (n : Nat) (process : Int) (message : SysMsg)
    (entry : (history ++ [])[n]? = some (.sent process message)) :
    history[n]? = some (.sent process message) := by
  rwa [List.append_nil] at entry

/-- A new event that is no send adds no send. -/
theorem quiet_other {event : Event} (other : ∀ process message, event ≠ .sent process message)
    (n : Nat) (process : Int) (message : SysMsg)
    (entry : (history ++ [event])[n]? = some (.sent process message)) :
    history[n]? = some (.sent process message) := by
  rcases Nat.lt_or_ge n history.length with inside | past
  · rwa [List.getElem?_append_left inside] at entry
  · rw [List.getElem?_append_right past, List.getElem?_eq_some_iff] at entry
    obtain ⟨bounded, same⟩ := entry
    rw [List.getElem_singleton] at same
    exact absurd same (other process message)

/-- A new send is the last entry of the history. -/
theorem quiet_sent {event : Event} (n : Nat) (process : Int) (message : SysMsg)
    (old : n ≠ history.length)
    (entry : (history ++ [event])[n]? = some (.sent process message)) :
    history[n]? = some (.sent process message) := by
  have bounded := (List.getElem?_eq_some_iff.mp entry).1
  rw [List.length_append, List.length_singleton] at bounded
  rwa [List.getElem?_append_left (by omega)] at entry

/-- The return of a receive is the only thing that a switch does to the messages. -/
theorem Account.switched (account : Account kernel history owner lost)
    (switched : Switched kernel after events) :
    ∃ owner, Account after (history ++ events) owner lost := by
  -- Only the message of the process that is switched to can move.
  have frame : ∀ holder message, holder ≠ .delivered after.procCurrIdx →
      kernel.Keeps history message holder → after.Keeps (history ++ events) message holder := by
    intro holder message other keeps
    cases holder with
    | waiting i =>
      obtain ⟨status, sender, receiver, page⟩ := keeps
      refine ⟨(switched.idle_iff i rfl).mpr status, sender, ?_, ?_⟩
      · rw [switched.toReceiver, receiver]
      · rw [switched.page, page]
    | delivered i =>
      obtain ⟨⟨expected, inside⟩, used, given, receiver, page⟩ := keeps
      have different : i ≠ after.procCurrIdx := fun same => other (by rw [same])
      refine ⟨⟨expected, by rw [switched.context_of_ne different, inside]⟩, fun free => ?_,
        fun waits => ?_, receiver, by rw [switched.page, page]⟩
      · exact used ((switched.idle_iff i rfl).mp free)
      · exact given ((switched.idle_iff i rfl).mp waits)
    | matched k =>
      obtain ⟨expected, entry⟩ := keeps
      exact ⟨expected, getElem?_grow entry⟩
  rcases account.ledger.switched switched with
    ⟨outside, rfl, ledger⟩ | ⟨n, expected, owned, entry, addressed, rfl, ledger⟩
  · refine ⟨owner, account.keep ledger (fun n holder message owned keeps => ?_) quiet_nil⟩
    refine frame holder message ?_ keeps
    rintro rfl
    obtain ⟨⟨expected, inside⟩, -⟩ := keeps
    exact outside expected inside
  · refine ⟨_, account.move ledger (getElem?_grow entry) ⟨expected, ?_⟩ ?_ ?_ ?_⟩
    · rw [List.getElem?_append_right (Nat.le_refl _), Nat.sub_self, addressed]
      rfl
    · -- No holder names a receive that has not been shown yet.
      intro m early
      obtain ⟨process, message, -, other, found⟩ := account.real m _ early
      exact absurd (List.getElem?_eq_some_iff.mp found).1 (Nat.lt_irrefl _)
    · intro m other message different held keeps
      refine frame other message ?_ keeps
      rintro rfl
      exact different (account.unique m n _ held owned)
    · exact fun m process message _ found =>
        quiet_other (fun _ _ => by simp) m process message found

/-- A blocked send is kept by its sender. -/
theorem Account.sendBlocked (account : Account kernel history owner lost)
    (formed : WellFormed kernel) (receiver : Int) (msg : List UInt8) :
    Account (kernel.sendBlocked receiver msg)
      (history ++ [.sent kernel.currPid (kernel.outgoing receiver msg)])
      (Function.update owner history.length (some (.waiting kernel.procCurrIdx))) lost := by
  refine account.move (account.ledger.sendBlocked formed receiver msg)
    List.getElem?_concat_length ?_ ?_ ?_ fun n process message old => quiet_sent n process message old
  · refine ⟨?_, formed.curr, ?_, ?_⟩
    · simp [Kernel.sendBlocked]
    · simp [Kernel.sendBlocked, Kernel.outgoing]
    · simp [Kernel.sendBlocked]
  · exact fun m owned => account.away formed owned rfl
  · intro m other message _ owned keeps
    refine keeps.congr fun i at_ => ?_
    have away : i ≠ kernel.procCurrIdx := fun same => account.away formed owned (same ▸ at_)
    exact ⟨Function.update_of_ne away _ _, Function.update_of_ne away _ _,
      Function.update_of_ne away _ _⟩

/-- A delivered send is kept by its receiver. -/
theorem Account.sendDelivered (account : Account kernel history owner lost)
    (formed : WellFormed kernel) {idx : Slot} (awaits : kernel.awaits idx kernel.currPid)
    (msg : List UInt8) :
    Account (kernel.sendDelivered idx msg)
      (history ++ [.sent kernel.currPid (kernel.outgoing (idx2pid idx) msg)])
      (Function.update owner history.length (some (.delivered idx))) lost := by
  have other := formed.awaits_ne awaits
  -- A waiting receiver has no message yet.
  have empty : ∀ m holder, owner m = some holder → holder.slot ≠ some idx := by
    intro m holder owned same
    obtain ⟨process, message, -, keeps⟩ := account.real m holder owned
    cases holder with
    | waiting i =>
      obtain rfl := Option.some.inj same
      exact absurd (keeps.1.symm.trans awaits.1) (by decide)
    | delivered i =>
      obtain rfl := Option.some.inj same
      exact keeps.2.2.1 awaits.1
    | matched k => cases same
  refine account.move (account.ledger.sendDelivered formed awaits msg)
    List.getElem?_concat_length ?_ ?_ ?_ fun n process message old => quiet_sent n process message old
  · have waited := (account.ledger.booked idx).receiving awaits.1
    have status : ((kernel.sendDelivered idx msg).procSet idx).status = .runnable := by
      simp [Kernel.sendDelivered, Kernel.setStatus]
    refine ⟨⟨(kernel.procSet idx).fromSenderPid, ?_⟩, by rw [status]; decide,
      by rw [status]; decide, rfl, ?_⟩
    · simpa [Kernel.sendDelivered, Kernel.setMsg, Kernel.setStatus, Kernel.issued,
        Function.update_of_ne other] using waited
    · simp [Kernel.sendDelivered, Kernel.setMsg, Kernel.setStatus]
  · exact fun m owned => empty m _ owned rfl
  · intro m holder message _ owned keeps
    refine keeps.congr fun i at_ => ?_
    have away : i ≠ kernel.procCurrIdx := fun same => account.away formed owned (same ▸ at_)
    have apart : i ≠ idx := fun same => empty m holder owned (same ▸ at_)
    simp [Kernel.sendDelivered, Kernel.setMsg, Kernel.setStatus, Kernel.issued,
      Function.update_of_ne away, Function.update_of_ne apart]

/-- A receive that blocks leaves the messages alone. -/
theorem Account.recvBlocked (account : Account kernel history owner lost)
    (formed : WellFormed kernel) (expected : Int) :
    Account (kernel.recvBlocked expected) history owner lost := by
  have kept := account.ledger.recvBlocked expected
  rw [← List.append_nil history] at kept ⊢
  refine account.keep kept (fun n holder message owned keeps => ?_) quiet_nil
  refine keeps.congr fun i at_ => ?_
  have away : i ≠ kernel.procCurrIdx := fun same => account.away formed owned (same ▸ at_)
  simp [Kernel.recvBlocked, Kernel.recvIssued, Kernel.setStatus, Kernel.issued,
    Function.update_of_ne away]

/-- A receive that finds a blocked sender moves the message into the receiver's page. -/
theorem Account.recvTaken (account : Account kernel history owner lost)
    (formed : WellFormed kernel) {expected : Int} {idx : Slot}
    (offers : kernel.offers idx kernel.currPid) (matching : expected = 0 ∨ expected = idx2pid idx) :
    ∃ owner, Account (kernel.recvTaken expected idx) history owner lost := by
  -- The message that the ledger has for the sender is the one that moves.
  have other := formed.offers_ne offers
  obtain ⟨n, held, kept⟩ := account.ledger.recvTaken formed offers matching
  simp only [Kernel.offers, decide_eq_true_eq] at offers
  obtain ⟨process, message, entry, status, sender, receiver, page⟩ := account.real n _ held
  have sending := (account.ledger.booked idx).sending offers.1
  rw [← List.append_nil history] at kept
  rw [← List.append_nil history]
  refine ⟨_, account.move kept (getElem?_grow entry) ?_ ?_ ?_ fun m process message _ =>
    quiet_nil m process message⟩
  · refine ⟨⟨expected, ?_⟩, ?_, ?_, ?_, ?_⟩
    · simp [Kernel.recvTaken, Kernel.recvIssued, Kernel.issued, Kernel.setStatus, Kernel.setMsg]
    · have active := formed.active
      have same : ((kernel.recvTaken expected idx).procSet kernel.procCurrIdx).status =
          kernel.curr.status := by
        simp [Kernel.recvTaken, Kernel.recvIssued, Kernel.setStatus, Kernel.setMsg,
          Function.update_of_ne (Ne.symm other)]
      rw [same]
      intro free
      rw [free] at active
      cases active
    · have same : ((kernel.recvTaken expected idx).procSet kernel.procCurrIdx).status =
          kernel.curr.status := by
        simp [Kernel.recvTaken, Kernel.recvIssued, Kernel.setStatus, Kernel.setMsg,
          Function.update_of_ne (Ne.symm other)]
      rw [same]
      exact formed.not_waitToRecv
    · rw [← receiver, offers.2, formed.curr]
    · simp [Kernel.recvTaken, Kernel.setStatus, Kernel.setMsg, page]
  · exact fun m owned => account.away formed owned rfl
  · intro m holder sent different owned keeps
    refine keeps.congr fun i at_ => ?_
    have away : i ≠ kernel.procCurrIdx := fun same => account.away formed owned (same ▸ at_)
    have apart : i ≠ idx := by
      rintro rfl
      cases holder with
      | waiting j =>
        obtain rfl := Option.some.inj at_
        exact different (account.unique m n _ owned held)
      | delivered j =>
        obtain rfl := Option.some.inj at_
        obtain ⟨⟨named, inside⟩, -⟩ := keeps
        rw [sending] at inside
        cases inside
      | matched k => cases at_
    simp [Kernel.recvTaken, Kernel.recvIssued, Kernel.setMsg, Kernel.setStatus, Kernel.issued,
      Function.update_of_ne away, Function.update_of_ne apart]

/-- Freeing slots loses the messages that their processes have. -/
theorem Account.freed (account : Account kernel history owner lost)
    (frees : ∀ i, (after.procSet i).status = .unused ∨ after.procSet i = kernel.procSet i)
    (page : after.page = kernel.page) (context : after.context = kernel.context)
    {more : Nat → Prop} (larger : ∀ n, lost n → more n)
    (gone : ∀ n process message holder i, history[n]? = some (.sent process message) →
      kernel.Keeps history message holder → holder.slot = some i →
      (after.procSet i).status = .unused → more n) :
    Account after history (after.surviving owner) more := by
  -- What survives has its holder as before; the rest is booked as lost.
  have kept : ∀ {n holder}, owner n = some holder →
      (∀ i, holder.slot = some i → (after.procSet i).status ≠ .unused) →
      after.surviving owner n = some holder := by
    intro n holder owned lives
    rw [Kernel.surviving, owned, Option.filter_some, if_pos]
    cases at_ : holder.slot with
    | none => rfl
    | some i => exact decide_eq_true (lives i at_)
  have back : ∀ {n holder}, after.surviving owner n = some holder → owner n = some holder ∧
      ∀ i, holder.slot = some i → (after.procSet i).status ≠ .unused := by
    intro n holder survives
    obtain ⟨owned, lives⟩ := Option.filter_eq_some_iff.mp survives
    refine ⟨owned, fun i at_ => ?_⟩
    rw [at_] at lives
    exact of_decide_eq_true lives
  have same : ∀ i, (after.procSet i).status ≠ .unused → after.procSet i = kernel.procSet i :=
    fun i lives => (frees i).resolve_left lives
  refine ⟨⟨fun i => ?_, fun k process expected message found => ?_⟩, ?_, ?_, ?_⟩
  · by_cases free : (after.procSet i).status = .unused
    · exact Booked.of_unused free
    · refine (account.ledger.booked i).same (same i free) (congrFun page i) (congrFun context i) ?_
      rintro n - (owned | owned)
      · exact (kept owned fun j at_ => Option.some.inj at_ ▸ free).trans owned.symm
      · exact (kept owned fun j at_ => Option.some.inj at_ ▸ free).trans owned.symm
  · obtain ⟨n, before, owned, rest⟩ := account.ledger.matched k process expected message found
    exact ⟨n, before, kept owned (fun j at_ => by cases at_), rest⟩
  · intro n holder survives
    obtain ⟨owned, lives⟩ := back survives
    obtain ⟨process, message, entry, keeps⟩ := account.real n holder owned
    refine ⟨process, message, entry, ?_⟩
    rw [← List.append_nil history]
    exact keeps.congr fun i at_ =>
      ⟨same i (lives i at_), congrFun page i, congrFun context i⟩
  · exact fun n m holder first second => account.unique n m holder (back first).1 (back second).1
  · intro n process message entry
    rcases account.held n process message entry with before | ⟨holder, owned⟩
    · exact Or.inl (larger n before)
    · obtain ⟨sender, sent, entry, keeps⟩ := account.real n holder owned
      by_cases lives : ∀ i, holder.slot = some i → (after.procSet i).status ≠ .unused
      · exact Or.inr ⟨holder, kept owned lives⟩
      · simp only [not_forall, not_not] at lives
        obtain ⟨i, at_, free⟩ := lives
        exact Or.inl (gone n sender sent holder i entry keeps at_ free)

/-- Permitted steps keep the account, and only a free loses messages. -/
theorem Outcome.account {label : Label} (outcome : Outcome kernel label after events)
    (formed : WellFormed kernel) (permitted : Permitted kernel label)
    (account : Account kernel history owner lost) {more : Nat → Prop}
    (larger : ∀ n, lost n → more n)
    (gone : ∀ pid n process message holder i, label = .free pid →
      history[n]? = some (.sent process message) → kernel.Keeps history message holder →
      holder.slot = some i → (after.procSet i).status = .unused → more n) :
    ∃ owner, Account after (history ++ events) owner more := by
  have grown := account.imp larger
  cases outcome with
  | sendRefused long => exact ⟨owner, by rwa [List.append_nil]⟩
  | sendBlocked known busy switched =>
    rw [List.append_cons]
    exact (grown.sendBlocked formed _ _).switched switched
  | sendDelivered awaits switched =>
    rw [List.append_cons]
    exact (grown.sendDelivered formed awaits _).switched switched
  | recvBlocked named nobody switched => exact (grown.recvBlocked formed _).switched switched
  | recvTaken named offers matching switched =>
    obtain ⟨next, taken⟩ := grown.recvTaken formed offers matching
    exact taken.switched switched
  | yielded switched =>
    have issued : Account (kernel.issued .user (kernel.page kernel.procCurrIdx).msg)
        (history ++ []) owner more := by
      refine grown.keep ?_ (fun n holder message owned keeps => keeps.congr fun i at_ => ?_) quiet_nil
      · rw [List.append_nil]
        refine account.ledger.setSlot kernel.procCurrIdx (fun _ _ => rfl)
          (fun i other => Function.update_of_ne other _ _)
          (fun i other => Function.update_of_ne other _ _) ?_
        refine Booked.of_idle formed.not_waitToSend formed.not_waitToRecv fun expected inside => ?_
        simp [Kernel.issued] at inside
      · have away : i ≠ kernel.procCurrIdx := fun same => account.away formed owned (same ▸ at_)
        simp [Kernel.issued, Function.update_of_ne away]
    rw [List.append_nil] at issued
    exact issued.switched switched
  | timerIgnored low => exact ⟨owner, by rwa [List.append_nil]⟩
  | timerKilled high =>
    refine ⟨owner, grown.keep ⟨fun i => (account.ledger.booked i).congr rfl rfl rfl
      fun _ _ _ => rfl, ?_⟩ (fun _ _ _ _ keeps => keeps.congr fun _ _ => ⟨rfl, rfl, rfl⟩)
      (quiet_other fun _ _ => by simp)⟩
    intro k process expected message found
    rcases received_of_grow found with earlier | ⟨-, different⟩
    · obtain ⟨n, before, owned, entry, rest⟩ :=
        account.ledger.matched k process expected message earlier
      exact ⟨n, before, owned, getElem?_grow entry, rest⟩
    · cases different
  | timerYielded high switched => exact grown.switched switched
  | @allocated idx free =>
    have status : ((kernel.allocated idx).procSet idx).status = .loading := by
      simp [Kernel.allocated]
    refine ⟨owner, grown.keep ?_ (fun n holder message owned keeps =>
      keeps.congr fun i at_ => ?_) quiet_nil⟩
    · rw [List.append_nil]
      refine account.ledger.setSlot idx (fun i other => Function.update_of_ne other _ _)
        (fun i other => Function.update_of_ne other _ _)
        (fun i other => Function.update_of_ne other _ _) ?_
      refine Booked.of_idle (by rw [status]; decide) (by rw [status]; decide) ?_
      intro expected inside
      simp [Kernel.allocated] at inside
    · -- A slot that nobody uses has no message.
      have apart : i ≠ idx := by
        rintro rfl
        cases holder with
        | waiting j =>
          obtain rfl := Option.some.inj at_
          exact absurd (keeps.1.symm.trans free) (by decide)
        | delivered j =>
          obtain rfl := Option.some.inj at_
          exact keeps.2.1 free
        | matched k => cases at_
      simp [Kernel.allocated, Function.update_of_ne apart]
  | @madeReady idx known =>
    have loading := permitted.2 idx rfl
    have status : ((kernel.setStatus idx .ready).procSet idx).status = .ready := by
      simp [Kernel.setStatus]
    refine ⟨owner, grown.keep ?_ (fun n holder message owned keeps => ?_) quiet_nil⟩
    · rw [List.append_nil]
      refine account.ledger.setSlot idx (fun i other => Function.update_of_ne other _ _)
        (fun _ _ => rfl) (fun _ _ => rfl) ?_
      refine ⟨fun waits => ?_, fun waits => ?_, fun waits => ?_, fun expected inside _ _ => ?_⟩
      · rw [status] at waits
        cases waits
      · rw [status] at waits
        cases waits
      · rw [status] at waits
        cases waits
      · exact (account.ledger.booked idx).delivered expected inside (by rw [loading]; decide)
          (by rw [loading]; decide)
    · by_cases here : holder = .delivered idx
      · obtain ⟨inside, -, -, rest⟩ := here ▸ keeps
        rw [here]
        exact ⟨inside, by rw [status]; decide, by rw [status]; decide, rest⟩
      · refine keeps.congr fun i at_ => ⟨Function.update_of_ne ?_ _ _, rfl, rfl⟩
        rintro rfl
        cases holder with
        | waiting j =>
          obtain rfl := Option.some.inj at_
          exact absurd (keeps.1.symm.trans loading) (by decide)
        | delivered j => exact here (congrArg Holder.delivered (Option.some.inj at_))
        | matched k => cases at_
  | @freed idx known =>
    rw [List.append_nil]
    refine ⟨_, @Account.freed _ (kernel.setStatus idx .unused) _ _ _ account (fun i => ?_) rfl rfl _
      larger fun n process message holder i => gone _ n process message holder i rfl⟩
    by_cases same : i = idx
    · exact Or.inl (by simp [same, Kernel.setStatus])
    · exact Or.inr (Function.update_of_ne same _ _)
  | freedAll =>
    rw [List.append_nil]
    refine ⟨_, @Account.freed _ kernel.killedAll _ _ _ account (fun i => ?_) rfl rfl _ larger
      fun n process message holder i => gone _ n process message holder i rfl⟩
    by_cases killed : (kernel.procSet i).pid ≥ gpidUserStart ∧ (kernel.procSet i).status ≠ .unused
    · exact Or.inl (by simp only [Kernel.killedAll, if_pos killed])
    · exact Or.inr (if_neg killed)

/-- At the start nothing has been sent. -/
theorem account_initial : Account .initial [] (fun _ => none) lost := by
  refine ⟨⟨fun i => Booked.of_idle ?_ ?_ fun expected inside => ?_, fun k _ _ _ found => ?_⟩, ?_,
    ?_, ?_⟩
  · simp only [Kernel.initial]
    split <;> simp
  · simp only [Kernel.initial]
    split <;> simp
  · cases inside
  · simp at found
  · exact fun n holder owned => by cases owned
  · exact fun n m holder owned => by cases owned
  · exact fun n process message entry => by simp at entry

end Accounts

/-- What was lost in the beginning of a run was lost in the run. -/
theorem Lost.append {labels : List Label} {n : Nat} (lost : Lost labels n) (label : Label) :
    Lost (labels ++ [label]) n := by
  obtain ⟨earlier, pid, later, kernel, history, after, events, holder, idx, process, message, rfl,
    rest⟩ := lost
  exact ⟨earlier, pid, later ++ [label], kernel, history, after, events, holder, idx, process,
    message, by simp, rest⟩

/-- After every run each send has a holder of its own or was lost with a freed slot. -/
theorem followed_account : ∀ (labels : List Label) {kernel : Kernel} {history : List Event},
    follow Permitted step .initial labels = some (kernel, history) →
    WellFormed kernel ∧ ∃ owner, Account kernel history owner (Lost labels) := by
  -- The run is taken apart at its last step.
  intro labels
  induction labels using List.reverseRecOn with
  | nil =>
    intro kernel history followed
    simp only [follow, Option.some.injEq, Prod.mk.injEq] at followed
    obtain ⟨rfl, rfl⟩ := followed
    exact ⟨initial_wellFormed, _, account_initial⟩
  | append_singleton labels label ih =>
    intro kernel history followed
    obtain ⟨before, earlier, events, start, permitted, stepped, rfl⟩ := follow_concat.mp followed
    obtain ⟨formed, owner, account⟩ := ih start
    have outcome := step_outcome formed stepped
    refine ⟨outcome.wellFormed formed permitted.spares,
      outcome.account formed permitted account (fun n lost => lost.append label) ?_⟩
    rintro pid n process message holder i rfl entry keeps at_ free
    exact ⟨labels, pid, [], before, earlier, kernel, events, holder, i, process, message, rfl,
      start, entry, keeps, at_, stepped, free⟩

/-- Every receive returns one message that was sent to it, every message that was sent is received
once, or is still under way, or was lost with the freed slot that had it, and a blocked sender is
released only when its message is copied or its slot is freed. -/
theorem messages_delivered_once {labels : List Label} {kernel : Kernel} {history : List Event}
    (followed : follow Permitted step .initial labels = some (kernel, history)) :
    (∃ owner : Nat → Option Holder,
      (∀ k process expected message,
        history[k]? = some (.received process expected message) →
        ∃ n < k, owner n = some (.matched k) ∧
          history[n]? = some (.sent message.sender message) ∧
          message.receiver = process ∧ (expected = 0 ∨ expected = message.sender)) ∧
      (∀ n process message, history[n]? = some (.sent process message) →
        Lost labels n ∨ ∃ holder, owner n = some holder ∧ kernel.Keeps history message holder) ∧
      ∀ n m holder, owner n = some holder → owner m = some holder → n = m) ∧
    ∀ label after events, Permitted kernel label → step kernel label = .ok (after, events) →
      ∀ i, (kernel.procSet i).status = .waitToSend → (after.procSet i).status ≠ .waitToSend →
        ((∃ pid, label = .free pid) ∧ (after.procSet i).status = .unused) ∨
          (∃ sender, label = .recv sender) ∧
            (kernel.procSet i).toReceiverPid = kernel.currPid ∧
            (after.page kernel.procCurrIdx).msg = (kernel.page i).msg := by
  -- The account of the run names the holder of each message; a release is seen in one step.
  obtain ⟨formed, owner, account⟩ := followed_account labels followed
  refine ⟨⟨owner, account.ledger.matched, fun n process message entry => ?_, account.unique⟩, ?_⟩
  · refine (account.held n process message entry).imp id ?_
    rintro ⟨holder, owned⟩
    obtain ⟨sender, sent, same, keeps⟩ := account.real n holder owned
    obtain ⟨-, rfl⟩ := Event.sent.inj (Option.some.inj (entry.symm.trans same))
    exact ⟨holder, owned, keeps⟩
  · intro label after events permitted stepped i waits released
    exact (step_outcome formed stepped).sender_released formed permitted waits released

/-- The first byte of what a process received, with the process and the sender it expected. -/
def firstReceived : Option Event → Option (Int × Int × Nat)
  | some (.received process expected message) =>
    some (process, expected, message.content.byte 0)
  | _ => none

/-- Only a receive shows what was received. -/
theorem firstReceived_eq_some {entry : Option Event} {process expected : Int} {byte : Nat}
    (shown : firstReceived entry = some (process, expected, byte)) :
    ∃ message, entry = some (.received process expected message) ∧
      message.content.byte 0 = byte := by
  unfold firstReceived at shown
  split at shown
  · rename_i message
    obtain ⟨rfl, rfl, rfl⟩ : _ ∧ _ ∧ _ := by simpa using shown
    exact ⟨message, rfl, rfl⟩
  · cases shown

/-- The process server waits for the file server, which sends two messages: the first one finds the
receiver waiting, and the second one waits for its receiver. -/
def deliveredStart : List Label :=
  [.alloc, .setReady 2, .recv 0, .send 1 [104], .yield, .send 1 [105], .recv 2, .yield]

/-- Both messages are received, each from a send of its own, and none is lost. -/
theorem messages_delivered_once_start :
    ∃ kernel history, follow Permitted step .initial deliveredStart = some (kernel, history) ∧
      (∃ first second, history[1]? = some (.received 1 0 first) ∧ first.content.byte 0 = 104 ∧
        history[3]? = some (.received 1 2 second) ∧ second.content.byte 0 = 105 ∧
        ∃ n < 1, ∃ m < 3, n ≠ m ∧ history[n]? = some (.sent first.sender first) ∧
          history[m]? = some (.sent second.sender second)) ∧
      ∀ (n : Nat) process message, history[n]? = some (.sent process message) →
        ∃ holder, kernel.Keeps history message holder := by
  have shown : (follow Permitted step .initial deliveredStart).map (fun reached =>
      (firstReceived reached.2[1]?, firstReceived reached.2[3]?)) =
      some (some (1, 0, 104), some (1, 2, 105)) := by decide +kernel
  obtain ⟨⟨kernel, history⟩, followed, facts⟩ := Option.map_eq_some_iff.mp shown
  obtain ⟨left, right⟩ := Prod.mk.inj facts
  obtain ⟨first, firstEntry, firstByte⟩ := firstReceived_eq_some left
  obtain ⟨second, secondEntry, secondByte⟩ := firstReceived_eq_some right
  obtain ⟨⟨owner, matched, held, -⟩, -⟩ := messages_delivered_once followed
  obtain ⟨n, early, owned, sent, -⟩ := matched 1 1 0 first firstEntry
  obtain ⟨m, late, named, posted, -⟩ := matched 3 1 2 second secondEntry
  refine ⟨kernel, history, followed, ⟨first, second, firstEntry, firstByte, secondEntry, secondByte,
    n, early, m, late, ?_, sent, posted⟩, fun n process message entry => ?_⟩
  · rintro rfl
    rw [owned] at named
    exact absurd (Holder.matched.inj (Option.some.inj named)) (by decide)
  · rcases held n process message entry with lost | ⟨holder, -, keeps⟩
    · -- Nobody is freed in this run.
      obtain ⟨earlier, pid, later, -, -, -, -, -, -, -, -, split, -⟩ := lost
      have freed : Label.free pid ∈ deliveredStart := by simp [split]
      simp [deliveredStart] at freed
    · exact ⟨holder, keeps⟩

end Egos.Grass
