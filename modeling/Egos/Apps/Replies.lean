import Egos.Apps.DeadWaits
import Egos.Apps.Rounds

/-! Replies reach the clients whose requests they answer, and nobody waits in a circle. -/

namespace Egos.Apps

open Egos.Grass

namespace System

section Invariants

variable {system next : System} {client server idx : Slot} {request : Content} {act : Act}
variable {history : List Exchange} {safe : Slot → Prop} {chats : Prop}

/-- Safe clients are neither killed nor freed, and programs chat only if they may. -/
def Gentle (system : System) (safe : Slot → Prop) (chats : Prop) : Act → Prop
  | .tell _ _ | .heed _ => chats
  | .exit => ¬ safe system.curr
  | .timer ttyIntr => ttyIntr = true → gpidUserStart ≤ system.kernel.currPid → ¬ safe system.curr
  | .free pid => ∀ idx, pid = idx2pid idx ∨ pid = -1 ∧ gpidUserStart ≤ idx2pid idx → ¬ safe idx
  | _ => True

/-- A program that may chat is in no query. -/
theorem not_querying_of_chatting
    (talk : (system.thread client).talk = .quiet ∨ (system.thread client).talk = .leaving)
    (server : Slot) (request : Content) : ¬ system.Querying client server request := by
  rcases talk with quiet | leaving
  · exact not_querying_of_quiet quiet server request
  · simp [Querying, leaving]

/-- A message to the process server or the shell that blocks its sender is no part of a query. -/
theorem Conversing.tellBlocked (conversing : system.Conversing safe chats history)
    {msg : List UInt8} (chatting : chats) (isClient : ¬ serves system.curr)
    (target : idx = processSlot ∨ idx = shellSlot)
    (talk : system.isQuiet ∨ system.currThread.talk = .leaving) :
    (system.sendBlocked (.tell idx msg) idx msg).Conversing safe chats (history ++ []) := by
  -- Only the current slot changes; it was in no query and is in none.
  have thread : (system.sendBlocked (.tell idx msg) idx msg).thread system.curr =
      system.thread system.curr := by
    simp [issue]
  refine conversing.retable (fun other => other = system.curr) (fun other here _ => ?_)
    (fun other here _ server request => ?_) (fun other here => here ▸ isClient)
    (fun other here => ?_) fun other different => untouched_sendBlocked different
  · exact here ▸ not_querying_of_chatting talk
  · subst here
    rw [querying_congr thread]
    exact not_querying_of_chatting talk server request
  · subst here
    refine ⟨fun _ => Or.inr (Or.inr ⟨chatting, isClient, ?_, idx, target, by simp⟩), ?_⟩
    · rw [thread]
      exact talk
    · intro receives
      simp at receives

/-- A message to the process server or the shell is only delivered to one that is in no query. -/
theorem Conversing.tellDelivered (conversing : system.Conversing safe chats history)
    (permanents : ∀ idx, permanent idx → safe idx) (formed : WellFormed system.kernel)
    {msg : List UInt8} (isClient : ¬ serves system.curr)
    (target : idx = processSlot ∨ idx = shellSlot)
    (talk : system.isQuiet ∨ system.currThread.talk = .leaving)
    (awaits : system.kernel.awaits idx system.kernel.currPid) :
    (system.sendDelivered (.tell idx msg) idx msg).Conversing safe chats (history ++ []) := by
  have waits : system.status idx = .waitToRecv := awaits.1
  have apart : idx ≠ system.curr := by
    intro same
    subst same
    exact formed.not_waitToRecv waits
  have isSafe : safe idx := permanents idx (chat_partner target).1
  have sender : (system.sendDelivered (.tell idx msg) idx msg).thread system.curr =
      system.thread system.curr := by
    simp [issue]
  have receiver : (system.sendDelivered (.tell idx msg) idx msg).thread idx =
      system.thread idx := sendDelivered_thread_idx apart
  have status : (system.sendDelivered (.tell idx msg) idx msg).status system.curr =
      system.status system.curr := sendDelivered_status apart
  -- A process that waits for a server does not take messages of others.
  have silent : ∀ server request, ¬ system.Querying idx server request := by
    intro server request querying
    obtain ⟨isServer, -, round⟩ := conversing.clients idx server request isSafe querying
    have inactive : ¬ (system.status idx).active := by
      rw [waits]
      decide
    cases round with
    | sent _ sends _ _ _ _ =>
      rw [waits] at sends
      cases sends
    | replied _ _ active _ _ _ _ _ => exact inactive active
    | delivered _ active _ _ _ => exact inactive active
    | served _ _ served _ =>
      rcases served with ⟨-, active⟩ | ⟨-, -, expected⟩
      · exact inactive active
      · rcases awaits.2 with named | any
        · rw [expected, formed.curr, idx2pid_inj] at named
          have acting : server = system.curr := named
          exact isClient (acting ▸ isServer)
        · rw [expected] at any
          have := idx2pid_bounds server
          omega
  refine conversing.retable (fun other => other = system.curr ∨ other = idx)
    (fun other here _ => ?_) (fun other here _ server request => ?_) (fun other here => ?_)
    (fun other here => ?_) fun other different => ?_
  · rcases here with rfl | rfl
    · exact not_querying_of_chatting talk
    · exact silent
  · rcases here with rfl | rfl
    · rw [querying_congr sender]
      exact not_querying_of_chatting talk server request
    · rw [querying_congr receiver]
      exact silent server request
  · rcases here with rfl | rfl
    · exact isClient
    · exact (chat_partner target).2
  · rcases here with rfl | rfl
    · rw [status]
      exact ⟨fun sends => absurd sends formed.not_waitToSend,
        fun receives => absurd receives formed.not_waitToRecv⟩
    · simp
  · exact untouched_sendDelivered (fun same => different (Or.inl same))
      fun same => different (Or.inr same)

/-- A shell that waits for the process server is in no query. -/
theorem Conversing.heedBlocked (conversing : system.Conversing safe chats history)
    (chatting : chats) (shell : system.curr = shellSlot) (quiet : system.isQuiet) :
    (system.recvBlocked (.heed processSlot) (idx2pid processSlot)).Conversing safe chats
      (history ++ []) := by
  -- Only the current slot changes; it was in no query, and waits in none.
  have thread : (system.recvBlocked (.heed processSlot) (idx2pid processSlot)).thread
      system.curr = { system.currThread with talk := .heeding processSlot } := by
    simp [issue]
  refine conversing.retable (fun other => other = system.curr) (fun other here _ => ?_)
    (fun other here _ server request => ?_) (fun other here => ?_) (fun other here => ?_)
    fun other different => untouched_recvBlocked different
  · exact here ▸ not_querying_of_quiet quiet
  · subst here
    simp [Querying, issue]
  · rw [here, shell]
    decide
  · subst here
    refine ⟨fun sends => ?_, fun _ => Or.inr (Or.inr ⟨chatting, shell, ?_, by simp⟩)⟩
    · simp at sends
    · rw [thread]

/-- A shell that takes a message of the process server is in no query, and nor is the sender. -/
theorem Conversing.heedTaken (conversing : system.Conversing safe chats history)
    (formed : WellFormed system.kernel) (shell : system.curr = shellSlot)
    (quiet : system.isQuiet)
    (offers : system.kernel.offers processSlot system.kernel.currPid) :
    (system.recvTaken (.heed processSlot) (idx2pid processSlot) processSlot).Conversing
      safe chats (history ++ []) := by
  have apart : processSlot ≠ system.curr := formed.offers_ne offers
  have sender : (system.recvTaken (.heed processSlot) (idx2pid processSlot) processSlot).thread
      processSlot = system.thread processSlot := recvTaken_thread_idx apart
  have status : (system.recvTaken (.heed processSlot) (idx2pid processSlot) processSlot).status
      system.curr = system.status system.curr := recvTaken_status apart
  rw [formed.curr] at offers
  -- The shell serves no queries, so the process server chats with it.
  have silent : ∀ server request, ¬ system.Querying processSlot server request := by
    rcases conversing.offers_cases offers with
      ⟨request, -, isServer, -⟩ | ⟨accepted, isServer, -⟩ | ⟨-, -, talk, -⟩
    · have isServer : serves system.curr := isServer
      rw [shell] at isServer
      cases isServer
    · cases isServer
    · exact not_querying_of_chatting talk
  refine conversing.retable (fun other => other = system.curr ∨ other = processSlot)
    (fun other here _ => ?_) (fun other here _ server request => ?_) (fun other here => ?_)
    (fun other here => ?_) fun other different => ?_
  · rcases here with rfl | rfl
    · exact not_querying_of_quiet quiet
    · exact silent
  · rcases here with rfl | rfl
    · simp [Querying, issue]
    · rw [querying_congr sender]
      exact silent server request
  · rcases here with rfl | rfl
    · rw [shell]
      decide
    · decide
  · rcases here with rfl | rfl
    · rw [status]
      exact ⟨fun sends => absurd sends formed.not_waitToSend,
        fun receives => absurd receives formed.not_waitToRecv⟩
    · simp
  · exact untouched_recvTaken (fun same => different (Or.inl same))
      fun same => different (Or.inr same)

/-- What an unsafe program does with itself concerns no query. -/
theorem Conversing.rethread (conversing : system.Conversing safe chats history)
    (formed : WellFormed system.kernel) (unsafe_ : ¬ safe system.curr)
    (mortal : ¬ permanent system.curr) (thread : Thread) :
    ({ system with thread := Function.update system.thread system.curr thread } :
      System).Conversing safe chats (history ++ []) := by
  refine conversing.retable (fun other => other = system.curr)
    (fun other here isSafe => absurd (here ▸ isSafe) unsafe_)
    (fun other here isSafe => absurd (here ▸ isSafe) unsafe_)
    (fun other here isServer => mortal (here ▸ permanent_of_serves isServer))
    (fun other here => ?_) fun other different => ?_
  · subst here
    exact ⟨fun sends => absurd sends formed.not_waitToSend,
      fun receives => absurd receives formed.not_waitToRecv⟩
  · exact ⟨rfl, rfl, rfl, rfl, Function.update_of_ne different _ _, rfl, rfl⟩

/-- Gentle programs keep all queries of safe clients going. -/
theorem Move.conversing {middle : System} (move : Move system act middle)
    (conversing : system.Conversing safe chats history) (standing : system.Standing)
    (permanents : ∀ idx, permanent idx → safe idx) (allowed : system.Allowed act)
    (gentle : system.Gentle safe chats act) :
    middle.Conversing safe chats (history ++ system.announces act) := by
  have formed := standing.formed
  have used : ∀ idx, serves idx → system.status idx ≠ .unused ∧ system.status idx ≠ .loading :=
    fun idx isServer => standing.permanents idx (permanent_of_serves isServer)
  cases move with
  | ended => exact conversing.rethread formed gentle allowed.1 _
  | sendBlocked calls known busy =>
    rcases send_acts allowed calls with
      ⟨rfl, -, -⟩ | ⟨accepted, rfl, -, -, held, named⟩ | ⟨rfl, isClient, target, talk⟩
    · exact conversing.queryBlocked allowed
    · exact conversing.replyBlocked permanents formed allowed held named busy
    · exact conversing.tellBlocked gentle isClient target talk
  | sendDelivered calls awaits =>
    rcases send_acts allowed calls with
      ⟨rfl, -, -⟩ | ⟨accepted, rfl, -, -, held, named⟩ | ⟨rfl, isClient, target, talk⟩
    · exact conversing.queryDelivered permanents formed allowed awaits
    · exact conversing.replyDelivered permanents formed allowed held named awaits
    · exact conversing.tellDelivered permanents formed isClient target talk awaits
  | recvBlocked calls nobody =>
    rcases recv_acts allowed calls with
      ⟨server, request, rfl, rfl, talk⟩ | ⟨rfl, rfl⟩ | ⟨rfl, rfl, shell, quiet⟩
    · have positive : max (idx2pid server) 0 = idx2pid server :=
        max_eq_left (idx2pid_bounds server).1.le
      rw [positive] at nobody ⊢
      exact conversing.awaitBlocked formed talk nobody
    · exact conversing.listenBlocked formed allowed
    · exact conversing.heedBlocked gentle shell quiet
  | @recvTaken act sender idx calls offers named =>
    rcases recv_acts allowed calls with
      ⟨server, request, rfl, rfl, talk⟩ | ⟨rfl, rfl⟩ | ⟨rfl, rfl, shell, quiet⟩
    · have bounds := idx2pid_bounds server
      have positive : max (idx2pid server) 0 = idx2pid server := max_eq_left bounds.1.le
      rw [positive] at named ⊢
      have same := named.resolve_left (by omega)
      rw [idx2pid_inj] at same
      subst same
      exact conversing.awaitTaken permanents formed talk offers
    · exact conversing.listenTaken permanents formed standing.stamped allowed offers
    · have same := named.resolve_left (by decide)
      have isProcess : processSlot = idx := idx2pid_inj.mp same
      subst isProcess
      exact conversing.heedTaken formed shell quiet offers
  | yielded =>
    exact conversing.retable (fun _ => False) (fun _ here => here.elim)
      (fun _ here => here.elim) (fun _ here => here.elim) (fun _ here => here.elim)
      fun idx _ => untouched_yielded idx
  | @interrupted ttyIntr =>
    have nothing : system.announces (.timer ttyIntr) = [] := rfl
    rw [nothing, List.append_nil]
    exact conversing
  | killed high =>
    refine conversing.rethread formed (gentle rfl high) (not_permanent_iff.mpr ?_) _
    rw [← formed.curr]
    exact high
  | @allocated idx free =>
    refine conversing.retable (fun other => other = idx)
      (fun other here isSafe server request asks => ?_)
      (fun other here _ server request asks => ?_) (fun other here isServer => ?_)
      (fun other here => ?_) fun other different => untouched_allocated different
    · subst here
      exact (conversing.clients other server request isSafe asks).2.2.live.1 free
    · subst here
      simp [Querying, System.allocated, Thread.fresh] at asks
    · subst here
      exact (used other isServer).1 free
    · subst here
      simp [System.status, System.allocated, Kernel.allocated]
  | @madeReady idx known =>
    have loading : system.status idx = .loading := allowed.2 idx rfl
    have quiet : safe idx → ∀ server request, ¬ system.Querying idx server request :=
      fun isSafe server request asks =>
        (conversing.clients idx server request isSafe asks).2.2.live.2 loading
    refine conversing.retable (fun other => other = idx)
      (fun other here isSafe => here ▸ quiet (here ▸ isSafe))
      (fun other here isSafe => here ▸ quiet (here ▸ isSafe)) (fun other here isServer => ?_)
      (fun other here => ?_) fun other different => untouched_setStatus different
    · subst here
      exact (used other isServer).2 loading
    · subst here
      simp [System.status, Kernel.setStatus]
  | @freed idx known =>
    have unsafe_ : ¬ safe idx := gentle idx (Or.inl rfl)
    refine conversing.retable (fun other => other = idx)
      (fun other here isSafe => absurd (here ▸ isSafe) unsafe_)
      (fun other here isSafe => absurd (here ▸ isSafe) unsafe_) (fun other here isServer => ?_)
      (fun other here => ?_) fun other different => untouched_setStatus different
    · exact unsafe_ (permanents idx (permanent_of_serves (here ▸ isServer)))
    · subst here
      simp [System.status, Kernel.setStatus]
  | freedAll =>
    -- Only user applications lose their entries.
    have high : ∀ idx, system.kernel.killedAll.procSet idx ≠ system.kernel.procSet idx →
        gpidUserStart ≤ idx2pid idx := by
      intro idx changed
      by_contra low
      refine changed (killedAll_permanent formed.pids ?_)
      by_contra mortal
      exact low (not_permanent_iff.mp mortal)
    refine conversing.retable
      (fun idx => system.kernel.killedAll.procSet idx ≠ system.kernel.procSet idx)
      (fun idx changed isSafe => absurd isSafe (gentle idx (Or.inr ⟨rfl, high idx changed⟩)))
      (fun idx changed isSafe => absurd isSafe (gentle idx (Or.inr ⟨rfl, high idx changed⟩)))
      (fun idx changed isServer => ?_) (fun idx changed => ?_)
      fun idx same => untouched_killedAll (not_not.mp same)
    · exact not_permanent_iff.mpr (high idx changed) (permanent_of_serves isServer)
    · have free : (system.kernel.killedAll.procSet idx).status = .unused := by
        by_contra used
        exact changed (killedAll_used used)
      simp [System.status, free]

/-- A program that returns from a receive ends its query, or is in the state it was in. -/
theorem deliver_cases (system : System) (idx : Slot) (message : SysMsg) :
    (system.deliver idx message = system.thread idx ∧ system.shows idx message = []) ∨
      (system.deliver idx message).talk = .quiet ∧ (system.thread idx).talk ≠ .replied ∧
        (∀ server request, (system.thread idx).talk ≠ .asked server request) := by
  cases talk : (system.thread idx).talk <;> simp [deliver, shows, talk]

/-- A client that the scheduler may resume in a receive has its reply. -/
theorem Conversing.delivered (conversing : system.Conversing safe chats history)
    (isSafe : safe client) (active : (system.status client).active)
    (talk : (system.thread client).talk = .waiting server request) :
    (∀ other, ¬ system.Engages server client other) ∧
      ∃ msg rest, (system.kernel.page client).msg.content = Content.load rest msg ∧
        Answering client server request msg history := by
  -- In the other rounds the client has not begun to wait, or is still blocked.
  obtain ⟨-, -, round⟩ := conversing.clients client server request isSafe (Or.inr talk)
  cases round with
  | sent asked _ _ _ _ _ =>
    rw [talk] at asked
    cases asked
  | served _ _ waits _ =>
    rcases waits with ⟨asked, -⟩ | ⟨-, status, -⟩
    · rw [talk] at asked
      cases asked
    · rw [status] at active
      cases active
  | replied _ asked _ _ _ _ _ _ =>
    rw [talk] at asked
    cases asked
  | delivered _ _ content unserved answering => exact ⟨unserved, _, _, content, answering⟩

/-- The return of a receive shows a reply to the latest request of the process that returns. -/
theorem Conversing.matched_shows (conversing : system.Conversing safe chats history)
    (active : (system.status client).active) :
    Matched safe (history ++ system.shows client (system.kernel.page client).msg) := by
  cases talk : (system.thread client).talk with
  | waiting server request =>
    simp only [shows, talk]
    refine conversing.matched.append_one ?_
    intro owner other reply isSafe same
    obtain ⟨rfl, rfl, rfl⟩ := Exchange.answered.inj same
    obtain ⟨-, msg, rest, content, answering⟩ := conversing.delivered isSafe active talk
    exact ⟨request, msg, rest, answering, content⟩
  | _ =>
    simp only [shows, talk]
    exact conversing.matched_nil

/-- The return of a receive is an exchange of the process that returns. -/
theorem concerns_shows (message : SysMsg) (different : client ≠ idx) :
    ∀ exchange ∈ system.shows idx message, exchange.concerns client = false := by
  cases talk : (system.thread idx).talk <;>
    simp [shows, talk, Exchange.concerns, Ne.symm different]

/-- A reply that a client returns with is the one to its own latest request. -/
theorem Conversing.resumed (conversing : system.Conversing safe chats history) {after : Kernel}
    {seen : List Event} (switched : Switched system.kernel after seen) :
    (system.resumed after seen).Conversing safe chats
      (history ++ (({ system with kernel := after } : System).observeAll seen).2) := by
  obtain ⟨kernel, -, -, -, others, current⟩ := resumed_fields switched
  have active : (system.status after.procCurrIdx).active := switched.chosen
  have kept : ∀ idx, (system.resumed after seen).thread idx = system.thread idx →
      Kept system (system.resumed after seen) idx := by
    intro idx same
    refine ⟨congrArg Thread.talk same, ?_, ?_, ?_, ?_⟩
    · rw [System.status, kernel]
      exact switched.status idx
    · rw [kernel, switched.toReceiver]
    · rw [kernel, switched.fromSender]
    · rw [kernel, switched.page]
  have blocked : ∀ idx, (system.resumed after seen).status idx = .waitToSend ∨
      (system.resumed after seen).status idx = .waitToRecv →
      Untouched system (system.resumed after seen) idx := by
    intro idx waits
    rcases waits with sends | receives
    · exact untouched_resumed switched sends rfl
    · exact untouched_resumed switched receives rfl
  -- Either nothing is seen of the program, or its receive returns and ends its query.
  have returned : (∀ idx, (system.resumed after seen).thread idx = system.thread idx) ∧
        (({ system with kernel := after } : System).observeAll seen).2 = [] ∨
      ((system.resumed after seen).thread after.procCurrIdx).talk = .quiet ∧
        (system.thread after.procCurrIdx).talk ≠ .replied ∧
        (∀ server request, (system.thread after.procCurrIdx).talk ≠ .asked server request) ∧
        (({ system with kernel := after } : System).observeAll seen).2 =
          system.shows after.procCurrIdx (system.kernel.page after.procCurrIdx).msg := by
    have everywhere : (system.resumed after seen).thread after.procCurrIdx =
        system.thread after.procCurrIdx →
        ∀ idx, (system.resumed after seen).thread idx = system.thread idx := by
      intro same idx
      by_cases here : idx = after.procCurrIdx
      · rw [here, same]
      · exact others idx here
    rcases current with ⟨same, nothing⟩ | ⟨delivered, shown⟩
    · exact Or.inl ⟨everywhere same, nothing⟩
    · rcases system.deliver_cases after.procCurrIdx
        (system.kernel.page after.procCurrIdx).msg with ⟨same, nothing⟩ | ⟨quiet, before⟩
      · exact Or.inl ⟨everywhere (delivered.trans same), shown.trans nothing⟩
      · rw [delivered]
        exact Or.inr ⟨quiet, before.1, before.2, shown⟩
  rcases returned with ⟨same, nothing⟩ | ⟨quiet, working, unasked, shown⟩
  · rw [nothing]
    refine conversing.step (fun client server request _ querying => Or.inl ?_)
      (fun server accepted client _ taken _ _ => Or.inl ⟨?_, fun querying => ?_⟩)
      (fun idx waits => Or.inl (blocked idx waits)) conversing.matched_nil
    · rw [querying_congr (same client)] at querying
      exact ⟨querying, kept client (same client),
        ⟨engages_congr (engaged_resumed switched server) client,
          Or.inr (Or.inl (kept server (same server)))⟩, concerns_nil⟩
    · rwa [engaged_resumed switched] at taken
    · rwa [querying_congr (same client)]
  · rw [shown]
    refine conversing.step (fun client server request _ querying => Or.inl ?_)
      (fun server accepted client isServer taken isSafe named => Or.inr ?_)
      (fun idx waits => Or.inl (blocked idx waits)) (conversing.matched_shows active)
    · have here : client ≠ after.procCurrIdx := by
        intro same
        subst same
        exact not_querying_of_quiet quiet _ _ querying
      rw [querying_congr (others client here)] at querying
      refine ⟨querying, kept client (others client here), ?_, concerns_shows _ here⟩
      by_cases acting : server = after.procCurrIdx
      · subst acting
        exact goes_of_working (engaged_resumed switched _) working (by simp [quiet]) client
      · exact ⟨engages_congr (engaged_resumed switched server) client,
          Or.inr (Or.inl (kept server (others server acting)))⟩
    · rw [engaged_resumed switched] at taken
      have querying := conversing.servers server accepted client isServer taken isSafe named
      have here : client ≠ after.procCurrIdx := by
        intro same
        subst same
        rcases querying with asked | waiting
        · exact unasked _ _ asked
        · -- A client that has its reply is in no server's hands.
          exact (conversing.delivered isSafe active waiting).1 _ ⟨accepted, taken, named, rfl⟩
      rwa [querying_congr (others client here)]

/-- A process is blocked on another one. -/
def BlockedOn (system : System) (process other : Slot) : Prop :=
  system.status process = .waitToSend ∧
      (system.kernel.procSet process).toReceiverPid = idx2pid other ∨
    system.status process = .waitToRecv ∧
      (system.kernel.procSet process).fromSenderPid = idx2pid other

/-- Clients come before the directory server, which comes before the other servers. -/
def rank (idx : Slot) : Nat := if serves idx then (if idx = dirSlot then 1 else 2) else 0

/-- A query leads from a lower to a higher rank. -/
theorem rank_lt (isServer : serves server)
    (asker : serves client → client = dirSlot ∧ server = fileSlot) :
    rank client < rank server := by
  unfold rank
  by_cases both : serves client
  · obtain ⟨rfl, rfl⟩ := asker both
    decide
  · rw [if_neg both, if_pos isServer]
    split <;> decide

/-- Nobody is blocked on itself through others. -/
theorem Conversing.acyclic (conversing : system.Conversing (fun _ => True) False history)
    (process : Slot) : ¬ Relation.TransGen system.BlockedOn process process := by
  -- Queries rise in rank, and a reply is only blocked on a client that runs.
  refine not_transGen_self rank (fun idx other edge => ?_) process
  rcases edge with ⟨sends, receiver⟩ | ⟨receives, expected⟩
  · have offers : system.kernel.offers idx (idx2pid other) := by
      simp only [Kernel.offers, decide_eq_true_eq]
      exact ⟨sends, receiver⟩
    rcases conversing.offers_cases offers with
      ⟨request, -, isServer, sent⟩ | ⟨accepted, isServer, done, taken, named, querying⟩ | ⟨bad, -⟩
    · exact Or.inl (rank_lt isServer (sent trivial).2.1)
    · refine Or.inr fun next edge => ?_
      have engages : system.Engages idx other accepted.request := ⟨_, taken, named, rfl⟩
      obtain ⟨-, -, round⟩ := 
        conversing.clients other idx accepted.request trivial (querying trivial)
      cases round with
      | sent _ _ _ _ unserved _ => exact unserved _ engages
      | served _ working _ _ => exact working done
      | delivered _ _ _ unserved _ => exact unserved _ engages
      | replied _ _ active _ _ _ _ _ =>
        rcases edge with ⟨sends, -⟩ | ⟨receives, -⟩
        · rw [sends] at active
          cases active
        · rw [receives] at active
          cases active
    · exact bad.elim
  · refine Or.inl ?_
    rcases conversing.receivers idx trivial receives with
      ⟨-, any⟩ | ⟨server, request, waiting⟩ | ⟨bad, -⟩
    · rw [any] at expected
      have := idx2pid_bounds other
      omega
    · obtain ⟨isServer, asker, round⟩ :=
        conversing.clients idx server request trivial (Or.inr waiting)
      cases round with
      | sent asked _ _ _ _ _ =>
        rw [waiting] at asked
        cases asked
      | replied _ asked _ _ _ _ _ _ =>
        rw [waiting] at asked
        cases asked
      | delivered _ active _ _ _ =>
        rw [receives] at active
        cases active
      | served _ _ waits _ =>
        rcases waits with ⟨asked, -⟩ | ⟨-, -, named⟩
        · rw [waiting] at asked
          cases asked
        · rw [named, idx2pid_inj] at expected
          subst expected
          exact rank_lt isServer asker
    · exact bad.elim

end Invariants

/-- The machine starts without queries. -/
theorem booted_conversing (safe : Slot → Prop) (chats : Prop) :
    booted.Conversing safe chats [] := by
  have status : ∀ idx, booted.status idx ≠ .waitToSend ∧ booted.status idx ≠ .waitToRecv := by
    decide
  refine ⟨fun client server request _ querying => ?_, fun server accepted client _ taken => ?_,
    fun idx sends => absurd sends (status idx).1,
    fun idx _ receives => absurd receives (status idx).2,
    fun before after client server content _ split => ?_⟩
  · exact absurd querying (not_querying_of_quiet rfl server request)
  · cases taken
  · simp at split

/-- Nobody is killed, nobody ends, and all messages are parts of queries. -/
def Undisturbed (system : System) : Act → Prop
  | .timer ttyIntr => ttyIntr = true → system.kernel.currPid < gpidUserStart
  | .tell _ _ | .heed _ | .exit | .free _ => False
  | _ => True

/-- Whether somebody is disturbed can be decided. -/
instance (system : System) : (act : Act) → Decidable (system.Undisturbed act)
  | .timer _ => by unfold Undisturbed; infer_instance
  | .tell _ _ | .heed _ | .exit | .free _ => isFalse not_false
  | .query _ _ | .await | .listen | .reply _ | .yield | .alloc | .setReady _ => isTrue trivial

/-- Steps in which nobody is disturbed are gentle to everybody. -/
theorem gentle_of_undisturbed {system : System} {act : Act}
    (undisturbed : system.Undisturbed act) : system.Gentle (fun _ => True) False act := by
  cases act with
  | timer ttyIntr =>
    intro killed high
    exact absurd (undisturbed killed) (Int.not_lt.mpr high)
  | tell receiver msg => exact undisturbed
  | heed sender => exact undisturbed
  | exit => exact undisturbed.elim
  | free pid => exact undisturbed.elim
  | _ => trivial

/-- In runs without kills and exits, every reply that a client gets is the one to its own latest
request, and no processes are blocked on each other in a circle. -/
theorem replies_match_and_no_deadlock {system : System} {history : List Exchange}
    (reached : Reaches Undisturbed system history) :
    (∀ before after client server content,
      history = before ++ .answered client server content :: after →
      ∃ request msg rest, Answering client server request msg before ∧
        content = Content.load rest msg) ∧
    ∀ process, ¬ Relation.TransGen system.BlockedOn process process := by
  -- Both parts are read off from the invariant of all reached states.
  have invariant : system.Standing ∧ system.Conversing (fun _ => True) False history := by
    refine reached.invariant
      (fun system history => system.Standing ∧ system.Conversing (fun _ => True) False history)
      ⟨booted_standing, booted_conversing _ _⟩ ?_
    intro state act next history shown holds taken
    obtain ⟨standing, conversing⟩ := holds
    obtain ⟨⟨allowed, undisturbed⟩, stepped⟩ := taken
    obtain ⟨still, middle, move, -, ended⟩ := standing.moves allowed stepped
    have going := move.conversing conversing standing (fun _ _ => trivial) allowed
      (gentle_of_undisturbed undisturbed)
    refine ⟨still, ?_⟩
    rcases ended with ⟨rfl, rfl⟩ | ⟨after, events, switched, rfl, rfl⟩
    · exact going
    · rw [← List.append_assoc]
      exact going.resumed switched
  exact ⟨fun before after client server content split =>
    invariant.2.matched before after client server content trivial split, invariant.2.acyclic⟩

/-- The client and the server of a last answer, with the first byte of the answer. -/
def lastAnswer : List Exchange → Option (Slot × Slot × UInt8)
  | .answered client server content :: _ => some (client, server, content[0])
  | _ => none

/-- The process server looks up a name, for which the directory server reads a file. -/
def lookup : List Act :=
  [.query dirSlot [1], .listen, .listen, .listen, .timer false, .await, .query fileSlot [2],
    .timer false, .reply [3], .await, .timer false, .listen, .reply [4], .timer false]

/-- The process server gets the reply that was computed for its lookup. -/
theorem replies_match_lookup : ∃ system before content,
    Reaches Undisturbed system (before ++ [.answered processSlot dirSlot content]) ∧
    (∃ request msg rest, Answering processSlot dirSlot request msg before ∧
      content = Content.load rest msg) ∧
    ∀ process, ¬ Relation.TransGen system.BlockedOn process process := by
  -- The last event of the run is the reply, so that everything before it is its past.
  have looked : (follow (fun system act => system.Allowed act ∧ system.Undisturbed act) step
      booted lookup).map (fun reached => lastAnswer reached.2.reverse) =
      some (some (processSlot, dirSlot, 4)) := by
    decide +kernel
  obtain ⟨⟨system, history⟩, followed, last⟩ := Option.map_eq_some_iff.mp looked
  have reached : Reaches Undisturbed system history := run_of_follow .start followed
  simp only [lastAnswer] at last
  split at last
  · rename_i client server content rest reversed
    simp only [Option.some.injEq, Prod.mk.injEq] at last
    obtain ⟨rfl, rfl, -⟩ := last
    have split : history = rest.reverse ++ [.answered processSlot dirSlot content] := by
      rw [← List.reverse_reverse history, reversed, List.reverse_cons]
    subst split
    obtain ⟨replies, circles⟩ := replies_match_and_no_deadlock reached
    exact ⟨system, rest.reverse, content, reached, replies _ [] _ _ _ rfl, circles⟩
  · cases last

end System

end Egos.Apps
