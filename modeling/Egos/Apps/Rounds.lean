import Egos.Apps.Queries

/-! How requests and replies move the queries of safe clients from one state to the next. -/

namespace Egos.Apps

open Egos.Grass

namespace System

variable {system next : System} {client server idx : Slot} {request : Content} {act : Act}
variable {history : List Exchange} {safe : Slot → Prop} {chats : Prop}

/-- No process asks itself. -/
theorem query_ne_curr {msg : List UInt8} (allowed : system.Allowed (.query idx msg)) :
    idx ≠ system.curr := by
  intro same
  obtain ⟨-, -, isServer, asker⟩ := allowed
  rcases asker with client | ⟨isDir, isFile, -⟩
  · exact client (same ▸ isServer)
  · rw [isDir, isFile] at same
    cases same

/-- Only the directory server is both a server and a client. -/
theorem query_asker {msg : List UInt8} (allowed : system.Allowed (.query idx msg))
    (isServer : serves system.curr) : system.curr = dirSlot ∧ idx = fileSlot := by
  rcases allowed.2.2.2 with client | ⟨isDir, isFile, -⟩
  · exact absurd isServer client
  · exact ⟨isDir, isFile⟩

/-- A request is an exchange of its client. -/
theorem concerns_query {msg : List UInt8} (different : client ≠ system.curr) :
    ∀ exchange ∈ system.announces (.query idx msg), exchange.concerns client = false := by
  simp [announces, Exchange.concerns, Ne.symm different]

/-- A request that blocks its client waits for the server to take it. -/
theorem Conversing.queryBlocked (conversing : system.Conversing safe chats history)
    {msg : List UInt8} (allowed : system.Allowed (.query idx msg)) :
    (system.sendBlocked (.query idx msg) idx msg).Conversing safe chats
      (history ++ system.announces (.query idx msg)) := by
  have talk : (system.thread system.curr).talk = .quiet := allowed.1
  have apart := query_ne_curr allowed
  have engaged : (system.sendBlocked (.query idx msg) idx msg).engaged system.curr =
      system.engaged system.curr := by
    simp [System.engaged, issue, talk]
  refine conversing.step (fun client server request isSafe querying => ?_)
    (fun server accepted client _ taken _ _ => Or.inl ⟨?_, fun querying => ?_⟩)
    (fun other _ => ?_) (conversing.matched.append_one (by simp))
  · by_cases here : client = system.curr
    · subst here
      refine Or.inr ?_
      obtain ⟨rfl, rfl⟩ : idx = server ∧ system.content msg = request := by
        simpa [Querying, issue] using querying
      refine ⟨allowed.2.2.1, query_asker allowed, .sent ?_ (by simp) (by simp) ?_ ?_
        asked_append⟩
      · simp [issue]
      · simp [Kernel.outgoing, content]
      · -- A quiet program has no request in the hands of a server.
        intro other
        rw [engages_congr (untouched_sendBlocked apart).engaged]
        exact conversing.unserved allowed.2.2.1 isSafe (not_querying_of_quiet talk) other
    · have untouched : Untouched system (system.sendBlocked (.query idx msg) idx msg) client :=
        untouched_sendBlocked here
      rw [querying_congr untouched.thread] at querying
      refine Or.inl ⟨querying, untouched.kept, ?_, concerns_query here⟩
      by_cases acting : server = system.curr
      · subst acting
        exact goes_of_working engaged (by simp [talk]) (by simp [issue]) client
      · exact (untouched_sendBlocked acting).goes client
  · by_cases acting : server = system.curr
    · subst acting
      rwa [engaged] at taken
    · rwa [(untouched_sendBlocked acting).engaged] at taken
  · have different : client ≠ system.curr := by
      intro same
      subst same
      exact not_querying_of_quiet talk _ _ querying
    rwa [querying_congr (untouched_sendBlocked different).thread]
  · by_cases here : other = system.curr
    · subst here
      refine Or.inr ⟨fun _ => Or.inl ⟨idx, system.content msg, by simp [issue], allowed.2.2.1,
        by simp⟩, ?_⟩
      intro receives
      rw [sendBlocked_status] at receives
      cases receives
    · exact Or.inl (untouched_sendBlocked here)

/-- A request that is delivered is in the hands of the server. -/
theorem Conversing.queryDelivered (conversing : system.Conversing safe chats history)
    (permanents : ∀ idx, permanent idx → safe idx) (formed : WellFormed system.kernel)
    {msg : List UInt8}
    (allowed : system.Allowed (.query idx msg))
    (awaits : system.kernel.awaits idx system.kernel.currPid) :
    (system.sendDelivered (.query idx msg) idx msg).Conversing safe chats
      (history ++ system.announces (.query idx msg)) := by
  have talk : (system.thread system.curr).talk = .quiet := allowed.1
  have apart := query_ne_curr allowed
  have waits : system.status idx = .waitToRecv := awaits.1
  -- The receiver is at the top of its main loop, as no server waits for a client.
  have listens : (system.thread idx).talk = .listening := by
    have isSafe : safe idx := permanents idx (permanent_of_serves allowed.2.2.1)
    rcases conversing.receivers idx isSafe waits with
      ⟨listens, -⟩ | ⟨other, request, waiting⟩ | ⟨-, isShell, -⟩
    · exact listens
    · obtain ⟨isServer, asker, round⟩ :=
        conversing.clients idx other request isSafe (Or.inr waiting)
      obtain ⟨isDir, isFile⟩ := asker allowed.2.2.1
      cases round with
      | sent talk _ _ _ _ _ =>
        rw [waiting] at talk
        cases talk
      | replied _ talk _ _ _ _ _ _ =>
        rw [waiting] at talk
        cases talk
      | delivered _ active _ _ _ =>
        rw [waits] at active
        cases active
      | served _ _ served _ =>
        rcases served with ⟨asked, -⟩ | ⟨-, -, expected⟩
        · rw [waiting] at asked
          cases asked
        · rcases awaits.2 with named | any
          · -- The directory server waits for the file server, which asks nobody.
            rw [expected, formed.curr, idx2pid_inj] at named
            have own : other = system.curr := named
            rw [own] at isServer
            have asks := (query_asker allowed isServer).2
            rw [isDir] at asks
            cases asks
          · rw [expected] at any
            have := idx2pid_bounds other
            omega
    · have isServer := allowed.2.2.1
      rw [isShell] at isServer
      cases isServer
  have idle : system.engaged idx = none := by
    simp [System.engaged, listens, waits, Status.active]
  have thread : (system.sendDelivered (.query idx msg) idx msg).thread idx = system.thread idx :=
    sendDelivered_thread_idx apart
  have status : (system.sendDelivered (.query idx msg) idx msg).status system.curr =
      system.status system.curr := sendDelivered_status apart
  have takes : (system.sendDelivered (.query idx msg) idx msg).engaged idx =
      some ⟨idx2pid system.curr, system.content msg, system.birth system.curr⟩ := by
    simp [System.engaged, thread, listens, Status.active, Kernel.outgoing, content, formed.curr]
  have engaged : (system.sendDelivered (.query idx msg) idx msg).engaged system.curr =
      system.engaged system.curr := by
    simp [System.engaged, issue, talk]
  refine conversing.step (fun client server request _ querying => ?_)
    (fun server accepted client _ taken _ named => ?_) (fun other blocked => Or.inl ?_)
    (conversing.matched.append_one (by simp))
  · by_cases here : client = system.curr
    · subst here
      refine Or.inr ?_
      obtain ⟨rfl, rfl⟩ : idx = server ∧ system.content msg = request := by
        simpa [Querying, issue] using querying
      refine ⟨allowed.2.2.1, query_asker allowed, .served ⟨_, takes, rfl, rfl⟩ ?_
        (Or.inl ⟨?_, ?_⟩) asked_append⟩
      · simp [thread, listens]
      · simp [issue]
      · rw [status]
        exact formed.active
    · have different : client ≠ idx := by
        intro same
        subst same
        simp [Querying, thread, listens] at querying
      have untouched : Untouched system (system.sendDelivered (.query idx msg) idx msg) client :=
        untouched_sendDelivered here different
      rw [querying_congr untouched.thread] at querying
      refine Or.inl ⟨querying, untouched.kept, ?_, concerns_query here⟩
      by_cases acting : server = system.curr
      · subst acting
        exact goes_of_working engaged (by simp [talk]) (by simp [issue]) client
      · by_cases taking : server = idx
        · subst taking
          exact goes_of_unserved (not_engages_of_none idle client)
            (not_engages_of_client takes rfl here)
        · exact (untouched_sendDelivered acting taking).goes client
  · by_cases taking : server = idx
    · subst taking
      rw [takes, Option.some.injEq] at taken
      subst taken
      rw [idx2pid_inj] at named
      subst named
      exact Or.inr (Or.inl (by simp [issue]))
    · refine Or.inl ⟨?_, fun querying => ?_⟩
      · by_cases acting : server = system.curr
        · subst acting
          rwa [engaged] at taken
        · rwa [(untouched_sendDelivered acting taking).engaged] at taken
      · have here : client ≠ system.curr := by
          intro same
          subst same
          exact not_querying_of_quiet talk _ _ querying
        have different : client ≠ idx := by
          intro same
          subst same
          simp [Querying, listens] at querying
        rwa [querying_congr (untouched_sendDelivered here different).thread]
  · have different : other ≠ idx := by
      intro same
      subst same
      simp at blocked
    have here : other ≠ system.curr := by
      intro same
      subst same
      rw [status] at blocked
      rcases blocked with sends | receives
      · exact formed.not_waitToSend sends
      · exact formed.not_waitToRecv receives
    exact untouched_sendDelivered here different

/-- The client of a server that is about to reply has asked, and may already wait. -/
theorem Conversing.client_of_reply (conversing : system.Conversing safe chats history)
    {msg : List UInt8} {accepted : Accepted} (allowed : system.Allowed (.reply msg))
    (isSafe : safe idx) (held : system.currThread.hold = some accepted)
    (named : accepted.client = idx2pid idx) :
    idx ≠ system.curr ∧ Asked idx system.curr accepted.request history ∧
      ((system.thread idx).talk = .asked system.curr accepted.request ∧
          (system.status idx).active ∨
        (system.thread idx).talk = .waiting system.curr accepted.request ∧
          system.status idx = .waitToRecv ∧
          (system.kernel.procSet idx).fromSenderPid = idx2pid system.curr) := by
  -- The request in hand is that of its client, whose round has not been answered yet.
  have talk : (system.thread system.curr).talk = .quiet := allowed.1
  have engaged : system.engaged system.curr = some accepted := by
    rw [engaged_quiet talk]
    exact held
  have engages : system.Engages system.curr idx accepted.request := ⟨_, engaged, named, rfl⟩
  have querying :=
    conversing.servers system.curr accepted idx allowed.2.2.1 engaged isSafe named
  have apart : idx ≠ system.curr := by
    intro same
    rw [same] at querying
    exact not_querying_of_quiet talk _ _ querying
  refine ⟨apart, ?_⟩
  obtain ⟨-, -, round⟩ := conversing.clients idx system.curr accepted.request isSafe querying
  cases round with
  | sent _ _ _ _ unserved _ => exact absurd engages (unserved _)
  | served _ _ waits asked => exact ⟨asked, waits⟩
  | replied _ _ _ done _ _ _ _ =>
    rw [talk] at done
    cases done
  | delivered _ _ _ unserved _ => exact absurd engages (unserved _)

/-- A reply is an exchange of its client. -/
theorem concerns_reply {msg : List UInt8} (different : client ≠ idx) :
    ∀ exchange ∈ [Exchange.replied server (idx2pid idx) request msg],
      exchange.concerns client = false := by
  simp [Exchange.concerns, Ne.symm different]

/-- A server that replies shows the reply to the request it holds. -/
theorem announces_reply {msg : List UInt8} {accepted : Accepted}
    (held : system.currThread.hold = some accepted) (named : accepted.client = idx2pid idx) :
    system.announces (.reply msg) =
      [.replied system.curr (idx2pid idx) accepted.request msg] := by
  simp [announces, held, named]

/-- A server that is about to reply is engaged in the request it holds. -/
theorem engaged_reply {msg : List UInt8} {accepted : Accepted}
    (allowed : system.Allowed (.reply msg)) (held : system.currThread.hold = some accepted) :
    system.engaged system.curr = some accepted :=
  (engaged_quiet allowed.1).trans held

/-- A server does not reply to itself. -/
theorem Conversing.reply_ne_curr (conversing : system.Conversing safe chats history)
    (permanents : ∀ idx, permanent idx → safe idx) {msg : List UInt8} {accepted : Accepted}
    (allowed : system.Allowed (.reply msg)) (held : system.currThread.hold = some accepted)
    (named : accepted.client = idx2pid idx) : idx ≠ system.curr := by
  intro same
  have isSafe : safe idx := by
    rw [same]
    exact permanents _ (permanent_of_serves allowed.2.2.1)
  exact (conversing.client_of_reply allowed isSafe held named).1 same

/-- A reply that blocks its server waits for the client to take it. -/
theorem Conversing.replyBlocked (conversing : system.Conversing safe chats history)
    (permanents : ∀ idx, permanent idx → safe idx) (formed : WellFormed system.kernel)
    {msg : List UInt8} {accepted : Accepted}
    (allowed : system.Allowed (.reply msg)) (held : system.currThread.hold = some accepted)
    (named : accepted.client = idx2pid idx)
    (busy : ¬ system.kernel.awaits idx system.kernel.currPid) :
    (system.sendBlocked (.reply msg) idx msg).Conversing safe chats
      (history ++ system.announces (.reply msg)) := by
  have talk : (system.thread system.curr).talk = .quiet := allowed.1
  have engaged := engaged_reply allowed held
  have apart := conversing.reply_ne_curr permanents allowed held named
  have still : (system.sendBlocked (.reply msg) idx msg).engaged system.curr = some accepted := by
    simpa [System.engaged, issue] using held
  have content : ((system.sendBlocked (.reply msg) idx msg).kernel.page system.curr).msg.content =
      Content.load (system.kernel.page system.curr).msg.content msg := by
    simp [Kernel.outgoing]
  rw [announces_reply held named]
  refine conversing.step (fun other server request isSafe querying => ?_)
    (fun server taken other _ engages _ _ => Or.inl ⟨?_, fun querying => ?_⟩)
    (fun other _ => ?_) (conversing.matched.append_one (by simp))
  · have different : other ≠ system.curr := by
      intro same
      subst same
      simp [Querying, issue] at querying
    have untouched : Untouched system (system.sendBlocked (.reply msg) idx msg) other :=
      untouched_sendBlocked different
    rw [querying_congr untouched.thread] at querying
    by_cases owner : other = idx
    · -- The reply to the client's own request is in the page of the server.
      subst owner
      refine Or.inr ?_
      obtain ⟨-, asked, waits⟩ := conversing.client_of_reply allowed isSafe held named
      obtain ⟨asks, active⟩ := waits.resolve_right fun waiting =>
        busy ⟨waiting.2.1, Or.inl (waiting.2.2.trans formed.curr.symm)⟩
      obtain ⟨isServer, asker, -⟩ := conversing.clients other server request isSafe querying
      obtain ⟨rfl, rfl⟩ := querying.inj (Or.inl asks)
      refine ⟨isServer, asker, .replied ⟨accepted, still, named, rfl⟩ ?_ ?_ ?_
        (by simp) (by simp) content asked.replied⟩
      · rw [untouched.thread]
        exact asks
      · rw [untouched.status]
        exact active
      · simp [issue]
    · refine Or.inl ⟨querying, untouched.kept, ?_, concerns_reply owner⟩
      by_cases acting : server = system.curr
      · subst acting
        exact goes_of_unserved (not_engages_of_client engaged named owner)
          (not_engages_of_client still named owner)
      · exact (untouched_sendBlocked acting).goes other
  · by_cases acting : server = system.curr
    · subst acting
      rwa [still, ← engaged] at engages
    · rwa [(untouched_sendBlocked acting).engaged] at engages
  · have different : other ≠ system.curr := by
      intro same
      subst same
      exact not_querying_of_quiet talk _ _ querying
    rwa [querying_congr (untouched_sendBlocked different).thread]
  · by_cases here : other = system.curr
    · subst here
      refine Or.inr ⟨fun _ => Or.inr (Or.inl
        ⟨allowed.2.2.1, by simp [issue], accepted, ?_, ?_⟩), ?_⟩
      · simpa [issue] using held
      · simpa using named.symm
      · intro receives
        rw [sendBlocked_status] at receives
        cases receives
    · exact Or.inl (untouched_sendBlocked here)

/-- A reply that is delivered is in the page of the client. -/
theorem Conversing.replyDelivered (conversing : system.Conversing safe chats history)
    (permanents : ∀ idx, permanent idx → safe idx) (formed : WellFormed system.kernel)
    {msg : List UInt8} {accepted : Accepted}
    (allowed : system.Allowed (.reply msg)) (held : system.currThread.hold = some accepted)
    (named : accepted.client = idx2pid idx)
    (awaits : system.kernel.awaits idx system.kernel.currPid) :
    (system.sendDelivered (.reply msg) idx msg).Conversing safe chats
      (history ++ system.announces (.reply msg)) := by
  have talk : (system.thread system.curr).talk = .quiet := allowed.1
  have engaged := engaged_reply allowed held
  have apart := conversing.reply_ne_curr permanents allowed held named
  have receives : system.status idx = .waitToRecv := awaits.1
  have asked : safe idx → Asked idx system.curr accepted.request history ∧
      (system.thread idx).talk = .waiting system.curr accepted.request := by
    intro isSafe
    obtain ⟨-, asked, waits⟩ := conversing.client_of_reply allowed isSafe held named
    obtain ⟨waiting, -⟩ := waits.resolve_left fun ⟨_, active⟩ => by
      rw [receives] at active
      cases active
    exact ⟨asked, waiting⟩
  have status : (system.sendDelivered (.reply msg) idx msg).status system.curr =
      system.status system.curr := sendDelivered_status apart
  have thread : (system.sendDelivered (.reply msg) idx msg).thread idx = system.thread idx :=
    sendDelivered_thread_idx apart
  have free : (system.sendDelivered (.reply msg) idx msg).engaged system.curr = none := by
    have awake : system.status system.curr ≠ .waitToSend := formed.not_waitToSend
    simp [System.engaged, issue, status, awake]
  have content : ((system.sendDelivered (.reply msg) idx msg).kernel.page idx).msg.content =
      Content.load (system.kernel.page system.curr).msg.content msg := by
    simp [Kernel.outgoing]
  have still : serves idx → (system.thread idx).talk ≠ .replied ∧
      (system.sendDelivered (.reply msg) idx msg).engaged idx = system.engaged idx := by
    intro isServer
    obtain ⟨-, waiting⟩ := asked (permanents idx (permanent_of_serves isServer))
    simp [System.engaged, thread, waiting]
  rw [announces_reply held named]
  refine conversing.step (fun other server request isSafe querying => ?_)
    (fun server taken other isServer engages _ _ => Or.inl ⟨?_, fun querying => ?_⟩)
    (fun other blocked => Or.inl ?_) (conversing.matched.append_one (by simp))
  · have different : other ≠ system.curr := by
      intro same
      subst same
      simp [Querying, issue] at querying
    by_cases owner : other = idx
    · subst owner
      refine Or.inr ?_
      rw [querying_congr thread] at querying
      obtain ⟨asked, waiting⟩ := asked isSafe
      obtain ⟨isServer, asker, -⟩ := conversing.clients other server request isSafe querying
      obtain ⟨rfl, rfl⟩ := querying.inj (Or.inr waiting)
      refine ⟨isServer, asker, .delivered ?_ ?_ content (not_engages_of_none free other)
        asked.replied⟩
      · rw [thread]
        exact waiting
      · simp [Status.active]
    · have untouched : Untouched system (system.sendDelivered (.reply msg) idx msg) other :=
        untouched_sendDelivered different owner
      rw [querying_congr untouched.thread] at querying
      refine Or.inl ⟨querying, untouched.kept, ?_, concerns_reply owner⟩
      by_cases acting : server = system.curr
      · subst acting
        exact goes_of_unserved (not_engages_of_client engaged named owner)
          (not_engages_of_none free other)
      · by_cases taking : server = idx
        · -- The directory server gets the reply of the file server and works on.
          subst taking
          have isServer := (conversing.clients other server request isSafe querying).1
          obtain ⟨working, same⟩ := still isServer
          exact goes_of_working same working (by rwa [thread]) other
        · exact (untouched_sendDelivered acting taking).goes other
  · have acting : server ≠ system.curr := by
      intro same
      subst same
      rw [free] at engages
      cases engages
    by_cases taking : server = idx
    · subst taking
      rwa [(still isServer).2] at engages
    · rwa [(untouched_sendDelivered acting taking).engaged] at engages
  · have different : other ≠ system.curr := by
      intro same
      subst same
      exact not_querying_of_quiet talk _ _ querying
    by_cases owner : other = idx
    · subst owner
      rwa [querying_congr thread]
    · rwa [querying_congr (untouched_sendDelivered different owner).thread]
  · have different : other ≠ idx := by
      intro same
      subst same
      simp at blocked
    have here : other ≠ system.curr := by
      intro same
      subst same
      rw [status] at blocked
      rcases blocked with sends | receives
      · exact formed.not_waitToSend sends
      · exact formed.not_waitToRecv receives
    exact untouched_sendDelivered here different

/-- The queries of all programs survive when one of them goes from asking to waiting. -/
theorem querying_awaits {other : Slot} (talk : (system.thread client).talk = .asked server request)
    (waits : (next.thread client).talk = .waiting server request)
    (others : ∀ idx, idx ≠ client → (next.thread idx).talk = (system.thread idx).talk)
    {owner : Slot} {content : Content} (querying : system.Querying owner other content) :
    next.Querying owner other content := by
  by_cases same : owner = client
  · subst same
    obtain ⟨rfl, rfl⟩ := querying.inj (Or.inl talk)
    exact Or.inr waits
  · simpa only [Querying, others owner same] using querying

/-- A client that waits for a reply finds its request in the hands of the server. -/
theorem Conversing.awaitBlocked (conversing : system.Conversing safe chats history)
    (formed : WellFormed system.kernel)
    (talk : (system.thread system.curr).talk = .asked server request)
    (nobody : ∀ i, system.kernel.offers i system.kernel.currPid →
      idx2pid server ≠ 0 ∧ idx2pid server ≠ idx2pid i) :
    (system.recvBlocked .await (idx2pid server)).Conversing safe chats
      (history ++ []) := by
  have querying : system.Querying system.curr server request := Or.inl talk
  have thread : (system.recvBlocked .await (idx2pid server)).thread system.curr =
      { system.currThread with talk := .waiting server request } := by
    simp [issue, talk]
  -- A server that had replied would be blocked on the current process.
  have served : safe system.curr → system.Engages server system.curr request ∧
      (system.thread server).talk ≠ .replied ∧ Asked system.curr server request history := by
    intro isSafe
    have active : (system.status system.curr).active = true := formed.active
    obtain ⟨-, -, round⟩ := conversing.clients system.curr server request isSafe querying
    cases round with
    | sent _ status _ _ _ _ =>
      rw [status] at active
      cases active
    | served engages working _ asked => exact ⟨engages, working, asked⟩
    | replied _ _ _ _ status receiver _ _ =>
      have offers : system.kernel.offers server system.kernel.currPid := by
        simp only [Kernel.offers, decide_eq_true_eq]
        exact ⟨status, receiver.trans formed.curr.symm⟩
      exact absurd rfl (nobody server offers).2
    | delivered waiting _ _ _ _ =>
      rw [talk] at waiting
      cases waiting
  have engaged : (system.recvBlocked .await (idx2pid server)).engaged system.curr =
      system.engaged system.curr := by
    simp [System.engaged, issue, talk]
  refine conversing.step (fun other chosen content isSafe asks => ?_)
    (fun chosen accepted other _ taken _ _ => Or.inl ⟨?_, fun asks => ?_⟩)
    (fun other _ => ?_) conversing.matched_nil
  · by_cases here : other = system.curr
    · subst here
      refine Or.inr ?_
      obtain ⟨rfl, rfl⟩ : server = chosen ∧ request = content := by
        simpa [Querying, thread] using asks
      obtain ⟨engages, working, asked⟩ := served isSafe
      obtain ⟨isServer, asker, -⟩ :=
        conversing.clients system.curr server request isSafe querying
      have untouched : Untouched system (system.recvBlocked .await (idx2pid server)) server :=
        untouched_recvBlocked (conversing.server_ne isSafe querying)
      refine ⟨isServer, asker, .served ?_ ?_ (Or.inr ⟨?_, by simp, by simp⟩)
        (asked.append concerns_nil)⟩
      · rwa [engages_congr untouched.engaged]
      · rwa [untouched.thread]
      · rw [thread]
    · have untouched : Untouched system (system.recvBlocked .await (idx2pid server)) other :=
        untouched_recvBlocked here
      rw [querying_congr untouched.thread] at asks
      refine Or.inl ⟨asks, untouched.kept, ?_, concerns_nil⟩
      by_cases acting : chosen = system.curr
      · subst acting
        exact goes_of_working engaged (by simp [talk]) (by simp [issue, talk]) other
      · exact (untouched_recvBlocked acting).goes other
  · by_cases acting : chosen = system.curr
    · subst acting
      rwa [engaged] at taken
    · rwa [(untouched_recvBlocked acting).engaged] at taken
  · exact querying_awaits talk (congrArg Thread.talk thread)
      (fun idx different => congrArg Thread.talk (untouched_recvBlocked different).thread) asks
  · by_cases here : other = system.curr
    · subst here
      refine Or.inr ⟨fun sends => ?_,
        fun _ => Or.inr (Or.inl ⟨server, request, by rw [thread]⟩)⟩
      rw [recvBlocked_status] at sends
      cases sends
    · exact Or.inl (untouched_recvBlocked here)

/-- A program at the top of a main loop works for nobody and is in no query. -/
theorem listen_free (formed : WellFormed system.kernel) (allowed : system.Allowed .listen) :
    (serves system.curr → system.engaged system.curr = none) ∧
      ∀ server request, ¬ system.Querying system.curr server request := by
  have awake : system.status system.curr ≠ .waitToSend := formed.not_waitToSend
  rcases allowed with ⟨-, talk | ⟨talk, held⟩⟩ | ⟨isProcess, talk⟩
  · refine ⟨fun _ => by simp [System.engaged, talk, awake], fun server request querying => ?_⟩
    simp [Querying, talk] at querying
  · exact ⟨fun _ => (engaged_quiet talk).trans held, not_querying_of_quiet talk⟩
  · refine ⟨fun isServer => ?_, not_querying_of_quiet talk⟩
    rw [isProcess] at isServer
    cases isServer

/-- A server that waits for its next request works for nobody. -/
theorem Conversing.listenBlocked (conversing : system.Conversing safe chats history)
    (formed : WellFormed system.kernel) (allowed : system.Allowed .listen) :
    (system.recvBlocked .listen 0).Conversing safe chats (history ++ []) := by
  -- Only the slot of the server changes, and it has no request in hand.
  obtain ⟨idle, free⟩ := listen_free formed allowed
  have none : (system.recvBlocked .listen 0).engaged system.curr = none := by
    simp [System.engaged, issue, Status.active]
  refine conversing.step (fun client server request isSafe querying => Or.inl ?_)
    (fun server accepted client _ taken _ _ => Or.inl ⟨?_, fun querying => ?_⟩)
    (fun other _ => ?_) conversing.matched_nil
  · have here : client ≠ system.curr := by
      intro same
      subst same
      simp [Querying, issue] at querying
    have untouched : Untouched system (system.recvBlocked .listen 0) client :=
      untouched_recvBlocked here
    rw [querying_congr untouched.thread] at querying
    refine ⟨querying, untouched.kept, ?_, concerns_nil⟩
    by_cases acting : server = system.curr
    · subst acting
      have isServer := (conversing.clients client system.curr request isSafe querying).1
      exact goes_of_unserved (not_engages_of_none (idle isServer) client)
        (not_engages_of_none none client)
    · exact (untouched_recvBlocked acting).goes client
  · by_cases acting : server = system.curr
    · subst acting
      rw [none] at taken
      cases taken
    · rwa [(untouched_recvBlocked acting).engaged] at taken
  · have here : client ≠ system.curr := by
      intro same
      subst same
      exact free _ _ querying
    rwa [querying_congr (untouched_recvBlocked here).thread]
  · by_cases here : other = system.curr
    · subst here
      refine Or.inr ⟨fun sends => ?_, fun _ => Or.inl ⟨by simp [issue], by simp⟩⟩
      rw [recvBlocked_status] at sends
      cases sends
    · exact Or.inl (untouched_recvBlocked here)

/-- A sender that is blocked on a process has asked it, replies to it or chats with it. -/
theorem Conversing.offers_cases (conversing : system.Conversing safe chats history)
    (offers : system.kernel.offers idx (idx2pid client)) :
    (∃ request, (system.thread idx).talk = .asked client request ∧ serves client ∧
      (safe idx → (system.kernel.page idx).msg.content = request ∧
        (serves idx → idx = dirSlot ∧ client = fileSlot) ∧ Asked idx client request history)) ∨
    (∃ accepted, serves idx ∧ (system.thread idx).talk = .replied ∧
      system.engaged idx = some accepted ∧ accepted.client = idx2pid client ∧
      (safe client → system.Querying client idx accepted.request)) ∨
    (chats ∧ ¬ serves idx ∧
      ((system.thread idx).talk = .quiet ∨ (system.thread idx).talk = .leaving) ∧
      (client = processSlot ∨ client = shellSlot)) := by
  -- The talk of a blocked sender decides to whom its message goes.
  have waits : system.status idx = .waitToSend := (of_decide_eq_true offers).1
  have receiver : (system.kernel.procSet idx).toReceiverPid = idx2pid client :=
    (of_decide_eq_true offers).2
  rcases conversing.senders idx waits with
    ⟨server, request, talk, isServer, named⟩ | ⟨isServer, talk, accepted, held, named⟩ |
      ⟨chatting, isClient, talk, other, target, named⟩
  · rw [receiver, idx2pid_inj] at named
    subst named
    refine Or.inl ⟨request, talk, isServer, fun isSafe => ?_⟩
    obtain ⟨-, asker, round⟩ := conversing.clients idx client request isSafe (Or.inl talk)
    have inactive : ¬ (system.status idx).active := by
      rw [waits]
      decide
    cases round with
    | sent _ _ _ content _ asked => exact ⟨content, asker, asked⟩
    | served _ _ served _ =>
      rcases served with ⟨-, active⟩ | ⟨waiting, -⟩
      · exact absurd active inactive
      · rw [talk] at waiting
        cases waiting
    | replied _ _ active _ _ _ _ _ => exact absurd active inactive
    | delivered _ active _ _ _ => exact absurd active inactive
  · have taken : system.engaged idx = some accepted := by
      simpa [System.engaged, talk, waits] using held
    have isClient : accepted.client = idx2pid client := named.symm.trans receiver
    exact Or.inr (Or.inl ⟨accepted, isServer, talk, taken, isClient,
      fun isSafe => conversing.servers idx accepted client isServer taken isSafe isClient⟩)
  · rw [receiver, idx2pid_inj] at named
    subst named
    exact Or.inr (Or.inr ⟨chatting, isClient, talk, target⟩)

/-- The process server and the shell are system processes and no servers of queries. -/
theorem chat_partner (target : idx = processSlot ∨ idx = shellSlot) :
    permanent idx ∧ ¬ serves idx := by
  rcases target with rfl | rfl <;> decide

/-- Who is blocked on a process that has asked it replies to it. -/
theorem Conversing.replied_of_offers (conversing : system.Conversing safe chats history)
    (permanents : ∀ idx, permanent idx → safe idx)
    (talk : (system.thread client).talk = .asked server request)
    (offers : system.kernel.offers server (idx2pid client)) :
    ∃ accepted, (system.thread server).talk = .replied ∧
      system.engaged server = some accepted ∧ accepted.client = idx2pid client := by
  rcases conversing.offers_cases offers with
    ⟨content, -, isClient, asks⟩ | ⟨accepted, -, done, taken, named, -⟩ | ⟨-, other, -, target⟩
  · -- A process that is asked and asks is the directory server, which the file server never asks.
    have isSafe := permanents client (permanent_of_serves isClient)
    obtain ⟨isServer, asker, -⟩ := conversing.clients client server request isSafe (Or.inl talk)
    obtain ⟨-, again, -⟩ := asks (permanents server (permanent_of_serves isServer))
    have isDir := (again isServer).1
    have isFile := (asker isClient).2
    rw [isFile] at isDir
    cases isDir
  · exact ⟨accepted, done, taken, named⟩
  · have isSafe := permanents client (chat_partner target).1
    have isServer := (conversing.clients client server request isSafe (Or.inl talk)).1
    exact absurd isServer other

/-- A client that takes a reply takes the one to its own request. -/
theorem Conversing.awaitTaken (conversing : system.Conversing safe chats history)
    (permanents : ∀ idx, permanent idx → safe idx) (formed : WellFormed system.kernel)
    (talk : (system.thread system.curr).talk = .asked server request)
    (offers : system.kernel.offers server system.kernel.currPid) :
    (system.recvTaken .await (idx2pid server) server).Conversing safe chats
      (history ++ []) := by
  -- The reply is in the hand of the server that the client has asked, so it is to its request.
  have querying : system.Querying system.curr server request := Or.inl talk
  have apart : server ≠ system.curr := formed.offers_ne offers
  rw [formed.curr] at offers
  obtain ⟨accepted, done, before, named⟩ :=
    conversing.replied_of_offers permanents talk offers
  have reply : safe system.curr → ∃ msg rest,
      (system.kernel.page server).msg.content = Content.load rest msg ∧
      Answering system.curr server request msg history := by
    intro isSafe
    obtain ⟨-, -, round⟩ := conversing.clients system.curr server request isSafe querying
    cases round with
    | sent _ status _ _ _ _ => exact absurd status formed.not_waitToSend
    | served _ working _ _ => exact absurd done working
    | replied _ _ _ _ _ _ content answering => exact ⟨_, _, content, answering⟩
    | delivered waiting _ _ _ _ =>
      rw [talk] at waiting
      cases waiting
  have thread : (system.recvTaken .await (idx2pid server) server).thread system.curr =
      { system.currThread with talk := .waiting server request } := by
    simp [issue, talk]
  have sender : (system.recvTaken .await (idx2pid server) server).thread server =
      system.thread server := recvTaken_thread_idx apart
  have status : (system.recvTaken .await (idx2pid server) server).status system.curr =
      system.status system.curr := recvTaken_status apart
  have free : (system.recvTaken .await (idx2pid server) server).engaged server = none := by
    simp [System.engaged, sender, done]
  have engaged : (system.recvTaken .await (idx2pid server) server).engaged system.curr =
      system.engaged system.curr := by
    simp [System.engaged, issue, talk]
  have untouched : ∀ idx, idx ≠ system.curr → idx ≠ server →
      Untouched system (system.recvTaken .await (idx2pid server) server) idx :=
    fun idx here different => untouched_recvTaken here different
  refine conversing.step (fun other chosen content isSafe asks => ?_)
    (fun chosen accepted other _ taken _ _ => Or.inl ⟨?_, fun asks => ?_⟩)
    (fun other blocked => Or.inl ?_) conversing.matched_nil
  · by_cases here : other = system.curr
    · subst here
      refine Or.inr ?_
      obtain ⟨rfl, rfl⟩ : server = chosen ∧ request = content := by
        simpa [Querying, thread] using asks
      obtain ⟨isServer, asker, -⟩ :=
        conversing.clients system.curr server request isSafe querying
      obtain ⟨msg, rest, content, answering⟩ := reply isSafe
      have page : ((system.recvTaken .await (idx2pid server) server).kernel.page
          system.curr).msg.content = Content.load rest msg := by
        rwa [recvTaken_msg]
      refine ⟨isServer, asker, .delivered ?_ ?_ page (not_engages_of_none free _)
        (answering.append concerns_nil)⟩
      · rw [thread]
      · rw [status]
        exact formed.active
    · have different : other ≠ server := by
        intro same
        subst same
        simp [Querying, sender, done] at asks
      rw [querying_congr (untouched other here different).thread] at asks
      refine Or.inl ⟨asks, (untouched other here different).kept, ?_, concerns_nil⟩
      by_cases acting : chosen = system.curr
      · subst acting
        exact goes_of_working engaged (by simp [talk]) (by simp [issue, talk]) other
      · by_cases replying : chosen = server
        · subst replying
          exact goes_of_unserved (not_engages_of_client before named here)
            (not_engages_of_none free other)
        · exact (untouched chosen acting replying).goes other
  · have replying : chosen ≠ server := by
      intro same
      subst same
      rw [free] at taken
      cases taken
    by_cases acting : chosen = system.curr
    · subst acting
      rwa [engaged] at taken
    · rwa [(untouched chosen acting replying).engaged] at taken
  · refine querying_awaits talk (congrArg Thread.talk thread) (fun idx here => ?_) asks
    by_cases same : idx = server
    · subst same
      rw [sender]
    · rw [(untouched idx here same).thread]
  · refine untouched other (fun same => ?_) fun same => ?_
    · subst same
      rw [status] at blocked
      rcases blocked with sends | receives
      · exact formed.not_waitToSend sends
      · exact formed.not_waitToRecv receives
    · subst same
      simp at blocked

/-- A server that takes a request has it in its hands. -/
theorem Conversing.listenTaken (conversing : system.Conversing safe chats history)
    (permanents : ∀ idx, permanent idx → safe idx) (formed : WellFormed system.kernel)
    (stamped : system.Stamped) (allowed : system.Allowed .listen)
    (offers : system.kernel.offers idx system.kernel.currPid) :
    (system.recvTaken .listen 0 idx).Conversing safe chats (history ++ []) := by
  obtain ⟨idle, free⟩ := listen_free formed allowed
  have waits : system.status idx = .waitToSend := (of_decide_eq_true offers).1
  have apart : idx ≠ system.curr := formed.offers_ne offers
  have stays : permanent system.curr := by
    rcases allowed with ⟨isServer, -⟩ | ⟨isProcess, -⟩
    · exact permanent_of_serves isServer
    · rw [isProcess]
      rfl
  rw [formed.curr] at offers
  have sender : (system.recvTaken .listen 0 idx).thread idx = system.thread idx :=
    recvTaken_thread_idx apart
  have status : (system.recvTaken .listen 0 idx).status system.curr =
      system.status system.curr := recvTaken_status apart
  have takes : (system.recvTaken .listen 0 idx).engaged system.curr =
      some ⟨idx2pid idx, (system.kernel.page idx).msg.content, system.birth idx⟩ := by
    have active : (system.status system.curr).active = true := formed.active
    simp [System.engaged, issue, status, active, stamped idx waits]
  -- No server replies to a program that is in no query, so the sender asks or chats.
  have asks : (∃ request, (system.thread idx).talk = .asked system.curr request ∧
      serves system.curr ∧ (safe idx → (system.kernel.page idx).msg.content = request ∧
        (serves idx → idx = dirSlot ∧ system.curr = fileSlot) ∧
        Asked idx system.curr request history)) ∨
      ¬ serves idx ∧ ¬ serves system.curr ∧
        ∀ server request, ¬ system.Querying idx server request := by
    rcases conversing.offers_cases offers with
      asked | ⟨accepted, -, -, -, -, querying⟩ | ⟨-, client, talk, target⟩
    · exact Or.inl asked
    · exact absurd (querying (permanents _ stays)) (free _ _)
    · refine Or.inr ⟨client, (chat_partner target).2, fun server request querying => ?_⟩
      rcases talk with quiet | leaving
      · exact not_querying_of_quiet quiet _ _ querying
      · simp [Querying, leaving] at querying
  have still : serves idx → (system.thread idx).talk ≠ .replied ∧
      (system.recvTaken .listen 0 idx).engaged idx = system.engaged idx := by
    intro isServer
    rcases asks with ⟨request, talk, -⟩ | ⟨client, -⟩
    · simp [System.engaged, sender, talk]
    · exact absurd isServer client
  have untouched : ∀ other, other ≠ system.curr → other ≠ idx →
      Untouched system (system.recvTaken .listen 0 idx) other :=
    fun other here different => untouched_recvTaken here different
  have same_thread : ∀ other, other ≠ system.curr →
      (system.recvTaken .listen 0 idx).thread other = system.thread other := by
    intro other here
    by_cases same : other = idx
    · subst same
      exact sender
    · exact (untouched other here same).thread
  refine conversing.step (fun client server asking isSafe querying => ?_)
    (fun server accepted client isServer taken isSafe named => ?_)
    (fun other blocked => Or.inl ?_) conversing.matched_nil
  · have here : client ≠ system.curr := by
      intro same
      subst same
      simp [Querying, issue] at querying
    rw [querying_congr (same_thread client here)] at querying
    by_cases owner : client = idx
    · subst owner
      refine Or.inr ?_
      rcases asks with ⟨request, talk, isServer, sent⟩ | ⟨-, -, silent⟩
      · obtain ⟨content, asker, asked⟩ := sent isSafe
        obtain ⟨rfl, rfl⟩ := querying.inj (Or.inl talk)
        refine ⟨isServer, asker, .served ⟨_, takes, rfl, content⟩ ?_ (Or.inl ⟨?_, ?_⟩)
          (asked.append concerns_nil)⟩
        · simp [issue]
        · rw [sender]
          exact talk
        · simp [Status.active]
      · exact absurd querying (silent _ _)
    · refine Or.inl ⟨querying, (untouched client here owner).kept, ?_, concerns_nil⟩
      have isServer := (conversing.clients client server asking isSafe querying).1
      by_cases acting : server = system.curr
      · subst acting
        exact goes_of_unserved (not_engages_of_none (idle isServer) client)
          (not_engages_of_client takes rfl owner)
      · by_cases asking : server = idx
        · -- The directory server has asked the file server and works on.
          subst asking
          obtain ⟨working, same⟩ := still isServer
          exact goes_of_working same working (by rwa [sender]) client
        · exact (untouched server acting asking).goes client
  · by_cases acting : server = system.curr
    · subst acting
      rw [takes, Option.some.injEq] at taken
      subst taken
      rw [idx2pid_inj] at named
      subst named
      refine Or.inr ?_
      rw [querying_congr sender]
      rcases asks with ⟨request, talk, -, sent⟩ | ⟨-, client, -⟩
      · rw [(sent isSafe).1]
        exact Or.inl talk
      · exact absurd isServer client
    · refine Or.inl ⟨?_, fun querying => ?_⟩
      · by_cases asking : server = idx
        · subst asking
          rwa [(still isServer).2] at taken
        · rwa [(untouched server acting asking).engaged] at taken
      · have here : client ≠ system.curr := by
          intro same
          subst same
          exact free _ _ querying
        rwa [querying_congr (same_thread client here)]
  · refine untouched other (fun same => ?_) fun same => ?_
    · subst same
      rw [status] at blocked
      rcases blocked with sends | receives
      · exact formed.not_waitToSend sends
      · exact formed.not_waitToRecv receives
    · subst same
      simp at blocked

end System

end Egos.Apps
