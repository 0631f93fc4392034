import Egos.Apps.Standing

/-! The state of every query between a client and a server, and what one step does to it. -/

namespace Egos.Apps

open Egos.Grass

section Rounds

/-- An exchange is a part of a client's queries. -/
def Exchange.concerns (client : Slot) : Exchange → Bool
  | .asked other _ _ => other = client
  | .replied _ other _ _ => other = idx2pid client
  | .answered other _ _ => other = client

/-- A client's last exchange is a request. -/
def Asked (client server : Slot) (request : Content) (history : List Exchange) : Prop :=
  ∃ first last, history = first ++ .asked client server request :: last ∧
    ∀ exchange ∈ last, exchange.concerns client = false

/-- A client's last two exchanges are a request and the server's reply to it. -/
def Answering (client server : Slot) (request : Content) (msg : List UInt8)
    (history : List Exchange) : Prop :=
  ∃ first last, history = first ++ .replied server (idx2pid client) request msg :: last ∧
    Asked client server request first ∧ ∀ exchange ∈ last, exchange.concerns client = false

/-- Every reply that a safe client got is the one to its own latest request. -/
def Matched (safe : Slot → Prop) (history : List Exchange) : Prop :=
  ∀ before after client server content, safe client →
    history = before ++ .answered client server content :: after →
    ∃ request msg rest, Answering client server request msg before ∧
      content = Content.load rest msg

variable {safe : Slot → Prop} {client server : Slot} {request : Content} {msg : List UInt8}
variable {history events : List Exchange}

/-- A request stays the last exchange while others talk. -/
theorem Asked.append (asked : Asked client server request history)
    (others : ∀ exchange ∈ events, exchange.concerns client = false) :
    Asked client server request (history ++ events) := by
  -- The exchanges of others come after the request.
  obtain ⟨first, last, rfl, quiet⟩ := asked
  refine ⟨first, last ++ events, by simp, fun exchange among => ?_⟩
  rcases List.mem_append.mp among with early | late
  · exact quiet exchange early
  · exact others exchange late

/-- A reply stays the last exchange while others talk. -/
theorem Answering.append (answering : Answering client server request msg history)
    (others : ∀ exchange ∈ events, exchange.concerns client = false) :
    Answering client server request msg (history ++ events) := by
  obtain ⟨first, last, rfl, asked, quiet⟩ := answering
  refine ⟨first, last ++ events, by simp, asked, fun exchange among => ?_⟩
  rcases List.mem_append.mp among with early | late
  · exact quiet exchange early
  · exact others exchange late

/-- Issuing a request makes it the client's last exchange. -/
theorem asked_append : Asked client server request (history ++ [.asked client server request]) :=
  ⟨history, [], rfl, fun _ among => absurd among List.not_mem_nil⟩

/-- Replying to a request makes the reply the client's last exchange. -/
theorem Asked.replied (asked : Asked client server request history) :
    Answering client server request msg
      (history ++ [.replied server (idx2pid client) request msg]) :=
  ⟨history, [], rfl, asked, fun _ among => absurd among List.not_mem_nil⟩

/-- The splits of an extended list are those of the list and the one at its end. -/
theorem append_singleton_split {α : Type} {list before after : List α} {last middle : α}
    (split : list ++ [last] = before ++ middle :: after) :
    (list = before ∧ last = middle) ∨ ∃ rest, list = before ++ middle :: rest := by
  -- The part behind the split is empty or ends with the new element.
  rcases List.eq_nil_or_concat after with rfl | ⟨rest, end_, rfl⟩
  · have parts := List.append_inj' split rfl
    exact Or.inl ⟨parts.1, List.head_eq_of_cons_eq parts.2⟩
  · rw [List.concat_eq_append, ← List.cons_append, ← List.append_assoc] at split
    exact Or.inr ⟨rest, (List.append_inj' split rfl).1⟩

/-- Exchanges without new answers leave all answers matched. -/
theorem Matched.append_one (matched : Matched safe history) {exchange : Exchange}
    (answers : ∀ client server content, safe client →
      exchange = .answered client server content →
      ∃ request msg rest, Answering client server request msg history ∧
        content = Content.load rest msg) : Matched safe (history ++ [exchange]) := by
  intro before after client server content isSafe split
  rcases append_singleton_split split with ⟨rfl, last⟩ | ⟨rest, earlier⟩
  · exact answers client server content isSafe last
  · exact matched before rest client server content isSafe earlier

end Rounds

namespace System

/-- A program has sent a request to a server and has not got its reply yet. -/
def Querying (system : System) (client server : Slot) (request : Content) : Prop :=
  (system.thread client).talk = .asked server request ∨
    (system.thread client).talk = .waiting server request

/-- A server works on a request of a client. -/
def Engages (system : System) (server client : Slot) (request : Content) : Prop :=
  ∃ accepted, system.engaged server = some accepted ∧ accepted.client = idx2pid client ∧
    accepted.request = request

/-- How far a client's query has come. -/
inductive Round (system : System) (history : List Exchange) (client server : Slot)
    (request : Content) : Prop
  -- The request waits for the server to take it.
  | sent (talk : (system.thread client).talk = .asked server request)
      (status : system.status client = .waitToSend)
      (receiver : (system.kernel.procSet client).toReceiverPid = idx2pid server)
      (content : (system.kernel.page client).msg.content = request)
      (unserved : ∀ other, ¬ system.Engages server client other)
      (asked : Asked client server request history)
  -- The server works on the request.
  | served (engages : system.Engages server client request)
      (working : (system.thread server).talk ≠ .replied)
      (waits : (system.thread client).talk = .asked server request ∧
          (system.status client).active ∨
        (system.thread client).talk = .waiting server request ∧
          system.status client = .waitToRecv ∧
          (system.kernel.procSet client).fromSenderPid = idx2pid server)
      (asked : Asked client server request history)
  -- The reply waits for the client to take it.
  | replied {msg : List UInt8} {rest : Content} (engages : system.Engages server client request)
      (talk : (system.thread client).talk = .asked server request)
      (active : (system.status client).active)
      (done : (system.thread server).talk = .replied)
      (status : system.status server = .waitToSend)
      (receiver : (system.kernel.procSet server).toReceiverPid = idx2pid client)
      (content : (system.kernel.page server).msg.content = Content.load rest msg)
      (answering : Answering client server request msg history)
  -- The reply is in the page of the client, which has yet to return.
  | delivered {msg : List UInt8} {rest : Content}
      (talk : (system.thread client).talk = .waiting server request)
      (active : (system.status client).active)
      (content : (system.kernel.page client).msg.content = Content.load rest msg)
      (unserved : ∀ other, ¬ system.Engages server client other)
      (answering : Answering client server request msg history)

/-- What a process that waits to send is saying, where programs may also chat: tell the process
server or the shell something that is not part of a query. -/
def Sends (system : System) (chats : Prop) (idx : Slot) : Prop :=
  (∃ server request, (system.thread idx).talk = .asked server request ∧ serves server ∧
    (system.kernel.procSet idx).toReceiverPid = idx2pid server) ∨
  (serves idx ∧ (system.thread idx).talk = .replied ∧
    ∃ accepted, (system.thread idx).hold = some accepted ∧
      (system.kernel.procSet idx).toReceiverPid = accepted.client) ∨
  (chats ∧ ¬ serves idx ∧
    ((system.thread idx).talk = .quiet ∨ (system.thread idx).talk = .leaving) ∧
    ∃ receiver, (receiver = processSlot ∨ receiver = shellSlot) ∧
      (system.kernel.procSet idx).toReceiverPid = idx2pid receiver)

/-- What a process that waits to receive is waiting for. -/
def Receives (system : System) (chats : Prop) (idx : Slot) : Prop :=
  ((system.thread idx).talk = .listening ∧ (system.kernel.procSet idx).fromSenderPid = 0) ∨
  (∃ server request, (system.thread idx).talk = .waiting server request) ∨
  (chats ∧ idx = shellSlot ∧ (system.thread idx).talk = .heeding processSlot ∧
    (system.kernel.procSet idx).fromSenderPid = idx2pid processSlot)

/-- The queries of all safe clients are in a state from which they can only end with the right
reply. A client is safe if it is neither killed nor freed. -/
structure Conversing (system : System) (safe : Slot → Prop) (chats : Prop)
    (history : List Exchange) : Prop where
  clients : ∀ client server request, safe client → system.Querying client server request →
    serves server ∧ (serves client → client = dirSlot ∧ server = fileSlot) ∧
      system.Round history client server request
  servers : ∀ server accepted client, serves server → system.engaged server = some accepted →
    safe client → accepted.client = idx2pid client →
    system.Querying client server accepted.request
  senders : ∀ idx, system.status idx = .waitToSend → system.Sends chats idx
  receivers : ∀ idx, safe idx → system.status idx = .waitToRecv → system.Receives chats idx
  matched : Matched safe history

/-- Nothing that a query depends on has changed in a slot. -/
structure Kept (system next : System) (idx : Slot) : Prop where
  talk : (next.thread idx).talk = (system.thread idx).talk
  status : next.status idx = system.status idx ∨
    (system.status idx).active ∧ (next.status idx).active
  receiver : (next.kernel.procSet idx).toReceiverPid = (system.kernel.procSet idx).toReceiverPid
  expected : (next.kernel.procSet idx).fromSenderPid = (system.kernel.procSet idx).fromSenderPid
  content : (next.kernel.page idx).msg.content = (system.kernel.page idx).msg.content

section Invariants

variable {system next : System} {client server idx : Slot} {request : Content} {act : Act}
variable {history events : List Exchange} {safe : Slot → Prop} {chats : Prop}

/-- An untouched slot keeps what queries depend on. -/
theorem Untouched.kept (untouched : Untouched system next idx) : Kept system next idx :=
  ⟨congrArg Thread.talk untouched.thread, Or.inl untouched.status, untouched.receiver,
    untouched.expected, congrArg SysMsg.content untouched.msg⟩

/-- A slot that keeps what queries depend on stays active if it was. -/
theorem Kept.active (kept : Kept system next idx) (active : (system.status idx).active) :
    (next.status idx).active := by
  rcases kept.status with same | ⟨-, still⟩
  · rwa [same]
  · exact still

/-- A slot that keeps what queries depend on waits if it did. -/
theorem Kept.idle (kept : Kept system next idx) {status : Status}
    (waits : system.status idx = status) (idle : status.active = false) :
    next.status idx = status := by
  rcases kept.status with same | ⟨active, -⟩
  · rw [same, waits]
  · rw [waits, idle] at active
    cases active

/-- A client in a query is not in an unused slot, nor in one that is being loaded. -/
theorem Round.live (round : system.Round history client server request) :
    system.status client ≠ .unused ∧ system.status client ≠ .loading := by
  -- A client is blocked or active.
  have of_active : (system.status client).active →
      system.status client ≠ .unused ∧ system.status client ≠ .loading := by
    intro active
    constructor <;>
    · intro same
      rw [same] at active
      cases active
  cases round with
  | sent talk status receiver content unserved asked =>
    rw [status]
    decide
  | served engages working waits asked =>
    rcases waits with ⟨-, active⟩ | ⟨-, status, -⟩
    · exact of_active active
    · rw [status]
      decide
  | replied engages talk active done status receiver content answering => exact of_active active
  | delivered talk active content unserved answering => exact of_active active

/-- A server goes on with what it does for a client. -/
def Goes (system next : System) (server client : Slot) : Prop :=
  (∀ other, next.Engages server client other ↔ system.Engages server client other) ∧
    ((∀ other, ¬ system.Engages server client other) ∨ Kept system next server ∨
      (system.thread server).talk ≠ .replied ∧ (next.thread server).talk ≠ .replied)

/-- What a server works on depends only on what it is engaged in. -/
theorem engages_congr (same : next.engaged server = system.engaged server) (client : Slot)
    (request : Content) :
    next.Engages server client request ↔ system.Engages server client request := by
  simp only [Engages, same]

/-- An untouched server goes on with what it does. -/
theorem Untouched.goes (untouched : Untouched system next server) (client : Slot) :
    Goes system next server client :=
  ⟨engages_congr untouched.engaged client, Or.inr (Or.inl untouched.kept)⟩

/-- A server that works on its request and keeps it goes on with what it does. -/
theorem goes_of_working (same : next.engaged server = system.engaged server)
    (before : (system.thread server).talk ≠ .replied)
    (after : (next.thread server).talk ≠ .replied) (client : Slot) :
    Goes system next server client :=
  ⟨engages_congr same client, Or.inr (Or.inr ⟨before, after⟩)⟩

/-- A server that does not work for a client may turn to any other client. -/
theorem goes_of_unserved (before : ∀ other, ¬ system.Engages server client other)
    (after : ∀ other, ¬ next.Engages server client other) : Goes system next server client :=
  ⟨fun other => iff_of_false (after other) (before other), Or.inl before⟩

/-- A query stays where it is if nothing happens to its client and its server goes on. -/
theorem Round.transfer (round : system.Round history client server request)
    (kept : Kept system next client) (going : Goes system next server client)
    (others : ∀ exchange ∈ events, exchange.concerns client = false) :
    next.Round (history ++ events) client server request := by
  -- Each stage of the round names what the step keeps on its side.
  obtain ⟨engages, goes⟩ := going
  cases round with
  | sent talk status receiver content unserved asked =>
    refine .sent (kept.talk.trans talk) (kept.idle status rfl) (kept.receiver.trans receiver)
      (kept.content.trans content) (fun other => ?_) (asked.append others)
    rw [engages]
    exact unserved other
  | served working_on working waits asked =>
    refine .served ((engages request).mpr working_on) ?_ ?_ (asked.append others)
    · rcases goes with nobody | keeps | ⟨-, still⟩
      · exact absurd working_on (nobody request)
      · rwa [keeps.talk]
      · exact still
    · rw [kept.talk, kept.expected]
      rcases waits with ⟨talk, active⟩ | ⟨talk, status, expected⟩
      · exact Or.inl ⟨talk, kept.active active⟩
      · exact Or.inr ⟨talk, kept.idle status rfl, expected⟩
  | replied working_on talk active done status receiver content answering =>
    rcases goes with nobody | keeps | ⟨working, -⟩
    · exact absurd working_on (nobody request)
    · exact .replied ((engages request).mpr working_on) (kept.talk.trans talk)
        (kept.active active) (keeps.talk.trans done) (keeps.idle status rfl)
        (keeps.receiver.trans receiver) (keeps.content.trans content) (answering.append others)
    · exact absurd done working
  | delivered talk active content unserved answering =>
    refine .delivered (kept.talk.trans talk) (kept.active active) (kept.content.trans content)
      (fun other => ?_) (answering.append others)
    rw [engages]
    exact unserved other

/-- A client has at most one query. -/
theorem Querying.inj {other : Slot} {content : Content}
    (first : system.Querying client server request)
    (second : system.Querying client other content) : server = other ∧ request = content := by
  rcases first with first | first <;> rcases second with second | second <;>
    rw [first] at second <;> cases second <;> exact ⟨rfl, rfl⟩

/-- A program that is not in a query is in no server's hands. -/
theorem Conversing.unserved (conversing : system.Conversing safe chats history)
    (isServer : serves server) (isSafe : safe client)
    (quiet : ∀ server request, ¬ system.Querying client server request) (other : Content) :
    ¬ system.Engages server client other := by
  intro engages
  obtain ⟨accepted, taken, named, -⟩ := engages
  exact quiet _ _ (conversing.servers server accepted client isServer taken isSafe named)

/-- Nobody is engaged for a client other than the one in the accepted request. -/
theorem not_engages_of_client {accepted : Accepted} {owner : Slot}
    (taken : system.engaged server = some accepted) (named : accepted.client = idx2pid owner)
    (different : client ≠ owner) (request : Content) :
    ¬ system.Engages server client request := by
  intro engages
  obtain ⟨other, same, isClient, -⟩ := engages
  rw [taken, Option.some.injEq] at same
  subst same
  rw [named, idx2pid_inj] at isClient
  exact different isClient.symm

/-- A server that is engaged in nothing works for nobody. -/
theorem not_engages_of_none (idle : system.engaged server = none) (client : Slot)
    (request : Content) : ¬ system.Engages server client request := by
  intro engages
  obtain ⟨accepted, taken, -⟩ := engages
  rw [idle] at taken
  cases taken

/-- A step keeps the queries going if it does so for those it is about. -/
theorem Conversing.step (conversing : system.Conversing safe chats history)
    (clients : ∀ client server request, safe client → next.Querying client server request →
      (system.Querying client server request ∧ Kept system next client ∧
        Goes system next server client ∧
        ∀ exchange ∈ events, exchange.concerns client = false) ∨
      serves server ∧ (serves client → client = dirSlot ∧ server = fileSlot) ∧
        next.Round (history ++ events) client server request)
    (servers : ∀ server accepted client, serves server → next.engaged server = some accepted →
      safe client → accepted.client = idx2pid client →
      (system.engaged server = some accepted ∧
        (system.Querying client server accepted.request →
          next.Querying client server accepted.request)) ∨
      next.Querying client server accepted.request)
    (blocked : ∀ idx, next.status idx = .waitToSend ∨ next.status idx = .waitToRecv →
      Untouched system next idx ∨ (next.status idx = .waitToSend → next.Sends chats idx) ∧
        (next.status idx = .waitToRecv → next.Receives chats idx))
    (matched : Matched safe (history ++ events)) :
    next.Conversing safe chats (history ++ events) := by
  -- A new conversation is an old one, or the one that the step has begun.
  refine ⟨fun client server request isSafe querying => ?_,
    fun server accepted client isServer taken isSafe named => ?_,
    fun idx waits => ?_, fun idx isSafe waits => ?_, matched⟩
  · rcases clients client server request isSafe querying with ⟨before, kept, goes, others⟩ | new
    · obtain ⟨isServer, asker, round⟩ := conversing.clients client server request isSafe before
      exact ⟨isServer, asker, round.transfer kept goes others⟩
    · exact new
  · rcases servers server accepted client isServer taken isSafe named with ⟨before, still⟩ | new
    · exact still (conversing.servers server accepted client isServer before isSafe named)
    · exact new
  · rcases blocked idx (Or.inl waits) with untouched | ⟨sends, -⟩
    · unfold Sends
      rw [untouched.thread, untouched.receiver]
      exact conversing.senders idx (untouched.status ▸ waits)
    · exact sends waits
  · rcases blocked idx (Or.inr waits) with untouched | ⟨-, receives⟩
    · unfold Receives
      rw [untouched.thread, untouched.expected]
      exact conversing.receivers idx isSafe (untouched.status ▸ waits)
    · exact receives waits

/-- A program that has said nothing is in no query. -/
theorem not_querying_of_quiet (quiet : (system.thread client).talk = .quiet) (server : Slot)
    (request : Content) : ¬ system.Querying client server request := by
  intro querying
  rcases querying with asked | waiting
  · rw [quiet] at asked
    cases asked
  · rw [quiet] at waiting
    cases waiting

/-- A program's queries depend on what it has said only. -/
theorem querying_congr (same : next.thread client = system.thread client) :
    next.Querying client server request ↔ system.Querying client server request := by
  simp only [Querying, same]

/-- Histories that nothing is added to stay matched. -/
theorem Conversing.matched_nil (conversing : system.Conversing safe chats history) :
    Matched safe (history ++ []) := by
  rw [List.append_nil]
  exact conversing.matched

/-- Nobody is concerned by nothing. -/
theorem concerns_nil : ∀ exchange ∈ ([] : List Exchange), exchange.concerns client = false :=
  fun _ among => absurd among List.not_mem_nil

/-- A step that touches no safe process in a query and no server keeps all queries going. -/
theorem Conversing.retable (conversing : system.Conversing safe chats history)
    (touched : Slot → Prop)
    (before : ∀ idx, touched idx → safe idx →
      ∀ server request, ¬ system.Querying idx server request)
    (after : ∀ idx, touched idx → safe idx → ∀ server request, ¬ next.Querying idx server request)
    (mortal : ∀ idx, touched idx → ¬ serves idx)
    (blocked : ∀ idx, touched idx → (next.status idx = .waitToSend → next.Sends chats idx) ∧
      (next.status idx = .waitToRecv → next.Receives chats idx))
    (untouched : ∀ idx, ¬ touched idx → Untouched system next idx) :
    next.Conversing safe chats (history ++ []) := by
  -- Neither the client nor the server of a query is touched, so that its round stays as it is.
  refine conversing.step (fun client server request isSafe querying => Or.inl ?_)
    (fun server accepted client isServer taken isSafe _ => Or.inl ⟨?_, fun querying => ?_⟩)
    (fun other _ => ?_) conversing.matched_nil
  · have apart : ¬ touched client := fun here => after client here isSafe _ _ querying
    rw [querying_congr (untouched client apart).thread] at querying
    have isServer := (conversing.clients client server request isSafe querying).1
    exact ⟨querying, (untouched client apart).kept,
      (untouched server fun here => mortal server here isServer).goes _, concerns_nil⟩
  · rwa [(untouched server fun here => mortal server here isServer).engaged] at taken
  · rwa [querying_congr
      (untouched client fun here => before client here isSafe _ _ querying).thread]
  · by_cases here : touched other
    · exact Or.inr (blocked other here)
    · exact Or.inl (untouched other here)

/-- The server of a query is not its client. -/
theorem Conversing.server_ne (conversing : system.Conversing safe chats history)
    (isSafe : safe client) (querying : system.Querying client server request) :
    server ≠ client := by
  intro same
  subst same
  obtain ⟨isServer, asker, -⟩ := conversing.clients server server request isSafe querying
  obtain ⟨isDir, isFile⟩ := asker isServer
  rw [isDir] at isFile
  cases isFile

end Invariants

end System

end Egos.Apps
