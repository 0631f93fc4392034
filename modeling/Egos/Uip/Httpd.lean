import Egos.Lib.Runs
import Mathlib.Algebra.Group.Nat.Defs
import Mathlib.Tactic.Common

/-! The HTTP server: one connection, from the request to the acknowledgement of the response. -/

namespace Egos.Uip

/-- The text that answers every request. -/
def helloText : List String :=
  ["HTTP/1.0 200 OK\r\n",
    "Content-Type: text/html\r\n",
    "Connection: close\r\n",
    "\r\n",
    "<!DOCTYPE html>\n",
    "<html>\n",
    "<head>\n",
    "<style>\n",
    "  body \x7b\n",
    "    background-color: black;\n",
    "    color: #00FF00;\n",
    "    font-family: monospace;\n",
    "    font-size: 20px;\n",
    "    padding: 2em;\n",
    "  \x7d\n",
    "  h1, h2, h3, p, pre \x7b\n",
    "    margin: 0.5em 0;\n",
    "  \x7d\n",
    "  pre \x7b\n",
    "    color: #0f0;\n",
    "    text-shadow: 0 0 5px #0f0;\n",
    "  \x7d\n",
    "  .glow \x7b\n",
    "    text-shadow: 0 0 10px #0f0;\n",
    "  \x7d\n",
    "</style>\n",
    "</head>\n",
    "<body>\n",
    "<center>",
    "<pre class=\"glow\">\n",
    "<code>\n",
    "                                             \n",
    "    _/_/_/_/    _/_/_/    _/_/      _/_/_/   \n",
    "   _/        _/        _/    _/  _/          \n",
    "  _/_/_/    _/  _/_/  _/    _/    _/_/       \n",
    " _/        _/    _/  _/    _/        _/      \n",
    "_/_/_/_/    _/_/_/    _/_/    _/_/_/         \n",
    "</code>\n",
    "</pre>\n",
    "<h1 class=\"glow\">EGOS is ALIVE! First contact established!</h1>\n",
    "<h2>EGOS is a custom OS - running via QEMU on SiFive FU540-C000</h2>\n",
    "<h3>This is the final project for CS 6640 class with Prof. Cheng Tan</h3>\n",
    "<p>This is a simple HTTP server running on EGOS. </p>\n",
    "<p>Authors: Pranchal Shah and Vasu Kalariya</p>\n",
    "</center>",
    "</body>\n",
    "</html>\n"]

/-- The bytes of the response. -/
def helloResponse : List UInt8 := (helloText.map fun line => line.toUTF8.data.toList).flatten

/-- The values of a 16-bit variable. -/
abbrev uint16Size : Nat := 2 ^ 16

/-- The most bytes that the driver is given to send. -/
abbrev maxDriverSendBytes : Nat := 512 - 100

/-- The largest segment: the packet buffer less the headers. -/
abbrev uipTcpMss : Nat := 420 - 14 - 40

/-- How far the connection is. -/
inductive HttpPhase where
  | waiting
  | sending
  | closing
  deriving DecidableEq

/-- What the server knows about a connection; the data pointer stands for what it points to. -/
structure HttpState where
  state : HttpPhase
  dataPtr : List UInt8
  totalLen : Nat
  pos : Nat
  lastSentLen : Nat
  deriving DecidableEq

/-- The reasons for a call of the server. -/
structure Flags where
  connected : Bool := false
  closed : Bool := false
  aborted : Bool := false
  timedout : Bool := false
  acked : Bool := false
  newdata : Bool := false
  poll : Bool := false
  rexmit : Bool := false

/-- The connection has ended. -/
def Flags.ended (flags : Flags) : Bool := flags.closed || flags.aborted || flags.timedout

/-- The reasons to send a part of the response. -/
def Flags.sends (flags : Flags) : Bool :=
  flags.newdata || flags.acked || flags.poll || flags.rexmit

/-- What the server asks of the network stack. -/
inductive Request where
  | none
  | send (data : List UInt8)
  | close

namespace HttpState

/-- Moves on behind acknowledged bytes. -/
def advance (s : HttpState) (flags : Flags) : HttpState :=
  if flags.acked ∧ s.lastSentLen > 0 then
    { s with pos := (s.pos + s.lastSentLen) % uint16Size, lastSentLen := 0 }
  else s

/-- Starts the response when a request arrives. -/
def respond (s : HttpState) (flags : Flags) : HttpState :=
  if flags.newdata ∧ s.state = .waiting then
    { state := .sending
      dataPtr := helloResponse
      totalLen := helloResponse.length % uint16Size
      pos := 0
      lastSentLen := 0 }
  else s

/-- Sends the next part of the response, or closes the connection behind the last one. -/
def send (s : HttpState) (flags : Flags) (mss : Nat) : HttpState × Request :=
  if s.state = .sending ∧ flags.sends then
    if s.pos < s.totalLen then
      let remainingLen := s.totalLen - s.pos
      let maxAllowedSend := if mss > maxDriverSendBytes then maxDriverSendBytes else mss
      let chunkLen := if remainingLen > maxAllowedSend then maxAllowedSend else remainingLen
      if chunkLen > 0 then
        ({ s with lastSentLen := chunkLen }, .send ((s.dataPtr.drop s.pos).take chunkLen))
      else (s, .none)
    else if s.lastSentLen = 0 then ({ s with state := .closing }, .close)
    else (s, .none)
  else (s, .none)

end HttpState

/-- A call of the server. -/
def httpdAppcall (s : HttpState) (flags : Flags) (mss : Nat) : HttpState × Request :=
  if flags.connected then (⟨.waiting, [], 0, 0, 0⟩, .none)
  else if flags.ended then ({ s with state := .closing }, .none)
  else ((s.advance flags).respond flags).send flags mss

/-- A connection in the network stack: the outstanding length, what was transmitted of the
outstanding bytes, and what the peer has acknowledged. -/
structure Connection where
  app : HttpState
  len : Nat
  sent : List (List UInt8)
  acked : List UInt8

/-- An event of a connection. -/
structure Event where
  flags : Flags
  -- The peer acknowledges the outstanding bytes as one of the transmissions brought them.
  received : List UInt8
  mss : Nat
  -- What the packet buffer holds where the data of the application goes.
  buffer : Nat → UInt8

/-- What an observer of the connection sees. -/
inductive Transfer where
  | segment (position : Nat) (bytes : List UInt8)
  | closed (acked : List UInt8)
  deriving DecidableEq

/-- The outstanding length of the packet buffer after data was copied there. -/
def resent (data : List UInt8) (buffer : Nat → UInt8) (len : Nat) : List UInt8 :=
  (List.range len).map fun k => data[k]?.getD (buffer k)

namespace Connection

/-- Takes an acknowledgement of all outstanding bytes. -/
def ack (c : Connection) (event : Event) : Connection :=
  if event.flags.acked then { c with len := 0, sent := [], acked := c.acked ++ event.received }
  else c

/-- Transmits what the server asks for. -/
def transmit (c : Connection) (event : Event) : Request → Connection × List Transfer
  | .none => (c, [])
  | .close => (c, [.closed c.acked])
  | .send data =>
    if c.len = 0 then
      let slen := min data.length event.mss
      let bytes := data.take slen
      ({ c with len := slen, sent := [bytes] }, [.segment c.acked.length bytes])
    else
      let bytes := resent data event.buffer c.len
      ({ c with sent := bytes :: c.sent }, [.segment c.acked.length bytes])

/-- An event of a connection. -/
def step (c : Connection) (event : Event) : Connection × List Transfer :=
  let c := c.ack event
  let answer := httpdAppcall c.app event.flags event.mss
  transmit { c with app := answer.1 } event answer.2

/-- What the network stack and the peer do. -/
def Permitted (c : Connection) (event : Event) : Prop :=
  event.flags.connected = false ∧ 1 ≤ event.mss ∧ event.mss ≤ uipTcpMss ∧
    (event.flags.acked → event.received ∈ c.sent)

/-- The connection right after the server was told of it. -/
def connected (before : HttpState) (mss : Nat) : Connection where
  app := (httpdAppcall before { connected := true } mss).1
  len := 0
  sent := []
  acked := []

/-- The server sends although bytes are outstanding. -/
def Resends (c : Connection) (event : Event) : Prop :=
  c.app.state = .sending ∧ c.len ≠ 0 ∧ ¬ event.flags.acked ∧ ¬ event.flags.ended ∧
    event.flags.sends

/-- A segment that is sent again has the length that is outstanding. -/
def Steady (c : Connection) (event : Event) : Prop :=
  c.Resends event → min event.mss (helloResponse.length - c.acked.length) = c.len

/-- The states that are reached after the connection is established. -/
abbrev Reaches (permits : Connection → Event → Prop) (before : HttpState) (mss : Nat) :
    Connection → List Transfer → Prop :=
  Run (fun c event after transfers => permits c event ∧ c.step event = (after, transfers))
    (connected before mss)

end Connection

/-- What a client of the server expects to see. -/
def Transfer.exact : Transfer → Prop
  | .segment position bytes => bytes <+: helloResponse.drop position
  | .closed acked => acked = helloResponse

/-- The client receives the response and nothing else. -/
structure Delivers (c : Connection) (history : List Transfer) : Prop where
  acked : c.acked <+: helloResponse
  exact : ∀ transfer ∈ history, transfer.exact

/-- The server and the network stack agree about how far the connection is. -/
structure Tracked (c : Connection) : Prop where
  acked : c.acked <+: helloResponse
  room : c.acked.length + c.len ≤ helloResponse.length
  sent : ∀ bytes ∈ c.sent, bytes = (helloResponse.drop c.acked.length).take c.len
  waiting : c.app.state = .waiting → c.acked = [] ∧ c.len = 0
  sending : c.app.state = .sending → c.app.dataPtr = helloResponse ∧
    c.app.totalLen = helloResponse.length ∧ c.app.pos = c.acked.length ∧ c.app.lastSentLen = c.len

section Steps

variable {c after : Connection} {event : Event} {history transfers : List Transfer}

/-- The length of the response fits into 16 bits. -/
theorem helloResponse_length : helloResponse.length < uint16Size := by
  decide +kernel

/-- A prefix that is followed by the next bytes of a list is a longer prefix. -/
theorem prefix_append_take {whole start : List UInt8} (begins : start <+: whole) (count : Nat) :
    start ++ (whole.drop start.length).take count <+: whole := by
  -- The whole list is the prefix followed by the dropped part.
  obtain ⟨rest, rfl⟩ := begins
  rw [List.drop_left, List.prefix_append_right_inj]
  exact List.take_prefix count rest

/-- Bytes that are taken from behind a position are there. -/
theorem length_take_drop {whole : List UInt8} {position count : Nat}
    (room : position + count ≤ whole.length) :
    ((whole.drop position).take count).length = count := by
  rw [List.length_take, List.length_drop]
  omega

/-- Data that is long enough covers what the packet buffer holds. -/
theorem resent_of_length {data : List UInt8} {buffer : Nat → UInt8} {len : Nat}
    (covers : data.length = len) : resent data buffer len = data := by
  -- Byte by byte, the data is there.
  subst covers
  apply List.ext_getElem
  · simp [resent]
  · intro k inside other
    simp [resent, other]

/-- Acknowledged bytes move both sides on by the same length. -/
theorem Tracked.ack (tracked : Tracked c) (received : event.flags.acked → event.received ∈ c.sent) :
    Tracked { c.ack event with app := c.app.advance event.flags } := by
  unfold Connection.ack HttpState.advance
  by_cases acked : event.flags.acked
  · -- The transmission that the peer took holds the bytes behind the acknowledged ones.
    have bytes := tracked.sent _ (received acked)
    have count : event.received.length = c.len := by
      rw [bytes]
      exact length_take_drop tracked.room
    have total : (c.acked ++ event.received).length = c.acked.length + c.len := by
      rw [List.length_append, count]
    have below := helloResponse_length
    have room := tracked.room
    simp only [acked, if_true, true_and]
    refine ⟨?_, ?_, by simp, ?_, ?_⟩
    · rw [bytes]
      exact prefix_append_take tracked.acked _
    · simp only [total]
      omega
    · intro state
      have before : c.app.state = .waiting := by
        split at state <;> exact state
      obtain ⟨nothing, none⟩ := tracked.waiting before
      rw [none] at count
      exact ⟨by rw [nothing, List.length_eq_zero_iff.mp count]; rfl, rfl⟩
    · intro state
      have before : c.app.state = .sending := by
        split at state <;> exact state
      obtain ⟨data, length, pos, last⟩ := tracked.sending before
      simp only [total]
      split
      · refine ⟨data, length, ?_, rfl⟩
        simp only [pos, last]
        exact Nat.mod_eq_of_lt (by omega)
      · rename_i idle
        refine ⟨data, length, ?_, by omega⟩
        omega
  · simp only [acked]
    exact tracked

/-- A request starts the response at its beginning. -/
theorem Tracked.respond (tracked : Tracked c) :
    Tracked { c with app := c.app.respond event.flags } := by
  unfold HttpState.respond
  split
  · rename_i start
    obtain ⟨nothing, none⟩ := tracked.waiting start.2
    refine ⟨tracked.acked, tracked.room, tracked.sent, by simp, ?_⟩
    intro _
    exact ⟨rfl, Nat.mod_eq_of_lt helloResponse_length, by simp [nothing], none.symm⟩
  · exact tracked

/-- The length of the next part of the response, in terms of the connection. -/
theorem chunk_eq_min {remaining mss : Nat} (small : mss ≤ uipTcpMss) :
    (if remaining > (if mss > maxDriverSendBytes then maxDriverSendBytes else mss) then
      (if mss > maxDriverSendBytes then maxDriverSendBytes else mss) else remaining) =
      min mss remaining := by
  -- A segment never exceeds what the driver is given.
  have below : ¬ mss > maxDriverSendBytes := by
    simp only [uipTcpMss, maxDriverSendBytes] at small ⊢
    omega
  rw [if_neg below]
  split <;> omega

/-- A part of the response is sent, and sent again, from behind the acknowledged bytes. -/
theorem Tracked.send (tracked : Tracked c) (positive : 1 ≤ event.mss)
    (small : event.mss ≤ uipTcpMss)
    (steady : c.app.state = .sending → event.flags.sends → c.len ≠ 0 →
      min event.mss (helloResponse.length - c.acked.length) = c.len)
    {answer : HttpState × Request} (called : c.app.send event.flags event.mss = answer)
    (sent : Connection.transmit { c with app := answer.1 } event answer.2 = (after, transfers)) :
    Tracked after ∧ ∀ transfer ∈ transfers, transfer.exact := by
  subst called
  unfold HttpState.send at sent
  by_cases active : c.app.state = .sending ∧ event.flags.sends
  · obtain ⟨state, sends⟩ := active
    obtain ⟨data, total, pos, last⟩ := tracked.sending state
    simp only [state, sends, and_self, if_true, data, total, pos, last, chunk_eq_min small] at sent
    by_cases more : c.acked.length < helloResponse.length
    · -- The part that is sent is never empty.
      have some_ : min event.mss (helloResponse.length - c.acked.length) > 0 := by omega
      have room : c.acked.length + min event.mss (helloResponse.length - c.acked.length) ≤
          helloResponse.length := by omega
      simp only [more, some_, if_true, Connection.transmit, length_take_drop room] at sent
      by_cases idle : c.len = 0
      · -- The stack sends all of it and remembers the length.
        have whole : min (min event.mss (helloResponse.length - c.acked.length)) event.mss =
            min event.mss (helloResponse.length - c.acked.length) := by omega
        simp only [idle, if_true, whole, List.take_take, Nat.min_self, Prod.mk.injEq] at sent
        obtain ⟨rfl, rfl⟩ := sent
        refine ⟨⟨tracked.acked, room, by simp, by simp, ?_⟩, ?_⟩
        · exact fun _ => ⟨rfl, rfl, rfl, rfl⟩
        · simp only [List.mem_singleton, forall_eq, Transfer.exact]
          exact List.take_prefix _ _
      · -- The stack sends as much as is outstanding.
        have same := steady state sends idle
        simp only [idle, if_false, Prod.mk.injEq, same,
          resent_of_length (length_take_drop tracked.room)] at sent
        obtain ⟨rfl, rfl⟩ := sent
        refine ⟨⟨tracked.acked, tracked.room, ?_, by simp, ?_⟩, ?_⟩
        · intro bytes member
          rcases List.mem_cons.mp member with rfl | earlier
          · rfl
          · exact tracked.sent bytes earlier
        · exact fun _ => ⟨rfl, rfl, rfl, rfl⟩
        · simp only [List.mem_singleton, forall_eq, Transfer.exact]
          exact List.take_prefix _ _
    · -- Everything is acknowledged, and the connection is closed.
      have none : c.len = 0 := by
        have room := tracked.room
        omega
      simp only [more, none, if_false, if_true, Connection.transmit, Prod.mk.injEq] at sent
      obtain ⟨rfl, rfl⟩ := sent
      have room := tracked.room
      have bytes := tracked.sent
      rw [none] at room bytes
      refine ⟨⟨tracked.acked, room, bytes, by simp, by simp⟩, ?_⟩
      simp only [List.mem_singleton, forall_eq, Transfer.exact]
      exact tracked.acked.eq_of_length_le (by omega)
  · simp only [active, if_false, Connection.transmit, Prod.mk.injEq] at sent
    obtain ⟨rfl, rfl⟩ := sent
    exact ⟨tracked, by simp⟩

/-- Every event that keeps the length of what is sent again keeps both sides together. -/
theorem Tracked.step (tracked : Tracked c) (permitted : c.Permitted event)
    (steady : c.Steady event) (stepped : c.step event = (after, transfers)) :
    Tracked after ∧ ∀ transfer ∈ transfers, transfer.exact := by
  obtain ⟨unconnected, positive, small, received⟩ := permitted
  have moved := tracked.ack received
  have started := @Tracked.respond _ event moved
  unfold Connection.step at stepped
  have app : (c.ack event).app = c.app := by
    unfold Connection.ack
    split <;> rfl
  simp only [httpdAppcall, unconnected, app] at stepped
  by_cases ended : event.flags.ended
  · -- A connection that has ended is not used for anything else.
    simp only [ended, if_true, Connection.transmit] at stepped
    obtain ⟨rfl, rfl⟩ := stepped
    exact ⟨⟨moved.acked, moved.room, moved.sent, by simp, by simp⟩, by simp⟩
  · simp only [ended] at stepped
    refine started.send positive small ?_ rfl stepped
    intro state sends outstanding
    -- Bytes are outstanding only if the event does not acknowledge them.
    have kept : ¬ event.flags.acked := by
      intro acked
      exact outstanding (by simp [Connection.ack, acked])
    have same : c.ack event = c := if_neg kept
    have still : c.app.advance event.flags = c.app := if_neg fun both => kept both.1
    simp only [same, still] at state outstanding ⊢
    have active : c.app.state = .sending := by
      unfold HttpState.respond at state
      split at state
      · rename_i start
        exact absurd (tracked.waiting start.2).2 outstanding
      · exact state
    exact steady ⟨active, outstanding, kept, ended, sends⟩

/-- The start of a connection, and whatever the server kept from earlier ones. -/
theorem Tracked.connected (before : HttpState) (mss : Nat) :
    Tracked (Connection.connected before mss) := by
  refine ⟨List.nil_prefix, Nat.zero_le _, ?_, fun _ => ⟨rfl, rfl⟩, ?_⟩
  · intro bytes member
    cases member
  · intro state
    cases state

end Steps

/-- As long as what is sent again has the length that is outstanding, the client receives the
response and nothing else. -/
theorem client_receives_response {before : HttpState} {mss : Nat} {c : Connection}
    {history : List Transfer}
    (reached : Connection.Reaches (fun c event => c.Permitted event ∧ c.Steady event) before mss c
      history) : Delivers c history := by
  -- Both sides agree at the start, and every event keeps that.
  have sound := reached.invariant
    (fun c history => Tracked c ∧ ∀ transfer ∈ history, transfer.exact)
    ⟨Tracked.connected before mss, by simp⟩ ?_
  · exact ⟨sound.1.acked, sound.2⟩
  · intro c event after history transfers held taken
    obtain ⟨⟨permitted, steady⟩, stepped⟩ := taken
    obtain ⟨tracked, exact_⟩ := held.1.step permitted steady stepped
    refine ⟨tracked, fun transfer member => ?_⟩
    rcases List.mem_append.mp member with earlier | last
    · exact held.2 transfer earlier
    · exact exact_ transfer last

instance (c : Connection) (event : Event) : Decidable (c.Permitted event) :=
  inferInstanceAs (Decidable (_ ∧ _ ∧ _ ∧ (_ → _ ∈ _)))

instance (c : Connection) (event : Event) : Decidable (c.Steady event) :=
  inferInstanceAs (Decidable (_ ∧ _ ∧ _ ∧ _ ∧ _ → _ = _))

instance : (transfer : Transfer) → Decidable transfer.exact
  | .segment _ _ | .closed _ => by unfold Transfer.exact; infer_instance

/-- A step of a connection does not fail. -/
theorem reaches_of_follow {permits : Connection → Event → Prop}
    [∀ c event, Decidable (permits c event)] {before : HttpState} {mss : Nat} {events : List Event}
    {c : Connection} {history : List Transfer}
    (followed : follow permits (fun c event => (Except.ok (c.step event) : Except String _))
      (Connection.connected before mss) events = some (c, history)) :
    Connection.Reaches permits before mss c history := by
  refine (run_of_follow .start followed).mono ?_
  intro c event after transfers taken
  exact ⟨taken.1, Except.ok.inj taken.2⟩

/-- An event that acknowledges bytes from behind a position of the response. -/
def ackEvent (mss position count : Nat) : Event :=
  ⟨{ acked := true }, (helloResponse.drop position).take count, mss, fun _ => 0⟩

/-- An event that brings a part of the request. -/
def requestEvent (mss : Nat) : Event := ⟨{ newdata := true }, [], mss, fun _ => 0⟩

/-- The whole response reaches a client that keeps its window. -/
theorem client_receives_all : ∃ c history,
    Connection.Reaches (fun c event => c.Permitted event ∧ c.Steady event) ⟨.closing, [], 0, 0, 0⟩
      uipTcpMss c history ∧ .closed helloResponse ∈ history ∧ Delivers c history := by
  have ran : (follow (fun c event => Connection.Permitted c event ∧ c.Steady event)
      (fun c event => (Except.ok (c.step event) : Except String _))
      (.connected ⟨.closing, [], 0, 0, 0⟩ uipTcpMss)
      [requestEvent 366, requestEvent 366, ackEvent 366 0 366, ackEvent 366 366 366,
        ackEvent 366 732 366]).map (fun reached =>
        decide (.closed helloResponse ∈ reached.2)) = some true := by decide +kernel
  obtain ⟨⟨c, history⟩, followed, closes⟩ := Option.map_eq_some_iff.mp ran
  have reached := reaches_of_follow followed
  exact ⟨c, history, reached, of_decide_eq_true closes, client_receives_response reached⟩

/-- A request arrives in two pieces and the second one narrows the window: the client is sent bytes
that are not part of the response, and acknowledges bytes twice. -/
theorem client_receives_stale : ∃ c history,
    Connection.Reaches Connection.Permitted ⟨.closing, [], 0, 0, 0⟩ 100 c history ∧
      ¬ c.acked <+: helloResponse ∧ ¬ ∀ transfer ∈ history, transfer.exact := by
  have ran : (follow Connection.Permitted
      (fun c event => (Except.ok (c.step event) : Except String _))
      (.connected ⟨.closing, [], 0, 0, 0⟩ 100)
      [requestEvent 100, requestEvent 50, ackEvent 50 0 100, ackEvent 50 50 50]).map
        (fun reached => (decide (reached.1.acked <+: helloResponse),
          decide (∀ transfer ∈ reached.2, transfer.exact))) = some (false, false) := by
    decide +kernel
  obtain ⟨⟨c, history⟩, followed, facts⟩ := Option.map_eq_some_iff.mp ran
  obtain ⟨acked, exact_⟩ := Prod.mk.inj facts
  exact ⟨c, history, reaches_of_follow followed, of_decide_eq_false acked,
    of_decide_eq_false exact_⟩

end Egos.Uip
