import Egos.Uip.Httpd

/-! The HTTP server on its own, under events in any order and combination. -/

namespace Egos.Uip

/-- A call of the server. -/
structure Call where
  flags : Flags
  mss : Nat

/-- New data arrives on a connection that goes on. -/
def Call.carries (call : Call) : Bool := call.flags.newdata && !call.flags.ended

/-- What a call leaves behind: the state of the connection, and what the stack is asked for. -/
structure Answer where
  state : HttpState
  mss : Nat
  request : Request

namespace HttpState

/-- A call of the server as a step of the connection. -/
def Answers (s : HttpState) (call : Call) (after : HttpState) (answers : List Answer) : Prop :=
  (httpdAppcall s call.flags call.mss).1 = after ∧
    answers = [⟨after, call.mss, (httpdAppcall s call.flags call.mss).2⟩]

/-- The states of a connection from a call on that reports it. -/
abbrev Serves (before : HttpState) (first : Call) : HttpState → List Answer → Prop :=
  Run Answers (httpdAppcall before first.flags first.mss).1

/-- The state after some calls. -/
def afterCalls (s : HttpState) (calls : List Call) : HttpState :=
  calls.foldl (fun s call => (httpdAppcall s call.flags call.mss).1) s

/-- The part of the response that is on its way, behind what was acknowledged. -/
structure Bounded (s : HttpState) : Prop where
  room : s.pos + s.lastSentLen ≤ s.totalLen
  total : s.totalLen ≤ helloResponse.length
  sending : s.state = .sending → s.dataPtr = helloResponse ∧ s.totalLen = helloResponse.length

end HttpState

/-- The stack is asked for a part of the response, or to close behind all of it. -/
def Answer.Proper (answer : Answer) : Prop :=
  match answer.request with
  | .none => True
  | .send data => ∃ len, 0 < len ∧ len ≤ min answer.mss maxDriverSendBytes ∧
    answer.state.pos + len ≤ helloResponse.length ∧
    data = (helloResponse.drop answer.state.pos).take len
  | .close => answer.state.pos = answer.state.totalLen ∧ answer.state.lastSentLen = 0

/-- The positions of a connection are in order, and so is what the stack was asked for. -/
structure Orderly (s : HttpState) (history : List Answer) : Prop where
  room : s.pos + s.lastSentLen ≤ s.totalLen
  proper : ∀ answer ∈ history, answer.Proper

section Steps

variable {s : HttpState} {flags : Flags} {mss : Nat}

/-- Acknowledged bytes move on by what was sent. -/
theorem HttpState.Bounded.advance (bounded : s.Bounded) : (s.advance flags).Bounded := by
  obtain ⟨room, total, sending⟩ := bounded
  have below := helloResponse_length
  unfold HttpState.advance
  split
  · -- The sum fits into 16 bits.
    refine ⟨?_, total, sending⟩
    simp only
    rw [Nat.mod_eq_of_lt (by omega)]
    exact room
  · exact ⟨room, total, sending⟩

/-- A request starts the response at its beginning. -/
theorem HttpState.Bounded.respond (bounded : s.Bounded) : (s.respond flags).Bounded := by
  unfold HttpState.respond
  split
  · have length := Nat.mod_eq_of_lt helloResponse_length
    exact ⟨Nat.zero_le _, Nat.le_of_eq length, fun _ => ⟨rfl, length⟩⟩
  · exact bounded

/-- The length of a part is at most that of a segment, of what the driver is given, and of the
rest. -/
theorem chunk_le (remaining mss : Nat) :
    let allowed := if mss > maxDriverSendBytes then maxDriverSendBytes else mss
    let chunk := if remaining > allowed then allowed else remaining
    chunk ≤ min mss maxDriverSendBytes ∧ chunk ≤ remaining := by
  dsimp only
  split
  · split <;> omega
  · split <;> omega

/-- What is sent is a part of the response, and nothing is closed before its end. -/
theorem HttpState.Bounded.send (bounded : s.Bounded) :
    (s.send flags mss).1.Bounded ∧
      Answer.Proper ⟨(s.send flags mss).1, mss, (s.send flags mss).2⟩ := by
  -- A chunk is at most what is left of the response and of a segment.
  have room := bounded.room
  unfold HttpState.send
  by_cases active : s.state = .sending ∧ flags.sends
  · obtain ⟨data, length⟩ := bounded.sending active.1
    rw [if_pos active]
    by_cases more : s.pos < s.totalLen
    · rw [if_pos more]
      have bound := chunk_le (s.totalLen - s.pos) mss
      dsimp only at bound ⊢
      generalize (if s.totalLen - s.pos > (if mss > maxDriverSendBytes then maxDriverSendBytes
        else mss) then (if mss > maxDriverSendBytes then maxDriverSendBytes else mss)
          else s.totalLen - s.pos) = chunkLen at bound ⊢
      have inside : s.pos + chunkLen ≤ s.totalLen := by omega
      split
      · rename_i some_
        refine ⟨⟨inside, bounded.total, fun _ => ⟨data, length⟩⟩, chunkLen, some_, bound.1, ?_, ?_⟩
        · rw [← length]
          exact inside
        · rw [data]
      · exact ⟨bounded, trivial⟩
    · rw [if_neg more]
      split
      · rename_i none_
        exact ⟨⟨room, bounded.total, nofun⟩, by simp only; omega, none_⟩
      · exact ⟨bounded, trivial⟩
  · rw [if_neg active]
    exact ⟨bounded, trivial⟩

/-- A call keeps the positions in order. -/
theorem HttpState.Bounded.appcall (bounded : s.Bounded) :
    (httpdAppcall s flags mss).1.Bounded ∧
      Answer.Proper ⟨(httpdAppcall s flags mss).1, mss, (httpdAppcall s flags mss).2⟩ := by
  unfold httpdAppcall
  split
  · exact ⟨⟨Nat.le_refl _, Nat.zero_le _, nofun⟩, trivial⟩
  · split
    · exact ⟨⟨bounded.room, bounded.total, nofun⟩, trivial⟩
    · exact bounded.advance.respond.send

end Steps

/-- The HTTP server sends only parts of its response, and closes a connection only behind the last
one, whatever events come after the one that reports the connection. -/
theorem httpd_sends_slices {before s : HttpState} {first : Call} {history : List Answer}
    (connected : first.flags.connected = true) (served : HttpState.Serves before first s history) :
    Orderly s history := by
  -- The bounds on the position hold from the connection on, and each call keeps them.
  have start : (httpdAppcall before first.flags first.mss).1.Bounded := by
    rw [httpdAppcall, if_pos connected]
    exact ⟨Nat.le_refl _, Nat.zero_le _, fun closing => by cases closing⟩
  have nothing : ∀ answer ∈ ([] : List Answer), answer.Proper :=
    fun _ member => absurd member List.not_mem_nil
  have sound := served.invariant
    (fun s history => s.Bounded ∧ ∀ answer ∈ history, answer.Proper) ⟨start, nothing⟩ ?_
  · exact ⟨sound.1.room, sound.2⟩
  · rintro s call after history answers ⟨bounded, proper⟩ ⟨rfl, rfl⟩
    obtain ⟨bounded, last⟩ := @HttpState.Bounded.appcall s call.flags call.mss bounded
    refine ⟨bounded, fun answer member => ?_⟩
    rcases List.mem_append.mp member with earlier | here
    · exact proper answer earlier
    · rw [List.mem_singleton.mp here]
      exact last

/-- A client acknowledges some parts, asks for one again, and sends more data. -/
def sampleCalls : List Call :=
  [⟨{ connected := true }, 300⟩, ⟨{ newdata := true }, 300⟩, ⟨{ acked := true }, 300⟩,
    ⟨{ rexmit := true }, 200⟩, ⟨{ newdata := true, acked := true }, 1000⟩, ⟨{ poll := true }, 100⟩]

namespace HttpState

/-- A connection goes through calls. -/
theorem serves_afterCalls {before s : HttpState} {first : Call} : ∀ {calls : List Call}
    {history : List Answer}, Serves before first s history →
    ∃ answers, Serves before first (s.afterCalls calls) (history ++ answers) := by
  intro calls
  induction calls generalizing s with
  | nil =>
    intro history served
    exact ⟨[], by rwa [List.append_nil]⟩
  | cons call rest ih =>
    intro history served
    obtain ⟨answers, more⟩ := ih (.step served ⟨rfl, rfl⟩)
    exact ⟨_ ++ answers, by rwa [← List.append_assoc]⟩

end HttpState

/-- The server is in the middle of its response. -/
theorem httpd_sends_slices_sample : ∃ s history,
    HttpState.Serves ⟨.closing, [], 7, 9, 9⟩ ⟨{ connected := true }, 300⟩ s history ∧
      s.state = .sending ∧ s.pos = 500 ∧ Orderly s history := by
  obtain ⟨answers, served⟩ := @HttpState.serves_afterCalls ⟨.closing, [], 7, 9, 9⟩ _
    ⟨{ connected := true }, 300⟩ sampleCalls [] .start
  refine ⟨_, _, served, ?_, ?_, httpd_sends_slices rfl served⟩
  · decide +kernel
  · decide +kernel

/-- No request is ignored: behind an event with new data, the server does not wait for a request
until a connection is reported again. -/
def Heard (before : HttpState) (calls : List Call) : Prop :=
  ∀ earlier call later rest, calls = earlier ++ call :: (later ++ rest) → call.carries →
    (∀ other ∈ later, other.flags.connected = false) →
    (before.afterCalls (earlier ++ call :: later)).state ≠ .waiting

section Requests

variable {s : HttpState} {call : Call}

/-- Some bytes of a response are sent, and the server waits no longer. -/
theorem HttpState.send_state (mss : Nat) (flags : Flags) (active : s.state ≠ .waiting) :
    (s.send flags mss).1.state ≠ .waiting := by
  unfold HttpState.send
  simp only [apply_ite Prod.fst, apply_ite HttpState.state, ite_self]
  split
  · split
    · exact active
    · split
      · exact nofun
      · exact active
  · exact active

/-- A server that does not wait for a request starts to do so only for a new connection. -/
theorem appcall_state (unconnected : call.flags.connected = false) (active : s.state ≠ .waiting) :
    (httpdAppcall s call.flags call.mss).1.state ≠ .waiting := by
  rw [httpdAppcall, if_neg (by rw [unconnected]; decide)]
  split
  · intro waits
    cases waits
  · apply HttpState.send_state
    have same : ((s.advance call.flags).state) = s.state := by
      unfold HttpState.advance
      split <;> rfl
    unfold HttpState.respond
    rw [if_neg fun both => active (same ▸ both.2), same]
    exact active

/-- A request is taken unless the event reports the connection, too. -/
theorem appcall_carries (carries : call.carries = true) :
    (httpdAppcall s call.flags call.mss).1.state = .waiting ↔ call.flags.connected = true := by
  rw [Call.carries, Bool.and_eq_true, Bool.not_eq_true'] at carries
  obtain ⟨newdata, goes⟩ := carries
  constructor
  · intro waits
    by_contra unconnected
    rw [httpdAppcall, if_neg unconnected, if_neg (by rw [goes]; decide)] at waits
    refine HttpState.send_state call.mss call.flags ?_ waits
    unfold HttpState.respond
    split
    · intro waits_
      cases waits_
    · rename_i other
      exact fun state => other ⟨newdata, state⟩
  · intro connected
    rw [httpdAppcall, if_pos connected]

end Requests

/-- Every request is heard exactly if no event reports a connection and brings new data at once. -/
theorem request_heard_iff (before : HttpState) (calls : List Call) :
    Heard before calls ↔ ∀ call ∈ calls, call.flags.connected = true → call.carries = false := by
  constructor
  · intro heard call member connected
    by_contra carries
    rw [Bool.not_eq_false] at carries
    obtain ⟨earlier, rest, shape⟩ := List.append_of_mem member
    refine heard earlier call [] rest shape carries nofun ?_
    simp only [HttpState.afterCalls, List.foldl_append, List.foldl_cons, List.foldl_nil]
    exact (appcall_carries carries).mpr connected
  · intro apart earlier call later rest shape carries unconnected
    have fresh : call.flags.connected ≠ true := by
      intro connected
      have missed := apart call (by simp [shape]) connected
      rw [missed] at carries
      cases carries
    have taken : (before.afterCalls (earlier ++ [call])).state ≠ .waiting := by
      simp only [HttpState.afterCalls, List.foldl_append, List.foldl_cons, List.foldl_nil]
      exact mt (appcall_carries carries).mp fresh
    -- The later calls keep the server from waiting again.
    have kept : ∀ (calls : List Call) (s : HttpState), s.state ≠ .waiting →
        (∀ other ∈ calls, other.flags.connected = false) →
        (s.afterCalls calls).state ≠ .waiting := by
      intro calls
      induction calls with
      | nil => exact fun s active _ => active
      | cons other calls ih =>
        intro s active unconnected
        exact ih _ (appcall_state (unconnected other (List.mem_cons_self ..)) active)
          fun next member => unconnected next (List.mem_cons_of_mem _ member)
    have split : before.afterCalls (earlier ++ call :: later) =
        (before.afterCalls (earlier ++ [call])).afterCalls later := by
      simp only [HttpState.afterCalls, List.foldl_append, List.foldl_cons, List.foldl_nil]
    rw [split]
    exact kept later _ taken unconnected

/-- A request that comes with the end of the handshake is ignored. -/
theorem request_ignored :
    ¬ Heard ⟨.closing, [], 0, 0, 0⟩ [⟨{ connected := true, newdata := true }, 366⟩] := by
  intro heard
  exact heard [] _ [] [] rfl rfl nofun rfl

end Egos.Uip
