import Egos.Uip.Tcp

/-! What a segment, the timer, and a request for new data can do to a connection. -/

namespace Egos.Uip

namespace Process

variable {app : AppCall → List AppAction} {p : Process}

/-- The call that the application sees. -/
def shown (p : Process) (skip : Nat) : AppCall :=
  ⟨p.conn, p.flags, p.uipLen, fun k => p.data (skip + k)⟩

/-- An action of the application changes no more of a connection than whether its peer is
stopped. -/
theorem act_keeps (action : AppAction) :
    (p.act action).conn = { p.conn with
        tcpstateflags := ⟨p.conn.tcpstateflags.state, (p.act action).conn.tcpstateflags.stopped⟩ } ∧
      (p.act action).calls = p.calls ∧ (p.act action).uipLen = p.uipLen := by
  cases action with
  | send data =>
    simp only [act]
    split
    · exact ⟨rfl, rfl, rfl⟩
    · exact ⟨rfl, rfl, rfl⟩
  | close => exact ⟨rfl, rfl, rfl⟩
  | abort => exact ⟨rfl, rfl, rfl⟩
  | stop => exact ⟨rfl, rfl, rfl⟩
  | restart => exact ⟨rfl, rfl, rfl⟩

/-- The actions of the application change no more of a connection. -/
theorem foldl_act_keeps (actions : List AppAction) :
    (actions.foldl act p).conn = { p.conn with
        tcpstateflags :=
          ⟨p.conn.tcpstateflags.state, (actions.foldl act p).conn.tcpstateflags.stopped⟩ } ∧
      (actions.foldl act p).calls = p.calls ∧ (actions.foldl act p).uipLen = p.uipLen := by
  induction actions generalizing p with
  | nil => exact ⟨rfl, rfl, rfl⟩
  | cons action actions ih =>
    obtain ⟨conn, calls, uipLen⟩ := p.act_keeps action
    obtain ⟨conn', calls', uipLen'⟩ := ih (p := p.act action)
    rw [List.foldl_cons]
    refine ⟨?_, calls'.trans calls, uipLen'.trans uipLen⟩
    rw [conn', conn]

/-- A call changes no more of a connection than whether its peer is stopped. -/
theorem appcall_conn (skip : Nat) : (p.appcall app skip).conn = { p.conn with
    tcpstateflags :=
      ⟨p.conn.tcpstateflags.state, (p.appcall app skip).conn.tcpstateflags.stopped⟩ } :=
  (foldl_act_keeps _).1

/-- A call is remembered. -/
@[simp] theorem appcall_calls (skip : Nat) :
    (p.appcall app skip).calls = p.calls ++ [p.shown skip] :=
  (foldl_act_keeps _).2.1

/-- A call keeps the length of the data that has arrived. -/
@[simp] theorem appcall_uipLen (skip : Nat) : (p.appcall app skip).uipLen = p.uipLen :=
  (foldl_act_keeps _).2.2

/-- A call keeps the state of the connection. -/
@[simp] theorem appcall_state (skip : Nat) :
    (p.appcall app skip).conn.tcpstateflags.state = p.conn.tcpstateflags.state := by
  rw [appcall_conn]

/-- A call keeps what the connection expects. -/
@[simp] theorem appcall_rcvNxt (skip : Nat) :
    (p.appcall app skip).conn.rcvNxt = p.conn.rcvNxt := by
  rw [appcall_conn]

/-- A call keeps what the connection has sent. -/
@[simp] theorem appcall_sndNxt (skip : Nat) :
    (p.appcall app skip).conn.sndNxt = p.conn.sndNxt := by
  rw [appcall_conn]

/-- A call keeps the outstanding length. -/
@[simp] theorem appcall_len (skip : Nat) : (p.appcall app skip).conn.len = p.conn.len := by
  rw [appcall_conn]

end Process

/-- Both ends of a connection. -/
structure Endpoint where
  ripaddr : IpAddr
  rport : UInt16
  lport : UInt16
  deriving DecidableEq

/-- Both ends of a connection. -/
def Conn.endpoint (conn : Conn) : Endpoint := ⟨conn.ripaddr, conn.rport, conn.lport⟩

/-- The connection is in use. -/
def Conn.Active (conn : Conn) : Prop := conn.tcpstateflags ≠ .unused

namespace Process

variable {app : AppCall → List AppAction} {p : Process}

/-- A call keeps both ends of the connection. -/
@[simp] theorem appcall_endpoint (skip : Nat) :
    (p.appcall app skip).conn.endpoint = p.conn.endpoint := by
  rw [appcall_conn]
  rfl

/-- Limiting what is sent changes the outstanding length only. -/
theorem limit_eq : p.limit =
    { p with slen := p.limit.slen, conn := { p.conn with len := p.limit.conn.len } } := by
  unfold limit
  by_cases sends : p.slen > 0
  · by_cases fresh : (if p.flags.acked then 0 else p.conn.len) = 0
    · simp only [if_pos sends, if_pos fresh]
    · simp only [if_pos sends, if_neg fresh]
  · simp only [if_neg sends]

/-- What is transmitted does not change the connection. -/
theorem apprexmit_fst : p.apprexmit.1 = p := by
  unfold apprexmit
  split
  · rfl
  · split
    · rfl
    · rfl

/-- What the application asks for changes neither the ends of a connection nor what it expects or
has sent. -/
theorem appsend_keeps : p.appsend.1.conn.endpoint = p.conn.endpoint ∧
    p.appsend.1.conn.rcvNxt = p.conn.rcvNxt ∧ p.appsend.1.conn.sndNxt = p.conn.sndNxt ∧
    p.appsend.1.calls = p.calls := by
  unfold appsend
  split
  · exact ⟨rfl, rfl, rfl, rfl⟩
  · split
    · exact ⟨rfl, rfl, rfl, rfl⟩
    · dsimp only
      rw [apprexmit_fst, limit_eq]
      exact ⟨rfl, rfl, rfl, rfl⟩

end Process

/-- The connection is over, or about to be: no more data is taken or sent. -/
def TcpState.late : TcpState → Bool
  | .synRcvd | .synSent | .established => false
  | .closed | .finWait1 | .finWait2 | .closing | .timeWait | .lastAck => true

/-- The connection was closed here, before its peer did so. -/
def TcpState.finished : TcpState → Bool
  | .finWait1 | .finWait2 | .closing | .timeWait => true
  | .closed | .synRcvd | .synSent | .established | .lastAck => false

/-- The packet has no data, and does not open a connection. -/
def Goto.bare : Goto → Bool
  | .drop | .tcpSendFinack | .tcpSendAck => true
  | .tcpSendNodata flags => flags &&& (tcpSyn ||| tcpUrg) = 0
  | .reset | .tcpSendSynack | .tcpSendSyn | .tcpSendNoopts _ _ => false

/-- Nothing at all is a packet without data. -/
theorem Goto.bare_of_drop {goto : Goto} {closed : Prop}
    (either : goto = .drop ∨ goto.bare ∧ closed) : goto.bare := by
  rcases either with drop | ⟨bare, -⟩
  · rw [drop]
    rfl
  · exact bare

/-- An acknowledgement or nothing at all is a packet without data. -/
theorem Goto.bare_of_ack {goto : Goto} (either : goto = .drop ∨ goto = .tcpSendAck) :
    goto.bare := by
  rcases either with drop | ack
  · rw [drop]
    rfl
  · rw [ack]
    rfl

/-- A connection takes an acknowledgement of all that is outstanding or none. -/
theorem Conn.acknowledge_cases (conn : Conn) (hdr : TcpipHdr) :
    conn.acknowledge hdr = (conn, false) ∨
      conn.len ≠ 0 ∧ hdr.ackno = uipAdd32 conn.sndNxt conn.len ∧
        ∃ sa sv rto, conn.acknowledge hdr = ({ conn with
          sndNxt := uipAdd32 conn.sndNxt conn.len, sa := sa, sv := sv, rto := rto, timer := rto,
          len := 0 }, true) := by
  -- Only the number that covers all outstanding bytes is taken.
  unfold acknowledge
  by_cases outstanding : hdr.flags &&& tcpAck ≠ 0 ∧ conn.len ≠ 0
  · rw [if_pos outstanding]
    by_cases all : hdr.ackno = uipAdd32 conn.sndNxt conn.len
    · right
      refine ⟨outstanding.2, all, ?_⟩
      rw [if_pos all]
      by_cases once : conn.nrtx = 0
      · exact ⟨_, _, _, by dsimp only; rw [if_pos once]; rfl⟩
      · exact ⟨_, _, _, by dsimp only; rw [if_neg once]⟩
    · exact Or.inl (by rw [if_neg all])
  · exact Or.inl (by rw [if_neg outstanding])

/-- A flag that is set is among more flags. -/
theorem flags_of_flag {flags flag more : UInt8} (among : more &&& flag = flag)
    (set : flags &&& flag ≠ 0) : flags &&& more ≠ 0 := by
  intro none
  apply set
  rw [← among, ← UInt8.and_assoc, none, UInt8.zero_and]

namespace Process

/-- The length of the data of a segment. -/
def payloadLen (p : Process) (hdr : TcpipHdr) : UInt16 :=
  p.uipLen - ((hdr.tcpoffset >>> 4) <<< 2).toUInt16 - UInt16.ofNat uipIphLen

/-- The connection goes on as before. -/
structure Same (p p' : Process) : Prop where
  endpoint : p'.conn.endpoint = p.conn.endpoint
  tcpstateflags : p'.conn.tcpstateflags = p.conn.tcpstateflags
  rcvNxt : p'.conn.rcvNxt = p.conn.rcvNxt
  sndNxt : p'.conn.sndNxt = p.conn.sndNxt
  len : p'.conn.len = p.conn.len
  calls : p'.calls = p.calls

/-- The state of a connection that goes on as before. -/
theorem Same.state {p p' : Process} (same : p.Same p') :
    p'.conn.tcpstateflags.state = p.conn.tcpstateflags.state := by
  rw [same.tcpstateflags]

/-- The application is told that its connection is over, and nothing else. -/
structure Farewell (ends : Endpoint) (call : AppCall) : Prop where
  ended : call.flags.ended = true
  newdata : call.flags.newdata = false
  connected : call.flags.connected = false
  acked : call.flags.acked = false
  endpoint : call.conn.endpoint = ends

/-- The connection is over or about to be, and the application is told no more than that. -/
structure Quiet (p : Process) (r : Process × Goto) : Prop where
  endpoint : r.1.conn.endpoint = p.conn.endpoint
  late : r.1.conn.tcpstateflags.state.late
  calls : r.1.calls = p.calls ∧ p.conn.tcpstateflags.state.late ∨
    ∃ call, r.1.calls = p.calls ++ [call] ∧ Farewell p.conn.endpoint call
  finished : r.1.conn.tcpstateflags.state.finished → p.conn.tcpstateflags.state.finished
  rcvNxt : ¬ p.conn.tcpstateflags.state.finished → r.1.conn.rcvNxt = p.conn.rcvNxt

/-- The first segment that acknowledges the opening of a connection. -/
structure Connects (hdr : TcpipHdr) (p q : Process) : Prop where
  rst : hdr.flags &&& tcpRst = 0
  before : p.conn.tcpstateflags.state = .synRcvd
  acked : (p.conn.acknowledge hdr).2 = true
  endpoint : q.conn.endpoint = p.conn.endpoint
  state : q.conn.tcpstateflags.state = .established
  sndNxt : q.conn.sndNxt = uipAdd32 p.conn.sndNxt p.conn.len
  len : q.conn.len = 0
  uipLen : q.uipLen = p.payloadLen hdr
  rcvNxt : q.conn.rcvNxt =
    if q.uipLen > 0 then uipAdd32 p.conn.rcvNxt q.uipLen else p.conn.rcvNxt
  expected : q.uipLen > 0 → hdr.seqno = p.conn.rcvNxt
  flags : q.flags = { connected := true, newdata := decide (q.uipLen > 0) }
  slen : q.slen = 0
  data : q.data = p.data
  calls : q.calls = p.calls

/-- The segment that answers the opening of a connection. -/
structure Answers (hdr : TcpipHdr) (p q : Process) : Prop where
  rst : hdr.flags &&& tcpRst = 0
  before : p.conn.tcpstateflags.state = .synSent
  acked : (p.conn.acknowledge hdr).2 = true
  syn : hdr.flags &&& tcpCtl = tcpSyn ||| tcpAck
  endpoint : q.conn.endpoint = p.conn.endpoint
  state : q.conn.tcpstateflags.state = .established
  sndNxt : q.conn.sndNxt = uipAdd32 p.conn.sndNxt p.conn.len
  len : q.conn.len = 0
  uipLen : q.uipLen = 0
  rcvNxt : q.conn.rcvNxt = uipAdd32 hdr.seqno 1
  flags : q.flags = { connected := true, newdata := true }
  slen : q.slen = 0
  calls : q.calls = p.calls

/-- A segment of an established connection that the application is told of. -/
structure Serves (hdr : TcpipHdr) (p q : Process) : Prop where
  rst : hdr.flags &&& tcpRst = 0
  before : p.conn.tcpstateflags.state = .established
  endpoint : q.conn.endpoint = p.conn.endpoint
  state : q.conn.tcpstateflags.state = .established
  sndNxt : q.conn.sndNxt = (p.conn.acknowledge hdr).1.sndNxt
  len : q.conn.len = (p.conn.acknowledge hdr).1.len
  uipLen : q.uipLen = p.payloadLen hdr - if hdr.flags &&& tcpUrg ≠ 0 then hdr.urgp else 0
  rcvNxt : q.conn.rcvNxt =
    if q.flags.newdata then uipAdd32 p.conn.rcvNxt q.uipLen else p.conn.rcvNxt
  expected : p.payloadLen hdr > 0 → hdr.seqno = p.conn.rcvNxt
  flags : q.flags = { acked := (p.conn.acknowledge hdr).2
                      newdata := decide (q.uipLen > 0 ∧ ¬ p.conn.tcpstateflags.stopped) }
  slen : q.slen = 0
  data : q.data = p.data
  calls : q.calls = p.calls

/-- A segment that ends the stream of the peer. -/
structure Ends (hdr : TcpipHdr) (p q : Process) : Prop where
  rst : hdr.flags &&& tcpRst = 0
  before : p.conn.tcpstateflags.state = .established
  fin : hdr.flags &&& tcpFin ≠ 0
  endpoint : q.conn.endpoint = p.conn.endpoint
  uipLen : q.uipLen = p.payloadLen hdr
  expected : hdr.seqno = p.conn.rcvNxt
  rcvNxt : q.conn.rcvNxt = uipAdd32 p.conn.rcvNxt (1 + q.uipLen)
  flags : q.flags = { acked := (p.conn.acknowledge hdr).2
                      closed := true
                      newdata := decide (q.uipLen > 0) }
  data : q.data = p.data
  calls : q.calls = p.calls

/-- What a segment can do to its connection. -/
inductive Found (app : AppCall → List AppAction) (hdr : TcpipHdr) (p : Process) :
    Process × Goto → Prop
  | quiet {r : Process × Goto} (quiet : p.Quiet r)
      (goto : r.2 = .drop ∨ r.2.bare ∧ p.conn.tcpstateflags.state.finished) : Found app hdr p r
  | refused {r : Process × Goto} (quiet : p.Quiet r)
      (state : p.conn.tcpstateflags.state = .synSent) (reset : r.2 = .reset) : Found app hdr p r
  | still {r : Process × Goto} (same : p.Same r.1) (goto : r.2 = .drop ∨ r.2 = .tcpSendAck)
      (strange : p.conn.tcpstateflags.state = .synSent →
        (p.payloadLen hdr > 0 ∨ hdr.flags &&& (tcpSyn ||| tcpFin) ≠ 0) ∧
          hdr.flags &&& tcpCtl ≠ tcpSyn ||| tcpAck) : Found app hdr p r
  | connects {q : Process} (connects : p.Connects hdr q) :
      Found app hdr p (q.appcall app 0).appsend
  | answers {q : Process} (answers : p.Answers hdr q) : Found app hdr p (q.appcall app 0).appsend
  | serves {q : Process} {skip : Nat}
      (skips : skip = (if hdr.flags &&& tcpUrg ≠ 0 then hdr.urgp else 0).toNat)
      (serves : p.Serves hdr q) : Found app hdr p (q.appcall app skip).appsend
  | ends {q p' : Process} (ends : p.Ends hdr q)
      (endpoint : p'.conn.endpoint = p.conn.endpoint)
      (state : p'.conn.tcpstateflags.state = .lastAck)
      (rcvNxt : p'.conn.rcvNxt = q.conn.rcvNxt)
      (calls : p'.calls = p.calls ++ [q.shown 0]) : Found app hdr p (p', .tcpSendFinack)

variable {app : AppCall → List AppAction} {hdr : TcpipHdr} {p : Process} {r : Process × Goto}

/-- Data is counted as received, and the application is told of it. -/
theorem takeData_eq (stopped : Bool) : p.takeData stopped = { p with
    conn.rcvNxt := if p.uipLen > 0 ∧ ¬ stopped then uipAdd32 p.conn.rcvNxt p.uipLen
      else p.conn.rcvNxt
    flags.newdata := decide (p.uipLen > 0 ∧ ¬ stopped) || p.flags.newdata } := by
  unfold takeData
  by_cases taken : p.uipLen > 0 ∧ ¬ stopped
  · simp only [if_pos taken, decide_eq_true taken, Bool.true_or, addRcvNxt]
  · simp only [if_neg taken, decide_eq_false taken, Bool.false_or]

/-- Data that is counted as received changes no more than that. -/
theorem drained (p : Process) : ∃ q, (if p.uipLen > 0 then p.addRcvNxt p.uipLen else p) = q ∧
    q.conn = { p.conn with rcvNxt := q.conn.rcvNxt } ∧ q.calls = p.calls := by
  refine ⟨_, rfl, ?_⟩
  split
  · exact ⟨rfl, rfl⟩
  · exact ⟨rfl, rfl⟩

/-- A call that tells of the end is quiet. -/
theorem Quiet.call {q : Process} (endpoint : q.conn.endpoint = p.conn.endpoint)
    (late : q.conn.tcpstateflags.state.late) (calls : q.calls = p.calls)
    (ended : q.flags.ended = true) (newdata : q.flags.newdata = false)
    (connected : q.flags.connected = false) (acked : q.flags.acked = false)
    (finished : q.conn.tcpstateflags.state.finished → p.conn.tcpstateflags.state.finished)
    (rcvNxt : ¬ p.conn.tcpstateflags.state.finished → q.conn.rcvNxt = p.conn.rcvNxt)
    (goto : Goto) : p.Quiet (q.appcall app 0, goto) := by
  -- The flags of the call say that the connection is at its end.
  constructor
  case endpoint => rw [appcall_endpoint, endpoint]
  case late =>
    rw [appcall_state]
    exact late
  case calls =>
    right
    refine ⟨q.shown 0, ?_, ended, newdata, connected, acked, endpoint⟩
    rw [appcall_calls, calls]
  case finished =>
    rw [appcall_state]
    exact finished
  case rcvNxt =>
    rw [appcall_rcvNxt]
    exact rcvNxt

/-- A connection that was closed here is over or about to be. -/
theorem late_of_finished {state : TcpState} (closed : state.finished) : state.late := by
  cases state with
  | finWait1 | finWait2 | closing | timeWait => rfl
  | closed | synRcvd | synSent | established | lastAck => cases closed

/-- A connection that was closed here is quiet, whatever else happens to it. -/
theorem Quiet.of_finished (closed : p.conn.tcpstateflags.state.finished)
    (endpoint : r.1.conn.endpoint = p.conn.endpoint) (late : r.1.conn.tcpstateflags.state.late)
    (calls : r.1.calls = p.calls) : p.Quiet r :=
  ⟨endpoint, late, Or.inl ⟨calls, late_of_finished closed⟩, fun _ => closed,
    fun running => absurd closed running⟩

/-- A segment that finds a connection closed here does no more than to bring it to its end. -/
theorem lateStates (acked : Bool) (late : p.conn.tcpstateflags.state.late)
    (dispatched : p.dispatch app hdr acked = some r) :
    p.Quiet r ∧ (r.2 = .drop ∨ r.2.bare ∧ p.conn.tcpstateflags.state.finished) := by
  -- In each state that is left, nothing but its own acknowledgement or end is answered.
  have still (goto : Goto) : p.Quiet (p, goto) :=
    ⟨rfl, late, Or.inl ⟨rfl, late⟩, fun closed => closed, fun _ => rfl⟩
  unfold dispatch at dispatched
  cases state : p.conn.tcpstateflags.state with
  | synRcvd => simp [state, TcpState.late] at late
  | synSent => simp [state, TcpState.late] at late
  | established => simp [state, TcpState.late] at late
  | closed =>
    simp only [state, Option.some.injEq] at dispatched
    subst dispatched
    exact ⟨still _, Or.inl rfl⟩
  | timeWait =>
    simp only [state, Option.some.injEq] at dispatched
    subst dispatched
    exact ⟨still _, Or.inr ⟨rfl, rfl⟩⟩
  | lastAck =>
    simp only [state, Option.some.injEq, lastAck] at dispatched
    split at dispatched
    · subst dispatched
      refine ⟨?_, Or.inl rfl⟩
      apply Quiet.call
      case finished =>
        intro closed
        cases closed
      all_goals first | rfl | exact fun _ => rfl
    · subst dispatched
      exact ⟨still _, Or.inl rfl⟩
  | closing =>
    have closed : p.conn.tcpstateflags.state.finished := by
      rw [state]
      rfl
    simp only [state, Option.some.injEq, closing] at dispatched
    split at dispatched
    · subst dispatched
      exact ⟨Quiet.of_finished closed rfl rfl rfl, Or.inl rfl⟩
    · subst dispatched
      exact ⟨still _, Or.inl rfl⟩
  | finWait1 =>
    have closed : p.conn.tcpstateflags.state.finished := by
      rw [state]
      rfl
    obtain ⟨q, taken, conn, calls⟩ := p.drained
    have endpoint : q.conn.endpoint = p.conn.endpoint := by
      rw [conn]
      rfl
    have stays : q.conn.tcpstateflags.state.late := by
      rw [conn]
      exact late
    simp only [state, Option.some.injEq, finWait1, taken] at dispatched
    by_cases fin : hdr.flags &&& tcpFin ≠ 0
    · rw [if_pos fin] at dispatched
      subst dispatched
      refine ⟨?_, Or.inr ⟨rfl, rfl⟩⟩
      apply Quiet.call
      case finished => exact fun _ => closed
      case rcvNxt => exact fun running => absurd closed running
      all_goals cases acked
      all_goals first | rfl | assumption
    · rw [if_neg fin] at dispatched
      split at dispatched
      · subst dispatched
        exact ⟨Quiet.of_finished closed endpoint rfl calls, Or.inl rfl⟩
      · split at dispatched
        · subst dispatched
          exact ⟨Quiet.of_finished closed endpoint stays calls, Or.inr ⟨rfl, rfl⟩⟩
        · subst dispatched
          exact ⟨Quiet.of_finished closed endpoint stays calls, Or.inl rfl⟩
  | finWait2 =>
    have closed : p.conn.tcpstateflags.state.finished := by
      rw [state]
      rfl
    obtain ⟨q, taken, conn, calls⟩ := p.drained
    have endpoint : q.conn.endpoint = p.conn.endpoint := by
      rw [conn]
      rfl
    have stays : q.conn.tcpstateflags.state.late := by
      rw [conn]
      exact late
    simp only [state, Option.some.injEq, finWait2, taken] at dispatched
    split at dispatched
    · subst dispatched
      refine ⟨?_, Or.inr ⟨rfl, rfl⟩⟩
      apply Quiet.call
      case finished => exact fun _ => closed
      case rcvNxt => exact fun running => absurd closed running
      all_goals first | rfl | assumption
    · split at dispatched
      · subst dispatched
        exact ⟨Quiet.of_finished closed endpoint stays calls, Or.inr ⟨rfl, rfl⟩⟩
      · subst dispatched
        exact ⟨Quiet.of_finished closed endpoint stays calls, Or.inl rfl⟩

/-- A connection after it has taken what a segment acknowledges. -/
structure Acknowledged (hdr : TcpipHdr) (p q : Process) : Prop where
  rst : hdr.flags &&& tcpRst = 0
  conn : q.conn = (p.conn.acknowledge hdr).1
  flags : q.flags = { acked := (p.conn.acknowledge hdr).2 }
  uipLen : q.uipLen = p.payloadLen hdr
  data : q.data = p.data
  calls : q.calls = p.calls
  expected : p.conn.tcpstateflags.state ≠ .synSent →
    p.payloadLen hdr > 0 ∨ hdr.flags &&& (tcpSyn ||| tcpFin) ≠ 0 → hdr.seqno = p.conn.rcvNxt

section Acknowledging

variable {q : Process}

/-- What a segment acknowledges changes neither the state nor what the connection expects. -/
theorem Acknowledged.keeps (taken : Acknowledged hdr p q) :
    q.conn.endpoint = p.conn.endpoint ∧ q.conn.tcpstateflags = p.conn.tcpstateflags ∧
      q.conn.rcvNxt = p.conn.rcvNxt := by
  rw [taken.conn]
  rcases p.conn.acknowledge_cases hdr with none | ⟨-, -, sa, sv, rto, all⟩
  · rw [none]
    exact ⟨rfl, rfl, rfl⟩
  · rw [all]
    exact ⟨rfl, rfl, rfl⟩

/-- An acknowledgement moves on by the outstanding length. -/
theorem acknowledge_sndNxt (acked : (p.conn.acknowledge hdr).2 = true) :
    (p.conn.acknowledge hdr).1.sndNxt = uipAdd32 p.conn.sndNxt p.conn.len := by
  rcases p.conn.acknowledge_cases hdr with none | ⟨-, -, sa, sv, rto, all⟩
  · rw [none] at acked
    cases acked
  · rw [all]

/-- The opening of a connection is acknowledged, or nothing happens. -/
theorem synRcvd_found (taken : Acknowledged hdr p q)
    (state : p.conn.tcpstateflags.state = .synRcvd) :
    Found app hdr p (q.synRcvd app (p.conn.acknowledge hdr).2) := by
  -- The acknowledgement may bring the first data along.
  obtain ⟨endpoint, flags, rcvNxt⟩ := taken.keeps
  have expected : p.payloadLen hdr > 0 → hdr.seqno = p.conn.rcvNxt := by
    intro some
    apply taken.expected _ (Or.inl some)
    rw [state]
    exact TcpState.noConfusion
  unfold synRcvd
  cases acked : (p.conn.acknowledge hdr).2 with
  | false =>
    rw [if_neg Bool.false_ne_true]
    have apart : p.conn.tcpstateflags.state ≠ .synSent := by
      rw [state]
      exact TcpState.noConfusion
    apply Found.still _ (Or.inl rfl) fun opening => absurd opening apart
    have still := taken.conn
    rcases p.conn.acknowledge_cases hdr with none | ⟨-, -, sa, sv, rto, all⟩
    · rw [none] at still
      exact ⟨endpoint, flags, rcvNxt, by rw [still], by rw [still], taken.calls⟩
    · rw [all] at acked
      cases acked
  | true =>
    rw [if_pos rfl]
    have sndNxt : q.conn.sndNxt = uipAdd32 p.conn.sndNxt p.conn.len := by
      rw [taken.conn, acknowledge_sndNxt acked]
    simp only [takeData_eq]
    apply Found.connects
    constructor
    case rst => exact taken.rst
    case before => exact state
    case acked => exact acked
    case endpoint => exact endpoint
    case state => rfl
    case sndNxt => exact sndNxt
    case len => rfl
    case uipLen => exact taken.uipLen
    case rcvNxt => simp only [rcvNxt, Bool.false_eq_true, not_false_eq_true, and_true]
    case expected =>
      intro some
      apply expected
      rw [← taken.uipLen]
      exact some
    case flags => simp only [Bool.false_eq_true, not_false_eq_true, and_true, Bool.or_false]
    case slen => rfl
    case data => exact taken.data
    case calls => exact taken.calls

/-- The opening of a connection is answered, or the connection is given up. -/
theorem synSent_found (taken : Acknowledged hdr p q)
    (state : p.conn.tcpstateflags.state = .synSent)
    (found : q.synSent app hdr (p.conn.acknowledge hdr).2 = some r) : Found app hdr p r := by
  obtain ⟨endpoint, flags, rcvNxt⟩ := taken.keeps
  unfold synSent at found
  by_cases answered : (p.conn.acknowledge hdr).2 = true ∧ hdr.flags &&& tcpCtl = tcpSyn ||| tcpAck
  · rw [if_pos answered] at found
    have sndNxt : q.conn.sndNxt = uipAdd32 p.conn.sndNxt p.conn.len := by
      rw [taken.conn, acknowledge_sndNxt answered.1]
    obtain ⟨tmp16, -, rest⟩ := Option.bind_eq_some_iff.mp found
    obtain rfl := Option.some.inj rest
    -- The segment size is no more than a limit to what is sent.
    have kept : (q.conn.takeMss tmp16).endpoint = q.conn.endpoint ∧
        (q.conn.takeMss tmp16).sndNxt = q.conn.sndNxt := by
      cases tmp16 with
      | none => exact ⟨rfl, rfl⟩
      | some mss => exact ⟨rfl, rfl⟩
    apply Found.answers
    constructor
    case rst => exact taken.rst
    case before => exact state
    case acked => exact answered.1
    case syn => exact answered.2
    case endpoint => exact kept.1.trans endpoint
    case state => rfl
    case sndNxt => exact kept.2.trans sndNxt
    case len => rfl
    case uipLen => rfl
    case rcvNxt => rfl
    case flags => rfl
    case slen => rfl
    case calls => exact taken.calls
  · rw [if_neg answered] at found
    obtain rfl := Option.some.inj found
    apply Found.refused _ state rfl
    constructor
    case endpoint => exact (appcall_endpoint 0).trans endpoint
    case late => rfl
    case calls =>
      right
      refine ⟨shown { q with flags := { aborted := true } } 0, ?_, rfl, rfl, rfl, rfl, endpoint⟩
      rw [← taken.calls]
      exact appcall_calls 0
    case finished =>
      intro closed
      cases closed
    case rcvNxt => exact fun _ => (appcall_rcvNxt 0).trans rcvNxt

/-- Data arrives on an established connection, or its peer ends it. -/
theorem established_found (taken : Acknowledged hdr p q)
    (state : p.conn.tcpstateflags.state = .established) :
    Found app hdr p (q.established app hdr) := by
  obtain ⟨endpoint, flags, rcvNxt⟩ := taken.keeps
  have apart : p.conn.tcpstateflags.state ≠ .synSent := by
    rw [state]
    exact TcpState.noConfusion
  have still : (p.conn.acknowledge hdr).2 = false → q.conn = p.conn := by
    intro none
    rw [taken.conn]
    rcases p.conn.acknowledge_cases hdr with same | ⟨-, -, sa, sv, rto, all⟩
    · rw [same]
    · rw [all] at none
      cases none
  unfold established
  by_cases fin : hdr.flags &&& tcpFin ≠ 0 ∧ ¬ q.conn.tcpstateflags.stopped
  · simp only [if_pos fin]
    by_cases outstanding : q.conn.len ≠ 0
    · -- Data is outstanding, so that it was not acknowledged.
      rw [if_pos outstanding]
      have same : q.conn = p.conn := by
        apply still
        rcases p.conn.acknowledge_cases hdr with none | ⟨-, -, sa, sv, rto, all⟩
        · rw [none]
        · rw [taken.conn, all] at outstanding
          exact absurd rfl outstanding
      apply Found.still _ (Or.inl rfl) fun opening => absurd opening apart
      exact ⟨endpoint, flags, rcvNxt, by rw [same], by rw [same], taken.calls⟩
    · rw [if_neg outstanding]
      have expected : hdr.seqno = p.conn.rcvNxt := by
        apply taken.expected apart
        exact Or.inr (flags_of_flag rfl fin.1)
      -- The application is called with the last data of the stream.
      let q' : Process := { addRcvNxt q (1 + q.uipLen) with
        flags := { q.flags with closed := true, newdata := q.uipLen > 0 || q.flags.newdata } }
      have ends : p.Ends hdr q' := by
        constructor
        case rst => exact taken.rst
        case before => exact state
        case fin => exact fin.1
        case endpoint => exact endpoint
        case uipLen => exact taken.uipLen
        case expected => exact expected
        case rcvNxt => exact congrArg (uipAdd32 · _) rcvNxt
        case flags => simp only [q', taken.flags, Bool.or_false, addRcvNxt]
        case data => exact taken.data
        case calls => exact taken.calls
      apply Found.ends ends
      · exact (appcall_endpoint 0).trans endpoint
      · rfl
      · exact appcall_rcvNxt 0
      · exact (appcall_calls 0).trans (by rw [← taken.calls]; rfl)
  · simp only [if_neg fin, takeData_eq]
    by_cases told : (decide (q.uipLen - (if hdr.flags &&& tcpUrg ≠ 0 then hdr.urgp else 0) > 0 ∧
        ¬ q.conn.tcpstateflags.stopped) || q.flags.newdata) = true ∨ q.flags.acked = true
    · rw [if_pos told]
      have sndNxt : q.conn.sndNxt = (p.conn.acknowledge hdr).1.sndNxt := by rw [taken.conn]
      have len : q.conn.len = (p.conn.acknowledge hdr).1.len := by rw [taken.conn]
      apply Found.serves rfl
      constructor
      case rst => exact taken.rst
      case before => exact state
      case endpoint => exact endpoint
      case state => exact (congrArg TcpStateFlags.state flags).trans state
      case sndNxt => exact sndNxt
      case len => exact len
      case uipLen => simp only [taken.uipLen]
      case rcvNxt =>
        simp only [taken.flags, Bool.or_false, decide_eq_true_eq, rcvNxt]
      case expected => exact fun some => taken.expected apart (Or.inl some)
      case flags => simp only [taken.flags, Bool.or_false, flags]
      case slen => rfl
      case data => exact taken.data
      case calls => exact taken.calls
    · rw [if_neg told]
      -- Nothing has been acknowledged and there is no data to take.
      have quiet := not_or.mp told
      rw [taken.flags] at quiet
      have same : q.conn = p.conn := still (Bool.eq_false_iff.mpr quiet.2)
      have none : ¬ (q.uipLen - (if hdr.flags &&& tcpUrg ≠ 0 then hdr.urgp else 0) > 0 ∧
          ¬ q.conn.tcpstateflags.stopped) := by
        intro some
        apply quiet.1
        rw [decide_eq_true some, Bool.true_or]
      have sndNxt : q.conn.sndNxt = p.conn.sndNxt := by rw [same]
      have len : q.conn.len = p.conn.len := by rw [same]
      apply Found.still _ (Or.inl rfl) fun opening => absurd opening apart
      constructor
      case endpoint => exact endpoint
      case tcpstateflags => exact flags
      case rcvNxt => simp only [if_neg none, rcvNxt]
      case sndNxt => exact sndNxt
      case len => exact len
      case calls => exact taken.calls

end Acknowledging

/-- A segment does to its connection one of the things that it can do. -/
theorem found_cases (found : p.found app hdr = some r) : Found app hdr p r := by
  unfold Process.found at found
  by_cases rst : hdr.flags &&& tcpRst ≠ 0
  · rw [if_pos rst] at found
    obtain rfl := Option.some.inj found
    apply Found.quiet _ (Or.inl rfl)
    apply Quiet.call
    case finished =>
      intro closed
      cases closed
    all_goals first | rfl | exact fun _ => rfl
  rw [if_neg rst] at found
  let start : Process := { p with flags := {}, uipLen := p.payloadLen hdr }
  change (if start.unexpected hdr then some (start, Goto.tcpSendAck) else
    Process.dispatch app hdr (p.conn.acknowledge hdr).2
      { start with conn := (p.conn.acknowledge hdr).1
                   flags := { acked := (p.conn.acknowledge hdr).2 } }) = some r at found
  by_cases unexpected : start.unexpected hdr
  · rw [if_pos unexpected] at found
    obtain rfl := Option.some.inj found
    refine Found.still ⟨rfl, rfl, rfl, rfl, rfl, rfl⟩ (Or.inr rfl) fun opening =>
      ⟨unexpected.2.1, ?_⟩
    intro answer
    exact unexpected.1 ⟨opening, answer⟩
  rw [if_neg unexpected] at found
  generalize same : ({ start with
    conn := (p.conn.acknowledge hdr).1
    flags := { acked := (p.conn.acknowledge hdr).2 } } : Process) = q at found
  have taken : Acknowledged hdr p q := by
    subst same
    refine ⟨not_not.mp rst, rfl, rfl, rfl, rfl, rfl, ?_⟩
    intro apart some
    by_contra other
    exact unexpected ⟨fun both => apart both.1, some, other⟩
  obtain ⟨endpoint, flags, rcvNxt⟩ := taken.keeps
  have state : q.conn.tcpstateflags.state = p.conn.tcpstateflags.state := by rw [flags]
  -- Only three states are of interest from here on.
  cases before : p.conn.tcpstateflags.state with
  | synRcvd =>
    simp only [dispatch, state, before, Option.some.injEq] at found
    subst found
    exact synRcvd_found taken before
  | synSent =>
    simp only [dispatch, state, before] at found
    exact synSent_found taken before found
  | established =>
    simp only [dispatch, state, before, Option.some.injEq] at found
    subst found
    exact established_found taken before
  | closed | finWait1 | finWait2 | closing | timeWait | lastAck =>
    have late : q.conn.tcpstateflags.state.late := by
      rw [state, before]
      rfl
    obtain ⟨quiet, goto⟩ := lateStates _ late found
    obtain ⟨ends, late, calls, finished, next⟩ := quiet
    rw [flags] at goto finished next
    rw [rcvNxt] at next
    apply Found.quiet _ goto
    rw [flags, endpoint, taken.calls] at calls
    exact ⟨ends.trans endpoint, late, calls, finished, next⟩

/-- What the timer, or a request for new data, can do to a connection. -/
inductive Timed (app : AppCall → List AppAction) (p : Process) : Process × Goto → Prop
  | quiet {r : Process × Goto} (active : p.conn.Active) (quiet : p.Quiet r)
      (goto : r.2 = .drop ∨ r.2 = .tcpSendNodata (tcpRst ||| tcpAck)) : Timed app p r
  | idle {r : Process × Goto} (same : p.Same r.1) (goto : r.2 = .drop) : Timed app p r
  | still {r : Process × Goto} (active : p.conn.Active) (same : p.Same r.1)
      (goto : r.2 = .tcpSendFinack ∧ p.conn.tcpstateflags.state.late ∨
        r.2 = .tcpSendSynack ∧ p.conn.tcpstateflags.state = .synRcvd ∨
        r.2 = .tcpSendSyn ∧ p.conn.tcpstateflags.state = .synSent) : Timed app p r
  | rexmits {q : Process} (same : p.Same q) (state : p.conn.tcpstateflags.state = .established)
      (outstanding : p.conn.len ≠ 0) (flags : q.flags = { rexmit := true })
      (slen : q.slen = p.slen) : Timed app p (q.appcall app 0).apprexmit
  | polls {q : Process} (same : p.Same q) (state : p.conn.tcpstateflags.state = .established)
      (none : p.conn.len = 0) (flags : q.flags = { poll := true }) (slen : q.slen = p.slen) :
      Timed app p (q.appcall app 0).appsend

/-- A request for new data does one of the things that it can do. -/
theorem poll_cases : Timed app p (p.poll app) := by
  unfold poll
  split
  · rename_i idle
    exact Timed.polls ⟨rfl, rfl, rfl, rfl, rfl, rfl⟩ idle.1 idle.2 rfl rfl
  · exact Timed.idle ⟨rfl, rfl, rfl, rfl, rfl, rfl⟩ rfl

/-- What is transmitted again depends on the state of the connection. -/
theorem rexmit_cases {q : Process} (active : p.conn.Active) (same : p.Same q)
    (outstanding : p.conn.len ≠ 0) (slen : q.slen = p.slen) : Timed app p (q.rexmit app) := by
  -- The state decides which segment is sent again.
  unfold rexmit
  have state := same.state
  cases before : q.conn.tcpstateflags.state with
  | synRcvd => exact Timed.still active same (Or.inr (Or.inl ⟨rfl, state.symm.trans before⟩))
  | synSent => exact Timed.still active same (Or.inr (Or.inr ⟨rfl, state.symm.trans before⟩))
  | established =>
    refine Timed.rexmits ?_ (state.symm.trans before) outstanding rfl slen
    exact ⟨same.endpoint, same.tcpstateflags, same.rcvNxt, same.sndNxt, same.len, same.calls⟩
  | finWait1 | closing | lastAck =>
    have late : p.conn.tcpstateflags.state.late := by
      rw [← state, before]
      rfl
    exact Timed.still active same (Or.inl ⟨rfl, late⟩)
  | closed | finWait2 | timeWait => exact Timed.idle same rfl

/-- The timer does one of the things that it can do; nothing is left of what was sent before. -/
theorem timer_cases : Timed app { p with slen := 0 } (p.timer app) := by
  unfold timer
  have counted {timer nrtx : UInt8} : Same { p with slen := 0 } { p with
      conn := { p.conn with timer := timer, nrtx := nrtx }, flags := {}, uipLen := 0, slen := 0 } :=
    ⟨rfl, rfl, rfl, rfl, rfl, rfl⟩
  by_cases waiting : p.conn.tcpstateflags = ⟨.timeWait, false⟩ ∨
      p.conn.tcpstateflags = ⟨.finWait2, false⟩
  · simp only [if_pos waiting]
    split
    · have active : p.conn.Active := by
        intro unused
        rw [unused] at waiting
        exact absurd waiting (by decide)
      have late : p.conn.tcpstateflags.state.late := by
        rcases waiting with timeWait | finWait2
        · rw [timeWait]
          rfl
        · rw [finWait2]
          rfl
      refine Timed.quiet active ⟨rfl, rfl, Or.inl ⟨rfl, late⟩, ?_, fun _ => rfl⟩ (Or.inl rfl)
      intro closed
      cases closed
    · exact Timed.idle counted rfl
  simp only [if_neg waiting]
  by_cases active : p.conn.tcpstateflags ≠ .unused
  · rw [if_pos active]
    by_cases outstanding : p.conn.len ≠ 0
    · rw [if_pos outstanding]
      split
      · split
        · -- The peer has not answered for too long.
          refine Timed.quiet active ?_ (Or.inr rfl)
          apply Quiet.call
          case finished =>
            intro closed
            cases closed
          all_goals first | rfl | exact fun _ => rfl
        · exact rexmit_cases active counted outstanding rfl
      · exact Timed.idle counted rfl
    · rw [if_neg outstanding]
      split
      · rename_i state
        exact Timed.polls ⟨rfl, rfl, rfl, rfl, rfl, rfl⟩ state (not_not.mp outstanding) rfl rfl
      · exact Timed.idle counted rfl
  · rw [if_neg active]
    exact Timed.idle counted rfl

/-- A segment leaves its connection with its peer. -/
theorem Found.endpoint (found : Found app hdr p r) : r.1.conn.endpoint = p.conn.endpoint := by
  cases found with
  | quiet quiet goto => exact quiet.endpoint
  | refused quiet state reset => exact quiet.endpoint
  | still same goto strange => exact same.endpoint
  | connects connects =>
    rw [appsend_keeps.1, appcall_endpoint]
    exact connects.endpoint
  | answers answers =>
    rw [appsend_keeps.1, appcall_endpoint]
    exact answers.endpoint
  | serves skips serves =>
    rw [appsend_keeps.1, appcall_endpoint]
    exact serves.endpoint
  | ends ends endpoint state rcvNxt calls => exact endpoint

/-- The timer leaves a connection with its peer. -/
theorem Timed.endpoint (timed : Timed app p r) : r.1.conn.endpoint = p.conn.endpoint := by
  cases timed with
  | quiet active quiet goto => exact quiet.endpoint
  | idle same goto => exact same.endpoint
  | still active same goto => exact same.endpoint
  | rexmits same state outstanding flags slen =>
    rw [apprexmit_fst, appcall_endpoint]
    exact same.endpoint
  | polls same state none flags slen =>
    rw [appsend_keeps.1, appcall_endpoint]
    exact same.endpoint

/-- The timer does not bring a connection back. -/
theorem Timed.active (timed : Timed app p r) (active : r.1.conn.Active) : p.conn.Active := by
  have opened (state : p.conn.tcpstateflags.state = .established) : p.conn.Active := by
    intro unused
    rw [unused] at state
    cases state
  cases timed with
  | quiet before quiet goto => exact before
  | idle same goto =>
    intro unused
    exact active (same.tcpstateflags.trans unused)
  | still before same goto => exact before
  | rexmits same state outstanding flags slen => exact opened state
  | polls same state none flags slen => exact opened state

end Process

end Egos.Uip
