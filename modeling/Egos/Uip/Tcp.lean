import Egos.Uip.Httpd
import Egos.Uip.Packet
import Mathlib.Algebra.Group.Int.Defs

/-! TCP connections: what a segment, the timer, and the application make of one. -/

namespace Egos.Uip

/-- The first retransmission timeout. -/
abbrev uipRto : UInt8 := 3

/-- How often a segment is transmitted again. -/
abbrev uipMaxrtx : UInt8 := 8

/-- How often a segment that opens a connection is transmitted again. -/
abbrev uipMaxsynrtx : UInt8 := 5

/-- How long a closed connection is remembered. -/
abbrev uipTimeWaitTimeout : UInt8 := 120

/-- The segment ends the stream of its sender. -/
abbrev tcpFin : UInt8 := 0x01

/-- The segment opens a connection. -/
abbrev tcpSyn : UInt8 := 0x02

/-- The segment aborts a connection. -/
abbrev tcpRst : UInt8 := 0x04

/-- The segment is to be handed on at once. -/
abbrev tcpPsh : UInt8 := 0x08

/-- The segment acknowledges data. -/
abbrev tcpAck : UInt8 := 0x10

/-- The segment has urgent data. -/
abbrev tcpUrg : UInt8 := 0x20

/-- All flags of a segment. -/
abbrev tcpCtl : UInt8 := 0x3f

/-- How far a connection is. -/
inductive TcpState where
  | closed
  | synRcvd
  | synSent
  | established
  | finWait1
  | finWait2
  | closing
  | timeWait
  | lastAck
  deriving DecidableEq

/-- How far a connection is, and whether the application has stopped its peer. -/
structure TcpStateFlags where
  state : TcpState
  stopped : Bool
  deriving DecidableEq

/-- The value of an unused connection. -/
abbrev TcpStateFlags.unused : TcpStateFlags := ⟨.closed, false⟩

/-- A connection. -/
structure Conn where
  ripaddr : IpAddr
  lport : UInt16
  rport : UInt16
  rcvNxt : Seqno
  sndNxt : Seqno
  -- The length of what was sent and is not acknowledged.
  len : UInt16
  mss : UInt16
  initialmss : UInt16
  sa : UInt8
  sv : UInt8
  rto : UInt8
  tcpstateflags : TcpStateFlags
  timer : UInt8
  nrtx : UInt8
  deriving DecidableEq

/-- A call of the application, with the data that has arrived. -/
structure AppCall where
  conn : Conn
  flags : Flags
  uipLen : UInt16
  appdata : Nat → UInt8

/-- What an application does while it is called. -/
inductive AppAction where
  | send (data : List UInt8)
  | close
  | abort
  | stop
  | restart

/-- Where a packet is finished: the labels at the end of the processing function. -/
inductive Goto where
  | drop
  | reset
  | tcpSendSynack
  | tcpSendSyn
  | tcpSendFinack
  | tcpSendAck
  | tcpSendNodata (flags : UInt8)
  | tcpSendNoopts (flags : UInt8) (uipLen : UInt16)
  deriving DecidableEq

/-- The variables of the processing function that concern a connection. -/
structure Process where
  conn : Conn
  flags : Flags
  uipLen : UInt16
  slen : UInt16
  -- The memory behind the headers in the packet buffer.
  data : Nat → UInt8
  calls : List AppCall

namespace Process

/-- An action of the application. -/
def act (p : Process) : AppAction → Process
  | .send data =>
    if data.length > 0 then
      let slen := UInt16.ofNat data.length
      { p with slen := slen, data := fun k => if k < slen.toNat then data[k]?.getD 0 else p.data k }
    else p
  | .close => { p with flags := { closed := true } }
  | .abort => { p with flags := { aborted := true } }
  | .stop =>
    { p with conn.tcpstateflags.stopped := true }
  | .restart => { p with flags.newdata := true, conn.tcpstateflags.stopped := false }

/-- Calls the application; the data starts behind what is skipped. -/
def appcall (p : Process) (app : AppCall → List AppAction) (skip : Nat) : Process :=
  let call : AppCall := ⟨p.conn, p.flags, p.uipLen, fun k => p.data (skip + k)⟩
  (app call).foldl act { p with calls := p.calls ++ [call] }

/-- Moves to another state. -/
def setState (p : Process) (state : TcpState) : Process :=
  { p with conn.tcpstateflags := ⟨state, false⟩ }

/-- Counts bytes as received. -/
def addRcvNxt (p : Process) (n : UInt16) : Process :=
  { p with conn.rcvNxt := uipAdd32 p.conn.rcvNxt n }

/-- Takes the data of a segment, unless the application has stopped its peer. -/
def takeData (p : Process) (stopped : Bool) : Process :=
  if p.uipLen > 0 ∧ ¬ stopped then
    addRcvNxt { p with flags.newdata := true } p.uipLen
  else p

/-- Sends what the application has put into the buffer, or acknowledges new data. -/
def apprexmit (p : Process) : Process × Goto :=
  if p.slen > 0 ∧ p.conn.len > 0 then
    (p, .tcpSendNoopts (tcpAck ||| tcpPsh) (p.conn.len + UInt16.ofNat uipIptcphLen))
  else if p.flags.newdata then (p, .tcpSendNoopts tcpAck (UInt16.ofNat uipIptcphLen))
  else (p, .drop)

/-- Limits what the application sends, and remembers its length. -/
def limit (p : Process) : Process :=
  if p.slen > 0 then
    let len := if p.flags.acked then 0 else p.conn.len
    if len = 0 then
      let slen := if p.slen > p.conn.mss then p.conn.mss else p.slen
      { p with slen := slen, conn.len := slen }
    else { p with slen := len }
  else p

/-- Does what the application asks for. -/
def appsend (p : Process) : Process × Goto :=
  if p.flags.aborted then
    ({ p with slen := 0, conn.tcpstateflags := .unused }, .tcpSendNodata (tcpRst ||| tcpAck))
  else if p.flags.closed then
    ({ p with
        slen := 0
        conn.len := 1
        conn.tcpstateflags := ⟨.finWait1, false⟩
        conn.nrtx := 0 }, .tcpSendNodata (tcpFin ||| tcpAck))
  else
    let p := p.limit
    apprexmit { p with conn.nrtx := 0 }

end Process

namespace Conn

/-- Estimates the time that a segment and its acknowledgement take. -/
def estimate (conn : Conn) : Conn :=
  let m : Int8 := (conn.rto - conn.timer).toInt8
  let m := m - (conn.sa >>> 3).toInt8
  let sa := conn.sa + m.toUInt8
  let m := if m < 0 then -m else m
  let m := m - (conn.sv >>> 2).toInt8
  let sv := conn.sv + m.toUInt8
  { conn with sa := sa, sv := sv, rto := (sa >>> 3) + sv }

/-- Takes an acknowledgement, if it is one of all outstanding data. -/
def acknowledge (conn : Conn) (hdr : TcpipHdr) : Conn × Bool :=
  if hdr.flags &&& tcpAck ≠ 0 ∧ conn.len ≠ 0 then
    let acc32 := uipAdd32 conn.sndNxt conn.len
    if hdr.ackno = acc32 then
      let conn := { conn with sndNxt := acc32 }
      let conn := if conn.nrtx = 0 then conn.estimate else conn
      ({ conn with timer := conn.rto, len := 0 }, true)
    else (conn, false)
  else (conn, false)

end Conn

/-- Reads the options of a segment from a position on; there may be no end to it. -/
def parseMss (data : Nat → UInt8) (size : Nat) : Nat → UInt8 → Option (Option UInt16)
  | 0, _ => none
  | fuel + 1, c =>
    if c.toNat < size then
      let opt := data c.toNat
      if opt = 0 then some none
      else if opt = 1 then parseMss data size fuel (c + 1)
      else if opt = 2 ∧ data (1 + c.toNat) = 4 then
        some (some (((data (2 + c.toNat)).toUInt16 <<< 8) ||| (data (3 + c.toNat)).toUInt16))
      else if data (1 + c.toNat) = 0 then some none
      else parseMss data size fuel (c + data (1 + c.toNat))
    else some none

/-- How many rounds the options may take: all of them start at different positions. -/
abbrev optionRounds : Nat := 256

/-- The size of the options. -/
def optionSize (tcpoffset : UInt8) : Nat :=
  if tcpoffset &&& 0xf0 > 0x50 then (tcpoffset.toNat / 16 - 5) * 4 else 0

namespace Conn

/-- Takes the segment size from the options, if there is one. -/
def takeMss (conn : Conn) : Option UInt16 → Conn
  | none => conn
  | some tmp16 =>
    let mss := if tmp16 > UInt16.ofNat uipTcpMss then UInt16.ofNat uipTcpMss else tmp16
    { conn with initialmss := mss, mss := mss }

/-- Fills in a connection that a segment opens. -/
def accept (conn : Conn) (hdr : TcpipHdr) (iss : Seqno) : Conn :=
  { conn with
    rto := uipRto
    timer := uipRto
    sa := 0
    sv := 4
    nrtx := 0
    lport := hdr.destport
    rport := hdr.srcport
    ripaddr := hdr.srcipaddr
    tcpstateflags := ⟨.synRcvd, false⟩
    sndNxt := iss
    len := 1
    rcvNxt := uipAdd32 hdr.seqno 1 }

end Conn

namespace Process

variable (app : AppCall → List AppAction) (hdr : TcpipHdr) (acked : Bool) (p : Process)

/-- A segment for a connection that was opened by its peer. -/
def synRcvd : Process × Goto :=
  if acked then
    let p := { p with
      conn.tcpstateflags := ⟨.established, false⟩
      flags := { connected := true }
      conn.len := 0 }
    let p := p.takeData false
    (appcall { p with slen := 0 } app 0).appsend
  else (p, .drop)

/-- A segment for a connection that was opened here; there may be no end to its options. -/
def synSent : Option (Process × Goto) :=
  if acked ∧ hdr.flags &&& tcpCtl = tcpSyn ||| tcpAck then do
    let tmp16 ← parseMss p.data (optionSize hdr.tcpoffset) optionRounds 0
    let conn := { p.conn.takeMss tmp16 with
      tcpstateflags := ⟨.established, false⟩
      rcvNxt := uipAdd32 hdr.seqno 1
      len := 0 }
    let p := { p with
      conn := conn
      flags := { connected := true, newdata := true }
      uipLen := 0
      slen := 0 }
    return (p.appcall app 0).appsend
  else
    let p := appcall { p with flags := { aborted := true } } app 0
    some ({ p with conn.tcpstateflags := .unused }, .reset)

/-- A segment for an established connection. -/
def established : Process × Goto :=
  let stopped := p.conn.tcpstateflags.stopped
  if hdr.flags &&& tcpFin ≠ 0 ∧ ¬ stopped then
    if p.conn.len ≠ 0 then (p, .drop)
    else
      let p := p.addRcvNxt (1 + p.uipLen)
      let p := { p with
        flags.closed := true
        flags.newdata := p.uipLen > 0 || p.flags.newdata }
      let p := p.appcall app 0
      ({ p with
          conn.len := 1
          conn.tcpstateflags := ⟨.lastAck, false⟩
          conn.nrtx := 0 }, .tcpSendFinack)
  else
    -- Urgent data is skipped.
    let urgent := if hdr.flags &&& tcpUrg ≠ 0 then hdr.urgp else 0
    let p := takeData { p with uipLen := p.uipLen - urgent } stopped
    let tmp16 := if hdr.wnd > p.conn.initialmss ∨ hdr.wnd = 0 then p.conn.initialmss else hdr.wnd
    let p := { p with conn.mss := tmp16 }
    if p.flags.newdata ∨ p.flags.acked then
      (appcall { p with slen := 0 } app urgent.toNat).appsend
    else (p, .drop)

/-- A segment for a connection that both sides have closed, this one last. -/
def lastAck : Process × Goto :=
  if acked then
    let p := p.setState .closed
    (appcall { p with flags := { closed := true } } app 0, .drop)
  else (p, .drop)

/-- A segment for a connection that was closed here, before that is acknowledged. -/
def finWait1 : Process × Goto :=
  let p := if p.uipLen > 0 then p.addRcvNxt p.uipLen else p
  if hdr.flags &&& tcpFin ≠ 0 then
    let p := if acked then
      { p with
        conn.tcpstateflags := ⟨.timeWait, false⟩
        conn.timer := 0
        conn.len := 0 }
      else p.setState .closing
    let p := p.addRcvNxt 1
    (appcall { p with flags := { closed := true } } app 0, .tcpSendAck)
  else if acked then
    ({ p with
        conn.tcpstateflags := ⟨.finWait2, false⟩
        conn.len := 0 }, .drop)
  else if p.uipLen > 0 then (p, .tcpSendAck)
  else (p, .drop)

/-- A segment for a connection that was closed here, after that is acknowledged. -/
def finWait2 : Process × Goto :=
  let p := if p.uipLen > 0 then p.addRcvNxt p.uipLen else p
  if hdr.flags &&& tcpFin ≠ 0 then
    let p := { p with
      conn.tcpstateflags := ⟨.timeWait, false⟩
      conn.timer := 0 }
    let p := p.addRcvNxt 1
    (appcall { p with flags := { closed := true } } app 0, .tcpSendAck)
  else if p.uipLen > 0 then (p, .tcpSendAck)
  else (p, .drop)

/-- A segment for a connection that both sides have closed at once. -/
def closing : Process × Goto :=
  if acked then
    ({ p with
        conn.tcpstateflags := ⟨.timeWait, false⟩
        conn.timer := 0 }, .drop)
  else (p, .drop)

/-- The segment is not what the connection expects next. -/
def unexpected : Prop :=
  ¬ (p.conn.tcpstateflags.state = .synSent ∧ hdr.flags &&& tcpCtl = tcpSyn ||| tcpAck) ∧
    (p.uipLen > 0 ∨ hdr.flags &&& (tcpSyn ||| tcpFin) ≠ 0) ∧ hdr.seqno ≠ p.conn.rcvNxt

instance : Decidable (p.unexpected hdr) :=
  inferInstanceAs (Decidable (_ ∧ _ ∧ _))

/-- Goes on by the state of the connection. -/
def dispatch : Option (Process × Goto) :=
  match p.conn.tcpstateflags.state with
  | .synRcvd => some (p.synRcvd app acked)
  | .synSent => p.synSent app hdr acked
  | .established => some (p.established app hdr)
  | .lastAck => some (p.lastAck app acked)
  | .finWait1 => some (p.finWait1 app hdr acked)
  | .finWait2 => some (p.finWait2 app hdr)
  | .timeWait => some (p, .tcpSendAck)
  | .closing => some (p.closing acked)
  | .closed => some (p, .drop)

/-- A segment for a connection. -/
def found : Option (Process × Goto) :=
  if hdr.flags &&& tcpRst ≠ 0 then
    let p := p.setState .closed
    some (appcall { p with flags := { aborted := true } } app 0, .drop)
  else
    let c := (hdr.tcpoffset >>> 4) <<< 2
    let p := { p with flags := {}, uipLen := p.uipLen - c.toUInt16 - UInt16.ofNat uipIphLen }
    if p.unexpected hdr then some (p, .tcpSendAck)
    else
      let (conn, acked) := p.conn.acknowledge hdr
      dispatch app hdr acked { p with conn := conn, flags := { acked := acked } }

/-- Transmits again what is outstanding. -/
def rexmit : Process × Goto :=
  match p.conn.tcpstateflags.state with
  | .synRcvd => (p, .tcpSendSynack)
  | .synSent => (p, .tcpSendSyn)
  | .established => (appcall { p with flags := { rexmit := true } } app 0).apprexmit
  | .finWait1 | .closing | .lastAck => (p, .tcpSendFinack)
  | .closed | .finWait2 | .timeWait => (p, .drop)

/-- The timer fires. -/
def timer : Process × Goto :=
  let p := { p with flags := {}, uipLen := 0, slen := 0 }
  let tcpstateflags := p.conn.tcpstateflags
  if tcpstateflags = ⟨.timeWait, false⟩ ∨ tcpstateflags = ⟨.finWait2, false⟩ then
    let p := { p with conn.timer := p.conn.timer + 1 }
    if p.conn.timer = uipTimeWaitTimeout then (p.setState .closed, .drop) else (p, .drop)
  else if tcpstateflags ≠ .unused then
    if p.conn.len ≠ 0 then
      let expired := p.conn.timer = 0
      let p := { p with conn.timer := p.conn.timer - 1 }
      if expired then
        if p.conn.nrtx = uipMaxrtx ∨
            (tcpstateflags = ⟨.synSent, false⟩ ∨ tcpstateflags = ⟨.synRcvd, false⟩) ∧
              p.conn.nrtx = uipMaxsynrtx then
          let p := p.setState .closed
          (appcall { p with flags := { timedout := true } } app 0,
            .tcpSendNodata (tcpRst ||| tcpAck))
        else
          let shift := if p.conn.nrtx > 4 then 4 else p.conn.nrtx
          rexmit app { p with
            conn.timer := uipRto <<< shift
            conn.nrtx := p.conn.nrtx + 1 }
      else (p, .drop)
    else if tcpstateflags.state = .established then
      (appcall { p with flags := { poll := true } } app 0).appsend
    else (p, .drop)
  else (p, .drop)

/-- The application is asked for new data. -/
def poll : Process × Goto :=
  if p.conn.tcpstateflags.state = .established ∧ p.conn.len = 0 then
    (appcall { p with flags := { poll := true } } app 0).appsend
  else (p, .drop)

end Process

end Egos.Uip
