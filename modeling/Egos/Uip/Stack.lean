import Egos.Uip.Tcp

/-! The network stack: packets are checked, find their connection, and are answered. -/

namespace Egos.Uip

/-- How many connections there are. -/
abbrev uipConns : Nat := 40

/-- There is a connection. -/
theorem uipConns_pos : 0 < uipConns := by decide

/-- The first connection. -/
def firstConn : Fin uipConns := ⟨0, uipConns_pos⟩

/-- How many ports can be listened to. -/
abbrev uipListenports : Nat := 40

/-- How long packets live. -/
abbrev uipTtl : UInt8 := 64

/-- The window that is announced. -/
abbrev uipReceiveWindow : UInt16 := UInt16.ofNat uipTcpMss

/-- A control message that is to be sent back. -/
abbrev icmpEcho : UInt8 := 8

/-- What an observer of a host sees. -/
inductive Observed where
  | called (call : AppCall) (actions : List AppAction)
  | opened (conn : Conn)
  | sent (hdr : TcpipHdr) (data : List UInt8)

/-- The memory of the network stack. -/
structure Net where
  hostaddr : IpAddr
  conns : Fin uipConns → Conn
  listenports : Fin uipListenports → UInt16
  iss : Seqno
  ipid : UInt16
  lastport : UInt16
  buf : UipBuf
  uipLen : UInt16
  slen : UInt16

namespace Net

variable (net : Net)

/-- Nothing is sent. -/
def drop : Net := { net with uipLen := 0 }

/-- Finishes the internet header. -/
def ipSendNolen : Net :=
  let ipid := net.ipid + 1
  let hdr := { net.buf.hdr with vhl := 0x45, tos := 0, ipoffset := 0, ipid := ipid }
  { net with ipid := ipid, buf.hdr := hdr.setIpchksum }

/-- Finishes a segment. -/
def tcpSendNoconn : Net :=
  let buf : UipBuf :=
    { net.buf with hdr := { net.buf.hdr with ttl := uipTtl, len := net.uipLen, urgp := 0 } }
  ipSendNolen { net with buf := buf.setTcpchksum }

/-- Fills in a segment of a connection. -/
def tcpSend (conn : Conn) : Net :=
  tcpSendNoconn { net with
    buf.hdr := { net.buf.hdr with
      ackno := conn.rcvNxt
      seqno := conn.sndNxt
      proto := uipProtoTcp
      srcport := conn.lport
      destport := conn.rport
      srcipaddr := net.hostaddr
      destipaddr := conn.ripaddr
      wnd := if conn.tcpstateflags.stopped then 0 else uipReceiveWindow } }

/-- Sends a segment without options. -/
def tcpSendNoopts (flags : UInt8) (uipLen : UInt16) (conn : Conn) : Net :=
  tcpSend { net with
    uipLen := uipLen
    buf.hdr := { net.buf.hdr with flags := flags, tcpoffset := (20 / 4 : UInt8) <<< 4 } } conn

/-- Sends a segment without data. -/
def tcpSendNodata (flags : UInt8) (conn : Conn) : Net :=
  net.tcpSendNoopts flags (UInt16.ofNat uipIptcphLen) conn

/-- The options of a segment that opens a connection. -/
def optdata : List UInt8 :=
  [2, 4, UInt8.ofNat (uipTcpMss / 256), UInt8.ofNat (uipTcpMss % 256)]

/-- Sends a segment that opens a connection. -/
def tcpSendSyn (flags : UInt8) (conn : Conn) : Net :=
  tcpSend { net with
    uipLen := UInt16.ofNat (uipIptcphLen + 4)
    buf :=
      { hdr := { net.buf.hdr with flags := flags ||| tcpSyn, tcpoffset := (24 / 4 : UInt8) <<< 4 }
        data := fun k => optdata[k]?.getD (net.buf.data k) } } conn

/-- Answers a segment that no connection waits for. -/
def reset : Net :=
  let hdr := net.buf.hdr
  if hdr.flags &&& tcpRst ≠ 0 then net.drop
  else
    tcpSendNoconn { net with
      uipLen := UInt16.ofNat uipIptcphLen
      buf.hdr := { hdr with
        flags := tcpRst ||| tcpAck
        tcpoffset := (5 : UInt8) <<< 4
        seqno := hdr.ackno
        ackno := hdr.seqno.bump 3 Seqno.last_lt
        srcport := hdr.destport
        destport := hdr.srcport
        destipaddr := hdr.srcipaddr
        srcipaddr := net.hostaddr } }

/-- Finishes a packet. -/
def finish (conn : Conn) : Goto → Net
  | .drop => net.drop
  | .reset => net.reset
  | .tcpSendSynack => net.tcpSendSyn tcpAck conn
  | .tcpSendSyn => net.tcpSendSyn 0 conn
  | .tcpSendFinack => net.tcpSendNodata (tcpFin ||| tcpAck) conn
  | .tcpSendAck => net.tcpSendNodata tcpAck conn
  | .tcpSendNodata flags => net.tcpSendNodata flags conn
  | .tcpSendNoopts flags uipLen => net.tcpSendNoopts flags uipLen conn

/-- The variables of the processing function for a connection. -/
def process (i : Fin uipConns) : Process where
  conn := net.conns i
  flags := {}
  uipLen := net.uipLen
  slen := net.slen
  data := net.buf.data
  calls := []

/-- Stores what has become of a connection, and finishes the packet. -/
def conclude (i : Fin uipConns) (p : Process × Goto) : Net :=
  finish { net with
    conns := Function.update net.conns i p.1.conn
    slen := p.1.slen
    uipLen := p.1.uipLen
    buf.data := p.1.data } p.1.conn p.2

/-- The connection that a segment belongs to. -/
def demultiplex : Option (Fin uipConns) :=
  (List.finRange uipConns).find? fun i =>
    (net.conns i).tcpstateflags ≠ .unused ∧ net.buf.hdr.destport = (net.conns i).lport ∧
      net.buf.hdr.srcport = (net.conns i).rport ∧ net.buf.hdr.srcipaddr = (net.conns i).ripaddr

/-- The first unused connection, or the one that was closed first. -/
def spare (conns : Fin uipConns → Conn) (found : Option (Fin uipConns)) :
    List (Fin uipConns) → Option (Fin uipConns)
  | [] => found
  | c :: rest =>
    if (conns c).tcpstateflags = .unused then some c
    else if (conns c).tcpstateflags = ⟨.timeWait, false⟩ ∧
        (found.all fun i => (conns c).timer > (conns i).timer) then spare conns (some c) rest
    else spare conns found rest

/-- A packet that opens a connection. -/
def foundListen : Option (Net × List Observed) :=
  match spare net.conns none (List.finRange uipConns) with
  | none => some (net.drop, [])
  | some i => do
    let hdr := net.buf.hdr
    let tmp16 ← parseMss net.buf.data (optionSize hdr.tcpoffset) optionRounds 0
    let conn := ((net.conns i).accept hdr net.iss).takeMss tmp16
    let net := { net with conns := Function.update net.conns i conn }
    return (net.finish conn .tcpSendSynack, [.opened conn])

/-- The calls of an application, with what it does. -/
def told (app : AppCall → List AppAction) (calls : List AppCall) : List Observed :=
  calls.map fun call => .called call (app call)

/-- A segment. -/
def tcpInput (app : AppCall → List AppAction) : Option (Net × List Observed) :=
  if net.buf.uipTcpchksum ≠ 0xffff then some (net.drop, [])
  else
    match net.demultiplex with
    | some i =>
      ((net.process i).found app net.buf.hdr).map fun p => (net.conclude i p, told app p.1.calls)
    | none =>
      if net.buf.hdr.flags &&& tcpCtl ≠ tcpSyn then some (net.reset, [])
      else if ∃ c, net.buf.hdr.destport = net.listenports c then net.foundListen
      else some (net.reset, [])

/-- A control message; its type, code and checksum are where a segment has its ports. -/
def icmpInput : Net :=
  let hdr := net.buf.hdr
  if hdr.srcport.toUInt8 ≠ icmpEcho then net.drop
  else
    let icmpchksum :=
      if hdr.destport ≥ htons ((0xffff : UInt16) - (icmpEcho.toUInt16 <<< 8))
      then hdr.destport + htons (icmpEcho.toUInt16 <<< 8) + 1
      else hdr.destport + htons (icmpEcho.toUInt16 <<< 8)
    { net with buf.hdr := { hdr with
        srcport := hdr.srcport &&& 0xff00
        destport := icmpchksum
        destipaddr := hdr.srcipaddr
        srcipaddr := net.hostaddr } }

/-- A packet. -/
def uipInput (app : AppCall → List AppAction) : Option (Net × List Observed) :=
  let hdr := net.buf.hdr
  if hdr.vhl ≠ 0x45 then some (net.drop, [])
  else if hdr.len ≤ net.uipLen then
    let net := { net with uipLen := hdr.len }
    if (hdr.ipoffset >>> 8) &&& 0x3f ≠ 0 ∨ hdr.ipoffset &&& 0xff ≠ 0 then some (net.drop, [])
    -- Before it has an address, the host takes the packets of all.
    else if net.hostaddr ≠ .zero ∧ hdr.destipaddr ≠ net.hostaddr then some (net.drop, [])
    else if uipIpchksum hdr ≠ 0xffff then some (net.drop, [])
    else if hdr.proto = uipProtoTcp then net.tcpInput app
    else if hdr.proto ≠ uipProtoIcmp then some (net.drop, [])
    else some (net.icmpInput, [])
  else some (net.drop, [])

/-- The timer fires for a connection. -/
def uipPeriodic (app : AppCall → List AppAction) (i : Fin uipConns) : Net × List Observed :=
  let net := { net with iss := net.iss.bump 3 Seqno.last_lt }
  let p := (net.process i).timer app
  (net.conclude i p, told app p.1.calls)

/-- The application of a connection is asked for new data. -/
def uipPollConn (app : AppCall → List AppAction) (i : Fin uipConns) : Net × List Observed :=
  let p := (net.process i).poll app
  (net.conclude i p, told app p.1.calls)

/-- The next port to try for a connection. -/
def nextPort (lastport : UInt16) : UInt16 :=
  if lastport + 1 ≥ 32000 then 4096 else lastport + 1

/-- Looks for a port that no connection uses. -/
def unusedPort : Nat → UInt16 → Option UInt16
  | 0, _ => none
  | fuel + 1, lastport =>
    let lastport := nextPort lastport
    if ∃ c, (net.conns c).tcpstateflags ≠ .unused ∧ (net.conns c).lport = htons lastport then
      unusedPort fuel lastport
    else some lastport

/-- Opens a connection; its first segment is sent by the timer. -/
def uipConnect (ripaddr : IpAddr) (rport : UInt16) : Option (Net × List Observed) := do
  let lastport ← net.unusedPort (uipConns + 1) net.lastport
  let net := { net with lastport := lastport }
  match spare net.conns none (List.finRange uipConns) with
  | none => return (net, [])
  | some i =>
    let conn := { net.conns i with
      tcpstateflags := ⟨.synSent, false⟩
      sndNxt := net.iss
      initialmss := UInt16.ofNat uipTcpMss
      mss := UInt16.ofNat uipTcpMss
      len := 1
      nrtx := 0
      timer := 1
      rto := uipRto
      sa := 0
      sv := 16
      lport := htons lastport
      rport := rport
      ripaddr := ripaddr }
    return ({ net with conns := Function.update net.conns i conn }, [.opened conn])

/-- Listens to a port, if there is room for it. -/
def uipListen (port : UInt16) : Net :=
  match (List.finRange uipListenports).find? fun c => net.listenports c = 0 with
  | none => net
  | some c => { net with listenports := Function.update net.listenports c port }

/-- Stops listening to a port. -/
def uipUnlisten (port : UInt16) : Net :=
  match (List.finRange uipListenports).find? fun c => net.listenports c = port with
  | none => net
  | some c => { net with listenports := Function.update net.listenports c 0 }

/-- Forgets all ports and connections. -/
def uipInit : Net :=
  { net with
    listenports := fun _ => 0
    conns := fun i => { net.conns i with tcpstateflags := .unused }
    lastport := 1024 }

end Net

/-- What happens to the network stack. -/
inductive NetEvent where
  -- A packet has been copied to the buffer.
  | input (uipLen : UInt16) (buf : UipBuf)
  | periodic (i : Fin uipConns)
  | poll (i : Fin uipConns)
  | connect (ripaddr : IpAddr) (rport : UInt16)
  | listen (port : UInt16)
  | unlisten (port : UInt16)

namespace Net

/-- The packet that is left in the buffer. -/
def packet (net : Net) : List Observed :=
  if net.uipLen = 0 then []
  else [.sent net.buf.hdr ((List.range (net.uipLen.toNat - uipIptcphLen)).map net.buf.data)]

/-- Lets something happen, and shows what an observer sees of it. -/
def step (net : Net) (app : AppCall → List AppAction) :
    NetEvent → Option (Net × List Observed)
  | .input uipLen buf =>
    ({ net with uipLen := uipLen, buf := buf }.uipInput app).map fun (net, shown) =>
      (net, shown ++ net.packet)
  | .periodic i =>
    let (net, shown) := net.uipPeriodic app i
    some (net, shown ++ net.packet)
  | .poll i =>
    let (net, shown) := net.uipPollConn app i
    some (net, shown ++ net.packet)
  | .connect ripaddr rport => net.uipConnect ripaddr rport
  | .listen port => some (net.uipListen port, [])
  | .unlisten port => some (net.uipUnlisten port, [])

end Net

end Egos.Uip
