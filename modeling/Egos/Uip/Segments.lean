import Egos.Uip.Progress
import Egos.Uip.Stack

/-! The packets that the network stack sends, and that they pass all checks of a receiver. -/

namespace Egos.Uip

/-- Memory holds bytes from its start on. -/
def Holds (mem : Nat → UInt8) (data : List UInt8) : Prop :=
  ∀ (k : Nat) (inside : k < data.length), mem k = data.get ⟨k, inside⟩

/-- A segment that passes all checks, whatever follows it in the memory of its receiver. -/
structure Sealed (hdr : TcpipHdr) (data : List UInt8) : Prop where
  vhl : hdr.vhl = 0x45
  ipoffset : hdr.ipoffset = 0
  proto : hdr.proto = uipProtoTcp
  len : hdr.len.toNat = uipIptcphLen + data.length
  short : data.length ≤ uipTcpMss
  ipchksum : uipIpchksum hdr = 0xffff
  tcpchksum : ∀ mem, Holds mem data → UipBuf.uipTcpchksum ⟨hdr, mem⟩ = 0xffff

/-- A segment of a connection. -/
structure Emits (hostaddr : IpAddr) (conn : Conn) (flags tcpoffset : UInt8) (hdr : TcpipHdr)
    (data : List UInt8) : Prop where
  srcipaddr : hdr.srcipaddr = hostaddr
  srcport : hdr.srcport = conn.lport
  destipaddr : hdr.destipaddr = conn.ripaddr
  destport : hdr.destport = conn.rport
  seqno : hdr.seqno = conn.sndNxt
  ackno : hdr.ackno = conn.rcvNxt
  flags : hdr.flags = flags
  tcpoffset : hdr.tcpoffset = tcpoffset
  urgp : hdr.urgp = 0
  closed : Sealed hdr data

/-- The flags of a packet. -/
def Goto.flags : Goto → UInt8
  | .drop => 0
  | .reset => tcpRst ||| tcpAck
  | .tcpSendSynack => tcpAck ||| tcpSyn
  | .tcpSendSyn => 0 ||| tcpSyn
  | .tcpSendFinack => tcpFin ||| tcpAck
  | .tcpSendAck => tcpAck
  | .tcpSendNodata flags => flags
  | .tcpSendNoopts flags _ => flags

/-- The size of the TCP header of a packet, as it is sent. -/
def Goto.tcpoffset : Goto → UInt8
  | .tcpSendSynack | .tcpSendSyn => 0x60
  | .drop | .reset | .tcpSendFinack | .tcpSendAck | .tcpSendNodata _ | .tcpSendNoopts _ _ => 0x50

/-- What follows the headers of a packet. -/
def Goto.behind (data : Nat → UInt8) : Goto → List UInt8
  | .tcpSendSynack | .tcpSendSyn => Net.optdata
  | .tcpSendNoopts _ uipLen => (List.range (uipLen.toNat - uipIptcphLen)).map data
  | .drop | .reset | .tcpSendFinack | .tcpSendAck | .tcpSendNodata _ => []

/-- Every packet of a connection has room for its headers, and is not too long. -/
def Goto.Whole : Goto → Prop
  | .tcpSendNoopts _ uipLen =>
    uipIptcphLen ≤ uipLen.toNat ∧ uipLen.toNat ≤ uipIptcphLen + uipTcpMss
  | _ => True

/-- A segment that tells a host that no connection waits for its segments. -/
structure Resets (hostaddr : IpAddr) (hdr : TcpipHdr) : Prop where
  srcipaddr : hdr.srcipaddr = hostaddr
  flags : hdr.flags = tcpRst ||| tcpAck
  tcpoffset : hdr.tcpoffset = 0x50
  urgp : hdr.urgp = 0
  closed : Sealed hdr []

/-- What is sent at the end of the processing of a connection. -/
inductive Sends (hostaddr : IpAddr) (conn : Conn) (data : Nat → UInt8) :
    Goto → List Observed → Prop
  | drop : Sends hostaddr conn data .drop []
  | silent : Sends hostaddr conn data .reset []
  | reset {hdr : TcpipHdr} (resets : Resets hostaddr hdr) :
      Sends hostaddr conn data .reset [.sent hdr []]
  | segment {goto : Goto} {hdr : TcpipHdr} (drop : goto ≠ .drop) (reset : goto ≠ .reset)
      (emits : Emits hostaddr conn goto.flags goto.tcpoffset hdr (goto.behind data)) :
      Sends hostaddr conn data goto [.sent hdr (goto.behind data)]

section Sealing

/-- The lengths of the headers. -/
theorem headerSizes : uipIphLen = 20 ∧ uipTcphLen = 20 ∧ uipIptcphLen = 40 := ⟨rfl, rfl, rfl⟩

/-- What is behind the internet header of a whole segment. -/
theorem toNat_upperLen {len : UInt16} (long : uipIptcphLen ≤ len.toNat) :
    (len - 20).toNat = len.toNat - uipIphLen := by
  have sizes := headerSizes
  have twenty : (20 : UInt16).toNat = 20 := rfl
  rw [UInt16.toNat_sub_of_le _ _ (UInt16.le_iff_toNat_le.mpr (by omega)), twenty]

/-- What a segment is computed from does not depend on what follows it in memory. -/
theorem total_of_holds {hdr : TcpipHdr} {data : List UInt8} {mem mem' : Nat → UInt8}
    (len : hdr.len.toNat = uipIptcphLen + data.length) (holds : Holds mem data)
    (holds' : Holds mem' data) : UipBuf.total ⟨hdr, mem⟩ = UipBuf.total ⟨hdr, mem'⟩ := by
  have sizes := headerSizes
  have length : (hdr.len - 20).toNat = uipTcphLen + data.length := by
    rw [toNat_upperLen (by omega)]
    omega
  have whole : uipTcphLen ≤ (hdr.len - 20).toNat := by omega
  have same : (List.range ((hdr.len - 20).toNat - uipTcphLen)).map mem =
      (List.range ((hdr.len - 20).toNat - uipTcphLen)).map mem' := by
    apply List.map_congr_left
    intro k member
    have inside : k < data.length := by
      rw [List.mem_range] at member
      omega
    rw [holds k inside, holds' k inside]
  rw [total_eq whole, total_eq whole, same]

/-- Memory holds what is read from it. -/
theorem holds_range (mem : Nat → UInt8) (count : Nat) :
    Holds mem ((List.range count).map mem) := by
  intro k inside
  simp

variable {net : Net}

/-- A finished segment passes all checks. -/
theorem tcpSendNoconn_sealed (proto : net.buf.hdr.proto = uipProtoTcp)
    (long : uipIptcphLen ≤ net.uipLen.toNat)
    (short : net.uipLen.toNat ≤ uipIptcphLen + uipTcpMss) : Sealed net.tcpSendNoconn.buf.hdr
      ((List.range (net.uipLen.toNat - uipIptcphLen)).map net.buf.data) := by
  have sizes := headerSizes
  have length : uipTcphLen ≤ (net.uipLen - 20).toNat := by
    rw [toNat_upperLen long]
    omega
  have len : net.tcpSendNoconn.buf.hdr.len.toNat = uipIptcphLen +
      ((List.range (net.uipLen.toNat - uipIptcphLen)).map net.buf.data).length := by
    rw [List.length_map, List.length_range]
    change net.uipLen.toNat = _
    omega
  constructor
  case vhl => rfl
  case ipoffset => rfl
  case proto => exact proto
  case len => exact len
  case short =>
    rw [List.length_map, List.length_range]
    omega
  case ipchksum => exact setIpchksum_passes _
  case tcpchksum =>
    intro mem holds
    let buf : UipBuf :=
      { net.buf with hdr := { net.buf.hdr with ttl := uipTtl, len := net.uipLen, urgp := 0 } }
    have passes : buf.setTcpchksum.uipTcpchksum = 0xffff := setTcpchksum_passes length
    -- What the internet header gets afterwards is not part of the sum.
    rw [uipTcpchksum_iff] at passes ⊢
    rw [total_of_holds len holds (holds_range _ _)]
    exact passes

/-- A finished segment is what is sent. -/
theorem packet_tcpSendNoconn (long : uipIptcphLen ≤ net.uipLen.toNat) :
    net.tcpSendNoconn.packet = [.sent net.tcpSendNoconn.buf.hdr
      ((List.range (net.uipLen.toNat - uipIptcphLen)).map net.buf.data)] := by
  have positive : net.tcpSendNoconn.uipLen ≠ 0 := by
    change net.uipLen ≠ 0
    intro none
    rw [none] at long
    exact absurd long (by decide)
  unfold Net.packet
  rw [if_neg positive]
  rfl

/-- A segment of a connection is sent as it was filled in. -/
theorem packet_tcpSend {conn : Conn} (long : uipIptcphLen ≤ net.uipLen.toNat)
    (short : net.uipLen.toNat ≤ uipIptcphLen + uipTcpMss) :
    ∃ hdr, (net.tcpSend conn).packet = [.sent hdr
        ((List.range (net.uipLen.toNat - uipIptcphLen)).map net.buf.data)] ∧
      Emits net.hostaddr conn net.buf.hdr.flags net.buf.hdr.tcpoffset hdr
        ((List.range (net.uipLen.toNat - uipIptcphLen)).map net.buf.data) := by
  refine ⟨_, packet_tcpSendNoconn long, ?_⟩
  constructor
  case closed => exact tcpSendNoconn_sealed rfl long short
  all_goals rfl

/-- Nothing is sent of a packet that is dropped. -/
theorem packet_drop (net : Net) : net.drop.packet = [] := if_pos rfl

/-- A segment that no connection waits for is answered, unless it is such an answer itself. -/
theorem packet_reset (proto : net.buf.hdr.proto = uipProtoTcp) :
    net.reset.packet = [] ∨
      ∃ hdr, net.reset.packet = [.sent hdr []] ∧ Resets net.hostaddr hdr := by
  unfold Net.reset
  dsimp only
  split
  · exact Or.inl (packet_drop net)
  · right
    have bare : uipIptcphLen ≤ (UInt16.ofNat uipIptcphLen).toNat := by decide
    have short : (UInt16.ofNat uipIptcphLen).toNat ≤ uipIptcphLen + uipTcpMss := by decide
    refine ⟨_, packet_tcpSendNoconn bare, rfl, rfl, rfl, rfl, ?_⟩
    exact tcpSendNoconn_sealed proto bare short

/-- The packet of a connection, as the label that it was finished at says. -/
theorem packet_finish {conn : Conn} {goto : Goto} (whole : goto.Whole) (drop : goto ≠ .drop)
    (reset : goto ≠ .reset) : ∃ hdr, (net.finish conn goto).packet =
        [.sent hdr (goto.behind net.buf.data)] ∧
      Emits net.hostaddr conn goto.flags goto.tcpoffset hdr (goto.behind net.buf.data) := by
  have bare : uipIptcphLen ≤ (UInt16.ofNat uipIptcphLen).toNat ∧
      (UInt16.ofNat uipIptcphLen).toNat ≤ uipIptcphLen + uipTcpMss := by decide
  have options : uipIptcphLen ≤ (UInt16.ofNat (uipIptcphLen + 4)).toNat ∧
      (UInt16.ofNat (uipIptcphLen + 4)).toNat ≤ uipIptcphLen + uipTcpMss := by decide
  cases goto with
  | drop => exact absurd rfl drop
  | reset => exact absurd rfl reset
  | tcpSendSynack => exact packet_tcpSend options.1 options.2
  | tcpSendSyn => exact packet_tcpSend options.1 options.2
  | tcpSendFinack => exact packet_tcpSend bare.1 bare.2
  | tcpSendAck => exact packet_tcpSend bare.1 bare.2
  | tcpSendNodata flags => exact packet_tcpSend bare.1 bare.2
  | tcpSendNoopts flags uipLen => exact packet_tcpSend whole.1 whole.2

/-- Whatever the processing of a connection ends with is sent. -/
theorem sends_conclude {i : Fin uipConns} {r : Process × Goto} (whole : r.2.Whole)
    (proto : r.2 = .reset → net.buf.hdr.proto = uipProtoTcp) :
    Sends net.hostaddr r.1.conn r.1.data r.2 (net.conclude i r).packet := by
  -- Each way to end fills in its own lengths and flags, and seals the segment.
  unfold Net.conclude
  by_cases drop : r.2 = .drop
  · rw [drop]
    have nothing : ∀ net : Net, (net.finish r.1.conn .drop).packet = [] := packet_drop
    rw [nothing]
    exact Sends.drop
  by_cases reset : r.2 = .reset
  · have tcp := proto reset
    rw [reset]
    generalize before : ({ net with
      conns := Function.update net.conns i r.1.conn
      slen := r.1.slen
      uipLen := r.1.uipLen
      buf.data := r.1.data } : Net) = stored
    have same : stored.buf.hdr.proto = uipProtoTcp := by
      subst before
      exact tcp
    have host : stored.hostaddr = net.hostaddr := by
      subst before
      rfl
    change Sends _ _ _ _ stored.reset.packet
    rcases packet_reset same with none | ⟨hdr, sent, resets⟩
    · rw [none]
      exact Sends.silent
    · rw [sent]
      rw [host] at resets
      exact Sends.reset resets
  · let stored : Net := { net with
      conns := Function.update net.conns i r.1.conn
      slen := r.1.slen
      uipLen := r.1.uipLen
      buf.data := r.1.data }
    obtain ⟨hdr, sent, emits⟩ := @packet_finish stored r.1.conn r.2 whole drop reset
    rw [sent]
    exact Sends.segment drop reset emits

end Sealing

end Egos.Uip
