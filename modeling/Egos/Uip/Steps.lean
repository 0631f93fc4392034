import Egos.Lib.Runs
import Egos.Uip.Segments
import Mathlib.Data.Fin.Basic
import Mathlib.Data.List.FinRange

/-! What happens to the connections of a host with each packet and each tick of the timer. -/

namespace Egos.Uip

/-- The largest segment that a connection sends. -/
abbrev segmentSize : UInt16 := UInt16.ofNat uipTcpMss

/-- The lengths of a connection do not exceed the largest segment. -/
structure Conn.Fits (conn : Conn) : Prop where
  len : conn.len ≤ segmentSize
  mss : conn.mss ≤ segmentSize
  initialmss : conn.initialmss ≤ segmentSize

section Sizes

/-- Small lengths fit. -/
theorem small_fits : (0 : UInt16) ≤ segmentSize ∧ (1 : UInt16) ≤ segmentSize := by decide

variable {conn : Conn} {app : AppCall → List AppAction} {hdr : TcpipHdr} {p : Process}
variable {r : Process × Goto}

/-- A segment size from the options is limited. -/
theorem Conn.Fits.takeMss (fits : conn.Fits) (tmp16 : Option UInt16) :
    (conn.takeMss tmp16).Fits := by
  cases tmp16 with
  | none => exact fits
  | some tmp16 =>
    have small : (if tmp16 > segmentSize then segmentSize else tmp16) ≤ segmentSize := by
      split
      · exact UInt16.le_refl _
      · rename_i below
        exact UInt16.not_lt.mp below
    exact ⟨fits.len, small, small⟩

/-- What is acknowledged is not outstanding any more. -/
theorem Conn.Fits.acknowledge (fits : conn.Fits) (hdr : TcpipHdr) :
    (conn.acknowledge hdr).1.Fits := by
  rcases conn.acknowledge_cases hdr with none | ⟨-, -, sa, sv, rto, all⟩
  · rw [none]
    exact fits
  · rw [all]
    exact ⟨small_fits.1, fits.mss, fits.initialmss⟩

/-- A call does not change any lengths. -/
theorem Conn.Fits.appcall (fits : p.conn.Fits) (app : AppCall → List AppAction) (skip : Nat) :
    (p.appcall app skip).conn.Fits := by
  rw [Process.appcall_conn]
  exact ⟨fits.len, fits.mss, fits.initialmss⟩

/-- What the application sends is limited by the segment size. -/
theorem Conn.Fits.limit (fits : p.conn.Fits) : p.limit.conn.Fits := by
  unfold Process.limit
  by_cases sends : p.slen > 0
  · rw [if_pos sends]
    by_cases fresh : (if p.flags.acked then 0 else p.conn.len) = 0
    · simp only [if_pos fresh]
      refine ⟨?_, fits.mss, fits.initialmss⟩
      dsimp only
      split
      · exact fits.mss
      · rename_i below
        exact UInt16.le_trans (UInt16.not_lt.mp below) fits.mss
    · simp only [if_neg fresh]
      exact fits
  · rw [if_neg sends]
    exact fits

/-- What the application asks for fits. -/
theorem Conn.Fits.appsend (fits : p.conn.Fits) : p.appsend.1.conn.Fits := by
  unfold Process.appsend
  split
  · exact ⟨fits.len, fits.mss, fits.initialmss⟩
  · split
    · exact ⟨small_fits.2, fits.mss, fits.initialmss⟩
    · dsimp only
      rw [Process.apprexmit_fst]
      have limited := fits.limit
      exact ⟨limited.len, limited.mss, limited.initialmss⟩

/-- What a segment does to its connection fits, whatever its state. -/
theorem Conn.Fits.dispatch (fits : p.conn.Fits) {acked : Bool}
    (dispatched : p.dispatch app hdr acked = some r) : r.1.conn.Fits := by
  obtain ⟨len, mss, initialmss⟩ := fits
  unfold Process.dispatch at dispatched
  split at dispatched
  · -- The opening of a connection is acknowledged.
    obtain rfl := Option.some.inj dispatched
    unfold Process.synRcvd
    split
    · simp only [Process.takeData_eq]
      apply Conn.Fits.appsend
      apply Conn.Fits.appcall
      exact ⟨small_fits.1, mss, initialmss⟩
    · exact ⟨len, mss, initialmss⟩
  · -- It is answered.
    unfold Process.synSent at dispatched
    split at dispatched
    · obtain ⟨tmp16, -, rest⟩ := Option.bind_eq_some_iff.mp dispatched
      obtain rfl := Option.some.inj rest
      have taken := Conn.Fits.takeMss ⟨len, mss, initialmss⟩ tmp16
      apply Conn.Fits.appsend
      apply Conn.Fits.appcall
      exact ⟨small_fits.1, taken.mss, taken.initialmss⟩
    · obtain rfl := Option.some.inj dispatched
      have called := Conn.Fits.appcall (p := { p with flags := { aborted := true } })
        ⟨len, mss, initialmss⟩ app 0
      exact ⟨called.len, called.mss, called.initialmss⟩
  · -- Data arrives.
    obtain rfl := Option.some.inj dispatched
    unfold Process.established
    by_cases fin : hdr.flags &&& tcpFin ≠ 0 ∧ ¬ p.conn.tcpstateflags.stopped
    · simp only [if_pos fin]
      split
      · exact ⟨len, mss, initialmss⟩
      · let q : Process := { p.addRcvNxt (1 + p.uipLen) with
          flags.closed := true
          flags.newdata := p.uipLen > 0 || p.flags.newdata }
        have called := Conn.Fits.appcall (p := q) ⟨len, mss, initialmss⟩ app 0
        exact ⟨small_fits.2, called.mss, called.initialmss⟩
    · simp only [if_neg fin, Process.takeData_eq]
      -- The window of the peer limits the segment size further.
      have limited : (if hdr.wnd > p.conn.initialmss ∨ hdr.wnd = 0 then p.conn.initialmss
          else hdr.wnd) ≤ segmentSize := by
        split
        · exact initialmss
        · rename_i below
          exact UInt16.le_trans (UInt16.not_lt.mp fun more => below (Or.inl more)) initialmss
      generalize (if hdr.flags &&& tcpUrg ≠ 0 then hdr.urgp else 0) = urgent
      split
      · apply Conn.Fits.appsend
        apply Conn.Fits.appcall
        exact ⟨len, limited, initialmss⟩
      · exact ⟨len, limited, initialmss⟩
  · obtain rfl := Option.some.inj dispatched
    unfold Process.lastAck
    split
    · apply Conn.Fits.appcall
      exact ⟨len, mss, initialmss⟩
    · exact ⟨len, mss, initialmss⟩
  · obtain rfl := Option.some.inj dispatched
    obtain ⟨q, taken, conn, -⟩ := p.drained
    unfold Process.finWait1
    simp only [taken]
    have fits : q.conn.Fits := by
      rw [conn]
      exact ⟨len, mss, initialmss⟩
    by_cases fin : hdr.flags &&& tcpFin ≠ 0
    · simp only [if_pos fin]
      apply Conn.Fits.appcall
      cases acked
      · exact ⟨fits.len, fits.mss, fits.initialmss⟩
      · exact ⟨small_fits.1, fits.mss, fits.initialmss⟩
    · simp only [if_neg fin]
      split
      · exact ⟨small_fits.1, fits.mss, fits.initialmss⟩
      · split
        · exact fits
        · exact fits
  · obtain rfl := Option.some.inj dispatched
    obtain ⟨q, taken, conn, -⟩ := p.drained
    unfold Process.finWait2
    simp only [taken]
    have fits : q.conn.Fits := by
      rw [conn]
      exact ⟨len, mss, initialmss⟩
    split
    · apply Conn.Fits.appcall
      exact ⟨fits.len, fits.mss, fits.initialmss⟩
    · split
      · exact fits
      · exact fits
  · obtain rfl := Option.some.inj dispatched
    exact ⟨len, mss, initialmss⟩
  · obtain rfl := Option.some.inj dispatched
    unfold Process.closing
    split
    · exact ⟨len, mss, initialmss⟩
    · exact ⟨len, mss, initialmss⟩
  · obtain rfl := Option.some.inj dispatched
    exact ⟨len, mss, initialmss⟩

/-- What a segment does to its connection fits. -/
theorem Conn.Fits.found (fits : p.conn.Fits) (found : p.found app hdr = some r) :
    r.1.conn.Fits := by
  unfold Process.found at found
  split at found
  · obtain rfl := Option.some.inj found
    apply Conn.Fits.appcall
    exact ⟨fits.len, fits.mss, fits.initialmss⟩
  · dsimp only at found
    split at found
    · obtain rfl := Option.some.inj found
      exact fits
    · exact Conn.Fits.dispatch (fits.acknowledge hdr) found

/-- What is transmitted again fits. -/
theorem Conn.Fits.rexmit (fits : p.conn.Fits) : (p.rexmit app).1.conn.Fits := by
  unfold Process.rexmit
  split
  · exact fits
  · exact fits
  · rw [Process.apprexmit_fst]
    apply Conn.Fits.appcall
    exact fits
  all_goals exact fits

/-- What the timer does to a connection fits. -/
theorem Conn.Fits.timer (fits : p.conn.Fits) : (p.timer app).1.conn.Fits := by
  -- No branch of the timer makes a length larger.
  obtain ⟨len, mss, initialmss⟩ := fits
  unfold Process.timer
  dsimp only
  split
  · split
    · exact ⟨len, mss, initialmss⟩
    · exact ⟨len, mss, initialmss⟩
  · split
    · split
      · split
        · split
          · apply Conn.Fits.appcall
            exact ⟨len, mss, initialmss⟩
          · apply Conn.Fits.rexmit
            exact ⟨len, mss, initialmss⟩
        · exact ⟨len, mss, initialmss⟩
      · split
        · apply Conn.Fits.appsend
          apply Conn.Fits.appcall
          exact ⟨len, mss, initialmss⟩
        · exact ⟨len, mss, initialmss⟩
    · exact ⟨len, mss, initialmss⟩

/-- What a request for new data does to a connection fits. -/
theorem Conn.Fits.poll (fits : p.conn.Fits) : (p.poll app).1.conn.Fits := by
  unfold Process.poll
  split
  · apply Conn.Fits.appsend
    apply Conn.Fits.appcall
    exact fits
  · exact fits

end Sizes

namespace Process

variable {app : AppCall → List AppAction} {hdr : TcpipHdr} {p : Process} {r : Process × Goto}

/-- What the application asks for ends the connection, or is sent at once. -/
theorem appsend_cases (p : Process) :
    p.appsend.1.conn.tcpstateflags.state.late ∧ p.appsend.2.bare ∨
      p.appsend = apprexmit { p.limit with conn := { p.limit.conn with nrtx := 0 } } := by
  unfold appsend
  split
  · exact Or.inl ⟨rfl, rfl⟩
  · split
    · exact Or.inl ⟨rfl, rfl⟩
    · exact Or.inr rfl

/-- A packet without data has room for its headers. -/
theorem bare_whole {goto : Goto} (bare : goto.bare) : goto.Whole := by
  cases goto with
  | tcpSendNoopts flags uipLen => cases bare
  | drop | reset | tcpSendSynack | tcpSendSyn | tcpSendFinack | tcpSendAck | tcpSendNodata flags =>
    exact trivial

/-- What is transmitted has room for its headers. -/
theorem apprexmit_whole (fits : p.conn.Fits) : p.apprexmit.2.Whole := by
  have small : p.conn.len.toNat ≤ 366 := UInt16.le_iff_toNat_le.mp fits.len
  have sizes := headerSizes
  have segment : uipTcpMss = 366 := rfl
  have forty : (UInt16.ofNat uipIptcphLen).toNat = 40 := rfl
  unfold apprexmit
  split
  · show uipIptcphLen ≤ (p.conn.len + UInt16.ofNat uipIptcphLen).toNat ∧
      (p.conn.len + UInt16.ofNat uipIptcphLen).toNat ≤ uipIptcphLen + uipTcpMss
    rw [UInt16.toNat_add, forty]
    omega
  · split
    · show uipIptcphLen ≤ (UInt16.ofNat uipIptcphLen).toNat ∧
        (UInt16.ofNat uipIptcphLen).toNat ≤ uipIptcphLen + uipTcpMss
      omega
    · exact trivial

/-- What the application asks for has room for its headers. -/
theorem appsend_whole (fits : p.appsend.1.conn.Fits) : p.appsend.2.Whole := by
  rcases p.appsend_cases with ⟨-, bare⟩ | same
  · exact bare_whole bare
  · rw [same] at fits ⊢
    rw [apprexmit_fst] at fits
    exact apprexmit_whole fits

/-- What a segment leads to has room for its headers. -/
theorem found_whole (fits : p.conn.Fits) (found : p.found app hdr = some r) : r.2.Whole := by
  have after := fits.found found
  cases found_cases found with
  | quiet quiet goto => exact bare_whole (Goto.bare_of_drop goto)
  | refused quiet state reset =>
    rw [reset]
    exact trivial
  | still same goto strange => exact bare_whole (Goto.bare_of_ack goto)
  | connects connects => exact appsend_whole after
  | answers answers => exact appsend_whole after
  | serves skips serves => exact appsend_whole after
  | ends ends endpoint state rcvNxt calls => exact trivial

/-- What is transmitted is no refusal. -/
theorem apprexmit_goto (p : Process) : p.apprexmit.2 ≠ .reset := by
  unfold apprexmit
  split
  · exact Goto.noConfusion
  · split
    · exact Goto.noConfusion
    · exact Goto.noConfusion

/-- What the timer leads to has room for its headers, and is no refusal. -/
theorem timed_goto (fits : r.1.conn.Fits) (timed : Timed app p r) : r.2.Whole ∧ r.2 ≠ .reset := by
  -- Data goes out only from an established connection; all else is bare.
  have plain {goto : Goto} (bare : goto.bare) : goto.Whole ∧ goto ≠ .reset := by
    refine ⟨bare_whole bare, ?_⟩
    intro reset
    rw [reset] at bare
    cases bare
  cases timed with
  | quiet active quiet goto =>
    rcases goto with drop | nodata
    · rw [drop]
      exact plain rfl
    · rw [nodata]
      exact plain rfl
  | idle same goto =>
    rw [goto]
    exact plain rfl
  | still active same goto =>
    rcases goto with ⟨finack, -⟩ | ⟨synack, -⟩ | ⟨syn, -⟩
    · rw [finack]
      exact plain rfl
    · rw [synack]
      exact ⟨trivial, Goto.noConfusion⟩
    · rw [syn]
      exact ⟨trivial, Goto.noConfusion⟩
  | rexmits same state outstanding flags slen =>
    rw [apprexmit_fst] at fits
    exact ⟨apprexmit_whole fits, apprexmit_goto _⟩
  | @polls q same state none flags slen =>
    refine ⟨appsend_whole fits, ?_⟩
    rcases (q.appcall app 0).appsend_cases with ⟨-, bare⟩ | same
    · exact (plain bare).2
    · rw [same]
      exact apprexmit_goto _

end Process

section Frames

variable (net : Net) (conn : Conn) (goto : Goto)

/-- Refusing a segment changes neither any connection nor the address of the host. -/
theorem Net.reset_keeps : net.reset.conns = net.conns ∧ net.reset.hostaddr = net.hostaddr := by
  unfold Net.reset
  dsimp only
  split
  · exact ⟨rfl, rfl⟩
  · exact ⟨rfl, rfl⟩

/-- Finishing a packet changes neither any connection nor the address of the host. -/
theorem Net.finish_keeps : (net.finish conn goto).conns = net.conns ∧
    (net.finish conn goto).hostaddr = net.hostaddr := by
  cases goto with
  | reset => exact net.reset_keeps
  | drop | tcpSendSynack | tcpSendSyn | tcpSendFinack | tcpSendAck => exact ⟨rfl, rfl⟩
  | tcpSendNodata | tcpSendNoopts => exact ⟨rfl, rfl⟩

end Frames

/-- A packet that gets as far as the processing of segments. -/
structure Accepted (net : Net) (uipLen : UInt16) (buf : UipBuf) : Prop where
  vhl : buf.hdr.vhl = 0x45
  len : buf.hdr.len ≤ uipLen
  hostaddr : net.hostaddr = .zero ∨ buf.hdr.destipaddr = net.hostaddr
  proto : buf.hdr.proto = uipProtoTcp
  ipchksum : uipIpchksum buf.hdr = 0xffff
  tcpchksum : buf.uipTcpchksum = 0xffff

/-- A packet is not a fragment. -/
def TcpipHdr.Whole (hdr : TcpipHdr) : Prop :=
  ¬ ((hdr.ipoffset >>> 8) &&& 0x3f ≠ 0 ∨ hdr.ipoffset &&& 0xff ≠ 0)

/-- Both ends that a segment names, as its receiver sees them. -/
def TcpipHdr.endpoint (hdr : TcpipHdr) : Endpoint := ⟨hdr.srcipaddr, hdr.srcport, hdr.destport⟩

/-- A packet that no connection sends: a control message, or a segment that refuses another. -/
def Unbound (hostaddr : IpAddr) (o : Observed) : Prop :=
  ∃ hdr data, o = .sent hdr data ∧ (hdr.proto ≠ uipProtoTcp ∨ data = [] ∧ Resets hostaddr hdr)

/-- What can happen to a host. -/
inductive Happens (app : AppCall → List AppAction) (net : Net) :
    NetEvent → Net → List Observed → Prop
  | ignored {event : NetEvent} {after : Net} {shown : List Observed}
      (conns : after.conns = net.conns) (hostaddr : after.hostaddr = net.hostaddr)
      (unbound : ∀ o ∈ shown, Unbound net.hostaddr o) : Happens app net event after shown
  | found {uipLen : UInt16} {buf : UipBuf} {after : Net} {sent : List Observed}
      {i : Fin uipConns} {r : Process × Goto} (accepted : Accepted net uipLen buf)
      (active : (net.conns i).Active) (mine : buf.hdr.endpoint = (net.conns i).endpoint)
      (found : Process.found app buf.hdr ⟨net.conns i, {}, buf.hdr.len, net.slen, buf.data, []⟩ =
        some r)
      (conns : after.conns = Function.update net.conns i r.1.conn)
      (hostaddr : after.hostaddr = net.hostaddr)
      (sends : Sends net.hostaddr r.1.conn r.1.data r.2 sent) :
      Happens app net (.input uipLen buf) after (Net.told app r.1.calls ++ sent)
  | timed {event : NetEvent} {after : Net} {sent : List Observed} {i : Fin uipConns} {p : Process}
      {r : Process × Goto} (conn : p.conn = net.conns i) (calls : p.calls = [])
      (slen : p.slen = 0 ∨ ∃ j, event = .poll j) (timed : p.Timed app r) (fits : r.1.conn.Fits)
      (conns : after.conns = Function.update net.conns i r.1.conn)
      (hostaddr : after.hostaddr = net.hostaddr)
      (sends : Sends net.hostaddr r.1.conn r.1.data r.2 sent) :
      Happens app net event after (Net.told app r.1.calls ++ sent)
  | accepts {uipLen : UInt16} {buf : UipBuf} {after : Net} {sent : List Observed}
      {i : Fin uipConns} {conn : Conn} (accepted : Accepted net uipLen buf)
      (syn : buf.hdr.flags &&& tcpCtl = tcpSyn)
      (fresh : ∀ j, (net.conns j).Active → (net.conns j).endpoint ≠ buf.hdr.endpoint)
      (endpoint : conn.endpoint = buf.hdr.endpoint) (state : conn.tcpstateflags = ⟨.synRcvd, false⟩)
      (sndNxt : conn.sndNxt = net.iss) (len : conn.len = 1)
      (rcvNxt : conn.rcvNxt = uipAdd32 buf.hdr.seqno 1) (fits : conn.Fits)
      (conns : after.conns = Function.update net.conns i conn)
      (hostaddr : after.hostaddr = net.hostaddr)
      (sends : Sends net.hostaddr conn buf.data .tcpSendSynack sent) :
      Happens app net (.input uipLen buf) after (.opened conn :: sent)
  | connects {ripaddr : IpAddr} {rport : UInt16} {after : Net} {i : Fin uipConns} {conn : Conn}
      (fresh : ∀ j, (net.conns j).Active → (net.conns j).endpoint ≠ conn.endpoint)
      (state : conn.tcpstateflags = ⟨.synSent, false⟩)
      (sndNxt : conn.sndNxt = net.iss) (len : conn.len = 1) (fits : conn.Fits)
      (conns : after.conns = Function.update net.conns i conn)
      (hostaddr : after.hostaddr = net.hostaddr) :
      Happens app net (.connect ripaddr rport) after [.opened conn]

/-- All connections of a host fit. -/
def Net.Fits (net : Net) : Prop := ∀ i, (net.conns i).Fits

section Inversion

variable {app : AppCall → List AppAction} {net after : Net} {shown : List Observed}

/-- Nothing happens to a host that drops a packet. -/
theorem Happens.drop {event : NetEvent} (same : after.conns = net.conns)
    (hostaddr : after.hostaddr = net.hostaddr) :
    Happens app net event after.drop ([] ++ after.drop.packet) := by
  have conns : after.drop.conns = net.conns := same
  apply Happens.ignored conns hostaddr
  rw [packet_drop]
  intro o member
  cases member

/-- Nothing happens to a host that refuses a segment. -/
theorem Happens.reset {event : NetEvent} (proto : after.buf.hdr.proto = uipProtoTcp)
    (same : after.conns = net.conns) (hostaddr : after.hostaddr = net.hostaddr) :
    Happens app net event after.reset ([] ++ after.reset.packet) := by
  apply Happens.ignored
  · exact after.reset_keeps.1.trans same
  · exact after.reset_keeps.2.trans hostaddr
  rw [List.nil_append]
  intro o member
  rcases packet_reset proto with none | ⟨hdr, sent, resets⟩
  · rw [none] at member
    cases member
  · rw [sent, List.mem_singleton] at member
    rw [hostaddr] at resets
    exact ⟨hdr, [], member, Or.inr ⟨rfl, resets⟩⟩

/-- The connection that a segment finds is in use and has the ends that the segment names. -/
theorem demultiplex_eq_some {i : Fin uipConns} (found : net.demultiplex = some i) :
    (net.conns i).Active ∧ net.buf.hdr.endpoint = (net.conns i).endpoint := by
  have checked := List.find?_some found
  simp only [decide_eq_true_eq] at checked
  obtain ⟨active, destport, srcport, srcipaddr⟩ := checked
  refine ⟨active, ?_⟩
  unfold TcpipHdr.endpoint Conn.endpoint
  rw [destport, srcport, srcipaddr]

/-- A segment that finds no connection names the ends of none. -/
theorem demultiplex_eq_none (missed : net.demultiplex = none) (j : Fin uipConns)
    (active : (net.conns j).Active) : (net.conns j).endpoint ≠ net.buf.hdr.endpoint := by
  intro same
  have failed := List.find?_eq_none.mp missed j (List.mem_finRange j)
  simp only [decide_eq_true_eq] at failed
  obtain ⟨ripaddr, rport, lport⟩ := Endpoint.mk.inj same
  exact failed ⟨active, lport.symm, rport.symm, ripaddr.symm⟩

/-- Storing a connection changes no other one. -/
theorem Net.conclude_keeps (net : Net) (i : Fin uipConns) (r : Process × Goto) :
    (net.conclude i r).conns = Function.update net.conns i r.1.conn ∧
      (net.conclude i r).hostaddr = net.hostaddr :=
  Net.finish_keeps _ _ _

/-- A segment that opens a connection gets the one that is spared, if there is one. -/
theorem foundListen_happens {uipLen : UInt16} {buf : UipBuf} (fits : net.Fits)
    (accepted : Accepted net uipLen buf) (syn : buf.hdr.flags &&& tcpCtl = tcpSyn)
    (fresh : ∀ j, (net.conns j).Active → (net.conns j).endpoint ≠ buf.hdr.endpoint)
    (listened : { net with uipLen := buf.hdr.len, buf := buf }.foundListen =
      some (after, shown)) :
    Happens app net (.input uipLen buf) after (shown ++ after.packet) := by
  unfold Net.foundListen at listened
  split at listened
  · obtain ⟨rfl, rfl⟩ := Prod.mk.inj (Option.some.inj listened)
    exact Happens.drop rfl rfl
  · rename_i i spare
    obtain ⟨tmp16, -, rest⟩ := Option.bind_eq_some_iff.mp listened
    obtain ⟨rfl, rfl⟩ := Prod.mk.inj (Option.some.inj rest)
    -- The segment size is no more than a limit to what is sent.
    generalize opened : ((net.conns i).accept buf.hdr net.iss).takeMss tmp16 = conn
    have started : ((net.conns i).accept buf.hdr net.iss).Fits :=
      ⟨small_fits.2, (fits i).mss, (fits i).initialmss⟩
    have taken := started.takeMss tmp16
    rw [opened] at taken
    let stored : Net := { net with
      uipLen := buf.hdr.len
      buf := buf
      conns := Function.update net.conns i conn }
    have kept := stored.finish_keeps conn .tcpSendSynack
    have sends : Sends net.hostaddr conn buf.data .tcpSendSynack
        (stored.finish conn .tcpSendSynack).packet := by
      obtain ⟨hdr, sent, emits⟩ := @packet_finish stored conn .tcpSendSynack trivial
        Goto.noConfusion Goto.noConfusion
      rw [sent]
      exact Sends.segment Goto.noConfusion Goto.noConfusion emits
    have fields : conn.endpoint = buf.hdr.endpoint ∧ conn.tcpstateflags = ⟨.synRcvd, false⟩ ∧
        conn.sndNxt = net.iss ∧ conn.len = 1 ∧ conn.rcvNxt = uipAdd32 buf.hdr.seqno 1 := by
      subst opened
      cases tmp16 with
      | none => exact ⟨rfl, rfl, rfl, rfl, rfl⟩
      | some mss => exact ⟨rfl, rfl, rfl, rfl, rfl⟩
    obtain ⟨endpoint, state, sndNxt, len, rcvNxt⟩ := fields
    exact Happens.accepts accepted syn fresh endpoint state sndNxt len rcvNxt taken kept.1 kept.2
      sends

/-- A segment that is accepted finds its connection, opens one, or is refused. -/
theorem tcpInput_happens {uipLen : UInt16} {buf : UipBuf} (fits : net.Fits)
    (accepted : buf.uipTcpchksum = 0xffff → Accepted net uipLen buf)
    (input : { net with uipLen := buf.hdr.len, buf := buf }.tcpInput app = some (after, shown)) :
    Happens app net (.input uipLen buf) after (shown ++ after.packet) := by
  -- The checksum, the connections and the listeners are looked at in this order.
  unfold Net.tcpInput at input
  by_cases damaged : buf.uipTcpchksum ≠ 0xffff
  · rw [if_pos damaged] at input
    obtain ⟨rfl, rfl⟩ := Prod.mk.inj (Option.some.inj input)
    exact Happens.drop rfl rfl
  rw [if_neg damaged] at input
  have passed := accepted (not_not.mp damaged)
  split at input
  · rename_i i belongs
    obtain ⟨active, mine⟩ := demultiplex_eq_some belongs
    obtain ⟨r, found, result⟩ := Option.map_eq_some_iff.mp input
    obtain ⟨rfl, rfl⟩ := Prod.mk.inj result
    let before : Net := { net with uipLen := buf.hdr.len, buf := buf }
    have whole := Process.found_whole (fits i) found
    have kept := before.conclude_keeps i r
    have sends := @sends_conclude before i r whole fun _ => passed.proto
    exact Happens.found passed active mine found kept.1 kept.2 sends
  · rename_i missed
    have fresh := demultiplex_eq_none missed
    split at input
    · obtain ⟨rfl, rfl⟩ := Prod.mk.inj (Option.some.inj input)
      exact Happens.reset passed.proto rfl rfl
    · rename_i syn
      split at input
      · exact foundListen_happens fits passed (not_not.mp syn) fresh input
      · obtain ⟨rfl, rfl⟩ := Prod.mk.inj (Option.some.inj input)
        exact Happens.reset passed.proto rfl rfl

/-- A control message is answered or dropped. -/
theorem icmpInput_happens {event : NetEvent} {before : Net} (same : before.conns = net.conns)
    (hostaddr : before.hostaddr = net.hostaddr) (proto : before.buf.hdr.proto = uipProtoIcmp) :
    Happens app net event before.icmpInput ([] ++ before.icmpInput.packet) := by
  -- No connection is looked at.
  by_cases echo : before.buf.hdr.srcport.toUInt8 ≠ icmpEcho
  · have dropped : before.icmpInput = before.drop := if_pos echo
    rw [dropped]
    exact Happens.drop same hostaddr
  · have kept : before.icmpInput.conns = before.conns ∧
        before.icmpInput.hostaddr = before.hostaddr ∧
        before.icmpInput.buf.hdr.proto = before.buf.hdr.proto := by
      unfold Net.icmpInput
      simp only [if_neg echo, and_self]
    obtain ⟨conns, host, stays⟩ := kept
    apply Happens.ignored (conns.trans same) (host.trans hostaddr)
    intro o member
    rw [List.nil_append] at member
    unfold Net.packet at member
    split at member
    · cases member
    · rw [List.mem_singleton] at member
      refine ⟨_, _, member, Or.inl ?_⟩
      rw [stays, proto]
      decide

/-- A packet finds its connection, opens one, or changes none. -/
theorem uipInput_happens {uipLen : UInt16} {buf : UipBuf} (fits : net.Fits)
    (input : { net with uipLen := uipLen, buf := buf }.uipInput app = some (after, shown)) :
    Happens app net (.input uipLen buf) after (shown ++ after.packet) := by
  -- Each check drops the packet; what passes all is a segment or a control message.
  have dropped {before : Net}
      (result : some (before.drop, ([] : List Observed)) = some (after, shown))
      (same : before.conns = net.conns) (hostaddr : before.hostaddr = net.hostaddr) :
      Happens app net (.input uipLen buf) after (shown ++ after.packet) := by
    obtain ⟨rfl, rfl⟩ := Prod.mk.inj (Option.some.inj result)
    exact Happens.drop same hostaddr
  unfold Net.uipInput at input
  dsimp only at input
  split at input
  · exact dropped input rfl rfl
  rename_i vhl
  split at input
  · rename_i len
    split at input
    · exact dropped input rfl rfl
    split at input
    · exact dropped input rfl rfl
    rename_i foreign
    split at input
    · exact dropped input rfl rfl
    rename_i ipchksum
    split at input
    · rename_i proto
      apply tcpInput_happens fits _ input
      intro tcpchksum
      have hostaddr : net.hostaddr = .zero ∨ buf.hdr.destipaddr = net.hostaddr := by
        by_contra other
        exact foreign (not_or.mp other)
      exact ⟨not_not.mp vhl, len, hostaddr, proto, not_not.mp ipchksum, tcpchksum⟩
    · split at input
      · exact dropped input rfl rfl
      · rename_i proto
        obtain ⟨rfl, rfl⟩ := Prod.mk.inj (Option.some.inj input)
        exact icmpInput_happens rfl rfl (not_not.mp proto)
  · exact dropped input rfl rfl

/-- An unused port is not that of a connection. -/
theorem unusedPort_eq_some {fuel : Nat} {lastport port : UInt16}
    (unused : net.unusedPort fuel lastport = some port) (j : Fin uipConns)
    (active : (net.conns j).Active) : (net.conns j).lport ≠ htons port := by
  induction fuel generalizing lastport with
  | zero => cases unused
  | succ fuel ih =>
    unfold Net.unusedPort at unused
    dsimp only at unused
    split at unused
    · exact ih unused
    · rename_i free
      obtain rfl := Option.some.inj unused
      intro same
      exact free ⟨j, active, same⟩

/-- A connection is opened with a port of its own. -/
theorem uipConnect_happens {ripaddr : IpAddr} {rport : UInt16}
    (connected : net.uipConnect ripaddr rport = some (after, shown)) :
    Happens app net (.connect ripaddr rport) after shown := by
  -- The port is one that no connection uses.
  unfold Net.uipConnect at connected
  obtain ⟨lastport, unused, rest⟩ := Option.bind_eq_some_iff.mp connected
  dsimp only at rest
  split at rest
  · obtain ⟨rfl, rfl⟩ := Prod.mk.inj (Option.some.inj rest)
    have kept : { net with lastport := lastport }.conns = net.conns := rfl
    apply Happens.ignored kept rfl
    intro o member
    cases member
  · rename_i i spare
    obtain ⟨rfl, rfl⟩ := Prod.mk.inj (Option.some.inj rest)
    have small : segmentSize ≤ segmentSize := UInt16.le_refl _
    have fresh : ∀ j, (net.conns j).Active →
        (net.conns j).endpoint ≠ ⟨ripaddr, rport, htons lastport⟩ := by
      intro j active same
      exact unusedPort_eq_some unused j active (Endpoint.mk.inj same).2.2
    exact Happens.connects fresh rfl rfl rfl ⟨small_fits.2, small, small⟩ rfl rfl

/-- The timer and requests for new data concern one connection. -/
theorem timed_happens {event : NetEvent} {before : Net} {i : Fin uipConns} {p : Process}
    {r : Process × Goto} (same : before.conns = net.conns)
    (hostaddr : before.hostaddr = net.hostaddr) (conn : p.conn = net.conns i)
    (calls : p.calls = []) (slen : p.slen = 0 ∨ ∃ j, event = .poll j) (timed : p.Timed app r)
    (fits : r.1.conn.Fits) :
    Happens app net event (before.conclude i r)
      (Net.told app r.1.calls ++ (before.conclude i r).packet) := by
  obtain ⟨whole, goto⟩ := Process.timed_goto fits timed
  have kept := before.conclude_keeps i r
  have sends := @sends_conclude before i r whole fun reset => absurd reset goto
  rw [hostaddr] at sends
  rw [same, hostaddr] at kept
  exact Happens.timed conn calls slen timed fits kept.1 kept.2 sends

/-- Whatever happens to a host is one of the things that can happen. -/
theorem step_happens {event : NetEvent} (fits : net.Fits)
    (stepped : net.step app event = some (after, shown)) : Happens app net event after shown := by
  -- Each event has its own function, and its spec lemma says what it does.
  have unbound : ∀ o ∈ ([] : List Observed), Unbound net.hostaddr o := by
    intro o member
    cases member
  cases event with
  | input uipLen buf =>
    obtain ⟨⟨result, told⟩, input, rest⟩ := Option.map_eq_some_iff.mp stepped
    obtain ⟨rfl, rfl⟩ := Prod.mk.inj rest
    exact uipInput_happens fits input
  | periodic i =>
    obtain ⟨rfl, rfl⟩ := Prod.mk.inj (Option.some.inj stepped)
    let before : Net := { net with iss := net.iss.bump 3 Seqno.last_lt }
    have start : (before.process i).conn.Fits := fits i
    have same : before.conns = net.conns := rfl
    exact timed_happens same rfl rfl rfl (Or.inl rfl) Process.timer_cases start.timer
  | poll i =>
    obtain ⟨rfl, rfl⟩ := Prod.mk.inj (Option.some.inj stepped)
    have start : (net.process i).conn.Fits := fits i
    exact timed_happens rfl rfl rfl rfl (Or.inr ⟨i, rfl⟩) Process.poll_cases start.poll
  | connect ripaddr rport => exact uipConnect_happens stepped
  | listen port =>
    obtain ⟨rfl, rfl⟩ := Prod.mk.inj (Option.some.inj stepped)
    have kept : (net.uipListen port).conns = net.conns ∧
        (net.uipListen port).hostaddr = net.hostaddr := by
      unfold Net.uipListen
      split
      · exact ⟨rfl, rfl⟩
      · exact ⟨rfl, rfl⟩
    exact Happens.ignored kept.1 kept.2 unbound
  | unlisten port =>
    obtain ⟨rfl, rfl⟩ := Prod.mk.inj (Option.some.inj stepped)
    have kept : (net.uipUnlisten port).conns = net.conns ∧
        (net.uipUnlisten port).hostaddr = net.hostaddr := by
      unfold Net.uipUnlisten
      split
      · exact ⟨rfl, rfl⟩
      · exact ⟨rfl, rfl⟩
    exact Happens.ignored kept.1 kept.2 unbound

end Inversion

/-- The connections of a host fit, and no two of them that are in use have the same ends. -/
structure Net.Sound (net : Net) : Prop where
  fits : net.Fits
  distinct : ∀ i j, (net.conns i).Active → (net.conns j).Active →
    (net.conns i).endpoint = (net.conns j).endpoint → i = j

/-- Calls are no packets. -/
theorem mem_told_append {app : AppCall → List AppAction} {calls : List AppCall}
    {sent : List Observed} {hdr : TcpipHdr} {data : List UInt8}
    (member : Observed.sent hdr data ∈ Net.told app calls ++ sent) :
    Observed.sent hdr data ∈ sent := by
  rcases List.mem_append.mp member with called | packet
  · obtain ⟨call, -, other⟩ := List.mem_map.mp called
    cases other
  · exact packet

section Soundness

variable {app : AppCall → List AppAction} {net after : Net} {event : NetEvent}
variable {shown : List Observed}

/-- A connection that is stored with fitting lengths and ends of its own keeps a host sound. -/
theorem Net.Sound.update (sound : net.Sound) {i : Fin uipConns} {conn : Conn} (fits : conn.Fits)
    (own : conn.Active → ∀ j, j ≠ i → (net.conns j).Active →
      (net.conns j).endpoint ≠ conn.endpoint)
    (conns : after.conns = Function.update net.conns i conn) : after.Sound := by
  -- The stored connection is compared with each of the others.
  have here : after.conns i = conn := by rw [conns, Function.update_self]
  have elsewhere (j : Fin uipConns) (apart : j ≠ i) : after.conns j = net.conns j := by
    rw [conns, Function.update_of_ne apart]
  constructor
  · intro j
    by_cases same : j = i
    · rw [same, here]
      exact fits
    · rw [elsewhere j same]
      exact sound.fits j
  · intro j k first second ends
    by_cases atFirst : j = i
    · by_cases atSecond : k = i
      · rw [atFirst, atSecond]
      · rw [atFirst, here] at first ends
        rw [elsewhere k atSecond] at second ends
        exact absurd ends.symm (own first k atSecond second)
    · rw [elsewhere j atFirst] at first ends
      by_cases atSecond : k = i
      · rw [atSecond, here] at second ends
        exact absurd ends (own second j atFirst first)
      · rw [elsewhere k atSecond] at second ends
        exact sound.distinct j k first second ends

/-- Whatever happens keeps a host sound. -/
theorem Happens.sound (sound : net.Sound) (happens : Happens app net event after shown) :
    after.Sound := by
  -- At most one connection changes, and it keeps its peer or is a new one.
  cases happens with
  | ignored conns hostaddr unbound =>
    constructor
    · intro i
      rw [conns]
      exact sound.fits i
    · rw [conns]
      exact sound.distinct
  | @found uipLen buf after sent i r accepted active mine found conns hostaddr sends =>
    apply sound.update ((sound.fits i).found found) _ conns
    intro _ j apart other same
    rw [(Process.found_cases found).endpoint] at same
    exact apart (sound.distinct j i other active same)
  | @timed event after sent i p r conn calls slen timed fits conns hostaddr sends =>
    apply sound.update fits _ conns
    intro still j apart other same
    have active := timed.active still
    rw [timed.endpoint, conn] at same
    rw [conn] at active
    exact apart (sound.distinct j i other active same)
  | accepts accepted syn fresh endpoint state sndNxt len rcvNxt fits conns hostaddr sends =>
    apply sound.update fits _ conns
    intro _ j apart active same
    exact fresh j active (same.trans endpoint)
  | connects fresh state sndNxt len fits conns hostaddr =>
    apply sound.update fits _ conns
    intro _ j apart active
    exact fresh j active

/-- A host that has just been started: no connection is in use. -/
structure Net.Booted (net : Net) : Prop where
  fits : net.Fits
  unused : ∀ i, ¬ (net.conns i).Active

/-- What a host can get to, with any application. -/
abbrev Net.Reaches (start : Net) : Net → List Observed → Prop :=
  Run (fun net (label : (AppCall → List AppAction) × NetEvent) next shown =>
    net.step label.1 label.2 = some (next, shown)) start

/-- A host that has just been started is sound. -/
theorem Net.Booted.sound (booted : net.Booted) : net.Sound :=
  ⟨booted.fits, fun i _ active => absurd active (booted.unused i)⟩

/-- A host stays sound. -/
theorem Net.Reaches.sound {start : Net} {history : List Observed} (booted : start.Booted)
    (run : start.Reaches net history) : net.Sound := by
  apply Run.invariant (fun net _ => net.Sound) booted.sound _ run
  intro net label next history shown sound stepped
  exact (step_happens sound.fits stepped).sound sound

/-- Starting a host whose memory is cleared. -/
theorem Net.uipInit_booted (fits : net.Fits) : net.uipInit.Booted :=
  ⟨fun i => ⟨(fits i).len, (fits i).mss, (fits i).initialmss⟩, fun _ active => active rfl⟩

/-- A packet with its checksums, as it arrives. -/
def arriving (hdr : TcpipHdr) (data : List UInt8) : NetEvent :=
  let uipLen := UInt16.ofNat (uipIptcphLen + data.length)
  let buf := UipBuf.setTcpchksum ⟨{ hdr with len := uipLen }, fun k => data[k]?.getD 0⟩
  .input uipLen { buf with hdr := buf.hdr.setIpchksum }

/-- A host whose memory is cleared. -/
def clearedHost (hostaddr : IpAddr) : Net where
  hostaddr := hostaddr
  conns := fun _ => {
    ripaddr := .zero
    lport := 0
    rport := 0
    rcvNxt := Seqno.ofByte 0
    sndNxt := Seqno.ofByte 0
    len := 0
    mss := 0
    initialmss := 0
    sa := 0
    sv := 0
    rto := 0
    tcpstateflags := .unused
    timer := 0
    nrtx := 0 }
  listenports := fun _ => 0
  iss := Seqno.ofByte 0
  ipid := 0
  lastport := 0
  buf := ⟨blankHdr .zero .zero 0 0, fun _ => 0⟩
  uipLen := 0
  slen := 0

/-- A host with cleared memory starts. -/
theorem clearedHost_booted (hostaddr : IpAddr) : (clearedHost hostaddr).uipInit.Booted := by
  apply Net.uipInit_booted
  have small : (0 : UInt16) ≤ segmentSize := by decide
  intro i
  exact ⟨small, small, small⟩

/-- All segments that a host sends are sealed, and name it as their sender. -/
theorem Happens.sealed (happens : Happens app net event after shown) :
    ∀ hdr data, Observed.sent hdr data ∈ shown → hdr.proto = uipProtoTcp →
      hdr.srcipaddr = net.hostaddr ∧ Sealed hdr data := by
  -- A packet leaves only through the end of a processing, which seals it.
  have sends {sent : List Observed} {conn : Conn} {mem : Nat → UInt8} {goto : Goto}
      (sends : Sends net.hostaddr conn mem goto sent) :
      ∀ hdr data, Observed.sent hdr data ∈ sent → hdr.srcipaddr = net.hostaddr ∧
        Sealed hdr data := by
    intro hdr data member
    cases sends with
    | drop => cases member
    | silent => cases member
    | reset resets =>
      obtain ⟨rfl, rfl⟩ := Observed.sent.inj (List.mem_singleton.mp member)
      exact ⟨resets.srcipaddr, resets.closed⟩
    | segment drop reset emits =>
      obtain ⟨rfl, rfl⟩ := Observed.sent.inj (List.mem_singleton.mp member)
      exact ⟨emits.srcipaddr, emits.closed⟩
  intro hdr data member proto
  cases happens with
  | ignored conns hostaddr unbound =>
    obtain ⟨other, bytes, same, unrelated⟩ := unbound _ member
    obtain ⟨rfl, rfl⟩ := Observed.sent.inj same
    obtain ⟨rfl, resets⟩ := unrelated.resolve_left fun foreign => foreign proto
    exact ⟨resets.srcipaddr, resets.closed⟩
  | found accepted active mine found conns hostaddr packets =>
    exact sends packets hdr data (mem_told_append member)
  | timed conn calls slen timed fits conns hostaddr packets =>
    exact sends packets hdr data (mem_told_append member)
  | accepts accepted syn fresh endpoint state sndNxt len rcvNxt fits conns hostaddr packets =>
    rcases List.mem_cons.mp member with other | packet
    · cases other
    · exact sends packets hdr data packet
  | connects fresh state sndNxt len fits conns hostaddr =>
    cases List.mem_singleton.mp member

/-- A host keeps its address. -/
theorem Happens.hostaddr (happens : Happens app net event after shown) :
    after.hostaddr = net.hostaddr := by
  cases happens with
  | ignored conns hostaddr unbound => exact hostaddr
  | found accepted active mine found conns hostaddr sends => exact hostaddr
  | timed conn calls slen timed fits conns hostaddr sends => exact hostaddr
  | accepts accepted syn fresh endpoint state sndNxt len rcvNxt fits conns hostaddr sends =>
    exact hostaddr
  | connects fresh state sndNxt len fits conns hostaddr => exact hostaddr

/-- All segments that a host has sent are sealed, and name it as their sender. -/
theorem Net.Reaches.sealed {start : Net} {history : List Observed} (booted : start.Booted)
    (run : start.Reaches net history) :
    ∀ hdr data, Observed.sent hdr data ∈ history → hdr.proto = uipProtoTcp →
      hdr.srcipaddr = start.hostaddr ∧ Sealed hdr data := by
  -- Each step seals what it sends, and the address of the host never changes.
  have all : (net.Sound ∧ net.hostaddr = start.hostaddr) ∧ ∀ hdr data,
      Observed.sent hdr data ∈ history → hdr.proto = uipProtoTcp →
      hdr.srcipaddr = start.hostaddr ∧ Sealed hdr data := by
    apply Run.invariant (fun (net : Net) history => (net.Sound ∧ net.hostaddr = start.hostaddr) ∧
      ∀ hdr data, Observed.sent hdr data ∈ history → hdr.proto = uipProtoTcp →
        hdr.srcipaddr = start.hostaddr ∧ Sealed hdr data)
      ⟨⟨booted.sound, rfl⟩, fun hdr data member => by cases member⟩ _ run
    intro net label next history shown holds stepped
    obtain ⟨⟨sound, hostaddr⟩, closed⟩ := holds
    have happens := step_happens sound.fits stepped
    refine ⟨⟨happens.sound sound, happens.hostaddr.trans hostaddr⟩, ?_⟩
    intro hdr data member proto
    rcases List.mem_append.mp member with old | fresh
    · exact closed hdr data old proto
    · rw [← hostaddr]
      exact happens.sealed hdr data fresh proto
  exact all.2

/-- Whatever has happened to a host: each segment that it has sent gets past all checks of the host
that it is addressed to, whatever follows it in the buffer there. -/
theorem Net.sends_accepted {start : Net} {history : List Observed} (booted : start.Booted)
    (run : start.Reaches net history) :
    ∀ hdr data, Observed.sent hdr data ∈ history → hdr.proto = uipProtoTcp →
      hdr.srcipaddr = start.hostaddr ∧ data.length ≤ uipTcpMss ∧
        ∀ (receiver : Net) (mem : Nat → UInt8), receiver.hostaddr = hdr.destipaddr →
          Holds mem data → Accepted receiver hdr.len ⟨hdr, mem⟩ ∧ hdr.Whole := by
  intro hdr data member proto
  obtain ⟨srcipaddr, closed⟩ := Net.Reaches.sealed booted run hdr data member proto
  refine ⟨srcipaddr, closed.short, ?_⟩
  intro receiver mem mine holds
  constructor
  · exact ⟨closed.vhl, UInt16.le_refl _, Or.inr mine.symm, proto, closed.ipchksum,
      closed.tcpchksum mem holds⟩
  · unfold TcpipHdr.Whole
    rw [closed.ipoffset]
    decide

/-- A segment that opens a connection arrives. -/
def opener : List ((AppCall → List AppAction) × NetEvent) :=
  [(fun _ => [], .listen 80),
    (fun _ => [], arriving { blankHdr ⟨1, 2⟩ ⟨1, 3⟩ 7 80 with flags := tcpSyn } [])]

/-- The answer to a segment that opens a connection gets past all checks. -/
theorem Net.sends_accepted_opener : ∃ net history,
    takeSteps (fun net label => Net.step net label.1 label.2) (clearedHost ⟨1, 3⟩).uipInit opener =
        some (net, history) ∧ history.length = 2 ∧
      ∀ hdr data, Observed.sent hdr data ∈ history → hdr.proto = uipProtoTcp →
        hdr.srcipaddr = ⟨1, 3⟩ ∧ data.length ≤ uipTcpMss ∧
          ∀ (receiver : Net) (mem : Nat → UInt8), receiver.hostaddr = hdr.destipaddr →
            Holds mem data → Accepted receiver hdr.len ⟨hdr, mem⟩ ∧ hdr.Whole := by
  have ran : (takeSteps (fun net label => Net.step net label.1 label.2)
      (clearedHost ⟨1, 3⟩).uipInit opener).map (fun r => r.2.length) = some 2 := by
    decide +kernel
  obtain ⟨⟨net, history⟩, taken, length⟩ := Option.map_eq_some_iff.mp ran
  have permitted : ∀ label ∈ opener, ∀ _ : Net, True := fun _ _ _ => trivial
  have run : (clearedHost ⟨1, 3⟩).uipInit.Reaches net history := by
    apply (run_of_takeSteps permitted .start taken).mono
    intro net label next shown step
    exact step.2
  exact ⟨net, history, taken, length, Net.sends_accepted (clearedHost_booted ⟨1, 3⟩) run⟩

end Soundness

end Egos.Uip
