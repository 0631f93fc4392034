import Egos.Uip.Steps

/-! A connection whose opening is not answered: how long it is waited for. -/

namespace Egos.Uip

/-- No packet of a peer gets as far as the processing of segments. -/
def Net.Deaf (ends : Endpoint) (net : Net) (event : NetEvent) : Prop :=
  ∀ uipLen buf, event = .input uipLen buf → Accepted net uipLen buf → buf.hdr.endpoint ≠ ends

/-- A connection that waits for an answer to its opening. -/
structure Conn.Waits (ends : Endpoint) (conn : Conn) : Prop where
  endpoint : conn.endpoint = ends
  opening : conn.tcpstateflags = ⟨.synSent, false⟩ ∨ conn.tcpstateflags = ⟨.synRcvd, false⟩
  outstanding : conn.len ≠ 0
  nrtx : conn.nrtx.toNat ≤ uipMaxsynrtx.toNat

/-- How many ticks the transmissions take that are still to come: the timeout doubles each time. -/
def patience (nrtx : Nat) : Nat :=
  3 * (2 ^ uipMaxsynrtx.toNat - 2 ^ nrtx) + (uipMaxsynrtx.toNat - nrtx)

/-- After how many ticks a connection is given up. -/
def Conn.ticksLeft (conn : Conn) : Nat := conn.timer.toNat + 1 + patience conn.nrtx.toNat

section Spare

variable {conns : Fin uipConns → Conn} {found : Option (Fin uipConns)} {i : Fin uipConns}

/-- Only a connection that is not in use, or closed long ago, is spared. -/
theorem spare_eq_some {candidates : List (Fin uipConns)}
    (spared : Net.spare conns found candidates = some i) :
    found = some i ∨ (conns i).tcpstateflags = .unused ∨
      (conns i).tcpstateflags = ⟨.timeWait, false⟩ := by
  -- The search takes a candidate only for one of these two reasons.
  induction candidates generalizing found with
  | nil => exact Or.inl spared
  | cons c rest ih =>
    unfold Net.spare at spared
    split at spared
    · rename_i unused
      obtain rfl := Option.some.inj spared
      exact Or.inr (Or.inl unused)
    · split at spared
      · rename_i older
        rcases ih spared with same | other
        · obtain rfl := Option.some.inj same
          exact Or.inr (Or.inr older.1)
        · exact Or.inr other
      · exact ih spared

end Spare

section Elsewhere

variable {ends : Endpoint} {net after : Net} {i : Fin uipConns}
variable {app : AppCall → List AppAction} {event : NetEvent} {shown : List Observed}

/-- A connection that waits is not spared for another one. -/
theorem Conn.Waits.kept (waits : (net.conns i).Waits ends) {j : Fin uipConns}
    (spared : Net.spare net.conns none (List.finRange uipConns) = some j) : i ≠ j := by
  rintro rfl
  rcases spare_eq_some spared with none | unused | old
  · cases none
  · rcases waits.opening with synSent | synRcvd
    · rw [synSent] at unused
      cases unused
    · rw [synRcvd] at unused
      cases unused
  · rcases waits.opening with synSent | synRcvd
    · rw [synSent] at old
      cases old
    · rw [synRcvd] at old
      cases old

/-- A segment of another peer leaves a connection that waits alone. -/
theorem Conn.Waits.tcpInput (waits : (net.conns i).Waits ends)
    (deaf : net.buf.uipTcpchksum = 0xffff → net.buf.hdr.endpoint ≠ ends)
    (input : net.tcpInput app = some (after, shown)) : after.conns i = net.conns i := by
  unfold Net.tcpInput at input
  -- A damaged segment is dropped.
  by_cases damaged : net.buf.uipTcpchksum ≠ 0xffff
  · rw [if_pos damaged] at input
    obtain ⟨rfl, rfl⟩ := Prod.mk.inj (Option.some.inj input)
    rfl
  rw [if_neg damaged] at input
  have foreign := deaf (not_not.mp damaged)
  have refused {result : Net} (same : result = net.reset) : result.conns i = net.conns i := by
    rw [same, net.reset_keeps.1]
  split at input
  · rename_i j belongs
    obtain ⟨-, mine⟩ := demultiplex_eq_some belongs
    obtain ⟨r, found, result⟩ := Option.map_eq_some_iff.mp input
    obtain ⟨rfl, rfl⟩ := Prod.mk.inj result
    -- The segment belongs to another connection.
    have apart : i ≠ j := by
      rintro rfl
      exact foreign (mine.trans waits.endpoint)
    rw [(net.conclude_keeps j r).1, Function.update_of_ne apart]
  · split at input
    · obtain ⟨rfl, rfl⟩ := Prod.mk.inj (Option.some.inj input)
      exact refused rfl
    · split at input
      · unfold Net.foundListen at input
        split at input
        · obtain ⟨rfl, rfl⟩ := Prod.mk.inj (Option.some.inj input)
          rfl
        · rename_i j spared
          obtain ⟨tmp16, -, rest⟩ := Option.bind_eq_some_iff.mp input
          obtain ⟨rfl, rfl⟩ := Prod.mk.inj (Option.some.inj rest)
          rw [(Net.finish_keeps _ _ _).1]
          exact Function.update_of_ne (waits.kept spared) _ _
      · obtain ⟨rfl, rfl⟩ := Prod.mk.inj (Option.some.inj input)
        exact refused rfl

/-- An application is not asked for data before its connection is established. -/
theorem Conn.Waits.poll (waits : (net.conns i).Waits ends) (app : AppCall → List AppAction) :
    ((net.process i).poll app).1.conn = net.conns i := by
  have early : ¬ ((net.conns i).tcpstateflags.state = .established ∧ (net.conns i).len = 0) :=
    fun idle => waits.outstanding idle.2
  unfold Process.poll
  exact congrArg (fun r : Process × Goto => r.1.conn) (if_neg early)

/-- What does not concern a connection that waits leaves it alone. -/
theorem Conn.Waits.elsewhere (waits : (net.conns i).Waits ends)
    (deaf : net.Deaf ends event) (other : event ≠ .periodic i)
    (stepped : net.step app event = some (after, shown)) : after.conns i = net.conns i := by
  cases event with
  | input uipLen buf =>
    obtain ⟨⟨result, told⟩, input, rest⟩ := Option.map_eq_some_iff.mp stepped
    obtain ⟨rfl, rfl⟩ := Prod.mk.inj rest
    have dropped {before : Net}
        (result' : some (before.drop, ([] : List Observed)) = some (result, told))
        (same : before.conns = net.conns) : result.conns i = net.conns i := by
      obtain ⟨rfl, rfl⟩ := Prod.mk.inj (Option.some.inj result')
      exact congrFun same i
    -- Whatever fails a check is dropped; what passes all of them is a segment of another peer.
    unfold Net.uipInput at input
    dsimp only at input
    split at input
    · exact dropped input rfl
    rename_i vhl
    split at input
    · rename_i len
      split at input
      · exact dropped input rfl
      split at input
      · exact dropped input rfl
      rename_i mine
      split at input
      · exact dropped input rfl
      rename_i ipchksum
      split at input
      · rename_i proto
        have here : ({ net with uipLen := buf.hdr.len, buf := buf } : Net).conns i = net.conns i :=
          rfl
        rw [← here] at waits
        refine (waits.tcpInput ?_ input).trans here
        intro tcpchksum
        have hostaddr : net.hostaddr = .zero ∨ buf.hdr.destipaddr = net.hostaddr := by
          by_contra foreign
          exact mine (not_or.mp foreign)
        exact deaf uipLen buf rfl
          ⟨not_not.mp vhl, len, hostaddr, proto, not_not.mp ipchksum, tcpchksum⟩
      · split at input
        · exact dropped input rfl
        · obtain ⟨rfl, rfl⟩ := Prod.mk.inj (Option.some.inj input)
          unfold Net.icmpInput
          dsimp only
          split
          · rfl
          · rfl
    · exact dropped input rfl
  | periodic j =>
    obtain ⟨rfl, rfl⟩ := Prod.mk.inj (Option.some.inj stepped)
    have apart : i ≠ j := by
      rintro rfl
      exact other rfl
    rw [(Net.conclude_keeps _ j _).1]
    exact Function.update_of_ne apart _ _
  | poll j =>
    obtain ⟨rfl, rfl⟩ := Prod.mk.inj (Option.some.inj stepped)
    rw [(Net.conclude_keeps _ j _).1]
    by_cases own : i = j
    · subst own
      rw [Function.update_self]
      exact waits.poll app
    · exact Function.update_of_ne own _ _
  | connect ripaddr rport =>
    change net.uipConnect ripaddr rport = some (after, shown) at stepped
    unfold Net.uipConnect at stepped
    obtain ⟨lastport, -, rest⟩ := Option.bind_eq_some_iff.mp stepped
    dsimp only at rest
    split at rest
    · obtain ⟨rfl, rfl⟩ := Prod.mk.inj (Option.some.inj rest)
      rfl
    · rename_i j spared
      obtain ⟨rfl, rfl⟩ := Prod.mk.inj (Option.some.inj rest)
      exact Function.update_of_ne (waits.kept spared) _ _
  | listen port =>
    obtain ⟨rfl, rfl⟩ := Prod.mk.inj (Option.some.inj stepped)
    unfold Net.uipListen
    split
    · rfl
    · rfl
  | unlisten port =>
    obtain ⟨rfl, rfl⟩ := Prod.mk.inj (Option.some.inj stepped)
    unfold Net.uipUnlisten
    split
    · rfl
    · rfl

end Elsewhere

section Ticking

variable {ends : Endpoint} {p : Process} {app : AppCall → List AppAction}

/-- The timeout of a transmission is that of the one before, doubled. -/
theorem timeout_doubles {nrtx : UInt8} (few : nrtx.toNat < 5) :
    (uipRto <<< (if nrtx > 4 then 4 else nrtx)).toNat = 3 * 2 ^ nrtx.toNat ∧
      (nrtx + 1).toNat = nrtx.toNat + 1 ∧
      patience nrtx.toNat = 3 * 2 ^ nrtx.toNat + 1 + patience (nrtx + 1).toNat := by
  have each : ∀ k < 5,
      (uipRto <<< (if UInt8.ofNat k > 4 then 4 else UInt8.ofNat k)).toNat = 3 * 2 ^ k ∧
        (UInt8.ofNat k + 1).toNat = k + 1 ∧
        patience k = 3 * 2 ^ k + 1 + patience (UInt8.ofNat k + 1).toNat := by decide
  have this := each nrtx.toNat few
  rw [UInt8.ofNat_toNat] at this
  exact this

/-- One tick leaves one less, and the last one closes the connection. -/
theorem Process.timer_waits (waits : p.conn.Waits ends) :
    ((p.timer app).1.conn.Waits ends ∧
        (p.timer app).1.conn.ticksLeft + 1 = p.conn.ticksLeft) ∨
      (p.conn.ticksLeft = 1 ∧ (p.timer app).1.conn.tcpstateflags.state = .closed ∧
        ∃ call ∈ (p.timer app).1.calls, call.flags.timedout = true ∧
          call.conn.endpoint = ends) := by
  obtain ⟨endpoint, opening, outstanding, nrtx⟩ := waits
  have idle : ¬ (p.conn.tcpstateflags = ⟨.timeWait, false⟩ ∨
      p.conn.tcpstateflags = ⟨.finWait2, false⟩) := by
    rcases opening with state | state
    · rw [state]
      decide
    · rw [state]
      decide
  have active : p.conn.tcpstateflags ≠ .unused := by
    rcases opening with state | state
    · rw [state]
      decide
    · rw [state]
      decide
  have five : uipMaxsynrtx.toNat = 5 := rfl
  unfold Process.timer
  dsimp only
  rw [if_neg idle, if_pos active, if_pos outstanding]
  by_cases expired : p.conn.timer = 0
  · rw [if_pos expired]
    by_cases last : p.conn.nrtx = uipMaxsynrtx
    · -- The connection has been opened as often as it may be.
      right
      have gone : p.conn.nrtx = uipMaxrtx ∨
          (p.conn.tcpstateflags = ⟨.synSent, false⟩ ∨ p.conn.tcpstateflags = ⟨.synRcvd, false⟩) ∧
            p.conn.nrtx = uipMaxsynrtx := Or.inr ⟨opening, last⟩
      rw [if_pos gone]
      refine ⟨?_, Process.appcall_state 0, ?_⟩
      · unfold Conn.ticksLeft patience
        rw [expired, last]
        rfl
      · change ∃ call ∈ (Process.appcall _ app 0).calls, _
        rw [Process.appcall_calls]
        exact ⟨_, List.mem_append_right _ (List.mem_singleton.mpr rfl), rfl, endpoint⟩
    · -- The segment that opens the connection is sent once more.
      left
      have few : p.conn.nrtx.toNat < 5 := by
        have apart : p.conn.nrtx.toNat ≠ 5 := fun same => last (UInt8.toNat_inj.mp same)
        omega
      have goes : ¬ (p.conn.nrtx = uipMaxrtx ∨
          (p.conn.tcpstateflags = ⟨.synSent, false⟩ ∨ p.conn.tcpstateflags = ⟨.synRcvd, false⟩) ∧
            p.conn.nrtx = uipMaxsynrtx) := by
        rintro (most | ⟨-, same⟩)
        · rw [most] at few
          exact absurd few (by decide)
        · exact last same
      rw [if_neg goes]
      have again (q : Process) (state : q.conn.tcpstateflags = p.conn.tcpstateflags) :
          (Process.rexmit app q).1 = q := by
        unfold Process.rexmit
        rcases opening with synSent | synRcvd
        · rw [state, synSent]
        · rw [state, synRcvd]
      obtain ⟨timeout, next, total⟩ := timeout_doubles few
      suffices sent : ∀ q : Process, q.conn = { p.conn with
          timer := uipRto <<< (if p.conn.nrtx > 4 then 4 else p.conn.nrtx)
          nrtx := p.conn.nrtx + 1 } →
          (Process.rexmit app q).1.conn.Waits ends ∧
            (Process.rexmit app q).1.conn.ticksLeft + 1 = p.conn.ticksLeft from sent _ rfl
      intro q conn
      have state : q.conn.tcpstateflags = p.conn.tcpstateflags := by rw [conn]
      rw [again q state, conn]
      refine ⟨⟨endpoint, opening, outstanding, ?_⟩, ?_⟩
      · change (p.conn.nrtx + 1).toNat ≤ _
        omega
      · unfold Conn.ticksLeft
        dsimp only
        rw [expired, timeout, total]
        have none : (0 : UInt8).toNat = 0 := rfl
        omega
  · -- The timer goes on.
    rw [if_neg expired]
    left
    refine ⟨⟨endpoint, opening, outstanding, nrtx⟩, ?_⟩
    have some : p.conn.timer.toNat ≠ 0 := fun zero => expired (UInt8.toNat_inj.mp zero)
    have one : (1 : UInt8).toNat = 1 := rfl
    have less : (p.conn.timer - 1).toNat = p.conn.timer.toNat - 1 := by
      rw [UInt8.toNat_sub_of_le _ _ (UInt8.le_iff_toNat_le.mpr (by omega)), one]
    unfold Conn.ticksLeft
    dsimp only
    rw [less]
    omega

end Ticking

/-- What an event is to the timer of a connection. -/
def NetEvent.ticks (i : Fin uipConns) : NetEvent → List Unit
  | .periodic j => if j = i then [()] else []
  | .input _ _ | .poll _ | .connect _ _ | .listen _ | .unlisten _ => []

/-- What a host can get to while it hears nothing from a peer, with the ticks of a connection. -/
abbrev Net.ReachesDeaf (start : Net) (ends : Endpoint) (i : Fin uipConns) :
    Net → List Unit → Prop :=
  Run (fun net (label : (AppCall → List AppAction) × NetEvent) next ticks =>
    net.Deaf ends label.2 ∧ ticks = label.2.ticks i ∧
      ∃ shown, net.step label.1 label.2 = some (next, shown)) start

section Waiting

variable {ends : Endpoint} {start before net : Net} {i : Fin uipConns} {conn : Conn}
variable {app : AppCall → List AppAction} {event : NetEvent} {shown : List Observed}
variable {ticks : List Unit}

/-- A tick of a connection is one of its timer. -/
theorem Conn.Waits.tick (waits : (net.conns i).Waits ends) {next : Net}
    (stepped : net.step app (.periodic i) = some (next, shown)) :
    ((next.conns i).Waits ends ∧ (next.conns i).ticksLeft + 1 = (net.conns i).ticksLeft) ∨
      ((net.conns i).ticksLeft = 1 ∧ (next.conns i).tcpstateflags.state = .closed ∧
        ∃ call, Observed.called call (app call) ∈ shown ∧ call.flags.timedout = true ∧
          call.conn.endpoint = ends) := by
  -- The timer of the connection is what a tick runs.
  obtain ⟨rfl, rfl⟩ := Prod.mk.inj (Option.some.inj stepped)
  let ticked : Net := { net with iss := net.iss.bump 3 Seqno.last_lt }
  have stored : (ticked.conclude i ((ticked.process i).timer app)).conns i =
      ((ticked.process i).timer app).1.conn := by
    rw [(ticked.conclude_keeps i _).1, Function.update_self]
  rcases @Process.timer_waits ends (ticked.process i) app waits with ⟨still, left⟩ |
    ⟨last, closed, call, member, timedout, named⟩
  · left
    change ((ticked.conclude i ((ticked.process i).timer app)).conns i).Waits ends ∧
      ((ticked.conclude i ((ticked.process i).timer app)).conns i).ticksLeft + 1 = _
    rw [stored]
    exact ⟨still, left⟩
  · right
    refine ⟨last, ?_, call, ?_, timedout, named⟩
    · change ((ticked.conclude i ((ticked.process i).timer app)).conns i).tcpstateflags.state = _
      rw [stored]
      exact closed
    · apply List.mem_append_left
      exact List.mem_map.mpr ⟨call, member, rfl⟩

/-- A connection waits until its time is up. -/
theorem Conn.Waits.run (waits : (start.conns i).Waits ends)
    (run : start.ReachesDeaf ends i net ticks)
    (early : ticks.length < (start.conns i).ticksLeft) :
    (net.conns i).Waits ends ∧
      (net.conns i).ticksLeft + ticks.length = (start.conns i).ticksLeft := by
  revert early
  apply Run.invariant (fun (net : Net) (ticks : List Unit) =>
    ticks.length < (start.conns i).ticksLeft → (net.conns i).Waits ends ∧
      (net.conns i).ticksLeft + ticks.length = (start.conns i).ticksLeft)
    (fun _ => ⟨waits, rfl⟩) _ run
  intro net label next ticks new holds taken early
  obtain ⟨deaf, rfl, shown, stepped⟩ := taken
  obtain ⟨app, event⟩ := label
  rw [List.length_append] at early ⊢
  obtain ⟨still, left⟩ := holds (by omega)
  -- Only the timer of the connection makes a difference.
  by_cases own : event = .periodic i
  · subst own
    have one : (NetEvent.periodic i).ticks i = [()] := if_pos rfl
    rw [one, List.length_singleton] at early ⊢
    rcases still.tick stepped with ⟨waits, less⟩ | ⟨last, -⟩
    · exact ⟨waits, by omega⟩
    · omega
  · have none : event.ticks i = [] := by
      cases event with
      | periodic j =>
        apply if_neg
        rintro rfl
        exact own rfl
      | input | poll | connect | listen | unlisten => rfl
    rw [none, List.length_nil, Nat.add_zero]
    rw [still.elsewhere deaf own stepped]
    exact ⟨still, left⟩

/-- A connection that a segment opens waits. -/
theorem accept_waits (old : Conn) (hdr : TcpipHdr) (iss : Seqno) (mss : Option UInt16) :
    ((old.accept hdr iss).takeMss mss).Waits ((old.accept hdr iss).takeMss mss).endpoint ∧
      ((old.accept hdr iss).takeMss mss).ticksLeft =
        if ((old.accept hdr iss).takeMss mss).tcpstateflags.state = .synSent then 100 else 102 := by
  have one : (1 : UInt16) ≠ 0 := by decide
  cases mss with
  | none => exact ⟨⟨rfl, Or.inr rfl, one, Nat.zero_le _⟩, rfl⟩
  | some tmp16 => exact ⟨⟨rfl, Or.inr rfl, one, Nat.zero_le _⟩, rfl⟩

/-- A segment opens a connection that waits, or none. -/
theorem tcpInput_waits (input : net.tcpInput app = some (start, shown))
    (opened : Observed.opened conn ∈ shown) : conn.Waits conn.endpoint ∧
      conn.ticksLeft = if conn.tcpstateflags.state = .synSent then 100 else 102 := by
  -- Only the branch that finds a listener opens a connection.
  have nothing {result : Net} (same : some (result, ([] : List Observed)) = some (start, shown)) :
      False := by
    obtain ⟨-, rfl⟩ := Prod.mk.inj (Option.some.inj same)
    cases opened
  unfold Net.tcpInput at input
  split at input
  · exact (nothing input).elim
  split at input
  · obtain ⟨r, -, result⟩ := Option.map_eq_some_iff.mp input
    obtain ⟨-, rfl⟩ := Prod.mk.inj result
    obtain ⟨call, -, other⟩ := List.mem_map.mp opened
    cases other
  · split at input
    · exact (nothing input).elim
    · split at input
      · unfold Net.foundListen at input
        split at input
        · exact (nothing input).elim
        · obtain ⟨tmp16, -, rest⟩ := Option.bind_eq_some_iff.mp input
          obtain ⟨-, rfl⟩ := Prod.mk.inj (Option.some.inj rest)
          rw [Observed.opened.inj (List.mem_singleton.mp opened)]
          exact accept_waits _ _ _ _
      · exact (nothing input).elim

/-- A packet is not an opening. -/
theorem opened_of_append (opened : Observed.opened conn ∈ shown ++ net.packet) :
    Observed.opened conn ∈ shown := by
  rcases List.mem_append.mp opened with told | sent
  · exact told
  · unfold Net.packet at sent
    split at sent
    · cases sent
    · cases List.mem_singleton.mp sent

/-- A connection that has just been opened waits. -/
theorem opened_waits (stepped : before.step app event = some (start, shown))
    (opened : Observed.opened conn ∈ shown) : conn.Waits conn.endpoint ∧
      conn.ticksLeft = if conn.tcpstateflags.state = .synSent then 100 else 102 := by
  have told {calls : List AppCall} (member : Observed.opened conn ∈ Net.told app calls) :
      False := by
    obtain ⟨call, -, other⟩ := List.mem_map.mp member
    cases other
  cases event with
  | input uipLen buf =>
    obtain ⟨⟨result, said⟩, input, rest⟩ := Option.map_eq_some_iff.mp stepped
    obtain ⟨rfl, rfl⟩ := Prod.mk.inj rest
    have opened := opened_of_append opened
    have nothing {result' : Net}
        (same : some (result', ([] : List Observed)) = some (result, said)) : False := by
      obtain ⟨-, rfl⟩ := Prod.mk.inj (Option.some.inj same)
      cases opened
    -- Nothing but a segment opens a connection.
    unfold Net.uipInput at input
    dsimp only at input
    split at input
    · exact (nothing input).elim
    split at input
    · split at input
      · exact (nothing input).elim
      split at input
      · exact (nothing input).elim
      split at input
      · exact (nothing input).elim
      split at input
      · exact tcpInput_waits input opened
      · split at input
        · exact (nothing input).elim
        · exact (nothing input).elim
    · exact (nothing input).elim
  | periodic j =>
    obtain ⟨rfl, rfl⟩ := Prod.mk.inj (Option.some.inj stepped)
    exact (told (opened_of_append opened)).elim
  | poll j =>
    obtain ⟨rfl, rfl⟩ := Prod.mk.inj (Option.some.inj stepped)
    exact (told (opened_of_append opened)).elim
  | connect ripaddr rport =>
    change before.uipConnect ripaddr rport = some (start, shown) at stepped
    unfold Net.uipConnect at stepped
    obtain ⟨lastport, -, rest⟩ := Option.bind_eq_some_iff.mp stepped
    dsimp only at rest
    split at rest
    · obtain ⟨-, rfl⟩ := Prod.mk.inj (Option.some.inj rest)
      cases opened
    · obtain ⟨-, rfl⟩ := Prod.mk.inj (Option.some.inj rest)
      rw [Observed.opened.inj (List.mem_singleton.mp opened)]
      have one : (1 : UInt16) ≠ 0 := by decide
      exact ⟨⟨rfl, Or.inl rfl, one, Nat.zero_le _⟩, rfl⟩
  | listen port =>
    obtain ⟨-, rfl⟩ := Prod.mk.inj (Option.some.inj stepped)
    cases opened
  | unlisten port =>
    obtain ⟨-, rfl⟩ := Prod.mk.inj (Option.some.inj stepped)
    cases opened

/-- A connection whose opening is not answered is given up after a hundred ticks of its timer if it
was opened here, and after two more if it was opened by its peer, no sooner and no later, whatever
else happens to the host; the application is told. -/
theorem Net.gives_up (stepped : before.step app event = some (start, shown))
    (opened : Observed.opened conn ∈ shown) (here : start.conns i = conn)
    (run : start.ReachesDeaf conn.endpoint i net ticks) :
    let total := if conn.tcpstateflags.state = .synSent then 100 else 102
    (ticks.length < total → (net.conns i).Waits conn.endpoint) ∧
      (ticks.length + 1 = total → ∀ app next shown,
        net.step app (.periodic i) = some (next, shown) →
        (next.conns i).tcpstateflags.state = .closed ∧
          ∃ call, Observed.called call (app call) ∈ shown ∧ call.flags.timedout = true ∧
            call.conn.endpoint = conn.endpoint) := by
  obtain ⟨waits, all⟩ := opened_waits stepped opened
  intro total
  subst here
  have most : (start.conns i).ticksLeft = total := all
  rw [← most]
  constructor
  · intro early
    exact (waits.run run early).1
  · intro last app next shown stepped
    obtain ⟨still, left⟩ := waits.run run (by omega)
    rcases still.tick stepped with ⟨-, more⟩ | ⟨-, closed, told⟩
    · -- No tick was left but this one.
      have some : 0 < (next.conns i).ticksLeft := by
        unfold Conn.ticksLeft
        omega
      omega
    · exact ⟨closed, told⟩

/-- Steps without a packet are a run that hears nothing, and tick as their events do. -/
theorem Net.deaf_of_takeSteps {labels : List NetEvent} {history : List Observed} {after : Net}
    (quiet : ∀ event ∈ labels, ∀ uipLen buf, event ≠ .input uipLen buf)
    (earlier : start.ReachesDeaf ends i net ticks)
    (taken : takeSteps (fun net event => net.step app event) net labels = some (after, history)) :
    start.ReachesDeaf ends i after (ticks ++ labels.flatMap (NetEvent.ticks i)) := by
  -- Each event extends the run by one step.
  induction labels generalizing net ticks history with
  | nil =>
    obtain ⟨rfl, -⟩ := Prod.mk.inj (Option.some.inj taken)
    rw [List.flatMap_nil, List.append_nil]
    exact earlier
  | cons event labels ih =>
    simp only [takeSteps] at taken
    split at taken
    · cases taken
    · rename_i next shown stepped
      obtain ⟨⟨last, told⟩, tail, same⟩ := Option.map_eq_some_iff.mp taken
      obtain ⟨rfl, -⟩ := Prod.mk.inj same
      rw [List.flatMap_cons, ← List.append_assoc]
      apply ih (fun other member => quiet other (List.mem_cons_of_mem _ member)) _ tail
      have deaf : net.Deaf ends event := fun uipLen buf input =>
        absurd input (quiet event List.mem_cons_self uipLen buf)
      exact @Run.step _ _ _ _ _ _ _ (app, event) _ _ earlier ⟨deaf, rfl, shown, stepped⟩

/-- Whether all that was seen is the opening of the first connection from here. -/
def openedFirst : Net × List Observed → Bool
  | (net, [.opened conn]) => conn = net.conns firstConn ∧ conn.tcpstateflags.state = .synSent
  | _ => false

/-- A connection is opened here, polled, and given up at the hundredth tick of its timer. -/
theorem Net.gives_up_connecting : ∃ start conn net next history shown,
    (clearedHost ⟨1, 2⟩).uipInit.step (fun _ => []) (.connect ⟨1, 3⟩ 80) =
        some (start, [.opened conn]) ∧
      takeSteps (fun net label => net.step (fun _ => []) label) start
        (.poll firstConn :: List.replicate 99 (.periodic firstConn)) = some (net, history) ∧
      (net.conns firstConn).Waits conn.endpoint ∧
      net.step (fun _ => []) (.periodic firstConn) = some (next, shown) ∧
      (next.conns firstConn).tcpstateflags.state = .closed ∧
      ∃ call, Observed.called call [] ∈ shown ∧ call.flags.timedout = true ∧
        call.conn.endpoint = conn.endpoint := by
  -- The opening is run; the ticks after it are steps that hear nothing.
  have ran : ((clearedHost ⟨1, 2⟩).uipInit.step (fun _ => []) (.connect ⟨1, 3⟩ 80)).any
      openedFirst = true := by decide +kernel
  cases stepped : (clearedHost ⟨1, 2⟩).uipInit.step (fun _ => []) (.connect ⟨1, 3⟩ 80) with
  | none =>
    rw [stepped] at ran
    cases ran
  | some r =>
    obtain ⟨start, shown⟩ := r
    rw [stepped] at ran
    change openedFirst (start, shown) = true at ran
    unfold openedFirst at ran
    split at ran
    · rename_i start conn same
      obtain ⟨rfl, rfl⟩ := Prod.mk.inj same
      obtain ⟨here, synSent⟩ := of_decide_eq_true ran
      have goes : ∃ reached, takeSteps (fun net event => net.step (fun _ => []) event) start
          (.poll firstConn :: List.replicate 99 (.periodic firstConn)) = some reached := ⟨_, rfl⟩
      obtain ⟨⟨net, history⟩, taken⟩ := goes
      have quiet : ∀ event ∈ NetEvent.poll firstConn :: List.replicate 99 (.periodic firstConn),
          ∀ uipLen buf, event ≠ .input uipLen buf := by
        intro event member
        rcases List.mem_cons.mp member with rfl | periodic
        · exact fun _ _ => NetEvent.noConfusion
        · rw [List.eq_of_mem_replicate periodic]
          exact fun _ _ => NetEvent.noConfusion
      have run : start.ReachesDeaf conn.endpoint firstConn net ([] ++ _) :=
        Net.deaf_of_takeSteps quiet .start taken
      have many : ([] ++ (NetEvent.poll firstConn :: List.replicate 99 (.periodic firstConn)).flatMap
          (NetEvent.ticks firstConn)).length = 99 := by decide
      obtain ⟨before, last⟩ := Net.gives_up stepped (List.mem_singleton.mpr rfl) here.symm run
      rw [if_pos synSent] at before last
      have tick : net.step (fun _ => []) (.periodic firstConn) =
          some ((net.step (fun _ => []) (.periodic firstConn)).get rfl) := rfl
      obtain ⟨closed, call, told, timedout, named⟩ := last (by rw [many]) _ _ _ tick
      exact ⟨start, conn, net, _, history, _, rfl, taken, before (by rw [many]; decide), tick,
        closed, call, told, timedout, named⟩
    · cases ran

end Waiting

end Egos.Uip
