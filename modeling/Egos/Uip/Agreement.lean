import Egos.Uip.Closings
import Egos.Uip.Link
import Egos.Uip.Receipts

/-! Two hosts: what is acknowledged to an application has arrived at the other end. -/

namespace Egos.Uip

section Acknowledging

variable {app : AppCall → List AppAction} {ends : Endpoint} {iss : Nat} {out : Outgoing}
variable {hdr : TcpipHdr} {p q : Process} {r : Process × Goto} {net after : Net}
variable {event : NetEvent} {history shown : List Observed}

/-- A call moves what is outstanding to what is acknowledged, or nothing. -/
theorem transmit_acked (out : Outgoing) (call : AppCall) (actions : List AppAction) :
    (transmit out call actions).acked = if call.flags.acked then out.stream else out.acked := by
  have kept (out : Outgoing) : (out.answer call actions).acked = out.acked := by
    unfold Outgoing.answer
    split
    · rfl
    · rfl
  unfold transmit
  rw [kept]
  unfold Outgoing.acknowledge
  split
  · rfl
  · rfl

/-- Only an established connection takes an acknowledgement of data. -/
theorem Process.Found.acked (found : Process.Found app hdr p r) (calls : p.calls = [])
    {call : AppCall} (member : call ∈ r.1.calls) (acked : call.flags.acked = true) :
    p.conn.tcpstateflags.state = .established ∧ hdr.flags &&& tcpRst = 0 ∧
      (p.conn.acknowledge hdr).2 = true := by
  -- In every other state the calls of the application carry no acknowledgement.
  have farewell (quiet : p.Quiet r) : False := by
    rcases quiet.calls with ⟨none, -⟩ | ⟨one, told, farewell⟩
    · rw [none, calls] at member
      cases member
    · rw [told, calls, List.nil_append, List.mem_singleton] at member
      rw [member, farewell.acked] at acked
      cases acked
  cases found with
  | quiet quiet goto => exact (farewell quiet).elim
  | refused quiet state reset => exact (farewell quiet).elim
  | still same goto strange =>
    rw [same.calls, calls] at member
    cases member
  | @connects q connects =>
    rw [Process.calls_appsend (connects.calls.trans calls), List.mem_singleton] at member
    have taken : q.flags.acked = true := by
      rw [member] at acked
      exact acked
    rw [connects.flags] at taken
    cases taken
  | @answers q answers =>
    rw [Process.calls_appsend (answers.calls.trans calls), List.mem_singleton] at member
    have taken : q.flags.acked = true := by
      rw [member] at acked
      exact acked
    rw [answers.flags] at taken
    cases taken
  | @serves q skip skips serves =>
    rw [Process.calls_appsend (serves.calls.trans calls), List.mem_singleton] at member
    have taken : q.flags.acked = true := by
      rw [member] at acked
      exact acked
    rw [serves.flags] at taken
    exact ⟨serves.before, serves.rst, taken⟩
  | @ends q p' last endpoint state rcvNxt told =>
    rw [told, calls, List.nil_append, List.mem_singleton] at member
    have taken : q.flags.acked = true := by
      rw [member] at acked
      exact acked
    rw [last.flags] at taken
    exact ⟨last.before, last.rst, taken⟩

/-- The timer acknowledges nothing. -/
theorem Process.Timed.acked (timed : p.Timed app r) (calls : p.calls = []) {call : AppCall}
    (member : call ∈ r.1.calls) : call.flags.acked = false := by
  -- The flags that the timer sets are those of a repetition, a request for data or the end.
  cases timed with
  | quiet active quiet goto =>
    rcases quiet.calls with ⟨none, -⟩ | ⟨one, told, farewell⟩
    · rw [none, calls] at member
      cases member
    · rw [told, calls, List.nil_append, List.mem_singleton] at member
      rw [member]
      exact farewell.acked
  | idle same goto =>
    rw [same.calls, calls] at member
    cases member
  | still active same goto =>
    rw [same.calls, calls] at member
    cases member
  | @rexmits q same state outstanding flags slen =>
    rw [Process.apprexmit_fst, Process.appcall_calls, same.calls, calls, List.nil_append,
      List.mem_singleton] at member
    rw [member]
    exact congrArg Flags.acked flags
  | @polls q same state none flags slen =>
    rw [Process.calls_appsend (same.calls.trans calls), List.mem_singleton] at member
    rw [member]
    exact congrArg Flags.acked flags

/-- What the only call of a connection says is acknowledged. -/
theorem foldl_transmit_acked (single : p.Single r) :
    (r.1.calls.foldl (fun out call => transmit out call (app call)) out).acked = out.acked ∨
      (r.1.calls.foldl (fun out call => transmit out call (app call)) out).acked = out.stream ∧
        ∃ call ∈ r.1.calls, call.flags.acked = true := by
  rcases single with none | ⟨call, one, -⟩
  · rw [none]
    exact Or.inl rfl
  · rw [one, List.foldl_cons, List.foldl_nil, transmit_acked]
    by_cases acked : call.flags.acked = true
    · right
      rw [if_pos acked]
      exact ⟨rfl, call, List.mem_singleton.mpr rfl, acked⟩
    · left
      rw [if_neg acked]

/-- A segment that acknowledges all that an application has outstanding. -/
structure Confirms (ends : Endpoint) (net : Net) (event : NetEvent) (i : Fin uipConns)
    (uipLen : UInt16) (buf : UipBuf) : Prop where
  input : event = .input uipLen buf
  accepted : Accepted net uipLen buf
  active : (net.conns i).Active
  endpoint : (net.conns i).endpoint = ends
  named : buf.hdr.endpoint = ends
  state : (net.conns i).tcpstateflags.state = .established
  rst : buf.hdr.flags &&& tcpRst = 0
  acked : ((net.conns i).acknowledge buf.hdr).2 = true

/-- Only a segment of the peer acknowledges what an application has sent. -/
theorem Happens.acked (happens : Happens app net event after shown) :
    (transmitted ends (history ++ shown)).acked = (transmitted ends history).acked ∨
      (transmitted ends (history ++ shown)).acked = (transmitted ends history).stream ∧
        ∃ i uipLen buf, Confirms ends net event i uipLen buf := by
  -- Only the calls of the connection with the peer are noted.
  have appended : transmitted ends (history ++ shown) =
      shown.foldl (record transmit ends) (transmitted ends history) := List.foldl_append
  rw [appended]
  rcases happens.own (transmitted ends history) with same | ⟨calls, own, -, noted⟩
  · left
    rw [same]
  · rw [noted]
    cases own with
    | @found uipLen buf i p r input accepted active endpoint named conn none found =>
      rcases foldl_transmit_acked (found.single none) with kept | ⟨moved, call, member, acked⟩
      · exact Or.inl kept
      · obtain ⟨state, rst, taken⟩ := found.acked none member acked
        rw [conn] at state taken
        exact Or.inr ⟨moved, i, uipLen, buf, input, accepted, active, endpoint, named, state, rst,
          taken⟩
    | timed active endpoint conn none timed =>
      rcases foldl_transmit_acked (timed.single none) with kept | ⟨moved, call, member, acked⟩
      · exact Or.inl kept
      · rw [timed.acked none member] at acked
        cases acked

/-- What an application has received does not become less. -/
theorem Happens.longer {first : Nat} {fin : Prop} (happens : Happens app net event after shown)
    (holds : (receipts first fin).Holds ends history net)
    (ending : ∀ uipLen buf, event = .input uipLen buf → Accepted net uipLen buf →
      buf.hdr.endpoint = ends → buf.hdr.flags &&& tcpFin ≠ 0 → fin)
    (goesOn : GoesOn ends shown) :
    (received ends history).length ≤ (received ends (history ++ shown)).length := by
  -- A call appends to what has been received, or leaves it.
  have appended : received ends (history ++ shown) =
      shown.foldl (record (fun got call _ => receive got call) ends) (received ends history) :=
    List.foldl_append
  rw [appended]
  rcases happens.own (received ends history) with same | ⟨calls, own, among, noted⟩
  · rw [same]
  · rw [noted]
    have answers : ∀ call ∈ calls, call.conn.endpoint = ends →
        (app call).any AppAction.ends = false :=
      fun call member => goesOn call (app call) (among call member)
    cases own with
    | @found uipLen buf i p r input accepted active endpoint named conn none found =>
      have receiving := holds.conn i active endpoint
      have own := (found.single none).own
      rw [← conn] at receiving endpoint
      exact (Receiving.found receiving none (ending uipLen buf input accepted named) found
        fun call member => answers call member ((own call member).trans endpoint)).2
    | timed active endpoint conn none timed =>
      rename_i i p r
      have receiving := holds.conn i active endpoint
      have own := (timed.single none).own
      rw [← conn] at receiving endpoint
      have same := (Receiving.timed receiving none timed
        fun call member => answers call member ((own call member).trans endpoint)).1
      exact Nat.le_of_eq (congrArg List.length same).symm

end Acknowledging

/-- The end of a stream has been sent. -/
def Ended (ends : Endpoint) (history : List Observed) : Prop :=
  ∃ hdr data, Observed.sent hdr data ∈ history ∧ hdr.proto = uipProtoTcp ∧ hdr.sender = ends ∧
    hdr.flags &&& tcpFin ≠ 0

/-- What both applications of a connection, which the left host has opened, have to do. -/
structure Link.Talks (ends : Endpoint) (hostaddr : IpAddr) (link : Link) : Prop where
  single : (openings ends link.leftSeen).length ≤ 1
  faithful : Faithful ends link.leftSeen
  small : (transmitted ends link.leftSeen).stream.length + 1 < 4294967296
  accepts : Accepts (ends.mirror hostaddr) link.rightSeen
  goesOn : GoesOn (ends.mirror hostaddr) link.rightSeen

section Agreement

variable {start link : Link} {ends : Endpoint} {iss : Nat} {hostaddr : IpAddr} {left right : Net}
variable {history shown : List Observed}

/-- What an application has sent does not become less. -/
theorem foldl_transmit_stream (ends : Endpoint) (out : Outgoing) (shown : List Observed) :
    out.stream <+: (shown.foldl (record transmit ends) out).stream := by
  induction shown generalizing out with
  | nil => exact List.prefix_rfl
  | cons o shown ih =>
    rw [List.foldl_cons]
    apply List.IsPrefix.trans _ (ih _)
    cases o with
    | opened conn => exact List.prefix_rfl
    | sent hdr data => exact List.prefix_rfl
    | called call actions =>
      simp only [record]
      split
      · exact transmit_grows out call actions
      · exact List.prefix_rfl

/-- Both applications did what they have to do before a step of the left host. -/
theorem Link.Talks.beforeLeft
    (talks : Talks ends hostaddr { link with left := left, leftSeen := link.leftSeen ++ shown }) :
    Talks ends hostaddr link := by
  -- What holds of a whole history holds of its beginning.
  obtain ⟨single, faithful, small, accepts, goesOn⟩ := talks
  constructor
  case single =>
    dsimp only at single
    rw [openings_append, List.length_append] at single
    exact (Nat.le_add_right _ _).trans single
  case faithful =>
    intro before call actions rest split
    apply faithful before call actions (rest ++ shown)
    dsimp only
    rw [split, List.append_assoc]
    rfl
  case small =>
    have grows := foldl_transmit_stream ends (transmitted ends link.leftSeen) shown
    have appended : transmitted ends (link.leftSeen ++ shown) =
        shown.foldl (record transmit ends) (transmitted ends link.leftSeen) := List.foldl_append
    rw [← appended] at grows
    have length := grows.length_le
    dsimp only at small
    omega
  case accepts => exact accepts
  case goesOn => exact goesOn

/-- Both applications did what they have to do before a step of the right host. -/
theorem Link.Talks.beforeRight
    (talks : Talks ends hostaddr
      { link with right := right, rightSeen := link.rightSeen ++ shown }) :
    Talks ends hostaddr link := by
  obtain ⟨single, faithful, small, ⟨one, opened⟩, goesOn⟩ := talks
  refine ⟨single, faithful, small, ⟨?_, ?_⟩, ?_⟩
  · dsimp only at one
    rw [openings_append, List.length_append] at one
    exact (Nat.le_add_right _ _).trans one
  · intro conn member
    apply opened
    dsimp only
    rw [openings_append]
    exact List.mem_append_left _ member
  · intro call actions member
    exact goesOn call actions (List.mem_append_left _ member)

/-- The left host sends the end of a stream last. -/
theorem Link.LeftRun.closes (run : LeftRun start link) (booted : start.left.Booted)
    (single : (openings ends link.leftSeen).length ≤ 1) :
    closings.Holds ends link.leftSeen link.left := by
  have opened : Opened link.leftSeen link.left := by
    apply Net.Reaches.opened booted
    exact run.run.mono fun _ _ _ _ taken => taken.2
  apply closings_sound.run booted
  · apply run.run.mono
    intro net label next shown taken
    exact ⟨⟨fun _ _ _ _ _ => trivial, Or.inl trivial⟩, taken.2⟩
  · refine ⟨fun _ _ _ _ _ _ => trivial, ?_⟩
    intro before conn rest split same
    obtain ⟨none, -⟩ := openings_before single split same
    rw [split] at opened
    exact Contract.memory_unopened opened none

/-- The right host counts what its application has received. -/
theorem Link.LeftRun.counts (right : LeftRun start.swap link.swap) (booted : start.Booted)
    (peer : ends.ripaddr = start.right.hostaddr)
    (holds : (transmission iss).Holds ends link.leftSeen link.left)
    (accepts : Accepts (ends.mirror start.left.hostaddr) link.rightSeen)
    (goesOn : GoesOn (ends.mirror start.left.hostaddr) link.rightSeen) :
    (receipts ((iss + 1) % 4294967296) (Ended ends link.leftSeen)).Holds
      (ends.mirror start.left.hostaddr) link.rightSeen link.right := by
  -- Only packets of the other host are accepted, and their numbers are its own.
  apply receipts_holds booted.right _ accepts goesOn
  apply right.run.mono
  intro net label next shown taken
  obtain ⟨⟨host, relayed, -⟩, stepped⟩ := taken
  have own : net.hostaddr = start.right.hostaddr := host
  refine ⟨?_, stepped⟩
  intro uipLen buf input accepted named
  rw [input] at relayed
  have some : net.hostaddr ≠ .zero := by
    rw [own]
    exact booted.rightHost
  obtain ⟨hdr, data, ttl, ipchksum, sent, proto, sender, same, -⟩ :=
    Relayed.source relayed (own.trans peer.symm) some accepted named
  have genuine := holds.sent hdr data sent proto sender
  rw [same]
  constructor
  · intro syn
    dsimp only at syn ⊢
    rw [genuine.syn syn]
  · intro fin
    exact ⟨hdr, data, sent, proto, sender, fin⟩

/-- Numbers that agree below the size of the number space are the same. -/
theorem eq_of_counted {got stream : List UInt8} {fin : Prop} {ackno : Seqno}
    (small : stream.length + 1 < 4294967296) (begins : got <+: stream) (goes : ¬ fin)
    (counted : Counted ((iss + 1) % 4294967296) fin got ackno)
    (value : ackno.value = (iss + 1 + stream.length) % 4294967296) : got = stream := by
  obtain ⟨count, counts, within⟩ := counted
  have length := begins.length_le
  have most := within.resolve_right fun ended => goes ended.1
  apply begins.eq_of_length
  omega

/-- What the left host takes as acknowledged has arrived. -/
theorem Link.acked_arrived (booted : start.Booted) (reaches : start.Reaches link)
    (peer : ends.ripaddr = start.right.hostaddr) (talks : Talks ends start.left.hostaddr link)
    {event : NetEvent} {i : Fin uipConns} {uipLen : UInt16} {buf : UipBuf}
    (relayed : Relayed link.rightSeen link.right.hostaddr link.left event)
    (confirms : Confirms ends link.left event i uipLen buf) :
    received (ends.mirror start.left.hostaddr) link.rightSeen =
      (transmitted ends link.leftSeen).stream := by
  obtain ⟨iss, once⟩ := Once.of_single talks.single
  obtain ⟨left, right⟩ := Link.Reaches.runs booted reaches
  have sends := left.sends booted.left once talks.faithful
  have closes := left.closes booted.left talks.single
  have counts := right.counts booted peer sends talks.accepts talks.goesOn
  have begins := Link.delivers booted reaches peer talks.single talks.faithful talks.small
  obtain ⟨rfl, accepted, active, endpoint, named, state, rst, acked⟩ := confirms
  -- The left host has not sent the end of its stream.
  have running : ¬ Ended ends link.leftSeen := by
    intro ended
    obtain ⟨hdr, data, sent, proto, sender, fin⟩ := ended
    have shut := closes.sent hdr data sent proto sender fin
    have conn : (link.left.conns i).tcpstateflags.state.late = _ := closes.conn i active endpoint
    rw [shut, state] at conn
    cases conn
  -- The segment comes from the right host, which counts what has arrived.
  have host : link.left.hostaddr = start.left.hostaddr := left.hostaddr
  have far : link.right.hostaddr = start.right.hostaddr := right.hostaddr
  have mine : link.left.hostaddr = (ends.mirror start.left.hostaddr).ripaddr := host
  have some : link.left.hostaddr ≠ .zero := by
    rw [host]
    exact booted.leftHost
  have back : buf.hdr.endpoint =
      (ends.mirror start.left.hostaddr).mirror link.right.hostaddr := by
    rw [named, far, ← peer]
    rfl
  obtain ⟨hdr, data, ttl, ipchksum, sent, proto, sender, same, -⟩ :=
    Relayed.source relayed mine some accepted back
  rw [same] at rst acked
  have counted := counts.sent hdr data sent proto sender rst
  obtain ⟨sndNxt, len⟩ := (sends.conn i active endpoint).established state
  apply eq_of_counted talks.small begins running counted
  rcases (link.left.conns i).acknowledge_cases
    { hdr with ttl := ttl, ipchksum := ipchksum } with none | ⟨-, ackno, -⟩
  · rw [none] at acked
    cases acked
  · have value : hdr.ackno.value = _ := congrArg Seqno.value ackno
    have length : (transmitted ends link.leftSeen).stream.length =
        (transmitted ends link.leftSeen).acked.length +
          (transmitted ends link.leftSeen).outstanding.length := List.length_append
    rw [value, value_uipAdd32, sndNxt, len, length]
    change ((iss + 1 + (transmitted ends link.leftSeen).acked.length) % 4294967296 +
      (transmitted ends link.leftSeen).outstanding.length) % 4294967296 = _
    omega

/-- Whatever the network loses, delays, repeats and mixes up: what an application has received is
all that is acknowledged to the application at the other end, and no more than that has sent. -/
theorem Link.agrees (booted : start.Booted) (reaches : start.Reaches link)
    (peer : ends.ripaddr = start.right.hostaddr) (talks : Talks ends start.left.hostaddr link) :
    (transmitted ends link.leftSeen).acked <+:
        received (ends.mirror start.left.hostaddr) link.rightSeen ∧
      received (ends.mirror start.left.hostaddr) link.rightSeen <+:
        (transmitted ends link.leftSeen).stream := by
  refine ⟨?_, Link.delivers booted reaches peer talks.single talks.faithful talks.small⟩
  induction reaches with
  | refl =>
    rw [booted.leftSeen]
    exact List.nil_prefix
  | @tail link next earlier step ih =>
    obtain ⟨left, right⟩ := Link.Reaches.runs booted earlier
    cases step with
    | @left app event net shown relayed unpolled stepped =>
      -- The left host gets an acknowledgement, or goes on with the one that it has.
      have before := talks.beforeLeft
      have happens := step_happens left.sound.fits stepped
      dsimp only
      have acked : (transmitted ends (link.leftSeen ++ shown)).acked =
          (transmitted ends link.leftSeen).acked ∨
          (transmitted ends (link.leftSeen ++ shown)).acked =
              (transmitted ends link.leftSeen).stream ∧
            ∃ i uipLen buf, Confirms ends link.left event i uipLen buf := happens.acked
      rcases acked with kept | ⟨moved, i, uipLen, buf, confirms⟩
      · rw [kept]
        exact ih before
      · rw [moved, Link.acked_arrived booted earlier peer before relayed confirms]
    | @right app event net shown relayed unpolled stepped =>
      -- The right host takes what it is sent; that only adds to what has arrived.
      have before := talks.beforeRight
      have happens := step_happens right.sound.fits stepped
      obtain ⟨iss, once⟩ := Once.of_single before.single
      have sends := left.sends booted.left once before.faithful
      have counts := right.counts booted peer sends before.accepts before.goesOn
      have begins := Link.delivers booted (earlier.tail (.right relayed unpolled stepped)) peer
        talks.single talks.faithful talks.small
      have far : link.right.hostaddr = start.right.hostaddr := right.hostaddr
      have mine : link.right.hostaddr = ends.ripaddr := far.trans peer.symm
      have some : link.right.hostaddr ≠ .zero := by
        rw [far]
        exact booted.rightHost
      have ending : ∀ uipLen buf, event = .input uipLen buf → Accepted link.right uipLen buf →
          buf.hdr.endpoint = ends.mirror start.left.hostaddr → buf.hdr.flags &&& tcpFin ≠ 0 →
          Ended ends link.leftSeen := by
        intro uipLen buf input accepted named fin
        rw [input, left.hostaddr] at relayed
        obtain ⟨hdr, data, ttl, ipchksum, sent, proto, sender, same, -⟩ :=
          Relayed.source relayed mine some accepted named
        rw [same] at fin
        exact ⟨hdr, data, sent, proto, sender, fin⟩
      -- What has arrived is longer than what is acknowledged, and begins the same stream.
      have longer := happens.longer counts ending fun call actions member =>
        talks.goesOn call actions (List.mem_append_right _ member)
      apply List.prefix_of_prefix_length_le (List.prefix_append _ _) begins
      exact ((ih before).length_le).trans longer

end Agreement

/-- The question has arrived when it is acknowledged. -/
theorem Link.agrees_exchange : ∃ link, Link.cleared.play Link.exchange = some link ∧
    (transmitted ⟨⟨1, 3⟩, 80, 260⟩ link.leftSeen).acked = [104, 105] ∧
    (transmitted ⟨⟨1, 3⟩, 80, 260⟩ link.leftSeen).acked <+:
      received ⟨⟨1, 2⟩, 260, 80⟩ link.rightSeen ∧
    received ⟨⟨1, 2⟩, 260, 80⟩ link.rightSeen <+:
      (transmitted ⟨⟨1, 3⟩, 80, 260⟩ link.leftSeen).stream := by
  -- The exchange is played through, and its histories are checked.
  have ran : (Link.cleared.play Link.exchange).map (fun link =>
      ((transmitted ⟨⟨1, 3⟩, 80, 260⟩ link.leftSeen).acked,
        faithfulFrom ⟨⟨1, 3⟩, 80, 260⟩ ⟨[], []⟩ link.leftSeen,
        (openings ⟨⟨1, 3⟩, 80, 260⟩ link.leftSeen).length,
        (transmitted ⟨⟨1, 3⟩, 80, 260⟩ link.leftSeen).stream.length)) =
        some ([104, 105], true, 1, 2) := by decide +kernel
  have hears : (Link.cleared.play Link.exchange).map (fun link =>
      (link.rightSeen.all Observed.goesOn,
        (openings ⟨⟨1, 2⟩, 260, 80⟩ link.rightSeen).map fun conn => conn.tcpstateflags.state)) =
        some (true, [.synRcvd]) := by decide +kernel
  obtain ⟨link, played, sent⟩ := Option.map_eq_some_iff.mp ran
  rw [played] at hears
  obtain ⟨acked, rest⟩ := Prod.mk.inj sent
  obtain ⟨faithful, rest⟩ := Prod.mk.inj rest
  obtain ⟨single, length⟩ := Prod.mk.inj rest
  obtain ⟨goesOn, opened⟩ := Prod.mk.inj (Option.some.inj hears)
  have talks : Link.Talks ⟨⟨1, 3⟩, 80, 260⟩ ⟨1, 2⟩ link := by
    refine ⟨single.le, faithful_of_faithfulFrom faithful, ?_, accepts_of_map opened,
      goesOn_of_all goesOn⟩
    rw [length]
    decide
  have reaches : Link.cleared.Reaches link := Link.reaches_of_play .refl played
  exact ⟨link, played, acked, Link.agrees Link.cleared_booted reaches rfl talks⟩

end Egos.Uip
