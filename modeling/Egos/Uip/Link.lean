import Egos.Uip.Sending
import Mathlib.Logic.Relation

/-! Two hosts: what an application gets on a connection is the start of what its peer has sent. -/

namespace Egos.Uip

/-- Two hosts, with what has been seen of each. -/
structure Link where
  left : Net
  right : Net
  leftSeen : List Observed
  rightSeen : List Observed

/-- A packet of the peer that passes the checks of a host was sent before. It may have been
delayed, repeated, and overtaken by others; others are lost, or damaged so that a check notices. -/
def Relayed (seen : List Observed) (peer : IpAddr) (net : Net) (event : NetEvent) : Prop :=
  ∀ uipLen buf, event = .input uipLen buf → Accepted net uipLen buf → buf.hdr.srcipaddr = peer →
    ∃ hdr data ttl ipchksum, Observed.sent hdr data ∈ seen ∧
      buf.hdr = { hdr with ttl := ttl, ipchksum := ipchksum } ∧ Holds buf.data data

/-- One of the hosts takes a step. -/
inductive Link.Step (link : Link) : Link → Prop
  | left {app : AppCall → List AppAction} {event : NetEvent} {next : Net} {shown : List Observed}
      (relayed : Relayed link.rightSeen link.right.hostaddr link.left event)
      (unpolled : ∀ j, event ≠ .poll j) (stepped : link.left.step app event = some (next, shown)) :
      Step link { link with left := next, leftSeen := link.leftSeen ++ shown }
  | right {app : AppCall → List AppAction} {event : NetEvent} {next : Net} {shown : List Observed}
      (relayed : Relayed link.leftSeen link.left.hostaddr link.right event)
      (unpolled : ∀ j, event ≠ .poll j)
      (stepped : link.right.step app event = some (next, shown)) :
      Step link { link with right := next, rightSeen := link.rightSeen ++ shown }

/-- The same hosts, seen from the other side. -/
def Link.swap (link : Link) : Link := ⟨link.right, link.left, link.rightSeen, link.leftSeen⟩

/-- Two hosts that have just been started, with addresses of their own. -/
structure Link.Booted (link : Link) : Prop where
  left : link.left.Booted
  right : link.right.Booted
  leftSeen : link.leftSeen = []
  rightSeen : link.rightSeen = []
  leftHost : link.left.hostaddr ≠ .zero
  rightHost : link.right.hostaddr ≠ .zero

/-- What two hosts can get to. -/
abbrev Link.Reaches : Link → Link → Prop := Relation.ReflTransGen Link.Step

/-- Both ends of a connection, as the peer of a host sees them. -/
def Endpoint.mirror (ends : Endpoint) (hostaddr : IpAddr) : Endpoint :=
  ⟨hostaddr, ends.lport, ends.rport⟩

section Sides

variable {start link next : Link} {seen more : List Observed} {peer : IpAddr} {net : Net}
variable {event : NetEvent}

/-- Both sides are alike. -/
theorem Link.Step.swap (step : link.Step next) : link.swap.Step next.swap := by
  cases step with
  | left relayed unpolled stepped => exact Step.right relayed unpolled stepped
  | right relayed unpolled stepped => exact Step.left relayed unpolled stepped

/-- Both sides of a run are alike. -/
theorem Link.Reaches.swap (reaches : start.Reaches link) : start.swap.Reaches link.swap := by
  induction reaches with
  | refl => exact Relation.ReflTransGen.refl
  | tail _ step ih => exact ih.tail step.swap

/-- Both sides start alike. -/
theorem Link.Booted.swap (booted : start.Booted) : start.swap.Booted :=
  ⟨booted.right, booted.left, booted.rightSeen, booted.leftSeen, booted.rightHost,
    booted.leftHost⟩

/-- What was sent before was sent. -/
theorem Relayed.mono (relayed : Relayed seen peer net event) :
    Relayed (seen ++ more) peer net event := by
  intro uipLen buf input accepted source
  obtain ⟨hdr, data, ttl, ipchksum, sent, same, holds⟩ :=
    relayed uipLen buf input accepted source
  exact ⟨hdr, data, ttl, ipchksum, List.mem_append_left _ sent, same, holds⟩

/-- The left host of a link takes steps of its own. -/
structure Link.LeftRun (start link : Link) : Prop where
  sound : link.left.Sound
  hostaddr : link.left.hostaddr = start.left.hostaddr
  run : Run (fun net (label : (AppCall → List AppAction) × NetEvent) next shown =>
    (net.hostaddr = start.left.hostaddr ∧
      Relayed link.rightSeen start.right.hostaddr net label.2 ∧ ∀ j, label.2 ≠ .poll j) ∧
    net.step label.1 label.2 = some (next, shown)) start.left link.left link.leftSeen

/-- A step of the right host lets the left host go on as before. -/
theorem Link.LeftRun.wait (earlier : LeftRun start link) {right : Net} :
    LeftRun start { link with right := right, rightSeen := link.rightSeen ++ more } := by
  refine ⟨earlier.sound, earlier.hostaddr, ?_⟩
  apply earlier.run.mono
  intro net label next shown taken
  obtain ⟨⟨host, relayed, unpolled⟩, stepped⟩ := taken
  exact ⟨⟨host, relayed.mono, unpolled⟩, stepped⟩

/-- What both hosts do is a run of each. -/
theorem Link.Reaches.runs (booted : start.Booted) (reaches : start.Reaches link) :
    LeftRun start link ∧ LeftRun start.swap link.swap := by
  -- A step of one host extends its own run and lets the other one wait.
  induction reaches with
  | refl =>
    constructor
    · refine ⟨booted.left.sound, rfl, ?_⟩
      rw [booted.leftSeen]
      exact Run.start
    · refine ⟨booted.right.sound, rfl, ?_⟩
      change Run _ _ _ start.rightSeen
      rw [booted.rightSeen]
      exact Run.start
  | @tail link next earlier step ih =>
    obtain ⟨left, right⟩ := ih
    cases step with
    | @left app event net shown relayed unpolled stepped =>
      have happens := step_happens left.sound.fits stepped
      have peer : link.right.hostaddr = start.right.hostaddr := right.hostaddr
      rw [peer] at relayed
      refine ⟨⟨happens.sound left.sound, happens.hostaddr.trans left.hostaddr, ?_⟩, right.wait⟩
      exact @Run.step _ _ _ _ _ _ _ (app, event) _ _ left.run
        ⟨⟨left.hostaddr, relayed, unpolled⟩, stepped⟩
    | @right app event net shown relayed unpolled stepped =>
      have happens := step_happens right.sound.fits stepped
      have peer : link.left.hostaddr = start.left.hostaddr := left.hostaddr
      rw [peer] at relayed
      refine ⟨left.wait, happens.sound right.sound, happens.hostaddr.trans right.hostaddr, ?_⟩
      exact @Run.step _ _ _ _ _ _ _ (app, event) _ _ right.run
        ⟨⟨right.hostaddr, relayed, unpolled⟩, stepped⟩

end Sides

section Streams

variable {start link : Link} {ends : Endpoint} {iss : Nat} {net : Net} {event : NetEvent}
variable {history : List Observed}

/-- Whatever a host has sent is sealed. -/
theorem Link.LeftRun.sealed (left : LeftRun start link) (booted : start.left.Booted) :
    ∀ hdr data, Observed.sent hdr data ∈ link.leftSeen → hdr.proto = uipProtoTcp →
      Sealed hdr data := by
  intro hdr data member proto
  have run : start.left.Reaches link.left link.leftSeen :=
    left.run.mono fun _ _ _ _ taken => taken.2
  exact (Net.Reaches.sealed booted run hdr data member proto).2

/-- A packet that is taken for one of the peer was sent by it on the connection that it names. -/
theorem Relayed.source {peer : IpAddr} {uipLen : UInt16} {buf : UipBuf}
    (relayed : Relayed history peer net (.input uipLen buf)) (mine : net.hostaddr = ends.ripaddr)
    (host : net.hostaddr ≠ .zero) (accepted : Accepted net uipLen buf)
    (named : buf.hdr.endpoint = ends.mirror peer) :
    ∃ hdr data ttl ipchksum, Observed.sent hdr data ∈ history ∧ hdr.proto = uipProtoTcp ∧
      hdr.sender = ends ∧ buf.hdr = { hdr with ttl := ttl, ipchksum := ipchksum } ∧
      Holds buf.data data := by
  obtain ⟨source, srcport, destport⟩ := Endpoint.mk.inj named
  obtain ⟨hdr, data, ttl, ipchksum, sent, same, holds⟩ := relayed uipLen buf rfl accepted source
  have destipaddr := accepted.hostaddr.resolve_left host
  have proto := accepted.proto
  rw [same] at srcport destport destipaddr proto
  refine ⟨hdr, data, ttl, ipchksum, sent, proto, ?_, same, holds⟩
  unfold TcpipHdr.sender
  rw [destipaddr.trans mine, destport, srcport]

/-- The left host sends the stream of its application. -/
theorem Link.LeftRun.sends (left : LeftRun start link) (booted : start.left.Booted)
    (once : Once ends iss link.leftSeen) (faithful : Faithful ends link.leftSeen) :
    (transmission iss).Holds ends link.leftSeen link.left := by
  apply transmission_holds booted _ once faithful
  apply left.run.mono
  intro net label next shown taken
  exact ⟨taken.1.2.2, taken.2⟩

/-- What is relayed to the peer of a host that sends a stream are segments of that stream. -/
theorem Link.LeftRun.hears {stream : List UInt8} (right : LeftRun start.swap link.swap)
    (booted : start.Booted) (peer : ends.ripaddr = start.right.hostaddr)
    (closed : ∀ hdr data, Observed.sent hdr data ∈ link.leftSeen → hdr.proto = uipProtoTcp →
      Sealed hdr data)
    (genuine : ∀ hdr data, Observed.sent hdr data ∈ link.leftSeen → hdr.proto = uipProtoTcp →
      hdr.sender = ends → Genuine iss stream hdr data) :
    start.right.ReachesHearing (ends.mirror start.left.hostaddr) iss stream link.right
      link.rightSeen := by
  -- What is accepted from the peer has been sent by it, as a segment of its stream.
  apply right.run.mono
  intro net label next shown taken
  obtain ⟨⟨host, relayed, -⟩, stepped⟩ := taken
  have own : net.hostaddr = start.right.hostaddr := host
  refine ⟨?_, stepped⟩
  intro uipLen buf input accepted named
  rw [input] at relayed
  have some : net.hostaddr ≠ .zero := by
    rw [own]
    exact booted.rightHost
  obtain ⟨hdr, data, ttl, ipchksum, sent, proto, sender, same, holds⟩ :=
    Relayed.source relayed (own.trans peer.symm) some accepted named
  obtain ⟨urg, size, syn, plain⟩ := genuine hdr data sent proto sender
  rw [same]
  exact ⟨data, ⟨(closed hdr data sent proto).len, holds⟩, urg, size, syn, plain⟩

/-- Whatever the network loses, delays, repeats and mixes up: what an application gets is the
start of what the application at the other end has sent, without gaps and in its order. -/
theorem Link.delivers (booted : start.Booted) (reaches : start.Reaches link)
    (peer : ends.ripaddr = start.right.hostaddr)
    (single : (openings ends link.leftSeen).length ≤ 1) (faithful : Faithful ends link.leftSeen)
    (small : (transmitted ends link.leftSeen).stream.length + 1 < 4294967296) :
    received (ends.mirror start.left.hostaddr) link.rightSeen <+:
      (transmitted ends link.leftSeen).stream := by
  obtain ⟨iss, once⟩ := Once.of_single single
  obtain ⟨left, right⟩ := Link.Reaches.runs booted reaches
  have closed := left.sealed booted.left
  have genuine := (left.sends booted.left once faithful).sent
  exact (delivery_holds booted.right small (right.hears booted peer closed genuine)).good

/-- An application opens a connection once at most, and sends again what is outstanding; what it
sends does not use up the sequence numbers. -/
structure OneStream (ends : Endpoint) (history : List Observed) : Prop where
  single : (openings ends history).length ≤ 1
  faithful : Faithful ends history
  small : (transmitted ends history).stream.length + 1 < 4294967296

/-- Whatever the network loses, delays, repeats and mixes up, in both directions: what each of two
applications gets is the start of what the other one has sent. -/
theorem Link.delivers_both (booted : start.Booted) (reaches : start.Reaches link)
    (peer : ends.ripaddr = start.right.hostaddr) (left : OneStream ends link.leftSeen)
    (right : OneStream (ends.mirror start.left.hostaddr) link.rightSeen) :
    received (ends.mirror start.left.hostaddr) link.rightSeen <+:
        (transmitted ends link.leftSeen).stream ∧
      received ends link.leftSeen <+:
        (transmitted (ends.mirror start.left.hostaddr) link.rightSeen).stream := by
  constructor
  · exact Link.delivers booted reaches peer left.single left.faithful left.small
  · -- The other direction is the same one, seen from the right host.
    have back : (ends.mirror start.left.hostaddr).mirror start.swap.left.hostaddr = ends := by
      change Endpoint.mk start.right.hostaddr ends.rport ends.lport = ends
      rw [← peer]
    have got := Link.delivers booted.swap (Link.Reaches.swap reaches) rfl right.single
      right.faithful right.small
    rw [back] at got
    exact got

end Streams

section Play

/-- The packet that was sent last, as it arrives. -/
def lastPacket (seen : List Observed) : Option NetEvent :=
  match seen.getLast? with
  | some (.sent hdr data) => some (.input hdr.len ⟨hdr, fun k => data[k]?.getD 0⟩)
  | some (.called _ _) | some (.opened _) | none => none

/-- What a host does on its own: neither packets nor requests for new data are among it. -/
def NetEvent.isOwn : NetEvent → Bool
  | .input _ _ | .poll _ => false
  | .periodic _ | .connect _ _ | .listen _ | .unlisten _ => true

/-- The left host does something on its own, or takes the packet that was sent last. -/
def Link.chosen (link : Link) : Option NetEvent → Option NetEvent
  | some event => if event.isOwn then some event else none
  | none => lastPacket link.rightSeen

/-- A turn of the left host. -/
def Link.turn (link : Link) (app : AppCall → List AppAction) (event : Option NetEvent) :
    Option Link := do
  let event ← link.chosen event
  let (next, shown) ← link.left.step app event
  return { link with left := next, leftSeen := link.leftSeen ++ shown }

/-- Both hosts take turns. -/
def Link.play (link : Link) :
    List (Bool × (AppCall → List AppAction) × Option NetEvent) → Option Link
  | [] => some link
  | (onLeft, app, event) :: rest =>
    match if onLeft then link.turn app event else (link.swap.turn app event).map Link.swap with
    | none => none
    | some next => next.play rest

/-- A turn is a step. -/
theorem Link.step_of_turn {link next : Link} {app : AppCall → List AppAction}
    {event : Option NetEvent} (taken : link.turn app event = some next) : link.Step next := by
  obtain ⟨chosen, choice, rest⟩ := Option.bind_eq_some_iff.mp taken
  obtain ⟨⟨after, shown⟩, stepped, same⟩ := Option.bind_eq_some_iff.mp rest
  obtain rfl := Option.some.inj same
  cases event with
  | some event =>
    change (if event.isOwn then some event else none) = some chosen at choice
    split at choice
    · rename_i own
      obtain rfl := Option.some.inj choice
      -- What a host does on its own is neither a packet nor a request for new data.
      apply Step.left _ _ stepped
      · intro uipLen buf input
        rw [input] at own
        cases own
      · intro j polled
        rw [polled] at own
        cases own
    · cases choice
  | none =>
    change lastPacket link.rightSeen = some chosen at choice
    unfold lastPacket at choice
    split at choice
    · rename_i hdr data last
      obtain rfl := Option.some.inj choice
      apply Step.left _ _ stepped
      -- The packet is the last one that the other host has sent.
      · intro uipLen buf input _ _
        obtain ⟨rfl, rfl⟩ := NetEvent.input.inj input
        refine ⟨hdr, data, hdr.ttl, hdr.ipchksum, List.mem_of_getLast? last, rfl, ?_⟩
        intro k inside
        change data[k]?.getD 0 = _
        rw [List.getElem?_eq_getElem inside]
        rfl
      · intro j polled
        cases polled
    · cases choice
    · cases choice
    · cases choice

/-- What is played is a run. -/
theorem Link.reaches_of_play {start link last : Link}
    {turns : List (Bool × (AppCall → List AppAction) × Option NetEvent)}
    (earlier : start.Reaches link) (played : link.play turns = some last) :
    start.Reaches last := by
  -- Turn by turn; one of the right host is one of the left host of the link turned around.
  induction turns generalizing link with
  | nil =>
    obtain rfl := Option.some.inj played
    exact earlier
  | cons turn turns ih =>
    obtain ⟨onLeft, app, event⟩ := turn
    unfold Link.play at played
    split at played
    · cases played
    · rename_i next taken
      apply ih (earlier.tail _) played
      cases onLeft with
      | true => exact Link.step_of_turn taken
      | false =>
        obtain ⟨swapped, turned, same⟩ := Option.map_eq_some_iff.mp taken
        obtain rfl := same
        exact (Link.step_of_turn turned).swap

/-- Two hosts that have just been started. -/
def Link.cleared : Link := ⟨(clearedHost ⟨1, 2⟩).uipInit, (clearedHost ⟨1, 3⟩).uipInit, [], []⟩

/-- Two hosts whose memory is cleared start. -/
theorem Link.cleared_booted : Link.cleared.Booted :=
  ⟨clearedHost_booted _, clearedHost_booted _, rfl, rfl, by decide, by decide⟩

/-- A question is asked and answered, and both are acknowledged. -/
def Link.exchange : List (Bool × (AppCall → List AppAction) × Option NetEvent) :=
  let silent : AppCall → List AppAction := fun _ => []
  [(false, silent, some (.listen 80)), (true, silent, some (.connect ⟨1, 3⟩ 80)),
    (true, silent, some (.periodic firstConn)), (true, silent, some (.periodic firstConn)),
    (false, silent, none), (true, fun _ => [.send [104, 105]], none),
    (false, fun _ => [.send [33]], none), (true, silent, none), (false, silent, none)]

end Play

/-- Both applications get what the other one has sent. -/
theorem Link.delivers_both_exchange : ∃ link, Link.cleared.play Link.exchange = some link ∧
    received ⟨⟨1, 2⟩, 260, 80⟩ link.rightSeen = [104, 105] ∧
    received ⟨⟨1, 3⟩, 80, 260⟩ link.leftSeen = [33] ∧
    received ⟨⟨1, 2⟩, 260, 80⟩ link.rightSeen <+:
      (transmitted ⟨⟨1, 3⟩, 80, 260⟩ link.leftSeen).stream ∧
    received ⟨⟨1, 3⟩, 80, 260⟩ link.leftSeen <+:
      (transmitted ⟨⟨1, 2⟩, 260, 80⟩ link.rightSeen).stream := by
  -- The exchange is played through, and its histories are checked.
  have ran : (Link.cleared.play Link.exchange).map (fun link =>
      (received ⟨⟨1, 2⟩, 260, 80⟩ link.rightSeen, received ⟨⟨1, 3⟩, 80, 260⟩ link.leftSeen)) =
        some ([104, 105], [33]) := by decide +kernel
  have streams : (Link.cleared.play Link.exchange).map (fun link =>
      (faithfulFrom ⟨⟨1, 3⟩, 80, 260⟩ ⟨[], []⟩ link.leftSeen,
        (openings ⟨⟨1, 3⟩, 80, 260⟩ link.leftSeen).length,
        (transmitted ⟨⟨1, 3⟩, 80, 260⟩ link.leftSeen).stream.length)) =
        some (true, 1, 2) := by decide +kernel
  have answers : (Link.cleared.play Link.exchange).map (fun link =>
      (faithfulFrom ⟨⟨1, 2⟩, 260, 80⟩ ⟨[], []⟩ link.rightSeen,
        (openings ⟨⟨1, 2⟩, 260, 80⟩ link.rightSeen).length,
        (transmitted ⟨⟨1, 2⟩, 260, 80⟩ link.rightSeen).stream.length)) =
        some (true, 1, 1) := by decide +kernel
  obtain ⟨link, played, got⟩ := Option.map_eq_some_iff.mp ran
  rw [played] at streams answers
  obtain ⟨faithful, rest⟩ := Prod.mk.inj (Option.some.inj streams)
  obtain ⟨single, length⟩ := Prod.mk.inj rest
  have left : OneStream ⟨⟨1, 3⟩, 80, 260⟩ link.leftSeen := by
    refine ⟨single.le, faithful_of_faithfulFrom faithful, ?_⟩
    rw [length]
    decide
  obtain ⟨faithful, rest⟩ := Prod.mk.inj (Option.some.inj answers)
  obtain ⟨single, length⟩ := Prod.mk.inj rest
  have right : OneStream ⟨⟨1, 2⟩, 260, 80⟩ link.rightSeen := by
    refine ⟨single.le, faithful_of_faithfulFrom faithful, ?_⟩
    rw [length]
    decide
  obtain ⟨question, answer⟩ := Prod.mk.inj got
  have reaches : Link.cleared.Reaches link := Link.reaches_of_play .refl played
  exact ⟨link, played, question, answer,
    Link.delivers_both Link.cleared_booted reaches rfl left right⟩

end Egos.Uip
