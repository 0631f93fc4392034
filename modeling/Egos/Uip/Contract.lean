import Egos.Uip.Steps

/-! What every step keeps of the connections with one peer holds in every run of a host. -/

namespace Egos.Uip

/-- Both ends that a segment names, as its sender sees them. -/
def TcpipHdr.sender (hdr : TcpipHdr) : Endpoint := ⟨hdr.destipaddr, hdr.destport, hdr.srcport⟩

/-- Notes an observation, if it is a call of the connection with a peer. -/
def record {Memory : Type} (note : Memory → AppCall → List AppAction → Memory) (ends : Endpoint)
    (memory : Memory) : Observed → Memory
  | .called call actions =>
    if call.conn.endpoint = ends then note memory call actions else memory
  | .opened _ | .sent _ _ => memory

/-- What is to be shown of the connections with a peer: what is noted of their calls, what is true
of that, of the connections and of what they send, and on which conditions. -/
structure Contract (Memory : Type) where
  start : Memory
  note : Memory → AppCall → List AppAction → Memory
  good : Memory → Prop
  conn : Memory → Conn → Prop
  packet : Memory → TcpipHdr → List UInt8 → Prop
  hears : TcpipHdr → (Nat → UInt8) → Prop
  polled : Prop
  answers : Memory → AppCall → List AppAction → Prop
  opens : Memory → Conn → Prop

namespace Contract

variable {Memory : Type} (contract : Contract Memory)

/-- What is noted in a history. -/
def memory (ends : Endpoint) (history : List Observed) : Memory :=
  history.foldl (record contract.note ends) contract.start

/-- What is noted of some calls of a connection. -/
def told (app : AppCall → List AppAction) (memory : Memory) (calls : List AppCall) : Memory :=
  calls.foldl (fun memory call => contract.note memory call (app call)) memory

/-- The packets of a connection are as they have to be. -/
def Speaks (memory : Memory) (conn : Conn) (goto : Goto) (mem : Nat → UInt8) : Prop :=
  ∀ hostaddr hdr, Emits hostaddr conn goto.flags goto.tcpoffset hdr (goto.behind mem) →
    contract.packet memory hdr (goto.behind mem)

/-- A step keeps to the contract. -/
structure Next (before after : Memory) (r : Process × Goto) : Prop where
  good : contract.good after
  conn : contract.conn after r.1.conn
  speaks : r.2 ≠ .reset → contract.Speaks after r.1.conn r.2 r.1.data
  grows : ∀ hdr data, contract.packet before hdr data → contract.packet after hdr data

/-- Everything that can happen to a connection keeps to the contract. -/
structure Sound : Prop where
  start : contract.good contract.start
  found : ∀ {app : AppCall → List AppAction} {hdr : TcpipHdr} {p : Process} {r : Process × Goto}
    {memory : Memory}, contract.hears hdr p.data → p.uipLen = hdr.len → p.calls = [] →
    contract.good memory → contract.conn memory p.conn → Process.Found app hdr p r → r.1.conn.Fits →
    (∀ call ∈ r.1.calls, contract.answers memory call (app call)) →
    contract.Next memory (contract.told app memory r.1.calls) r
  timed : ∀ {app : AppCall → List AppAction} {p : Process} {r : Process × Goto} {memory : Memory},
    (p.slen = 0 ∨ contract.polled) → p.calls = [] → contract.good memory →
    contract.conn memory p.conn → p.Timed app r → r.1.conn.Fits →
    (∀ call ∈ r.1.calls, contract.answers memory call (app call)) →
    contract.Next memory (contract.told app memory r.1.calls) r
  accepted : ∀ {hdr : TcpipHdr} {mem : Nat → UInt8} {conn : Conn} {memory : Memory},
    contract.hears hdr mem → hdr.flags &&& tcpCtl = tcpSyn → contract.good memory →
    conn.tcpstateflags = ⟨.synRcvd, false⟩ → conn.rcvNxt = uipAdd32 hdr.seqno 1 →
    conn.len = 1 → contract.opens memory conn →
    contract.conn memory conn ∧ contract.Speaks memory conn .tcpSendSynack mem
  connected : ∀ {conn : Conn} {memory : Memory}, contract.good memory →
    conn.tcpstateflags = ⟨.synSent, false⟩ → conn.len = 1 → contract.opens memory conn →
    contract.conn memory conn
  refused : ∀ {hostaddr : IpAddr} {hdr : TcpipHdr} {memory : Memory}, Resets hostaddr hdr →
    contract.packet memory hdr []

/-- What is given to a host, as far as it concerns the connections with a peer. -/
def Permits (ends : Endpoint) (net : Net) (event : NetEvent) : Prop :=
  (∀ uipLen buf, event = .input uipLen buf → Accepted net uipLen buf → buf.hdr.endpoint = ends →
    contract.hears buf.hdr buf.data) ∧ (contract.polled ∨ ∀ j, event ≠ .poll j)

/-- What the applications and the openings of connections have to do with it. -/
structure Obeyed (ends : Endpoint) (history : List Observed) : Prop where
  answers : ∀ before call actions after, history = before ++ .called call actions :: after →
    call.conn.endpoint = ends → contract.answers (contract.memory ends before) call actions
  opens : ∀ before conn after, history = before ++ .opened conn :: after →
    conn.endpoint = ends → contract.opens (contract.memory ends before) conn

/-- The connections with a peer and all packets to it are as they have to be. -/
structure Holds (ends : Endpoint) (history : List Observed) (net : Net) : Prop where
  good : contract.good (contract.memory ends history)
  conn : ∀ i, (net.conns i).Active → (net.conns i).endpoint = ends →
    contract.conn (contract.memory ends history) (net.conns i)
  sent : ∀ hdr data, Observed.sent hdr data ∈ history → hdr.proto = uipProtoTcp →
    hdr.sender = ends → contract.packet (contract.memory ends history) hdr data

end Contract

namespace Process

variable {app : AppCall → List AppAction} {hdr : TcpipHdr} {p q : Process} {r : Process × Goto}

/-- The calls of a packet that the application answers. -/
theorem calls_appsend (none : q.calls = []) (skip : Nat) :
    (q.appcall app skip).appsend.1.calls = [q.shown skip] := by
  rw [appsend_keeps.2.2.2, appcall_calls, none, List.nil_append]

/-- There is one call at most, and that is one of the connection. -/
def Single (p : Process) (r : Process × Goto) : Prop :=
  r.1.calls = [] ∨ ∃ call, r.1.calls = [call] ∧ call.conn.endpoint = p.conn.endpoint

/-- The application is called once at most when the connection is over. -/
theorem Quiet.single (quiet : p.Quiet r) (calls : p.calls = []) : p.Single r := by
  rcases quiet.calls with ⟨none, -⟩ | ⟨call, one, farewell⟩
  · exact Or.inl (none.trans calls)
  · rw [calls] at one
    exact Or.inr ⟨call, one, farewell.endpoint⟩

/-- A segment leads to one call at most. -/
theorem Found.single (found : Found app hdr p r) (calls : p.calls = []) : p.Single r := by
  cases found with
  | quiet quiet goto => exact quiet.single calls
  | refused quiet state reset => exact quiet.single calls
  | still same goto strange => exact Or.inl (same.calls.trans calls)
  | connects connects =>
    exact Or.inr ⟨_, calls_appsend (connects.calls.trans calls) 0, connects.endpoint⟩
  | answers answers =>
    exact Or.inr ⟨_, calls_appsend (answers.calls.trans calls) 0, answers.endpoint⟩
  | @serves q skip skips serves =>
    exact Or.inr ⟨_, calls_appsend (serves.calls.trans calls) skip, serves.endpoint⟩
  | @ends q p' ends endpoint state rcvNxt told =>
    rw [calls] at told
    exact Or.inr ⟨_, told, ends.endpoint⟩

/-- The timer leads to one call at most. -/
theorem Timed.single (timed : Timed app p r) (calls : p.calls = []) : p.Single r := by
  cases timed with
  | quiet active quiet goto => exact quiet.single calls
  | idle same goto => exact Or.inl (same.calls.trans calls)
  | still active same goto => exact Or.inl (same.calls.trans calls)
  | @rexmits q same state outstanding flags slen =>
    refine Or.inr ⟨q.shown 0, ?_, same.endpoint⟩
    rw [apprexmit_fst, appcall_calls, same.calls, calls, List.nil_append]
  | polls same state none flags slen =>
    exact Or.inr ⟨_, calls_appsend (same.calls.trans calls) 0, same.endpoint⟩

/-- The timer does nothing to a connection that is not in use. -/
theorem Timed.unused (timed : Timed app p r) (calls : p.calls = []) (unused : ¬ p.conn.Active) :
    r.1.calls = [] ∧ r.2 = .drop := by
  have opened (state : p.conn.tcpstateflags.state = .established) : p.conn.Active := by
    intro closed
    rw [closed] at state
    cases state
  cases timed with
  | quiet active quiet goto => exact absurd active unused
  | idle same goto => exact ⟨same.calls.trans calls, goto⟩
  | still active same goto => exact absurd active unused
  | rexmits same state outstanding flags slen => exact absurd (opened state) unused
  | polls same state none flags slen => exact absurd (opened state) unused

end Process

section Hosts

variable {app : AppCall → List AppAction} {ends : Endpoint} {start net after : Net}
variable {event : NetEvent} {history shown sent : List Observed}

/-- What holds of the connections with a peer still holds of them after one is stored. -/
theorem forall_of_update {P : Conn → Prop} {i : Fin uipConns} {conn : Conn}
    (conns : after.conns = Function.update net.conns i conn)
    (here : conn.Active → conn.endpoint = ends → P conn)
    (elsewhere : ∀ j, j ≠ i → (net.conns j).Active → (net.conns j).endpoint = ends →
      P (net.conns j)) :
    ∀ j, (after.conns j).Active → (after.conns j).endpoint = ends → P (after.conns j) := by
  intro j
  rw [conns]
  by_cases same : j = i
  · subst same
    rw [Function.update_self]
    exact here
  · rw [Function.update_of_ne same]
    exact elsewhere j same

end Hosts

section Records

variable {Memory : Type} {note : Memory → AppCall → List AppAction → Memory} {memory : Memory}
variable {app : AppCall → List AppAction} {ends : Endpoint} {calls : List AppCall}

/-- Nothing is noted of a packet that is sent. -/
theorem foldl_record_sends {hostaddr : IpAddr} {conn : Conn} {goto : Goto} {mem : Nat → UInt8}
    {sent : List Observed} (sends : Sends hostaddr conn mem goto sent) :
    sent.foldl (record note ends) memory = memory := by
  cases sends with
  | drop | silent | reset resets | segment drop reset emits => rfl

/-- What is noted of the calls of a connection with the peer. -/
theorem foldl_record_told (own : ∀ call ∈ calls, call.conn.endpoint = ends) :
    (Net.told app calls).foldl (record note ends) memory =
      calls.foldl (fun memory call => note memory call (app call)) memory := by
  unfold Net.told
  rw [List.foldl_map]
  apply List.foldl_ext
  intro memory call member
  exact if_pos (own call member)

/-- Nothing is noted of the calls of other connections. -/
theorem foldl_record_foreign (foreign : ∀ call ∈ calls, call.conn.endpoint ≠ ends) :
    (Net.told app calls).foldl (record note ends) memory = memory := by
  apply foldl_of_fixed
  intro o member
  obtain ⟨call, called, rfl⟩ := List.mem_map.mp member
  exact if_neg (foreign call called)

/-- The calls of a connection are its own. -/
theorem Process.Single.own {p : Process} {r : Process × Goto} (single : p.Single r) :
    ∀ call ∈ r.1.calls, call.conn.endpoint = p.conn.endpoint := by
  intro call member
  rcases single with none | ⟨one, calls, endpoint⟩
  · rw [none] at member
    cases member
  · rw [calls, List.mem_singleton] at member
    rw [member]
    exact endpoint

end Records

namespace Contract

variable {Memory : Type} {contract : Contract Memory} {app : AppCall → List AppAction}
variable {ends : Endpoint} {start net after : Net} {event : NetEvent} {memory : Memory}
variable {history shown sent : List Observed} {calls : List AppCall} {r : Process × Goto}
variable {hostaddr : IpAddr} {conn : Conn} {goto : Goto} {mem : Nat → UInt8}

/-- What is noted is found step by step. -/
theorem memory_append (ends : Endpoint) (history shown : List Observed) :
    contract.memory ends (history ++ shown) =
      shown.foldl (record contract.note ends) (contract.memory ends history) :=
  List.foldl_append

/-- What was obeyed in a history was obeyed before. -/
theorem Obeyed.before (obeyed : contract.Obeyed ends (history ++ shown)) :
    contract.Obeyed ends history := by
  constructor
  · intro before call actions after split
    apply obeyed.answers before call actions (after ++ shown)
    rw [split, List.append_assoc]
    rfl
  · intro before conn after split
    apply obeyed.opens before conn (after ++ shown)
    rw [split, List.append_assoc]
    rfl

/-- What a connection sends is as it has to be, if it is one with the peer. -/
theorem packet_of_sends (refused : ∀ {hdr}, Resets hostaddr hdr → contract.packet memory hdr [])
    (sends : Sends hostaddr conn mem goto sent)
    (speaks : conn.endpoint = ends → goto ≠ .reset → contract.Speaks memory conn goto mem) :
    ∀ hdr data, Observed.sent hdr data ∈ sent → hdr.sender = ends →
      contract.packet memory hdr data := by
  -- A segment of a connection names its two ends, so that it is the one with the peer.
  intro hdr data member sender
  cases sends with
  | drop => cases member
  | silent => cases member
  | reset resets =>
    obtain ⟨rfl, rfl⟩ := Observed.sent.inj (List.mem_singleton.mp member)
    exact refused resets
  | segment drop reset emits =>
    obtain ⟨rfl, rfl⟩ := Observed.sent.inj (List.mem_singleton.mp member)
    apply speaks _ reset _ _ emits
    rw [← sender]
    unfold TcpipHdr.sender Conn.endpoint
    rw [emits.destipaddr, emits.destport, emits.srcport]

/-- The applications of a host do what the contract demands when they are called. -/
theorem Obeyed.called (obeyed : contract.Obeyed ends (history ++ (Net.told app calls ++ sent)))
    (single : calls = [] ∨ ∃ call, calls = [call])
    (own : ∀ call ∈ calls, call.conn.endpoint = ends) :
    ∀ call ∈ calls, contract.answers (contract.memory ends history) call (app call) := by
  intro call member
  rcases single with rfl | ⟨one, rfl⟩
  · cases member
  · have same := List.mem_singleton.mp member
    subst same
    exact obeyed.answers history call (app call) sent rfl (own call member)

/-- A connection that is stored after a step that keeps to the contract. -/
theorem Holds.stored (rules : contract.Sound) (holds : contract.Holds ends history net)
    (sound : net.Sound) {i : Fin uipConns} (active : (net.conns i).Active)
    (conns : after.conns = Function.update net.conns i r.1.conn)
    (sends : Sends hostaddr r.1.conn r.1.data r.2 sent)
    (endpoint : r.1.conn.endpoint = (net.conns i).endpoint)
    (mine : ∀ call ∈ r.1.calls, call.conn.endpoint = (net.conns i).endpoint)
    (own : (net.conns i).endpoint = ends →
      contract.Next (contract.memory ends history)
        (contract.told app (contract.memory ends history) r.1.calls) r) :
    contract.Holds ends (history ++ (Net.told app r.1.calls ++ sent)) after := by
  by_cases same : (net.conns i).endpoint = ends
  · obtain ⟨good, next, speaks, grows⟩ := own same
    have noted : contract.memory ends (history ++ (Net.told app r.1.calls ++ sent)) =
        contract.told app (contract.memory ends history) r.1.calls := by
      rw [memory_append, List.foldl_append, foldl_record_sends sends]
      refine foldl_record_told ?_
      intro call member
      exact (mine call member).trans same
    constructor
    · rw [noted]
      exact good
    · rw [noted]
      apply forall_of_update (P := contract.conn _) conns fun _ _ => next
      intro j apart used ends
      exact absurd (sound.distinct j i used active (ends.trans same.symm)) apart
    · rw [noted]
      intro hdr data member proto sender
      rcases List.mem_append.mp member with old | fresh
      · exact grows hdr data (holds.sent hdr data old proto sender)
      · exact packet_of_sends rules.refused sends (fun _ => speaks) hdr data
          (mem_told_append fresh) sender
  · -- Another connection is none of our business.
    have noted : contract.memory ends (history ++ (Net.told app r.1.calls ++ sent)) =
        contract.memory ends history := by
      rw [memory_append, List.foldl_append, foldl_record_sends sends, foldl_record_foreign]
      intro call member
      rw [mine call member]
      exact same
    constructor
    · rw [noted]
      exact holds.good
    · rw [noted]
      apply forall_of_update (P := contract.conn _) conns
      · intro _ ends
        exact absurd (endpoint.symm.trans ends) same
      · intro j _
        exact holds.conn j
    · rw [noted]
      intro hdr data member proto sender
      rcases List.mem_append.mp member with old | fresh
      · exact holds.sent hdr data old proto sender
      · apply packet_of_sends rules.refused sends _ hdr data (mem_told_append fresh) sender
        intro ends
        exact absurd (endpoint.symm.trans ends) same

/-- Nothing happens to the connections with a peer. -/
theorem Holds.quiet (rules : contract.Sound) (holds : contract.Holds ends history net)
    (conns : ∀ i, (after.conns i).Active → after.conns i = net.conns i)
    (packets : ∀ o ∈ shown, Unbound hostaddr o) :
    contract.Holds ends (history ++ shown) after := by
  -- What is shown belongs to no connection, so that nothing is noted.
  have noted : contract.memory ends (history ++ shown) = contract.memory ends history := by
    rw [memory_append]
    apply foldl_of_fixed
    intro o member
    obtain ⟨hdr, data, rfl, -⟩ := packets o member
    rfl
  constructor
  · rw [noted]
    exact holds.good
  · rw [noted]
    intro i active ends
    have same := conns i active
    rw [same] at active ends ⊢
    exact holds.conn i active ends
  · rw [noted]
    intro hdr data member proto sender
    rcases List.mem_append.mp member with old | fresh
    · exact holds.sent hdr data old proto sender
    · obtain ⟨other, bytes, same, unrelated⟩ := packets _ fresh
      obtain ⟨rfl, rfl⟩ := Observed.sent.inj same
      obtain ⟨rfl, resets⟩ := unrelated.resolve_left fun foreign => foreign proto
      exact rules.refused resets

/-- A connection that is stored when it is opened. -/
theorem Holds.opened (rules : contract.Sound) (holds : contract.Holds ends history net)
    {i : Fin uipConns} (obeyed : contract.Obeyed ends (history ++ .opened conn :: sent))
    (conns : after.conns = Function.update net.conns i conn)
    (starts : conn.endpoint = ends → contract.opens (contract.memory ends history) conn →
      contract.conn (contract.memory ends history) conn)
    (packets : sent = [] ∨ Sends hostaddr conn mem .tcpSendSynack sent ∧
      (conn.endpoint = ends → contract.opens (contract.memory ends history) conn →
        contract.Speaks (contract.memory ends history) conn .tcpSendSynack mem)) :
    contract.Holds ends (history ++ .opened conn :: sent) after := by
  -- An opening is not noted, and the contract says how the connection starts.
  have opens := obeyed.opens history conn sent rfl
  have noted : contract.memory ends (history ++ .opened conn :: sent) =
      contract.memory ends history := by
    rw [memory_append, List.foldl_cons]
    rcases packets with rfl | ⟨sends, -⟩
    · rfl
    · exact foldl_record_sends sends
  constructor
  · rw [noted]
    exact holds.good
  · rw [noted]
    apply forall_of_update (P := contract.conn _) conns
    · intro _ same
      exact starts same (opens same)
    · intro j _
      exact holds.conn j
  · rw [noted]
    intro hdr data member proto sender
    rcases List.mem_append.mp member with old | fresh
    · exact holds.sent hdr data old proto sender
    · rcases List.mem_cons.mp fresh with other | packet
      · cases other
      · rcases packets with rfl | ⟨sends, speaks⟩
        · cases packet
        · apply packet_of_sends rules.refused sends _ hdr data packet sender
          intro same _
          exact speaks same (opens same)

/-- Every step of a host keeps to the contract. -/
theorem Holds.step (rules : contract.Sound) (holds : contract.Holds ends history net)
    (sound : net.Sound) (permits : contract.Permits ends net event)
    (happens : Happens app net event after shown)
    (obeyed : contract.Obeyed ends (history ++ shown)) :
    contract.Holds ends (history ++ shown) after := by
  cases happens with
  | ignored conns hostaddr unbound =>
    apply holds.quiet rules _ unbound
    intro i _
    rw [conns]
  | @found uipLen buf after sent i r accepted active mine found conns hostaddr sends =>
    have cases := Process.found_cases found
    have fits := (sound.fits i).found found
    have single := cases.single rfl
    have own := single.own
    apply holds.stored rules sound active conns sends cases.endpoint own
    intro same
    have hears := permits.1 uipLen buf rfl accepted (mine.trans same)
    apply rules.found hears rfl rfl holds.good (holds.conn i active same) cases fits
    apply obeyed.called (single.imp_right fun ⟨call, one, _⟩ => ⟨call, one⟩)
    intro call member
    exact (own call member).trans same
  | @timed event after sent i p r conn calls slen timed fits conns hostaddr sends =>
    by_cases active : (net.conns i).Active
    · have single := timed.single calls
      have own := single.own
      have endpoint := timed.endpoint
      rw [conn] at own endpoint
      apply holds.stored rules sound active conns sends endpoint own
      intro same
      have empty : p.slen = 0 ∨ contract.polled := by
        rcases permits.2 with polled | unpolled
        · exact Or.inr polled
        · apply Or.inl
          apply slen.resolve_right
          intro polled
          obtain ⟨j, polled⟩ := polled
          exact unpolled j polled
      have before := holds.conn i active same
      rw [← conn] at before
      apply rules.timed empty calls holds.good before timed fits
      apply obeyed.called (single.imp_right fun ⟨call, one, _⟩ => ⟨call, one⟩)
      intro call member
      exact (own call member).trans same
    · -- A connection that is not in use stays so.
      rw [← conn] at active
      obtain ⟨none, drop⟩ := timed.unused calls active
      have packets : Net.told app r.1.calls ++ sent = [] := by
        rw [none]
        rw [drop] at sends
        cases sends with
        | drop => rfl
        | segment other reset emits => exact absurd rfl other
      rw [packets]
      have foreign : ∀ o ∈ ([] : List Observed), Unbound net.hostaddr o := by
        intro o member
        cases member
      refine holds.quiet rules ?_ foreign
      intro j used
      rw [conns] at used ⊢
      by_cases same : j = i
      · rw [same, Function.update_self] at used
        exact absurd (timed.active used) active
      · rw [Function.update_of_ne same]
  | @accepts uipLen buf after sent i conn accepted syn fresh endpoint state sndNxt len rcvNxt fits
      conns hostaddr sends =>
    have starts (same : conn.endpoint = ends)
        (opens : contract.opens (contract.memory ends history) conn) :=
      rules.accepted (permits.1 uipLen buf rfl accepted (endpoint.symm.trans same)) syn holds.good
        state rcvNxt len opens
    exact holds.opened rules obeyed conns (fun same opens => (starts same opens).1)
      (Or.inr ⟨sends, fun same opens => (starts same opens).2⟩)
  | @connects ripaddr rport after i conn fresh state sndNxt len fits conns hostaddr =>
    have starts (_ : conn.endpoint = ends)
        (opens : contract.opens (contract.memory ends history) conn) :=
      rules.connected holds.good state len opens
    exact holds.opened rules obeyed conns starts
      (Or.inl rfl : [] = [] ∨ Sends net.hostaddr conn net.buf.data .tcpSendSynack [] ∧ _)

/-- Every run of a host from its start keeps to the contract. -/
theorem Sound.run (rules : contract.Sound) (booted : start.Booted)
    (run : Run (fun net (label : (AppCall → List AppAction) × NetEvent) next shown =>
      contract.Permits ends net label.2 ∧ net.step label.1 label.2 = some (next, shown))
      start net history)
    (obeyed : contract.Obeyed ends history) : contract.Holds ends history net := by
  -- The invariant of a step carries over to the run, one happening at a time.
  have both : net.Sound ∧ (contract.Obeyed ends history → contract.Holds ends history net) := by
    apply Run.invariant (fun net history =>
      net.Sound ∧ (contract.Obeyed ends history → contract.Holds ends history net)) _ _ run
    · refine ⟨booted.sound, fun _ => ⟨rules.start, ?_, ?_⟩⟩
      · intro i active
        exact absurd active (booted.unused i)
      · intro hdr data member
        cases member
    · intro net label next history shown kept taken
      obtain ⟨sound, holds⟩ := kept
      have happens := step_happens sound.fits taken.2
      refine ⟨happens.sound sound, fun obeyed => ?_⟩
      exact (holds obeyed.before).step rules sound taken.1 happens obeyed
  exact both.2 obeyed

end Contract

/-- The connection with a peer that is opened. -/
def opening (ends : Endpoint) : Observed → Option Conn
  | .opened conn => if conn.endpoint = ends then some conn else none
  | .called _ _ | .sent _ _ => none

/-- The connections with a peer that have been opened. -/
def openings (ends : Endpoint) (history : List Observed) : List Conn :=
  history.filterMap (opening ends)

/-- Every connection in use has been opened, and so has every one before the application was
called. -/
structure Opened (history : List Observed) (net : Net) : Prop where
  active : ∀ i, (net.conns i).Active → openings (net.conns i).endpoint history ≠ []
  called : ∀ before call actions after, history = before ++ .called call actions :: after →
    openings call.conn.endpoint before ≠ []

section Openings

variable {app : AppCall → List AppAction} {ends : Endpoint} {start net after : Net}
variable {event : NetEvent} {history shown more : List Observed}

/-- The openings of a longer history. -/
theorem openings_append (ends : Endpoint) (history more : List Observed) :
    openings ends (history ++ more) = openings ends history ++ openings ends more :=
  List.filterMap_append

/-- What has been opened stays so. -/
theorem openings_grow (opened : openings ends history ≠ []) :
    openings ends (history ++ more) ≠ [] := by
  rw [openings_append]
  exact List.append_ne_nil_of_left_ne_nil opened _

/-- The application of a connection in use is called. -/
theorem Happens.calls (happens : Happens app net event after shown) {call : AppCall}
    {actions : List AppAction} (member : Observed.called call actions ∈ shown) :
    ∃ i, (net.conns i).Active ∧ call.conn.endpoint = (net.conns i).endpoint := by
  -- The calls of a step are those of the one connection that it processes.
  have packet {sent : List Observed} {conn : Conn} {mem : Nat → UInt8} {goto : Goto}
      (sends : Sends net.hostaddr conn mem goto sent) :
      Observed.called call actions ∉ sent := by
    intro among
    cases sends with
    | drop => cases among
    | silent => cases among
    | reset resets => cases List.mem_singleton.mp among
    | segment drop reset emits => cases List.mem_singleton.mp among
  have told {calls : List AppCall} {sent : List Observed} {conn : Conn} {mem : Nat → UInt8}
      {goto : Goto} (sends : Sends net.hostaddr conn mem goto sent)
      (member : Observed.called call actions ∈ Net.told app calls ++ sent) : call ∈ calls := by
    obtain ⟨other, among, same⟩ :=
      List.mem_map.mp ((List.mem_append.mp member).resolve_right (packet sends))
    obtain ⟨rfl, -⟩ := Observed.called.inj same
    exact among
  cases happens with
  | ignored conns hostaddr unbound =>
    obtain ⟨hdr, data, same, -⟩ := unbound _ member
    cases same
  | @found uipLen buf after sent i r accepted active mine found conns hostaddr sends =>
    have among := told sends member
    exact ⟨i, active, ((Process.found_cases found).single rfl).own call among⟩
  | @timed event after sent i p r conn calls slen timed fits conns hostaddr sends =>
    have among := told sends member
    by_cases active : p.conn.Active
    · have endpoint := (timed.single calls).own call among
      rw [conn] at active endpoint
      exact ⟨i, active, endpoint⟩
    · rw [(timed.unused calls active).1] at among
      cases among
  | accepts accepted syn fresh endpoint state sndNxt len rcvNxt fits conns hostaddr sends =>
    rcases List.mem_cons.mp member with other | among
    · cases other
    · exact absurd among (packet sends)
  | connects fresh state sndNxt len fits conns hostaddr => cases List.mem_singleton.mp member

/-- Every step opens the connections that it puts to use. -/
theorem Opened.step (opened : Opened history net) (happens : Happens app net event after shown) :
    Opened (history ++ shown) after := by
  constructor
  · intro j active
    have stored {i : Fin uipConns} {conn : Conn}
        (conns : after.conns = Function.update net.conns i conn)
        (here : conn.Active → openings conn.endpoint (history ++ shown) ≠ []) :
        openings (after.conns j).endpoint (history ++ shown) ≠ [] := by
      rw [conns] at active ⊢
      by_cases same : j = i
      · rw [same, Function.update_self] at active ⊢
        exact here active
      · rw [Function.update_of_ne same] at active ⊢
        exact openings_grow (opened.active j active)
    have first {conn : Conn} {sent : List Observed} :
        openings conn.endpoint (history ++ .opened conn :: sent) ≠ [] := by
      rw [openings_append]
      apply List.append_ne_nil_of_right_ne_nil
      unfold openings
      rw [List.filterMap_cons]
      simp [opening]
    cases happens with
    | ignored conns hostaddr unbound =>
      rw [conns] at active ⊢
      exact openings_grow (opened.active j active)
    | @found uipLen buf after sent i r accepted used mine found conns hostaddr sends =>
      apply stored conns
      intro _
      rw [(Process.found_cases found).endpoint]
      exact openings_grow (opened.active i used)
    | @timed event after sent i p r conn calls slen timed fits conns hostaddr sends =>
      apply stored conns
      intro still
      have used := timed.active still
      rw [timed.endpoint]
      rw [conn] at used ⊢
      exact openings_grow (opened.active i used)
    | accepts accepted syn fresh endpoint state sndNxt len rcvNxt fits conns hostaddr sends =>
      exact stored conns fun _ => first
    | connects fresh state sndNxt len fits conns hostaddr => exact stored conns fun _ => first
  · intro before call actions rest split
    rcases List.append_eq_append_iff.mp split with ⟨more, rfl, later⟩ | ⟨more, earlier, later⟩
    · -- The call is one of this step.
      have member : Observed.called call actions ∈ shown := by
        rw [later]
        exact List.mem_append_right _ List.mem_cons_self
      obtain ⟨i, active, endpoint⟩ := happens.calls member
      rw [endpoint]
      exact openings_grow (opened.active i active)
    · cases more with
      | nil =>
        have whole : Observed.called call actions :: rest = shown := later
        have member : Observed.called call actions ∈ shown := by
          rw [← whole]
          exact List.mem_cons_self
        obtain ⟨i, active, endpoint⟩ := happens.calls member
        rw [List.append_nil] at earlier
        rw [endpoint, ← earlier]
        exact opened.active i active
      | cons o more =>
        obtain ⟨rfl, -⟩ := List.cons.inj later
        exact opened.called before call actions more earlier

/-- In every run of a host connections are opened before they are used. -/
theorem Net.Reaches.opened (booted : start.Booted) (run : start.Reaches net history) :
    Opened history net := by
  have both : net.Sound ∧ Opened history net := by
    apply Run.invariant (fun net history => net.Sound ∧ Opened history net) _ _ run
    · refine ⟨booted.sound, ?_, ?_⟩
      · intro i active
        exact absurd active (booted.unused i)
      · intro before call actions after split
        cases before with
        | nil => cases split
        | cons o before => cases split
    · intro net label next history shown kept taken
      have happens := step_happens kept.1.fits taken
      exact ⟨happens.sound kept.1, kept.2.step happens⟩
  exact both.2

/-- Nothing is noted before a connection is opened. -/
theorem Contract.memory_unopened {Memory : Type} {contract : Contract Memory}
    {before rest : List Observed} (opened : Opened (before ++ rest) net)
    (none : openings ends before = []) : contract.memory ends before = contract.start := by
  -- Without an opening there is no call to note.
  apply foldl_of_fixed
  intro o member
  cases o with
  | opened conn => rfl
  | sent hdr data => rfl
  | called call actions =>
    apply if_neg
    intro same
    obtain ⟨earlier, later, split⟩ := List.mem_iff_append.mp member
    have first := opened.called earlier call actions (later ++ rest) (by
      rw [split, List.append_assoc]
      rfl)
    apply @openings_grow _ _ (.called call actions :: later) first
    rw [same, ← split]
    exact none

end Openings

/-- The calls that a step leads to on a connection with a peer. -/
inductive Own (app : AppCall → List AppAction) (ends : Endpoint) (net : Net) (event : NetEvent) :
    List AppCall → Prop
  | found {uipLen : UInt16} {buf : UipBuf} {i : Fin uipConns} {p : Process} {r : Process × Goto}
      (input : event = .input uipLen buf) (accepted : Accepted net uipLen buf)
      (active : (net.conns i).Active) (endpoint : (net.conns i).endpoint = ends)
      (named : buf.hdr.endpoint = ends) (conn : p.conn = net.conns i) (calls : p.calls = [])
      (found : Process.Found app buf.hdr p r) : Own app ends net event r.1.calls
  | timed {i : Fin uipConns} {p : Process} {r : Process × Goto} (active : (net.conns i).Active)
      (endpoint : (net.conns i).endpoint = ends) (conn : p.conn = net.conns i)
      (calls : p.calls = []) (timed : p.Timed app r) : Own app ends net event r.1.calls

/-- What is noted with a step is noted of the calls of the connection with the peer, if there are
any. -/
theorem Happens.own {Memory : Type} {note : Memory → AppCall → List AppAction → Memory}
    {app : AppCall → List AppAction} {ends : Endpoint} {net after : Net} {event : NetEvent}
    {shown : List Observed} (happens : Happens app net event after shown) (memory : Memory) :
    shown.foldl (record note ends) memory = memory ∨ ∃ calls, Own app ends net event calls ∧
      (∀ call ∈ calls, Observed.called call (app call) ∈ shown) ∧
      shown.foldl (record note ends) memory =
        calls.foldl (fun memory call => note memory call (app call)) memory := by
  -- Endpoints of connections in use are unique, so the peer has one connection at most.
  have among {calls : List AppCall} {sent : List Observed} :
      ∀ call ∈ calls, Observed.called call (app call) ∈ Net.told app calls ++ sent := by
    intro call member
    exact List.mem_append_left _ (List.mem_map.mpr ⟨call, member, rfl⟩)
  cases happens with
  | ignored conns hostaddr unbound =>
    left
    apply foldl_of_fixed
    intro o member
    obtain ⟨hdr, data, rfl, -⟩ := unbound o member
    rfl
  | @found uipLen buf after sent i r accepted active mine found conns hostaddr sends =>
    have cases := Process.found_cases found
    have own := (cases.single rfl).own
    rw [List.foldl_append, foldl_record_sends sends]
    by_cases same : (net.conns i).endpoint = ends
    · right
      refine ⟨r.1.calls, Own.found rfl accepted active same (mine.trans same) rfl rfl cases,
        among, ?_⟩
      apply foldl_record_told
      intro call member
      exact (own call member).trans same
    · left
      apply foldl_record_foreign
      intro call member
      rw [own call member]
      exact same
  | @timed event after sent i p r conn calls slen timed fits conns hostaddr sends =>
    have own := (timed.single calls).own
    rw [conn] at own
    rw [List.foldl_append, foldl_record_sends sends]
    by_cases active : (net.conns i).Active
    · by_cases same : (net.conns i).endpoint = ends
      · right
        refine ⟨r.1.calls, Own.timed active same conn calls timed, among, ?_⟩
        apply foldl_record_told
        intro call member
        exact (own call member).trans same
      · left
        apply foldl_record_foreign
        intro call member
        rw [own call member]
        exact same
    · left
      rw [← conn] at active
      rw [(timed.unused calls active).1]
      rfl
  | accepts accepted syn fresh endpoint state sndNxt len rcvNxt fits conns hostaddr sends =>
    left
    rw [List.foldl_cons]
    exact foldl_record_sends sends
  | connects fresh state sndNxt len fits conns hostaddr => exact Or.inl rfl

end Egos.Uip
