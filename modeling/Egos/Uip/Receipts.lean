import Egos.Uip.Sending

/-! A host acknowledges no more than what its application has received. -/

namespace Egos.Uip

/-- A number that counts bytes that an application has got, where the end of the stream counts as
one more. -/
def Counted (first : Nat) (fin : Prop) (got : List UInt8) (ackno : Seqno) : Prop :=
  ∃ count, ackno.value = (first + count) % 4294967296 ∧
    (count ≤ got.length ∨ fin ∧ count = got.length + 1)

/-- What a connection expects counts what its application has got. -/
structure Receiving (first : Nat) (fin : Prop) (got : List UInt8) (conn : Conn) : Prop where
  synSent : conn.tcpstateflags.state ≠ .synSent
  finished : ¬ conn.tcpstateflags.state.finished
  synRcvd : conn.tcpstateflags.state = .synRcvd → got = []
  exactly : ¬ conn.tcpstateflags.state.late →
    conn.rcvNxt.value = (first + got.length) % 4294967296
  counted : Counted first fin got conn.rcvNxt

/-- The contract of a connection that was opened by its peer and is not closed before it. -/
def receipts (first : Nat) (fin : Prop) : Contract (List UInt8) where
  start := []
  note got call _ := receive got call
  good _ := True
  conn := Receiving first fin
  packet got hdr _ := hdr.flags &&& tcpRst = 0 → Counted first fin got hdr.ackno
  hears hdr _ := (hdr.flags &&& tcpSyn ≠ 0 → (hdr.seqno.value + 1) % 4294967296 = first) ∧
    (hdr.flags &&& tcpFin ≠ 0 → fin)
  polled := True
  answers _ _ actions := actions.any AppAction.ends = false
  opens got conn := got = [] ∧ conn.tcpstateflags.state = .synRcvd

section Counting

variable {app : AppCall → List AppAction} {first : Nat} {fin : Prop} {got more : List UInt8}
variable {hdr : TcpipHdr} {p q : Process} {r : Process × Goto} {conn : Conn}

/-- What was counted is counted when more has arrived. -/
theorem Counted.mono {ackno : Seqno} (counted : Counted first fin got ackno)
    (longer : got.length ≤ more.length) : Counted first fin more ackno := by
  obtain ⟨count, value, within | ⟨ended, one⟩⟩ := counted
  · exact ⟨count, value, Or.inl (within.trans longer)⟩
  · refine ⟨count, value, ?_⟩
    rcases Nat.lt_or_eq_of_le longer with above | same
    · left
      omega
    · right
      exact ⟨ended, by omega⟩

/-- A connection that goes on counts what its application has got. -/
theorem Receiving.of_established (state : conn.tcpstateflags.state = .established)
    (rcvNxt : conn.rcvNxt.value = (first + got.length) % 4294967296) :
    Receiving first fin got conn := by
  constructor
  case synSent =>
    rw [state]
    exact TcpState.noConfusion
  case finished =>
    rw [state]
    exact Bool.false_ne_true
  case synRcvd =>
    intro opening
    rw [state] at opening
    cases opening
  case exactly => exact fun _ => rcvNxt
  case counted => exact ⟨got.length, rcvNxt, Or.inl (Nat.le_refl _)⟩

/-- A connection that is over keeps what it has counted. -/
theorem Receiving.quiet (receiving : Receiving first fin got p.conn) (quiet : p.Quiet r) :
    Receiving first fin got r.1.conn := by
  -- A farewell brings no data.
  have late := quiet.late
  constructor
  case synSent =>
    intro state
    rw [state] at late
    cases late
  case finished => exact fun closed => receiving.finished (quiet.finished closed)
  case synRcvd =>
    intro state
    rw [state] at late
    cases late
  case exactly => exact fun goesOn => absurd late goesOn
  case counted =>
    rw [quiet.rcvNxt receiving.finished]
    exact receiving.counted

/-- A connection that goes on as before keeps what it has counted. -/
theorem Receiving.same (receiving : Receiving first fin got p.conn) (same : p.Same q) :
    Receiving first fin got q.conn := by
  obtain ⟨synSent, finished, synRcvd, exactly, counted⟩ := receiving
  rw [← same.state] at synSent finished synRcvd exactly
  rw [← same.rcvNxt] at exactly counted
  exact ⟨synSent, finished, synRcvd, exactly, counted⟩

/-- An application that does not ask for the end keeps its connection established. -/
theorem Receiving.answer {skip : Nat} (state : q.conn.tcpstateflags.state = .established)
    (ended : q.flags.ended = false) (goesOn : (app (q.shown skip)).any AppAction.ends = false)
    (rcvNxt : q.conn.rcvNxt.value = (first + got.length) % 4294967296) :
    Receiving first fin got (q.appcall app skip).appsend.1.conn := by
  have stays : (q.appcall app skip).appsend.1.conn.tcpstateflags.state = .established := by
    rw [appsend_goesOn skip ended goesOn, Process.apprexmit_fst, Process.limit_eq]
    exact (Process.appcall_state skip).trans state
  apply Receiving.of_established stays
  rw [Process.appsend_keeps.2.1, Process.appcall_rcvNxt]
  exact rcvNxt

/-- The bytes that come with a call are as many as it says. -/
theorem length_bytes (skip : Nat) : (q.shown skip).bytes.length = q.uipLen.toNat := by
  unfold AppCall.bytes
  rw [List.length_map, List.length_range]
  rfl

/-- Nothing is received when the connection is over. -/
theorem Process.Quiet.receipts (quiet : p.Quiet r) (calls : p.calls = []) :
    (receipts first fin).told app got r.1.calls = got :=
  @Process.Quiet.received app 0 [] got p r quiet calls

/-- Every segment is counted as far as the application gets it. -/
theorem Receiving.found (receiving : Receiving first fin got p.conn) (calls : p.calls = [])
    (ends : hdr.flags &&& tcpFin ≠ 0 → fin) (found : Process.Found app hdr p r)
    (goesOn : ∀ call ∈ r.1.calls, (app call).any AppAction.ends = false) :
    Receiving first fin ((receipts first fin).told app got r.1.calls) r.1.conn ∧
      got.length ≤ ((receipts first fin).told app got r.1.calls).length := by
  cases found with
  | quiet quiet goto =>
    rw [quiet.receipts calls]
    exact ⟨receiving.quiet quiet, Nat.le_refl _⟩
  | refused quiet state reset =>
    rw [quiet.receipts calls]
    exact ⟨receiving.quiet quiet, Nat.le_refl _⟩
  | still same goto strange =>
    rw [same.calls, calls]
    exact ⟨receiving.same same, Nat.le_refl _⟩
  | @connects q connects =>
    have start := receiving.exactly (by rw [connects.before]; exact Bool.false_ne_true)
    have empty := receiving.synRcvd connects.before
    subst empty
    rw [Process.calls_appsend (connects.calls.trans calls)] at goesOn ⊢
    rw [Contract.told_singleton]
    have flags : (q.shown 0).flags = { connected := true, newdata := decide (q.uipLen > 0) } :=
      connects.flags
    refine ⟨?_, Nat.zero_le _⟩
    apply Receiving.answer connects.state (by rw [connects.flags]; rfl)
      (goesOn _ (List.mem_singleton.mpr rfl))
    have rcvNxt := connects.rcvNxt
    change _ = (first + (receive [] (q.shown 0)).length) % 4294967296
    unfold receive
    rw [flags, if_pos rfl, List.nil_append]
    by_cases some : q.uipLen > 0
    · rw [if_pos some] at rcvNxt
      rw [if_pos (decide_eq_true some), rcvNxt, length_bytes]
      exact value_addRcvNxt start rfl
    · rw [if_neg some] at rcvNxt
      rw [if_neg (by simpa using some), rcvNxt]
      exact start
  | answers answers => exact absurd answers.before receiving.synSent
  | @serves q skip skips serves =>
    have start := receiving.exactly (by rw [serves.before]; exact Bool.false_ne_true)
    rw [Process.calls_appsend (serves.calls.trans calls)] at goesOn ⊢
    rw [Contract.told_singleton]
    have connected : (q.shown skip).flags.connected = false := by
      change q.flags.connected = false
      rw [serves.flags]
    have rcvNxt := serves.rcvNxt
    change Receiving first fin (receive got (q.shown skip)) _ ∧
      got.length ≤ (receive got (q.shown skip)).length
    unfold receive
    rw [connected, if_neg Bool.false_ne_true, List.length_append]
    refine ⟨?_, Nat.le_add_right _ _⟩
    apply Receiving.answer serves.state (by rw [serves.flags]; rfl)
      (goesOn _ (List.mem_singleton.mpr rfl))
    change _ = (first + (got ++ if q.flags.newdata = true then _ else _).length) % 4294967296
    rw [List.length_append, ← Nat.add_assoc]
    by_cases newdata : q.flags.newdata = true
    · rw [if_pos newdata] at rcvNxt ⊢
      rw [rcvNxt, length_bytes]
      exact value_addRcvNxt start rfl
    · rw [if_neg newdata] at rcvNxt ⊢
      rw [rcvNxt]
      exact start
  | @ends q p' last endpoint state rcvNxt told =>
    have start := receiving.exactly (by rw [last.before]; exact Bool.false_ne_true)
    rw [told, calls, List.nil_append, Contract.told_singleton]
    have connected : (q.shown 0).flags.connected = false := by
      change q.flags.connected = false
      rw [last.flags]
    have newdata : (q.shown 0).flags.newdata = decide (q.uipLen > 0) := by
      change q.flags.newdata = _
      rw [last.flags]
    change Receiving first fin (receive got (q.shown 0)) _ ∧
      got.length ≤ (receive got (q.shown 0)).length
    unfold receive
    rw [connected, newdata, if_neg Bool.false_ne_true, List.length_append]
    refine ⟨?_, Nat.le_add_right _ _⟩
    -- The end of the stream counts as one more.
    have length : (if decide (q.uipLen > 0) = true then (q.shown 0).bytes else []).length =
        q.uipLen.toNat := by
      by_cases some : q.uipLen > 0
      · rw [if_pos (decide_eq_true some), length_bytes]
      · rw [if_neg (by simpa using some)]
        have below := UInt16.le_iff_toNat_le.mp (UInt16.not_lt.mp some)
        exact (Nat.le_zero.mp below).symm
    have next : p'.conn.rcvNxt.value =
        (first + (got.length + (1 + q.uipLen).toNat)) % 4294967296 := by
      rw [rcvNxt, last.rcvNxt, ← Nat.add_assoc]
      exact value_addRcvNxt start rfl
    have one : (1 + q.uipLen).toNat ≤ 1 + q.uipLen.toNat := by
      rw [UInt16.toNat_add]
      exact Nat.mod_le _ _
    constructor
    case synSent =>
      rw [state]
      exact TcpState.noConfusion
    case finished =>
      rw [state]
      exact Bool.false_ne_true
    case synRcvd =>
      intro opening
      rw [state] at opening
      cases opening
    case exactly =>
      rw [state]
      exact fun goesOn => absurd rfl goesOn
    case counted =>
      refine ⟨_, next, ?_⟩
      rw [List.length_append, length]
      rcases Nat.lt_or_eq_of_le one with less | same
      · left
        omega
      · right
        exact ⟨ends last.fin, by omega⟩

/-- The timer counts nothing. -/
theorem Receiving.timed (receiving : Receiving first fin got p.conn) (calls : p.calls = [])
    (timed : p.Timed app r)
    (goesOn : ∀ call ∈ r.1.calls, (app call).any AppAction.ends = false) :
    (receipts first fin).told app got r.1.calls = got ∧ Receiving first fin got r.1.conn := by
  -- No call of the timer brings data.
  have silent {q : Process} (newdata : q.flags.newdata = false)
      (connected : q.flags.connected = false) :
      (receipts first fin).told app got [q.shown 0] = got :=
    receive_nothing newdata connected
  cases timed with
  | quiet active quiet goto => exact ⟨quiet.receipts calls, receiving.quiet quiet⟩
  | idle same goto =>
    rw [same.calls, calls]
    exact ⟨rfl, receiving.same same⟩
  | still active same goto =>
    rw [same.calls, calls]
    exact ⟨rfl, receiving.same same⟩
  | @rexmits q same state outstanding flags slen =>
    rw [Process.apprexmit_fst, Process.appcall_calls, same.calls, calls, List.nil_append]
    refine ⟨silent (by rw [flags]) (by rw [flags]), ?_⟩
    have start := receiving.exactly (by rw [state]; exact Bool.false_ne_true)
    apply Receiving.of_established ((Process.appcall_state 0).trans (same.state.trans state))
    rw [Process.appcall_rcvNxt, same.rcvNxt]
    exact start
  | @polls q same state none flags slen =>
    rw [Process.calls_appsend (same.calls.trans calls)] at goesOn ⊢
    refine ⟨silent (by rw [flags]) (by rw [flags]), ?_⟩
    have start := receiving.exactly (by rw [state]; exact Bool.false_ne_true)
    apply Receiving.answer (same.state.trans state) (by rw [flags]; rfl)
      (goesOn _ (List.mem_singleton.mpr rfl))
    rw [same.rcvNxt]
    exact start

/-- A connection that was opened by its peer and is not closed before it keeps to its contract. -/
theorem receipts_sound (first : Nat) (fin : Prop) : (receipts first fin).Sound := by
  -- All that is acknowledged is taken from the number that the connection expects.
  have speaks {got : List UInt8} {conn : Conn} {goto : Goto} {mem : Nat → UInt8}
      (counted : Counted first fin got conn.rcvNxt) :
      (receipts first fin).Speaks got conn goto mem := by
    intro hostaddr hdr emits _
    rw [emits.ackno]
    exact counted
  constructor
  case start => exact trivial
  case found =>
    intro app hdr p r got hears _ calls _ receiving found _ answers
    obtain ⟨next, longer⟩ := Receiving.found receiving calls hears.2 found answers
    exact ⟨trivial, next, fun _ => speaks next.counted, fun _ _ counted plain =>
      (counted plain).mono longer⟩
  case timed =>
    intro app p r got _ calls _ receiving timed _ answers
    obtain ⟨same, next⟩ := Receiving.timed receiving calls timed answers
    rw [same]
    exact ⟨trivial, next, fun _ => speaks next.counted, fun _ _ counted => counted⟩
  case accepted =>
    intro hdr mem conn got hears syn _ state rcvNxt _ opens
    obtain ⟨rfl, -⟩ := opens
    have opening : hdr.flags &&& tcpSyn ≠ 0 := by
      intro none
      have both : hdr.flags &&& tcpCtl &&& tcpSyn = hdr.flags &&& tcpSyn := by
        rw [UInt8.and_assoc]
        rfl
      rw [syn, none] at both
      exact absurd both (by decide)
    have number := hears.1 opening
    have value : conn.rcvNxt.value = (first + 0) % 4294967296 := by
      rw [rcvNxt, value_uipAdd32, ← number]
      change (hdr.seqno.value + 1) % 4294967296 = _
      omega
    have counted : Counted first fin [] conn.rcvNxt := ⟨0, value, Or.inl (Nat.le_refl _)⟩
    refine ⟨⟨?_, ?_, fun _ => rfl, fun _ => value, counted⟩, speaks counted⟩
    · rw [state]
      exact TcpState.noConfusion
    · rw [state]
      exact Bool.false_ne_true
  case connected =>
    intro conn got _ state _ opens
    obtain ⟨-, opened⟩ := opens
    rw [state] at opened
    cases opened
  case refused =>
    intro hostaddr hdr got resets plain
    rw [resets.flags] at plain
    exact absurd plain (by decide)

end Counting

/-- What a host is given of a peer: its stream starts behind a number, and may have ended. -/
def Net.HearsFrom (ends : Endpoint) (first : Nat) (fin : Prop) (net : Net)
    (event : NetEvent) : Prop :=
  ∀ uipLen buf, event = .input uipLen buf → Accepted net uipLen buf → buf.hdr.endpoint = ends →
    (buf.hdr.flags &&& tcpSyn ≠ 0 → (buf.hdr.seqno.value + 1) % 4294967296 = first) ∧
      (buf.hdr.flags &&& tcpFin ≠ 0 → fin)

/-- A connection with a peer is opened once at most, by the peer. -/
structure Accepts (ends : Endpoint) (history : List Observed) : Prop where
  single : (openings ends history).length ≤ 1
  opened : ∀ conn ∈ openings ends history, conn.tcpstateflags.state = .synRcvd

/-- The application of a connection never asks for its end. -/
def GoesOn (ends : Endpoint) (history : List Observed) : Prop :=
  ∀ call actions, Observed.called call actions ∈ history → call.conn.endpoint = ends →
    actions.any AppAction.ends = false

/-- A host that counts what its application has received keeps to its contract. -/
theorem receipts_holds {start net : Net} {ends : Endpoint} {first : Nat} {fin : Prop}
    {history : List Observed} (booted : start.Booted)
    (run : Run (fun net (label : (AppCall → List AppAction) × NetEvent) next shown =>
      net.HearsFrom ends first fin label.2 ∧ net.step label.1 label.2 = some (next, shown))
      start net history)
    (accepts : Accepts ends history) (goesOn : GoesOn ends history) :
    (receipts first fin).Holds ends history net := by
  -- The peer has opened the connection, and no other one has been opened with it.
  have opened : Opened history net := by
    apply Net.Reaches.opened booted
    exact run.mono fun _ _ _ _ taken => taken.2
  apply (receipts_sound first fin).run booted
  · apply run.mono
    intro net label next shown taken
    exact ⟨⟨taken.1, Or.inl trivial⟩, taken.2⟩
  · constructor
    · intro before call actions rest split same
      apply goesOn call actions _ same
      rw [split]
      exact List.mem_append_right _ List.mem_cons_self
    · intro before conn rest split same
      obtain ⟨none, member⟩ := openings_before accepts.single split same
      rw [split] at opened
      exact ⟨Contract.memory_unopened opened none, accepts.opened conn member⟩

/-- Whether the application asks for the end, as far as one event shows. -/
def Observed.goesOn : Observed → Bool
  | .called _ actions => !actions.any AppAction.ends
  | .opened _ | .sent _ _ => true

/-- Whether an application goes on can be checked. -/
theorem goesOn_of_all {ends : Endpoint} {history : List Observed}
    (all : history.all Observed.goesOn = true) : GoesOn ends history := by
  intro call actions member _
  have one := List.all_eq_true.mp all _ member
  exact Bool.not_eq_true' _ ▸ one

/-- Whether a connection is opened by its peer can be checked. -/
theorem accepts_of_map {ends : Endpoint} {history : List Observed}
    (opened : (openings ends history).map (fun conn => conn.tcpstateflags.state) = [.synRcvd]) :
    Accepts ends history := by
  constructor
  · have length := congrArg List.length opened
    rw [List.length_map] at length
    exact length.le
  · intro conn member
    have state := List.mem_map_of_mem (f := fun conn : Conn => conn.tcpstateflags.state) member
    rw [opened] at state
    exact List.mem_singleton.mp state

/-- The pieces come from a peer that does not close its end. -/
theorem hearsFrom_pieces : ∀ label ∈ pieces, ∀ net : Net,
    net.HearsFrom ⟨⟨1, 2⟩, 7, 80⟩ 10 False label.2 := by
  -- Only the first piece has SYN, and none has FIN.
  have each {hdr : TcpipHdr} {data : List UInt8}
      (syn : hdr.flags &&& tcpSyn ≠ 0 → (hdr.seqno.value + 1) % 4294967296 = 10)
      (fin : hdr.flags &&& tcpFin = 0) (net : Net) :
      net.HearsFrom ⟨⟨1, 2⟩, 7, 80⟩ 10 False (arriving hdr data) := by
    intro uipLen buf input _ _
    obtain ⟨rfl, rfl⟩ := NetEvent.input.inj input
    exact ⟨syn, fun some => some fin⟩
  intro label member net
  simp only [pieces, List.map_cons, List.map_nil, List.mem_cons, List.not_mem_nil,
    or_false] at member
  rcases member with rfl | rfl | rfl | rfl | rfl
  · intro uipLen buf input
    cases input
  · exact each (fun _ => rfl) rfl net
  · exact each (fun syn => absurd rfl syn) rfl net
  · exact each (fun syn => absurd rfl syn) rfl net
  · exact each (fun syn => absurd rfl syn) rfl net

/-- Whatever its peer and the network do: all that a host ever acknowledges on a connection, which
its peer has opened and its application does not close, has been received by the application. -/
theorem Net.acknowledges_received {start net : Net} {ends : Endpoint} {first : Nat} {fin : Prop}
    {history : List Observed} (booted : start.Booted)
    (run : Run (fun net (label : (AppCall → List AppAction) × NetEvent) next shown =>
      net.HearsFrom ends first fin label.2 ∧ net.step label.1 label.2 = some (next, shown))
      start net history)
    (accepts : Accepts ends history) (goesOn : GoesOn ends history) :
    ∀ hdr data, Observed.sent hdr data ∈ history → hdr.proto = uipProtoTcp → hdr.sender = ends →
      hdr.flags &&& tcpRst = 0 → Counted first fin (received ends history) hdr.ackno :=
  (receipts_holds booted run accepts goesOn).sent

/-- What is acknowledged of the pieces. -/
theorem Net.acknowledges_received_pieces : ∃ net history,
    takeSteps (fun net label => Net.step net label.1 label.2) (clearedHost ⟨1, 3⟩).uipInit pieces =
        some (net, history) ∧
      ∀ hdr data, Observed.sent hdr data ∈ history → hdr.proto = uipProtoTcp →
        hdr.sender = ⟨⟨1, 2⟩, 7, 80⟩ → hdr.flags &&& tcpRst = 0 →
        Counted 10 False [104, 105] hdr.ackno := by
  -- The run is computed once, for what was received and for how the connection was opened.
  have ran : (takeSteps (fun net label => Net.step net label.1 label.2)
      (clearedHost ⟨1, 3⟩).uipInit pieces).map (fun r =>
        (received ⟨⟨1, 2⟩, 7, 80⟩ r.2, r.2.all Observed.goesOn,
          (openings ⟨⟨1, 2⟩, 7, 80⟩ r.2).map fun conn => conn.tcpstateflags.state)) =
        some ([104, 105], true, [.synRcvd]) := by decide +kernel
  obtain ⟨⟨net, history⟩, taken, facts⟩ := Option.map_eq_some_iff.mp ran
  obtain ⟨got, rest⟩ := Prod.mk.inj facts
  obtain ⟨goesOn, opened⟩ := Prod.mk.inj rest
  have counted : ∀ hdr data, Observed.sent hdr data ∈ history → hdr.proto = uipProtoTcp →
      hdr.sender = ⟨⟨1, 2⟩, 7, 80⟩ → hdr.flags &&& tcpRst = 0 →
      Counted 10 False (received ⟨⟨1, 2⟩, 7, 80⟩ history) hdr.ackno :=
    Net.acknowledges_received (clearedHost_booted ⟨1, 3⟩)
      (run_of_takeSteps hearsFrom_pieces .start taken) (accepts_of_map opened)
      (goesOn_of_all goesOn)
  change received ⟨⟨1, 2⟩, 7, 80⟩ history = [104, 105] at got
  rw [got] at counted
  exact ⟨net, history, taken, counted⟩

end Egos.Uip
