import Egos.Uip.Contract

/-! What a peer has sent reaches the application in order, once, and without gaps. -/

namespace Egos.Uip

/-- The bytes that come with a call. -/
def AppCall.bytes (call : AppCall) : List UInt8 :=
  (List.range call.uipLen.toNat).map call.appdata

/-- What an application has got after one more call. -/
def receive (got : List UInt8) (call : AppCall) : List UInt8 :=
  (if call.flags.connected then [] else got) ++ if call.flags.newdata then call.bytes else []

/-- What the application of a connection has got since it was connected last. -/
def received (ends : Endpoint) (history : List Observed) : List UInt8 :=
  history.foldl (record (fun got call _ => receive got call) ends) []

/-- A packet with what follows its headers. -/
structure Carries (hdr : TcpipHdr) (mem : Nat → UInt8) (data : List UInt8) : Prop where
  len : hdr.len.toNat = uipIptcphLen + data.length
  holds : Holds mem data

/-- The size of the TCP header with its options. -/
def TcpipHdr.headerSize (hdr : TcpipHdr) : Nat := 4 * (hdr.tcpoffset.toNat / 16)

/-- What a segment brings behind its options. -/
def TcpipHdr.payload (hdr : TcpipHdr) (data : List UInt8) : List UInt8 :=
  data.drop (hdr.headerSize - uipTcphLen)

/-- A segment of a peer that sends a stream, in pieces of its choice; data comes without options
and is never urgent. -/
structure Genuine (irs : Nat) (stream : List UInt8) (hdr : TcpipHdr) (data : List UInt8) :
    Prop where
  urg : hdr.flags &&& tcpUrg = 0
  size : uipTcphLen ≤ hdr.headerSize ∧ hdr.headerSize ≤ uipTcphLen + data.length
  syn : hdr.flags &&& tcpSyn ≠ 0 → hdr.seqno.value = irs
  plain : hdr.flags &&& tcpSyn = 0 → hdr.payload data ≠ [] → hdr.headerSize = uipTcphLen ∧
    ∃ position, position + (hdr.payload data).length ≤ stream.length ∧
      hdr.seqno.value = (irs + 1 + position) % 4294967296 ∧
      hdr.payload data = (stream.drop position).take (hdr.payload data).length

/-- A connection waits for the part of the stream that follows what the application has got. -/
structure Follows (irs : Nat) (got : List UInt8) (conn : Conn) : Prop where
  synRcvd : conn.tcpstateflags.state = .synRcvd → conn.rcvNxt.value = (irs + 1) % 4294967296
  established : conn.tcpstateflags.state = .established →
    conn.rcvNxt.value = (irs + 1 + got.length) % 4294967296

section Payloads

variable {irs : Nat} {stream data : List UInt8} {hdr : TcpipHdr} {mem : Nat → UInt8}

/-- The length of the TCP header is read from its field. -/
theorem toNat_headerSize (hdr : TcpipHdr) :
    (((hdr.tcpoffset >>> 4) <<< 2).toUInt16).toNat = hdr.headerSize := by
  have below := hdr.tcpoffset.toNat_lt
  unfold TcpipHdr.headerSize
  simp only [UInt8.toNat_toUInt16, UInt8.toNat_shiftLeft, UInt8.toNat_shiftRight,
    UInt8.reduceToNat, Nat.reduceMod, Nat.shiftLeft_eq, Nat.shiftRight_eq_div_pow, Nat.reducePow]
  omega

/-- The length of the data is what is left behind the headers. -/
theorem toNat_payloadLen {p : Process} (genuine : Genuine irs stream hdr data)
    (carries : Carries hdr mem data) (whole : p.uipLen = hdr.len) :
    (p.payloadLen hdr).toNat = (hdr.payload data).length := by
  obtain ⟨least, most⟩ := genuine.size
  have len := carries.len
  have sizes := headerSizes
  have header := toNat_headerSize hdr
  have twenty : (UInt16.ofNat uipIphLen).toNat = 20 := rfl
  unfold Process.payloadLen
  have first : (p.uipLen - ((hdr.tcpoffset >>> 4) <<< 2).toUInt16).toNat =
      hdr.len.toNat - hdr.headerSize := by
    rw [whole, UInt16.toNat_sub_of_le _ _ (UInt16.le_iff_toNat_le.mpr (by omega)), header]
  rw [UInt16.toNat_sub_of_le _ _ (UInt16.le_iff_toNat_le.mpr (by omega)), first, twenty]
  unfold TcpipHdr.payload
  rw [List.length_drop]
  omega

/-- Data without options is read from the start of the memory. -/
theorem map_range_payload (carries : Carries hdr mem data)
    (plain : hdr.headerSize = uipTcphLen) {count : Nat}
    (all : count = (hdr.payload data).length) :
    (List.range count).map mem = hdr.payload data := by
  unfold TcpipHdr.payload at all ⊢
  rw [plain, Nat.sub_self, List.drop_zero] at all ⊢
  subst all
  apply List.ext_getElem
  · simp
  · intro k inside other
    rw [List.getElem_map, List.getElem_range, carries.holds k other]
    rfl

/-- A segment that is expected next brings what follows in the stream. -/
theorem Genuine.next {got : List UInt8} {conn : Conn} (genuine : Genuine irs stream hdr data)
    (small : stream.length + 1 < 4294967296) (begins : got <+: stream)
    (rcvNxt : conn.rcvNxt.value = (irs + 1 + got.length) % 4294967296)
    (expected : hdr.seqno = conn.rcvNxt) (some : hdr.payload data ≠ []) :
    hdr.headerSize = uipTcphLen ∧ got ++ hdr.payload data <+: stream := by
  have within := begins.length_le
  -- No position of the stream has the number of the opening segment.
  have plain : hdr.flags &&& tcpSyn = 0 := by
    by_contra opening
    have first := genuine.syn opening
    rw [expected, rcvNxt] at first
    omega
  obtain ⟨header, position, room, seqno, bytes⟩ := genuine.plain plain some
  refine ⟨header, ?_⟩
  rw [expected, rcvNxt] at seqno
  have same : position = got.length := by omega
  rw [bytes, same]
  exact prefix_append_take begins _

/-- Counting bytes as received moves on by their number. -/
theorem value_addRcvNxt {rcvNxt : Seqno} {start : Nat} {n : UInt16} {count : Nat}
    (value : rcvNxt.value = start % 4294967296) (same : n.toNat = count) :
    (uipAdd32 rcvNxt n).value = (start + count) % 4294967296 := by
  rw [value_uipAdd32, value, same]
  omega

end Payloads

/-- The contract of a connection whose peer sends a stream. -/
def delivery (irs : Nat) (stream : List UInt8) : Contract (List UInt8) where
  start := []
  note got call _ := receive got call
  good got := got <+: stream
  conn := Follows irs
  packet _ _ _ := True
  hears hdr mem := ∃ data, Carries hdr mem data ∧ Genuine irs stream hdr data
  polled := True
  answers _ _ _ := True
  opens _ _ := True

section Calls

variable {app : AppCall → List AppAction} {irs : Nat} {stream data got : List UInt8}
variable {hdr : TcpipHdr} {p q : Process} {r : Process × Goto}

/-- Nothing is noted without a call. -/
theorem Contract.told_nil {Memory : Type} (contract : Contract Memory)
    (app : AppCall → List AppAction) (memory : Memory) :
    contract.told app memory [] = memory := rfl

/-- One call is noted. -/
theorem Contract.told_singleton {Memory : Type} (contract : Contract Memory)
    (app : AppCall → List AppAction) (memory : Memory) (call : AppCall) :
    contract.told app memory [call] = contract.note memory call (app call) := rfl

/-- An application gets nothing with a call that brings no data. -/
theorem receive_nothing {call : AppCall} (newdata : call.flags.newdata = false)
    (connected : call.flags.connected = false) : receive got call = got := by
  simp [receive, newdata, connected]

/-- An application gets nothing when it is told that the connection is over. -/
theorem Process.Quiet.received (quiet : p.Quiet r) (calls : p.calls = []) :
    (delivery irs stream).told app got r.1.calls = got := by
  rcases quiet.calls with ⟨none, -⟩ | ⟨call, one, farewell⟩
  · rw [none, calls]
    rfl
  · rw [one, calls, List.nil_append, Contract.told_singleton]
    exact receive_nothing farewell.newdata farewell.connected

/-- A connection that is over or about to be follows every stream. -/
theorem Follows.late {conn : Conn} (late : conn.tcpstateflags.state.late) :
    Follows irs got conn := by
  constructor
  · intro state
    rw [state] at late
    cases late
  · intro state
    rw [state] at late
    cases late

/-- What the application asks for keeps a connection following its stream. -/
theorem Follows.appsend (follows : Follows irs got p.conn) : Follows irs got p.appsend.1.conn := by
  obtain ⟨-, rcvNxt, -, -⟩ := p.appsend_keeps
  rcases p.appsend_cases with ⟨late, -⟩ | same
  · exact Follows.late late
  · have state : p.appsend.1.conn.tcpstateflags = p.conn.tcpstateflags := by
      rw [same, Process.apprexmit_fst, Process.limit_eq]
    constructor
    · rw [state, rcvNxt]
      exact follows.synRcvd
    · rw [state, rcvNxt]
      exact follows.established

/-- A call keeps a connection following its stream. -/
theorem Follows.appcall (follows : Follows irs got p.conn) (skip : Nat) :
    Follows irs got (p.appcall app skip).conn := by
  constructor
  · rw [Process.appcall_state, Process.appcall_rcvNxt]
    exact follows.synRcvd
  · rw [Process.appcall_state, Process.appcall_rcvNxt]
    exact follows.established

/-- A connection that goes on as before follows its stream. -/
theorem Follows.same (follows : Follows irs got p.conn) (same : p.Same q) :
    Follows irs got q.conn := by
  obtain ⟨synRcvd, established⟩ := follows
  rw [← same.state, ← same.rcvNxt] at synRcvd established
  exact ⟨synRcvd, established⟩

/-- A connection that expects the next byte follows its stream. -/
theorem Follows.of_established {conn : Conn} (state : conn.tcpstateflags.state = .established)
    (rcvNxt : conn.rcvNxt.value = (irs + 1 + got.length) % 4294967296) : Follows irs got conn := by
  refine ⟨fun opening => ?_, fun _ => rcvNxt⟩
  rw [state] at opening
  cases opening

/-- The application is shown all data of a segment. -/
theorem bytes_shown (carries : Carries hdr p.data data) (same : q.data = p.data)
    (plain : hdr.headerSize = uipTcphLen) (all : q.uipLen.toNat = (hdr.payload data).length) :
    (q.shown 0).bytes = hdr.payload data := by
  rw [← map_range_payload carries plain all, ← same]
  unfold AppCall.bytes Process.shown
  simp only [Nat.zero_add]

/-- A segment is empty exactly if there is nothing to take. -/
theorem taken_iff {n : UInt16} (all : n.toNat = (hdr.payload data).length) :
    n > 0 ↔ hdr.payload data ≠ [] := by
  rw [gt_iff_lt, UInt16.lt_iff_toNat_lt, all, UInt16.toNat_zero, List.length_pos_iff]

/-- A segment that takes part in the opening of a connection has the number of its stream. -/
theorem Genuine.opening (genuine : Genuine irs stream hdr data) {flags : UInt8}
    (syn : hdr.flags &&& tcpCtl = flags) (among : flags &&& tcpSyn ≠ 0) :
    hdr.seqno.value = irs := by
  apply genuine.syn
  intro none
  apply among
  rw [← syn, UInt8.and_assoc]
  exact none

/-- Every segment of the peer keeps a connection following its stream. -/
theorem Follows.found (small : stream.length + 1 < 4294967296) (begins : got <+: stream)
    (follows : Follows irs got p.conn) (calls : p.calls = []) (whole : p.uipLen = hdr.len)
    (carries : Carries hdr p.data data) (genuine : Genuine irs stream hdr data)
    (found : Process.Found app hdr p r) :
    (delivery irs stream).told app got r.1.calls <+: stream ∧
      Follows irs ((delivery irs stream).told app got r.1.calls) r.1.conn := by
  have length := toNat_payloadLen genuine carries whole
  cases found with
  | quiet quiet goto =>
    rw [quiet.received calls]
    exact ⟨begins, Follows.late quiet.late⟩
  | refused quiet state reset =>
    rw [quiet.received calls]
    exact ⟨begins, Follows.late quiet.late⟩
  | still same goto strange =>
    rw [same.calls, calls]
    exact ⟨begins, follows.same same⟩
  | @connects q connects =>
    have all : q.uipLen.toNat = (hdr.payload data).length := by rw [connects.uipLen, length]
    have start := follows.synRcvd connects.before
    rw [Process.calls_appsend (connects.calls.trans calls), Contract.told_singleton]
    -- The stream starts with the data of this segment.
    have first : (q.shown 0).flags = { connected := true, newdata := decide (q.uipLen > 0) } :=
      connects.flags
    have rcvNxt := connects.rcvNxt
    change receive got (q.shown 0) <+: stream ∧ Follows irs (receive got (q.shown 0)) _
    unfold receive
    rw [first, if_pos rfl, List.nil_append]
    by_cases some : q.uipLen > 0
    · obtain ⟨plain, begins⟩ := genuine.next small List.nil_prefix start (connects.expected some)
        ((taken_iff all).mp some)
      rw [List.nil_append] at begins
      rw [if_pos some] at rcvNxt
      rw [if_pos (decide_eq_true some), bytes_shown carries connects.data plain all]
      refine ⟨begins, ((Follows.of_established connects.state ?_).appcall 0).appsend⟩
      rw [rcvNxt]
      exact value_addRcvNxt start all
    · rw [if_neg some] at rcvNxt
      rw [if_neg (by simpa using some)]
      refine ⟨List.nil_prefix, ((Follows.of_established connects.state ?_).appcall 0).appsend⟩
      rw [rcvNxt]
      exact start
  | @answers q answers =>
    rw [Process.calls_appsend (answers.calls.trans calls), Contract.told_singleton]
    have first : (q.shown 0).flags = { connected := true, newdata := true } := answers.flags
    have empty : (q.shown 0).bytes = [] := by
      have none : (q.shown 0).uipLen = 0 := answers.uipLen
      unfold AppCall.bytes
      rw [none]
      rfl
    change receive got (q.shown 0) <+: stream ∧ Follows irs (receive got (q.shown 0)) _
    unfold receive
    rw [first, if_pos rfl, if_pos rfl, empty, List.append_nil]
    refine ⟨List.nil_prefix, ((Follows.of_established answers.state ?_).appcall 0).appsend⟩
    -- The answer has the number that the stream starts behind.
    rw [answers.rcvNxt, value_uipAdd32, genuine.opening answers.syn (by decide)]
    rfl
  | @serves q skip skips serves =>
    rw [Process.calls_appsend (serves.calls.trans calls), Contract.told_singleton]
    -- No part of the data is urgent.
    have plain : ¬ hdr.flags &&& tcpUrg ≠ 0 := not_not.mpr genuine.urg
    have uipLen := serves.uipLen
    rw [if_neg plain] at skips uipLen
    rw [UInt16.sub_zero] at uipLen
    have none : skip = 0 := skips
    subst none
    have all : q.uipLen.toNat = (hdr.payload data).length := by rw [uipLen, length]
    have start := follows.established serves.before
    have flags : (q.shown 0).flags = { acked := (p.conn.acknowledge hdr).2
                                       newdata := decide (q.uipLen > 0 ∧
                                         ¬ p.conn.tcpstateflags.stopped) } := serves.flags
    have rcvNxt := serves.rcvNxt
    rw [serves.flags] at rcvNxt
    change receive got (q.shown 0) <+: stream ∧ Follows irs (receive got (q.shown 0)) _
    unfold receive
    rw [flags, if_neg Bool.false_ne_true]
    by_cases some : q.uipLen > 0 ∧ ¬ p.conn.tcpstateflags.stopped
    · have expected : hdr.seqno = p.conn.rcvNxt := by
        apply serves.expected
        rw [← uipLen]
        exact some.1
      obtain ⟨header, begins⟩ := genuine.next small begins start expected
        ((taken_iff all).mp some.1)
      rw [if_pos (decide_eq_true some), bytes_shown carries serves.data header all]
      rw [if_pos (decide_eq_true some)] at rcvNxt
      refine ⟨begins, ((Follows.of_established serves.state ?_).appcall 0).appsend⟩
      rw [rcvNxt, List.length_append, ← Nat.add_assoc]
      exact value_addRcvNxt start all
    · rw [decide_eq_false some, if_neg Bool.false_ne_true] at rcvNxt
      rw [decide_eq_false some, if_neg Bool.false_ne_true, List.append_nil]
      refine ⟨begins, ((Follows.of_established serves.state ?_).appcall 0).appsend⟩
      rw [rcvNxt]
      exact start
  | @ends q p' ends endpoint state rcvNxt told =>
    rw [told, calls, List.nil_append, Contract.told_singleton]
    have late : p'.conn.tcpstateflags.state.late := by
      rw [state]
      rfl
    refine ⟨?_, Follows.late late⟩
    have all : q.uipLen.toNat = (hdr.payload data).length := by rw [ends.uipLen, length]
    have start := follows.established ends.before
    have flags : (q.shown 0).flags = { acked := (p.conn.acknowledge hdr).2
                                       closed := true
                                       newdata := decide (q.uipLen > 0) } := ends.flags
    change receive got (q.shown 0) <+: stream
    unfold receive
    rw [flags, if_neg Bool.false_ne_true]
    by_cases some : q.uipLen > 0
    · obtain ⟨header, begins⟩ := genuine.next small begins start ends.expected
        ((taken_iff all).mp some)
      rw [if_pos (decide_eq_true some), bytes_shown carries ends.data header all]
      exact begins
    · rw [decide_eq_false some, if_neg Bool.false_ne_true, List.append_nil]
      exact begins

/-- The timer brings an application nothing, and keeps a connection following its stream. -/
theorem Follows.timed (follows : Follows irs got p.conn) (calls : p.calls = [])
    (timed : p.Timed app r) : (delivery irs stream).told app got r.1.calls = got ∧
      Follows irs got r.1.conn := by
  -- The timer takes no data.
  have silent {q : Process} (newdata : q.flags.newdata = false)
      (connected : q.flags.connected = false) :
      (delivery irs stream).told app got [q.shown 0] = got :=
    receive_nothing newdata connected
  cases timed with
  | quiet active quiet goto => exact ⟨quiet.received calls, Follows.late quiet.late⟩
  | idle same goto =>
    rw [same.calls, calls]
    exact ⟨rfl, follows.same same⟩
  | still active same goto =>
    rw [same.calls, calls]
    exact ⟨rfl, follows.same same⟩
  | rexmits same state outstanding flags slen =>
    rw [Process.apprexmit_fst, Process.appcall_calls, same.calls, calls, List.nil_append]
    exact ⟨silent (by rw [flags]) (by rw [flags]), (follows.same same).appcall 0⟩
  | polls same state none flags slen =>
    rw [Process.calls_appsend (same.calls.trans calls)]
    exact ⟨silent (by rw [flags]) (by rw [flags]), ((follows.same same).appcall 0).appsend⟩

/-- A connection whose peer sends a stream keeps to its contract. -/
theorem delivery_sound (small : stream.length + 1 < 4294967296) :
    (delivery irs stream).Sound := by
  -- A segment is delivered only where the last one has ended.
  constructor
  case start => exact List.nil_prefix
  case found =>
    intro app hdr p r got hears whole calls begins follows found _ _
    obtain ⟨data, carries, genuine⟩ := hears
    obtain ⟨begins, follows⟩ :=
      Follows.found small begins follows calls whole carries genuine found
    exact ⟨begins, follows, fun _ _ _ _ => trivial, fun _ _ _ => trivial⟩
  case timed =>
    intro app p r got _ calls begins follows timed _ _
    obtain ⟨same, follows⟩ : (delivery irs stream).told app got r.1.calls = got ∧
        Follows irs got r.1.conn := Follows.timed follows calls timed
    rw [same]
    exact ⟨begins, follows, fun _ _ _ _ => trivial, fun _ _ _ => trivial⟩
  case accepted =>
    intro hdr mem conn got hears syn begins state rcvNxt _ _
    obtain ⟨data, -, genuine⟩ := hears
    refine ⟨⟨fun _ => ?_, fun established => ?_⟩, fun _ _ _ => trivial⟩
    · rw [rcvNxt, value_uipAdd32, genuine.opening syn (by decide)]
      rfl
    · rw [state] at established
      cases established
  case connected =>
    intro conn got _ state _ _
    refine ⟨fun opened => ?_, fun established => ?_⟩
    · rw [state] at opened
      cases opened
    · rw [state] at established
      cases established
  case refused => exact fun _ => trivial

end Calls

/-- A host takes only genuine segments from a peer. -/
def Net.Hears (ends : Endpoint) (irs : Nat) (stream : List UInt8) (net : Net)
    (event : NetEvent) : Prop :=
  ∀ uipLen buf, event = .input uipLen buf → Accepted net uipLen buf → buf.hdr.endpoint = ends →
    ∃ data, Carries buf.hdr buf.data data ∧ Genuine irs stream buf.hdr data

/-- What a host can get to while it takes only genuine segments from a peer. -/
abbrev Net.ReachesHearing (ends : Endpoint) (irs : Nat) (stream : List UInt8) (start : Net) :
    Net → List Observed → Prop :=
  Run (fun net (label : (AppCall → List AppAction) × NetEvent) next shown =>
    net.Hears ends irs stream label.2 ∧ net.step label.1 label.2 = some (next, shown)) start

/-- A host that takes only genuine segments keeps to its contract. -/
theorem delivery_holds {ends : Endpoint} {irs : Nat} {stream : List UInt8} {start net : Net}
    {history : List Observed} (booted : start.Booted) (small : stream.length + 1 < 4294967296)
    (run : start.ReachesHearing ends irs stream net history) :
    (delivery irs stream).Holds ends history net := by
  apply (delivery_sound small).run booted
  · apply run.mono
    intro net label next shown taken
    exact ⟨⟨taken.1, Or.inl trivial⟩, taken.2⟩
  · exact ⟨fun _ _ _ _ _ _ => trivial, fun _ _ _ _ _ => trivial⟩

/-- A packet as it arrives is heard, if it is a segment of the stream. -/
theorem Net.hears_arriving {ends : Endpoint} {irs : Nat} {stream data : List UInt8}
    {hdr : TcpipHdr} (short : data.length ≤ uipTcpMss) (genuine : Genuine irs stream hdr data)
    (net : Net) : net.Hears ends irs stream (arriving hdr data) := by
  intro uipLen buf input _ _
  obtain ⟨rfl, rfl⟩ := NetEvent.input.inj input
  refine ⟨data, ⟨?_, ?_⟩, genuine.urg, genuine.size, genuine.syn, genuine.plain⟩
  · change (UInt16.ofNat (uipIptcphLen + data.length)).toNat = _
    have most : uipIptcphLen + uipTcpMss < 65536 := by decide
    rw [UInt16.toNat_ofNat']
    omega
  · intro k inside
    change data[k]?.getD 0 = _
    rw [List.getElem?_eq_getElem inside]
    rfl

/-- Two pieces of a stream, one of which arrives twice. -/
def pieces : List ((AppCall → List AppAction) × NetEvent) :=
  let hdr := blankHdr ⟨1, 2⟩ ⟨1, 3⟩ 7 80
  let syn : TcpipHdr := { hdr with flags := tcpSyn, seqno := Seqno.ofByte 9 }
  let first : TcpipHdr :=
    { hdr with flags := tcpAck, seqno := Seqno.ofByte 10, ackno := Seqno.ofByte 1 }
  [.listen 80, arriving syn [], arriving first [104], arriving first [104],
    arriving { first with seqno := Seqno.ofByte 11 } [105]].map (fun _ => [], ·)

/-- The pieces belong to a stream. -/
theorem hears_pieces : ∀ label ∈ pieces, ∀ net : Net,
    net.Hears ⟨⟨1, 2⟩, 7, 80⟩ 9 [104, 105, 33] label.2 := by
  -- One by one: the opening, the acknowledgement, and the pieces at their places.
  intro label member net
  simp only [pieces, List.map_cons, List.map_nil, List.mem_cons, List.not_mem_nil,
    or_false] at member
  rcases member with rfl | rfl | rfl | rfl | rfl
  · intro uipLen buf input
    cases input
  · apply Net.hears_arriving
    · decide
    · exact ⟨rfl, by decide, fun _ => rfl, fun none => absurd none (by decide)⟩
  · apply Net.hears_arriving
    · decide
    · exact ⟨rfl, by decide, fun syn => absurd rfl syn, fun _ _ => ⟨rfl, 0, by decide, rfl, rfl⟩⟩
  · apply Net.hears_arriving
    · decide
    · exact ⟨rfl, by decide, fun syn => absurd rfl syn, fun _ _ => ⟨rfl, 0, by decide, rfl, rfl⟩⟩
  · apply Net.hears_arriving
    · decide
    · exact ⟨rfl, by decide, fun syn => absurd rfl syn, fun _ _ => ⟨rfl, 1, by decide, rfl, rfl⟩⟩

/-- However a peer cuts its stream into segments, and whatever the network does to them: what the
application gets is the start of the stream, and an established connection acknowledges no more
and no less than that. -/
theorem Net.delivers_in_order {ends : Endpoint} {irs : Nat} {stream : List UInt8}
    {start net : Net} {history : List Observed} (booted : start.Booted)
    (small : stream.length + 1 < 4294967296)
    (run : start.ReachesHearing ends irs stream net history) :
    received ends history <+: stream ∧
      ∀ i, (net.conns i).tcpstateflags.state = .established → (net.conns i).endpoint = ends →
        (net.conns i).rcvNxt.value = (irs + 1 + (received ends history).length) % 4294967296 := by
  have holds := delivery_holds booted small run
  refine ⟨holds.good, ?_⟩
  intro i established same
  have active : (net.conns i).Active := by
    intro unused
    rw [unused] at established
    cases established
  exact (holds.conn i active same).established established

/-- Two pieces of a stream reach the application, the first of which arrives twice. -/
theorem Net.delivers_in_order_pieces : ∃ net history,
    takeSteps (fun net label => Net.step net label.1 label.2) (clearedHost ⟨1, 3⟩).uipInit pieces =
        some (net, history) ∧
      received ⟨⟨1, 2⟩, 7, 80⟩ history = [104, 105] ∧
      received ⟨⟨1, 2⟩, 7, 80⟩ history <+: [104, 105, 33] := by
  have ran : (takeSteps (fun net label => Net.step net label.1 label.2)
      (clearedHost ⟨1, 3⟩).uipInit pieces).map (fun r => received ⟨⟨1, 2⟩, 7, 80⟩ r.2) =
        some [104, 105] := by decide +kernel
  obtain ⟨⟨net, history⟩, taken, got⟩ := Option.map_eq_some_iff.mp ran
  have run : (clearedHost ⟨1, 3⟩).uipInit.ReachesHearing ⟨⟨1, 2⟩, 7, 80⟩ 9 [104, 105, 33] net
      history := run_of_takeSteps hears_pieces .start taken
  exact ⟨net, history, taken, got,
    (Net.delivers_in_order (clearedHost_booted ⟨1, 3⟩) (by decide) run).1⟩

end Egos.Uip
