import Egos.Uip.Delivery

/-! What a connection sends is the stream of its application, cut into segments. -/

namespace Egos.Uip

/-- What an application has sent: what its peer has acknowledged, and what is outstanding. -/
structure Outgoing where
  acked : List UInt8
  outstanding : List UInt8

/-- All that an application has sent. -/
def Outgoing.stream (out : Outgoing) : List UInt8 := out.acked ++ out.outstanding

/-- Takes an acknowledgement, if there is one. -/
def Outgoing.acknowledge (out : Outgoing) (acked : Bool) : Outgoing :=
  if acked then ⟨out.stream, []⟩ else out

/-- What is left in the packet buffer. -/
def lastSent (before : List UInt8) : AppAction → List UInt8
  | .send data => if data.length > 0 then data else before
  | .close | .abort | .stop | .restart => before

/-- The action ends its connection. -/
def AppAction.ends : AppAction → Bool
  | .close | .abort => true
  | .send _ | .stop | .restart => false

/-- What an application has sent after a call: as long as data is outstanding, there is none that
is new. -/
def Outgoing.answer (out : Outgoing) (call : AppCall) (actions : List AppAction) : Outgoing :=
  if out.outstanding = [] ∧ ¬ call.flags.ended ∧ ¬ actions.any AppAction.ends then
    ⟨out.acked, (actions.foldl lastSent []).take call.conn.mss.toNat⟩
  else out

/-- What an application has sent after one more call. -/
def transmit (out : Outgoing) (call : AppCall) (actions : List AppAction) : Outgoing :=
  (out.acknowledge call.flags.acked).answer call actions

/-- What the application of a connection has sent. -/
def transmitted (ends : Endpoint) (history : List Observed) : Outgoing :=
  history.foldl (record transmit ends) ⟨[], []⟩

/-- What an application has to do: as long as data is outstanding, it sends that again, if it
sends at all. -/
def Outgoing.Repeats (out : Outgoing) (actions : List AppAction) : Prop :=
  ∀ data, AppAction.send data ∈ actions →
    data.length < 65536 ∧ (data.length > 0 → out.outstanding <+: data)

section Buffer

variable {p : Process} {actions : List AppAction} {data : List UInt8}

/-- One action leaves the packet buffer alone or fills it anew. -/
theorem act_slen {action : AppAction}
    (short : ∀ data, action = AppAction.send data → data.length < 65536)
    (slen : p.slen.toNat = data.length) (holds : Holds p.data data) :
    (p.act action).slen.toNat = (lastSent data action).length ∧
      Holds (p.act action).data (lastSent data action) := by
  -- Only a send with data fills the buffer, and its length fits into the field.
  cases action with
  | send fresh =>
    have small := short fresh rfl
    simp only [Process.act, lastSent]
    by_cases some : fresh.length > 0
    · have length : (UInt16.ofNat fresh.length).toNat = fresh.length := by
        rw [UInt16.toNat_ofNat']
        omega
      rw [if_pos some, if_pos some]
      refine ⟨length, ?_⟩
      intro k inside
      have within : k < (UInt16.ofNat fresh.length).toNat := by omega
      simp only [if_pos within, List.getElem?_eq_getElem inside, Option.getD_some,
        List.get_eq_getElem]
    · rw [if_neg some, if_neg some]
      exact ⟨slen, holds⟩
  | close | abort | stop | restart => exact ⟨slen, holds⟩

/-- The packet buffer holds what was sent last. -/
theorem foldl_act_slen (short : ∀ data, AppAction.send data ∈ actions → data.length < 65536)
    (slen : p.slen.toNat = data.length) (holds : Holds p.data data) :
    (actions.foldl Process.act p).slen.toNat = (actions.foldl lastSent data).length ∧
      Holds (actions.foldl Process.act p).data (actions.foldl lastSent data) := by
  induction actions generalizing p data with
  | nil => exact ⟨slen, holds⟩
  | cons action actions ih =>
    rw [List.foldl_cons, List.foldl_cons]
    have first : ∀ data, action = AppAction.send data → data.length < 65536 := by
      intro data same
      apply short data
      rw [same]
      exact List.mem_cons_self
    obtain ⟨slen, holds⟩ := act_slen first slen holds
    apply ih _ slen holds
    intro data member
    exact short data (List.mem_cons_of_mem _ member)

/-- After a call the packet buffer holds what the application has sent last. -/
theorem appcall_buffer {app : AppCall → List AppAction} {skip : Nat} (slen : p.slen = 0)
    (short : ∀ data, AppAction.send data ∈ app (p.shown skip) → data.length < 65536) :
    (p.appcall app skip).slen.toNat = ((app (p.shown skip)).foldl lastSent []).length ∧
      Holds (p.appcall app skip).data ((app (p.shown skip)).foldl lastSent []) := by
  have empty : ({ p with calls := p.calls ++ [p.shown skip] } : Process).slen.toNat = 0 := by
    rw [slen]
    rfl
  apply foldl_act_slen short empty
  intro k inside
  cases inside

/-- The connection is asked to end exactly if one of the actions is to end it. -/
theorem foldl_act_ends (p : Process) (actions : List AppAction) :
    ((actions.foldl Process.act p).flags.aborted || (actions.foldl Process.act p).flags.closed) =
      (p.flags.aborted || p.flags.closed || actions.any AppAction.ends) := by
  induction actions generalizing p with
  | nil => simp
  | cons action actions ih =>
    rw [List.foldl_cons, ih, List.any_cons]
    cases action with
    | send data =>
      simp only [Process.act]
      split
      · rfl
      · rfl
    | close => simp [Process.act, AppAction.ends]
    | abort => simp [Process.act, AppAction.ends]
    | stop => rfl
    | restart => rfl

/-- An action does not make anything acknowledged. -/
theorem foldl_act_acked (acked : (actions.foldl Process.act p).flags.acked = true) :
    p.flags.acked = true := by
  induction actions generalizing p with
  | nil => exact acked
  | cons action actions ih =>
    have before := ih acked
    cases action with
    | send data =>
      simp only [Process.act] at before
      split at before
      · exact before
      · exact before
    | close => cases before
    | abort => cases before
    | stop => exact before
    | restart => exact before

/-- A call does not make anything acknowledged. -/
theorem appcall_acked {app : AppCall → List AppAction} (skip : Nat)
    (acked : (p.appcall app skip).flags.acked = true) : p.flags.acked = true :=
  foldl_act_acked (p := { p with calls := p.calls ++ [p.shown skip] }) acked

/-- What is sent again begins with what is outstanding. -/
theorem Outgoing.Repeats.lastSent {out : Outgoing} (repeats : out.Repeats actions)
    (before : data.length > 0 → out.outstanding <+: data) :
    (actions.foldl lastSent data).length > 0 →
      out.outstanding <+: actions.foldl lastSent data := by
  -- The last send with data counts, and each of them repeats what is outstanding.
  induction actions generalizing data with
  | nil => exact before
  | cons action actions ih =>
    have rest : out.Repeats actions := fun data member =>
      repeats data (List.mem_cons_of_mem _ member)
    rw [List.foldl_cons]
    apply ih rest
    cases action with
    | send fresh =>
      have fine := (repeats fresh List.mem_cons_self).2
      simp only [Uip.lastSent]
      split
      · rename_i some
        exact fun _ => fine some
      · exact before
    | close | abort | stop | restart => exact before

end Buffer

/-- The packet of a connection brings all of some data, or nothing at all. -/
def Goto.Brings (goto : Goto) (mem : Nat → UInt8) (data : List UInt8) : Prop :=
  goto.bare ∨ ∃ flags uipLen, goto = .tcpSendNoopts flags uipLen ∧
    flags &&& (tcpSyn ||| tcpUrg) = 0 ∧ (goto.behind mem = [] ∨ goto.behind mem = data)

section Answers

variable {app : AppCall → List AppAction} {p q : Process} {data : List UInt8} {out : Outgoing}

/-- The start of what memory holds. -/
theorem map_range_of_holds {mem : Nat → UInt8} (holds : Holds mem data) {count : Nat}
    (within : count ≤ data.length) : (List.range count).map mem = data.take count := by
  apply List.ext_getElem
  · rw [List.length_map, List.length_range, List.length_take]
    omega
  · intro k inside other
    rw [List.length_map, List.length_range] at inside
    rw [List.getElem_map, List.getElem_range, List.getElem_take, holds k (by omega)]
    rfl

/-- What is transmitted is the outstanding part of the buffer. -/
theorem apprexmit_brings (fits : p.conn.len ≤ segmentSize)
    (same : p.slen > 0 → (List.range p.conn.len.toNat).map p.data = data) :
    p.apprexmit.2.Brings p.data data := by
  -- What is sent again is the front of the buffer, as long as what is outstanding.
  have small : p.conn.len.toNat ≤ 366 := UInt16.le_iff_toNat_le.mp fits
  have forty : (UInt16.ofNat uipIptcphLen).toNat = 40 := rfl
  have sizes := headerSizes
  unfold Process.apprexmit
  split
  · rename_i sends
    right
    refine ⟨_, _, rfl, rfl, Or.inr ?_⟩
    have count : (p.conn.len + UInt16.ofNat uipIptcphLen).toNat - uipIptcphLen =
        p.conn.len.toNat := by
      rw [UInt16.toNat_add, forty]
      omega
    unfold Goto.behind
    dsimp only
    rw [count]
    exact same sends.1
  · split
    · right
      exact ⟨_, _, rfl, rfl, Or.inl rfl⟩
    · exact Or.inl rfl

/-- Limiting what is sent: only if nothing is outstanding, something new is. -/
theorem limit_len (acked : p.flags.acked = true → p.conn.len = 0) :
    p.limit.conn.len.toNat = (if p.conn.len = 0 then min p.slen.toNat p.conn.mss.toNat
        else p.conn.len.toNat) ∧ (p.limit.slen > 0 → p.slen > 0) := by
  -- The length is cut to the segment size, or to what is outstanding.
  unfold Process.limit
  by_cases sends : p.slen > 0
  · have outstanding : (if p.flags.acked then 0 else p.conn.len) = p.conn.len := by
      split
      · rename_i taken
        exact (acked taken).symm
      · rfl
    rw [if_pos sends]
    dsimp only
    rw [outstanding]
    by_cases fresh : p.conn.len = 0
    · rw [if_pos fresh, if_pos fresh]
      refine ⟨?_, fun _ => sends⟩
      dsimp only
      split
      · rename_i more
        have above := UInt16.lt_iff_toNat_lt.mp more
        omega
      · rename_i less
        have below := UInt16.le_iff_toNat_le.mp (UInt16.not_lt.mp less)
        omega
    · rw [if_neg fresh, if_neg fresh]
      exact ⟨rfl, fun _ => sends⟩
  · rw [if_neg sends]
    refine ⟨?_, fun more => more⟩
    have none : p.slen.toNat = 0 := by
      have below := UInt16.le_iff_toNat_le.mp (UInt16.not_lt.mp sends)
      exact Nat.le_zero.mp below
    split
    · rename_i zero
      rw [zero, none, Nat.zero_min]
      rfl
    · rfl

/-- Limiting what is sent keeps the buffer. -/
theorem limit_data (p : Process) : p.limit.data = p.data := by
  rw [Process.limit_eq]

/-- What is sent of the buffer is new data, or what is outstanding once more. -/
theorem limit_brings (slen : p.slen.toNat = data.length) (holds : Holds p.data data)
    (fits : p.limit.conn.Fits) (len : p.conn.len.toNat = out.outstanding.length)
    (acked : p.flags.acked = true → p.conn.len = 0)
    (begins : data.length > 0 → out.outstanding <+: data) :
    p.limit.conn.len.toNat = (if out.outstanding = [] then data.take p.conn.mss.toNat
        else out.outstanding).length ∧
      (Process.apprexmit { p.limit with conn := { p.limit.conn with nrtx := 0 } }).2.Brings p.data
        (if out.outstanding = [] then data.take p.conn.mss.toNat else out.outstanding) := by
  obtain ⟨limited, positive⟩ := limit_len acked
  have empty : p.conn.len = 0 ↔ out.outstanding = [] := by
    rw [← List.length_eq_zero_iff, ← len, ← UInt16.toNat_inj]
    rfl
  have some : p.limit.slen > 0 → data.length > 0 := by
    intro sends
    have more := UInt16.lt_iff_toNat_lt.mp (positive sends)
    rw [slen] at more
    exact more
  by_cases none : out.outstanding = []
  · -- Nothing is outstanding, so that the buffer is sent as far as a segment reaches.
    rw [if_pos none]
    rw [if_pos (empty.mpr none), slen] at limited
    have length : p.limit.conn.len.toNat = (data.take p.conn.mss.toNat).length := by
      rw [limited, List.length_take, Nat.min_comm]
    refine ⟨length, ?_⟩
    rw [← limit_data]
    refine apprexmit_brings (p := { p.limit with conn := { p.limit.conn with nrtx := 0 } })
      fits.len fun _ => ?_
    rw [limited, limit_data, map_range_of_holds holds (Nat.min_le_left _ _), List.take_eq_take_iff,
      Nat.min_comm]
    omega
  · rw [if_neg none]
    rw [if_neg (none ∘ empty.mp), len] at limited
    refine ⟨limited, ?_⟩
    rw [← limit_data]
    refine apprexmit_brings (p := { p.limit with conn := { p.limit.conn with nrtx := 0 } })
      fits.len fun sends => ?_
    have within := begins (some sends)
    rw [limited, limit_data, map_range_of_holds holds within.length_le]
    exact (List.prefix_iff_eq_take.mp within).symm

/-- A call is answered with the end of the connection exactly if the application asks for it. -/
theorem appcall_ends (app : AppCall → List AppAction) (skip : Nat)
    (ended : q.flags.ended = false) :
    ((q.appcall app skip).flags.aborted || (q.appcall app skip).flags.closed) =
      (app (q.shown skip)).any AppAction.ends := by
  have running : (q.flags.aborted || q.flags.closed) = false := by
    unfold Flags.ended at ended
    rw [Bool.or_eq_false_iff, Bool.or_eq_false_iff] at ended
    rw [ended.1.1, ended.1.2]
    rfl
  have after := foldl_act_ends { q with calls := q.calls ++ [q.shown skip] } (app (q.shown skip))
  change _ = (q.flags.aborted || q.flags.closed || _) at after
  rw [running, Bool.false_or] at after
  exact after

/-- The application has asked for the end. -/
theorem appsend_over (skip : Nat) (ended : q.flags.ended = false)
    (asks : (app (q.shown skip)).any AppAction.ends = true) :
    (q.appcall app skip).appsend.1.conn.tcpstateflags.state.late ∧
      (q.appcall app skip).appsend.2.bare := by
  have asked := appcall_ends app skip ended
  rw [asks, Bool.or_eq_true] at asked
  unfold Process.appsend
  split
  · exact ⟨rfl, rfl⟩
  · rename_i kept
    rw [if_pos (asked.resolve_left kept)]
    exact ⟨rfl, rfl⟩

/-- The application has not asked for the end. -/
theorem appsend_goesOn (skip : Nat) (ended : q.flags.ended = false)
    (goesOn : (app (q.shown skip)).any AppAction.ends = false) :
    (q.appcall app skip).appsend = Process.apprexmit { (q.appcall app skip).limit with
      conn := { (q.appcall app skip).limit.conn with nrtx := 0 } } := by
  have asked := appcall_ends app skip ended
  rw [goesOn, Bool.or_eq_false_iff] at asked
  unfold Process.appsend
  rw [asked.1, asked.2, if_neg Bool.false_ne_true, if_neg Bool.false_ne_true]

/-- What an application answers to a call ends the connection, or sends what is new or, once more,
what is outstanding. -/
theorem appsend_brings (skip : Nat) (slen : q.slen = 0)
    (fits : (q.appcall app skip).appsend.1.conn.Fits)
    (len : q.conn.len.toNat = out.outstanding.length)
    (acked : q.flags.acked = true → q.conn.len = 0) (ended : q.flags.ended = false)
    (repeats : out.Repeats (app (q.shown skip))) :
    (q.appcall app skip).appsend.1.conn.tcpstateflags.state.late ∧
        (q.appcall app skip).appsend.2.bare ∧
        out.answer (q.shown skip) (app (q.shown skip)) = out ∨
      (q.appcall app skip).appsend.1.conn.tcpstateflags.state = q.conn.tcpstateflags.state ∧
        (q.appcall app skip).appsend.1.conn.len.toNat =
          (out.answer (q.shown skip) (app (q.shown skip))).outstanding.length ∧
        (out.answer (q.shown skip) (app (q.shown skip))).acked = out.acked ∧
        (q.appcall app skip).appsend.2.Brings (q.appcall app skip).appsend.1.data
          (out.answer (q.shown skip) (app (q.shown skip))).outstanding := by
  -- The first case is an application that closes; the others are told apart by what is outstanding.
  cases asks : (app (q.shown skip)).any AppAction.ends with
  | true =>
    left
    obtain ⟨late, bare⟩ := appsend_over skip ended asks
    refine ⟨late, bare, ?_⟩
    apply if_neg
    intro both
    exact both.2.2 asks
  | false =>
    right
    rw [appsend_goesOn skip ended asks, Process.apprexmit_fst] at fits ⊢
    obtain ⟨filled, holds⟩ := appcall_buffer slen fun data member => (repeats data member).1
    have kept : (q.appcall app skip).flags.acked = true → (q.appcall app skip).conn.len = 0 := by
      intro taken
      rw [Process.appcall_len]
      exact acked (appcall_acked skip taken)
    have begins : ((app (q.shown skip)).foldl lastSent []).length > 0 →
        out.outstanding <+: (app (q.shown skip)).foldl lastSent [] :=
      repeats.lastSent fun some => absurd some (Nat.lt_irrefl 0)
    have same : (q.appcall app skip).conn.len = q.conn.len := Process.appcall_len skip
    rw [← same] at len
    obtain ⟨length, brings⟩ := limit_brings filled holds ⟨fits.len, fits.mss, fits.initialmss⟩
      len kept begins
    have state : (q.appcall app skip).limit.conn.tcpstateflags.state =
        q.conn.tcpstateflags.state := by
      rw [Process.limit_eq]
      exact Process.appcall_state skip
    have answered : out.answer (q.shown skip) (app (q.shown skip)) =
        ⟨out.acked, if out.outstanding = [] then
          ((app (q.shown skip)).foldl lastSent []).take (q.appcall app skip).conn.mss.toNat
        else out.outstanding⟩ := by
      have goesOn : ¬ (q.shown skip).flags.ended = true := Bool.eq_false_iff.mp ended
      have stays : ¬ (app (q.shown skip)).any AppAction.ends = true := Bool.eq_false_iff.mp asks
      have mss : (q.shown skip).conn.mss = (q.appcall app skip).conn.mss := by
        rw [Process.appcall_conn]
        rfl
      unfold Outgoing.answer
      by_cases none : out.outstanding = []
      · rw [if_pos none, if_pos ⟨none, goesOn, stays⟩, mss]
      · rw [if_neg none, if_neg fun all => none all.1]
    rw [answered]
    refine ⟨state, length, rfl, ?_⟩
    rw [limit_data]
    exact brings

end Answers

section Segments

variable {irs : Nat} {stream data : List UInt8} {hdr : TcpipHdr}

/-- What is a segment of a stream is one of every longer stream. -/
theorem Genuine.mono {longer : List UInt8} (genuine : Genuine irs stream hdr data)
    (begins : stream <+: longer) : Genuine irs longer hdr data := by
  refine ⟨genuine.urg, genuine.size, genuine.syn, ?_⟩
  intro plain some
  obtain ⟨header, position, room, seqno, bytes⟩ := genuine.plain plain some
  refine ⟨header, position, room.trans begins.length_le, seqno, ?_⟩
  obtain ⟨rest, rfl⟩ := begins
  rw [List.drop_append_of_le_length (by omega), List.take_append_of_le_length]
  · exact bytes
  · rw [List.length_drop]
    omega

/-- A segment without options brings a piece of the stream, or nothing. -/
theorem Genuine.of_plain (flags : hdr.flags &&& (tcpSyn ||| tcpUrg) = 0)
    (tcpoffset : hdr.tcpoffset = 0x50)
    (piece : data = [] ∨ ∃ position, position + data.length ≤ stream.length ∧
      hdr.seqno.value = (irs + 1 + position) % 4294967296 ∧
      data = (stream.drop position).take data.length) : Genuine irs stream hdr data := by
  -- Without options the data is the payload.
  have header : hdr.headerSize = uipTcphLen := by
    unfold TcpipHdr.headerSize
    rw [tcpoffset]
    rfl
  have payload : hdr.payload data = data := by
    unfold TcpipHdr.payload
    rw [header, Nat.sub_self, List.drop_zero]
  have unset {flag : UInt8} (among : (tcpSyn ||| tcpUrg) &&& flag = flag) :
      hdr.flags &&& flag = 0 := by
    by_contra set
    exact flags_of_flag among set flags
  constructor
  case urg => exact unset rfl
  case size =>
    rw [header]
    exact ⟨Nat.le_refl _, Nat.le_add_right _ _⟩
  case syn =>
    intro syn
    exact absurd (unset rfl) syn
  case plain =>
    intro _ some
    rw [payload] at some ⊢
    exact ⟨header, piece.resolve_left some⟩

/-- A segment that opens a connection brings no more than its options. -/
theorem Genuine.of_syn (flags : hdr.flags &&& tcpUrg = 0) (tcpoffset : hdr.tcpoffset = 0x60)
    (length : data.length = 4) (seqno : hdr.seqno.value = irs) : Genuine irs stream hdr data := by
  -- The header with the options is as long as the segment, so that no data follows.
  have header : hdr.headerSize = uipTcphLen + data.length := by
    unfold TcpipHdr.headerSize
    rw [tcpoffset, length]
    rfl
  have payload : hdr.payload data = [] := by
    unfold TcpipHdr.payload
    rw [header, Nat.add_sub_cancel_left, List.drop_length]
  constructor
  case urg => exact flags
  case size =>
    rw [header]
    exact ⟨Nat.le_add_right _ _, Nat.le_refl _⟩
  case syn => exact fun _ => seqno
  case plain =>
    intro _ some
    exact absurd payload some

end Segments

/-- A connection sends what is outstanding, behind what its peer has acknowledged. -/
structure Sending (iss : Nat) (out : Outgoing) (conn : Conn) : Prop where
  opening : conn.tcpstateflags.state = .synRcvd ∨ conn.tcpstateflags.state = .synSent →
    conn.sndNxt.value = iss ∧ conn.len = 1 ∧ out = ⟨[], []⟩
  established : conn.tcpstateflags.state = .established →
    conn.sndNxt.value = (iss + 1 + out.acked.length) % 4294967296 ∧
      conn.len.toNat = out.outstanding.length

/-- The packets of a connection, if it sends any, are segments of a stream. -/
def Speaks (iss : Nat) (stream : List UInt8) (conn : Conn) (goto : Goto)
    (mem : Nat → UInt8) : Prop :=
  ∀ hostaddr hdr, Emits hostaddr conn goto.flags goto.tcpoffset hdr (goto.behind mem) →
    Genuine iss stream hdr (goto.behind mem)

/-- The contract of a connection that sends the stream of its application. -/
def transmission (iss : Nat) : Contract Outgoing where
  start := ⟨[], []⟩
  note := transmit
  good _ := True
  conn := Sending iss
  packet out hdr data := Genuine iss out.stream hdr data
  hears _ _ := True
  polled := False
  answers out call actions := (out.acknowledge call.flags.acked).Repeats actions
  opens out conn := out = ⟨[], []⟩ ∧ conn.sndNxt.value = iss

section Connections

variable {app : AppCall → List AppAction} {iss : Nat} {out : Outgoing}
variable {hdr : TcpipHdr} {p q : Process} {r : Process × Goto} {mem : Nat → UInt8}

/-- A connection that is over or about to be sends no more of its stream. -/
theorem Sending.late {conn : Conn} (late : conn.tcpstateflags.state.late) :
    Sending iss out conn := by
  constructor
  · rintro (state | state)
    · rw [state] at late
      cases late
    · rw [state] at late
      cases late
  · intro state
    rw [state] at late
    cases late

/-- A packet without data is a segment of every stream. -/
theorem speaks_of_bare {stream : List UInt8} {conn : Conn} {goto : Goto} (bare : goto.bare) :
    Speaks iss stream conn goto mem := by
  intro hostaddr hdr emits
  obtain ⟨flags, tcpoffset, behind⟩ : goto.flags &&& (tcpSyn ||| tcpUrg) = 0 ∧
      goto.tcpoffset = 0x50 ∧ goto.behind mem = [] := by
    cases goto with
    | tcpSendNodata flags => exact ⟨of_decide_eq_true bare, rfl, rfl⟩
    | drop | tcpSendFinack | tcpSendAck => exact ⟨by decide, rfl, rfl⟩
    | reset | tcpSendSynack | tcpSendSyn | tcpSendNoopts => cases bare
  rw [← emits.flags] at flags
  rw [← emits.tcpoffset] at tcpoffset
  exact Genuine.of_plain flags tcpoffset (Or.inl behind)

/-- A packet that opens a connection has the number that its stream starts behind. -/
theorem speaks_of_syn {stream : List UInt8} {conn : Conn} {goto : Goto}
    (syn : goto = .tcpSendSynack ∨ goto = .tcpSendSyn) (sndNxt : conn.sndNxt.value = iss) :
    Speaks iss stream conn goto mem := by
  intro hostaddr hdr emits
  obtain ⟨flags, tcpoffset, behind⟩ : goto.flags &&& tcpUrg = 0 ∧ goto.tcpoffset = 0x60 ∧
      (goto.behind mem).length = 4 := by
    rcases syn with rfl | rfl
    · exact ⟨by decide, rfl, rfl⟩
    · exact ⟨by decide, rfl, rfl⟩
  rw [← emits.flags] at flags
  rw [← emits.tcpoffset] at tcpoffset
  apply Genuine.of_syn flags tcpoffset behind
  rw [emits.seqno]
  exact sndNxt

/-- A packet with all outstanding data is the last segment of the stream. -/
theorem Sending.speaks {conn : Conn} {goto : Goto} (sending : Sending iss out conn)
    (state : conn.tcpstateflags.state = .established) (brings : goto.Brings mem out.outstanding) :
    Speaks iss out.stream conn goto mem := by
  -- The number of a segment is that of the first byte that is not acknowledged.
  rcases brings with bare | ⟨flags, uipLen, rfl, plain, data⟩
  · exact speaks_of_bare bare
  · intro hostaddr hdr emits
    obtain ⟨sndNxt, -⟩ := sending.established state
    have flags := emits.flags
    have tcpoffset := emits.tcpoffset
    have unset : hdr.flags &&& (tcpSyn ||| tcpUrg) = 0 := by
      rw [flags]
      exact plain
    apply Genuine.of_plain unset tcpoffset
    rcases data with none | all
    · exact Or.inl none
    · right
      rw [all]
      refine ⟨out.acked.length, ?_, ?_, ?_⟩
      · exact Nat.le_of_eq List.length_append.symm
      · rw [emits.seqno]
        exact sndNxt
      · unfold Outgoing.stream
        rw [List.drop_left, List.take_length]

/-- What an application has sent after one call. -/
theorem transmission_told (app : AppCall → List AppAction) (call : AppCall) :
    (transmission iss).told app out [call] =
      (out.acknowledge call.flags.acked).answer call (app call) := rfl

/-- A connection goes on sending after the application has answered a call. -/
theorem Sending.answer {skip : Nat} {acked : Bool} (none : q.calls = []) (slen : q.slen = 0)
    (state : q.conn.tcpstateflags.state = .established) (flags : q.flags.acked = acked)
    (ended : q.flags.ended = false) (sending : Sending iss (out.acknowledge acked) q.conn)
    (empty : acked = true → q.conn.len = 0) (fits : (q.appcall app skip).appsend.1.conn.Fits)
    (repeats : ∀ call ∈ (q.appcall app skip).appsend.1.calls,
      (out.acknowledge call.flags.acked).Repeats (app call)) :
    Sending iss ((transmission iss).told app out (q.appcall app skip).appsend.1.calls)
        (q.appcall app skip).appsend.1.conn ∧
      Speaks iss ((transmission iss).told app out (q.appcall app skip).appsend.1.calls).stream
        (q.appcall app skip).appsend.1.conn (q.appcall app skip).appsend.2
        (q.appcall app skip).appsend.1.data := by
  -- What the application sends is appended, or is what it has sent before.
  subst flags
  obtain ⟨sndNxt, len⟩ := sending.established state
  rw [Process.calls_appsend none] at repeats
  rw [Process.calls_appsend none, transmission_told]
  have contract := repeats (q.shown skip) (List.mem_singleton.mpr rfl)
  have answered := appsend_brings skip slen fits len empty ended contract
  rw [state] at answered
  rcases answered with ⟨late, bare, stays⟩ | ⟨state, len, taken, brings⟩
  · exact ⟨Sending.late late, speaks_of_bare bare⟩
  · have keeps : (q.appcall app skip).appsend.1.conn.sndNxt = q.conn.sndNxt := by
      rw [Process.appsend_keeps.2.2.1, Process.appcall_sndNxt]
    have after : Sending iss ((out.acknowledge (q.shown skip).flags.acked).answer (q.shown skip)
        (app (q.shown skip))) (q.appcall app skip).appsend.1.conn := by
      constructor
      · intro opening
        rw [state] at opening
        rcases opening with opening | opening
        · cases opening
        · cases opening
      · intro _
        refine ⟨?_, len⟩
        rw [keeps, sndNxt]
        exact congrArg (fun taken : List UInt8 => (iss + 1 + taken.length) % 4294967296) taken.symm
    exact ⟨after, after.speaks state brings⟩

/-- A connection transmits once more what is outstanding. -/
theorem Sending.again (sending : Sending iss out q.conn) (none : q.calls = []) (slen : q.slen = 0)
    (state : q.conn.tcpstateflags.state = .established) (flags : q.flags = { rexmit := true })
    (outstanding : q.conn.len ≠ 0) (fits : (q.appcall app 0).apprexmit.1.conn.Fits)
    (repeats : ∀ call ∈ (q.appcall app 0).apprexmit.1.calls,
      (out.acknowledge call.flags.acked).Repeats (app call)) :
    Sending iss ((transmission iss).told app out (q.appcall app 0).apprexmit.1.calls)
        (q.appcall app 0).apprexmit.1.conn ∧
      Speaks iss ((transmission iss).told app out (q.appcall app 0).apprexmit.1.calls).stream
        (q.appcall app 0).apprexmit.1.conn (q.appcall app 0).apprexmit.2
        (q.appcall app 0).apprexmit.1.data := by
  obtain ⟨sndNxt, len⟩ := sending.established state
  rw [Process.apprexmit_fst] at fits repeats ⊢
  rw [Process.appcall_calls, none, List.nil_append] at repeats ⊢
  rw [transmission_told]
  have acked : (q.shown 0).flags.acked = false := congrArg Flags.acked flags
  have contract := repeats (q.shown 0) (List.mem_singleton.mpr rfl)
  rw [acked] at contract ⊢
  -- Nothing new is sent while data is outstanding.
  have some : ¬ out.outstanding = [] := by
    intro empty
    apply outstanding
    rw [empty] at len
    exact UInt16.toNat_inj.mp len
  have stays : (out.acknowledge false).answer (q.shown 0) (app (q.shown 0)) = out :=
    if_neg fun all => some all.1
  have conn : (q.appcall app 0).conn = { q.conn with tcpstateflags :=
      ⟨q.conn.tcpstateflags.state, (q.appcall app 0).conn.tcpstateflags.stopped⟩ } :=
    Process.appcall_conn 0
  have after : Sending iss out (q.appcall app 0).conn := by
    obtain ⟨opening, established⟩ := sending
    rw [conn]
    exact ⟨opening, established⟩
  rw [stays]
  refine ⟨after, after.speaks ((Process.appcall_state 0).trans state) ?_⟩
  apply apprexmit_brings fits.len
  intro sends
  obtain ⟨length, holds⟩ := appcall_buffer slen fun data member => (contract data member).1
  have filled : ((app (q.shown 0)).foldl lastSent []).length > 0 := by
    have more := UInt16.lt_iff_toNat_lt.mp sends
    rw [length] at more
    exact more
  have within : out.outstanding <+: (app (q.shown 0)).foldl lastSent [] := by
    apply Outgoing.Repeats.lastSent contract _ filled
    intro some
    exact absurd some (Nat.lt_irrefl 0)
  have count : (q.appcall app 0).conn.len.toNat = out.outstanding.length := by
    rw [Process.appcall_len, len]
  rw [count, map_range_of_holds holds within.length_le]
  exact (List.prefix_iff_eq_take.mp within).symm

/-- A connection that goes on as before sends as before. -/
theorem Sending.same (sending : Sending iss out p.conn) (same : p.Same q) :
    Sending iss out q.conn := by
  obtain ⟨opening, established⟩ := sending
  rw [← same.state, ← same.sndNxt, ← same.len] at opening established
  exact ⟨opening, established⟩

/-- An acknowledgement of the opening leaves nothing outstanding. -/
theorem Sending.opened (sending : Sending iss out p.conn)
    (state : p.conn.tcpstateflags.state = .synRcvd ∨ p.conn.tcpstateflags.state = .synSent)
    (sndNxt : q.conn.sndNxt = uipAdd32 p.conn.sndNxt p.conn.len) (len : q.conn.len = 0)
    (established : q.conn.tcpstateflags.state = .established) :
    Sending iss (out.acknowledge false) q.conn := by
  obtain ⟨first, one, empty⟩ := sending.opening state
  rw [one] at sndNxt
  subst empty
  constructor
  · intro opening
    rw [established] at opening
    rcases opening with opening | opening
    · cases opening
    · cases opening
  · intro _
    rw [sndNxt, value_uipAdd32, first, len]
    exact ⟨rfl, rfl⟩

/-- An acknowledgement of data leaves nothing outstanding. -/
theorem Sending.acknowledged (sending : Sending iss out p.conn)
    (state : p.conn.tcpstateflags.state = .established)
    (sndNxt : q.conn.sndNxt = (p.conn.acknowledge hdr).1.sndNxt)
    (len : q.conn.len = (p.conn.acknowledge hdr).1.len)
    (established : q.conn.tcpstateflags.state = .established) :
    Sending iss (out.acknowledge (p.conn.acknowledge hdr).2) q.conn := by
  -- An acknowledgement covers all that is outstanding, or nothing.
  obtain ⟨next, outstanding⟩ := sending.established state
  constructor
  · intro opening
    rw [established] at opening
    rcases opening with opening | opening
    · cases opening
    · cases opening
  · intro _
    rw [sndNxt, len]
    rcases p.conn.acknowledge_cases hdr with none | ⟨-, -, sa, sv, rto, all⟩
    · rw [none]
      exact ⟨next, outstanding⟩
    · rw [all]
      refine ⟨?_, rfl⟩
      have length : (out.acknowledge true).acked.length =
          out.acked.length + out.outstanding.length := List.length_append
      dsimp only
      rw [value_uipAdd32, next, outstanding, length]
      omega

/-- Every segment of the peer leaves a connection sending its stream. -/
theorem Sending.found (sending : Sending iss out p.conn) (calls : p.calls = [])
    (found : Process.Found app hdr p r) (fits : r.1.conn.Fits)
    (repeats : ∀ call ∈ r.1.calls, (out.acknowledge call.flags.acked).Repeats (app call)) :
    Sending iss ((transmission iss).told app out r.1.calls) r.1.conn ∧
      (r.2 ≠ .reset → Speaks iss ((transmission iss).told app out r.1.calls).stream r.1.conn r.2
        r.1.data) := by
  -- Only an acknowledgement and an answer of the application change what is outstanding.
  cases found with
  | quiet quiet goto =>
    exact ⟨Sending.late quiet.late, fun _ => speaks_of_bare (Goto.bare_of_drop goto)⟩
  | refused quiet state reset => exact ⟨Sending.late quiet.late, fun other => absurd reset other⟩
  | still same goto strange =>
    rw [same.calls, calls]
    exact ⟨sending.same same, fun _ => speaks_of_bare (Goto.bare_of_ack goto)⟩
  | connects connects =>
    have opened := sending.opened (Or.inl connects.before) connects.sndNxt connects.len
      connects.state
    obtain ⟨sends, speaks⟩ := Sending.answer (connects.calls.trans calls)
      connects.slen connects.state (by rw [connects.flags]) (by rw [connects.flags]; rfl) opened
      (fun taken => by cases taken) fits repeats
    exact ⟨sends, fun _ => speaks⟩
  | answers answers =>
    have opened := sending.opened (Or.inr answers.before) answers.sndNxt answers.len answers.state
    obtain ⟨sends, speaks⟩ := Sending.answer (answers.calls.trans calls)
      answers.slen answers.state (by rw [answers.flags]) (by rw [answers.flags]; rfl) opened
      (fun taken => by cases taken) fits repeats
    exact ⟨sends, fun _ => speaks⟩
  | @serves q skip skips serves =>
    have taken := sending.acknowledged serves.before serves.sndNxt serves.len serves.state
    have empty : (p.conn.acknowledge hdr).2 = true → q.conn.len = 0 := by
      intro acked
      rw [serves.len]
      rcases p.conn.acknowledge_cases hdr with none | ⟨-, -, sa, sv, rto, all⟩
      · rw [none] at acked
        cases acked
      · rw [all]
    obtain ⟨sends, speaks⟩ := Sending.answer (serves.calls.trans calls)
      serves.slen serves.state (by rw [serves.flags]) (by rw [serves.flags]; rfl) taken empty fits
      repeats
    exact ⟨sends, fun _ => speaks⟩
  | ends ends endpoint state rcvNxt told =>
    refine ⟨Sending.late ?_, fun _ => speaks_of_bare rfl⟩
    rw [state]
    rfl

/-- The timer leaves a connection sending its stream. -/
theorem Sending.timed (sending : Sending iss out p.conn) (calls : p.calls = []) (slen : p.slen = 0)
    (timed : p.Timed app r) (fits : r.1.conn.Fits)
    (repeats : ∀ call ∈ r.1.calls, (out.acknowledge call.flags.acked).Repeats (app call)) :
    Sending iss ((transmission iss).told app out r.1.calls) r.1.conn ∧
      Speaks iss ((transmission iss).told app out r.1.calls).stream r.1.conn r.2 r.1.data := by
  -- The timer sends what is outstanding once more, or asks for more.
  cases timed with
  | quiet active quiet goto =>
    refine ⟨Sending.late quiet.late, ?_⟩
    rcases goto with drop | nodata
    · rw [drop]
      exact speaks_of_bare rfl
    · rw [nodata]
      exact speaks_of_bare rfl
  | idle same goto =>
    rw [same.calls, calls, goto]
    exact ⟨sending.same same, speaks_of_bare rfl⟩
  | still active same goto =>
    rw [same.calls, calls]
    refine ⟨sending.same same, ?_⟩
    rcases goto with ⟨finack, -⟩ | ⟨synack, state⟩ | ⟨syn, state⟩
    · rw [finack]
      exact speaks_of_bare rfl
    · apply speaks_of_syn (Or.inl synack)
      rw [same.sndNxt]
      exact (sending.opening (Or.inl state)).1
    · apply speaks_of_syn (Or.inr syn)
      rw [same.sndNxt]
      exact (sending.opening (Or.inr state)).1
  | rexmits same state outstanding flags empty =>
    rw [← same.len] at outstanding
    exact (sending.same same).again (same.calls.trans calls) (empty.trans slen)
      (same.state.trans state) flags outstanding fits repeats
  | @polls q same state none flags empty =>
    have still : Sending iss (out.acknowledge false) q.conn := sending.same same
    exact Sending.answer (same.calls.trans calls) (empty.trans slen)
      (same.state.trans state) (by rw [flags]) (by rw [flags]; rfl) still
      (fun taken => by cases taken) fits repeats

end Connections

/-- An application does not take back what it has sent. -/
theorem transmit_grows (out : Outgoing) (call : AppCall) (actions : List AppAction) :
    out.stream <+: (transmit out call actions).stream := by
  have same : (out.acknowledge call.flags.acked).stream = out.stream := by
    unfold Outgoing.acknowledge
    split
    · exact List.append_nil _
    · rfl
  rw [← same]
  unfold transmit Outgoing.answer
  split
  · rename_i fresh
    unfold Outgoing.stream
    rw [fresh.1, List.append_nil]
    exact List.prefix_append _ _
  · exact List.prefix_rfl

/-- A connection that sends the stream of its application keeps to its contract. -/
theorem transmission_sound (iss : Nat) : (transmission iss).Sound := by
  -- Connections start sending when they are established, and stop with their end.
  have grows {app : AppCall → List AppAction} {out : Outgoing} {calls : List AppCall} :
      ∀ hdr data, (transmission iss).packet out hdr data →
        (transmission iss).packet ((transmission iss).told app out calls) hdr data := by
    intro hdr data genuine
    unfold Contract.told
    induction calls generalizing out with
    | nil => exact genuine
    | cons call calls ih => exact ih (genuine.mono (transmit_grows out call (app call)))
  constructor
  case start => exact trivial
  case found =>
    intro app hdr p r out _ _ calls _ sending found fits answers
    obtain ⟨next, speaks⟩ := Sending.found sending calls found fits answers
    exact ⟨trivial, next, speaks, grows⟩
  case timed =>
    intro app p r out slen calls _ sending timed fits answers
    obtain ⟨next, speaks⟩ := Sending.timed sending calls (slen.resolve_right not_false) timed fits
      answers
    exact ⟨trivial, next, fun _ => speaks, grows⟩
  case accepted =>
    intro hdr mem conn out _ _ _ state _ len opens
    obtain ⟨rfl, sndNxt⟩ := opens
    refine ⟨⟨fun _ => ⟨sndNxt, len, rfl⟩, fun established => ?_⟩, ?_⟩
    · rw [state] at established
      cases established
    · exact speaks_of_syn (Or.inl rfl) sndNxt
  case connected =>
    intro conn out _ state len opens
    obtain ⟨rfl, sndNxt⟩ := opens
    refine ⟨fun _ => ⟨sndNxt, len, rfl⟩, fun established => ?_⟩
    rw [state] at established
    cases established
  case refused =>
    intro hostaddr hdr out resets
    apply Genuine.of_plain _ resets.tcpoffset (Or.inl rfl)
    rw [resets.flags]
    decide

/-- A connection with a peer is opened once at most, and starts with a number. -/
structure Once (ends : Endpoint) (iss : Nat) (history : List Observed) : Prop where
  single : (openings ends history).length ≤ 1
  iss : ∀ conn ∈ openings ends history, conn.sndNxt.value = iss

/-- The application of a connection sends again what is outstanding whenever it sends. -/
def Faithful (ends : Endpoint) (history : List Observed) : Prop :=
  ∀ before call actions after, history = before ++ .called call actions :: after →
    call.conn.endpoint = ends →
      ((transmitted ends before).acknowledge call.flags.acked).Repeats actions

/-- What a host can get to without a request for new data: these leave in the buffer what another
connection has sent. -/
abbrev Net.ReachesUnpolled (start : Net) : Net → List Observed → Prop :=
  Run (fun net (label : (AppCall → List AppAction) × NetEvent) next shown =>
    (∀ j, label.2 ≠ .poll j) ∧ net.step label.1 label.2 = some (next, shown)) start

section Openings

variable {ends : Endpoint} {iss : Nat} {history before rest : List Observed} {conn : Conn}

/-- A connection that is opened once at most starts from some number. -/
theorem Once.of_single (single : (openings ends history).length ≤ 1) :
    ∃ iss, Once ends iss history := by
  cases opened : openings ends history with
  | nil =>
    refine ⟨0, single, ?_⟩
    intro conn member
    rw [opened] at member
    cases member
  | cons first rest =>
    refine ⟨first.sndNxt.value, single, ?_⟩
    intro conn member
    rw [opened] at single member
    rw [List.length_cons] at single
    have none : rest = [] := List.length_eq_zero_iff.mp (by omega)
    rw [none] at member
    rw [List.mem_singleton.mp member]

/-- A connection that is opened once was not opened before that. -/
theorem openings_before (single : (openings ends history).length ≤ 1)
    (split : history = before ++ .opened conn :: rest) (same : conn.endpoint = ends) :
    openings ends before = [] ∧ conn ∈ openings ends history := by
  have here : openings ends (.opened conn :: rest) = conn :: openings ends rest := by
    unfold openings
    rw [List.filterMap_cons]
    simp only [opening, if_pos same]
  have whole : openings ends history = openings ends before ++ conn :: openings ends rest := by
    rw [split, openings_append, here]
  constructor
  · rw [whole, List.length_append, List.length_cons] at single
    exact List.length_eq_zero_iff.mp (by omega)
  · rw [whole]
    exact List.mem_append_right _ List.mem_cons_self

end Openings

/-- A host that sends the stream of an application keeps to its contract. -/
theorem transmission_holds {start net : Net} {ends : Endpoint} {iss : Nat}
    {history : List Observed} (booted : start.Booted) (run : start.ReachesUnpolled net history)
    (once : Once ends iss history) (faithful : Faithful ends history) :
    (transmission iss).Holds ends history net := by
  have opened : Opened history net := by
    apply Net.Reaches.opened booted
    exact run.mono fun _ _ _ _ taken => taken.2
  apply (transmission_sound iss).run booted
  · apply run.mono
    intro net label next shown taken
    exact ⟨⟨fun _ _ _ _ _ => trivial, Or.inr taken.1⟩, taken.2⟩
  · refine ⟨faithful, ?_⟩
    intro before conn rest split same
    obtain ⟨first, member⟩ := openings_before once.single split same
    rw [split] at opened
    exact ⟨Contract.memory_unopened opened first, once.iss conn member⟩

/-- An action of an application that sends again what is outstanding, or nothing. -/
def AppAction.repeats (out : Outgoing) : AppAction → Bool
  | .send data => data.length < 65536 && (data.length = 0 || out.outstanding.isPrefixOf data)
  | .close | .abort | .stop | .restart => true

/-- Whether an application sends again what is outstanding, from some point on. -/
def faithfulFrom (ends : Endpoint) (out : Outgoing) : List Observed → Bool
  | [] => true
  | .called call actions :: rest =>
    (call.conn.endpoint ≠ ends ||
        actions.all (AppAction.repeats (out.acknowledge call.flags.acked))) &&
      faithfulFrom ends (record transmit ends out (.called call actions)) rest
  | .opened _ :: rest | .sent _ _ :: rest => faithfulFrom ends out rest

/-- Whether an application sends again what is outstanding can be checked. -/
theorem faithful_of_faithfulFrom {ends : Endpoint} {history : List Observed}
    (checked : faithfulFrom ends ⟨[], []⟩ history = true) : Faithful ends history := by
  intro before call actions after split same
  unfold transmitted
  -- What was sent before the call may be anything; the check goes on from there.
  generalize (⟨[], []⟩ : Outgoing) = out at checked ⊢
  subst split
  induction before generalizing out with
  | nil =>
    simp only [List.nil_append, faithfulFrom, Bool.and_eq_true, Bool.or_eq_true,
      decide_eq_true_eq] at checked
    have all := checked.1.resolve_left fun other => other same
    intro data member
    have one := List.all_eq_true.mp all _ member
    simp only [AppAction.repeats, Bool.and_eq_true, Bool.or_eq_true, decide_eq_true_eq] at one
    refine ⟨one.1, fun some => ?_⟩
    exact List.isPrefixOf_iff_prefix.mp (one.2.resolve_left fun none => by omega)
  | cons o before ih =>
    apply ih
    cases o with
    | opened conn => exact checked
    | sent hdr data => exact checked
    | called other others =>
      simp only [List.cons_append, faithfulFrom, Bool.and_eq_true] at checked
      exact checked.2

end Egos.Uip
