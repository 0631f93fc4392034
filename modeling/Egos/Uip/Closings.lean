import Egos.Uip.Sending

/-! A connection sends the end of its stream last. -/

namespace Egos.Uip

/-- Whether a connection is shut, as far as its application can tell. -/
def finish (shut : Bool) (call : AppCall) (actions : List AppAction) : Bool :=
  shut || call.flags.ended || (!call.flags.rexmit && actions.any AppAction.ends)

/-- The contract of a connection that sends the end of its stream last. -/
def closings : Contract Bool where
  start := false
  note := finish
  good _ := True
  conn shut conn := conn.tcpstateflags.state.late = shut
  packet shut hdr _ := hdr.flags &&& tcpFin ≠ 0 → shut = true
  hears _ _ := True
  polled := True
  answers _ _ _ := True
  opens shut _ := shut = false

section Closing

variable {app : AppCall → List AppAction} {shut : Bool} {hdr : TcpipHdr} {p q : Process}
variable {r : Process × Goto}

/-- What is transmitted is not the end of the stream. -/
theorem apprexmit_fin (p : Process) : p.apprexmit.2.flags &&& tcpFin = 0 := by
  have psh : (tcpAck ||| tcpPsh) &&& tcpFin = 0 := by decide
  have ack : tcpAck &&& tcpFin = 0 := by decide
  unfold Process.apprexmit
  split
  · exact psh
  · split
    · exact ack
    · exact UInt8.zero_and

/-- The packets of a connection that is shut may be the end of its stream. -/
theorem closings_speaks {conn : Conn} {goto : Goto} {mem : Nat → UInt8}
    (fin : shut = true ∨ goto.flags &&& tcpFin = 0) : closings.Speaks shut conn goto mem := by
  intro hostaddr hdr emits
  change hdr.flags &&& tcpFin ≠ 0 → shut = true
  rw [emits.flags]
  intro set
  exact fin.resolve_right set

/-- When a connection is shut, its application has been told so, or has asked for it. -/
theorem Process.Quiet.closings (quiet : p.Quiet r) (calls : p.calls = [])
    (conn : p.conn.tcpstateflags.state.late = shut) :
    closings.told app shut r.1.calls = true := by
  rcases quiet.calls with ⟨none, late⟩ | ⟨call, one, farewell⟩
  · rw [none, calls, Contract.told_nil, ← conn]
    exact late
  · rw [one, calls, List.nil_append, Contract.told_singleton]
    change (shut || call.flags.ended || _) = true
    rw [farewell.ended, Bool.or_true, Bool.true_or]

/-- The application has asked for the end, or the connection goes on. -/
theorem closings_answer (app : AppCall → List AppAction) (skip : Nat) (none : q.calls = [])
    (state : q.conn.tcpstateflags.state = .established) (ended : q.flags.ended = false)
    (rexmit : q.flags.rexmit = false) :
    (q.appcall app skip).appsend.1.conn.tcpstateflags.state.late =
        closings.told app false (q.appcall app skip).appsend.1.calls ∧
      closings.Speaks (closings.told app false (q.appcall app skip).appsend.1.calls)
        (q.appcall app skip).appsend.1.conn (q.appcall app skip).appsend.2
        (q.appcall app skip).appsend.1.data := by
  -- An application that closes sends nothing else with its end.
  have told : closings.told app false (q.appcall app skip).appsend.1.calls =
      (app (q.shown skip)).any AppAction.ends := by
    rw [Process.calls_appsend none, Contract.told_singleton]
    change (false || q.flags.ended || (!q.flags.rexmit && _)) = _
    rw [ended, rexmit]
    rfl
  rw [told]
  cases asked : (app (q.shown skip)).any AppAction.ends with
  | true => exact ⟨(appsend_over skip ended asked).1, closings_speaks (Or.inl rfl)⟩
  | false =>
    rw [appsend_goesOn skip ended asked]
    refine ⟨?_, closings_speaks (Or.inr (apprexmit_fin _))⟩
    rw [Process.apprexmit_fst, Process.limit_eq]
    change (q.appcall app skip).conn.tcpstateflags.state.late = false
    rw [Process.appcall_state, state]
    rfl

/-- A connection that sends the end of its stream last keeps to its contract. -/
theorem closings_sound : closings.Sound := by
  -- Each kind of call either ends the stream or comes before its end.
  have grows {app : AppCall → List AppAction} {shut : Bool} {calls : List AppCall} :
      ∀ hdr data, closings.packet shut hdr data →
        closings.packet (closings.told app shut calls) hdr data := by
    intro hdr data packet fin
    have before := packet fin
    unfold Contract.told
    clear packet
    induction calls generalizing shut with
    | nil => exact before
    | cons call calls ih =>
      apply ih
      change (shut || call.flags.ended || _) = true
      rw [before, Bool.true_or, Bool.true_or]
  constructor
  case start => exact trivial
  case found =>
    intro app hdr p r shut _ _ calls _ conn found _ _
    have running {state : TcpState} (before : p.conn.tcpstateflags.state = state)
        (early : state.late = false) : shut = false := by
      change p.conn.tcpstateflags.state.late = shut at conn
      rw [← conn, before, early]
    cases found with
    | quiet quiet goto =>
      have told : closings.told app shut r.1.calls = true := quiet.closings calls conn
      refine ⟨trivial, ?_, fun _ => closings_speaks (Or.inl told), grows⟩
      exact quiet.late.trans told.symm
    | refused quiet state reset =>
      have told : closings.told app shut r.1.calls = true := quiet.closings calls conn
      refine ⟨trivial, ?_, fun _ => closings_speaks (Or.inl told), grows⟩
      exact quiet.late.trans told.symm
    | still same goto strange =>
      refine ⟨trivial, ?_, fun _ => closings_speaks (Or.inr ?_), grows⟩
      · rw [same.calls, calls]
        exact (congrArg TcpState.late same.state).trans conn
      · rcases goto with drop | ack
        · rw [drop]
          rfl
        · rw [ack]
          rfl
    | connects connects =>
      have none := running connects.before rfl
      subst none
      obtain ⟨next, speaks⟩ := closings_answer app 0
        (connects.calls.trans calls) connects.state (by rw [connects.flags]; rfl)
        (by rw [connects.flags])
      exact ⟨trivial, next, fun _ => speaks, grows⟩
    | answers answers =>
      have none := running answers.before rfl
      subst none
      obtain ⟨next, speaks⟩ := closings_answer app 0
        (answers.calls.trans calls) answers.state (by rw [answers.flags]; rfl)
        (by rw [answers.flags])
      exact ⟨trivial, next, fun _ => speaks, grows⟩
    | @serves q skip skips serves =>
      have none := running serves.before rfl
      subst none
      obtain ⟨next, speaks⟩ := closings_answer app skip
        (serves.calls.trans calls) serves.state (by rw [serves.flags]; rfl)
        (by rw [serves.flags])
      exact ⟨trivial, next, fun _ => speaks, grows⟩
    | @ends q p' last endpoint state rcvNxt told =>
      have ended : (q.shown 0).flags.ended = true := by
        change q.flags.ended = true
        rw [last.flags]
        rfl
      have done : closings.told app shut p'.calls = true := by
        rw [told, calls, List.nil_append, Contract.told_singleton]
        change (shut || (q.shown 0).flags.ended || _) = true
        rw [ended, Bool.or_true, Bool.true_or]
      refine ⟨trivial, ?_, fun _ => closings_speaks (Or.inl done), grows⟩
      change p'.conn.tcpstateflags.state.late = _
      rw [state]
      exact done.symm
  case timed =>
    intro app p r shut _ calls _ conn timed _ _
    have running (before : p.conn.tcpstateflags.state = .established) : shut = false := by
      change p.conn.tcpstateflags.state.late = shut at conn
      rw [← conn, before]
      rfl
    cases timed with
    | quiet active quiet goto =>
      have told : closings.told app shut r.1.calls = true := quiet.closings calls conn
      refine ⟨trivial, ?_, fun _ => closings_speaks (Or.inl told), grows⟩
      exact quiet.late.trans told.symm
    | idle same goto =>
      refine ⟨trivial, ?_, fun _ => closings_speaks (Or.inr ?_), grows⟩
      · rw [same.calls, calls]
        exact (congrArg TcpState.late same.state).trans conn
      · rw [goto]
        rfl
    | still active same goto =>
      refine ⟨trivial, ?_, fun _ => closings_speaks ?_, grows⟩
      · rw [same.calls, calls]
        exact (congrArg TcpState.late same.state).trans conn
      · rw [same.calls, calls]
        rcases goto with ⟨-, late⟩ | ⟨synack, -⟩ | ⟨syn, -⟩
        · left
          change p.conn.tcpstateflags.state.late = shut at conn
          exact conn.symm.trans late
        · right
          rw [synack]
          rfl
        · right
          rw [syn]
          rfl
    | @rexmits q same state outstanding flags slen =>
      have none := running state
      subst none
      have uncalled : (q.appcall app 0).apprexmit.1.calls = [q.shown 0] := by
        rw [Process.apprexmit_fst, Process.appcall_calls, same.calls, calls, List.nil_append]
      have told : closings.told app false [q.shown 0] = false := by
        rw [Contract.told_singleton]
        change (false || q.flags.ended || (!q.flags.rexmit && _)) = false
        rw [flags]
        rfl
      refine ⟨trivial, ?_, fun _ => closings_speaks (Or.inr (apprexmit_fin _)), grows⟩
      rw [uncalled, told, Process.apprexmit_fst]
      change (q.appcall app 0).conn.tcpstateflags.state.late = false
      rw [Process.appcall_state, same.state, state]
      rfl
    | polls same state empty flags slen =>
      have none := running state
      subst none
      obtain ⟨next, speaks⟩ := closings_answer app 0
        (same.calls.trans calls) (same.state.trans state) (by rw [flags]; rfl) (by rw [flags])
      exact ⟨trivial, next, fun _ => speaks, grows⟩
  case accepted =>
    intro hdr mem conn shut _ _ _ state _ _ opens
    refine ⟨?_, closings_speaks (Or.inr rfl)⟩
    change conn.tcpstateflags.state.late = shut
    rw [state, opens]
    rfl
  case connected =>
    intro conn shut _ state _ opens
    change conn.tcpstateflags.state.late = shut
    rw [state, opens]
    rfl
  case refused =>
    intro hostaddr hdr shut resets fin
    rw [resets.flags] at fin
    exact absurd rfl fin

end Closing

end Egos.Uip
