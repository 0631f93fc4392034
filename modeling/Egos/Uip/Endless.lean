import Egos.Lib.Rounds
import Egos.Uip.Steps
import Mathlib.Data.Fintype.Pigeonhole
import Mathlib.Logic.Function.Iterate
import Mathlib.Tactic.SplitIfs

/-! Loops of the network stack that have no bound of their own: which of them come to an end. -/

namespace Egos.Uip

/-- Where the option after the one at a position starts, if options are read on. -/
def nextOption (data : Nat → UInt8) (size : Nat) (c : UInt8) : Option UInt8 :=
  if c.toNat < size then
    let opt := data c.toNat
    if opt = 0 then none
    else if opt = 1 then some (c + 1)
    else if opt = 2 ∧ data (1 + c.toNat) = 4 then none
    else if data (1 + c.toNat) = 0 then none
    else some (c + data (1 + c.toNat))
  else none

section Options

variable {data : Nat → UInt8} {size n : Nat} {c : UInt8}

/-- Options are read on exactly if there is a next one. -/
theorem parseMss_succ : parseMss data size (n + 1) c = none ↔
    ∃ c', nextOption data size c = some c' ∧ parseMss data size n c' = none := by
  rw [parseMss]
  unfold nextOption
  split
  · dsimp only
    split
    · simp
    · split
      · simp
      · split
        · simp
        · split
          · simp
          · simp
  · simp

/-- Reading options takes too many rounds exactly if there are that many. -/
theorem parseMss_eq_none : parseMss data size n c = none ↔
    (rounds (nextOption data size) c n).isSome := by
  induction n generalizing c with
  | zero => simp [parseMss, rounds]
  | succ n ih =>
    rw [parseMss_succ, rounds_succ]
    cases same : nextOption data size c with
    | none => simp
    | some c' => simp [ih]

/-- Options that are not read to their end in as many rounds as there are positions have none. -/
theorem parseMss_endless (stuck : parseMss data size optionRounds c = none) (fuel : Nat) :
    parseMss data size fuel c = none := by
  rw [parseMss_eq_none] at stuck ⊢
  exact rounds_forever UInt8.toNat (fun _ _ => UInt8.toNat_inj.mp) (fun c => c.toNat_lt) stuck fuel

end Options

section Ports

variable {net : Net} {port lastport : UInt16} {fuel : Nat}

/-- The next port is the one after, in the cycle of ports. -/
theorem toNat_nextPort (below : port.toNat < 32000) : (Net.nextPort port).toNat =
    if port.toNat + 1 < 32000 then port.toNat + 1 else 4096 := by
  have limit : (32000 : UInt16).toNat = 32000 := rfl
  have one : (port + 1).toNat = port.toNat + 1 := by
    rw [UInt16.toNat_add]
    change (port.toNat + 1) % 65536 = _
    omega
  unfold Net.nextPort
  by_cases wraps : port + 1 ≥ 32000
  · rw [if_pos wraps]
    rw [ge_iff_le, UInt16.le_iff_toNat_le, one, limit] at wraps
    rw [if_neg (by omega)]
    rfl
  · rw [if_neg wraps, one]
    rw [ge_iff_le, UInt16.le_iff_toNat_le, one, limit] at wraps
    rw [if_pos (by omega)]

/-- No port in use is tried twice before there are more of them than connections. -/
theorem toNat_iterate_nextPort (below : port.toNat < 32000) {k : Nat} (few : k ≤ uipConns) :
    (Net.nextPort^[k] port).toNat =
      if port.toNat + k < 32000 then port.toNat + k else port.toNat + k - 27904 := by
  have connections : uipConns = 40 := rfl
  induction k with
  | zero => rw [Function.iterate_zero_apply, Nat.add_zero, if_pos below]
  | succ k ih =>
    have here := ih (by omega)
    have within : (Net.nextPort^[k] port).toNat < 32000 := by
      rw [here]
      split <;> omega
    rw [Function.iterate_succ_apply', toNat_nextPort within, here]
    split_ifs <;> omega

/-- A port that is looked for in vain has been tried. -/
theorem unusedPort_eq_none (vain : net.unusedPort fuel lastport = none) {k : Nat}
    (tried : k < fuel) :
    ∃ c, (net.conns c).lport = htons (Net.nextPort^[k] (Net.nextPort lastport)) := by
  -- Each port that is tried in vain is the one of some connection.
  induction fuel generalizing lastport k with
  | zero => omega
  | succ fuel ih =>
    unfold Net.unusedPort at vain
    dsimp only at vain
    split at vain
    · rename_i used
      cases k with
      | zero =>
        obtain ⟨c, -, same⟩ := used
        exact ⟨c, same⟩
      | succ k =>
        rw [Function.iterate_succ_apply]
        exact ih vain (by omega)
    · cases vain

/-- The bytes of two numbers are swapped differently. -/
theorem htons_inj {n m : UInt16} (same : htons n = htons m) : n = m := by
  have values := congrArg UInt16.toNat same
  rw [toNat_htons, toNat_htons] at values
  have first := n.toNat_lt
  have second := m.toNat_lt
  apply UInt16.toNat_inj.mp
  omega

/-- There is always an unused port. -/
theorem unusedPort_isSome (net : Net) (lastport : UInt16) :
    (net.unusedPort (uipConns + 1) lastport).isSome := by
  rw [Option.isSome_iff_ne_none]
  intro vain
  have each : ∀ k : Fin (uipConns + 1), ∃ c, (net.conns c).lport =
      htons (Net.nextPort^[k.val] (Net.nextPort lastport)) :=
    fun k => unusedPort_eq_none vain k.isLt
  choose conn uses using each
  -- Two of the ports that were tried belong to one connection.
  obtain ⟨j, k, apart, same⟩ := Fintype.exists_ne_map_eq_of_card_lt conn (by simp)
  have ports := htons_inj ((uses j).symm.trans (by rw [same]; exact uses k))
  have below : (Net.nextPort lastport).toNat < 32000 := by
    unfold Net.nextPort
    split
    · decide
    · rename_i small
      rw [ge_iff_le, UInt16.le_iff_toNat_le] at small
      exact Nat.lt_of_not_le small
  have values := congrArg UInt16.toNat ports
  rw [toNat_iterate_nextPort below (Nat.le_of_lt_succ j.isLt),
    toNat_iterate_nextPort below (Nat.le_of_lt_succ k.isLt)] at values
  have connections : uipConns = 40 := rfl
  have first := j.isLt
  have second := k.isLt
  apply apart
  apply Fin.ext
  split_ifs at values <;> omega

end Ports
/-- Options that are read without an end. -/
def Endless (buf : UipBuf) : Prop :=
  ∀ fuel, parseMss buf.data (optionSize buf.hdr.tcpoffset) fuel 0 = none

/-- A segment that makes a host read options: it opens a connection, or answers one that does. -/
inductive Net.Reads (net : Net) : Prop
  | opens (missed : net.demultiplex = none) (syn : net.buf.hdr.flags &&& tcpCtl = tcpSyn)
      (listened : ∃ c, net.buf.hdr.destport = net.listenports c)
      (room : Net.spare net.conns none (List.finRange uipConns) ≠ none)
  | answers {i : Fin uipConns} (found : net.demultiplex = some i)
      (state : (net.conns i).tcpstateflags.state = .synSent)
      (synack : net.buf.hdr.flags &&& tcpCtl = tcpSyn ||| tcpAck)
      (acked : ((net.conns i).acknowledge net.buf.hdr).2 = true)

section Hanging

variable {app : AppCall → List AppAction} {hdr : TcpipHdr} {p : Process} {net : Net}

/-- The rounds that are allowed for options are enough. -/
theorem endless_iff {buf : UipBuf} : Endless buf ↔
    parseMss buf.data (optionSize buf.hdr.tcpoffset) optionRounds 0 = none :=
  ⟨fun endless => endless optionRounds, fun stuck fuel => parseMss_endless stuck fuel⟩

/-- Only the answer to a segment that opens a connection is not processed to its end. -/
theorem Process.dispatch_eq_none {acked : Bool} : p.dispatch app hdr acked = none ↔
    p.conn.tcpstateflags.state = .synSent ∧ hdr.flags &&& tcpCtl = tcpSyn ||| tcpAck ∧
      acked = true ∧ parseMss p.data (optionSize hdr.tcpoffset) optionRounds 0 = none := by
  unfold Process.dispatch
  cases state : p.conn.tcpstateflags.state with
  | synSent =>
    unfold Process.synSent
    by_cases answered : acked ∧ hdr.flags &&& tcpCtl = tcpSyn ||| tcpAck
    · rw [if_pos answered]
      obtain ⟨acked, synack⟩ := answered
      cases options : parseMss p.data (optionSize hdr.tcpoffset) optionRounds 0 with
      | none => exact iff_of_true rfl ⟨rfl, synack, acked, rfl⟩
      | some tmp16 =>
        apply iff_of_false
        · exact Option.some_ne_none _
        · intro stuck
          exact Option.some_ne_none _ stuck.2.2.2
    · -- Anything but an answer closes the connection.
      rw [if_neg answered]
      apply iff_of_false
      · exact Option.some_ne_none _
      · intro stuck
        exact answered ⟨stuck.2.2.1, stuck.2.1⟩
  | _ =>
    apply iff_of_false
    · exact Option.some_ne_none _
    · intro stuck
      cases stuck.1

/-- An answer has no flag but those of an answer. -/
theorem rst_of_synack (synack : hdr.flags &&& tcpCtl = tcpSyn ||| tcpAck) :
    ¬ hdr.flags &&& tcpRst ≠ 0 := by
  have within : hdr.flags &&& tcpRst = hdr.flags &&& tcpCtl &&& tcpRst := by
    rw [UInt8.and_assoc]
    rfl
  rw [within, synack]
  decide

/-- A segment for a connection is not processed to its end. -/
theorem Process.found_eq_none : Process.found app hdr p = none ↔
    p.conn.tcpstateflags.state = .synSent ∧ hdr.flags &&& tcpCtl = tcpSyn ||| tcpAck ∧
      (p.conn.acknowledge hdr).2 = true ∧
      parseMss p.data (optionSize hdr.tcpoffset) optionRounds 0 = none := by
  have stays : (p.conn.acknowledge hdr).1.tcpstateflags = p.conn.tcpstateflags := by
    rcases p.conn.acknowledge_cases hdr with none | ⟨-, -, sa, sv, rto, all⟩
    · rw [none]
    · rw [all]
  unfold Process.found
  split
  · rename_i rst
    apply iff_of_false
    · exact Option.some_ne_none _
    · intro stuck
      exact rst_of_synack stuck.2.1 rst
  · dsimp only
    split
    -- An answer is never out of sequence.
    · rename_i unexpected
      apply iff_of_false
      · exact Option.some_ne_none _
      · intro stuck
        exact unexpected.1 ⟨stuck.1, stuck.2.1⟩
    · rw [Process.dispatch_eq_none, stays]

/-- Segments that make a host read options without an end are not processed to their end. -/
theorem Net.tcpInput_eq_none : net.tcpInput app = none ↔
    net.buf.uipTcpchksum = 0xffff ∧ net.Reads ∧ Endless net.buf := by
  unfold Net.tcpInput
  -- A damaged segment is dropped, and has passed no check.
  by_cases damaged : net.buf.uipTcpchksum ≠ 0xffff
  · rw [if_pos damaged]
    apply iff_of_false
    · exact Option.some_ne_none _
    · intro stuck
      exact damaged stuck.1
  rw [if_neg damaged]
  cases belongs : net.demultiplex with
  | some i =>
    dsimp only
    rw [Option.map_eq_none_iff, Process.found_eq_none]
    constructor
    · intro stuck
      obtain ⟨state, synack, acked, endless⟩ := stuck
      exact ⟨not_not.mp damaged, .answers belongs state synack acked, endless_iff.mpr endless⟩
    · intro stuck
      obtain ⟨-, reads, endless⟩ := stuck
      cases reads with
      | opens missed syn listened room =>
        rw [missed] at belongs
        cases belongs
      | answers found state synack acked =>
        rw [found] at belongs
        obtain rfl := Option.some.inj belongs
        exact ⟨state, synack, acked, endless_iff.mp endless⟩
  | none =>
    -- What opens no connection is refused.
    have never (result : Net × List Observed)
        (other : ¬ (net.buf.hdr.flags &&& tcpCtl = tcpSyn ∧
          ∃ c, net.buf.hdr.destport = net.listenports c)) :
        some result = none ↔ net.buf.uipTcpchksum = 0xffff ∧ net.Reads ∧ Endless net.buf := by
      apply iff_of_false
      · exact Option.some_ne_none _
      · intro stuck
        obtain ⟨-, reads, -⟩ := stuck
        cases reads with
        | opens missed syn listened room => exact other ⟨syn, listened⟩
        | answers found state synack acked =>
          rw [found] at belongs
          cases belongs
    dsimp only
    split
    · rename_i syn
      exact never _ fun opens => syn opens.1
    · rename_i syn
      split
      · rename_i listened
        unfold Net.foundListen
        cases room : Net.spare net.conns none (List.finRange uipConns) with
        | none =>
          dsimp only
          apply iff_of_false
          · exact Option.some_ne_none _
          · intro stuck
            obtain ⟨-, reads, -⟩ := stuck
            cases reads with
            | opens missed syn listened some => exact some room
            | answers found state synack acked =>
              rw [found] at belongs
              cases belongs
        | some i =>
          have some : Net.spare net.conns none (List.finRange uipConns) ≠ none := by
            rw [room]
            exact Option.some_ne_none i
          dsimp only
          cases options : parseMss net.buf.data (optionSize net.buf.hdr.tcpoffset) optionRounds
              0 with
          | none =>
            exact iff_of_true rfl ⟨not_not.mp damaged,
              .opens belongs (not_not.mp syn) listened some, endless_iff.mpr options⟩
          | some tmp16 =>
            apply iff_of_false
            · exact Option.some_ne_none _
            · intro stuck
              rw [endless_iff.mp stuck.2.2] at options
              cases options
      · rename_i listened
        exact never _ fun opens => listened opens.2

end Hanging

/-- A host hangs exactly if it is given a segment that passes all checks, makes it read options,
and has options without an end: everything else comes to an end, for every state of the host. -/
theorem Net.hangs_iff (net : Net) (app : AppCall → List AppAction) (event : NetEvent) :
    net.step app event = none ↔ ∃ uipLen buf, event = .input uipLen buf ∧
      Accepted net uipLen buf ∧ buf.hdr.Whole ∧
      Net.Reads { net with uipLen := buf.hdr.len, buf := buf } ∧ Endless buf := by
  have never (result : Net × List Observed) (other : ∀ uipLen buf, event ≠ .input uipLen buf) :
      some result = none ↔ ∃ uipLen buf, event = .input uipLen buf ∧
        Accepted net uipLen buf ∧ buf.hdr.Whole ∧
        Net.Reads { net with uipLen := buf.hdr.len, buf := buf } ∧ Endless buf := by
    apply iff_of_false
    · exact Option.some_ne_none _
    · intro stuck
      obtain ⟨uipLen, buf, input, -⟩ := stuck
      exact other uipLen buf input
  cases event with
  | input uipLen buf =>
    have dropped (result : Net × List Observed)
        (fails : ¬ (Accepted net uipLen buf ∧ buf.hdr.Whole)) :
        some result = none ↔ ∃ len b, NetEvent.input uipLen buf = .input len b ∧
          Accepted net len b ∧ b.hdr.Whole ∧
          Net.Reads { net with uipLen := b.hdr.len, buf := b } ∧ Endless b := by
      apply iff_of_false
      · exact Option.some_ne_none _
      · intro stuck
        obtain ⟨len, b, same, accepted, whole, -⟩ := stuck
        obtain ⟨rfl, rfl⟩ := NetEvent.input.inj same
        exact fails ⟨accepted, whole⟩
    change Option.map _ _ = none ↔ _
    rw [Option.map_eq_none_iff]
    -- The checks are made one after the other; a packet that fails one of them is dropped.
    unfold Net.uipInput
    dsimp only
    split
    · rename_i vhl
      exact dropped _ fun passes => vhl passes.1.vhl
    rename_i vhl
    split
    · rename_i len
      split
      · rename_i fragment
        exact dropped _ fun passes => passes.2 fragment
      rename_i whole
      split
      · rename_i foreign
        exact dropped _ fun passes =>
          foreign.2 (passes.1.hostaddr.resolve_left foreign.1)
      rename_i mine
      split
      · rename_i ipchksum
        exact dropped _ fun passes => ipchksum passes.1.ipchksum
      rename_i ipchksum
      split
      · rename_i proto
        rw [Net.tcpInput_eq_none]
        constructor
        · intro stuck
          obtain ⟨tcpchksum, reads, endless⟩ := stuck
          have hostaddr : net.hostaddr = .zero ∨ buf.hdr.destipaddr = net.hostaddr := by
            by_contra other
            exact mine (not_or.mp other)
          exact ⟨uipLen, buf, rfl, ⟨not_not.mp vhl, len, hostaddr, proto, not_not.mp ipchksum,
            tcpchksum⟩, whole, reads, endless⟩
        · intro stuck
          obtain ⟨len, b, same, accepted, -, reads, endless⟩ := stuck
          obtain ⟨rfl, rfl⟩ := NetEvent.input.inj same
          exact ⟨accepted.tcpchksum, reads, endless⟩
      · rename_i proto
        split
        · exact dropped _ fun passes => proto passes.1.proto
        · exact dropped _ fun passes => proto passes.1.proto
    · rename_i len
      exact dropped _ fun passes => len passes.1.len
  | periodic i => exact never _ fun _ _ other => by cases other
  | poll i => exact never _ fun _ _ other => by cases other
  | connect ripaddr rport =>
    -- The search for a port comes to an end.
    change net.uipConnect ripaddr rport = none ↔ _
    obtain ⟨port, unused⟩ := Option.isSome_iff_exists.mp (unusedPort_isSome net net.lastport)
    unfold Net.uipConnect
    rw [unused]
    dsimp only [Option.bind_eq_bind, Option.bind_some]
    split
    · exact never _ fun _ _ other => by cases other
    · exact never _ fun _ _ other => by cases other
  | listen port => exact never _ fun _ _ other => by cases other
  | unlisten port => exact never _ fun _ _ other => by cases other

/-- An option that leads back to the one before it, eight bytes of options in all. -/
example : (((clearedHost ⟨1, 3⟩).uipInit.uipListen 80).step (fun _ => [])
    (arriving { blankHdr ⟨1, 2⟩ ⟨1, 3⟩ 7 80 with flags := tcpSyn, tcpoffset := 0x70 }
      [3, 4, 0, 0, 3, 252, 0, 0])).isNone := by decide +kernel

end Egos.Uip
