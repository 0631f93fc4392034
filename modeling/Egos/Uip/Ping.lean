import Egos.Uip.Steps
import Mathlib.Tactic.Convert

/-! Requests for an answer: the checksum of the answer is corrected, not computed anew. -/

namespace Egos.Uip

/-- A request for an answer that is addressed to a host, and passes the checks that are made. -/
structure Pings (net : Net) (uipLen : UInt16) (buf : UipBuf) : Prop where
  vhl : buf.hdr.vhl = 0x45
  len : buf.hdr.len ≤ uipLen
  long : uipIphLen + 4 ≤ buf.hdr.len.toNat
  whole : buf.hdr.Whole
  host : net.hostaddr ≠ .zero
  mine : buf.hdr.destipaddr = net.hostaddr
  ipchksum : uipIpchksum buf.hdr = 0xffff
  proto : buf.hdr.proto = uipProtoIcmp
  echo : buf.hdr.srcport.toUInt8 = icmpEcho

section Pinging

variable {net : Net} {uipLen : UInt16} {buf : UipBuf} {app : AppCall → List AppAction}

/-- The bytes of a control message: type, code, and checksum come first. -/
theorem upper_eq {count : Nat} (long : 4 ≤ count) :
    buf.upper count = memoryBytes buf.hdr.srcport ++ (memoryBytes buf.hdr.destport ++
      (buf.hdr.seqno.toList ++ buf.hdr.ackno.toList ++ [buf.hdr.tcpoffset, buf.hdr.flags] ++
        networkBytes buf.hdr.wnd ++ memoryBytes buf.hdr.tcpchksum ++ networkBytes buf.hdr.urgp ++
        (List.range (count - uipTcphLen)).map buf.data).take (count - 4)) := by
  obtain ⟨more, rfl⟩ := Nat.exists_eq_add_of_le' long
  unfold UipBuf.upper TcpipHdr.tcpBytes
  simp [memoryBytes, List.take_succ_cons]

/-- Exchanging the bytes of a number multiplies it by 256, as far as carries are brought around. -/
theorem htons_mod (n : UInt16) : (htons n).toNat % 65535 = 256 * n.toNat % 65535 := by
  have below := n.toNat_lt
  rw [toNat_htons]
  omega

/-- Clearing the low byte of a number. -/
theorem toNat_highByte (n : UInt16) : (n &&& 0xff00).toNat = n.toNat - n.toNat % 256 := by
  have below := n.toNat_lt
  have high : (n.toNat &&& 65280) / 2 ^ 8 = n.toNat / 2 ^ 8 := by
    rw [Nat.and_div_two_pow, Nat.and_two_pow_sub_one_eq_mod _ 8]
    omega
  have low : (n.toNat &&& 65280) % 2 ^ 8 = 0 := by
    rw [Nat.and_mod_two_pow]
    exact Nat.and_zero _
  change n.toNat &&& 65280 = _
  omega

/-- What the type of a message loses, its checksum gains. -/
theorem chksum_of_answer (icmpchksum type : UInt16) (echo : type.toUInt8 = icmpEcho) :
    ((htons (type &&& 0xff00)).toNat +
        (htons (if icmpchksum ≥ htons ((0xffff : UInt16) - (icmpEcho.toUInt16 <<< 8))
          then icmpchksum + htons (icmpEcho.toUInt16 <<< 8) + 1
          else icmpchksum + htons (icmpEcho.toUInt16 <<< 8))).toNat) % 65535 =
      ((htons type).toNat + (htons icmpchksum).toNat) % 65535 := by
  have limit : htons ((0xffff : UInt16) - (icmpEcho.toUInt16 <<< 8)) = 65527 := by decide
  have step : htons (icmpEcho.toUInt16 <<< 8) = 8 := by decide
  have low : type.toNat % 256 = 8 := by
    have value := congrArg UInt8.toNat echo
    rw [UInt16.toNat_toUInt8] at value
    exact value
  have below := icmpchksum.toNat_lt
  have before := htons_mod type
  have after := htons_mod (type &&& 0xff00)
  have old := htons_mod icmpchksum
  rw [toNat_highByte, low] at after
  rw [limit, step]
  by_cases wraps : icmpchksum ≥ 65527
  · -- The carry is brought around, as one's complement wants it.
    rw [if_pos wraps]
    have bound : 65527 ≤ icmpchksum.toNat := UInt16.le_iff_toNat_le.mp wraps
    have new := htons_mod (icmpchksum + 8 + 1)
    have value : (icmpchksum + 8 + 1).toNat = icmpchksum.toNat + 9 - 65536 := by
      rw [UInt16.toNat_add, UInt16.toNat_add]
      change ((icmpchksum.toNat + 8) % 65536 + 1) % 65536 = _
      omega
    rw [value] at new
    omega
  · rw [if_neg wraps]
    have bound : ¬ 65527 ≤ icmpchksum.toNat := fun most => wraps (UInt16.le_iff_toNat_le.mpr most)
    have new := htons_mod (icmpchksum + 8)
    have value : (icmpchksum + 8).toNat = icmpchksum.toNat + 8 := by
      rw [UInt16.toNat_add]
      change (icmpchksum.toNat + 8) % 65536 = _
      omega
    rw [value] at new
    omega

/-- Only the byte zero counts nothing. -/
theorem toNat_eq_zero (byte : UInt8) : byte.toNat = 0 ↔ byte = 0 :=
  UInt8.toNat_inj (b := 0)

/-- Only bytes that are all zero have the sum zero. -/
theorem wordSum_eq_zero (bytes : List UInt8) :
    wordSum bytes = 0 ↔ ∀ byte ∈ bytes, byte = 0 := by
  fun_induction wordSum bytes with
  | case1 first second rest ih =>
    rw [List.forall_mem_cons, List.forall_mem_cons, ← ih, ← toNat_eq_zero, ← toNat_eq_zero]
    omega
  | case2 last =>
    simp only [List.mem_singleton, forall_eq, ← toNat_eq_zero]
    omega
  | case3 => simp

/-- Bytes pass a check if their sum is a multiple of 65535, unless they are all zero. -/
theorem chksum_passes (bytes : List UInt8) :
    chksum 0 bytes = 0xffff ↔ 65535 ∣ wordSum bytes ∧ ∃ byte ∈ bytes, byte ≠ 0 := by
  have some : (∃ byte ∈ bytes, byte ≠ 0) ↔ wordSum bytes ≠ 0 := by
    rw [ne_eq, wordSum_eq_zero]
    simp
  have value := toNat_chksum 0 bytes
  rw [UInt16.toNat_zero, Nat.zero_add] at value
  have none : Ones.residue 65535 (wordSum bytes) = 0 ↔ wordSum bytes = 0 := Ones.residue_eq_zero
  rw [some, ← Ones.residue_iff_dvd (by decide), ← UInt16.toNat_inj, value]
  change _ = 65535 ↔ _
  omega

/-- A request for an answer is answered to its sender: the code of the message and all that follows
its checksum stay, the header passes its check, and the message passes the check of its receiver
exactly if the request would have passed it and the answer does not consist of zeros, although the
sum is not computed anew. -/
theorem Net.answers_ping (pings : Pings net uipLen buf) :
    ∃ after hdr, net.step app (.input uipLen buf) = some (after,
        [.sent hdr ((List.range (buf.hdr.len.toNat - uipIptcphLen)).map buf.data)]) ∧
      after.conns = net.conns ∧ hdr.srcipaddr = net.hostaddr ∧
      hdr.destipaddr = buf.hdr.srcipaddr ∧ hdr.srcport.toUInt8 = 0 ∧
      hdr.srcport &&& 0xff00 = buf.hdr.srcport &&& 0xff00 ∧
      { hdr with srcport := buf.hdr.srcport, destport := buf.hdr.destport,
                 srcipaddr := buf.hdr.srcipaddr, destipaddr := buf.hdr.destipaddr } = buf.hdr ∧
      uipIpchksum hdr = 0xffff ∧
      (chksum 0 (UipBuf.upper ⟨hdr, buf.data⟩ (buf.hdr.len.toNat - uipIphLen)) = 0xffff ↔
        chksum 0 (buf.upper (buf.hdr.len.toNat - uipIphLen)) = 0xffff ∧
        ∃ byte ∈ UipBuf.upper ⟨hdr, buf.data⟩ (buf.hdr.len.toNat - uipIphLen), byte ≠ 0) := by
  obtain ⟨vhl, len, long, whole, host, mine, ipchksum, proto, echo⟩ := pings
  have tcp : ¬ buf.hdr.proto = uipProtoTcp := by
    rw [proto]
    decide
  have nonempty : buf.hdr.len ≠ 0 := by
    intro none
    rw [none] at long
    exact absurd long (by decide)
  let hdr : TcpipHdr := { buf.hdr with
    srcport := buf.hdr.srcport &&& 0xff00
    destport :=
      if buf.hdr.destport ≥ htons ((0xffff : UInt16) - (icmpEcho.toUInt16 <<< 8))
      then buf.hdr.destport + htons (icmpEcho.toUInt16 <<< 8) + 1
      else buf.hdr.destport + htons (icmpEcho.toUInt16 <<< 8)
    destipaddr := buf.hdr.srcipaddr
    srcipaddr := net.hostaddr }
  have stepped : net.step app (.input uipLen buf) = some
      ({ net with uipLen := buf.hdr.len, buf := { buf with hdr := hdr } },
        [.sent hdr ((List.range (buf.hdr.len.toNat - uipIptcphLen)).map buf.data)]) := by
    change Option.map _ (Net.uipInput _ _) = _
    unfold Net.uipInput
    dsimp only
    rw [if_neg (not_not.mpr vhl), if_pos len, if_neg whole, if_neg fun other => other.2 mine,
      if_neg (not_not.mpr ipchksum), if_neg tcp, if_neg (not_not.mpr proto)]
    unfold Net.icmpInput
    dsimp only
    rw [if_neg (not_not.mpr echo)]
    simp only [Option.map_some, Net.packet, if_neg nonempty, List.nil_append]
    rfl
  refine ⟨_, hdr, stepped, rfl, rfl, rfl, ?_, ?_, rfl, ?_, ?_⟩
  · -- Nothing is left of the type.
    have high := toNat_highByte buf.hdr.srcport
    apply UInt8.toNat_inj.mp
    rw [UInt16.toNat_toUInt8, high]
    change _ % 256 = 0
    omega
  · change (buf.hdr.srcport &&& 0xff00) &&& 0xff00 = _
    rw [UInt16.and_assoc, UInt16.and_self]
  · -- The addresses have changed places, which leaves the sum as it is.
    rw [uipIpchksum_iff, wordSum_ipBytes] at ipchksum ⊢
    rw [mine] at ipchksum
    have same : hdr.vhl = buf.hdr.vhl ∧ hdr.ttl = buf.hdr.ttl := ⟨rfl, rfl⟩
    convert ipchksum using 1
    change _ + net.hostaddr.sum + buf.hdr.srcipaddr.sum =
      _ + buf.hdr.srcipaddr.sum + net.hostaddr.sum
    exact Nat.add_right_comm _ _ _
  · have enough : 4 ≤ buf.hdr.len.toNat - uipIphLen := by omega
    have sum := chksum_of_answer buf.hdr.destport buf.hdr.srcport echo
    -- The request has a type, so it is not all zero.
    have some : ∃ byte ∈ buf.upper (buf.hdr.len.toNat - uipIphLen), byte ≠ 0 := by
      refine ⟨buf.hdr.srcport.toUInt8, ?_, by rw [echo]; decide⟩
      rw [upper_eq enough]
      simp [memoryBytes]
    rw [chksum_passes, chksum_passes, and_iff_left some]
    refine and_congr_left fun _ => ?_
    rw [upper_eq enough, upper_eq enough, wordSum_memoryBytes, wordSum_memoryBytes,
      wordSum_memoryBytes, wordSum_memoryBytes, Nat.dvd_iff_mod_eq_zero, Nat.dvd_iff_mod_eq_zero,
      ← Nat.add_assoc, ← Nat.add_assoc, Nat.add_mod,
      Nat.add_mod (_ + (htons buf.hdr.destport).toNat)]
    rw [← sum]

end Pinging

/-- A short request with a checksum and a sequence number. -/
def pingRequest (icmpchksum : UInt16) (seqno : Seqno) : UipBuf where
  hdr := TcpipHdr.setIpchksum
    { blankHdr ⟨1, 2⟩ ⟨1, 3⟩ icmpEcho.toUInt16 icmpchksum with
      proto := uipProtoIcmp, len := 28, seqno := seqno }
  data := fun _ => 0

/-- The identifier one and the sequence number two. -/
def pingNumbers : Seqno := ⟨#[0, 1, 0, 2], rfl⟩

/-- The short request with its identifier and its sequence number passes all checks. -/
theorem pingRequest_pings (icmpchksum : UInt16) (seqno : Seqno)
    (sum : uipIpchksum (pingRequest icmpchksum seqno).hdr = 0xffff) :
    Pings (clearedHost ⟨1, 3⟩).uipInit 28 (pingRequest icmpchksum seqno) := by
  have long : uipIphLen + 4 ≤ (28 : UInt16).toNat := by decide
  have whole : ¬ (((0 : UInt16) >>> 8) &&& 0x3f ≠ 0 ∨ (0 : UInt16) &&& 0xff ≠ 0) := by decide
  exact ⟨rfl, UInt16.le_refl _, long, whole, by decide, rfl, sum, rfl, rfl⟩

/-- The checksum that the receiver of an answer computes. -/
def answerChksum (result : Option (Net × List Observed)) : Option UInt16 :=
  match result with
  | some (_, [.sent hdr _]) => some (chksum 0 (UipBuf.upper ⟨hdr, fun _ => 0⟩ 8))
  | _ => none

/-- A request with numbers is answered with a right checksum, and one whose answer consists of zeros
with a wrong one. -/
theorem Net.answers_ping_shortest :
    (∃ after hdr, (clearedHost ⟨1, 3⟩).uipInit.step (fun _ => [])
        (.input 28 (pingRequest 0xfcf7 pingNumbers)) = some (after, [.sent hdr []]) ∧
      hdr.destipaddr = ⟨1, 2⟩ ∧ hdr.seqno = pingNumbers ∧ uipIpchksum hdr = 0xffff ∧
      chksum 0 (UipBuf.upper ⟨hdr, fun _ => 0⟩ 8) = 0xffff) ∧
    ∃ after hdr, (clearedHost ⟨1, 3⟩).uipInit.step (fun _ => [])
        (.input 28 (pingRequest 0xfff7 (Seqno.ofByte 0))) = some (after, [.sent hdr []]) ∧
      chksum 0 ((pingRequest 0xfff7 (Seqno.ofByte 0)).upper 8) = 0xffff ∧
      chksum 0 (UipBuf.upper ⟨hdr, fun _ => 0⟩ 8) ≠ 0xffff := by
  -- The numbers of the two requests are computed, and the theorem says the rest.
  refine ⟨?_, ?_⟩
  · obtain ⟨after, hdr, stepped, -, -, dest, -, -, same, passes, message⟩ :=
      @Net.answers_ping _ _ _ (fun _ => [])
        (pingRequest_pings 0xfcf7 pingNumbers (by decide +kernel))
    refine ⟨after, hdr, stepped, dest, congrArg TcpipHdr.seqno same, passes, ?_⟩
    have sum : answerChksum ((clearedHost ⟨1, 3⟩).uipInit.step (fun _ => [])
        (.input 28 (pingRequest 0xfcf7 pingNumbers))) = some 0xffff := by decide +kernel
    rw [stepped] at sum
    exact Option.some.inj sum
  · obtain ⟨after, hdr, stepped, -⟩ :=
      @Net.answers_ping _ _ _ (fun _ => [])
        (pingRequest_pings 0xfff7 (Seqno.ofByte 0) (by decide +kernel))
    refine ⟨after, hdr, stepped, by decide +kernel, ?_⟩
    have sum : answerChksum ((clearedHost ⟨1, 3⟩).uipInit.step (fun _ => [])
        (.input 28 (pingRequest 0xfff7 (Seqno.ofByte 0)))) = some 0 := by decide +kernel
    rw [stepped] at sum
    rw [show chksum 0 (UipBuf.upper ⟨hdr, fun _ => 0⟩ 8) = 0 from Option.some.inj sum]
    decide

end Egos.Uip
