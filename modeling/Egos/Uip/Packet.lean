import Egos.Lib.Ones
import Egos.Uip.Arp

/-! Packets in the buffer of the network stack: headers, numbers of four bytes, and checksums. -/

namespace Egos.Uip

/-- The length of an internet header. -/
abbrev uipIphLen : Nat := 20

/-- The length of a TCP header without options. -/
abbrev uipTcphLen : Nat := 20

/-- The length of both headers. -/
abbrev uipIptcphLen : Nat := uipIphLen + uipTcphLen

/-- The protocol of TCP segments. -/
abbrev uipProtoTcp : UInt8 := 6

/-- The protocol of control messages. -/
abbrev uipProtoIcmp : UInt8 := 1

/-- A number of four bytes, the most significant one first. -/
abbrev Seqno := Vector UInt8 4

namespace Seqno

/-- The number that four bytes stand for. -/
def value (s : Seqno) : Nat :=
  16777216 * s[0].toNat + 65536 * s[1].toNat + 256 * s[2].toNat + s[3].toNat

/-- Increases a byte, and those before it if it becomes zero. -/
def bump (s : Seqno) : (k : Nat) → k < 4 → Seqno
  | 0, _ => s.set 0 (s[0] + 1)
  | k + 1, bound =>
    let s := s.set (k + 1) (s[k + 1] + 1)
    if s[k + 1] = 0 then bump s k (by omega) else s

/-- A small number in four bytes. -/
def ofByte (b : UInt8) : Seqno := #v[0, 0, 0, b]

/-- The least significant byte is one of the four. -/
theorem last_lt : 3 < 4 := by decide

end Seqno

/-- Adds a number of sixteen bits byte by byte. -/
def uipAdd32 (op32 : Seqno) (op16 : UInt16) : Seqno :=
  let high := (op16 >>> 8).toUInt8
  let low := (op16 &&& 0xff).toUInt8
  let acc32 : Seqno := #v[op32[0], op32[1], op32[2] + high, op32[3] + low]
  let acc32 := if acc32[2] < high then acc32.bump 1 (by decide) else acc32
  if acc32[3] < low then acc32.bump 2 (by decide) else acc32

/-- The two bytes of a field that is kept as bytes, the more significant one first. -/
def networkBytes (n : UInt16) : List UInt8 := [(n >>> 8).toUInt8, n.toUInt8]

/-- The two bytes of a field that is kept as a number, the less significant one first. -/
def memoryBytes (n : UInt16) : List UInt8 := [n.toUInt8, (n >>> 8).toUInt8]

/-- The bytes of an internet address. -/
def IpAddr.bytes (ipaddr : IpAddr) : List UInt8 :=
  memoryBytes ipaddr.first ++ memoryBytes ipaddr.second

/-- The internet header and the TCP header; fields of two bytes are given as numbers. -/
structure TcpipHdr where
  vhl : UInt8
  tos : UInt8
  len : UInt16
  ipid : UInt16
  ipoffset : UInt16
  ttl : UInt8
  proto : UInt8
  ipchksum : UInt16
  srcipaddr : IpAddr
  destipaddr : IpAddr
  srcport : UInt16
  destport : UInt16
  seqno : Seqno
  ackno : Seqno
  tcpoffset : UInt8
  flags : UInt8
  wnd : UInt16
  tcpchksum : UInt16
  urgp : UInt16
  deriving DecidableEq

/-- The buffer of the network stack behind the Ethernet header. -/
structure UipBuf where
  hdr : TcpipHdr
  -- The memory behind both headers.
  data : Nat → UInt8

namespace TcpipHdr

/-- The bytes of the internet header. -/
def ipBytes (hdr : TcpipHdr) : List UInt8 :=
  [hdr.vhl, hdr.tos] ++ networkBytes hdr.len ++ networkBytes hdr.ipid ++
    networkBytes hdr.ipoffset ++ [hdr.ttl, hdr.proto] ++ memoryBytes hdr.ipchksum ++
    hdr.srcipaddr.bytes ++ hdr.destipaddr.bytes

/-- The bytes of the TCP header. -/
def tcpBytes (hdr : TcpipHdr) : List UInt8 :=
  memoryBytes hdr.srcport ++ memoryBytes hdr.destport ++ hdr.seqno.toList ++ hdr.ackno.toList ++
    [hdr.tcpoffset, hdr.flags] ++ networkBytes hdr.wnd ++ memoryBytes hdr.tcpchksum ++
    networkBytes hdr.urgp

end TcpipHdr

/-- Sums up bytes in pairs and brings the carries around. -/
def chksum (sum : UInt16) : List UInt8 → UInt16
  | first :: second :: rest =>
    let t := (first.toUInt16 <<< 8) + second.toUInt16
    let sum := sum + t
    chksum (if sum < t then sum + 1 else sum) rest
  | [last] =>
    let t := (last.toUInt16 <<< 8) + 0
    let sum := sum + t
    if sum < t then sum + 1 else sum
  | [] => sum

/-- The checksum of the internet header. -/
def uipIpchksum (hdr : TcpipHdr) : UInt16 :=
  let sum := chksum 0 hdr.ipBytes
  if sum = 0 then 0xffff else htons sum

namespace UipBuf

/-- The bytes behind the internet header. -/
def upper (buf : UipBuf) (count : Nat) : List UInt8 :=
  (buf.hdr.tcpBytes ++ (List.range (count - uipTcphLen)).map buf.data).take count

/-- The checksum of what the internet packet carries, with parts of the internet header. -/
def upperLayerChksum (buf : UipBuf) (proto : UInt8) : UInt16 :=
  let upperLayerLen := buf.hdr.len - 20
  let sum := upperLayerLen + proto.toUInt16
  let sum := chksum sum (buf.hdr.srcipaddr.bytes ++ buf.hdr.destipaddr.bytes)
  let sum := chksum sum (buf.upper upperLayerLen.toNat)
  if sum = 0 then 0xffff else htons sum

/-- The checksum of a TCP segment. -/
def uipTcpchksum (buf : UipBuf) : UInt16 := buf.upperLayerChksum uipProtoTcp

/-- The segment with another checksum. -/
def withTcpchksum (buf : UipBuf) (tcpchksum : UInt16) : UipBuf :=
  { buf with hdr := { buf.hdr with tcpchksum := tcpchksum } }

/-- Stores the checksum of a TCP segment. -/
def setTcpchksum (buf : UipBuf) : UipBuf :=
  (buf.withTcpchksum 0).withTcpchksum (~~~(buf.withTcpchksum 0).uipTcpchksum)

end UipBuf

/-- Stores the checksum of the internet header. -/
def TcpipHdr.setIpchksum (hdr : TcpipHdr) : TcpipHdr :=
  let hdr := { hdr with ipchksum := 0 }
  { hdr with ipchksum := ~~~uipIpchksum hdr }

section Numbers

variable {s : Seqno}

/-- A byte with one more. -/
theorem toNat_succ (b : UInt8) : (b + 1).toNat = (b.toNat + 1) % 256 := by
  rw [UInt8.toNat_add, UInt8.toNat_one]

/-- A byte is zero exactly if its number is. -/
theorem byte_eq_zero {b : UInt8} : b = 0 ↔ b.toNat = 0 := by
  rw [← UInt8.toNat_inj]
  rfl

/-- Four bytes stand for a number below 2 to the 32. -/
theorem Seqno.value_lt : s.value < 4294967296 := by
  have first := s[0].toNat_lt
  have second := s[1].toNat_lt
  have third := s[2].toNat_lt
  have fourth := s[3].toNat_lt
  unfold Seqno.value
  omega

/-- The bytes are below 256. -/
theorem Seqno.bytes_lt (s : Seqno) :
    s[0].toNat < 256 ∧ s[1].toNat < 256 ∧ s[2].toNat < 256 ∧ s[3].toNat < 256 :=
  ⟨s[0].toNat_lt, s[1].toNat_lt, s[2].toNat_lt, s[3].toNat_lt⟩

/-- The first byte counts up without any before it. -/
theorem Seqno.value_bump_zero (s : Seqno) :
    (s.bump 0 (by decide)).value = (s.value + 16777216) % 4294967296 := by
  have below := s.bytes_lt
  simp [bump, value]
  omega

/-- The second byte counts up. -/
theorem Seqno.value_bump_one (s : Seqno) :
    (s.bump 1 (by decide)).value = (s.value + 65536) % 4294967296 := by
  have below := s.bytes_lt
  -- The carry goes to the first byte.
  have carried := value_bump_zero (s.set 1 (s[1] + 1))
  unfold bump
  simp only [Vector.getElem_set_self, byte_eq_zero, toNat_succ, Nat.reduceAdd]
  split
  · rw [carried]
    simp [value]
    omega
  · simp [value]
    omega

/-- The last byte stays when the second one counts up. -/
theorem Seqno.bump_one_last (s : Seqno) : (s.bump 1 (by decide))[3] = s[3] := by
  unfold bump
  simp only [Vector.getElem_set_self]
  split
  · simp [bump]
  · simp

/-- The third byte counts up. -/
theorem Seqno.value_bump_two (s : Seqno) :
    (s.bump 2 (by decide)).value = (s.value + 256) % 4294967296 := by
  have below := s.bytes_lt
  have carried := value_bump_one (s.set 2 (s[2] + 1))
  unfold bump
  simp only [Vector.getElem_set_self, byte_eq_zero, toNat_succ, Nat.reduceAdd]
  split
  · rw [carried]
    simp [value]
    omega
  · simp [value]
    omega

/-- The carries of two bytes are added to the bytes before them. -/
theorem Seqno.value_carries (s : Seqno) (high low : UInt8) :
    let carried := if s[2] < high then s.bump 1 (by decide) else s
    (if carried[3] < low then carried.bump 2 (by decide) else carried).value =
      (s.value + (if s[2] < high then 65536 else 0) + (if s[3] < low then 256 else 0)) %
        4294967296 := by
  -- Each carry adds one to the bytes above it, which stands for 65536 or for 256.
  intro carried
  have below := s.value_lt
  by_cases first : s[2] < high
  · have bumped : carried = s.bump 1 (by decide) := if_pos first
    rw [bumped, s.bump_one_last, if_pos first]
    by_cases second : s[3] < low
    · rw [if_pos second, if_pos second, value_bump_two, value_bump_one]
      omega
    · rw [if_neg second, if_neg second, value_bump_one]
  · have kept : carried = s := if_neg first
    rw [kept, if_neg first]
    by_cases second : s[3] < low
    · rw [if_pos second, if_pos second, value_bump_two]
    · rw [if_neg second, if_neg second]
      omega

/-- Adding byte by byte adds the numbers. -/
theorem value_uipAdd32 (op32 : Seqno) (op16 : UInt16) :
    (uipAdd32 op32 op16).value = (op32.value + op16.toNat) % 4294967296 := by
  have below := op32.bytes_lt
  have small := op16.toNat_lt
  -- The two bytes of the smaller number.
  have high : (op16 >>> 8).toUInt8.toNat = op16.toNat / 256 := by
    rw [UInt16.toNat_toUInt8, UInt16.toNat_shiftRight]
    simp only [UInt16.reduceToNat, Nat.reduceMod, Nat.shiftRight_eq_div_pow, Nat.reducePow]
    omega
  have low : (op16 &&& 0xff).toUInt8.toNat = op16.toNat % 256 := by
    rw [UInt16.toNat_toUInt8, UInt16.toNat_and]
    simp only [UInt16.reduceToNat]
    rw [show 255 = 2 ^ 8 - 1 from rfl, Nat.and_two_pow_sub_one_eq_mod]
    omega
  unfold uipAdd32
  rw [Seqno.value_carries]
  simp only [Seqno.value, Vector.getElem_mk, List.getElem_toArray, List.getElem_cons_zero,
    List.getElem_cons_succ, UInt8.lt_iff_toNat_lt, UInt8.toNat_add, high, low]
  -- A byte that has become smaller than what was added to it had a carry.
  have highCarry : (op32[2].toNat + op16.toNat / 256) % 256 < op16.toNat / 256 ↔
      256 ≤ op32[2].toNat + op16.toNat / 256 := by omega
  have lowCarry : (op32[3].toNat + op16.toNat % 256) % 256 < op16.toNat % 256 ↔
      256 ≤ op32[3].toNat + op16.toNat % 256 := by omega
  simp only [highCarry, lowCarry]
  split
  · split
    · omega
    · omega
  · split
    · omega
    · omega

end Numbers

/-- The sum of the pairs of bytes, without carries brought around. -/
def wordSum : List UInt8 → Nat
  | first :: second :: rest => 256 * first.toNat + second.toNat + wordSum rest
  | [last] => 256 * last.toNat
  | [] => 0

section Sums

open Ones (residue residue_residue_add)

/-- A pair of bytes as a number. -/
theorem toNat_pair (first second : UInt8) :
    ((first.toUInt16 <<< 8) + second.toUInt16).toNat = 256 * first.toNat + second.toNat := by
  have left := first.toNat_lt
  have right := second.toNat_lt
  simp only [UInt16.toNat_add, UInt16.toNat_shiftLeft, UInt8.toNat_toUInt16, UInt16.reduceToNat,
    Nat.reduceMod, Nat.shiftLeft_eq, Nat.reducePow]
  omega

/-- The sum of the bytes is what is left of the sum of their pairs. -/
theorem toNat_chksum (sum : UInt16) (bytes : List UInt8) :
    (chksum sum bytes).toNat = residue 65535 (sum.toNat + wordSum bytes) := by
  -- Each pair is added with its carry brought around.
  fun_induction chksum sum bytes with
  | case1 sum first second rest t next ih =>
    have added := Ones.toNat_add sum t
    have pair : t.toNat = 256 * first.toNat + second.toNat := toNat_pair first second
    rw [ih]
    change residue 65535 ((Ones.add sum t).toNat + wordSum rest) = _
    rw [added, residue_residue_add, pair, wordSum, Nat.add_assoc]
  | case2 sum last t next carry =>
    have added := Ones.toNat_add sum t
    have pair : t.toNat = 256 * last.toNat := toNat_pair last 0
    rw [Ones.add, if_pos carry, pair] at added
    exact added
  | case3 sum last t next carry =>
    have added := Ones.toNat_add sum t
    have pair : t.toNat = 256 * last.toNat := toNat_pair last 0
    rw [Ones.add, if_neg carry, pair] at added
    exact added
  | case4 sum =>
    have below := sum.toNat_lt
    simp only [wordSum, Nat.add_zero]
    exact (Ones.residue_of_le (by omega)).symm

/-- The order of the two bytes is exchanged. -/
theorem toNat_htons (n : UInt16) : (htons n).toNat = 256 * (n.toNat % 256) + n.toNat / 256 := by
  have below := n.toNat_lt
  unfold htons
  simp only [UInt16.toNat_or, UInt16.toNat_shiftLeft, UInt16.toNat_shiftRight, UInt16.reduceToNat,
    Nat.reduceMod, Nat.shiftRight_eq_div_pow, Nat.reducePow]
  have high : n.toNat <<< 8 % 65536 = (n.toNat % 256) <<< 8 := by
    simp only [Nat.shiftLeft_eq, Nat.reducePow]
    omega
  have low : n.toNat / 256 < 2 ^ 8 := by omega
  rw [high, ← Nat.shiftLeft_add_eq_or_of_lt low, Nat.shiftLeft_eq]
  omega

/-- The order of the bytes does not matter to numbers whose bytes are equal. -/
theorem htons_eq_ones {n : UInt16} : htons n = 0xffff ↔ n.toNat = 65535 := by
  have below := n.toNat_lt
  rw [← UInt16.toNat_inj, toNat_htons]
  simp only [UInt16.reduceToNat]
  omega

/-- A field that is kept as bytes is added as it is. -/
theorem wordSum_networkBytes (n : UInt16) (rest : List UInt8) :
    wordSum (networkBytes n ++ rest) = n.toNat + wordSum rest := by
  have below := n.toNat_lt
  simp only [networkBytes, List.cons_append, List.nil_append, wordSum, UInt16.toNat_toUInt8,
    UInt16.toNat_shiftRight, UInt16.reduceToNat, Nat.reduceMod, Nat.shiftRight_eq_div_pow,
    Nat.reducePow]
  omega

/-- A field that is kept as a number is added with its bytes exchanged. -/
theorem wordSum_memoryBytes (n : UInt16) (rest : List UInt8) :
    wordSum (memoryBytes n ++ rest) = (htons n).toNat + wordSum rest := by
  have below := n.toNat_lt
  rw [toNat_htons]
  simp only [memoryBytes, List.cons_append, List.nil_append, wordSum, UInt16.toNat_toUInt8,
    UInt16.toNat_shiftRight, UInt16.reduceToNat, Nat.reduceMod, Nat.shiftRight_eq_div_pow,
    Nat.reducePow]
  omega

/-- The part of a sum that an address makes up. -/
def IpAddr.sum (ipaddr : IpAddr) : Nat :=
  (htons ipaddr.first).toNat + (htons ipaddr.second).toNat

/-- An address adds its two halves. -/
theorem wordSum_bytes (ipaddr : IpAddr) (rest : List UInt8) :
    wordSum (ipaddr.bytes ++ rest) = ipaddr.sum + wordSum rest := by
  rw [IpAddr.bytes, List.append_assoc, wordSum_memoryBytes, wordSum_memoryBytes, IpAddr.sum]
  omega

/-- The sum of the internet header. -/
theorem wordSum_ipBytes (hdr : TcpipHdr) : wordSum hdr.ipBytes =
    (256 * hdr.vhl.toNat + hdr.tos.toNat) + hdr.len.toNat + hdr.ipid.toNat +
      hdr.ipoffset.toNat + (256 * hdr.ttl.toNat + hdr.proto.toNat) +
      (htons hdr.ipchksum).toNat + hdr.srcipaddr.sum + hdr.destipaddr.sum := by
  have last : wordSum hdr.destipaddr.bytes = hdr.destipaddr.sum := by
    simpa only [List.append_nil, wordSum, Nat.add_zero] using wordSum_bytes hdr.destipaddr []
  unfold TcpipHdr.ipBytes
  simp only [List.append_assoc, List.cons_append, List.nil_append, wordSum, wordSum_networkBytes,
    wordSum_memoryBytes, wordSum_bytes, last]
  omega

/-- The part of a sum that four bytes make up. -/
def Seqno.sum (s : Seqno) : Nat :=
  256 * s[0].toNat + s[1].toNat + (256 * s[2].toNat + s[3].toNat)

/-- Four bytes make up two pairs. -/
theorem wordSum_toList (s : Seqno) (rest : List UInt8) :
    wordSum (s.toList ++ rest) = s.sum + wordSum rest := by
  have bytes : s.toList = [s[0], s[1], s[2], s[3]] := by
    apply List.ext_getElem
    · simp
    · intro k inside other
      match k, other with
      | 0, _ => simp
      | 1, _ => simp
      | 2, _ => simp
      | 3, _ => simp
  rw [bytes]
  simp only [List.cons_append, List.nil_append, wordSum, Seqno.sum]
  omega

/-- The sum of the TCP header, followed by the data. -/
theorem wordSum_tcpBytes (hdr : TcpipHdr) (rest : List UInt8) :
    wordSum (hdr.tcpBytes ++ rest) = (htons hdr.srcport).toNat + (htons hdr.destport).toNat +
      hdr.seqno.sum + hdr.ackno.sum + (256 * hdr.tcpoffset.toNat + hdr.flags.toNat) +
      hdr.wnd.toNat + (htons hdr.tcpchksum).toNat + hdr.urgp.toNat + wordSum rest := by
  unfold TcpipHdr.tcpBytes
  simp only [List.append_assoc, List.cons_append, List.nil_append, wordSum, wordSum_networkBytes,
    wordSum_memoryBytes, wordSum_toList]
  omega

/-- The TCP header has its length. -/
theorem length_tcpBytes (hdr : TcpipHdr) : hdr.tcpBytes.length = uipTcphLen := by
  simp [TcpipHdr.tcpBytes, networkBytes, memoryBytes]

/-- What a checksum function makes of a sum. -/
theorem sum_passes {sum : UInt16} :
    (if sum = 0 then 0xffff else htons sum) = 0xffff ↔ sum.toNat = 0 ∨ sum.toNat = 65535 := by
  split
  · rename_i zero
    rw [zero]
    exact iff_of_true rfl (Or.inl rfl)
  · rename_i positive
    have nonzero : sum.toNat ≠ 0 := fun zero => positive (UInt16.toNat_inj.mp zero)
    rw [htons_eq_ones]
    exact ⟨Or.inr, fun either => either.resolve_left nonzero⟩

/-- A checksum is stored as the part that the sum lacks. -/
theorem toNat_stored (sum : UInt16) :
    (htons (~~~(if sum = 0 then 0xffff else htons sum))).toNat =
      if sum.toNat = 0 then 0 else 65535 - sum.toNat := by
  have below := sum.toNat_lt
  rw [toNat_htons, UInt16.toNat_not]
  split
  · rename_i zero
    rw [zero]
    rfl
  · rename_i positive
    have nonzero : sum.toNat ≠ 0 := fun zero => positive (UInt16.toNat_inj.mp zero)
    rw [if_neg nonzero, toNat_htons]
    simp only [UInt16.size]
    omega

/-- A header passes its check if its sum is a multiple of 65535. -/
theorem uipIpchksum_iff (hdr : TcpipHdr) :
    uipIpchksum hdr = 0xffff ↔ 65535 ∣ wordSum hdr.ipBytes := by
  unfold uipIpchksum
  rw [sum_passes, toNat_chksum, UInt16.toNat_zero, Nat.zero_add,
    Ones.residue_iff_dvd (by decide)]

/-- All that the checksum of a segment is computed from. -/
def UipBuf.total (buf : UipBuf) : Nat :=
  (buf.hdr.len - 20 + uipProtoTcp.toUInt16).toNat +
    (buf.hdr.srcipaddr.sum + buf.hdr.destipaddr.sum) +
    wordSum (buf.upper (buf.hdr.len - 20).toNat)

/-- The sum of a segment is what is left of all that it is computed from. -/
theorem toNat_upperSum (buf : UipBuf) :
    (chksum (chksum (buf.hdr.len - 20 + uipProtoTcp.toUInt16)
      (buf.hdr.srcipaddr.bytes ++ buf.hdr.destipaddr.bytes))
      (buf.upper (buf.hdr.len - 20).toNat)).toNat = residue 65535 buf.total := by
  have last : wordSum buf.hdr.destipaddr.bytes = buf.hdr.destipaddr.sum := by
    simpa only [List.append_nil, wordSum, Nat.add_zero] using wordSum_bytes buf.hdr.destipaddr []
  rw [toNat_chksum, toNat_chksum, residue_residue_add, wordSum_bytes, last, UipBuf.total]

/-- A segment passes its check if all that the checksum is computed from is a multiple of 65535. -/
theorem uipTcpchksum_iff (buf : UipBuf) : buf.uipTcpchksum = 0xffff ↔ 65535 ∣ buf.total := by
  unfold UipBuf.uipTcpchksum UipBuf.upperLayerChksum
  rw [sum_passes, toNat_upperSum, Ones.residue_iff_dvd (by decide)]

/-- A stored checksum completes a sum to a multiple of 65535. -/
theorem dvd_stored {sum : UInt16} {base : Nat} (same : sum.toNat = residue 65535 base) :
    65535 ∣ base + (htons (~~~(if sum = 0 then 0xffff else htons sum))).toNat := by
  have bound : residue 65535 base ≤ 65535 := Ones.residue_le (by decide)
  have rest : residue 65535 base % 65535 = base % 65535 := Ones.residue_mod
  rw [toNat_stored]
  rw [← same] at bound rest
  split
  · rename_i zero
    rw [same, Ones.residue_eq_zero] at zero
    rw [zero]
    exact ⟨0, rfl⟩
  · apply Nat.dvd_of_mod_eq_zero
    omega

/-- A header whose checksum is stored passes its check. -/
theorem setIpchksum_passes (hdr : TcpipHdr) : uipIpchksum hdr.setIpchksum = 0xffff := by
  rw [uipIpchksum_iff, wordSum_ipBytes]
  have zero : (htons 0).toNat = 0 := rfl
  have base := wordSum_ipBytes { hdr with ipchksum := 0 }
  have same := toNat_chksum 0 { hdr with ipchksum := 0 }.ipBytes
  rw [UInt16.toNat_zero, Nat.zero_add] at same
  have completed := dvd_stored same
  rw [base, zero] at completed
  unfold TcpipHdr.setIpchksum uipIpchksum
  convert completed using 1
  dsimp only
  omega

/-- What a segment adds to a checksum, if it is no shorter than its header. -/
theorem total_eq {buf : UipBuf} (whole : uipTcphLen ≤ (buf.hdr.len - 20).toNat) : buf.total =
    (buf.hdr.len - 20 + uipProtoTcp.toUInt16).toNat +
      (buf.hdr.srcipaddr.sum + buf.hdr.destipaddr.sum) +
      wordSum (buf.hdr.tcpBytes ++
        (List.range ((buf.hdr.len - 20).toNat - uipTcphLen)).map buf.data) := by
  unfold UipBuf.total UipBuf.upper
  rw [List.take_of_length_le]
  rw [List.length_append, length_tcpBytes, List.length_map, List.length_range]
  omega

/-- The checksum of a segment is a part of what it is computed from. -/
theorem total_withTcpchksum {buf : UipBuf} (whole : uipTcphLen ≤ (buf.hdr.len - 20).toNat)
    (tcpchksum : UInt16) : (buf.withTcpchksum tcpchksum).total =
      (buf.withTcpchksum 0).total + (htons tcpchksum).toNat := by
  have zero : (htons 0).toNat = 0 := rfl
  have same (tcpchksum : UInt16) : (buf.withTcpchksum tcpchksum).hdr.len = buf.hdr.len := rfl
  rw [total_eq (by rw [same]; exact whole), total_eq (by rw [same]; exact whole),
    wordSum_tcpBytes, wordSum_tcpBytes]
  simp only [UipBuf.withTcpchksum, zero]
  omega

/-- A segment whose checksum is stored passes its check. -/
theorem setTcpchksum_passes {buf : UipBuf} (whole : uipTcphLen ≤ (buf.hdr.len - 20).toNat) :
    buf.setTcpchksum.uipTcpchksum = 0xffff := by
  have completed := dvd_stored (toNat_upperSum (buf.withTcpchksum 0))
  rw [uipTcpchksum_iff]
  have still : uipTcphLen ≤ ((buf.withTcpchksum 0).hdr.len - 20).toNat := whole
  have added := total_withTcpchksum still (~~~(buf.withTcpchksum 0).uipTcpchksum)
  unfold UipBuf.setTcpchksum
  rw [added]
  exact completed

/-- Bytes behind an even number of bytes are added separately. -/
theorem wordSum_append {before : List UInt8} (even : 2 ∣ before.length) (after : List UInt8) :
    wordSum (before ++ after) = wordSum before + wordSum after := by
  fun_induction wordSum before with
  | case1 first second rest ih =>
    have shorter : 2 ∣ rest.length := by
      rw [List.length_cons, List.length_cons] at even
      omega
    simp only [List.cons_append, wordSum, ih shorter]
    omega
  | case2 last =>
    rw [List.length_singleton] at even
    omega
  | case3 => rw [List.nil_append, Nat.zero_add]

/-- A header with the addresses of a packet. -/
def blankHdr (srcipaddr destipaddr : IpAddr) (srcport destport : UInt16) : TcpipHdr where
  vhl := 0x45
  tos := 0
  len := 40
  ipid := 0
  ipoffset := 0
  ttl := 64
  proto := uipProtoTcp
  ipchksum := 0
  srcipaddr := srcipaddr
  destipaddr := destipaddr
  srcport := srcport
  destport := destport
  seqno := Seqno.ofByte 0
  ackno := Seqno.ofByte 0
  tcpoffset := 0x50
  flags := 0
  wnd := 1000
  tcpchksum := 0
  urgp := 0

/-- A segment that carries two bytes. -/
def pairSegment (b : UInt8) : UipBuf :=
  { UipBuf.setTcpchksum ⟨{ blankHdr ⟨1, 2⟩ ⟨1, 3⟩ 7 80 with len := 42 }, fun _ => 0⟩ with
    data := fun _ => b }

/-- A damaged pair of bytes makes a segment fail its check, unless it was zero and all bits are one
now, or the other way around. -/
theorem damage_detected {buf damaged : UipBuf} (passes : buf.uipTcpchksum = 0xffff)
    (accepted : damaged.uipTcpchksum = 0xffff) (len : damaged.hdr.len = buf.hdr.len)
    (src : damaged.hdr.srcipaddr = buf.hdr.srcipaddr)
    (dest : damaged.hdr.destipaddr = buf.hdr.destipaddr)
    {before after : List UInt8} {first second first' second' : UInt8}
    (even : 2 ∣ before.length)
    (sent : buf.upper (buf.hdr.len - 20).toNat = before ++ first :: second :: after)
    (received : damaged.upper (buf.hdr.len - 20).toNat = before ++ first' :: second' :: after) :
    first' = first ∧ second' = second ∨
      (first, second, first', second') ∈ [(0, 0, 0xff, 0xff), (0xff, 0xff, 0, 0)] := by
  rw [uipTcpchksum_iff] at passes accepted
  unfold UipBuf.total at passes accepted
  rw [len, src, dest, received, wordSum_append even, wordSum] at accepted
  rw [sent, wordSum_append even, wordSum] at passes
  have bounds : first.toNat < 256 ∧ second.toNat < 256 ∧ first'.toNat < 256 ∧
      second'.toNat < 256 :=
    ⟨first.toNat_lt, second.toNat_lt, first'.toNat_lt, second'.toNat_lt⟩
  -- Both pairs complete the rest of the sum.
  have words : 256 * first.toNat + second.toNat = 256 * first'.toNat + second'.toNat ∨
      256 * first.toNat + second.toNat = 0 ∧ 256 * first'.toNat + second'.toNat = 65535 ∨
      256 * first.toNat + second.toNat = 65535 ∧ 256 * first'.toNat + second'.toNat = 0 := by
    let rest := (buf.hdr.len - 20 + uipProtoTcp.toUInt16).toNat +
      (buf.hdr.srcipaddr.sum + buf.hdr.destipaddr.sum) + (wordSum before + wordSum after)
    have completes : 65535 ∣ rest + (256 * first.toNat + second.toNat) := by
      convert passes using 1
      omega
    have completes' : 65535 ∣ rest + (256 * first'.toNat + second'.toNat) := by
      convert accepted using 1
      omega
    apply Ones.eq_of_completes _ _ completes completes'
    · omega
    · omega
  have pairs : first'.toNat = first.toNat ∧ second'.toNat = second.toNat ∨
      first.toNat = 0 ∧ second.toNat = 0 ∧ first'.toNat = 255 ∧ second'.toNat = 255 ∨
      first.toNat = 255 ∧ second.toNat = 255 ∧ first'.toNat = 0 ∧ second'.toNat = 0 := by
    omega
  have zero : (0 : UInt8).toNat = 0 := rfl
  have ones : (0xff : UInt8).toNat = 255 := rfl
  simp only [List.mem_cons, Prod.mk.injEq, List.not_mem_nil, or_false, ← UInt8.toNat_inj, zero,
    ones]
  exact pairs

/-- A pair of zeros whose bits have all become one is not noticed. -/
theorem damage_detected_zeros : (pairSegment 0xff).uipTcpchksum = 0xffff ∧
    ((0xff : UInt8) = 0 ∧ (0xff : UInt8) = 0 ∨ ((0 : UInt8), (0 : UInt8), (0xff : UInt8),
      (0xff : UInt8)) ∈ [(0, 0, 0xff, 0xff), (0xff, 0xff, 0, 0)]) := by
  have accepted : (pairSegment 0xff).uipTcpchksum = 0xffff := by decide +kernel
  refine ⟨accepted, ?_⟩
  exact @damage_detected (pairSegment 0) (pairSegment 0xff) (by decide +kernel) accepted rfl rfl rfl
    (pairSegment 0).hdr.tcpBytes [] 0 0 0xff 0xff (by decide +kernel) (by decide +kernel)
    (by decide +kernel)

end Sums

end Egos.Uip
