import Egos.Lib.Runs
import Mathlib.Data.Finset.Card
import Mathlib.Data.Fintype.Card
import Mathlib.Data.List.FinRange
import Mathlib.Logic.Function.Basic
import Mathlib.Algebra.Order.Group.Unbundled.Int

/-! The table that maps internet addresses to Ethernet addresses, and the packets that fill it. -/

namespace Egos.Uip

/-- How many addresses the table holds. -/
abbrev arptabSize : Nat := 8

/-- The age at which an entry of the table is given up. -/
abbrev arpMaxage : Nat := 120

/-- The length of an address resolution packet with its Ethernet header. -/
abbrev arpHdrSize : Nat := 42

/-- The operation of a request. -/
abbrev arpRequest : UInt16 := 1

/-- The operation of a reply. -/
abbrev arpReply : UInt16 := 2

/-- The kind of hardware address of Ethernet. -/
abbrev arpHwtypeEth : UInt16 := 1

/-- The type of a frame with an address resolution packet. -/
abbrev ethtypeArp : UInt16 := 0x0806

/-- The type of a frame with an internet packet. -/
abbrev ethtypeIp : UInt16 := 0x0800

/-- Turns a number into the byte order of the network. -/
def htons (n : UInt16) : UInt16 := (n <<< 8) ||| (n >>> 8)

/-- An internet address, in the two halves that the code compares. -/
structure IpAddr where
  first : UInt16
  second : UInt16
  deriving DecidableEq

/-- The address that marks an unused entry. -/
def IpAddr.zero : IpAddr := ⟨0, 0⟩

/-- The address of everybody on the local network. -/
def broadcastIpaddr : IpAddr := ⟨0xffff, 0xffff⟩

/-- Two addresses are on the same network. -/
def IpAddr.maskcmp (left right mask : IpAddr) : Bool :=
  left.first &&& mask.first = right.first &&& mask.first ∧
    left.second &&& mask.second = right.second &&& mask.second

/-- An Ethernet address. -/
abbrev EthAddr := Vector UInt8 6

/-- The Ethernet address of everybody. -/
def broadcastEthaddr : EthAddr := Vector.replicate 6 0xff

/-- An entry of the table. -/
structure ArpEntry where
  ipaddr : IpAddr
  ethaddr : EthAddr
  time : UInt8
  deriving DecidableEq

/-- The table with the time at which entries are made. -/
structure ArpTable where
  entry : Fin arptabSize → ArpEntry
  arptime : UInt8

/-- The configuration of a host. -/
structure Host where
  hostaddr : IpAddr
  netmask : IpAddr
  -- The address of the default router.
  draddr : IpAddr
  ethaddr : EthAddr

/-- An address resolution packet with its Ethernet header. -/
structure ArpHdr where
  dest : EthAddr
  src : EthAddr
  type : UInt16
  hwtype : UInt16
  protocol : UInt16
  hwlen : UInt8
  protolen : UInt8
  opcode : UInt16
  shwaddr : EthAddr
  sipaddr : IpAddr
  dhwaddr : EthAddr
  dipaddr : IpAddr
  deriving DecidableEq

/-- An Ethernet header. -/
structure EthHdr where
  dest : EthAddr
  src : EthAddr
  type : UInt16
  deriving DecidableEq

/-- What becomes of a packet that is sent. -/
inductive ArpOut where
  -- The packet goes out with this header in front of it.
  | packet (header : EthHdr)
  -- The packet is replaced by a request for the address of the next host.
  | request (hdr : ArpHdr)
  deriving DecidableEq

namespace ArpTable

/-- Marks all entries as unused. -/
def uipArpInit (table : ArpTable) : ArpTable :=
  { table with entry := fun i => { table.entry i with ipaddr := .zero } }

/-- How long ago an entry was made, as far as the wrapping clock tells. -/
def age (table : ArpTable) (i : Fin arptabSize) : Int :=
  (table.arptime.toNat : Int) - ((table.entry i).time.toNat : Int)

/-- Lets time pass and gives up old entries. -/
def uipArpTimer (table : ArpTable) : ArpTable :=
  let table := { table with arptime := table.arptime + 1 }
  { table with entry := fun i =>
      let tabptr := table.entry i
      if tabptr.ipaddr.first ||| tabptr.ipaddr.second ≠ 0 ∧ table.age i ≥ arpMaxage
      then { tabptr with ipaddr := .zero } else tabptr }

/-- The entry that an announcement updates. -/
def matching (table : ArpTable) (ipaddr : IpAddr) : Option (Fin arptabSize) :=
  (List.finRange arptabSize).find? fun i =>
    -- Only entries whose halves are both in use are checked.
    (table.entry i).ipaddr.first ≠ 0 ∧ (table.entry i).ipaddr.second ≠ 0 ∧
      ipaddr = (table.entry i).ipaddr

/-- The first unused entry. -/
def unused (table : ArpTable) : Option (Fin arptabSize) :=
  (List.finRange arptabSize).find? fun i => (table.entry i).ipaddr = .zero

/-- The oldest entry, or the first one if the clock makes none older than now. -/
def oldest (table : ArpTable) : Fin arptabSize :=
  ((List.finRange arptabSize).foldl (fun (found : Int × Fin arptabSize) i =>
    if table.age i > found.1 then (table.age i, i) else found) (0, 0)).2

/-- The entry that an announcement fills. -/
def place (table : ArpTable) (ipaddr : IpAddr) : Fin arptabSize :=
  (table.matching ipaddr).getD (table.unused.getD table.oldest)

/-- Enters an address, in place of its last entry, of an unused one, or of the oldest one. -/
def uipArpUpdate (table : ArpTable) (ipaddr : IpAddr) (ethaddr : EthAddr) : ArpTable :=
  match table.matching ipaddr with
  | some i =>
    let tabptr := { table.entry i with ethaddr := ethaddr, time := table.arptime }
    { table with entry := Function.update table.entry i tabptr }
  | none =>
    let i := table.unused.getD table.oldest
    { table with entry := Function.update table.entry i ⟨ipaddr, ethaddr, table.arptime⟩ }

/-- Turns a request around. -/
def answer (host : Host) (buf : ArpHdr) : ArpHdr :=
  { buf with
    opcode := htons 2
    dhwaddr := buf.shwaddr
    shwaddr := host.ethaddr
    src := host.ethaddr
    dest := buf.shwaddr
    dipaddr := buf.sipaddr
    sipaddr := host.hostaddr
    type := htons ethtypeArp }

/-- Takes an address resolution packet, and may answer it. -/
def uipArpArpin (host : Host) (table : ArpTable) (uipLen : Nat) (buf : ArpHdr) :
    ArpTable × Option ArpHdr :=
  if uipLen < arpHdrSize then (table, none)
  else if buf.opcode = htons arpRequest then
    if buf.dipaddr = host.hostaddr then
      (table.uipArpUpdate buf.sipaddr buf.shwaddr, some (answer host buf))
    else (table, none)
  else if buf.opcode = htons arpReply then
    if buf.dipaddr = host.hostaddr then (table.uipArpUpdate buf.sipaddr buf.shwaddr, none)
    else (table, none)
  else (table, none)

/-- The host to which a packet is handed first. -/
def nextHop (host : Host) (destipaddr : IpAddr) : IpAddr :=
  if destipaddr.maskcmp host.hostaddr host.netmask then destipaddr else host.draddr

/-- The first entry with an address. -/
def lookup (table : ArpTable) (ipaddr : IpAddr) : Option (Fin arptabSize) :=
  (List.finRange arptabSize).find? fun i => ipaddr = (table.entry i).ipaddr

/-- The request for the Ethernet address of a host. -/
def requestFor (host : Host) (ipaddr : IpAddr) : ArpHdr where
  dest := broadcastEthaddr
  dhwaddr := Vector.replicate 6 0
  src := host.ethaddr
  shwaddr := host.ethaddr
  dipaddr := ipaddr
  sipaddr := host.hostaddr
  opcode := htons arpRequest
  hwtype := htons arpHwtypeEth
  protocol := htons ethtypeIp
  hwlen := 6
  protolen := 4
  type := htons ethtypeArp

/-- Puts an Ethernet header in front of a packet, or asks for the address that it needs. -/
def uipArpOut (host : Host) (table : ArpTable) (destipaddr : IpAddr) : ArpOut :=
  if destipaddr = broadcastIpaddr then
    .packet ⟨broadcastEthaddr, host.ethaddr, htons ethtypeIp⟩
  else
    match table.lookup (nextHop host destipaddr) with
    | none => .request (requestFor host (nextHop host destipaddr))
    | some i => .packet ⟨(table.entry i).ethaddr, host.ethaddr, htons ethtypeIp⟩

end ArpTable

/-- An address resolution packet that was taken to announce an address. -/
structure Announcement where
  ipaddr : IpAddr
  ethaddr : EthAddr
  deriving DecidableEq

/-- What happens to the table. -/
inductive ArpEvent where
  | packet (uipLen : Nat) (buf : ArpHdr)
  | timer

/-- The address that was announced last for an internet address. -/
def announced (history : List Announcement) (ipaddr : IpAddr) : Option EthAddr :=
  (history.reverse.find? fun announcement => announcement.ipaddr = ipaddr).map
    Announcement.ethaddr

/-- Both halves of an address are in use, so that the table recognizes its entries. -/
def IpAddr.Proper (ipaddr : IpAddr) : Prop := ipaddr.first ≠ 0 ∧ ipaddr.second ≠ 0
  deriving Decidable

/-- The configuration of the web server. -/
def Host.http : Host where
  hostaddr := ⟨htons 0xc0a8, htons 0x0002⟩
  netmask := ⟨htons 0xffff, htons 0xff00⟩
  draddr := ⟨htons 0xc0a8, htons 0x0001⟩
  ethaddr := ⟨#[0x52, 0x54, 0x00, 0x00, 0x00, 0x01], rfl⟩

/-- The router of the web server. -/
def Host.router : Host where
  hostaddr := ⟨htons 0xc0a8, htons 0x0001⟩
  netmask := ⟨htons 0xffff, htons 0xff00⟩
  draddr := ⟨htons 0xc0a8, htons 0x0001⟩
  ethaddr := ⟨#[0x52, 0x54, 0x00, 0x00, 0x00, 0x02], rfl⟩

namespace ArpTable

/-- A packet announces an address to a host. -/
def Announces (host : Host) (uipLen : Nat) (buf : ArpHdr) : Bool :=
  arpHdrSize ≤ uipLen ∧ (buf.opcode = htons arpRequest ∨ buf.opcode = htons arpReply) ∧
    buf.dipaddr = host.hostaddr

/-- One event of the table, with what was announced to it. -/
inductive Steps (host : Host) : ArpTable → ArpEvent → ArpTable → List Announcement → Prop
  | packet {table : ArpTable} {uipLen : Nat} {buf : ArpHdr} :
      Steps host table (.packet uipLen buf) (table.uipArpArpin host uipLen buf).1
        (if Announces host uipLen buf then [⟨buf.sipaddr, buf.shwaddr⟩] else [])
  | timer {table : ArpTable} : Steps host table .timer table.uipArpTimer []

/-- The tables that are reached after the start. -/
abbrev Reaches (host : Host) (before : ArpTable) : ArpTable → List Announcement → Prop :=
  Run (Steps host) before.uipArpInit

/-- The table holds each address at most once, with what was announced last. -/
structure Coherent (table : ArpTable) (history : List Announcement) : Prop where
  unique : ∀ i j, (table.entry i).ipaddr.Proper →
    (table.entry i).ipaddr = (table.entry j).ipaddr → i = j
  latest : ∀ i, (table.entry i).ipaddr.Proper →
    announced history (table.entry i).ipaddr = some (table.entry i).ethaddr

section Entries

variable {table : ArpTable} {ipaddr : IpAddr} {ethaddr : EthAddr} {i : Fin arptabSize}
variable {history : List Announcement}

/-- An address is announced by the last packet or by an earlier one. -/
theorem announced_append (last : Announcement) : announced (history ++ [last]) ipaddr =
    if last.ipaddr = ipaddr then some last.ethaddr else announced history ipaddr := by
  -- The search from the end of the history meets the last packet first.
  unfold announced
  rw [List.reverse_append, List.reverse_singleton, List.singleton_append, List.find?_cons]
  by_cases same : last.ipaddr = ipaddr
  · simp [same]
  · simp [same]

/-- The entry that is updated has the address, which is recognized only with both halves. -/
theorem matching_eq_some (found : table.matching ipaddr = some i) :
    (table.entry i).ipaddr = ipaddr ∧ ipaddr.Proper := by
  have checked := List.find?_some found
  simp only [ne_eq, decide_not, Bool.decide_and, Bool.and_eq_true, Bool.not_eq_true',
    decide_eq_false_iff_not, decide_eq_true_eq] at checked
  obtain ⟨first, second, rfl⟩ := checked
  exact ⟨rfl, first, second⟩

/-- An address with both halves that is not found has no entry. -/
theorem matching_eq_none (missed : table.matching ipaddr = none) (proper : ipaddr.Proper)
    (i : Fin arptabSize) : (table.entry i).ipaddr ≠ ipaddr := by
  rintro rfl
  -- The entry would have passed the check of the search.
  have failed := List.find?_eq_none.mp missed i (List.mem_finRange i)
  simp only [ne_eq, decide_not, and_true, Bool.decide_and, Bool.and_eq_true, Bool.not_eq_true',
    decide_eq_false_iff_not, not_and, Decidable.not_not] at failed
  exact proper.2 (failed proper.1)

/-- An update changes the entry at one place. -/
theorem update_entry : (table.uipArpUpdate ipaddr ethaddr).entry =
    Function.update table.entry (table.place ipaddr) ⟨ipaddr, ethaddr, table.arptime⟩ := by
  unfold uipArpUpdate place
  cases found : table.matching ipaddr with
  | none => rfl
  | some i =>
    -- The entry keeps its address, which is the one that is announced.
    obtain ⟨same, -⟩ := matching_eq_some found
    simp only [Option.getD_some, same]

/-- No other place than the one that is updated has the address. -/
theorem Coherent.place_eq (coherent : table.Coherent history) (proper : ipaddr.Proper)
    (same : (table.entry i).ipaddr = ipaddr) : i = table.place ipaddr := by
  unfold place
  cases found : table.matching ipaddr with
  | none => exact absurd same (matching_eq_none found proper i)
  | some j =>
    obtain ⟨named, -⟩ := matching_eq_some found
    apply coherent.unique i j
    · rw [same]
      exact proper
    · rw [same, named]

/-- An announcement keeps the table coherent. -/
theorem Coherent.update (coherent : table.Coherent history) :
    (table.uipArpUpdate ipaddr ethaddr).Coherent (history ++ [⟨ipaddr, ethaddr⟩]) := by
  -- Every place but the updated one keeps its entry.
  have here : (table.uipArpUpdate ipaddr ethaddr).entry (table.place ipaddr) =
      ⟨ipaddr, ethaddr, table.arptime⟩ := by
    rw [update_entry, Function.update_self]
  have elsewhere : ∀ i, i ≠ table.place ipaddr →
      (table.uipArpUpdate ipaddr ethaddr).entry i = table.entry i := by
    intro i apart
    rw [update_entry, Function.update_of_ne apart]
  constructor
  · intro i j proper same
    by_cases first : i = table.place ipaddr
    · by_cases second : j = table.place ipaddr
      · rw [first, second]
      · -- Another entry with the announced address would have been the one to update.
        rw [first, here] at proper same
        rw [elsewhere j second] at same
        exact absurd (coherent.place_eq proper same.symm) second
    · rw [elsewhere i first] at proper same
      by_cases second : j = table.place ipaddr
      · rw [second, here] at same
        have named : (table.entry i).ipaddr = ipaddr := same
        have announced : ipaddr.Proper := by
          rw [← named]
          exact proper
        exact absurd (coherent.place_eq announced named) first
      · rw [elsewhere j second] at same
        exact coherent.unique i j proper same
  · intro i proper
    rw [announced_append]
    by_cases place : i = table.place ipaddr
    · rw [place, here, if_pos rfl]
    · rw [elsewhere i place] at proper ⊢
      have other : ipaddr ≠ (table.entry i).ipaddr := by
        intro same
        have announced : ipaddr.Proper := by
          rw [same]
          exact proper
        exact place (coherent.place_eq announced same.symm)
      rw [if_neg other]
      exact coherent.latest i proper

/-- An address that has been given up is not recognized. -/
theorem not_proper_zero : ¬ IpAddr.zero.Proper := fun proper => proper.1 rfl

/-- Entries that are given up keep the table coherent. -/
theorem Coherent.givenUp {next : ArpTable} (coherent : table.Coherent history)
    (entries : ∀ i, next.entry i = table.entry i ∨ (next.entry i).ipaddr = .zero) :
    next.Coherent history := by
  -- An entry with a proper address has been kept.
  have kept : ∀ i, (next.entry i).ipaddr.Proper → next.entry i = table.entry i := by
    intro i proper
    rcases entries i with same | zero
    · exact same
    · rw [zero] at proper
      exact absurd proper not_proper_zero
  constructor
  · intro i j proper same
    have other : (next.entry j).ipaddr.Proper := by
      rw [← same]
      exact proper
    have first := kept i proper
    rw [first] at proper same
    rw [kept j other] at same
    exact coherent.unique i j proper same
  · intro i proper
    have same := kept i proper
    rw [same] at proper ⊢
    exact coherent.latest i proper

/-- Time keeps the table coherent. -/
theorem Coherent.timer (coherent : table.Coherent history) :
    table.uipArpTimer.Coherent history := by
  apply coherent.givenUp
  intro i
  simp only [uipArpTimer]
  split
  · exact Or.inr rfl
  · exact Or.inl rfl

/-- A packet updates the table exactly if it announces an address to the host. -/
theorem arpin_table (host : Host) (uipLen : Nat) (buf : ArpHdr) :
    (table.uipArpArpin host uipLen buf).1 =
      if Announces host uipLen buf then table.uipArpUpdate buf.sipaddr buf.shwaddr else table := by
  -- Both kinds of packets update the table with their sender and with nothing else.
  unfold uipArpArpin Announces
  by_cases short : uipLen < arpHdrSize
  · have wide : ¬ arpHdrSize ≤ uipLen := by omega
    simp [short, wide]
  · have wide : arpHdrSize ≤ uipLen := by omega
    by_cases request : buf.opcode = htons arpRequest
    · by_cases mine : buf.dipaddr = host.hostaddr
      · simp [short, wide, request, mine]
      · simp [short, wide, request, mine]
    · have apart : htons arpReply ≠ htons arpRequest := by decide
      by_cases reply : buf.opcode = htons arpReply
      · by_cases mine : buf.dipaddr = host.hostaddr
        · simp [short, wide, reply, mine, apart]
        · simp [short, wide, reply, mine, apart]
      · simp [short, request, reply]

/-- Packets keep the table coherent. -/
theorem Coherent.packet (coherent : table.Coherent history) (host : Host) (uipLen : Nat)
    (buf : ArpHdr) : (table.uipArpArpin host uipLen buf).1.Coherent
      (history ++ if Announces host uipLen buf then [⟨buf.sipaddr, buf.shwaddr⟩] else []) := by
  rw [arpin_table]
  split
  · exact coherent.update
  · rw [List.append_nil]
    exact coherent

/-- The table starts with unused entries. -/
theorem init_coherent (before : ArpTable) : before.uipArpInit.Coherent [] := by
  constructor
  · intro i j proper
    exact absurd proper not_proper_zero
  · intro i proper
    exact absurd proper not_proper_zero

/-- The table stays coherent. -/
theorem Reaches.coherent {host : Host} {before : ArpTable}
    (run : Reaches host before table history) : table.Coherent history := by
  apply Run.invariant Coherent (init_coherent before) _ run
  intro table event next history shown coherent step
  cases step with
  | packet => exact coherent.packet host _ _
  | timer =>
    rw [List.append_nil]
    exact coherent.timer

/-- An entry that is looked up has the address. -/
theorem lookup_eq_some (found : table.lookup ipaddr = some i) :
    (table.entry i).ipaddr = ipaddr := by
  have checked := List.find?_some found
  simp only [decide_eq_true_eq] at checked
  exact checked.symm

/-- An address that has an entry is looked up there. -/
theorem Coherent.lookup_eq (coherent : table.Coherent history) (proper : ipaddr.Proper)
    (same : (table.entry i).ipaddr = ipaddr) : table.lookup ipaddr = some i := by
  cases found : table.lookup ipaddr with
  | none =>
    have failed := List.find?_eq_none.mp found i (List.mem_finRange i)
    simp [same] at failed
  | some j =>
    -- The entry that is found first is the only one.
    have named := lookup_eq_some found
    apply congrArg some
    apply coherent.unique j i
    · rw [named]
      exact proper
    · rw [named, same]

/-- An address that is entered is looked up where it was entered. -/
theorem Coherent.lookup_update (coherent : table.Coherent history) (proper : ipaddr.Proper) :
    (table.uipArpUpdate ipaddr ethaddr).lookup ipaddr = some (table.place ipaddr) := by
  apply coherent.update.lookup_eq proper
  rw [update_entry, Function.update_self]

end Entries

section Oldest

variable {table : ArpTable}

/-- The search for the oldest entry finds one that no entry exceeds in age. -/
theorem oldest_search (places : List (Fin arptabSize)) (found : Int × Fin arptabSize)
    (known : 0 ≤ found.1 ∧ found.1 ≤ max (table.age found.2) 0) :
    let last := places.foldl (fun (found : Int × Fin arptabSize) i =>
      if table.age i > found.1 then (table.age i, i) else found) found
    found.1 ≤ last.1 ∧ last.1 ≤ max (table.age last.2) 0 ∧
      ∀ i ∈ places, table.age i ≤ last.1 := by
  -- The age that has been found only grows, and it is that of the entry.
  induction places generalizing found with
  | nil =>
    refine ⟨Int.le_refl _, known.2, ?_⟩
    intro i member
    cases member
  | cons i places ih =>
    simp only [List.foldl_cons]
    by_cases older : table.age i > found.1
    · rw [if_pos older]
      obtain ⟨grows, own, all⟩ := ih (table.age i, i) ⟨by omega, by simp⟩
      refine ⟨by dsimp only at grows ⊢; omega, own, ?_⟩
      intro j member
      rcases List.mem_cons.mp member with rfl | later
      · exact grows
      · exact all j later
    · rw [if_neg older]
      obtain ⟨grows, own, all⟩ := ih found known
      refine ⟨grows, own, ?_⟩
      intro j member
      rcases List.mem_cons.mp member with rfl | later
      · omega
      · exact all j later

/-- No entry is older than the oldest one, as far as the clock tells. -/
theorem age_le_oldest (i : Fin arptabSize) : table.age i ≤ max (table.age table.oldest) 0 := by
  obtain ⟨-, own, all⟩ := oldest_search (List.finRange arptabSize) (0, 0) ⟨by decide, by simp⟩
  exact Int.le_trans (all i (List.mem_finRange i)) own

/-- An unused entry that is found is unused. -/
theorem unused_eq_some {i : Fin arptabSize} (found : table.unused = some i) :
    (table.entry i).ipaddr = .zero := by
  have checked := List.find?_some found
  simpa only [decide_eq_true_eq] using checked

/-- If no unused entry is found then all are in use. -/
theorem unused_eq_none (missed : table.unused = none) (i : Fin arptabSize) :
    (table.entry i).ipaddr ≠ .zero := by
  have failed := List.find?_eq_none.mp missed i (List.mem_finRange i)
  simpa only [decide_eq_true_eq] using failed

end Oldest

section Results

variable {host : Host} {before table : ArpTable} {history : List Announcement}

/-- The tables that are reached as long as nobody lets time pass, as in the program that serves
requests. -/
abbrev Untimed (host : Host) (before : ArpTable) : ArpTable → List Announcement → Prop :=
  Run (fun table event next shown => Steps host table event next shown ∧ event ≠ .timer)
    before.uipArpInit

/-- The memory of the table before the start of the program. -/
def blank : ArpTable := ⟨fun _ => ⟨.zero, Vector.replicate 6 0, 0⟩, 0⟩

/-- The router has asked for the web server. -/
def routed : ArpTable :=
  (blank.uipArpInit.uipArpArpin .http arpHdrSize (requestFor .router Host.http.hostaddr)).1

/-- The web server has heard of its router. -/
theorem routed_reached :
    Untimed .http blank routed [⟨Host.router.hostaddr, Host.router.ethaddr⟩] := by
  have step : Steps .http blank.uipArpInit
      (.packet arpHdrSize (requestFor .router Host.http.hostaddr)) routed
      (if Announces .http arpHdrSize (requestFor .router Host.http.hostaddr)
        then [⟨Host.router.hostaddr, Host.router.ethaddr⟩] else []) := Steps.packet
  have announces : Announces .http arpHdrSize (requestFor .router Host.http.hostaddr) = true := by
    decide
  rw [if_pos announces] at step
  exact Run.step Run.start ⟨step, ArpEvent.noConfusion⟩

/-- A packet goes out to the address that was announced last for the next host, and if that has no
entry then a request for it goes out instead. -/
theorem Reaches.out (run : Reaches host before table history) {destipaddr : IpAddr}
    (unicast : destipaddr ≠ broadcastIpaddr) (proper : (nextHop host destipaddr).Proper) :
    ((∃ i, (table.entry i).ipaddr = nextHop host destipaddr) ∧
        ∃ ethaddr, announced history (nextHop host destipaddr) = some ethaddr ∧
          table.uipArpOut host destipaddr = .packet ⟨ethaddr, host.ethaddr, htons ethtypeIp⟩) ∨
      (∀ i, (table.entry i).ipaddr ≠ nextHop host destipaddr) ∧
        table.uipArpOut host destipaddr =
          .request (requestFor host (nextHop host destipaddr)) := by
  unfold uipArpOut
  rw [if_neg unicast]
  cases found : table.lookup (nextHop host destipaddr) with
  | none =>
    right
    refine ⟨?_, rfl⟩
    intro i same
    have failed := List.find?_eq_none.mp found i (List.mem_finRange i)
    simp [same] at failed
  | some i =>
    left
    -- The entry is that of the last announcement.
    have named := lookup_eq_some found
    refine ⟨⟨i, named⟩, (table.entry i).ethaddr, ?_, rfl⟩
    rw [← named]
    apply run.coherent.latest
    rw [named]
    exact proper

/-- The table holds every proper address at most once, with what was announced last. A packet goes
out to that address, and exactly if the next host has no entry a request for it goes out instead. -/
theorem packet_or_request (run : Reaches host before table history) :
    table.Coherent history ∧
    ∀ destipaddr, destipaddr ≠ broadcastIpaddr → (nextHop host destipaddr).Proper →
      ((∃ i, (table.entry i).ipaddr = nextHop host destipaddr) →
        ∃ ethaddr, announced history (nextHop host destipaddr) = some ethaddr ∧
          table.uipArpOut host destipaddr = .packet ⟨ethaddr, host.ethaddr, htons ethtypeIp⟩) ∧
      (table.uipArpOut host destipaddr = .request (requestFor host (nextHop host destipaddr)) ↔
        ∀ i, (table.entry i).ipaddr ≠ nextHop host destipaddr) := by
  -- A run either has an entry for the next hop, announced last, or none.
  refine ⟨run.coherent, fun destipaddr unicast proper => ?_⟩
  rcases run.out unicast proper with ⟨known, sent⟩ | ⟨missing, asked⟩
  · obtain ⟨ethaddr, latest, packet⟩ := sent
    refine ⟨fun _ => ⟨ethaddr, latest, packet⟩, fun asked => ?_, fun missing => ?_⟩
    · rw [packet] at asked
      cases asked
    · obtain ⟨i, same⟩ := known
      exact absurd same (missing i)
  · refine ⟨fun known => ?_, fun _ => missing, fun _ => asked⟩
    obtain ⟨i, same⟩ := known
    exact absurd same (missing i)

/-- A packet to a host behind the router goes to the router, which has announced itself, and a
neighbour that has not is asked for. -/
theorem packet_or_request_routed :
    routed.Coherent [⟨Host.router.hostaddr, Host.router.ethaddr⟩] ∧
    routed.uipArpOut .http ⟨8, 8⟩ =
      .packet ⟨Host.router.ethaddr, Host.http.ethaddr, htons ethtypeIp⟩ ∧
    routed.uipArpOut .http ⟨htons 0xc0a8, htons 9⟩ =
      .request (requestFor .http ⟨htons 0xc0a8, htons 9⟩) := by
  have reached := Run.mono (fun _ _ _ _ taken => taken.1) routed_reached
  obtain ⟨coherent, sends⟩ := packet_or_request reached
  obtain ⟨far, -⟩ := sends ⟨8, 8⟩ (by decide) (by decide)
  obtain ⟨ethaddr, latest, sent⟩ := far (by decide)
  have named : announced [⟨Host.router.hostaddr, Host.router.ethaddr⟩]
      (nextHop .http ⟨8, 8⟩) = some Host.router.ethaddr := by decide
  obtain rfl := Option.some.inj (latest.symm.trans named)
  obtain ⟨-, near⟩ := sends ⟨htons 0xc0a8, htons 9⟩ (by decide) (by decide)
  exact ⟨coherent, sent, near.mpr (by decide)⟩

/-- The addresses that have been announced. -/
def addresses (history : List Announcement) : Finset IpAddr :=
  (history.map Announcement.ipaddr).toFinset

/-- Everything that was announced has an entry, and only that. -/
structure Complete (table : ArpTable) (history : List Announcement) : Prop where
  known : ∀ ipaddr ∈ addresses history, ∃ i, (table.entry i).ipaddr = ipaddr
  used : ∀ i, (table.entry i).ipaddr ≠ .zero → (table.entry i).ipaddr ∈ addresses history

/-- A table with room for a new address has an unused entry. -/
theorem unused_of_few (coherent : table.Coherent history) (complete : table.Complete history)
    (proper : ∀ ipaddr ∈ addresses history, ipaddr.Proper) {ipaddr : IpAddr}
    (new : ipaddr ∉ addresses history)
    (few : (insert ipaddr (addresses history)).card ≤ arptabSize) :
    ∃ i, table.unused = some i := by
  by_contra none
  have full : table.unused = Option.none := by
    cases found : table.unused with
    | none => rfl
    | some i => exact absurd ⟨i, found⟩ none
  -- All entries would hold different addresses that have been announced.
  have inside : ∀ i ∈ (Finset.univ : Finset (Fin arptabSize)),
      (table.entry i).ipaddr ∈ addresses history :=
    fun i _ => complete.used i (unused_eq_none full i)
  have distinct : Set.InjOn (fun i => (table.entry i).ipaddr)
      (Finset.univ : Finset (Fin arptabSize)) := by
    intro i _ j _ same
    exact coherent.unique i j (proper _ (inside i (Finset.mem_univ i))) same
  have many := Finset.card_le_card_of_injOn _ inside distinct
  rw [Finset.card_univ, Fintype.card_fin] at many
  rw [Finset.card_insert_of_notMem new] at few
  omega

/-- The addresses after one more announcement. -/
theorem addresses_append (announcement : Announcement) :
    addresses (history ++ [announcement]) = insert announcement.ipaddr (addresses history) := by
  ext ipaddr
  simp [addresses]

/-- An announcement leaves every other address in a table with room. -/
theorem Complete.update (complete : table.Complete history) (coherent : table.Coherent history)
    (proper : ∀ ipaddr ∈ addresses history, ipaddr.Proper) {announcement : Announcement}
    (new : announcement.ipaddr.Proper)
    (few : (addresses (history ++ [announcement])).card ≤ arptabSize) :
    (table.uipArpUpdate announcement.ipaddr announcement.ethaddr).Complete
      (history ++ [announcement]) := by
  rw [addresses_append] at few
  -- The place was that of the address before, or it was unused.
  have free : (table.entry (table.place announcement.ipaddr)).ipaddr = announcement.ipaddr ∨
      (table.entry (table.place announcement.ipaddr)).ipaddr = .zero := by
    unfold place
    cases found : table.matching announcement.ipaddr with
    | some i => exact Or.inl (matching_eq_some found).1
    | none =>
      have missing : announcement.ipaddr ∉ addresses history := by
        intro member
        obtain ⟨i, same⟩ := complete.known _ member
        exact matching_eq_none found new i same
      obtain ⟨i, spare⟩ := unused_of_few coherent complete proper missing few
      rw [spare]
      exact Or.inr (unused_eq_some spare)
  constructor
  · intro ipaddr member
    rw [addresses_append, Finset.mem_insert] at member
    rw [update_entry]
    rcases member with rfl | earlier
    · exact ⟨_, by rw [Function.update_self]⟩
    · obtain ⟨i, same⟩ := complete.known ipaddr earlier
      by_cases here : i = table.place announcement.ipaddr
      · rw [← here, same] at free
        rcases free with again | zero
        · exact ⟨_, by rw [Function.update_self, again]⟩
        · have known := proper ipaddr earlier
          rw [zero] at known
          exact absurd known not_proper_zero
      · exact ⟨i, by rw [Function.update_of_ne here, same]⟩
  · intro i
    rw [addresses_append, Finset.mem_insert, update_entry]
    by_cases here : i = table.place announcement.ipaddr
    · rw [here, Function.update_self]
      intro _
      exact Or.inl rfl
    · rw [Function.update_of_ne here]
      intro used
      exact Or.inr (complete.used i used)

/-- All announcements so far are in a table that they fit in. -/
theorem Untimed.complete (run : Untimed host before table history)
    (proper : ∀ ipaddr ∈ addresses history, ipaddr.Proper)
    (few : (addresses history).card ≤ arptabSize) : table.Complete history := by
  induction run with
  | start =>
    constructor
    · intro ipaddr member
      simp [addresses] at member
    · intro i used
      exact absurd rfl used
  | @step table next event history shown earlier taken ih =>
    obtain ⟨step, untimed⟩ := taken
    have coherent : table.Coherent history :=
      Reaches.coherent (Run.mono (fun _ _ _ _ taken => taken.1) earlier)
    cases step with
    | timer => exact absurd rfl untimed
    | @packet uipLen buf =>
      rw [arpin_table]
      split at few
      · rename_i announces
        rw [if_pos announces]
        rw [if_pos announces] at proper ⊢
        -- There are no more addresses before the packet than after it.
        have grown : addresses (history ++ [⟨buf.sipaddr, buf.shwaddr⟩]) =
            insert buf.sipaddr (addresses history) := addresses_append _
        have within : addresses history ⊆
            addresses (history ++ [⟨buf.sipaddr, buf.shwaddr⟩]) := by
          rw [grown]
          exact Finset.subset_insert _ _
        have earlier := fun ipaddr member => proper ipaddr (within member)
        have complete := ih earlier (Nat.le_trans (Finset.card_le_card within) few)
        apply complete.update coherent earlier _ few
        apply proper
        rw [grown]
        exact Finset.mem_insert_self _ _
      · rename_i silent
        rw [if_neg silent]
        rw [if_neg silent] at proper ⊢
        rw [List.append_nil] at proper few ⊢
        exact ih proper few

/-- As long as all announced addresses fit into the table and nobody lets time pass, all of them are
in the table and packets go out to the address that was announced last. -/
theorem announced_reached (run : Untimed host before table history)
    (proper : ∀ ipaddr ∈ addresses history, ipaddr.Proper)
    (few : (addresses history).card ≤ arptabSize) :
    table.Complete history ∧
    ∀ destipaddr ethaddr, destipaddr ≠ broadcastIpaddr →
      announced history (nextHop host destipaddr) = some ethaddr →
      table.uipArpOut host destipaddr = .packet ⟨ethaddr, host.ethaddr, htons ethtypeIp⟩ := by
  refine ⟨run.complete proper few, fun destipaddr ethaddr unicast known => ?_⟩
  have reached : Reaches host before table history :=
    Run.mono (fun _ _ _ _ taken => taken.1) run
  -- What was announced is one of the addresses.
  have member : nextHop host destipaddr ∈ addresses history := by
    obtain ⟨announcement, found, -⟩ := Option.map_eq_some_iff.mp known
    have named := List.find?_some found
    simp only [decide_eq_true_eq] at named
    simp only [addresses, List.mem_toFinset, List.mem_map]
    exact ⟨announcement, List.mem_reverse.mp (List.mem_of_find?_eq_some found), named⟩
  have isProper := proper _ member
  rcases reached.out unicast isProper with ⟨-, last, latest, sent⟩ | ⟨missing, -⟩
  · rw [known] at latest
    obtain rfl := Option.some.inj latest
    exact sent
  · obtain ⟨i, same⟩ := (run.complete proper few).known _ member
    exact absurd same (missing i)

/-- The router has its entry, and a packet to a host behind it goes there. -/
theorem announced_reached_routed :
    routed.Complete [⟨Host.router.hostaddr, Host.router.ethaddr⟩] ∧
    routed.uipArpOut .http ⟨8, 8⟩ =
      .packet ⟨Host.router.ethaddr, Host.http.ethaddr, htons ethtypeIp⟩ := by
  obtain ⟨complete, sends⟩ := announced_reached routed_reached (by decide) (by decide)
  exact ⟨complete, sends ⟨8, 8⟩ _ (by decide) (by decide)⟩

/-- A packet goes out to an address that has just been entered. -/
theorem Coherent.out_update (coherent : table.Coherent history) {destipaddr ipaddr : IpAddr}
    {ethaddr : EthAddr} (unicast : destipaddr ≠ broadcastIpaddr) (proper : ipaddr.Proper)
    (hop : nextHop host destipaddr = ipaddr) :
    (table.uipArpUpdate ipaddr ethaddr).uipArpOut host destipaddr =
      .packet ⟨ethaddr, host.ethaddr, htons ethtypeIp⟩ := by
  unfold uipArpOut
  rw [if_neg unicast, hop, coherent.lookup_update proper]
  dsimp only
  rw [update_entry, Function.update_self]

/-- A host that asks for the address of another one is answered, and both know each other from then
on, whatever else they have heard before. -/
theorem resolved {client server : Host} {beforeClient beforeServer : ArpTable}
    {clientTable laterTable serverTable : ArpTable}
    {clientHistory laterHistory serverHistory : List Announcement}
    (asking : Reaches client beforeClient clientTable clientHistory)
    (answering : Reaches server beforeServer serverTable serverHistory)
    (hearing : Reaches client beforeClient laterTable laterHistory)
    (known : client.hostaddr.Proper ∧ server.hostaddr.Proper) {destipaddr : IpAddr}
    (unicast : destipaddr ≠ broadcastIpaddr)
    (hop : nextHop client destipaddr = server.hostaddr) {request : ArpHdr}
    (asked : clientTable.uipArpOut client destipaddr = .request request) :
    ∃ reply, (serverTable.uipArpArpin server arpHdrSize request).2 = some reply ∧
      reply.dest = client.ethaddr ∧
      (laterTable.uipArpArpin client arpHdrSize reply).2 = none ∧
      (laterTable.uipArpArpin client arpHdrSize reply).1.uipArpOut client destipaddr =
        .packet ⟨server.ethaddr, client.ethaddr, htons ethtypeIp⟩ ∧
      ∀ back, back ≠ broadcastIpaddr → nextHop server back = client.hostaddr →
        (serverTable.uipArpArpin server arpHdrSize request).1.uipArpOut server back =
          .packet ⟨client.ethaddr, server.ethaddr, htons ethtypeIp⟩ := by
  obtain ⟨properClient, properServer⟩ := known
  have properHop : (nextHop client destipaddr).Proper := by
    rw [hop]
    exact properServer
  -- The request names the client and asks for the server.
  have named : request = requestFor client server.hostaddr := by
    rcases asking.out unicast properHop with ⟨-, ethaddr, -, sent⟩ | ⟨-, sent⟩
    · rw [asked] at sent
      cases sent
    · rw [asked, hop] at sent
      exact ArpOut.request.inj sent
  subst named
  have taken : serverTable.uipArpArpin server arpHdrSize (requestFor client server.hostaddr) =
      (serverTable.uipArpUpdate client.hostaddr client.ethaddr,
        some (answer server (requestFor client server.hostaddr))) := by
    simp [uipArpArpin, requestFor]
  have heard : laterTable.uipArpArpin client arpHdrSize
      (answer server (requestFor client server.hostaddr)) =
        (laterTable.uipArpUpdate server.hostaddr server.ethaddr, none) := by
    have apart : htons 2 ≠ htons arpRequest := by decide
    simp [uipArpArpin, answer, requestFor, apart]
  rw [taken]
  refine ⟨_, rfl, rfl, ?_, ?_, ?_⟩
  · rw [heard]
  · rw [heard]
    exact hearing.coherent.out_update unicast properServer hop
  · intro back unicast hop
    exact answering.coherent.out_update unicast properClient hop

/-- A neighbour whose address ends in a number. -/
def neighbour (number : Nat) : Host :=
  { Host.router with hostaddr := ⟨htons 0xc0a8, htons (.ofNat number)⟩ }

/-- A table after questions of some neighbours, one after the other. -/
def crowded (host : Host) (numbers : List Nat) : ArpTable :=
  numbers.foldl (fun table number => (table.uipArpArpin host arpHdrSize
    (requestFor (neighbour number) host.hostaddr)).1) blank.uipArpInit

/-- A table of questions is reached. -/
theorem crowded_reached (host : Host) (numbers : List Nat) :
    ∃ history, Reaches host blank (crowded host numbers) history := by
  -- Every question adds one step to the run.
  have general : ∀ (numbers : List Nat) (table : ArpTable) (history : List Announcement),
      Reaches host blank table history → ∃ later, Reaches host blank (numbers.foldl
        (fun table number => (table.uipArpArpin host arpHdrSize
          (requestFor (neighbour number) host.hostaddr)).1) table) later := by
    intro numbers
    induction numbers with
    | nil => exact fun table history run => ⟨history, run⟩
    | cons number numbers ih => exact fun table history run => ih _ _ (run.step .packet)
  exact general numbers _ [] .start

/-- The router looks for the web server, and the tables of both are full of other hosts. -/
theorem resolved_crowded :
    (∀ i, ((crowded .router (List.range' 10 8)).entry i).ipaddr.Proper) ∧
    (∀ i, ((crowded .http (List.range' 20 8)).entry i).ipaddr.Proper) ∧
    ∃ reply,
      ((crowded .http (List.range' 20 8)).uipArpArpin .http arpHdrSize
        (requestFor .router Host.http.hostaddr)).2 = some reply ∧
      reply.dest = Host.router.ethaddr ∧
      ((crowded .router (List.range' 10 9)).uipArpArpin .router arpHdrSize reply).2 = none ∧
      ((crowded .router (List.range' 10 9)).uipArpArpin .router arpHdrSize reply).1.uipArpOut
          .router Host.http.hostaddr =
        .packet ⟨Host.http.ethaddr, Host.router.ethaddr, htons ethtypeIp⟩ ∧
      ∀ back, back ≠ broadcastIpaddr → nextHop .http back = Host.router.hostaddr →
        ((crowded .http (List.range' 20 8)).uipArpArpin .http arpHdrSize
            (requestFor .router Host.http.hostaddr)).1.uipArpOut .http back =
          .packet ⟨Host.router.ethaddr, Host.http.ethaddr, htons ethtypeIp⟩ := by
  -- Eight hosts fill a table, and the router hears of a ninth one while it waits.
  obtain ⟨_, asking⟩ := crowded_reached .router (List.range' 10 8)
  obtain ⟨_, answering⟩ := crowded_reached .http (List.range' 20 8)
  obtain ⟨_, hearing⟩ := crowded_reached .router (List.range' 10 9)
  exact ⟨by decide +kernel, by decide +kernel,
    resolved asking answering hearing (by decide) (by decide) (by decide) (by decide +kernel)⟩

end Results

section Ageing

variable {table : ArpTable} {i : Fin arptabSize}

/-- The two halves of an address in use are not both zero. -/
theorem halves_ne_zero {ipaddr : IpAddr} :
    ipaddr.first ||| ipaddr.second ≠ 0 ↔ ipaddr ≠ .zero := by
  obtain ⟨first, second⟩ := ipaddr
  simp [IpAddr.zero]

/-- An entry that was made at a time of the wrapping clock is too old after some later tick. -/
def Outlived (time ticks : Nat) : Prop :=
  ∃ tick, tick ≤ ticks ∧ time + arpMaxage ≤ (time + tick) % 256

/-- Entries that were made late on the clock never get too old, since the clock wraps first. -/
theorem outlived_iff {time ticks : Nat} :
    Outlived time ticks ↔ arpMaxage ≤ ticks ∧ time + arpMaxage < 256 := by
  constructor
  · rintro ⟨tick, within, old⟩
    have below : (time + tick) % 256 < 256 := Nat.mod_lt _ (by decide)
    have least : (time + tick) % 256 ≤ time + tick := Nat.mod_le _ _
    constructor <;> omega
  · rintro ⟨late, early⟩
    refine ⟨arpMaxage, late, ?_⟩
    rw [Nat.mod_eq_of_lt early]

/-- An entry gets too old with the next tick or has been so before. -/
theorem outlived_succ {time ticks : Nat} : Outlived time (ticks + 1) ↔
    Outlived time ticks ∨ time + arpMaxage ≤ (time + (ticks + 1)) % 256 := by
  constructor
  · rintro ⟨tick, within, old⟩
    rcases Nat.lt_or_ge ticks tick with last | earlier
    · have same : tick = ticks + 1 := by omega
      exact Or.inr (same ▸ old)
    · exact Or.inl ⟨tick, earlier, old⟩
  · rintro (⟨tick, within, old⟩ | old)
    · exact ⟨tick, by omega, old⟩
    · exact ⟨ticks + 1, Nat.le_refl _, old⟩

/-- One tick gives up an entry that is in use and too old. -/
theorem timer_entry : table.uipArpTimer.entry i =
    if (table.entry i).ipaddr ≠ .zero ∧
      (table.entry i).time.toNat + arpMaxage ≤ (table.arptime + 1).toNat
    then { table.entry i with ipaddr := .zero } else table.entry i := by
  have old : (arpMaxage : Int) ≤ ((table.arptime + 1).toNat : Int) -
      ((table.entry i).time.toNat : Int) ↔
        (table.entry i).time.toNat + arpMaxage ≤ (table.arptime + 1).toNat := by
    omega
  simp only [uipArpTimer, age, halves_ne_zero, ge_iff_le, old]

/-- What has become of an entry after some ticks of the clock. -/
theorem entry_ticks (used : (table.entry i).ipaddr ≠ .zero)
    (fresh : (table.entry i).time = table.arptime) (ticks : Nat) :
    (uipArpTimer^[ticks] table).arptime.toNat = (table.arptime.toNat + ticks) % 256 ∧
      (¬ Outlived table.arptime.toNat ticks ∧
          (uipArpTimer^[ticks] table).entry i = table.entry i ∨
        Outlived table.arptime.toNat ticks ∧
          ((uipArpTimer^[ticks] table).entry i).ipaddr = .zero) := by
  induction ticks with
  | zero =>
    have young : ¬ Outlived table.arptime.toNat 0 := by
      rw [outlived_iff]
      simp
    have below := table.arptime.toNat_lt
    exact ⟨by simp [Nat.mod_eq_of_lt below], Or.inl ⟨young, rfl⟩⟩
  | succ ticks ih =>
    obtain ⟨clock, entries⟩ := ih
    rw [Function.iterate_succ_apply', outlived_succ]
    have next : (uipArpTimer^[ticks] table).uipArpTimer.arptime.toNat =
        (table.arptime.toNat + (ticks + 1)) % 256 := by
      show ((uipArpTimer^[ticks] table).arptime + 1).toNat = _
      rw [UInt8.toNat_add, clock]
      simp only [UInt8.toNat_one]
      omega
    refine ⟨next, ?_⟩
    have age : ((uipArpTimer^[ticks] table).arptime + 1).toNat =
        (table.arptime.toNat + (ticks + 1)) % 256 := next
    rcases entries with ⟨young, same⟩ | ⟨old, zero⟩
    · -- The entry is still in use, so the next tick decides by its age.
      rw [timer_entry, same, fresh, age]
      by_cases last : table.arptime.toNat + arpMaxage ≤ (table.arptime.toNat + (ticks + 1)) % 256
      · right
        rw [if_pos ⟨used, last⟩]
        exact ⟨Or.inr last, rfl⟩
      · left
        rw [if_neg fun both => last both.2]
        refine ⟨?_, rfl⟩
        rintro (earlier | now)
        · exact young earlier
        · exact last now
    · right
      rw [timer_entry, if_neg fun both => both.1 zero]
      exact ⟨Or.inl old, zero⟩

/-- An entry that is not renewed is given up after some time exactly if it was made early enough on
the wrapping clock. -/
theorem given_up_iff (used : (table.entry i).ipaddr ≠ .zero)
    (fresh : (table.entry i).time = table.arptime) (ticks : Nat) :
    ((uipArpTimer^[ticks] table).entry i).ipaddr = .zero ↔
      arpMaxage ≤ ticks ∧ table.arptime.toNat + arpMaxage < 256 := by
  rw [← outlived_iff]
  obtain ⟨-, ⟨young, same⟩ | ⟨old, zero⟩⟩ := entry_ticks used fresh ticks
  · rw [same]
    exact iff_of_false used young
  · exact iff_of_true zero old

/-- The entry of the router is given up after twenty minutes. -/
theorem given_up_iff_routed : ((uipArpTimer^[arpMaxage] routed).entry 0).ipaddr = .zero := by
  apply (given_up_iff _ _ arpMaxage).mpr
  · decide
  · decide
  · decide

end Ageing

end ArpTable

end Egos.Uip
