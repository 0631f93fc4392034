import Egos.Lib.Ring
import Egos.Macb.Transmit
import Mathlib.Algebra.Group.Nat.Defs

/-! The receive ring of the network device, shared by the driver and the device. -/

namespace Egos.Macb

/-- The number of receive descriptors. -/
abbrev rxRingSize : Nat := 32

/-- Bytes in the buffer of a descriptor. -/
abbrev rxBufferSize : Nat := 128

/-- How often a call looks for a frame. -/
abbrev maxRxTries : Nat := 10

/-- The bits of a status that hold the length of a frame. -/
abbrev rxbufFrmlenMask : BitVec 32 := 0xfff

/-- The bit of an address whose buffer the device has filled. -/
abbrev rxUsedOffset : Nat := 0

/-- The bit of the address in the last descriptor of the ring. -/
abbrev rxWrapOffset : Nat := 1

/-- The bit of the first buffer of a frame. -/
abbrev rxSofOffset : Nat := 14

/-- The bit of the last buffer of a frame. -/
abbrev rxEofOffset : Nat := 15

/-- A descriptor of the ring. -/
abbrev RxSlot := Fin rxRingSize

/-- The device has filled the buffer of the descriptor. -/
def DmaDesc.filled (desc : DmaDesc) : Bool := desc.addr.getLsbD rxUsedOffset

/-- The ring ends with the descriptor. -/
def DmaDesc.rxWraps (desc : DmaDesc) : Bool := desc.addr.getLsbD rxWrapOffset

/-- A frame begins with the buffer. -/
def rxSof (status : BitVec 32) : Bool := status.getLsbD rxSofOffset

/-- A frame ends with the buffer. -/
def rxEof (status : BitVec 32) : Bool := status.getLsbD rxEofOffset

/-- The length of the frame that ends with the buffer. -/
def rxLength (status : BitVec 32) : Nat := (status &&& rxbufFrmlenMask).toNat

/-- The next descriptor around the ring. -/
def RxSlot.next (i : RxSlot) : RxSlot :=
  ⟨if i.val + 1 ≥ rxRingSize then 0 else i.val + 1, by simp only [rxRingSize]; split <;> omega⟩

/-- The next descriptor is one step ahead. -/
theorem next_ahead (i : RxSlot) (k : Nat) : RxSlot.next (ahead i k) = ahead i (k + 1) := by
  have here : (ahead i k).val = (i.val + k) % rxRingSize := rfl
  have there : (ahead i (k + 1)).val = (i.val + (k + 1)) % rxRingSize := rfl
  have step : (RxSlot.next (ahead i k)).val =
      if (ahead i k).val + 1 ≥ rxRingSize then 0 else (ahead i k).val + 1 := rfl
  rw [Fin.ext_iff, step, there]
  simp only [rxRingSize] at here ⊢
  split <;> omega

/-- The difference of unsigned numbers, which wraps around. -/
def unsignedSub (first second : Nat) : Nat := (first + 2 ^ 32 - second) % 2 ^ 32

/-- Bytes that are copied to a place in a buffer. -/
structure Copied where
  dst : Nat
  bytes : List UInt8
  deriving DecidableEq

/-- The content of memory after a copy. -/
def Copied.store (memory : Nat → UInt8) (copied : Copied) (addr : Nat) : UInt8 :=
  if copied.dst ≤ addr then copied.bytes[addr - copied.dst]?.getD (memory addr) else memory addr

/-- Where the driver is in a call of `macb_recv`, of which `tries` polls are over. -/
inductive RxDriver where
  | idle
  -- Whether the device has filled the next buffer comes next, or else its status.
  | looking (tries : Nat) (next : RxSlot)
  | reading (tries : Nat) (next : RxSlot)
  -- A frame begins at the next buffer, and the ones in front of it are given back.
  | discarding (tries : Nat) (next : RxSlot) (status : BitVec 32) (second : Bool) (i : Nat)
  | deciding (tries : Nat) (next : RxSlot) (status : BitVec 32)
  -- The poll has found no frame.
  | failing (tries : Nat)
  -- A frame has been copied, and its buffers are given back.
  | freeing (length : Nat) (second : Bool) (i : Nat)
  deriving DecidableEq

/-- The driver's variables, the ring, the memory behind both, and what the device is about. -/
structure RxNic where
  rxRing : RxSlot → DmaDesc
  -- The buffers lie one behind the other.
  rxBuffer : Nat → UInt8
  rxTail : RxSlot
  nextRxTail : RxSlot
  wrapped : Bool
  -- The memory of the caller, from the packet on.
  packet : Nat → UInt8
  driver : RxDriver
  -- The descriptor that the device fills next, and the frame that it is receiving.
  place : RxSlot
  receiving : Option (List UInt8)

/-- What happens to frames. -/
inductive RxEvent where
  -- The device has received a whole frame.
  | completed (bytes : List UInt8)
  -- The driver looks for a frame from the tail on.
  | polled
  -- The driver copies a frame to the packet.
  | accepted (length : Nat) (copies : List Copied)
  -- A call returns the bytes in the packet, or minus one.
  | returned (frame : Option (List UInt8))
  deriving DecidableEq

/-- What the driver, its callers and the device can do. -/
inductive RxLabel where
  | call
  | drive
  -- The device fills a buffer and sets its status.
  | fill (status : BitVec 32) (bytes : List UInt8)
  -- The device gives the frame up that it is receiving.
  | abandon
  deriving DecidableEq

namespace RxNic

/-- Gives a buffer back to the device. -/
def reclaimRxBuffer (nic : RxNic) (idx : RxSlot) : RxNic :=
  let desc := nic.rxRing idx
  { nic with
    rxRing := Function.update nic.rxRing idx
      { desc with addr := desc.addr &&& ~~~ macbBit rxUsedOffset } }

/-- One round of the two loops that give the buffers from the tail to a new one back, or `none`
when both loops have ended. -/
def reclaimRound (nic : RxNic) (newTail : RxSlot) (second : Bool) (i : Nat) :
    Option (RxNic × Bool × Nat) :=
  if inside : i < rxRingSize then
    if second then
      if i < newTail.val then some (nic.reclaimRxBuffer ⟨i, inside⟩, true, i + 1) else none
    else if i > newTail.val then
      some (nic.reclaimRxBuffer ⟨i, inside⟩, false, if i + 1 ≥ rxRingSize then 0 else i + 1)
    else some (nic, true, i)
  else none

/-- The bytes of the buffers from a place on. -/
def rxBytes (nic : RxNic) (src size : Nat) : List UInt8 :=
  (List.range size).map fun k => nic.rxBuffer (src + k)

/-- The copies that bring a frame of some length from the tail on to the packet. -/
def frameCopies (nic : RxNic) (length : Nat) : List Copied :=
  if nic.wrapped then
    let headlen := rxBufferSize * (rxRingSize - nic.rxTail.val)
    [⟨0, nic.rxBytes (rxBufferSize * nic.rxTail.val) headlen⟩,
      ⟨headlen, nic.rxBytes 0 (unsignedSub length headlen)⟩]
  else [⟨0, nic.rxBytes (rxBufferSize * nic.rxTail.val) length⟩]

/-- The driver starts to look for a frame from the tail on. -/
def poll (nic : RxNic) (tries : Nat) : RxNic :=
  { nic with
    nextRxTail := nic.rxTail
    wrapped := false
    driver := .looking tries nic.rxTail }

/-- A poll without a frame is followed by another one, or ends the call. -/
def retry (nic : RxNic) (tries : Nat) : RxNic × List RxEvent :=
  if tries + 1 < maxRxTries then (nic.poll (tries + 1), [.polled])
  else ({ nic with driver := .idle }, [.returned none])

/-- The driver has come to the end of a frame. -/
def finish (nic : RxNic) (tries : Nat) (next : RxSlot) (length : Nat) : RxNic × List RxEvent :=
  let copies := nic.frameCopies length
  ({ nic with
    packet := copies.foldl Copied.store nic.packet
    nextRxTail := next.next
    driver := if length > 0 then .freeing length false nic.rxTail.val else .failing tries },
    [.accepted length copies])

/-- One step of the driver in a call. -/
def drive (nic : RxNic) : Except String (RxNic × List RxEvent) :=
  match nic.driver with
  | .idle => throw "no call is in progress"
  | .looking tries next =>
    if (nic.rxRing next).filled then return ({ nic with driver := .reading tries next }, [])
    else return ({ nic with driver := .failing tries }, [])
  | .failing tries => return nic.retry tries
  | .reading tries next =>
    let status := (nic.rxRing next).ctrl
    if rxSof status then
      if next ≠ nic.rxTail then
        return ({ nic with driver := .discarding tries next status false nic.rxTail.val }, [])
      else return ({ nic with wrapped := false, driver := .deciding tries next status }, [])
    else return ({ nic with driver := .deciding tries next status }, [])
  | .discarding tries next status second i =>
    match nic.reclaimRound next second i with
    | some (after, second, i) =>
      return ({ after with driver := .discarding tries next status second i }, [])
    | none => return ({ nic with
        rxTail := next
        wrapped := false
        driver := .deciding tries next status }, [])
  | .deciding tries next status =>
    if rxEof status then
      if rxLength status ≤ 512 then return nic.finish tries next (rxLength status)
      else throw "[ASSERT FAILED]Cannot handle packets more than 512 bytes right now!"
    else return ({ nic with
      wrapped := nic.wrapped || next.val + 1 ≥ rxRingSize
      driver := .looking tries next.next }, [])
  | .freeing length second i =>
    match nic.reclaimRound nic.nextRxTail second i with
    | some (after, second, i) =>
      return ({ after with driver := .freeing length second i }, [])
    | none => return ({ nic with rxTail := nic.nextRxTail, driver := .idle },
        [.returned (some ((List.range length).map nic.packet))])

/-- One step of the driver, a caller or the device. -/
def step (nic : RxNic) : RxLabel → Except String (RxNic × List RxEvent)
  | .call =>
    match nic.driver with
    | .idle => return (nic.poll 0, [.polled])
    | _ => throw "a call is in progress"
  | .drive => nic.drive
  | .fill status bytes =>
    let desc := nic.rxRing nic.place
    if desc.filled then throw "the device has no buffer"
    else
      let received := nic.receiving.getD [] ++ bytes
      return ({ nic with
        rxBuffer := Copied.store nic.rxBuffer ⟨rxBufferSize * nic.place.val, bytes⟩
        rxRing := Function.update nic.rxRing nic.place
          ⟨desc.addr ||| macbBit rxUsedOffset, status⟩
        place := if desc.rxWraps then ⟨0, by decide⟩ else nic.place.next
        receiving := if rxEof status then none else some received },
        if rxEof status then [.completed received] else [])
  | .abandon => return ({ nic with receiving := none }, [])

/-- Where the buffers begin in memory that has been allocated from some address on. -/
def rxBufferDma (start : BitVec 32) : BitVec 32 := (start + 31) &&& ~~~31

/-- The driver and the device after the driver has started. -/
def initial (start : BitVec 32) (rxBuffer packet : Nat → UInt8) : RxNic where
  rxRing := fun i =>
    let paddr := rxBufferDma start + BitVec.ofNat 32 (rxBufferSize * i.val)
    ⟨if i = Fin.last 31 then paddr ||| macbBit rxWrapOffset else paddr, 0⟩
  rxBuffer := rxBuffer
  rxTail := ⟨0, by decide⟩
  nextRxTail := ⟨0, by decide⟩
  wrapped := false
  packet := packet
  driver := .idle
  place := ⟨0, by decide⟩
  receiving := none

/-- What the device does: a frame has at most 512 bytes, which fill all its buffers but the last
one, and begins in a buffer of its own. -/
def Permitted (nic : RxNic) : RxLabel → Prop
  | .fill status bytes =>
    (rxSof status ↔ nic.receiving = none) ∧
      if rxEof status then
        0 < bytes.length ∧ bytes.length ≤ rxBufferSize ∧
          rxLength status = (nic.receiving.getD [] ++ bytes).length ∧ rxLength status ≤ 512
      else bytes.length = rxBufferSize ∧ (nic.receiving.getD [] ++ bytes).length < 512
  | .call | .drive | .abandon => True

/-- Whether the device may do something can be decided. -/
instance (nic : RxNic) : (label : RxLabel) → Decidable (nic.Permitted label)
  | .fill _ _ => by unfold Permitted; infer_instance
  | .call | .drive | .abandon => isTrue trivial

/-- The states that are reached from the start, whatever the driver and the device do in turn. -/
abbrev Reaches (start : BitVec 32) (rxBuffer packet : Nat → UInt8) :
    RxNic → List RxEvent → Prop :=
  Run (fun nic label after events => nic.Permitted label ∧ nic.step label = .ok (after, events))
    (.initial start rxBuffer packet)

end RxNic

end Egos.Macb
