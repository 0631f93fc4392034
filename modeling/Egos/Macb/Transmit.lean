import Egos.Lib.Runs
import Mathlib.Algebra.Group.Nat.Defs
import Mathlib.Data.Fin.Basic
import Mathlib.Logic.Function.Basic

/-! The transmit ring of the network device, shared by the driver and the device. -/

namespace Egos.Macb

/-- The number of transmit descriptors. -/
abbrev txRingSize : Nat := 16

/-- The ring is not empty. -/
local instance : @NeZero Nat Zero.ofOfNat0 txRingSize := ⟨by decide⟩

/-- The last round in which the driver still waits for the device. -/
abbrev txTimeout : Nat := 1000

/-- The bits of a control word that hold the length of a frame. -/
abbrev txbufFrmlenMask : BitVec 32 := 0x7ff

/-- A word with one bit set. -/
def macbBit (offset : Nat) : BitVec 32 := 1#32 <<< offset

/-- The bit of the only descriptor, or the last one, of a frame. -/
abbrev txLastOffset : Nat := 15

/-- The bit that reports buffers that end in the middle of a frame. -/
abbrev txBufExhaustedOffset : Nat := 27

/-- The bit that reports an underrun. -/
abbrev txUnderrunOffset : Nat := 28

/-- The bit of the last descriptor of the ring. -/
abbrev txWrapOffset : Nat := 30

/-- The bit of a descriptor that the device does not own. -/
abbrev txUsedOffset : Nat := 31

/-- A descriptor. -/
structure DmaDesc where
  addr : BitVec 32
  ctrl : BitVec 32
  deriving DecidableEq

/-- The device does not own the descriptor. -/
def DmaDesc.used (desc : DmaDesc) : Bool := desc.ctrl.getLsbD txUsedOffset

/-- The ring ends with the descriptor. -/
def DmaDesc.wraps (desc : DmaDesc) : Bool := desc.ctrl.getLsbD txWrapOffset

/-- A call of `macb_send`. -/
structure Send where
  length : BitVec 32
  packet : BitVec 32
  deriving DecidableEq

/-- Where the driver is in a call, and the descriptor that the call is about. -/
inductive Driver where
  | idle
  -- The control word is stored, and the address is still to be stored.
  | storing (call : Send) (txHead : Fin txRingSize)
  -- The descriptor is complete, and round `i` of waiting for the device comes next.
  | polling (call : Send) (txHead : Fin txRingSize) (i : Nat)
  deriving DecidableEq

/-- A device that transmits now does not take an old address for that of the packet. -/
def Driver.expects (driver : Driver) (addr : BitVec 32) : Bool :=
  match driver with
  | .storing call _ => addr = call.packet
  | _ => true

/-- The driver's variables, the ring, the memory, and the place that the device has come to. -/
structure Nic where
  txRing : Fin txRingSize → DmaDesc
  txHead : Fin txRingSize
  driver : Driver
  memory : BitVec 32 → UInt8
  tail : Fin txRingSize

/-- What happens to packets, with the state of the descriptors at that moment. -/
inductive TxEvent where
  -- A call for a packet, and whether the device did not own the descriptor it overwrites.
  | called (bytes : List UInt8) (used : Bool)
  | transmitted (bytes : List UInt8)
  -- The end of a call with its messages, and whether the device is done with the packet.
  | returned (messages : List String) (done : Bool)
  deriving DecidableEq

/-- What the driver, its callers and the device can do. -/
inductive TxLabel where
  | send (call : Send)
  | storeAddr
  | poll
  | giveUp
  -- A caller changes the memory while no call is in progress.
  | write (addr : BitVec 32) (byte : UInt8)
  | transmit
  deriving DecidableEq

/-- The bytes of a packet in memory. -/
def packetBytes (memory : BitVec 32 → UInt8) (packet : BitVec 32) (length : Nat) : List UInt8 :=
  (List.range length).map fun k => memory (packet + BitVec.ofNat 32 k)

/-- The control word for a call. -/
def sendCtrl (call : Send) (txHead : Fin txRingSize) : BitVec 32 :=
  let ctrl := (call.length &&& txbufFrmlenMask) ||| macbBit txLastOffset
  if txHead = Fin.last 15 then ctrl ||| macbBit txWrapOffset else ctrl

/-- What the driver reports about a descriptor that the device is done with. -/
def txMessages (ctrl : BitVec 32) : List String :=
  (if ctrl.getLsbD txUnderrunOffset then ["TX underrun"] else []) ++
    if ctrl.getLsbD txBufExhaustedOffset then ["TX buffers exhausted in mid frame"] else []

namespace Nic

/-- The device is done with a packet if no descriptor that it owns is for the packet. -/
def done (nic : Nic) (packet : BitVec 32) : Bool :=
  (List.finRange txRingSize).all fun i => (nic.txRing i).used || (nic.txRing i).addr ≠ packet

/-- One step of the driver, a caller or the device. -/
def step (nic : Nic) : TxLabel → Except String (Nic × List TxEvent)
  | .send call =>
    match nic.driver with
    | .idle =>
      let desc := nic.txRing nic.txHead
      let bytes := packetBytes nic.memory call.packet call.length.toNat
      return ({ nic with
        txRing := Function.update nic.txRing nic.txHead
          { desc with ctrl := sendCtrl call nic.txHead }
        txHead := if nic.txHead = Fin.last 15 then 0 else nic.txHead + 1
        driver := .storing call nic.txHead }, [.called bytes desc.used])
    | _ => throw "a call is in progress"
  | .storeAddr =>
    match nic.driver with
    | .storing call txHead =>
      return ({ nic with
        txRing := Function.update nic.txRing txHead
          { nic.txRing txHead with addr := call.packet }
        driver := .polling call txHead 0 }, [])
    | _ => throw "no address is to be stored"
  | .poll =>
    match nic.driver with
    | .polling call txHead i =>
      if i ≤ txTimeout then
        let ctrl := (nic.txRing txHead).ctrl
        if ctrl.getLsbD txUsedOffset then
          return ({ nic with driver := .idle }, [.returned (txMessages ctrl) (nic.done call.packet)])
        else return ({ nic with driver := .polling call txHead (i + 1) }, [])
      else throw "the loop has ended"
    | _ => throw "no call waits for the device"
  | .giveUp =>
    match nic.driver with
    | .polling call _ i =>
      if i ≤ txTimeout then throw "the loop has not ended"
      else return ({ nic with driver := .idle }, [.returned ["TX timeout"] (nic.done call.packet)])
    | _ => throw "no call waits for the device"
  | .write addr byte =>
    match nic.driver with
    | .idle => return ({ nic with memory := Function.update nic.memory addr byte }, [])
    | _ => throw "a call is in progress"
  | .transmit =>
    let desc := nic.txRing nic.tail
    if desc.used then throw "the device owns no descriptor"
    else
      -- The packet is read when it is transmitted.
      let bytes := packetBytes nic.memory desc.addr (desc.ctrl &&& txbufFrmlenMask).toNat
      return ({ nic with
        txRing := Function.update nic.txRing nic.tail
          { desc with ctrl := desc.ctrl ||| macbBit txUsedOffset }
        tail := if desc.wraps then 0 else nic.tail + 1 }, [.transmitted bytes])

/-- The descriptors after the driver has started. -/
def startRing (i : Fin txRingSize) : DmaDesc :=
  ⟨0, if i = Fin.last 15 then macbBit txUsedOffset ||| macbBit txWrapOffset
    else macbBit txUsedOffset⟩

/-- The ring after the driver has started. -/
def initial (memory : BitVec 32 → UInt8) : Nic where
  txRing := startRing
  txHead := 0
  driver := .idle
  memory := memory
  tail := 0

/-- The states that are reached from the start through permitted steps. -/
abbrev Reaches (permits : Nic → TxLabel → Prop) (memory : BitVec 32 → UInt8) :
    Nic → List TxEvent → Prop :=
  Run (fun nic label after events => permits nic label ∧ nic.step label = .ok (after, events))
    (.initial memory)

/-- The conditions under which the ring works: a packet has a length that fits into its descriptor,
the device finds no old address in a descriptor, and no call ends in a timeout. -/
def Kept (nic : Nic) : TxLabel → Prop
  | .send call => call.length.toNat ≤ 0x7ff
  | .transmit => nic.driver.expects (nic.txRing nic.tail).addr
  | .giveUp => False
  | _ => True

/-- Whether a step keeps to the conditions can be decided. -/
instance (nic : Nic) : (label : TxLabel) → Decidable (nic.Kept label)
  | .send _ => by unfold Kept; infer_instance
  | .transmit => by unfold Kept; infer_instance
  | .giveUp => isFalse id
  | .storeAddr | .poll | .write _ _ => isTrue trivial

end Nic

section Words

/-- The device owns a descriptor as soon as its control word is stored. -/
theorem sendCtrl_used (call : Send) (txHead : Fin txRingSize) :
    (sendCtrl call txHead).getLsbD txUsedOffset = false := by
  have mask : txbufFrmlenMask.getLsbD txUsedOffset = false := by decide
  have last : (macbBit txLastOffset).getLsbD txUsedOffset = false := by decide
  have wrap : (macbBit txWrapOffset).getLsbD txUsedOffset = false := by decide
  unfold sendCtrl
  split
  · simp only [BitVec.getLsbD_or, BitVec.getLsbD_and, mask, last, wrap, Bool.and_false,
      Bool.or_false]
  · simp only [BitVec.getLsbD_or, BitVec.getLsbD_and, mask, last, Bool.and_false, Bool.or_false]

/-- The control word says whether the descriptor is the last one of the ring. -/
theorem sendCtrl_wraps (call : Send) (txHead : Fin txRingSize) :
    (sendCtrl call txHead).getLsbD txWrapOffset = true ↔ txHead = Fin.last 15 := by
  have mask : txbufFrmlenMask.getLsbD txWrapOffset = false := by decide
  have last : (macbBit txLastOffset).getLsbD txWrapOffset = false := by decide
  have wrap : (macbBit txWrapOffset).getLsbD txWrapOffset = true := by decide
  unfold sendCtrl
  split
  · rename_i here
    simp only [BitVec.getLsbD_or, wrap, Bool.or_true, here]
  · rename_i inner
    simp only [BitVec.getLsbD_or, BitVec.getLsbD_and, mask, last, Bool.and_false, Bool.or_false,
      inner, Bool.false_eq_true]

/-- The control word holds the low bits of the length. -/
theorem sendCtrl_masked (call : Send) (txHead : Fin txRingSize) :
    (sendCtrl call txHead &&& txbufFrmlenMask).toNat = call.length.toNat % 2 ^ 11 := by
  have last : macbBit txLastOffset &&& txbufFrmlenMask = 0#32 := by decide
  have wrap : macbBit txWrapOffset &&& txbufFrmlenMask = 0#32 := by decide
  have masked : sendCtrl call txHead &&& txbufFrmlenMask = call.length &&& txbufFrmlenMask := by
    unfold sendCtrl
    split
    · rw [BitVec.and_or_distrib_right, BitVec.and_or_distrib_right, last, wrap, BitVec.and_assoc,
        BitVec.and_self, BitVec.or_zero, BitVec.or_zero]
    · rw [BitVec.and_or_distrib_right, last, BitVec.and_assoc, BitVec.and_self, BitVec.or_zero]
  rw [masked, BitVec.toNat_and]
  have value : txbufFrmlenMask.toNat = 2 ^ 11 - 1 := by decide
  rw [value, Nat.and_two_pow_sub_one_eq_mod]

/-- The control word holds a length that fits. -/
theorem sendCtrl_length {call : Send} (short : call.length.toNat ≤ 0x7ff)
    (txHead : Fin txRingSize) :
    (sendCtrl call txHead &&& txbufFrmlenMask).toNat = call.length.toNat := by
  rw [sendCtrl_masked, Nat.mod_eq_of_lt (by omega)]

/-- The device gives a descriptor back without changing the rest of its control word. -/
theorem getLsbD_or_used (ctrl : BitVec 32) :
    (ctrl ||| macbBit txUsedOffset).getLsbD txUsedOffset = true ∧
      (ctrl ||| macbBit txUsedOffset).getLsbD txWrapOffset = ctrl.getLsbD txWrapOffset := by
  have used : (macbBit txUsedOffset).getLsbD txUsedOffset = true := by decide
  have wrap : (macbBit txUsedOffset).getLsbD txWrapOffset = false := by decide
  simp only [BitVec.getLsbD_or, used, wrap, Bool.or_true, Bool.or_false, and_self]

/-- The driver goes around the ring. -/
theorem next_txHead (txHead : Fin txRingSize) :
    (if txHead = Fin.last 15 then 0 else txHead + 1) = txHead + 1 := by
  split
  · rename_i last
    rw [last]
    rfl
  · rfl

end Words

/-- The packets that calls were made for. -/
def sendCalls (history : List TxEvent) : List (List UInt8) :=
  history.filterMap fun
    | .called bytes _ => some bytes
    | _ => none

/-- The packets that the device has transmitted. -/
def wire (history : List TxEvent) : List (List UInt8) :=
  history.filterMap fun
    | .transmitted bytes => some bytes
    | _ => none

/-- An event that respects what the device owns. -/
def TxEvent.respectful : TxEvent → Bool
  | .called _ used => used
  | .transmitted _ => true
  | .returned _ done => done

/-- The ring is shared as it should be, and the packets are transmitted as they were passed. -/
structure Shared (nic : Nic) (history : List TxEvent) : Prop where
  respectful : ∀ event ∈ history, event.respectful
  order : wire history <+: sendCalls history
  complete : nic.driver = .idle → wire history = sendCalls history
  wraps : ∀ i, (nic.txRing i).wraps = true ↔ i = Fin.last 15

/-- No packet is on its way. -/
structure Settled (nic : Nic) (history : List TxEvent) : Prop where
  used : ∀ i, (nic.txRing i).used = true
  place : nic.tail = nic.txHead
  complete : wire history = sendCalls history

/-- The packet of a call is the only one on its way. -/
structure Pending (nic : Nic) (history : List TxEvent) (call : Send) (txHead : Fin txRingSize) :
    Prop where
  ctrl : (nic.txRing txHead).ctrl = sendCtrl call txHead
  used : ∀ i ≠ txHead, (nic.txRing i).used = true
  here : nic.tail = txHead
  next : nic.txHead = txHead + 1
  short : call.length.toNat ≤ 0x7ff
  owed : sendCalls history =
    wire history ++ [packetBytes nic.memory call.packet call.length.toNat]

/-- What the place of the driver in a call says about packets on their way. -/
def Phase (nic : Nic) (history : List TxEvent) : Driver → Prop
  | .idle => Settled nic history
  | .storing call txHead => Pending nic history call txHead ∨ Settled nic history
  | .polling call txHead _ =>
    Pending nic history call txHead ∧ (nic.txRing txHead).addr = call.packet ∨ Settled nic history

/-- What holds in every state that is reached under the conditions. -/
structure TxSound (nic : Nic) (history : List TxEvent) : Prop where
  respectful : ∀ event ∈ history, event.respectful
  wraps : ∀ i, (nic.txRing i).wraps = true ↔ i = Fin.last 15
  phase : Phase nic history nic.driver

section Steps

variable {nic after : Nic} {history events : List TxEvent} {call : Send}

@[simp] theorem sendCalls_append (history events : List TxEvent) :
    sendCalls (history ++ events) = sendCalls history ++ sendCalls events :=
  List.filterMap_append

@[simp] theorem wire_append (history events : List TxEvent) :
    wire (history ++ events) = wire history ++ wire events :=
  List.filterMap_append

/-- A device without descriptors of its own is done with every packet. -/
theorem Settled.done (settled : Settled nic history) (packet : BitVec 32) :
    nic.done packet = true := by
  simp [Nic.done, settled.used]

/-- Changing one descriptor keeps the bit of the last one where it does so there. -/
theorem wraps_update {ring : Fin txRingSize → DmaDesc}
    (wraps : ∀ i, (ring i).wraps = true ↔ i = Fin.last 15) {place : Fin txRingSize}
    {desc : DmaDesc} (here : desc.wraps = true ↔ place = Fin.last 15) (i : Fin txRingSize) :
    (Function.update ring place desc i).wraps = true ↔ i = Fin.last 15 := by
  by_cases same : i = place
  · subst same
    rw [Function.update_self]
    exact here
  · rw [Function.update_of_ne same]
    exact wraps i

/-- A call overwrites a descriptor that the device does not own. -/
theorem TxSound.send (sound : TxSound nic history) (short : call.length.toNat ≤ 0x7ff)
    (stepped : nic.step (.send call) = .ok (after, events)) :
    TxSound after (history ++ events) := by
  -- While the driver is idle, no descriptor belongs to the device.
  simp only [Nic.step] at stepped
  split at stepped
  · rename_i idle
    have settled : Settled nic history := by
      have phase := sound.phase
      rwa [idle] at phase
    simp only [pure, Except.pure, Except.ok.injEq, Prod.mk.injEq] at stepped
    obtain ⟨rfl, rfl⟩ := stepped
    refine ⟨?_, ?_, Or.inl ⟨?_, ?_, settled.place, next_txHead _, short, ?_⟩⟩
    · intro event member
      rcases List.mem_append.mp member with earlier | last
      · exact sound.respectful event earlier
      · rw [List.mem_singleton.mp last]
        exact settled.used _
    · exact wraps_update sound.wraps (sendCtrl_wraps call _)
    · simp only [Function.update_self]
    · intro i other
      simp only [Function.update_of_ne other]
      exact settled.used i
    · rw [sendCalls_append, wire_append, settled.complete]
      simp [sendCalls, wire]
  · cases stepped

/-- The driver completes the descriptor with the address of the packet. -/
theorem TxSound.storeAddr (sound : TxSound nic history)
    (stepped : nic.step .storeAddr = .ok (after, events)) : TxSound after (history ++ events) := by
  -- Nothing but an address changes: the packet is pending as before, or has gone out.
  simp only [Nic.step] at stepped
  split at stepped
  · rename_i call txHead storing
    have phase := sound.phase
    rw [storing] at phase
    simp only [pure, Except.pure, Except.ok.injEq, Prod.mk.injEq] at stepped
    obtain ⟨rfl, rfl⟩ := stepped
    rw [List.append_nil]
    refine ⟨sound.respectful, wraps_update sound.wraps (sound.wraps txHead), ?_⟩
    rcases phase with pending | settled
    · left
      refine ⟨⟨?_, ?_, pending.here, pending.next, pending.short, pending.owed⟩, ?_⟩
      · simp only [Function.update_self]
        exact pending.ctrl
      · intro i other
        simp only [Function.update_of_ne other]
        exact pending.used i other
      · simp only [Function.update_self]
    · right
      refine ⟨?_, settled.place, settled.complete⟩
      intro i
      by_cases same : i = txHead
      · subst same
        simp only [Function.update_self]
        exact settled.used i
      · simp only [Function.update_of_ne same]
        exact settled.used i
  · cases stepped

/-- A round of waiting ends the call only when the device is done. -/
theorem TxSound.poll (sound : TxSound nic history)
    (stepped : nic.step .poll = .ok (after, events)) : TxSound after (history ++ events) := by
  simp only [Nic.step] at stepped
  split at stepped
  · rename_i call txHead i polling
    have phase := sound.phase
    rw [polling] at phase
    split at stepped
    · split at stepped
      · rename_i used
        simp only [pure, Except.pure, Except.ok.injEq, Prod.mk.injEq] at stepped
        obtain ⟨rfl, rfl⟩ := stepped
        -- A packet on its way has a descriptor that the device owns.
        have settled : Settled nic history := by
          rcases phase with ⟨pending, -⟩ | settled
          · rw [pending.ctrl, sendCtrl_used] at used
            cases used
          · exact settled
        refine ⟨?_, sound.wraps, ⟨settled.used, settled.place, ?_⟩⟩
        · intro event member
          rcases List.mem_append.mp member with earlier | last
          · exact sound.respectful event earlier
          · rw [List.mem_singleton.mp last]
            exact settled.done call.packet
        · rw [sendCalls_append, wire_append, settled.complete]
          rfl
      · simp only [pure, Except.pure, Except.ok.injEq, Prod.mk.injEq] at stepped
        obtain ⟨rfl, rfl⟩ := stepped
        rw [List.append_nil]
        refine ⟨sound.respectful, sound.wraps, ?_⟩
        rcases phase with ⟨pending, addr⟩ | settled
        · exact Or.inl ⟨⟨pending.ctrl, pending.used, pending.here, pending.next, pending.short,
            pending.owed⟩, addr⟩
        · exact Or.inr ⟨settled.used, settled.place, settled.complete⟩
    · cases stepped
  · cases stepped

/-- A caller that changes the memory between calls changes no packet on its way. -/
theorem TxSound.write (sound : TxSound nic history) {addr : BitVec 32} {byte : UInt8}
    (stepped : nic.step (.write addr byte) = .ok (after, events)) :
    TxSound after (history ++ events) := by
  simp only [Nic.step] at stepped
  split at stepped
  · rename_i idle
    have settled : Settled nic history := by
      have phase := sound.phase
      rwa [idle] at phase
    simp only [pure, Except.pure, Except.ok.injEq, Prod.mk.injEq] at stepped
    obtain ⟨rfl, rfl⟩ := stepped
    rw [List.append_nil]
    refine ⟨sound.respectful, sound.wraps, ?_⟩
    simp only [idle]
    exact ⟨settled.used, settled.place, settled.complete⟩
  · cases stepped

/-- The device transmits the packet that is on its way. -/
theorem Pending.transmit {txHead : Fin txRingSize} (pending : Pending nic history call txHead)
    (wraps : ∀ i, (nic.txRing i).wraps = true ↔ i = Fin.last 15)
    (addr : (nic.txRing txHead).addr = call.packet)
    (stepped : nic.step .transmit = .ok (after, events)) :
    Settled after (history ++ events) ∧ after.driver = nic.driver ∧
      (∀ event ∈ events, event.respectful) ∧
      ∀ i, (after.txRing i).wraps = true ↔ i = Fin.last 15 := by
  -- The descriptor is the one that the call has filled.
  simp only [Nic.step, pending.here] at stepped
  split at stepped
  · cases stepped
  · simp only [pure, Except.pure, Except.ok.injEq, Prod.mk.injEq] at stepped
    obtain ⟨rfl, rfl⟩ := stepped
    obtain ⟨used, wrapped⟩ := getLsbD_or_used (nic.txRing txHead).ctrl
    refine ⟨⟨?_, ?_, ?_⟩, rfl, ?_, ?_⟩
    · intro i
      by_cases same : i = txHead
      · subst same
        simp only [Function.update_self]
        exact used
      · simp only [Function.update_of_ne same]
        exact pending.used i same
    · simp only [pending.next, wraps]
      exact next_txHead txHead
    · rw [sendCalls_append, wire_append, pending.owed, addr, pending.ctrl,
        sendCtrl_length pending.short]
      simp [sendCalls, wire]
    · intro event member
      rw [List.mem_singleton.mp member]
      rfl
    · apply wraps_update wraps
      rw [← wraps txHead, DmaDesc.wraps, DmaDesc.wraps, wrapped]

/-- A step of the device keeps the ring sound. -/
theorem TxSound.transmit (sound : TxSound nic history) (kept : nic.Kept .transmit)
    (stepped : nic.step .transmit = .ok (after, events)) : TxSound after (history ++ events) := by
  -- Without a packet on its way the device has nothing to do.
  have busy : ¬ Settled nic history := by
    intro settled
    simp [Nic.step, settled.used] at stepped
  have finish : ∀ {call : Send} {txHead : Fin txRingSize}, Pending nic history call txHead →
      (nic.txRing txHead).addr = call.packet → TxSound after (history ++ events) := by
    intro call txHead pending addr
    obtain ⟨settled, driver, respectful, wraps⟩ := pending.transmit sound.wraps addr stepped
    refine ⟨?_, wraps, ?_⟩
    · intro event member
      rcases List.mem_append.mp member with earlier | last
      · exact sound.respectful event earlier
      · exact respectful event last
    · cases place : after.driver with
      | idle => exact settled
      | storing call txHead => exact Or.inr settled
      | polling call txHead i => exact Or.inr settled
  have phase := sound.phase
  cases place : nic.driver with
  | idle =>
    rw [place] at phase
    exact absurd phase busy
  | storing call txHead =>
    rw [place] at phase
    have pending := phase.resolve_right busy
    simp only [Nic.Kept, place, pending.here, Driver.expects, decide_eq_true_eq] at kept
    exact finish pending kept
  | polling call txHead i =>
    rw [place] at phase
    obtain ⟨pending, addr⟩ := phase.resolve_right busy
    exact finish pending addr

/-- The ring is sound in every state that is reached under the conditions. -/
theorem reaches_txSound {memory : BitVec 32 → UInt8}
    (reached : Nic.Reaches Nic.Kept memory nic history) : TxSound nic history := by
  refine Run.invariant TxSound ?_ ?_ reached
  · have wraps : ∀ i, (Nic.startRing i).wraps = true ↔ i = Fin.last 15 := by decide
    have used : ∀ i, (Nic.startRing i).used = true := by decide
    exact ⟨by simp, wraps, ⟨used, rfl, rfl⟩⟩
  · rintro nic label after history events sound ⟨kept, stepped⟩
    cases label with
    | send call => exact sound.send kept stepped
    | storeAddr => exact sound.storeAddr stepped
    | poll => exact sound.poll stepped
    | giveUp => exact kept.elim
    | write addr byte => exact sound.write stepped
    | transmit => exact sound.transmit kept stepped

end Steps

/-- As long as no call ends in a timeout, no packet is too long and the device finds no old address
in a descriptor, the driver overwrites and gives up only what the device does not own, and the
device transmits the packets as they were passed. -/
theorem transmit_ring_shared {memory : BitVec 32 → UInt8} {nic : Nic} {history : List TxEvent}
    (reached : Nic.Reaches Nic.Kept memory nic history) : Shared nic history := by
  -- The place of the driver says whether a packet is still owed.
  have sound := reaches_txSound reached
  have phase := sound.phase
  refine ⟨sound.respectful, ?_, ?_, sound.wraps⟩
  · cases place : nic.driver with
    | idle =>
      rw [place] at phase
      exact ⟨[], by rw [List.append_nil, phase.complete]⟩
    | storing call txHead =>
      rw [place] at phase
      rcases phase with pending | settled
      · exact ⟨_, pending.owed.symm⟩
      · exact ⟨[], by rw [List.append_nil, settled.complete]⟩
    | polling call txHead i =>
      rw [place] at phase
      rcases phase with ⟨pending, -⟩ | settled
      · exact ⟨_, pending.owed.symm⟩
      · exact ⟨[], by rw [List.append_nil, settled.complete]⟩
  · intro idle
    rw [idle] at phase
    exact phase.complete

/-- A packet is transmitted while the driver waits for the device. -/
theorem transmit_ring_first_packet : ∃ nic history,
    Nic.Reaches Nic.Kept (fun _ => 7) nic history ∧ nic.driver = .idle ∧
      sendCalls history = [[7, 7]] ∧ Shared nic history := by
  have ran : (follow Nic.Kept Nic.step (.initial fun _ => 7)
      [.send ⟨2, 64⟩, .storeAddr, .poll, .transmit, .poll]).map (fun reached =>
        (reached.1.driver, sendCalls reached.2)) = some (.idle, [[7, 7]]) := by
    decide +kernel
  obtain ⟨⟨nic, history⟩, followed, found⟩ := Option.map_eq_some_iff.mp ran
  rw [Prod.mk.injEq] at found
  have reached : Nic.Reaches Nic.Kept (fun _ => 7) nic history := run_of_follow .start followed
  exact ⟨nic, history, reached, found.1, found.2, transmit_ring_shared reached⟩

/-- A packet changes after its call has ended in a timeout and before it is transmitted. -/
theorem transmit_ring_timeout : ∃ nic history,
    Nic.Reaches (fun _ _ => True) (fun _ => 7) nic history ∧ nic.driver = .idle ∧
      sendCalls history = [[7]] ∧ wire history = [[8]] ∧
      TxEvent.returned ["TX timeout"] false ∈ history ∧ ¬ Shared nic history := by
  -- The call gives up after its polls, and the program then writes to the packet.
  have ran : (follow (fun _ _ => True) Nic.step (.initial fun _ => 7)
      ([.send ⟨1, 64⟩, .storeAddr] ++ List.replicate 1001 .poll ++
        [.giveUp, .write 64 8, .transmit])).map (fun reached => (reached.1.driver, reached.2)) =
      some (.idle, [.called [7] true, .returned ["TX timeout"] false, .transmitted [8]]) := by
    decide +kernel
  obtain ⟨⟨nic, history⟩, followed, found⟩ := Option.map_eq_some_iff.mp ran
  rw [Prod.mk.injEq] at found
  obtain ⟨idle, shown⟩ := found
  simp only at idle shown
  subst shown
  refine ⟨nic, _, run_of_follow .start followed, idle, rfl, rfl, by decide, ?_⟩
  intro shared
  have same := shared.complete idle
  revert same
  decide

end Egos.Macb
