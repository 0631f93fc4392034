import Egos.Grass.Kernel
import Egos.Macb.Transmit
import Egos.Treedisk.Ops

/-! The network server: from the message of a client to the descriptor of its frame. -/

namespace Egos.Macb

open Egos.Grass (Content syscallMsgLen)

/-- The type of a request to send a frame. -/
abbrev netSendType : Nat := 0

/-- The type of a request to receive a frame. -/
abbrev netRecvType : Nat := 1

/-- Where the bytes of a frame begin in a request. -/
abbrev netBufOffset : Nat := 8

/-- The number of bytes for a frame in a request. -/
abbrev netBufSize : Nat := 512

/-- What the network server asks the driver for. -/
inductive NetCall where
  | send (call : Send)
  | recv
  | fatal (message : String)
  deriving DecidableEq

/-- What the network server does with a message in its buffer. -/
def serveNet (buf : BitVec 32) (request : Content) : NetCall :=
  if request.word 0 = netSendType then
    .send ⟨BitVec.ofNat 32 (request.word 1), buf + BitVec.ofNat 32 netBufOffset⟩
  else if request.word 0 = netRecvType then .recv
  else .fatal ("sys_net request[" ++ toString (Treedisk.signed (request.word 0)) ++
    "] not implemented")

/-- The bytes for a frame in a request. -/
def netBuf (request : Content) : List UInt8 := (request.toList.drop netBufOffset).take netBufSize

/-- The length of the frame of a descriptor. -/
def DmaDesc.frameLength (desc : DmaDesc) : Nat := (desc.ctrl &&& txbufFrmlenMask).toNat

/-- The frame of a descriptor lies in the bytes for it in a request. -/
structure WithinRequest (nic : Nic) (desc : DmaDesc) (request : Content) : Prop where
  short : desc.frameLength ≤ netBufSize
  bytes : packetBytes nic.memory desc.addr desc.frameLength <+: netBuf request

section Frames

variable {nic stored after : Nic} {request : Content} {call : Send} {buf : BitVec 32}

/-- The call that the network server makes for a request to send a frame. -/
theorem call_of_serveNet (served : serveNet buf request = .send call) :
    call.length.toNat = request.word 1 ∧ call.packet = buf + BitVec.ofNat 32 netBufOffset := by
  unfold serveNet at served
  split at served
  · rw [← NetCall.send.inj served]
    refine ⟨?_, rfl⟩
    rw [BitVec.toNat_ofNat, Nat.mod_eq_of_lt (request.word_lt 1)]
  · split at served
    · cases served
    · cases served

/-- The descriptor of a frame once both of its words are stored. -/
theorem desc_of_send {events rest : List TxEvent}
    (sent : nic.step (.send call) = .ok (stored, events))
    (complete : stored.step .storeAddr = .ok (after, rest)) :
    after.txRing nic.txHead = ⟨call.packet, sendCtrl call nic.txHead⟩ ∧
      after.memory = nic.memory := by
  simp only [Nic.step] at sent
  split at sent
  · cases sent
    simp only [Nic.step] at complete
    cases complete
    simp
  · cases sent

/-- An idle driver stores both words of a descriptor. -/
theorem send_steps (idle : nic.driver = .idle) (call : Send) : ∃ stored after events rest,
    nic.step (.send call) = .ok (stored, events) ∧ stored.step .storeAddr = .ok (after, rest) := by
  simp only [Nic.step, idle]
  exact ⟨_, _, _, _, rfl, rfl⟩

/-- The bytes behind the type and the length in the server's buffer are those for the frame. -/
theorem packetBytes_netBuf {memory : BitVec 32 → UInt8}
    (held : ∀ k : Fin syscallMsgLen, memory (buf + BitVec.ofNat 32 k.val) = request.get k)
    {length : Nat} (short : length ≤ netBufSize) :
    packetBytes memory (buf + BitVec.ofNat 32 netBufOffset) length =
      (netBuf request).take length := by
  -- Byte by byte, the place in the packet is eight behind the one in the buffer.
  apply List.ext_getElem
  · simp only [packetBytes, netBuf, List.length_map, List.length_range, List.length_take,
      List.length_drop, Vector.length_toList]
    simp only [netBufSize, netBufOffset, syscallMsgLen] at short ⊢
    omega
  · intro k inside _
    rw [packetBytes, List.length_map, List.length_range] at inside
    have below : netBufOffset + k < syscallMsgLen := by
      simp only [netBufSize, netBufOffset, syscallMsgLen] at short ⊢
      omega
    have place := held ⟨netBufOffset + k, below⟩
    simp only [packetBytes, netBuf, List.getElem_map, List.getElem_range, List.getElem_take,
      List.getElem_drop, Vector.getElem_toList]
    rw [BitVec.add_assoc, ← BitVec.ofNat_add]
    exact place

/-- The length of the frame that the network server asks for. -/
theorem frameLength_of_serveNet {events rest : List TxEvent}
    (served : serveNet buf request = .send call)
    (sent : nic.step (.send call) = .ok (stored, events))
    (complete : stored.step .storeAddr = .ok (after, rest)) :
    (after.txRing nic.txHead).frameLength = request.word 1 % 2 ^ 11 := by
  rw [(desc_of_send sent complete).1, DmaDesc.frameLength, sendCtrl_masked,
    (call_of_serveNet served).1]

end Frames

/-- The network server transmits only bytes of a request exactly if the low eleven bits of the
length in it are at most the size of the field for the frame. -/
theorem net_send_within_iff {nic stored after : Nic} {request : Content} {call : Send}
    {buf : BitVec 32} {events rest : List TxEvent}
    (held : ∀ k : Fin syscallMsgLen, nic.memory (buf + BitVec.ofNat 32 k.val) = request.get k)
    (served : serveNet buf request = .send call)
    (sent : nic.step (.send call) = .ok (stored, events))
    (complete : stored.step .storeAddr = .ok (after, rest)) :
    WithinRequest after (after.txRing nic.txHead) request ↔
      request.word 1 % 2 ^ 11 ≤ netBufSize := by
  -- The frame lies at the field of the request, so that only its length matters.
  obtain ⟨desc, memory⟩ := desc_of_send sent complete
  rw [← frameLength_of_serveNet served sent complete]
  constructor
  · exact fun within => within.short
  · intro short
    have addr : (after.txRing nic.txHead).addr = buf + BitVec.ofNat 32 netBufOffset := by
      rw [desc]
      exact (call_of_serveNet served).2
    refine ⟨short, ?_⟩
    rw [memory, addr, packetBytes_netBuf held short]
    exact List.take_prefix _ _

/-- A request to send a frame of some length. -/
def sampleRequest (length : Nat) : Content := (Buffer.zero _).setWord 1 length

/-- The memory of the network server with a request at its beginning. -/
def serverMemory (request : Content) (addr : BitVec 32) : UInt8 := request[addr.toNat]?.getD 7

/-- The request lies where the server reads it. -/
theorem serverMemory_held (request : Content) (k : Fin syscallMsgLen) :
    serverMemory request (0 + BitVec.ofNat 32 k.val) = request.get k := by
  have inside := k.isLt
  have place : (0 + BitVec.ofNat 32 k.val).toNat = k.val := by
    simp only [syscallMsgLen] at inside
    have start : BitVec.toNat (0 : BitVec 32) = 0 := rfl
    rw [BitVec.toNat_add, BitVec.toNat_ofNat, start]
    omega
  rw [serverMemory, place, Vector.getElem?_eq_getElem inside, Option.getD_some]
  rfl

/-- The server takes the length from the request. -/
theorem serveNet_sample (length : Nat) (small : length < 2 ^ 32) :
    (sampleRequest length).word 1 = length ∧ serveNet 0 (sampleRequest length) =
      .send ⟨BitVec.ofNat 32 length, 0 + BitVec.ofNat 32 netBufOffset⟩ := by
  have type : (sampleRequest length).word 0 = netSendType := by
    rw [sampleRequest, Buffer.word_setWord_ne _ _ (by decide) (by decide), Buffer.word_zero]
  have word : (sampleRequest length).word 1 = length := by
    rw [sampleRequest, Buffer.word_setWord_same _ _ (by decide), Nat.mod_eq_of_lt small]
  rw [serveNet, if_pos type, word]
  exact ⟨rfl, rfl⟩

/-- A frame of 512 bytes lies within its request. -/
theorem net_send_within_full : ∃ stored after events rest,
    (Nic.initial (serverMemory (sampleRequest 512))).step
      (.send ⟨BitVec.ofNat 32 512, 0 + BitVec.ofNat 32 netBufOffset⟩) = .ok (stored, events) ∧
    stored.step .storeAddr = .ok (after, rest) ∧
    WithinRequest after (after.txRing 0) (sampleRequest 512) := by
  obtain ⟨word, served⟩ := serveNet_sample 512 (by decide)
  obtain ⟨stored, after, events, rest, sent, complete⟩ :=
    @send_steps (.initial (serverMemory (sampleRequest 512))) rfl
      ⟨BitVec.ofNat 32 512, 0 + BitVec.ofNat 32 netBufOffset⟩
  refine ⟨stored, after, events, rest, sent, complete, ?_⟩
  refine (net_send_within_iff (serverMemory_held _) served sent complete).mpr ?_
  rw [word]
  decide

/-- With a length of minus one in the request, the device transmits bytes behind it. -/
theorem net_send_beyond : ∃ stored after events rest call,
    serveNet 0 (sampleRequest 0xffffffff) = .send call ∧
    (Nic.initial (serverMemory (sampleRequest 0xffffffff))).step (.send call) =
      .ok (stored, events) ∧
    stored.step .storeAddr = .ok (after, rest) ∧
    ¬ WithinRequest after (after.txRing 0) (sampleRequest 0xffffffff) := by
  -- The low bits of the length are 2047, and the field has fewer bytes.
  obtain ⟨word, served⟩ := serveNet_sample 0xffffffff (by decide)
  obtain ⟨stored, after, events, rest, sent, complete⟩ :=
    @send_steps (.initial (serverMemory (sampleRequest 0xffffffff))) rfl
      ⟨BitVec.ofNat 32 0xffffffff, 0 + BitVec.ofNat 32 netBufOffset⟩
  refine ⟨stored, after, events, rest, _, served, sent, complete, fun within => ?_⟩
  have long := within.short
  have size := frameLength_of_serveNet served sent complete
  rw [word] at size
  have place : (Nic.initial (serverMemory (sampleRequest 0xffffffff))).txHead = 0 := rfl
  rw [place] at size
  rw [size] at long
  exact absurd long (by decide)

end Egos.Macb
