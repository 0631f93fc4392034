import Egos.Lib.Words
import Egos.Macb.Receive

/-! The way of a received frame: the driver, the network server and the program of the client. -/

namespace Egos.Macb

/-- Bytes in the buffer of a reply of the network server. -/
abbrev netReplySize : Nat := 512

/-- The size of frames that the TCP/IP stack is made for. -/
abbrev uipBufsize : Nat := 420

/-- The status of a reply of the network server. -/
inductive NetStatus where
  | netOk
  | netError
  deriving DecidableEq

/-- A reply of the network server. -/
structure NetReply where
  status : NetStatus
  length : Int
  buf : Buffer netReplySize

/-- The programs that receive frames. -/
inductive NetClient where
  | http
  | macbTest
  deriving DecidableEq

/-- Bytes in the buffer that a program passes for a frame. -/
def NetClient.room : NetClient → Nat
  -- The array of the TCP/IP stack has two more bytes.
  | .http => uipBufsize + 2
  | .macbTest => 100

/-- What the network server replies once the driver has put a frame of some length into the reply,
or has returned minus one. -/
def replyRecv (num : Int) (buf : Buffer netReplySize) : NetReply := ⟨.netOk, num, buf⟩

/-- What a client returns for a reply, and what it copies to its packet. -/
def netRecv (reply : NetReply) : Int × List Copied :=
  if reply.length > 0 ∧ reply.status = .netOk then
    (reply.length,
      [⟨0, (List.range reply.length.toNat).map fun k => reply.buf[k]?.getD 0⟩])
  else (if reply.status = .netOk then 0 else -1, [])

/-- The number of bytes that some copies write. -/
def copiedBytes (copies : List Copied) : Nat := (copies.flatMap Copied.bytes).length

/-- A frame fits into the reply of the server and into the packet of the client. -/
structure HopsFit (client : NetClient) (length : Nat) (copies : List Copied) : Prop where
  driver : copiedBytes copies ≤ netReplySize
  packet : ∀ buf, copiedBytes (netRecv (replyRecv length buf)).2 ≤ client.room

namespace RxNic

/-- A step of the driver that shows nothing. -/
def Silent (nic after : RxNic) : Prop := nic.drive = .ok (after, [])

/-- The descriptor some places behind the tail, around the ring. -/
def slot (nic : RxNic) (j : Nat) : RxSlot := ahead nic.rxTail j

/-- The status some places behind the tail. -/
def status (nic : RxNic) (j : Nat) : BitVec 32 := (nic.rxRing (nic.slot j)).ctrl

/-- The first whole frame in the ring: the places behind the tail of its buffers. -/
structure Frame (nic : RxNic) (first last : Nat) : Prop where
  order : first ≤ last
  inside : last < rxRingSize
  filled : ∀ j ≤ last, (nic.rxRing (nic.slot j)).filled
  ends : rxEof (nic.status last)
  unfinished : ∀ j < last, ¬ rxEof (nic.status j)
  begins : 0 < first → rxSof (nic.status first)
  latest : ∀ j, first < j → j ≤ last → ¬ rxSof (nic.status j)

/-- A frame is short enough for a client, and no shorter than its buffers up to the end of the ring
if it goes on behind that. -/
def Fitting (nic : RxNic) (client : NetClient) (first last : Nat) : Prop :=
  rxLength (nic.status last) ≤ client.room ∧
    ((nic.slot first).val + (last - first) < rxRingSize ∨
      rxBufferSize * (rxRingSize - (nic.slot first).val) ≤ rxLength (nic.status last))

/-- What the driver knows that has looked at the ends of `k` buffers and at the beginnings of
`seen` ones, the last of which was that of buffer `first`. -/
structure Walked (nic middle : RxNic) (first k seen : Nat) : Prop where
  ctrl : ∀ i, (middle.rxRing i).ctrl = (nic.rxRing i).ctrl
  freed : ∀ i, (middle.rxRing i).filled → (nic.rxRing i).filled
  tail : middle.rxTail = nic.slot first
  wrapped : middle.wrapped = true ↔ rxRingSize ≤ (nic.slot first).val + (k - first)
  order : first ≤ k
  filled : ∀ j < seen, (nic.rxRing (nic.slot j)).filled
  unfinished : ∀ j < k, ¬ rxEof (nic.status j)
  begins : 0 < first → rxSof (nic.status first)
  latest : ∀ j, first < j → j < seen → ¬ rxSof (nic.status j)

/-- What the place of the driver says about its walk along the ring. -/
def Walks (nic middle : RxNic) : RxDriver → Prop
  | .looking _ next => ∃ first k, next = nic.slot k ∧ Walked nic middle first k k
  | .reading _ next => ∃ first k, next = nic.slot k ∧ Walked nic middle first k k ∧
    (nic.rxRing (nic.slot k)).filled
  | .discarding _ next status _ _ => ∃ first k, next = nic.slot k ∧ Walked nic middle first k k ∧
    (nic.rxRing (nic.slot k)).filled ∧ status = nic.status k ∧ rxSof status
  | .deciding _ next status => ∃ first k, next = nic.slot k ∧ status = nic.status k ∧
    Walked nic middle first k (k + 1)
  | .failing _ => True
  | .idle | .freeing _ _ _ => False

section Walk

variable {nic middle after : RxNic} {first k seen : Nat}

/-- A buffer that has been given back is not filled, and nothing else changes. -/
theorem reclaimRxBuffer_ring (nic : RxNic) (idx i : RxSlot) :
    ((nic.reclaimRxBuffer idx).rxRing i).ctrl = (nic.rxRing i).ctrl ∧
      (((nic.reclaimRxBuffer idx).rxRing i).filled = true ↔
        (nic.rxRing i).filled = true ∧ i ≠ idx) := by
  have used : (macbBit rxUsedOffset).getLsbD rxUsedOffset = true := by decide
  by_cases same : i = idx
  · subst same
    simp [reclaimRxBuffer, DmaDesc.filled, used]
  · simp [reclaimRxBuffer, same]

/-- A round of giving buffers back leaves everything but the ring alone. -/
theorem reclaimRound_frame {newTail : RxSlot} {second again : Bool} {i next : Nat}
    (round : nic.reclaimRound newTail second i = some (after, again, next)) :
    (∀ j, (after.rxRing j).ctrl = (nic.rxRing j).ctrl) ∧
      (∀ j, (after.rxRing j).filled → (nic.rxRing j).filled) ∧
      after.rxTail = nic.rxTail ∧ after.wrapped = nic.wrapped := by
  -- The buffer at the index is given back, or none.
  have given : ∀ idx, (∀ j, ((nic.reclaimRxBuffer idx).rxRing j).ctrl = (nic.rxRing j).ctrl) ∧
      (∀ j, ((nic.reclaimRxBuffer idx).rxRing j).filled → (nic.rxRing j).filled) ∧
      (nic.reclaimRxBuffer idx).rxTail = nic.rxTail ∧
      (nic.reclaimRxBuffer idx).wrapped = nic.wrapped := fun idx =>
    ⟨fun j => (reclaimRxBuffer_ring nic idx j).1,
      fun j filled => ((reclaimRxBuffer_ring nic idx j).2.mp filled).1, rfl, rfl⟩
  unfold reclaimRound at round
  split at round
  · split at round
    · split at round
      · simp only [Option.some.injEq, Prod.mk.injEq] at round
        rw [← round.1]
        exact given _
      · cases round
    · split at round
      · simp only [Option.some.injEq, Prod.mk.injEq] at round
        rw [← round.1]
        exact given _
      · simp only [Option.some.injEq, Prod.mk.injEq] at round
        rw [← round.1]
        exact ⟨fun _ => rfl, fun _ => id, rfl, rfl⟩
  · cases round

/-- Only the ring, the tail and the mark for wrapping matter for a walk. -/
theorem Walked.congr (walked : Walked nic middle first k seen)
    (ctrl : ∀ i, (after.rxRing i).ctrl = (middle.rxRing i).ctrl)
    (freed : ∀ i, (after.rxRing i).filled → (middle.rxRing i).filled)
    (tail : after.rxTail = middle.rxTail) (wrapped : after.wrapped = middle.wrapped) :
    Walked nic after first k seen := by
  refine ⟨fun i => (ctrl i).trans (walked.ctrl i), fun i filled => walked.freed i (freed i filled),
    tail.trans walked.tail, ?_, walked.order, walked.filled, walked.unfinished, walked.begins,
    walked.latest⟩
  rw [wrapped]
  exact walked.wrapped

/-- A buffer in which a frame begins is the first one from now on. -/
theorem Walked.begin (walked : Walked nic middle first k k)
    (filled : (nic.rxRing (nic.slot k)).filled) (sof : rxSof (nic.status k))
    (ring : after.rxRing = middle.rxRing) (tail : after.rxTail = nic.slot k)
    (wrapped : after.wrapped = false) : Walked nic after k k (k + 1) := by
  -- The frame that begins here is the one that counts, and nothing of it is behind the driver.
  have inside := (nic.slot k).isLt
  refine ⟨?_, ?_, tail, ?_, Nat.le_refl k, ?_, walked.unfinished, fun _ => sof, ?_⟩
  · rw [ring]
    exact walked.ctrl
  · rw [ring]
    exact walked.freed
  · rw [wrapped]
    simp only [Bool.false_eq_true, false_iff]
    omega
  · intro j below
    rcases Nat.lt_succ_iff_lt_or_eq.mp below with earlier | same
    · exact walked.filled j earlier
    · rw [same]
      exact filled
  · intro j above below
    omega

/-- A buffer in which no frame begins belongs to the frame from before. -/
theorem Walked.pass (walked : Walked nic middle first k k)
    (filled : (nic.rxRing (nic.slot k)).filled) (sof : ¬ rxSof (nic.status k)) :
    Walked nic middle first k (k + 1) := by
  refine ⟨walked.ctrl, walked.freed, walked.tail, walked.wrapped, walked.order, ?_,
    walked.unfinished, walked.begins, ?_⟩
  · intro j below
    rcases Nat.lt_succ_iff_lt_or_eq.mp below with earlier | same
    · exact walked.filled j earlier
    · rw [same]
      exact filled
  · intro j above below
    rcases Nat.lt_succ_iff_lt_or_eq.mp below with earlier | same
    · exact walked.latest j above earlier
    · rw [same]
      exact sof

/-- A buffer in which no frame ends is followed by the next one. -/
theorem Walked.goOn (walked : Walked nic middle first k (k + 1))
    (eof : ¬ rxEof (nic.status k)) (ring : after.rxRing = middle.rxRing)
    (tail : after.rxTail = middle.rxTail)
    (wrapped : after.wrapped = (middle.wrapped || (nic.slot k).val + 1 ≥ rxRingSize)) :
    Walked nic after first (k + 1) (k + 1) := by
  refine ⟨?_, ?_, tail.trans walked.tail, ?_, Nat.le_succ_of_le walked.order, walked.filled, ?_,
    walked.begins, walked.latest⟩
  · rw [ring]
    exact walked.ctrl
  · rw [ring]
    exact walked.freed
  · -- The walk has come around the ring before, or does so now.
    have order := walked.order
    rw [wrapped, Bool.or_eq_true, walked.wrapped, decide_eq_true_eq]
    simp only [slot, ahead, rxRingSize]
    omega
  · intro j below
    rcases Nat.lt_succ_iff_lt_or_eq.mp below with earlier | same
    · exact walked.unfinished j earlier
    · rw [same]
      exact eof

/-- Every silent step of the driver goes on with the walk. -/
theorem Walks.step (walks : Walks nic middle middle.driver) (silent : Silent middle after) :
    Walks nic after after.driver := by
  unfold Silent drive at silent
  cases driver : middle.driver with
  | idle =>
    rw [driver] at walks
    exact walks.elim
  | freeing length second i =>
    rw [driver] at walks
    exact walks.elim
  | looking tries next =>
    rw [driver] at walks silent
    obtain ⟨first, k, rfl, walked⟩ := walks
    simp only at silent
    split at silent
    · rename_i filled
      obtain ⟨rfl, -⟩ := Prod.mk.inj (Except.ok.inj silent)
      exact ⟨first, k, rfl, walked.congr (fun _ => rfl) (fun _ => id) rfl rfl,
        walked.freed _ filled⟩
    · obtain ⟨rfl, -⟩ := Prod.mk.inj (Except.ok.inj silent)
      trivial
  | failing tries =>
    -- The next poll and the end of the call are not silent.
    rw [driver] at silent
    simp only [retry] at silent
    split at silent
    · cases (Prod.mk.inj (Except.ok.inj silent)).2
    · cases (Prod.mk.inj (Except.ok.inj silent)).2
  | reading tries next =>
    rw [driver] at walks silent
    obtain ⟨first, k, rfl, walked, filled⟩ := walks
    have status : (middle.rxRing (nic.slot k)).ctrl = nic.status k := walked.ctrl _
    simp only [status] at silent
    split at silent
    · rename_i sof
      split at silent
      · obtain ⟨rfl, -⟩ := Prod.mk.inj (Except.ok.inj silent)
        exact ⟨first, k, rfl, walked.congr (fun _ => rfl) (fun _ => id) rfl rfl, filled, rfl, sof⟩
      · rename_i here
        obtain ⟨rfl, -⟩ := Prod.mk.inj (Except.ok.inj silent)
        exact ⟨k, k, rfl, rfl, walked.begin filled sof rfl (not_not.mp here).symm rfl⟩
    · rename_i inner
      obtain ⟨rfl, -⟩ := Prod.mk.inj (Except.ok.inj silent)
      exact ⟨first, k, rfl, rfl,
        (walked.pass filled inner).congr (fun _ => rfl) (fun _ => id) rfl rfl⟩
  | discarding tries next status second i =>
    rw [driver] at walks silent
    obtain ⟨first, k, rfl, walked, filled, rfl, sof⟩ := walks
    simp only at silent
    split at silent
    · rename_i given again place round
      obtain ⟨ctrl, freed, tail, wrapped⟩ := reclaimRound_frame round
      obtain ⟨rfl, -⟩ := Prod.mk.inj (Except.ok.inj silent)
      exact ⟨first, k, rfl, walked.congr ctrl freed tail wrapped, filled, rfl, sof⟩
    · obtain ⟨rfl, -⟩ := Prod.mk.inj (Except.ok.inj silent)
      exact ⟨k, k, rfl, rfl, walked.begin filled sof rfl rfl rfl⟩
  | deciding tries next status =>
    rw [driver] at walks silent
    obtain ⟨first, k, rfl, rfl, walked⟩ := walks
    simp only at silent
    split at silent
    · split at silent
      · -- A copy is not silent.
        cases (Prod.mk.inj (Except.ok.inj silent)).2
      · cases silent
    · rename_i eof
      obtain ⟨rfl, -⟩ := Prod.mk.inj (Except.ok.inj silent)
      exact ⟨first, k + 1, next_ahead _ k, walked.goOn eof rfl rfl rfl⟩

/-- The walk starts at the tail. -/
theorem walks_poll (nic : RxNic) (tries : Nat) :
    Walks nic (nic.poll tries) (nic.poll tries).driver := by
  have here : nic.rxTail = nic.slot 0 := (ahead_zero nic.rxTail).symm
  have inside := (nic.slot 0).isLt
  refine ⟨0, 0, here, fun _ => rfl, fun _ => id, here, ?_, Nat.le_refl 0, by simp, by simp,
    by simp, by simp⟩
  simp only [poll, Bool.false_eq_true, false_iff]
  omega

/-- A frame that is copied is the first whole one in the ring. -/
theorem Walked.frame (walked : Walked nic middle first k (k + 1)) (eof : rxEof (nic.status k)) :
    nic.Frame first k := by
  refine ⟨walked.order, ?_, fun j below => walked.filled j (by omega), eof, walked.unfinished,
    walked.begins, fun j above below => walked.latest j above (by omega)⟩
  by_contra around
  -- The driver would have looked at the buffer before.
  have again : nic.slot (k - rxRingSize) = nic.slot k := by
    rw [slot, slot, ← ahead_add_size, Nat.sub_add_cancel (Nat.not_lt.mp around)]
  refine walked.unfinished (k - rxRingSize) (by simp only [rxRingSize] at around ⊢; omega) ?_
  rw [status, again]
  exact eof

/-- The number of bytes that a client copies is the length of the frame. -/
theorem copiedBytes_netRecv (length : Nat) (buf : Buffer netReplySize) :
    copiedBytes (netRecv (replyRecv length buf)).2 = length := by
  unfold netRecv
  split
  · simp [copiedBytes, replyRecv]
  · rename_i none
    simp only [replyRecv, and_true, gt_iff_lt, Int.natCast_pos] at none
    simp only [copiedBytes, List.flatMap_nil, List.length_nil]
    omega

/-- Two parts have the length of the whole together, unless the difference has wrapped around. -/
theorem parts_le {length headlen room word : Nat} (short : length ≤ room) (head : headlen < word)
    (large : room < word) :
    headlen + (length + word - headlen) % word ≤ room ↔ headlen ≤ length := by
  rcases Nat.lt_or_ge length headlen with less | enough
  · rw [Nat.mod_eq_of_lt (by omega)]
    omega
  · have rest : length + word - headlen = length - headlen + word := by omega
    rw [rest, Nat.add_mod_right, Nat.mod_eq_of_lt (by omega)]
    omega

/-- The first part of a frame and the rest of it fit if the first part is not longer than it. -/
theorem unsigned_parts_le {length headlen : Nat} (short : length ≤ netReplySize)
    (head : headlen < 2 ^ 32) :
    headlen + unsignedSub length headlen ≤ netReplySize ↔ headlen ≤ length := by
  unfold unsignedSub
  exact parts_le short head (by decide)

/-- Copies write as many bytes as they read. -/
theorem copiedBytes_rxBytes (nic : RxNic) (src other dst size rest : Nat) :
    copiedBytes [⟨0, nic.rxBytes src size⟩] = size ∧
      copiedBytes [⟨0, nic.rxBytes src size⟩, ⟨dst, nic.rxBytes other rest⟩] = size + rest := by
  simp [copiedBytes, rxBytes]

/-- The bytes that the driver copies are those of the frame, unless the frame is too short for the
buffers up to the end of the ring. -/
theorem copiedBytes_frameCopies {length : Nat} (short : length ≤ netReplySize) :
    copiedBytes (nic.frameCopies length) ≤ netReplySize ↔
      nic.wrapped = false ∨ rxBufferSize * (rxRingSize - nic.rxTail.val) ≤ length := by
  have head : rxBufferSize * (rxRingSize - nic.rxTail.val) < 2 ^ 32 :=
    Nat.lt_of_le_of_lt (Nat.mul_le_mul_left _ (Nat.sub_le _ _)) (by decide)
  unfold frameCopies
  cases wrapped : nic.wrapped with
  | false =>
    rw [if_neg (by decide), (copiedBytes_rxBytes nic _ 0 0 length 0).1]
    exact iff_of_true short (Or.inl rfl)
  | true =>
    rw [if_pos rfl]
    simp only [(copiedBytes_rxBytes nic _ _ _ _ _).2, unsigned_parts_le short head,
      Bool.true_eq_false, false_or]

/-- The driver walks along the ring until it shows something. -/
theorem walks_of_silent {tries : Nat}
    (walk : Relation.ReflTransGen Silent (nic.poll tries) middle) :
    Walks nic middle middle.driver := by
  induction walk with
  | refl => exact walks_poll nic tries
  | tail _ silent ih => exact ih.step silent

/-- What the driver copies is a frame that it has come to the end of. -/
theorem accepted_cases {length : Nat} {copies : List Copied} {events : List RxEvent}
    (accepted : middle.drive = .ok (after, .accepted length copies :: events)) :
    ∃ tries next status, middle.driver = .deciding tries next status ∧ rxEof status ∧
      length = rxLength status ∧ rxLength status ≤ netReplySize ∧
      copies = middle.frameCopies length := by
  -- No other step of the driver shows a copy.
  unfold drive at accepted
  cases driver : middle.driver with
  | idle =>
    rw [driver] at accepted
    cases accepted
  | looking tries next =>
    rw [driver] at accepted
    simp only at accepted
    split at accepted
    · cases (Prod.mk.inj (Except.ok.inj accepted)).2
    · cases (Prod.mk.inj (Except.ok.inj accepted)).2
  | failing tries =>
    rw [driver] at accepted
    simp only [retry] at accepted
    split at accepted
    · cases (Prod.mk.inj (Except.ok.inj accepted)).2
    · cases (Prod.mk.inj (Except.ok.inj accepted)).2
  | reading tries next =>
    rw [driver] at accepted
    simp only at accepted
    split at accepted
    · split at accepted
      · cases (Prod.mk.inj (Except.ok.inj accepted)).2
      · cases (Prod.mk.inj (Except.ok.inj accepted)).2
    · cases (Prod.mk.inj (Except.ok.inj accepted)).2
  | discarding tries next status second i =>
    rw [driver] at accepted
    simp only at accepted
    split at accepted
    · cases (Prod.mk.inj (Except.ok.inj accepted)).2
    · cases (Prod.mk.inj (Except.ok.inj accepted)).2
  | freeing length second i =>
    rw [driver] at accepted
    simp only at accepted
    split at accepted
    · cases (Prod.mk.inj (Except.ok.inj accepted)).2
    · cases (Prod.mk.inj (Except.ok.inj accepted)).2
  | deciding tries next status =>
    rw [driver] at accepted
    simp only at accepted
    split at accepted
    · rename_i eof
      split at accepted
      · rename_i short
        have shown := (Prod.mk.inj (Except.ok.inj accepted)).2
        obtain ⟨rfl, rfl⟩ := RxEvent.accepted.inj (List.cons.inj shown).1
        exact ⟨tries, next, status, rfl, eof, rfl, short, rfl⟩
      · cases accepted
    · cases (Prod.mk.inj (Except.ok.inj accepted)).2

/-- There is only one first whole frame. -/
theorem Frame.unique {last other end_ : Nat} (frame : nic.Frame first last)
    (again : nic.Frame other end_) : first = other ∧ last = end_ := by
  have same : last = end_ := by
    rcases Nat.lt_trichotomy last end_ with less | equal | more
    · exact absurd frame.ends (again.unfinished _ less)
    · exact equal
    · exact absurd again.ends (frame.unfinished _ more)
  subst same
  refine ⟨?_, rfl⟩
  rcases Nat.lt_trichotomy first other with less | equal | more
  · exact absurd (again.begins (by omega)) (frame.latest _ less again.order)
  · exact equal
  · exact absurd (frame.begins (by omega)) (again.latest _ more frame.order)

/-- What is copied is the first whole frame in the ring, and it fits wherever it is copied exactly
if it is short enough for the client, and long enough for its buffers if it goes around the ring. -/
theorem received_frame_fits_iff (nic : RxNic) (tries : Nat) (client : NetClient)
    {middle after : RxNic} {length : Nat} {copies : List Copied} {events : List RxEvent}
    (walk : Relation.ReflTransGen Silent (nic.poll tries) middle)
    (accepted : middle.drive = .ok (after, .accepted length copies :: events)) :
    (∃ first last, nic.Frame first last) ∧ ∀ first last, nic.Frame first last →
      (HopsFit client length copies ↔ nic.Fitting client first last) := by
  -- The walk of the driver fixes where the frame begins and ends, and whether it has wrapped.
  have walks := walks_of_silent walk
  obtain ⟨_, next, _, driver, eof, rfl, short, rfl⟩ := accepted_cases accepted
  rw [driver] at walks
  obtain ⟨start, k, rfl, rfl, walked⟩ := walks
  refine ⟨⟨start, k, walked.frame eof⟩, fun first last frame => ?_⟩
  obtain ⟨rfl, rfl⟩ := frame.unique (walked.frame eof)
  have around : middle.wrapped = false ↔
      (nic.slot first).val + (last - first) < rxRingSize := by
    rw [← Bool.not_eq_true, walked.wrapped, Nat.not_le]
  have packet : (∀ buf, copiedBytes (netRecv (replyRecv (rxLength (nic.status last)) buf)).2 ≤
      client.room) ↔ rxLength (nic.status last) ≤ client.room := by
    simp only [copiedBytes_netRecv, forall_const]
  unfold Fitting
  rw [← packet, ← around, ← walked.tail, ← copiedBytes_frameCopies short]
  exact ⟨fun fits => ⟨fits.packet, fits.driver⟩, fun fits => ⟨fits.2, fits.1⟩⟩

end Walk

/-- The driver after some silent steps. -/
def silently : Nat → RxNic → Option RxNic
  | 0, nic => some nic
  | count + 1, nic =>
    match nic.drive with
    | .ok (after, []) => silently count after
    | _ => none

/-- The length of the frame that the driver copies next. -/
def acceptedLength (nic : RxNic) : Option Nat :=
  match nic.drive with
  | .ok (_, .accepted length _ :: _) => some length
  | _ => none

/-- Silent steps are a walk. -/
theorem walk_of_silently {middle : RxNic} : ∀ {count : Nat} {nic : RxNic},
    silently count nic = some middle → Relation.ReflTransGen Silent nic middle := by
  intro count
  induction count with
  | zero =>
    intro nic walk
    rw [Option.some.inj walk]
  | succ count ih =>
    intro nic walk
    unfold silently at walk
    split at walk
    · rename_i after stepped
      exact .head stepped (ih walk)
    · cases walk

/-- The frame that the driver copies next. -/
theorem accepted_of_length {nic : RxNic} {length : Nat} (found : nic.acceptedLength = some length) :
    ∃ after copies events, nic.drive = .ok (after, .accepted length copies :: events) := by
  unfold acceptedLength at found
  split at found
  · rename_i after other copies events stepped
    rw [← Option.some.inj found]
    exact ⟨after, copies, events, stepped⟩
  · cases found

/-- A ring with one frame in some buffers from the tail on. -/
def sampleNic (tail : RxSlot) (count length : Nat) : RxNic where
  rxRing := fun i =>
    let j := (i.val + rxRingSize - tail.val) % rxRingSize
    { addr := if j < count then macbBit rxUsedOffset else 0
      ctrl := (if j = 0 then macbBit rxSofOffset else 0) |||
        if j + 1 = count then macbBit rxEofOffset ||| BitVec.ofNat 32 length else 0 }
  rxBuffer := fun _ => 0
  rxTail := tail
  nextRxTail := tail
  wrapped := false
  packet := fun _ => 0
  driver := .idle
  place := tail
  receiving := none

/-- A frame of 300 bytes that goes around the ring fits everywhere on its way to the server. -/
theorem received_frame_fits_around :
    ∃ middle after copies events,
      Relation.ReflTransGen Silent ((sampleNic (Fin.last 31) 3 300).poll 0) middle ∧
      middle.drive = .ok (after, .accepted 300 copies :: events) ∧
      HopsFit .http 300 copies := by
  -- The frame begins in the last buffer of the ring and goes on in the first two.
  have ran : ((silently 8 ((sampleNic (Fin.last 31) 3 300).poll 0)).bind acceptedLength) =
      some 300 := by decide +kernel
  obtain ⟨middle, walk, found⟩ := Option.bind_eq_some_iff.mp ran
  obtain ⟨after, copies, events, accepted⟩ := accepted_of_length found
  have frame : (sampleNic (Fin.last 31) 3 300).Frame 0 2 := by
    have latest : ∀ j ≤ 2, 0 < j → ¬ rxSof ((sampleNic (Fin.last 31) 3 300).status j) := by
      decide +kernel
    refine ⟨by decide, by decide, ?_, ?_, ?_, by decide, fun j above below => latest j below above⟩
    all_goals decide +kernel
  have fitting : (sampleNic (Fin.last 31) 3 300).Fitting .http 0 2 := by
    unfold Fitting
    decide +kernel
  have fits := (received_frame_fits_iff (sampleNic (Fin.last 31) 3 300) 0 .http
    (walk_of_silently walk) accepted).2 0 2 frame
  exact ⟨middle, after, copies, events, walk_of_silently walk, accepted, fits.mpr fitting⟩

/-- The driver accepts a frame of 500 bytes, which is too long for the server. -/
theorem received_frame_overflows :
    ∃ middle after copies events,
      Relation.ReflTransGen Silent ((sampleNic 0 4 500).poll 0) middle ∧
      middle.drive = .ok (after, .accepted 500 copies :: events) ∧
      ¬ HopsFit .http 500 copies := by
  have ran : ((silently 11 ((sampleNic 0 4 500).poll 0)).bind acceptedLength) = some 500 := by
    decide +kernel
  obtain ⟨middle, walk, found⟩ := Option.bind_eq_some_iff.mp ran
  obtain ⟨after, copies, events, accepted⟩ := accepted_of_length found
  refine ⟨middle, after, copies, events, walk_of_silently walk, accepted, fun fits => ?_⟩
  have packet := fits.packet (Buffer.zero _)
  rw [copiedBytes_netRecv] at packet
  exact absurd packet (by decide)

end RxNic

end Egos.Macb
