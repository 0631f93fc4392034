import Egos.Macb.Receive

/-! The frames that the filled buffers of the receive ring hold. -/

namespace Egos.Macb

/-- A filled buffer with its status. -/
structure Piece where
  status : BitVec 32
  bytes : List UInt8

/-- The bytes of a frame up to the end of a piece. -/
def Piece.joined (piece : Piece) (begun : Option (List UInt8)) : List UInt8 :=
  (if rxSof piece.status then [] else begun.getD []) ++ piece.bytes

/-- The frame that has begun before the end of a piece and goes on behind it. -/
def Piece.leaves (piece : Piece) (begun : Option (List UInt8)) : Option (List UInt8) :=
  if rxEof piece.status then none else some (piece.joined begun)

/-- The whole frames in some pieces, the first of which may go on with a frame. -/
def framesOf : Option (List UInt8) → List Piece → List (List UInt8)
  | _, [] => []
  | begun, piece :: rest =>
    if rxEof piece.status then
      (piece.joined begun).take (rxLength piece.status) :: framesOf none rest
    else framesOf (some (piece.joined begun)) rest

/-- The frame that goes on behind some pieces. -/
def begunOf : Option (List UInt8) → List Piece → Option (List UInt8)
  | begun, [] => begun
  | begun, piece :: rest => begunOf (piece.leaves begun) rest

/-- A piece as the device makes it, behind a frame that has begun. -/
structure Piece.Proper (piece : Piece) (begun : Option (List UInt8)) : Prop where
  continues : ¬ rxSof piece.status → begun ≠ none
  full : piece.bytes.length = rxBufferSize
  long : rxEof piece.status → (piece.joined begun).length < rxLength piece.status + rxBufferSize
  length : rxEof piece.status → rxLength piece.status ≤ (piece.joined begun).length
  short : rxEof piece.status → rxLength piece.status ≤ 512
  more : ¬ rxEof piece.status → (piece.joined begun).length < 512

/-- Pieces as the device makes them. -/
def Proper : Option (List UInt8) → List Piece → Prop
  | _, [] => True
  | begun, piece :: rest => piece.Proper begun ∧ Proper (piece.leaves begun) rest

section Pieces

variable {begun : Option (List UInt8)} {first second : List Piece} {piece : Piece}

/-- The frames in the first pieces come before those in the others. -/
theorem framesOf_append : ∀ {begun : Option (List UInt8)},
    framesOf begun (first ++ second) =
      framesOf begun first ++ framesOf (begunOf begun first) second := by
  induction first with
  | nil => simp [framesOf, begunOf]
  | cons piece rest ih =>
    intro begun
    simp only [List.cons_append, framesOf, begunOf, Piece.leaves]
    split
    · rw [ih, List.cons_append]
    · exact ih

/-- What goes on behind all pieces. -/
theorem begunOf_append : ∀ {begun : Option (List UInt8)},
    begunOf begun (first ++ second) = begunOf (begunOf begun first) second := by
  induction first with
  | nil => simp [begunOf]
  | cons piece rest ih =>
    intro begun
    simp only [List.cons_append, begunOf]
    exact ih

/-- All pieces are proper exactly if both parts are. -/
theorem proper_append : ∀ {begun : Option (List UInt8)},
    Proper begun (first ++ second) ↔ Proper begun first ∧ Proper (begunOf begun first) second := by
  induction first with
  | nil => simp [Proper, begunOf]
  | cons piece rest ih =>
    intro begun
    simp only [List.cons_append, Proper, begunOf, ih, and_assoc]

/-- A piece in which a frame begins has nothing to do with those before it. -/
theorem Piece.joined_of_sof (sof : rxSof piece.status) :
    piece.joined begun = piece.joined none := by
  simp only [Piece.joined, if_pos sof]

/-- What comes from a piece on in which a frame begins is a matter of these pieces alone. -/
theorem restart (sof : rxSof piece.status) (rest : List Piece) :
    framesOf begun (piece :: rest) = framesOf none (piece :: rest) ∧
      begunOf begun (piece :: rest) = begunOf none (piece :: rest) ∧
      (Proper begun (piece :: rest) → Proper none (piece :: rest)) := by
  -- A piece in which a frame begins drops what was joined before it.
  have same := @Piece.joined_of_sof begun piece sof
  have leaves : piece.leaves begun = piece.leaves none := by
    rw [Piece.leaves, Piece.leaves, same]
  refine ⟨?_, ?_, ?_⟩
  · simp only [framesOf, same]
  · simp only [begunOf, leaves]
  · rintro ⟨proper, others⟩
    refine ⟨⟨fun inner => absurd sof inner, proper.full, ?_, ?_, proper.short, ?_⟩, leaves ▸ others⟩
    · rw [← same]
      exact proper.long
    · rw [← same]
      exact proper.length
    · rw [← same]
      exact proper.more

/-- Pieces in the middle of a frame make it longer. -/
theorem inner_pieces : ∀ {pieces : List Piece} {bytes : List UInt8},
    (∀ piece ∈ pieces, ¬ rxEof piece.status) → (∀ piece ∈ pieces, ¬ rxSof piece.status) →
    framesOf (some bytes) pieces = [] ∧
      begunOf (some bytes) pieces = some (bytes ++ pieces.flatMap Piece.bytes) := by
  -- Each piece is joined to what has been joined before it.
  intro pieces
  induction pieces with
  | nil => simp [framesOf, begunOf]
  | cons piece rest ih =>
    intro bytes open_ inner
    have unended := open_ piece (List.mem_cons_self ..)
    have unbegun := inner piece (List.mem_cons_self ..)
    have joined : piece.joined (some bytes) = bytes ++ piece.bytes := by
      rw [Piece.joined, if_neg unbegun, Option.getD_some]
    obtain ⟨frames, bytes_⟩ := @ih (bytes ++ piece.bytes)
      (fun other member => open_ other (List.mem_cons_of_mem _ member))
      fun other member => inner other (List.mem_cons_of_mem _ member)
    simp only [framesOf, begunOf, Piece.leaves, if_neg unended, joined, frames, bytes_,
      List.flatMap_cons, List.append_assoc, and_self]

/-- Pieces of one frame that does not end in them. -/
theorem open_pieces {pieces : List Piece} (proper : Proper none (piece :: pieces))
    (open_ : ∀ other ∈ piece :: pieces, ¬ rxEof other.status)
    (inner : ∀ other ∈ pieces, ¬ rxSof other.status) :
    framesOf none (piece :: pieces) = [] ∧
      begunOf none (piece :: pieces) = some ((piece :: pieces).flatMap Piece.bytes) := by
  have sof : rxSof piece.status := by
    by_contra unbegun
    exact proper.1.continues unbegun rfl
  have unended := open_ piece (List.mem_cons_self ..)
  have joined : piece.joined none = piece.bytes := by
    rw [Piece.joined, if_pos sof, List.nil_append]
  obtain ⟨frames, bytes⟩ := @inner_pieces pieces piece.bytes
    (fun other member => open_ other (List.mem_cons_of_mem _ member)) inner
  simp only [framesOf, begunOf, Piece.leaves, if_neg unended, joined, frames, bytes,
    List.flatMap_cons, and_self]

/-- Every piece has a full buffer. -/
theorem Proper.bytes_length : ∀ {pieces : List Piece} {begun : Option (List UInt8)},
    Proper begun pieces → (pieces.flatMap Piece.bytes).length = rxBufferSize * pieces.length := by
  intro pieces
  induction pieces with
  | nil => simp
  | cons piece rest ih =>
    intro begun proper
    rw [List.flatMap_cons, List.length_append, proper.1.full, ih proper.2, List.length_cons,
      Nat.mul_add, Nat.mul_one, Nat.add_comm]

/-- The bytes of the last piece are among those that have been joined. -/
theorem Proper.begun_short : ∀ {pieces : List Piece} {begun : Option (List UInt8)}
    {bytes : List UInt8}, Proper begun pieces → (∀ old, begun = some old → old.length < 512) →
    begunOf begun pieces = some bytes → bytes.length < 512 := by
  -- Each piece that leaves a frame open leaves one that is still short.
  intro pieces
  induction pieces with
  | nil =>
    intro begun bytes _ short last
    exact short bytes last
  | cons piece rest ih =>
    intro begun bytes proper _ last
    refine ih proper.2 ?_ last
    intro old leaves
    unfold Piece.leaves at leaves
    split at leaves
    · cases leaves
    · rename_i more
      rw [← Option.some.inj leaves]
      exact proper.1.more more

/-- A frame has at most three pieces in front of its last one. -/
theorem open_few {pieces : List Piece} (proper : Proper none (piece :: pieces))
    (open_ : ∀ other ∈ piece :: pieces, ¬ rxEof other.status)
    (inner : ∀ other ∈ pieces, ¬ rxSof other.status) : (piece :: pieces).length < 4 := by
  have short := proper.begun_short (by simp) (open_pieces proper open_ inner).2
  rw [proper.bytes_length] at short
  simp only [rxBufferSize] at short
  omega

/-- What a piece adds that the device has just made. -/
theorem Piece.added {received : Option (List UInt8)} {bytes : List UInt8}
    (known : ∀ old, received = some old → begun = some old)
    (begins : rxSof piece.status ↔ received = none) (full : piece.bytes.length = rxBufferSize)
    (front : bytes <+: piece.bytes)
    (lengths : if rxEof piece.status then
        0 < bytes.length ∧ bytes.length ≤ rxBufferSize ∧
          rxLength piece.status = (received.getD [] ++ bytes).length ∧ rxLength piece.status ≤ 512
      else bytes.length = rxBufferSize ∧ (received.getD [] ++ bytes).length < 512) :
    piece.Proper begun ∧
      framesOf begun [piece] =
        (if rxEof piece.status then [received.getD [] ++ bytes] else []) ∧
      piece.leaves begun =
        if rxEof piece.status then none else some (received.getD [] ++ bytes) := by
  have joined : piece.joined begun = received.getD [] ++ piece.bytes := by
    cases received with
    | none => rw [Piece.joined, if_pos (begins.mpr rfl), Option.getD_none]
    | some old =>
      have inner : ¬ rxSof piece.status := fun sof => by cases begins.mp sof
      rw [Piece.joined, if_neg inner, known old rfl]
  have continues : ¬ rxSof piece.status → begun ≠ none := by
    intro inner
    cases received with
    | none => exact absurd (begins.mpr rfl) inner
    | some old => simp [known old rfl]
  by_cases last : rxEof piece.status
  · rw [if_pos last] at lengths
    obtain ⟨some_, _, length, short⟩ := lengths
    rw [List.length_append] at length
    refine ⟨⟨continues, full, ?_, ?_, fun _ => short, fun more => absurd last more⟩, ?_, ?_⟩
    · intro _
      rw [joined, List.length_append]
      omega
    · intro _
      rw [joined, List.length_append, length]
      have := front.length_le
      omega
    · -- The length in the status cuts the rest of the buffer off.
      rw [framesOf, if_pos last, if_pos last, framesOf, joined, length, List.take_length_add_append,
        ← List.prefix_iff_eq_take.mp front]
    · rw [Piece.leaves, if_pos last, if_pos last]
  · rw [if_neg last] at lengths
    obtain ⟨whole, short⟩ := lengths
    have same : bytes = piece.bytes := front.eq_of_length (whole.trans full.symm)
    refine ⟨⟨continues, full, ?_, ?_, ?_, ?_⟩, ?_, ?_⟩
    · exact fun ends => absurd ends last
    · exact fun ends => absurd ends last
    · exact fun ends => absurd ends last
    · intro _
      rw [joined, ← same]
      exact short
    · rw [framesOf, if_neg last, if_neg last, framesOf]
    · rw [Piece.leaves, if_neg last, if_neg last, joined, same]

end Pieces

namespace RxNic

/-- A buffer of the ring with its status. -/
def piece (nic : RxNic) (i : RxSlot) : Piece :=
  ⟨(nic.rxRing i).ctrl, nic.rxBytes (rxBufferSize * i.val) rxBufferSize⟩

/-- The buffers from a descriptor on. -/
def window (nic : RxNic) (head : RxSlot) (count : Nat) : List Piece :=
  (List.range count).map fun j => nic.piece (ahead head j)

/-- The filled buffers come one behind the other: `given` ones that the driver is giving back, and
`kept` ones behind them, in which some frames are whole. -/
structure Stored (nic : RxNic) (head : RxSlot) (given kept : Nat) (frames : List (List UInt8)) :
    Prop where
  room : given + kept ≤ rxRingSize
  place : nic.place = ahead head (given + kept)
  filled : ∀ j < rxRingSize, (nic.rxRing (ahead head j)).filled = true ↔ j < given + kept
  wraps : ∀ i, (nic.rxRing i).rxWraps = true ↔ i = Fin.last 31
  proper : Proper none (nic.window (ahead head given) kept)
  frames : framesOf none (nic.window (ahead head given) kept) = frames
  begun : ∀ bytes, nic.receiving = some bytes →
    begunOf none (nic.window (ahead head given) kept) = some bytes

section Windows

variable {nic after : RxNic} {head : RxSlot} {given kept count : Nat}
variable {frames : List (List UInt8)}

/-- A window is as long as it says. -/
@[simp] theorem length_window (nic : RxNic) (head : RxSlot) (count : Nat) :
    (nic.window head count).length = count := by
  simp [window]

/-- A window in two parts. -/
theorem window_add (nic : RxNic) (head : RxSlot) (first second : Nat) :
    nic.window head (first + second) =
      nic.window head first ++ nic.window (ahead head first) second := by
  simp only [window, List.range_add, List.map_append, List.map_map, ahead_ahead]
  rfl

/-- A window begins with the first buffer. -/
theorem window_succ (nic : RxNic) (head : RxSlot) (count : Nat) :
    nic.window head (count + 1) = nic.piece head :: nic.window (ahead head 1) count := by
  rw [Nat.add_comm, window_add]
  simp [window]

/-- The buffers of a window. -/
theorem mem_window {piece : Piece} :
    piece ∈ nic.window head count ↔ ∃ j < count, nic.piece (ahead head j) = piece := by
  simp [window]

/-- A window is a matter of the statuses and the bytes of its buffers. -/
theorem window_congr (same : ∀ j < count, after.piece (ahead head j) = nic.piece (ahead head j)) :
    after.window head count = nic.window head count := by
  apply List.map_congr_left
  intro j member
  exact same j (List.mem_range.mp member)

/-- The bytes from a place on, in two parts. -/
theorem rxBytes_add (nic : RxNic) (src first second : Nat) :
    nic.rxBytes src (first + second) =
      nic.rxBytes src first ++ nic.rxBytes (src + first) second := by
  simp only [rxBytes, List.range_add, List.map_append, List.map_map, Nat.add_assoc]
  rfl

/-- The bytes of a window that does not come to the end of the ring lie one behind the other. -/
theorem window_bytes : ∀ {count : Nat} {head : RxSlot}, head.val + count ≤ rxRingSize →
    (nic.window head count).flatMap Piece.bytes =
      nic.rxBytes (rxBufferSize * head.val) (rxBufferSize * count) := by
  intro count
  induction count with
  | zero => simp [window, rxBytes]
  | succ count ih =>
    intro head inside
    rw [window_succ, List.flatMap_cons, Nat.mul_add, Nat.mul_one, Nat.add_comm, rxBytes_add]
    congr 1
    rcases Nat.eq_zero_or_pos count with none | some_
    · subst none
      simp [window, rxBytes]
    · -- The next buffer is not the first one of the ring.
      have next : (ahead head 1).val = head.val + 1 := by
        simp only [ahead, rxRingSize] at inside ⊢
        omega
      rw [ih (by rw [next]; omega), next, Nat.mul_add, Nat.mul_one]

/-- The ring and the buffers decide what is stored. -/
theorem Stored.congr (stored : Stored nic head given kept frames)
    (ring : after.rxRing = nic.rxRing) (buffer : after.rxBuffer = nic.rxBuffer)
    (place : after.place = nic.place) (receiving : after.receiving = nic.receiving) :
    Stored after head given kept frames := by
  -- The window of pieces is read from the ring and the buffers.
  have same : after.window (ahead head given) kept = nic.window (ahead head given) kept := by
    apply window_congr
    intro j _
    simp only [piece, rxBytes, ring, buffer]
  obtain ⟨room, oldPlace, filled, wraps, proper, whole, begun⟩ := stored
  refine ⟨room, place.trans oldPlace, ?_, ?_, ?_, ?_, ?_⟩
  · rw [ring]
    exact filled
  · rw [ring]
    exact wraps
  · rw [same]
    exact proper
  · rw [same]
    exact whole
  · rw [same, receiving]
    exact begun

/-- The device may give up the frame that it is receiving. -/
theorem Stored.abandon (stored : Stored nic head given kept frames) :
    Stored { nic with receiving := none } head given kept frames := by
  obtain ⟨room, place, filled, wraps, proper, whole, -⟩ := stored
  exact ⟨room, place, filled, wraps, proper, whole, by simp⟩

/-- A buffer that has been given back still has its status and its bytes. -/
theorem piece_reclaim (nic : RxNic) (idx i : RxSlot) :
    (nic.reclaimRxBuffer idx).piece i = nic.piece i := by
  by_cases here : i = idx
  · simp [piece, rxBytes, reclaimRxBuffer, here]
  · simp [piece, rxBytes, reclaimRxBuffer, Function.update_of_ne here]

/-- Giving the first buffer back. -/
theorem Stored.reclaim (stored : Stored nic head (given + 1) kept frames) :
    Stored (nic.reclaimRxBuffer head) (ahead head 1) given kept frames := by
  have used : (macbBit rxUsedOffset).getLsbD rxUsedOffset = true := by decide
  have wrap : (macbBit rxUsedOffset).getLsbD rxWrapOffset = false := by decide
  have start : ahead (ahead head 1) given = ahead head (given + 1) := by
    rw [ahead_ahead, Nat.add_comm]
  have same : (nic.reclaimRxBuffer head).window (ahead head (given + 1)) kept =
      nic.window (ahead head (given + 1)) kept := window_congr fun j _ => piece_reclaim ..
  obtain ⟨room, place, filled, wraps, proper, whole, begun⟩ := stored
  refine ⟨by omega, ?_, ?_, ?_, ?_, ?_, ?_⟩
  · rw [ahead_ahead]
    refine Eq.trans place ?_
    congr 1
    omega
  · intro j inside
    rw [ahead_ahead]
    rcases Nat.lt_or_ge (1 + j) rxRingSize with below | around
    · have other : ahead head (1 + j) ≠ head := by
        intro equal
        rw [← ahead_zero head, ahead_ahead, Nat.zero_add] at equal
        have none := (ahead_inj below (by decide)).mp equal
        omega
      have kept_ := filled (1 + j) below
      simp only [reclaimRxBuffer, Function.update_of_ne other, kept_]
      omega
    · -- Around the ring lies the buffer that has been given back.
      have last : 1 + j = 0 + rxRingSize := by omega
      rw [last, ahead_add_size, ahead_zero]
      simp only [reclaimRxBuffer, Function.update_self, DmaDesc.filled, BitVec.getLsbD_and,
        BitVec.getLsbD_not, used]
      simp only [rxRingSize] at room inside last ⊢
      simp
      omega
  · intro i
    rw [← wraps i]
    by_cases here : i = head
    · have low : rxWrapOffset < 32 := by decide
      rw [here]
      simp only [reclaimRxBuffer, Function.update_self, DmaDesc.rxWraps, BitVec.getLsbD_and,
        BitVec.getLsbD_not, wrap, low, decide_true, Bool.not_false, Bool.and_true]
    · simp only [reclaimRxBuffer, Function.update_of_ne here]
  · rw [start, same]
    exact proper
  · rw [start, same]
    exact whole
  · rw [start, same]
    exact begun

/-- A buffer is filled, and no other one changes. -/
theorem piece_fill {bytes : List UInt8} {status : BitVec 32} {place : RxSlot}
    (ring : after.rxRing = Function.update nic.rxRing place
      ⟨(nic.rxRing place).addr ||| macbBit rxUsedOffset, status⟩)
    (buffer : after.rxBuffer =
      Copied.store nic.rxBuffer ⟨rxBufferSize * place.val, bytes⟩)
    (fits : bytes.length ≤ rxBufferSize) :
    (∀ i ≠ place, after.piece i = nic.piece i) ∧ (after.piece place).status = status ∧
      (after.piece place).bytes.length = rxBufferSize ∧ bytes <+: (after.piece place).bytes := by
  refine ⟨?_, ?_, ?_, ?_⟩
  · intro i other
    have apart : i.val ≠ place.val := fun same => other (Fin.ext same)
    simp only [piece, ring, Function.update_of_ne other, Piece.mk.injEq, true_and, rxBytes]
    apply List.map_congr_left
    intro k member
    have inside := List.mem_range.mp member
    rw [buffer, Copied.store]
    -- The place of a byte is in its own buffer.
    rcases Nat.lt_or_ge i.val place.val with before | behind
    · have low : rxBufferSize * (i.val + 1) ≤ rxBufferSize * place.val :=
        Nat.mul_le_mul_left _ before
      rw [if_neg (by simp only [rxBufferSize] at low inside ⊢; omega)]
    · have high : rxBufferSize * (place.val + 1) ≤ rxBufferSize * i.val :=
        Nat.mul_le_mul_left _ (by omega)
      split
      · rw [List.getElem?_eq_none, Option.getD_none]
        simp only [rxBufferSize] at fits high ⊢
        omega
      · rfl
  · simp [piece, ring]
  · simp [piece, rxBytes]
  · rw [List.prefix_iff_eq_take]
    apply List.ext_getElem
    · simp only [piece, rxBytes, List.length_take, List.length_map, List.length_range]
      omega
    · intro k first _
      simp [piece, rxBytes, buffer, Copied.store, first]

/-- The device has no buffer once all of them are filled. -/
theorem Stored.space (stored : Stored nic head given kept frames)
    (empty : ¬ (nic.rxRing nic.place).filled) : given + kept < rxRingSize := by
  refine Nat.lt_of_le_of_ne stored.room ?_
  intro full
  apply empty
  have start : nic.place = ahead head 0 := by
    rw [stored.place, full]
    exact ahead_add_size head 0
  rw [start, stored.filled 0 (by decide), full]
  decide

/-- The device goes on at the next descriptor. -/
theorem Stored.next_place (stored : Stored nic head given kept frames) :
    (if (nic.rxRing nic.place).rxWraps then ⟨0, by decide⟩ else nic.place.next) =
      ahead head (given + (kept + 1)) := by
  rw [← Nat.add_assoc, ← next_ahead, ← stored.place]
  split
  · rename_i wraps
    rw [(stored.wraps nic.place).mp wraps]
    rfl
  · rfl

/-- What the device changes when it fills a buffer. -/
structure Fills (nic after : RxNic) (status : BitVec 32) (bytes : List UInt8) : Prop where
  empty : ¬ (nic.rxRing nic.place).filled
  ring : after.rxRing = Function.update nic.rxRing nic.place
    ⟨(nic.rxRing nic.place).addr ||| macbBit rxUsedOffset, status⟩
  buffer : after.rxBuffer = Copied.store nic.rxBuffer ⟨rxBufferSize * nic.place.val, bytes⟩
  place : after.place =
    if (nic.rxRing nic.place).rxWraps then ⟨0, by decide⟩ else nic.place.next
  receiving : after.receiving =
    if rxEof status then none else some (nic.receiving.getD [] ++ bytes)
  tail : after.rxTail = nic.rxTail
  next : after.nextRxTail = nic.nextRxTail
  wrapped : after.wrapped = nic.wrapped
  packet : after.packet = nic.packet
  driver : after.driver = nic.driver

/-- A device that fills a buffer does so as described. -/
theorem fills_of_step {status : BitVec 32} {bytes : List UInt8} {events : List RxEvent}
    (stepped : nic.step (.fill status bytes) = .ok (after, events)) :
    Fills nic after status bytes ∧
      events = if rxEof status then [.completed (nic.receiving.getD [] ++ bytes)] else [] := by
  simp only [step] at stepped
  split at stepped
  · cases stepped
  · rename_i empty
    obtain ⟨rfl, rfl⟩ := Prod.mk.inj (Except.ok.inj stepped)
    exact ⟨⟨empty, rfl, rfl, rfl, rfl, rfl, rfl, rfl, rfl, rfl⟩, rfl⟩

/-- The buffers that are filled after the device has filled one more. -/
theorem Fills.filled {status : BitVec 32} {bytes : List UInt8}
    (fills : Fills nic after status bytes) (i : RxSlot) :
    ((after.rxRing i).filled = true ↔ i = nic.place ∨ (nic.rxRing i).filled = true) ∧
      (after.rxRing i).rxWraps = (nic.rxRing i).rxWraps := by
  have used : (macbBit rxUsedOffset).getLsbD rxUsedOffset = true := by decide
  have wrap : (macbBit rxUsedOffset).getLsbD rxWrapOffset = false := by decide
  rw [fills.ring]
  by_cases here : i = nic.place
  · rw [here, Function.update_self]
    simp only [DmaDesc.filled, DmaDesc.rxWraps, BitVec.getLsbD_or, used, wrap, Bool.or_true,
      Bool.or_false, true_or, and_self]
  · simp only [Function.update_of_ne here, here, false_or, and_self]

/-- Filling the next buffer adds a piece to what is stored. -/
theorem Stored.fill (stored : Stored nic head given kept frames) {status : BitVec 32}
    {bytes : List UInt8} (permitted : nic.Permitted (.fill status bytes))
    (fills : Fills nic after status bytes) :
    Stored after head given (kept + 1)
      (frames ++ if rxEof status then [nic.receiving.getD [] ++ bytes] else []) ∧
    ∀ j < given + kept, after.piece (ahead head j) = nic.piece (ahead head j) := by
  obtain ⟨begins, lengths⟩ := permitted
  have space := stored.space fills.empty
  have fits : bytes.length ≤ rxBufferSize := by
    split at lengths
    · exact lengths.2.1
    · exact lengths.1.le
  obtain ⟨others, rfl, full, front⟩ := piece_fill fills.ring fills.buffer fits
  have kept_ : ∀ j < given + kept, after.piece (ahead head j) = nic.piece (ahead head j) := by
    intro j below
    apply others
    rw [stored.place, Ne, ahead_inj (by omega) space]
    omega
  refine ⟨?_, kept_⟩
  -- The window is the old one and the piece that has been made.
  have window_ : after.window (ahead head given) (kept + 1) =
      nic.window (ahead head given) kept ++ [after.piece nic.place] := by
    rw [window_add, window_succ, ahead_ahead, stored.place]
    congr 1
    apply window_congr
    intro j below
    rw [ahead_ahead]
    exact kept_ _ (by omega)
  obtain ⟨proper, whole, leaves⟩ := Piece.added stored.begun begins full front lengths
  refine ⟨by omega, ?_, ?_, ?_, ?_, ?_, ?_⟩
  · rw [fills.place]
    exact stored.next_place
  · intro j inside
    rw [(fills.filled _).1, stored.filled j inside, stored.place, ahead_inj inside space]
    omega
  · intro i
    rw [(fills.filled i).2]
    exact stored.wraps i
  · rw [window_, proper_append]
    exact ⟨stored.proper, proper, trivial⟩
  · rw [window_, framesOf_append, stored.frames, whole]
  · rw [window_, begunOf_append, begunOf, begunOf, leaves, fills.receiving]
    exact fun _ same => same

end Windows

end RxNic

end Egos.Macb
