import Egos.Macb.Frames

/-! The receive ring hands the frames out in the order in which they arrive. -/

namespace Egos.Macb

/-- The frames that the device has received, in order. -/
def completedFrames (history : List RxEvent) : List (List UInt8) :=
  history.filterMap fun
    | .completed bytes => some bytes
    | _ => none

/-- The frames that calls have returned, in order. -/
def returnedFrames (history : List RxEvent) : List (List UInt8) :=
  history.filterMap fun
    | .returned frame => frame
    | _ => none

/-- A call returns minus one only if its last poll began without a frame to return. -/
def Answered (history : List RxEvent) : Prop :=
  ∀ before since after, history = before ++ .polled :: (since ++ .returned none :: after) →
    .polled ∉ since → completedFrames before = returnedFrames before

/-- The frames of two parts of a history. -/
theorem completedFrames_append (first second : List RxEvent) :
    completedFrames (first ++ second) = completedFrames first ++ completedFrames second :=
  List.filterMap_append

/-- The frames of two parts of a history. -/
theorem returnedFrames_append (first second : List RxEvent) :
    returnedFrames (first ++ second) = returnedFrames first ++ returnedFrames second :=
  List.filterMap_append

section Answers

variable {history events : List RxEvent}

/-- A history goes on without the end of a call that has found nothing. -/
theorem Answered.append (answered : Answered history) (none_ : .returned none ∉ events) :
    Answered (history ++ events) := by
  intro before since later shape unpolled
  have parts : history ++ events =
      (before ++ .polled :: since) ++ (.returned none :: later) := by
    rw [shape, List.append_assoc, List.cons_append]
  rcases List.append_eq_append_iff.mp parts with ⟨middle, _, tail⟩ | ⟨middle, front, tail⟩
  · -- The call would end in what is new.
    exact absurd (tail ▸ List.mem_append_right _ (List.mem_cons_self ..)) none_
  · cases middle with
    | nil =>
      rw [List.nil_append] at tail
      exact absurd (tail ▸ List.mem_cons_self ..) none_
    | cons event middle =>
      obtain ⟨rfl, -⟩ := List.cons.inj tail
      refine answered before since middle ?_ unpolled
      rw [front, List.append_assoc, List.cons_append]

/-- The last poll of a history. -/
theorem before_last {before since first rest : List RxEvent}
    (same : before ++ .polled :: since = first ++ .polled :: rest) (unpolled : .polled ∉ since)
    (quiet : .polled ∉ rest) : before = first := by
  rcases List.append_eq_append_iff.mp same with ⟨middle, front, tail⟩ | ⟨middle, front, tail⟩
  · cases middle with
    | nil => rw [front, List.append_nil]
    | cons event middle =>
      -- The other poll would be a later one.
      have inside := (List.cons.inj tail).2
      exact absurd (inside ▸ List.mem_append_right _ (List.mem_cons_self ..)) unpolled
  · cases middle with
    | nil => rw [front, List.append_nil]
    | cons event middle =>
      have inside := (List.cons.inj tail).2
      exact absurd (inside ▸ List.mem_append_right _ (List.mem_cons_self ..)) quiet

/-- A call ends that has found nothing in its last poll. -/
theorem Answered.fail {before since : List RxEvent} (answered : Answered history)
    (shape : history = before ++ .polled :: since) (unpolled : .polled ∉ since)
    (same : completedFrames before = returnedFrames before) :
    Answered (history ++ [.returned none]) := by
  intro first rest later whole quiet
  have parts : history ++ [.returned none] =
      (first ++ .polled :: rest) ++ (.returned none :: later) := by
    rw [whole, List.append_assoc, List.cons_append]
  -- The call is the one that ends now, or an earlier one.
  have now : history = first ++ .polled :: rest →
      completedFrames first = returnedFrames first := by
    intro here
    rw [← before_last (shape.symm.trans here) unpolled quiet]
    exact same
  rcases List.append_eq_append_iff.mp parts with ⟨middle, front, tail⟩ | ⟨middle, front, tail⟩
  · cases middle with
    | nil => exact now (by rw [front, List.append_nil])
    | cons event middle =>
      have empty := (List.cons.inj tail).2
      simp at empty
  · cases middle with
    | nil => exact now (by rw [front, List.append_nil])
    | cons event middle =>
      obtain ⟨rfl, -⟩ := List.cons.inj tail
      refine answered first rest middle ?_ quiet
      rw [front, List.append_assoc, List.cons_append]

end Answers

namespace RxNic

/-- The ring hands out the frames that arrive, one after the other. -/
structure Fifo (nic : RxNic) (history : List RxEvent) : Prop where
  ordered : returnedFrames history <+: completedFrames history
  answered : Answered history
  -- Between calls, the tail is the first buffer that is filled, and the buffers from it on hold the
  -- frames that have not been returned.
  rest : nic.driver = .idle → ∃ count ≤ rxRingSize, nic.place = ahead nic.rxTail count ∧
    (∀ j < rxRingSize, (nic.rxRing (ahead nic.rxTail j)).filled = true ↔ j < count) ∧
    completedFrames history = returnedFrames history ++ framesOf none (nic.window nic.rxTail count)
  unstuck : nic.driver ≠ .idle → ∃ after events, nic.drive = .ok (after, events)

/-- What the driver has seen of the buffers in front of the next one. -/
structure Passed (nic : RxNic) (k : Nat) : Prop where
  wrapped : nic.wrapped = true ↔ rxRingSize ≤ nic.rxTail.val + k
  unfinished : ∀ j < k, ¬ rxEof (nic.piece (ahead nic.rxTail j)).status
  inner : ∀ j, 0 < j → j < k → ¬ rxSof (nic.piece (ahead nic.rxTail j)).status

/-- The loops are at a buffer from which `given` ones are still to be given back. -/
structure Giving (head : RxSlot) (given : Nat) (second : Bool) (i : Nat) (newTail : RxSlot) :
    Prop where
  index : head.val = i
  few : given < rxRingSize
  tail : newTail = ahead head given
  behind : second = true → i ≤ newTail.val

/-- The tail is where the filled buffers begin, and no frame is on its way to the caller. -/
structure Waits (tail head : RxSlot) (given : Nat) (taken : List (List UInt8)) : Prop where
  head : head = tail
  given : given = 0
  taken : taken = []

/-- What the place of the driver says about the buffers, and the frame on its way to the caller. -/
def Follows (nic : RxNic) (head : RxSlot) (given kept : Nat) (taken : List (List UInt8)) :
    RxDriver → Prop
  | .idle | .failing _ => Waits nic.rxTail head given taken
  | .looking _ next => Waits nic.rxTail head given taken ∧
    ∃ k ≤ kept, next = ahead head k ∧ nic.Passed k
  | .reading _ next => Waits nic.rxTail head given taken ∧
    ∃ k < kept, next = ahead head k ∧ nic.Passed k
  | .discarding _ next status second i => taken = [] ∧ Giving head given second i next ∧
    0 < kept ∧ status = (nic.piece next).status ∧ rxSof status
  | .deciding _ next status => Waits nic.rxTail head given taken ∧
    ∃ k < kept, next = ahead head k ∧ nic.Passed k ∧ status = (nic.piece next).status ∧
      (0 < k → ¬ rxSof status)
  | .freeing length second i => taken = [(List.range length).map nic.packet] ∧
    Giving head given second i nic.nextRxTail

/-- The frames that have arrived were returned, are on their way or lie in the ring. -/
def Queued (nic : RxNic) (history : List RxEvent) : Prop :=
  ∃ head given kept taken frames, Stored nic head given kept frames ∧
    nic.Follows head given kept taken nic.driver ∧
    completedFrames history = returnedFrames history ++ (taken ++ frames)

section Walk

variable {nic after : RxNic} {head : RxSlot} {given kept k : Nat} {frames : List (List UInt8)}

/-- Bytes that are copied to the start of a buffer can be read from it. -/
theorem read_store (memory : Nat → UInt8) (bytes : List UInt8) :
    (List.range bytes.length).map (Copied.store memory ⟨0, bytes⟩) = bytes := by
  apply List.ext_getElem
  · simp
  · intro j _ inside
    simp [Copied.store, inside]

/-- Bytes that are copied behind others can be read with them. -/
theorem read_stores (memory : Nat → UInt8) (first second : List UInt8) :
    (List.range (first.length + second.length)).map
      (Copied.store (Copied.store memory ⟨0, first⟩) ⟨first.length, second⟩) =
        first ++ second := by
  apply List.ext_getElem
  · simp
  · intro j _ inside
    rw [List.length_append] at inside
    rcases Nat.lt_or_ge j first.length with before | behind
    · simp [Copied.store, before, Nat.not_le.mpr before]
    · have other : j - first.length < second.length := by omega
      simp [Copied.store, behind, other, List.getElem_append_right behind]

/-- The first buffers that are kept come to be given back. -/
theorem Stored.keep {m v : Nat} (stored : Stored nic head 0 (m + v) frames)
    (fresh : begunOf none (nic.window head m) = none ∨
      ∃ piece rest, nic.window (ahead head m) v = piece :: rest ∧ rxSof piece.status) :
    ∃ others, Stored nic head m v others ∧
      frames = framesOf none (nic.window head m) ++ others := by
  obtain ⟨room, place, filled, wraps, proper, whole, begun⟩ := stored
  rw [ahead_zero, window_add] at proper whole begun
  rw [proper_append] at proper
  rw [framesOf_append] at whole
  simp only [begunOf_append] at begun
  rw [Nat.zero_add] at room place
  simp only [Nat.zero_add] at filled
  -- What has begun before the kept buffers does not matter for them.
  have apart : framesOf (begunOf none (nic.window head m)) (nic.window (ahead head m) v) =
        framesOf none (nic.window (ahead head m) v) ∧
      begunOf (begunOf none (nic.window head m)) (nic.window (ahead head m) v) =
        begunOf none (nic.window (ahead head m) v) ∧
      Proper none (nic.window (ahead head m) v) := by
    rcases fresh with ended | ⟨piece, rest, shape, sof⟩
    · rw [ended] at proper ⊢
      exact ⟨rfl, rfl, proper.2⟩
    · rw [shape] at proper ⊢
      obtain ⟨sameFrames, sameBegun, sameProper⟩ := restart sof rest
      exact ⟨sameFrames, sameBegun, sameProper proper.2⟩
  obtain ⟨sameFrames, sameBegun, keptProper⟩ := apart
  refine ⟨_, ⟨room, place, filled, wraps, keptProper, rfl, ?_⟩, ?_⟩
  · rw [← sameBegun]
    exact begun
  · rw [← whole, sameFrames]

/-- The buffers that the driver has passed are the beginning of one frame. -/
theorem Passed.open (passed : nic.Passed k) (stored : Stored nic nic.rxTail 0 kept frames)
    (inside : k ≤ kept) :
    Proper none (nic.window nic.rxTail k) ∧ framesOf none (nic.window nic.rxTail k) = [] ∧
      (begunOf none (nic.window nic.rxTail k)).getD [] =
        (nic.window nic.rxTail k).flatMap Piece.bytes ∧ k < 4 := by
  -- The pieces so far begin a frame that is still open, so that none of them ends one.
  obtain ⟨more, rfl⟩ := Nat.exists_eq_add_of_le inside
  have proper := stored.proper
  rw [ahead_zero, window_add, proper_append] at proper
  cases k with
  | zero => simp [window, Proper, framesOf, begunOf]
  | succ k =>
    have unfinished : ∀ piece ∈ nic.window nic.rxTail (k + 1), ¬ rxEof piece.status := by
      intro piece member
      obtain ⟨j, below, rfl⟩ := mem_window.mp member
      exact passed.unfinished j below
    have inner : ∀ piece ∈ nic.window (ahead nic.rxTail 1) k, ¬ rxSof piece.status := by
      intro piece member
      obtain ⟨j, below, rfl⟩ := mem_window.mp member
      rw [ahead_ahead]
      exact passed.inner (1 + j) (by omega) (by omega)
    rw [window_succ] at proper unfinished ⊢
    obtain ⟨none_, bytes⟩ := open_pieces proper.1 unfinished inner
    have few := open_few proper.1 unfinished inner
    rw [List.length_cons, length_window] at few
    exact ⟨proper.1, none_, by rw [bytes, Option.getD_some], few⟩

/-- The frame that ends with the next buffer is the first one. -/
theorem Passed.frame (passed : nic.Passed k) (stored : Stored nic nic.rxTail 0 kept frames)
    (inside : k < kept) (inner : 0 < k → ¬ rxSof (nic.piece (ahead nic.rxTail k)).status)
    (ends : rxEof (nic.piece (ahead nic.rxTail k)).status) :
    let length := rxLength (nic.piece (ahead nic.rxTail k)).status
    (rxBufferSize * k < length ∧ length ≤ rxBufferSize * (k + 1) ∧ length ≤ 512) ∧
      ∃ others, Stored nic nic.rxTail (k + 1) (kept - (k + 1)) others ∧
        frames = ((nic.window nic.rxTail (k + 1)).flatMap Piece.bytes).take length :: others := by
  intro length
  obtain ⟨more, rfl⟩ := Nat.exists_eq_add_of_le inside
  obtain ⟨-, none_, bytes, -⟩ := passed.open stored (Nat.le_of_succ_le inside)
  have split : nic.window nic.rxTail (k + 1) =
      nic.window nic.rxTail k ++ [nic.piece (ahead nic.rxTail k)] := by
    rw [window_add, window_succ]
    rfl
  have proper : Proper none (nic.window nic.rxTail (k + 1)) := by
    have all := stored.proper
    rw [ahead_zero, window_add, proper_append] at all
    exact all.1
  have last : (nic.piece (ahead nic.rxTail k)).Proper (begunOf none (nic.window nic.rxTail k)) := by
    rw [split, proper_append] at proper
    exact proper.2.1
  -- The bytes of the frame are those of all its buffers.
  have joined : (nic.piece (ahead nic.rxTail k)).joined (begunOf none (nic.window nic.rxTail k)) =
      (nic.window nic.rxTail (k + 1)).flatMap Piece.bytes := by
    rw [Piece.joined, bytes, split, List.flatMap_append, List.flatMap_singleton]
    split
    · rename_i sof
      have first : k = 0 := by
        by_contra later
        exact inner (Nat.pos_of_ne_zero later) sof
      rw [first]
      rfl
    · rfl
  have size := proper.bytes_length
  rw [length_window] at size
  have long := last.long ends
  have enough := last.length ends
  rw [joined, size] at long enough
  refine ⟨⟨by simp only [rxBufferSize] at long ⊢; omega, enough, last.short ends⟩, ?_⟩
  have ended : begunOf none (nic.window nic.rxTail (k + 1)) = none := by
    rw [split, begunOf_append, begunOf, begunOf, Piece.leaves, if_pos ends]
  obtain ⟨others, rest, whole⟩ := stored.keep (Or.inl ended)
  refine ⟨others, by rwa [Nat.add_sub_cancel_left], ?_⟩
  rw [whole, split, framesOf_append, none_, framesOf, if_pos ends, joined, ← split]
  rfl

/-- A difference that does not wrap around. -/
theorem unsignedSub_add {second rest : Nat} (small : rest < 2 ^ 32) :
    unsignedSub (second + rest) second = rest := by
  unfold unsignedSub
  generalize 2 ^ 32 = size at small ⊢
  have sum : second + rest + size - second = rest + size := by omega
  rw [sum, Nat.add_mod_right, Nat.mod_eq_of_lt small]

/-- What the driver copies is what the buffers hold. -/
theorem Passed.copies (passed : nic.Passed k) {length : Nat} (few : k < rxRingSize)
    (long : rxBufferSize * k < length) (enough : length ≤ rxBufferSize * (k + 1)) :
    (List.range length).map ((nic.frameCopies length).foldl Copied.store nic.packet) =
      ((nic.window nic.rxTail (k + 1)).flatMap Piece.bytes).take length := by
  have bound := nic.rxTail.isLt
  have take_bytes : ∀ src size less, less ≤ size →
      (nic.rxBytes src size).take less = nic.rxBytes src less := by
    intro src size less below
    simp only [rxBytes, ← List.map_take, List.take_range, Nat.min_eq_left below]
  have length_bytes : ∀ src size, (nic.rxBytes src size).length = size := by
    simp [rxBytes]
  unfold frameCopies
  split
  · rename_i wraps
    have around := passed.wrapped.mp wraps
    -- The window goes on with the first buffers of the ring.
    obtain ⟨front, size⟩ : ∃ front, front = rxRingSize - nic.rxTail.val := ⟨_, rfl⟩
    obtain ⟨back, parts⟩ : ∃ back, k + 1 = front + back := ⟨k + 1 - front, by omega⟩
    have start : (ahead nic.rxTail front).val = 0 := by
      have whole : nic.rxTail.val + front = rxRingSize := by omega
      simp only [ahead, whole, Nat.mod_self]
    have bytes : (nic.window nic.rxTail (k + 1)).flatMap Piece.bytes =
        nic.rxBytes (rxBufferSize * nic.rxTail.val) (rxBufferSize * front) ++
          nic.rxBytes 0 (rxBufferSize * back) := by
      rw [parts, window_add, List.flatMap_append, window_bytes (by omega),
        window_bytes (by rw [start]; omega), start, Nat.mul_zero]
    have behind : rxBufferSize * front ≤ length := by
      have below : rxBufferSize * front ≤ rxBufferSize * k := Nat.mul_le_mul_left _ (by omega)
      omega
    obtain ⟨rest, rfl⟩ := Nat.exists_eq_add_of_le behind
    rw [parts, Nat.mul_add] at enough
    have sub : unsignedSub (rxBufferSize * front + rest) (rxBufferSize * front) = rest := by
      apply unsignedSub_add
      simp only [rxBufferSize, rxRingSize] at enough parts few
      omega
    have whole := read_stores nic.packet
      (nic.rxBytes (rxBufferSize * nic.rxTail.val) (rxBufferSize * front)) (nic.rxBytes 0 rest)
    rw [length_bytes, length_bytes] at whole
    simp only [← size, sub, List.foldl_cons, List.foldl_nil]
    rw [whole, bytes, List.take_append, length_bytes, List.take_of_length_le, Nat.add_sub_cancel_left,
      take_bytes _ _ _ (by omega)]
    rw [length_bytes]
    exact Nat.le_add_right ..
  · rename_i straight
    have inside : nic.rxTail.val + (k + 1) ≤ rxRingSize := by
      have := mt passed.wrapped.mpr straight
      omega
    rw [window_bytes inside, take_bytes _ _ _ enough, List.foldl_cons, List.foldl_nil]
    have whole := read_store nic.packet (nic.rxBytes (rxBufferSize * nic.rxTail.val) length)
    rwa [length_bytes] at whole

/-- Nothing has been passed at the start of a poll. -/
theorem Passed.start (straight : nic.wrapped = false) : nic.Passed 0 := by
  refine ⟨?_, ?_, ?_⟩
  · have bound := nic.rxTail.isLt
    rw [straight]
    refine iff_of_false (by decide) ?_
    omega
  · intro j below
    omega
  · intro j _ below
    omega

/-- The driver goes on behind a buffer that does not end a frame. -/
theorem Passed.next (passed : nic.Passed k) (few : k < rxRingSize)
    (more : ¬ rxEof (nic.piece (ahead nic.rxTail k)).status)
    (inner : 0 < k → ¬ rxSof (nic.piece (ahead nic.rxTail k)).status)
    (same : ∀ i, after.piece i = nic.piece i) (tail : after.rxTail = nic.rxTail)
    (wrapped : after.wrapped =
      (nic.wrapped || (ahead nic.rxTail k).val + 1 ≥ rxRingSize)) : after.Passed (k + 1) := by
  -- The descriptor at hand joins those that have been passed.
  refine ⟨?_, ?_, ?_⟩
  · have bound := nic.rxTail.isLt
    have place : (ahead nic.rxTail k).val = (nic.rxTail.val + k) % rxRingSize := rfl
    rw [wrapped, Bool.or_eq_true, passed.wrapped, decide_eq_true_eq, tail, place]
    simp only [rxRingSize] at bound few ⊢
    omega
  · intro j below
    rw [tail, same]
    rcases Nat.lt_succ_iff_lt_or_eq.mp below with earlier | rfl
    · exact passed.unfinished j earlier
    · exact more
  · intro j later below
    rw [tail, same]
    rcases Nat.lt_succ_iff_lt_or_eq.mp below with earlier | rfl
    · exact passed.inner j later earlier
    · exact inner later

variable {taken : List (List UInt8)} {driver : RxDriver} {history : List RxEvent}

/-- The place of the driver says the same when more buffers are filled. -/
theorem Follows.mono {more : Nat} (follows : nic.Follows head given kept taken driver)
    (grown : kept ≤ more)
    (same : ∀ j < given + kept, after.piece (ahead head j) = nic.piece (ahead head j))
    (tail : after.rxTail = nic.rxTail) (next : after.nextRxTail = nic.nextRxTail)
    (wrapped : after.wrapped = nic.wrapped) (packet : after.packet = nic.packet) :
    after.Follows head given more taken driver := by
  -- Buffers behind the ones in question do not matter to the place of the driver.
  have pass : Waits nic.rxTail head given taken → ∀ k ≤ kept, nic.Passed k → after.Passed k := by
    rintro ⟨rfl, rfl, -⟩ k inside ⟨around, unfinished, inner⟩
    rw [Nat.zero_add] at same
    refine ⟨?_, ?_, ?_⟩
    · rw [wrapped, tail]
      exact around
    · intro j below
      rw [tail, same j (by omega)]
      exact unfinished j below
    · intro j later below
      rw [tail, same j (by omega)]
      exact inner j later below
  cases driver with
  | idle =>
    simp only [Follows, tail] at follows ⊢
    exact follows
  | failing tries =>
    simp only [Follows, tail] at follows ⊢
    exact follows
  | looking tries place =>
    simp only [Follows, tail] at follows ⊢
    obtain ⟨waits, k, inside, here, passed⟩ := follows
    exact ⟨waits, k, by omega, here, pass waits k inside passed⟩
  | reading tries place =>
    simp only [Follows, tail] at follows ⊢
    obtain ⟨waits, k, inside, here, passed⟩ := follows
    exact ⟨waits, k, by omega, here, pass waits k (by omega) passed⟩
  | discarding tries place status second i =>
    obtain ⟨none_, giving, some_, rfl, sof⟩ := follows
    refine ⟨none_, giving, by omega, ?_, sof⟩
    rw [giving.tail, same given (by omega)]
  | deciding tries place status =>
    simp only [Follows, tail] at follows ⊢
    obtain ⟨waits, k, inside, rfl, passed, rfl, inner⟩ := follows
    refine ⟨waits, k, by omega, rfl, pass waits k (by omega) passed, ?_, inner⟩
    rw [same k (by omega)]
  | freeing length second i =>
    simp only [Follows, packet, next] at follows ⊢
    exact follows

/-- A round of the loops gives the first buffer back, or none. -/
theorem Giving.round {second : Bool} {i : Nat} {newTail : RxSlot}
    (giving : Giving head given second i newTail) (stored : Stored nic head given kept frames) :
    match nic.reclaimRound newTail second i with
    | some (after, second, i) =>
      (∃ head given, Giving head given second i newTail ∧ Stored after head given kept frames) ∧
        after.piece newTail = nic.piece newTail ∧ after.packet = nic.packet ∧
        after.nextRxTail = nic.nextRxTail
    | none => Stored nic newTail 0 kept frames := by
  obtain ⟨rfl, few, tail, behind⟩ := giving
  -- A buffer in front of the new tail is given back.
  have give : ∀ again next, head ≠ newTail → (ahead head 1).val = next →
      (again = true → next ≤ newTail.val) → ∃ place left, Giving place left again next newTail ∧
        Stored (nic.reclaimRxBuffer head) place left kept frames := by
    intro again next apart index behind
    cases given with
    | zero => exact absurd (tail.trans (ahead_zero head)).symm apart
    | succ left =>
      refine ⟨ahead head 1, left, ⟨index, by omega, ?_, behind⟩, stored.reclaim⟩
      rw [tail, ahead_ahead, Nat.add_comm]
  have succ : head.next = ahead head 1 := by
    rw [← next_ahead, ahead_zero]
  unfold reclaimRound
  rw [dif_pos head.isLt]
  cases second with
  | true =>
    rw [if_pos rfl]
    by_cases before : head.val < newTail.val
    · rw [if_pos before]
      have index : (ahead head 1).val = head.val + 1 := by
        have bound := newTail.isLt
        rw [← succ]
        exact if_neg (by omega)
      exact ⟨give true _ (by rintro rfl; omega) index (fun _ => before),
        piece_reclaim .., rfl, rfl⟩
    · -- Both loops have ended at the new tail.
      rw [if_neg before]
      have here : head = newTail := Fin.ext (Nat.le_antisymm (behind rfl) (Nat.not_lt.mp before))
      have none_ : given = 0 := by
        rw [here, ← ahead_zero newTail, ahead_ahead, Nat.zero_add] at tail
        exact ((ahead_inj (by decide) few).mp tail).symm
      rw [← here, ← none_]
      exact stored
  | false =>
    rw [if_neg (by decide)]
    by_cases beyond : head.val > newTail.val
    · rw [if_pos beyond]
      have index : (ahead head 1).val = if head.val + 1 ≥ rxRingSize then 0 else head.val + 1 := by
        rw [← succ]
        rfl
      exact ⟨give false _ (by rintro rfl; omega) index (fun second => by cases second),
        piece_reclaim .., rfl, rfl⟩
    · rw [if_neg beyond]
      exact ⟨⟨head, given, ⟨rfl, few, tail, fun _ => Nat.not_lt.mp beyond⟩, stored⟩, rfl, rfl, rfl⟩

/-- The driver goes on at a buffer that is filled, and fails once no frame is whole. -/
theorem Follows.look {tries : Nat} {next : RxSlot}
    (follows : nic.Follows head given kept taken (.looking tries next))
    (stored : Stored nic head given kept frames) :
    ((nic.rxRing next).filled = true → nic.Follows head given kept taken (.reading tries next)) ∧
      (¬ (nic.rxRing next).filled = true →
        nic.Follows head given kept taken (.failing tries) ∧ taken = [] ∧ frames = []) := by
  -- Exactly the first buffers are filled, so that an empty one is behind them all.
  obtain ⟨⟨rfl, rfl, rfl⟩, k, inside, rfl, passed⟩ := follows
  obtain ⟨-, none_, -, few⟩ := passed.open stored inside
  have filled := stored.filled k (by simp only [rxRingSize]; omega)
  rw [Nat.zero_add] at filled
  constructor
  · intro here
    exact ⟨⟨rfl, rfl, rfl⟩, k, filled.mp here, rfl, passed⟩
  · intro empty
    have last : k = kept := by
      have := mt filled.mpr empty
      omega
    have whole := stored.frames
    rw [ahead_zero, ← last, none_] at whole
    exact ⟨⟨rfl, rfl, rfl⟩, rfl, whole.symm⟩

/-- A frame that begins behind the tail makes the driver give the buffers in front of it back. -/
theorem Follows.discard {tries : Nat} {next : RxSlot}
    (follows : nic.Follows head given kept taken (.reading tries next))
    (stored : Stored nic head given kept frames) (sof : rxSof (nic.rxRing next).ctrl)
    (later : next ≠ nic.rxTail) :
    taken = [] ∧ ∃ given kept, Stored nic nic.rxTail given kept frames ∧
      nic.Follows nic.rxTail given kept []
        (.discarding tries next (nic.rxRing next).ctrl false nic.rxTail.val) := by
  -- The frame that was open never ends, so that the buffers in front of this one hold none.
  obtain ⟨⟨rfl, rfl, rfl⟩, k, inside, rfl, passed⟩ := follows
  obtain ⟨-, none_, -, few⟩ := passed.open stored (Nat.le_of_lt inside)
  obtain ⟨left, rfl⟩ := Nat.exists_eq_add_of_lt inside
  have shape := window_succ nic (ahead nic.rxTail k) left
  obtain ⟨others, rest, whole⟩ :=
    Stored.keep (v := left + 1) stored (Or.inr ⟨_, _, shape, sof⟩)
  rw [none_, List.nil_append] at whole
  rw [← whole] at rest
  refine ⟨rfl, k, left + 1, rest, rfl, ⟨rfl, ?_, rfl, ?_⟩, Nat.succ_pos _, rfl, sof⟩
  · simp only [rxRingSize]
    omega
  · intro second
    cases second

/-- A frame goes on, or begins at the tail. -/
theorem Follows.read {tries : Nat} {next : RxSlot}
    (follows : nic.Follows head given kept taken (.reading tries next))
    (stored : Stored nic head given kept frames)
    (goes : rxSof (nic.rxRing next).ctrl = true → next = nic.rxTail) :
    nic.Follows head given kept taken (.deciding tries next (nic.rxRing next).ctrl) ∧
      (rxSof (nic.rxRing next).ctrl = true → nic.wrapped = false) := by
  -- Only at the tail may a frame begin, and nothing has wrapped around there.
  obtain ⟨⟨rfl, rfl, rfl⟩, k, inside, rfl, passed⟩ := follows
  obtain ⟨-, -, -, few⟩ := passed.open stored (Nat.le_of_lt inside)
  have first : rxSof (nic.rxRing (ahead nic.rxTail k)).ctrl = true → k = 0 := by
    intro sof
    have same := (goes sof).trans (ahead_zero nic.rxTail).symm
    exact (ahead_inj (by simp only [rxRingSize]; omega) (by decide)).mp same
  refine ⟨⟨⟨rfl, rfl, rfl⟩, k, inside, rfl, passed, rfl, ?_⟩, ?_⟩
  · intro later sof
    exact Nat.ne_of_gt later (first sof)
  · intro sof
    have bound := nic.rxTail.isLt
    have around := passed.wrapped
    rw [first sof] at around
    by_contra wraps
    have := around.mp (Bool.eq_true_of_not_eq_false wraps)
    omega

/-- The driver looks at the next buffer if no frame has ended. -/
theorem Follows.goOn {tries : Nat} {next : RxSlot} {status : BitVec 32}
    (follows : nic.Follows head given kept taken (.deciding tries next status))
    (stored : Stored nic head given kept frames) (more : ¬ rxEof status)
    (same : ∀ i, after.piece i = nic.piece i) (tail : after.rxTail = nic.rxTail)
    (wrapped : after.wrapped = (nic.wrapped || next.val + 1 ≥ rxRingSize)) :
    after.Follows head given kept taken (.looking tries next.next) := by
  obtain ⟨⟨rfl, rfl, rfl⟩, k, inside, rfl, passed, rfl, inner⟩ := follows
  obtain ⟨-, -, -, few⟩ := passed.open stored (Nat.le_of_lt inside)
  have bound : k < rxRingSize := by
    simp only [rxRingSize]
    omega
  exact ⟨⟨tail.symm, rfl, rfl⟩, k + 1, inside, next_ahead ..,
    passed.next bound more inner same tail wrapped⟩

/-- The driver takes the first frame from the ring. -/
theorem Follows.take {tries : Nat} {next : RxSlot} {status : BitVec 32}
    (follows : nic.Follows head given kept taken (.deciding tries next status))
    (stored : Stored nic head given kept frames) (ends : rxEof status) :
    (0 < rxLength status ∧ rxLength status ≤ 512) ∧
      ∃ given kept others, Stored nic nic.rxTail given kept others ∧
        Giving nic.rxTail given false nic.rxTail.val next.next ∧
        taken ++ frames = (List.range (rxLength status)).map
          ((nic.frameCopies (rxLength status)).foldl Copied.store nic.packet) :: others := by
  -- The pieces from the tail up to this one are the first frame that is stored.
  obtain ⟨⟨rfl, rfl, rfl⟩, k, inside, rfl, passed, rfl, inner⟩ := follows
  obtain ⟨-, -, -, few⟩ := passed.open stored (Nat.le_of_lt inside)
  obtain ⟨⟨long, enough, short⟩, others, rest, whole⟩ := passed.frame stored inside inner ends
  have bound : k < rxRingSize := by
    simp only [rxRingSize]
    omega
  refine ⟨⟨by omega, short⟩, k + 1, kept - (k + 1), others, rest, ⟨rfl, ?_, next_ahead .., ?_⟩, ?_⟩
  · simp only [rxRingSize]
    omega
  · intro second
    cases second
  · rw [passed.copies bound long enough, List.nil_append, whole]

/-- The driver starts to look for a frame. -/
theorem Follows.poll (waits : Waits nic.rxTail head given taken) (tries : Nat) :
    (nic.poll tries).Follows head given kept taken (nic.poll tries).driver :=
  ⟨waits, 0, Nat.zero_le _, by rw [waits.head, ahead_zero], .start rfl⟩

/-- Frames stay in order when none of them arrives or is returned. -/
theorem queued_of_shown {events : List RxEvent} {all : List (List UInt8)}
    (whole : completedFrames history = returnedFrames history ++ all)
    (stored : Stored after head given kept frames)
    (follows : after.Follows head given kept taken after.driver) (same : taken ++ frames = all)
    (arrived : completedFrames events = []) (left : returnedFrames events = []) :
    Queued after (history ++ events) := by
  refine ⟨head, given, kept, taken, frames, stored, follows, ?_⟩
  rw [completedFrames_append, returnedFrames_append, arrived, left, whole, same, List.append_nil,
    List.append_nil]

/-- What the driver does keeps the frames in order. -/
theorem Queued.drive {events : List RxEvent} (queued : Queued nic history)
    (stepped : nic.drive = .ok (after, events)) :
    Queued after (history ++ events) ∧
      ∀ tries, after.driver = .failing tries →
        completedFrames history = returnedFrames history := by
  obtain ⟨head, given, kept, taken, frames, stored, follows, whole⟩ := queued
  -- A step that shows nothing and leaves the buffers alone.
  have quiet : ∀ driver, nic.Follows head given kept taken driver →
      Queued { nic with driver := driver } (history ++ []) := fun driver follows =>
    queued_of_shown whole (stored.congr rfl rfl rfl rfl)
      (follows.mono le_rfl (fun _ _ => rfl) rfl rfl rfl rfl) rfl rfl rfl
  simp only [RxNic.drive] at stepped
  cases place : nic.driver with
  | idle =>
    rw [place] at stepped
    cases stepped
  | looking tries next =>
    rw [place] at stepped follows
    obtain ⟨goes, fails⟩ := follows.look stored
    dsimp only at stepped
    split at stepped
    · rename_i here
      cases stepped
      exact ⟨quiet _ (goes here), fun tries failing => by cases failing⟩
    · rename_i empty
      cases stepped
      obtain ⟨follows, rfl, rfl⟩ := fails empty
      refine ⟨quiet _ follows, fun _ _ => ?_⟩
      rw [whole, List.append_nil, List.append_nil]
  | failing tries =>
    rw [place] at stepped follows
    simp only [retry] at stepped
    split at stepped
    · cases stepped
      exact ⟨queued_of_shown whole (stored.congr rfl rfl rfl rfl) (.poll follows _) rfl rfl rfl,
        fun tries failing => by cases failing⟩
    · cases stepped
      have idle : ({ nic with driver := .idle } : RxNic).Follows head given kept taken .idle :=
        follows
      exact ⟨queued_of_shown whole (stored.congr rfl rfl rfl rfl) idle rfl rfl rfl,
        fun tries failing => by cases failing⟩
  | reading tries next =>
    rw [place] at stepped follows
    dsimp only at stepped
    split at stepped
    · rename_i sof
      split at stepped
      · rename_i later
        cases stepped
        obtain ⟨rfl, given, kept, rest, follows⟩ := follows.discard stored sof later
        exact ⟨queued_of_shown whole (rest.congr rfl rfl rfl rfl)
          (follows.mono le_rfl (fun _ _ => rfl) rfl rfl rfl rfl) rfl rfl rfl,
          fun tries failing => by cases failing⟩
      · rename_i first
        cases stepped
        obtain ⟨follows, straight⟩ := follows.read stored fun _ => not_not.mp first
        exact ⟨queued_of_shown whole (stored.congr rfl rfl rfl rfl)
          (follows.mono le_rfl (fun _ _ => rfl) rfl rfl (straight sof).symm rfl) rfl rfl rfl,
          fun tries failing => by cases failing⟩
    · rename_i inner
      cases stepped
      exact ⟨quiet _ (follows.read stored fun sof => absurd sof inner).1,
        fun tries failing => by cases failing⟩
  | discarding tries next status second i =>
    rw [place] at stepped follows
    obtain ⟨rfl, giving, some_, rfl, sof⟩ := follows
    have round := giving.round stored
    dsimp only at stepped
    split at stepped
    · rename_i middle again index given_
      rw [given_] at round
      obtain ⟨⟨head, given, giving, rest⟩, same, -, -⟩ := round
      cases stepped
      exact ⟨queued_of_shown whole (rest.congr rfl rfl rfl rfl)
        ⟨rfl, giving, some_, congrArg Piece.status same.symm, sof⟩ rfl rfl rfl,
        fun tries failing => by cases failing⟩
    · rename_i ended
      rw [ended] at round
      cases stepped
      refine ⟨queued_of_shown whole (round.congr rfl rfl rfl rfl)
        ⟨⟨rfl, rfl, rfl⟩, 0, some_, (ahead_zero next).symm, .start rfl, rfl, ?_⟩ rfl rfl rfl,
        fun tries failing => by cases failing⟩
      exact fun later => absurd later (Nat.lt_irrefl 0)
  | deciding tries next status =>
    rw [place] at stepped follows
    dsimp only at stepped
    split at stepped
    · rename_i ends
      obtain ⟨⟨some_, short⟩, given, kept, others, rest, giving, first⟩ := follows.take stored ends
      rw [if_pos short] at stepped
      simp only [RxNic.finish, if_pos some_] at stepped
      cases stepped
      exact ⟨queued_of_shown whole (rest.congr rfl rfl rfl rfl) ⟨rfl, giving⟩ first.symm rfl rfl,
        fun tries failing => by cases failing⟩
    · rename_i more
      cases stepped
      exact ⟨queued_of_shown whole (stored.congr rfl rfl rfl rfl)
        (follows.goOn stored more (fun _ => rfl) rfl rfl) rfl rfl rfl,
        fun tries failing => by cases failing⟩
  | freeing length second i =>
    rw [place] at stepped follows
    obtain ⟨rfl, giving⟩ := follows
    have round := giving.round stored
    dsimp only at stepped
    split at stepped
    · rename_i middle again index given_
      rw [given_] at round
      obtain ⟨⟨head, given, giving, rest⟩, -, packet, next⟩ := round
      cases stepped
      have frees : ({ middle with driver := .freeing length again index } : RxNic).Follows head
          given kept [(List.range length).map nic.packet] (.freeing length again index) :=
        ⟨by rw [← packet], by rw [← next] at giving; exact giving⟩
      exact ⟨queued_of_shown whole (rest.congr rfl rfl rfl rfl) frees rfl rfl rfl,
        fun tries failing => by cases failing⟩
    · rename_i ended
      rw [ended] at round
      cases stepped
      refine ⟨⟨_, 0, kept, [], frames, round.congr rfl rfl rfl rfl, ⟨rfl, rfl, rfl⟩, ?_⟩,
        fun tries failing => by cases failing⟩
      rw [completedFrames_append, returnedFrames_append, whole]
      simp [completedFrames, returnedFrames]

/-- The driver can always go on in a call. -/
theorem Queued.unstuck (queued : Queued nic history) (busy : nic.driver ≠ .idle) :
    ∃ after events, nic.drive = .ok (after, events) := by
  obtain ⟨head, given, kept, taken, frames, stored, follows, -⟩ := queued
  simp only [RxNic.drive]
  cases place : nic.driver with
  | idle => exact absurd place busy
  | looking tries next =>
    dsimp only
    split <;> exact ⟨_, _, rfl⟩
  | failing tries => exact ⟨_, _, rfl⟩
  | reading tries next =>
    dsimp only
    split
    · split <;> exact ⟨_, _, rfl⟩
    · exact ⟨_, _, rfl⟩
  | discarding tries next status second i =>
    dsimp only
    split <;> exact ⟨_, _, rfl⟩
  | deciding tries next status =>
    rw [place] at follows
    dsimp only
    split
    · rename_i ends
      -- No frame of the device is too long for the assertion.
      rw [if_pos (follows.take stored ends).1.2]
      exact ⟨_, _, rfl⟩
    · exact ⟨_, _, rfl⟩
  | freeing length second i =>
    dsimp only
    split <;> exact ⟨_, _, rfl⟩

/-- What the driver, its callers and the device do keeps the frames in order. -/
theorem Queued.step {label : RxLabel} {events : List RxEvent} (queued : Queued nic history)
    (permitted : nic.Permitted label) (stepped : nic.step label = .ok (after, events)) :
    Queued after (history ++ events) := by
  -- The device fills at the end of the queue, and the driver takes from its front.
  cases label with
  | drive => exact (queued.drive stepped).1
  | call =>
    obtain ⟨head, given, kept, taken, frames, stored, follows, whole⟩ := queued
    simp only [RxNic.step] at stepped
    split at stepped
    · rename_i idle
      rw [idle] at follows
      cases stepped
      exact queued_of_shown whole (stored.congr rfl rfl rfl rfl) (.poll follows _) rfl rfl rfl
    · cases stepped
  | fill status bytes =>
    obtain ⟨head, given, kept, taken, frames, stored, follows, whole⟩ := queued
    obtain ⟨fills, rfl⟩ := fills_of_step stepped
    obtain ⟨rest, same⟩ := stored.fill permitted fills
    refine ⟨head, given, kept + 1, taken, _, rest, ?_, ?_⟩
    · rw [fills.driver]
      exact follows.mono (Nat.le_succ _) same fills.tail fills.next fills.wrapped fills.packet
    · rw [completedFrames_append, returnedFrames_append, whole]
      by_cases last : rxEof status
      · simp [last, completedFrames, returnedFrames]
      · simp [last, completedFrames, returnedFrames]
  | abandon =>
    obtain ⟨head, given, kept, taken, frames, stored, follows, whole⟩ := queued
    cases stepped
    exact queued_of_shown whole stored.abandon
      (follows.mono le_rfl (fun _ _ => rfl) rfl rfl rfl rfl) rfl rfl rfl

/-- The frames that have been returned are the first of those that have arrived. -/
theorem Queued.ordered (queued : Queued nic history) :
    returnedFrames history <+: completedFrames history := by
  obtain ⟨-, -, -, taken, frames, -, -, whole⟩ := queued
  exact ⟨taken ++ frames, whole.symm⟩

end Walk

section Calls

variable {nic after : RxNic} {history events : List RxEvent}

/-- What the current call knows about the start of its last poll. -/
def Polling (nic : RxNic) (history : List RxEvent) : Prop :=
  nic.driver ≠ .idle → ∃ before since, history = before ++ .polled :: since ∧ .polled ∉ since ∧
    returnedFrames since = [] ∧ returnedFrames before <+: completedFrames before ∧
    ∀ tries, nic.driver = .failing tries → completedFrames before = returnedFrames before

/-- What a step shows: nothing about calls, the start of a poll or the end of a call. -/
inductive Shows (nic after : RxNic) : List RxEvent → Prop where
  | other {events : List RxEvent} (polled : .polled ∉ events)
      (returned : ∀ frame, .returned frame ∉ events)
      (idle : nic.driver = .idle → after.driver = .idle) : Shows nic after events
  | polled (looks : ∀ tries, after.driver ≠ .failing tries) : Shows nic after [.polled]
  | returned (frame : Option (List UInt8)) (idle : after.driver = .idle)
      (failed : frame = none → ∃ tries, nic.driver = .failing tries) :
      Shows nic after [.returned frame]

/-- Every step of the driver shows one of these. -/
theorem shows_of_drive (stepped : nic.drive = .ok (after, events)) : Shows nic after events := by
  -- A step that shows nothing is one in a call.
  have silent : nic.driver ≠ .idle → ∀ after, Shows nic after [] := fun busy _ =>
    .other (by simp) (by simp) fun idle => absurd idle busy
  simp only [RxNic.drive] at stepped
  cases place : nic.driver with
  | idle =>
    rw [place] at stepped
    cases stepped
  | looking tries next =>
    rw [place] at stepped silent
    dsimp only at stepped
    split at stepped
    · cases stepped
      exact silent (by simp) _
    · cases stepped
      exact silent (by simp) _
  | failing tries =>
    rw [place] at stepped
    simp only [retry] at stepped
    split at stepped
    · cases stepped
      exact .polled fun tries failing => by cases failing
    · cases stepped
      exact .returned none rfl fun _ => ⟨tries, place⟩
  | reading tries next =>
    rw [place] at stepped silent
    dsimp only at stepped
    split at stepped
    · split at stepped
      · cases stepped
        exact silent (by simp) _
      · cases stepped
        exact silent (by simp) _
    · cases stepped
      exact silent (by simp) _
  | discarding tries next status second i =>
    rw [place] at stepped silent
    dsimp only at stepped
    split at stepped
    · cases stepped
      exact silent (by simp) _
    · cases stepped
      exact silent (by simp) _
  | deciding tries next status =>
    rw [place] at stepped silent
    dsimp only at stepped
    split at stepped
    · split at stepped
      · cases stepped
        exact .other (by simp) (by simp) fun idle => by rw [place] at idle; cases idle
      · cases stepped
    · cases stepped
      exact silent (by simp) _
  | freeing length second i =>
    rw [place] at stepped silent
    dsimp only at stepped
    split at stepped
    · cases stepped
      exact silent (by simp) _
    · cases stepped
      exact .returned _ rfl fun none_ => by cases none_

/-- Every step shows one of these. -/
theorem shows_of_step {label : RxLabel} (stepped : nic.step label = .ok (after, events)) :
    Shows nic after events := by
  -- Each step of the driver, of its callers and of the device is looked at.
  cases label with
  | drive => exact shows_of_drive stepped
  | call =>
    simp only [RxNic.step] at stepped
    split at stepped
    · cases stepped
      exact .polled fun tries failing => by cases failing
    · cases stepped
  | fill status bytes =>
    obtain ⟨fills, rfl⟩ := fills_of_step stepped
    refine .other ?_ ?_ fun idle => fills.driver.trans idle
    · split <;> simp
    · intro frame
      split <;> simp
  | abandon =>
    cases stepped
    exact .other (by simp) (by simp) id

/-- What a step shows that returns nothing. -/
theorem returnedFrames_eq_nil (returned : ∀ frame, .returned frame ∉ events) :
    returnedFrames events = [] := by
  rw [returnedFrames, List.filterMap_eq_nil_iff]
  intro event member
  cases event with
  | returned frame => exact absurd member (returned frame)
  | completed bytes => rfl
  | polled => rfl
  | accepted length copies => rfl

/-- A step keeps what the current call knows, and what past calls have answered. -/
theorem polling_step {label : RxLabel}
    (ordered : returnedFrames history <+: completedFrames history)
    (polling : Polling nic history) (answered : Answered history)
    (stepped : nic.step label = .ok (after, events))
    (fails : ∀ tries, after.driver = .failing tries → nic.driver = .failing tries ∨
      completedFrames history = returnedFrames history) :
    Polling after (history ++ events) ∧ Answered (history ++ events) := by
  cases shows_of_step stepped with
  | other polled returned idle =>
    refine ⟨?_, answered.append (returned none)⟩
    intro busy
    obtain ⟨before, since, rfl, unpolled, none_, earlier, failed⟩ := polling (mt idle busy)
    refine ⟨before, since ++ events, by simp, ?_, ?_, earlier, ?_⟩
    · rw [List.mem_append]
      exact not_or.mpr ⟨unpolled, polled⟩
    · rw [returnedFrames_append, none_, returnedFrames_eq_nil returned, List.append_nil]
    · intro tries failing
      rcases fails tries failing with already | same
      · exact failed tries already
      · -- Nothing has been returned since the poll began, so nothing has arrived either.
        have arrived : completedFrames before <+: returnedFrames before := by
          have all : returnedFrames (before ++ .polled :: since) = returnedFrames before := by
            rw [returnedFrames_append]
            exact (congrArg (returnedFrames before ++ ·) none_).trans (List.append_nil _)
          rw [← all, ← same, completedFrames_append]
          exact List.prefix_append ..
        exact arrived.eq_of_length (Nat.le_antisymm arrived.length_le earlier.length_le)
  | polled looks =>
    refine ⟨?_, answered.append (by simp)⟩
    intro busy
    exact ⟨history, [], rfl, by simp, rfl, ordered,
      fun tries failing => absurd failing (looks tries)⟩
  | returned frame idle failed =>
    refine ⟨fun busy => absurd idle busy, ?_⟩
    cases frame with
    | some bytes => exact answered.append (by simp)
    | none =>
      obtain ⟨tries, failing⟩ := failed rfl
      obtain ⟨before, since, shape, unpolled, -, -, same⟩ := polling (by rw [failing]; simp)
      exact answered.fail shape unpolled (same tries failing)

end Calls

section Start

variable {start : BitVec 32} {rxBuffer packet : Nat → UInt8}

/-- The buffers are aligned, which leaves the low bits of their addresses to the ring. -/
theorem low_bits (i : RxSlot) {bit : Nat} (low : bit < 2) :
    (rxBufferDma start + BitVec.ofNat 32 (rxBufferSize * i.val)).getLsbD bit = false := by
  -- The mask clears the five lowest bits, of which the ring uses two.
  have first : ∀ bit < 2, (rxBufferDma start).getLsbD bit = false := by
    intro bit low
    have mask : (31 : BitVec 32).getLsbD bit = true := by
      rcases Nat.lt_succ_iff_lt_or_eq.mp low with zero | rfl
      · rw [Nat.lt_one_iff.mp zero]
        decide
      · decide
    rw [rxBufferDma, BitVec.getLsbD_and, BitVec.getLsbD_not, mask, Bool.not_true, Bool.and_false,
      Bool.and_false]
  have second : ∀ bit < 2, (BitVec.ofNat 32 (rxBufferSize * i.val)).getLsbD bit = false := by
    intro bit low
    have size : rxBufferSize * i.val = 2 ^ 7 * i.val := rfl
    have early : decide (bit ≥ 7) = false := decide_eq_false (by omega)
    rw [BitVec.getLsbD_ofNat, size, Nat.testBit_two_pow_mul, early, Bool.false_and, Bool.and_false]
  have carries : BitVec.carry bit (rxBufferDma start)
      (BitVec.ofNat 32 (rxBufferSize * i.val)) false = false := by
    rcases Nat.lt_succ_iff_lt_or_eq.mp low with zero | rfl
    · rw [Nat.lt_one_iff.mp zero, BitVec.carry_zero]
    · rw [BitVec.carry_succ, first 0 (by decide), second 0 (by decide), BitVec.carry_zero]
      rfl
  rw [BitVec.getLsbD_add (by omega), first bit low, second bit low, carries]
  rfl

/-- At the start, the device may fill every buffer, and the ring ends with the last one. -/
theorem initial_ring (i : RxSlot) :
    ((initial start rxBuffer packet).rxRing i).filled = false ∧
      (((initial start rxBuffer packet).rxRing i).rxWraps = true ↔ i = Fin.last 31) := by
  have used : (macbBit rxWrapOffset).getLsbD rxUsedOffset = false := by decide
  have wrap : (macbBit rxWrapOffset).getLsbD rxWrapOffset = true := by decide
  have free := @low_bits start i rxUsedOffset (by decide)
  have inner := @low_bits start i rxWrapOffset (by decide)
  simp only [initial, DmaDesc.filled, DmaDesc.rxWraps]
  by_cases last : i = Fin.last 31
  · rw [if_pos last, BitVec.getLsbD_or, BitVec.getLsbD_or, free, inner, used, wrap]
    exact ⟨rfl, iff_of_true rfl last⟩
  · rw [if_neg last]
    exact ⟨free, iff_of_false (by rw [inner]; decide) last⟩

/-- At the start, no buffer is filled. -/
theorem queued_initial : Queued (.initial start rxBuffer packet) [] := by
  refine ⟨⟨0, by decide⟩, 0, 0, [], [], ⟨by decide, rfl, ?_, ?_, trivial, rfl, ?_⟩,
    ⟨rfl, rfl, rfl⟩, rfl⟩
  · intro j _
    rw [(initial_ring _).1]
    exact iff_of_false (by decide) (Nat.not_lt_zero j)
  · exact fun i => (initial_ring i).2
  · intro bytes begun
    cases begun

end Start

/-- Only a call that has nothing to return comes to fail. -/
theorem fails_of_step {nic after : RxNic} {label : RxLabel} {history events : List RxEvent}
    (queued : Queued nic history) (stepped : nic.step label = .ok (after, events)) {tries : Nat}
    (failing : after.driver = .failing tries) :
    nic.driver = .failing tries ∨ completedFrames history = returnedFrames history := by
  cases label with
  | drive => exact Or.inr ((queued.drive stepped).2 tries failing)
  | call =>
    simp only [RxNic.step] at stepped
    split at stepped
    · cases stepped
      cases failing
    · cases stepped
  | fill status bytes => exact Or.inl ((fills_of_step stepped).1.driver ▸ failing)
  | abandon =>
    cases stepped
    exact Or.inl failing

/-- The receive ring is a queue of frames: whatever the driver, its callers and the device do in
turn, calls return the frames that arrive, in order and with their bytes. -/
theorem received_frames_fifo {start : BitVec 32} {rxBuffer packet : Nat → UInt8} {nic : RxNic}
    {history : List RxEvent} (reached : Reaches start rxBuffer packet nic history) :
    Fifo nic history := by
  have kept : Queued nic history ∧ Polling nic history ∧ Answered history := by
    refine reached.invariant (fun nic history => Queued nic history ∧ Polling nic history ∧
      Answered history) ⟨queued_initial, fun busy => absurd rfl busy, ?_⟩ ?_
    · intro before since after shape
      simp at shape
    · rintro nic label after history events ⟨queued, polling, answered⟩ ⟨permitted, stepped⟩
      obtain ⟨polls, answers⟩ := polling_step queued.ordered polling answered stepped
        fun tries failing => fails_of_step queued stepped failing
      exact ⟨queued.step permitted stepped, polls, answers⟩
  obtain ⟨queued, -, answered⟩ := kept
  refine ⟨queued.ordered, answered, ?_, queued.unstuck⟩
  -- Between calls, all buffers from the tail on are kept.
  intro idle
  obtain ⟨head, given, kept, taken, frames, stored, follows, whole⟩ := queued
  rw [idle] at follows
  obtain ⟨rfl, rfl, rfl⟩ := follows
  obtain ⟨room, place, filled, -, -, whole_, -⟩ := stored
  rw [ahead_zero] at whole_
  rw [Nat.zero_add] at room place
  simp only [Nat.zero_add] at filled
  exact ⟨kept, room, place, filled, by rw [whole, whole_, List.nil_append]⟩

/-- The device gives a frame up after its first buffer, and the next frame is returned. -/
theorem received_frames_fifo_abandoned : ∃ nic history,
    Reaches 0 (fun _ => 0) (fun _ => 0) nic history ∧ nic.driver = .idle ∧
      returnedFrames history = [[1, 2, 3]] ∧ Fifo nic history := by
  have ran : (follow Permitted step (.initial 0 (fun _ => 0) fun _ => 0)
      ([.fill 0x4000 (List.replicate 128 9), .abandon, .fill 0xc003 [1, 2, 3], .call] ++
        List.replicate 12 .drive)).map (fun reached =>
          (reached.1.driver, returnedFrames reached.2)) = some (.idle, [[1, 2, 3]]) := by
    decide +kernel
  obtain ⟨⟨nic, history⟩, followed, found⟩ := Option.map_eq_some_iff.mp ran
  rw [Prod.mk.injEq] at found
  have reached : Reaches 0 (fun _ => 0) (fun _ => 0) nic history := run_of_follow .start followed
  exact ⟨nic, history, reached, found.1, found.2, received_frames_fifo reached⟩

end RxNic

end Egos.Macb
