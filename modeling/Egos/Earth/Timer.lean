import Egos.Lib.Runs
import Mathlib.Algebra.Group.Nat.Defs

/-! The timer: 64-bit registers that are read and written in halves while time goes on. -/

namespace Egos.Earth

/-- The time until the next interrupt. -/
abbrev quantum : BitVec 64 := 0x100000

/-- The upper half of a 64-bit register. -/
def highWord (value : BitVec 64) : BitVec 32 := (value >>> 32).setWidth 32

/-- The lower half of a 64-bit register. -/
def lowWord (value : BitVec 64) : BitVec 32 := value.setWidth 32

/-- The 64-bit value of two halves. -/
def joinWords (high low : BitVec 32) : BitVec 64 := high.setWidth 64 <<< 32 ||| low.setWidth 64

/-- Where a call of `timer_reset` is; each place but the last one is in front of an access to a
register. -/
inductive TimerCall where
  -- In `mtime_get`.
  | readHigh
  | readLow (high : BitVec 32)
  | readAgain (high low : BitVec 32)
  -- In `mtimecmp_set`.
  | storeMask (time : BitVec 64)
  | storeLow (time : BitVec 64)
  | storeHigh (time : BitVec 64)
  | done
  deriving DecidableEq

/-- The registers of the timer, and the call that accesses them. -/
structure Timer where
  mtime : BitVec 64
  mtimecmpLow : BitVec 32
  mtimecmpHigh : BitVec 32
  call : TimerCall

/-- What a call shows. -/
inductive TimerEvent where
  -- The lower half of the time is read at this time.
  | sampled (mtime : BitVec 64)
  -- `mtime_get` returns a value.
  | got (value : BitVec 64)
  deriving DecidableEq

namespace Timer

/-- The register that is compared with the time. -/
def mtimecmp (timer : Timer) : BitVec 64 := joinWords timer.mtimecmpHigh timer.mtimecmpLow

/-- The next access to a register. -/
def access (timer : Timer) : Except String (Timer × List TimerEvent) :=
  match timer.call with
  | .readHigh => return ({ timer with call := .readLow (highWord timer.mtime) }, [])
  | .readLow high =>
    return ({ timer with call := .readAgain high (lowWord timer.mtime) }, [.sampled timer.mtime])
  | .readAgain high low =>
    if highWord timer.mtime ≠ high then return ({ timer with call := .readHigh }, [])
    else
      let value := joinWords high low
      return ({ timer with call := .storeMask (value + quantum) }, [.got value])
  | .storeMask time =>
    return ({ timer with mtimecmpHigh := 0xffffffff, call := .storeLow time }, [])
  | .storeLow time =>
    return ({ timer with mtimecmpLow := lowWord time, call := .storeHigh time }, [])
  | .storeHigh time =>
    return ({ timer with mtimecmpHigh := highWord time, call := .done }, [])
  | .done => throw "the call has returned"

/-- An access some time later. -/
def step (timer : Timer) (elapsed : Nat) : Except String (Timer × List TimerEvent) :=
  { timer with mtime := timer.mtime + BitVec.ofNat 64 elapsed }.access

/-- The time does not wrap around. -/
def Permitted (timer : Timer) (elapsed : Nat) : Prop := timer.mtime.toNat + elapsed < 2 ^ 64

/-- Whether the time wraps around can be decided. -/
instance (timer : Timer) (elapsed : Nat) : Decidable (timer.Permitted elapsed) :=
  inferInstanceAs (Decidable (_ < _))

/-- The states of a call that begins at some time with some deadline. -/
abbrev Reaches (mtime : BitVec 64) (low high : BitVec 32) : Timer → List TimerEvent → Prop :=
  Run (fun timer elapsed after events =>
    timer.Permitted elapsed ∧ timer.step elapsed = .ok (after, events)) ⟨mtime, low, high, .readHigh⟩

/-- Reads are not torn, and the deadline is set without an earlier one in between. -/
structure Untorn (timer : Timer) (history : List TimerEvent) : Prop where
  -- The value is the time at which its lower half was read, in the last round of the loop.
  sampled : ∀ before value after, history = before ++ .got value :: after →
    before.getLast? = some (.sampled value)
  stored : timer.call = .done → ∃ before value, history = before ++ [.got value] ∧
    timer.mtimecmp = value + quantum
  guarded : ∀ time, timer.call = .storeLow time ∨ timer.call = .storeHigh time →
    0xffffffff00000000 ≤ timer.mtimecmp

end Timer

section Halves

/-- The halves of a value make up the value. -/
theorem joinWords_halves (value : BitVec 64) :
    joinWords (highWord value) (lowWord value) = value := by
  -- Each bit comes from the half that it is in.
  apply BitVec.eq_of_getLsbD_eq
  intro i inside
  rcases Nat.lt_or_ge i 32 with low | high
  · simp [joinWords, highWord, lowWord, low, inside]
  · have place : 32 + (i - 32) = i := by omega
    have upper : i - 32 < 32 := by omega
    simp [joinWords, highWord, lowWord, Nat.not_lt.mpr high, inside, place, upper]

/-- The upper half of a value in numbers. -/
theorem toNat_highWord (value : BitVec 64) : (highWord value).toNat = value.toNat / 2 ^ 32 := by
  have bound := value.isLt
  rw [highWord, BitVec.toNat_setWidth, BitVec.toNat_ushiftRight, Nat.shiftRight_eq_div_pow]
  exact Nat.mod_eq_of_lt (by omega)

/-- A value between two others with the same upper half has this upper half, too. -/
theorem highWord_between {first middle last : BitVec 64} (before : first ≤ middle)
    (behind : middle ≤ last) (same : highWord last = highWord first) :
    highWord middle = highWord first := by
  -- Dividing keeps the order.
  have lower := Nat.div_le_div_right (c := 2 ^ 32) (BitVec.le_def.mp before)
  have upper := Nat.div_le_div_right (c := 2 ^ 32) (BitVec.le_def.mp behind)
  rw [← toNat_highWord, ← toNat_highWord] at lower upper
  rw [same] at upper
  exact BitVec.eq_of_toNat_eq (Nat.le_antisymm upper lower)

/-- With an upper half of ones, a value is among the largest ones. -/
theorem mask_le (low : BitVec 32) : 0xffffffff00000000 ≤ joinWords 0xffffffff low := by
  have bits : joinWords 0xffffffff low = 0xffffffff00000000 ||| low.setWidth 64 := rfl
  rw [BitVec.le_def, bits, BitVec.toNat_or]
  exact Nat.left_le_or

end Halves

namespace Timer

/-- The only value that was returned is the time at which its lower half was read. -/
def Returned (history : List TimerEvent) (value : BitVec 64) : Prop :=
  ∃ before, history = before ++ [.got value] ∧ (∀ other, .got other ∉ before) ∧
    before.getLast? = some (.sampled value)

/-- What the place of a call says about the times at which it has read, and about the deadline. -/
def Follows (timer : Timer) (history : List TimerEvent) : TimerCall → Prop
  | .readHigh => ∀ value, .got value ∉ history
  | .readLow high => (∀ value, .got value ∉ history) ∧
    ∃ first ≤ timer.mtime, highWord first = high
  | .readAgain high low => (∀ value, .got value ∉ history) ∧
    ∃ first middle, first ≤ middle ∧ middle ≤ timer.mtime ∧ highWord first = high ∧
      lowWord middle = low ∧ history.getLast? = some (.sampled middle)
  | .storeMask time => ∃ value, Returned history value ∧ time = value + quantum
  | .storeLow time => ∃ value, Returned history value ∧ time = value + quantum ∧
    timer.mtimecmpHigh = 0xffffffff
  | .storeHigh time => ∃ value, Returned history value ∧ time = value + quantum ∧
    timer.mtimecmpHigh = 0xffffffff ∧ timer.mtimecmpLow = lowWord time
  | .done => ∃ value, Returned history value ∧ timer.mtimecmp = value + quantum

section Calls

variable {timer after : Timer} {history events : List TimerEvent} {elapsed : Nat}

/-- Time that goes on changes nothing about a call. -/
theorem Follows.later {mtime : BitVec 64} (follows : timer.Follows history timer.call)
    (later : timer.mtime ≤ mtime) : Follows { timer with mtime } history timer.call := by
  -- What has been read is behind the new time, too.
  cases place : timer.call with
  | readHigh =>
    rw [place] at follows
    exact follows
  | readLow high =>
    rw [place] at follows
    obtain ⟨none, first, behind, same⟩ := follows
    exact ⟨none, first, BitVec.le_trans behind later, same⟩
  | readAgain high low =>
    rw [place] at follows
    obtain ⟨none, first, middle, order, behind, rest⟩ := follows
    exact ⟨none, first, middle, order, BitVec.le_trans behind later, rest⟩
  | storeMask time =>
    rw [place] at follows
    exact follows
  | storeLow time =>
    rw [place] at follows
    exact follows
  | storeHigh time =>
    rw [place] at follows
    exact follows
  | done =>
    rw [place] at follows
    exact follows

/-- An access keeps what the place of the call says. -/
theorem Follows.access (follows : timer.Follows history timer.call)
    (accessed : timer.access = .ok (after, events)) :
    after.Follows (history ++ events) after.call := by
  unfold Timer.access at accessed
  cases place : timer.call with
  | readHigh =>
    rw [place] at accessed follows
    cases accessed
    rw [List.append_nil]
    exact ⟨follows, timer.mtime, BitVec.le_refl _, rfl⟩
  | readLow high =>
    rw [place] at accessed follows
    cases accessed
    obtain ⟨none, first, behind, same⟩ := follows
    refine ⟨?_, first, timer.mtime, behind, BitVec.le_refl _, same, rfl, List.getLast?_concat⟩
    intro value
    rw [List.mem_append, List.mem_singleton]
    exact not_or.mpr ⟨none value, nofun⟩
  | readAgain high low =>
    rw [place] at accessed follows
    obtain ⟨none, first, middle, order, behind, rfl, rfl, last⟩ := follows
    dsimp only at accessed
    split at accessed
    · -- The upper half has changed, and the loop starts over.
      cases accessed
      rw [List.append_nil]
      exact none
    · rename_i kept
      cases accessed
      have same := highWord_between order behind (not_not.mp kept)
      rw [← same, joinWords_halves]
      exact ⟨middle, ⟨history, rfl, none, last⟩, rfl⟩
  | storeMask time =>
    rw [place] at accessed follows
    cases accessed
    obtain ⟨value, returned, same⟩ := follows
    rw [List.append_nil]
    exact ⟨value, returned, same, rfl⟩
  | storeLow time =>
    rw [place] at accessed follows
    cases accessed
    obtain ⟨value, returned, same, mask⟩ := follows
    rw [List.append_nil]
    exact ⟨value, returned, same, mask, rfl⟩
  | storeHigh time =>
    rw [place] at accessed follows
    cases accessed
    obtain ⟨value, returned, rfl, -, low⟩ := follows
    rw [List.append_nil]
    refine ⟨value, returned, ?_⟩
    simp only [mtimecmp, low, joinWords_halves]
  | done =>
    rw [place] at accessed
    cases accessed

/-- An access some time later keeps what the place of the call says. -/
theorem Follows.step (follows : timer.Follows history timer.call)
    (permitted : timer.Permitted elapsed) (stepped : timer.step elapsed = .ok (after, events)) :
    after.Follows (history ++ events) after.call := by
  have later : timer.mtime ≤ timer.mtime + BitVec.ofNat 64 elapsed := by
    unfold Permitted at permitted
    rw [BitVec.le_def, BitVec.toNat_add, BitVec.toNat_ofNat, Nat.add_mod_mod,
      Nat.mod_eq_of_lt permitted]
    exact Nat.le_add_right ..
  exact @Follows.access { timer with mtime := timer.mtime + BitVec.ofNat 64 elapsed } after history
    events (follows.later later) stepped

/-- The value that was returned follows its sample wherever it stands in a history. -/
theorem Returned.sampled {value other : BitVec 64} {before rest : List TimerEvent}
    (returned : Returned history value) (shape : history = before ++ .got other :: rest) :
    before.getLast? = some (.sampled other) := by
  obtain ⟨front, rfl, none, last⟩ := returned
  -- No value was returned before the last event.
  rcases List.append_eq_append_iff.mp shape with ⟨middle, split, tail⟩ | ⟨middle, split, tail⟩
  · cases middle with
    | nil =>
      obtain ⟨same, -⟩ := List.cons.inj tail
      rw [split, List.append_nil, ← TimerEvent.got.inj same]
      exact last
    | cons event middle =>
      have empty := (List.cons.inj tail).2
      simp at empty
  · cases middle with
    | nil =>
      obtain ⟨same, -⟩ := List.cons.inj tail
      rw [List.append_nil] at split
      rw [← split, TimerEvent.got.inj same]
      exact last
    | cons event middle =>
      obtain ⟨rfl, -⟩ := List.cons.inj tail
      rw [split] at none
      exact absurd (List.mem_append_right _ (List.mem_cons_self ..)) (none other)

/-- A call has returned nothing from `mtime_get` yet, or one value. -/
theorem Follows.returned (follows : timer.Follows history timer.call) :
    (∀ value, .got value ∉ history) ∨ ∃ value, Returned history value := by
  -- The place of the call decides what it has read so far.
  cases place : timer.call with
  | readHigh =>
    rw [place] at follows
    exact Or.inl follows
  | readLow high =>
    rw [place] at follows
    exact Or.inl follows.1
  | readAgain high low =>
    rw [place] at follows
    exact Or.inl follows.1
  | storeMask time =>
    rw [place] at follows
    obtain ⟨value, returned, -⟩ := follows
    exact Or.inr ⟨value, returned⟩
  | storeLow time =>
    rw [place] at follows
    obtain ⟨value, returned, -⟩ := follows
    exact Or.inr ⟨value, returned⟩
  | storeHigh time =>
    rw [place] at follows
    obtain ⟨value, returned, -⟩ := follows
    exact Or.inr ⟨value, returned⟩
  | done =>
    rw [place] at follows
    obtain ⟨value, returned, -⟩ := follows
    exact Or.inr ⟨value, returned⟩

end Calls

/-- A call of `timer_reset` reads the time without tearing it, and sets the deadline without an
earlier one in between, however the time goes on between its accesses. -/
theorem timer_reset_untorn {mtime : BitVec 64} {low high : BitVec 32} {timer : Timer}
    {history : List TimerEvent} (reached : Reaches mtime low high timer history) :
    Untorn timer history := by
  have follows : timer.Follows history timer.call := by
    apply reached.invariant fun timer history => timer.Follows history timer.call
    · exact fun value member => nomatch member
    · rintro timer elapsed after history events follows ⟨permitted, stepped⟩
      exact follows.step permitted stepped
  refine ⟨?_, ?_, ?_⟩
  · intro before value rest shape
    rcases follows.returned with none | ⟨other, returned⟩
    · rw [shape] at none
      exact absurd (List.mem_append_right _ (List.mem_cons_self ..)) (none value)
    · exact returned.sampled shape
  · intro done
    rw [done] at follows
    obtain ⟨value, ⟨before, shape, -⟩, same⟩ := follows
    exact ⟨before, value, shape, same⟩
  · -- The upper half is all ones until the last store.
    intro time storing
    have mask : timer.mtimecmpHigh = 0xffffffff := by
      rcases storing with place | place
      · rw [place] at follows
        obtain ⟨-, -, -, mask⟩ := follows
        exact mask
      · rw [place] at follows
        obtain ⟨-, -, -, mask, -⟩ := follows
        exact mask
    rw [mtimecmp, mask]
    exact mask_le _

/-- The lower half of the time rolls over between two reads, and the loop runs twice. -/
theorem timer_reset_untorn_rollover : ∃ timer history,
    Reaches 0xfffffffe 0 0 timer history ∧ timer.call = .done ∧
      timer.mtimecmp = 0x100100005 ∧ Untorn timer history := by
  have ran : (follow Permitted step ⟨0xfffffffe, 0, 0, .readHigh⟩
      [1, 4, 0, 0, 2, 1, 7, 0, 0]).map (fun reached =>
        (reached.1.call, reached.1.mtimecmp)) = some (.done, 0x100100005) := by
    decide +kernel
  obtain ⟨⟨timer, history⟩, followed, found⟩ := Option.map_eq_some_iff.mp ran
  rw [Prod.mk.injEq] at found
  have reached : Reaches 0xfffffffe 0 0 timer history := run_of_follow .start followed
  exact ⟨timer, history, reached, found.1, found.2, timer_reset_untorn reached⟩

end Timer

end Egos.Earth
