import Egos.Apps.Shell

/-! Reading a line from the terminal, with backspaces, Enter and Ctrl+C. -/

namespace Egos.Earth

/-- The character of Ctrl+C. -/
def ctrlC : UInt8 := 0x03

/-- The character of Enter. -/
def enter : UInt8 := 0x0d

/-- The character of Backspace. -/
def backspace : UInt8 := 0x7f

/-- The buffer of a call with every cell written to so far, what was printed, and whether the
terminal is being read. -/
structure Tty where
  cells : Int → UInt8
  writes : List Int
  printed : List UInt8
  isReading : Bool

namespace Tty

/-- Stores a character in a cell of the buffer. -/
def store (tty : Tty) (i : Int) (c : UInt8) : Tty :=
  { tty with cells := Function.update tty.cells i c, writes := i :: tty.writes }

/-- Prints characters. -/
def print (tty : Tty) (text : List UInt8) : Tty := { tty with printed := tty.printed ++ text }

/-- Stores the null byte at the end of a line and stops reading. -/
def finish (tty : Tty) (i : Int) : Tty := { tty.store i 0 with isReading := false }

/-- The string in the buffer. -/
def text (tty : Tty) (len : Nat) : List UInt8 :=
  Apps.cString ((List.range len).map fun k : Nat => tty.cells k)

end Tty

/-- The loop of a call, with the characters that are left; without enough of them it goes on waiting
and there is no result. -/
def readFrom (len : Nat) : List UInt8 → Int → Tty → Option (Tty × Int × List UInt8)
  | [], i, tty => if i < len - 1 then none else some (tty.finish (len - 1), len - 1, [])
  | c :: stream, i, tty =>
    if i < len - 1 then
      let tty := tty.store i c
      if c = ctrlC then some (((tty.store 0 0).finish i).print (ascii "\r\n"), 0, stream)
      else if c = enter then some ((tty.finish i).print (ascii "\r\n"), i, stream)
      else if c = backspace then
        -- The loop goes on to the next index after this one.
        if i ≠ 0 then readFrom len stream (i - 2 + 1) (tty.print (ascii "\x08 \x08"))
        else readFrom len stream (i - 1 + 1) tty
      else readFrom len stream (i + 1) (if c ≠ 0 then tty.print [c] else tty)
    else some (tty.finish (len - 1), len - 1, c :: stream)

/-- Reads a line into a buffer. -/
def ttyRead (len : Nat) (stream : List UInt8) (tty : Tty) : Option (Tty × Int × List UInt8) :=
  readFrom len stream 0 { tty with isReading := true, writes := [] }

/-- A character changes the line: backspace takes the last character away, if there is one. -/
def editChar (line : List UInt8) (c : UInt8) : List UInt8 :=
  if c = backspace then line.dropLast else line ++ [c]

/-- Why a line is complete. -/
inductive Stop where
  | enter
  | ctrlC
  | full
  deriving DecidableEq

/-- Editing a line with a stream of characters, from a line so far to the complete one: why it is
complete, and which characters are left. -/
inductive Edits (len : Nat) : List UInt8 → List UInt8 → List UInt8 → Stop → List UInt8 → Prop where
  | full {line stream : List UInt8} (holds : line.length = len - 1) :
    Edits len line stream line .full stream
  | enter {line stream : List UInt8} (room : line.length < len - 1) :
    Edits len line (enter :: stream) line .enter stream
  | ctrlC {line stream : List UInt8} (room : line.length < len - 1) :
    Edits len line (ctrlC :: stream) line .ctrlC stream
  | char {line stream final rest : List UInt8} {c : UInt8} {stop : Stop}
    (room : line.length < len - 1) (go : c ≠ enter) (on : c ≠ Earth.ctrlC)
    (more : Edits len (editChar line c) stream final stop rest) :
    Edits len line (c :: stream) final stop rest

/-- What a complete line leaves in the buffer. -/
def Stop.outcome (line : List UInt8) : Stop → List UInt8
  | .enter | .full => line
  | .ctrlC => []

/-- A buffer that holds the line so far. -/
structure Tty.Holds (tty : Tty) (len : Nat) (line : List UInt8) : Prop where
  room : line.length ≤ len - 1
  cells : ∀ k (_ : k < line.length), tty.cells k = (line)[k]
  proper : 0 ∉ line
  inside : ∀ i ∈ tty.writes, 0 ≤ i ∧ i < len

section Editing

variable {tty : Tty} {len : Nat} {line : List UInt8} {c : UInt8}

/-- A line that is closed by a null byte is the string in the buffer. -/
theorem Tty.Holds.text (holds : tty.Holds len line) (positive : 2 ≤ len)
    (closed : tty.cells line.length = 0) : tty.text len = line := by
  -- The cells of the buffer begin with the line and the null byte.
  have room := holds.room
  apply Apps.cString_eq holds.proper
  intro k inside
  rw [List.getElem?_map, List.getElem?_range (by omega), Option.map_some]
  rcases Nat.lt_or_eq_of_le inside with low | here
  · rw [holds.cells k low, List.getElem?_eq_getElem low]
    rfl
  · subst here
    rw [closed, List.getElem?_eq_none (Nat.le_refl _)]
    rfl

/-- A character that is stored behind the line extends it. -/
theorem Tty.Holds.push (holds : tty.Holds len line) (room : line.length < len - 1)
    (nonzero : c ≠ 0) : (tty.store line.length c).Holds len (line ++ [c]) := by
  -- The new character comes to the cell behind the line.
  refine ⟨?_, ?_, ?_, ?_⟩
  · rw [List.length_append, List.length_singleton]
    omega
  · intro k inside
    rw [List.length_append, List.length_singleton] at inside
    simp only [Tty.store]
    rcases Nat.lt_succ_iff_lt_or_eq.mp inside with low | here
    · rw [Function.update_of_ne (by omega), List.getElem_append_left low]
      exact holds.cells k low
    · subst here
      simp
  · simp [holds.proper, nonzero.symm]
  · intro i member
    rcases List.mem_cons.mp member with rfl | earlier
    · omega
    · exact holds.inside i earlier

/-- A character that is stored behind the line leaves the line as it is. -/
theorem Tty.Holds.behind (holds : tty.Holds len line) (room : line.length < len - 1) :
    (tty.store line.length c).Holds len line := by
  refine ⟨holds.room, ?_, holds.proper, ?_⟩
  · intro k inside
    simp only [Tty.store]
    rw [Function.update_of_ne (by omega)]
    exact holds.cells k inside
  · intro i member
    rcases List.mem_cons.mp member with rfl | earlier
    · omega
    · exact holds.inside i earlier

/-- Taking the last character away leaves a line in the buffer. -/
theorem Tty.Holds.dropLast (holds : tty.Holds len line) : tty.Holds len line.dropLast := by
  have room := holds.room
  refine ⟨?_, ?_, fun member => holds.proper (List.dropLast_subset _ member), holds.inside⟩
  · rw [List.length_dropLast]
    omega
  · intro k inside
    rw [List.getElem_dropLast]
    rw [List.length_dropLast] at inside
    exact holds.cells k (by omega)

/-- Backspace and ordinary characters change the line in the buffer as they should. -/
theorem Tty.Holds.editChar (holds : tty.Holds len line) (room : line.length < len - 1)
    (nonzero : c ≠ 0) : (tty.store line.length c).Holds len (editChar line c) := by
  -- Backspace is stored behind the line before the line loses its last character.
  unfold Earth.editChar
  split
  · exact (holds.behind room).dropLast
  · exact holds.push room nonzero

/-- Printing and reading do not change the buffer. -/
theorem Tty.Holds.print (holds : tty.Holds len line) (text : List UInt8) :
    (tty.print text).Holds len line := ⟨holds.room, holds.cells, holds.proper, holds.inside⟩

/-- The next round of the loop starts behind the line in the buffer. -/
theorem readFrom_char {stream : List UInt8} (room : line.length < len - 1) (go : c ≠ enter)
    (on : c ≠ ctrlC) : ∃ text, readFrom len (c :: stream) line.length tty =
      readFrom len stream (editChar line c).length ((tty.store line.length c).print text) := by
  -- Nothing but what is printed depends on more than the line.
  have inside : (line.length : Int) < len - 1 := by omega
  have silent : ∀ tty : Tty, tty.print [] = tty := fun tty => by simp [Tty.print]
  rw [readFrom, if_pos inside, if_neg on, if_neg go]
  unfold editChar
  by_cases back : c = backspace
  · rw [if_pos back, if_pos back, List.length_dropLast]
    by_cases some_ : (line.length : Int) ≠ 0
    · rw [if_pos some_]
      exact ⟨_, by congr 1; omega⟩
    · rw [if_neg some_]
      exact ⟨[], by rw [silent]; congr 1; omega⟩
  · rw [if_neg back, if_neg back, List.length_append, List.length_singleton]
    by_cases shown : c ≠ 0
    · rw [if_pos shown]
      exact ⟨_, by congr 1⟩
    · rw [if_neg shown]
      exact ⟨[], by rw [silent]; congr 1⟩

/-- What a call leaves behind when the line is complete. -/
structure Tty.Returns (after : Tty) (len : Nat) (count : Int) (outcome : List UInt8) : Prop where
  text : after.text len = outcome
  count : count = outcome.length
  inside : ∀ i ∈ after.writes, 0 ≤ i ∧ i < len
  idle : after.isReading = false

/-- Closing the line in the buffer returns it. -/
theorem Tty.Holds.finish (holds : tty.Holds len line) (positive : 2 ≤ len) (text : List UInt8) :
    ((tty.finish line.length).print text).Returns len line.length line := by
  have room := holds.room
  have closed : (tty.finish line.length).Holds len line := by
    refine ⟨room, ?_, holds.proper, ?_⟩
    · intro k inside
      simp only [Tty.finish, Tty.store]
      rw [Function.update_of_ne (by omega)]
      exact holds.cells k inside
    · intro i member
      rcases List.mem_cons.mp member with rfl | earlier
      · omega
      · exact holds.inside i earlier
  exact ⟨(closed.print text).text positive (Function.update_self ..), rfl, closed.inside, rfl⟩

/-- The loop returns the edited line as soon as it is complete. -/
theorem readFrom_edits {stream final rest : List UInt8} {stop : Stop} (positive : 2 ≤ len)
    (edits : Edits len line stream final stop rest) : ∀ {tty : Tty}, tty.Holds len line →
    0 ∉ stream → ∃ after count, readFrom len stream line.length tty = some (after, count, rest) ∧
      after.Returns len count (stop.outcome final) := by
  -- The buffer holds the line so far at the beginning of every round.
  induction edits with
  | @full line stream complete =>
    intro tty holds _
    have ended : ¬ (line.length : Int) < len - 1 := by omega
    have place : (len : Int) - 1 = line.length := by omega
    refine ⟨tty.finish line.length, line.length, ?_, ?_⟩
    · cases stream with
      | nil => rw [readFrom, if_neg ended, place]
      | cons c stream => rw [readFrom, if_neg ended, place]
    · obtain ⟨text, count, inside, idle⟩ := holds.finish positive []
      exact ⟨text, count, inside, idle⟩
  | @enter line stream room =>
    intro tty holds _
    have stored := @Tty.Holds.behind tty len line Earth.enter holds room
    refine ⟨_, _, ?_, stored.finish positive (ascii "\r\n")⟩
    rw [readFrom, if_pos (by omega), if_neg (by decide), if_pos rfl]
  | @ctrlC line stream room =>
    intro tty holds _
    refine ⟨((((tty.store line.length Earth.ctrlC).store 0 0).finish line.length).print
      (ascii "\r\n")), 0, ?_, ?_⟩
    · rw [readFrom, if_pos (by omega), if_pos rfl]
    · -- The null byte at the beginning of the buffer empties the line.
      have empty : (((tty.store line.length Earth.ctrlC).store 0 0).finish line.length).Holds len
          [] := by
        refine ⟨Nat.zero_le _, fun k inside => absurd inside (Nat.not_lt_zero k), by simp, ?_⟩
        intro i member
        simp only [Tty.finish, Tty.store, List.mem_cons] at member
        rcases member with rfl | rfl | rfl | earlier
        · omega
        · omega
        · omega
        · exact holds.inside i earlier
      refine ⟨(empty.print _).text positive ?_, rfl, empty.inside, rfl⟩
      simp only [Tty.print, Tty.finish, Tty.store]
      by_cases first : (0 : Int) = line.length
      · simp [← first]
      · simp [first]
  | @char line stream final rest c stop room go on _ ih =>
    intro tty holds proper
    rw [List.mem_cons, not_or] at proper
    obtain ⟨text, next⟩ := @readFrom_char tty len line c stream room go on
    rw [next]
    exact ih ((holds.editChar room (Ne.symm proper.1)).print text) proper.2

/-- The loop waits for more characters as long as the line is not complete. -/
theorem readFrom_waits : ∀ {stream line : List UInt8} {tty : Tty}, tty.Holds len line →
    0 ∉ stream → (∀ final stop rest, ¬ Edits len line stream final stop rest) →
    readFrom len stream line.length tty = none := by
  -- The characters that are there go on with the line.
  intro stream
  induction stream with
  | nil =>
    intro line tty holds _ never
    have room : line.length < len - 1 := by
      have bound := holds.room
      by_contra full
      exact never line .full [] (.full (by omega))
    rw [readFrom, if_pos (by omega)]
  | cons c stream ih =>
    intro line tty holds proper never
    rw [List.mem_cons, not_or] at proper
    have room : line.length < len - 1 := by
      have bound := holds.room
      by_contra full
      exact never line .full (c :: stream) (.full (by omega))
    have go : c ≠ enter := by
      rintro rfl
      exact never line .enter stream (.enter room)
    have on : c ≠ ctrlC := by
      rintro rfl
      exact never line .ctrlC stream (.ctrlC room)
    obtain ⟨text, next⟩ := @readFrom_char tty len line c stream room go on
    rw [next]
    exact ih ((holds.editChar room (Ne.symm proper.1)).print text) proper.2
      fun final stop rest edits => never final stop rest (.char room go on edits)

/-- A call consumes exactly the characters of the edited line, leaves the line in the buffer and
returns its length, without a store outside the buffer; it waits as long as the line goes on. -/
theorem tty_read_edits (positive : 2 ≤ len) {stream : List UInt8} (proper : 0 ∉ stream)
    (tty : Tty) :
    (∀ final stop rest, Edits len [] stream final stop rest →
      ∃ after count, ttyRead len stream tty = some (after, count, rest) ∧
        after.Returns len count (stop.outcome final)) ∧
    ((∀ final stop rest, ¬ Edits len [] stream final stop rest) →
      ttyRead len stream tty = none) := by
  have blank : ({ tty with isReading := true, writes := [] } : Tty).Holds len [] := by
    refine ⟨Nat.zero_le _, fun k inside => absurd inside (Nat.not_lt_zero k), by simp, ?_⟩
    intro i member
    cases member
  exact ⟨fun final stop rest edits => readFrom_edits positive edits blank proper,
    readFrom_waits blank proper⟩

/-- A backspace on an empty line and one that takes a character away, and a line that goes on. -/
theorem tty_read_backspaces :
    Edits 256 [] [backspace, 97, 98, backspace, enter, 99] [97] .enter [99] ∧
    (∃ after, ttyRead 256 [backspace, 97, 98, backspace, enter, 99] ⟨fun _ => 0, [], [], false⟩ =
      some (after, 1, [99]) ∧ after.Returns 256 1 [97]) ∧
    (∀ final stop rest, ¬ Edits 256 [] [97] final stop rest) ∧
      ttyRead 256 [97] ⟨fun _ => 0, [], [], false⟩ = none := by
  -- The edits are given character by character.
  have edits : Edits 256 [] [backspace, 97, 98, backspace, enter, 99] [97] .enter [99] := by
    apply Edits.char (by decide) (by decide) (by decide)
    apply Edits.char (by decide) (by decide) (by decide)
    apply Edits.char (by decide) (by decide) (by decide)
    apply Edits.char (by decide) (by decide) (by decide)
    exact Edits.enter (by decide)
  have open_ : ∀ final stop rest, ¬ Edits 256 [] [97] final stop rest := by
    intro final stop rest edits
    cases edits with
    | full complete => cases complete
    | char room go on rest =>
      cases rest with
      | full complete => cases complete
  obtain ⟨after, count, ran, returns⟩ := (tty_read_edits (by decide) (by decide) _).1 _ _ _ edits
  have one : count = 1 := returns.count
  subst one
  exact ⟨edits, ⟨after, ran, returns⟩, open_,
    (tty_read_edits (by decide) (by decide) _).2 open_⟩

end Editing

end Egos.Earth
