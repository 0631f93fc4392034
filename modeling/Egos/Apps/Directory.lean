import Egos.Lib.Strings
import Egos.Treedisk.Ops
import Mathlib.Data.List.Nodup

/-! The lookup of a name in the text of a directory. -/

namespace Egos.Apps

open Treedisk (blockSize)

/-- The test of one loop round at a place in memory, with the byte in front of it. -/
def matchesAt (name : List UInt8) (i : Nat) (before : Option UInt8) (memory : List UInt8) :
    Option Bool := do
  if (← strncmp (name ++ [0]) memory name.length) ≠ 0 then return false
  let next ← memory[name.length]?
  return next = space ∧ (i = 0 ∨ before = some space)

/-- The loop from a position on, as long as the position is below the bound. -/
def lookupFrom (name : List UInt8) (bound : Nat) :
    Nat → Option UInt8 → List UInt8 → Option Int
  -- Past the end of the block the loop would read whatever lies behind it.
  | i, _, [] => if i < bound then none else some (-1)
  | i, before, c :: later =>
    if i < bound then do
      if ← matchesAt name i before (c :: later) then
        return atoi ((c :: later).drop name.length)
      lookupFrom name bound (i + 1) (some c) later
    else some (-1)

/-- Looks a name up in the first block of a directory, where `-1` stands for no such entry. -/
def dirDoLookup (fileRead : Int → List UInt8) (dirIno : Int) (name : List UInt8) : Option Int := do
  let buf := fileRead dirIno
  -- The difference is one of 32-bit unsigned numbers.
  lookupFrom name (((← strlen buf) + 2 ^ 32 - name.length) % 2 ^ 32) 0 none buf

/-- The block that holds a directory's text, padded with null bytes. -/
def directoryBlock (text : List UInt8) : List UInt8 :=
  text ++ List.replicate (blockSize - text.length) 0

/-- A place where bytes stand in a text right after its start or a space and before a space. -/
structure Stands (text query before after : List UInt8) : Prop where
  split : text = before ++ query ++ space :: after
  delimited : before = [] ∨ before.getLast? = some space

section Loop

variable {query text seen : List UInt8}

/-- Inside the text, a loop round tests whether the query stands at its position. -/
theorem matchesAt_inside (proper : 0 ∉ query) {todo : List UInt8} (rest : List UInt8)
    (fits : query.length < todo.length) :
    matchesAt query seen.length seen.getLast? (todo ++ 0 :: rest) =
      some (decide (todo.take query.length = query ∧ todo[query.length]? = some space ∧
        (seen = [] ∨ seen.getLast? = some space))) := by
  obtain ⟨order, run, equal⟩ := strncmp_eq proper (show 0 ∈ todo ++ 0 :: rest by simp)
  have taken : (todo ++ 0 :: rest).take query.length = todo.take query.length :=
    List.take_append_of_le_length (Nat.le_of_lt fits)
  have next : (todo ++ 0 :: rest)[query.length]? = some todo[query.length] := by
    rw [List.getElem?_append_left fits, List.getElem?_eq_getElem fits]
  rw [taken] at equal
  simp only [matchesAt, run, Option.bind_eq_bind, Option.bind_some, next,
    List.getElem?_eq_getElem fits, Option.some.injEq, List.length_eq_zero_iff]
  by_cases same : order = 0
  · simp [same, equal.mp same]
  · have different : ¬ todo.take query.length = query := fun found => same (equal.mpr found)
    simp [same, different]

/-- A query stands at the current position exactly when the loop round finds it there. -/
theorem stands_here {todo : List UInt8} (split : text = seen ++ todo) :
    (∃ after, Stands text query seen after) ↔
      todo.take query.length = query ∧ todo[query.length]? = some space ∧
        (seen = [] ∨ seen.getLast? = some space) := by
  constructor
  · intro found
    obtain ⟨after, parts, delimited⟩ := found
    rw [split, List.append_assoc, List.append_cancel_left_eq] at parts
    refine ⟨by simp [parts], by simp [parts], delimited⟩
  · intro found
    obtain ⟨taken, next, delimited⟩ := found
    obtain ⟨inside, here⟩ := List.getElem?_eq_some_iff.mp next
    refine ⟨todo.drop (query.length + 1), ?_, delimited⟩
    rw [split, List.append_assoc, ← here, ← List.drop_eq_getElem_cons inside]
    nth_rewrite 1 [← List.take_append_drop query.length todo]
    rw [taken]

/-- The loop stops at the first place where the query stands, or runs to the end of the text. -/
theorem lookupFrom_inside (proper : 0 ∉ query) (rest : List UInt8) :
    ∀ {todo seen : List UInt8}, text = seen ++ todo →
    (∃ more after, Stands text query (seen ++ more) after ∧
      (∀ fewer other, fewer.length < more.length → ¬ Stands text query (seen ++ fewer) other) ∧
      lookupFrom query (text.length - query.length) seen.length seen.getLast? (todo ++ 0 :: rest) =
        some (atoi (space :: after ++ 0 :: rest))) ∨
    ((∀ more after, ¬ Stands text query (seen ++ more) after) ∧
      lookupFrom query (text.length - query.length) seen.length seen.getLast? (todo ++ 0 :: rest) =
        some (-1)) := by
  intro todo
  induction todo with
  | nil =>
    intro seen split
    right
    rw [List.append_nil] at split
    refine ⟨?_, ?_⟩
    · intro more after found
      have lengths := congrArg List.length found.split
      simp only [split, List.length_append, List.length_cons] at lengths
      omega
    · rw [List.nil_append, lookupFrom, if_neg (by rw [split]; omega)]
  | cons c todo ih =>
    intro seen split
    have total := congrArg List.length split
    simp only [List.length_append, List.length_cons] at total
    by_cases running : seen.length < text.length - query.length
    · have round := @matchesAt_inside query seen proper (c :: todo) rest
        (show query.length < (c :: todo).length by simp only [List.length_cons]; omega)
      have here := @stands_here query text seen _ split
      have later : text = (seen ++ [c]) ++ todo := by simp [split]
      have unfolded : lookupFrom query (text.length - query.length) seen.length seen.getLast?
          (c :: todo ++ 0 :: rest) = (do
            if ← matchesAt query seen.length seen.getLast? (c :: todo ++ 0 :: rest) then
              return atoi ((c :: todo ++ 0 :: rest).drop query.length)
            lookupFrom query (text.length - query.length) (seen ++ [c]).length
              (seen ++ [c]).getLast? (todo ++ 0 :: rest)) := by
        rw [List.cons_append, lookupFrom, if_pos running]
        simp
      by_cases found : ∃ after, Stands text query seen after
      · left
        obtain ⟨after, stands⟩ := found
        refine ⟨[], after, by simpa using stands, by simp, ?_⟩
        have parts := stands.split
        rw [split, List.append_assoc, List.append_cancel_left_eq] at parts
        rw [decide_eq_true (here.mp ⟨after, stands⟩)] at round
        rw [unfolded, round, parts]
        simp
      · rw [decide_eq_false fun place => found (here.mpr place)] at round
        rw [unfolded, round]
        simp only [Option.bind_eq_bind, Option.bind_some, Bool.false_eq_true, if_false]
        -- Any place further on starts with the byte that this round has passed.
        have shift : ∀ more after, Stands text query (seen ++ more) after →
            ∃ tail, more = c :: tail := by
          intro more after stands
          cases more with
          | nil => exact absurd ⟨after, by simpa using stands⟩ found
          | cons d tail =>
            have parts := stands.split
            rw [split, List.append_assoc, List.append_assoc, List.append_cancel_left_eq,
              List.cons_append, List.cons.injEq] at parts
            exact ⟨tail, by rw [parts.1]⟩
        rcases ih later with ⟨more, after, stands, first, run⟩ | ⟨never, run⟩
        · left
          refine ⟨c :: more, after, by simpa using stands, ?_, run⟩
          intro fewer other shorter stands'
          obtain ⟨tail, rfl⟩ := shift fewer other stands'
          exact first tail other (by simpa using shorter) (by simpa using stands')
        · right
          refine ⟨?_, run⟩
          intro more after stands
          obtain ⟨tail, rfl⟩ := shift more after stands
          exact never tail after (by simpa using stands)
    · right
      refine ⟨?_, by rw [List.cons_append, lookupFrom, if_neg running]⟩
      intro more after found
      have lengths := congrArg List.length found.split
      simp only [List.length_append, List.length_cons] at lengths
      omega

/-- A query longer than the text sends the loop past the end of the block. -/
theorem lookupFrom_outside (proper : 0 ∉ query) {bound : Nat} :
    ∀ (memory : List UInt8) {todo : List UInt8} {zeros i : Nat} (before : Option UInt8),
      memory = todo ++ List.replicate zeros 0 → todo.length < query.length →
      (todo ≠ [] → 0 < zeros) → i + memory.length < bound →
      lookupFrom query bound i before memory = none := by
  intro memory
  induction memory with
  | nil =>
    intro todo zeros i before _ _ _ running
    rw [lookupFrom, if_pos (by simpa using running)]
  | cons c later ih =>
    intro todo zeros i before split longer ended running
    simp only [List.length_cons] at running
    have positive : 0 < zeros := by
      rcases Nat.eq_zero_or_pos zeros with none | positive
      · cases todo with
        | nil => simp [none] at split
        | cons d todo => exact ended (by simp)
      · exact positive
    -- The query would have to go on where the text has ended.
    have short : ¬ (c :: later).take query.length = query := by
      intro same
      apply proper
      rw [← same, split, List.take_append, List.take_of_length_le (Nat.le_of_lt longer)]
      apply List.mem_append_right
      rw [List.take_replicate]
      exact List.mem_replicate.mpr ⟨by omega, rfl⟩
    obtain ⟨order, run, equal⟩ := strncmp_eq proper (show 0 ∈ c :: later by
      rw [split]
      exact List.mem_append_right _ (List.mem_replicate.mpr ⟨by omega, rfl⟩))
    have different : order ≠ 0 := fun zero => short (equal.mp zero)
    have missed : matchesAt query i before (c :: later) = some false := by
      simp [matchesAt, run, different]
    rw [lookupFrom, if_pos (by omega), missed]
    simp only [Option.bind_eq_bind, Option.bind_some, Bool.false_eq_true, if_false]
    cases todo with
    | nil =>
      refine @ih [] (zeros - 1) (i + 1) _ ?_ longer (by simp) (by omega)
      obtain ⟨more, rfl⟩ := Nat.exists_eq_succ_of_ne_zero (Nat.ne_of_gt positive)
      simp only [List.nil_append, List.replicate_succ, List.cons.injEq] at split
      simpa using split.2
    | cons d todo =>
      simp only [List.cons_append, List.cons.injEq] at split
      refine ih _ split.2 ?_ (fun _ => positive) (by omega)
      simp only [List.length_cons] at longer
      omega

end Loop

section Lookups

variable {fileRead : Int → List UInt8} {dirIno : Int} {query text : List UInt8}

/-- The text of a directory is followed by a null byte. -/
theorem directoryBlock_eq (short : text.length < blockSize) :
    directoryBlock text = text ++ 0 :: List.replicate (blockSize - text.length - 1) 0 := by
  rw [directoryBlock, ← List.replicate_succ]
  congr 2
  omega

/-- A lookup finds the first place where the query stands in the text, or reports that there is
none. -/
theorem dirDoLookup_inside (stored : fileRead dirIno = directoryBlock text)
    (short : text.length < blockSize) (proper : 0 ∉ text) (clean : 0 ∉ query)
    (fits : query.length ≤ text.length) :
    (∃ before after rest, Stands text query before after ∧
      dirDoLookup fileRead dirIno query = some (atoi (space :: after ++ 0 :: rest)) ∧
      ∀ c ∈ rest, c = 0) ∨
    ((∀ before after, ¬ Stands text query before after) ∧
      dirDoLookup fileRead dirIno query = some (-1)) := by
  -- The bound of the loop does not wrap, so that the loop stays inside the text.
  have block := directoryBlock_eq short
  have bound : (text.length + 2 ^ 32 - query.length) % 2 ^ 32 = text.length - query.length := by
    simp only [blockSize] at short
    rw [show text.length + 2 ^ 32 - query.length = text.length - query.length + 2 ^ 32 by omega,
      Nat.add_mod_right, Nat.mod_eq_of_lt (by omega)]
  have run : dirDoLookup fileRead dirIno query =
      lookupFrom query (text.length - query.length) 0 none
        (text ++ 0 :: List.replicate (blockSize - text.length - 1) 0) := by
    simp only [dirDoLookup, stored, block, strlen_append _ proper, Option.bind_eq_bind,
      Option.bind_some, bound]
  have loop := @lookupFrom_inside query text clean
    (List.replicate (blockSize - text.length - 1) 0) text [] rfl
  simp only [List.length_nil, List.getLast?_nil, List.nil_append] at loop
  rw [run]
  rcases loop with ⟨before, after, stands, -, found⟩ | missing
  · left
    exact ⟨before, after, _, stands, found, fun c member => (List.mem_replicate.mp member).2⟩
  · right
    exact missing

/-- A lookup of a query longer than the text reads past the end of the block. -/
theorem dirDoLookup_outside (stored : fileRead dirIno = directoryBlock text)
    (short : text.length < blockSize) (proper : 0 ∉ text) (clean : 0 ∉ query)
    (narrow : query.length < blockSize) (longer : text.length < query.length) :
    dirDoLookup fileRead dirIno query = none := by
  have block := directoryBlock_eq short
  have length : (directoryBlock text).length = blockSize := by
    rw [directoryBlock, List.length_append, List.length_replicate]
    omega
  have known : strlen (directoryBlock text) = some text.length := by
    rw [block, strlen_append _ proper]
  simp only [dirDoLookup, stored, known, Option.bind_eq_bind, Option.bind_some]
  refine lookupFrom_outside clean _ none rfl longer (fun _ => by omega) ?_
  rw [length]
  simp only [blockSize] at short narrow ⊢
  omega

end Lookups

/-- One entry of a directory's text: a name and a decimal number, each with the spaces after it. -/
structure Entry where
  name : List UInt8
  gap : Nat
  number : List UInt8
  tail : Nat
deriving DecidableEq

/-- The text of an entry. -/
def Entry.text (entry : Entry) : List UInt8 :=
  entry.name ++ List.replicate entry.gap space ++
    (entry.number ++ List.replicate entry.tail space)

/-- What every entry of a directory satisfies. -/
structure Entry.Proper (entry : Entry) : Prop where
  named : entry.name ≠ []
  solid : space ∉ entry.name
  clean : 0 ∉ entry.name
  spaced : 0 < entry.gap
  numbered : entry.number ≠ []
  decimals : ∀ c ∈ entry.number, isdigit c

/-- The text of a directory with the given entries. -/
def directoryText (entries : List Entry) : List UInt8 := entries.flatMap Entry.text

/-- Entries that make up a directory: all but the last are followed by a space. -/
def Formatted : List Entry → Prop
  | [] => True
  | entry :: rest => entry.Proper ∧ (rest ≠ [] → 0 < entry.tail) ∧ Formatted rest

/-- Every entry of a formatted directory is a proper one. -/
theorem Formatted.proper {entries : List Entry} (formatted : Formatted entries) {entry : Entry}
    (member : entry ∈ entries) : entry.Proper := by
  induction entries with
  | nil => simp at member
  | cons first rest ih =>
    rcases List.mem_cons.mp member with same | behind
    · exact same ▸ formatted.1
    · exact ih formatted.2.2 behind

section Words

variable {query before after rest word : List UInt8}

/-- Two texts that agree have the same first word. -/
theorem first_word_eq {left right : List UInt8} (solid : space ∉ word) (plain : space ∉ query)
    (same : word ++ space :: left = query ++ space :: right) : word = query := by
  -- Letter by letter: the word that ended first would put its space into the other one.
  induction word generalizing query with
  | nil =>
    cases query with
    | nil => rfl
    | cons c query =>
      rw [List.nil_append, List.cons_append, List.cons.injEq] at same
      exact absurd (by simp [same.1]) plain
  | cons d word ih =>
    cases query with
    | nil =>
      rw [List.nil_append, List.cons_append, List.cons.injEq] at same
      exact absurd (by simp [same.1]) solid
    | cons c query =>
      simp only [List.cons_append, List.cons.injEq] at same
      rw [same.1, ih (fun member => solid (by simp [member]))
        (fun member => plain (by simp [member])) same.2]

/-- A query that is a word stands either as the first word of a text or after it. -/
theorem stands_word (solid : space ∉ word) {gap : Nat} (spaced : 0 < gap)
    (present : query ≠ []) (plain : space ∉ query)
    (stands : Stands (word ++ List.replicate gap space ++ rest) query before after) :
    (before = [] ∧ query = word ∧ space :: after = List.replicate gap space ++ rest) ∨
      ∃ further, before = word ++ List.replicate gap space ++ further ∧
        Stands rest query further after := by
  obtain ⟨more, rfl⟩ := Nat.exists_eq_succ_of_ne_zero (Nat.ne_of_gt spaced)
  have parts := stands.split
  rcases stands.delimited with start | delimited
  · left
    rw [start, List.nil_append, List.append_assoc] at parts
    have same := parts
    rw [List.replicate_succ, List.cons_append] at same
    obtain rfl := first_word_eq solid plain same
    exact ⟨start, rfl, (List.append_cancel_left parts).symm⟩
  · right
    have ends : space ∈ before := List.mem_of_getLast? delimited
    rw [List.append_assoc before] at parts
    rcases List.append_eq_append_iff.mp parts with ⟨further, whole, tail⟩ | ⟨cut, whole, tail⟩
    · refine ⟨further, whole, ⟨by rw [tail, List.append_assoc], ?_⟩⟩
      cases further with
      | nil => exact Or.inl rfl
      | cons c further =>
        right
        rw [whole, List.getLast?_append] at delimited
        simpa using delimited
    · -- The query starts with a byte that is no space, so no place inside the gap starts it.
      have stop : cut = [] := by
        cases cut with
        | nil => rfl
        | cons c cut =>
          exfalso
          have first : c ∈ query := by
            cases query with
            | nil => exact absurd rfl present
            | cons d query =>
              rw [List.cons_append, List.cons_append, List.cons.injEq] at tail
              simp [tail.1]
          rcases List.append_eq_append_iff.mp whole with ⟨part, _, inside⟩ | ⟨part, inside, _⟩
          · have member : c ∈ List.replicate (more + 1) space := by
              rw [inside]
              simp
            rw [(List.mem_replicate.mp member).2] at first
            exact plain first
          · exact solid (by rw [inside]; exact List.mem_append_left _ ends)
      subst stop
      rw [List.append_nil] at whole
      rw [List.nil_append] at tail
      exact ⟨[], by rw [List.append_nil, whole], ⟨by rw [List.nil_append, tail], Or.inl rfl⟩⟩

/-- The digits of a number are no spaces. -/
theorem Entry.Proper.number_solid {entry : Entry} (proper : entry.Proper) :
    space ∉ entry.number := fun member =>
  absurd (proper.decimals _ member) (by decide)

/-- A query that is a word stands in a directory only as a name or as a number of an entry. -/
theorem stands_entry {entry : Entry} (proper : entry.Proper) (parted : rest ≠ [] → 0 < entry.tail)
    (present : query ≠ []) (plain : space ∉ query)
    (stands : Stands (entry.text ++ rest) query before after) :
    (query = entry.name ∧ space :: after = List.replicate entry.gap space ++
      (entry.number ++ (List.replicate entry.tail space ++ rest))) ∨
      (query = entry.number ∧ 0 < entry.tail) ∨ ∃ further, Stands rest query further after := by
  rw [Entry.text, List.append_assoc] at stands
  rcases stands_word proper.solid proper.spaced present plain stands with
    ⟨-, name, tail⟩ | ⟨further, -, later⟩
  · exact Or.inl ⟨name, by rw [tail, List.append_assoc]⟩
  · right
    rcases Nat.eq_zero_or_pos entry.tail with none | spaced
    · -- The number ends the text, and no space follows it.
      have last : rest = [] := by
        by_contra some
        exact absurd (parted some) (by omega)
      have member : space ∈ entry.number := by
        have whole := later.split
        rw [none, last] at whole
        simp only [List.replicate_zero, List.append_nil] at whole
        rw [whole]
        simp
      exact absurd member proper.number_solid
    · rcases stands_word proper.number_solid spaced present plain later with
        ⟨-, number, -⟩ | ⟨place, -, behind⟩
      · exact Or.inl ⟨number, spaced⟩
      · exact Or.inr ⟨place, behind⟩

/-- The text of an entry that is followed by a space ends with one. -/
theorem Entry.getLast?_text {entry : Entry} (spaced : 0 < entry.tail) :
    entry.text.getLast? = some space := by
  obtain ⟨more, same⟩ := Nat.exists_eq_succ_of_ne_zero (Nat.ne_of_gt spaced)
  simp [Entry.text, same, List.getLast?_append, List.getLast?_replicate]

/-- Every entry's name stands in the text of its directory, and so does a number with a space
behind it. -/
theorem stands_of_mem {entries : List Entry} (formatted : Formatted entries) {entry : Entry}
    (member : entry ∈ entries) (part : query = entry.name ∨ query = entry.number ∧ 0 < entry.tail) :
    ∃ before after, Stands (directoryText entries) query before after := by
  -- The first entry stands at the front, and the others in the text behind it.
  induction entries with
  | nil => simp at member
  | cons first rest ih =>
    obtain ⟨proper, parted, later⟩ := formatted
    rcases List.mem_cons.mp member with same | behind
    · subst same
      obtain ⟨more, gap⟩ := Nat.exists_eq_succ_of_ne_zero (Nat.ne_of_gt proper.spaced)
      rcases part with name | ⟨number, spaced⟩
      · refine ⟨[], List.replicate more space ++
          (entry.number ++ List.replicate entry.tail space) ++ directoryText rest, ?_, Or.inl rfl⟩
        simp [name, directoryText, Entry.text, gap, List.replicate_succ]
      · obtain ⟨fewer, tail⟩ := Nat.exists_eq_succ_of_ne_zero (Nat.ne_of_gt spaced)
        refine ⟨entry.name ++ List.replicate entry.gap space,
          List.replicate fewer space ++ directoryText rest, ?_, Or.inr ?_⟩
        · simp [number, directoryText, Entry.text, tail, List.replicate_succ]
        · simp [gap, List.getLast?_append, List.getLast?_replicate]
    · obtain ⟨before, after, stands⟩ := ih later behind
      have spaced := parted (List.ne_nil_of_mem behind)
      refine ⟨first.text ++ before, after, ?_, Or.inr ?_⟩
      · have parts := stands.split
        rw [directoryText, List.flatMap_cons, ← directoryText, parts]
        simp
      · rcases stands.delimited with start | delimited
        · rw [start, List.append_nil]
          exact Entry.getLast?_text spaced
        · rw [List.getLast?_append, delimited]
          rfl

/-- A word that stands in a directory is the name of an entry, with the entry's number behind it,
or a number. -/
theorem stands_directory {entries : List Entry} (formatted : Formatted entries)
    (present : query ≠ []) (plain : space ∉ query)
    (stands : Stands (directoryText entries) query before after) :
    (∃ entry ∈ entries, ∃ behind, query = entry.name ∧
      (0 < entry.tail ∨ behind = []) ∧
      space :: after = List.replicate entry.gap space ++
        (entry.number ++ (List.replicate entry.tail space ++ behind))) ∨
      ∃ entry ∈ entries, query = entry.number ∧ 0 < entry.tail := by
  -- A word without spaces lies within the name or the number of one entry.
  induction entries generalizing before with
  | nil =>
    have whole := stands.split
    simp [directoryText] at whole
  | cons first rest ih =>
    obtain ⟨proper, parted, later⟩ := formatted
    rw [directoryText, List.flatMap_cons] at stands
    have ended : rest.flatMap Entry.text ≠ [] → 0 < first.tail := by
      intro more
      apply parted
      rintro rfl
      exact more rfl
    rcases stands_entry proper ended present plain stands with
      ⟨name, tail⟩ | ⟨number, spaced⟩ | ⟨further, place⟩
    · left
      refine ⟨first, by simp, rest.flatMap Entry.text, name, ?_, tail⟩
      by_cases last : rest.flatMap Entry.text = []
      · exact Or.inr last
      · exact Or.inl (ended last)
    · exact Or.inr ⟨first, by simp, number, spaced⟩
    · rcases ih later place with ⟨entry, member, found⟩ | ⟨entry, member, found⟩
      · exact Or.inl ⟨entry, by simp [member], found⟩
      · exact Or.inr ⟨entry, by simp [member], found⟩

/-- A directory's text has no null byte. -/
theorem directoryText_proper {entries : List Entry} (formatted : Formatted entries) :
    0 ∉ directoryText entries := by
  induction entries with
  | nil => simp [directoryText]
  | cons first rest ih =>
    obtain ⟨proper, -, later⟩ := formatted
    have number : 0 ∉ first.number := fun member =>
      absurd (proper.decimals 0 member) (by decide)
    have gap : ∀ k, 0 ∉ List.replicate k space := fun k member =>
      absurd (List.mem_replicate.mp member).2 (by decide)
    rw [directoryText, List.flatMap_cons, ← directoryText]
    simp [Entry.text, proper.clean, number, gap, ih later]

end Words

/-- The entries of the root directory, as the image is made. -/
def rootEntries : List Entry :=
  [⟨ascii "./", 3, ascii "0", 1⟩, ⟨ascii "../", 3, ascii "0", 1⟩, ⟨ascii "home/", 3, ascii "1", 3⟩,
    ⟨ascii "bin/", 3, ascii "6", 1⟩]

example : directoryText rootEntries = ascii "./   0 ../   0 home/   1   bin/   6 " := by decide

/-- The root directory is formatted. -/
theorem rootEntries_formatted : Formatted rootEntries := by
  refine ⟨⟨?_, ?_, ?_, ?_, ?_, ?_⟩, ?_, ⟨?_, ?_, ?_, ?_, ?_, ?_⟩, ?_,
    ⟨?_, ?_, ?_, ?_, ?_, ?_⟩, ?_, ⟨?_, ?_, ?_, ?_, ?_, ?_⟩, ?_, trivial⟩ <;> decide +kernel

section Results

variable {fileRead : Int → List UInt8} {dirIno : Int} {entries : List Entry}

/-- A lookup finds every entry of a directory, whatever the other entries are. -/
theorem lookup_finds_entry (formatted : Formatted entries)
    (short : (directoryText entries).length < blockSize)
    (wordy : ∀ entry ∈ entries, ¬ ∀ c ∈ entry.name, isdigit c)
    (distinct : (entries.map Entry.name).Nodup)
    (small : ∀ entry ∈ entries, decimal entry.number < 2 ^ 31)
    (stored : fileRead dirIno = directoryBlock (directoryText entries))
    {entry : Entry} (member : entry ∈ entries) :
    dirDoLookup fileRead dirIno entry.name = some (decimal entry.number : Int) := by
  have proper := fun other listed => @Formatted.proper entries formatted other listed
  have named := proper entry member
  obtain ⟨before, after, stands⟩ := stands_of_mem formatted member (Or.inl rfl)
  have fits : entry.name.length ≤ (directoryText entries).length := by
    rw [stands.split, List.length_append, List.length_append]
    omega
  rcases dirDoLookup_inside stored short (directoryText_proper formatted) named.clean fits with
    ⟨_, behind, rest, found, run, zeros⟩ | ⟨never, -⟩
  · rcases stands_directory formatted named.named named.solid found with
      ⟨other, listed, further, name, ended, tail⟩ | ⟨other, listed, number, -⟩
    · -- No two entries share a name, so the entry found is the one looked for.
      have same : other = entry :=
        List.inj_on_of_nodup_map distinct listed member name.symm
      subst same
      rw [run, tail]
      simp only [List.append_assoc]
      rw [atoi_spaces, atoi_digits named.numbered named.decimals ?_ (small other member)]
      intro c first
      rcases Nat.eq_zero_or_pos other.tail with none | spaced
      · have last : further = [] := ended.resolve_left (by omega)
        rw [none, last, List.replicate_zero, List.nil_append, List.nil_append,
          List.head?_cons, Option.mem_some_iff] at first
        rw [← first]
        decide
      · obtain ⟨more, gap⟩ := Nat.exists_eq_succ_of_ne_zero (Nat.ne_of_gt spaced)
        rw [gap, List.replicate_succ, List.cons_append, List.head?_cons, Option.mem_some_iff]
          at first
        rw [← first]
        decide
    · exact absurd (fun c inside => (proper other listed).decimals c (number ▸ inside))
        (wordy entry member)
  · exact absurd stands (never before after)

/-- The lookup is of an entry of the root directory. -/
theorem lookup_finds_bin :
    dirDoLookup (fun _ => directoryBlock (directoryText rootEntries)) 0 (ascii "bin/") =
      some 6 := by
  have found := @lookup_finds_entry (fun _ => directoryBlock (directoryText rootEntries)) 0
    rootEntries rootEntries_formatted (by decide) (by decide) (by decide) (by decide) rfl
    ⟨ascii "bin/", 3, ascii "6", 1⟩ (by decide)
  exact found

/-- A query that fits into a text and stands nowhere in it. -/
def Absent (text query : List UInt8) : Prop :=
  query.length ≤ text.length ∧ ∀ before after, ¬ Stands text query before after

/-- A lookup of no entry fails when the query is absent from the text, and only then unless the
text has minus signs; a word is absent unless it is an inode number with a space behind it. -/
theorem lookup_invents_nothing {query : List UInt8} (formatted : Formatted entries)
    (short : (directoryText entries).length < blockSize)
    (stored : fileRead dirIno = directoryBlock (directoryText entries))
    (clean : 0 ∉ query) (bounded : query.length ≤ 31)
    (foreign : ∀ entry ∈ entries, query ≠ entry.name) :
    (Absent (directoryText entries) query → dirDoLookup fileRead dirIno query = some (-1)) ∧
      ((45 : UInt8) ∉ directoryText entries →
        dirDoLookup fileRead dirIno query = some (-1) → Absent (directoryText entries) query) ∧
      (query ≠ [] → space ∉ query → query.length ≤ (directoryText entries).length →
        (Absent (directoryText entries) query ↔
          ∀ entry ∈ entries, query = entry.number → entry.tail = 0)) := by
  have proper := directoryText_proper formatted
  refine ⟨?_, ?_, ?_⟩
  · intro absent
    rcases dirDoLookup_inside stored short proper clean absent.1 with
      ⟨before, after, -, stands, -⟩ | ⟨-, run⟩
    · exact absurd stands (absent.2 before after)
    · exact run
  · intro unsigned failed
    have fits : query.length ≤ (directoryText entries).length := by
      by_contra longer
      have outside := dirDoLookup_outside stored short proper clean
        (by simp only [blockSize]; omega) (Nat.lt_of_not_le longer)
      rw [outside] at failed
      cases failed
    refine ⟨fits, ?_⟩
    rcases dirDoLookup_inside stored short proper clean fits with
      ⟨before, after, rest, stands, run, zeros⟩ | ⟨never, -⟩
    · -- What follows a place in the text reads as a number that is not negative.
      have plain : (45 : UInt8) ∉ space :: after ++ 0 :: rest := by
        intro member
        rcases List.mem_append.mp member with inside | behind
        · apply unsigned
          rw [stands.split]
          exact List.mem_append_right _ inside
        · rcases List.mem_cons.mp behind with zero | padding
          · exact absurd zero (by decide)
          · exact absurd (zeros _ padding) (by decide)
      have value := atoi_nonneg plain
      rw [run, Option.some.injEq] at failed
      omega
    · exact never
  · intro present plain fits
    constructor
    · intro absent entry member number
      by_contra spaced
      obtain ⟨before, after, stands⟩ := stands_of_mem formatted member
        (Or.inr ⟨number, Nat.pos_of_ne_zero spaced⟩)
      exact absent.2 before after stands
    · intro last
      refine ⟨fits, ?_⟩
      intro before after stands
      rcases stands_directory formatted present plain stands with
        ⟨entry, member, -, name, -⟩ | ⟨entry, member, number, spaced⟩
      · exact foreign entry member name
      · exact absurd (last entry member number) (Nat.ne_of_gt spaced)

/-- The root directory has no entry called `usr/`. -/
theorem lookup_invents_no_usr :
    dirDoLookup (fun _ => directoryBlock (directoryText rootEntries)) 0 (ascii "usr/") =
      some (-1) := by
  obtain ⟨enough, -, word⟩ := @lookup_invents_nothing
    (fun _ => directoryBlock (directoryText rootEntries)) 0 rootEntries (ascii "usr/")
    rootEntries_formatted (by decide) rfl (by decide) (by decide) (by decide)
  exact enough ((word (by decide) (by decide) (by decide)).mpr (by decide))

/-- The root directory has no entry called `0`, but a lookup of it finds an inode number. -/
theorem lookup_invents_zero :
    Formatted rootEntries ∧ (directoryText rootEntries).length < blockSize ∧
      (∀ entry ∈ rootEntries, ascii "0" ≠ entry.name) ∧
      dirDoLookup (fun _ => directoryBlock (directoryText rootEntries)) 0 (ascii "0") =
        some 0 :=
  ⟨rootEntries_formatted, by decide, by decide, by decide +kernel⟩

end Results

end Egos.Apps
