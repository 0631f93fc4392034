import Egos.Lib.Outcome
import Egos.Lib.Strings

/-! The shell: cutting a typed line into commands, and a command into arguments. -/

namespace Egos.Apps

/-- The number of arguments that a request has room for. -/
abbrev cmdNargs : Nat := 16

/-- The number of bytes that one argument has room for. -/
abbrev cmdArgLen : Nat := 32

/-- The argument slots of a request, with every cell that has been written to so far. -/
structure Args where
  cells : Nat → Nat → UInt8
  writes : List (Nat × Nat)

/-- Argument slots that have been cleared. -/
def Args.zero : Args := ⟨fun _ _ => 0, []⟩

/-- Stores a byte in one cell of the argument slots. -/
def Args.store (args : Args) (row column : Nat) (c : UInt8) : Args where
  cells := Function.update args.cells row (Function.update (args.cells row) column c)
  writes := (row, column) :: args.writes

/-- The loop over the bytes of a command, where no argument count stands for the error return. -/
def parseFrom : List UInt8 → Nat → Nat → Args → Args × Option Nat
  | [], nargs, idx, args => (args, some (if idx ≠ 0 then nargs + 1 else nargs))
  | c :: rest, nargs, idx, args =>
    if c ≠ space then
      -- The byte is part of the current token.
      let args := args.store nargs idx c
      if idx + 1 ≥ cmdArgLen then (args, none) else parseFrom rest nargs (idx + 1) args
    else if idx ≠ 0 then
      -- The space finishes the current token.
      let args := args.store nargs idx 0
      if nargs + 1 ≥ cmdNargs then (args, none) else parseFrom rest (nargs + 1) 0 args
    else parseFrom rest nargs idx args

/-- Splits a command into the argument slots of a request. -/
def parseRequest (buf : List UInt8) : Args × Option Nat := parseFrom buf 0 0 .zero

/-- Argument slots that hold some finished tokens and the beginning of the next one. -/
structure Args.Holds (args : Args) (done : List (List UInt8)) (word : List UInt8) : Prop where
  few : done.length < cmdNargs
  short : word.length < cmdArgLen
  shorter : ∀ token ∈ done, token.length < cmdArgLen
  inside : ∀ cell ∈ args.writes, cell.1 < cmdNargs ∧ cell.2 < cmdArgLen
  cells : ∀ row column, args.cells row column =
    (((done ++ [word])[row]?.getD [])[column]?).getD 0

section Parsing

variable {args : Args} {done : List (List UInt8)} {word : List UInt8}

/-- Every cell written by a store stays inside the slots. -/
theorem Args.Holds.store_inside (holds : args.Holds done word) (c : UInt8) :
    ∀ cell ∈ (args.store done.length word.length c).writes,
      cell.1 < cmdNargs ∧ cell.2 < cmdArgLen := by
  intro cell member
  rcases List.mem_cons.mp member with same | earlier
  · rw [same]
    exact ⟨holds.few, holds.short⟩
  · exact holds.inside cell earlier

/-- Storing the next byte of a token extends the token. -/
theorem Args.Holds.push (holds : args.Holds done word) (c : UInt8)
    (room : word.length + 1 < cmdArgLen) :
    (args.store done.length word.length c).Holds done (word ++ [c]) := by
  -- The new character comes to the column behind the token so far.
  refine ⟨holds.few, by simpa using room, holds.shorter, holds.store_inside c, ?_⟩
  · intro row column
    simp only [Args.store]
    by_cases here : row = done.length
    · subst here
      have before := holds.cells done.length
      simp only [List.getElem?_append_right (Nat.le_refl _), Nat.sub_self,
        List.getElem?_cons_zero, Option.getD_some] at before ⊢
      rw [Function.update_self]
      rcases Nat.lt_trichotomy column word.length with low | same | high
      · rw [Function.update_of_ne (by omega), before, List.getElem?_append_left low]
      · subst same
        simp
      · rw [Function.update_of_ne (by omega), before, List.getElem?_eq_none (by omega),
          List.getElem?_eq_none (by simp; omega)]
    · rw [Function.update_of_ne here, holds.cells]
      rcases Nat.lt_or_gt_of_ne here with low | high
      · rw [List.getElem?_append_left low, List.getElem?_append_left low]
      · have past : ∀ last : List UInt8, (done ++ [last])[row]? = none := fun last =>
          List.getElem?_eq_none (by rw [List.length_append, List.length_singleton]; omega)
        rw [past, past]

/-- A space behind a token finishes it. -/
theorem Args.Holds.finish (holds : args.Holds done word) (room : done.length + 1 < cmdNargs) :
    (args.store done.length word.length 0).Holds (done ++ [word]) [] := by
  refine ⟨by simpa using room, by decide, ?_, holds.store_inside 0, ?_⟩
  · intro token member
    rcases List.mem_append.mp member with earlier | last
    · exact holds.shorter token earlier
    · rw [List.mem_singleton.mp last]
      exact holds.short
  · intro row column
    -- The null byte goes where the slot is null already.
    have same : (args.store done.length word.length 0).cells row column =
        args.cells row column := by
      simp only [Args.store]
      by_cases here : row = done.length
      · subst here
        rw [Function.update_self]
        by_cases there : column = word.length
        · subst there
          rw [Function.update_self, holds.cells]
          simp
        · rw [Function.update_of_ne there]
      · rw [Function.update_of_ne here]
    have count : (done ++ [word]).length = done.length + 1 := by simp
    rw [same, holds.cells]
    rcases Nat.lt_or_ge row (done ++ [word]).length with low | high
    · rw [@List.getElem?_append_left _ (done ++ [word]) [[]] row low]
    · rw [@List.getElem?_append_right _ (done ++ [word]) [[]] row high,
        List.getElem?_eq_none high]
      rcases Nat.eq_zero_or_pos (row - (done ++ [word]).length) with next | later
      · rw [next]
        simp
      · rw [List.getElem?_eq_none (show ([[]] : List (List UInt8)).length ≤ _ from later)]

/-- What an accepted command leaves in the slots: its tokens, each padded with null bytes. -/
structure Parsed (args : Args) (argc : Nat) (all : List (List UInt8)) : Prop where
  count : argc = all.length
  few : all.length ≤ cmdNargs
  shorter : ∀ token ∈ all, token.length < cmdArgLen
  cells : ∀ row column, args.cells row column = ((all[row]?.getD [])[column]?).getD 0

/-- The loop stays inside the slots, and a command that it accepts ends up there token by token. -/
theorem parseFrom_parsed : ∀ (rest : List UInt8) {done : List (List UInt8)} {word : List UInt8}
    {args : Args}, args.Holds done word → space ∉ word →
    (∀ cell ∈ (parseFrom rest done.length word.length args).1.writes,
      cell.1 < cmdNargs ∧ cell.2 < cmdArgLen) ∧
    ∀ argc, (parseFrom rest done.length word.length args).2 = some argc →
      Parsed (parseFrom rest done.length word.length args).1 argc
        (done ++ tokens space (word ++ rest)) := by
  -- The slots hold the finished tokens and the beginning of the current one at every byte.
  intro rest
  induction rest with
  | nil =>
    intro done word args holds solid
    simp only [parseFrom, List.append_nil, Option.some.injEq, tokens_run solid]
    refine ⟨holds.inside, ?_⟩
    rintro argc rfl
    have few := holds.few
    cases word with
    | nil =>
      refine ⟨by simp, by simp; omega, by simpa using holds.shorter, ?_⟩
      intro row column
      rw [holds.cells]
      rcases Nat.lt_trichotomy row done.length with low | here | high
      · rw [List.getElem?_append_left low]
        simp
      · subst here
        simp
      · have past : (done ++ [[]])[row]? = none := List.getElem?_eq_none (by
          rw [List.length_append, List.length_singleton]
          omega)
        simp [past, List.getElem?_eq_none (Nat.le_of_lt high)]
    | cons c word =>
      have short := holds.short
      refine ⟨by simp, by simp; omega, ?_, by simpa using holds.cells⟩
      intro token member
      rcases List.mem_append.mp member with earlier | last
      · exact holds.shorter token earlier
      · simp only [reduceCtorEq, if_false, List.mem_singleton] at last
        rw [last]
        exact short
  | cons c rest ih =>
    intro done word args holds solid
    by_cases blank : c = space
    · subst blank
      cases word with
      | nil =>
        have skipped := tokens_append_cons solid rest
        simp only [if_true, List.nil_append] at skipped
        have next := @ih done [] args holds solid
        simp only [List.nil_append] at next ⊢
        rw [skipped]
        simpa [parseFrom] using next
      | cons d word =>
        have finished := tokens_append_cons solid rest
        simp only [reduceCtorEq, if_false] at finished
        rw [finished]
        simp only [parseFrom, ne_eq, not_true_eq_false, if_false, List.length_cons,
          Nat.add_one_ne_zero, not_false_eq_true, if_true]
        by_cases full : done.length + 1 ≥ cmdNargs
        · rw [if_pos full]
          exact ⟨holds.store_inside 0, by simp⟩
        · rw [if_neg full]
          have next := ih (holds.finish (Nat.lt_of_not_le full)) (by simp)
          simpa using next
    · have longer : space ∉ word ++ [c] := by
        simp [solid, Ne.symm blank]
      simp only [parseFrom, ne_eq, blank, not_false_eq_true, if_true]
      by_cases full : word.length + 1 ≥ cmdArgLen
      · rw [if_pos full]
        exact ⟨holds.store_inside c, by simp⟩
      · rw [if_neg full]
        have next := ih (holds.push c (Nat.lt_of_not_le full)) longer
        simpa using next

/-- Cleared slots hold no tokens. -/
theorem Args.zero_holds : Args.zero.Holds [] [] := by
  refine ⟨by decide, by decide, by simp, by simp [Args.zero], ?_⟩
  intro row column
  cases row with
  | zero => simp [Args.zero]
  | succ row => simp [Args.zero]

/-- Parsing a command writes only inside the slots. -/
theorem parseRequest_inside (buf : List UInt8) :
    ∀ cell ∈ (parseRequest buf).1.writes, cell.1 < cmdNargs ∧ cell.2 < cmdArgLen :=
  (parseFrom_parsed buf Args.zero_holds (by simp)).1

/-- An accepted command is in the slots token by token. -/
theorem parseRequest_parsed {buf : List UInt8} {argc : Nat}
    (accepted : (parseRequest buf).2 = some argc) :
    Parsed (parseRequest buf).1 argc (tokens space buf) := by
  have parsed := (parseFrom_parsed buf Args.zero_holds (by simp)).2 argc accepted
  simp only [List.nil_append] at parsed
  exact parsed

/-- A command that does not fit into the slots: a token is too long, or a space comes after the
token for the last slot. -/
def Oversized (buf : List UInt8) (slots : Nat) : Prop :=
  (∃ token ∈ tokens space buf, cmdArgLen ≤ token.length) ∨
    slots < (tokens space buf).length ∨
    slots = (tokens space buf).length ∧ buf.getLast? = some space

/-- The loop gives up exactly on what does not fit into the slots that are left. -/
theorem parseFrom_eq_none : ∀ (rest : List UInt8) {nargs : Nat} {word : List UInt8} (args : Args),
    nargs < cmdNargs → word.length < cmdArgLen → space ∉ word →
    ((parseFrom rest nargs word.length args).2 = none ↔
      Oversized (word ++ rest) (cmdNargs - nargs)) := by
  intro rest
  induction rest with
  | nil =>
    intro nargs word args few short solid
    simp only [parseFrom, List.append_nil, reduceCtorEq, Oversized, tokens_run solid, false_iff]
    have plain : word.getLast? ≠ some space := fun last => solid (List.mem_of_getLast? last)
    cases word with
    | nil =>
      simp only [cmdNargs] at few
      simp
    | cons c word =>
      simp only [cmdArgLen, cmdNargs] at few short ⊢
      simp only [reduceCtorEq, if_false, List.mem_singleton, exists_eq_left,
        List.length_singleton, plain, and_false, or_false]
      omega
  | cons c rest ih =>
    intro nargs word args few short solid
    by_cases blank : c = space
    · subst blank
      have last : ∀ head : List UInt8, (head ++ space :: rest).getLast? = some space ↔
          rest = [] ∨ rest.getLast? = some space := by
        intro head
        cases rest with
        | nil => simp
        | cons d rest => simp [List.getLast?_cons]
      have empty : rest = [] → tokens space rest = [] := by
        rintro rfl
        exact @tokens_run space [] (by simp)
      cases word with
      | nil =>
        have skipped := tokens_append_cons solid rest
        rw [if_pos rfl] at skipped
        have next := @ih nargs [] args few short solid
        have unfolded : parseFrom (space :: rest) nargs ([] : List UInt8).length args =
            parseFrom rest nargs ([] : List UInt8).length args := by
          simp [parseFrom]
        rw [unfolded, next, Oversized, Oversized, skipped, last]
        simp only [List.nil_append]
        refine or_congr_right (or_congr_right (and_congr_right fun count => ?_))
        -- A slot is left for another token.
        constructor
        · exact Or.inr
        · rintro (none | ended)
          · rw [empty none, List.length_nil] at count
            simp only [cmdNargs] at few count
            omega
          · exact ended
      | cons d word =>
        have finished := tokens_append_cons solid rest
        rw [if_neg (by simp), List.singleton_append] at finished
        simp only [parseFrom, ne_eq, not_true_eq_false, if_false, List.length_cons,
          Nat.add_one_ne_zero, not_false_eq_true, if_true]
        rw [Oversized, finished, last, List.length_cons]
        by_cases full : nargs + 1 ≥ cmdNargs
        · rw [if_pos full]
          simp only [true_iff]
          right
          have one : cmdNargs - nargs = 1 := by omega
          rw [one]
          cases others : tokens space rest with
          | nil => exact Or.inr ⟨rfl, getLast?_of_tokens_eq_nil others⟩
          | cons token others => exact Or.inl (by simp)
        · rw [if_neg full]
          have next := @ih (nargs + 1) [] (args.store nargs (word.length + 1) 0) (by omega)
            (by decide) (by simp)
          rw [List.length_nil, List.nil_append] at next
          rw [next, Oversized]
          have fits : ¬ cmdArgLen ≤ (d :: word).length := Nat.not_le_of_lt short
          simp only [List.mem_cons, exists_eq_or_imp, fits, false_or]
          refine or_congr_right (or_congr (by omega) ?_)
          constructor
          · rintro ⟨count, ended⟩
            exact ⟨by omega, Or.inr ended⟩
          · rintro ⟨count, none | ended⟩
            · rw [empty none, List.length_nil] at count
              omega
            · exact ⟨by omega, ended⟩
    · have longer : space ∉ word ++ [c] := by
        simp [solid, Ne.symm blank]
      have moved : word ++ c :: rest = (word ++ [c]) ++ rest := by simp
      simp only [parseFrom, ne_eq, blank, not_false_eq_true, if_true]
      rw [moved]
      by_cases full : word.length + 1 ≥ cmdArgLen
      · rw [if_pos full]
        simp only [true_iff]
        -- The token that the bytes begin is too long already.
        obtain ⟨more, others, split⟩ := tokens_first longer (by simp) rest
        left
        refine ⟨word ++ [c] ++ more, by rw [split]; simp, ?_⟩
        simp only [List.length_append, List.length_singleton]
        omega
      · rw [if_neg full]
        have next := @ih nargs (word ++ [c]) (args.store nargs word.length c) few
          (by simpa using full) longer
        rw [List.length_append, List.length_singleton] at next
        exact next

/-- A command is refused exactly when it does not fit into the slots. -/
theorem parseRequest_eq_none (buf : List UInt8) :
    (parseRequest buf).2 = none ↔ Oversized buf cmdNargs :=
  @parseFrom_eq_none buf 0 [] .zero (by decide) (by decide) (by simp)

end Parsing

/-- The number of commands that a batch has room for. -/
abbrev maxCmds : Nat := 10

/-- The static variables that keep a batch between calls, where an index of `-1` is for none. -/
structure Batch where
  cmds : Nat → List UInt8
  cmdIdx : Int
  maxIdx : Int

/-- The loop that stores the commands of a batch, where no count stands for too many of them. -/
def storeCmds : List (List UInt8) → Nat → (Nat → List UInt8) → (Nat → List UInt8) × Option Nat
  | [], numCmd, cmds => (cmds, some numCmd)
  | cmd :: rest, numCmd, cmds =>
    -- The command behind the last row is stored before it is counted.
    let cmds := Function.update cmds numCmd cmd
    if numCmd + 1 > maxCmds then (cmds, none) else storeCmds rest (numCmd + 1) cmds

/-- Cuts a line into commands if it is in parentheses, and says whether it has not too many. -/
def startBatch (buf : List UInt8) (batch : Batch) : Batch × Bool :=
  if buf.head? ≠ some 40 ∨ buf.getLast? ≠ some 41 then
    (⟨Function.update batch.cmds 0 buf, 0, 0⟩, true)
  else match storeCmds (tokens 59 (buf.drop 1).dropLast) 0 batch.cmds with
    | (cmds, none) => ({ batch with cmds }, false)
    | (cmds, some numCmd) => (⟨cmds, 0, numCmd - 1⟩, true)

/-- Hands out the next command of a batch, or ends the batch. -/
def nextCmd : EStateM String Batch (Option (List UInt8)) := do
  let batch ← get
  if ¬ (batch.cmdIdx ≥ 0 ∧ batch.cmdIdx ≤ batch.maxIdx + 1) then
    throw "[ASSERT FAILED][file:apps/system/sys_shell.c, line:52]"
  else if batch.cmdIdx ≤ batch.maxIdx then
    set { batch with cmdIdx := batch.cmdIdx + 1 }
    return some (batch.cmds batch.cmdIdx.toNat)
  else
    set { batch with cmdIdx := -1, maxIdx := -1 }
    return none

/-- The next command of a typed line, or none at its end. -/
def parseBatchCmds (buf : List UInt8) : EStateM String Batch (Option (List UInt8)) := do
  if (← get).cmdIdx = -1 then
    let (batch, fits) := startBatch buf (← get)
    set batch
    if fits then nextCmd else return none
  else nextCmd

/-- The bytes of a buffer in front of its first null byte. -/
def cString (bytes : List UInt8) : List UInt8 := bytes.takeWhile (· ≠ 0)

/-- The string in bytes that begin with a word and a null byte is the word. -/
theorem cString_eq {word bytes : List UInt8} (clean : 0 ∉ word)
    (starts : ∀ k ≤ word.length, bytes[k]? = some (word[k]?.getD 0)) : cString bytes = word := by
  -- Byte by byte, the word and the beginning of the bytes agree.
  induction word generalizing bytes with
  | nil =>
    have first := starts 0 (Nat.le_refl _)
    cases bytes with
    | nil => rfl
    | cons c bytes =>
      simp only [List.getElem?_cons_zero, Option.some.injEq, List.getElem?_nil,
        Option.getD_none] at first
      simp [cString, first]
  | cons d word ih =>
    have first := starts 0 (Nat.zero_le _)
    cases bytes with
    | nil => simp at first
    | cons c bytes =>
      simp only [List.getElem?_cons_zero, Option.some.injEq, Option.getD_some] at first
      subst first
      rw [List.mem_cons, not_or] at clean
      have rest : cString bytes = word := by
        apply ih clean.2
        intro k inside
        have next := starts (k + 1) (by simpa using inside)
        simpa using next
      have nonzero : c ≠ 0 := Ne.symm clean.1
      rw [cString, List.takeWhile_cons_of_pos (by simpa using nonzero), ← cString, rest]

/-- A command that the shell gets from a line: the calls before returned commands as well. -/
inductive Extracted (buf : List UInt8) : List UInt8 → Batch → Prop where
  | first {batch after : Batch} {cmd : List UInt8} (idle : batch.cmdIdx = -1)
      (call : parseBatchCmds buf batch = .ok (some cmd) after) : Extracted buf cmd after
  | next {batch after : Batch} {earlier cmd : List UInt8} (before : Extracted buf earlier batch)
      (call : parseBatchCmds buf batch = .ok (some cmd) after) : Extracted buf cmd after

/-- A batch in progress holds commands without null bytes. -/
structure Batch.Clean (batch : Batch) : Prop where
  started : 0 ≤ batch.cmdIdx
  bounded : batch.cmdIdx ≤ batch.maxIdx + 1
  proper : ∀ i : Nat, (i : Int) ≤ batch.maxIdx → 0 ∉ batch.cmds i

section Batches

variable {buf : List UInt8} {batch : Batch}

/-- The stored commands are those of the list. -/
theorem storeCmds_clean : ∀ (segments : List (List UInt8)) {numCmd : Nat}
    {cmds : Nat → List UInt8}, (∀ cmd ∈ segments, 0 ∉ cmd) → (∀ i < numCmd, 0 ∉ cmds i) →
    ∀ {after : Nat → List UInt8} {count : Nat},
    storeCmds segments numCmd cmds = (after, some count) → ∀ i < count, 0 ∉ after i := by
  -- Each row is stored from a clean segment or kept.
  intro segments
  induction segments with
  | nil =>
    intro numCmd cmds _ stored after count run
    simp only [storeCmds, Prod.mk.injEq, Option.some.injEq] at run
    obtain ⟨rfl, rfl⟩ := run
    exact stored
  | cons cmd rest ih =>
    intro numCmd cmds proper stored after count run
    simp only [storeCmds] at run
    split at run
    · cases run
    · apply ih (fun other member => proper other (List.mem_cons_of_mem _ member)) _ run
      intro i below
      by_cases last : i = numCmd
      · rw [last, Function.update_self]
        exact proper cmd List.mem_cons_self
      · rw [Function.update_of_ne last]
        exact stored i (by omega)

/-- A new batch holds clean commands. -/
theorem startBatch_clean (proper : 0 ∉ buf) (fits : (startBatch buf batch).2 = true) :
    (startBatch buf batch).1.Clean := by
  -- Tokens of a clean line are clean, and so is the line itself.
  unfold startBatch at fits ⊢
  split
  · refine ⟨Int.le_refl _, Int.zero_le_ofNat 1, ?_⟩
    intro i low
    have first : i = 0 := by
      have bound : (i : Int) ≤ 0 := low
      omega
    subst first
    simpa using proper
  · rename_i enclosed
    rw [if_neg enclosed] at fits
    split
    · rename_i stored
      rw [stored] at fits
      cases fits
    · rename_i cmds numCmd stored
      refine ⟨Int.le_refl _, by simp, ?_⟩
      intro i low
      have segments : ∀ cmd ∈ tokens 59 (buf.drop 1).dropLast, 0 ∉ cmd := by
        intro cmd listed member
        exact proper (List.mem_of_mem_drop (List.dropLast_subset _
          (mem_of_mem_tokens listed member)))
      have bound : (i : Int) ≤ (numCmd : Int) - 1 := low
      exact storeCmds_clean _ segments (by omega) stored i (by omega)

/-- The assertion holds in a batch in progress, and a command that is handed out is clean. -/
theorem Batch.Clean.nextCmd (clean : batch.Clean) :
    Ends Apps.nextCmd (fun answer after => ∀ cmd, answer = some cmd → 0 ∉ cmd ∧ after.Clean)
      (fun _ _ => False) batch := by
  have inside : batch.cmdIdx ≥ 0 ∧ batch.cmdIdx ≤ batch.maxIdx + 1 := ⟨clean.started, clean.bounded⟩
  unfold Apps.nextCmd
  rw [ends_bind, ends_get]
  simp only [not_true_eq_false, inside, and_self, if_false]
  split
  · rename_i more
    rw [ends_bind, ends_set, ends_pure]
    intro cmd handed
    have started := clean.started
    rw [← Option.some.inj handed]
    exact ⟨clean.proper _ (by omega), ⟨by simp only; omega, by simp only; omega, clean.proper⟩⟩
  · rw [ends_bind, ends_set, ends_pure]
    intro cmd handed
    cases handed

/-- A call for the next command never fails, and the command is clean. -/
theorem ends_parseBatchCmds (proper : 0 ∉ buf) (ready : batch.cmdIdx = -1 ∨ batch.Clean) :
    Ends (parseBatchCmds buf) (fun answer after => ∀ cmd, answer = some cmd →
      0 ∉ cmd ∧ after.Clean) (fun _ _ => False) batch := by
  unfold parseBatchCmds
  rw [ends_bind, ends_get]
  split
  · rw [ends_bind, ends_get, ends_bind, ends_set]
    split
    · rename_i fits
      exact (startBatch_clean proper fits).nextCmd
    · rw [ends_pure]
      intro cmd handed
      cases handed
  · rename_i busy
    exact (ready.resolve_left busy).nextCmd

/-- A command that the shell gets from a line has no null byte. -/
theorem Extracted.clean {cmd : List UInt8} (proper : 0 ∉ buf) (extracted : Extracted buf cmd batch) :
    0 ∉ cmd ∧ batch.Clean := by
  induction extracted with
  | first idle call => exact (ends_parseBatchCmds proper (Or.inl idle)).ok call _ rfl
  | next _ call ih => exact (ends_parseBatchCmds proper (Or.inr ih.2)).ok call _ rfl

end Batches

end Egos.Apps
