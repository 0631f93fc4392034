import Egos.Apps.Shell

/-! The limits of the shell: which commands fit into a request, and which lines into a batch. -/

namespace Egos.Apps

/-- The commands that the argument slots have room for. -/
def Fits (buf : List UInt8) : Prop :=
  (tokens space buf).length ≤ cmdNargs ∧ ∀ token ∈ tokens space buf, token.length < cmdArgLen

instance (buf : List UInt8) : Decidable (Fits buf) := inferInstanceAs (Decidable (_ ∧ _))

/-- A command is accepted exactly if it fits, and then with all of its arguments. -/
structure Limited (buf : List UInt8) : Prop where
  accepts : (parseRequest buf).2.isSome ↔ Fits buf
  counts : ∀ argc, (parseRequest buf).2 = some argc → argc = (tokens space buf).length

section Limits

variable {buf : List UInt8}

/-- Commands that fit are refused only if a space follows the token in the last slot. -/
theorem oversized_iff (buf : List UInt8) : Oversized buf cmdNargs ↔
    ¬ Fits buf ∨ (tokens space buf).length = cmdNargs ∧ buf.getLast? = some space := by
  -- Too long a token and too many tokens are the two ways not to fit.
  unfold Oversized Fits
  constructor
  · rintro (⟨token, member, long⟩ | many | full)
    · exact Or.inl fun fits => Nat.not_lt_of_le long (fits.2 token member)
    · exact Or.inl fun fits => Nat.not_lt_of_le fits.1 many
    · exact Or.inr ⟨full.1.symm, full.2⟩
  · rintro (unfit | full)
    · by_cases few : (tokens space buf).length ≤ cmdNargs
      · left
        by_contra short
        refine unfit ⟨few, fun token member => ?_⟩
        by_contra long
        exact short ⟨token, member, Nat.le_of_not_lt long⟩
      · exact Or.inr (Or.inl (Nat.lt_of_not_le few))
    · exact Or.inr (Or.inr ⟨full.1.symm, full.2⟩)

/-- The limits are kept exactly on commands that do not fill all slots and end in a space. -/
theorem parse_request_limits (buf : List UInt8) : Limited buf ↔
    ¬ (Fits buf ∧ (tokens space buf).length = cmdNargs ∧ buf.getLast? = some space) := by
  -- An accepted command always has the right count, so that only acceptance matters.
  have refused : (parseRequest buf).2.isSome ↔ ¬ Oversized buf cmdNargs := by
    rw [← parseRequest_eq_none, Option.isSome_iff_ne_none, ne_eq]
  rw [oversized_iff] at refused
  constructor
  · intro limited full
    exact refused.mp (limited.accepts.mpr full.1) (Or.inr full.2)
  · intro room
    refine ⟨?_, fun argc accepted => (parseRequest_parsed accepted).count⟩
    rw [refused]
    constructor
    · intro held
      by_contra unfit
      exact held (Or.inl unfit)
    · rintro fits (unfit | full)
      · exact unfit fits
      · exact room ⟨fits, full⟩

/-- Sixteen arguments fit, but not with a space behind the last one. -/
theorem parse_request_trailing_space :
    ¬ Limited ((List.replicate 16 [97, space]).flatten) := by
  intro limited
  -- The space behind the last argument moves on to a slot that does not exist.
  have refused : ¬ (parseRequest (List.replicate 16 [97, space]).flatten).2.isSome := by
    decide +kernel
  exact refused (limited.accepts.mpr (by decide +kernel))

end Limits

/-- No batch is in progress. -/
structure Batch.Idle (batch : Batch) : Prop where
  cmdIdx : batch.cmdIdx = -1
  maxIdx : batch.maxIdx = -1

/-- The commands that calls with a line hand out until there are no more of them. -/
inductive Drained (line : List UInt8) : Batch → List (List UInt8) → Batch → Prop where
  | last {batch after : Batch} (call : parseBatchCmds line batch = .ok none after) :
    Drained line batch [] after
  | more {batch middle after : Batch} {cmd : List UInt8} {cmds : List (List UInt8)}
    (call : parseBatchCmds line batch = .ok (some cmd) middle)
    (rest : Drained line middle cmds after) : Drained line batch (cmd :: cmds) after

/-- The commands that are handed out for lines typed one after the other. -/
inductive Session : Batch → List (List UInt8) → List (List (List UInt8)) → Batch → Prop where
  | quiet {batch : Batch} : Session batch [] [] batch
  | typed {batch middle after : Batch} {line : List UInt8} {lines : List (List UInt8)}
    {cmds : List (List UInt8)} {results : List (List (List UInt8))}
    (first : Drained line batch cmds middle) (rest : Session middle lines results after) :
    Session batch (line :: lines) (cmds :: results) after

/-- A line that the shell can read: its buffer has room for it, and it is not empty. -/
def Typable (line : List UInt8) : Prop := line ≠ [] ∧ line.length ≤ 255

instance (line : List UInt8) : Decidable (Typable line) := inferInstanceAs (Decidable (_ ∧ _))

/-- A line in parentheses. -/
def Enclosed (line : List UInt8) : Prop := line.head? = some 40 ∧ line.getLast? = some 41

instance (line : List UInt8) : Decidable (Enclosed line) := inferInstanceAs (Decidable (_ ∧ _))

/-- The parts of a line in parentheses between its semicolons. -/
def segments (line : List UInt8) : List (List UInt8) := tokens 59 (line.drop 1).dropLast

/-- The commands that a line stands for. -/
def commands (line : List UInt8) : List (List UInt8) :=
  if Enclosed line then segments line else [line]

/-- A batch with more commands than there is room for. -/
def Overlong (line : List UInt8) : Prop := Enclosed line ∧ maxCmds < (segments line).length

instance (line : List UInt8) : Decidable (Overlong line) := inferInstanceAs (Decidable (_ ∧ _))

/-- The rows that the loop over the commands of a batch stores into. -/
def storedRows : List (List UInt8) → Nat → List Nat
  | [], _ => []
  | _ :: rest, numCmd =>
    numCmd :: if numCmd + 1 > maxCmds then [] else storedRows rest (numCmd + 1)

section Batches

variable {line : List UInt8} {batch after : Batch} {cmds : Nat → List UInt8} {numCmd : Nat}

/-- The loop stores into no other rows. -/
theorem storeCmds_frame {row : Nat} : ∀ {segments : List (List UInt8)} {numCmd : Nat}
    {cmds : Nat → List UInt8}, row ∉ storedRows segments numCmd →
    (storeCmds segments numCmd cmds).1 row = cmds row := by
  -- One command after the other is stored in a row of its own.
  intro segments
  induction segments with
  | nil => exact fun _ => rfl
  | cons cmd rest ih =>
    intro numCmd cmds elsewhere
    simp only [storedRows, List.mem_cons, not_or] at elsewhere
    obtain ⟨other, later⟩ := elsewhere
    simp only [storeCmds]
    split
    · exact Function.update_of_ne other ..
    · rename_i room
      rw [if_neg room] at later
      rw [ih later]
      exact Function.update_of_ne other ..

/-- What the loop stores into a row does not depend on what the row held before. -/
theorem storeCmds_stored {row : Nat} : ∀ {segments : List (List UInt8)} {numCmd : Nat}
    {cmds other : Nat → List UInt8}, row ∈ storedRows segments numCmd →
    (storeCmds segments numCmd cmds).1 row = (storeCmds segments numCmd other).1 row := by
  -- A row that is not stored into later on is that of the command at hand.
  intro segments
  induction segments with
  | nil =>
    intro numCmd cmds other member
    cases member
  | cons cmd rest ih =>
    intro numCmd cmds other member
    rw [storedRows, List.mem_cons] at member
    simp only [storeCmds]
    split at member
    · rename_i full
      have here : row = numCmd := member.resolve_right List.not_mem_nil
      rw [if_pos full, if_pos full, here]
      change Function.update cmds numCmd cmd numCmd = Function.update other numCmd cmd numCmd
      rw [Function.update_self, Function.update_self]
    · rename_i room
      rw [if_neg room, if_neg room]
      by_cases later : row ∈ storedRows rest (numCmd + 1)
      · exact ih later
      · have here : row = numCmd := member.resolve_right later
        rw [storeCmds_frame later, storeCmds_frame later, here, Function.update_self,
          Function.update_self]

/-- Commands that there is room for are stored one behind the other. -/
theorem storeCmds_fits : ∀ {segments : List (List UInt8)} {numCmd : Nat}
    {cmds : Nat → List UInt8}, numCmd + segments.length ≤ maxCmds →
    (storeCmds segments numCmd cmds).2 = some (numCmd + segments.length) ∧
    (∀ i (_ : i < segments.length),
      (storeCmds segments numCmd cmds).1 (numCmd + i) = segments[i]) ∧
    ∀ row < numCmd, (storeCmds segments numCmd cmds).1 row = cmds row := by
  -- Each command comes to the row behind those that are stored already.
  intro segments
  induction segments with
  | nil => exact fun _ => ⟨rfl, by simp, fun _ _ => rfl⟩
  | cons cmd rest ih =>
    intro numCmd cmds room
    simp only [List.length_cons] at room ⊢
    obtain ⟨count, stored, kept⟩ := @ih (numCmd + 1) (Function.update cmds numCmd cmd) (by omega)
    simp only [storeCmds]
    rw [if_neg (by omega)]
    refine ⟨by rw [count]; congr 1; omega, ?_, ?_⟩
    · intro i inside
      cases i with
      | zero => exact (kept numCmd (by omega)).trans (Function.update_self ..)
      | succ i =>
        have next := stored i (by omega)
        rw [show numCmd + 1 + i = numCmd + (i + 1) by omega] at next
        rw [next]
        rfl
    · intro row below
      rw [kept row (by omega), Function.update_of_ne (by omega)]

/-- The loop stores into the row behind the last one at most. -/
theorem storedRows_le {row : Nat} : ∀ {segments : List (List UInt8)} {numCmd : Nat},
    numCmd ≤ maxCmds → row ∈ storedRows segments numCmd → row ≤ maxCmds := by
  -- The loop ends with the command that is one too many.
  intro segments
  induction segments with
  | nil =>
    intro numCmd _ member
    cases member
  | cons cmd rest ih =>
    intro numCmd few member
    rw [storedRows, List.mem_cons] at member
    rcases member with rfl | later
    · exact few
    · split at later
      · cases later
      · exact ih (by omega) later

/-- Too many commands are given up, behind the row that does not exist. -/
theorem storeCmds_over : ∀ {segments : List (List UInt8)} {numCmd : Nat}
    {cmds : Nat → List UInt8}, numCmd ≤ maxCmds → maxCmds < numCmd + segments.length →
    (storeCmds segments numCmd cmds).2 = none ∧ maxCmds ∈ storedRows segments numCmd := by
  -- The loop goes on until it has stored one command too many.
  intro segments
  induction segments with
  | nil =>
    intro numCmd cmds few exceeds
    simp only [List.length_nil] at exceeds
    omega
  | cons cmd rest ih =>
    intro numCmd cmds few exceeds
    simp only [List.length_cons] at exceeds
    simp only [storeCmds, storedRows, List.mem_cons]
    split
    · rename_i full
      exact ⟨rfl, Or.inl (by omega)⟩
    · rename_i room
      obtain ⟨rejected, stored⟩ :=
        @ih (numCmd + 1) (Function.update cmds numCmd cmd) (by omega) (by omega)
      exact ⟨rejected, Or.inr stored⟩

/-- A line that is not in parentheses is a batch of one command. -/
theorem startBatch_plain (plain : ¬ Enclosed line) :
    startBatch line batch = (⟨Function.update batch.cmds 0 line, 0, 0⟩, true) := by
  -- One of the two parentheses is missing.
  unfold startBatch
  rw [if_pos (by rw [← Decidable.not_and_iff_not_or_not]; exact plain)]

/-- The commands of a line in parentheses become the batch, if there is room for them. -/
theorem startBatch_fits (enclosed : Enclosed line) {count : Nat}
    (stored : (storeCmds (segments line) 0 batch.cmds).2 = some count) :
    startBatch line batch =
      (⟨(storeCmds (segments line) 0 batch.cmds).1, 0, count - 1⟩, true) := by
  -- The loop has counted the commands.
  unfold startBatch
  rw [if_neg (by rw [← Decidable.not_and_iff_not_or_not, not_not]; exact enclosed)]
  rw [segments] at stored ⊢
  cases run : storeCmds (tokens 59 (line.drop 1).dropLast) 0 batch.cmds with
  | mk cmds result =>
    rw [run] at stored
    cases stored
    rfl

/-- The indices of the batch stay as they were, if there is no room for all commands. -/
theorem startBatch_over (enclosed : Enclosed line)
    (stored : (storeCmds (segments line) 0 batch.cmds).2 = none) :
    startBatch line batch =
      ({ batch with cmds := (storeCmds (segments line) 0 batch.cmds).1 }, false) := by
  -- The loop has given up.
  unfold startBatch
  rw [if_neg (by rw [← Decidable.not_and_iff_not_or_not, not_not]; exact enclosed)]
  rw [segments] at stored ⊢
  cases run : storeCmds (tokens 59 (line.drop 1).dropLast) 0 batch.cmds with
  | mk cmds result =>
    rw [run] at stored
    cases stored
    rfl

/-- In a batch, the next call hands out the next command. -/
theorem parseBatchCmds_more (started : 0 ≤ batch.cmdIdx) (more : batch.cmdIdx ≤ batch.maxIdx) :
    parseBatchCmds line batch =
      .ok (some (batch.cmds batch.cmdIdx.toNat)) { batch with cmdIdx := batch.cmdIdx + 1 } := by
  -- The assertion holds, and there is a command left.
  have busy : ¬ batch.cmdIdx = -1 := by omega
  have inside : batch.cmdIdx ≥ 0 ∧ batch.cmdIdx ≤ batch.maxIdx + 1 := ⟨started, by omega⟩
  rw [parseBatchCmds, get_bind, if_neg busy, nextCmd, get_bind, if_neg (not_not.mpr inside),
    if_pos more]
  rfl

/-- Behind its last command, the next call ends the batch. -/
theorem parseBatchCmds_last (started : 0 ≤ batch.cmdIdx)
    (ended : batch.cmdIdx = batch.maxIdx + 1) :
    parseBatchCmds line batch = .ok none { batch with cmdIdx := -1, maxIdx := -1 } := by
  -- The assertion holds here as well.
  have busy : ¬ batch.cmdIdx = -1 := by omega
  have inside : batch.cmdIdx ≥ 0 ∧ batch.cmdIdx ≤ batch.maxIdx + 1 := ⟨started, by omega⟩
  have none : ¬ batch.cmdIdx ≤ batch.maxIdx := by omega
  rw [parseBatchCmds, get_bind, if_neg busy, nextCmd, get_bind, if_neg (not_not.mpr inside),
    if_neg none]
  rfl

/-- Handing out a command stores none. -/
theorem nextCmd_cmds (batch : Batch) :
    Ends nextCmd (fun _ after => after.cmds = batch.cmds) (fun _ _ => True) batch := by
  -- Only the indices change.
  unfold nextCmd
  rw [ends_bind, ends_get]
  split
  · trivial
  · split
    · rw [ends_bind, ends_set, ends_pure]
    · rw [ends_bind, ends_set, ends_pure]

/-- Between batches, the first call starts the next one. -/
theorem parseBatchCmds_idle (idle : batch.Idle) :
    parseBatchCmds line batch = if (startBatch line batch).2 then
      nextCmd (startBatch line batch).1 else .ok none (startBatch line batch).1 := by
  -- The call looks at the line only if no batch is in progress.
  rw [parseBatchCmds, get_bind, if_pos idle.cmdIdx, get_bind]
  cases startBatch line batch with
  | mk next fits => cases fits <;> rfl

/-- The commands that are left of a batch are handed out in order, and then the batch ends. -/
theorem drained_rest : ∀ {rest : List (List UInt8)} {batch : Batch}, 0 ≤ batch.cmdIdx →
    batch.cmdIdx + rest.length = batch.maxIdx + 1 →
    (∀ i (_ : i < rest.length), batch.cmds (batch.cmdIdx.toNat + i) = rest[i]) →
    Drained line batch rest { batch with cmdIdx := -1, maxIdx := -1 } := by
  -- Every call takes one command from the front of the rest.
  intro rest
  induction rest with
  | nil =>
    intro batch started ended _
    exact .last (parseBatchCmds_last started (by simpa using ended))
  | cons cmd rest ih =>
    intro batch started ended stored
    simp only [List.length_cons] at ended
    have call := @parseBatchCmds_more line batch started (by omega)
    have here := stored 0 (by simp)
    rw [Nat.add_zero] at here
    rw [here] at call
    refine .more call (@ih { batch with cmdIdx := batch.cmdIdx + 1 } ?_ ?_ ?_)
    · simp only
      omega
    · simp only
      omega
    · intro i inside
      have next := stored (i + 1) (by simpa using inside)
      simp only
      rw [show (batch.cmdIdx + 1).toNat + i = batch.cmdIdx.toNat + (i + 1) by omega, next]
      rfl

/-- What repeated calls hand out is determined by the line and the batch. -/
theorem Drained.unique {first second : List (List UInt8)} {left right : Batch}
    (one : Drained line batch first left) (other : Drained line batch second right) :
    first = second ∧ left = right := by
  -- Both go through the same calls.
  induction one generalizing second right with
  | last call =>
    cases other with
    | last again =>
      rw [call] at again
      exact ⟨rfl, (EStateM.Result.ok.inj again).2⟩
    | more again _ =>
      rw [call] at again
      cases (EStateM.Result.ok.inj again).1
  | more call _ ih =>
    cases other with
    | last again =>
      rw [call] at again
      cases (EStateM.Result.ok.inj again).1
    | more again rest =>
      rw [call] at again
      obtain ⟨same, next⟩ := EStateM.Result.ok.inj again
      rw [← next] at rest
      obtain ⟨cmds, finals⟩ := ih rest
      exact ⟨by rw [Option.some.inj same, cmds], finals⟩

/-- A line that fits is handed out command by command. -/
theorem drained_commands (idle : batch.Idle) (fits : ¬ Overlong line) :
    ∃ after, after.Idle ∧ Drained line batch (commands line) after := by
  -- The first call starts the batch, and goes on like any other call of the batch.
  have joins : ∀ {rest : List (List UInt8)} {middle : Batch},
      startBatch line batch = (middle, true) → 0 ≤ middle.cmdIdx →
      Drained line middle rest { middle with cmdIdx := -1, maxIdx := -1 } →
      Drained line batch rest { middle with cmdIdx := -1, maxIdx := -1 } := by
    intro rest middle start busy drained
    have first : parseBatchCmds line batch = parseBatchCmds line middle := by
      have going : ¬ middle.cmdIdx = -1 := by omega
      rw [parseBatchCmds_idle idle, start]
      rw [parseBatchCmds, get_bind, if_neg going]
      rfl
    cases drained with
    | last call => exact .last (first.trans call)
    | more call rest => exact .more (first.trans call) rest
  unfold commands
  by_cases enclosed : Enclosed line
  · rw [if_pos enclosed]
    have room : 0 + (segments line).length ≤ maxCmds := by
      by_contra exceeds
      exact fits ⟨enclosed, by omega⟩
    obtain ⟨count, stored, -⟩ := @storeCmds_fits (segments line) 0 batch.cmds room
    rw [Nat.zero_add] at count
    refine ⟨_, ⟨rfl, rfl⟩, joins (startBatch_fits enclosed count) (Int.le_refl _)
      (drained_rest (Int.le_refl _) ?_ stored)⟩
    simp only
    omega
  · rw [if_neg enclosed]
    refine ⟨_, ⟨rfl, rfl⟩, joins (startBatch_plain enclosed) (Int.le_refl _)
      (drained_rest (Int.le_refl _) rfl ?_)⟩
    intro i inside
    have first : i = 0 := Nat.lt_one_iff.mp inside
    subst first
    exact Function.update_self 0 line batch.cmds

/-- A line with too many commands is given up, and leaves no batch behind. -/
theorem drained_overlong (idle : batch.Idle) (exceeds : Overlong line) :
    ∃ after, after.Idle ∧ Drained line batch [] after := by
  -- The first call returns before it updates the indices.
  obtain ⟨stored, -⟩ := @storeCmds_over (segments line) 0 batch.cmds (Nat.zero_le _)
    (by rw [Nat.zero_add]; exact exceeds.2)
  refine ⟨{ batch with cmds := (storeCmds (segments line) 0 batch.cmds).1 },
    ⟨idle.cmdIdx, idle.maxIdx⟩, .last ?_⟩
  rw [parseBatchCmds_idle idle, startBatch_over exceeds.1 stored]
  rfl

/-- The calls for a line leave no batch behind. -/
theorem Drained.idle {cmds : List (List UInt8)} (drained : Drained line batch cmds after)
    (idle : batch.Idle) : after.Idle := by
  -- Both kinds of lines end with an idle parser.
  by_cases exceeds : Overlong line
  · obtain ⟨final, ended, calls⟩ := drained_overlong idle exceeds
    rw [(drained.unique calls).2]
    exact ended
  · obtain ⟨final, ended, calls⟩ := drained_commands idle exceeds
    rw [(drained.unique calls).2]
    exact ended

/-- Whatever lines were typed, no batch is left behind. -/
theorem Session.idle {lines : List (List UInt8)} {results : List (List (List UInt8))}
    (session : Session batch lines results after) (idle : batch.Idle) : after.Idle := by
  -- Line by line.
  induction session with
  | quiet => exact idle
  | typed first _ ih => exact ih (first.idle idle)

/-- Lines that fit run command by command, in order, each once, and independently of each other. -/
theorem lines_run_in_order (idle : batch.Idle) {lines : List (List UInt8)}
    (typed : ∀ line ∈ lines, Typable line ∧ ¬ Overlong line) :
    ∃ after, after.Idle ∧ ∀ results final,
      Session batch lines results final ↔ results = lines.map commands ∧ final = after := by
  -- Each line starts from an idle parser and leaves an idle one for the next line.
  induction lines generalizing batch with
  | nil =>
    refine ⟨batch, idle, fun results final => ⟨fun session => ?_, ?_⟩⟩
    · cases session
      exact ⟨rfl, rfl⟩
    · rintro ⟨rfl, rfl⟩
      exact .quiet
  | cons line lines ih =>
    obtain ⟨middle, quiet, calls⟩ := drained_commands idle (typed line (by simp)).2
    obtain ⟨after, ended, sessions⟩ := ih quiet fun other member => typed other (by simp [member])
    refine ⟨after, ended, fun results final => ⟨fun session => ?_, ?_⟩⟩
    · cases session with
      | typed first rest =>
        obtain ⟨same, next⟩ := first.unique calls
        rw [next] at rest
        obtain ⟨others, last⟩ := (sessions _ _).mp rest
        exact ⟨by rw [same, others]; rfl, last⟩
    · rintro ⟨rfl, rfl⟩
      exact .typed calls ((sessions _ _).mpr ⟨rfl, rfl⟩)

/-- The static variables before the first line. -/
def Batch.initial : Batch := ⟨fun _ => [], -1, -1⟩

/-- A batch with an empty part between its two commands, and then a line without parentheses. -/
theorem lines_run_two : ∃ after : Batch, after.Idle ∧ ∀ results final,
    Session .initial [[40, 97, 59, 59, 98, 41], [97]] results final ↔
      results = [[40, 97, 59, 59, 98, 41], [97]].map commands ∧ final = after :=
  lines_run_in_order ⟨rfl, rfl⟩ (by decide +kernel)

/-- The rows that a call between batches stores into. -/
def lineRows (line : List UInt8) : List Nat :=
  if Enclosed line then storedRows (segments line) 0 else [0]

/-- A call between batches leaves the commands as the line sets them. -/
theorem cmds_of_call (idle : batch.Idle) {answer : Option (List UInt8)}
    (call : parseBatchCmds line batch = .ok answer after) :
    after.cmds = (startBatch line batch).1.cmds := by
  -- Handing out the first command stores nothing.
  rw [parseBatchCmds_idle idle] at call
  split at call
  · exact (nextCmd_cmds _).ok call
  · rw [← (EStateM.Result.ok.inj call).2]

/-- The commands between batches are those that the loop stores, or the line itself. -/
theorem startBatch_cmds (line : List UInt8) (batch : Batch) : (startBatch line batch).1.cmds =
    if Enclosed line then (storeCmds (segments line) 0 batch.cmds).1
    else Function.update batch.cmds 0 line := by
  by_cases enclosed : Enclosed line
  · rw [if_pos enclosed]
    cases count : (storeCmds (segments line) 0 batch.cmds).2 with
    | none => rw [startBatch_over enclosed count]
    | some count' => rw [startBatch_fits enclosed count]
  · rw [if_neg enclosed, startBatch_plain enclosed]

/-- A call between batches stores into the rows of its line and no others: what these hold
afterwards does not depend on what they held before, and any other row holds what it held. -/
theorem lineRows_stored {row : Nat} (idle : batch.Idle) {answer : Option (List UInt8)}
    (call : parseBatchCmds line batch = .ok answer after) :
    (row ∈ lineRows line → ∀ {other later : Batch} {reply : Option (List UInt8)}, other.Idle →
      parseBatchCmds line other = .ok reply later → after.cmds row = later.cmds row) ∧
    (row ∉ lineRows line → after.cmds row = batch.cmds row) := by
  -- Only the loop over the segments, or the one assignment in its place, stores commands.
  unfold lineRows
  rw [cmds_of_call idle call, startBatch_cmds]
  constructor
  · intro member other later reply quiet again
    rw [cmds_of_call quiet again, startBatch_cmds]
    by_cases enclosed : Enclosed line
    · rw [if_pos enclosed] at member
      rw [if_pos enclosed, if_pos enclosed]
      exact storeCmds_stored member
    · rw [if_neg enclosed, List.mem_singleton] at member
      rw [if_neg enclosed, if_neg enclosed, member, Function.update_self, Function.update_self]
  · intro elsewhere
    by_cases enclosed : Enclosed line
    · rw [if_pos enclosed] at elsewhere ⊢
      exact storeCmds_frame elsewhere
    · rw [if_neg enclosed, List.mem_singleton] at elsewhere
      rw [if_neg enclosed]
      exact Function.update_of_ne elsewhere ..

/-- A line with too many commands is rejected without a trace: only existing rows are stored into,
no command is handed out and no batch is left behind. -/
structure RejectedCleanly (line : List UInt8) (batch : Batch) : Prop where
  rows : ∀ row ∈ lineRows line, row < maxCmds
  quiet : ∃ after : Batch, parseBatchCmds line batch = .ok none after ∧ after.Idle

/-- No line with too many commands is rejected without a trace, whatever was typed before: the
first command too many is stored behind the last row. Nothing else goes wrong. -/
theorem overlong_stores_outside {start : Batch} (idle : start.Idle) {lines : List (List UInt8)}
    {results : List (List (List UInt8))} (earlier : Session start lines results batch)
    (exceeds : Overlong line) : ¬ RejectedCleanly line batch ∧
      (∀ row ∈ lineRows line, row ≤ maxCmds) ∧
      ∃ after : Batch, parseBatchCmds line batch = .ok none after ∧ after.Idle := by
  have rows : lineRows line = storedRows (segments line) 0 := if_pos exceeds.1
  obtain ⟨after, ended, calls⟩ := drained_overlong (earlier.idle idle) exceeds
  refine ⟨fun clean => ?_, fun row member => ?_, after, ?_, ended⟩
  · -- The loop has stored the command that is one too many.
    obtain ⟨-, stored⟩ := @storeCmds_over (segments line) 0 batch.cmds (Nat.zero_le _)
      (by rw [Nat.zero_add]; exact exceeds.2)
    exact Nat.lt_irrefl _ (clean.rows maxCmds (by rw [rows]; exact stored))
  · rw [rows] at member
    exact storedRows_le (Nat.zero_le _) member
  · cases calls with
    | last call => exact call

/-- Eleven commands in a batch. -/
def elevenCommands : List UInt8 := 40 :: (List.replicate 10 [97, 59]).flatten ++ [97, 41]

/-- The eleventh command is stored behind the last row. -/
theorem eleven_commands_outside : ¬ RejectedCleanly elevenCommands .initial := by
  intro clean
  have outside : maxCmds ∈ lineRows elevenCommands := by decide +kernel
  exact Nat.lt_irrefl _ (clean.rows maxCmds outside)

/-- The same after a line that was accepted. -/
theorem eleven_commands_later : ∃ batch, ¬ RejectedCleanly elevenCommands batch ∧
    (∀ row ∈ lineRows elevenCommands, row ≤ maxCmds) ∧
      ∃ after : Batch, parseBatchCmds elevenCommands batch = .ok none after ∧ after.Idle := by
  obtain ⟨after, ended, calls⟩ := @drained_commands [97] .initial ⟨rfl, rfl⟩ (by decide +kernel)
  exact ⟨after, @overlong_stores_outside elevenCommands after .initial ⟨rfl, rfl⟩ [[97]] _
    (.typed calls .quiet) (by decide +kernel)⟩

end Batches

end Egos.Apps
