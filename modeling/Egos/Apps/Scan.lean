import Egos.Apps.Directory

/-! Which bytes the lookup of a name in a directory inspects. -/

namespace Egos.Apps

open Treedisk (blockSize)

/-- Memory from the start of the block on: the block, and whatever lies behind it. -/
def memoryOf (buf : List UInt8) (behind : Nat → UInt8) (i : Nat) : UInt8 := buf[i]?.getD (behind i)

/-- Compares a name with memory, and says which bytes are inspected and whether all are equal. -/
def compareFrom (memory : Nat → UInt8) : List UInt8 → Nat → List Nat × Bool
  | [], _ => ([], true)
  | c :: name, i =>
    if memory i = c then (i :: (compareFrom memory name (i + 1)).1,
      (compareFrom memory name (i + 1)).2)
    else ([i], false)

/-- One round of the loop: which bytes it inspects, and whether the name stands there. -/
def scanRound (memory : Nat → UInt8) (name : List UInt8) (i : Nat) : List Nat × Bool :=
  let compared := compareFrom memory name i
  if compared.2 = false then (compared.1, false)
  else if memory (i + name.length) ≠ space then (compared.1 ++ [i + name.length], false)
  else if i = 0 then (compared.1 ++ [i + name.length], true)
  else (compared.1 ++ [i + name.length, i - 1], memory (i - 1) = space)

/-- What the loop does: its rounds, the bytes it inspects, and the place where it finds the name. -/
structure Scan where
  rounds : Nat
  inspected : List Nat
  found : Option Nat

/-- The loop, with the number of rounds that its bound allows for. -/
def scanFrom (memory : Nat → UInt8) (name : List UInt8) : Nat → Nat → Scan
  | 0, _ => ⟨0, [], none⟩
  | left + 1, i =>
    let round := scanRound memory name i
    if round.2 then ⟨1, round.1, some i⟩
    else
      let rest := scanFrom memory name left (i + 1)
      ⟨rest.rounds + 1, round.1 ++ rest.inspected, rest.found⟩

/-- The loop over a block whose text has a length. -/
def scanBlock (buf : List UInt8) (behind : Nat → UInt8) (length : Nat) (name : List UInt8) : Scan :=
  -- The difference is one of 32-bit unsigned numbers.
  scanFrom (memoryOf buf behind) name ((length + 2 ^ 32 - name.length) % 2 ^ 32) 0

/-- The loop ends after at most as many rounds as the text has bytes, and inspects nothing but the
text and its null byte. -/
structure Scan.Inside (scan : Scan) (length : Nat) : Prop where
  rounds : scan.rounds ≤ length
  inspected : ∀ i ∈ scan.inspected, i ≤ length

section Reads

variable {memory : Nat → UInt8} {name : List UInt8} {i : Nat}

/-- A comparison inspects bytes where the name would stand. -/
theorem compareFrom_range : ∀ {name : List UInt8} {i : Nat},
    ∀ k ∈ (compareFrom memory name i).1, i ≤ k ∧ k < i + name.length := by
  -- Each equal byte moves on by one.
  intro name
  induction name with
  | nil =>
    intro i k member
    cases member
  | cons c name ih =>
    intro i k member
    rw [compareFrom] at member
    rw [List.length_cons]
    split at member
    · rcases List.mem_cons.mp member with rfl | later
      · omega
      · have bounds := ih k later
        omega
    · rw [List.mem_singleton.mp member]
      omega

/-- A comparison inspects its first byte. -/
theorem compareFrom_first (some_ : name ≠ []) : i ∈ (compareFrom memory name i).1 := by
  cases name with
  | nil => exact absurd rfl some_
  | cons c name =>
    rw [compareFrom]
    split <;> simp

/-- Bytes compare equal exactly if the name stands in memory. -/
theorem compareFrom_eq : ∀ {name : List UInt8} {i : Nat}, (compareFrom memory name i).2 = true ↔
    ∀ k (_ : k < name.length), memory (i + k) = name[k] := by
  -- The first byte, and then the rest of the name behind it.
  intro name
  induction name with
  | nil => simp [compareFrom]
  | cons c name ih =>
    intro i
    rw [compareFrom]
    by_cases same : memory i = c
    · rw [if_pos same]
      simp only
      rw [ih]
      constructor
      · intro rest k inside
        cases k with
        | zero => exact same
        | succ k =>
          rw [show i + (k + 1) = i + 1 + k by omega]
          exact rest k (by simpa using inside)
      · intro whole k inside
        have next := whole (k + 1) (by simpa using inside)
        rw [show i + (k + 1) = i + 1 + k by omega] at next
        exact next
    · rw [if_neg same]
      simp only [Bool.false_eq_true, false_iff]
      intro whole
      exact same (whole 0 (by simp))

/-- A round inspects the bytes of the name, the one behind them and the one in front. -/
theorem scanRound_range : ∀ k ∈ (scanRound memory name i).1, k ≤ i + name.length := by
  -- The comparison stays in front of the last of these bytes.
  have compared := @compareFrom_range memory name i
  intro k member
  unfold scanRound at member
  simp only at member
  split at member
  · have bounds := compared k member
    omega
  · split at member
    · rcases List.mem_append.mp member with earlier | last
      · have bounds := compared k earlier
        omega
      · exact Nat.le_of_eq (List.mem_singleton.mp last)
    · split at member
      · rcases List.mem_append.mp member with earlier | last
        · have bounds := compared k earlier
          omega
        · exact Nat.le_of_eq (List.mem_singleton.mp last)
      · rcases List.mem_append.mp member with earlier | last
        · have bounds := compared k earlier
          omega
        · simp only [List.mem_cons, List.not_mem_nil, or_false] at last
          rcases last with rfl | rfl
          · exact Nat.le_refl _
          · omega

/-- A loop whose rounds all end inside the text inspects nothing else. -/
theorem scanFrom_inside {length : Nat} : ∀ {left i : Nat}, left + i + name.length ≤ length →
    (scanFrom memory name left i).rounds ≤ left ∧
      ∀ k ∈ (scanFrom memory name left i).inspected, k ≤ length := by
  -- Round by round; the last one ends in front of the null byte.
  intro left
  induction left with
  | zero =>
    intro i _
    exact ⟨Nat.le_refl _, by simp [scanFrom]⟩
  | succ left ih =>
    intro i room
    have here := @scanRound_range memory name i
    obtain ⟨rounds, later⟩ := @ih (i + 1) (by omega)
    rw [scanFrom]
    simp only
    split
    · refine ⟨by simp, fun k member => ?_⟩
      have bound := here k member
      omega
    · refine ⟨by simpa using rounds, fun k member => ?_⟩
      rcases List.mem_append.mp member with first | rest
      · have bound := here k first
        omega
      · exact later k rest

/-- A loop that cannot find the name before the end of the text goes on behind it. -/
theorem scanFrom_outside {length : Nat} (proper : 0 ∉ name) (longer : length < name.length)
    (ended : memory length = 0) : ∀ {rest left i : Nat}, i + rest = length → rest + 1 < left →
    length + 1 ∈ (scanFrom memory name left i).inspected := by
  have some_ : name ≠ [] := by
    rintro rfl
    exact absurd longer (Nat.not_lt_zero _)
  -- A round inside the text fails at the latest at the null byte.
  have fails : ∀ i ≤ length, (scanRound memory name i).2 = false := by
    intro i inside
    have different : (compareFrom memory name i).2 = false := by
      rw [← Bool.not_eq_true, compareFrom_eq]
      intro whole
      have here := whole (length - i) (by omega)
      rw [show i + (length - i) = length by omega, ended] at here
      exact proper (by rw [here]; exact List.getElem_mem _)
    simp [scanRound, different]
  intro rest
  induction rest with
  | zero =>
    intro left i place room
    obtain ⟨more, rfl⟩ := Nat.exists_eq_add_of_lt room
    have reached : i = length := by omega
    subst reached
    -- The round behind the text inspects its first byte in any case.
    have first : i + 1 ∈ (scanRound memory name (i + 1)).1 := by
      have compared := @compareFrom_first memory name (i + 1) some_
      unfold scanRound
      simp only
      split
      · exact compared
      · split
        · exact List.mem_append_left _ compared
        · split <;> exact List.mem_append_left _ compared
    rw [show 0 + 1 + more + 1 = more + 1 + 1 by omega, scanFrom]
    simp only [fails i (Nat.le_refl _), Bool.false_eq_true, if_false]
    apply List.mem_append_right
    rw [scanFrom]
    simp only
    split
    · exact first
    · exact List.mem_append_left _ first
  | succ rest ih =>
    intro left i place room
    obtain ⟨more, rfl⟩ := Nat.exists_eq_add_of_lt (Nat.lt_of_le_of_lt (Nat.zero_le _) room)
    rw [Nat.zero_add, scanFrom]
    simp only [fails i (by omega), Bool.false_eq_true, if_false]
    exact List.mem_append_right _ (ih (by omega) (by omega))

/-- A comparison of strings is one of the bytes in memory. -/
theorem strncmp_compareFrom {order : Int} : ∀ {name todo : List UInt8} {i : Nat}, 0 ∉ name →
    (∀ k (_ : k < todo.length), memory (i + k) = todo[k]) →
    strncmp (name ++ [0]) todo name.length = some order →
    (order = 0 ↔ (compareFrom memory name i).2 = true) := by
  -- Both stop at the first difference.
  intro name
  induction name with
  | nil =>
    intro todo i _ _ run
    rw [List.length_nil, strncmp, Option.some.injEq] at run
    simp [compareFrom, run]
  | cons c name ih =>
    intro todo i proper here run
    rw [List.mem_cons, not_or] at proper
    cases todo with
    | nil => simp [strncmp] at run
    | cons d todo =>
      have first : memory i = d := here 0 (by simp)
      have later : ∀ k (_ : k < todo.length), memory (i + 1 + k) = todo[k] := by
        intro k inside
        have next := here (k + 1) (by simpa using inside)
        rw [show i + (k + 1) = i + 1 + k by omega] at next
        exact next
      rw [List.cons_append, List.length_cons, strncmp] at run
      rw [compareFrom, first]
      by_cases same : c = d
      · rw [if_neg (by simpa using same), if_neg (Ne.symm proper.1)] at run
        rw [if_pos same.symm]
        exact ih proper.2 later run
      · rw [if_pos same, Option.some.injEq] at run
        rw [if_neg (Ne.symm same)]
        have apart : c.toNat ≠ d.toNat := fun equal => same (UInt8.toNat_inj.mp equal)
        simp only [Bool.false_eq_true, iff_false]
        omega

/-- A test that stays inside the block is a round of the loop. -/
theorem matchesAt_scanRound {todo : List UInt8} {before : Option UInt8} {result : Bool}
    (proper : 0 ∉ name) (here : ∀ k (_ : k < todo.length), memory (i + k) = todo[k])
    (front : i ≠ 0 → before = some (memory (i - 1)))
    (tested : matchesAt name i before todo = some result) :
    (scanRound memory name i).2 = result := by
  simp only [matchesAt, Option.bind_eq_bind, Option.bind_eq_some_iff] at tested
  obtain ⟨order, run, tested⟩ := tested
  have equal := strncmp_compareFrom proper here run
  by_cases same : order = 0
  · -- The name stands here, and the bytes around it decide.
    rw [if_neg (not_not.mpr same), Option.bind_eq_some_iff] at tested
    obtain ⟨next, found, decided⟩ := tested
    obtain ⟨inside, place⟩ := List.getElem?_eq_some_iff.mp found
    have behind := here name.length inside
    rw [place] at behind
    rw [← Option.some.inj decided]
    simp only [scanRound, equal.mp same, behind]
    by_cases blank : next = space
    · by_cases first : i = 0
      · simp [blank, first]
      · simp [blank, first, front first]
    · simp [blank]
  · rw [if_pos same] at tested
    have different : (compareFrom memory name i).2 = false := by
      rw [← Bool.not_eq_true]
      exact fun whole => same (equal.mpr whole)
    rw [← Option.some.inj tested]
    simp [scanRound, different]

/-- The loop finds nothing in front of where it starts. -/
theorem scanFrom_found {place : Nat} : ∀ {left i : Nat},
    (scanFrom memory name left i).found = some place → i ≤ place := by
  -- Either this round finds the name, or a later one.
  intro left
  induction left with
  | zero =>
    intro i found
    cases found
  | succ left ih =>
    intro i found
    rw [scanFrom] at found
    simp only at found
    split at found
    · exact Nat.le_of_eq (Option.some.inj found)
    · have later := ih found
      omega

/-- A lookup that stays inside the block reads the number behind the place that the loop finds. -/
theorem lookupFrom_scanFrom {bound : Nat} {result : Int} (proper : 0 ∉ name) :
    ∀ {todo : List UInt8} {i : Nat} {before : Option UInt8},
    (∀ k (_ : k < todo.length), memory (i + k) = todo[k]) →
    (i ≠ 0 → before = some (memory (i - 1))) → lookupFrom name bound i before todo = some result →
    result = ((scanFrom memory name (bound - i) i).found.map fun place =>
      atoi (todo.drop (place - i + name.length))).getD (-1) := by
  -- The lookup goes through memory byte by byte, as the loop does.
  intro todo
  induction todo with
  | nil =>
    intro i before _ _ run
    rw [lookupFrom] at run
    split at run
    · cases run
    · rw [show bound - i = 0 by omega, ← Option.some.inj run]
      rfl
  | cons c todo ih =>
    intro i before here front run
    rw [lookupFrom] at run
    split at run
    · rename_i running
      simp only [Option.bind_eq_bind, Option.bind_eq_some_iff] at run
      obtain ⟨hit, tested, run⟩ := run
      have round := matchesAt_scanRound proper here front tested
      rw [show bound - i = bound - (i + 1) + 1 by omega, scanFrom]
      simp only [round]
      by_cases found : hit
      · rw [if_pos found] at run ⊢
        rw [← Option.some.inj run]
        simp
      · rw [if_neg found] at run ⊢
        have rest := ih (fun k inside => ?_) (fun _ => ?_) run
        · rw [rest]
          congr 1
          apply Option.map_congr
          intro place found
          have later := scanFrom_found found
          rw [show place - i + name.length = place - (i + 1) + name.length + 1 by omega,
            List.drop_succ_cons]
        · have next := here (k + 1) (by simpa using inside)
          rw [show i + (k + 1) = i + 1 + k by omega] at next
          exact next
        · rw [Nat.add_sub_cancel]
          exact congrArg some (here 0 (by simp)).symm
    · rw [show bound - i = 0 by omega, ← Option.some.inj run]
      rfl

end Reads

section Blocks

variable {buf name : List UInt8} {length : Nat}

/-- The text of a block ends with a null byte. -/
theorem strlen_inside : ∀ {buf : List UInt8} {length : Nat},
    strlen buf = some length → length < buf.length ∧ buf[length]? = some 0 := by
  -- Byte by byte up to the null byte.
  intro buf
  induction buf with
  | nil =>
    intro length ended
    cases ended
  | cons c buf ih =>
    intro length ended
    rw [strlen] at ended
    split at ended
    · rename_i zero
      rw [← Option.some.inj ended, zero]
      simp
    · obtain ⟨shorter, rest, rfl⟩ := Option.map_eq_some_iff.mp ended
      obtain ⟨inside, null⟩ := ih rest
      exact ⟨by simpa using inside, by simpa using null⟩

/-- A lookup is the loop over the block, up to the difference of the lengths. -/
theorem dirDoLookup_eq {fileRead : Int → List UInt8} {dirIno : Int}
    (ended : strlen (fileRead dirIno) = some length) (name : List UInt8) :
    dirDoLookup fileRead dirIno name =
      lookupFrom name ((length + 2 ^ 32 - name.length) % 2 ^ 32) 0 none (fileRead dirIno) := by
  unfold dirDoLookup
  simp only [ended, Option.bind_eq_bind, Option.bind_some]

/-- A lookup from the first byte of the block on is what the loop finds. -/
theorem lookupFrom_memoryOf {bound : Nat} {result : Int} (proper : 0 ∉ name)
    (behind : Nat → UInt8) (run : lookupFrom name bound 0 none buf = some result) :
    result = ((scanFrom (memoryOf buf behind) name bound 0).found.map fun place =>
      atoi (buf.drop (place + name.length))).getD (-1) := by
  have here : ∀ k (_ : k < buf.length), memoryOf buf behind (0 + k) = buf[k] := by
    intro k inside
    rw [Nat.zero_add, memoryOf, List.getElem?_eq_getElem inside, Option.getD_some]
  have read := lookupFrom_scanFrom proper here (fun first => absurd rfl first) run
  simp only [Nat.sub_zero] at read
  exact read

/-- A lookup that stays inside the block is what the loop finds, whatever lies behind the block: both
embeddings of the loop, without and with the memory behind, agree where the first has a result. -/
theorem dirDoLookup_scanBlock {fileRead : Int → List UInt8} {dirIno result : Int}
    (ended : strlen (fileRead dirIno) = some length) (proper : 0 ∉ name)
    (behind : Nat → UInt8) (run : dirDoLookup fileRead dirIno name = some result) :
    result = ((scanBlock (fileRead dirIno) behind length name).found.map fun place =>
      atoi ((fileRead dirIno).drop (place + name.length))).getD (-1) := by
  rw [dirDoLookup_eq ended] at run
  rw [scanBlock]
  exact lookupFrom_memoryOf proper behind run

/-- The lookup inspects nothing outside the text exactly for names that are not longer than it. -/
theorem lookup_inspects_text (size : buf.length = blockSize) (ended : strlen buf = some length)
    (proper : 0 ∉ name) (short : name.length ≤ 31) (behind : Nat → UInt8) :
    (scanBlock buf behind length name).Inside length ↔ name.length ≤ length := by
  obtain ⟨inside, null⟩ := strlen_inside ended
  simp only [size, blockSize] at inside
  unfold scanBlock
  constructor
  · intro scanned
    by_contra longer
    -- The difference of the lengths wraps around.
    have last : memoryOf buf behind length = 0 := by rw [memoryOf, null, Option.getD_some]
    have reached := @scanFrom_outside (memoryOf buf behind) name length proper (by omega) last
      length ((length + 2 ^ 32 - name.length) % 2 ^ 32) 0 (Nat.zero_add _)
      (by rw [Nat.mod_eq_of_lt (by omega)]; omega)
    have bound := scanned.inspected _ reached
    omega
  · intro fits
    have bound : (length + 2 ^ 32 - name.length) % 2 ^ 32 = length - name.length := by
      rw [show length + 2 ^ 32 - name.length = length - name.length + 2 ^ 32 by omega,
        Nat.add_mod_right, Nat.mod_eq_of_lt (by omega)]
    rw [bound]
    obtain ⟨rounds, inspected⟩ := @scanFrom_inside (memoryOf buf behind) name length
      (length - name.length) 0 (by omega)
    exact ⟨by omega, inspected⟩

/-- A name is looked up in a text with one entry. -/
theorem lookup_inspects_entry :
    (scanBlock (directoryBlock (ascii "a 1")) (fun _ => 0) 3 (ascii "a")).Inside 3 ↔
      (ascii "a").length ≤ 3 :=
  lookup_inspects_text (by decide +kernel) (by decide +kernel) (by decide +kernel)
    (by decide +kernel) _

/-- A block without text, behind whose null byte an entry is left over. -/
def leftoverBlock : List UInt8 := 0 :: (directoryBlock (ascii " a 1")).dropLast

/-- In a block without text, the lookup finds an entry behind the null byte. -/
theorem lookup_inspects_leftover : leftoverBlock.length = blockSize ∧
    strlen leftoverBlock = some 0 ∧
      ¬ (scanBlock leftoverBlock (fun _ => 0) 0 (ascii "a")).Inside 0 := by
  refine ⟨by decide +kernel, by decide +kernel, fun scanned => ?_⟩
  have reached : 3 ∈ (scanBlock leftoverBlock (fun _ => 0) 0 (ascii "a")).inspected := by
    decide +kernel
  exact absurd (scanned.inspected 3 reached) (by decide)

end Blocks

end Egos.Apps
