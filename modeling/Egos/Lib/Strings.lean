import Mathlib.Algebra.Group.Int.Defs
import Mathlib.Algebra.Group.Nat.Defs
import Mathlib.Tactic.Common

/-! C strings: bytes in memory up to a null byte, where `none` is a read past the end of memory. -/

namespace Egos

/-- The byte of a space. -/
def space : UInt8 := 32

/-- The bytes of a string of ASCII characters. -/
def ascii (text : String) : List UInt8 := text.toList.map fun c => UInt8.ofNat c.toNat

/-- The number of bytes before the first null byte. -/
def strlen : List UInt8 → Option Nat
  | [] => none
  | c :: memory => if c = 0 then some 0 else (strlen memory).map (· + 1)

/-- Compares at most `n` bytes of two strings, where zero stands for equality. -/
def strncmp : List UInt8 → List UInt8 → Nat → Option Int
  | _, _, 0 => some 0
  | [], _, _ + 1 => none
  | _ :: _, [], _ + 1 => none
  | a :: left, b :: right, n + 1 =>
    if a ≠ b then some ((a.toNat : Int) - b.toNat)
    else if a = 0 then some 0
    else strncmp left right n

/-- Whether a byte is white space: a space, or one of the five bytes from tab on. -/
def isspace (c : UInt8) : Bool := c == space || (9 ≤ c && c ≤ 13)

/-- Whether a byte is a decimal digit. -/
def isdigit (c : UInt8) : Bool := 48 ≤ c && c ≤ 57

/-- The number that a run of digits stands for, after the digits already read. -/
def decimal (digits : List UInt8) : Nat :=
  digits.foldl (fun value c => 10 * value + (c.toNat - 48)) 0

/-- The number at the start of a string, after white space and a sign, kept within 32 bits. -/
def atoi (text : List UInt8) : Int :=
  match text.dropWhile isspace with
  | 45 :: digits => max (-(decimal (digits.takeWhile isdigit) : Int)) (-2 ^ 31)
  | 43 :: digits => min (decimal (digits.takeWhile isdigit)) (2 ^ 31 - 1)
  | digits => min (decimal (digits.takeWhile isdigit)) (2 ^ 31 - 1)

/-- The non-empty runs of bytes between separators, as repeated calls of `strtok` return them. -/
def tokens (separator : UInt8) (text : List UInt8) : List (List UInt8) :=
  (text.splitOn separator).filter (· ≠ [])

/-- A string is as long as its bytes before the null byte. -/
theorem strlen_append {text : List UInt8} (rest : List UInt8) (proper : 0 ∉ text) :
    strlen (text ++ 0 :: rest) = some text.length := by
  induction text with
  | nil => rfl
  | cons c text ih =>
    have nonzero : c ≠ 0 := fun same => proper (by simp [same])
    have later : 0 ∉ text := fun member => proper (by simp [member])
    simp [strlen, nonzero, ih later]

/-- A string compares equal to memory that has a null byte exactly where its bytes stand there. -/
theorem strncmp_eq {name memory : List UInt8} (proper : 0 ∉ name) (ended : 0 ∈ memory) :
    ∃ order, strncmp (name ++ [0]) memory name.length = some order ∧
      (order = 0 ↔ memory.take name.length = name) := by
  -- The comparison stops at the first difference, at the latest at the null byte in memory.
  induction name generalizing memory with
  | nil => exact ⟨0, by simp [strncmp], by simp⟩
  | cons a name ih =>
    have nonzero : a ≠ 0 := fun same => proper (by simp [same])
    have later : 0 ∉ name := fun member => proper (by simp [member])
    cases memory with
    | nil => simp at ended
    | cons b memory =>
      by_cases same : a = b
      · subst same
        have rest : 0 ∈ memory := by
          rcases List.mem_cons.mp ended with zero | rest
          · exact absurd zero.symm nonzero
          · exact rest
        obtain ⟨order, run, equal⟩ := ih later rest
        refine ⟨order, ?_, ?_⟩
        · simp [strncmp, nonzero, run]
        · simp [equal]
      · refine ⟨(a.toNat : Int) - b.toNat, by simp [strncmp, same], ?_⟩
        have apart : a.toNat ≠ b.toNat := fun equal => same (UInt8.toNat_inj.mp equal)
        constructor
        · intro zero
          omega
        · intro equal
          simp only [List.length_cons, List.take_succ_cons, List.cons.injEq] at equal
          exact absurd equal.1.symm same

/-- White space in front of a number does not count. -/
theorem atoi_spaces (gap : Nat) (text : List UInt8) :
    atoi (List.replicate gap space ++ text) = atoi text := by
  induction gap with
  | zero => rfl
  | succ gap ih =>
    rw [List.replicate_succ, List.cons_append, ← ih]
    rfl

/-- A digit lies between the byte of zero and the byte of nine. -/
theorem isdigit_iff {c : UInt8} : isdigit c = true ↔ 48 ≤ c.toNat ∧ c.toNat ≤ 57 := by
  simp [isdigit, UInt8.le_iff_toNat_le]

/-- A digit is no white space. -/
theorem not_isspace_of_isdigit {c : UInt8} (digit : isdigit c) : isspace c = false := by
  have bounds := isdigit_iff.mp digit
  have solid : c ≠ space := by
    rintro rfl
    exact absurd bounds.1 (by decide)
  simp only [isspace, beq_eq_false_iff_ne.mpr solid, Bool.false_or, UInt8.le_iff_toNat_le,
    Bool.and_eq_false_iff, decide_eq_false_iff_not]
  right
  show ¬ c.toNat ≤ 13
  omega

/-- Digits read as the number they stand for, up to the first byte that is no digit. -/
theorem atoi_digits {digits rest : List UInt8} (present : digits ≠ [])
    (decimals : ∀ c ∈ digits, isdigit c) (ended : ∀ c ∈ rest.head?, ¬ isdigit c)
    (small : decimal digits < 2 ^ 31) : atoi (digits ++ rest) = decimal digits := by
  have taken : (digits ++ rest).takeWhile isdigit = digits := by
    rw [List.takeWhile_append_of_pos decimals]
    cases rest with
    | nil => simp
    | cons c rest => simp [ended c (by simp)]
  cases digits with
  | nil => exact absurd rfl present
  | cons c digits =>
    have digit := decimals c (by simp)
    have bounds := isdigit_iff.mp digit
    have start : (c :: digits ++ rest).dropWhile isspace = c :: digits ++ rest := by
      rw [List.cons_append, List.dropWhile_cons_of_neg (by simp [not_isspace_of_isdigit digit])]
    unfold atoi
    rw [start]
    -- The first byte is a digit, so it is no sign.
    split
    · rename_i same
      rw [List.cons_append, List.cons.injEq] at same
      rw [same.1] at bounds
      exact absurd bounds.1 (by decide)
    · rename_i same
      rw [List.cons_append, List.cons.injEq] at same
      rw [same.1] at bounds
      exact absurd bounds.1 (by decide)
    · rw [taken]
      omega

/-- A text without a minus sign never reads as a negative number. -/
theorem atoi_nonneg {text : List UInt8} (unsigned : (45 : UInt8) ∉ text) : 0 ≤ atoi text := by
  unfold atoi
  split
  · rename_i digits start
    have member : (45 : UInt8) ∈ text.dropWhile isspace := by simp [start]
    exact absurd ((List.dropWhile_suffix _).mem member) unsigned
  · omega
  · omega

/-- A run without separators is one token, or none if it is empty. -/
theorem tokens_run {separator : UInt8} {run : List UInt8} (solid : separator ∉ run) :
    tokens separator run = if run = [] then [] else [run] := by
  have whole : run.splitOn separator = [run] := by
    rw [List.splitOn_eq_splitOnP]
    apply List.splitOnP_eq_singleton
    intro c member
    exact beq_eq_false_iff_ne.mpr fun same => solid (same ▸ member)
  rw [tokens, whole]
  split
  · rename_i empty
    simp [empty]
  · rename_i present
    simp [present]

/-- A separator ends the token in front of it. -/
theorem tokens_append_cons {separator : UInt8} {run : List UInt8} (solid : separator ∉ run)
    (rest : List UInt8) :
    tokens separator (run ++ separator :: rest) =
      (if run = [] then [] else [run]) ++ tokens separator rest := by
  have first : (run ++ separator :: rest).splitOn separator =
      run :: rest.splitOn separator := by
    rw [List.splitOn_eq_splitOnP, List.splitOn_eq_splitOnP]
    refine List.splitOnP_append_cons_of_forall_mem ?_ separator (by simp) rest
    intro c member
    exact beq_eq_false_iff_ne.mpr fun same => solid (same ▸ member)
  rw [tokens, first, tokens]
  split
  · rename_i empty
    simp [empty]
  · rename_i present
    simp [present]

/-- A run without separators begins the first token. -/
theorem tokens_first {separator : UInt8} {run : List UInt8} (solid : separator ∉ run)
    (present : run ≠ []) (rest : List UInt8) :
    ∃ more others, tokens separator (run ++ rest) = (run ++ more) :: others := by
  by_cases ended : separator ∈ rest
  · -- The token goes on to the next separator.
    obtain ⟨more, behind, split, clear⟩ := List.eq_append_cons_of_mem ended
    have whole : separator ∉ run ++ more := by simp [solid, clear]
    refine ⟨more, tokens separator behind, ?_⟩
    rw [split, ← List.append_assoc, tokens_append_cons whole, if_neg (by simp [present])]
    rfl
  · have whole : separator ∉ run ++ rest := by simp [solid, ended]
    exact ⟨rest, [], by rw [tokens_run whole, if_neg (by simp [present])]⟩

/-- A text without tokens is empty or ends with a separator. -/
theorem getLast?_of_tokens_eq_nil {separator : UInt8} {text : List UInt8}
    (none : tokens separator text = []) : text = [] ∨ text.getLast? = some separator := by
  -- A first byte that is no separator would start a token.
  induction text with
  | nil => exact Or.inl rfl
  | cons c text ih =>
    right
    by_cases same : c = separator
    · subst same
      have skipped := @tokens_append_cons c [] (by simp) text
      rw [List.nil_append, if_pos rfl, List.nil_append, none] at skipped
      rcases ih skipped.symm with empty | last
      · rw [empty]
        rfl
      · rw [List.getLast?_cons, last]
        rfl
    · have solid : separator ∉ [c] := by simpa using Ne.symm same
      obtain ⟨more, others, split⟩ := tokens_first solid (by simp) text
      rw [List.singleton_append, none] at split
      cases split

/-- A token has no byte that its text does not have. -/
theorem mem_of_mem_tokens {separator c : UInt8} {text token : List UInt8}
    (listed : token ∈ tokens separator text) (member : c ∈ token) : c ∈ text := by
  have piece : token ∈ text.splitOn separator := (List.mem_filter.mp listed).1
  clear listed
  induction text generalizing token with
  | nil =>
    rw [List.splitOn_nil, List.mem_singleton] at piece
    rwa [piece] at member
  | cons d text ih =>
    rw [List.splitOn_cons_eq_if_modifyHead] at piece
    split at piece
    · rcases List.mem_cons.mp piece with empty | later
      · rw [empty] at member
        cases member
      · exact List.mem_cons_of_mem _ (ih member later)
    · -- The byte in front belongs to the first piece.
      cases pieces : text.splitOn separator with
      | nil => exact absurd pieces (List.splitOn_ne_nil _ _)
      | cons head others =>
        rw [pieces, List.modifyHead_cons] at piece
        rcases List.mem_cons.mp piece with first | later
        · rw [first] at member
          rcases List.mem_cons.mp member with same | inside
          · rw [same]
            exact List.mem_cons_self
          · exact List.mem_cons_of_mem _ (ih inside (by rw [pieces]; simp))
        · exact List.mem_cons_of_mem _ (ih member (by rw [pieces]; simp [later]))

/-- A token is not empty. -/
theorem ne_nil_of_mem_tokens {separator : UInt8} {text token : List UInt8}
    (listed : token ∈ tokens separator text) : token ≠ [] := by
  simpa using (List.mem_filter.mp listed).2

/-- A token has no separators. -/
theorem not_mem_of_mem_tokens {separator : UInt8} {text token : List UInt8}
    (listed : token ∈ tokens separator text) : separator ∉ token := by
  -- A token is a piece between two separators.
  have piece : token ∈ text.splitOn separator := (List.mem_filter.mp listed).1
  clear listed
  induction text generalizing token with
  | nil =>
    rw [List.splitOn_nil, List.mem_singleton] at piece
    rw [piece]
    exact List.not_mem_nil
  | cons d text ih =>
    rw [List.splitOn_cons_eq_if_modifyHead] at piece
    split at piece
    · rcases List.mem_cons.mp piece with empty | later
      · rw [empty]
        exact List.not_mem_nil
      · exact ih later
    · rename_i other
      cases pieces : text.splitOn separator with
      | nil => exact absurd pieces (List.splitOn_ne_nil _ _)
      | cons head others =>
        rw [pieces, List.modifyHead_cons] at piece
        rcases List.mem_cons.mp piece with first | later
        · rw [first, List.mem_cons, not_or]
          refine ⟨?_, ih (by rw [pieces]; exact List.mem_cons_self)⟩
          rintro rfl
          simp at other
        · exact ih (by rw [pieces]; exact List.mem_cons_of_mem _ later)

end Egos
