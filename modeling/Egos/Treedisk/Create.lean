import Egos.Treedisk.Write
import Mathlib.Algebra.BigOperators.Intervals
import Mathlib.Algebra.Order.Interval.Finset.SuccPred
import Mathlib.Order.Interval.Multiset

/-! A freshly created file system is consistent, and all of its files are empty. -/

namespace Egos.Treedisk

open Finset

/-- Filling references keeps the earlier ones and numbers the later ones consecutively. -/
theorem fillRefs_word {nblocks : Nat} (narrow : nblocks ≤ 2 ^ 32) (data : Block)
    (i nextFree : Nat) {j : Nat} (bounded : j < refsPerBlock) :
    (fillRefs nblocks data i nextFree).1.word j =
      if j < i then data.word j
      else if nextFree + (j - i) < nblocks then nextFree + (j - i) else 0 := by
  -- A reference is one from before, the one at hand, or a later one.
  fun_induction fillRefs nblocks data i nextFree with
  | case1 data i nextFree inside left ih =>
    rw [ih]
    rcases Nat.lt_trichotomy j i with below | same | above
    · rw [if_pos (by omega), if_pos below,
        Buffer.word_setWord_ne _ _ (ref_inside bounded) (by omega)]
    · subst same
      rw [if_pos (by omega), if_neg (by omega), if_pos (by omega),
        Buffer.word_setWord_same _ _ (ref_inside bounded), Nat.mod_eq_of_lt (by omega)]
      omega
    · rw [show nextFree + 1 + (j - (i + 1)) = nextFree + (j - i) by omega,
        if_neg (show ¬ j < i + 1 by omega), if_neg (show ¬ j < i by omega)]
  | case2 data i nextFree inside left ih =>
    rw [ih]
    rcases Nat.lt_trichotomy j i with below | same | above
    · rw [if_pos (by omega), if_pos below,
        Buffer.word_setWord_ne _ _ (ref_inside bounded) (by omega)]
    · subst same
      rw [if_pos (by omega), if_neg (by omega), if_neg (by omega),
        Buffer.word_setWord_same _ _ (ref_inside bounded), Nat.zero_mod]
    · rw [if_neg (show ¬ j < i + 1 by omega), if_neg (show ¬ j < i by omega),
        if_neg (by omega), if_neg (by omega)]
  | case3 data i nextFree past => rw [if_pos (by omega)]

/-- Filling references consumes one number for each, as long as there are any. -/
theorem fillRefs_next {nblocks : Nat} (data : Block) (i : Nat) {nextFree : Nat}
    (inside : nextFree ≤ nblocks) :
    (fillRefs nblocks data i nextFree).2 = min nblocks (nextFree + (refsPerBlock - i)) := by
  fun_induction fillRefs nblocks data i nextFree with
  | case1 data i nextFree bounded left ih =>
    rw [ih (by omega)]
    omega
  | case2 data i nextFree bounded left ih =>
    rw [ih inside]
    omega
  | case3 data i nextFree past => omega

/-- Consecutive numbers below a limit make up an interval. -/
theorem sum_consecutive (first limit count : Nat) :
    ∑ i ∈ Ico 1 (1 + count), (if first + (i - 1) < limit then {first + (i - 1)} else 0 :
      Multiset Nat) = (Ico first (min limit (first + count))).val := by
  induction count with
  | zero => simp
  | succ count ih =>
    rw [← Nat.add_assoc, sum_Ico_succ_top (by omega), ih, Nat.add_sub_cancel_left]
    split
    · rename_i inside
      rw [Nat.min_eq_right (by omega), Nat.min_eq_right (by omega), ← Nat.add_assoc,
        Nat.Ico_succ_right_eq_insert_Ico (by omega), insert_val_of_notMem right_notMem_Ico,
        add_comm, Multiset.singleton_add]
    · rw [Nat.min_eq_left (by omega), Nat.min_eq_left (by omega), add_zero]

/-- A number, the numbers after it and the numbers before it make up an interval. -/
theorem cons_interval {low middle high : Nat} (above : low ≤ middle) (inside : middle < high) :
    middle ::ₘ ((Ico (middle + 1) high).val + (Ico low middle).val) = (Ico low high).val := by
  have upper : (Ico middle high).val = middle ::ₘ (Ico (middle + 1) high).val := by
    rw [← insert_Ico_add_one_left_eq_Ico inside, insert_val_of_notMem (by simp)]
  rw [← Multiset.cons_add, ← upper, add_comm]
  exact Multiset.Ico_add_Ico_eq_Ico above inside.le

/-- The references filled into a list block are the numbers that were consumed. -/
theorem freeRefs_fillRefs {nblocks nextFree : Nat} (narrow : nblocks ≤ 2 ^ 32) (data : Block)
    (inside : nextFree ≤ nblocks) (positive : 0 < nextFree) :
    freeRefs (fillRefs nblocks data 1 nextFree).1 =
      (Ico nextFree (fillRefs nblocks data 1 nextFree).2).val := by
  rw [fillRefs_next data 1 inside, ← sum_consecutive]
  refine sum_congr rfl fun i member => ?_
  obtain ⟨low, high⟩ := mem_Ico.mp member
  rw [fillRefs_word narrow data 1 nextFree high, if_neg (show ¬ i < 1 by omega)]
  by_cases left : nextFree + (i - 1) < nblocks
  · simp only [if_pos left]
    rw [if_neg (by omega)]
  · simp only [if_neg left, if_true]

/-- What the construction of the free list has done when it has reached a block number. -/
structure Listed (before after : Disk) (low head reached : Nat) (chain : List Nat) : Prop where
  within : before.Within after
  linked : Linked after.blocks head chain
  head : head < reached
  offers : freeBlocks after.blocks chain = (Ico low reached).val
  kept : ∀ x < low, after.blocks x = before.blocks x

/-- The free list of a fresh file system offers every block after the inode blocks. -/
theorem ends_setupFreelistFrom {before : Disk} {low nblocks : Nat} (narrow : nblocks ≤ 2 ^ 32)
    (positive : 0 < low) (data : Block) (head reached : Nat) :
    ∀ {disk : Disk} {chain : List Nat}, disk.nblocks = nblocks → low ≤ reached →
      reached ≤ nblocks → Listed before disk low head reached chain →
      Ends (setupFreelistFrom data head reached nblocks)
        (fun result after => ∃ final, Listed before after low result nblocks final)
        (fun _ _ => False) disk := by
  -- Each round turns the next number into a list block and the following ones into references.
  induction data, head, reached using setupFreelistFrom.induct nblocks with
  | case1 data head reached left filled =>
    rename_i ih
    intro disk chain size above inside listed
    have fill : fillRefs nblocks (data.setWord 0 head) 1 (reached + 1) = filled := rfl
    clear_value filled
    have next : filled.2 = min nblocks (reached + 1 + (refsPerBlock - 1)) := by
      rw [← fill]
      exact fillRefs_next _ 1 (by omega)
    have first : filled.1.word 0 = head := by
      rw [← fill, fillRefs_word narrow _ 1 _ (by decide), if_pos (by decide),
        Buffer.word_setWord_same _ _ (by decide)]
      have := listed.head
      exact Nat.mod_eq_of_lt (by omega)
    have fresh : ∀ x ∈ chain, (disk.put reached filled.1).blocks x = disk.blocks x := by
      intro x member
      have free : x ∈ freeBlocks disk.blocks chain := mem_freeBlocks_of_mem member
      rw [listed.offers] at free
      exact Function.update_of_ne (mem_Ico.mp free).2.ne _ _
    have stored : (disk.put reached filled.1).blocks reached = filled.1 :=
      Function.update_self ..
    rw [setupFreelistFrom, if_pos left]
    simp only [ends_bind, fill]
    rw [ends_writeOrPanic (by omega)]
    refine @ih _ (reached :: chain) size (by omega) (by omega)
      ⟨listed.within.trans (Disk.Within.put _ (by omega)), ?_, by omega, ?_, ?_⟩
    · refine ⟨rfl, by omega, ?_⟩
      rw [stored, first]
      exact listed.linked.congr fresh
    · rw [freeBlocks_cons, stored, freeBlocks_congr fresh, listed.offers,
        ← fill, freeRefs_fillRefs narrow _ (by omega) (by omega), fill]
      exact cons_interval above (by omega)
    · intro x below
      rw [Disk.put_blocks, Function.update_of_ne (by omega)]
      exact listed.kept x below
  | case2 data head reached done =>
    intro disk chain size above inside listed
    rw [setupFreelistFrom, if_neg done, ends_pure]
    obtain rfl : reached = nblocks := by omega
    exact ⟨chain, listed⟩

/-- Emptying inode blocks changes exactly these blocks. -/
theorem ends_clearInodeblocks : ∀ (count first : Nat) {disk : Disk},
    first + count ≤ disk.nblocks →
    Ends (clearInodeblocks first count)
      (fun result after => result = true ∧ disk.Within after ∧ ∀ x, after.blocks x =
        if first ≤ x ∧ x < first + count then nullBlock else disk.blocks x)
      (fun _ _ => False) disk := by
  -- Each round empties the next block.
  intro count
  induction count with
  | zero =>
    intro first disk inside
    simp only [clearInodeblocks, ends_pure]
    refine ⟨trivial, Disk.Within.refl _, fun x => ?_⟩
    rw [if_neg (by omega)]
  | succ count ih =>
    intro first disk inside
    simp only [clearInodeblocks, ends_bind]
    rw [ends_belowWrite (by omega)]
    have fits : first + 1 + count ≤ (disk.put first nullBlock).nblocks := by
      rw [Disk.put_nblocks]
      omega
    refine (ih (first + 1) fits).imp ?_ fun _ _ => id
    rintro result after ⟨done, within, blocks⟩
    refine ⟨done, (Disk.Within.put _ (by omega)).trans within, fun x => ?_⟩
    rw [blocks x, Disk.put_blocks]
    by_cases same : x = first
    · subst same
      rw [if_neg (by omega), Function.update_self, if_pos (by omega)]
    · rw [Function.update_of_ne same]
      by_cases later : first + 1 ≤ x ∧ x < first + 1 + count
      · rw [if_pos later, if_pos (by omega)]
      · rw [if_neg later, if_neg (by omega)]

/-- The number of inode blocks that a creation computes with 32-bit numbers. -/
def inodeblocksFor (ninodes : Nat) : Nat :=
  (ninodes + inodesPerBlock - 1) % 2 ^ 32 / inodesPerBlock

/-- The computed number of inode blocks is small. -/
theorem inodeblocksFor_lt (ninodes : Nat) : inodeblocksFor ninodes < 2 ^ 26 := by
  simp only [inodeblocksFor, inodesPerBlock]
  omega

/-- The superblock of a fresh file system. -/
def freshSuperblock (n free : Nat) : Block := (nullBlock.setWord 0 n).setWord 1 free

/-- A disk whose inode blocks are null has only empty files. -/
theorem empty_inode {n ino : Nat} {blocks : Nat → Block}
    (cleared : ∀ x, 1 ≤ x → x ≤ n → blocks x = nullBlock) (inside : ino < inodesPerBlock * n) :
    inodeSize blocks ino = 0 ∧ inodeRoot blocks ino = 0 := by
  have null := cleared (inodeBlock ino) (Nat.le_add_right 1 _) (inodeBlock_bounds inside).2
  exact ⟨by rw [inodeSize, null, nullBlock_word], by rw [inodeRoot, null, nullBlock_word]⟩

/-- A fresh superblock, empty inode blocks and a full free list are a consistent disk. -/
theorem consistent_fresh {n head : Nat} {disk : Disk} {chain : List Nat} (few : n < 2 ^ 26)
    (room : n + 2 ≤ disk.nblocks) (narrow : disk.nblocks < 2 ^ 32)
    (superblock : disk.blocks 0 = freshSuperblock n head)
    (cleared : ∀ x, 1 ≤ x → x ≤ n → disk.blocks x = nullBlock)
    (linked : Linked disk.blocks head chain) (small : head < 2 ^ 32)
    (offers : freeBlocks disk.blocks chain = (Ico (n + 1) disk.nblocks).val) :
    Consistent n disk chain := by
  -- No inode has a tree, so that all blocks behind the inodes are free.
  have count : nInodeblocks (disk.blocks 0) = n := by
    rw [superblock, nInodeblocks, freshSuperblock, Buffer.word_setWord_ne _ _ (by decide)
      (by decide), Buffer.word_setWord_same _ _ (by decide), Nat.mod_eq_of_lt (by omega)]
  have first : freeList (disk.blocks 0) = head := by
    rw [superblock, freeList, freshSuperblock, Buffer.word_setWord_same _ _ (by decide),
      Nat.mod_eq_of_lt small]
  have trees : ∑ ino ∈ range (inodesPerBlock * n), inodeTree disk.blocks ino = 0 := by
    refine sum_eq_zero fun ino member => ?_
    rw [inodeTree, (empty_inode cleared (mem_range.mp member)).2]
    exact nodes_hole _
  refine ⟨count, few, room, narrow.le, by rw [first]; exact linked, ?_, ?_, ?_, ?_⟩
  · rw [trees, add_zero, offers]
  · intro ino inside o _ _
    rw [inodeData, (empty_inode cleared inside).2]
    exact leaf_hole _ _
  · intro ino inside positive
    exact absurd (empty_inode cleared inside).1 positive.ne'
  · exact fun ino inside _ => (empty_inode cleared inside).2

/-- Creating a file system on a zeroed disk that has room for it gives a consistent disk. -/
theorem ends_treediskCreate (ninodes : Nat) {nblocks : Nat} (narrow : nblocks < 2 ^ 32) :
    Ends (treediskCreate ninodes)
      (fun result after => (Disk.zeroed nblocks).Within after ∧
        (result = -1 ∧ nblocks < inodeblocksFor ninodes + 2 ∨ result = 0 ∧
          (∃ chain, Consistent (inodeblocksFor ninodes) after chain) ∧
          ∀ ino < inodesPerBlock * inodeblocksFor ninodes,
            fileOf after.blocks ino = File.empty))
      (fun _ _ => False) (Disk.zeroed nblocks) := by
  -- The superblock comes first, then the inode blocks, and the rest becomes the free list.
  have few := inodeblocksFor_lt ninodes
  simp only [treediskCreate, ends_bind, ends_get]
  simp only [show (ninodes + inodesPerBlock - 1) % 2 ^ 32 / inodesPerBlock =
    inodeblocksFor ninodes from rfl, show (Disk.zeroed nblocks).nblocks = nblocks from rfl]
  generalize inodeblocksFor ninodes = n at few ⊢
  by_cases tight : nblocks < n + 2
  · simp only [if_pos tight, ends_pure]
    exact ⟨Disk.Within.refl _, Or.inl ⟨trivial, tight⟩⟩
  · have first : 0 < (Disk.zeroed nblocks).nblocks := by
      show 0 < nblocks
      omega
    have fresh : nInodeblocks ((Disk.zeroed nblocks).blocks 0) = 0 := nullBlock_word 0
    simp only [if_neg tight, ends_bind, ends_belowRead first, fresh, if_true]
    have start : Listed (Disk.zeroed nblocks) ((Disk.zeroed nblocks).touch 0) (n + 1) 0 (n + 1)
        [] :=
      ⟨Disk.Within.touch first, rfl, by omega, by simp, fun _ _ => rfl⟩
    refine (ends_setupFreelistFrom narrow.le (Nat.succ_pos n) nullBlock 0 (n + 1) rfl
      (Nat.le_refl _) (by omega) start).imp ?_ fun _ _ => False.elim
    rintro head middle ⟨chain, listed⟩
    have size : middle.nblocks = nblocks := listed.within.size
    rw [ends_belowWrite (by omega)]
    simp only [show ¬ (0 : Int) < 0 by decide, if_false, ends_bind]
    have fits : 1 + n ≤ (middle.put 0 (freshSuperblock n head)).nblocks := by
      rw [Disk.put_nblocks]
      omega
    refine (ends_clearInodeblocks n 1 fits).imp ?_ fun _ _ => id
    rintro result after ⟨rfl, within, blocks⟩
    simp only [Bool.not_true, Bool.false_eq_true, if_false, ends_pure]
    have span : (Disk.zeroed nblocks).Within after :=
      (listed.within.trans (Disk.Within.put _ (by omega))).trans within
    have total : after.nblocks = nblocks := span.size
    have cleared : ∀ x, 1 ≤ x → x ≤ n → after.blocks x = nullBlock := fun x low high => by
      rw [blocks x, if_pos (by omega)]
    have above : ∀ x, n < x → after.blocks x = middle.blocks x := fun x high => by
      rw [blocks x, if_neg (by omega), Disk.put_blocks, Function.update_of_ne (by omega)]
    have superblock : after.blocks 0 = freshSuperblock n head := by
      rw [blocks 0, if_neg (by omega), Disk.put_blocks, Function.update_self]
    have chained : ∀ x ∈ chain, after.blocks x = middle.blocks x := fun x member => by
      have free : x ∈ freeBlocks middle.blocks chain := mem_freeBlocks_of_mem member
      rw [listed.offers] at free
      have bounds : x ∈ Ico (n + 1) nblocks := free
      exact above x (mem_Ico.mp bounds).1
    have headSmall := listed.head
    refine ⟨span, Or.inr ⟨trivial, ⟨chain, ?_⟩, ?_⟩⟩
    · refine consistent_fresh few (by omega) (by omega) superblock cleared
        (listed.linked.congr chained) (by omega) ?_
      rw [freeBlocks_congr chained, listed.offers, total]
    · intro ino inside
      have empty := (empty_inode cleared inside).1
      ext1
      · exact empty
      · funext o
        exact fileOf_past (by omega)

end Egos.Treedisk
