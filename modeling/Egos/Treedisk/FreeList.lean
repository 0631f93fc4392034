import Egos.Lib.Forest
import Egos.Treedisk.Ops
import Mathlib.Order.Interval.Finset.Nat

/-! The linked free list, and what allocating one block from it changes. -/

namespace Egos.Treedisk

open Finset

/-- Every block number passed to the store so far lies inside the store. -/
def Disk.InRange (disk : Disk) : Prop := ∀ b ∈ disk.accesses, b < disk.nblocks

/-- A step that keeps the size of the disk and accesses only blocks of the disk. -/
structure Disk.Within (before after : Disk) : Prop where
  size : after.nblocks = before.nblocks
  range : before.InRange → after.InRange

/-- Doing nothing stays within the disk. -/
theorem Disk.Within.refl (disk : Disk) : disk.Within disk := ⟨rfl, id⟩

/-- Steps within the disk compose. -/
theorem Disk.Within.trans {first second third : Disk} (left : first.Within second)
    (right : second.Within third) : first.Within third :=
  ⟨right.size.trans left.size, fun range => right.range (left.range range)⟩

/-- The disk after one more access to a block. -/
def Disk.touch (disk : Disk) (b : Nat) : Disk := { disk with accesses := b :: disk.accesses }

/-- The disk after storing a block. -/
def Disk.put (disk : Disk) (b : Nat) (block : Block) : Disk :=
  { disk.touch b with blocks := Function.update disk.blocks b block }

@[simp] theorem Disk.touch_blocks (disk : Disk) (b : Nat) : (disk.touch b).blocks = disk.blocks :=
  rfl

@[simp] theorem Disk.touch_nblocks (disk : Disk) (b : Nat) :
    (disk.touch b).nblocks = disk.nblocks := rfl

@[simp] theorem Disk.put_blocks (disk : Disk) (b : Nat) (block : Block) :
    (disk.put b block).blocks = Function.update disk.blocks b block := rfl

@[simp] theorem Disk.put_nblocks (disk : Disk) (b : Nat) (block : Block) :
    (disk.put b block).nblocks = disk.nblocks := rfl

/-- Accessing a block of the disk stays within the disk. -/
theorem Disk.Within.touch {disk : Disk} {b : Nat} (inside : b < disk.nblocks) :
    disk.Within (disk.touch b) := by
  refine ⟨rfl, fun range x member => ?_⟩
  rcases List.mem_cons.mp member with same | member
  · exact same ▸ inside
  · exact range x member

/-- Storing a block of the disk stays within the disk. -/
theorem Disk.Within.put {disk : Disk} {b : Nat} (block : Block) (inside : b < disk.nblocks) :
    disk.Within (disk.put b block) :=
  ⟨rfl, (Disk.Within.touch inside).range⟩

section Primitives

variable {disk : Disk} {b : Nat}

/-- Reading a block of the disk succeeds with its contents. -/
theorem ends_belowRead {returns : Option Block → Disk → Prop} {stops : String → Disk → Prop}
    (inside : b < disk.nblocks) :
    Ends (belowRead b) returns stops disk ↔ returns (some (disk.blocks b)) (disk.touch b) := by
  simp [Ends, belowRead, inside, Disk.touch]

/-- Writing a block of the disk succeeds. -/
theorem ends_belowWrite {returns : Int → Disk → Prop} {stops : String → Disk → Prop}
    {block : Block} (inside : b < disk.nblocks) :
    Ends (belowWrite b block) returns stops disk ↔ returns 0 (disk.put b block) := by
  simp [Ends, belowWrite, inside, Disk.put, Disk.touch]

/-- Writing a block of the disk never panics. -/
theorem ends_writeOrPanic {returns : Unit → Disk → Prop} {stops : String → Disk → Prop}
    {block : Block} {message : String} (inside : b < disk.nblocks) :
    Ends (writeOrPanic b block message) returns stops disk ↔ returns () (disk.put b block) := by
  simp [writeOrPanic, ends_belowWrite inside]

end Primitives

/-- A reference of a block lies inside the block. -/
theorem ref_inside {i : Nat} (bounded : i < refsPerBlock) : 4 * i + 4 ≤ blockSize := by
  simp only [refsPerBlock] at bounded
  simp only [blockSize]
  omega

/-- The free references stored in a free-list block. -/
def freeRefs (block : Block) : Multiset Nat :=
  ∑ i ∈ Ico 1 refsPerBlock, if block.word i = 0 then 0 else {block.word i}

/-- A chain of free-list blocks, linked through their first reference and ended by zero. -/
def Linked (blocks : Nat → Block) : Nat → List Nat → Prop
  | head, [] => head = 0
  | head, x :: rest => head = x ∧ x ≠ 0 ∧ Linked blocks ((blocks x).word 0) rest

/-- The blocks that a chain of free-list blocks offers, the list blocks themselves included. -/
def freeBlocks (blocks : Nat → Block) (chain : List Nat) : Multiset Nat :=
  (chain.map fun x => x ::ₘ freeRefs (blocks x)).sum

section Chains

variable {blocks other : Nat → Block}

@[simp] theorem freeBlocks_nil : freeBlocks blocks [] = 0 := rfl

@[simp] theorem freeBlocks_cons (x : Nat) (rest : List Nat) :
    freeBlocks blocks (x :: rest) = x ::ₘ (freeRefs (blocks x) + freeBlocks blocks rest) := by
  simp [freeBlocks]

/-- The list blocks are among the free blocks. -/
theorem mem_freeBlocks_of_mem {chain : List Nat} {x : Nat} (member : x ∈ chain) :
    x ∈ freeBlocks blocks chain := by
  induction chain with
  | nil => simp at member
  | cons y rest ih =>
    rcases List.mem_cons.mp member with same | member
    · simp [same]
    · simp [ih member]

/-- A chain depends only on the contents of its own blocks. -/
theorem Linked.congr {head : Nat} {chain : List Nat} (linked : Linked blocks head chain)
    (agree : ∀ x ∈ chain, other x = blocks x) : Linked other head chain := by
  induction chain generalizing head with
  | nil => exact linked
  | cons x rest ih =>
    obtain ⟨same, present, tail⟩ := linked
    refine ⟨same, present, ?_⟩
    rw [agree x (by simp)]
    exact ih tail fun y member => agree y (by simp [member])

/-- What a chain offers depends only on the contents of its own blocks. -/
theorem freeBlocks_congr {chain : List Nat} (agree : ∀ x ∈ chain, other x = blocks x) :
    freeBlocks other chain = freeBlocks blocks chain := by
  have same : chain.map (fun x => x ::ₘ freeRefs (other x)) =
      chain.map (fun x => x ::ₘ freeRefs (blocks x)) :=
    List.map_congr_left fun x member => by rw [agree x member]
  rw [freeBlocks, same, freeBlocks]

/-- The reference numbers stored in a free-list block are set ones. -/
theorem zero_notMem_freeRefs (block : Block) : 0 ∉ freeRefs block := by
  simp only [freeRefs, Multiset.mem_sum, not_exists, not_and]
  intro i _
  split
  · simp
  · rename_i present
    simpa using Ne.symm present

/-- The number zero ends the chain and is never offered. -/
theorem zero_notMem_freeBlocks {head : Nat} {chain : List Nat} (linked : Linked blocks head chain) :
    0 ∉ freeBlocks blocks chain := by
  induction chain generalizing head with
  | nil => simp
  | cons x rest ih =>
    obtain ⟨_, present, tail⟩ := linked
    simp [Ne.symm present, zero_notMem_freeRefs, ih tail]

end Chains

/-- A scan that finds nothing has seen only empty references. -/
theorem scanRefs_eq_zero {block : Block} {last : Nat} (none : scanRefs block last = 0) :
    ∀ i, 1 ≤ i → i ≤ last → block.word i = 0 := by
  induction last with
  | zero => intro i positive bounded; omega
  | succ last ih =>
    simp only [scanRefs] at none
    split at none
    · omega
    · rename_i empty
      intro i positive bounded
      rcases Nat.lt_or_ge last i with top | below
      · have : i = last + 1 := by omega
        simpa [this] using empty
      · exact ih none i positive below

/-- A scan that finds something has found a set reference. -/
theorem scanRefs_ne_zero {block : Block} {last : Nat} (found : scanRefs block last ≠ 0) :
    scanRefs block last ≤ last ∧ block.word (scanRefs block last) ≠ 0 := by
  induction last with
  | zero => exact absurd rfl found
  | succ last ih =>
    simp only [scanRefs] at found ⊢
    split
    · rename_i present
      exact ⟨Nat.le_refl _, present⟩
    · rename_i empty
      simp only [empty, if_false] at found
      obtain ⟨bounded, present⟩ := ih found
      exact ⟨by omega, present⟩

/-- A list block without set references offers only itself. -/
theorem freeRefs_eq_zero {block : Block} (empty : scanRefs block (refsPerBlock - 1) = 0) :
    freeRefs block = 0 := by
  refine Finset.sum_eq_zero fun i inside => ?_
  obtain ⟨positive, bounded⟩ := mem_Ico.mp inside
  rw [if_pos (scanRefs_eq_zero empty i positive (by omega))]

/-- Clearing a set reference removes exactly that reference. -/
theorem freeRefs_clear {block : Block} {i : Nat} (positive : 1 ≤ i) (bounded : i < refsPerBlock)
    (present : block.word i ≠ 0) :
    freeRefs block = block.word i ::ₘ freeRefs (block.setWord i 0) := by
  have same : (block.setWord i 0).word i = 0 := by
    rw [Buffer.word_setWord_same _ _ (ref_inside bounded), Nat.zero_mod]
  have exchanged := sum_exchange
    (fun j => if block.word j = 0 then (0 : Multiset Nat) else {block.word j})
    (fun j => if (block.setWord i 0).word j = 0 then (0 : Multiset Nat)
      else {(block.setWord i 0).word j}) (mem_Ico.mpr ⟨positive, bounded⟩) fun j inside other => by
        rw [Buffer.word_setWord_ne _ _ (ref_inside (mem_Ico.mp inside).2) other]
  simp only [same, if_true, add_zero, if_neg present] at exchanged
  unfold freeRefs
  rw [← exchanged, ← Multiset.singleton_add, add_comm]

/-- What a panic for want of free blocks leaves: none, after there were fewer than it asked for. -/
structure Exhausted (before after : Disk) (chain : List Nat) (need : Nat) (message : String) :
    Prop where
  full : message = fullMessage
  within : before.Within after
  empty : freeList (after.blocks 0) = 0
  short : (freeBlocks before.blocks chain).card < need

/-- A panic after some blocks have been taken is a panic of the whole. -/
theorem Exhausted.earlier {before middle after : Disk} {chain rest : List Nat} {need used : Nat}
    {message : String} (exhausted : Exhausted middle after rest need message)
    (within : before.Within middle)
    (taken : (freeBlocks before.blocks chain).card ≤ (freeBlocks middle.blocks rest).card + used) :
    Exhausted before after chain (need + used) message := by
  have short := exhausted.short
  exact ⟨exhausted.full, within.trans exhausted.within, exhausted.empty, by omega⟩

/-- A panic that follows mere reading is a panic from where the reading started. -/
theorem Exhausted.of_same {before middle after : Disk} {chain : List Nat} {need : Nat}
    {message : String} (exhausted : Exhausted middle after chain need message)
    (same : middle.blocks = before.blocks) (within : before.Within middle) :
    Exhausted before after chain need message :=
  ⟨exhausted.full, within.trans exhausted.within, exhausted.empty, same ▸ exhausted.short⟩

/-- A panic for want of few blocks is one for want of more. -/
theorem Exhausted.more {before after : Disk} {chain : List Nat} {need larger : Nat}
    {message : String} (exhausted : Exhausted before after chain need message)
    (le : need ≤ larger) : Exhausted before after chain larger message :=
  ⟨exhausted.full, exhausted.within, exhausted.empty, Nat.lt_of_lt_of_le exhausted.short le⟩

/-- What one successful allocation does to the disk. -/
structure Allocated (before after : Disk) (chain rest : List Nat) (b : Nat) : Prop where
  within : before.Within after
  linked : Linked after.blocks (freeList (after.blocks 0)) rest
  taken : freeBlocks before.blocks chain = b ::ₘ freeBlocks after.blocks rest
  kept : ∀ x, x ≠ 0 → x ∉ freeBlocks after.blocks rest → after.blocks x = before.blocks x
  inodes : nInodeblocks (after.blocks 0) = nInodeblocks (before.blocks 0)

/-- An allocation takes one block off the free list, and panics only on the empty list. -/
theorem ends_treediskAllocBlock {disk : Disk} {snapshot : Snapshot} {chain : List Nat}
    (current : snapshot.superblock = disk.blocks 0)
    (linked : Linked disk.blocks (freeList (disk.blocks 0)) chain)
    (distinct : (freeBlocks disk.blocks chain).Nodup)
    (bounded : ∀ x ∈ freeBlocks disk.blocks chain, x < disk.nblocks) :
    Ends (treediskAllocBlock snapshot)
      (fun result after => ∃ rest, Allocated disk after chain rest result.1 ∧
        result.2 = { snapshot with superblock := after.blocks 0 })
      (fun message after => message = fullMessage ∧ chain = [] ∧ after = disk) disk := by
  cases chain with
  | nil =>
    -- The end of the list is the only place where the allocation panics.
    have empty : freeList snapshot.superblock = 0 := by rw [current]; exact linked
    simp [treediskAllocBlock, empty]
  | cons b rest =>
    obtain ⟨head, present, tail⟩ := linked
    have inside : b < disk.nblocks := bounded b (by simp)
    have first : 0 < disk.nblocks := by omega
    have apart : b ∉ rest := fun member => by
      have : b ∈ freeBlocks disk.blocks rest := mem_freeBlocks_of_mem member
      simp only [freeBlocks_cons, Multiset.nodup_cons, Multiset.mem_add] at distinct
      exact distinct.1 (Or.inr this)
    have nonzero : ∀ x ∈ rest, x ≠ 0 := by
      intro x member same
      exact zero_notMem_freeBlocks tail (same ▸ mem_freeBlocks_of_mem member)
    simp only [treediskAllocBlock, current, head, present, if_false, ends_bind,
      ends_belowRead inside, Option.getD_some]
    by_cases empty : scanRefs (disk.blocks b) (refsPerBlock - 1) = 0
    · -- No reference is left, so the list block itself is handed out.
      simp only [empty, if_true, ends_bind]
      rw [ends_writeOrPanic (by simpa using first), ends_pure]
      have next : freeList ((disk.blocks 0).setWord 1 ((disk.blocks b).word 0)) =
          (disk.blocks b).word 0 := by
        rw [freeList, Buffer.word_setWord_same _ _ (by decide)]
        exact Nat.mod_eq_of_lt (Buffer.word_lt _ _)
      have agree : ∀ x ∈ rest, Function.update disk.blocks 0
          ((disk.blocks 0).setWord 1 ((disk.blocks b).word 0)) x = disk.blocks x :=
        fun x member => Function.update_of_ne (nonzero x member) _ _
      refine ⟨rest, ⟨?_, ?_, ?_, ?_, ?_⟩, by simp⟩
      · exact (Disk.Within.touch inside).trans (Disk.Within.put _ first)
      · simp only [Disk.put_blocks, Disk.touch_blocks, Function.update_self, next]
        exact tail.congr agree
      · simp only [Disk.put_blocks, Disk.touch_blocks, freeBlocks_cons, freeRefs_eq_zero empty,
          zero_add, freeBlocks_congr agree]
      · intro x away _
        simp [Function.update_of_ne away]
      · simp only [Disk.put_blocks, Disk.touch_blocks, Function.update_self]
        exact Buffer.word_setWord_ne _ _ (by decide) (by decide)
    · -- The highest reference is handed out and cleared in the list block.
      obtain ⟨low, set⟩ := scanRefs_ne_zero empty
      simp only [if_neg empty, ends_bind]
      generalize scanRefs (disk.blocks b) (refsPerBlock - 1) = i at empty low set ⊢
      rw [ends_writeOrPanic (by simpa using inside), ends_pure]
      have low : i < refsPerBlock := by simp only [refsPerBlock] at low ⊢; omega
      have agree : ∀ x ∈ rest, Function.update disk.blocks b ((disk.blocks b).setWord i 0) x =
          disk.blocks x := fun x member => by
        refine Function.update_of_ne ?_ _ _
        rintro rfl
        exact apart member
      have zero : Function.update disk.blocks b ((disk.blocks b).setWord i 0) 0 = disk.blocks 0 :=
        Function.update_of_ne (Ne.symm present) _ _
      refine ⟨b :: rest, ⟨?_, ?_, ?_, ?_, ?_⟩, ?_⟩
      · exact (Disk.Within.touch inside).trans (Disk.Within.put _ inside)
      · simp only [Disk.put_blocks, Disk.touch_blocks, zero]
        refine ⟨head, present, ?_⟩
        rw [Function.update_self, Buffer.word_setWord_ne _ _ (by decide) (by omega)]
        exact tail.congr agree
      · simp only [Disk.put_blocks, Disk.touch_blocks, freeBlocks_cons, Function.update_self,
          freeBlocks_congr agree, freeRefs_clear (Nat.pos_of_ne_zero empty) low set,
          Multiset.cons_add]
        exact Multiset.cons_swap _ _ _
      · intro x _ away
        simp only [Disk.put_blocks, Disk.touch_blocks]
        refine Function.update_of_ne ?_ _ _
        rintro rfl
        exact away (by simp)
      · simp only [Disk.put_blocks, Disk.touch_blocks, zero]
      · simp only [Disk.put_blocks, Disk.touch_blocks, zero]
        rw [← current]

/-- An allocation that panics has found the free list empty. -/
theorem exhausted_at_once {disk after : Disk} {chain : List Nat} {message : String}
    (linked : Linked disk.blocks (freeList (disk.blocks 0)) chain)
    (stopped : message = fullMessage ∧ chain = [] ∧ after = disk) :
    Exhausted disk after chain 1 message := by
  obtain ⟨full, rfl, rfl⟩ := stopped
  exact ⟨full, Disk.Within.refl _, linked, by simp⟩

end Egos.Treedisk
