import Egos.Treedisk.FreeList

/-! Walking a file's tree down to one offset, for reading and for writing. -/

namespace Egos.Treedisk

open Finset

/-- The blocks of the tree of a given height below a root reference. -/
def treeBlocks (blocks : Nat → Block) (height root : Nat) : Multiset Nat :=
  nodes Buffer.word refsPerBlock blocks height root

/-- The data block that holds an offset in a tree, or zero in a hole. -/
def dataBlock (blocks : Nat → Block) (offset height root : Nat) : Nat :=
  leaf Buffer.word refsPerBlock blocks offset height root

/-- What a tree holds at an offset, where a hole holds null bytes. -/
def contents (blocks : Nat → Block) (offset height root : Nat) : Block :=
  if dataBlock blocks offset height root = 0 then nullBlock
  else blocks (dataBlock blocks offset height root)

/-- The index that an offset selects in an indirect block above trees of the given height. -/
def indexAt (offset height : Nat) : Nat := offset / refsPerBlock ^ height % refsPerBlock

/-- An index selects a reference inside the block. -/
theorem indexAt_lt (offset height : Nat) : indexAt offset height < refsPerBlock :=
  Nat.mod_lt _ (by decide)

/-- The source's shift of a 32-bit offset selects the same digit as a division. -/
theorem logShiftR_eq {x : Nat} (small : x < 2 ^ 32) (height : Nat) :
    logShiftR x (height * logRpb) = x / refsPerBlock ^ height := by
  have power : refsPerBlock ^ height = 2 ^ (height * logRpb) := by
    rw [Nat.mul_comm, Nat.pow_mul]
    rfl
  rw [power]
  unfold logShiftR
  split
  · rename_i wide
    exact (Nat.div_eq_of_lt (Nat.lt_of_lt_of_le small (Nat.pow_le_pow_right (by decide) wide))).symm
  · exact Nat.shiftRight_eq_div_pow _ _

/-- The null block references nothing. -/
@[simp] theorem nullBlock_word (i : Nat) : nullBlock.word i = 0 := Buffer.word_zero _ _

/-- Two offsets that agree below a level and at the level's digit agree below the next level. -/
theorem mod_pow_succ_inj {o offset height : Nat} (digit : indexAt o height = indexAt offset height)
    (below : o % refsPerBlock ^ height = offset % refsPerBlock ^ height) :
    o % refsPerBlock ^ (height + 1) = offset % refsPerBlock ^ (height + 1) := by
  rw [Nat.mod_pow_succ, Nat.mod_pow_succ, below]
  unfold indexAt at digit
  rw [digit]

/-- A present indirect block passes an offset to one of its references. -/
theorem dataBlock_inner {blocks : Nat → Block} {root : Nat} (offset height : Nat)
    (present : root ≠ 0) :
    dataBlock blocks offset (height + 1) root =
      dataBlock blocks offset height ((blocks root).word (indexAt offset height)) :=
  leaf_inner offset height present

/-- A present indirect block holds at an offset what the selected reference holds there. -/
theorem contents_inner {blocks : Nat → Block} {root : Nat} (offset height : Nat)
    (present : root ≠ 0) :
    contents blocks offset (height + 1) root =
      contents blocks offset height ((blocks root).word (indexAt offset height)) := by
  simp only [contents, dataBlock_inner offset height present]

/-- A hole holds null bytes. -/
@[simp] theorem contents_hole (blocks : Nat → Block) (offset height : Nat) :
    contents blocks offset height 0 = nullBlock := by
  rw [contents, dataBlock, leaf_hole, if_pos rfl]

/-- What a tree holds depends only on its own blocks. -/
theorem contents_congr {blocks other : Nat → Block} (offset height root : Nat)
    (agree : ∀ x ∈ treeBlocks blocks height root, blocks x = other x) :
    contents other offset height root = contents blocks offset height root := by
  have same : dataBlock other offset height root = dataBlock blocks offset height root :=
    leaf_congr (by decide) offset height root agree
  rw [contents, contents, same]
  split
  · rfl
  · rename_i present
    exact (agree _ (leaf_mem_nodes (by decide) offset height root present)).symm

/-- Reading walks to the data block without changing the disk. -/
theorem ends_readWalk {disk : Disk} {offset : Nat} (small : offset < 2 ^ 32) :
    ∀ height root, (∀ x ∈ treeBlocks disk.blocks height root, x < disk.nblocks) →
      Ends (readWalk offset height root)
        (fun result after => result = some (contents disk.blocks offset height root) ∧
          after.blocks = disk.blocks ∧ disk.Within after) (fun _ _ => False) disk := by
  -- Each level reads one block, so the disk changes only in its record of accesses.
  intro height
  induction height generalizing disk with
  | zero =>
    intro root bounded
    by_cases hole : root = 0
    · simp [readWalk, hole, contents, dataBlock, leaf, Disk.Within.refl]
    · have inside := bounded root (root_mem_nodes 0 hole)
      simp only [readWalk, hole, if_false, ends_belowRead inside]
      simp [contents, dataBlock, leaf, hole, Disk.Within.touch inside]
  | succ height ih =>
    intro root bounded
    by_cases hole : root = 0
    · simp [readWalk, hole, contents, dataBlock, Disk.Within.refl]
    · have inside := bounded root (root_mem_nodes (height + 1) hole)
      simp only [readWalk, hole, if_false, ends_bind, ends_belowRead inside]
      rw [logShiftR_eq small]
      refine (@ih (disk.touch root) _ fun x member => bounded x ?_).imp ?_ fun _ _ => id
      · exact Multiset.mem_of_le (child_nodes_le height hole (indexAt_lt offset height)) member
      · rintro result after ⟨read, same, within⟩
        refine ⟨?_, same, (Disk.Within.touch inside).trans within⟩
        rw [read]
        simp only [contents, dataBlock_inner offset height hole, Disk.touch_blocks]
        rfl

/-- What a walk may rely on before it follows one reference of a parent block held in memory. -/
structure Descent (disk : Disk) (snapshot : Snapshot) (chain : List Nat) (height parentOff : Nat)
    (parentBlock : Block) (slot : Nat) : Prop where
  current : snapshot.superblock = disk.blocks 0
  linked : Linked disk.blocks (freeList (disk.blocks 0)) chain
  slotInside : slot < refsPerBlock
  parentInside : parentOff < disk.nblocks
  parentNonzero : parentOff ≠ 0
  -- A fresh parent is not on the disk yet, but then the reference is still a hole.
  settled : parentBlock.word slot ≠ 0 → disk.blocks parentOff = parentBlock
  distinct : (freeBlocks disk.blocks chain +
    treeBlocks disk.blocks height (parentBlock.word slot)).Nodup
  bounded : ∀ x ∈ freeBlocks disk.blocks chain +
    treeBlocks disk.blocks height (parentBlock.word slot), x < disk.nblocks
  apart : parentOff ∉ freeBlocks disk.blocks chain +
    treeBlocks disk.blocks height (parentBlock.word slot)
  narrow : disk.nblocks ≤ 2 ^ 32

/-- What a finished walk has done below one reference of its parent block. -/
structure Written (before after : Disk) (chain rest : List Nat) (height parentOff : Nat)
    (parentBlock : Block) (slot offset : Nat) (block : Block) : Prop where
  within : before.Within after
  linked : Linked after.blocks (freeList (after.blocks 0)) rest
  inodes : nInodeblocks (after.blocks 0) = nInodeblocks (before.blocks 0)
  siblings : ∀ i < refsPerBlock, i ≠ slot →
    (after.blocks parentOff).word i = parentBlock.word i
  owned : freeBlocks after.blocks rest +
      treeBlocks after.blocks height ((after.blocks parentOff).word slot) =
    freeBlocks before.blocks chain + treeBlocks before.blocks height (parentBlock.word slot)
  kept : ∀ x, x ≠ 0 → x ≠ parentOff →
    x ∉ freeBlocks before.blocks chain +
      treeBlocks before.blocks height (parentBlock.word slot) →
    after.blocks x = before.blocks x
  present : dataBlock after.blocks offset height ((after.blocks parentOff).word slot) ≠ 0
  stored : after.blocks (dataBlock after.blocks offset height
    ((after.blocks parentOff).word slot)) = block
  others : ∀ o, o % refsPerBlock ^ height ≠ offset % refsPerBlock ^ height →
    dataBlock after.blocks o height ((after.blocks parentOff).word slot) =
      dataBlock before.blocks o height (parentBlock.word slot)
  unchanged : ∀ o, o % refsPerBlock ^ height ≠ offset % refsPerBlock ^ height →
    dataBlock before.blocks o height (parentBlock.word slot) ≠ 0 →
    after.blocks (dataBlock before.blocks o height (parentBlock.word slot)) =
      before.blocks (dataBlock before.blocks o height (parentBlock.word slot))

/-- What following one reference has done to the disk, where a hole gets a fresh block. -/
structure Stepped (before after : Disk) (chain rest : List Nat) (parentOff : Nat)
    (parentBlock : Block) (slot b : Nat) (fresh : Bool) : Prop where
  within : before.Within after
  linked : Linked after.blocks (freeList (after.blocks 0)) rest
  inodes : nInodeblocks (after.blocks 0) = nInodeblocks (before.blocks 0)
  reference : (after.blocks parentOff).word slot = b
  siblings : ∀ i < refsPerBlock, i ≠ slot →
    (after.blocks parentOff).word i = parentBlock.word i
  present : b ≠ 0
  allocated : fresh = true → parentBlock.word slot = 0 ∧
    freeBlocks before.blocks chain = b ::ₘ freeBlocks after.blocks rest
  found : fresh = false → parentBlock.word slot = b ∧ rest = chain ∧
    after.blocks = before.blocks
  kept : ∀ x, x ≠ 0 → x ≠ parentOff → x ∉ freeBlocks after.blocks rest →
    after.blocks x = before.blocks x

/-- Following one reference allocates exactly when the reference is a hole. -/
theorem ends_stepDown {disk : Disk} {snapshot : Snapshot} {chain : List Nat}
    {height parentOff slot : Nat} {parentBlock : Block}
    (descent : Descent disk snapshot chain height parentOff parentBlock slot) :
    Ends (stepDown snapshot parentOff parentBlock slot)
      (fun result after => ∃ rest,
        Stepped disk after chain rest parentOff parentBlock slot result.1 result.2.1 ∧
        result.2.2 = { snapshot with superblock := after.blocks 0 })
      (fun message after => Exhausted disk after chain 1 message) disk := by
  have inside := ref_inside descent.slotInside
  by_cases hole : parentBlock.word slot = 0
  · simp only [stepDown, hole, if_true, ends_bind]
    have free : ∀ x ∈ freeBlocks disk.blocks chain, x < disk.nblocks :=
      fun x member => descent.bounded x (Multiset.mem_add.mpr (Or.inl member))
    refine (ends_treediskAllocBlock descent.current descent.linked
      (Multiset.nodup_add.mp descent.distinct).1 free).imp ?_ ?_
    · rintro ⟨b, updated⟩ middle ⟨rest, allocated, rfl⟩
      have size := allocated.within.size
      simp only [ends_pure]
      rw [ends_writeOrPanic (by rw [size]; exact descent.parentInside)]
      -- The parent is no free block, so storing it leaves the free list alone.
      have member : b ∈ freeBlocks disk.blocks chain := by simp [allocated.taken]
      have outside : parentOff ∉ freeBlocks middle.blocks rest := fun bad =>
        descent.apart (by simp [allocated.taken, bad])
      have agree : ∀ x ∈ rest, Function.update middle.blocks parentOff
          (parentBlock.setWord slot b) x = middle.blocks x := fun x listed => by
        refine Function.update_of_ne ?_ _ _
        rintro rfl
        exact outside (mem_freeBlocks_of_mem listed)
      have zero : Function.update middle.blocks parentOff (parentBlock.setWord slot b) 0 =
          middle.blocks 0 := Function.update_of_ne (Ne.symm descent.parentNonzero) _ _
      have small : b < 2 ^ 32 := Nat.lt_of_lt_of_le (free b member) descent.narrow
      refine ⟨rest, ⟨?_, ?_, ?_, ?_, ?_, ?_, ?_, ?_, ?_⟩, by simp [zero]⟩
      · exact allocated.within.trans (Disk.Within.put _ (by rw [size]; exact descent.parentInside))
      · simp only [Disk.put_blocks, zero]
        exact allocated.linked.congr agree
      · simp only [Disk.put_blocks, zero]
        exact allocated.inodes
      · simp only [Disk.put_blocks, Function.update_self]
        rw [Buffer.word_setWord_same _ _ inside, Nat.mod_eq_of_lt small]
      · intro i bounded other
        simp only [Disk.put_blocks, Function.update_self]
        exact Buffer.word_setWord_ne _ _ (ref_inside bounded) other
      · rintro rfl
        exact zero_notMem_freeBlocks descent.linked member
      · intro _
        simp only [Disk.put_blocks, freeBlocks_congr agree]
        exact ⟨hole, allocated.taken⟩
      · intro impossible
        cases impossible
      · intro x nonzero away notFree
        simp only [Disk.put_blocks, freeBlocks_congr agree] at notFree ⊢
        rw [Function.update_of_ne away]
        exact allocated.kept x nonzero notFree
    · exact fun message after stopped => exhausted_at_once descent.linked stopped
  · simp only [stepDown, hole, if_false, ends_pure]
    have same := descent.settled hole
    refine ⟨chain, ⟨Disk.Within.refl _, descent.linked, rfl, by rw [same], ?_, hole, ?_, ?_, ?_⟩, ?_⟩
    · intro i _ _
      rw [same]
    · intro impossible
      cases impossible
    · exact fun _ => ⟨rfl, rfl, rfl⟩
    · exact fun _ _ _ _ => rfl
    · rw [← descent.current]

section Steps

variable {disk middle : Disk} {snapshot : Snapshot} {chain rest : List Nat}
variable {height parentOff slot b : Nat} {parentBlock : Block} {fresh : Bool}

/-- The followed block and the remaining free blocks were the parent's or free before. -/
theorem Stepped.member (stepped : Stepped disk middle chain rest parentOff parentBlock slot b fresh)
    {x : Nat} (within : x = b ∨ x ∈ freeBlocks middle.blocks rest) :
    x ∈ freeBlocks disk.blocks chain + treeBlocks disk.blocks height (parentBlock.word slot) := by
  cases fresh with
  | true =>
    obtain ⟨_, taken⟩ := stepped.allocated rfl
    rw [taken]
    rcases within with same | free
    · simp [same]
    · simp [free]
  | false =>
    obtain ⟨same, listed, blocks⟩ := stepped.found rfl
    rcases within with followed | free
    · rw [same, followed]
      exact Multiset.mem_add.mpr (Or.inr (root_mem_nodes height stepped.present))
    · rw [blocks, listed] at free
      exact Multiset.mem_add.mpr (Or.inl free)

/-- The followed block is no longer free. -/
theorem Stepped.notFree (stepped : Stepped disk middle chain rest parentOff parentBlock slot b fresh)
    (descent : Descent disk snapshot chain height parentOff parentBlock slot) :
    b ∉ freeBlocks middle.blocks rest := by
  have distinct := descent.distinct
  cases fresh with
  | true =>
    rw [(stepped.allocated rfl).2, Multiset.cons_add, Multiset.nodup_cons] at distinct
    exact fun free => distinct.1 (Multiset.mem_add.mpr (Or.inl free))
  | false =>
    obtain ⟨same, listed, blocks⟩ := stepped.found rfl
    rw [blocks, listed]
    exact fun free => Multiset.disjoint_left.mp (Multiset.nodup_add.mp distinct).2.2 free
      (by rw [same]; exact root_mem_nodes height stepped.present)

/-- Storing the followed block leaves the free list and the superblock alone. -/
theorem Stepped.put_linked
    (stepped : Stepped disk middle chain rest parentOff parentBlock slot b fresh)
    (descent : Descent disk snapshot chain height parentOff parentBlock slot) (block : Block) :
    (middle.put b block).blocks 0 = middle.blocks 0 ∧
      (∀ x ∈ rest, (middle.put b block).blocks x = middle.blocks x) ∧
      (middle.put b block).blocks parentOff = middle.blocks parentOff := by
  refine ⟨?_, fun x listed => ?_, ?_⟩
  · exact Function.update_of_ne (Ne.symm stepped.present) _ _
  · refine Function.update_of_ne ?_ _ _
    rintro rfl
    exact stepped.notFree descent (mem_freeBlocks_of_mem listed)
  · refine Function.update_of_ne ?_ _ _
    rintro rfl
    exact descent.apart (stepped.member (Or.inl rfl))

/-- Following a reference takes at most one free block. -/
theorem Stepped.taken
    (stepped : Stepped disk middle chain rest parentOff parentBlock slot b fresh) :
    (freeBlocks disk.blocks chain).card ≤ (freeBlocks middle.blocks rest).card + 1 := by
  cases fresh with
  | true => rw [(stepped.allocated rfl).2, Multiset.card_cons]
  | false =>
    obtain ⟨-, listed, blocks⟩ := stepped.found rfl
    rw [listed, blocks]
    exact Nat.le_succ _

/-- At the bottom, storing the data block finishes the walk. -/
theorem Stepped.written
    (stepped : Stepped disk middle chain rest parentOff parentBlock slot b fresh)
    (descent : Descent disk snapshot chain 0 parentOff parentBlock slot)
    (offset : Nat) (block : Block) :
    Written disk (middle.put b block) chain rest 0 parentOff parentBlock slot offset block := by
  -- The block at the bottom is reached through the slot that the step has followed.
  obtain ⟨zero, agree, parent⟩ := stepped.put_linked descent block
  have reference : ((middle.put b block).blocks parentOff).word slot = b := by
    rw [parent, stepped.reference]
  have inside : b < middle.nblocks := by
    rw [stepped.within.size]
    exact descent.bounded b (stepped.member (Or.inl rfl))
  refine ⟨stepped.within.trans (Disk.Within.put _ inside), ?_, ?_, ?_, ?_, ?_, ?_, ?_, ?_, ?_⟩
  · rw [zero]
    exact stepped.linked.congr agree
  · rw [zero]
    exact stepped.inodes
  · intro i bounded other
    rw [parent]
    exact stepped.siblings i bounded other
  · rw [reference, freeBlocks_congr agree]
    simp only [treeBlocks, nodes_leaf stepped.present]
    cases fresh with
    | true =>
      obtain ⟨hole, taken⟩ := stepped.allocated rfl
      simp only [hole, nodes_hole, add_zero, taken]
      rw [← Multiset.singleton_add, add_comm]
    | false =>
      obtain ⟨same, listed, blocks⟩ := stepped.found rfl
      rw [same, listed, blocks, nodes_leaf stepped.present]
  · intro x nonzero away outside
    have other : x ≠ b := fun same => outside (stepped.member (Or.inl same))
    rw [Disk.put_blocks, Function.update_of_ne other]
    exact stepped.kept x nonzero away fun free => outside (stepped.member (Or.inr free))
  · rw [reference]
    exact stepped.present
  · rw [reference]
    exact Function.update_self ..
  · intro o different
    simp [Nat.mod_one] at different
  · intro o different
    simp [Nat.mod_one] at different

/-- The block held in memory for the followed reference: a fresh one starts out empty. -/
def loaded (blocks : Nat → Block) (b : Nat) (fresh : Bool) : Block :=
  if fresh then nullBlock else blocks b

/-- The store as it will be once the block held in memory is written back. -/
def pending (blocks : Nat → Block) (b : Nat) (fresh : Bool) : Nat → Block :=
  Function.update blocks b (loaded blocks b fresh)

/-- An old block in memory is the one on the disk. -/
@[simp] theorem pending_old (blocks : Nat → Block) (b : Nat) : pending blocks b false = blocks := by
  simp [pending, loaded]

/-- The pending store holds the block from memory. -/
@[simp] theorem pending_self (blocks : Nat → Block) (b : Nat) (fresh : Bool) :
    pending blocks b fresh b = loaded blocks b fresh := by
  simp [pending]

/-- Away from the block in memory the pending store is the disk. -/
theorem pending_of_ne (blocks : Nat → Block) {b x : Nat} (fresh : Bool) (different : x ≠ b) :
    pending blocks b fresh x = blocks x := Function.update_of_ne different _ _

/-- A fresh block is a tree of its own. -/
theorem treeBlocks_fresh (blocks : Nat → Block) {b : Nat} (height : Nat) (present : b ≠ 0) :
    treeBlocks (pending blocks b true) (height + 1) b = {b} := by
  rw [treeBlocks, nodes_raise height present (by decide)]
  · simp [loaded]
  · simp [loaded]

/-- The tree below one reference of the followed block is part of the pending tree. -/
theorem Stepped.child_le
    (stepped : Stepped disk middle chain rest parentOff parentBlock slot b fresh) (height : Nat)
    {i : Nat} (inside : i < refsPerBlock) :
    treeBlocks (pending middle.blocks b fresh) height ((loaded middle.blocks b fresh).word i) ≤
      treeBlocks (pending middle.blocks b fresh) (height + 1) b := by
  rw [← pending_self middle.blocks b fresh]
  exact child_nodes_le height stepped.present inside

/-- The free blocks and the tree before the step are the free blocks and the pending tree after. -/
theorem Stepped.owned
    (stepped : Stepped disk middle chain rest parentOff parentBlock slot b fresh) (height : Nat) :
    freeBlocks disk.blocks chain + treeBlocks disk.blocks (height + 1) (parentBlock.word slot) =
      freeBlocks middle.blocks rest +
        treeBlocks (pending middle.blocks b fresh) (height + 1) b := by
  cases fresh with
  | true =>
    obtain ⟨hole, taken⟩ := stepped.allocated rfl
    rw [treeBlocks_fresh _ height stepped.present, hole, taken, treeBlocks, nodes_hole, add_zero,
      ← Multiset.singleton_add, add_comm]
  | false =>
    obtain ⟨same, listed, blocks⟩ := stepped.found rfl
    rw [pending_old, same, listed, blocks]

/-- The pending tree sends every offset where the tree before the step did. -/
theorem Stepped.dataBlock_eq
    (stepped : Stepped disk middle chain rest parentOff parentBlock slot b fresh) (o height : Nat) :
    dataBlock disk.blocks o (height + 1) (parentBlock.word slot) =
      dataBlock (pending middle.blocks b fresh) o (height + 1) b := by
  cases fresh with
  | true =>
    rw [(stepped.allocated rfl).1, dataBlock_inner o height stepped.present]
    simp [dataBlock, loaded]
  | false =>
    obtain ⟨same, _, blocks⟩ := stepped.found rfl
    rw [pending_old, same, blocks]

/-- Below the followed block, the pending store and the disk hold the same trees. -/
theorem Stepped.pending_child
    (stepped : Stepped disk middle chain rest parentOff parentBlock slot b fresh)
    (descent : Descent disk snapshot chain (height + 1) parentOff parentBlock slot)
    {i : Nat} (inside : i < refsPerBlock) :
    ∀ x ∈ treeBlocks (pending middle.blocks b fresh) height
        ((loaded middle.blocks b fresh).word i),
      pending middle.blocks b fresh x = middle.blocks x := by
  intro x member
  refine pending_of_ne _ _ ?_
  rintro rfl
  have distinct := descent.distinct
  rw [stepped.owned height, Multiset.nodup_add] at distinct
  have apart := root_notMem_child stepped.present inside distinct.2.1
  rw [pending_self] at apart
  exact apart member

/-- The walk may go on below the block that it followed. -/
theorem Stepped.descend
    (stepped : Stepped disk middle chain rest parentOff parentBlock slot b fresh)
    (descent : Descent disk snapshot chain (height + 1) parentOff parentBlock slot)
    {next : Disk} (same : next.blocks = middle.blocks) (size : next.nblocks = middle.nblocks)
    {index : Nat} (inside : index < refsPerBlock) :
    Descent next { snapshot with superblock := middle.blocks 0 } rest height b
      (loaded middle.blocks b fresh) index := by
  have owned := stepped.owned height
  have distinct := descent.distinct
  have bounded := descent.bounded
  rw [owned] at distinct bounded
  -- The subtree to visit next is part of the pending tree.
  have part : treeBlocks next.blocks height ((loaded middle.blocks b fresh).word index) ≤
      treeBlocks (pending middle.blocks b fresh) (height + 1) b := by
    have child := stepped.child_le height inside
    have congr := nodes_congr height _ (stepped.pending_child descent inside)
    rw [same, treeBlocks, congr]
    exact child
  have total := add_le_add_right part (freeBlocks middle.blocks rest)
  refine ⟨by rw [same], ?_, inside, ?_, stepped.present, ?_, ?_, ?_, ?_, ?_⟩
  · rw [same]
    exact stepped.linked
  · rw [size, stepped.within.size]
    exact descent.bounded b (stepped.member (Or.inl rfl))
  · intro set
    cases fresh with
    | true => simp [loaded] at set
    | false => simp [loaded, same]
  · rw [same] at total ⊢
    exact Multiset.nodup_of_le total distinct
  · intro x member
    rw [size, stepped.within.size]
    rw [same] at member total
    exact bounded x (Multiset.mem_of_le total member)
  · rw [same, Multiset.mem_add]
    rintro (free | below)
    · exact stepped.notFree descent free
    · have apart := root_notMem_child stepped.present inside (Multiset.nodup_add.mp distinct).2.1
      rw [pending_self] at apart
      have congr := nodes_congr height _ (stepped.pending_child descent inside)
      rw [treeBlocks, congr] at below
      exact apart below
  · rw [size, stepped.within.size]
    exact descent.narrow

section Deepen

variable {next after : Disk} {final : List Nat} {offset : Nat} {block : Block}

/-- A walk below the followed block leaves the other references' trees alone. -/
theorem Stepped.sibling_kept
    (stepped : Stepped disk middle chain rest parentOff parentBlock slot b fresh)
    (descent : Descent disk snapshot chain (height + 1) parentOff parentBlock slot)
    (same : next.blocks = middle.blocks) {index : Nat} (inside : index < refsPerBlock)
    (unvisited : ∀ x, x ≠ 0 → x ≠ b → x ∉ freeBlocks next.blocks rest +
      treeBlocks next.blocks height ((loaded middle.blocks b fresh).word index) →
      after.blocks x = next.blocks x)
    {i : Nat} (bounded : i < refsPerBlock) (other : i ≠ index) :
    ∀ x ∈ treeBlocks (pending middle.blocks b fresh) height
        ((loaded middle.blocks b fresh).word i),
      pending middle.blocks b fresh x = after.blocks x := by
  intro x member
  have distinct := descent.distinct
  rw [stepped.owned height, Multiset.nodup_add] at distinct
  have inTree : x ∈ treeBlocks (pending middle.blocks b fresh) (height + 1) b := by
    exact Multiset.mem_of_le (stepped.child_le height bounded) member
  have nonzero : x ≠ 0 := by
    rintro rfl
    exact zero_notMem_nodes _ _ member
  have away : x ≠ b := by
    rintro rfl
    have apart := root_notMem_child stepped.present bounded distinct.2.1
    rw [pending_self] at apart
    exact apart member
  rw [stepped.pending_child descent bounded x member, unvisited x nonzero away, same]
  -- The walk visited only free blocks and the tree of the chosen reference.
  rw [same, Multiset.mem_add]
  rintro (free | below)
  · exact Multiset.disjoint_left.mp distinct.2.2 free inTree
  · have apart := child_nodes_disjoint stepped.present bounded inside (Ne.symm other)
      distinct.2.1
    rw [pending_self] at apart
    have congr := nodes_congr height _ (stepped.pending_child descent inside)
    rw [treeBlocks, congr] at below
    exact Multiset.disjoint_left.mp apart member below

/-- A finished walk below the followed block is a finished walk below its parent. -/
theorem Stepped.deepen
    (stepped : Stepped disk middle chain rest parentOff parentBlock slot b fresh)
    (descent : Descent disk snapshot chain (height + 1) parentOff parentBlock slot)
    (same : next.blocks = middle.blocks) (within : middle.Within next)
    (written : Written next after rest final height b (loaded middle.blocks b fresh)
      (indexAt offset height) offset block) :
    Written disk after chain final (height + 1) parentOff parentBlock slot offset block := by
  have inside := indexAt_lt offset height
  have owned := stepped.owned height
  have kept := fun i bounded other =>
    stepped.sibling_kept descent same inside written.kept (i := i) bounded other
  have chosen := stepped.pending_child descent inside
  -- Blocks outside the free list and the pending tree are outside the visited subtree too.
  have visited : freeBlocks next.blocks rest +
      treeBlocks next.blocks height
        ((loaded middle.blocks b fresh).word (indexAt offset height)) ≤
      freeBlocks middle.blocks rest + treeBlocks (pending middle.blocks b fresh) (height + 1) b := by
    have child := stepped.child_le height inside
    have congr := nodes_congr height _ chosen
    rw [same, treeBlocks, congr]
    exact add_le_add_right child _
  have parent : after.blocks parentOff = middle.blocks parentOff := by
    rw [← same]
    refine written.kept _ descent.parentNonzero ?_ fun bad => descent.apart ?_
    · rintro rfl
      exact descent.apart (stepped.member (Or.inl rfl))
    · rw [owned]
      exact Multiset.mem_of_le visited bad
  have reference : (after.blocks parentOff).word slot = b := by rw [parent, stepped.reference]
  -- The references of the followed block are the pending ones, except for the chosen one.
  have refs : ∀ i < refsPerBlock, i ≠ indexAt offset height →
      (after.blocks b).word i = (pending middle.blocks b fresh b).word i := fun i bounded other => by
    rw [pending_self]
    exact written.siblings i bounded other
  have subtree : ∀ o, dataBlock (pending middle.blocks b fresh) o height
      ((loaded middle.blocks b fresh).word (indexAt offset height)) =
      dataBlock next.blocks o height
        ((loaded middle.blocks b fresh).word (indexAt offset height)) := fun o => by
    rw [same]
    exact (leaf_congr (by decide) o height _ chosen).symm
  refine ⟨stepped.within.trans (within.trans written.within), written.linked, ?_, ?_, ?_, ?_, ?_,
    ?_, ?_, ?_⟩
  · rw [written.inodes, same, stepped.inodes]
  · intro i bounded other
    rw [parent]
    exact stepped.siblings i bounded other
  · -- The exchange at the chosen reference cancels against the walk's own accounting.
    have exchange := @nodes_replace _ Buffer.word refsPerBlock (pending middle.blocks b fresh)
      after.blocks b _ height stepped.present inside fun i bounded other => by
        rw [refs i bounded other, pending_self]
        exact nodes_congr height _ (kept i bounded other)
    have below := written.owned
    have congr := nodes_congr height _ chosen
    rw [same, treeBlocks, treeBlocks, congr] at below
    rw [pending_self] at exchange
    rw [owned, reference]
    refine add_right_cancel (b := nodes Buffer.word refsPerBlock (pending middle.blocks b fresh)
      height ((loaded middle.blocks b fresh).word (indexAt offset height))) ?_
    rw [treeBlocks, add_assoc, exchange, treeBlocks, add_right_comm _ _
      (nodes Buffer.word refsPerBlock _ height ((loaded middle.blocks b fresh).word _)), ← below]
    abel
  · intro x nonzero away outside
    rw [owned] at outside
    have other : x ≠ b := by
      rintro rfl
      exact outside (Multiset.mem_add.mpr (Or.inr (root_mem_nodes _ stepped.present)))
    rw [written.kept x nonzero other fun bad => outside (Multiset.mem_of_le visited bad), same]
    exact stepped.kept x nonzero away fun free => outside (Multiset.mem_add.mpr (Or.inl free))
  · rw [reference, dataBlock_inner offset height stepped.present]
    exact written.present
  · rw [reference, dataBlock_inner offset height stepped.present]
    exact written.stored
  · intro o different
    rw [reference, stepped.dataBlock_eq o height, dataBlock_inner o height stepped.present,
      dataBlock_inner o height stepped.present, pending_self]
    by_cases digit : indexAt o height = indexAt offset height
    · rw [digit, subtree]
      exact written.others o fun below => different (mod_pow_succ_inj digit below)
    · rw [refs _ (indexAt_lt o height) digit, pending_self]
      exact leaf_congr (by decide) o height _ (kept _ (indexAt_lt o height) digit)
  · intro o different present
    rw [stepped.dataBlock_eq o height, dataBlock_inner o height stepped.present,
      pending_self] at present ⊢
    have old : pending middle.blocks b fresh (dataBlock (pending middle.blocks b fresh) o height
        ((loaded middle.blocks b fresh).word (indexAt o height))) =
        disk.blocks (dataBlock (pending middle.blocks b fresh) o height
        ((loaded middle.blocks b fresh).word (indexAt o height))) := by
      cases fresh with
      | true => simp [loaded, dataBlock] at present
      | false => rw [pending_old, (stepped.found rfl).2.2]
    rw [← old]
    by_cases digit : indexAt o height = indexAt offset height
    · rw [digit] at present ⊢
      rw [chosen (dataBlock _ _ _ _) (leaf_mem_nodes (by decide) _ _ _ present)]
      rw [subtree] at present ⊢
      rw [written.unchanged o (fun below => different (mod_pow_succ_inj digit below)) present, same]
    · exact (kept _ (indexAt_lt o height) digit _ (leaf_mem_nodes (by decide) _ _ _ present)).symm

end Deepen

end Steps

/-- A walk writes the block at its offset, and panics only when the free list is exhausted. -/
theorem ends_writeWalk {offset : Nat} (small : offset < 2 ^ 32) (block : Block) :
    ∀ (height : Nat) {disk : Disk} {snapshot : Snapshot} {chain : List Nat}
      {parentOff slot : Nat} {parentBlock : Block},
      Descent disk snapshot chain height parentOff parentBlock slot →
      Ends (writeWalk offset block height snapshot parentOff parentBlock slot)
        (fun _ after => ∃ rest,
          Written disk after chain rest height parentOff parentBlock slot offset block ∧
          (freeBlocks disk.blocks chain).card ≤
            (freeBlocks after.blocks rest).card + (height + 1))
        (fun message after => Exhausted disk after chain (height + 1) message) disk := by
  -- The induction is on the height, one followed reference and at most one free block at a time.
  intro height
  induction height with
  | zero =>
    intro disk snapshot chain parentOff slot parentBlock descent
    simp only [writeWalk, ends_bind]
    refine (ends_stepDown descent).imp ?_ fun _ _ => id
    rintro ⟨b, fresh, _⟩ middle ⟨rest, stepped, _⟩
    have inside : b < middle.nblocks := by
      rw [stepped.within.size]
      exact descent.bounded b (stepped.member (Or.inl rfl))
    rw [ends_writeOrPanic inside]
    refine ⟨rest, stepped.written descent offset block, ?_⟩
    rw [freeBlocks_congr (stepped.put_linked descent block).2.1]
    exact stepped.taken
  | succ height ih =>
    intro disk snapshot chain parentOff slot parentBlock descent
    simp only [writeWalk, ends_bind]
    refine (ends_stepDown descent).imp ?_ fun message after exhausted =>
      exhausted.more (Nat.le_add_left 1 _)
    rintro ⟨b, fresh, _⟩ middle ⟨rest, stepped, rfl⟩
    simp only at stepped
    have inside : b < middle.nblocks := by
      rw [stepped.within.size]
      exact descent.bounded b (stepped.member (Or.inl rfl))
    have taken := stepped.taken
    rw [logShiftR_eq small]
    cases fresh with
    | true =>
      simp only [if_true]
      refine (ih (stepped.descend descent rfl rfl (indexAt_lt offset height))).imp ?_ ?_
      · rintro _ after ⟨final, written, used⟩
        exact ⟨final, stepped.deepen descent rfl (Disk.Within.refl _) written, by omega⟩
      · exact fun message after exhausted => exhausted.earlier stepped.within taken
    | false =>
      simp only [Bool.false_eq_true, if_false, ends_bind, ends_belowRead inside, ends_pure]
      have reading := Disk.Within.touch inside
      have touched : (middle.touch b).blocks = middle.blocks := rfl
      refine (ih (stepped.descend descent touched rfl (indexAt_lt offset height))).imp ?_ ?_
      · rintro _ after ⟨final, written, used⟩
        rw [touched] at used
        exact ⟨final, stepped.deepen descent touched reading written, by omega⟩
      · exact fun message after exhausted =>
          exhausted.earlier (stepped.within.trans reading) taken

end Egos.Treedisk
