import Egos.Treedisk.Grow

/-! Treedisk as a set of files: the consistency of a disk and what a write does to one file. -/

namespace Egos.Treedisk

open Finset

/-- A file as its users see it: a number of blocks and what each of them holds. -/
@[ext] structure File where
  size : Nat
  block : Nat → Block

/-- A file without blocks. -/
def File.empty : File := ⟨0, fun _ => nullBlock⟩

/-- Writing a block extends the file as needed and fills the gap with null bytes. -/
def File.write (file : File) (offset : Nat) (block : Block) : File where
  size := max file.size (offset + 1)
  block o := if o = offset then block else if o < file.size then file.block o else nullBlock

/-- The written offset holds the written block. -/
theorem File.write_self (file : File) (offset : Nat) (block : Block) :
    (file.write offset block).block offset = block := if_pos rfl

/-- Old blocks away from the written offset stay. -/
theorem File.write_old {file : File} {offset o : Nat} (block : Block) (different : o ≠ offset)
    (old : o < file.size) : (file.write offset block).block o = file.block o := by
  simp only [File.write, if_neg different, if_pos old]

/-- New blocks away from the written offset hold null bytes. -/
theorem File.write_gap {file : File} {offset o : Nat} (block : Block) (different : o ≠ offset)
    (past : file.size ≤ o) : (file.write offset block).block o = nullBlock := by
  simp only [File.write, if_neg different, if_neg (Nat.not_lt.mpr past)]

/-- The block that holds an inode. -/
def inodeBlock (ino : Nat) : Nat := 1 + ino / inodesPerBlock

/-- The root reference of an inode. -/
def inodeRoot (blocks : Nat → Block) (ino : Nat) : Nat :=
  (blocks (inodeBlock ino)).word (2 * (ino % inodesPerBlock))

/-- The block count of an inode. -/
def inodeSize (blocks : Nat → Block) (ino : Nat) : Nat :=
  (blocks (inodeBlock ino)).word (2 * (ino % inodesPerBlock) + 1)

/-- The height of an inode's tree. -/
def inodeHeight (blocks : Nat → Block) (ino : Nat) : Nat := levelsOf (inodeSize blocks ino)

/-- The blocks of an inode's tree. -/
def inodeTree (blocks : Nat → Block) (ino : Nat) : Multiset Nat :=
  treeBlocks blocks (inodeHeight blocks ino) (inodeRoot blocks ino)

/-- The data block of an inode's tree at an offset, or zero in a hole. -/
def inodeData (blocks : Nat → Block) (ino offset : Nat) : Nat :=
  dataBlock blocks offset (inodeHeight blocks ino) (inodeRoot blocks ino)

/-- The file that an inode stands for. -/
def fileOf (blocks : Nat → Block) (ino : Nat) : File where
  size := inodeSize blocks ino
  block o := if o < inodeSize blocks ino
    then contents blocks o (inodeHeight blocks ino) (inodeRoot blocks ino) else nullBlock

/-- A block of a file is what its inode's tree holds there. -/
theorem fileOf_block {blocks : Nat → Block} {ino o : Nat} (inside : o < inodeSize blocks ino) :
    (fileOf blocks ino).block o =
      contents blocks o (inodeHeight blocks ino) (inodeRoot blocks ino) := if_pos inside

/-- Past its end a file holds null bytes. -/
theorem fileOf_past {blocks : Nat → Block} {ino o : Nat} (past : inodeSize blocks ino ≤ o) :
    (fileOf blocks ino).block o = nullBlock := if_neg (Nat.not_lt.mpr past)

/-- A file depends only on its inode and the blocks of its tree. -/
theorem fileOf_congr {blocks other : Nat → Block} {ino : Nat}
    (root : inodeRoot other ino = inodeRoot blocks ino)
    (size : inodeSize other ino = inodeSize blocks ino)
    (agree : ∀ x ∈ inodeTree blocks ino, blocks x = other x) :
    fileOf other ino = fileOf blocks ino := by
  ext1
  · exact size
  · funext o
    simp only [fileOf, inodeHeight, size, root]
    split
    · exact contents_congr o _ _ agree
    · rfl

/-- A disk with a file system of `n` inode blocks whose free list runs through `chain`. -/
structure Consistent (n : Nat) (disk : Disk) (chain : List Nat) : Prop where
  inodes : nInodeblocks (disk.blocks 0) = n
  few : n < 2 ^ 26
  room : n + 2 ≤ disk.nblocks
  narrow : disk.nblocks ≤ 2 ^ 32
  linked : Linked disk.blocks (freeList (disk.blocks 0)) chain
  -- Every block after the inode blocks is free once or in one tree once.
  partition : freeBlocks disk.blocks chain +
      ∑ ino ∈ range (inodesPerBlock * n), inodeTree disk.blocks ino =
    (Ico (n + 1) disk.nblocks).val
  -- Trees hold nothing at or past the end of their file.
  beyond : ∀ ino < inodesPerBlock * n, ∀ o, inodeSize disk.blocks ino ≤ o →
    o < refsPerBlock ^ inodeHeight disk.blocks ino → inodeData disk.blocks ino o = 0
  -- The last block of a file is present, so no tree is taller than its file needs.
  last : ∀ ino < inodesPerBlock * n, 0 < inodeSize disk.blocks ino →
    inodeData disk.blocks ino (inodeSize disk.blocks ino - 1) ≠ 0
  vacant : ∀ ino < inodesPerBlock * n, inodeSize disk.blocks ino = 0 →
    inodeRoot disk.blocks ino = 0

section Ownership

variable {n ino : Nat} {disk : Disk} {chain : List Nat}

/-- An inode number within range lies in one of the inode blocks. -/
theorem inodeBlock_bounds (inside : ino < inodesPerBlock * n) :
    inodeBlock ino ≠ 0 ∧ inodeBlock ino ≤ n := by
  have block := Nat.div_lt_of_lt_mul inside
  exact ⟨by simp [inodeBlock], by rw [inodeBlock, Nat.add_comm]; exact block⟩

/-- An inode's position lies inside its block. -/
theorem inode_position (ino : Nat) : ino % inodesPerBlock < inodesPerBlock :=
  Nat.mod_lt _ (by decide)

/-- The free blocks and the tree of one inode are part of the partition. -/
theorem Consistent.share_le (consistent : Consistent n disk chain)
    (inside : ino < inodesPerBlock * n) :
    freeBlocks disk.blocks chain + inodeTree disk.blocks ino ≤
      (Ico (n + 1) disk.nblocks).val := by
  rw [← consistent.partition, ← add_sum_erase _ _ (mem_range.mpr inside), ← add_assoc]
  exact Multiset.le_add_right _ _

/-- No block is both free and in an inode's tree, or twice in either. -/
theorem Consistent.share_nodup (consistent : Consistent n disk chain)
    (inside : ino < inodesPerBlock * n) :
    (freeBlocks disk.blocks chain + inodeTree disk.blocks ino).Nodup :=
  Multiset.nodup_of_le (consistent.share_le inside) (Ico (n + 1) disk.nblocks).nodup

/-- Free blocks and tree blocks lie after the inode blocks and inside the disk. -/
theorem Consistent.share_bounds (consistent : Consistent n disk chain)
    (inside : ino < inodesPerBlock * n) {x : Nat}
    (member : x ∈ freeBlocks disk.blocks chain + inodeTree disk.blocks ino) :
    n + 1 ≤ x ∧ x < disk.nblocks :=
  mem_Ico.mp (Multiset.mem_of_le (consistent.share_le inside) member)

/-- The superblock and the inode blocks are neither free nor in a tree. -/
theorem Consistent.outside (consistent : Consistent n disk chain)
    (inside : ino < inodesPerBlock * n) {x : Nat} (low : x ≤ n) :
    x ∉ freeBlocks disk.blocks chain + inodeTree disk.blocks ino := fun member => by
  have := consistent.share_bounds inside member
  omega

/-- The trees of two inodes share no block, nor does either with the free list. -/
theorem Consistent.trees_apart (consistent : Consistent n disk chain)
    (inside : ino < inodesPerBlock * n) {other : Nat} (bounded : other < inodesPerBlock * n)
    (different : other ≠ ino) {x : Nat} (member : x ∈ inodeTree disk.blocks other) :
    x ∉ freeBlocks disk.blocks chain + inodeTree disk.blocks ino := by
  have whole := consistent.partition
  rw [← add_sum_erase _ _ (mem_range.mpr inside),
    ← add_sum_erase _ _ (mem_erase.mpr ⟨different, mem_range.mpr bounded⟩)] at whole
  have distinct := (Ico (n + 1) disk.nblocks).nodup
  rw [← whole, ← add_assoc, Multiset.nodup_add] at distinct
  intro bad
  exact Multiset.disjoint_left.mp distinct.2.2 bad (Multiset.mem_add.mpr (Or.inl member))

/-- The free list visits no block twice. -/
theorem Consistent.chain_nodup (consistent : Consistent n disk chain) : chain.Nodup := by
  have distinct : (freeBlocks disk.blocks chain).Nodup := by
    refine Multiset.nodup_of_le ?_ (Ico (n + 1) disk.nblocks).nodup
    rw [← consistent.partition]
    exact Multiset.le_add_right _ _
  clear consistent
  induction chain with
  | nil => exact List.nodup_nil
  | cons x rest ih =>
    rw [freeBlocks_cons, Multiset.nodup_cons, Multiset.nodup_add] at distinct
    refine List.nodup_cons.mpr ⟨fun member => distinct.1 ?_, ih distinct.2.2.1⟩
    exact Multiset.mem_add.mpr (Or.inr (mem_freeBlocks_of_mem member))

/-- A file's blocks lie below the capacity of its tree. -/
theorem size_le_capacity (blocks : Nat → Block) {o : Nat} (below : o < inodeSize blocks ino) :
    o < refsPerBlock ^ inodeHeight blocks ino := by
  have small : inodeSize blocks ino < 2 ^ 32 := Buffer.word_lt _ _
  have positive : 0 < inodeSize blocks ino := by omega
  have bound := levelsOf_bound positive small.le
  unfold inodeHeight
  omega

end Ownership

/-- What a write to one inode has done to the disk. -/
structure Updated (before after : Disk) (chain rest : List Nat) (ino : Nat) : Prop where
  within : before.Within after
  linked : Linked after.blocks (freeList (after.blocks 0)) rest
  inodes : nInodeblocks (after.blocks 0) = nInodeblocks (before.blocks 0)
  words : ∀ i < refsPerBlock, i ≠ 2 * (ino % inodesPerBlock) →
    i ≠ 2 * (ino % inodesPerBlock) + 1 →
    (after.blocks (inodeBlock ino)).word i = (before.blocks (inodeBlock ino)).word i
  owned : freeBlocks after.blocks rest + inodeTree after.blocks ino =
    freeBlocks before.blocks chain + inodeTree before.blocks ino
  kept : ∀ x, x ≠ 0 → x ≠ inodeBlock ino →
    x ∉ freeBlocks before.blocks chain + inodeTree before.blocks ino →
    after.blocks x = before.blocks x
  beyond : ∀ o, inodeSize after.blocks ino ≤ o →
    o < refsPerBlock ^ inodeHeight after.blocks ino → inodeData after.blocks ino o = 0
  last : inodeData after.blocks ino (inodeSize after.blocks ino - 1) ≠ 0
  sized : 0 < inodeSize after.blocks ino

/-- A step that stays within one inode, its tree, the free blocks and the superblock. -/
structure Confined (before after : Disk) (chain : List Nat) (ino : Nat) : Prop where
  words : ∀ i < refsPerBlock, i ≠ 2 * (ino % inodesPerBlock) →
    i ≠ 2 * (ino % inodesPerBlock) + 1 →
    (after.blocks (inodeBlock ino)).word i = (before.blocks (inodeBlock ino)).word i
  kept : ∀ x, x ≠ 0 → x ≠ inodeBlock ino →
    x ∉ freeBlocks before.blocks chain + inodeTree before.blocks ino →
    after.blocks x = before.blocks x

/-- A write to one inode is confined to it. -/
theorem Updated.confined {before after : Disk} {chain rest : List Nat} {ino : Nat}
    (updated : Updated before after chain rest ino) : Confined before after chain ino :=
  ⟨updated.words, updated.kept⟩

section Updates

variable {n ino other : Nat} {before after : Disk} {chain rest : List Nat}

/-- A step confined to one inode leaves the root and the size of every other inode alone. -/
theorem Confined.other_inode (confined : Confined before after chain ino)
    (consistent : Consistent n before chain) (inside : ino < inodesPerBlock * n)
    (bounded : other < inodesPerBlock * n) (different : other ≠ ino) :
    inodeRoot after.blocks other = inodeRoot before.blocks other ∧
      inodeSize after.blocks other = inodeSize before.blocks other := by
  have position := inode_position other
  by_cases same : inodeBlock other = inodeBlock ino
  · -- Two inodes of one block differ in their position within the block.
    have apart : other % inodesPerBlock ≠ ino % inodesPerBlock := by
      intro equal
      simp only [inodeBlock, inodesPerBlock] at same equal
      omega
    simp only [inodeRoot, inodeSize, same]
    exact ⟨confined.words _ (root_inside position) (by omega) (by omega),
      confined.words _ (nblocks_inside position) (by omega) (by omega)⟩
  · obtain ⟨nonzero, low⟩ := inodeBlock_bounds bounded
    have equal := confined.kept _ nonzero same (consistent.outside inside low)
    simp only [inodeRoot, inodeSize, equal, and_self]

/-- A step confined to one inode leaves the blocks of every other inode's tree alone. -/
theorem Confined.other_kept (confined : Confined before after chain ino)
    (consistent : Consistent n before chain) (inside : ino < inodesPerBlock * n)
    (bounded : other < inodesPerBlock * n) (different : other ≠ ino) :
    ∀ x ∈ inodeTree before.blocks other, before.blocks x = after.blocks x := by
  intro x member
  have share := consistent.share_bounds bounded (Multiset.mem_add.mpr (Or.inr member))
  obtain ⟨nonzero, low⟩ := inodeBlock_bounds inside
  exact (confined.kept x (by omega) (by omega)
    (consistent.trees_apart inside bounded different member)).symm

/-- A step confined to one inode leaves every other inode's tree and data alone. -/
theorem Confined.other_tree (confined : Confined before after chain ino)
    (consistent : Consistent n before chain) (inside : ino < inodesPerBlock * n)
    (bounded : other < inodesPerBlock * n) (different : other ≠ ino) :
    inodeTree after.blocks other = inodeTree before.blocks other ∧
      ∀ o, inodeData after.blocks other o = inodeData before.blocks other o := by
  obtain ⟨root, size⟩ := confined.other_inode consistent inside bounded different
  have kept := confined.other_kept consistent inside bounded different
  simp only [inodeTree, inodeData, inodeHeight, root, size]
  exact ⟨nodes_congr _ _ kept, fun o => leaf_congr (by decide) o _ _ kept⟩

/-- A step confined to one inode leaves every other file alone. -/
theorem Confined.other_file (confined : Confined before after chain ino)
    (consistent : Consistent n before chain) (inside : ino < inodesPerBlock * n)
    (bounded : other < inodesPerBlock * n) (different : other ≠ ino) :
    fileOf after.blocks other = fileOf before.blocks other := by
  obtain ⟨root, size⟩ := confined.other_inode consistent inside bounded different
  have kept := confined.other_kept consistent inside bounded different
  exact fileOf_congr root size kept

/-- A write keeps the disk consistent. -/
theorem Updated.consistent (updated : Updated before after chain rest ino)
    (consistent : Consistent n before chain) (inside : ino < inodesPerBlock * n) :
    Consistent n after rest := by
  have tree : ∀ other < inodesPerBlock * n, other ≠ ino →
      inodeTree after.blocks other = inodeTree before.blocks other ∧
        ∀ o, inodeData after.blocks other o = inodeData before.blocks other o :=
    fun other bounded different => updated.confined.other_tree consistent inside bounded different
  have inode : ∀ other < inodesPerBlock * n, other ≠ ino →
      inodeRoot after.blocks other = inodeRoot before.blocks other ∧
        inodeSize after.blocks other = inodeSize before.blocks other :=
    fun other bounded different => updated.confined.other_inode consistent inside bounded different
  have height : ∀ other < inodesPerBlock * n, other ≠ ino →
      inodeHeight after.blocks other = inodeHeight before.blocks other :=
    fun other bounded different => by
      simp only [inodeHeight, (inode other bounded different).2]
  have size := updated.within.size
  refine ⟨updated.inodes.trans consistent.inodes, consistent.few, by rw [size]; exact consistent.room,
    by rw [size]; exact consistent.narrow, updated.linked, ?_, ?_, ?_, ?_⟩
  · -- Only the tree of the written inode changed, and it exchanged blocks with the free list.
    have exchange := sum_exchange (inodeTree before.blocks) (inodeTree after.blocks)
      (mem_range.mpr inside) fun other bounded different =>
        (tree other (mem_range.mp bounded) different).1
    rw [size, ← consistent.partition]
    refine add_right_cancel (b := inodeTree before.blocks ino) ?_
    rw [add_assoc, exchange, add_right_comm _ _ (inodeTree before.blocks ino), ← updated.owned]
    abel
  · intro other bounded o past room
    by_cases same : other = ino
    · subst other
      exact updated.beyond o past room
    · rw [(tree other bounded same).2]
      rw [(inode other bounded same).2] at past
      rw [height other bounded same] at room
      exact consistent.beyond other bounded o past room
  · intro other bounded positive
    by_cases same : other = ino
    · subst other
      exact updated.last
    · rw [(tree other bounded same).2]
      rw [(inode other bounded same).2] at positive ⊢
      exact consistent.last other bounded positive
  · intro other bounded zero
    by_cases same : other = ino
    · subst other
      exact absurd zero updated.sized.ne'
    · rw [(inode other bounded same).1]
      rw [(inode other bounded same).2] at zero
      exact consistent.vacant other bounded zero

end Updates

end Egos.Treedisk
