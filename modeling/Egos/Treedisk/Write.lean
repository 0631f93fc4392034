import Egos.Treedisk.Files

/-! What reading and writing one block of a file does on a consistent disk. -/

namespace Egos.Treedisk

open Finset

/-- The snapshot that describes an inode of a disk. -/
def snapshotOf (blocks : Nat → Block) (ino : Nat) : Snapshot :=
  ⟨blocks 0, blocks (inodeBlock ino), inodeBlock ino, ino % inodesPerBlock⟩

/-- The snapshot of an inode has the inode's root. -/
@[simp] theorem snapshotOf_root (blocks : Nat → Block) (ino : Nat) :
    (snapshotOf blocks ino).root = inodeRoot blocks ino := rfl

/-- The snapshot of an inode has the inode's block count. -/
@[simp] theorem snapshotOf_nblocks (blocks : Nat → Block) (ino : Nat) :
    (snapshotOf blocks ino).nblocks = inodeSize blocks ino := rfl

/-- A disk on which the inodes of `n` inode blocks can be found, whatever their trees hold. -/
structure Mounted (n : Nat) (disk : Disk) : Prop where
  inodes : nInodeblocks (disk.blocks 0) = n
  few : n < 2 ^ 26
  room : n + 2 ≤ disk.nblocks

section Snapshots

variable {n ino : Nat} {disk : Disk} {chain : List Nat}

/-- The inodes of a consistent disk can be found. -/
theorem Consistent.mounted (consistent : Consistent n disk chain) : Mounted n disk :=
  ⟨consistent.inodes, consistent.few, consistent.room⟩

/-- The 32-bit product in the inode check never wraps. -/
theorem Mounted.product (mounted : Mounted n disk) :
    nInodeblocks (disk.blocks 0) * inodesPerBlock % 2 ^ 32 = inodesPerBlock * n := by
  have few := mounted.few
  rw [mounted.inodes, Nat.mul_comm, Nat.mod_eq_of_lt]
  simp only [inodesPerBlock]
  omega

/-- A valid inode number gets its snapshot, without any change to the blocks. -/
theorem ends_getSnapshot (mounted : Mounted n disk) (inside : ino < inodesPerBlock * n) :
    Ends (treediskGetSnapshot ino)
      (fun result after => result = some (snapshotOf disk.blocks ino) ∧
        after.blocks = disk.blocks ∧ disk.Within after) (fun _ _ => False) disk := by
  have room := mounted.room
  have first : 0 < disk.nblocks := by omega
  have block : inodeBlock ino < (disk.touch 0).nblocks := by
    have bound := (inodeBlock_bounds inside).2
    simp only [Disk.touch_nblocks]
    omega
  simp only [treediskGetSnapshot, ends_bind, ends_belowRead first, mounted.product,
    if_neg (Nat.not_le.mpr inside)]
  rw [show 1 + ino / inodesPerBlock = inodeBlock ino from rfl, ends_belowRead block]
  simp only [ends_pure]
  exact ⟨rfl, rfl, (Disk.Within.touch first).trans (Disk.Within.touch block)⟩

/-- An inode number past the inode blocks gets no snapshot. -/
theorem ends_getSnapshot_none (mounted : Mounted n disk) (past : inodesPerBlock * n ≤ ino) :
    Ends (treediskGetSnapshot ino)
      (fun result after => result = none ∧ after.blocks = disk.blocks ∧ disk.Within after)
      (fun _ _ => False) disk := by
  have room := mounted.room
  have first : 0 < disk.nblocks := by omega
  simp only [treediskGetSnapshot, ends_bind, ends_belowRead first, mounted.product,
    if_pos past, ends_pure]
  exact ⟨trivial, rfl, Disk.Within.touch first⟩

/-- Consistency speaks only of the blocks and the size of the disk. -/
theorem Consistent.congr (consistent : Consistent n disk chain) {other : Disk}
    (same : other.blocks = disk.blocks) (size : other.nblocks = disk.nblocks) :
    Consistent n other chain := by
  obtain ⟨blocks, nblocks, accesses⟩ := other
  subst same size
  exact ⟨consistent.inodes, consistent.few, consistent.room, consistent.narrow, consistent.linked,
    consistent.partition, consistent.beyond, consistent.last, consistent.vacant⟩

/-- Reading a file whose tree stays on the disk returns its block, or an error past its end. -/
theorem ends_treediskRead_mounted (mounted : Mounted n disk) (inside : ino < inodesPerBlock * n)
    (bounded : ∀ x ∈ inodeTree disk.blocks ino, x < disk.nblocks) {offset : Nat}
    (small : offset < 2 ^ 32) :
    Ends (treediskRead ino offset)
      (fun result after => after.blocks = disk.blocks ∧ disk.Within after ∧
        result = if offset < (fileOf disk.blocks ino).size
          then some ((fileOf disk.blocks ino).block offset) else none)
      (fun _ _ => False) disk := by
  -- Behind the end nothing is read; before it, the walk stays in the tree of the inode.
  simp only [treediskRead, ends_bind]
  refine (ends_getSnapshot mounted inside).imp ?_ fun _ _ => id
  rintro _ middle ⟨rfl, same, within⟩
  simp only [snapshotOf_nblocks, snapshotOf_root]
  by_cases past : offset ≥ inodeSize disk.blocks ino
  · simp only [past, if_true, ends_pure, fileOf, if_neg (Nat.not_lt.mpr past)]
    exact ⟨same, within, trivial⟩
  · simp only [past, if_false, fileOf, if_pos (Nat.lt_of_not_le past)]
    refine (ends_readWalk small _ _ fun x member => ?_).imp ?_ fun _ _ => id
    · rw [same] at member
      rw [within.size]
      exact bounded x member
    · rintro result after ⟨read, unchanged, further⟩
      rw [same] at read
      exact ⟨unchanged.trans same, within.trans further, read⟩

/-- Reading a file returns its block, or an error exactly past its end. -/
theorem ends_treediskRead (consistent : Consistent n disk chain)
    (inside : ino < inodesPerBlock * n) {offset : Nat} (small : offset < 2 ^ 32) :
    Ends (treediskRead ino offset)
      (fun result after => after.blocks = disk.blocks ∧ disk.Within after ∧
        result = if offset < (fileOf disk.blocks ino).size
          then some ((fileOf disk.blocks ino).block offset) else none)
      (fun _ _ => False) disk :=
  ends_treediskRead_mounted consistent.mounted inside
    (fun _ member => (consistent.share_bounds inside (Multiset.mem_add.mpr (Or.inr member))).2)
    small

end Snapshots

/-- A tree that has been prepared for a write: grown, and known to the inode block. -/
structure Prepared (disk base : Disk) (old new : Snapshot) (chain rest : List Nat)
    (ino offset : Nat) : Prop where
  root : old.root = inodeRoot disk.blocks ino
  position : old.inode = ino % inodesPerBlock
  words : ∀ i < refsPerBlock, i ≠ 2 * (ino % inodesPerBlock) + 1 →
    old.inodeblock.word i = (disk.blocks (inodeBlock ino)).word i
  size : old.nblocks = max (inodeSize disk.blocks ino) (offset + 1)
  grown : ∃ middle, Grown disk middle old new chain rest (inodeHeight disk.blocks ino)
    (levelsOf (max (inodeSize disk.blocks ino) (offset + 1))) ∧
    ∀ x, x ≠ inodeBlock ino → base.blocks x = middle.blocks x
  within : disk.Within base
  inode : base.blocks (inodeBlock ino) = new.inodeblock

section Preparation

variable {n ino offset : Nat} {disk base after : Disk} {old new : Snapshot}
variable {chain rest final : List Nat} {block : Block}

/-- The height of the tree that a write leaves behind. -/
def heightAfter (blocks : Nat → Block) (ino offset : Nat) : Nat :=
  levelsOf (max (inodeSize blocks ino) (offset + 1))

/-- The most blocks that a write takes: the levels it inserts, and the path to its data block. -/
def File.blocksNeeded (file : File) (offset : Nat) : Nat :=
  levelsOf (max file.size (offset + 1)) - levelsOf file.size +
    (levelsOf (max file.size (offset + 1)) + 1)

/-- A written offset fits in the tree that the write leaves behind. -/
theorem offset_lt_capacity (ino : Nat) (blocks : Nat → Block) (small : offset < 2 ^ 32 - 1) :
    max (inodeSize blocks ino) (offset + 1) ≤ refsPerBlock ^ heightAfter blocks ino offset := by
  have bound : inodeSize blocks ino < 2 ^ 32 := Buffer.word_lt _ _
  exact levelsOf_bound (by omega) (by omega)

/-- The inode block is neither free nor in the tree of its inode, before and after growing. -/
theorem Prepared.free_eq (prepared : Prepared disk base old new chain rest ino offset)
    (consistent : Consistent n disk chain) (inside : ino < inodesPerBlock * n) :
    freeBlocks base.blocks rest +
        treeBlocks base.blocks (heightAfter disk.blocks ino offset) new.root =
      freeBlocks disk.blocks chain + inodeTree disk.blocks ino ∧
    (∀ o < refsPerBlock ^ heightAfter disk.blocks ino offset,
      dataBlock base.blocks o (heightAfter disk.blocks ino offset) new.root =
        if o < refsPerBlock ^ inodeHeight disk.blocks ino then inodeData disk.blocks ino o
        else 0) ∧
    (∀ x, x ≠ 0 → x ≠ inodeBlock ino → x ∉ freeBlocks disk.blocks chain →
      base.blocks x = disk.blocks x) ∧
    Linked base.blocks (freeList (base.blocks 0)) rest ∧
    nInodeblocks (base.blocks 0) = nInodeblocks (disk.blocks 0) := by
  obtain ⟨middle, grown, agree⟩ := prepared.grown
  obtain ⟨nonzero, low⟩ := inodeBlock_bounds inside
  have outside := consistent.outside inside low
  have owned := grown.owned
  rw [prepared.root] at owned
  -- The inode block is outside all of the blocks involved, so storing it changes none of them.
  have share : ∀ x ∈ freeBlocks middle.blocks rest +
      treeBlocks middle.blocks (heightAfter disk.blocks ino offset) new.root,
      base.blocks x = middle.blocks x := by
    intro x member
    refine agree x ?_
    rintro rfl
    exact outside (owned ▸ member)
  have listed : ∀ x ∈ rest, base.blocks x = middle.blocks x := fun x member =>
    share x (Multiset.mem_add.mpr (Or.inl (mem_freeBlocks_of_mem member)))
  have tree : ∀ x ∈ treeBlocks middle.blocks (heightAfter disk.blocks ino offset) new.root,
      middle.blocks x = base.blocks x := fun x member =>
    (share x (Multiset.mem_add.mpr (Or.inr member))).symm
  have zero : base.blocks 0 = middle.blocks 0 := agree 0 (Ne.symm nonzero)
  refine ⟨?_, ?_, ?_, ?_, ?_⟩
  · rw [freeBlocks_congr listed, treeBlocks, nodes_congr _ _ tree]
    exact owned
  · intro o bounded
    have same := leaf_congr (by decide) o _ _ tree
    have data := grown.data o bounded
    rw [prepared.root] at data
    exact same.trans data
  · intro x present away free
    rw [agree x away]
    exact grown.kept x present free
  · rw [zero]
    exact grown.linked.congr listed
  · rw [zero]
    exact grown.inodes

/-- The inode block after a write differs only in the two words of the written inode. -/
theorem Prepared.inode_words (prepared : Prepared disk base old new chain rest ino offset)
    (siblings : ∀ i < refsPerBlock, i ≠ 2 * (ino % inodesPerBlock) →
      (after.blocks (inodeBlock ino)).word i = new.inodeblock.word i) :
    inodeSize after.blocks ino = max (inodeSize disk.blocks ino) (offset + 1) ∧
      ∀ i < refsPerBlock, i ≠ 2 * (ino % inodesPerBlock) →
        i ≠ 2 * (ino % inodesPerBlock) + 1 →
        (after.blocks (inodeBlock ino)).word i = (disk.blocks (inodeBlock ino)).word i := by
  obtain ⟨middle, grown, _⟩ := prepared.grown
  have words := grown.words
  rw [prepared.position] at words
  refine ⟨?_, ?_⟩
  · have inside := nblocks_inside (inode_position ino)
    rw [inodeSize, siblings _ inside (by omega), words _ inside (by omega),
      ← prepared.size, Snapshot.nblocks, prepared.position]
  · intro i bounded notRoot notSize
    rw [siblings i bounded notRoot, words i bounded notRoot,
      prepared.words i bounded notSize]

/-- A finished walk below a prepared inode is an update of that inode. -/
theorem Prepared.updated (prepared : Prepared disk base old new chain rest ino offset)
    (consistent : Consistent n disk chain) (inside : ino < inodesPerBlock * n)
    (small : offset < 2 ^ 32 - 1)
    (written : Written base after rest final (heightAfter disk.blocks ino offset)
      (inodeBlock ino) new.inodeblock (2 * (ino % inodesPerBlock)) offset block)
    (slot : new.inodeblock.word (2 * (ino % inodesPerBlock)) = new.root) :
    Updated disk after chain final ino ∧
      fileOf after.blocks ino = (fileOf disk.blocks ino).write offset block := by
  obtain ⟨owned, data, kept, linked, inodes⟩ := prepared.free_eq consistent inside
  obtain ⟨size, words⟩ := prepared.inode_words written.siblings
  have height : inodeHeight after.blocks ino = heightAfter disk.blocks ino offset := by
    rw [inodeHeight, size]; rfl
  have capacity := offset_lt_capacity ino disk.blocks small
  have offsetMod : offset % refsPerBlock ^ heightAfter disk.blocks ino offset = offset :=
    Nat.mod_eq_of_lt (by omega)
  have walked := written.owned
  rw [slot] at walked
  -- Away from the written offset, the new tree holds what the old one held.
  have others : ∀ o < refsPerBlock ^ heightAfter disk.blocks ino offset, o ≠ offset →
      inodeData after.blocks ino o =
        if o < refsPerBlock ^ inodeHeight disk.blocks ino then inodeData disk.blocks ino o
        else 0 := by
    intro o bounded different
    have away := written.others o (by rw [Nat.mod_eq_of_lt bounded, offsetMod]; exact different)
    rw [slot, data o bounded] at away
    rw [inodeData, height]
    exact away
  have holes : ∀ o < refsPerBlock ^ heightAfter disk.blocks ino offset, o ≠ offset →
      inodeSize disk.blocks ino ≤ o → inodeData after.blocks ino o = 0 := by
    intro o bounded different past
    rw [others o bounded different]
    split
    · rename_i room
      exact consistent.beyond ino inside o past room
    · rfl
  have hit : inodeData after.blocks ino offset ≠ 0 := by
    rw [inodeData, height]
    exact written.present
  refine ⟨⟨prepared.within.trans written.within, written.linked, written.inodes.trans inodes,
    words, ?_, ?_, ?_, ?_, by rw [size]; omega⟩, ?_⟩
  · rw [inodeTree, height]
    exact walked.trans owned
  · intro x nonzero away outside
    have unvisited := written.kept x nonzero away
    rw [slot, owned] at unvisited
    rw [unvisited outside]
    exact kept x nonzero away fun free => outside (Multiset.mem_add.mpr (Or.inl free))
  · intro o past room
    rw [size] at past
    rw [height] at room
    exact holes o room (by omega) (by omega)
  · rw [size]
    by_cases same : max (inodeSize disk.blocks ino) (offset + 1) - 1 = offset
    · rw [same]
      exact hit
    · have below : inodeSize disk.blocks ino - 1 < inodeSize disk.blocks ino := by omega
      rw [others _ (by omega) same, show max (inodeSize disk.blocks ino) (offset + 1) - 1 =
        inodeSize disk.blocks ino - 1 by omega, if_pos (size_le_capacity _ below)]
      exact consistent.last ino inside (by omega)
  · ext1
    · exact size
    · funext o
      by_cases same : o = offset
      · subst o
        have target := written.stored
        have located : dataBlock after.blocks offset (inodeHeight after.blocks ino)
            (inodeRoot after.blocks ino) ≠ 0 := hit
        rw [File.write_self, fileOf_block (by omega), contents, if_neg located, height]
        exact target
      · by_cases old : o < inodeSize disk.blocks ino
        · -- Old blocks stay where they were, with their contents.
          rw [File.write_old block same old, fileOf_block old, fileOf_block (by omega)]
          have bounded : o < refsPerBlock ^ heightAfter disk.blocks ino offset := by omega
          have equal := others o bounded same
          rw [if_pos (size_le_capacity _ old)] at equal
          have target := data o bounded
          rw [if_pos (size_le_capacity _ old)] at target
          simp only [inodeData] at equal target
          simp only [contents, equal]
          split
          · rfl
          · rename_i present
            have stable := written.unchanged o
              (by rw [Nat.mod_eq_of_lt bounded, offsetMod]; exact same)
            rw [slot, target] at stable
            have member : inodeData disk.blocks ino o ∈ inodeTree disk.blocks ino :=
              leaf_mem_nodes (by decide) _ _ _ present
            have share := consistent.share_bounds inside (Multiset.mem_add.mpr (Or.inr member))
            have low := (inodeBlock_bounds inside).2
            have unfree : inodeData disk.blocks ino o ∉ freeBlocks disk.blocks chain := fun free =>
              Multiset.disjoint_left.mp (Multiset.nodup_add.mp
                (consistent.share_nodup inside)).2.2 free member
            rw [stable present]
            exact kept (inodeData disk.blocks ino o) (by omega) (by omega) unfree
        · rw [File.write_gap block same (Nat.le_of_not_lt old)]
          rcases Nat.lt_or_ge o (inodeSize after.blocks ino) with inner | past
          · have hole : dataBlock after.blocks o (inodeHeight after.blocks ino)
                (inodeRoot after.blocks ino) = 0 :=
              holes o (by omega) same (Nat.le_of_not_lt old)
            rw [fileOf_block inner, contents, if_pos hole]
          · exact fileOf_past past

/-- A prepared inode gives the walk everything it relies on. -/
theorem Prepared.descent (prepared : Prepared disk base old new chain rest ino offset)
    (consistent : Consistent n disk chain) (inside : ino < inodesPerBlock * n)
    (current : new.superblock = base.blocks 0)
    (slot : new.inodeblock.word (2 * (ino % inodesPerBlock)) = new.root) :
    Descent base new rest (heightAfter disk.blocks ino offset) (inodeBlock ino) new.inodeblock
      (2 * (ino % inodesPerBlock)) := by
  -- The tree and the free blocks are the share of the inode, in which no block is twice.
  obtain ⟨owned, _, _, linked, _⟩ := prepared.free_eq consistent inside
  obtain ⟨nonzero, low⟩ := inodeBlock_bounds inside
  have size := prepared.within.size
  have room := consistent.room
  refine ⟨current, linked, root_inside (inode_position ino), by omega, nonzero,
    fun _ => prepared.inode, ?_, ?_, ?_, by rw [size]; exact consistent.narrow⟩
  · rw [slot, owned]
    exact consistent.share_nodup inside
  · rw [slot, owned, size]
    exact fun x member => (consistent.share_bounds inside member).2
  · rw [slot, owned]
    exact consistent.outside inside low

/-- The walk below a prepared inode ends the write, or panics on an exhausted free list. -/
theorem Prepared.ends_walk (prepared : Prepared disk base old new chain rest ino offset)
    (consistent : Consistent n disk chain) (inside : ino < inodesPerBlock * n)
    (small : offset < 2 ^ 32 - 1) (current : new.superblock = base.blocks 0)
    (position : new.inode = ino % inodesPerBlock) (blockno : new.inodeBlockno = inodeBlock ino) :
    Ends (writeWalk offset block (heightAfter disk.blocks ino offset) new new.inodeBlockno
        new.inodeblock (2 * new.inode))
      (fun _ after => ∃ final, Updated disk after chain final ino ∧
        fileOf after.blocks ino = (fileOf disk.blocks ino).write offset block ∧
        (freeBlocks base.blocks rest).card ≤
          (freeBlocks after.blocks final).card + (heightAfter disk.blocks ino offset + 1))
      (fun message after =>
        Exhausted base after rest (heightAfter disk.blocks ino offset + 1) message) base := by
  -- The walk starts at the word of the root in the block of the inode.
  have slot : new.inodeblock.word (2 * (ino % inodesPerBlock)) = new.root := by
    rw [Snapshot.root, position]
  have descent := prepared.descent consistent inside current slot
  rw [blockno, position]
  refine (ends_writeWalk (by omega) block _ descent).imp ?_ fun _ _ => id
  rintro _ after ⟨final, written, used⟩
  obtain ⟨updated, file⟩ := prepared.updated consistent inside small written slot
  exact ⟨final, updated, file, used⟩

/-- A file may grow when its disk is consistent. -/
theorem Consistent.growth (consistent : Consistent n disk chain)
    (inside : ino < inodesPerBlock * n) {middle : Disk} (same : middle.blocks = disk.blocks)
    (size : middle.nblocks = disk.nblocks) (current : old.superblock = disk.blocks 0)
    (position : old.inode = ino % inodesPerBlock) (root : old.root = inodeRoot disk.blocks ino) :
    Growth middle old chain (inodeHeight disk.blocks ino) := by
  refine ⟨by rw [same]; exact current, by rw [same]; exact consistent.linked,
    by rw [position]; exact inode_position ino, ?_, ?_, by rw [size]; exact consistent.narrow⟩
  · rw [same, root]
    exact consistent.share_nodup inside
  · rw [same, root, size]
    exact fun x member => (consistent.share_bounds inside member).2

/-- Growing from a disk with the same blocks is growing from the disk itself. -/
theorem Grown.of_same {middle : Disk} {height taller : Nat} (same : middle.blocks = disk.blocks)
    (within : disk.Within middle) (grown : Grown middle after old new chain rest height taller) :
    Grown disk after old new chain rest height taller := by
  obtain ⟨further, current, linked, inodes, blockno, inode, words, owned, shrinks, kept, data⟩ :=
    grown
  rw [same] at inodes owned shrinks kept data
  exact ⟨within.trans further, current, linked, inodes, blockno, inode, words, owned, shrinks,
    kept, data⟩

/-- The snapshot in which a growing file already has its new block count. -/
theorem snapshotOf_setNblocks (blocks : Nat → Block) (ino size : Nat) (small : size < 2 ^ 32) :
    ((snapshotOf blocks ino).setNblocks size).root = inodeRoot blocks ino ∧
    ((snapshotOf blocks ino).setNblocks size).nblocks = size ∧
    ∀ i < refsPerBlock, i ≠ 2 * (ino % inodesPerBlock) + 1 →
      ((snapshotOf blocks ino).setNblocks size).inodeblock.word i =
        (blocks (inodeBlock ino)).word i := by
  have others : ∀ i < refsPerBlock, i ≠ 2 * (ino % inodesPerBlock) + 1 →
      ((snapshotOf blocks ino).setNblocks size).inodeblock.word i =
        (blocks (inodeBlock ino)).word i :=
    fun i bounded different => Buffer.word_setWord_ne _ _ (ref_inside bounded) different
  refine ⟨others _ (root_inside (inode_position ino)) (by omega), ?_, others⟩
  have stored := Buffer.word_setWord_same (snapshotOf blocks ino).inodeblock size
    (ref_inside (nblocks_inside (inode_position ino)))
  rw [Nat.mod_eq_of_lt small] at stored
  exact stored

/-- Writing inside a file starts from an unchanged tree. -/
theorem prepared_inside {middle : Disk} (consistent : Consistent n disk chain)
    (inside : ino < inodesPerBlock * n) (same : middle.blocks = disk.blocks)
    (within : disk.Within middle) (below : offset < inodeSize disk.blocks ino) :
    Prepared disk middle (snapshotOf disk.blocks ino) (snapshotOf disk.blocks ino) chain chain
      ino offset := by
  -- The tree is tall enough for the file as it is.
  have height : levelsOf (max (inodeSize disk.blocks ino) (offset + 1)) =
      inodeHeight disk.blocks ino := by
    rw [inodeHeight, Nat.max_eq_left (by omega)]
  have growth : Growth disk (snapshotOf disk.blocks ino) chain (inodeHeight disk.blocks ino) :=
    consistent.growth inside rfl rfl rfl rfl (snapshotOf_root _ _)
  refine ⟨snapshotOf_root _ _, rfl, fun _ _ _ => rfl, ?_, ⟨disk, ?_, ?_⟩, within, ?_⟩
  · rw [snapshotOf_nblocks]
    omega
  · rw [height]
    exact growth.refl
  · exact fun x _ => by rw [same]
  · rw [same]
    rfl

/-- Writing past the end of a file starts from a tree grown to its new height. -/
theorem prepared_past {middle : Disk} (consistent : Consistent n disk chain)
    (inside : ino < inodesPerBlock * n) (small : offset < 2 ^ 32 - 1)
    (past : inodeSize disk.blocks ino ≤ offset)
    (grown : Grown disk middle ((snapshotOf disk.blocks ino).setNblocks (offset + 1)) new chain
      rest (inodeHeight disk.blocks ino) (countLevels offset 0)) :
    Prepared disk (middle.put (inodeBlock ino) new.inodeblock)
      ((snapshotOf disk.blocks ino).setNblocks (offset + 1)) new chain rest ino offset := by
  -- The tree is grown first, and holds the old file afterwards.
  obtain ⟨root, size, words⟩ := snapshotOf_setNblocks disk.blocks ino (offset + 1) (by omega)
  have low := (inodeBlock_bounds inside).2
  have room := consistent.room
  have longer : max (inodeSize disk.blocks ino) (offset + 1) = offset + 1 := by omega
  refine ⟨root, rfl, words, by rw [size, longer], ⟨middle, ?_, ?_⟩, ?_, ?_⟩
  · rw [longer, levelsOf_succ]
    exact grown
  · exact fun x different => Function.update_of_ne different _ _
  · refine grown.within.trans (Disk.Within.put _ ?_)
    rw [grown.within.size]
    omega
  · exact Function.update_self ..

/-- Storing the inode block after growing leaves the free list alone. -/
theorem Grown.free_put {middle : Disk} {taller : Nat} (consistent : Consistent n disk chain)
    (inside : ino < inodesPerBlock * n) (root : old.root = inodeRoot disk.blocks ino)
    (grown : Grown disk middle old new chain rest (inodeHeight disk.blocks ino) taller)
    (block : Block) :
    freeBlocks (middle.put (inodeBlock ino) block).blocks rest = freeBlocks middle.blocks rest := by
  have owned := grown.owned
  rw [root] at owned
  refine freeBlocks_congr fun x listed => Function.update_of_ne ?_ _ _
  rintro rfl
  refine consistent.outside inside (inodeBlock_bounds inside).2 (owned ▸ ?_)
  exact Multiset.mem_add.mpr (Or.inl (mem_freeBlocks_of_mem listed))

/-- A write to a file of a consistent disk returns zero and is the write of the abstract file. -/
theorem ends_treediskWrite (consistent : Consistent n disk chain)
    (inside : ino < inodesPerBlock * n) (small : offset < 2 ^ 32 - 1) :
    Ends (treediskWrite ino offset block)
      (fun result after => result = 0 ∧ ∃ final, Updated disk after chain final ino ∧
        fileOf after.blocks ino = (fileOf disk.blocks ino).write offset block ∧
        (freeBlocks disk.blocks chain).card ≤ (freeBlocks after.blocks final).card +
          (fileOf disk.blocks ino).blocksNeeded offset)
      (fun message after =>
        Exhausted disk after chain ((fileOf disk.blocks ino).blocksNeeded offset) message)
      disk := by
  obtain ⟨nonzero, low⟩ := inodeBlock_bounds inside
  have room := consistent.room
  simp only [treediskWrite, ends_bind]
  refine (ends_getSnapshot consistent.mounted inside).imp ?_ fun _ _ => False.elim
  rintro _ middle ⟨rfl, same, within⟩
  simp only [snapshotOf_nblocks]
  have needed : (fileOf disk.blocks ino).blocksNeeded offset =
      heightAfter disk.blocks ino offset + 1 +
        (heightAfter disk.blocks ino offset - inodeHeight disk.blocks ino) := Nat.add_comm _ _
  simp only [needed]
  by_cases past : offset ≥ inodeSize disk.blocks ino
  · obtain ⟨root, size, _⟩ := snapshotOf_setNblocks disk.blocks ino (offset + 1) (by omega)
    have taller : levelsOf (inodeSize disk.blocks ino) ≤ countLevels offset 0 :=
      levelsOf_le_countLevels (by omega) (by omega)
    have growth := consistent.growth inside same within.size
      (show ((snapshotOf disk.blocks ino).setNblocks (offset + 1)).superblock = disk.blocks 0
        from rfl) rfl root
    simp only [past, if_true, Nat.mod_eq_of_lt (show offset + 1 < 2 ^ 32 by omega), size,
      Nat.add_one_ne_zero, if_false, ends_bind]
    refine (ends_growLevels (countLevels offset 0 - levelsOf (inodeSize disk.blocks ino))
      growth).imp ?_ ?_
    · rintro new taken ⟨rest, grownHere, count⟩
      rw [inodeHeight, Nat.add_sub_cancel' taller] at grownHere
      have grown := Grown.of_same same within grownHere
      have prepared := prepared_past consistent inside small past grown
      have recorded : new.nblocks = offset + 1 := by
        have words := grown.words _ (nblocks_inside (inode_position ino)) (by
          show 2 * (ino % inodesPerBlock) + 1 ≠ 2 * (ino % inodesPerBlock)
          omega)
        have position : new.inode = ino % inodesPerBlock := grown.inode
        rw [Snapshot.nblocks, position, words]
        exact size
      have blockno : new.inodeBlockno = inodeBlock ino := grown.blockno
      have zero : (taken.put (inodeBlock ino) new.inodeblock).blocks 0 = taken.blocks 0 :=
        Function.update_of_ne (Ne.symm nonzero) _ _
      have stored : new.inodeBlockno < taken.nblocks := by
        rw [blockno, grown.within.size]
        omega
      have height : max (levelsOf (inodeSize disk.blocks ino)) (countLevels offset 0) =
          heightAfter disk.blocks ino offset := by
        rw [Nat.max_eq_right taller, heightAfter, Nat.max_eq_right (by omega), levelsOf_succ]
      simp only [recorded, Nat.add_one_ne_zero, if_false, ends_writeOrPanic stored, height]
      simp only [show taken.put new.inodeBlockno new.inodeblock =
        taken.put (inodeBlock ino) new.inodeblock by rw [blockno]]
      -- The levels inserted before the walk have taken one block each.
      have levels : (freeBlocks disk.blocks chain).card =
          (freeBlocks (taken.put (inodeBlock ino) new.inodeblock).blocks rest).card +
            (heightAfter disk.blocks ino offset - inodeHeight disk.blocks ino) := by
        rw [same] at count
        rw [grown.free_put consistent inside root new.inodeblock, count, inodeHeight, ← height,
          Nat.max_eq_right taller]
      refine (prepared.ends_walk consistent inside small (by rw [zero]; exact grown.current)
        grown.inode blockno).imp ?_ ?_
      · rintro _ after ⟨final, updated, file, used⟩
        exact ⟨rfl, final, updated, file, by omega⟩
      · exact fun message after exhausted => exhausted.earlier prepared.within (by omega)
    · intro message after exhausted
      have tall : countLevels offset 0 = heightAfter disk.blocks ino offset := by
        rw [heightAfter, Nat.max_eq_right (by omega), levelsOf_succ]
      refine (exhausted.of_same same within).more ?_
      rw [inodeHeight, tall]
      omega
  · have below := Nat.lt_of_not_le past
    have prepared := prepared_inside consistent inside same within below
    have height : levelsOf (inodeSize disk.blocks ino) = heightAfter disk.blocks ino offset := by
      rw [heightAfter, Nat.max_eq_left (by omega)]
    simp only [past, if_false, height, ends_bind]
    refine (prepared.ends_walk consistent inside small (by rw [same]; rfl) rfl rfl).imp ?_ ?_
    · rintro _ after ⟨final, updated, file, used⟩
      rw [same] at used
      exact ⟨rfl, final, updated, file, by omega⟩
    · intro message after exhausted
      exact (exhausted.of_same same within).more (Nat.le_add_right _ _)

/-- A write past the last inode fails and leaves the blocks alone. -/
theorem ends_treediskWrite_none (offset : Nat) (block : Block) (consistent : Consistent n disk chain)
    (past : inodesPerBlock * n ≤ ino) :
    Ends (treediskWrite ino offset block)
      (fun result after => result = -1 ∧ after.blocks = disk.blocks ∧ disk.Within after)
      (fun _ _ => False) disk := by
  simp only [treediskWrite, ends_bind]
  refine (ends_getSnapshot_none consistent.mounted past).imp ?_ fun _ _ => id
  rintro _ middle ⟨rfl, same, within⟩
  exact ⟨rfl, same, within⟩

/-- A read past the last inode fails and leaves the blocks alone. -/
theorem ends_treediskRead_none (offset : Nat) (consistent : Consistent n disk chain)
    (past : inodesPerBlock * n ≤ ino) :
    Ends (treediskRead ino offset)
      (fun result after => result = none ∧ after.blocks = disk.blocks ∧ disk.Within after)
      (fun _ _ => False) disk := by
  simp only [treediskRead, ends_bind]
  refine (ends_getSnapshot_none consistent.mounted past).imp ?_ fun _ _ => id
  rintro _ middle ⟨rfl, same, within⟩
  exact ⟨rfl, same, within⟩

end Preparation

end Egos.Treedisk
